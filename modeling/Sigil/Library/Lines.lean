import Mathlib.Data.List.Basic

namespace Sigil
namespace Library

/-!
# Terminated lines

A text is a sequence of lines, each with a stop behind it, and a last line without one.  The
lines that are complete stay the same when the text grows, and the rest of the text can be
read without them.
-/

universe u

namespace Lines

variable {α : Type u}

/-! ## Positions -/

/-- How far lines with their stops reach. -/
def extent : List (List α) → Nat
  | [] => 0
  | line :: lines => line.length + 1 + extent lines

/-- Lines with the positions at which they begin. -/
def locateFrom (position : Nat) : List (List α) → List (Nat × List α)
  | [] => []
  | line :: lines => (position, line) :: locateFrom (position + (line.length + 1)) lines

@[simp] theorem extent_cons (line : List α) (lines : List (List α)) :
    extent (line :: lines) = line.length + 1 + extent lines :=
  rfl

theorem extent_append (first second : List (List α)) :
    extent (first ++ second) = extent first + extent second := by
  induction first with
  | nil => exact (Nat.zero_add _).symm
  | cons line lines inductionHypothesis =>
      rw [List.cons_append, extent_cons, extent_cons, inductionHypothesis, ← Nat.add_assoc]

theorem locateFrom_append (position : Nat) (first second : List (List α)) :
    locateFrom position (first ++ second) =
      locateFrom position first ++ locateFrom (position + extent first) second := by
  induction first generalizing position with
  | nil => rfl
  | cons line lines inductionHypothesis =>
      rw [List.cons_append, locateFrom, locateFrom, inductionHypothesis,
        extent_cons, List.cons_append, Nat.add_assoc]

theorem map_snd_locateFrom (position : Nat) (lines : List (List α)) :
    (locateFrom position lines).map Prod.snd = lines := by
  induction lines generalizing position with
  | nil => rfl
  | cons line lines inductionHypothesis =>
      rw [locateFrom, List.map_cons, inductionHypothesis]

theorem drop_line {stop : α} (line rest : List α) (n : Nat) :
    (line ++ stop :: rest).drop (line.length + 1 + n) = rest.drop n := by
  rw [Nat.add_assoc, List.drop_length_add_append, Nat.add_comm 1 n, List.drop_succ_cons]

/-! ## Complete lines -/

variable [DecidableEq α] (stop : α)

/-- The lines that have a stop behind them. -/
def complete (text : List α) : List (List α) :=
  (text.splitOn stop).dropLast

/-- How far the complete lines of a text reach. -/
def covered (text : List α) : Nat :=
  extent (complete stop text)

variable {stop}

theorem complete_last {text : List α} (last : stop ∉ text) : complete stop text = [] := by
  rw [complete, List.splitOn_eq_singleton last]
  rfl

theorem complete_line {line : List α} (absent : stop ∉ line) (rest : List α) :
    complete stop (line ++ stop :: rest) = line :: complete stop rest := by
  rw [complete, List.splitOn_append_cons_self_of_not_mem absent,
    List.dropLast_cons_of_ne_nil (List.splitOn_ne_nil stop rest), complete]

theorem covered_last {text : List α} (last : stop ∉ text) : covered stop text = 0 := by
  rw [covered, complete_last last]
  rfl

theorem covered_line {line : List α} (absent : stop ∉ line) (rest : List α) :
    covered stop (line ++ stop :: rest) = line.length + 1 + covered stop rest := by
  rw [covered, complete_line absent, extent_cons, covered]

/-- A text is a last line, or a line, a stop and a text. -/
theorem induct (stop : α) {motive : List α → Prop}
    (last : ∀ text, stop ∉ text → motive text)
    (line : ∀ line rest, stop ∉ line → motive rest → motive (line ++ stop :: rest))
    (text : List α) : motive text := by
  induction length : text.length using Nat.strongRecOn generalizing text with
  | ind n inductionHypothesis =>
      by_cases member : stop ∈ text
      · rcases List.eq_append_cons_of_mem member with ⟨before, after, rfl, absent⟩
        refine line before after absent (inductionHypothesis after.length ?_ after rfl)
        rw [← length, List.length_append, List.length_cons]
        omega
      · exact last text member

theorem covered_le_length (text : List α) : covered stop text ≤ text.length := by
  induction text using induct stop with
  | last text absent => exact covered_last absent ▸ Nat.zero_le _
  | line line rest absent inductionHypothesis =>
      rw [covered_line absent, List.length_append, List.length_cons]
      omega

theorem covered_eq_zero_iff {text : List α} : covered stop text = 0 ↔ stop ∉ text := by
  refine ⟨fun nothing member => ?_, covered_last⟩
  rcases List.eq_append_cons_of_mem member with ⟨before, after, rfl, absent⟩
  rw [covered_line absent] at nothing
  omega

/-- A longer text has the same lines, and those of what has been left and added. -/
theorem complete_append (text more : List α) :
    complete stop (text ++ more) =
      complete stop text ++ complete stop (text.drop (covered stop text) ++ more) := by
  induction text using induct stop with
  | last text absent =>
      rw [covered_last absent, complete_last absent]
      rfl
  | line line rest absent inductionHypothesis =>
      rw [List.append_assoc, List.cons_append, complete_line absent, complete_line absent,
        covered_line absent, drop_line, inductionHypothesis, List.cons_append]

theorem covered_append (text more : List α) :
    covered stop (text ++ more) =
      covered stop text + covered stop (text.drop (covered stop text) ++ more) := by
  rw [covered, complete_append, extent_append, covered, covered]

theorem drop_covered_append (text more : List α) :
    (text ++ more).drop (covered stop text) = text.drop (covered stop text) ++ more :=
  List.drop_append_of_le_length (covered_le_length text)

/-- The part with the complete lines. -/
theorem complete_take (text : List α) :
    complete stop (text.take (covered stop text)) = complete stop text := by
  induction text using induct stop with
  | last text absent =>
      rw [covered_last absent, complete_last absent]
      exact complete_last List.not_mem_nil
  | line line rest absent inductionHypothesis =>
      rw [covered_line absent, Nat.add_assoc, List.take_length_add_append, Nat.add_comm 1,
        List.take_succ_cons, complete_line absent, complete_line absent, inductionHypothesis]

end Lines

end Library
end Sigil
