import Mathlib.Data.List.Basic

namespace Sigil
namespace Library
namespace Quoted

/-!
# Quoted literals

A literal stands between two marks, and a mark in its content is doubled.  A scanner that
reads a text from left to right finds a literal where one has been put, with its content,
whatever the content is, as long as no other mark follows it.
-/

universe u

variable {α : Type u} [DecidableEq α] (mark : α)

/-- Every mark twice. -/
def double (content : List α) : List α :=
  content.flatMap fun x => if x = mark then [mark, mark] else [x]

/-- A literal. -/
def quote (content : List α) : List α :=
  mark :: (double mark content ++ [mark])

/-- Where the scanner stands: outside of literals, in one of which it has read something, or
behind a mark in one. -/
inductive Scan (α : Type u) where
  | code
  | inside (read : List α)
  | marked (read : List α)

/-- The contents of the literals, if the last one is closed. -/
def literals : Scan α → List α → Option (List (List α))
  | .code, [] => some []
  | .inside _, [] => none
  | .marked read, [] => some [read]
  | .code, x :: rest => if x = mark then literals (.inside []) rest else literals .code rest
  | .inside read, x :: rest =>
      if x = mark then literals (.marked read) rest else literals (.inside (read ++ [x])) rest
  | .marked read, x :: rest =>
      if x = mark then literals (.inside (read ++ [mark])) rest
      else (literals .code rest).map fun contents => read :: contents

/-- In front of what is no mark, the text is read as these literals. -/
def Reads (text : List α) (contents : List (List α)) : Prop :=
  ∀ rest, rest.head? ≠ some mark →
    literals mark .code (text ++ rest) = (literals mark .code rest).map fun others =>
      contents ++ others

variable {mark}

/-- The content of a literal is read up to the mark behind it. -/
theorem literals_inside (content read : List α) {rest : List α}
    (follows : rest.head? ≠ some mark) :
    literals mark (.inside read) (double mark content ++ mark :: rest) =
      (literals mark .code rest).map fun contents => (read ++ content) :: contents := by
  induction content generalizing read with
  | nil =>
      rw [double, List.flatMap_nil, List.nil_append, literals, if_pos rfl, List.append_nil]
      cases rest with
      | nil => rfl
      | cons x rest =>
          have noMark : x ≠ mark := fun same => follows (congrArg some same)
          rw [literals, if_neg noMark, literals, if_neg noMark]
  | cons x content inductionHypothesis =>
      have longer := inductionHypothesis (read ++ [x])
      rw [List.append_assoc, List.singleton_append] at longer
      rw [double, List.flatMap_cons, List.append_assoc]
      by_cases isMark : x = mark
      · subst isMark
        rw [if_pos rfl, List.cons_append, literals, if_pos rfl, List.singleton_append,
          literals, if_pos rfl]
        exact longer
      · rw [if_neg isMark, List.singleton_append, literals, if_neg isMark]
        exact longer

/-- What has no mark is passed over. -/
theorem literals_code {text : List α} (absent : mark ∉ text) (rest : List α) :
    literals mark .code (text ++ rest) = literals mark .code rest := by
  induction text with
  | nil => rfl
  | cons x text inductionHypothesis =>
      rw [List.mem_cons, not_or] at absent
      rw [List.cons_append, literals, if_neg (Ne.symm absent.1), inductionHypothesis absent.2]

theorem reads_code {text : List α} (absent : mark ∉ text) : Reads mark text [] :=
  fun rest _ => (literals_code absent rest).trans Option.map_id'.symm

theorem reads_quote (content : List α) : Reads mark (quote mark content) [content] := by
  intro rest follows
  rw [quote, List.cons_append, List.append_assoc, List.singleton_append, literals, if_pos rfl,
    literals_inside content [] follows]
  rfl

theorem Reads.append {first second : List α} {contents others : List (List α)}
    (reads : Reads mark first contents) (readsNext : Reads mark second others)
    (opens : second.head? ≠ some mark) : Reads mark (first ++ second) (contents ++ others) := by
  intro rest follows
  have behind : (second ++ rest).head? ≠ some mark := by
    cases second with
    | nil => exact follows
    | cons x second => exact opens
  rw [List.append_assoc, reads _ behind, readsNext rest follows, Option.map_map]
  exact congrArg (fun f => Option.map f _) (funext fun later => (List.append_assoc _ _ _).symm)

theorem Reads.behind_code {text second : List α} {contents : List (List α)}
    (absent : mark ∉ text) (reads : Reads mark second contents) :
    Reads mark (text ++ second) contents := by
  intro rest follows
  rw [List.append_assoc, literals_code absent]
  exact reads rest follows

/-- The literals of a whole text. -/
theorem Reads.literals_eq {text : List α} {contents : List (List α)}
    (reads : Reads mark text contents) :
    literals mark .code text = some contents := by
  have whole := reads [] (by simp)
  rw [List.append_nil] at whole
  rw [whole, literals, Option.map_some, List.append_nil]

end Quoted
end Library
end Sigil
