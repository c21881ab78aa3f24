import Mathlib.Data.List.Basic

namespace Sigil
namespace Library
namespace Brackets

/-!
# Nesting

Some symbols open a bracket and some close one.  The nesting of a word is the number of
brackets that are open behind it; there is none when a bracket is closed that has not been
opened.  A word is balanced when it leaves the nesting as it is.  A separator that stands
outside all brackets, in front of a part without such separators, is the last one, so a word
that has been joined from such parts has only one reading.
-/

universe u v

/-- What a symbol does to the nesting. -/
inductive Turn where
  | opens
  | closes
  | stays
  deriving DecidableEq, Repr

variable {α : Type u} {β : Type v}

/-- The number of open brackets behind a word, from the number in front of it. -/
def nesting (turn : α → Turn) : Nat → List α → Option Nat
  | depth, [] => some depth
  | depth, x :: word =>
      match turn x, depth with
      | .stays, depth => nesting turn depth word
      | .opens, depth => nesting turn (depth + 1) word
      | .closes, depth + 1 => nesting turn depth word
      | .closes, 0 => none

def Balanced (turn : α → Turn) (word : List α) : Prop :=
  nesting turn 0 word = some 0

instance (turn : α → Turn) (word : List α) : Decidable (Balanced turn word) :=
  inferInstanceAs (Decidable (_ = _))

variable {turn : α → Turn}

theorem nesting_append (depth : Nat) (first second : List α) :
    nesting turn depth (first ++ second) =
      (nesting turn depth first).bind fun depth => nesting turn depth second := by
  induction first generalizing depth with
  | nil => simp [nesting]
  | cons x first inductionHypothesis =>
      cases isTurn : turn x with
      | stays => simp [nesting, isTurn, inductionHypothesis]
      | opens => simp [nesting, isTurn, inductionHypothesis]
      | closes =>
          cases depth with
          | zero => simp [nesting, isTurn]
          | succ depth => simp [nesting, isTurn, inductionHypothesis]

/-- Brackets around a word stay open behind it. -/
theorem nesting_add {depth after : Nat} {word : List α}
    (nested : nesting turn depth word = some after) (more : Nat) :
    nesting turn (depth + more) word = some (after + more) := by
  induction word generalizing depth with
  | nil => simpa [nesting] using nested
  | cons x word inductionHypothesis =>
      cases isTurn : turn x with
      | stays =>
          simp only [nesting, isTurn] at nested ⊢
          exact inductionHypothesis nested
      | opens =>
          simp only [nesting, isTurn] at nested ⊢
          rw [Nat.add_right_comm]
          exact inductionHypothesis nested
      | closes =>
          cases depth with
          | zero => simp [nesting, isTurn] at nested
          | succ depth =>
              simp only [nesting, isTurn] at nested
              rw [Nat.add_right_comm]
              simp only [nesting, isTurn]
              exact inductionHypothesis nested

/-- A word without brackets leaves the nesting as it is. -/
theorem nesting_of_stays {word : List α} (stays : ∀ x ∈ word, turn x = .stays) (depth : Nat) :
    nesting turn depth word = some depth := by
  induction word with
  | nil => simp [nesting]
  | cons x word inductionHypothesis =>
      rcases List.forall_mem_cons.mp stays with ⟨here, later⟩
      simp [nesting, here, inductionHypothesis later]

theorem Balanced.nesting_eq {word : List α} (balanced : Balanced turn word) (depth : Nat) :
    nesting turn depth word = some depth := by
  simpa using nesting_add balanced depth

theorem Balanced.append {first second : List α} (left : Balanced turn first)
    (right : Balanced turn second) : Balanced turn (first ++ second) := by
  rw [Balanced, nesting_append, left.nesting_eq]
  exact right

/-- A part of a balanced word leaves some nesting. -/
theorem Balanced.prefix_nesting {first second : List α}
    (balanced : Balanced turn (first ++ second)) :
    ∃ depth, nesting turn 0 first = some depth := by
  rw [Balanced, nesting_append] at balanced
  rcases Option.bind_eq_some_iff.mp balanced with ⟨depth, nested, -⟩
  exact ⟨depth, nested⟩

/-! ## Words in brackets -/

variable {opening closing : α}

theorem Balanced.wrap {word : List α} (opens : turn opening = .opens)
    (closes : turn closing = .closes) (balanced : Balanced turn word) :
    Balanced turn (opening :: word ++ [closing]) := by
  simp [Balanced, nesting, opens, closes, nesting_append, balanced.nesting_eq]

/-- Inside the brackets a bracket is open. -/
theorem Balanced.open_inside {word first second : List α} (opens : turn opening = .opens)
    (balanced : Balanced turn word) (parts : opening :: word ++ [closing] = first ++ second)
    (left : first ≠ []) (right : second ≠ []) : nesting turn 0 first ≠ some 0 := by
  cases first with
  | nil => exact absurd rfl left
  | cons x first =>
      rw [List.cons_append, List.cons_append, List.cons.injEq] at parts
      rcases parts with ⟨rfl, parts⟩
      rcases List.eq_nil_or_concat second with none | ⟨front, last, isLast⟩
      · exact absurd none right
      · rw [isLast, List.concat_eq_append, ← List.append_assoc] at parts
        have whole := (List.append_inj' parts rfl).1
        rw [whole] at balanced
        rcases balanced.prefix_nesting with ⟨depth, nested⟩
        simp [nesting, opens, nesting_add nested 1]

/-! ## Separators outside all brackets -/

/-- Wherever the separator stands in the word, some bracket is open. -/
def Guarded (turn : α → Turn) (sep : α) (word : List α) : Prop :=
  ∀ first second, word = first ++ sep :: second → nesting turn 0 first ≠ some 0

variable {sep : α}

theorem guarded_of_not_mem {word : List α} (absent : sep ∉ word) : Guarded turn sep word := by
  intro first second parts
  rw [parts] at absent
  exact absurd (List.mem_append_right first List.mem_cons_self) absent

theorem Balanced.guarded_wrap {word : List α} (opens : turn opening = .opens)
    (balanced : Balanced turn word) (other : sep ≠ opening) :
    Guarded turn sep (opening :: word ++ [closing]) := by
  intro first second parts
  cases first with
  | nil =>
      rw [List.nil_append, List.cons_append, List.cons.injEq] at parts
      exact absurd parts.1.symm other
  | cons x first =>
      apply balanced.open_inside opens parts (List.cons_ne_nil x first)
        (List.cons_ne_nil sep second)

/-- Two parts with another separator between them. -/
theorem Guarded.append {left right : List α} {mark : α} (guardedLeft : Guarded turn sep left)
    (guardedRight : Guarded turn sep right) (balanced : Balanced turn left) (other : sep ≠ mark)
    (stays : turn mark = .stays) : Guarded turn sep (left ++ mark :: right) := by
  intro first second parts
  rcases List.append_eq_append_iff.mp parts with ⟨middle, rfl, rest⟩ | ⟨middle, rfl, rest⟩
  · cases middle with
    | nil =>
        rw [List.nil_append, List.cons.injEq] at rest
        exact absurd rest.1.symm other
    | cons x middle =>
        rw [List.cons_append, List.cons.injEq] at rest
        rcases rest with ⟨rfl, rest⟩
        intro nested
        apply guardedRight middle second rest
        simpa [nesting_append, balanced.nesting_eq, nesting, stays] using nested
  · cases middle with
    | nil =>
        rw [List.nil_append, List.cons.injEq] at rest
        exact absurd rest.1 other
    | cons x middle =>
        rw [List.cons_append, List.cons.injEq] at rest
        rcases rest with ⟨rfl, -⟩
        exact guardedLeft first middle rfl

/-- The last separator outside all brackets is where it has been put. -/
theorem last_separator {left right left' right' : List α} (stays : turn sep = .stays)
    (balanced : Balanced turn left) (guarded : Guarded turn sep right)
    (balanced' : Balanced turn left') (guarded' : Guarded turn sep right')
    (same : left ++ sep :: right = left' ++ sep :: right') : left = left' ∧ right = right' := by
  -- a separator behind the one of the other word would be unguarded there
  have later : ∀ {left right left' right' middle : List α}, Balanced turn left →
      Guarded turn sep right → Balanced turn left' → left' = left ++ middle →
      sep :: right = middle ++ sep :: right' → middle = [] := by
    intro left right left' right' middle balanced guarded balanced' whole rest
    cases middle with
    | nil => rfl
    | cons x middle =>
        rw [List.cons_append, List.cons.injEq] at rest
        rcases rest with ⟨rfl, rest⟩
        rw [whole] at balanced'
        refine absurd ?_ (guarded middle right' rest)
        simpa [Balanced, nesting_append, balanced.nesting_eq, nesting, stays] using balanced'
  rcases List.append_eq_append_iff.mp same with
    ⟨middle, whole, rest⟩ | ⟨middle, whole, rest⟩
  · cases later balanced guarded balanced' whole rest
    simpa using And.intro whole.symm rest
  · cases later balanced' guarded' balanced whole rest
    simpa using And.intro whole rest.symm

end Brackets
end Library
end Sigil
