import Mathlib.Data.Set.Basic
import Mathlib.Order.Bounds.Basic
import Mathlib.Order.MinMax

namespace Sigil
namespace Library
namespace EditDistance

/-!
# Edits of a list

An edit inserts, deletes or replaces one element anywhere.  So many edits, one after the other,
turn a list into another one.  An alignment walks through both lists once and pays for each
element that it does not keep.  What edits can do an alignment can do at no higher price, so that
the least numbers are the same, and for alignments the least number obeys a recurrence.
-/

universe u

variable {α : Type u}

/-- One edit. -/
inductive Edit : List α → List α → Prop
  | insert (before after : List α) (y : α) : Edit (before ++ after) (before ++ y :: after)
  | delete (before after : List α) (x : α) : Edit (before ++ x :: after) (before ++ after)
  | replace (before after : List α) (x y : α) : Edit (before ++ x :: after) (before ++ y :: after)

/-- So many edits, one after the other. -/
inductive Edits : Nat → List α → List α → Prop
  | none (a : List α) : Edits 0 a a
  | snoc {n : Nat} {a b c : List α} (edits : Edits n a b) (edit : Edit b c) : Edits (n + 1) a c

variable {a b c : List α} {m n : Nat}

namespace Edit

theorem symm (edit : Edit a b) : Edit b a := by
  cases edit with
  | insert before after y => exact .delete before after y
  | delete before after x => exact .insert before after x
  | replace before after x y => exact .replace before after y x

theorem cons (x : α) (edit : Edit a b) : Edit (x :: a) (x :: b) := by
  cases edit with
  | insert before after y => exact .insert (x :: before) after y
  | delete before after z => exact .delete (x :: before) after z
  | replace before after z y => exact .replace (x :: before) after z y

end Edit

namespace Edits

theorem trans (first : Edits m a b) (second : Edits n b c) : Edits (m + n) a c := by
  induction second with
  | none => exact first
  | snoc _ edit inductionHypothesis => exact (inductionHypothesis first).snoc edit

theorem symm (edits : Edits n a b) : Edits n b a := by
  induction edits with
  | none a => exact .none a
  | snoc _ edit inductionHypothesis =>
      have swapped := (Edits.none _).snoc edit.symm |>.trans inductionHypothesis
      rwa [Nat.zero_add, Nat.add_comm] at swapped

theorem cons (x : α) (edits : Edits n a b) : Edits n (x :: a) (x :: b) := by
  induction edits with
  | none a => exact .none (x :: a)
  | snoc _ edit inductionHypothesis => exact inductionHypothesis.snoc (edit.cons x)

theorem zero_iff : Edits 0 a b ↔ a = b := by
  constructor
  · intro edits
    cases edits
    rfl
  · rintro rfl
    exact .none a

end Edits

/-! ## Alignments -/

variable [DecidableEq α]

/-- What it costs to put an element in the place of another one. -/
def cost (x y : α) : Nat :=
  if x = y then 0 else 1

theorem cost_self (x : α) : cost x x = 0 :=
  if_pos rfl

theorem cost_le_one (x y : α) : cost x y ≤ 1 := by
  rw [cost]
  split
  · exact Nat.zero_le 1
  · exact Nat.le_refl 1

theorem cost_triangle (x y z : α) : cost x z ≤ cost x y + cost y z := by
  by_cases same : x = y
  · rw [same, cost_self, Nat.zero_add]
  · have paid : cost x y = 1 := if_neg same
    have most := cost_le_one x z
    omega

/-- A walk through two lists at some price. -/
inductive Alignment : List α → List α → Nat → Prop
  | nil : Alignment [] [] 0
  | insert {a b : List α} {n : Nat} (y : α) (rest : Alignment a b n) :
      Alignment a (y :: b) (n + 1)
  | delete {a b : List α} {n : Nat} (x : α) (rest : Alignment a b n) :
      Alignment (x :: a) b (n + 1)
  | change {a b : List α} {n : Nat} (x y : α) (rest : Alignment a b n) :
      Alignment (x :: a) (y :: b) (n + cost x y)

namespace Alignment

theorem refl (a : List α) : Alignment a a 0 := by
  induction a with
  | nil => exact .nil
  | cons x a inductionHypothesis =>
      have kept := Alignment.change x x inductionHypothesis
      rwa [cost_self] at kept

/-- The shorter list is changed into a part of the longer one. -/
theorem exists_le_max (a b : List α) : ∃ n, n ≤ max a.length b.length ∧ Alignment a b n := by
  induction a generalizing b with
  | nil =>
      induction b with
      | nil => exact ⟨0, Nat.zero_le _, .nil⟩
      | cons y b inductionHypothesis =>
          rcases inductionHypothesis with ⟨n, bound, rest⟩
          refine ⟨n + 1, ?_, .insert y rest⟩
          simp only [List.length_nil, List.length_cons] at bound ⊢
          omega
  | cons x a inductionHypothesis =>
      cases b with
      | nil =>
          rcases inductionHypothesis [] with ⟨n, bound, rest⟩
          refine ⟨n + 1, ?_, .delete x rest⟩
          simp only [List.length_nil, List.length_cons] at bound ⊢
          omega
      | cons y b =>
          rcases inductionHypothesis b with ⟨n, bound, rest⟩
          have most := cost_le_one x y
          refine ⟨n + cost x y, ?_, .change x y rest⟩
          simp only [List.length_cons]
          omega

theorem append {a' b' : List α} (front : Alignment a b m) (back : Alignment a' b' n) :
    Alignment (a ++ a') (b ++ b') (m + n) := by
  induction front with
  | nil =>
      rw [Nat.zero_add]
      exact back
  | insert y _ inductionHypothesis =>
      rw [Nat.add_right_comm]
      exact .insert y inductionHypothesis
  | delete x _ inductionHypothesis =>
      rw [Nat.add_right_comm]
      exact .delete x inductionHypothesis
  | change x y _ inductionHypothesis =>
      rw [Nat.add_right_comm]
      exact .change x y inductionHypothesis

theorem reverse (alignment : Alignment a b n) : Alignment a.reverse b.reverse n := by
  induction alignment with
  | nil => exact .nil
  | insert y _ inductionHypothesis =>
      have last := inductionHypothesis.append (.insert y .nil)
      rwa [List.append_nil, ← List.reverse_cons] at last
  | delete x _ inductionHypothesis =>
      have last := inductionHypothesis.append (.delete x .nil)
      rwa [List.append_nil, ← List.reverse_cons] at last
  | change x y _ inductionHypothesis =>
      have last := inductionHypothesis.append (.change x y .nil)
      rwa [Nat.zero_add, ← List.reverse_cons, ← List.reverse_cons] at last

/-- One alignment after another.  What the first one inserts the second one may delete again. -/
theorem trans {a b c : List α} {m n : Nat} (first : Alignment a b m) (second : Alignment b c n) :
    ∃ k, k ≤ m + n ∧ Alignment a c k := by
  cases first with
  | nil => exact ⟨n, Nat.le_add_left _ _, second⟩
  | delete x first =>
      rcases first.trans second with ⟨k, bound, rest⟩
      exact ⟨k + 1, by omega, .delete x rest⟩
  | @insert _ b m y rest =>
      cases second with
      | insert z second =>
          rcases (Alignment.insert y rest).trans second with ⟨k, bound, rest⟩
          exact ⟨k + 1, by omega, .insert z rest⟩
      | delete _ second =>
          rcases rest.trans second with ⟨k, bound, rest⟩
          exact ⟨k, by omega, rest⟩
      | change _ z second =>
          rcases rest.trans second with ⟨k, bound, rest⟩
          exact ⟨k + 1, by omega, .insert z rest⟩
  | @change a b m x y rest =>
      cases second with
      | insert z second =>
          rcases (Alignment.change x y rest).trans second with ⟨k, bound, rest⟩
          exact ⟨k + 1, by omega, .insert z rest⟩
      | delete _ second =>
          rcases rest.trans second with ⟨k, bound, rest⟩
          exact ⟨k + 1, by omega, .delete x rest⟩
      | change _ z second =>
          rcases rest.trans second with ⟨k, bound, rest⟩
          have triangle := cost_triangle x y z
          exact ⟨k + cost x z, by omega, .change x z rest⟩
termination_by a.length + b.length + c.length

end Alignment

/-! ## Edits and alignments -/

theorem Edit.alignment (edit : Edit a b) : ∃ n, n ≤ 1 ∧ Alignment a b n := by
  cases edit with
  | insert before after y =>
      exact ⟨_, Nat.le_refl 1, (Alignment.refl before).append (.insert y (.refl after))⟩
  | delete before after x =>
      exact ⟨_, Nat.le_refl 1, (Alignment.refl before).append (.delete x (.refl after))⟩
  | replace before after x y =>
      refine ⟨_, ?_, (Alignment.refl before).append (.change x y (.refl after))⟩
      rw [Nat.zero_add, Nat.zero_add]
      exact cost_le_one x y

theorem Edits.alignment (edits : Edits n a b) : ∃ k, k ≤ n ∧ Alignment a b k := by
  induction edits with
  | none a => exact ⟨0, Nat.le_refl 0, .refl a⟩
  | snoc _ edit inductionHypothesis =>
      rcases inductionHypothesis with ⟨k, bound, before⟩
      rcases edit.alignment with ⟨one, atMost, last⟩
      rcases before.trans last with ⟨total, sum, whole⟩
      exact ⟨total, by omega, whole⟩

theorem Alignment.edits (alignment : Alignment a b n) : Edits n a b := by
  induction alignment with
  | nil => exact .none []
  | insert y _ inductionHypothesis => exact inductionHypothesis.snoc (.insert [] _ y)
  | delete x _ inductionHypothesis => exact (inductionHypothesis.cons x).snoc (.delete [] _ x)
  | change x y _ inductionHypothesis =>
      rw [cost]
      split
      · next same =>
          rw [← same]
          exact inductionHypothesis.cons x
      · exact (inductionHypothesis.cons x).snoc (.replace [] _ x y)

/-- The least number of edits is the least price. -/
theorem isLeast_edits (least : IsLeast {k | Alignment a b k} n) : IsLeast {k | Edits k a b} n := by
  refine ⟨Alignment.edits least.1, fun k edits => ?_⟩
  rcases edits.alignment with ⟨price, bound, alignment⟩
  exact (least.2 alignment).trans bound

/-! ## The recurrence -/

theorem isLeast_nil_left (b : List α) : IsLeast {k | Alignment [] b k} b.length := by
  induction b with
  | nil => exact ⟨.nil, fun k _ => Nat.zero_le k⟩
  | cons y b inductionHypothesis =>
      refine ⟨.insert y inductionHypothesis.1, fun k alignment => ?_⟩
      cases alignment with
      | insert _ rest => exact Nat.succ_le_succ (inductionHypothesis.2 rest)

theorem isLeast_nil_right (a : List α) : IsLeast {k | Alignment a [] k} a.length := by
  induction a with
  | nil => exact ⟨.nil, fun k _ => Nat.zero_le k⟩
  | cons x a inductionHypothesis =>
      refine ⟨.delete x inductionHypothesis.1, fun k alignment => ?_⟩
      cases alignment with
      | delete _ rest => exact Nat.succ_le_succ (inductionHypothesis.2 rest)

/-- The first step of an alignment deletes, inserts or changes. -/
theorem isLeast_cons {x y : α} {deleted inserted changed : Nat}
    (delete : IsLeast {k | Alignment a (y :: b) k} deleted)
    (insert : IsLeast {k | Alignment (x :: a) b k} inserted)
    (change : IsLeast {k | Alignment a b k} changed) :
    IsLeast {k | Alignment (x :: a) (y :: b) k}
      (min (min (deleted + 1) (inserted + 1)) (changed + cost x y)) := by
  constructor
  · rcases min_choice (min (deleted + 1) (inserted + 1)) (changed + cost x y) with first | last
    · rw [first]
      rcases min_choice (deleted + 1) (inserted + 1) with isDelete | isInsert
      · rw [isDelete]
        exact .delete x delete.1
      · rw [isInsert]
        exact .insert y insert.1
    · rw [last]
      exact .change x y change.1
  · intro k alignment
    cases alignment with
    | insert _ rest =>
        have bound := insert.2 rest
        omega
    | delete _ rest =>
        have bound := delete.2 rest
        omega
    | change _ _ rest =>
        have bound := change.2 rest
        omega

end EditDistance
end Library
end Sigil
