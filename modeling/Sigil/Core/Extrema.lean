import Mathlib.Algebra.Order.Ring.Rat

namespace Sigil
namespace Core

/-!
# Greatest and least elements

`max_by` and `min_by` of the standard library, for elements that are compared by a key.
Among elements with equal keys the first gives the last of them and the second the first.
-/

/-- The least finite float, `f32::MIN`, exactly. -/
def f32Min : ℚ :=
  -(2 ^ 128 - 2 ^ 104)

universe u v

variable {α : Type u} {β : Type v} [LinearOrder β] (key : α → β)

/-- The last of the elements with the greatest key. -/
def maxBy : List α → Option α
  | [] => none
  | first :: rest =>
      some (rest.foldl (fun best x => if key best ≤ key x then x else best) first)

/-- The first of the elements with the least key. -/
def minBy : List α → Option α
  | [] => none
  | first :: rest =>
      some (rest.foldl (fun best x => if key best ≤ key x then best else x) first)

/-! ## What they return -/

variable {key}

/-- A fold that chooses one of two elements at a time ends with one of them, and one that
is related to all. -/
private theorem foldl_choose {rel : α → α → Prop} (refl : ∀ x, rel x x)
    (trans : ∀ {x y z}, rel x y → rel y z → rel x z) {choose : α → α → α}
    (either : ∀ best x, choose best x = best ∨ choose best x = x)
    (bound : ∀ best x, rel (choose best x) best ∧ rel (choose best x) x)
    (rest : List α) (first : α) :
    rest.foldl choose first ∈ first :: rest ∧
      ∀ x, x ∈ first :: rest → rel (rest.foldl choose first) x := by
  induction rest generalizing first with
  | nil =>
      refine ⟨List.mem_cons_self, fun x member => ?_⟩
      rw [List.mem_singleton.mp member]
      exact refl first
  | cons second rest inductionHypothesis =>
      have tail := inductionHypothesis (choose first second)
      have head := tail.2 _ List.mem_cons_self
      constructor
      · rcases List.mem_cons.mp tail.1 with equal | later
        · rw [List.foldl_cons, equal]
          rcases either first second with kept | replaced
          · rw [kept]
            exact List.mem_cons_self
          · rw [replaced]
            exact List.mem_cons_of_mem _ List.mem_cons_self
        · exact List.mem_cons_of_mem _ (List.mem_cons_of_mem _ later)
      · intro x member
        rcases List.mem_cons.mp member with rfl | member
        · exact trans head (bound x second).1
        · rcases List.mem_cons.mp member with rfl | later
          · exact trans head (bound first x).2
          · exact tail.2 x (List.mem_cons_of_mem _ later)

theorem maxBy_spec {l : List α} {best : α} (chosen : maxBy key l = some best) :
    best ∈ l ∧ ∀ x, x ∈ l → key x ≤ key best := by
  cases l with
  | nil => exact absurd chosen (Option.some_ne_none best).symm
  | cons first rest =>
      rw [← Option.some.inj chosen]
      apply @foldl_choose _ (fun x y => key y ≤ key x) (fun x => le_refl (key x))
      · exact fun first second => le_trans second first
      · intro best x
        exact (ite_eq_or_eq _ x best).symm
      · intro best x
        by_cases le : key best ≤ key x
        · rw [if_pos le]
          exact ⟨le, le_refl _⟩
        · rw [if_neg le]
          exact ⟨le_refl _, le_of_not_ge le⟩

theorem minBy_spec {l : List α} {best : α} (chosen : minBy key l = some best) :
    best ∈ l ∧ ∀ x, x ∈ l → key best ≤ key x := by
  cases l with
  | nil => exact absurd chosen (Option.some_ne_none best).symm
  | cons first rest =>
      rw [← Option.some.inj chosen]
      apply @foldl_choose _ (fun x y => key x ≤ key y) (fun x => le_refl (key x))
      · exact fun first second => le_trans first second
      · intro best x
        exact ite_eq_or_eq _ best x
      · intro best x
        by_cases le : key best ≤ key x
        · rw [if_pos le]
          exact ⟨le_refl _, le⟩
        · rw [if_neg le]
          exact ⟨le_of_not_ge le, le_refl _⟩

theorem maxBy_eq_none {l : List α} : maxBy key l = none ↔ l = [] := by
  cases l with
  | nil => exact ⟨fun _ => rfl, fun _ => rfl⟩
  | cons first rest =>
      exact ⟨fun none => absurd none (Option.some_ne_none _), fun empty => absurd empty
        (List.cons_ne_nil _ _)⟩

theorem minBy_eq_none {l : List α} : minBy key l = none ↔ l = [] := by
  cases l with
  | nil => exact ⟨fun _ => rfl, fun _ => rfl⟩
  | cons first rest =>
      exact ⟨fun none => absurd none (Option.some_ne_none _), fun empty => absurd empty
        (List.cons_ne_nil _ _)⟩

end Core
end Sigil
