import Mathlib.Data.List.Count
import Mathlib.Order.Lattice

namespace Sigil
namespace Library

/-!
# The best of a list

A list that is sorted downwards is known by how many of its elements reach each threshold.
Leaving elements out does not change the `k` best if and only if each of them is outranked by `k`
of the others.
-/

universe u

variable {S : Type u} [LinearOrder S]

/-- How many elements reach a threshold. -/
def reaching (x : S) (list : List S) : Nat :=
  list.countP fun y => x ≤ y

theorem reaching_cons_of_le {x a : S} (reaches : x ≤ a) (list : List S) :
    reaching x (a :: list) = reaching x list + 1 :=
  List.countP_cons_of_pos (decide_eq_true reaches)

theorem reaching_cons (x a : S) (list : List S) :
    reaching x (a :: list) = reaching x list + reaching x [a] := by
  unfold reaching
  rw [← List.singleton_append, List.countP_append, Nat.add_comm]

theorem reaching_pos {x z : S} {list : List S} (member : z ∈ list) (reaches : x ≤ z) :
    0 < reaching x list :=
  List.countP_pos_iff.mpr ⟨z, member, decide_eq_true reaches⟩

theorem reaching_antitone {x z : S} (below : x ≤ z) (list : List S) :
    reaching z list ≤ reaching x list :=
  List.countP_mono_left fun _ _ above => decide_eq_true (below.trans (of_decide_eq_true above))

theorem reaching_eq_zero {a x : S} {list : List S} (sorted : (a :: list).Pairwise (· ≥ ·))
    (below : ¬ x ≤ a) : reaching x (a :: list) = 0 := by
  unfold reaching
  rw [List.countP_eq_zero]
  intro y member reaches
  have above : x ≤ y := of_decide_eq_true reaches
  rcases List.mem_cons.mp member with rfl | later
  · exact below above
  · have smaller : y ≤ a := (List.pairwise_cons.mp sorted).1 y later
    exact below (above.trans smaller)

/-- The best elements come first. -/
theorem reaching_take {list : List S} (sorted : list.Pairwise (· ≥ ·)) (k : Nat) (x : S) :
    reaching x (list.take k) = min k (reaching x list) := by
  induction list generalizing k with
  | nil =>
      rw [List.take_nil]
      exact (Nat.min_zero k).symm
  | cons a list inductionHypothesis =>
      cases k with
      | zero => exact (Nat.zero_min _).symm
      | succ k =>
          by_cases reaches : x ≤ a
          · rw [List.take_succ_cons, reaching_cons_of_le reaches, reaching_cons_of_le reaches,
              inductionHypothesis (List.pairwise_cons.mp sorted).2, Nat.add_min_add_right]
          · have taken := sorted.sublist (List.take_sublist (k + 1) (a :: list))
            rw [List.take_succ_cons] at taken ⊢
            rw [reaching_eq_zero taken reaches, reaching_eq_zero sorted reaches, Nat.min_zero]

theorem eq_of_reaching {left right : List S} (sorted : left.Pairwise (· ≥ ·))
    (sorted' : right.Pairwise (· ≥ ·)) (same : ∀ x, reaching x left = reaching x right) :
    left = right := by
  induction left generalizing right with
  | nil =>
      cases right with
      | nil => rfl
      | cons b right =>
          have some_ := reaching_pos (List.mem_cons_self (l := right)) (le_refl b)
          exact absurd (same b) (Nat.ne_of_lt some_)
  | cons a left inductionHypothesis =>
      have inLeft := reaching_pos (List.mem_cons_self (l := left)) (le_refl a)
      cases right with
      | nil => exact absurd (same a).symm (Nat.ne_of_lt inLeft)
      | cons b right =>
          have inRight := reaching_pos (List.mem_cons_self (l := right)) (le_refl b)
          have head : a = b := by
            apply le_antisymm
            · by_contra above
              rw [same a, reaching_eq_zero sorted' above] at inLeft
              exact Nat.lt_irrefl 0 inLeft
            · by_contra above
              rw [← same b, reaching_eq_zero sorted above] at inRight
              exact Nat.lt_irrefl 0 inRight
          subst head
          refine congrArg (List.cons a) (inductionHypothesis (List.pairwise_cons.mp sorted).2
            (List.pairwise_cons.mp sorted').2 fun x => ?_)
          have counts := same x
          rw [reaching_cons, reaching_cons x a right] at counts
          exact Nat.add_right_cancel counts

/-- The `k` best of a part are the `k` best of the whole if and only if everything else is
outranked by `k` elements of the part. -/
theorem take_eq_take_iff {found missing all : List S} (sorted : found.Pairwise (· ≥ ·))
    (sorted' : all.Pairwise (· ≥ ·)) (perm : all.Perm (found ++ missing)) (k : Nat) :
    found.take k = all.take k ↔ ∀ x, x ∈ missing → k ≤ reaching x found := by
  have total : ∀ x, reaching x all = reaching x found + reaching x missing := by
    intro x
    unfold reaching
    rw [perm.countP_eq, List.countP_append]
  constructor
  · intro same x member
    have counts := congrArg (reaching x) same
    have itself := reaching_pos member (le_refl x)
    rw [reaching_take sorted, reaching_take sorted', total] at counts
    omega
  · intro outranked
    apply eq_of_reaching (sorted.sublist (List.take_sublist k found))
      (sorted'.sublist (List.take_sublist k all))
    intro x
    rw [reaching_take sorted, reaching_take sorted', total]
    rcases Nat.eq_zero_or_pos (reaching x missing) with none_ | some_
    · rw [none_, Nat.add_zero]
    · rcases List.countP_pos_iff.mp some_ with ⟨z, member, reaches⟩
      have enough := Nat.le_trans (outranked z member)
        (reaching_antitone (of_decide_eq_true reaches) found)
      omega

end Library
end Sigil
