import Mathlib.Data.List.Sort

namespace Sigil
namespace Library

/-!
# Stable sorting and ties

A stable sort leaves elements of equal keys in the order of its input.  Two elements of one key
that stand next to each other can be exchanged before without a difference afterwards only if they
are equal, and where all elements of one key are equal no order of the input makes a difference.
-/

universe u v

variable {α : Type u} {κ : Type v} [LinearOrder κ] (key : α → κ)

/-- Sort by a key, the greatest one first. -/
def sortDown (list : List α) : List α :=
  list.insertionSort fun a b => key b ≤ key a

instance total_keys : Std.Total fun a b => key b ≤ key a :=
  ⟨fun a b => le_total (key b) (key a)⟩

instance trans_keys : IsTrans α fun a b => key b ≤ key a :=
  ⟨fun _ _ _ first second => second.trans first⟩

variable {key}

/-- The elements of one key stay in their order. -/
theorem filter_sortDown (k : κ) (list : List α) :
    (sortDown key list).filter (fun x => key x = k) = list.filter fun x => key x = k := by
  have tied : (list.filter fun x => key x = k).Pairwise fun a b => key b ≤ key a := by
    refine List.pairwise_of_forall_mem_list fun a inFirst b inSecond => ?_
    rw [of_decide_eq_true (List.mem_filter.mp inFirst).2,
      of_decide_eq_true (List.mem_filter.mp inSecond).2]
  have kept : (list.filter fun x => key x = k).Sublist (sortDown key list) :=
    List.sublist_insertionSort tied List.filter_sublist
  have inside := kept.filter fun x => key x = k
  rw [List.filter_filter] at inside
  simp only [Bool.and_self] at inside
  refine (inside.eq_of_length ?_).symm
  exact ((List.perm_insertionSort _ list).filter _).length_eq.symm

/-- Elements of one key that can be exchanged are equal. -/
theorem eq_of_sortDown_swap {a b : α} {rest : List α} (tie : key a = key b)
    (same : sortDown key (a :: b :: rest) = sortDown key (b :: a :: rest)) : a = b := by
  have kept : ∀ (x : α) (list : List α), key x = key b →
      (x :: list).filter (fun x => key x = key b) = x :: list.filter fun x => key x = key b :=
    fun x list isKey => List.filter_cons_of_pos (decide_eq_true isKey)
  have tied := congrArg (List.filter fun x => key x = key b) same
  rw [filter_sortDown, filter_sortDown, kept a (b :: rest) tie, kept b (a :: rest) rfl] at tied
  exact (List.cons.inj tied).1

/-- Where elements of one key are equal, the order of the input makes no difference. -/
theorem sortDown_eq_of_perm {left right : List α}
    (ties : ∀ a, a ∈ left → ∀ b, b ∈ left → key a = key b → a = b)
    (perm : left.Perm right) :
    sortDown key left = sortDown key right := by
  have sorted : (sortDown key left).Perm (sortDown key right) :=
    (List.perm_insertionSort _ left).trans (perm.trans (List.perm_insertionSort _ right).symm)
  refine List.Perm.eq_of_pairwise (fun a b inLeft inRight above below => ?_)
    (List.pairwise_insertionSort _ left) (List.pairwise_insertionSort _ right) sorted
  have first : a ∈ left := (List.mem_insertionSort _).mp inLeft
  have second : b ∈ left := perm.mem_iff.mpr ((List.mem_insertionSort _).mp inRight)
  exact ties a first b second (le_antisymm below above)

/-- A stable sort of a list in the order of a second key puts ties in that order. -/
theorem pairwise_sortDown {μ : Type*} [Preorder μ] {minor : α → μ} {list : List α}
    (order : list.Pairwise fun a b => minor a ≤ minor b) :
    (sortDown key list).Pairwise fun a b =>
      key b < key a ∨ (key a = key b ∧ minor a ≤ minor b) := by
  apply List.pairwise_iff_forall_sublist.mpr
  intro a b pair
  have down : key b ≤ key a :=
    List.pairwise_iff_forall_sublist.mp (List.pairwise_insertionSort _ list) pair
  rcases down.lt_or_eq with below | tie
  · exact Or.inl below
  · -- elements of one key stand as they stood before
    have both : [a, b].filter (fun x => key x = key a) = [a, b] := by
      simp [tie]
    have kept := pair.filter fun x => key x = key a
    rw [both, filter_sortDown] at kept
    exact Or.inr ⟨tie.symm,
      List.pairwise_iff_forall_sublist.mp order (kept.trans List.filter_sublist)⟩

end Library
end Sigil
