import Mathlib.Algebra.BigOperators.Group.List.Basic
import Mathlib.Algebra.GroupWithZero.Nat
import Mathlib.Data.List.Perm.Basic
import Mathlib.Order.Lattice

namespace Sigil
namespace Library
namespace RangeCounts

/-!
# Counting keys in ranges of time

A collection holds keys with a time each, and is looked at through ranges of time: a
range shows how often each key occurs in it.  Two collections that look the same through
every range that meets the hull of one of them are the same.
-/

universe u v

variable {τ : Type u} {κ : Type v} [LinearOrder τ] [DecidableEq κ]

/-- How often a key occurs in a range. -/
def tally (start stop : τ) (key : κ) (stamps : List (τ × κ)) : Nat :=
  stamps.countP fun stamp => start ≤ stamp.1 ∧ stamp.1 ≤ stop ∧ stamp.2 = key

variable {start stop low high : τ} {key : κ} {stamps first second : List (τ × κ)}

theorem tally_perm (same : first.Perm second) :
    tally start stop key first = tally start stop key second :=
  same.countP_eq _

theorem tally_eq_zero (outside : ∀ stamp, stamp ∈ stamps →
    stop < stamp.1 ∨ stamp.1 < start) :
    tally start stop key stamps = 0 := by
  apply List.countP_eq_zero.mpr
  intro stamp member inside
  rw [decide_eq_true_eq] at inside
  rcases outside stamp member with above | below
  · exact not_lt.mpr inside.2.1 above
  · exact not_lt.mpr inside.1 below

/-- A range of one point shows how often the key has this time. -/
theorem tally_point (time : τ) (key : κ) (stamps : List (τ × κ)) :
    tally time time key stamps = stamps.count (time, key) := by
  rw [tally, List.count_eq_countP]
  apply List.countP_congr
  rintro ⟨t, k⟩ _
  rw [decide_eq_true_eq, beq_iff_eq, Prod.mk.injEq]
  exact ⟨fun inside => ⟨le_antisymm inside.2.1 inside.1, inside.2.2⟩,
    fun ⟨sameTime, sameKey⟩ => ⟨sameTime.ge, sameTime.le, sameKey⟩⟩

/-- When a larger range shows no more than a smaller one, no stamp lies between them. -/
theorem inside_of_tally_le {start' stop' : τ} (starts : start' ≤ start) (stops : stop ≤ stop')
    (noMore : tally start' stop' key stamps ≤ tally start stop key stamps)
    {stamp : τ × κ} (member : stamp ∈ stamps) (isKey : stamp.2 = key)
    (inLarger : start' ≤ stamp.1 ∧ stamp.1 ≤ stop') :
    start ≤ stamp.1 ∧ stamp.1 ≤ stop := by
  induction stamps with
  | nil => exact absurd member List.not_mem_nil
  | cons head stamps inductionHypothesis =>
      have grows : tally start stop key stamps ≤ tally start' stop' key stamps := by
        apply List.countP_mono_left
        intro x _ inside
        rw [decide_eq_true_eq] at inside ⊢
        exact ⟨starts.trans inside.1, inside.2.1.trans stops, inside.2.2⟩
      have larger : tally start' stop' key (head :: stamps) = tally start' stop' key stamps +
          if start' ≤ head.1 ∧ head.1 ≤ stop' ∧ head.2 = key then 1 else 0 := by
        simp only [tally, List.countP_cons, decide_eq_true_eq]
      have smaller : tally start stop key (head :: stamps) = tally start stop key stamps +
          if start ≤ head.1 ∧ head.1 ≤ stop ∧ head.2 = key then 1 else 0 := by
        simp only [tally, List.countP_cons, decide_eq_true_eq]
      rw [larger, smaller] at noMore
      rcases List.mem_cons.mp member with rfl | later
      · rw [if_pos ⟨inLarger.1, inLarger.2, isKey⟩] at noMore
        split at noMore
        · next inside => exact ⟨inside.1, inside.2.1⟩
        · exact absurd (noMore.trans grows) (Nat.not_succ_le_self _)
      · refine inductionHypothesis ?_ later
        split at noMore
        · split at noMore
          · exact Nat.le_of_succ_le_succ noMore
          · exact (Nat.le_succ _).trans noMore
        · next notLarger =>
            rw [if_neg fun inside => notLarger
              ⟨starts.trans inside.1, inside.2.1.trans stops, inside.2.2⟩] at noMore
            exact noMore

/-- Two collections that look the same through every range that meets the hull of the
second one are the same, when the first one shows nothing through other ranges. -/
theorem perm_of_tally (bounds : low ≤ high)
    (hull : ∀ stamp, stamp ∈ second → low ≤ stamp.1 ∧ stamp.1 ≤ high)
    (same : ∀ start stop, start ≤ stop → low ≤ stop → start ≤ high → ∀ key,
      tally start stop key first = tally start stop key second) : first.Perm second := by
  -- a stamp of the first collection lies in the hull of the second one
  have inside : ∀ stamp, stamp ∈ first → low ≤ stamp.1 ∧ stamp.1 ≤ high := by
    intro stamp member
    have starts : min low stamp.1 ≤ low := min_le_left _ _
    have stops : high ≤ max high stamp.1 := le_max_left _ _
    have wide := same _ _ (starts.trans (bounds.trans stops)) (bounds.trans stops)
      (starts.trans bounds) stamp.2
    have all : tally (min low stamp.1) (max high stamp.1) stamp.2 second =
        tally low high stamp.2 second := by
      apply List.countP_congr
      intro x isMember
      have range := hull x isMember
      rw [decide_eq_true_eq, decide_eq_true_eq]
      exact ⟨fun ⟨_, _, isKey⟩ => ⟨range.1, range.2, isKey⟩,
        fun ⟨_, _, isKey⟩ => ⟨starts.trans range.1, range.2.trans stops, isKey⟩⟩
    have narrow := same low high bounds bounds bounds stamp.2
    exact inside_of_tally_le starts stops (wide.trans (all.trans narrow.symm)).le member rfl
      ⟨min_le_right _ _, le_max_right _ _⟩
  apply List.perm_iff_count.mpr
  rintro ⟨time, key⟩
  by_cases inHull : low ≤ time ∧ time ≤ high
  · rw [← tally_point, ← tally_point]
    exact same time time le_rfl inHull.1 inHull.2 key
  · rw [List.count_eq_zero.mpr fun member => inHull (inside _ member),
      List.count_eq_zero.mpr fun member => inHull (hull _ member)]

/-- A repeated term taken out of a sum. -/
theorem sum_eq_repeated_add {ι : Type u} (list : List ι) (repeated : ι → Prop)
    [DecidablePred repeated] (term : Nat) (other : ι → Nat) :
    (list.map fun i => if repeated i then term else other i).sum =
      list.countP (fun i => repeated i) * term +
        (list.map fun i => if repeated i then 0 else other i).sum := by
  induction list with
  | nil => exact (Nat.zero_mul term).symm
  | cons i list inductionHypothesis =>
      rw [List.map_cons, List.sum_cons, List.map_cons, List.sum_cons, List.countP_cons,
        inductionHypothesis]
      by_cases isRepeated : repeated i
      · rw [if_pos isRepeated, if_pos isRepeated, if_pos (decide_eq_true isRepeated),
          Nat.succ_mul]
        omega
      · rw [if_neg isRepeated, if_neg isRepeated,
          if_neg (fun equal => isRepeated (of_decide_eq_true equal)), Nat.add_zero]
        omega

/-- In two equal sums that differ in a repeated term only, the terms are equal. -/
theorem term_eq_of_sum_eq {ι : Type u} {list : List ι} {repeated : ι → Prop}
    [DecidablePred repeated] {left right : Nat} {other : ι → Nat}
    (sums : (list.map fun i => if repeated i then left else other i).sum =
      (list.map fun i => if repeated i then right else other i).sum)
    (occurs : ∃ i, i ∈ list ∧ repeated i) : left = right := by
  rw [sum_eq_repeated_add list repeated left, sum_eq_repeated_add list repeated right] at sums
  have positive : 0 < list.countP fun i => repeated i := by
    rcases occurs with ⟨i, member, isRepeated⟩
    exact List.countP_pos_iff.mpr ⟨i, member, decide_eq_true isRepeated⟩
  exact Nat.eq_of_mul_eq_mul_left positive (Nat.add_right_cancel sums)

end RangeCounts
end Library
end Sigil
