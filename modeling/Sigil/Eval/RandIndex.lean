import Mathlib.Algebra.Order.Field.Basic
import Mathlib.Algebra.Order.Field.Rat
import Mathlib.Data.List.AList
import Mathlib.Data.List.Induction
import Mathlib.Data.Nat.Choose.Basic
import Mathlib.Data.Rat.Cast.Order
import Mathlib.Tactic.FieldSimp
import Mathlib.Tactic.Linarith
import Mathlib.Tactic.Ring
import Sigil.Library.Agreement

namespace Sigil
namespace Eval

/-!
# The adjusted Rand index

Two clusterings of the same things are given by their labels.  The index compares how many pairs
both put together with how many would be expected, and is normalized so that equal clusterings
reach one.  Fractions are exact here, and a division by zero has no result.
-/

open Library Library.Agreement

/-- The number of pairs of so many things. -/
def comb2 (n : Nat) : Nat :=
  n * (n - 1) / 2

section Counts

universe u

variable {κ : Type u} [DecidableEq κ]

/-- Count one more under a key. -/
def increment (map : AList fun _ : κ => Nat) (key : κ) : AList fun _ : κ => Nat :=
  map.insert key ((map.lookup key).getD 0 + 1)

/-- The pairs within the counts; the order of a hash map does not matter for a sum. -/
def sumComb2 (map : AList fun _ : κ => Nat) : Nat :=
  (map.entries.map fun entry => comb2 entry.2).sum

end Counts

/-- Joint contingency counts plus the two marginals. -/
structure Contingency where
  joint : AList fun _ : UInt32 × UInt32 => Nat
  ai : AList fun _ : UInt32 => Nat
  bj : AList fun _ : UInt32 => Nat

def contingency (a b : List UInt32) : Contingency :=
  (a.zip b).foldl (fun c label =>
    { joint := increment c.joint label, ai := increment c.ai label.1,
      bj := increment c.bj label.2 })
    ⟨∅, ∅, ∅⟩

/-- A fraction, if its denominator is not zero. -/
def divide (x y : ℚ) : Option ℚ :=
  if y = 0 then none else some (x / y)

/-- The index from its sums. -/
def correctForChance (sumIj sumAi sumBj total : Nat) : Option ℚ :=
  (divide (sumAi * sumBj) total).bind fun expected =>
    let maxIndex := 1 / 2 * ((sumAi : ℚ) + sumBj)
    if |maxIndex - expected| < 1 / 10 ^ 12 then some 1
    else divide (sumIj - expected) (maxIndex - expected)

/-- Adjusted Rand index between two clusterings; vectors of different lengths fail an assertion. -/
def adjustedRandIndex (a b : List UInt32) : Option ℚ :=
  if a.length ≠ b.length then none
  else if a.length = 0 then some 1
  else
    let c := contingency a b
    correctForChance (sumComb2 c.joint) (sumComb2 c.ai) (sumComb2 c.bj) (comb2 a.length)

/-! ## The counts -/

section Counts

universe u

variable {κ : Type u} [DecidableEq κ]

theorem comb2_zero : comb2 0 = 0 :=
  Nat.zero_div 2

theorem comb2_succ (n : Nat) : comb2 (n + 1) = comb2 n + n := by
  rw [comb2, Nat.triangle_succ, comb2]

theorem lookup_increment (map : AList fun _ : κ => Nat) (key other : κ) :
    ((increment map key).lookup other).getD 0 =
      (map.lookup other).getD 0 + if key = other then 1 else 0 := by
  rw [increment]
  by_cases same : other = key
  · rw [same, AList.lookup_insert, Option.getD_some, if_pos rfl]
  · rw [AList.lookup_insert_ne same, if_neg (Ne.symm same), Nat.add_zero]

/-- What is counted under a key is part of the sum. -/
theorem sum_kerase (key : κ) (entries : List (Sigma fun _ : κ => Nat)) :
    (entries.map fun entry => comb2 entry.2).sum = comb2 ((entries.dlookup key).getD 0) +
      ((entries.kerase key).map fun entry => comb2 entry.2).sum := by
  induction entries with
  | nil => exact comb2_zero.symm
  | cons entry entries inductionHypothesis =>
      rcases entry with ⟨other, count⟩
      by_cases same : key = other
      · subst same
        have erased : List.kerase key (⟨key, count⟩ :: entries) = entries :=
          List.kerase_cons_eq rfl
        rw [List.dlookup_cons_eq, erased, List.map_cons, List.sum_cons]
        rfl
      · rw [List.dlookup_cons_ne entries ⟨other, count⟩ same,
          List.kerase_cons_ne same, List.map_cons, List.sum_cons, List.map_cons,
          List.sum_cons, inductionHypothesis]
        exact Nat.add_left_comm _ _ _

/-- One more under a key makes as many new pairs as there were under it. -/
theorem sumComb2_increment (map : AList fun _ : κ => Nat) (key : κ) :
    sumComb2 (increment map key) = sumComb2 map + (map.lookup key).getD 0 := by
  rw [sumComb2, increment, AList.entries_insert, List.map_cons, List.sum_cons, comb2_succ, sumComb2,
    sum_kerase key map.entries]
  exact Nat.add_right_comm _ _ _

/-- The counts of some labels. -/
def tally (labels : List κ) : AList fun _ : κ => Nat :=
  labels.foldl increment ∅

theorem tally_concat (labels : List κ) (x : κ) :
    tally (labels ++ [x]) = increment (tally labels) x := by
  rw [tally, List.foldl_append]
  rfl

theorem lookup_tally (labels : List κ) (key : κ) :
    ((tally labels).lookup key).getD 0 = labels.count key := by
  induction labels using List.reverseRecOn with
  | nil => rfl
  | append_singleton labels x inductionHypothesis =>
      rw [tally_concat, lookup_increment, inductionHypothesis, List.count_append,
        List.count_singleton]
      simp only [beq_iff_eq]

/-- The pairs within the counts are the pairs of positions with one label. -/
theorem sumComb2_tally (labels : List κ) : sumComb2 (tally labels) = together labels := by
  induction labels using List.reverseRecOn with
  | nil => rfl
  | append_singleton labels x inductionHypothesis =>
      rw [tally_concat, sumComb2_increment, inductionHypothesis, lookup_tally, together_concat]

theorem length_pairs {α : Type u} (list : List α) : (pairs list).length = comb2 list.length := by
  induction list with
  | nil => exact comb2_zero.symm
  | cons x list inductionHypothesis =>
      rw [pairs, List.length_append, List.length_map, inductionHypothesis, List.length_cons,
        comb2_succ, Nat.add_comm]

theorem together_le (labels : List κ) : together labels ≤ comb2 labels.length := by
  rw [← length_pairs]
  exact List.countP_le_length

end Counts

/-- The three maps count the pairs of labels and the labels of each side. -/
theorem contingency_eq (a b : List UInt32) : contingency a b =
    ⟨tally (a.zip b), tally ((a.zip b).map Prod.fst), tally ((a.zip b).map Prod.snd)⟩ := by
  rw [contingency]
  induction a.zip b using List.reverseRecOn with
  | nil => rfl
  | append_singleton both label inductionHypothesis =>
      rw [List.foldl_append, inductionHypothesis, List.map_append, List.map_append, tally_concat,
        List.map_singleton, List.map_singleton, tally_concat, tally_concat]
      rfl

/-- The index is computed from the pairs that the clusterings put together. -/
theorem adjustedRandIndex_eq {a b : List UInt32} (length : a.length = b.length) (some_ : a ≠ []) :
    adjustedRandIndex a b =
      correctForChance (together (a.zip b)) (together a) (together b) (comb2 a.length) := by
  have nonempty : a.length ≠ 0 := fun empty => some_ (List.length_eq_zero_iff.mp empty)
  rw [adjustedRandIndex, if_neg (not_not.mpr length), if_neg nonempty, contingency_eq]
  dsimp only
  rw [sumComb2_tally, sumComb2_tally, sumComb2_tally, List.map_fst_zip (Nat.le_of_eq length),
    List.map_snd_zip (Nat.le_of_eq length.symm)]

/-! ## The quotient -/

section Quotient

variable {sumIj sumAi sumBj total : Nat}

/-- How far the greatest index lies above the expected one, apart from a factor. -/
def spread (sumAi sumBj total : Nat) : Nat :=
  sumAi * (total - sumBj) + sumBj * (total - sumAi)

theorem spread_eq (positive : 0 < total) (left : sumAi ≤ total) (right : sumBj ≤ total) :
    1 / 2 * ((sumAi : ℚ) + sumBj) - sumAi * sumBj / total =
      (spread sumAi sumBj total : ℚ) / (2 * total) := by
  have nonzero : (total : ℚ) ≠ 0 := Nat.cast_ne_zero.mpr positive.ne'
  rw [spread, Nat.cast_add, Nat.cast_mul, Nat.cast_mul, Nat.cast_sub left, Nat.cast_sub right]
  field_simp
  ring

/-- The spread vanishes only where both clusterings put nothing or everything together, and is
large elsewhere. -/
theorem spread_cases (left : sumAi ≤ total) (right : sumBj ≤ total) :
    ((sumAi = 0 ∧ sumBj = 0 ∨ sumAi = total ∧ sumBj = total) ∧
      spread sumAi sumBj total = 0) ∨
      total ≤ spread sumAi sumBj total := by
  rw [spread]
  rcases Nat.eq_zero_or_pos sumAi with none_ | some_
  · subst none_
    rcases Nat.eq_zero_or_pos sumBj with none_ | some_
    · subst none_
      simp
    · right
      rw [Nat.zero_mul, Nat.zero_add, Nat.sub_zero]
      exact Nat.le_mul_of_pos_left total some_
  · rcases Nat.lt_or_eq_of_le left with less | all
    · right
      have first : total - sumBj ≤ sumAi * (total - sumBj) := Nat.le_mul_of_pos_left _ some_
      have second : sumBj ≤ sumBj * (total - sumAi) :=
        Nat.le_mul_of_pos_right _ (Nat.sub_pos_of_lt less)
      omega
    · subst all
      rcases Nat.lt_or_eq_of_le right with less | all
      · right
        rw [Nat.sub_self, Nat.mul_zero, Nat.add_zero]
        exact Nat.le_mul_of_pos_right _ (Nat.sub_pos_of_lt less)
      · subst all
        simp

/-- Where the spread vanishes the index is one. -/
theorem correctForChance_degenerate (positive : 0 < total) (left : sumAi ≤ total)
    (right : sumBj ≤ total) (none_ : spread sumAi sumBj total = 0) :
    correctForChance sumIj sumAi sumBj total = some 1 := by
  have nonzero : (total : ℚ) ≠ 0 := Nat.cast_ne_zero.mpr positive.ne'
  rw [correctForChance, divide, if_neg nonzero, Option.bind_some]
  dsimp only
  rw [spread_eq positive left right, none_]
  norm_num

/-- Elsewhere the denominator is at least one half, far above the threshold. -/
theorem correctForChance_eq (positive : 0 < total) (left : sumAi ≤ total)
    (right : sumBj ≤ total) (wide : total ≤ spread sumAi sumBj total) :
    0 < 1 / 2 * ((sumAi : ℚ) + sumBj) - sumAi * sumBj / total ∧
      correctForChance sumIj sumAi sumBj total =
        some ((sumIj - sumAi * sumBj / total) /
          (1 / 2 * ((sumAi : ℚ) + sumBj) - sumAi * sumBj / total)) := by
  have denominator : (0 : ℚ) < total := Nat.cast_pos.mpr positive
  have half : 1 / 2 ≤ 1 / 2 * ((sumAi : ℚ) + sumBj) - sumAi * sumBj / total := by
    have cast : (total : ℚ) ≤ spread sumAi sumBj total := Nat.cast_le.mpr wide
    rw [spread_eq positive left right, le_div_iff₀ (mul_pos two_pos denominator)]
    linarith
  have above : 0 < 1 / 2 * ((sumAi : ℚ) + sumBj) - sumAi * sumBj / total :=
    lt_of_lt_of_le (by norm_num) half
  refine ⟨above, ?_⟩
  rw [correctForChance, divide, if_neg denominator.ne', Option.bind_some]
  dsimp only
  rw [abs_of_pos above, if_neg, divide, if_neg above.ne']
  have threshold : (1 : ℚ) / 10 ^ 12 < 1 / 2 := by
    norm_num
  exact not_lt.mpr (threshold.le.trans half)

/-- The index is at most one, and one where the clusterings put the same pairs together. -/
theorem correctForChance_le_one (positive : 0 < total) (left : sumAi ≤ total)
    (right : sumBj ≤ total) (inLeft : sumIj ≤ sumAi) (inRight : sumIj ≤ sumBj)
    (wide : total ≤ spread sumAi sumBj total) :
    ∃ r, correctForChance sumIj sumAi sumBj total = some r ∧ r ≤ 1 ∧
      (r = 1 ↔ sumIj = sumAi ∧ sumIj = sumBj) := by
  rcases @correctForChance_eq sumIj _ _ _ positive left right wide with ⟨above, isQuotient⟩
  have joint : (sumIj : ℚ) ≤ sumAi := Nat.cast_le.mpr inLeft
  have joint' : (sumIj : ℚ) ≤ sumBj := Nat.cast_le.mpr inRight
  refine ⟨_, isQuotient, ?_, ?_⟩
  · rw [div_le_one above]
    linarith
  · rw [div_eq_one_iff_eq above.ne', sub_left_inj, ← @Nat.cast_inj ℚ, ← @Nat.cast_inj ℚ]
    constructor
    · intro greatest
      exact ⟨by linarith, by linarith⟩
    · rintro ⟨first, second⟩
      linarith

end Quotient

/-! ## The laws of the index -/

/-- The clusterings have an index, which depends on their classes alone, does not tell the sides
apart and is greatest where the classes are the same. -/
structure Lawful (a b : List UInt32) (r : ℚ) : Prop where
  value : adjustedRandIndex a b = some r
  symm : adjustedRandIndex b a = some r
  rename_left : ∀ rename : UInt32 → UInt32,
    (∀ x, x ∈ a → ∀ y, y ∈ a → rename x = rename y → x = y) →
      adjustedRandIndex (a.map rename) b = some r
  rename_right : ∀ rename : UInt32 → UInt32,
    (∀ x, x ∈ b → ∀ y, y ∈ b → rename x = rename y → x = y) →
      adjustedRandIndex a (b.map rename) = some r
  le_one : r ≤ 1
  eq_one_iff : r = 1 ↔ SamePartition a b

section Laws

variable {a b : List UInt32}

theorem adjustedRandIndex_comm (length : a.length = b.length) (some_ : a ≠ []) :
    adjustedRandIndex b a = adjustedRandIndex a b := by
  have some' : b ≠ [] := fun empty =>
    some_ (List.length_eq_zero_iff.mp (length.trans (List.length_eq_zero_iff.mpr empty)))
  have swapped : ∀ j x y n, correctForChance j x y n = correctForChance j y x n := by
    intro j x y n
    rw [correctForChance, correctForChance, mul_comm (x : ℚ), add_comm (x : ℚ)]
  rw [adjustedRandIndex_eq length some_, adjustedRandIndex_eq length.symm some', together_zip_swap,
    swapped, length]

theorem adjustedRandIndex_rename (length : a.length = b.length) (some_ : a ≠ [])
    {rename : UInt32 → UInt32}
    (apart : ∀ x, x ∈ a → ∀ y, y ∈ a → rename x = rename y → x = y) :
    adjustedRandIndex (a.map rename) b = adjustedRandIndex a b := by
  have length' : (a.map rename).length = b.length := (List.length_map _).trans length
  have some' : a.map rename ≠ [] := fun empty => some_ (List.map_eq_nil_iff.mp empty)
  have joint : together ((a.map rename).zip b) = together (a.zip b) := by
    rw [List.zip_map_left]
    refine together_map fun p inFirst q inSecond same => ?_
    have labels := Prod.ext_iff.mp same
    exact Prod.ext (apart _ (List.of_mem_zip inFirst).1 _
      (List.of_mem_zip inSecond).1 labels.1) labels.2
  rw [adjustedRandIndex_eq length some_, adjustedRandIndex_eq length' some',
    together_map apart, joint, List.length_map]

/-- With two things or more the index obeys the bound. -/
theorem exists_adjustedRandIndex (length : a.length = b.length) (two : 2 ≤ a.length) :
    ∃ r, adjustedRandIndex a b = some r ∧ r ≤ 1 ∧ (r = 1 ↔ SamePartition a b) := by
  have some_ : a ≠ [] := List.ne_nil_of_length_pos (Nat.lt_of_lt_of_le Nat.zero_lt_two two)
  have positive : 0 < comb2 a.length := by
    rcases Nat.exists_eq_add_of_le two with ⟨more, equal⟩
    rw [equal, Nat.add_comm, comb2_succ]
    omega
  have left : together a ≤ comb2 a.length := together_le a
  have right : together b ≤ comb2 a.length := length ▸ together_le b
  rw [adjustedRandIndex_eq length some_]
  rcases spread_cases left right with ⟨degenerate, none_⟩ | wide
  · -- both put nothing or everything together, and so the same pairs
    refine ⟨1, correctForChance_degenerate positive left right none_, le_refl 1, ?_⟩
    refine ⟨fun _ => (samePartition_iff_pairs length).mpr fun pair member => ?_, fun _ => rfl⟩
    have marginals := together_marginals length
    rcases degenerate with ⟨noneLeft, noneRight⟩ | ⟨allLeft, allRight⟩
    · rw [marginals.1, List.countP_eq_zero] at noneLeft
      rw [marginals.2, List.countP_eq_zero] at noneRight
      have apartLeft := noneLeft pair member
      have apartRight := noneRight pair member
      rw [decide_eq_true_eq] at apartLeft apartRight
      exact ⟨fun same => absurd same apartLeft, fun same => absurd same apartRight⟩
    · have size : (pairs (a.zip b)).length = comb2 a.length := by
        rw [length_pairs, List.length_zip, ← length, Nat.min_self]
      rw [marginals.1, ← size, List.countP_eq_length] at allLeft
      rw [marginals.2, ← size, List.countP_eq_length] at allRight
      have sameLeft := of_decide_eq_true (allLeft pair member)
      have sameRight := of_decide_eq_true (allRight pair member)
      exact ⟨fun _ => sameRight, fun _ => sameLeft⟩
  · rw [samePartition_iff_together length]
    exact correctForChance_le_one positive left right (together_zip_le_left length)
      (together_zip_le_right length) wide

/-- For one thing there are no pairs to divide by. -/
theorem adjustedRandIndex_single (length : a.length = b.length) (one : a.length = 1) :
    adjustedRandIndex a b = none := by
  have some_ : a ≠ [] := List.ne_nil_of_length_pos (one ▸ Nat.zero_lt_one)
  have noPairs : comb2 a.length = 0 := by
    rw [one]
    rfl
  rw [adjustedRandIndex_eq length some_, noPairs]
  rfl

/-- The index obeys its laws exactly where there are two things to compare. -/
theorem lawful_iff (length : a.length = b.length) (some_ : a ≠ []) :
    (∃ r, Lawful a b r) ↔ a.length ≠ 1 := by
  constructor
  · rintro ⟨r, lawful⟩ one
    have value := lawful.value
    rw [adjustedRandIndex_single length one] at value
    cases value
  · intro several
    have positive : 0 < a.length := List.length_pos_iff.mpr some_
    have some' : b ≠ [] := List.ne_nil_of_length_pos (length ▸ positive)
    rcases exists_adjustedRandIndex length (by omega) with ⟨r, value, bound, isOne⟩
    refine ⟨r, value, ?_, fun rename apart => ?_, fun rename apart => ?_, bound, isOne⟩
    · rw [adjustedRandIndex_comm length some_]
      exact value
    · rw [adjustedRandIndex_rename length some_ apart]
      exact value
    · have length' : a.length = (b.map rename).length := length.trans (List.length_map _).symm
      rw [← adjustedRandIndex_comm length' some_,
        adjustedRandIndex_rename length.symm some' apart, adjustedRandIndex_comm length some_]
      exact value

end Laws

theorem lawful_three : ∃ r, Lawful [0, 0, 1] [7, 7, 3] r :=
  (@lawful_iff [0, 0, 1] [7, 7, 3] rfl (List.cons_ne_nil _ _)).mpr (by decide)

/-- Two clusterings of one thing are equal and have no index. -/
theorem not_lawful :
    ¬ ∀ a b : List UInt32, a.length = b.length → a ≠ [] → ∃ r, Lawful a b r := by
  intro all
  rcases all [0] [0] rfl (List.cons_ne_nil _ _) with ⟨r, lawful⟩
  have value := lawful.value
  rw [adjustedRandIndex_single rfl rfl] at value
  cases value

end Eval
end Sigil
