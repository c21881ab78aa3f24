import Mathlib.Algebra.Order.Field.Basic
import Mathlib.Algebra.Order.Field.Rat
import Mathlib.Data.Rat.Cast.Order
import Sigil.Library.EditDistance
import Sigil.Library.Loops

namespace Sigil
namespace Eval

/-!
# Chains compared by their edit distance

The distance is computed in a table with a row for each start of the first sequence and a column
for each start of the second one.  Similarities are exact fractions here.
-/

open Library Library.EditDistance

/-- The table, one row longer and one column wider than the sequences. -/
abbrev Table (m n : Nat) := Vector (Vector Nat (n + 1)) (m + 1)

namespace Table

variable {m n : Nat}

def cell (dp : Table m n) (i : Fin (m + 1)) (j : Fin (n + 1)) : Nat :=
  dp[i][j]

def set (dp : Table m n) (i : Fin (m + 1)) (j : Fin (n + 1)) (value : Nat) : Table m n :=
  Vector.set dp i (dp[i].set j value)

theorem cell_set (dp : Table m n) (i i' : Fin (m + 1)) (j j' : Fin (n + 1)) (value : Nat) :
    (dp.set i j value).cell i' j' = if i' = i ∧ j' = j then value else dp.cell i' j' := by
  simp only [cell, set, Fin.getElem_fin, Vector.getElem_set, Fin.ext_iff]
  by_cases sameRow : i.val = i'.val
  · by_cases sameColumn : j.val = j'.val
    · simp [sameRow, sameColumn]
    · have apart : ¬ j'.val = j.val := fun same => sameColumn same.symm
      simp [sameRow, sameColumn, apart]
  · have apart : ¬ i'.val = i.val := fun same => sameRow same.symm
    simp [sameRow, apart]

end Table

section Distance

variable (a b : List String)

/-- The table before the loops: the first column and the first row are numbered. -/
def border (m n : Nat) : Table m n :=
  let dp := Vector.replicate (m + 1) (Vector.replicate (n + 1) 0)
  let dp := (List.finRange (m + 1)).foldl (fun dp i => Table.set dp i 0 i) dp
  (List.finRange (n + 1)).foldl (fun dp j => Table.set dp 0 j j) dp

/-- One cell, from the cells above it, in front of it and before both. -/
def fill (dp : Table a.length b.length) (i : Fin a.length) (j : Fin b.length) :
    Table a.length b.length :=
  dp.set i.succ j.succ
    (min (min (dp.cell i.castSucc j.succ + 1) (dp.cell i.succ j.castSucc + 1))
      (dp.cell i.castSucc j.castSucc + if a.get i = b.get j then 0 else 1))

/-- Levenshtein edit distance between two id sequences. -/
def sequenceEditDistance : Nat :=
  let dp := (List.finRange a.length).foldl (fun dp i => (List.finRange b.length).foldl
    (fun dp j => fill a b dp i j) dp) (border a.length b.length)
  dp.cell (Fin.last a.length) (Fin.last b.length)

/-- Chain similarity from the normalized edit distance. -/
def normalizedChainSimilarity : ℚ :=
  let maxLen := max a.length b.length
  if maxLen = 0 then 1 else 1 - (sequenceEditDistance a b : ℚ) / maxLen

end Distance

/-! ## The border -/

theorem border_column {m n : Nat} (i : Fin (m + 1)) : (border m n).cell i 0 = i := by
  have firstColumn :
      ∀ i : Fin (m + 1), i.val < m + 1 → Table.cell ((List.finRange (m + 1)).foldl
      (fun dp i => Table.set dp i 0 i) (Vector.replicate (m + 1) (Vector.replicate (n + 1) 0)))
        i 0 = i := by
    refine foldl_finRange_rule (fun k (dp : Table m n) =>
      ∀ i : Fin (m + 1), i.val < k → dp.cell i 0 = i) ?_ ?_
    · intro k dp numbered i below
      rw [Table.cell_set]
      split
      · next here => rw [here.1]
      · next elsewhere =>
          have apart : i.val ≠ k.val := fun same => elsewhere ⟨Fin.ext same, rfl⟩
          exact numbered i (by omega)
    · exact fun i impossible => absurd impossible (Nat.not_lt_zero _)
  refine foldl_finRange_rule (fun _ (dp : Table m n) => ∀ i : Fin (m + 1), dp.cell i 0 = i) ?_
    (fun i => firstColumn i i.isLt) i
  intro k dp numbered i
  rw [Table.cell_set]
  split
  · next here =>
      rw [here.1, ← here.2]
      rfl
  · exact numbered i

theorem border_row {m n : Nat} (j : Fin (n + 1)) : (border m n).cell 0 j = j := by
  refine foldl_finRange_rule (fun k (dp : Table m n) =>
    ∀ j : Fin (n + 1), j.val < k → dp.cell 0 j = j) ?_ ?_ j j.isLt
  · intro k dp numbered j below
    rw [Table.cell_set]
    split
    · next here => rw [here.2]
    · next elsewhere =>
        have apart : j.val ≠ k.val := fun same => elsewhere ⟨rfl, Fin.ext same⟩
        exact numbered j (by omega)
  · exact fun j impossible => absurd impossible (Nat.not_lt_zero _)

/-! ## The loops -/

section Loops

variable {a b : List String} {dp : Table a.length b.length}

/-- A start of a sequence, its last element first. -/
def start (a : List String) (k : Nat) : List String :=
  (a.take k).reverse

theorem start_succ (a : List String) (i : Fin a.length) :
    start a (i + 1) = a.get i :: start a i := by
  rw [start, List.take_succ_eq_append_getElem i.isLt, List.reverse_concat]
  rfl

/-- A cell holds the least price of an alignment of the two starts. -/
def Correct (dp : Table a.length b.length) (i : Fin (a.length + 1))
    (j : Fin (b.length + 1)) : Prop :=
  IsLeast {k | Alignment (start a i) (start b j) k} (dp.cell i j)

/-- The first rows are done, and so many cells of the next one. -/
def Filled (dp : Table a.length b.length) (rows columns : Nat) : Prop :=
  ∀ i j, i.val ≤ rows ∨ j.val = 0 ∨
    (i.val = rows + 1 ∧ j.val ≤ columns) → Correct dp i j

theorem filled_border : Filled (border a.length b.length) 0 0 := by
  have first : ∀ i, Correct (border a.length b.length) i 0 := by
    intro i
    have least := isLeast_nil_right (start a i)
    rw [start, List.length_reverse, List.length_take,
      Nat.min_eq_left (Nat.le_of_lt_succ i.isLt)] at least
    rw [Correct, border_column]
    exact least
  have top : ∀ j, Correct (border a.length b.length) 0 j := by
    intro j
    have least := isLeast_nil_left (start b j)
    rw [start, List.length_reverse, List.length_take,
      Nat.min_eq_left (Nat.le_of_lt_succ j.isLt)] at least
    rw [Correct, border_row]
    exact least
  rintro i j (isTop | isFirst | ⟨-, isFirst⟩)
  · have same : i = 0 := Fin.ext (Nat.le_zero.mp isTop)
    rw [same]
    exact top j
  · have same : j = 0 := Fin.ext isFirst
    rw [same]
    exact first i
  · have same : j = 0 := Fin.ext (Nat.le_zero.mp isFirst)
    rw [same]
    exact first i

/-- Filling the next cell is the recurrence of the least prices. -/
theorem Filled.fill {i : Fin a.length} {j : Fin b.length} (filled : Filled dp i j) :
    Filled (fill a b dp i j) i (j + 1) := by
  have above : Correct dp i.castSucc j.succ := filled _ _ (Or.inl (Nat.le_refl _))
  have before : Correct dp i.succ j.castSucc :=
    filled _ _ (Or.inr (Or.inr ⟨rfl, Nat.le_refl _⟩))
  have corner : Correct dp i.castSucc j.castSucc := filled _ _ (Or.inl (Nat.le_refl _))
  intro i' j' place
  rw [Correct, Eval.fill, Table.cell_set]
  split
  · next here =>
      rw [here.1, here.2, Fin.val_succ, Fin.val_succ, start_succ, start_succ]
      refine isLeast_cons ?_ ?_ corner
      · rw [← start_succ]
        exact above
      · rw [← start_succ]
        exact before
  · next elsewhere =>
      refine filled i' j' ?_
      rcases place with done | isFirst | ⟨row, column⟩
      · exact Or.inl done
      · exact Or.inr (Or.inl isFirst)
      · refine Or.inr (Or.inr ⟨row, ?_⟩)
        have apart : j'.val ≠ j.val + 1 := fun same => elsewhere ⟨Fin.ext row, Fin.ext same⟩
        omega

theorem Filled.row {i : Fin a.length} (filled : Filled dp i 0) :
    Filled ((List.finRange b.length).foldl (fun dp j => Eval.fill a b dp i j) dp) (i + 1) 0 := by
  have whole : Filled ((List.finRange b.length).foldl (fun dp j => Eval.fill a b dp i j) dp)
      i b.length :=
    foldl_finRange_rule (fun k dp => Filled dp i k) (fun j dp filled => filled.fill) filled
  intro i' j' place
  refine whole i' j' ?_
  have inside : j'.val ≤ b.length := Nat.le_of_lt_succ j'.isLt
  omega

end Loops

/-! ## The distance -/

variable (a b c : List String)

/-- The distance is the least number of edits that turn one sequence into the other. -/
theorem isLeast_sequenceEditDistance : IsLeast {n | Edits n a b} (sequenceEditDistance a b) := by
  have filled := foldl_finRange_rule (fun k (dp : Table a.length b.length) => Filled dp k 0)
    (fun i dp filled => filled.row) filled_border
  have last := filled (Fin.last a.length) (Fin.last b.length) (Or.inl (Nat.le_refl _))
  rw [Correct, start, start, Fin.val_last, Fin.val_last, List.take_length, List.take_length] at last
  apply isLeast_edits
  refine ⟨?_, fun k alignment => last.2 alignment.reverse⟩
  have turned := Alignment.reverse last.1
  rwa [List.reverse_reverse, List.reverse_reverse] at turned

variable {a b c}

theorem sequenceEditDistance_le {n : Nat} (edits : Edits n a b) : sequenceEditDistance a b ≤ n :=
  (isLeast_sequenceEditDistance a b).2 edits

theorem edits_sequenceEditDistance : Edits (sequenceEditDistance a b) a b :=
  (isLeast_sequenceEditDistance a b).1

theorem sequenceEditDistance_eq_zero : sequenceEditDistance a b = 0 ↔ a = b := by
  constructor
  · intro zero
    have edits := @edits_sequenceEditDistance a b
    rw [zero] at edits
    exact Edits.zero_iff.mp edits
  · rintro rfl
    exact Nat.le_zero.mp (sequenceEditDistance_le (.none a))

theorem sequenceEditDistance_comm : sequenceEditDistance a b = sequenceEditDistance b a :=
  Nat.le_antisymm (sequenceEditDistance_le edits_sequenceEditDistance.symm)
    (sequenceEditDistance_le edits_sequenceEditDistance.symm)

theorem sequenceEditDistance_triangle :
    sequenceEditDistance a c ≤ sequenceEditDistance a b + sequenceEditDistance b c :=
  sequenceEditDistance_le (edits_sequenceEditDistance.trans edits_sequenceEditDistance)

theorem sequenceEditDistance_le_max : sequenceEditDistance a b ≤ max a.length b.length := by
  rcases Alignment.exists_le_max a b with ⟨n, bound, alignment⟩
  exact (sequenceEditDistance_le alignment.edits).trans bound

/-! ## The similarity -/

/-- Two chains are equal or have a distance to be normalized. -/
theorem normalizedChainSimilarity_cases : (a = b ∧ normalizedChainSimilarity a b = 1) ∨
    (0 < max a.length b.length ∧ normalizedChainSimilarity a b =
      1 - (sequenceEditDistance a b : ℚ) / (max a.length b.length : Nat)) := by
  rw [normalizedChainSimilarity]
  split
  · next empty =>
      have first : a = [] := List.length_eq_zero_iff.mp (by omega)
      have second : b = [] := List.length_eq_zero_iff.mp (by omega)
      exact Or.inl ⟨first.trans second.symm, rfl⟩
  · next some_ => exact Or.inr ⟨Nat.pos_of_ne_zero some_, rfl⟩

theorem normalizedChainSimilarity_mem_unit :
    0 ≤ normalizedChainSimilarity a b ∧ normalizedChainSimilarity a b ≤ 1 := by
  rcases @normalizedChainSimilarity_cases a b with ⟨-, isOne⟩ | ⟨positive, isQuotient⟩
  · rw [isOne]
    exact ⟨zero_le_one, le_refl 1⟩
  · have length : (0 : ℚ) < (max a.length b.length : Nat) := Nat.cast_pos.mpr positive
    have most : (sequenceEditDistance a b : ℚ) ≤ (max a.length b.length : Nat) :=
      Nat.cast_le.mpr sequenceEditDistance_le_max
    rw [isQuotient]
    constructor
    · exact sub_nonneg.mpr ((div_le_one length).mpr most)
    · exact sub_le_self 1 (div_nonneg (Nat.cast_nonneg _) length.le)

theorem normalizedChainSimilarity_eq_one : normalizedChainSimilarity a b = 1 ↔ a = b := by
  rcases @normalizedChainSimilarity_cases a b with ⟨same, isOne⟩ | ⟨positive, isQuotient⟩
  · exact ⟨fun _ => same, fun _ => isOne⟩
  · have length : ((max a.length b.length : Nat) : ℚ) ≠ 0 := Nat.cast_ne_zero.mpr positive.ne'
    rw [isQuotient, sub_eq_self, div_eq_zero_iff, or_iff_left length, Nat.cast_eq_zero,
      sequenceEditDistance_eq_zero]

/-- The distance is the Levenshtein metric, and the similarity is normalized. -/
theorem sequenceEditDistance_metric (a b c : List String) :
    IsLeast {n | Edits n a b} (sequenceEditDistance a b) ∧
      (sequenceEditDistance a b = 0 ↔ a = b) ∧
      sequenceEditDistance a b = sequenceEditDistance b a ∧
      sequenceEditDistance a c ≤ sequenceEditDistance a b + sequenceEditDistance b c ∧
      (0 ≤ normalizedChainSimilarity a b ∧ normalizedChainSimilarity a b ≤ 1) ∧
      (normalizedChainSimilarity a b = 1 ↔ a = b) :=
  ⟨isLeast_sequenceEditDistance a b, sequenceEditDistance_eq_zero, sequenceEditDistance_comm,
    sequenceEditDistance_triangle, normalizedChainSimilarity_mem_unit,
    normalizedChainSimilarity_eq_one⟩

example : sequenceEditDistance ["T1110", "T1003", "T1021"] ["T1110", "T1021"] = 1 := by
  decide +kernel

end Eval
end Sigil
