import Mathlib.Data.List.Pairwise
import Mathlib.Data.List.Zip
import Mathlib.Data.Prod.Basic
import Mathlib.Data.Nat.Basic
import Sigil.Library.Pairs

namespace Sigil
namespace Library
namespace Agreement

/-!
# Labellings that agree

A list of labels puts its positions into classes.  How far two labellings agree is counted over
the pairs of positions: those that one labelling puts together, those that the other does, and
those that both do.
-/

universe u v w

variable {κ : Type u} {μ : Type v}

/-- Two positions have one label in both labellings or in none. -/
def SamePartition (a : List κ) (b : List μ) : Prop :=
  ∀ i j, i < a.length → j < a.length → (a[i]? = a[j]? ↔ b[i]? = b[j]?)

theorem samePartition_iff {a : List κ} {b : List μ} (length : a.length = b.length) :
    SamePartition a b ↔
      ∀ p, p ∈ a.zip b → ∀ q, q ∈ a.zip b → (p.1 = q.1 ↔ p.2 = q.2) := by
  constructor
  · intro same p inFirst q inSecond
    rcases List.mem_iff_getElem?.mp inFirst with ⟨i, atI⟩
    rcases List.mem_iff_getElem?.mp inSecond with ⟨j, atJ⟩
    rcases List.getElem?_zip_eq_some.mp atI with ⟨leftI, rightI⟩
    rcases List.getElem?_zip_eq_some.mp atJ with ⟨leftJ, rightJ⟩
    have iff :=
      same i j (List.getElem?_eq_some_iff.mp leftI).1 (List.getElem?_eq_some_iff.mp leftJ).1
    rwa [leftI, leftJ, rightI, rightJ, Option.some_inj, Option.some_inj] at iff
  · intro same i j iBound jBound
    have member : ∀ k (left : k < a.length) (right : k < b.length), (a[k], b[k]) ∈ a.zip b := by
      intro k left right
      apply List.mem_iff_getElem?.mpr ⟨k, List.getElem?_zip_eq_some.mpr ⟨?_, ?_⟩⟩
      · exact List.getElem?_eq_getElem left
      · exact List.getElem?_eq_getElem right
    rw [List.getElem?_eq_getElem iBound, List.getElem?_eq_getElem jBound,
      List.getElem?_eq_getElem (length ▸ iBound), List.getElem?_eq_getElem (length ▸ jBound),
      Option.some_inj, Option.some_inj]
    exact same _ (member i iBound (length ▸ iBound)) _ (member j jBound (length ▸ jBound))

/-- A relation that is symmetric and reflexive holds throughout a list when it holds for its
pairs. -/
theorem forall_pairs_iff {rel : κ → κ → Prop} (symm : ∀ p q, rel p q → rel q p)
    (refl : ∀ p, rel p p) {list : List κ} :
    (∀ pair, pair ∈ pairs list → rel pair.1 pair.2) ↔
      ∀ p, p ∈ list → ∀ q, q ∈ list → rel p q := by
  constructor
  · intro all
    have pairwise : list.Pairwise rel := by
      induction list with
      | nil => exact List.Pairwise.nil
      | cons x list inductionHypothesis =>
          refine List.Pairwise.cons (fun y member => ?_) (inductionHypothesis fun pair member => ?_)
          · exact all (x, y) (List.mem_append_left _ (List.mem_map_of_mem member))
          · exact all pair (List.mem_append_right _ member)
    have everywhere :=
      List.Pairwise.forall_of_forall_of_flip (R := rel) (fun p _ => refl p) pairwise
      (pairwise.imp fun holds => symm _ _ holds)
    exact fun p inFirst q inSecond => everywhere inFirst inSecond
  · intro all pair member
    exact all _ (mem_of_mem_pairs member).1 _ (mem_of_mem_pairs member).2

theorem samePartition_iff_pairs {a : List κ} {b : List μ} (length : a.length = b.length) :
    SamePartition a b ↔
    ∀ pair, pair ∈ pairs (a.zip b) → (pair.1.1 = pair.2.1 ↔ pair.1.2 = pair.2.2) := by
  rw [samePartition_iff length]
  refine (@forall_pairs_iff (κ × μ) (fun p q => p.1 = q.1 ↔ p.2 = q.2) ?_ ?_ _).symm
  · intro p q iff
    rw [eq_comm, iff, eq_comm]
  · exact fun p => ⟨fun _ => rfl, fun _ => rfl⟩

/-! ## Pairs that are put together -/

section Together

variable [DecidableEq κ]

/-- How many pairs of positions have one label. -/
def together (labels : List κ) : Nat :=
  (pairs labels).countP fun pair => pair.1 = pair.2

theorem together_cons (x : κ) (labels : List κ) :
    together (x :: labels) = labels.count x + together labels := by
  have first : (labels.map (Prod.mk x)).countP (fun pair => pair.1 = pair.2) = labels.count x := by
    rw [List.countP_map, List.count]
    apply List.countP_congr
    intro y _
    rw [Function.comp_apply, decide_eq_true_eq, beq_iff_eq, eq_comm]
  rw [together, pairs, List.countP_append, first, together]

theorem together_concat (labels : List κ) (x : κ) :
    together (labels ++ [x]) = together labels + labels.count x := by
  induction labels with
  | nil => rfl
  | cons y labels inductionHypothesis =>
      rw [List.cons_append, together_cons, together_cons, inductionHypothesis, List.count_append,
        List.count_singleton, List.count_cons]
      have swapped : (y == x) = (x == y) := BEq.comm
      rw [swapped]
      omega

/-- The labels of some things are counted over the pairs of these. -/
theorem together_label {α : Type w} (label : α → κ) (list : List α) :
    together (list.map label) = (pairs list).countP fun pair => label pair.1 = label pair.2 := by
  rw [together, pairs_map, List.countP_map]
  rfl

variable [DecidableEq μ]

/-- Labels that are renamed apart put the same positions together. -/
theorem together_map {labels : List κ} {rename : κ → μ}
    (apart : ∀ x, x ∈ labels → ∀ y, y ∈ labels → rename x = rename y → x = y) :
    together (labels.map rename) = together labels := by
  rw [together_label, together]
  apply List.countP_congr
  intro pair member
  rw [decide_eq_true_eq, decide_eq_true_eq]
  exact ⟨apart _ (mem_of_mem_pairs member).1 _ (mem_of_mem_pairs member).2, congrArg rename⟩

variable {a : List κ} {b : List μ}

theorem together_zip_swap (a : List κ) (b : List μ) :
    together (b.zip a) = together (a.zip b) := by
  rw [← List.zip_swap]
  exact together_map fun x _ y _ same => Prod.swap_injective same

/-- Both marginals are counted over the pairs of the table. -/
theorem together_marginals (length : a.length = b.length) :
    (together a = (pairs (a.zip b)).countP fun pair => pair.1.1 = pair.2.1) ∧
      together b = (pairs (a.zip b)).countP fun pair => pair.1.2 = pair.2.2 := by
  have fst : (a.zip b).map Prod.fst = a := List.map_fst_zip (Nat.le_of_eq length)
  have snd : (a.zip b).map Prod.snd = b := List.map_snd_zip (Nat.le_of_eq length.symm)
  exact ⟨(congrArg together fst).symm.trans (together_label Prod.fst _),
    (congrArg together snd).symm.trans (together_label Prod.snd _)⟩

/-- Counts of one property inside another one are equal when the properties are. -/
theorem countP_eq_iff {α : Type w} {p q : α → Bool} {list : List α}
    (inside : ∀ x, x ∈ list → p x = true → q x = true) :
    list.countP p = list.countP q ↔ ∀ x, x ∈ list → q x = true → p x = true := by
  have narrowed : (list.filter q).countP p = list.countP p := by
    rw [List.countP_filter]
    apply List.countP_congr
    intro x member
    rw [Bool.and_eq_true]
    exact ⟨And.left, fun holds => ⟨holds, inside x member holds⟩⟩
  rw [← narrowed, List.countP_eq_length_filter (p := q), List.countP_eq_length]
  simp only [List.mem_filter, and_imp]

theorem together_zip_le_left (length : a.length = b.length) :
    together (a.zip b) ≤ together a := by
  rw [(together_marginals length).1, together]
  apply List.countP_mono_left
  intro pair _ same
  rw [decide_eq_true_eq] at same ⊢
  exact congrArg Prod.fst same

theorem together_zip_le_right (length : a.length = b.length) :
    together (a.zip b) ≤ together b := by
  rw [← together_zip_swap]
  exact together_zip_le_left length.symm

theorem together_zip_eq_left (length : a.length = b.length) : together (a.zip b) = together a ↔
    ∀ pair, pair ∈ pairs (a.zip b) → pair.1.1 = pair.2.1 → pair.1.2 = pair.2.2 := by
  rw [(together_marginals length).1, together, countP_eq_iff]
  · simp only [decide_eq_true_eq, Prod.ext_iff]
    exact forall₂_congr fun pair _ =>
      ⟨fun both first => (both first).2, fun second first => ⟨first, second first⟩⟩
  · intro pair _ same
    rw [decide_eq_true_eq] at same ⊢
    exact congrArg Prod.fst same

theorem together_zip_eq_right (length : a.length = b.length) : together (a.zip b) = together b ↔
    ∀ pair, pair ∈ pairs (a.zip b) → pair.1.2 = pair.2.2 → pair.1.1 = pair.2.1 := by
  rw [(together_marginals length).2, together, countP_eq_iff]
  · simp only [decide_eq_true_eq, Prod.ext_iff]
    exact forall₂_congr fun pair _ =>
      ⟨fun both second => (both second).1, fun first second => ⟨first second, second⟩⟩
  · intro pair _ same
    rw [decide_eq_true_eq] at same ⊢
    exact congrArg Prod.snd same

/-- The classes are the same exactly when both labellings put together what both do. -/
theorem samePartition_iff_together (length : a.length = b.length) : SamePartition a b ↔
    together (a.zip b) = together a ∧ together (a.zip b) = together b := by
  rw [samePartition_iff_pairs length, together_zip_eq_left length, together_zip_eq_right length]
  exact ⟨fun iff => ⟨fun pair member => (iff pair member).mp,
    fun pair member => (iff pair member).mpr⟩, fun both pair member =>
      ⟨both.1 pair member, both.2 pair member⟩⟩

end Together

end Agreement
end Library
end Sigil
