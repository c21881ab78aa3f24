import Mathlib.Data.List.Perm.Basic
import Mathlib.Data.List.Nodup

namespace Sigil
namespace Library

/-!
# The pairs of a list

Every two elements of a list, the earlier one first.  What does not distinguish the two
elements of a pair does not depend on the order of the list.
-/

universe u v

variable {α : Type u} {β : Type v}

/-- All pairs of an element and a later one. -/
def pairs : List α → List (α × α)
  | [] => []
  | a :: list => list.map (Prod.mk a) ++ pairs list

theorem mem_of_mem_pairs {list : List α} {pair : α × α} (member : pair ∈ pairs list) :
    pair.1 ∈ list ∧ pair.2 ∈ list := by
  induction list with
  | nil => exact absurd member List.not_mem_nil
  | cons a list inductionHypothesis =>
      rcases List.mem_append.mp member with first | later
      · rcases List.mem_map.mp first with ⟨b, inList, rfl⟩
        exact ⟨List.mem_cons_self, List.mem_cons_of_mem _ inList⟩
      · rcases inductionHypothesis later with ⟨left, right⟩
        exact ⟨List.mem_cons_of_mem _ left, List.mem_cons_of_mem _ right⟩

/-- In a strictly ordered list the pairs are those of the order. -/
theorem mem_pairs_iff {less : α → α → Prop} (asymm : ∀ {a b}, less a b → ¬ less b a)
    {list : List α} (ordered : list.Pairwise less) {a b : α} :
    (a, b) ∈ pairs list ↔ a ∈ list ∧ b ∈ list ∧ less a b := by
  induction ordered with
  | nil =>
      refine ⟨fun impossible => absurd impossible List.not_mem_nil, ?_⟩
      exact fun impossible => absurd impossible.1 List.not_mem_nil
  | @cons first list above ordered inductionHypothesis =>
      have irreflexive : ∀ {a}, ¬ less a a := fun same => asymm same same
      rw [pairs, List.mem_append, inductionHypothesis, List.mem_map]
      constructor
      · rintro (⟨c, inList, equal⟩ | ⟨left, right, smaller⟩)
        · cases equal
          exact ⟨List.mem_cons_self, List.mem_cons_of_mem _ inList, above b inList⟩
        · exact ⟨List.mem_cons_of_mem _ left, List.mem_cons_of_mem _ right, smaller⟩
      · rintro ⟨left, right, smaller⟩
        rcases List.mem_cons.mp left with rfl | inLeft
        · rcases List.mem_cons.mp right with rfl | right
          · exact absurd smaller irreflexive
          · exact Or.inl ⟨b, right, rfl⟩
        · rcases List.mem_cons.mp right with rfl | right
          · exact absurd (above a inLeft) (asymm smaller)
          · exact Or.inr ⟨inLeft, right, smaller⟩

theorem nodup_pairs {list : List α} (nodup : list.Nodup) : (pairs list).Nodup := by
  induction nodup with
  | nil => exact List.nodup_nil
  | @cons first list fresh nodup inductionHypothesis =>
      rw [pairs, List.nodup_append]
      refine ⟨List.Nodup.map (fun _ _ equal => (Prod.mk.inj equal).2) nodup,
        inductionHypothesis, ?_⟩
      intro pair inFirst other later same
      rcases List.mem_map.mp inFirst with ⟨b, -, rfl⟩
      exact fresh first (same ▸ mem_of_mem_pairs later).1 rfl

theorem pairs_map (f : α → β) (list : List α) :
    pairs (list.map f) = (pairs list).map fun pair => (f pair.1, f pair.2) := by
  induction list with
  | nil => rfl
  | cons a list inductionHypothesis =>
      rw [List.map_cons, pairs, pairs, inductionHypothesis, List.map_append, List.map_map,
        List.map_map]
      rfl

/-- A symmetric function has the same values on the pairs of a reordered list. -/
theorem map_pairs_perm {f : α → α → β} (symm : ∀ a b, f a b = f b a) {list list' : List α}
    (same : list.Perm list') : ((pairs list).map fun pair => f pair.1 pair.2).Perm
      ((pairs list').map fun pair => f pair.1 pair.2) := by
  induction same with
  | nil => exact List.Perm.refl _
  | @cons a list list' same inductionHypothesis =>
      rw [pairs, pairs, List.map_append, List.map_append, List.map_map, List.map_map]
      exact (same.map _).append inductionHypothesis
  | swap a b list =>
      simp only [pairs, List.map_append, List.map_cons, List.map_map, List.cons_append]
      rw [symm b a]
      apply List.Perm.cons
      rw [← List.append_assoc, ← List.append_assoc]
      exact List.perm_append_comm.append_right _
  | trans _ _ left right => exact left.trans right

end Library
end Sigil
