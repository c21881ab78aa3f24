import Mathlib.Data.List.Basic
import Mathlib.Order.Lattice

namespace Sigil
namespace Library
namespace Ordered

/-!
# Entries in the order of their keys

A map is kept as the list of its entries in the order of the keys.  Insertion goes through
the list once; it puts the entry in its place or in the place of the entry with its key.
-/

universe u v

variable {κ : Type u} {β : Type v} [LinearOrder κ]

/-- Put an entry in its place. -/
def insert (key : κ) (value : β) : List (κ × β) → List (κ × β)
  | [] => [(key, value)]
  | (other, old) :: rest =>
      if key < other then (key, value) :: (other, old) :: rest
      else if key = other then (key, value) :: rest
      else (other, old) :: insert key value rest

theorem mem_keys_insert {key k : κ} {value : β} {entries : List (κ × β)}
    (member : k ∈ (insert key value entries).map Prod.fst) :
    k = key ∨ k ∈ entries.map Prod.fst := by
  induction entries with
  | nil => exact Or.inl (List.mem_singleton.mp member)
  | cons entry rest inductionHypothesis =>
      rcases entry with ⟨other, old⟩
      rw [insert] at member
      split at member
      · exact List.mem_cons.mp member
      · split at member
        · exact (List.mem_cons.mp member).imp_right (List.mem_cons_of_mem other)
        · rcases List.mem_cons.mp member with same | later
          · exact Or.inr (List.mem_cons.mpr (Or.inl same))
          · exact (inductionHypothesis later).imp_right (List.mem_cons_of_mem other)

/-- Insertion keeps the order. -/
theorem ordered_insert {key : κ} {value : β} {entries : List (κ × β)}
    (ordered : (entries.map Prod.fst).Pairwise (· < ·)) :
    ((insert key value entries).map Prod.fst).Pairwise (· < ·) := by
  induction entries with
  | nil => exact List.pairwise_singleton _ _
  | cons entry rest inductionHypothesis =>
      rcases entry with ⟨other, old⟩
      rcases List.pairwise_cons.mp ordered with ⟨above, later⟩
      rw [insert]
      split
      · next below =>
          refine List.pairwise_cons.mpr ⟨fun k member => ?_, ordered⟩
          rcases List.mem_cons.mp member with rfl | beyond
          · exact below
          · exact lt_trans below (above k beyond)
      · next notBelow =>
          split
          · next same =>
              subst same
              exact ordered
          · next different =>
              refine List.pairwise_cons.mpr ⟨fun k member => ?_, inductionHypothesis later⟩
              rcases mem_keys_insert member with rfl | beyond
              · exact lt_of_le_of_ne (not_lt.mp notBelow) (Ne.symm different)
              · exact above k beyond

/-- Insertion changes what is found under its key, and nothing else. -/
theorem lookup_insert (key k : κ) (value : β) (entries : List (κ × β)) :
    (insert key value entries).lookup k = if k = key then some value else entries.lookup k := by
  induction entries with
  | nil =>
      rw [insert, List.lookup_cons]
      by_cases same : k = key
      · rw [if_pos same, beq_iff_eq.mpr same]
      · rw [if_neg same, beq_eq_false_iff_ne.mpr same]
  | cons entry rest inductionHypothesis =>
      rcases entry with ⟨other, old⟩
      rw [insert]
      split
      · by_cases same : k = key
        · rw [List.lookup_cons, if_pos same, beq_iff_eq.mpr same]
        · rw [List.lookup_cons, if_neg same, beq_eq_false_iff_ne.mpr same]
      · split
        · next equal =>
            subst equal
            by_cases same : k = key
            · rw [List.lookup_cons, if_pos same, beq_iff_eq.mpr same]
            · rw [List.lookup_cons, List.lookup_cons, if_neg same, beq_eq_false_iff_ne.mpr same]
        · next different =>
            by_cases here : k = other
            · subst here
              rw [List.lookup_cons, List.lookup_cons, if_neg (Ne.symm different),
                beq_self_eq_true]
            · rw [List.lookup_cons, List.lookup_cons, beq_eq_false_iff_ne.mpr here]
              exact inductionHypothesis

end Ordered
end Library
end Sigil
