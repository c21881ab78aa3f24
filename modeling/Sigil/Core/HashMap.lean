import Mathlib.Data.List.AList

namespace Sigil
namespace Core

/-!
# Hash maps

What the program does with a hash map beyond a lookup: it goes through the entries in an
order that nobody knows, and collects values under a key.
-/

universe u v w

/-- The order in which a hash map or a hash set is gone through: any one. -/
structure HashOrder (α : Type u) where
  run : List α → List α
  perm : ∀ list, (run list).Perm list

theorem HashOrder.mem {α : Type u} (order : HashOrder α) {list : List α} {x : α} :
    x ∈ order.run list ↔ x ∈ list :=
  (order.perm list).mem_iff

/-- The order in which the entries are kept. -/
def HashOrder.inserted (α : Type u) : HashOrder α where
  run := id
  perm := List.Perm.refl

/-- An order in which two entries come first. -/
def HashOrder.lead {α : Type u} [DecidableEq α] (x y : α) : HashOrder α where
  run list := if x ∈ list ∧ y ∈ list.erase x then x :: y :: (list.erase x).erase y else list
  perm list := by
    split
    · next present =>
        have second := (List.perm_cons_erase present.2).symm.cons x
        exact second.trans (List.perm_cons_erase present.1).symm
    · exact List.Perm.refl list

/-- Which of two entries comes first can be left to the order alone. -/
theorem HashOrder.lead_swap {α : Type u} [DecidableEq α] {x y : α} {list : List α}
    (different : x ≠ y) (inFirst : x ∈ list) (inSecond : y ∈ list) :
    ∃ rest, (HashOrder.lead x y).run list = x :: y :: rest ∧
      (HashOrder.lead y x).run list = y :: x :: rest := by
  have first : y ∈ list.erase x := (List.mem_erase_of_ne different.symm).mpr inSecond
  have second : x ∈ list.erase y := (List.mem_erase_of_ne different).mpr inFirst
  refine ⟨(list.erase x).erase y, if_pos ⟨inFirst, first⟩, ?_⟩
  rw [List.erase_comm]
  exact if_pos ⟨inSecond, second⟩

variable {κ : Type u} {α : Type v} [DecidableEq κ]

/-- `entry(key).or_default().push(value)`. -/
def push (map : AList fun _ : κ => List α) (key : κ) (value : α) :
    AList fun _ : κ => List α :=
  map.insert key ((map.lookup key).getD [] ++ [value])

/-- Push values under their keys, one after another. -/
def pushAll (map : AList fun _ : κ => List α) (pairs : List (κ × α)) :
    AList fun _ : κ => List α :=
  pairs.foldl (fun map pair => push map pair.1 pair.2) map

theorem lookup_push (map : AList fun _ : κ => List α) (key other : κ) (value : α) :
    ((push map key value).lookup other).getD [] =
      (map.lookup other).getD [] ++ if key = other then [value] else [] := by
  unfold push
  by_cases same : key = other
  · subst same
    rw [AList.lookup_insert, if_pos rfl]
    rfl
  · rw [AList.lookup_insert_ne (Ne.symm same), if_neg same, List.append_nil]

/-- Under each key are the values that were pushed with it, in their order. -/
theorem lookup_pushAll (map : AList fun _ : κ => List α) (pairs : List (κ × α)) (key : κ) :
    ((pushAll map pairs).lookup key).getD [] = (map.lookup key).getD [] ++
      (pairs.filter fun pair => pair.1 = key).map Prod.snd := by
  induction pairs generalizing map with
  | nil => exact (List.append_nil _).symm
  | cons pair pairs inductionHypothesis =>
      change ((pushAll (push map pair.1 pair.2) pairs).lookup key).getD [] = _
      rw [inductionHypothesis, lookup_push]
      by_cases same : pair.1 = key
      · rw [if_pos same, List.filter_cons, if_pos (decide_eq_true same), List.map_cons,
          List.append_assoc]
        rfl
      · rw [if_neg same, List.filter_cons, if_neg (by rwa [decide_eq_true_eq]), List.append_nil]

theorem mem_pushAll (map : AList fun _ : κ => List α) (pairs : List (κ × α)) (key : κ) :
    key ∈ pushAll map pairs ↔ key ∈ map ∨ ∃ value, (key, value) ∈ pairs := by
  induction pairs generalizing map with
  | nil =>
      refine ⟨Or.inl, ?_⟩
      rintro (old | ⟨value, impossible⟩)
      · exact old
      · exact absurd impossible List.not_mem_nil
  | cons pair pairs inductionHypothesis =>
      change key ∈ pushAll (push map pair.1 pair.2) pairs ↔ _
      rw [inductionHypothesis, push, AList.mem_insert]
      constructor
      · rintro ((rfl | old) | ⟨value, member⟩)
        · exact Or.inr ⟨pair.2, List.mem_cons_self⟩
        · exact Or.inl old
        · exact Or.inr ⟨value, List.mem_cons_of_mem _ member⟩
      · rintro (old | ⟨value, member⟩)
        · exact Or.inl (Or.inr old)
        · rcases List.mem_cons.mp member with rfl | later
          · exact Or.inl (Or.inl rfl)
          · exact Or.inr ⟨value, later⟩

/-- An entry of the map holds exactly the values pushed with its key, and there is one. -/
theorem mem_entries_pushAll {pairs : List (κ × α)} {key : κ} {values : List α} :
    ⟨key, values⟩ ∈ (pushAll ∅ pairs).entries ↔
      values = (pairs.filter fun pair => pair.1 = key).map Prod.snd ∧ values ≠ [] := by
  rw [← AList.mem_lookup_iff, Option.mem_def]
  have found := lookup_pushAll ∅ pairs key
  rw [AList.lookup_empty, Option.getD_none, List.nil_append] at found
  have present := mem_pushAll (∅ : AList fun _ : κ => List α) pairs key
  constructor
  · intro lookup
    rw [lookup, Option.getD_some] at found
    refine ⟨found, ?_⟩
    rcases present.mp (AList.lookup_isSome.mp (by rw [lookup]; rfl)) with
      impossible | ⟨value, member⟩
    · exact absurd impossible (AList.notMem_empty key)
    · rw [found]
      apply List.ne_nil_of_mem (a := value)
      exact List.mem_map.mpr ⟨(key, value),
        List.mem_filter.mpr ⟨member, decide_eq_true rfl⟩, rfl⟩
  · rintro ⟨rfl, nonempty⟩
    cases lookup : (pushAll ∅ pairs).lookup key with
    | none =>
        rw [lookup, Option.getD_none] at found
        exact absurd found.symm nonempty
    | some values =>
        rw [lookup, Option.getD_some] at found
        rw [found]

/-- The keys of a map into which entries are inserted one after another. -/
theorem mem_insertAll {β : Type w} {entry : κ → Type v} (key : β → κ)
    (value : (x : β) → entry (key x)) (list : List β) (map : AList entry) (k : κ) :
    k ∈ list.foldl (fun map x => map.insert (key x) (value x)) map ↔
      k ∈ map ∨ ∃ x, x ∈ list ∧ key x = k := by
  induction list generalizing map with
  | nil =>
      refine ⟨Or.inl, ?_⟩
      rintro (old | ⟨x, impossible, -⟩)
      · exact old
      · exact absurd impossible List.not_mem_nil
  | cons first list inductionHypothesis =>
      rw [List.foldl_cons, inductionHypothesis, AList.mem_insert]
      constructor
      · rintro ((rfl | old) | ⟨x, member, isKey⟩)
        · exact Or.inr ⟨first, List.mem_cons_self, rfl⟩
        · exact Or.inl old
        · exact Or.inr ⟨x, List.mem_cons_of_mem _ member, isKey⟩
      · rintro (old | ⟨x, member, rfl⟩)
        · exact Or.inl (Or.inr old)
        · rcases List.mem_cons.mp member with rfl | later
          · exact Or.inl (Or.inl rfl)
          · exact Or.inr ⟨x, later, rfl⟩

end Core
end Sigil
