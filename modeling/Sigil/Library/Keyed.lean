import Mathlib.Data.List.Induction
import Mathlib.Data.List.Nodup
import Mathlib.Data.List.Perm.Basic

namespace Sigil
namespace Library
namespace Keyed

/-!
# Lists with keys

A list with keys is read as a finite map: an update gives one key a new content and leaves
the content of every other key, up to the order.  When a part of the list is exchanged for
another one, it is told from the parts whether that is an update.
-/

universe u v

variable {α : Type u} {κ : Type v} [DecidableEq κ] (key : α → κ)

/-- The elements with a key. -/
def content (list : List α) (k : κ) : List α :=
  list.filter fun x => key x = k

/-- The key has the new content, and every other key has what it had. -/
def Updates (before after : List α) (k : κ) (new : List α) : Prop :=
  content key after k = new ∧
    ∀ other, other ≠ k → (content key after other).Perm (content key before other)

variable {key}

theorem content_append (left right : List α) (k : κ) :
    content key (left ++ right) k = content key left k ++ content key right k :=
  List.filter_append _ _

theorem content_perm {left right : List α} (same : left.Perm right) (k : κ) :
    (content key left k).Perm (content key right k) :=
  same.filter _

theorem content_eq_self {list : List α} {k : κ} (all : ∀ x, x ∈ list → key x = k) :
    content key list k = list :=
  List.filter_eq_self.mpr fun x member => decide_eq_true (all x member)

theorem content_eq_nil {list : List α} {k other : κ} (all : ∀ x, x ∈ list → key x = k)
    (different : other ≠ k) : content key list other = [] := by
  apply List.filter_eq_nil_iff.mpr
  intro x member same
  exact different ((of_decide_eq_true same).symm.trans (all x member))

/-- A list with at most one element has no other order. -/
theorem perm_short_iff {list short : List α} (length : short.length ≤ 1) :
    list.Perm short ↔ list = short := by
  match short, length with
  | [], _ => exact List.perm_nil
  | [x], _ => exact List.perm_singleton

/-- Exchanging a part for at most one new element is an update exactly when the new element
and the old part have the key, and the rest gives the key no more than it should have. -/
theorem updates_iff {before after old placed rest new : List α} {k : κ}
    (isBefore : before.Perm (old ++ rest)) (isAfter : after.Perm (placed ++ rest))
    (short : new.length ≤ 1) (part : placed ⊆ new) :
    Updates key before after k new ↔
      (∀ x, x ∈ new → key x = k) ∧ (∀ x, x ∈ old → key x = k) ∧
        placed ++ content key rest k = new := by
  have contentAfter : ∀ other,
      (content key after other).Perm (content key placed other ++ content key rest other) := by
    intro other
    rw [← content_append]
    exact content_perm isAfter other
  have contentBefore : ∀ other,
      (content key before other).Perm (content key old other ++ content key rest other) := by
    intro other
    rw [← content_append]
    exact content_perm isBefore other
  constructor
  · rintro ⟨own, others⟩
    have named : ∀ x, x ∈ new → key x = k := by
      intro x member
      rw [← own] at member
      exact of_decide_eq_true (List.mem_filter.mp member).2
    have placedNamed : ∀ x, x ∈ placed → key x = k := fun x member => named x (part member)
    refine ⟨named, fun x member => ?_, ?_⟩
    · by_contra different
      have same := ((contentAfter (key x)).symm.trans (others (key x) different)).trans
        (contentBefore (key x))
      rw [content_eq_nil placedNamed different] at same
      have nothing := List.perm_nil.mp ((List.perm_append_right_iff _).mp same).symm
      have isThere : x ∈ content key old (key x) :=
        List.mem_filter.mpr ⟨member, decide_eq_true rfl⟩
      rw [nothing] at isThere
      exact absurd isThere List.not_mem_nil
    · have same := (contentAfter k).symm
      rw [own, content_eq_self placedNamed] at same
      exact (perm_short_iff short).mp same
  · rintro ⟨named, oldNamed, total⟩
    have placedNamed : ∀ x, x ∈ placed → key x = k := fun x member => named x (part member)
    refine ⟨?_, fun other different => ?_⟩
    · have same := contentAfter k
      rw [content_eq_self placedNamed, total] at same
      exact (perm_short_iff short).mp same
    · have same := contentAfter other
      rw [content_eq_nil placedNamed different] at same
      have old := contentBefore other
      rw [content_eq_nil oldNamed different] at old
      exact same.trans old.symm

/-- Where no two elements have the same key, an element is found by its key. -/
theorem find_eq_some_iff {list : List α} (distinct : (list.map key).Nodup) {k : κ} {x : α} :
    (list.find? fun y => key y = k) = some x ↔ x ∈ list ∧ key x = k := by
  constructor
  · intro found
    have isKey := List.find?_some found
    rw [decide_eq_true_eq] at isKey
    exact ⟨List.mem_of_find?_eq_some found, isKey⟩
  · intro has
    cases found : list.find? fun y => key y = k with
    | none =>
        have other := List.find?_eq_none.mp found x has.1
        rw [decide_eq_true_eq] at other
        exact absurd has.2 other
    | some first =>
        have isKey := List.find?_some found
        rw [decide_eq_true_eq] at isKey
        have member := List.mem_of_find?_eq_some found
        rw [List.inj_on_of_nodup_map distinct member has.1 (isKey.trans has.2.symm)]

section Lookup

universe w

variable {β : Type w} [BEq κ] [LawfulBEq κ] {entries : List (κ × β)}

omit [DecidableEq κ] in
/-- Where no two pairs have the same key, the value of a pair is found under its key. -/
theorem lookup_of_mem (distinct : (entries.map Prod.fst).Nodup) {k : κ} {value : β}
    (member : (k, value) ∈ entries) : entries.lookup k = some value := by
  rcases List.append_of_mem member with ⟨before, after, rfl⟩
  rw [List.map_append, List.map_cons, List.nodup_append] at distinct
  refine List.lookup_eq_some_iff.mpr ⟨before, after, rfl, fun entry isBefore => ?_⟩
  rw [bne_iff_ne]
  exact Ne.symm (distinct.2.2 entry.1 (List.mem_map_of_mem isBefore) k List.mem_cons_self)

omit [DecidableEq κ] in
theorem lookup_reverse_of_mem (distinct : (entries.map Prod.fst).Nodup) {k : κ} {value : β}
    (member : (k, value) ∈ entries) : entries.reverse.lookup k = some value := by
  apply lookup_of_mem
  · rw [List.map_reverse]
    exact List.nodup_reverse.mpr distinct
  · exact List.mem_reverse.mpr member

omit [DecidableEq κ] in
theorem mem_of_lookup_reverse {k : κ} {value : β}
    (found : entries.reverse.lookup k = some value) : (k, value) ∈ entries := by
  rcases List.lookup_eq_some_iff.mp found with ⟨before, after, split, -⟩
  rw [← List.mem_reverse, split]
  exact List.mem_append_right _ List.mem_cons_self

omit [DecidableEq κ] in
theorem lookup_eq_none {k : κ} (absent : k ∉ entries.map Prod.fst) :
    entries.lookup k = none := by
  rw [List.lookup_eq_none_iff]
  intro entry member
  rw [bne_iff_ne]
  intro equal
  exact absent (List.mem_map.mpr ⟨entry, member, equal.symm⟩)

omit [DecidableEq κ] in
/-- The order of pairs with different keys does not matter. -/
theorem lookup_reverse (distinct : (entries.map Prod.fst).Nodup) (k : κ) :
    entries.reverse.lookup k = entries.lookup k := by
  by_cases present : k ∈ entries.map Prod.fst
  · rcases List.mem_map.mp present with ⟨⟨_, value⟩, member, rfl⟩
    rw [lookup_reverse_of_mem distinct member, lookup_of_mem distinct member]
  · rw [lookup_eq_none present]
    apply lookup_eq_none
    rw [List.map_reverse, List.mem_reverse]
    exact present

end Lookup

/-! ## The first element of each key -/

section Firsts

variable (key)

/-- Put an element at the end unless its key is there. -/
def addNew (list : List α) (x : α) : List α :=
  if key x ∈ list.map key then list else list ++ [x]

/-- The first element of each key, in the order of the list. -/
def firsts (list : List α) : List α :=
  list.foldl (addNew key) []

theorem firsts_concat (list : List α) (x : α) :
    firsts key (list ++ [x]) = addNew key (firsts key list) x := by
  rw [firsts, List.foldl_append]
  rfl

variable {key}

/-- What is found under a key is what was found before, or the new element. -/
theorem find_addNew (list : List α) (x : α) (k : κ) :
    (addNew key list x).find? (fun y => key y = k) =
      (list.find? fun y => key y = k).or (if key x = k then some x else none) := by
  have single : [x].find? (fun y => key y = k) = if key x = k then some x else none := by
    by_cases same : key x = k <;> simp [same]
  rw [addNew]
  split
  · next present =>
      cases found : list.find? fun y => key y = k with
      | some first => rw [Option.some_or]
      | none =>
          have other : key x ≠ k := by
            rcases List.mem_map.mp present with ⟨y, member, same⟩
            rw [← same]
            simpa using List.find?_eq_none.mp found y member
          rw [if_neg other, Option.none_or]
  · rw [List.find?_append, single]

theorem nodup_addNew {list : List α} (distinct : (list.map key).Nodup) (x : α) :
    ((addNew key list x).map key).Nodup := by
  rw [addNew]
  split
  · exact distinct
  · next absent =>
      rw [List.map_append, List.map_singleton, ← List.concat_eq_append]
      exact List.Nodup.concat absent distinct

/-- Nothing is left out of a list with different keys. -/
theorem firsts_eq_self {list : List α} (distinct : (list.map key).Nodup) :
    firsts key list = list := by
  induction list using List.reverseRecOn with
  | nil => rfl
  | append_singleton list x inductionHypothesis =>
      rw [List.map_append, List.map_singleton] at distinct
      have absent : key x ∉ list.map key := fun present =>
        List.disjoint_of_nodup_append distinct present List.mem_cons_self
      rw [firsts_concat, inductionHypothesis distinct.of_append_left, addNew, if_neg absent]

end Firsts

end Keyed
end Library
end Sigil
