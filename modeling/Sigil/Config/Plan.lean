import Mathlib.Data.List.Zip
import Sigil.Config.Value

namespace Sigil
namespace Config

/-!
# Plan and drift

A configuration is compared with the one that was applied last.  The walk goes down both value
trees and lists what has been added, removed or changed, with the path to it.
-/

open Library

/-- One changed leaf, with its dotted path. -/
inductive Change where
  | added (path value : String)
  | removed (path value : String)
  | changed (path old new : String)
  deriving DecidableEq, Repr

/-- The change in the other direction. -/
def Change.swap : Change → Change
  | .added path value => .removed path value
  | .removed path value => .added path value
  | .changed path old new => .changed path new old

def join (pre key : String) : String :=
  if pre.isEmpty then key else pre ++ "." ++ key

section Walk

variable {ν : Type} [BEq ν] (scalar : Value ν → String)

open Value

mutual

/-- What has changed from the current value to the desired one. -/
def walk (path : String) : Value ν → Value ν → List Change
  | .mapping c, .mapping d =>
      walkEntries path c d ++
        (d.filter fun e => (get c e.1).isNone).map fun e =>
          .added (join path (scalar e.1)) (scalar e.2)
  | .sequence c, .sequence d =>
      walkItems path 0 c d ++
        ((c.zipIdx.drop d.length).map fun v => .removed (join path (toString v.2)) (scalar v.1)) ++
        (d.zipIdx.drop c.length).map fun v => .added (join path (toString v.2)) (scalar v.1)
  | current, desired =>
      if eq current desired then [] else [.changed path (scalar current) (scalar desired)]
termination_by structural v => v

/-- The loop over the entries of the current mapping. -/
def walkEntries (path : String) :
    List (Value ν × Value ν) → List (Value ν × Value ν) → List Change
  | [], _ => []
  | (k, cv) :: rest, d =>
      (match get d k with
        | some dv => walk (join path (scalar k)) cv dv
        | none => [.removed (join path (scalar k)) (scalar cv)]) ++ walkEntries path rest d
termination_by structural v => v

/-- The loop over the items that both sequences have. -/
def walkItems (path : String) (i : Nat) : List (Value ν) → List (Value ν) → List Change
  | c :: cs, d :: ds => walk (join path (toString i)) c d ++ walkItems path (i + 1) cs ds
  | _, _ => []
termination_by structural v => v

end

/-- The comparison of two configurations, given by their value trees. -/
def diff (current desired : Value ν) : List Change :=
  walk scalar "" current desired

/-! ## The three cases of the walk -/

variable {scalar}

/-- The values are compared as a whole, whatever comes first. -/
structure Whole (current desired : Value ν) : Prop where
  walk_eq {scalar : Value ν → String} {path : String} : walk scalar path current desired =
    if eq current desired then [] else [.changed path (scalar current) (scalar desired)]
  walk_swap {scalar : Value ν → String} {path : String} : walk scalar path desired current =
    if eq desired current then [] else [.changed path (scalar desired) (scalar current)]

theorem walk_cases (current desired : Value ν) :
    (∃ c d, current = .mapping c ∧ desired = .mapping d) ∨
      (∃ c d, current = .sequence c ∧ desired = .sequence d) ∨ Whole current desired := by
  cases current with
  | mapping c =>
      cases desired with
      | mapping d => exact Or.inl ⟨c, d, rfl, rfl⟩
      | _ => exact Or.inr (Or.inr ⟨rfl, rfl⟩)
  | sequence c =>
      cases desired with
      | sequence d => exact Or.inr (Or.inl ⟨c, d, rfl, rfl⟩)
      | _ => exact Or.inr (Or.inr ⟨rfl, rfl⟩)
  | null => cases desired <;> exact Or.inr (Or.inr ⟨rfl, rfl⟩)
  | bool b => cases desired <;> exact Or.inr (Or.inr ⟨rfl, rfl⟩)
  | number n => cases desired <;> exact Or.inr (Or.inr ⟨rfl, rfl⟩)
  | string s => cases desired <;> exact Or.inr (Or.inr ⟨rfl, rfl⟩)
  | tagged tag v => cases desired <;> exact Or.inr (Or.inr ⟨rfl, rfl⟩)

theorem walk_mapping (path : String) (c d : List (Value ν × Value ν)) :
    walk scalar path (.mapping c) (.mapping d) =
      (c.flatMap fun e => (Matching.partner (fun e f => eq e.1 f.1) d e).elim
        [.removed (join path (scalar e.1)) (scalar e.2)]
        fun f => walk scalar (join path (scalar e.1)) e.2 f.2) ++
      (Matching.alone (fun f e => eq f.1 e.1) d c).map fun f =>
        .added (join path (scalar f.1)) (scalar f.2) := by
  have entries : walkEntries scalar path c d = c.flatMap fun e =>
      (Matching.partner (fun e f => eq e.1 f.1) d e).elim
        [.removed (join path (scalar e.1)) (scalar e.2)]
        fun f => walk scalar (join path (scalar e.1)) e.2 f.2 := by
    induction c with
    | nil => rfl
    | cons e c inductionHypothesis =>
        rw [List.flatMap_cons, ← inductionHypothesis]
        change (match (Matching.partner (fun e f => eq e.1 f.1) d e).map Prod.snd with
          | some dv => walk scalar (join path (scalar e.1)) e.2 dv
          | none => [.removed (join path (scalar e.1)) (scalar e.2)]) ++ _ = _
        cases Matching.partner (fun e f => eq e.1 f.1) d e <;> rfl
  have news : (d.filter fun f => (get c f.1).isNone) =
      Matching.alone (fun f e => eq f.1 e.1) d c := by
    apply List.filter_congr
    intro f _
    exact Option.isNone_map
  rw [← entries, ← news]
  rfl

theorem whole_of_leaf {current : Value ν} (notMapping : ∀ c, current ≠ .mapping c)
    (notSequence : ∀ c, current ≠ .sequence c) (desired : Value ν) :
    Whole current desired := by
  rcases walk_cases current desired with ⟨c, _, equal, -⟩ | ⟨c, _, equal, -⟩ | isWhole
  · exact absurd equal (notMapping c)
  · exact absurd equal (notSequence c)
  · exact isWhole

/-- Induction along the walk: over the values of two mappings, the items of two sequences, or
two values that are compared as a whole. -/
theorem walk_induction {P : Value ν → Value ν → Prop}
    (mapping : ∀ c d, (∀ e, e ∈ c → ∀ w, P e.2 w) → P (.mapping c) (.mapping d))
    (sequence : ∀ c d, (∀ v, v ∈ c → ∀ w, P v w) → P (.sequence c) (.sequence d))
    (whole : ∀ v w, Whole v w → P v w) (current desired : Value ν) : P current desired := by
  induction current using byParts generalizing desired with
  | sequence items inductionHypothesis =>
      rcases walk_cases (.sequence items) desired with
        ⟨c, d, not, -⟩ | ⟨c, d, same, rfl⟩ | isWhole
      · cases not
      · cases same
        exact sequence items d fun v member w => inductionHypothesis v member w
      · exact whole _ _ isWhole
  | mapping entries inductionHypothesis =>
      rcases walk_cases (.mapping entries) desired with
        ⟨c, d, same, rfl⟩ | ⟨c, d, not, -⟩ | isWhole
      · cases same
        exact mapping entries d fun e member w => (inductionHypothesis e member).2 w
      · cases not
      · exact whole _ _ isWhole
  | _ =>
      apply whole
      apply whole_of_leaf
      · rintro c ⟨⟩
      · rintro c ⟨⟩

/-! ## No change -/

theorem walkItems_eq_nil_iff {path : String} {c d : List (Value ν)} (i : Nat)
    (decides : ∀ v, v ∈ c → ∀ w, w ∈ d → ∀ path,
      walk scalar path v w = [] ↔ Same v w) :
    (walkItems scalar path i c d = [] ∧ c.length = d.length) ↔ List.Forall₂ Same c d := by
  induction c generalizing d i with
  | nil =>
      cases d with
      | nil => exact iff_of_true ⟨rfl, rfl⟩ List.Forall₂.nil
      | cons w d => exact iff_of_false (by rintro ⟨-, ⟨⟩⟩) (by rintro ⟨⟩)
  | cons v c inductionHypothesis =>
      cases d with
      | nil => exact iff_of_false (by rintro ⟨-, ⟨⟩⟩) (by rintro ⟨⟩)
      | cons w d =>
          have rest := inductionHypothesis (d := d) (i + 1) fun v hv w hw =>
            decides v (List.mem_cons_of_mem _ hv) w (List.mem_cons_of_mem _ hw)
          rw [List.forall₂_cons, ← rest,
            ← decides v List.mem_cons_self w List.mem_cons_self (join path (toString i))]
          change (walk scalar (join path (toString i)) v w ++
            walkItems scalar path (i + 1) c d = [] ∧
            c.length + 1 = d.length + 1) ↔ _
          rw [List.append_eq_nil_iff, Nat.add_right_cancel_iff, and_assoc]

theorem zipIdx_drop_eq_nil_iff {α : Type} {l : List α} {n : Nat} :
    l.zipIdx.drop n = [] ↔ l.length ≤ n := by
  rw [List.drop_eq_nil_iff, List.length_zipIdx]

variable [EquivBEq ν]

/-- The entries of two mappings without duplicate keys are matched by their keys. -/
theorem matches_of_distinct {c d : List (Value ν × Value ν)} (distinct : Distinct (.mapping c))
    (distinct' : Distinct (.mapping d)) :
    Matching.Matches SameKey (fun e f => eq e.1 f.1) c d := by
  rw [distinct_mapping] at distinct distinct'
  exact ⟨sameKey_equivalence, fun e he f hf =>
    eq_iff_same (distinct.2 e he).1 (distinct'.2 f hf).1, distinct.1, distinct'.1⟩

/-- The walk lists nothing exactly when the trees are the same. -/
theorem walk_eq_nil_iff {current desired : Value ν} (distinct : Distinct current)
    (distinct' : Distinct desired) (path : String) :
    walk scalar path current desired = [] ↔ Same current desired := by
  induction current, desired using walk_induction generalizing path with
  | mapping c d inductionHypothesis =>
      have matching := matches_of_distinct distinct distinct'
      have back := matches_of_distinct distinct' distinct
      have values : ∀ e, e ∈ c → ∀ f, f ∈ d → ∀ path,
          walk scalar path e.2 f.2 = [] ↔ Same e.2 f.2 := fun e he f hf path =>
        inductionHypothesis e he f.2 ((distinct_mapping.mp distinct).2 e he).2
          ((distinct_mapping.mp distinct').2 f hf).2 path
      rw [walk_mapping, List.append_eq_nil_iff, List.flatMap_eq_nil_iff, List.map_eq_nil_iff,
        Matching.alone_eq_nil_iff_forall, same_mapping]
      constructor
      · rintro ⟨each, partnered⟩
        have found : ∀ e, e ∈ c → ∃ f, f ∈ d ∧ Same e.1 f.1 ∧ Same e.2 f.2 := by
          intro e he
          have nothing := each e he
          cases isPartner : Matching.partner (fun e f => eq e.1 f.1) d e with
          | none =>
              rw [isPartner] at nothing
              cases nothing
          | some f =>
              rw [isPartner] at nothing
              have partner := (matching.partner_eq_some_iff he).mp isPartner
              exact ⟨f, partner.1, partner.2, (values e he f partner.1 _).mp nothing⟩
        refine ⟨found, fun f hf => ?_⟩
        rcases partnered f hf with ⟨e, isPartner⟩
        have partner := (back.partner_eq_some_iff hf).mp isPartner
        rcases found e partner.1 with ⟨f', hf', keys, same⟩
        cases matching.right_apart.eq sameKey_equivalence hf hf' (Same.trans partner.2 keys)
        exact ⟨e, partner.1, keys, same⟩
      · rintro ⟨forth, backward⟩
        constructor
        · intro e he
          rcases forth e he with ⟨f, hf, keys, same⟩
          rw [(matching.partner_eq_some_iff he).mpr ⟨hf, keys⟩]
          exact (values e he f hf _).mpr same
        · intro f hf
          rcases backward f hf with ⟨e, he, keys, -⟩
          exact ⟨e, (back.partner_eq_some_iff hf).mpr ⟨he, Same.symm keys⟩⟩
  | sequence c d inductionHypothesis =>
      have decides : ∀ v, v ∈ c → ∀ w, w ∈ d → ∀ path,
          walk scalar path v w = [] ↔ Same v w := fun v hv w hw path =>
        inductionHypothesis v hv w (distinct_sequence.mp distinct v hv)
          (distinct_sequence.mp distinct' w hw) path
      rw [same_sequence, ← @walkItems_eq_nil_iff _ _ scalar path _ _ 0 decides]
      change walkItems scalar path 0 c d ++ _ ++ _ = [] ↔ _
      rw [List.append_eq_nil_iff, List.append_eq_nil_iff, List.map_eq_nil_iff, List.map_eq_nil_iff,
        zipIdx_drop_eq_nil_iff, zipIdx_drop_eq_nil_iff, and_assoc]
      exact and_congr_right fun _ => Nat.le_antisymm_iff.symm
  | whole v w isWhole =>
      rw [isWhole.walk_eq, ← eq_iff_same distinct distinct']
      by_cases equal : eq v w = true
      · rw [if_pos equal]
        exact iff_of_true rfl equal
      · rw [if_neg equal]
        exact iff_of_false (List.cons_ne_nil _ _) equal

end Walk

/-! ## The other direction -/

section Keys

variable {ν : Type}

mutual

/-- The keys on the paths of the walk. -/
def keys : Value ν → List (Value ν)
  | .mapping entries => keysOfEntries entries
  | .sequence items => keysOfItems items
  | _ => []
termination_by structural v => v

def keysOfEntries : List (Value ν × Value ν) → List (Value ν)
  | [] => []
  | (k, v) :: rest => k :: keys v ++ keysOfEntries rest
termination_by structural v => v

def keysOfItems : List (Value ν) → List (Value ν)
  | [] => []
  | v :: rest => keys v ++ keysOfItems rest
termination_by structural v => v

end

theorem mem_keys_mapping {entries : List (Value ν × Value ν)} {e : Value ν × Value ν}
    (member : e ∈ entries) {k : Value ν} (key : k = e.1 ∨ k ∈ keys e.2) :
    k ∈ keys (.mapping entries) := by
  change k ∈ keysOfEntries entries
  induction entries with
  | nil => exact absurd member List.not_mem_nil
  | cons first entries inductionHypothesis =>
      change k ∈ first.1 :: keys first.2 ++ keysOfEntries entries
      rw [List.cons_append, List.mem_cons, List.mem_append]
      rcases List.mem_cons.mp member with rfl | later
      · exact key.imp_right Or.inl
      · exact Or.inr (Or.inr (inductionHypothesis later))

theorem mem_keys_sequence {items : List (Value ν)} {v : Value ν}
    (member : v ∈ items) {k : Value ν} (key : k ∈ keys v) : k ∈ keys (.sequence items) := by
  change k ∈ keysOfItems items
  induction items with
  | nil => exact absurd member List.not_mem_nil
  | cons first items inductionHypothesis =>
      change k ∈ keys first ++ keysOfItems items
      rw [List.mem_append]
      rcases List.mem_cons.mp member with rfl | later
      · exact Or.inl key
      · exact Or.inr (inductionHypothesis later)

end Keys

section Swap

variable {ν : Type} [BEq ν] {scalar : Value ν → String}

open Value

/-- Keys of the two trees that are equal have the same text. -/
def SpelledAlike (scalar : Value ν → String) (current desired : Value ν) : Prop :=
  ∀ k, k ∈ keys current → ∀ k', k' ∈ keys desired → Same k k' → scalar k = scalar k'

theorem walkItems_swap {path : String} {c d : List (Value ν)} (i : Nat)
    (swaps : ∀ v, v ∈ c → ∀ w, w ∈ d → ∀ path,
      (walk scalar path w v).Perm ((walk scalar path v w).map Change.swap)) :
    (walkItems scalar path i d c).Perm ((walkItems scalar path i c d).map Change.swap) := by
  induction c generalizing d i with
  | nil => cases d <;> exact List.Perm.refl _
  | cons v c inductionHypothesis =>
      cases d with
      | nil => exact List.Perm.refl _
      | cons w d =>
          have rest := inductionHypothesis (d := d) (i + 1) fun v hv w hw =>
            swaps v (List.mem_cons_of_mem _ hv) w (List.mem_cons_of_mem _ hw)
          change (walk scalar (join path (toString i)) w v ++
            walkItems scalar path (i + 1) d c).Perm
            ((walk scalar (join path (toString i)) v w ++
              walkItems scalar path (i + 1) c d).map Change.swap)
          rw [List.map_append]
          exact (swaps v List.mem_cons_self w List.mem_cons_self _).append rest

/-- The walk over two mappings lists the changes of the pairs and of the entries on either side
alone. -/
theorem walk_mapping_perm (path : String) (c d : List (Value ν × Value ν)) :
    (walk scalar path (.mapping c) (.mapping d)).Perm
      ((Matching.pairs (fun e f => eq e.1 f.1) c d).flatMap
          (fun p => walk scalar (join path (scalar p.1.1)) p.1.2 p.2.2) ++
        (Matching.alone (fun e f => eq e.1 f.1) c d).map
          (fun e => .removed (join path (scalar e.1)) (scalar e.2)) ++
        (Matching.alone (fun e f => eq e.1 f.1) d c).map
          (fun f => .added (join path (scalar f.1)) (scalar f.2))) := by
  rw [walk_mapping]
  apply List.Perm.append_right
  have removed : (Matching.alone (fun e f => eq e.1 f.1) c d).map
      (fun e => Change.removed (join path (scalar e.1)) (scalar e.2)) = _ := List.map_eq_flatMap
  rw [removed]
  exact Matching.flatMap_perm (fun e f => eq e.1 f.1) c d
    (fun e f => walk scalar (join path (scalar e.1)) e.2 f.2)
    (fun e => [Change.removed (join path (scalar e.1)) (scalar e.2)])

/-- Text keys that are equal have the same text. -/
theorem spelledAlike_of_strings {current desired : Value ν}
    (strings : ∀ k, k ∈ keys current → ∃ s, k = .string s) :
    SpelledAlike scalar current desired := by
  intro k hk k' hk' same
  rcases strings k hk with ⟨s, rfl⟩
  cases k' with
  | string s' => rw [show s = s' from same]
  | _ => exact same.elim

variable [EquivBEq ν]

/-- In the other direction the walk lists the changes the other way round. -/
theorem walk_swap {current desired : Value ν} (distinct : Distinct current)
    (distinct' : Distinct desired) (alike : SpelledAlike scalar current desired) (path : String) :
    (walk scalar path desired current).Perm
      ((walk scalar path current desired).map Change.swap) := by
  induction current, desired using walk_induction generalizing path with
  | mapping c d inductionHypothesis =>
      have matching := matches_of_distinct distinct distinct'
      have back := matches_of_distinct distinct' distinct
      apply (walk_mapping_perm path d c).trans
      apply List.Perm.trans _ ((walk_mapping_perm path c d).map Change.swap).symm
      rw [List.map_append, List.map_append, List.map_map, List.map_map, List.append_assoc,
        List.append_assoc]
      apply List.Perm.append _ List.perm_append_comm
      -- the pairs are the same, and what changes in a pair is swapped
      apply ((matching.pairs_swap back).flatMap_right _).trans
      rw [List.flatMap_map, List.map_flatMap]
      apply List.Perm.flatMap_left
      rintro ⟨e, f⟩ pair
      rcases matching.mem_pairs.mp pair with ⟨he, hf, sameKey⟩
      have sameText : scalar e.1 = scalar f.1 := alike e.1 (mem_keys_mapping he (Or.inl rfl)) f.1
        (mem_keys_mapping hf (Or.inl rfl)) sameKey
      change (walk scalar (join path (scalar f.1)) f.2 e.2).Perm
        ((walk scalar (join path (scalar e.1)) e.2 f.2).map Change.swap)
      rw [sameText]
      apply inductionHypothesis e he f.2 ((distinct_mapping.mp distinct).2 e he).2
        ((distinct_mapping.mp distinct').2 f hf).2
      exact fun k hk k' hk' =>
        alike k (mem_keys_mapping he (Or.inr hk)) k' (mem_keys_mapping hf (Or.inr hk'))
  | sequence c d inductionHypothesis =>
      have swaps : ∀ v, v ∈ c → ∀ w, w ∈ d → ∀ path,
          (walk scalar path w v).Perm ((walk scalar path v w).map Change.swap) := by
        intro v hv w hw path
        apply inductionHypothesis v hv w (distinct_sequence.mp distinct v hv)
          (distinct_sequence.mp distinct' w hw)
        exact fun k hk k' hk' => alike k (mem_keys_sequence hv hk) k' (mem_keys_sequence hw hk')
      change (walkItems scalar path 0 d c ++ _ ++ _).Perm
        ((walkItems scalar path 0 c d ++ _ ++ _).map Change.swap)
      rw [List.map_append, List.map_append, List.map_map, List.map_map, List.append_assoc,
        List.append_assoc]
      exact (walkItems_swap 0 swaps).append List.perm_append_comm
  | whole v w isWhole =>
      have symmetric : eq w v = true ↔ eq v w = true := by
        rw [eq_iff_same distinct distinct', eq_iff_same distinct' distinct]
        exact ⟨Same.symm, Same.symm⟩
      rw [isWhole.walk_eq, isWhole.walk_swap]
      by_cases equal : eq v w = true
      · rw [if_pos equal, if_pos (symmetric.mpr equal)]
        exact List.Perm.refl _
      · rw [if_neg equal, if_neg (mt symmetric.mp equal)]
        exact List.Perm.refl _

/-- A value tree: no mapping in it has a key twice. -/
abbrev Tree (ν : Type) [BEq ν] :=
  { v : Value ν // Distinct v }

/-- The comparison of two trees lists nothing exactly when they are the same; when their equal
keys have the same text, it lists the same changes the other way round in the other direction. -/
theorem diff_compares_trees (scalar : Value ν → String) (current desired : Tree ν) :
    (∀ path, walk scalar path current.1 desired.1 = [] ↔ Same current.1 desired.1) ∧
      (SpelledAlike scalar current.1 desired.1 → ∀ path,
        (walk scalar path desired.1 current.1).Perm
          ((walk scalar path current.1 desired.1).map Change.swap)) :=
  ⟨fun path => walk_eq_nil_iff current.2 desired.2 path,
    fun alike path => walk_swap current.2 desired.2 alike path⟩

end Swap

section Example

open Value

/-- The text of a scalar without special characters. -/
def plainText : Value Int → String
  | .null => "null"
  | .bool b => toString b
  | .number n => toString n
  | .string s => s
  | _ => "?"

/-- The text of a scalar, or of a mapping of scalars: one entry a line. -/
def blockText : Value Int → String
  | .mapping entries =>
      "\n".intercalate (entries.map fun e => plainText e.1 ++ ": " ++ plainText e.2)
  | v => plainText v

/-- Two trees with one entry each, whose keys are the same mapping in two orders. -/
def currentRules : Value Int :=
  .mapping [(.mapping [(.string "a", .string "x"), (.string "b", .string "y")], .string "block")]

def desiredRules : Value Int :=
  .mapping [(.mapping [(.string "b", .string "y"), (.string "a", .string "x")], .string "alert")]

theorem rules_distinct : Distinct currentRules ∧ Distinct desiredRules := by
  simp [currentRules, desiredRules, Distinct, DistinctEntries, Matching.Apart, SameKey, Same]

/-- The path of the change is spelled as the first tree spells it. -/
theorem swapped_path_differs :
    ∃ current desired : Tree Int,
      diff blockText current.1 desired.1 = [.changed "a: x\nb: y" "block" "alert"] ∧
      diff blockText desired.1 current.1 = [.changed "b: y\na: x" "alert" "block"] ∧
      ¬ (diff blockText desired.1 current.1).Perm
        ((diff blockText current.1 desired.1).map Change.swap) := by
  refine ⟨⟨currentRules, rules_distinct.1⟩,
    ⟨desiredRules, rules_distinct.2⟩, by decide, by decide, ?_⟩
  decide

/-- An added input and a changed address, by indices and string keys. -/
theorem diff_compares_inputs :
    let current : Value Int := .mapping [(.string "inputs", .sequence [.string "0.0.0.0:5514"])]
    let desired : Value Int := .mapping
      [(.string "inputs", .sequence [.string "0.0.0.0:6601", .string "file"])]
    (∀ path, walk blockText path current desired = [] ↔ Same current desired) ∧
      ∀ path, (walk blockText path desired current).Perm
        ((walk blockText path current desired).map Change.swap) := by
  intro current desired
  have distinct : Distinct current ∧ Distinct desired := by
    simp [current, desired, Distinct, DistinctEntries, DistinctItems, Matching.Apart]
  have faithful := diff_compares_trees blockText ⟨current, distinct.1⟩ ⟨desired, distinct.2⟩
  refine ⟨faithful.1, faithful.2 (spelledAlike_of_strings fun k member => ?_)⟩
  exact ⟨"inputs", List.mem_singleton.mp member⟩

end Example

end Config
end Sigil
