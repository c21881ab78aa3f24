import Mathlib.Data.List.Forall2
import Mathlib.Data.List.Perm.Basic
import Sigil.Library.Matching

namespace Sigil
namespace Config

/-!
# Configuration values

The value trees of a configuration file.  A mapping has no two entries with the same key, and
two mappings are equal when they have the same entries, in whatever order.
-/

open Library

/-- A value.  What is known of numbers is when two of them are equal. -/
inductive Value (ν : Type) where
  | null
  | bool (b : Bool)
  | number (n : ν)
  | string (s : String)
  | sequence (items : List (Value ν))
  | mapping (entries : List (Value ν × Value ν))
  | tagged (tag : String) (value : Value ν)
  deriving Repr

namespace Value

variable {ν : Type}

section Equality

variable [BEq ν]

mutual

/-- The values are equal: mappings when they have as many entries and every entry of the first
is in the second. -/
def eq : Value ν → Value ν → Bool
  | .null, .null => true
  | .bool a, .bool b => a == b
  | .number a, .number b => a == b
  | .string a, .string b => a == b
  | .sequence a, .sequence b => eqItems a b
  | .mapping a, .mapping b => a.length == b.length && eqEntries a b
  | .tagged s a, .tagged t b => s == t && eq a b
  | _, _ => false
termination_by structural v => v

def eqItems : List (Value ν) → List (Value ν) → Bool
  | [], [] => true
  | a :: as, b :: bs => eq a b && eqItems as bs
  | _, _ => false
termination_by structural v => v

def eqEntries : List (Value ν × Value ν) → List (Value ν × Value ν) → Bool
  | [], _ => true
  | (k, v) :: rest, entries =>
      (match entries.find? fun e => eq k e.1 with
        | some e => eq v e.2
        | none => false) && eqEntries rest entries
termination_by structural v => v

end

/-- The entry of a mapping with a key. -/
def entry (entries : List (Value ν × Value ν)) (k : Value ν) : Option (Value ν × Value ν) :=
  entries.find? fun e => eq k e.1

/-- The value of a key. -/
def get (entries : List (Value ν × Value ν)) (k : Value ν) : Option (Value ν) :=
  (entry entries k).map Prod.snd

end Equality

/-! ## Induction -/

/-- What holds of a value if it holds of its parts holds of every value. -/
theorem byParts {P : Value ν → Prop} (null : P .null) (bool : ∀ b, P (.bool b))
    (number : ∀ n, P (.number n)) (string : ∀ s, P (.string s))
    (sequence : ∀ items, (∀ v, v ∈ items → P v) → P (.sequence items))
    (mapping : ∀ entries, (∀ e, e ∈ entries → P e.1 ∧ P e.2) → P (.mapping entries))
    (tagged : ∀ tag v, P v → P (.tagged tag v)) (v : Value ν) : P v :=
  match v with
  | .null => null
  | .bool b => bool b
  | .number n => number n
  | .string s => string s
  | .sequence items => sequence items fun v _ =>
      byParts null bool number string sequence mapping tagged v
  | .mapping entries => mapping entries fun e member =>
      have _smaller : sizeOf e < sizeOf entries := List.sizeOf_lt_of_mem member
      have _parts : sizeOf e = 1 + sizeOf e.1 + sizeOf e.2 := rfl
      ⟨byParts null bool number string sequence mapping tagged e.1,
        byParts null bool number string sequence mapping tagged e.2⟩
  | .tagged tag v => tagged tag v (byParts null bool number string sequence mapping tagged v)

/-! ## Equality up to the order of keys -/

section Same

variable [BEq ν]

mutual

/-- The trees are the same up to the order of the entries of their mappings. -/
def Same : Value ν → Value ν → Prop
  | .null, .null => True
  | .bool a, .bool b => a = b
  | .number a, .number b => a == b
  | .string a, .string b => a = b
  | .sequence a, .sequence b => SameItems a b
  | .mapping a, .mapping b => EachIn a b ∧ ∀ f, f ∈ b → SomeIs a f
  | .tagged s a, .tagged t b => s = t ∧ Same a b
  | _, _ => False
termination_by structural v => v

def SameItems : List (Value ν) → List (Value ν) → Prop
  | [], [] => True
  | a :: as, b :: bs => Same a b ∧ SameItems as bs
  | _, _ => False
termination_by structural v => v

/-- Each of the first entries is one of the second. -/
def EachIn : List (Value ν × Value ν) → List (Value ν × Value ν) → Prop
  | [], _ => True
  | (k, v) :: rest, entries =>
      (∃ f, f ∈ entries ∧ Same k f.1 ∧ Same v f.2) ∧ EachIn rest entries
termination_by structural v => v

/-- One of the entries is the given one. -/
def SomeIs : List (Value ν × Value ν) → Value ν × Value ν → Prop
  | [], _ => False
  | (k, v) :: rest, f => (Same k f.1 ∧ Same v f.2) ∨ SomeIs rest f
termination_by structural v => v

end

theorem sameItems_iff {a b : List (Value ν)} : SameItems a b ↔ List.Forall₂ Same a b := by
  induction a generalizing b with
  | nil =>
      cases b with
      | nil => exact ⟨fun _ => List.Forall₂.nil, fun _ => trivial⟩
      | cons y b => exact ⟨False.elim, fun related => by cases related⟩
  | cons x a inductionHypothesis =>
      cases b with
      | nil => exact ⟨False.elim, fun related => by cases related⟩
      | cons y b =>
          change Same x y ∧ SameItems a b ↔ _
          rw [inductionHypothesis, List.forall₂_cons]

theorem eachIn_iff {a b : List (Value ν × Value ν)} :
    EachIn a b ↔ ∀ e, e ∈ a → ∃ f, f ∈ b ∧ Same e.1 f.1 ∧ Same e.2 f.2 := by
  induction a with
  | nil => exact ⟨fun _ _ member => absurd member List.not_mem_nil, fun _ => trivial⟩
  | cons e a inductionHypothesis =>
      rw [List.forall_mem_cons, ← inductionHypothesis]
      rfl

theorem someIs_iff {a : List (Value ν × Value ν)} {f : Value ν × Value ν} :
    SomeIs a f ↔ ∃ e, e ∈ a ∧ Same e.1 f.1 ∧ Same e.2 f.2 := by
  induction a with
  | nil =>
      constructor
      · exact False.elim
      · rintro ⟨e, member, -⟩
        exact List.not_mem_nil member
  | cons e a inductionHypothesis =>
      change (Same e.1 f.1 ∧ Same e.2 f.2) ∨ SomeIs a f ↔ _
      rw [inductionHypothesis, List.exists_mem_cons_iff]

theorem same_sequence {a b : List (Value ν)} :
    Same (.sequence a) (.sequence b) ↔ List.Forall₂ Same a b :=
  sameItems_iff

theorem same_mapping {a b : List (Value ν × Value ν)} :
    Same (.mapping a) (.mapping b) ↔
      (∀ e, e ∈ a → ∃ f, f ∈ b ∧ Same e.1 f.1 ∧ Same e.2 f.2) ∧
      ∀ f, f ∈ b → ∃ e, e ∈ a ∧ Same e.1 f.1 ∧ Same e.2 f.2 := by
  change EachIn a b ∧ (∀ f, f ∈ b → SomeIs a f) ↔ _
  rw [eachIn_iff]
  exact and_congr_right fun _ => forall_congr' fun _ => forall_congr' fun _ => someIs_iff

variable [EquivBEq ν]

theorem Same.refl (v : Value ν) : Same v v := by
  induction v using byParts with
  | null => trivial
  | bool b => rfl
  | number n => exact BEq.rfl
  | string s => rfl
  | sequence items inductionHypothesis =>
      exact same_sequence.mpr (List.forall₂_same.mpr inductionHypothesis)
  | mapping entries inductionHypothesis =>
      exact same_mapping.mpr ⟨fun e member => ⟨e, member, inductionHypothesis e member⟩,
        fun e member => ⟨e, member, inductionHypothesis e member⟩⟩
  | tagged tag v inductionHypothesis => exact ⟨rfl, inductionHypothesis⟩

theorem Same.symm {v w : Value ν} (same : Same v w) : Same w v := by
  induction v using byParts generalizing w with
  | null => cases w <;> first | exact same.elim | trivial
  | bool b => cases w <;> first | exact same.elim | exact Eq.symm same
  | number n => cases w <;> first | exact same.elim | exact BEq.symm same
  | string s => cases w <;> first | exact same.elim | exact Eq.symm same
  | sequence items inductionHypothesis =>
      cases w with
      | sequence others =>
          have related := same_sequence.mp same
          apply same_sequence.mpr
          clear same
          induction related with
          | nil => exact List.Forall₂.nil
          | cons first rest inner =>
              rw [List.forall_mem_cons] at inductionHypothesis
              exact List.Forall₂.cons (inductionHypothesis.1 first) (inner inductionHypothesis.2)
      | _ => exact same.elim
  | mapping entries inductionHypothesis =>
      cases w with
      | mapping others =>
          have both := same_mapping.mp same
          apply same_mapping.mpr
          constructor
          · intro f member
            rcases both.2 f member with ⟨e, memberOf, keys, values⟩
            exact ⟨e, memberOf, (inductionHypothesis e memberOf).1 keys,
              (inductionHypothesis e memberOf).2 values⟩
          · intro e member
            rcases both.1 e member with ⟨f, memberOf, keys, values⟩
            exact ⟨f, memberOf, (inductionHypothesis e member).1 keys,
              (inductionHypothesis e member).2 values⟩
      | _ => exact same.elim
  | tagged tag v inductionHypothesis =>
      cases w with
      | tagged tag' w => exact ⟨same.1.symm, inductionHypothesis same.2⟩
      | _ => exact same.elim

theorem Same.trans {u v w : Value ν} (first : Same u v) (second : Same v w) : Same u w := by
  induction u using byParts generalizing v w with
  | null => cases v <;> first | exact first.elim | exact second
  | bool b =>
      cases v with
      | bool b' =>
          cases (show b = b' from first)
          exact second
      | _ => exact first.elim
  | number n =>
      cases v with
      | number n' => cases w <;> first | exact second.elim | exact BEq.trans first second
      | _ => exact first.elim
  | string s =>
      cases v with
      | string s' =>
          cases (show s = s' from first)
          exact second
      | _ => exact first.elim
  | sequence items inductionHypothesis =>
      cases v with
      | sequence middle =>
          cases w with
          | sequence others =>
              have related := same_sequence.mp first
              have related' := same_sequence.mp second
              apply same_sequence.mpr
              clear first second
              induction related generalizing others with
              | nil => exact related'
              | cons first rest inner =>
                  rw [List.forall_mem_cons] at inductionHypothesis
                  cases related' with
                  | cons second rest' =>
                      exact List.Forall₂.cons (inductionHypothesis.1 first second)
                        (inner inductionHypothesis.2 _ rest')
          | _ => exact second.elim
      | _ => exact first.elim
  | mapping entries inductionHypothesis =>
      cases v with
      | mapping middle =>
          cases w with
          | mapping others =>
              have both := same_mapping.mp first
              have both' := same_mapping.mp second
              apply same_mapping.mpr
              constructor
              · intro e member
                rcases both.1 e member with ⟨f, memberOf, keys, values⟩
                rcases both'.1 f memberOf with ⟨g, isOther, keys', values'⟩
                exact ⟨g, isOther, (inductionHypothesis e member).1 keys keys',
                  (inductionHypothesis e member).2 values values'⟩
              · intro g member
                rcases both'.2 g member with ⟨f, memberOf, keys', values'⟩
                rcases both.2 f memberOf with ⟨e, isEntry, keys, values⟩
                exact ⟨e, isEntry, (inductionHypothesis e isEntry).1 keys keys',
                  (inductionHypothesis e isEntry).2 values values'⟩
          | _ => exact second.elim
      | _ => exact first.elim
  | tagged tag u inductionHypothesis =>
      cases v with
      | tagged tag' v =>
          cases w with
          | tagged tag'' w =>
              exact ⟨first.1.trans second.1, inductionHypothesis first.2 second.2⟩
          | _ => exact second.elim
      | _ => exact first.elim

theorem same_equivalence : Equivalence (Same (ν := ν)) :=
  ⟨Same.refl, Same.symm, Same.trans⟩

end Same

/-! ## Trees -/

section Distinct

variable [BEq ν]

/-- Two entries have the same key. -/
def SameKey (e f : Value ν × Value ν) : Prop :=
  Same e.1 f.1

mutual

/-- No mapping in the value has a key twice. -/
def Distinct : Value ν → Prop
  | .sequence items => DistinctItems items
  | .mapping entries => Matching.Apart SameKey entries ∧ DistinctEntries entries
  | .tagged _ v => Distinct v
  | _ => True
termination_by structural v => v

def DistinctItems : List (Value ν) → Prop
  | [] => True
  | v :: rest => Distinct v ∧ DistinctItems rest
termination_by structural v => v

def DistinctEntries : List (Value ν × Value ν) → Prop
  | [] => True
  | (k, v) :: rest => (Distinct k ∧ Distinct v) ∧ DistinctEntries rest
termination_by structural v => v

end

theorem distinct_sequence {items : List (Value ν)} :
    Distinct (.sequence items) ↔ ∀ v, v ∈ items → Distinct v := by
  change DistinctItems items ↔ _
  induction items with
  | nil => exact ⟨fun _ _ member => absurd member List.not_mem_nil, fun _ => trivial⟩
  | cons v items inductionHypothesis =>
      rw [List.forall_mem_cons, ← inductionHypothesis]
      rfl

theorem distinct_mapping {entries : List (Value ν × Value ν)} :
    Distinct (.mapping entries) ↔ Matching.Apart SameKey entries ∧
      ∀ e, e ∈ entries → Distinct e.1 ∧ Distinct e.2 := by
  change Matching.Apart SameKey entries ∧ DistinctEntries entries ↔ _
  apply and_congr_right'
  induction entries with
  | nil => exact ⟨fun _ _ member => absurd member List.not_mem_nil, fun _ => trivial⟩
  | cons e entries inductionHypothesis =>
      rw [List.forall_mem_cons, ← inductionHypothesis]
      rfl

theorem eqItems_iff {a b : List (Value ν)}
    (decides : ∀ v, v ∈ a → ∀ w, w ∈ b → (eq v w = true ↔ Same v w)) :
    eqItems a b = true ↔ List.Forall₂ Same a b := by
  induction a generalizing b with
  | nil =>
      cases b with
      | nil => exact ⟨fun _ => List.Forall₂.nil, fun _ => rfl⟩
      | cons w b => exact iff_of_false Bool.false_ne_true (by rintro ⟨⟩)
  | cons v a inductionHypothesis =>
      cases b with
      | nil => exact iff_of_false Bool.false_ne_true (by rintro ⟨⟩)
      | cons w b =>
          have rest := inductionHypothesis fun v hv w hw =>
            decides v (List.mem_cons_of_mem _ hv) w (List.mem_cons_of_mem _ hw)
          change (eq v w && eqItems a b) = true ↔ _
          rw [Bool.and_eq_true, rest, decides v List.mem_cons_self w List.mem_cons_self,
            List.forall₂_cons]

theorem eqEntries_iff {a b : List (Value ν × Value ν)} :
    eqEntries a b = true ↔
      ∀ e, e ∈ a → ∃ f, entry b e.1 = some f ∧ eq e.2 f.2 = true := by
  induction a with
  | nil => exact ⟨fun _ _ member => absurd member List.not_mem_nil, fun _ => rfl⟩
  | cons e a inductionHypothesis =>
      rw [List.forall_mem_cons, ← inductionHypothesis]
      change ((match entry b e.1 with
        | some f => eq e.2 f.2
        | none => false) && eqEntries a b) = true ↔ _
      rw [Bool.and_eq_true]
      apply and_congr_left'
      cases entry b e.1 with
      | none =>
          apply iff_of_false Bool.false_ne_true
          rintro ⟨f, found, -⟩
          cases found
      | some f =>
          constructor
          · exact fun equal => ⟨f, rfl, equal⟩
          · rintro ⟨f', same, equal⟩
            cases same
            exact equal

variable [EquivBEq ν]

theorem sameKey_equivalence : Equivalence (SameKey (ν := ν)) :=
  same_equivalence.comap Prod.fst

/-- The entries of two mappings are matched by their keys. -/
theorem matches_of_decides {a b : List (Value ν × Value ν)}
    (decides : ∀ e, e ∈ a → ∀ f, f ∈ b → (eq e.1 f.1 = true ↔ Same e.1 f.1))
    (apart : Matching.Apart SameKey a) (apart' : Matching.Apart SameKey b) :
    Matching.Matches SameKey (fun e f => eq e.1 f.1) a b ∧
      Matching.Matches SameKey (fun f e => eq e.1 f.1) b a :=
  ⟨⟨sameKey_equivalence, decides, apart, apart'⟩,
    ⟨sameKey_equivalence, fun f hf e he => (decides e he f hf).trans ⟨Same.symm, Same.symm⟩,
      apart', apart⟩⟩

/-- Mappings are compared rightly when their keys and their values are. -/
theorem eqMapping_iff {entries others : List (Value ν × Value ν)}
    (decides : ∀ e, e ∈ entries → ∀ f, f ∈ others →
      (eq e.1 f.1 = true ↔ Same e.1 f.1))
    (values : ∀ e, e ∈ entries → ∀ f, f ∈ others → (eq e.2 f.2 = true ↔ Same e.2 f.2))
    (apart : Matching.Apart SameKey entries) (apart' : Matching.Apart SameKey others) :
    (entries.length == others.length && eqEntries entries others) = true ↔
      Same (.mapping entries) (.mapping others) := by
  have matching := matches_of_decides decides apart apart'
  rw [Bool.and_eq_true, beq_iff_eq, eqEntries_iff, same_mapping]
  constructor
  · rintro ⟨lengths, each⟩
    have partnered : Matching.alone (fun e f => eq e.1 f.1) entries others = [] :=
      Matching.alone_eq_nil_iff_forall.mpr fun e he =>
        (each e he).imp fun f both => both.1
    have back := Matching.alone_eq_nil_iff_forall.mp
      ((matching.1.alone_eq_nil_iff matching.2 partnered).mpr lengths)
    constructor
    · intro e he
      rcases each e he with ⟨f, isPartner, equal⟩
      have found := (matching.1.partner_eq_some_iff he).mp isPartner
      exact ⟨f, found.1, found.2, (values e he f found.1).mp equal⟩
    · intro f hf
      rcases back f hf with ⟨e, isPartner⟩
      have found := (matching.2.partner_eq_some_iff hf).mp isPartner
      rcases each e found.1 with ⟨f', isPartner', equal⟩
      have same : entry others e.1 = some f :=
        (matching.1.partner_eq_some_iff found.1).mpr ⟨hf, Same.symm found.2⟩
      cases Option.some.inj (isPartner'.symm.trans same)
      exact ⟨e, found.1, Same.symm found.2, (values e found.1 f hf).mp equal⟩
  · rintro ⟨forth, back⟩
    have partner : ∀ e, e ∈ entries → ∃ f, entry others e.1 = some f ∧
        eq e.2 f.2 = true := by
      intro e he
      rcases forth e he with ⟨f, hf, keys, same⟩
      exact ⟨f, (matching.1.partner_eq_some_iff he).mpr ⟨hf, keys⟩,
        (values e he f hf).mpr same⟩
    refine ⟨?_, partner⟩
    apply (matching.1.alone_eq_nil_iff matching.2 _).mp
    · apply Matching.alone_eq_nil_iff_forall.mpr
      intro f hf
      rcases back f hf with ⟨e, he, keys, -⟩
      exact ⟨e, (matching.2.partner_eq_some_iff hf).mpr ⟨he, Same.symm keys⟩⟩
    · apply Matching.alone_eq_nil_iff_forall.mpr
      exact fun e he => (partner e he).imp fun f both => both.1

/-- On trees without duplicate keys the comparison decides whether they are the same. -/
theorem eq_iff_same {v w : Value ν} (distinct : Distinct v) (distinct' : Distinct w) :
    eq v w = true ↔ Same v w := by
  induction v using byParts generalizing w with
  | null =>
      cases w with
      | null => exact iff_of_true rfl trivial
      | _ => exact iff_of_false Bool.false_ne_true not_false
  | bool b =>
      cases w with
      | bool b' => exact beq_iff_eq
      | _ => exact iff_of_false Bool.false_ne_true not_false
  | number n =>
      cases w with
      | number n' => exact Iff.rfl
      | _ => exact iff_of_false Bool.false_ne_true not_false
  | string s =>
      cases w with
      | string s' => exact beq_iff_eq
      | _ => exact iff_of_false Bool.false_ne_true not_false
  | sequence items inductionHypothesis =>
      cases w with
      | sequence others =>
          rw [same_sequence, ← eqItems_iff]
          · rfl
          · intro v hv w hw
            exact inductionHypothesis v hv (distinct_sequence.mp distinct v hv)
              (distinct_sequence.mp distinct' w hw)
      | _ => exact iff_of_false Bool.false_ne_true not_false
  | mapping entries inductionHypothesis =>
      cases w with
      | mapping others =>
          rw [distinct_mapping] at distinct distinct'
          have decides : ∀ e, e ∈ entries → ∀ f, f ∈ others →
              (eq e.1 f.1 = true ↔ Same e.1 f.1) := fun e he f hf =>
            (inductionHypothesis e he).1 (distinct.2 e he).1 (distinct'.2 f hf).1
          have values : ∀ e, e ∈ entries → ∀ f, f ∈ others →
              (eq e.2 f.2 = true ↔ Same e.2 f.2) := fun e he f hf =>
            (inductionHypothesis e he).2 (distinct.2 e he).2 (distinct'.2 f hf).2
          exact eqMapping_iff decides values distinct.1 distinct'.1
      | _ => exact iff_of_false Bool.false_ne_true not_false
  | tagged tag v inductionHypothesis =>
      cases w with
      | tagged tag' w =>
          have inner : eq v w = true ↔ Same v w := inductionHypothesis distinct distinct'
          change (tag == tag' && eq v w) = true ↔ tag = tag' ∧ Same v w
          rw [Bool.and_eq_true, beq_iff_eq, inner]
      | _ => exact iff_of_false Bool.false_ne_true not_false

end Distinct

end Value
end Config
end Sigil
