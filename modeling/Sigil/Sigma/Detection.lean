import Mathlib.Data.Set.Card
import Sigil.Library.Pointwise
import Sigil.Sigma.Engine

namespace Sigil
namespace Sigma

/-!
# What a detection says

A detection is a list of named blocks and a condition over their names.  The meaning of
each part is stated on the event directly, without predicates and without an order of
the blocks, for any way to read the texts that are compared.  A YAML mapping writes a
detection when its entries are those of the blocks and of the condition in any order;
compiling it gives a rule that matches exactly the events of which the detection holds when
the texts are read with the forms of their sigmas.
-/

open Sigil.Core Library

/-! ## Field tests -/

/-- The sense in which a candidate matches a value. -/
inductive Sense where
  | equals
  | contains
  | startsWith
  | endsWith
  deriving DecidableEq, Repr

/-- The candidate and the value are given as what is read of them. -/
def Sense.Holds {α : Type} : Sense → (candidate value : List α) → Prop
  | .equals, candidate, value => candidate = value
  | .contains, candidate, value => value <:+: candidate
  | .startsWith, candidate, value => value <+: candidate
  | .endsWith, candidate, value => value <:+ candidate

/-- The modifiers of a field key. -/
inductive Modifier where
  | contains
  | startsWith
  | endsWith
  | all
  | cased
  deriving DecidableEq, Repr

def Modifier.word : Modifier → String
  | .contains => "contains"
  | .startsWith => "startswith"
  | .endsWith => "endswith"
  | .all => "all"
  | .cased => "cased"

/-- The sense that a modifier asks for. -/
def Modifier.sense : Modifier → Option Sense
  | .contains => some .contains
  | .startsWith => some .startsWith
  | .endsWith => some .endsWith
  | .all => none
  | .cased => none

/-- A field with its modifiers and values. -/
structure FieldTest where
  field : String
  modifiers : List Modifier
  values : List String
  fieldPlain : '|' ∉ field.toList

namespace FieldTest

/-- The sense of the last modifier that asks for one. -/
def sense (test : FieldTest) : Sense :=
  (test.modifiers.filterMap Modifier.sense).getLast?.getD .equals

/-- The key as it is written. -/
def key (test : FieldTest) : String :=
  String.ofList (test.field.toList ++
    (test.modifiers.map Modifier.word).flatMap fun word => '|' :: word.toList)

/-- Some text that the field stands for matches. -/
def Hits {α : Type} (read : String → List α) (event : Event) (test : FieldTest)
    (value : String) : Prop :=
  ∃ candidate, StandsFor event test.field candidate ∧
    test.sense.Holds (read candidate) (read value)

/-- Some value matches, or with `all` every value. -/
def Holds {α : Type} (read : String → List α) (event : Event) (test : FieldTest) : Prop :=
  if .all ∈ test.modifiers then ∀ value, value ∈ test.values → test.Hits read event value
  else ∃ value, value ∈ test.values ∧ test.Hits read event value

end FieldTest

/-! ## Blocks -/

/-- A map of field tests, or a keyword. -/
inductive Item where
  | map (tests : List FieldTest)
  | keyword (word : String)

/-- Every field test of a map holds; a keyword occurs in the event text. -/
def Item.Holds {α : Type} (read : String → List α) (event : Event) : Item → Prop
  | .map tests => ∀ test, test ∈ tests → test.Holds read event
  | .keyword word => Sense.contains.Holds (read (eventText event)) (read word)

/-- One item, or a list of them. -/
inductive Block where
  | item (item : Item)
  | list (items : List Item)

/-- Some item of a list holds. -/
def Block.Holds {α : Type} (read : String → List α) (event : Event) : Block → Prop
  | .item one => one.Holds read event
  | .list items => ∃ one, one ∈ items ∧ one.Holds read event

/-! ## Conditions -/

/-- A target selects a name. -/
def Target.Selects : Target → String → Prop
  | .them, _ => True
  | .pattern p, name =>
      (∃ start, p.toList = start ++ ['*'] ∧ start <+: name.toList) ∨
        (p.toList.getLast? ≠ some '*' ∧ name = p)

/-- A condition holds for the names that are defined and the truth of each. -/
def Expr.Holds (names : Finset String) (truth : String → Prop) : Expr → Prop
  | .ref name => name ∈ names ∧ truth name
  | .not e => ¬ e.Holds names truth
  | .and a b => a.Holds names truth ∧ b.Holds names truth
  | .or a b => a.Holds names truth ∨ b.Holds names truth
  | .quant none target =>
      (∃ name, name ∈ names ∧ target.Selects name) ∧
        ∀ name, name ∈ names → target.Selects name → truth name
  | .quant (some k) target =>
      k ≤ Set.ncard {name | name ∈ names ∧ target.Selects name ∧ truth name}

/-! ## Detections -/

/-- Named blocks and a condition string. -/
structure Detection where
  blocks : List (String × Block)
  condition : String

def Detection.names (detection : Detection) : Finset String :=
  (detection.blocks.map Prod.fst).toFinset

/-- The block of a name holds of an event. -/
def Detection.Truth {α : Type} (read : String → List α) (event : Event) (detection : Detection)
    (name : String) : Prop :=
  ∃ block, (name, block) ∈ detection.blocks ∧ block.Holds read event

/-! ### Reading more or less of the texts -/

section Reading

variable {α β : Type} {read : String → List α} {other : String → List β} {event : Event}

/-- What holds of two texts holds of their images. -/
theorem Sense.Holds.map {sense : Sense} {candidate value : List α}
    (holds : sense.Holds candidate value) (f : α → β) :
    sense.Holds (candidate.map f) (value.map f) := by
  cases sense with
  | equals => exact congrArg (List.map f) holds
  | contains => exact List.IsInfix.map f holds
  | startsWith => exact List.IsPrefix.map f holds
  | endsWith => exact List.IsSuffix.map f holds

theorem Sense.holds_map_iff {f : α → β} (injective : Function.Injective f) {sense : Sense}
    {candidate value : List α} :
    sense.Holds (candidate.map f) (value.map f) ↔ sense.Holds candidate value := by
  refine ⟨fun holds => ?_, fun holds => holds.map f⟩
  cases sense with
  | equals => exact List.map_injective_iff.mpr injective holds
  | contains =>
      rcases List.infix_map_iff.mp holds with ⟨part, isPart, same⟩
      rwa [List.map_injective_iff.mpr injective same]
  | startsWith => exact (List.prefix_map_iff_of_injective injective).mp holds
  | endsWith => exact (List.suffix_map_iff_of_injective injective).mp holds

/-- A block that holds still holds when the texts match at least as often. -/
theorem Block.Holds.imp {block : Block} (holds : block.Holds read event)
    (implies : ∀ sense candidate value, Sense.Holds sense (read candidate) (read value) →
      Sense.Holds sense (other candidate) (other value)) : block.Holds other event := by
  have hits : ∀ (test : FieldTest) value, test.Hits read event value →
      test.Hits other event value := by
    rintro test value ⟨candidate, stands, matched⟩
    exact ⟨candidate, stands, implies _ _ _ matched⟩
  have tests : ∀ test : FieldTest, test.Holds read event → test.Holds other event := by
    intro test
    rw [FieldTest.Holds, FieldTest.Holds]
    split
    · exact fun all value member => hits test value (all value member)
    · rintro ⟨value, member, hit⟩
      exact ⟨value, member, hits test value hit⟩
  have items : ∀ item : Item, item.Holds read event → item.Holds other event := by
    intro item one
    cases item with
    | map all => exact fun test member => tests test (one test member)
    | keyword word => exact implies .contains (eventText event) word one
  cases block with
  | item one => exact items one holds
  | list all =>
      rcases holds with ⟨one, member, here⟩
      exact ⟨one, member, items one here⟩

end Reading

/-! ## How a detection is written -/

/-- A scalar without wildcards, and its text. -/
inductive Scalar : Yaml → String → Prop where
  | string {s : String} : '*' ∉ s.toList ∧ '?' ∉ s.toList → Scalar (.string s) s
  | number (n : YamlNumber) : Scalar (.number n) n.text
  | bool (b : Bool) : Scalar (.bool b) (if b then "true" else "false")

/-- One scalar or a list of scalars. -/
inductive WritesValues : Yaml → List String → Prop where
  | one {value : Yaml} {text : String} : Scalar value text → WritesValues value [text]
  | many {values : List Yaml} {texts : List String} : List.Forall₂ Scalar values texts →
      WritesValues (.sequence values) texts

def WritesTest (entry : Yaml × Yaml) (test : FieldTest) : Prop :=
  entry.1 = .string test.key ∧ WritesValues entry.2 test.values

inductive WritesItem : Yaml → Item → Prop where
  | map {entries : List (Yaml × Yaml)} {tests : List FieldTest} :
      List.Forall₂ WritesTest entries tests → WritesItem (.mapping entries) (.map tests)
  | keyword {value : Yaml} {word : String} : Scalar value word → WritesItem value (.keyword word)

inductive WritesBlock : Yaml → Block → Prop where
  | item {value : Yaml} {item : Item} : WritesItem value item → WritesBlock value (.item item)
  | list {values : List Yaml} {items : List Item} : List.Forall₂ WritesItem values items →
      WritesBlock (.sequence values) (.list items)

def WritesEntry (entry : Yaml × Yaml) (block : String × Block) : Prop :=
  entry.1 = .string block.1 ∧ WritesBlock entry.2 block.2

/-- The entries are those of the blocks and of the condition, in any order. -/
def YamlMapping.Writes (mapping : YamlMapping) (detection : Detection) : Prop :=
  ∃ entries, mapping.entries.Perm
      ((.string "condition", .string detection.condition) :: entries) ∧
    List.Forall₂ WritesEntry entries detection.blocks

variable {lib : Libraries}

/-! ## Field tests compile -/

def Sense.base : Sense → BaseMatch
  | .equals => .equals
  | .contains => .contains
  | .startsWith => .startsWith
  | .endsWith => .endsWith

/-- The predicate for a value in lower case. -/
def Sense.predicate (lib : Libraries) : Sense → String → StringPredicate lib
  | .equals, value => .equals value
  | .contains, value => .contains value
  | .startsWith, value => .startsWith value
  | .endsWith, value => .endsWith value

/-- What the modifiers of a field test compile to. -/
def FieldTest.mods (test : FieldTest) : Modifiers where
  base := test.sense.base
  all := test.modifiers.contains .all

/-- The last of a list, seen from its front. -/
theorem last_cons {α β : Type} (f : α → β) (x : α) (list : List α) (default : β) :
    ((x :: list).getLast?.map f).getD default = (list.getLast?.map f).getD (f x) := by
  rw [List.getLast?_cons]
  cases list.getLast? <;> rfl

theorem add_modifiers (field : String) (modifiers : List Modifier) (mods : Modifiers) :
    (modifiers.map Modifier.word).foldlM (Modifiers.add field) mods =
      .ok
        { base := ((modifiers.filterMap Modifier.sense).getLast?.map Sense.base).getD mods.base
          all := mods.all || modifiers.contains .all } := by
  induction modifiers generalizing mods with
  | nil =>
      rw [List.contains_nil, Bool.or_false]
      rfl
  | cons modifier modifiers inductionHypothesis =>
      rw [List.map_cons, List.foldlM_cons]
      cases modifier with
      | contains =>
          refine (inductionHypothesis _).trans ?_
          rw [List.filterMap_cons_some (by rfl), last_cons]
          rfl
      | startsWith =>
          refine (inductionHypothesis _).trans ?_
          rw [List.filterMap_cons_some (by rfl), last_cons]
          rfl
      | endsWith =>
          refine (inductionHypothesis _).trans ?_
          rw [List.filterMap_cons_some (by rfl), last_cons]
          rfl
      | all =>
          refine (inductionHypothesis _).trans ?_
          rw [List.filterMap_cons_none (by rfl), List.contains_cons]
          simp
      | cased =>
          refine (inductionHypothesis _).trans ?_
          rw [List.filterMap_cons_none (by rfl)]
          rfl

theorem parse_key (test : FieldTest) :
    Modifiers.parse test.key = .ok (test.field, test.mods) := by
  have plain : ∀ part, part ∈ test.field :: test.modifiers.map Modifier.word →
      '|' ∉ part.toList := by
    intro part member
    rcases List.mem_cons.mp member with rfl | isWord
    · exact test.fieldPlain
    · rcases List.mem_map.mp isWord with ⟨modifier, _, rfl⟩
      cases modifier <;> decide
  rw [Modifiers.parse, FieldTest.key, splitChar_joined plain]
  simp only [List.headD_cons, List.tail_cons, add_modifiers, Bool.false_or, FieldTest.mods,
    FieldTest.sense]
  cases (test.modifiers.filterMap Modifier.sense).getLast? <;> rfl

theorem build_sense (sense : Sense) (all : Bool) {value : String}
    (plain : '*' ∉ value.toList ∧ '?' ∉ value.toList) :
    StringPredicate.build (some value) { base := sense.base, all := all } =
      .ok (sense.predicate lib (lib.cases.toLowercase value)) := by
  have noWild : ¬ ('*' ∈ value.toList ∨ '?' ∈ value.toList) := fun either =>
    either.elim plain.1 plain.2
  cases sense <;> exact if_neg noWild

theorem matches_predicate (sense : Sense) (value candidate : String) :
    (sense.predicate lib (lib.cases.toLowercase value)).matches candidate = true ↔
      sense.Holds (lib.cases.forms candidate) (lib.cases.forms value) := by
  rw [CaseTables.forms_eq, CaseTables.forms_eq, Sense.holds_map_iff CaseTables.form_injective]
  cases sense <;>
    simp only [StringPredicate.matches, Sense.predicate, Sense.Holds, decide_eq_true_eq,
      String.toList_inj]

theorem Scalar.text_plain {value : Yaml} {text : String} (scalar : Scalar value text) :
    '*' ∉ text.toList ∧ '?' ∉ text.toList := by
  cases scalar with
  | string plain => exact plain
  | number n => exact n.noWildcard
  | bool b => cases b <;> decide

theorem Scalar.scalarStr_eq {value : Yaml} {text : String} (scalar : Scalar value text) :
    scalarStr lib value = some text := by
  cases scalar <;> rfl

theorem buildPreds_eq (lib : Libraries) (test : FieldTest) {value : Yaml}
    (writes : WritesValues value test.values) :
    buildPreds lib value test.mods =
      .ok (test.values.map fun text => test.sense.predicate lib (lib.cases.toLowercase text)) := by
  have build : ∀ {v : Yaml} {text : String}, Scalar v text →
      StringPredicate.build (scalarStr lib v) test.mods =
        .ok (test.sense.predicate lib (lib.cases.toLowercase text)) := by
    intro v text scalar
    rw [scalar.scalarStr_eq]
    exact build_sense test.sense _ scalar.text_plain
  revert writes
  generalize test.values = texts
  intro writes
  cases writes with
  | @one _ text scalar =>
      have built := build scalar
      cases scalar <;> exact congrArg (fun result => result >>= fun pred => pure [pred]) built
  | @many values _ scalars =>
      apply Pointwise.mapM_ok
      rw [List.forall₂_map_right_iff]
      exact scalars.imp fun v text scalar => build scalar

/-- What a field test compiles to. -/
def FieldTest.cond (lib : Libraries) (test : FieldTest) : FieldCond lib where
  field := test.field
  all := test.mods.all
  preds := test.values.map fun text => test.sense.predicate lib (lib.cases.toLowercase text)

theorem compileField_eq {entry : Yaml × Yaml} {test : FieldTest}
    (writes : WritesTest entry test) : compileField lib entry = .ok (test.cond lib) := by
  have built := buildPreds_eq lib test writes.2
  simp only [compileField, writes.1, Yaml.asStr, Option.elim_some, bind, Except.bind, parse_key,
    built, pure, Except.pure, FieldTest.cond]

/-- The predicate for a value hits as the value does. -/
theorem hit_iff (test : FieldTest) (event : Event) (value : String) :
    (resolveField event test.field).any
        (test.sense.predicate lib (lib.cases.toLowercase value)).matches = true ↔
      test.Hits lib.cases.forms event value := by
  rw [List.any_eq_true, FieldTest.Hits]
  simp only [matches_predicate, mem_resolveField]

/-- The predicate of a sense does not ask whether the field is missing. -/
theorem predHit_sense (sense : Sense) (value : String) (candidates : List String) :
    (match sense.predicate lib value with
      | .isNull => candidates.isEmpty
      | p => candidates.any p.matches) = candidates.any (sense.predicate lib value).matches := by
  cases sense <;> rfl

theorem cond_eval_iff (test : FieldTest) (event : Event) :
    (test.cond lib).eval event = true ↔ test.Holds lib.cases.forms event := by
  rw [FieldCond.eval, FieldTest.Holds]
  simp only [FieldTest.cond, FieldTest.mods, List.contains_iff_mem]
  split
  · rw [List.all_map, List.all_eq_true]
    refine forall₂_congr fun value _ => ?_
    exact (Bool.eq_iff_iff.mp (predHit_sense test.sense _ _)).trans (hit_iff test event value)
  · rw [List.any_map, List.any_eq_true]
    refine exists_congr fun value => and_congr_right fun _ => ?_
    exact (Bool.eq_iff_iff.mp (predHit_sense test.sense _ _)).trans (hit_iff test event value)

/-! ## Blocks compile -/

/-- A selection says the same as a block. -/
def Selection.Means (selection : Selection lib) (meaning : Event → Prop) : Prop :=
  ∀ event, selection.eval event (eventHaystack lib event) = true ↔ meaning event

theorem compileFieldMap_means {entries : List (Yaml × Yaml)} {tests : List FieldTest}
    (writes : List.Forall₂ WritesTest entries tests) :
    ∃ selection, compileFieldMap lib entries = .ok selection ∧
      selection.Means fun event => (Item.map tests).Holds lib.cases.forms event := by
  have compiled : entries.mapM (compileField lib) = .ok (tests.map (FieldTest.cond lib)) := by
    apply Pointwise.mapM_ok
    rw [List.forall₂_map_right_iff]
    exact writes.imp fun entry test written => compileField_eq written
  refine ⟨.fields (tests.map (FieldTest.cond lib)), ?_, fun event => ?_⟩
  · rw [compileFieldMap, compiled]
    rfl
  · rw [Selection.eval, List.all_map, List.all_eq_true]
    exact forall₂_congr fun test _ => cond_eval_iff test event

theorem keywordPred_eq (lib : Libraries) {value : Yaml} {word : String}
    (scalar : Scalar value word) :
    keywordPred lib value = .ok (.contains (lib.cases.toLowercase word)) := by
  rw [keywordPred, scalar.scalarStr_eq]
  rfl

/-- The event text is in lower case already when it is lowered for a keyword. -/
theorem matches_haystack (word : String) (event : Event) :
    (Sense.contains.predicate lib (lib.cases.toLowercase word)).matches
        (eventHaystack lib event) = true ↔ (Item.keyword word).Holds lib.cases.forms event := by
  rw [matches_predicate, eventHaystack, CaseTables.forms_eq (lib.cases.toLowercase _),
    CaseTables.toLowercase_toLowercase, ← CaseTables.forms_eq, Item.Holds]

theorem keyword_means (word : String) :
    (Selection.keywords [StringPredicate.contains (lib.cases.toLowercase word)] :
      Selection lib).Means fun event => (Item.keyword word).Holds lib.cases.forms event := by
  intro event
  rw [Selection.eval, List.any_cons, List.any_nil, Bool.or_false]
  exact matches_haystack word event

theorem compileItem_means (lib : Libraries) {value : Yaml} {item : Item}
    (writes : WritesItem value item) :
    ∃ selection, compileItem lib value = .ok selection ∧
      selection.Means fun event => item.Holds lib.cases.forms event := by
  cases writes with
  | map tests => exact compileFieldMap_means tests
  | @keyword _ word scalar =>
      refine ⟨_, ?_, keyword_means word⟩
      have compiled := keywordPred_eq lib scalar
      cases scalar <;>
        exact congrArg (fun result => result >>=
          fun pred => pure (Selection.keywords [pred])) compiled

theorem evalAny_eq (event : Event) (haystack : String) (items : List (Selection lib)) :
    Selection.evalAny event haystack items = items.any fun item => item.eval event haystack := by
  induction items with
  | nil => rfl
  | cons item items inductionHypothesis =>
      rw [Selection.evalAny, List.any_cons, inductionHypothesis]

/-- In a list without maps every item is a keyword. -/
theorem keywords_of_no_mapping (lib : Libraries) {values : List Yaml} {items : List Item}
    (writes : List.Forall₂ WritesItem values items)
    (noMapping : values.any Yaml.isMapping = false) :
    List.Forall₂ (fun value item => ∃ pred, keywordPred lib value = .ok pred ∧
      ∀ event, pred.matches (eventHaystack lib event) = true ↔ item.Holds lib.cases.forms event)
        values items := by
  induction writes with
  | nil => exact .nil
  | cons here _ inductionHypothesis =>
      rw [List.any_cons, Bool.or_eq_false_iff] at noMapping
      refine .cons ?_ (inductionHypothesis noMapping.2)
      cases here with
      | map => cases noMapping.1
      | @keyword _ word scalar =>
          exact ⟨_, keywordPred_eq lib scalar, fun event => matches_haystack word event⟩

theorem compileSelection_means (lib : Libraries) {value : Yaml} {block : Block}
    (writes : WritesBlock value block) :
    ∃ selection, compileSelection lib value = .ok selection ∧
      selection.Means fun event => block.Holds lib.cases.forms event := by
  cases writes with
  | item written =>
      rcases compileItem_means lib written with ⟨selection, compiled, isMeaning⟩
      refine ⟨selection, ?_, isMeaning⟩
      cases written with
      | map => exact compiled
      | keyword scalar => cases scalar <;> exact compiled
  | @list values items written =>
      rw [compileSelection]
      cases mappings : values.any Yaml.isMapping with
      | true =>
          have each := written.imp fun value item written => compileItem_means lib written
          rcases Pointwise.exists_mapM each with ⟨selections, compiled, areMeanings⟩
          refine ⟨.anyOf selections, ?_, fun event => ?_⟩
          · rw [if_pos rfl, compiled]
            rfl
          · rw [Selection.eval, evalAny_eq]
            exact Pointwise.any_iff (areMeanings.imp fun _ _ isMeaning => isMeaning event)
      | false =>
          rcases Pointwise.exists_mapM (keywords_of_no_mapping lib written mappings) with
            ⟨preds, compiled, areMeanings⟩
          refine ⟨.keywords preds, ?_, fun event => ?_⟩
          · rw [if_neg Bool.false_ne_true, compiled]
            rfl
          · rw [Selection.eval]
            exact Pointwise.any_iff (areMeanings.imp fun _ _ isMeaning => isMeaning event)

end Sigma
end Sigil
