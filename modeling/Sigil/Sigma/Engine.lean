import Mathlib.Data.List.AList
import Sigil.Library.Pointwise
import Sigil.Sigma.Grammar
import Sigil.Sigma.Matcher

namespace Sigil
namespace Sigma

/-!
# Compiling rules and running them over events

The detection of a rule becomes a set of compiled selections and a condition.  A rule
matches an event when its condition holds for the results of the selections.
-/

open Sigil.Core Library

section Compilation

variable (lib : Libraries)

/-- Render a YAML scalar as a string; nothing for null. -/
def scalarStr : Yaml → Option String
  | .null => none
  | .string s => some s
  | .bool b => some (if b then "true" else "false")
  | .number n => some n.text
  | other => (lib.yamlText other).map trim

def keywordPred (value : Yaml) : Except RuleError (StringPredicate lib) :=
  .ok (.contains (lib.cases.toLowercase ((scalarStr lib value).getD "")))

def buildPreds (value : Yaml) (mods : Modifiers) :
    Except RuleError (List (StringPredicate lib)) :=
  match value with
  | .sequence seq => seq.mapM fun v => StringPredicate.build (scalarStr lib v) mods
  | .null => .ok [.isNull]
  | other => do
      let pred ← StringPredicate.build (scalarStr lib other) mods
      return [pred]

/-- The condition on one field. -/
def compileField (entry : Yaml × Yaml) : Except RuleError (FieldCond lib) := do
  let key ← entry.1.asStr.elim (.error .fieldKey) .ok
  let (field, mods) ← Modifiers.parse key
  let preds ← buildPreds lib entry.2 mods
  return { field := field, all := mods.all, preds := preds }

def compileFieldMap (map : List (Yaml × Yaml)) : Except RuleError (Selection lib) := do
  let conds ← map.mapM (compileField lib)
  return .fields conds

/-- An item of a list of maps and keywords. -/
def compileItem : Yaml → Except RuleError (Selection lib)
  | .mapping m => compileFieldMap lib m
  | other => do
      let pred ← keywordPred lib other
      return .keywords [pred]

def compileSelection (value : Yaml) : Except RuleError (Selection lib) :=
  match value with
  | .mapping map => compileFieldMap lib map
  | .sequence seq =>
      if seq.any Yaml.isMapping then do
        let items ← seq.mapM (compileItem lib)
        return .anyOf items
      else do
        let preds ← seq.mapM (keywordPred lib)
        return .keywords preds
  | other => do
      let pred ← keywordPred lib other
      return .keywords [pred]

/-- The condition string; a list of conditions means any of them. -/
def conditionToString : Yaml → Except RuleError String
  | .string s => .ok s
  | .sequence seq =>
      let parts := seq.filterMap fun x => x.asStr.map fun s => "(" ++ s ++ ")"
      if parts.isEmpty then .error .emptyConditionList else .ok (" or ".intercalate parts)
  | _ => .error .conditionShape

end Compilation

/-- The severity of a level; medium where the level is missing or unknown. -/
def levelToSeverity (level : Option String) : Severity :=
  match level.map toAsciiLowercase with
  | some "informational" => .informational
  | some "low" => .low
  | some "medium" => .medium
  | some "high" => .high
  | some "critical" => .critical
  | _ => .medium

/-- The technique that a tag names. -/
def techniqueOfTag (tables : CaseTables) (tag : String) : Option String :=
  let start := "attack.t".toList
  let lower := (toAsciiLowercase tag).toList
  let rest := lower.drop start.length
  if start.isPrefixOf lower ∧ rest.head?.any Char.isDigit then
    some ("T" ++ tables.toUppercase (String.ofList rest))
  else none

/-- The first technique among the tags. -/
def techniqueFromTags (tables : CaseTables) (tags : List String) : Option String :=
  tags.findSome? (techniqueOfTag tables)

/-- A compiled rule. -/
structure CompiledRule (lib : Libraries) where
  ruleId : String
  title : String
  severity : Severity
  technique : Option String
  tags : List String
  selections : AList fun _ : String => Selection lib
  names : List String
  condition : Expr

namespace CompiledRule

variable {lib : Libraries}

/-- One entry of the detection. -/
def addEntry (lib : Libraries)
    (found : (AList fun _ : String => Selection lib) × Option String) (entry : Yaml × Yaml) :
    Except RuleError ((AList fun _ : String => Selection lib) × Option String) := do
  let key ← entry.1.asStr.elim (.error .detectionKey) .ok
  if key = "condition" then
    let text ← conditionToString entry.2
    return (found.1, some text)
  else
    let selection ← compileSelection lib entry.2
    return (found.1.insert key selection, found.2)

section

variable {entry : Yaml × Yaml} {name : String}

theorem addEntry_condition (isKey : entry.1.asStr = some "condition")
    (found : (AList fun _ : String => Selection lib) × Option String) :
    addEntry lib found entry =
      (conditionToString entry.2).map fun text => (found.1, some text) := by
  simp only [addEntry, isKey, Option.elim_some, bind, Except.bind, if_true]
  cases conditionToString entry.2 <;> simp [Except.map, pure, Except.pure]

theorem addEntry_selection (isKey : entry.1.asStr = some name) (other : name ≠ "condition")
    (found : (AList fun _ : String => Selection lib) × Option String) :
    addEntry lib found entry =
      (compileSelection lib entry.2).map fun selection =>
        (found.1.insert name selection, found.2) := by
  simp only [addEntry, isKey, Option.elim_some, bind, Except.bind, if_neg other]
  cases compileSelection lib entry.2 <;> simp [Except.map, pure, Except.pure]

theorem addEntry_key {found after : (AList fun _ : String => Selection lib) × Option String}
    (added : addEntry lib found entry = .ok after) : ∃ name, entry.1.asStr = some name := by
  cases named : entry.1.asStr with
  | none => simp [addEntry, named, bind, Except.bind] at added
  | some name => exact ⟨name, rfl⟩

end

/-- Compile a parsed rule. -/
def fromRule (lib : Libraries) (rule : SigmaRule) : Except RuleError (CompiledRule lib) := do
  let (selections, conditionStr) ← rule.detection.entries.foldlM (addEntry lib) (∅, none)
  let conditionStr ← conditionStr.elim (.error (.noCondition rule.title)) .ok
  let condition ← (parseCondition conditionStr).mapError .condition
  return {
    ruleId := rule.id.getD rule.title
    title := rule.title
    severity := levelToSeverity rule.level
    technique := techniqueFromTags lib.cases rule.tags
    tags := rule.tags
    selections := selections
    names := selections.keys
    condition := condition }

/-- A rule compiles when its entries do and the condition among them can be read. -/
theorem fromRule_eq_ok_iff {rule : SigmaRule} {compiled : CompiledRule lib} :
    fromRule lib rule = .ok compiled ↔ ∃ selections text condition,
      rule.detection.entries.foldlM (addEntry lib) (∅, none) = .ok (selections, some text) ∧
      parseCondition text = .ok condition ∧
      compiled =
        { ruleId := rule.id.getD rule.title
          title := rule.title
          severity := levelToSeverity rule.level
          technique := techniqueFromTags lib.cases rule.tags
          tags := rule.tags
          selections := selections
          names := selections.keys
          condition := condition } := by
  constructor
  · intro succeeds
    rcases Pointwise.of_bind_ok succeeds with ⟨⟨selections, found⟩, folded, named⟩
    rcases Pointwise.of_bind_ok named with ⟨text, isText, parsed⟩
    rcases Pointwise.of_bind_ok parsed with ⟨condition, isCondition, whole⟩
    cases found with
    | none => cases isText
    | some _ =>
        cases Except.ok.inj isText
        cases read : parseCondition text with
        | error failure =>
            rw [read] at isCondition
            cases isCondition
        | ok _ =>
            rw [read] at isCondition
            cases Except.ok.inj isCondition
            exact ⟨selections, text, condition, folded, read, (Except.ok.inj whole).symm⟩
  · intro parts
    rcases parts with ⟨selections, text, condition, folded, parsed, rfl⟩
    simp only [fromRule, folded, bind, Except.bind, Option.elim_some, parsed, Except.mapError, pure,
      Except.pure]

/-- Does the rule match the event? -/
def «matches» (rule : CompiledRule lib) (event : Event) : Bool :=
  let haystack := eventHaystack lib event
  let results := fun name => (rule.selections.lookup name).map (Selection.eval event haystack)
  Sigma.eval results rule.names rule.condition

/-- The alert for a matching event. -/
def toAlert (rule : CompiledRule lib) (event : Event) (clock : Int) : Alert where
  ruleId := rule.ruleId
  title := rule.title
  severity := rule.severity
  technique := rule.technique
  events := [event.id]
  ts := if event.ts ≠ 0 then event.ts else clock

end CompiledRule

end Sigma
end Sigil
