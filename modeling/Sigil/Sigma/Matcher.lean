import Mathlib.Data.List.Infix
import Sigil.Sigma.Condition
import Sigil.Sigma.Fields
import Sigil.Sigma.Rule

namespace Sigil
namespace Sigma

/-!
# Selection matching

Field conditions and keywords become predicates over a normalized event.  Regular
expressions, the printer of nested YAML values and the Unicode tables are parameters.
-/

open Sigil.Core

/-- What the matcher uses of other libraries. -/
structure Libraries where
  cases : CaseTables
  Regex : Type
  newRegex : String → Except String Regex
  escapeRegex : String → String
  isMatch : Regex → String → Bool
  yamlText : Yaml → Option String

/-- The errors of the compilation, with the data that their texts print. -/
inductive RuleError where
  | detectionKey
  | fieldKey
  | unsupportedModifier (modifier field : String)
  | badRegex (value reason : String)
  | badWildcard (pattern reason : String)
  | noCondition (title : String)
  | emptyConditionList
  | conditionShape
  | condition (failure : ConditionError)
  deriving DecidableEq, Repr

inductive BaseMatch where
  | equals
  | contains
  | startsWith
  | endsWith
  | regex
  deriving DecidableEq, Repr

/-- Parsed field modifiers; with `all` every value in a list must match. -/
structure Modifiers where
  base : BaseMatch
  all : Bool
  deriving DecidableEq, Repr

/-- Take one modifier into account. -/
def Modifiers.add (field : String) (mods : Modifiers) : String → Except RuleError Modifiers
  | "contains" => .ok { mods with base := .contains }
  | "startswith" => .ok { mods with base := .startsWith }
  | "endswith" => .ok { mods with base := .endsWith }
  | "re" => .ok { mods with base := .regex }
  | "all" => .ok { mods with all := true }
  -- case sensitivity is not modeled
  | "cased" => .ok mods
  | other => .error (.unsupportedModifier other field)

/-- The field name and the modifiers of a field key. -/
def Modifiers.parse (fieldKey : String) : Except RuleError (String × Modifiers) :=
  let parts := splitChar '|' fieldKey
  let field := parts.headD ""
  (parts.tail.foldlM (Modifiers.add field) { base := .equals, all := false }).map (field, ·)

section

variable (lib : Libraries)

/-- A single string predicate, evaluated case-insensitively. -/
inductive StringPredicate where
  | equals (v : String)
  | contains (v : String)
  | startsWith (v : String)
  | endsWith (v : String)
  | regex (re : lib.Regex)
  | isNull

/-- Translate wildcards into an expression that may be anchored. -/
def wildcardRegex (pattern : String) (anchorStart anchorEnd : Bool) :
    Except RuleError lib.Regex :=
  let body := pattern.toList.map fun c =>
    if c = '*' then ".*" else if c = '?' then "." else lib.escapeRegex (String.singleton c)
  let re := "(?i)" ++ (if anchorStart then "^" else "") ++ String.join body ++
    (if anchorEnd then "$" else "")
  (lib.newRegex re).mapError (.badWildcard pattern)

variable {lib}

namespace StringPredicate

/-- Build a predicate from a raw value and the modifiers of the field. -/
def build (value : Option String) (mods : Modifiers) : Except RuleError (StringPredicate lib) :=
  match value with
  | none => .ok .isNull
  | some value =>
      let hasWild := '*' ∈ value.toList ∨ '?' ∈ value.toList
      let lower := lib.cases.toLowercase value
      match mods.base with
      | .equals =>
          if hasWild then (wildcardRegex lib value true true).map .regex else .ok (.equals lower)
      | .contains =>
          if hasWild then (wildcardRegex lib value false false).map .regex
          else .ok (.contains lower)
      | .startsWith =>
          if hasWild then (wildcardRegex lib value true false).map .regex
          else .ok (.startsWith lower)
      | .endsWith =>
          if hasWild then (wildcardRegex lib value false true).map .regex
          else .ok (.endsWith lower)
      | .regex => ((lib.newRegex ("(?i)" ++ value)).mapError (.badRegex value)).map .regex

/-- Does the predicate match a candidate value? -/
def «matches» (predicate : StringPredicate lib) (candidate : String) : Bool :=
  let lc := lib.cases.toLowercase candidate
  match predicate with
  | .equals v => lc = v
  | .contains v => v.toList <:+: lc.toList
  | .startsWith v => v.toList <+: lc.toList
  | .endsWith v => v.toList <:+ lc.toList
  | .regex re => lib.isMatch re candidate
  | .isNull => false

end StringPredicate

end

/-- A condition on one field: predicates combined with or, or with and. -/
structure FieldCond (lib : Libraries) where
  field : String
  all : Bool
  preds : List (StringPredicate lib)

def FieldCond.eval {lib : Libraries} (cond : FieldCond lib) (event : Event) : Bool :=
  let candidates := resolveField event cond.field
  let predHit : StringPredicate lib → Bool
    | .isNull => candidates.isEmpty
    | p => candidates.any p.matches
  if cond.all then cond.preds.all predHit else cond.preds.any predHit

/-- A compiled selection: field conditions, alternatives or keywords. -/
inductive Selection (lib : Libraries) where
  | fields (conds : List (FieldCond lib))
  | anyOf (items : List (Selection lib))
  | keywords (preds : List (StringPredicate lib))

mutual

def Selection.eval {lib : Libraries} (event : Event) (haystack : String) : Selection lib → Bool
  | .fields conds => conds.all fun c => c.eval event
  | .anyOf items => Selection.evalAny event haystack items
  | .keywords preds => preds.any fun p => p.matches haystack

def Selection.evalAny {lib : Libraries} (event : Event) (haystack : String) :
    List (Selection lib) → Bool
  | [] => false
  | item :: items => item.eval event haystack || Selection.evalAny event haystack items

end

/-- The text of the whole event. -/
def eventText (event : Event) : String :=
  event.message ++ String.join (event.fields.entries.map fun entry => " " ++
    valueToString entry.2) ++
    String.join ([event.actor, event.host, event.target].reduceOption.map fun e => " " ++ e.id)

/-- The text of the whole event in lower case, for keywords. -/
def eventHaystack (lib : Libraries) (event : Event) : String :=
  lib.cases.toLowercase (eventText event)

end Sigma
end Sigil
