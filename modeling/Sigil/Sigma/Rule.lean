import Sigil.Core.Text

namespace Sigil
namespace Sigma

/-!
# Rules as they are parsed from YAML

The detection of a rule stays a YAML mapping until the rule is compiled.
-/

/-- A YAML number, as the text it is printed with: digits and signs, or the name of an
infinite or undefined value. -/
structure YamlNumber where
  text : String
  noWildcard : '*' ∉ text.toList ∧ '?' ∉ text.toList

/-- A YAML value. -/
inductive Yaml where
  | null
  | bool (value : Bool)
  | number (value : YamlNumber)
  | string (value : String)
  | sequence (items : List Yaml)
  | mapping (entries : List (Yaml × Yaml))
  | tagged (tag : String) (value : Yaml)

namespace Yaml

/-- The string of a value, under its tags. -/
def asStr : Yaml → Option String
  | .string s => some s
  | .tagged _ value => value.asStr
  | _ => none

/-- Is the value a mapping, under its tags? -/
def isMapping : Yaml → Bool
  | .mapping _ => true
  | .tagged _ value => value.isMapping
  | _ => false

end Yaml

/-- A YAML mapping: its entries in the order of the text, with different keys. -/
structure YamlMapping where
  entries : List (Yaml × Yaml)
  distinct : (entries.map Prod.fst).Nodup

/-- A Sigma rule. -/
structure SigmaRule where
  title : String
  id : Option String := none
  level : Option String := none
  detection : YamlMapping
  tags : List String := []

end Sigma
end Sigil
