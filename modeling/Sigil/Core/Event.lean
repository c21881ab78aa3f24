import Mathlib.Algebra.Group.Int.Defs
import Mathlib.Algebra.GroupWithZero.Nat
import Mathlib.Data.String.Basic

namespace Sigil
namespace Core

/-!
# Events and alerts

The normalized event is the contract between the parts of the program: detection,
correlation and the stores all read it.  Times are epoch microseconds.  A JSON number is
kept as the text it is printed with, because the code only ever prints it.
-/

/-- A JSON value. -/
inductive Json where
  | null
  | bool (value : Bool)
  | number (text : String)
  | string (value : String)
  | array (items : List Json)
  | object (entries : List (String × Json))

namespace Json

/-- A hexadecimal digit, in lower case. -/
def hexDigit (n : Nat) : Char :=
  "0123456789abcdef".toList.getD n '0'

/-- One character of a printed JSON string. -/
def escapeChar (c : Char) : List Char :=
  if c = '"' then ['\\', '"']
  else if c = '\\' then ['\\', '\\']
  else if c.toNat = 8 then ['\\', 'b']
  else if c.toNat = 9 then ['\\', 't']
  else if c.toNat = 10 then ['\\', 'n']
  else if c.toNat = 12 then ['\\', 'f']
  else if c.toNat = 13 then ['\\', 'r']
  else if c.toNat < 32 then ['\\', 'u', '0', '0', hexDigit (c.toNat / 16), hexDigit (c.toNat % 16)]
  else [c]

/-- A printed JSON string, with its quotes. -/
def quote (s : String) : String :=
  String.ofList ('"' :: s.toList.flatMap escapeChar ++ ['"'])

mutual

/-- The compact text of a JSON value. -/
def display : Json → String
  | .null => "null"
  | .bool true => "true"
  | .bool false => "false"
  | .number text => text
  | .string value => quote value
  | .array items => "[" ++ ",".intercalate (displayItems items) ++ "]"
  | .object entries => "\x7b" ++ ",".intercalate (displayEntries entries) ++ "\x7d"

def displayItems : List Json → List String
  | [] => []
  | item :: items => item.display :: displayItems items

def displayEntries : List (String × Json) → List String
  | [] => []
  | (key, value) :: entries => (quote key ++ ":" ++ value.display) :: displayEntries entries

end

end Json

/-- Render a JSON value as a flat string. -/
def valueToString : Json → String
  | .string s => s
  | other => other.display

/-- The OCSF class of an event; `other` keeps a number that has no name here. -/
inductive OcsfClass where
  | fileSystemActivity
  | processActivity
  | authentication
  | networkActivity
  | httpActivity
  | apiActivity
  | dnsActivity
  | moduleActivity
  | scheduledJobActivity
  | registryKeyActivity
  | other (uid : UInt32)
  deriving DecidableEq, Repr

/-- The number of a class. -/
def OcsfClass.uid : OcsfClass → UInt32
  | .fileSystemActivity => 1001
  | .processActivity => 1007
  | .authentication => 3002
  | .networkActivity => 4001
  | .httpActivity => 4002
  | .apiActivity => 6003
  | .dnsActivity => 4003
  | .moduleActivity => 1005
  | .scheduledJobActivity => 1006
  | .registryKeyActivity => 201002
  | .other uid => uid

/-- The class of a number. -/
def OcsfClass.fromUid (uid : UInt32) : OcsfClass :=
  if uid = 1001 then .fileSystemActivity
  else if uid = 1007 then .processActivity
  else if uid = 3002 then .authentication
  else if uid = 4001 then .networkActivity
  else if uid = 4002 then .httpActivity
  else if uid = 6003 then .apiActivity
  else if uid = 4003 then .dnsActivity
  else if uid = 1005 then .moduleActivity
  else if uid = 1006 then .scheduledJobActivity
  else if uid = 201002 then .registryKeyActivity
  else .other uid

/-- Normalized severity. -/
inductive Severity where
  | unknown
  | informational
  | low
  | medium
  | high
  | critical
  | fatal
  deriving DecidableEq, Repr

/-- The number of a severity. -/
def Severity.id : Severity → UInt8
  | .unknown => 0
  | .informational => 1
  | .low => 2
  | .medium => 3
  | .high => 4
  | .critical => 5
  | .fatal => 6

/-- The severity of a number. -/
def Severity.fromId (id : UInt8) : Severity :=
  if id = 0 then .unknown
  else if id = 1 then .informational
  else if id = 2 then .low
  else if id = 3 then .medium
  else if id = 4 then .high
  else if id = 5 then .critical
  else .fatal

/-- A reference to an entity such as a user, a process or a host. -/
structure EntityRef where
  kind : String
  id : String
  name : Option String := none
  deriving DecidableEq, Repr

/-- A reference without a name. -/
def EntityRef.new (kind id : String) : EntityRef where
  kind := kind
  id := id

/-- A map from names to JSON values, in the order of the names. -/
structure FieldMap where
  entries : List (String × Json)
  ordered : (entries.map Prod.fst).Pairwise (· < ·)

namespace FieldMap

def get (fields : FieldMap) (name : String) : Option Json :=
  fields.entries.lookup name

def empty : FieldMap :=
  ⟨[], List.Pairwise.nil⟩

end FieldMap

/-- A normalized security event. -/
structure Event where
  id : String
  ts : Int
  ingestTs : Int
  ocsfClass : OcsfClass
  tenant : String
  severity : Severity
  host : Option EntityRef
  actor : Option EntityRef
  target : Option EntityRef
  message : String
  fields : FieldMap
  templateId : Option UInt64
  labels : List String
  raw : List UInt8

/-- A detection match. -/
structure Alert where
  ruleId : String
  title : String
  severity : Severity
  technique : Option String
  events : List String
  ts : Int
  deriving DecidableEq, Repr

/-- Reduce to a signed 64-bit integer, as the machine operations do when they wrap. -/
def toI64 (n : Int) : Int :=
  n.bmod (2 ^ 64)

/-- A result inside the range of the machine integers is exact. -/
theorem toI64_of_range {n : Int} (low : -(2 ^ 63) ≤ n) (high : n < 2 ^ 63) : toI64 n = n :=
  Int.bmod_eq_of_le (by omega) (by omega)

end Core
end Sigil
