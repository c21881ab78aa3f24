import Sigil.Ingest.Cef
import Sigil.Library.Addresses

namespace Sigil
namespace Ingest

/-!
# The LEEF codec

A line has five header fields between bars and a list of `key=value` attributes.  In version 1
tabs stand between the attributes, in version 2 a character that one more header field names.
The message of the record is the attribute `msg`, else it is made from the event identifier.
-/

open Sigil.Core Library.Addresses

/-! ## The delimiter -/

def hexDigitValue (c : Char) : Nat :=
  if c.isDigit then c.toNat - '0'.toNat
  else if 'a' ≤ c ∧ c ≤ 'f' then c.toNat - 'a'.toNat + 10
  else c.toNat - 'A'.toNat + 10

def withoutSign : List Char → List Char
  | '+' :: digits => digits
  | digits => digits

/-- Read a number of 32 bits with base 16: an optional plus sign and at least one digit. -/
def fromStrRadix16 (hex : List Char) : Option Nat :=
  let digits := withoutSign hex
  let value := digits.foldl (fun n c => 16 * n + hexDigitValue c) 0
  if digits ≠ [] ∧ digits.all isHexDigit ∧ value < 2 ^ 32 then some value else none

/-- The character with a number. -/
def charFromU32 (n : Nat) : Option Char :=
  if n.isValidChar then some (Char.ofNat n) else none

/-- The delimiter for a header field: a character or its hexadecimal number, a tab for nothing. -/
def parseDelim (spec : String) : Char :=
  let s := trim spec
  if s = "" then '\t'
  else
    let hex := (stripPrefix "0x" s).or (stripPrefix "x" s)
    ((hex.bind fun hex => fromStrRadix16 hex.toList).bind charFromU32).getD
      (s.toList.head?.getD '\t')

/-! ## The record -/

/-- The key and the value of an attribute. -/
def readPair (pair : String) : Option (String × String) :=
  (splitOnce "=" pair).bind fun parts =>
    let k := trim parts.1
    if k = "" then none else some (k, parts.2)

/-- The attributes of a text, in its order. -/
def readPairs (delim : Char) (attrs : String) : List (String × String) :=
  (splitChar delim attrs).filterMap readPair

/-- Insert fields, one after another. -/
def strFields (fields : FieldMap) (entries : List (String × String)) : FieldMap :=
  entries.foldl (fun fields entry => strField fields entry.1 entry.2) fields

/-- The fields of the header. -/
def leefHeader (version : String) (segs : List String) : List (String × String) :=
  [("leef_version", trim version), ("device_vendor", segs.getD 0 ""),
    ("device_product", segs.getD 1 ""), ("device_version", segs.getD 2 ""),
    ("event_id", segs.getD 3 "")]

/-- The record of a line that has been cut into its parts. -/
def leefRecord (version : String) (segs : List String) (delim : Char) (attrs : String)
    (raw : List UInt8) : Record :=
  let fields := strFields .empty (leefHeader version segs)
  let fields := strFields fields (readPairs delim attrs)
  -- an attribute `msg` is the message
  let message := match fields.get "msg" with
    | some (.string msg) => msg
    | _ => "LEEF event " ++ segs.getD 3 ""
  { fields := strField fields "message" message
    raw := raw }

/-- Parse one line. -/
def parseLeef (line : String) (raw : List UInt8) : Record :=
  match splitOnce "LEEF:" line with
  | none => deadLetter line raw "no LEEF: header"
  | some (_, rest) =>
      match splitOnce "|" rest with
      | none => deadLetter line raw "incomplete LEEF header"
      | some (version, afterVer) =>
          let isV2 : Bool := (trim version).toList.head? = some '2'
          let nonAttr := if isV2 then 5 else 4
          let segs := splitn (nonAttr + 1) "|" afterVer
          if segs.length < nonAttr + 1 then deadLetter line raw "incomplete LEEF header"
          else if isV2 then
            leefRecord version segs (parseDelim (segs.getD 4 "")) (segs.getD 5 "") raw
          else leefRecord version segs '\t' (segs.getD 4 "") raw

/-! ## The fields of a record -/

theorem get_strFields (fields : FieldMap) (entries : List (String × String)) (name : String) :
    (strFields fields entries).get name =
      (entries.reverse.lookup name).elim (fields.get name) fun text => some (.string text) :=
  get_foldl_strField fields entries name

/-- The message for some attributes. -/
def messageOf (eventId : String) (pairs : List (String × String)) : String :=
  (pairs.reverse.lookup "msg").getD ("LEEF event " ++ eventId)

theorem get_leefRecord (version : String) (segs : List String) (delim : Char) (attrs : String)
    (raw : List UInt8) (name : String) :
    (leefRecord version segs delim attrs raw).fields.get name =
      (if name = "message" then some (messageOf (segs.getD 3 "") (readPairs delim attrs))
        else ((readPairs delim attrs).reverse.lookup name).or
          ((leefHeader version segs).reverse.lookup name)).map Json.string := by
  have read : ∀ key, (strFields (strFields .empty (leefHeader version segs))
      (readPairs delim attrs)).get key = (((readPairs delim attrs).reverse.lookup key).or
        ((leefHeader version segs).reverse.lookup key)).map Json.string := by
    intro key
    rw [get_strFields, get_strFields]
    cases (readPairs delim attrs).reverse.lookup key with
    | some text => rfl
    | none => cases (leefHeader version segs).reverse.lookup key <;> rfl
  have noMsg : (leefHeader version segs).reverse.lookup "msg" = none := rfl
  have message : (match ((readPairs delim attrs).reverse.lookup "msg").map Json.string with
      | some (.string msg) => msg
      | _ => "LEEF event " ++ segs.getD 3 "") =
          messageOf (segs.getD 3 "") (readPairs delim attrs) := by
    unfold messageOf
    cases (readPairs delim attrs).reverse.lookup "msg" <;> rfl
  rw [leefRecord, read, noMsg, Option.or_none, message, get_strField, read]
  split <;> rfl

end Ingest
end Sigil
