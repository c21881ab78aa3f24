import Sigil.Core.Utf8
import Sigil.Ingest.Leef
import Sigil.Ingest.Syslog

namespace Sigil
namespace Ingest

/-!
# Codecs by name

A codec is chosen by the text of the configuration, and a name that is not known takes the whole
frame as the message.  No codec fails: a frame that cannot be parsed becomes a record that says
so.  The JSON parser and the matches of the key expression are parameters.
-/

open Sigil.Core

/-- What the codecs use of other packages; the parser answers a value or the text of its error. -/
structure Decoders where
  fromSlice : List UInt8 → Except String Json
  captures : String → List Capture

/-- The record of one JSON value; an object gives its entries, anything else is the message. -/
def recordFromJson (value : Json) (raw : List UInt8) : Record where
  fields :=
    match value with
    | .object entries =>
        entries.foldl (fun fields entry => fields.insert entry.1 entry.2) .empty
    | other => FieldMap.empty.insert "message" other
  raw := raw

/-- The values of the records: the items of an array, or the value itself. -/
def jsonObjects : Json → List Json
  | .array items => items
  | other => [other]

variable (decoders : Decoders)

def decodeJson (raw : List UInt8) : List Record :=
  match decoders.fromSlice raw with
  | .error err => [deadLetter (fromUtf8Lossy raw) raw err]
  | .ok value => (jsonObjects value).map fun value => recordFromJson value raw

/-- Remove white space at the end. -/
def trimEnd (s : String) : String :=
  String.ofList (s.toList.reverse.dropWhile isWhitespace).reverse

/-- The whole frame as the message. -/
def rawRecord (raw : List UInt8) : Record where
  fields := strField .empty "message" (fromUtf8Lossy raw)
  raw := raw

/-- Decode a frame with the codec of a name. -/
def decode (kind : String) (raw : List UInt8) : List Record :=
  let line := trimEnd (fromUtf8Lossy raw)
  if kind = "json" then decodeJson decoders raw
  else if kind = "syslog" then [parseSyslog line]
  else if kind = "cef" then [parseCef decoders.captures line raw]
  else if kind = "leef" then [parseLeef line raw]
  else [rawRecord raw]

/-- A frame gives no record only when it is an empty JSON array. -/
theorem decode_eq_nil_iff (kind : String) (raw : List UInt8) :
    decode decoders kind raw = [] ↔
      kind = "json" ∧ decoders.fromSlice raw = .ok (.array []) := by
  rw [decode]
  split
  · next json =>
      rw [decodeJson]
      cases parsed : decoders.fromSlice raw with
      | error err => simp
      | ok value => cases value <;> simp [json, jsonObjects]
  · next other =>
      refine iff_of_false ?_ fun both => other both.1
      split
      · exact List.cons_ne_nil _ _
      · split
        · exact List.cons_ne_nil _ _
        · split <;> exact List.cons_ne_nil _ _

end Ingest
end Sigil
