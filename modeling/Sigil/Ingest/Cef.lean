import Sigil.Core.Record
import Sigil.Core.Slices

namespace Sigil
namespace Ingest

/-!
# The CEF codec

A record has seven header fields and an extension of `key=value` pairs.  The header is split
at bars that are not escaped.  The splitter goes through the extension too, and there it
takes the escapes of the header away before the escapes of the values are read.
-/

open Sigil.Core

/-- A match of the key expression: the key, where the match starts, and where it stops. -/
structure Capture where
  key : String
  start : Nat
  stop : Nat
  deriving DecidableEq, Repr

def headerKeys : List String :=
  ["cef_version", "device_vendor", "device_product", "device_version", "signature_id", "name",
    "cef_severity"]

/-- A line that cannot be decoded. -/
def deadLetter (line : String) (raw : List UInt8) (err : String) : Record where
  fields := strField (strField .empty "message" line) "decode_error" err
  raw := raw

/-- Go on splitting after some parts and the beginning of the next one. -/
def splitHeaderFrom (parts : List String) (cur : List Char) : List Char → List String
  | [] => parts ++ [String.ofList cur]
  | ['\\'] => parts ++ [String.ofList (cur ++ ['\\'])]
  | '\\' :: '|' :: rest => splitHeaderFrom parts (cur ++ ['|']) rest
  | '\\' :: '\\' :: rest => splitHeaderFrom parts (cur ++ ['\\']) rest
  | '\\' :: other :: rest => splitHeaderFrom parts (cur ++ ['\\', other]) rest
  | '|' :: rest =>
      if parts.length < 7 then splitHeaderFrom (parts ++ [String.ofList cur]) [] rest
      else splitHeaderFrom parts (cur ++ ['|']) rest
  | c :: rest => splitHeaderFrom parts (cur ++ [c]) rest

/-- Split at bars that are not escaped into at most eight parts. -/
def splitHeader (body : String) : List String :=
  splitHeaderFrom [] [] body.toList

/-- Take away the escapes of a value. -/
def unescapeFrom : List Char → List Char
  | [] => []
  | ['\\'] => ['\\']
  | '\\' :: '=' :: rest => '=' :: unescapeFrom rest
  | '\\' :: '\\' :: rest => '\\' :: unescapeFrom rest
  | '\\' :: 'n' :: rest => '\n' :: unescapeFrom rest
  | '\\' :: 'r' :: rest => '\r' :: unescapeFrom rest
  | '\\' :: other :: rest => '\\' :: other :: unescapeFrom rest
  | c :: rest => c :: unescapeFrom rest

def unescape (s : String) : String :=
  if '\\' ∈ s.toList then String.ofList (unescapeFrom s.toList) else s

def isAsciiWhitespace (c : Char) : Bool :=
  c = ' ' || c = '\t' || c = '\n' || c.toNat = 12 || c = '\r'

/-- A key counts at the start or after white space. -/
def accepted (ext : List Char) (key : Capture) : Bool :=
  key.start = 0 || ext[key.start - 1]?.any isAsciiWhitespace

/-- The values of the keys; each one runs until the next key. -/
def keyValues (ext : List Char) : List Capture → List (String × String)
  | [] => []
  | key :: keys =>
      let valEnd := keys.head?.elim ext.length Capture.start
      (key.key, unescape (trim (String.ofList ((ext.take valEnd).drop key.stop)))) ::
        keyValues ext keys

section Parse

-- the matches of the key expression
variable (captures : String → List Capture)

/-- Parse the extension into fields. -/
def parseExtension (ext : String) (fields : FieldMap) : FieldMap :=
  let keys := (captures ext).filter (accepted ext.toList)
  (keyValues ext.toList keys).foldl (fun fields entry => strField fields entry.1 entry.2) fields

/-- Parse one line. -/
def parseCef (line : String) (raw : List UInt8) : Record :=
  match splitOnce "CEF:" line with
  | none => deadLetter line raw "no CEF: header"
  | some (_, body) =>
      let parts := splitHeader body
      if parts.length < 7 then deadLetter line raw "incomplete CEF header"
      else
        let fields := (headerKeys.zip parts).foldl (fun fields entry =>
          strField fields entry.1 entry.2) .empty
        -- the name is the message
        let fields := strField fields "message" (parts.getD 5 "")
        { fields := parts[7]?.elim fields fun ext => parseExtension captures ext fields
          raw := raw }

end Parse

/-! ## The key expression -/

def isKeyChar (c : Char) : Bool :=
  c.isAlphanum || c = '_' || c = '.'

/-- The matches of `([A-Za-z][A-Za-z0-9_.]*)=` from left to right in the rest of a text, after
the characters of the last match have been skipped. -/
def keyMatchesFrom (pos : Nat) : Nat → List Char → List Capture
  | _, [] => []
  | skip + 1, _ :: rest => keyMatchesFrom (pos + 1) skip rest
  | 0, c :: rest =>
      let run := rest.takeWhile isKeyChar
      if c.isAlpha ∧ (rest.dropWhile isKeyChar).head? = some '=' then
        { key := String.ofList (c :: run), start := pos, stop := pos + run.length + 2 } ::
          keyMatchesFrom (pos + 1) (run.length + 1) rest
      else keyMatchesFrom (pos + 1) 0 rest

/-- The expression matches as it is documented. -/
def KeyRegex (captures : String → List Capture) : Prop :=
  ∀ ext, captures ext = keyMatchesFrom 0 0 ext.toList

end Ingest
end Sigil
