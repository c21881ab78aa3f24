import Sigil.Core.Record
import Sigil.Core.Slices
import Sigil.Core.Utf8

namespace Sigil
namespace Ingest

/-!
# The syslog codec

One line is read in the shape of RFC 3164 or of RFC 5424.  The header is cut at single
spaces, and what cannot be structured is left in the message.
-/

open Sigil.Core

/-- The facility and the severity of a priority in front of a line, and the rest. -/
def parsePriority (line : String) : FieldMap × String :=
  match stripPrefix "<" line with
  | none => (.empty, line)
  | some stripped =>
      match splitOnce ">" stripped with
      | none => (.empty, line)
      | some (number, rest) =>
          match parseU16 number with
          | none => (.empty, rest)
          | some pri =>
              ((FieldMap.empty.insert "syslog_facility" (.number (toString (pri >>> 3)))).insert
                "syslog_severity" (.number (toString (pri &&& 7))), rest)

/-- RFC 5424 begins with a version of at most two digits and a space. -/
def is5424 (rest : String) : Bool :=
  match splitOnce " " rest with
  | none => false
  | some (v, _) => v ≠ "" && v.toList.all Char.isDigit && v.utf8ByteSize ≤ 2

def nilToEmpty (s : String) : String :=
  if s = "-" then "" else s

/-- Drop structured data in front of a message. -/
def stripStructuredData (s : String) : String :=
  let s := trimStart s
  match stripPrefix "[" s with
  | some rest =>
      match splitOnce "]" rest with
      | some (_, after) => trimStart after
      | none => s
  | none =>
      match stripPrefix "-" s with
      | some rest => trimStart rest
      | none => s

/-- The version, five header fields, and structured data with the message. -/
def parse5424 (fields : FieldMap) (rest : String) : FieldMap :=
  let it := (splitn 7 " " rest).tail
  let fields := it[0]?.elim fields (strField fields "timestamp")
  let fields := it[1]?.elim fields fun host => strField fields "host" (nilToEmpty host)
  let fields := it[2]?.elim fields fun app => strField fields "app" (nilToEmpty app)
  let fields := it[3]?.elim fields fun procid => strField fields "procid" (nilToEmpty procid)
  let fields := it[4]?.elim fields fun msgid => strField fields "msgid" (nilToEmpty msgid)
  it[5]?.elim fields fun tail => strField fields "message" (stripStructuredData tail)

/-- The tag, the process number in brackets and the message. -/
def splitTag (remainder : String) (fields : FieldMap) : FieldMap :=
  match splitOnce ": " remainder with
  | some (tagPart, msg) =>
      let fields :=
        match splitOnce "[" tagPart with
        | some (tag, pid) =>
            strField (strField fields "app" tag) "procid" (trimEndMatches ']' pid)
        | none => strField fields "app" tagPart
      strField fields "message" msg
  | none => strField fields "message" remainder

def months : List String :=
  ["Jan", "Feb", "Mar", "Apr", "May", "Jun", "Jul", "Aug", "Sep", "Oct", "Nov", "Dec"]

def isMonth (s : String) : Bool :=
  s ∈ months

/-- A month, a day, a time and a host, and the tag with the message. -/
def parse3164 (fields : FieldMap) (rest : String) : FieldMap :=
  match splitn 5 " " rest with
  | month :: day :: time :: host :: remainder =>
      if isMonth month then
        let fields := strField fields "timestamp" (month ++ " " ++ day ++ " " ++ time)
        let fields := strField fields "host" host
        remainder.head?.elim fields fun remainder => splitTag remainder fields
      else strField fields "message" rest
  | _ => strField fields "message" rest

/-- Parse a single line. -/
def parseSyslog (line : String) : Record :=
  let (fields, rest) := parsePriority line
  { fields := if is5424 rest then parse5424 fields rest else parse3164 fields rest
    raw := utf8Bytes line }

/-- A text in which some characters do not stand. -/
abbrev Without (excluded : List Char) : Type :=
  { s : String // ∀ c, c ∈ s.toList → c ∉ excluded }

/-- A text of decimal digits. -/
abbrev Digits : Type :=
  { s : String // ∀ c, c ∈ s.toList → c.isDigit = true }

/-! ## The priority -/

/-- What a priority says. -/
def priorityFields (pri : Nat) : FieldMap :=
  (FieldMap.empty.insert "syslog_facility" (.number (toString (pri / 8)))).insert
    "syslog_severity" (.number (toString (pri % 8)))

theorem parsePriority_line {pri : Nat} (bound : pri < 2 ^ 16) (rest : String) :
    parsePriority ("<" ++ (toString pri ++ (">" ++ rest))) = (priorityFields pri, rest) := by
  have closing : '>' ∉ (toString pri).toList := not_mem_toString rfl
  have facility : pri >>> 3 = pri / 8 := Nat.shiftRight_eq_div_pow pri 3
  have severity : pri &&& 7 = pri % 8 := Nat.and_two_pow_sub_one_eq_mod pri 3
  rw [parsePriority, stripPrefix_append]
  dsimp only
  rw [splitOnce_append rfl closing]
  dsimp only
  rw [parseU16_toString bound]
  dsimp only
  rw [facility, severity, priorityFields]

theorem is5424_append {v : String} (plain : ' ' ∉ v.toList) (rest : String) :
    is5424 (v ++ (" " ++ rest)) =
      (v ≠ "" && v.toList.all Char.isDigit && v.utf8ByteSize ≤ 2) := by
  rw [is5424, splitOnce_append rfl plain]

theorem get_splitTag {name : String} (notApp : name ≠ "app") (notProcid : name ≠ "procid")
    (notMessage : name ≠ "message") (remainder : String) (fields : FieldMap) :
    (splitTag remainder fields).get name = fields.get name := by
  rw [splitTag]
  split
  · rw [get_strField, if_neg notMessage]
    split
    · rw [get_strField, if_neg notProcid, get_strField, if_neg notApp]
    · rw [get_strField, if_neg notApp]
  · rw [get_strField, if_neg notMessage]

end Ingest
end Sigil
