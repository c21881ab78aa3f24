import Sigil.Ingest.Syslog

namespace Sigil
namespace Ingest

/-!
# Lines of RFC 3164

The header has a month, a day, a time, a host and a tag, with single spaces between them.
A day of one digit is padded with a space, and with it all tokens behind it are shifted.
-/

open Sigil.Core

/-- A number below 100 in two places, filled up in front. -/
def twoPlaces (filler : String) (n : Nat) : String :=
  (if n < 10 then filler else "") ++ toString n

/-- What a line of RFC 3164 says. -/
structure Rfc3164 where
  priority : Fin 192
  month : { m : String // m ∈ months }
  day : Nat
  day_pos : 1 ≤ day
  day_le : day ≤ 31
  hour : Fin 24
  minute : Fin 60
  second : Fin 60
  host : Without [' ', '[', ']', ':']
  tag : Without [' ', '[', ']', ':']
  pid : Option Digits
  message : String

namespace Rfc3164

variable (entry : Rfc3164)

def time : String :=
  twoPlaces "0" entry.hour ++ ":" ++ twoPlaces "0" entry.minute ++ ":" ++ twoPlaces "0" entry.second

/-- The tag, with the process number in brackets. -/
def tagPart : String :=
  entry.tag ++ entry.pid.elim "" fun pid => "[" ++ pid ++ "]"

/-- The line; a day of one digit is padded with a space. -/
def line : String :=
  "<" ++ toString entry.priority.val ++ ">" ++ entry.month ++ " " ++
    twoPlaces " " entry.day ++ " " ++
    entry.time ++ " " ++ entry.host ++ " " ++ entry.tagPart ++ ": " ++ entry.message

/-- The record says what the line says. -/
structure Returned (record : Record) : Prop where
  facility : record.fields.get "syslog_facility" =
    some (.number (toString (entry.priority.val / 8)))
  severity : record.fields.get "syslog_severity" =
    some (.number (toString (entry.priority.val % 8)))
  host : record.fields.get "host" = some (.string entry.host)
  app : record.fields.get "app" = some (.string entry.tag)
  procid : record.fields.get "procid" = entry.pid.map fun pid => .string pid
  message : record.fields.get "message" = some (.string entry.message)

/-- What follows the host. -/
def remainder : String :=
  entry.tagPart ++ (": " ++ entry.message)

variable {entry}

theorem not_mem_twoPlaces {filler : String} {c : Char} (noDigit : c.isDigit = false)
    (noFiller : c ∉ filler.toList) (n : Nat) : c ∉ (twoPlaces filler n).toList := by
  rw [twoPlaces, String.toList_append, List.mem_append, not_or]
  refine ⟨?_, not_mem_toString noDigit⟩
  split
  · exact noFiller
  · exact List.not_mem_nil

theorem space_not_mem_time : ' ' ∉ entry.time.toList := by
  have place : ∀ n, ' ' ∉ (twoPlaces "0" n).toList :=
    fun n => not_mem_twoPlaces rfl (by decide) n
  have colon : ' ' ∉ (":" : String).toList := by decide
  simp only [time, String.toList_append, List.mem_append, not_or]
  exact ⟨⟨⟨⟨place _, colon⟩, place _⟩, colon⟩, place _⟩

theorem colon_mem_time : ':' ∈ entry.time.toList := by
  simp only [time, String.toList_append, List.mem_append]
  exact Or.inl (Or.inr (by decide))

/-- The tag and the process number of a line. -/
def tagFields (entry : Rfc3164) (fields : FieldMap) : FieldMap :=
  let fields := strField fields "app" entry.tag
  entry.pid.elim fields fun pid => strField fields "procid" pid

theorem splitTag_remainder (fields : FieldMap) :
    splitTag entry.remainder fields =
      strField (entry.tagFields fields) "message" entry.message := by
  have digit : ∀ (pid : Digits) (c : Char), c.isDigit = false → c ∉ pid.val.toList := by
    intro pid c noDigit member
    rw [pid.property c member] at noDigit
    cases noDigit
  have tagColon : ':' ∉ entry.tag.val.toList := fun member =>
    entry.tag.property ':' member (by decide)
  have tagBracket : '[' ∉ entry.tag.val.toList := fun member =>
    entry.tag.property '[' member (by decide)
  have noColon : ':' ∉ entry.tagPart.toList := by
    rw [tagPart, String.toList_append, List.mem_append, not_or]
    refine ⟨tagColon, ?_⟩
    cases entry.pid with
    | none => exact List.not_mem_nil
    | some pid =>
        simp only [Option.elim_some, String.toList_append, List.mem_append, not_or]
        exact ⟨⟨by decide, digit pid ':' rfl⟩, by decide⟩
  rw [splitTag, remainder, splitOnce_append rfl noColon]
  dsimp only
  rw [tagPart, tagFields]
  cases entry.pid with
  | none =>
      rw [Option.elim_none, String.append_empty, splitOnce_eq_none rfl tagBracket]
      rfl
  | some pid =>
      rw [Option.elim_some, String.append_assoc, splitOnce_append rfl tagBracket]
      dsimp only
      rw [trimEndMatches_append rfl (digit pid ']' rfl)]
      rfl

/-- The tokens of a header. -/
theorem splitn_header {month day time host : String} (monthPlain : ' ' ∉ month.toList)
    (dayPlain : ' ' ∉ day.toList) (timePlain : ' ' ∉ time.toList)
    (hostPlain : ' ' ∉ host.toList) (rest : String) :
    splitn 5 " " (month ++ (" " ++ (day ++ (" " ++ (time ++ (" " ++ (host ++ (" " ++ rest)))))))) =
      [month, day, time, host, rest] := by
  rw [splitn_append rfl monthPlain, splitn_append rfl dayPlain, splitn_append rfl timePlain,
    splitn_append rfl hostPlain, splitn_one]

theorem isMonth_month : isMonth entry.month = true :=
  decide_eq_true entry.month.property

theorem month_plain :
    ∀ m, m ∈ months → ' ' ∉ m.toList ∧ m.toList.all Char.isDigit = false := by
  decide

/-- The part of the line after the priority is read as one of RFC 3164. -/
theorem parseSyslog_line : (parseSyslog entry.line).fields =
    parse3164 (priorityFields entry.priority)
      (entry.month ++ (" " ++ (twoPlaces " " entry.day ++ (" " ++ (entry.time ++ (" " ++
        (entry.host ++ (" " ++ entry.remainder)))))))) := by
  have small : entry.priority.val < 2 ^ 16 := by omega
  have plain := month_plain entry.month entry.month.property
  have shape : entry.line = "<" ++ (toString entry.priority.val ++ (">" ++ (entry.month ++ (" " ++
      (twoPlaces " " entry.day ++ (" " ++ (entry.time ++ (" " ++
        (entry.host ++ (" " ++ entry.remainder)))))))))) := by
    delta line remainder
    simp only [String.append_assoc]
  have notNew : ∀ rest, is5424 (entry.month ++ (" " ++ rest)) = false := by
    intro rest
    rw [is5424_append plain.1, plain.2, Bool.and_false, Bool.false_and]
  rw [parseSyslog, shape, parsePriority_line small]
  dsimp only
  rw [notNew, if_neg Bool.false_ne_true]

theorem get_tagFields {fields : FieldMap} {name : String} (notApp : name ≠ "app")
    (notProcid : name ≠ "procid") : (entry.tagFields fields).get name = fields.get name := by
  rw [tagFields]
  cases entry.pid with
  | none => rw [Option.elim_none, get_strField, if_neg notApp]
  | some pid => rw [Option.elim_some, get_strField, if_neg notProcid, get_strField, if_neg notApp]

/-- A day of two digits leaves the tokens in their places. -/
theorem parse_wide (wide : 10 ≤ entry.day) : (parseSyslog entry.line).fields =
    strField (entry.tagFields (strField (strField (priorityFields entry.priority) "timestamp"
      (entry.month ++ " " ++ toString entry.day ++ " " ++ entry.time)) "host" entry.host))
      "message" entry.message := by
  have plain := month_plain entry.month entry.month.property
  have host : ' ' ∉ entry.host.val.toList :=
    fun member => entry.host.property ' ' member (by decide)
  have day : twoPlaces " " entry.day = toString entry.day := by
    rw [twoPlaces, if_neg (Nat.not_lt.mpr wide), String.empty_append]
  rw [parseSyslog_line, parse3164, day,
    splitn_header plain.1 (not_mem_toString rfl) space_not_mem_time host]
  dsimp only
  rw [if_pos isMonth_month, List.head?_cons, Option.elim_some,
    splitTag_remainder]

/-- The space in front of a day of one digit shifts them, so the time stands in the place of
the host. -/
theorem host_narrow (narrow : entry.day < 10) :
    (parseSyslog entry.line).fields.get "host" = some (.string entry.time) := by
  have plain := month_plain entry.month entry.month.property
  have day :
      ∀ rest, twoPlaces " " entry.day ++ rest = "" ++ (" " ++ (toString entry.day ++ rest)) := by
    intro rest
    rw [twoPlaces, if_pos narrow, String.empty_append, String.append_assoc]
  rw [parseSyslog_line, parse3164, day,
    splitn_header plain.1 List.not_mem_nil (not_mem_toString rfl) space_not_mem_time]
  dsimp only
  rw [if_pos isMonth_month, List.head?_cons, Option.elim_some,
    get_splitTag (by decide) (by decide) (by decide), get_strField, if_pos rfl]

theorem returned_wide (wide : 10 ≤ entry.day) : entry.Returned (parseSyslog entry.line) where
  facility := by
    rw [parse_wide wide, get_strField, if_neg (by decide), get_tagFields (by decide) (by decide),
      get_strField, if_neg (by decide), get_strField, if_neg (by decide)]
    rfl
  severity := by
    rw [parse_wide wide, get_strField, if_neg (by decide), get_tagFields (by decide) (by decide),
      get_strField, if_neg (by decide), get_strField, if_neg (by decide)]
    rfl
  host := by
    rw [parse_wide wide, get_strField, if_neg (by decide), get_tagFields (by decide) (by decide),
      get_strField, if_pos rfl]
  app := by
    rw [parse_wide wide, get_strField, if_neg (by decide), tagFields]
    cases entry.pid with
    | none => rw [Option.elim_none, get_strField, if_pos rfl]
    | some pid => rw [Option.elim_some, get_strField, if_neg (by decide), get_strField, if_pos rfl]
  procid := by
    rw [parse_wide wide, get_strField, if_neg (by decide), tagFields]
    cases entry.pid with
    | none =>
        rw [Option.elim_none, get_strField, if_neg (by decide), get_strField, if_neg (by decide),
          get_strField, if_neg (by decide)]
        rfl
    | some pid => rw [Option.elim_some, get_strField, if_pos rfl, Option.map_some]
  message := by
    rw [parse_wide wide, get_strField, if_pos rfl]

/-- A line comes back exactly when its day has two digits. -/
theorem returned_iff_wide (entry : Rfc3164) :
    entry.Returned (parseSyslog entry.line) ↔ 10 ≤ entry.day := by
  constructor
  · intro returned
    by_contra narrow
    have time := (host_narrow (Nat.not_le.mp narrow)).symm.trans returned.host
    have colon : ':' ∈ entry.time.toList := colon_mem_time
    rw [Json.string.inj (Option.some.inj time)] at colon
    exact entry.host.property ':' colon (by decide)
  · exact returned_wide

/-- The first of October, padded with a space. -/
def firstOfOctober : Rfc3164 where
  priority := 34
  month := ⟨"Oct", by decide⟩
  day := 1
  day_pos := by decide
  day_le := by decide
  hour := 22
  minute := 14
  second := 15
  host := ⟨"mymachine", by decide⟩
  tag := ⟨"su", by decide⟩
  pid := none
  message := "'su root' failed for lonvick"

example : firstOfOctober.line =
    "<34>Oct  1 22:14:15 mymachine su: 'su root' failed for lonvick" := by
  decide +kernel

/-- The host of this line is read as `22:14:15`. -/
theorem not_returned_padded : ¬ ∀ entry : Rfc3164, entry.Returned (parseSyslog entry.line) := by
  intro all
  have time := (host_narrow (show firstOfOctober.day < 10 by decide)).symm.trans
    (all firstOfOctober).host
  have same := Json.string.inj (Option.some.inj time)
  revert same
  decide +kernel

end Rfc3164

end Ingest
end Sigil
