import Sigil.Ingest.Syslog

namespace Sigil
namespace Ingest

/-!
# Lines of RFC 5424

Structured data is a sequence of elements in brackets.  A closing bracket in a quoted value
is escaped, but it is there, and the codec cuts the structured data off at the first closing
bracket.  So it finds the message behind one element without such a bracket, and no other.
-/

open Sigil.Core

/-- A name in structured data. -/
abbrev SdName : Type :=
  Without [' ', '=', ']', '"']

/-- A quote, a backslash and a closing bracket are escaped. -/
def escapeParam (value : String) : String :=
  String.ofList (value.toList.flatMap fun c =>
    if c = '"' ∨ c = '\\' ∨ c = ']' then ['\\', c] else [c])

structure SdParam where
  name : SdName
  value : String

structure SdElement where
  id : SdName
  params : List SdParam

inductive StructuredData where
  | nil
  | elements (first : SdElement) (others : List SdElement)

def SdParam.text (param : SdParam) : String :=
  " " ++ param.name ++ "=\"" ++ escapeParam param.value ++ "\""

/-- An element without its brackets. -/
def SdElement.body (element : SdElement) : String :=
  element.id ++ String.join (element.params.map SdParam.text)

def SdElement.text (element : SdElement) : String :=
  "[" ++ element.body ++ "]"

def StructuredData.text : StructuredData → String
  | .nil => "-"
  | .elements first others => String.join ((first :: others).map SdElement.text)

/-- No structured data, or one element whose values are free of closing brackets. -/
def StructuredData.Simple : StructuredData → Prop
  | .nil => True
  | .elements first others =>
      others = [] ∧ ∀ param, param ∈ first.params → ']' ∉ param.value.toList

/-- What a line of RFC 5424 says. -/
structure Rfc5424 where
  priority : Fin 192
  timestamp : Without [' ']
  host : Without [' ']
  app : Without [' ']
  procid : Without [' ']
  msgid : Without [' ']
  data : StructuredData
  message : Option { m : String // ∀ c, c ∈ m.toList.head? → isWhitespace c = false }

theorem bracket_mem_escapeParam {value : String} :
    ']' ∈ (escapeParam value).toList ↔ ']' ∈ value.toList := by
  rw [escapeParam, String.toList_ofList, List.mem_flatMap]
  constructor
  · rintro ⟨c, member, here⟩
    split at here
    · rcases List.mem_cons.mp here with impossible | last
      · cases impossible
      · exact List.mem_singleton.mp last ▸ member
    · exact List.mem_singleton.mp here ▸ member
  · intro member
    exact ⟨']', member, by decide⟩

theorem SdParam.bracket_mem {param : SdParam} :
    ']' ∈ param.text.toList ↔ ']' ∈ param.value.toList := by
  have name : ']' ∉ param.name.val.toList := fun member =>
    param.name.property ']' member (by decide)
  have texts : ']' ∉ (" " : String).toList ∧ ']' ∉ ("=\"" : String).toList ∧
      ']' ∉ ("\"" : String).toList := by
    decide
  simp only [text, String.toList_append, List.mem_append, bracket_mem_escapeParam, name, texts,
    false_or, or_false]

theorem SdElement.bracket_mem {element : SdElement} :
    ']' ∈ element.body.toList ↔
      ∃ param, param ∈ element.params ∧ ']' ∈ param.value.toList := by
  have id : ']' ∉ element.id.val.toList := fun member =>
    element.id.property ']' member (by decide)
  rw [body, String.toList_append, List.mem_append, or_iff_right id, String.toList_join,
    List.mem_flatMap]
  constructor
  · rintro ⟨text, member, here⟩
    rcases List.mem_map.mp member with ⟨param, isParam, rfl⟩
    exact ⟨param, isParam, SdParam.bracket_mem.mp here⟩
  · rintro ⟨param, isParam, here⟩
    exact ⟨param.text, List.mem_map_of_mem isParam, SdParam.bracket_mem.mpr here⟩

namespace StructuredData

theorem trimStart_bracket (rest : String) : trimStart ("[" ++ rest) = "[" ++ rest := by
  apply trimStart_eq_self
  rw [String.toList_append]
  rintro _ ⟨⟩
  rfl

/-- One element is cut off at its end when its values are free of closing brackets. -/
theorem strip_simple {data : StructuredData} (simple : data.Simple) (rest : String) :
    stripStructuredData (data.text ++ rest) = trimStart rest := by
  cases data with
  | nil =>
      have start : trimStart ("-" ++ rest) = "-" ++ rest := by
        apply trimStart_eq_self
        rw [String.toList_append]
        rintro _ ⟨⟩
        rfl
      have noBracket : stripPrefix "[" ("-" ++ rest) = none := by
        apply if_neg
        rw [String.toList_append]
        intro found
        exact absurd (List.cons_prefix_cons.mp found).1 (by decide)
      rw [text, stripStructuredData, start, noBracket]
      dsimp only
      rw [stripPrefix_append]
  | elements first others =>
      rcases simple with ⟨rfl, free⟩
      have closed : ']' ∉ first.body.toList := fun member =>
        (SdElement.bracket_mem.mp member).elim fun param both => free param both.1 both.2
      have shape : text (.elements first []) ++ rest = "[" ++ (first.body ++ ("]" ++ rest)) := by
        rw [text, List.map_singleton, String.join_cons, String.join_nil, String.append_empty,
          SdElement.text, String.append_assoc, String.append_assoc]
      rw [shape, stripStructuredData, trimStart_bracket, stripPrefix_append]
      dsimp only
      rw [splitOnce_append rfl closed]

/-- All other structured data has a closing bracket before its last one. -/
theorem two_brackets {data : StructuredData} (notSimple : ¬ data.Simple) :
    ∃ before between, data.text = "[" ++ (before ++ ("]" ++ (between ++ "]"))) := by
  cases data with
  | nil => exact absurd trivial notSimple
  | elements first others =>
      rcases List.eq_nil_or_concat others with rfl | ⟨init, last, rfl⟩
      · have bracket : ']' ∈ first.body.toList := by
          by_contra closed
          exact notSimple ⟨rfl, fun param isParam here =>
            closed (SdElement.bracket_mem.mpr ⟨param, isParam, here⟩)⟩
        rcases List.append_of_mem bracket with ⟨before, between, body⟩
        have split : first.body = String.ofList before ++ ("]" ++ String.ofList between) := by
          apply String.toList_injective
          simp only [body, String.toList_append, String.toList_ofList]
          rfl
        refine ⟨String.ofList before, String.ofList between, ?_⟩
        rw [text, List.map_singleton, String.join_cons, String.join_nil, String.append_empty,
          SdElement.text, split]
        simp only [String.append_assoc]
      · refine ⟨first.body, String.join (init.map SdElement.text) ++ ("[" ++ last.body), ?_⟩
        rw [text, List.map_cons, String.join_cons, List.concat_eq_append, List.map_append,
          String.join_append, List.map_singleton, String.join_cons, String.join_nil,
          String.append_empty, SdElement.text, SdElement.text]
        simp only [String.append_assoc]

/-- Of all other structured data a bracket is left in front of the message. -/
theorem strip_other {data : StructuredData} (notSimple : ¬ data.Simple) (rest : String) :
    ∃ kept, stripStructuredData (data.text ++ rest) = kept ++ ("]" ++ rest) := by
  rcases two_brackets notSimple with ⟨before, between, shape⟩
  have text : data.text ++ rest =
      "[" ++ (before ++ ("]" ++ (between ++ ("]" ++ rest)))) := by
    rw [shape]
    simp only [String.append_assoc]
  have shut : ("]" : String).toList = [']'] := rfl
  rcases splitOnce_first shut before (between ++ ("]" ++ rest)) with ⟨cut, between', found⟩
  rw [text, stripStructuredData, trimStart_bracket, stripPrefix_append]
  dsimp only
  rw [found]
  dsimp only
  rw [← String.append_assoc]
  exact trimStart_keeps shut rfl _ rest

end StructuredData

namespace Rfc5424

variable (entry : Rfc5424)

/-- The message with the space in front of it. -/
def tail : String :=
  entry.message.elim "" fun m => " " ++ m

/-- The line; its version is 1. -/
def line : String :=
  "<" ++ toString entry.priority.val ++ ">" ++ "1" ++ " " ++ entry.timestamp ++ " " ++ entry.host ++
    " " ++ entry.app ++ " " ++ entry.procid ++ " " ++ entry.msgid ++ " " ++
      entry.data.text ++ entry.tail

/-- The record says what the line says; a nil value is empty. -/
structure Returned (record : Record) : Prop where
  facility : record.fields.get "syslog_facility" =
    some (.number (toString (entry.priority.val / 8)))
  severity : record.fields.get "syslog_severity" =
    some (.number (toString (entry.priority.val % 8)))
  timestamp : record.fields.get "timestamp" = some (.string (nilToEmpty entry.timestamp))
  host : record.fields.get "host" = some (.string (nilToEmpty entry.host))
  app : record.fields.get "app" = some (.string (nilToEmpty entry.app))
  procid : record.fields.get "procid" = some (.string (nilToEmpty entry.procid))
  msgid : record.fields.get "msgid" = some (.string (nilToEmpty entry.msgid))
  message : record.fields.get "message" =
    some (.string (entry.message.elim "" fun m => m))

variable {entry}

theorem parse_line : (parseSyslog entry.line).fields =
    strField (strField (strField (strField (strField (strField (priorityFields entry.priority)
      "timestamp" entry.timestamp) "host" (nilToEmpty entry.host)) "app" (nilToEmpty entry.app))
      "procid" (nilToEmpty entry.procid)) "msgid" (nilToEmpty entry.msgid))
      "message" (stripStructuredData (entry.data.text ++ entry.tail)) := by
  have small : entry.priority.val < 2 ^ 16 := by omega
  have shape : entry.line = "<" ++ (toString entry.priority.val ++ (">" ++ ("1" ++ (" " ++
      (entry.timestamp ++ (" " ++ (entry.host ++ (" " ++ (entry.app ++ (" " ++ (entry.procid ++
        (" " ++ (entry.msgid ++ (" " ++ (entry.data.text ++ entry.tail))))))))))))))) := by
    delta line
    simp only [String.append_assoc]
  have new : ∀ rest, is5424 ("1" ++ (" " ++ rest)) = true := by
    intro rest
    rw [is5424_append (by decide)]
    decide
  have plain : ∀ s : Without [' '], ' ' ∉ s.val.toList := fun s member =>
    s.property ' ' member List.mem_cons_self
  rw [parseSyslog, shape, parsePriority_line small]
  dsimp only
  rw [new, if_pos rfl, parse5424, splitn_append rfl (by decide), splitn_append rfl (plain _),
    splitn_append rfl (plain _), splitn_append rfl (plain _), splitn_append rfl (plain _),
    splitn_append rfl (plain _), splitn_one]
  rfl

theorem nilToEmpty_eq_self {s : String} : nilToEmpty s = s ↔ s ≠ "-" := by
  rw [nilToEmpty]
  split
  · next isNil =>
      subst isNil
      decide
  · next notNil => exact iff_of_true rfl notNil

/-- Behind simple structured data the message is found. -/
theorem strip_line (simple : entry.data.Simple) :
    stripStructuredData (entry.data.text ++ entry.tail) = entry.message.elim "" fun m => m := by
  have blank : ∀ c, c ∈ (" " : String).toList → isWhitespace c = true := by
    decide
  rw [StructuredData.strip_simple simple, tail]
  cases entry.message with
  | none => rfl
  | some m =>
      rw [Option.elim_some, Option.elim_some, trimStart_blank blank]
      exact trimStart_eq_self m.property

/-- Behind other structured data more than the message is found. -/
theorem strip_line_ne (notSimple : ¬ entry.data.Simple) :
    stripStructuredData (entry.data.text ++ entry.tail) ≠ entry.message.elim "" fun m => m := by
  intro same
  rcases StructuredData.strip_other notSimple entry.tail with ⟨kept, found⟩
  have lengths := congrArg String.length (found.symm.trans same)
  have bracket : ("]" : String).length = 1 := by decide
  rw [String.length_append, String.length_append, bracket, tail] at lengths
  cases message : entry.message with
  | none =>
      rw [message, Option.elim_none, Option.elim_none, String.length_empty] at lengths
      omega
  | some m =>
      rw [message, Option.elim_some, Option.elim_some, String.length_append] at lengths
      omega

/-- A line comes back exactly when its timestamp is not nil and its structured data is nil or
one element without a closing bracket in a value. -/
theorem returned_iff_simple (entry : Rfc5424) : entry.Returned (parseSyslog entry.line) ↔
    entry.timestamp.val ≠ "-" ∧ entry.data.Simple := by
  constructor
  · intro returned
    constructor
    · have same := returned.timestamp
      rw [parse_line] at same
      simp only [get_strField, String.reduceEq, if_false, if_true, Option.some.injEq,
        Json.string.injEq] at same
      exact nilToEmpty_eq_self.mp same.symm
    · by_contra notSimple
      have same := returned.message
      rw [parse_line, get_strField, if_pos rfl, Option.some.injEq, Json.string.injEq] at same
      exact strip_line_ne notSimple same
  · rintro ⟨notNil, simple⟩
    rw [← nilToEmpty_eq_self] at notNil
    constructor <;>
      rw [parse_line] <;> simp only [get_strField, String.reduceEq, if_false, if_true, notNil,
        strip_line simple]
    · rfl
    · rfl

/-- A closing bracket in a value. -/
def bracketInValue : Rfc5424 where
  priority := ⟨165, by decide⟩
  timestamp := ⟨"2003-10-11T22:14:15.003Z", by decide⟩
  host := ⟨"host", by decide⟩
  app := ⟨"evntslog", by decide⟩
  procid := ⟨"1024", by decide⟩
  msgid := ⟨"ID47", by decide⟩
  data := .elements ⟨⟨"x@1", by decide⟩, [⟨⟨"path", by decide⟩, "a]b"⟩]⟩ []
  message := some ⟨"the message", by decide⟩

example : bracketInValue.line =
    "<165>1 2003-10-11T22:14:15.003Z host evntslog 1024 ID47 [x@1 path=\"a\\]b\"] the message" := by
  decide +kernel

/-- The message of this line is read as `b"] the message`. -/
theorem not_returned_bracket : ¬ ∀ entry : Rfc5424, entry.Returned (parseSyslog entry.line) := by
  intro all
  have message := (all bracketInValue).message
  rw [parse_line, get_strField, if_pos rfl, Option.some.injEq, Json.string.injEq] at message
  revert message
  decide +kernel

end Rfc5424

end Ingest
end Sigil
