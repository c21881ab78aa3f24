import Sigil.Ingest.Leef
import Sigil.Library.Keyed

namespace Sigil
namespace Ingest

/-!
# Which LEEF lines come back

A line is written from header values, a delimiter in one of its notations, and attributes.  The
codec reads a delimiter that is a bar or a blank as a tab, cannot cut at an equals sign, and
writes its own message over an attribute of that name.
-/

open Sigil.Core Library Library.Addresses

/-! ## Lines -/

/-- The header field that names the delimiter. -/
inductive DelimiterSpec where
  | empty
  | single (c : Char)
  | hex (zero : Bool) (high low : Char) (areHex : isHexDigit high = true ∧ isHexDigit low = true)

namespace DelimiterSpec

def text : DelimiterSpec → String
  | .empty => ""
  | .single c => String.ofList [c]
  | .hex zero high low _ => String.ofList ((if zero then ['0', 'x'] else ['x']) ++ [high, low])

/-- The character that the field stands for. -/
def stop : DelimiterSpec → Char
  | .empty => '\t'
  | .single c => c
  | .hex _ high low _ => Char.ofNat (16 * hexDigitValue high + hexDigitValue low)

/-- The character at which the codec cuts. -/
def taken : DelimiterSpec → Char
  | .single c => if c = '|' ∨ isWhitespace c then '\t' else c
  | spec => spec.stop

/-- The attribute text that the codec cuts: behind a bar as delimiter the header ends early. -/
def cutText (spec : DelimiterSpec) (attrs : String) : String :=
  if spec.text = "|" then "|" ++ attrs else attrs

/-- The codec reads the delimiter as it is meant, and it is not the sign between a key and its
value. -/
def Understood (spec : DelimiterSpec) : Prop :=
  spec.stop ≠ '=' ∧ spec.text ≠ "|" ∧ spec.taken = spec.stop

instance (spec : DelimiterSpec) : Decidable spec.Understood :=
  inferInstanceAs (Decidable (_ ∧ _))

end DelimiterSpec

/-- The first version has no field for the delimiter, which is a tab. -/
inductive LeefVersion where
  | one
  | two (spec : DelimiterSpec)

namespace LeefVersion

def number : LeefVersion → String
  | .one => "1.0"
  | .two _ => "2.0"

def spec : LeefVersion → DelimiterSpec
  | .one => .empty
  | .two spec => spec

/-- The header field for the delimiter, with the bar behind it. -/
def field : LeefVersion → String
  | .one => ""
  | .two spec => spec.text ++ "|"

end LeefVersion

def leefKeys : List String :=
  ["leef_version", "device_vendor", "device_product", "device_version", "event_id"]

/-- A LEEF line: header values without bars, attributes with different keys that are not blank
at their ends and no names of the header. -/
structure LeefLine where
  version : LeefVersion
  vendor : String
  product : String
  deviceVersion : String
  eventId : String
  attrs : List (String × String)
  noBars : ∀ value, value ∈ [vendor, product, deviceVersion, eventId] → '|' ∉ value.toList
  distinct : (attrs.map Prod.fst).Nodup
  keys : ∀ attr, attr ∈ attrs → trim attr.1 = attr.1 ∧ attr.1 ∉ leefKeys ∧
    '=' ∉ attr.1.toList ∧ version.spec.stop ∉ attr.1.toList
  values : ∀ attr, attr ∈ attrs → version.spec.stop ∉ attr.2.toList

/-- Texts with a character between them. -/
def joinWith (stop : Char) : List String → String
  | [] => ""
  | first :: others =>
      String.ofList (first.toList ++ others.flatMap fun part => stop :: part.toList)

def pairText (attr : String × String) : String :=
  attr.1 ++ ("=" ++ attr.2)

namespace LeefLine

variable (line : LeefLine)

def attrText : String :=
  joinWith line.version.spec.stop (line.attrs.map pairText)

def text : String :=
  "LEEF:" ++ (line.version.number ++ ("|" ++ (line.vendor ++ ("|" ++ (line.product ++ ("|" ++
    (line.deviceVersion ++ ("|" ++ (line.eventId ++ ("|" ++
      (line.version.field ++ line.attrText)))))))))))

/-- The header fields of the record. -/
def header : List (String × String) :=
  [("leef_version", line.version.number), ("device_vendor", line.vendor),
    ("device_product", line.product), ("device_version", line.deviceVersion),
    ("event_id", line.eventId)]

/-- The record has every header value and every attribute. -/
def Kept (record : Record) : Prop :=
  ∀ entry, entry ∈ line.header ++ line.attrs →
    record.fields.get entry.1 = some (.string entry.2)

/-! ## What the codec reads -/

/-- The attributes in the text that the codec cuts. -/
def pairs : List (String × String) :=
  readPairs line.version.spec.taken (line.version.spec.cutText line.attrText)

/-- What the record shows under a name. -/
def shown (name : String) : Option String :=
  if name = "message" then some (messageOf line.eventId line.pairs)
  else (line.pairs.reverse.lookup name).or (line.header.reverse.lookup name)

end LeefLine

/-! ## Reading the delimiter -/

theorem hexDigitValue_lt {c : Char} (hex : isHexDigit c = true) : hexDigitValue c < 16 := by
  have letters : ∀ d : Char, 'a' ≤ d ↔ 97 ≤ d.toNat := fun d => UInt32.le_iff_toNat_le
  have lettersEnd : ∀ d : Char, d ≤ 'f' ↔ d.toNat ≤ 102 := fun d => UInt32.le_iff_toNat_le
  have digits : c.isDigit = true ↔ 48 ≤ c.toNat ∧ c.toNat ≤ 57 := by
    rw [Char.isDigit, Bool.and_eq_true, decide_eq_true_eq, decide_eq_true_eq]
    exact Iff.rfl
  have range := isHexDigit_cases hex
  have zero : '0'.toNat = 48 := rfl
  have small : 'a'.toNat = 97 := rfl
  have capital : 'A'.toNat = 65 := rfl
  unfold hexDigitValue
  split
  · next isDigit =>
      have := digits.mp isDigit
      omega
  · next noDigit =>
      have noDigit := mt digits.mpr noDigit
      split
      · next isSmall =>
          have := (letters c).mp isSmall.1
          omega
      · next notSmall =>
          have notSmall : ¬ (97 ≤ c.toNat ∧ c.toNat ≤ 102) := fun range =>
            notSmall ⟨(letters c).mpr range.1, (lettersEnd c).mpr range.2⟩
          omega

theorem fromStrRadix16_two {high low : Char}
    (areHex : isHexDigit high = true ∧ isHexDigit low = true) :
    fromStrRadix16 [high, low] = some (16 * hexDigitValue high + hexDigitValue low) := by
  have highBound := hexDigitValue_lt areHex.1
  have lowBound := hexDigitValue_lt areHex.2
  have digits : withoutSign [high, low] = [high, low] := by
    unfold withoutSign
    split
    · next shape =>
        cases shape
        exact absurd areHex.1 (by decide)
    · rfl
  have value : [high, low].foldl (fun n c => 16 * n + hexDigitValue c) 0 =
      16 * hexDigitValue high + hexDigitValue low := by
    simp
  rw [fromStrRadix16, digits, value]
  apply if_pos
  refine ⟨List.cons_ne_nil _ _, ?_, by omega⟩
  simp [areHex]

theorem charFromU32_two {high low : Char}
    (areHex : isHexDigit high = true ∧ isHexDigit low = true) :
    charFromU32 (16 * hexDigitValue high + hexDigitValue low) =
      some (Char.ofNat (16 * hexDigitValue high + hexDigitValue low)) := by
  have highBound := hexDigitValue_lt areHex.1
  have lowBound := hexDigitValue_lt areHex.2
  exact if_pos (Or.inl (by omega))

theorem parseDelim_eq {s : String} (plain : ∀ c, c ∈ s.toList → isWhitespace c = false)
    (nonempty : s ≠ "") :
    parseDelim s = ((((stripPrefix "0x" s).or (stripPrefix "x" s)).bind fun hex =>
      fromStrRadix16 hex.toList).bind charFromU32).getD (s.toList.head?.getD '\t') := by
  rw [parseDelim, trim_eq_self plain]
  exact if_neg nonempty

theorem parseDelim_single {c : Char} (visible : isWhitespace c = false) :
    parseDelim (String.ofList [c]) = c := by
  by_cases isX : c = 'x'
  · subst isX
    decide
  · have noZero : ¬ "0x".toList <+: (String.ofList [c]).toList := by
      simp
    have noX : ¬ "x".toList <+: (String.ofList [c]).toList := by
      simp [Ne.symm isX]
    rw [parseDelim_eq (by simp [visible]) (by simp), stripPrefix_eq_none noZero,
      stripPrefix_eq_none noX, String.toList_ofList]
    rfl

theorem parseDelim_hex (zero : Bool) {high low : Char}
    (areHex : isHexDigit high = true ∧ isHexDigit low = true) :
    parseDelim (DelimiterSpec.hex zero high low areHex).text =
      (DelimiterSpec.hex zero high low areHex).stop := by
  have plain : ∀ c, c ∈ (DelimiterSpec.hex zero high low areHex).text.toList →
      isWhitespace c = false := by
    have highPlain := isWhitespace_of_isHexDigit areHex.1
    have lowPlain := isWhitespace_of_isHexDigit areHex.2
    intro c member
    rw [DelimiterSpec.text, String.toList_ofList] at member
    cases zero with
    | true =>
        simp only [if_true, List.cons_append, List.nil_append, List.mem_cons, List.not_mem_nil,
          or_false] at member
        rcases member with rfl | rfl | rfl | rfl
        · rfl
        · rfl
        · exact highPlain
        · exact lowPlain
    | false =>
        simp only [Bool.false_eq_true, if_false, List.cons_append, List.nil_append, List.mem_cons,
          List.not_mem_nil, or_false] at member
        rcases member with rfl | rfl | rfl
        · rfl
        · exact highPlain
        · exact lowPlain
  have number : (stripPrefix "0x" (DelimiterSpec.hex zero high low areHex).text).or
      (stripPrefix "x" (DelimiterSpec.hex zero high low areHex).text) =
        some (String.ofList [high, low]) := by
    cases zero with
    | true =>
        have shape :
            (DelimiterSpec.hex true high low areHex).text = "0x" ++ String.ofList [high, low] := by
          apply String.toList_injective
          simp [DelimiterSpec.text]
        rw [shape, stripPrefix_append]
        rfl
    | false =>
        have shape :
            (DelimiterSpec.hex false high low areHex).text = "x" ++ String.ofList [high, low] := by
          apply String.toList_injective
          simp [DelimiterSpec.text]
        rw [shape, stripPrefix_append, stripPrefix_eq_none (by simp)]
        rfl
  rw [parseDelim_eq plain (by cases zero <;> simp [DelimiterSpec.text]), number, Option.bind_some,
    String.toList_ofList, fromStrRadix16_two areHex, Option.bind_some, charFromU32_two areHex]
  rfl

/-- The codec takes this character for a delimiter field. -/
theorem parseDelim_text {spec : DelimiterSpec} (noBar : spec.text ≠ "|") :
    parseDelim spec.text = spec.taken := by
  cases spec with
  | empty => decide
  | single c =>
      have notBar : c ≠ '|' := by
        rintro rfl
        exact noBar rfl
      by_cases blank : isWhitespace c = true
      · have gone : trim (String.ofList [c]) = "" := by
          simp [trim, blank]
        have read : parseDelim (String.ofList [c]) = '\t' := by
          rw [parseDelim, gone]
          exact if_pos rfl
        exact read.trans (if_pos (Or.inr blank)).symm
      · rw [DelimiterSpec.text, parseDelim_single (Bool.eq_false_iff.mpr blank)]
        exact (if_neg (by simp [notBar, blank])).symm
  | hex zero high low areHex => exact parseDelim_hex zero areHex

namespace LeefLine

variable (line : LeefLine)

/-! ## Parsing a line -/

/-- The parts behind the event identifier: the delimiter field, if there is one, and the
attributes. -/
def cutParts : LeefVersion → String → List String
  | .one, attrs => [attrs]
  | .two spec, attrs => [if spec.text = "|" then "" else spec.text, spec.cutText attrs]

def segs : List String :=
  line.vendor :: line.product :: line.deviceVersion :: line.eventId ::
    cutParts line.version line.attrText

theorem barShape : "|".toList = '|' :: [] :=
  rfl

theorem noBar_text {spec : DelimiterSpec} (noBar : spec.text ≠ "|") :
    '|' ∉ spec.text.toList := by
  cases spec with
  | empty => exact List.not_mem_nil
  | single c =>
      intro member
      rw [DelimiterSpec.text, String.toList_ofList, List.mem_singleton] at member
      subst member
      exact noBar rfl
  | hex zero high low areHex =>
      intro member
      have notHex : isHexDigit '|' ≠ true := by decide
      cases zero <;> simp [DelimiterSpec.text] at member <;> rcases member with rfl | rfl
      · exact notHex areHex.1
      · exact notHex areHex.2
      · exact notHex areHex.1
      · exact notHex areHex.2

theorem splitn_header (count : Nat) (rest : String) :
    splitn (count + 1 + 4) "|" (line.vendor ++
      ("|" ++ (line.product ++ ("|" ++ (line.deviceVersion ++
      ("|" ++ (line.eventId ++ ("|" ++ rest)))))))) =
    line.vendor :: line.product :: line.deviceVersion :: line.eventId ::
      splitn (count + 1) "|" rest := by
  have noBars := line.noBars
  rw [splitn_append barShape (noBars _ (by simp)), splitn_append barShape (noBars _ (by simp)),
    splitn_append barShape (noBars _ (by simp)), splitn_append barShape (noBars _ (by simp))]

theorem splitn_spec (spec : DelimiterSpec) (attrs : String) :
    splitn 2 "|" (spec.text ++ "|" ++ attrs) =
      [if spec.text = "|" then "" else spec.text, spec.cutText attrs] := by
  by_cases bar : spec.text = "|"
  · have shape : spec.text ++ "|" ++ attrs = "" ++ ("|" ++ ("|" ++ attrs)) := by
      rw [bar, String.empty_append, String.append_assoc]
    rw [shape, splitn_append barShape List.not_mem_nil, splitn_one,
      DelimiterSpec.cutText, if_pos bar, if_pos bar]
  · rw [String.append_assoc, splitn_append barShape (noBar_text bar), splitn_one,
      DelimiterSpec.cutText, if_neg bar, if_neg bar]

theorem splitOnce_leef (rest : String) : splitOnce "LEEF:" ("LEEF:" ++ rest) = some ("", rest) := by
  have cut :=
    splitOnce_append (show ("LEEF:" : String).toList = 'L' :: ['E', 'E', 'F', ':'] from rfl)
    (show 'L' ∉ ("" : String).toList from List.not_mem_nil) rest
  rwa [String.empty_append] at cut

/-- What the codec takes from the delimiter field as it stands after the header is cut. -/
theorem parseDelim_field (spec : DelimiterSpec) :
    parseDelim (if spec.text = "|" then "" else spec.text) = spec.taken := by
  by_cases bar : spec.text = "|"
  · rw [if_pos bar]
    cases spec with
    | empty => exact absurd bar (by decide)
    | single c =>
        have isBar : [c] = ['|'] := by
          rw [← String.toList_ofList (l := [c])]
          exact congrArg String.toList bar
        cases isBar
        decide
    | hex zero high low areHex =>
        have lengths := congrArg (fun text : String => text.toList.length) bar
        cases zero <;> simp [DelimiterSpec.text] at lengths
  · rw [if_neg bar, parseDelim_text bar]

theorem parseLeef_text (raw : List UInt8) :
    parseLeef line.text raw = leefRecord line.version.number line.segs line.version.spec.taken
      (line.version.spec.cutText line.attrText) raw := by
  have number : ∀ rest, splitOnce "|" (line.version.number ++ ("|" ++ rest)) =
      some (line.version.number, rest) := by
    intro rest
    apply splitOnce_append barShape
    cases line.version with
    | one => decide
    | two spec => exact (show '|' ∉ "2.0".toList by decide)
  rw [parseLeef, text, splitOnce_leef]
  dsimp only
  rw [number]
  dsimp only
  cases version : line.version with
  | one =>
      have isOne : (decide ((trim LeefVersion.one.number).toList.head? = some '2')) = false := by
        decide +kernel
      rw [isOne]
      simp only [Bool.false_eq_true, if_false]
      rw [line.splitn_header 0, splitn_one, segs, version]
      have noField : LeefVersion.one.field ++ line.attrText = line.attrText := String.empty_append
      have cut : LeefVersion.one.spec.cutText line.attrText = line.attrText := if_neg (by decide)
      rw [noField, cut]
      rfl
  | two spec =>
      have isTwo :
          (decide ((trim (LeefVersion.two spec).number).toList.head? = some '2')) = true := by
        rw [LeefVersion.number]
        decide +kernel
      rw [isTwo]
      simp only [if_true]
      rw [line.splitn_header 1, LeefVersion.field, splitn_spec, segs, version]
      change _ = leefRecord _ _ spec.taken _ raw
      rw [← parseDelim_field]
      rfl

theorem leefHeader_segs : leefHeader line.version.number line.segs = line.header := by
  have number : trim line.version.number = line.version.number := by
    cases line.version with
    | one => decide +kernel
    | two spec => exact (show trim "2.0" = "2.0" by decide +kernel)
  rw [leefHeader, number]
  rfl

/-- A line shows what its header and the pairs of its attribute text give. -/
theorem get_parseLeef (raw : List UInt8) (name : String) :
    (parseLeef line.text raw).fields.get name = (line.shown name).map Json.string := by
  rw [parseLeef_text, get_leefRecord, leefHeader_segs]
  rfl

/-! ## Which lines are kept -/

/-- Every attribute has a key, and an attribute `message` is the message that the record gets
anyway. -/
def Plain : Prop :=
  (∀ attr, attr ∈ line.attrs → attr.1 ≠ "") ∧
    ∀ v, ("message", v) ∈ line.attrs → v = messageOf line.eventId line.attrs

/-- The text that is cut at another character happens to have the same attributes. -/
structure Coincides : Prop where
  attrs : ∀ attr, attr ∈ line.attrs → attr.1 ≠ "message" →
    line.pairs.reverse.lookup attr.1 = some attr.2
  message : ∀ v, ("message", v) ∈ line.attrs → v = messageOf line.eventId line.pairs
  header : ∀ entry, entry ∈ line.header → ∀ v,
    line.pairs.reverse.lookup entry.1 = some v →
    v = entry.2

variable {line}

theorem keys_header : line.header.map Prod.fst = leefKeys :=
  rfl

theorem lookup_header {entry : String × String} (member : entry ∈ line.header) :
    line.header.reverse.lookup entry.1 = some entry.2 :=
  Keyed.lookup_reverse_of_mem (by rw [keys_header]; decide) member

theorem lookup_header_attr {attr : String × String} (member : attr ∈ line.attrs) :
    line.header.reverse.lookup attr.1 = none := by
  apply Keyed.lookup_eq_none
  rw [List.map_reverse, keys_header, List.mem_reverse]
  exact (line.keys attr member).2.1

theorem kept_iff_shown (raw : List UInt8) :
    line.Kept (parseLeef line.text raw) ↔
      ∀ entry, entry ∈ line.header ++ line.attrs → line.shown entry.1 = some entry.2 := by
  refine forall₂_congr fun entry _ => ?_
  rw [get_parseLeef, ← Option.map_some]
  exact (Option.map_injective fun _ _ => Json.string.inj).eq_iff

theorem kept_iff_coincides (raw : List UInt8) :
    line.Kept (parseLeef line.text raw) ↔ line.Coincides := by
  have notMessage : ∀ entry, entry ∈ line.header → entry.1 ≠ "message" := by
    intro entry member same
    have isKey : entry.1 ∈ leefKeys := keys_header ▸ List.mem_map_of_mem member
    rw [same] at isKey
    exact absurd isKey (by decide)
  rw [kept_iff_shown]
  constructor
  · intro all
    refine ⟨fun attr member other => ?_, fun v member => ?_, fun entry member v found => ?_⟩
    · have same := all attr (List.mem_append_right _ member)
      rwa [shown, if_neg other, lookup_header_attr member, Option.or_none] at same
    · have same := all _ (List.mem_append_right _ member)
      rw [shown, if_pos rfl] at same
      exact (Option.some.inj same).symm
    · have same := all entry (List.mem_append_left _ member)
      rw [shown, if_neg (notMessage entry member), found, Option.some_or] at same
      exact Option.some.inj same
  · intro coincides entry member
    rcases List.mem_append.mp member with inHeader | inAttrs
    · rw [shown, if_neg (notMessage entry inHeader), lookup_header inHeader]
      cases found : line.pairs.reverse.lookup entry.1 with
      | none => rfl
      | some v => rw [coincides.header entry inHeader v found, Option.some_or]
    · by_cases isMessage : entry.1 = "message"
      · rw [shown, if_pos isMessage, coincides.message entry.2 (by rwa [← isMessage])]
      · rw [shown, if_neg isMessage, coincides.attrs entry inAttrs isMessage, Option.some_or]

/-! ## Delimiters that are understood -/

theorem readPair_pairText {attr : String × String} (member : attr ∈ line.attrs) :
    readPair (pairText attr) = if attr.1 = "" then none else some attr := by
  have keys := line.keys attr member
  rw [readPair, pairText,
    splitOnce_append (show ("=" : String).toList = '=' :: [] from rfl) keys.2.2.1, Option.bind_some]
  simp only [keys.1]

theorem filterMap_readPair {attrs : List (String × String)}
    (part : ∀ attr, attr ∈ attrs → attr ∈ line.attrs) :
    (attrs.map pairText).filterMap readPair = attrs.filter fun attr => attr.1 ≠ "" := by
  induction attrs with
  | nil => rfl
  | cons attr attrs inductionHypothesis =>
      rcases List.forall_mem_cons.mp part with ⟨here, later⟩
      rw [List.map_cons, List.filterMap_cons, readPair_pairText here, inductionHypothesis later,
        List.filter_cons]
      by_cases blank : attr.1 = ""
      · simp [blank]
      · simp [blank]

theorem stop_not_mem_pairText (notEquals : line.version.spec.stop ≠ '=') {attr : String × String}
    (member : attr ∈ line.attrs) : line.version.spec.stop ∉ (pairText attr).toList := by
  have inKey := (line.keys attr member).2.2.2
  have inValue := line.values attr member
  rw [pairText, String.toList_append, String.toList_append]
  intro found
  rcases List.mem_append.mp found with found | found
  · exact inKey found
  · rcases List.mem_append.mp found with found | found
    · exact notEquals (List.mem_singleton.mp found)
    · exact inValue found

/-- Where the codec reads the delimiter as it is meant, it reads the attributes that have a key. -/
theorem pairs_of_understood (understood : line.version.spec.Understood) :
    line.pairs = line.attrs.filter fun attr => attr.1 ≠ "" := by
  rcases understood with ⟨notEquals, noBar, taken⟩
  rw [pairs, readPairs, taken, DelimiterSpec.cutText, if_neg noBar, attrText]
  have plain := fun attr (member : attr ∈ line.attrs) => stop_not_mem_pairText notEquals member
  have read := filterMap_readPair (fun attr (member : attr ∈ line.attrs) => member)
  cases attrs : line.attrs with
  | nil => exact (show [""].filterMap readPair = [] by decide)
  | cons first others =>
      rw [attrs] at plain read
      rw [List.map_cons, joinWith, splitChar_joined, ← List.map_cons, read]
      intro part isPart
      rw [← List.map_cons] at isPart
      rcases List.mem_map.mp isPart with ⟨attr, member, rfl⟩
      exact plain attr member

/-- Nothing is lost where all attributes are read, as long as the message is kept. -/
theorem coincides_of_pairs (whole : line.pairs = line.attrs)
    (message : ∀ v, ("message", v) ∈ line.attrs → v = messageOf line.eventId line.attrs) :
    line.Coincides := by
  refine ⟨fun attr member _ => ?_, fun v member => ?_, fun entry member v found => ?_⟩
  · rw [whole]
    exact Keyed.lookup_reverse_of_mem line.distinct member
  · rw [whole]
    exact message v member
  · rw [whole] at found
    have isKey : entry.1 ∈ leefKeys :=
      (keys_header : line.header.map Prod.fst = leefKeys) ▸ List.mem_map_of_mem member
    exact absurd isKey (line.keys _ (Keyed.mem_of_lookup_reverse found)).2.1

theorem coincides_iff_plain (understood : line.version.spec.Understood) :
    line.Coincides ↔ line.Plain := by
  have read := pairs_of_understood understood
  have whole : (∀ attr, attr ∈ line.attrs → attr.1 ≠ "") → line.pairs = line.attrs := by
    intro named
    rw [read]
    exact List.filter_eq_self.mpr fun attr member => decide_eq_true (named attr member)
  constructor
  · intro coincides
    have named : ∀ attr, attr ∈ line.attrs → attr.1 ≠ "" := by
      intro attr member blank
      have found := coincides.attrs attr member (by rw [blank]; decide)
      have inPairs := Keyed.mem_of_lookup_reverse found
      rw [read] at inPairs
      exact of_decide_eq_true (List.mem_filter.mp inPairs).2 blank
    refine ⟨named, fun v member => ?_⟩
    rw [← whole named]
    exact coincides.message v member
  · rintro ⟨named, message⟩
    exact coincides_of_pairs (whole named) message

/-! ## Delimiters that are misread -/

theorem readPair_named {name value : String} (tight : trim name = name)
    (noSign : '=' ∉ name.toList) :
    readPair (name ++ ("=" ++ value)) = if name = "" then none else some (name, value) := by
  rw [readPair, splitOnce_append (show ("=" : String).toList = '=' :: [] from rfl) noSign,
    Option.bind_some]
  simp only [tight]

/-- A pair has nothing of the character at which the text has been cut. -/
theorem not_mem_readPairs {c : Char} {text : String} {pair : String × String}
    (member : pair ∈ readPairs c text) : c ∉ pair.1.toList ∧ c ∉ pair.2.toList := by
  rcases List.mem_filterMap.mp member with ⟨part, isPart, read⟩
  have absent := not_mem_of_mem_splitChar isPart
  rcases Option.bind_eq_some_iff.mp read with ⟨parts, cut, named⟩
  have whole := eq_of_splitOnce cut
  by_cases blank : trim parts.1 = ""
  · rw [if_pos blank] at named
    cases named
  · rw [if_neg blank] at named
    cases named
    rw [whole, String.toList_append, String.toList_append] at absent
    constructor
    · intro found
      exact absent (List.mem_append_left _ (mem_of_mem_trim found))
    · intro found
      exact absent (List.mem_append_right _ (List.mem_append_right _ found))

/-- An equals sign as delimiter leaves no attribute. -/
theorem pairs_of_equals (equals : line.version.spec.stop = '=') : line.pairs = [] := by
  have taken : line.version.spec.taken = '=' := by
    cases spec : line.version.spec with
    | empty =>
        rw [spec] at equals
        exact absurd equals (by decide)
    | single c =>
        rw [spec] at equals
        cases (show c = '=' from equals)
        decide
    | hex zero high low areHex =>
        rw [spec] at equals
        exact equals
  apply List.filterMap_eq_nil_iff.mpr
  intro part isPart
  rw [taken] at isPart
  rw [readPair, splitOnce_eq_none (show ("=" : String).toList = '=' :: [] from rfl)
    (not_mem_of_mem_splitChar isPart)]
  rfl

/-- Any other delimiter that is misread is taken for a tab: a bar or a blank. -/
theorem taken_of_misread {spec : DelimiterSpec} (misread : ¬ spec.Understood)
    (noEquals : spec.stop ≠ '=') :
    spec.taken = '\t' ∧ ((spec.stop = '|' ∧ spec.text = "|") ∨
      (isWhitespace spec.stop = true ∧ spec.text ≠ "|")) := by
  cases spec with
  | empty => exact absurd ⟨by decide, by decide, rfl⟩ misread
  | single c =>
      by_cases bar : c = '|'
      · subst bar
        exact ⟨rfl, Or.inl ⟨rfl, rfl⟩⟩
      · have noBar : (DelimiterSpec.single c).text ≠ "|" := by
          intro same
          apply bar
          have letters := congrArg String.toList same
          rw [DelimiterSpec.text, String.toList_ofList] at letters
          exact (List.cons.inj letters).1
        by_cases blank : isWhitespace c = true
        · exact ⟨if_pos (Or.inr blank), Or.inr ⟨blank, noBar⟩⟩
        · exact absurd ⟨noEquals, noBar, if_neg (by simp [bar, blank])⟩ misread
  | hex zero high low areHex =>
      refine absurd ⟨noEquals, fun same => ?_, rfl⟩ misread
      have lengths := congrArg (fun text : String => text.toList.length) same
      cases zero <;> simp [DelimiterSpec.text] at lengths

/-- Where no pair has a name that matters, only the own message of the line can be an attribute. -/
theorem coincides_iff_own (foreign : ∀ name, name ≠ "message" →
    (name = "msg" ∨ name ∈ leefKeys ∨ name ∈ line.attrs.map Prod.fst) →
      name ∉ line.pairs.map Prod.fst) :
    line.Coincides ↔
      ∀ attr, attr ∈ line.attrs → attr = ("message", "LEEF event " ++ line.eventId) := by
  have absent : ∀ name, name ≠ "message" →
      (name = "msg" ∨ name ∈ leefKeys ∨ name ∈ line.attrs.map Prod.fst) →
        line.pairs.reverse.lookup name = none := by
    intro name other matters
    apply Keyed.lookup_eq_none
    rw [List.map_reverse, List.mem_reverse]
    exact foreign name other matters
  have message : messageOf line.eventId line.pairs = "LEEF event " ++ line.eventId := by
    rw [messageOf, absent "msg" (by decide) (Or.inl rfl)]
    rfl
  constructor
  · intro coincides attr member
    by_cases isMessage : attr.1 = "message"
    · have value := coincides.message attr.2 (by rwa [← isMessage])
      rw [message] at value
      exact Prod.ext isMessage value
    · have found := coincides.attrs attr member isMessage
      rw [absent attr.1 isMessage (Or.inr (Or.inr (List.mem_map_of_mem member)))] at found
      cases found
  · intro own
    refine ⟨fun attr member other => ?_, fun v member => ?_, fun entry member v found => ?_⟩
    · exact absurd (congrArg Prod.fst (own attr member)) other
    · rw [message]
      exact congrArg Prod.snd (own _ member)
    · have isKey : entry.1 ∈ leefKeys :=
        (keys_header : line.header.map Prod.fst = leefKeys) ▸ List.mem_map_of_mem member
      have other : entry.1 ≠ "message" := by
        intro same
        rw [same] at isKey
        exact absurd isKey (by decide)
      rw [absent entry.1 other (Or.inr (Or.inl isKey))] at found
      cases found

/-- No attribute has a tab. -/
def TabFree (line : LeefLine) : Prop :=
  ∀ attr, attr ∈ line.attrs → '\t' ∉ attr.1.toList ∧ '\t' ∉ attr.2.toList

/-- What is cut at tabs has none, and neither has what comes back. -/
theorem tabFree_of_coincides (taken : line.version.spec.taken = '\t')
    (noTab : '\t' ∉ line.eventId.toList) (coincides : line.Coincides) : line.TabFree := by
  have plain : ∀ name value, line.pairs.reverse.lookup name = some value →
      '\t' ∉ name.toList ∧ '\t' ∉ value.toList := by
    intro name value found
    have inPairs := Keyed.mem_of_lookup_reverse found
    rw [pairs, taken] at inPairs
    exact not_mem_readPairs inPairs
  intro attr member
  by_cases isMessage : attr.1 = "message"
  · rw [isMessage, coincides.message attr.2 (by rwa [← isMessage]), messageOf]
    refine ⟨by decide, ?_⟩
    cases found : line.pairs.reverse.lookup "msg" with
    | some value => exact (plain "msg" value found).2
    | none =>
        rw [Option.getD_none, String.toList_append]
        intro inside
        rcases List.mem_append.mp inside with inside | inside
        · exact absurd inside (by decide)
        · exact noTab inside
  · exact plain attr.1 attr.2 (coincides.attrs attr member isMessage)

/-- The attribute text without tabs is one pair: the first key, and all that follows its sign. -/
theorem attrText_cons {attr : String × String} {others : List (String × String)}
    (attrs : line.attrs = attr :: others) :
    line.attrText = attr.1 ++ ("=" ++ (attr.2 ++
      String.ofList (others.flatMap fun other => line.version.spec.stop ::
        (pairText other).toList))) := by
  apply String.toList_injective
  rw [attrText, attrs, List.map_cons, joinWith, pairText]
  simp [List.flatMap_map]

theorem not_mem_attrText (tabFree : line.TabFree) (noTab : '\t' ≠ line.version.spec.stop) :
    '\t' ∉ line.attrText.toList := by
  have plain : ∀ attr, attr ∈ line.attrs → '\t' ∉ (pairText attr).toList := by
    intro attr member inside
    rw [pairText, String.toList_append, String.toList_append] at inside
    rcases List.mem_append.mp inside with inKey | inside
    · exact (tabFree attr member).1 inKey
    · rcases List.mem_append.mp inside with isSign | inValue
      · exact absurd isSign (by decide)
      · exact (tabFree attr member).2 inValue
  cases attrs : line.attrs with
  | nil =>
      rw [attrText, attrs]
      exact List.not_mem_nil
  | cons attr others =>
      rw [attrs] at plain
      rw [attrText, attrs, List.map_cons, joinWith, String.toList_ofList, List.flatMap_map]
      intro inside
      rcases List.mem_append.mp inside with first | later
      · exact plain attr List.mem_cons_self first
      · rcases List.mem_flatMap.mp later with ⟨other, member, inOther⟩
        rcases List.mem_cons.mp inOther with isStop | inText
        · exact noTab isStop
        · exact plain other (List.mem_cons_of_mem _ member) inText

/-- A text in which no tab stands is read as one pair. -/
theorem pairs_of_tabFree (taken : line.version.spec.taken = '\t') (tabFree : line.TabFree)
    (noTab : '\t' ≠ line.version.spec.stop) :
    line.pairs = (readPair (line.version.spec.cutText line.attrText)).toList := by
  have plain := not_mem_attrText tabFree noTab
  have absent : '\t' ∉ (line.version.spec.cutText line.attrText).toList := by
    rw [DelimiterSpec.cutText]
    split
    · rw [String.toList_append]
      intro inside
      rcases List.mem_append.mp inside with isBar | inside
      · exact absurd isBar (by decide)
      · exact plain inside
    · exact plain
  rw [pairs, readPairs, taken, splitChar_plain absent]
  rw [List.filterMap_cons]
  cases readPair (line.version.spec.cutText line.attrText) <;> rfl

/-- A line whose delimiter is misread keeps its attributes if there is none but its own message; a
blank as delimiter does no harm where there is only one attribute, since it stands nowhere. -/
def Spared (line : LeefLine) : Prop :=
  (∀ attr, attr ∈ line.attrs → attr = ("message", "LEEF event " ++ line.eventId)) ∨
    (isWhitespace line.version.spec.stop = true ∧ ∃ key value, line.attrs = [(key, value)] ∧
      key ≠ "" ∧ key ≠ "message" ∧ '\t' ∉ key.toList ∧ '\t' ∉ value.toList)

theorem tabFree_of_spared (noTab : '\t' ∉ line.eventId.toList) (spared : line.Spared) :
    line.TabFree := by
  intro attr member
  rcases spared with own | ⟨-, key, value, attrs, -, -, inKey, inValue⟩
  · rw [own attr member]
    refine ⟨show '\t' ∉ "message".toList by decide, fun inside => ?_⟩
    rw [String.toList_append] at inside
    rcases List.mem_append.mp inside with inside | inside
    · exact absurd inside (by decide)
    · exact noTab inside
  · rw [attrs] at member
    cases List.mem_singleton.mp member
    exact ⟨inKey, inValue⟩

/-- Behind a bar the text starts with one more bar, and so does the only key that is read. -/
theorem coincides_iff_bar (bar : line.version.spec.stop = '|') (text : line.version.spec.text = "|")
    (pairs : line.pairs = (readPair (line.version.spec.cutText line.attrText)).toList) :
    line.Coincides ↔
      ∀ attr, attr ∈ line.attrs → attr = ("message", "LEEF event " ++ line.eventId) := by
  apply coincides_iff_own
  intro name _ matters inPairs
  have noBar : '|' ∉ name.toList := by
    rcases matters with rfl | isHeader | isAttr
    · decide
    · have plain : ∀ key, key ∈ leefKeys → '|' ∉ key.toList := by decide
      exact plain name isHeader
    · rcases List.mem_map.mp isAttr with ⟨attr, member, rfl⟩
      exact bar ▸ (line.keys attr member).2.2.2
  rcases List.mem_map.mp inPairs with ⟨pair, isPair, rfl⟩
  rw [pairs, DelimiterSpec.cutText, if_pos text, Option.mem_toList] at isPair
  apply noBar
  rcases Option.bind_eq_some_iff.mp isPair with ⟨parts, cut, named⟩
  have inKey : '|' ∈ parts.1.toList := by
    have letters := congrArg String.toList (eq_of_splitOnce cut)
    rw [String.toList_append, String.toList_append, String.toList_append] at letters
    cases key : parts.1.toList with
    | nil =>
        rw [key] at letters
        exact absurd (List.cons.inj letters).1 (by decide)
    | cons first others =>
        rw [key] at letters
        exact (List.cons.inj letters).1 ▸ List.mem_cons_self
  by_cases gone : trim parts.1 = ""
  · rw [if_pos gone] at named
    cases named
  · rw [if_neg gone] at named
    cases named
    exact mem_trim_self (by decide) inKey

/-- Behind a blank the first key is read, with all that follows its sign. -/
theorem coincides_iff_blank (blank : isWhitespace line.version.spec.stop = true)
    (noBar : line.version.spec.text ≠ "|") (tabFree : line.TabFree)
    (pairs : line.pairs = (readPair (line.version.spec.cutText line.attrText)).toList) :
    line.Coincides ↔ line.Spared := by
  rw [DelimiterSpec.cutText, if_neg noBar] at pairs
  have ownOnly : (∀ pair, pair ∈ line.pairs → pair.1 = "message") →
      (line.Coincides ↔ ∀ attr, attr ∈ line.attrs →
        attr = ("message", "LEEF event " ++ line.eventId)) := by
    intro onlyMessage
    apply coincides_iff_own
    rintro name other - inPairs
    rcases List.mem_map.mp inPairs with ⟨pair, isPair, rfl⟩
    exact other (onlyMessage pair isPair)
  cases attrs : line.attrs with
  | nil =>
      have noPairs : line.pairs = [] := by
        rw [pairs, attrText, attrs]
        exact (show (readPair "").toList = [] by decide)
      rw [ownOnly (by simp [noPairs]), Spared]
      simp [attrs]
  | cons attr others =>
      have member : attr ∈ line.attrs := attrs ▸ List.mem_cons_self
      rw [attrText_cons attrs,
        readPair_named (line.keys attr member).1 (line.keys attr member).2.2.1]
        at pairs
      by_cases onlyMessage : ∀ other, other ∈ line.attrs → other.1 = "message"
      · rw [ownOnly]
        · constructor
          · exact Or.inl
          · rintro (own | ⟨-, key, value, single, -, other, -, -⟩)
            · exact own
            · exact absurd (onlyMessage (key, value) (single ▸ List.mem_cons_self)) other
        · intro pair isPair
          rw [pairs] at isPair
          split at isPair
          · cases isPair
          · cases List.mem_singleton.mp isPair
            exact onlyMessage attr member
      · constructor
        · intro coincides
          push Not at onlyMessage
          rcases onlyMessage with ⟨other, isAttr, noMessage⟩
          have found := coincides.attrs other isAttr noMessage
          have inPairs := Keyed.mem_of_lookup_reverse found
          rw [pairs] at inPairs
          split at inPairs
          · cases inPairs
          · next some_ =>
              have isFirst := List.mem_singleton.mp inPairs
              have same : other = attr :=
                List.inj_on_of_nodup_map line.distinct isAttr member (Prod.mk.inj isFirst).1
              have noMore : others = [] := by
                cases others with
                | nil => rfl
                | cons next rest =>
                    have lengths := congrArg (fun pair => pair.2.toList.length) isFirst
                    simp [same] at lengths
              rw [same] at noMessage
              exact Or.inr ⟨blank, attr.1, attr.2, by rw [attrs, noMore], some_, noMessage,
                tabFree attr member⟩
        · rintro (own | ⟨-, key, value, single, some_, other, -, -⟩)
          · exact absurd (fun other isAttr => congrArg Prod.fst (own other isAttr)) onlyMessage
          · rw [single] at attrs
            cases attrs
            have whole : line.pairs = line.attrs := by
              rw [pairs, if_neg some_, single]
              simp
            apply coincides_of_pairs whole
            intro v isMessage
            rw [single] at isMessage
            exact absurd (congrArg Prod.fst (List.mem_singleton.mp isMessage)).symm other

/-- A delimiter that is misread spares a line in two cases only. -/
theorem coincides_iff_spared (misread : ¬ line.version.spec.Understood)
    (plain : line.version.spec.stop = '=' ∨ '\t' ∉ line.eventId.toList) :
    line.Coincides ↔ line.Spared := by
  by_cases equals : line.version.spec.stop = '='
  · have noPairs := pairs_of_equals equals
    rw [coincides_iff_own (by simp [noPairs]), Spared, equals]
    simp [show isWhitespace '=' = false by decide]
  · have noTab := plain.resolve_left equals
    rcases taken_of_misread misread equals with ⟨taken, shape⟩
    have noStop : '\t' ≠ line.version.spec.stop := by
      intro isTab
      rcases shape with ⟨bar, -⟩ | ⟨-, noBar⟩
      · rw [bar] at isTab
        exact absurd isTab (by decide)
      · exact misread ⟨equals, noBar, taken.trans isTab⟩
    have read : line.TabFree → (line.Coincides ↔ line.Spared) := by
      intro tabFree
      have pairs := pairs_of_tabFree taken tabFree noStop
      rcases shape with ⟨bar, text⟩ | ⟨blank, noBar⟩
      · rw [coincides_iff_bar bar text pairs, Spared, bar]
        simp [show isWhitespace '|' = false by decide]
      · exact coincides_iff_blank blank noBar tabFree pairs
    constructor
    · intro coincides
      exact (read (tabFree_of_coincides taken noTab coincides)).mp coincides
    · intro spared
      exact (read (tabFree_of_spared noTab spared)).mpr spared

/-- A line comes back exactly if its delimiter is understood, every attribute has a key, and an
attribute `message` is the message anyway; or if its delimiter is misread and it is spared.  A tab
in the event identifier can bring attributes back by chance when the text is cut at tabs. -/
theorem kept_iff (line : LeefLine) (raw : List UInt8) :
    line.Kept (parseLeef line.text raw) ↔
      (line.version.spec.Understood ∧ line.Plain) ∨
        (¬ line.version.spec.Understood ∧
          (line.version.spec.stop = '=' ∨ '\t' ∉ line.eventId.toList) ∧ line.Spared) ∨
        (¬ line.version.spec.Understood ∧
          ¬ (line.version.spec.stop = '=' ∨ '\t' ∉ line.eventId.toList) ∧
          line.Coincides) := by
  rw [kept_iff_coincides]
  by_cases understood : line.version.spec.Understood
  · rw [coincides_iff_plain understood]
    simp [understood]
  · by_cases plain : line.version.spec.stop = '=' ∨ '\t' ∉ line.eventId.toList
    · rw [coincides_iff_spared understood plain]
      simp [understood, plain]
    · simp only [understood, plain, false_and, not_false_eq_true, true_and, false_or]

/-- A line with an attribute that is named like the message. -/
def withMessage : LeefLine where
  version := .one
  vendor := "Lab"
  product := "Sensor"
  deviceVersion := "1.5"
  eventId := "42"
  attrs := [("message", "login failed")]
  noBars := by decide
  distinct := by decide
  keys := by decide +kernel
  values := by decide

/-- The message is lost. -/
theorem not_kept_message :
    ¬ ∀ (line : LeefLine) (raw : List UInt8), line.Kept (parseLeef line.text raw) := by
  intro always
  have kept := (kept_iff_shown []).mp (always withMessage []) ("message", "login failed")
    (List.mem_append_right _ List.mem_cons_self)
  revert kept
  decide +kernel

end LeefLine

end Ingest
end Sigil
