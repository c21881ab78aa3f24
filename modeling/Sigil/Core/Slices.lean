import Sigil.Core.Text
import Sigil.Library.Addresses
import Sigil.Library.Blanks
import Sigil.Library.Cut
import Sigil.Library.Integers

namespace Sigil
namespace Core

/-!
# Cutting texts

Functions of the standard library that cut a text at a pattern or take something off its
ends, and the numbers that are read from what is left.
-/

open Library

/-- The parts before and after the first occurrence of a pattern. -/
def splitOnce (pattern s : String) : Option (String × String) :=
  (Cut.cut pattern.toList s.toList).map fun parts => (String.ofList parts.1, String.ofList parts.2)

/-- At most so many parts between the occurrences of a pattern. -/
def splitn (count : Nat) (pattern s : String) : List String :=
  (Cut.cutAtMost pattern.toList count s.toList).map String.ofList

/-- All parts between the occurrences of a pattern that is not empty: each of them takes at least
one character. -/
def splitStr (pattern s : String) : List String :=
  splitn (s.toList.length + 1) pattern s

/-- What follows a given start. -/
def stripPrefix (start s : String) : Option String :=
  if start.toList <+: s.toList then some (String.ofList (s.toList.drop start.toList.length))
  else none

/-- Remove white space at the start. -/
def trimStart (s : String) : String :=
  String.ofList (s.toList.dropWhile isWhitespace)

/-- Remove a character at the end, as often as it stands there. -/
def trimEndMatches (c : Char) (s : String) : String :=
  String.ofList (s.toList.reverse.dropWhile fun d => d = c).reverse

/-- The number of bytes of some characters. -/
def byteLength (text : List Char) : Nat :=
  (text.map Char.utf8Size).sum

/-- The parts before and behind so many bytes; nothing inside a character or behind the end. -/
def splitBytes : Nat → List Char → Option (List Char × List Char)
  | 0, text => some ([], text)
  | _ + 1, [] => none
  | index + 1, c :: text =>
      if c.utf8Size ≤ index + 1 then
        (splitBytes (index + 1 - c.utf8Size) text).map fun parts => (c :: parts.1, parts.2)
      else none

/-- Split a text at a byte; without a result the program panics. -/
def splitAt (index : Nat) (s : String) : Option (String × String) :=
  (splitBytes index s.toList).map fun parts => (String.ofList parts.1, String.ofList parts.2)

/-- Read a number of 64 bits: an optional sign and at least one decimal digit, without
overflow. -/
def parseI64 (s : String) : Option Int :=
  let (sign, digits) : Int × List Char := match s.toList with
    | '+' :: digits => (1, digits)
    | '-' :: digits => (-1, digits)
    | digits => (1, digits)
  if digits ≠ [] ∧ digits.all Char.isDigit ∧ Integers.Fits 63 (sign * digitsValue digits) then
    some (sign * digitsValue digits)
  else none

/-- Read a number of 16 bits. -/
def parseU16 (s : String) : Option Nat :=
  (parseUsize s).filter (· < 2 ^ 16)

/-! ## Checks of characters -/

section Checks

variable (p : Char → Prop) [DecidablePred p]

/-- A check of the characters of a text goes through these, not through all characters. -/
instance (priority := high) decidableForallChar (text : List Char) :
    Decidable (∀ c, c ∈ text → p c) :=
  List.decidableBAll p text

instance (priority := high) decidableForallHead : (head : Option Char) →
    Decidable (∀ c, c ∈ head → p c)
  | none => .isTrue fun _ impossible => absurd impossible (Option.not_mem_none _)
  | some c =>
      decidable_of_iff (p c)
        ⟨fun holds _ same => Option.mem_some.mp same ▸ holds, fun all => all c rfl⟩

end Checks

/-! ## Parts of texts -/

variable {pattern : String} {first : Char} {others : List Char}

/-- A text is cut where the pattern has been put. -/
theorem splitOnce_append (shape : pattern.toList = first :: others) {before : String}
    (absent : first ∉ before.toList) (after : String) :
    splitOnce pattern (before ++ (pattern ++ after)) = some (before, after) := by
  rw [splitOnce, String.toList_append, String.toList_append, shape, Cut.cut_append absent,
    Option.map_some, String.ofList_toList, String.ofList_toList]

/-- The parts stand before and behind the pattern. -/
theorem eq_of_splitOnce {pattern s before after : String}
    (found : splitOnce pattern s = some (before, after)) : s = before ++ (pattern ++ after) := by
  rcases Option.map_eq_some_iff.mp found with ⟨parts, cut, same⟩
  cases same
  apply String.toList_injective
  simp only [String.toList_append, String.toList_ofList]
  exact Cut.eq_of_cut cut

theorem splitOnce_eq_none (shape : pattern.toList = first :: others) {s : String}
    (absent : first ∉ s.toList) : splitOnce pattern s = none := by
  rw [splitOnce, shape, Cut.cut_eq_none absent]
  rfl

/-- A text with the pattern in it is cut there or further in front. -/
theorem splitOnce_first (shape : pattern.toList = [first]) (x z : String) :
    ∃ before between, splitOnce pattern (x ++ (pattern ++ z)) = some (before, between ++ z) := by
  by_cases member : first ∈ x.toList
  · rcases List.eq_append_cons_of_mem member with ⟨before, between, text, absent⟩
    have same : x = String.ofList before ++ (pattern ++ String.ofList between) := by
      apply String.toList_injective
      rw [text, String.toList_append, String.toList_append, String.toList_ofList,
        String.toList_ofList, shape]
      rfl
    refine ⟨String.ofList before, String.ofList between ++ pattern, ?_⟩
    rw [same, String.append_assoc, String.append_assoc, String.append_assoc]
    exact splitOnce_append shape (String.toList_ofList.symm ▸ absent) _
  · exact ⟨x, "", (splitOnce_append shape member z).trans (by rw [String.empty_append])⟩

theorem splitn_append (shape : pattern.toList = first :: others) {before : String}
    (absent : first ∉ before.toList) (count : Nat) (after : String) :
    splitn (count + 2) pattern (before ++ (pattern ++ after)) =
      before :: splitn (count + 1) pattern after := by
  rw [splitn, String.toList_append, String.toList_append, shape, Cut.cutAtMost_append absent,
    List.map_cons, String.ofList_toList, splitn, shape]

theorem splitn_one (s : String) : splitn 1 pattern s = [s] := by
  rw [splitn, Cut.cutAtMost, List.map_singleton, String.ofList_toList]

theorem splitn_two (pattern s : String) :
    splitn 2 pattern s = (splitOnce pattern s).elim [s] fun parts => [parts.1, parts.2] := by
  rw [splitn, splitOnce, Cut.cutAtMost]
  cases Cut.cut pattern.toList s.toList with
  | none => simp
  | some parts => rfl

/-- The first part ends where the text ends or the pattern begins. -/
theorem splitn_succ (count : Nat) (pattern s : String) :
    ∃ part parts tail, splitn (count + 1) pattern s = part :: parts ∧ s = part ++ tail ∧
      (tail = "" ∨ ∃ more, tail = pattern ++ more) := by
  have whole : ∃ part parts tail, [s] = part :: parts ∧ s = part ++ tail ∧
      (tail = "" ∨ ∃ more, tail = pattern ++ more) :=
    ⟨s, [], "", rfl, String.append_empty.symm, Or.inl rfl⟩
  cases count with
  | zero =>
      rw [splitn_one]
      exact whole
  | succ count =>
      rw [splitn, Cut.cutAtMost]
      split
      · rw [List.map_singleton, String.ofList_toList]
        exact whole
      · next before after found =>
          refine ⟨String.ofList before,
            (Cut.cutAtMost pattern.toList (count + 1) after).map String.ofList,
            pattern ++ String.ofList after, rfl, ?_, Or.inr ⟨_, rfl⟩⟩
          apply String.toList_injective
          rw [Cut.eq_of_cut found, String.toList_append, String.toList_append, String.toList_ofList,
            String.toList_ofList]

theorem stripPrefix_append (start rest : String) :
    stripPrefix start (start ++ rest) = some rest := by
  rw [stripPrefix, String.toList_append, if_pos (List.prefix_append _ _), List.drop_left,
    String.ofList_toList]

theorem stripPrefix_eq_none {start s : String} (absent : ¬ start.toList <+: s.toList) :
    stripPrefix start s = none :=
  if_neg absent

/-- A text that does not begin with white space stays. -/
theorem trimStart_eq_self {s : String}
    (start : ∀ c, c ∈ s.toList.head? → isWhitespace c = false) :
    trimStart s = s := by
  rw [trimStart, Blanks.dropWhile_tight start, String.ofList_toList]

theorem trimStart_blank {blank : String}
    (isBlank : ∀ c, c ∈ blank.toList → isWhitespace c = true) (s : String) :
    trimStart (blank ++ s) = trimStart s := by
  rw [trimStart, String.toList_append, Blanks.dropWhile_pad isBlank, trimStart]

/-- What follows a character that is no white space is not trimmed. -/
theorem trimStart_keeps {stop : String} {c : Char} (shape : stop.toList = [c])
    (plain : isWhitespace c = false) (s rest : String) :
    ∃ kept, trimStart (s ++ (stop ++ rest)) = kept ++ (stop ++ rest) := by
  have stays : trimStart (stop ++ rest) = stop ++ rest := by
    apply trimStart_eq_self
    rw [String.toList_append, shape]
    rintro _ ⟨⟩
    exact plain
  rw [trimStart, String.toList_append, List.dropWhile_append]
  split
  · exact ⟨"", stays.trans String.empty_append.symm⟩
  · exact ⟨String.ofList (s.toList.dropWhile isWhitespace), by
      rw [String.ofList_append, String.ofList_toList]⟩

/-- A character that has been put behind a text is taken off again. -/
theorem trimEndMatches_append {c : Char} {last : String} (shape : last.toList = [c]) {s : String}
    (absent : c ∉ s.toList) : trimEndMatches c (s ++ last) = s := by
  have stays : s.toList.reverse.dropWhile (fun d => d = c) = s.toList.reverse := by
    apply Blanks.dropWhile_tight
    intro d last
    apply decide_eq_false
    rintro rfl
    exact absent (List.mem_reverse.mp (List.mem_of_head? last))
  have taken : (c :: s.toList.reverse).dropWhile (fun d => d = c) = s.toList.reverse := by
    rw [List.dropWhile_cons, if_pos (decide_eq_true rfl)]
    exact stays
  rw [trimEndMatches, String.toList_append, shape, List.reverse_append, List.reverse_singleton,
    List.singleton_append, taken, List.reverse_reverse, String.ofList_toList]

/-! ## Decimal numbers -/

theorem digitsValue_toDigits (n : Nat) : digitsValue (Nat.toDigits 10 n) = n :=
  Nat.ofDigitChars_ten_toDigits

theorem isDigit_of_mem_toString {n : Nat} {c : Char} (member : c ∈ (toString n).toList) :
    c.isDigit = true := by
  rw [Nat.toString_eq_repr, Nat.toList_repr] at member
  exact Nat.isDigit_of_mem_toDigits (by decide) (by decide) member

theorem parseUsize_toString {n : Nat} (bound : n < 2 ^ 64) : parseUsize (toString n) = some n := by
  refine parseUsize_eq_some_iff.mpr ⟨Nat.toDigits 10 n, Or.inl ?_, Nat.toDigits_ne_nil,
    fun c member => ?_, digitsValue_toDigits n, bound⟩
  · rw [Nat.toString_eq_repr, Nat.toList_repr]
  · exact Nat.isDigit_of_mem_toDigits (by decide) (by decide) member

theorem parseU16_toString {n : Nat} (bound : n < 2 ^ 16) : parseU16 (toString n) = some n := by
  rw [parseU16, parseUsize_toString (by omega)]
  exact Option.filter_eq_some_iff.mpr ⟨rfl, decide_eq_true bound⟩

/-- A printable ASCII character other than the space is no white space. -/
theorem isWhitespace_of_printable {c : Char} (low : 33 ≤ c.toNat) (high : c.toNat ≤ 126) :
    isWhitespace c = false := by
  simp only [isWhitespace, Bool.or_eq_false_iff, Bool.and_eq_false_iff, decide_eq_false_iff_not]
  omega

theorem isWhitespace_of_isDigit {c : Char} (digit : c.isDigit = true) : isWhitespace c = false := by
  rw [Char.isDigit, Bool.and_eq_true, decide_eq_true_eq, decide_eq_true_eq] at digit
  have low : 48 ≤ c.toNat := digit.1
  have high : c.toNat ≤ 57 := digit.2
  exact isWhitespace_of_printable (by omega) (by omega)

theorem isWhitespace_of_isHexDigit {c : Char} (hex : Addresses.isHexDigit c = true) :
    isWhitespace c = false := by
  have range := Addresses.isHexDigit_cases hex
  exact isWhitespace_of_printable (by omega) (by omega)

theorem trim_eq_strip (s : String) : trim s = String.ofList (Blanks.strip isWhitespace s.toList) :=
  rfl

/-- Trimming removes white space only. -/
theorem mem_trim_self {s : String} {c : Char} (plain : isWhitespace c = false)
    (member : c ∈ s.toList) :
    c ∈ (trim s).toList := by
  rw [trim_eq_strip, String.toList_ofList]
  exact Blanks.mem_strip_self plain member

/-- A text without white space has none to be trimmed. -/
theorem trim_eq_self {s : String} (plain : ∀ c, c ∈ s.toList → isWhitespace c = false) :
    trim s = s := by
  rw [trim_eq_strip, (Blanks.tight_of_plain plain).strip_eq, String.ofList_toList]

theorem trim_toString (n : Nat) : trim (toString n) = toString n :=
  trim_eq_self fun _ member => isWhitespace_of_isDigit (isDigit_of_mem_toString member)

/-- A character that is no digit does not stand in a decimal number. -/
theorem not_mem_toString {n : Nat} {c : Char} (noDigit : c.isDigit = false) :
    c ∉ (toString n).toList := by
  intro member
  rw [isDigit_of_mem_toString member] at noDigit
  cases noDigit

/-! ## Bytes and signed numbers -/

theorem splitBytes_append (first second : List Char) (index : Nat) :
    splitBytes (byteLength first + index) (first ++ second) =
      (splitBytes index second).map fun parts => (first ++ parts.1, parts.2) := by
  induction first with
  | nil => simp [byteLength]
  | cons c first inductionHypothesis =>
      have size := c.utf8Size_pos
      have whole :
          byteLength (c :: first) + index = (c.utf8Size - 1 + byteLength first + index) + 1 := by
        rw [byteLength, List.map_cons, List.sum_cons, byteLength]
        omega
      rw [whole, List.cons_append, splitBytes, if_pos (by omega)]
      have rest : c.utf8Size - 1 + byteLength first + index + 1 - c.utf8Size =
          byteLength first + index := by
        omega
      rw [rest, inductionHypothesis]
      cases splitBytes index second <;> simp

/-- The front of a split has so many bytes. -/
theorem splitBytes_eq_some_iff {index : Nat} {text front back : List Char} :
    splitBytes index text = some (front, back) ↔
      text = front ++ back ∧ byteLength front = index := by
  constructor
  · intro isSplit
    induction text generalizing index front with
    | nil =>
        cases index with
        | zero =>
            cases isSplit
            exact ⟨rfl, rfl⟩
        | succ index => cases isSplit
    | cons c text inductionHypothesis =>
        cases index with
        | zero =>
            cases isSplit
            exact ⟨rfl, rfl⟩
        | succ index =>
            rw [splitBytes, Option.ite_none_right_eq_some] at isSplit
            rcases Option.map_eq_some_iff.mp isSplit.2 with ⟨parts, rest, same⟩
            cases same
            rcases inductionHypothesis rest with ⟨whole, length⟩
            refine ⟨by rw [whole, List.cons_append], ?_⟩
            rw [byteLength, List.map_cons, List.sum_cons, ← byteLength, length]
            omega
  · rintro ⟨rfl, rfl⟩
    have isSplit := splitBytes_append front back 0
    rw [Nat.add_zero] at isSplit
    rw [isSplit, splitBytes, Option.map_some, List.append_nil]

/-- One byte before the end a text can be split when its last character has one byte. -/
theorem splitBytes_last (front : List Char) (c : Char) :
    splitBytes (byteLength (front ++ [c]) - 1) (front ++ [c]) =
      if c.utf8Size = 1 then some (front, [c]) else none := by
  have size := c.utf8Size_pos
  have whole : byteLength (front ++ [c]) - 1 = byteLength front + (c.utf8Size - 1) := by
    simp only [byteLength, List.map_append, List.sum_append, List.map_singleton, List.sum_singleton]
    omega
  rw [whole, splitBytes_append]
  by_cases one : c.utf8Size = 1
  · simp [one, splitBytes]
  · rcases Nat.exists_eq_succ_of_ne_zero (show c.utf8Size - 1 ≠ 0 by omega)
      with ⟨index, equal⟩
    rw [equal, splitBytes, if_neg (by omega), if_neg one]
    rfl

theorem fits_of_parseI64 {s : String} {n : Int} (read : parseI64 s = some n) :
    Integers.Fits 63 n := by
  simp only [parseI64, Option.ite_none_right_eq_some] at read
  rw [← Option.some.inj read.2]
  exact read.1.2.2

/-- Digits without a sign are read as a natural number. -/
theorem parseI64_nonneg {s : String} (plain : ∀ c ∈ s.toList, c.isDigit = true) {n : Int}
    (read : parseI64 s = some n) : 0 ≤ n := by
  simp only [parseI64, Option.ite_none_right_eq_some] at read
  rw [← Option.some.inj read.2]
  split
  · simp
  · next digits shape =>
      rw [shape] at plain
      exact absurd (plain '-' List.mem_cons_self) (by decide)
  · simp

end Core
end Sigil
