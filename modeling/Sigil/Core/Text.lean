import Mathlib.Data.String.Basic
import Sigil.Library.Words

namespace Sigil
namespace Core

/-!
# Text

The text functions of the standard library that the program uses, as they are
documented.
-/

open Library

/-- ASCII lower case; other characters stay. -/
def toAsciiLowercase (s : String) : String :=
  String.ofList (s.toList.map Char.toLower)

def eqIgnoreAsciiCase (left right : String) : Bool :=
  toAsciiLowercase left = toAsciiLowercase right

/-- The characters with the Unicode property `White_Space`. -/
def isWhitespace (c : Char) : Bool :=
  (9 ≤ c.toNat && c.toNat ≤ 13) || c.toNat = 0x20 || c.toNat = 0x85 || c.toNat = 0xA0 ||
    c.toNat = 0x1680 || (0x2000 ≤ c.toNat && c.toNat ≤ 0x200A) || c.toNat = 0x2028 ||
    c.toNat = 0x2029 || c.toNat = 0x202F || c.toNat = 0x205F || c.toNat = 0x3000

/-- The maximal runs without white space. -/
def splitWhitespace (s : String) : List String :=
  (Words.split isWhitespace s.toList).map String.ofList

/-- Put a text in the place of every occurrence of a character. -/
def replace (c : Char) (text : String) (s : String) : String :=
  String.ofList (s.toList.flatMap fun d => if d = c then text.toList else [d])

/-- The number that decimal digits stand for. -/
def digitsValue (digits : List Char) : Nat :=
  digits.foldl (fun n c => 10 * n + (c.toNat - '0'.toNat)) 0

/-- Read a machine word: an optional plus sign and at least one decimal digit, without
overflow. -/
def parseUsize (s : String) : Option Nat :=
  let digits := match s.toList with
    | '+' :: digits => digits
    | digits => digits
  if digits ≠ [] ∧ digits.all Char.isDigit ∧ digitsValue digits < 2 ^ 64 then
    some (digitsValue digits)
  else none

/-- A text is a literal of a machine word. -/
def UsizeLiteral (n : Nat) (s : String) : Prop :=
  ∃ digits, (s.toList = digits ∨ s.toList = '+' :: digits) ∧ digits ≠ [] ∧
    (∀ c, c ∈ digits → c.isDigit = true) ∧ digitsValue digits = n ∧ n < 2 ^ 64

theorem parseUsize_eq_some_iff {s : String} {n : Nat} :
    parseUsize s = some n ↔ UsizeLiteral n s := by
  have plain : ∀ digits : List Char, (∀ c, c ∈ digits → c.isDigit = true) →
      ∀ rest, digits ≠ '+' :: rest := by
    rintro _ areDigits rest rfl
    exact absurd (areDigits '+' List.mem_cons_self) (by decide)
  rw [parseUsize]
  split
  · next digits equal =>
      rw [Option.ite_none_right_eq_some, List.all_eq_true]
      constructor
      · rintro ⟨⟨nonempty, areDigits, bound⟩, value⟩
        cases value
        exact ⟨digits, Or.inr equal, nonempty, areDigits, rfl, bound⟩
      · rintro ⟨others, either, nonempty, areDigits, rfl, bound⟩
        rcases either with same | same
        · exact absurd (same.symm.trans equal) (plain others areDigits digits)
        · rw [equal] at same
          cases same
          exact ⟨⟨nonempty, areDigits, bound⟩, rfl⟩
  · next noSign =>
      rw [Option.ite_none_right_eq_some, List.all_eq_true]
      constructor
      · rintro ⟨⟨nonempty, areDigits, bound⟩, value⟩
        cases value
        exact ⟨s.toList, Or.inl rfl, nonempty, areDigits, rfl, bound⟩
      · rintro ⟨digits, either, nonempty, areDigits, rfl, bound⟩
        rcases either with same | same
        · cases same
          exact ⟨⟨nonempty, areDigits, bound⟩, rfl⟩
        · exact absurd same (noSign digits)

theorem digitsValue_concat (digits : List Char) (c : Char) :
    digitsValue (digits ++ [c]) = 10 * digitsValue digits + (c.toNat - '0'.toNat) := by
  rw [digitsValue, List.foldl_append]
  rfl

/-- Every machine word has a literal. -/
theorem exists_usizeLiteral {n : Nat} (bound : n < 2 ^ 64) :
    ∃ digits, UsizeLiteral n (String.ofList digits) ∧ ∀ c, c ∈ digits →
      c.isDigit = true := by
  have digit : ∀ d, d < 10 → (Nat.digitChar d).isDigit = true ∧
      (Nat.digitChar d).toNat - '0'.toNat = d := by
    decide
  have decimal : ∃ digits, digits ≠ [] ∧ (∀ c, c ∈ digits → c.isDigit = true) ∧
      digitsValue digits = n := by
    clear bound
    induction n using Nat.strongRecOn with
    | ind n inductionHypothesis =>
        rcases Nat.lt_or_ge n 10 with small | large
        · refine ⟨[Nat.digitChar n], List.cons_ne_nil _ _, fun c member => ?_, ?_⟩
          · exact List.mem_singleton.mp member ▸ (digit n small).1
          · have value := digitsValue_concat [] (Nat.digitChar n)
            rw [(digit n small).2] at value
            exact value.trans (Nat.zero_add n)
        · have smaller : n / 10 < n := Nat.div_lt_self (by omega) (by omega)
          rcases inductionHypothesis _ smaller with ⟨digits, nonempty, areDigits, value⟩
          have last := digit (n % 10) (Nat.mod_lt n (by omega))
          refine ⟨digits ++ [Nat.digitChar (n % 10)],
            List.append_ne_nil_of_left_ne_nil nonempty _, fun c member => ?_, ?_⟩
          · rcases List.mem_append.mp member with before | equal
            · exact areDigits c before
            · exact List.mem_singleton.mp equal ▸ last.1
          · rw [digitsValue_concat, value, last.2]
            exact Nat.div_add_mod n 10
  rcases decimal with ⟨digits, nonempty, areDigits, value⟩
  exact ⟨digits, ⟨digits, Or.inl String.toList_ofList, nonempty, areDigits, value, bound⟩,
    areDigits⟩

/-! ## Splitting and trimming -/

/-- Remove white space at both ends. -/
def trim (s : String) : String :=
  String.ofList ((s.toList.dropWhile isWhitespace).reverse.dropWhile isWhitespace).reverse

/-- The parts between the occurrences of a character. -/
def splitChar (c : Char) (s : String) : List String :=
  (s.toList.splitOnP fun d => d = c).map String.ofList

section SplitChar

variable {c : Char} {front : String}

theorem splitChar_plain (absent : c ∉ front.toList) : splitChar c front = [front] := by
  have none_ : ∀ d, d ∈ front.toList → decide (d = c) = false := fun d member =>
    decide_eq_false fun equal => absent (equal ▸ member)
  rw [splitChar, List.splitOnP_eq_singleton none_, List.map_singleton, String.ofList_toList]

/-- A first part ends in front of the separator. -/
theorem splitChar_ofList (absent : c ∉ front.toList) (rest : List Char) :
    splitChar c (String.ofList (front.toList ++ c :: rest)) = front ::
      splitChar c (String.ofList rest) := by
  have none_ : ∀ d, d ∈ front.toList → decide (d = c) = false := fun d member =>
    decide_eq_false fun equal => absent (equal ▸ member)
  rw [splitChar, String.toList_ofList,
    List.splitOnP_append_cons_of_forall_mem none_ c (decide_eq_true rfl), List.map_cons,
    String.ofList_toList, splitChar, String.toList_ofList]

theorem splitChar_cons (absent : c ∉ front.toList) (rest : String) :
    splitChar c (front ++ (String.singleton c ++ rest)) = front :: splitChar c rest := by
  have cut :
      front ++ (String.singleton c ++ rest) = String.ofList (front.toList ++ c :: rest.toList) := by
    apply String.toList_injective
    rw [String.toList_append, String.toList_append, String.toList_singleton, String.toList_ofList]
    rfl
  rw [cut, splitChar_ofList absent, String.ofList_toList]

/-- The texts with a character in front of each, after a first one. -/
theorem splitChar_joined {first : String} {others : List String}
    (plain : ∀ part, part ∈ first :: others → c ∉ part.toList) :
    splitChar c (String.ofList (first.toList ++ others.flatMap fun part => c :: part.toList)) =
      first :: others := by
  induction others generalizing first with
  | nil =>
      rw [List.flatMap_nil, List.append_nil, String.ofList_toList,
        splitChar_plain (plain first List.mem_cons_self)]
  | cons second others inductionHypothesis =>
      rw [List.flatMap_cons, List.cons_append, splitChar_ofList (plain first List.mem_cons_self),
        inductionHypothesis fun part member => plain part (List.mem_cons_of_mem _ member)]

/-- The character at which a text is cut is in none of the parts. -/
theorem not_mem_of_mem_splitChar {s part : String} (member : part ∈ splitChar c s) :
    c ∉ part.toList := by
  rcases List.mem_map.mp member with ⟨letters, isPart, rfl⟩
  rw [String.toList_ofList]
  intro inside
  exact of_decide_eq_false (Words.plain_of_mem_splitOnP isPart c inside) rfl

end SplitChar

/-- Trimming adds no character. -/
theorem mem_of_mem_trim {s : String} {c : Char} (member : c ∈ (trim s).toList) :
    c ∈ s.toList := by
  rw [trim, String.toList_ofList, List.mem_reverse] at member
  exact (List.dropWhile_sublist _).subset
    (List.mem_reverse.mp ((List.dropWhile_sublist _).subset member))

/-! ## Upper and lower case -/

/-- A character that ASCII lower case changes becomes a small letter. -/
theorem toLower_cases (c : Char) :
    c.toLower = c ∨ (97 ≤ c.toLower.val.toNat ∧ c.toLower.val.toNat ≤ 122) := by
  delta Char.toLower
  split
  · next upper =>
      have low : 65 ≤ c.val.toNat := UInt32.le_iff_toNat_le.mp upper.1
      have high : c.val.toNat ≤ 90 := UInt32.le_iff_toNat_le.mp upper.2
      have sum : (c.val + ('a'.val - 'A'.val)).toNat = c.val.toNat + 32 := by
        rw [UInt32.toNat_add]
        exact Nat.mod_eq_of_lt (show c.val.toNat + 32 < 2 ^ 32 by omega)
      rw [sum]
      exact Or.inr ⟨by omega, by omega⟩
  · exact Or.inl rfl

theorem toLower_toLower (c : Char) : c.toLower.toLower = c.toLower := by
  rcases toLower_cases c with same | ⟨low, _⟩
  · rw [same, same]
  · apply dif_neg
    rintro ⟨_, upper⟩
    have high : c.toLower.val.toNat ≤ 90 := UInt32.le_iff_toNat_le.mp upper
    omega

/-- The tables of the Unicode character database behind the case conversions.  Lower case
is stable: what a character is lowered to is in lower case already. -/
structure CaseTables where
  lower : Char → List Char
  upper : Char → List Char
  cased : Char → Bool
  caseIgnorable : Char → Bool
  lower_sigma : lower 'Σ' = ['σ']
  lower_finalSigma : lower 'ς' = ['ς']
  lower_stable : ∀ c d, d ∈ lower c → d ≠ 'Σ' ∧ lower d = [d]

namespace CaseTables

variable (tables : CaseTables)

/-- Is the first character that is not ignorable a cased one? -/
def caseIgnorableThenCased (text : List Char) : Bool :=
  (text.dropWhile tables.caseIgnorable).head?.any tables.cased

/-- Lower case of a text after some characters, which stand in reverse order.  A capital
sigma at the end of a word becomes a final one. -/
def lowerAfter : List Char → List Char → List Char
  | _, [] => []
  | before, c :: rest =>
      (if c = 'Σ' then
        if tables.caseIgnorableThenCased before && !tables.caseIgnorableThenCased rest then ['ς']
        else ['σ']
      else tables.lower c) ++ lowerAfter (c :: before) rest

def toLowercase (s : String) : String :=
  String.ofList (tables.lowerAfter [] s.toList)

def toUppercase (s : String) : String :=
  String.ofList (s.toList.flatMap tables.upper)

/-- A character that lower case leaves alone. -/
def Lowered (c : Char) : Prop :=
  c ≠ 'Σ' ∧ tables.lower c = [c]

variable {tables}

theorem lowered_lowerAfter (before text : List Char) :
    ∀ c, c ∈ tables.lowerAfter before text → tables.Lowered c := by
  induction text generalizing before with
  | nil =>
      intro c member
      exact absurd member List.not_mem_nil
  | cons x text inductionHypothesis =>
      intro c member
      rcases List.mem_append.mp member with here | later
      · split at here
        · split at here
          · cases List.mem_singleton.mp here
            exact ⟨by decide, tables.lower_finalSigma⟩
          · cases List.mem_singleton.mp here
            exact tables.lower_stable 'Σ' 'σ' (tables.lower_sigma ▸ List.mem_singleton_self _)
        · exact tables.lower_stable x c here
      · exact inductionHypothesis _ c later

theorem lowerAfter_of_lowered {text : List Char} (lowered : ∀ c, c ∈ text → tables.Lowered c)
    (before : List Char) : tables.lowerAfter before text = text := by
  induction text generalizing before with
  | nil => rfl
  | cons c text inductionHypothesis =>
      rcases List.forall_mem_cons.mp lowered with ⟨here, later⟩
      rw [lowerAfter, if_neg here.1, here.2, inductionHypothesis later]
      rfl

theorem toLowercase_toLowercase (s : String) :
    tables.toLowercase (tables.toLowercase s) = tables.toLowercase s := by
  rw [toLowercase, toLowercase, String.toList_ofList,
    lowerAfter_of_lowered (lowered_lowerAfter [] s.toList)]

/-! ### Sigmas

Two texts differ in case only when they have the same letters.  The letter sigma has two small
forms, and lower case takes the form from the place in the word. -/

/-- A small letter, and whether it is the final form of sigma. -/
def form (c : Char) : Char × Bool :=
  if c = 'ς' then ('σ', true) else (c, false)

theorem form_injective : Function.Injective form := by
  intro c d same
  unfold form at same
  split at same
  · next final =>
      split at same
      · next final' => rw [final, final']
      · cases same
  · split at same
    · cases same
    · exact congrArg Prod.fst same

variable (tables) in
/-- The letters of a text after some characters, each with its form. -/
def formsAfter : List Char → List Char → List (Char × Bool)
  | _, [] => []
  | before, c :: rest =>
      (if c = 'Σ' then
        [('σ', tables.caseIgnorableThenCased before && !tables.caseIgnorableThenCased rest)]
      else (tables.lower c).map form) ++ formsAfter (c :: before) rest

variable (tables) in
/-- The letters of a text, each with its form: a sigma is final when it is written so, and when
it is a capital one at the end of a word. -/
def forms (s : String) : List (Char × Bool) :=
  tables.formsAfter [] s.toList

variable (tables) in
/-- The letters of a text, whatever their case and their place. -/
def letters (s : String) : List Char :=
  (s.toList.flatMap tables.lower).map fun c => (form c).1

theorem formsAfter_eq (before text : List Char) :
    tables.formsAfter before text = (tables.lowerAfter before text).map form := by
  induction text generalizing before with
  | nil => rfl
  | cons c text inductionHypothesis =>
      rw [formsAfter, lowerAfter, List.map_append, inductionHypothesis]
      congr 1
      split
      · cases tables.caseIgnorableThenCased before && !tables.caseIgnorableThenCased text <;> rfl
      · rfl

/-- Lower case writes the forms. -/
theorem forms_eq (s : String) : tables.forms s = (tables.toLowercase s).toList.map form := by
  rw [forms, toLowercase, String.toList_ofList, formsAfter_eq]

theorem letters_eq (s : String) : tables.letters s = (tables.forms s).map Prod.fst := by
  have each : ∀ before text, (text.flatMap tables.lower).map (fun c => (form c).1) =
      (tables.formsAfter before text).map Prod.fst := by
    intro before text
    induction text generalizing before with
    | nil => rfl
    | cons c text inductionHypothesis =>
        rw [List.flatMap_cons, List.map_append, inductionHypothesis (c :: before), formsAfter,
          List.map_append]
        congr 1
        split
        · next isSigma =>
            rw [isSigma, tables.lower_sigma]
            rfl
        · rw [List.map_map]
          rfl
  exact each [] s.toList

end CaseTables

end Core
end Sigil
