import Sigil.Core.Slices
import Sigil.Library.Blanks

namespace Sigil
namespace Core

/-!
# White space in texts

What `trim`, `trimStart` and `splitWhitespace` do with a text that has been put together from parts
whose ends are known.
-/

open Library

/-- A text that is not empty and has no white space at its ends. -/
structure Trimmed (s : String) : Prop where
  nonempty : s ≠ ""
  tight : Blanks.Tight isWhitespace s.toList

theorem toList_ne_nil {s : String} (some_ : s ≠ "") : s.toList ≠ [] :=
  fun none_ => some_ (String.toList_eq_nil_iff.mp none_)

theorem trimmed_of_plain {s : String} (some_ : s ≠ "")
    (plain : ∀ c, c ∈ s.toList → isWhitespace c = false) :
    Trimmed s :=
  ⟨some_, Blanks.tight_of_plain plain⟩

namespace Trimmed

variable {s t : String}

theorem trim_eq (trimmed : Trimmed s) : trim s = s := by
  rw [trim_eq_strip, trimmed.tight.strip_eq, String.ofList_toList]

theorem trimStart_eq (trimmed : Trimmed s) : trimStart s = s :=
  trimStart_eq_self trimmed.tight.1

/-- Between two such texts anything may stand. -/
theorem between (first : Trimmed s) (second : Trimmed t) (middle : String) :
    Trimmed (s ++ (middle ++ t)) := by
  constructor
  · intro nothing
    rw [String.append_eq_empty_iff] at nothing
    exact first.nonempty nothing.1
  · rw [String.toList_append, String.toList_append]
    exact first.tight.between second.tight (toList_ne_nil first.nonempty)
      (toList_ne_nil second.nonempty) _

end Trimmed

/-- White space that has been put around a text is removed. -/
theorem trim_pad {front back : String}
    (isFront : ∀ c, c ∈ front.toList → isWhitespace c = true)
    (isBack : ∀ c, c ∈ back.toList → isWhitespace c = true) (s : String) :
    trim (front ++ (s ++ back)) = trim s := by
  rw [trim_eq_strip, String.toList_append, String.toList_append, Blanks.strip_pad isFront isBack,
    trim_eq_strip]

theorem isWhitespace_of_trim {s : String} (blank : trim s = "") :
    ∀ c, c ∈ s.toList → isWhitespace c = true := by
  rw [trim_eq_strip, String.ofList_eq_empty_iff] at blank
  exact Blanks.blank_of_strip blank

theorem trim_ne_empty {s : String} {c : Char} (member : c ∈ s.toList)
    (plain : isWhitespace c = false) :
    trim s ≠ "" := by
  intro blank
  rw [isWhitespace_of_trim blank c member] at plain
  cases plain

/-- What stands between two characters that are no white space is not trimmed. -/
theorem mem_trim {s : String} {front middle rest : List Char} {first last c : Char}
    (shape : s.toList = front ++ first :: (middle ++ last :: rest))
    (plainFirst : isWhitespace first = false) (plainLast : isWhitespace last = false)
    (member : c ∈ middle) : c ∈ (trim s).toList := by
  rw [trim_eq_strip, String.toList_ofList, shape]
  exact Blanks.mem_strip plainFirst plainLast member

/-! ## The end -/

/-- No white space stands at the end. -/
def TightEnd (s : String) : Prop :=
  ∀ c, c ∈ s.toList.getLast? → isWhitespace c = false

theorem tightEnd_trim (s : String) : TightEnd (trim s) := by
  rw [TightEnd, trim_eq_strip, String.toList_ofList]
  exact Blanks.last_strip s.toList

/-- Behind a blank stands something at such an end. -/
theorem TightEnd.exists_plain {s before after : String} (tight : TightEnd s)
    (shape : s = before ++ (" " ++ after)) :
    ∃ c, c ∈ after.toList ∧ isWhitespace c = false := by
  have last : s.toList.getLast? = (' ' :: after.toList).getLast? := by
    rw [shape, String.toList_append, String.toList_append]
    exact List.getLast?_append_cons ..
  have found := List.getLast?_eq_some_getLast (List.cons_ne_nil ' ' after.toList)
  have plain := tight _ (last.trans found)
  rcases List.mem_cons.mp (List.mem_of_getLast? found) with blank | member
  · rw [blank] at plain
    exact absurd plain (by decide)
  · exact ⟨_, member, plain⟩

/-! ## The start -/

theorem head_trimStart (s : String) :
    ∀ c, c ∈ (trimStart s).toList.head? → isWhitespace c = false := by
  intro c head
  rw [trimStart, String.toList_ofList] at head
  have stops := List.head?_dropWhile_not isWhitespace s.toList
  rw [Option.mem_def.mp head] at stops
  exact stops

/-- A capital letter is no white space, and neither is the small one. -/
theorem isWhitespace_toLower (c : Char) : isWhitespace c.toLower = isWhitespace c := by
  by_cases changed : c.toLower = c
  · rw [changed]
  · have range : 'A'.val ≤ c.val ∧ c.val ≤ 'Z'.val := by
      by_contra other
      exact changed (dif_neg other)
    have low : 65 ≤ c.toNat := range.1
    have high : c.toNat ≤ 90 := range.2
    rcases toLower_cases c with same | ⟨small, large⟩
    · exact absurd same changed
    · rw [isWhitespace_of_printable (Nat.le_trans (by decide) small)
        (Nat.le_trans large (by decide))]
      exact (isWhitespace_of_printable (by omega) (by omega)).symm

/-! ## Words -/

theorem splitWhitespace_word {word : String} (some_ : word ≠ "")
    (plain : ∀ c, c ∈ word.toList → isWhitespace c = false) (rest : String) :
    splitWhitespace (word ++ (" " ++ rest)) = word :: splitWhitespace rest := by
  have blank : isWhitespace ' ' = true := by decide
  have cut : (word ++ (" " ++ rest)).toList = word.toList ++ ' ' :: rest.toList := by
    rw [String.toList_append, String.toList_append]
    rfl
  rw [splitWhitespace, cut, Words.split_word (toList_ne_nil some_) plain, Words.split_blank blank,
    List.map_cons, String.ofList_toList, splitWhitespace]
  rintro _ ⟨⟩
  exact blank

/-- White space in front of a text is passed over. -/
theorem splitWhitespace_blank {blank : String}
    (isBlank : ∀ c, c ∈ blank.toList → isWhitespace c = true) (rest : String) :
    splitWhitespace (blank ++ rest) = splitWhitespace rest := by
  rw [splitWhitespace, String.toList_append, splitWhitespace]
  apply congrArg
  generalize blank.toList = text at isBlank
  induction text with
  | nil => rfl
  | cons c text inductionHypothesis =>
      rcases List.forall_mem_cons.mp isBlank with ⟨here, later⟩
      rw [List.cons_append, Words.split_blank here, inductionHypothesis later]

theorem splitWhitespace_plain {word : String} (some_ : word ≠ "")
    (plain : ∀ c, c ∈ word.toList → isWhitespace c = false) :
    splitWhitespace word = [word] := by
  rw [splitWhitespace, Blanks.split_plain (toList_ne_nil some_) plain, List.map_singleton,
    String.ofList_toList]

/-- The words of a text have characters, and none of them is white space. -/
theorem word_of_mem_splitWhitespace {s word : String} (member : word ∈ splitWhitespace s) :
    word ≠ "" ∧ ∀ c, c ∈ word.toList → isWhitespace c = false := by
  rcases List.mem_map.mp member with ⟨run, inSplit, rfl⟩
  rw [String.toList_ofList]
  refine ⟨fun empty => Blanks.ne_nil_of_mem_split inSplit ?_, Blanks.plain_of_mem_split inSplit⟩
  rw [← @String.toList_ofList run, empty]
  rfl

/-- Words with blanks between them are split again. -/
theorem splitWhitespace_intercalate {words : List String}
    (areWords : ∀ word, word ∈ words → word ≠ "" ∧ ∀ c, c ∈ word.toList →
      isWhitespace c = false) :
    splitWhitespace (" ".intercalate words) = words := by
  induction words with
  | nil => rfl
  | cons word words inductionHypothesis =>
      rcases List.forall_mem_cons.mp areWords with ⟨⟨some_, plain⟩, others⟩
      cases words with
      | nil => rw [String.intercalate_singleton, splitWhitespace_plain some_ plain]
      | cons next words =>
          rw [String.intercalate_cons_cons, String.append_assoc, splitWhitespace_word some_ plain,
            inductionHypothesis others]

theorem splitWhitespace_ne_nil {s : String} (trimmed : Trimmed s) : splitWhitespace s ≠ [] := by
  rcases List.exists_cons_of_ne_nil (toList_ne_nil trimmed.nonempty) with ⟨c, rest, shape⟩
  have member : c ∈ s.toList := shape ▸ List.mem_cons_self
  have plain : isWhitespace c = false := trimmed.tight.1 c (by rw [shape]; rfl)
  rw [splitWhitespace, ne_eq, List.map_eq_nil_iff]
  exact Blanks.split_ne_nil member plain

/-- The words of a text with one blank between them. -/
theorem toList_intercalate_splitWhitespace (s : String) :
    (" ".intercalate (splitWhitespace s)).toList = Blanks.collapse isWhitespace ' ' s.toList := by
  rw [String.toList_intercalate, splitWhitespace, List.map_map, Blanks.collapse]
  have same : String.toList ∘ String.ofList = id := by
    funext text
    exact String.toList_ofList
  rw [same, List.map_id]
  rfl

/-! ## Parts between separators -/

section Separator

variable {c : Char} {front back : String}

theorem not_mem_blank (plain : isWhitespace c = false) {blank : String}
    (isBlank : ∀ d, d ∈ blank.toList → isWhitespace d = true) : c ∉ blank.toList := by
  intro member
  rw [isBlank c member] at plain
  cases plain

/-- The white space behind a separator goes to the next text, where it stands in front. -/
theorem splitChar_led (isFront : ∀ d, d ∈ front.toList → isWhitespace d = true)
    (isBack : ∀ d, d ∈ back.toList → isWhitespace d = true) (plain : isWhitespace c = false)
    {lead : String} (isLead : ∀ d, d ∈ lead.toList → isWhitespace d = true)
    {texts : List String} (some_ : texts ≠ [])
    (absent : ∀ text, text ∈ texts → c ∉ text.toList) :
    List.Forall₂ (fun raw text => trim raw = trim text)
      (splitChar c (lead ++ (front ++ (String.singleton c ++ back)).intercalate texts)) texts := by
  induction texts generalizing lead with
  | nil => exact absurd rfl some_
  | cons text texts inductionHypothesis =>
      rcases List.forall_mem_cons.mp absent with ⟨here, later⟩
      cases texts with
      | nil =>
          have alone : c ∉ (lead ++ text).toList := by
            rw [String.toList_append, List.mem_append, not_or]
            exact ⟨not_mem_blank plain isLead, here⟩
          have padded : trim (lead ++ (text ++ "")) = trim text :=
            trim_pad isLead (fun _ impossible => absurd impossible List.not_mem_nil) text
          rw [String.append_empty] at padded
          rw [String.intercalate_singleton, splitChar_plain alone]
          exact .cons padded .nil
      | cons next texts =>
          have first : c ∉ (lead ++ (text ++ front)).toList := by
            rw [String.toList_append, String.toList_append, List.mem_append,
              List.mem_append, not_or, not_or]
            exact ⟨not_mem_blank plain isLead, here, not_mem_blank plain isFront⟩
          have cut :
              lead ++ (front ++ (String.singleton c ++ back)).intercalate (text :: next :: texts) =
              (lead ++ (text ++ front)) ++ (String.singleton c ++
                (back ++ (front ++ (String.singleton c ++ back)).intercalate (next :: texts))) := by
            rw [String.intercalate_cons_cons]
            simp only [String.append_assoc]
          rw [cut, splitChar_cons first]
          exact .cons (trim_pad isLead isFront text)
            (inductionHypothesis isBack (List.cons_ne_nil _ _) later)

/-- Texts with a separator between them are found again, up to the white space around it. -/
theorem splitChar_intercalate (isFront : ∀ d, d ∈ front.toList → isWhitespace d = true)
    (isBack : ∀ d, d ∈ back.toList → isWhitespace d = true) (plain : isWhitespace c = false)
    {texts : List String} (some_ : texts ≠ [])
    (absent : ∀ text, text ∈ texts → c ∉ text.toList) :
    List.Forall₂ (fun raw text => trim raw = trim text)
      (splitChar c ((front ++ (String.singleton c ++ back)).intercalate texts)) texts := by
  have noLead : ∀ d, d ∈ "".toList → isWhitespace d = true := fun _ impossible =>
    absurd impossible List.not_mem_nil
  have whole := splitChar_led isFront isBack plain noLead some_ absent
  rwa [String.empty_append] at whole

end Separator

end Core
end Sigil
