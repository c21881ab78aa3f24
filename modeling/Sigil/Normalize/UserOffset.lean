import Sigil.Library.WordBounds
import Sigil.Normalize.Normalizer

namespace Sigil
namespace Normalize

/-!
# Where a user is read

The offset at which a message is cut is counted in its lower case.  Where the text in front of
`for ` has as many bytes in lower case as it has itself, the cut is behind `for `.  Else it is
some bytes further on or further back: inside a word, inside a character or behind the end.
-/

open Sigil.Core Library

/-- The text that stands in front of a user. -/
def forText : List Char :=
  "for ".toList

/-- What the case tables say of the letters of `for `: they and their capitals are lowered to them,
nothing else has one of them in its lower case, and no lower case is empty. -/
structure PlainFor (tables : CaseTables) : Prop where
  image : ∀ c : Char, c.toLower ∈ forText → tables.lower c = [c.toLower]
  only : ∀ c d, d ∈ tables.lower c → d ∈ forText → c.toLower = d
  some_ : ∀ c, tables.lower c ≠ []

/-- The text in front of the first `for `, whatever the case of its letters. -/
def frontOf (msg : String) : Option (List Char) :=
  (Cut.cut forText (msg.toList.map Char.toLower)).map fun parts => msg.toList.take parts.1.length

/-- The number of bytes of a text in lower case. -/
def loweredLength (tables : CaseTables) (text : List Char) : Nat :=
  (text.map fun c => byteLength (tables.lower c)).sum

/-! ## The offset -/

section Offset

variable {tables : CaseTables}

/-- The lower case of a text is made of pieces, one for each character. -/
theorem pieces_lowerAfter (plain : PlainFor tables) (before text : List Char) :
    ∃ pieces, tables.lowerAfter before text = pieces.flatten ∧
      List.Forall₂ (fun c piece => Cut.Replaces Char.toLower forText c piece ∧
        byteLength piece = byteLength (tables.lower c)) text pieces := by
  induction text generalizing before with
  | nil => exact ⟨[], rfl, .nil⟩
  | cons c text inductionHypothesis =>
      rcases inductionHypothesis (c :: before) with ⟨pieces, same, all⟩
      have small : ∀ d, d = 'σ' ∨ d = 'ς' → Cut.Replaces Char.toLower forText 'Σ' [d] ∧
          byteLength [d] = byteLength (tables.lower 'Σ') := by
        rw [tables.lower_sigma]
        rintro d (rfl | rfl)
        · exact ⟨⟨List.cons_ne_nil _ _, by decide, by decide⟩, rfl⟩
        · exact ⟨⟨List.cons_ne_nil _ _, by decide, by decide⟩, by decide⟩
      rw [CaseTables.lowerAfter, same]
      by_cases isSigma : c = 'Σ'
      · subst isSigma
        rw [if_pos rfl]
        split
        · exact ⟨['ς'] :: pieces, rfl, .cons (small 'ς' (Or.inr rfl)) all⟩
        · exact ⟨['σ'] :: pieces, rfl, .cons (small 'σ' (Or.inl rfl)) all⟩
      · rw [if_neg isSigma]
        exact ⟨tables.lower c :: pieces, rfl,
          .cons ⟨⟨plain.some_ c, plain.image c, plain.only c⟩, rfl⟩ all⟩

theorem byteLength_flatten {text : List Char} {pieces : List (List Char)}
    (all : List.Forall₂ (fun c piece => byteLength piece =
      byteLength (tables.lower c)) text pieces) :
    byteLength pieces.flatten = loweredLength tables text := by
  induction all with
  | nil => rfl
  | cons here _ inductionHypothesis =>
      rw [loweredLength, List.map_cons, List.sum_cons, ← loweredLength,
        ← inductionHypothesis, ← here, List.flatten_cons, byteLength,
        List.map_append, List.sum_append]
      rfl

/-- `for ` is found in the lower case of a message behind as many bytes as the text in front of it
has in lower case. -/
theorem find_for (plain : PlainFor tables) (msg : String) :
    (splitOnce "for " (tables.toLowercase msg)).map (fun parts => byteLength parts.1.toList) =
      (frontOf msg).map (loweredLength tables) := by
  rcases pieces_lowerAfter plain [] msg.toList with ⟨pieces, same, all⟩
  have replaces := all.imp fun _ _ both => both.1
  have found := Cut.cut_pieces (by decide) replaces
  have measured :
      ∀ n, byteLength (pieces.take n).flatten = loweredLength tables (msg.toList.take n) :=
    fun n => byteLength_flatten ((List.forall₂_take n all).imp fun _ _ both => both.2)
  rw [splitOnce, CaseTables.toLowercase, same, @String.toList_ofList pieces.flatten, frontOf,
    Option.map_map, Option.map_map]
  have lengths := congrArg (Option.map byteLength) found
  rw [Option.map_map, Option.map_map] at lengths
  refine Eq.trans (Option.map_congr fun parts _ => ?_)
    (lengths.trans (Option.map_congr fun parts _ => ?_))
  · exact congrArg byteLength String.toList_ofList
  · exact measured _

/-- The first word behind the cut, and behind `invalid user ` if that stands there. -/
def userBehind (tail : String) : Option String :=
  (splitWhitespace ((stripPrefix "invalid user " tail).getD tail)).head?

theorem extract_eq (plain : PlainFor tables) (msg : String) :
    extractUserFromMessage tables msg =
      match frontOf msg with
      | none => some none
      | some front => (splitAt (loweredLength tables front + 4) msg).map fun cut =>
        userBehind cut.2 := by
  have offset := find_for plain msg
  rw [extractUserFromMessage]
  cases front : frontOf msg with
  | none =>
      rw [front, Option.map_none, Option.map_eq_none_iff] at offset
      rw [offset]
  | some front_ =>
      rw [front, Option.map_some] at offset
      rcases Option.map_eq_some_iff.mp offset with ⟨parts, found, length⟩
      rw [found]
      dsimp only
      rw [length]
      rfl

end Offset

/-! ## The condition -/

section Condition

variable (tables : CaseTables) (msg : String)

/-- The message is cut into these two parts. -/
structure CutAt (before after : List Char) : Prop where
  whole : msg.toList = before ++ after
  offset : ∃ front, frontOf msg = some front ∧
    byteLength before = loweredLength tables front + 4

/-- If `for ` stands in the message, the offset is at the end of a character of it. -/
def Lands : Prop :=
  frontOf msg ≠ none → ∃ before after, CutAt tables msg before after

/-- Behind the cut stands `invalid user `, or the cut is next to white space, or the first word
behind it stands elsewhere in the message as well. -/
def ReadsWord : Prop :=
  ∀ before after, CutAt tables msg before after → "invalid user ".toList <+: after ∨
    WordBounds.Between isWhitespace before after ∨
    ∀ word rest, Words.split isWhitespace after = word :: rest →
      word ∈ (Words.split isWhitespace before).dropLast ∨ word ∈ rest

variable {tables msg}

theorem splitAt_eq_some_iff {index : Nat} {cut : String × String} :
    splitAt index msg = some cut ↔ ∃ before after, msg.toList = before ++ after ∧
      byteLength before = index ∧ cut = (String.ofList before, String.ofList after) := by
  rw [splitAt, Option.map_eq_some_iff]
  constructor
  · rintro ⟨⟨before, after⟩, isSplit, rfl⟩
    rcases splitBytes_eq_some_iff.mp isSplit with ⟨whole, length⟩
    exact ⟨before, after, whole, length, rfl⟩
  · rintro ⟨before, after, whole, length, rfl⟩
    exact ⟨(before, after), splitBytes_eq_some_iff.mpr ⟨whole, length⟩, rfl⟩

/-- Reading a user panics unless the offset is at the end of a character. -/
theorem extract_isSome_iff (plain : PlainFor tables) :
    (extractUserFromMessage tables msg).isSome = true ↔ Lands tables msg := by
  rw [extract_eq plain, Lands]
  cases front : frontOf msg with
  | none => exact iff_of_true rfl fun impossible => absurd rfl impossible
  | some front_ =>
      rw [Option.isSome_map, Option.isSome_iff_exists]
      simp only [splitAt_eq_some_iff, ne_eq, reduceCtorEq, not_false_eq_true, forall_const]
      constructor
      · rintro ⟨cut, before, after, whole, length, -⟩
        exact ⟨before, after, whole, front_, front, length⟩
      · rintro ⟨before, after, whole, front', isFront, length⟩
        cases Option.some.inj (front.symm.trans isFront)
        exact ⟨_, before, after, whole, length, rfl⟩

theorem extract_eq_user_iff (plain : PlainFor tables) {user : String} :
    extractUserFromMessage tables msg = some (some user) ↔
      ∃ before after, CutAt tables msg before after ∧
        userBehind (String.ofList after) = some user := by
  rw [extract_eq plain]
  cases front : frontOf msg with
  | none =>
      refine ⟨fun impossible => absurd (Option.some.inj impossible)
        (Option.some_ne_none _).symm, ?_⟩
      rintro ⟨before, after, ⟨-, front', isFront, -⟩, -⟩
      cases front.symm.trans isFront
  | some front_ =>
      rw [Option.map_eq_some_iff]
      simp only [splitAt_eq_some_iff]
      constructor
      · rintro ⟨cut, ⟨before, after, whole, length, rfl⟩, isUser⟩
        exact ⟨before, after, ⟨whole, front_, front, length⟩, isUser⟩
      · rintro ⟨before, after, ⟨whole, front', isFront, length⟩, isUser⟩
        cases Option.some.inj (front.symm.trans isFront)
        exact ⟨_, ⟨before, after, whole, length, rfl⟩, isUser⟩

/-! ## The first word behind the cut -/

theorem mem_splitWhitespace_iff {word : List Char} :
    String.ofList word ∈ splitWhitespace msg ↔
      word ∈ Words.split isWhitespace msg.toList := by
  rw [splitWhitespace, List.mem_map_of_injective]
  intro left right same
  rw [← @String.toList_ofList left, same, String.toList_ofList]

theorem head?_splitWhitespace {text : List Char} {user : String} :
    (splitWhitespace (String.ofList text)).head? = some user ↔
      ∃ word rest, Words.split isWhitespace text = word :: rest ∧
        user = String.ofList word := by
  rw [splitWhitespace, String.toList_ofList, List.head?_map, Option.map_eq_some_iff]
  constructor
  · rintro ⟨word, isHead, rfl⟩
    rcases List.head?_eq_some_iff.mp isHead with ⟨rest, shape⟩
    exact ⟨word, rest, shape, rfl⟩
  · rintro ⟨word, rest, shape, rfl⟩
    exact ⟨word, List.head?_eq_some_iff.mpr ⟨rest, shape⟩, rfl⟩

/-- The user behind `invalid user ` is a word of the message. -/
theorem userBehind_invalid {before more : List Char}
    (whole : msg.toList = before ++ ("invalid user ".toList ++ more)) {user : String}
    (isUser : userBehind (String.ofList ("invalid user ".toList ++ more)) = some user) :
    user ∈ splitWhitespace msg := by
  rw [userBehind, String.ofList_append, String.ofList_toList, stripPrefix_append,
    Option.getD_some] at isUser
  rcases head?_splitWhitespace.mp isUser with ⟨word, rest, shape, rfl⟩
  have boundary : WordBounds.Between isWhitespace (before ++ "invalid user ".toList) more := by
    refine Or.inl fun c last => ?_
    rw [List.getLast?_append_of_ne_nil _ (by decide)] at last
    rw [← Option.some.inj last]
    decide
  rw [mem_splitWhitespace_iff, whole, ← List.append_assoc,
    WordBounds.split_append boundary, shape]
  exact List.mem_append_right _ List.mem_cons_self

/-- The user behind a cut is a word of the message in these cases. -/
theorem userBehind_word_iff {before after : List Char} (whole : msg.toList = before ++ after) :
    (∀ user, userBehind (String.ofList after) = some user → user ∈ splitWhitespace msg) ↔
      ("invalid user ".toList <+: after ∨ WordBounds.Between isWhitespace before after ∨
        ∀ word rest, Words.split isWhitespace after = word :: rest →
          word ∈ (Words.split isWhitespace before).dropLast ∨ word ∈ rest) := by
  by_cases invalid : "invalid user ".toList <+: after
  · rcases invalid with ⟨more, rfl⟩
    exact iff_of_true (fun user isUser => userBehind_invalid whole isUser)
      (Or.inl (List.prefix_append _ _))
  · have kept :
        userBehind (String.ofList after) = (splitWhitespace (String.ofList after)).head? := by
      rw [userBehind, stripPrefix_eq_none, Option.getD_none]
      rw [@String.toList_ofList after]
      exact invalid
    rw [kept, or_iff_right invalid]
    constructor
    · intro isWord
      by_cases boundary : WordBounds.Between isWhitespace before after
      · exact Or.inl boundary
      · refine Or.inr fun word rest shape => ?_
        have member := isWord _ (head?_splitWhitespace.mpr ⟨word, rest, shape, rfl⟩)
        rw [mem_splitWhitespace_iff, whole] at member
        exact ((WordBounds.head_mem_split_iff shape).mp member).resolve_left boundary
    · intro either user head
      rcases head?_splitWhitespace.mp head with ⟨word, rest, shape, rfl⟩
      rw [mem_splitWhitespace_iff, whole]
      apply (WordBounds.head_mem_split_iff shape).mpr
      exact either.imp_right fun elsewhere => elsewhere word rest shape

/-- A record is normalized, and a user that is read in its message is a word of it, exactly if the
offset is at the end of a character where a user is looked for, and a word is read there. -/
theorem normalize_iff (plain : PlainFor tables) (self : Normalizer) (id : String) (now : Int)
    (record : Record) (codecKind : String) :
    ((self.normalize tables id now record codecKind).isSome = true ∧
      ∀ user, extractUserFromMessage tables (messageOf record) = some (some user) →
        user ∈ splitWhitespace (messageOf record)) ↔
      (Searched tables record → Lands tables (messageOf record)) ∧
        ReadsWord tables (messageOf record) := by
  rw [normalize_isSome_iff, extract_isSome_iff plain]
  refine and_congr_right fun _ => ?_
  simp only [extract_eq_user_iff plain]
  constructor
  · intro isWord before after cut
    exact (userBehind_word_iff cut.whole).mp fun user isUser =>
      isWord user ⟨before, after, cut, isUser⟩
  · rintro readsWord user ⟨before, after, cut, isUser⟩
    exact (userBehind_word_iff cut.whole).mpr (readsWord before after cut) user isUser

/-! ## Messages whose length does not change -/

theorem utf8Size_of_toLower {c : Char} (letter : c.toLower ∈ forText) : c.utf8Size = 1 := by
  have small : ∀ d, d ∈ forText → d.utf8Size = 1 := by decide
  by_cases changed : c.toLower = c
  · rw [changed] at letter
    exact small c letter
  · have range : 'A'.val ≤ c.val ∧ c.val ≤ 'Z'.val := by
      by_contra other
      exact changed (dif_neg other)
    have high : c.val.toNat ≤ 90 := UInt32.le_iff_toNat_le.mp range.2
    rw [Char.utf8Size_eq_one_iff, UInt32.le_iff_toNat_le]
    exact Nat.le_trans high (by decide)

/-- A character with a space for its lower case is one. -/
theorem eq_space_of_toLower {c : Char} (space : c.toLower = ' ') : c = ' ' := by
  rcases toLower_cases c with same | ⟨low, -⟩
  · exact same.symm.trans space
  · rw [space] at low
    exact absurd low (by decide)

/-- What is `for ` but for the case of its letters has four bytes. -/
theorem byteLength_for {word : List Char} (isFor : word.map Char.toLower = forText) :
    byteLength word = 4 := by
  have sizes : word.map Char.utf8Size = word.map fun _ => 1 := by
    refine List.map_congr_left fun c member => utf8Size_of_toLower ?_
    rw [← isFor]
    exact List.mem_map_of_mem member
  have four : word.length = 4 := by
    rw [← List.length_map, isFor]
    rfl
  rw [byteLength, sizes, List.map_const', List.sum_replicate_nat, four]

theorem between_for {word : List Char} (isFor : word.map Char.toLower = forText)
    (before after : List Char) : WordBounds.Between isWhitespace (before ++ word) after := by
  refine Or.inl fun c last => ?_
  have isLast : (word.map Char.toLower).getLast? = some ' ' := by
    rw [isFor]
    rfl
  rw [List.getLast?_map] at isLast
  rcases Option.map_eq_some_iff.mp isLast with ⟨d, lastOfWord, space⟩
  rw [List.getLast?_append, lastOfWord, Option.some_or] at last
  rw [← Option.some.inj last, eq_space_of_toLower space]
  decide

/-- A message is cut at one place only. -/
theorem CutAt.unique {before after before' after' : List Char} (cut : CutAt tables msg before after)
    (cut' : CutAt tables msg before' after') : before = before' ∧ after = after' := by
  rcases cut.offset with ⟨front, isFront, offset⟩
  rcases cut'.offset with ⟨front', isFront', offset'⟩
  cases Option.some.inj (isFront.symm.trans isFront')
  have same := splitBytes_eq_some_iff.mpr ⟨cut.whole, offset⟩
  have same' := splitBytes_eq_some_iff.mpr ⟨cut'.whole, offset'⟩
  exact Prod.ext_iff.mp (Option.some.inj (same.symm.trans same'))

/-- Where the front has as many bytes in lower case, the cut is behind `for `, and the user is read
as it should be. -/
theorem reads_of_balanced {front : List Char} (isFront : frontOf msg = some front)
    (balanced : loweredLength tables front = byteLength front) :
    Lands tables msg ∧ ReadsWord tables msg := by
  rcases Option.map_eq_some_iff.mp isFront with ⟨parts, found, rfl⟩
  have whole := Cut.eq_of_cut found
  rcases List.map_eq_append_iff.mp whole with ⟨before, others, shape, atBefore, behind⟩
  rcases List.map_eq_append_iff.mp behind with ⟨word, after, rfl, isFor, -⟩
  have length : parts.1.length = before.length := by rw [← atBefore, List.length_map]
  rw [length, shape, List.take_left] at balanced isFront
  have cut : CutAt tables msg (before ++ word) after := by
    refine ⟨by rw [shape, List.append_assoc], before, isFront, ?_⟩
    rw [balanced, ← byteLength_for isFor, byteLength, List.map_append, List.sum_append]
    rfl
  refine ⟨fun _ => ⟨_, _, cut⟩, fun before' after' cut' => ?_⟩
  rcases cut.unique cut' with ⟨rfl, rfl⟩
  exact Or.inr (Or.inl (between_for isFor before after))

end Condition

/-! ## A capital with a dot -/

/-- The lower case of the letters of ASCII, of a capital sigma and of a capital I with a dot, which
becomes two characters with one byte more. -/
def dottedLower (c : Char) : List Char :=
  if c = 'Σ' then ['σ'] else if c = 'İ' then ['i', Char.ofNat 0x307] else [c.toLower]

theorem toLower_ne_of_large {c d : Char} (large : 122 < d.toNat) (different : c ≠ d) :
    c.toLower ≠ d := by
  rcases toLower_cases c with same | ⟨-, small⟩
  · rwa [same]
  · intro equal
    rw [equal] at small
    exact absurd large (Nat.not_lt_of_le small)

theorem dotted_stable (c d : Char) (member : d ∈ dottedLower c) :
    d ≠ 'Σ' ∧ dottedLower d = [d] := by
  unfold dottedLower at member
  split at member
  · cases List.mem_singleton.mp member
    decide
  · next notSigma =>
      split at member
      · rcases List.mem_cons.mp member with rfl | second
        · decide
        · cases List.mem_singleton.mp second
          decide
      · next notDotted =>
          cases List.mem_singleton.mp member
          have first : c.toLower ≠ 'Σ' := toLower_ne_of_large (by decide) notSigma
          have second : c.toLower ≠ 'İ' := toLower_ne_of_large (by decide) notDotted
          rw [dottedLower, if_neg first, if_neg second, toLower_toLower]
          exact ⟨first, rfl⟩

def dottedTables : CaseTables where
  lower := dottedLower
  upper c := [c.toUpper]
  cased c := c.isAlpha
  caseIgnorable c := c = '.'
  lower_sigma := rfl
  lower_finalSigma := by decide
  lower_stable := dotted_stable

theorem plainFor_dotted : PlainFor dottedTables where
  image c letter := by
    have notSigma : c ≠ 'Σ' := by
      rintro rfl
      revert letter
      decide
    have notDotted : c ≠ 'İ' := by
      rintro rfl
      revert letter
      decide
    exact (if_neg notSigma).trans (if_neg notDotted)
  only c d member letter := by
    change d ∈ dottedLower c at member
    unfold dottedLower at member
    split at member
    · cases List.mem_singleton.mp member
      exact absurd letter (by decide)
    · split at member
      · rcases List.mem_cons.mp member with rfl | second
        · exact absurd letter (by decide)
        · cases List.mem_singleton.mp second
          exact absurd letter (by decide)
      · exact (List.mem_singleton.mp member).symm
  some_ c := by
    change dottedLower c ≠ []
    unfold dottedLower
    split
    · exact List.cons_ne_nil _ _
    · split
      · exact List.cons_ne_nil _ _
      · exact List.cons_ne_nil _ _

/-- A record with a message alone. -/
def withMessage (message : String) : Record where
  fields := strField .empty "message" message
  raw := []

/-- A capital behind `for ` does no harm. -/
theorem normalize_iff_dotted :
    extractUserFromMessage dottedTables "Failed password for İbrahim" = some (some "İbrahim") ∧
      (((Normalizer.mk "acme").normalize dottedTables "e1" 0
          (withMessage "Failed password for İbrahim") "syslog").isSome = true ∧
        ∀ user, extractUserFromMessage dottedTables
            (messageOf (withMessage "Failed password for İbrahim")) = some (some user) →
          user ∈ splitWhitespace (messageOf (withMessage "Failed password for İbrahim"))) := by
  refine ⟨by decide +kernel,
    (normalize_iff plainFor_dotted ⟨"acme"⟩ "e1" 0 _ "syslog").mpr ?_⟩
  have isFront : frontOf (messageOf (withMessage "Failed password for İbrahim")) =
      some "Failed password ".toList := by
    decide +kernel
  have reads := @reads_of_balanced dottedTables _ _ isFront (by decide +kernel)
  exact ⟨fun _ => reads.1, reads.2⟩

/-- In front of it the message is cut one byte too late: behind its end, or inside the user. -/
theorem dotted_front_misses :
    (Normalizer.mk "acme").normalize dottedTables "e1" 0
      (withMessage "login İ for ") "syslog" = none ∧
      extractUserFromMessage dottedTables "login İ for root" = some (some "oot") ∧
        "oot" ∉ splitWhitespace "login İ for root" := by
  refine ⟨?_, by decide +kernel, by decide +kernel⟩
  rw [← Option.isNone_iff_eq_none]
  decide +kernel

end Normalize
end Sigil
