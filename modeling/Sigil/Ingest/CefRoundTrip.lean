import Sigil.Ingest.Cef
import Sigil.Library.Keyed

namespace Sigil
namespace Ingest

/-!
# Records of CEF and back

The header fields come back as they are.  A value of the extension comes back unless it has
a backslash in front of an `n`, an `r`, a backslash or a line break: these pairs are left by
the splitter without the escape of the backslash, and are read as escapes of the values.
-/

open Sigil.Core Library

/-! ## Escapes -/

/-- A character of a header field. -/
def escapeHeader (c : Char) : List Char :=
  if c = '\\' ∨ c = '|' then ['\\', c] else [c]

/-- A character of a value. -/
def escapeValue (c : Char) : List Char :=
  if c = '\\' ∨ c = '=' then ['\\', c]
  else if c = '\n' then ['\\', 'n']
  else if c = '\r' then ['\\', 'r']
  else [c]

/-- What the splitter leaves of an escaped character of a value. -/
def leftEscape (c : Char) : List Char :=
  if c = '=' then ['\\', '=']
  else if c = '\n' then ['\\', 'n']
  else if c = '\r' then ['\\', 'r']
  else [c]

/-- A backslash and the next character are read as an escape that they are not. -/
def Misread (c : Char) : Prop :=
  c = 'n' ∨ c = 'r' ∨ c = '\\' ∨ c = '\n' ∨ c = '\r'

instance (c : Char) : Decidable (Misread c) :=
  inferInstanceAs (Decidable (_ ∨ _))

/-- No backslash stands in front of a character with which it is misread. -/
def Plain : List Char → Prop
  | [] => True
  | c :: rest => (c = '\\' → ∀ d, d ∈ rest.head? → ¬ Misread d) ∧ Plain rest

instance Plain.decidable : (text : List Char) → Decidable (Plain text)
  | [] => .isTrue trivial
  | c :: rest =>
      have : Decidable (Plain rest) := Plain.decidable rest
      inferInstanceAs
        (Decidable ((c = '\\' → ∀ d, d ∈ rest.head? → ¬ Misread d) ∧ Plain rest))

theorem leftEscape_other {c : Char} (notEquals : c ≠ '=') (notFeed : c ≠ '\n')
    (notReturn : c ≠ '\r') :
    leftEscape c = [c] := by
  rw [leftEscape, if_neg notEquals, if_neg notFeed, if_neg notReturn]

theorem unescapeFrom_other {c : Char} (noSlash : c ≠ '\\') (rest : List Char) :
    unescapeFrom (c :: rest) = c :: unescapeFrom rest := by
  rw [unescapeFrom] <;> simp [noSlash]

/-- Apart from the backslash a character comes back. -/
theorem unescapeFrom_leftEscape {c : Char} (noSlash : c ≠ '\\') (rest : List Char) :
    unescapeFrom (leftEscape c ++ rest) = c :: unescapeFrom rest := by
  rw [leftEscape]
  split
  · next equal =>
      subst equal
      rfl
  · split
    · next equal =>
        subst equal
        rfl
    · split
      · next equal =>
          subst equal
          rfl
      · exact unescapeFrom_other noSlash rest

/-- What is read of a value that has been written and split. -/
def reread (value : List Char) : List Char :=
  unescapeFrom (value.flatMap leftEscape)

/-- What is read of a backslash and the next character. -/
def rereadPair (c : Char) : List Char :=
  if c = 'n' then ['\n']
  else if c = 'r' then ['\r']
  else if c = '\\' then ['\\']
  else if c = '\n' then ['\\', 'n']
  else if c = '\r' then ['\\', 'r']
  else ['\\', c]

theorem reread_other {c : Char} (noSlash : c ≠ '\\') (rest : List Char) :
    reread (c :: rest) = c :: reread rest := by
  rw [reread, List.flatMap_cons, unescapeFrom_leftEscape noSlash, reread]

theorem reread_slash (c : Char) (rest : List Char) :
    reread ('\\' :: c :: rest) = rereadPair c ++ reread rest := by
  have slash : leftEscape '\\' = ['\\'] := rfl
  rw [reread, List.flatMap_cons, List.flatMap_cons, slash, List.singleton_append, rereadPair]
  by_cases special : c = 'n' ∨ c = 'r' ∨ c = '\\' ∨ c = '\n' ∨ c = '\r' ∨ c = '='
  · rcases special with rfl | rfl | rfl | rfl | rfl | rfl
    · rfl
    · rfl
    · rfl
    · -- the escape of the line break has lost its backslash to the one in front of it
      exact congrArg ('\\' :: ·) (unescapeFrom_other (by decide) _)
    · exact congrArg ('\\' :: ·) (unescapeFrom_other (by decide) _)
    · exact congrArg ('\\' :: ·) (unescapeFrom_other (by decide) _)
  · simp only [not_or] at special
    rcases special with ⟨notN, notR, notSlash, notFeed, notReturn, notEquals⟩
    rw [if_neg notN, if_neg notR, if_neg notSlash, if_neg notFeed, if_neg notReturn,
      leftEscape_other notEquals notFeed notReturn]
    rw [List.singleton_append, unescapeFrom] <;> simp [notN, notR, notSlash, notEquals, reread]

theorem rereadPair_plain {c : Char} (plain : ¬ Misread c) : rereadPair c = ['\\', c] := by
  simp only [Misread, not_or] at plain
  rcases plain with ⟨notN, notR, notSlash, notFeed, notReturn⟩
  rw [rereadPair, if_neg notN, if_neg notR, if_neg notSlash, if_neg notFeed, if_neg notReturn]

theorem length_rereadPair_le (c : Char) : (rereadPair c).length ≤ 2 := by
  rw [rereadPair]
  split_ifs <;> simp

/-- What is read is not longer than what was written. -/
theorem length_reread_le (value : List Char) : (reread value).length ≤ value.length := by
  induction length : value.length using Nat.strongRecOn generalizing value with
  | ind n inductionHypothesis =>
      cases value with
      | nil => exact Nat.zero_le n
      | cons c rest =>
          rw [List.length_cons] at length
          by_cases slash : c = '\\'
          · subst slash
            cases rest with
            | nil => exact length ▸ Nat.le_refl 1
            | cons d rest =>
                rw [List.length_cons] at length
                have shorter := inductionHypothesis rest.length (by omega) rest rfl
                have pair := length_rereadPair_le d
                rw [reread_slash, List.length_append]
                omega
          · have shorter := inductionHypothesis rest.length (by omega) rest rfl
            rw [reread_other slash, List.length_cons]
            omega

theorem reread_misread {c : Char} (misread : Misread c) (rest : List Char) :
    reread ('\\' :: c :: rest) ≠ '\\' :: c :: rest := by
  intro same
  have bound := length_reread_le rest
  have lengths := congrArg List.length same
  rw [reread_slash] at same lengths
  rcases misread with rfl | rfl | rfl | rfl | rfl
  · cases same
  · cases same
  · -- the second backslash is missing
    have one : (rereadPair '\\').length = 1 := rfl
    rw [List.length_append, one, List.length_cons, List.length_cons] at lengths
    omega
  · cases same
  · cases same

/-- A value comes back exactly when no backslash is misread. -/
theorem reread_eq_self_iff (value : List Char) : reread value = value ↔ Plain value := by
  induction length : value.length using Nat.strongRecOn generalizing value with
  | ind n inductionHypothesis =>
      cases value with
      | nil => exact iff_of_true rfl trivial
      | cons c rest =>
          rw [List.length_cons] at length
          by_cases slash : c = '\\'
          · subst slash
            cases rest with
            | nil =>
                refine iff_of_true rfl ⟨fun _ d impossible => ?_, trivial⟩
                exact absurd impossible (Option.not_mem_none d)
            | cons d rest =>
                rw [List.length_cons] at length
                by_cases misread : Misread d
                · refine iff_of_false (reread_misread misread rest) fun plain => ?_
                  exact plain.1 rfl d rfl misread
                · have shorter := inductionHypothesis rest.length (by omega) rest rfl
                  have notSlash : d ≠ '\\' :=
                    fun equal => misread (Or.inr (Or.inr (Or.inl equal)))
                  rw [reread_slash, rereadPair_plain misread]
                  constructor
                  · intro same
                    have kept : reread rest = rest := (List.append_right_inj ['\\', d]).mp same
                    refine ⟨fun _ x here => ?_,
                      fun equal => absurd equal notSlash, shorter.mp kept⟩
                    cases here
                    exact misread
                  · rintro ⟨_, _, plain⟩
                    exact congrArg (['\\', d] ++ ·) (shorter.mpr plain)
          · have shorter := inductionHypothesis rest.length (by omega) rest rfl
            rw [reread_other slash, List.cons_inj_right, shorter]
            exact ⟨fun plain => ⟨fun equal => absurd equal slash, plain⟩,
              fun plain => plain.2⟩

/-! ## Splitting -/

/-- The splitter goes through a text and appends to the part that it is in. -/
def Appends (parts : List String) (text result : List Char) : Prop :=
  ∀ cur rest, splitHeaderFrom parts cur (text ++ rest) =
    splitHeaderFrom parts (cur ++ result) rest

section Splitting

variable {parts : List String}

theorem Appends.append {text text' result result' : List Char} (first : Appends parts text result)
    (second : Appends parts text' result') : Appends parts (text ++ text') (result ++ result') := by
  intro cur rest
  rw [List.append_assoc, first, second, List.append_assoc]

theorem Appends.flatMap {code result : Char → List Char}
    (each : ∀ c, Appends parts (code c) (result c)) (text : List Char) :
    Appends parts (text.flatMap code) (text.flatMap result) := by
  induction text with
  | nil =>
      intro cur rest
      rw [List.flatMap_nil, List.flatMap_nil, List.nil_append, List.append_nil]
  | cons c text inductionHypothesis => exact (each c).append inductionHypothesis

theorem appends_plain {c : Char} (noSlash : c ≠ '\\') (noBar : c = '|' → 7 ≤ parts.length) :
    Appends parts [c] [c] := by
  intro cur rest
  rw [List.singleton_append]
  by_cases bar : c = '|'
  · subst bar
    rw [splitHeaderFrom, if_neg (Nat.not_lt.mpr (noBar rfl))]
  · rw [splitHeaderFrom] <;> simp [noSlash, bar]

theorem appends_slash {c : Char} (notBar : c ≠ '|') (notSlash : c ≠ '\\') :
    Appends parts ['\\', c] ['\\', c] := by
  intro cur rest
  rw [List.cons_append, List.singleton_append, splitHeaderFrom] <;> simp [notBar, notSlash]

theorem appends_escapeHeader (c : Char) : Appends parts (escapeHeader c) [c] := by
  rw [escapeHeader]
  split
  · next special =>
      rcases special with rfl | rfl
      · exact fun cur rest => rfl
      · exact fun cur rest => rfl
  · next plain =>
      rw [not_or] at plain
      exact appends_plain plain.1 fun bar => absurd bar plain.2

/-- In the extension the splitter takes the escape of a backslash away. -/
theorem appends_escapeValue (full : 7 ≤ parts.length) (c : Char) :
    Appends parts (escapeValue c) (leftEscape c) := by
  rw [escapeValue]
  split
  · next special =>
      rcases special with rfl | rfl
      · exact fun cur rest => rfl
      · exact appends_slash (by decide) (by decide)
  · next plain =>
      rw [not_or] at plain
      rw [leftEscape, if_neg plain.2]
      split
      · exact appends_slash (by decide) (by decide)
      · split
        · exact appends_slash (by decide) (by decide)
        · exact appends_plain plain.1 fun _ => full

/-- A text without special characters. -/
theorem appends_text (full : 7 ≤ parts.length) {text : List Char} (noSlash : '\\' ∉ text) :
    Appends parts text text := by
  induction text with
  | nil =>
      intro cur rest
      rw [List.nil_append, List.append_nil]
  | cons c text inductionHypothesis =>
      rw [List.mem_cons, not_or] at noSlash
      exact (appends_plain (Ne.symm noSlash.1) fun _ => full).append (inductionHypothesis noSlash.2)

/-- Header fields are split where they have been joined. -/
theorem splitHeaderFrom_fields (fields : List String) (room : parts.length + fields.length ≤ 7)
    (rest : List Char) :
    splitHeaderFrom parts []
        (fields.flatMap (fun field => field.toList.flatMap escapeHeader ++ ['|']) ++ rest) =
      splitHeaderFrom (parts ++ fields) [] rest := by
  induction fields generalizing parts with
  | nil => rw [List.flatMap_nil, List.nil_append, List.append_nil]
  | cons field fields inductionHypothesis =>
      rw [List.length_cons] at room
      have whole : Appends parts (field.toList.flatMap escapeHeader) field.toList := by
        have each :
            Appends parts (field.toList.flatMap escapeHeader) (field.toList.flatMap fun c => [c]) :=
          Appends.flatMap appends_escapeHeader field.toList
        rwa [List.flatMap_singleton'] at each
      have next : (parts ++ [field]).length + fields.length ≤ 7 := by
        rw [List.length_append, List.length_singleton]
        omega
      rw [List.flatMap_cons, List.append_assoc, List.append_assoc, whole, List.nil_append,
        List.singleton_append, splitHeaderFrom, if_pos (by omega), String.ofList_toList,
        inductionHypothesis next, List.append_assoc, List.singleton_append]

end Splitting

/-! ## Keys and values -/

/-- Pairs of a key and a text, with single spaces between them. -/
def joinPairs : List (List Char × List Char) → List Char
  | [] => []
  | [(key, text)] => key ++ '=' :: text
  | (key, text) :: next :: rest => key ++ '=' :: (text ++ ' ' :: joinPairs (next :: rest))

/-- A letter and characters of a key. -/
def KeyShape (key : List Char) : Prop :=
  ∃ letter run, key = letter :: run ∧ letter.isAlpha = true ∧ ∀ c,
    c ∈ run → isKeyChar c = true

/-- No equals sign stands behind a character of a key. -/
def Quiet : List Char → Prop
  | [] => True
  | c :: rest => (isKeyChar c = true → rest.head? ≠ some '=') ∧ Quiet rest

/-- No white space stands at the ends. -/
def Tight (text : List Char) : Prop :=
  (∀ c, c ∈ text.head? → isWhitespace c = false) ∧
    ∀ c, c ∈ text.getLast? → isWhitespace c = false

instance (text : List Char) : Decidable (Tight text) :=
  inferInstanceAs (Decidable (_ ∧ _))

theorem isKeyChar_of_isAlpha {c : Char} (letter : c.isAlpha = true) : isKeyChar c = true := by
  rw [isKeyChar, Char.isAlphanum, letter]
  rfl

theorem keyMatchesFrom_skip (pos : Nat) (text rest : List Char) :
    keyMatchesFrom pos text.length (text ++ rest) = keyMatchesFrom (pos + text.length) 0 rest := by
  induction text generalizing pos with
  | nil => rfl
  | cons c text inductionHypothesis =>
      rw [List.length_cons, List.cons_append, keyMatchesFrom, inductionHypothesis]
      congr 1
      omega

theorem keyMatchesFrom_key {key : List Char} (shape : KeyShape key) (pos : Nat) (rest : List Char) :
    keyMatchesFrom pos 0 (key ++ '=' :: rest) =
      { key := String.ofList key, start := pos, stop := pos + key.length + 1 } ::
        keyMatchesFrom (pos + key.length + 1) 0 rest := by
  rcases shape with ⟨letter, run, rfl, isLetter, areKeyChars⟩
  have stop : isKeyChar '=' = false := rfl
  have taken : (run ++ '=' :: rest).takeWhile isKeyChar = run := by
    rw [List.takeWhile_append_of_pos areKeyChars, List.takeWhile_cons_of_neg (by rw [stop]; simp),
      List.append_nil]
  have dropped : (run ++ '=' :: rest).dropWhile isKeyChar = '=' :: rest := by
    rw [List.dropWhile_append_of_pos areKeyChars, List.dropWhile_cons_of_neg (by rw [stop]; simp)]
  have skipped := keyMatchesFrom_skip (pos + 1) (run ++ ['=']) rest
  rw [List.length_append, List.length_singleton, List.append_assoc,
    List.singleton_append] at skipped
  have stopSum : pos + run.length + 2 = pos + (run.length + 1) + 1 := by omega
  have restSum : pos + 1 + (run.length + 1) = pos + (run.length + 1) + 1 := by omega
  rw [List.cons_append, keyMatchesFrom, taken, dropped, if_pos ⟨isLetter, rfl⟩, skipped,
    List.length_cons, stopSum, restSum]

/-- In a quiet text the characters of a key run out before an equals sign. -/
theorem dropWhile_quiet {c : Char} (keyChar : isKeyChar c = true) {text rest : List Char}
    (quiet : Quiet (c :: text))
    (stops : ∀ d, d ∈ rest.head? → isKeyChar d = false ∧ d ≠ '=') :
    ((text ++ rest).dropWhile isKeyChar).head? ≠ some '=' := by
  induction text generalizing c with
  | nil =>
      cases rest with
      | nil => exact fun impossible => Option.some_ne_none _ impossible.symm
      | cons d rest =>
          have stop := stops d rfl
          rw [List.nil_append, List.dropWhile_cons_of_neg (by rw [stop.1]; simp)]
          exact fun equal => stop.2 (Option.some.inj equal)
  | cons d text inductionHypothesis =>
      rw [List.cons_append, List.dropWhile_cons]
      split
      · next isKey => exact inductionHypothesis isKey quiet.2
      · exact quiet.1 keyChar

theorem keyMatchesFrom_quiet {text rest : List Char} (quiet : Quiet text)
    (stops : ∀ d, d ∈ rest.head? → isKeyChar d = false ∧ d ≠ '=') (pos : Nat) :
    keyMatchesFrom pos 0 (text ++ rest) = keyMatchesFrom (pos + text.length) 0 rest := by
  induction text generalizing pos with
  | nil => rfl
  | cons c text inductionHypothesis =>
      have noMatch : ¬ (c.isAlpha = true ∧
          ((text ++ rest).dropWhile isKeyChar).head? = some '=') := fun both =>
        dropWhile_quiet (isKeyChar_of_isAlpha both.1) quiet stops both.2
      rw [List.cons_append, keyMatchesFrom, if_neg noMatch, inductionHypothesis quiet.2,
        List.length_cons]
      congr 1
      omega

/-- The captures of joined pairs. -/
def capturesOf (pos : Nat) : List (List Char × List Char) → List Capture
  | [] => []
  | (key, text) :: rest =>
      { key := String.ofList key, start := pos, stop := pos + key.length + 1 } ::
        capturesOf (pos + (key.length + 1 + (text.length + 1))) rest

theorem keyMatchesFrom_joinPairs {entries : List (List Char × List Char)}
    (good : ∀ entry, entry ∈ entries → KeyShape entry.1 ∧ Quiet entry.2) (pos : Nat) :
    keyMatchesFrom pos 0 (joinPairs entries) = capturesOf pos entries := by
  induction entries generalizing pos with
  | nil => rfl
  | cons entry entries inductionHypothesis =>
      rcases entry with ⟨key, text⟩
      rcases good (key, text) List.mem_cons_self with ⟨shape, quiet⟩
      cases entries with
      | nil =>
          have last : keyMatchesFrom (pos + key.length + 1) 0 (text ++ []) =
              keyMatchesFrom (pos + key.length + 1 + text.length) 0 [] := by
            apply keyMatchesFrom_quiet quiet
            rintro _ ⟨⟩
          rw [List.append_nil] at last
          rw [joinPairs, keyMatchesFrom_key shape, last]
          rfl
      | cons next rest =>
          have blank : ∀ d, d ∈ (' ' :: joinPairs (next :: rest)).head? →
              isKeyChar d = false ∧ d ≠ '=' := by
            rintro _ ⟨⟩
            decide
          have later := inductionHypothesis fun entry member =>
            good entry (List.mem_cons_of_mem _ member)
          have sum : pos + key.length + 1 + text.length + 1 =
              pos + (key.length + 1 + (text.length + 1)) := by
            omega
          rw [joinPairs, keyMatchesFrom_key shape, keyMatchesFrom_quiet quiet blank, keyMatchesFrom,
            if_neg (by simp), later, sum]
          rfl

theorem trim_tight {text : List Char} (tight : Tight text) {blank : List Char}
    (isBlank : ∀ c, c ∈ blank → isWhitespace c = true) :
    trim (String.ofList (text ++ blank)) = String.ofList text := by
  have bare : Blanks.Tight isWhitespace text := tight
  have padded :
      Blanks.strip isWhitespace ([] ++ (text ++ blank)) = Blanks.strip isWhitespace text :=
    Blanks.strip_pad (fun _ impossible => absurd impossible List.not_mem_nil) isBlank text
  rw [trim_eq_strip, String.toList_ofList, ← List.nil_append (text ++ blank),
    padded, bare.strip_eq]

/-- A key at the start or behind a space is accepted. -/
theorem accepted_start {before : List Char}
    (start : before = [] ∨ ∃ front, before = front ++ [' ']) (rest : List Char)
    (key : String) (stop : Nat) :
    accepted (before ++ rest) { key := key, start := before.length, stop := stop } = true := by
  rcases start with rfl | ⟨front, rfl⟩
  · rfl
  · have last : ((front ++ [' ']) ++ rest)[(front ++ [' ']).length - 1]? = some ' ' := by
      rw [List.length_append, List.length_singleton, Nat.add_sub_cancel, List.append_assoc,
        List.getElem?_append_right (Nat.le_refl _), Nat.sub_self]
      rfl
    rw [accepted, last]
    exact Bool.or_true _

/-- The values of joined pairs behind some text are their texts. -/
theorem keyValues_joinPairs {entries : List (List Char × List Char)}
    (tight : ∀ entry, entry ∈ entries → Tight entry.2) {before : List Char}
    (start : before = [] ∨ ∃ front, before = front ++ [' ']) :
    (capturesOf before.length entries).filter (accepted (before ++ joinPairs entries)) =
        capturesOf before.length entries ∧
      keyValues (before ++ joinPairs entries) (capturesOf before.length entries) =
        entries.map fun entry => (String.ofList entry.1, unescape (String.ofList entry.2)) := by
  induction entries generalizing before with
  | nil => exact ⟨rfl, rfl⟩
  | cons entry entries inductionHypothesis =>
      rcases entry with ⟨key, text⟩
      have here := accepted_start start (joinPairs ((key, text) :: entries)) (String.ofList key)
        (before.length + key.length + 1)
      have tightText := tight (key, text) List.mem_cons_self
      cases entries with
      | nil =>
          refine ⟨List.filter_cons_of_pos here, ?_⟩
          have value : (before ++ joinPairs [(key, text)]).drop (before.length + key.length + 1) =
              text ++ [] := by
            have front : before ++ joinPairs [(key, text)] = (before ++ key ++ ['=']) ++ text := by
              rw [joinPairs, List.append_assoc, List.append_assoc]
              rfl
            rw [front, List.append_nil]
            apply List.drop_left'
            rw [List.length_append, List.length_append, List.length_singleton]
          rw [capturesOf, capturesOf, keyValues, List.head?_nil, Option.elim_none, List.take_length,
            value, trim_tight tightText (fun c member => absurd member List.not_mem_nil)]
          rfl
      | cons next rest =>
          -- what lies in front of the next pair ends with the space between the pairs
          have front : before ++ joinPairs ((key, text) :: next :: rest) =
              (before ++ key ++ ['=']) ++ (text ++ [' ']) ++ joinPairs (next :: rest) := by
            rw [joinPairs]
            simp only [List.append_assoc, List.cons_append, List.nil_append]
          have keyEnd : (before ++ key ++ ['=']).length = before.length + key.length + 1 := by
            rw [List.length_append, List.length_append, List.length_singleton]
          have length : ((before ++ key ++ ['=']) ++ (text ++ [' '])).length =
              before.length + (key.length + 1 + (text.length + 1)) := by
            rw [List.length_append, keyEnd, List.length_append, List.length_singleton]
            omega
          have blank : ∀ c, c ∈ [' '] → isWhitespace c = true := by
            decide
          rcases inductionHypothesis (fun entry member =>
            tight entry (List.mem_cons_of_mem _ member))
            (Or.inr ⟨before ++ key ++ ['='] ++ text, (List.append_assoc _ _ _).symm⟩)
              with ⟨kept, values⟩
          rw [length] at kept values
          rw [front] at here ⊢
          refine ⟨(List.filter_cons_of_pos here).trans (congrArg _ kept), ?_⟩
          have head : (capturesOf (before.length + (key.length + 1 + (text.length + 1)))
              (next :: rest)).head?.elim
                ((before ++ key ++ ['=']) ++ (text ++ [' ']) ++ joinPairs (next :: rest)).length
                Capture.start = before.length + (key.length + 1 + (text.length + 1)) :=
            rfl
          rw [capturesOf, keyValues, head, List.take_left' length, List.drop_left' keyEnd,
            trim_tight tightText blank, values]
          rfl

/-! ## Escaped values -/

theorem head_leftEscape (text : List Char) : (text.flatMap leftEscape).head? ≠ some '=' := by
  cases text with
  | nil => exact Option.some_ne_none _ ∘ Eq.symm
  | cons c text =>
      rw [List.flatMap_cons, leftEscape]
      split_ifs with equals feed return_
      · simp
      · simp
      · simp
      · simpa using equals

theorem quiet_leftEscape (text : List Char) : Quiet (text.flatMap leftEscape) := by
  induction text with
  | nil => trivial
  | cons c text inductionHypothesis =>
      have noKey : isKeyChar '\\' ≠ true ∧ isKeyChar '=' ≠ true := by
        decide
      rw [List.flatMap_cons, leftEscape]
      split_ifs
      · exact ⟨fun key => absurd key noKey.1, fun key => absurd key noKey.2,
          inductionHypothesis⟩
      · exact ⟨fun key => absurd key noKey.1, fun _ => head_leftEscape text,
          inductionHypothesis⟩
      · exact ⟨fun key => absurd key noKey.1, fun _ => head_leftEscape text,
          inductionHypothesis⟩
      · exact ⟨fun _ => head_leftEscape text, inductionHypothesis⟩

theorem tight_leftEscape {text : List Char} (tight : Tight text) :
    Tight (text.flatMap leftEscape) := by
  constructor
  · intro c member
    cases text with
    | nil => cases member
    | cons d text =>
        have plain := tight.1 d rfl
        rw [List.flatMap_cons, leftEscape] at member
        split_ifs at member <;> cases member
        · rfl
        · rfl
        · rfl
        · exact plain
  · intro c member
    rcases List.eq_nil_or_concat text with rfl | ⟨init, d, rfl⟩
    · cases member
    · have plain := tight.2 d (by rw [List.concat_eq_append, List.getLast?_concat]; rfl)
      rw [List.concat_eq_append, List.flatMap_append, List.flatMap_singleton, leftEscape] at member
      split_ifs at member <;> rw [List.getLast?_append] at member <;> cases member
      · rfl
      · rfl
      · rfl
      · exact plain

theorem unescape_eq (s : String) : unescape s = String.ofList (unescapeFrom s.toList) := by
  rw [unescape]
  split
  · rfl
  · next noSlash =>
      have same : ∀ text : List Char, '\\' ∉ text → unescapeFrom text = text := by
        intro text absent
        induction text with
        | nil => rfl
        | cons c text inductionHypothesis =>
            rw [List.mem_cons, not_or] at absent
            rw [unescapeFrom_other (Ne.symm absent.1), inductionHypothesis absent.2]
      rw [same s.toList noSlash, String.ofList_toList]

/-- A value that has been written and split is read back exactly when it is plain. -/
theorem unescape_leftEscape_iff (value : String) :
    unescape (String.ofList (value.toList.flatMap leftEscape)) = value ↔ Plain value.toList := by
  rw [unescape_eq, String.toList_ofList, ← reread_eq_self_iff, ← String.toList_inj,
    String.toList_ofList, reread]

/-! ## Messages -/

/-- A key of the extension that is not a name of the header. -/
structure CefKey where
  text : String
  shape : KeyShape text.toList
  free : text ∉ headerKeys
  notMessage : text ≠ "message"

/-- A value without white space at its ends. -/
structure CefValue where
  text : String
  tight : Tight text.toList

/-- Seven header values and an extension. -/
structure CefMessage where
  headers : List String
  seven : headers.length = 7
  ext : List (CefKey × CefValue)
  distinct : (ext.map fun entry => entry.1.text).Nodup

namespace CefMessage

variable (message : CefMessage)

/-- The keys of the extension and its values under some code. -/
def pairs (code : Char → List Char) : List (List Char × List Char) :=
  message.ext.map fun entry => (entry.1.text.toList, entry.2.text.toList.flatMap code)

/-- The rendered line. -/
def line : String :=
  "CEF:" ++ String.ofList (message.headers.flatMap (fun field =>
    field.toList.flatMap escapeHeader ++ ['|']) ++ joinPairs (message.pairs escapeValue))

/-- The names that the line defines, with their texts; the name is the message too. -/
def entries : List (String × String) :=
  (message.ext.map fun entry => (entry.1.text, entry.2.text)) ++
    ("message", message.headers.getD 5 "") :: headerKeys.zip message.headers

/-- The record has the values of the message and nothing else. -/
def Returned (record : Record) : Prop :=
  ∀ name, record.fields.get name = (message.entries.lookup name).map .string

/-- Every value is free of the pairs that are misread. -/
def PlainValues : Prop :=
  ∀ entry, entry ∈ message.ext → Plain entry.2.text.toList

variable {message}

theorem slash_not_mem_key {key : List Char} (shape : KeyShape key) : '\\' ∉ key := by
  rcases shape with ⟨letter, run, rfl, isLetter, areKeyChars⟩
  have noKey : isKeyChar '\\' = false := rfl
  intro member
  rcases List.mem_cons.mp member with rfl | later
  · cases isLetter
  · rw [areKeyChars _ later] at noKey
    cases noKey

theorem appends_joinPairs {parts : List String} (full : 7 ≤ parts.length)
    {ext : List (CefKey × CefValue)} :
    Appends parts
      (joinPairs (ext.map fun entry =>
        (entry.1.text.toList, entry.2.text.toList.flatMap escapeValue)))
      (joinPairs (ext.map fun entry =>
        (entry.1.text.toList, entry.2.text.toList.flatMap leftEscape))) := by
  induction ext with
  | nil =>
      intro cur rest
      change splitHeaderFrom parts cur rest = splitHeaderFrom parts (cur ++ []) rest
      rw [List.append_nil]
  | cons entry ext inductionHypothesis =>
      have key := appends_text full (slash_not_mem_key entry.1.shape)
      have value := Appends.flatMap (appends_escapeValue full) entry.2.text.toList
      have equals : Appends parts ['='] ['='] := appends_plain (by decide) fun _ => full
      have space : Appends parts [' '] [' '] := appends_plain (by decide) fun _ => full
      cases ext with
      | nil => exact key.append (equals.append value)
      | cons next rest =>
          exact key.append (equals.append (value.append (space.append inductionHypothesis)))

theorem splitHeader_line : splitHeader (String.ofList (message.headers.flatMap (fun field =>
      field.toList.flatMap escapeHeader ++ ['|']) ++ joinPairs (message.pairs escapeValue))) =
    message.headers ++ [String.ofList (joinPairs (message.pairs leftEscape))] := by
  have room : ([] : List String).length + message.headers.length ≤ 7 := by
    rw [message.seven]
    decide
  have rest : splitHeaderFrom message.headers [] (joinPairs (message.pairs escapeValue) ++ []) =
      splitHeaderFrom message.headers ([] ++ joinPairs (message.pairs leftEscape)) [] :=
    appends_joinPairs (Nat.le_of_eq message.seven.symm) [] []
  rw [splitHeader, String.toList_ofList, splitHeaderFrom_fields _ room, List.nil_append]
  rw [List.append_nil, List.nil_append, splitHeaderFrom] at rest
  exact rest

/-- Setting fields with different names. -/
theorem get_strField_distinct {entries : List (String × String)}
    (distinct : (entries.map Prod.fst).Nodup) (fields : FieldMap) (name : String) :
    (entries.foldl (fun fields entry => strField fields entry.1 entry.2) fields).get name =
      (entries.lookup name).elim (fields.get name) fun text => some (.string text) := by
  rw [get_foldl_strField, Keyed.lookup_reverse distinct]

/-- What the parser makes of the extension. -/
def reads (message : CefMessage) : List (String × String) :=
  message.ext.map fun entry =>
    (entry.1.text, unescape (String.ofList (entry.2.text.toList.flatMap leftEscape)))

theorem parseExtension_pairs {captures : String → List Capture} (expression : KeyRegex captures)
    (fields : FieldMap) :
    parseExtension captures (String.ofList (joinPairs (message.pairs leftEscape))) fields =
      message.reads.foldl (fun fields entry => strField fields entry.1 entry.2) fields := by
  have good :
      ∀ entry, entry ∈ message.pairs leftEscape → KeyShape entry.1 ∧ Quiet entry.2 := by
    intro entry member
    rcases List.mem_map.mp member with ⟨pair, _, rfl⟩
    exact ⟨pair.1.shape, quiet_leftEscape _⟩
  have tight : ∀ entry, entry ∈ message.pairs leftEscape → Tight entry.2 := by
    intro entry member
    rcases List.mem_map.mp member with ⟨pair, _, rfl⟩
    exact tight_leftEscape pair.2.tight
  have values : keyValues (joinPairs (message.pairs leftEscape))
      ((capturesOf 0 (message.pairs leftEscape)).filter
        (accepted (joinPairs (message.pairs leftEscape)))) =
        message.reads := by
    have both := keyValues_joinPairs tight (Or.inl rfl)
    rw [List.nil_append, List.length_nil] at both
    rw [both.1, both.2, pairs, List.map_map, reads]
    apply List.map_congr_left
    intro entry _
    rw [Function.comp_apply, String.ofList_toList]
  rw [parseExtension, expression, String.toList_ofList, keyMatchesFrom_joinPairs good, values]

/-- Seven parts and one more. -/
theorem eight_parts {headers : List String} (seven : headers.length = 7) (last : String) :
    ¬ (headers ++ [last]).length < 7 ∧
      headerKeys.zip (headers ++ [last]) = headerKeys.zip headers ∧
      (headers ++ [last]).getD 5 "" = headers.getD 5 "" ∧
      (headers ++ [last])[7]? = some last := by
  have lengths : headerKeys.length = headers.length := seven.symm
  refine ⟨?_, ?_, ?_, ?_⟩
  · rw [List.length_append, seven, List.length_singleton]
    decide
  · have both : (headerKeys ++ []).zip (headers ++ [last]) =
        headerKeys.zip headers ++ ([] : List String).zip [last] := List.zip_append lengths
    rwa [List.append_nil, List.zip_nil_left, List.append_nil] at both
  · rw [List.getD_eq_getElem?_getD, List.getD_eq_getElem?_getD,
      List.getElem?_append_left (by rw [seven]; decide)]
  · rw [List.getElem?_append_right (Nat.le_of_eq seven), seven]
    rfl

theorem reads_nodup (message : CefMessage) : (message.reads.map Prod.fst).Nodup := by
  rw [reads, List.map_map]
  exact message.distinct

/-- The header begins at the first marker. -/
theorem splitOnce_marker (body : String) : splitOnce "CEF:" ("CEF:" ++ body) = some ("", body) := by
  have cut := splitOnce_append (show ("CEF:" : String).toList = 'C' :: ['E', 'F', ':'] from rfl)
    (show 'C' ∉ ("" : String).toList from List.not_mem_nil) body
  rwa [String.empty_append] at cut

/-- The fields of a parsed line. -/
theorem get_parseCef {captures : String → List Capture} (expression : KeyRegex captures)
    (raw : List UInt8) (name : String) :
    (parseCef captures message.line raw).fields.get name =
      (((message.reads ++ ("message", message.headers.getD 5 "") ::
        headerKeys.zip message.headers).lookup name).map Json.string) := by
  have keys : ((headerKeys.zip message.headers).map Prod.fst).Nodup := by
    have lengths : headerKeys.length = message.headers.length := message.seven.symm
    rw [List.map_fst_zip (Nat.le_of_eq lengths)]
    decide
  rcases eight_parts message.seven (String.ofList (joinPairs (message.pairs leftEscape))) with
    ⟨enough, zip, nameHeader, extension⟩
  rw [parseCef, line, splitOnce_marker]
  dsimp only
  rw [splitHeader_line, if_neg enough, zip, nameHeader, extension, Option.elim_some,
    parseExtension_pairs expression, get_strField_distinct message.reads_nodup, get_strField,
    get_strField_distinct keys, List.lookup_append, List.lookup_cons]
  cases message.reads.lookup name with
  | some text => rfl
  | none =>
      rw [Option.elim_none, Option.none_or]
      by_cases isMessage : name = "message"
      · rw [if_pos isMessage, beq_iff_eq.mpr isMessage]
        rfl
      · rw [if_neg isMessage, beq_eq_false_iff_ne.mpr isMessage]
        cases (headerKeys.zip message.headers).lookup name <;> rfl

/-- A record comes back exactly when no backslash of its values is misread. -/
theorem returned_iff_plainValues {captures : String → List Capture}
    (expression : KeyRegex captures) (message : CefMessage) (raw : List UInt8) :
    message.Returned (parseCef captures message.line raw) ↔ message.PlainValues := by
  constructor
  · intro returned entry member
    have writtenKeys : ((message.ext.map fun entry =>
        (entry.1.text, entry.2.text)).map Prod.fst).Nodup := by
      rw [List.map_map]
      exact message.distinct
    have read := Keyed.lookup_of_mem message.reads_nodup (List.mem_map_of_mem member)
    have written := Keyed.lookup_of_mem writtenKeys (List.mem_map_of_mem member)
    have same := returned entry.1.text
    rw [get_parseCef expression, entries, List.lookup_append, List.lookup_append, read, written,
      Option.some_or, Option.some_or, Option.map_some, Option.map_some, Option.some.injEq,
      Json.string.injEq] at same
    exact (unescape_leftEscape_iff entry.2.text).mp same
  · intro plain name
    have same : message.reads = message.ext.map fun entry => (entry.1.text, entry.2.text) := by
      apply List.map_congr_left
      intro entry member
      exact congrArg (entry.1.text, ·)
        ((unescape_leftEscape_iff entry.2.text).mpr (plain entry member))
    rw [get_parseCef expression, same, entries]

/-- The matches of the key expression, as they are documented. -/
def keyMatches (ext : String) : List Capture :=
  keyMatchesFrom 0 0 ext.toList

/-- A file below a directory. -/
def fileAccess (path : String) (tight : Tight path.toList) : CefMessage where
  headers := ["0", "Security", "Agent", "1.0", "100", "File|access", "5"]
  seven := rfl
  ext :=
    [(⟨"filePath", ⟨'f', ['i', 'l', 'e', 'P', 'a', 't', 'h'], rfl, rfl, by decide⟩, by decide,
        by decide⟩, ⟨path, tight⟩)]
  distinct := List.pairwise_singleton _ _

/-- The path stands behind a name with a bar and has a backslash and an equals sign. -/
theorem returned_iff_plainValues_file :
    (fileAccess "C:\\temp\\a=b" (by decide)).Returned
      (parseCef keyMatches (fileAccess "C:\\temp\\a=b" (by decide)).line []) :=
  (returned_iff_plainValues (fun _ => rfl) (fileAccess "C:\\temp\\a=b" (by decide)) []).mpr (by
    intro entry member
    cases List.mem_singleton.mp member
    decide)

/-- A directory whose name begins with `n` is read as a line break. -/
theorem not_returned_backslash :
    ¬ ∀ (captures : String → List Capture), KeyRegex captures → ∀ (message : CefMessage)
      (raw : List UInt8), message.Returned (parseCef captures message.line raw) := by
  intro all
  have expression : KeyRegex keyMatches := fun _ => rfl
  have same := all keyMatches expression (fileAccess "C:\\new" (by decide)) [] "filePath"
  rw [get_parseCef expression] at same
  have texts := Option.map_injective (fun _ _ => Json.string.inj) same
  revert texts
  decide +kernel

end CefMessage

end Ingest
end Sigil
