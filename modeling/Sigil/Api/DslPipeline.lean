import Sigil.Api.DslGrammar

namespace Sigil
namespace Api

/-!
# What the pipelines of the grammar mean

A pipeline of the grammar is printed with bars between its stages, and says which query it stands
for: a value is compared as a number when it is a decimal number without quotation marks, and as
the given text otherwise.  The code reads the value differently: it joins the words of the value
before it looks for the marks, removes them before it looks for a number, and takes the names of
infinity for numbers.
-/

open Sigil.Core Library

/-! ## Pipelines -/

/-- The text of a stage, without bars and without white space at its ends. -/
structure Phrase where
  text : String
  trimmed : Trimmed text
  noBar : '|' ∉ text.toList

inductive Mark where
  | single
  | double
  deriving DecidableEq, Repr

def Mark.char : Mark → Char
  | .single => '\''
  | .double => '"'

/-- A value, bare or between quotation marks. -/
inductive DslValue where
  | bare (phrase : Phrase) (noMarks : unquote phrase.text = phrase.text)
  | quoted (mark : Mark) (content : String) (noBar : '|' ∉ content.toList)

namespace DslValue

def text : DslValue → String
  | .bare phrase _ => phrase.text
  | .quoted mark content _ => String.singleton mark.char ++ (content ++ String.singleton mark.char)

def content : DslValue → String
  | .bare phrase _ => phrase.text
  | .quoted _ content _ => content

end DslValue

inductive LimitWord where
  | head
  | limit
  deriving DecidableEq, Repr

def LimitWord.text : LimitWord → String
  | .head => "head"
  | .limit => "limit"

/-- The stages of the grammar. -/
inductive DslStage where
  | search (term : Phrase)
  | compare (col : Ident) (op : Comparison) (value : DslValue)
  | contains (col : Ident) (value : DslValue)
  | stats (name : Option Ident) (groupBy : List Ident)
  | fields (first : Ident) (others : List Ident)
  | sort (col : Ident) (direction : Option Direction)
  | limit (word : LimitWord) (n : Nat)

/-- The names with commas between them. -/
def columnsText (names : List Ident) : String :=
  join ", " (names.map Ident.text)

/-- A text with a blank in front of it, or nothing. -/
def spaced (s : String) : String :=
  if s = "" then "" else " " ++ s

/-- The name of a count and the columns to group by. -/
def tailText : Option Ident → List Ident → String
  | none, [] => ""
  | none, col :: others => "by " ++ columnsText (col :: others)
  | some name, [] => "as " ++ name.text
  | some name, col :: others => "as " ++ (name.text ++ (" by " ++ columnsText (col :: others)))

def Direction.word : Direction → String
  | .ascending => "asc"
  | .descending => "desc"

namespace DslStage

def command : DslStage → Command
  | .search _ => .search
  | .compare _ _ _ => .where_
  | .contains _ _ => .where_
  | .stats _ _ => .stats
  | .fields _ _ => .fields
  | .sort _ _ => .sort
  | .limit _ _ => .limit

def word : DslStage → String
  | .search _ => "search"
  | .compare _ _ _ => "where"
  | .contains _ _ => "where"
  | .stats _ _ => "stats"
  | .fields _ _ => "fields"
  | .sort _ _ => "sort"
  | .limit word _ => word.text

def rest : DslStage → String
  | .search term => term.text
  | .compare col op value => col.text ++ (" " ++ (op.text ++ (" " ++ value.text)))
  | .contains col value => col.text ++ (" " ++ ("contains" ++ (" " ++ value.text)))
  | .stats name groupBy => "count()" ++ spaced (tailText name groupBy)
  | .fields first others => columnsText (first :: others)
  | .sort col direction => col.text ++ spaced (direction.elim "" Direction.word)
  | .limit _ n => toString n

/-- A stage as it is printed. -/
def text (stage : DslStage) : String :=
  stage.word ++ (" " ++ stage.rest)

end DslStage

def printed (pipeline : List DslStage) : String :=
  join " | " (pipeline.map DslStage.text)

/-! ## Meaning -/

/-- A decimal number, perhaps behind a sign. -/
def isDecimalNumber (s : String) : Bool :=
  isDecimal (match s.toList.map Char.toLower with
    | '+' :: rest => rest
    | '-' :: rest => rest
    | rest => rest)

theorem parsesF64_of_decimal {s : String} (decimal : isDecimalNumber s = true) :
    parsesF64 s = true := by
  rw [parsesF64]
  exact Bool.or_eq_true_iff.mpr (Or.inr decimal)

/-- How the values of a pipeline are read. -/
structure Reading where
  operand : DslValue → Operand
  content : DslValue → String

namespace DslValue

/-- A bare decimal number is a number, and everything else a text. -/
def meaning : DslValue → Operand
  | .bare phrase _ =>
      if decimal : isDecimalNumber phrase.text = true then
        .number ⟨phrase.text, parsesF64_of_decimal decimal⟩
      else .quoted phrase.text
  | .quoted _ content _ => .quoted content

/-- The words of the value with one blank between them, without quotation marks around them. -/
def read (value : DslValue) : String :=
  unquote (join " " (splitWhitespace value.text))

end DslValue

namespace Reading

/-- What the grammar says. -/
def meant : Reading where
  operand := DslValue.meaning
  content := DslValue.content

/-- What the code makes of it. -/
def coded : Reading where
  operand value := Api.operand value.read
  content := DslValue.read

theorem coded_operand (value : DslValue) : coded.operand value = Api.operand value.read := by
  rw [coded]

theorem meant_operand (value : DslValue) : meant.operand value = value.meaning := by
  rw [meant]

theorem meant_content (value : DslValue) : meant.content value = value.content := by
  rw [meant]

theorem coded_content (value : DslValue) : coded.content value = value.read := by
  rw [coded]

-- from here on the readings are known by these lemmas only: unfolding them starts to run the code
attribute [irreducible] meant coded

end Reading

namespace DslStage

/-- A stage changes the parts of the query.  Conditions and counts are added, a grouping without
columns leaves the one before, and everything else is set anew. -/
def put (reading : Reading) (p : Parts) : DslStage → Parts
  | .search term => { p with conditions := p.conditions ++ [.like messageColumn term.text] }
  | .compare col op value =>
      { p with conditions := p.conditions ++ [.compare col op (reading.operand value)] }
  | .contains col value =>
      { p with conditions := p.conditions ++ [.like col (reading.content value)] }
  | .stats name [] => { p with counts := p.counts ++ [name.getD countName] }
  | .stats name (col :: others) =>
      { p with counts := p.counts ++ [name.getD countName], groupBy := col :: others }
  | .fields first others =>
      { p with
        fields := some (first :: others)
        someField := by rintro _ ⟨⟩; exact List.cons_ne_nil _ _ }
  | .sort col direction => { p with orderBy := some (col, direction.getD .ascending) }
  | .limit _ n => { p with limit := some n }

end DslStage

/-- The query of a pipeline. -/
def queryOf (reading : Reading) (pipeline : List DslStage) : Query :=
  (pipeline.foldl (DslStage.put reading) Parts.empty).query

/-- The SQL of a pipeline. -/
def sqlOf (pipeline : List DslStage) : String :=
  (queryOf .meant pipeline).text

/-! ## Values -/

/-- What stands between the marks, if marks stand at both ends. -/
def innerText (text : List Char) : List Char :=
  if 2 ≤ text.length ∧
      (text.head? = some '\'' ∧ text.getLast? = some '\'' ∨
        text.head? = some '"' ∧ text.getLast? = some '"') then
    text.tail.dropLast
  else text

theorem unquote_eq {s : String} (trimmed : Trimmed s) :
    unquote s = String.ofList (innerText s.toList) := by
  rw [unquote, trimmed.trim_eq, innerText]
  split
  · rfl
  · exact String.ofList_toList.symm

theorem eq_ends {text : List Char} (long : 2 ≤ text.length) :
    ∃ first last, text.head? = some first ∧ text.getLast? = some last ∧
      text = first :: (text.tail.dropLast ++ [last]) := by
  rcases text with _ | ⟨first, _ | ⟨second, rest⟩⟩
  · simp at long
  · simp at long
  · have some_ := List.cons_ne_nil second rest
    refine ⟨first, (second :: rest).getLast some_, rfl, ?_, ?_⟩
    · rw [List.getLast?_cons_cons, List.getLast?_eq_some_getLast some_]
    · rw [List.tail_cons, List.dropLast_concat_getLast]

/-- Texts with the same ends are told apart by what stands between the marks. -/
theorem innerText_inj {text other : List Char} (head : text.head? = other.head?)
    (last : text.getLast? = other.getLast?) (long : 2 ≤ text.length ↔ 2 ≤ other.length)
    (same : innerText text = innerText other) : text = other := by
  simp only [innerText, head, last, long] at same
  split at same
  · next marked =>
      rcases eq_ends marked.1 with ⟨first, final, isFirst, isFinal, shape⟩
      rcases eq_ends (long.mpr marked.1) with ⟨first', final', isFirst', isFinal', shape'⟩
      cases Option.some.inj (isFirst'.symm.trans (head.trans isFirst))
      cases Option.some.inj (isFinal'.symm.trans (last.trans isFinal))
      rw [shape', same]
      exact shape.symm
  · exact same

/-- The words of a text with one blank between them. -/
def collapsed (s : String) : String :=
  join " " (splitWhitespace s)

theorem toList_collapsed (s : String) :
    (collapsed s).toList = Blanks.collapse isWhitespace ' ' s.toList :=
  toList_intercalate_splitWhitespace s

theorem isWhitespace_space : isWhitespace ' ' = true := by
  decide

theorem trimmed_collapsed {s : String} (trimmed : Trimmed s) : Trimmed (collapsed s) := by
  constructor
  · intro nothing
    have head := Blanks.head?_collapse isWhitespace_space trimmed.tight
    rw [← toList_collapsed, nothing] at head
    exact toList_ne_nil trimmed.nonempty (List.head?_eq_none_iff.mp head.symm)
  · rw [toList_collapsed]
    exact Blanks.tight_collapse s.toList

/-- Between the marks stands the same when the white space has been collapsed only if there was
nothing to collapse. -/
theorem unquote_collapsed_iff {s : String} (trimmed : Trimmed s) :
    unquote (collapsed s) = unquote s ↔ collapsed s = s := by
  constructor
  · intro same
    rw [unquote_eq trimmed, unquote_eq (trimmed_collapsed trimmed), String.ofList_inj,
      toList_collapsed] at same
    apply String.toList_injective
    rw [toList_collapsed]
    exact innerText_inj (Blanks.head?_collapse isWhitespace_space trimmed.tight)
      (Blanks.getLast?_collapse isWhitespace_space trimmed.tight)
      (Blanks.two_le_length_collapse isWhitespace_space trimmed.tight) same
  · intro same
    rw [same]

namespace DslValue

variable (value : DslValue)

theorem trimmed_text : Trimmed value.text := by
  cases value with
  | bare phrase _ => exact phrase.trimmed
  | quoted mark content _ =>
      have isMark : Trimmed (String.singleton mark.char) := by
        apply trimmed_of_plain
        · simp
        · intro c member
          rw [String.toList_singleton, List.mem_singleton] at member
          rw [member]
          cases mark <;> decide
      exact isMark.between isMark content

theorem unquote_text : unquote value.text = value.content := by
  cases value with
  | bare phrase noMarks => exact noMarks
  | quoted mark content noBar =>
      have shape : (DslValue.quoted mark content noBar).text.toList =
          mark.char :: (content.toList ++ [mark.char]) := by
        rw [text, String.toList_append, String.toList_append, String.toList_singleton]
        rfl
      have marked : innerText (mark.char :: (content.toList ++ [mark.char])) = content.toList := by
        rw [innerText, if_pos]
        · rw [List.tail_cons, List.dropLast_concat]
        · refine ⟨by simp, ?_⟩
          rw [← List.cons_append, List.getLast?_concat]
          cases mark with
          | single => exact Or.inl ⟨rfl, rfl⟩
          | double => exact Or.inr ⟨rfl, rfl⟩
      rw [unquote_eq (trimmed_text _), shape, marked]
      exact String.ofList_toList

/-- White space in the printed value is one blank at a time. -/
def SingleSpaced : Prop :=
  join " " (splitWhitespace value.text) = value.text

theorem read_eq_content_iff : value.read = value.content ↔ value.SingleSpaced := by
  rw [← unquote_text]
  exact unquote_collapsed_iff value.trimmed_text

end DslValue

/-- A decimal number has no white space. -/
theorem plain_of_decimal {s : String} (decimal : isDecimalNumber s = true) :
    ∀ c, c ∈ s.toList → isWhitespace c = false := by
  intro c member
  by_contra blank
  rw [Bool.not_eq_false, ← isWhitespace_toLower] at blank
  have other : ∀ d, isWhitespace d = false → c.toLower ≠ d := by
    rintro d plain rfl
    rw [plain] at blank
    cases blank
  have foreign : Foreign c.toLower := by
    constructor
    · by_contra digit
      exact other _ (isWhitespace_of_isDigit (Bool.not_eq_false _ |>.mp digit)) rfl
    · intro sign
      simp only [List.mem_cons, List.not_mem_nil, or_false] at sign
      rcases sign with same | same | same | same
      · exact other '.' (by decide) same
      · exact other 'e' (by decide) same
      · exact other '+' (by decide) same
      · exact other '-' (by decide) same
  have lower : c.toLower ∈ s.toList.map Char.toLower := List.mem_map_of_mem member
  rw [isDecimalNumber] at decimal
  split at decimal
  · next rest signed =>
      rw [signed, List.mem_cons] at lower
      exact not_mem_decimal foreign decimal (lower.resolve_left (other '+' (by decide)))
  · next rest signed =>
      rw [signed, List.mem_cons] at lower
      exact not_mem_decimal foreign decimal (lower.resolve_left (other '-' (by decide)))
  · exact not_mem_decimal foreign decimal lower

/-! ## Printed stages -/

theorem plain_of_isIdentChar {c : Char} (isIdent : isIdentChar c = true) :
    isWhitespace c = false := by
  rcases Bool.or_eq_true_iff.mp isIdent with word | underscore
  · rcases Bool.or_eq_true_iff.mp word with letter | digit
    · rcases Bool.or_eq_true_iff.mp letter with upper | lower
      · have range : c.val ≥ 'A'.val ∧ c.val ≤ 'Z'.val := of_decide_eq_true upper
        exact isWhitespace_of_printable (Nat.le_trans (by decide) range.1)
          (Nat.le_trans range.2 (by decide))
      · have range := Bool.and_eq_true_iff.mp lower
        exact isWhitespace_of_printable (Nat.le_trans (by decide) (of_decide_eq_true range.1))
          (Nat.le_trans (of_decide_eq_true range.2) (by decide))
    · exact isWhitespace_of_isDigit digit
  · rw [of_decide_eq_true underscore]
    decide

namespace Ident

variable (name : Ident)

theorem isIdent : IsIdent name.text :=
  ⟨name.nonempty, name.chars⟩

theorem plain : ∀ c, c ∈ name.text.toList → isWhitespace c = false :=
  fun c member => plain_of_isIdentChar (name.chars c member)

theorem trimmed : Trimmed name.text :=
  trimmed_of_plain name.nonempty name.plain

theorem absent {c : Char} (other : isIdentChar c = false) : c ∉ name.text.toList := by
  intro member
  rw [name.chars c member] at other
  cases other

end Ident

/-- A word of the grammar, checked letter by letter. -/
theorem trimmed_word {s : String} (some_ : s ≠ "")
    (plain : (s.toList.all fun c => !isWhitespace c) = true) :
    Trimmed s := by
  apply trimmed_of_plain some_
  intro c member
  have here := List.all_eq_true.mp plain c member
  rwa [Bool.not_eq_true'] at here

theorem trimmed_columns {names : List Ident} (some_ : names ≠ []) :
    Trimmed (columnsText names) := by
  induction names with
  | nil => exact absurd rfl some_
  | cons name names inductionHypothesis =>
      cases names with
      | nil =>
          rw [columnsText, List.map_singleton, join, String.intercalate_singleton]
          exact name.trimmed
      | cons next names =>
          have rest := inductionHypothesis (List.cons_ne_nil _ _)
          rw [columnsText, List.map_cons, List.map_cons, join, String.intercalate_cons_cons,
            String.append_assoc]
          exact name.trimmed.between rest ", "

theorem absent_columns {c : Char} (other : isIdentChar c = false) (noSeparator : c ∉ ", ".toList)
    (names : List Ident) : c ∉ (columnsText names).toList := by
  induction names with
  | nil => exact List.not_mem_nil
  | cons name names inductionHypothesis =>
      cases names with
      | nil =>
          rw [columnsText, List.map_singleton, join, String.intercalate_singleton]
          exact name.absent other
      | cons next names =>
          rw [columnsText, List.map_cons, List.map_cons, join, String.intercalate_cons_cons,
            String.toList_append, String.toList_append, List.mem_append,
            List.mem_append, not_or, not_or]
          exact ⟨⟨name.absent other, noSeparator⟩, inductionHypothesis⟩

theorem trimmed_tail (name : Option Ident) (groupBy : List Ident) :
    tailText name groupBy = "" ∨ Trimmed (tailText name groupBy) := by
  have keyword : Trimmed "as" := trimmed_word (by decide) (by decide)
  have groups : Trimmed "by" := trimmed_word (by decide) (by decide)
  cases name with
  | none =>
      cases groupBy with
      | nil => exact Or.inl rfl
      | cons col others =>
          exact Or.inr (groups.between (trimmed_columns (List.cons_ne_nil _ _)) " ")
  | some name =>
      cases groupBy with
      | nil => exact Or.inr (keyword.between name.trimmed " ")
      | cons col others =>
          have columns :=
            name.trimmed.between (trimmed_columns (List.cons_ne_nil col others)) " by "
          exact Or.inr (keyword.between columns " ")

theorem trimmed_spaced {s tail : String} (trimmed : Trimmed s)
    (behind : tail = "" ∨ Trimmed tail) :
    Trimmed (s ++ spaced tail) := by
  rcases behind with rfl | trimmedTail
  · rw [spaced, if_pos rfl, String.append_empty]
    exact trimmed
  · rw [spaced, if_neg trimmedTail.nonempty]
    exact trimmed.between trimmedTail " "

theorem trim_spaced {tail : String} (behind : tail = "" ∨ Trimmed tail) :
    trim (spaced tail) = tail := by
  rcases behind with rfl | trimmedTail
  · rfl
  · have padded : trim (" " ++ (tail ++ "")) = trim tail := trim_pad (by decide) (by decide) tail
    rw [String.append_empty] at padded
    rw [spaced, if_neg trimmedTail.nonempty, padded, trimmedTail.trim_eq]

/-- The names of a command are words in lower case. -/
theorem Command.of_mem_names {cmd : Command} {name : String} (member : name ∈ cmd.names) :
    name ≠ "" ∧ (∀ c, c ∈ name.toList → isWhitespace c = false) ∧
      Command.read (toAsciiLowercase name) = some cmd := by
  have all : ∀ name, name ∈ cmd.names → name ≠ "" ∧ (∀ c, c ∈ name.toList →
      isWhitespace c = false) ∧
      Command.read (toAsciiLowercase name) = some cmd := by
    cases cmd <;> decide +kernel
  exact all name member

namespace DslStage

variable (stage : DslStage)

theorem trimmed_rest : Trimmed stage.rest := by
  have operator : ∀ op : Comparison, Trimmed op.text := by
    intro op
    cases op <;> exact trimmed_word (by decide) (by decide)
  have counts : Trimmed "count()" := trimmed_word (by decide) (by decide)
  cases stage with
  | search term => exact term.trimmed
  | compare col op value =>
      exact col.trimmed.between ((operator op).between value.trimmed_text " ") " "
  | contains col value =>
      have contains : Trimmed "contains" := trimmed_word (by decide) (by decide)
      exact col.trimmed.between (contains.between value.trimmed_text " ") " "
  | stats name groupBy => exact trimmed_spaced counts (trimmed_tail name groupBy)
  | fields first others => exact trimmed_columns (List.cons_ne_nil first others)
  | sort col direction =>
      have word :
          direction.elim "" Direction.word = "" ∨ Trimmed (direction.elim "" Direction.word) := by
        rcases direction with _ | _ | _
        · exact Or.inl rfl
        · exact Or.inr (trimmed_word (by decide) (by decide))
        · exact Or.inr (trimmed_word (by decide) (by decide))
      exact trimmed_spaced col.trimmed word
  | limit _ n =>
      refine trimmed_of_plain ?_ fun c member =>
        isWhitespace_of_isDigit (isDigit_of_mem_toString member)
      intro nothing
      have digits : Nat.toDigits 10 n = [] := by
        rw [← Nat.toList_repr, ← Nat.toString_eq_repr]
        exact congrArg String.toList nothing
      exact Nat.toDigits_ne_nil digits

theorem word_mem_names : stage.word ∈ stage.command.names := by
  cases stage with
  | limit word _ =>
      cases word with
      | head => exact List.mem_cons_self
      | limit => exact List.mem_cons_of_mem _ List.mem_cons_self
  | _ => exact List.mem_singleton_self _

theorem word_ne_empty : stage.word ≠ "" :=
  (Command.of_mem_names stage.word_mem_names).1

theorem plain_word : ∀ c, c ∈ stage.word.toList → isWhitespace c = false :=
  (Command.of_mem_names stage.word_mem_names).2.1

theorem read_word : Command.read (toAsciiLowercase stage.word) = some stage.command :=
  (Command.of_mem_names stage.word_mem_names).2.2

theorem trim_text : trim stage.text = stage.text :=
  ((trimmed_of_plain stage.word_ne_empty stage.plain_word).between stage.trimmed_rest " ").trim_eq

theorem splitFirst_text : splitFirst stage.text = (stage.word, stage.rest) := by
  have cut : stage.text.toList = stage.word.toList ++ ' ' :: stage.rest.toList := by
    rw [text, String.toList_append, String.toList_append]
    rfl
  have plain : ∀ c, c ∈ stage.word.toList → (!isWhitespace c) = true := by
    intro c member
    rw [stage.plain_word c member]
    rfl
  have blanks : ∀ c, c ∈ " ".toList → isWhitespace c = true := by
    decide
  have behind : String.ofList (' ' :: stage.rest.toList) = " " ++ stage.rest := by
    apply String.toList_injective
    rw [String.toList_ofList, String.toList_append]
    rfl
  have taken : stage.text.toList.takeWhile (fun c => !isWhitespace c) = stage.word.toList := by
    rw [cut, List.takeWhile_append_of_pos plain,
      List.takeWhile_cons_of_neg (by decide), List.append_nil]
  have dropped :
      stage.text.toList.dropWhile (fun c => !isWhitespace c) = ' ' :: stage.rest.toList := by
    rw [cut, List.dropWhile_append_of_pos plain, List.dropWhile_cons_of_neg (by decide)]
  rw [splitFirst, taken, dropped, String.ofList_toList, behind, trimStart_blank blanks,
    stage.trimmed_rest.trimStart_eq]

theorem argument_text : argument stage.text = stage.rest := by
  rw [argument, stage.trim_text, stage.splitFirst_text]

theorem read_text : Command.read (Api.command stage.text) = some stage.command := by
  rw [Api.command, stage.trim_text, stage.splitFirst_text]
  exact stage.read_word

end DslStage

/-! ## What the code makes of a stage -/

/-- The tokens of a condition. -/
theorem splitWhitespace_condition (col : Ident) {op : String} (isOp : op ≠ "")
    (plainOp : ∀ c, c ∈ op.toList → isWhitespace c = false) (value : DslValue) :
    splitWhitespace (col.text ++ (" " ++ (op ++ (" " ++ value.text)))) =
      col.text :: op :: splitWhitespace value.text := by
  rw [splitWhitespace_word col.nonempty col.plain, splitWhitespace_word isOp plainOp]

theorem parseWhere_compare (col : Ident) (op : Comparison) (value : DslValue) :
    parseWhere (col.text ++ (" " ++ (op.text ++ (" " ++ value.text)))) =
      .ok (Condition.compare col op (operand value.read)).text := by
  have isOp : op.text ≠ "" ∧ ∀ c, c ∈ op.text.toList → isWhitespace c = false := by
    cases op <;> decide
  rw [parseWhere, splitWhitespace_condition col isOp.1 isOp.2, Condition.text,
    DslValue.read, operand_text]
  cases words : splitWhitespace value.text with
  | nil => exact absurd words (splitWhitespace_ne_nil value.trimmed_text)
  | cons word words =>
      dsimp only
      rw [ident_of_isIdent col.isIdent]
      cases op <;> rfl

theorem parseWhere_contains (col : Ident) (value : DslValue) :
    parseWhere (col.text ++ (" " ++ ("contains" ++ (" " ++ value.text)))) =
      .ok (Condition.like col value.read).text := by
  rw [parseWhere, splitWhitespace_condition col (by decide) (by decide), like_text, DslValue.read]
  cases words : splitWhitespace value.text with
  | nil => exact absurd words (splitWhitespace_ne_nil value.trimmed_text)
  | cons word words =>
      dsimp only
      rw [ident_of_isIdent col.isIdent]
      rfl

theorem idents_columns {names : List Ident} (some_ : names ≠ []) :
    idents (columnsText names) = .ok (names.map Ident.text) := by
  have texts : names.map Ident.text ≠ [] := fun none_ => some_ (List.map_eq_nil_iff.mp none_)
  have absent : ∀ text, text ∈ names.map Ident.text → ',' ∉ text.toList := by
    intro text member
    rcases List.mem_map.mp member with ⟨name, _, rfl⟩
    exact name.absent (by decide)
  have parts : List.Forall₂ (fun raw text => trim raw = trim text)
      (splitChar ',' (("" ++ (String.singleton ',' ++ " ")).intercalate (names.map Ident.text)))
      (names.map Ident.text) :=
    splitChar_intercalate (by decide) (by decide) (by decide) texts absent
  rw [List.forall₂_map_right_iff] at parts
  rw [idents]
  apply Pointwise.mapM_ok
  rw [List.forall₂_map_right_iff]
  apply parts.imp
  intro raw name same
  rw [same, name.trimmed.trim_eq]
  exact ident_of_isIdent name.isIdent

theorem behindCount_append (after : String) :
    behindCount ("count()" ++ after) = some (trim after) := by
  have lower : (toAsciiLowercase ("count()" ++ after)).toList =
      "count()".toList ++ after.toList.map Char.toLower := by
    rw [toAsciiLowercase, String.toList_ofList, String.toList_append, List.map_append]
    rfl
  have starts : "count()".toList <+: (toAsciiLowercase ("count()" ++ after)).toList := by
    rw [lower]
    exact List.prefix_append _ _
  have dropped : ("count()" ++ after).toList.drop 7 = after.toList := by
    rw [String.toList_append]
    rfl
  rw [behindCount, if_pos starts, dropped, String.ofList_toList]

/-- A name without columns, columns without a name, and both are told apart. -/
theorem statsParts_tail (name : Option Ident) (groupBy : List Ident) :
    statsParts (tailText name groupBy) = .ok ((name.getD countName).text, columnsText groupBy) := by
  cases name with
  | none =>
      cases groupBy with
      | nil => rfl
      | cons col others =>
          have columns := trimmed_columns (List.cons_ne_nil col others)
          have noName : ∀ c : Char, c ≠ 'b' → ∀ start,
              ¬ c :: start <+: ("by " ++ columnsText (col :: others)).toList := by
            intro c other start
            rw [String.toList_append]
            exact not_prefix_of_ne other
          rw [tailText, statsParts_plain (noName 'a' (by decide) _) (noName 'A' (by decide) _),
            splitOnce_start, Option.elim_some, columns.trim_eq]
          rfl
  | some name =>
      have noBlank : ' ' ∉ name.text.toList := name.absent (by decide)
      cases groupBy with
      | nil =>
          rw [tailText, statsParts_keyword (Or.inl rfl),
            splitOnce_eq_none rfl noBlank, Option.elim_none, name.trimmed.trim_eq,
            ident_of_isIdent name.isIdent]
          rfl
      | cons col others =>
          have columns := trimmed_columns (List.cons_ne_nil col others)
          rw [tailText, statsParts_keyword (Or.inl rfl),
            splitOnce_append rfl noBlank, Option.elim_some, name.trimmed.trim_eq,
            ident_of_isIdent name.isIdent, columns.trim_eq]
          rfl

namespace DslStage

/-- A limit is a machine word. -/
def Fits : DslStage → Prop
  | .limit _ n => n < 2 ^ 64
  | _ => True

variable {stage : DslStage} {p : Parts}

theorem lower_search (term : Phrase) :
    Command.search.lower p.builder (search term).text =
      .ok (put .coded p (search term)).builder := by
  have some_ : trim (argument (search term).text) ≠ "" := by
    rw [argument_text, rest, term.trimmed.trim_eq]
    exact term.trimmed.nonempty
  rw [Command.lower, if_neg some_, argument_text, rest, term.trimmed.trim_eq, put,
    Parts.builder, Parts.builder, List.map_append, List.map_singleton, like_text]
  rfl

theorem lower_stats (name : Option Ident) (groupBy : List Ident) :
    Command.stats.lower p.builder (stats name groupBy).text =
      .ok (put .coded p (stats name groupBy)).builder := by
  have behind :
      behindCount (argument (stats name groupBy).text) = some (tailText name groupBy) := by
    rw [argument_text, rest, behindCount_append, trim_spaced (trimmed_tail name groupBy)]
  rw [Command.lower, parseStats_argument, behind, Option.elim_some, statsParts_tail]
  show countBy p.builder (name.getD countName).text (columnsText groupBy) = _
  cases groupBy with
  | nil =>
      rw [put, Parts.builder, Parts.builder, List.map_append]
      rfl
  | cons col others =>
      have some_ := (trimmed_columns (List.cons_ne_nil col others)).nonempty
      rw [countBy, if_neg some_, idents_columns (List.cons_ne_nil col others), put,
        Parts.builder, Parts.builder, List.map_append]
      rfl

theorem lower_fields (first : Ident) (others : List Ident) :
    Command.fields.lower p.builder (fields first others).text =
      .ok (put .coded p (fields first others)).builder := by
  rw [Command.lower, argument_text, rest, idents_columns (List.cons_ne_nil first others)]
  rfl

theorem splitWhitespace_sort (col : Ident) (direction : Option Direction) :
    splitWhitespace (sort col direction).rest = col.text ::
      (direction.map Direction.word).toList := by
  rcases direction with _ | direction
  · rw [rest, Option.elim_none, spaced, if_pos rfl, String.append_empty,
      splitWhitespace_plain col.nonempty col.plain]
    rfl
  · have isWord : direction.word ≠ "" ∧
        ∀ c, c ∈ direction.word.toList → isWhitespace c = false := by
      cases direction <;> decide
    rw [rest, Option.elim_some, spaced, if_neg isWord.1,
      splitWhitespace_word col.nonempty col.plain, splitWhitespace_plain isWord.1 isWord.2]
    rfl

theorem lower_sort (col : Ident) (direction : Option Direction) :
    Command.sort.lower p.builder (sort col direction).text =
      .ok (put .coded p (sort col direction)).builder := by
  have sorted :
      sortDirection (direction.map Direction.word) = (direction.getD .ascending).text := by
    rcases direction with _ | _ | _ <;> decide
  have second : (direction.map Direction.word).toList[0]? = direction.map Direction.word := by
    cases direction <;> rfl
  rw [Command.lower, argument_text, splitWhitespace_sort]
  dsimp only [List.head?_cons, Option.getD_some, List.getElem?_cons_succ]
  rw [ident_of_isIdent col.isIdent, second, sorted]
  rfl

theorem lower_limit (word : LimitWord) {n : Nat} (fits : n < 2 ^ 64) :
    Command.limit.lower p.builder (limit word n).text =
      .ok (put .coded p (limit word n)).builder := by
  rw [Command.lower, argument_text, rest, trim_toString, parseUsize_toString fits]
  rfl

/-- A condition that has been parsed is added. -/
theorem lower_where {raw : String} {condition : Condition}
    (parsed : parseWhere (argument raw) = .ok condition.text) :
    Command.where_.lower p.builder raw =
      .ok { p with conditions := p.conditions ++ [condition] }.builder := by
  rw [Command.lower, parsed, Parts.builder, Parts.builder, List.map_append, List.map_singleton]
  rfl

/-- A stage that fits is lowered to what the code reads. -/
theorem lowerStage_text (fits : stage.Fits) :
    lowerStage p.builder stage.text = .ok (stage.put .coded p).builder := by
  rw [lowerStage_of_read stage.read_text]
  cases stage with
  | search term => exact lower_search term
  | compare col op value =>
      have parsed : parseWhere (argument (DslStage.compare col op value).text) =
          .ok (Condition.compare col op (Reading.coded.operand value)).text := by
        rw [argument_text, rest, parseWhere_compare, Reading.coded_operand]
      exact lower_where parsed
  | contains col value =>
      have parsed : parseWhere (argument (contains col value).text) =
          .ok (Condition.like col (Reading.coded.content value)).text := by
        rw [argument_text, rest, parseWhere_contains, Reading.coded_content]
      exact lower_where parsed
  | stats name groupBy => exact lower_stats name groupBy
  | fields first others => exact lower_fields first others
  | sort col direction => exact lower_sort col direction
  | limit word n => exact lower_limit word fits

end DslStage

end Api
end Sigil
