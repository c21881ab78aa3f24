import Sigil.Api.DslTemplate
import Sigil.Core.Blanks

namespace Sigil
namespace Api

/-!
# Which queries the pipe DSL accepts

The grammar of the stages, in the spellings that the parser takes on purpose: letter case of
commands and directions, white space around names, `==` and `<>` besides `=` and `!=`.  What is
accepted besides has words that nobody reads: behind the column of a `sort`, or behind `count()`.
-/

open Sigil.Core Library

/-! ## The grammar -/

def IsIdent (s : String) : Prop :=
  s ≠ "" ∧ ∀ c, c ∈ s.toList → isIdentChar c = true

/-- Names between commas. -/
def ColumnList (text : String) : Prop :=
  ∀ part, part ∈ splitChar ',' text → IsIdent (trim part)

/-- A column, an operator and a value. -/
def WhereArgument (text : String) : Prop :=
  ∃ col op word words, splitWhitespace text = col :: op :: word :: words ∧ IsIdent col ∧
    (comparison op ≠ none ∨ op = "contains")

/-- What stands behind `count()`. -/
def behindCount (text : String) : Option String :=
  if "count()".toList <+: (toAsciiLowercase text).toList then
    some (trim (String.ofList (text.toList.drop 7)))
  else none

/-- A name for the count, and columns to group by. -/
inductive StatsTail : String → Prop where
  | nothing : StatsTail ""
  | named {keyword name : String} (isKeyword : keyword = "as " ∨ keyword = "AS ")
      (isName : IsIdent (trim name)) : StatsTail (keyword ++ name)
  | namedBy {keyword name columns : String} (isKeyword : keyword = "as " ∨ keyword = "AS ")
      (isName : IsIdent (trim name))
      (first : splitOnce " by " (name ++ (" by " ++ columns)) = some (name, columns))
      (areColumns : ColumnList (trim columns)) :
        StatsTail (keyword ++ (name ++ (" by " ++ columns)))
  | grouped {columns : String} (areColumns : ColumnList (trim columns)) :
      StatsTail ("by " ++ columns)

/-- A column, and perhaps a direction. -/
inductive SortWords : List String → Prop where
  | column {col : String} (isColumn : IsIdent col) : SortWords [col]
  | direction {col dir : String} (isColumn : IsIdent col)
      (isDirection : toAsciiLowercase dir = "asc" ∨ toAsciiLowercase dir = "desc") :
      SortWords [col, dir]

/-- The decimal digits of a number, perhaps behind a plus sign. -/
def LimitDigits (text : String) (digits : List Char) : Prop :=
  (text.toList = digits ∨ text.toList = '+' :: digits) ∧ digits ≠ [] ∧
    ∀ c, c ∈ digits → c.isDigit = true

/-- The texts that a command takes. -/
def Command.Takes (text : String) : Command → Prop
  | .search => True
  | .where_ => WhereArgument text
  | .stats => ∃ after, behindCount text = some after ∧ StatsTail after
  | .fields => ColumnList text
  | .sort => SortWords (splitWhitespace text)
  | .limit => ∃ digits, LimitDigits (trim text) digits

/-- A stage of the grammar: nothing, or a command with what it takes. -/
def InGrammar (raw : String) : Prop :=
  trim raw = "" ∨ ∃ cmd, Command.read (command raw) = some cmd ∧ cmd.Takes (argument raw)

/-! ## What is accepted besides -/

/-- Words behind `count()` that are neither a name nor columns, though columns may follow them. -/
def LooseTail (after : String) : Prop :=
  after ≠ "" ∧ ¬ "as ".toList <+: after.toList ∧ ¬ "AS ".toList <+: after.toList ∧
    ¬ "by ".toList <+: after.toList ∧
      ∀ before columns, splitOnce "by " after = some (before, columns) →
      ColumnList (trim columns)

/-- Words behind a column that are not a direction. -/
def LooseSort (words : List String) : Prop :=
  (∃ col dir rest, words = col :: dir :: rest ∧ IsIdent col) ∧ ¬ SortWords words

/-- What a command takes besides. -/
def Command.TakesLoosely (text : String) : Command → Prop
  | .stats => ∃ after, behindCount text = some after ∧ LooseTail after
  | .sort => LooseSort (splitWhitespace text)
  | .search | .where_ | .fields | .limit => False

/-- A stage outside the grammar that is accepted. -/
def Loose (raw : String) : Prop :=
  ∃ cmd, Command.read (command raw) = some cmd ∧ cmd.TakesLoosely (argument raw)

/-- A limit that is no machine word. -/
def Command.Overflows (text : String) : Command → Prop
  | .limit => ∃ digits, LimitDigits (trim text) digits ∧ 2 ^ 64 ≤ digitsValue digits
  | .search | .where_ | .stats | .fields | .sort => False

def TooLarge (raw : String) : Prop :=
  ∃ cmd, Command.read (command raw) = some cmd ∧ cmd.Overflows (argument raw)

/-! ## Names and columns -/

theorem ident_of_isIdent {s : String} (isIdent : IsIdent s) : ident s = .ok s :=
  if_pos isIdent

theorem ident_ok_iff {s : String} : (∃ t, ident s = .ok t) ↔ IsIdent s := by
  constructor
  · rintro ⟨t, accepted⟩
    rcases ident_ok accepted with ⟨name, rfl, -⟩
    exact ⟨name.nonempty, name.chars⟩
  · intro isIdent
    exact ⟨s, ident_of_isIdent isIdent⟩

theorem idents_ok_iff {text : String} :
    (∃ names, idents text = .ok names) ↔ ColumnList text := by
  rw [idents, ColumnList]
  induction splitChar ',' text with
  | nil => simp [pure, Except.pure]
  | cons part parts inductionHypothesis =>
      rw [List.forall_mem_cons, ← inductionHypothesis, ← ident_ok_iff, List.mapM_cons]
      constructor
      · rintro ⟨names, accepted⟩
        rcases Pointwise.of_bind_ok accepted with ⟨first, isFirst, rest⟩
        rcases Pointwise.of_bind_ok rest with ⟨others, areOthers, -⟩
        exact ⟨⟨first, isFirst⟩, others, areOthers⟩
      · rintro ⟨⟨first, isFirst⟩, others, areOthers⟩
        refine ⟨first :: others, ?_⟩
        rw [isFirst, areOthers]
        rfl

/-! ## Conditions -/

theorem parseWhere_ok_iff {text : String} :
    (∃ sql, parseWhere text = .ok sql) ↔ WhereArgument text := by
  constructor
  · rintro ⟨sql, accepted⟩
    rw [parseWhere] at accepted
    split at accepted
    · next first op word words tokens =>
        rcases Pointwise.of_bind_ok accepted with ⟨col, isCol, rest⟩
        have operator : comparison op ≠ none ∨ op = "contains" := by
          split at rest
          on_goal 9 => exact Or.inr rfl
          on_goal 9 => cases rest
          all_goals exact Or.inl (Option.some_ne_none _)
        exact ⟨first, op, word, words, tokens, ident_ok_iff.mp ⟨col, isCol⟩, operator⟩
    · cases accepted
  · rintro ⟨col, op, word, words, tokens, isCol, operator⟩
    rw [parseWhere, tokens]
    dsimp only
    rw [ident_of_isIdent isCol]
    rcases operator with compares | rfl
    · rw [comparison.eq_def] at compares
      split at compares
      on_goal 9 => exact absurd rfl compares
      all_goals exact ⟨_, rfl⟩
    · exact ⟨_, rfl⟩

/-! ## Counting -/

theorem not_prefix_of_ne {start text : List Char} {c d : Char} (differ : c ≠ d) :
    ¬ c :: start <+: d :: text :=
  fun found => differ (List.cons_prefix_cons.mp found).1

/-- The keyword in front of a name is taken off. -/
theorem strip_keyword {keyword : String}
    (isKeyword : keyword = "as " ∨ keyword = "AS ") (name : String) :
    (stripPrefix "as " (keyword ++ name)).or (stripPrefix "AS " (keyword ++ name)) = some name := by
  rcases isKeyword with rfl | rfl
  · rw [stripPrefix_append]
    rfl
  · have other : stripPrefix "as " ("AS " ++ name) = none := by
      rw [stripPrefix, String.toList_append]
      exact if_neg (not_prefix_of_ne (by decide))
    rw [other, stripPrefix_append]
    rfl

/-- What the code reads behind `count()`: a name, and columns unless there are none. -/
def ReadsTail (after : String) : Prop :=
  ∃ aliasName byPart, statsParts after = .ok (aliasName, byPart) ∧
    (byPart = "" ∨ ColumnList byPart)

/-- A name, perhaps with columns. -/
theorem statsParts_keyword {keyword : String} (isKeyword : keyword = "as " ∨ keyword = "AS ")
    (stripped : String) :
    statsParts (keyword ++ stripped) = (splitOnce " by " stripped).elim
      (do
        let aliasName ← ident (trim stripped)
        return (aliasName, ""))
      fun parts => do
        let aliasName ← ident (trim parts.1)
        return (aliasName, trim parts.2) := by
  rw [statsParts, strip_keyword isKeyword]
  dsimp only
  rw [splitn_two]
  cases splitOnce " by " stripped with
  | none => rfl
  | some parts => rfl

theorem statsParts_plain {after : String} (noName : ¬ "as ".toList <+: after.toList)
    (noUpperName : ¬ "AS ".toList <+: after.toList) :
    statsParts after =
      .ok ("count", (splitOnce "by " after).elim "" fun parts => trim parts.2) := by
  rw [statsParts, stripPrefix_eq_none noName, stripPrefix_eq_none noUpperName]
  dsimp only [Option.or_none]
  cases splitOnce "by " after with
  | none => rfl
  | some parts => rfl

theorem splitOnce_start (rest : String) : splitOnce "by " ("by " ++ rest) = some ("", rest) := by
  have found : splitOnce "by " ("" ++ ("by " ++ rest)) = some ("", rest) :=
    splitOnce_append rfl List.not_mem_nil rest
  rwa [String.empty_append] at found

/-- The columns stand behind a blank. -/
theorem keyword_cut {name before columns : String} (keyword : String)
    (shape : name = before ++ (" by " ++ columns)) :
    keyword ++ name = (keyword ++ (before ++ " by")) ++ (" " ++ columns) := by
  rw [shape]
  simp only [String.append_assoc]
  rfl

/-- A name in a tight text has no columns in it. -/
theorem splitOnce_name {name keyword : String} (tight : TightEnd (keyword ++ name))
    (isName : IsIdent (trim name)) : splitOnce " by " name = none := by
  cases found : splitOnce " by " name with
  | none => rfl
  | some parts =>
      have shape := eq_of_splitOnce found
      have cut := keyword_cut keyword shape
      rcases tight.exists_plain cut with ⟨c, member, plain⟩
      rcases List.append_of_mem member with ⟨middle, rest, columns⟩
      have text : name.toList = (parts.1.toList ++ [' ', 'b']) ++ 'y' ::
          ((' ' :: middle) ++ c :: rest) := by
        rw [shape, String.toList_append, String.toList_append, columns]
        simp
      have blank : ' ' ∈ (trim name).toList := mem_trim text (by decide) plain List.mem_cons_self
      exact absurd (isName.2 ' ' blank) (by decide)

theorem readsTail_of_statsTail {after : String} (tight : TightEnd after) (tail : StatsTail after) :
    ReadsTail after := by
  cases tail with
  | nothing => exact ⟨"count", "", rfl, Or.inl rfl⟩
  | @named keyword name isKeyword isName =>
      refine ⟨trim name, "", ?_, Or.inl rfl⟩
      rw [statsParts_keyword isKeyword, splitOnce_name tight isName, Option.elim_none,
        ident_of_isIdent isName]
      rfl
  | @namedBy keyword name columns isKeyword isName first areColumns =>
      refine ⟨trim name, trim columns, ?_, Or.inr areColumns⟩
      rw [statsParts_keyword isKeyword, first, Option.elim_some, ident_of_isIdent isName]
      rfl
  | @grouped columns areColumns =>
      have noName :
          ∀ c : Char, c ≠ 'b' → ∀ start, ¬ c :: start <+: ("by " ++ columns).toList := by
        intro c other start
        rw [String.toList_append]
        exact not_prefix_of_ne other
      refine ⟨"count", trim columns, ?_, Or.inr areColumns⟩
      rw [statsParts_plain (noName 'a' (by decide) _) (noName 'A' (by decide) _), splitOnce_start]
      rfl

theorem readsTail_of_looseTail {after : String} (tail : LooseTail after) : ReadsTail after := by
  rcases tail with ⟨_, noName, noUpperName, _, areColumns⟩
  refine ⟨_, _, statsParts_plain noName noUpperName, ?_⟩
  cases found : splitOnce "by " after with
  | none => exact Or.inl rfl
  | some parts => exact Or.inr (areColumns parts.1 parts.2 found)

/-- Columns behind a blank in a tight text are not empty. -/
theorem columnList_of_tight {after before columns : String} (tight : TightEnd after)
    (shape : after = before ++ (" " ++ columns))
    (areColumns : trim columns = "" ∨ ColumnList (trim columns)) : ColumnList (trim columns) := by
  rcases tight.exists_plain shape with ⟨c, member, plain⟩
  exact areColumns.resolve_left (trim_ne_empty member plain)

theorem statsTail_of_keyword {keyword name : String}
    (isKeyword : keyword = "as " ∨ keyword = "AS ") (tight : TightEnd (keyword ++ name))
    (reads : ReadsTail (keyword ++ name)) :
    StatsTail (keyword ++ name) := by
  rcases reads with ⟨aliasName, byPart, accepted, areColumns⟩
  rw [statsParts_keyword isKeyword] at accepted
  cases found : splitOnce " by " name with
  | none =>
      rw [found] at accepted
      rcases Pointwise.of_bind_ok accepted with ⟨text, isName, _⟩
      exact .named isKeyword (ident_ok_iff.mp ⟨text, isName⟩)
  | some parts =>
      rw [found] at accepted
      rcases Pointwise.of_bind_ok accepted with ⟨text, isName, both⟩
      cases both
      have shape := eq_of_splitOnce found
      have cut := keyword_cut keyword shape
      rw [shape]
      exact .namedBy isKeyword (ident_ok_iff.mp ⟨_, isName⟩) (shape ▸ found)
        (columnList_of_tight tight cut areColumns)

theorem eq_append_of_prefix {start s : String} (found : start.toList <+: s.toList) :
    ∃ rest, s = start ++ rest := by
  rcases found with ⟨rest, shape⟩
  refine ⟨String.ofList rest, ?_⟩
  apply String.toList_injective
  rw [String.toList_append, String.toList_ofList, shape]

/-- Behind `count()` the grammar and the loose words are accepted, and nothing else. -/
theorem readsTail_iff {after : String} (tight : TightEnd after) :
    ReadsTail after ↔ StatsTail after ∨ LooseTail after := by
  constructor
  · intro reads
    by_cases isName : "as ".toList <+: after.toList
    · rcases eq_append_of_prefix isName with ⟨name, rfl⟩
      exact Or.inl (statsTail_of_keyword (Or.inl rfl) tight reads)
    by_cases isUpperName : "AS ".toList <+: after.toList
    · rcases eq_append_of_prefix isUpperName with ⟨name, rfl⟩
      exact Or.inl (statsTail_of_keyword (Or.inr rfl) tight reads)
    rcases reads with ⟨aliasName, byPart, accepted, areColumns⟩
    rw [statsParts_plain isName isUpperName] at accepted
    cases accepted
    have columns : ∀ before columns, splitOnce "by " after = some (before, columns) →
        ColumnList (trim columns) := by
      intro before columns found
      have shape := eq_of_splitOnce found
      have cut : after = (before ++ "by") ++ (" " ++ columns) := by
        rw [shape]
        simp only [String.append_assoc]
        rfl
      rw [found] at areColumns
      exact columnList_of_tight tight cut areColumns
    by_cases isBy : "by ".toList <+: after.toList
    · rcases eq_append_of_prefix isBy with ⟨rest, rfl⟩
      exact Or.inl (.grouped (columns "" rest (splitOnce_start rest)))
    · by_cases nothing : after = ""
      · rw [nothing]
        exact Or.inl .nothing
      · exact Or.inr ⟨nothing, isName, isUpperName, isBy, columns⟩
  · rintro (tail | tail)
    · exact readsTail_of_statsTail tight tail
    · exact readsTail_of_looseTail tail

/-! ## The text behind a command -/

theorem trimStart_argument (raw : String) : trimStart (argument raw) = argument raw :=
  trimStart_eq_self (head_trimStart _)

theorem trimStart_lower_argument (raw : String) :
    trimStart (toAsciiLowercase (argument raw)) = toAsciiLowercase (argument raw) := by
  apply trimStart_eq_self
  intro c head
  rw [toAsciiLowercase, String.toList_ofList, List.head?_map] at head
  rcases Option.map_eq_some_iff.mp head with ⟨d, first, rfl⟩
  rw [isWhitespace_toLower]
  exact head_trimStart _ d first

/-- A count with its name, and the columns to group by. -/
def countBy (b : Builder) (aliasName byPart : String) : Except DslError Builder :=
  let b := { b with aggregates := b.aggregates ++ ["count(*) AS " ++ aliasName] }
  if byPart = "" then return b
  else do
    let groupBy ← idents byPart
    return { b with groupBy := groupBy }

/-- A `stats` stage reads what stands behind `count()`. -/
theorem parseStats_argument (raw : String) (b : Builder) :
    parseStats (argument raw) b = (behindCount (argument raw)).elim
      (.error (.parse ("only `count()` is supported in `stats`, got `" ++ argument raw ++ "`")))
      fun after => statsParts after >>= fun parts => countBy b parts.1 parts.2 := by
  rw [parseStats, trimStart_lower_argument, trimStart_argument, behindCount]
  by_cases counts : "count()".toList <+: (toAsciiLowercase (argument raw)).toList
  · rw [if_neg (not_not.mpr counts), if_pos counts]
    rfl
  · rw [if_pos counts, if_neg counts]
    rfl

theorem countBy_ok_iff {b : Builder} {aliasName byPart : String} :
    (∃ b', countBy b aliasName byPart = .ok b') ↔ byPart = "" ∨ ColumnList byPart := by
  rw [countBy]
  dsimp only
  by_cases nothing : byPart = ""
  · rw [if_pos nothing]
    exact ⟨fun _ => Or.inl nothing, fun _ => ⟨_, rfl⟩⟩
  · rw [if_neg nothing, or_iff_right nothing, ← idents_ok_iff]
    constructor
    · rintro ⟨b', accepted⟩
      rcases Pointwise.of_bind_ok accepted with ⟨groupBy, grouped, _⟩
      exact ⟨groupBy, grouped⟩
    · rintro ⟨groupBy, grouped⟩
      rw [grouped]
      exact ⟨_, rfl⟩

theorem parseStats_ok_iff {raw : String} {b : Builder} :
    (∃ b', parseStats (argument raw) b = .ok b') ↔
      ∃ after, behindCount (argument raw) = some after ∧
        (StatsTail after ∨ LooseTail after) := by
  rw [parseStats_argument]
  cases counts : behindCount (argument raw) with
  | none =>
      constructor
      · rintro ⟨_, ⟨⟩⟩
      · rintro ⟨_, ⟨⟩, _⟩
  | some after =>
      have tight : TightEnd after := by
        rw [behindCount, Option.ite_none_right_eq_some] at counts
        rw [← Option.some.inj counts.2]
        exact tightEnd_trim _
      simp only [Option.some.injEq, exists_eq_left', Option.elim_some]
      rw [← readsTail_iff tight]
      constructor
      · rintro ⟨b', accepted⟩
        rcases Pointwise.of_bind_ok accepted with ⟨⟨aliasName, byPart⟩, parts, counted⟩
        exact ⟨aliasName, byPart, parts, countBy_ok_iff.mp ⟨b', counted⟩⟩
      · rintro ⟨aliasName, byPart, parts, areColumns⟩
        rw [parts]
        exact countBy_ok_iff.mpr areColumns

/-! ## Sorting and limits -/

theorem ident_head_ok_iff {words : List String} :
    (∃ col, ident (words.head?.getD "") = .ok col) ↔ SortWords words ∨ LooseSort words := by
  rw [ident_ok_iff]
  constructor
  · intro isColumn
    cases words with
    | nil => exact absurd rfl isColumn.1
    | cons col words =>
        cases words with
        | nil => exact Or.inl (.column isColumn)
        | cons dir rest =>
            by_cases sorted : SortWords (col :: dir :: rest)
            · exact Or.inl sorted
            · exact Or.inr ⟨⟨col, dir, rest, rfl, isColumn⟩, sorted⟩
  · rintro (sorted | ⟨⟨col, dir, rest, rfl, isColumn⟩, _⟩)
    · cases sorted with
      | column isColumn => exact isColumn
      | direction isColumn _ => exact isColumn
    · exact isColumn

theorem LimitDigits.unique {text : String} {digits others : List Char}
    (areDigits : LimitDigits text digits) (areOthers : LimitDigits text others) :
    digits = others := by
  have noSign : ∀ list : List Char, (∀ c, c ∈ list → c.isDigit = true) → ∀ rest,
      list ≠ '+' :: rest := by
    intro list digit rest same
    rw [same] at digit
    exact absurd (digit '+' List.mem_cons_self) (by decide)
  rcases areDigits with ⟨plain | signed, _, digit⟩
  · rcases areOthers with ⟨plainOther | signedOther, _, _⟩
    · exact plain.symm.trans plainOther
    · exact absurd (plain.symm.trans signedOther) (noSign digits digit others)
  · rcases areOthers with ⟨plainOther | signedOther, _, digitOther⟩
    · exact absurd (plainOther.symm.trans signed) (noSign others digitOther digits)
    · exact (List.cons.inj (signed.symm.trans signedOther)).2

theorem parseUsize_ok_iff {text : String} :
    (∃ n, parseUsize text = some n) ↔ (∃ digits, LimitDigits text digits) ∧
      ¬ ∃ digits, LimitDigits text digits ∧ 2 ^ 64 ≤ digitsValue digits := by
  constructor
  · rintro ⟨n, read⟩
    rcases parseUsize_eq_some_iff.mp read with ⟨digits, shape, nonempty, areDigits, rfl, bound⟩
    refine ⟨⟨digits, shape, nonempty, areDigits⟩, ?_⟩
    rintro ⟨others, areOthers, large⟩
    rw [areOthers.unique ⟨shape, nonempty, areDigits⟩] at large
    omega
  · rintro ⟨⟨digits, areDigits⟩, small⟩
    have bound : digitsValue digits < 2 ^ 64 := by
      by_contra large
      exact small ⟨digits, areDigits, Nat.le_of_not_lt large⟩
    exact ⟨digitsValue digits, parseUsize_eq_some_iff.mpr
      ⟨digits, areDigits.1, areDigits.2.1, areDigits.2.2, rfl, bound⟩⟩

/-! ## One stage -/

section Stage

variable {b : Builder} {raw : String}

/-- A command accepts what it takes, unless it is a limit that is too large. -/
theorem Command.lower_ok_iff {cmd : Command} :
    (∃ b', cmd.lower b raw = .ok b') ↔
      cmd.Takes (argument raw) ∧ ¬ cmd.Overflows (argument raw) ∨
        cmd.TakesLoosely (argument raw) := by
  cases cmd with
  | search =>
      refine iff_of_true ?_ (Or.inl ⟨trivial, not_false⟩)
      rw [Command.lower]
      by_cases noTerm : trim (argument raw) = ""
      · exact ⟨b, if_pos noTerm⟩
      · exact ⟨_, if_neg noTerm⟩
  | where_ =>
      rw [Command.lower, Command.Takes, Command.Overflows, Command.TakesLoosely,
        and_iff_left not_false, or_false, ← parseWhere_ok_iff]
      constructor
      · rintro ⟨b', accepted⟩
        rcases Pointwise.of_bind_ok accepted with ⟨condition, parsed, _⟩
        exact ⟨condition, parsed⟩
      · rintro ⟨condition, parsed⟩
        rw [parsed]
        exact ⟨_, rfl⟩
  | stats =>
      rw [Command.lower, Command.Takes, Command.Overflows, Command.TakesLoosely,
        and_iff_left not_false, parseStats_ok_iff, ← exists_or]
      simp only [and_or_left]
  | fields =>
      rw [Command.lower, Command.Takes, Command.Overflows, Command.TakesLoosely,
        and_iff_left not_false, or_false, ← idents_ok_iff]
      constructor
      · rintro ⟨b', accepted⟩
        rcases Pointwise.of_bind_ok accepted with ⟨fields, parsed, _⟩
        exact ⟨fields, parsed⟩
      · rintro ⟨fields, parsed⟩
        rw [parsed]
        exact ⟨_, rfl⟩
  | sort =>
      rw [Command.lower, Command.Takes, Command.Overflows, Command.TakesLoosely,
        and_iff_left not_false, ← ident_head_ok_iff]
      constructor
      · rintro ⟨b', accepted⟩
        rcases Pointwise.of_bind_ok accepted with ⟨col, parsed, _⟩
        exact ⟨col, parsed⟩
      · rintro ⟨col, parsed⟩
        rw [parsed]
        exact ⟨_, rfl⟩
  | limit =>
      rw [Command.lower, Command.Takes, Command.Overflows, Command.TakesLoosely, or_false,
        ← parseUsize_ok_iff]
      cases parseUsize (trim (argument raw)) with
      | none => simp
      | some n => simp

/-- A stage is accepted. -/
def Accepted (raw : String) : Prop :=
  InGrammar raw ∧ ¬ TooLarge raw ∨ Loose raw

theorem lowerStage_ok_iff : (∃ b', lowerStage b raw = .ok b') ↔ Accepted raw := by
  cases read : Command.read (command raw) with
  | none =>
      simp only [Accepted, InGrammar, TooLarge, Loose, read, reduceCtorEq, false_and, exists_false,
        or_false, not_false_eq_true, and_true]
      by_cases blank : trim raw = ""
      · exact iff_of_true ⟨b, lowerStage_blank blank⟩ blank
      · exact iff_of_false (lowerStage_unknown blank read) blank
  | some cmd =>
      rw [lowerStage_of_read read, Command.lower_ok_iff]
      simp only [Accepted, InGrammar, TooLarge, Loose, read, Option.some.injEq, exists_eq_left',
        or_iff_right (ne_blank_of_read read)]

end Stage

/-! ## Whole queries -/

theorem foldlM_lowerStage_ok_iff {raws : List String} {b : Builder} :
    (∃ b', raws.foldlM lowerStage b = .ok b') ↔ ∀ raw, raw ∈ raws → Accepted raw := by
  induction raws generalizing b with
  | nil => exact iff_of_true ⟨b, rfl⟩ fun _ impossible => absurd impossible List.not_mem_nil
  | cons raw raws inductionHypothesis =>
      rw [List.foldlM_cons, List.forall_mem_cons]
      constructor
      · rintro ⟨b', accepted⟩
        rcases Pointwise.of_bind_ok accepted with ⟨middle, first, rest⟩
        exact ⟨lowerStage_ok_iff.mp ⟨middle, first⟩, inductionHypothesis.mp ⟨b', rest⟩⟩
      · rintro ⟨first, rest⟩
        rcases lowerStage_ok_iff.mpr first with ⟨middle, isFirst⟩
        rw [isFirst]
        exact inductionHypothesis.mpr rest

/-- A query is lowered when all its stages are accepted. -/
theorem lower_ok_iff {dsl : String} :
    (∃ sql, lower dsl = .ok sql) ↔ ∀ raw, raw ∈ splitChar '|' dsl → Accepted raw := by
  have staged : (∃ b, (splitChar '|' dsl).foldlM lowerStage {} = .ok b) ↔
      ∀ raw, raw ∈ splitChar '|' dsl → Accepted raw :=
    foldlM_lowerStage_ok_iff
  rw [lower, ← staged]
  constructor
  · rintro ⟨sql, accepted⟩
    rcases Pointwise.of_bind_ok accepted with ⟨b, isStaged, _⟩
    exact ⟨b, isStaged⟩
  · rintro ⟨b, isStaged⟩
    rw [isStaged]
    exact ⟨_, rfl⟩

theorem StatsTail.not_loose {after : String} (tail : StatsTail after) : ¬ LooseTail after := by
  rintro ⟨some_, noName, noUpperName, noBy, _⟩
  have starts : ∀ front rest : String, front.toList <+: (front ++ rest).toList := by
    intro front rest
    rw [String.toList_append]
    exact List.prefix_append _ _
  have noKeyword : ∀ keyword rest : String, keyword = "as " ∨ keyword = "AS " →
      after ≠ keyword ++ rest := by
    rintro keyword rest (rfl | rfl) rfl
    · exact noName (starts _ rest)
    · exact noUpperName (starts _ rest)
  cases tail with
  | nothing => exact some_ rfl
  | named isKeyword _ => exact noKeyword _ _ isKeyword rfl
  | namedBy isKeyword _ _ _ => exact noKeyword _ _ isKeyword rfl
  | grouped _ => exact noBy (starts _ _)

theorem Command.not_takes_of_takesLoosely {cmd : Command} {text : String}
    (loosely : cmd.TakesLoosely text) :
    ¬ cmd.Takes text := by
  cases cmd with
  | stats =>
      rcases loosely with ⟨after, counts, loose⟩
      rintro ⟨other, same, tail⟩
      cases Option.some.inj (counts.symm.trans same)
      exact tail.not_loose loose
  | sort => exact loosely.2
  | search => exact False.elim loosely
  | where_ => exact False.elim loosely
  | fields => exact False.elim loosely
  | limit => exact False.elim loosely

theorem not_inGrammar_of_loose {raw : String} (loose : Loose raw) : ¬ InGrammar raw := by
  rcases loose with ⟨cmd, read, loosely⟩
  rintro (blank | ⟨other, same, takes⟩)
  · exact ne_blank_of_read read blank
  · cases Option.some.inj (read.symm.trans same)
    exact Command.not_takes_of_takesLoosely loosely takes

theorem inGrammar_of_tooLarge {raw : String} (large : TooLarge raw) : InGrammar raw := by
  rcases large with ⟨cmd, read, overflows⟩
  refine Or.inr ⟨cmd, read, ?_⟩
  cases cmd with
  | limit =>
      rcases overflows with ⟨digits, areDigits, _⟩
      exact ⟨digits, areDigits⟩
  | search => exact False.elim overflows
  | where_ => exact False.elim overflows
  | stats => exact False.elim overflows
  | fields => exact False.elim overflows
  | sort => exact False.elim overflows

theorem not_accepted_iff {raw : String} :
    ¬ Accepted raw ↔ ¬ InGrammar raw ∧ ¬ Loose raw ∨ TooLarge raw := by
  have outside := @not_inGrammar_of_loose raw
  have inside := @inGrammar_of_tooLarge raw
  rw [Accepted]
  tauto

/-- Every stage is one of the grammar, or some stage is rejected: one outside the grammar that is
not loose, or a limit that is no machine word. -/
def Strict (dsl : String) : Prop :=
  (∀ raw, raw ∈ splitChar '|' dsl → InGrammar raw) ∨
    ∃ raw, raw ∈ splitChar '|' dsl ∧ (¬ InGrammar raw ∧ ¬ Loose raw ∨ TooLarge raw)

theorem lower_error_iff {dsl : String} :
    (∃ e, lower dsl = .error e) ↔
      ∃ raw, raw ∈ splitChar '|' dsl ∧
        (¬ InGrammar raw ∧ ¬ Loose raw ∨ TooLarge raw) := by
  have refused : (∃ e, lower dsl = .error e) ↔ ¬ ∃ sql, lower dsl = .ok sql := by
    cases lower dsl with
    | error e => simp
    | ok sql => simp
  rw [refused, lower_ok_iff, not_forall]
  apply exists_congr
  intro raw
  rw [Classical.not_imp, not_accepted_iff]

/-- A query with a stage outside the grammar is rejected exactly when it is strict. -/
theorem rejects_iff_strict (dsl : String) :
    ((∃ raw, raw ∈ splitChar '|' dsl ∧ ¬ InGrammar raw) → ∃ e, lower dsl = .error e) ↔
      Strict dsl := by
  rw [lower_error_iff, Strict, imp_iff_not_or, not_exists]
  apply or_congr_left
  apply forall_congr'
  intro raw
  rw [not_and, not_not]

end Api
end Sigil
