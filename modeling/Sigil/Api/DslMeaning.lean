import Sigil.Api.DslPipeline

namespace Sigil
namespace Api

/-!
# When a query means what the grammar says

A pipeline is lowered to its SQL when the code reads all its values as they are meant, and its
limits are machine words.  Where a value is read otherwise the SQL has other literals, which a
scanner tells apart.
-/

open Sigil.Core Library

/-! ## Printed pipelines -/

namespace DslValue

theorem absent_text (value : DslValue) : '|' ∉ value.text.toList := by
  cases value with
  | bare phrase _ => exact phrase.noBar
  | quoted mark content noBar =>
      have noMark : '|' ∉ (String.singleton mark.char).toList := by
        cases mark <;> decide
      rw [text, String.toList_append, String.toList_append, List.mem_append,
        List.mem_append, not_or, not_or]
      exact ⟨noMark, noBar, noMark⟩

end DslValue

theorem not_mem_append {c : Char} {s t : String} (first : c ∉ s.toList)
    (second : c ∉ t.toList) :
    c ∉ (s ++ t).toList := by
  rw [String.toList_append, List.mem_append, not_or]
  exact ⟨first, second⟩

theorem absent_spaced {tail : String} (absent : '|' ∉ tail.toList) :
    '|' ∉ (spaced tail).toList := by
  rw [spaced]
  split
  · decide
  · exact not_mem_append (by decide) absent

theorem absent_tail (name : Option Ident) (groupBy : List Ident) :
    '|' ∉ (tailText name groupBy).toList := by
  have columns := absent_columns (c := '|') (by decide) (by decide)
  rcases name with _ | name <;> rcases groupBy with _ | ⟨col, others⟩
  · exact List.not_mem_nil
  · exact not_mem_append (by decide) (columns _)
  · exact not_mem_append (by decide) (name.absent (by decide))
  · exact not_mem_append (by decide)
      (not_mem_append (name.absent (by decide)) (not_mem_append (by decide) (columns _)))

namespace DslStage

/-- No bar stands in a printed stage. -/
theorem absent_text (stage : DslStage) : '|' ∉ stage.text.toList := by
  have names : ∀ cmd : Command, ∀ name, name ∈ cmd.names → '|' ∉ name.toList := by
    intro cmd
    cases cmd <;> decide
  have blank : '|' ∉ " ".toList := by
    decide
  have argument : '|' ∉ stage.rest.toList := by
    cases stage with
    | search term => exact term.noBar
    | compare col op value =>
        have operator : '|' ∉ op.text.toList := by
          cases op <;> decide
        exact not_mem_append (col.absent (by decide)) (not_mem_append blank
          (not_mem_append operator (not_mem_append blank value.absent_text)))
    | contains col value =>
        exact not_mem_append (col.absent (by decide)) (not_mem_append blank
          (not_mem_append (by decide) (not_mem_append blank value.absent_text)))
    | stats name groupBy =>
        exact not_mem_append (by decide) (absent_spaced (absent_tail name groupBy))
    | fields first others => exact absent_columns (by decide) (by decide) (first :: others)
    | sort col direction =>
        have word : '|' ∉ (direction.elim "" Direction.word).toList := by
          rcases direction with _ | _ | _ <;> decide
        exact not_mem_append (col.absent (by decide)) (absent_spaced word)
    | limit _ n => exact not_mem_toString (by decide)
  exact not_mem_append (names _ _ stage.word_mem_names) (not_mem_append blank argument)

end DslStage

theorem lowerStage_congr {b : Builder} {raw other : String} (same : trim raw = trim other) :
    lowerStage b raw = lowerStage b other := by
  rw [lowerStage, lowerStage, same]

theorem foldlM_lowerStage_congr {raws texts : List String} {b : Builder}
    (same : List.Forall₂ (fun raw text => trim raw = trim text) raws texts) :
    raws.foldlM lowerStage b = texts.foldlM lowerStage b := by
  induction same generalizing b with
  | nil => rfl
  | cons here _ inductionHypothesis =>
      rw [List.foldlM_cons, List.foldlM_cons, lowerStage_congr here]
      apply congrArg
      funext middle
      exact inductionHypothesis

/-- A printed pipeline is lowered stage by stage. -/
theorem lower_printed (pipeline : List DslStage) :
    lower (printed pipeline) = (do
      let b ← (pipeline.map DslStage.text).foldlM lowerStage Parts.empty.builder
      return b.render) := by
  cases pipeline with
  | nil => rfl
  | cons stage pipeline =>
      have absent :
          ∀ text, text ∈ (stage :: pipeline).map DslStage.text → '|' ∉ text.toList := by
        intro text member
        rcases List.mem_map.mp member with ⟨other, _, rfl⟩
        exact other.absent_text
      have parts : List.Forall₂ (fun raw text => trim raw = trim text)
          (splitChar '|' ((" " ++ (String.singleton '|' ++ " ")).intercalate
            ((stage :: pipeline).map DslStage.text))) ((stage :: pipeline).map DslStage.text) :=
        splitChar_intercalate (by decide) (by decide) (by decide) (List.cons_ne_nil _ _) absent
      rw [← foldlM_lowerStage_congr parts]
      rfl

theorem foldlM_text {pipeline : List DslStage} {p : Parts}
    (fits : ∀ stage, stage ∈ pipeline → stage.Fits) :
    (pipeline.map DslStage.text).foldlM lowerStage p.builder =
      .ok (pipeline.foldl (DslStage.put .coded) p).builder := by
  induction pipeline generalizing p with
  | nil => rfl
  | cons stage pipeline inductionHypothesis =>
      rcases List.forall_mem_cons.mp fits with ⟨here, later⟩
      rw [List.map_cons, List.foldlM_cons, DslStage.lowerStage_text here]
      exact inductionHypothesis later

/-- Where the limits are machine words the SQL is the one that the code reads. -/
theorem lower_printed_of_fits {pipeline : List DslStage}
    (fits : ∀ stage, stage ∈ pipeline → stage.Fits) :
    lower (printed pipeline) = .ok (queryOf .coded pipeline).text := by
  rw [lower_printed, foldlM_text fits, queryOf, ← Parts.render_builder]
  rfl

theorem limitDigits_toString (n : Nat) : LimitDigits (toString n) (Nat.toDigits 10 n) := by
  refine ⟨Or.inl ?_, Nat.toDigits_ne_nil, fun c inside =>
    Nat.isDigit_of_mem_toDigits (by decide) (by decide) inside⟩
  rw [Nat.toString_eq_repr, Nat.toList_repr]

/-- Other limits are rejected. -/
theorem fits_of_lower_printed {pipeline : List DslStage} {sql : String}
    (lowered : lower (printed pipeline) = .ok sql) :
    ∀ stage, stage ∈ pipeline → stage.Fits := by
  intro stage member
  rw [lower_printed] at lowered
  rcases Pointwise.of_bind_ok lowered with ⟨b, staged, _⟩
  have accepted :=
    foldlM_lowerStage_ok_iff.mp ⟨b, staged⟩ stage.text (List.mem_map_of_mem member)
  rcases (lowerStage_ok_iff (b := b)).mpr accepted with ⟨b', here⟩
  rw [lowerStage_of_read stage.read_text] at here
  cases stage with
  | limit word n =>
      rw [DslStage.command, Command.lower, DslStage.argument_text, DslStage.rest,
        trim_toString] at here
      cases read : parseUsize (toString n) with
      | none =>
          rw [read] at here
          cases here
      | some m =>
          rcases parseUsize_eq_some_iff.mp read with
            ⟨digits, shape, nonempty, areDigits, rfl, bound⟩
          have same := (limitDigits_toString n).unique ⟨shape, nonempty, areDigits⟩
          rw [← same, digitsValue_toDigits] at bound
          exact bound
  | _ => trivial

/-- Every printed stage is one of the grammar. -/
theorem inGrammar_text (stage : DslStage) : InGrammar stage.text := by
  refine Or.inr ⟨stage.command, stage.read_text, ?_⟩
  rw [stage.argument_text]
  have condition : ∀ (col : Ident) (op : String) (value : DslValue), op ≠ "" →
      (∀ c, c ∈ op.toList → isWhitespace c = false) →
      (comparison op ≠ none ∨ op = "contains") →
        WhereArgument (col.text ++ (" " ++ (op ++ (" " ++ value.text)))) := by
    intro col op value isOp plainOp operator
    rcases List.exists_cons_of_ne_nil (splitWhitespace_ne_nil value.trimmed_text) with
      ⟨word, words, shape⟩
    refine ⟨col.text, op, word, words, ?_, col.isIdent, operator⟩
    rw [splitWhitespace_condition col isOp plainOp, shape]
  cases stage with
  | search term => trivial
  | compare col op value =>
      have isOp : op.text ≠ "" ∧ (∀ c, c ∈ op.text.toList → isWhitespace c = false) ∧
          comparison op.text ≠ none := by
        cases op <;> decide
      exact condition col op.text value isOp.1 isOp.2.1 (Or.inl isOp.2.2)
  | contains col value => exact condition col "contains" value (by decide) (by decide) (Or.inr rfl)
  | stats name groupBy =>
      have behind :
          behindCount (DslStage.stats name groupBy).rest = some (tailText name groupBy) := by
        rw [DslStage.rest, behindCount_append, trim_spaced (trimmed_tail name groupBy)]
      have areColumns : ∀ col others, ColumnList (trim (columnsText (col :: others))) := by
        intro col others
        have some_ := List.cons_ne_nil col others
        rw [(trimmed_columns some_).trim_eq]
        exact idents_ok_iff.mp ⟨_, idents_columns some_⟩
      refine ⟨tailText name groupBy, behind, ?_⟩
      rcases name with _ | name <;> rcases groupBy with _ | ⟨col, others⟩
      · exact .nothing
      · exact .grouped (areColumns col others)
      · refine .named (Or.inl rfl) ?_
        rw [name.trimmed.trim_eq]
        exact name.isIdent
      · refine .namedBy (Or.inl rfl) ?_ (splitOnce_append rfl (name.absent (by decide)) _)
          (areColumns col others)
        rw [name.trimmed.trim_eq]
        exact name.isIdent
  | fields first others =>
      exact idents_ok_iff.mp ⟨_, idents_columns (List.cons_ne_nil first others)⟩
  | sort col direction =>
      show SortWords (splitWhitespace (DslStage.sort col direction).rest)
      rw [DslStage.splitWhitespace_sort]
      rcases direction with _ | _ | _
      · exact .column col.isIdent
      · exact .direction col.isIdent (Or.inl (by decide))
      · exact .direction col.isIdent (Or.inr (by decide))
  | limit word n =>
      refine ⟨Nat.toDigits 10 n, ?_⟩
      rw [DslStage.rest, trim_toString]
      exact limitDigits_toString n

/-! ## Values that are read as they are meant -/

namespace DslValue

/-- A bare decimal number. -/
def IsNumber : DslValue → Prop
  | .bare phrase _ => isDecimalNumber phrase.text = true
  | .quoted _ _ _ => False

/-- A value that is read as it is meant: a bare decimal number, or a text without white space to
collapse that is not read as a number. -/
def ReadAsMeant (value : DslValue) : Prop :=
  value.IsNumber ∨ value.SingleSpaced ∧ parsesF64 value.content = false

theorem operand_of_number {v : String} (parses : parsesF64 v = true) :
    operand v = .number ⟨v, parses⟩ :=
  dif_pos parses

theorem operand_of_text {v : String} (noNumber : parsesF64 v = false) : operand v = .quoted v :=
  dif_neg (by rw [noNumber]; exact Bool.false_ne_true)

theorem meaning_of_text {value : DslValue} (noNumber : ¬ value.IsNumber) :
    value.meaning = .quoted value.content := by
  cases value with
  | bare phrase _ => exact dif_neg noNumber
  | quoted _ _ _ => rfl

theorem not_isNumber {value : DslValue} (noNumber : parsesF64 value.content = false) :
    ¬ value.IsNumber := by
  intro isNumber
  cases value with
  | bare phrase _ =>
      rw [content, parsesF64_of_decimal isNumber] at noNumber
      cases noNumber
  | quoted _ _ _ => exact isNumber

/-- A bare decimal number is read as itself. -/
theorem operand_of_isNumber {value : DslValue} (isNumber : value.IsNumber) :
    operand value.read = value.meaning := by
  cases value with
  | bare phrase noMarks =>
      have spaced : (DslValue.bare phrase noMarks).SingleSpaced := by
        rw [SingleSpaced, text,
          splitWhitespace_plain phrase.trimmed.nonempty (plain_of_decimal isNumber)]
        exact String.intercalate_singleton
      have same := (read_eq_content_iff (.bare phrase noMarks)).mpr spaced
      have decimal : isDecimalNumber phrase.text = true := isNumber
      rw [same, content, operand_of_number (parsesF64_of_decimal decimal), meaning, dif_pos decimal]
  | quoted _ _ _ => exact False.elim isNumber

theorem operand_of_readAsMeant {value : DslValue} (asMeant : value.ReadAsMeant) :
    operand value.read = value.meaning := by
  rcases asMeant with isNumber | ⟨spaced, noNumber⟩
  · exact operand_of_isNumber isNumber
  · rw [value.read_eq_content_iff.mpr spaced, operand_of_text noNumber,
      meaning_of_text (not_isNumber noNumber)]

end DslValue

namespace DslStage

/-- The code reads the stage as it is meant. -/
def Faithful : DslStage → Prop
  | .compare _ _ value => value.ReadAsMeant
  | .contains _ value => value.SingleSpaced
  | .limit _ n => n < 2 ^ 64
  | _ => True

/-- The condition of a stage. -/
def conditions (reading : Reading) : DslStage → List Condition
  | .search term => [.like messageColumn term.text]
  | .compare col op value => [.compare col op (reading.operand value)]
  | .contains col value => [.like col (reading.content value)]
  | _ => []

/-- What stands in the literal of a stage. -/
def contents (reading : Reading) (stage : DslStage) : List String :=
  (stage.conditions reading).flatMap Condition.contents

theorem put_conditions (reading : Reading) (p : Parts) (stage : DslStage) :
    (stage.put reading p).conditions = p.conditions ++ stage.conditions reading := by
  cases stage with
  | search _ => rfl
  | compare _ _ _ => rfl
  | contains _ _ => rfl
  | stats _ groupBy => cases groupBy <;> exact (List.append_nil _).symm
  | fields _ _ => exact (List.append_nil _).symm
  | sort _ _ => exact (List.append_nil _).symm
  | limit _ _ => exact (List.append_nil _).symm

theorem fits_of_faithful {stage : DslStage} (faithful : stage.Faithful) : stage.Fits := by
  cases stage with
  | limit _ _ => exact faithful
  | _ => trivial

theorem put_of_faithful {stage : DslStage} (faithful : stage.Faithful) (p : Parts) :
    stage.put .coded p = stage.put .meant p := by
  cases stage with
  | compare col op value =>
      rw [put, put, Reading.coded_operand, DslValue.operand_of_readAsMeant faithful,
        Reading.meant_operand]
  | contains col value =>
      rw [put, put, Reading.coded_content, value.read_eq_content_iff.mpr faithful,
        Reading.meant_content]
  | stats _ groupBy => cases groupBy <;> rfl
  | search _ => rfl
  | fields _ _ => rfl
  | sort _ _ => rfl
  | limit _ _ => rfl

/-- The code reads no literal where none is meant. -/
theorem length_contents_le (stage : DslStage) :
    (stage.contents .coded).length ≤ (stage.contents .meant).length := by
  cases stage with
  | compare col op value =>
      rw [contents, contents, conditions, conditions, List.flatMap_singleton,
        List.flatMap_singleton, Reading.coded_operand, Reading.meant_operand]
      by_cases isNumber : value.IsNumber
      · rw [DslValue.operand_of_isNumber isNumber]
      · have meant := DslValue.meaning_of_text isNumber
        rw [meant]
        cases operand value.read with
        | number _ => exact Nat.zero_le _
        | quoted _ => exact Nat.le_refl _
  | contains col value =>
      rw [contents, contents, conditions, conditions, List.flatMap_singleton,
        List.flatMap_singleton, Condition.contents, Condition.contents, List.length_singleton,
        List.length_singleton]
  | search _ => exact Nat.le_refl _
  | stats _ _ => exact Nat.le_refl _
  | fields _ _ => exact Nat.le_refl _
  | sort _ _ => exact Nat.le_refl _
  | limit _ _ => exact Nat.le_refl _

/-- A stage whose literal is read as it is meant. -/
theorem faithful_of_contents {stage : DslStage} (fits : stage.Fits)
    (same : stage.contents .coded = stage.contents .meant) : stage.Faithful := by
  cases stage with
  | compare col op value =>
      by_cases isNumber : value.IsNumber
      · exact Or.inl isNumber
      · have meant := DslValue.meaning_of_text isNumber
        rw [contents, contents, conditions, conditions, List.flatMap_singleton,
          List.flatMap_singleton, Reading.coded_operand, Reading.meant_operand, meant] at same
        cases parses : parsesF64 value.read with
        | true =>
            rw [DslValue.operand_of_number parses] at same
            cases same
        | false =>
            rw [DslValue.operand_of_text parses] at same
            have read : value.read = value.content := (List.cons.inj same).1
            rw [read] at parses
            exact Or.inr ⟨value.read_eq_content_iff.mp read, parses⟩
  | contains col value =>
      rw [contents, contents, conditions, conditions, List.flatMap_singleton,
        List.flatMap_singleton, Reading.coded_content, Reading.meant_content] at same
      have literal : "%" ++ value.read ++ "%" = "%" ++ value.content ++ "%" :=
        (List.cons.inj same).1
      rw [String.append_left_inj, String.append_right_inj] at literal
      exact value.read_eq_content_iff.mp literal
  | limit _ _ => exact fits
  | search _ => trivial
  | stats _ _ => trivial
  | fields _ _ => trivial
  | sort _ _ => trivial

end DslStage

/-! ## Pipelines that mean what they say -/

theorem foldl_put_conditions (reading : Reading) (pipeline : List DslStage) (p : Parts) :
    (pipeline.foldl (DslStage.put reading) p).conditions =
      p.conditions ++ pipeline.flatMap (DslStage.conditions reading) := by
  induction pipeline generalizing p with
  | nil => exact (List.append_nil _).symm
  | cons stage pipeline inductionHypothesis =>
      rw [List.foldl_cons, inductionHypothesis, DslStage.put_conditions,
        List.flatMap_cons, List.append_assoc]

theorem contents_queryOf (reading : Reading) (pipeline : List DslStage) :
    (queryOf reading pipeline).contents = pipeline.flatMap (DslStage.contents reading) := by
  have conditions := foldl_put_conditions reading pipeline Parts.empty
  rw [Parts.empty, List.nil_append] at conditions
  rw [Query.contents, queryOf, Parts.query, Parts.empty, conditions, List.flatMap_assoc]
  rfl

theorem queryOf_of_faithful {pipeline : List DslStage}
    (faithful : ∀ stage, stage ∈ pipeline → stage.Faithful) :
    queryOf .coded pipeline = queryOf .meant pipeline := by
  have same :
      ∀ p, pipeline.foldl (DslStage.put .coded) p = pipeline.foldl (DslStage.put .meant) p := by
    induction pipeline with
    | nil => exact fun p => rfl
    | cons stage pipeline inductionHypothesis =>
        intro p
        rcases List.forall_mem_cons.mp faithful with ⟨here, later⟩
        rw [List.foldl_cons, List.foldl_cons, DslStage.put_of_faithful here,
          inductionHypothesis later]
  rw [queryOf, same, queryOf]

/-- Equal SQL has equal literals. -/
theorem contents_of_text_eq {q other : Query} (same : q.text = other.text) :
    q.contents = other.contents := by
  have literals := (readsAs_text q).literals_eq
  rw [same, (readsAs_text other).literals_eq] at literals
  exact (List.map_injective_iff.mpr (fun _ _ => String.toList_injective)
    (Option.some.inj literals)).symm

/-- A printed pipeline is lowered to its SQL exactly when all its stages are read as they are
meant. -/
theorem lower_printed_iff (pipeline : List DslStage) :
    lower (printed pipeline) = .ok (sqlOf pipeline) ↔
      ∀ stage, stage ∈ pipeline → stage.Faithful := by
  constructor
  · intro lowered
    have fits := fits_of_lower_printed lowered
    rw [lower_printed_of_fits fits] at lowered
    have contents := contents_of_text_eq (Except.ok.inj lowered)
    rw [contents_queryOf, contents_queryOf] at contents
    have each := Pointwise.eq_of_flatMap_eq (fun stage _ => stage.length_contents_le) contents
    exact fun stage member => DslStage.faithful_of_contents (fits stage member) (each stage member)
  · intro faithful
    rw [lower_printed_of_fits fun stage member => DslStage.fits_of_faithful (faithful stage member),
      queryOf_of_faithful faithful]
    rfl

/-- The printed form of a pipeline is lowered to its SQL exactly when its stages are read as they
are meant, and a query with a stage outside the grammar is rejected exactly when it is strict. -/
theorem lower_keeps_grammar_iff (pipeline : List DslStage) (dsl : String) :
    (lower (printed pipeline) = .ok (sqlOf pipeline) ↔
      ∀ stage, stage ∈ pipeline → stage.Faithful) ∧
      (((∃ raw, raw ∈ splitChar '|' dsl ∧ ¬ InGrammar raw) →
        ∃ e, lower dsl = .error e) ↔ Strict dsl) :=
  ⟨lower_printed_iff pipeline, rejects_iff_strict dsl⟩

def hostName : Ident where
  text := "host"
  nonempty := by decide
  chars := by decide

/-- A comparison with the name of a host, which is also a name of infinity. -/
def infinityStage : DslStage :=
  .compare hostName .equal (.bare ⟨"inf", trimmed_word (by decide) (by decide), by decide⟩
    (by decide +kernel))

/-- A direction that does not exist. -/
def sidewaysDsl : String :=
  "sort host sideways"

theorem not_inGrammar_sideways : ¬ InGrammar sidewaysDsl := by
  have words : splitWhitespace (argument sidewaysDsl) = ["host", "sideways"] := by decide +kernel
  apply not_inGrammar_of_loose
  refine ⟨.sort, by decide +kernel, ?_⟩
  rw [Command.TakesLoosely, words]
  refine ⟨⟨"host", "sideways", [], rfl, hostName.isIdent⟩, ?_⟩
  intro sorted
  cases sorted with
  | direction _ isDirection => exact absurd isDirection (by decide)

/-- A host is compared with infinity, and a query with a direction that does not exist is
accepted. -/
theorem not_lower_keeps_grammar :
    (lower (printed [infinityStage]) = .ok "SELECT * FROM events WHERE host = inf" ∧
      sqlOf [infinityStage] = "SELECT * FROM events WHERE host = 'inf'" ∧
      ¬ ∀ pipeline, lower (printed pipeline) = .ok (sqlOf pipeline)) ∧
    (∃ raw, raw ∈ splitChar '|' sidewaysDsl ∧ ¬ InGrammar raw) ∧
      lower sidewaysDsl = .ok "SELECT * FROM events ORDER BY host" ∧
      ¬ ∀ dsl, (∃ raw, raw ∈ splitChar '|' dsl ∧ ¬ InGrammar raw) → ∃ e,
        lower dsl = .error e := by
  have lowered : lower (printed [infinityStage]) = .ok "SELECT * FROM events WHERE host = inf" := by
    decide +kernel
  have meant : sqlOf [infinityStage] = "SELECT * FROM events WHERE host = 'inf'" := by
    decide +kernel
  have accepted : lower sidewaysDsl = .ok "SELECT * FROM events ORDER BY host" := by
    decide +kernel
  have outside : ∃ raw, raw ∈ splitChar '|' sidewaysDsl ∧ ¬ InGrammar raw :=
    ⟨sidewaysDsl, by decide +kernel, not_inGrammar_sideways⟩
  refine ⟨⟨lowered, meant, fun all => ?_⟩, outside, accepted, fun all => ?_⟩
  · have same := lowered.symm.trans (all [infinityStage])
    rw [meant] at same
    exact absurd same (by decide)
  · rcases all sidewaysDsl outside with ⟨e, refused⟩
    rw [accepted] at refused
    cases refused

end Api
end Sigil
