import Mathlib.Data.List.Forall2
import Sigil.Sigma.Grammar

namespace Sigil
namespace Sigma

/-!
# Condition strings

A text prints an expression when it lays out words that spell a derivation of it.
Keywords may be written in any case, parentheses need no white space around them, and an
identifier is a word that is neither a keyword nor a literal of a machine word.  The
parser inverts this relation.
-/

open Sigil.Core Library

/-- White space separates words, and a parenthesis is a word of its own. -/
def separators : Words.Separators Char where
  blank := isWhitespace
  single := fun c => c = '(' || c = ')'
  space := ' '
  space_blank := by decide
  disjoint := by
    intro c isBlank
    apply Bool.eq_false_iff.mpr
    intro isParen
    rcases (Bool.or_eq_true _ _).mp isParen with equal | equal
    · rw [decide_eq_true_eq] at equal
      subst equal
      exact absurd isBlank (by decide)
    · rw [decide_eq_true_eq] at equal
      subst equal
      exact absurd isBlank (by decide)

/-- A word that may name a selection. -/
structure Identifier (name : String) : Prop where
  nonempty : name.toList ≠ []
  plain : ∀ c, c ∈ name.toList → separators.Plain c
  notKeyword : keyword (toAsciiLowercase name) = none
  notNumber : ∀ n, ¬ UsizeLiteral n name

/-- A word spells a token. -/
def Tok.Spells : Tok → String → Prop
  | .num n, word => UsizeLiteral n word
  | .ident name, word => word = name ∧ Identifier name
  | tok, word => keyword (toAsciiLowercase word) = some tok

/-- A text prints an expression. -/
def Prints (e : Expr) (s : String) : Prop :=
  ∃ words toks, separators.Layout words s.toList ∧
    List.Forall₂ (fun tok word => tok.Spells (String.ofList word)) toks words ∧
      Derives .or toks e

/-! ## Words and tokens -/

/-- A keyword does not start like a number. -/
theorem keyword_head {word : String} {tok : Tok} (isKeyword : keyword word = some tok) :
    ∃ c rest, word.toList = c :: rest ∧ c.isDigit = false ∧ c ≠ '+' := by
  unfold keyword at isKeyword
  split at isKeyword
  case h_9 => cases isKeyword
  all_goals exact ⟨_, _, rfl, by decide, by decide⟩

theorem toLower_digit {c : Char} (isDigit : c.isDigit = true) : c.toLower = c := by
  delta Char.toLower
  rw [dif_neg]
  intro upper
  rw [Char.isDigit, Bool.and_eq_true, decide_eq_true_eq, decide_eq_true_eq] at isDigit
  have low : 'A'.val ≤ '9'.val := UInt32.le_trans upper.1 isDigit.2
  exact absurd low (by decide)

theorem keyword_literal {n : Nat} {word : String} (literal : UsizeLiteral n word) :
    keyword (toAsciiLowercase word) = none := by
  rcases literal with ⟨digits, either, nonempty, areDigits, _, _⟩
  apply Option.eq_none_iff_forall_ne_some.mpr
  intro tok isKeyword
  rcases keyword_head isKeyword with ⟨c, rest, lower, notDigit, notPlus⟩
  rw [toAsciiLowercase, String.toList_ofList] at lower
  rcases either with equal | equal
  · cases digits with
    | nil => exact nonempty rfl
    | cons first others =>
        have isDigit := areDigits first List.mem_cons_self
        rw [equal, List.map_cons, toLower_digit isDigit] at lower
        cases lower
        exact Bool.false_ne_true (notDigit.symm.trans isDigit)
  · rw [equal] at lower
    cases lower
    exact notPlus rfl

theorem keyword_cases {word : String} {tok : Tok} (isKeyword : keyword word = some tok) :
    (∀ n, tok ≠ .num n) ∧ ∀ name, tok ≠ .ident name := by
  unfold keyword at isKeyword
  split at isKeyword
  case h_9 => cases isKeyword
  all_goals
    cases isKeyword
    exact ⟨fun _ equal => Tok.noConfusion equal, fun _ equal => Tok.noConfusion equal⟩

/-- A word spells the token that it is read as, and no other. -/
theorem spells_iff {word : List Char} (isWord : separators.IsWord word) {tok : Tok} :
    tok.Spells (String.ofList word) ↔ tokenOf (String.ofList word) = tok := by
  rw [tokenOf]
  constructor
  · intro spells
    cases tok with
    | num n =>
        have literal : UsizeLiteral n (String.ofList word) := spells
        simp only [keyword_literal literal, parseUsize_eq_some_iff.mpr literal]
    | ident name =>
        rcases spells with ⟨rfl, identifier⟩
        have notNumber : parseUsize (String.ofList word) = none :=
          Option.eq_none_iff_forall_ne_some.mpr fun n isNumber =>
            identifier.notNumber n (parseUsize_eq_some_iff.mp isNumber)
        simp only [identifier.notKeyword, notNumber]
    | _ =>
        have isKeyword : keyword (toAsciiLowercase (String.ofList word)) = some _ := spells
        simp only [isKeyword]
  · intro equal
    split at equal
    · next other isKeyword =>
        subst equal
        have cases_ := keyword_cases isKeyword
        cases other with
        | num n => exact absurd rfl (cases_.1 n)
        | ident name => exact absurd rfl (cases_.2 name)
        | _ => exact isKeyword
    · next notKeyword =>
        split at equal
        · next n isNumber =>
            subst equal
            exact parseUsize_eq_some_iff.mp isNumber
        · next notNumber =>
            subst equal
            refine ⟨rfl, ?_, ?_, notKeyword, fun n literal => ?_⟩
            · rw [String.toList_ofList]
              rcases isWord with ⟨c, rfl, _⟩ | ⟨nonempty, _⟩
              · exact List.cons_ne_nil _ _
              · exact nonempty
            · rw [String.toList_ofList]
              rcases isWord with ⟨c, rfl, isParen⟩ | ⟨_, plain⟩
              · -- a parenthesis is a keyword
                rcases (Bool.or_eq_true _ _).mp isParen with equal | equal
                · cases of_decide_eq_true equal
                  cases notKeyword
                · cases of_decide_eq_true equal
                  cases notKeyword
              · exact plain
            · rw [parseUsize_eq_some_iff.mpr literal] at notNumber
              cases notNumber

/-- Spelling is the tokenizer. -/
theorem forall₂_spells_iff {words : List (List Char)} {toks : List Tok}
    (areWords : ∀ word, word ∈ words → separators.IsWord word) :
    List.Forall₂ (fun tok word => tok.Spells (String.ofList word)) toks words ↔
      (words.map fun word => tokenOf (String.ofList word)) = toks := by
  induction words generalizing toks with
  | nil =>
      rw [List.forall₂_nil_right_iff, List.map_nil]
      exact eq_comm
  | cons word words inductionHypothesis =>
      have rest := fun toks => @inductionHypothesis toks fun w member =>
        areWords w (List.mem_cons_of_mem _ member)
      cases toks with
      | nil => exact ⟨fun spells => (by cases spells), fun equal => (by cases equal)⟩
      | cons tok toks =>
          rw [List.forall₂_cons, List.map_cons, List.cons.injEq, rest,
            spells_iff (areWords word List.mem_cons_self)]

theorem spaced_eq (input : String) :
    (replace ')' " ) " (replace '(' " ( " input)).toList = separators.spread input.toList := by
  simp only [replace, String.toList_ofList, List.flatMap_assoc]
  rw [Words.Separators.spread]
  congr 1
  funext c
  by_cases isOpen : c = '('
  · subst isOpen
    rfl
  · rw [if_neg isOpen, List.flatMap_singleton]
    by_cases isClosed : c = ')'
    · subst isClosed
      rfl
    · rw [if_neg isClosed, if_neg]
      simp only [separators, isOpen, isClosed, decide_false, Bool.or_self, Bool.false_eq_true,
        not_false_eq_true]

/-- The tokens of a text are those of the words that it lays out. -/
theorem tokenize_eq (input : String) :
    tokenize input =
      let toks := (separators.scan input.toList).map fun word => tokenOf (String.ofList word)
      if toks.isEmpty then .error .empty else .ok toks := by
  rw [tokenize, splitWhitespace, spaced_eq, List.map_map]
  rfl

/-- A text prints an expression when its tokens derive it. -/
theorem prints_iff {e : Expr} {s : String} :
    Prints e s ↔ ∃ toks, tokenize s = .ok toks ∧ Derives .or toks e := by
  rw [tokenize_eq]
  constructor
  · rintro ⟨words, toks, layout, spelled, derives⟩
    rw [forall₂_spells_iff fun _ => layout.isWord,
      ← Words.Separators.layout_iff.mp layout] at spelled
    refine ⟨toks, ?_, derives⟩
    have nonempty : toks.isEmpty = false := List.isEmpty_eq_false_iff.mpr derives.nonempty
    simp only [spelled, nonempty, Bool.false_eq_true, if_false]
  · rintro ⟨toks, equal, derives⟩
    have layout : separators.Layout (separators.scan s.toList) s.toList :=
      Words.Separators.layout_iff.mpr rfl
    refine ⟨_, toks, layout, (forall₂_spells_iff fun _ => layout.isWord).mpr ?_, derives⟩
    simp only at equal
    split at equal
    · cases equal
    · cases equal
      rfl

/-! ## Expressions that can be printed -/

/-- A token that some word spells. -/
def Tok.Valid : Tok → Prop
  | .num n => n < 2 ^ 64
  | .ident name => Identifier name
  | _ => True

def Target.Valid : Target → Prop
  | .them => True
  | .pattern p => Identifier p

/-- The names are identifiers and the numbers are machine words. -/
def Expr.Valid : Expr → Prop
  | .ref name => Identifier name
  | .not e => e.Valid
  | .and a b => a.Valid ∧ b.Valid
  | .or a b => a.Valid ∧ b.Valid
  | .quant atLeast target => (∀ n, n ∈ atLeast → n < 2 ^ 64) ∧ target.Valid

theorem Target.valid_tok (target : Target) : target.tok.Valid ↔ target.Valid := by
  cases target <;> exact Iff.rfl

/-- The tokens of a derivation can be spelled when the expression is valid. -/
theorem Derives.valid_iff {level : Level} {toks : List Tok} {e : Expr}
    (derives : Derives level toks e) : (∀ tok, tok ∈ toks → tok.Valid) ↔ e.Valid := by
  have operator : ∀ tok : Tok, tok.Valid → ∀ left right : List Tok,
      (∀ t, t ∈ left ++ tok :: right → t.Valid) ↔
        (∀ t, t ∈ left → t.Valid) ∧ ∀ t, t ∈ right → t.Valid := by
    intro tok valid left right
    rw [List.forall_mem_append, List.forall_mem_cons]
    exact ⟨fun parts => ⟨parts.1, parts.2.2⟩, fun parts => ⟨parts.1, valid, parts.2⟩⟩
  induction derives with
  | or _ _ left right => exact (operator .or trivial _ _).trans (and_congr left right)
  | orOfAnd _ inductionHypothesis => exact inductionHypothesis
  | and _ _ left right => exact (operator .and trivial _ _).trans (and_congr left right)
  | andOfNot _ inductionHypothesis => exact inductionHypothesis
  | not _ inductionHypothesis =>
      exact List.forall_mem_cons.trans ((and_iff_right trivial).trans inductionHypothesis)
  | notOfPrimary _ inductionHypothesis => exact inductionHypothesis
  | ref name => exact List.forall_mem_singleton
  | @paren toks e _ inductionHypothesis =>
      have inside : (∀ tok, tok ∈ Tok.lparen :: toks → tok.Valid) ↔ e.Valid :=
        List.forall_mem_cons.trans ((and_iff_right trivial).trans inductionHypothesis)
      exact (operator .rparen trivial _ []).trans
        ⟨fun parts => inside.mp parts.1, fun valid =>
          ⟨inside.mpr valid, fun _ member => absurd member List.not_mem_nil⟩⟩
  | all target =>
      rw [List.forall_mem_cons, List.forall_mem_cons, List.forall_mem_singleton,
        Target.valid_tok, Expr.Valid]
      exact ⟨fun parts => ⟨fun _ member => absurd member (Option.not_mem_none _), parts.2.2⟩,
        fun parts => ⟨trivial, trivial, parts.2⟩⟩
  | atLeast n target =>
      rw [List.forall_mem_cons, List.forall_mem_cons, List.forall_mem_singleton,
        Target.valid_tok, Expr.Valid]
      exact ⟨fun parts => ⟨fun m member => Option.mem_some.mp member ▸ parts.1, parts.2.2⟩,
        fun parts => ⟨parts.1 n rfl, trivial, parts.2⟩⟩

/-- A digit stands inside a word. -/
theorem plain_digit {c : Char} (isDigit : c.isDigit = true) : separators.Plain c := by
  simp only [Char.isDigit, ge_iff_le, Bool.and_eq_true, decide_eq_true_eq,
    UInt32.le_iff_toNat_le] at isDigit
  have low : 48 ≤ c.toNat := isDigit.1
  have high : c.toNat ≤ 57 := isDigit.2
  constructor
  · simp only [separators, isWhitespace]
    simp
    omega
  · simp only [separators]
    apply Bool.eq_false_iff.mpr
    intro isParen
    rcases (Bool.or_eq_true _ _).mp isParen with equal | equal
    · rw [of_decide_eq_true equal] at low
      exact absurd low (by decide)
    · rw [of_decide_eq_true equal] at low
      exact absurd low (by decide)

theorem Tok.exists_spelling {tok : Tok} (valid : tok.Valid) :
    ∃ word, separators.IsWord word ∧ tok.Spells (String.ofList word) := by
  cases tok with
  | and => exact ⟨['a', 'n', 'd'], .of_plain (by decide) (by decide), rfl⟩
  | or => exact ⟨['o', 'r'], .of_plain (by decide) (by decide), rfl⟩
  | not => exact ⟨['n', 'o', 't'], .of_plain (by decide) (by decide), rfl⟩
  | of => exact ⟨['o', 'f'], .of_plain (by decide) (by decide), rfl⟩
  | them => exact ⟨['t', 'h', 'e', 'm'], .of_plain (by decide) (by decide), rfl⟩
  | all => exact ⟨['a', 'l', 'l'], .of_plain (by decide) (by decide), rfl⟩
  | lparen => exact ⟨['('], Or.inl ⟨'(', rfl, by decide⟩, rfl⟩
  | rparen => exact ⟨[')'], Or.inl ⟨')', rfl, by decide⟩, rfl⟩
  | num n =>
      rcases exists_usizeLiteral valid with ⟨digits, literal, areDigits⟩
      refine ⟨digits,
        Or.inr ⟨?_, fun c member => plain_digit (areDigits c member)⟩, literal⟩
      rintro rfl
      rcases literal with ⟨others, either, nonempty, _⟩
      rcases either with equal | equal
      · exact nonempty equal.symm
      · cases equal
  | ident name =>
      have identifier : Identifier name := valid
      exact ⟨name.toList, Or.inr ⟨identifier.nonempty, identifier.plain⟩,
        String.ofList_toList, identifier⟩

theorem Tok.Spells.valid {tok : Tok} {word : String} (spells : tok.Spells word) : tok.Valid := by
  cases tok with
  | num n =>
      rcases spells with ⟨_, _, _, _, _, bound⟩
      exact bound
  | ident name => exact spells.2
  | _ => exact trivial

theorem exists_words {toks : List Tok} (valid : ∀ tok, tok ∈ toks → tok.Valid) :
    ∃ words, (∀ word, word ∈ words → separators.IsWord word) ∧
      List.Forall₂ (fun tok word => tok.Spells (String.ofList word)) toks words := by
  induction toks with
  | nil => exact ⟨[], fun _ member => absurd member List.not_mem_nil, .nil⟩
  | cons tok toks inductionHypothesis =>
      rcases List.forall_mem_cons.mp valid with ⟨here, others⟩
      rcases Tok.exists_spelling here with ⟨word, isWord, spells⟩
      rcases inductionHypothesis others with ⟨words, areWords, spelled⟩
      exact ⟨word :: words, List.forall_mem_cons.mpr ⟨isWord, areWords⟩,
        .cons spells spelled⟩

/-- The expressions that have a printed text are the valid ones. -/
theorem exists_prints_iff {e : Expr} : (∃ s, Prints e s) ↔ e.Valid := by
  constructor
  · rintro ⟨s, words, toks, _, spelled, derives⟩
    apply derives.valid_iff.mp
    intro tok member
    rcases List.mem_iff_getElem.mp member with ⟨i, bound, rfl⟩
    exact (spelled.get bound (spelled.length_eq ▸ bound)).valid
  · intro valid
    have derives := derives_print e .or
    rcases exists_words (derives.valid_iff.mpr valid) with ⟨words, areWords, spelled⟩
    refine ⟨String.ofList (words.flatMap fun word => ' ' :: word), words, _,
      ?_, spelled, derives⟩
    rw [String.toList_ofList]
    exact Words.Separators.layout_spaced areWords

/-- The parser gives a result for every text, and it is the expression that the text prints. -/
theorem exists_parse (s : String) :
    ∃ result, parse s = some result ∧ ∀ e, result = .ok e ↔ Prints e s := by
  rw [parse]
  cases tokens : tokenize s with
  | error failure =>
      refine ⟨.error failure, rfl,
        fun e => ⟨fun equal => (by cases equal), fun prints => ?_⟩⟩
      rcases prints_iff.mp prints with ⟨toks, equal, _⟩
      rw [tokens] at equal
      cases equal
  | ok toks =>
      rcases parseTokens_correct toks with ⟨result, equal, correct⟩
      simp only [equal, Option.map_some]
      refine ⟨_, rfl, fun e => ?_⟩
      have derives_iff : Prints e s ↔ Derives .or toks e := by
        rw [prints_iff, tokens]
        constructor
        · rintro ⟨_, ⟨⟩, derives⟩
          exact derives
        · exact fun derives => ⟨toks, rfl, derives⟩
      rw [derives_iff, ← correct]
      cases result with
      | error failure => exact ⟨fun equal => (by cases equal), fun equal => (by cases equal)⟩
      | ok pair =>
          rcases pair with ⟨expr, rest⟩
          cases rest with
          | nil => exact ⟨fun equal => (by cases equal; rfl),
              fun equal => (by cases equal; rfl)⟩
          | cons tok rest =>
              exact ⟨fun equal => (by cases equal), fun equal => (by cases equal)⟩

theorem parseCondition_eq_ok_iff {s : String} {e : Expr} :
    parseCondition s = .ok e ↔ Prints e s := by
  rcases exists_parse s with ⟨result, parsed, correct⟩
  rw [← correct, parseCondition, Option.get_of_eq_some (parse_isSome s) parsed]

/-- The parser always gives a result, the result is an expression exactly when the text
prints it, and the expressions that have a printed text are the valid ones. -/
theorem parse_correct :
    (∀ s, ∃ result, parse s = some result ∧ ∀ e, result = .ok e ↔ Prints e s) ∧
      ∀ e : Expr, (∃ s, Prints e s) ↔ e.Valid := by
  exact ⟨exists_parse, fun e => exists_prints_iff⟩

end Sigma
end Sigil
