import Sigil.Sigma.Condition

namespace Sigil
namespace Sigma

/-!
# The grammar of the condition language

The binary operators group to the left, `and` binds more tightly than `or`, and `not`
more tightly than `and`.  The recursive descent parser accepts exactly the words of this
grammar and returns the expression of the derivation.
-/

open Library

/-- The levels of the grammar. -/
inductive Level where
  | or
  | and
  | not
  | primary
  deriving DecidableEq, Repr

/-- The token of a target. -/
def Target.tok : Target → Tok
  | .them => .them
  | .pattern p => .ident p

/-- A list of tokens is derivable at a level, and this is its expression. -/
inductive Derives : Level → List Tok → Expr → Prop where
  | or {left right : List Tok} {a b : Expr} : Derives .or left a → Derives .and right b →
      Derives .or (left ++ .or :: right) (.or a b)
  | orOfAnd {toks : List Tok} {e : Expr} : Derives .and toks e → Derives .or toks e
  | and {left right : List Tok} {a b : Expr} : Derives .and left a → Derives .not right b →
      Derives .and (left ++ .and :: right) (.and a b)
  | andOfNot {toks : List Tok} {e : Expr} : Derives .not toks e → Derives .and toks e
  | not {toks : List Tok} {e : Expr} : Derives .not toks e → Derives .not (.not :: toks) (.not e)
  | notOfPrimary {toks : List Tok} {e : Expr} : Derives .primary toks e → Derives .not toks e
  | ref (name : String) : Derives .primary [.ident name] (.ref name)
  | paren {toks : List Tok} {e : Expr} : Derives .or toks e →
      Derives .primary (.lparen :: toks ++ [.rparen]) e
  | all (target : Target) : Derives .primary [.all, .of, target.tok] (.quant none target)
  | atLeast (n : Nat) (target : Target) :
      Derives .primary [.num n, .of, target.tok] (.quant (some n) target)

namespace Derives

theorem nonempty {level : Level} {toks : List Tok} {e : Expr} (derives : Derives level toks e) :
    toks ≠ [] := by
  induction derives with
  | or => exact List.append_ne_nil_of_right_ne_nil _ (List.cons_ne_nil _ _)
  | orOfAnd _ inductionHypothesis => exact inductionHypothesis
  | and => exact List.append_ne_nil_of_right_ne_nil _ (List.cons_ne_nil _ _)
  | andOfNot _ inductionHypothesis => exact inductionHypothesis
  | not => exact List.cons_ne_nil _ _
  | notOfPrimary _ inductionHypothesis => exact inductionHypothesis
  | ref => exact List.cons_ne_nil _ _
  | paren => exact List.cons_ne_nil _ _
  | all => exact List.cons_ne_nil _ _
  | atLeast => exact List.cons_ne_nil _ _

/-- A primary expression stands at every level. -/
theorem ofPrimary {toks : List Tok} {e : Expr} (derives : Derives .primary toks e) :
    ∀ level, Derives level toks e
  | .or => .orOfAnd (.andOfNot (.notOfPrimary derives))
  | .and => .andOfNot (.notOfPrimary derives)
  | .not => .notOfPrimary derives
  | .primary => derives

/-- A word of the level `and` is a chain of words of the level `not`. -/
theorem and_iff {toks : List Tok} {e : Expr} :
    Derives .and toks e ↔ Parser.Chain .and .and (Derives .not) toks e := by
  constructor
  · intro derives
    generalize equal : Level.and = level at derives
    induction derives with
    | and left right inLeft _ => exact .more (inLeft rfl) right
    | andOfNot derives _ => exact .single derives
    | _ => cases equal
  · intro chain
    induction chain with
    | single derives => exact .andOfNot derives
    | more _ right left => exact .and left right

/-- A word of the level `or` is a chain of words of the level `and`. -/
theorem or_iff {toks : List Tok} {e : Expr} :
    Derives .or toks e ↔ Parser.Chain .or .or (Derives .and) toks e := by
  constructor
  · intro derives
    generalize equal : Level.or = level at derives
    induction derives with
    | or left right inLeft _ => exact .more (inLeft rfl) right
    | orOfAnd derives _ => exact .single derives
    | _ => cases equal
  · intro chain
    induction chain with
    | single derives => exact .orOfAnd derives
    | more _ right left => exact .or left right

end Derives

/-! ## The parser takes words of the grammar -/

theorem expect_apply (tok other : Tok) (rest : List Tok) :
    expect tok (other :: rest) =
      if other = tok then some (.ok ((), rest)) else some (.error (.expected tok)) := by
  rw [expect, Parser.bind_next]
  by_cases equal : other = tok
  · rw [List.head?_cons, if_pos (congrArg some equal), if_pos equal]
    rfl
  · rw [List.head?_cons, if_neg (fun same => equal (Option.some.inj same)), if_neg equal]
    rfl

theorem returns_expect {tok : Tok} {toks rest : List Tok} {value : Unit} :
    (expect tok).Returns toks value rest ↔ toks = tok :: rest := by
  cases toks with
  | nil => exact ⟨fun returns => (by cases returns), fun equal => (by cases equal)⟩
  | cons other toks =>
      rw [Parser.Returns, expect_apply]
      constructor
      · intro returns
        split at returns
        · next same =>
            cases returns
            rw [same]
        · cases returns
      · rintro ⟨rfl, rfl⟩
        rw [if_pos rfl]

theorem returns_parseTarget {toks rest : List Tok} {target : Target} :
    parseTarget.Returns toks target rest ↔ toks = target.tok :: rest := by
  constructor
  · intro returns
    cases toks with
    | nil => cases returns
    | cons tok toks =>
        cases tok with
        | them =>
            cases returns
            rfl
        | ident p =>
            cases returns
            rfl
        | _ => cases returns
  · rintro rfl
    cases target <;> rfl

/-- The part of a quantifier after its number. -/
theorem returns_quantifier {atLeast : Option Nat} {toks rest : List Tok} {e : Expr}
    (returns : (do
      expect .of
      return .quant atLeast (← parseTarget) : ConditionParser Expr).Returns toks e rest) :
    ∃ target, toks = .of :: target.tok :: rest ∧ e = .quant atLeast target := by
  rcases Parser.returns_bind.mp returns with ⟨_, left, hasOf, returns⟩
  rcases Parser.returns_bind.mp returns with ⟨target, right, hasTarget, returns⟩
  rcases Parser.returns_pure.mp returns with ⟨rfl, rfl⟩
  rw [returns_expect] at hasOf
  rw [returns_parseTarget] at hasTarget
  exact ⟨target, hasTarget ▸ hasOf, rfl⟩

theorem parsePrimary_sound {parseOr : ConditionParser Expr} (sound : parseOr.Sound (Derives .or)) :
    (parsePrimary parseOr).Sound (Derives .primary) := by
  intro toks e rest returns
  cases toks with
  | nil => cases returns
  | cons tok toks =>
      rw [parsePrimary, Parser.Returns, Parser.bind_next] at returns
      cases tok with
      | ident name =>
          cases returns
          exact ⟨[.ident name], rfl, .ref name⟩
      | lparen =>
          rcases Parser.returns_bind.mp returns with ⟨inner, left, inside, returns⟩
          rcases Parser.returns_bind.mp returns with ⟨_, right, closed, returns⟩
          rcases Parser.returns_pure.mp returns with ⟨rfl, rfl⟩
          rcases sound _ _ _ inside with ⟨word, whole, derives⟩
          rw [returns_expect] at closed
          subst closed
          refine ⟨.lparen :: word ++ [.rparen], ?_, .paren derives⟩
          rw [List.append_assoc, List.singleton_append, List.cons_append, ← whole]
          rfl
      | all =>
          rcases returns_quantifier returns with ⟨target, rfl, rfl⟩
          exact ⟨[.all, .of, target.tok], rfl, .all target⟩
      | num n =>
          rcases returns_quantifier returns with ⟨target, rfl, rfl⟩
          exact ⟨[.num n, .of, target.tok], rfl, .atLeast n target⟩
      | _ => cases returns

theorem parseAnd_sound {parseNot : ConditionParser Expr} (sound : parseNot.Sound (Derives .not))
    (fuel : Nat) : (parseAnd parseNot fuel).Sound (Derives .and) := by
  intro toks e rest returns
  rcases Parser.chain_sound sound fuel toks e rest returns with ⟨word, whole, chain⟩
  exact ⟨word, whole, Derives.and_iff.mpr chain⟩

theorem parseOr_sound {parseNot : ConditionParser Expr} (sound : parseNot.Sound (Derives .not))
    (fuel : Nat) : (parseOr parseNot fuel).Sound (Derives .or) := by
  intro toks e rest returns
  rcases Parser.chain_sound (parseAnd_sound sound fuel) fuel toks e rest returns with
    ⟨word, whole, chain⟩
  exact ⟨word, whole, Derives.or_iff.mpr chain⟩

theorem parseNot_not (fuel : Nat) (toks : List Tok) :
    parseNot (fuel + 1) (.not :: toks) =
      (parseNot fuel >>= fun e => (pure (.not e) : ConditionParser Expr)) toks := by
  rw [parseNot, Parser.bind_peek, if_pos List.head?_cons]
  rfl

theorem parseNot_other (fuel : Nat) {toks : List Tok} (other : toks.head? ≠ some .not) :
    parseNot (fuel + 1) toks = parsePrimary (parseOr (parseNot fuel) fuel) toks := by
  rw [parseNot, Parser.bind_peek, if_neg other]

theorem parseNot_sound (fuel : Nat) : (parseNot fuel).Sound (Derives .not) := by
  induction fuel with
  | zero =>
      intro toks e rest returns
      cases returns
  | succ fuel inductionHypothesis =>
      intro toks e rest returns
      rcases Parser.operator_or_other .not toks with ⟨later, rfl⟩ | other
      · rw [Parser.Returns, parseNot_not] at returns
        rcases Parser.returns_bind.mp returns with ⟨inner, left, inside, returns⟩
        rcases Parser.returns_pure.mp returns with ⟨rfl, rfl⟩
        rcases inductionHypothesis _ _ _ inside with ⟨word, rfl, derives⟩
        exact ⟨.not :: word, rfl, .not derives⟩
      · rw [Parser.Returns, parseNot_other fuel other] at returns
        rcases parsePrimary_sound (parseOr_sound inductionHypothesis fuel) _ _ _ returns with
          ⟨word, whole, derives⟩
        exact ⟨word, whole, .notOfPrimary derives⟩

/-! ## The parser takes every word of the grammar -/

/-- What may follow a word of the level `and`: no further `and`. -/
def EndsAnd (rest : List Tok) : Prop :=
  rest.head? ≠ some .and

/-- What may follow a word of the level `or`: no further operator. -/
def EndsOr (rest : List Tok) : Prop :=
  EndsAnd rest ∧ rest.head? ≠ some .or

theorem yields_expect (tok : Tok) (rest : List Tok) :
    (expect tok).Yields (tok :: rest) () rest := by
  intro result equal
  rw [expect_apply, if_pos rfl] at equal
  cases equal
  rfl

theorem yields_parseTarget (target : Target) (rest : List Tok) :
    parseTarget.Yields (target.tok :: rest) target rest := by
  intro result equal
  have returns : parseTarget.Returns (target.tok :: rest) target rest :=
    returns_parseTarget.mpr rfl
  rw [Parser.Returns, equal] at returns
  exact Option.some.inj returns

theorem yields_quantifier (atLeast : Option Nat) (target : Target) (rest : List Tok) :
    (do
      expect .of
      return .quant atLeast (← parseTarget) : ConditionParser Expr).Yields
        (.of :: target.tok :: rest) (.quant atLeast target) rest :=
  .bind (yields_expect .of _) (.bind (yields_parseTarget target rest) (Parser.yields_pure _ rest))

theorem parsePrimary_complete {parseOr : ConditionParser Expr}
    (complete : parseOr.Complete (Derives .or) EndsOr) :
    (parsePrimary parseOr).Complete (Derives .primary) fun _ => True := by
  intro word e derives rest _
  rw [parsePrimary, Parser.Yields, Parser.bind_next]
  cases derives with
  | ref name => exact Parser.yields_pure _ rest
  | @paren word _ derives =>
      have ends : EndsOr (.rparen :: rest) := ⟨by rintro ⟨⟩, by rintro ⟨⟩⟩
      have inside := complete word e derives (.rparen :: rest) ends
      rw [List.append_assoc, List.cons_append]
      exact Parser.Yields.bind inside
        (.bind (yields_expect .rparen rest) (Parser.yields_pure e rest))
  | all target => exact yields_quantifier none target rest
  | atLeast n target => exact yields_quantifier (some n) target rest

theorem parseAnd_complete {parseNot : ConditionParser Expr}
    (complete : parseNot.Complete (Derives .not) fun _ => True) (fuel : Nat) :
    (parseAnd parseNot fuel).Complete (Derives .and) EndsAnd := by
  intro word e derives rest ends
  exact Parser.chain_complete complete (fun _ => trivial) fuel word e (Derives.and_iff.mp derives)
    rest ⟨trivial, ends⟩

theorem parseOr_complete {parseNot : ConditionParser Expr}
    (complete : parseNot.Complete (Derives .not) fun _ => True) (fuel : Nat) :
    (parseOr parseNot fuel).Complete (Derives .or) EndsOr := by
  intro word e derives rest ends
  have operator : ∀ later, EndsAnd (.or :: later) := by
    rintro later ⟨⟩
  exact Parser.chain_complete (parseAnd_complete complete fuel) operator fuel word e
    (Derives.or_iff.mp derives) rest ends

/-- A primary expression does not start with `not`. -/
theorem head_primary {word : List Tok} {e : Expr} (derives : Derives .primary word e)
    (rest : List Tok) : (word ++ rest).head? ≠ some .not := by
  cases derives <;> rintro ⟨⟩

theorem parseNot_complete (fuel : Nat) :
    (parseNot fuel).Complete (Derives .not) fun _ => True := by
  induction fuel with
  | zero =>
      intro word e _ rest _ result equal
      cases equal
  | succ fuel inductionHypothesis =>
      intro word e derives rest _
      cases derives with
      | @not word e derives =>
          rw [List.cons_append, Parser.Yields, parseNot_not]
          exact Parser.Yields.bind (inductionHypothesis word e derives rest trivial)
            (Parser.yields_pure _ rest)
      | notOfPrimary derives =>
          rw [Parser.Yields, parseNot_other fuel (head_primary derives rest)]
          exact parsePrimary_complete (parseOr_complete inductionHypothesis fuel) word e derives
            rest trivial

/-! ## The fuel suffices -/

theorem halts_expect (tok : Tok) (toks : List Tok) : (expect tok).Halts toks := by
  cases toks with
  | nil => exact ⟨_, rfl⟩
  | cons other toks =>
      rw [Parser.Halts, expect_apply]
      split <;> exact ⟨_, rfl⟩

theorem halts_parseTarget (toks : List Tok) : parseTarget.Halts toks := by
  cases toks with
  | nil => exact ⟨_, rfl⟩
  | cons tok toks => cases tok <;> exact ⟨_, rfl⟩

theorem halts_quantifier (atLeast : Option Nat) (toks : List Tok) :
    (do
      expect .of
      return .quant atLeast (← parseTarget) : ConditionParser Expr).Halts toks :=
  .bind (halts_expect .of toks) fun _ left _ =>
    .bind (halts_parseTarget left) fun _ right _ => Parser.halts_pure _ right

theorem parsePrimary_halts {parseOr : ConditionParser Expr} {tok : Tok} {toks : List Tok}
    (halts : parseOr.Halts toks) : (parsePrimary parseOr).Halts (tok :: toks) := by
  rw [parsePrimary, Parser.Halts, Parser.bind_next]
  cases tok with
  | lparen =>
      exact Parser.Halts.bind halts fun e left _ =>
        .bind (halts_expect .rparen left) fun _ right _ => Parser.halts_pure e right
  | all => exact halts_quantifier none toks
  | num n => exact halts_quantifier (some n) toks
  | _ => exact ⟨_, rfl⟩

theorem parseOr_terminates {fuel size : Nat} (terminates : (parseNot fuel).Terminates size)
    (enough : size < fuel) : (parseOr (parseNot fuel) fuel).Terminates size :=
  Parser.chain_terminates (parseAnd_sound (parseNot_sound fuel) fuel)
    (Parser.chain_terminates (parseNot_sound fuel) terminates enough) enough

theorem parseNot_terminates {fuel size : Nat} (enough : size < fuel) :
    (parseNot fuel).Terminates size := by
  induction fuel generalizing size with
  | zero => exact absurd enough (Nat.not_lt_zero _)
  | succ fuel inductionHypothesis =>
      intro toks short
      cases toks with
      | nil =>
          rw [Parser.Halts, parseNot_other fuel (by rintro ⟨⟩)]
          exact ⟨_, rfl⟩
      | cons tok toks =>
          have smaller : toks.length < fuel :=
            Nat.lt_of_lt_of_le (Nat.lt_of_lt_of_le (Nat.lt_succ_self _) short)
              (Nat.le_of_lt_succ enough)
          have inner := inductionHypothesis smaller
          rcases Parser.operator_or_other .not (tok :: toks) with ⟨later, equal⟩ | other
          · cases equal
            rw [Parser.Halts, parseNot_not]
            exact Parser.Halts.bind (inner toks (Nat.le_refl _)) fun _ left _ =>
              Parser.halts_pure _ left
          · rw [Parser.Halts, parseNot_other fuel other]
            exact parsePrimary_halts (parseOr_terminates inner smaller toks (Nat.le_refl _))

/-- The parser gives a result, and it is an expression with nothing left exactly for the
words of the grammar. -/
theorem parseTokens_correct (toks : List Tok) :
    ∃ result, parseTokens toks = some result ∧
      ∀ e, result = .ok (e, []) ↔ Derives .or toks e := by
  have enough := Nat.lt_succ_self toks.length
  rcases parseOr_terminates (parseNot_terminates enough) enough toks (Nat.le_refl _) with
    ⟨result, equal⟩
  refine ⟨result, equal, fun e => ?_⟩
  constructor
  · rintro rfl
    rcases parseOr_sound (parseNot_sound _) _ _ _ _ equal with ⟨word, whole, derives⟩
    rwa [whole, List.append_nil]
  · intro derives
    have yields := parseOr_complete (parseNot_complete (toks.length + 1)) (toks.length + 1) toks e
      derives [] ⟨by rintro ⟨⟩, by rintro ⟨⟩⟩
    rw [List.append_nil] at yields
    exact yields result equal

/-- A condition string always gets a result. -/
theorem parse_isSome (input : String) : (parse input).isSome = true := by
  unfold parse
  cases tokenize input with
  | error failure => rfl
  | ok toks =>
      rcases parseTokens_correct toks with ⟨result, equal, _⟩
      simp only [equal, Option.map_some, Option.isSome_some]

/-- The result for a condition string. -/
def parseCondition (input : String) : Except ConditionError Expr :=
  (parse input).get (parse_isSome input)

/-! ## Printing tokens -/

/-- Put parentheses around tokens where they are needed. -/
def parens (needed : Bool) (toks : List Tok) : List Tok :=
  if needed then Tok.lparen :: toks ++ [Tok.rparen] else toks

/-- The tokens of an expression at a level, with no more parentheses than needed. -/
def Expr.print : Level → Expr → List Tok
  | _, .ref name => [.ident name]
  | _, .quant none target => [.all, .of, target.tok]
  | _, .quant (some n) target => [.num n, .of, target.tok]
  | level, .not e => parens (level = .primary) (.not :: e.print .not)
  | level, .and a b =>
      parens (level = .not ∨ level = .primary) (a.print .and ++ .and :: b.print .not)
  | level, .or a b => parens (level ≠ .or) (a.print .or ++ .or :: b.print .and)

theorem Derives.parens {level : Level} {toks : List Tok} {e : Expr} {needed : Bool}
    (toOr : Derives .or toks e) (fits : needed = false → Derives level toks e) :
    Derives level (parens needed toks) e := by
  cases needed with
  | false => exact fits rfl
  | true => exact (Derives.paren toOr).ofPrimary level

theorem derives_print (e : Expr) (level : Level) : Derives level (e.print level) e := by
  induction e generalizing level with
  | ref name => exact (Derives.ref name).ofPrimary level
  | quant atLeast target =>
      cases atLeast with
      | none => exact (Derives.all target).ofPrimary level
      | some n => exact (Derives.atLeast n target).ofPrimary level
  | not e inductionHypothesis =>
      have derives := Derives.not (inductionHypothesis .not)
      refine Derives.parens (.orOfAnd (.andOfNot derives)) fun fits => ?_
      cases level with
      | or => exact .orOfAnd (.andOfNot derives)
      | and => exact .andOfNot derives
      | not => exact derives
      | primary => cases fits
  | and a b left right =>
      have derives := Derives.and (left .and) (right .not)
      refine Derives.parens (.orOfAnd derives) fun fits => ?_
      cases level with
      | or => exact .orOfAnd derives
      | and => exact derives
      | not => cases fits
      | primary => cases fits
  | or a b left right =>
      have derives := Derives.or (left .or) (right .and)
      refine Derives.parens derives fun fits => ?_
      cases level with
      | or => exact derives
      | and => cases fits
      | not => cases fits
      | primary => cases fits

end Sigma
end Sigil
