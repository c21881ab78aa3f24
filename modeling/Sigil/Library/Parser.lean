import Mathlib.Data.List.Basic

namespace Sigil
namespace Library

universe u

/-- A parser with fuel: it changes the list of the remaining tokens, fails with an error,
or gives no result at all when its fuel runs out. -/
abbrev Parser (τ ε : Type u) (α : Type u) : Type u :=
  StateT (List τ) (ExceptT ε Option) α

namespace Parser

/-!
# Recursive descent with fuel

Three statements about a parser are kept apart.  It halts on an input when its fuel
suffices.  It is sound for a language when it only takes words of the language off the
front of its input.  It is complete when, on a word of the language followed by
something that cannot continue the word, it can only return that word.  A chain of
operands with one operator between them, grouped to the left, inherits all three from
its operands.
-/

variable {τ ε α β : Type u}

/-- The next token, which stays. -/
def peek : Parser τ ε (Option τ) := fun tokens => some (.ok (tokens.head?, tokens))

/-- The next token, which is taken. -/
def next : Parser τ ε (Option τ) := fun tokens => some (.ok (tokens.head?, tokens.tail))

/-- No fuel is left. -/
def exhausted : Parser τ ε α := fun _ => none

/-- The parser gives a value and leaves some tokens. -/
def Returns (parser : Parser τ ε α) (tokens : List τ) (value : α) (rest : List τ) : Prop :=
  parser tokens = some (.ok (value, rest))

/-- The fuel suffices. -/
def Halts (parser : Parser τ ε α) (tokens : List τ) : Prop :=
  ∃ result, parser tokens = some result

/-- The parser can only give this value and leave these tokens. -/
def Yields (parser : Parser τ ε α) (tokens : List τ) (value : α) (rest : List τ) : Prop :=
  ∀ result, parser tokens = some result → result = .ok (value, rest)

/-! ## Sequences -/

theorem bind_apply (first : Parser τ ε α) (second : α → Parser τ ε β) (tokens : List τ) :
    (first >>= second) tokens =
      match first tokens with
      | none => none
      | some (.error e) => some (.error e)
      | some (.ok (value, rest)) => second value rest := by
  change ExceptT.bind (first tokens) _ = _
  cases first tokens with
  | none => rfl
  | some result => cases result <;> rfl

theorem bind_peek (second : Option τ → Parser τ ε β) (tokens : List τ) :
    (peek >>= second) tokens = second tokens.head? tokens :=
  rfl

theorem bind_next (second : Option τ → Parser τ ε β) (tokens : List τ) :
    (next >>= second) tokens = second tokens.head? tokens.tail :=
  rfl

theorem returns_bind {first : Parser τ ε α} {second : α → Parser τ ε β}
    {tokens rest : List τ} {value : β} :
    (first >>= second).Returns tokens value rest ↔
      ∃ middle left, first.Returns tokens middle left ∧
        (second middle).Returns left value rest := by
  rw [Returns, bind_apply]
  constructor
  · intro equal
    split at equal
    · cases equal
    · cases equal
    · next middle left first => exact ⟨middle, left, first, equal⟩
  · rintro ⟨middle, left, first, second⟩
    rw [first]
    exact second

theorem Halts.bind {first : Parser τ ε α} {second : α → Parser τ ε β} {tokens : List τ}
    (halts : first.Halts tokens)
    (then_ : ∀ middle left, first.Returns tokens middle left → (second middle).Halts left) :
    (first >>= second).Halts tokens := by
  rcases halts with ⟨result, equal⟩
  cases result with
  | error e => exact ⟨.error e, by rw [bind_apply, equal]⟩
  | ok pair =>
      rcases then_ pair.1 pair.2 equal with ⟨result, second⟩
      exact ⟨result, by rw [bind_apply, equal, ← second]⟩

theorem Yields.bind {first : Parser τ ε α} {second : α → Parser τ ε β}
    {tokens left rest : List τ} {middle : α} {value : β}
    (yields : first.Yields tokens middle left) (then_ : (second middle).Yields left value rest) :
    (first >>= second).Yields tokens value rest := by
  intro result equal
  rw [bind_apply] at equal
  cases outcome : first tokens with
  | none =>
      rw [outcome] at equal
      cases equal
  | some first =>
      cases yields first outcome
      rw [outcome] at equal
      exact then_ result equal

theorem returns_pure {value other : α} {tokens rest : List τ} :
    (pure value : Parser τ ε α).Returns tokens other rest ↔
      value = other ∧ tokens = rest := by
  constructor
  · rintro ⟨⟩
    exact ⟨rfl, rfl⟩
  · rintro ⟨rfl, rfl⟩
    rfl

theorem halts_pure (value : α) (tokens : List τ) : (pure value : Parser τ ε α).Halts tokens :=
  ⟨_, rfl⟩

theorem yields_pure (value : α) (tokens : List τ) :
    (pure value : Parser τ ε α).Yields tokens value tokens := by
  rintro result ⟨⟩
  rfl

/-! ## Languages -/

/-- The parser only takes words of the language. -/
def Sound (parser : Parser τ ε α) (Language : List τ → α → Prop) : Prop :=
  ∀ tokens value rest, parser.Returns tokens value rest →
    ∃ word, tokens = word ++ rest ∧ Language word value

/-- The parser takes a word of the language when something allowed follows. -/
def Complete (parser : Parser τ ε α) (Language : List τ → α → Prop)
    (Follows : List τ → Prop) : Prop :=
  ∀ word value, Language word value → ∀ rest, Follows rest →
    parser.Yields (word ++ rest) value rest

/-- The fuel suffices for inputs up to a length. -/
def Terminates (parser : Parser τ ε α) (size : Nat) : Prop :=
  ∀ tokens : List τ, tokens.length ≤ size → parser.Halts tokens

theorem Sound.length_le {parser : Parser τ ε α} {Language : List τ → α → Prop}
    (sound : parser.Sound Language) {tokens rest : List τ} {value : α}
    (returns : parser.Returns tokens value rest) : rest.length ≤ tokens.length := by
  rcases sound tokens value rest returns with ⟨word, rfl, _⟩
  rw [List.length_append]
  exact Nat.le_add_left _ _

/-! ## Chains -/

/-- Either the operator comes next, or the loop is over. -/
theorem operator_or_other (operator : τ) (tokens : List τ) :
    (∃ rest, tokens = operator :: rest) ∨ tokens.head? ≠ some operator := by
  cases tokens with
  | nil => exact Or.inr (Option.some_ne_none _).symm
  | cons token rest =>
      rcases eq_or_ne token operator with rfl | different
      · exact Or.inl ⟨rest, rfl⟩
      · exact Or.inr fun equal => different (Option.some.inj equal)

section Chain

variable [DecidableEq τ] (operator : τ) (combine : α → α → α)

/-- Words of operands with the operator between them, grouped to the left. -/
inductive Chain (Operand : List τ → α → Prop) : List τ → α → Prop where
  | single {word : List τ} {value : α} : Operand word value → Chain Operand word value
  | more {left right : List τ} {lhs rhs : α} : Chain Operand left lhs → Operand right rhs →
      Chain Operand (left ++ operator :: right) (combine lhs rhs)

variable (operand : Parser τ ε α)

/-- Take further operands as long as the operator comes next. -/
def chainLoop : Nat → α → Parser τ ε α
  | 0, _ => exhausted
  | fuel + 1, lhs => do
      if (← peek) = some operator then
        let _ ← next
        let rhs ← operand
        chainLoop fuel (combine lhs rhs)
      else
        return lhs

/-- A first operand and then further ones. -/
def chain (fuel : Nat) : Parser τ ε α := do
  let lhs ← operand
  chainLoop operator combine operand fuel lhs

variable {operator combine operand} {Operand : List τ → α → Prop}

theorem chainLoop_operator (fuel : Nat) (lhs : α) (tokens : List τ) :
    chainLoop operator combine operand (fuel + 1) lhs (operator :: tokens) =
      (operand >>= fun rhs =>
        chainLoop operator combine operand fuel (combine lhs rhs)) tokens := by
  rw [chainLoop, bind_peek, if_pos (List.head?_cons)]
  rfl

theorem chainLoop_other (fuel : Nat) (lhs : α) {tokens : List τ}
    (other : tokens.head? ≠ some operator) :
    chainLoop operator combine operand (fuel + 1) lhs tokens = some (.ok (lhs, tokens)) := by
  rw [chainLoop, bind_peek, if_neg other]
  rfl

theorem chainLoop_sound (sound : operand.Sound Operand) (fuel : Nat) {lhs value : α}
    {tokens rest : List τ}
    (returns : (chainLoop operator combine operand fuel lhs).Returns tokens value rest) :
    ∃ word, tokens = word ++ rest ∧ ∀ left, Chain operator combine Operand left lhs →
      Chain operator combine Operand (left ++ word) value := by
  induction fuel generalizing lhs tokens with
  | zero => cases returns
  | succ fuel inductionHypothesis =>
      rcases operator_or_other operator tokens with ⟨later, rfl⟩ | other
      · rw [Returns, chainLoop_operator] at returns
        rcases returns_bind.mp returns with ⟨rhs, middle, first, further⟩
        rcases sound _ _ _ first with ⟨right, rfl, isOperand⟩
        rcases inductionHypothesis further with ⟨word, rfl, extends_⟩
        refine ⟨operator :: right ++ word, ?_, fun left isChain => ?_⟩
        · rw [List.cons_append, List.cons_append, List.append_assoc]
        · rw [← List.append_assoc]
          exact extends_ _ (Chain.more isChain isOperand)
      · rw [Returns, chainLoop_other fuel lhs other] at returns
        cases returns
        exact ⟨[], rfl, fun left isChain => by rwa [List.append_nil]⟩

theorem chain_sound (sound : operand.Sound Operand) (fuel : Nat) :
    (chain operator combine operand fuel).Sound (Chain operator combine Operand) := by
  intro tokens value rest returns
  rcases returns_bind.mp returns with ⟨lhs, middle, first, further⟩
  rcases sound _ _ _ first with ⟨left, rfl, isOperand⟩
  rcases chainLoop_sound sound fuel further with ⟨word, rfl, extends_⟩
  exact ⟨left ++ word, (List.append_assoc _ _ _).symm, extends_ left (Chain.single isOperand)⟩

variable {Follows : List τ → Prop}

/-- On a chain the parser ends up in its loop with the chain's value. -/
theorem chain_reaches_loop (complete : operand.Complete Operand Follows)
    (operatorFollows : ∀ rest, Follows (operator :: rest)) {fuel : Nat}
    {word : List τ} {value : α} (isChain : Chain operator combine Operand word value)
    {rest : List τ} (follows : Follows rest) {result : Except ε (α × List τ)}
    (equal : chain operator combine operand fuel (word ++ rest) = some result) :
    ∃ left, chainLoop operator combine operand left value rest = some result := by
  induction isChain generalizing rest with
  | single isOperand =>
      rw [chain, bind_apply] at equal
      split at equal
      · cases equal
      · next e failed => cases complete _ _ isOperand rest follows _ failed
      · next lhs middle first =>
          cases complete _ _ isOperand rest follows _ first
          exact ⟨fuel, equal⟩
  | @more left right lhs rhs _ isOperand inductionHypothesis =>
      rw [List.append_assoc] at equal
      rcases inductionHypothesis (operatorFollows (right ++ rest)) equal with ⟨fuel, loop⟩
      cases fuel with
      | zero => cases loop
      | succ fuel =>
          rw [chainLoop_operator, bind_apply] at loop
          split at loop
          · cases loop
          · next e failed => cases complete _ _ isOperand rest follows _ failed
          · next value middle first =>
              cases complete _ _ isOperand rest follows _ first
              exact ⟨fuel, loop⟩

theorem chain_complete (complete : operand.Complete Operand Follows)
    (operatorFollows : ∀ rest, Follows (operator :: rest)) (fuel : Nat) :
    (chain operator combine operand fuel).Complete (Chain operator combine Operand)
      fun rest => Follows rest ∧ rest.head? ≠ some operator := by
  intro word value isChain rest follows result equal
  rcases chain_reaches_loop complete operatorFollows isChain follows.1 equal with ⟨fuel, loop⟩
  cases fuel with
  | zero => cases loop
  | succ fuel =>
      rw [chainLoop_other fuel value follows.2] at loop
      cases loop
      rfl

theorem chainLoop_halts (sound : operand.Sound Operand) {size : Nat}
    (terminates : operand.Terminates size) {fuel : Nat} (lhs : α) {tokens : List τ}
    (short : tokens.length ≤ size) (enough : tokens.length < fuel) :
    (chainLoop operator combine operand fuel lhs).Halts tokens := by
  induction fuel generalizing lhs tokens with
  | zero => exact absurd enough (Nat.not_lt_zero _)
  | succ fuel inductionHypothesis =>
      rcases operator_or_other operator tokens with ⟨later, rfl⟩ | other
      · rw [List.length_cons] at short enough
        rw [Halts, chainLoop_operator]
        apply Halts.bind (terminates later (Nat.le_of_succ_le short))
        intro rhs middle first
        have left := sound.length_le first
        exact inductionHypothesis _ (Nat.le_trans left (Nat.le_of_succ_le short))
          (Nat.lt_of_le_of_lt left (Nat.lt_of_succ_lt_succ enough))
      · exact ⟨_, chainLoop_other fuel lhs other⟩

theorem chain_terminates (sound : operand.Sound Operand) {size : Nat}
    (terminates : operand.Terminates size) {fuel : Nat} (enough : size < fuel) :
    (chain operator combine operand fuel).Terminates size := by
  intro tokens short
  apply Halts.bind (terminates tokens short)
  intro lhs middle first
  have left := Nat.le_trans (sound.length_le first) short
  exact chainLoop_halts sound terminates lhs left (Nat.lt_of_le_of_lt left enough)

end Chain

end Parser
end Library
end Sigil
