import Mathlib.Data.List.Infix

namespace Sigil
namespace Library
namespace Expressions

/-!
# Simple expressions

An expression is a list of pieces between two optional anchors.  A piece is a symbol that
accepts some letters, taken once or any number of times.  The expression is found in a text
when its pieces match a part of it, which an anchor ties to an end of the text.  Matching can
be tested, and the usual spelling of an expression over characters can be read again.
-/

universe u v

/-- A symbol, once or any number of times. -/
structure Piece (β : Type v) where
  symbol : β
  repeated : Bool
  deriving DecidableEq, Repr

structure Expression (β : Type v) where
  anchorStart : Bool
  pieces : List (Piece β)
  anchorEnd : Bool
  deriving DecidableEq, Repr

section

variable {α : Type u} {β : Type v} (accepts : β → α → Bool)

/-- The pieces match a word. -/
inductive Matches : List (Piece β) → List α → Prop where
  | nil : Matches [] []
  | once {symbol : β} {x : α} {pieces : List (Piece β)} {word : List α} :
      accepts symbol x = true → Matches pieces word →
        Matches (⟨symbol, false⟩ :: pieces) (x :: word)
  | skip {symbol : β} {pieces : List (Piece β)} {word : List α} :
      Matches pieces word → Matches (⟨symbol, true⟩ :: pieces) word
  | again {symbol : β} {x : α} {pieces : List (Piece β)} {word : List α} :
      accepts symbol x = true → Matches (⟨symbol, true⟩ :: pieces) word →
        Matches (⟨symbol, true⟩ :: pieces) (x :: word)

/-- Some part of the text matches, at the ends that are anchored. -/
def Expression.Found (e : Expression β) (text : List α) : Prop :=
  ∃ before word after, text = before ++ word ++ after ∧
    (e.anchorStart = true → before = []) ∧
    (e.anchorEnd = true → after = []) ∧ Matches accepts e.pieces word

/-! ## Testing -/

/-- Take a symbol any number of times and go on. -/
def testRepeated (symbol : β) (next : List α → Bool) : List α → Bool
  | [] => next []
  | x :: word => next (x :: word) || (accepts symbol x && testRepeated symbol next word)

def test : List (Piece β) → List α → Bool
  | [], word => word.isEmpty
  | ⟨symbol, true⟩ :: pieces, word => testRepeated accepts symbol (test pieces) word
  | ⟨_, false⟩ :: _, [] => false
  | ⟨symbol, false⟩ :: pieces, x :: word => accepts symbol x && test pieces word

/-- Look at every part of the text. -/
def Expression.found (e : Expression β) (text : List α) : Bool :=
  text.tails.any fun rest => (!e.anchorStart || rest.length = text.length) &&
    rest.inits.any fun word =>
      (!e.anchorEnd || word.length = rest.length) && test accepts e.pieces word

variable {accepts}

theorem testRepeated_iff {symbol : β} {pieces : List (Piece β)} {next : List α → Bool}
    (correct : ∀ word, next word = true ↔ Matches accepts pieces word) (word : List α) :
    testRepeated accepts symbol next word = true ↔
      Matches accepts (⟨symbol, true⟩ :: pieces) word := by
  induction word with
  | nil =>
      rw [testRepeated, correct]
      constructor
      · intro rest
        exact .skip rest
      · intro matched
        cases matched with
        | skip rest => exact rest
  | cons x word inductionHypothesis =>
      rw [testRepeated, Bool.or_eq_true, Bool.and_eq_true, correct, inductionHypothesis]
      constructor
      · intro either
        rcases either with rest | ⟨accepted, later⟩
        · exact .skip rest
        · exact .again accepted later
      · intro matched
        cases matched with
        | skip rest => exact Or.inl rest
        | again accepted later => exact Or.inr ⟨accepted, later⟩

theorem test_iff (pieces : List (Piece β)) (word : List α) :
    test accepts pieces word = true ↔ Matches accepts pieces word := by
  induction pieces generalizing word with
  | nil =>
      rw [test, List.isEmpty_iff]
      constructor
      · intro empty
        rw [empty]
        exact .nil
      · intro matched
        cases matched
        rfl
  | cons piece pieces inductionHypothesis =>
      rcases piece with ⟨symbol, repeated⟩
      cases repeated with
      | true => exact testRepeated_iff inductionHypothesis word
      | false =>
          cases word with
          | nil =>
              rw [test]
              constructor
              · intro impossible
                cases impossible
              · intro matched
                cases matched
          | cons x word =>
              rw [test, Bool.and_eq_true, inductionHypothesis]
              constructor
              · intro both
                exact .once both.1 both.2
              · intro matched
                cases matched with
                | once accepted rest => exact ⟨accepted, rest⟩

theorem Expression.found_iff (e : Expression β) (text : List α) :
    e.found accepts text = true ↔ e.Found accepts text := by
  simp only [found, List.any_eq_true, List.mem_tails, List.mem_inits, Bool.and_eq_true,
    Bool.or_eq_true, Bool.not_eq_true', decide_eq_true_eq, test_iff]
  constructor
  · intro parts
    rcases parts with ⟨rest, ⟨before, rfl⟩, start, word, ⟨after, rfl⟩, stop, matched⟩
    refine ⟨before, word, after, by simp, fun anchored => ?_, fun anchored => ?_, matched⟩
    · simpa [anchored] using start
    · simpa [anchored] using stop
  · intro parts
    rcases parts with ⟨before, word, after, rfl, start, stop, matched⟩
    refine ⟨word ++ after, ⟨before, by simp⟩, ?_, word, ⟨after, rfl⟩, ?_, matched⟩
    · cases anchored : e.anchorStart <;> simp [start, anchored]
    · cases anchored : e.anchorEnd <;> simp [stop, anchored]

end

/-! ## Spelling -/

/-- A symbol over characters: a dot or a character. -/
inductive Symbol where
  | any
  | char (c : Char)
  deriving DecidableEq, Repr

/-- A dot stands for a dot, and a character is escaped. -/
def Symbol.text (escape : Char → List Char) : Symbol → List Char
  | .any => ['.']
  | .char c => escape c

def Piece.text (escape : Char → List Char) (piece : Piece Symbol) : List Char :=
  piece.symbol.text escape ++ if piece.repeated then ['*'] else []

def Expression.text (escape : Char → List Char) (e : Expression Symbol) : List Char :=
  (if e.anchorStart then ['^'] else []) ++ e.pieces.flatMap (Piece.text escape) ++
    if e.anchorEnd then ['$'] else []

/-- The characters with a meaning of their own. -/
def isMeta (c : Char) : Bool :=
  c ∈ ['\\', '.', '+', '*', '?', '(', ')', '|', '[', ']', '{', '}', '^', '$', '#', '&', '-', '~']

/-- Put a backslash in front of a character with a meaning of its own. -/
def escape (c : Char) : List Char :=
  if isMeta c then ['\\', c] else [c]

inductive Token where
  | symbol (symbol : Symbol)
  | star
  | stop
  deriving DecidableEq, Repr

def readTokens : List Char → Option (List Token)
  | [] => some []
  | '\\' :: c :: rest => (readTokens rest).map (.symbol (.char c) :: ·)
  | c :: rest =>
      if c = '.' then (readTokens rest).map (.symbol .any :: ·)
      else if c = '*' then (readTokens rest).map (.star :: ·)
      else if c = '$' then (readTokens rest).map (.stop :: ·)
      else if isMeta c then none
      else (readTokens rest).map (.symbol (.char c) :: ·)

def readPieces : List Token → Option (List (Piece Symbol) × Bool)
  | [] => some ([], false)
  | [.stop] => some ([], true)
  | .symbol symbol :: .star :: rest =>
      (readPieces rest).map fun read => (⟨symbol, true⟩ :: read.1, read.2)
  | .symbol symbol :: rest =>
      (readPieces rest).map fun read => (⟨symbol, false⟩ :: read.1, read.2)
  | _ => none

/-- Read an expression. -/
def read (text : List Char) : Option (Expression Symbol) :=
  let anchorStart := text.head? = some '^'
  ((readTokens (if anchorStart then text.tail else text)).bind readPieces).map fun read =>
    ⟨anchorStart, read.1, read.2⟩

def Piece.tokens (piece : Piece Symbol) : List Token :=
  .symbol piece.symbol :: if piece.repeated then [.star] else []

theorem readTokens_star (rest : List Char) :
    readTokens ('*' :: rest) = (readTokens rest).map (.star :: ·) := by
  rw [readTokens]
  · rw [if_neg (by decide), if_pos rfl]
  · intro c rest' equal
    cases equal

theorem readTokens_symbol (symbol : Symbol) (rest : List Char) :
    readTokens (symbol.text escape ++ rest) = (readTokens rest).map (.symbol symbol :: ·) := by
  cases symbol with
  | any =>
      rw [Symbol.text, List.singleton_append, readTokens]
      · rw [if_pos rfl]
      · intro c rest' equal
        cases equal
  | char c =>
      rw [Symbol.text, escape]
      by_cases isMeta_ : isMeta c = true
      · rw [if_pos isMeta_, List.cons_append, List.singleton_append, readTokens]
      · have plain : c ≠ '\\' ∧ c ≠ '.' ∧ c ≠ '*' ∧ c ≠ '$' := by
          refine ⟨?_, ?_, ?_, ?_⟩ <;>
          · intro same
            rw [same] at isMeta_
            exact isMeta_ (by decide)
        rw [if_neg isMeta_, List.singleton_append, readTokens]
        · simp [plain, isMeta_]
        · intro d rest' same
          exact absurd same plain.1

theorem readTokens_piece (piece : Piece Symbol) (rest : List Char) :
    readTokens (piece.text escape ++ rest) = (readTokens rest).map (piece.tokens ++ ·) := by
  rw [Piece.text, List.append_assoc, readTokens_symbol]
  cases repeated : piece.repeated with
  | true => simp [readTokens_star, Piece.tokens, repeated, Function.comp_def]
  | false => simp [Piece.tokens, repeated]

theorem readTokens_pieces (pieces : List (Piece Symbol)) (rest : List Char) :
    readTokens (pieces.flatMap (Piece.text escape) ++ rest) =
      (readTokens rest).map (pieces.flatMap Piece.tokens ++ ·) := by
  induction pieces with
  | nil => simp
  | cons piece pieces inductionHypothesis =>
      rw [List.flatMap_cons, List.append_assoc, readTokens_piece, inductionHypothesis]
      simp [Function.comp_def]

/-- The tokens behind a piece do not begin with a star. -/
theorem readPieces_tokens (pieces : List (Piece Symbol)) (stop : Bool) :
    readPieces (pieces.flatMap Piece.tokens ++ if stop then [.stop] else []) =
      some (pieces, stop) := by
  induction pieces with
  | nil => cases stop <;> simp [readPieces]
  | cons piece pieces inductionHypothesis =>
      rcases piece with ⟨symbol, repeated⟩
      cases repeated with
      | true => simp [Piece.tokens, readPieces, inductionHypothesis]
      | false =>
          have next :
              ∀ rest, pieces.flatMap Piece.tokens ++ (if stop then [Token.stop] else []) ≠
              .star :: rest := by
            intro rest same
            cases pieces with
            | nil => cases stop <;> simp at same
            | cons piece pieces => simp [Piece.tokens] at same
          rw [List.flatMap_cons, List.append_assoc, Piece.tokens, if_neg Bool.false_ne_true,
            List.singleton_append, readPieces, inductionHypothesis]
          · simp
          · intro rest same
            exact next rest same

theorem symbol_text_ne_nil (symbol : Symbol) : symbol.text escape ≠ [] := by
  cases symbol with
  | any => simp [Symbol.text]
  | char c =>
      rw [Symbol.text, escape]
      split <;> simp

theorem symbol_text_head (symbol : Symbol) : ∀ c ∈ (symbol.text escape).head?, c ≠ '^' := by
  intro c first
  cases symbol with
  | any =>
      cases first
      decide
  | char d =>
      rw [Symbol.text, escape] at first
      by_cases isMeta_ : isMeta d = true
      · rw [if_pos isMeta_] at first
        cases first
        decide
      · rw [if_neg isMeta_] at first
        cases first
        intro same
        rw [same] at isMeta_
        exact isMeta_ (by decide)

/-- Without an anchor an expression does not begin with one. -/
theorem body_head (pieces : List (Piece Symbol)) (stop : Bool) :
    (pieces.flatMap (Piece.text escape) ++ if stop then ['$'] else []).head? ≠ some '^' := by
  intro first
  cases pieces with
  | nil => cases stop <;> simp at first
  | cons piece pieces =>
      rw [List.flatMap_cons, Piece.text, List.append_assoc, List.append_assoc,
        List.head?_append_of_ne_nil _ (symbol_text_ne_nil piece.symbol)] at first
      exact symbol_text_head piece.symbol '^' first rfl

/-- The spelling of an expression is read as this expression. -/
theorem read_text (e : Expression Symbol) : read (e.text escape) = some e := by
  rcases e with ⟨start, pieces, stop⟩
  have body : (readTokens (pieces.flatMap (Piece.text escape) ++ if stop then ['$'] else [])).bind
      readPieces = some (pieces, stop) := by
    have last : readTokens (if stop then ['$'] else []) = some (if stop then [.stop] else []) := by
      cases stop <;> decide
    rw [readTokens_pieces, last, Option.map_some, Option.bind_some, readPieces_tokens]
  cases start with
  | true =>
      have shape : Expression.text escape ⟨true, pieces, stop⟩ =
          '^' :: (pieces.flatMap (Piece.text escape) ++ if stop then ['$'] else []) := by
        simp [Expression.text]
      simp [read, shape, body]
  | false =>
      have shape : Expression.text escape ⟨false, pieces, stop⟩ =
          pieces.flatMap (Piece.text escape) ++ if stop then ['$'] else [] := by
        simp [Expression.text]
      simp only [read, shape, if_neg (body_head pieces stop), body, Option.map_some,
        decide_eq_false (body_head pieces stop)]

end Expressions
end Library
end Sigil
