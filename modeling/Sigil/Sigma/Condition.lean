import Sigil.Core.Text
import Sigil.Library.Parser

namespace Sigil
namespace Sigma

/-!
# The condition language

A boolean expression over selection names with the operators and, or and not,
parentheses and quantifiers over the selections that a pattern selects.
-/

open Sigil.Core Library

inductive Tok where
  | and
  | or
  | not
  | of
  | them
  | all
  | num (n : Nat)
  | ident (name : String)
  | lparen
  | rparen
  deriving DecidableEq, Repr

/-- The errors of the parser, with the data that their texts print. -/
inductive ConditionError where
  | empty
  | expected (tok : Tok)
  | unexpected (tok : Option Tok)
  | expectedTarget (tok : Option Tok)
  | trailing (input : String)
  deriving DecidableEq, Repr

/-- The words with a meaning of their own, in lower case. -/
def keyword : String → Option Tok
  | "and" => some .and
  | "or" => some .or
  | "not" => some .not
  | "of" => some .of
  | "them" => some .them
  | "all" => some .all
  | "(" => some .lparen
  | ")" => some .rparen
  | _ => none

/-- The token of one word. -/
def tokenOf (word : String) : Tok :=
  match keyword (toAsciiLowercase word) with
  | some tok => tok
  | none =>
      match parseUsize word with
      | some n => .num n
      | none => .ident word

def tokenize (input : String) : Except ConditionError (List Tok) :=
  -- make parens whitespace-separable, then split
  let spaced := replace ')' " ) " (replace '(' " ( " input)
  let toks := (splitWhitespace spaced).map tokenOf
  if toks.isEmpty then .error .empty else .ok toks

/-- Target of a quantifier: all selections or a name or prefix pattern. -/
inductive Target where
  | them
  | pattern (p : String)
  deriving DecidableEq, Repr

/-- Parsed condition expression. -/
inductive Expr where
  | ref (name : String)
  | not (e : Expr)
  | and (left right : Expr)
  | or (left right : Expr)
  | quant (atLeast : Option Nat) (target : Target)
  deriving DecidableEq, Repr

abbrev ConditionParser := Parser Tok ConditionError

def expect (tok : Tok) : ConditionParser Unit := do
  if (← Parser.next) = some tok then return () else throw (.expected tok)

def parseTarget : ConditionParser Target := do
  match ← Parser.next with
  | some .them => return .them
  | some (.ident p) => return .pattern p
  | other => throw (.expectedTarget other)

def parsePrimary (parseOr : ConditionParser Expr) : ConditionParser Expr := do
  match ← Parser.next with
  | some .lparen =>
      let e ← parseOr
      expect .rparen
      return e
  | some .all =>
      expect .of
      return .quant none (← parseTarget)
  | some (.num n) =>
      expect .of
      return .quant (some n) (← parseTarget)
  | some (.ident name) => return .ref name
  | other => throw (.unexpected other)

def parseAnd (parseNot : ConditionParser Expr) (fuel : Nat) : ConditionParser Expr :=
  Parser.chain .and .and parseNot fuel

def parseOr (parseNot : ConditionParser Expr) (fuel : Nat) : ConditionParser Expr :=
  Parser.chain .or .or (parseAnd parseNot fuel) fuel

/-- The fuel bounds the depth of the expression and the length of every chain in it. -/
def parseNot : Nat → ConditionParser Expr
  | 0 => Parser.exhausted
  | fuel + 1 => do
      if (← Parser.peek) = some .not then
        let _ ← Parser.next
        return .not (← parseNot fuel)
      else parsePrimary (parseOr (parseNot fuel) fuel)

/-- Parse the tokens of a condition; the fuel is more than their number. -/
def parseTokens (toks : List Tok) : Option (Except ConditionError (Expr × List Tok)) :=
  parseOr (parseNot (toks.length + 1)) (toks.length + 1) toks

/-- Parse a condition string.  There would be no result if the fuel ran out. -/
def parse (input : String) : Option (Except ConditionError Expr) :=
  match tokenize input with
  | .error e => some (.error e)
  | .ok toks =>
      (parseTokens toks).map fun
        | .error e => .error e
        | .ok (expr, rest) => if rest ≠ [] then .error (.trailing input) else .ok expr

/-- A pattern without its final star. -/
def stripStar (p : String) : Option String :=
  if p.toList.getLast? = some '*' then some (String.ofList p.toList.dropLast) else none

def Target.select : Target → List String → List String
  | .them, names => names
  | .pattern p, names =>
      match stripStar p with
      | some start => names.filter fun n => start.toList.isPrefixOf n.toList
      | none => names.filter fun n => n = p

/-- Evaluate an expression given the results of the selections and the names of all of
them. -/
def eval (results : String → Option Bool) (names : List String) : Expr → Bool
  | .ref n => (results n).getD false
  | .not e => !eval results names e
  | .and a b => eval results names a && eval results names b
  | .or a b => eval results names a || eval results names b
  | .quant atLeast target =>
      let selected := target.select names
      let hits := selected.countP fun n => (results n).getD false
      match atLeast with
      | none => !selected.isEmpty && hits = selected.length
      | some k => hits ≥ k

end Sigma
end Sigil
