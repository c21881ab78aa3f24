import Sigil.Core.Slices

namespace Sigil
namespace Api

/-!
# The pipe DSL

A query is a sequence of stages between bars.  Every stage changes a builder, from which one
`SELECT` over the events is rendered.
-/

open Sigil.Core Library

inductive DslError where
  | parse (message : String)
  deriving DecidableEq, Repr

structure Builder where
  select : Option (List String) := none
  aggregates : List String := []
  groupBy : List String := []
  wheres : List String := []
  orderBy : Option String := none
  limit : Option Nat := none
  deriving DecidableEq, Repr

def join (sep : String) (parts : List String) : String :=
  sep.intercalate parts

namespace Builder

/-- The columns of the `SELECT`. -/
def columns (b : Builder) : String :=
  if b.aggregates ≠ [] then join ", " (b.groupBy ++ b.aggregates)
  else
    match b.select with
    | some fields => join ", " fields
    | none => "*"

def render (b : Builder) : String :=
  "SELECT " ++ b.columns ++ " FROM events" ++
    (if b.wheres ≠ [] then " WHERE " ++ join " AND " b.wheres else "") ++
    (if b.groupBy ≠ [] then " GROUP BY " ++ join ", " b.groupBy else "") ++
    (b.orderBy.elim "" fun ob => " ORDER BY " ++ ob) ++
    (b.limit.elim "" fun n => " LIMIT " ++ toString n)

end Builder

/-! ## Texts -/

def splitFirst (s : String) : String × String :=
  (String.ofList (s.toList.takeWhile fun c => !isWhitespace c),
    trimStart (String.ofList (s.toList.dropWhile fun c => !isWhitespace c)))

def isIdentChar (c : Char) : Bool :=
  c.isAlphanum || c = '_'

/-- Validate an identifier. -/
def ident (s : String) : Except DslError String :=
  if s ≠ "" ∧ ∀ c, c ∈ s.toList → isIdentChar c = true then .ok s
  else .error (.parse ("invalid identifier `" ++ s ++ "`"))

/-- Remove a pair of quotation marks. -/
def unquote (s : String) : String :=
  let text := (trim s).toList
  if 2 ≤ text.length ∧
      (text.head? = some '\'' ∧ text.getLast? = some '\'' ∨
        text.head? = some '"' ∧ text.getLast? = some '"') then
    String.ofList text.tail.dropLast
  else trim s

def escape (s : String) : String :=
  replace '\'' "''" s

/-- An exponent, or nothing. -/
def isExponent : List Char → Bool
  | [] => true
  | 'e' :: '+' :: digits => !digits.isEmpty && digits.all Char.isDigit
  | 'e' :: '-' :: digits => !digits.isEmpty && digits.all Char.isDigit
  | 'e' :: digits => !digits.isEmpty && digits.all Char.isDigit
  | _ => false

/-- Digits with at most one point among them, and an exponent. -/
def isDecimal (text : List Char) : Bool :=
  let whole := text.takeWhile Char.isDigit
  match text.dropWhile Char.isDigit with
  | '.' :: rest =>
      let fraction := rest.takeWhile Char.isDigit
      (!whole.isEmpty || !fraction.isEmpty) && isExponent (rest.dropWhile Char.isDigit)
  | rest => !whole.isEmpty && isExponent rest

/-- The text of a floating point number, as the standard library reads it. -/
def parsesF64 (s : String) : Bool :=
  let text := s.toList.map Char.toLower
  let number := match text with
    | '+' :: rest => rest
    | '-' :: rest => rest
    | rest => rest
  number = ['i', 'n', 'f'] || number = ['i', 'n', 'f', 'i', 'n', 'i', 't', 'y'] ||
    number = ['n', 'a', 'n'] || isDecimal number

/-- A value as a SQL literal. -/
def literal (value : String) : String :=
  let v := unquote value
  if parsesF64 v then v else "'" ++ escape v ++ "'"

/-! ## Stages -/

def parseWhere (rest : String) : Except DslError String :=
  match splitWhitespace rest with
  | first :: op :: word :: words => do
      let col ← ident first
      let value := join " " (word :: words)
      let compare (sqlOp : String) : Except DslError String :=
        .ok (col ++ " " ++ sqlOp ++ " " ++ literal value)
      match op with
      | "=" | "==" => compare "="
      | "!=" | "<>" => compare "!="
      | ">" => compare ">"
      | "<" => compare "<"
      | ">=" => compare ">="
      | "<=" => compare "<="
      | "contains" => .ok (col ++ " ILIKE '%" ++ escape (unquote value) ++ "%'")
      | other => .error (.parse ("unknown operator `" ++ other ++ "` in `where`"))
  | _ => .error (.parse ("`where` expects `<col> <op> <value>`, got `" ++ rest ++ "`"))

/-- The alias and the columns to group by, behind `count()`. -/
def statsParts (after : String) : Except DslError (String × String) :=
  match (stripPrefix "as " after).or (stripPrefix "AS " after) with
  | some stripped => do
      let parts := splitn 2 " by " stripped
      let aliasName ← ident (trim (parts.head?.getD "count"))
      return (aliasName, trim (parts[1]?.getD ""))
  | none =>
      match splitOnce "by " after with
      | some (_, columns) => return ("count", trim columns)
      | none => return ("count", "")

def idents (list : String) : Except DslError (List String) :=
  (splitChar ',' list).mapM fun s => ident (trim s)

def parseStats (rest : String) (b : Builder) : Except DslError Builder :=
  if ¬ "count()".toList <+: (trimStart (toAsciiLowercase rest)).toList then
    .error (.parse ("only `count()` is supported in `stats`, got `" ++ rest ++ "`"))
  else do
    let after := trim (String.ofList ((trimStart rest).toList.drop 7))
    let (aliasName, byPart) ← statsParts after
    let b := { b with aggregates := b.aggregates ++ ["count(*) AS " ++ aliasName] }
    if byPart = "" then return b
    else do
      let groupBy ← idents byPart
      return { b with groupBy := groupBy }

/-- What follows the column to sort by. -/
def sortDirection (word : Option String) : String :=
  if word.map toAsciiLowercase = some "desc" then " DESC" else ""

/-- One stage. -/
def lowerStage (b : Builder) (raw : String) : Except DslError Builder :=
  let stage := trim raw
  if stage = "" then .ok b
  else
    let cmd := (splitFirst stage).1
    let rest := (splitFirst stage).2
    match toAsciiLowercase cmd with
    | "search" =>
        let term := trim rest
        if term = "" then .ok b
        else .ok { b with wheres := b.wheres ++ ["message ILIKE '%" ++ escape term ++ "%'"] }
    | "where" => do
        let condition ← parseWhere rest
        return { b with wheres := b.wheres ++ [condition] }
    | "stats" => parseStats rest b
    | "fields" => do
        let fields ← idents rest
        return { b with select := some fields }
    | "sort" => do
        let words := splitWhitespace rest
        let col ← ident (words.head?.getD "")
        return { b with orderBy := some (col ++ sortDirection words[1]?) }
    | "head" | "limit" =>
        match parseUsize (trim rest) with
        | some n => .ok { b with limit := some n }
        | none => .error (.parse ("`" ++ cmd ++ "` expects a number, got `" ++ trim rest ++ "`"))
    | other => .error (.parse ("unknown DSL command `" ++ other ++ "`"))

/-- Lower a query to SQL. -/
def lower (dsl : String) : Except DslError String := do
  let b ← (splitChar '|' dsl).foldlM lowerStage {}
  return b.render

end Api
end Sigil
