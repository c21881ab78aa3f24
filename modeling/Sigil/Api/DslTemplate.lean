import Sigil.Api.DslCommand
import Sigil.Library.Pointwise
import Sigil.Library.Quoted

namespace Sigil
namespace Api

/-!
# What a query of the pipe DSL becomes

A query is lowered to a fixed template with identifiers, numbers and quoted literals in it.
The literals come from the values of the stages, in their order, and a scanner that reads the
SQL finds just these.
-/

open Sigil.Core Library

/-! ## The template -/

/-- An identifier of ASCII letters, digits and underscores. -/
structure Ident where
  text : String
  nonempty : text ≠ ""
  chars : ∀ c, c ∈ text.toList → isIdentChar c = true

/-- A text that is read as a floating point number. -/
structure Number where
  text : String
  parses : parsesF64 text = true

/-- A text between quotation marks, with every mark in it doubled. -/
def sqlQuote (content : String) : String :=
  String.ofList (Quoted.quote '\'' content.toList)

inductive Operand where
  | number (number : Number)
  | quoted (content : String)

def Operand.text : Operand → String
  | .number n => n.text
  | .quoted content => sqlQuote content

/-- The operand for a value: the bare value if it is a number. -/
def operand (v : String) : Operand :=
  if parses : parsesF64 v = true then .number ⟨v, parses⟩ else .quoted v

inductive Comparison where
  | equal
  | notEqual
  | greater
  | less
  | greaterEqual
  | lessEqual
  deriving DecidableEq, Repr

def Comparison.text : Comparison → String
  | .equal => "="
  | .notEqual => "!="
  | .greater => ">"
  | .less => "<"
  | .greaterEqual => ">="
  | .lessEqual => "<="

/-- The comparison that an operator of the DSL stands for. -/
def comparison : String → Option Comparison
  | "=" | "==" => some .equal
  | "!=" | "<>" => some .notEqual
  | ">" => some .greater
  | "<" => some .less
  | ">=" => some .greaterEqual
  | "<=" => some .lessEqual
  | _ => none

inductive Condition where
  | compare (col : Ident) (op : Comparison) (operand : Operand)
  | like (col : Ident) (content : String)

namespace Condition

def text : Condition → String
  | .compare col op operand => col.text ++ " " ++ op.text ++ " " ++ operand.text
  | .like col content => col.text ++ " ILIKE " ++ sqlQuote ("%" ++ content ++ "%")

/-- What stands in the literal of the condition. -/
def contents : Condition → List String
  | .compare _ _ (.number _) => []
  | .compare _ _ (.quoted content) => [content]
  | .like _ content => ["%" ++ content ++ "%"]

end Condition

inductive Column where
  | all
  | field (name : Ident)
  | count (name : Ident)

def Column.text : Column → String
  | .all => "*"
  | .field name => name.text
  | .count name => "count(*) AS " ++ name.text

inductive Direction where
  | ascending
  | descending
  deriving DecidableEq, Repr

def Direction.text : Direction → String
  | .ascending => ""
  | .descending => " DESC"

/-- A clause with its items, or nothing. -/
def clause (keyword sep : String) (items : List String) : String :=
  if items ≠ [] then keyword ++ join sep items else ""

/-- A `SELECT` over the events. -/
structure Query where
  columns : List Column
  someColumn : columns ≠ []
  conditions : List Condition
  groupBy : List Ident
  orderBy : Option (Ident × Direction)
  limit : Option Nat

namespace Query

def text (q : Query) : String :=
  "SELECT " ++ join ", " (q.columns.map Column.text) ++ " FROM events" ++
    clause " WHERE " " AND " (q.conditions.map Condition.text) ++
    clause " GROUP BY " ", " (q.groupBy.map Ident.text) ++
    (q.orderBy.elim "" fun order => " ORDER BY " ++ (order.1.text ++ order.2.text)) ++
    q.limit.elim "" fun n => " LIMIT " ++ toString n

/-- What stands in the literals of the query. -/
def contents (q : Query) : List String :=
  q.conditions.flatMap Condition.contents

end Query

/-! ## Where the literals come from -/

def messageColumn : Ident where
  text := "message"
  nonempty := by decide
  chars := by decide

/-- The condition of a stage, if it has one: a search for its whole text, a comparison with its
value, or a search for its value.  The value is the text behind the operator, with one blank
for each run of white space and without a pair of quotation marks. -/
inductive Contributes (raw : String) : List Condition → Prop where
  | nothing (noTerm : command raw = "search" → trim (argument raw) = "")
      (noWhere : command raw ≠ "where") : Contributes raw []
  | search (isSearch : command raw = "search") (someTerm : trim (argument raw) ≠ "") :
      Contributes raw [.like messageColumn (trim (argument raw))]
  | compare {col : Ident} {op word : String} {words : List String} {sqlOp : Comparison}
      (isWhere : command raw = "where")
      (tokens : splitWhitespace (argument raw) = col.text :: op :: word :: words)
      (operator : comparison op = some sqlOp) :
      Contributes raw [.compare col sqlOp (operand (unquote (join " " (word :: words))))]
  | contains {col : Ident} {word : String} {words : List String} (isWhere : command raw = "where")
      (tokens : splitWhitespace (argument raw) = col.text :: "contains" :: word :: words) :
      Contributes raw [.like col (unquote (join " " (word :: words)))]

/-! ## The builder of a query -/

/-- What the stages have put together so far. -/
structure Parts where
  fields : Option (List Ident)
  someField : ∀ fields', fields = some fields' → fields' ≠ []
  counts : List Ident
  groupBy : List Ident
  conditions : List Condition
  orderBy : Option (Ident × Direction)
  limit : Option Nat

namespace Parts

def empty : Parts where
  fields := none
  someField := by rintro _ ⟨⟩
  counts := []
  groupBy := []
  conditions := []
  orderBy := none
  limit := none

/-- The builder that holds the texts of these parts. -/
def builder (p : Parts) : Builder where
  select := p.fields.map fun fields => fields.map Ident.text
  aggregates := p.counts.map fun name => "count(*) AS " ++ name.text
  groupBy := p.groupBy.map Ident.text
  wheres := p.conditions.map Condition.text
  orderBy := p.orderBy.map fun order => order.1.text ++ order.2.text
  limit := p.limit

/-- The columns: what is grouped by and counted, or the fields, or all. -/
def columns (p : Parts) : List Column :=
  if p.counts ≠ [] then p.groupBy.map .field ++ p.counts.map .count
  else p.fields.elim [.all] fun fields => fields.map .field

theorem columns_ne_nil (p : Parts) : p.columns ≠ [] := by
  rw [columns]
  split
  · next some_ => simp [some_]
  · cases found : p.fields with
    | none => simp
    | some fields => simp [p.someField fields found]

def query (p : Parts) : Query where
  columns := p.columns
  someColumn := p.columns_ne_nil
  conditions := p.conditions
  groupBy := p.groupBy
  orderBy := p.orderBy
  limit := p.limit

/-- A builder renders the template. -/
theorem render_builder (p : Parts) : p.builder.render = p.query.text := by
  have columns : p.builder.columns = join ", " (p.columns.map Column.text) := by
    rw [Builder.columns, Parts.columns]
    by_cases some_ : p.counts = []
    · have noAggregate : ¬ p.builder.aggregates ≠ [] := by simp [builder, some_]
      rw [if_neg noAggregate, if_neg (not_not.mpr some_)]
      cases found : p.fields with
      | none => simp [builder, found, join, Column.text]
      | some fields =>
          simp only [builder, found, Option.map_some, Option.elim_some, List.map_map]
          rfl
    · have aggregates : p.builder.aggregates ≠ [] := by simp [builder, some_]
      rw [if_pos aggregates, if_pos some_, List.map_append, List.map_map, List.map_map]
      rfl
  have orderBy : p.builder.orderBy.elim "" (fun ob => " ORDER BY " ++ ob) =
      p.orderBy.elim "" fun order => " ORDER BY " ++ (order.1.text ++ order.2.text) := by
    rw [builder]
    exact Option.elim_map ..
  rw [Builder.render, columns, orderBy]
  rfl

end Parts

/-! ## What the stages put together -/

theorem ident_ok {s t : String} (accepted : ident s = .ok t) :
    ∃ name : Ident, name.text = s ∧ t = s := by
  rw [ident] at accepted
  split at accepted
  · next valid => exact ⟨⟨s, valid.1, valid.2⟩, rfl, (Except.ok.inj accepted).symm⟩
  · cases accepted

theorem mapM_ident_ok {parts texts : List String}
    (accepted : parts.mapM (fun s => ident (trim s)) = .ok texts) :
    ∃ names : List Ident, texts = names.map Ident.text ∧ names.length = parts.length := by
  induction parts generalizing texts with
  | nil =>
      rw [List.mapM_nil] at accepted
      exact ⟨[], (Except.ok.inj accepted).symm, rfl⟩
  | cons part parts inductionHypothesis =>
      rw [List.mapM_cons] at accepted
      rcases Pointwise.of_bind_ok accepted with ⟨first, isFirst, rest⟩
      rcases Pointwise.of_bind_ok rest with ⟨others, areOthers, all⟩
      rcases ident_ok isFirst with ⟨name, text, rfl⟩
      rcases inductionHypothesis areOthers with ⟨names, rfl, length⟩
      refine ⟨name :: names, ?_, ?_⟩
      · rw [← Except.ok.inj all, List.map_cons, text]
      · rw [List.length_cons, List.length_cons, length]

theorem idents_ok {list : String} {texts : List String} (accepted : idents list = .ok texts) :
    ∃ names : List Ident, texts = names.map Ident.text ∧ names ≠ [] := by
  rcases mapM_ident_ok accepted with ⟨names, same, length⟩
  refine ⟨names, same, fun none_ => ?_⟩
  rw [none_, List.length_nil, splitChar, List.length_map] at length
  exact List.splitOnP_ne_nil _ _ (List.length_eq_zero_iff.mp length.symm)

theorem sqlQuote_eq (content : String) : sqlQuote content = "'" ++ escape content ++ "'" := by
  apply String.toList_injective
  simp only [sqlQuote, String.toList_append, escape, replace, String.toList_ofList]
  rfl

theorem like_eq (content : String) :
    sqlQuote ("%" ++ content ++ "%") = "'%" ++ escape content ++ "%'" := by
  apply String.toList_injective
  rw [sqlQuote, String.toList_ofList, Quoted.quote, Quoted.double, String.toList_append,
    String.toList_append, String.toList_append, String.toList_append, List.flatMap_append,
    List.flatMap_append, escape, replace, String.toList_ofList]
  simp

theorem like_text (col : Ident) (content : String) :
    (Condition.like col content).text = col.text ++ " ILIKE '%" ++ escape content ++ "%'" := by
  have operator : " ILIKE '%" = " ILIKE " ++ "'%" := rfl
  rw [Condition.text, like_eq, operator]
  simp only [String.append_assoc]

theorem operand_text (value : String) : (operand (unquote value)).text = literal value := by
  rw [operand, literal]
  by_cases parses : parsesF64 (unquote value) = true
  · simp only [dif_pos parses, if_pos parses, Operand.text]
  · simp only [dif_neg parses, if_neg parses, Operand.text, sqlQuote_eq]

/-- A `where` stage gives its condition. -/
theorem parseWhere_ok {raw text : String} (isWhere : command raw = "where")
    (accepted : parseWhere (argument raw) = .ok text) :
    ∃ condition : Condition, text = condition.text ∧ Contributes raw [condition] := by
  rw [parseWhere] at accepted
  split at accepted
  · next first op word words tokens =>
      rcases Pointwise.of_bind_ok accepted with ⟨col, isCol, rest⟩
      rcases ident_ok isCol with ⟨name, rfl, rfl⟩
      have compares : ∀ sqlOp : Comparison, comparison op = some sqlOp →
          Except.ok (name.text ++ " " ++ sqlOp.text ++ " " ++ literal (join " " (word :: words))) =
            (Except.ok text : Except DslError String) →
          ∃ condition : Condition, text = condition.text ∧ Contributes raw [condition] := by
        intro sqlOp operator same
        refine ⟨_, ?_, Contributes.compare isWhere tokens operator⟩
        rw [← Except.ok.inj same, Condition.text, operand_text]
      split at rest
      · exact compares .equal rfl rest
      · exact compares .equal rfl rest
      · exact compares .notEqual rfl rest
      · exact compares .notEqual rfl rest
      · exact compares .greater rfl rest
      · exact compares .less rfl rest
      · exact compares .greaterEqual rfl rest
      · exact compares .lessEqual rfl rest
      · exact ⟨_, (Except.ok.inj rest).symm.trans (like_text name _).symm,
          .contains isWhere tokens⟩
      · cases rest
  · cases accepted

def countName : Ident where
  text := "count"
  nonempty := by decide
  chars := by decide

theorem statsParts_ok {after aliasName byPart : String}
    (accepted : statsParts after = .ok (aliasName, byPart)) :
    ∃ name : Ident, aliasName = name.text := by
  rw [statsParts] at accepted
  split at accepted
  · next stripped _ =>
      rcases Pointwise.of_bind_ok accepted with ⟨text, isAlias, rest⟩
      rcases ident_ok isAlias with ⟨name, same, rfl⟩
      exact ⟨name, (congrArg Prod.fst (Except.ok.inj rest)).symm.trans same.symm⟩
  · split at accepted
    · exact ⟨countName, (congrArg Prod.fst (Except.ok.inj accepted)).symm⟩
    · exact ⟨countName, (congrArg Prod.fst (Except.ok.inj accepted)).symm⟩

/-- A `stats` stage counts, and may group. -/
theorem parseStats_ok {p : Parts} {rest : String} {b : Builder}
    (accepted : parseStats rest p.builder = .ok b) :
    ∃ p' : Parts, b = p'.builder ∧ p'.conditions = p.conditions := by
  rw [parseStats] at accepted
  split at accepted
  · cases accepted
  · rcases Pointwise.of_bind_ok accepted with ⟨⟨aliasName, byPart⟩, parts, counted⟩
    rcases statsParts_ok parts with ⟨name, rfl⟩
    dsimp only at counted
    split at counted
    · refine ⟨{ p with counts := p.counts ++ [name] }, ?_, rfl⟩
      rw [← Except.ok.inj counted, Parts.builder, Parts.builder, List.map_append]
      rfl
    · rcases Pointwise.of_bind_ok counted with ⟨groupBy, grouped, all⟩
      rcases idents_ok grouped with ⟨names, rfl, _⟩
      refine ⟨{ p with counts := p.counts ++ [name], groupBy := names }, ?_, rfl⟩
      rw [← Except.ok.inj all, Parts.builder, Parts.builder, List.map_append]
      rfl

theorem sortDirection_eq (word : Option String) :
    ∃ direction : Direction, sortDirection word = direction.text := by
  rw [sortDirection]
  split
  · exact ⟨.descending, rfl⟩
  · exact ⟨.ascending, rfl⟩

/-- A stage adds a condition only when it searches or is a `where`. -/
theorem Contributes.other {raw : String} (noSearch : command raw ≠ "search")
    (noWhere : command raw ≠ "where") : Contributes raw [] :=
  .nothing (fun isSearch => absurd isSearch noSearch) noWhere

theorem parts_unchanged {p p' : Parts} {raw : String} {b : Builder} (builder : b = p'.builder)
    (conditions : p'.conditions = p.conditions) (none_ : Contributes raw []) :
    ∃ (p' : Parts) (new : List Condition), b = p'.builder ∧
      p'.conditions = p.conditions ++ new ∧
      Contributes raw new :=
  ⟨p', [], builder, conditions.trans (List.append_nil _).symm, none_⟩

/-- A command changes the parts and adds the condition of its stage. -/
theorem Command.lower_parts {p : Parts} {raw : String} {b : Builder} {cmd : Command}
    (named : command raw ∈ cmd.names) (accepted : cmd.lower p.builder raw = .ok b) :
    ∃ (p' : Parts) (new : List Condition), b = p'.builder ∧
      p'.conditions = p.conditions ++ new ∧
      Contributes raw new := by
  have other : ∀ name ∉ cmd.names, command raw ≠ name := fun name foreign same =>
    foreign (same ▸ named)
  cases cmd with
  | search =>
      rw [Command.lower] at accepted
      split at accepted
      · next noTerm =>
          exact parts_unchanged (Except.ok.inj accepted).symm rfl
            (.nothing (fun _ => noTerm) (other "where" (by decide)))
      · next someTerm =>
          refine ⟨{ p with conditions := p.conditions ++
            [.like messageColumn (trim (argument raw))] }, _, ?_, rfl,
              .search (List.mem_singleton.mp named) someTerm⟩
          rw [← Except.ok.inj accepted, Parts.builder, Parts.builder, List.map_append,
            List.map_singleton, like_text]
          rfl
  | where_ =>
      rcases Pointwise.of_bind_ok accepted with ⟨text, isCondition, all⟩
      rcases parseWhere_ok (List.mem_singleton.mp named) isCondition with
        ⟨condition, rfl, contributes⟩
      refine ⟨{ p with conditions := p.conditions ++ [condition] }, _, ?_, rfl, contributes⟩
      rw [← Except.ok.inj all, Parts.builder, Parts.builder, List.map_append, List.map_singleton]
  | stats =>
      rcases parseStats_ok accepted with ⟨p', builder, conditions⟩
      exact parts_unchanged builder conditions
        (.other (other "search" (by decide)) (other "where" (by decide)))
  | fields =>
      rcases Pointwise.of_bind_ok accepted with ⟨texts, areFields, all⟩
      rcases idents_ok areFields with ⟨names, rfl, some_⟩
      let p' : Parts :=
        { p with fields := some names, someField := by rintro _ ⟨⟩; exact some_ }
      have builder : b = p'.builder := (Except.ok.inj all).symm
      exact parts_unchanged builder rfl
        (.other (other "search" (by decide)) (other "where" (by decide)))
  | sort =>
      rcases Pointwise.of_bind_ok accepted with ⟨text, isColumn, all⟩
      rcases ident_ok isColumn with ⟨name, same, isText⟩
      rcases sortDirection_eq (splitWhitespace (argument raw))[1]? with ⟨direction, isDirection⟩
      rw [isText, ← same, isDirection] at all
      let p' : Parts := { p with orderBy := some (name, direction) }
      have builder : b = p'.builder := (Except.ok.inj all).symm
      exact parts_unchanged builder rfl
        (.other (other "search" (by decide)) (other "where" (by decide)))
  | limit =>
      rw [Command.lower] at accepted
      cases number : parseUsize (trim (argument raw)) with
      | none =>
          rw [number] at accepted
          cases accepted
      | some n =>
          rw [number] at accepted
          let p' : Parts := { p with limit := some n }
          have builder : b = p'.builder := (Except.ok.inj accepted).symm
          exact parts_unchanged builder rfl
            (.other (other "search" (by decide)) (other "where" (by decide)))

/-- A stage changes the parts and adds its condition. -/
theorem lowerStage_ok {p : Parts} {raw : String} {b : Builder}
    (accepted : lowerStage p.builder raw = .ok b) :
    ∃ (p' : Parts) (new : List Condition), b = p'.builder ∧
      p'.conditions = p.conditions ++ new ∧
      Contributes raw new := by
  cases read : Command.read (command raw) with
  | some cmd =>
      rw [lowerStage_of_read read] at accepted
      exact Command.lower_parts (Command.mem_names read) accepted
  | none =>
      by_cases blank : trim raw = ""
      · rw [lowerStage_blank blank] at accepted
        refine parts_unchanged (Except.ok.inj accepted).symm rfl (.other ?_ ?_)
        · rw [command_blank blank]
          decide
        · rw [command_blank blank]
          decide
      · exact absurd ⟨b, accepted⟩ (lowerStage_unknown blank read)

/-- The stages put together a query with their conditions in order. -/
theorem foldlM_lowerStage_ok {raws : List String} {p : Parts} {b : Builder}
    (accepted : raws.foldlM lowerStage p.builder = .ok b) :
    ∃ (p' : Parts) (contributions : List (List Condition)), b = p'.builder ∧
      List.Forall₂ Contributes raws contributions ∧
        p'.conditions = p.conditions ++ contributions.flatten := by
  induction raws generalizing p with
  | nil => exact ⟨p, [], (Except.ok.inj accepted).symm, .nil, (List.append_nil _).symm⟩
  | cons raw raws inductionHypothesis =>
      rw [List.foldlM_cons] at accepted
      rcases Pointwise.of_bind_ok accepted with ⟨middle, first, rest⟩
      rcases lowerStage_ok first with ⟨p', new, rfl, conditions, contributes⟩
      rcases inductionHypothesis rest with ⟨last, contributions, builder, all, later⟩
      refine ⟨last, new :: contributions, builder, .cons contributes all, ?_⟩
      rw [later, conditions, List.flatten_cons, List.append_assoc]

/-! ## The literals that a scanner finds -/

/-- A text has no quotation mark. -/
def Unmarked (s : String) : Prop :=
  '\'' ∉ s.toList

instance (s : String) : Decidable (Unmarked s) :=
  inferInstanceAs (Decidable (¬ '\'' ∈ s.toList))

/-- The literals of a text. -/
def ReadsAs (s : String) (contents : List String) : Prop :=
  Quoted.Reads '\'' s.toList (contents.map String.toList)

theorem Unmarked.append {s t : String} (first : Unmarked s) (second : Unmarked t) :
    Unmarked (s ++ t) := by
  rw [Unmarked, String.toList_append, List.mem_append, not_or]
  exact ⟨first, second⟩

theorem Unmarked.join {sep : String} {parts : List String} (unmarkedSep : Unmarked sep)
    (unmarked : ∀ part, part ∈ parts → Unmarked part) : Unmarked (join sep parts) := by
  induction parts with
  | nil => exact List.not_mem_nil
  | cons part parts inductionHypothesis =>
      have first := unmarked part List.mem_cons_self
      cases parts with
      | nil =>
          rw [Api.join, String.intercalate_singleton]
          exact first
      | cons next parts =>
          rw [Api.join, String.intercalate_cons_cons]
          exact (first.append unmarkedSep).append
            (inductionHypothesis fun other member => unmarked other (List.mem_cons_of_mem _ member))

theorem Ident.unmarked (name : Ident) : Unmarked name.text := by
  intro member
  exact absurd (name.chars _ member) (by decide)

theorem unmarked_toString (n : Nat) : Unmarked (toString n) :=
  not_mem_toString rfl

/-- A character that does not stand in a decimal number. -/
def Foreign (c : Char) : Prop :=
  c.isDigit = false ∧ c ∉ ['.', 'e', '+', '-']

instance (c : Char) : Decidable (Foreign c) :=
  inferInstanceAs (Decidable (_ ∧ _))

section Foreign

variable {c : Char} {text : List Char}

theorem not_mem_digits (foreign : Foreign c) (digits : text.all Char.isDigit = true) :
    c ∉ text := by
  intro member
  exact absurd (foreign.1.symm.trans (List.all_eq_true.mp digits c member)) (by decide)

theorem not_mem_exponent (foreign : Foreign c) (exponent : isExponent text = true) :
    c ∉ text := by
  have noSign := foreign.2
  simp only [List.mem_cons, List.not_mem_nil, or_false, not_or] at noSign
  rw [isExponent.eq_def] at exponent
  split at exponent
  · exact List.not_mem_nil
  · rw [Bool.and_eq_true] at exponent
    simp [not_mem_digits foreign exponent.2, noSign]
  · rw [Bool.and_eq_true] at exponent
    simp [not_mem_digits foreign exponent.2, noSign]
  · rw [Bool.and_eq_true] at exponent
    simp [not_mem_digits foreign exponent.2, noSign]
  · cases exponent

/-- The digits at the start have no such character, so it is in the rest or nowhere. -/
theorem not_mem_of_dropWhile (foreign : Foreign c) (rest : c ∉ text.dropWhile Char.isDigit) :
    c ∉ text := by
  have whole : text.takeWhile Char.isDigit ++ text.dropWhile Char.isDigit = text :=
    List.takeWhile_append_dropWhile
  rw [← whole, List.mem_append, not_or]
  exact ⟨fun member => absurd (foreign.1.symm.trans (List.mem_takeWhile_imp member))
    (by decide), rest⟩

theorem not_mem_decimal (foreign : Foreign c) (decimal : isDecimal text = true) : c ∉ text := by
  rw [isDecimal] at decimal
  dsimp only at decimal
  split at decimal
  · next rest behind =>
      rw [Bool.and_eq_true] at decimal
      have fraction := not_mem_of_dropWhile foreign (not_mem_exponent foreign decimal.2)
      apply not_mem_of_dropWhile foreign
      rw [behind, List.mem_cons, not_or]
      exact ⟨fun point => foreign.2 (by simp [point]), fraction⟩
  · rw [Bool.and_eq_true] at decimal
    exact not_mem_of_dropWhile foreign (not_mem_exponent foreign decimal.2)

end Foreign

/-- A number has no quotation mark. -/
theorem Number.unmarked (number : Number) : Unmarked number.text := by
  have parses := number.parses
  rw [parsesF64] at parses
  simp only [Bool.or_eq_true, decide_eq_true_eq] at parses
  intro member
  have lower : '\'' ∈ number.text.toList.map Char.toLower :=
    List.mem_map.mpr ⟨'\'', member, rfl⟩
  have plain : ∀ text : List Char, ((text = ['i', 'n', 'f'] ∨
      text = ['i', 'n', 'f', 'i', 'n', 'i', 't', 'y']) ∨ text = ['n', 'a', 'n']) ∨
        isDecimal text = true → '\'' ∉ text := by
    rintro text (((rfl | rfl) | rfl) | decimal)
    · decide
    · decide
    · decide
    · exact not_mem_decimal (by decide) decimal
  split at parses
  · next rest signed =>
      rw [signed] at lower
      exact plain rest parses ((List.mem_cons.mp lower).resolve_left (by decide))
  · next rest signed =>
      rw [signed] at lower
      exact plain rest parses ((List.mem_cons.mp lower).resolve_left (by decide))
  · exact plain _ parses lower

theorem readsAs_code {s : String} (unmarked : Unmarked s) : ReadsAs s [] :=
  Quoted.reads_code unmarked

theorem readsAs_sqlQuote (content : String) : ReadsAs (sqlQuote content) [content] := by
  rw [ReadsAs, sqlQuote, String.toList_ofList]
  exact Quoted.reads_quote content.toList

theorem ReadsAs.behind {s t : String} {contents : List String} (unmarked : Unmarked s)
    (reads : ReadsAs t contents) : ReadsAs (s ++ t) contents := by
  rw [ReadsAs, String.toList_append]
  exact Quoted.Reads.behind_code unmarked reads

theorem ReadsAs.append {s t : String} {contents others : List String} (reads : ReadsAs s contents)
    (readsNext : ReadsAs t others) (opens : t.toList.head? ≠ some '\'') :
    ReadsAs (s ++ t) (contents ++ others) := by
  rw [ReadsAs, String.toList_append, List.map_append]
  exact Quoted.Reads.append reads readsNext opens

/-- A text without marks may follow. -/
theorem ReadsAs.before {s t : String} {contents : List String} (reads : ReadsAs s contents)
    (unmarked : Unmarked t) : ReadsAs (s ++ t) contents := by
  rw [← List.append_nil contents]
  exact reads.append (readsAs_code unmarked) fun opens => unmarked (List.mem_of_head? opens)

theorem readsAs_condition (condition : Condition) : ReadsAs condition.text condition.contents := by
  cases condition with
  | compare col op operand =>
      have operator : Unmarked op.text := by
        cases op <;> decide
      have front : Unmarked (col.text ++ " " ++ op.text ++ " ") :=
        ((col.unmarked.append (by decide)).append operator).append (by decide)
      rw [Condition.text]
      cases operand with
      | number number => exact (readsAs_code number.unmarked).behind front
      | quoted content => exact (readsAs_sqlQuote content).behind front
  | like col content =>
      have front : Unmarked (col.text ++ " ILIKE ") := col.unmarked.append (by decide)
      exact (readsAs_sqlQuote _).behind front

theorem readsAs_join (conditions : List Condition) :
    ReadsAs (join " AND " (conditions.map Condition.text))
      (conditions.flatMap Condition.contents) := by
  induction conditions with
  | nil => exact readsAs_code (show Unmarked "" by decide)
  | cons condition conditions inductionHypothesis =>
      have first := readsAs_condition condition
      cases conditions with
      | nil =>
          rw [List.map_singleton, join, String.intercalate_singleton, List.flatMap_singleton]
          exact first
      | cons next conditions =>
          have rest : ReadsAs (" AND " ++ join " AND " ((next :: conditions).map Condition.text))
              ((next :: conditions).flatMap Condition.contents) :=
            inductionHypothesis.behind (by decide)
          rw [List.map_cons, List.map_cons, join, String.intercalate_cons_cons, String.append_assoc,
            List.flatMap_cons]
          have opens :
              (" AND " ++ join " AND " ((next :: conditions).map Condition.text)).toList.head? =
              some ' ' := by
            rw [String.toList_append]
            rfl
          exact first.append rest fun same => absurd (opens.symm.trans same) (by decide)

theorem unmarked_clause {keyword sep : String} {items : List String}
    (unmarkedKeyword : Unmarked keyword) (unmarkedSep : Unmarked sep)
    (unmarked : ∀ item, item ∈ items → Unmarked item) :
    Unmarked (clause keyword sep items) := by
  rw [clause]
  split
  · exact unmarkedKeyword.append (.join unmarkedSep unmarked)
  · decide

theorem Column.unmarked (column : Column) : Unmarked column.text := by
  cases column with
  | all => decide
  | field name => exact name.unmarked
  | count name => exact Unmarked.append (by decide) name.unmarked

/-- A scanner finds the literals of a query and nothing else. -/
theorem readsAs_text (q : Query) : ReadsAs q.text q.contents := by
  have columns :
      Unmarked ("SELECT " ++ join ", " (q.columns.map Column.text) ++ " FROM events") := by
    refine (Unmarked.append (by decide) (.join (by decide) fun part member =>
      ?_)).append (by decide)
    rcases List.mem_map.mp member with ⟨column, _, rfl⟩
    exact column.unmarked
  have groupBy : Unmarked (clause " GROUP BY " ", " (q.groupBy.map Ident.text)) := by
    refine unmarked_clause (by decide) (by decide) fun item member => ?_
    rcases List.mem_map.mp member with ⟨name, _, rfl⟩
    exact name.unmarked
  have orderBy : Unmarked (q.orderBy.elim "" fun order =>
      " ORDER BY " ++ (order.1.text ++ order.2.text)) := by
    cases q.orderBy with
    | none => decide
    | some order =>
        have direction : Unmarked order.2.text := by
          cases order.2 <;> decide
        exact Unmarked.append (by decide) (order.1.unmarked.append direction)
  have limit : Unmarked (q.limit.elim "" fun n => " LIMIT " ++ toString n) := by
    cases q.limit with
    | none => decide
    | some n => exact Unmarked.append (by decide) (unmarked_toString n)
  have wheres :
      ReadsAs (clause " WHERE " " AND " (q.conditions.map Condition.text)) q.contents := by
    rw [clause]
    split
    · exact (readsAs_join q.conditions).behind (by decide)
    · next none_ =>
        rw [ne_eq, not_not, List.map_eq_nil_iff] at none_
        rw [Query.contents, none_]
        exact readsAs_code (by decide)
  exact (((wheres.behind columns).before groupBy).before orderBy).before limit

/-- Every lowered query is an instance of the template, whose conditions come from the stages in
order, and the literals in it are the ones of these conditions. -/
theorem lower_template {dsl sql : String} (lowered : lower dsl = .ok sql) :
    ∃ (query : Query) (contributions : List (List Condition)), sql = query.text ∧
      List.Forall₂ Contributes (splitChar '|' dsl) contributions ∧
      query.conditions = contributions.flatten ∧
      Quoted.literals '\'' .code sql.toList = some (query.contents.map String.toList) := by
  rw [lower] at lowered
  rcases Pointwise.of_bind_ok lowered with ⟨b, staged, rendered⟩
  have start : (splitChar '|' dsl).foldlM lowerStage Parts.empty.builder = .ok b := staged
  rcases foldlM_lowerStage_ok start with ⟨p, contributions, rfl, contributes, conditions⟩
  have same : sql = p.query.text := (Except.ok.inj rendered).symm.trans p.render_builder
  refine ⟨p.query, contributions, same, contributes, conditions, ?_⟩
  rw [same]
  exact (readsAs_text p.query).literals_eq

/-- A query with quotation marks, a comment and an operator in its values. -/
def valuesDsl : String :=
  "search it's--|where user = \"'  OR  1\" | where port >= 1e3|stats count() as n by host|head 5"

def valuesSql : String :=
  "SELECT host, count(*) AS n FROM events WHERE message ILIKE '%it''s--%' AND user = ''' OR 1' " ++
    "AND port >= 1e3 GROUP BY host LIMIT 5"

theorem lower_template_values :
    lower valuesDsl = .ok valuesSql ∧
      ∃ (query : Query) (contributions : List (List Condition)), valuesSql = query.text ∧
        List.Forall₂ Contributes (splitChar '|' valuesDsl) contributions ∧
        query.conditions = contributions.flatten ∧
        Quoted.literals '\'' .code valuesSql.toList = some (query.contents.map String.toList) := by
  have lowered : lower valuesDsl = .ok valuesSql := by decide +kernel
  exact ⟨lowered, lower_template lowered⟩

end Api
end Sigil
