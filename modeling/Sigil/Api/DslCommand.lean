import Sigil.Api.Dsl
import Sigil.Library.Pointwise

namespace Sigil
namespace Api

/-!
# The commands of the pipe DSL

A stage is a command and the text behind it.  What the command does with this text is said here
once, and everything about a stage is a case analysis over its command.
-/

open Sigil.Core Library

/-- The command of a stage. -/
def command (raw : String) : String :=
  toAsciiLowercase (splitFirst (trim raw)).1

/-- What follows the command. -/
def argument (raw : String) : String :=
  (splitFirst (trim raw)).2

inductive Command where
  | search
  | where_
  | stats
  | fields
  | sort
  | limit
  deriving DecidableEq, Repr

/-- The command of a name in lower case. -/
def Command.read : String → Option Command
  | "search" => some .search
  | "where" => some .where_
  | "stats" => some .stats
  | "fields" => some .fields
  | "sort" => some .sort
  | "head" | "limit" => some .limit
  | _ => none

section Stage

variable {b : Builder} {raw : String}

theorem command_blank (blank : trim raw = "") : command raw = "" := by
  rw [command, blank]
  rfl

theorem lowerStage_blank (blank : trim raw = "") : lowerStage b raw = .ok b :=
  if_pos blank

/-- What a command does with the text behind it. -/
def Command.lower (b : Builder) (raw : String) : Command → Except DslError Builder
  | .search =>
      if trim (argument raw) = "" then .ok b
      else
        .ok { b with
          wheres := b.wheres ++ ["message ILIKE '%" ++ escape (trim (argument raw)) ++ "%'"] }
  | .where_ => do
      let condition ← parseWhere (argument raw)
      return { b with wheres := b.wheres ++ [condition] }
  | .stats => parseStats (argument raw) b
  | .fields => do
      let fields ← idents (argument raw)
      return { b with select := some fields }
  | .sort => do
      let words := splitWhitespace (argument raw)
      let col ← ident (words.head?.getD "")
      return { b with orderBy := some (col ++ sortDirection words[1]?) }
  | .limit =>
      (parseUsize (trim (argument raw))).elim
        (.error (.parse ("`" ++ (splitFirst (trim raw)).1 ++ "` expects a number, got `" ++
          trim (argument raw) ++ "`")))
        fun n => .ok { b with limit := some n }

def Command.names : Command → List String
  | .search => ["search"]
  | .where_ => ["where"]
  | .stats => ["stats"]
  | .fields => ["fields"]
  | .sort => ["sort"]
  | .limit => ["head", "limit"]

theorem Command.mem_names {name : String} {cmd : Command} (read : Command.read name = some cmd) :
    name ∈ cmd.names := by
  rw [Command.read.eq_def] at read
  split at read
  on_goal 8 => cases read
  all_goals
    cases read
    decide

theorem ne_blank_of_read {cmd : Command} (read : Command.read (command raw) = some cmd) :
    trim raw ≠ "" := by
  intro blank
  rw [command_blank blank] at read
  cases read

/-- A stage does what its command does. -/
theorem lowerStage_of_read {cmd : Command} (read : Command.read (command raw) = some cmd) :
    lowerStage b raw = cmd.lower b raw := by
  have named := Command.mem_names read
  rw [command] at named
  rw [lowerStage]
  dsimp only
  rw [if_neg (ne_blank_of_read read)]
  cases cmd with
  | search =>
      rw [List.mem_singleton.mp named]
      rfl
  | where_ =>
      rw [List.mem_singleton.mp named]
      rfl
  | stats =>
      rw [List.mem_singleton.mp named]
      rfl
  | fields =>
      rw [List.mem_singleton.mp named]
      rfl
  | sort =>
      rw [List.mem_singleton.mp named]
      rfl
  | limit =>
      rw [Command.lower, argument]
      rcases List.mem_pair.mp named with isHead | isLimit
      · rw [isHead]
        cases parseUsize (trim (splitFirst (trim raw)).2) with
        | none => rfl
        | some n => rfl
      · rw [isLimit]
        cases parseUsize (trim (splitFirst (trim raw)).2) with
        | none => rfl
        | some n => rfl

/-- Other commands are rejected. -/
theorem lowerStage_unknown (some_ : trim raw ≠ "") (unknown : Command.read (command raw) = none) :
    ¬ ∃ b', lowerStage b raw = .ok b' := by
  rintro ⟨b', accepted⟩
  have refuted : ∀ name cmd, Command.read name = some cmd → command raw ≠ name := by
    rintro _ cmd read rfl
    rw [unknown] at read
    cases read
  rw [lowerStage] at accepted
  dsimp only at accepted
  rw [if_neg some_] at accepted
  split at accepted
  · next same => exact refuted "search" .search rfl same
  · next same => exact refuted "where" .where_ rfl same
  · next same => exact refuted "stats" .stats rfl same
  · next same => exact refuted "fields" .fields rfl same
  · next same => exact refuted "sort" .sort rfl same
  · next same => exact refuted "head" .limit rfl same
  · next same => exact refuted "limit" .limit rfl same
  · cases accepted

end Stage

end Api
end Sigil
