import Sigil.Edr.Credentials
import Sigil.Core.Text

namespace Sigil
namespace Edr

/-!
# Response commands and their audit records

Every command has a record in the store, which says how far it has come.  Commands travel
to the agent over the channel of its session, and the agent answers with a result that
names the command.
-/

open Sigil.Core Storage

inductive CommandType where
  | unspecified
  | killProcess
  | quarantineFile
  | isolateHost
  | unisolateHost
  | fetchFile
  deriving DecidableEq, Repr

structure KillProcess where
  pid : UInt32
  hashSha256 : String
  deriving DecidableEq, Repr

structure QuarantineFile where
  path : String
  hashSha256 : String
  deriving DecidableEq, Repr

structure Isolate where
  allowlistCidrs : List String
  deriving DecidableEq, Repr

structure FetchFile where
  path : String
  maxBytes : UInt64
  deriving DecidableEq, Repr

/-- A command as it goes down the stream. -/
structure Command where
  commandId : String
  type : CommandType
  kill : Option KillProcess := none
  quarantine : Option QuarantineFile := none
  isolate : Option Isolate := none
  fetch : Option FetchFile := none
  deriving DecidableEq, Repr

/-- What an agent reports on a command. -/
structure CommandResult where
  commandId : String
  ok : Bool
  message : String
  payload : List UInt8
  deriving DecidableEq, Repr

inductive QueueError where
  | config (message : String)
  deriving DecidableEq, Repr

def parseCommandType (s : String) : Except QueueError CommandType :=
  match toAsciiLowercase s with
  | "kill_process" | "kill" => .ok .killProcess
  | "quarantine_file" | "quarantine" => .ok .quarantineFile
  | "isolate_host" | "isolate" => .ok .isolateHost
  | "unisolate_host" | "unisolate" => .ok .unisolateHost
  | "fetch_file" | "fetch" => .ok .fetchFile
  | other => .error (.config ("unknown command type `" ++ other ++ "`"))

/-- The wire command of a type and its parameters. -/
def buildCommand (commandId : String) (ctype : CommandType) (params : CommandParams) : Command :=
  let cmd : Command := { commandId := commandId, type := ctype }
  match ctype with
  | .killProcess =>
      { cmd with
        kill := some { pid := params.pid.getD 0, hashSha256 := params.hashSha256.getD "" } }
  | .quarantineFile =>
      { cmd with
        quarantine :=
          some { path := params.path.getD "", hashSha256 := params.hashSha256.getD "" } }
  | .isolateHost =>
      { cmd with isolate := some { allowlistCidrs := params.allowlistCidrs.getD [] } }
  | .unisolateHost => cmd
  | .fetchFile =>
      { cmd with
        fetch :=
          some { path := params.path.getD "", maxBytes := params.maxBytes.getD (1024 * 1024) } }
  | .unspecified => cmd

namespace CommandRecord

/-- The record of a command that has just been issued. -/
def issue (commandId agentId commandType : String) (params : CommandParams) (issuedBy : String)
    (now : Int) : CommandRecord where
  commandId := commandId
  agentId := agentId
  commandType := commandType
  params := params
  status := "pending"
  issuedBy := issuedBy
  issuedTs := now
  resultOk := none
  resultMessage := none
  resultBytes := none
  completedTs := none

/-- The record with a reported result. -/
def finish (rec : CommandRecord) (result : CommandResult) (now : Int) : CommandRecord :=
  { rec with
    status := if result.ok then "completed" else "failed"
    resultOk := some result.ok
    resultMessage := some result.message
    resultBytes := if result.payload.isEmpty then rec.resultBytes else some result.payload.length
    completedTs := some now }

/-- Completed or failed, with a result. -/
def Finished (rec : CommandRecord) : Prop :=
  (rec.status = "completed" ∨ rec.status = "failed") ∧ rec.resultOk.isSome = true

instance (rec : CommandRecord) : Decidable rec.Finished :=
  inferInstanceAs (Decidable (_ ∧ _))

theorem finished_finish (rec : CommandRecord) (result : CommandResult) (now : Int) :
    (rec.finish result now).Finished := by
  refine ⟨?_, rfl⟩
  cases ok : result.ok with
  | true => exact Or.inl (by simp only [finish, ok, if_true])
  | false => exact Or.inr (by simp only [finish, ok, Bool.false_eq_true, if_false])

theorem Finished.not_pending {rec : CommandRecord} (finished : rec.Finished) :
    rec.status ≠ "pending" := by
  rcases finished.1 with status | status
  · rw [status]
    decide
  · rw [status]
    decide

end CommandRecord

/-! ## The stored records -/

/-- The command records; each is stored under its own identifier. -/
structure CommandTable where
  rows : AList fun _ : String => CommandRecord
  filed : ∀ {commandId rec}, rows.lookup commandId = some rec → rec.commandId = commandId

namespace CommandTable

variable (table : CommandTable)

/-- One command record by its identifier. -/
def get (commandId : String) : Option CommandRecord :=
  table.rows.lookup commandId

theorem commandId_of_get {table : CommandTable} {commandId : String} {rec : CommandRecord}
    (found : table.get commandId = some rec) : rec.commandId = commandId :=
  table.filed found

def persist (rec : CommandRecord) : CommandTable where
  rows := table.rows.insert rec.commandId rec
  filed := by
    intro commandId other found
    by_cases same : commandId = rec.commandId
    · rw [same, AList.lookup_insert, Option.some.injEq] at found
      rw [same, found]
    · rw [AList.lookup_insert_ne same] at found
      exact table.filed found

theorem get_persist (rec : CommandRecord) (commandId : String) :
    (table.persist rec).get commandId =
      if commandId = rec.commandId then some rec else table.get commandId := by
  by_cases same : commandId = rec.commandId
  · rw [if_pos same, same]
    exact AList.lookup_insert _
  · rw [if_neg same]
    exact AList.lookup_insert_ne same

@[simp] theorem get_persist_self (rec : CommandRecord) :
    (table.persist rec).get rec.commandId = some rec := by
  rw [get_persist, if_pos rfl]

theorem get_persist_of_ne {rec : CommandRecord} {commandId : String}
    (different : commandId ≠ rec.commandId) :
    (table.persist rec).get commandId = table.get commandId := by
  rw [get_persist, if_neg different]

/-- Record a command result reported by an agent. -/
def recordResult (result : CommandResult) (now : Int) : CommandTable :=
  match table.get result.commandId with
  | some rec => table.persist (rec.finish result now)
  | none => table

end CommandTable

/-! ## Records as saved objects -/

/-- An entry that is left out when there is no value. -/
def entry {α : Type} (name : String) (toJson : α → Json) (value : Option α) :
    List (String × Json) :=
  value.toList.map fun value => (name, toJson value)

def CommandParams.toJson (params : CommandParams) : Json :=
  .object
    (entry "allowlist_cidrs" (fun cidrs => .array (cidrs.map .string)) params.allowlistCidrs ++
      entry "hash_sha256" .string params.hashSha256 ++
      entry "max_bytes" (fun n => .number (toString n)) params.maxBytes ++
      entry "path" .string params.path ++
      entry "pid" (fun n => .number (toString n)) params.pid)

/-- The body of a command. -/
def CommandRecord.toJson (rec : CommandRecord) : Json :=
  .object
    ([("agent_id", .string rec.agentId), ("command_id", .string rec.commandId),
        ("command_type", .string rec.commandType)] ++
      entry "completed_ts" (fun n => .number (toString n)) rec.completedTs ++
      [("issued_by", .string rec.issuedBy), ("issued_ts", .number (toString rec.issuedTs)),
        ("params", rec.params.toJson)] ++
      entry "result_bytes" (fun n => .number (toString n)) rec.resultBytes ++
      entry "result_message" .string rec.resultMessage ++
      entry "result_ok" .bool rec.resultOk ++
      [("status", .string rec.status)])

/-- The saved object of a command. -/
def CommandRecord.object (rec : CommandRecord) (now : Int) : SavedObject where
  kind := commandKind
  id := rec.commandId
  name := rec.commandType ++ " → " ++ rec.agentId
  owner := some rec.issuedBy
  updatedTs := now
  body := rec.toJson

section Stored

variable {decode : Decoders} {store : Store} {table : CommandTable}

/-- The table of the commands whose records are read from a store. -/
def RepresentsCommands (decode : Decoders) (store : Store) (table : CommandTable) : Prop :=
  ∀ commandId, CommandQueue.get decode store commandId = .ok (table.get commandId)

/-- Persisting a record in the store is persisting it in the table. -/
theorem representsCommands_persist (represents : RepresentsCommands decode store table)
    {rec : CommandRecord} (reads : decode.command rec.toJson = some rec) (now : Int) :
    RepresentsCommands decode (store.putSaved (rec.object now)) (table.persist rec) := by
  intro commandId
  by_cases same : commandId = rec.commandId
  · have written : (store.putSaved (rec.object now)).getSaved commandKind rec.commandId =
        .ok (some (rec.object now)) := store.getSaved_putSaved (rec.object now)
    rw [same, CommandQueue.get, written, CommandTable.get_persist_self]
    exact congrArg Except.ok reads
  · have kept : (store.putSaved (rec.object now)).getSaved commandKind commandId =
        store.getSaved commandKind commandId :=
      store.getSaved_putSaved_ne (rec.object now) fun equal => same (savedKey_injective equal)
    rw [CommandQueue.get, kept, CommandTable.get_persist_of_ne table same]
    exact represents commandId

/-- Record a command result in the store, read and write. -/
def CommandQueue.recordResult (decode : Decoders) (store : Store) (result : CommandResult)
    (now : Int) : Except StoreError Store := do
  match ← CommandQueue.get decode store result.commandId with
  | some rec => return store.putSaved ((rec.finish result now).object now)
  | none => return store

/-- Recording a result in the store is recording it in the table. -/
theorem representsCommands_recordResult (represents : RepresentsCommands decode store table)
    (reads : ∀ rec : CommandRecord, decode.command rec.toJson = some rec)
    (result : CommandResult) (now : Int) :
    ∃ after, CommandQueue.recordResult decode store result now = .ok after ∧
      RepresentsCommands decode after (table.recordResult result now) := by
  rw [CommandQueue.recordResult, represents, CommandTable.recordResult]
  cases table.get result.commandId with
  | none => exact ⟨store, rfl, represents⟩
  | some rec => exact ⟨_, rfl, representsCommands_persist represents (reads _) now⟩

end Stored

end Edr
end Sigil
