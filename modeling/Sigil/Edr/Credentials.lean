import Sigil.Edr.Registry
import Sigil.Storage.Saved

namespace Sigil
namespace Edr

/-!
# Credentials in the saved objects

Enrollment tokens, agents and response commands are saved objects of three kinds.  A token
is valid when its row holds an object; an agent's record and a command's record are read
from the body of the object in their rows.
-/

open Sigil.Core Storage

def tokenKind : String := "edr-token"

def agentKind : String := "edr-agent"

def commandKind : String := "edr-command"

/-- A pre-shared enrollment token. -/
structure TokenRecord where
  token : String
  label : String
  createdTs : Int
  createdBy : Option String
  deriving DecidableEq, Repr

/-- The body of a token. -/
def TokenRecord.toJson (rec : TokenRecord) : Json :=
  .object
    [("created_by", rec.createdBy.elim .null .string),
      ("created_ts", .number (toString rec.createdTs)), ("label", .string rec.label),
      ("token", .string rec.token)]

/-- The saved object of a token; its value is the identifier. -/
def TokenRecord.object (rec : TokenRecord) : SavedObject where
  kind := tokenKind
  id := rec.token
  name := rec.label
  owner := rec.createdBy
  updatedTs := rec.createdTs
  body := rec.toJson

/-- The body of an agent. -/
def AgentRecord.toJson (rec : AgentRecord) : Json :=
  .object
    [("agent_id", .string rec.agentId), ("agent_version", .string rec.agentVersion),
      ("enrolled_ts", .number (toString rec.enrolledTs)), ("fingerprint", .string rec.fingerprint),
      ("hostname", .string rec.hostname), ("isolated", .bool rec.isolated),
      ("last_seen", .number (toString rec.lastSeen)), ("os", .string rec.os),
      ("os_version", .string rec.osVersion), ("session_token", .string rec.sessionToken)]

/-- The saved object of an agent. -/
def AgentRecord.object (rec : AgentRecord) (now : Int) : SavedObject where
  kind := agentKind
  id := rec.agentId
  name := rec.hostname
  owner := none
  updatedTs := now
  body := rec.toJson

/-- The parameters of a response command. -/
structure CommandParams where
  pid : Option UInt32
  hashSha256 : Option String
  path : Option String
  maxBytes : Option UInt64
  allowlistCidrs : Option (List String)
  deriving DecidableEq, Repr

/-- A response command with its result. -/
structure CommandRecord where
  commandId : String
  agentId : String
  commandType : String
  params : CommandParams
  status : String
  issuedBy : String
  issuedTs : Int
  resultOk : Option Bool
  resultMessage : Option String
  resultBytes : Option Nat
  completedTs : Option Int
  deriving DecidableEq, Repr

/-- How the bodies of saved objects are read. -/
structure Decoders where
  agent : Json → Option AgentRecord
  command : Json → Option CommandRecord

/-- A known enrollment token that is not empty. -/
def TokenStore.valid (store : Store) (token : String) : Except StoreError Bool :=
  if token.isEmpty then .ok false
  else (store.getSaved tokenKind token).map Option.isSome

section Records

variable (decode : Decoders)

/-- The durable record of an agent. -/
def storedRecord (store : Store) (agentId : String) : Except StoreError (Option AgentRecord) :=
  (store.getSaved agentKind agentId).map fun obj => obj.bind fun obj => decode.agent obj.body

/-- Validate a credential against the stored record. -/
def validateStored (store : Store) (agentId token : String) : Except StoreError Bool :=
  (storedRecord decode store agentId).map fun rec =>
    rec.any fun rec => token ≠ "" && rec.sessionToken = token

/-- One command record. -/
def CommandQueue.get (store : Store) (commandId : String) :
    Except StoreError (Option CommandRecord) :=
  (store.getSaved commandKind commandId).map fun obj => obj.bind fun obj => decode.command obj.body

/-- The registry of the agents whose records are read from a store. -/
def Represents (store : Store) (registry : AgentRegistry) : Prop :=
  ∀ agentId, storedRecord decode store agentId = .ok (registry.record agentId)

theorem validateStored_of_represents {decode : Decoders} {store : Store} {registry : AgentRegistry}
    (represents : Represents decode store registry) (agentId token : String) :
    validateStored decode store agentId token = .ok (registry.validateSession agentId token) := by
  rw [validateStored, represents]
  rfl

/-- Persisting a record in the store is persisting it in the registry. -/
theorem represents_persist {decode : Decoders} {store : Store} {registry : AgentRegistry}
    (represents : Represents decode store registry) {rec : AgentRecord} {now : Int}
    (reads : decode.agent rec.toJson = some rec) :
    Represents decode (store.putSaved (rec.object now)) (registry.persist rec) := by
  intro agentId
  by_cases same : agentId = rec.agentId
  · have written : (store.putSaved (rec.object now)).getSaved agentKind rec.agentId =
        .ok (some (rec.object now)) := store.getSaved_putSaved (rec.object now)
    rw [same, storedRecord, written, AgentRegistry.record, AgentRegistry.persist,
      AList.lookup_insert]
    exact congrArg Except.ok reads
  · have kept : (store.putSaved (rec.object now)).getSaved agentKind agentId =
        store.getSaved agentKind agentId :=
      store.getSaved_putSaved_ne (rec.object now) fun equal => same (savedKey_injective equal)
    rw [storedRecord, kept, AgentRegistry.record, AgentRegistry.persist,
      AList.lookup_insert_ne same]
    exact represents agentId

/-! ## What a row says -/

/-- What the row of a token says. -/
def tokenIn (row : Option (Option SavedObject)) : Bool :=
  row.join.isSome

/-- The credential in the row of an agent. -/
def credentialIn (row : Option (Option SavedObject)) : Option String :=
  ((row.join.bind fun obj => decode.agent obj.body).map AgentRecord.sessionToken).filter (· ≠ "")

/-- The record in the row of a command. -/
def commandIn (row : Option (Option SavedObject)) : Option CommandRecord :=
  row.join.bind fun obj => decode.command obj.body

theorem valid_iff (store : Store) (token : String) :
    TokenStore.valid store token = .ok true ↔
      token ≠ "" ∧ tokenIn (store.saved.lookup (savedKey tokenKind token)) = true := by
  rw [TokenStore.valid]
  by_cases empty : token = ""
  · rw [if_pos (String.isEmpty_iff.mpr empty)]
    exact iff_of_false (by rintro ⟨⟩) fun both => both.1 empty
  · rw [if_neg (fun isEmpty => empty (String.isEmpty_iff.mp isEmpty)), Store.getSaved]
    cases store.saved.lookup (savedKey tokenKind token) with
    | none => exact iff_of_false (by rintro ⟨⟩) (by rintro ⟨_, ⟨⟩⟩)
    | some row =>
        cases row with
        | none => exact iff_of_false (by rintro ⟨⟩) (by rintro ⟨_, ⟨⟩⟩)
        | some obj => exact iff_of_true rfl ⟨empty, rfl⟩

theorem validateStored_iff (store : Store) (agentId token : String) :
    validateStored decode store agentId token = .ok true ↔
      credentialIn decode (store.saved.lookup (savedKey agentKind agentId)) = some token := by
  have any_iff : ∀ rec : Option AgentRecord,
      Except.ok (rec.any fun rec => token ≠ "" && rec.sessionToken = token) =
        (Except.ok true : Except StoreError Bool) ↔
      (rec.map AgentRecord.sessionToken).filter (· ≠ "") = some token := by
    intro rec
    rw [Except.ok.injEq, Option.filter_eq_some_iff]
    cases rec with
    | none => exact iff_of_false (by rintro ⟨⟩) (by rintro ⟨⟨⟩, _⟩)
    | some rec =>
        rw [Option.any_some, Bool.and_eq_true, decide_eq_true_eq, decide_eq_true_eq,
          Option.map_some, Option.some.injEq, and_comm]
  rw [validateStored, storedRecord, Store.getSaved]
  cases store.saved.lookup (savedKey agentKind agentId) with
  | none => exact iff_of_false (by rintro ⟨⟩) (by rintro ⟨⟩)
  | some row =>
      cases row with
      | none => exact iff_of_false (by rintro ⟨⟩) (by rintro ⟨⟩)
      | some obj => exact any_iff (decode.agent obj.body)

theorem command_iff (store : Store) (commandId : String) (record : CommandRecord) :
    CommandQueue.get decode store commandId = .ok (some record) ↔
      commandIn decode (store.saved.lookup (savedKey commandKind commandId)) = some record := by
  rw [CommandQueue.get, Store.getSaved]
  cases store.saved.lookup (savedKey commandKind commandId) with
  | none => exact iff_of_false (by rintro ⟨⟩) (by rintro ⟨⟩)
  | some row =>
      cases row with
      | none => exact iff_of_false (by rintro ⟨⟩) (by rintro ⟨⟩)
      | some obj =>
          exact ⟨fun equal => Except.ok.inj equal, fun equal => congrArg Except.ok equal⟩

end Records

end Edr
end Sigil
