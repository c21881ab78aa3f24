import Mathlib.Data.List.AList

namespace Sigil
namespace Edr

/-!
# The fleet registry

The registry keeps a durable record of every enrolled agent and a live entry of every
connected one.  A live entry holds the sending end of the command channel of the session
that made it; senders are told apart by the number of that session.

The store of the records is a map.  Where it fails, `enroll` and `validateSession` return an
error to the caller and nothing has changed; `disconnect` drops the error, so that a session can
be torn down without its last state being recorded.
-/

/-- Durable identity and last-known state of an enrolled agent. -/
structure AgentRecord where
  agentId : String
  hostname : String
  os : String
  osVersion : String
  agentVersion : String
  fingerprint : String
  sessionToken : String
  enrolledTs : Int
  lastSeen : Int
  isolated : Bool
  deriving DecidableEq, Repr

/-- What an agent states about itself when it enrolls. -/
structure EnrollRequest where
  hostname : String
  os : String
  osVersion : String
  agentVersion : String
  fingerprint : String
  deriving DecidableEq, Repr

/-- Live session state of a connected agent. -/
structure LiveSession where
  commandTx : Nat
  lastSeen : Int
  isolated : Bool
  deriving DecidableEq, Repr

/-- A read view of an agent: the durable record and the live status. -/
structure AgentView where
  agentId : String
  hostname : String
  os : String
  osVersion : String
  agentVersion : String
  enrolledTs : Int
  lastSeen : Int
  connected : Bool
  isolated : Bool
  deriving DecidableEq, Repr

structure AgentRegistry where
  store : AList fun _ : String => AgentRecord
  live : AList fun _ : String => LiveSession

namespace AgentRegistry

def record (r : AgentRegistry) (agentId : String) : Option AgentRecord :=
  r.store.lookup agentId

def persist (r : AgentRegistry) (rec : AgentRecord) : AgentRegistry :=
  { r with store := r.store.insert rec.agentId rec }

/-- Persist a freshly enrolled agent; `agentId` is the identifier drawn for it. -/
def enroll (r : AgentRegistry) (agentId : String) (req : EnrollRequest) (sessionToken : String)
    (now : Int) : AgentRegistry :=
  r.persist {
    agentId := agentId
    hostname := req.hostname
    os := req.os
    osVersion := req.osVersion
    agentVersion := req.agentVersion
    fingerprint := req.fingerprint
    sessionToken := sessionToken
    enrolledTs := now
    lastSeen := now
    isolated := false }

/-- Validate a `Hello` credential against the stored record. -/
def validateSession (r : AgentRegistry) (agentId token : String) : Bool :=
  (r.record agentId).any fun rec => token ≠ "" && rec.sessionToken = token

/-- Register a live control session; `commandTx` is the sender of its new channel. -/
def connect (r : AgentRegistry) (agentId : String) (commandTx : Nat) (now : Int) :
    AgentRegistry :=
  let isolated := ((r.live.lookup agentId).map LiveSession.isolated).getD false
  { r with
    live := r.live.insert agentId
      { commandTx := commandTx, lastSeen := now, isolated := isolated } }

/-- Tear down a live session, persisting what it knew on the way out, unless the store fails. -/
def disconnect (r : AgentRegistry) (agentId : String) (stored : Bool) : AgentRegistry :=
  match r.live.lookup agentId with
  | none => r
  | some session =>
      let r := { r with live := r.live.erase agentId }
      match r.record agentId with
      | none => r
      | some rec =>
          if stored then
            r.persist { rec with lastSeen := session.lastSeen, isolated := session.isolated }
          else r

/-- Update live status from a heartbeat. -/
def heartbeat (r : AgentRegistry) (agentId : String) (isolated : Bool) (now : Int) :
    AgentRegistry :=
  match r.live.lookup agentId with
  | none => r
  | some session =>
      { r with
        live := r.live.insert agentId { session with lastSeen := now, isolated := isolated } }

/-- The sender of a connected agent's command channel, if any. -/
def commandSender (r : AgentRegistry) (agentId : String) : Option Nat :=
  (r.live.lookup agentId).map LiveSession.commandTx

def isConnected (r : AgentRegistry) (agentId : String) : Bool :=
  (r.live.lookup agentId).isSome

def view (r : AgentRegistry) (rec : AgentRecord) : AgentView :=
  let live := r.live.lookup rec.agentId
  { agentId := rec.agentId
    hostname := rec.hostname
    os := rec.os
    osVersion := rec.osVersion
    agentVersion := rec.agentVersion
    enrolledTs := rec.enrolledTs
    lastSeen := (live.map LiveSession.lastSeen).getD rec.lastSeen
    connected := live.isSome
    isolated := (live.map LiveSession.isolated).getD rec.isolated }

/-- One agent view by identifier. -/
def get (r : AgentRegistry) (agentId : String) : Option AgentView :=
  (r.record agentId).map r.view

/-! ## The live senders -/

variable (r : AgentRegistry)

@[simp] theorem commandSender_enroll (agentId : String) (req : EnrollRequest)
    (sessionToken : String) (now : Int) (agent : String) :
    (r.enroll agentId req sessionToken now).commandSender agent = r.commandSender agent :=
  rfl

theorem commandSender_connect (agentId : String) (commandTx : Nat) (now : Int) (agent : String) :
    (r.connect agentId commandTx now).commandSender agent =
      if agent = agentId then some commandTx else r.commandSender agent := by
  by_cases same : agent = agentId
  · subst same
    simp only [connect, commandSender, AList.lookup_insert, Option.map_some, if_true]
  · simp only [connect, commandSender, AList.lookup_insert_ne same, if_neg same]

theorem commandSender_disconnect (agentId : String) (stored : Bool) (agent : String) :
    (r.disconnect agentId stored).commandSender agent =
      if agent = agentId then none else r.commandSender agent := by
  have erased : ((r.live.erase agentId).lookup agent).map LiveSession.commandTx =
      if agent = agentId then none else r.commandSender agent := by
    by_cases same : agent = agentId
    · subst same
      simp only [AList.lookup_erase, Option.map_none, if_true]
    · simp only [AList.lookup_erase_ne same, commandSender, if_neg same]
  cases found : r.live.lookup agentId with
  | none =>
      simp only [disconnect, found]
      by_cases same : agent = agentId
      · subst same
        simp only [commandSender, found, Option.map_none, if_true]
      · simp only [if_neg same]
  | some session =>
      rw [← erased]
      simp only [disconnect, found]
      split
      · rfl
      · cases stored <;> rfl

@[simp] theorem commandSender_heartbeat (agentId : String) (isolated : Bool) (now : Int)
    (agent : String) :
    (r.heartbeat agentId isolated now).commandSender agent = r.commandSender agent := by
  rw [heartbeat]
  split
  · rfl
  · next session found =>
      by_cases same : agent = agentId
      · subst same
        simp only [commandSender, AList.lookup_insert, found, Option.map_some]
      · simp only [commandSender, AList.lookup_insert_ne same]

end AgentRegistry

end Edr
end Sigil
