import Sigil.Edr.Queue

namespace Sigil
namespace Edr

/-!
# Enrollment

Tokens come from the configuration or from an administrator.  Whoever presents one is enrolled as a
new agent and gets a credential, with which the agent opens its sessions.
-/

open Sigil.Core Storage

/-- What is written is read back. -/
structure Decoders.Reads (decode : Decoders) : Prop where
  agent : ∀ rec : AgentRecord, decode.agent rec.toJson = some rec
  command : ∀ rec : CommandRecord, decode.command rec.toJson = some rec

namespace TokenStore

/-- The record of a token from the configuration. -/
def configured (token : String) (now : Int) : TokenRecord where
  token := token
  label := "config"
  createdTs := now
  createdBy := some "config"

/-- Insert the tokens of the configuration that are absent. -/
def seed (store : Store) (now : Int) : List String → Store × Except StoreError Unit
  | [] => (store, .ok ())
  | t :: tokens =>
      if t.isEmpty then seed store now tokens
      else
        match store.getSaved tokenKind t with
        | .error error => (store, .error error)
        | .ok (some _) => seed store now tokens
        | .ok none => seed (store.putSaved (configured t now).object) now tokens

/-- Issue a new token; its value is drawn. -/
def issue (store : Store) (label : String) (createdBy : Option String)
    (drawn : String) (now : Int) :
    Store :=
  store.putSaved
    (TokenRecord.object
      { token := drawn, label := label, createdTs := now, createdBy := createdBy })

end TokenStore

/-- Open the endpoint state over a store; without success there is none. -/
def EdrState.new (store : Store) (enrollmentTokens : List String) (now : Int) : Store × Bool :=
  match TokenStore.seed store now enrollmentTokens with
  | (store, .ok ()) => (store, true)
  | (store, .error _) => (store, false)

/-- The refusals of an enrollment. -/
inductive EnrollError where
  | unauthenticated (message : String)
  | internal (error : StoreError)

/-- The record of a new agent; its identifier and its credential are drawn. -/
def AgentRecord.fresh (agentId : String) (req : EnrollRequest) (sessionToken : String) (now : Int) :
    AgentRecord where
  agentId := agentId
  hostname := req.hostname
  os := req.os
  osVersion := req.osVersion
  agentVersion := req.agentVersion
  fingerprint := req.fingerprint
  sessionToken := sessionToken
  enrolledTs := now
  lastSeen := now
  isolated := false

/-- Enroll an agent with a token: the record to persist. -/
def enroll (store : Store) (enrollmentToken : String) (req : EnrollRequest)
    (agentId sessionToken : String) (now : Int) : Except EnrollError AgentRecord :=
  match TokenStore.valid store enrollmentToken with
  | .ok true => .ok (AgentRecord.fresh agentId req sessionToken now)
  | .ok false => .error (.unauthenticated "invalid enrollment token")
  | .error error => .error (.internal error)

/-- The record to persist on the way out of a session, with what the session knew. -/
def lastRecord (decode : Decoders) (store : Store) (agentId : String) (session : LiveSession) :
    Option AgentRecord :=
  match storedRecord decode store agentId with
  | .ok (some rec) => some { rec with lastSeen := session.lastSeen, isolated := session.isolated }
  | _ => none

/-! ## Rows of the three kinds -/

/-- The kind of a row, when it has no separator. -/
theorem kind_of_savedKey {kind : String} (plain : '\x1f' ∉ kind.toList) (id : String) :
    (savedKey kind id).toList.takeWhile (fun c => c ≠ '\x1f') = kind.toList := by
  have sepList : sep.toList = ['\x1f'] := by decide
  have before : ∀ c, c ∈ kind.toList → decide (c ≠ '\x1f') = true := by
    intro c member
    rw [decide_eq_true_eq]
    rintro rfl
    exact plain member
  rw [savedKey, String.toList_append, String.toList_append, sepList, List.append_assoc,
    List.takeWhile_append_of_pos before, List.singleton_append,
    List.takeWhile_cons_of_neg (by decide), List.append_nil]

/-- Rows of kinds without separators lie apart. -/
theorem savedKey_ne {kind kind' : String} (plain : '\x1f' ∉ kind.toList)
    (plain' : '\x1f' ∉ kind'.toList) (different : kind ≠ kind') (id id' : String) :
    savedKey kind id ≠ savedKey kind' id' := by
  intro same
  have kinds := kind_of_savedKey plain id
  rw [same, kind_of_savedKey plain' id', String.toList_inj] at kinds
  exact different kinds.symm

theorem tokenKind_plain : '\x1f' ∉ tokenKind.toList := by
  decide

theorem agentKind_plain : '\x1f' ∉ agentKind.toList := by
  decide

theorem commandKind_plain : '\x1f' ∉ commandKind.toList := by
  decide

end Edr
end Sigil
