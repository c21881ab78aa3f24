import Sigil.Api.Auth
import Sigil.Edr.Credentials
import Sigil.Library.Transition

namespace Sigil
namespace Api

/-!
# The saved-object endpoints

The kind in the path is taken as it is, so the rows of enrollment tokens, agents and
response commands are within reach of everyone who may write saved objects.  A sequence of
requests leaves them as they are exactly as long as each write is harmless to the row that
it addresses.
-/

open Sigil.Core Storage Edr Library

structure SavedBody where
  name : Option String
  body : Json

/-- The answers of the endpoints. -/
inductive Response where
  | forbidden (role : Role)
  | persistenceDisabled
  | list (kind : String) (objects : List SavedObject)
  | created (obj : SavedObject)
  | replaced (obj : SavedObject)
  | noContent
  | notFound
  | failed (error : StoreError)

def savedList (store : Option Store) (_user : AuthUser) (kind : String) : Response :=
  match store with
  | none => .list kind []
  | some store =>
      match store.listSaved kind with
      | .ok objects => .list kind objects
      | .error error => .failed error

/-- Save an object under an identifier that is drawn for it. -/
def savedCreate (store : Option Store) (user : AuthUser) (kind : String) (body : SavedBody)
    (drawn : String) (now : Int) : Option Store × Response :=
  if user.has .analyst then
    match store with
    | none => (none, .persistenceDisabled)
    | some store =>
        let obj : SavedObject :=
          { kind := kind
            id := drawn
            name := body.name.getD ""
            owner := some user.username
            updatedTs := now
            body := body.body }
        (some (store.putSaved obj), .created obj)
  else (store, .forbidden .analyst)

/-- Save an object under the identifier in the path. -/
def savedUpdate (store : Option Store) (user : AuthUser) (kind id : String) (body : SavedBody)
    (now : Int) : Option Store × Response :=
  if user.has .analyst then
    match store with
    | none => (none, .persistenceDisabled)
    | some store =>
        let obj : SavedObject :=
          { kind := kind
            id := id
            name := body.name.getD ""
            owner := some user.username
            updatedTs := now
            body := body.body }
        (some (store.putSaved obj), .replaced obj)
  else (store, .forbidden .analyst)

def savedDelete (store : Option Store) (user : AuthUser) (kind id : String) :
    Option Store × Response :=
  if user.has .analyst then
    match store with
    | none => (none, .persistenceDisabled)
    | some store =>
        ((some (store.deleteSaved kind id).1),
          if (store.deleteSaved kind id).2 then .noContent else .notFound)
  else (store, .forbidden .analyst)

/-- What a request asks for, with the identifier and the time that the server draws. -/
inductive SavedAction where
  | list (kind : String)
  | create (kind : String) (body : SavedBody) (drawn : String) (now : Int)
  | update (kind id : String) (body : SavedBody) (now : Int)
  | delete (kind id : String)

structure SavedRequest where
  user : AuthUser
  action : SavedAction

namespace SavedRequest

def handle (store : Option Store) (request : SavedRequest) : Option Store × Response :=
  match request.action with
  | .list kind => (store, savedList store request.user kind)
  | .create kind body drawn now => savedCreate store request.user kind body drawn now
  | .update kind id body now => savedUpdate store request.user kind id body now
  | .delete kind id => savedDelete store request.user kind id

/-- What a request makes of the store. -/
def next (store : Store) (request : SavedRequest) : Option Store :=
  (request.handle (some store)).1

end SavedRequest

/-! ## The row that a request writes -/

/-- The row that an action writes: its key, and the object unless it is deleted. -/
def SavedAction.write (username : String) : SavedAction → Option (String × Option SavedObject)
  | .list _ => none
  | .create kind body drawn now =>
      some (savedKey kind drawn, some
        { kind := kind
          id := drawn
          name := body.name.getD ""
          owner := some username
          updatedTs := now
          body := body.body })
  | .update kind id body now =>
      some (savedKey kind id, some
        { kind := kind
          id := id
          name := body.name.getD ""
          owner := some username
          updatedTs := now
          body := body.body })
  | .delete kind id => some (savedKey kind id, none)

/-- The row that a request writes, if its user may write at all. -/
def SavedRequest.write (request : SavedRequest) : Option (String × Option SavedObject) :=
  if request.user.has .analyst then request.action.write request.user.username else none

theorem handle_eq (store : Store) (request : SavedRequest) :
    (request.handle (some store)).1 =
      some (request.write.elim store fun write => store.setRow write.1 write.2) := by
  rcases request with ⟨user, action⟩
  by_cases may : user.has .analyst = true
  · rw [SavedRequest.write, if_pos may]
    cases action with
    | list kind => rfl
    | create kind body drawn now => exact congrArg Prod.fst (if_pos may)
    | update kind id body now => exact congrArg Prod.fst (if_pos may)
    | delete kind id => exact congrArg Prod.fst (if_pos may)
  · rw [SavedRequest.write, if_neg may]
    cases action with
    | list kind => rfl
    | create kind body drawn now => exact congrArg Prod.fst (if_neg may)
    | update kind id body now => exact congrArg Prod.fst (if_neg may)
    | delete kind id => exact congrArg Prod.fst (if_neg may)

/-! ## What the sensors and their administrators rely on -/

/-- The same tokens and credentials are accepted, and the same commands are recorded. -/
structure SameCredentials (decode : Decoders) (before after : Store) : Prop where
  token : ∀ token, TokenStore.valid after token = .ok true ↔
    TokenStore.valid before token = .ok true
  session : ∀ agentId token, validateStored decode after agentId token = .ok true ↔
    validateStored decode before agentId token = .ok true
  command : ∀ commandId record, CommandQueue.get decode after commandId = .ok (some record) ↔
    CommandQueue.get decode before commandId = .ok (some record)

/-- What a write leaves as it is: whether a token is known, the credential of an agent, the
record of a command. -/
structure HarmlessWrite (decode : Decoders) (store : Store) (key : String)
    (row : Option SavedObject) : Prop where
  token : ∀ token, key = savedKey tokenKind token → token ≠ "" →
    tokenIn (row.map some) = tokenIn (store.saved.lookup key)
  session : ∀ agentId, key = savedKey agentKind agentId →
    credentialIn decode (row.map some) = credentialIn decode (store.saved.lookup key)
  command : ∀ commandId, key = savedKey commandKind commandId →
    commandIn decode (row.map some) = commandIn decode (store.saved.lookup key)

/-- A request writes nothing, or nothing that matters. -/
def SavedRequest.Harmless (decode : Decoders) (store : Store) (request : SavedRequest) : Prop :=
  ∀ key row, request.write = some (key, row) → HarmlessWrite decode store key row

section Credentials

variable {decode : Decoders}

theorem sameCredentials_equivalence : Equivalence (SameCredentials decode) where
  refl := fun _ => ⟨fun _ => Iff.rfl, fun _ _ => Iff.rfl, fun _ _ => Iff.rfl⟩
  symm := fun same =>
    { token := fun token => (same.token token).symm
      session := fun agentId token => (same.session agentId token).symm
      command := fun commandId record => (same.command commandId record).symm }
  trans := fun left right =>
    { token := fun token => (right.token token).trans (left.token token)
      session := fun agentId token =>
        (right.session agentId token).trans (left.session agentId token)
      command := fun commandId record =>
        (right.command commandId record).trans (left.command commandId record) }

/-- A write is harmless exactly when it leaves everything as it was. -/
theorem sameCredentials_setRow_iff (store : Store) (key : String) (row : Option SavedObject) :
    SameCredentials decode store (store.setRow key row) ↔ HarmlessWrite decode store key row := by
  constructor
  · intro same
    refine ⟨fun token equal nonempty => ?_, fun agentId equal => ?_, fun commandId equal => ?_⟩
    · have both := same.token token
      rw [valid_iff, valid_iff, ← equal, Store.lookup_setRow] at both
      exact Bool.eq_iff_iff.mpr (by
        rw [and_congr_right_iff] at both
        exact both nonempty)
    · apply Option.ext
      intro token
      have both := same.session agentId token
      rw [validateStored_iff, validateStored_iff, ← equal, Store.lookup_setRow] at both
      exact both
    · apply Option.ext
      intro record
      have both := same.command commandId record
      rw [command_iff, command_iff, ← equal, Store.lookup_setRow] at both
      exact both
  · intro harmless
    refine ⟨fun token => ?_, fun agentId token => ?_, fun commandId record => ?_⟩
    · rw [valid_iff, valid_iff]
      apply and_congr_right
      intro nonempty
      by_cases equal : savedKey tokenKind token = key
      · rw [equal, Store.lookup_setRow, harmless.token token equal.symm nonempty]
      · rw [Store.lookup_setRow_ne store row equal]
    · rw [validateStored_iff, validateStored_iff]
      by_cases equal : savedKey agentKind agentId = key
      · rw [equal, Store.lookup_setRow, harmless.session agentId equal.symm]
      · rw [Store.lookup_setRow_ne store row equal]
    · rw [command_iff, command_iff]
      by_cases equal : savedKey commandKind commandId = key
      · rw [equal, Store.lookup_setRow, harmless.command commandId equal.symm]
      · rw [Store.lookup_setRow_ne store row equal]

theorem sameCredentials_next_iff {store after : Store} {request : SavedRequest}
    (handled : SavedRequest.next store request = some after) :
    SameCredentials decode store after ↔ request.Harmless decode store := by
  rw [SavedRequest.next, handle_eq] at handled
  cases equal : request.write with
  | none =>
      rw [equal] at handled
      cases handled
      refine iff_of_true (sameCredentials_equivalence.refl store) fun key row write => ?_
      rw [equal] at write
      cases write
  | some write =>
      rcases write with ⟨key, row⟩
      rw [equal] at handled
      cases handled
      rw [Option.elim_some, sameCredentials_setRow_iff]
      constructor
      · intro harmless other otherRow write
        rw [equal] at write
        cases write
        exact harmless
      · exact fun harmless => harmless key row equal

/-- Requests of any users leave every token, credential and command as it is throughout if
and only if each of them is harmless to the store that it meets. -/
theorem sameCredentials_iff_harmless (decode : Decoders) (store : Store)
    (requests : List SavedRequest) :
    (∀ earlier, earlier <+: requests → ∃ after,
      TransitionSystem.follow SavedRequest.next store earlier = some after ∧
        SameCredentials decode store after) ↔
      TransitionSystem.Along SavedRequest.next
        (fun before request _ => request.Harmless decode before) store requests := by
  rw [← TransitionSystem.along_iff_equivalent sameCredentials_equivalence]
  apply TransitionSystem.along_congr _ _ fun _ => True
  · exact fun before request after _ handled => sameCredentials_next_iff handled
  · exact fun _ _ _ _ _ _ => trivial
  · trivial

/-- An analyst saves an object under the kind of enrollment tokens. -/
def forgeToken : SavedRequest where
  user := { username := "ana", roles := [.analyst] }
  action := .update tokenKind "forged" { name := none, body := .null } 0

theorem not_sameCredentials :
    ¬ ∃ decode, ∀ store requests,
      (∀ request, request ∈ requests → request.user.has .admin = false) →
        ∀ after, TransitionSystem.follow SavedRequest.next store requests = some after →
          SameCredentials decode store after := by
  rintro ⟨decode, always⟩
  have same := always { saved := ∅ } [forgeToken]
    (fun request member => by rw [List.mem_singleton.mp member]; rfl) _ rfl
  have accepted := (same.token "forged").mp ((valid_iff _ _).mpr ⟨by decide, by decide⟩)
  rw [valid_iff] at accepted
  exact absurd accepted.2 (by decide)

end Credentials

end Api
end Sigil
