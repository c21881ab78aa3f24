import Sigil.Api.Authentication
import Sigil.Api.SavedObjects
import Sigil.Edr.Enrollment
import Sigil.Library.Provenance

namespace Sigil
namespace Api

/-!
# The platform

The routes that write saved objects, enrollment tokens and response commands share one store with
the gateway of the endpoints.  The store outlives the process; its configuration may be another one
at every start.  Calls and sessions run beside each other: what one of them has checked or read may
have changed before it writes.
-/

open Sigil.Core Storage Edr Library

/-- The answers of the routes for endpoints that record nothing, or a token. -/
inductive EdrResponse where
  | forbidden (role : Role)
  | disabled
  | notFound
  | badRequest (message : String)
  | failed (error : StoreError)
  | created (token label : String)

/-- Issue a new enrollment token. -/
def edrTokenCreate (edr : Bool) (store : Store) (user : AuthUser) (label : Option String)
    (drawn : String) (now : Int) : Store × EdrResponse :=
  if user.has .admin then
    if edr then
      let label := label.getD "api"
      (TokenStore.issue store label (some user.username) drawn now, .created drawn label)
    else (store, .disabled)
  else (store, .forbidden .admin)

/-- The record of a response action for an agent, with which the call goes on. -/
def edrAction (decode : Decoders) (edr : Bool) (store : Store)
    (user : AuthUser) (id action : String) (params : CommandParams) (drawn : String) (now : Int) :
    Except EdrResponse CommandRecord :=
  if user.has .analyst then
    if edr then
      match storedRecord decode store id with
      | .error error => .error (.failed error)
      | .ok none => .error .notFound
      | .ok (some _) =>
          match parseCommandType action with
          | .error (.config message) => .error (.badRequest message)
          | .ok _ => .ok (CommandRecord.issue drawn id action params user.username now)
    else .error .disabled
  else .error (.forbidden .analyst)

/-- What a call or a session does next, after it has checked or read. -/
inductive Job where
  | persistAgent (rec_ : AgentRecord)
  | connect (agentId : String)
  | enqueue (rec_ : CommandRecord)
  | send (rec_ : CommandRecord)
  | persistCommand (rec_ : CommandRecord)

/-- The object that a job writes. -/
def Job.object (now : Int) : Job → Option SavedObject
  | .persistAgent rec_ => some (rec_.object now)
  | .connect _ => none
  | .enqueue rec_ => some (rec_.object now)
  | .send _ => none
  | .persistCommand rec_ => some (rec_.object now)

/-- The record of a command that a job has in hand. -/
def Job.command : Job → Option CommandRecord
  | .enqueue rec_ => some rec_
  | .send rec_ => some rec_
  | .persistCommand rec_ => some rec_
  | _ => none

/-- The running process and its store, with the sessions by their agents. -/
structure Platform where
  auth : AuthState
  now : UInt64
  edr : Bool
  store : Store
  sessions : List String
  live : AList fun _ : String => LiveSession
  jobs : List Job

/-- What can happen, with all that is drawn. -/
inductive PlatformEvent where
  | restart (cfg : Config.AuthConfig) (edrEnabled : Bool) (enrollmentTokens : List String)
      (drawn : List UInt8) (now : Int)
  | clock (now : UInt64)
  | login (username password : String)
  | saved (req : Credentials) (action : SavedAction)
  | tokenCreate (req : Credentials) (label : Option String) (drawn : String) (now : Int)
  | action (req : Credentials) (id action : String) (params : CommandParams) (drawn : String)
      (now : Int)
  | enroll (enrollmentToken : String) (req : EnrollRequest)
      (agentId sessionToken : String) (now : Int)
  | hello (agentId sessionToken : String)
  | heartbeat (index : Nat) (isolated : Bool) (now : Int)
  | result (index : Nat) (result : CommandResult) (now : Int)
  | leave (index : Nat)
  | perform (index : Nat) (now : Int)
  | abandon (index : Nat)

/-- The request of a protected route. -/
def PlatformEvent.request : PlatformEvent → Option Credentials
  | .saved req _ => some req
  | .tokenCreate req _ _ _ => some req
  | .action req _ _ _ _ _ => some req
  | _ => none

namespace Platform

/-- Before the first start: no users, and nothing in the store. -/
def installed : Platform where
  auth := { enabled := true, secret := [], ttl := 0, users := ∅ }
  now := 0
  edr := false
  store := { saved := ∅ }
  sessions := []
  live := ∅
  jobs := []

/-- Whom a request runs as. -/
def principal (crypto : Crypto) (s : Platform) (req : Credentials) : Option AuthUser :=
  requireAuth crypto s.auth s.now req

/-- The state with one more job, if there is one. -/
def take (s : Platform) (job : Option Job) : Platform :=
  { s with jobs := s.jobs ++ job.toList }

/-- Do a job that is no longer on the list. -/
def perform (s : Platform) (now : Int) : Job → Platform
  | .persistAgent rec_ => { s with store := s.store.putSaved (rec_.object now) }
  | .connect agentId =>
      let isolated := ((s.live.lookup agentId).map LiveSession.isolated).getD false
      { s with
        sessions := s.sessions ++ [agentId]
        live := s.live.insert agentId
          { commandTx := s.sessions.length, lastSeen := now, isolated := isolated } }
  | .enqueue rec_ =>
      { s with store := s.store.putSaved (rec_.object now) }.take (some (.send rec_))
  | .send rec_ =>
      s.take <|
        if (s.live.lookup rec_.agentId).isSome then
          some (.persistCommand { rec_ with status := "sent" })
        else none
  | .persistCommand rec_ => { s with store := s.store.putSaved (rec_.object now) }

def step (crypto : Crypto) (decode : Decoders) (s : Platform) : PlatformEvent → Option Platform
  | .restart cfg edrEnabled enrollmentTokens drawn now =>
      let opened :=
        if edrEnabled then EdrState.new s.store enrollmentTokens now else (s.store, false)
      some
        { auth := AuthState.fromConfig cfg drawn
          now := s.now
          edr := opened.2
          store := opened.1
          sessions := []
          live := ∅
          jobs := [] }
  | .clock now => some { s with now := now }
  | .login _ _ => some s
  | .saved req action =>
      match s.principal crypto req with
      | none => some s
      | some user =>
          (SavedRequest.next s.store ⟨user, action⟩).map fun store => { s with store := store }
  | .tokenCreate req label drawn now =>
      match s.principal crypto req with
      | none => some s
      | some user => some { s with store := (edrTokenCreate s.edr s.store user label drawn now).1 }
  | .action req id action params drawn now =>
      match s.principal crypto req with
      | none => some s
      | some user =>
          match edrAction decode s.edr s.store user id action params drawn now with
          | .ok rec_ => some (s.take (some (.enqueue rec_)))
          | .error _ => some s
  | .enroll enrollmentToken req agentId sessionToken now =>
      if s.edr then
        match enroll s.store enrollmentToken req agentId sessionToken now with
        | .ok rec_ => some (s.take (some (.persistAgent rec_)))
        | .error _ => some s
      else none
  | .hello agentId sessionToken =>
      if s.edr then
        match validateStored decode s.store agentId sessionToken with
        | .ok true => some (s.take (some (.connect agentId)))
        | _ => some s
      else none
  | .heartbeat index isolated now =>
      s.sessions[index]?.map fun agentId =>
        match s.live.lookup agentId with
        | none => s
        | some session =>
            { s with
              live := s.live.insert agentId { session with lastSeen := now, isolated := isolated } }
  | .result index result now =>
      s.sessions[index]?.map fun _ =>
        match CommandQueue.get decode s.store result.commandId with
        | .ok (some rec_) => s.take (some (.persistCommand (rec_.finish result now)))
        | _ => s
  | .leave index =>
      s.sessions[index]?.map fun agentId =>
        { s with
          sessions := s.sessions.eraseIdx index
          live := s.live.erase agentId }.take <|
          (s.live.lookup agentId).bind fun session =>
            (lastRecord decode s.store agentId session).map Job.persistAgent
  | .perform index now =>
      s.jobs[index]?.map fun job => { s with jobs := s.jobs.eraseIdx index }.perform now job
  -- a write fails, a command is not taken, or a call is given up
  | .abandon index => s.jobs[index]?.map fun _ => { s with jobs := s.jobs.eraseIdx index }

/-! ## The rows that a step adds -/

/-- A row holds an object. -/
def Has (store : Store) (key : String) (obj : SavedObject) : Prop :=
  store.saved.lookup key = some (some obj)

theorem has_setRow {store : Store} {key other : String} {row : Option SavedObject}
    {obj : SavedObject} (has : Has (store.setRow key row) other obj) :
    Has store other obj ∨ other = key ∧ row = some obj := by
  by_cases same : other = key
  · subst same
    rw [Has, Store.lookup_setRow, Option.map_eq_some_iff] at has
    rcases has with ⟨written, rfl, equal⟩
    exact Or.inr ⟨rfl, congrArg some (Option.some.inj equal)⟩
  · rw [Has, Store.lookup_setRow_ne store row same] at has
    exact Or.inl has

theorem has_putSaved {store : Store} {key : String} {written obj : SavedObject}
    (has : Has (store.putSaved written) key obj) :
    Has store key obj ∨ key = savedKey written.kind written.id ∧ obj = written := by
  rcases @has_setRow store _ key (some written) obj has with old | ⟨same, equal⟩
  · exact Or.inl old
  · exact Or.inr ⟨same, (Option.some.inj equal).symm⟩

/-- What a seeded store holds: what it has held, and tokens of the configuration. -/
theorem has_seed {store : Store} {now : Int} {tokens : List String}
    {key : String} {obj : SavedObject} (has : Has (TokenStore.seed store now tokens).1 key obj) :
    Has store key obj ∨ ∃ token ∈ tokens, key = savedKey tokenKind token := by
  induction tokens generalizing store with
  | nil => exact Or.inl has
  | cons t tokens inductionHypothesis =>
      have later : ∀ {store : Store}, Has (TokenStore.seed store now tokens).1 key obj →
          Has store key obj ∨ ∃ token ∈ t :: tokens, key = savedKey tokenKind token := by
        intro store has
        rcases inductionHypothesis has with old | ⟨token, member, same⟩
        · exact Or.inl old
        · exact Or.inr ⟨token, List.mem_cons_of_mem t member, same⟩
      rw [TokenStore.seed] at has
      split at has
      · exact later has
      · split at has
        · exact Or.inl has
        · exact later has
        · rcases later has with old | seeded
          · rcases has_putSaved old with older | ⟨same, _⟩
            · exact Or.inl older
            · exact Or.inr ⟨t, List.mem_cons_self, same⟩
          · exact Or.inr seeded

/-- The rows that a step adds, each by its reason. -/
inductive Adds (crypto : Crypto) (before : Platform) :
    PlatformEvent → String → SavedObject → Prop where
  | seeded {cfg : Config.AuthConfig} {tokens : List String} {drawn : List UInt8} {now : Int}
      {token : String} {obj : SavedObject} (member : token ∈ tokens) :
      Adds crypto before (.restart cfg true tokens drawn now) (savedKey tokenKind token) obj
  | saved {req : Credentials} {action : SavedAction} {user : AuthUser} {key : String}
      {obj : SavedObject} (runs : before.principal crypto req = some user)
      (may : user.has .analyst = true) (write : action.write user.username = some (key, some obj)) :
      Adds crypto before (.saved req action) key obj
  | issued {req : Credentials} {label : Option String} {drawn : String} {now : Int}
      {user : AuthUser} {obj : SavedObject} (runs : before.principal crypto req = some user)
      (may : user.has .admin = true) :
      Adds crypto before (.tokenCreate req label drawn now) (savedKey tokenKind drawn) obj
  | performed {index : Nat} {now : Int} {job : Job} {obj : SavedObject}
      (member : job ∈ before.jobs)
      (writes : job.object now = some obj) :
      Adds crypto before (.perform index now) (savedKey obj.kind obj.id) obj

/-- The jobs that a step takes on, each by its reason. -/
inductive Takes (crypto : Crypto) (decode : Decoders) (before : Platform) :
    PlatformEvent → Job → Prop where
  | queued {req : Credentials} {user : AuthUser} {id action drawn : String} {params : CommandParams}
      {now : Int} {agent : AgentRecord} (runs : before.principal crypto req = some user)
      (may : user.has .analyst = true)
      (known : storedRecord decode before.store id = .ok (some agent)) :
      Takes crypto decode before (.action req id action params drawn now)
        (.enqueue (CommandRecord.issue drawn id action params user.username now))
  | enrolled {token : String} {req : EnrollRequest} {agentId sessionToken : String} {now : Int}
      (valid : TokenStore.valid before.store token = .ok true) :
      Takes crypto decode before (.enroll token req agentId sessionToken now)
        (.persistAgent (AgentRecord.fresh agentId req sessionToken now))
  | presented {agentId sessionToken : String}
      (valid : validateStored decode before.store agentId sessionToken = .ok true) :
      Takes crypto decode before (.hello agentId sessionToken) (.connect agentId)
  | finished {index : Nat} {result : CommandResult} {now : Int} {rec_ : CommandRecord}
      (known : CommandQueue.get decode before.store result.commandId = .ok (some rec_)) :
      Takes crypto decode before (.result index result now)
        (.persistCommand (rec_.finish result now))
  | left {index : Nat} {agentId : String} {rec_ : AgentRecord} {session : LiveSession}
      (known : storedRecord decode before.store agentId = .ok (some rec_)) :
      Takes crypto decode before (.leave index)
        (.persistAgent { rec_ with lastSeen := session.lastSeen, isolated := session.isolated })
  | persisted {index : Nat} {now : Int} {rec_ : CommandRecord}
      (member : .enqueue rec_ ∈ before.jobs) :
      Takes crypto decode before (.perform index now) (.send rec_)
  | sent {index : Nat} {now : Int} {rec_ : CommandRecord} (member : .send rec_ ∈ before.jobs) :
      Takes crypto decode before (.perform index now)
        (.persistCommand { rec_ with status := "sent" })

/-- What a step adds to the store, to the jobs and to the sessions has a reason. -/
structure Grows (crypto : Crypto) (decode : Decoders) (before : Platform) (event : PlatformEvent)
    (after : Platform) : Prop where
  rows {key : String} {obj : SavedObject} : Has after.store key obj →
    Has before.store key obj ∨ Adds crypto before event key obj
  jobs {job : Job} : job ∈ after.jobs → job ∈ before.jobs ∨
    Takes crypto decode before event job
  sessions {agentId : String} : agentId ∈ after.sessions →
    agentId ∈ before.sessions ∨ .connect agentId ∈ before.jobs
  auth : after.auth = before.auth ∨ ∃ cfg edrEnabled tokens drawn now,
    event = .restart cfg edrEnabled tokens drawn now ∧ after.auth = AuthState.fromConfig cfg drawn

section Step

variable {crypto : Crypto} {decode : Decoders} {before after s : Platform} {event : PlatformEvent}
  {key : String} {obj : SavedObject} {job : Job} {now : Int}

/-- An action that is recorded is an analyst's, for a known agent. -/
theorem edrAction_eq_ok {store : Store} {edr : Bool} {user : AuthUser} {id action drawn : String}
    {params : CommandParams} {rec_ : CommandRecord}
    (recorded : edrAction decode edr store user id action params drawn now = .ok rec_) :
    ∃ agent, user.has .analyst = true ∧ storedRecord decode store id = .ok (some agent) ∧
      rec_ = CommandRecord.issue drawn id action params user.username now := by
  rw [edrAction] at recorded
  split at recorded
  · next may =>
      split at recorded
      · split at recorded
        · cases recorded
        · cases recorded
        · next agent known =>
            split at recorded
            · cases recorded
            · cases recorded
              exact ⟨agent, may, known, rfl⟩
      · cases recorded
  · cases recorded

/-- An agent that is enrolled has presented a valid token. -/
theorem enroll_eq_ok {store : Store} {token agentId sessionToken : String} {req : EnrollRequest}
    {rec_ : AgentRecord} (recorded : enroll store token req agentId sessionToken now = .ok rec_) :
    TokenStore.valid store token = .ok true ∧
      rec_ = AgentRecord.fresh agentId req sessionToken now := by
  rw [enroll] at recorded
  split at recorded
  · next valid =>
      cases recorded
      exact ⟨valid, rfl⟩
  · cases recorded
  · cases recorded

/-- What a session leaves behind is the stored record with what it knew. -/
theorem lastRecord_eq_some {store : Store} {agentId : String} {session : LiveSession}
    {rec_ : AgentRecord} (last_ : lastRecord decode store agentId session = some rec_) :
    ∃ former, storedRecord decode store agentId = .ok (some former) ∧
      rec_ = { former with lastSeen := session.lastSeen, isolated := session.isolated } := by
  rw [lastRecord] at last_
  split at last_
  · next former known =>
      cases last_
      exact ⟨former, known, rfl⟩
  · cases last_

theorem mem_take {new : Option Job} :
    job ∈ (s.take new).jobs ↔ job ∈ s.jobs ∨ new = some job := by
  rw [take, List.mem_append, Option.mem_toList]

/-- A row after a job was there before, or the job has written it. -/
theorem has_perform (has : Has (s.perform now job).store key obj) :
    Has s.store key obj ∨ job.object now = some obj ∧ key = savedKey obj.kind obj.id := by
  cases job with
  | persistAgent | persistCommand | enqueue =>
      rcases has_putSaved has with old | ⟨rfl, rfl⟩
      · exact Or.inl old
      · exact Or.inr ⟨rfl, rfl⟩
  | connect | send => exact Or.inl has

namespace Grows

theorem refl : Grows crypto decode before event before :=
  ⟨Or.inl, Or.inl, Or.inl, Or.inl rfl⟩

/-- Only the store is another one. -/
theorem of_rows {store : Store}
    (rows : ∀ {key : String} {obj : SavedObject}, Has store key obj →
    Has before.store key obj ∨ Adds crypto before event key obj) :
    Grows crypto decode before event { before with store := store } :=
  ⟨rows, Or.inl, Or.inl, Or.inl rfl⟩

/-- A job is taken on, and sessions may end. -/
theorem of_take (auth : s.auth = before.auth) (store : s.store = before.store)
    (jobs : s.jobs = before.jobs) (sessions : s.sessions ⊆ before.sessions) {new : Option Job}
    (reason : ∀ job, new = some job → Takes crypto decode before event job) :
    Grows crypto decode before event (s.take new) where
  rows has := by
    rw [take, store] at has
    exact Or.inl has
  jobs member := by
    rw [mem_take, jobs] at member
    exact member.imp_right (reason _)
  sessions member := Or.inl (sessions member)
  auth := Or.inl auth

/-- A job is done. -/
theorem of_perform {index : Nat} (found : before.jobs[index]? = some job) :
    Grows crypto decode before (.perform index now)
      ({ before with jobs := before.jobs.eraseIdx index }.perform now job) where
  rows has := by
    rcases has_perform has with old | ⟨writes, rfl⟩
    · exact Or.inl old
    · exact Or.inr (.performed (List.mem_of_getElem? found) writes)
  jobs member := by
    have present := List.mem_of_getElem? found
    have fewer : ∀ {job : Job}, job ∈ before.jobs.eraseIdx index → job ∈ before.jobs :=
      fun rest => List.eraseIdx_subset rest
    cases job with
    | persistAgent | connect | persistCommand => exact Or.inl (fewer member)
    | enqueue rec_ =>
        rcases mem_take.mp member with old | new
        · exact Or.inl (fewer old)
        · cases new
          exact Or.inr (.persisted present)
    | send rec_ =>
        rcases mem_take.mp member with old | new
        · exact Or.inl (fewer old)
        · rw [Option.ite_none_right_eq_some] at new
          cases new.2
          exact Or.inr (.sent present)
  sessions member := by
    cases job with
    | persistAgent | persistCommand | enqueue | send => exact Or.inl member
    | connect opened =>
        rcases List.mem_append.mp member with old | new
        · exact Or.inl old
        · rw [List.mem_singleton.mp new]
          exact Or.inr (List.mem_of_getElem? found)
  auth := by
    cases job with
    | persistAgent | persistCommand | enqueue | send | connect => exact Or.inl rfl

end Grows

/-- The rows after a start: a start without the endpoints writes nothing. -/
theorem has_restart {cfg : Config.AuthConfig} {edrEnabled : Bool} {tokens : List String}
    {drawn : List UInt8}
    (stepped : before.step crypto decode (.restart cfg edrEnabled tokens drawn now) =
      some after) (has : Has after.store key obj) :
    Has before.store key obj ∨
      Adds crypto before (.restart cfg edrEnabled tokens drawn now) key obj := by
  cases stepped
  cases edrEnabled with
  | false => exact Or.inl has
  | true =>
      have seeded : Has (TokenStore.seed before.store now tokens).1 key obj := by
        change Has (EdrState.new before.store tokens now).1 key obj at has
        rw [EdrState.new] at has
        split at has
        · next store opened =>
            rw [opened]
            exact has
        · next store error opened =>
            rw [opened]
            exact has
      rcases has_seed seeded with old | ⟨token, member, rfl⟩
      · exact Or.inl old
      · exact Or.inr (.seeded member)

/-- Every step adds only what has a reason. -/
theorem step_grows (stepped : before.step crypto decode event = some after) :
    Grows crypto decode before event after := by
  cases event with
  | restart =>
      refine ⟨has_restart stepped, fun member => ?_, fun member => ?_, ?_⟩
      · cases stepped
        cases member
      · cases stepped
        cases member
      · cases stepped
        exact Or.inr ⟨_, _, _, _, _, rfl, rfl⟩
  | clock | login =>
      cases stepped
      exact ⟨Or.inl, Or.inl, Or.inl, Or.inl rfl⟩
  | saved req action =>
      rw [step] at stepped
      split at stepped
      · cases stepped
        exact .refl
      · next user runs =>
          rw [SavedRequest.next, handle_eq, Option.map_some] at stepped
          cases stepped
          refine .of_rows fun has => ?_
          cases write : SavedRequest.write ⟨user, action⟩ with
          | none =>
              rw [write] at has
              exact Or.inl has
          | some pair =>
              rw [write] at has
              rcases has_setRow has with old | ⟨rfl, written⟩
              · exact Or.inl old
              · rw [SavedRequest.write, Option.ite_none_right_eq_some] at write
                refine Or.inr (.saved runs write.1 ?_)
                rw [write.2, ← written]
  | tokenCreate req label drawn now =>
      rw [step] at stepped
      split at stepped
      · cases stepped
        exact .refl
      · next user runs =>
          cases stepped
          refine .of_rows fun has => ?_
          rw [edrTokenCreate] at has
          split at has
          · next may =>
              split at has
              · rcases has_putSaved has with old | ⟨rfl, _⟩
                · exact Or.inl old
                · exact Or.inr (.issued runs may)
              · exact Or.inl has
          · exact Or.inl has
  | action req id action params drawn now =>
      rw [step] at stepped
      split at stepped
      · cases stepped
        exact .refl
      · next user runs =>
          split at stepped
          · next rec_ recorded =>
              cases stepped
              rcases edrAction_eq_ok recorded with ⟨agent, may, known, rfl⟩
              refine .of_take rfl rfl rfl (List.Subset.refl _) ?_
              rintro _ ⟨⟩
              exact .queued runs may known
          · cases stepped
            exact .refl
  | enroll enrollmentToken req agentId sessionToken now =>
      rw [step, Option.ite_none_right_eq_some] at stepped
      have opened := stepped.2
      split at opened
      · next rec_ recorded =>
          cases opened
          rcases enroll_eq_ok recorded with ⟨valid, rfl⟩
          refine .of_take rfl rfl rfl (List.Subset.refl _) ?_
          rintro _ ⟨⟩
          exact .enrolled valid
      · cases opened
        exact .refl
  | hello agentId sessionToken =>
      rw [step, Option.ite_none_right_eq_some] at stepped
      have opened := stepped.2
      split at opened
      · next valid =>
          cases opened
          refine .of_take rfl rfl rfl (List.Subset.refl _) ?_
          rintro _ ⟨⟩
          exact .presented valid
      · cases opened
        exact .refl
  | heartbeat =>
      rcases Option.map_eq_some_iff.mp stepped with ⟨agentId, _, rfl⟩
      split
      · exact .refl
      · exact ⟨Or.inl, Or.inl, Or.inl, Or.inl rfl⟩
  | result index result now =>
      rcases Option.map_eq_some_iff.mp stepped with ⟨agentId, _, rfl⟩
      split
      · next rec_ known =>
          refine .of_take rfl rfl rfl (List.Subset.refl _) ?_
          rintro _ ⟨⟩
          exact .finished known
      · exact .refl
  | leave index =>
      rcases Option.map_eq_some_iff.mp stepped with ⟨agentId, _, rfl⟩
      refine .of_take (by rfl) (by rfl) (by rfl) List.eraseIdx_subset fun job new => ?_
      rcases Option.bind_eq_some_iff.mp new with ⟨session, _, recorded⟩
      rcases Option.map_eq_some_iff.mp recorded with ⟨rec_, last_, rfl⟩
      rcases lastRecord_eq_some last_ with ⟨former, known, rfl⟩
      exact .left known
  | perform index now =>
      rcases Option.map_eq_some_iff.mp stepped with ⟨job, found, rfl⟩
      exact .of_perform found
  | abandon index =>
      rcases Option.map_eq_some_iff.mp stepped with ⟨_, _, rfl⟩
      exact ⟨Or.inl, fun member => Or.inl (List.eraseIdx_subset member), Or.inl, Or.inl rfl⟩

end Step

end Platform
end Api
end Sigil
