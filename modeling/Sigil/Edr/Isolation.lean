import Sigil.Edr.Gateway

namespace Sigil
namespace Edr

/-!
# The isolation flag of an agent

An agent tells in its heartbeats whether its host is isolated.  While a session is open the
flag is kept in the live entry, and it is copied to the record when the session is torn down.
It is never copied back: a new session starts with a flag that is not set, so what the registry
reports after a reconnect is what the agent has told last only where that was `false`.
-/

open Library

namespace AgentRegistry

/-- The flag in the live entry of an agent. -/
def liveFlag (r : AgentRegistry) (agentId : String) : Option Bool :=
  (r.live.lookup agentId).map LiveSession.isolated

/-- The flag in the record of an agent. -/
def recordFlag (r : AgentRegistry) (agentId : String) : Option Bool :=
  (r.record agentId).map AgentRecord.isolated

/-- The flag that is reported for an agent. -/
def isolatedFlag (r : AgentRegistry) (agentId : String) : Option Bool :=
  (r.get agentId).map AgentView.isolated

/-- Every record is kept under the identifier of its agent. -/
def Identified (r : AgentRegistry) : Prop :=
  ∀ agentId rec, r.record agentId = some rec → rec.agentId = agentId

variable {r : AgentRegistry}

theorem record_persist (rec : AgentRecord) (agentId : String) :
    (r.persist rec).record agentId =
      if agentId = rec.agentId then some rec else r.record agentId := by
  by_cases same : agentId = rec.agentId
  · rw [if_pos same, same]
    exact AList.lookup_insert _
  · rw [if_neg same]
    exact AList.lookup_insert_ne same

theorem Identified.persist (identified : r.Identified) (rec : AgentRecord) :
    (r.persist rec).Identified := by
  intro agentId other found
  rw [record_persist] at found
  split at found
  · next same =>
      cases found
      exact same.symm
  · exact identified agentId other found

theorem isolatedFlag_eq (identified : r.Identified) (agentId : String) :
    r.isolatedFlag agentId = (r.recordFlag agentId).map (r.liveFlag agentId).getD := by
  cases found : r.record agentId with
  | none => simp [isolatedFlag, get, recordFlag, found]
  | some rec =>
      have isOwn := identified agentId rec found
      subst isOwn
      simp only [isolatedFlag, get, view, recordFlag, liveFlag, found, Option.map_some]

/-! ## What the calls do to the flags -/

@[simp] theorem liveFlag_enroll (agentId : String) (req : EnrollRequest) (sessionToken : String)
    (now : Int) (agent : String) :
    (r.enroll agentId req sessionToken now).liveFlag agent = r.liveFlag agent :=
  rfl

theorem recordFlag_enroll (agentId : String) (req : EnrollRequest) (sessionToken : String)
    (now : Int) (agent : String) :
    (r.enroll agentId req sessionToken now).recordFlag agent =
      if agent = agentId then some false else r.recordFlag agent := by
  rw [recordFlag, enroll, record_persist]
  split
  · rfl
  · rfl

theorem liveFlag_connect (agentId : String) (commandTx : Nat) (now : Int) (agent : String) :
    (r.connect agentId commandTx now).liveFlag agent =
      if agent = agentId then some ((r.liveFlag agentId).getD false) else r.liveFlag agent := by
  by_cases same : agent = agentId
  · subst same
    simp [connect, liveFlag]
  · simp [connect, liveFlag, same, AList.lookup_insert_ne same]

@[simp] theorem recordFlag_connect (agentId : String) (commandTx : Nat) (now : Int)
    (agent : String) : (r.connect agentId commandTx now).recordFlag agent = r.recordFlag agent :=
  rfl

theorem liveFlag_heartbeat (agentId : String) (isolated : Bool) (now : Int) (agent : String) :
    (r.heartbeat agentId isolated now).liveFlag agent =
      if agent = agentId then (r.liveFlag agentId).map fun _ => isolated else r.liveFlag agent := by
  by_cases same : agent = agentId
  · subst same
    cases found : r.live.lookup agent <;> simp [heartbeat, liveFlag, found]
  · cases found : r.live.lookup agentId <;>
      simp [heartbeat, liveFlag, found, same, AList.lookup_insert_ne same]

@[simp] theorem record_heartbeat (agentId : String) (isolated : Bool) (now : Int) (agent : String) :
    (r.heartbeat agentId isolated now).record agent = r.record agent := by
  rw [heartbeat]
  split
  · rfl
  · rfl

theorem liveFlag_disconnect (agentId : String) (stored : Bool) (agent : String) :
    (r.disconnect agentId stored).liveFlag agent =
      if agent = agentId then none else r.liveFlag agent := by
  cases found : r.live.lookup agentId with
  | none =>
      by_cases same : agent = agentId
      · subst same
        simp [disconnect, liveFlag, found]
      · simp [disconnect, found, same]
  | some session =>
      by_cases same : agent = agentId
      · subst same
        cases known : r.record agent <;> cases stored <;>
          simp_all [disconnect, liveFlag, record, persist]
      · cases known : r.record agentId <;> cases stored <;>
          simp_all [disconnect, liveFlag, record, persist, AList.lookup_erase_ne same]

theorem Identified.heartbeat (identified : r.Identified) (agentId : String) (isolated : Bool)
    (now : Int) : (r.heartbeat agentId isolated now).Identified := by
  intro agent rec
  rw [record_heartbeat]
  exact identified agent rec

@[simp] theorem recordFlag_heartbeat (agentId : String) (isolated : Bool) (now : Int)
    (agent : String) :
    (r.heartbeat agentId isolated now).recordFlag agent = r.recordFlag agent := by
  rw [recordFlag, record_heartbeat, recordFlag]

/-- A failing store keeps every record. -/
theorem record_disconnect_failed (agentId agent : String) :
    (r.disconnect agentId false).record agent = r.record agent := by
  cases found : r.live.lookup agentId with
  | none => simp only [disconnect, found]
  | some session =>
      simp only [disconnect, found]
      split
      · rfl
      · rfl

theorem record_disconnect (agentId : String) :
    (∀ agent, (r.disconnect agentId true).record agent = r.record agent) ∧
    r.liveFlag agentId = none ∨
      ∃ session, r.live.lookup agentId = some session ∧ ∀ agent,
        (r.disconnect agentId true).record agent = ((r.record agentId).elim r fun rec => r.persist
          { rec with
            lastSeen := session.lastSeen
            isolated := session.isolated }).record agent := by
  cases found : r.live.lookup agentId with
  | none => exact Or.inl ⟨by simp [disconnect, found], by simp [liveFlag, found]⟩
  | some session =>
      refine Or.inr ⟨session, rfl, fun agent => ?_⟩
      have sameRecord : ({ r with live := r.live.erase agentId } : AgentRegistry).record agentId =
          r.record agentId := rfl
      cases known : r.record agentId <;> simp only [disconnect, found, sameRecord, known] <;> rfl

theorem Identified.disconnect (identified : r.Identified) (agentId : String) (stored : Bool) :
    (r.disconnect agentId stored).Identified := by
  intro agent rec
  cases stored with
  | false =>
      rw [record_disconnect_failed]
      exact identified agent rec
  | true =>
      rcases record_disconnect (r := r) agentId with ⟨same, -⟩ | ⟨session, -, same⟩
      · rw [same]
        exact identified agent rec
      · rw [same]
        cases r.record agentId with
        | none => exact identified agent rec
        | some old => exact identified.persist _ agent rec

theorem recordFlag_disconnect (identified : r.Identified) (agentId : String) (stored : Bool)
    (agent : String) :
    (r.disconnect agentId stored).recordFlag agent =
      if agent = agentId ∧ stored = true then (r.recordFlag agentId).map (r.liveFlag agentId).getD
      else r.recordFlag agent := by
  cases stored with
  | false =>
      rw [recordFlag, record_disconnect_failed, if_neg fun both => Bool.false_ne_true both.2]
      rfl
  | true =>
      simp only [and_true]
      rcases record_disconnect (r := r) agentId with ⟨same, noLive⟩ | ⟨session, found, same⟩
      · rw [recordFlag, same, noLive]
        split
        · next isAgent =>
            rw [isAgent, recordFlag]
            cases r.record agentId <;> rfl
        · rfl
      · rw [recordFlag, same]
        cases known : r.record agentId with
        | none =>
            by_cases isAgent : agent = agentId
            · subst isAgent
              simp [recordFlag, known]
            · simp [recordFlag, isAgent]
        | some rec =>
            have own := identified agentId rec known
            rw [Option.elim_some, record_persist]
            by_cases isAgent : agent = agentId
            · simp [isAgent, own, recordFlag, known, liveFlag, found]
            · simp [isAgent, own, recordFlag]

end AgentRegistry

/-! ## The gateway and one agent -/

/-- A gateway, and the flag that one agent has sent last. -/
structure Watched where
  gateway : Gateway
  sent : Bool

namespace Watched

section Agent

-- the agent that is watched
variable (agent : String)

/-- The flag that the agent sends in an event. -/
def flagIn (g : Gateway) : GatewayEvent → Option Bool
  | .heartbeat number isolated _ =>
      if (g.sessions[number]?).any fun session => session.agentId = agent then some isolated
      else none
  | _ => none

/-- The sessions of the agent do not overlap, and identifiers are drawn once. -/
def Apart (w : Watched) : GatewayEvent → Prop
  | .enroll agentId _ _ _ => w.gateway.registry.record agentId = none
  | .hello agentId _ _ => agentId = agent → ∀ session, session ∈ w.gateway.sessions →
      session.agentId = agent → session.phase = .gone
  | _ => True

instance (w : Watched) : (event : GatewayEvent) → Decidable (w.Apart agent event)
  | .enroll agentId _ _ _ => inferInstanceAs (Decidable (w.gateway.registry.record agentId = none))
  | .hello agentId _ _ => inferInstanceAs (Decidable (agentId = agent →
      ∀ session, session ∈ w.gateway.sessions → session.agentId = agent →
      session.phase = .gone))
  | .heartbeat _ _ _ | .streamEnds _ | .leave _ | .disconnect _ _ => .isTrue trivial

def step (w : Watched) (event : GatewayEvent) : Option Watched :=
  (w.gateway.step event).map fun g =>
    { gateway := g, sent := (flagIn agent w.gateway event).getD w.sent }

/-- One event in a run without overlapping sessions of the agent. -/
def next (w : Watched) (event : GatewayEvent) : Option Watched :=
  TransitionSystem.guarded (Apart agent) (step agent) w event

/-- The registry reports what the agent has sent last. -/
def Reports (w : Watched) : Prop :=
  ∀ flag, w.gateway.registry.isolatedFlag agent = some flag → flag = w.sent

/-- The agent connects only when it has not told last that it is isolated, and the store fails at
the end of a session of it only when the record knows already what the agent has told last. -/
def Calm (w : Watched) : GatewayEvent → Prop
  | .hello agentId token _ =>
      agentId = agent → w.gateway.registry.validateSession agentId token = true → w.sent = false
  | .disconnect number stored =>
      stored = false → ∀ session, session ∈ w.gateway.sessions[number]? →
        session.agentId = agent →
        w.gateway.registry.recordFlag agent = some w.sent
  | _ => True

end Agent

def start : Watched where
  gateway := .start ∅
  sent := false

/-! ## The open session -/

variable {agent : String}

/-- The session with this number is an open one of the agent. -/
def OpenAt (agent : String) (sessions : List Session) (number : Nat) : Prop :=
  ∃ session, sessions[number]? = some session ∧ session.agentId = agent ∧
    session.phase ≠ .gone

theorem openAt_set {sessions : List Session} {number : Nat} {session changed : Session}
    (found : sessions[number]? = some session) (sameAgent : changed.agentId = session.agentId)
    (i : Nat) : OpenAt agent (sessions.set number changed) i ↔
      if i = number then session.agentId = agent ∧ changed.phase ≠ .gone
      else OpenAt agent sessions i := by
  have bound := (List.getElem?_eq_some_iff.mp found).1
  by_cases here : i = number
  · subst here
    simp [OpenAt, List.getElem?_set_self bound, sameAgent]
  · simp [OpenAt, List.getElem?_set_ne (Ne.symm here), here]

theorem openAt_concat {sessions : List Session} {fresh : Session} (serving : fresh.phase ≠ .gone)
    (i : Nat) : OpenAt agent (sessions ++ [fresh]) i ↔
      OpenAt agent sessions i ∨ i = sessions.length ∧ fresh.agentId = agent := by
  constructor
  · rintro ⟨session, found, isAgent, notGone⟩
    rcases Pointwise.getElem?_concat_cases found with ⟨_, old⟩ | ⟨isLast, rfl⟩
    · exact Or.inl ⟨session, old, isAgent, notGone⟩
    · exact Or.inr ⟨isLast, isAgent⟩
  · rintro (⟨session, found, isAgent, notGone⟩ | ⟨rfl, isAgent⟩)
    · have bound := (List.getElem?_eq_some_iff.mp found).1
      exact ⟨session, (List.getElem?_append_left bound).trans found, isAgent, notGone⟩
    · exact ⟨fresh, List.getElem?_concat_length, isAgent, serving⟩

/-! ## The flags along a run -/

/-- At most one session of the agent is open.  While it is, its live entry has the flag that was
sent last; before and after, the record has it. -/
structure Tracks (agent : String) (w : Watched) : Prop where
  identified : w.gateway.registry.Identified
  one : ∀ {i j}, OpenAt agent w.gateway.sessions i → OpenAt agent w.gateway.sessions j → i = j
  up : ∀ {i}, OpenAt agent w.gateway.sessions i →
    w.gateway.registry.liveFlag agent = some w.sent ∧
      w.gateway.registry.recordFlag agent ≠ none
  down : (∀ i, ¬ OpenAt agent w.gateway.sessions i) →
    w.gateway.registry.liveFlag agent = none ∧
      ∀ flag, w.gateway.registry.recordFlag agent = some flag → flag = w.sent
  unknown : w.gateway.registry.recordFlag agent = none → w.sent = false

theorem tracks_start : Tracks agent start where
  identified := fun _ _ found => nomatch found
  one := fun opened => by
    rcases opened with ⟨_, found, _⟩
    cases found
  up := fun opened => by
    rcases opened with ⟨_, found, _⟩
    cases found
  down := fun _ => ⟨rfl, fun _ found => nomatch found⟩
  unknown := fun _ => rfl

variable {w w' : Watched}

theorem Tracks.reports (tracks : Tracks agent w) : Reports agent w := by
  intro flag reported
  rw [AgentRegistry.isolatedFlag_eq tracks.identified] at reported
  rcases Option.map_eq_some_iff.mp reported with ⟨recorded, inRecord, rfl⟩
  by_cases opened : ∃ i, OpenAt agent w.gateway.sessions i
  · rcases opened with ⟨i, opened⟩
    rw [(tracks.up opened).1, Option.getD_some]
  · have closed := tracks.down (not_exists.mp opened)
    rw [closed.1, Option.getD_none]
    exact closed.2 recorded inRecord

/-- What leaves the flags and the open sessions of the agent as they are. -/
theorem Tracks.congr (tracks : Tracks agent w) (identified : w'.gateway.registry.Identified)
    (opened : ∀ i, OpenAt agent w'.gateway.sessions i ↔ OpenAt agent w.gateway.sessions i)
    (live : w'.gateway.registry.liveFlag agent = w.gateway.registry.liveFlag agent)
    (recorded : w'.gateway.registry.recordFlag agent = w.gateway.registry.recordFlag agent)
    (sent : w'.sent = w.sent) : Tracks agent w' where
  identified := identified
  one := fun left right => tracks.one ((opened _).mp left) ((opened _).mp right)
  up := by
    intro i isOpen
    rw [live, recorded, sent]
    exact tracks.up ((opened i).mp isOpen)
  down := by
    intro closed
    rw [live, recorded, sent]
    exact tracks.down fun i isOpen => closed i ((opened i).mpr isOpen)
  unknown := by
    intro missing
    rw [sent]
    exact tracks.unknown (recorded ▸ missing)

theorem Tracks.enroll (tracks : Tracks agent w) {agentId : String} (req : EnrollRequest)
    (sessionToken : String) (now : Int) (drawn : w.gateway.registry.record agentId = none) :
    Tracks agent { w with gateway :=
      { w.gateway with registry := w.gateway.registry.enroll agentId req sessionToken now } } := by
  have identified := tracks.identified.persist
    (AgentRecord.mk agentId req.hostname req.os req.osVersion req.agentVersion req.fingerprint
      sessionToken now now false)
  by_cases isAgent : agent = agentId
  · subst isAgent
    have missing : w.gateway.registry.recordFlag agent = none := by
      rw [AgentRegistry.recordFlag, drawn, Option.map_none]
    have closed : ∀ i, ¬ OpenAt agent w.gateway.sessions i :=
      fun i opened => (tracks.up opened).2 missing
    exact {
      identified := identified
      one := tracks.one
      up := fun opened => absurd opened (closed _)
      down := fun _ => ⟨(tracks.down closed).1, fun flag found => by
        rw [AgentRegistry.recordFlag_enroll, if_pos rfl] at found
        rw [← Option.some.inj found]
        exact (tracks.unknown missing).symm⟩
      unknown := fun _ => tracks.unknown missing }
  · apply tracks.congr
    · exact identified
    · exact fun _ => Iff.rfl
    · rfl
    · rw [AgentRegistry.recordFlag_enroll, if_neg isAgent]
    · rfl

theorem Tracks.connect (tracks : Tracks agent w) (fresh : Session)
    (serving : fresh.phase = .serving) (now : Int)
    (known : w.gateway.registry.recordFlag fresh.agentId ≠ none)
    (apart : fresh.agentId = agent → ∀ i, ¬ OpenAt agent w.gateway.sessions i)
    (calm : fresh.agentId = agent → w.sent = false) :
    Tracks agent { w with gateway :=
      { registry := w.gateway.registry.connect fresh.agentId w.gateway.sessions.length now
        sessions := w.gateway.sessions ++ [fresh] } } := by
  have notGone : fresh.phase ≠ .gone := by simp [serving]
  by_cases isAgent : fresh.agentId = agent
  · subst isAgent
    have closed := apart rfl
    have only : ∀ {i}, OpenAt fresh.agentId (w.gateway.sessions ++ [fresh]) i →
        i = w.gateway.sessions.length := by
      intro i opened
      rcases (openAt_concat notGone i).mp opened with old | new
      · exact absurd old (closed i)
      · exact new.1
    exact {
      identified := tracks.identified
      one := fun left right => (only left).trans (only right).symm
      up := fun _ => by
        refine ⟨?_, known⟩
        rw [AgentRegistry.liveFlag_connect, if_pos rfl, (tracks.down closed).1, calm rfl]
        rfl
      down := fun none_ =>
        absurd ((openAt_concat notGone _).mpr (Or.inr ⟨rfl, rfl⟩))
          (none_ w.gateway.sessions.length)
      unknown := fun missing => absurd missing known }
  · apply tracks.congr
    · exact tracks.identified
    · intro i
      rw [openAt_concat notGone]
      simp [isAgent]
    · rw [AgentRegistry.liveFlag_connect, if_neg (Ne.symm isAgent)]
    · rfl
    · rfl

theorem Tracks.heartbeat (tracks : Tracks agent w) {number : Nat} {session : Session}
    (found : w.gateway.sessions[number]? = some session) (notGone : session.phase ≠ .gone)
    (isolated : Bool) (now : Int) :
    Tracks agent
      { gateway :=
          { w.gateway with
            registry := w.gateway.registry.heartbeat session.agentId isolated now }
        sent := if session.agentId = agent then isolated else w.sent } := by
  have identified := tracks.identified.heartbeat session.agentId isolated now
  by_cases isAgent : session.agentId = agent
  · have opened : OpenAt agent w.gateway.sessions number := ⟨session, found, isAgent, notGone⟩
    have entry := tracks.up opened
    rw [if_pos isAgent]
    exact {
      identified := identified
      one := tracks.one
      up := fun _ => by
        rw [AgentRegistry.liveFlag_heartbeat, if_pos isAgent.symm, isAgent, entry.1]
        refine ⟨rfl, ?_⟩
        rw [AgentRegistry.recordFlag_heartbeat]
        exact entry.2
      down := fun closed => absurd opened (closed number)
      unknown := fun missing => by
        rw [AgentRegistry.recordFlag_heartbeat] at missing
        exact absurd missing entry.2 }
  · rw [if_neg isAgent]
    apply tracks.congr
    · exact identified
    · exact fun _ => Iff.rfl
    · rw [AgentRegistry.liveFlag_heartbeat, if_neg (Ne.symm isAgent)]
    · rw [AgentRegistry.recordFlag_heartbeat]
    · rfl

theorem Tracks.disconnect (tracks : Tracks agent w) {number : Nat} {session : Session}
    (found : w.gateway.sessions[number]? = some session) (notGone : session.phase ≠ .gone)
    {stored : Bool} (known : stored = false → session.agentId = agent →
      w.gateway.registry.recordFlag agent = some w.sent) :
    Tracks agent { w with gateway :=
      { registry := w.gateway.registry.disconnect session.agentId stored
        sessions := w.gateway.sessions.set number { session with phase := .gone } } } := by
  have identified := tracks.identified.disconnect session.agentId stored
  have opened_iff : ∀ i,
      OpenAt agent (w.gateway.sessions.set number { session with phase := .gone }) i ↔
        if i = number then session.agentId = agent ∧ Phase.gone ≠ .gone
        else OpenAt agent w.gateway.sessions i :=
    openAt_set found rfl
  by_cases isAgent : session.agentId = agent
  · have opened : OpenAt agent w.gateway.sessions number := ⟨session, found, isAgent, notGone⟩
    have entry := tracks.up opened
    have closed : ∀ i, ¬ OpenAt agent
        (w.gateway.sessions.set number { session with phase := .gone }) i := by
      intro i still
      rw [opened_iff] at still
      split at still
      · exact still.2 rfl
      · next other => exact other (tracks.one still opened)
    have recorded : (w.gateway.registry.disconnect session.agentId stored).recordFlag agent =
        some w.sent := by
      rw [AgentRegistry.recordFlag_disconnect tracks.identified]
      split
      · rw [isAgent, entry.1]
        cases inRecord : w.gateway.registry.recordFlag agent with
        | none => exact absurd inRecord entry.2
        | some flag => rfl
      · next failed =>
          rw [not_and, Bool.not_eq_true] at failed
          exact known (failed isAgent.symm) isAgent
    exact {
      identified := identified
      one := fun left => absurd left (closed _)
      up := fun left => absurd left (closed _)
      down := fun _ => by
        rw [AgentRegistry.liveFlag_disconnect, if_pos isAgent.symm, recorded]
        exact ⟨rfl, fun flag same => (Option.some.inj same).symm⟩
      unknown := fun missing => by
        rw [recorded] at missing
        cases missing }
  · apply tracks.congr
    · exact identified
    · intro i
      rw [opened_iff]
      split
      · next here =>
          subst here
          constructor
          · exact fun same => absurd same.1 isAgent
          · rintro ⟨other, isThere, same, -⟩
            rw [found] at isThere
            cases isThere
            exact absurd same isAgent
      · exact Iff.rfl
    · rw [AgentRegistry.liveFlag_disconnect, if_neg (Ne.symm isAgent)]
    · rw [AgentRegistry.recordFlag_disconnect tracks.identified,
        if_neg fun both => isAgent both.1.symm]
    · rfl

/-- A session changes its status and stays open or gone. -/
theorem Tracks.set (tracks : Tracks agent w) {number : Nat} {session changed : Session}
    (found : w.gateway.sessions[number]? = some session)
    (sameAgent : changed.agentId = session.agentId)
    (gone : changed.phase = .gone ↔ session.phase = .gone) :
    Tracks agent { w with gateway :=
      { w.gateway with sessions := w.gateway.sessions.set number changed } } := by
  apply tracks.congr
  · exact tracks.identified
  · intro i
    rw [openAt_set found sameAgent]
    split
    · next here =>
        subst here
        simp [OpenAt, found, gone]
    · exact Iff.rfl
  · rfl
  · rfl
  · rfl

/-! ## Steps and runs -/

theorem step_eq_some {event : GatewayEvent} (stepped : w.step agent event = some w') :
    w.gateway.step event = some w'.gateway ∧
      w'.sent = (flagIn agent w.gateway event).getD w.sent := by
  rcases Option.map_eq_some_iff.mp stepped with ⟨g, step, rfl⟩
  exact ⟨step, rfl⟩

/-- The step of a session that connects. -/
theorem step_hello {g g' : Gateway} {agentId token : String} {now : Int}
    (step : g.step (.hello agentId token now) = some g') :
    g.registry.validateSession agentId token = true ∧ (∃ hostname, g' =
        { registry := g.registry.connect agentId g.sessions.length now
          sessions := g.sessions ++ [⟨agentId, hostname, false, .serving⟩] }) ∨
      g.registry.validateSession agentId token = false ∧ g' = g := by
  simp only [Gateway.step] at step
  split at step
  · next valid => exact Or.inl ⟨valid, _, (Option.some.inj step).symm⟩
  · next invalid => exact Or.inr ⟨by simpa using invalid, (Option.some.inj step).symm⟩

theorem recordFlag_of_valid {r : AgentRegistry} {agentId token : String}
    (valid : r.validateSession agentId token = true) : r.recordFlag agentId ≠ none := by
  intro missing
  rw [AgentRegistry.recordFlag, Option.map_eq_none_iff] at missing
  simp [AgentRegistry.validateSession, missing] at valid

theorem closed_of_apart {agentId token : String} {now : Int}
    (apart : w.Apart agent (.hello agentId token now)) (isAgent : agentId = agent) :
    ∀ i, ¬ OpenAt agent w.gateway.sessions i := by
  rintro i ⟨session, found, ofAgent, notGone⟩
  exact notGone (apart isAgent session (List.mem_of_getElem? found) ofAgent)

theorem Tracks.step (tracks : Tracks agent w) {event : GatewayEvent}
    (stepped : w.step agent event = some w') (apart : w.Apart agent event)
    (calm : w.Calm agent event) : Tracks agent w' := by
  rcases step_eq_some stepped with ⟨step, sent⟩
  rcases w' with ⟨g', sent'⟩
  dsimp only at step sent
  subst sent
  cases event with
  | enroll agentId req sessionToken now =>
      cases step
      exact tracks.enroll req sessionToken now apart
  | hello agentId token now =>
      rcases step_hello step with ⟨valid, hostname, rfl⟩ | ⟨-, rfl⟩
      · exact tracks.connect ⟨agentId, hostname, false, .serving⟩ rfl now
          (recordFlag_of_valid valid) (closed_of_apart apart) fun isAgent => calm isAgent valid
      · exact tracks
  | heartbeat number isolated now =>
      simp only [Gateway.step] at step
      split at step
      · next session found =>
          split at step
          · next open_ =>
              cases step
              have beats := tracks.heartbeat found (by simp [open_.1]) isolated now
              by_cases isAgent : session.agentId = agent <;> simp_all [flagIn]
          · cases step
      · cases step
  | streamEnds number =>
      simp only [Gateway.step] at step
      split at step
      · next session found =>
          cases step
          exact tracks.set found rfl Iff.rfl
      · cases step
  | leave number =>
      simp only [Gateway.step] at step
      split at step
      · next session found =>
          split at step
          · next why =>
              cases step
              exact tracks.set found rfl (by simp [why.1])
          · cases step
      · cases step
  | disconnect number stored =>
      rcases step_disconnect step with ⟨session, found, leaving, rfl⟩
      exact tracks.disconnect found (by simp [leaving]) fun failed isAgent =>
        calm failed session found isAgent

/-- When an agent that is isolated connects, this is not reported any more; and when the store
fails at the end of a session, the record is what is reported. -/
theorem Tracks.calm (tracks : Tracks agent w) {event : GatewayEvent}
    (stepped : w.step agent event = some w') (apart : w.Apart agent event)
    (reports : Reports agent w') : w.Calm agent event := by
  cases event with
  | hello agentId token now =>
      intro isAgent valid
      rcases step_eq_some stepped with ⟨step, sent⟩
      rcases step_hello step with ⟨-, hostname, connected⟩ | ⟨invalid, -⟩
      · subst isAgent
        have closed := tracks.down (closed_of_apart apart rfl)
        have identified : w'.gateway.registry.Identified := connected ▸ tracks.identified
        have known := recordFlag_of_valid valid
        rcases Option.ne_none_iff_exists'.mp known with ⟨recorded, inRecord⟩
        have reported : w'.gateway.registry.isolatedFlag agentId = some false := by
          rw [AgentRegistry.isolatedFlag_eq identified, connected]
          simp [AgentRegistry.liveFlag_connect, inRecord, closed.1]
        have same := reports false reported
        rw [sent] at same
        exact same.symm
      · rw [valid] at invalid
        cases invalid
  | disconnect number stored =>
      intro failed session found isAgent
      rcases step_eq_some stepped with ⟨step, sent⟩
      rcases step_disconnect step with ⟨other, isThere, leaving, torn⟩
      cases Option.some.inj (isThere.symm.trans found)
      have opened : OpenAt agent w.gateway.sessions number :=
        ⟨session, found, isAgent, by simp [leaving]⟩
      rcases Option.ne_none_iff_exists'.mp (tracks.up opened).2 with ⟨flag, inRecord⟩
      have identified : w'.gateway.registry.Identified :=
        torn ▸ tracks.identified.disconnect session.agentId stored
      have reported : w'.gateway.registry.isolatedFlag agent = some flag := by
        rw [AgentRegistry.isolatedFlag_eq identified, torn]
        simp [AgentRegistry.recordFlag_disconnect tracks.identified,
          AgentRegistry.liveFlag_disconnect, failed, isAgent, inRecord]
      have same := reports flag reported
      rw [sent] at same
      rw [inRecord, same]
      rfl
  | enroll | heartbeat | streamEnds | leave => trivial

/-- In a run without overlapping sessions the registry reports throughout what the agent has
sent last, exactly when the agent never connects after it has told that it is isolated, and no
failing store loses what it has told. -/
theorem reports_iff_calm (agent : String) (events : List GatewayEvent) :
    TransitionSystem.Along (next agent) (fun _ _ after => Reports agent after) start events ↔
      TransitionSystem.Along (next agent) (fun before event _ => Calm agent before event) start
        events := by
  have inside : ∀ {before after : Watched} {event : GatewayEvent},
      next agent before event = some after →
        before.Apart agent event ∧ before.step agent event = some after := by
    intro before after event stepped
    rw [next, TransitionSystem.guarded] at stepped
    split at stepped
    · next apart => exact ⟨apart, stepped⟩
    · cases stepped
  apply TransitionSystem.along_congr _ _ (Tracks agent)
  · intro before event after tracks stepped
    rcases inside stepped with ⟨apart, step⟩
    exact ⟨tracks.calm step apart, fun calm => (tracks.step step apart calm).reports⟩
  · intro before event after tracks stepped reports
    rcases inside stepped with ⟨apart, step⟩
    exact tracks.step step apart (tracks.calm step apart reports)
  · exact tracks_start

/-- An agent tells that it is isolated, loses its session and connects again. -/
def reconnected : List GatewayEvent :=
  [.enroll "agent" ⟨"host", "linux", "6", "1", "f"⟩ "secret" 1, .hello "agent" "secret" 2,
    .heartbeat 0 true 3, .streamEnds 0, .leave 0, .disconnect 0 true, .hello "agent" "secret" 4]

/-- The registry then reports a host that is not isolated. -/
theorem not_reports :
    ¬ ∀ events w, TransitionSystem.follow (next "agent") start events = some w →
      Reports "agent" w := by
  intro all
  have facts : (TransitionSystem.follow (next "agent") start reconnected).map
      (fun w => (w.gateway.registry.isolatedFlag "agent", w.sent)) = some (some false, true) := by
    decide +kernel
  rcases Option.map_eq_some_iff.mp facts with ⟨w, followed, both⟩
  rw [Prod.mk.injEq] at both
  have same := all reconnected w followed false both.1
  rw [both.2] at same
  cases same

end Watched

end Edr
end Sigil
