import Sigil.Edr.Registry
import Sigil.Library.Pointwise
import Sigil.Library.Transition

namespace Sigil
namespace Edr

/-!
# Control sessions of the agents

Every control stream is served by a task of its own.  The task checks the `Hello`,
connects, serves the stream in a loop and disconnects after the loop.  The loop ends
when the stream of the session ends (also when nothing can be sent on it any more), or
when the command channel is closed, which is the case as soon as the registry holds
another sender or none.  The tasks of one agent run independently, so a newer session
may start before an older one has been torn down.
-/

open Library

/-- How far the task of a session has come. -/
inductive Phase where
  | serving
  | leaving
  | gone
  deriving DecidableEq, Repr

/-- A session that has connected. -/
structure Session where
  agentId : String
  hostname : String
  streamEnded : Bool
  phase : Phase
  deriving DecidableEq, Repr

/-- The registry and the sessions in the order in which they connected. -/
structure Gateway where
  registry : AgentRegistry
  sessions : List Session

/-- What can happen next. -/
inductive GatewayEvent where
  | enroll (agentId : String) (req : EnrollRequest) (sessionToken : String) (now : Int)
  | hello (agentId token : String) (now : Int)
  | heartbeat (session : Nat) (isolated : Bool) (now : Int)
  | streamEnds (session : Nat)
  | leave (session : Nat)
  | disconnect (session : Nat) (stored : Bool)
  deriving DecidableEq, Repr

namespace Gateway

/-- A gateway that has just started: any records, nobody connected. -/
def start (store : AList fun _ : String => AgentRecord) : Gateway where
  registry := { store := store, live := ∅ }
  sessions := []

/-- The channel of a session is closed when the registry holds another sender or none. -/
def channelClosed (g : Gateway) (number : Nat) (session : Session) : Bool :=
  g.registry.commandSender session.agentId ≠ some number

/-- One event, when it is possible. -/
def step (g : Gateway) : GatewayEvent → Option Gateway
  | .enroll agentId req sessionToken now =>
      some { g with registry := g.registry.enroll agentId req sessionToken now }
  | .hello agentId token now =>
      if g.registry.validateSession agentId token then
        let hostname := ((g.registry.get agentId).map AgentView.hostname).getD ""
        some
          { registry := g.registry.connect agentId g.sessions.length now
            sessions := g.sessions ++ [{
              agentId := agentId
              hostname := hostname
              streamEnded := false
              phase := .serving }] }
      else some g
  | .heartbeat number isolated now =>
      match g.sessions[number]? with
      | some session =>
          if session.phase = .serving ∧ session.streamEnded = false then
            some { g with registry := g.registry.heartbeat session.agentId isolated now }
          else none
      | none => none
  | .streamEnds number =>
      match g.sessions[number]? with
      | some session =>
          some { g with sessions := g.sessions.set number { session with streamEnded := true } }
      | none => none
  | .leave number =>
      match g.sessions[number]? with
      | some session =>
          if session.phase = .serving ∧
              (session.streamEnded = true ∨ g.channelClosed number session = true) then
            some { g with sessions := g.sessions.set number { session with phase := .leaving } }
          else none
      | none => none
  | .disconnect number stored =>
      match g.sessions[number]? with
      | some session =>
          if session.phase = .leaving then
            some
              { registry := g.registry.disconnect session.agentId stored
                sessions := g.sessions.set number { session with phase := .gone } }
          else none
      | none => none

end Gateway

/-- The session with this number is the most recently started one of its agent. -/
def Newest (g : Gateway) (number : Nat) (session : Session) : Prop :=
  g.sessions[number]? = some session ∧
    ∀ later other, number < later → g.sessions[later]? = some other →
      other.agentId ≠ session.agentId

/-! ## What replacement promises -/

/-- After the step the registry holds the sender of the newest session of every agent
while its stream has not ended, and none once that session has been torn down; and the
end of an older session leaves the entry of the agent alone. -/
def SafeStep (before : Gateway) (event : GatewayEvent) (after : Gateway) : Prop :=
  (∀ number session, Newest after number session →
    (session.streamEnded = false →
      after.registry.commandSender session.agentId = some number) ∧
    (session.phase = .gone → after.registry.commandSender session.agentId = none)) ∧
  ∀ number stored session, event = .disconnect number stored →
    before.sessions[number]? = some session →
    (¬ Newest before number session) →
      after.registry.commandSender session.agentId =
        before.registry.commandSender session.agentId

/-- A session is torn down only when it is the newest of its agent, or when the newest
one has been torn down. -/
def Orderly (before : Gateway) (event : GatewayEvent) (_ : Gateway) : Prop :=
  ∀ number stored session, event = .disconnect number stored →
    before.sessions[number]? = some session →
    ∀ newest other, Newest before newest other → other.agentId = session.agentId →
      newest = number ∨ other.phase = .gone

/-- Every possible run of a gateway is safe in every step. -/
def SessionReplacement : Prop :=
  ∀ store events g, TransitionSystem.follow Gateway.step (Gateway.start store) events = some g →
    TransitionSystem.Along Gateway.step SafeStep (Gateway.start store) events

/-! ## The invariant of orderly runs -/

/-- The registry follows the newest session of every agent. -/
structure Follows (g : Gateway) : Prop where
  newest : ∀ {number session}, Newest g number session →
    (session.phase ≠ .gone → g.registry.commandSender session.agentId = some number) ∧
    (session.phase = .gone → g.registry.commandSender session.agentId = none) ∧
    (session.phase ≠ .serving → session.streamEnded = true)
  unknown : ∀ {agentId}, (∀ session, session ∈ g.sessions → session.agentId ≠ agentId) →
    g.registry.commandSender agentId = none

theorem follows_start (store : AList fun _ : String => AgentRecord) :
    Follows (Gateway.start store) where
  newest := fun newest => absurd newest.1 (by simp [Gateway.start])
  unknown := fun _ => rfl

/-- An agent with a session has a newest one. -/
theorem exists_newest {g : Gateway} {number : Nat} {session : Session}
    (found : g.sessions[number]? = some session) :
    ∃ newest other, number ≤ newest ∧ Newest g newest other ∧
      other.agentId = session.agentId := by
  -- the distance to the end of the list bounds the search for a later session
  induction distance :
    g.sessions.length - number using Nat.strongRecOn generalizing number session with
  | ind distance inductionHypothesis =>
      by_cases last : Newest g number session
      · exact ⟨number, session, Nat.le_refl _, last, rfl⟩
      · have later : ∃ next other, number < next ∧ g.sessions[next]? = some other ∧
            other.agentId = session.agentId := by
          by_contra none_
          refine last ⟨found, fun next other after present same => ?_⟩
          exact none_ ⟨next, other, after, present, same⟩
        rcases later with ⟨next, other, after, present, same⟩
        have bound := (List.getElem?_eq_some_iff.mp present).1
        rcases inductionHypothesis (g.sessions.length - next) (by omega) present rfl with
          ⟨newest, last', order, isNewest, sameAgent⟩
        exact ⟨newest, last', by omega, isNewest, sameAgent.trans same⟩

/-- The newest session stays the newest one when a session changes its status. -/
theorem newest_set {g : Gateway} {registry : AgentRegistry} {number : Nat}
    {session : Session} (changed : Session) (found : g.sessions[number]? = some session)
    (agentId : changed.agentId = session.agentId) {newest : Nat} {other : Session}
    (isNewest : Newest { registry := registry, sessions := g.sessions.set number changed }
      newest other) :
    (newest = number ∧ other = changed ∧ Newest g number session) ∨
      (newest ≠ number ∧ Newest g newest other) := by
  rcases isNewest with ⟨present, last⟩
  have bound := (List.getElem?_eq_some_iff.mp found).1
  have lastOld : ∀ later following, newest < later → g.sessions[later]? = some following →
      following.agentId ≠ other.agentId := by
    intro later following after old
    by_cases here : later = number
    · subst here
      have new := last later changed after (List.getElem?_set_self bound)
      rw [found, Option.some.injEq] at old
      rw [← old, ← agentId]
      exact new
    · exact last later following after ((List.getElem?_set_ne (Ne.symm here)).trans old)
  by_cases here : newest = number
  · subst here
    have equal : other = changed := by
      have new := (List.getElem?_set_self bound).symm.trans present
      exact (Option.some.inj new).symm
    subst equal
    exact Or.inl ⟨rfl, rfl, found, fun later following after old =>
      agentId ▸ lastOld later following after old⟩
  · rw [List.getElem?_set_ne (Ne.symm here)] at present
    exact Or.inr ⟨here, present, lastOld⟩

/-- A change of status hides no agent. -/
theorem absent_of_set {sessions : List Session} {number : Nat} {session : Session}
    (changed : Session) (found : sessions[number]? = some session)
    (sameAgent : changed.agentId = session.agentId) {agentId : String}
    (absent : ∀ other, other ∈ sessions.set number changed → other.agentId ≠ agentId) :
    ∀ other, other ∈ sessions → other.agentId ≠ agentId := by
  intro other member
  rcases List.getElem?_of_mem member with ⟨index, present⟩
  by_cases here : index = number
  · subst here
    have bound := (List.getElem?_eq_some_iff.mp present).1
    have same : other = session := Option.some.inj (present.symm.trans found)
    rw [same, ← sameAgent]
    exact absent changed (List.mem_of_getElem? (List.getElem?_set_self bound))
  · exact absent other (List.mem_of_getElem?
      ((List.getElem?_set_ne (Ne.symm here)).trans present))

/-- A session changes its status and the registry stays. -/
theorem Follows.set {g : Gateway} (follows : Follows g) {number : Nat}
    {session changed : Session} (found : g.sessions[number]? = some session)
    (agentId : changed.agentId = session.agentId)
    (gone : changed.phase = .gone ↔ session.phase = .gone)
    (ended : Newest g number session → changed.phase ≠ .serving →
      changed.streamEnded = true) :
    Follows { g with sessions := g.sessions.set number changed } where
  newest := by
    intro newest other isNewest
    rcases newest_set changed found agentId isNewest with
      ⟨rfl, rfl, wasNewest⟩ | ⟨_, wasNewest⟩
    · have facts := follows.newest wasNewest
      rw [agentId]
      exact ⟨fun phase => facts.1 (fun old => phase (gone.mpr old)),
        fun phase => facts.2.1 (gone.mp phase), ended wasNewest⟩
    · exact follows.newest wasNewest
  unknown := by
    intro agent absent
    exact follows.unknown (absent_of_set changed found agentId absent)

/-- A session connects. -/
theorem Follows.connect {g : Gateway} (follows : Follows g) (fresh : Session)
    (serving : fresh.phase = .serving) (now : Int) :
    Follows
      { registry := g.registry.connect fresh.agentId g.sessions.length now
        sessions := g.sessions ++ [fresh] } where
  newest := by
    rintro newest other ⟨present, last⟩
    simp only [AgentRegistry.commandSender_connect]
    rcases Pointwise.getElem?_concat_cases present with ⟨inside, old⟩ | ⟨rfl, rfl⟩
    · have different : fresh.agentId ≠ other.agentId :=
        last g.sessions.length fresh inside List.getElem?_concat_length
      simp only [if_neg (Ne.symm different)]
      refine follows.newest ⟨old, fun later following after found => ?_⟩
      have bound := (List.getElem?_eq_some_iff.mp found).1
      exact last later following after ((List.getElem?_append_left bound).trans found)
    · simp only [if_true]
      exact ⟨fun _ => trivial, fun gone => absurd (serving.symm.trans gone) (by simp),
        fun left => absurd serving left⟩
  unknown := by
    intro agentId absent
    have different : agentId ≠ fresh.agentId :=
      Ne.symm (absent fresh (List.mem_append_right _ (List.mem_singleton.mpr rfl)))
    simp only [AgentRegistry.commandSender_connect, if_neg different]
    exact follows.unknown fun session member => absent session (List.mem_append_left _ member)

/-- A session is torn down while it is the newest one, or after the newest one. -/
theorem Follows.disconnect {g : Gateway} (follows : Follows g) {number : Nat} (stored : Bool)
    {session : Session} (found : g.sessions[number]? = some session)
    (leaving : session.phase = .leaving)
    (orderly : ∀ newest other, Newest g newest other → other.agentId = session.agentId →
      newest = number ∨ other.phase = .gone) :
    Follows
      { registry := g.registry.disconnect session.agentId stored
        sessions := g.sessions.set number { session with phase := .gone } } where
  newest := by
    intro newest other isNewest
    simp only [AgentRegistry.commandSender_disconnect]
    rcases newest_set { session with phase := .gone } found rfl isNewest with
      ⟨rfl, rfl, wasNewest⟩ | ⟨different, wasNewest⟩
    · have ended := (follows.newest wasNewest).2.2 (by rw [leaving]; simp)
      exact ⟨fun notGone => absurd rfl notGone, fun _ => if_pos rfl, fun _ => ended⟩
    · have facts := follows.newest wasNewest
      by_cases same : other.agentId = session.agentId
      · have gone := (orderly newest other wasNewest same).resolve_left different
        rw [if_pos same]
        exact ⟨fun notGone => absurd gone notGone, fun _ => rfl, facts.2.2⟩
      · simp only [if_neg same]
        exact facts
  unknown := by
    intro agentId absent
    simp only [AgentRegistry.commandSender_disconnect]
    split
    · rfl
    · exact follows.unknown
        (absent_of_set { session with phase := .gone } found rfl absent)

/-- Registry updates that keep the senders keep the invariant. -/
theorem Follows.congr {g : Gateway} (follows : Follows g) {registry : AgentRegistry}
    (same : ∀ agentId, registry.commandSender agentId = g.registry.commandSender agentId) :
    Follows { g with registry := registry } where
  newest := by
    intro number session newest
    simp only [same]
    exact follows.newest newest
  unknown := fun absent => (same _).trans (follows.unknown absent)

/-! ## Steps and runs -/

/-- What a disconnect step does. -/
theorem step_disconnect {g g' : Gateway} {number : Nat} {stored : Bool}
    (step : g.step (.disconnect number stored) = some g') :
    ∃ session, g.sessions[number]? = some session ∧ session.phase = .leaving ∧ g' =
      { registry := g.registry.disconnect session.agentId stored
        sessions := g.sessions.set number { session with phase := .gone } } := by
  simp only [Gateway.step] at step
  split at step
  · next session found =>
      split at step
      · next leaving => exact ⟨session, found, leaving, (Option.some.inj step).symm⟩
      · exact absurd step (by simp)
  · exact absurd step (by simp)

theorem Follows.step {g g' : Gateway} (follows : Follows g) {event : GatewayEvent}
    (step : g.step event = some g') (orderly : Orderly g event g') : Follows g' := by
  cases event with
  | enroll agentId req sessionToken now =>
      rw [← Option.some.inj step]
      exact follows.congr fun _ => rfl
  | hello agentId token now =>
      simp only [Gateway.step] at step
      split at step
      · rw [← Option.some.inj step]
        exact follows.connect ⟨agentId, _, false, .serving⟩ rfl now
      · rw [← Option.some.inj step]
        exact follows
  | heartbeat number isolated now =>
      simp only [Gateway.step] at step
      split at step
      · split at step
        · rw [← Option.some.inj step]
          exact follows.congr fun _ => AgentRegistry.commandSender_heartbeat _ _ _ _ _
        · exact absurd step (by simp)
      · exact absurd step (by simp)
  | streamEnds number =>
      simp only [Gateway.step] at step
      split at step
      · next session found =>
          rw [← Option.some.inj step]
          exact follows.set found rfl Iff.rfl fun _ _ => rfl
      · exact absurd step (by simp)
  | leave number =>
      simp only [Gateway.step] at step
      split at step
      · next session found =>
          split at step
          · next why =>
              rw [← Option.some.inj step]
              refine follows.set found rfl ?_ fun newest _ => ?_
              · rw [why.1]
                exact ⟨fun gone => absurd gone (by simp), fun gone => absurd gone (by simp)⟩
              · -- the channel of the newest session is open, so its stream has ended
                rcases why.2 with ended | closed
                · exact ended
                · have sender := (follows.newest newest).1 (by rw [why.1]; simp)
                  rw [Gateway.channelClosed, decide_eq_true_eq] at closed
                  exact absurd sender closed
          · exact absurd step (by simp)
      · exact absurd step (by simp)
  | disconnect number stored =>
      rcases step_disconnect step with ⟨session, found, leaving, rfl⟩
      exact follows.disconnect stored found leaving (orderly number stored session rfl found)

/-- The invariant gives what the registry promises about the newest sessions. -/
theorem Follows.promise {g : Gateway} (follows : Follows g) {number : Nat} {session : Session}
    (newest : Newest g number session) :
    (session.streamEnded = false →
      g.registry.commandSender session.agentId = some number) ∧
    (session.phase = .gone → g.registry.commandSender session.agentId = none) := by
  have facts := follows.newest newest
  refine ⟨fun open_ => facts.1 fun gone => ?_, facts.2.1⟩
  have ended := facts.2.2 (by rw [gone]; simp)
  exact absurd (open_.symm.trans ended) Bool.false_ne_true

theorem safe_iff_orderly {g g' : Gateway} (follows : Follows g) {event : GatewayEvent}
    (step : g.step event = some g') : SafeStep g event g' ↔ Orderly g event g' := by
  constructor
  · rintro safe number stored session rfl found newest other isNewest sameAgent
    rcases step_disconnect step with ⟨session', found', _, rfl⟩
    have same : session' = session := Option.some.inj (found'.symm.trans found)
    subst same
    by_contra neither
    rw [not_or] at neither
    have notNewest : ¬ Newest g number session' := by
      intro alsoNewest
      rcases Nat.lt_or_gt_of_ne neither.1 with below | above
      · exact isNewest.2 number session' below found sameAgent.symm
      · exact alsoNewest.2 newest other above isNewest.1 sameAgent
    -- the entry of the newest session is gone with the older one
    have kept := safe.2 number stored session' rfl found notNewest
    rw [AgentRegistry.commandSender_disconnect, if_pos rfl] at kept
    have sender := (follows.newest isNewest).1 neither.2
    rw [sameAgent, ← kept] at sender
    exact absurd sender (by simp)
  · intro orderly
    refine ⟨fun number session newest => (follows.step step orderly).promise newest, ?_⟩
    rintro number stored session rfl found notNewest
    rcases step_disconnect step with ⟨session', found', _, rfl⟩
    have same : session' = session := Option.some.inj (found'.symm.trans found)
    subst same
    rcases exists_newest found with ⟨newest, other, _, isNewest, sameAgent⟩
    have gone :=
      (orderly number stored session' rfl found newest other isNewest sameAgent).resolve_left
      fun equal => by
        subst equal
        exact notNewest (Option.some.inj (isNewest.1.symm.trans found) ▸ isNewest)
    have absent := (follows.newest isNewest).2.1 gone
    rw [AgentRegistry.commandSender_disconnect, if_pos rfl, ← sameAgent, absent]

/-- A run is safe in every step exactly when its sessions are torn down in order. -/
theorem sessions_safe_iff_orderly (store : AList fun _ : String => AgentRecord)
    (events : List GatewayEvent) :
    TransitionSystem.Along Gateway.step SafeStep (Gateway.start store) events ↔
      TransitionSystem.Along Gateway.step Orderly (Gateway.start store) events :=
  TransitionSystem.along_congr SafeStep Orderly Follows
    (fun _ _ _ follows step => safe_iff_orderly follows step)
    (fun _ _ _ follows step safe => follows.step step ((safe_iff_orderly follows step).mp safe))
    (follows_start store)

/-- An agent enrolls and connects twice, and the first session leaves its loop because its
channel has been replaced. -/
def replaced : List GatewayEvent :=
  [.enroll "agent" ⟨"host", "linux", "6", "1", "f"⟩ "secret" 1, .hello "agent" "secret" 2,
    .hello "agent" "secret" 3, .leave 0]

/-- The teardown of the first session then removes the entry of the second one, whose
stream has not ended. -/
theorem not_sessionReplacement : ¬ SessionReplacement := by
  intro safe
  have ran : (TransitionSystem.follow Gateway.step (Gateway.start ∅)
      (replaced ++ [.disconnect 0 true])).isSome = true := by
    decide +kernel
  rcases Option.isSome_iff_exists.mp ran with ⟨g, followed⟩
  rcases (safe ∅ _ g followed).last with ⟨before, after, path, last, safeStep⟩
  have facts : (TransitionSystem.follow Gateway.step (Gateway.start ∅) replaced).bind
      (fun before => (before.step (.disconnect 0 true)).map fun after =>
        (after.sessions, after.registry.commandSender "agent")) =
          some ([⟨"agent", "host", false, .gone⟩,
              ⟨"agent", "host", false, .serving⟩], none) := by
    decide +kernel
  rw [path, Option.bind_some, last, Option.map_some, Option.some.injEq, Prod.mk.injEq] at facts
  have newest : Newest after 1 ⟨"agent", "host", false, .serving⟩ := by
    refine ⟨by rw [facts.1]; rfl, fun later other above present => ?_⟩
    have bound := (List.getElem?_eq_some_iff.mp present).1
    rw [facts.1] at bound
    exact absurd bound (Nat.not_lt_of_le above)
  have sender := (safeStep.1 1 _ newest).1 rfl
  exact absurd (facts.2.symm.trans sender) (by simp)

end Edr
end Sigil
