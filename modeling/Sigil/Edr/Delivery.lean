import Sigil.Edr.Dispatch

namespace Sigil
namespace Edr

/-!
# Commands that wait for an agent

A call that finds no sender returns and leaves the record pending.  The start of a session
takes nothing from the records, so such a command never goes out.  It is the start of a
session, and the loss of a command in a channel that was closed before the send, where the
waiting commands would have to be looked at.
-/

open Library

namespace Server

variable (s : Server) (agentId : String)

/-- A command for the agent that was issued while it was offline, is pending and has not
been handed to a session. -/
def Waits (call : Call) : Prop :=
  call.record.agentId = agentId ∧ call.offline = true ∧ call.handed = false ∧
    ((s.commands.get call.record.commandId).any fun rec => rec.status = "pending") = true

instance (call : Call) : Decidable (s.Waits agentId call) :=
  inferInstanceAs (Decidable (_ ∧ _))

/-- While the agent is connected and no call is in progress, no command waits for it. -/
def Delivered : Prop :=
  s.gateway.registry.isConnected agentId = true →
    (∀ call, call ∈ s.calls → ¬ call.InProgress) →
    ∀ call, call ∈ s.calls → ¬ s.Waits agentId call

/-- The event is a `Hello` of the agent. -/
def isHello (agentId : String) : ServerEvent → Bool
  | .session (.hello agent _ _) => agent = agentId
  | _ => false

/-- A session of the agent starts only when its earlier ones are over. -/
def NonOverlapping (s : Server) (event : ServerEvent) (_ : Server) : Prop :=
  isHello agentId event = true →
    ∀ session, session ∈ s.gateway.sessions → session.agentId = agentId →
    session.phase = .gone

instance (before : Server) (event : ServerEvent) (after : Server) :
    Decidable (NonOverlapping agentId before event after) :=
  inferInstanceAs (Decidable (_ → _))

/-- The call is about to send into a channel that has been closed. -/
def tooLate (call : Call) : Bool :=
  match call.phase with
  | .sending commandTx => s.channels[commandTx]?.any fun channel => !channel.isOpen
  | _ => false

/-- No session of the agent starts while a command waits that no call will send any more, and
no call loses the command while the agent is connected. -/
def Careful : ServerEvent → Prop
  | .session (.hello agent token _) =>
      agent = agentId → s.gateway.registry.validateSession agent token = true →
        ∀ call, call ∈ s.calls → s.Waits agentId call → call.InProgress
  | .proceed number _ =>
      ∀ call, call ∈ s.calls[number]? → s.tooLate call = true → s.Waits agentId call →
        s.gateway.registry.isConnected agentId = false
  | _ => True

instance : ∀ event, Decidable (s.Careful agentId event)
  | .session (.hello agent token _) =>
      inferInstanceAs (Decidable (agent = agentId →
        s.gateway.registry.validateSession agent token = true →
          ∀ call, call ∈ s.calls → s.Waits agentId call → call.InProgress))
  | .proceed number _ =>
      inferInstanceAs (Decidable (∀ call, call ∈ s.calls[number]? → s.tooLate call = true →
        s.Waits agentId call → s.gateway.registry.isConnected agentId = false))
  | .session (.enroll ..) => .isTrue trivial
  | .session (.heartbeat ..) => .isTrue trivial
  | .session (.streamEnds ..) => .isTrue trivial
  | .session (.leave ..) => .isTrue trivial
  | .session (.disconnect ..) => .isTrue trivial
  | .enqueue .. => .isTrue trivial
  | .forward .. => .isTrue trivial
  | .readResult .. => .isTrue trivial
  | .writeResult .. => .isTrue trivial
  | .drop .. => .isTrue trivial

variable {s s' : Server} {agentId : String}

/-! ## The invariant of careful runs -/

theorem isConnected_eq (r : AgentRegistry) (agentId : String) :
    r.isConnected agentId = (r.commandSender agentId).isSome := by
  rw [AgentRegistry.isConnected, AgentRegistry.commandSender, Option.isSome_map]

/-- An agent becomes connected by its `Hello` only. -/
theorem connected_step {g g' : Gateway} {event : GatewayEvent} (step : g.step event = some g')
    (connected : g'.registry.isConnected agentId = true) :
    g.registry.isConnected agentId = true ∨ ∃ token now, event = .hello agentId token now ∧
      g.registry.validateSession agentId token = true := by
  rw [isConnected_eq] at connected ⊢
  cases event with
  | enroll agent req sessionToken now =>
      rw [← Option.some.inj step] at connected
      exact Or.inl connected
  | hello agent token now =>
      simp only [Gateway.step] at step
      split at step
      · next valid =>
          rw [← Option.some.inj step, AgentRegistry.commandSender_connect] at connected
          by_cases same : agentId = agent
          · subst same
            exact Or.inr ⟨token, now, rfl, valid⟩
          · rw [if_neg same] at connected
            exact Or.inl connected
      · rw [← Option.some.inj step] at connected
        exact Or.inl connected
  | heartbeat number isolated now =>
      simp only [Gateway.step] at step
      split at step
      · split at step
        · rw [← Option.some.inj step, AgentRegistry.commandSender_heartbeat] at connected
          exact Or.inl connected
        · cases step
      · cases step
  | streamEnds number =>
      simp only [Gateway.step] at step
      split at step
      · rw [← Option.some.inj step] at connected
        exact Or.inl connected
      · cases step
  | leave number =>
      simp only [Gateway.step] at step
      split at step
      · split at step
        · rw [← Option.some.inj step] at connected
          exact Or.inl connected
        · cases step
      · cases step
  | disconnect number stored =>
      rcases step_disconnect step with ⟨session, _, _, rfl⟩
      rw [AgentRegistry.commandSender_disconnect] at connected
      by_cases same : agentId = session.agentId
      · rw [if_pos same] at connected
        cases connected
      · rw [if_neg same] at connected
        exact Or.inl connected

/-- The calls that may still hand over what waits for a connected agent. -/
def Attended (s : Server) (agentId : String) : Prop :=
  s.gateway.registry.isConnected agentId = true →
    ∀ call, call ∈ s.calls → s.Waits agentId call → call.InProgress

/-- A command still waits when its record has not been touched. -/
theorem Waits.of_get {call : Call}
    (same : s'.commands.get call.record.commandId = s.commands.get call.record.commandId)
    (waits : s'.Waits agentId call) : s.Waits agentId call := by
  rw [Waits, same] at waits
  exact waits

theorem not_waits_of_none {call : Call} (absent : s.commands.get call.record.commandId = none) :
    ¬ s.Waits agentId call := by
  rintro ⟨_, _, _, pending⟩
  rw [absent] at pending
  cases pending

/-- A call takes a step. -/
theorem Attended.proceed (attended : s.Attended agentId) (sound : s.Sound)
    {number : Nat} {call : Call} {progress : Progress} {stored : Bool}
    (careful : s.Careful agentId (.proceed number stored)) (found : s.calls[number]? = some call)
    (step : CallStep s call progress) :
    Attended { s with
      commands := progress.commands
      channels := progress.channels
      calls := s.calls.set number progress.call } agentId := by
  intro connected other member waits
  rcases mem_set_cases member with rfl | ⟨index, apart, present⟩
  · have isCall := List.mem_of_getElem? found
    cases step with
    | persist => exact ⟨by simp, by simp⟩
    | refusePending phase =>
        have absent := sound.unstored isCall (Or.inl phase)
        exact absurd waits (not_waits_of_none absent)
    | found => exact ⟨by simp, by simp⟩
    | absent _ offline =>
        rw [isConnected_eq, ← waits.1] at connected
        rw [offline] at connected
        cases connected
    | send => exact absurd waits.2.2.1 (by simp)
    | lose commandTx channel phase present closed =>
        have late : s.tooLate call = true := by
          rw [tooLate, phase]
          simp [present, closed]
        have offline := careful call found late waits
        rw [connected] at offline
        cases offline
    | mark phase => exact absurd (sound.marking isCall phase) (by rw [waits.2.2.1]; simp)
    | refuseSent phase => exact absurd (sound.marking isCall phase) (by rw [waits.2.2.1]; simp)
  · have kept := step.extends.1.others (sound.different found present apart)
    exact attended connected other (List.mem_of_getElem? present) (waits.of_get kept)

/-- A careful step keeps the waiting commands attended. -/
theorem Attended.step (attended : s.Attended agentId) (sound : s.Sound) {event : ServerEvent}
    (careful : s.Careful agentId event) (step : s.step event = some s') : s'.Attended agentId := by
  cases event with
  | session event =>
      rcases step_session step with ⟨gateway, channels, moved, _, rfl⟩
      intro connected
      rcases connected_step moved connected with before | ⟨token, now, rfl, valid⟩
      · exact attended before
      · exact careful rfl valid
  | enqueue agent commandType params issuedBy commandId now =>
      rcases step_enqueue step with ⟨_, _, rfl | ⟨call, _, phase, _, rfl⟩⟩
      · exact attended
      · intro connected other member waits
        rcases List.mem_append.mp member with old | new
        · exact attended connected other old waits
        · rw [List.mem_singleton.mp new, Call.InProgress, phase]
          exact ⟨by simp, by simp⟩
  | proceed number stored =>
      rcases step_proceed step with ⟨call, progress, found, moved, rfl⟩
      exact attended.proceed sound careful found moved
  | forward number =>
      rcases step_forward step with ⟨_, _, _, _, rfl⟩
      exact attended
  | readResult number result now =>
      rcases step_readResult step with ⟨_, _, rfl⟩
      exact attended
  | writeResult number stored =>
      rcases step_writeResult step with ⟨channel, rec, present, recording, rfl⟩
      intro connected call member waits
      have finished := (sound.recorded (List.mem_of_getElem? present) recording).1
      refine attended connected call member (waits.of_get ?_)
      cases stored with
      | false => rfl
      | true =>
          refine CommandTable.get_persist_of_ne s.commands fun same => ?_
          have pending := waits.2.2.2
          rw [same] at pending
          simp only [if_true, CommandTable.get_persist_self, Option.any_some,
            decide_eq_true_eq] at pending
          exact finished.not_pending pending
  | drop number =>
      rcases step_drop step with ⟨_, _, _, _, rfl⟩
      exact attended

/-- A step that is not careful leaves a command to which nobody attends. -/
theorem Attended.careful (attended : s'.Attended agentId) {event : ServerEvent}
    (step : s.step event = some s') : s.Careful agentId event := by
  cases event with
  | session event =>
      rcases step_session step with ⟨gateway, channels, moved, _, rfl⟩
      cases event with
      | hello agent token now =>
          rintro rfl valid call member waits
          rw [Gateway.step, if_pos valid, Option.some.injEq] at moved
          refine attended ?_ call member waits
          rw [isConnected_eq, ← moved]
          simp only [AgentRegistry.commandSender_connect, if_true, Option.isSome_some]
      | enroll | heartbeat | streamEnds | leave | disconnect => trivial
  | proceed number stored =>
      rintro call found late waits
      rcases step_proceed_of found step with ⟨progress, moved, isCall, rfl⟩
      cases moved with
      | lose commandTx channel phase present closed =>
          by_contra connected
          rw [Bool.not_eq_false] at connected
          exact (attended connected _ isCall waits).1 rfl
      | send commandTx channel phase present isOpen =>
          rw [tooLate, phase] at late
          simp [present, isOpen] at late
      | persist phase | refusePending phase | found _ phase | absent phase | mark phase
        | refuseSent phase =>
          rw [tooLate, phase] at late
          cases late
  | enqueue | forward | readResult | writeResult | drop => trivial

theorem attended_start (store : AList fun _ : String => AgentRecord) (commands : CommandTable)
    (agentId : String) : (start store commands).Attended agentId :=
  fun _ _ member => absurd member List.not_mem_nil

/-- The waiting commands are attended all along a run exactly when its steps are careful. -/
theorem attended_iff_careful (store : AList fun _ : String => AgentRecord) (commands : CommandTable)
    (agentId : String) (events : List ServerEvent) :
    TransitionSystem.Along step (fun _ _ after => after.Attended agentId)
      (start store commands) events ↔
      TransitionSystem.Along step (fun before event _ => before.Careful agentId event)
        (start store commands) events := by
  refine TransitionSystem.along_congr (fun _ _ (after : Server) => after.Attended agentId)
    (fun (before : Server) event _ => before.Careful agentId event)
    (fun s : Server => s.Sound ∧ s.Attended agentId) ?_ ?_
    ⟨sound_start store commands, attended_start store commands agentId⟩
  · rintro before event after ⟨sound, attended⟩ moved
    exact ⟨fun after => after.careful moved, fun careful => attended.step sound careful moved⟩
  · rintro before event after ⟨sound, _⟩ moved attended
    exact ⟨sound.step moved, attended⟩

/-- In a careful run no command that was issued while the agent was offline waits while it is
connected. -/
theorem careful_delivered (agentId : String) {s : Server}
    (run : (servers.restrict fun s event => s.Careful agentId event).Reachable s) :
    s.Delivered agentId := by
  have invariant : s.Sound ∧ s.Attended agentId := by
    refine run.invariant (fun s => s.Sound ∧ s.Attended agentId) ?_ ?_
    · rintro state ⟨store, commands, rfl⟩
      exact ⟨sound_start store commands, attended_start store commands agentId⟩
    · rintro before event after ⟨sound, attended⟩ ⟨careful, step⟩
      exact ⟨sound.step step, attended.step sound careful step⟩
  intro connected quiet call member waits
  exact quiet call member (invariant.2 connected call member waits)

/-- An agent enrolls, and a command for it is issued before it connects. -/
def issued : List ServerEvent :=
  [.session (.enroll "agent" ⟨"host", "linux", "6", "1", "f"⟩ "secret" 1),
    .enqueue "agent" "isolate" ⟨none, none, none, none, none⟩ "admin" "c-1" 2]

/-- The agent connects before the call looks for its sender. -/
def connectedInTime : List ServerEvent :=
  issued ++ [.proceed 0 true, .session (.hello "agent" "secret" 3), .proceed 0 true,
    .proceed 0 true, .proceed 0 true, .forward 0]

/-- The command goes down the stream. -/
theorem careful_delivered_inTime :
    ∃ s, TransitionSystem.follow
      (TransitionSystem.guarded (fun s event => s.Careful "agent" event) step)
        (start ∅ ⟨∅, by rintro _ _ ⟨⟩⟩) connectedInTime = some s ∧
      s.gateway.registry.isConnected "agent" = true ∧
      s.channels.map Channel.sent =
        [[{ commandId := "c-1", type := .isolateHost, isolate := some ⟨[]⟩ }]] ∧
      s.Delivered "agent" := by
  have ran : ((TransitionSystem.follow
      (TransitionSystem.guarded (fun s event => s.Careful "agent" event) step)
      (start ∅ ⟨∅, by rintro _ _ ⟨⟩⟩) connectedInTime).map fun s =>
        (s.gateway.registry.isConnected "agent", s.channels.map Channel.sent)) =
      some (true, [[{ commandId := "c-1", type := .isolateHost, isolate := some ⟨[]⟩ }]]) := by
    decide +kernel
  rcases Option.map_eq_some_iff.mp ran with ⟨s, followed, facts⟩
  rw [Prod.mk.injEq] at facts
  have reached : (servers.restrict fun s event => s.Careful "agent" event).Reaches _ s :=
    TransitionSystem.Reaches.of_guarded (fun _ _ _ step => step) followed
  exact ⟨s, followed, facts.1, facts.2,
    careful_delivered "agent" ⟨_, ⟨∅, _, rfl⟩, reached⟩⟩

/-- A command that was issued before the agent connected stays pending. -/
theorem not_delivered :
    ¬ ∀ store commands events agentId s,
      TransitionSystem.follow step (start store commands) events = some s →
        TransitionSystem.Along step (NonOverlapping agentId) (start store commands) events →
          s.Delivered agentId := by
  intro all
  let events := issued ++ [.proceed 0 true, .proceed 0 true, .session (.hello "agent" "secret" 3)]
  have ran :
      ((TransitionSystem.follow step
          (start ∅ ⟨∅, by rintro _ _ ⟨⟩⟩) events).map fun s =>
      (s.gateway.registry.isConnected "agent", decide (∀ call, call ∈ s.calls →
        ¬ call.InProgress), decide (∃ call, call ∈ s.calls ∧ s.Waits "agent" call))) =
          some (true, true, true) := by
    decide +kernel
  rcases Option.map_eq_some_iff.mp ran with ⟨s, followed, facts⟩
  simp only [Prod.mk.injEq, decide_eq_true_eq] at facts
  rcases facts with ⟨connected, quiet, call, member, waits⟩
  have apart : TransitionSystem.Along step (NonOverlapping "agent")
      (start ∅ ⟨∅, by rintro _ _ ⟨⟩⟩)
      events := by
    decide +kernel
  exact all ∅ _ events "agent" s followed apart connected quiet call member waits

end Server

end Edr
end Sigil
