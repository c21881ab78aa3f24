import Sigil.Edr.Dispatch

namespace Sigil
namespace Edr

/-!
# Results of commands

The last step of a call of `enqueue` writes the call's own copy of the record, which knows
nothing of a result that has been recorded since.  A result is recorded for the command that
it names, whoever sends it.
-/

open Library

/-! ## Finished commands -/

namespace CommandRecord

/-- The status and the result. -/
def outcome (rec : CommandRecord) :
    String × Option Bool × Option String × Option Nat × Option Int :=
  (rec.status, rec.resultOk, rec.resultMessage, rec.resultBytes, rec.completedTs)

/-- The status, the result and the time of completion already are those of a message; the size of
the payload only counts when there is one. -/
structure Says (rec : CommandRecord) (result : CommandResult) (now : Int) : Prop where
  status : rec.status = if result.ok then "completed" else "failed"
  ok : rec.resultOk = some result.ok
  message : rec.resultMessage = some result.message
  bytes : result.payload ≠ [] → rec.resultBytes = some result.payload.length
  completed : rec.completedTs = some now

theorem finish_eq_self_iff {rec : CommandRecord} {result : CommandResult} {now : Int} :
    rec.finish result now = rec ↔ rec.Says result now := by
  constructor
  · intro same
    refine ⟨?_, ?_, ?_, fun some_ => ?_, ?_⟩
    · exact (congrArg CommandRecord.status same).symm
    · exact (congrArg CommandRecord.resultOk same).symm
    · exact (congrArg CommandRecord.resultMessage same).symm
    · have bytes := (congrArg CommandRecord.resultBytes same).symm
      rwa [finish, if_neg (mt List.isEmpty_iff.mp some_)] at bytes
    · exact (congrArg CommandRecord.completedTs same).symm
  · intro known
    have bytes : (if result.payload.isEmpty then rec.resultBytes else some result.payload.length) =
        rec.resultBytes := by
      split
      · rfl
      · next some_ => exact (known.bytes (mt List.isEmpty_iff.mpr some_)).symm
    rw [finish, ← known.status, ← known.ok, ← known.message, bytes, ← known.completed]

end CommandRecord

namespace Server

variable (s : Server)

/-- A step of `enqueue`. -/
def isEnqueueStep : ServerEvent → Bool
  | .enqueue .. => true
  | .proceed .. => true
  | _ => false

/-- A step of `enqueue` keeps the status and the result of every finished command. -/
def KeepsFinished (s : Server) (event : ServerEvent) (s' : Server) : Prop :=
  isEnqueueStep event = true → ∀ commandId rec, s.commands.get commandId = some rec →
    rec.Finished →
    ∃ after, s'.commands.get commandId = some after ∧ after.outcome = rec.outcome

/-- The command has a finished record. -/
def hasResult (commandId : String) : Bool :=
  (s.commands.get commandId).any fun rec => rec.Finished

/-- The call is about to send into an open channel. -/
def inTime (call : Call) : Bool :=
  match call.phase with
  | .sending commandTx => s.channels[commandTx]?.any fun channel => channel.isOpen
  | _ => false

/-- No result is written between the send of a command and the write of its status, and no
command is sent that has a result already. -/
def InOrder : ServerEvent → Prop
  | .proceed number _ =>
      ∀ call, call ∈ s.calls[number]? → s.inTime call = true →
        s.hasResult call.record.commandId = false
  | .writeResult number stored =>
      stored = true → ∀ channel, channel ∈ s.channels[number]? → ∀ rec,
        rec ∈ channel.recording →
        ∀ call, call ∈ s.calls → call.record.commandId = rec.commandId →
        call.phase ≠ .marking
  | _ => True

instance : ∀ event, Decidable (s.InOrder event)
  | .proceed number _ =>
      inferInstanceAs (Decidable (∀ call, call ∈ s.calls[number]? → s.inTime call = true →
        s.hasResult call.record.commandId = false))
  | .writeResult number stored =>
      inferInstanceAs (Decidable (stored = true → ∀ channel, channel ∈ s.channels[number]? →
        ∀ rec, rec ∈ channel.recording → ∀ call, call ∈ s.calls →
          call.record.commandId = rec.commandId → call.phase ≠ .marking))
  | .session .. => .isTrue trivial
  | .enqueue .. => .isTrue trivial
  | .forward .. => .isTrue trivial
  | .readResult .. => .isTrue trivial
  | .drop .. => .isTrue trivial

/-- No call is about to write over a result. -/
def Unspoiled : Prop :=
  ∀ call, call ∈ s.calls → call.phase = .marking → s.hasResult call.record.commandId = false

variable {s s' : Server}

theorem hasResult_of_get {commandId : String}
    (same : s'.commands.get commandId = s.commands.get commandId) :
    s'.hasResult commandId = s.hasResult commandId := by
  rw [hasResult, hasResult, same]

theorem hasResult_of_finished {commandId : String} {rec : CommandRecord}
    (found : s.commands.get commandId = some rec) (finished : rec.Finished) :
    s.hasResult commandId = true := by
  rw [hasResult, found, Option.any_some, decide_eq_true_eq]
  exact finished

/-- A call takes a step. -/
theorem Unspoiled.proceed (unspoiled : s.Unspoiled) (sound : s.Sound) {number : Nat} {call : Call}
    {progress : Progress} {stored : Bool} (inOrder : s.InOrder (.proceed number stored))
    (found : s.calls[number]? = some call) (step : CallStep s call progress) :
    Unspoiled { s with
      commands := progress.commands
      channels := progress.channels
      calls := s.calls.set number progress.call } := by
  intro other member marking
  rcases mem_set_cases member with rfl | ⟨index, apart, present⟩
  · cases step with
    | send commandTx channel phase present isOpen =>
        refine inOrder call found ?_
        rw [inTime, phase]
        simp [present, isOpen]
    | persist | refusePending | found | absent | lose | mark | refuseSent => cases marking
  · have kept := step.extends.1.others (sound.different found present apart)
    rw [← unspoiled other (List.mem_of_getElem? present) marking]
    exact hasResult_of_get kept

/-- An orderly step leaves no call that is about to write over a result. -/
theorem Unspoiled.step (unspoiled : s.Unspoiled) (sound : s.Sound) {event : ServerEvent}
    (inOrder : s.InOrder event) (step : s.step event = some s') : s'.Unspoiled := by
  cases event with
  | session event =>
      rcases step_session step with ⟨_, _, _, _, rfl⟩
      exact unspoiled
  | enqueue agentId commandType params issuedBy commandId now =>
      rcases step_enqueue step with ⟨_, _, rfl | ⟨call, _, phase, _, rfl⟩⟩
      · exact unspoiled
      · intro other member marking
        rcases List.mem_append.mp member with old | new
        · exact unspoiled other old marking
        · rw [List.mem_singleton.mp new, phase] at marking
          cases marking
  | proceed number stored =>
      rcases step_proceed step with ⟨call, progress, found, moved, rfl⟩
      exact unspoiled.proceed sound inOrder found moved
  | forward number =>
      rcases step_forward step with ⟨_, _, _, _, rfl⟩
      exact unspoiled
  | readResult number result now =>
      rcases step_readResult step with ⟨_, _, rfl⟩
      exact unspoiled
  | writeResult number stored =>
      rcases step_writeResult step with ⟨channel, rec, present, recording, rfl⟩
      intro call member marking
      cases stored with
      | false => exact unspoiled call member marking
      | true =>
          rw [← unspoiled call member marking]
          refine hasResult_of_get (CommandTable.get_persist_of_ne s.commands fun same => ?_)
          exact inOrder rfl channel present rec recording call member same marking
  | drop number =>
      rcases step_drop step with ⟨_, _, _, _, rfl⟩
      exact unspoiled

/-- A step that is out of order leaves a call that is about to write over a result. -/
theorem Unspoiled.inOrder (unspoiled : s'.Unspoiled) (sound : s.Sound) {event : ServerEvent}
    (step : s.step event = some s') : s.InOrder event := by
  cases event with
  | proceed number stored =>
      rintro call found inTime_
      rcases step_proceed_of found step with ⟨progress, moved, isCall, rfl⟩
      cases moved with
      | send =>
          have nothing := unspoiled _ isCall rfl
          exact nothing
      | lose commandTx channel phase present closed =>
          rw [inTime, phase] at inTime_
          simp [present, closed] at inTime_
      | persist phase | refusePending phase | found _ phase | absent phase | mark phase
        | refuseSent phase =>
          rw [inTime, phase] at inTime_
          cases inTime_
  | writeResult number stored =>
      rcases step_writeResult step with ⟨channel, rec, present, recording, rfl⟩
      rintro rfl other isOther written isWritten call member same marking
      have sameChannel : channel = other := Option.some.inj (present.symm.trans isOther)
      subst sameChannel
      have sameRec : rec = written := Option.some.inj (recording.symm.trans isWritten)
      subst sameRec
      have nothing := unspoiled call member marking
      have finished := (sound.recorded (List.mem_of_getElem? present) recording).1
      have result : hasResult { s with
          commands := s.commands.persist rec
          channels :=
              s.channels.set number { channel with recording := none } } rec.commandId = true :=
        hasResult_of_finished (s.commands.get_persist_self rec) finished
      rw [← same] at result
      exact absurd (result.symm.trans nothing) (by simp)
  | session | enqueue | forward | readResult | drop => trivial

theorem unspoiled_start (store : AList fun _ : String => AgentRecord) (commands : CommandTable) :
    (start store commands).Unspoiled :=
  fun _ member => absurd member List.not_mem_nil

/-- No call is ever about to write over a result exactly when the steps of the run are in
order. -/
theorem unspoiled_iff_inOrder (store : AList fun _ : String => AgentRecord)
    (commands : CommandTable) (events : List ServerEvent) :
    TransitionSystem.Along step (fun _ _ after => after.Unspoiled) (start store commands) events ↔
      TransitionSystem.Along step (fun before event _ => before.InOrder event)
        (start store commands) events := by
  refine TransitionSystem.along_congr (fun _ _ (after : Server) => after.Unspoiled)
    (fun (before : Server) event _ => before.InOrder event)
    (fun s : Server => s.Sound ∧ s.Unspoiled)
    ?_ ?_ ⟨sound_start store commands, unspoiled_start store commands⟩
  · rintro before event after ⟨sound, unspoiled⟩ moved
    exact ⟨fun after => after.inOrder sound moved,
      fun inOrder => unspoiled.step sound inOrder moved⟩
  · rintro before event after ⟨sound, _⟩ moved unspoiled
    exact ⟨sound.step moved, unspoiled⟩

/-- In an orderly run no step of `enqueue` changes the status or the result of a finished
command. -/
theorem inOrder_keepsFinished {s s' : Server} {event : ServerEvent}
    (run : (servers.restrict InOrder).Reachable s) (step : s.step event = some s') :
    KeepsFinished s event s' := by
  have invariant : s.Sound ∧ s.Unspoiled := by
    refine run.invariant (fun s => s.Sound ∧ s.Unspoiled) ?_ ?_
    · rintro state ⟨store, commands, rfl⟩
      exact ⟨sound_start store commands, unspoiled_start store commands⟩
    · rintro before event after ⟨sound, unspoiled⟩ ⟨inOrder, step⟩
      exact ⟨sound.step step, unspoiled.step sound inOrder step⟩
  rcases invariant with ⟨sound, unspoiled⟩
  intro isEnqueue commandId rec found finished
  have result := hasResult_of_finished found finished
  cases event with
  | enqueue agentId commandType params issuedBy drawn now =>
      rcases step_enqueue step with ⟨_, _, rfl | ⟨_, _, _, _, rfl⟩⟩
      · exact ⟨rec, found, rfl⟩
      · exact ⟨rec, found, rfl⟩
  | proceed number stored =>
      rcases step_proceed step with ⟨call, progress, isCall, moved, rfl⟩
      have member := List.mem_of_getElem? isCall
      by_cases here : commandId = call.record.commandId
      · subst here
        cases moved with
        | persist phase =>
            rw [sound.unstored member (Or.inl phase)] at found
            cases found
        | mark phase => exact absurd (result.symm.trans (unspoiled call member phase)) (by simp)
        | refusePending | found | absent | send | lose | refuseSent => exact ⟨rec, found, rfl⟩
      · exact ⟨rec, (moved.extends.1.others here).trans found, rfl⟩
  | session | forward | readResult | writeResult | drop => cases isEnqueue

/-- An agent is connected and is about to answer a command that has been sent. -/
def answering : List ServerEvent :=
  [.session (.enroll "agent" ⟨"host", "linux", "6", "1", "f"⟩ "secret" 1),
    .session (.hello "agent" "secret" 2),
    .enqueue "agent" "kill" ⟨some 7, none, none, none, none⟩ "admin" "c-1" 3, .proceed 0 true,
    .proceed 0 true, .proceed 0 true, .forward 0, .readResult 0 ⟨"c-1", true, "killed", []⟩ 4]

/-- The call returns before the result is written; the next call keeps the result. -/
def answeredLate : List ServerEvent :=
  answering ++ [.proceed 0 true, .writeResult 0 true,
    .enqueue "agent" "isolate" ⟨none, none, none, none, none⟩ "admin" "c-2" 5]

theorem inOrder_keepsFinished_late :
    ∃ s s', TransitionSystem.follow (TransitionSystem.guarded InOrder step)
        (start ∅ ⟨∅, by rintro _ _ ⟨⟩⟩) answeredLate = some s ∧
      s.hasResult "c-1" = true ∧ s.step (.proceed 1 true) = some s' ∧
      KeepsFinished s (.proceed 1 true) s' := by
  have ran : ((TransitionSystem.follow (TransitionSystem.guarded InOrder step)
      (start ∅ ⟨∅, by rintro _ _ ⟨⟩⟩) answeredLate).map fun s =>
        (s.hasResult "c-1", (s.step (.proceed 1 true)).isSome)) = some (true, true) := by
    decide +kernel
  rcases Option.map_eq_some_iff.mp ran with ⟨s, followed, facts⟩
  rw [Prod.mk.injEq] at facts
  rcases Option.isSome_iff_exists.mp facts.2 with ⟨s', moved⟩
  have reached : (servers.restrict InOrder).Reaches _ s :=
    TransitionSystem.Reaches.of_guarded (fun _ _ _ step => step) followed
  exact ⟨s, s', followed, facts.1, moved,
    inOrder_keepsFinished ⟨_, ⟨∅, _, rfl⟩, reached⟩ moved⟩

/-- The result is written before the call has written the status, which then replaces it. -/
theorem not_keepsFinished :
    ¬ ∀ store commands events s,
      TransitionSystem.follow step (start store commands) events = some s →
      TransitionSystem.Along step KeepsFinished (start store commands) events := by
  intro all
  let events := answering ++ [.writeResult 0 true]
  have ran : ((TransitionSystem.follow step (start ∅ ⟨∅, by rintro _ _ ⟨⟩⟩)
      (events ++ [.proceed 0 true])).isSome) = true := by
    decide +kernel
  rcases Option.isSome_iff_exists.mp ran with ⟨s, followed⟩
  rcases (all ∅ _ _ s followed).last with ⟨before, after, path, last, keeps⟩
  have facts :
      (TransitionSystem.follow step (start ∅ ⟨∅, by rintro _ _ ⟨⟩⟩) events).bind
      (fun before => (before.step (.proceed 0 true)).map fun after =>
        ((before.commands.get "c-1").map fun rec => (rec.status, rec.resultOk),
          (after.commands.get "c-1").map CommandRecord.status)) =
      some (some ("completed", some true), some "sent") := by
    decide +kernel
  rw [path, Option.bind_some, last, Option.map_some, Option.some.injEq, Prod.mk.injEq] at facts
  rcases Option.map_eq_some_iff.mp facts.1 with ⟨rec, found, fields⟩
  rw [Prod.mk.injEq] at fields
  have finished : rec.Finished := ⟨Or.inl fields.1, by rw [fields.2]; rfl⟩
  rcases keeps rfl "c-1" rec found finished with ⟨later, isLater, same⟩
  have status : later.status = rec.status := congrArg Prod.fst same
  have lost := facts.2
  rw [isLater, Option.map_some, status, fields.1] at lost
  exact absurd lost (by decide)

/-- Reading and writing a record with nothing in between records the result. -/
theorem commands_recordResult {number : Nat} {result : CommandResult} {now : Int} {after : Server}
    (read : s.step (.readResult number result now) = some s')
    (write : s'.step (.writeResult number true) = some after) :
    after.commands = s.commands.recordResult result now := by
  rcases step_readResult read with ⟨channel, recording, rfl⟩
  rcases step_writeResult write with ⟨other, rec, present, isRec, rfl⟩
  have isOther : channel = other := by
    rcases mem_set_cases (List.mem_of_getElem? present) with same | _
    · exact same.symm
    · have bound := (List.getElem?_eq_some_iff.mp present).1
      rw [List.length_set] at bound
      exact Option.some.inj ((List.getElem?_set_self bound).symm.trans present)
  subst isOther
  rw [recording] at isRec
  rcases Option.map_eq_some_iff.mp isRec with ⟨old, found, rfl⟩
  rw [CommandTable.recordResult, found]
  rfl

end Server

/-! ## Messages of one session -/

/-- What a session receives.  The events of a batch of telemetry are of a type of their own; it
also holds what is drawn for an event when it is mapped. -/
inductive AgentMessage (EndpointEvent : Type) where
  | hello (agentId sessionToken : String)
  | heartbeat (isolated : Option Bool)
  | telemetry (events : List EndpointEvent)
  | result (result : CommandResult)
  | unset

/-- What the messages of a session change. -/
structure Reception (Event : Type) where
  registry : AgentRegistry
  commands : CommandTable
  events : List Event
  acks : List Int

section Reception

variable {EndpointEvent Event : Type}
    (toEvent : String → String → String → EndpointEvent → Event)
  (tenant agentId hostname : String)

/-- One message at some time, on the session of an agent. -/
def receive (r : Reception Event) (now : Int) : AgentMessage EndpointEvent → Reception Event
  | .heartbeat isolated =>
      { r with
        registry := r.registry.heartbeat agentId (isolated.getD false) now
        acks := r.acks ++ [now] }
  | .telemetry events =>
      { r with events := r.events ++ events.map (toEvent agentId hostname tenant) }
  | .result result => { r with commands := r.commands.recordResult result now }
  | .hello _ _ => r
  | .unset => r

/-- The messages of a session, with the times at which they are served. -/
def receiveAll (r : Reception Event) (messages : List (Int × AgentMessage EndpointEvent)) :
    Reception Event :=
  messages.foldl (fun r message => receive toEvent tenant agentId hostname r message.1 message.2) r

/-- The record of a command when it is addressed to another agent. -/
def CommandTable.foreign (commands : CommandTable) (commandId : String) : Option CommandRecord :=
  (commands.get commandId).filter fun rec => rec.agentId ≠ agentId

/-- The records of all other agents are the same. -/
def SameForeign (before after : CommandTable) : Prop :=
  ∀ commandId, after.foreign agentId commandId = before.foreign agentId commandId

/-- A result names a command of the agent, or no command, or says what the record says already. -/
def OwnResult (commands : CommandTable) (now : Int) : AgentMessage EndpointEvent → Prop
  | .result result =>
      ∀ rec, commands.get result.commandId = some rec → rec.agentId = agentId ∨
        rec.Says result now
  | _ => True

variable {toEvent : String → String → String → EndpointEvent → Event}
  {tenant agentId hostname : String}

theorem sameForeign_equivalence (agentId : String) :
    Equivalence fun before after : Reception Event =>
      SameForeign agentId before.commands after.commands where
  refl := fun _ _ => rfl
  symm := fun same commandId => (same commandId).symm
  trans := fun first second commandId => (second commandId).trans (first commandId)

/-- Recording a result leaves the records of the others alone exactly when it is an own one. -/
theorem sameForeign_recordResult_iff {commands : CommandTable}
    {result : CommandResult} {now : Int} :
    SameForeign agentId commands (commands.recordResult result now) ↔
      ∀ rec, commands.get result.commandId = some rec → rec.agentId = agentId ∨
        rec.Says result now := by
  rw [CommandTable.recordResult]
  cases found : commands.get result.commandId with
  | none => exact iff_of_true (fun _ => rfl) (by rintro rec ⟨⟩)
  | some rec =>
      have filed := CommandTable.commandId_of_get found
      constructor
      · rintro same other ⟨rfl⟩
        by_contra neither
        rw [not_or] at neither
        have here := same result.commandId
        rw [CommandTable.foreign, CommandTable.foreign, found, CommandTable.get_persist,
          if_pos (show result.commandId = (rec.finish result now).commandId from filed.symm),
          Option.filter_some_pos, Option.filter_some_pos, Option.some.injEq] at here
        · exact neither.2 (CommandRecord.finish_eq_self_iff.mp here)
        · exact decide_eq_true neither.1
        · exact decide_eq_true neither.1
      · intro own commandId
        rw [CommandTable.foreign, CommandTable.foreign, CommandTable.get_persist]
        split
        · next here =>
            have isRec : commands.get commandId = some rec := by
              rw [here, ← found, ← filed]
              rfl
            rw [isRec]
            rcases own rec rfl with mine | known
            · rw [Option.filter_some_neg, Option.filter_some_neg]
              · simp [mine]
              · simp [CommandRecord.finish, mine]
            · rw [CommandRecord.finish_eq_self_iff.mpr known]
        · rfl

/-- A message leaves the records of the others alone exactly when it is no result or an own
one. -/
theorem sameForeign_receive_iff {r : Reception Event} {now : Int}
    {message : AgentMessage EndpointEvent} :
    SameForeign agentId r.commands
      (receive toEvent tenant agentId hostname r now message).commands ↔
      OwnResult agentId r.commands now message := by
  cases message with
  | result result => exact sameForeign_recordResult_iff
  | hello | heartbeat | telemetry | unset => exact iff_of_true (fun _ => rfl) trivial

/-- Serve one message after another. -/
def receiveNext (toEvent : String → String → String → EndpointEvent → Event)
    (tenant agentId hostname : String) (r : Reception Event)
    (message : Int × AgentMessage EndpointEvent) : Option (Reception Event) :=
  some (receive toEvent tenant agentId hostname r message.1 message.2)

theorem follow_receiveNext (r : Reception Event)
    (messages : List (Int × AgentMessage EndpointEvent)) :
    TransitionSystem.follow (receiveNext toEvent tenant agentId hostname) r messages =
      some (receiveAll toEvent tenant agentId hostname r messages) := by
  induction messages generalizing r with
  | nil => rfl
  | cons message messages inductionHypothesis => exact inductionHypothesis _

end Reception

end Edr
end Sigil
