import Sigil.Edr.Gateway
import Sigil.Edr.Queue

namespace Sigil
namespace Edr

/-!
# Calls of the queue among the sessions

A call of `enqueue` takes four steps: it persists the record as pending, looks for the
sender of the agent, sends, and persists the record as sent.  Results are recorded by the
tasks of the sessions, which read the record and write it back.  All of these steps and
those of the sessions happen in any order.
-/

open Library

/-- How far a call has come.  It is over when it has returned or the store has refused a
write. -/
inductive CallPhase where
  | persisting
  | looking
  | sending (commandTx : Nat)
  | marking
  | returned
  | refused
  deriving DecidableEq, Repr

/-- A call of `enqueue` with its own copy of the record.  The last two fields are not part
of the program: whether the agent was offline when the call was made, and whether a session
has taken the command. -/
structure Call where
  record : CommandRecord
  ctype : CommandType
  phase : CallPhase
  offline : Bool
  handed : Bool
  deriving DecidableEq, Repr

def Call.InProgress (call : Call) : Prop :=
  call.phase ≠ .returned ∧ call.phase ≠ .refused

instance (call : Call) : Decidable call.InProgress :=
  inferInstanceAs (Decidable (_ ∧ _))

/-- The command channel of a session, what has gone down its stream, and the record that
its task is about to write. -/
structure Channel where
  waiting : List Command
  sent : List Command
  isOpen : Bool
  recording : Option CommandRecord
  deriving DecidableEq, Repr

/-- The room of a command channel. -/
def channelCapacity : Nat := 64

/-- The sessions with their channels, by the same numbers, the records and the calls. -/
structure Server where
  gateway : Gateway
  channels : List Channel
  commands : CommandTable
  calls : List Call

/-- What can happen next.  Where a step writes a record, `stored` says whether the store
takes it. -/
inductive ServerEvent where
  | session (event : GatewayEvent)
  | enqueue (agentId commandType : String) (params : CommandParams) (issuedBy commandId : String)
      (now : Int)
  | proceed (number : Nat) (stored : Bool)
  | forward (session : Nat)
  | readResult (session : Nat) (result : CommandResult) (now : Int)
  | writeResult (session : Nat) (stored : Bool)
  | drop (session : Nat)
  deriving DecidableEq, Repr

/-- What a step of a call leaves. -/
structure Progress where
  commands : CommandTable
  channels : List Channel
  call : Call

namespace Server

variable (s : Server)

/-- A server that has just started. -/
def start (store : AList fun _ : String => AgentRecord) (commands : CommandTable) : Server where
  gateway := Gateway.start store
  channels := []
  commands := commands
  calls := []

/-- The task of the session waits for a message or a command. -/
def idle (number : Nat) : Bool :=
  s.channels[number]?.any fun channel => channel.recording.isNone

/-- Nothing is left in the channel and nobody is about to send. -/
def drained (number : Nat) : Bool :=
  (s.channels[number]?.any fun channel => channel.waiting.isEmpty) &&
    s.calls.all fun call => call.phase ≠ .sending number

/-- The task can take the step: it waits, and it leaves with an open stream only when the
channel has nothing more to give. -/
def ready : GatewayEvent → Bool
  | .heartbeat number _ _ => s.idle number
  | .leave number =>
      s.idle number &&
        ((s.gateway.sessions[number]?.any fun session => session.streamEnded) || s.drained number)
  | _ => true

/-- A session connects. -/
def connects : GatewayEvent → Bool
  | .hello agentId token _ => s.gateway.registry.validateSession agentId token
  | _ => false

/-- The next step of a call. -/
def callStep (call : Call) (stored : Bool) : Option Progress :=
  match call.phase with
  | .persisting =>
      if stored then
        some ⟨s.commands.persist call.record, s.channels, { call with phase := .looking }⟩
      else some ⟨s.commands, s.channels, { call with phase := .refused }⟩
  | .looking =>
      match s.gateway.registry.commandSender call.record.agentId with
      | some commandTx =>
          some ⟨s.commands, s.channels, { call with phase := .sending commandTx }⟩
      | none => some ⟨s.commands, s.channels, { call with phase := .returned }⟩
  | .sending commandTx =>
      match s.channels[commandTx]? with
      | some channel =>
          if channel.isOpen then
            if channel.waiting.length < channelCapacity then
              let cmd := buildCommand call.record.commandId call.ctype call.record.params
              some ⟨s.commands,
                s.channels.set commandTx { channel with waiting := channel.waiting ++ [cmd] },
                { call with phase := .marking, handed := true }⟩
            else none
          else some ⟨s.commands, s.channels, { call with phase := .returned }⟩
      | none => none
  | .marking =>
      let record := { call.record with status := "sent" }
      if stored then
        some ⟨s.commands.persist record, s.channels,
          { call with record := record, phase := .returned }⟩
      else some ⟨s.commands, s.channels, { call with record := record, phase := .refused }⟩
  | .returned => none
  | .refused => none

/-- A session whose task reads its stream. -/
def listening (number : Nat) : Bool :=
  (s.gateway.sessions[number]?.any fun session =>
    session.phase = .serving && !session.streamEnded) && s.idle number

/-- One event, when it is possible.  The identifiers of commands are drawn afresh. -/
def step : ServerEvent → Option Server
  | .session event =>
      if s.ready event then
        (s.gateway.step event).map fun gateway =>
          { s with
            gateway := gateway
            channels :=
              if s.connects event then s.channels ++ [⟨[], [], true, none⟩] else s.channels }
      else none
  | .enqueue agentId commandType params issuedBy commandId now =>
      if s.commands.get commandId = none ∧
        ∀ call, call ∈ s.calls → call.record.commandId ≠ commandId then
        match parseCommandType commandType with
        | .error _ => some s
        | .ok ctype =>
            some
              { s with
                calls := s.calls ++ [{
                  record := CommandRecord.issue commandId agentId commandType params issuedBy now
                  ctype := ctype
                  phase := .persisting
                  offline := !s.gateway.registry.isConnected agentId
                  handed := false }] }
      else none
  | .proceed number stored =>
      match s.calls[number]? with
      | some call =>
          (s.callStep call stored).map fun progress =>
            { s with
              commands := progress.commands
              channels := progress.channels
              calls := s.calls.set number progress.call }
      | none => none
  | .forward number =>
      match s.channels[number]? with
      | some channel =>
          match channel.waiting with
          | cmd :: waiting =>
              if s.listening number then
                some
                  { s with
                    channels :=
                      s.channels.set number
                        { channel with waiting := waiting, sent := channel.sent ++ [cmd] } }
              else none
          | [] => none
      | none => none
  | .readResult number result now =>
      match s.channels[number]? with
      | some channel =>
          if s.listening number then
            let recording := (s.commands.get result.commandId).map fun rec => rec.finish result now
            some { s with channels := s.channels.set number { channel with
              recording := recording } }
          else none
      | none => none
  | .writeResult number stored =>
      match s.channels[number]? with
      | some channel =>
          channel.recording.map fun rec =>
            { s with
              commands := if stored then s.commands.persist rec else s.commands
              channels := s.channels.set number { channel with recording := none } }
      | none => none
  | .drop number =>
      match s.channels[number]?, s.gateway.sessions[number]? with
      | some channel, some session =>
          if session.phase = .gone then
            some { s with channels := s.channels.set number { channel with isOpen := false } }
          else none
      | _, _ => none

end Server

/-- All runs of a server. -/
def servers : TransitionSystem Server ServerEvent where
  init := fun s => ∃ store commands, s = Server.start store commands
  step := fun before event after => before.step event = some after

namespace Server

/-! ## What a step can do -/

/-- The steps of a call. -/
inductive CallStep (s : Server) (call : Call) : Progress → Prop where
  | persist (phase : call.phase = .persisting) :
      CallStep s call
        ⟨s.commands.persist call.record, s.channels, { call with phase := .looking }⟩
  | refusePending (phase : call.phase = .persisting) :
      CallStep s call ⟨s.commands, s.channels, { call with phase := .refused }⟩
  | found (commandTx : Nat) (phase : call.phase = .looking) :
      CallStep s call ⟨s.commands, s.channels, { call with phase := .sending commandTx }⟩
  | absent (phase : call.phase = .looking)
      (offline : s.gateway.registry.commandSender call.record.agentId = none) :
      CallStep s call ⟨s.commands, s.channels, { call with phase := .returned }⟩
  | send (commandTx : Nat) (channel : Channel) (phase : call.phase = .sending commandTx)
      (present : s.channels[commandTx]? = some channel) (isOpen : channel.isOpen = true)
      (waiting : List Command) :
      CallStep s call
        ⟨s.commands, s.channels.set commandTx { channel with waiting := waiting },
          { call with phase := .marking, handed := true }⟩
  | lose (commandTx : Nat) (channel : Channel) (phase : call.phase = .sending commandTx)
      (present : s.channels[commandTx]? = some channel) (closed : channel.isOpen = false) :
      CallStep s call ⟨s.commands, s.channels, { call with phase := .returned }⟩
  | mark (phase : call.phase = .marking) :
      CallStep s call
        ⟨s.commands.persist { call.record with status := "sent" }, s.channels,
          { call with record := { call.record with status := "sent" }, phase := .returned }⟩
  | refuseSent (phase : call.phase = .marking) :
      CallStep s call
        ⟨s.commands, s.channels,
          { call with record := { call.record with status := "sent" }, phase := .refused }⟩

variable {s s' : Server}

theorem callStep_cases {call : Call} {stored : Bool} {progress : Progress}
    (step : s.callStep call stored = some progress) : CallStep s call progress := by
  rw [callStep] at step
  split at step
  · next phase =>
      split at step
      · exact Option.some.inj step ▸ .persist phase
      · exact Option.some.inj step ▸ .refusePending phase
  · next phase =>
      split at step
      · next commandTx _ => exact Option.some.inj step ▸ .found commandTx phase
      · next offline => exact Option.some.inj step ▸ .absent phase offline
  · next commandTx phase =>
      split at step
      · next channel present =>
          split at step
          · next isOpen =>
              split at step
              · exact Option.some.inj step ▸ .send commandTx channel phase present isOpen _
              · cases step
          · next closed =>
              exact Option.some.inj step ▸ .lose commandTx channel phase present
                (by simpa using closed)
      · cases step
  · next phase =>
      dsimp only at step
      split at step
      · exact Option.some.inj step ▸ .mark phase
      · exact Option.some.inj step ▸ .refuseSent phase
  · cases step
  · cases step

theorem step_session {event : GatewayEvent} (step : s.step (.session event) = some s') :
    ∃ gateway channels, s.gateway.step event = some gateway ∧
      (∀ channel, channel ∈ channels → channel ∈ s.channels ∨
        channel.recording = none) ∧
      s' = { s with gateway := gateway, channels := channels } := by
  rw [Server.step] at step
  split at step
  · rcases Option.map_eq_some_iff.mp step with ⟨gateway, moved, rfl⟩
    refine ⟨gateway, _, moved, ?_, rfl⟩
    intro channel member
    split at member
    · rcases List.mem_append.mp member with old | new
      · exact Or.inl old
      · rw [List.mem_singleton.mp new]
        exact Or.inr rfl
    · exact Or.inl member
  · cases step

theorem step_enqueue {agentId commandType issuedBy commandId : String} {params : CommandParams}
    {now : Int}
    (step : s.step (.enqueue agentId commandType params issuedBy commandId now) = some s') :
    s.commands.get commandId = none ∧
      (∀ call, call ∈ s.calls → call.record.commandId ≠ commandId) ∧
      (s' = s ∨ ∃ call : Call, call.record.commandId = commandId ∧
        call.phase = .persisting ∧
        call.handed = false ∧ s' = { s with calls := s.calls ++ [call] }) := by
  rw [Server.step] at step
  split at step
  · next fresh =>
      refine ⟨fresh.1, fresh.2, ?_⟩
      split at step
      · exact Or.inl (Option.some.inj step).symm
      · exact Or.inr ⟨_, rfl, rfl, rfl, (Option.some.inj step).symm⟩
  · cases step

theorem step_proceed {number : Nat} {stored : Bool}
    (step : s.step (.proceed number stored) = some s') :
    ∃ call progress, s.calls[number]? = some call ∧ CallStep s call progress ∧
      s' = { s with
        commands := progress.commands
        channels := progress.channels
        calls := s.calls.set number progress.call } := by
  rw [Server.step] at step
  split at step
  · next call present =>
      rcases Option.map_eq_some_iff.mp step with ⟨progress, moved, rfl⟩
      exact ⟨call, progress, present, callStep_cases moved, rfl⟩
  · cases step

/-- The step of a known call, which is among the calls afterwards as the step leaves it. -/
theorem step_proceed_of {number : Nat} {stored : Bool} {call : Call}
    (found : s.calls[number]? = some call) (step : s.step (.proceed number stored) = some s') :
    ∃ progress, CallStep s call progress ∧ progress.call ∈ s'.calls ∧
      s' = { s with
        commands := progress.commands
        channels := progress.channels
        calls := s.calls.set number progress.call } := by
  rcases step_proceed step with ⟨other, progress, isOther, moved, rfl⟩
  have same : other = call := Option.some.inj (isOther.symm.trans found)
  subst same
  have bound := (List.getElem?_eq_some_iff.mp found).1
  exact ⟨progress, moved, List.mem_of_getElem? (List.getElem?_set_self bound), rfl⟩

/-- A channel is replaced; `recording` is what its task is about to write then. -/
def Rechannelled (s s' : Server) (number : Nat) (recording : Option CommandRecord) : Prop :=
  ∃ channel, channel.recording = recording ∧
    s' = { s with channels := s.channels.set number channel }

theorem step_forward {number : Nat} (step : s.step (.forward number) = some s') :
    ∃ channel, s.channels[number]? = some channel ∧
      Rechannelled s s' number channel.recording := by
  rw [Server.step] at step
  split at step
  · next channel present =>
      split at step
      · next cmd waiting _ =>
          split at step
          · exact ⟨channel, present,
              { channel with waiting := waiting, sent := channel.sent ++ [cmd] }, rfl,
              (Option.some.inj step).symm⟩
          · cases step
      · cases step
  · cases step

theorem step_readResult {number : Nat} {result : CommandResult} {now : Int}
    (step : s.step (.readResult number result now) = some s') :
    Rechannelled s s' number ((s.commands.get result.commandId).map fun rec =>
      rec.finish result now) := by
  rw [Server.step] at step
  split at step
  · split at step
    · exact ⟨_, rfl, (Option.some.inj step).symm⟩
    · cases step
  · cases step

theorem step_writeResult {number : Nat} {stored : Bool}
    (step : s.step (.writeResult number stored) = some s') :
    ∃ channel rec, s.channels[number]? = some channel ∧ channel.recording = some rec ∧
      s' = { s with
        commands := if stored then s.commands.persist rec else s.commands
        channels := s.channels.set number { channel with recording := none } } := by
  rw [Server.step] at step
  split at step
  · next channel present =>
      rcases Option.map_eq_some_iff.mp step with ⟨rec, recording, rfl⟩
      exact ⟨channel, rec, present, recording, rfl⟩
  · cases step

theorem step_drop {number : Nat} (step : s.step (.drop number) = some s') :
    ∃ channel, s.channels[number]? = some channel ∧
      Rechannelled s s' number channel.recording := by
  rw [Server.step] at step
  split at step
  · next channel session present _ =>
      split at step
      · exact ⟨channel, present, { channel with isOpen := false }, rfl,
          (Option.some.inj step).symm⟩
      · cases step
  · cases step

/-! ## The invariant of all runs -/

/-- Every call has a command of its own; what is not stored yet is not in the table; and
only finished records of commands in the table are about to be written. -/
structure Sound (s : Server) : Prop where
  distinct : (s.calls.map fun call => call.record.commandId).Nodup
  unstored : ∀ {call}, call ∈ s.calls →
    call.phase = .persisting ∨ call.phase = .refused ∧ call.handed = false →
      s.commands.get call.record.commandId = none
  marking : ∀ {call}, call ∈ s.calls → call.phase = .marking → call.handed = true
  recorded : ∀ {channel rec}, channel ∈ s.channels → channel.recording = some rec →
    rec.Finished ∧ (s.commands.get rec.commandId).isSome = true

theorem sound_start (store : AList fun _ : String => AgentRecord) (commands : CommandTable) :
    (start store commands).Sound where
  distinct := List.nodup_nil
  unstored := fun member => absurd member List.not_mem_nil
  marking := fun member => absurd member List.not_mem_nil
  recorded := fun member => absurd member List.not_mem_nil

/-- A member of a changed list is the new one or an old one at another place. -/
theorem mem_set_cases {α : Type} {list : List α} {number : Nat} {new x : α}
    (member : x ∈ list.set number new) :
    x = new ∨ ∃ other, other ≠ number ∧ list[other]? = some x := by
  rcases List.getElem?_of_mem member with ⟨other, present⟩
  by_cases same : other = number
  · subst same
    have bound := (List.getElem?_eq_some_iff.mp present).1
    rw [List.length_set] at bound
    rw [List.getElem?_set_self bound, Option.some.injEq] at present
    exact Or.inl present.symm
  · rw [List.getElem?_set_ne (Ne.symm same)] at present
    exact Or.inr ⟨other, same, present⟩

/-- Calls at different places have different commands. -/
theorem Sound.different (sound : s.Sound) {first second : Nat} {call other : Call}
    (found : s.calls[first]? = some call) (present : s.calls[second]? = some other)
    (apart : second ≠ first) : other.record.commandId ≠ call.record.commandId := by
  intro same
  have bound := (List.getElem?_eq_some_iff.mp present).1
  refine apart ((List.getElem?_inj (by rw [List.length_map]; exact bound) sound.distinct).mp ?_)
  rw [List.getElem?_map, List.getElem?_map, found, present, Option.map_some, Option.map_some, same]

/-- Commands and channels that may take the place of those of a sound server: the records of
the other calls are the same, no record is lost, and nothing new is about to be written. -/
structure Extends (s : Server) (commandId : String) (commands : CommandTable)
    (channels : List Channel) : Prop where
  others : ∀ {other}, other ≠ commandId → commands.get other = s.commands.get other
  kept : (s.commands.get commandId).isSome = true → (commands.get commandId).isSome = true
  recordings : ∀ {channel}, channel ∈ channels →
    ∃ old, old ∈ s.channels ∧ channel.recording = old.recording

theorem Extends.same (s : Server) (commandId : String) :
    Extends s commandId s.commands s.channels where
  others := fun _ => rfl
  kept := id
  recordings := fun {channel} member => ⟨channel, member, rfl⟩

theorem Extends.persist (s : Server) (rec : CommandRecord) :
    Extends s rec.commandId (s.commands.persist rec) s.channels where
  others := fun different => CommandTable.get_persist_of_ne _ different
  kept := fun _ => by rw [CommandTable.get_persist_self, Option.isSome_some]
  recordings := fun {channel} member => ⟨channel, member, rfl⟩

theorem Extends.set {commandTx : Nat} {channel : Channel}
    (present : s.channels[commandTx]? = some channel) (changed : Channel)
    (recording : changed.recording = channel.recording) (commandId : String) :
    Extends s commandId s.commands (s.channels.set commandTx changed) where
  others := fun _ => rfl
  kept := id
  recordings := by
    intro other member
    rcases List.mem_or_eq_of_mem_set member with old | rfl
    · exact ⟨other, old, rfl⟩
    · exact ⟨channel, List.mem_of_getElem? present, recording⟩

/-- What a step of a call leaves. -/
theorem CallStep.extends {call : Call} {progress : Progress} (step : CallStep s call progress) :
    Extends s call.record.commandId progress.commands progress.channels ∧
      progress.call.record.commandId = call.record.commandId := by
  cases step with
  | persist => exact ⟨Extends.persist s call.record, rfl⟩
  | refusePending => exact ⟨Extends.same s _, rfl⟩
  | found => exact ⟨Extends.same s _, rfl⟩
  | absent => exact ⟨Extends.same s _, rfl⟩
  | send commandTx channel _ present _ waiting =>
      exact ⟨Extends.set present { channel with waiting := waiting } rfl _, rfl⟩
  | lose => exact ⟨Extends.same s _, rfl⟩
  | mark => exact ⟨Extends.persist s { call.record with status := "sent" }, rfl⟩
  | refuseSent => exact ⟨Extends.same s _, rfl⟩

theorem Sound.proceed (sound : s.Sound) {number : Nat} {call : Call} {progress : Progress}
    (found : s.calls[number]? = some call) (step : CallStep s call progress) :
    Sound { s with
      commands := progress.commands
      channels := progress.channels
      calls := s.calls.set number progress.call } where
  distinct := by
    have same : (s.calls.set number progress.call).map (fun call => call.record.commandId) =
        s.calls.map fun call => call.record.commandId := by
      rw [List.map_set, step.extends.2]
      refine List.ext_getElem? fun index => ?_
      by_cases here : number = index
      · subst here
        have bound := (List.getElem?_eq_some_iff.mp found).1
        rw [List.getElem?_set_self (by rw [List.length_map]; exact bound), List.getElem?_map, found,
          Option.map_some]
      · rw [List.getElem?_set_ne here]
    exact same ▸ sound.distinct
  unstored := by
    intro other member early
    rcases mem_set_cases member with rfl | ⟨index, apart, present⟩
    · have isCall := List.mem_of_getElem? found
      cases step with
      | refusePending phase =>
          have absent := sound.unstored isCall (Or.inl phase)
          exact absent
      | refuseSent phase =>
          have handed := sound.marking isCall phase
          rcases early with ⟨⟨⟩⟩ | ⟨_, notHanded⟩
          exact absurd (notHanded.symm.trans handed) (by simp)
      | persist | found | absent | send | lose | mark => simp at early
    · rw [step.extends.1.others (sound.different found present apart)]
      exact sound.unstored (List.mem_of_getElem? present) early
  marking := by
    intro other member phase
    rcases mem_set_cases member with rfl | ⟨index, apart, present⟩
    · cases step with
      | send => rfl
      | persist | refusePending | found | absent | lose | mark | refuseSent => simp at phase
    · exact sound.marking (List.mem_of_getElem? present) phase
  recorded := by
    intro channel rec member recording
    rcases step.extends.1.recordings member with ⟨old, isOld, same⟩
    have before := sound.recorded isOld (same ▸ recording)
    refine ⟨before.1, ?_⟩
    by_cases here : rec.commandId = call.record.commandId
    · rw [here] at before ⊢
      exact step.extends.1.kept before.2
    · rw [step.extends.1.others here]
      exact before.2

theorem Sound.enqueue (sound : s.Sound) (call : Call)
    (unknown : s.commands.get call.record.commandId = none)
    (fresh : ∀ other, other ∈ s.calls → other.record.commandId ≠ call.record.commandId)
    (phase : call.phase = .persisting) : Sound { s with calls := s.calls ++ [call] } where
  distinct := by
    rw [List.map_append, List.map_singleton, List.nodup_append]
    refine ⟨sound.distinct, List.nodup_singleton _, ?_⟩
    rintro commandId member last isLast rfl
    rcases List.mem_map.mp member with ⟨other, isOther, same⟩
    exact fresh other isOther (same.trans (List.mem_singleton.mp isLast))
  unstored := by
    intro other member early
    rcases List.mem_append.mp member with old | new
    · exact sound.unstored old early
    · rw [List.mem_singleton.mp new]
      exact unknown
  marking := by
    intro other member marking
    rcases List.mem_append.mp member with old | new
    · exact sound.marking old marking
    · rw [List.mem_singleton.mp new, phase] at marking
      cases marking
  recorded := sound.recorded

/-- The channels change, and only finished records of commands in the table are about to be
written. -/
theorem Sound.rechannel (sound : s.Sound) (gateway : Gateway) {channels : List Channel}
    (recorded : ∀ {channel rec}, channel ∈ channels → channel.recording = some rec →
      channel ∈ s.channels ∨ rec.Finished ∧ (s.commands.get rec.commandId).isSome = true) :
    Sound { s with gateway := gateway, channels := channels } where
  distinct := sound.distinct
  unstored := sound.unstored
  marking := sound.marking
  recorded := by
    intro channel rec member recording
    rcases recorded member recording with old | holds
    · exact sound.recorded old recording
    · exact holds

theorem Sound.rechannelled (sound : s.Sound) {number : Nat} {recording : Option CommandRecord}
    (recorded : ∀ {rec}, recording = some rec →
      rec.Finished ∧ (s.commands.get rec.commandId).isSome = true)
    (rechannelled : Rechannelled s s' number recording) : s'.Sound := by
  rcases rechannelled with ⟨changed, same, rfl⟩
  refine sound.rechannel s.gateway fun {channel rec} member about => ?_
  rcases List.mem_or_eq_of_mem_set member with old | rfl
  · exact Or.inl old
  · exact Or.inr (recorded (same ▸ about))

/-- A result is written. -/
theorem Sound.persist (sound : s.Sound) {rec : CommandRecord}
    (known : (s.commands.get rec.commandId).isSome = true) :
    Sound { s with commands := s.commands.persist rec } where
  distinct := sound.distinct
  unstored := by
    intro call member early
    have absent := sound.unstored member early
    have different : call.record.commandId ≠ rec.commandId := by
      intro same
      rw [← same, absent] at known
      cases known
    rw [CommandTable.get_persist_of_ne _ different]
    exact absent
  marking := sound.marking
  recorded := by
    intro channel other member recording
    have before := sound.recorded member recording
    refine ⟨before.1, ?_⟩
    rw [CommandTable.get_persist]
    split
    · rfl
    · exact before.2

/-- Every step keeps the invariant. -/
theorem Sound.step (sound : s.Sound) {event : ServerEvent} (step : s.step event = some s') :
    s'.Sound := by
  cases event with
  | session event =>
      rcases step_session step with ⟨gateway, channels, _, old, rfl⟩
      refine sound.rechannel gateway fun {channel rec} member recording => ?_
      rcases old channel member with isOld | nothing
      · exact Or.inl isOld
      · rw [nothing] at recording
        cases recording
  | enqueue agentId commandType params issuedBy commandId now =>
      rcases step_enqueue step with ⟨unknown, fresh, rfl | ⟨call, rfl, phase, _, rfl⟩⟩
      · exact sound
      · exact sound.enqueue call unknown fresh phase
  | proceed number stored =>
      rcases step_proceed step with ⟨call, progress, found, moved, rfl⟩
      exact sound.proceed found moved
  | forward number =>
      rcases step_forward step with ⟨channel, present, moved⟩
      exact sound.rechannelled (sound.recorded (List.mem_of_getElem? present)) moved
  | readResult number result now =>
      refine sound.rechannelled (fun {rec} recording => ?_) (step_readResult step)
      rcases Option.map_eq_some_iff.mp recording with ⟨old, found, rfl⟩
      have filed := CommandTable.commandId_of_get found
      refine ⟨old.finished_finish result now, ?_⟩
      change (s.commands.get old.commandId).isSome = true
      rw [filed, found, Option.isSome_some]
  | writeResult number stored =>
      rcases step_writeResult step with ⟨channel, rec, present, recording, rfl⟩
      have known := (sound.recorded (List.mem_of_getElem? present) recording).2
      have cleared : Rechannelled s
          { s with channels := s.channels.set number { channel with
              recording := none } } number none :=
        ⟨_, rfl, rfl⟩
      have idle := sound.rechannelled (by rintro rec ⟨⟩) cleared
      cases stored with
      | true => exact idle.persist known
      | false => exact idle
  | drop number =>
      rcases step_drop step with ⟨channel, present, moved⟩
      exact sound.rechannelled (sound.recorded (List.mem_of_getElem? present)) moved

end Server

end Edr
end Sigil
