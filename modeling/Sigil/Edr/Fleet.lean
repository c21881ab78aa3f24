import Sigil.Edr.Dispatch
import Sigil.Library.Courier

namespace Sigil
namespace Edr

/-!
# Commands on the hosts

The task of a session sends a command down its stream.  The agent at the other end takes it and
starts a task of its own for it; such tasks run at the same time and report in any order, also
after their session has ended.  The server reads the reports of a session one by one.

Without the order of the commands in a channel and on a stream, the server and its agents are a
courier: a call orders a command for an agent, and every session is a line to one.
-/

open Library

/-- The end of a session at the agent: the commands on their way down, those that are being
executed, and the results on their way up. -/
structure AgentEnd where
  agentId : String
  down : List Command
  tasks : List Command
  up : List CommandResult
  deriving DecidableEq, Repr

/-- The end of a session that has just connected. -/
def AgentEnd.new (agentId : String) : AgentEnd where
  agentId := agentId
  down := []
  tasks := []
  up := []

/-- A command that has been executed on the host of an agent. -/
structure Execution where
  agentId : String
  command : Command
  result : CommandResult
  deriving DecidableEq, Repr

/-- The server, the other ends of its sessions by the same numbers, and all that has been
executed. -/
structure Fleet where
  server : Server
  ends : List AgentEnd
  executed : List Execution

/-- What can happen next.  The outcome of a command is what its executor returns; `sent` says
whether the session still takes the result. -/
inductive FleetEvent where
  | server (event : ServerEvent)
  | take (session : Nat)
  | execute (session task : Nat) (ok : Bool) (message : String) (payload : List UInt8) (sent : Bool)
  | report (session : Nat) (now : Int)
  | lose (session : Nat)
  deriving DecidableEq, Repr

namespace Fleet

def start (store : AList fun _ : String => AgentRecord) (commands : CommandTable) : Fleet where
  server := Server.start store commands
  ends := []
  executed := []

variable (f : Fleet)

/-- The ends after a step of the server. -/
def follow : ServerEvent → List AgentEnd
  | .session (.hello agentId token now) =>
      if f.server.connects (.hello agentId token now) then f.ends ++ [.new agentId] else f.ends
  | .forward number =>
      match f.server.channels[number]?, f.ends[number]? with
      | some channel, some agentEnd =>
          f.ends.set number { agentEnd with down := agentEnd.down ++ channel.waiting.head?.toList }
      | _, _ => f.ends
  | _ => f.ends

/-- One event, when it is possible.  Results come from the agents only. -/
def step : FleetEvent → Option Fleet
  | .server (.readResult _ _ _) => none
  | .server event =>
      (f.server.step event).map fun server => { f with server := server, ends := f.follow event }
  | .take number =>
      match f.ends[number]? with
      | some agentEnd =>
          match agentEnd.down with
          | cmd :: down =>
              some
                { f with
                  ends :=
                    f.ends.set number
                      { agentEnd with down := down, tasks := agentEnd.tasks ++ [cmd] } }
          | [] => none
      | none => none
  | .execute number task ok message payload sent =>
      match f.ends[number]? with
      | some agentEnd =>
          match agentEnd.tasks[task]? with
          | some cmd =>
              let result : CommandResult :=
                { commandId := cmd.commandId, ok := ok, message := message, payload := payload }
              some
                { f with
                  ends :=
                    f.ends.set number
                      { agentEnd with
                        tasks := agentEnd.tasks.eraseIdx task
                        up := if sent then agentEnd.up ++ [result] else agentEnd.up }
                  executed := f.executed ++ [⟨agentEnd.agentId, cmd, result⟩] }
          | none => none
      | none => none
  | .report number now =>
      match f.ends[number]? with
      | some agentEnd =>
          match agentEnd.up with
          | result :: up =>
              (f.server.step (.readResult number result now)).map fun server =>
                { f with server := server, ends := f.ends.set number { agentEnd with up := up } }
          | [] => none
      | none => none
  | .lose number =>
      match f.ends[number]? with
      | some agentEnd =>
          some { f with ends := f.ends.set number { agentEnd with down := [], up := [] } }
      | none => none

end Fleet

/-- All runs of a server with its agents. -/
def fleets : TransitionSystem Fleet FleetEvent where
  init := fun f => ∃ store commands, f = Fleet.start store commands
  step := fun before event after => before.step event = some after

/-! ## The courier -/

/-- Nothing has been handed over yet. -/
def CallPhase.early : CallPhase → Bool
  | .persisting | .looking | .sending _ => true
  | .marking | .returned | .refused => false

/-- The command that a call sends. -/
def Call.command (call : Call) : Command :=
  buildCommand call.record.commandId call.ctype call.record.params

@[simp] theorem commandId_buildCommand (commandId : String) (ctype : CommandType)
    (params : CommandParams) : (buildCommand commandId ctype params).commandId = commandId := by
  cases ctype <;> rfl

theorem Call.commandId_command (call : Call) : call.command.commandId = call.record.commandId :=
  commandId_buildCommand _ _ _

def Call.order (call : Call) : Order String Command where
  party := call.record.agentId
  item := call.command
  handed := call.handed

/-- The line of a session: its channel, its stream and the tasks at its other end. -/
def lineOf (channel : Channel) (agentEnd : AgentEnd) : Line String Command where
  party := agentEnd.agentId
  content := (channel.waiting ++ (agentEnd.down ++ agentEnd.tasks) : List Command)

namespace Fleet

def courier (f : Fleet) : Courier String Command where
  orders := f.server.calls.map Call.order
  lines := List.zipWith lineOf f.server.channels f.ends
  done := f.executed.map fun execution => (execution.agentId, execution.command)

/-- The session leads to the agent. -/
def Leads (f : Fleet) (number : Nat) (agentId : String) : Prop :=
  (f.ends.map AgentEnd.agentId)[number]? = some agentId

/-- The sessions, the channels and the ends have the same numbers; a sender that the registry knows
or a call has found belongs to a session of the agent; and what is handed over was not handed over
before. -/
structure Linked (f : Fleet) : Prop where
  sound : f.server.Sound
  channels : f.server.channels.length = f.ends.length
  sessions : f.server.gateway.sessions.length = f.ends.length
  named : ∀ {agentId number},
    f.server.gateway.registry.commandSender agentId = some number → f.Leads number agentId
  sending : ∀ {call number}, call ∈ f.server.calls → call.phase = .sending number →
    f.Leads number call.record.agentId
  unhanded : ∀ {call}, call ∈ f.server.calls → call.phase.early = true → call.handed = false

end Fleet

/-! ## What a step of the gateway does -/

/-- The sender of an agent was there before, or it is that of the session that the step starts. -/
theorem commandSender_step {g g' : Gateway} {event : GatewayEvent} (step : g.step event = some g')
    {agentId : String} {number : Nat} (sender : g'.registry.commandSender agentId = some number) :
    g.registry.commandSender agentId = some number ∨
      number = g.sessions.length ∧ ∃ token now, event = .hello agentId token now ∧
        g.registry.validateSession agentId token = true := by
  cases event with
  | enroll agent req sessionToken now =>
      rw [← Option.some.inj step] at sender
      exact Or.inl sender
  | hello agent token now =>
      simp only [Gateway.step] at step
      split at step
      · next valid =>
          rw [← Option.some.inj step, AgentRegistry.commandSender_connect] at sender
          split at sender
          · next same =>
              subst same
              exact Or.inr ⟨(Option.some.inj sender).symm, token, now, rfl, valid⟩
          · exact Or.inl sender
      · rw [← Option.some.inj step] at sender
        exact Or.inl sender
  | heartbeat number isolated now =>
      simp only [Gateway.step] at step
      split at step
      · split at step
        · rw [← Option.some.inj step, AgentRegistry.commandSender_heartbeat] at sender
          exact Or.inl sender
        · cases step
      · cases step
  | streamEnds number =>
      simp only [Gateway.step] at step
      split at step
      · rw [← Option.some.inj step] at sender
        exact Or.inl sender
      · cases step
  | leave number =>
      simp only [Gateway.step] at step
      split at step
      · split at step
        · rw [← Option.some.inj step] at sender
          exact Or.inl sender
        · cases step
      · cases step
  | disconnect number stored =>
      rcases step_disconnect step with ⟨session, _, _, rfl⟩
      rw [AgentRegistry.commandSender_disconnect] at sender
      split at sender
      · cases sender
      · exact Or.inl sender

/-- Sessions come to an end, but keep their numbers. -/
theorem sessions_step {s : Server} {gateway : Gateway} {event : GatewayEvent}
    (step : s.gateway.step event = some gateway) :
    gateway.sessions.length = s.gateway.sessions.length + if s.connects event then 1 else 0 := by
  cases event with
  | hello agent token now =>
      simp only [Gateway.step] at step
      rw [Server.connects]
      split at step
      · next valid =>
          rw [← Option.some.inj step, if_pos valid, List.length_append, List.length_singleton]
      · next invalid => rw [← Option.some.inj step, if_neg invalid, Nat.add_zero]
  | enroll agent req sessionToken now =>
      rw [← Option.some.inj step]
      rfl
  | heartbeat number isolated now =>
      simp only [Gateway.step] at step
      split at step
      · split at step
        · rw [← Option.some.inj step]
          rfl
        · cases step
      · cases step
  | streamEnds number =>
      simp only [Gateway.step] at step
      split at step
      · rw [← Option.some.inj step, List.length_set]
        rfl
      · cases step
  | leave number =>
      simp only [Gateway.step] at step
      split at step
      · split at step
        · rw [← Option.some.inj step, List.length_set]
          rfl
        · cases step
      · cases step
  | disconnect number stored =>
      rcases step_disconnect step with ⟨session, _, _, rfl⟩
      rw [List.length_set]
      rfl

/-- What a step of a call does to its order and to the channels. -/
inductive Posts (s : Server) (call : Call) (progress : Progress) : Prop where
  | quiet (channels : progress.channels = s.channels) (order : progress.call.order = call.order)
      (early : progress.call.phase.early = true → call.phase.early = true)
      (sending : ∀ number, progress.call.phase = .sending number →
        s.gateway.registry.commandSender call.record.agentId = some number)
  | hand (number : Nat) (channel : Channel) (phase : call.phase = .sending number)
      (present : s.channels[number]? = some channel)
      (channels : progress.channels =
        s.channels.set number { channel with waiting := channel.waiting ++ [call.command] })
      (handed : progress.call = { call with phase := .marking, handed := true })

theorem callStep_posts {s : Server} {call : Call} {stored : Bool} {progress : Progress}
    (step : s.callStep call stored = some progress) : Posts s call progress := by
  rw [Server.callStep] at step
  split at step
  · next phase =>
      have early : call.phase.early = true := by
        rw [phase]
        rfl
      split at step
      · rw [← Option.some.inj step]
        exact .quiet rfl rfl (fun _ => early) (by rintro number ⟨⟩)
      · rw [← Option.some.inj step]
        exact .quiet rfl rfl (fun _ => early) (by rintro number ⟨⟩)
  · next phase =>
      have early : call.phase.early = true := by
        rw [phase]
        rfl
      split at step
      · next commandTx found =>
          rw [← Option.some.inj step]
          refine .quiet rfl rfl (fun _ => early) ?_
          rintro number ⟨⟩
          exact found
      · rw [← Option.some.inj step]
        exact .quiet rfl rfl (fun _ => early) (by rintro number ⟨⟩)
  · next commandTx phase =>
      have early : call.phase.early = true := by
        rw [phase]
        rfl
      split at step
      · next channel present =>
          split at step
          · split at step
            · rw [← Option.some.inj step]
              exact .hand commandTx channel phase present rfl rfl
            · cases step
          · rw [← Option.some.inj step]
            exact .quiet rfl rfl (fun _ => early) (by rintro number ⟨⟩)
      · cases step
  · dsimp only at step
    split at step
    · rw [← Option.some.inj step]
      exact .quiet rfl rfl (by rintro ⟨⟩) (by rintro number ⟨⟩)
    · rw [← Option.some.inj step]
      exact .quiet rfl rfl (by rintro ⟨⟩) (by rintro number ⟨⟩)
  · cases step
  · cases step

namespace Fleet

/-! ## Every step is one of the courier -/

variable {f f' : Fleet}

/-- A state that the courier reaches. -/
def Refines (f f' : Fleet) : Prop :=
  f'.Linked ∧ (Courier.system Command.commandId).Reaches f.courier f'.courier

theorem Linked.channel (linked : f.Linked) {number : Nat} {agentEnd : AgentEnd}
    (atEnd : f.ends[number]? = some agentEnd) :
    ∃ channel, f.server.channels[number]? = some channel := by
  have bound := (List.getElem?_eq_some_iff.mp atEnd).1
  rw [← linked.channels] at bound
  exact ⟨_, List.getElem?_eq_getElem bound⟩

theorem Linked.agentEnd (linked : f.Linked) {number : Nat} {channel : Channel}
    (present : f.server.channels[number]? = some channel) :
    ∃ agentEnd, f.ends[number]? = some agentEnd := by
  have bound := (List.getElem?_eq_some_iff.mp present).1
  rw [linked.channels] at bound
  exact ⟨_, List.getElem?_eq_getElem bound⟩

theorem leads_iff {number : Nat} {agentId : String} : f.Leads number agentId ↔
    ∃ agentEnd, f.ends[number]? = some agentEnd ∧ agentEnd.agentId = agentId := by
  rw [Leads, List.getElem?_map, Option.map_eq_some_iff]

/-- A session and its end change, and the calls stay. -/
theorem Linked.set (linked : f.Linked) {number : Nat} {agentEnd : AgentEnd}
    (atEnd : f.ends[number]? = some agentEnd) {server : Server} {changed : Channel}
    {after : AgentEnd} (sound : server.Sound) (gateway : server.gateway = f.server.gateway)
    (calls : server.calls = f.server.calls)
    (channels : server.channels = f.server.channels.set number changed)
    (same : after.agentId = agentEnd.agentId) (executed : List Execution) :
    Linked ⟨server, f.ends.set number after, executed⟩ := by
  have parties : (f.ends.set number after).map AgentEnd.agentId = f.ends.map AgentEnd.agentId :=
    map_set_same AgentEnd.agentId atEnd same
  constructor
  · exact sound
  · rw [channels, List.length_set, List.length_set]
    exact linked.channels
  · rw [gateway, List.length_set]
    exact linked.sessions
  · rw [gateway]
    intro agentId place sender
    rw [Leads, parties]
    exact linked.named sender
  · rw [calls]
    intro call place member phase
    rw [Leads, parties]
    exact linked.sending member phase
  · rw [calls]
    exact linked.unhanded

/-- What is in the line of a session moves on, or the session does something else. -/
theorem Linked.moves (linked : f.Linked) {number : Nat} {channel : Channel} {agentEnd : AgentEnd}
    (present : f.server.channels[number]? = some channel) (atEnd : f.ends[number]? = some agentEnd)
    {server : Server} {changed : Channel} {after : AgentEnd} (sound : server.Sound)
    (gateway : server.gateway = f.server.gateway) (calls : server.calls = f.server.calls)
    (channels : server.channels = f.server.channels.set number changed)
    (same : lineOf changed after = lineOf channel agentEnd) :
    f.Refines ⟨server, f.ends.set number after, f.executed⟩ := by
  have party : after.agentId = agentEnd.agentId := congrArg Line.party same
  refine ⟨linked.set atEnd sound gateway calls channels party f.executed, ?_⟩
  have lines : List.zipWith lineOf server.channels (f.ends.set number after) =
      List.zipWith lineOf f.server.channels f.ends := by
    rw [channels, zipWith_set lineOf present atEnd, same, ← zipWith_set lineOf present atEnd,
      set_same present, set_same atEnd]
  rw [courier, courier, calls, lines]
  exact .refl _ _

/-- The line of a session at its place. -/
theorem line_at {number : Nat} {channel : Channel} {agentEnd : AgentEnd}
    (present : f.server.channels[number]? = some channel)
    (atEnd : f.ends[number]? = some agentEnd) :
    f.courier.lines[number]? = some (lineOf channel agentEnd) := by
  rw [courier, List.getElem?_zipWith, present, atEnd]

theorem lines_channels {number : Nat} {channel : Channel} {agentEnd : AgentEnd}
    (present : f.server.channels[number]? = some channel) (atEnd : f.ends[number]? = some agentEnd)
    (changed : Channel) :
    List.zipWith lineOf (f.server.channels.set number changed) f.ends =
      f.courier.lines.set number (lineOf changed agentEnd) := by
  rw [courier, ← zipWith_set lineOf present atEnd, set_same atEnd]

theorem courier_ends {number : Nat} {channel : Channel} {agentEnd : AgentEnd}
    (present : f.server.channels[number]? = some channel) (atEnd : f.ends[number]? = some agentEnd)
    (after : AgentEnd) (executed : List Execution) :
    courier ⟨f.server, f.ends.set number after, executed⟩ =
      { f.courier with
        lines := f.courier.lines.set number (lineOf channel after)
        done := executed.map fun execution => (execution.agentId, execution.command) } := by
  rw [courier, courier, ← zipWith_set lineOf present atEnd, set_same present]

/-- The task of the session sends a command down the stream. -/
theorem Linked.forward (linked : f.Linked) {number : Nat} {server : Server}
    (step : f.server.step (.forward number) = some server) :
    f.Refines ⟨server, f.follow (.forward number), f.executed⟩ := by
  have sound := linked.sound.step step
  rw [Server.step] at step
  split at step
  · next channel present =>
      split at step
      · next cmd waiting stored =>
          split at step
          · rcases linked.agentEnd present with ⟨agentEnd, atEnd⟩
            rw [← Option.some.inj step] at sound ⊢
            rw [follow, present, atEnd]
            refine linked.moves present atEnd sound rfl rfl rfl ?_
            rw [lineOf, lineOf, stored]
            congr 1
            have moved : ((waiting ++ agentEnd.down) ++ cmd :: agentEnd.tasks).Perm
                (cmd :: ((waiting ++ agentEnd.down) ++ agentEnd.tasks)) := List.perm_middle
            rw [Multiset.coe_eq_coe]
            simpa only [List.head?_cons, Option.toList_some, List.append_assoc, List.cons_append,
              List.nil_append] using moved
          · cases step
      · cases step
  · cases step

/-- A call orders a command. -/
theorem Linked.enqueue (linked : f.Linked)
    {agentId commandType issuedBy commandId : String} {params : CommandParams} {now : Int}
    {server : Server}
    (step : f.server.step (.enqueue agentId commandType params issuedBy commandId now) =
      some server) :
    f.Refines ⟨server, f.ends, f.executed⟩ := by
  have sound := linked.sound.step step
  rw [Server.step] at step
  split at step
  · next fresh =>
      split at step
      · rw [← Option.some.inj step]
        exact ⟨linked, .refl _ _⟩
      · next ctype _ =>
          rw [← Option.some.inj step] at sound ⊢
          refine ⟨⟨sound, linked.channels, linked.sessions, linked.named, ?_, ?_⟩, ?_⟩
          · intro call number member phase
            rcases List.mem_append.mp member with old | new
            · exact linked.sending old phase
            · rw [List.mem_singleton.mp new] at phase
              cases phase
          · intro call member early
            rcases List.mem_append.mp member with old | new
            · exact linked.unhanded old early
            · rw [List.mem_singleton.mp new]
          · rw [courier, courier, List.map_append, List.map_singleton]
            apply TransitionSystem.Reaches.single ()
            apply Courier.Step.place
            intro order member same
            rcases List.mem_map.mp member with ⟨call, isCall, rfl⟩
            refine fresh.2 call isCall ?_
            rw [← call.commandId_command]
            exact same.trans (commandId_buildCommand _ _ _)
  · cases step

/-- A call goes on without handing anything over. -/
theorem Linked.quiet (linked : f.Linked) {number : Nat} {call : Call} {progress : Progress}
    (present : f.server.calls[number]? = some call) {server : Server} (sound : server.Sound)
    (gateway : server.gateway = f.server.gateway) (same : server.channels = f.server.channels)
    (calls : server.calls = f.server.calls.set number progress.call)
    (order : progress.call.order = call.order)
    (early : progress.call.phase.early = true → call.phase.early = true)
    (sending : ∀ place, progress.call.phase = .sending place →
      f.server.gateway.registry.commandSender call.record.agentId = some place) :
    f.Refines ⟨server, f.ends, f.executed⟩ := by
  have isCall := List.mem_of_getElem? present
  refine ⟨⟨sound, ?_, ?_, ?_, ?_, ?_⟩, ?_⟩
  · rw [same]
    exact linked.channels
  · rw [gateway]
    exact linked.sessions
  · rw [gateway]
    exact linked.named
  · rw [calls]
    intro other place member phase
    rcases List.mem_or_eq_of_mem_set member with old | rfl
    · exact linked.sending old phase
    · have party : progress.call.record.agentId = call.record.agentId := congrArg Order.party order
      rw [party]
      exact linked.named (sending place phase)
  · rw [calls]
    intro other member isEarly
    rcases List.mem_or_eq_of_mem_set member with old | rfl
    · exact linked.unhanded old isEarly
    · have handed : progress.call.handed = call.handed := congrArg Order.handed order
      rw [handed]
      exact linked.unhanded isCall (early isEarly)
  · rw [courier, courier, calls, map_set_same Call.order present order, same]
    exact .refl _ _

/-- A call hands its command over to the session whose sender it has found. -/
theorem Linked.hand (linked : f.Linked) {number place : Nat} {call : Call} {channel : Channel}
    (present : f.server.calls[number]? = some call) (phase : call.phase = .sending place)
    (found : f.server.channels[place]? = some channel) {server : Server} (sound : server.Sound)
    (gateway : server.gateway = f.server.gateway)
    (channels : server.channels =
      f.server.channels.set place { channel with waiting := channel.waiting ++ [call.command] })
    (calls : server.calls =
      f.server.calls.set number { call with phase := .marking, handed := true }) :
    f.Refines ⟨server, f.ends, f.executed⟩ := by
  have isCall := List.mem_of_getElem? present
  rcases leads_iff.mp (linked.sending isCall phase) with ⟨agentEnd, atEnd, party⟩
  have unsent : call.handed = false := by
    refine linked.unhanded isCall ?_
    rw [phase]
    rfl
  refine ⟨⟨sound, ?_, ?_, ?_, ?_, ?_⟩, ?_⟩
  · rw [channels, List.length_set]
    exact linked.channels
  · rw [gateway]
    exact linked.sessions
  · rw [gateway]
    exact linked.named
  · rw [calls]
    intro other place member phase
    rcases List.mem_or_eq_of_mem_set member with old | rfl
    · exact linked.sending old phase
    · cases phase
  · rw [calls]
    intro other member isEarly
    rcases List.mem_or_eq_of_mem_set member with old | rfl
    · exact linked.unhanded old isEarly
    · cases isEarly
  · have ordered : f.courier.orders[number]? = some call.order := by
      rw [courier, List.getElem?_map, present, Option.map_some]
    have orders : server.calls.map Call.order =
        f.courier.orders.set number { call.order with handed := true } := by
      rw [courier, calls, List.map_set]
      rfl
    have grown : lineOf { channel with waiting := channel.waiting ++ [call.command] } agentEnd =
        { lineOf channel agentEnd with
          content := call.order.item ::ₘ (lineOf channel agentEnd).content } := by
      rw [lineOf, lineOf]
      congr 1
      rw [Multiset.cons_coe, Multiset.coe_eq_coe, List.append_assoc]
      exact List.perm_middle
    have lines : List.zipWith lineOf server.channels f.ends =
        f.courier.lines.set place { lineOf channel agentEnd with
          content := call.order.item ::ₘ (lineOf channel agentEnd).content } := by
      rw [channels, lines_channels found atEnd, grown]
    have step : Courier.Step Command.commandId f.courier _ :=
      .hand ordered (line_at found atEnd) unsent party
    rw [← lines, ← orders] at step
    exact .single () step

/-- A call goes on. -/
theorem Linked.proceed (linked : f.Linked) {number : Nat} {stored : Bool} {server : Server}
    (step : f.server.step (.proceed number stored) = some server) :
    f.Refines ⟨server, f.ends, f.executed⟩ := by
  have sound := linked.sound.step step
  rw [Server.step] at step
  split at step
  · next call present =>
      rcases Option.map_eq_some_iff.mp step with ⟨progress, moved, rfl⟩
      cases callStep_posts moved with
      | quiet channels order early sending =>
          exact linked.quiet present sound rfl channels rfl order early sending
      | hand place channel phase found channels handed =>
          exact linked.hand present phase found sound rfl channels (by rw [← handed])
  · cases step

/-- A session connects. -/
theorem Linked.lead (linked : f.Linked) {gateway : Gateway} {agentId : String}
    (sound : Server.Sound { f.server with
      gateway := gateway
      channels := f.server.channels ++ [⟨[], [], true, none⟩] })
    (sessions : gateway.sessions.length = f.server.gateway.sessions.length + 1)
    (named : ∀ {other number}, gateway.registry.commandSender other = some number →
      f.server.gateway.registry.commandSender other = some number ∨
        number = f.server.gateway.sessions.length ∧ other = agentId) :
    f.Refines ⟨{ f.server with
      gateway := gateway
      channels := f.server.channels ++ [⟨[], [], true, none⟩] },
      f.ends ++ [.new agentId], f.executed⟩ := by
  have kept : ∀ {number other}, f.Leads number other →
      ((f.ends ++ [AgentEnd.new agentId]).map AgentEnd.agentId)[number]? = some other := by
    intro number other before
    rw [List.map_append]
    exact Pointwise.getElem?_append_of_some before _
  refine ⟨⟨sound, ?_, ?_, ?_, ?_, linked.unhanded⟩, ?_⟩
  · rw [List.length_append, List.length_append, linked.channels]
    rfl
  · rw [sessions, List.length_append, linked.sessions]
    rfl
  · intro other number sender
    rcases named sender with before | ⟨rfl, rfl⟩
    · exact kept (linked.named before)
    · rw [Leads, List.map_append, linked.sessions,
        ← @List.length_map _ _ f.ends AgentEnd.agentId]
      exact List.getElem?_concat_length
  · intro call number member phase
    exact kept (linked.sending member phase)
  · have lines : List.zipWith lineOf (f.server.channels ++ [⟨[], [], true, none⟩])
        (f.ends ++ [.new agentId]) = f.courier.lines ++ [⟨agentId, 0⟩] := by
      rw [List.zipWith_append linked.channels]
      rfl
    have step : Courier.Step Command.commandId f.courier _ := .lead agentId
    rw [← lines] at step
    exact .single () step

/-- Of the events of the gateway only a valid `Hello` changes the lines. -/
theorem Linked.session (linked : f.Linked) {event : GatewayEvent} {server : Server}
    (step : f.server.step (.session event) = some server) :
    f.Refines ⟨server, f.follow (.session event), f.executed⟩ := by
  have sound := linked.sound.step step
  rw [Server.step] at step
  split at step
  · rcases Option.map_eq_some_iff.mp step with ⟨gateway, moved, isServer⟩
    have sessions := sessions_step moved
    rw [← isServer] at sound ⊢
    by_cases connects : f.server.connects event = true
    · rw [if_pos connects] at sound sessions ⊢
      cases event with
      | hello agentId token now =>
          rw [follow, if_pos connects]
          refine linked.lead sound sessions fun sender => ?_
          rcases commandSender_step moved sender with before | ⟨isNew, _, _, isHello, _⟩
          · exact Or.inl before
          · cases isHello
            exact Or.inr ⟨isNew, rfl⟩
      | enroll | heartbeat | streamEnds | leave | disconnect => cases connects
    · rw [if_neg connects] at sound sessions ⊢
      have ends : f.follow (.session event) = f.ends := by
        cases event with
        | hello agentId token now => rw [follow, if_neg connects]
        | enroll | heartbeat | streamEnds | leave | disconnect => rfl
      rw [ends]
      refine ⟨⟨sound, linked.channels, sessions.trans linked.sessions, ?_, linked.sending,
        linked.unhanded⟩, .refl _ _⟩
      intro other number sender
      rcases commandSender_step moved sender with before | ⟨_, token, now, isHello, valid⟩
      · exact linked.named before
      · rw [isHello] at connects
        exact absurd valid connects
  · cases step

/-- A session does something that changes no line. -/
theorem Linked.rechannelled (linked : f.Linked) {number : Nat} {channel : Channel}
    (present : f.server.channels[number]? = some channel) {server : Server} {changed : Channel}
    (sound : server.Sound) (gateway : server.gateway = f.server.gateway)
    (calls : server.calls = f.server.calls)
    (channels : server.channels = f.server.channels.set number changed)
    (waiting : changed.waiting = channel.waiting) : f.Refines ⟨server, f.ends, f.executed⟩ := by
  rcases linked.agentEnd present with ⟨agentEnd, atEnd⟩
  have same : lineOf changed agentEnd = lineOf channel agentEnd := by
    rw [lineOf, lineOf, waiting]
  have moved := linked.moves present atEnd sound gateway calls channels same
  rw [set_same atEnd] at moved
  exact moved

/-- Every step of the server is one of the courier, or none. -/
theorem Linked.server (linked : f.Linked) {event : ServerEvent} {server : Server}
    (step : f.server.step event = some server)
    (fromAgent : ∀ number result now, event ≠ .readResult number result now) :
    f.Refines ⟨server, f.follow event, f.executed⟩ := by
  have sound := linked.sound.step step
  cases event with
  | session event => exact linked.session step
  | enqueue agentId commandType params issuedBy commandId now => exact linked.enqueue step
  | proceed number stored => exact linked.proceed step
  | forward number => exact linked.forward step
  | readResult number result now => exact absurd rfl (fromAgent number result now)
  | writeResult number stored =>
      rcases Server.step_writeResult step with ⟨channel, rec, present, _, rfl⟩
      exact linked.rechannelled present sound rfl rfl rfl rfl
  | drop number =>
      rw [Server.step] at step
      split at step
      · next channel session present _ =>
          split at step
          · rw [← Option.some.inj step] at sound ⊢
            exact linked.rechannelled present sound rfl rfl rfl rfl
          · cases step
      · cases step

/-- The agent takes a command off the stream. -/
theorem Linked.take (linked : f.Linked) {number : Nat} (step : f.step (.take number) = some f') :
    f.Refines f' := by
  rw [Fleet.step] at step
  split at step
  · next agentEnd atEnd =>
      split at step
      · next cmd down isDown =>
          rcases linked.channel atEnd with ⟨channel, present⟩
          rw [← Option.some.inj step]
          refine linked.moves present atEnd linked.sound rfl rfl (set_same present).symm ?_
          rw [lineOf, lineOf, isDown]
          congr 1
          rw [Multiset.coe_eq_coe]
          refine List.Perm.append_left _ ?_
          rw [← List.append_assoc]
          exact List.perm_append_comm
      · cases step
  · cases step

/-- The agent executes a command. -/
theorem Linked.execute (linked : f.Linked) {number task : Nat} {ok sent : Bool} {message : String}
    {payload : List UInt8}
    (step : f.step (.execute number task ok message payload sent) = some f') : f.Refines f' := by
  rw [Fleet.step] at step
  split at step
  · next agentEnd atEnd =>
      split at step
      · next cmd isTask =>
          rcases linked.channel atEnd with ⟨channel, present⟩
          rcases List.getElem?_eq_some_iff.mp isTask with ⟨bound, rfl⟩
          rw [← Option.some.inj step]
          refine ⟨linked.set atEnd linked.sound rfl rfl (set_same present).symm (by rfl) _, ?_⟩
          have content : (lineOf channel agentEnd).content =
              agentEnd.tasks[task] ::ₘ (channel.waiting ++
                (agentEnd.down ++ agentEnd.tasks.eraseIdx task) : List Command) := by
            rw [lineOf, Multiset.cons_coe, Multiset.coe_eq_coe, ← List.append_assoc,
              ← List.append_assoc]
            exact ((List.getElem_cons_eraseIdx_perm bound).symm.append_left _).trans
              List.perm_middle
          have step : Courier.Step Command.commandId f.courier _ :=
            .perform (line_at present atEnd) content
          refine .single () ?_
          rw [courier_ends present atEnd, List.map_append]
          exact step
      · cases step
  · cases step

/-- The server reads a result. -/
theorem Linked.report (linked : f.Linked) {number : Nat} {now : Int}
    (step : f.step (.report number now) = some f') : f.Refines f' := by
  rw [Fleet.step] at step
  split at step
  · next agentEnd atEnd =>
      split at step
      · rcases Option.map_eq_some_iff.mp step with ⟨server, moved, rfl⟩
        have sound := linked.sound.step moved
        rw [Server.step] at moved
        split at moved
        · next channel present =>
            split at moved
            · rw [← Option.some.inj moved] at sound ⊢
              exact linked.moves present atEnd sound rfl rfl rfl rfl
            · cases moved
        · cases moved
      · cases step
  · cases step

/-- A stream loses what is on its way. -/
theorem Linked.lose (linked : f.Linked) {number : Nat} (step : f.step (.lose number) = some f') :
    f.Refines f' := by
  rw [Fleet.step] at step
  split at step
  · next agentEnd atEnd =>
      rcases linked.channel atEnd with ⟨channel, present⟩
      rw [← Option.some.inj step]
      refine ⟨linked.set atEnd linked.sound rfl rfl (set_same present).symm (by rfl) _, ?_⟩
      have less : (channel.waiting ++ ([] ++ agentEnd.tasks) : List Command) ≤
          (lineOf channel agentEnd).content := by
        rw [lineOf, Multiset.coe_le]
        exact ((List.sublist_append_right agentEnd.down _).append_left _).subperm
      have step : Courier.Step Command.commandId f.courier _ := .lose (line_at present atEnd) less
      refine .single () ?_
      rw [courier_ends present atEnd]
      exact step
  · cases step

/-- What the server does by itself is not that it reads a result. -/
theorem step_server {event : ServerEvent} (step : f.step (.server event) = some f') :
    ∃ server, f.server.step event = some server ∧
      (∀ number result now, event ≠ .readResult number result now) ∧
      f' = ⟨server, f.follow event, f.executed⟩ := by
  have fromAgent : ∀ number result now, event ≠ .readResult number result now := by
    rintro number result now rfl
    cases step
  have stepped : (f.server.step event).map (fun server =>
      { f with server := server, ends := f.follow event }) = some f' := by
    rw [← step]
    cases event with
    | readResult number result now => exact absurd rfl (fromAgent number result now)
    | session | enqueue | proceed | forward | writeResult | drop => rfl
  rcases Option.map_eq_some_iff.mp stepped with ⟨server, moved, rfl⟩
  exact ⟨server, moved, fromAgent, rfl⟩

/-- Every step of a fleet is one of its courier, or none. -/
theorem Linked.step (linked : f.Linked) {event : FleetEvent} (step : f.step event = some f') :
    f.Refines f' := by
  cases event with
  | server event =>
      rcases step_server step with ⟨server, moved, fromAgent, rfl⟩
      exact linked.server moved fromAgent
  | take number => exact linked.take step
  | execute number task ok message payload sent => exact linked.execute step
  | report number now => exact linked.report step
  | lose number => exact linked.lose step

theorem linked_start (store : AList fun _ : String => AgentRecord) (commands : CommandTable) :
    (start store commands).Linked where
  sound := Server.sound_start store commands
  channels := rfl
  sessions := rfl
  named := by rintro agentId number ⟨⟩
  sending := fun member => absurd member List.not_mem_nil
  unhanded := fun member => absurd member List.not_mem_nil

/-- The courier of a reachable fleet is reachable. -/
theorem refines_of_reachable (reachable : fleets.Reachable f) :
    f.Linked ∧ (Courier.system Command.commandId).Reachable f.courier := by
  apply reachable.invariant
    fun f => f.Linked ∧ (Courier.system Command.commandId).Reachable f.courier
  · rintro state ⟨store, commands, rfl⟩
    exact ⟨linked_start store commands, ⟨_, rfl, .refl _ _⟩⟩
  · rintro before event after ⟨linked, ⟨origin, initial, run⟩⟩ step
    have refines := linked.step step
    exact ⟨refines.1, origin, initial, run.trans refines.2⟩

end Fleet

end Edr
end Sigil
