import Sigil.Edr.Fleet

namespace Sigil
namespace Edr

/-!
# What is executed

A command is executed at most once, on the host of the agent that it was issued for and with the
parameters that it was issued with.  The result in the record of a command is that of its
execution.
-/

open Library

/-- A record with a result has that of an execution on the host of its agent. -/
def Vouches (executed : List Execution) (rec : CommandRecord) : Prop :=
  rec.resultOk.isSome = true → ∃ execution ∈ executed, ∃ old now,
    rec = CommandRecord.finish old execution.result now ∧
      execution.command.commandId = rec.commandId ∧ execution.agentId = rec.agentId

/-- A call is known by its command. -/
theorem Server.Sound.call_eq {s : Server} (sound : s.Sound) {first second : Call}
    (isFirst : first ∈ s.calls) (isSecond : second ∈ s.calls)
    (same : first.record.commandId = second.record.commandId) : first = second :=
  List.inj_on_of_nodup_map sound.distinct isFirst isSecond same

namespace Fleet

/-- What is known of the records that have the identifier of a call. -/
def About (executed : List Execution) (call : Call) (rec : CommandRecord) : Prop :=
  rec.commandId = call.record.commandId → rec.agentId = call.record.agentId ∧
    Vouches executed rec

/-- Results come from executions, also those that are about to be written. -/
structure Vouched (f : Fleet) : Prop where
  results : ∀ {execution}, execution ∈ f.executed →
    execution.result.commandId = execution.command.commandId
  up : ∀ {agentEnd result}, agentEnd ∈ f.ends → result ∈ agentEnd.up →
    ∃ execution ∈ f.executed, execution.result = result
  unanswered : ∀ {call}, call ∈ f.server.calls → call.record.resultOk = none
  recording : ∀ {call channel rec}, call ∈ f.server.calls → channel ∈ f.server.channels →
    channel.recording = some rec → About f.executed call rec
  stored : ∀ {call commandId rec}, call ∈ f.server.calls →
    f.server.commands.get commandId = some rec →
    About f.executed call rec

variable {f f' : Fleet}

theorem vouched_start (store : AList fun _ : String => AgentRecord) (commands : CommandTable) :
    (start store commands).Vouched where
  results := fun member => absurd member List.not_mem_nil
  up := fun member => absurd member List.not_mem_nil
  unanswered := fun member => absurd member List.not_mem_nil
  recording := fun member => absurd member List.not_mem_nil
  stored := fun member => absurd member List.not_mem_nil

/-- Of the calls only the identifiers matter and that their own records have no result. -/
theorem About.congr {executed more : List Execution} {call other : Call} {rec : CommandRecord}
    (about : About executed call rec) (grows : executed ⊆ more)
    (commandId : other.record.commandId = call.record.commandId)
    (agentId : other.record.agentId = call.record.agentId) : About more other rec := by
  intro same
  rw [agentId]
  rw [commandId] at same
  rcases about same with ⟨party, vouches⟩
  refine ⟨party, fun answered => ?_⟩
  rcases vouches answered with ⟨execution, member, rest⟩
  exact ⟨execution, grows member, rest⟩

/-- The record of a call vouches for nothing. -/
theorem about_unanswered {executed : List Execution} {call : Call} {rec : CommandRecord}
    (agentId : rec.agentId = call.record.agentId) (unanswered : rec.resultOk = none) :
    About executed call rec := by
  intro _
  refine ⟨agentId, fun answered => ?_⟩
  rw [unanswered] at answered
  cases answered

/-- The results that are in the ends of the sessions were in them before. -/
def NoNewResults (before after : List AgentEnd) : Prop :=
  ∀ agentEnd ∈ after, ∀ result ∈ agentEnd.up, ∃ old ∈ before, result ∈ old.up

theorem NoNewResults.refl (ends : List AgentEnd) : NoNewResults ends ends :=
  fun agentEnd member _ isUp => ⟨agentEnd, member, isUp⟩

theorem noNewResults_set {ends : List AgentEnd} {number : Nat} {agentEnd after : AgentEnd}
    (atEnd : ends[number]? = some agentEnd) (fewer : after.up ⊆ agentEnd.up) :
    NoNewResults ends (ends.set number after) := by
  intro other member result isUp
  rcases List.mem_or_eq_of_mem_set member with old | rfl
  · exact ⟨other, old, isUp⟩
  · exact ⟨agentEnd, List.mem_of_getElem? atEnd, fewer isUp⟩

theorem noNewResults_follow (f : Fleet) (event : ServerEvent) :
    NoNewResults f.ends (f.follow event) := by
  cases event with
  | session event =>
      cases event with
      | hello agentId token now =>
          rw [follow]
          split
          · intro agentEnd member result isUp
            rcases List.mem_append.mp member with old | new
            · exact ⟨agentEnd, old, isUp⟩
            · rw [List.mem_singleton.mp new] at isUp
              exact absurd isUp List.not_mem_nil
          · exact NoNewResults.refl f.ends
      | enroll | heartbeat | streamEnds | leave | disconnect => exact NoNewResults.refl f.ends
  | forward number =>
      rw [follow]
      split
      · next channel agentEnd _ atEnd => exact noNewResults_set atEnd fun _ isUp => isUp
      · exact NoNewResults.refl f.ends
  | enqueue | proceed | readResult | writeResult | drop => exact NoNewResults.refl f.ends

/-- What is known of the results after a step that brings no new ones: of the calls and the records
only what has changed is left to show. -/
theorem Vouched.server (vouched : f.Vouched) {server : Server} {ends : List AgentEnd}
    (up : NoNewResults f.ends ends)
    (unanswered : ∀ {call}, call ∈ server.calls → call.record.resultOk = none)
    (recording : ∀ {call channel rec}, call ∈ server.calls → channel ∈ server.channels →
      channel.recording = some rec → About f.executed call rec)
    (stored : ∀ {call commandId rec}, call ∈ server.calls →
      server.commands.get commandId = some rec → About f.executed call rec) :
    Vouched ⟨server, ends, f.executed⟩ where
  results := vouched.results
  up := by
    intro agentEnd result member isUp
    rcases up agentEnd member result isUp with ⟨old, isOld, wasUp⟩
    exact vouched.up isOld wasUp
  unanswered := unanswered
  recording := recording
  stored := stored

/-- A channel is replaced, and what its task is about to write is known. -/
theorem Vouched.rechannelled (vouched : f.Vouched) {server : Server} {number : Nat}
    {recording : Option CommandRecord}
    (changed : Server.Rechannelled f.server server number recording) {ends : List AgentEnd}
    (up : NoNewResults f.ends ends)
    (known : ∀ {call rec}, call ∈ f.server.calls → recording = some rec →
      About f.executed call rec) : Vouched ⟨server, ends, f.executed⟩ := by
  rcases changed with ⟨channel, same, rfl⟩
  refine vouched.server up vouched.unanswered ?_ vouched.stored
  intro call other rec member isChannel about
  rcases List.mem_or_eq_of_mem_set isChannel with old | rfl
  · exact vouched.recording member old about
  · exact known member (same ▸ about)

/-- A call goes on: it may write its own record, which has no result. -/
theorem Vouched.proceed (vouched : f.Vouched) (sound : f.server.Sound) {number : Nat}
    {stored : Bool} {server : Server}
    (step : f.server.step (.proceed number stored) = some server) :
    Vouched ⟨server, f.ends, f.executed⟩ := by
  rcases Server.step_proceed step with ⟨call, progress, found, moved, rfl⟩
  have isCall := List.mem_of_getElem? found
  have unanswered := vouched.unanswered isCall
  have own : progress.call.record.commandId = call.record.commandId ∧
      progress.call.record.agentId = call.record.agentId ∧
      progress.call.record.resultOk = none := by
    cases moved with
    | persist | refusePending | found | absent | send | lose | mark | refuseSent =>
        exact ⟨rfl, rfl, unanswered⟩
  have written : ∀ {commandId rec}, progress.commands.get commandId = some rec →
      f.server.commands.get commandId = some rec ∨
        rec.commandId = call.record.commandId ∧ rec.agentId = call.record.agentId ∧
          rec.resultOk = none := by
    intro commandId rec present
    cases moved with
    | persist =>
        rw [CommandTable.get_persist] at present
        split at present
        · cases present
          exact Or.inr ⟨rfl, rfl, unanswered⟩
        · exact Or.inl present
    | mark =>
        rw [CommandTable.get_persist] at present
        split at present
        · cases present
          exact Or.inr ⟨rfl, rfl, unanswered⟩
        · exact Or.inl present
    | refusePending | found | absent | send | lose | refuseSent => exact Or.inl present
  have others : ∀ {other}, other ∈ f.server.calls.set number progress.call →
      ∃ old ∈ f.server.calls, other.record.commandId = old.record.commandId ∧
        other.record.agentId = old.record.agentId ∧ other.record.resultOk = none := by
    intro other member
    rcases List.mem_or_eq_of_mem_set member with old | rfl
    · exact ⟨other, old, rfl, rfl, vouched.unanswered old⟩
    · exact ⟨call, isCall, own⟩
  refine vouched.server (.refl _) ?_ ?_ ?_
  · intro other member
    rcases others member with ⟨_, _, _, _, none_⟩
    exact none_
  · intro other channel rec member isChannel recording
    rcases others member with ⟨old, isOld, commandId, agentId, _⟩
    rcases moved.extends.1.recordings isChannel with ⟨before, isBefore, same⟩
    exact (vouched.recording isOld isBefore (same ▸ recording)).congr
      (fun _ isIn => isIn) commandId
      agentId
  · intro other commandId rec member present
    rcases others member with ⟨old, isOld, sameId, sameAgent, _⟩
    refine About.congr ?_ (fun _ isIn => isIn) sameId sameAgent
    rcases written present with before | ⟨recId, recAgent, none_⟩
    · exact vouched.stored isOld before
    · intro isOld'
      rw [sound.call_eq isOld isCall (isOld'.symm.trans recId)]
      exact about_unanswered recAgent none_ recId

/-- A call is made, for a command that is neither stored nor about to be written. -/
theorem Vouched.enqueue (vouched : f.Vouched) (sound : f.server.Sound)
    {agentId commandType issuedBy commandId : String} {params : CommandParams} {now : Int}
    {server : Server}
    (step : f.server.step (.enqueue agentId commandType params issuedBy commandId now) =
      some server) :
    Vouched ⟨server, f.ends, f.executed⟩ := by
  rw [Server.step] at step
  split at step
  · next fresh =>
      split at step
      · rw [← Option.some.inj step]
        exact vouched
      · rw [← Option.some.inj step]
        have unknown : ∀ {rec : CommandRecord}, rec.commandId = commandId →
            (f.server.commands.get rec.commandId).isSome ≠ true := by
          rintro rec rfl
          rw [fresh.1]
          decide
        refine vouched.server (.refl _) ?_ ?_ ?_
        · intro call member
          rcases List.mem_append.mp member with old | new
          · exact vouched.unanswered old
          · rw [List.mem_singleton.mp new]
            rfl
        · intro call channel rec member isChannel recording
          rcases List.mem_append.mp member with old | new
          · exact vouched.recording old isChannel recording
          · rw [List.mem_singleton.mp new]
            exact fun same => absurd (sound.recorded isChannel recording).2 (unknown same)
        · intro call other rec member present
          rcases List.mem_append.mp member with old | new
          · exact vouched.stored old present
          · rw [List.mem_singleton.mp new]
            intro same
            refine absurd ?_ (unknown same)
            rw [CommandTable.commandId_of_get present, present]
            rfl
  · cases step

/-- What the server does without a message of an agent. -/
theorem Vouched.acts (vouched : f.Vouched) (sound : f.server.Sound) {event : ServerEvent}
    {server : Server} (step : f.server.step event = some server)
    (fromAgent : ∀ number result now, event ≠ .readResult number result now) :
    Vouched ⟨server, f.follow event, f.executed⟩ := by
  have up := noNewResults_follow f event
  cases event with
  | session event =>
      rcases Server.step_session step with ⟨gateway, channels, _, old, rfl⟩
      refine vouched.server up vouched.unanswered ?_ vouched.stored
      intro call channel rec member isChannel recording
      rcases old channel isChannel with isOld | nothing
      · exact vouched.recording member isOld recording
      · rw [nothing] at recording
        cases recording
  | enqueue agentId commandType params issuedBy commandId now => exact vouched.enqueue sound step
  | proceed number stored => exact vouched.proceed sound step
  | forward number =>
      rcases Server.step_forward step with ⟨channel, present, moved⟩
      exact vouched.rechannelled moved up fun member recording =>
        vouched.recording member (List.mem_of_getElem? present) recording
  | readResult number result now => exact absurd rfl (fromAgent number result now)
  | writeResult number stored =>
      rcases Server.step_writeResult step with ⟨channel, rec, present, recording, rfl⟩
      have isChannel := List.mem_of_getElem? present
      refine vouched.server up vouched.unanswered ?_ ?_
      · intro call other about member isOther isAbout
        rcases List.mem_or_eq_of_mem_set isOther with old | rfl
        · exact vouched.recording member old isAbout
        · cases isAbout
      · intro call commandId about member found
        cases stored with
        | false => exact vouched.stored member found
        | true =>
            rw [if_pos rfl, CommandTable.get_persist] at found
            split at found
            · cases found
              exact vouched.recording member isChannel recording
            · exact vouched.stored member found
  | drop number =>
      rcases Server.step_drop step with ⟨channel, present, moved⟩
      exact vouched.rechannelled moved up fun member recording =>
        vouched.recording member (List.mem_of_getElem? present) recording

/-- More has been executed, and new results are of what has been executed. -/
theorem Vouched.more (vouched : f.Vouched) {ends : List AgentEnd} {executed : List Execution}
    (grows : f.executed ⊆ executed)
    (results : ∀ {execution}, execution ∈ executed →
      execution.result.commandId = execution.command.commandId)
    (up : ∀ {agentEnd result}, agentEnd ∈ ends → result ∈ agentEnd.up →
      ∃ execution ∈ executed, execution.result = result) : Vouched ⟨f.server,
        ends, executed⟩ where
  results := results
  up := up
  unanswered := vouched.unanswered
  recording := fun member isChannel recording =>
    (vouched.recording member isChannel recording).congr grows rfl rfl
  stored := fun member present => (vouched.stored member present).congr grows rfl rfl

/-- The agent executes a command, and the result names it. -/
theorem Vouched.execute (vouched : f.Vouched) {number task : Nat} {ok sent : Bool}
    {message : String} {payload : List UInt8}
    (step : f.step (.execute number task ok message payload sent) = some f') : f'.Vouched := by
  rw [Fleet.step] at step
  split at step
  · next agentEnd atEnd =>
      split at step
      · next cmd isTask =>
          rw [← Option.some.inj step]
          refine vouched.more (List.subset_append_left _ _) ?_ ?_
          · intro execution member
            rcases List.mem_append.mp member with old | new
            · exact vouched.results old
            · rw [List.mem_singleton.mp new]
          · intro other result member isUp
            have before : ∀ {old}, old ∈ f.ends → result ∈ old.up →
                ∃ execution ∈ f.executed ++ [⟨agentEnd.agentId,
                  cmd, ⟨cmd.commandId, ok, message, payload⟩⟩],
                  execution.result = result := by
              intro old isOld wasUp
              rcases vouched.up isOld wasUp with ⟨execution, isIn, same⟩
              exact ⟨execution, List.mem_append_left _ isIn, same⟩
            rcases List.mem_or_eq_of_mem_set member with old | rfl
            · exact before old isUp
            · dsimp only at isUp
              split at isUp
              · rcases List.mem_append.mp isUp with wasUp | new
                · exact before (List.mem_of_getElem? atEnd) wasUp
                · exact ⟨_, List.mem_append_right _ (List.mem_singleton_self _),
                    (List.mem_singleton.mp new).symm⟩
              · exact before (List.mem_of_getElem? atEnd) isUp
      · cases step
  · cases step

/-! ## The results that the server reads -/

/-- What has been executed on the host of an agent was issued for it. -/
theorem executed_call (reachable : fleets.Reachable f) {execution : Execution}
    (member : execution ∈ f.executed) :
    ∃ call ∈ f.server.calls, call.handed = true ∧ call.record.agentId = execution.agentId ∧
      call.command = execution.command := by
  have fair := Courier.fair_of_reachable (refines_of_reachable reachable).2
  have isDone : (execution.agentId, execution.command) ∈ f.courier.done :=
    List.mem_map.mpr ⟨execution, member, rfl⟩
  rcases fair.ordered isDone with ⟨order, isOrder, party, item, handed⟩
  rcases List.mem_map.mp isOrder with ⟨call, isCall, rfl⟩
  exact ⟨call, isCall, handed, party, item⟩

/-- A result that is read is about the command that has been executed. -/
theorem Vouched.report (vouched : f.Vouched) (reachable : fleets.Reachable f) {number : Nat}
    {now : Int} (step : f.step (.report number now) = some f') : f'.Vouched := by
  have sound := (refines_of_reachable reachable).1.sound
  rw [Fleet.step] at step
  split at step
  · next agentEnd atEnd =>
      split at step
      · next result up isUp =>
          rcases Option.map_eq_some_iff.mp step with ⟨server, moved, rfl⟩
          have fewer : up ⊆ agentEnd.up := by
            rw [isUp]
            exact List.subset_cons_self _ _
          refine vouched.rechannelled (Server.step_readResult moved)
            (noNewResults_set atEnd fewer) ?_
          intro call rec member recording
          rcases Option.map_eq_some_iff.mp recording with ⟨old, found, rfl⟩
          intro same
          have filed : old.commandId = result.commandId := CommandTable.commandId_of_get found
          have party : old.agentId = call.record.agentId := (vouched.stored member found same).1
          refine ⟨party, fun _ => ?_⟩
          have onTheWay : result ∈ agentEnd.up := by
            rw [isUp]
            exact List.mem_cons_self
          rcases vouched.up (List.mem_of_getElem? atEnd) onTheWay with ⟨execution, isIn, rfl⟩
          have about := vouched.results isIn
          rcases executed_call reachable isIn with ⟨other, isOther, _, agent, command⟩
          have isCall : other = call := by
            refine sound.call_eq isOther member ?_
            rw [← other.commandId_command, command, ← about, ← filed]
            exact same
          refine ⟨execution, isIn, old, now, rfl, about.symm.trans filed.symm, ?_⟩
          rw [← agent, isCall]
          exact party.symm
      · cases step
  · cases step

/-- Every step keeps the invariant. -/
theorem Vouched.step (vouched : f.Vouched) (reachable : fleets.Reachable f) {event : FleetEvent}
    (step : f.step event = some f') : f'.Vouched := by
  have sound := (refines_of_reachable reachable).1.sound
  cases event with
  | server event =>
      rcases step_server step with ⟨server, moved, fromAgent, rfl⟩
      exact vouched.acts sound moved fromAgent
  | take number =>
      rw [Fleet.step] at step
      split at step
      · next agentEnd atEnd =>
          split at step
          · rw [← Option.some.inj step]
            exact vouched.server (noNewResults_set atEnd fun _ isUp => isUp) vouched.unanswered
              vouched.recording vouched.stored
          · cases step
      · cases step
  | execute number task ok message payload sent => exact vouched.execute step
  | report number now => exact vouched.report reachable step
  | lose number =>
      rw [Fleet.step] at step
      split at step
      · next agentEnd atEnd =>
          rw [← Option.some.inj step]
          exact vouched.server (noNewResults_set atEnd (List.nil_subset _)) vouched.unanswered
            vouched.recording vouched.stored
      · cases step

theorem vouched_of_reachable (reachable : fleets.Reachable f) : f.Vouched := by
  rcases reachable with ⟨origin, ⟨store, commands, rfl⟩, run⟩
  induction run with
  | refl => exact vouched_start store commands
  | tail before next inductionHypothesis =>
      rcases next with ⟨event, step⟩
      exact inductionHypothesis.step ⟨_, ⟨store, commands, rfl⟩, before⟩ step

end Fleet

/-- In every run of a server and its agents no command is executed twice; what is executed on the
host of an agent is a command that a call has built for this agent; and a finished record of a
call has the result of the execution of its command, on the host of its agent. -/
theorem executed_once {f : Fleet} (reachable : fleets.Reachable f) :
    (f.executed.map fun execution => execution.command.commandId).Nodup ∧
    (∀ execution ∈ f.executed, ∃ call ∈ f.server.calls,
      call.record.agentId = execution.agentId ∧
      execution.command =
        buildCommand call.record.commandId call.ctype call.record.params) ∧
    ∀ call ∈ f.server.calls, ∀ rec, f.server.commands.get call.record.commandId = some rec →
      rec.Finished → ∃ execution ∈ f.executed, ∃ old now,
        rec = CommandRecord.finish old execution.result now ∧
          execution.command.commandId = call.record.commandId ∧
          execution.agentId = call.record.agentId := by
  refine ⟨?_, ?_, ?_⟩
  · have fair := Courier.fair_of_reachable (Fleet.refines_of_reachable reachable).2
    have once := fair.done_nodup
    rw [Fleet.courier, List.map_map] at once
    exact once
  · intro execution member
    rcases Fleet.executed_call reachable member with ⟨call, isCall, _, agent, command⟩
    exact ⟨call, isCall, agent, command.symm⟩
  · intro call member rec found finished
    have filed := CommandTable.commandId_of_get found
    rcases (Fleet.vouched_of_reachable reachable).stored member found filed with
      ⟨party, vouches⟩
    rcases vouches finished.2 with ⟨execution, isIn, old, now, same, commandId, agentId⟩
    exact ⟨execution, isIn, old, now, same, commandId.trans filed, agentId.trans party⟩

/-- One agent and one command. -/
def oneCommand : List FleetEvent :=
  [.server (.session (.enroll "agent" ⟨"host", "linux", "6", "1", "f"⟩ "secret" 1)),
    .server (.session (.hello "agent" "secret" 2)),
    .server (.enqueue "agent" "kill" ⟨some 7, none, none, none, none⟩ "admin" "c-1" 3),
    .server (.proceed 0 true), .server (.proceed 0 true), .server (.proceed 0 true),
    .server (.proceed 0 true), .server (.forward 0), .take 0,
    .execute 0 0 true "killed pid 7" [] true, .report 0 9, .server (.writeResult 0 true)]

theorem executed_once_oneCommand : ∃ f, fleets.Reachable f ∧ f.executed.length = 1 ∧
    ∀ execution ∈ f.executed, ∃ call ∈ f.server.calls,
      call.record.agentId = execution.agentId := by
  have ran : ((TransitionSystem.follow Fleet.step (Fleet.start ∅ ⟨∅, by rintro _ _ ⟨⟩⟩)
      oneCommand).map fun f => f.executed.length) = some 1 := by
    decide +kernel
  rcases Option.map_eq_some_iff.mp ran with ⟨f, followed, shown⟩
  have reachable : fleets.Reachable f :=
    ⟨_, ⟨∅, _, rfl⟩, TransitionSystem.Reaches.of_follow (fun _ _ _ step => step) followed⟩
  refine ⟨f, reachable, shown, fun execution member => ?_⟩
  rcases (executed_once reachable).2.1 execution member with ⟨call, isCall, agent, _⟩
  exact ⟨call, isCall, agent⟩

end Edr
end Sigil
