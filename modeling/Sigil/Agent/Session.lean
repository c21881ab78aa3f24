import Mathlib.Data.List.Perm.Basic
import Sigil.Library.Transition

namespace Sigil
namespace Agent

/-!
# The sessions of an agent

The collectors put events into a channel that outlives the sessions.  A session takes them out
one by one, gathers them in a batch of its own and hands the batch to the upstream sender when
it is full and at every tick of a timer.  A session can end at any time, and the next one
begins with an empty batch.
-/

open Sigil.Library

/-- Who the agent is to the server. -/
structure AgentIdentity where
  agentId : String
  sessionToken : String

/-- A message up the stream; `ε` is the type of the telemetry events. -/
inductive AgentMessage (ε : Type) where
  | hello (agentId sessionToken : String)
  | telemetry (events : List ε)
  | heartbeat (ts : Int) (isolated : Bool)

/-- The telemetry in a message. -/
def AgentMessage.events {ε : Type} : AgentMessage ε → List ε
  | .telemetry events => events
  | _ => []

/-- The agent's side of the link. -/
structure Link (ε : Type) where
  /-- Everything the collectors have put into the channel. -/
  arrived : List ε
  channel : List ε
  collectorsGone : Bool
  /-- The batch of the session, if there is one. -/
  batch : Option (List ε)
  /-- What the upstream senders have accepted. -/
  upstream : List (AgentMessage ε)

/-- How far a session comes before its loop begins. -/
inductive Opening where
  | failed
  | rejected
  | accepted

/-- What happens to the link.  A flag `sent` says whether the upstream sender accepts the message
that the step sends, if it sends one. -/
inductive LinkEvent (ε : Type) where
  | arrive (ev : ε)
  | leave
  | connect (opening : Opening)
  | recv (sent : Bool)
  | recvNone
  | flush (sent : Bool)
  | heartbeat (ts : Int) (isolated sent : Bool)
  | down (message : Bool)

namespace Link

variable {ε : Type}

def start : Link ε where
  arrived := []
  channel := []
  collectorsGone := false
  batch := none
  upstream := []

/-- Take the batch and send it.  Without success the session ends, and what was taken is gone. -/
def sendBatch (link : Link ε) (events : List ε) (sent : Bool) : Link ε :=
  if sent then { link with batch := some [], upstream := link.upstream ++ [.telemetry events] }
  else { link with batch := none }

def step (identity : AgentIdentity) (batchSize : Nat) (link : Link ε) :
    LinkEvent ε → Option (Link ε)
  | .arrive ev =>
      if link.collectorsGone then none
      else some { link with arrived := link.arrived ++ [ev], channel := link.channel ++ [ev] }
  | .leave => some { link with collectorsGone := true }
  | .connect opening =>
      match link.batch with
      | some _ => none
      | none =>
          let hello := .hello identity.agentId identity.sessionToken
          match opening with
          | .failed => some link
          | .rejected => some { link with upstream := link.upstream ++ [hello] }
          | .accepted => some { link with batch := some [], upstream := link.upstream ++ [hello] }
  | .recv sent =>
      match link.batch, link.channel with
      | some batch, ev :: channel =>
          let batch := batch ++ [ev]
          let link := { link with batch := some batch, channel := channel }
          some (if batchSize ≤ batch.length then link.sendBatch batch sent else link)
      | _, _ => none
  | .recvNone =>
      match link.batch, link.channel with
      | some _, [] => if link.collectorsGone then some { link with batch := none } else none
      | _, _ => none
  | .flush sent =>
      link.batch.map fun batch => if batch = [] then link else link.sendBatch batch sent
  | .heartbeat ts isolated sent =>
      link.batch.map fun _ =>
        if sent then { link with upstream := link.upstream ++ [.heartbeat ts isolated] }
        else { link with batch := none }
  | .down message => link.batch.map fun _ => if message then link else { link with batch := none }

/-! ## What is lost -/

/-- The events that have been handed to the upstream senders. -/
def handed (link : Link ε) : List ε :=
  link.upstream.flatMap AgentMessage.events

/-- Between two sessions every event is either handed over or in the channel. -/
def Kept (link : Link ε) : Prop :=
  link.batch = none → link.arrived.Perm (link.handed ++ link.channel)

/-- The step does not end a session that has events in its batch, also not those that it takes
itself. -/
def Harmless (batchSize : Nat) (link : Link ε) : LinkEvent ε → Prop
  | .recv sent =>
    ∀ batch, link.batch = some batch → batchSize ≤ batch.length + 1 → sent = true
  | .recvNone => ∀ batch, link.batch = some batch → batch = []
  | .flush sent => ∀ batch, link.batch = some batch → batch ≠ [] → sent = true
  | .heartbeat _ _ sent => ∀ batch, link.batch = some batch → batch ≠ [] → sent = true
  | .down message => ∀ batch, link.batch = some batch → batch ≠ [] → message = true
  | _ => True

/-- Some events are held in between: with what has been handed over before them and what is in the
channel behind them, they are everything that has arrived. -/
def Holding (link : Link ε) (events : List ε) : Prop :=
  link.arrived = link.handed ++ (events ++ link.channel)

/-- Every event is handed over, in the batch or in the channel, in this order. -/
def Conserved (link : Link ε) : Prop :=
  link.Holding (link.batch.getD [])

variable {link after : Link ε} {batch : List ε}

theorem conserved_start : (start : Link ε).Conserved :=
  rfl

theorem Conserved.holding (conserved : link.Conserved) (running : link.batch = some batch) :
    link.Holding batch := by
  rw [Conserved, running] at conserved
  exact conserved

theorem Conserved.kept (conserved : link.Conserved) : link.Kept := by
  intro idle
  rw [Conserved, idle, Holding] at conserved
  rw [conserved]
  exact List.Perm.refl _

/-- If a session ends that holds events, they are lost. -/
theorem kept_drop_iff (holding : link.Holding batch) :
    Kept { link with batch := none } ↔ batch = [] := by
  constructor
  · intro kept
    have lengths := (kept rfl).length_eq
    rw [show link.arrived = _ from holding] at lengths
    apply List.eq_nil_of_length_eq_zero
    simp only [handed, List.length_append] at lengths
    omega
  · rintro rfl _
    exact List.Perm.of_eq holding

theorem handed_append (link : Link ε) (message : AgentMessage ε) (batch : Option (List ε)) :
    ({ link with batch := batch, upstream := link.upstream ++ [message] } : Link ε).handed =
      link.handed ++ message.events := by
  simp [handed]

/-- A message without telemetry changes nothing. -/
theorem Holding.message (holding : link.Holding (batch : List ε)) {message : AgentMessage ε}
    (noTelemetry : message.events = []) (running : Option (List ε)) :
    Holding { link with batch := running, upstream := link.upstream ++ [message] } batch := by
  rw [Holding, handed_append, noTelemetry, List.append_nil]
  exact holding

theorem Conserved.message (conserved : link.Conserved) {message : AgentMessage ε}
    (noTelemetry : message.events = []) :
    Conserved { link with upstream := link.upstream ++ [message] } :=
  Holding.message conserved noTelemetry link.batch

/-- A batch that is sent is handed over as a whole. -/
theorem conserved_sendBatch (holding : link.Holding batch) :
    (link.sendBatch batch true).Conserved := by
  have handedOver : (link.sendBatch batch true).handed = link.handed ++ batch :=
    handed_append link (.telemetry batch) (some [])
  rw [Conserved, Holding, handedOver, List.append_assoc]
  exact holding

/-- A step either ends no session with events, and everything is still there, or loses some. -/
def Outcome (harmless : Prop) (after : Link ε) : Prop :=
  (harmless ∧ after.Conserved) ∨ (¬ harmless ∧ ¬ after.Kept)

/-- A session that ends with its events. -/
theorem outcome_drop (holding : link.Holding batch) {harmless : Prop}
    (harmless_iff : harmless ↔ batch = []) : Outcome harmless { link with batch := none } := by
  by_cases empty : batch = []
  · subst empty
    exact Or.inl ⟨harmless_iff.mpr rfl, holding⟩
  · exact Or.inr ⟨mt harmless_iff.mp empty, mt (kept_drop_iff holding).mp empty⟩

theorem outcome_sendBatch (holding : link.Holding batch) (nonempty : batch ≠ []) {sent : Bool}
    {harmless : Prop} (harmless_iff : harmless ↔ sent = true) :
    Outcome harmless (link.sendBatch batch sent) := by
  cases sent with
  | true => exact Or.inl ⟨harmless_iff.mpr rfl, conserved_sendBatch holding⟩
  | false => exact outcome_drop holding (harmless_iff.trans (by simp [nonempty]))

/-! ## One step -/

variable {identity : AgentIdentity} {batchSize : Nat}

/-- A session takes an event out of the channel: it holds one more, and sends the batch if it is
full. -/
theorem step_recv {sent : Bool} (stepped : link.step identity batchSize (.recv sent) = some after) :
    ∃ batch ev channel, link.batch = some batch ∧ link.channel = ev :: channel ∧
      after = if batchSize ≤ batch.length + 1 then
          ({ link with batch := some (batch ++ [ev]), channel := channel } : Link ε).sendBatch
            (batch ++ [ev]) sent
        else { link with batch := some (batch ++ [ev]), channel := channel } := by
  rw [step] at stepped
  split at stepped
  · next batch ev channel running waiting =>
      refine ⟨batch, ev, channel, running, waiting, ?_⟩
      rw [← Option.some.inj stepped, List.length_append, List.length_singleton]
  · cases stepped

theorem step_recvNone (stepped : link.step identity batchSize .recvNone = some after) :
    ∃ batch, link.batch = some batch ∧ after = { link with batch := none } := by
  rw [step] at stepped
  split at stepped
  · next batch running empty =>
      split at stepped
      · exact ⟨batch, running, (Option.some.inj stepped).symm⟩
      · cases stepped
  · cases stepped

/-- A step that opens a session leaves the channel and what is held alone. -/
theorem step_connect {opening : Opening}
    (stepped : link.step identity batchSize (.connect opening) = some after)
    (conserved : link.Conserved) : after.Conserved := by
  rw [step] at stepped
  split at stepped
  · cases stepped
  · next idle =>
      cases opening with
      | failed =>
          cases stepped
          exact conserved
      | rejected =>
          cases stepped
          exact conserved.message rfl
      | accepted =>
          cases stepped
          rw [Conserved, idle] at conserved
          exact Holding.message conserved rfl (some [])

/-- The batch grows by an event that leaves the channel. -/
theorem Conserved.holding_taken (conserved : link.Conserved) {ev : ε} {channel : List ε}
    (running : link.batch = some batch) (waiting : link.channel = ev :: channel) :
    Holding { link with batch := some (batch ++ [ev]), channel := channel } (batch ++ [ev]) := by
  have holding := conserved.holding running
  rw [Holding, waiting] at holding
  rw [Holding, List.append_assoc]
  exact holding

/-- The events that a session holds are lost exactly in the steps that end it. -/
theorem outcome_step (conserved : link.Conserved) {event : LinkEvent ε}
    (stepped : link.step identity batchSize event = some after) :
    Outcome (link.Harmless batchSize event) after := by
  cases event with
  | arrive ev =>
      rw [step] at stepped
      split at stepped
      · cases stepped
      · cases stepped
        rw [Conserved, Holding] at conserved
        refine Or.inl ⟨trivial, ?_⟩
        simp only [Conserved, Holding, conserved, List.append_assoc]
        rfl
  | leave =>
      cases stepped
      exact Or.inl ⟨trivial, conserved⟩
  | connect opening => exact Or.inl ⟨trivial, step_connect stepped conserved⟩
  | recv sent =>
      rcases step_recv stepped with ⟨batch, ev, channel, running, waiting, rfl⟩
      have holding := conserved.holding_taken running waiting
      split
      · next full =>
          apply outcome_sendBatch holding
            (List.append_ne_nil_of_right_ne_nil _ (List.cons_ne_nil _ _))
          simp [Harmless, running, full]
      · next room => exact Or.inl ⟨by simp [Harmless, running, room], holding⟩
  | recvNone =>
      rcases step_recvNone stepped with ⟨batch, running, rfl⟩
      apply outcome_drop (conserved.holding running)
      simp [Harmless, running]
  | flush sent =>
      rcases Option.map_eq_some_iff.mp stepped with ⟨batch, running, rfl⟩
      split
      · next empty => exact Or.inl ⟨by simp [Harmless, running, empty], conserved⟩
      · next nonempty =>
          apply outcome_sendBatch (conserved.holding running) nonempty
          simp [Harmless, running, nonempty]
  | heartbeat ts isolated sent =>
      rcases Option.map_eq_some_iff.mp stepped with ⟨batch, running, rfl⟩
      cases sent with
      | true => exact Or.inl ⟨fun _ _ _ => rfl, conserved.message rfl⟩
      | false =>
          apply outcome_drop (conserved.holding running)
          simp [Harmless, running]
  | down message =>
      rcases Option.map_eq_some_iff.mp stepped with ⟨batch, running, rfl⟩
      cases message with
      | true => exact Or.inl ⟨fun _ _ _ => rfl, conserved⟩
      | false =>
          apply outcome_drop (conserved.holding running)
          simp [Harmless, running]

/-! ## Runs -/

/-- In a run nothing is lost exactly if no session of it ends that has events in its batch. -/
theorem kept_iff_harmless (identity : AgentIdentity) (batchSize : Nat)
    (events : List (LinkEvent ε)) :
    TransitionSystem.Along (step identity batchSize) (fun _ _ after => after.Kept) start events ↔
      TransitionSystem.Along (step identity batchSize)
        (fun before event _ => before.Harmless batchSize event) start events := by
  apply TransitionSystem.along_congr _ _ Conserved
  · intro before event after conserved stepped
    rcases outcome_step conserved stepped with ⟨harmless, held⟩ | ⟨harmful, lost⟩
    · exact iff_of_true held.kept harmless
    · exact iff_of_false lost harmful
  · intro before event after conserved stepped kept
    rcases outcome_step conserved stepped with ⟨-, held⟩ | ⟨-, lost⟩
    · exact held
    · exact absurd kept lost
  · exact conserved_start

/-- One event arrives and is taken out of the channel, and the server closes the stream. -/
def closedEarly : List (LinkEvent String) :=
  [.arrive "process start", .connect .accepted, .recv true, .down false]

/-- The event is then in no place. -/
theorem not_kept :
    ¬ ∀ (events : List (LinkEvent String)) (link : Link String),
      TransitionSystem.follow (step ⟨"agent", "secret"⟩ 100) start events =
        some link → link.Kept := by
  intro always
  have followed : TransitionSystem.follow (step ⟨"agent", "secret"⟩ 100) start closedEarly =
      some ⟨["process start"], [], false, none, [.hello "agent" "secret"]⟩ := rfl
  have lengths := (always closedEarly _ followed rfl).length_eq
  exact absurd lengths (by decide)

end Link

end Agent
end Sigil
