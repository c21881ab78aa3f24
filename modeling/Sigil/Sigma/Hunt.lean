import Sigil.Sigma.Correlation
import Sigil.Sigma.Engine

namespace Sigil
namespace Sigma

/-!
# Hunting in history

A hunt sorts events by time and replays them through the rules and the correlations.  What
it finds only depends on a part of each event: two events with the same view trigger the
same rules, fall into the same groups and raise the same alerts.
-/

open Sigil.Core

/-- A set of compiled rules, evaluated as a unit. -/
structure SigmaEngine (lib : Libraries) where
  rules : List (CompiledRule lib)

/-- Result of a hunt. -/
structure HuntOutcome where
  scanned : Nat
  alerts : List Alert
  correlationAlerts : List Alert
  deriving DecidableEq, Repr

namespace HuntOutcome

/-- All alerts, base then correlation. -/
def allAlerts (outcome : HuntOutcome) : List Alert :=
  outcome.alerts ++ outcome.correlationAlerts

end HuntOutcome

section

variable {lib : Libraries}

/-- The alerts of all rules for one event. -/
def SigmaEngine.eval (engine : SigmaEngine lib) (event : Event) (clock : Int) : List Alert :=
  (engine.rules.filter fun rule => rule.matches event).map fun rule => rule.toAlert event clock

/-- One event of the replay, with the correlations and the outcome so far. -/
def huntStep (engine : SigmaEngine lib) (state : CorrelationEngine × HuntOutcome) (event : Event)
    (clock : Int) : CorrelationEngine × HuntOutcome :=
  let base := engine.eval event clock
  let (correlations, fired) := state.1.process event base clock
  (correlations,
    { state.2 with
      correlationAlerts := state.2.correlationAlerts ++ fired
      alerts := state.2.alerts ++ base.filter fun alert => !correlations.suppressed alert.ruleId })

/-- Replay events in their order; the clock is read anew for each of them. -/
def replay (engine : SigmaEngine lib) (clock : Nat → Int) :
    Nat → CorrelationEngine × HuntOutcome → List Event → CorrelationEngine × HuntOutcome
  | _, state, [] => state
  | n, state, event :: events =>
      replay engine clock (n + 1) (huntStep engine state event (clock n)) events

/-- Replay events in the order of their times. -/
def retroHunt (engine : SigmaEngine lib) (correlations : CorrelationEngine) (clock : Nat → Int)
    (events : List Event) : CorrelationEngine × HuntOutcome :=
  replay engine clock 0
    (correlations, { scanned := events.length, alerts := [], correlationAlerts := [] })
    (events.insertionSort fun a b => a.ts ≤ b.ts)

end

/-! ## What a hunt sees of an event -/

/-- Two events agree in everything that rules and correlations look at. -/
structure SameView (first second : Event) : Prop where
  id : first.id = second.id
  ts : first.ts = second.ts
  message : first.message = second.message
  fields : first.fields = second.fields
  actorKind : first.actor.map EntityRef.kind = second.actor.map EntityRef.kind
  actor : first.actor.map EntityRef.id = second.actor.map EntityRef.id
  host : first.host.map EntityRef.id = second.host.map EntityRef.id
  target : first.target.map EntityRef.id = second.target.map EntityRef.id

theorem entityId_congr {first second : Option EntityRef}
    (same : first.map EntityRef.id = second.map EntityRef.id) :
    entityId first = entityId second := by
  have through :
      ∀ entity, entityId entity = ((entity.map EntityRef.id).map nonempty).getD [] := by
    intro entity
    cases entity with
    | none => rfl
    | some e => rfl
  rw [through, through, same]

theorem entityIdOfKind_congr {first second : Option EntityRef} (kind : String)
    (kinds : first.map EntityRef.kind = second.map EntityRef.kind)
    (same : first.map EntityRef.id = second.map EntityRef.id) :
    entityIdOfKind kind first = entityIdOfKind kind second := by
  cases first with
  | none =>
      rw [Option.map_eq_none_iff.mp kinds.symm]
  | some e =>
      rcases Option.map_eq_some_iff.mp kinds.symm with ⟨e', rfl, sameKind⟩
      unfold entityIdOfKind
      apply entityId_congr
      by_cases isKind : e.kind = kind
      · rw [Option.filter_some, Option.filter_some, if_pos (decide_eq_true isKind),
          if_pos (decide_eq_true (sameKind.trans isKind))]
        exact same
      · rw [Option.filter_some, Option.filter_some,
          if_neg fun equal => isKind (of_decide_eq_true equal),
          if_neg fun equal => isKind (sameKind.symm.trans (of_decide_eq_true equal))]

namespace SameView

variable {first second : Event} (same : SameView first second)

include same

theorem resolveAlias (name : String) :
    resolveAlias first name = Sigma.resolveAlias second name := by
  unfold Sigma.resolveAlias
  rw [same.message, entityIdOfKind_congr "user" same.actorKind same.actor,
    entityIdOfKind_congr "process" same.actorKind same.actor, entityId_congr same.host,
    entityId_congr same.actor, entityId_congr same.target]

theorem resolveField (name : String) :
    resolveField first name = Sigma.resolveField second name := by
  unfold Sigma.resolveField
  rw [same.fields, same.resolveAlias]

theorem haystack (lib : Libraries) : eventHaystack lib first = eventHaystack lib second := by
  have texts : ∀ event : Event,
      ([event.actor, event.host, event.target].reduceOption.map fun e => " " ++ e.id) =
        [event.actor.map EntityRef.id, event.host.map EntityRef.id,
          event.target.map EntityRef.id].reduceOption.map fun id => " " ++ id := by
    intro event
    cases event.actor <;> cases event.host <;> cases event.target <;> rfl
  unfold eventHaystack eventText
  rw [texts, texts, same.message, same.fields, same.actor, same.host, same.target]

theorem fieldCond {lib : Libraries} (cond : FieldCond lib) :
    cond.eval first = cond.eval second := by
  unfold FieldCond.eval
  rw [same.resolveField]

end SameView

mutual

theorem Selection.eval_congr {lib : Libraries} {first second : Event} (same : SameView first second)
    (haystack : String) :
    ∀ selection : Selection lib, selection.eval first haystack = selection.eval second haystack
  | .fields conds => by
      unfold Selection.eval
      rw [funext same.fieldCond]
  | .anyOf items => by
      unfold Selection.eval
      exact Selection.evalAny_congr same haystack items
  | .keywords preds => by
      unfold Selection.eval
      rfl

theorem Selection.evalAny_congr {lib : Libraries} {first second : Event}
    (same : SameView first second) (haystack : String) :
    ∀ items : List (Selection lib),
      Selection.evalAny first haystack items = Selection.evalAny second haystack items
  | [] => rfl
  | item :: items => by
      unfold Selection.evalAny
      rw [Selection.eval_congr same haystack item, Selection.evalAny_congr same haystack items]

end

/-! ## What a hunt finds -/

section

variable {lib : Libraries} {first second : Event} (same : SameView first second)

include same

theorem SameView.matches (rule : CompiledRule lib) : rule.matches first = rule.matches second := by
  have selections : ∀ haystack, @Selection.eval lib first haystack =
      Selection.eval second haystack :=
    fun haystack => funext (Selection.eval_congr same haystack)
  unfold CompiledRule.matches
  rw [same.haystack lib]
  simp only [selections]

theorem SameView.groupKey (rule : CompiledCorrelation) :
    rule.groupKey first = rule.groupKey second := by
  unfold CompiledCorrelation.groupKey
  rw [funext same.resolveField]

/-- An event with a time of its own does not look at the clock. -/
theorem SameView.eventTime (nonzero : first.ts ≠ 0) (clock clock' : Int) :
    eventTime first clock = Sigma.eventTime second clock' := by
  unfold Sigma.eventTime
  rw [if_pos nonzero, if_pos (same.ts ▸ nonzero), same.ts]

theorem SameView.alerts (engine : SigmaEngine lib) (nonzero : first.ts ≠ 0) (clock clock' : Int) :
    engine.eval first clock = engine.eval second clock' := by
  have times := same.eventTime nonzero clock clock'
  have alert :
      ∀ rule : CompiledRule lib, rule.toAlert first clock = rule.toAlert second clock' := by
    intro rule
    unfold Sigma.eventTime at times
    unfold CompiledRule.toAlert
    rw [times, same.id]
  unfold SigmaEngine.eval
  rw [funext same.matches, funext alert]

theorem SameView.process (engine : CorrelationEngine) (baseAlerts : List Alert)
    (nonzero : first.ts ≠ 0) (clock clock' : Int) :
    engine.process first baseAlerts clock = engine.process second baseAlerts clock' := by
  have one : ∀ (rule : CompiledCorrelation) (windows : Windows),
      rule.process windows first baseAlerts clock =
        rule.process windows second baseAlerts clock' := by
    intro rule windows
    unfold CompiledCorrelation.process CompiledCorrelation.window CompiledCorrelation.entries
    rw [same.eventTime nonzero clock clock', same.groupKey, same.id, funext same.resolveField]
  unfold CorrelationEngine.process
  simp only [one]

theorem SameView.huntStep (engine : SigmaEngine lib) (state : CorrelationEngine × HuntOutcome)
    (nonzero : first.ts ≠ 0) (clock clock' : Int) :
    huntStep engine state first clock = Sigma.huntStep engine state second clock' := by
  have processed :
      ∀ base, state.1.process first base clock = state.1.process second base clock' :=
    fun base => same.process state.1 base nonzero clock clock'
  unfold Sigma.huntStep
  simp only [same.alerts engine nonzero clock clock', processed]

end

/-- A replay of events with the same views finds the same, whatever the clock shows. -/
theorem replay_congr {lib : Libraries} (engine : SigmaEngine lib) (clock clock' : Nat → Int)
    {firsts seconds : List Event} (same : List.Forall₂ SameView firsts seconds)
    (nonzero : ∀ event, event ∈ firsts → event.ts ≠ 0) (n : Nat)
    (state : CorrelationEngine × HuntOutcome) :
    replay engine clock n state firsts = replay engine clock' n state seconds := by
  induction same generalizing n state with
  | nil => rfl
  | cons here _ inductionHypothesis =>
      unfold replay
      rw [here.huntStep engine state (nonzero _ List.mem_cons_self) (clock n) (clock' n)]
      exact inductionHypothesis (fun event member => nonzero event (List.mem_cons_of_mem _ member))
        (n + 1) _

/-- A hunt over views of events finds what a hunt over the events finds. -/
theorem retroHunt_map {lib : Libraries} (engine : SigmaEngine lib)
    (correlations : CorrelationEngine) (clock clock' : Nat → Int) {events : List Event}
    {view : Event → Event} (same : ∀ event, event ∈ events → SameView (view event) event)
    (nonzero : ∀ event, event ∈ events → event.ts ≠ 0) :
    retroHunt engine correlations clock (events.map view) =
      retroHunt engine correlations clock' events := by
  have sorted : (events.map view).insertionSort (fun a b => a.ts ≤ b.ts) =
      (events.insertionSort fun a b => a.ts ≤ b.ts).map view := by
    refine (List.map_insertionSort _ _ view events fun a isA b isB => ?_).symm
    rw [(same a isA).ts, (same b isB).ts]
  unfold retroHunt
  rw [sorted, List.length_map]
  apply replay_congr
  · rw [List.forall₂_map_left_iff, List.forall₂_same]
    intro event member
    exact same event ((List.mem_insertionSort _).mp member)
  · intro event member
    rcases List.mem_map.mp member with ⟨original, isOriginal, rfl⟩
    have isEvent := (List.mem_insertionSort _).mp isOriginal
    rw [(same original isEvent).ts]
    exact nonzero original isEvent

end Sigma
end Sigil
