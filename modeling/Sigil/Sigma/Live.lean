import Sigil.Sigma.References

namespace Sigil
namespace Sigma

/-!
# Live detection

The live path takes the events as they come: the rules, then the correlations, then the
filter of suppressed base alerts, then the custom detectors.  A hunt makes the same calls in
the order of the times, so it finds in a history, in whatever order it is given, what the
live path finds when the events come in time order.
-/

open Sigil.Core

/-- The alerts of the live path for one event, by where they come from. -/
structure Detected where
  kept : List Alert
  fired : List Alert
  custom : List Alert
  deriving DecidableEq, Repr

/-- The alerts in the order in which they are recorded. -/
def Detected.alerts (detected : Detected) : List Alert :=
  detected.kept ++ detected.fired ++ detected.custom

section

variable {lib : Libraries}

/-- Run the rules, the correlations and the custom detectors over one event. -/
def detect (engine : SigmaEngine lib) (correlations : CorrelationEngine)
    (detectors : Event → List Alert) (event : Event) (clock : Int) :
    CorrelationEngine × Detected :=
  let base := engine.eval event clock
  let (correlations, fired) := correlations.process event base clock
  (correlations,
    { kept := base.filter fun alert => !correlations.suppressed alert.ruleId
      fired := fired
      custom := detectors event })

/-- The live path over some events; the clock is read anew for each of them. -/
def detectAll (engine : SigmaEngine lib) (detectors : Event → List Alert) (clock : Nat → Int) :
    Nat → CorrelationEngine → List Event → List Detected
  | _, _, [] => []
  | n, correlations, event :: events =>
      let (correlations, detected) := detect engine correlations detectors event (clock n)
      detected :: detectAll engine detectors clock (n + 1) correlations events

/-! ## One event -/

theorem SameView.refl (event : Event) : SameView event event :=
  ⟨rfl, rfl, rfl, rfl, rfl, rfl, rfl, rfl⟩

/-- A step of the hunt makes the calls of the live path, whatever the clocks show. -/
theorem huntStep_eq_detect (engine : SigmaEngine lib) (detectors : Event → List Alert)
    (state : CorrelationEngine × HuntOutcome) {event : Event} (nonzero : event.ts ≠ 0)
    (clock clock' : Int) :
    huntStep engine state event clock =
      ((detect engine state.1 detectors event clock').1,
        { state.2 with
          correlationAlerts := state.2.correlationAlerts ++
            (detect engine state.1 detectors event clock').2.fired
          alerts := state.2.alerts ++ (detect engine state.1 detectors event clock').2.kept }) := by
  rw [(SameView.refl event).huntStep engine state nonzero clock clock']
  simp [huntStep, detect]

theorem replay_eq_detectAll (engine : SigmaEngine lib) (detectors : Event → List Alert)
    (clock clock' : Nat → Int) {events : List Event}
    (nonzero : ∀ event ∈ events, event.ts ≠ 0) (n n' : Nat)
    (state : CorrelationEngine × HuntOutcome) : (replay engine clock n state events).2 =
      { state.2 with
        correlationAlerts := state.2.correlationAlerts ++
          (detectAll engine detectors clock' n' state.1 events).flatMap Detected.fired
        alerts := state.2.alerts ++
          (detectAll engine detectors clock' n' state.1 events).flatMap Detected.kept } := by
  induction events generalizing n n' state with
  | nil => simp [replay, detectAll]
  | cons event events inductionHypothesis =>
      rcases List.forall_mem_cons.mp nonzero with ⟨here, later⟩
      rw [replay, huntStep_eq_detect engine detectors state here (clock n) (clock' n'),
        inductionHypothesis later (n + 1) (n' + 1)]
      simp [detectAll, List.append_assoc]

/-! ## The times of the alerts -/

/-- The alerts of an event have its time. -/
theorem detect_times (engine : SigmaEngine lib) (correlations : CorrelationEngine)
    (detectors : Event → List Alert) {event : Event} (nonzero : event.ts ≠ 0) (clock : Int) :
    (∀ alert ∈ (detect engine correlations detectors event clock).2.kept,
      alert.ts = event.ts) ∧
      ∀ alert ∈ (detect engine correlations detectors event clock).2.fired,
        alert.ts = event.ts := by
  constructor
  · intro alert isKept
    rcases List.mem_map.mp (List.mem_filter.mp isKept).1 with ⟨rule, _, rfl⟩
    simp [CompiledRule.toAlert, nonzero]
  · intro alert isFired
    rcases List.mem_filterMap.mp isFired with ⟨result, isResult, fired⟩
    rw [← List.map_uncurry_zip_eq_zipWith] at isResult
    rcases List.mem_map.mp isResult with ⟨⟨rule, windows⟩, _, rfl⟩
    rcases process_fired fired with ⟨window, _, _, rfl⟩
    simp [CompiledCorrelation.alert, eventTime, nonzero]

/-- Lists of alerts that have the times of ascending events ascend. -/
theorem times_ascend (engine : SigmaEngine lib) (detectors : Event → List Alert)
    (clock : Nat → Int) (part : Detected → List Alert)
    (times : ∀ correlations event clock, event.ts ≠ 0 →
      ∀ alert ∈ part (detect engine correlations detectors event clock).2, alert.ts = event.ts)
    {events : List Event} (nonzero : ∀ event ∈ events, event.ts ≠ 0)
    (ascending : events.Pairwise fun early late => early.ts ≤ late.ts) (n : Nat)
    (correlations : CorrelationEngine) :
    (∀ alert ∈ (detectAll engine detectors clock n correlations events).flatMap part,
      ∃ event ∈ events, alert.ts = event.ts) ∧
    ((detectAll engine detectors clock n correlations events).flatMap part).Pairwise
      fun early late => early.ts ≤ late.ts := by
  induction events generalizing n correlations with
  | nil => simp [detectAll]
  | cons event events inductionHypothesis =>
      rcases List.forall_mem_cons.mp nonzero with ⟨here, later⟩
      rcases List.pairwise_cons.mp ascending with ⟨first, rest⟩
      rcases inductionHypothesis later rest (n + 1)
        (detect engine correlations detectors event (clock n)).1 with ⟨known, ordered⟩
      have own := times correlations event (clock n) here
      rw [detectAll, List.flatMap_cons]
      constructor
      · intro alert member
        rcases List.mem_append.mp member with now | after
        · exact ⟨event, List.mem_cons_self, own alert now⟩
        · rcases known alert after with ⟨other, isOther, same⟩
          exact ⟨other, List.mem_cons_of_mem event isOther, same⟩
      · rw [List.pairwise_append]
        refine ⟨?_, ordered, ?_⟩
        · apply List.pairwise_of_forall_mem_list
          intro early isEarly late isLate
          rw [own early isEarly, own late isLate]
        · intro early isEarly late isLate
          rcases known late isLate with ⟨other, isOther, same⟩
          rw [own early isEarly, same]
          exact first other isOther

/-! ## The order of the input -/

/-- Different times have one order. -/
theorem sorted_eq {events ordered : List Event} (distinct : (events.map Event.ts).Nodup)
    (order : ordered.Perm events)
    (ascending : ordered.Pairwise fun early late => early.ts ≤ late.ts) :
    events.insertionSort (fun a b => a.ts ≤ b.ts) = ordered := by
  have sorted := List.perm_insertionSort (fun a b : Event => a.ts ≤ b.ts) events
  apply List.Perm.eq_of_pairwise _ _ ascending (sorted.trans order.symm)
  · intro a b isA isB below above
    apply List.inj_on_of_nodup_map distinct (sorted.mem_iff.mp isA) (order.mem_iff.mp isB)
    exact Int.le_antisymm below above
  · have total : Std.Total fun a b : Event => a.ts ≤ b.ts :=
      ⟨fun a b => Int.le_total a.ts b.ts⟩
    have trans : IsTrans Event fun a b => a.ts ≤ b.ts := ⟨fun _ _ _ => Int.le_trans⟩
    exact List.pairwise_insertionSort _ events

/-- A hunt with fresh windows finds, in time order, what the live path finds when it is given
the events one by one in time order. -/
theorem retroHunt_eq_live (engine : SigmaEngine lib) (rules : List CompiledCorrelation)
    (detectors : Event → List Alert) (clock clock' : Nat → Int) {events ordered : List Event}
    (nonzero : ∀ event ∈ events, event.ts ≠ 0) (distinct : (events.map Event.ts).Nodup)
    (order : ordered.Perm events)
    (ascending : ordered.Pairwise fun early late => early.ts ≤ late.ts) :
    (retroHunt engine (.new rules) clock events).2 =
      { scanned := events.length
        alerts := (detectAll engine detectors clock' 0 (.new rules) ordered).flatMap Detected.kept
        correlationAlerts :=
          (detectAll engine detectors clock' 0 (.new rules) ordered).flatMap Detected.fired } ∧
    (retroHunt engine (.new rules) clock events).2.alerts.Pairwise
      (fun early late => early.ts ≤ late.ts) ∧
    (retroHunt engine (.new rules) clock events).2.correlationAlerts.Pairwise
      (fun early late => early.ts ≤ late.ts) ∧
    ∀ shuffled : List Event, shuffled.Perm events →
      (retroHunt engine (.new rules) clock' shuffled).2 =
        (retroHunt engine (.new rules) clock events).2 := by
  have hunted : ∀ (input : List Event) (clock : Nat → Int), input.Perm events →
      (retroHunt engine (.new rules) clock input).2 =
        { scanned := events.length
          alerts := (detectAll engine detectors clock' 0 (.new rules) ordered).flatMap Detected.kept
          correlationAlerts :=
            (detectAll engine detectors clock' 0 (.new rules) ordered).flatMap
              Detected.fired } := by
    intro input clock same
    have distinct' : (input.map Event.ts).Nodup := (same.map Event.ts).nodup_iff.mpr distinct
    have nonzero' : ∀ event ∈ ordered, event.ts ≠ 0 :=
      fun event member => nonzero event (order.mem_iff.mp member)
    rw [retroHunt, sorted_eq distinct' (order.trans same.symm) ascending,
      replay_eq_detectAll engine detectors clock clock' nonzero' 0 0, same.length_eq]
    simp
  have nonzero' : ∀ event ∈ ordered, event.ts ≠ 0 :=
    fun event member => nonzero event (order.mem_iff.mp member)
  have kept := times_ascend engine detectors clock' Detected.kept
    (fun correlations event clock here =>
      (detect_times engine correlations detectors here clock).1) nonzero' ascending 0 (.new rules)
  have fired := times_ascend engine detectors clock' Detected.fired
    (fun correlations event clock here =>
      (detect_times engine correlations detectors here clock).2) nonzero' ascending 0 (.new rules)
  refine ⟨hunted events clock (.refl events), ?_, ?_, ?_⟩
  · rw [hunted events clock (.refl events)]
    exact kept.2
  · rw [hunted events clock (.refl events)]
    exact fired.2
  · intro shuffled same
    rw [hunted shuffled clock' same, hunted events clock (.refl events)]

end

/-- Two failed logins that are stored in the wrong order. -/
def history : List Event :=
  [messageAt "login failed" "b" 105, messageAt "login failed" "a" 100]

theorem retroHunt_eq_live_history :
    let hunted := (retroHunt loginEngine (.new [loginCorrelation]) (fun _ => 0) history).2
    let live := detectAll loginEngine (fun _ => []) (fun _ => 0) 0 (.new [loginCorrelation])
      history.reverse
    hunted.alerts = live.flatMap Detected.kept ∧
      hunted.correlationAlerts = live.flatMap Detected.fired ∧
      hunted.alerts.map Alert.events = [["a"], ["b"]] ∧
      hunted.correlationAlerts.map Alert.events = [["a", "b"]] := by
  intro hunted live
  have same := (@retroHunt_eq_live _ loginEngine [loginCorrelation] (fun _ => []) (fun _ => 0)
    (fun _ => 0) history history.reverse (by decide) (by decide) (List.reverse_perm history)
    (by decide)).1
  refine ⟨congrArg HuntOutcome.alerts same, congrArg HuntOutcome.correlationAlerts same, ?_, ?_⟩
  · decide +kernel
  · decide +kernel

end Sigma
end Sigil
