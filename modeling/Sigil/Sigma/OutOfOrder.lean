import Sigil.Sigma.SlidingWindow

namespace Sigil
namespace Sigma

/-!
# Streams in any order of arrival

A late event has an early time and stands at the back of its window.  The eviction only
looks at the front, so an entry that has become too old stays in the window, and counts,
as long as a newer one stands before it.  An entry that lies in the future of a late
event counts as well.
-/

open Sigil.Core Library

/-- The time of an entry lies within the timespan of another time. -/
def CompiledCorrelation.Within (rule : CompiledCorrelation) (now : Int)
    (entry : WindowEntry) : Prop :=
  now - rule.timespan ≤ entry.ts ∧ entry.ts ≤ now + rule.timespan

/-- Whenever a rule fires for an item, every entry that it counts lies within the
timespan. -/
def CorrelationEngine.CountsWithin (engine : CorrelationEngine) (item : Feed) : Prop :=
  ∀ rule windows, (rule, windows) ∈ engine.rules.zip engine.windows → ∀ alert,
    (rule.process windows item.event item.baseAlerts item.clock).2 = some alert →
      ∀ entry, entry ∈ rule.window windows item.event (eventTime item.event item.clock)
          (rule.matched item.baseAlerts) →
        rule.Within (eventTime item.event item.clock) entry

/-- The window of the item's group with the item's matches at its back. -/
def CompiledCorrelation.queue (rule : CompiledCorrelation) (windows : Windows) (item : Feed) :
    List WindowEntry :=
  (windows.lookup (rule.groupKey item.event)).getD [] ++
    rule.entries item.event (eventTime item.event item.clock) (rule.matched item.baseAlerts)

/-- In a queue the entries that are too old come first, and none of the others lies more
than the timespan in the future. -/
structure CompiledCorrelation.Timely (rule : CompiledCorrelation) (now : Int)
    (queue : List WindowEntry) : Prop where
  range : -(2 ^ 63) ≤ now - rule.timespan ∧ now - rule.timespan < 2 ^ 63
  staleFirst : FrontEviction.StaleFirst WindowEntry.ts (now - rule.timespan) queue
  current : ∀ entry, entry ∈ queue → now - rule.timespan ≤ entry.ts →
    entry.ts ≤ now + rule.timespan

/-- The queues that the rules look at for an item are timely.  A rule without a match for the
item looks at none. -/
def CorrelationEngine.Timely (engine : CorrelationEngine) (item : Feed) : Prop :=
  ∀ rule windows, (rule, windows) ∈ engine.rules.zip engine.windows →
    rule.matched item.baseAlerts ≠ [] →
      rule.Timely (eventTime item.event item.clock) (rule.queue windows item)

/-- What is evaluated lies within the timespan exactly when the queue is timely. -/
theorem window_within_iff (rule : CompiledCorrelation) (windows : Windows) (item : Feed)
    (range : -(2 ^ 63) ≤ eventTime item.event item.clock - rule.timespan ∧
      eventTime item.event item.clock - rule.timespan < 2 ^ 63) :
    (∀ entry, entry ∈ rule.window windows item.event (eventTime item.event item.clock)
        (rule.matched item.baseAlerts) → rule.Within (eventTime item.event item.clock) entry) ↔
      rule.Timely (eventTime item.event item.clock) (rule.queue windows item) := by
  rw [CompiledCorrelation.window, toI64_of_range range.1 range.2]
  constructor
  · intro within
    rcases FrontEviction.forall_mem_clean_iff.mp within with ⟨staleFirst, current⟩
    exact ⟨range, staleFirst, current⟩
  · intro timely
    exact FrontEviction.forall_mem_clean_iff.mpr ⟨timely.staleFirst, timely.current⟩

/-- A rule that fires has a match for the item. -/
theorem matched_of_fired {rule : CompiledCorrelation} {windows : Windows} {event : Event}
    {baseAlerts : List Alert} {clock : Int} {alert : Alert}
    (fired : (rule.process windows event baseAlerts clock).2 = some alert) :
    rule.matched baseAlerts ≠ [] := by
  intro unmatched
  rw [CompiledCorrelation.process, unmatched] at fired
  cases fired

/-- In every stream whose items all meet timely queues, only entries within the timespan
are ever counted. -/
theorem countsWithin_of_timely (rules : List CompiledCorrelation) (stream : List Feed)
    (timely : ∀ item older, item :: older <:+ stream → (after rules older).Timely item) :
    ∀ item older, item :: older <:+ stream → (after rules older).CountsWithin item := by
  intro item older suffix rule windows member alert fired
  have queue := timely item older suffix rule windows member (matched_of_fired fired)
  exact (window_within_iff rule windows item queue.range).mpr queue

theorem timely_burst : ∀ item older, item :: older <:+ [matchAt "b" 105, matchAt "a" 100] →
    (after [burst 2] older).Timely item := by
  intro item older suffix rule windows member _
  rw [List.suffix_cons_iff, List.suffix_cons_iff, List.suffix_nil] at suffix
  rcases suffix with equal | equal | equal
  · cases equal
    cases List.mem_singleton.mp member
    exact ⟨by decide, by decide, by decide⟩
  · cases equal
    cases List.mem_singleton.mp member
    exact ⟨by decide, by decide, by decide⟩
  · cases equal

theorem countsWithin_burst :
    (after [burst 2] [matchAt "a" 100]).CountsWithin (matchAt "b" 105) :=
  countsWithin_of_timely [burst 2] [matchAt "b" 105, matchAt "a" 100] timely_burst
    (matchAt "b" 105) [matchAt "a" 100] List.suffix_rfl

/-- A late event stays in the window behind a newer one and counts when it is too old. -/
theorem not_countsWithin :
    ¬ ∀ (rules : List CompiledCorrelation) (stream : List Feed),
      (∀ item, item ∈ stream → item.event.ts ≠ 0) →
        ∀ item older, item :: older <:+ stream → (after rules older).CountsWithin item := by
  intro within
  have late := within [burst 3] [matchAt "c" 105, matchAt "b" 50, matchAt "a" 100] (by decide)
    (matchAt "c" 105) [matchAt "b" 50, matchAt "a" 100] List.suffix_rfl (burst 3)
    ((burst 3).windowsAfter [matchAt "b" 50, matchAt "a" 100]) List.mem_cons_self _ rfl
    { ts := 50_000_000, ruleId := "base", eventId := "b", value := none } (by decide)
  exact absurd late.1 (by decide)

end Sigma
end Sigil
