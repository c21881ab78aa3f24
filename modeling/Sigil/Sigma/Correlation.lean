import Mathlib.Data.List.AList
import Mathlib.Data.List.Destutter
import Mathlib.Data.List.Sort
import Sigil.Sigma.Fields

namespace Sigil
namespace Sigma

/-!
# The correlation engine

A correlation rule collects the base alerts it references in one window per group.  For
every event with such alerts the engine pushes them at the back of the window of the
event's group, removes entries from the front as long as they are older than the
timespan, and evaluates the rest.  A window that satisfies the rule is cleared.
-/

open Sigil.Core

/-- Correlation kinds. -/
inductive CorrelationKind where
  | eventCount
  | valueCount
  | temporal
  | temporalOrdered
  deriving DecidableEq, Repr

/-- The comparisons of a count correlation and the field whose values are counted. -/
structure CountCondition where
  field : Option String := none
  gt : Option Nat := none
  gte : Option Nat := none
  lt : Option Nat := none
  lte : Option Nat := none
  eq : Option Nat := none
  deriving DecidableEq, Repr

/-- Every comparison that is present holds. -/
def CountCondition.satisfied (c : CountCondition) (n : Nat) : Bool :=
  c.gt.all (fun v => v < n) && c.gte.all (fun v => v ≤ n) && c.lt.all (fun v => n < v) &&
    c.lte.all (fun v => n ≤ v) && c.eq.all (fun v => n = v)

/-- A compiled correlation rule. -/
structure CompiledCorrelation where
  ruleId : String
  title : String
  severity : Severity
  technique : Option String
  tags : List String
  kind : CorrelationKind
  rules : List String
  groupBy : List String
  timespan : Int
  condition : CountCondition
  generate : Bool
  deriving DecidableEq, Repr

/-- The values of the group-by fields, sorted and joined. -/
def CompiledCorrelation.groupKey (rule : CompiledCorrelation) (event : Event) : String :=
  "\u001f".intercalate (rule.groupBy.map fun field =>
    ",".intercalate ((resolveField event field).insertionSort (· ≤ ·)))

/-- One base-rule match remembered in a window. -/
structure WindowEntry where
  ts : Int
  ruleId : String
  eventId : String
  value : Option String
  deriving DecidableEq, Repr

/-- The windows of one rule, by group. -/
abbrev Windows := AList fun _ : String => List WindowEntry

/-- The base alerts that a rule references. -/
def CompiledCorrelation.matched (rule : CompiledCorrelation) (baseAlerts : List Alert) :
    List Alert :=
  baseAlerts.filter fun alert => alert.ruleId ∈ rule.rules

theorem CompiledCorrelation.mem_matched {rule : CompiledCorrelation} {baseAlerts : List Alert}
    {alert : Alert} :
    alert ∈ rule.matched baseAlerts ↔ alert ∈ baseAlerts ∧ alert.ruleId ∈ rule.rules := by
  rw [CompiledCorrelation.matched, List.mem_filter, decide_eq_true_eq]

/-- What is pushed into the window for the matched alerts of an event. -/
def CompiledCorrelation.entries (rule : CompiledCorrelation) (event : Event) (now : Int)
    (matched : List Alert) : List WindowEntry :=
  matched.map fun alert =>
    { ts := now
      ruleId := alert.ruleId
      eventId := event.id
      value := rule.condition.field.bind fun field => (resolveField event field).head? }

/-- Remove entries from the front as long as they are older than the threshold. -/
def evict (threshold : Int) (window : List WindowEntry) : List WindowEntry :=
  window.dropWhile fun entry => entry.ts < threshold

/-- The listed rules that are still wanted after the entries of a window. -/
def wanted (rules : List String) (window : List WindowEntry) : List String :=
  window.foldl (fun want entry =>
    match want with
    | next :: rest => if next = entry.ruleId then rest else want
    | [] => []) rules

/-- Does the window satisfy the rule's aggregate condition? -/
def evaluate (rule : CompiledCorrelation) (window : List WindowEntry) : Bool :=
  match rule.kind with
  | .eventCount => rule.condition.satisfied window.length
  | .valueCount => rule.condition.satisfied (window.filterMap WindowEntry.value).dedup.length
  | .temporal => rule.rules.all fun id => window.any fun entry => entry.ruleId = id
  | .temporalOrdered => (wanted rule.rules window).isEmpty

/-- The time an event counts with: its own, or the clock when it has none. -/
def eventTime (event : Event) (clock : Int) : Int :=
  if event.ts ≠ 0 then event.ts else clock

/-- The window that is evaluated for an event: the old one with the new entries, after
the eviction. -/
def CompiledCorrelation.window (rule : CompiledCorrelation) (windows : Windows) (event : Event)
    (now : Int) (matched : List Alert) : List WindowEntry :=
  evict (toI64 (now - rule.timespan))
    ((windows.lookup (rule.groupKey event)).getD [] ++ rule.entries event now matched)

/-- The alert for a window that satisfies the rule. -/
def CompiledCorrelation.alert (rule : CompiledCorrelation) (now : Int)
    (window : List WindowEntry) : Alert :=
  { ruleId := rule.ruleId
    title := rule.title
    severity := rule.severity
    technique := rule.technique
    events := (window.map WindowEntry.eventId).destutter (· ≠ ·)
    ts := now }

/-- Feed one event's base alerts through one rule. -/
def CompiledCorrelation.process (rule : CompiledCorrelation) (windows : Windows) (event : Event)
    (baseAlerts : List Alert) (clock : Int) : Windows × Option Alert :=
  let matched := rule.matched baseAlerts
  if matched.isEmpty then (windows, none)
  else
    let now := eventTime event clock
    let window := rule.window windows event now matched
    if evaluate rule window then
      (windows.insert (rule.groupKey event) [], some (rule.alert now window))
    else (windows.insert (rule.groupKey event) window, none)

/-- A set of rules, the windows of each and the base rules whose alerts are dropped. -/
structure CorrelationEngine where
  rules : List CompiledCorrelation
  windows : List Windows
  suppressedIds : List String
  aligned : windows.length = rules.length

namespace CorrelationEngine

def new (rules : List CompiledCorrelation) : CorrelationEngine where
  rules := rules
  windows := rules.map fun _ => ∅
  suppressedIds := (rules.filter fun rule => !rule.generate).flatMap CompiledCorrelation.rules
  aligned := List.length_map _

/-- Should this base alert be dropped from the outputs? -/
def suppressed (engine : CorrelationEngine) (baseRuleId : String) : Bool :=
  baseRuleId ∈ engine.suppressedIds

/-- Feed one event's base alerts through every rule. -/
def process (engine : CorrelationEngine) (event : Event) (baseAlerts : List Alert)
    (clock : Int) : CorrelationEngine × List Alert :=
  let results := List.zipWith
    (fun rule windows => CompiledCorrelation.process rule windows event baseAlerts clock)
    engine.rules engine.windows
  ({ engine with
      windows := results.map Prod.fst
      aligned := by
        rw [List.length_map, List.length_zipWith, engine.aligned, Nat.min_self] },
    results.filterMap Prod.snd)

end CorrelationEngine

end Sigma
end Sigil
