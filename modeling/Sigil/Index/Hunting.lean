import Sigil.Index.RoundTrip
import Sigil.Sigma.Denotation
import Sigil.Sigma.Hunt

namespace Sigil
namespace Index

/-!
# Hunting in stored events

What a segment loses of an event, no rule and no correlation looks at: an event that comes
back from a segment has the view of the event that was written.
-/

open Sigil.Core Sigil.Sigma

variable {json : JsonText}

theorem sameView_stored {ev : Event} (lossless : json.Keeps ev.fields) :
    SameView (stored json ev) ev := by
  have idOf : ∀ (entity : Option EntityRef) (kind : String),
      ((entity.map EntityRef.id).map (EntityRef.new kind)).map EntityRef.id =
        entity.map EntityRef.id := by
    intro entity kind
    cases entity with
    | none => rfl
    | some e => rfl
  constructor
  · rfl
  · rfl
  · rfl
  · change (json.parse (json.print ev.fields)).getD .empty = ev.fields
    rw [lossless]
    rfl
  · cases actor : ev.actor with
    | none =>
        simp only [stored, rowToEvent, eventToRow, actor]
        rfl
    | some e =>
        simp only [stored, rowToEvent, eventToRow, actor]
        rfl
  · exact idOf ev.actor _
  · exact idOf ev.host "host"
  · exact idOf ev.target _

/-- Fields, rules and groups are the same for an event and its round trip, and a hunt over
stored events with times of their own finds what a hunt over the events finds. -/
theorem hunt_stored (json : JsonText) (lib : Libraries) (events : List Event)
    (lossless : ∀ ev, ev ∈ events → json.Keeps ev.fields) :
    (∀ ev, ev ∈ events → ∃ ev', batchIntoEvents json (eventsToBatch json [ev]) = [ev'] ∧
      (∀ name, resolveField ev' name = resolveField ev name) ∧
      (∀ rule : CompiledRule lib, rule.matches ev' = rule.matches ev) ∧
      ∀ rule : CompiledCorrelation, rule.groupKey ev' = rule.groupKey ev) ∧
    ((∀ ev, ev ∈ events → ev.ts ≠ 0) →
      ∀ (engine : SigmaEngine lib) (correlations : CorrelationEngine)
        (clock clock' : Nat → Int),
        retroHunt engine correlations clock
            (batchIntoEvents json (eventsToBatch json events)) =
          retroHunt engine correlations clock' events) := by
  constructor
  · intro ev member
    have same := sameView_stored (lossless ev member)
    exact ⟨stored json ev, batchIntoEvents_eventsToBatch json [ev], same.resolveField,
      same.matches, same.groupKey⟩
  · intro nonzero engine correlations clock clock'
    rw [batchIntoEvents_eventsToBatch]
    exact retroHunt_map engine correlations clock clock'
      (fun ev member => sameView_stored (lossless ev member)) nonzero

/-- A rule for the keyword `start`. -/
def startRule : CompiledRule asciiLibraries where
  ruleId := "start"
  title := "Process start"
  severity := .low
  technique := none
  tags := []
  selections := AList.insert "selection" (.keywords [.contains "start"]) ∅
  names := ["selection"]
  condition := .ref "selection"

theorem hunt_stored_agentEvent :
    startRule.matches (stored plainJson (agentEvent (some "web01"))) =
        startRule.matches (agentEvent (some "web01")) ∧
      retroHunt ⟨[startRule]⟩ (.new []) (fun _ => 0)
          (batchIntoEvents plainJson (eventsToBatch plainJson [agentEvent (some "web01")])) =
        retroHunt ⟨[startRule]⟩ (.new []) (fun _ => 1) [agentEvent (some "web01")] := by
  have both := hunt_stored plainJson asciiLibraries [agentEvent (some "web01")] fun ev member => by
    rw [List.mem_singleton.mp member]
    rfl
  constructor
  · rcases both.1 _ List.mem_cons_self with ⟨_, ⟨⟩, _, sameMatches, _⟩
    exact sameMatches startRule
  · refine both.2 (fun ev member => ?_) ⟨[startRule]⟩ (.new []) (fun _ => 0) fun _ => 1
    rw [List.mem_singleton.mp member]
    decide

end Index
end Sigil
