import Mathlib.Data.List.Dedup
import Sigil.Core.Event
import Sigil.Core.HashMap

namespace Sigil
namespace Graph

/-!
# The provenance graph

The part of the graph that correlation reads: which events touched an entity.
-/

open Sigil.Core

/-- A reference to an event that touched an entity. -/
structure EventRef where
  eventId : String
  ts : Int

/-- The index from entity keys to the events that touched the entity. -/
structure ProvenanceGraph where
  entityEvents : AList fun _ : String => List EventRef

/-- Canonical key for an entity. -/
def entityKey (e : EntityRef) : String :=
  e.kind ++ ":" ++ e.id

/-- The entities of an event: `host`, `actor` and `target`, where they are there. -/
def entities (event : Event) : List EntityRef :=
  [event.host, event.actor, event.target].reduceOption

namespace ProvenanceGraph

def new : ProvenanceGraph where
  entityEvents := ∅

/-- Record the event on each touched entity. -/
def addEvent (graph : ProvenanceGraph) (event : Event) : ProvenanceGraph where
  entityEvents := pushAll graph.entityEvents
    ((entities event).map fun e => (entityKey e, { eventId := event.id, ts := event.ts }))

/-- Events that touched the given entity. -/
def eventsOn (graph : ProvenanceGraph) (e : EntityRef) : List EventRef :=
  (graph.entityEvents.lookup (entityKey e)).getD []

/-- All event ids that share at least one entity with `event`, excluding the event itself. -/
def coEntityEvents (graph : ProvenanceGraph) (event : Event) : List String :=
  (((entities event).flatMap graph.eventsOn).map EventRef.eventId
    |>.filter fun id => id ≠ event.id).dedup

end ProvenanceGraph

/-! ## What a graph of events finds -/

/-- The events have an entity with the same key. -/
def ShareEntity (a b : Event) : Prop :=
  ∃ e, e ∈ entities a ∧ ∃ e', e' ∈ entities b ∧ entityKey e = entityKey e'

theorem ShareEntity.symm {a b : Event} (share : ShareEntity a b) : ShareEntity b a := by
  rcases share with ⟨e, inFirst, e', inSecond, same⟩
  exact ⟨e', inSecond, e, inFirst, same.symm⟩

instance (a b : Event) : Decidable (ShareEntity a b) :=
  inferInstanceAs (Decidable (∃ e, e ∈ entities a ∧ ∃ e', e' ∈ entities b ∧ _))

/-- The references under a key are those of the events that were added, and before. -/
theorem mem_eventsOn_foldl (graph : ProvenanceGraph) (events : List Event) (e : EntityRef)
    (ref : EventRef) : ref ∈ (events.foldl ProvenanceGraph.addEvent graph).eventsOn e ↔
      ref ∈ graph.eventsOn e ∨
        ∃ event, event ∈ events ∧ ref = ⟨event.id, event.ts⟩ ∧
        ∃ e', e' ∈ entities event ∧ entityKey e' = entityKey e := by
  induction events generalizing graph with
  | nil =>
      refine ⟨Or.inl, ?_⟩
      rintro (old | ⟨event, impossible, -⟩)
      · exact old
      · exact absurd impossible List.not_mem_nil
  | cons first events inductionHypothesis =>
      have added : ref ∈ (graph.addEvent first).eventsOn e ↔ ref ∈ graph.eventsOn e ∨
          ref = ⟨first.id, first.ts⟩ ∧
          ∃ e', e' ∈ entities first ∧ entityKey e' = entityKey e := by
        unfold ProvenanceGraph.eventsOn ProvenanceGraph.addEvent
        rw [lookup_pushAll, List.mem_append]
        refine or_congr_right ?_
        simp only [List.mem_map, List.mem_filter, decide_eq_true_eq]
        constructor
        · rintro ⟨_, ⟨⟨e', member, rfl⟩, same⟩, rfl⟩
          exact ⟨rfl, e', member, same⟩
        · rintro ⟨rfl, e', member, same⟩
          exact ⟨_, ⟨⟨e', member, rfl⟩, same⟩, rfl⟩
      rw [List.foldl_cons, inductionHypothesis, added]
      constructor
      · rintro ((old | ⟨rfl, shares⟩) | ⟨event, member, isRef, shares⟩)
        · exact Or.inl old
        · exact Or.inr ⟨first, List.mem_cons_self, rfl, shares⟩
        · exact Or.inr ⟨event, List.mem_cons_of_mem _ member, isRef, shares⟩
      · rintro (old | ⟨event, member, isRef, shares⟩)
        · exact Or.inl (Or.inl old)
        · rcases List.mem_cons.mp member with rfl | later
          · exact Or.inl (Or.inr ⟨isRef, shares⟩)
          · exact Or.inr ⟨event, later, isRef, shares⟩

/-- The co-entity events of an event are the other ones that share an entity with it. -/
theorem mem_coEntityEvents (events : List Event) (event : Event) (id : String) :
    id ∈ (events.foldl ProvenanceGraph.addEvent .new).coEntityEvents event ↔
      id ≠ event.id ∧
        ∃ other, other ∈ events ∧ other.id = id ∧ ShareEntity event other := by
  unfold ProvenanceGraph.coEntityEvents
  rw [List.mem_dedup, List.mem_filter, decide_eq_true_eq, and_comm]
  refine and_congr_right fun different => ?_
  rw [List.mem_map]
  constructor
  · rintro ⟨ref, member, rfl⟩
    rcases List.mem_flatMap.mp member with ⟨e, inEvent, touched⟩
    rcases (mem_eventsOn_foldl _ events e ref).mp touched with
      none_ | ⟨other, inEvents, rfl, e', inOther, same⟩
    · exact absurd none_ List.not_mem_nil
    · exact ⟨other, inEvents, rfl, e, inEvent, e', inOther, same.symm⟩
  · rintro ⟨other, inEvents, rfl, e, inEvent, e', inOther, same⟩
    refine ⟨⟨other.id, other.ts⟩, List.mem_flatMap.mpr ⟨e, inEvent, ?_⟩, rfl⟩
    exact (mem_eventsOn_foldl _ events e _).mpr
      (Or.inr ⟨other, inEvents, rfl, e', inOther, same.symm⟩)

end Graph
end Sigil
