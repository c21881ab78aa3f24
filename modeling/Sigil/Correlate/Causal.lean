import Mathlib.Algebra.Order.Ring.Rat
import Mathlib.Data.List.Infix
import Mathlib.Data.List.Sort
import Sigil.Core.Text
import Sigil.Graph.Provenance
import Sigil.Library.Pairs

namespace Sigil
namespace Correlate

/-!
# The causal graph of a campaign

The nodes are the events of a campaign in the order of time.  An edge says that the earlier
event may have caused the later one: the two share an entity and lie within a window.

Scores are exact fractions here.  The tables behind `to_lowercase` and the text of a time
difference, a rounded float, are parameters.
-/

open Sigil.Core Sigil.Graph Library

/-- A node in the causal attack graph: one event. -/
structure CausalNode where
  eventId : String
  label : String
  ts : Int
  technique : Option String
  tactic : Option String
  anomaly : ℚ

/-- A directed causal edge between two nodes, with a causal score. -/
structure CausalEdge where
  fromNode : Nat
  toNode : Nat
  score : ℚ
  deriving DecidableEq

structure CausalGraph where
  nodes : List CausalNode
  edges : List CausalEdge

/-- Edges leaving `node`. -/
def CausalGraph.outgoing (graph : CausalGraph) (node : Nat) : List CausalEdge :=
  graph.edges.filter fun edge => edge.fromNode = node

/-! ## Labels and scores of an event -/

/-- Coarse tactic guess from the OCSF class alone. -/
def tacticForClass : OcsfClass → String
  | .authentication => "credential-access"
  | .processActivity => "execution"
  | .networkActivity => "command-and-control"
  | .fileSystemActivity => "collection"
  | .httpActivity => "command-and-control"
  | .apiActivity => "execution"
  | .dnsActivity => "command-and-control"
  | .moduleActivity => "defense-evasion"
  | .scheduledJobActivity => "persistence"
  | .registryKeyActivity => "persistence"
  | .other _ => "unknown"

/-- `to_ascii_uppercase`. -/
def toAsciiUppercase (s : String) : String :=
  String.ofList (s.toList.map Char.toUpper)

/-- Tactic for a technique id, falling back to the class when the technique is unknown. -/
def tacticFor (technique : Option String) (ocsfClass : OcsfClass) : String :=
  match technique with
  | some technique =>
      let startsWith := fun start : String => start.toList <+: (toAsciiUppercase technique).toList
      if startsWith "T1110" ∨ startsWith "T1003" ∨ startsWith "T1552" then "credential-access"
      else if startsWith "T1548" ∨ startsWith "T1068" ∨ startsWith "T1078" then
        "privilege-escalation"
      else if startsWith "T1059" ∨ startsWith "T1203" then "execution"
      else if startsWith "T1071" ∨ startsWith "T1572" ∨ startsWith "T1105" then
        "command-and-control"
      else if startsWith "T1041" ∨ startsWith "T1048" then "exfiltration"
      else if startsWith "T1021" ∨ startsWith "T1210" then "lateral-movement"
      else tacticForClass ocsfClass
  | none => tacticForClass ocsfClass

def labelFor (e : Event) : String :=
  let ocsfClass := match e.ocsfClass with
    | .authentication => "authentication"
    | .processActivity => "process_activity"
    | .fileSystemActivity => "file_system_activity"
    | .networkActivity => "network_activity"
    | .httpActivity => "http_activity"
    | .apiActivity => "api_activity"
    | .dnsActivity => "dns_activity"
    | .moduleActivity => "module_activity"
    | .scheduledJobActivity => "scheduled_job_activity"
    | .registryKeyActivity => "registry_key_activity"
    | .other _ => "other"
  match e.actor with
  | some a => ocsfClass ++ " " ++ a.kind ++ ":" ++ a.id
  | none => ocsfClass

/-- Deterministic anomaly heuristic between 0 and 1. -/
def anomalyScore (tables : CaseTables) (e : Event) : ℚ :=
  let base : ℚ := match e.severity with
    | .critical | .fatal => 9 / 10
    | .high => 3 / 4
    | .medium => 1 / 2
    | .low => 3 / 10
    | _ => 1 / 5
  let msg := tables.toLowercase e.message
  let found := ["shadow", "reverse shell", "nc -e", "/bin/sh", "mimikatz", "failed password",
    "exploit"].filter fun kw => kw.toList <:+: msg.toList
  min (base + found.length * (1 / 10)) 1

/-- The keys of the entities of the first event that the second one has, too. -/
def sharedEntities (a b : Event) : List String :=
  ((entities a).map entityKey).filter fun k => k ∈ (entities b).map entityKey

/-- Closer in time is closer to 1, on a scale of minutes. -/
def temporalScore (dtMicros : Int) : ℚ :=
  let secs : ℚ := (max dtMicros 0 : Int) / 1000000
  1 / (1 + secs / 60)

/-! ## The graph -/

/-- Tunables for causal graph construction. -/
structure CausalConfig where
  windowMicros : Int
  beamWidth : Nat

def CausalConfig.default : CausalConfig where
  windowMicros := 30 * 60 * 1000000
  beamWidth := 4

/-- A built causal graph and why each edge exists. -/
structure CausalBuild where
  graph : CausalGraph
  reasons : AList fun _ : Nat × Nat => String

section Build

variable (tables : CaseTables) (humanDt : Int → String)
    (techniques : AList fun _ : String => String)
  (cfg : CausalConfig) (events : List Event)

/-- The events in the order of time. -/
def ordered : List Event :=
  events.insertionSort fun a b => a.ts ≤ b.ts

def causalNode (e : Event) : CausalNode :=
  let technique := techniques.lookup e.id
  { eventId := e.id
    label := labelFor e
    ts := e.ts
    technique := technique
    tactic := some (tacticFor technique e.ocsfClass)
    anomaly := anomalyScore tables e }

/-- The time from one event to another one, which wraps. -/
def timeBetween (a b : Event) : Int :=
  toI64 (b.ts - a.ts)

def edgeScore (a b : Event) : ℚ :=
  min (45 / 100 + 25 / 100 * temporalScore (timeBetween a b) + 30 / 100 * anomalyScore tables b) 1

/-- The edge from an event to a later one with its reason, if the two are related. -/
def edgeBetween (pair : (Event × Nat) × (Event × Nat)) : Option (CausalEdge × String) :=
  let a := pair.1.1
  let b := pair.2.1
  if cfg.windowMicros < timeBetween a b then none
  else
    let shared := sharedEntities a b
    if shared.isEmpty then none
    else
      some ({ fromNode := pair.1.2, toNode := pair.2.2, score := edgeScore tables a b },
        "shares " ++ ", ".intercalate shared ++ "; Δt=" ++ humanDt (timeBetween a b))

def buildCausalGraph : CausalBuild :=
  let found := (pairs (ordered events).zipIdx).filterMap (edgeBetween tables humanDt cfg)
  { graph :=
      { nodes := (ordered events).map (causalNode tables techniques)
        edges := found.map Prod.fst }
    reasons := found.foldl
      (fun reasons edge => reasons.insert (edge.1.fromNode, edge.1.toNode) edge.2) ∅ }

end Build

/-! ## Its edges -/

section Edges

variable {tables : CaseTables} {humanDt : Int → String}
  {techniques : AList fun _ : String => String} {cfg : CausalConfig} {events : List Event}

theorem sharedEntities_ne_nil {a b : Event} : sharedEntities a b ≠ [] ↔ ShareEntity a b := by
  rw [sharedEntities, Ne, List.filter_eq_nil_iff, not_forall]
  constructor
  · rintro ⟨k, shared⟩
    rcases Classical.not_imp.mp shared with ⟨inFirst, inSecond⟩
    rcases List.mem_map.mp inFirst with ⟨e, member, rfl⟩
    rcases List.mem_map.mp (of_decide_eq_true (not_not.mp inSecond)) with ⟨e', member', same⟩
    exact ⟨e, member, e', member', same.symm⟩
  · rintro ⟨e, member, e', member', same⟩
    refine ⟨entityKey e, fun noEntity => ?_⟩
    apply noEntity (List.mem_map_of_mem member)
    exact decide_eq_true (List.mem_map.mpr ⟨e', member', same.symm⟩)

/-- Two events at positions of which the first one is the smaller. -/
theorem mem_pairs_zipIdx {α : Type} {list : List α} {a b : α} {i j : Nat} :
    ((a, i), (b, j)) ∈ pairs list.zipIdx ↔
      list[i]? = some a ∧ list[j]? = some b ∧ i < j := by
  have ascending : list.zipIdx.Pairwise fun x y => x.2 < y.2 := by
    rw [← List.pairwise_map (f := Prod.snd) (R := (· < ·)), List.zipIdx_map_snd]
    exact List.pairwise_lt_range'
  rw [@mem_pairs_iff _ (fun x y : α × Nat => x.2 < y.2) Nat.lt_asymm _ ascending,
    List.mk_mem_zipIdx_iff_getElem?, List.mk_mem_zipIdx_iff_getElem?]

/-- The two events are joined by an edge. -/
structure Linked (cfg : CausalConfig) (events : List Event) (i j : Nat) (a b : Event) : Prop where
  first : (ordered events)[i]? = some a
  second : (ordered events)[j]? = some b
  before : i < j
  near : timeBetween a b ≤ cfg.windowMicros
  share : ShareEntity a b

theorem edgeBetween_eq_some {a b : Event} {i j : Nat} {edge : CausalEdge} {reason : String} :
    edgeBetween tables humanDt cfg ((a, i), (b, j)) = some (edge, reason) ↔
      timeBetween a b ≤ cfg.windowMicros ∧ ShareEntity a b ∧
        edge = { fromNode := i, toNode := j, score := edgeScore tables a b } ∧
        reason = "shares " ++ ", ".intercalate (sharedEntities a b) ++ "; Δt=" ++
          humanDt (timeBetween a b) := by
  unfold edgeBetween
  dsimp only
  split
  · next far =>
      exact ⟨fun impossible => (nomatch impossible),
        fun both => absurd both.1 (not_le_of_gt far)⟩
  · next near =>
      split
      · next nothing =>
          refine ⟨fun impossible => (nomatch impossible), fun both => ?_⟩
          exact absurd (List.isEmpty_iff.mp nothing) (sharedEntities_ne_nil.mpr both.2.1)
      · next something =>
          have share := sharedEntities_ne_nil.mp fun nothing =>
            something (List.isEmpty_iff.mpr nothing)
          rw [Option.some.injEq, Prod.mk.injEq]
          exact ⟨fun both => ⟨le_of_not_gt near, share, both.1.symm, both.2.symm⟩,
            fun all => ⟨all.2.2.1.symm, all.2.2.2.symm⟩⟩

theorem mem_found {edge : CausalEdge} {reason : String} :
    (edge, reason) ∈ (pairs (ordered events).zipIdx).filterMap
      (edgeBetween tables humanDt cfg) ↔
      ∃ a b, Linked cfg events edge.fromNode edge.toNode a b ∧
        edge.score = edgeScore tables a b ∧
        reason = "shares " ++ ", ".intercalate (sharedEntities a b) ++ "; Δt=" ++
          humanDt (timeBetween a b) := by
  rw [List.mem_filterMap]
  constructor
  · rintro ⟨⟨⟨a, i⟩, ⟨b, j⟩⟩, member, isEdge⟩
    rcases edgeBetween_eq_some.mp isEdge with ⟨near, share, rfl, rfl⟩
    rcases mem_pairs_zipIdx.mp member with ⟨first, second, before⟩
    exact ⟨a, b, ⟨first, second, before, near, share⟩, rfl, rfl⟩
  · rintro ⟨a, b, linked, score, rfl⟩
    refine ⟨((a, edge.fromNode), (b, edge.toNode)), ?_, edgeBetween_eq_some.mpr ?_⟩
    · exact mem_pairs_zipIdx.mpr ⟨linked.first, linked.second, linked.before⟩
    · refine ⟨linked.near, linked.share, ?_, rfl⟩
      rw [← score]

/-- The edges of the graph join the related events, each with its score. -/
theorem mem_edges {edge : CausalEdge} :
    edge ∈ (buildCausalGraph tables humanDt techniques cfg events).graph.edges ↔
      ∃ a b, Linked cfg events edge.fromNode edge.toNode a b ∧
        edge.score = edgeScore tables a b := by
  unfold buildCausalGraph
  rw [List.mem_map]
  constructor
  · rintro ⟨⟨edge, reason⟩, member, rfl⟩
    rcases mem_found.mp member with ⟨a, b, linked, score, -⟩
    exact ⟨a, b, linked, score⟩
  · rintro ⟨a, b, linked, score⟩
    exact ⟨(edge, _), mem_found.mpr ⟨a, b, linked, score, rfl⟩, rfl⟩

/-- A reason is recorded for every edge. -/
theorem mem_reasons {edge : CausalEdge}
    (member : edge ∈ (buildCausalGraph tables humanDt techniques cfg events).graph.edges) :
    (edge.fromNode, edge.toNode) ∈
      (buildCausalGraph tables humanDt techniques cfg events).reasons := by
  rcases List.mem_map.mp member with ⟨pair, inFound, rfl⟩
  exact (mem_insertAll _ _ _ _ _).mpr (Or.inr ⟨pair, inFound, rfl⟩)

end Edges

end Correlate
end Sigil
