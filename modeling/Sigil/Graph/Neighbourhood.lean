import Sigil.Core.HashMap
import Sigil.Core.Slices
import Sigil.Graph.Provenance
import Sigil.Library.Levels
import Sigil.Library.Pointwise

namespace Sigil
namespace Graph

/-!
# Nodes, edges and neighbourhoods

The other part of the provenance graph: a node for each entity, an edge for each step of the chain
of an event, and the entities within some hops of one.  The order in which the edges of a node are
listed is a parameter.
-/

open Sigil.Core Library

/-- A node: one entity in the provenance graph. -/
structure EntityNode where
  kind : String
  id : String
  deriving DecidableEq, Repr

/-- What an edge says: an event linking two entities. -/
structure EventEdge where
  eventId : String
  action : String
  ts : Int
  deriving DecidableEq, Repr

/-- An edge between the nodes at two places. -/
structure GraphEdge where
  source : Nat
  target : Nat
  weight : EventEdge
  deriving DecidableEq, Repr

/-- The nodes in the order of their numbers, the edges, and the numbers of the entity keys. -/
structure EntityGraph where
  nodes : List EntityNode
  edges : List GraphEdge
  index : AList fun _ : String => Nat

def nodeKey (n : EntityNode) : String :=
  n.kind ++ ":" ++ n.id

/-- The node of an entity. -/
def nodeOf (e : EntityRef) : EntityNode where
  kind := e.kind
  id := e.id

/-- A coarse action label derived from the event's OCSF class. -/
def actionFor (event : Event) : String :=
  match event.ocsfClass with
  | .authentication => "authenticate"
  | .processActivity => "execute"
  | .fileSystemActivity => "access"
  | .networkActivity => "connect"
  | .httpActivity => "request"
  | .apiActivity => "invoke"
  | .dnsActivity => "resolve"
  | .moduleActivity => "load"
  | .scheduledJobActivity => "schedule"
  | .registryKeyActivity => "modify"
  | .other _ => "event"

namespace EntityGraph

def new : EntityGraph where
  nodes := []
  edges := []
  index := ∅

/-- The number of the node of an entity, which is added if it is not there. -/
def nodeFor (g : EntityGraph) (e : EntityRef) : Nat × EntityGraph :=
  match g.index.lookup (entityKey e) with
  | some idx => (idx, g)
  | none =>
      (g.nodes.length,
        { g with
          nodes := g.nodes ++ [nodeOf e]
          index := g.index.insert (entityKey e) g.nodes.length })

/-- An edge for two entities that follow each other in an event. -/
def addEdge (event : Event) (g : EntityGraph) (pair : EntityRef × EntityRef) : EntityGraph :=
  let a := g.nodeFor pair.1
  let b := a.2.nodeFor pair.2
  { b.2 with
    edges := b.2.edges ++ [⟨a.1, b.1, ⟨event.id, actionFor event, event.ts⟩⟩] }

/-- Create nodes for the entities of an event, and chain edges along host, actor and target. -/
def addEvent (g : EntityGraph) (event : Event) : EntityGraph :=
  let chain := entities event
  let g := chain.foldl (fun g e => (g.nodeFor e).2) g
  (chain.zip chain.tail).foldl (addEdge event) g

/-- The nodes at the other ends of the edges of a node: first those of the edges that leave it. -/
def neighbours (order : HashOrder Nat) (g : EntityGraph) (node : Nat) : List Nat :=
  order.run ((g.edges.filter fun edge => edge.source = node).map GraphEdge.target) ++
    order.run ((g.edges.filter fun edge => edge.target = node).map GraphEdge.source)

/-- The key of the node with a number; every number in use has a node. -/
def keyAt (g : EntityGraph) (node : Nat) : String :=
  (g.nodes[node]?).elim "" nodeKey

/-- Entity keys reachable within `hops` of the given entity, excluding the start. -/
def khop (order : HashOrder Nat) (g : EntityGraph) (start : EntityRef) (hops : Nat) :
    Finset String :=
  match g.index.lookup (entityKey start) with
  | none => ∅
  | some startIdx =>
      (Levels.search (g.neighbours order) g.keyAt startIdx hops).1.erase (g.keyAt startIdx)

end EntityGraph

/-! ## Keys -/

/-- A kind without the separator of a key. -/
def PlainKind (kind : String) : Prop :=
  ':' ∉ kind.toList

instance (kind : String) : Decidable (PlainKind kind) :=
  inferInstanceAs (Decidable (¬ ':' ∈ kind.toList))

/-- Nodes of plain kinds are told apart by their keys. -/
theorem nodeKey_injective {x y : EntityNode} (left : PlainKind x.kind) (right : PlainKind y.kind)
    (same : nodeKey x = nodeKey y) : x = y := by
  have cut : ∀ n : EntityNode, PlainKind n.kind →
      splitOnce ":" (nodeKey n) = some (n.kind, n.id) := by
    intro n plain
    rw [nodeKey, String.append_assoc]
    exact splitOnce_append rfl plain n.id
  have parts : some (x.kind, x.id) = some (y.kind, y.id) := by
    rw [← cut x left, ← cut y right, same]
  cases x
  cases y
  cases parts
  rfl

/-! ## What the graph holds -/

/-- The nodes that follow each other in the chain of an event. -/
def chainPairs (event : Event) : List (EntityNode × EntityNode) :=
  ((entities event).zip (entities event).tail).map fun pair => (nodeOf pair.1, nodeOf pair.2)

namespace EntityGraph

/-- The nodes at the two ends of an edge. -/
def ends (g : EntityGraph) (edge : GraphEdge) : Option EntityNode × Option EntityNode :=
  (g.nodes[edge.source]?, g.nodes[edge.target]?)

/-- The index finds the nodes by their keys, their kinds are plain, and the edges join some
pairs. -/
structure Represents (g : EntityGraph) (pairs : List (EntityNode × EntityNode)) : Prop where
  index : ∀ key i, g.index.lookup key = some i ↔
    ∃ node, g.nodes[i]? = some node ∧ nodeKey node = key
  plain : ∀ node, node ∈ g.nodes → PlainKind node.kind
  edges : g.edges.map g.ends = pairs.map fun pair => (some pair.1, some pair.2)

variable {g : EntityGraph} {pairs : List (EntityNode × EntityNode)}

theorem represents_new : new.Represents [] where
  index key i := by
    refine ⟨fun impossible => absurd impossible (Option.some_ne_none i).symm, ?_⟩
    rintro ⟨node, impossible, -⟩
    exact absurd impossible (Option.some_ne_none node).symm
  plain node impossible := absurd impossible List.not_mem_nil
  edges := rfl

theorem Represents.inside (represents : g.Represents pairs) {edge : GraphEdge}
    (member : edge ∈ g.edges) :
    ∃ pair, pair ∈ pairs ∧ g.nodes[edge.source]? = some pair.1 ∧
      g.nodes[edge.target]? = some pair.2 := by
  have listed : g.ends edge ∈ g.edges.map g.ends := List.mem_map_of_mem member
  rw [represents.edges] at listed
  rcases List.mem_map.mp listed with ⟨pair, inPairs, same⟩
  have both := Prod.ext_iff.mp same
  exact ⟨pair, inPairs, both.1.symm, both.2.symm⟩

theorem Represents.edge (represents : g.Represents pairs) {pair : EntityNode × EntityNode}
    (inPairs : pair ∈ pairs) :
    ∃ edge, edge ∈ g.edges ∧ g.nodes[edge.source]? = some pair.1 ∧
      g.nodes[edge.target]? = some pair.2 := by
  have listed : (some pair.1, some pair.2) ∈ g.edges.map g.ends := by
    rw [represents.edges]
    exact List.mem_map_of_mem inPairs
  rcases List.mem_map.mp listed with ⟨edge, member, same⟩
  have both := Prod.ext_iff.mp same
  exact ⟨edge, member, both.1, both.2⟩

/-- A new node behind the others, under a key that has not been found. -/
theorem Represents.push (represents : g.Represents pairs) {e : EntityRef}
    (isPlain : PlainKind e.kind) (absent : g.index.lookup (entityKey e) = none) :
    ({ g with
      nodes := g.nodes ++ [nodeOf e]
      index := g.index.insert (entityKey e) g.nodes.length } : EntityGraph).Represents pairs where
  index key i := by
    dsimp only
    by_cases same : key = entityKey e
    · rw [same, AList.lookup_insert, Option.some_inj]
      constructor
      · rintro rfl
        exact ⟨nodeOf e, List.getElem?_concat_length, rfl⟩
      · rintro ⟨node, atI, isKey⟩
        rcases Pointwise.getElem?_concat_cases atI with ⟨-, before⟩ | ⟨isLast, -⟩
        · rw [(represents.index _ i).mpr ⟨node, before, isKey⟩] at absent
          cases absent
        · exact isLast.symm
    · rw [AList.lookup_insert_ne same, represents.index]
      constructor
      · rintro ⟨node, atI, isKey⟩
        exact ⟨node, Pointwise.getElem?_append_of_some atI (nodeOf e), isKey⟩
      · rintro ⟨node, atI, isKey⟩
        rcases Pointwise.getElem?_concat_cases atI with ⟨-, before⟩ | ⟨-, isNew⟩
        · exact ⟨node, before, isKey⟩
        · rw [isNew] at isKey
          exact absurd isKey.symm same
  plain node member := by
    rcases List.mem_append.mp member with before | isLast
    · exact represents.plain node before
    · rw [List.mem_singleton.mp isLast]
      exact isPlain
  edges := by
    rw [← represents.edges]
    apply List.map_congr_left
    intro edge member
    rcases represents.inside member with ⟨pair, -, source, target⟩
    rw [ends, ends, source, target, Pointwise.getElem?_append_of_some source,
      Pointwise.getElem?_append_of_some target]

/-- After the node of an entity has been asked for, it is there, and nothing else has changed. -/
theorem Represents.nodeFor (represents : g.Represents pairs) {e : EntityRef}
    (isPlain : PlainKind e.kind) : (g.nodeFor e).2.Represents pairs ∧
      (g.nodeFor e).2.nodes[(g.nodeFor e).1]? = some (nodeOf e) ∧
      ∀ (i : Nat) (node : EntityNode), g.nodes[i]? = some node →
        (g.nodeFor e).2.nodes[i]? = some node := by
  rw [EntityGraph.nodeFor]
  cases found : g.index.lookup (entityKey e) with
  | some idx =>
      rcases (represents.index _ _).mp found with ⟨node, atIdx, isKey⟩
      have kind := represents.plain node (List.mem_of_getElem? atIdx)
      have same : node = nodeOf e := nodeKey_injective kind isPlain isKey
      exact ⟨represents, same ▸ atIdx, fun i node atI => atI⟩
  | none =>
      refine ⟨represents.push isPlain found, List.getElem?_concat_length, ?_⟩
      exact fun i node atI => Pointwise.getElem?_append_of_some atI (nodeOf e)

theorem Represents.addEdge (represents : g.Represents pairs) (event : Event)
    {pair : EntityRef × EntityRef} (left : PlainKind pair.1.kind) (right : PlainKind pair.2.kind) :
    (addEdge event g pair).Represents (pairs ++ [(nodeOf pair.1, nodeOf pair.2)]) := by
  rcases represents.nodeFor left with ⟨first, atSource, -⟩
  rcases first.nodeFor right with ⟨second, atTarget, kept⟩
  have stillAtSource : ((g.nodeFor pair.1).2.nodeFor pair.2).2.nodes[(g.nodeFor pair.1).1]? =
      some (nodeOf pair.1) := kept _ _ atSource
  refine ⟨second.index, second.plain, ?_⟩
  rw [EntityGraph.addEdge, List.map_append, List.map_append, List.map_singleton, List.map_singleton,
    ← second.edges]
  change _ = _ ++ [(some (nodeOf pair.1), some (nodeOf pair.2))]
  rw [← stillAtSource, ← atTarget]
  rfl

theorem Represents.foldl_nodeFor {chain : List EntityRef}
    (plain : ∀ e, e ∈ chain → PlainKind e.kind) {g : EntityGraph}
    (represents : g.Represents pairs) :
    (chain.foldl (fun g e => (g.nodeFor e).2) g).Represents pairs := by
  induction chain generalizing g with
  | nil => exact represents
  | cons e chain inductionHypothesis =>
      have here := (represents.nodeFor (plain e List.mem_cons_self)).1
      exact inductionHypothesis (fun e' member => plain e' (List.mem_cons_of_mem _ member)) here

theorem Represents.foldl_addEdge (event : Event) {chain : List (EntityRef × EntityRef)}
    (plain : ∀ pair, pair ∈ chain → PlainKind pair.1.kind ∧ PlainKind pair.2.kind)
    {g : EntityGraph} {pairs : List (EntityNode × EntityNode)} (represents : g.Represents pairs) :
    (chain.foldl (EntityGraph.addEdge event) g).Represents
      (pairs ++ chain.map fun pair => (nodeOf pair.1, nodeOf pair.2)) := by
  induction chain generalizing g pairs with
  | nil =>
      rw [List.map_nil, List.append_nil]
      exact represents
  | cons pair chain inductionHypothesis =>
      have both := plain pair List.mem_cons_self
      have rest :=
        inductionHypothesis (fun pair' member => plain pair' (List.mem_cons_of_mem _ member))
        (represents.addEdge event both.1 both.2)
      rw [List.append_assoc] at rest
      exact rest

theorem Represents.addEvent (represents : g.Represents pairs) {event : Event}
    (plain : ∀ e, e ∈ entities event → PlainKind e.kind) :
    (g.addEvent event).Represents (pairs ++ chainPairs event) := by
  refine (represents.foldl_nodeFor plain).foldl_addEdge event fun pair member => ?_
  have places := List.of_mem_zip member
  exact ⟨plain _ places.1, plain _ (List.mem_of_mem_tail places.2)⟩

/-- The graph of some events represents the steps of their chains. -/
theorem represents_foldl {events : List Event}
    (plain : ∀ event, event ∈ events → ∀ e, e ∈ entities event → PlainKind e.kind) :
    (events.foldl EntityGraph.addEvent new).Represents (events.flatMap chainPairs) := by
  induction events using List.reverseRecOn with
  | nil => exact represents_new
  | append_singleton events last inductionHypothesis =>
      rw [List.foldl_append, List.flatMap_append, List.flatMap_singleton]
      have earlier := inductionHypothesis fun event member =>
        plain event (List.mem_append_left _ member)
      exact earlier.addEvent (plain last (List.mem_append_right _ (List.mem_singleton_self last)))

/-! ## Walks over numbers and over entities -/

/-- The index sends a key to one number only. -/
theorem Represents.unique (represents : g.Represents pairs) {i j : Nat} {x y : EntityNode}
    (left : g.nodes[i]? = some x) (right : g.nodes[j]? = some y) (same : nodeKey x = nodeKey y) :
    i = j := by
  have first := (represents.index (nodeKey x) i).mpr ⟨x, left, rfl⟩
  have second := (represents.index (nodeKey x) j).mpr ⟨y, right, same.symm⟩
  exact Option.some.inj (first.symm.trans second)

/-- The number of the next node of a pair of nodes is a neighbour of that of the first. -/
theorem mem_neighbours (order : HashOrder Nat) {i j : Nat} : j ∈ g.neighbours order i ↔
    ∃ edge, edge ∈ g.edges ∧ ((edge.source = i ∧ edge.target = j) ∨
      (edge.target = i ∧ edge.source = j)) := by
  rw [neighbours, List.mem_append, order.mem, order.mem]
  simp only [List.mem_map, List.mem_filter, decide_eq_true_eq, and_or_left, exists_or, and_assoc]

/-- The two nodes stand in a pair, in either order. -/
def Joined (pairs : List (EntityNode × EntityNode)) (x y : EntityNode) : Prop :=
  (x, y) ∈ pairs ∨ (y, x) ∈ pairs

theorem Represents.joined (represents : g.Represents pairs) (order : HashOrder Nat) {i j : Nat}
    {x : EntityNode} (atI : g.nodes[i]? = some x) (neighbour : j ∈ g.neighbours order i) :
    ∃ y, g.nodes[j]? = some y ∧ Joined pairs x y := by
  rcases (mem_neighbours order).mp neighbour with ⟨edge, member, ends⟩
  rcases represents.inside member with ⟨pair, inPairs, source, target⟩
  rcases ends with ⟨rfl, rfl⟩ | ⟨rfl, rfl⟩
  · cases Option.some.inj (atI.symm.trans source)
    exact ⟨pair.2, target, Or.inl inPairs⟩
  · cases Option.some.inj (atI.symm.trans target)
    exact ⟨pair.1, source, Or.inr inPairs⟩

theorem Represents.neighbour (represents : g.Represents pairs) (order : HashOrder Nat) {i : Nat}
    {x y : EntityNode} (atI : g.nodes[i]? = some x) (joined : Joined pairs x y) :
    ∃ j, g.nodes[j]? = some y ∧ j ∈ g.neighbours order i := by
  rcases joined with forth | back
  · rcases represents.edge forth with ⟨edge, member, source, target⟩
    have isSource := represents.unique source atI rfl
    exact ⟨edge.target, target, (mem_neighbours order).mpr
      ⟨edge, member, Or.inl ⟨isSource, rfl⟩⟩⟩
  · rcases represents.edge back with ⟨edge, member, source, target⟩
    have isTarget := represents.unique target atI rfl
    exact ⟨edge.source, source, (mem_neighbours order).mpr
      ⟨edge, member, Or.inr ⟨isTarget, rfl⟩⟩⟩

section Start

variable {startIdx : Nat} {start : EntityNode} (order : HashOrder Nat)

theorem Represents.walks_joined (represents : g.Represents pairs)
    (atStart : g.nodes[startIdx]? = some start) {k j : Nat}
    (walks : Levels.Walks (fun i j => j ∈ g.neighbours order i) startIdx k j) :
    ∃ y, g.nodes[j]? = some y ∧ Levels.Walks (Joined pairs) start k y := by
  induction walks with
  | zero => exact ⟨start, atStart, .zero⟩
  | succ _ neighbour inductionHypothesis =>
      rcases inductionHypothesis with ⟨x, atX, walks⟩
      rcases represents.joined order atX neighbour with ⟨y, atY, joined⟩
      exact ⟨y, atY, walks.succ joined⟩

theorem Represents.walks_neighbours (represents : g.Represents pairs)
    (atStart : g.nodes[startIdx]? = some start) {k : Nat} {y : EntityNode}
    (walks : Levels.Walks (Joined pairs) start k y) :
    ∃ j, g.nodes[j]? = some y ∧
      Levels.Walks (fun i j => j ∈ g.neighbours order i) startIdx k j := by
  induction walks with
  | zero => exact ⟨startIdx, atStart, .zero⟩
  | succ _ joined inductionHypothesis =>
      rcases inductionHypothesis with ⟨i, atI, walks⟩
      rcases represents.neighbour order atI joined with ⟨j, atJ, neighbour⟩
      exact ⟨j, atJ, walks.succ neighbour⟩

theorem keyAt_eq {i : Nat} {x : EntityNode} (atI : g.nodes[i]? = some x) :
    g.keyAt i = nodeKey x := by
  rw [keyAt, atI]
  rfl

theorem Represents.distinct (represents : g.Represents pairs)
    (atStart : g.nodes[startIdx]? = some start) :
    Levels.Distinct (g.neighbours order) g.keyAt startIdx := by
  intro _ i first _ j second same
  rcases represents.walks_joined order atStart first with ⟨x, atI, -⟩
  rcases represents.walks_joined order atStart second with ⟨y, atJ, -⟩
  rw [keyAt_eq atI, keyAt_eq atJ] at same
  exact represents.unique atI atJ same

/-- The search finds the keys of the nodes that walks of so many steps end at. -/
theorem Represents.mem_search (represents : g.Represents pairs)
    (atStart : g.nodes[startIdx]? = some start) {hops : Nat} {key : String} :
    key ∈ (Levels.search (g.neighbours order) g.keyAt startIdx hops).1 ↔
      ∃ k y, 1 ≤ k ∧ k ≤ hops ∧ Levels.Walks (Joined pairs) start k y ∧
        nodeKey y = key := by
  rw [(Levels.searched_search (represents.distinct order atStart) hops).seen]
  constructor
  · rintro ⟨k, j, one, bound, walks, isKey⟩
    rcases represents.walks_joined order atStart walks with ⟨y, atJ, walks'⟩
    exact ⟨k, y, one, bound, walks', (keyAt_eq atJ).symm.trans isKey⟩
  · rintro ⟨k, y, one, bound, walks, isKey⟩
    rcases represents.walks_neighbours order atStart walks with ⟨j, atJ, walks'⟩
    exact ⟨k, j, one, bound, walks', (keyAt_eq atJ).trans isKey⟩

end Start

end EntityGraph

/-! ## Neighbourhoods -/

/-- The two entities follow each other in the chain of some event, in either order. -/
def Linked (events : List Event) : EntityNode → EntityNode → Prop :=
  EntityGraph.Joined (events.flatMap chainPairs)

/-- The entities of the events and the links between them. -/
def linkGraph (events : List Event) : SimpleGraph EntityNode :=
  SimpleGraph.fromRel (Linked events)

theorem Linked.symm {events : List Event} (x y : EntityNode) (linked : Linked events x y) :
    Linked events y x :=
  Or.symm linked

/-- What is linked is the node of an entity of some event. -/
theorem Linked.entity {events : List Event} {x y : EntityNode} (linked : Linked events x y) :
    ∃ event, event ∈ events ∧ ∃ e, e ∈ entities event ∧ nodeOf e = x := by
  rcases linked with forth | back
  · rcases List.mem_flatMap.mp forth with ⟨event, member, inChain⟩
    rcases List.mem_map.mp inChain with ⟨pair, inZip, same⟩
    exact ⟨event, member, pair.1, (List.of_mem_zip inZip).1, congrArg Prod.fst same⟩
  · rcases List.mem_flatMap.mp back with ⟨event, member, inChain⟩
    rcases List.mem_map.mp inChain with ⟨pair, inZip, same⟩
    exact ⟨event, member, pair.2, List.mem_of_mem_tail (List.of_mem_zip inZip).2,
      congrArg Prod.snd same⟩

/-- What is linked has a number, so that an unknown entity has no links. -/
theorem Linked.known {events : List Event}
    (plain : ∀ event, event ∈ events → ∀ e, e ∈ entities event → PlainKind e.kind)
    {x y : EntityNode} (linked : Linked events x y) :
    (events.foldl EntityGraph.addEvent .new).index.lookup (nodeKey x) ≠ none := by
  have represents := EntityGraph.represents_foldl plain
  intro unknown
  rcases linked with forth | back
  · rcases represents.edge forth with ⟨edge, -, source, -⟩
    rw [(represents.index _ _).mpr ⟨x, source, rfl⟩] at unknown
    cases unknown
  · rcases represents.edge back with ⟨edge, -, -, target⟩
    rw [(represents.index _ _).mpr ⟨x, target, rfl⟩] at unknown
    cases unknown

/-- Entities at a distance between one and the number of hops are the other ends of walks. -/
theorem near_iff {events : List Event} {start x : EntityNode} {hops : Nat} :
    1 ≤ (linkGraph events).edist start x ∧ (linkGraph events).edist start x ≤ hops ↔
      x ≠ start ∧ ∃ k, 1 ≤ k ∧ k ≤ hops ∧ Levels.Walks (Linked events) start k x := by
  rw [linkGraph, Levels.edist_le_iff Linked.symm, Order.one_le_iff_ne_zero, Ne,
    SimpleGraph.edist_eq_zero_iff, eq_comm]
  refine and_congr_right fun different => ?_
  constructor
  · rintro ⟨k, bound, walks⟩
    cases walks with
    | zero => exact absurd rfl different
    | succ walks isStep => exact ⟨_, Nat.le_add_left 1 _, bound, walks.succ isStep⟩
  · rintro ⟨k, -, bound, walks⟩
    exact ⟨k, bound, walks⟩

theorem mem_khop (order : HashOrder Nat) {events : List Event}
    (plain : ∀ event, event ∈ events → ∀ e, e ∈ entities event → PlainKind e.kind)
    {start : EntityRef} (plainStart : PlainKind start.kind) {hops : Nat} {key : String} :
    key ∈ (events.foldl EntityGraph.addEvent .new).khop order start hops ↔
      ∃ x, nodeKey x = key ∧ x ≠ nodeOf start ∧
        ∃ k, 1 ≤ k ∧ k ≤ hops ∧ Levels.Walks (Linked events) (nodeOf start) k x := by
  have represents := EntityGraph.represents_foldl plain
  rw [EntityGraph.khop]
  cases found : (events.foldl EntityGraph.addEvent .new).index.lookup (entityKey start) with
  | none =>
      refine ⟨fun impossible => absurd impossible (Finset.notMem_empty key), ?_⟩
      rintro ⟨x, -, -, k, one, -, walks⟩
      rcases walks.first one with ⟨y, linked⟩
      exact absurd found (linked.known plain)
  | some startIdx =>
      rcases (represents.index _ _).mp found with ⟨node, atStart, isKey⟩
      have isStart : node = nodeOf start :=
        nodeKey_injective (represents.plain node (List.mem_of_getElem? atStart)) plainStart isKey
      subst isStart
      rw [Finset.mem_erase, represents.mem_search order atStart, EntityGraph.keyAt_eq atStart]
      constructor
      · rintro ⟨different, k, y, one, bound, walks, rfl⟩
        exact ⟨y, rfl, fun same => different (congrArg nodeKey same), k, one, bound, walks⟩
      · rintro ⟨x, rfl, different, k, one, bound, walks⟩
        refine ⟨fun same => different ?_, k, x, one, bound, walks, rfl⟩
        rcases represents.walks_neighbours order atStart walks with ⟨j, atJ, -⟩
        exact nodeKey_injective (represents.plain x (List.mem_of_getElem? atJ)) plainStart same

/-- The neighbourhood of an entity holds the keys of the entities whose distance from it is
between one and the number of hops. -/
theorem khop_exact (order : HashOrder Nat) {events : List Event}
    (plain : ∀ event, event ∈ events → ∀ e, e ∈ entities event → PlainKind e.kind)
    {start : EntityRef} (plainStart : PlainKind start.kind) (hops : Nat) :
    (∀ key, key ∈ (events.foldl EntityGraph.addEvent .new).khop order start hops ↔
      ∃ x, nodeKey x = key ∧ 1 ≤ (linkGraph events).edist (nodeOf start) x ∧
        (linkGraph events).edist (nodeOf start) x ≤ hops) ∧
    ((∀ event, event ∈ events → ∀ e, e ∈ entities event → nodeOf e ≠ nodeOf start) →
      (events.foldl EntityGraph.addEvent .new).khop order start hops = ∅) := by
  constructor
  · intro key
    simp only [near_iff]
    exact mem_khop order plain plainStart
  · intro unknown
    rw [Finset.eq_empty_iff_forall_notMem]
    intro key member
    rcases (mem_khop order plain plainStart).mp member with ⟨x, -, -, k, one, -, walks⟩
    rcases walks.first one with ⟨y, linked⟩
    rcases linked.entity with ⟨event, inEvents, e, inEvent, same⟩
    exact unknown event inEvents e inEvent same

/-- A process on a host, an address it reaches, and the way back. -/
def aroundWeb : List Event :=
  let blank : Event :=
    { id := "", ts := 0, ingestTs := 0, ocsfClass := .networkActivity, tenant := "acme",
      severity := .low, host := some (.new "host" "web01"), actor := none, target := none,
      message := "", fields := .empty, templateId := none, labels := [], raw := [] }
  [{ blank with id := "e1", actor := some (.new "process" "bash") },
    { blank with
      id := "e2"
      actor := some (.new "process" "bash")
      target := some (.new "ip" "9.9.9.9") },
    { blank with
      id := "e3"
      host := some (.new "ip" "9.9.9.9")
      actor := some (.new "file" "log") },
    { blank with
      id := "e4"
      host := some (.new "file" "log")
      actor := some (.new "host" "web01") }]

/-- On a circle of four entities, with two edges between two of them, the address is two hops
away from the host, and no less. -/
theorem khop_exact_around :
    (∃ x, nodeKey x = "ip:9.9.9.9" ∧
      1 ≤ (linkGraph aroundWeb).edist (nodeOf (.new "host" "web01")) x ∧
      (linkGraph aroundWeb).edist (nodeOf (.new "host" "web01")) x ≤ (2 : Nat)) ∧
    ¬ ∃ x, nodeKey x = "ip:9.9.9.9" ∧
      1 ≤ (linkGraph aroundWeb).edist (nodeOf (.new "host" "web01")) x ∧
      (linkGraph aroundWeb).edist (nodeOf (.new "host" "web01")) x ≤ (1 : Nat) := by
  have plain :
      ∀ event, event ∈ aroundWeb → ∀ e, e ∈ entities event → PlainKind e.kind := by
    decide
  constructor
  · exact ((khop_exact (.inserted Nat) plain (by decide) 2).1 _).mp (by decide +kernel)
  · intro near
    have found := ((khop_exact (.inserted Nat) plain (by decide) 1).1 _).mpr near
    exact absurd found (by decide +kernel)

end Graph
end Sigil
