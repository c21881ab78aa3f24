import Sigil.Correlate.HnswSearch
import Sigil.Library.Pointwise

namespace Sigil
namespace Correlate

/-!
# The links of the HNSW store

Every list of links is short enough and names other nodes of its layer, each once.  Links of a
new node are made layer by layer, from the top down; below the layer in work nobody knows the
new node yet, which is why no search finds it and it is never linked to itself.
-/

open Sigil.Core Library

variable {V S : Type}

namespace HnswVectorStore

/-! ## The shape of a store -/

/-- All but the links themselves. -/
def shape (store : HnswVectorStore V) :
    Nat × Nat × Nat × Option Nat × List (String × V × Nat) :=
  (store.m, store.efConstruction, store.efSearch, store.entry,
    store.nodes.map fun n => (n.id, n.vector, n.neighbors.length))

/-- The stored vectors with their ids, in the order of insertion. -/
def items (store : HnswVectorStore V) : List (String × V) :=
  store.nodes.map fun n => (n.id, n.vector)

/-- How many layers every node has. -/
def levels (store : HnswVectorStore V) : List Nat :=
  store.nodes.map fun n => n.neighbors.length

theorem inLayer_iff {store : HnswVectorStore V} {layer node : Nat} :
    store.InLayer layer node ↔ ∃ level, store.levels[node]? = some level ∧ layer < level := by
  unfold levels
  rw [List.getElem?_map]
  constructor
  · rintro ⟨list, found⟩
    rcases links_eq_some.mp found with ⟨n, isNode, inNode⟩
    exact ⟨n.neighbors.length, by rw [isNode, Option.map_some],
      (List.getElem?_eq_some_iff.mp inNode).1⟩
  · rintro ⟨level, isLevel, below⟩
    rcases Option.map_eq_some_iff.mp isLevel with ⟨n, isNode, rfl⟩
    exact ⟨_, links_eq_some.mpr ⟨n, isNode, List.getElem?_eq_getElem below⟩⟩

section Shape

variable {store store' : HnswVectorStore V} (same : store'.shape = store.shape)

include same

theorem items_of_shape : store'.items = store.items := by
  have equal := congrArg (fun shape => shape.2.2.2.2.map fun n => (n.1, n.2.1)) same
  unfold shape at equal
  rw [List.map_map, List.map_map] at equal
  exact equal

theorem levels_of_shape : store'.levels = store.levels := by
  have equal := congrArg (fun shape => shape.2.2.2.2.map fun n => n.2.2) same
  unfold shape at equal
  rw [List.map_map, List.map_map] at equal
  exact equal

theorem length_of_shape : store'.nodes.length = store.nodes.length := by
  have equal := congrArg List.length (levels_of_shape same)
  unfold levels at equal
  rwa [List.length_map, List.length_map] at equal

theorem maxNeighbors_of_shape (layer : Nat) :
    store'.maxNeighbors layer = store.maxNeighbors layer := by
  unfold maxNeighbors
  rw [show store'.m = store.m from congrArg Prod.fst same]

theorem inLayer_of_shape {layer node : Nat} (inLayer : store.InLayer layer node) :
    store'.InLayer layer node := by
  rw [inLayer_iff, levels_of_shape same]
  exact inLayer_iff.mp inLayer

end Shape

variable {store : HnswVectorStore V}

theorem shape_setLinks (node layer : Nat) (list : List Nat) :
    (store.setLinks node layer list).shape = store.shape := by
  unfold setLinks shape
  simp only [Prod.mk.injEq, true_and]
  apply List.ext_getElem?
  intro i
  rw [List.getElem?_map, List.getElem?_map, List.getElem?_modify]
  cases store.nodes[i]? with
  | none => rfl
  | some n =>
      split
      · simp
      · rfl

theorem links_setLinks_self {node layer : Nat} {list : List Nat}
    (inLayer : store.InLayer layer node) :
    (store.setLinks node layer list).links node layer = some list := by
  rcases inLayer with ⟨old, found⟩
  rcases links_eq_some.mp found with ⟨n, isNode, inNode⟩
  refine links_eq_some.mpr ⟨{ n with neighbors := n.neighbors.set layer list }, ?_, ?_⟩
  · unfold setLinks
    rw [List.getElem?_modify_eq, isNode]
    rfl
  · exact List.getElem?_set_self (List.getElem?_eq_some_iff.mp inNode).1

theorem links_setLinks_of_ne {node layer : Nat} {list : List Nat} {i l : Nat}
    (different : ¬ (i = node ∧ l = layer)) :
    (store.setLinks node layer list).links i l = store.links i l := by
  unfold links setLinks
  dsimp only
  rw [List.getElem?_modify]
  cases store.nodes[i]? with
  | none => rfl
  | some n =>
      split
      · next same =>
          subst same
          refine List.getElem?_set_ne fun equal => ?_
          exact different ⟨rfl, equal.symm⟩
      · rfl

/-! ## Changing one list of links -/

/-- The stores differ in one list of links. -/
structure Relinked (store store' : HnswVectorStore V) (node layer : Nat)
    (kept : List Nat) : Prop where
  shape : store'.shape = store.shape
  here : store'.links node layer = some kept
  elsewhere : ∀ i l, ¬ (i = node ∧ l = layer) → store'.links i l = store.links i l

theorem setLinks_relinked {node layer : Nat} (inLayer : store.InLayer layer node)
    (list : List Nat) :
    Relinked store (store.setLinks node layer list) node layer list where
  shape := shape_setLinks node layer list
  here := links_setLinks_self inLayer
  elsewhere _ _ different := links_setLinks_of_ne different

theorem Relinked.trans {store' store'' : HnswVectorStore V} {node layer : Nat}
    {list kept : List Nat} (first : Relinked store store' node layer list)
    (second : Relinked store' store'' node layer kept) :
    Relinked store store'' node layer kept where
  shape := second.shape.trans first.shape
  here := second.here
  elsewhere i l different := (second.elsewhere i l different).trans (first.elsewhere i l different)

theorem Relinked.edge {store' : HnswVectorStore V} {node layer : Nat} {kept : List Nat}
    (relinked : Relinked store store' node layer kept) {l i j : Nat} (edge : store'.Edge l i j) :
    store.Edge l i j ∨ i = node ∧ l = layer ∧ j ∈ kept := by
  rcases edge with ⟨list, found, member⟩
  by_cases same : i = node ∧ l = layer
  · rcases same with ⟨rfl, rfl⟩
    rw [relinked.here] at found
    exact Or.inr ⟨rfl, rfl, Option.some.inj found ▸ member⟩
  · rw [relinked.elsewhere i l same] at found
    exact Or.inl ⟨list, found, member⟩

section Prune

variable [LinearOrder S]

/-- What pruning keeps of a list without repetitions. -/
theorem prune_relinked (dot : V → V → S) {node layer : Nat} {list : List Nat}
    (isList : store.links node layer = some list)
    (inside : ∀ n, n ∈ list → n < store.nodes.length) (nodup : list.Nodup) (cap : Nat) :
    ∃ store' kept, store.prune dot node layer cap = some store' ∧
      Relinked store store' node layer kept ∧ kept ⊆ list ∧ kept.Nodup ∧
      kept.length ≤ cap := by
  unfold prune
  rw [isList, Option.bind_eq_bind, Option.bind_some]
  split
  · next short =>
      refine ⟨store, list, rfl, ⟨rfl, isList, fun _ _ _ => rfl⟩,
        List.Subset.refl list, nodup, short⟩
  · have here : store.InLayer layer node := ⟨list, isList⟩
    have anchored : ∃ anchor, store.vectorOf node = some anchor := by
      unfold vectorOf
      rw [List.getElem?_eq_getElem here.lt]
      exact ⟨_, rfl⟩
    rcases anchored with ⟨anchor, isAnchor⟩
    have mapped :
        list.mapM (fun n => (store.similarity dot anchor n).map fun sim => (n, sim)) ≠ none := by
      apply Pointwise.mapM_ne_none
      intro n member
      rcases exists_similarity dot anchor (inside n member) with ⟨sim, hasSim⟩
      rw [hasSim]
      exact ⟨_, rfl⟩
    rcases Option.ne_none_iff_exists'.mp mapped with ⟨scored, mapped⟩
    have nodes : scored.map Prod.fst = list := by
      have each := (Pointwise.forall₂_of_mapM mapped).imp (S := fun n hit => n =
          hit.1) fun n hit isHit => by
        rcases Option.map_eq_some_iff.mp isHit with ⟨sim, -, rfl⟩
        rfl
      rw [← List.forall₂_map_right_iff] at each
      exact (List.forall₂_eq_eq_eq ▸ each).symm
    have perm := List.perm_insertionSort (fun a b : Nat × S => b.2 ≤ a.2) scored
    rcases Exists.intro (scored.insertionSort fun a b => b.2 ≤ a.2) rfl with
      ⟨sorted, isSorted⟩
    rw [isSorted] at perm
    have distinct : (sorted.map Prod.fst).Nodup := by
      rw [(perm.map Prod.fst).nodup_iff, nodes]
      exact nodup
    have chosen : ((sorted.take cap).map Prod.fst).Nodup :=
      ((List.take_sublist _ _).map _).nodup distinct
    have once : (sorted.take cap).destutter (fun a b => a.1 ≠ b.1) = sorted.take cap :=
      List.destutter_of_isChain _ _ (List.pairwise_map.mp chosen).isChain
    simp only [isAnchor, mapped, isSorted, once, Option.bind_eq_bind, Option.bind_some]
    refine ⟨_, _, rfl, setLinks_relinked here _, fun n member => ?_, chosen, ?_⟩
    · rw [← nodes]
      exact (perm.map Prod.fst).subset (((List.take_sublist _ _).map _).subset member)
    · rw [List.length_map]
      exact List.length_take_le _ _

theorem link_relinked (dot : V → V → S) {node layer : Nat} {list more : List Nat}
    (isList : store.links node layer = some list)
    (inside : ∀ n, n ∈ list ++ more → n < store.nodes.length) (nodup : (list ++ more).Nodup) :
    ∃ store' kept, store.link dot node layer more = some store' ∧
      Relinked store store' node layer kept ∧ kept ⊆ list ++ more ∧ kept.Nodup ∧
        kept.length ≤ store.maxNeighbors layer := by
  have set := setLinks_relinked ⟨list, isList⟩ (list ++ more)
  rcases prune_relinked dot set.here (fun n member => (inside n member).trans_eq
    (length_of_shape set.shape).symm) nodup (store.maxNeighbors layer) with
    ⟨store', kept, pruned, relinked, subset, kNodup, short⟩
  refine ⟨store', kept, ?_, set.trans relinked, subset, kNodup, short⟩
  unfold link
  rw [isList, Option.bind_eq_bind, Option.bind_some]
  exact pruned

end Prune

/-! ## Well linked stores -/

structure WellLinked (store : HnswVectorStore V) : Prop where
  target : ∀ layer i j, store.Edge layer i j → j ≠ i ∧ store.InLayer layer j
  nodup : ∀ layer i list, store.links i layer = some list → list.Nodup
  degree : ∀ layer i list, store.links i layer = some list →
    list.length ≤ store.maxNeighbors layer

namespace WellLinked

theorem closed (linked : store.WellLinked) (layer : Nat) : store.ClosedLayer layer :=
  fun i j edge => (linked.target layer i j edge).2

theorem inside (linked : store.WellLinked) {layer node : Nat} {list : List Nat}
    (isList : store.links node layer = some list) {j : Nat} (member : j ∈ list) :
    j < store.nodes.length :=
  (linked.target layer node j ⟨list, isList, member⟩).2.lt

theorem relink (linked : store.WellLinked) {store' : HnswVectorStore V} {node layer : Nat}
    {kept : List Nat} (relinked : Relinked store store' node layer kept)
    (target : ∀ j, j ∈ kept → j ≠ node ∧ store.InLayer layer j) (nodup : kept.Nodup)
    (degree : kept.length ≤ store.maxNeighbors layer) : store'.WellLinked := by
  refine ⟨fun l i j edge => ?_, fun l i list found => ?_, fun l i list found => ?_⟩
  · rcases relinked.edge edge with before | ⟨rfl, rfl, member⟩
    · rcases linked.target l i j before with ⟨different, inLayer⟩
      exact ⟨different, inLayer_of_shape relinked.shape inLayer⟩
    · rcases target j member with ⟨different, inLayer⟩
      exact ⟨different, inLayer_of_shape relinked.shape inLayer⟩
  · by_cases same : i = node ∧ l = layer
    · rcases same with ⟨rfl, rfl⟩
      exact Option.some.inj (relinked.here.symm.trans found) ▸ nodup
    · exact linked.nodup l i list ((relinked.elsewhere i l same).symm.trans found)
  · rw [maxNeighbors_of_shape relinked.shape]
    by_cases same : i = node ∧ l = layer
    · rcases same with ⟨rfl, rfl⟩
      exact Option.some.inj (relinked.here.symm.trans found) ▸ degree
    · exact linked.degree l i list ((relinked.elsewhere i l same).symm.trans found)

end WellLinked

section Connect

variable [LinearOrder S] (dot : V → V → S)

/-- Linking a node to others of the layer that it does not know keeps a store well linked. -/
theorem WellLinked.link (linked : store.WellLinked) {node layer : Nat} {list more : List Nat}
    (isList : store.links node layer = some list)
    (others : ∀ j, j ∈ more → j ≠ node ∧ store.InLayer layer j ∧ j ∉ list)
    (nodup : more.Nodup) :
    ∃ store' kept, store.link dot node layer more = some store' ∧ store'.WellLinked ∧
      Relinked store store' node layer kept ∧ kept ⊆ list ++ more := by
  have distinct : (list ++ more).Nodup := by
    refine List.nodup_append.mpr ⟨linked.nodup layer node list isList, nodup, ?_⟩
    rintro i known j new rfl
    exact (others i new).2.2 known
  have target : ∀ j, j ∈ list ++ more → j ≠ node ∧ store.InLayer layer j := by
    intro j member
    rcases List.mem_append.mp member with known | new
    · exact linked.target layer node j ⟨list, isList, known⟩
    · exact ⟨(others j new).1, (others j new).2.1⟩
  rcases link_relinked dot isList (fun j member => (target j member).2.lt) distinct with
    ⟨store', kept, ran, relinked, subset, kNodup, short⟩
  refine ⟨store', kept, ran, ?_, relinked, subset⟩
  exact linked.relink relinked (fun j member => target j (subset member)) kNodup short

/-- Connecting a node that is not in a layer's links yet. -/
theorem WellLinked.connect (linked : store.WellLinked) {idx layer : Nat} {targets : List Nat}
    (own : store.links idx layer = some []) (unknown : ∀ i, ¬ store.Edge layer i idx)
    (others : ∀ t, t ∈ targets → t ≠ idx ∧ store.InLayer layer t)
    (nodup : targets.Nodup) :
    ∃ store', store.connect dot idx targets layer = some store' ∧ store'.WellLinked ∧
      store'.shape = store.shape ∧
      ∀ i l, l ≠ layer → store'.links i l = store.links i l := by
  rcases linked.link dot own (fun j member => ⟨(others j member).1, (others j member).2,
    List.not_mem_nil⟩) nodup with ⟨first, kept, ran, isLinked, relinked, subset⟩
  let invariant := fun (rest : List Nat) (s : HnswVectorStore V) =>
    s.WellLinked ∧ s.shape = store.shape ∧
      (∀ i l, l ≠ layer → s.links i l = store.links i l) ∧
      rest.Nodup ∧
      (∀ t, t ∈ rest → t ≠ idx ∧ s.InLayer layer t ∧ ¬ s.Edge layer t idx) ∧
        s.InLayer layer idx
  have folded :
      ∃ last, targets.foldlM (fun store t => store.link dot t layer [idx]) first = some last ∧
      invariant [] last := by
    apply exists_foldlM invariant
    · rintro s t rest ⟨linked, same, elsewhere, nodup, left, here⟩
      rcases left t List.mem_cons_self with ⟨different, ⟨list, isList⟩, noEdge⟩
      have fresh : idx ∉ list := fun member => noEdge ⟨list, isList, member⟩
      have new : ∀ j, j ∈ [idx] → j ≠ t ∧ s.InLayer layer j ∧ j ∉ list := by
        intro j member
        rw [List.mem_singleton.mp member]
        exact ⟨different.symm, here, fresh⟩
      rcases linked.link dot isList new (List.nodup_singleton idx) with
        ⟨s', kept, ran, isLinked, relinked, -⟩
      refine ⟨s', ran, isLinked, relinked.shape.trans same, fun i l other => ?_,
        (List.nodup_cons.mp nodup).2, fun u member => ?_, inLayer_of_shape relinked.shape here⟩
      · exact (relinked.elsewhere i l fun equal => other equal.2).trans (elsewhere i l other)
      · rcases left u (List.mem_cons_of_mem _ member) with ⟨notIdx, inLayer, noEdge⟩
        refine ⟨notIdx, inLayer_of_shape relinked.shape inLayer, fun edge => ?_⟩
        rcases relinked.edge edge with before | ⟨rfl, -, -⟩
        · exact noEdge before
        · exact (List.nodup_cons.mp nodup).1 member
    · refine ⟨isLinked, relinked.shape,
        fun i l other => relinked.elsewhere i l fun equal => other equal.2, nodup,
        fun t member => ?_, ⟨kept, relinked.here⟩⟩
      rcases others t member with ⟨different, inLayer⟩
      refine ⟨different, inLayer_of_shape relinked.shape inLayer, fun edge => ?_⟩
      rcases relinked.edge edge with before | ⟨same, -, -⟩
      · exact unknown t before
      · exact different same
  rcases folded with ⟨last, folded, isLast, same, elsewhere, -⟩
  refine ⟨last, ?_, isLast, same, elsewhere⟩
  unfold HnswVectorStore.connect
  rw [ran, Option.bind_eq_bind, Option.bind_some]
  exact folded

end Connect

/-! ## Inserting a node -/

theorem mem_layersDown {low high layer : Nat} :
    layer ∈ layersDown low high ↔ low ≤ layer ∧ layer < high := by
  unfold layersDown
  rw [List.mem_reverse, List.mem_range'_1]
  omega

theorem pairwise_layersDown (low high : Nat) : (layersDown low high).Pairwise (· > ·) := by
  unfold layersDown
  rw [List.pairwise_reverse]
  exact List.pairwise_lt_range'

/-- A store in which a new node has no links yet in the layers that are left. -/
structure Pending (base : HnswVectorStore V) (idx : Nat) (layers : List Nat)
    (state : HnswVectorStore V × Nat) : Prop where
  linked : state.1.WellLinked
  shape : state.1.shape = base.shape
  down : layers.Pairwise (· > ·)
  start : ∀ l, l ∈ layers → state.1.InLayer l state.2
  other : state.2 ≠ idx
  own : ∀ l, l ∈ layers → state.1.links idx l = some []
  unknown : ∀ l, l ∈ layers → ∀ i, ¬ state.1.Edge l i idx

section Insert

variable [LinearOrder S] (dot : V → V → S)

theorem Pending.insertLayer (query : V) {base : HnswVectorStore V}
    {idx layer : Nat} {rest : List Nat} {state : HnswVectorStore V × Nat}
    (pending : Pending base idx (layer :: rest) state) :
    ∃ next, insertLayer dot query idx state layer = some next ∧ Pending base idx rest next := by
  rcases state with ⟨s, ep⟩
  have inLayer := pending.start layer List.mem_cons_self
  rcases searchLayer_finds dot query (pending.linked.closed layer) inLayer s.efConstruction with
    ⟨found, ran, finds, -⟩
  have others : ∀ hit, hit ∈ found → hit.1 ≠ idx ∧ s.InLayer layer hit.1 := by
    intro hit member
    have reach := (finds.hits hit member).1
    refine ⟨?_, (pending.linked.closed layer).reach inLayer reach⟩
    rintro rfl
    cases reach with
    | refl => exact pending.other rfl
    | tail _ edge => exact pending.unknown layer List.mem_cons_self _ edge
  cases best : found with
  | nil => exact absurd best finds.nonempty
  | cons first remaining =>
      have isFirst : first ∈ found := best ▸ List.mem_cons_self
      let targets := (found.take (min (s.maxNeighbors layer) found.length)).map Prod.fst
      have isHit : ∀ t, t ∈ targets → t ≠ idx ∧ s.InLayer layer t := by
        intro t member
        rcases List.mem_map.mp member with ⟨hit, taken, rfl⟩
        exact others hit (List.mem_of_mem_take taken)
      have nodup : targets.Nodup := ((List.take_sublist _ _).map _).nodup finds.nodup
      rcases pending.linked.connect dot (pending.own layer List.mem_cons_self)
        (pending.unknown layer List.mem_cons_self) isHit nodup with
          ⟨s', connected, isLinked, same, elsewhere⟩
      have below : ∀ l, l ∈ rest → l < layer := (List.pairwise_cons.mp pending.down).1
      have unchanged : ∀ l, l ∈ rest → ∀ i, s'.links i l = s.links i l :=
        fun l member i => elsewhere i l (below l member).ne
      refine ⟨(s', first.1), ?_, isLinked, same.trans pending.shape,
        (List.pairwise_cons.mp pending.down).2, fun l member => ?_, (others first isFirst).1,
        fun l member => ?_, fun l member i edge => ?_⟩
      · unfold HnswVectorStore.insertLayer
        rw [ran, Option.bind_eq_bind, Option.bind_some]
        have head : found.head? = some first := by rw [best, List.head?_cons]
        rw [head, Option.bind_eq_bind, Option.bind_some]
        exact Option.bind_eq_some_iff.mpr ⟨s', connected, rfl⟩
      · exact inLayer_of_shape same ((others first isFirst).2.lower (below l member).le)
      · exact (unchanged l member idx).trans (pending.own l (List.mem_cons_of_mem _ member))
      · rcases edge with ⟨list, isList, inList⟩
        rw [unchanged l member i] at isList
        exact pending.unknown l (List.mem_cons_of_mem _ member) i ⟨list, isList, inList⟩

end Insert

/-! ## The invariant of the store -/

/-- The entry is a node of maximal level; an empty store has none. -/
def EntryIsTop (store : HnswVectorStore V) : Prop :=
  match store.entry with
  | none => store.nodes = []
  | some entry => ∃ top, store.levels[entry]? = some top ∧ 0 < top ∧
      ∀ level, level ∈ store.levels → level ≤ top

structure Sound (store : HnswVectorStore V) : Prop where
  linked : store.WellLinked
  entry : store.EntryIsTop

theorem new_sound (m efConstruction efSearch : Nat) :
    (new m efConstruction efSearch : HnswVectorStore V).Sound := by
  have noLinks : ∀ i l list,
      (new m efConstruction efSearch : HnswVectorStore V).links i l ≠ some list := by
    intro i l list found
    rcases links_eq_some.mp found with ⟨n, isNode, -⟩
    cases isNode
  refine ⟨⟨?_, ?_, ?_⟩, rfl⟩
  · rintro l i j ⟨list, found, -⟩
    exact absurd found (noLinks i l list)
  · exact fun l i list found => absurd found (noLinks i l list)
  · exact fun l i list found => absurd found (noLinks i l list)

section Push

variable (id : String) (vector : V) (layer : Nat)

theorem levels_push : (store.push id vector layer).levels = store.levels ++ [layer + 1] := by
  unfold levels push
  rw [List.map_append, List.map_singleton, List.length_replicate]

theorem length_levels : store.levels.length = store.nodes.length :=
  List.length_map _

theorem links_push {i l : Nat} : (store.push id vector layer).links i l =
    if i = store.nodes.length then if l ≤ layer then some [] else none else store.links i l := by
  unfold links push
  dsimp only
  rw [List.getElem?_append]
  by_cases last : i = store.nodes.length
  · subst last
    rw [if_neg (Nat.lt_irrefl _), Nat.sub_self, if_pos rfl,
      List.getElem?_cons_zero, Option.bind_some, List.getElem?_replicate]
    by_cases low : l ≤ layer
    · rw [if_pos low, if_pos (Nat.lt_succ_of_le low)]
    · rw [if_neg low, if_neg fun below => low (Nat.le_of_lt_succ below)]
  · rw [if_neg last]
    by_cases inside : i < store.nodes.length
    · rw [if_pos inside]
    · have outside : store.nodes.length ≤ i := Nat.le_of_not_lt inside
      rw [if_neg inside, List.getElem?_eq_none (by rw [List.length_singleton]; omega),
        List.getElem?_eq_none outside]

theorem edge_push {l i j : Nat} (edge : (store.push id vector layer).Edge l i j) :
    store.Edge l i j := by
  rcases edge with ⟨list, found, member⟩
  rw [links_push] at found
  split at found
  · split at found
    · cases Option.some.inj found
      exact absurd member List.not_mem_nil
    · cases found
  · exact ⟨list, found, member⟩

theorem InLayer.push {l i : Nat} (inLayer : store.InLayer l i) :
    (store.push id vector layer).InLayer l i := by
  rcases inLayer_iff.mp inLayer with ⟨level, isLevel, below⟩
  refine inLayer_iff.mpr ⟨level, ?_, below⟩
  rw [levels_push, List.getElem?_append_left (List.getElem?_eq_some_iff.mp isLevel).1]
  exact isLevel

theorem WellLinked.push (linked : store.WellLinked) : (store.push id vector layer).WellLinked := by
  refine ⟨fun l i j edge => ?_, fun l i list found => ?_, fun l i list found => ?_⟩
  · rcases linked.target l i j (edge_push id vector layer edge) with ⟨different, inLayer⟩
    exact ⟨different, inLayer.push id vector layer⟩
  · rw [links_push] at found
    split at found
    · split at found
      · cases Option.some.inj found
        exact List.nodup_nil
      · cases found
    · exact linked.nodup l i list found
  · rw [links_push] at found
    split at found
    · split at found
      · cases Option.some.inj found
        exact Nat.zero_le _
      · cases found
    · exact linked.degree l i list found

end Push

section Add

variable [LinearOrder S] (dot : V → V → S)

/-- The way of a new node through the layers below the top. -/
theorem Pending.foldlM (query : V) {base : HnswVectorStore V} {idx : Nat} {layers : List Nat}
    {state : HnswVectorStore V × Nat} (pending : Pending base idx layers state) :
    ∃ last, layers.foldlM (HnswVectorStore.insertLayer dot query idx) state = some last ∧
      Pending base idx [] last :=
  exists_foldlM (Pending base idx) (fun _ _ _ pending => pending.insertLayer dot query) pending

/-- The insertion starts at a node that is not the new one, and of every layer that it visits. -/
theorem WellLinked.descend_pending (linked : store.WellLinked) (id : String)
    (vector : V) (layer : Nat) {entry top : Nat} (inside : entry < store.nodes.length)
    (inLayer : ∀ l, l ≤ top → (store.push id vector layer).InLayer l entry) :
    ∃ ep, (store.push id vector layer).descend dot vector entry
      (layersDown (layer + 1) (top + 1)) =
        some ep ∧
      Pending (store.push id vector layer) store.nodes.length (layersDown 0 (min layer top + 1))
        (store.push id vector layer, ep) := by
  have pushed := linked.push id vector layer
  have unknown : ∀ l i, ¬ (store.push id vector layer).Edge l i store.nodes.length := by
    intro l i edge
    have known := (linked.target l i _ (edge_push id vector layer edge)).2.lt
    exact absurd known (Nat.lt_irrefl _)
  have keep : ∀ l i j, (store.push id vector layer).Edge l i j → j ≠ store.nodes.length := by
    rintro l i j edge rfl
    exact unknown l i edge
  have above : ∀ l, l ∈ layersDown (layer + 1) (top + 1) → min layer top ≤ l := by
    intro l member
    exact (Nat.min_le_left layer top).trans (Nat.le_of_succ_le (mem_layersDown.mp member).1)
  have inLayers : ∀ l, l ∈ layersDown (layer + 1) (top + 1) →
      (store.push id vector layer).InLayer l entry :=
    fun l member => inLayer l (Nat.le_of_lt_succ (mem_layersDown.mp member).2)
  rcases descend_ends dot vector pushed.closed keep (min layer top) (pairwise_layersDown _ _) above
    inLayers (inLayer _ (Nat.min_le_right _ _)) inside.ne with ⟨ep, ran, inLow, other⟩
  refine ⟨ep, ran, pushed, rfl, pairwise_layersDown 0 _, fun l member => ?_,
    other, fun l member => ?_, fun l _ i => unknown l i⟩
  · exact inLow.lower (Nat.le_of_lt_succ (mem_layersDown.mp member).2)
  · rw [links_push, if_pos rfl, if_pos]
    exact (Nat.le_of_lt_succ (mem_layersDown.mp member).2).trans (Nat.min_le_left _ _)

/-- An insertion succeeds, keeps the invariant and appends the new vector. -/
theorem Sound.add (sound : store.Sound) (id : String) (vector : V) (layer : Nat) :
    ∃ store', store.add dot id vector layer = some store' ∧ store'.Sound ∧
      store'.items = store.items ++ [(id, vector)] ∧ store'.efSearch = store.efSearch := by
  have linked := sound.linked.push id vector layer
  have items : (store.push id vector layer).items = store.items ++ [(id, vector)] := by
    unfold HnswVectorStore.items HnswVectorStore.push
    rw [List.map_append, List.map_singleton]
  have isTop := sound.entry
  unfold EntryIsTop at isTop
  unfold HnswVectorStore.add
  dsimp only
  split
  · next noEntry =>
      rw [noEntry] at isTop
      have empty : store.nodes = [] := isTop
      refine ⟨_, rfl,
        ⟨⟨linked.target, linked.nodup, linked.degree⟩, layer + 1, ?_,
          Nat.succ_pos _, ?_⟩, items, rfl⟩
      · show (store.push id vector layer).levels[store.nodes.length]? = some (layer + 1)
        rw [levels_push, ← length_levels, List.getElem?_concat_length]
      · show ∀ level, level ∈ (store.push id vector layer).levels → level ≤ layer + 1
        intro level member
        rw [levels_push, List.mem_append] at member
        unfold levels at member
        rw [empty] at member
        rcases member with impossible | new
        · exact absurd impossible List.not_mem_nil
        · exact (List.mem_singleton.mp new).le
  · next entry isEntry =>
      rw [isEntry] at isTop
      rcases isTop with ⟨top, isLevel, positive, highest⟩
      have inside : entry < store.nodes.length :=
        length_levels ▸ (List.getElem?_eq_some_iff.mp isLevel).1
      have pushedLevel : (store.push id vector layer).levels[entry]? = some top := by
        rw [levels_push, List.getElem?_append_left (length_levels.symm ▸ inside)]
        exact isLevel
      have isNode : ∃ node, (store.push id vector layer).nodes[entry]? = some node ∧
          node.neighbors.length = top := by
        unfold levels at pushedLevel
        rw [List.getElem?_map] at pushedLevel
        exact Option.map_eq_some_iff.mp pushedLevel
      rcases isNode with ⟨node, isNode, height⟩
      have inLayer : ∀ l, l ≤ top - 1 → (store.push id vector layer).InLayer l entry :=
        fun l below => inLayer_iff.mpr ⟨top, pushedLevel, by omega⟩
      rcases sound.linked.descend_pending dot id vector layer inside inLayer with
        ⟨ep, walked, pending⟩
      rcases pending.foldlM dot vector with ⟨⟨inserted, last⟩, folded, done⟩
      rw [isNode, Option.bind_eq_bind, Option.bind_some, height, walked, Option.bind_eq_bind,
        Option.bind_some]
      refine ⟨_, Option.bind_eq_some_iff.mpr ⟨(inserted, last), folded, rfl⟩, ?_⟩
      have same : inserted.shape = (store.push id vector layer).shape := done.shape
      have isItems := (items_of_shape same).trans items
      have isLevels := (levels_of_shape same).trans (levels_push id vector layer)
      have oldEntry : inserted.entry = store.entry := congrArg (fun shape => shape.2.2.2.1) same
      have efSearch : inserted.efSearch = store.efSearch := congrArg (fun shape => shape.2.2.1) same
      split
      · next higher =>
          refine ⟨⟨⟨done.linked.target, done.linked.nodup, done.linked.degree⟩,
            layer + 1, ?_, Nat.succ_pos _, ?_⟩, isItems, efSearch⟩
          · show inserted.levels[store.nodes.length]? = some (layer + 1)
            rw [isLevels, ← length_levels, List.getElem?_concat_length]
          · show ∀ level, level ∈ inserted.levels → level ≤ layer + 1
            intro level member
            rw [isLevels, List.mem_append] at member
            rcases member with before | new
            · exact (highest level before).trans (by omega)
            · exact (List.mem_singleton.mp new).le
      · next notHigher =>
          refine ⟨⟨done.linked, ?_⟩, isItems, efSearch⟩
          unfold EntryIsTop
          rw [oldEntry, isEntry]
          refine ⟨top, ?_, positive, fun level member => ?_⟩
          · exact (congrArg (fun levels => levels[entry]?)
              (levels_of_shape same)).trans pushedLevel
          · rw [isLevels, List.mem_append] at member
            rcases member with before | new
            · exact highest level before
            · rw [List.mem_singleton.mp new]
              omega

/-! ## Asking for neighbours -/

/-- A question to a store with an entry searches the bottom layer from where the walks end. -/
theorem Sound.knn_of_entry (sound : store.Sound) {entry : Nat} (isEntry : store.entry = some entry)
    (query : V) (k : Nat) :
    ∃ ep found hits, store.approach dot query entry = some ep ∧
      Finds dot store query (max store.efSearch k) 0 ep found ∧
      (found.map Prod.snd).Pairwise (· ≥ ·) ∧ store.InLayer 0 ep ∧
      store.knn dot query k = some hits ∧ hits.map Prod.snd = (found.map Prod.snd).take k := by
  have isTop := sound.entry
  unfold EntryIsTop at isTop
  rw [isEntry] at isTop
  rcases isTop with ⟨top, isLevel, positive, -⟩
  have inLayer : ∀ l, l < top → store.InLayer l entry :=
    fun l below => inLayer_iff.mpr ⟨top, isLevel, below⟩
  have inLayers : ∀ l, l ∈ layersDown 1 top → store.InLayer l entry :=
    fun l member => inLayer l (mem_layersDown.mp member).2
  rcases descend_ends dot query sound.linked.closed (fun _ _ _ _ => trivial) 0
    (pairwise_layersDown 1 top) (fun l _ => Nat.zero_le l) inLayers
      (inLayer 0 positive) trivial with
    ⟨ep, walked, isBottom, -⟩
  have approached : store.approach dot query entry = some ep := by
    unfold levels at isLevel
    rw [List.getElem?_map] at isLevel
    rcases Option.map_eq_some_iff.mp isLevel with ⟨node, isNode, rfl⟩
    unfold approach
    rw [isNode, Option.bind_some]
    exact walked
  rcases searchLayer_finds dot query (sound.linked.closed 0) isBottom (max store.efSearch k) with
    ⟨found, ran, finds, sorted⟩
  have mapped :
      (found.take k).mapM (fun hit => store.nodes[hit.1]?.map fun node => (node.id, hit.2)) ≠
      none := by
    apply Pointwise.mapM_ne_none
    intro hit member
    have inside := ((sound.linked.closed 0).reach isBottom
      (finds.hits hit (List.mem_of_mem_take member)).1).lt
    rw [List.getElem?_eq_getElem inside]
    exact ⟨_, rfl⟩
  rcases Option.ne_none_iff_exists'.mp mapped with ⟨hits, mapped⟩
  refine ⟨ep, found, hits, approached, finds, sorted, isBottom, ?_, ?_⟩
  · unfold HnswVectorStore.knn
    rw [isEntry]
    dsimp only
    rw [approached, Option.bind_eq_bind, Option.bind_some, ran,
      Option.bind_eq_bind, Option.bind_some]
    exact mapped
  · have each := (Pointwise.forall₂_of_mapM mapped).imp (S := fun hit result => hit.2 = result.2)
      fun hit result isResult => by
        rcases Option.map_eq_some_iff.mp isResult with ⟨node, -, rfl⟩
        rfl
    rw [← List.forall₂_map_right_iff, ← List.forall₂_map_left_iff,
      List.forall₂_eq_eq_eq] at each
    rw [← each, List.map_take]

theorem Sound.exists_knn (sound : store.Sound) (query : V) (k : Nat) :
    ∃ hits, store.knn dot query k = some hits := by
  cases isEntry : store.entry with
  | none =>
      unfold HnswVectorStore.knn
      rw [isEntry]
      exact ⟨[], rfl⟩
  | some entry =>
      rcases sound.knn_of_entry dot isEntry query k with
        ⟨ep, found, hits, -, -, -, -, answered, -⟩
      exact ⟨hits, answered⟩

/-- After a sequence of insertions: the invariant, and the vectors in their order. -/
theorem Sound.addAll (sound : store.Sound) (items : List ((String × V) × Nat)) :
    ∃ store', store.addAll dot items = some store' ∧ store'.Sound ∧
      store'.items = store.items ++ items.map Prod.fst ∧ store'.efSearch = store.efSearch := by
  let invariant := fun (rest : List ((String × V) × Nat)) (s : HnswVectorStore V) =>
    s.Sound ∧ s.items ++ rest.map Prod.fst = store.items ++ items.map Prod.fst ∧
      s.efSearch = store.efSearch
  have added : ∃ store', store.addAll dot items = some store' ∧ invariant [] store' := by
    apply exists_foldlM invariant
    · rintro s ⟨⟨id, vector⟩, layer⟩ rest ⟨isSound, same, efSearch⟩
      rcases isSound.add dot id vector layer with ⟨s', ran, isSound', items', efSearch'⟩
      refine ⟨s', ran, isSound', ?_, efSearch'.trans efSearch⟩
      rw [items', List.append_assoc]
      exact same
    · exact ⟨sound, rfl, rfl⟩
  rcases added with ⟨store', ran, isSound, same, efSearch⟩
  rw [List.map_nil, List.append_nil] at same
  exact ⟨store', ran, isSound, same, efSearch⟩

end Add

/-- After any insertions with any layers: the nodes are the inserted vectors in their order, links
lead to other nodes of their layer, each once, no list is too long, and the entry is a node of
maximal level.  No insertion and no question panics or runs forever. -/
theorem hnsw_keeps_invariant [LinearOrder S] (dot : V → V → S) (m efConstruction efSearch : Nat)
    (items : List ((String × V) × Nat)) :
    ∃ store, (new m efConstruction efSearch).addAll dot items = some store ∧ store.Sound ∧
      store.items = items.map Prod.fst ∧
      ∀ query k, ∃ hits, store.knn dot query k = some hits := by
  rcases (new_sound m efConstruction efSearch).addAll dot items with ⟨store, ran, sound, all, -⟩
  exact ⟨store, ran, sound, all, fun query k => sound.exists_knn dot query k⟩

end HnswVectorStore

end Correlate
end Sigil
