import Mathlib.Data.List.Count
import Mathlib.Logic.Relation
import Sigil.Correlate.Hnsw

namespace Sigil
namespace Correlate

/-!
# Searching the layers of the HNSW store

On a layer whose links lead to nodes of the layer both searches end without a panic.  The greedy
walk ends because the similarity rises, the search because it expands no node twice.  A search
whose result set never becomes full finds exactly the nodes that can be reached.
-/

open Sigil.Core Library

variable {V S : Type}

/-! ## Layers as graphs -/

namespace HnswVectorStore

/-- The node has a list of links at the layer. -/
def InLayer (store : HnswVectorStore V) (layer node : Nat) : Prop :=
  ∃ list, store.links node layer = some list

def Edge (store : HnswVectorStore V) (layer i j : Nat) : Prop :=
  ∃ list, store.links i layer = some list ∧ j ∈ list

/-- Links of the layer lead to nodes of the layer. -/
def ClosedLayer (store : HnswVectorStore V) (layer : Nat) : Prop :=
  ∀ i j, store.Edge layer i j → store.InLayer layer j

abbrev Reach (store : HnswVectorStore V) (layer : Nat) : Nat → Nat → Prop :=
  Relation.ReflTransGen (store.Edge layer)

variable {dot : V → V → S} {store : HnswVectorStore V} {query : V} {layer : Nat}

theorem links_eq_some {node : Nat} {list : List Nat} : store.links node layer = some list ↔
    ∃ n, store.nodes[node]? = some n ∧ n.neighbors[layer]? = some list :=
  Option.bind_eq_some_iff

theorem InLayer.lt {node : Nat} (inLayer : store.InLayer layer node) :
    node < store.nodes.length := by
  rcases inLayer with ⟨list, found⟩
  rcases links_eq_some.mp found with ⟨n, isNode, -⟩
  exact (List.getElem?_eq_some_iff.mp isNode).1

/-- A node of a layer is a node of every lower layer. -/
theorem InLayer.lower {node lower : Nat} (inLayer : store.InLayer layer node)
    (below : lower ≤ layer) :
    store.InLayer lower node := by
  rcases inLayer with ⟨list, found⟩
  rcases links_eq_some.mp found with ⟨n, isNode, inNode⟩
  have inside := below.trans_lt (List.getElem?_eq_some_iff.mp inNode).1
  exact ⟨_, links_eq_some.mpr ⟨n, isNode, List.getElem?_eq_getElem inside⟩⟩

theorem similarity_eq_some {node : Nat} {sim : S} : store.similarity dot query node = some sim ↔
    ∃ n, store.nodes[node]? = some n ∧ dot query n.vector = sim := by
  unfold similarity vectorOf
  rw [Option.map_map, Option.map_eq_some_iff]
  rfl

theorem exists_similarity (dot : V → V → S) (query : V) {node : Nat}
    (inside : node < store.nodes.length) :
    ∃ sim, store.similarity dot query node = some sim :=
  ⟨_, similarity_eq_some.mpr ⟨_, List.getElem?_eq_getElem inside, rfl⟩⟩

theorem ClosedLayer.reach (closed : store.ClosedLayer layer) {i j : Nat}
    (inLayer : store.InLayer layer i) (reach : store.Reach layer i j) : store.InLayer layer j := by
  cases reach with
  | refl => exact inLayer
  | tail _ edge => exact closed _ _ edge

/-! ## The greedy walk -/

section Greedy

variable [LinearOrder S]

/-- The walker has come over links of the layer and knows its similarity. -/
structure Walker.Good (dot : V → V → S) (store : HnswVectorStore V) (query : V) (layer ep : Nat)
    (walker : Walker S) : Prop where
  reach : store.Reach layer ep walker.ep
  sim : store.similarity dot query walker.ep = some walker.best

/-- How many nodes are more similar. -/
def Walker.above (dot : V → V → S) (store : HnswVectorStore V) (query : V)
    (walker : Walker S) : Nat :=
  store.nodes.countP fun n => walker.best < dot query n.vector

theorem countP_lt_countP {α : Type} {p q : α → Prop} [DecidablePred p]
    [DecidablePred q] {list : List α} (implies : ∀ x, p x → q x) {x : α} (member : x ∈ list)
    (inQ : q x) (notInP : ¬ p x) :
    list.countP (fun x => p x) < list.countP fun x => q x := by
  have split : list.countP (fun x => p x) = (list.filter fun x => q x).countP fun x => p x := by
    rw [List.countP_filter]
    apply List.countP_congr
    intro y _
    simp only [decide_eq_true_eq, Bool.and_eq_true]
    exact ⟨fun inP => ⟨inP, implies y inP⟩, And.left⟩
  rw [split, List.countP_eq_length_filter (p := fun x => decide (q x))]
  apply List.countP_lt_length_iff.mpr
  exact ⟨x, List.mem_filter.mpr ⟨member, decide_eq_true inQ⟩, decide_eq_false notInP⟩

theorem Walker.Good.above_lt {ep : Nat} {walker next : Walker S}
    (good : next.Good dot store query layer ep) (better : walker.best < next.best) :
    next.above dot store query < walker.above dot store query := by
  rcases similarity_eq_some.mp good.sim with ⟨n, isNode, sim⟩
  apply countP_lt_countP (fun _ => better.trans) (List.mem_of_getElem? isNode)
  · exact sim.symm ▸ better
  · exact sim.symm ▸ lt_irrefl _

/-- One round ends at the same node or at one that is more similar. -/
theorem Walker.Good.round (closed : store.ClosedLayer layer) {ep : Nat}
    (inLayer : store.InLayer layer ep) {walker : Walker S}
    (good : walker.Good dot store query layer ep) :
    ∃ next, walker.round dot store query layer = some (next, !next.improved) ∧
      next.Good dot store query layer ep ∧
      (next.improved = true → walker.best < next.best) := by
  rcases closed.reach inLayer good.reach with ⟨list, isList⟩
  let invariant := fun (rest : List Nat) (next : Walker S) =>
    (∀ n, n ∈ rest → store.Edge layer walker.ep n) ∧ next.Good dot store query layer ep ∧
      walker.best ≤ next.best ∧ (next.improved = true → walker.best < next.best)
  have folded :
      ∃ next, list.foldlM (Walker.look dot store query) { walker with improved := false } =
        some next ∧ invariant [] next := by
    apply exists_foldlM invariant
    · rintro next n rest ⟨left, isGood, le, lt⟩
      have edge := left n List.mem_cons_self
      have others := fun n member => left n (List.mem_cons_of_mem _ member)
      rcases exists_similarity dot query (closed _ _ edge).lt with ⟨s, found⟩
      unfold Walker.look
      rw [found, Option.map_some]
      split
      · next better =>
          refine ⟨_, rfl, others, ⟨good.reach.tail edge, found⟩, ?_, fun _ => ?_⟩
          · exact le.trans better.le
          · exact le.trans_lt better
      · exact ⟨_, rfl, others, isGood, le, lt⟩
    · refine ⟨fun n member => ⟨list, isList, member⟩,
        ⟨good.reach, good.sim⟩, le_refl _, ?_⟩
      exact fun impossible => nomatch impossible
  rcases folded with ⟨next, folded, -, isGood, -, lt⟩
  refine ⟨next, ?_, isGood, lt⟩
  unfold Walker.round
  simp only [isList, folded, Option.bind_eq_bind, Option.bind_some]
  rfl

/-- The greedy walk ends at a node that can be reached. -/
theorem greedyStep_ends (dot : V → V → S) (query : V)
    (closed : store.ClosedLayer layer) {ep : Nat} (inLayer : store.InLayer layer ep) :
    ∃ last, store.greedyStep dot query ep layer = some last ∧ store.Reach layer ep last := by
  rcases exists_similarity dot query inLayer.lt with ⟨best, sim⟩
  have ended : ∃ last, runUntil (Walker.round dot store query layer) (store.nodes.length + 1)
      { ep := ep, best := best, improved := false } = some last ∧
        last.Good dot store query layer ep := by
    apply runUntil_rule (Walker.Good dot store query layer ep) _ (Walker.above dot store query)
    · intro walker good
      rcases good.round closed inLayer with ⟨next, ran, isGood, better⟩
      refine ⟨next, _, ran, fun _ => isGood, fun goesOn => ⟨isGood, ?_⟩⟩
      rw [Bool.not_eq_false'] at goesOn
      exact isGood.above_lt (better goesOn)
    · exact Nat.lt_succ_of_le List.countP_le_length
    · exact ⟨.refl, sim⟩
  rcases ended with ⟨last, ran, isGood⟩
  refine ⟨last.ep, ?_, isGood.reach⟩
  unfold greedyStep
  simp only [sim, ran, Option.bind_eq_bind, Option.bind_some]
  rfl

/-- The greedy walks down the layers end at a node of the lowest of them. -/
theorem descend_ends (dot : V → V → S) (query : V) (closed : ∀ layer, store.ClosedLayer layer)
    {Good : Nat → Prop} (keep : ∀ layer i j, store.Edge layer i j → Good j)
    (low : Nat) {layers : List Nat} (down : layers.Pairwise (· > ·))
    (above : ∀ layer, layer ∈ layers → low ≤ layer) {ep : Nat} (inLayers : ∀ layer,
      layer ∈ layers → store.InLayer layer ep) (inLow : store.InLayer low ep)
    (good : Good ep) :
    ∃ last, store.descend dot query ep layers = some last ∧
      store.InLayer low last ∧ Good last := by
  let invariant := fun (rest : List Nat) (ep : Nat) =>
    rest.Pairwise (· > ·) ∧
      (∀ layer, layer ∈ rest → low ≤ layer ∧ store.InLayer layer ep) ∧
      store.InLayer low ep ∧ Good ep
  have ended : ∃ last, store.descend dot query ep layers = some last ∧ invariant [] last := by
    apply exists_foldlM invariant
    · rintro ep layer rest ⟨down, left, inLow, good⟩
      rcases left layer List.mem_cons_self with ⟨isAbove, inLayer⟩
      rcases greedyStep_ends dot query (closed layer) inLayer with ⟨last, walked, reach⟩
      have stays := (closed layer).reach inLayer reach
      refine ⟨last, walked, (List.pairwise_cons.mp down).2, fun lower member => ?_, ?_, ?_⟩
      · refine ⟨(left lower (List.mem_cons_of_mem _ member)).1, stays.lower ?_⟩
        exact ((List.pairwise_cons.mp down).1 lower member).le
      · exact stays.lower isAbove
      · cases reach with
        | refl => exact good
        | tail _ edge => exact keep _ _ _ edge
    · exact ⟨down,
        fun layer member => ⟨above layer member, inLayers layer member⟩, inLow, good⟩
  rcases ended with ⟨last, walked, -, -, isLow, isGood⟩
  exact ⟨last, walked, isLow, isGood⟩

end Greedy

/-! ## The search of a layer -/

theorem swapRemove_perm {α : Type} {list : List α} {pos : Nat} {x : α}
    (found : list[pos]? = some x) : (x :: swapRemove list pos).Perm list := by
  rcases List.getElem?_eq_some_iff.mp found with ⟨inside, isX⟩
  have parts : list = list.take pos ++ x :: list.drop (pos + 1) := by
    rw [← isX, List.cons_getElem_drop_succ, List.take_append_drop]
  have length : (list.take pos).length = pos := List.length_take_of_le inside.le
  generalize list.take pos = before at parts length
  generalize list.drop (pos + 1) = after at parts
  subst parts length
  rcases List.eq_nil_or_concat' after with rfl | ⟨after, last, rfl⟩
  · unfold swapRemove
    rw [List.getLast?_append_cons, List.getLast?_singleton]
    simp only [List.set_append_right, Nat.sub_self, Nat.le_refl, List.set_cons_zero,
      List.dropLast_concat]
    exact (List.perm_append_singleton x before).symm
  · unfold swapRemove
    rw [← List.cons_append, ← List.append_assoc, List.getLast?_concat]
    simp only [List.append_assoc, List.cons_append, List.set_append_right,
      Nat.sub_self, Nat.le_refl, List.set_cons_zero]
    rw [← List.cons_append, ← List.append_assoc, List.dropLast_concat]
    refine List.perm_middle.symm.trans (List.Perm.append_left before (List.Perm.cons x ?_))
    exact (List.perm_append_singleton last after).symm

/-! ## What a search has seen -/

theorem getElem?_set_true {visited : List Bool} {n : Nat} (inside : n < visited.length) (i : Nat) :
    (visited.set n true)[i]? = some true ↔ i = n ∨ visited[i]? = some true := by
  rw [List.getElem?_set]
  split
  · next equal =>
      subst equal
      simp [inside]
  · next different => exact ⟨Or.inr, fun either => either.resolve_left (Ne.symm different)⟩

theorem count_set_true {visited : List Bool} {n : Nat} (unseen : visited[n]? = some false) :
    (visited.set n true).count false + 1 = visited.count false := by
  rcases List.getElem?_eq_some_iff.mp unseen with ⟨inside, isFalse⟩
  have positive : 0 < visited.count false :=
    List.count_pos_iff.mpr (isFalse ▸ List.getElem_mem inside)
  rw [List.count_set inside, isFalse]
  simp
  omega

def Frontier.Seen (state : Frontier S) (n : Nat) : Prop :=
  state.visited[n]? = some true

/-- What a search from `ep` keeps.  With room for all nodes it keeps whatever it sees, and the
links that have not been followed are those of candidates, and the ones that are left. -/
structure Frontier.Good (dot : V → V → S) (store : HnswVectorStore V)
    (query : V) (ef layer ep : Nat) (left : Nat → Nat → Prop) (state : Frontier S) : Prop where
  length : state.visited.length = store.nodes.length
  nonempty : state.results ≠ []
  start : state.Seen ep
  reach : ∀ n, state.Seen n → store.Reach layer ep n
  candidates : ∀ c, c ∈ state.candidates → state.Seen c.1
  results : ∀ hit, hit ∈ state.results →
    state.Seen hit.1 ∧ store.similarity dot query hit.1 = some hit.2
  nodup : (state.results.map Prod.fst).Nodup
  full : store.nodes.length ≤ ef → ∀ n, state.Seen n → n ∈ state.results.map Prod.fst
  closed : store.nodes.length ≤ ef → ∀ i, state.Seen i →
    i ∈ state.candidates.map Prod.fst ∨
    ∀ j, store.Edge layer i j → state.Seen j ∨ left i j

/-- What is left to do: candidates to expand and nodes to see. -/
def Frontier.work (state : Frontier S) : Nat :=
  state.candidates.length + state.visited.count false

variable {ef ep : Nat} {left : Nat → Nat → Prop} {state : Frontier S}

theorem Frontier.Good.weaken (good : state.Good dot store query ef layer ep left)
    {left' : Nat → Nat → Prop} (fewer : ∀ i j, left i j → state.Seen j ∨ left' i j) :
    state.Good dot store query ef layer ep left' := by
  refine { good with closed := fun small i seen => ?_ }
  rcases good.closed small i seen with isCandidate | followed
  · exact Or.inl isCandidate
  · refine Or.inr fun j edge => ?_
    rcases followed j edge with seen | remains
    · exact Or.inl seen
    · exact fewer i j remains

theorem Frontier.Good.lt (good : state.Good dot store query ef layer ep left) {n : Nat}
    (seen : state.Seen n) : n < store.nodes.length :=
  good.length ▸ (List.getElem?_eq_some_iff.mp seen).1

/-- The result set holds at most the nodes that have been seen. -/
theorem Frontier.Good.results_lt (good : state.Good dot store query ef layer ep left) {n : Nat}
    (inside : n < store.nodes.length) (fresh : ¬ state.Seen n) :
    state.results.length < store.nodes.length := by
  have nodup : (n :: state.results.map Prod.fst).Nodup := by
    refine List.nodup_cons.mpr ⟨fun member => ?_, good.nodup⟩
    rcases List.mem_map.mp member with ⟨hit, isHit, rfl⟩
    exact fresh (good.results hit isHit).1
  have inRange : n :: state.results.map Prod.fst ⊆ List.range store.nodes.length := by
    intro k member
    rcases List.mem_cons.mp member with rfl | isHit
    · exact List.mem_range.mpr inside
    · rcases List.mem_map.mp isHit with ⟨hit, inResults, rfl⟩
      exact List.mem_range.mpr (good.lt (good.results hit inResults).1)
  have bound := (List.subperm_of_subset nodup inRange).length_le
  rwa [List.length_cons, List.length_map, List.length_range] at bound

/-- A node that can be reached has been seen; with room for all nodes it becomes a candidate and a
hit. -/
theorem Frontier.Good.see (good : state.Good dot store query ef layer ep left) {n : Nat}
    (unseen : state.visited[n]? = some false) (reach : store.Reach layer ep n) {sim : S}
    (hasSim : store.similarity dot query n = some sim) {candidates results : List (Nat × S)}
    (candidate : ∀ c, c ∈ candidates → c ∈ state.candidates ∨ c.1 = n)
    (someHit : results ≠ []) (subperm : results.Subperm (state.results ++ [(n, sim)]))
    (room : store.nodes.length ≤ ef →
      candidates = state.candidates ++ [(n, sim)] ∧ results = state.results ++ [(n, sim)]) :
    Frontier.Good dot store query ef layer ep left
      { visited := state.visited.set n true, candidates := candidates, results := results } := by
  have seen : ∀ i, (state.visited.set n true)[i]? = some true ↔ i = n ∨ state.Seen i :=
    getElem?_set_true (List.getElem?_eq_some_iff.mp unseen).1
  have here := (seen n).mpr (Or.inl rfl)
  have before : ∀ {i}, state.Seen i → (state.visited.set n true)[i]? = some true :=
    fun {i} isSeen => (seen i).mpr (Or.inr isSeen)
  refine ⟨List.length_set.trans good.length, someHit, before good.start, fun i isSeen => ?_,
    fun c member => ?_, fun hit member => ?_, ?_, fun small i isSeen => ?_,
    fun small i isSeen => ?_⟩
  · rcases (seen i).mp isSeen with rfl | isSeen
    · exact reach
    · exact good.reach i isSeen
  · rcases candidate c member with old | rfl
    · exact before (good.candidates c old)
    · exact here
  · rcases List.mem_append.mp (subperm.subset member) with old | new
    · exact ⟨before (good.results hit old).1, (good.results hit old).2⟩
    · rw [List.mem_singleton.mp new]
      exact ⟨here, hasSim⟩
  · rcases subperm with ⟨list, perm, sublist⟩
    rw [← (perm.map Prod.fst).nodup_iff]
    refine (sublist.map Prod.fst).nodup ?_
    rw [List.map_append, List.map_singleton]
    refine List.nodup_append.mpr ⟨good.nodup, List.nodup_singleton n,
      fun i isHit j new same => ?_⟩
    rcases List.mem_map.mp isHit with ⟨hit, inResults, rfl⟩
    have isSeen := (good.results hit inResults).1
    rw [same, List.mem_singleton.mp new] at isSeen
    cases unseen.symm.trans isSeen
  · dsimp only
    rw [(room small).2, List.map_append, List.mem_append]
    rcases (seen i).mp isSeen with rfl | isSeen
    · exact Or.inr (List.mem_singleton_self i)
    · exact Or.inl (good.full small i isSeen)
  · dsimp only
    rw [(room small).1, List.map_append, List.mem_append]
    rcases (seen i).mp isSeen with rfl | isSeen
    · exact Or.inl (Or.inr (List.mem_singleton_self i))
    · rcases good.closed small i isSeen with isCandidate | followed
      · exact Or.inl (Or.inl isCandidate)
      · exact Or.inr fun j edge => (followed j edge).imp_left before

/-- What a search from `ep` finds: nodes that can be reached, each once, with their similarities;
with room for all nodes it finds all of them. -/
structure Finds (dot : V → V → S) (store : HnswVectorStore V) (query : V) (ef layer ep : Nat)
    (found : List (Nat × S)) : Prop where
  nonempty : found ≠ []
  hits : ∀ hit, hit ∈ found →
    store.Reach layer ep hit.1 ∧ store.similarity dot query hit.1 = some hit.2
  nodup : (found.map Prod.fst).Nodup
  complete : store.nodes.length ≤ ef →
    ∀ n, store.Reach layer ep n → n ∈ found.map Prod.fst

theorem Finds.perm {found found' : List (Nat × S)}
    (finds : Finds dot store query ef layer ep found) (same : found'.Perm found) :
    Finds dot store query ef layer ep found' where
  nonempty empty := finds.nonempty (List.nil_perm.mp (empty ▸ same))
  hits hit member := finds.hits hit (same.mem_iff.mp member)
  nodup := (same.map Prod.fst).nodup_iff.mpr finds.nodup
  complete small n reach := (same.map Prod.fst).mem_iff.mpr (finds.complete small n reach)

/-- The search is over when there are no more candidates. -/
theorem Frontier.Good.finds_of_empty
    (good : state.Good dot store query ef layer ep fun _ _ => False)
    (empty : state.candidates = []) : Finds dot store query ef layer ep state.results := by
  refine ⟨good.nonempty, fun hit member => ?_, good.nodup,
    fun small n reach => good.full small n ?_⟩
  · rcases good.results hit member with ⟨seen, sim⟩
    exact ⟨good.reach hit.1 seen, sim⟩
  · induction reach with
    | refl => exact good.start
    | @tail i j _ edge inductionHypothesis =>
        rcases good.closed small i inductionHypothesis with isCandidate | followed
        · rw [empty] at isCandidate
          exact absurd isCandidate List.not_mem_nil
        · exact (followed j edge).resolve_right id

/-- The search is over, too, when the result set is full; with room for all nodes it then holds
all of them. -/
theorem Frontier.Good.finds_of_full (closed : store.ClosedLayer layer)
    (inLayer : store.InLayer layer ep) (good : state.Good dot store query ef layer ep left)
    (fullSet : ef ≤ state.results.length) :
    Finds dot store query ef layer ep state.results := by
  refine ⟨good.nonempty, fun hit member => ?_, good.nodup, fun small n reach => ?_⟩
  · rcases good.results hit member with ⟨seen, sim⟩
    exact ⟨good.reach hit.1 seen, sim⟩
  · by_cases seen : state.Seen n
    · exact good.full small n seen
    · have room := good.results_lt (closed.reach inLayer reach).lt seen
      omega

theorem Frontier.start_good (inside : ep < store.nodes.length) {sim : S}
    (hasSim : store.similarity dot query ep = some sim) :
    ((Frontier.start store ep sim).Good dot store query ef layer ep fun _ _ => False) ∧
      (Frontier.start store ep sim).work < store.nodes.length + 1 := by
  have unseen : (List.replicate store.nodes.length false)[ep]? = some false := by
    rw [List.getElem?_replicate, if_pos inside]
  have seen : ∀ i, (Frontier.start store ep sim).Seen i ↔ i = ep := by
    intro i
    refine (getElem?_set_true (List.getElem?_eq_some_iff.mp unseen).1 i).trans (or_iff_left ?_)
    intro isTrue
    cases List.eq_of_mem_replicate (List.mem_of_getElem? isTrue)
  refine ⟨⟨?_, List.cons_ne_nil _ _, (seen ep).mpr rfl, ?_, ?_, ?_,
    List.nodup_singleton ep, ?_, ?_⟩, ?_⟩
  · exact List.length_set.trans List.length_replicate
  · intro n isSeen
    rw [(seen n).mp isSeen]
  · intro c member
    exact (seen c.1).mpr (congrArg Prod.fst (List.mem_singleton.mp member))
  · intro hit member
    rw [List.mem_singleton.mp member]
    exact ⟨(seen ep).mpr rfl, hasSim⟩
  · intro _ n isSeen
    exact List.mem_singleton.mpr ((seen n).mp isSeen)
  · intro _ i isSeen
    exact Or.inl (List.mem_singleton.mpr ((seen i).mp isSeen))
  · have count := count_set_true unseen
    rw [List.count_replicate_self] at count
    unfold Frontier.work Frontier.start
    dsimp only
    rw [List.length_singleton]
    omega

section Search

variable [LinearOrder S]

theorem dropWorst_perm {results : List (Nat × S)} (nonempty : results ≠ []) :
    ∃ kept, dropWorst results = some kept ∧ ∃ hit, (hit :: kept).Perm results := by
  unfold dropWorst
  cases least : minBy (fun r => r.1.2) results.zipIdx with
  | none =>
      have empty := minBy_eq_none.mp least
      rw [List.zipIdx_eq_nil_iff] at empty
      exact absurd empty nonempty
  | some r =>
      have found := List.mem_zipIdx_iff_getElem?.mp (minBy_spec least).1
      exact ⟨_, rfl, r.1, swapRemove_perm found⟩

theorem exists_pushHit {results : List (Nat × S)} (nonempty : results ≠ [])
    (hit : Nat × S) (ef : Nat) :
    ∃ kept, pushHit ef results hit = some kept ∧ kept ≠ [] ∧
      kept.Subperm (results ++ [hit]) ∧
      (results.length < ef → kept = results ++ [hit]) := by
  unfold pushHit
  split
  · next tooMany =>
      rcases dropWorst_perm (List.append_ne_nil_of_left_ne_nil nonempty [hit]) with
        ⟨kept, dropped, x, perm⟩
      have length := perm.length_eq
      have positive := List.length_pos_iff.mpr nonempty
      rw [List.length_cons, List.length_append, List.length_singleton] at length
      rw [List.length_append, List.length_singleton] at tooMany
      refine ⟨kept, dropped, ?_, (List.sublist_cons_self x kept).subperm.trans perm.subperm, ?_⟩
      · exact List.ne_nil_of_length_pos (by omega)
      · intro room
        omega
  · exact ⟨_, rfl, List.append_ne_nil_of_left_ne_nil nonempty [hit],
      List.Subperm.refl _, fun _ => rfl⟩

/-- Looking at a node of the layer that can be reached. -/
theorem Frontier.Good.visit (good : state.Good dot store query ef layer ep left) {n : Nat}
    (inside : n < store.nodes.length) (reach : store.Reach layer ep n) :
    ∃ next, state.visit dot store query ef n = some next ∧
      next.Good dot store query ef layer ep left ∧ next.Seen n ∧ next.work ≤ state.work := by
  have inTable : n < state.visited.length := good.length.symm ▸ inside
  cases seen : state.visited[n] with
  | true =>
      have isSeen : state.visited[n]? = some true := by rw [List.getElem?_eq_getElem inTable, seen]
      refine ⟨state, ?_, good, isSeen, Nat.le_refl _⟩
      unfold Frontier.visit
      rw [isSeen]
  | false =>
      have unseen : state.visited[n]? = some false := by rw [List.getElem?_eq_getElem inTable, seen]
      have fresh : ¬ state.Seen n := fun isSeen => nomatch unseen.symm.trans isSeen
      have nowSeen := (getElem?_set_true inTable n).mpr (Or.inl rfl)
      have count := count_set_true unseen
      rcases exists_similarity dot query inside with ⟨sim, hasSim⟩
      unfold Frontier.visit
      rw [unseen]
      simp only [hasSim, Option.bind_eq_bind, Option.bind_some]
      by_cases better : state.results.length < ef ∨ worst state.results < sim
      · rcases exists_pushHit good.nonempty (n, sim) ef with
          ⟨kept, isKept, someHit, subperm, all⟩
        rw [if_pos better, isKept, Option.bind_some]
        refine ⟨_, rfl,
          good.see unseen reach hasSim (fun c member => ?_) someHit subperm fun small => ?_,
          nowSeen, ?_⟩
        · exact (List.mem_append.mp member).imp_right fun new =>
            congrArg Prod.fst (List.mem_singleton.mp new)
        · exact ⟨rfl, all ((good.results_lt inside fresh).trans_le small)⟩
        · unfold Frontier.work
          dsimp only
          rw [List.length_append, List.length_singleton]
          omega
      · rw [if_neg better]
        refine ⟨_, rfl, good.see unseen reach hasSim (fun c member => Or.inl member) good.nonempty
          (List.sublist_append_left _ _).subperm fun small => ?_, nowSeen, ?_⟩
        · exact absurd (Or.inl ((good.results_lt inside fresh).trans_le small)) better
        · unfold Frontier.work
          dsimp only
          omega

theorem Frontier.Good.round (closed : store.ClosedLayer layer) (inLayer : store.InLayer layer ep)
    (good : state.Good dot store query ef layer ep fun _ _ => False) :
    ∃ next broken, state.round dot store query ef layer = some (next, broken) ∧
      (broken = true → Finds dot store query ef layer ep next.results) ∧
      (broken = false → (next.Good dot store query ef layer ep fun _ _ => False) ∧
        next.work < state.work) := by
  unfold Frontier.round
  cases chosen : maxBy (fun c => c.1.2) state.candidates.zipIdx with
  | none =>
      have empty := maxBy_eq_none.mp chosen
      rw [List.zipIdx_eq_nil_iff] at empty
      exact ⟨state, true, rfl, fun _ => good.finds_of_empty empty,
        fun impossible => nomatch impossible⟩
  | some best =>
      rcases best with ⟨⟨node, sim⟩, pos⟩
      have isCandidate := List.mk_mem_zipIdx_iff_getElem?.mp (maxBy_spec chosen).1
      have perm := swapRemove_perm isCandidate
      have seen := good.candidates (node, sim) (List.mem_of_getElem? isCandidate)
      rcases closed.reach inLayer (good.reach node seen) with ⟨list, isList⟩
      -- the links of the node that has been taken out have not been followed yet
      have popped :
          ({ state with candidates := swapRemove state.candidates pos } : Frontier S).Good dot
          store query ef layer ep fun i j => i = node ∧ j ∈ list := by
        refine { good with candidates := fun c member => ?_, closed := fun small i isSeen => ?_ }
        · exact good.candidates c (perm.subset (List.mem_cons_of_mem _ member))
        · rcases good.closed small i isSeen with open_ | followed
          · rcases List.mem_cons.mp ((perm.map Prod.fst).mem_iff.mpr open_) with rfl | remains
            · refine Or.inr fun j ⟨list', isList', member⟩ => Or.inr ⟨rfl, ?_⟩
              rwa [Option.some.inj (isList.symm.trans isList')]
            · exact Or.inl remains
          · exact Or.inr fun j edge => Or.inl ((followed j edge).resolve_right id)
      dsimp only
      split
      · next stop =>
          refine ⟨_, true, rfl, fun _ => ?_, fun impossible => nomatch impossible⟩
          exact popped.finds_of_full closed inLayer stop.1
      · let invariant := fun (rest : List Nat) (next : Frontier S) =>
          (∀ n, n ∈ rest → n ∈ list) ∧
            (next.Good dot store query ef layer ep fun i j => i = node ∧ j ∈ rest) ∧
            next.work < state.work
        have folded : ∃ next, list.foldlM (Frontier.visit dot store query ef)
            { state with candidates := swapRemove state.candidates pos } = some next ∧
              invariant [] next := by
          apply exists_foldlM invariant
          · rintro before n rest ⟨within, isGood, less⟩
            have edge : store.Edge layer node n := ⟨list, isList, within n List.mem_cons_self⟩
            rcases isGood.visit (closed node n edge).lt ((good.reach node seen).tail edge) with
              ⟨next, visited, nextGood, nowSeen, work⟩
            refine ⟨next, visited, fun k member => within k (List.mem_cons_of_mem _ member), ?_,
              work.trans_lt less⟩
            apply nextGood.weaken
            rintro i j ⟨rfl, member⟩
            rcases List.mem_cons.mp member with rfl | later
            · exact Or.inl nowSeen
            · exact Or.inr ⟨rfl, later⟩
          · refine ⟨fun n member => member, popped, ?_⟩
            have length := perm.length_eq
            unfold Frontier.work
            dsimp only
            rw [List.length_cons] at length
            omega
        rcases folded with ⟨next, folded, -, isGood, less⟩
        refine ⟨next, false, ?_, fun impossible => (nomatch impossible),
          fun _ => ⟨?_, less⟩⟩
        · simp only [isList, folded, Option.bind_eq_bind, Option.bind_some]
          rfl
        · exact isGood.weaken fun i j impossible => absurd impossible.2 List.not_mem_nil

/-- The search of a layer ends, and returns what it finds best first. -/
theorem searchLayer_finds (dot : V → V → S) (query : V) (closed : store.ClosedLayer layer)
    (inLayer : store.InLayer layer ep) (ef : Nat) :
    ∃ found, store.searchLayer dot query ep ef layer = some found ∧
      Finds dot store query ef layer ep found ∧ (found.map Prod.snd).Pairwise (· ≥ ·) := by
  rcases exists_similarity dot query inLayer.lt with ⟨sim, hasSim⟩
  have started := @Frontier.start_good V S dot store query layer ef ep inLayer.lt sim hasSim
  have ended : ∃ last, runUntil (Frontier.round dot store query ef layer) (store.nodes.length + 1)
      (Frontier.start store ep sim) = some last ∧
          Finds dot store query ef layer ep last.results := by
    apply runUntil_rule (Frontier.Good dot store query ef layer ep fun _ _ => False) _ Frontier.work
    · exact fun state good => good.round closed inLayer
    · exact started.2
    · exact started.1
  rcases ended with ⟨last, ran, finds⟩
  refine ⟨_, ?_, finds.perm (List.perm_insertionSort (fun a b => b.2 ≤ a.2) last.results), ?_⟩
  · unfold searchLayer
    simp only [hasSim, ran, Option.bind_eq_bind, Option.bind_some]
    rfl
  · rw [List.map_insertionSort (fun a b : Nat × S => b.2 ≤ a.2)
      (· ≥ ·) Prod.snd last.results
      fun _ _ _ _ => Iff.rfl]
    exact List.pairwise_insertionSort _ _

end Search

end HnswVectorStore

end Correlate
end Sigil
