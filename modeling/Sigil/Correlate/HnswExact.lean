import Sigil.Correlate.HnswGraph
import Sigil.Correlate.VectorStore
import Sigil.Library.Ranking

namespace Sigil
namespace Correlate

/-!
# When the HNSW store is exact

A search with room for all nodes finds what links of the bottom layer lead to.  Pruning takes
links away in one direction only, so a node may be there that nobody links to.  The store answers
like the exact one as long as every such node is outranked by enough others.
-/

open Sigil.Core Library

variable {V S : Type} [LinearOrder S]

namespace HnswVectorStore

/-- The exact store with the same vectors. -/
def flat (items : List ((String × V) × Nat)) : FlatVectorStore V :=
  items.foldl (fun store item => store.add item.1.1 item.1.2) .new

theorem flat_items (items : List ((String × V) × Nat)) :
    (flat items).items = items.map Prod.fst := by
  have fold : ∀ store : FlatVectorStore V,
      (items.foldl (fun store item => store.add item.1.1 item.1.2) store).items =
        store.items ++ items.map Prod.fst := by
    induction items with
    | nil => exact fun store => (List.append_nil _).symm
    | cons item items inductionHypothesis =>
        intro store
        rw [List.foldl_cons, inductionHypothesis, FlatVectorStore.add, List.append_assoc]
        rfl
  exact fold .new

/-- The similarities of all stored vectors, in the order of insertion. -/
def similarities (dot : V → V → S) (store : HnswVectorStore V) (query : V) : List S :=
  store.items.map fun item => dot query item.2

/-- `k` nodes that links of the bottom layer lead to from `ep` are at least as similar. -/
def Outranked (dot : V → V → S) (store : HnswVectorStore V) (query : V)
    (k ep node : Nat) : Prop :=
  ∃ others : List Nat, others.Nodup ∧ others.length = k ∧ ∀ other, other ∈ others →
    store.Reach 0 ep other ∧ ∃ x, store.similarity dot query node = some x ∧
      ∃ y, store.similarity dot query other = some y ∧ x ≤ y

variable {dot : V → V → S} {store : HnswVectorStore V} {query : V}

omit [LinearOrder S] in
theorem similarities_getElem? (node : Nat) :
    (similarities dot store query)[node]? = store.similarity dot query node := by
  unfold similarities items similarity vectorOf
  rw [List.map_map, List.getElem?_map, Option.map_map]
  rfl

theorem flat_knn (items : List ((String × V) × Nat)) (query : V) (k : Nat) :
    ((flat items).knn dot query k).map Prod.snd =
      ((items.map fun item => dot query item.1.2).insertionSort (· ≥ ·)).take k := by
  unfold FlatVectorStore.knn
  rw [flat_items, List.map_take,
    List.map_insertionSort (fun a b : String × S => b.2 ≤ a.2) (· ≥ ·)
    Prod.snd _ fun _ _ _ _ => Iff.rfl, List.map_map, List.map_map]
  rfl

omit [LinearOrder S] in
theorem filterMap_range (list : List S) :
    (List.range list.length).filterMap (fun n => list[n]?) = list := by
  induction list using List.reverseRecOn with
  | nil => rfl
  | append_singleton list x inductionHypothesis =>
      have before : ∀ n, n ∈ List.range list.length → (list ++ [x])[n]? = list[n]? :=
        fun n member => List.getElem?_append_left (List.mem_range.mp member)
      rw [List.length_append, List.length_singleton, List.range_succ, List.filterMap_append,
        List.filterMap_congr before, inductionHypothesis, List.filterMap_cons,
        List.getElem?_concat_length, List.filterMap_nil]

omit [LinearOrder S] in
/-- The hits as similarities of their nodes. -/
theorem Finds.filterMap {ef layer ep : Nat} {found : List (Nat × S)}
    (finds : Finds dot store query ef layer ep found) :
    (found.map Prod.fst).filterMap (store.similarity dot query) = found.map Prod.snd := by
  have each :
      ∀ hit, hit ∈ found → (store.similarity dot query ∘ Prod.fst) hit = some hit.2 :=
    fun hit member => (finds.hits hit member).2
  rw [List.filterMap_map, List.filterMap_congr each]
  exact congrFun (List.filterMap_eq_map (f := Prod.snd)) found

/-- A node is outranked if and only if enough hits are at least as similar. -/
theorem Finds.outranked_iff {ef ep : Nat} {found : List (Nat × S)}
    (finds : Finds dot store query ef 0 ep found) (small : store.nodes.length ≤ ef)
    {node : Nat} {x : S} (sim : store.similarity dot query node = some x) (k : Nat) :
    k ≤ reaching x (found.map Prod.snd) ↔ Outranked dot store query k ep node := by
  let better := (found.filter fun hit => x ≤ hit.2).map Prod.fst
  have length : better.length = reaching x (found.map Prod.snd) := by
    unfold reaching
    rw [List.countP_map, List.countP_eq_length_filter, List.length_map]
    rfl
  have nodup : better.Nodup := (List.filter_sublist.map Prod.fst).nodup finds.nodup
  constructor
  · intro enough
    refine ⟨better.take k, nodup.sublist (List.take_sublist k better), ?_,
      fun other member => ?_⟩
    · exact List.length_take_of_le (length.symm ▸ enough)
    · rcases List.mem_map.mp (List.mem_of_mem_take member) with ⟨hit, isBetter, rfl⟩
      rcases List.mem_filter.mp isBetter with ⟨isHit, above⟩
      rcases finds.hits hit isHit with ⟨reach, hitSim⟩
      exact ⟨reach, x, sim, hit.2, hitSim, of_decide_eq_true above⟩
  · rintro ⟨others, distinct, rfl, each⟩
    rw [← length]
    apply (List.subperm_of_subset distinct fun other member => ?_).length_le
    rcases each other member with ⟨reach, x', sim', y, otherSim, le⟩
    cases Option.some.inj (sim.symm.trans sim')
    rcases List.mem_map.mp (finds.complete small other reach) with ⟨hit, isHit, rfl⟩
    cases Option.some.inj (otherSim.symm.trans (finds.hits hit isHit).2)
    exact List.mem_map_of_mem (List.mem_filter.mpr ⟨isHit, decide_eq_true le⟩)

/-- The `k` best hits are the `k` best of all if and only if every node that no links lead to is
outranked. -/
theorem Finds.take_eq_iff {ef ep : Nat} {found : List (Nat × S)}
    (finds : Finds dot store query ef 0 ep found) (small : store.nodes.length ≤ ef)
    (inside : ∀ n, store.Reach 0 ep n → n < store.nodes.length)
    (sorted : (found.map Prod.snd).Pairwise (· ≥ ·)) (k : Nat) :
    (found.map Prod.snd).take k =
      ((similarities dot store query).insertionSort (· ≥ ·)).take k ↔
      ∀ n, n < store.nodes.length → ¬ store.Reach 0 ep n →
        Outranked dot store query k ep n := by
  classical
  let missing := (List.range store.nodes.length).filter fun n => ¬ store.Reach 0 ep n
  have disjoint : (found.map Prod.fst ++ missing).Nodup := by
    refine List.nodup_append.mpr ⟨finds.nodup, List.nodup_range.filter _, ?_⟩
    rintro n isHit m isMissing rfl
    rcases List.mem_map.mp isHit with ⟨hit, member, rfl⟩
    exact of_decide_eq_true (List.mem_filter.mp isMissing).2 (finds.hits hit member).1
  have nodes : (List.range store.nodes.length).Perm (found.map Prod.fst ++ missing) := by
    refine (List.perm_ext_iff_of_nodup List.nodup_range disjoint).mpr fun n => ?_
    rw [List.mem_append, List.mem_filter, decide_eq_true_eq]
    constructor
    · intro member
      by_cases reach : store.Reach 0 ep n
      · exact Or.inl (finds.complete small n reach)
      · exact Or.inr ⟨member, reach⟩
    · rintro (isHit | ⟨member, -⟩)
      · rcases List.mem_map.mp isHit with ⟨hit, member, rfl⟩
        exact List.mem_range.mpr (inside hit.1 (finds.hits hit member).1)
      · exact member
  have length : (similarities dot store query).length = store.nodes.length := by
    unfold similarities items
    rw [List.length_map, List.length_map]
  have perm : (similarities dot store query).Perm
      (found.map Prod.snd ++ missing.filterMap (store.similarity dot query)) := by
    have mapped := nodes.filterMap (store.similarity dot query)
    have all := filterMap_range (similarities dot store query)
    simp only [similarities_getElem?, length] at all
    rwa [List.filterMap_append, finds.filterMap, all] at mapped
  rw [take_eq_take_iff sorted (List.pairwise_insertionSort (· ≥ ·) _)
    ((List.perm_insertionSort (· ≥ ·) _).trans perm) k]
  constructor
  · intro outranked n within noReach
    rcases exists_similarity dot query within with ⟨x, sim⟩
    apply (finds.outranked_iff small sim k).mp
    apply outranked
    refine List.mem_filterMap.mpr ⟨n,
      List.mem_filter.mpr ⟨List.mem_range.mpr within, ?_⟩, sim⟩
    exact decide_eq_true noReach
  · intro outranked x member
    rcases List.mem_filterMap.mp member with ⟨n, isMissing, sim⟩
    rcases List.mem_filter.mp isMissing with ⟨within, noReach⟩
    apply (finds.outranked_iff small sim k).mpr
    exact outranked n (List.mem_range.mp within) (of_decide_eq_true noReach)

/-- A store that is no larger than the width of the search answers with the same similarities as
the exact one if and only if the nodes which no links of the bottom layer lead to, from where the
walks through the upper layers end, are outranked by those which they lead to. -/
theorem hnsw_exact_iff (dot : V → V → S) (m efConstruction efSearch : Nat)
    (items : List ((String × V) × Nat)) (query : V) (k : Nat)
    (small : items.length ≤ max (max efSearch 1) k) :
    ∃ store, (new m efConstruction efSearch).addAll dot items = some store ∧
      ((store.knn dot query k).map (List.map Prod.snd) =
          some (((flat items).knn dot query k).map Prod.snd) ↔
        ∀ entry ep, store.entry = some entry → store.approach dot query entry = some ep →
          ∀ n, n < items.length → ¬ store.Reach 0 ep n →
            Outranked dot store query k ep n) := by
  rcases (new_sound m efConstruction efSearch).addAll dot items with
    ⟨store, ran, sound, all, efSearch'⟩
  have isItems : store.items = items.map Prod.fst := all
  have length : store.nodes.length = items.length := by
    have same := congrArg List.length isItems
    unfold HnswVectorStore.items at same
    rwa [List.length_map, List.length_map] at same
  refine ⟨store, ran, ?_⟩
  rw [flat_knn]
  cases isEntry : store.entry with
  | none =>
      have isTop := sound.entry
      unfold EntryIsTop at isTop
      rw [isEntry] at isTop
      have empty : store.nodes = [] := isTop
      have none_ : items = [] := List.length_eq_zero_iff.mp (length.symm.trans (empty ▸ rfl))
      refine iff_of_true ?_ fun _ _ impossible => nomatch impossible
      unfold knn
      rw [isEntry, none_, List.map_nil, List.insertionSort_nil, List.take_nil]
      rfl
  | some entry =>
      rcases sound.knn_of_entry dot isEntry query k with
        ⟨ep, found, hits, approached, finds, sorted, inLayer, answered, taken⟩
      have room : store.nodes.length ≤ max store.efSearch k := by
        rw [length, efSearch']
        exact small
      have inside : ∀ n, store.Reach 0 ep n → n < store.nodes.length :=
        fun n reach => ((sound.linked.closed 0).reach inLayer reach).lt
      have all : similarities dot store query = items.map fun item => dot query item.1.2 := by
        unfold similarities
        rw [isItems, List.map_map]
        rfl
      rw [answered, Option.map_some, Option.some.injEq, taken, ← all,
        finds.take_eq_iff room inside sorted k, length]
      constructor
      · intro outranked entry' ep' same approached'
        cases Option.some.inj same
        cases Option.some.inj (approached.symm.trans approached')
        exact outranked
      · exact fun outranked => outranked entry ep rfl approached

/-! ## Equal vectors -/

/-- Vectors of one dimension: two equal ones and their opposite. -/
def threeVectors : List ((String × Int) × Nat) :=
  [(("e0", 1), 1), (("e1", 1), 0), (("e2", -1), 0)]

theorem hnsw_exact_iff_three :
    ∃ store, (new 2 100 64).addAll (fun a b : Int => a * b) threeVectors = some store ∧
      ((store.knn (fun a b : Int => a * b) 1 3).map (List.map Prod.snd) =
          some (((flat threeVectors).knn (fun a b : Int => a * b) 1 3).map Prod.snd) ↔
        ∀ entry ep, store.entry = some entry →
          store.approach (fun a b : Int => a * b) 1 entry = some ep →
          ∀ n, n < 3 → ¬ store.Reach 0 ep n →
            Outranked (fun a b : Int => a * b) store 1 3 ep n) :=
  hnsw_exact_iff (fun a b : Int => a * b) 2 100 64 threeVectors 1 3 (by decide)

/-- Six equal vectors, with the layers that their numbers get where `m` is two. -/
def sixVectors : List ((String × Int) × Nat) :=
  [(("e0", 1), 1), (("e1", 1), 0), (("e2", 1), 0), (("e3", 1), 0), (("e4", 1), 1), (("e5", 1), 1)]

/-- Every list that the last one is added to is pruned back at once.  Nobody links to it, and the
answer is one vector short. -/
theorem sixVectors_loses_one :
    ¬ ∀ store, (new 2 100 64).addAll (fun a b : Int => a * b) sixVectors = some store →
      (store.knn (fun a b : Int => a * b) 1 6).map (List.map Prod.snd) =
        some (((flat sixVectors).knn (fun a b : Int => a * b) 1 6).map Prod.snd) := by
  intro isExact
  have answer : (((new 2 100 64).addAll (fun a b : Int => a * b) sixVectors).bind fun store =>
      store.knn (fun a b : Int => a * b) 1 6).map (List.map Prod.snd) = some [1, 1, 1, 1, 1] := by
    decide +kernel
  rcases Option.map_eq_some_iff.mp answer with ⟨hits, found, isShort⟩
  rcases Option.bind_eq_some_iff.mp found with ⟨store, built, answered⟩
  have same := isExact store built
  rw [answered, Option.map_some, isShort] at same
  revert same
  decide

end HnswVectorStore

end Correlate
end Sigil
