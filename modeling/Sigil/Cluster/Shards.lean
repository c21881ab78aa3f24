import Mathlib.Data.List.Basic
import Sigil.Library.Circle

namespace Sigil
namespace Cluster

/-!
# Sharding and placement

A shard is a hash of the routing key and of the time bucket, and is placed on a primary node and
replicas, which follow it on the ring of the nodes.  The hasher of the standard library is a
parameter.
-/

open Library

/-- A node in the cluster. -/
structure NodeId where
  name : String
  deriving DecidableEq, Repr

/-- Placement and sharding policy for the cluster. -/
structure ShardMap where
  shards : UInt32
  replication : UInt32
  timeBucketMicros : Int
  nodes : List NodeId

namespace ShardMap

def new (shards replication : UInt32) (nodes : List NodeId) : ShardMap where
  shards := max shards 1
  replication := max replication 1
  timeBucketMicros := 0
  nodes := nodes

def withTimeBucket (m : ShardMap) (micros : Int) : ShardMap :=
  { m with timeBucketMicros := max micros 0 }

/-- Shard for a routing key at a given event time.  A remainder by zero panics. -/
def shardFor (hash : String → Option Int → UInt64) (m : ShardMap) (key : String) (ts : Int) :
    Option UInt32 :=
  let finish :=
    hash key (if 0 < m.timeBucketMicros then some (ts.tdiv m.timeBucketMicros) else none)
  if m.shards = 0 then none else some (finish % m.shards.toUInt64).toUInt32

/-- Nodes holding a shard: primary first, then replicas. -/
def nodesFor (m : ShardMap) (shard : UInt32) : List NodeId :=
  if some_ : 0 < m.nodes.length then
    let n := m.nodes.length
    let copies := min m.replication.toNat n
    let start := shard.toNat % n
    (List.range copies).map fun i => m.nodes.get ⟨(start + i) % n, Nat.mod_lt _ some_⟩
  else []

/-- The primary node for a key at a time. -/
def primaryFor (hash : String → Option Int → UInt64) (m : ShardMap) (key : String) (ts : Int) :
    Option NodeId :=
  (m.shardFor hash key ts).bind fun shard => (m.nodesFor shard).head?

/-- All shards. -/
def shardIds (m : ShardMap) : List UInt32 :=
  (List.range m.shards.toNat).map UInt32.ofNat

/-- How many shards a node is the primary for. -/
def primaries (m : ShardMap) (node : NodeId) : Nat :=
  m.shardIds.countP fun shard => (m.nodesFor shard).head? = some node

/-- How many shards a node holds a copy of. -/
def held (m : ShardMap) (node : NodeId) : Nat :=
  m.shardIds.countP fun shard => node ∈ m.nodesFor shard

/-! ## One shard -/

variable {m : ShardMap}

/-- How many copies of a shard there are. -/
def copies (m : ShardMap) : Nat :=
  min m.replication.toNat m.nodes.length

theorem copies_le (m : ShardMap) : m.copies ≤ m.nodes.length :=
  Nat.min_le_right _ _

theorem shardFor_lt (hash : String → Option Int → UInt64)
    (some_ : m.shards ≠ 0) (key : String) (ts : Int) :
    ∃ shard, m.shardFor hash key ts = some shard ∧ shard < m.shards := by
  refine ⟨_, if_neg some_, ?_⟩
  have positive : 0 < m.shards.toNat := by
    apply Nat.pos_of_ne_zero
    intro zero
    exact some_ (UInt32.toNat_inj.mp zero)
  rw [UInt32.lt_iff_toNat_lt, UInt64.toNat_toUInt32, UInt64.toNat_mod, UInt32.toNat_toUInt64]
  exact (Nat.mod_le _ _).trans_lt (Nat.mod_lt _ positive)

/-- A shard is on the nodes of an arc. -/
theorem nodesFor_eq (m : ShardMap) (shard : UInt32) : (m.nodesFor shard).map some =
    (Circle.arc m.nodes.length m.copies shard.toNat).map fun place => m.nodes[place]? := by
  rw [nodesFor, Circle.arc, List.map_map]
  split
  · next some_ =>
      rw [List.map_map]
      apply List.map_congr_left
      intro i _
      have inside : (shard.toNat + i) % m.nodes.length < m.nodes.length := Nat.mod_lt _ some_
      simp only [Function.comp_apply, Nat.mod_add_mod, List.get_eq_getElem,
        List.getElem?_eq_getElem inside]
  · next none_ =>
      have noCopies : m.copies = 0 := by
        rw [copies]
        omega
      rw [noCopies]
      rfl

theorem length_nodesFor (m : ShardMap) (shard : UInt32) : (m.nodesFor shard).length = m.copies := by
  have lengths := congrArg List.length (m.nodesFor_eq shard)
  rwa [List.length_map, List.length_map, Circle.length_arc] at lengths

theorem nodesFor_nodup (distinct : m.nodes.Nodup) (shard : UInt32) : (m.nodesFor shard).Nodup := by
  apply List.Nodup.of_map some
  rw [nodesFor_eq]
  apply List.Nodup.map_on _ (Circle.nodup_arc m.copies_le)
  intro i inFirst j inSecond same
  rcases Circle.mem_arc.mp inFirst with ⟨step, below, rfl⟩
  have some_ : 0 < m.nodes.length := (Nat.zero_lt_of_lt below).trans_le m.copies_le
  exact (List.getElem?_inj (Nat.mod_lt _ some_) distinct).mp same

theorem nodesFor_subset (m : ShardMap) (shard : UInt32) : m.nodesFor shard ⊆ m.nodes := by
  intro node member
  rw [nodesFor] at member
  split at member
  · rcases List.mem_map.mp member with ⟨i, -, rfl⟩
    exact List.get_mem _ _
  · exact absurd member List.not_mem_nil

/-- A node holds the shards whose arc reaches its place. -/
theorem mem_nodesFor (distinct : m.nodes.Nodup) {place : Nat} (inside : place < m.nodes.length)
    (shard : UInt32) : m.nodes[place] ∈ m.nodesFor shard ↔
      place ∈ Circle.arc m.nodes.length m.copies shard.toNat := by
  rw [← List.mem_map_of_injective (Option.some_injective _), nodesFor_eq, List.mem_map]
  constructor
  · rintro ⟨other, member, same⟩
    rw [← List.getElem?_eq_getElem inside] at same
    rw [(List.getElem?_inj inside distinct).mp same.symm]
    exact member
  · intro member
    exact ⟨place, member, List.getElem?_eq_getElem inside⟩

/-- The primary node of a shard stands at its place on the ring. -/
theorem head?_nodesFor (replicated : 0 < m.replication.toNat) (shard : UInt32) :
    (m.nodesFor shard).head? = m.nodes[shard.toNat % m.nodes.length]? := by
  rw [nodesFor]
  split
  · next some_ =>
      have first : ∃ more, min m.replication.toNat m.nodes.length = more + 1 :=
        Nat.exists_eq_succ_of_ne_zero (by omega)
      rcases first with ⟨more, equal⟩
      have inside : shard.toNat % m.nodes.length < m.nodes.length := Nat.mod_lt _ some_
      simp only [equal, List.range_succ_eq_map, List.map_cons, List.head?_cons, Nat.add_zero,
        Nat.mod_mod, List.get_eq_getElem, List.getElem?_eq_getElem inside]
  · next none_ =>
      rw [List.getElem?_eq_none (by omega)]
      rfl

/-! ## All shards -/

theorem countP_shardIds (m : ShardMap) (p : Nat → Prop) [DecidablePred p] :
    m.shardIds.countP (fun shard => p shard.toNat) =
      (List.range m.shards.toNat).countP fun shard => p shard := by
  rw [shardIds, List.countP_map]
  apply List.countP_congr
  intro shard member
  have small : shard < 2 ^ 32 := (List.mem_range.mp member).trans m.shards.toNat_lt
  rw [Function.comp_apply, UInt32.toNat_ofNat_of_lt' small]

theorem held_eq (distinct : m.nodes.Nodup) {place : Nat} (inside : place < m.nodes.length) :
    m.held m.nodes[place] = Circle.reaching m.nodes.length m.copies m.shards.toNat place := by
  rw [Circle.reaching, ← countP_shardIds, held]
  apply List.countP_congr
  intro shard _
  rw [decide_eq_true_eq, decide_eq_true_eq]
  exact mem_nodesFor distinct inside shard

theorem primaries_eq (replicated : 0 < m.replication.toNat) (distinct : m.nodes.Nodup)
    {place : Nat} (inside : place < m.nodes.length) :
    m.primaries m.nodes[place] = Circle.reaching m.nodes.length 1 m.shards.toNat place := by
  rw [Circle.reaching, ← countP_shardIds, primaries]
  apply List.countP_congr
  intro shard _
  rw [decide_eq_true_eq, decide_eq_true_eq, head?_nodesFor replicated,
    ← List.getElem?_eq_getElem inside, Circle.mem_arc_succ]
  have some_ : 0 < m.nodes.length := Nat.zero_lt_of_lt inside
  constructor
  · intro same
    exact Or.inr ((List.getElem?_inj (Nat.mod_lt _ some_) distinct).mp same)
  · rintro (impossible | reached)
    · exact absurd impossible List.not_mem_nil
    · rw [← reached]
      rfl

theorem primaries_balanced (replicated : 0 < m.replication.toNat) (distinct : m.nodes.Nodup)
    {a b : NodeId} (inFirst : a ∈ m.nodes) (inSecond : b ∈ m.nodes) :
    m.primaries a ≤ m.primaries b + 1 := by
  rcases List.mem_iff_getElem.mp inFirst with ⟨i, iBound, rfl⟩
  rcases List.mem_iff_getElem.mp inSecond with ⟨j, jBound, rfl⟩
  rw [primaries_eq replicated distinct iBound, primaries_eq replicated distinct jBound]
  exact Circle.reaching_balanced (Nat.succ_le_of_lt (Nat.zero_lt_of_lt iBound)) iBound jBound

theorem held_balanced (distinct : m.nodes.Nodup) {a b : NodeId} (inFirst : a ∈ m.nodes)
    (inSecond : b ∈ m.nodes) : m.held a ≤ m.held b + m.copies := by
  rcases List.mem_iff_getElem.mp inFirst with ⟨i, iBound, rfl⟩
  rcases List.mem_iff_getElem.mp inSecond with ⟨j, jBound, rfl⟩
  rw [held_eq distinct iBound, held_eq distinct jBound]
  exact Circle.reaching_balanced m.copies_le iBound jBound

/-! ## Shard maps that are made -/

theorem toNat_max_one (n : UInt32) : (max n 1).toNat = max n.toNat 1 := by
  change (if n ≤ 1 then (1 : UInt32) else n).toNat = _
  split
  · next small => exact (max_eq_right (UInt32.le_iff_toNat_le.mp small)).symm
  · next large =>
      have above : ¬ n.toNat ≤ 1 := fun small => large (UInt32.le_iff_toNat_le.mpr small)
      exact (max_eq_left (Nat.le_of_not_le above)).symm

theorem new_shards_ne_zero (shards replication : UInt32) (nodes : List NodeId) :
    (new shards replication nodes).shards ≠ 0 := by
  intro zero
  have least : max shards.toNat 1 = 0 :=
    (toNat_max_one shards).symm.trans (congrArg UInt32.toNat zero)
  omega

theorem new_replication (shards replication : UInt32) (nodes : List NodeId) :
    (new shards replication nodes).replication.toNat = max replication.toNat 1 :=
  toNat_max_one replication

/-- Every shard has its copies on distinct nodes, and the nodes are the primaries and the holders
of nearly equally many shards. -/
theorem new_balanced (hash : String → Option Int → UInt64) (shards replication : UInt32)
    {nodes : List NodeId} (distinct : nodes.Nodup) :
    (∀ key ts, ∃ shard, (new shards replication nodes).shardFor hash key ts = some shard ∧
      shard < (new shards replication nodes).shards) ∧
    (∀ micros key ts, ∃ shard,
      ((new shards replication nodes).withTimeBucket micros).shardFor hash key ts = some shard ∧
        shard < (new shards replication nodes).shards) ∧
    (∀ shard,
      ((new shards replication nodes).nodesFor shard).length =
        min (max replication.toNat 1) nodes.length ∧
      ((new shards replication nodes).nodesFor shard).Nodup ∧
      ((new shards replication nodes).nodesFor shard) ⊆ nodes ∧
      ((new shards replication nodes).nodesFor shard).head? =
        nodes[shard.toNat % nodes.length]?) ∧
    (∀ a, a ∈ nodes → ∀ b, b ∈ nodes →
      (new shards replication nodes).primaries a ≤
        (new shards replication nodes).primaries b + 1 ∧
      (new shards replication nodes).held a ≤
        (new shards replication nodes).held b + min (max replication.toNat 1) nodes.length) := by
  have some_ := new_shards_ne_zero shards replication nodes
  have isReplication := new_replication shards replication nodes
  have replicated : 0 < (new shards replication nodes).replication.toNat := by
    rw [isReplication]
    exact Nat.lt_of_lt_of_le Nat.zero_lt_one (le_max_right _ _)
  have isCopies : (new shards replication nodes).copies =
      min (max replication.toNat 1) nodes.length := by
    rw [copies, isReplication]
    rfl
  refine ⟨shardFor_lt hash some_, fun micros => ?_, fun shard => ⟨?_, ?_, ?_, ?_⟩,
    fun a inFirst b inSecond => ⟨?_, ?_⟩⟩
  · exact @shardFor_lt ((new shards replication nodes).withTimeBucket micros) hash some_
  · rw [length_nodesFor, isCopies]
  · exact nodesFor_nodup distinct shard
  · exact nodesFor_subset _ shard
  · exact head?_nodesFor replicated shard
  · exact primaries_balanced replicated distinct inFirst inSecond
  · rw [← isCopies]
    exact held_balanced distinct inFirst inSecond

/-- More shards than nodes, and more copies wanted than there are nodes. -/
theorem new_balanced_pair :
    [NodeId.mk "node-0", NodeId.mk "node-1"].Nodup ∧
      ((new 5 3 [NodeId.mk "node-0", NodeId.mk "node-1"]).nodesFor 3).length = min (max 3 1) 2 ∧
      (new 5 3 [NodeId.mk "node-0", NodeId.mk "node-1"]).primaries (NodeId.mk "node-0") ≤
        (new 5 3 [NodeId.mk "node-0", NodeId.mk "node-1"]).primaries (NodeId.mk "node-1") + 1 := by
  have distinct : [NodeId.mk "node-0", NodeId.mk "node-1"].Nodup := by
    decide
  have balanced := new_balanced (fun _ _ => 0) 5 3 distinct
  exact ⟨distinct, (balanced.2.2.1 3).1,
    (balanced.2.2.2 _ List.mem_cons_self _ (List.mem_cons_of_mem _ List.mem_cons_self)).1⟩

example : (new 5 2 [NodeId.mk "node-0", NodeId.mk "node-1", NodeId.mk "node-2"]).nodesFor 5 =
    [NodeId.mk "node-2", NodeId.mk "node-0"] := by
  decide

end ShardMap

end Cluster
end Sigil
