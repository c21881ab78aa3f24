import Mathlib.Algebra.Order.Ring.Cast
import Mathlib.Tactic.NormNum
import Mathlib.Tactic.Positivity
import Sigil.Correlate.PathSelect
import Sigil.Library.Pointwise
import Sigil.Sigma.Denotation

namespace Sigil
namespace Correlate

/-!
# Reconstructed kill chains

Both selectors only ever hold walks of the graph, so what they return is one.  A walk visits no
node twice, which bounds its length and ends both loops, on every graph.  On the graph of a
campaign an edge means what its reason says, but the time between two events is computed in
64 bits: two events that are further apart than that can represent are taken to be near.
-/

open Sigil.Core Sigil.Graph Library

/-! ## Paths of a graph -/

/-- An edge of the graph with its score. -/
def Joins (graph : CausalGraph) (a b : Nat) (score : ℚ) : Prop :=
  ∃ edge, edge ∈ graph.edges ∧ edge.fromNode = a ∧ edge.toNode = b ∧ edge.score = score

def bonusOf (graph : CausalGraph) (node : Nat) : ℚ :=
  (nodeBonus graph node).getD 0

/-- A walk over the nodes of the graph, with its score. -/
structure IsPath (graph : CausalGraph) (path : List Nat) (last : Nat) (score : ℚ) : Prop where
  walk : Walk (Joins graph) (bonusOf graph) path last score
  inside : ∀ x, x ∈ path → x < graph.nodes.length

/-- The ends of the edges are nodes. -/
def CausalGraph.Closed (graph : CausalGraph) : Prop :=
  ∀ edge, edge ∈ graph.edges → edge.toNode < graph.nodes.length

section Paths

variable {graph : CausalGraph}

theorem nodeBonus_eq_some {node : Nat} {bonus : ℚ} (found : nodeBonus graph node = some bonus) :
    node < graph.nodes.length ∧ bonusOf graph node = bonus := by
  refine ⟨?_, by rw [bonusOf, found, Option.getD_some]⟩
  rcases Option.map_eq_some_iff.mp found with ⟨n, isNode, -⟩
  exact (List.getElem?_eq_some_iff.mp isNode).1

theorem exists_nodeBonus {node : Nat} (inside : node < graph.nodes.length) :
    ∃ bonus, nodeBonus graph node = some bonus := by
  unfold nodeBonus
  rw [List.getElem?_eq_getElem inside]
  exact ⟨_, rfl⟩

theorem mem_outgoing {node : Nat} {edge : CausalEdge} :
    edge ∈ graph.outgoing node ↔ edge ∈ graph.edges ∧ edge.fromNode = node := by
  rw [CausalGraph.outgoing, List.mem_filter, decide_eq_true_eq]

namespace IsPath

variable {path : List Nat} {last : Nat} {score : ℚ}

theorem start {node : Nat} {bonus : ℚ} (found : nodeBonus graph node = some bonus) :
    IsPath graph [node] node bonus := by
  rcases nodeBonus_eq_some found with ⟨inside, rfl⟩
  exact ⟨.start node, fun x member => List.mem_singleton.mp member ▸ inside⟩

theorem step (isPath : IsPath graph path last score) {edge : CausalEdge}
    (leaves : edge ∈ graph.outgoing last) (fresh : edge.toNode ∉ path) {bonus : ℚ}
    (found : nodeBonus graph edge.toNode = some bonus) :
    IsPath graph (path ++ [edge.toNode]) edge.toNode (score + edge.score + bonus) := by
  rcases nodeBonus_eq_some found with ⟨inside, rfl⟩
  rcases mem_outgoing.mp leaves with ⟨member, same⟩
  refine ⟨isPath.walk.step ⟨edge, member, same, rfl, rfl⟩ fresh, fun x inPath => ?_⟩
  rcases List.mem_append.mp inPath with before | new
  · exact isPath.inside x before
  · exact List.mem_singleton.mp new ▸ inside

theorem getLast? (isPath : IsPath graph path last score) : path.getLast? = some last := by
  rcases isPath.walk.ends with ⟨before, rfl⟩
  exact List.getLast?_concat

/-- A path has at most all nodes. -/
theorem length_le (isPath : IsPath graph path last score) : path.length ≤ graph.nodes.length := by
  have inRange : path ⊆ List.range graph.nodes.length :=
    fun x member => List.mem_range.mpr (isPath.inside x member)
  have bound := (List.subperm_of_subset isPath.walk.nodup inRange).length_le
  rwa [List.length_range] at bound

end IsPath

end Paths

/-! ## Beam search -/

/-- An entry of the beam is a path with its score. -/
def Entry.Good (graph : CausalGraph) (entry : Entry) : Prop :=
  ∃ last, IsPath graph entry.1 last entry.2

section Beam

variable {graph : CausalGraph}

theorem extensions_good {entry : Entry} (good : entry.Good graph) {found : List Entry}
    (extended : extensions graph entry = some found) {c : Entry} (member : c ∈ found) :
    c.Good graph ∧ c.1.length = entry.1.length + 1 := by
  rcases good with ⟨last, isPath⟩
  unfold extensions at extended
  rw [isPath.getLast?, Option.bind_some] at extended
  rcases Pointwise.exists_left (Pointwise.forall₂_of_mapM extended) member with
    ⟨edge, leaves, isNext⟩
  rcases List.mem_filter.mp leaves with ⟨leaves, fresh⟩
  rcases Option.map_eq_some_iff.mp isNext with ⟨bonus, hasBonus, rfl⟩
  refine ⟨⟨edge.toNode, isPath.step leaves (of_decide_eq_true fresh) hasBonus⟩, ?_⟩
  exact List.length_append

theorem extensions_ne_none (closed : graph.Closed) {entry : Entry} (good : entry.Good graph) :
    ∃ found, extensions graph entry = some found := by
  rcases good with ⟨last, isPath⟩
  unfold extensions
  rw [isPath.getLast?, Option.bind_some]
  apply Option.ne_none_iff_exists'.mp
  apply Pointwise.mapM_ne_none
  intro edge leaves
  have inside := closed edge (mem_outgoing.mp (List.mem_filter.mp leaves).1).1
  rcases exists_nodeBonus inside with ⟨bonus, hasBonus⟩
  unfold extend
  rw [hasBonus]
  exact ⟨_, rfl⟩

/-- The paths of the beam have one length, and the best path so far is a path. -/
structure Search.Good (graph : CausalGraph) (search : Search) : Prop where
  beam : ∀ entry, entry ∈ search.beam → entry.Good graph
  same : ∀ entry, entry ∈ search.beam → ∀ other, other ∈ search.beam →
    entry.1.length = other.1.length
  best : search.best.Good graph

/-- How much longer the paths of the beam can become. -/
def Search.room (graph : CausalGraph) (search : Search) : Nat :=
  match search.beam with
  | [] => 1
  | entry :: _ => graph.nodes.length + 1 - entry.1.length

theorem candidates_good {search : Search} (good : search.Good graph) {found : List Entry}
    (extended : candidates graph search.beam = some found) {c : Entry} (member : c ∈ found) :
    c.Good graph ∧ ∃ entry, entry ∈ search.beam ∧ c.1.length = entry.1.length + 1 := by
  rcases Option.map_eq_some_iff.mp extended with ⟨lists, mapped, rfl⟩
  rcases List.mem_flatten.mp member with ⟨list, isList, inList⟩
  rcases Pointwise.exists_left (Pointwise.forall₂_of_mapM mapped) isList with
    ⟨entry, inBeam, isNext⟩
  rcases extensions_good (good.beam entry inBeam) isNext inList with ⟨isGood, longer⟩
  exact ⟨isGood, entry, inBeam, longer⟩

theorem mem_foldl_better (found : List Entry) (best : Entry) :
    found.foldl (fun best c => if best.2 < c.2 then c else best) best ∈ best :: found := by
  induction found generalizing best with
  | nil => exact List.mem_singleton_self best
  | cons c found inductionHypothesis =>
      rcases List.mem_cons.mp (inductionHypothesis (if best.2 < c.2 then c else best))
        with same | later
      · rw [List.foldl_cons, same]
        split
        · exact List.mem_cons_of_mem _ List.mem_cons_self
        · exact List.mem_cons_self
      · exact List.mem_cons_of_mem _ (List.mem_cons_of_mem _ later)

theorem Search.Good.room_eq {search : Search} (good : search.Good graph) {entry : Entry}
    (inBeam : entry ∈ search.beam) :
    search.room graph = graph.nodes.length + 1 - entry.1.length := by
  unfold Search.room
  cases isBeam : search.beam with
  | nil =>
      rw [isBeam] at inBeam
      exact absurd inBeam List.not_mem_nil
  | cons first rest =>
      have inFirst : first ∈ search.beam := isBeam ▸ List.mem_cons_self
      dsimp only
      rw [good.same first inFirst entry inBeam]

/-- One round keeps the paths, and makes those of the beam longer unless it is the last. -/
theorem Search.Good.round {search : Search} (good : search.Good graph) {width : Nat} {next : Search}
    {broken : Bool} (ran : search.round graph width = some (next, broken)) :
    next.Good graph ∧ (broken = false → next.room graph < search.room graph) := by
  rcases Option.map_eq_some_iff.mp ran with ⟨found, extended, result⟩
  split at result
  · cases result
    exact ⟨good, fun impossible => nomatch impossible⟩
  · next something =>
      obtain ⟨rfl, rfl⟩ := Prod.mk.inj result
      have kept :
          ∀ c, c ∈ (found.insertionSort fun a b => b.2 ≤ a.2).take width → c ∈ found :=
        fun c member => (List.mem_insertionSort _).mp (List.mem_of_mem_take member)
      have isGood : Search.Good graph
          { beam := (found.insertionSort fun a b => b.2 ≤ a.2).take width
            best := found.foldl (fun best c => if best.2 < c.2 then c else best) search.best } := by
        refine ⟨fun c member => (candidates_good good extended (kept c member)).1, ?_, ?_⟩
        · intro c member c' member'
          rcases candidates_good good extended (kept c member) with ⟨-, entry, inBeam, longer⟩
          rcases candidates_good good extended (kept c' member') with
            ⟨-, entry', inBeam', longer'⟩
          rw [longer, longer', good.same entry inBeam entry' inBeam']
        · rcases List.mem_cons.mp (mem_foldl_better found search.best) with same | member
          · show Entry.Good graph (found.foldl _ search.best)
            rw [same]
            exact good.best
          · exact (candidates_good good extended member).1
      refine ⟨isGood, fun _ => ?_⟩
      rcases List.exists_mem_of_ne_nil found fun nothing => something (List.isEmpty_iff.mpr nothing)
        with ⟨c, member⟩
      rcases candidates_good good extended member with
        ⟨⟨last, isPath⟩, entry, inBeam, longer⟩
      have bound := isPath.length_le
      rw [good.room_eq inBeam]
      cases isBeam : (found.insertionSort fun a b => b.2 ≤ a.2).take width with
      | nil =>
          unfold Search.room
          dsimp only
          omega
      | cons first rest =>
          have inFirst : first ∈ (found.insertionSort fun a b => b.2 ≤ a.2).take width :=
            isBeam ▸ List.mem_cons_self
          rcases candidates_good good extended (kept first inFirst) with
            ⟨-, entry', inBeam', longer'⟩
          have equal := good.same entry inBeam entry' inBeam'
          rw [← isBeam, isGood.room_eq inFirst]
          omega

theorem Search.start_good (someNode : graph.nodes ≠ []) {search : Search}
    (started : Search.start graph = some search) :
    search.Good graph ∧ search.room graph < graph.nodes.length + 2 := by
  rcases Option.map_eq_some_iff.mp started with ⟨beam, mapped, rfl⟩
  have single : ∀ entry, entry ∈ beam → entry.Good graph ∧ entry.1.length = 1 := by
    intro entry inBeam
    rcases Pointwise.exists_left (Pointwise.forall₂_of_mapM mapped) inBeam with
      ⟨i, -, isEntry⟩
    rcases Option.map_eq_some_iff.mp isEntry with ⟨bonus, hasBonus, rfl⟩
    exact ⟨⟨i, .start hasBonus⟩, rfl⟩
  have length := (Pointwise.forall₂_of_mapM mapped).length_eq
  rw [List.length_range] at length
  cases chosen : maxBy Prod.snd beam with
  | none =>
      rw [maxBy_eq_none.mp chosen] at length
      exact absurd (List.length_eq_zero_iff.mp length) someNode
  | some best =>
      rw [Option.getD_some]
      refine ⟨⟨fun entry inBeam => (single entry inBeam).1, ?_, ?_⟩, ?_⟩
      · intro entry inBeam other inBeam'
        rw [(single entry inBeam).2, (single other inBeam').2]
      · exact (single best (maxBy_spec chosen).1).1
      · unfold Search.room
        split
        · omega
        · omega

theorem Search.start_ne_none : ∃ search, Search.start graph = some search := by
  have mapped : (List.range graph.nodes.length).mapM (fun i =>
      (nodeBonus graph i).map fun bonus => (([i], bonus) : Entry)) ≠ none := by
    apply Pointwise.mapM_ne_none
    intro i inRange
    rcases exists_nodeBonus (List.mem_range.mp inRange) with ⟨bonus, hasBonus⟩
    rw [hasBonus]
    exact ⟨_, rfl⟩
  rcases Option.ne_none_iff_exists'.mp mapped with ⟨beam, mapped⟩
  unfold Search.start
  rw [mapped]
  exact ⟨_, rfl⟩

theorem Search.Good.ends {search : Search} (good : search.Good graph)
    (room : search.room graph < graph.nodes.length + 2) {width : Nat}
    {last : Search} {broken : Bool} (ran : search.run graph width = some (last, broken)) :
    last.Good graph ∧ broken = true :=
  loopUntil_rule (Search.Good graph) (Search.room graph)
    (fun _ good _ _ ran => good.round ran) room good ran

theorem Search.Good.runs (closed : graph.Closed) {search : Search} (good : search.Good graph)
    (width : Nat) : ∃ last broken, search.run graph width = some (last, broken) := by
  apply loopUntil_runs (Search.Good graph) _ _ good
  intro search good
  have extended : ∃ found, candidates graph search.beam = some found := by
    unfold candidates
    rcases Option.ne_none_iff_exists'.mp (Pointwise.mapM_ne_none fun entry inBeam =>
      extensions_ne_none closed (good.beam entry inBeam)) with ⟨lists, mapped⟩
    rw [mapped]
    exact ⟨_, rfl⟩
  rcases extended with ⟨found, extended⟩
  have ran : ∃ next broken, search.round graph width = some (next, broken) := by
    unfold Search.round
    rw [extended, Option.map_some]
    split
    · exact ⟨_, _, rfl⟩
    · exact ⟨_, _, rfl⟩
  rcases ran with ⟨next, broken, ran⟩
  exact ⟨next, broken, ran, (good.round ran).1⟩

/-- The chain is empty, as the graph is, or a path of the graph with its score. -/
def AttackChain.Good (graph : CausalGraph) (chain : AttackChain) : Prop :=
  graph.nodes = [] ∧ chain = .default ∨ ∃ last, IsPath graph chain.path last chain.score

theorem beamSearch_good {width : Nat} {chain : AttackChain}
    (selected : beamSearch graph width = some chain) : chain.Good graph := by
  unfold beamSearch at selected
  split at selected
  · next nothing =>
      exact Or.inl ⟨List.isEmpty_iff.mp nothing, (Option.some.inj selected).symm⟩
  · next something =>
      rcases Option.bind_eq_some_iff.mp selected with ⟨search, started, selected⟩
      rcases Option.bind_eq_some_iff.mp selected with ⟨⟨last, broken⟩, ran, selected⟩
      rcases Search.start_good (fun nothing => something (List.isEmpty_iff.mpr nothing)) started
        with ⟨good, room⟩
      rw [← Option.some.inj selected]
      exact Or.inr (good.ends room ran).1.best

theorem beamSearch_ne_none (closed : graph.Closed) (width : Nat) :
    ∃ chain, beamSearch graph width = some chain := by
  unfold beamSearch
  split
  · exact ⟨_, rfl⟩
  · next something =>
      rcases (Search.start_ne_none : ∃ search, Search.start graph = some search) with
        ⟨search, started⟩
      rcases Search.start_good (fun nothing => something (List.isEmpty_iff.mpr nothing)) started
        with ⟨good, -⟩
      rcases good.runs closed width with ⟨last, broken, ran⟩
      rw [started, Option.bind_eq_bind, Option.bind_some, ran]
      exact ⟨_, rfl⟩

end Beam

/-! ## The value-guided policy -/

section Policy

variable {graph : CausalGraph} {gamma : ℚ}

/-- An action is an edge that leaves the node to an unvisited one. -/
theorem action_eq_some {path : List Nat} {cur : Nat} {edge : CausalEdge} {q : ℚ}
    (chosen : action graph gamma path cur = some (edge, q)) :
    edge ∈ graph.outgoing cur ∧ edge.toNode ∉ path := by
  let Fine := fun best : Option (CausalEdge × ℚ) =>
    ∀ edge q, best = some (edge, q) → edge ∈ graph.outgoing cur ∧ edge.toNode ∉ path
  suffices fold : Fine (action graph gamma path cur) from fold edge q chosen
  unfold action
  apply List.foldlRecOn (motive := Fine)
  · exact fun edge q impossible => nomatch impossible
  · intro best fine next leaves
    split
    · exact fine
    · next fresh =>
        dsimp only
        split
        · intro edge q same
          cases same
          exact ⟨leaves, fresh⟩
        · exact fine

def Episode.Good (graph : CausalGraph) (episode : Episode) : Prop :=
  IsPath graph episode.path episode.cur episode.total

/-- How many nodes the episode has not visited. -/
def Episode.room (graph : CausalGraph) (episode : Episode) : Nat :=
  graph.nodes.length - episode.path.length

theorem Episode.start_good {node : Nat} {episode : Episode}
    (started : Episode.start graph node = some episode) : episode.Good graph := by
  rcases Option.map_eq_some_iff.mp started with ⟨bonus, hasBonus, rfl⟩
  exact IsPath.start hasBonus

/-- One step keeps the path, and makes it longer unless it is the last. -/
theorem Episode.Good.round {episode : Episode} (good : episode.Good graph) {next : Episode}
    {broken : Bool} (ran : episode.round graph gamma = some (next, broken)) :
    next.Good graph ∧ (broken = false → next.room graph < episode.room graph) := by
  unfold Episode.round at ran
  split at ran
  · next edge q chosen =>
      rcases action_eq_some chosen with ⟨leaves, fresh⟩
      rcases Option.map_eq_some_iff.mp ran with ⟨bonus, hasBonus, result⟩
      cases result
      have isPath := IsPath.step good leaves fresh hasBonus
      have bound := isPath.length_le
      rw [List.length_append, List.length_singleton] at bound
      refine ⟨?_, fun _ => ?_⟩
      · unfold Episode.Good
        rw [← add_assoc]
        exact isPath
      · unfold Episode.room
        rw [List.length_append, List.length_singleton]
        omega
  · cases Option.some.inj ran
    exact ⟨good, fun impossible => nomatch impossible⟩

theorem Episode.Good.ends {episode : Episode} (good : episode.Good graph) {last : Episode}
    {broken : Bool} (ran : episode.run graph gamma = some (last, broken)) :
    last.Good graph ∧ broken = true :=
  loopUntil_rule (Episode.Good graph) (Episode.room graph) (fun _ good _ _ ran => good.round ran)
    (Nat.lt_succ_of_le (Nat.sub_le _ _)) good ran

theorem Episode.Good.runs (closed : graph.Closed) {episode : Episode} (good : episode.Good graph) :
    ∃ last broken, episode.run graph gamma = some (last, broken) := by
  apply loopUntil_runs (Episode.Good graph) _ _ good
  intro episode good
  have ran : ∃ next broken, episode.round graph gamma = some (next, broken) := by
    unfold Episode.round
    split
    · next edge q chosen =>
        have inside := closed edge (mem_outgoing.mp (action_eq_some chosen).1).1
        rcases exists_nodeBonus inside with ⟨bonus, hasBonus⟩
        rw [hasBonus]
        exact ⟨_, _, rfl⟩
    · exact ⟨_, _, rfl⟩
  rcases ran with ⟨next, broken, ran⟩
  exact ⟨next, broken, ran, (good.round ran).1⟩

theorem rollout_isPath {start : Nat} {chain : AttackChain}
    (rolled : rollout graph gamma start = some chain) :
    ∃ last, IsPath graph chain.path last chain.score := by
  rcases Option.bind_eq_some_iff.mp rolled with ⟨episode, started, rolled⟩
  rcases Option.bind_eq_some_iff.mp rolled with ⟨⟨last, broken⟩, ran, rolled⟩
  rw [← Option.some.inj rolled]
  exact ⟨last.cur, ((Episode.start_good started).ends ran).1⟩

theorem rollout_ne_none (closed : graph.Closed) {start : Nat}
    (inside : start < graph.nodes.length) :
    ∃ chain, rollout graph gamma start = some chain := by
  rcases exists_nodeBonus inside with ⟨bonus, hasBonus⟩
  have started : Episode.start graph start = some ⟨[start], bonus, start⟩ := by
    unfold Episode.start
    rw [hasBonus]
    rfl
  rcases (Episode.start_good started).runs closed with ⟨last, broken, ran⟩
  unfold rollout
  rw [started, Option.bind_eq_bind, Option.bind_some, ran]
  exact ⟨_, rfl⟩

theorem foldlM_better {Fine : AttackChain → Prop} (starts : List Nat)
    (each : ∀ start, start ∈ starts → ∃ chain,
      rollout graph gamma start = some chain ∧ Fine chain)
    {best : AttackChain} (fine : Fine best) :
    ∃ chain, starts.foldlM (fun best start => (rollout graph gamma start).map fun chain =>
      if best.score < chain.score then chain else best) best = some chain ∧ Fine chain := by
  let invariant := fun (rest : List Nat) (best : AttackChain) =>
    (∀ start, start ∈ rest → ∃ chain, rollout graph gamma start = some chain ∧
      Fine chain) ∧ Fine best
  have folded :
      ∃ chain, starts.foldlM (fun best start => (rollout graph gamma start).map fun chain =>
        if best.score < chain.score then chain else best) best = some chain ∧
          invariant [] chain := by
    apply exists_foldlM invariant
    · rintro best start rest ⟨each, fine⟩
      rcases each start List.mem_cons_self with ⟨chain, rolled, isFine⟩
      rw [rolled, Option.map_some]
      refine ⟨_, rfl, fun start later => each start (List.mem_cons_of_mem _ later), ?_⟩
      split
      · exact isFine
      · exact fine
    · exact ⟨each, fine⟩
  rcases folded with ⟨chain, folded, -, isFine⟩
  exact ⟨chain, folded, isFine⟩

/-- Where every episode scores more than the least float, the first one replaces the initial
chain. -/
theorem rlSelect_good (closed : graph.Closed)
    (above : ∀ path last score, IsPath graph path last score → f32Min < score) :
    ∃ chain, RlPathSelector.select gamma graph = some chain ∧ chain.Good graph := by
  unfold RlPathSelector.select
  split
  · next nothing => exact ⟨_, rfl, Or.inl ⟨List.isEmpty_iff.mp nothing, rfl⟩⟩
  · next something =>
      have each : ∀ start, start ∈ List.range graph.nodes.length → ∃ chain,
          rollout graph gamma start = some chain ∧ chain.Good graph ∧ f32Min < chain.score := by
        intro start inRange
        rcases @rollout_ne_none _ gamma closed _ (List.mem_range.mp inRange) with
          ⟨chain, rolled⟩
        rcases rollout_isPath rolled with ⟨last, isPath⟩
        exact ⟨chain, rolled, Or.inr ⟨last, isPath⟩, above _ _ _ isPath⟩
      cases starts_eq : List.range graph.nodes.length with
      | nil =>
          have empty := List.range_eq_nil.mp starts_eq
          exact absurd (List.isEmpty_iff.mpr (List.length_eq_zero_iff.mp empty)) something
      | cons start starts =>
          rw [starts_eq] at each
          rcases each start List.mem_cons_self with ⟨first, rolled, good, isAbove⟩
          rw [List.foldlM_cons, rolled, Option.map_some, Option.bind_eq_bind, Option.bind_some,
            if_pos isAbove]
          apply foldlM_better starts _ good
          intro start later
          rcases each start (List.mem_cons_of_mem _ later) with ⟨chain, rolled, good, -⟩
          exact ⟨chain, rolled, good⟩

end Policy

/-! ## The graph of a campaign -/

/-- The score of the edge from one node to another, as an incident explains it. -/
def CausalGraph.scoreBetween (graph : CausalGraph) (a b : Nat) : ℚ :=
  (((graph.outgoing a).find? fun edge => edge.toNode = b).map CausalEdge.score).getD 0

section Built

variable {tables : CaseTables} {humanDt : Int → String}
  {techniques : AList fun _ : String => String} {cfg : CausalConfig} {events : List Event}

theorem nodes_getElem? (i : Nat) :
    (buildCausalGraph tables humanDt techniques cfg events).graph.nodes[i]? =
      (ordered events)[i]?.map (causalNode tables techniques) :=
  List.getElem?_map

theorem buildCausalGraph_closed :
    (buildCausalGraph tables humanDt techniques cfg events).graph.Closed := by
  intro edge member
  rcases mem_edges.mp member with ⟨a, b, linked, -⟩
  have inside := (List.getElem?_eq_some_iff.mp linked.second).1
  exact inside.trans_eq (List.length_map _).symm

theorem anomalyScore_nonneg (e : Event) : 0 ≤ anomalyScore tables e := by
  unfold anomalyScore
  apply le_min _ zero_le_one
  apply add_nonneg
  · split <;> norm_num
  · positivity

theorem temporalScore_nonneg (dt : Int) : 0 ≤ temporalScore dt := by
  unfold temporalScore
  have known : (0 : ℚ) ≤ (max dt 0 : Int) := Int.cast_nonneg (le_max_right dt 0)
  positivity

theorem edgeScore_nonneg (a b : Event) : 0 ≤ edgeScore tables a b := by
  unfold edgeScore
  have near := temporalScore_nonneg (timeBetween a b)
  have anomalous := @anomalyScore_nonneg tables b
  apply le_min _ zero_le_one
  positivity

theorem bonusOf_nonneg (node : Nat) :
    0 ≤ bonusOf (buildCausalGraph tables humanDt techniques cfg events).graph node := by
  unfold bonusOf nodeBonus
  rw [nodes_getElem?, Option.map_map]
  cases (ordered events)[node]? with
  | none => exact le_refl 0
  | some e => exact mul_nonneg (anomalyScore_nonneg e) (by norm_num)

theorem above_least {path : List Nat} {last : Nat} {score : ℚ}
    (isPath : IsPath
      (buildCausalGraph tables humanDt techniques cfg events).graph path last score) :
    f32Min < score := by
  have least : f32Min < 0 := by
    unfold f32Min
    norm_num
  apply least.trans_le
  apply isPath.walk.score_nonneg
  · rintro i j w ⟨edge, member, -, -, rfl⟩
    rcases mem_edges.mp member with ⟨a, b, -, score⟩
    rw [score]
    exact edgeScore_nonneg a b
  · exact bonusOf_nonneg

/-- Two nodes are joined by at most one edge. -/
theorem joins_unique {i j : Nat} {score : ℚ}
    (joins : Joins (buildCausalGraph tables humanDt techniques cfg events).graph i j score) :
    score = (buildCausalGraph tables humanDt techniques cfg events).graph.scoreBetween i j := by
  rcases joins with ⟨edge, member, rfl, rfl, rfl⟩
  have leaves : edge ∈ (buildCausalGraph tables humanDt techniques cfg events).graph.outgoing
      edge.fromNode := mem_outgoing.mpr ⟨member, rfl⟩
  unfold CausalGraph.scoreBetween
  cases found : ((buildCausalGraph tables humanDt techniques cfg events).graph.outgoing
      edge.fromNode).find? fun other => other.toNode = edge.toNode with
  | none =>
      have impossible := List.find?_eq_none.mp found edge leaves
      exact absurd (decide_eq_true rfl) impossible
  | some other =>
      rcases mem_outgoing.mp (List.mem_of_find?_eq_some found) with ⟨member', sameFrom⟩
      have sameTo : other.toNode = edge.toNode := by simpa using List.find?_some found
      rcases mem_edges.mp member with ⟨a, b, linked, score⟩
      rcases mem_edges.mp member' with ⟨a', b', linked', score'⟩
      have sameFirst := linked.first.symm.trans (sameFrom ▸ linked'.first)
      have sameSecond := linked.second.symm.trans (sameTo ▸ linked'.second)
      rw [Option.map_some, Option.getD_some, score, score', Option.some.inj sameFirst,
        Option.some.inj sameSecond]

/-- The event at the node `j` follows the one at the node `i`. -/
structure Follows (build : CausalBuild) (events : List Event) (i j : Nat) (a b : Event) : Prop where
  edge : ∃ score, Joins build.graph i j score
  reason : (i, j) ∈ build.reasons
  first : (ordered events)[i]? = some a
  second : (ordered events)[j]? = some b
  time : a.ts ≤ b.ts
  share : ShareEntity a b

/-- A valid path with its score. -/
structure IsKillChain (build : CausalBuild) (events : List Event) (chain : AttackChain) : Prop where
  nodup : chain.path.Nodup
  follows : chain.path.IsChain fun i j => ∃ a b, Follows build events i j a b
  score : chain.score = pathScore build.graph.scoreBetween (bonusOf build.graph) chain.path

/-- The second of the two nodes is no more than the window later than the first. -/
def Near (cfg : CausalConfig) (events : List Event) (i j : Nat) : Prop :=
  ∀ a b, (ordered events)[i]? = some a → (ordered events)[j]? = some b →
    b.ts - a.ts ≤ cfg.windowMicros

/-- Two related events are so far apart that the time between them wraps into the window. -/
def Wraps (cfg : CausalConfig) (events : List Event) : Prop :=
  ∃ a, a ∈ events ∧ ∃ b, b ∈ events ∧ ShareEntity a b ∧ 2 ^ 63 ≤ b.ts - a.ts ∧
    b.ts - a.ts - 2 ^ 64 ≤ cfg.windowMicros

theorem ordered_sorted (events : List Event) :
    (ordered events).Pairwise fun a b => a.ts ≤ b.ts := by
  have sorted := List.pairwise_insertionSort (fun a b : Int => a ≤ b) (events.map Event.ts)
  rw [← List.map_insertionSort (fun a b : Event => a.ts ≤ b.ts) (· ≤ ·) Event.ts events
    (fun _ _ _ _ => Iff.rfl), List.pairwise_map] at sorted
  exact sorted

theorem Linked.time {i j : Nat} {a b : Event} (linked : Linked cfg events i j a b) :
    a.ts ≤ b.ts := by
  rcases List.getElem?_eq_some_iff.mp linked.first with ⟨inside, rfl⟩
  rcases List.getElem?_eq_some_iff.mp linked.second with ⟨inside', rfl⟩
  exact List.pairwise_iff_getElem.mp (ordered_sorted events) i j inside inside' linked.before

theorem Joins.linked {i j : Nat} {score : ℚ}
    (joins : Joins (buildCausalGraph tables humanDt techniques cfg events).graph i j score) :
    ∃ a b, Linked cfg events i j a b := by
  rcases joins with ⟨edge, member, rfl, rfl, -⟩
  rcases mem_edges.mp member with ⟨a, b, linked, -⟩
  exact ⟨a, b, linked⟩

theorem Joins.follows {i j : Nat} {score : ℚ}
    (joins : Joins (buildCausalGraph tables humanDt techniques cfg events).graph i j score) :
    ∃ a b, Follows (buildCausalGraph tables humanDt techniques cfg events) events i j a b := by
  rcases joins.linked with ⟨a, b, linked⟩
  rcases joins with ⟨edge, member, rfl, rfl, rfl⟩
  exact ⟨a, b, ⟨edge.score, edge, member, rfl, rfl, rfl⟩, mem_reasons member, linked.first,
    linked.second, linked.time, linked.share⟩

/-- What the selectors return is a kill chain. -/
theorem AttackChain.Good.isKillChain {chain : AttackChain}
    (good : chain.Good (buildCausalGraph tables humanDt techniques cfg events).graph) :
    IsKillChain (buildCausalGraph tables humanDt techniques cfg events) events chain := by
  rcases good with ⟨-, rfl⟩ | ⟨last, isPath⟩
  · exact ⟨List.nodup_nil, List.isChain_nil, rfl⟩
  · refine ⟨isPath.walk.nodup, ?_, isPath.walk.score_eq fun _ _ _ joins => joins_unique joins⟩
    exact isPath.walk.isChain.imp fun i j ⟨score, joins⟩ => joins.follows

theorem AttackChain.Good.near {chain : AttackChain}
    (good : chain.Good (buildCausalGraph tables humanDt techniques cfg events).graph)
    (near : ∀ edge,
      edge ∈ (buildCausalGraph tables humanDt techniques cfg events).graph.edges →
      Near cfg events edge.fromNode edge.toNode) : chain.path.IsChain (Near cfg events) := by
  rcases good with ⟨-, rfl⟩ | ⟨last, isPath⟩
  · exact List.isChain_nil
  · apply isPath.walk.isChain.imp
    rintro i j ⟨score, edge, member, rfl, rfl, -⟩
    exact near edge member

/-! ## The time between two events -/

theorem timeBetween_of_near {a b : Event} (before : a.ts ≤ b.ts) (small : b.ts - a.ts < 2 ^ 63) :
    timeBetween a b = b.ts - a.ts :=
  toI64_of_range (by omega) small

theorem timeBetween_of_far {a b : Event} (far : 2 ^ 63 ≤ b.ts - a.ts)
    (bounded : b.ts - a.ts < 2 ^ 64) :
    timeBetween a b = b.ts - a.ts - 2 ^ 64 := by
  unfold timeBetween toI64
  rw [← Int.sub_bmod_right]
  exact Int.bmod_eq_of_le (by omega) (by omega)

/-- Every timestamp of the events is a machine integer, and so is the window. -/
structure TimesFit (cfg : CausalConfig) (events : List Event) : Prop where
  ts : ∀ e, e ∈ events → -(2 ^ 63) ≤ e.ts ∧ e.ts < 2 ^ 63
  window : cfg.windowMicros < 2 ^ 63

/-- The edges join events inside the window unless a time between two events wraps. -/
theorem edges_near_iff (fit : TimesFit cfg events) :
    (∀ edge, edge ∈ (buildCausalGraph tables humanDt techniques cfg events).graph.edges →
      Near cfg events edge.fromNode edge.toNode) ↔ ¬ Wraps cfg events := by
  have isEvent : ∀ {e}, e ∈ ordered events ↔ e ∈ events :=
    (List.perm_insertionSort _ events).mem_iff
  constructor
  · rintro near ⟨a, inFirst, b, inSecond, share, far, wrapped⟩
    have bounded : b.ts - a.ts < 2 ^ 64 := by
      have low := (fit.ts a inFirst).1
      have high := (fit.ts b inSecond).2
      omega
    rcases List.mem_iff_getElem?.mp (isEvent.mpr inFirst) with ⟨i, first⟩
    rcases List.mem_iff_getElem?.mp (isEvent.mpr inSecond) with ⟨j, second⟩
    have before : i < j := by
      by_contra after
      rcases List.getElem?_eq_some_iff.mp first with ⟨inside, isFirst⟩
      rcases List.getElem?_eq_some_iff.mp second with ⟨inside', isSecond⟩
      have notLater : b.ts ≤ a.ts := by
        rcases Nat.lt_or_eq_of_le (not_lt.mp after) with less | rfl
        · rw [← isFirst, ← isSecond]
          exact List.pairwise_iff_getElem.mp (ordered_sorted events) j i inside' inside less
        · rw [← isFirst, ← isSecond]
      omega
    have linked : Linked cfg events i j a b := by
      refine ⟨first, second, before, ?_, share⟩
      rw [timeBetween_of_far far bounded]
      exact wrapped
    have inWindow :=
      near ⟨i, j, edgeScore tables a b⟩ (mem_edges.mpr ⟨a, b, linked, rfl⟩) a b first second
    have fits := fit.window
    omega
  · rintro noWrap edge member a b first second
    rcases mem_edges.mp member with ⟨a', b', linked, -⟩
    cases Option.some.inj (first.symm.trans linked.first)
    cases Option.some.inj (second.symm.trans linked.second)
    have near := linked.near
    have before := linked.time
    have inFirst := isEvent.mp (List.mem_of_getElem? first)
    have inSecond := isEvent.mp (List.mem_of_getElem? second)
    by_cases small : b.ts - a.ts < 2 ^ 63
    · rwa [timeBetween_of_near before small] at near
    · have bounded : b.ts - a.ts < 2 ^ 64 := by
        have low := (fit.ts a inFirst).1
        have high := (fit.ts b inSecond).2
        omega
      rw [timeBetween_of_far (not_lt.mp small) bounded] at near
      exact absurd ⟨a, inFirst, b, inSecond, linked.share, not_lt.mp small, near⟩ noWrap

end Built

/-! ## Two logins -/

def login (id : String) (ts : Int) : Event where
  id := id
  ts := ts
  ingestTs := ts
  ocsfClass := .authentication
  tenant := "acme"
  severity := .low
  host := some (.new "host" "web01")
  actor := none
  target := none
  message := "session opened"
  fields := .empty
  templateId := none
  labels := []
  raw := []

def soon : List Event :=
  [login "e1" 0, login "e2" 60000000]

theorem soon_fits : TimesFit .default soon := by
  refine ⟨fun e member => ?_, by decide⟩
  rcases List.mem_cons.mp member with rfl | second
  · exact ⟨by decide, by decide⟩
  · rw [List.mem_singleton.mp second]
    exact ⟨by decide, by decide⟩

/-- The first and the last moment of the clock. -/
def endsOfTime : List Event :=
  [login "e1" (-(2 ^ 63)), login "e2" (2 ^ 63 - 1)]

end Correlate
end Sigil
