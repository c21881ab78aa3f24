import Sigil.Correlate.Components
import Sigil.Library.Ties

namespace Sigil
namespace Correlate

/-!
# What does not depend on the hash maps

The links, their similarities and the groups of linked events are the same for every order of the
hash maps, under every configuration.  The order of the candidates, and so their numbers, are the
same exactly if no two groups of one score are described differently.
-/

open Sigil.Core Sigil.Graph Library

/-- A call of `record`: two positions and a similarity. -/
abbrev Call (n : Nat) := Fin n × Fin n × ℚ

/-! ## The calls that record links -/

section Calls

variable (cfg : CampaignConfig) (embed : Event → List ℚ) (events : List Event)

/-- The calls of the pass over the nearest neighbours. -/
def semanticCalls : List (Call events.length) :=
  (List.finRange events.length).flatMap fun i =>
    ((vectorStore embed events).knn dot (embed (events.get i)) (cfg.knn + 1)).filterMap fun hit =>
      if hit.2 < cfg.simThreshold then none
      else ((positions events).lookup hit.1).map fun j => (i, j, hit.2)

/-- The calls of both passes, as far as they are made. -/
def allCalls (ids : Fin events.length → HashOrder String) : List (Call events.length) :=
  (if cfg.semanticLinks then semanticCalls cfg embed events else []) ++
    if cfg.entityLinks then
      (entityCalls events ids).map fun call =>
        (call.1, call.2, dot (embed (events.get call.1)) (embed (events.get call.2)))
    else []

/-- Record links, one after another. -/
def recordCalls (calls : List (Call events.length)) (links : Links events.length) :
    Links events.length :=
  calls.foldl (fun links call => record cfg events call.1 call.2.1 call.2.2 links) links

/-- The call links the pair. -/
def Hits (key : Fin events.length × Fin events.length) (call : Call events.length) : Prop :=
  call.1 ≠ call.2.1 ∧ InWindow cfg (events.get call.1) (events.get call.2.1) ∧
    sortedPair call.1 call.2.1 = key

instance (key : Fin events.length × Fin events.length) (call : Call events.length) :
    Decidable (Hits cfg events key call) := by
  unfold Hits InWindow
  infer_instance

/-- The similarities that the calls record for a pair. -/
def simsOf (calls : List (Call events.length)) (key : Fin events.length × Fin events.length) :
    List ℚ :=
  (calls.filter fun call => Hits cfg events key call).map fun call => call.2.2

variable {cfg embed events}

theorem collectLinks_eq (ids : Fin events.length → HashOrder String) :
    collectLinks cfg embed events ids =
      recordCalls cfg events (allCalls cfg embed events ids) ∅ := by
  have semantic : ∀ links, semanticLinks cfg embed events links =
      recordCalls cfg events (semanticCalls cfg embed events) links := by
    intro links
    rw [semanticLinks, recordCalls, semanticCalls, List.foldl_flatMap]
    congr 1
    funext links i
    rw [List.foldl_filterMap]
    congr 1
    funext links hit
    split
    · rfl
    · cases (positions events).lookup hit.1 with
      | none => rfl
      | some j => rfl
  have entity : ∀ links, entityLinks cfg embed events ids links =
      recordCalls cfg events ((entityCalls events ids).map fun call =>
        (call.1, call.2, dot (embed (events.get call.1)) (embed (events.get call.2)))) links := by
    intro links
    rw [entityLinks_eq, recordAll, recordCalls, List.foldl_map]
  rw [collectLinks, allCalls, recordCalls, List.foldl_append, semantic, entity]
  split <;> split <;> rfl

theorem lookup_record (call : Call events.length) (links : Links events.length)
    (key : Fin events.length × Fin events.length) :
    (record cfg events call.1 call.2.1 call.2.2 links).lookup key =
      if Hits cfg events key call then
        some (max ((links.lookup key).elim f32Min Prod.fst) call.2.2,
          decide ((events.get key.1).ocsfClass.uid ≠ (events.get key.2).ocsfClass.uid))
      else links.lookup key := by
  have crosses : ((events.get call.1).ocsfClass.uid ≠ (events.get call.2.1).ocsfClass.uid ↔
      (events.get (sortedPair call.1 call.2.1).1).ocsfClass.uid ≠
        (events.get (sortedPair call.1 call.2.1).2).ocsfClass.uid) := by
    rw [sortedPair]
    split
    · rfl
    · exact ne_comm
  unfold record
  split
  · next same => exact (if_neg fun hits : Hits cfg events key call => hits.1 same).symm
  · next different =>
      split
      · next far =>
          refine (if_neg fun hits : Hits cfg events key call => ?_).symm
          exact absurd hits.2.1 (not_le_of_gt far)
      · next near =>
          change AList.lookup key (links.insert (sortedPair call.1 call.2.1) _) = _
          by_cases here : sortedPair call.1 call.2.1 = key
          · have isHit : Hits cfg events key call := ⟨different, le_of_not_gt near, here⟩
            refine Eq.trans ?_ (if_pos isHit).symm
            rw [← here, AList.lookup_insert]
            refine congrArg some (Prod.ext ?_ (decide_eq_decide.mpr crosses))
            change (if ((links.lookup (sortedPair call.1 call.2.1)).getD _).1 < call.2.2 then _
              else ((links.lookup (sortedPair call.1 call.2.1)).getD _).1) = _
            cases links.lookup (sortedPair call.1 call.2.1) with
            | none => exact (max_def_lt _ _).symm
            | some entry => exact (max_def_lt _ _).symm
          · refine Eq.trans ?_ (if_neg fun hits : Hits cfg events key call => here hits.2.2).symm
            exact AList.lookup_insert_ne (Ne.symm here)

/-- After all calls a pair has the best similarity that has been recorded for it. -/
theorem lookup_recordCalls (calls : List (Call events.length))
    (key : Fin events.length × Fin events.length) :
    (recordCalls cfg events calls ∅).lookup key =
      if simsOf cfg events calls key = [] then none
      else some ((simsOf cfg events calls key).foldl max f32Min,
        decide ((events.get key.1).ocsfClass.uid ≠ (events.get key.2).ocsfClass.uid)) := by
  induction calls using List.reverseRecOn with
  | nil => rfl
  | append_singleton calls last inductionHypothesis =>
      have recorded : recordCalls cfg events (calls ++ [last]) ∅ =
          record cfg events last.1 last.2.1 last.2.2 (recordCalls cfg events calls ∅) := by
        rw [recordCalls, List.foldl_append]
        rfl
      have sims : simsOf cfg events (calls ++ [last]) key =
          simsOf cfg events calls key ++ if Hits cfg events key last then [last.2.2] else [] := by
        rw [simsOf, List.filter_append, List.map_append, List.filter_singleton]
        by_cases hits : Hits cfg events key last
        · rw [if_pos hits, decide_eq_true hits]
          rfl
        · rw [if_neg hits, decide_eq_false hits]
          rfl
      rw [recorded, lookup_record, sims, inductionHypothesis]
      by_cases hits : Hits cfg events key last
      · rw [if_pos hits, if_pos hits,
          if_neg (List.append_ne_nil_of_right_ne_nil _ (List.cons_ne_nil _ _)), List.foldl_append]
        refine congrArg some (Prod.ext ?_ rfl)
        split
        · next none_ =>
            rw [none_]
            rfl
        · rfl
      · rw [if_neg hits, if_neg hits, List.append_nil]

theorem allCalls_perm (ids ids' : Fin events.length → HashOrder String) :
    (allCalls cfg embed events ids).Perm (allCalls cfg embed events ids') := by
  refine List.Perm.append_left _ ?_
  split
  · refine List.Perm.map _ (List.Perm.flatMap_left _ fun i _ => List.Perm.filterMap _ ?_)
    exact ((ids i).perm _).trans ((ids' i).perm _).symm
  · exact List.Perm.refl _

theorem simsOf_perm {calls calls' : List (Call events.length)} (same : calls.Perm calls')
    (key : Fin events.length × Fin events.length) :
    (simsOf cfg events calls key).Perm (simsOf cfg events calls' key) :=
  (same.filter _).map _

end Calls

/-! ## Groups of linked events -/

section Groups

variable (cfg : CampaignConfig) (embed : Event → List ℚ) (events : List Event)

/-- The similarities that the two passes find for a pair of positions within the window. -/
def foundSims (key : Fin events.length × Fin events.length) : List ℚ :=
  simsOf cfg events (allCalls cfg embed events fun _ => .inserted _) key

/-- Some pass finds the pair. -/
def LinkedAt (a b : Fin events.length) : Prop :=
  foundSims cfg embed events (a, b) ≠ []

instance (a b : Fin events.length) : Decidable (LinkedAt cfg embed events a b) :=
  inferInstanceAs (Decidable (_ ≠ []))

/-- The best similarity of a pair. -/
def bestSim (key : Fin events.length × Fin events.length) : ℚ :=
  (foundSims cfg embed events key).foldl max f32Min

/-- The best similarities of the linked pairs of some positions. -/
def groupSims (members : List (Fin events.length)) : List ℚ :=
  ((pairs members).filter fun key => LinkedAt cfg embed events key.1 key.2).map
    (bestSim cfg embed events)

/-- All positions that chains of links join to one of them, in the order of the batch. -/
structure LinkedGroup (members : List (Fin events.length)) : Prop where
  ordered : members.Pairwise (· < ·)
  connected : ∃ i, ∀ j, j ∈ members ↔ Relation.EqvGen (LinkedAt cfg embed events) j i

/-- A group of two events or more that spans enough domains. -/
structure Reported (members : List (Fin events.length)) : Prop where
  group : LinkedGroup cfg embed events members
  size : 2 ≤ members.length
  domains : cfg.requireCrossDomain = true → 2 ≤ (classNames (inOrder events members)).length

/-- Domains, half a point for each further event, and the mean similarity. -/
def groupScore (members : List (Fin events.length)) : ℚ :=
  let sims := groupSims cfg embed events members
  (classNames (inOrder events members)).length + (members.length - 1) * (1 / 2) +
    max (if sims.isEmpty then 0 else sims.sum / sims.length) 0

/-- Two groups of which the same ids, class names and number of links are reported. -/
structure Alike (left right : List (Fin events.length)) : Prop where
  ids : (inOrder events left).map Event.id = (inOrder events right).map Event.id
  domains : classNames (inOrder events left) = classNames (inOrder events right)
  links : (groupSims cfg embed events left).length = (groupSims cfg embed events right).length

variable {cfg embed events} (ids : Fin events.length → HashOrder String)

/-- What is recorded does not depend on the orders of the hash sets. -/
theorem lookup_collectLinks (key : Fin events.length × Fin events.length) :
    (collectLinks cfg embed events ids).lookup key =
      if foundSims cfg embed events key = [] then none
      else some (bestSim cfg embed events key,
        decide ((events.get key.1).ocsfClass.uid ≠ (events.get key.2).ocsfClass.uid)) := by
  have same :=
    @simsOf_perm cfg events _ _ (@allCalls_perm cfg embed events ids fun _ => .inserted _) key
  rw [collectLinks_eq, lookup_recordCalls, bestSim, foundSims, same.foldl_op_eq]
  refine if_congr ?_ rfl rfl
  rw [← List.length_eq_zero_iff, same.length_eq, List.length_eq_zero_iff]

theorem LinkedAt.lt {a b : Fin events.length} (linked : LinkedAt cfg embed events a b) : a < b := by
  rcases List.exists_mem_of_ne_nil _ linked with ⟨sim, member⟩
  rcases List.mem_map.mp member with ⟨call, hit, -⟩
  rcases of_decide_eq_true (List.mem_filter.mp hit).2 with ⟨different, -, isPair⟩
  rw [sortedPair] at isPair
  split at isPair
  · next less =>
      cases isPair
      exact less
  · next notLess =>
      cases isPair
      exact lt_of_le_of_ne (le_of_not_gt notLess) different.symm

variable {links : List (Sigma fun _ : Fin events.length × Fin events.length => ℚ × Bool)}

theorem mem_keys (same : links.Perm (collectLinks cfg embed events ids).entries)
    (a b : Fin events.length) :
    (a, b) ∈ links.map Sigma.fst ↔ LinkedAt cfg embed events a b := by
  rw [(same.map Sigma.fst).mem_iff]
  change (a, b) ∈ collectLinks cfg embed events ids ↔ _
  rw [← AList.lookup_isSome, lookup_collectLinks, LinkedAt]
  split
  · next none_ => exact iff_of_false Bool.false_ne_true fun some_ => some_ none_
  · next some_ => exact iff_of_true rfl some_

theorem weight_eq (same : links.Perm (collectLinks cfg embed events ids).entries) :
    ∀ link, link ∈ links → link.2.1 = bestSim cfg embed events link.1 := by
  rintro ⟨key, value⟩ member
  have found := AList.mem_lookup_iff.mpr (same.subset member)
  rw [Option.mem_def, lookup_collectLinks] at found
  split at found
  · cases found
  · exact (congrArg Prod.fst (Option.some.inj found)).symm

/-- What is said about a group, if it is reported. -/
theorem candidate_group (same : links.Perm (collectLinks cfg embed events ids).entries)
    {members : List (Fin events.length)} (ordered : members.Pairwise (· < ·)) :
    candidate cfg events links members =
      if (inOrder events members).length < 2 then none
      else if
        cfg.requireCrossDomain = true ∧ (classNames (inOrder events members)).length < 2 then none
      else some (described (inOrder events members) (groupSims cfg embed events members)) := by
  apply candidate_of_perm
  refine edgeSims_perm ?_ (fun a b => ?_) (weight_eq ids same) ordered
  · exact (same.map Sigma.fst).nodup_iff.mpr (collectLinks cfg embed events ids).nodupKeys
  · rw [mem_keys ids same]
    exact ⟨fun linked => ⟨linked.lt, linked⟩, And.right⟩

/-! ## The classes that are gone through -/

/-- The lists that the disjoint sets are collected in. -/
def collected (cfg : CampaignConfig) (embed : Event → List ℚ) (events : List Event)
    (orders : HashOrders events.length) : List (List (Fin events.length)) :=
  (components (unionAll ((orders.links.run (collectLinks cfg embed events orders.ids).entries).map
    Sigma.fst))).entries.map Sigma.snd

theorem nodup_components {n : Nat} {dsu : Dsu n} {root : Fin n → Fin n}
    (leads : Leads dsu.parent root) : ((components dsu).entries.map Sigma.snd).Nodup := by
  rw [List.Nodup, List.pairwise_map]
  apply (List.nodupKeys_iff_pairwise.mp (components dsu).nodupKeys).imp_of_mem
  rintro ⟨r, left⟩ ⟨r', right⟩ inEntries inEntries' different same
  rcases (mem_components leads).mp inEntries with ⟨i, rfl, rfl⟩
  rcases (mem_components leads).mp inEntries' with ⟨j, rfl, rfl⟩
  have equal : classOf root i = classOf root j := same
  have inRight : i ∈ classOf root j := equal ▸ mem_classOf.mpr rfl
  exact different (mem_classOf.mp inRight)

variable (orders : HashOrders events.length)

/-- They are the groups of linked events, each of them once. -/
theorem collected_spec : (collected cfg embed events orders).Nodup ∧
    ∀ members, members ∈ collected cfg embed events orders ↔
      LinkedGroup cfg embed events members := by
  have same := orders.links.perm (collectLinks cfg embed events orders.ids).entries
  rcases unionAll_classes ((orders.links.run (collectLinks cfg embed events orders.ids).entries).map
    Sigma.fst) with ⟨root, leads, classes⟩
  have joined : Classes root (LinkedAt cfg embed events) :=
    classes.congr fun a b => mem_keys orders.ids same a b
  have ordered : ∀ i, (classOf root i).Pairwise (· < ·) :=
    fun i => (List.pairwise_lt_finRange _).filter _
  refine ⟨nodup_components leads, fun members => ?_⟩
  constructor
  · intro member
    rcases List.mem_map.mp member with ⟨⟨r, members⟩, inEntries, rfl⟩
    rcases (mem_components leads).mp inEntries with ⟨i, rfl, rfl⟩
    refine ⟨ordered i, i, fun j => ?_⟩
    rw [mem_classOf]
    exact joined j i
  · intro group
    rcases group.connected with ⟨i, isMember⟩
    have isClass : members = classOf root i := by
      refine group.ordered.eq_of_mem_iff (ordered i) fun j => ?_
      rw [isMember, mem_classOf]
      exact (joined j i).symm
    exact List.mem_map.mpr ⟨⟨root i, members⟩,
      (mem_components leads).mpr ⟨i, rfl, isClass⟩, rfl⟩

theorem collected_perm (orders orders' : HashOrders events.length) :
    (collected cfg embed events orders).Perm (collected cfg embed events orders') := by
  have first := @collected_spec cfg embed events orders
  have second := @collected_spec cfg embed events orders'
  rw [List.perm_ext_iff_of_nodup first.1 second.1]
  exact fun members => (first.2 members).trans (second.2 members).symm

/-- What is said about the members of a class, if anything. -/
def reportOf (cfg : CampaignConfig) (embed : Event → List ℚ) (events : List Event)
    (members : List (Fin events.length)) : Option CampaignCandidate :=
  if (inOrder events members).length < 2 then none
  else if
    cfg.requireCrossDomain = true ∧ (classNames (inOrder events members)).length < 2 then none
  else some (described (inOrder events members) (groupSims cfg embed events members))

theorem gathered_eq : gathered cfg embed events orders =
    (orders.comps.run (collected cfg embed events orders)).filterMap
      (reportOf cfg embed events) := by
  refine List.filterMap_congr fun members member => ?_
  have group := ((collected_spec orders).2 members).mp (orders.comps.mem.mp member)
  exact candidate_group orders.ids (orders.links.perm _) group.ordered

theorem length_inOrder (members : List (Fin events.length)) :
    (inOrder events members).length = members.length := by
  rw [(inOrder_perm members).length_eq, List.length_map]

theorem reportOf_eq_some {members : List (Fin events.length)} {c : CampaignCandidate}
    (group : LinkedGroup cfg embed events members) :
    reportOf cfg embed events members = some c ↔ Reported cfg embed events members ∧
      described (inOrder events members) (groupSims cfg embed events members) = c := by
  rw [reportOf, length_inOrder]
  constructor
  · intro isReport
    split at isReport
    · cases isReport
    · next size =>
        split at isReport
        · cases isReport
        · next domains =>
            refine ⟨⟨group, Nat.le_of_not_lt size, fun required => ?_⟩,
              Option.some.inj isReport⟩
            exact Nat.le_of_not_lt fun few => domains ⟨required, few⟩
  · rintro ⟨reported, rfl⟩
    rw [if_neg (Nat.not_lt_of_le reported.size), if_neg]
    exact fun few => absurd (reported.domains few.1) (Nat.not_le_of_lt few.2)

theorem score_described (members : List (Fin events.length)) :
    (described (inOrder events members) (groupSims cfg embed events members)).score =
      groupScore cfg embed events members := by
  rw [groupScore, ← length_inOrder members]
  rfl

/-- Groups of one score are described as the same candidate exactly if they are alike. -/
theorem described_eq_iff {left right : List (Fin events.length)}
    (tie : groupScore cfg embed events left = groupScore cfg embed events right) :
    described (inOrder events left) (groupSims cfg embed events left) =
        described (inOrder events right) (groupSims cfg embed events right) ↔
      Alike cfg embed events left right := by
  constructor
  · intro same
    exact ⟨congrArg CampaignCandidate.events same, congrArg CampaignCandidate.domains same,
      congrArg CampaignCandidate.links same⟩
  · intro alike
    rw [← score_described left, ← score_described right] at tie
    exact CampaignCandidate.mk.injEq .. |>.mpr ⟨rfl, alike.ids, alike.domains, alike.links, tie⟩

/-! ## The order of the candidates -/

theorem buildCampaigns_eq_numbered (orders : HashOrders events.length) :
    buildCampaigns cfg embed events orders =
      (sortDown CampaignCandidate.score (gathered cfg embed events orders)).zipIdx.map
        fun pair => { pair.1 with id := pair.2 } :=
  rfl

/-- The candidates are the same for two orders of the hash maps exactly if their sorted lists
are. -/
theorem buildCampaigns_eq_iff (orders orders' : HashOrders events.length) :
    buildCampaigns cfg embed events orders = buildCampaigns cfg embed events orders' ↔
      sortDown CampaignCandidate.score (gathered cfg embed events orders) =
        sortDown CampaignCandidate.score (gathered cfg embed events orders') := by
  constructor
  · intro same
    have plain := congrArg unnumbered same
    rw [unnumbered_eq, unnumbered_eq] at plain
    exact plain
  · intro same
    rw [buildCampaigns_eq_numbered, buildCampaigns_eq_numbered, same]

theorem gathered_perm (orders orders' : HashOrders events.length) :
    (gathered cfg embed events orders).Perm (gathered cfg embed events orders') := by
  rw [gathered_eq, gathered_eq]
  have first := orders.comps.perm (collected cfg embed events orders)
  have second := orders'.comps.perm (collected cfg embed events orders')
  exact (first.trans ((collected_perm orders orders').trans second.symm)).filterMap _

/-- What is gathered are the descriptions of the reported groups. -/
theorem mem_gathered {c : CampaignCandidate} :
    c ∈ gathered cfg embed events orders ↔ ∃ members, Reported cfg embed events members ∧
      described (inOrder events members) (groupSims cfg embed events members) = c := by
  rw [gathered_eq, List.mem_filterMap]
  refine exists_congr fun members => ?_
  rw [orders.comps.mem, (collected_spec orders).2]
  constructor
  · rintro ⟨group, isReport⟩
    exact (reportOf_eq_some group).mp isReport
  · rintro ⟨reported, isDescription⟩
    exact ⟨reported.group, (reportOf_eq_some reported.group).mpr ⟨reported, isDescription⟩⟩

/-- Two reported groups can stand next to each other in either order, in front of all others. -/
theorem gathered_swap {left right : List (Fin events.length)} (different : left ≠ right)
    (reported : Reported cfg embed events left) (reported' : Reported cfg embed events right) :
    ∃ orders orders' rest,
      gathered cfg embed events orders =
        described (inOrder events left) (groupSims cfg embed events left) ::
          described (inOrder events right) (groupSims cfg embed events right) :: rest ∧
      gathered cfg embed events orders' =
        described (inOrder events right) (groupSims cfg embed events right) ::
          described (inOrder events left) (groupSims cfg embed events left) :: rest := by
  let orders := HashOrders.inserted events.length
  have inFirst := ((@collected_spec cfg embed _ orders).2 left).mpr reported.group
  have inSecond := ((@collected_spec cfg embed _ orders).2 right).mpr reported'.group
  have isFirst := (reportOf_eq_some reported.group).mpr ⟨reported, rfl⟩
  have isSecond := (reportOf_eq_some reported'.group).mpr ⟨reported', rfl⟩
  rcases HashOrder.lead_swap different inFirst inSecond with ⟨rest, forth, back⟩
  refine ⟨{ orders with comps := .lead left right }, { orders with comps := .lead right left },
    rest.filterMap (reportOf cfg embed events), ?_, ?_⟩
  · rw [gathered_eq]
    change ((HashOrder.lead left right).run (collected cfg embed events orders)).filterMap _ = _
    rw [forth, List.filterMap_cons_some isFirst, List.filterMap_cons_some isSecond]
  · rw [gathered_eq]
    change ((HashOrder.lead right left).run (collected cfg embed events orders)).filterMap _ = _
    rw [back, List.filterMap_cons_some isSecond, List.filterMap_cons_some isFirst]

/-- Groups of one score are alike when the list is the same for all orders of the hash maps. -/
theorem alike_of_same (same : ∀ orders orders' : HashOrders events.length,
      buildCampaigns cfg embed events orders = buildCampaigns cfg embed events orders')
    {left right : List (Fin events.length)} (reported : Reported cfg embed events left)
    (reported' : Reported cfg embed events right)
    (tie : groupScore cfg embed events left = groupScore cfg embed events right) :
    Alike cfg embed events left right := by
  by_cases equal : left = right
  · rw [equal]
    exact ⟨rfl, rfl, rfl⟩
  · -- two orders that differ in which of the two groups comes first
    rcases gathered_swap equal reported reported' with ⟨orders, orders', rest, forth, back⟩
    have swapped := (buildCampaigns_eq_iff orders orders').mp (same orders orders')
    rw [forth, back] at swapped
    rw [← described_eq_iff tie]
    refine eq_of_sortDown_swap ?_ swapped
    rw [score_described, score_described, tie]

/-- The list of candidates is the same for all orders of the hash maps exactly if groups of one
score are alike. -/
theorem buildCampaigns_reproducible_iff (cfg : CampaignConfig) (embed : Event → List ℚ)
    (events : List Event) :
    (∀ orders orders' : HashOrders events.length,
      buildCampaigns cfg embed events orders = buildCampaigns cfg embed events orders') ↔
    ∀ left, Reported cfg embed events left → ∀ right, Reported cfg embed events right →
      groupScore cfg embed events left = groupScore cfg embed events right →
        Alike cfg embed events left right := by
  constructor
  · exact fun same left reported right reported' tie => alike_of_same same reported reported' tie
  · intro alike orders orders'
    rw [buildCampaigns_eq_iff]
    refine sortDown_eq_of_perm (fun c inList d inList' tie => ?_) (gathered_perm orders orders')
    rcases (mem_gathered orders).mp inList with ⟨left, reported, rfl⟩
    rcases (mem_gathered orders).mp inList' with ⟨right, reported', rfl⟩
    rw [score_described, score_described] at tie
    exact (described_eq_iff tie).mpr (alike left reported right reported' tie)

/-- Two pairs of related events have one score, and what comes first is left to a hash map. -/
theorem twoPairs_not_reproducible :
    ¬ ∀ orders orders' : HashOrders twoPairs.length,
      buildCampaigns entityConfig (fun _ => [1]) twoPairs orders =
        buildCampaigns entityConfig (fun _ => [1]) twoPairs orders' := by
  intro same
  have numbers := congrArg (List.map fun c : CampaignCandidate => (c.id, c.events))
    (same (.inserted _) (.backward _))
  rw [number_follows_hash_order.1, number_follows_hash_order.2] at numbers
  revert numbers
  decide

end Groups

/-! ## Components of two classes

A component is to be reported when it spans two classes where that is required.  It is reported
when it spans two class names, and its number is its place among the candidates. -/

section Classes

variable {cfg : CampaignConfig} {embed : Event → List ℚ} {events : List Event}

/-- Two of the events have different classes. -/
def TwoClasses (members : List Event) : Prop :=
  ∃ a ∈ members, ∃ b ∈ members, a.ocsfClass.uid ≠ b.ocsfClass.uid

/-- Two of the events have classes of different names. -/
def TwoNames (members : List Event) : Prop :=
  ∃ a ∈ members, ∃ b ∈ members, classToken a.ocsfClass ≠ classToken b.ocsfClass

/-- A component that should become a candidate. -/
structure Candidate (cfg : CampaignConfig) (events members : List Event) : Prop where
  component : IsComponent cfg events members
  size : 2 ≤ members.length
  classes : cfg.requireCrossDomain = true → TwoClasses members

/-- The number of related pairs of some events. -/
def relatedPairs (cfg : CampaignConfig) (members : List Event) : Nat :=
  ((pairs members).filter fun pair => Related cfg pair.1 pair.2).length

/-- The candidates are the components of two classes, with their events in the order of time and
the number of their related pairs; no two share an event, and which candidates there are depends
neither on the order of the events nor on that of the hash maps. -/
structure AreComponents (cfg : CampaignConfig) (embed : Event → List ℚ) (events : List Event) :
    Prop where
  exact : ∀ orders ids links,
    (∃ c ∈ buildCampaigns cfg embed events orders, c.events = ids ∧ c.links = links) ↔
      ∃ members, Candidate cfg events members ∧ members.map Event.id = ids ∧
        relatedPairs cfg members = links
  apart : ∀ orders, (buildCampaigns cfg embed events orders).Pairwise Apart
  independent : ∀ orders, ∀ events' : List Event, events'.Perm events → ∀ orders', ∀ c,
    c ∈ buildCampaigns cfg embed events' orders' ↔ c ∈ buildCampaigns cfg embed events orders

theorem two_le_classNames_iff {members : List Event} :
    2 ≤ (classNames members).length ↔ TwoNames members := by
  rw [classNames, (List.perm_insertionSort _ _).length_eq, ← List.card_toFinset]
  refine Finset.one_lt_card.trans ?_
  simp [TwoNames]

theorem length_similarities (members : List Event) :
    (similarities cfg embed members).length = relatedPairs cfg members := by
  rw [similarities, relatedPairs, List.length_filterMap_eq_countP, List.countP_eq_length_filter]
  congr 1
  refine List.filter_congr fun pair _ => ?_
  by_cases related : Related cfg pair.1 pair.2 <;> simp [related]

/-- Events of the batch are told by their ids. -/
theorem eq_of_ids (distinct : DistinctIds events) {left right : List Event}
    (inLeft : ∀ e ∈ left, e ∈ events) (inRight : ∀ e ∈ right, e ∈ events)
    (same : left.map Event.id = right.map Event.id) : left = right := by
  induction left generalizing right with
  | nil => exact (List.map_eq_nil_iff.mp same.symm).symm
  | cons e left inductionHypothesis =>
      cases right with
      | nil => cases same
      | cons e' right =>
          rcases List.cons.inj same with ⟨first, rest⟩
          rcases List.forall_mem_cons.mp inLeft with ⟨inEvents, others⟩
          rcases List.forall_mem_cons.mp inRight with ⟨inEvents', others'⟩
          rw [List.inj_on_of_nodup_map distinct inEvents inEvents' first,
            inductionHypothesis others others' rest]

theorem IsComponent.subset {members : List Event} (component : IsComponent cfg events members) :
    ∀ e ∈ members, e ∈ events := by
  rcases component.connected with ⟨_, _, isMember⟩
  exact fun e member => ((isMember e).mp member).1

/-- The numbers are the places. -/
theorem ids_buildCampaigns (orders : HashOrders events.length) :
    (buildCampaigns cfg embed events orders).Pairwise fun c d => c.id < d.id := by
  have ids : (buildCampaigns cfg embed events orders).map CampaignCandidate.id =
      List.range' 0 ((gathered cfg embed events orders).insertionSort
        fun a b => b.score ≤ a.score).length := by
    rw [← List.zipIdx_map_snd, buildCampaigns, List.map_map]
    rfl
  rw [← List.pairwise_map, ids]
  exact List.pairwise_lt_range'

/-- Lists of the same numbered candidates are the same. -/
theorem buildCampaigns_eq_of_mem_iff {orders orders' : HashOrders events.length}
    (same : ∀ c, c ∈ buildCampaigns cfg embed events orders ↔
      c ∈ buildCampaigns cfg embed events orders') :
    buildCampaigns cfg embed events orders = buildCampaigns cfg embed events orders' := by
  have irrefl : Std.Irrefl fun c d : CampaignCandidate => c.id < d.id :=
    ⟨fun c => lt_irrefl c.id⟩
  have antisymm : Std.Antisymm fun c d : CampaignCandidate => c.id < d.id :=
    ⟨fun c d below above => absurd below (lt_asymm above)⟩
  exact (ids_buildCampaigns orders).eq_of_mem_iff (ids_buildCampaigns orders') same

section Entities

variable (entity : cfg.entityLinks = true) (semantic : cfg.semanticLinks = false)
  (distinct : DistinctIds events) (fit : DifferencesFit events)

include entity semantic distinct fit

omit entity semantic distinct fit in
/-- What a candidate reports, read off the description it stands for. -/
theorem reported_eq {c : CampaignCandidate} {members : List Event}
    (same : { c with id := 0 } = summary cfg embed members) :
    c.events = members.map Event.id ∧ c.links = (similarities cfg embed members).length := by
  have isEvents := congrArg CampaignCandidate.events same
  have isLinks := congrArg CampaignCandidate.links same
  exact ⟨isEvents, isLinks⟩

/-- The candidates report the components of two class names. -/
theorem exists_reporting_iff (orders : HashOrders events.length) (ids : List String) (links : Nat) :
    (∃ c ∈ buildCampaigns cfg embed events orders, c.events = ids ∧ c.links = links) ↔
      ∃ members, Qualifies cfg events members ∧ members.map Event.id = ids ∧
        relatedPairs cfg members = links := by
  have isCandidate := @mem_buildCampaigns cfg embed events entity semantic distinct fit orders
  constructor
  · rintro ⟨c, member, rfl, rfl⟩
    rcases (isCandidate { c with id := 0 }).mp (List.mem_map_of_mem member) with
      ⟨members, qualifies, same⟩
    rcases reported_eq same with ⟨isEvents, isLinks⟩
    exact ⟨members, qualifies, isEvents.symm,
      (isLinks.trans (length_similarities members)).symm⟩
  · rintro ⟨members, qualifies, rfl, rfl⟩
    rcases List.mem_map.mp ((isCandidate _).mpr ⟨members, qualifies, rfl⟩) with
      ⟨c, member, same⟩
    rcases reported_eq same with ⟨isEvents, isLinks⟩
    exact ⟨c, member, isEvents, isLinks.trans (length_similarities members)⟩

/-- Components of one score are one component when the candidates are the same for all orders of
the hash maps. -/
theorem eq_of_score (same : ∀ orders orders' : HashOrders events.length,
      buildCampaigns cfg embed events orders = buildCampaigns cfg embed events orders')
    {left right : List Event} (qualifies : Qualifies cfg events left)
    (qualifies' : Qualifies cfg events right)
    (tie : (summary cfg embed left).score = (summary cfg embed right).score) : left = right := by
  have reported : ∀ {members}, Qualifies cfg events members → ∃ places,
      Reported cfg embed events places ∧ described (inOrder events places)
        (groupSims cfg embed events places) = summary cfg embed members := by
    intro members qualifies
    have member : summary cfg embed members ∈
        unnumbered (buildCampaigns cfg embed events (.inserted _)) :=
      (mem_buildCampaigns entity semantic distinct fit (.inserted _) _).mpr
        ⟨members, qualifies, rfl⟩
    exact (mem_gathered _).mp ((unnumbered_buildCampaigns _).mem_iff.mp member)
  rcases reported qualifies with ⟨places, isReported, isLeft⟩
  rcases reported qualifies' with ⟨places', isReported', isRight⟩
  rw [← isLeft, ← isRight, score_described, score_described] at tie
  have alike := (described_eq_iff tie).mpr (alike_of_same same isReported isReported' tie)
  rw [isLeft, isRight] at alike
  exact eq_of_ids distinct qualifies.component.subset qualifies'.component.subset
    (congrArg CampaignCandidate.events alike)

end Entities

end Classes

end Correlate
end Sigil
