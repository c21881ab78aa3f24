import Mathlib.Algebra.BigOperators.Group.List.Basic
import Sigil.Correlate.Campaign
import Sigil.Library.Pairs

namespace Sigil
namespace Correlate

/-!
# Campaign candidates are connected components

The links of a batch are the pairs of events that share an entity within the window.  The
disjoint sets have the classes that the links generate, and the candidates are these classes,
whatever the order of the batch and of the hash maps.
-/

open Sigil.Core Sigil.Graph Library

/-! ## Positions -/

section Positions

variable {α : Type} {κ : Type} [DecidableEq κ] {key : α → κ}

/-- A map that is filled with the elements of a list under their keys. -/
theorem lookup_fill (injective : Function.Injective key) (list : List α)
    (map : AList fun _ : κ => α) (x : α) :
    (list.foldl (fun map y => map.insert (key y) y) map).lookup (key x) = some x ↔
      x ∈ list ∨ map.lookup (key x) = some x := by
  induction list generalizing map with
  | nil => exact ⟨Or.inr, fun both => both.resolve_left List.not_mem_nil⟩
  | cons y list inductionHypothesis =>
      rw [List.foldl_cons, inductionHypothesis, List.mem_cons]
      by_cases same : x = y
      · subst same
        rw [AList.lookup_insert]
        exact ⟨fun _ => Or.inl (Or.inl rfl), fun _ => Or.inr rfl⟩
      · rw [AList.lookup_insert_ne (fun equal => same (injective equal))]
        constructor
        · rintro (inList | old)
          · exact Or.inl (Or.inr inList)
          · exact Or.inr old
        · rintro ((equal | inList) | old)
          · exact absurd equal same
          · exact Or.inl inList
          · exact Or.inr old

/-- What is found under a key has the key. -/
theorem key_of_lookup_fill (list : List α) {map : AList fun _ : κ => α}
    (good : ∀ k x, map.lookup k = some x → key x = k) {k : κ} {x : α}
    (found : (list.foldl (fun map y => map.insert (key y) y) map).lookup k = some x) :
    key x = k := by
  induction list generalizing map with
  | nil => exact good k x found
  | cons y list inductionHypothesis =>
      apply inductionHypothesis _ found
      intro k' x' found'
      by_cases same : k' = key y
      · subst same
        rw [AList.lookup_insert, Option.some.injEq] at found'
        rw [found']
      · rw [AList.lookup_insert_ne same] at found'
        exact good k' x' found'

end Positions

variable {cfg : CampaignConfig} {embed : Event → List ℚ} {events : List Event}

/-- The ids of a batch are pairwise distinct. -/
def DistinctIds (events : List Event) : Prop :=
  (events.map Event.id).Nodup

theorem DistinctIds.injective (distinct : DistinctIds events) :
    Function.Injective fun i : Fin events.length => (events.get i).id := by
  intro i j same
  apply Fin.ext
  have bound : ∀ k : Fin events.length, (k : Nat) < (events.map Event.id).length := by
    intro k
    rw [List.length_map]
    exact k.isLt
  apply (@List.Nodup.getElem_inj_iff _ _ distinct i (bound i) j (bound j)).mp
  rw [List.getElem_map, List.getElem_map]
  exact same

theorem lookup_positions (distinct : DistinctIds events) {id : String} {j : Fin events.length} :
    (positions events).lookup id = some j ↔ (events.get j).id = id := by
  constructor
  · intro found
    refine @key_of_lookup_fill _ _ _ (fun i : Fin events.length =>
      (events.get i).id) _ _ ?_ _ _ found
    intro k x impossible
    rw [AList.lookup_empty] at impossible
    cases impossible
  · rintro rfl
    exact (lookup_fill distinct.injective _ ∅ j).mpr (Or.inl (List.mem_finRange j))

/-! ## Links -/

/-- The pair of two positions, the smaller one first. -/
def sortedPair {n : Nat} (a b : Fin n) : Fin n × Fin n :=
  if a < b then (a, b) else (b, a)

/-- The two events lie within the window, as the machine computes it. -/
def InWindow (cfg : CampaignConfig) (a b : Event) : Prop :=
  absI64 (toI64 (a.ts - b.ts)) ≤ cfg.windowMicros

/-- A link between two events. -/
def similarity (embed : Event → List ℚ) (a b : Event) : ℚ :=
  max f32Min (dot (embed a) (embed b))

theorem dot_comm (a b : List ℚ) : dot a b = dot b a := by
  unfold dot
  rw [List.zipWith_comm]
  exact congrArg List.sum (congrArg (fun f => List.zipWith f b a) (funext fun x =>
    funext fun y => mul_comm y x))

theorem similarity_comm (a b : Event) : similarity embed a b = similarity embed b a := by
  unfold similarity
  rw [dot_comm]

theorem mem_record (a b : Fin events.length) (sim : ℚ) (links : Links events.length)
    (key : Fin events.length × Fin events.length) :
    key ∈ record cfg events a b sim links ↔ key ∈ links ∨
      a ≠ b ∧ InWindow cfg (events.get a) (events.get b) ∧ key = sortedPair a b := by
  unfold record
  split
  · next same => exact ⟨Or.inl, fun both => both.resolve_right fun new => new.1 same⟩
  · next different =>
      split
      · next far =>
          exact ⟨Or.inl, fun both => both.resolve_right fun new =>
            absurd new.2.1 (not_le_of_gt far)⟩
      · next near =>
          rw [AList.mem_insert, or_comm]
          refine or_congr_right ?_
          exact ⟨fun isPair => ⟨different, le_of_not_gt near, isPair⟩, fun new => new.2.2⟩

/-- Every link has the similarity of its two events. -/
def Weighted (embed : Event → List ℚ) (events : List Event)
    (links : Links events.length) : Prop :=
  ∀ key value, links.lookup key = some value →
    value.1 = similarity embed (events.get key.1) (events.get key.2)

theorem Weighted.record {links : Links events.length} (weighted : Weighted embed events links)
    (a b : Fin events.length) :
    Weighted embed events (record cfg events a b (dot (embed (events.get a))
      (embed (events.get b))) links) := by
  unfold Correlate.record
  split
  · exact weighted
  · split
    · exact weighted
    · intro key value found
      by_cases here : key = if a < b then (a, b) else (b, a)
      · have both : similarity embed (events.get key.1) (events.get key.2) =
            similarity embed (events.get a) (events.get b) := by
          subst here
          split
          · rfl
          · exact similarity_comm _ _
        subst here
        rw [AList.lookup_insert, Option.some.injEq] at found
        rw [← found, both]
        dsimp only
        -- the best similarity so far is the lowest number or this one
        have before : ∀ entry, links.lookup (if a < b then (a, b) else (b, a)) = entry →
            (entry.getD (f32Min, decide ((events.get a).ocsfClass.uid ≠
              (events.get b).ocsfClass.uid))).1 = f32Min ∨
              (entry.getD (f32Min, decide ((events.get a).ocsfClass.uid ≠
                (events.get b).ocsfClass.uid))).1 =
                similarity embed (events.get a) (events.get b) := by
          intro entry isEntry
          cases entry with
          | none => exact Or.inl rfl
          | some old => exact Or.inr ((weighted _ old isEntry).trans both)
        rcases before _ rfl with lowest | known
        · rw [lowest]
          unfold similarity
          split
          · next above => exact (max_eq_right (le_of_lt above)).symm
          · next below => exact (max_eq_left (le_of_not_gt below)).symm
        · rw [known]
          unfold similarity
          rw [if_neg (not_lt_of_ge (le_max_right _ _))]
      · rw [AList.lookup_insert_ne here] at found
        exact weighted key value found

/-- The calls that record links, one after another. -/
def recordAll (cfg : CampaignConfig) (embed : Event → List ℚ) (events : List Event)
    (calls : List (Fin events.length × Fin events.length)) (links : Links events.length) :
    Links events.length :=
  calls.foldl (fun links call =>
    record cfg events call.1 call.2
      (dot (embed (events.get call.1)) (embed (events.get call.2))) links) links

theorem mem_recordAll (calls : List (Fin events.length × Fin events.length))
    (links : Links events.length) (key : Fin events.length × Fin events.length) :
    key ∈ recordAll cfg embed events calls links ↔
      key ∈ links ∨ ∃ call, call ∈ calls ∧
      call.1 ≠ call.2 ∧ InWindow cfg (events.get call.1) (events.get call.2) ∧
        key = sortedPair call.1 call.2 := by
  induction calls generalizing links with
  | nil =>
      refine ⟨Or.inl, ?_⟩
      rintro (old | ⟨call, impossible, -⟩)
      · exact old
      · exact absurd impossible List.not_mem_nil
  | cons first calls inductionHypothesis =>
      change key ∈ recordAll cfg embed events calls
        (record cfg events first.1 first.2 _ links) ↔ _
      rw [inductionHypothesis, mem_record]
      constructor
      · rintro ((old | new) | ⟨call, member, new⟩)
        · exact Or.inl old
        · exact Or.inr ⟨first, List.mem_cons_self, new⟩
        · exact Or.inr ⟨call, List.mem_cons_of_mem _ member, new⟩
      · rintro (old | ⟨call, member, new⟩)
        · exact Or.inl (Or.inl old)
        · rcases List.mem_cons.mp member with rfl | later
          · exact Or.inl (Or.inr new)
          · exact Or.inr ⟨call, later, new⟩

theorem Weighted.recordAll {links : Links events.length} (weighted : Weighted embed events links)
    (calls : List (Fin events.length × Fin events.length)) :
    Weighted embed events (recordAll cfg embed events calls links) := by
  induction calls generalizing links with
  | nil => exact weighted
  | cons first calls inductionHypothesis =>
      exact inductionHypothesis (weighted.record first.1 first.2)

/-- The calls of the pass over the provenance graph. -/
def entityCalls (events : List Event) (ids : Fin events.length → HashOrder String) :
    List (Fin events.length × Fin events.length) :=
  (List.finRange events.length).flatMap fun i =>
    ((ids i).run ((provenance events).coEntityEvents (events.get i))).filterMap fun id =>
      ((positions events).lookup id).map (Prod.mk i)

theorem entityLinks_eq (ids : Fin events.length → HashOrder String)
    (links : Links events.length) :
    entityLinks cfg embed events ids links =
      recordAll cfg embed events (entityCalls events ids) links := by
  unfold entityLinks recordAll entityCalls
  rw [List.foldl_flatMap]
  congr 1
  funext links i
  rw [List.foldl_filterMap]
  congr 1
  funext links id
  cases (positions events).lookup id with
  | none => rfl
  | some j => rfl

theorem mem_entityCalls (distinct : DistinctIds events)
    (ids : Fin events.length → HashOrder String) {i j : Fin events.length} :
    (i, j) ∈ entityCalls events ids ↔ i ≠ j ∧ ShareEntity (events.get i)
    (events.get j) := by
  unfold entityCalls
  rw [List.mem_flatMap]
  have found : ∀ id, id ∈ (provenance events).coEntityEvents (events.get i) ↔ _ :=
    mem_coEntityEvents events (events.get i)
  constructor
  · rintro ⟨k, -, member⟩
    rcases List.mem_filterMap.mp member with ⟨id, inSet, isPair⟩
    rcases Option.map_eq_some_iff.mp isPair with ⟨j', lookup, equal⟩
    cases equal
    rcases (found id).mp ((ids i).mem.mp inSet) with ⟨different, other, inEvents, rfl, share⟩
    have atPosition := (lookup_positions distinct).mp lookup
    rcases List.mem_iff_getElem.mp inEvents with ⟨k, bound, rfl⟩
    have same : j = ⟨k, bound⟩ := distinct.injective atPosition
    subst same
    exact ⟨fun equal => different
      (congrArg (fun i : Fin events.length => (events.get i).id) equal).symm, share⟩
  · rintro ⟨different, share⟩
    refine ⟨i, List.mem_finRange i, List.mem_filterMap.mpr ⟨(events.get j).id, ?_, ?_⟩⟩
    · apply (ids i).mem.mpr
      apply (found _).mpr
      refine ⟨fun same => different (distinct.injective same).symm,
        (events.get j), ?_, rfl, share⟩
      exact List.getElem_mem _
    · rw [(lookup_positions distinct).mpr rfl]
      rfl

/-! ## Related events -/

/-- Two events share an entity and lie within the window. -/
def Related (cfg : CampaignConfig) (a b : Event) : Prop :=
  ShareEntity a b ∧ |a.ts - b.ts| ≤ cfg.windowMicros

instance (cfg : CampaignConfig) (a b : Event) : Decidable (Related cfg a b) :=
  inferInstanceAs (Decidable (_ ∧ _))

theorem Related.symm {a b : Event} (related : Related cfg a b) : Related cfg b a := by
  refine ⟨related.1.symm, ?_⟩
  rw [abs_sub_comm]
  exact related.2

/-- The differences of the timestamps are machine integers. -/
def DifferencesFit (events : List Event) : Prop :=
  ∀ a, a ∈ events → ∀ b, b ∈ events → -(2 ^ 63) ≤ a.ts - b.ts ∧ a.ts - b.ts < 2 ^ 63

theorem inWindow_iff (fit : DifferencesFit events) {a b : Event} (inFirst : a ∈ events)
    (inSecond : b ∈ events) : InWindow cfg a b ↔ |a.ts - b.ts| ≤ cfg.windowMicros := by
  have forth := fit a inFirst b inSecond
  have back := fit b inSecond a inFirst
  unfold InWindow absI64
  rw [toI64_of_range forth.1 forth.2, toI64_of_range]
  · exact (by decide : (-(2 ^ 63) : Int) ≤ 0).trans (abs_nonneg _)
  · rw [abs_lt]
    omega

theorem mem_collectLinks (entity : cfg.entityLinks = true) (semantic : cfg.semanticLinks = false)
    (distinct : DistinctIds events) (fit : DifferencesFit events)
    (ids : Fin events.length → HashOrder String) {a b : Fin events.length} :
    (a, b) ∈ collectLinks cfg embed events ids ↔ a < b ∧ Related cfg (events.get a)
    (events.get b) := by
  have window : ∀ {i j : Fin events.length}, InWindow cfg (events.get i) (events.get j) ↔ _ :=
    fun {i j} => inWindow_iff fit (List.getElem_mem i.isLt) (List.getElem_mem j.isLt)
  rw [collectLinks, if_pos entity, semantic, if_neg Bool.false_ne_true,
    entityLinks_eq, mem_recordAll]
  constructor
  · rintro (impossible | ⟨⟨i, j⟩, call, different, near, isPair⟩)
    · exact absurd impossible (AList.notMem_empty _)
    · have share := ((mem_entityCalls distinct ids).mp call).2
      have related : Related cfg (events.get i) (events.get j) := ⟨share, window.mp near⟩
      unfold sortedPair at isPair
      split at isPair
      · next less =>
          cases isPair
          exact ⟨less, related⟩
      · next notLess =>
          cases isPair
          exact ⟨lt_of_le_of_ne (le_of_not_gt notLess) different.symm, related.symm⟩
  · rintro ⟨less, share, near⟩
    have different := ne_of_lt less
    refine Or.inr ⟨(a, b), (mem_entityCalls distinct ids).mpr ⟨different, share⟩, different,
      window.mpr near, ?_⟩
    exact (if_pos less).symm

theorem weighted_collectLinks (entity : cfg.entityLinks = true)
    (semantic : cfg.semanticLinks = false) (ids : Fin events.length → HashOrder String) :
    Weighted embed events (collectLinks cfg embed events ids) := by
  rw [collectLinks, if_pos entity, semantic, if_neg Bool.false_ne_true, entityLinks_eq]
  apply Weighted.recordAll
  intro key value impossible
  rw [AList.lookup_empty] at impossible
  cases impossible

/-! ## Apart sets -/

theorem Dsu.union_leads {n : Nat} {dsu : Dsu n} {root : Fin n → Fin n}
    (leads : Leads dsu.parent root) (a b : Fin n) :
    Leads (dsu.union a b).parent (fun x => if root x = root a then root b else root x) := by
  have first := find_spec leads a
  have second := find_spec first.1 b
  unfold Dsu.union
  dsimp only
  split
  · next same =>
      rw [first.2, second.2] at same
      have unchanged : (fun x => if root x = root a then root b else root x) = root := by
        funext x
        split
        · next inClass => exact same.symm.trans inClass.symm
        · rfl
      rw [unchanged]
      exact second.1
  · next different =>
      rw [first.2, second.2] at different
      dsimp only
      rw [first.2, second.2]
      exact link_leads second.1 different

/-- The disjoint sets have the classes that the pairs generate. -/
theorem unionAll_classes {n : Nat} (links : List (Fin n × Fin n)) :
    ∃ root, Leads (unionAll links).parent root ∧ Classes root fun x y => (x, y) ∈ links := by
  have fold : ∀ (rest done : List (Fin n × Fin n)) (dsu : Dsu n) (root : Fin n → Fin n),
      Leads dsu.parent root → (Classes root fun x y => (x, y) ∈ done) →
      ∃ root', Leads (rest.foldl (fun dsu pair => dsu.union pair.1 pair.2) dsu).parent root' ∧
        Classes root' fun x y => (x, y) ∈ done ++ rest := by
    intro rest
    induction rest with
    | nil =>
        intro done dsu root leads classes
        rw [List.append_nil]
        exact ⟨root, leads, classes⟩
    | cons pair rest inductionHypothesis =>
        intro done dsu root leads classes
        have linked := @Classes.congr _ _ _ (fun x y => (x, y) ∈ done ++ [pair])
          (classes.link pair.1 pair.2)
            fun x y => by rw [List.mem_append, List.mem_singleton, Prod.ext_iff]
        rcases inductionHypothesis (done ++ [pair]) _ _
          (Dsu.union_leads leads pair.1 pair.2) linked with
          ⟨root', leads', classes'⟩
        rw [List.append_assoc] at classes'
        exact ⟨root', leads', classes'⟩
  have start : Classes (id : Fin n → Fin n) fun x y => (x, y) ∈ ([] : List (Fin n × Fin n)) :=
    classes_id.congr fun x y =>
      ⟨False.elim, fun impossible => absurd impossible List.not_mem_nil⟩
  exact fold links [] (.new n) id leads_id start

/-- The elements are collected by their roots. -/
theorem components_eq {n : Nat} {dsu : Dsu n} {root : Fin n → Fin n}
    (leads : Leads dsu.parent root) :
    components dsu = pushAll ∅ ((List.finRange n).map fun i => (root i, i)) := by
  have fold : ∀ (list : List (Fin n)) (dsu : Dsu n) (map : AList fun _ : Fin n => List (Fin n)),
      Leads dsu.parent root →
      (list.foldl (fun state i => ((state.1.find i).1, push state.2 (state.1.find i).2 i))
        (dsu, map)).2 = pushAll map (list.map fun i => (root i, i)) := by
    intro list
    induction list with
    | nil => exact fun _ _ _ => rfl
    | cons i list inductionHypothesis =>
        intro dsu map leads
        have found := Dsu.find_spec leads i
        rw [List.foldl_cons, inductionHypothesis _ _ found.1, found.2]
        rfl
  exact fold _ dsu ∅ leads

/-- The class of an element, in the order of the positions. -/
def classOf {n : Nat} (root : Fin n → Fin n) (i : Fin n) : List (Fin n) :=
  (List.finRange n).filter fun j => root j = root i

theorem mem_classOf {n : Nat} {root : Fin n → Fin n} {i j : Fin n} :
    j ∈ classOf root i ↔ root j = root i := by
  rw [classOf, List.mem_filter, decide_eq_true_eq]
  exact and_iff_right (List.mem_finRange j)

/-- The collected lists are the classes, each of them once. -/
theorem mem_components {n : Nat} {dsu : Dsu n} {root : Fin n → Fin n}
    (leads : Leads dsu.parent root) {r : Fin n} {members : List (Fin n)} :
    ⟨r, members⟩ ∈ (components dsu).entries ↔
      ∃ i, root i = r ∧ members = classOf root i := by
  have collected : ∀ r, ((((List.finRange n).map fun i => (root i, i)).filter
      fun pair => pair.1 = r).map Prod.snd) = (List.finRange n).filter fun j => root j = r := by
    intro r
    rw [List.filter_map, List.map_map]
    exact List.map_id _
  rw [components_eq leads, mem_entries_pushAll, collected]
  constructor
  · rintro ⟨rfl, nonempty⟩
    rcases List.exists_mem_of_ne_nil _ nonempty with ⟨i, member⟩
    have atRoot := of_decide_eq_true (List.mem_filter.mp member).2
    exact ⟨i, atRoot, by rw [classOf, atRoot]⟩
  · rintro ⟨i, rfl, rfl⟩
    exact ⟨rfl, List.ne_nil_of_mem (mem_classOf.mpr rfl)⟩

/-! ## Components of the relation -/

/-- The equivalence that relatedness generates on the events of the batch. -/
def Joined (cfg : CampaignConfig) (events : List Event) : Event → Event → Prop :=
  Relation.EqvGen fun a b => a ∈ events ∧ b ∈ events ∧ Related cfg a b

/-- The roots of the positions are equal exactly for joined events. -/
theorem root_eq_iff {root : Fin events.length → Fin events.length}
    {linked : Fin events.length → Fin events.length → Prop} (classes : Classes root linked)
    (distinct : DistinctIds events)
    (isLink : ∀ i j, linked i j ↔ i < j ∧ Related cfg (events.get i) (events.get j))
    {i j : Fin events.length} : root i = root j ↔
      Joined cfg events (events.get i) (events.get j) := by
  have injective : ∀ {i j : Fin events.length}, (events.get i) = (events.get j) → i = j :=
    fun same => distinct.injective (congrArg Event.id same)
  rw [classes]
  constructor
  · intro generated
    induction generated with
    | rel i j link =>
        exact Relation.EqvGen.rel _ _
          ⟨List.getElem_mem i.isLt, List.getElem_mem j.isLt, ((isLink i j).mp link).2⟩
    | refl i => exact Relation.EqvGen.refl _
    | symm i j _ inductionHypothesis => exact inductionHypothesis.symm
    | trans i j k _ _ left right => exact left.trans _ _ _ right
  · intro joined
    -- a chain of related events is a chain of positions, unless it is empty
    have lift : ∀ x y, Joined cfg events x y → x = y ∨ ∃ i j : Fin events.length,
        (events.get i) = x ∧ (events.get j) = y ∧ Relation.EqvGen linked i j := by
      intro x y joined
      induction joined with
      | rel x y both =>
          rcases both with ⟨inFirst, inSecond, related⟩
          rcases List.mem_iff_getElem.mp inFirst with ⟨a, aBound, rfl⟩
          rcases List.mem_iff_getElem.mp inSecond with ⟨b, bBound, rfl⟩
          refine Or.inr ⟨⟨a, aBound⟩, ⟨b, bBound⟩, rfl, rfl, ?_⟩
          rcases Nat.lt_trichotomy a b with less | rfl | greater
          · exact Relation.EqvGen.rel _ _ ((isLink _ _).mpr ⟨less, related⟩)
          · exact Relation.EqvGen.refl _
          · exact (Relation.EqvGen.rel _ _ ((isLink _ _).mpr ⟨greater, related.symm⟩)).symm
      | refl x => exact Or.inl rfl
      | symm x y _ inductionHypothesis =>
          rcases inductionHypothesis with rfl | ⟨i, j, left, right, chain⟩
          · exact Or.inl rfl
          · exact Or.inr ⟨j, i, right, left, chain.symm⟩
      | trans x y z _ _ first second =>
          rcases first with rfl | ⟨i, j, left, middle, chain⟩
          · exact second
          · rcases second with rfl | ⟨j', k, middle', right, chain'⟩
            · exact Or.inr ⟨i, j, left, middle, chain⟩
            · have same := injective (middle.trans middle'.symm)
              subst same
              exact Or.inr ⟨i, k, left, right, chain.trans _ _ _ chain'⟩
    rcases lift _ _ joined with same | ⟨i', j', left, right, chain⟩
    · rw [injective same]
      exact Relation.EqvGen.refl _
    · rw [injective left, injective right] at chain
      exact chain

/-- The order of the events of a candidate: by time, and by id at equal times. -/
def timeKey (e : Event) : Int ×ₗ String :=
  toLex (e.ts, e.id)

/-- A connected component, in the order of time. -/
structure IsComponent (cfg : CampaignConfig) (events members : List Event) : Prop where
  ordered : members.Pairwise fun a b => timeKey a < timeKey b
  connected : ∃ first, first ∈ events ∧
    ∀ e, e ∈ members ↔ e ∈ events ∧ Joined cfg events first e

/-- The class names of some events. -/
def classNames (members : List Event) : List String :=
  ((members.map fun e => classToken e.ocsfClass).dedup).insertionSort (· ≤ ·)

/-- The similarities of the related pairs of some events. -/
def similarities (cfg : CampaignConfig) (embed : Event → List ℚ)
    (members : List Event) : List ℚ :=
  (pairs members).filterMap fun pair =>
    if Related cfg pair.1 pair.2 then some (similarity embed pair.1 pair.2) else none

/-- What a candidate says about its events. -/
def summary (cfg : CampaignConfig) (embed : Event → List ℚ) (members : List Event) :
    CampaignCandidate :=
  let sims := similarities cfg embed members
  { id := 0
    events := members.map Event.id
    domains := classNames members
    links := sims.length
    score := (classNames members).length + (members.length - 1) * (1 / 2) +
      max (if sims.isEmpty then 0 else sims.sum / sims.length) 0 }

/-! ## One candidate -/

/-- The events at some positions, in the order of time. -/
def inOrder (events : List Event) (members : List (Fin events.length)) : List Event :=
  (members.map fun i => events.get i).insertionSort fun a b => timeKey a ≤ timeKey b

theorem inOrder_perm (members : List (Fin events.length)) :
    (inOrder events members).Perm (members.map fun i => events.get i) :=
  List.perm_insertionSort _ _

theorem classNames_perm {left right : List Event} (same : left.Perm right) :
    classNames left = classNames right := by
  apply @List.Perm.eq_of_pairwise _ (· ≤ ·) _ _ (fun a b _ _ => le_antisymm)
  · exact List.pairwise_insertionSort _ _
  · exact List.pairwise_insertionSort _ _
  · exact (List.perm_insertionSort _ _).trans
      ((same.map _).dedup.trans (List.perm_insertionSort _ _).symm)

theorem similarities_perm {left right : List Event} (same : left.Perm right) :
    (similarities cfg embed left).Perm (similarities cfg embed right) := by
  have symmetric : ∀ a b : Event,
      (if Related cfg a b then some (similarity embed a b) else none) =
        if Related cfg b a then some (similarity embed b a) else none := by
    intro a b
    rw [similarity_comm a b]
    exact if_congr ⟨Related.symm, Related.symm⟩ rfl rfl
  have mapped := (map_pairs_perm symmetric same).filterMap id
  rw [List.filterMap_map, List.filterMap_map] at mapped
  exact mapped

section Links

variable {links : List (Sigma fun _ : Fin events.length × Fin events.length => ℚ × Bool)}
  {linked : Fin events.length → Fin events.length → Prop} [∀ a b, Decidable (linked a b)]
  {weight : Fin events.length × Fin events.length → ℚ} {members : List (Fin events.length)}

/-- The links inside a set of events are its linked pairs. -/
theorem insideKeys_perm (nodup : (links.map Sigma.fst).Nodup)
    (isKey : ∀ a b, (a, b) ∈ links.map Sigma.fst ↔ a < b ∧ linked a b)
    (ordered : members.Pairwise (· < ·)) :
    ((links.filter fun link => link.1.1 ∈ members ∧ link.1.2 ∈ members).map Sigma.fst).Perm
      ((pairs members).filter fun key => linked key.1 key.2) := by
  rw [List.perm_ext_iff_of_nodup]
  · rintro ⟨a, b⟩
    rw [List.mem_filter, mem_pairs_iff (fun less => lt_asymm less) ordered, decide_eq_true_eq]
    constructor
    · intro member
      rcases List.mem_map.mp member with ⟨link, inside, isPair⟩
      rcases List.mem_filter.mp inside with ⟨inLinks, both⟩
      rw [isPair] at both
      rcases of_decide_eq_true both with ⟨left, right⟩
      rcases (isKey a b).mp (List.mem_map.mpr ⟨link, inLinks, isPair⟩) with ⟨less, related⟩
      exact ⟨⟨left, right, less⟩, related⟩
    · rintro ⟨⟨left, right, less⟩, related⟩
      rcases List.mem_map.mp ((isKey a b).mpr ⟨less, related⟩) with ⟨link, inLinks, isPair⟩
      refine List.mem_map.mpr ⟨link, List.mem_filter.mpr ⟨inLinks, ?_⟩, isPair⟩
      rw [isPair]
      exact decide_eq_true ⟨left, right⟩
  · exact nodup.sublist (List.filter_sublist.map _)
  · exact (nodup_pairs (ordered.imp ne_of_lt)).filter _

/-- The similarities of the links inside a set of events are those of its linked pairs. -/
theorem edgeSims_perm (nodup : (links.map Sigma.fst).Nodup)
    (isKey : ∀ a b, (a, b) ∈ links.map Sigma.fst ↔ a < b ∧ linked a b)
    (weighted : ∀ link, link ∈ links → link.2.1 = weight link.1)
    (ordered : members.Pairwise (· < ·)) :
    ((links.filter fun link => link.1.1 ∈ members ∧ link.1.2 ∈ members).map
      fun link => link.2.1).Perm
        (((pairs members).filter fun key => linked key.1 key.2).map weight) := by
  have valued : (links.filter fun link => link.1.1 ∈ members ∧ link.1.2 ∈ members).map
      (fun link => link.2.1) =
        ((links.filter fun link => link.1.1 ∈ members ∧
            link.1.2 ∈ members).map Sigma.fst).map weight := by
    rw [List.map_map]
    exact List.map_congr_left fun link member => weighted link (List.mem_of_mem_filter member)
  rw [valued]
  exact (insideKeys_perm nodup isKey ordered).map weight

end Links

theorem eventIds_eq (members : List (Fin events.length)) :
    ((members.map fun i => ((events.get i).ts, (events.get i).id)).insertionSort
      fun a b => toLex a ≤ toLex b).map Prod.snd = (inOrder events members).map Event.id := by
  have sorted : (inOrder events members).map (fun e => (e.ts, e.id)) =
      (members.map fun i => ((events.get i).ts, (events.get i).id)).insertionSort
        fun a b => toLex a ≤ toLex b := by
    unfold inOrder
    rw [List.map_insertionSort (fun a b => timeKey a ≤ timeKey b)
      (fun a b : Int × String => toLex a ≤ toLex b) _ _ fun _ _ _ _ => Iff.rfl, List.map_map]
    rfl
  rw [← sorted, List.map_map]
  rfl

/-- What a candidate says of some events, with the similarities of their links. -/
def described (members : List Event) (sims : List ℚ) : CampaignCandidate :=
  { id := 0
    events := members.map Event.id
    domains := classNames members
    links := sims.length
    score := (classNames members).length + (members.length - 1) * (1 / 2) +
      max (if sims.isEmpty then 0 else sims.sum / sims.length) 0 }

/-- A class becomes a candidate when it has two events and, where that is required, two class
names.  The order in which its links are listed does not matter. -/
theorem candidate_of_perm
    {links : List (Sigma fun _ : Fin events.length × Fin events.length => ℚ × Bool)}
    {members : List (Fin events.length)} {sims : List ℚ}
    (same : ((links.filter fun link => link.1.1 ∈ members ∧ link.1.2 ∈ members).map
      fun link => link.2.1).Perm sims) :
    candidate cfg events links members =
      if (inOrder events members).length < 2 then none
      else if
        cfg.requireCrossDomain = true ∧ (classNames (inOrder events members)).length < 2 then none
      else some (described (inOrder events members) sims) := by
  have domains :
      ((members.map fun i => classToken (events.get i).ocsfClass).dedup).insertionSort (· ≤ ·) =
      classNames (inOrder events members) := by
    rw [classNames_perm (inOrder_perm members), classNames, List.map_map]
    rfl
  have length : (inOrder events members).length = members.length := by
    rw [(inOrder_perm members).length_eq, List.length_map]
  have empty : ∀ {left right : List ℚ}, left.Perm right → left.isEmpty = right.isEmpty := by
    intro left right perm
    rw [Bool.eq_iff_iff, List.isEmpty_iff_length_eq_zero, List.isEmpty_iff_length_eq_zero,
      perm.length_eq]
  unfold candidate
  dsimp only
  rw [domains, length, eventIds_eq, same.sum_eq, same.length_eq, empty same]
  unfold described
  rw [length]

/-- With entity links alone the candidate is the summary of its events. -/
theorem candidate_eq (entity : cfg.entityLinks = true) (semantic : cfg.semanticLinks = false)
    (distinct : DistinctIds events) (fit : DifferencesFit events)
    (ids : Fin events.length → HashOrder String)
    {links : List (Sigma fun _ : Fin events.length × Fin events.length => ℚ × Bool)}
    (same : links.Perm (collectLinks cfg embed events ids).entries)
    {members : List (Fin events.length)} (ordered : members.Pairwise (· < ·)) :
    candidate cfg events links members =
      if (inOrder events members).length < 2 then none
      else if
        cfg.requireCrossDomain = true ∧ (classNames (inOrder events members)).length < 2 then none
      else some (summary cfg embed (inOrder events members)) := by
  have keys := same.map Sigma.fst
  have nodup : (links.map Sigma.fst).Nodup :=
    keys.nodup_iff.mpr (collectLinks cfg embed events ids).nodupKeys
  have isKey : ∀ a b, (a, b) ∈ links.map Sigma.fst ↔
      a < b ∧ Related cfg (events.get a) (events.get b) := by
    intro a b
    rw [keys.mem_iff]
    exact mem_collectLinks entity semantic distinct fit ids
  let weight := fun key : Fin events.length × Fin events.length =>
    similarity embed (events.get key.1) (events.get key.2)
  have weighted : ∀ link, link ∈ links → link.2.1 = weight link.1 := by
    rintro ⟨key, value⟩ member
    apply weighted_collectLinks entity semantic ids
    exact AList.mem_lookup_iff.mpr (same.subset member)
  apply candidate_of_perm
  refine (edgeSims_perm nodup isKey weighted ordered).trans ?_
  refine List.Perm.trans ?_ (similarities_perm (inOrder_perm members)).symm
  unfold similarities
  rw [pairs_map, List.filterMap_map, ← List.filterMap_eq_map, ← List.filterMap_eq_filter,
    List.filterMap_filterMap]
  apply List.Perm.of_eq
  congr 1
  funext key
  by_cases related : Related cfg (events.get key.1) (events.get key.2)
  · simp only [related, decide_true, Option.guard_pos, Option.bind_some,
      Function.comp_apply, if_true]
    rfl
  · simp only [related, decide_false, Option.guard, Function.comp_apply, if_false]
    rfl

/-! ## All candidates -/

theorem mem_inOrder {members : List (Fin events.length)} {e : Event} :
    e ∈ inOrder events members ↔ ∃ i, i ∈ members ∧ (events.get i) = e := by
  rw [(inOrder_perm members).mem_iff, List.mem_map]

/-- A class, in the order of time, is a component. -/
theorem inOrder_isComponent {root : Fin events.length → Fin events.length}
    (joined : ∀ i j, root i = root j ↔ Joined cfg events (events.get i) (events.get j))
    (distinct : DistinctIds events) (i : Fin events.length) :
    IsComponent cfg events (inOrder events (classOf root i)) := by
  constructor
  · have sorted : (inOrder events (classOf root i)).Pairwise fun a b => timeKey a ≤ timeKey b :=
      List.pairwise_insertionSort _ _
    have nodup : (inOrder events (classOf root i)).Pairwise fun a b => a.id ≠ b.id := by
      have perm := @inOrder_perm events (classOf root i)
      rw [perm.pairwise_iff Ne.symm, List.pairwise_map]
      exact ((List.nodup_finRange _).filter _).imp fun different same =>
        different (distinct.injective same)
    refine (sorted.and nodup).imp fun {a b} both => lt_of_le_of_ne both.1 fun same => ?_
    exact both.2 (congrArg (fun key : Int ×ₗ String => (ofLex key).2) same)
  · refine ⟨(events.get i), List.getElem_mem i.isLt, fun e => ?_⟩
    rw [mem_inOrder]
    constructor
    · rintro ⟨j, member, rfl⟩
      exact ⟨List.getElem_mem j.isLt, (joined i j).mp (mem_classOf.mp member).symm⟩
    · rintro ⟨inEvents, connected⟩
      rcases List.mem_iff_getElem.mp inEvents with ⟨j, bound, rfl⟩
      exact ⟨⟨j, bound⟩,
        mem_classOf.mpr ((joined i ⟨j, bound⟩).mpr connected).symm, rfl⟩

/-- Time orders the members of a component in one way. -/
theorem eq_of_timeOrdered {left right : List Event}
    (leftOrdered : left.Pairwise fun a b => timeKey a < timeKey b)
    (rightOrdered : right.Pairwise fun a b => timeKey a < timeKey b)
    (same : ∀ e, e ∈ left ↔ e ∈ right) : left = right := by
  have nodup :
      ∀ {list : List Event}, (list.Pairwise fun a b => timeKey a < timeKey b) → list.Nodup :=
    fun ordered => ordered.imp fun less equal => absurd (congrArg timeKey equal) (ne_of_lt less)
  apply List.Perm.eq_of_pairwise (fun a b _ _ less greater => absurd less (lt_asymm greater))
    leftOrdered rightOrdered
  exact (List.perm_ext_iff_of_nodup (nodup leftOrdered) (nodup rightOrdered)).mpr same

/-- Every component is a class in the order of time. -/
theorem IsComponent.eq_inOrder {root : Fin events.length → Fin events.length}
    (joined : ∀ i j, root i = root j ↔ Joined cfg events (events.get i) (events.get j))
    (distinct : DistinctIds events) {members : List Event}
    (component : IsComponent cfg events members) :
    ∃ i, members = inOrder events (classOf root i) := by
  rcases component.connected with ⟨first, inEvents, isMember⟩
  rcases List.mem_iff_getElem.mp inEvents with ⟨i, bound, rfl⟩
  refine ⟨⟨i, bound⟩, eq_of_timeOrdered component.ordered
    (inOrder_isComponent joined distinct ⟨i, bound⟩).ordered fun e => ?_⟩
  rw [isMember, mem_inOrder]
  constructor
  · rintro ⟨inEvents, connected⟩
    rcases List.mem_iff_getElem.mp inEvents with ⟨j, jBound, rfl⟩
    exact ⟨⟨j, jBound⟩,
      mem_classOf.mpr ((joined ⟨i, bound⟩ ⟨j, jBound⟩).mpr connected).symm, rfl⟩
  · rintro ⟨j, member, rfl⟩
    exact ⟨List.getElem_mem j.isLt, (joined ⟨i, bound⟩ j).mp (mem_classOf.mp member).symm⟩

/-- A component that becomes a candidate. -/
structure Qualifies (cfg : CampaignConfig) (events members : List Event) : Prop where
  component : IsComponent cfg events members
  size : 2 ≤ members.length
  domains : cfg.requireCrossDomain = true → 2 ≤ (classNames members).length

/-- The candidates without their numbers. -/
def unnumbered (candidates : List CampaignCandidate) : List CampaignCandidate :=
  candidates.map fun c => { c with id := 0 }

/-- The candidates of the collected classes, in the order in which these are gone through. -/
def gathered (cfg : CampaignConfig) (embed : Event → List ℚ) (events : List Event)
    (orders : HashOrders events.length) : List CampaignCandidate :=
  (orders.comps.run ((components (unionAll ((orders.links.run
    (collectLinks cfg embed events orders.ids).entries).map Sigma.fst))).entries.map
      Sigma.snd)).filterMap (candidate cfg events
        (orders.links.run (collectLinks cfg embed events orders.ids).entries))

/-- Before they are numbered the candidates are the gathered ones, the highest score first. -/
theorem unnumbered_eq (orders : HashOrders events.length) :
    unnumbered (buildCampaigns cfg embed events orders) =
      (gathered cfg embed events orders).insertionSort fun a b => b.score ≤ a.score := by
  have zero : ∀ {links members c}, candidate cfg events links members = some c →
      { c with id := 0 } = c := by
    intro links members c isCandidate
    unfold candidate at isCandidate
    dsimp only at isCandidate
    split at isCandidate
    · cases isCandidate
    · split at isCandidate
      · cases isCandidate
      · cases isCandidate
        rfl
  unfold unnumbered buildCampaigns
  rw [List.map_map]
  change List.map ((fun c : CampaignCandidate => { c with id := 0 }) ∘ Prod.fst) _ = _
  rw [← List.map_map, List.zipIdx_map_fst, List.map_congr_left (g := id), List.map_id]
  · rfl
  · intro c member
    rcases List.mem_filterMap.mp ((List.mem_insertionSort _).mp member) with
      ⟨members, -, isCandidate⟩
    exact zero isCandidate

theorem unnumbered_buildCampaigns (orders : HashOrders events.length) :
    (unnumbered (buildCampaigns cfg embed events orders)).Perm
      (gathered cfg embed events orders) := by
  rw [unnumbered_eq]
  exact List.perm_insertionSort _ _

theorem mem_buildCampaigns (entity : cfg.entityLinks = true) (semantic : cfg.semanticLinks = false)
    (distinct : DistinctIds events) (fit : DifferencesFit events)
    (orders : HashOrders events.length) (c : CampaignCandidate) :
    c ∈ unnumbered (buildCampaigns cfg embed events orders) ↔
      ∃ members, Qualifies cfg events members ∧ c = summary cfg embed members := by
  have same := orders.links.perm (collectLinks cfg embed events orders.ids).entries
  rcases unionAll_classes ((orders.links.run (collectLinks cfg embed events orders.ids).entries).map
    Sigma.fst) with ⟨root, leads, classes⟩
  have joined := fun i j => root_eq_iff (i := i) (j := j) classes distinct fun i j => by
    rw [(same.map Sigma.fst).mem_iff]
    exact mem_collectLinks entity semantic distinct fit orders.ids
  have ordered : ∀ i, (classOf root i).Pairwise (· < ·) :=
    fun i => (List.pairwise_lt_finRange _).filter _
  rw [(unnumbered_buildCampaigns orders).mem_iff, gathered, List.mem_filterMap]
  constructor
  · rintro ⟨members, inComps, isCandidate⟩
    rcases List.mem_map.mp (orders.comps.mem.mp inComps) with ⟨⟨r, members⟩, inEntries, rfl⟩
    rcases (mem_components leads).mp inEntries with ⟨i, rfl, rfl⟩
    dsimp only at isCandidate
    rw [candidate_eq entity semantic distinct fit orders.ids same (ordered i)] at isCandidate
    split at isCandidate
    · cases isCandidate
    · next size =>
        split at isCandidate
        · cases isCandidate
        · next domains =>
            cases isCandidate
            refine ⟨_,
              ⟨inOrder_isComponent joined distinct i, Nat.le_of_not_lt size, ?_⟩, rfl⟩
            exact fun required => Nat.le_of_not_lt fun few => domains ⟨required, few⟩
  · rintro ⟨members, qualifies, rfl⟩
    rcases qualifies.component.eq_inOrder joined distinct with ⟨i, rfl⟩
    refine ⟨classOf root i, orders.comps.mem.mpr (List.mem_map.mpr ⟨⟨root i, _⟩,
      (mem_components leads).mpr ⟨i, rfl, rfl⟩, rfl⟩), ?_⟩
    rw [candidate_eq entity semantic distinct fit orders.ids same (ordered i),
      if_neg (Nat.not_lt_of_le qualifies.size), if_neg]
    exact fun few => absurd (qualifies.domains few.1) (Nat.not_le_of_lt few.2)

theorem candidate_events
    {links : List (Sigma fun _ : Fin events.length × Fin events.length => ℚ × Bool)}
    {members : List (Fin events.length)} {c : CampaignCandidate}
    (isCandidate : candidate cfg events links members = some c) :
    c.events = (inOrder events members).map Event.id := by
  unfold candidate at isCandidate
  dsimp only at isCandidate
  split at isCandidate
  · cases isCandidate
  · split at isCandidate
    · cases isCandidate
    · cases isCandidate
      exact eventIds_eq members

/-- The candidates have no event in common. -/
def Apart (c d : CampaignCandidate) : Prop :=
  ∀ id, id ∈ c.events → id ∉ d.events

theorem Apart.symm {c d : CampaignCandidate} (disjoint : Apart c d) : Apart d c :=
  fun id inSecond inFirst => disjoint id inFirst inSecond

theorem pairwise_disjoint (distinct : DistinctIds events) (orders : HashOrders events.length) :
    (unnumbered (buildCampaigns cfg embed events orders)).Pairwise Apart := by
  rcases unionAll_classes ((orders.links.run (collectLinks cfg embed events orders.ids).entries).map
    Sigma.fst) with ⟨root, leads, -⟩
  rw [(unnumbered_buildCampaigns orders).pairwise_iff Apart.symm, gathered, List.pairwise_filterMap,
    (orders.comps.perm _).pairwise_iff, List.pairwise_map]
  · apply (List.nodupKeys_iff_pairwise.mp (components _).nodupKeys).imp_of_mem
    rintro ⟨r, left⟩ ⟨r',
      right⟩ inEntries inEntries' different c isCandidate d isCandidate' id inFirst inSecond
    rcases (mem_components leads).mp inEntries with ⟨i, rfl, rfl⟩
    rcases (mem_components leads).mp inEntries' with ⟨j, rfl, rfl⟩
    rw [candidate_events isCandidate] at inFirst
    rw [candidate_events isCandidate'] at inSecond
    rcases List.mem_map.mp inFirst with ⟨e, inLeft, rfl⟩
    rcases List.mem_map.mp inSecond with ⟨e', inRight, sameId⟩
    rcases mem_inOrder.mp inLeft with ⟨k, member, rfl⟩
    rcases mem_inOrder.mp inRight with ⟨k', member', rfl⟩
    have same : k' = k := distinct.injective sameId
    subst same
    exact different ((mem_classOf.mp member).symm.trans (mem_classOf.mp member'))
  · exact fun disjoint c isCandidate d isCandidate' =>
      (disjoint d isCandidate' c isCandidate).symm

/-- Related pairs, and so components, depend only on what events there are. -/
theorem Qualifies.of_mem_iff {events' members : List Event}
    (same : ∀ e, e ∈ events ↔ e ∈ events') (qualifies : Qualifies cfg events members) :
    Qualifies cfg events' members := by
  have joined : Joined cfg events' = Joined cfg events := by
    unfold Joined
    congr 1
    funext a b
    rw [← same a, ← same b]
  rcases qualifies.component.connected with ⟨first, inEvents, isMember⟩
  refine ⟨⟨qualifies.component.ordered, first, (same first).mp inEvents, fun e => ?_⟩,
    qualifies.size, qualifies.domains⟩
  rw [isMember, same, joined]

/-- With entity links alone the candidates are the connected components of related events that
are large and broad enough, each of them once, whatever the order of the events and of the hash
maps. -/
theorem campaigns_are_components (entity : cfg.entityLinks = true)
    (semantic : cfg.semanticLinks = false) (distinct : DistinctIds events)
    (fit : DifferencesFit events) (orders : HashOrders events.length) {events' : List Event}
    (same : events'.Perm events) (orders' : HashOrders events'.length) :
    (∀ c, c ∈ unnumbered (buildCampaigns cfg embed events orders) ↔
      ∃ members, Qualifies cfg events members ∧ c = summary cfg embed members) ∧
    (unnumbered (buildCampaigns cfg embed events orders)).Pairwise Apart ∧
    (unnumbered (buildCampaigns cfg embed events' orders')).Perm
      (unnumbered (buildCampaigns cfg embed events orders)) := by
  have distinct' : DistinctIds events' := (same.map Event.id).nodup_iff.mpr distinct
  have fit' : DifferencesFit events' :=
    fun a inFirst b inSecond => fit a (same.subset inFirst) b (same.subset inSecond)
  have isCandidate := @mem_buildCampaigns cfg embed events entity semantic distinct fit orders
  have isCandidate' := @mem_buildCampaigns cfg embed events' entity semantic distinct' fit' orders'
  -- a candidate that is disjoint from itself would have no events
  have nodup : ∀ {list : List CampaignCandidate}, list.Pairwise Apart →
      (∀ c, c ∈ list → ∃ members, Qualifies cfg events members ∧
        c = summary cfg embed members) →
      list.Nodup := by
    intro list disjoint described
    apply disjoint.imp_of_mem
    rintro c _ inList - apart rfl
    rcases described c inList with ⟨members, qualifies, rfl⟩
    rcases List.exists_mem_of_length_pos (Nat.lt_of_lt_of_le Nat.zero_lt_two qualifies.size) with
      ⟨e, member⟩
    have listed : e.id ∈ (summary cfg embed members).events :=
      List.mem_map.mpr ⟨e, member, rfl⟩
    exact apart _ listed listed
  have both : ∀ c, c ∈ unnumbered (buildCampaigns cfg embed events' orders') ↔
      c ∈ unnumbered (buildCampaigns cfg embed events orders) := by
    intro c
    rw [isCandidate, isCandidate']
    constructor
    · rintro ⟨members, qualifies, described⟩
      exact ⟨members, qualifies.of_mem_iff fun e => same.mem_iff, described⟩
    · rintro ⟨members, qualifies, described⟩
      exact ⟨members, qualifies.of_mem_iff fun e => same.mem_iff.symm, described⟩
  refine ⟨isCandidate, pairwise_disjoint distinct orders, ?_⟩
  rw [List.perm_ext_iff_of_nodup]
  · exact both
  · exact nodup (pairwise_disjoint distinct' orders')
      fun c member => (isCandidate c).mp ((both c).mp member)
  · exact nodup (pairwise_disjoint distinct orders) fun c member => (isCandidate c).mp member

/-- An event on the host `web01`. -/
def onWeb (id : String) (ocsfClass : OcsfClass) (ts : Int) : Event where
  id := id
  ts := ts
  ingestTs := ts
  ocsfClass := ocsfClass
  tenant := "acme"
  severity := .low
  host := some (.new "host" "web01")
  actor := none
  target := none
  message := ""
  fields := .empty
  templateId := none
  labels := []
  raw := []

/-- The configuration with entity links alone. -/
def entityConfig : CampaignConfig :=
  { CampaignConfig.default with semanticLinks := false }

/-- All hash maps in one order. -/
def HashOrders.inserted (n : Nat) : HashOrders n where
  ids _ := .inserted _
  links := .inserted _
  comps := .inserted _

/-- A login and a process on one host. -/
def intrusion : List Event :=
  [onWeb "e1" .authentication 100, onWeb "e2" .processActivity 200]

theorem fit_intrusion : DifferencesFit intrusion := by
  intro a inFirst b inSecond
  simp only [intrusion, List.mem_cons, List.not_mem_nil, or_false] at inFirst inSecond
  rcases inFirst with rfl | rfl
  all_goals
    rcases inSecond with rfl | rfl
    all_goals
      exact ⟨by decide, by decide⟩

/-- Two events of classes that have no names here. -/
def unmapped : List Event :=
  [onWeb "e1" (.other 1) 100, onWeb "e2" (.other 2) 200]

/-- All classes without a name count as one: the component of two related events of different
classes is no candidate. -/
theorem unmapped_classes_are_one :
    IsComponent entityConfig unmapped unmapped ∧ 2 ≤ unmapped.length ∧
      (∃ a ∈ unmapped, ∃ b ∈ unmapped, a.ocsfClass.uid ≠ b.ocsfClass.uid) ∧
        buildCampaigns entityConfig (fun _ => [1]) unmapped (.inserted _) = [] := by
  refine ⟨⟨?_, onWeb "e1" (.other 1) 100, List.mem_cons_self, fun e => ?_⟩,
    Nat.le_refl 2, ?_, ?_⟩
  · unfold unmapped
    decide
  · refine ⟨fun member => ⟨member, ?_⟩, And.left⟩
    rcases List.mem_cons.mp member with rfl | second
    · exact Relation.EqvGen.refl _
    · refine Relation.EqvGen.rel _ _ ⟨List.mem_cons_self, member, ?_⟩
      rw [List.mem_singleton.mp second]
      decide
  · exact ⟨_, List.mem_cons_self, _, List.mem_cons_of_mem _ List.mem_cons_self, by decide⟩
  · decide +kernel

/-- Two pairs of related events, of equal scores. -/
def twoPairs : List Event :=
  [onWeb "e1" .authentication 0, onWeb "e2" .processActivity 1,
    onWeb "e3" .authentication 4000000000, onWeb "e4" .processActivity 4000000001]

/-- The classes in the opposite order. -/
def HashOrders.backward (n : Nat) : HashOrders n :=
  { HashOrders.inserted n with comps := { run := List.reverse, perm := List.reverse_perm } }

/-- Among candidates of equal scores the number is the place in the order of a hash map. -/
theorem number_follows_hash_order :
    (buildCampaigns entityConfig (fun _ => [1]) twoPairs (.inserted _)).map
        (fun c => (c.id, c.events)) = [(0, ["e3", "e4"]), (1, ["e1", "e2"])] ∧
      (buildCampaigns entityConfig (fun _ => [1]) twoPairs (.backward _)).map
        (fun c => (c.id, c.events)) = [(0, ["e1", "e2"]), (1, ["e3", "e4"])] := by
  decide +kernel

end Correlate
end Sigil
