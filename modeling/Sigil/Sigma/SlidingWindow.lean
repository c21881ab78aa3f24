import Mathlib.Data.Finset.Card
import Mathlib.Data.List.NodupEquivFin
import Sigil.Library.FrontEviction
import Sigil.Sigma.Correlation

namespace Sigil
namespace Sigma

/-!
# What a correlation rule says about a stream

A stream is the list of the events fed so far, the latest one first, each with its base
alerts.  The specification looks back over this list: which items of a group have come
after the rule's last firing for it, which of them lie inside the timespan, and whether
their matches satisfy the rule.  On streams in time order the engine computes exactly
this.  On other streams its windows can hold entries that the specification leaves out.
-/

open Sigil.Core Library

/-- One call of the engine: an event, its base alerts and the clock. -/
structure Feed where
  event : Event
  baseAlerts : List Alert
  clock : Int

/-- The engine after a stream. -/
def after (rules : List CompiledCorrelation) : List Feed → CorrelationEngine
  | [] => .new rules
  | item :: older => ((after rules older).process item.event item.baseAlerts item.clock).1

/-! ## The condition -/

/-- The rule's condition on a list of matches. -/
def CompiledCorrelation.Holds (rule : CompiledCorrelation) (found : List WindowEntry) : Prop :=
  match rule.kind with
  | .eventCount => rule.condition.satisfied found.length = true
  | .valueCount => rule.condition.satisfied (found.filterMap WindowEntry.value).toFinset.card = true
  | .temporal => ∀ id, id ∈ rule.rules → ∃ entry, entry ∈ found ∧ entry.ruleId = id
  | .temporalOrdered => rule.rules.Sublist (found.map WindowEntry.ruleId)

/-- The scan leaves nothing exactly when the listed rules are a subsequence. -/
theorem wanted_eq_nil_iff (rules : List String) (window : List WindowEntry) :
    wanted rules window = [] ↔ rules.Sublist (window.map WindowEntry.ruleId) := by
  induction window generalizing rules with
  | nil =>
      rw [List.map_nil, List.sublist_nil]
      exact Iff.rfl
  | cons entry window inductionHypothesis =>
      cases rules with
      | nil =>
          have done := inductionHypothesis []
          exact ⟨fun _ => List.nil_sublist _, fun _ => done.mpr (List.nil_sublist _)⟩
      | cons next rest =>
          rw [List.map_cons]
          by_cases same : next = entry.ruleId
          · have takes : wanted (next :: rest) (entry :: window) = wanted rest window := by
              simp only [wanted, List.foldl_cons, if_pos same]
            rw [takes, inductionHypothesis, same, List.cons_sublist_cons]
          · have skips : wanted (next :: rest) (entry :: window) =
                wanted (next :: rest) window := by
              simp only [wanted, List.foldl_cons, if_neg same]
            rw [skips, inductionHypothesis, List.sublist_cons_iff]
            refine ⟨Or.inl, fun either => either.resolve_right ?_⟩
            rintro ⟨tail, equal, _⟩
            exact same (List.cons.inj equal).1

theorem evaluate_iff_holds (rule : CompiledCorrelation) (window : List WindowEntry) :
    evaluate rule window = true ↔ rule.Holds window := by
  cases kind : rule.kind with
  | eventCount =>
      simp only [evaluate, CompiledCorrelation.Holds, kind]
  | valueCount =>
      simp only [evaluate, CompiledCorrelation.Holds, kind, List.card_toFinset]
  | temporal =>
      simp only [evaluate, CompiledCorrelation.Holds, kind, List.all_eq_true, List.any_eq_true,
        decide_eq_true_eq]
  | temporalOrdered =>
      simp only [evaluate, CompiledCorrelation.Holds, kind, List.isEmpty_iff, wanted_eq_nil_iff]

instance (rule : CompiledCorrelation) : DecidablePred rule.Holds :=
  fun window => decidable_of_iff _ (evaluate_iff_holds rule window)

/-! ## Ordered rules -/

/-- Places in the window, one after the other, at which the listed rules have matched. -/
structure Places (rules : List String) (window : List WindowEntry) where
  place : Fin rules.length → Fin window.length
  ascending : StrictMono place
  matching : ∀ i, (window.get (place i)).ruleId = rules.get i

theorem sublist_iff_places (rules : List String) (window : List WindowEntry) :
    rules.Sublist (window.map WindowEntry.ruleId) ↔ Nonempty (Places rules window) := by
  have length : (window.map WindowEntry.ruleId).length = window.length := List.length_map _
  rw [List.sublist_iff_exists_fin_orderEmbedding_get_eq]
  constructor
  · rintro ⟨embedding, carries⟩
    refine ⟨⟨fun i => (embedding i).cast length, fun i j before => ?_, fun i => ?_⟩⟩
    · exact embedding.strictMono before
    · have carried : rules.get i = (window.map WindowEntry.ruleId)[(embedding i).val] := carries i
      rw [carried]
      exact (List.getElem_map _).symm
  · rintro ⟨places⟩
    have ascending : StrictMono fun i => (places.place i).cast length.symm :=
      fun i j before => places.ascending before
    refine ⟨OrderEmbedding.ofStrictMono _ ascending, fun i => ?_⟩
    rw [← places.matching i]
    exact (List.getElem_map _).symm

/-- The scan of an ordered rule finds the listed rules in their order wherever they are. -/
theorem temporalOrdered_iff {rule : CompiledCorrelation} (kind : rule.kind = .temporalOrdered)
    (window : List WindowEntry) :
    (evaluate rule window = true ↔ rule.rules.Sublist (window.map WindowEntry.ruleId)) ∧
      (evaluate rule window = true ↔ Nonempty (Places rule.rules window)) := by
  have holds : evaluate rule window = true ↔
      rule.rules.Sublist (window.map WindowEntry.ruleId) := by
    rw [evaluate_iff_holds, CompiledCorrelation.Holds, kind]
  exact ⟨holds, holds.trans (sublist_iff_places rule.rules window)⟩

/-- A rule that wants some base rules one after the other. -/
def sequenceOf (rules : List String) : CompiledCorrelation where
  ruleId := "sequence"
  title := "sequence"
  severity := .high
  technique := none
  tags := []
  kind := .temporalOrdered
  rules := rules
  groupBy := []
  timespan := 10_000_000
  condition := {}
  generate := false

/-- Matches of base rules, one in each second. -/
def matchesOf (ids : List String) : List WindowEntry :=
  ids.zipIdx.map fun id =>
    { ts := id.2 * 1_000_000, ruleId := id.1, eventId := id.1, value := none }

theorem temporalOrdered_iff_repeated :
    evaluate (sequenceOf ["scan", "login", "scan"])
      (matchesOf ["scan", "scan", "login", "exec", "scan"]) =
        true ∧
      (["scan", "login", "scan"].Sublist ((matchesOf ["scan", "scan", "login", "exec", "scan"]).map
        WindowEntry.ruleId) ∧
      Nonempty (Places ["scan", "login", "scan"]
        (matchesOf ["scan", "scan", "login", "exec", "scan"]))) := by
  have found : evaluate (sequenceOf ["scan", "login", "scan"])
      (matchesOf ["scan", "scan", "login", "exec", "scan"]) = true := by
    decide
  have iff := @temporalOrdered_iff (sequenceOf ["scan", "login", "scan"]) rfl
    (matchesOf ["scan", "scan", "login", "exec", "scan"])
  exact ⟨found, iff.1.mp found, iff.2.mp found⟩

/-! ## The specification -/

/-- The referenced matches of one item. -/
def CompiledCorrelation.references (rule : CompiledCorrelation) (item : Feed) :
    List WindowEntry :=
  rule.entries item.event item.event.ts (rule.matched item.baseAlerts)

/-- An item counts with one entry for each of its base alerts of a listed rule. -/
theorem mem_references {rule : CompiledCorrelation} {item : Feed} {entry : WindowEntry} :
    entry ∈ rule.references item ↔
      ∃ alert, alert ∈ item.baseAlerts ∧ alert.ruleId ∈ rule.rules ∧
      entry = ⟨item.event.ts, alert.ruleId, item.event.id,
        rule.condition.field.bind fun field => (resolveField item.event field).head?⟩ := by
  rw [CompiledCorrelation.references, CompiledCorrelation.entries, List.mem_map]
  constructor
  · rintro ⟨alert, isMatch, rfl⟩
    have both := CompiledCorrelation.mem_matched.mp isMatch
    exact ⟨alert, both.1, both.2, rfl⟩
  · rintro ⟨alert, member, listed, rfl⟩
    exact ⟨alert, CompiledCorrelation.mem_matched.mpr ⟨member, listed⟩, rfl⟩

/-- The items of the group of `item` that are not older than the timespan. -/
def CompiledCorrelation.recent (rule : CompiledCorrelation) (item : Feed)
    (items : List Feed) : List Feed :=
  items.filter fun i => rule.groupKey i.event = rule.groupKey item.event ∧
    item.event.ts - rule.timespan ≤ i.event.ts

/-- The items after the rule's last firing for the group, oldest first. -/
def CompiledCorrelation.sinceFiring (rule : CompiledCorrelation) (key : String) :
    List Feed → List Feed
  | [] => []
  | item :: older =>
      let since := rule.sinceFiring key older
      if rule.groupKey item.event = key ∧ rule.references item ≠ [] ∧
          rule.Holds ((rule.recent item (since ++ [item])).flatMap rule.references)
      then [] else since ++ [item]

/-- The items that count for the latest one. -/
def CompiledCorrelation.counted (rule : CompiledCorrelation) (older : List Feed)
    (item : Feed) : List Feed :=
  rule.recent item (rule.sinceFiring (rule.groupKey item.event) older ++ [item])

/-- The rule fires for the latest item. -/
def CompiledCorrelation.Fires (rule : CompiledCorrelation) (older : List Feed)
    (item : Feed) : Prop :=
  rule.references item ≠ [] ∧ rule.Holds ((rule.counted older item).flatMap rule.references)

instance (rule : CompiledCorrelation) (older : List Feed) (item : Feed) :
    Decidable (rule.Fires older item) :=
  inferInstanceAs (Decidable (_ ∧ _))

/-- The alert that the specification asks for. -/
def CompiledCorrelation.expected (rule : CompiledCorrelation) (older : List Feed)
    (item : Feed) : Option Alert :=
  if rule.Fires older item then
    some
      { ruleId := rule.ruleId
        title := rule.title
        severity := rule.severity
        technique := rule.technique
        events := ((rule.counted older item).filter fun i => rule.references i ≠ []).map
          fun i => i.event.id
        ts := item.event.ts }
  else none

/-! ## The engine rule by rule -/

/-- The windows of one rule after a stream. -/
def CompiledCorrelation.windowsAfter (rule : CompiledCorrelation) : List Feed → Windows
  | [] => ∅
  | item :: older =>
      (rule.process (rule.windowsAfter older) item.event item.baseAlerts item.clock).1

theorem zipWith_map_self {α β γ : Type} (f : α → β → γ) (g : α → β) (list : List α) :
    List.zipWith f list (list.map g) = list.map fun x => f x (g x) := by
  rw [List.zipWith_map_right, List.zipWith_self]

/-- The rules do not influence each other. -/
theorem after_eq (rules : List CompiledCorrelation) (older : List Feed) :
    (after rules older).rules = rules ∧
      (after rules older).windows = rules.map fun rule => rule.windowsAfter older := by
  induction older with
  | nil => exact ⟨rfl, rfl⟩
  | cons item older inductionHypothesis =>
      rcases inductionHypothesis with ⟨sameRules, sameWindows⟩
      refine ⟨sameRules, ?_⟩
      simp only [after, CorrelationEngine.process]
      rw [sameRules, sameWindows, zipWith_map_self, List.map_map]
      rfl

theorem process_after (rules : List CompiledCorrelation) (older : List Feed) (item : Feed) :
    ((after rules older).process item.event item.baseAlerts item.clock).2 =
      rules.filterMap fun rule =>
        (rule.process (rule.windowsAfter older) item.event item.baseAlerts item.clock).2 := by
  simp only [CorrelationEngine.process]
  rw [(after_eq rules older).1, (after_eq rules older).2, zipWith_map_self, List.filterMap_map]
  rfl

/-! ## Streams in time order -/

/-- The premises on a stream, latest item first: events have a time, their times ascend,
their identifiers differ, and no window reaches below the machine integers. -/
structure InOrder (rules : List CompiledCorrelation) (stream : List Feed) : Prop where
  nonzero : ∀ item, item ∈ stream → item.event.ts ≠ 0
  ordered : stream.Pairwise fun late early => early.event.ts ≤ late.event.ts
  distinct : (stream.map fun item => item.event.id).Nodup
  range : ∀ rule, rule ∈ rules → ∀ item, item ∈ stream →
    -(2 ^ 63) ≤ item.event.ts - rule.timespan ∧ item.event.ts - rule.timespan < 2 ^ 63

theorem InOrder.older {rules : List CompiledCorrelation} {item : Feed} {older : List Feed}
    (inOrder : InOrder rules (item :: older)) : InOrder rules older where
  nonzero := fun i member => inOrder.nonzero i (List.mem_cons_of_mem _ member)
  ordered := (List.pairwise_cons.mp inOrder.ordered).2
  distinct := (List.nodup_cons.mp inOrder.distinct).2
  range := fun rule inRules i member => inOrder.range rule inRules i (List.mem_cons_of_mem _ member)

variable {rule : CompiledCorrelation}

theorem sinceFiring_cons (key : String) (item : Feed) (older : List Feed) :
    rule.sinceFiring key (item :: older) =
      if rule.groupKey item.event = key ∧ rule.Fires older item then []
      else rule.sinceFiring key older ++ [item] := by
  by_cases same : rule.groupKey item.event = key
  · subst same
    simp only [CompiledCorrelation.sinceFiring, CompiledCorrelation.Fires,
      CompiledCorrelation.counted]
  · rw [CompiledCorrelation.sinceFiring, if_neg (fun both => same both.1),
      if_neg (fun both => same both.1)]

/-- The items since the last firing are items of the stream, in the order of arrival. -/
theorem sinceFiring_sublist (key : String) (older : List Feed) :
    (rule.sinceFiring key older).Sublist older.reverse := by
  induction older with
  | nil => exact List.Sublist.refl _
  | cons item older inductionHypothesis =>
      rw [sinceFiring_cons, List.reverse_cons]
      split
      · exact List.nil_sublist _
      · exact inductionHypothesis.append_right [item]

/-- The matches of the items of one group since the last firing. -/
def CompiledCorrelation.collected (rule : CompiledCorrelation) (key : String)
    (items : List Feed) : List WindowEntry :=
  (items.filter fun i => rule.groupKey i.event = key).flatMap rule.references

theorem references_ts {item : Feed} {entry : WindowEntry}
    (member : entry ∈ rule.references item) :
    entry.ts = item.event.ts := by
  rcases List.mem_map.mp member with ⟨alert, _, rfl⟩
  rfl

theorem ascending_collected (rule : CompiledCorrelation) {rules : List CompiledCorrelation}
    {item : Feed} {older : List Feed} (inOrder : InOrder rules (item :: older)) (key : String) :
    FrontEviction.Ascending WindowEntry.ts
      (rule.collected key (rule.sinceFiring key older ++ [item])) := by
  have items : (rule.sinceFiring key older ++ [item]).Pairwise
      fun early late => early.event.ts ≤ late.event.ts := by
    have whole : (item :: older).reverse.Pairwise fun early late =>
        early.event.ts ≤ late.event.ts :=
      List.pairwise_reverse.mpr inOrder.ordered
    rw [List.reverse_cons] at whole
    exact whole.sublist ((sinceFiring_sublist key older).append_right [item])
  apply List.pairwise_flatMap.mpr
  constructor
  · intro i _
    refine List.pairwise_of_forall_mem_list fun first inFirst second inSecond => ?_
    rw [references_ts inFirst, references_ts inSecond]
  · refine (items.sublist List.filter_sublist).imp fun order first inFirst second inSecond => ?_
    rw [references_ts inFirst, references_ts inSecond]
    exact order

/-- Filtering matches by time is filtering the items they come from. -/
theorem filter_collected (item : Feed) (items : List Feed) :
    ((rule.collected (rule.groupKey item.event) items).filter fun entry =>
        item.event.ts - rule.timespan ≤ entry.ts) =
      (rule.recent item items).flatMap rule.references := by
  have each : ∀ i : Feed, (rule.references i).filter
      (fun entry => item.event.ts - rule.timespan ≤ entry.ts) =
        if item.event.ts - rule.timespan ≤ i.event.ts then rule.references i else [] := by
    intro i
    split
    · next inside =>
        apply List.filter_eq_self.mpr
        intro entry member
        rw [references_ts member]
        exact decide_eq_true inside
    · next outside =>
        apply List.filter_eq_nil_iff.mpr
        intro entry member
        rw [references_ts member, decide_eq_true_eq]
        exact outside
  rw [CompiledCorrelation.collected, CompiledCorrelation.recent]
  induction items with
  | nil => rfl
  | cons i items inductionHypothesis =>
      rw [List.filter_cons, List.filter_cons]
      by_cases same : rule.groupKey i.event = rule.groupKey item.event
      · rw [if_pos (decide_eq_true same), List.flatMap_cons, List.filter_append, each,
          inductionHypothesis]
        by_cases inside : item.event.ts - rule.timespan ≤ i.event.ts
        · rw [if_pos inside, if_pos (decide_eq_true ⟨same, inside⟩), List.flatMap_cons]
        · rw [if_neg inside, List.nil_append, if_neg]
          exact fun both => inside (of_decide_eq_true both).2
      · rw [if_neg (fun equal => same (of_decide_eq_true equal)), inductionHypothesis, if_neg]
        exact fun both => same (of_decide_eq_true both).1

theorem collected_concat (key : String) (items : List Feed) (item : Feed) :
    rule.collected key (items ++ [item]) = rule.collected key items ++
      if rule.groupKey item.event = key then rule.references item else [] := by
  rw [CompiledCorrelation.collected, List.filter_append, List.flatMap_append, List.filter_cons]
  by_cases same : rule.groupKey item.event = key
  · rw [if_pos same, if_pos (decide_eq_true same), List.filter_nil, List.flatMap_singleton]
    rfl
  · rw [if_neg same, if_neg (fun equal => same (of_decide_eq_true equal))]
    rfl

/-- The window of every group holds the collected matches, cleaned with a threshold that
no later item of the stream falls below. -/
def Tracks (rule : CompiledCorrelation) (older : List Feed) (windows : Windows) : Prop :=
  ∀ key now, (∀ item, item ∈ older → item.event.ts ≤ now) →
    ∃ early, early ≤ now - rule.timespan ∧ (windows.lookup key).getD [] =
      (rule.collected key (rule.sinceFiring key older)).filter fun entry => early ≤ entry.ts

/-- The window that is evaluated for an item holds the matches that count for it. -/
theorem window_eq_counted {rules : List CompiledCorrelation} {item : Feed} {older : List Feed}
    (inOrder : InOrder rules (item :: older)) (inRules : rule ∈ rules) {windows : Windows}
    (tracks : Tracks rule older windows) :
    rule.window windows item.event item.event.ts (rule.matched item.baseAlerts) =
      (rule.counted older item).flatMap rule.references := by
  have past : ∀ i, i ∈ older → i.event.ts ≤ item.event.ts :=
    (List.pairwise_cons.mp inOrder.ordered).1
  rcases tracks (rule.groupKey item.event) item.event.ts past with ⟨early, order, held⟩
  have range := inOrder.range rule inRules item List.mem_cons_self
  have whole : rule.collected (rule.groupKey item.event)
      (rule.sinceFiring (rule.groupKey item.event) older ++ [item]) =
        rule.collected (rule.groupKey item.event)
          (rule.sinceFiring (rule.groupKey item.event) older) ++ rule.references item := by
    rw [collected_concat, if_pos rfl]
  have ascending := ascending_collected rule inOrder (rule.groupKey item.event)
  rw [CompiledCorrelation.counted, ← filter_collected]
  rw [whole] at ascending ⊢
  rw [CompiledCorrelation.window, held, toI64_of_range range.1 range.2]
  exact FrontEviction.clean_append order ascending

/-- What one rule does with an item that has a time. -/
theorem process_cases (windows : Windows) {item : Feed} (nonzero : item.event.ts ≠ 0) :
    rule.process windows item.event item.baseAlerts item.clock =
      if rule.references item = [] then (windows, none)
      else
        let window := rule.window windows item.event item.event.ts (rule.matched item.baseAlerts)
        if rule.Holds window then
          (windows.insert (rule.groupKey item.event) [], some (rule.alert item.event.ts window))
        else (windows.insert (rule.groupKey item.event) window, none) := by
  have time : eventTime item.event item.clock = item.event.ts := if_pos nonzero
  have empty : (rule.matched item.baseAlerts).isEmpty = true ↔ rule.references item = [] := by
    rw [List.isEmpty_iff, CompiledCorrelation.references, CompiledCorrelation.entries,
      List.map_eq_nil_iff]
  simp only [CompiledCorrelation.process, time, empty, evaluate_iff_holds]

theorem Tracks.step {rules : List CompiledCorrelation} {item : Feed} {older : List Feed}
    (inOrder : InOrder rules (item :: older)) (inRules : rule ∈ rules) {windows : Windows}
    (tracks : Tracks rule older windows) :
    Tracks rule (item :: older)
      (rule.process windows item.event item.baseAlerts item.clock).1 := by
  have window := window_eq_counted inOrder inRules tracks
  rw [process_cases windows (inOrder.nonzero item List.mem_cons_self)]
  intro key now bound
  have boundOlder : ∀ i, i ∈ older → i.event.ts ≤ now :=
    fun i member => bound i (List.mem_cons_of_mem _ member)
  -- a group that collects nothing from the item keeps its window
  have same : (rule.groupKey item.event = key → rule.references item = []) →
      ∃ early, early ≤ now - rule.timespan ∧ (windows.lookup key).getD [] =
        (rule.collected key (rule.sinceFiring key older ++ [item])).filter
          fun entry => early ≤ entry.ts := by
    intro nothing
    rcases tracks key now boundOlder with ⟨early, order, held⟩
    refine ⟨early, order, ?_⟩
    rw [held, collected_concat]
    split
    · next here => rw [nothing here, List.append_nil]
    · rw [List.append_nil]
  by_cases none_ : rule.references item = []
  · have since : rule.sinceFiring key (item :: older) =
        rule.sinceFiring key older ++ [item] := by
      rw [sinceFiring_cons, if_neg (fun both => both.2.1 none_)]
    rw [if_pos none_, since]
    exact same fun _ => none_
  · have fires : rule.Fires older item ↔ rule.Holds
        (rule.window windows item.event item.event.ts (rule.matched item.baseAlerts)) := by
      rw [window]
      exact ⟨fun both => both.2, fun holds => ⟨none_, holds⟩⟩
    by_cases here : rule.groupKey item.event = key
    · subst here
      by_cases holds : rule.Holds
          (rule.window windows item.event item.event.ts (rule.matched item.baseAlerts))
      · have since : rule.sinceFiring (rule.groupKey item.event) (item :: older) = [] := by
          rw [sinceFiring_cons, if_pos ⟨rfl, fires.mpr holds⟩]
        simp only [if_neg none_, if_pos holds, since, AList.lookup_insert]
        exact ⟨now - rule.timespan, Int.le_refl _, rfl⟩
      · have since : rule.sinceFiring (rule.groupKey item.event) (item :: older) =
            rule.sinceFiring (rule.groupKey item.event) older ++ [item] := by
          rw [sinceFiring_cons, if_neg (fun both => holds (fires.mp both.2))]
        simp only [if_neg none_, if_neg holds, since, AList.lookup_insert]
        rw [window]
        exact ⟨item.event.ts - rule.timespan,
          Int.sub_le_sub_right (bound item List.mem_cons_self) _, (filter_collected item _).symm⟩
    · have since : rule.sinceFiring key (item :: older) =
          rule.sinceFiring key older ++ [item] := by
        rw [sinceFiring_cons, if_neg (fun both => here both.1)]
      have other : ∀ window : List WindowEntry,
          (windows.insert (rule.groupKey item.event) window).lookup key = windows.lookup key :=
        fun _ => AList.lookup_insert_ne (Ne.symm here)
      have kept := same fun equal => absurd equal here
      by_cases holds : rule.Holds
          (rule.window windows item.event item.event.ts (rule.matched item.baseAlerts))
      · simp only [if_neg none_, if_pos holds, since, other]
        exact kept
      · simp only [if_neg none_, if_neg holds, since, other]
        exact kept

theorem tracks_after {rules : List CompiledCorrelation} (inRules : rule ∈ rules)
    {older : List Feed} (inOrder : InOrder rules older) :
    Tracks rule older (rule.windowsAfter older) := by
  induction older with
  | nil =>
      intro key now _
      exact ⟨now - rule.timespan, Int.le_refl _, rfl⟩
  | cons item older inductionHypothesis =>
      exact (inductionHypothesis inOrder.older).step inOrder inRules

/-- The identifiers in an alert are those of the items that count. -/
theorem events_eq {rules : List CompiledCorrelation} {item : Feed} {older : List Feed}
    (inOrder : InOrder rules (item :: older)) :
    ((((rule.counted older item).flatMap rule.references).map WindowEntry.eventId).destutter
        (· ≠ ·)) =
      ((rule.counted older item).filter fun i => rule.references i ≠ []).map
        fun i => i.event.id := by
  have distinct : ((rule.counted older item).map fun i => i.event.id).Nodup := by
    have part : (rule.counted older item).Sublist (item :: older).reverse := by
      rw [List.reverse_cons]
      exact List.filter_sublist.trans ((sinceFiring_sublist _ older).append_right [item])
    have whole : ((item :: older).reverse.map fun i => i.event.id).Nodup := by
      rw [List.map_reverse]
      exact List.nodup_reverse.mpr inOrder.distinct
    exact whole.sublist (part.map _)
  rw [List.map_flatMap, FrontEviction.destutter_flatMap _ distinct]
  · simp only [ne_eq, List.map_eq_nil_iff]
  · intro i _ name member
    rcases List.mem_map.mp member with ⟨entry, inReferences, rfl⟩
    rcases mem_references.mp inReferences with ⟨alert, _, _, rfl⟩
    rfl

/-- On a stream in time order every call of the engine fires the alerts that the
specification asks for. -/
theorem process_eq_expected (rules : List CompiledCorrelation) (older : List Feed) (item : Feed)
    (inOrder : InOrder rules (item :: older)) :
    ((after rules older).process item.event item.baseAlerts item.clock).2 =
      rules.filterMap fun rule => rule.expected older item := by
  rw [process_after]
  apply List.filterMap_congr
  intro rule inRules
  have window := window_eq_counted inOrder inRules (tracks_after inRules inOrder.older)
  rw [process_cases _ (inOrder.nonzero item List.mem_cons_self), CompiledCorrelation.expected,
    window]
  by_cases none_ : rule.references item = []
  · rw [if_pos none_, if_neg (fun fires => fires.1 none_)]
  · rw [if_neg none_]
    by_cases holds : rule.Holds ((rule.counted older item).flatMap rule.references)
    · rw [if_pos (show rule.Fires older item from ⟨none_, holds⟩), ← events_eq inOrder]
      simp only [if_pos holds]
      rfl
    · rw [if_neg (fun fires : rule.Fires older item => holds fires.2)]
      simp only [if_neg holds]

/-! ## A burst of matches -/

/-- A number of matches of one rule within ten seconds, over all events. -/
def burst (least : Nat) : CompiledCorrelation where
  ruleId := "burst"
  title := "burst"
  severity := .high
  technique := none
  tags := []
  kind := .eventCount
  rules := ["base"]
  groupBy := []
  timespan := 10_000_000
  condition := { gte := some least }
  generate := false

/-- An event at a time in seconds, with one base alert. -/
def matchAt (id : String) (seconds : Int) : Feed where
  event :=
    { id := id, ts := seconds * 1_000_000, ingestTs := 0, ocsfClass := .processActivity
      tenant := "default", severity := .low, host := none, actor := none, target := none
      message := "", fields := .empty, templateId := none, labels := [], raw := [] }
  baseAlerts :=
    [{ ruleId := "base", title := "base", severity := .low, technique := none, events := [id]
       ts := seconds * 1_000_000 }]
  clock := 0

theorem inOrder_burst : InOrder [burst 2] [matchAt "b" 105, matchAt "a" 100] where
  nonzero := by decide
  ordered := by decide
  distinct := by decide
  range := by decide

theorem process_eq_expected_burst :
    InOrder [burst 2] [matchAt "b" 105, matchAt "a" 100] ∧
      ((after [burst 2] [matchAt "a" 100]).process (matchAt "b" 105).event
          (matchAt "b" 105).baseAlerts (matchAt "b" 105).clock).2 =
        [burst 2].filterMap fun rule => rule.expected [matchAt "a" 100] (matchAt "b" 105) :=
  ⟨inOrder_burst,
    process_eq_expected [burst 2] [matchAt "a" 100] (matchAt "b" 105) inOrder_burst⟩

end Sigma
end Sigil
