import Mathlib.Algebra.Order.BigOperators.Group.List
import Sigil.Sigma.Denotation
import Sigil.Sigma.Hunt
import Sigil.Sigma.SlidingWindow

namespace Sigil
namespace Sigma

/-!
# The alerts that a correlation references

A window has one entry for every referenced alert of an event, and a reference is compared
with the one identifier that the alerts of a base rule carry.  An event that two referenced
rules match is counted twice; a reference to the title of a rule that has an identifier is
never met.
-/

open Sigil.Core Library

variable {rule : CompiledCorrelation}

/-! ## What one call does to the windows -/

/-- A window afterwards is what is left of the window before and the new entries. -/
theorem lookup_process (rule : CompiledCorrelation) (windows : Windows) (event : Event)
    (baseAlerts : List Alert) (clock : Int) (key : String) :
    (((rule.process windows event baseAlerts clock).1.lookup key).getD []).Sublist
      ((windows.lookup key).getD [] ++
        rule.entries event (eventTime event clock) (rule.matched baseAlerts)) := by
  simp only [CompiledCorrelation.process]
  split
  · exact List.sublist_append_left _ _
  · split
    · by_cases here : key = rule.groupKey event
      · rw [here, AList.lookup_insert]
        exact List.nil_sublist _
      · rw [AList.lookup_insert_ne here]
        exact List.sublist_append_left _ _
    · by_cases here : key = rule.groupKey event
      · rw [here, AList.lookup_insert]
        exact List.dropWhile_sublist _
      · rw [AList.lookup_insert_ne here]
        exact List.sublist_append_left _ _

/-- An alert tells of a part of the old window and the new entries that satisfies the rule. -/
theorem process_fired {windows : Windows} {event : Event} {baseAlerts : List Alert} {clock : Int}
    {alert : Alert} (fired : (rule.process windows event baseAlerts clock).2 = some alert) :
    ∃ window : List WindowEntry,
      window.Sublist ((windows.lookup (rule.groupKey event)).getD [] ++
        rule.entries event (eventTime event clock) (rule.matched baseAlerts)) ∧
      evaluate rule window = true ∧ alert = rule.alert (eventTime event clock) window := by
  simp only [CompiledCorrelation.process] at fired
  split at fired
  · cases fired
  · split at fired
    · next satisfied =>
        exact ⟨_, List.dropWhile_sublist _, satisfied, (Option.some.inj fired).symm⟩
    · cases fired

/-- What an item adds to the window of its group. -/
def CompiledCorrelation.pushed (rule : CompiledCorrelation) (item : Feed) : List WindowEntry :=
  rule.entries item.event (eventTime item.event item.clock) (rule.matched item.baseAlerts)

/-- The windows hold nothing but what the items have added, in their order. -/
theorem windowsAfter_sublist (rule : CompiledCorrelation) (stream : List Feed) (key : String) :
    (((rule.windowsAfter stream).lookup key).getD []).Sublist
      (stream.reverse.flatMap rule.pushed) := by
  induction stream with
  | nil => exact List.nil_sublist _
  | cons item older inductionHypothesis =>
      rw [List.reverse_cons, List.flatMap_append, List.flatMap_singleton]
      exact (lookup_process rule _ item.event item.baseAlerts item.clock key).trans
        (inductionHypothesis.append_right _)

/-! ## Counting matches -/

theorem mem_destutter' {α : Type} [DecidableEq α] {x a : α} {list : List α}
    (member : x ∈ a :: list) : x ∈ list.destutter' (· ≠ ·) a := by
  induction list generalizing a with
  | nil => simpa using member
  | cons b list inductionHypothesis =>
      rw [List.destutter'_cons]
      split
      · rcases List.mem_cons.mp member with rfl | later
        · exact List.mem_cons_self
        · exact List.mem_cons_of_mem a (inductionHypothesis later)
      · next same =>
          rw [ne_eq, not_not] at same
          apply inductionHypothesis
          simpa [same] using member

/-- Removing repetitions keeps every element. -/
theorem mem_destutter {α : Type} [DecidableEq α] {x : α} {list : List α} (member : x ∈ list) :
    x ∈ list.destutter (· ≠ ·) := by
  cases list with
  | nil => exact absurd member List.not_mem_nil
  | cons a list => exact mem_destutter' member

/-- The items of a stream whose events an alert lists. -/
def listed (alert : Alert) (stream : List Feed) : List Feed :=
  stream.filter fun item => item.event.id ∈ alert.events

/-- The number of alerts of an item that the rule references. -/
def CompiledCorrelation.matches (rule : CompiledCorrelation) (item : Feed) : Nat :=
  (rule.matched item.baseAlerts).length

/-- The entries of listed events are as many as the matches of the listed items. -/
theorem length_pushed (rule : CompiledCorrelation) (alert : Alert) (stream : List Feed) :
    ((stream.reverse.flatMap rule.pushed).filter fun entry => entry.eventId ∈
      alert.events).length =
      ((listed alert stream).map rule.matches).sum := by
  have own : ∀ item : Feed,
      ((rule.pushed item).filter fun entry => entry.eventId ∈ alert.events).length =
        if item.event.id ∈ alert.events then rule.matches item else 0 := by
    intro item
    by_cases inside : item.event.id ∈ alert.events
    · simp [CompiledCorrelation.pushed, CompiledCorrelation.entries, CompiledCorrelation.matches,
        List.filter_map, Function.comp_def, inside]
    · simp [CompiledCorrelation.pushed, CompiledCorrelation.entries, List.filter_map,
        Function.comp_def, inside]
  induction stream with
  | nil => simp [listed]
  | cons item older inductionHypothesis =>
      rw [List.reverse_cons, List.flatMap_append, List.flatMap_singleton, List.filter_append,
        List.length_append, inductionHypothesis, own]
      by_cases inside : item.event.id ∈ alert.events
      · simp [listed, inside, Nat.add_comm]
      · simp [listed, inside]

/-- The events that an alert lists have at least as many referenced matches as the condition
asks for; when none of them has two, they are at least as many events. -/
theorem count_matches {rules : List CompiledCorrelation} {older : List Feed} {item : Feed}
    {alert : Alert} {n : Nat}
    (fired : alert ∈ ((after rules older).process item.event item.baseAlerts item.clock).2)
    (distinct : ((item :: older).map fun i => i.event.id).Nodup)
    (counts : ∀ rule ∈ rules, rule.ruleId = alert.ruleId →
      rule.kind = .eventCount ∧ rule.condition.gte = some n) :
    ∃ rule ∈ rules, rule.ruleId = alert.ruleId ∧
      n ≤ ((listed alert (item :: older)).map rule.matches).sum ∧
      ((∀ i ∈ listed alert (item :: older), rule.matches i ≤ 1) →
        n ≤ alert.events.toFinset.card) := by
  rw [process_after] at fired
  rcases List.mem_filterMap.mp fired with ⟨rule, inRules, fires⟩
  rcases process_fired fires with ⟨window, part, satisfied, isAlert⟩
  rcases counts rule inRules (by rw [isAlert]; rfl) with ⟨kind, least⟩
  have enough : n ≤ window.length := by
    simp [evaluate, kind, CountCondition.satisfied, least] at satisfied
    exact satisfied.1.1.1.2
  have lists : ∀ entry ∈ window, entry.eventId ∈ alert.events := by
    intro entry member
    rw [isAlert]
    exact mem_destutter (List.mem_map_of_mem member)
  have whole : window.Sublist ((item :: older).reverse.flatMap rule.pushed) := by
    rw [List.reverse_cons, List.flatMap_append, List.flatMap_singleton]
    exact part.trans ((windowsAfter_sublist rule older _).append_right _)
  have matched : n ≤ ((listed alert (item :: older)).map rule.matches).sum := by
    have within := (whole.filter fun entry => entry.eventId ∈ alert.events).length_le
    rw [length_pushed, List.filter_eq_self.mpr fun entry member => by simp [lists entry member]]
      at within
    exact enough.trans within
  refine ⟨rule, inRules, by rw [isAlert]; rfl, matched, fun single => ?_⟩
  -- without an event of two matches there are as many items as matches
  have items : ((listed alert (item :: older)).map rule.matches).sum ≤
      (listed alert (item :: older)).length := by
    have bound := List.sum_le_card_nsmul ((listed alert (item :: older)).map rule.matches) 1
    simp only [List.forall_mem_map, List.length_map] at bound
    simpa using bound single
  have ids : ((listed alert (item :: older)).map fun i => i.event.id).Nodup :=
    distinct.sublist (List.filter_sublist.map _)
  have subset : ((listed alert (item :: older)).map fun i => i.event.id).toFinset ⊆
      alert.events.toFinset := by
    intro id member
    rcases List.mem_map.mp (List.mem_toFinset.mp member) with ⟨i, isListed, rfl⟩
    exact List.mem_toFinset.mpr (of_decide_eq_true (List.mem_filter.mp isListed).2)
  have card := Finset.card_le_card subset
  rw [List.toFinset_card_of_nodup ids, List.length_map] at card
  exact matched.trans (items.trans card)

/-- The alert for two matches within ten seconds. -/
def burstAlert (events : List String) : Alert where
  ruleId := "burst"
  title := "burst"
  severity := .high
  technique := none
  events := events
  ts := 105_000_000

theorem count_matches_burst :
    ∃ rule ∈ [burst 2], rule.ruleId = "burst" ∧
      2 ≤ ((listed (burstAlert ["a", "b"]) [matchAt "b" 105, matchAt "a" 100]).map
        rule.matches).sum ∧
      ((∀ i ∈ listed (burstAlert ["a", "b"]) [matchAt "b" 105, matchAt "a" 100],
          rule.matches i ≤ 1) → 2 ≤ (burstAlert ["a", "b"]).events.toFinset.card) := by
  have fired : burstAlert ["a", "b"] ∈ ((after [burst 2] [matchAt "a" 100]).process
      (matchAt "b" 105).event (matchAt "b" 105).baseAlerts (matchAt "b" 105).clock).2 := by
    decide
  exact count_matches fired (by decide) (by simp [burst])

/-- An event that two rules match. -/
def matchedTwice : Feed :=
  { matchAt "a" 105 with
    baseAlerts := (matchAt "a" 105).baseAlerts ++
      (matchAt "a" 105).baseAlerts.map fun alert => { alert with ruleId := "other" } }

theorem not_count_events :
    ¬ ∀ (rules : List CompiledCorrelation) (older : List Feed) (item : Feed)
    (alert : Alert) (n : Nat), 1 ≤ n →
      alert ∈ ((after rules older).process item.event item.baseAlerts item.clock).2 →
      ((item :: older).map fun i => i.event.id).Nodup →
      (∀ rule ∈ rules, rule.ruleId = alert.ruleId →
        rule.kind = .eventCount ∧ rule.condition.gte = some n) →
      n ≤ alert.events.toFinset.card := by
  intro law
  have few := law [{ burst 2 with rules := ["base", "other"] }] [] matchedTwice (burstAlert ["a"]) 2
    (by decide) (by decide) (by decide) (by simp [burst])
  exact absurd few (by decide)

/-! ## References by title -/

/-- Put a title in the place of an identifier. -/
def retitle (id title : String) (name : String) : String :=
  if name = id then title else name

/-- The correlation rule with the title of a base rule in the place of its identifier. -/
def CompiledCorrelation.byTitle (rule : CompiledCorrelation) (id title : String) :
    CompiledCorrelation :=
  { rule with rules := rule.rules.map (retitle id title) }

/-- The item without the alerts that carry an identifier. -/
def Feed.without (item : Feed) (id : String) : Feed :=
  { item with baseAlerts := item.baseAlerts.filter fun alert => alert.ruleId ≠ id }

/-- The alerts that the rules fire along a stream. -/
def firedAlong (rules : List CompiledCorrelation) : List Feed → List (List Alert)
  | [] => []
  | item :: older =>
      ((after rules older).process item.event item.baseAlerts item.clock).2 ::
        firedAlong rules older

/-- The stream of some events with the alerts of the base rules, each with its clock. -/
def SigmaEngine.feeds {lib : Libraries} (engine : SigmaEngine lib) (events : List (Event × Int)) :
    List Feed :=
  events.map fun item =>
    { event := item.1, baseAlerts := engine.eval item.1 item.2, clock := item.2 }

section

variable {id title : String}

theorem retitle_eq_iff {other : String}
    (differs : other ≠ id ∧ other ≠ title) (name : String) :
    retitle id title name = other ↔ name = other := by
  rw [retitle]
  split
  · next same =>
      rw [same]
      exact iff_of_false (Ne.symm differs.2) (Ne.symm differs.1)
  · exact Iff.rfl

/-- No reference becomes the identifier. -/
theorem retitle_ne (differ : id ≠ title) (name : String) : retitle id title name ≠ id := by
  rw [retitle]
  split
  · exact Ne.symm differ
  · next other => exact other

theorem byTitle_same (corr : CompiledCorrelation) (same : id = title ∨ id ∉ corr.rules) :
    corr.byTitle id title = corr := by
  have names : corr.rules.map (retitle id title) = corr.rules.map fun name => name := by
    apply List.map_congr_left
    intro name member
    rw [retitle]
    split
    · next isId =>
        rcases same with sameName | absent
        · rw [isId, sameName]
        · exact absurd (isId ▸ member) absent
    · rfl
  rw [CompiledCorrelation.byTitle, names, List.map_id']

/-- A sequence in which neither name stands is worth the same under both references. -/
theorem sublist_retitle {found : List String}
    (neither : ∀ other ∈ found, other ≠ id ∧ other ≠ title) (names : List String) :
    (names.map (retitle id title)).Sublist found ↔ names.Sublist found := by
  have stay : (∀ name ∈ names, retitle id title name = name) →
      names.map (retitle id title) = names := by
    intro same
    rw [List.map_congr_left same, List.map_id']
  constructor
  · intro part
    rwa [stay] at part
    intro name member
    have isFound := part.subset (List.mem_map_of_mem member)
    exact ((retitle_eq_iff (neither _ isFound) name).mp rfl).symm
  · intro part
    rwa [stay]
    intro name member
    exact (retitle_eq_iff (neither name (part.subset member)) name).mpr rfl

/-- Neither name stands in the window. -/
def Avoids (id title : String) (window : List WindowEntry) : Prop :=
  ∀ entry ∈ window, entry.ruleId ≠ id ∧ entry.ruleId ≠ title

theorem evaluate_byTitle (corr : CompiledCorrelation) {window : List WindowEntry}
    (avoids : Avoids id title window) :
    evaluate (corr.byTitle id title) window = evaluate corr window := by
  rw [Bool.eq_iff_iff, evaluate_iff_holds, evaluate_iff_holds]
  cases kind : corr.kind with
  | eventCount => simp [CompiledCorrelation.Holds, CompiledCorrelation.byTitle, kind]
  | valueCount => simp [CompiledCorrelation.Holds, CompiledCorrelation.byTitle, kind]
  | temporal =>
      simp only [CompiledCorrelation.Holds, CompiledCorrelation.byTitle, kind, List.forall_mem_map]
      apply forall₂_congr
      intro name _
      apply exists_congr
      intro entry
      apply and_congr_right
      intro member
      rw [eq_comm, retitle_eq_iff (avoids entry member), eq_comm]
  | temporalOrdered =>
      simp only [CompiledCorrelation.Holds, CompiledCorrelation.byTitle, kind]
      apply sublist_retitle
      intro other member
      rcases List.mem_map.mp member with ⟨entry, inWindow, rfl⟩
      exact avoids entry inWindow

theorem matched_byTitle (corr : CompiledCorrelation) (differ : id ≠ title)
    {baseAlerts : List Alert} (silent : ∀ alert ∈ baseAlerts, alert.ruleId ≠ title) :
    (corr.byTitle id title).matched baseAlerts =
      corr.matched (baseAlerts.filter fun alert => alert.ruleId ≠ id) := by
  rw [CompiledCorrelation.matched, CompiledCorrelation.matched, List.filter_filter]
  apply List.filter_congr
  intro alert member
  rw [Bool.eq_iff_iff]
  simp only [CompiledCorrelation.byTitle, List.mem_map, decide_eq_true_eq, Bool.and_eq_true]
  by_cases isId : alert.ruleId = id
  · simp [isId, retitle_ne differ]
  · simp [retitle_eq_iff ⟨isId, silent alert member⟩, isId]

theorem avoids_entries (corr : CompiledCorrelation) {baseAlerts : List Alert}
    (silent : ∀ alert ∈ baseAlerts, alert.ruleId ≠ title) (event : Event) (now : Int) :
    Avoids id title (corr.entries event now
      (corr.matched (baseAlerts.filter fun alert => alert.ruleId ≠ id))) := by
  intro entry member
  rcases List.mem_map.mp member with ⟨alert, isMatched, rfl⟩
  rcases List.mem_filter.mp (List.mem_filter.mp isMatched).1 with ⟨isAlert, other⟩
  exact ⟨of_decide_eq_true other, silent alert isAlert⟩

/-- A reference by title hears nothing of the rule: it is as if its alerts were left out. -/
theorem process_byTitle (corr : CompiledCorrelation) (differ : id ≠ title)
    {baseAlerts : List Alert} (silent : ∀ alert ∈ baseAlerts, alert.ruleId ≠ title)
    {windows : Windows} (avoids : ∀ key, Avoids id title ((windows.lookup key).getD []))
    (event : Event) (clock : Int) : (corr.byTitle id title).process windows event baseAlerts clock =
      corr.process windows event (baseAlerts.filter fun alert => alert.ruleId ≠ id) clock := by
  have matched := matched_byTitle corr differ silent
  have window : ∀ now found, (corr.byTitle id title).window windows event now found =
      corr.window windows event now found :=
    fun _ _ => rfl
  have held : ∀ now, Avoids id title (corr.window windows event now
      (corr.matched (baseAlerts.filter fun alert => alert.ruleId ≠ id))) := by
    intro now entry member
    rcases List.mem_append.mp ((List.dropWhile_sublist _).subset member) with old | new
    · exact avoids _ entry old
    · exact avoids_entries corr silent event now entry new
  simp only [CompiledCorrelation.process, matched, window, evaluate_byTitle corr (held _)]
  rfl

/-- No base alert of the stream carries the name. -/
def Silent (name : String) (stream : List Feed) : Prop :=
  ∀ item ∈ stream, ∀ alert ∈ item.baseAlerts, alert.ruleId ≠ name

theorem avoids_windowsAfter (corr : CompiledCorrelation) {stream : List Feed}
    (silent : Silent title stream) (key : String) :
    Avoids id title
      (((corr.windowsAfter (stream.map fun item => item.without id)).lookup key).getD []) := by
  intro entry member
  rcases List.mem_flatMap.mp ((windowsAfter_sublist corr _ key).subset member) with
    ⟨other, isItem, isPushed⟩
  rcases List.mem_map.mp (List.mem_reverse.mp isItem) with ⟨item, inStream, rfl⟩
  exact avoids_entries corr (silent item inStream) _ _ entry isPushed

theorem windowsAfter_byTitle (corr : CompiledCorrelation) (differ : id ≠ title)
    {stream : List Feed} (silent : Silent title stream) :
    (corr.byTitle id title).windowsAfter stream =
      corr.windowsAfter (stream.map fun item => item.without id) := by
  induction stream with
  | nil => simp [CompiledCorrelation.windowsAfter]
  | cons item older inductionHypothesis =>
      rcases List.forall_mem_cons.mp silent with ⟨here, before⟩
      rw [List.map_cons, CompiledCorrelation.windowsAfter, CompiledCorrelation.windowsAfter,
        inductionHypothesis before,
        process_byTitle corr differ here (avoids_windowsAfter corr before)]
      rfl

/-- The engine fires for the rule by title what it fires for the rule by identifier when the
alerts with this identifier are left out of the stream. -/
theorem firedAlong_byTitle (corr : CompiledCorrelation) (differ : id ≠ title) {stream : List Feed}
    (silent : Silent title stream) :
    firedAlong [corr.byTitle id title] stream =
      firedAlong [corr] (stream.map fun item => item.without id) := by
  induction stream with
  | nil => simp [firedAlong]
  | cons item older inductionHypothesis =>
      rcases List.forall_mem_cons.mp silent with ⟨here, before⟩
      rw [List.map_cons, firedAlong, firedAlong, inductionHypothesis before, process_after,
        process_after, List.filterMap_cons, List.filterMap_cons,
        windowsAfter_byTitle corr differ before,
        process_byTitle corr differ here (avoids_windowsAfter corr before)]
      rfl

theorem without_silent {stream : List Feed} (silent : Silent id stream) :
    stream.map (fun item => item.without id) = stream := by
  have each : ∀ item ∈ stream, item.without id = item := by
    intro item member
    rw [Feed.without, List.filter_eq_self.mpr]
    intro alert isAlert
    exact decide_eq_true (silent item member alert isAlert)
  rw [List.map_congr_left each, List.map_id']

end

/-- The alerts of a base rule carry its identifier when it has one. -/
theorem ruleId_of_fromRule {lib : Libraries} {rule : SigmaRule} {compiled : CompiledRule lib}
    (isRule : CompiledRule.fromRule lib rule = .ok compiled) :
    compiled.ruleId = rule.id.getD rule.title := by
  rcases CompiledRule.fromRule_eq_ok_iff.mp isRule with ⟨_, _, _, _, _, rfl⟩
  rfl

/-- No event of the stream matches a base rule whose alerts carry the name. -/
def SigmaEngine.Quiet {lib : Libraries} (engine : SigmaEngine lib) (name : String)
    (events : List (Event × Int)) : Prop :=
  ∀ item ∈ events, ∀ rule ∈ engine.rules, rule.matches item.1 = true →
    rule.ruleId ≠ name

instance {lib : Libraries} (engine : SigmaEngine lib) (name : String)
    (events : List (Event × Int)) : Decidable (engine.Quiet name events) :=
  inferInstanceAs (Decidable (∀ item ∈ events, ∀ rule ∈ engine.rules,
    rule.matches item.1 = true → rule.ruleId ≠ name))

theorem SigmaEngine.Quiet.silent {lib : Libraries} {engine : SigmaEngine lib} {name : String}
    {events : List (Event × Int)} (quiet : engine.Quiet name events) :
    Silent name (engine.feeds events) := by
  intro feed isFeed alert isAlert
  rcases List.mem_map.mp isFeed with ⟨item, isItem, rfl⟩
  rcases List.mem_map.mp isAlert with ⟨rule, hits, rfl⟩
  rcases List.mem_filter.mp hits with ⟨isRule, isMatch⟩
  exact quiet item isItem rule isRule isMatch

/-- A correlation may name a base rule by its title where the rule has no other identifier, is
not referenced, or does not match; the rule is suppressed alike where the two names are one,
the rule is not referenced, or nothing is suppressed. -/
theorem byTitle_iff {lib : Libraries} {base : List SigmaRule} {engine : SigmaEngine lib}
    (compiled : List.Forall₂ (fun rule result => CompiledRule.fromRule lib rule = .ok result) base
      engine.rules)
    {rule : SigmaRule} (isBase : rule ∈ base) {id : String} (named : rule.id = some id)
    (corr : CompiledCorrelation) :
    (∀ events : List (Event × Int),
      (id = rule.title ∨ id ∉ corr.rules ∨
        engine.Quiet id events ∧ engine.Quiet rule.title events) →
      firedAlong [corr.byTitle id rule.title] (engine.feeds events) =
        firedAlong [corr] (engine.feeds events)) ∧
    ((∀ other ∈ engine.rules,
        (CorrelationEngine.new [corr.byTitle id rule.title]).suppressed other.ruleId =
          (CorrelationEngine.new [corr]).suppressed other.ruleId) ↔
      corr.generate = true ∨ id = rule.title ∨ id ∉ corr.rules) := by
  constructor
  · intro events condition
    by_cases same : id = rule.title ∨ id ∉ corr.rules
    · rw [byTitle_same corr same]
    · rcases not_or.mp same with ⟨differ, referenced⟩
      rcases (condition.resolve_left differ).resolve_left referenced with ⟨quiet, quiet'⟩
      rw [firedAlong_byTitle corr differ quiet'.silent, without_silent quiet.silent]
  · constructor
    · intro alike
      by_contra other
      rw [not_or, not_or, not_not] at other
      rcases other with ⟨suppresses, differ, referenced⟩
      rcases Pointwise.exists_right compiled isBase with ⟨result, isResult, isRule⟩
      have here := alike result isResult
      rw [ruleId_of_fromRule isRule, named] at here
      simp [CorrelationEngine.suppressed, CorrelationEngine.new, CompiledCorrelation.byTitle,
        suppresses, referenced, retitle_ne differ] at here
    · intro either other _
      rcases either with generates | same
      · simp [CorrelationEngine.suppressed, CorrelationEngine.new, CompiledCorrelation.byTitle,
          generates]
      · rw [byTitle_same corr same]

/-! ### A rule that is referenced by title -/

/-- A rule with a keyword. -/
def keywordOf (id title word : String) : SigmaRule where
  title := title
  id := some id
  detection :=
    { entries := [(.string "keywords", .string word), (.string "condition", .string "keywords")]
      distinct := by simp }

/-- What a rule with a keyword compiles to. -/
def compiledKeyword (id title word : String) : CompiledRule asciiLibraries where
  ruleId := id
  title := title
  severity := .medium
  technique := none
  tags := []
  selections := (∅ : AList fun _ : String => Selection asciiLibraries).insert "keywords"
    (.keywords [.contains (asciiLibraries.cases.toLowercase word)])
  names := ["keywords"]
  condition := .ref "keywords"

theorem fromRule_keywordOf (id title word : String) :
    CompiledRule.fromRule asciiLibraries (keywordOf id title word) =
      .ok (compiledKeyword id title word) := by
  have parsed : parseCondition "keywords" = .ok (.ref "keywords") := by decide +kernel
  exact CompiledRule.fromRule_eq_ok_iff.mpr ⟨_, _, _, rfl, parsed, rfl⟩

/-- A rule with an identifier and a title. -/
def sshFailed : SigmaRule :=
  keywordOf "rule-ssh-failed" "SSH Failed Password" "failed"

/-- Failed logins and the use of sudo are looked for. -/
def loginEngine : SigmaEngine asciiLibraries where
  rules := [compiledKeyword "rule-ssh-failed" "SSH Failed Password" "failed",
    compiledKeyword "rule-sudo" "Sudo" "sudo"]

theorem loginEngine_compiled :
    List.Forall₂ (fun rule result => CompiledRule.fromRule asciiLibraries rule = .ok result)
      [sshFailed, keywordOf "rule-sudo" "Sudo" "sudo"] loginEngine.rules :=
  .cons (fromRule_keywordOf _ _ _) (.cons (fromRule_keywordOf _ _ _) .nil)

/-- Failed logins are counted. -/
def sshCorrelation : CompiledCorrelation :=
  { burst 3 with rules := ["rule-ssh-failed"] }

/-- Failed logins and the use of sudo are counted, and reported one by one as well. -/
def loginCorrelation : CompiledCorrelation :=
  { burst 2 with rules := ["rule-ssh-failed", "rule-sudo"], generate := true }

/-- An event with a message at a time in seconds. -/
def messageAt (message id : String) (seconds : Int) : Event :=
  { (matchAt id seconds).event with message := message }

/-- Sudo is used twice, and nobody fails to log in. -/
def sudoTwice : List (Event × Int) :=
  [(messageAt "sudo su" "b" 105, 0), (messageAt "sudo id" "a" 100, 0)]

theorem byTitle_iff_sshFailed :
    firedAlong [loginCorrelation.byTitle "rule-ssh-failed" "SSH Failed Password"]
        (loginEngine.feeds sudoTwice) =
      firedAlong [loginCorrelation] (loginEngine.feeds sudoTwice) ∧
    ((firedAlong [loginCorrelation] (loginEngine.feeds sudoTwice)).map List.length = [1, 0]) ∧
    ∀ other ∈ loginEngine.rules,
      (CorrelationEngine.new
          [loginCorrelation.byTitle "rule-ssh-failed" "SSH Failed Password"]).suppressed
          other.ruleId =
        (CorrelationEngine.new [loginCorrelation]).suppressed other.ruleId := by
  have both := byTitle_iff loginEngine_compiled List.mem_cons_self
    (show sshFailed.id = some "rule-ssh-failed" from rfl) loginCorrelation
  have quiet : loginEngine.Quiet "rule-ssh-failed" sudoTwice ∧
      loginEngine.Quiet "SSH Failed Password" sudoTwice := by
    constructor <;> decide +kernel
  exact ⟨both.1 sudoTwice (Or.inr (Or.inr quiet)), by decide +kernel, both.2.mpr (Or.inl rfl)⟩

theorem not_byTitle_same :
    ¬ ∀ (lib : Libraries) (base : List SigmaRule) (engine : SigmaEngine lib),
    List.Forall₂ (fun rule result => CompiledRule.fromRule lib rule = .ok result) base
      engine.rules →
    (base.filterMap SigmaRule.id ++ base.map SigmaRule.title).Nodup →
    ∀ rule ∈ base, ∀ id, rule.id = some id → ∀ corr : CompiledCorrelation,
      (∀ events, firedAlong [corr.byTitle id rule.title] (engine.feeds events) =
        firedAlong [corr] (engine.feeds events)) ∧
      ∀ other ∈ engine.rules,
        (CorrelationEngine.new [corr.byTitle id rule.title]).suppressed other.ruleId =
          (CorrelationEngine.new [corr]).suppressed other.ruleId := by
  intro law
  have alike := (law asciiLibraries _ loginEngine loginEngine_compiled (by decide) sshFailed
    List.mem_cons_self "rule-ssh-failed" rfl sshCorrelation).2 _ List.mem_cons_self
  exact absurd alike (by decide)

end Sigma
end Sigil
