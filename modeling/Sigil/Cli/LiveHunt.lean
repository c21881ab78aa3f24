import Sigil.Cli.Tiers

namespace Sigil
namespace Cli

/-!
# A hunt over a node that has stopped

The detection path of the node and the hunt over its cold tier are written apart.  When the node
looks at every event that it stores, with the rules that the hunt uses, a hunt over the whole of
the cold tier finds the alerts that the node has emitted while it ran.
-/

open Sigil.Core Sigil.Index Sigil.Ingest Sigil.Sigma

variable {lib : Libraries} {parts : Parts}

/-- The turn stores what it looks at, and looks at what it stores. -/
def Turn.Watches (parts : Parts) : Turn lib → Prop
  | .frame raw _ => raw.shouldSigma = true ∧ raw.shouldIndex = true
  | .telemetry _ _ => parts.sigmaActive = true
  | .edit _ => False
  | _ => True

instance (turn : Turn lib) : Decidable (turn.Watches parts) :=
  match turn with
  | .frame raw _ => inferInstanceAs (Decidable (raw.shouldSigma = true ∧ raw.shouldIndex = true))
  | .telemetry _ _ => inferInstanceAs (Decidable (parts.sigmaActive = true))
  | .edit _ => .isFalse id
  | .drained _ | .commitTick _ | .rolloverTick _ _ _ | .retentionTick _ _ _ _ | .ctrlC _
  | .patch _ _ _ => .isTrue trivial

def Entry.Watched : Entry lib → Prop
  | .arrival shouldSigma shouldIndex _ _ _ => shouldSigma = true ∧ shouldIndex = true
  | .edit _ => False
  | .patch _ _ _ => True

/-! ## What is watched -/

theorem watched_arrivals (outside : Nat → Outside) (n : Nat) (events : List Event) :
    ∀ entry ∈ arrivals true true outside n events, Entry.Watched (entry : Entry lib) := by
  induction events generalizing n with
  | nil => exact fun _ member => absurd member List.not_mem_nil
  | cons event events inductionHypothesis =>
      rw [arrivals, List.forall_mem_cons]
      exact ⟨⟨rfl, rfl⟩, inductionHypothesis (n + 1)⟩

theorem Turn.Watches.brings {turn : Turn lib} (watches : turn.Watches parts) (inputsOpen : Bool) :
    ∀ entry ∈ turn.brings parts inputsOpen, entry.Watched := by
  cases turn with
  | frame raw outside =>
      rw [Turn.brings, watches.1, watches.2]
      split
      · exact watched_arrivals _ _ _
      · exact fun _ member => absurd member List.not_mem_nil
  | telemetry event outside =>
      intro entry member
      rw [List.mem_singleton.mp member]
      exact ⟨watches, rfl⟩
  | edit engine => exact absurd watches id
  | patch fp patch now => exact List.forall_mem_singleton.mpr trivial
  | _ => exact fun _ member => absurd member List.not_mem_nil

theorem watched_entries {turns : List (Turn lib)} (watches : ∀ turn ∈ turns, turn.Watches parts)
    (inputsOpen : Bool) : ∀ entry ∈ entries parts inputsOpen turns, entry.Watched := by
  induction turns generalizing inputsOpen with
  | nil => exact fun _ member => absurd member List.not_mem_nil
  | cons turn turns inductionHypothesis =>
      rcases List.forall_mem_cons.mp watches with ⟨first, rest⟩
      intro entry member
      rw [entries, List.mem_append] at member
      rcases member with here | later
      · exact first.brings inputsOpen entry here
      · split at later
        · exact absurd later List.not_mem_nil
        · exact inductionHypothesis rest _ entry later

/-! ## What the journal of watched events shows -/

/-- An event with a time of its own does not look at the clock. -/
theorem detect_clock (engine : SigmaEngine lib) (correlations : CorrelationEngine)
    (detectors : Event → List Alert) {event : Event} (nonzero : event.ts ≠ 0)
    (clock clock' : Int) :
    Sigma.detect engine correlations detectors event clock =
      Sigma.detect engine correlations detectors event clock' := by
  rw [Sigma.detect, Sigma.detect, (SameView.refl event).alerts engine nonzero clock clock',
    (SameView.refl event).process correlations _ nonzero clock clock']

/-- A journal of watched events lists them, and has emitted what the detection path finds. -/
theorem Journal.noteAll_watched {journal : Journal lib} {entries : List (Entry lib)}
    (watched : ∀ entry ∈ entries, entry.Watched)
    (nonzero : ∀ event ∈ (journal.noteAll parts entries).documents, event.ts ≠ 0)
    (clock : Nat → Int) (n : Nat) :
    ∃ arrived, (journal.noteAll parts entries).documents = journal.documents ++ arrived ∧
      (journal.noteAll parts entries).emitted = journal.emitted ++
        (detectAll journal.engine parts.detectors clock n journal.correlations arrived).flatMap
          Detected.alerts := by
  induction entries generalizing journal n with
  | nil => exact ⟨[], (List.append_nil _).symm, (List.append_nil _).symm⟩
  | cons entry entries inductionHypothesis =>
      rcases List.forall_mem_cons.mp watched with ⟨first, rest⟩
      cases entry with
      | edit engine => exact absurd first id
      | patch fp patch now => exact @inductionHypothesis _ rest nonzero n
      | arrival shouldSigma shouldIndex event time recorded =>
          rcases first with ⟨rfl, rfl⟩
          rcases @inductionHypothesis _ rest nonzero (n + 1) with ⟨arrived, documents, emitted⟩
          -- the event is looked at and listed with its template
          let mined := { event with
            templateId :=
              some (.ofNat (journal.miner.mine singleRatio event.message).1.templateId) }
          have isListed : mined ∈ (journal.noteAll parts
              (.arrival true true event time recorded :: entries)).documents := by
            rw [Journal.noteAll, List.foldl_cons, ← Journal.noteAll, documents]
            exact List.mem_append_left _ (List.mem_append_right _ (List.mem_singleton.mpr rfl))
          have now := detect_clock journal.engine journal.correlations parts.detectors
            (nonzero mined isListed) time (clock n)
          refine ⟨mined :: arrived, documents.trans (List.append_assoc _ _ _), emitted.trans ?_⟩
          rw [detectAll, List.flatMap_cons, ← now, ← List.append_assoc]
          rfl

theorem detectAll_custom (engine : SigmaEngine lib) (detectors : Event → List Alert)
    (clock : Nat → Int) (n : Nat) (correlations : CorrelationEngine) (events : List Event) :
    (detectAll engine detectors clock n correlations events).map Detected.custom =
      events.map detectors := by
  induction events generalizing n correlations with
  | nil => rfl
  | cons event events inductionHypothesis =>
      rw [detectAll, List.map_cons, List.map_cons, inductionHypothesis]
      rfl

/-! ## The hunt -/

theorem Write.maxTs_mem {write : Write} (some_ : write.events ≠ []) :
    ∃ event ∈ write.events, event.ts = write.maxTs := by
  cases most : (write.events.map Event.ts).max? with
  | none => exact absurd (List.map_eq_nil_iff.mp (List.max?_eq_none_iff.mp most)) some_
  | some high =>
      rcases List.mem_map.mp (List.max?_eq_some_iff.mp most).1 with ⟨event, member, same⟩
      exact ⟨event, member, by rw [Write.maxTs, most, same]; rfl⟩

/-- A stopped node whose events were never too old shows all of them. -/
theorem Node.Tiers.readRange_all {node : Node lib} {used : List Int64} {isExpired : Write → Prop}
    {ledger : Ledger} (tiers : node.Tiers parts used isExpired ledger) (flushed : node.buffer = [])
    (young : ∀ write, isExpired write → ∃ now maxAge, maxAge < toI64 (now - write.maxTs) ∧
      ∀ event ∈ node.hot.documents, toI64 (now - event.ts) ≤ maxAge) {start stop : Int}
    (inWindow : ∀ event ∈ node.hot.documents, start ≤ event.ts ∧ event.ts ≤ stop) :
    node.machine.store.readRange parts.json start stop =
      .ok (node.hot.documents.map (stored parts.json)) := by
  have documents := tiers.documents
  rw [flushed, List.append_nil] at documents
  have listed :
      ∀ write ∈ ledger.written, ∀ event ∈ write.events, event ∈ node.hot.documents := by
    intro write isWritten event member
    rw [documents]
    exact List.mem_flatMap_of_mem isWritten member
  have expired : ledger.expired = [] := by
    rw [List.eq_nil_iff_forall_not_mem]
    intro id member
    rcases tiers.settled.sound.expired id member with ⟨write, isWritten, rfl⟩
    rcases young write ((tiers.expired write isWritten).mp member) with
      ⟨now, maxAge, old, notOld⟩
    rcases Write.maxTs_mem (tiers.batches write isWritten).1 with ⟨event, isEvent, isMax⟩
    have := notOld event (listed write isWritten event isEvent)
    rw [isMax] at this
    omega
  have whole : ∀ write ∈ ledger.written,
      inRange start stop (write.events.map (stored parts.json)) =
        write.events.map (stored parts.json) := by
    intro write isWritten
    rw [inRange, List.filter_eq_self]
    intro event member
    rcases List.mem_map.mp member with ⟨original, isOriginal, rfl⟩
    exact decide_eq_true (inWindow original (listed write isWritten original isOriginal))
  rw [tiers.settled.readRange, Ledger.inRange, Ledger.live, expired,
    List.filter_eq_self.mpr fun _ _ => decide_eq_true List.not_mem_nil,
    List.flatMap_congr whole, documents, List.map_flatMap]

/-- A hunt with the rules of the node over the whole of its cold tier, after it has stopped, finds
the base alerts and the correlation alerts that the node has emitted while it ran, in their order.
The node looks at what it stores, the events come in the order of their times, and the retention
has not found one of them too old. -/
theorem Node.hunt_eq_live (parts : Parts) (engine : SigmaEngine lib)
    (rules : List CompiledCorrelation) (simThreshold : Single) (cap : Nat) (coldDir : String)
    (archive : Option ObjectColdStore) (turns : List (Turn lib))
    (distinct : (turns.flatMap (Turn.times parts)).Nodup)
    (watches : ∀ turn ∈ turns, turn.Watches parts) :
    let node := (Node.start engine rules simThreshold cap coldDir archive).run parts turns
    node.phase = .stopped →
    (∀ event ∈ node.hot.documents, event.ts ≠ 0 ∧ parts.json.Keeps event.fields) →
    node.hot.documents.Pairwise (fun early late => early.ts < late.ts) →
    (∀ now ∈ turns.flatMap Turn.ticks, ∀ maxAge ∈ parts.retention,
      ∀ event ∈ node.hot.documents, toI64 (now - event.ts) ≤ maxAge) →
    ∀ start stop, (∀ event ∈ node.hot.documents, start ≤ event.ts ∧ event.ts ≤ stop) →
    ∃ (live : List Detected) (events : List Event),
      node.emitted = live.flatMap Detected.alerts ∧
      live.map Detected.custom = node.hot.documents.map parts.detectors ∧
      node.machine.store.readRange parts.json start stop = .ok events ∧
      ∀ clock, (retroHunt engine (.new rules) clock events).2 =
        { scanned := node.hot.documents.length
          alerts := live.flatMap Detected.kept
          correlationAlerts := live.flatMap Detected.fired } := by
  intro node stopped events ascending young start stop inWindow
  have goesOn : node.phase ≠ .failed := by
    rw [stopped]
    decide
  rcases Node.start_agrees distinct goesOn with ⟨⟨⟨ledger, tiers⟩, _⟩, flushed⟩
  have notExpired : ∀ write, Node.Expires parts
      (Node.start engine rules simThreshold cap coldDir archive) turns write →
        ∃ now maxAge, maxAge < toI64 (now - write.maxTs) ∧
          ∀ event ∈ node.hot.documents, toI64 (now - event.ts) ≤ maxAge := by
    rintro write ⟨before, turn, after, rfl, -, -, now, isTick, maxAge, keeps, old⟩
    have ticked : now ∈ (before ++ turn :: after).flatMap Turn.ticks :=
      List.mem_flatMap_of_mem (List.mem_append_right _ List.mem_cons_self) isTick
    exact ⟨now, maxAge, old, young now ticked maxAge keeps⟩
  have read := tiers.readRange_all (flushed stopped).2 notExpired inWindow
  have journal := Node.run_journal rfl turns goesOn
  have documents : node.hot.documents = _ := congrArg Journal.documents journal
  have nonzero : ∀ event ∈ node.hot.documents, event.ts ≠ 0 :=
    fun event member => (events event member).1
  rcases @Journal.noteAll_watched lib parts _ _ (watched_entries watches true)
    (fun event member => nonzero event (documents ▸ member)) (fun _ => 0) 0 with
    ⟨arrived, listed, emitted⟩
  have same : node.hot.documents = arrived := documents.trans listed
  refine ⟨detectAll engine parts.detectors (fun _ => 0) 0 (.new rules) node.hot.documents, _,
    ?_, ?_, read, fun clock => ?_⟩
  · rw [same]
    exact (congrArg Journal.emitted journal).trans emitted
  · exact detectAll_custom _ _ _ _ _ _
  · rw [retroHunt_map engine (.new rules) clock (fun _ => 0)
      (fun event member => sameView_stored (events event member).2) nonzero, retroHunt,
      sorted_eq ?_ (.refl _) (ascending.imp Int.le_of_lt),
      replay_eq_detectAll engine parts.detectors _ (fun _ => 0) nonzero 0 0]
    · rfl
    · exact List.pairwise_map.mpr (ascending.imp Int.ne_of_lt)

theorem Node.hunt_eq_live_oneTelemetry :
    let node :=
      (Node.start ⟨[startRule]⟩ [] (.finite (1 / 2)) 10 "cold" none).run plainParts oneTelemetry
    ∃ (live : List Detected) (events : List Event),
      node.emitted = live.flatMap Detected.alerts ∧
      node.machine.store.readRange plainParts.json 0 100 = .ok events ∧
      (retroHunt ⟨[startRule]⟩ (.new []) (fun _ => 0) events).2 =
        { scanned := 1
          alerts := live.flatMap Detected.kept
          correlationAlerts := live.flatMap Detected.fired } ∧
      (retroHunt ⟨[startRule]⟩ (.new []) (fun _ => 0) events).2.alerts.map Alert.ruleId =
        [startRule.ruleId] := by
  intro node
  have documents : node.hot.documents =
      [{ agentEvent (some "web01") with templateId := some 1 }] := by
    rfl
  have found : (node.machine.store.readRange plainParts.json 0 100).map (fun events =>
      (retroHunt ⟨[startRule]⟩ (.new []) (fun _ => 0) events).2.alerts.map Alert.ruleId) =
        .ok [startRule.ruleId] := by
    decide +kernel
  rcases Node.hunt_eq_live plainParts ⟨[startRule]⟩ []
    (.finite (1 / 2)) 10 "cold" none oneTelemetry
    (by decide) (by decide) (by decide +kernel)
    (by rw [documents]; exact List.forall_mem_singleton.mpr ⟨by decide, rfl⟩)
    (by rw [documents]; exact List.pairwise_singleton _ _) (by decide) 0 100
    (by rw [documents]; decide) with ⟨live, events, emitted, _, read, hunted⟩
  rw [read] at found
  refine ⟨live, events, emitted, read, ?_, Except.ok.inj found⟩
  rw [hunted, documents]
  rfl

end Cli
end Sigil
