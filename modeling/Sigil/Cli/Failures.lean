import Sigil.Cli.Journal

namespace Sigil
namespace Cli

/-!
# What stops a node

Only the hot index, the cold tier and a retention call can end the loop with an error, and a
record whose message makes the normalizer panic.  No frame is refused, a migration that fails is
only logged, and a file that cannot be unlinked is left behind.
-/

open Sigil.Core Sigil.Index Sigil.Ingest Sigil.Normalize Sigil.Sigma

variable {lib : Libraries} {parts : Parts}

/-- Segment files and the catalog can be written. -/
def Writes (faults : Faults) : Prop :=
  faults.created = .done ∧ faults.saved = .done

/-- A user can be read from the message of a record, if one is looked for. -/
def Readable (tables : CaseTables) (record : Record) : Prop :=
  Searched tables record → (extractUserFromMessage tables (messageOf record)).isSome = true

/-- The writes of a turn succeed, and its records can be normalized. -/
def Turn.Spares (parts : Parts) : Turn lib → Prop
  | .frame raw outside =>
      (∀ record ∈ decode parts.decoders raw.codecKind raw.bytes,
        Readable parts.tables record) ∧
        ∀ n, (outside n).added = true ∧ Writes (outside n).faults
  | .telemetry _ outside => outside.added = true ∧ Writes outside.faults
  | .commitTick committed => committed = true
  | .rolloverTick _ _ faults => Writes faults
  | .retentionTick _ dropping _ _ =>
      parts.retention.isSome = true →
        (∀ n, dropping.objects n = .done) ∧ (dropping.faults 0).saved = .done
  | .drained last | .ctrlC last => last.committed = true ∧ Writes last.faults
  | .edit _ | .patch _ _ _ => True

/-- One of the turns ends the loop. -/
def closes (parts : Parts) (inputsOpen : Bool) : List (Turn lib) → Bool
  | [] => false
  | turn :: turns =>
      turn.ends parts inputsOpen || closes parts (turn.leavesOpen inputsOpen) turns

/-! ## The parts of a turn -/

/-- The step goes through. -/
def Passes (node : Node lib) (result : Except (Node lib) (Node lib)) : Prop :=
  ∃ after, result = .ok after ∧ after.phase = node.phase

variable {node : Node lib}

theorem Passes.bind {result : Except (Node lib) (Node lib)}
    {next : Node lib → Except (Node lib) (Node lib)} (passes : Passes node result)
    (then_ : ∀ after, Passes after (next after)) : Passes node (result.bind next) := by
  rcases passes with ⟨middle, rfl, first⟩
  rcases then_ middle with ⟨after, second, last⟩
  exact ⟨after, second, last.trans first⟩

theorem Passes.settle {result : Except (Node lib) (Node lib)} (passes : Passes node result) :
    (Node.settle result).phase = node.phase := by
  rcases passes with ⟨after, rfl, same⟩
  exact same

theorem Node.roll_passes (rolled created : Int64) {faults : Faults} (writes : Writes faults) :
    Passes node (node.roll parts rolled created faults) := by
  rw [Node.roll, Machine.roll]
  by_cases empty : node.buffer.isEmpty = true
  · rw [if_pos empty]
    exact ⟨_, rfl, rfl⟩
  · rw [if_neg empty, Machine.writeSegment, if_neg empty, writes.1]
    dsimp only
    rw [Machine.add, writes.2]
    exact ⟨_, rfl, rfl⟩

theorem Node.store_passes (event : Event) {outside : Outside} (added : outside.added = true)
    (writes : Writes outside.faults) : Passes node (node.store parts event outside) := by
  rw [Node.store, if_pos added]
  dsimp only
  split
  · exact Node.roll_passes _ _ writes
  · exact ⟨_, rfl, rfl⟩

theorem Node.handle_passes (shouldSigma shouldIndex : Bool) (event : Event) {outside : Outside}
    (added : outside.added = true) (writes : Writes outside.faults) :
    Passes node (node.handle parts shouldSigma shouldIndex event outside) := by
  rw [Node.handle]
  cases shouldIndex with
  | true =>
      cases shouldSigma with
      | true => exact Node.store_passes _ added writes
      | false => exact Node.store_passes _ added writes
  | false =>
      cases shouldSigma with
      | true => exact ⟨_, rfl, rfl⟩
      | false => exact ⟨_, rfl, rfl⟩

theorem Node.handleAll_passes (shouldSigma shouldIndex : Bool) {outside : Nat → Outside}
    (spares : ∀ n, (outside n).added = true ∧ Writes (outside n).faults) (n : Nat)
    (events : List Event) :
    Passes node (Node.handleAll parts shouldSigma shouldIndex outside n node events) := by
  induction events generalizing node n with
  | nil => exact ⟨node, rfl, rfl⟩
  | cons event events inductionHypothesis =>
      exact (Node.handle_passes _ _ event (spares n).1 (spares n).2).bind
        fun _ => inductionHypothesis (n + 1)

theorem Node.finish_stops {last : LastWrites} (committed : last.committed = true)
    (writes : Writes last.faults) : (node.finish parts last).phase = .stopped := by
  rw [Node.finish, committed]
  rcases @Node.roll_passes lib parts { node with hot := node.hot.commit, dirty := 0 } last.rolled
    last.created _ writes with ⟨after, rolled, _⟩
  have result : ((node.commit true).bind fun node =>
      (node.roll parts last.rolled last.created last.faults).map fun node =>
        { node with phase := .stopped }) = .ok { after with phase := .stopped } :=
    congrArg (Except.map _) rolled
  rw [result]
  rfl

/-- Records that can be read are normalized. -/
theorem normalizeAll_isSome (codecKind : String) (outside : Nat → Outside) {records : List Record}
    (readable : ∀ record ∈ records, Readable parts.tables record) (n : Nat) :
    ∃ events, normalizeAll parts codecKind outside n records = some events := by
  induction records generalizing n with
  | nil => exact ⟨[], rfl⟩
  | cons record records inductionHypothesis =>
      rcases List.forall_mem_cons.mp readable with ⟨first, rest⟩
      rcases Option.isSome_iff_exists.mp ((normalize_isSome_iff parts.normalizer parts.tables
        (outside n).id (outside n).now record codecKind).mpr first) with ⟨event, normalized⟩
      rcases inductionHypothesis rest (n + 1) with ⟨events, later⟩
      exact ⟨parts.chain event ::
        events, by rw [normalizeAll, normalized, Option.bind_some, later]; rfl⟩

theorem deleteObjects_ok {objects : Nat → Fate} (done : ∀ n, objects n = .done) (m : Machine)
    (segments : List SegmentMeta) : (m.deleteObjects objects segments).2 = .ok () := by
  induction segments generalizing m with
  | nil => rfl
  | cons seg rest inductionHypothesis =>
      rw [Machine.deleteObjects, done]
      exact inductionHypothesis _

theorem enforceRetention_ok {outages : Outages} (objects : ∀ n, outages.objects n = .done)
    (saved : (outages.faults 0).saved = .done) (m : Machine) (now maxAge : Int) :
    ∃ count, (m.enforceRetention outages now maxAge).2 = .ok count := by
  rw [Machine.enforceRetention]
  dsimp only
  have deleted := deleteObjects_ok objects m
    (if m.store.archive.isSome then (m.store.catalog.expired now maxAge).filter fun s =>
      s.tier = .cold else [])
  split
  · next _ _ failure =>
      rw [failure] at deleted
      cases deleted
  · next after _ _ =>
      rw [Machine.remove]
      split
      · exact ⟨0, rfl⟩
      · rw [saved]
        exact ⟨_, rfl⟩

theorem Node.upkeep_phase {dropping : Outages} (now later : Int) (moving : Outages)
    (spares : parts.retention.isSome = true →
      (∀ n, dropping.objects n = .done) ∧ (dropping.faults 0).saved = .done) :
    (node.upkeep parts now dropping later moving).phase = node.phase := by
  rw [Node.upkeep]
  cases retention : parts.retention with
  | none => cases parts.warm <;> rfl
  | some maxAge =>
      have fine := spares (by rw [retention]; rfl)
      rcases enforceRetention_ok fine.1 fine.2 node.machine now maxAge with ⟨count, answered⟩
      dsimp only
      cases enforced : node.machine.enforceRetention dropping now maxAge with
      | mk machine answer =>
          rw [enforced] at answered
          cases answered
          cases parts.warm <;> rfl

/-- A turn that is spared does not fail. -/
theorem Node.advance_spared (running : node.phase = .running) {turn : Turn lib}
    (spares : turn.Spares parts) : (node.advance parts turn).phase ≠ .failed := by
  have goes : ∀ {after : Node lib}, after.phase = node.phase → after.phase ≠ .failed := by
    intro after same
    rw [same, running]
    decide
  have stops : ∀ {after : Node lib}, after.phase = .stopped → after.phase ≠ .failed := by
    intro after same
    rw [same]
    decide
  cases turn with
  | frame raw outside =>
      rw [Node.advance]
      split
      · rcases normalizeAll_isSome raw.codecKind outside spares.1 0 with ⟨events, normalized⟩
        rw [decodeNormalize, normalized]
        exact goes (Node.handleAll_passes _ _ spares.2 0 events).settle
      · exact goes rfl
  | drained last =>
      rw [Node.advance]
      split
      · exact stops (Node.finish_stops spares.1 spares.2)
      · exact goes rfl
  | telemetry event outside => exact goes (Node.handle_passes _ _ event spares.1 spares.2).settle
  | commitTick committed =>
      rw [Node.advance]
      split
      · rw [show committed = true from spares]
        exact goes rfl
      · exact goes rfl
  | rolloverTick rolled created faults => exact goes (Node.roll_passes rolled created spares).settle
  | retentionTick now dropping later moving =>
      exact goes (Node.upkeep_phase now later moving spares)
  | ctrlC last => exact stops (Node.finish_stops spares.1 spares.2)
  | edit engine => exact goes rfl
  | patch fp patch now => exact goes rfl

/-! ## Runs -/

theorem Node.run_spared (running : node.phase = .running) {turns : List (Turn lib)}
    (spares : ∀ turn ∈ turns, turn.Spares parts) :
    (node.run parts turns).phase ≠ .failed := by
  induction turns generalizing node with
  | nil =>
      rw [Node.run, List.foldl_nil, running]
      decide
  | cons turn turns inductionHypothesis =>
      rcases List.forall_mem_cons.mp spares with ⟨first, rest⟩
      have goesOn := Node.advance_spared running first
      rw [Node.run_cons running]
      by_cases runs : (node.advance parts turn).phase = .running
      · exact inductionHypothesis runs rest
      · rw [Node.run_stays runs]
        exact goesOn

theorem Node.run_phase (running : node.phase = .running) {turns : List (Turn lib)}
    (goesOn : (node.run parts turns).phase ≠ .failed) :
    (node.run parts turns).phase =
      if closes parts node.inputsOpen turns then .stopped else .running := by
  induction turns generalizing node with
  | nil => exact running
  | cons turn turns inductionHypothesis =>
      rw [Node.run_cons running] at goesOn ⊢
      rcases Node.advance_journal running turn (Node.advance_goesOn goesOn) with ⟨_, after⟩
      rw [closes]
      split at after
      · next ends =>
          rw [ends, Bool.true_or, Node.run_stays (by rw [after]; decide), after]
          rfl
      · next goes =>
          rw [inductionHypothesis after.1 goesOn, after.2,
            Bool.eq_false_iff.mpr goes, Bool.false_or]

/-- A node that has not failed has the journal of what has arrived at it, in whatever order its
timers fire, and has stopped if the inputs or the signal have ended its loop.  It does not fail
when its writes succeed and its records can be normalized. -/
theorem Node.run_refines (parts : Parts) (engine : SigmaEngine lib)
    (rules : List CompiledCorrelation) (simThreshold : Single) (cap : Nat) (coldDir : String)
    (archive : Option ObjectColdStore) (turns : List (Turn lib)) :
    let started := Node.start engine rules simThreshold cap coldDir archive
    let node := started.run parts turns
    (node.phase ≠ .failed →
      node.journal = started.journal.noteAll parts (entries parts true turns) ∧
        node.phase = if closes parts true turns then .stopped else .running) ∧
    ((∀ turn ∈ turns, turn.Spares parts) → node.phase ≠ .failed) :=
  ⟨fun goesOn => ⟨Node.run_journal rfl turns goesOn, Node.run_phase rfl goesOn⟩,
    fun spares => Node.run_spared rfl spares⟩

end Cli
end Sigil
