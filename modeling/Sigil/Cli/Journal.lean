import Sigil.Cli.Node

namespace Sigil
namespace Cli

/-!
# What a node is for

A journal is the node without its buffers, ticks and disks: events arrive one after another, get a
template, are looked at by the detection path, which records its alerts, and are listed; in between
the rules are edited and recorded alerts are patched.  A node that has not failed has the journal
of what has arrived at it, in whatever order its timers fire.
-/

open Sigil.Api Sigil.Core Sigil.Index Sigil.Ingest Sigil.Sigma

section Journal

variable (lib : Libraries)

structure Journal where
  engine : SigmaEngine lib
  correlations : CorrelationEngine
  miner : TemplateMiner
  alerts : AlertStore
  emitted : List Alert
  documents : List Event

/-- An event arrives, with the clock as its alerts read it; the rules are edited; or an alert is
patched. -/
inductive Entry where
  | arrival (shouldSigma shouldIndex : Bool) (event : Event) (clock : Int) (recorded : Nat → Int)
  | edit (engine : SigmaEngine lib)
  | patch (fp : String) (patch : Storage.AlertPatch) (now : Int)

end Journal

section Notes

variable {lib : Libraries} (parts : Parts)

namespace Journal

/-- The detection path looks at an event. -/
def detect (journal : Journal lib) (event : Event) (clock : Int) (recorded : Nat → Int) :
    Journal lib :=
  let (correlations, detected) :=
    Sigma.detect journal.engine journal.correlations parts.detectors event clock
  { journal with
    correlations := correlations
    alerts := Node.record parts recorded 0 journal.alerts detected.alerts
    emitted := journal.emitted ++ detected.alerts }

/-- Note one entry. -/
def note (journal : Journal lib) : Entry lib → Journal lib
  | .arrival shouldSigma shouldIndex event clock recorded =>
      let (mined, miner) := journal.miner.mine singleRatio event.message
      let event := { event with templateId := some (.ofNat mined.templateId) }
      let mining := { journal with miner := miner }
      let detecting := if shouldSigma then mining.detect parts event clock recorded else mining
      if shouldIndex then { detecting with documents := detecting.documents ++ [event] }
      else detecting
  | .edit engine => { journal with engine := engine }
  | .patch fp patch now => { journal with alerts := journal.alerts.patch now fp patch }

def noteAll (journal : Journal lib) (entries : List (Entry lib)) : Journal lib :=
  entries.foldl (note parts) journal

end Journal

/-- The arrivals of the events of a frame. -/
def arrivals (shouldSigma shouldIndex : Bool) (outside : Nat → Outside) :
    Nat → List Event → List (Entry lib)
  | _, [] => []
  | n, event :: events =>
      .arrival shouldSigma shouldIndex event (outside n).clock (outside n).recorded ::
        arrivals shouldSigma shouldIndex outside (n + 1) events

namespace Turn

/-- What a turn brings to a node; the inputs bring nothing after they have ended. -/
def brings (inputsOpen : Bool) : Turn lib → List (Entry lib)
  | .frame raw outside =>
      if inputsOpen then
        arrivals raw.shouldSigma raw.shouldIndex outside 0
          ((decodeNormalize parts raw outside).getD [])
      else []
  | .telemetry event outside =>
      [.arrival parts.sigmaActive true event outside.clock outside.recorded]
  | .edit engine => [.edit engine]
  | .patch fp change now => [.patch fp change now]
  | _ => []

/-- The turn ends the loop. -/
def ends (inputsOpen : Bool) : Turn lib → Bool
  | .drained _ => inputsOpen && !parts.servesLong
  | .ctrlC _ => true
  | _ => false

/-- The inputs are open after the turn. -/
def leavesOpen (inputsOpen : Bool) : Turn lib → Bool
  | .drained _ => false
  | _ => inputsOpen

end Turn

/-- What the turns of a loop bring to a node. -/
def entries (inputsOpen : Bool) : List (Turn lib) → List (Entry lib)
  | [] => []
  | turn :: turns =>
      turn.brings parts inputsOpen ++
        if turn.ends parts inputsOpen then [] else entries (turn.leavesOpen inputsOpen) turns

/-- The journal of a node. -/
def Node.journal (node : Node lib) : Journal lib where
  engine := node.engine
  correlations := node.correlations
  miner := node.miner
  alerts := node.alerts
  emitted := node.emitted
  documents := node.hot.documents

/-! ## The parts of a turn -/

variable {parts} {node : Node lib}

/-- The node goes on with this journal. -/
structure Node.GoesOn (node : Node lib) (journal : Journal lib) (after : Node lib) : Prop where
  journal : after.journal = journal
  phase : after.phase = node.phase
  inputsOpen : after.inputsOpen = node.inputsOpen

theorem Node.roll_journal (rolled created : Int64) (faults : Faults) :
    Ends (node.GoesOn node.journal) (node.roll parts rolled created faults) := by
  rw [Node.roll]
  split
  · exact ⟨rfl, rfl, rfl⟩
  · exact rfl

theorem Node.store_journal (event : Event) (outside : Outside) :
    Ends (node.GoesOn { node.journal with documents := node.journal.documents ++ [event] })
      (node.store parts event outside) := by
  have added : ({ node with
      hot := node.hot.add event
      dirty := node.dirty + 1
      buffer := node.buffer ++ [event] } : Node lib).journal =
        { node.journal with documents := node.journal.documents ++ [event] } := by
    rw [Node.journal, EventIndex.documents_add]
    rfl
  rw [Node.store]
  split
  · dsimp only
    split
    · rw [← added]
      exact (Node.roll_journal _ _ _).imp fun after on => ⟨on.journal, on.phase, on.inputsOpen⟩
    · exact ⟨added, rfl, rfl⟩
  · exact rfl

theorem Node.handle_journal (shouldSigma shouldIndex : Bool) (event : Event) (outside : Outside) :
    Ends (node.GoesOn
        (node.journal.note parts
          (.arrival shouldSigma shouldIndex event outside.clock outside.recorded)))
      (node.handle parts shouldSigma shouldIndex event outside) := by
  rw [Node.handle]
  cases shouldIndex with
  | true =>
      have stored := @Node.store_journal lib parts
      cases shouldSigma with
      | true => exact (stored _ _).imp fun after on => ⟨on.journal, on.phase, on.inputsOpen⟩
      | false => exact (stored _ _).imp fun after on => ⟨on.journal, on.phase, on.inputsOpen⟩
  | false =>
      cases shouldSigma with
      | true => exact ⟨rfl, rfl, rfl⟩
      | false => exact ⟨rfl, rfl, rfl⟩

theorem Node.handleAll_journal (shouldSigma shouldIndex : Bool)
    (outside : Nat → Outside) (n : Nat) (events : List Event) :
    Ends (node.GoesOn
        (node.journal.noteAll parts (arrivals shouldSigma shouldIndex outside n events)))
      (Node.handleAll parts shouldSigma shouldIndex outside n node events) := by
  induction events generalizing node n with
  | nil => exact ⟨rfl, rfl, rfl⟩
  | cons event events inductionHypothesis =>
      rw [Node.handleAll]
      refine (Node.handle_journal shouldSigma shouldIndex event (outside n)).bind fun middle on =>
        ?_
      refine (inductionHypothesis (n + 1)).imp fun after later => ?_
      refine ⟨?_, later.phase.trans on.phase, later.inputsOpen.trans on.inputsOpen⟩
      rw [later.journal, on.journal]
      rfl

theorem Node.commit_journal (committed : Bool) :
    Ends (node.GoesOn node.journal) (node.commit committed) := by
  rw [Node.commit]
  split
  · have same : ({ node with hot := node.hot.commit, dirty := 0 } : Node lib).journal =
        node.journal := by
      simp only [Node.journal, EventIndex.documents_commit]
    exact ⟨same, rfl, rfl⟩
  · exact rfl

theorem Node.finish_journal (last : LastWrites) :
    (node.finish parts last).phase ≠ .failed →
      (node.finish parts last).journal = node.journal ∧
        (node.finish parts last).phase = .stopped := by
  intro goesOn
  have ends : Ends (fun after => after.journal = node.journal ∧ after.phase = .stopped)
      ((node.commit last.committed).bind fun node =>
        (node.roll parts last.rolled last.created last.faults).map fun node =>
          { node with phase := .stopped }) := by
    refine (Node.commit_journal last.committed).bind fun middle on => ?_
    exact (Node.roll_journal _ _ _).map fun after later => ⟨later.journal.trans on.journal, rfl⟩
  exact ends.settle goesOn

theorem Node.upkeep_journal (now : Int) (dropping : Outages) (later : Int) (moving : Outages)
    (goesOn : (node.upkeep parts now dropping later moving).phase ≠ .failed) :
    node.GoesOn node.journal (node.upkeep parts now dropping later moving) := by
  refine Ends.settle (@Ends.map _ (node.GoesOn node.journal) _ _ _ ?_ ?_) goesOn
  · cases parts.retention with
    | none => exact ⟨rfl, rfl, rfl⟩
    | some maxAge =>
        dsimp only
        split
        · exact ⟨rfl, rfl, rfl⟩
        · exact rfl
  · intro dropped on
    cases parts.warm with
    | none => exact on
    | some warmAge => exact ⟨on.journal, on.phase, on.inputsOpen⟩

/-- A node that is not running stays as it is. -/
theorem Node.run_stays (stays : node.phase ≠ .running) (turns : List (Turn lib)) :
    node.run parts turns = node := by
  induction turns with
  | nil => rfl
  | cons turn turns inductionHypothesis =>
      rw [Node.run, List.foldl_cons, Node.turn, if_neg stays]
      exact inductionHypothesis

theorem Node.run_cons (running : node.phase = .running) (turn : Turn lib)
    (turns : List (Turn lib)) :
    node.run parts (turn :: turns) = (node.advance parts turn).run parts turns := by
  rw [Node.run, List.foldl_cons, Node.turn, if_pos running]
  rfl

/-- A node that has not failed in the end has not failed before. -/
theorem Node.advance_goesOn {turn : Turn lib} {turns : List (Turn lib)}
    (goesOn : ((node.advance parts turn).run parts turns).phase ≠ .failed) :
    (node.advance parts turn).phase ≠ .failed := by
  intro failed
  rw [Node.run_stays (by rw [failed]; decide)] at goesOn
  exact goesOn failed

/-- A turn of a running node notes what it brings. -/
theorem Node.advance_journal (running : node.phase = .running) (turn : Turn lib)
    (goesOn : (node.advance parts turn).phase ≠ .failed) :
    (node.advance parts turn).journal =
        node.journal.noteAll parts (turn.brings parts node.inputsOpen) ∧
      if turn.ends parts node.inputsOpen then (node.advance parts turn).phase = .stopped
      else (node.advance parts turn).phase = .running ∧
        (node.advance parts turn).inputsOpen = turn.leavesOpen node.inputsOpen := by
  cases turn with
  | frame raw outside =>
      rw [Node.advance, Turn.brings] at *
      by_cases isOpen : node.inputsOpen = true
      · rw [if_pos isOpen] at goesOn ⊢
        rw [if_pos isOpen]
        cases events : decodeNormalize parts raw outside with
        | none =>
            rw [events] at goesOn
            exact absurd rfl goesOn
        | some events' =>
            rw [events] at goesOn
            have on := (Node.handleAll_journal _ _ _ _ _).settle goesOn
            exact ⟨on.journal, on.phase.trans running, on.inputsOpen⟩
      · rw [if_neg isOpen, if_neg isOpen]
        exact ⟨rfl, running, rfl⟩
  | drained last =>
      have ends : Turn.ends parts node.inputsOpen (.drained last : Turn lib) =
          decide (node.inputsOpen = true ∧ ¬ parts.servesLong = true) := by
        cases open_ : node.inputsOpen <;> cases serves : parts.servesLong <;>
          simp [Turn.ends, serves]
      rw [Node.advance] at goesOn ⊢
      rw [ends]
      by_cases last_ : node.inputsOpen = true ∧ ¬ parts.servesLong = true
      · rw [if_pos last_] at goesOn ⊢
        rw [if_pos (decide_eq_true last_)]
        exact Node.finish_journal last goesOn
      · rw [if_neg last_, if_neg (by simpa using last_)]
        exact ⟨rfl, running, rfl⟩
  | telemetry event outside =>
      have on := (Node.handle_journal _ _ _ _).settle goesOn
      exact ⟨on.journal, on.phase.trans running, on.inputsOpen⟩
  | commitTick committed =>
      rw [Node.advance] at goesOn ⊢
      by_cases dirty : 0 < node.dirty
      · rw [if_pos dirty] at goesOn ⊢
        have on := (Node.commit_journal committed).settle goesOn
        exact ⟨on.journal, on.phase.trans running, on.inputsOpen⟩
      · rw [if_neg dirty]
        exact ⟨rfl, running, rfl⟩
  | rolloverTick rolled created faults =>
      have on := (Node.roll_journal _ _ _).settle goesOn
      exact ⟨on.journal, on.phase.trans running, on.inputsOpen⟩
  | retentionTick now dropping later moving =>
      have on := Node.upkeep_journal now dropping later moving goesOn
      exact ⟨on.journal, on.phase.trans running, on.inputsOpen⟩
  | ctrlC last =>
      exact Node.finish_journal last goesOn
  | edit engine => exact ⟨rfl, running, rfl⟩
  | patch fp patch now => exact ⟨rfl, running, rfl⟩

/-- A node that has not failed has the journal of what its turns have brought. -/
theorem Node.run_journal (running : node.phase = .running) (turns : List (Turn lib))
    (goesOn : (node.run parts turns).phase ≠ .failed) :
    (node.run parts turns).journal =
      node.journal.noteAll parts (entries parts node.inputsOpen turns) := by
  induction turns generalizing node with
  | nil => rfl
  | cons turn turns inductionHypothesis =>
      rw [Node.run_cons running] at goesOn ⊢
      rcases Node.advance_journal running turn (Node.advance_goesOn goesOn) with
        ⟨journal, after⟩
      rw [entries, Journal.noteAll, List.foldl_append]
      split at after
      · next ends =>
          rw [if_pos ends, Node.run_stays (by rw [after]; decide)]
          exact journal
      · next goes =>
          rw [if_neg goes, inductionHypothesis after.1 goesOn, journal, after.2]
          rfl

end Notes

end Cli
end Sigil
