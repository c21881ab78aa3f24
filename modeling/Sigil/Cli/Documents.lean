import Mathlib.Data.List.Forall2
import Sigil.Cli.Tiers

namespace Sigil
namespace Cli

/-!
# Where the documents come from

What a node lists in its hot index are the records of the frames that are routed to it and the
events of the agent gateway, one document for each, in the order of their arrival.  The document
of a record starts with the bytes of the record and all its fields.
-/

open Sigil.Core Sigil.Index Sigil.Ingest Sigil.Normalize Sigil.Sigma Sigil.Library

/-- What a document is made of. -/
inductive Source where
  | record (record : Record)
  | telemetry (event : Event)

section Documents

variable {lib : Libraries} (parts : Parts)

/-- An event that is made of a source: a record is normalized, with its bytes and all its fields,
and enriched. -/
def Source.Becomes : Source → Event → Prop
  | .record decoded, event => ∃ normalized : Event, normalized.raw = decoded.raw ∧
      (∀ name, normalized.fields.get name = decoded.fields.get name) ∧
        event = parts.chain normalized
  | .telemetry sent, event => event = sent

/-- A document is such an event with the template of its message. -/
def Source.Shows (source : Source) (document : Event) : Prop :=
  ∃ event templateId, source.Becomes parts event ∧
    document = { event with templateId := templateId }

/-- What a turn brings to the hot index; the inputs bring nothing after they have ended. -/
def Turn.sources (inputsOpen : Bool) : Turn lib → List Source
  | .frame raw _ =>
      if inputsOpen && raw.shouldIndex then
        (decode parts.decoders raw.codecKind raw.bytes).map .record
      else []
  | .telemetry event _ => [.telemetry event]
  | _ => []

/-- What the turns of a loop bring to the hot index. -/
def sources (inputsOpen : Bool) : List (Turn lib) → List Source
  | [] => []
  | turn :: turns =>
      turn.sources parts inputsOpen ++
        if turn.ends parts inputsOpen then [] else sources (turn.leavesOpen inputsOpen) turns

/-! ## From the entries of the journal to its documents -/

/-- The event of an entry that is listed. -/
def Entry.listed : Entry lib → Option Event
  | .arrival _ shouldIndex event _ _ => if shouldIndex then some event else none
  | _ => none

/-- A document is an event with some template. -/
def Listed (event document : Event) : Prop :=
  ∃ templateId, document = { event with templateId := templateId }

variable {parts}

theorem Journal.note_documents (journal : Journal lib) (entry : Entry lib) :
    ∃ added, (journal.note parts entry).documents = journal.documents ++ added ∧
      List.Forall₂ Listed entry.listed.toList added := by
  cases entry with
  | arrival shouldSigma shouldIndex event clock recorded =>
      have same : ∀ (mining : Journal lib) (mined : Event),
          (if shouldSigma then mining.detect parts mined clock recorded else mining).documents =
            mining.documents := by
        intro mining mined
        split
        · rfl
        · rfl
      cases shouldIndex with
      | true =>
          refine ⟨[_], congrArg (· ++ [_]) (same _ _), ?_⟩
          exact List.Forall₂.cons ⟨_, rfl⟩ List.Forall₂.nil
      | false => exact ⟨[], (same _ _).trans (List.append_nil _).symm, List.Forall₂.nil⟩
  | edit engine => exact ⟨[], (List.append_nil _).symm, List.Forall₂.nil⟩
  | patch fp change now => exact ⟨[], (List.append_nil _).symm, List.Forall₂.nil⟩

theorem Journal.noteAll_documents (journal : Journal lib) (entries : List (Entry lib)) :
    ∃ added, (journal.noteAll parts entries).documents = journal.documents ++ added ∧
      List.Forall₂ Listed (entries.filterMap Entry.listed) added := by
  induction entries generalizing journal with
  | nil => exact ⟨[], (List.append_nil _).symm, List.Forall₂.nil⟩
  | cons entry entries inductionHypothesis =>
      rcases journal.note_documents entry with ⟨first, one, listedOne⟩
      rcases inductionHypothesis (journal.note parts entry) with ⟨rest, others, listedRest⟩
      refine ⟨first ++ rest, ?_, ?_⟩
      · rw [Journal.noteAll, List.foldl_cons]
        exact others.trans (by rw [one, List.append_assoc])
      · have both := List.rel_append listedOne listedRest
        rw [List.filterMap_cons]
        cases shape : entry.listed with
        | none =>
            rw [shape] at both
            exact both
        | some event =>
            rw [shape] at both
            exact both

/-! ## From the sources of a turn to its entries -/

theorem normalizeAll_becomes {codecKind : String} {outside : Nat → Outside} {n : Nat}
    {records : List Record} {events : List Event}
    (normalized : normalizeAll parts codecKind outside n records = some events) :
    List.Forall₂ (Source.Becomes parts) (records.map .record) events := by
  induction records generalizing n events with
  | nil =>
      cases normalized
      exact List.Forall₂.nil
  | cons record records inductionHypothesis =>
      rcases Option.bind_eq_some_iff.mp normalized with ⟨event, isEvent, rest⟩
      rcases Option.map_eq_some_iff.mp rest with ⟨events', others, rfl⟩
      have kept := normalize_keeps isEvent
      exact List.Forall₂.cons ⟨event, kept.1, kept.2, rfl⟩ (inductionHypothesis others)

theorem listed_arrivals (shouldSigma shouldIndex : Bool) (outside : Nat → Outside) (n : Nat)
    (events : List Event) :
    (arrivals shouldSigma shouldIndex outside n events : List (Entry lib)).filterMap Entry.listed =
      if shouldIndex then events else [] := by
  induction events generalizing n with
  | nil => cases shouldIndex <;> rfl
  | cons event events inductionHypothesis =>
      rw [arrivals, List.filterMap_cons, inductionHypothesis]
      cases shouldIndex <;> rfl

/-- A turn after which the node goes on lists an event for each of its sources. -/
theorem Turn.listed_sources {node : Node lib} (turn : Turn lib)
    (goesOn : (node.advance parts turn).phase ≠ .failed) :
    List.Forall₂ (Source.Becomes parts) (turn.sources parts node.inputsOpen)
      ((turn.brings parts node.inputsOpen).filterMap Entry.listed) := by
  cases turn with
  | frame raw outside =>
      rw [Turn.sources, Turn.brings]
      rw [Node.advance] at goesOn
      cases isOpen : node.inputsOpen with
      | false => exact List.Forall₂.nil
      | true =>
          rw [if_pos isOpen] at goesOn
          rw [if_pos rfl, listed_arrivals, Bool.true_and]
          cases events : decodeNormalize parts raw outside with
          | none =>
              rw [events] at goesOn
              exact absurd rfl goesOn
          | some events' =>
              split
              · exact normalizeAll_becomes events
              · exact List.Forall₂.nil
  | telemetry event outside => exact List.Forall₂.cons rfl List.Forall₂.nil
  | drained last => exact List.Forall₂.nil
  | commitTick committed => exact List.Forall₂.nil
  | rolloverTick rolled created faults => exact List.Forall₂.nil
  | retentionTick now dropping later moving => exact List.Forall₂.nil
  | ctrlC last => exact List.Forall₂.nil
  | edit engine => exact List.Forall₂.nil
  | patch fp change now => exact List.Forall₂.nil

/-! ## Runs -/

/-- A turn after which the node goes on adds a document for each of its sources. -/
theorem Node.advance_documents {node : Node lib} (running : node.phase = .running) (turn : Turn lib)
    (goesOn : (node.advance parts turn).phase ≠ .failed) :
    ∃ added, (node.advance parts turn).hot.documents = node.hot.documents ++ added ∧
      List.Forall₂ (Source.Shows parts) (turn.sources parts node.inputsOpen) added := by
  rcases node.journal.noteAll_documents (turn.brings parts node.inputsOpen) with
    ⟨added, documents, listed⟩
  have journal := congrArg Journal.documents (Node.advance_journal running turn goesOn).1
  refine ⟨added, journal.trans documents, ?_⟩
  refine (Pointwise.forall₂_trans (Turn.listed_sources turn goesOn) listed).imp ?_
  rintro source document ⟨event, becomes, templateId, rfl⟩
  exact ⟨event, templateId, becomes, rfl⟩

theorem Node.run_sources {node : Node lib} (running : node.phase = .running)
    (turns : List (Turn lib)) (goesOn : (node.run parts turns).phase ≠ .failed) :
    ∃ added, (node.run parts turns).hot.documents = node.hot.documents ++ added ∧
      List.Forall₂ (Source.Shows parts) (sources parts node.inputsOpen turns) added := by
  induction turns generalizing node with
  | nil => exact ⟨[], (List.append_nil _).symm, List.Forall₂.nil⟩
  | cons turn turns inductionHypothesis =>
      rw [Node.run_cons running] at goesOn ⊢
      have advanced := Node.advance_goesOn goesOn
      rcases Node.advance_documents running turn advanced with ⟨first, documents, shown⟩
      have after := (Node.advance_journal running turn advanced).2
      rw [sources]
      split at after
      · next ends =>
          rw [if_pos ends, Node.run_stays (by rw [after]; decide), List.append_nil]
          exact ⟨first, documents, shown⟩
      · next goes =>
          rcases inductionHypothesis after.1 goesOn with ⟨rest, others, shownRest⟩
          rw [after.2] at shownRest
          rw [if_neg goes]
          refine ⟨first ++ rest, ?_, List.rel_append shown shownRest⟩
          rw [others, documents, List.append_assoc]

/-- Two frames, of which one is routed to the index, and an event of an agent. -/
def twoFrames : List (Turn asciiLibraries) :=
  [.frame ⟨"raw", true, false, "login failed".toUTF8.toList⟩ fun _ => calm 7,
    .frame ⟨"raw", false, true, "not listed".toUTF8.toList⟩ fun _ => calm 8,
    .telemetry (agentEvent (some "web01")) (calm 9)]

end Documents

end Cli
end Sigil
