import Sigil.Ingest.FileTailer

namespace Sigil
namespace Ingest

/-!
# The file input across crashes

The process polls, writes the checkpoint and then hands the lines to the pipeline, one after
the other.  It may stop between any two of these effects and start again from the checkpoint
on disk.  What lies below the checkpoint has been handed over only where the lines of the
poll had been handed over before, by a run whose own checkpoint was not written.
-/

open Sigil.Core Library

/-- A line and the position at which it begins in the file. -/
abbrev PlacedLine := Nat × List UInt8

/-- The complete lines of some bytes of the file, without the empty ones. -/
def placedLines (position : Nat) (bytes : List UInt8) : List PlacedLine :=
  ((Lines.locateFrom position (Lines.complete newline bytes)).map fun line =>
    (line.1, FileTailer.trimLine line.2)).filter fun line => !line.2.isEmpty

/-- The complete lines that lie below some offset. -/
def linesBelow (content : List UInt8) (offset : Nat) : List PlacedLine :=
  placedLines 0 (content.take offset)

/-- How far the process is: stopped, asleep, about to write a checkpoint with the lines of the
poll in hand, or handing lines over. -/
inductive InputProcess where
  | stopped
  | asleep (tailer : FileTailer)
  | saving (tailer : FileTailer) (text : String) (batch : List PlacedLine)
  | handing (tailer : FileTailer) (rest : List PlacedLine)
  deriving DecidableEq, Repr

/-- The file and the checkpoint on disk, the process, and the lines that any run has handed to
the pipeline.  The positions of lines are not part of the program. -/
structure FileInput where
  file : Option (List UInt8)
  checkpoint : Option String
  process : InputProcess
  handed : List PlacedLine

/-- What a write of the checkpoint leaves on disk. -/
inductive SaveOutcome where
  | written
  | kept
  | emptied
  deriving DecidableEq, Repr

inductive InputEvent where
  | append (bytes : List UInt8)
  | launch
  | read (during : List UInt8)
  | readFails
  | save (outcome : SaveOutcome)
  | hand
  | sleep
  | stop
  deriving DecidableEq, Repr

namespace FileInput

/-- Nothing has been read of the file, and no process runs. -/
def start (file : Option (List UInt8)) : FileInput where
  file := file
  checkpoint := none
  process := .stopped
  handed := []

/-- The bytes of the file. -/
def content (s : FileInput) : List UInt8 :=
  s.file.getD []

/-- The lines of a poll, with their positions. -/
def batch (s : FileInput) (tailer : FileTailer) (during : List UInt8) : List PlacedLine :=
  let offset := tailer.readFrom s.content
  ((placedLines offset ((s.content ++ during).drop offset)).map Prod.fst).zip
    (tailer.pollLines s.file during).lines

/-- One effect, when it is the next one. -/
def step (s : FileInput) : InputEvent → Option FileInput
  | .append bytes =>
      if (s.content ++ bytes).length < 2 ^ 64 then some { s with file := some (s.content ++ bytes) }
      else none
  | .launch =>
      match s.process with
      | .stopped => some { s with process := .asleep (.fromCheckpoint s.checkpoint) }
      | _ => none
  | .read during =>
      match s.process with
      | .asleep tailer =>
          if (s.content ++ during).length < 2 ^ 64 then
            let poll := tailer.pollLines s.file during
            let batch := s.batch tailer during
            some
              { s with
                file := if during = [] then s.file else some (s.content ++ during)
                process :=
                  match poll.checkpoint with
                  | some text => .saving poll.tailer text batch
                  | none => .handing poll.tailer batch }
          else none
      | _ => none
  | .readFails =>
      match s.process with
      | .asleep _ => some s
      | _ => none
  | .save outcome =>
      match s.process with
      | .saving tailer text batch =>
          some
            { s with
              checkpoint :=
                match outcome with
                | .written => some text
                | .kept => s.checkpoint
                | .emptied => some ""
              process := .handing tailer batch }
      | _ => none
  | .hand =>
      match s.process with
      | .handing tailer (line :: rest) =>
          some { s with process := .handing tailer rest, handed := s.handed ++ [line] }
      | _ => none
  | .sleep =>
      match s.process with
      | .handing tailer [] => some { s with process := .asleep tailer }
      | _ => none
  | .stop => some { s with process := .stopped }

/-- Every complete line below the checkpoint on disk that is not empty has been handed over. -/
def Delivered (s : FileInput) : Prop :=
  ∀ line, line ∈ linesBelow s.content (readCheckpoint s.checkpoint) → line ∈ s.handed

/-- A checkpoint is written when the lines of the poll have been handed over before. -/
def Careful (s : FileInput) : InputEvent → Prop
  | .save .written =>
      match s.process with
      | .saving _ _ batch => ∀ line, line ∈ batch → line ∈ s.handed
      | _ => True
  | _ => True

end FileInput

/-! ## Lines below an offset -/

/-- The offset stands behind a line feed, or at the start of the file. -/
structure Boundary (content : List UInt8) (offset : Nat) : Prop where
  inside : offset ≤ content.length
  covered : Lines.covered newline (content.take offset) = offset

theorem boundary_zero (content : List UInt8) : Boundary content 0 where
  inside := Nat.zero_le _
  covered := rfl

theorem boundary_covered (content : List UInt8) :
    Boundary content (Lines.covered newline content) where
  inside := Lines.covered_le_length content
  covered := by rw [Lines.covered, Lines.complete_take, Lines.covered]

theorem take_append {content : List UInt8} {offset : Nat} (inside : offset ≤ content.length)
    (more : List UInt8) : (content ++ more).take offset = content.take offset :=
  List.take_append_of_le_length inside

theorem Boundary.append {content : List UInt8} {offset : Nat} (boundary : Boundary content offset)
    (more : List UInt8) : Boundary (content ++ more) offset where
  inside := by
    rw [List.length_append]
    exact Nat.le_add_right_of_le boundary.inside
  covered := by rw [take_append boundary.inside, boundary.covered]

theorem linesBelow_append {content : List UInt8} {offset : Nat} (inside : offset ≤ content.length)
    (more : List UInt8) : linesBelow (content ++ more) offset = linesBelow content offset := by
  rw [linesBelow, take_append inside, linesBelow]

theorem map_snd_placedLines (position : Nat) (bytes : List UInt8) :
    (placedLines position bytes).map Prod.snd = completeLines bytes := by
  have texts : ((Lines.locateFrom position (Lines.complete newline bytes)).map fun line =>
      (line.1, FileTailer.trimLine line.2)).map Prod.snd =
        (Lines.complete newline bytes).map FileTailer.trimLine := by
    rw [List.map_map,
      ← Lines.map_snd_locateFrom position (Lines.complete newline bytes), List.map_map,
      Lines.map_snd_locateFrom]
    rfl
  rw [completeLines, ← texts, List.filter_map]
  rfl

/-- The lines of the whole file are those below an offset and those behind it. -/
theorem linesBelow_covered {content : List UInt8} {offset : Nat}
    (boundary : Boundary content offset) :
    linesBelow content (Lines.covered newline content) =
      linesBelow content offset ++ placedLines offset (content.drop offset) := by
  have whole : Lines.complete newline content =
      Lines.complete newline (content.take offset) ++
          Lines.complete newline (content.drop offset) := by
    have joined : Lines.complete newline (content.take offset ++ content.drop offset) = _ :=
      Lines.complete_append _ _
    rw [List.take_append_drop, boundary.covered, List.drop_take_self, List.nil_append] at joined
    exact joined
  have reach : Lines.extent (Lines.complete newline (content.take offset)) = offset :=
    boundary.covered
  rw [linesBelow, placedLines, Lines.complete_take, whole, Lines.locateFrom_append, reach,
    Nat.zero_add, List.map_append, List.filter_append]
  rfl

namespace FileInput

variable {s s' : FileInput}

/-- What a poll of the input reads. -/
theorem pollLines_boundary {tailer : FileTailer} (boundary : Boundary s.content tailer.offset)
    (unread : s.content.length ≠ tailer.offset) (during : List UInt8) :
    tailer.pollLines s.file during =
      { tailer := { offset := Lines.covered newline (s.content ++ during) }
        lines := completeLines ((s.content ++ during).drop tailer.offset)
        checkpoint :=
          if Lines.covered newline (s.content ++ during) ≠ tailer.offset then
            some (toString (Lines.covered newline (s.content ++ during)))
          else none } := by
  cases present : s.file with
  | none =>
      have empty :
        s.content.length = 0 := by rw [content, present, Option.getD_none, List.length_nil]
      have inside := boundary.inside
      omega
  | some bytes =>
      have isContent : s.content = bytes := by rw [content, present, Option.getD_some]
      rw [isContent] at boundary unread ⊢
      exact FileTailer.pollLines_eq boundary.covered.symm (List.take_prefix _ _) unread during

/-- The lines of a poll are those behind the offset. -/
theorem batch_eq {tailer : FileTailer} (boundary : Boundary s.content tailer.offset)
    (unread : s.content.length ≠ tailer.offset) (during : List UInt8) :
    s.batch tailer during = placedLines tailer.offset
      ((s.content ++ during).drop tailer.offset) := by
  have lines := map_snd_placedLines tailer.offset ((s.content ++ during).drop tailer.offset)
  rw [batch, pollLines_boundary boundary unread, FileTailer.readFrom_eq boundary.inside]
  dsimp only
  rw [← lines]
  exact (List.zip_of_prod rfl rfl).symm

/-! ## The invariant -/

/-- Every line below the offset of the tailer has been handed over or is in hand. -/
def InHand (s : FileInput) (tailer : FileTailer) (rest : List PlacedLine) : Prop :=
  Boundary s.content tailer.offset ∧
    ∀ line, line ∈ linesBelow s.content tailer.offset → line ∈ s.handed ∨ line ∈ rest

/-- What is known of the process. -/
def ProcessHolds (s : FileInput) : InputProcess → Prop
  | .stopped => True
  | .asleep tailer => s.InHand tailer []
  | .saving tailer text batch =>
      s.InHand tailer batch ∧ readCheckpoint (some text) = tailer.offset ∧
        ∀ line, line ∈ batch → line ∈ linesBelow s.content tailer.offset
  | .handing tailer rest => s.InHand tailer rest

structure Holds (s : FileInput) : Prop where
  delivered : s.Delivered
  boundary : Boundary s.content (readCheckpoint s.checkpoint)
  process : s.ProcessHolds s.process

theorem holds_start (file : Option (List UInt8)) : (start file).Holds where
  delivered := fun _ member => absurd member List.not_mem_nil
  boundary := boundary_zero _
  process := trivial

/-- A file grows. -/
theorem InHand.grow {tailer : FileTailer} {rest : List PlacedLine} (inHand : s.InHand tailer rest)
    {more : List UInt8} (content : s'.content = s.content ++ more) (handed : s'.handed = s.handed) :
    s'.InHand tailer rest := by
  rw [InHand, content, handed, linesBelow_append inHand.1.inside]
  exact ⟨inHand.1.append more, inHand.2⟩

theorem Delivered.grow (delivered : s.Delivered)
    (boundary : Boundary s.content (readCheckpoint s.checkpoint)) {more : List UInt8}
    (content : s'.content = s.content ++ more) (checkpoint : s'.checkpoint = s.checkpoint)
    (handed : ∀ line, line ∈ s.handed → line ∈ s'.handed) : s'.Delivered := by
  rw [Delivered, content, checkpoint, linesBelow_append boundary.inside]
  exact fun line below => handed line (delivered line below)

/-- What an effect can be. -/
inductive Effect (s : FileInput) : InputEvent → FileInput → Prop where
  | append (bytes : List UInt8) :
      Effect s (.append bytes) { s with file := some (s.content ++ bytes) }
  | launch (process : s.process = .stopped) :
      Effect s .launch { s with process := .asleep (.fromCheckpoint s.checkpoint) }
  | read (during : List UInt8) (tailer : FileTailer) (process : s.process = .asleep tailer)
      (bound : (s.content ++ during).length < 2 ^ 64) :
      Effect s (.read during)
        { s with
          file := if during = [] then s.file else some (s.content ++ during)
          process :=
            match (tailer.pollLines s.file during).checkpoint with
            | some text =>
                .saving (tailer.pollLines s.file during).tailer text (s.batch tailer during)
            | none => .handing (tailer.pollLines s.file during).tailer (s.batch tailer during) }
  | readFails : Effect s .readFails s
  | written (tailer : FileTailer) (text : String) (batch : List PlacedLine)
      (process : s.process = .saving tailer text batch) :
      Effect s (.save .written) { s with checkpoint := some text, process := .handing tailer batch }
  | kept (tailer : FileTailer) (text : String) (batch : List PlacedLine)
      (process : s.process = .saving tailer text batch) :
      Effect s (.save .kept) { s with process := .handing tailer batch }
  | emptied (tailer : FileTailer) (text : String) (batch : List PlacedLine)
      (process : s.process = .saving tailer text batch) :
      Effect s (.save .emptied) { s with checkpoint := some "", process := .handing tailer batch }
  | hand (tailer : FileTailer) (line : PlacedLine) (rest : List PlacedLine)
      (process : s.process = .handing tailer (line :: rest)) :
      Effect s .hand { s with process := .handing tailer rest, handed := s.handed ++ [line] }
  | sleep (tailer : FileTailer) (process : s.process = .handing tailer []) :
      Effect s .sleep { s with process := .asleep tailer }
  | stop : Effect s .stop { s with process := .stopped }

theorem step_cases {event : InputEvent} (step : s.step event = some s') : Effect s event s' := by
  cases event with
  | append bytes =>
      rw [FileInput.step] at step
      split at step
      · exact Option.some.inj step ▸ .append bytes
      · cases step
  | launch =>
      rw [FileInput.step] at step
      split at step
      · next process => exact Option.some.inj step ▸ .launch process
      · cases step
  | read during =>
      rw [FileInput.step] at step
      split at step
      · next tailer process =>
          split at step
          · next bound => exact Option.some.inj step ▸ .read during tailer process bound
          · cases step
      · cases step
  | readFails =>
      rw [FileInput.step] at step
      split at step
      · exact Option.some.inj step ▸ .readFails
      · cases step
  | save outcome =>
      rw [FileInput.step] at step
      split at step
      · next tailer text batch process =>
          cases outcome with
          | written => exact Option.some.inj step ▸ .written tailer text batch process
          | kept => exact Option.some.inj step ▸ .kept tailer text batch process
          | emptied => exact Option.some.inj step ▸ .emptied tailer text batch process
      · cases step
  | hand =>
      rw [FileInput.step] at step
      split at step
      · next tailer line rest process =>
          exact Option.some.inj step ▸ .hand tailer line rest process
      · cases step
  | sleep =>
      rw [FileInput.step] at step
      split at step
      · next tailer process => exact Option.some.inj step ▸ .sleep tailer process
      · cases step
  | stop => exact Option.some.inj step ▸ .stop

/-- The file after a read has the bytes that were added. -/
theorem content_read (s : FileInput) (during : List UInt8) (process : InputProcess) :
    content { s with
      file := if during = [] then s.file else some (s.content ++ during)
      process := process } = s.content ++ during := by
  rw [content]
  dsimp only
  by_cases nothing : during = []
  · rw [if_pos nothing, nothing, List.append_nil, content]
  · rw [if_neg nothing, Option.getD_some]

/-- The lines below the checkpoint stay handed over exactly when the step is careful. -/
theorem delivered_iff_careful (holds : s.Holds) {event : InputEvent}
    (step : s.step event = some s') :
    s'.Delivered ↔ s.Careful event := by
  have same : s.content = s.content ++ [] := (List.append_nil _).symm
  cases step_cases step with
  | append bytes =>
      exact iff_of_true (holds.delivered.grow holds.boundary rfl rfl fun _ => id) trivial
  | launch => exact iff_of_true (holds.delivered.grow holds.boundary same rfl fun _ => id) trivial
  | read during tailer =>
      exact iff_of_true
        (holds.delivered.grow holds.boundary (content_read s during _) rfl fun _ => id) trivial
  | readFails => exact iff_of_true holds.delivered trivial
  | written tailer text batch process =>
      have facts := holds.process
      rw [process] at facts
      rcases facts with ⟨inHand, saved, below⟩
      rw [Delivered, Careful, process]
      dsimp only
      rw [saved]
      constructor
      · exact fun delivered line member => delivered line (below line member)
      · intro careful line member
        rcases inHand.2 line member with before | now
        · exact before
        · exact careful line now
  | kept => exact iff_of_true (holds.delivered.grow holds.boundary same rfl fun _ => id) trivial
  | emptied =>
      refine iff_of_true (fun line member => ?_) trivial
      exact absurd member List.not_mem_nil
  | hand tailer line rest =>
      refine iff_of_true
        (holds.delivered.grow holds.boundary same rfl fun other handed => ?_) trivial
      exact List.mem_append_left _ handed
  | sleep => exact iff_of_true (holds.delivered.grow holds.boundary same rfl fun _ => id) trivial
  | stop => exact iff_of_true (holds.delivered.grow holds.boundary same rfl fun _ => id) trivial

/-- A poll takes the new lines in hand. -/
theorem processHolds_read (s : FileInput) {tailer : FileTailer} (inHand : s.InHand tailer [])
    {during : List UInt8} (bound : (s.content ++ during).length < 2 ^ 64)
    (content : s'.content = s.content ++ during) (handed : s'.handed = s.handed) :
    s'.ProcessHolds (match (tailer.pollLines s.file during).checkpoint with
      | some text => .saving (tailer.pollLines s.file during).tailer text (s.batch tailer during)
      | none => .handing (tailer.pollLines s.file during).tailer (s.batch tailer during)) := by
  by_cases read : s.content.length = tailer.offset
  · -- the end of the file has been read before
    have grown := inHand.grow content handed
    rw [FileTailer.pollLines_end read]
    exact ⟨grown.1,
      fun line below => Or.inl ((grown.2 line below).resolve_right List.not_mem_nil)⟩
  · have boundary := inHand.1.append during
    have below := linesBelow_covered boundary
    have taken : s'.InHand { offset := Lines.covered newline (s.content ++ during) }
        (s.batch tailer during) := by
      rw [InHand, content, handed, batch_eq inHand.1 read]
      refine ⟨boundary_covered _, fun line member => ?_⟩
      rw [below, linesBelow_append inHand.1.inside] at member
      rcases List.mem_append.mp member with old | new
      · exact Or.inl ((inHand.2 line old).resolve_right List.not_mem_nil)
      · exact Or.inr new
    rw [pollLines_boundary inHand.1 read]
    dsimp only
    by_cases further : Lines.covered newline (s.content ++ during) ≠ tailer.offset
    · rw [if_pos further]
      have small := Nat.lt_of_le_of_lt (boundary_covered (s.content ++ during)).inside bound
      refine ⟨taken, readCheckpoint_toString small, fun line member => ?_⟩
      rw [batch_eq inHand.1 read] at member
      rw [content, below]
      exact List.mem_append_right _ member
    · rw [if_neg further]
      exact taken

/-- A step after which the lines below the checkpoint have been handed over keeps the
invariant. -/
theorem Holds.step (holds : s.Holds) {event : InputEvent} (step : s.step event = some s')
    (delivered : s'.Delivered) : s'.Holds := by
  have same : s.content = s.content ++ [] := (List.append_nil _).symm
  have facts := holds.process
  cases step_cases step with
  | append bytes =>
      refine ⟨delivered, holds.boundary.append bytes, ?_⟩
      cases process : s.process with
      | stopped => trivial
      | asleep tailer =>
          rw [process] at facts
          exact InHand.grow facts rfl rfl
      | saving tailer text batch =>
          rw [process] at facts
          refine ⟨facts.1.grow rfl rfl, facts.2.1, fun line member => ?_⟩
          exact (linesBelow_append facts.1.1.inside bytes).symm ▸ facts.2.2 line member
      | handing tailer rest =>
          rw [process] at facts
          exact InHand.grow facts rfl rfl
  | launch =>
      exact ⟨delivered, holds.boundary, holds.boundary, fun line below =>
        Or.inl (holds.delivered line below)⟩
  | read during tailer process bound =>
      rw [process] at facts
      have grown := content_read s during
      refine ⟨delivered, ?_, processHolds_read s facts bound (grown _) rfl⟩
      rw [grown]
      exact holds.boundary.append during
  | readFails => exact holds
  | written tailer text batch process =>
      rw [process] at facts
      refine ⟨delivered, ?_, facts.1⟩
      change Boundary s.content (readCheckpoint (some text))
      rw [facts.2.1]
      exact facts.1.1
  | kept tailer text batch process =>
      rw [process] at facts
      exact ⟨delivered, holds.boundary, facts.1⟩
  | emptied tailer text batch process =>
      rw [process] at facts
      exact ⟨delivered, boundary_zero _, facts.1⟩
  | hand tailer line rest process =>
      rw [process] at facts
      refine ⟨delivered, holds.boundary, facts.1, fun other below => ?_⟩
      rcases facts.2 other below with before | now
      · exact Or.inl (List.mem_append_left _ before)
      · rcases List.mem_cons.mp now with rfl | later
        · exact Or.inl (List.mem_append_right _ (List.mem_singleton.mpr rfl))
        · exact Or.inr later
  | sleep tailer process =>
      rw [process] at facts
      exact ⟨delivered, holds.boundary, facts⟩
  | stop => exact ⟨delivered, holds.boundary, trivial⟩

/-- All along a run the lines below the checkpoint have been handed over exactly when each
checkpoint is written after the lines of its poll have been handed over. -/
theorem delivered_iff_savedLast (file : Option (List UInt8)) (events : List InputEvent) :
    TransitionSystem.Along step (fun _ _ after => after.Delivered) (start file) events ↔
      TransitionSystem.Along step (fun before event _ => before.Careful event)
        (start file) events :=
  TransitionSystem.along_congr (fun _ _ (after : FileInput) => after.Delivered)
    (fun (before : FileInput) event _ => before.Careful event) Holds
    (fun _ _ _ holds step => delivered_iff_careful holds step)
    (fun _ _ _ holds step delivered => holds.step step delivered) (holds_start file)

/-- The process stops after it has written the checkpoint of a line, and the next one does not
come back to it. -/
theorem not_delivered_crash :
    ¬ ∀ file events s, TransitionSystem.follow step (start file) events = some s →
      s.Delivered := by
  intro all
  let events : List InputEvent :=
    [.launch, .read [], .save .written, .stop, .launch, .read [], .sleep]
  have lost : (TransitionSystem.follow step (start (some [97, 10])) events).map (fun s =>
      (linesBelow s.content (readCheckpoint s.checkpoint), s.handed)) = some ([(0, [97])], []) := by
    decide +kernel
  rcases Option.map_eq_some_iff.mp lost with ⟨s, followed, facts⟩
  rw [Prod.mk.injEq] at facts
  have below : (0, [97]) ∈ linesBelow s.content (readCheckpoint s.checkpoint) := by
    rw [facts.1]
    exact List.mem_singleton_self _
  have handed := all (some [97, 10]) events s followed (0, [97]) below
  rw [facts.2] at handed
  exact absurd handed List.not_mem_nil

end FileInput

end Ingest
end Sigil
