import Sigil.Ingest.FileTailer

namespace Sigil
namespace Ingest

/-!
# Files that are truncated and rotated

A file may become shorter, be replaced by another one or be away.  A tailer that finds the file
shorter than what it has read starts again, but saves where it is only when it has read a complete
line from there.
-/

open Sigil.Core Library

/-- What can happen to a file, its checkpoint and a tailer. -/
structure RotatingTail where
  file : Option (List UInt8)
  checkpoint : Option String
  tailer : FileTailer
  deriving DecidableEq, Repr

/-- Writing at the end of the file, cutting it, putting another file in its place or none, polls,
and a restart.  A poll fails before it has compared the length of the file with the offset, or when
it reads. -/
inductive RotationEvent where
  | append (bytes : List UInt8)
  | truncate (length : Nat)
  | rotate (file : Option (List UInt8))
  | poll (during : List UInt8)
  | openFails
  | readFails
  | reopen
  deriving DecidableEq, Repr

namespace RotatingTail

/-- A tailer that has been opened with whatever has been saved. -/
def start (file : Option (List UInt8)) (checkpoint : Option String) : RotatingTail where
  file := file
  checkpoint := checkpoint
  tailer := FileTailer.fromCheckpoint checkpoint

/-- One event.  Files are shorter than the numbers in which offsets are kept. -/
def step (s : RotatingTail) : RotationEvent → Option RotatingTail
  | .append bytes => some { s with file := some (s.file.getD [] ++ bytes) }
  | .truncate length => some { s with file := s.file.map (List.take length) }
  | .rotate file => some { s with file := file }
  | .poll during =>
      let poll := s.tailer.pollLines s.file during
      let file := s.file.map (· ++ during)
      if (file.getD []).length < 2 ^ 64 then
        some { file := file, checkpoint := poll.checkpoint.or s.checkpoint, tailer := poll.tailer }
      else none
  | .openFails => some s
  | .readFails =>
      match s.file with
      | none => none
      | some content =>
          -- the offset has been set back before the error
          if content.length = s.tailer.readFrom content then none
          else some { s with tailer := { offset := s.tailer.readFrom content } }
  | .reopen => some { s with tailer := FileTailer.fromCheckpoint s.checkpoint }

/-- A tailer that is opened now would continue where the running one does. -/
def Matches (s : RotatingTail) : Prop :=
  FileTailer.fromCheckpoint s.checkpoint = s.tailer

instance (s : RotatingTail) : Decidable s.Matches :=
  inferInstanceAs (Decidable (_ = _))

/-- A poll that finds the file shorter than the offset also finds a complete line in it. -/
def FindsLine (s : RotatingTail) : RotationEvent → Prop
  | .poll during => ∀ content, s.file = some content → content.length < s.tailer.offset →
      content ≠ [] ∧ newline ∈ content ++ during
  | .readFails => ∀ content, s.file = some content → s.tailer.offset ≤ content.length
  | .append _ | .truncate _ | .rotate _ | .openFails | .reopen => True

end RotatingTail

/-- All runs over a file to which anything may happen, from any checkpoint. -/
def rotatingTails : TransitionSystem RotatingTail RotationEvent where
  init := fun s => ∃ file checkpoint, s = RotatingTail.start file checkpoint
  step := fun before event after => before.step event = some after

/-! ## What a poll saves -/

namespace FileTailer

variable {t : FileTailer} {content during : List UInt8} {checkpoint : Option String}

/-- A poll that reads on from where it was saves where it gets. -/
theorem saved_of_inside (inside : t.offset ≤ content.length)
    (bound : (content ++ during).length < 2 ^ 64) (saved : readCheckpoint checkpoint = t.offset) :
    readCheckpoint ((t.pollLines (some content) during).checkpoint.or checkpoint) =
      (t.pollLines (some content) during).tailer.offset := by
  rw [pollLines]
  dsimp only
  rw [readFrom_eq inside, readLines_eq List.not_mem_nil]
  by_cases read : content.length = t.offset
  · rw [if_pos read]
    exact saved
  · rw [if_neg read]
    dsimp only
    split
    · have below := @Lines.covered_le_length _ _ newline ((content ++ during).drop t.offset)
      rw [List.length_drop] at below
      refine readCheckpoint_toString ?_
      rw [List.nil_append]
      rw [List.length_append] at below bound
      omega
    · next same => exact saved.trans (not_not.mp same).symm

/-- A poll that starts again saves where it is only after a complete line. -/
theorem saved_of_shorter (shorter : content.length < t.offset)
    (bound : (content ++ during).length < 2 ^ 64) (saved : readCheckpoint checkpoint = t.offset) :
    readCheckpoint ((t.pollLines (some content) during).checkpoint.or checkpoint) =
        (t.pollLines (some content) during).tailer.offset ↔
      content ≠ [] ∧ newline ∈ content ++ during := by
  have reset : t.readFrom content = 0 := if_pos shorter
  have old : readCheckpoint checkpoint ≠ 0 := by
    rw [saved]
    omega
  rw [pollLines]
  dsimp only
  rw [reset, readLines_eq List.not_mem_nil, List.drop_zero, List.nil_append, Nat.zero_add]
  by_cases empty : content = []
  · rw [if_pos (List.length_eq_zero_iff.mpr empty)]
    exact iff_of_false old fun finds => finds.1 empty
  · rw [if_neg (mt List.length_eq_zero_iff.mp empty)]
    dsimp only
    by_cases nothing : Lines.covered newline (content ++ during) = 0
    · rw [nothing, if_neg (not_not.mpr rfl), Option.none_or]
      exact iff_of_false old fun finds => Lines.covered_eq_zero_iff.mp nothing finds.2
    · rw [if_pos nothing]
      have below := @Lines.covered_le_length _ _ newline (content ++ during)
      have line : newline ∈ content ++ during := by
        by_contra absent
        exact nothing (Lines.covered_eq_zero_iff.mpr absent)
      exact iff_of_true (readCheckpoint_toString (Nat.lt_of_le_of_lt below bound)) ⟨empty, line⟩

end FileTailer

/-! ## Runs -/

namespace RotatingTail

variable {s s' : RotatingTail}

theorem matches_iff_readCheckpoint :
    s.Matches ↔ readCheckpoint s.checkpoint = s.tailer.offset := by
  rw [Matches, FileTailer.fromCheckpoint]
  constructor
  · intro same
    rw [← same]
  · intro same
    rw [same]

/-- After a poll the two agree exactly if a shorter file has a complete line. -/
theorem Matches.poll (agree : s.Matches) {during : List UInt8}
    (step : s.step (.poll during) = some s') : s'.Matches ↔ s.FindsLine (.poll during) := by
  rw [matches_iff_readCheckpoint] at agree
  rw [RotatingTail.step] at step
  split at step
  · next bound =>
      rw [← Option.some.inj step, matches_iff_readCheckpoint, FindsLine]
      cases present : s.file with
      | none => exact iff_of_true agree fun content impossible => absurd impossible (by simp)
      | some content =>
          rw [present] at bound
          change (content ++ during).length < 2 ^ 64 at bound
          simp only [Option.some.injEq, forall_eq']
          by_cases shorter : content.length < s.tailer.offset
          · rw [FileTailer.saved_of_shorter shorter bound agree]
            exact ⟨fun line _ => line, fun line => line shorter⟩
          · have inside := Nat.le_of_not_lt shorter
            exact iff_of_true (FileTailer.saved_of_inside inside bound agree)
              fun impossible => absurd impossible shorter
  · cases step

theorem Matches.step (agree : s.Matches) {event : RotationEvent} (finds : s.FindsLine event)
    (step : s.step event = some s') : s'.Matches := by
  cases event with
  | append bytes => exact Option.some.inj step ▸ agree
  | truncate length => exact Option.some.inj step ▸ agree
  | rotate file => exact Option.some.inj step ▸ agree
  | poll during => exact (agree.poll step).mpr finds
  | openFails => exact Option.some.inj step ▸ agree
  | readFails =>
      rw [RotatingTail.step] at step
      cases present : s.file with
      | none =>
          rw [present] at step
          cases step
      | some content =>
          rw [present] at step
          dsimp only at step
          split at step
          · cases step
          · rw [← Option.some.inj step, FileTailer.readFrom_eq (finds content present)]
            exact agree
  | reopen =>
      rw [← Option.some.inj step]
      exact rfl

/-- In every run whose polls find a complete line whenever they start again, a tailer that is
opened now would continue where the running one does.  The next poll keeps this exactly if it
finds a line as well. -/
theorem matches_of_findsLine (run : (rotatingTails.restrict FindsLine).Reachable s) :
    s.Matches ∧ ∀ during s', s.step (.poll during) = some s' →
      (s'.Matches ↔ s.FindsLine (.poll during)) := by
  have agree : s.Matches := by
    refine run.invariant Matches ?_ ?_
    · rintro state ⟨file, checkpoint, rfl⟩
      exact rfl
    · rintro before event after agree ⟨finds, step⟩
      exact agree.step finds step
  exact ⟨agree, fun during s' step => agree.poll step⟩

instance (s : RotatingTail) : (event : RotationEvent) → Decidable (s.FindsLine event)
  | .poll during =>
      match present : s.file with
      | none => .isTrue fun _ impossible => absurd (present.symm.trans impossible) (by simp)
      | some content =>
          decidable_of_iff (content.length < s.tailer.offset →
              content ≠ [] ∧ newline ∈ content ++ during)
            ⟨fun finds other isFile => by
              cases Option.some.inj (present.symm.trans isFile)
              exact finds, fun finds => finds content present⟩
  | .readFails =>
      match present : s.file with
      | none => .isTrue fun _ impossible => absurd (present.symm.trans impossible) (by simp)
      | some content =>
          decidable_of_iff (s.tailer.offset ≤ content.length)
            ⟨fun inside other isFile => by
              cases Option.some.inj (present.symm.trans isFile)
              exact inside, fun inside => inside content present⟩
  | .append _ | .truncate _ | .rotate _ | .openFails | .reopen => .isTrue trivial

/-- A file of two lines that is replaced by a shorter one with a line, taken away and written
again. -/
def rotated : List RotationEvent :=
  [.append [97, 10, 98, 10], .poll [], .rotate (some [99, 10]), .poll [], .rotate none, .poll [],
    .append [100, 10, 101], .poll [], .truncate 2]

theorem matches_of_findsLine_rotated :
    ∃ s, TransitionSystem.follow (TransitionSystem.guarded FindsLine step) (start none none)
        rotated = some s ∧ s.file = some [100, 10] ∧ s.tailer.offset = 2 ∧
      (s.Matches ∧ ∀ during s', s.step (.poll during) = some s' →
        (s'.Matches ↔ s.FindsLine (.poll during))) := by
  have ran : (TransitionSystem.follow (TransitionSystem.guarded FindsLine step) (start none none)
      rotated).map (fun s => (s.file, s.tailer.offset)) = some (some [100, 10], 2) := by
    decide +kernel
  rcases Option.map_eq_some_iff.mp ran with ⟨s, followed, facts⟩
  rw [Prod.mk.injEq] at facts
  have reached : (rotatingTails.restrict FindsLine).Reaches (start none none) s :=
    TransitionSystem.Reaches.of_guarded (fun _ _ _ step => step) followed
  exact ⟨s, followed, facts.1, facts.2,
    matches_of_findsLine ⟨_, ⟨none, none, rfl⟩, reached⟩⟩

/-- A file that has been read and is emptied: the tailer starts again, and a new one would not. -/
theorem emptied_not_matches :
    ∃ s, TransitionSystem.follow step (start none none)
        [.append [97, 97, 97, 97, 10], .poll [], .truncate 0, .poll []] = some s ∧
      s.tailer.offset = 0 ∧ readCheckpoint s.checkpoint = 5 ∧ ¬ s.Matches := by
  have ran : (TransitionSystem.follow step (start none none)
      [.append [97, 97, 97, 97, 10], .poll [], .truncate 0, .poll []]).map
        (fun s => (s.tailer.offset, readCheckpoint s.checkpoint)) = some (0, 5) := by
    decide +kernel
  rcases Option.map_eq_some_iff.mp ran with ⟨s, followed, facts⟩
  rw [Prod.mk.injEq] at facts
  refine ⟨s, followed, facts.1, facts.2, ?_⟩
  rw [matches_iff_readCheckpoint, facts.1, facts.2]
  decide

end RotatingTail

end Ingest
end Sigil
