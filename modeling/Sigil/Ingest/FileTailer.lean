import Sigil.Core.Slices
import Sigil.Library.Lines
import Sigil.Library.Transition

namespace Sigil
namespace Ingest

/-!
# Tailing a file

The tailer keeps how far it has read.  A poll reads from there to the end of the file, returns
the complete lines that are not empty and writes how far they reach as a checkpoint, from
which a new tailer starts.
-/

open Sigil.Core Library

def newline : UInt8 := 10

def carriageReturn : UInt8 := 13

/-- Tails a file, emitting the complete lines that have been appended since the last poll. -/
structure FileTailer where
  offset : Nat
  deriving DecidableEq, Repr

/-- What has been written as a checkpoint, if anything. -/
def readCheckpoint (text : Option String) : Nat :=
  (text.bind fun s => parseUsize (trim s)).getD 0

namespace FileTailer

/-- A tailer with the checkpoint that has been saved. -/
def fromCheckpoint (checkpoint : Option String) : FileTailer where
  offset := readCheckpoint checkpoint

/-- A line without the carriage return at its end. -/
def trimLine (buf : List UInt8) : List UInt8 :=
  if buf.getLast? = some carriageReturn then buf.dropLast else buf

/-- The lines of the bytes up to the end of the file, and how many bytes they take: `buf` is
what has been read of a line, and what is left of it at the end is for the next poll. -/
def readLines (buf : List UInt8) : List UInt8 → List (List UInt8) × Nat
  | [] => ([], 0)
  | byte :: bytes =>
      if byte = newline then
        let others := readLines [] bytes
        let line := trimLine buf
        (if line.isEmpty then others.1 else line :: others.1, buf.length + 1 + others.2)
      else readLines (buf ++ [byte]) bytes

/-- What a poll leaves: the tailer, the lines, and the checkpoint if one is to be written. -/
structure Poll where
  tailer : FileTailer
  lines : List (List UInt8)
  checkpoint : Option String
  deriving DecidableEq, Repr

/-- Where a poll starts to read: at the start again, if the file has become shorter. -/
def readFrom (t : FileTailer) (content : List UInt8) : Nat :=
  if content.length < t.offset then 0 else t.offset

/-- Read the complete lines.  The file may grow by `during` until its end is read. -/
def pollLines (t : FileTailer) (file : Option (List UInt8)) (during : List UInt8) : Poll :=
  match file with
  | none => { tailer := t, lines := [], checkpoint := none }
  | some content =>
      let offset := t.readFrom content
      if content.length = offset then
        { tailer := { offset := offset }, lines := [], checkpoint := none }
      else
        let read := readLines [] ((content ++ during).drop offset)
        let consumed := offset + read.2
        { tailer := { offset := consumed }
          lines := read.1
          checkpoint := if consumed ≠ offset then some (toString consumed) else none }

end FileTailer

/-- The lines of a file that end with a line feed, without it and a carriage return in front of
it; empty ones are skipped. -/
def completeLines (content : List UInt8) : List (List UInt8) :=
  ((Lines.complete newline content).map FileTailer.trimLine).filter fun line => !line.isEmpty

/-! ## Runs -/

/-- A file, its checkpoint and a tailer.  The last two fields are not part of the program: the
lines of all polls, and the file as the last poll has read it. -/
structure Tail where
  file : Option (List UInt8)
  checkpoint : Option String
  tailer : FileTailer
  returned : List (List UInt8)
  seen : List UInt8

/-- What can happen next.  A poll that fails returns nothing. -/
inductive TailEvent where
  | append (bytes : List UInt8)
  | poll (during : List UInt8)
  | pollFails
  | reopen
  deriving DecidableEq, Repr

namespace Tail

/-- A tailer that has been opened for the first time. -/
def start (file : Option (List UInt8)) : Tail where
  file := file
  checkpoint := none
  tailer := FileTailer.fromCheckpoint none
  returned := []
  seen := []

/-- The bytes of the file. -/
def content (s : Tail) : List UInt8 :=
  s.file.getD []

/-- The file as a poll reads it. -/
def polled (s : Tail) (during : List UInt8) : List UInt8 :=
  if s.content.length = s.tailer.offset then s.content else s.content ++ during

/-- One event.  Files are shorter than the numbers in which offsets are kept. -/
def step (s : Tail) : TailEvent → Option Tail
  | .append bytes =>
      if (s.content ++ bytes).length < 2 ^ 64 then some { s with file := some (s.content ++ bytes) }
      else none
  | .poll during =>
      if (s.content ++ during).length < 2 ^ 64 then
        let poll := s.tailer.pollLines s.file during
        some
          { file := if during = [] then s.file else some (s.content ++ during)
            checkpoint := poll.checkpoint.or s.checkpoint
            tailer := poll.tailer
            returned := s.returned ++ poll.lines
            seen := s.polled during }
      else none
  | .pollFails => some s
  | .reopen => some { s with tailer := FileTailer.fromCheckpoint s.checkpoint }

end Tail

/-- All runs over a file that only grows. -/
def tails : TransitionSystem Tail TailEvent where
  init := fun s => ∃ file, s = Tail.start file
  step := fun before event after => before.step event = some after

/-! ## What a poll reads -/

theorem completeLines_append (content more : List UInt8) :
    completeLines (content ++ more) = completeLines content ++
      completeLines (content.drop (Lines.covered newline content) ++ more) := by
  rw [completeLines, Lines.complete_append, List.map_append, List.filter_append, completeLines,
    completeLines]

theorem completeLines_line {line : List UInt8} (absent : newline ∉ line) (rest : List UInt8) :
    completeLines (line ++ newline :: rest) =
      if (FileTailer.trimLine line).isEmpty then completeLines rest
      else FileTailer.trimLine line :: completeLines rest := by
  rw [completeLines, Lines.complete_line absent, List.map_cons, List.filter_cons, completeLines]
  cases (FileTailer.trimLine line).isEmpty with
  | true => rfl
  | false => rfl

/-- A checkpoint is read as it has been written. -/
theorem readCheckpoint_toString {n : Nat} (bound : n < 2 ^ 64) :
    readCheckpoint (some (toString n)) = n := by
  rw [readCheckpoint, Option.bind_some, trim_toString, parseUsize_toString bound, Option.getD_some]

namespace FileTailer

/-- The loop finds the complete lines and how far they reach. -/
theorem readLines_eq {buf : List UInt8} (absent : newline ∉ buf) (bytes : List UInt8) :
    readLines buf bytes = (completeLines (buf ++ bytes), Lines.covered newline (buf ++ bytes)) := by
  induction bytes generalizing buf with
  | nil =>
      rw [readLines, List.append_nil, completeLines, Lines.complete_last absent,
        Lines.covered_last absent]
      rfl
  | cons byte bytes inductionHypothesis =>
      by_cases isStop : byte = newline
      · subst isStop
        rw [readLines, if_pos rfl, inductionHypothesis List.not_mem_nil, completeLines_line absent,
          Lines.covered_line absent, List.nil_append]
      · have longer : newline ∉ buf ++ [byte] := by
          rw [List.mem_append, List.mem_singleton, not_or]
          exact ⟨absent, Ne.symm isStop⟩
        rw [readLines, if_neg isStop, inductionHypothesis longer, List.append_assoc,
          List.singleton_append]

theorem readFrom_eq {t : FileTailer} {content : List UInt8} (inside : t.offset ≤ content.length) :
    t.readFrom content = t.offset :=
  if_neg (Nat.not_lt_of_le inside)

/-- A poll at the end of the file has nothing to read. -/
theorem pollLines_end {t : FileTailer} {file : Option (List UInt8)}
    (read : (file.getD []).length = t.offset) (during : List UInt8) :
    t.pollLines file during = { tailer := t, lines := [], checkpoint := none } := by
  cases file with
  | none => rfl
  | some content =>
      rw [Option.getD_some] at read
      have from_ : t.readFrom content = t.offset := readFrom_eq (Nat.le_of_eq read.symm)
      rw [pollLines]
      dsimp only
      rw [from_, if_pos read]

/-- A poll of a tailer that has read the complete lines of the start of a file. -/
theorem pollLines_eq {t : FileTailer} {seen content : List UInt8}
    (offset : t.offset = Lines.covered newline seen) (start : seen <+: content)
    (unread : content.length ≠ t.offset) (during : List UInt8) :
    t.pollLines (some content) during =
      { tailer := { offset := Lines.covered newline (content ++ during) }
        lines := completeLines ((content ++ during).drop t.offset)
        checkpoint :=
          if Lines.covered newline (content ++ during) ≠ t.offset then
            some (toString (Lines.covered newline (content ++ during)))
          else none } := by
  rcases start with ⟨more, rfl⟩
  have inside : Lines.covered newline seen ≤ seen.length := Lines.covered_le_length seen
  have from_ : t.readFrom (seen ++ more) = t.offset := by
    apply readFrom_eq
    rw [offset, List.length_append]
    omega
  have consumed : t.offset + Lines.covered newline ((seen ++ more ++ during).drop t.offset) =
      Lines.covered newline (seen ++ more ++ during) := by
    rw [offset, List.append_assoc, Lines.drop_covered_append, ← Lines.covered_append]
  rw [pollLines]
  dsimp only
  rw [from_, if_neg unread, readLines_eq List.not_mem_nil, List.nil_append]
  dsimp only
  rw [consumed]

end FileTailer

/-! ## The invariant -/

namespace Tail

/-- The tailer has returned the complete lines of what it has seen, and has saved how far they
reach. -/
structure Holds (s : Tail) : Prop where
  offset : s.tailer.offset = Lines.covered newline s.seen
  saved : readCheckpoint s.checkpoint = s.tailer.offset
  returned : s.returned = completeLines s.seen
  start : s.seen <+: s.content

theorem holds_start (file : Option (List UInt8)) : (start file).Holds where
  offset := rfl
  saved := rfl
  returned := rfl
  start := List.nil_prefix

variable {s s' : Tail}

theorem Holds.poll (holds : s.Holds) {during : List UInt8}
    (bound : (s.content ++ during).length < 2 ^ 64) (step : s.step (.poll during) = some s') :
    s'.Holds := by
  rw [Tail.step, if_pos bound] at step
  rw [← Option.some.inj step]
  rcases holds.start with ⟨more, grown⟩
  by_cases read : s.content.length = s.tailer.offset
  · -- nothing has been added to what has been seen
    have inside : Lines.covered newline s.seen ≤ s.seen.length := Lines.covered_le_length s.seen
    have same : s.seen = s.content := by
      refine holds.start.eq_of_length ?_
      have below := holds.start.length_le
      have offset := holds.offset
      omega
    rw [FileTailer.pollLines_end read, polled, if_pos read, List.append_nil, Option.none_or]
    rw [← same]
    refine ⟨holds.offset, holds.saved, holds.returned, ?_⟩
    change s.seen <+: Option.getD (if during = [] then s.file else _) []
    by_cases nothing : during = []
    · rw [if_pos nothing]
      exact holds.start
    · rw [if_neg nothing]
      exact List.prefix_append _ _
  · cases present : s.file with
    | none =>
        have empty : s.content = [] := by rw [content, present, Option.getD_none]
        have nothing : s.seen = [] := List.prefix_nil.mp (empty ▸ holds.start)
        refine absurd ?_ read
        rw [empty, holds.offset, nothing]
        rfl
    | some content =>
        have isContent : s.content = content := by rw [Tail.content, present, Option.getD_some]
        rw [isContent] at read grown bound
        have start : s.seen <+: content := ⟨more, grown⟩
        have lines : completeLines (content ++ during) =
            s.returned ++ completeLines ((content ++ during).drop s.tailer.offset) := by
          rw [← grown, List.append_assoc, completeLines_append, holds.offset,
            Lines.drop_covered_append, holds.returned]
        rw [FileTailer.pollLines_eq holds.offset start read during, polled, isContent, if_neg read]
        refine ⟨rfl, ?_, lines.symm, ?_⟩
        · have inside : Lines.covered newline (content ++ during) ≤ (content ++ during).length :=
            Lines.covered_le_length _
          by_cases further : Lines.covered newline (content ++ during) ≠ s.tailer.offset
          · rw [if_pos further]
            exact readCheckpoint_toString (Nat.lt_of_le_of_lt inside bound)
          · rw [if_neg further, Option.none_or, holds.saved]
            exact (not_not.mp further).symm
        · change content ++ during <+:
            Option.getD (if during = [] then some content else some (content ++ during)) []
          by_cases nothing : during = []
          · rw [if_pos nothing, nothing, List.append_nil]
            exact List.prefix_refl _
          · rw [if_neg nothing]
            exact List.prefix_refl _

/-- Every step keeps the invariant. -/
theorem Holds.step (holds : s.Holds) {event : TailEvent} (step : s.step event = some s') :
    s'.Holds := by
  cases event with
  | append bytes =>
      rw [Tail.step] at step
      split at step
      · rw [← Option.some.inj step]
        exact ⟨holds.offset, holds.saved, holds.returned,
          holds.start.trans (List.prefix_append _ _)⟩
      · cases step
  | poll during =>
      by_cases bound : (s.content ++ during).length < 2 ^ 64
      · exact holds.poll bound step
      · rw [Tail.step, if_neg bound] at step
        cases step
  | pollFails => exact Option.some.inj step ▸ holds
  | reopen =>
      rw [← Option.some.inj step]
      exact ⟨holds.saved.trans holds.offset, rfl, holds.returned, holds.start⟩

/-- In every run the polls have returned the complete lines of the file up to the last poll, each
once and in order. -/
theorem returned_eq_completeLines {s : Tail} (run : tails.Reachable s) :
    s.returned = completeLines s.seen := by
  have holds : s.Holds := by
    refine run.invariant Holds ?_ fun before event after holds step => holds.step step
    rintro state ⟨file, rfl⟩
    exact holds_start file
  exact holds.returned

/-- Three lines, of which one is empty and one is completed later, in four writes. -/
def written : List TailEvent :=
  [.append [97, 13, 10], .poll [], .append [13, 10, 98], .poll [99], .reopen, .append [10, 100],
    .poll []]

theorem returned_eq_completeLines_written :
    ∃ s, TransitionSystem.follow step (start none) written = some s ∧
      s.seen = [97, 13, 10, 13, 10, 98, 99, 10, 100] ∧ s.returned = [[97], [98, 99]] ∧
      s.returned = completeLines s.seen := by
  have ran :
      (TransitionSystem.follow step (start none) written).map (fun s => (s.seen, s.returned)) =
      some ([97, 13, 10, 13, 10, 98, 99, 10, 100], [[97], [98, 99]]) := by
    decide +kernel
  rcases Option.map_eq_some_iff.mp ran with ⟨s, followed, facts⟩
  rw [Prod.mk.injEq] at facts
  have reached : tails.Reaches (start none) s :=
    TransitionSystem.Reaches.of_follow (fun _ _ _ step => step) followed
  exact ⟨s, followed, facts.1, facts.2,
    returned_eq_completeLines ⟨_, ⟨none, rfl⟩, reached⟩⟩

end Tail

end Ingest
end Sigil
