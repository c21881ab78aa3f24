import Mathlib.Data.List.Infix
import Mathlib.Data.List.Basic

namespace Sigil
namespace Library

universe u v w

/-- A reader of one frame: it takes a frame off the front of a stream, of which it leaves
less, or fails. -/
structure FrameReader (β : Type u) (ε : Type v) (α : Type w) where
  read : List β → Except ε (α × List β)
  shrinks : ∀ {stream frame rest}, read stream = .ok (frame, rest) → rest.length < stream.length

namespace FrameReader

/-!
# Streams of frames

A stream is read frame by frame until the reader fails.  When a frame is read back whatever
follows it, and a part of a frame is no frame, then the frames of a stream are read back, and
of a stream that breaks off those that were complete.
-/

variable {β : Type u} {ε : Type v} {α : Type w}

/-- The frames of a stream up to the failure, and the failure. -/
def readAll (reader : FrameReader β ε α) (stream : List β) : List α × ε :=
  match result : reader.read stream with
  | .error e => ([], e)
  | .ok (frame, rest) =>
      have := reader.shrinks result
      let others := reader.readAll rest
      (frame :: others.1, others.2)
termination_by stream.length

/-- The stream of some frames. -/
def writeAll (write : α → List β) (frames : List α) : List β :=
  frames.flatMap write

/-- The frames that lie within the first elements of their stream. -/
def complete (write : α → List β) : Nat → List α → List α
  | _, [] => []
  | cut, frame :: frames =>
      if (write frame).length ≤ cut then
        frame :: complete write (cut - (write frame).length) frames
      else []

/-- A frame is read back whatever follows it, and a part of it is reported as incomplete. -/
structure ReadsBack (reader : FrameReader β ε α) (write : α → List β) (incomplete : ε)
    (frame : α) : Prop where
  whole : ∀ rest, reader.read (write frame ++ rest) = .ok (frame, rest)
  part : ∀ cut, cut < (write frame).length →
    reader.read ((write frame).take cut) = .error incomplete

variable {reader : FrameReader β ε α} {write : α → List β} {incomplete : ε}

theorem readAll_ok {stream rest : List β} {frame : α}
    (result : reader.read stream = .ok (frame, rest)) :
    reader.readAll stream = (frame :: (reader.readAll rest).1, (reader.readAll rest).2) := by
  rw [readAll]
  split
  · next failed => cases failed.symm.trans result
  · next result' =>
      cases Except.ok.inj (result'.symm.trans result)
      rfl

theorem readAll_error {stream : List β} {e : ε} (result : reader.read stream = .error e) :
    reader.readAll stream = ([], e) := by
  rw [readAll]
  split
  · next failed => rw [Except.error.inj (failed.symm.trans result)]
  · next result' => cases result.symm.trans result'

/-- The frames in front of any stream are read back. -/
theorem readAll_append {frames : List α} (readBack : ∀ frame, frame ∈ frames →
    reader.ReadsBack write incomplete frame) (rest : List β) :
    reader.readAll (writeAll write frames ++ rest) =
      (frames ++ (reader.readAll rest).1, (reader.readAll rest).2) := by
  induction frames with
  | nil => rfl
  | cons frame frames inductionHypothesis =>
      have first := (readBack frame List.mem_cons_self).whole (writeAll write frames ++ rest)
      have others := inductionHypothesis fun other member =>
        readBack other (List.mem_cons_of_mem frame member)
      rw [writeAll, List.flatMap_cons, List.append_assoc]
      exact (readAll_ok first).trans (by rw [others]; rfl)

/-- Of a stream that breaks off the complete frames are read back. -/
theorem readAll_take (atEnd : reader.read [] = .error incomplete) {frames : List α}
    (readBack : ∀ frame, frame ∈ frames → reader.ReadsBack write incomplete frame)
    (cut : Nat) :
    reader.readAll ((writeAll write frames).take cut) =
      (complete write cut frames, incomplete) := by
  induction frames generalizing cut with
  | nil =>
      have empty : (writeAll write ([] : List α)).take cut = [] := List.take_nil
      rw [empty, readAll_error atEnd, complete]
  | cons frame frames inductionHypothesis =>
      have first := readBack frame List.mem_cons_self
      rw [writeAll, List.flatMap_cons, List.take_append, complete]
      by_cases within : (write frame).length ≤ cut
      · rw [if_pos within, List.take_of_length_le within]
        have others := inductionHypothesis (fun other member =>
          readBack other (List.mem_cons_of_mem frame member)) (cut - (write frame).length)
        exact (readAll_ok (first.whole _)).trans (by rw [← writeAll, others])
      · have nothing : cut - (write frame).length = 0 := by omega
        rw [if_neg within, nothing, List.take_zero, List.append_nil]
        exact readAll_error (first.part cut (Nat.lt_of_not_le within))

/-- More of a stream completes more frames. -/
theorem complete_prefix {cut cut' : Nat} (longer : cut ≤ cut') (frames : List α) :
    complete write cut frames <+: complete write cut' frames := by
  induction frames generalizing cut cut' with
  | nil => exact List.prefix_rfl
  | cons frame frames inductionHypothesis =>
      rw [complete, complete]
      by_cases within : (write frame).length ≤ cut
      · rw [if_pos within, if_pos (Nat.le_trans within longer), List.prefix_cons_inj]
        exact inductionHypothesis (Nat.sub_le_sub_right longer _)
      · rw [if_neg within]
        exact List.nil_prefix

/-- What follows the first frame of a stream that breaks off is such a stream. -/
theorem read_take (atEnd : reader.read [] = .error incomplete) {frames : List α}
    (readBack : ∀ frame, frame ∈ frames → reader.ReadsBack write incomplete frame) {cut : Nat}
    {frame : α} {rest : List β}
    (result : reader.read ((writeAll write frames).take cut) = .ok (frame, rest)) :
    ∃ others, frames = frame :: others ∧
      rest = (writeAll write others).take (cut - (write frame).length) := by
  cases frames with
  | nil =>
      have empty : (writeAll write ([] : List α)).take cut = [] := List.take_nil
      rw [empty, atEnd] at result
      cases result
  | cons first others =>
      have back := readBack first List.mem_cons_self
      rw [writeAll, List.flatMap_cons, List.take_append] at result
      by_cases within : (write first).length ≤ cut
      · rw [List.take_of_length_le within, back.whole] at result
        cases result
        exact ⟨others, rfl, rfl⟩
      · have nothing : cut - (write first).length = 0 := by omega
        rw [nothing, List.take_zero, List.append_nil,
          back.part cut (Nat.lt_of_not_le within)] at result
        cases result

end FrameReader
end Library
end Sigil
