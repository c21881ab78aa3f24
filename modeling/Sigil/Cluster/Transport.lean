import Sigil.Core.Utf8
import Sigil.Library.Framing

namespace Sigil
namespace Cluster

/-!
# The transport between peers

A publication is written to a peer as a frame: the length of the topic, the topic, the
length of the payload and the payload.  The peer reads frame by frame and publishes what it
reads to its own topics; it closes the link at a length above the cap.
-/

open Sigil.Core Library

/-- A topic and what is published to it. -/
structure Publication where
  topic : String
  payload : List UInt8
  deriving DecidableEq, Repr

/-- The cap on the fields of a frame: 16 MiB. -/
def maxFrame : Nat := 16 * 1024 * 1024

/-- Why a peer stops to read: the stream has ended, or a length is above the cap. -/
inductive LinkError where
  | read
  | oversizedTopic
  | oversizedPayload
  deriving DecidableEq, Repr

/-! ## Writing -/

/-- The bytes of a machine word, the highest first. -/
def writeU32 (value : UInt32) : List UInt8 :=
  [UInt8.ofNat (value.toNat / 2 ^ 24), UInt8.ofNat (value.toNat / 2 ^ 16),
    UInt8.ofNat (value.toNat / 2 ^ 8), UInt8.ofNat value.toNat]

/-- The frame of a publication.  The lengths are cast to machine words. -/
def writeFrame (publication : Publication) : List UInt8 :=
  let topic := utf8Bytes publication.topic
  writeU32 (UInt32.ofNat topic.length) ++ topic ++
    (writeU32 (UInt32.ofNat publication.payload.length) ++ publication.payload)

/-! ## Reading -/

def readU32 : List UInt8 → Except LinkError (UInt32 × List UInt8)
  | a :: b :: c :: d :: rest =>
      .ok (UInt32.ofNat (a.toNat * 2 ^ 24 + b.toNat * 2 ^ 16 + c.toNat * 2 ^ 8 + d.toNat), rest)
  | _ => .error .read

def readExact (length : Nat) (stream : List UInt8) : Except LinkError (List UInt8 × List UInt8) :=
  if length ≤ stream.length then .ok (stream.take length, stream.drop length) else .error .read

/-- A field with its length in front. -/
def readField (oversized : LinkError) (stream : List UInt8) :
    Except LinkError (List UInt8 × List UInt8) := do
  let (length, stream) ← readU32 stream
  if length.toNat > maxFrame then throw oversized
  readExact length.toNat stream

/-- One turn of the reader's loop. -/
def readFrame (stream : List UInt8) : Except LinkError (Publication × List UInt8) := do
  let (topic, stream) ← readField .oversizedTopic stream
  let (payload, stream) ← readField .oversizedPayload stream
  return (⟨fromUtf8Lossy topic, payload⟩, stream)

/-! ## What the reader does with a stream -/

theorem readU32_write (value : UInt32) (rest : List UInt8) :
    readU32 (writeU32 value ++ rest) = .ok (value, rest) := by
  have bound := value.toNat_lt
  unfold writeU32
  rw [List.cons_append, List.cons_append, List.cons_append, List.cons_append, List.nil_append,
    readU32]
  congr 2
  apply UInt32.toNat_inj.mp
  simp only [UInt8.toNat_ofNat', UInt32.toNat_ofNat']
  omega

theorem readU32_short {stream : List UInt8} (short : stream.length < 4) :
    readU32 stream = .error .read := by
  rcases stream with _ | ⟨a, _ | ⟨b, _ | ⟨c, _ | ⟨d, rest⟩⟩⟩⟩
  · rfl
  · rfl
  · rfl
  · rfl
  · simp only [List.length_cons] at short
    omega

theorem readU32_length {stream rest : List UInt8} {value : UInt32}
    (result : readU32 stream = .ok (value, rest)) : rest.length < stream.length := by
  unfold readU32 at result
  split at result
  · cases result
    simp only [List.length_cons]
    omega
  · cases result

theorem readField_eq (oversized : LinkError) (stream : List UInt8) :
    readField oversized stream =
      match readU32 stream with
      | .error e => .error e
      | .ok (length, stream) =>
          if length.toNat > maxFrame then .error oversized else readExact length.toNat stream := by
  unfold readField
  cases readU32 stream with
  | error e => rfl
  | ok pair =>
      by_cases large : pair.1.toNat > maxFrame
      · simp only [bind, Except.bind, if_pos large, throw, throwThe, MonadExceptOf.throw]
      · simp only [bind, Except.bind, if_neg large]

theorem readField_length {oversized : LinkError} {stream field rest : List UInt8}
    (result : readField oversized stream = .ok (field, rest)) : rest.length < stream.length := by
  rw [readField_eq] at result
  split at result
  · cases result
  · next word =>
      split at result
      · cases result
      · unfold readExact at result
        split at result
        · cases result
          have shorter := readU32_length word
          rw [List.length_drop]
          omega
        · cases result

theorem readFrame_eq (stream : List UInt8) :
    readFrame stream =
      match readField .oversizedTopic stream with
      | .error e => .error e
      | .ok (topic, stream) =>
          match readField .oversizedPayload stream with
          | .error e => .error e
          | .ok (payload, stream) => .ok (⟨fromUtf8Lossy topic, payload⟩, stream) := by
  unfold readFrame
  cases readField .oversizedTopic stream with
  | error e => rfl
  | ok first =>
      rcases first with ⟨topic, rest⟩
      change (readField .oversizedPayload rest >>= _) = _
      dsimp only
      cases readField .oversizedPayload rest with
      | error e => rfl
      | ok second => rfl

theorem readFrame_of_topic {stream topic rest : List UInt8}
    (first : readField .oversizedTopic stream = .ok (topic, rest)) :
    readFrame stream =
      match readField .oversizedPayload rest with
      | .error e => .error e
      | .ok (payload, rest) => .ok (⟨fromUtf8Lossy topic, payload⟩, rest) := by
  rw [readFrame_eq, first]

theorem readFrame_of_fields {stream topic middle payload rest : List UInt8}
    (first : readField .oversizedTopic stream = .ok (topic, middle))
    (second : readField .oversizedPayload middle = .ok (payload, rest)) :
    readFrame stream = .ok (⟨fromUtf8Lossy topic, payload⟩, rest) := by
  rw [readFrame_of_topic first, second]

theorem readFrame_of_topic_error {stream : List UInt8} {e : LinkError}
    (first : readField .oversizedTopic stream = .error e) : readFrame stream = .error e := by
  rw [readFrame_eq, first]

theorem readFrame_of_payload_error {stream topic rest : List UInt8} {e : LinkError}
    (first : readField .oversizedTopic stream = .ok (topic, rest))
    (second : readField .oversizedPayload rest = .error e) : readFrame stream = .error e := by
  rw [readFrame_of_topic first, second]

/-- The reader of a link. -/
def frames : FrameReader UInt8 LinkError Publication where
  read := readFrame
  shrinks := by
    intro stream frame rest result
    rw [readFrame_eq] at result
    split at result
    · cases result
    · next first =>
        split at result
        · cases result
        · next second =>
            cases result
            exact (readField_length second).trans (readField_length first)

/-- What a peer publishes of a stream until it stops, and why it stops. -/
def readFrames (stream : List UInt8) : List Publication × LinkError :=
  frames.readAll stream

/-- What is written to one connection. -/
def connection (publications : List Publication) : List UInt8 :=
  FrameReader.writeAll writeFrame publications

/-! ## Fields below the cap -/

/-- A field with its length in front, as it is written. -/
def writeField (field : List UInt8) : List UInt8 :=
  writeU32 (UInt32.ofNat field.length) ++ field

theorem length_writeField (field : List UInt8) : (writeField field).length = 4 + field.length :=
  List.length_append

theorem writeFrame_eq (publication : Publication) :
    writeFrame publication =
      writeField (utf8Bytes publication.topic) ++ writeField publication.payload :=
  rfl

/-- The length that is read is the one that was cast. -/
theorem readField_write (oversized : LinkError) (field rest : List UInt8) :
    readField oversized (writeField field ++ rest) =
      if field.length % 2 ^ 32 > maxFrame then .error oversized
      else readExact (field.length % 2 ^ 32) (field ++ rest) := by
  rw [readField_eq, writeField, List.append_assoc, readU32_write]
  simp only [UInt32.toNat_ofNat']

theorem mod_eq_of_le_maxFrame {length : Nat} (small : length ≤ maxFrame) :
    length % 2 ^ 32 = length := by
  unfold maxFrame at small
  omega

theorem readField_whole {field : List UInt8} (small : field.length ≤ maxFrame)
    (oversized : LinkError) (rest : List UInt8) :
    readField oversized (writeField field ++ rest) = .ok (field, rest) := by
  rw [readField_write, mod_eq_of_le_maxFrame small, if_neg (Nat.not_lt.mpr small), readExact,
    if_pos (by rw [List.length_append]; omega), List.take_left, List.drop_left]

theorem readField_part {field : List UInt8} (small : field.length ≤ maxFrame)
    (oversized : LinkError) {cut : Nat} (breaksOff : cut < (writeField field).length) :
    readField oversized ((writeField field).take cut) = .error .read := by
  rw [length_writeField] at breaksOff
  rcases Nat.lt_or_ge cut 4 with inLength | inField
  · rw [readField_eq, readU32_short (by rw [List.length_take]; omega)]
  · -- the length is whole and the field is too short for it
    have split : (writeField field).take cut =
        writeU32 (UInt32.ofNat field.length) ++ field.take (cut - 4) := by
      rw [writeField, List.take_append, List.take_of_length_le inField]
      rfl
    rw [readField_eq, split, readU32_write]
    simp only [UInt32.toNat_ofNat', mod_eq_of_le_maxFrame small]
    rw [if_neg (Nat.not_lt.mpr small), readExact, if_neg (by rw [List.length_take]; omega)]

/-- Both fields are below the cap. -/
def Publication.Fits (publication : Publication) : Prop :=
  (utf8Bytes publication.topic).length ≤ maxFrame ∧ publication.payload.length ≤ maxFrame

instance (publication : Publication) : Decidable publication.Fits :=
  inferInstanceAs (Decidable (_ ∧ _))

theorem readFrame_part {topic payload : List UInt8} (smallTopic : topic.length ≤ maxFrame)
    (smallPayload : payload.length ≤ maxFrame) {cut : Nat}
    (breaksOff : cut < (writeField topic ++ writeField payload).length) :
    readFrame ((writeField topic ++ writeField payload).take cut) = .error .read := by
  rw [List.length_append] at breaksOff
  rw [List.take_append]
  rcases Nat.lt_or_ge cut (writeField topic).length with inTopic | inPayload
  · have nothing : cut - (writeField topic).length = 0 := by omega
    rw [nothing, List.take_zero, List.append_nil]
    exact readFrame_of_topic_error (readField_part smallTopic _ inTopic)
  · have breaksOff : cut - (writeField topic).length < (writeField payload).length := by omega
    rw [List.take_of_length_le inPayload]
    exact readFrame_of_payload_error (readField_whole smallTopic _ _)
      (readField_part smallPayload _ breaksOff)

theorem Publication.Fits.readsBack {publication : Publication} (fits : publication.Fits) :
    frames.ReadsBack writeFrame .read publication where
  whole rest := by
    have read := readFrame_of_fields
      (readField_whole fits.1 .oversizedTopic (writeField publication.payload ++ rest))
      (readField_whole fits.2 .oversizedPayload rest)
    rw [fromUtf8Lossy_utf8Bytes] at read
    rw [writeFrame_eq, List.append_assoc]
    exact read
  part cut breaksOff := readFrame_part fits.1 fits.2 breaksOff

/-! ## Fields above the cap -/

theorem readExact_ok {length : Nat} {stream field rest : List UInt8}
    (result : readExact length stream = .ok (field, rest)) : field.length = length := by
  unfold readExact at result
  split at result
  · next enough =>
      cases result
      exact List.length_take_of_le enough
  · cases result

/-- A field that is read of a written one has the length that was cast, below the cap. -/
theorem readField_written {oversized : LinkError} {field rest field' rest' : List UInt8}
    (result : readField oversized (writeField field ++ rest) = .ok (field', rest')) :
    field'.length = field.length % 2 ^ 32 ∧ field'.length ≤ maxFrame := by
  rw [readField_write] at result
  split at result
  · cases result
  · next within =>
      have length := readExact_ok result
      exact ⟨length, length ▸ Nat.le_of_not_gt within⟩

theorem readFrame_ok {stream rest : List UInt8} {publication : Publication}
    (result : readFrame stream = .ok (publication, rest)) :
    ∃ topic middle payload, readField .oversizedTopic stream = .ok (topic, middle) ∧
      readField .oversizedPayload middle = .ok (payload, rest) ∧
      publication = ⟨fromUtf8Lossy topic, payload⟩ := by
  rw [readFrame_eq] at result
  split at result
  · cases result
  · next topic middle first =>
      split at result
      · cases result
      · next payload rest second =>
          cases result
          exact ⟨topic, middle, payload, first, second, rfl⟩

/-- What is read of a frame with a field above the cap is not what was written. -/
theorem readFrame_ne {written : Publication} (unfit : ¬ written.Fits) {rest rest' : List UInt8}
    {publication : Publication}
    (result : readFrame (writeFrame written ++ rest) = .ok (publication, rest')) :
    publication ≠ written := by
  rintro rfl
  rw [writeFrame_eq, List.append_assoc] at result
  rcases readFrame_ok result with ⟨topic, middle, payload, first, second, same⟩
  have sameTopic := congrArg Publication.topic same
  have samePayload := congrArg Publication.payload same
  dsimp only at sameTopic samePayload
  by_cases small : (utf8Bytes publication.topic).length ≤ maxFrame
  · cases Except.ok.inj ((readField_whole small .oversizedTopic _).symm.trans first)
    exact unfit ⟨small, samePayload ▸ (readField_written second).2⟩
  · -- a text that has been read of few bytes has few bytes
    have bounds := readField_written first
    have decoded := length_decodeLossy_le 0 topic
    have size := length_utf8Bytes_le publication.topic
    rw [sameTopic, fromUtf8Lossy, String.toList_ofList, ← fromUtf8Lossy, ← sameTopic] at size
    unfold maxFrame at small bounds
    omega

theorem fits_of_published {publications : List Publication}
    (published : (readFrames (connection publications)).1 = publications) :
    ∀ publication, publication ∈ publications → publication.Fits := by
  induction publications with
  | nil => exact fun _ member => absurd member List.not_mem_nil
  | cons first others inductionHypothesis =>
      have cons : connection (first :: others) = writeFrame first ++ connection others :=
        List.flatMap_cons
      rw [cons] at published
      by_cases fits : first.Fits
      · have head := FrameReader.readAll_ok (fits.readsBack.whole (connection others))
        rw [readFrames, head] at published
        intro publication member
        rcases List.mem_cons.mp member with rfl | later
        · exact fits
        · exact inductionHypothesis (List.cons.inj published).2 publication later
      · cases result : readFrame (writeFrame first ++ connection others) with
        | error e =>
            rw [readFrames, frames.readAll_error result] at published
            cases published
        | ok pair =>
            rw [readFrames, frames.readAll_ok result] at published
            exact absurd (List.cons.inj published).1 (readFrame_ne fits result)

/-! ## Links -/

/-- The peer publishes what was written, and of a stream that breaks off the frames that were
complete. -/
def ArrivesAsPublished (publications : List Publication) : Prop :=
  (readFrames (connection publications)).1 = publications ∧
    ∀ cut, (readFrames ((connection publications).take cut)).1 =
      FrameReader.complete writeFrame cut publications

/-- The frames arrive exactly when no field is above the cap. -/
theorem arrivesAsPublished_iff (publications : List Publication) :
    ArrivesAsPublished publications ↔
      ∀ publication, publication ∈ publications → publication.Fits := by
  constructor
  · exact fun arrives => fits_of_published arrives.1
  · intro fit
    have readBack : ∀ publication, publication ∈ publications →
        frames.ReadsBack writeFrame .read publication :=
      fun publication member => (fit publication member).readsBack
    have atEnd : frames.read [] = .error .read := rfl
    constructor
    · have whole := FrameReader.readAll_append readBack []
      rw [List.append_nil, FrameReader.readAll_error atEnd, List.append_nil] at whole
      exact congrArg Prod.fst whole
    · intro cut
      exact congrArg Prod.fst (FrameReader.readAll_take atEnd readBack cut)

theorem readFrame_oversized {publication : Publication}
    (smallTopic : (utf8Bytes publication.topic).length ≤ maxFrame)
    (oversized : maxFrame < publication.payload.length)
    (noCast : publication.payload.length < 2 ^ 32) (rest : List UInt8) :
    readFrame (writeFrame publication ++ rest) = .error .oversizedPayload := by
  rw [writeFrame_eq, List.append_assoc]
  apply readFrame_of_payload_error (readField_whole smallTopic _ _)
  rw [readField_write, Nat.mod_eq_of_lt noCast, if_pos oversized]

/-- A log suffix one byte above the cap and the heartbeat after it. -/
def longSuffix : List Publication :=
  [⟨"raft.main.2", List.replicate (maxFrame + 1) 0⟩, ⟨"raft.main.2", []⟩]

/-- The peer refuses the payload, closes the link and publishes neither. -/
theorem longSuffix_is_lost :
    readFrames (connection longSuffix) = ([], .oversizedPayload) ∧
      ¬ ArrivesAsPublished longSuffix := by
  have length : (List.replicate (maxFrame + 1) (0 : UInt8)).length = maxFrame + 1 :=
    List.length_replicate
  constructor
  · apply frames.readAll_error
    apply readFrame_oversized
    · rw [show (utf8Bytes "raft.main.2").length = 11 from rfl]
      unfold maxFrame
      omega
    · rw [length]
      omega
    · rw [length]
      unfold maxFrame
      omega
  · intro arrives
    have fits := fits_of_published arrives.1 _ List.mem_cons_self
    have small := fits.2
    rw [length] at small
    omega

end Cluster
end Sigil
