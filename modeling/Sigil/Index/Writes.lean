import Sigil.Index.Store
import Sigil.Library.Pointwise
import Sigil.Library.RangeCounts

namespace Sigil
namespace Index

/-!
# Runs of the store that only write

After a run of writes the catalog has one segment for every batch that is not empty, and
the file of a segment holds the last batch that was written in its microsecond.  A range
shows what was written exactly as long as batches of one microsecond hold the same events.
-/

open Sigil.Core Library

/-- One call with a batch of events: the clock for the identifier and for the metadata. -/
structure Write where
  events : List Event
  now : Int64
  created : Int64

/-- The store after a run of writes, the latest one first. -/
def ColumnarStore.after (json : JsonText) (store : ColumnarStore) : List Write → ColumnarStore
  | [] => store
  | write :: older =>
      ((store.after json older).writeSegment json write.events write.now write.created).1

/-- The clock does not go back. -/
def Clocked (writes : List Write) : Prop :=
  (∀ write, write ∈ writes → write.now ≤ write.created) ∧
    writes.Pairwise fun late early => early.created ≤ late.now

/-- Every range shows exactly the events of the batches, with their multiplicity. -/
def ColumnarStore.ShowsExactly (json : JsonText) (store : ColumnarStore)
    (writes : List Write) : Prop :=
  ∀ start stop, start ≤ stop → ∃ events, store.readRange json start stop = .ok events ∧
    (events.map Event.id).Perm (((writes.flatMap Write.events).filter fun e =>
      start ≤ e.ts ∧ e.ts ≤ stop).map Event.id)

/-- The times and identifiers of a batch. -/
def stamps (events : List Event) : List (Int × String) :=
  events.map fun e => (e.ts, e.id)

/-- Two batches of one microsecond hold the same events, unless one of them is empty. -/
def Write.Agrees (late early : Write) : Prop :=
  late.now = early.now → late.events ≠ [] → early.events ≠ [] →
    (stamps late.events).Perm (stamps early.events)

/-! ## Names of segments -/

theorem hexDigits_injective (width : Nat) {a b : Nat} (boundA : a < 16 ^ width)
    (boundB : b < 16 ^ width) (same : hexDigits width a = hexDigits width b) : a = b := by
  have digit : ∀ i, i < 16 → ∀ j, j < 16 → Json.hexDigit i = Json.hexDigit j → i = j := by
    decide
  induction width generalizing a b with
  | zero =>
      rw [Nat.pow_zero, Nat.lt_one_iff] at boundA boundB
      rw [boundA, boundB]
  | succ width inductionHypothesis =>
      rcases List.append_inj' same rfl with ⟨high, low⟩
      have sameHigh := inductionHypothesis (Nat.div_lt_of_lt_mul (Nat.pow_succ' ▸ boundA))
        (Nat.div_lt_of_lt_mul (Nat.pow_succ' ▸ boundB)) high
      have sameLow := digit (a % 16) (Nat.mod_lt a (by decide)) (b % 16) (Nat.mod_lt b (by decide))
        (List.singleton_inj.mp low)
      rw [← Nat.div_add_mod a 16, ← Nat.div_add_mod b 16, sameHigh, sameLow]

theorem ulidLike_injective {a b : Int64} (same : ulidLike a = ulidLike b) : a = b := by
  have digits := List.append_cancel_left (String.ofList_injective same)
  have words := hexDigits_injective 16 a.toUInt64.toNat_lt b.toUInt64.toNat_lt digits
  have back := congrArg UInt64.toInt64 (UInt64.toNat_inj.mp words)
  rwa [Int64.toInt64_toUInt64, Int64.toInt64_toUInt64] at back

theorem join_injective {dir a b : String} (same : join dir a = join dir b) : a = b := by
  rw [join, join] at same
  split at same
  · exact (String.append_right_inj dir).mp same
  · exact (String.append_right_inj _).mp same

theorem segmentPath_injective {store : ColumnarStore} {a b : Int64}
    (same : store.segmentPath (ulidLike a) = store.segmentPath (ulidLike b)) : a = b :=
  ulidLike_injective ((String.append_left_inj _).mp (join_injective same))

/-! ## What a run leaves behind -/

def Write.minTs (write : Write) : Int :=
  ((write.events.map Event.ts).min?).getD 0

def Write.maxTs (write : Write) : Int :=
  ((write.events.map Event.ts).max?).getD 0

/-- The entry of the catalog for a batch. -/
def Write.segment (store : ColumnarStore) (write : Write) : SegmentMeta :=
  segmentMeta (ulidLike write.now) (store.segmentPath (ulidLike write.now)) write.minTs
    write.maxTs write.events.length write.created.toInt

/-- The last batch of a microsecond. -/
def lastBatch (writes : List Write) (now : Int64) : List Event :=
  ((writes.find? fun write => write.events ≠ [] ∧ write.now = now).map Write.events).getD []

/-- The catalog and the files after a run, from an empty store. -/
structure Holds (json : JsonText) (empty store : ColumnarStore) (writes : List Write) : Prop where
  coldDir : store.coldDir = empty.coldDir
  segments : store.catalog.segments =
    (writes.reverse.filter fun write => write.events ≠ []).map (Write.segment empty)
  files : ∀ write, write ∈ writes → write.events ≠ [] →
    store.files.lookup (empty.segmentPath (ulidLike write.now)) =
      some (eventsToBatch json (lastBatch writes write.now))

variable {json : JsonText}

theorem writeSegment_empty (store : ColumnarStore) (now created : Int64) :
    store.writeSegment json [] now created = (store, none) :=
  rfl

theorem writeSegment_nonempty (store : ColumnarStore) {write : Write}
    (nonempty : write.events ≠ []) :
    (store.writeSegment json write.events write.now write.created).1 =
      { store with
        catalog := store.catalog.add (write.segment store)
        files := store.files.insert (store.segmentPath (ulidLike write.now))
          (eventsToBatch json write.events) } := by
  rw [ColumnarStore.writeSegment, if_neg (fun empty => nonempty (List.isEmpty_iff.mp empty))]
  rfl

theorem lastBatch_cons_empty {write : Write} (empty : write.events = []) (older : List Write)
    (now : Int64) : lastBatch (write :: older) now = lastBatch older now := by
  rw [lastBatch, List.find?_cons_of_neg, lastBatch]
  rw [decide_eq_true_eq]
  exact fun both => both.1 empty

theorem lastBatch_cons {write : Write} (nonempty : write.events ≠ []) (older : List Write)
    (now : Int64) :
    lastBatch (write :: older) now =
      if now = write.now then write.events else lastBatch older now := by
  split
  · next same =>
      rw [lastBatch, List.find?_cons_of_pos]
      · rfl
      · exact decide_eq_true ⟨nonempty, same.symm⟩
  · next different =>
      rw [lastBatch, List.find?_cons_of_neg, lastBatch]
      rw [decide_eq_true_eq]
      exact fun both => different both.2.symm

theorem Holds.step {empty store : ColumnarStore} {older : List Write}
    (holds : Holds json empty store older) (write : Write) :
    Holds json empty (store.writeSegment json write.events write.now write.created).1
      (write :: older) := by
  by_cases nonempty : write.events = []
  · rw [nonempty, writeSegment_empty]
    refine ⟨holds.coldDir, ?_, fun other member isBatch => ?_⟩
    · rw [holds.segments, List.reverse_cons, List.filter_append, List.filter_cons_of_neg,
        List.filter_nil, List.append_nil]
      rw [decide_eq_true_eq]
      exact not_not.mpr nonempty
    · rcases List.mem_cons.mp member with rfl | later
      · exact absurd nonempty isBatch
      · rw [lastBatch_cons_empty nonempty]
        exact holds.files other later isBatch
  · have path : ∀ id, store.segmentPath id = empty.segmentPath id := by
      intro id
      rw [ColumnarStore.segmentPath, ColumnarStore.segmentPath, holds.coldDir]
    rw [writeSegment_nonempty store nonempty]
    refine ⟨holds.coldDir, ?_, fun other member isBatch => ?_⟩
    · change store.catalog.segments ++ [write.segment store] = _
      rw [holds.segments, List.reverse_cons, List.filter_append, List.filter_cons_of_pos,
        List.filter_nil, List.map_append, List.map_singleton, Write.segment, Write.segment, path]
      exact decide_eq_true nonempty
    · rw [lastBatch_cons nonempty, path]
      by_cases same : other.now = write.now
      · rw [if_pos same, same]
        exact AList.lookup_insert _
      · have later : other ∈ older := by
          rcases List.mem_cons.mp member with rfl | later
          · exact absurd rfl same
          · exact later
        rw [if_neg same, AList.lookup_insert_ne fun samePath =>
          same (segmentPath_injective samePath)]
        exact holds.files other later isBatch

theorem holds_after (coldDir : String) (archive : Option ObjectColdStore) (writes : List Write) :
    Holds json (.new coldDir archive) ((ColumnarStore.new coldDir archive).after json writes)
      writes := by
  induction writes with
  | nil => exact ⟨rfl, rfl, fun _ member => absurd member List.not_mem_nil⟩
  | cons write older inductionHypothesis => exact inductionHypothesis.step write

/-! ## What a range shows -/

theorem Write.bounds (write : Write) :
    ∀ e, e ∈ write.events → write.minTs ≤ e.ts ∧ e.ts ≤ write.maxTs := by
  intro e member
  have isTime : e.ts ∈ write.events.map Event.ts := List.mem_map_of_mem member
  rw [Write.minTs, Write.maxTs]
  constructor
  · cases least : (write.events.map Event.ts).min? with
    | none =>
        rw [List.min?_eq_none_iff.mp least] at isTime
        exact absurd isTime List.not_mem_nil
    | some low => exact (List.min?_eq_some_iff.mp least).2 e.ts isTime
  · cases most : (write.events.map Event.ts).max? with
    | none =>
        rw [List.max?_eq_none_iff.mp most] at isTime
        exact absurd isTime List.not_mem_nil
    | some high => exact (List.max?_eq_some_iff.mp most).2 e.ts isTime

/-- The range meets the times of the batch. -/
def Write.Overlaps (write : Write) (start stop : Int) : Prop :=
  write.minTs ≤ stop ∧ start ≤ write.maxTs

instance (write : Write) (start stop : Int) : Decidable (write.Overlaps start stop) :=
  inferInstanceAs (Decidable (_ ∧ _))

/-- The events of a list in a range. -/
def inRange (start stop : Int) (events : List Event) : List Event :=
  events.filter fun e => start ≤ e.ts ∧ e.ts ≤ stop

/-- Counting identifiers in a range is counting stamps. -/
theorem count_inRange (start stop : Int) (id : String) (events : List Event) :
    ((inRange start stop events).map Event.id).count id =
      RangeCounts.tally start stop id (stamps events) := by
  rw [List.count_eq_countP, List.countP_map, inRange, List.countP_filter, RangeCounts.tally,
    stamps, List.countP_map]
  apply List.countP_congr
  intro e _
  simp only [Function.comp, beq_iff_eq, Bool.and_eq_true, decide_eq_true_eq]
  exact and_rotate

theorem stamps_stored (events : List Event) :
    stamps (events.map (stored json)) = stamps events := by
  rw [stamps, List.map_map]
  rfl

theorem Holds.readRange {empty store : ColumnarStore} {writes : List Write}
    (holds : Holds json empty store writes) (start stop : Int) :
    store.readRange json start stop = .ok
      (((writes.reverse.filter fun write => write.events ≠ []).filter fun write =>
        write.Overlaps start stop).map fun write =>
          inRange start stop ((lastBatch writes write.now).map (stored json))).flatten := by
  have segments : store.catalog.overlapping start stop =
      ((writes.reverse.filter fun write => write.events ≠ []).filter fun write =>
        write.Overlaps start stop).map (Write.segment empty) := by
    rw [Catalog.overlapping, holds.segments, List.filter_map]
    rfl
  have parts : (store.catalog.overlapping start stop).mapM (store.readInRange json start stop) =
      .ok (((writes.reverse.filter fun write => write.events ≠ []).filter fun write =>
        write.Overlaps start stop).map fun write =>
          inRange start stop ((lastBatch writes write.now).map (stored json))) := by
    rw [segments]
    apply Pointwise.mapM_ok
    rw [List.forall₂_map_left_iff, List.forall₂_map_right_iff, List.forall₂_same]
    intro write member
    have isBatch := List.mem_filter.mp (List.mem_filter.mp member).1
    have rows := holds.files write (List.mem_reverse.mp isBatch.1) (of_decide_eq_true isBatch.2)
    have read : store.readRows (write.segment empty) =
        .ok (eventsToBatch json (lastBatch writes write.now)) := by
      rw [ColumnarStore.readRows]
      change (store.files.lookup (empty.segmentPath (ulidLike write.now))).elim _ _ = _
      rw [rows]
      rfl
    rw [ColumnarStore.readInRange, read]
    change Except.ok _ = Except.ok _
    rw [batchIntoEvents_eventsToBatch]
    rfl
  rw [ColumnarStore.readRange, parts]
  rfl

/-- How often a range shows an identifier. -/
def shown (writes : List Write) (start stop : Int) (id : String) : Nat :=
  (writes.map fun write =>
    if write.events ≠ [] ∧ write.Overlaps start stop then
      RangeCounts.tally start stop id (stamps (lastBatch writes write.now))
    else 0).sum

/-- How often an identifier was written with a time in the range. -/
def written (writes : List Write) (start stop : Int) (id : String) : Nat :=
  (writes.map fun write => RangeCounts.tally start stop id (stamps write.events)).sum

theorem sum_filter {ι : Type} (list : List ι) (test : ι → Prop) [DecidablePred test]
    (term : ι → Nat) :
    ((list.filter fun i => test i).map term).sum =
      (list.map fun i => if test i then term i else 0).sum := by
  induction list with
  | nil => rfl
  | cons i list inductionHypothesis =>
      rw [List.map_cons, List.sum_cons, ← inductionHypothesis, List.filter_cons]
      by_cases passes : test i
      · rw [if_pos passes, if_pos (decide_eq_true passes), List.map_cons, List.sum_cons]
      · rw [if_neg passes, if_neg (fun equal => passes (of_decide_eq_true equal)), Nat.zero_add]

theorem Holds.showsExactly_iff {empty store : ColumnarStore} {writes : List Write}
    (holds : Holds json empty store writes) :
    store.ShowsExactly json writes ↔ ∀ start stop, start ≤ stop → ∀ id,
      shown writes start stop id = written writes start stop id := by
  have counts : ∀ start stop id, ((((writes.reverse.filter fun write =>
      write.events ≠ []).filter fun write => write.Overlaps start stop).map fun write =>
        inRange start stop ((lastBatch writes write.now).map (stored json))).flatten.map
          Event.id).count id = shown writes start stop id := by
    intro start stop id
    rw [List.map_flatten, List.map_map, List.count_flatten, List.map_map, shown, ← sum_filter,
      List.filter_filter, List.filter_reverse, List.map_reverse, List.sum_reverse]
    simp only [Function.comp_def, count_inRange, stamps_stored, Bool.decide_and, Bool.and_comm]
  have expected : ∀ start stop id, ((inRange start stop (writes.flatMap Write.events)).map
      Event.id).count id = written writes start stop id := by
    intro start stop id
    rw [count_inRange, stamps, List.map_flatMap, RangeCounts.tally, List.countP_flatMap]
    rfl
  refine forall₃_congr fun start stop _ => ?_
  rw [holds.readRange]
  constructor
  · rintro ⟨events, ⟨⟩, same⟩ id
    rw [← counts, ← expected]
    exact same.count_eq id
  · intro same
    refine ⟨_, rfl, List.perm_iff_count.mpr fun id => ?_⟩
    rw [counts, same]
    exact (expected start stop id).symm

/-! ## Batches of one microsecond -/

theorem tally_not_overlaps {write : Write} {start stop : Int} (apart : ¬ write.Overlaps start stop)
    (id : String) : RangeCounts.tally start stop id (stamps write.events) = 0 := by
  apply RangeCounts.tally_eq_zero
  intro stamp member
  rcases List.mem_map.mp member with ⟨e, isEvent, rfl⟩
  have bounds := write.bounds e isEvent
  by_cases low : write.minTs ≤ stop
  · have high : ¬ start ≤ write.maxTs := fun high => apart ⟨low, high⟩
    exact Or.inr (Int.lt_of_le_of_lt bounds.2 (Int.not_le.mp high))
  · exact Or.inl (Int.lt_of_lt_of_le (Int.not_le.mp low) bounds.1)

/-- When batches of one microsecond agree, the last one holds the events of each. -/
theorem stamps_lastBatch {writes : List Write} (agree : writes.Pairwise Write.Agrees)
    {write : Write} (member : write ∈ writes) (nonempty : write.events ≠ []) :
    (stamps (lastBatch writes write.now)).Perm (stamps write.events) := by
  induction writes with
  | nil => exact absurd member List.not_mem_nil
  | cons latest older inductionHypothesis =>
      rcases List.pairwise_cons.mp agree with ⟨withLatest, among⟩
      by_cases empty : latest.events = []
      · rw [lastBatch_cons_empty empty]
        rcases List.mem_cons.mp member with rfl | later
        · exact absurd empty nonempty
        · exact inductionHypothesis among later
      · rw [lastBatch_cons empty]
        split
        · next same =>
            rcases List.mem_cons.mp member with rfl | later
            · exact List.Perm.refl _
            · exact withLatest write later same.symm empty nonempty
        · next different =>
            rcases List.mem_cons.mp member with rfl | later
            · exact absurd rfl different
            · exact inductionHypothesis among later

/-- What one segment shows when the last batch of its microsecond holds its events. -/
theorem shown_term {writes : List Write} (agree : writes.Pairwise Write.Agrees) {write : Write}
    (member : write ∈ writes) (start stop : Int) (id : String) :
    (if write.events ≠ [] ∧ write.Overlaps start stop then
      RangeCounts.tally start stop id (stamps (lastBatch writes write.now))
    else 0) = RangeCounts.tally start stop id (stamps write.events) := by
  split
  · next both => exact RangeCounts.tally_perm (stamps_lastBatch agree member both.1)
  · next neither =>
      by_cases empty : write.events = []
      · rw [empty]
        rfl
      · exact (tally_not_overlaps (fun overlaps => neither ⟨empty, overlaps⟩) id).symm

theorem shown_eq_written {writes : List Write} (agree : writes.Pairwise Write.Agrees)
    (start stop : Int) (id : String) :
    shown writes start stop id = written writes start stop id :=
  congrArg List.sum (List.map_congr_left fun _ member => shown_term agree member start stop id)

theorem min?_perm {first second : List Int} (same : first.Perm second) :
    first.min? = second.min? := by
  ext low
  rw [List.min?_eq_some_iff, List.min?_eq_some_iff, same.mem_iff]
  exact and_congr_right fun _ => forall_congr' fun b => by rw [same.mem_iff]

theorem max?_perm {first second : List Int} (same : first.Perm second) :
    first.max? = second.max? := by
  ext high
  rw [List.max?_eq_some_iff, List.max?_eq_some_iff, same.mem_iff]
  exact and_congr_right fun _ => forall_congr' fun b => by rw [same.mem_iff]

theorem overlaps_congr {first second : Write}
    (same : (stamps first.events).Perm (stamps second.events)) (start stop : Int) :
    first.Overlaps start stop ↔ second.Overlaps start stop := by
  have times : (first.events.map Event.ts).Perm (second.events.map Event.ts) := by
    have mapped := same.map Prod.fst
    rwa [stamps, stamps, List.map_map, List.map_map] at mapped
  rw [Write.Overlaps, Write.Overlaps, Write.minTs, Write.minTs, Write.maxTs, Write.maxTs,
    min?_perm times, max?_perm times]

/-- Batches of one microsecond in an agreeing run hold the same events. -/
theorem stamps_of_same_now {writes : List Write} (agree : writes.Pairwise Write.Agrees)
    {first second : Write} (firstMember : first ∈ writes) (firstNonempty : first.events ≠ [])
    (secondMember : second ∈ writes) (secondNonempty : second.events ≠ [])
    (same : first.now = second.now) : (stamps first.events).Perm (stamps second.events) := by
  have firstLast := stamps_lastBatch agree firstMember firstNonempty
  rw [same] at firstLast
  exact firstLast.symm.trans (stamps_lastBatch agree secondMember secondNonempty)

/-- What an older segment shows after one more batch: the new batch when it was written in
the same microsecond, and its own events otherwise. -/
theorem shown_older_term {latest : Write} {older : List Write}
    (agree : older.Pairwise Write.Agrees) (latestNonempty : latest.events ≠ []) {write : Write}
    (member : write ∈ older) {start stop : Int}
    (meets : write.events ≠ [] ∧ write.now = latest.now → write.Overlaps start stop)
    (id : String) :
    (if write.events ≠ [] ∧ write.Overlaps start stop then
      RangeCounts.tally start stop id (stamps (lastBatch (latest :: older) write.now))
    else 0) =
      if write.events ≠ [] ∧ write.now = latest.now then
        RangeCounts.tally start stop id (stamps latest.events)
      else RangeCounts.tally start stop id (stamps write.events) := by
  rw [lastBatch_cons latestNonempty]
  by_cases nonempty : write.events = []
  · rw [if_neg (fun both => both.1 nonempty), if_neg (fun both => both.1 nonempty), nonempty]
    rfl
  · by_cases same : write.now = latest.now
    · rw [if_pos same, if_pos ⟨nonempty, meets ⟨nonempty, same⟩⟩,
        if_pos ⟨nonempty, same⟩]
    · have own : (if write.events ≠ [] ∧ write.now = latest.now then
            RangeCounts.tally start stop id (stamps latest.events)
          else RangeCounts.tally start stop id (stamps write.events)) =
          RangeCounts.tally start stop id (stamps write.events) :=
        if_neg fun both => same both.2
      rw [own, if_neg same]
      exact shown_term agree member start stop id

/-- What the segment of a new batch shows. -/
theorem shown_latest_term {latest : Write} (nonempty : latest.events ≠ []) (older : List Write)
    (start stop : Int) (id : String) :
    (if latest.events ≠ [] ∧ latest.Overlaps start stop then
      RangeCounts.tally start stop id (stamps (lastBatch (latest :: older) latest.now))
    else 0) = RangeCounts.tally start stop id (stamps latest.events) := by
  rw [lastBatch_cons nonempty, if_pos rfl]
  split
  · rfl
  · next apart =>
      exact (tally_not_overlaps (fun overlaps => apart ⟨nonempty, overlaps⟩) id).symm

/-- Once older batches agree, a new batch that keeps every range exact agrees with them. -/
theorem agrees_of_shown {latest : Write} {older : List Write} (agree : older.Pairwise Write.Agrees)
    (exact_ : ∀ start stop, start ≤ stop → ∀ id,
      shown (latest :: older) start stop id = written (latest :: older) start stop id)
    {early : Write} (member : early ∈ older) : latest.Agrees early := by
  intro sameNow latestNonempty earlyNonempty
  have sameEarly : ∀ write, write ∈ older → write.events ≠ [] ∧ write.now = latest.now →
      (stamps write.events).Perm (stamps early.events) := fun write isOlder both =>
    stamps_of_same_now agree isOlder both.1 member earlyNonempty (both.2.trans sameNow)
  rcases List.exists_mem_of_ne_nil _ earlyNonempty with ⟨e, isEvent⟩
  have bounds := early.bounds e isEvent
  apply RangeCounts.perm_of_tally (bounds.1.trans bounds.2)
  · intro stamp isStamp
    rcases List.mem_map.mp isStamp with ⟨e, isEvent, rfl⟩
    exact early.bounds e isEvent
  · intro start stop order low high id
    have sums := exact_ start stop order id
    -- the segments of this microsecond show the new batch, the others what was written
    have left : (older.map fun write =>
        if write.events ≠ [] ∧ write.Overlaps start stop then
          RangeCounts.tally start stop id (stamps (lastBatch (latest :: older) write.now))
        else 0) = older.map fun write =>
          if write.events ≠ [] ∧ write.now = latest.now then
            RangeCounts.tally start stop id (stamps latest.events)
          else RangeCounts.tally start stop id (stamps write.events) :=
      List.map_congr_left fun write isOlder =>
        shown_older_term agree latestNonempty isOlder (fun both =>
          (overlaps_congr (sameEarly write isOlder both) start stop).mpr ⟨low, high⟩) id
    have right : (older.map fun write =>
        RangeCounts.tally start stop id (stamps write.events)) = older.map fun write =>
          if write.events ≠ [] ∧ write.now = latest.now then
            RangeCounts.tally start stop id (stamps early.events)
          else RangeCounts.tally start stop id (stamps write.events) := by
      refine List.map_congr_left fun write isOlder => ?_
      split
      · next both => exact RangeCounts.tally_perm (sameEarly write isOlder both)
      · rfl
    rw [shown, written, List.map_cons, List.sum_cons, List.map_cons, List.sum_cons,
      shown_latest_term latestNonempty, left, right] at sums
    exact RangeCounts.term_eq_of_sum_eq (Nat.add_left_cancel sums)
      ⟨early, member, earlyNonempty, sameNow.symm⟩

/-- After every call of a run every range shows exactly what was written if and only if
batches of one microsecond agree. -/
theorem showsExactly_iff_agree (json : JsonText) (coldDir : String)
    (archive : Option ObjectColdStore) (writes : List Write) :
    (∀ earlier, earlier <:+ writes →
      ((ColumnarStore.new coldDir archive).after json earlier).ShowsExactly json earlier) ↔
        writes.Pairwise Write.Agrees := by
  have shows_iff : ∀ earlier,
      ((ColumnarStore.new coldDir archive).after json earlier).ShowsExactly json earlier ↔
        ∀ start stop, start ≤ stop → ∀ id,
          shown earlier start stop id = written earlier start stop id :=
    fun earlier => (holds_after coldDir archive earlier).showsExactly_iff
  constructor
  · intro shows
    induction writes with
    | nil => exact List.Pairwise.nil
    | cons latest older inductionHypothesis =>
        have agree := inductionHypothesis fun earlier suffix =>
          shows earlier (suffix.trans (List.suffix_cons latest older))
        have exact_ := (shows_iff _).mp (shows _ List.suffix_rfl)
        exact List.pairwise_cons.mpr
          ⟨fun early member => agrees_of_shown agree exact_ member, agree⟩
  · intro agree earlier suffix
    exact (shows_iff earlier).mpr fun start stop _ id =>
      shown_eq_written (agree.sublist suffix.sublist) start stop id

/-! ## Two batches of one microsecond -/

def oneEvent (id : String) (now : Int64) : Write where
  events :=
    [{ id := id, ts := 100, ingestTs := 100, ocsfClass := .processActivity, tenant := "default"
       severity := .low, host := none, actor := none, target := none, message := ""
       fields := .empty, templateId := none, labels := [], raw := [] }]
  now := now
  created := now

theorem shown_same_microsecond :
    ((((ColumnarStore.new "cold" none).after plainJson
      [oneEvent "b" 7, oneEvent "a" 7]).readRange plainJson 100 100).toOption.map
        fun events => events.map Event.id) = some ["b", "b"] := by
  decide +kernel

theorem not_showsExactly :
    ¬ ∀ json coldDir archive writes, Clocked writes →
      ((ColumnarStore.new coldDir archive).after json writes).ShowsExactly json writes := by
  intro always
  have clocked : Clocked [oneEvent "b" 7, oneEvent "a" 7] := by
    constructor
    · intro write member
      rcases List.mem_pair.mp member with rfl | rfl <;> decide
    · exact List.pairwise_pair.mpr (by decide)
  rcases always plainJson "cold" none _ clocked 100 100 le_rfl with ⟨events, read, same⟩
  have shows := shown_same_microsecond
  rw [read] at shows
  have ids : events.map Event.id = ["b", "b"] := Option.some.inj shows
  rw [ids] at same
  exact absurd same (by decide)

end Index
end Sigil
