import Sigil.Index.Faults
import Sigil.Library.Pointwise

namespace Sigil
namespace Index

/-!
# Calls that fail

A mutation of the catalog changes the list in memory first and saves it afterwards.  When
saving fails, the call returns its error but the change stays, so a caller that writes its
batch again finds it listed twice.  A call that fails leaves the reads as they were only when
it has not come as far as changing the list.
-/

open Sigil.Core Library

/-- Why a mutation fails. -/
inductive StoreError where
  | segment (path : String)
  | catalog
  deriving DecidableEq, Repr

/-- The answer of a call that ends with an effect. -/
def Fate.answer {α : Type} (fate : Fate) (error : StoreError) (value : α) :
    Except StoreError α :=
  match fate with
  | .done => .ok value
  | _ => .error error

/-- How the effects of one call end: the segment file, the removals and the catalog file. -/
structure Faults where
  created : Fate
  unlinks : Nat → Fate
  saved : Fate

namespace Machine

variable (m : Machine) (faults : Faults)

/-- Register a new segment and persist. -/
def add (seg : SegmentMeta) : Machine × Except StoreError Unit :=
  (m.save (m.store.catalog.segments ++ [seg]) faults.saved, faults.saved.answer .catalog ())

/-- Move a segment to another tier and place and persist; false if the identifier is
unknown. -/
def migrate (id : String) (tier : Tier) (path : String) : Machine × Except StoreError Bool :=
  if id ∈ m.store.catalog.segments.map SegmentMeta.id then
    (m.save (Catalog.migrate id tier path m.store.catalog.segments) faults.saved,
      faults.saved.answer .catalog true)
  else (m, .ok false)

/-- Remove the files of some segments; the code ignores a failure. -/
def removeFiles (m : Machine) (unlinks : Nat → Fate) : List SegmentMeta → Machine
  | [] => m
  | seg :: rest => (m.removeFile seg.path (unlinks rest.length)).removeFiles unlinks rest

/-- Delete the given segments and their files. -/
def remove (ids : List String) : Machine × Except StoreError Nat :=
  let removed := m.store.catalog.segments.filter fun s => s.id ∈ ids
  if removed.isEmpty then (m, .ok 0)
  else
    ((m.removeFiles faults.unlinks removed).save
        (m.store.catalog.segments.filter fun s => s.id ∉ ids) faults.saved,
      faults.saved.answer .catalog removed.length)

/-- Write a batch into a new segment and register it. -/
def writeSegment (json : JsonText) (write : Write) :
    Machine × Except StoreError (Option SegmentMeta) :=
  if write.events.isEmpty then (m, .ok none)
  else
    let path := m.store.segmentPath write.id
    let written := m.createFile path (eventsToBatch json write.events) faults.created
    match faults.created with
    | .done =>
        let (added, result) := written.add faults (write.segment m.store)
        (added, result.map fun _ => some (write.segment m.store))
    | _ => (written, .error (.segment path))

/-- Flush the buffer into a segment; it is kept when the segment cannot be written. -/
def roll (json : JsonText) (buffer : List Event) (now created : Int64) :
    Machine × List Event × Except StoreError Unit :=
  if buffer.isEmpty then (m, buffer, .ok ())
  else
    let (written, result) := m.writeSegment faults json ⟨buffer, now, created⟩
    match result with
    | .ok _ => (written, [], .ok ())
    | .error failure => (written, buffer, .error failure)

end Machine

/-- The calls that change the catalog. -/
inductive Mutation where
  | add (seg : SegmentMeta)
  | migrate (id : String) (tier : Tier) (path : String)
  | remove (ids : List String)
  | writeSegment (write : Write)

/-- Only whether a call has failed. -/
def outcome {α : Type} (answer : Machine × Except StoreError α) :
    Machine × Except StoreError Unit :=
  (answer.1, answer.2.map fun _ => ())

/-- The machine after a call, and whether the call has failed. -/
def Mutation.run (json : JsonText) (m : Machine) (faults : Faults) :
    Mutation → Machine × Except StoreError Unit
  | .add seg => m.add faults seg
  | .migrate id tier path => outcome (m.migrate faults id tier path)
  | .remove ids => outcome (m.remove faults ids)
  | .writeSegment write => outcome (m.writeSegment faults json write)

/-! ## Calls and their effects -/

section

variable (json : JsonText) (m : Machine) (faults : Faults)

/-- A batch is written by the tasks that create its file and register it. -/
theorem writeSegment_steps {write : Write} (nonempty : write.events ≠ []) :
    (m.writeSegment faults json write).1 =
      let created := ((Task.create write).step json m faults.created).1
      if faults.created = .done then ((Task.register write).step json created faults.saved).1
      else created := by
  have some_ : ¬ write.events.isEmpty = true := by simpa using nonempty
  rw [Machine.writeSegment, if_neg some_, Task.step, if_neg some_]
  cases faults.created <;> rfl

theorem migrate_step (seg : SegmentMeta) (rest : List SegmentMeta) :
    (m.migrate faults seg.id .cold (m.store.key seg.id)).1 =
      ((Task.relocate seg rest).step json m faults.saved).1 := by
  rw [Machine.migrate, Task.step]
  split <;> rfl

theorem removeFiles_step (gone : List Place) (ids : List String) (seg : SegmentMeta)
    (rest : List SegmentMeta) :
    m.removeFiles faults.unlinks (seg :: rest) =
      ((Task.unlinkEach gone (seg :: rest) ids).step json m
        (faults.unlinks rest.length)).1.removeFiles faults.unlinks rest := by
  rw [Machine.removeFiles, Task.step]

theorem removeFiles_catalog (unlinks : Nat → Fate) (segments : List SegmentMeta) :
    (m.removeFiles unlinks segments).store.catalog = m.store.catalog := by
  induction segments generalizing m with
  | nil => rw [Machine.removeFiles]
  | cons seg rest inductionHypothesis =>
      rw [Machine.removeFiles, inductionHypothesis]
      cases unlinks rest.length <;> simp [Machine.removeFile]

/-- Segments are deleted by the tasks that remove their files and forget them. -/
theorem remove_step (gone : List Place) {ids : List String}
    (some_ : (m.store.catalog.segments.filter fun s => s.id ∈ ids) ≠ []) :
    (m.remove faults ids).1 =
      ((Task.forget gone ids).step json (m.removeFiles faults.unlinks
        (m.store.catalog.segments.filter fun s => s.id ∈ ids)) faults.saved).1 := by
  rw [Machine.remove, if_neg (by simpa using some_), Task.step, removeFiles_catalog]

end

/-! ## The property -/

/-- The store answers as before, now and after the next batch. -/
structure Unchanged (json : JsonText) (before after : ColumnarStore) : Prop where
  segments : after.catalog.segments = before.catalog.segments
  rows : ∀ seg ∈ before.catalog.segments, after.readRows seg = before.readRows seg
  segmentCount : after.segmentCount = before.segmentCount
  totalRows : after.totalRows = before.totalRows
  overlapping : ∀ start stop,
    after.catalog.overlapping start stop = before.catalog.overlapping start stop
  readRange : ∀ start stop, after.readRange json start stop = before.readRange json start stop
  again : ∀ (write : Write) (start stop : Int),
    (after.writeSegment json write.events write.now write.created).1.readRange json start stop =
      (before.writeSegment json write.events write.now write.created).1.readRange json start stop

/-- A call that fails leaves the store as it was. -/
def Atomic (json : JsonText) (m : Machine) (faults : Faults) (mutation : Mutation) : Prop :=
  ∀ failure, (mutation.run json m faults).2 = .error failure →
    Unchanged json m.store (mutation.run json m faults).1.store

/-- The segment is read from a local file. -/
def ColumnarStore.Local (store : ColumnarStore) (seg : SegmentMeta) : Prop :=
  ¬ (seg.tier = .cold ∧ store.archive.isSome = true)

instance (store : ColumnarStore) (seg : SegmentMeta) : Decidable (store.Local seg) :=
  inferInstanceAs (Decidable (¬ _))

/-- A call does not fail, or it has nothing to change, or it fails before the catalog is
changed and without breaking off the file of a listed segment. -/
def Mutation.Lands (m : Machine) (faults : Faults) : Mutation → Prop
  | .add _ => faults.saved = .done
  | .migrate id tier path =>
      faults.saved = .done ∨
        ∀ seg ∈ m.store.catalog.segments.find? fun s => s.id = id,
        seg.tier = tier ∧ seg.path = path
  | .remove ids => faults.saved = .done ∨ ∀ seg ∈ m.store.catalog.segments, seg.id ∉ ids
  | .writeSegment write =>
      write.events = [] ∨
        match faults.created with
        | .done => faults.saved = .done
        | .refused => True
        | .broken => ∀ seg ∈ m.store.catalog.segments, m.store.Local seg →
            seg.path = m.store.segmentPath write.id → m.store.files.lookup seg.path = none

/-! ## Reads that stay -/

section

variable {json : JsonText} {before after : ColumnarStore}

theorem readRange_congr (segments : after.catalog.segments = before.catalog.segments)
    (rows : ∀ seg ∈ before.catalog.segments, after.readRows seg = before.readRows seg)
    (start stop : Int) : after.readRange json start stop = before.readRange json start stop := by
  have overlaps : after.catalog.overlapping start stop = before.catalog.overlapping start stop := by
    rw [Catalog.overlapping, segments, Catalog.overlapping]
  have listed :
      ∀ seg ∈ before.catalog.overlapping start stop, seg ∈ before.catalog.segments :=
    fun seg member => (List.mem_filter.mp member).1
  have same : ∀ seg ∈ before.catalog.overlapping start stop,
      after.readInRange json start stop seg = before.readInRange json start stop seg := by
    intro seg member
    rw [ColumnarStore.readInRange, rows seg (listed seg member), ColumnarStore.readInRange]
  rw [ColumnarStore.readRange, overlaps, Pointwise.mapM_congr same, ColumnarStore.readRange]

variable {store : ColumnarStore} {seg : SegmentMeta}

theorem readRows_local (isLocal : store.Local seg) :
    store.readRows seg =
      (store.files.lookup seg.path).elim (.error (.openSegment seg.path)) .ok := by
  unfold ColumnarStore.readRows
  split
  · next cold attached => exact absurd ⟨cold, by simp [attached]⟩ isLocal
  · rfl

/-- Segments in the archive do not depend on the files and the catalog. -/
theorem readRows_archived (archived : ¬ before.Local seg) (same : after.archive = before.archive) :
    after.readRows seg = before.readRows seg := by
  rcases not_not.mp archived with ⟨cold, attached⟩
  rcases Option.isSome_iff_exists.mp attached with ⟨archive, isArchive⟩
  simp only [ColumnarStore.readRows, cold, same, isArchive]

/-- The rows of a segment stay when its file does. -/
theorem readRows_congr (same : after.archive = before.archive)
    (files : before.Local seg → after.files.lookup seg.path = before.files.lookup seg.path) :
    after.readRows seg = before.readRows seg := by
  by_cases isLocal : before.Local seg
  · have stillLocal : after.Local seg := by
      rw [ColumnarStore.Local, same]
      exact isLocal
    rw [readRows_local stillLocal, readRows_local isLocal, files isLocal]
  · exact readRows_archived isLocal same

/-- A new file is read by the local segments of its path, and by no others. -/
theorem readRows_insert (store : ColumnarStore) (catalog : Catalog) (path : String)
    (data : List Row) (seg : SegmentMeta) :
    ({ store with catalog := catalog, files := store.files.insert path data }).readRows seg =
      if store.Local seg ∧ seg.path = path then .ok data else store.readRows seg := by
  by_cases isLocal : store.Local seg
  · have stillLocal :
        ({ store with catalog := catalog, files := store.files.insert path data }).Local seg :=
          isLocal
    rw [readRows_local stillLocal]
    by_cases here : seg.path = path
    · rw [if_pos ⟨isLocal, here⟩, ← here, AList.lookup_insert, Option.elim_some]
    · simp [here, readRows_local isLocal]
  · rw [if_neg fun both => isLocal both.1]
    exact readRows_archived isLocal rfl

/-- The next batch is listed and read alike. -/
theorem readRange_again (dir : after.coldDir = before.coldDir)
    (same : after.archive = before.archive)
    (segments : after.catalog.segments = before.catalog.segments)
    (rows : ∀ seg ∈ before.catalog.segments, after.readRows seg = before.readRows seg)
    (write : Write) (start stop : Int) :
    (after.writeSegment json write.events write.now write.created).1.readRange json start stop =
      (before.writeSegment json write.events write.now write.created).1.readRange
        json start stop := by
  by_cases empty : write.events = []
  · simp only [empty, writeSegment_empty]
    exact readRange_congr segments rows start stop
  · have place :
        after.segmentPath (ulidLike write.now) = before.segmentPath (ulidLike write.now) := by
      rw [ColumnarStore.segmentPath, ColumnarStore.segmentPath, dir]
    rw [writeSegment_nonempty after empty, writeSegment_nonempty before empty]
    apply readRange_congr
    · simp only [Catalog.add, Catalog.save, segments, Write.segment, place]
    · intro seg member
      have alike : after.Local seg ↔ before.Local seg := by
        rw [ColumnarStore.Local, same, ColumnarStore.Local]
      simp only [readRows_insert, alike, place]
      rcases List.mem_append.mp member with old | new
      · rw [rows seg old]
      · have isNew := List.mem_singleton.mp new
        have isLocal : before.Local seg := by
          rw [isNew]
          simp [ColumnarStore.Local, Write.segment, segmentMeta]
        have itsPath : seg.path = before.segmentPath (ulidLike write.now) := by
          rw [isNew]
          rfl
        simp only [isLocal, itsPath, and_self, if_true]

theorem unchanged_of (dir : after.coldDir = before.coldDir) (same : after.archive = before.archive)
    (segments : after.catalog.segments = before.catalog.segments)
    (rows : ∀ seg ∈ before.catalog.segments, after.readRows seg = before.readRows seg) :
    Unchanged json before after where
  segments := segments
  rows := rows
  segmentCount := by rw [ColumnarStore.segmentCount, segments, ColumnarStore.segmentCount]
  totalRows := by
    rw [ColumnarStore.totalRows, Catalog.totalRows, segments, ColumnarStore.totalRows,
      Catalog.totalRows]
  overlapping := fun start stop => by rw [Catalog.overlapping, segments, Catalog.overlapping]
  readRange := readRange_congr segments rows
  again := readRange_again dir same segments rows

end

/-! ## Each call -/

section

variable {json : JsonText} {m : Machine} {faults : Faults}

/-- A call that ends with an effect fails when the effect does. -/
theorem Fate.answer_error_iff {α : Type} (fate : Fate) (error : StoreError) (value : α) :
    (∃ failure, fate.answer error value = .error failure) ↔ fate ≠ .done := by
  cases fate <;> simp [answer]

theorem outcome_error_iff {α : Type} (answer : Machine × Except StoreError α)
    (failure : StoreError) : (outcome answer).2 = .error failure ↔ answer.2 = .error failure := by
  rcases answer with ⟨after, _ | _⟩ <;> simp [outcome, Except.map]

/-- A save that fails leaves the new list in memory. -/
theorem save_segments (m : Machine) (segments : List SegmentMeta) (fate : Fate) :
    (m.save segments fate).store.catalog.segments = segments := by
  cases fate <;> simp [Machine.save, Catalog.save]

theorem save_unchanged (m : Machine) (fate : Fate) :
    Unchanged json m.store (m.save m.store.catalog.segments fate).store := by
  apply unchanged_of
  · cases fate <;> simp [Machine.save]
  · cases fate <;> simp [Machine.save]
  · exact save_segments m _ fate
  · intro seg _
    cases fate <;> simp [Machine.save, ColumnarStore.readRows]

/-- A call that ends with saving another list is atomic when the save succeeds. -/
theorem atomic_of_save {mutation : Mutation} {before : Machine} {segments : List SegmentMeta}
    (changes : segments ≠ m.store.catalog.segments)
    (saves : (mutation.run json m faults).1 = before.save segments faults.saved)
    (answers : (∃ failure, (mutation.run json m faults).2 = .error failure) ↔
      faults.saved ≠ .done) :
    Atomic json m faults mutation ↔ faults.saved = .done := by
  constructor
  · intro atomic
    by_contra failed
    rcases answers.mpr failed with ⟨failure, fails⟩
    have same := (atomic failure fails).segments
    rw [saves, save_segments] at same
    exact changes same
  · intro done failure fails
    exact absurd done (answers.mp ⟨failure, fails⟩)

theorem append_ne_self (segments : List SegmentMeta) (seg : SegmentMeta) :
    segments ++ [seg] ≠ segments := by
  intro same
  simpa using congrArg List.length same

theorem add_iff (seg : SegmentMeta) :
    Atomic json m faults (.add seg) ↔ (Mutation.add seg).Lands m faults := by
  apply atomic_of_save (append_ne_self _ seg)
  · rw [Mutation.run, Machine.add]
  · exact faults.saved.answer_error_iff .catalog ()

/-- Moving a segment changes nothing when it is there already. -/
theorem migrate_eq_self_iff (id : String) (tier : Tier) (path : String)
    (segments : List SegmentMeta) :
    Catalog.migrate id tier path segments = segments ↔
      ∀ seg ∈ segments.find? fun s => s.id = id, seg.tier = tier ∧ seg.path = path := by
  induction segments with
  | nil => simp [Catalog.migrate]
  | cons seg rest inductionHypothesis =>
      rw [Catalog.migrate]
      by_cases same : seg.id = id
      · have found : (seg :: rest).find? (fun s => s.id = id) = some seg :=
          List.find?_cons_of_pos (by simpa using same)
        have stays : { seg with tier := tier, path := path } = seg ↔
            seg.tier = tier ∧ seg.path = path := by
          rcases seg with ⟨_, _, _, _, _, _, _⟩
          simp [eq_comm, and_comm]
        simp [same, found, ← stays]
      · simp [same, inductionHypothesis]

theorem migrate_iff (id : String) (tier : Tier) (path : String) :
    Atomic json m faults (.migrate id tier path) ↔
      (Mutation.migrate id tier path).Lands m faults := by
  rw [Mutation.Lands, ← migrate_eq_self_iff]
  by_cases known : id ∈ m.store.catalog.segments.map SegmentMeta.id
  · have moved : m.migrate faults id tier path =
        (m.save (Catalog.migrate id tier path m.store.catalog.segments) faults.saved,
          faults.saved.answer .catalog true) := by
      rw [Machine.migrate, if_pos known]
    by_cases stays : Catalog.migrate id tier path m.store.catalog.segments =
        m.store.catalog.segments
    · rw [iff_true_right (Or.inr stays)]
      intro failure _
      rw [Mutation.run, outcome, moved, stays]
      exact save_unchanged m faults.saved
    · rw [or_iff_left stays]
      apply atomic_of_save stays
      · rw [Mutation.run, outcome, moved]
      · simp only [Mutation.run, outcome_error_iff, moved]
        exact faults.saved.answer_error_iff .catalog true
  · have stays : Catalog.migrate id tier path m.store.catalog.segments =
        m.store.catalog.segments := by
      rw [migrate_eq_self_iff]
      intro seg found
      refine absurd (List.mem_map.mpr ⟨seg, List.mem_of_find?_eq_some found, ?_⟩) known
      simpa using List.find?_some found
    rw [iff_true_right (Or.inr stays)]
    intro failure fails
    rw [Mutation.run, outcome_error_iff, Machine.migrate, if_neg known] at fails
    cases fails

theorem remove_iff (ids : List String) :
    Atomic json m faults (.remove ids) ↔ (Mutation.remove ids).Lands m faults := by
  rw [Mutation.Lands]
  by_cases none : (m.store.catalog.segments.filter fun s => s.id ∈ ids).isEmpty = true
  · have kept : ∀ seg ∈ m.store.catalog.segments, seg.id ∉ ids := by
      simpa [List.filter_eq_nil_iff] using none
    rw [iff_true_right (Or.inr kept)]
    intro failure fails
    rw [Mutation.run, outcome_error_iff, Machine.remove, if_pos none] at fails
    cases fails
  · have some_ : ¬ ∀ seg ∈ m.store.catalog.segments, seg.id ∉ ids := by
      simpa [List.filter_eq_nil_iff] using none
    have removed : m.remove faults ids =
        ((m.removeFiles faults.unlinks (m.store.catalog.segments.filter fun s => s.id ∈ ids)).save
            (m.store.catalog.segments.filter fun s => s.id ∉ ids) faults.saved,
          faults.saved.answer .catalog
            (m.store.catalog.segments.filter fun s => s.id ∈ ids).length) := by
      rw [Machine.remove, if_neg none]
    have changes : (m.store.catalog.segments.filter fun s => s.id ∉ ids) ≠
        m.store.catalog.segments := by
      simpa [List.filter_eq_self] using some_
    rw [or_iff_left some_]
    apply atomic_of_save changes
    · rw [Mutation.run, outcome, removed]
    · simp only [Mutation.run, outcome_error_iff, removed]
      exact faults.saved.answer_error_iff .catalog _

/-- A file that is broken off changes the reads of the local segments that had one. -/
theorem erase_unchanged_iff {store : ColumnarStore} {path : String} {error : StoreError} :
    (∀ failure, (Except.error error).map (fun _ : Option SegmentMeta => ()) = .error failure →
      Unchanged json store { store with files := store.files.erase path }) ↔
    ∀ seg ∈ store.catalog.segments, store.Local seg → seg.path = path →
      store.files.lookup seg.path = none := by
  constructor
  · intro atomic seg listed isLocal here
    have same := (atomic error rfl).rows seg listed
    have stillLocal : ({ store with files := store.files.erase path }).Local seg := isLocal
    rw [readRows_local stillLocal, readRows_local isLocal, here, AList.lookup_erase] at same
    rw [here]
    cases file : store.files.lookup path with
    | none => rfl
    | some data => simp [file] at same
  · intro absent failure _
    refine unchanged_of rfl rfl rfl ?_
    intro seg listed
    refine readRows_congr rfl fun isLocal => ?_
    by_cases here : seg.path = path
    · rw [absent seg listed isLocal here, here, AList.lookup_erase]
    · exact AList.lookup_erase_ne here

theorem writeSegment_iff (write : Write) :
    Atomic json m faults (.writeSegment write) ↔
      (Mutation.writeSegment write).Lands m faults := by
  rw [Mutation.Lands]
  by_cases empty : write.events = []
  · rw [iff_true_right (Or.inl empty)]
    intro failure fails
    rw [Mutation.run, outcome_error_iff, Machine.writeSegment, if_pos (by simp [empty])] at fails
    cases fails
  · rw [or_iff_right empty]
    have nonempty : ¬ write.events.isEmpty = true := by simpa using empty
    cases created : faults.created with
    | done =>
        have written : m.writeSegment faults json write =
            (((m.createFile (m.store.segmentPath write.id) (eventsToBatch json write.events)
                .done).add faults (write.segment m.store)).1,
              (faults.saved.answer .catalog ()).map fun _ => some (write.segment m.store)) := by
          rw [Machine.writeSegment, if_neg nonempty, created]
          rfl
        apply atomic_of_save (append_ne_self _ (write.segment m.store))
        · rw [Mutation.run, outcome, written]
          rfl
        · simp only [Mutation.run, outcome_error_iff, written]
          cases faults.saved <;> simp [Fate.answer, Except.map]
    | refused =>
        rw [iff_true_right trivial]
        intro failure _
        rw [Mutation.run, outcome, Machine.writeSegment, if_neg nonempty, created]
        exact unchanged_of rfl rfl rfl fun seg _ => rfl
    | broken =>
        have written : m.writeSegment faults json write =
            ({ m with store := { m.store with
                files := m.store.files.erase (m.store.segmentPath write.id) } },
              .error (.segment (m.store.segmentPath write.id))) := by
          rw [Machine.writeSegment, if_neg nonempty, created]
          rfl
        rw [Atomic, Mutation.run, outcome, written]
        exact erase_unchanged_iff

/-- A mutation is atomic exactly when it lands. -/
theorem atomic_iff (json : JsonText) (m : Machine) (faults : Faults) (mutation : Mutation) :
    Atomic json m faults mutation ↔ mutation.Lands m faults := by
  cases mutation with
  | add seg => exact add_iff seg
  | migrate id tier path => exact migrate_iff id tier path
  | remove ids => exact remove_iff ids
  | writeSegment write => exact writeSegment_iff write

/-- A buffer is kept when it cannot be written; where the failing call lands, writing it again
shows what writing it once does. -/
theorem roll_again {buffer : List Event} {now created : Int64} {failure : StoreError}
    (fails : (m.roll faults json buffer now created).2.2 = .error failure) :
    (m.roll faults json buffer now created).2.1 = buffer ∧
      ((Mutation.writeSegment ⟨buffer, now, created⟩).Lands m faults →
        ∀ (now' created' : Int64) (start stop : Int),
          ((m.roll faults json buffer now created).1.store.writeSegment json buffer now'
              created').1.readRange json start stop =
            (m.store.writeSegment json buffer now' created').1.readRange json start stop) := by
  unfold Machine.roll at fails ⊢
  split at fails
  · cases fails
  · next some_ =>
      rw [if_neg some_]
      cases result : (m.writeSegment faults json ⟨buffer, now, created⟩).2 with
      | ok seg => simp [result] at fails
      | error failure' =>
          simp only [result, true_and]
          intro lands now' created' start stop
          have failed : ((Mutation.writeSegment ⟨buffer, now, created⟩).run json m faults).2 =
              .error failure' := by
            rw [Mutation.run, outcome_error_iff]
            exact result
          exact ((writeSegment_iff _).mpr lands failure' failed).again ⟨buffer, now', created'⟩
            start stop

/-- Saving fails after the batch has been listed. -/
def savingFails : Faults where
  created := .done
  unlinks := fun _ => .done
  saved := .refused

def emptyMachine : Machine where
  store := .new "cold" none
  torn := false

theorem not_atomic : ¬ ∀ json m faults mutation, Atomic json m faults mutation := by
  intro law
  have same := (law plainJson emptyMachine savingFails (.writeSegment (oneEvent "a" 7)) .catalog
    (by rfl)).segmentCount
  exact absurd same (by decide)

/-- The batch that is written again is read twice. -/
example : ((((emptyMachine.roll savingFails plainJson
    (oneEvent "a" 7).events 7 7).1.store.writeSegment
    plainJson (oneEvent "a" 7).events 8 8).1.readRange plainJson 100 100).toOption.map
      fun events => events.map Event.id) = some ["a", "a"] := by
  decide +kernel

end

end Index
end Sigil
