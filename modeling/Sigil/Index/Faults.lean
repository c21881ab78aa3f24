import Sigil.Index.Lifecycle
import Sigil.Library.Transition

namespace Sigil
namespace Index

/-!
# Failures, stops and reopening

One process makes one call after the other.  Any effect may fail, which ends the call, and
the process may stop between any two effects and reopen the store from its catalog file.
The file names only data that exists, unless a retention call ends before its last effect:
it deletes data first and saves the catalog afterwards.
-/

open Sigil.Core Library

/-- What the process is doing. -/
inductive Phase where
  | stopped
  | idle
  | busy (task : Task)

/-- A process over its disk, with the rows of every batch that has been registered. -/
structure Process where
  machine : Machine
  phase : Phase
  written : Files

inductive ProcessEvent where
  | begin (call : Call)
  | effect (fate : Fate)
  | stop
  | reopen

/-- What the process does after an effect. -/
def Progress.phase : Progress → Phase
  | .more task => .busy task
  | _ => .idle

/-- Registering a batch fixes the rows of its identifier. -/
def Task.record (json : JsonText) (written : Files) : Task → Files
  | .register write => written.insert write.id (eventsToBatch json write.events)
  | _ => written

/-- The segments of the catalog file. -/
def Catalog.persisted (catalog : Catalog) : List SegmentMeta :=
  catalog.file.getD []

/-- Open the store again from its catalog file. -/
def ColumnarStore.reopen (store : ColumnarStore) : ColumnarStore :=
  { store with catalog := .open_ store.catalog.file }

namespace Process

/-- One effect of a task. -/
def advance (json : JsonText) (m : Machine) (written : Files) (task : Task) (fate : Fate) :
    Process where
  machine := (task.step json m fate).1
  phase := (task.step json m fate).2.phase
  written := task.record json written

def step (json : JsonText) (s : Process) : ProcessEvent → Option Process
  | .begin call =>
      match s.phase with
      | .idle => some { s with phase := .busy call.task }
      | _ => none
  | .effect fate =>
      match s.phase with
      | .busy task => some (advance json s.machine s.written task fate)
      | _ => none
  | .stop =>
      match s.phase with
      | .stopped => none
      | _ => some { s with phase := .stopped }
  | .reopen =>
      match s.phase with
      | .stopped =>
          if s.machine.torn then none
          else
            some
              { s with
                machine := { s.machine with store := s.machine.store.reopen }
                phase := .idle }
      | _ => none

/-- An empty store. -/
def start (coldDir : String) (archive : Option ObjectColdStore) : Process where
  machine := { store := .new coldDir archive, torn := false }
  phase := .idle
  written := ∅

end Process

/-- The runs of one process at a time. -/
def lives (json : JsonText) (coldDir : String) (archive : Option ObjectColdStore) :
    TransitionSystem Process ProcessEvent where
  init := fun s => s = .start coldDir archive
  step := fun before event after => before.step json event = some after

/-- Every segment of the catalog file still has its rows. -/
def Process.Backed (s : Process) : Prop :=
  ∀ seg, seg ∈ s.machine.store.catalog.persisted → ∃ rows,
    s.written.lookup seg.id = some rows ∧ s.machine.store.readRows seg = .ok rows

/-- No call is under way. -/
def Process.AtRest (s : Process) : Prop :=
  ∀ task, s.phase ≠ .busy task

/-! ## The condition -/

/-- The places whose data a call has deleted. -/
def Task.gone : Task → List Place
  | .delete gone _ _ => gone
  | .remove gone _ => gone
  | .unlinkEach gone _ _ => gone
  | .forget gone _ => gone
  | _ => []

/-- The catalog file names none of the places. -/
def Unnamed (store : ColumnarStore) (gone : List Place) : Prop :=
  ∀ seg, seg ∈ store.catalog.persisted → seg.place ∉ gone

/-- No segment, in memory or in the file, has the identifier. -/
def Unlisted (store : ColumnarStore) (id : String) : Prop :=
  id ∉ store.catalog.segments.map SegmentMeta.id ∧
    id ∉ store.catalog.persisted.map SegmentMeta.id

/-- A retention call does not fail once it has deleted data that the catalog names. -/
def Task.Tolerates (store : ColumnarStore) (fate : Fate) : Task → Prop
  | .delete gone (_ :: _) _ => fate = .done ∨ fate = .refused ∧ gone = []
  | .forget gone _ => fate = .refused → Unnamed store gone
  | _ => True

/-- A batch takes an identifier that is not listed, and a retention call neither fails nor
is stopped once it has deleted data that the catalog names. -/
def Process.Careful (s : Process) : ProcessEvent → Prop
  | .begin (.writeSegment write) => write.events ≠ [] → Unlisted s.machine.store write.id
  | .begin _ => True
  | .effect fate =>
      match s.phase with
      | .busy task => task.Tolerates s.machine.store fate
      | _ => True
  | .stop =>
      match s.phase with
      | .busy task => Unnamed s.machine.store task.gone
      | _ => True
  | .reopen => True

instance (store : ColumnarStore) (gone : List Place) : Decidable (Unnamed store gone) :=
  inferInstanceAs (Decidable (∀ seg, seg ∈ store.catalog.persisted → seg.place ∉ gone))

instance (store : ColumnarStore) (id : String) : Decidable (Unlisted store id) :=
  inferInstanceAs (Decidable (_ ∧ _))

instance (store : ColumnarStore) (fate : Fate) :
    (task : Task) → Decidable (task.Tolerates store fate)
  | .delete gone (_ :: _) _ =>
      inferInstanceAs (Decidable (fate = .done ∨ fate = .refused ∧ gone = []))
  | .forget gone _ => inferInstanceAs (Decidable (fate = .refused → Unnamed store gone))
  | .delete _ [] _ => isTrue trivial
  | .create _ => isTrue trivial
  | .register _ => isTrue trivial
  | .age _ _ => isTrue trivial
  | .read _ => isTrue trivial
  | .put _ _ _ => isTrue trivial
  | .relocate _ _ => isTrue trivial
  | .unlink _ _ => isTrue trivial
  | .expire _ _ => isTrue trivial
  | .remove _ _ => isTrue trivial
  | .unlinkEach _ _ _ => isTrue trivial

instance (s : Process) : (event : ProcessEvent) → Decidable (s.Careful event)
  | .begin (.writeSegment write) =>
      inferInstanceAs (Decidable (write.events ≠ [] → Unlisted s.machine.store write.id))
  | .begin (.migrateWarm _ _) => isTrue trivial
  | .begin (.enforceRetention _ _) => isTrue trivial
  | .effect fate =>
      match equal : s.phase with
      | .busy task => decidable_of_iff (task.Tolerates s.machine.store fate) (by
          rw [Process.Careful, equal])
      | .idle => isTrue (by rw [Process.Careful, equal]; trivial)
      | .stopped => isTrue (by rw [Process.Careful, equal]; trivial)
  | .stop =>
      match equal : s.phase with
      | .busy task => decidable_of_iff (Unnamed s.machine.store task.gone) (by
          rw [Process.Careful, equal])
      | .idle => isTrue (by rw [Process.Careful, equal]; trivial)
      | .stopped => isTrue (by rw [Process.Careful, equal]; trivial)
  | .reopen => isTrue trivial

/-! ## Places -/

/-- The rows at a place. -/
def ColumnarStore.rowsAt (store : ColumnarStore) : Place → Option (List Row)
  | .file path => store.files.lookup path
  | .object key => store.archive.bind fun archive => archive.objects.lookup key

def Place.path : Place → String
  | .file path => path
  | .object key => key

theorem place_path (seg : SegmentMeta) : seg.place.path = seg.path := by
  unfold SegmentMeta.place
  split <;> rfl

theorem place_of_warm {seg : SegmentMeta} (warm : seg.tier = .warm) :
    seg.place = .file seg.path := by
  rw [SegmentMeta.place, warm]

theorem place_of_cold {seg : SegmentMeta} (cold : seg.tier = .cold) :
    seg.place = .object seg.path := by
  rw [SegmentMeta.place, cold]

theorem readRows_of_rowsAt {store : ColumnarStore} {seg : SegmentMeta} {rows : List Row}
    (found : store.rowsAt seg.place = some rows) : store.readRows seg = .ok rows := by
  unfold SegmentMeta.place at found
  unfold ColumnarStore.readRows
  split at found
  · next cold =>
      rcases Option.bind_eq_some_iff.mp found with ⟨archive, attached, object⟩
      simp only [cold, attached, object, Option.elim_some]
  · next notCold =>
      have file : store.files.lookup seg.path = some rows := found
      split
      · next cold _ => exact absurd cold notCold
      · rw [file, Option.elim_some]

/-- What an entry of the catalog names: the file or the object of its identifier. -/
def Entry (store : ColumnarStore) (seg : SegmentMeta) : Prop :=
  (∃ now, seg.id = ulidLike now) ∧
    (seg.place = .file (store.segmentPath seg.id) ∨
      store.archive.isSome = true ∧ seg.place = .object (store.key seg.id))

theorem Entry.same_id {store : ColumnarStore} {first second : SegmentMeta}
    (isFirst : Entry store first) (isSecond : Entry store second)
    (same : first.path = second.path) :
    first.id = second.id := by
  rcases isFirst with ⟨⟨a, firstId⟩, firstPlace⟩
  rcases isSecond with ⟨⟨b, secondId⟩, secondPlace⟩
  rw [← place_path first, ← place_path second] at same
  rw [firstId] at firstPlace ⊢
  rw [secondId] at secondPlace ⊢
  apply congrArg ulidLike
  rcases firstPlace with firstPlace | ⟨attached, firstPlace⟩ <;>
    rcases secondPlace with secondPlace | ⟨attached', secondPlace⟩ <;>
    rw [firstPlace, secondPlace] at same
  · exact segmentPath_injective same
  · exact ColumnarStore.segmentPath_ne_key attached' same
  · exact (ColumnarStore.segmentPath_ne_key attached same.symm).symm
  · exact ColumnarStore.key_injective attached same

theorem Entry.file {store : ColumnarStore} {seg : SegmentMeta} (entry : Entry store seg)
    {now : Int64} (same : seg.place = .file (store.segmentPath (ulidLike now))) :
    seg.id = ulidLike now := by
  rcases entry with ⟨⟨own, id⟩, place | ⟨_, place⟩⟩
  · rw [place, id] at same
    rw [id, segmentPath_injective (Place.file.inj same)]
  · rw [place] at same
    cases same

theorem Entry.object {store : ColumnarStore} {seg : SegmentMeta} (entry : Entry store seg)
    {now : Int64} (same : seg.place = .object (store.key (ulidLike now))) :
    seg.id = ulidLike now := by
  rcases entry with ⟨⟨own, id⟩, place | ⟨attached, place⟩⟩
  · rw [place] at same
    cases same
  · rw [place, id] at same
    rw [id, ColumnarStore.key_injective attached (Place.object.inj same)]

/-- Two stores use the same names. -/
structure SameNames (store store' : ColumnarStore) : Prop where
  coldDir : store'.coldDir = store.coldDir
  keyStart :
    store'.archive.map ObjectColdStore.keyStart = store.archive.map ObjectColdStore.keyStart

namespace SameNames

variable {store store' : ColumnarStore}

theorem segmentPath (names : SameNames store store') (id : String) :
    store'.segmentPath id = store.segmentPath id := by
  rw [ColumnarStore.segmentPath, ColumnarStore.segmentPath, names.coldDir]

theorem attached (names : SameNames store store') :
    store'.archive.isSome = store.archive.isSome := by
  rw [← Option.isSome_map, names.keyStart, Option.isSome_map]

theorem key (names : SameNames store store') (id : String) : store'.key id = store.key id := by
  have equal : ∀ s : ColumnarStore, s.key id =
      ((s.archive.map ObjectColdStore.keyStart).map fun start =>
        start ++ "/" ++ id ++ ".parquet").getD "" := by
    intro s
    rw [Option.map_map]
    rfl
  rw [equal, equal, names.keyStart]

theorem entry (names : SameNames store store') {seg : SegmentMeta} (entry : Entry store seg) :
    Entry store' seg := by
  rw [Entry, names.segmentPath, names.attached, names.key]
  exact entry

end SameNames

/-! ## The invariant -/

/-- The segments of a list name their own places, and hold their rows where nothing has
been deleted. -/
structure Listed (store : ColumnarStore) (written : Files) (gone : List Place)
    (segments : List SegmentMeta) : Prop where
  distinct : (segments.map SegmentMeta.id).Nodup
  entry : ∀ seg, seg ∈ segments → Entry store seg
  backed : ∀ seg, seg ∈ segments → seg.place ∈ gone ∨ ∃ rows,
    written.lookup seg.id = some rows ∧ store.rowsAt seg.place = some rows

/-- The catalog in memory and the one in the file. -/
structure Safe (store : ColumnarStore) (written : Files) (gone : List Place) : Prop where
  memory : Listed store written gone store.catalog.segments
  file : Listed store written gone store.catalog.persisted

/-- Segments that a migration has found old enough and has not reached yet. -/
structure Aged (store : ColumnarStore) (aged : List SegmentMeta) : Prop where
  attached : store.archive.isSome = true
  distinct : (aged.map SegmentMeta.id).Nodup
  listed : ∀ seg, seg ∈ aged → seg ∈ store.catalog.segments ∧ seg.tier = .warm

/-- A retention call deletes only data of segments that it will drop. -/
def Dropping (store : ColumnarStore) (gone : List Place) (ids : List String) : Prop :=
  ∀ place, place ∈ gone → ∃ seg, seg ∈ store.catalog.segments ∧ seg.id ∈ ids ∧
    place.path = seg.path

/-- What the task under way knows. -/
def Knows (json : JsonText) (store : ColumnarStore) (written : Files) : Task → Prop
  | .create write => write.events ≠ [] → Unlisted store write.id
  | .register write =>
      Unlisted store write.id ∧ store.rowsAt (.file (store.segmentPath write.id)) =
        some (eventsToBatch json write.events)
  | .age _ _ => True
  | .read aged => Aged store aged
  | .put seg data rest => Aged store (seg :: rest) ∧ written.lookup seg.id = some data
  | .relocate seg rest =>
      Aged store (seg :: rest) ∧ ∃ rows, written.lookup seg.id = some rows ∧
        store.rowsAt (.object (store.key seg.id)) = some rows
  | .unlink seg rest =>
      (∀ entry, entry ∈ store.catalog.segments → entry.place ≠ .file seg.path) ∧
        (∀ entry, entry ∈ store.catalog.persisted → entry.place ≠ .file seg.path) ∧
          Aged store rest
  | .expire _ _ => True
  | .delete gone todo ids =>
      Dropping store gone ids ∧ ∀ seg, seg ∈ todo →
        seg ∈ store.catalog.segments ∧ seg.id ∈ ids
  | .remove gone ids => Dropping store gone ids
  | .unlinkEach gone todo ids =>
      Dropping store gone ids ∧ ∀ seg, seg ∈ todo →
        seg ∈ store.catalog.segments ∧ seg.id ∈ ids
  | .forget gone ids => Dropping store gone ids

/-- The invariant of a process. -/
def Process.Holds (json : JsonText) (s : Process) : Prop :=
  match s.phase with
  | .stopped => Listed s.machine.store s.written [] s.machine.store.catalog.persisted
  | .idle => Safe s.machine.store s.written []
  | .busy task => Safe s.machine.store s.written task.gone ∧
      Knows json s.machine.store s.written task

section Lists

variable {store store' : ColumnarStore} {written written' : Files} {gone gone' : List Place}
  {segments : List SegmentMeta}

/-- What keeps the rows of the listed segments keeps the list. -/
theorem Listed.frame (listed : Listed store written gone segments) (names : SameNames store store')
    (grows : ∀ place, place ∈ gone → place ∈ gone')
    (keeps : ∀ seg, seg ∈ segments → ∀ rows, written.lookup seg.id = some rows →
      store.rowsAt seg.place = some rows → seg.place ∈ gone' ∨
        written'.lookup seg.id = some rows ∧ store'.rowsAt seg.place = some rows) :
    Listed store' written' gone' segments where
  distinct := listed.distinct
  entry := fun seg member => names.entry (listed.entry seg member)
  backed := fun seg member => by
    rcases listed.backed seg member with isGone | ⟨rows, isWritten, found⟩
    · exact Or.inl (grows _ isGone)
    · exact (keeps seg member rows isWritten found).imp_right fun both => ⟨rows, both⟩

/-- The catalog does not matter. -/
theorem Listed.recatalog (listed : Listed store written gone segments) (catalog : Catalog) :
    Listed { store with catalog := catalog } written gone segments :=
  listed.frame ⟨rfl, rfl⟩ (fun _ member => member) fun _ _ _ isWritten found =>
    Or.inr ⟨isWritten, found⟩

theorem Listed.sublist (listed : Listed store written gone segments) {fewer : List SegmentMeta}
    (sub : List.Sublist fewer segments) : Listed store written gone fewer where
  distinct := listed.distinct.sublist (sub.map _)
  entry := fun seg member => listed.entry seg (sub.subset member)
  backed := fun seg member => listed.backed seg (sub.subset member)

/-- Nothing is missing where no segment names a deleted place. -/
theorem Listed.unnamed (listed : Listed store written gone segments)
    (apart : ∀ seg, seg ∈ segments → seg.place ∉ gone) :
    Listed store written [] segments where
  distinct := listed.distinct
  entry := listed.entry
  backed := fun seg member => by
    rcases listed.backed seg member with isGone | found
    · exact absurd isGone (apart seg member)
    · exact Or.inr found

theorem Listed.nil (store : ColumnarStore) (written : Files) (gone : List Place) :
    Listed store written gone [] where
  distinct := List.nodup_nil
  entry := fun _ member => absurd member List.not_mem_nil
  backed := fun _ member => absurd member List.not_mem_nil

/-- The rows at every place but one stay. -/
theorem Safe.frame (safe : Safe store written gone) (names : SameNames store store')
    (catalog : store'.catalog = store.catalog)
    (grows : ∀ place, place ∈ gone → place ∈ gone')
    (keeps : ∀ seg, seg ∈ store.catalog.segments ∨ seg ∈ store.catalog.persisted →
      ∀ rows, written.lookup seg.id = some rows → store.rowsAt seg.place = some rows →
        seg.place ∈ gone' ∨ written'.lookup seg.id = some rows ∧
          store'.rowsAt seg.place = some rows) :
    Safe store' written' gone' where
  memory := by
    rw [catalog]
    exact safe.memory.frame names grows fun seg member => keeps seg (Or.inl member)
  file := by
    rw [catalog]
    exact safe.file.frame names grows fun seg member => keeps seg (Or.inr member)

theorem Safe.entry (safe : Safe store written gone) {seg : SegmentMeta}
    (listed : seg ∈ store.catalog.segments ∨ seg ∈ store.catalog.persisted) :
    Entry store seg :=
  listed.elim (safe.memory.entry seg) (safe.file.entry seg)

/-- Saving the catalog, whether it ends well or not. -/
theorem Safe.save {m : Machine} (memory : Listed m.store written [] segments) (fate : Fate)
    (file : fate = .refused → Listed m.store written [] m.store.catalog.persisted) :
    Safe (m.save segments fate).store written [] := by
  cases fate with
  | done => exact ⟨memory.recatalog _, memory.recatalog _⟩
  | refused => exact ⟨memory.recatalog _, (file rfl).recatalog _⟩
  | broken => exact ⟨memory.recatalog _, Listed.nil _ _ _⟩

/-- Reopening reads the catalog file. -/
theorem Listed.reopen (listed : Listed store written [] store.catalog.persisted) :
    Safe store.reopen written [] :=
  ⟨listed.recatalog _, listed.recatalog _⟩

end Lists

/-! ## Effects on files and objects -/

section Effects

variable {m : Machine} {path key : String} {rows : List Row} {place : Place}

theorem rowsAt_createFile (store : ColumnarStore) (path : String) (rows : List Row) :
    (store.createFile path rows).rowsAt (.file path) = some rows :=
  AList.lookup_insert _

theorem rowsAt_createFile_ne (fate : Fate) (different : place ≠ .file path) :
    (m.createFile path rows fate).store.rowsAt place = m.store.rowsAt place := by
  cases place with
  | file other =>
      have apart : other ≠ path := fun same => different (congrArg Place.file same)
      cases fate with
      | done => exact AList.lookup_insert_ne apart
      | refused => rfl
      | broken => exact AList.lookup_erase_ne apart
  | object key => cases fate <;> rfl

theorem rowsAt_removeFile_ne (fate : Fate) (different : place ≠ .file path) :
    (m.removeFile path fate).store.rowsAt place = m.store.rowsAt place := by
  cases place with
  | file other =>
      have apart : other ≠ path := fun same => different (congrArg Place.file same)
      cases fate with
      | done => exact AList.lookup_erase_ne apart
      | refused => rfl
      | broken => rfl
  | object key => cases fate <;> rfl

theorem rowsAt_setObjects (change : Files → Files) (key : String) :
    (m.setObjects change).store.rowsAt (.object key) =
      m.store.archive.bind fun archive => (change archive.objects).lookup key := by
  change (m.store.archive.map _).bind _ = _
  rw [Option.bind_map]
  rfl

theorem rowsAt_putObject (attached : m.store.archive.isSome = true) (fate : Fate)
    (succeeds : fate ≠ .refused) :
    (m.putObject key rows fate).store.rowsAt (.object key) = some rows := by
  rcases Option.isSome_iff_exists.mp attached with ⟨archive, equal⟩
  have stored : (m.setObjects fun objects => objects.insert key rows).store.rowsAt (.object key) =
      some rows := by
    rw [rowsAt_setObjects, equal]
    exact AList.lookup_insert _
  cases fate with
  | done => exact stored
  | refused => exact absurd rfl succeeds
  | broken => exact stored

/-- A change of the objects that leaves the one of a key. -/
theorem rowsAt_setObjects_of_same {change : Files → Files}
    (same : ∀ objects : Files, (change objects).lookup key = objects.lookup key) :
    (m.setObjects change).store.rowsAt (.object key) = m.store.rowsAt (.object key) := by
  rw [rowsAt_setObjects]
  exact congrArg (Option.bind m.store.archive) (funext fun archive => same archive.objects)

theorem rowsAt_putObject_ne (fate : Fate) (different : place ≠ .object key) :
    (m.putObject key rows fate).store.rowsAt place = m.store.rowsAt place := by
  cases place with
  | file path => cases fate <;> rfl
  | object other =>
      have apart : other ≠ key := fun same => different (congrArg Place.object same)
      have same :
          (m.setObjects fun objects => objects.insert key rows).store.rowsAt (.object other) =
          m.store.rowsAt (.object other) :=
        rowsAt_setObjects_of_same fun _ => AList.lookup_insert_ne apart
      cases fate with
      | done => exact same
      | refused => rfl
      | broken => exact same

theorem rowsAt_deleteObject_ne (fate : Fate) (different : place ≠ .object key) :
    (m.deleteObject key fate).store.rowsAt place = m.store.rowsAt place := by
  cases place with
  | file path => cases fate <;> rfl
  | object other =>
      have apart : other ≠ key := fun same => different (congrArg Place.object same)
      have same : (m.setObjects fun objects => objects.erase key).store.rowsAt (.object other) =
          m.store.rowsAt (.object other) :=
        rowsAt_setObjects_of_same fun _ => AList.lookup_erase_ne apart
      cases fate with
      | done => exact same
      | refused => rfl
      | broken => exact same

theorem sameNames_setObjects (change : Files → Files) :
    SameNames m.store (m.setObjects change).store where
  coldDir := rfl
  keyStart := Option.map_map _ _ _

end Effects

/-- The data of one more segment that will be dropped. -/
theorem Dropping.cons {store : ColumnarStore} {gone : List Place} {ids : List String}
    (dropping : Dropping store gone ids) {seg : SegmentMeta} {place : Place}
    (drops : seg ∈ store.catalog.segments ∧ seg.id ∈ ids) (path : place.path = seg.path) :
    Dropping store (place :: gone) ids := by
  intro other member
  rcases List.mem_cons.mp member with rfl | old
  · exact ⟨seg, drops.1, drops.2, path⟩
  · exact dropping other old

/-! ## One effect of each task -/

section Advance

variable {json : JsonText} {m : Machine} {written : Files} {write : Write} {seg : SegmentMeta}
  {rest todo : List SegmentMeta} {gone : List Place} {ids : List String}

theorem Safe.create (safe : Safe m.store written []) (fate : Fate)
    (knows : Knows json m.store written (.create write)) :
    (Process.advance json m written (.create write) fate).Holds json := by
  by_cases empty : write.events.isEmpty
  · rw [Process.advance, Task.step, if_pos empty]
    exact safe
  · have unlisted : Unlisted m.store write.id :=
      knows fun nothing => empty (List.isEmpty_iff.mpr nothing)
    have apart : ∀ s, s ∈ m.store.catalog.segments ∨ s ∈ m.store.catalog.persisted →
        s.place ≠ .file (m.store.segmentPath write.id) := by
      intro s member same
      have id := (safe.entry member).file same
      rcases member with inMemory | inFile
      · exact unlisted.1 (List.mem_map.mpr ⟨s, inMemory, id⟩)
      · exact unlisted.2 (List.mem_map.mpr ⟨s, inFile, id⟩)
    have created : Safe (m.createFile (m.store.segmentPath write.id)
        (eventsToBatch json write.events) fate).store written [] := by
      refine safe.frame ?_ ?_ (fun _ member => member) fun s member rows isWritten found => ?_
      · cases fate <;> exact ⟨rfl, rfl⟩
      · cases fate <;> rfl
      · rw [rowsAt_createFile_ne fate (apart s member)]
        exact Or.inr ⟨isWritten, found⟩
    rw [Process.advance, Task.step, if_neg empty]
    cases fate with
    | done => exact ⟨created, unlisted, rowsAt_createFile _ _ _⟩
    | refused => exact created
    | broken => exact created

theorem Safe.register (safe : Safe m.store written []) (fate : Fate)
    (knows : Knows json m.store written (.register write)) :
    (Process.advance json m written (.register write) fate).Holds json := by
  rcases knows with ⟨unlisted, rows⟩
  have older : ∀ segments : List SegmentMeta, write.id ∉ segments.map SegmentMeta.id →
      Listed m.store written [] segments →
      Listed m.store (written.insert write.id (eventsToBatch json write.events)) [] segments := by
    intro segments isNew listed
    refine listed.frame ⟨rfl,
      rfl⟩ (fun _ member => member) fun s member rows isWritten found => ?_
    rw [AList.lookup_insert_ne fun same => isNew (List.mem_map.mpr ⟨s, member, same⟩)]
    exact Or.inr ⟨isWritten, found⟩
  have memory := older _ unlisted.1 safe.memory
  have place : (write.segment m.store).place = .file (m.store.segmentPath write.id) := rfl
  have added : Listed m.store (written.insert write.id (eventsToBatch json write.events)) []
      (m.store.catalog.segments ++ [write.segment m.store]) := by
    refine ⟨?_, fun s member => ?_, fun s member => ?_⟩
    · rw [List.map_append, List.nodup_append]
      refine ⟨memory.distinct, List.nodup_singleton _, fun id inMemory other isNew same => ?_⟩
      rw [same, List.mem_singleton.mp isNew] at inMemory
      exact unlisted.1 inMemory
    · rcases List.mem_append.mp member with old | isNew
      · exact memory.entry s old
      · rw [List.mem_singleton.mp isNew]
        exact ⟨⟨write.now, rfl⟩, Or.inl place⟩
    · rcases List.mem_append.mp member with old | isNew
      · exact memory.backed s old
      · rw [List.mem_singleton.mp isNew]
        exact Or.inr ⟨_, AList.lookup_insert _, rows⟩
  have saved := Safe.save added fate fun _ => older _ unlisted.2 safe.file
  rw [Process.advance, Task.step]
  cases fate <;> exact saved

theorem Safe.age (safe : Safe m.store written []) (fate : Fate) (now maxWarmAge : Int) :
    (Process.advance json m written (.age now maxWarmAge) fate).Holds json := by
  rw [Process.advance, Task.step]
  by_cases detached : m.store.archive.isNone
  · rw [if_pos detached]
    exact safe
  · rw [if_neg detached]
    refine ⟨safe, ?_, ?_, fun s member => ?_⟩
    · rw [← Option.not_isNone, Bool.eq_false_of_not_eq_true detached]
      rfl
    · exact safe.memory.distinct.sublist (List.filter_sublist.map _)
    · have both := List.mem_filter.mp member
      exact ⟨both.1, (of_decide_eq_true both.2).1⟩

theorem Safe.read (safe : Safe m.store written []) (fate : Fate)
    (knows : Knows json m.store written (.read rest)) :
    (Process.advance json m written (.read rest) fate).Holds json := by
  have aged : Aged m.store rest := knows
  cases rest with
  | nil => exact safe
  | cons seg rest =>
      rw [Process.advance, Task.step]
      cases found : m.store.files.lookup seg.path with
      | none => exact safe
      | some data =>
          refine ⟨safe, aged, ?_⟩
          rcases aged.listed seg List.mem_cons_self with ⟨isListed, warm⟩
          rcases safe.memory.backed seg isListed with isGone | ⟨rows, isWritten, stored⟩
          · exact absurd isGone List.not_mem_nil
          · rw [place_of_warm warm] at stored
            have same : m.store.files.lookup seg.path = some rows := stored
            rw [found] at same
            exact isWritten.trans same.symm

/-- Uploading the rows of a segment keeps every list. -/
theorem Listed.putObject {data : List Row} {segments : List SegmentMeta} {written : Files}
    (listed : Listed m.store written gone segments) (named : ∃ now, seg.id = ulidLike now)
    (attached : m.store.archive.isSome = true) (isData : written.lookup seg.id = some data)
    (fate : Fate) :
    Listed (m.putObject (m.store.key seg.id) data fate).store written gone segments := by
  rcases named with ⟨now, id⟩
  refine listed.frame ?_ (fun _ member => member) fun s member rows isWritten found => ?_
  · cases fate with
    | done => exact sameNames_setObjects _
    | refused => exact ⟨rfl, rfl⟩
    | broken => exact sameNames_setObjects _
  · by_cases same : s.place = .object (m.store.key seg.id)
    · -- the object is written with the rows that it should have
      by_cases refused : fate = .refused
      · rw [refused]
        exact Or.inr ⟨isWritten, found⟩
      · have sameId : s.id = seg.id := by
          rw [id] at same ⊢
          exact (listed.entry s member).object same
        rw [sameId, isData] at isWritten
        rw [sameId, same, rowsAt_putObject attached fate refused, isData]
        exact Or.inr ⟨isWritten, isWritten⟩
    · rw [rowsAt_putObject_ne fate same]
      exact Or.inr ⟨isWritten, found⟩

theorem Safe.put {data : List Row} (safe : Safe m.store written []) (fate : Fate)
    (knows : Knows json m.store written (.put seg data rest)) :
    (Process.advance json m written (.put seg data rest) fate).Holds json := by
  rcases knows with ⟨aged, isData⟩
  have named := (safe.memory.entry seg (aged.listed seg List.mem_cons_self).1).1
  have memory := safe.memory.putObject named aged.attached isData fate
  have file := safe.file.putObject named aged.attached isData fate
  rw [Process.advance, Task.step]
  cases fate with
  | done =>
      refine ⟨⟨memory, file⟩, ⟨?_, aged.distinct, aged.listed⟩, data, isData, ?_⟩
      · exact (sameNames_setObjects _).attached.trans aged.attached
      · have key : (m.putObject (m.store.key seg.id) data .done).store.key seg.id =
            m.store.key seg.id := (sameNames_setObjects _).key seg.id
        exact (congrArg (fun key => ColumnarStore.rowsAt _ (.object key)) key).trans
          (rowsAt_putObject aged.attached .done fun failed => nomatch failed)
  | refused => exact ⟨memory, file⟩
  | broken => exact ⟨memory, file⟩

theorem Safe.relocate (safe : Safe m.store written []) (fate : Fate)
    (knows : Knows json m.store written (.relocate seg rest)) :
    (Process.advance json m written (.relocate seg rest) fate).Holds json := by
  rcases knows with ⟨aged, rows, isWritten, archived⟩
  rcases aged.listed seg List.mem_cons_self with ⟨isListed, _⟩
  have isKnown : seg.id ∈ m.store.catalog.segments.map SegmentMeta.id :=
    List.mem_map_of_mem isListed
  have entry := safe.memory.entry seg isListed
  have moved : Listed m.store written []
      (Catalog.migrate seg.id .cold (m.store.key seg.id) m.store.catalog.segments) := by
    refine ⟨?_, fun s member => ?_, fun s member => ?_⟩
    · rw [Catalog.migrate_ids]
      exact safe.memory.distinct
    · rcases Catalog.mem_migrate member with old | ⟨source, isSource, sameId, equal⟩
      · exact safe.memory.entry s old
      · rw [equal]
        refine ⟨(safe.memory.entry source isSource).1, Or.inr ⟨aged.attached, ?_⟩⟩
        exact congrArg (fun id => Place.object (m.store.key id)) sameId.symm
    · rcases Catalog.mem_migrate member with old | ⟨source, isSource, sameId, equal⟩
      · exact safe.memory.backed s old
      · rw [equal]
        refine Or.inr ⟨rows, ?_, archived⟩
        exact (congrArg (fun id => (written.lookup id : Option (List Row))) sameId).trans isWritten
  have saved := Safe.save moved fate fun _ => safe.file
  rw [Process.advance, Task.step, if_pos isKnown]
  cases fate with
  | done =>
      have apart : ∀ s, s ∈ Catalog.migrate seg.id .cold (m.store.key seg.id)
          m.store.catalog.segments → s.place ≠ .file seg.path := by
        intro s member same
        have samePath : s.path = seg.path := by
          rw [← place_path s, same]
          rfl
        have sameId := (moved.entry s member).same_id entry samePath
        have cold := (Catalog.moved_of_mem_migrate safe.memory.distinct member sameId).1
        rw [place_of_cold cold] at same
        cases same
      rcases List.nodup_cons.mp aged.distinct with ⟨isNew, distinct⟩
      refine ⟨saved, apart, apart, aged.attached, distinct, fun s member => ?_⟩
      rcases aged.listed s (List.mem_cons_of_mem _ member) with ⟨isOld, warm⟩
      refine ⟨Catalog.mem_migrate_of_ne isOld fun same => ?_, warm⟩
      exact isNew (List.mem_map.mpr ⟨s, member, same⟩)
  | refused => exact saved
  | broken => exact saved

theorem Safe.unlink (safe : Safe m.store written []) (fate : Fate)
    (knows : Knows json m.store written (.unlink seg rest)) :
    (Process.advance json m written (.unlink seg rest) fate).Holds json := by
  rcases knows with ⟨apartMemory, apartFile, aged⟩
  rw [Process.advance, Task.step]
  refine ⟨?_, ?_⟩
  · refine safe.frame ?_ ?_ (fun _ member => member) fun s member rows isWritten found => ?_
    · cases fate <;> exact ⟨rfl, rfl⟩
    · cases fate <;> rfl
    · have apart : s.place ≠ .file seg.path := member.elim (apartMemory s) (apartFile s)
      rw [rowsAt_removeFile_ne fate apart]
      exact Or.inr ⟨isWritten, found⟩
  · cases fate <;> exact ⟨aged.attached, aged.distinct, aged.listed⟩

theorem Safe.expire (safe : Safe m.store written []) (fate : Fate) (now maxAge : Int) :
    (Process.advance json m written (.expire now maxAge) fate).Holds json := by
  refine ⟨safe, fun place member => absurd member List.not_mem_nil, fun s member => ?_⟩
  have isExpired : s ∈ m.store.catalog.expired now maxAge := by
    split at member
    · exact List.mem_of_mem_filter member
    · exact absurd member List.not_mem_nil
  exact ⟨List.mem_of_mem_filter isExpired, List.mem_map_of_mem isExpired⟩

theorem Safe.delete (safe : Safe m.store written gone) (fate : Fate)
    (knows : Knows json m.store written (.delete gone todo ids))
    (tolerates : (Task.delete gone todo ids).Tolerates m.store fate) :
    (Process.advance json m written (.delete gone todo ids) fate).Holds json := by
  rcases knows with ⟨dropping, listed⟩
  cases todo with
  | nil => exact ⟨safe, dropping⟩
  | cons seg todo =>
      rw [Process.advance, Task.step]
      rcases tolerates with rfl | ⟨rfl, nothing⟩
      · refine ⟨?_, dropping.cons (listed seg List.mem_cons_self) rfl,
          fun s member => listed s (List.mem_cons_of_mem _ member)⟩
        refine safe.frame (sameNames_setObjects _) rfl (fun _ member =>
          List.mem_cons_of_mem _ member)
          fun s member rows isWritten found => ?_
        by_cases same : s.place = .object seg.path
        · rw [same]
          exact Or.inl List.mem_cons_self
        · rw [rowsAt_deleteObject_ne .done same]
          exact Or.inr ⟨isWritten, found⟩
      · rw [nothing] at safe
        exact safe

theorem Safe.remove (safe : Safe m.store written gone) (fate : Fate)
    (knows : Knows json m.store written (.remove gone ids)) :
    (Process.advance json m written (.remove gone ids) fate).Holds json := by
  have dropping : Dropping m.store gone ids := knows
  rw [Process.advance, Task.step]
  split
  · next nothing =>
      have kept : gone = [] := by
        apply List.eq_nil_iff_forall_not_mem.mpr
        intro place member
        rcases dropping place member with ⟨s, isListed, isDropped, _⟩
        have inFilter : s ∈ m.store.catalog.segments.filter fun s => s.id ∈ ids :=
          List.mem_filter.mpr ⟨isListed, decide_eq_true isDropped⟩
        rw [List.isEmpty_iff.mp nothing] at inFilter
        exact absurd inFilter List.not_mem_nil
      rw [kept] at safe
      exact safe
  · refine ⟨safe, dropping, fun s member => ?_⟩
    have both := List.mem_filter.mp member
    exact ⟨both.1, of_decide_eq_true both.2⟩

theorem Safe.unlinkEach (safe : Safe m.store written gone) (fate : Fate)
    (knows : Knows json m.store written (.unlinkEach gone todo ids)) :
    (Process.advance json m written (.unlinkEach gone todo ids) fate).Holds json := by
  rcases knows with ⟨dropping, listed⟩
  cases todo with
  | nil => exact ⟨safe, dropping⟩
  | cons seg todo =>
      have later : ∀ s, s ∈ todo → s ∈ m.store.catalog.segments ∧ s.id ∈ ids :=
        fun s member => listed s (List.mem_cons_of_mem _ member)
      rw [Process.advance, Task.step]
      cases fate with
      | done =>
          refine ⟨?_, dropping.cons (listed seg List.mem_cons_self) rfl, later⟩
          refine safe.frame ⟨rfl, rfl⟩ rfl (fun _ member => List.mem_cons_of_mem _ member)
            fun s member rows isWritten found => ?_
          by_cases same : s.place = .file seg.path
          · rw [same]
            exact Or.inl List.mem_cons_self
          · rw [rowsAt_removeFile_ne .done same]
            exact Or.inr ⟨isWritten, found⟩
      | refused => exact ⟨safe, dropping, later⟩
      | broken => exact ⟨safe, dropping, later⟩

theorem Safe.forget (safe : Safe m.store written gone) (fate : Fate)
    (knows : Knows json m.store written (.forget gone ids))
    (tolerates : (Task.forget gone ids).Tolerates m.store fate) :
    (Process.advance json m written (.forget gone ids) fate).Holds json := by
  have dropping : Dropping m.store gone ids := knows
  have kept : Listed m.store written []
      (m.store.catalog.segments.filter fun s => s.id ∉ ids) := by
    refine (safe.memory.sublist List.filter_sublist).unnamed fun s member isGone => ?_
    have both := List.mem_filter.mp member
    rcases dropping _ isGone with ⟨other, isListed, isDropped, path⟩
    rw [place_path] at path
    have sameId := (safe.memory.entry s both.1).same_id (safe.memory.entry other isListed) path
    rw [← sameId] at isDropped
    exact of_decide_eq_true both.2 isDropped
  have saved := Safe.save kept fate fun refused => safe.file.unnamed (tolerates refused)
  rw [Process.advance, Task.step]
  cases fate <;> exact saved

end Advance

/-! ## Runs -/

section Runs

variable {json : JsonText} {coldDir : String} {archive : Option ObjectColdStore} {s s' : Process}
  {event : ProcessEvent}

theorem Process.Holds.effect {m : Machine} {written : Files} {task : Task} {fate : Fate}
    (safe : Safe m.store written task.gone) (knows : Knows json m.store written task)
    (tolerates : task.Tolerates m.store fate) :
    (Process.advance json m written task fate).Holds json := by
  cases task with
  | create write => exact safe.create fate knows
  | register write => exact safe.register fate knows
  | age now maxWarmAge => exact safe.age fate now maxWarmAge
  | read aged => exact safe.read fate knows
  | put seg data rest => exact safe.put fate knows
  | relocate seg rest => exact safe.relocate fate knows
  | unlink seg rest => exact safe.unlink fate knows
  | expire now maxAge => exact safe.expire fate now maxAge
  | delete gone todo ids => exact safe.delete fate knows tolerates
  | remove gone ids => exact safe.remove fate knows
  | unlinkEach gone todo ids => exact safe.unlinkEach fate knows
  | forget gone ids => exact safe.forget fate knows tolerates

theorem Process.Holds.step (holds : s.Holds json) (careful : s.Careful event)
    (step : s.step json event = some s') : s'.Holds json := by
  rcases s with ⟨m, phase, written⟩
  cases event with
  | begin call =>
      cases phase with
      | idle =>
          cases step
          have safe : Safe m.store written [] := holds
          cases call with
          | writeSegment write => exact ⟨safe, careful⟩
          | migrateWarm now maxWarmAge => exact ⟨safe, trivial⟩
          | enforceRetention now maxAge => exact ⟨safe, trivial⟩
      | stopped => cases step
      | busy task => cases step
  | effect fate =>
      cases phase with
      | busy task =>
          cases step
          exact Process.Holds.effect holds.1 holds.2 careful
      | stopped => cases step
      | idle => cases step
  | stop =>
      cases phase with
      | stopped => cases step
      | idle =>
          cases step
          have safe : Safe m.store written [] := holds
          exact safe.file
      | busy task =>
          cases step
          exact holds.1.file.unnamed careful
  | reopen =>
      cases phase with
      | stopped =>
          have listed : Listed m.store written [] m.store.catalog.persisted := holds
          rw [Process.step] at step
          dsimp only at step
          split at step
          · cases step
          · cases step
            exact listed.reopen
      | idle => cases step
      | busy task => cases step

theorem Process.Holds.listed (holds : s.Holds json) (rests : s.AtRest) :
    Listed s.machine.store s.written [] s.machine.store.catalog.persisted := by
  rcases s with ⟨m, phase, written⟩
  cases phase with
  | stopped => exact holds
  | idle =>
      have safe : Safe m.store written [] := holds
      exact safe.file
  | busy task => exact absurd rfl (rests task)

/-- Where every listed segment can be read, so can every range. -/
theorem exists_readRange {store : ColumnarStore}
    (readable : ∀ seg, seg ∈ store.catalog.segments → ∃ rows, store.readRows seg = .ok rows)
    (start stop : Int) : ∃ events, store.readRange json start stop = .ok events := by
  have each : List.Forall₂ (fun seg (_ : SegmentMeta) => ∃ events,
      store.readInRange json start stop seg = .ok events ∧ True)
      (store.catalog.overlapping start stop) (store.catalog.overlapping start stop) := by
    apply List.forall₂_same.mpr
    intro seg member
    rcases readable seg (List.mem_of_mem_filter member) with ⟨rows, read⟩
    refine ⟨inRange start stop (batchIntoEvents json rows), ?_, trivial⟩
    rw [ColumnarStore.readInRange, read]
    rfl
  rcases Pointwise.exists_mapM each with ⟨parts, equal, _⟩
  refine ⟨parts.flatten, ?_⟩
  rw [ColumnarStore.readRange, equal]
  rfl

theorem holds_of_careful
    (run : ((lives json coldDir archive).restrict Process.Careful).Reachable s) : s.Holds json := by
  refine run.invariant (Process.Holds json) ?_ ?_
  · rintro _ rfl
    exact ⟨Listed.nil _ _ _, Listed.nil _ _ _⟩
  · rintro before event after holds ⟨careful, step⟩
    exact holds.step careful step

/-- In a run whose steps are careful, whenever no call is under way every segment of the
catalog file has its rows, and the reopened store reads every range. -/
theorem careful_backed
    (run : ((lives json coldDir archive).restrict Process.Careful).Reachable s)
    (rests : s.AtRest) :
    s.Backed ∧ ∀ start stop, ∃ events,
      s.machine.store.reopen.readRange json start stop = .ok events := by
  have listed := (holds_of_careful run).listed rests
  have backed : s.Backed := by
    intro seg member
    rcases listed.backed seg member with isGone | ⟨rows, isWritten, found⟩
    · exact absurd isGone List.not_mem_nil
    · exact ⟨rows, isWritten, readRows_of_rowsAt found⟩
  refine ⟨backed, exists_readRange fun seg member => ?_⟩
  rcases backed seg member with ⟨rows, _, read⟩
  exact ⟨rows, read⟩

/-- A batch is written and archived. -/
def archived : List ProcessEvent :=
  [.begin (.writeSegment (oneEvent "a" 7)), .effect .done, .effect .done,
    .begin (.migrateWarm 500 50), .effect .done, .effect .done, .effect .done, .effect .done,
    .effect .refused, .effect .done]

/-- A retention call deletes the object and does not reach the catalog. -/
def interrupted : List ProcessEvent :=
  archived ++ [.begin (.enforceRetention 600 300), .effect .done, .effect .done, .stop]

/-- The same call fails on the object, and the store is opened again. -/
def repeated : List ProcessEvent :=
  archived ++ [.begin (.enforceRetention 600 300), .effect .done, .effect .refused, .stop, .reopen]

theorem not_backed :
    ¬ ∀ json coldDir archive s, (lives json coldDir archive).Reachable s → s.AtRest →
      s.Backed := by
  intro always
  have lost : ((TransitionSystem.follow (Process.step plainJson)
      (.start "cold" (some { keyStart := "segments", objects := ∅ })) interrupted).map fun s =>
        (match s.phase with | .busy _ => true | _ => false,
          s.machine.store.catalog.persisted.any fun seg =>
            (s.machine.store.readRows seg).toOption.isNone)) = some (false, true) := by
    decide +kernel
  rcases Option.map_eq_some_iff.mp lost with ⟨s, followed, equal⟩
  rcases List.any_eq_true.mp (Prod.mk.inj equal).2 with ⟨seg, listed, missing⟩
  have run :
      (lives plainJson "cold" (some { keyStart := "segments", objects := ∅ })).Reachable s :=
    ⟨_, rfl, TransitionSystem.Reaches.of_follow (fun _ _ _ step => step) followed⟩
  have rests : s.AtRest := by
    intro task busy
    rw [busy] at equal
    cases equal
  rcases always _ _ _ s run rests seg listed with ⟨rows, _, read⟩
  rw [read] at missing
  cases missing

theorem careful_backed_repeated :
    ∃ s, TransitionSystem.follow (TransitionSystem.guarded Process.Careful
      (Process.step plainJson))
        (.start "cold" (some { keyStart := "segments", objects := ∅ })) repeated = some s ∧
      s.machine.store.catalog.persisted.map SegmentMeta.tier = [.cold] ∧
      s.Backed ∧ ∀ start stop, ∃ events,
        s.machine.store.reopen.readRange plainJson start stop = .ok events := by
  have careful : ((TransitionSystem.follow
      (TransitionSystem.guarded Process.Careful (Process.step plainJson))
      (.start "cold" (some { keyStart := "segments", objects := ∅ })) repeated).map fun s =>
        (match s.phase with | .busy _ => true | _ => false,
          s.machine.store.catalog.persisted.map SegmentMeta.tier)) = some (false, [.cold]) := by
    decide +kernel
  rcases Option.map_eq_some_iff.mp careful with ⟨s, followed, equal⟩
  have rests : s.AtRest := by
    intro task busy
    rw [busy] at equal
    cases equal
  have run : ((lives plainJson "cold"
      (some { keyStart := "segments", objects := ∅ })).restrict Process.Careful).Reachable s :=
    ⟨_, rfl, TransitionSystem.Reaches.of_guarded (fun _ _ _ step => step) followed⟩
  exact ⟨s, followed, (Prod.mk.inj equal).2, careful_backed run rests⟩

end Runs

end Index
end Sigil
