import Sigil.Index.Lifecycle
import Sigil.Library.Transition

namespace Sigil
namespace Index

/-!
# Interleaved calls that succeed

Any number of calls run at the same time, one effect of one of them after the other.
Beside the store a ledger keeps what the calls are for: the batches that have been
registered and the identifiers that a retention call has found expired.  Migration is not
in the ledger.  Whenever no call is in flight, a range shows exactly what the ledger holds.
-/

open Sigil.Core Library

/-- What the store is for, with the times that calls have taken as identifiers. -/
structure Ledger where
  claimed : List Int64
  written : List Write
  expired : List String

/-- The times that a task takes as identifiers. -/
def Task.claims : Task → List Int64
  | .create write => if write.events.isEmpty then [] else [write.now]
  | .register write => [write.now]
  | _ => []

namespace Ledger

/-- No call has taken one of the times. -/
def Free (ledger : Ledger) (times : List Int64) : Prop :=
  ∀ now, now ∈ times → now ∉ ledger.claimed

instance (ledger : Ledger) (times : List Int64) : Decidable (ledger.Free times) :=
  List.decidableBAll (fun now => now ∉ ledger.claimed) times

/-- Registering writes a batch, and a retention call finds what is too old. -/
def note (ledger : Ledger) : Task → Ledger
  | .register write => { ledger with written := ledger.written ++ [write] }
  | .expire now maxAge =>
      { ledger with
        expired := ledger.expired ++
          (ledger.written.filter fun write => maxAge < toI64 (now - write.maxTs)).map Write.id }
  | _ => ledger

/-- The batches that no retention call has found expired. -/
def live (ledger : Ledger) : List Write :=
  ledger.written.filter fun write => write.id ∉ ledger.expired

/-- The events of the live batches in a range, as they come back from the store. -/
def inRange (json : JsonText) (ledger : Ledger) (start stop : Int) : List Event :=
  ledger.live.flatMap fun write => Index.inRange start stop (write.events.map (stored json))

end Ledger

/-- The store, the calls in flight and the ledger. -/
structure Concurrent where
  machine : Machine
  tasks : List Task
  ledger : Ledger

/-- A call begins, or one of the calls in flight makes its next effect. -/
inductive WorkEvent where
  | begin (call : Call)
  | advance (number : Nat)

/-- What is in flight for a call after an effect. -/
def Progress.tasks : Progress → List Task
  | .finished => []
  | .failed => []
  | .more task => [task]

namespace Concurrent

/-- One event; no effect fails, and no two batches take the same identifier. -/
def step (json : JsonText) (s : Concurrent) : WorkEvent → Option Concurrent
  | .begin call =>
      if s.ledger.Free call.task.claims then
        some
          { s with
            tasks := call.task :: s.tasks
            ledger := { s.ledger with claimed := call.task.claims ++ s.ledger.claimed } }
      else none
  | .advance number =>
      match s.tasks[number]? with
      | none => none
      | some task =>
          match task.step json s.machine .done with
          | (_, .failed) => none
          | (machine, progress) =>
              some
                { machine := machine
                  tasks := progress.tasks ++ (s.tasks.take number ++ s.tasks.drop (number + 1))
                  ledger := s.ledger.note task }

/-- An empty store with an archive. -/
def start (coldDir : String) (archive : ObjectColdStore) : Concurrent where
  machine := { store := .new coldDir (some archive), torn := false }
  tasks := []
  ledger := { claimed := [], written := [], expired := [] }

end Concurrent

/-- The runs of interleaved calls. -/
def interleaving (json : JsonText) (coldDir : String) (archive : ObjectColdStore) :
    TransitionSystem Concurrent WorkEvent where
  init := fun s => s = .start coldDir archive
  step := fun before event after => before.step json event = some after

/-! ## Where the rows of a batch are -/

section Places

variable (json : JsonText) (store : ColumnarStore) (write : Write)

/-- The local file of a batch holds its rows. -/
def LocalRows : Prop :=
  store.files.lookup (store.segmentPath write.id) = some (eventsToBatch json write.events)

/-- The archive holds the rows of a batch. -/
def ArchivedRows : Prop :=
  ∃ archive, store.archive = some archive ∧
    archive.objects.lookup (store.key write.id) = some (eventsToBatch json write.events)

/-- An entry of the catalog describes a batch and names one of its two places. -/
structure Describes (seg : SegmentMeta) : Prop where
  id : seg.id = write.id
  minTs : seg.minTs = write.minTs
  maxTs : seg.maxTs = write.maxTs
  rows : seg.rows = write.events.length
  place : (seg.tier = .warm ∧ seg.path = store.segmentPath write.id) ∨
    (seg.tier = .cold ∧ seg.path = store.key write.id)

/-- The rows are where the entry says. -/
def Placed (seg : SegmentMeta) : Prop :=
  (seg.tier = .warm ∧ LocalRows json store write) ∨
    (seg.tier = .cold ∧ ArchivedRows json store write)

end Places

theorem readRows_of_placed {json : JsonText} {store : ColumnarStore} {write : Write}
    {seg : SegmentMeta} (describes : Describes store write seg)
    (placed : Placed json store write seg) :
    store.readRows seg = .ok (eventsToBatch json write.events) := by
  unfold ColumnarStore.readRows
  rcases placed with ⟨warm, rows⟩ | ⟨cold, archive, attached, rows⟩
  · have path : seg.path = store.segmentPath write.id := by
      rcases describes.place with ⟨_, path⟩ | ⟨cold, _⟩
      · exact path
      · rw [warm] at cold
        cases cold
    have found : store.files.lookup seg.path = some (eventsToBatch json write.events) :=
      (congrArg (fun path => (store.files.lookup path : Option (List Row))) path).trans rows
    simp only [warm]
    rw [found, Option.elim_some]
  · have path : seg.path = store.key write.id := by
      rcases describes.place with ⟨warm, _⟩ | ⟨_, path⟩
      · rw [cold] at warm
        cases warm
      · exact path
    have found : archive.objects.lookup seg.path = some (eventsToBatch json write.events) :=
      (congrArg (fun path => (archive.objects.lookup path : Option (List Row))) path).trans rows
    simp only [cold, attached]
    rw [found, Option.elim_some]

/-! ## The invariant -/

section Invariant

variable (json : JsonText) (store : ColumnarStore) (ledger : Ledger)

/-- A segment as it was listed while it was local. -/
def Snapshot (seg : SegmentMeta) : Prop :=
  ∃ write, write ∈ ledger.written ∧ seg.id = write.id ∧
    seg.path = store.segmentPath write.id

/-- What a task in flight knows. -/
def TaskSound : Task → Prop
  | .create _ => True
  | .register write => LocalRows json store write
  | .age _ _ => True
  | .read aged => ∀ seg, seg ∈ aged → Snapshot store ledger seg
  | .put seg data rest =>
      (∃ write, write ∈ ledger.written ∧ seg.id = write.id ∧
        seg.path = store.segmentPath write.id ∧ data = eventsToBatch json write.events) ∧
        ∀ seg, seg ∈ rest → Snapshot store ledger seg
  | .relocate seg rest =>
      (∃ write, write ∈ ledger.written ∧ seg.id = write.id ∧
        seg.path = store.segmentPath write.id ∧
        (write.id ∈ ledger.expired ∨ ArchivedRows json store write)) ∧
        ∀ seg, seg ∈ rest → Snapshot store ledger seg
  | .unlink seg rest =>
      (∃ write, write ∈ ledger.written ∧ seg.path = store.segmentPath write.id ∧
        ∀ entry, entry ∈ store.catalog.segments → entry.id = write.id →
        entry.tier = .cold) ∧
        ∀ seg, seg ∈ rest → Snapshot store ledger seg
  | .expire _ _ => True
  | .delete _ todo ids =>
      (∀ seg, seg ∈ todo → ∃ write, write ∈ ledger.written ∧
        seg.path = store.key write.id ∧
        write.id ∈ ledger.expired) ∧ ∀ id, id ∈ ids → id ∈ ledger.expired
  | .remove _ ids => ∀ id, id ∈ ids → id ∈ ledger.expired
  | .unlinkEach _ todo ids =>
      (∀ seg, seg ∈ todo → ∃ write, write ∈ ledger.written ∧
        (seg.path = store.segmentPath write.id ∨ seg.path = store.key write.id) ∧
        write.id ∈ ledger.expired) ∧ ∀ id, id ∈ ids → id ∈ ledger.expired
  | .forget _ ids => ∀ id, id ∈ ids → id ∈ ledger.expired

/-- The identifiers that a retention call is about to drop. -/
def Task.dropping : Task → List String
  | .delete _ _ ids => ids
  | .remove _ ids => ids
  | .unlinkEach _ _ ids => ids
  | .forget _ ids => ids
  | _ => []

/-- The catalog lists what has been registered, in that order, less what is gone; what is
gone has expired, and what has expired is gone or about to be dropped. -/
def Accounted (tasks : List Task) : Prop :=
  ∃ gone : List String,
    store.catalog.segments.map SegmentMeta.id =
      (ledger.written.map Write.id).filter (fun id => id ∉ gone) ∧
    (∀ id, id ∈ gone → id ∈ ledger.expired) ∧
    ∀ id, id ∈ ledger.expired → id ∈ gone ∨ ∃ task,
    task ∈ tasks ∧ id ∈ task.dropping

/-- The invariant of interleaved calls. -/
structure Sound (tasks : List Task) : Prop where
  attached : store.archive.isSome = true
  distinct : (tasks.flatMap Task.claims ++ ledger.written.map Write.now).Nodup
  claimed : ∀ now, now ∈ tasks.flatMap Task.claims ++ ledger.written.map Write.now →
    now ∈ ledger.claimed
  expired : ∀ id, id ∈ ledger.expired → ∃ write, write ∈ ledger.written ∧ id = write.id
  truthful : ∀ write, write ∈ ledger.written → ∀ rows : List Row,
    store.files.lookup (store.segmentPath write.id) = some rows →
      rows = eventsToBatch json write.events
  listed : ∀ seg, seg ∈ store.catalog.segments → ∃ write, write ∈ ledger.written ∧
    Describes store write seg ∧ (write.id ∈ ledger.expired ∨ Placed json store write seg)
  accounted : Accounted store ledger tasks
  tasks : ∀ task, task ∈ tasks → TaskSound json store ledger task

end Invariant

/-- What an effect of one task leaves to the others: `waiting` are the times of the
batches that others are writing. -/
structure Later (json : JsonText) (waiting : List Int64) (store : ColumnarStore) (ledger : Ledger)
    (store' : ColumnarStore) (ledger' : Ledger) : Prop where
  coldDir : store'.coldDir = store.coldDir
  attached : store'.archive.isSome = true
  key : ∀ id, store'.key id = store.key id
  claimed : ledger'.claimed = ledger.claimed
  written : ∀ write, write ∈ ledger.written → write ∈ ledger'.written
  expired : ∀ id, id ∈ ledger.expired → id ∈ ledger'.expired
  filed : ∀ write : Write, write.now ∈ waiting → LocalRows json store write →
    LocalRows json store' write
  truthful : ∀ write, write ∈ ledger.written → ∀ rows : List Row,
    store'.files.lookup (store.segmentPath write.id) = some rows →
      store.files.lookup (store.segmentPath write.id) = some rows ∨
        rows = eventsToBatch json write.events
  archived : ∀ write, write ∈ ledger.written → ArchivedRows json store write →
    write.id ∈ ledger'.expired ∨ ArchivedRows json store' write
  warm : ∀ write, write ∈ ledger.written → ∀ seg, seg ∈ store.catalog.segments →
    Describes store write seg → seg.tier = .warm → LocalRows json store write →
      write.id ∈ ledger'.expired ∨ LocalRows json store' write
  cold : ∀ write, write ∈ ledger.written →
    (∀ entry, entry ∈ store.catalog.segments → entry.id = write.id → entry.tier = .cold) →
      ∀ entry, entry ∈ store'.catalog.segments → entry.id = write.id → entry.tier = .cold

section Step

variable {json : JsonText} {store store' : ColumnarStore} {ledger ledger' : Ledger}
  {waiting : List Int64} {task : Task} {others : List Task}

theorem Later.segmentPath (later : Later json waiting store ledger store' ledger') (id : String) :
    store'.segmentPath id = store.segmentPath id := by
  rw [ColumnarStore.segmentPath, ColumnarStore.segmentPath, later.coldDir]

theorem Later.snapshot (later : Later json waiting store ledger store' ledger')
    {seg : SegmentMeta} (snapshot : Snapshot store ledger seg) : Snapshot store' ledger' seg := by
  rcases snapshot with ⟨write, member, id, path⟩
  exact ⟨write, later.written write member, id, path.trans (later.segmentPath _).symm⟩

theorem Later.describes (later : Later json waiting store ledger store' ledger') {write : Write}
    {seg : SegmentMeta} (describes : Describes store write seg) : Describes store' write seg where
  id := describes.id
  minTs := describes.minTs
  maxTs := describes.maxTs
  rows := describes.rows
  place := by
    rw [later.segmentPath, later.key]
    exact describes.place

/-- The effect of one task leaves what another one knows. -/
theorem TaskSound.later (sound : TaskSound json store ledger task)
    (later : Later json waiting store ledger store' ledger')
    (waits : ∀ now, now ∈ task.claims → now ∈ waiting) :
    TaskSound json store' ledger' task := by
  cases task with
  | create write => trivial
  | register write => exact later.filed write (waits _ List.mem_cons_self) sound
  | age now maxWarmAge => trivial
  | read aged => exact fun seg member => later.snapshot (sound seg member)
  | put seg data rest =>
      rcases sound with ⟨⟨write, member, id, path, rows⟩, aged⟩
      refine ⟨⟨write, later.written write member, id, ?_, rows⟩, fun seg inRest =>
        later.snapshot (aged seg inRest)⟩
      rw [later.segmentPath]
      exact path
  | relocate seg rest =>
      rcases sound with ⟨⟨write, member, id, path, archived⟩, aged⟩
      refine ⟨⟨write, later.written write member, id, ?_, ?_⟩, fun seg inRest =>
        later.snapshot (aged seg inRest)⟩
      · rw [later.segmentPath]
        exact path
      · rcases archived with expired | archived
        · exact Or.inl (later.expired _ expired)
        · exact later.archived write member archived
  | unlink seg rest =>
      rcases sound with ⟨⟨write, member, path, cold⟩, aged⟩
      refine ⟨⟨write, later.written write member, ?_, later.cold write member cold⟩,
        fun seg inRest => later.snapshot (aged seg inRest)⟩
      rw [later.segmentPath]
      exact path
  | expire now maxAge => trivial
  | delete gone todo ids =>
      refine ⟨fun seg inTodo => ?_, fun id member => later.expired id (sound.2 id member)⟩
      rcases sound.1 seg inTodo with ⟨write, member, path, expired⟩
      refine ⟨write, later.written write member, ?_, later.expired _ expired⟩
      rw [later.key]
      exact path
  | remove gone ids => exact fun id member => later.expired id (sound id member)
  | unlinkEach gone todo ids =>
      refine ⟨fun seg inTodo => ?_, fun id member => later.expired id (sound.2 id member)⟩
      rcases sound.1 seg inTodo with ⟨write, member, path, expired⟩
      refine ⟨write, later.written write member, ?_, later.expired _ expired⟩
      rw [later.segmentPath, later.key]
      exact path
  | forget gone ids => exact fun id member => later.expired id (sound id member)

/-- What the other tasks know is left to them. -/
theorem Sound.otherTask (sound : Sound json store ledger (task :: others))
    (later : Later json (others.flatMap Task.claims) store ledger store' ledger') {t : Task}
    (isOther : t ∈ others) : TaskSound json store' ledger' t := by
  refine (sound.tasks t (List.mem_cons_of_mem _ isOther)).later later fun now isClaim => ?_
  exact List.mem_flatMap.mpr ⟨t, isOther, isClaim⟩

/-- An identifier that is about to be dropped, but not by the first task. -/
theorem dropping_others (nothing : task.dropping = []) {id : String}
    (pending : ∃ t, t ∈ task :: others ∧ id ∈ t.dropping) :
    ∃ t, t ∈ others ∧ id ∈ t.dropping := by
  rcases pending with ⟨t, isTask, drops⟩
  rcases List.mem_cons.mp isTask with rfl | isOther
  · rw [nothing] at drops
    exact absurd drops List.not_mem_nil
  · exact ⟨t, isOther, drops⟩

theorem Accounted.keep (accounted : Accounted store ledger (task :: others))
    (segments : store'.catalog.segments = store.catalog.segments)
    (written : ledger'.written = ledger.written) (expired : ledger'.expired = ledger.expired)
    {next : List Task}
    (dropping : ∀ id, id ∈ task.dropping → ∃ t, t ∈ next ∧ id ∈ t.dropping) :
    Accounted store' ledger' (next ++ others) := by
  rcases accounted with ⟨gone, ids, isExpired, pending⟩
  refine ⟨gone, ?_, ?_, ?_⟩
  · rw [segments, written]
    exact ids
  · rw [expired]
    exact isExpired
  · intro id member
    rw [expired] at member
    rcases pending id member with isGone | ⟨t, isTask, drops⟩
    · exact Or.inl isGone
    · rcases List.mem_cons.mp isTask with rfl | isOther
      · rcases dropping id drops with ⟨t', isNext, drops'⟩
        exact Or.inr ⟨t', List.mem_append_left _ isNext, drops'⟩
      · exact Or.inr ⟨t, List.mem_append_right _ isOther, drops⟩

/-- An effect that registers nothing and changes no entry of the catalog. -/
theorem Sound.keep (sound : Sound json store ledger (task :: others))
    (later : Later json (others.flatMap Task.claims) store ledger store' ledger')
    (segments : store'.catalog.segments = store.catalog.segments)
    (written : ledger'.written = ledger.written) {next : List Task}
    (claims : List.Sublist (next.flatMap Task.claims) task.claims)
    (expired : ∀ id, id ∈ ledger'.expired → ∃ write,
      write ∈ ledger.written ∧ id = write.id)
    (accounted : Accounted store' ledger' (next ++ others))
    (facts : ∀ t, t ∈ next → TaskSound json store' ledger' t) :
    Sound json store' ledger' (next ++ others) := by
  have fewer : List.Sublist
      ((next ++ others).flatMap Task.claims ++ ledger'.written.map Write.now)
      ((task :: others).flatMap Task.claims ++ ledger.written.map Write.now) := by
    rw [written, List.flatMap_append, List.flatMap_cons]
    exact (claims.append_right _).append_right _
  refine
    { attached := later.attached
      distinct := sound.distinct.sublist fewer
      claimed := fun now member => ?_
      expired := fun id member => ?_
      truthful := fun write member rows found => ?_
      listed := fun seg member => ?_
      accounted := accounted
      tasks := fun t member => ?_ }
  · rw [later.claimed]
    exact sound.claimed now (fewer.subset member)
  · rw [written]
    exact expired id member
  · rw [written] at member
    rw [later.segmentPath] at found
    rcases later.truthful write member rows found with before | equal
    · exact sound.truthful write member rows before
    · exact equal
  · rw [segments] at member
    rcases sound.listed seg member with ⟨write, isWritten, describes, placed⟩
    refine ⟨write, later.written write isWritten, later.describes describes, ?_⟩
    rcases placed with isExpired | ⟨warm, rows⟩ | ⟨cold, rows⟩
    · exact Or.inl (later.expired _ isExpired)
    · exact (later.warm write isWritten seg member describes warm rows).imp_right fun rows =>
        Or.inl ⟨warm, rows⟩
    · exact (later.archived write isWritten rows).imp_right fun rows => Or.inr ⟨cold, rows⟩
  · rcases List.mem_append.mp member with isNext | isOther
    · exact facts t isNext
    · exact sound.otherTask later isOther

/-- An effect that leaves the store and the ledger as they are. -/
theorem Later.same (attached : store.archive.isSome = true) :
    Later json waiting store ledger store ledger where
  coldDir := rfl
  attached := attached
  key := fun _ => rfl
  claimed := rfl
  written := fun _ member => member
  expired := fun _ member => member
  filed := fun _ _ rows => rows
  truthful := fun _ _ _ found => Or.inl found
  archived := fun _ _ rows => Or.inr rows
  warm := fun _ _ _ _ _ _ rows => Or.inr rows
  cold := fun _ _ cold => cold

theorem Sound.replace (sound : Sound json store ledger (task :: others)) {next : List Task}
    (claims : List.Sublist (next.flatMap Task.claims) task.claims)
    (dropping : ∀ id, id ∈ task.dropping → ∃ t, t ∈ next ∧ id ∈ t.dropping)
    (facts : ∀ t, t ∈ next → TaskSound json store ledger t) :
    Sound json store ledger (next ++ others) :=
  sound.keep (Later.same sound.attached) rfl rfl claims sound.expired
    (sound.accounted.keep rfl rfl rfl dropping) facts

/-- An effect that leaves the catalog and the ledger, after which the task goes on as another
one that still drops what it has to drop. -/
theorem Sound.advance (sound : Sound json store ledger (task :: others))
    (later : Later json (others.flatMap Task.claims) store ledger store' ledger)
    (segments : store'.catalog.segments = store.catalog.segments) {next : Task}
    (claims : List.Sublist next.claims task.claims) (dropping : task.dropping ⊆ next.dropping)
    (fact : TaskSound json store' ledger next) :
    Sound json store' ledger ([next] ++ others) := by
  have single : List.Sublist ([next].flatMap Task.claims) task.claims := by
    rwa [List.flatMap_singleton]
  refine sound.keep later segments rfl single sound.expired ?_ ?_
  · refine sound.accounted.keep segments rfl rfl fun id member => ?_
    exact ⟨next, List.mem_singleton_self next, dropping member⟩
  · intro t member
    rw [List.mem_singleton.mp member]
    exact fact

/-- The task goes on with the store as it is. -/
theorem Sound.proceed (sound : Sound json store ledger (task :: others)) {next : Task}
    (claims : List.Sublist next.claims task.claims) (dropping : task.dropping ⊆ next.dropping)
    (fact : TaskSound json store ledger next) : Sound json store ledger ([next] ++ others) :=
  sound.advance (Later.same sound.attached) rfl claims dropping fact

theorem Sound.perm (sound : Sound json store ledger others) {tasks : List Task}
    (same : others.Perm tasks) : Sound json store ledger tasks where
  attached := sound.attached
  distinct := (((same.flatMap_right _).append_right _).nodup_iff).mp sound.distinct
  claimed := fun now member =>
    sound.claimed now ((((same.flatMap_right _).append_right _).mem_iff).mpr member)
  expired := sound.expired
  truthful := sound.truthful
  listed := sound.listed
  accounted := by
    rcases sound.accounted with ⟨gone, ids, isExpired, pending⟩
    refine ⟨gone, ids, isExpired, fun id member => (pending id member).imp_right ?_⟩
    rintro ⟨t, isTask, drops⟩
    exact ⟨t, same.mem_iff.mp isTask, drops⟩
  tasks := fun t member => sound.tasks t (same.mem_iff.mpr member)

/-- Registered batches with one identifier are one batch. -/
theorem Sound.write_unique (sound : Sound json store ledger others) {first second : Write}
    (isFirst : first ∈ ledger.written) (isSecond : second ∈ ledger.written)
    (same : first.now = second.now) : first = second :=
  List.inj_on_of_nodup_map (List.nodup_append.mp sound.distinct).2.1 isFirst isSecond same

/-- The batch that an entry describes is the one that has its identifier. -/
theorem Sound.describes_unique (sound : Sound json store ledger others) {first second : Write}
    {seg : SegmentMeta} (isFirst : first ∈ ledger.written) (isSecond : second ∈ ledger.written)
    (describes : Describes store first seg) (same : seg.id = second.id) : first = second :=
  sound.write_unique isFirst isSecond (ulidLike_injective (describes.id.symm.trans same))

/-- A batch that is being written has another identifier than the registered ones. -/
theorem Sound.fresh (sound : Sound json store ledger others) {now : Int64}
    (isClaim : now ∈ others.flatMap Task.claims) {write : Write}
    (member : write ∈ ledger.written) :
    now ≠ write.now :=
  (List.nodup_append.mp sound.distinct).2.2 now isClaim write.now (List.mem_map_of_mem member)

/-! ## One effect of each task -/

theorem lookup_insert_other (store : ColumnarStore) {first second : Write} (rows : List Row)
    (different : first.now ≠ second.now) :
    (store.files.insert (store.segmentPath first.id) rows).lookup (store.segmentPath second.id) =
      store.files.lookup (store.segmentPath second.id) :=
  AList.lookup_insert_ne fun same => different (segmentPath_injective same).symm

theorem lookup_erase_other (store : ColumnarStore) {path : String} {write : Write}
    (different : store.segmentPath write.id ≠ path) :
    (store.files.erase path).lookup (store.segmentPath write.id) =
      store.files.lookup (store.segmentPath write.id) :=
  AList.lookup_erase_ne different

/-- Removing a file leaves the files of the batches that have another path. -/
theorem Later.removeFile (attached : store.archive.isSome = true) {path : String}
    (waits : ∀ write : Write, write.now ∈ waiting → store.segmentPath write.id ≠ path)
    (warm : ∀ write, write ∈ ledger.written → ∀ seg, seg ∈ store.catalog.segments →
      Describes store write seg → seg.tier = .warm → store.segmentPath write.id = path →
        write.id ∈ ledger.expired) :
    Later json waiting store ledger { store with files := store.files.erase path } ledger where
  coldDir := rfl
  attached := attached
  key := fun _ => rfl
  claimed := rfl
  written := fun _ member => member
  expired := fun _ member => member
  filed := fun write isWaiting rows =>
    (lookup_erase_other store (waits write isWaiting)).trans rows
  truthful := fun write member rows found => by
    by_cases same : store.segmentPath write.id = path
    · rw [← same] at found
      exact absurd (found.symm.trans (AList.lookup_erase _ _)) (Option.some_ne_none rows)
    · exact Or.inl ((lookup_erase_other store same).symm.trans found)
  archived := fun _ _ rows => Or.inr rows
  warm := fun write member seg isListed describes isWarm rows => by
    by_cases same : store.segmentPath write.id = path
    · exact Or.inl (warm write member seg isListed describes isWarm same)
    · exact Or.inr ((lookup_erase_other store same).trans rows)
  cold := fun _ _ cold => cold

theorem Sound.create {write : Write} (nonempty : write.events.isEmpty = false)
    (sound : Sound json store ledger (.create write :: others)) :
    Sound json (store.createFile (store.segmentPath write.id)
      (eventsToBatch json write.events)) ledger ([.register write] ++ others) := by
  have claims : (Task.create write).claims = [write.now] :=
    if_neg (by rw [nonempty]; exact Bool.false_ne_true)
  have isClaim : write.now ∈ (Task.create write :: others).flatMap Task.claims := by
    rw [List.flatMap_cons, claims]
    exact List.mem_cons_self
  have registered : ∀ other, other ∈ ledger.written → write.now ≠ other.now :=
    fun other member => sound.fresh isClaim member
  have waits : ∀ other : Write, other.now ∈ others.flatMap Task.claims →
      write.now ≠ other.now := by
    intro other member same
    have distinct := (List.nodup_append.mp sound.distinct).1
    rw [List.flatMap_cons, claims] at distinct
    exact (List.nodup_cons.mp distinct).1 (same ▸ member)
  have later : Later json (others.flatMap Task.claims) store ledger
      (store.createFile (store.segmentPath write.id) (eventsToBatch json write.events)) ledger :=
    { coldDir := rfl
      attached := sound.attached
      key := fun _ => rfl
      claimed := rfl
      written := fun _ member => member
      expired := fun _ member => member
      filed := fun other member rows =>
        (lookup_insert_other store _ (waits other member)).trans rows
      truthful := fun other member rows found =>
        Or.inl ((lookup_insert_other store _ (registered other member)).symm.trans found)
      archived := fun _ _ rows => Or.inr rows
      warm := fun other member _ _ _ _ rows =>
        Or.inr ((lookup_insert_other store _ (registered other member)).trans rows)
      cold := fun _ _ cold => cold }
  refine sound.advance later rfl ?_ (List.nil_subset _) (AList.lookup_insert _)
  rw [claims]
  exact List.Sublist.refl _

theorem Sound.register {write : Write}
    (sound : Sound json store ledger (.register write :: others)) :
    Sound json
      { store with
        catalog := Catalog.save { store.catalog with
          segments := store.catalog.segments ++ [write.segment store] } }
      { ledger with written := ledger.written ++ [write] } others := by
  have isClaim : write.now ∈ (Task.register write :: others).flatMap Task.claims := by
    rw [List.flatMap_cons]
    exact List.mem_cons_self
  have registered : ∀ other, other ∈ ledger.written → write.now ≠ other.now :=
    fun other member => sound.fresh isClaim member
  have rows : LocalRows json store write := sound.tasks _ List.mem_cons_self
  have later : Later json (others.flatMap Task.claims) store ledger
      { store with
        catalog := Catalog.save { store.catalog with
          segments := store.catalog.segments ++ [write.segment store] } }
      { ledger with written := ledger.written ++ [write] } :=
    { coldDir := rfl
      attached := sound.attached
      key := fun _ => rfl
      claimed := rfl
      written := fun _ member => List.mem_append_left _ member
      expired := fun _ member => member
      filed := fun _ _ rows => rows
      truthful := fun _ _ _ found => Or.inl found
      archived := fun _ _ rows => Or.inr rows
      warm := fun _ _ _ _ _ _ rows => Or.inr rows
      cold := fun other member cold entry isListed same => by
        rcases List.mem_append.mp isListed with before | isNew
        · exact cold entry before same
        · rw [List.mem_singleton.mp isNew] at same
          exact absurd (ulidLike_injective same) (registered other member) }
  have again : List.Perm
      ((Task.register write :: others).flatMap Task.claims ++ ledger.written.map Write.now)
      (others.flatMap Task.claims ++ (ledger.written ++ [write]).map Write.now) := by
    rw [List.flatMap_cons, List.map_append, ← List.append_assoc, List.append_assoc]
    exact List.perm_append_comm
  refine
    { attached := sound.attached
      distinct := again.nodup_iff.mp sound.distinct
      claimed := fun now member => sound.claimed now (again.mem_iff.mpr member)
      expired := fun id member => ?_
      truthful := fun other member rows' found => ?_
      listed := fun seg member => ?_
      accounted := ?_
      tasks := fun t member => ?_ }
  · rcases sound.expired id member with ⟨other, isWritten, same⟩
    exact ⟨other, List.mem_append_left _ isWritten, same⟩
  · rcases List.mem_append.mp member with before | isNew
    · exact sound.truthful other before rows' found
    · rw [List.mem_singleton.mp isNew] at found ⊢
      exact Option.some.inj (found.symm.trans rows)
  · rcases List.mem_append.mp member with before | isNew
    · rcases sound.listed seg before with ⟨other, isWritten, describes, placed⟩
      exact ⟨other, List.mem_append_left _ isWritten, later.describes describes, placed⟩
    · rw [List.mem_singleton.mp isNew]
      refine ⟨write, List.mem_append_right _ List.mem_cons_self, ?_,
        Or.inr (Or.inl ⟨rfl, rows⟩)⟩
      exact ⟨rfl, rfl, rfl, rfl, Or.inl ⟨rfl, rfl⟩⟩
  · rcases sound.accounted with ⟨gone, ids, isExpired, pending⟩
    have stays : write.id ∉ gone := by
      intro isGone
      rcases sound.expired _ (isExpired _ isGone) with ⟨other, isWritten, same⟩
      exact registered other isWritten (ulidLike_injective same)
    refine ⟨gone, ?_, isExpired,
      fun id member => (pending id member).imp_right (dropping_others rfl)⟩
    change (store.catalog.segments ++ [write.segment store]).map SegmentMeta.id = _
    rw [List.map_append, List.map_append, List.filter_append, ids, List.map_singleton,
      List.map_singleton, List.filter_singleton, decide_eq_true stays]
    rfl
  · exact sound.otherTask later member

theorem Sound.age (now maxWarmAge : Int)
    (sound : Sound json store ledger (.age now maxWarmAge :: others)) :
    Sound json store ledger
      ([.read (store.catalog.segments.filter fun s =>
        s.tier = .warm ∧ maxWarmAge < toI64 (now - s.maxTs))] ++ others) := by
  refine sound.proceed (List.nil_sublist _) (List.nil_subset _) fun seg isAged => ?_
  have both := List.mem_filter.mp isAged
  have isWarm := (of_decide_eq_true both.2).1
  rcases sound.listed seg both.1 with ⟨write, isWritten, describes, _⟩
  rcases describes.place with ⟨_, path⟩ | ⟨cold, _⟩
  · exact ⟨write, isWritten, describes.id, path⟩
  · rw [isWarm] at cold
    cases cold

theorem Sound.read {seg : SegmentMeta} {rest : List SegmentMeta} {data : List Row}
    (found : store.files.lookup seg.path = some data)
    (sound : Sound json store ledger (.read (seg :: rest) :: others)) :
    Sound json store ledger ([.put seg data rest] ++ others) := by
  have aged : ∀ s, s ∈ seg :: rest → Snapshot store ledger s :=
    sound.tasks _ List.mem_cons_self
  rcases aged seg List.mem_cons_self with ⟨write, isWritten, id, path⟩
  refine sound.proceed (List.nil_sublist _) (List.nil_subset _)
    ⟨⟨write, isWritten, id, path, sound.truthful write isWritten data ?_⟩,
      fun s isRest => aged s (List.mem_cons_of_mem _ isRest)⟩
  exact (congrArg (fun path => (store.files.lookup path : Option (List Row))) path.symm).trans found

theorem key_setObjects (store : ColumnarStore) (change : Files → Files) (id : String) :
    ColumnarStore.key { store with
      archive := store.archive.map fun archive =>
        { archive with objects := change archive.objects } } id = store.key id := by
  unfold ColumnarStore.key
  rw [Option.map_map]
  rfl

theorem archivedRows_setObjects {change : Files → Files} {write : Write}
    {archive : ObjectColdStore} (attached : store.archive = some archive)
    (found : (change archive.objects).lookup (store.key write.id) =
      some (eventsToBatch json write.events)) :
    ArchivedRows json { store with
      archive := store.archive.map fun archive =>
        { archive with objects := change archive.objects } } write := by
  refine ⟨{ archive with objects := change archive.objects }, ?_, ?_⟩
  · rw [attached]
    rfl
  · rw [key_setObjects]
    exact found

/-- A change of the objects leaves the archived batches that it does not touch. -/
theorem Later.setObjects (attached : store.archive.isSome = true) {change : Files → Files}
    (keeps : ∀ write, write ∈ ledger.written → ∀ archive, store.archive = some archive →
      archive.objects.lookup (store.key write.id) = some (eventsToBatch json write.events) →
        write.id ∈ ledger.expired ∨
          (change archive.objects).lookup (store.key write.id) =
            some (eventsToBatch json write.events)) :
    Later json waiting store ledger
      { store with
        archive := store.archive.map fun archive =>
          { archive with objects := change archive.objects } } ledger where
  coldDir := rfl
  attached := by
    rw [Option.isSome_map]
    exact attached
  key := key_setObjects store change
  claimed := rfl
  written := fun _ member => member
  expired := fun _ member => member
  filed := fun _ _ rows => rows
  truthful := fun _ _ _ found => Or.inl found
  archived := fun write member rows => by
    rcases rows with ⟨archive, equal, found⟩
    exact (keeps write member archive equal found).imp_right (archivedRows_setObjects equal)
  warm := fun _ _ _ _ _ _ rows => Or.inr rows
  cold := fun _ _ cold => cold

theorem Sound.put {seg : SegmentMeta} {rest : List SegmentMeta} {data : List Row}
    (sound : Sound json store ledger (.put seg data rest :: others)) :
    Sound json
      { store with
        archive := store.archive.map fun archive =>
          { archive with objects := archive.objects.insert (store.key seg.id) data } } ledger
      ([.relocate seg rest] ++ others) := by
  have knows : TaskSound json store ledger (.put seg data rest) :=
    sound.tasks _ List.mem_cons_self
  rcases knows with ⟨⟨write, isWritten, id, path, rows⟩, aged⟩
  have later : Later json (others.flatMap Task.claims) store ledger
      { store with
        archive := store.archive.map fun archive =>
          { archive with objects := archive.objects.insert (store.key seg.id) data } } ledger := by
    refine Later.setObjects sound.attached fun other member archive attached found => Or.inr ?_
    by_cases same : store.key other.id = store.key seg.id
    · rw [id] at same
      rw [id, rows,
        sound.write_unique member isWritten (ColumnarStore.key_injective sound.attached same)]
      exact AList.lookup_insert _
    · exact (AList.lookup_insert_ne same).trans found
  refine sound.advance later rfl (List.nil_sublist _) (List.nil_subset _)
    ⟨⟨write, isWritten, id, path, Or.inr ?_⟩,
      fun s isRest => later.snapshot (aged s isRest)⟩
  rcases Option.isSome_iff_exists.mp sound.attached with ⟨archive, attached⟩
  apply archivedRows_setObjects attached
  rw [id, rows]
  exact AList.lookup_insert _

theorem Sound.delete {gone : List Place} {seg : SegmentMeta} {todo : List SegmentMeta}
    {ids : List String}
    (sound : Sound json store ledger (.delete gone (seg :: todo) ids :: others)) :
    Sound json
      { store with
        archive := store.archive.map fun archive =>
          { archive with objects := archive.objects.erase seg.path } } ledger
      ([.delete (.object seg.path :: gone) todo ids] ++ others) := by
  have knows : TaskSound json store ledger (.delete gone (seg :: todo) ids) :=
    sound.tasks _ List.mem_cons_self
  rcases knows.1 seg List.mem_cons_self with ⟨write, isWritten, path, isExpired⟩
  have later : Later json (others.flatMap Task.claims) store ledger
      { store with
        archive := store.archive.map fun archive =>
          { archive with objects := archive.objects.erase seg.path } } ledger := by
    refine Later.setObjects sound.attached fun other member archive attached found => ?_
    by_cases same : store.key other.id = seg.path
    · rw [path] at same
      rw [sound.write_unique member isWritten (ColumnarStore.key_injective sound.attached same)]
      exact Or.inl isExpired
    · exact Or.inr ((AList.lookup_erase_ne same).trans found)
  refine sound.advance later rfl (List.nil_sublist _) (List.Subset.refl _)
    ⟨fun s inTodo => ?_, knows.2⟩
  rcases knows.1 s (List.mem_cons_of_mem _ inTodo) with ⟨other, isOther, otherPath, expired⟩
  exact ⟨other, isOther, otherPath.trans (later.key _).symm, expired⟩

theorem Sound.unlink {seg : SegmentMeta} {rest : List SegmentMeta}
    (sound : Sound json store ledger (.unlink seg rest :: others)) :
    Sound json { store with files := store.files.erase seg.path } ledger
      ([.read rest] ++ others) := by
  have knows : TaskSound json store ledger (.unlink seg rest) := sound.tasks _ List.mem_cons_self
  rcases knows with ⟨⟨write, isWritten, path, cold⟩, aged⟩
  have later : Later json (others.flatMap Task.claims) store ledger
      { store with files := store.files.erase seg.path } ledger := by
    refine Later.removeFile sound.attached (fun other isWaiting same => ?_)
      fun other member entry isListed describes isWarm same => ?_
    · rw [path] at same
      have claimed : other.now ∈ (Task.unlink seg rest :: others).flatMap Task.claims :=
        List.mem_append_right _ isWaiting
      exact sound.fresh claimed isWritten (segmentPath_injective same)
    · rw [path] at same
      have one := sound.write_unique member isWritten (segmentPath_injective same)
      have isCold := cold entry isListed (one ▸ describes.id)
      rw [isWarm] at isCold
      cases isCold
  exact sound.advance later rfl (List.nil_sublist _) (List.nil_subset _) fun s isRest =>
    later.snapshot (aged s isRest)

theorem Sound.unlinkEach {gone : List Place} {seg : SegmentMeta} {todo : List SegmentMeta}
    {ids : List String}
    (sound : Sound json store ledger (.unlinkEach gone (seg :: todo) ids :: others)) :
    Sound json { store with files := store.files.erase seg.path } ledger
      ([.unlinkEach (.file seg.path :: gone) todo ids] ++ others) := by
  have knows : TaskSound json store ledger (.unlinkEach gone (seg :: todo) ids) :=
    sound.tasks _ List.mem_cons_self
  rcases knows.1 seg List.mem_cons_self with ⟨write, isWritten, path, isExpired⟩
  -- the path of the entry belongs to no batch but its own, in either tier
  have own :
      ∀ other : Write, store.segmentPath other.id = seg.path → other.now = write.now := by
    intro other same
    rcases path with isLocal | isKey
    · rw [isLocal] at same
      exact segmentPath_injective same
    · rw [isKey] at same
      exact ColumnarStore.segmentPath_ne_key sound.attached same
  have later : Later json (others.flatMap Task.claims) store ledger
      { store with files := store.files.erase seg.path } ledger := by
    refine Later.removeFile sound.attached (fun other isWaiting same => ?_)
      fun other member entry isListed describes isWarm same => ?_
    · have claimed : other.now ∈
          (Task.unlinkEach gone (seg :: todo) ids :: others).flatMap Task.claims :=
        List.mem_append_right _ isWaiting
      exact sound.fresh claimed isWritten (own other same)
    · rw [sound.write_unique member isWritten (own other same)]
      exact isExpired
  exact sound.advance later rfl (List.nil_sublist _) (List.Subset.refl _)
    ⟨fun s inTodo => knows.1 s (List.mem_cons_of_mem _ inTodo), knows.2⟩

theorem Sound.ids_nodup (sound : Sound json store ledger others) :
    (store.catalog.segments.map SegmentMeta.id).Nodup := by
  rcases sound.accounted with ⟨gone, ids, _, _⟩
  have nows : (ledger.written.map Write.now).Nodup := (List.nodup_append.mp sound.distinct).2.1
  have written : (ledger.written.map Write.id).Nodup := by
    have mapped := nows.map fun _ _ same => ulidLike_injective same
    rwa [List.map_map] at mapped
  rw [ids]
  exact written.filter _

/-- The entry of a segment moves to the archive, where its rows are. -/
theorem Sound.relocate {seg : SegmentMeta} {rest : List SegmentMeta}
    (sound : Sound json store ledger (.relocate seg rest :: others)) :
    Sound json
      { store with
        catalog := Catalog.save { store.catalog with
          segments := Catalog.migrate seg.id .cold (store.key seg.id) store.catalog.segments } }
      ledger ([.unlink seg rest] ++ others) := by
  have knows : TaskSound json store ledger (.relocate seg rest) :=
    sound.tasks _ List.mem_cons_self
  rcases knows with ⟨⟨write, isWritten, id, path, archived⟩, aged⟩
  have later : Later json (others.flatMap Task.claims) store ledger
      { store with
        catalog := Catalog.save { store.catalog with
          segments := Catalog.migrate seg.id .cold (store.key seg.id) store.catalog.segments } }
      ledger :=
    { Later.same sound.attached with
      cold := fun other member cold entry isListed same => by
        rcases Catalog.mem_migrate isListed with old | ⟨_, _, _, equal⟩
        · exact cold entry old same
        · rw [equal] }
  refine
    { attached := sound.attached
      distinct := sound.distinct
      claimed := sound.claimed
      expired := sound.expired
      truthful := sound.truthful
      listed := fun entry member => ?_
      accounted := ?_
      tasks := fun t member => ?_ }
  · rcases Catalog.mem_migrate member with old | ⟨before, isListed, same, equal⟩
    · rcases sound.listed entry old with ⟨other, isOther, describes, placed⟩
      exact ⟨other, isOther, later.describes describes, placed⟩
    · rcases sound.listed before isListed with ⟨other, isOther, describes, _⟩
      have one := sound.describes_unique isOther isWritten describes (same.trans id)
      subst one
      rw [equal]
      refine ⟨other, isOther, ?_, archived.imp_right fun rows => Or.inr ⟨rfl, rows⟩⟩
      exact ⟨describes.id, describes.minTs, describes.maxTs, describes.rows,
        Or.inr ⟨rfl, congrArg store.key id⟩⟩
  · rcases sound.accounted with ⟨gone, ids, isExpired, pending⟩
    refine ⟨gone, (Catalog.migrate_ids _ _ _ _).trans ids, isExpired, fun id' member =>
      (pending id' member).imp_right fun pending => ?_⟩
    rcases dropping_others rfl pending with ⟨t, isOther, drops⟩
    exact ⟨t, List.mem_append_right _ isOther, drops⟩
  · rcases List.mem_append.mp member with isNext | isOther
    · rw [List.mem_singleton.mp isNext]
      refine ⟨⟨write, isWritten, path, fun entry isListed same => ?_⟩, aged⟩
      exact (Catalog.moved_of_mem_migrate sound.ids_nodup isListed (same.trans id.symm)).1
    · exact sound.otherTask later isOther

/-- A segment that is not listed any more cannot move. -/
theorem Sound.relocate_unknown {seg : SegmentMeta} {rest : List SegmentMeta}
    (unknown : seg.id ∉ store.catalog.segments.map SegmentMeta.id)
    (sound : Sound json store ledger (.relocate seg rest :: others)) :
    Sound json store ledger ([.unlink seg rest] ++ others) := by
  have knows : TaskSound json store ledger (.relocate seg rest) :=
    sound.tasks _ List.mem_cons_self
  rcases knows with ⟨⟨write, isWritten, id, path, _⟩, aged⟩
  refine sound.proceed (List.nil_sublist _) (List.nil_subset _)
    ⟨⟨write, isWritten, path, fun entry isListed same => ?_⟩, aged⟩
  exact absurd (List.mem_map.mpr ⟨entry, isListed, same.trans id.symm⟩) unknown

/-- The identifiers that a retention call finds are among the expired ones from then on. -/
theorem Sound.expire {now maxAge : Int}
    (sound : Sound json store ledger (.expire now maxAge :: others)) :
    Sound json store (ledger.note (.expire now maxAge))
      ([.delete [] ((store.catalog.expired now maxAge).filter fun s => s.tier = .cold)
        ((store.catalog.expired now maxAge).map SegmentMeta.id)] ++ others) := by
  have later : Later json (others.flatMap Task.claims) store ledger store
      (ledger.note (.expire now maxAge)) :=
    { Later.same sound.attached with
      expired := fun _ member => List.mem_append_left _ member
      archived := fun _ _ rows => Or.inr rows
      warm := fun _ _ _ _ _ _ rows => Or.inr rows }
  -- an entry that is too old describes a batch that is too old
  have found :
      ∀ seg, seg ∈ store.catalog.expired now maxAge → ∃ write, write ∈ ledger.written ∧
      Describes store write seg ∧ write.id ∈ (ledger.note (.expire now maxAge)).expired := by
    intro seg member
    have both := List.mem_filter.mp member
    rcases sound.listed seg both.1 with ⟨write, isWritten, describes, _⟩
    refine ⟨write, isWritten, describes, List.mem_append_right _ (List.mem_map_of_mem ?_)⟩
    have old := of_decide_eq_true both.2
    rw [describes.maxTs] at old
    exact List.mem_filter.mpr ⟨isWritten, decide_eq_true old⟩
  refine sound.keep later rfl rfl (List.nil_sublist _) ?_ ?_ ?_
  · intro id member
    rcases List.mem_append.mp member with before | isNew
    · exact sound.expired id before
    · rcases List.mem_map.mp isNew with ⟨write, isOld, rfl⟩
      exact ⟨write, (List.mem_filter.mp isOld).1, rfl⟩
  · rcases sound.accounted with ⟨gone, ids, isExpired, pending⟩
    refine ⟨gone, ids, fun id isGone => List.mem_append_left _ (isExpired id isGone), ?_⟩
    intro id member
    rcases List.mem_append.mp member with before | isNew
    · refine (pending id before).imp_right fun pending => ?_
      rcases dropping_others rfl pending with ⟨t, isOther, drops⟩
      exact ⟨t, List.mem_append_right _ isOther, drops⟩
    · rcases List.mem_map.mp isNew with ⟨write, isOld, rfl⟩
      have both := List.mem_filter.mp isOld
      by_cases isGone : write.id ∈ gone
      · exact Or.inl isGone
      · -- it is still listed, so the call has found its entry
        have isListed : write.id ∈ store.catalog.segments.map SegmentMeta.id := by
          rw [ids]
          exact List.mem_filter.mpr ⟨List.mem_map_of_mem both.1, decide_eq_true isGone⟩
        rcases List.mem_map.mp isListed with ⟨seg, isEntry, same⟩
        rcases sound.listed seg isEntry with ⟨other, isOther, describes, _⟩
        have one := sound.describes_unique isOther both.1 describes same
        refine Or.inr ⟨_, List.mem_cons_self, List.mem_map.mpr ⟨seg, ?_, same⟩⟩
        refine List.mem_filter.mpr ⟨isEntry, ?_⟩
        rw [describes.maxTs, one]
        exact both.2
  · intro t member
    rw [List.mem_singleton.mp member]
    refine ⟨fun seg isCold => ?_, fun id isFound => ?_⟩
    · have both := List.mem_filter.mp isCold
      rcases found seg both.1 with ⟨write, isWritten, describes, isExpired⟩
      rcases describes.place with ⟨warm, _⟩ | ⟨_, path⟩
      · have cold := of_decide_eq_true both.2
        rw [warm] at cold
        cases cold
      · exact ⟨write, isWritten, path, isExpired⟩
    · rcases List.mem_map.mp isFound with ⟨seg, isSeg, rfl⟩
      rcases found seg isSeg with ⟨write, _, describes, isExpired⟩
      rw [describes.id]
      exact isExpired

theorem Sound.remove {gone : List Place} {ids : List String}
    (sound : Sound json store ledger (.remove gone ids :: others)) :
    Sound json store ledger
      ([.unlinkEach gone (store.catalog.segments.filter fun s => s.id ∈ ids) ids] ++ others) := by
  have knows : TaskSound json store ledger (.remove gone ids) := sound.tasks _ List.mem_cons_self
  refine sound.proceed (List.nil_sublist _) (List.Subset.refl _) ⟨fun seg inTodo => ?_, knows⟩
  have both := List.mem_filter.mp inTodo
  rcases sound.listed seg both.1 with ⟨write, isWritten, describes, _⟩
  refine ⟨write, isWritten, describes.place.imp And.right And.right, ?_⟩
  rw [← describes.id]
  exact knows _ (of_decide_eq_true both.2)

/-- When nothing is listed under the identifiers, they are gone. -/
theorem Sound.remove_nothing {gone : List Place} {ids : List String}
    (nothing : (store.catalog.segments.filter fun s => s.id ∈ ids).isEmpty = true)
    (sound : Sound json store ledger (.remove gone ids :: others)) :
    Sound json store ledger ([] ++ others) := by
  refine sound.keep (Later.same sound.attached) rfl rfl (List.nil_sublist _) sound.expired ?_
    fun t member => absurd member List.not_mem_nil
  rcases sound.accounted with ⟨goneIds, same, isExpired, pending⟩
  refine ⟨goneIds, same, isExpired, fun id member => ?_⟩
  rcases pending id member with isGone | ⟨t, isTask, drops⟩
  · exact Or.inl isGone
  · rcases List.mem_cons.mp isTask with rfl | isOther
    · left
      by_contra stays
      rcases sound.expired id member with ⟨write, isWritten, rfl⟩
      have isListed : write.id ∈ store.catalog.segments.map SegmentMeta.id := by
        rw [same]
        exact List.mem_filter.mpr ⟨List.mem_map_of_mem isWritten, decide_eq_true stays⟩
      rcases List.mem_map.mp isListed with ⟨seg, isEntry, isId⟩
      have dropped : seg ∈ store.catalog.segments.filter fun s => s.id ∈ ids :=
        List.mem_filter.mpr ⟨isEntry, decide_eq_true (isId.symm ▸ drops)⟩
      rw [List.isEmpty_iff.mp nothing] at dropped
      exact absurd dropped List.not_mem_nil
    · exact Or.inr ⟨t, isOther, drops⟩

theorem Sound.forget {gone : List Place} {ids : List String}
    (sound : Sound json store ledger (.forget gone ids :: others)) :
    Sound json
      { store with
        catalog := Catalog.save { store.catalog with
          segments := store.catalog.segments.filter fun s => s.id ∉ ids } } ledger
      ([] ++ others) := by
  have knows : TaskSound json store ledger (.forget gone ids) := sound.tasks _ List.mem_cons_self
  have later : Later json (others.flatMap Task.claims) store ledger
      { store with
        catalog := Catalog.save { store.catalog with
          segments := store.catalog.segments.filter fun s => s.id ∉ ids } } ledger :=
    { Later.same sound.attached with
      cold := fun _ _ cold entry isListed same => cold entry (List.mem_filter.mp isListed).1 same }
  refine
    { attached := sound.attached
      distinct := sound.distinct
      claimed := sound.claimed
      expired := sound.expired
      truthful := sound.truthful
      listed := fun entry member => ?_
      accounted := ?_
      tasks := fun t member => ?_ }
  · rcases sound.listed entry (List.mem_filter.mp member).1 with
      ⟨write, isWritten, describes, placed⟩
    exact ⟨write, isWritten, later.describes describes, placed⟩
  · rcases sound.accounted with ⟨gone, same, isExpired, pending⟩
    refine ⟨ids ++ gone, ?_, fun id member => ?_, fun id member => ?_⟩
    · change (store.catalog.segments.filter fun s => s.id ∉ ids).map SegmentMeta.id = _
      have filtered : (store.catalog.segments.filter fun s => s.id ∉ ids).map SegmentMeta.id =
          (store.catalog.segments.map SegmentMeta.id).filter fun id => id ∉ ids := by
        rw [List.filter_map]
        rfl
      rw [filtered, same, List.filter_filter]
      apply List.filter_congr
      intro id _
      simp only [List.mem_append, not_or, Bool.decide_and]
    · rcases List.mem_append.mp member with isDropped | isGone
      · exact knows id isDropped
      · exact isExpired id isGone
    · rcases pending id member with isGone | ⟨t, isTask, drops⟩
      · exact Or.inl (List.mem_append_right _ isGone)
      · rcases List.mem_cons.mp isTask with rfl | isOther
        · exact Or.inl (List.mem_append_left _ drops)
        · exact Or.inr ⟨t, isOther, drops⟩
  · exact sound.otherTask later member

/-- Every effect that does not fail keeps the invariant. -/
theorem Sound.effect {m m' : Machine} {progress : Progress}
    (sound : Sound json m.store ledger (task :: others))
    (step : task.step json m .done = (m', progress)) (succeeds : progress ≠ .failed) :
    Sound json m'.store (ledger.note task) (progress.tasks ++ others) := by
  cases task with
  | create write =>
      rw [Task.step] at step
      split at step
      · cases step
        exact sound.replace (List.nil_sublist _) (fun id member => absurd member List.not_mem_nil)
          fun t member => absurd member List.not_mem_nil
      · next nonempty =>
          cases step
          exact sound.create (Bool.eq_false_iff.mpr nonempty)
  | register write =>
      cases step
      exact sound.register
  | age now maxWarmAge =>
      rw [Task.step] at step
      split at step
      · next detached =>
          have attached := sound.attached
          rw [Option.isNone_iff_eq_none.mp detached] at attached
          exact absurd attached Bool.false_ne_true
      · cases step
        exact sound.age now maxWarmAge
  | read aged =>
      cases aged with
      | nil =>
          cases step
          exact sound.replace (List.nil_sublist _) (fun id member => absurd member List.not_mem_nil)
            fun t member => absurd member List.not_mem_nil
      | cons seg rest =>
          rw [Task.step] at step
          split at step
          · cases step
            exact absurd rfl succeeds
          · next data found =>
              cases step
              exact sound.read found
  | put seg data rest =>
      cases step
      exact sound.put
  | relocate seg rest =>
      rw [Task.step] at step
      split at step
      · cases step
        exact sound.relocate
      · next unknown =>
          cases step
          exact sound.relocate_unknown unknown
  | unlink seg rest =>
      cases step
      exact sound.unlink
  | expire now maxAge =>
      rw [Task.step] at step
      rw [if_pos sound.attached] at step
      cases step
      exact sound.expire
  | delete gone todo ids =>
      cases todo with
      | nil =>
          cases step
          have knows : TaskSound json m.store ledger (.delete gone [] ids) :=
            sound.tasks _ List.mem_cons_self
          exact sound.proceed (List.nil_sublist _) (List.Subset.refl _) knows.2
      | cons seg todo =>
          cases step
          exact sound.delete
  | remove gone ids =>
      rw [Task.step] at step
      split at step
      · next nothing =>
          cases step
          exact sound.remove_nothing nothing
      · cases step
        exact sound.remove
  | unlinkEach gone todo ids =>
      cases todo with
      | nil =>
          cases step
          have knows : TaskSound json m.store ledger (.unlinkEach gone [] ids) :=
            sound.tasks _ List.mem_cons_self
          exact sound.proceed (List.nil_sublist _) (List.Subset.refl _) knows.2
      | cons seg todo =>
          cases step
          exact sound.unlinkEach
  | forget gone ids =>
      cases step
      exact sound.forget

end Step

/-! ## Runs -/

section Runs

variable {json : JsonText} {coldDir : String} {archive : ObjectColdStore} {s s' : Concurrent}

theorem Sound.begin {call : Call} (sound : Sound json s.machine.store s.ledger s.tasks)
    (fresh : ∀ now, now ∈ call.task.claims → now ∉ s.ledger.claimed) :
    Sound json s.machine.store
      { s.ledger with claimed := call.task.claims ++ s.ledger.claimed } (call.task :: s.tasks) := by
  have nodup : call.task.claims.Nodup := by
    cases call with
    | writeSegment write =>
        change (if write.events.isEmpty then [] else [write.now]).Nodup
        split
        · exact List.nodup_nil
        · exact List.nodup_singleton _
    | migrateWarm now maxWarmAge => exact List.nodup_nil
    | enforceRetention now maxAge => exact List.nodup_nil
  refine
    { attached := sound.attached
      distinct := ?_
      claimed := fun now member => ?_
      expired := sound.expired
      truthful := sound.truthful
      listed := sound.listed
      accounted := ?_
      tasks := fun t member => ?_ }
  · rw [List.flatMap_cons, List.append_assoc]
    refine List.nodup_append.mpr ⟨nodup, sound.distinct, fun now isNew other isOld same => ?_⟩
    exact fresh now isNew (sound.claimed now (same ▸ isOld))
  · rw [List.flatMap_cons, List.append_assoc] at member
    rcases List.mem_append.mp member with isNew | isOld
    · exact List.mem_append_left _ isNew
    · exact List.mem_append_right _ (sound.claimed now isOld)
  · rcases sound.accounted with ⟨gone, ids, isExpired, pending⟩
    refine ⟨gone, ids, isExpired, fun id member => (pending id member).imp_right ?_⟩
    rintro ⟨t, isTask, drops⟩
    exact ⟨t, List.mem_cons_of_mem _ isTask, drops⟩
  · rcases List.mem_cons.mp member with rfl | isOld
    · cases call <;> trivial
    · have old := sound.tasks t isOld
      cases t <;> exact old

/-- The task that makes an effect, and the others. -/
theorem perm_task {tasks : List Task} {number : Nat} {task : Task}
    (found : tasks[number]? = some task) :
    tasks.Perm (task :: (tasks.take number ++ tasks.drop (number + 1))) := by
  rcases List.getElem?_eq_some_iff.mp found with ⟨bound, isTask⟩
  have parts : tasks.take number ++ task :: tasks.drop (number + 1) = tasks := by
    rw [← isTask, List.getElem_cons_drop, List.take_append_drop]
  have moved : List.Perm (tasks.take number ++ task :: tasks.drop (number + 1))
      (task :: (tasks.take number ++ tasks.drop (number + 1))) :=
    List.perm_middle
  rwa [parts] at moved

theorem Sound.step {event : WorkEvent} (sound : Sound json s.machine.store s.ledger s.tasks)
    (step : s.step json event = some s') : Sound json s'.machine.store s'.ledger s'.tasks := by
  cases event with
  | begin call =>
      rw [Concurrent.step] at step
      split at step
      · next fresh =>
          cases step
          exact sound.begin fresh
      · cases step
  | advance number =>
      rw [Concurrent.step] at step
      split at step
      · cases step
      · next task found =>
          have order := perm_task found
          split at step
          · cases step
          · next machine progress succeeds result =>
              cases step
              exact (sound.perm order).effect result fun failed => succeeds failed

theorem sound_of_reachable (reachable : (interleaving json coldDir archive).Reachable s) :
    Sound json s.machine.store s.ledger s.tasks := by
  refine reachable.invariant (fun s => Sound json s.machine.store s.ledger s.tasks) ?_
    fun before event after sound step => sound.step step
  rintro _ rfl
  exact
    { attached := rfl
      distinct := List.nodup_nil
      claimed := fun now member => absurd member List.not_mem_nil
      expired := fun id member => absurd member List.not_mem_nil
      truthful := fun write member => absurd member List.not_mem_nil
      listed := fun seg member => absurd member List.not_mem_nil
      accounted := ⟨[], rfl, fun id member => absurd member List.not_mem_nil,
        fun id member => absurd member List.not_mem_nil⟩
      tasks := fun task member => absurd member List.not_mem_nil }

/-! ## What is read when no call is in flight -/

theorem Sound.segments_live {store : ColumnarStore} {ledger : Ledger}
    (sound : Sound json store ledger []) :
    store.catalog.segments.map SegmentMeta.id = ledger.live.map Write.id := by
  rcases sound.accounted with ⟨gone, ids, isExpired, pending⟩
  have same : ∀ id, id ∈ gone ↔ id ∈ ledger.expired := by
    refine fun id => ⟨isExpired id, fun member => ?_⟩
    rcases pending id member with isGone | ⟨task, isTask, _⟩
    · exact isGone
    · exact absurd isTask List.not_mem_nil
  rw [ids, Ledger.live, List.filter_map]
  apply congrArg (List.map Write.id)
  apply List.filter_congr
  intro write _
  exact decide_eq_decide.mpr (not_congr (same write.id))

/-- The entries of the catalog are those of the live batches, one by one. -/
theorem Sound.entries {store : ColumnarStore} {ledger : Ledger}
    (sound : Sound json store ledger []) :
    List.Forall₂ (fun seg write => Describes store write seg ∧ Placed json store write seg)
      store.catalog.segments ledger.live := by
  have ids := sound.segments_live
  rw [← List.forall₂_eq_eq_eq, List.forall₂_map_left_iff, List.forall₂_map_right_iff] at ids
  refine Pointwise.imp_of_mem (fun seg write isListed isLive same => ?_) ids
  have live := List.mem_filter.mp isLive
  rcases sound.listed seg isListed with ⟨other, isWritten, describes, placed⟩
  have equal : other = write := by
    refine sound.write_unique isWritten live.1 (ulidLike_injective ?_)
    exact describes.id.symm.trans same
  rw [equal] at describes placed
  exact ⟨describes, placed.resolve_left (of_decide_eq_true live.2)⟩

theorem inRange_apart {write : Write} {start stop : Int} (apart : ¬ write.Overlaps start stop) :
    inRange start stop (write.events.map (stored json)) = [] := by
  apply List.filter_eq_nil_iff.mpr
  intro e member within
  rcases List.mem_map.mp member with ⟨original, isEvent, rfl⟩
  have bounds := write.bounds original isEvent
  have inside := of_decide_eq_true within
  exact apart ⟨bounds.1.trans inside.2, inside.1.trans bounds.2⟩

theorem readInRange_of_placed {store : ColumnarStore} {write : Write} {seg : SegmentMeta}
    (describes : Describes store write seg) (placed : Placed json store write seg)
    (start stop : Int) :
    store.readInRange json start stop seg =
      .ok (inRange start stop (write.events.map (stored json))) := by
  rw [ColumnarStore.readInRange, readRows_of_placed describes placed]
  change Except.ok _ = Except.ok _
  rw [batchIntoEvents_eventsToBatch]
  rfl

theorem exists_parts {store : ColumnarStore} {segments : List SegmentMeta} {writes : List Write}
    (entries : List.Forall₂ (fun seg write =>
      Describes store write seg ∧ Placed json store write seg) segments writes)
    (start stop : Int) :
    ∃ parts, (segments.filter fun s => s.minTs ≤ stop ∧ start ≤ s.maxTs).mapM
        (store.readInRange json start stop) = .ok parts ∧
      parts.flatten = writes.flatMap fun write =>
        inRange start stop (write.events.map (stored json)) := by
  induction entries with
  | nil => exact ⟨[], rfl, rfl⟩
  | @cons seg write segments writes here _ inductionHypothesis =>
      rcases here with ⟨describes, placed⟩
      rcases inductionHypothesis with ⟨parts, read, equal⟩
      by_cases overlaps : write.Overlaps start stop
      · refine ⟨inRange start stop (write.events.map (stored json)) :: parts, ?_, ?_⟩
        · rw [List.filter_cons_of_pos, List.mapM_cons,
            readInRange_of_placed describes placed, read]
          · rfl
          · rw [describes.minTs, describes.maxTs]
            exact decide_eq_true overlaps
        · rw [List.flatten_cons, List.flatMap_cons, equal]
      · refine ⟨parts, ?_, ?_⟩
        · rw [List.filter_cons_of_neg, read]
          rw [describes.minTs, describes.maxTs, decide_eq_true_eq]
          exact overlaps
        · rw [List.flatMap_cons, inRange_apart overlaps, List.nil_append, equal]

theorem Sound.readRange {store : ColumnarStore} {ledger : Ledger}
    (sound : Sound json store ledger []) (start stop : Int) :
    store.readRange json start stop = .ok (ledger.inRange json start stop) := by
  rcases exists_parts sound.entries start stop with ⟨parts, read, equal⟩
  rw [ColumnarStore.readRange, Catalog.overlapping, read]
  exact congrArg Except.ok equal

theorem Sound.totalRows {store : ColumnarStore} {ledger : Ledger}
    (sound : Sound json store ledger []) :
    store.totalRows = (ledger.live.map fun write => write.events.length).sum := by
  have rows : store.catalog.segments.map SegmentMeta.rows =
      ledger.live.map fun write => write.events.length := by
    rw [← List.forall₂_eq_eq_eq, List.forall₂_map_left_iff, List.forall₂_map_right_iff]
    exact sound.entries.imp fun _ _ entry => entry.1.rows
  exact congrArg List.sum rows

/-! ## What the ledger holds -/

/-- The batch that a call begins to write, unless it is empty. -/
def WorkEvent.write : WorkEvent → Option Write
  | .begin (.writeSegment write) => if write.events.isEmpty then none else some write
  | _ => none

/-- The batch that a task is writing. -/
def Task.writing : Task → Option Write
  | .create write => if write.events.isEmpty then none else some write
  | .register write => some write
  | _ => none

/-- The batches of the ledger and those that are being written. -/
def Concurrent.writes (s : Concurrent) : List Write :=
  s.ledger.written ++ s.tasks.filterMap Task.writing

/-- An effect moves the batch of its task on, or into the ledger. -/
theorem writes_effect {task : Task} {m m' : Machine} {progress : Progress}
    (step : task.step json m .done = (m', progress)) (ledger : Ledger) :
    (ledger.note task).written ++ progress.tasks.filterMap Task.writing =
      ledger.written ++ task.writing.toList ∨ progress = .failed := by
  cases task with
  | create write =>
      rw [Task.step] at step
      split at step
      · next empty =>
          cases step
          exact Or.inl (by simp [Ledger.note, Progress.tasks, Task.writing, empty])
      · next nonempty =>
          cases step
          exact Or.inl (by simp [Ledger.note, Progress.tasks, Task.writing, nonempty, Fate.goOn])
  | register write =>
      cases step
      exact Or.inl (List.append_nil _)
  | age now maxWarmAge =>
      rw [Task.step] at step
      split at step <;> cases step <;> exact Or.inl rfl
  | read aged =>
      cases aged with
      | nil =>
          cases step
          exact Or.inl rfl
      | cons seg rest =>
          rw [Task.step] at step
          split at step
          · cases step
            exact Or.inr rfl
          · cases step
            exact Or.inl rfl
  | put seg data rest =>
      cases step
      exact Or.inl rfl
  | relocate seg rest =>
      rw [Task.step] at step
      split at step <;> cases step <;> exact Or.inl rfl
  | unlink seg rest =>
      cases step
      exact Or.inl rfl
  | expire now maxAge =>
      cases step
      exact Or.inl rfl
  | delete gone todo ids =>
      cases todo <;> cases step <;> exact Or.inl rfl
  | remove gone ids =>
      rw [Task.step] at step
      split at step <;> cases step <;> exact Or.inl rfl
  | unlinkEach gone todo ids =>
      cases todo <;> cases step <;> exact Or.inl rfl
  | forget gone ids =>
      cases step
      exact Or.inl rfl

/-- An event adds the batch that it begins. -/
theorem writes_step {event : WorkEvent} (step : s.step json event = some s') :
    s'.writes.Perm (s.writes ++ event.write.toList) := by
  cases event with
  | begin call =>
      rw [Concurrent.step] at step
      split at step
      · cases step
        have begun : call.task.writing = (WorkEvent.begin call).write := by
          cases call <;> rfl
        rw [Concurrent.writes, List.filterMap_cons, begun]
        cases (WorkEvent.begin call).write with
        | none => exact .of_eq (List.append_nil _).symm
        | some write =>
            rw [Option.toList_some, Concurrent.writes, List.append_assoc]
            exact (List.perm_append_singleton write _).symm.append_left _
      · cases step
  | advance number =>
      rw [Concurrent.step] at step
      split at step
      · cases step
      · next task found =>
          have order := perm_task found
          split at step
          · cases step
          · next machine progress succeeds result =>
              cases step
              have moved := (writes_effect result s.ledger).resolve_right fun failed =>
                succeeds failed
              have others := order.filterMap Task.writing
              rw [List.filterMap_cons] at others
              change List.Perm ((s.ledger.note task).written ++
                List.filterMap _ (progress.tasks ++ _))
                (s.writes ++ [])
              rw [List.append_nil, List.filterMap_append, ← List.append_assoc, moved,
                List.append_assoc]
              refine List.Perm.append_left _ (others.trans (.of_eq ?_)).symm
              cases task.writing <;> rfl

/-- What has been begun is in the ledger, or on its way there. -/
theorem writes_follow {events : List WorkEvent}
    (run : TransitionSystem.follow (Concurrent.step json) s events = some s') :
    s'.writes.Perm (s.writes ++ events.filterMap WorkEvent.write) := by
  induction events generalizing s with
  | nil =>
      cases run
      exact .of_eq (List.append_nil _).symm
  | cons event events inductionHypothesis =>
      rcases Option.bind_eq_some_iff.mp run with ⟨middle, step, rest⟩
      refine (inductionHypothesis rest).trans ?_
      refine ((writes_step step).append_right _).trans (.of_eq ?_)
      rw [List.append_assoc, List.filterMap_cons]
      cases event.write <;> rfl

/-- What comes back from a range are the events of the live batches in it, by their identifiers and
times. -/
theorem Ledger.stamps_inRange (ledger : Ledger) (start stop : Int) :
    stamps (ledger.inRange json start stop) =
      stamps (Index.inRange start stop (ledger.live.flatMap Write.events)) := by
  have shown :
      ∀ events : List Event, stamps (Index.inRange start stop (events.map (stored json))) =
      stamps (Index.inRange start stop events) := by
    intro events
    rw [Index.inRange, List.filter_map]
    exact stamps_stored _
  have parts : Index.inRange start stop (ledger.live.flatMap Write.events) =
      ledger.live.flatMap fun write => Index.inRange start stop write.events :=
    List.filter_flatMap
  rw [Ledger.inRange, parts, stamps, stamps, List.map_flatMap, List.map_flatMap]
  exact List.flatMap_congr fun write _ => shown write.events

/-- In every run of interleaved calls: whenever none is in flight, the ledger holds the batches that
have been begun, the empty ones aside.  Every range then shows the events of those that no
retention call has found expired, whatever has been migrated, with the identifiers and the times
that were written, and the counts agree. -/
theorem reads_live {events : List WorkEvent}
    (run : TransitionSystem.follow (Concurrent.step json) (.start coldDir archive) events = some s)
    (quiet : s.tasks = []) :
    s.ledger.written.Perm (events.filterMap WorkEvent.write) ∧
    (∀ start stop, s.machine.store.readRange json start stop =
      .ok (s.ledger.inRange json start stop)) ∧
    (∀ start stop, stamps (s.ledger.inRange json start stop) =
      stamps (inRange start stop (s.ledger.live.flatMap Write.events))) ∧
    s.machine.store.segmentCount = s.ledger.live.length ∧
    s.machine.store.totalRows = (s.ledger.live.map fun write => write.events.length).sum := by
  have reached := TransitionSystem.Reaches.of_follow
    (T := interleaving json coldDir archive) (fun _ _ _ step => step) run
  have sound := sound_of_reachable ⟨_, rfl, reached⟩
  have written := writes_follow run
  rw [Concurrent.writes, quiet, List.filterMap_nil, List.append_nil] at written
  rw [quiet] at sound
  exact ⟨written, sound.readRange, s.ledger.stamps_inRange,
    sound.entries.length_eq, sound.totalRows⟩

/-- A segment is migrated while the next one is written; then it is old enough to go. -/
def lifecycle : List WorkEvent :=
  [.begin (.writeSegment (oneEvent "a" 7)), .advance 0, .advance 0,
    .begin (.migrateWarm 500 50), .advance 0, .advance 0,
    .begin (.writeSegment { oneEvent "b" 8 with
      events := (oneEvent "b" 8).events.map fun e => { e with ts := 400 } }),
    .advance 1, .advance 1, .advance 1, .advance 1, .advance 0, .advance 0,
    .begin (.enforceRetention 600 300), .advance 0, .advance 0, .advance 0, .advance 0, .advance 0,
    .advance 0, .advance 0]

theorem reads_live_lifecycle :
    ∃ s, TransitionSystem.follow (Concurrent.step plainJson)
        (.start "cold" { keyStart := "segments", objects := ∅ }) lifecycle = some s ∧
      s.ledger.live.map Write.now = [8] ∧
      s.ledger.written.Perm (lifecycle.filterMap WorkEvent.write) ∧
      ∀ start stop, s.machine.store.readRange plainJson start stop =
        .ok (s.ledger.inRange plainJson start stop) := by
  have live : ((TransitionSystem.follow (Concurrent.step plainJson)
      (.start "cold" { keyStart := "segments", objects := ∅ }) lifecycle).map fun s =>
        (s.tasks.length, s.ledger.live.map Write.now)) = some (0, [8]) := by
    decide +kernel
  rcases Option.map_eq_some_iff.mp live with ⟨s, followed, equal⟩
  have quiet := List.eq_nil_of_length_eq_zero (Prod.mk.inj equal).1
  have shows := reads_live followed quiet
  exact ⟨s, followed, (Prod.mk.inj equal).2, shows.1, shows.2.1⟩

end Runs

end Index
end Sigil
