import Sigil.Index.Atomicity
import Sigil.Index.Interleaving

namespace Sigil
namespace Index

/-!
# The upkeep of the store by one process

One process writes its batches, migrates and drops segments one call after the other, with and
without an archive.  A call that returns no error, and a migration in any case, leaves a store
that shows exactly the batches that no retention call has found expired.
-/

open Sigil.Core

/-- Why the upkeep fails. -/
inductive UpkeepError where
  | object (key : String)
  | segment (path : String)
  | store (error : StoreError)
  deriving DecidableEq, Repr

/-- How the effects of one call end, segment by segment. -/
structure Outages where
  objects : Nat → Fate
  faults : Nat → Faults

namespace Machine

variable (m : Machine) (outages : Outages)

/-- Delete the archived data of some segments. -/
def deleteObjects (m : Machine) (objects : Nat → Fate) :
    List SegmentMeta → Machine × Except UpkeepError Unit
  | [] => (m, .ok ())
  | seg :: rest =>
      let deleted := m.deleteObject seg.path (objects rest.length)
      match objects rest.length with
      | .done => deleted.deleteObjects objects rest
      | _ => (deleted, .error (.object seg.path))

/-- Delete the segments that are too old, in whichever tier they live.  Archived objects are
deleted first; the catalog removes the local files. -/
def enforceRetention (now maxAge : Int) : Machine × Except UpkeepError Nat :=
  let expired := m.store.catalog.expired now maxAge
  let cold := if m.store.archive.isSome then expired.filter fun s => s.tier = .cold else []
  match m.deleteObjects outages.objects cold with
  | (deleted, .error error) => (deleted, .error error)
  | (deleted, .ok _) =>
      let (removed, result) := deleted.remove (outages.faults 0) (expired.map SegmentMeta.id)
      (removed, result.mapError .store)

/-- Move the given segments into the archive, one after another, and count them. -/
def migrateEach (m : Machine) (outages : Outages) :
    List SegmentMeta → Machine × Except UpkeepError Nat
  | [] => (m, .ok 0)
  | seg :: rest =>
      match m.store.files.lookup seg.path with
      | none => (m, .error (.segment seg.path))
      | some data =>
          let key := m.store.key seg.id
          let put := m.putObject key data (outages.objects rest.length)
          match outages.objects rest.length with
          | .done =>
              let faults := outages.faults rest.length
              match put.migrate faults seg.id .cold key with
              | (moved, .error error) => (moved, .error (.store error))
              | (moved, .ok _) =>
                  -- the archived copy is authoritative now
                  let (after, result) :=
                    (moved.removeFile seg.path (faults.unlinks 0)).migrateEach outages rest
                  (after, result.map fun migrated => migrated + 1)
          | _ => (put, .error (.object key))

/-- Migrate the warm segments that are old enough; nothing happens without an archive. -/
def migrateWarm (now maxWarmAge : Int) : Machine × Except UpkeepError Nat :=
  if m.store.archive.isNone then (m, .ok 0)
  else
    m.migrateEach outages (m.store.catalog.segments.filter fun s =>
      s.tier = .warm ∧ maxWarmAge < toI64 (now - s.maxTs))

end Machine

/-! ## Calls with an archive -/

section Sound

variable {json : JsonText} {m : Machine} {store : ColumnarStore} {ledger : Ledger}
  {others : List Task}

/-- A call that drops nothing may stop. -/
theorem Sound.stop {task : Task} (sound : Sound json store ledger (task :: others))
    (nothing : task.dropping = []) : Sound json store ledger others := by
  have stopped : Sound json store ledger ([] ++ others) := by
    refine sound.replace (List.nil_sublist _) (fun id member => ?_) fun t member =>
      absurd member List.not_mem_nil
    rw [nothing] at member
    exact absurd member List.not_mem_nil
  exact stopped

theorem Later.withFile (attached : store.archive.isSome = true) {waiting : List Int64}
    (file : Option (List SegmentMeta)) :
    Later json waiting store ledger
      { store with catalog := { store.catalog with file := file } } ledger where
  coldDir := rfl
  attached := attached
  key := fun _ => rfl
  claimed := rfl
  written := fun _ member => member
  expired := fun _ member => member
  filed := fun _ _ rows => rows
  truthful := fun _ _ _ found => Or.inl found
  archived := fun _ _ rows => Or.inr rows
  warm := fun _ _ _ _ _ _ rows => Or.inr rows
  cold := fun _ _ cold => cold

/-- What the catalog file holds does not matter. -/
theorem Sound.withFile (sound : Sound json store ledger others) (file : Option (List SegmentMeta)) :
    Sound json { store with catalog := { store.catalog with file := file } } ledger others where
  attached := sound.attached
  distinct := sound.distinct
  claimed := sound.claimed
  expired := sound.expired
  truthful := sound.truthful
  listed := fun seg member => by
    rcases sound.listed seg member with ⟨write, isWritten, describes, placed⟩
    have later : Later json [] store ledger
        { store with catalog := { store.catalog with file := file } } ledger :=
      Later.withFile sound.attached file
    exact ⟨write, isWritten, later.describes describes, placed⟩
  accounted := sound.accounted
  tasks := fun task member => by
    have knows := sound.tasks task member
    cases task <;> exact knows

/-- Saving takes the segments over, however the effect ends. -/
theorem Sound.save {segments : List SegmentMeta}
    (sound : Sound json
      { m.store with catalog := Catalog.save { m.store.catalog with segments := segments } } ledger
      others) (fate : Fate) : Sound json (m.save segments fate).store ledger others := by
  cases fate with
  | done => exact sound
  | refused => exact sound.withFile m.store.catalog.file
  | broken => exact sound.withFile none

/-- The next segment is read when the file of this one has been removed or not. -/
theorem Sound.removeFile {seg : SegmentMeta} {rest : List SegmentMeta}
    (sound : Sound json m.store ledger (.unlink seg rest :: others)) (fate : Fate) :
    Sound json (m.removeFile seg.path fate).store ledger (.read rest :: others) := by
  have knows : TaskSound json m.store ledger (.unlink seg rest) :=
    sound.tasks _ List.mem_cons_self
  have stays : Sound json m.store ledger ([.read rest] ++ others) :=
    sound.proceed (List.nil_sublist _) (List.nil_subset _) knows.2
  cases fate with
  | done => exact sound.unlink
  | refused => exact stays
  | broken => exact stays

/-- The entry has moved, also when the catalog could not be saved. -/
theorem Sound.migrate {seg : SegmentMeta} {rest : List SegmentMeta}
    (sound : Sound json m.store ledger (.relocate seg rest :: others)) (faults : Faults) :
    Sound json (m.migrate faults seg.id .cold (m.store.key seg.id)).1.store ledger
      (.unlink seg rest :: others) := by
  rw [Machine.migrate]
  split
  · exact Sound.save sound.relocate faults.saved
  · next unknown => exact sound.relocate_unknown unknown

/-- Whatever happens to the migration of some segments, the store stays sound. -/
theorem Sound.migrateEach (outages : Outages) {aged : List SegmentMeta}
    (sound : Sound json m.store ledger (.read aged :: others)) :
    Sound json (m.migrateEach outages aged).1.store ledger others := by
  induction aged generalizing m with
  | nil =>
      rw [Machine.migrateEach]
      exact sound.stop rfl
  | cons seg rest inductionHypothesis =>
      rw [Machine.migrateEach]
      split
      · exact sound.stop rfl
      · next data found =>
          have put : Sound json (m.putObject (m.store.key seg.id) data .done).store ledger
              (.relocate seg rest :: others) := (sound.read found).put
          dsimp only
          cases outages.objects rest.length with
          | refused => exact sound.stop rfl
          | broken => exact put.stop rfl
          | done =>
              have moved := put.migrate (outages.faults rest.length)
              rw [show (m.putObject (m.store.key seg.id) data .done).store.key seg.id =
                m.store.key seg.id from key_setObjects m.store _ seg.id] at moved
              dsimp only
              split
              · next failed =>
                  rw [failed] at moved
                  exact moved.stop rfl
              · next done =>
                  rw [done] at moved
                  exact inductionHypothesis (moved.removeFile _)

/-- A call begins beside the others. -/
theorem Sound.call (sound : Sound json m.store ledger others) {call : Call}
    (fresh : ∀ now, now ∈ call.task.claims → now ∉ ledger.claimed) :
    Sound json m.store { ledger with claimed := call.task.claims ++ ledger.claimed }
      (call.task :: others) :=
  @Sound.begin json ⟨m, others, ledger⟩ call sound fresh

theorem Sound.migrateWarm (sound : Sound json m.store ledger others) (outages : Outages)
    (now maxWarmAge : Int) :
    Sound json (m.migrateWarm outages now maxWarmAge).1.store ledger others := by
  rw [Machine.migrateWarm]
  split
  · exact sound
  · have begun : Sound json m.store ledger (.age now maxWarmAge :: others) :=
      @Sound.call _ _ _ _ sound (.migrateWarm now maxWarmAge) fun _ member =>
        absurd member List.not_mem_nil
    exact (begun.age now maxWarmAge).migrateEach outages

/-- A batch that has been written is in the ledger. -/
theorem Sound.writeSegment (sound : Sound json m.store ledger others) {faults : Faults}
    {write : Write} (some_ : write.events ≠ []) (fresh : write.now ∉ ledger.claimed)
    {after : Machine} {seg : Option SegmentMeta}
    (written : m.writeSegment faults json write = (after, .ok seg)) :
    Sound json after.store
      { ledger with
        claimed := write.now :: ledger.claimed
        written := ledger.written ++ [write] } others := by
  have nonempty : ¬ write.events.isEmpty = true := by simpa using some_
  have claims : (Call.writeSegment write).task.claims = [write.now] := if_neg nonempty
  have begun : Sound json m.store { ledger with claimed := write.now :: ledger.claimed }
      (.create write :: others) := by
    have called := @Sound.call _ _ _ _ sound (.writeSegment write) (by
      rw [claims]
      exact List.forall_mem_singleton.mpr fresh)
    rw [claims] at called
    exact called
  rw [Machine.writeSegment, if_neg nonempty] at written
  dsimp only at written
  split at written
  · next done =>
      rw [done] at written
      have created := begun.create (Bool.eq_false_iff.mpr nonempty)
      have saved : faults.saved = .done := by
        cases fate : faults.saved with
        | done => rfl
        | refused => simp [Machine.add, fate, Fate.answer, Except.map] at written
        | broken => simp [Machine.add, fate, Fate.answer, Except.map] at written
      have added : after = ((m.createFile (m.store.segmentPath write.id)
          (eventsToBatch json write.events) .done).add faults (write.segment m.store)).1 :=
        (congrArg Prod.fst written).symm
      rw [added, Machine.add, saved]
      exact created.register
  · cases written

/-- The data of some expired segments has been deleted. -/
theorem Sound.deleteObjects {objects : Nat → Fate} {cold : List SegmentMeta} {ids : List String}
    {gone : List Place}
    (sound : Sound json m.store ledger (.delete gone cold ids :: others)) {after : Machine}
    (deleted : m.deleteObjects objects cold = (after, .ok ())) :
    ∃ gone, Sound json after.store ledger (.delete gone [] ids :: others) := by
  induction cold generalizing m gone with
  | nil =>
      rw [Machine.deleteObjects] at deleted
      cases deleted
      exact ⟨gone, sound⟩
  | cons seg rest inductionHypothesis =>
      rw [Machine.deleteObjects] at deleted
      split at deleted
      · next done =>
          rw [done] at deleted
          exact inductionHypothesis sound.delete deleted
      · cases deleted

theorem Sound.removeFiles {unlinks : Nat → Fate} {todo : List SegmentMeta} {ids : List String}
    {gone : List Place}
    (sound : Sound json m.store ledger (.unlinkEach gone todo ids :: others)) :
    ∃ gone, Sound json (m.removeFiles unlinks todo).store ledger
      (.unlinkEach gone [] ids :: others) := by
  induction todo generalizing m gone with
  | nil => exact ⟨gone, sound⟩
  | cons seg rest inductionHypothesis =>
      have knows : TaskSound json m.store ledger (.unlinkEach gone (seg :: rest) ids) :=
        sound.tasks _ List.mem_cons_self
      have stays : Sound json m.store ledger ([.unlinkEach gone rest ids] ++ others) :=
        sound.proceed (List.nil_sublist _) (List.Subset.refl _)
          ⟨fun s inRest => knows.1 s (List.mem_cons_of_mem _ inRest), knows.2⟩
      rw [Machine.removeFiles]
      cases unlinks rest.length with
      | done => exact inductionHypothesis sound.unlinkEach
      | refused => exact inductionHypothesis stays
      | broken => exact inductionHypothesis stays

theorem Sound.removeSegments {faults : Faults} {ids : List String} {gone : List Place}
    (sound : Sound json m.store ledger (.remove gone ids :: others)) :
    Sound json (m.remove faults ids).1.store ledger others := by
  rw [Machine.remove]
  split
  · next nothing => exact sound.remove_nothing nothing
  · rcases sound.remove.removeFiles with ⟨gone, removed⟩
    have knows : TaskSound json _ ledger (.unlinkEach gone [] ids) :=
      removed.tasks _ List.mem_cons_self
    have last : Sound json _ ledger ([.forget gone ids] ++ others) :=
      removed.proceed (List.nil_sublist _) (List.Subset.refl _) knows.2
    have forgotten := Sound.forget last
    rw [removeFiles_catalog] at forgotten
    exact Sound.save forgotten faults.saved

/-- A retention call that returns has dropped what was too old. -/
theorem Sound.enforceRetention (sound : Sound json m.store ledger others) {outages : Outages}
    {now maxAge : Int} {after : Machine} {dropped : Nat}
    (enforced : m.enforceRetention outages now maxAge = (after, .ok dropped)) :
    Sound json after.store (ledger.note (.expire now maxAge)) others := by
  have begun : Sound json m.store ledger (.expire now maxAge :: others) :=
    @Sound.call _ _ _ _ sound (.enforceRetention now maxAge) fun _ member =>
      absurd member List.not_mem_nil
  rw [Machine.enforceRetention, if_pos sound.attached] at enforced
  split at enforced
  · cases enforced
  · next deleted _ succeeded =>
      rcases begun.expire.deleteObjects succeeded with ⟨gone, done⟩
      have knows : TaskSound json deleted.store _ (.delete gone [] _) :=
        done.tasks _ List.mem_cons_self
      have next : Sound json deleted.store _ ([.remove gone _] ++ others) :=
        done.proceed (List.nil_sublist _) (List.Subset.refl _) knows.2
      have removed := @Sound.removeSegments _ _ _ _ (outages.faults 0) _ _ next
      have same : _ = after := congrArg Prod.fst enforced
      rw [← same]
      exact removed

end Sound

/-! ## Stores with and without an archive -/

/-- An archive without objects. -/
def standIn : ObjectColdStore where
  keyStart := ""
  objects := ∅

/-- The store with an empty archive where it has none. -/
def ColumnarStore.attached (store : ColumnarStore) : ColumnarStore :=
  { store with archive := some (store.archive.getD standIn) }

namespace Machine

variable (m : Machine)

def attached : Machine :=
  { m with store := m.store.attached }

theorem attached_eq_self (some_ : m.store.archive.isSome = true) : m.attached = m := by
  rcases Option.isSome_iff_exists.mp some_ with ⟨archive, isArchive⟩
  have same : some (m.store.archive.getD standIn) = m.store.archive := by
    rw [isArchive]
    rfl
  rw [attached, ColumnarStore.attached, same]

theorem save_attached (segments : List SegmentMeta) (fate : Fate) :
    m.attached.save segments fate = (m.save segments fate).attached := by
  cases fate <;> rfl

theorem removeFiles_attached (unlinks : Nat → Fate) (segments : List SegmentMeta) :
    m.attached.removeFiles unlinks segments = (m.removeFiles unlinks segments).attached := by
  induction segments generalizing m with
  | nil => rfl
  | cons seg rest inductionHypothesis =>
      have removed : m.attached.removeFile seg.path (unlinks rest.length) =
          (m.removeFile seg.path (unlinks rest.length)).attached := by
        cases unlinks rest.length <;> rfl
      rw [removeFiles, removed, inductionHypothesis, removeFiles]

theorem remove_attached (faults : Faults) (ids : List String) :
    m.attached.remove faults ids = ((m.remove faults ids).1.attached, (m.remove faults ids).2) := by
  have segments : m.attached.store.catalog.segments = m.store.catalog.segments := rfl
  rw [remove, remove, segments]
  split
  · rfl
  · rw [removeFiles_attached, save_attached]

theorem writeSegment_attached (faults : Faults) (json : JsonText) (write : Write) :
    m.attached.writeSegment faults json write =
      ((m.writeSegment faults json write).1.attached, (m.writeSegment faults json write).2) := by
  rw [writeSegment, writeSegment]
  split
  · rfl
  · cases created : faults.created with
    | refused => rfl
    | broken => rfl
    | done =>
        cases saved : faults.saved <;> simp only [add, saved] <;> rfl

/-- Without an archive no object is deleted. -/
theorem enforceRetention_local (outages : Outages) (now maxAge : Int)
    (isLocal : ∀ seg ∈ m.store.catalog.segments, seg.tier = .warm)
    (detached : m.store.archive = none) :
    m.enforceRetention outages now maxAge =
        (let result := m.remove (outages.faults 0)
          ((m.store.catalog.expired now maxAge).map SegmentMeta.id)
        (result.1, result.2.mapError .store)) ∧
      m.attached.enforceRetention outages now maxAge =
        ((m.enforceRetention outages now maxAge).1.attached,
          (m.enforceRetention outages now maxAge).2) := by
  have plain : m.enforceRetention outages now maxAge =
      (let result := m.remove (outages.faults 0)
        ((m.store.catalog.expired now maxAge).map SegmentMeta.id)
      (result.1, result.2.mapError .store)) := by
    rw [enforceRetention, detached]
    rfl
  refine ⟨plain, ?_⟩
  have noObjects : (m.attached.store.catalog.expired now maxAge).filter
      (fun s => s.tier = .cold) = [] := by
    apply List.filter_eq_nil_iff.mpr
    intro seg member cold
    have warm := isLocal seg (List.mem_filter.mp member).1
    rw [of_decide_eq_true cold] at warm
    cases warm
  have same :
    m.attached.store.catalog.expired now maxAge = m.store.catalog.expired now maxAge := rfl
  rw [plain, enforceRetention, noObjects, same, ite_self, deleteObjects]
  dsimp only
  rw [remove_attached]

theorem removeFiles_archive (unlinks : Nat → Fate) (segments : List SegmentMeta) :
    (m.removeFiles unlinks segments).store.archive = m.store.archive := by
  induction segments generalizing m with
  | nil => rfl
  | cons seg rest inductionHypothesis =>
      rw [removeFiles, inductionHypothesis]
      cases unlinks rest.length <;> rfl

theorem save_archive (segments : List SegmentMeta) (fate : Fate) :
    (m.save segments fate).store.archive = m.store.archive := by
  cases fate <;> rfl

theorem remove_segments (faults : Faults) (ids : List String) :
    (m.remove faults ids).1.store.archive = m.store.archive ∧
      (m.remove faults ids).1.store.catalog.segments ⊆ m.store.catalog.segments := by
  rw [remove]
  split
  · exact ⟨rfl, List.Subset.refl _⟩
  · rw [save_archive, removeFiles_archive, save_segments]
    exact ⟨rfl, List.filter_subset_self _⟩

theorem writeSegment_segments (faults : Faults) (json : JsonText) (write : Write) :
    (m.writeSegment faults json write).1.store.archive = m.store.archive ∧
      ∀ seg ∈ (m.writeSegment faults json write).1.store.catalog.segments,
        seg ∈ m.store.catalog.segments ∨ seg.tier = .warm := by
  rw [writeSegment]
  split
  · exact ⟨rfl, fun seg member => Or.inl member⟩
  · cases created : faults.created with
    | refused => exact ⟨rfl, fun seg member => Or.inl member⟩
    | broken => exact ⟨rfl, fun seg member => Or.inl member⟩
    | done =>
        simp only [add, save_archive, save_segments]
        refine ⟨rfl, fun seg member => ?_⟩
        rcases List.mem_append.mp member with old | new
        · exact Or.inl old
        · rw [List.mem_singleton.mp new]
          exact Or.inr rfl

end Machine

/-- The store shows what the ledger holds; without an archive all segments are local. -/
structure Settled (json : JsonText) (store : ColumnarStore) (ledger : Ledger) : Prop where
  sound : Sound json store.attached ledger []
  isLocal : store.archive = none → ∀ seg ∈ store.catalog.segments, seg.tier = .warm

section Settled

variable {json : JsonText} {m : Machine} {store : ColumnarStore} {ledger : Ledger}

/-- An empty store shows nothing. -/
theorem settled_new (json : JsonText) (coldDir : String) (archive : Option ObjectColdStore) :
    Settled json (.new coldDir archive) { claimed := [], written := [], expired := [] } where
  sound :=
    { attached := rfl
      distinct := List.nodup_nil
      claimed := fun _ member => absurd member List.not_mem_nil
      expired := fun _ member => absurd member List.not_mem_nil
      truthful := fun _ member => absurd member List.not_mem_nil
      listed := fun _ member => absurd member List.not_mem_nil
      accounted := ⟨[], rfl, fun _ member => absurd member List.not_mem_nil,
        fun _ member => absurd member List.not_mem_nil⟩
      tasks := fun _ member => absurd member List.not_mem_nil }
  isLocal := fun _ _ member => absurd member List.not_mem_nil

/-- Where there is an archive, nothing has to stand in for it. -/
theorem ColumnarStore.attached_eq_self {store : ColumnarStore}
    (some_ : store.archive.isSome = true) : store.attached = store :=
  congrArg Machine.store (Machine.attached_eq_self ⟨store, false⟩ some_)

theorem settled_of_sound (sound : Sound json store ledger []) : Settled json store ledger where
  sound := by
    rw [ColumnarStore.attached_eq_self sound.attached]
    exact sound
  isLocal := fun none_ => by
    have attached := sound.attached
    rw [none_] at attached
    cases attached

theorem Settled.writeSegment (settled : Settled json m.store ledger) {faults : Faults}
    {write : Write} (some_ : write.events ≠ []) (fresh : write.now ∉ ledger.claimed)
    {after : Machine} {seg : Option SegmentMeta}
    (written : m.writeSegment faults json write = (after, .ok seg)) :
    Settled json after.store
      { ledger with
        claimed := write.now :: ledger.claimed
        written := ledger.written ++ [write] } where
  sound := by
    have attached : m.attached.writeSegment faults json write = (after.attached, .ok seg) := by
      rw [Machine.writeSegment_attached, written]
    exact @Sound.writeSegment _ m.attached _ _ settled.sound _ _ some_ fresh _ _ attached
  isLocal := by
    have segments := m.writeSegment_segments faults json write
    rw [written] at segments
    intro detached seg member
    exact (segments.2 seg member).elim (settled.isLocal (segments.1 ▸ detached) seg) id

theorem Settled.migrateWarm (settled : Settled json m.store ledger) (outages : Outages)
    (now maxWarmAge : Int) :
    Settled json (m.migrateWarm outages now maxWarmAge).1.store ledger := by
  cases archive : m.store.archive with
  | none =>
      rw [Machine.migrateWarm, archive]
      exact settled
  | some _ =>
      have sound := settled.sound
      rw [ColumnarStore.attached_eq_self (by rw [archive]; rfl)] at sound
      exact settled_of_sound (sound.migrateWarm outages now maxWarmAge)

theorem Settled.enforceRetention (settled : Settled json m.store ledger) {outages : Outages}
    {now maxAge : Int} {after : Machine} {dropped : Nat}
    (enforced : m.enforceRetention outages now maxAge = (after, .ok dropped)) :
    Settled json after.store (ledger.note (.expire now maxAge)) := by
  cases archive : m.store.archive with
  | some _ =>
      have sound := settled.sound
      rw [ColumnarStore.attached_eq_self (by rw [archive]; rfl)] at sound
      exact settled_of_sound (sound.enforceRetention enforced)
  | none =>
      have isLocal := settled.isLocal archive
      rcases m.enforceRetention_local outages now maxAge isLocal archive with ⟨plain, attached⟩
      rw [enforced] at attached
      have kept := m.remove_segments (outages.faults 0)
        ((m.store.catalog.expired now maxAge).map SegmentMeta.id)
      have removed : (m.remove (outages.faults 0)
          ((m.store.catalog.expired now maxAge).map SegmentMeta.id)).1 = after :=
        (congrArg Prod.fst plain).symm.trans (congrArg Prod.fst enforced)
      rw [removed] at kept
      exact
        { sound := @Sound.enforceRetention _ m.attached _ _ settled.sound _ _ _ _ _ attached
          isLocal := fun _ seg member => isLocal seg (kept.2 member) }

theorem Settled.readRange (settled : Settled json store ledger) (start stop : Int) :
    store.readRange json start stop = .ok (ledger.inRange json start stop) := by
  rw [← settled.sound.readRange start stop]
  cases archive : store.archive with
  | some _ => rw [ColumnarStore.attached_eq_self (by rw [archive]; rfl)]
  | none =>
      -- all segments are read from their files
      have rows : ∀ seg ∈ store.catalog.segments,
          store.readRows seg = store.attached.readRows seg := by
        intro seg member
        have warm := settled.isLocal archive seg member
        have isLocal : ∀ other : ColumnarStore, other.Local seg := by
          rintro other ⟨cold, _⟩
          rw [warm] at cold
          cases cold
        rw [readRows_local (isLocal store), readRows_local (isLocal store.attached)]
        rfl
      exact @readRange_congr json store.attached store rfl rows start stop

theorem Settled.totalRows (settled : Settled json store ledger) :
    store.totalRows = (ledger.live.map fun write => write.events.length).sum :=
  settled.sound.totalRows

end Settled

end Index
end Sigil
