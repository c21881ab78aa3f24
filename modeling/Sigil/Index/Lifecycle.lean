import Sigil.Index.Writes

namespace Sigil
namespace Index

/-!
# Writing, migrating and dropping segments, one effect at a time

Each call is a task that makes one effect after the other: it writes a file, puts or
deletes an object, saves the catalog or removes a file.  Between two effects of one task
other tasks may run, and the process may stop.  An effect may fail; the call then returns
its error.  A write that fails half way leaves a file that cannot be read back, and the
model has no file there.  Of the catalog file it also keeps that it is torn, because the
store cannot be opened on it.
-/

open Sigil.Core

/-- The identifier of a batch. -/
def Write.id (write : Write) : String :=
  ulidLike write.now

/-- How an effect ends: it may fail and change nothing, or fail half way. -/
inductive Fate where
  | done
  | refused
  | broken
  deriving DecidableEq, Repr

/-- The store on its disk; a torn catalog file cannot be parsed. -/
structure Machine where
  store : ColumnarStore
  torn : Bool

/-- Where the data of a segment is. -/
inductive Place where
  | file (path : String)
  | object (key : String)
  deriving DecidableEq, Repr

def SegmentMeta.place (seg : SegmentMeta) : Place :=
  match seg.tier with
  | .cold => .object seg.path
  | _ => .file seg.path

/-- What a call still has to do; `gone` are the places whose data it has deleted. -/
inductive Task where
  | create (write : Write)
  | register (write : Write)
  | age (now maxWarmAge : Int)
  | read (aged : List SegmentMeta)
  | put (seg : SegmentMeta) (data : List Row) (rest : List SegmentMeta)
  | relocate (seg : SegmentMeta) (rest : List SegmentMeta)
  | unlink (seg : SegmentMeta) (rest : List SegmentMeta)
  | expire (now maxAge : Int)
  | delete (gone : List Place) (todo : List SegmentMeta) (ids : List String)
  | remove (gone : List Place) (ids : List String)
  | unlinkEach (gone : List Place) (todo : List SegmentMeta) (ids : List String)
  | forget (gone : List Place) (ids : List String)

/-- Where a call stands after an effect. -/
inductive Progress where
  | finished
  | failed
  | more (task : Task)

/-- The calls of the store. -/
inductive Call where
  | writeSegment (write : Write)
  | migrateWarm (now maxWarmAge : Int)
  | enforceRetention (now maxAge : Int)

/-- The first task of a call. -/
def Call.task : Call → Task
  | .writeSegment write => .create write
  | .migrateWarm now maxWarmAge => .age now maxWarmAge
  | .enforceRetention now maxAge => .expire now maxAge

namespace Machine

variable (m : Machine)

/-- Take over the segments and persist them. -/
def save (segments : List SegmentMeta) : Fate → Machine
  | .done =>
      { m with
        store := { m.store with catalog := Catalog.save { m.store.catalog with
          segments := segments } }
        torn := false }
  | .refused =>
      { m with
        store := { m.store with catalog := { m.store.catalog with segments := segments } } }
  | .broken =>
      { m with
        store := { m.store with catalog := { segments := segments, file := none } }
        torn := true }

/-- Write a segment file. -/
def createFile (path : String) (rows : List Row) : Fate → Machine
  | .done => { m with store := m.store.createFile path rows }
  | .refused => m
  | .broken => { m with store := { m.store with files := m.store.files.erase path } }

/-- Remove a local file; the code ignores a failure. -/
def removeFile (path : String) : Fate → Machine
  | .done => { m with store := { m.store with files := m.store.files.erase path } }
  | _ => m

def setObjects (change : Files → Files) : Machine :=
  { m with
    store := { m.store with
      archive := m.store.archive.map fun archive =>
        { archive with objects := change archive.objects } } }

/-- Upload an object. -/
def putObject (key : String) (rows : List Row) : Fate → Machine
  | .refused => m
  | _ => m.setObjects fun objects => objects.insert key rows

/-- Delete an object; a missing one is not an error. -/
def deleteObject (key : String) : Fate → Machine
  | .refused => m
  | _ => m.setObjects fun objects => objects.erase key

end Machine

/-- Go on when the effect is done, and return its error otherwise. -/
def Fate.goOn (fate : Fate) (next : Progress) : Progress :=
  match fate with
  | .done => next
  | _ => .failed

/-- Where the archive of a store keeps a segment. -/
def ColumnarStore.key (store : ColumnarStore) (segmentId : String) : String :=
  (store.archive.map fun archive => archive.key segmentId).getD ""

/-- One effect of a task. -/
def Task.step (json : JsonText) (m : Machine) (fate : Fate) : Task → Machine × Progress
  | .create write =>
      if write.events.isEmpty then (m, .finished)
      else
        (m.createFile (m.store.segmentPath (ulidLike write.now))
            (eventsToBatch json write.events) fate,
          fate.goOn (.more (.register write)))
  | .register write =>
      (m.save (m.store.catalog.segments ++ [write.segment m.store]) fate, fate.goOn .finished)
  | .age now maxWarmAge =>
      if m.store.archive.isNone then (m, .finished)
      else
        (m, .more (.read (m.store.catalog.segments.filter fun s =>
          s.tier = .warm ∧ maxWarmAge < toI64 (now - s.maxTs))))
  | .read [] => (m, .finished)
  | .read (seg :: rest) =>
      match m.store.files.lookup seg.path with
      | none => (m, .failed)
      | some data => (m, .more (.put seg data rest))
  | .put seg data rest =>
      (m.putObject (m.store.key seg.id) data fate, fate.goOn (.more (.relocate seg rest)))
  | .relocate seg rest =>
      if seg.id ∈ m.store.catalog.segments.map SegmentMeta.id then
        (m.save (Catalog.migrate seg.id .cold (m.store.key seg.id) m.store.catalog.segments) fate,
          fate.goOn (.more (.unlink seg rest)))
      else (m, .more (.unlink seg rest))
  | .unlink seg rest => (m.removeFile seg.path fate, .more (.read rest))
  | .expire now maxAge =>
      let expired := m.store.catalog.expired now maxAge
      let cold := if m.store.archive.isSome then expired.filter fun s => s.tier = .cold else []
      (m, .more (.delete [] cold (expired.map SegmentMeta.id)))
  | .delete gone [] ids => (m, .more (.remove gone ids))
  | .delete gone (seg :: todo) ids =>
      (m.deleteObject seg.path fate,
        fate.goOn (.more (.delete (.object seg.path :: gone) todo ids)))
  | .remove gone ids =>
      let dropped := m.store.catalog.segments.filter fun s => s.id ∈ ids
      if dropped.isEmpty then (m, .finished) else (m, .more (.unlinkEach gone dropped ids))
  | .unlinkEach gone [] ids => (m, .more (.forget gone ids))
  | .unlinkEach gone (seg :: todo) ids =>
      (m.removeFile seg.path fate,
        .more (.unlinkEach (if fate = .done then .file seg.path :: gone else gone) todo ids))
  | .forget _ ids =>
      (m.save (m.store.catalog.segments.filter fun s => s.id ∉ ids) fate, fate.goOn .finished)

/-- A write that runs alone is the call of the store. -/
theorem writeSegment_eq (json : JsonText) (m : Machine) {write : Write}
    (nonempty : write.events ≠ []) :
    ∃ created, (Task.create write).step json m .done = (created, .more (.register write)) ∧
      ((Task.register write).step json created .done).1.store =
        (m.store.writeSegment json write.events write.now write.created).1 := by
  refine ⟨_, if_neg fun empty => nonempty (List.isEmpty_iff.mp empty), ?_⟩
  rw [writeSegment_nonempty m.store nonempty]
  rfl

/-! ## Moving one entry of the catalog -/

namespace Catalog

/-- What neither tier nor place decides stays. -/
theorem migrate_map {α : Type} (f : SegmentMeta → α)
    (keeps : ∀ seg tier path, f { seg with tier := tier, path := path } = f seg) (id : String)
    (tier : Tier) (path : String) (segments : List SegmentMeta) :
    (migrate id tier path segments).map f = segments.map f := by
  induction segments with
  | nil => rfl
  | cons seg rest inductionHypothesis =>
      unfold migrate
      split
      · rw [List.map_cons, List.map_cons, keeps]
      · rw [List.map_cons, List.map_cons, inductionHypothesis]

theorem migrate_ids (id : String) (tier : Tier) (path : String) (segments : List SegmentMeta) :
    (migrate id tier path segments).map SegmentMeta.id = segments.map SegmentMeta.id :=
  migrate_map SegmentMeta.id (fun _ _ _ => rfl) id tier path segments

/-- What is listed after the move: old entries and the one that has moved. -/
theorem mem_migrate {id : String} {tier : Tier} {path : String} {segments : List SegmentMeta}
    {entry : SegmentMeta} (member : entry ∈ migrate id tier path segments) :
    entry ∈ segments ∨ ∃ seg, seg ∈ segments ∧ seg.id = id ∧
      entry = { seg with tier := tier, path := path } := by
  induction segments with
  | nil => exact Or.inl member
  | cons seg rest inductionHypothesis =>
      unfold migrate at member
      split at member
      · next same =>
          rcases List.mem_cons.mp member with rfl | old
          · exact Or.inr ⟨seg, List.mem_cons_self, same, rfl⟩
          · exact Or.inl (List.mem_cons_of_mem _ old)
      · rcases List.mem_cons.mp member with rfl | inRest
        · exact Or.inl List.mem_cons_self
        · rcases inductionHypothesis inRest with old | ⟨other, isOther, same, equal⟩
          · exact Or.inl (List.mem_cons_of_mem _ old)
          · exact Or.inr ⟨other, List.mem_cons_of_mem _ isOther, same, equal⟩

/-- The entries of other identifiers stay. -/
theorem mem_migrate_of_ne {id : String} {tier : Tier} {path : String} {segments : List SegmentMeta}
    {entry : SegmentMeta} (member : entry ∈ segments) (other : entry.id ≠ id) :
    entry ∈ migrate id tier path segments := by
  induction segments with
  | nil => exact absurd member List.not_mem_nil
  | cons seg rest inductionHypothesis =>
      unfold migrate
      split
      · next isSeg =>
          rcases List.mem_cons.mp member with rfl | inRest
          · exact absurd isSeg other
          · exact List.mem_cons_of_mem _ inRest
      · rcases List.mem_cons.mp member with rfl | inRest
        · exact List.mem_cons_self
        · exact List.mem_cons_of_mem _ (inductionHypothesis inRest)

/-- Where identifiers are different, the entry of the identifier has moved. -/
theorem moved_of_mem_migrate {id : String} {tier : Tier} {path : String}
    {segments : List SegmentMeta} (nodup : (segments.map SegmentMeta.id).Nodup)
    {entry : SegmentMeta} (member : entry ∈ migrate id tier path segments)
    (same : entry.id = id) : entry.tier = tier ∧ entry.path = path := by
  induction segments with
  | nil => exact absurd member List.not_mem_nil
  | cons seg rest inductionHypothesis =>
      rw [List.map_cons, List.nodup_cons] at nodup
      unfold migrate at member
      split at member
      · next isSeg =>
          rcases List.mem_cons.mp member with rfl | old
          · exact ⟨rfl, rfl⟩
          · exact absurd (List.mem_map.mpr ⟨entry, old, same.trans isSeg.symm⟩) nodup.1
      · next other =>
          rcases List.mem_cons.mp member with rfl | inRest
          · exact absurd same other
          · exact inductionHypothesis nodup.2 inRest

end Catalog

/-! ## Places -/

theorem ulidLike_length (now : Int64) : (ulidLike now).toList.length = 20 := by
  have width : ∀ width n, (hexDigits width n).length = width := by
    intro width
    induction width with
    | zero => exact fun _ => rfl
    | succ width inductionHypothesis =>
        intro n
        rw [hexDigits, List.length_append, inductionHypothesis]
        rfl
  have start : "seg-".toList.length = 4 := by decide
  calc (ulidLike now).toList.length
      = ("seg-".toList ++ hexDigits 16 now.toUInt64.toNat).length :=
        congrArg List.length (String.toList_ofList)
    _ = "seg-".toList.length + (hexDigits 16 now.toUInt64.toNat).length := List.length_append
    _ = 4 + 16 := congrArg₂ (· + ·) start (width 16 _)

/-- Two paths that end in the file of a segment are those of the same segment. -/
theorem segmentFile_injective {first second : String} {a b : Int64}
    (same : first ++ ulidLike a ++ ".parquet" = second ++ ulidLike b ++ ".parquet") : a = b := by
  have texts := congrArg String.toList ((String.append_left_inj _).mp same)
  rw [String.toList_append, String.toList_append] at texts
  have lengths : (ulidLike a).toList.length = (ulidLike b).toList.length := by
    rw [ulidLike_length, ulidLike_length]
  exact ulidLike_injective (String.toList_inj.mp (List.append_inj' texts lengths).2)

namespace ColumnarStore

variable {store : ColumnarStore}

theorem exists_segmentPath (store : ColumnarStore) :
    ∃ start, ∀ id, store.segmentPath id = start ++ id ++ ".parquet" := by
  by_cases plain : store.coldDir.isEmpty ∨ store.coldDir.toList.getLast? = some '/'
  · refine ⟨store.coldDir, fun id => ?_⟩
    rw [segmentPath, join, if_pos plain, String.append_assoc]
  · refine ⟨store.coldDir ++ "/", fun id => ?_⟩
    rw [segmentPath, join, if_neg plain]
    simp only [String.append_assoc]

theorem exists_key (attached : store.archive.isSome = true) :
    ∃ start, ∀ id, store.key id = start ++ id ++ ".parquet" := by
  rcases Option.isSome_iff_exists.mp attached with ⟨archive, equal⟩
  refine ⟨archive.keyStart ++ "/", fun id => ?_⟩
  rw [key, equal]
  rfl

theorem key_injective (attached : store.archive.isSome = true) {a b : Int64}
    (same : store.key (ulidLike a) = store.key (ulidLike b)) : a = b := by
  rcases exists_key attached with ⟨start, equal⟩
  rw [equal, equal] at same
  exact segmentFile_injective same

/-- A local path is no key of another segment. -/
theorem segmentPath_ne_key (attached : store.archive.isSome = true) {a b : Int64}
    (same : store.segmentPath (ulidLike a) = store.key (ulidLike b)) : a = b := by
  rcases exists_key attached with ⟨start, equal⟩
  rcases exists_segmentPath store with ⟨start', equal'⟩
  rw [equal, equal'] at same
  exact segmentFile_injective same

end ColumnarStore

end Index
end Sigil
