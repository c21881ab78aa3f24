import Sigil.Index.Faults

namespace Sigil
namespace Index

/-!
# A hunt beside a migration

The reader lists the segments of its range once and then reads one after the other, where
they were when it listed them.  A migration moves segments to the archive meanwhile and
removes their files.  The hunt shows what it would show alone exactly when it reads each
local segment that it has listed before the migration removes its file.
-/

open Sigil.Core Library

/-- Where the reader stands. -/
inductive Reader where
  | listing
  | reading (segments : List SegmentMeta) (events : List Event)
  | done (result : Except IndexError (List Event))

/-- A reader and a migration over one store; `removed` are the files that the migration has
removed so far. -/
structure HuntRace where
  machine : Machine
  migration : Option Task
  reader : Reader
  removed : List String

inductive RaceEvent where
  | read
  | migrate

def Progress.task : Progress → Option Task
  | .more task => some task
  | _ => none

/-- The files that a task removes with its next effect. -/
def Task.removes : Task → List String
  | .unlink seg _ => [seg.path]
  | _ => []

/-- One step of a hunt. -/
def Reader.step (json : JsonText) (store : ColumnarStore) (start stop : Int) :
    Reader → Option Reader
  | .listing => some (.reading (store.catalog.overlapping start stop) [])
  | .reading [] events => some (.done (.ok events))
  | .reading (seg :: rest) events =>
      match store.readInRange json start stop seg with
      | .ok found => some (.reading rest (events ++ found))
      | .error error => some (.done (.error error))
  | .done _ => none

namespace HuntRace

def step (json : JsonText) (start stop : Int) (s : HuntRace) : RaceEvent → Option HuntRace
  | .read =>
      (s.reader.step json s.machine.store start stop).map fun reader => { s with reader := reader }
  | .migrate =>
      s.migration.map fun task =>
        { s with
          machine := (task.step json s.machine .done).1
          migration := (task.step json s.machine .done).2.task
          removed := task.removes ++ s.removed }

def start (m : Machine) (now maxWarmAge : Int) : HuntRace where
  machine := m
  migration := some (Call.migrateWarm now maxWarmAge).task
  reader := .listing
  removed := []

/-- The reader does not come to a local segment after its file has been removed. -/
def Timely (s : HuntRace) : RaceEvent → HuntRace → Prop
  | .read, _ => ∀ seg rest events, s.reader = .reading (seg :: rest) events →
      seg.tier ≠ .cold → seg.path ∉ s.removed
  | .migrate, _ => True

end HuntRace

/-! ## What a hunt shows alone -/

/-- The events of segments in a range, by the rows that were written for them. -/
def shownBy (json : JsonText) (written : Files) (start stop : Int) (ids : List String) :
    List Event :=
  ids.flatMap fun id => inRange start stop (batchIntoEvents json ((written.lookup id).getD []))

theorem readInRange_of_rowsAt {json : JsonText} {store : ColumnarStore} {written : Files}
    {seg : SegmentMeta} {rows : List Row} (isWritten : written.lookup seg.id = some rows)
    (found : store.rowsAt seg.place = some rows) (start stop : Int) :
    store.readInRange json start stop seg =
      .ok (inRange start stop (batchIntoEvents json ((written.lookup seg.id).getD []))) := by
  rw [ColumnarStore.readInRange, readRows_of_rowsAt found, isWritten]
  rfl

theorem Safe.readRange (json : JsonText) {store : ColumnarStore} {written : Files}
    (safe : Safe store written []) (start stop : Int) :
    store.readRange json start stop = .ok (shownBy json written start stop
      ((store.catalog.overlapping start stop).map SegmentMeta.id)) := by
  have parts : (store.catalog.overlapping start stop).mapM (store.readInRange json start stop) =
      .ok ((store.catalog.overlapping start stop).map fun seg =>
        inRange start stop (batchIntoEvents json ((written.lookup seg.id).getD []))) := by
    apply Pointwise.mapM_ok
    rw [List.forall₂_map_right_iff, List.forall₂_same]
    intro seg member
    rcases safe.memory.backed seg (List.mem_of_mem_filter member) with
      isGone | ⟨rows, isWritten, found⟩
    · exact absurd isGone List.not_mem_nil
    · exact readInRange_of_rowsAt isWritten found start stop
  rw [ColumnarStore.readRange, parts, shownBy, List.flatMap_map]
  rfl

/-! ## The invariant -/

/-- What decides whether a segment is listed for a range, and its identifier. -/
def SegmentMeta.span (seg : SegmentMeta) : String × Int × Int :=
  (seg.id, seg.minTs, seg.maxTs)

theorem overlapping_ids {first second : Catalog}
    (same : first.segments.map SegmentMeta.span = second.segments.map SegmentMeta.span)
    (start stop : Int) :
    (first.overlapping start stop).map SegmentMeta.id =
      (second.overlapping start stop).map SegmentMeta.id := by
  have bySpan : ∀ catalog : Catalog, (catalog.overlapping start stop).map SegmentMeta.id =
      ((catalog.segments.map SegmentMeta.span).filter fun span =>
        span.2.1 ≤ stop ∧ start ≤ span.2.2).map Prod.fst := by
    intro catalog
    rw [List.filter_map, List.map_map]
    rfl
  rw [bySpan, bySpan, same]

/-- The tasks of a migration. -/
def Task.Migrates : Task → Prop
  | .age _ _ => True
  | .read _ => True
  | .put _ _ _ => True
  | .relocate _ _ => True
  | .unlink _ _ => True
  | _ => False

/-- The places of removed files. -/
def HuntRace.gone (s : HuntRace) : List Place :=
  s.removed.map Place.file

/-- What the reader has to do still gives what it has to show. -/
def Reader.Follows (json : JsonText) (store : ColumnarStore) (written : Files) (gone : List Place)
    (start stop : Int) (total : List Event) : Reader → Prop
  | .listing => True
  | .reading rest events =>
      Listed store written gone rest ∧
        events ++ shownBy json written start stop (rest.map SegmentMeta.id) = total
  | .done result => result = .ok total

/-- The invariant of a hunt that has been timely so far. -/
structure HuntRace.Sound (json : JsonText) (before : ColumnarStore) (written : Files)
    (start stop : Int) (s : HuntRace) : Prop where
  safe : Safe s.machine.store written []
  knows : ∀ task, s.migration = some task → task.Migrates ∧
    Knows json s.machine.store written task
  spans : s.machine.store.catalog.segments.map SegmentMeta.span =
    before.catalog.segments.map SegmentMeta.span
  removed : ∀ path, path ∈ s.removed → s.machine.store.files.lookup path = none
  reader : s.reader.Follows json s.machine.store written s.gone start stop
    (shownBy json written start stop ((before.catalog.overlapping start stop).map SegmentMeta.id))

section Migration

variable {json : JsonText} {m : Machine} {written : Files} {task : Task}

theorem Task.Migrates.keeps (migrates : task.Migrates) (safe : Safe m.store written [])
    (knows : Knows json m.store written task) :
    Safe (task.step json m .done).1.store written [] ∧
      ∀ next, (task.step json m .done).2.task = some next →
        next.Migrates ∧ Knows json (task.step json m .done).1.store written next := by
  have gone : task.gone = [] := by
    cases task <;> first | rfl | exact absurd migrates id
  have record : task.record json written = written := by
    cases task <;> first | rfl | exact absurd migrates id
  have tolerates : task.Tolerates m.store .done := by
    cases task <;> trivial
  have nextMigrates : ∀ next, (task.step json m .done).2 = .more next → next.Migrates := by
    intro next more
    cases task with
    | age now maxWarmAge =>
        rw [Task.step] at more
        split at more
        · cases more
        · cases more
          trivial
    | read aged =>
        cases aged with
        | nil => cases more
        | cons seg rest =>
            rw [Task.step] at more
            split at more
            · cases more
            · cases more
              trivial
    | put seg data rest =>
        cases more
        trivial
    | relocate seg rest =>
        rw [Task.step] at more
        split at more
        · cases more
          trivial
        · cases more
          trivial
    | unlink seg rest =>
        cases more
        trivial
    | _ => exact absurd migrates id
  rw [← gone] at safe
  have holds := Process.Holds.effect safe knows tolerates
  rw [Process.advance, record] at holds
  generalize (task.step json m .done).1 = after at holds ⊢
  generalize equal : (task.step json m .done).2 = progress at holds nextMigrates ⊢
  cases progress with
  | finished => exact ⟨holds, by rintro next ⟨⟩⟩
  | failed => exact ⟨holds, by rintro next ⟨⟩⟩
  | more next =>
      have nothing : next.gone = [] := by
        have migrates := nextMigrates next rfl
        cases next <;> first | rfl | exact absurd migrates id
      have both :
        Safe after.store written next.gone ∧ Knows json after.store written next := holds
      rw [nothing] at both
      refine ⟨both.1, fun other more => ?_⟩
      cases more
      exact ⟨nextMigrates next rfl, both.2⟩

/-- A migration neither adds nor drops segments, and keeps their times. -/
theorem Task.Migrates.spans (migrates : task.Migrates) :
    (task.step json m .done).1.store.catalog.segments.map SegmentMeta.span =
      m.store.catalog.segments.map SegmentMeta.span := by
  cases task with
  | age now maxWarmAge =>
      rw [Task.step]
      split <;> rfl
  | read aged =>
      cases aged with
      | nil => rfl
      | cons seg rest =>
          rw [Task.step]
          split <;> rfl
  | put seg data rest => rfl
  | relocate seg rest =>
      rw [Task.step]
      split
      · exact Catalog.migrate_map SegmentMeta.span (fun _ _ _ => rfl) _ _ _ _
      · rfl
  | unlink seg rest => rfl
  | _ => exact absurd migrates id

/-- It writes no file, and removes the one that it says. -/
theorem Task.Migrates.files (migrates : task.Migrates) {path : String}
    (missing : path ∈ task.removes ∨ m.store.files.lookup path = none) :
    (task.step json m .done).1.store.files.lookup path = none := by
  cases task with
  | age now maxWarmAge =>
      rcases missing with removes | missing
      · exact absurd removes List.not_mem_nil
      · rw [Task.step]
        split <;> exact missing
  | read aged =>
      rcases missing with removes | missing
      · exact absurd removes List.not_mem_nil
      · cases aged with
        | nil => exact missing
        | cons seg rest =>
            rw [Task.step]
            split <;> exact missing
  | put seg data rest =>
      rcases missing with removes | missing
      · exact absurd removes List.not_mem_nil
      · exact missing
  | relocate seg rest =>
      rcases missing with removes | missing
      · exact absurd removes List.not_mem_nil
      · rw [Task.step]
        split <;> exact missing
  | unlink seg rest =>
      by_cases same : path = seg.path
      · rw [same]
        exact AList.lookup_erase seg.path m.store.files
      · rcases missing with removes | missing
        · exact absurd (List.mem_singleton.mp removes) same
        · exact (AList.lookup_erase_ne same).trans missing
  | _ => exact absurd migrates id

/-- What a reader has listed stays where it was, but for the files that are removed. -/
theorem Task.Migrates.listed (migrates : task.Migrates) (safe : Safe m.store written [])
    (knows : Knows json m.store written task) {gone : List Place} {segments : List SegmentMeta}
    (listed : Listed m.store written gone segments) :
    Listed (task.step json m .done).1.store written
      (task.removes.map Place.file ++ gone) segments := by
  cases task with
  | age now maxWarmAge =>
      rw [Task.step]
      split <;> exact listed
  | read aged =>
      cases aged with
      | nil => exact listed
      | cons seg rest =>
          rw [Task.step]
          split <;> exact listed
  | put seg data rest =>
      rcases knows with ⟨aged, isData⟩
      have named := (safe.memory.entry seg (aged.listed seg List.mem_cons_self).1).1
      exact listed.putObject named aged.attached isData .done
  | relocate seg rest =>
      rw [Task.step]
      split
      · exact listed.recatalog _
      · exact listed
  | unlink seg rest =>
      refine listed.frame ⟨rfl, rfl⟩ (fun _ member => List.mem_cons_of_mem _ member)
        fun s member rows isWritten found => ?_
      by_cases same : s.place = .file seg.path
      · rw [same]
        exact Or.inl List.mem_cons_self
      · rw [Task.step, rowsAt_removeFile_ne .done same]
        exact Or.inr ⟨isWritten, found⟩
  | _ => exact absurd migrates id

end Migration

section Race

variable {json : JsonText} {before : ColumnarStore} {written : Files} {start stop : Int}
  {s s' : HuntRace} {event : RaceEvent}

theorem HuntRace.Sound.migrate {task : Task} (sound : s.Sound json before written start stop)
    (found : s.migration = some task) :
    HuntRace.Sound json before written start stop
      { s with
        machine := (task.step json s.machine .done).1
        migration := (task.step json s.machine .done).2.task
        removed := task.removes ++ s.removed } := by
  rcases sound.knows task found with ⟨migrates, knows⟩
  rcases migrates.keeps sound.safe knows with ⟨safe, next⟩
  refine
    { safe := safe
      knows := next
      spans := migrates.spans.trans sound.spans
      removed := fun path member => ?_
      reader := ?_ }
  · exact migrates.files ((List.mem_append.mp member).imp_right (sound.removed path))
  · have follows := sound.reader
    change Reader.Follows json _ written
      ((task.removes ++ s.removed).map Place.file) start stop _ s.reader
    generalize s.reader = reader at follows ⊢
    cases reader with
    | listing => trivial
    | reading rest events =>
        rw [List.map_append]
        exact ⟨migrates.listed sound.safe knows follows.1, follows.2⟩
    | done result => exact follows

theorem HuntRace.Sound.read {reader : Reader} (sound : s.Sound json before written start stop)
    (timely : s.Timely .read s')
    (step : s.reader.step json s.machine.store start stop = some reader) :
    HuntRace.Sound json before written start stop { s with reader := reader } := by
  refine
    { safe := sound.safe
      knows := sound.knows
      spans := sound.spans
      removed := sound.removed
      reader := ?_ }
  have follows := sound.reader
  have early : ∀ seg rest events, s.reader = .reading (seg :: rest) events →
      seg.tier ≠ .cold → seg.path ∉ s.removed := timely
  generalize s.reader = old at follows step early
  cases old with
  | listing =>
      cases step
      refine ⟨?_, ?_⟩
      · refine (sound.safe.memory.sublist List.filter_sublist).frame ⟨rfl, rfl⟩
          (fun _ member => absurd member List.not_mem_nil) fun _ _ _ isWritten found => ?_
        exact Or.inr ⟨isWritten, found⟩
      · rw [overlapping_ids sound.spans]
        rfl
  | reading segments events =>
      rcases follows with ⟨listed, total⟩
      cases segments with
      | nil =>
          cases step
          rw [← total]
          exact congrArg Except.ok (List.append_nil events).symm
      | cons seg rest =>
          have stays : seg.place ∉ s.gone := by
            intro isGone
            rcases List.mem_map.mp isGone with ⟨path, isRemoved, place⟩
            have isFile : seg.tier ≠ .cold := by
              intro cold
              rw [place_of_cold cold] at place
              cases place
            have samePath : seg.path = path := by
              rw [← place_path seg, ← place]
              rfl
            rw [← samePath] at isRemoved
            exact early seg rest events rfl isFile isRemoved
          rcases listed.backed seg List.mem_cons_self with isGone | ⟨rows, isWritten, found⟩
          · exact absurd isGone stays
          · rw [Reader.step, readInRange_of_rowsAt isWritten found] at step
            cases step
            refine ⟨listed.sublist (List.sublist_cons_self seg rest), ?_⟩
            rw [← total, List.append_assoc]
            rfl
  | done result => cases step

/-- A read that comes too late fails. -/
theorem HuntRace.Sound.late {reader : Reader} (sound : s.Sound json before written start stop)
    (late : ¬ s.Timely .read s')
    (step : s.reader.step json s.machine.store start stop = some reader) :
    ∃ error, reader = .done (.error error) := by
  rw [HuntRace.Timely] at late
  push Not at late
  rcases late with ⟨seg, rest, events, equal, isFile, isRemoved⟩
  have missing := sound.removed seg.path isRemoved
  have fails : s.machine.store.readRows seg = .error (.openSegment seg.path) := by
    unfold ColumnarStore.readRows
    split
    · next cold _ => exact absurd cold isFile
    · rw [missing, Option.elim_none]
  have error :
      s.machine.store.readInRange json start stop seg = .error (.openSegment seg.path) := by
    rw [ColumnarStore.readInRange, fails]
    rfl
  rw [equal, Reader.step, error] at step
  cases step
  exact ⟨_, rfl⟩

/-- A hunt that is over stays over. -/
theorem done_stays {schedule : List RaceEvent} {result : Except IndexError (List Event)}
    (finished : s.reader = .done result)
    (followed : TransitionSystem.follow (HuntRace.step json start stop) s schedule = some s') :
    s'.reader = .done result := by
  induction schedule generalizing s with
  | nil =>
      cases followed
      exact finished
  | cons event schedule inductionHypothesis =>
      rcases Option.bind_eq_some_iff.mp followed with ⟨middle, first, rest⟩
      refine inductionHypothesis ?_ rest
      cases event with
      | read =>
          rw [HuntRace.step, finished] at first
          cases first
      | migrate =>
          rcases Option.map_eq_some_iff.mp first with ⟨task, _, rfl⟩
          exact finished

theorem HuntRace.Sound.result_iff {schedule : List RaceEvent}
    {result : Except IndexError (List Event)} (sound : s.Sound json before written start stop)
    (followed : TransitionSystem.follow (HuntRace.step json start stop) s schedule = some s')
    (finished : s'.reader = .done result) :
    result = .ok (shownBy json written start stop
        ((before.catalog.overlapping start stop).map SegmentMeta.id)) ↔
      TransitionSystem.Along (HuntRace.step json start stop) HuntRace.Timely s schedule := by
  induction schedule generalizing s with
  | nil =>
      cases followed
      have follows := sound.reader
      rw [finished] at follows
      exact iff_of_true follows trivial
  | cons event schedule inductionHypothesis =>
      rcases Option.bind_eq_some_iff.mp followed with ⟨middle, first, rest⟩
      by_cases timely : s.Timely event middle
      · have next : middle.Sound json before written start stop := by
          cases event with
          | read =>
              rcases Option.map_eq_some_iff.mp first with ⟨reader, step, rfl⟩
              exact sound.read timely step
          | migrate =>
              rcases Option.map_eq_some_iff.mp first with ⟨task, found, rfl⟩
              exact sound.migrate found
        rw [inductionHypothesis next rest]
        constructor
        · exact fun along => ⟨middle, first, timely, along⟩
        · rintro ⟨other, step, _, along⟩
          rw [first] at step
          cases step
          exact along
      · cases event with
        | read =>
            rcases Option.map_eq_some_iff.mp first with ⟨reader, step, rfl⟩
            rcases sound.late timely step with ⟨error, rfl⟩
            have same := done_stays rfl rest
            rw [finished] at same
            cases same
            refine iff_of_false (fun ok => nomatch ok) ?_
            rintro ⟨other, step, isTimely, _⟩
            exact timely isTimely
        | migrate => exact absurd trivial timely

/-- A hunt beside a migration returns what it returns alone, if and only if it comes to no
local segment of its list after the migration has removed the file. -/
theorem hunt_iff_timely {m : Machine} (safe : Safe m.store written []) {now maxWarmAge : Int}
    {schedule : List RaceEvent} {result : Except IndexError (List Event)}
    (followed : TransitionSystem.follow (HuntRace.step json start stop)
      (.start m now maxWarmAge) schedule = some s)
    (finished : s.reader = .done result) :
    (∃ events, m.store.readRange json start stop = .ok events) ∧
      (result = m.store.readRange json start stop ↔
        TransitionSystem.Along (HuntRace.step json start stop) HuntRace.Timely
          (.start m now maxWarmAge) schedule) := by
  have sound : (HuntRace.start m now maxWarmAge).Sound json m.store written start stop :=
    { safe := safe
      knows := fun task equal => by
        cases equal
        exact ⟨trivial, trivial⟩
      spans := rfl
      removed := fun path member => absurd member List.not_mem_nil
      reader := trivial }
  have alone := safe.readRange json start stop
  refine ⟨⟨_, alone⟩, ?_⟩
  rw [alone]
  exact sound.result_iff followed finished

/-- The store with one local segment. -/
def oneSegment : Machine where
  store := ((ColumnarStore.new "cold"
    (some { keyStart := "segments", objects := ∅ })).writeSegment
    plainJson (oneEvent "a" 7).events 7 7).1
  torn := false

theorem oneSegment_safe : ∃ written, Safe oneSegment.store written [] := by
  have followed : TransitionSystem.follow
      (TransitionSystem.guarded Process.Careful (Process.step plainJson))
      (.start "cold" (some { keyStart := "segments", objects := ∅ }))
      [.begin (.writeSegment (oneEvent "a" 7)), .effect .done, .effect .done] =
        some
          { machine := oneSegment
            phase := .idle
            written := (∅ : Files).insert (oneEvent "a" 7).id
              (eventsToBatch plainJson (oneEvent "a" 7).events) } := rfl
  have run : ((lives plainJson "cold"
      (some { keyStart := "segments", objects := ∅ })).restrict Process.Careful).Reachable _ :=
    ⟨_, rfl, TransitionSystem.Reaches.of_guarded (fun _ _ _ step => step) followed⟩
  exact ⟨_, holds_of_careful run⟩

/-- The migration archives the segment between the two steps of the reader. -/
def lateSchedule : List RaceEvent :=
  [.read, .migrate, .migrate, .migrate, .migrate, .migrate, .read]

/-- The reader has read the segment before its file is removed. -/
def timelySchedule : List RaceEvent :=
  [.read, .migrate, .migrate, .migrate, .migrate, .read, .migrate, .read]

theorem not_hunt_alone :
    ¬ ∀ json (m : Machine) written, Safe m.store written [] →
      ∀ now maxWarmAge start stop schedule s result,
        TransitionSystem.follow (HuntRace.step json start stop) (.start m now maxWarmAge) schedule =
          some s → s.reader = .done result → result = m.store.readRange json start stop := by
  intro always
  rcases oneSegment_safe with ⟨written, safe⟩
  have fails : ((TransitionSystem.follow (HuntRace.step plainJson 100 100)
      (.start oneSegment 500 50) lateSchedule).map fun s =>
        match s.reader with
        | .done result => result.toOption.isNone
        | _ => false) = some true := by
    decide +kernel
  rcases Option.map_eq_some_iff.mp fails with ⟨s, followed, failed⟩
  split at failed
  · next result finished =>
      have same := always _ _ _ safe _ _ _ _ _ s result followed finished
      rw [same, safe.readRange plainJson 100 100] at failed
      cases failed
  · cases failed

theorem hunt_iff_timely_oneSegment :
    ∃ s result, TransitionSystem.follow (HuntRace.step plainJson 100 100)
        (.start oneSegment 500 50) timelySchedule = some s ∧ s.reader = .done result ∧
      (result = oneSegment.store.readRange plainJson 100 100 ↔
        TransitionSystem.Along (HuntRace.step plainJson 100 100) HuntRace.Timely
          (.start oneSegment 500 50) timelySchedule) := by
  rcases oneSegment_safe with ⟨written, safe⟩
  have ends : ((TransitionSystem.follow (HuntRace.step plainJson 100 100)
      (.start oneSegment 500 50) timelySchedule).map fun s =>
        match s.reader with
        | .done result => result.toOption.isSome
        | _ => false) = some true := by
    decide +kernel
  rcases Option.map_eq_some_iff.mp ends with ⟨s, followed, succeeded⟩
  split at succeeded
  · next result finished =>
      exact ⟨s, result, followed, finished, (hunt_iff_timely safe followed finished).2⟩
  · cases succeeded

end Race

end Index
end Sigil
