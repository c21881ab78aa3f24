import Sigil.Library.BoundedQueue
import Sigil.Storage.AlertList

namespace Sigil
namespace Api

/-!
# The ring of recent alerts

The last alerts are kept in memory, and every alert is written through to the durable store.
A restart fills the ring from the store again.  The store lists by time and lists an alert
once, so the ring survives a restart when the alerts have come in the order of their times and
none of them twice.
-/

open Sigil.Core Sigil.Storage Library

/-- The ring, its bound, the durable store and what the stream has been sent. -/
structure AlertStore where
  inner : List Alert
  cap : Nat
  positive : 0 < cap
  store : Option AlertTable
  sent : List AlertRecord

namespace AlertStore

def new (cap : Nat) : AlertStore where
  inner := []
  cap := max cap 1
  positive := by omega
  store := none
  sent := []

/-- Attach a durable store. -/
def withStore (self : AlertStore) (store : AlertTable) : AlertStore :=
  { self with store := some store }

/-- Load the stored alerts into the ring; the list is newest first. -/
def hydrate (self : AlertStore) : AlertStore :=
  match self.store with
  | none => self
  | some table =>
      match table.listAlerts self.cap none with
      | .error _ => self
      | .ok recs =>
          { self with
            inner := (recs.reverse.map AlertRecord.alert).foldl (BoundedQueue.push self.cap)
              self.inner }

variable (fingerprint : Alert → String)

/-- Record an alert in the ring and in the store, and send it to the stream.  An alert that the
store cannot take is sent all the same. -/
def push (self : AlertStore) (now : Int) (alert : Alert) : AlertStore :=
  let kept := { self with inner := BoundedQueue.push self.cap self.inner alert }
  let fresh := AlertRecord.new fingerprint now alert
  match self.store with
  | none => { kept with sent := self.sent ++ [fresh] }
  | some table =>
      match table.upsertAlert fingerprint now alert with
      | .error _ => { kept with sent := self.sent ++ [fresh] }
      | .ok (table, inserted) =>
          { kept with store := some table, sent := self.sent ++ [inserted] }

/-- Patch a stored alert, as the handlers do. -/
def patch (self : AlertStore) (now : Int) (fp : String) (patch : AlertPatch) : AlertStore :=
  match self.store with
  | none => self
  | some table =>
      match table.patchAlert now fp patch with
      | .error _ => self
      | .ok (table, _) => { self with store := some table }

/-- The number of alerts that are retained. -/
def len (self : AlertStore) : Nat :=
  match self.store with
  | none => self.inner.length
  | some table => table.alertCount

/-- The most recent alerts, newest first. -/
def recent (self : AlertStore) (limit : Nat) (technique : Option String) : List Alert :=
  (self.inner.reverse.filter (AlertTable.hasTechnique technique)).take limit

/-- The most recent records, from the store when there is one. -/
def records (self : AlertStore) (now : Int) (limit : Nat) (technique : Option String) :
    List AlertRecord :=
  match self.store with
  | none => (self.recent limit technique).map (AlertRecord.new fingerprint now)
  | some table =>
      match table.listAlerts limit technique with
      | .error _ => []
      | .ok recs => recs

/-- The same store after the process has been started again. -/
def restart (self : AlertStore) : AlertStore :=
  hydrate { self with inner := [], sent := [] }

end AlertStore

/-! ## Runs -/

/-- What happens to the alerts while the process runs. -/
inductive RingTurn where
  | push (alert : Alert) (now : Int)
  | patch (fp : String) (patch : AlertPatch) (now : Int)

/-- The alert that a turn pushes. -/
def RingTurn.pushed : RingTurn → Option Alert
  | .push alert _ => some alert
  | .patch _ _ _ => none

section Runs

variable (fingerprint : Alert → String)

def AlertStore.turn (self : AlertStore) : RingTurn → AlertStore
  | .push alert now => self.push fingerprint now alert
  | .patch fp patch now => self.patch now fp patch

/-- The store after some turns. -/
def AlertStore.run (self : AlertStore) (turns : List RingTurn) : AlertStore :=
  turns.foldl (AlertStore.turn fingerprint) self

/-- A fresh ring over an empty durable store. -/
def AlertStore.fresh (cap : Nat) : AlertStore :=
  (AlertStore.new cap).withStore noAlerts

/-- The ring holds the last alerts of the history, and the store holds each of them once. -/
structure AlertStore.Records (ring : AlertStore) (cap : Nat) (history : List Alert) : Prop where
  cap : ring.cap = max cap 1
  inner : ring.inner = history.rtake ring.cap
  store : ∃ table, ring.store = some table ∧
    RowsOf fingerprint table (Keyed.firsts fingerprint history)

variable {fingerprint} {self : AlertStore} {cap : Nat} {history : List Alert}

theorem AlertStore.records_fresh : (AlertStore.fresh cap).Records fingerprint cap [] where
  cap := rfl
  inner := by
    rw [List.rtake_nil]
    rfl
  store := ⟨noAlerts, rfl, rowsOf_empty⟩

theorem AlertStore.Records.push (records : self.Records fingerprint cap history) (now : Int)
    (alert : Alert) : (self.push fingerprint now alert).Records fingerprint cap
      (history ++ [alert]) := by
  rcases records.store with ⟨table, attached, rowsOf⟩
  rcases rowsOf.upsertAlert now alert with ⟨after, inserted, upserted, rows⟩
  have pushed : self.push fingerprint now alert =
      { self with
        inner := BoundedQueue.push self.cap self.inner alert
        store := some after
        sent := self.sent ++ [inserted] } := by
    simp only [AlertStore.push, attached, upserted]
  rw [pushed]
  refine ⟨records.cap, ?_, after, rfl, ?_⟩
  · change BoundedQueue.push self.cap self.inner alert = _
    rw [records.inner, BoundedQueue.push_rtake self.positive]
  · rw [Keyed.firsts_concat]
    exact rows

theorem AlertStore.Records.patch (records : self.Records fingerprint cap history) (now : Int)
    (fp : String) (patch : AlertPatch) :
    (self.patch now fp patch).Records fingerprint cap history := by
  rcases records.store with ⟨table, attached, rowsOf⟩
  rcases rowsOf.patchAlert now fp patch with ⟨after, answer, patched, rows⟩
  have result : self.patch now fp patch = { self with store := some after } := by
    simp only [AlertStore.patch, attached, patched]
  rw [result]
  exact ⟨records.cap, records.inner, after, rfl, rows⟩

theorem AlertStore.records_run (turns : List RingTurn) :
    ((AlertStore.fresh cap).run fingerprint turns).Records fingerprint cap
      (turns.filterMap RingTurn.pushed) := by
  induction turns using List.reverseRecOn with
  | nil => exact records_fresh
  | append_singleton turns turn inductionHypothesis =>
      rw [AlertStore.run, List.foldl_append, List.filterMap_append]
      cases turn with
      | push alert now => exact inductionHypothesis.push now alert
      | patch fp patch now =>
          have same : [RingTurn.patch fp patch now].filterMap RingTurn.pushed = [] := rfl
          rw [same, List.append_nil]
          exact inductionHypothesis.patch now fp patch

/-! ## What is answered -/

/-- After any run the ring holds the last alerts that were pushed, and the store lists every alert
that was pushed once, newest first. -/
theorem AlertStore.run_answers (fingerprint : Alert → String) (cap : Nat) (turns : List RingTurn)
    (now : Int) (limit : Nat) (technique : Option String) :
    let self := (AlertStore.fresh cap).run fingerprint turns
    let pushed := turns.filterMap RingTurn.pushed
    self.recent limit technique =
        ((pushed.rtake (max cap 1)).reverse.filter
          (AlertTable.hasTechnique technique)).take limit ∧
      self.len = (Keyed.firsts fingerprint pushed).length ∧
      ∃ listed : List Alert,
        (self.records fingerprint now limit technique).map AlertRecord.alert = listed.take limit ∧
        listed.Perm ((Keyed.firsts fingerprint pushed).filter
          (AlertTable.hasTechnique technique)) ∧
        listed.Pairwise (NewestFirst fingerprint) := by
  intro self pushed
  have records : self.Records fingerprint cap pushed := AlertStore.records_run turns
  rcases records.store with ⟨table, attached, rowsOf⟩
  rcases rowsOf.listAlerts limit technique with ⟨recs, listed, answered, same, ordered, cut⟩
  refine ⟨?_, ?_, listed, ?_, same, ordered⟩
  · rw [AlertStore.recent, records.inner, records.cap]
  · simp only [AlertStore.len, attached]
    exact rowsOf.alertCount
  · simp only [AlertStore.records, attached, answered]
    exact cut

/-- Two alerts that come before each other in the list have one fingerprint. -/
theorem fingerprint_eq_of_newestFirst {a b : Alert} (first : NewestFirst fingerprint a b)
    (second : NewestFirst fingerprint b a) : fingerprint a = fingerprint b := by
  rcases first with later | ⟨sameTime, below⟩
  · rcases second with earlier | ⟨sameTime, _⟩
    · exact absurd (later.trans earlier) (lt_irrefl _)
    · exact absurd later (by rw [sameTime]; exact lt_irrefl _)
  · rcases second with earlier | ⟨_, above⟩
    · exact absurd earlier (by rw [sameTime]; exact lt_irrefl _)
    · exact le_antisymm below above

/-- Loading the list of the store into an empty ring gives the last alerts of its reverse. -/
theorem AlertStore.restart_inner {table : AlertTable} {recs : List AlertRecord}
    (attached : self.store = some table)
    (answered : table.listAlerts self.cap none = .ok recs) {listed : List Alert}
    (cut : recs.map AlertRecord.alert = listed.take self.cap) :
    self.restart.inner = listed.reverse.rtake self.cap := by
  have loaded : self.restart.inner =
      (recs.reverse.map AlertRecord.alert).foldl (BoundedQueue.push self.cap) [] := by
    simp only [AlertStore.restart, AlertStore.hydrate, attached, answered]
  have empty : ([] : List Alert) = ([] : List Alert).rtake self.cap := (List.rtake_nil _).symm
  rw [loaded, List.map_reverse, cut, empty, BoundedQueue.foldl_push self.positive, List.nil_append,
    List.rtake_eq_reverse_take_reverse, List.rtake_eq_reverse_take_reverse, List.reverse_reverse,
    List.reverse_reverse, List.take_take, Nat.min_self]

/-- When alerts of different fingerprints come in the order in which the store lists them, the ring
after a restart is the ring before, and the store answers what the ring answers.  As long as
nothing has left the ring, this is the only order that survives a restart. -/
theorem AlertStore.restart_run (fingerprint : Alert → String) (cap : Nat) (turns : List RingTurn)
    (distinct : ((turns.filterMap RingTurn.pushed).map fingerprint).Nodup) :
    let self := (AlertStore.fresh cap).run fingerprint turns
    let pushed := turns.filterMap RingTurn.pushed
    ((pushed.Pairwise fun early late => NewestFirst fingerprint late early) →
      self.restart.inner = self.inner ∧
        ∀ now limit, limit ≤ self.cap →
          (self.records fingerprint now limit none).map AlertRecord.alert =
            self.recent limit none) ∧
    (pushed.length ≤ cap → self.restart.inner = self.inner →
      pushed.Pairwise fun early late => NewestFirst fingerprint late early) := by
  intro self pushed
  have records : self.Records fingerprint cap pushed := AlertStore.records_run turns
  rcases records.store with ⟨table, attached, rowsOf⟩
  rw [Keyed.firsts_eq_self distinct] at rowsOf
  have all : ∀ list : List Alert, list.filter (AlertTable.hasTechnique none) = list :=
    fun list => List.filter_eq_self.mpr fun _ _ => rfl
  constructor
  · intro ascending
    -- the list of the store is the history from its end
    have listed : ∀ limit, ∃ recs, table.listAlerts limit none = .ok recs ∧
        recs.map AlertRecord.alert = pushed.reverse.take limit := by
      intro limit
      rcases rowsOf.listAlerts limit none with ⟨recs, listed, answered, same, ordered, cut⟩
      rw [all] at same
      have equal : listed = pushed.reverse := by
        refine List.Perm.eq_of_pairwise ?_ ordered (List.pairwise_reverse.mpr ascending)
          (same.trans (List.reverse_perm _).symm)
        intro a b isA isB first second
        exact List.inj_on_of_nodup_map distinct (same.mem_iff.mp isA) (List.mem_reverse.mp isB)
          (fingerprint_eq_of_newestFirst first second)
      exact ⟨recs, answered, cut.trans (congrArg (List.take limit) equal)⟩
    constructor
    · rcases listed self.cap with ⟨recs, answered, cut⟩
      rw [AlertStore.restart_inner attached answered cut, List.reverse_reverse, records.inner]
    · intro now limit within
      rcases listed limit with ⟨recs, answered, cut⟩
      have answer : self.records fingerprint now limit none = recs := by
        simp only [AlertStore.records, attached, answered]
      rw [answer, cut, AlertStore.recent, all, records.inner,
        List.rtake_eq_reverse_take_reverse, List.reverse_reverse, List.take_take,
        Nat.min_eq_left within]
  · intro room same
    rcases rowsOf.listAlerts self.cap none with ⟨recs, listed, answered, perm, ordered, cut⟩
    rw [all] at perm
    have whole : ∀ list : List Alert, list.length ≤ cap → list.rtake self.cap = list := by
      intro list short
      have fits : list.length - self.cap = 0 := by
        rw [records.cap]
        omega
      rw [List.rtake, fits, List.drop_zero]
    rw [AlertStore.restart_inner attached answered cut, records.inner, whole pushed room,
      whole listed.reverse (by rw [List.length_reverse, perm.length_eq]; exact room)] at same
    rw [← same, List.pairwise_reverse]
    exact ordered

end Runs

/-- Two alerts, and a note on the first of them, in a ring for one. -/
def twoAlerts : List RingTurn :=
  [.push sudoAlert 1, .patch (sudoPrint sudoAlert) { status := some .closed } 2,
    .push { sudoAlert with ruleId := "su", ts := 120 } 3]

theorem AlertStore.restart_run_twoAlerts :
    ((AlertStore.fresh 1).run sudoPrint twoAlerts).restart.inner =
      [{ sudoAlert with ruleId := "su", ts := 120 }] := by
  have kept := ((AlertStore.restart_run sudoPrint 1 twoAlerts (by decide)).1 (by decide)).1
  rw [kept]
  decide

end Api
end Sigil
