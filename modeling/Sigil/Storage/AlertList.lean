import Mathlib.Data.Set.List
import Sigil.Library.Keyed
import Sigil.Library.Pointwise
import Sigil.Library.Ties
import Sigil.Storage.Alerts

namespace Sigil
namespace Storage

/-!
# Lists of alerts

The table answers with the alerts that have been given to it, each one once, the newest first.
Alerts of one time stand in the order of their fingerprints, because the rows are read in the
order of the keys and the sort is stable.  Patches make no difference to what is listed.
-/

open Sigil.Core Library

namespace AlertTable

/-- The rows in the order of their keys. -/
def orderedRows (table : AlertTable) : List (String × Option AlertRecord) :=
  (table.rows.entries.map fun row => (row.1, row.2)).insertionSort fun a b => a.1 ≤ b.1

/-- The record of a row. -/
def parseRow (row : String × Option AlertRecord) : Except StoreError AlertRecord :=
  row.2.elim (.error (.unparsable row.1)) .ok

/-- The alert has the technique, if one is asked for. -/
def hasTechnique (technique : Option String) (alert : Alert) : Bool :=
  technique.all fun tech => alert.technique = some tech

/-- The most recent alerts, newest first, of one technique or of all. -/
def listAlerts (table : AlertTable) (limit : Nat) (technique : Option String) :
    Except StoreError (List AlertRecord) := do
  let recs ← table.orderedRows.mapM parseRow
  let out := recs.filter fun rec => hasTechnique technique rec.alert
  return (sortDown (fun rec : AlertRecord => rec.alert.ts) out).take limit

/-- The number of rows. -/
def alertCount (table : AlertTable) : Nat :=
  table.rows.entries.length

variable (fingerprint : Alert → String)

/-- Insert an alert if its fingerprint is new, and answer its record. -/
def upsertAlert (table : AlertTable) (now : Int) (alert : Alert) :
    Except StoreError (AlertTable × AlertRecord) := do
  match ← table.getAlert (fingerprint alert) with
  | some existing => return (table, existing)
  | none =>
      let inserted := AlertRecord.new fingerprint now alert
      return (table.writeAlert inserted, inserted)

/-- Apply a patch to one alert and answer its record, or nothing if there is no such alert. -/
def patchAlert (table : AlertTable) (now : Int) (fp : String) (patch : AlertPatch) :
    Except StoreError (AlertTable × Option AlertRecord) := do
  match ← table.getAlert fp with
  | none => return (table, none)
  | some found =>
      let patched := patch.apply now found
      return (table.writeAlert patched, some patched)

end AlertTable

/-! ## Rows of given alerts -/

section Rows

variable (fingerprint : Alert → String)

/-- The alert of a row under a fingerprint. -/
def AlertTable.alertAt (table : AlertTable) (fp : String) : Option (Option Alert) :=
  (table.rows.lookup fp).map (Option.map AlertRecord.alert)

/-- The rows are those of the alerts, each one under its fingerprint. -/
structure RowsOf (table : AlertTable) (alerts : List Alert) : Prop where
  distinct : (alerts.map fingerprint).Nodup
  stored : ∀ fp, table.alertAt fp = (alerts.find? fun alert => fingerprint alert = fp).map some

variable {fingerprint} {table : AlertTable} {alerts : List Alert}

theorem rowsOf_empty : RowsOf fingerprint noAlerts [] where
  distinct := List.nodup_nil
  stored := fun _ => rfl

theorem RowsOf.getAlert (rowsOf : RowsOf fingerprint table alerts) (fp : String) :
    ∃ found, table.getAlert fp = .ok found ∧
      (found.map AlertRecord.alert = alerts.find? fun alert => fingerprint alert = fp) ∧
      ∀ rec ∈ found, rec.fingerprint = fp := by
  have row := rowsOf.stored fp
  rw [AlertTable.alertAt] at row
  rw [AlertTable.getAlert]
  cases lookup : table.rows.lookup fp with
  | none =>
      rw [lookup] at row
      exact ⟨none, rfl, (Option.map_eq_none_iff.mp row.symm).symm, fun _ impossible => by
        cases impossible⟩
  | some stored =>
      rw [lookup] at row
      cases stored with
      | none =>
          rcases Option.map_eq_some_iff.mp row.symm with ⟨_, _, impossible⟩
          cases impossible
      | some rec =>
          rcases Option.map_eq_some_iff.mp row.symm with ⟨alert, found, same⟩
          refine ⟨some rec, rfl, same.symm.trans found.symm, ?_⟩
          rintro _ ⟨rfl⟩
          exact table.keyed fp rec lookup

/-- Writing the record of an alert, new or known, gives the rows of the alerts with it. -/
theorem RowsOf.writeAlert (rowsOf : RowsOf fingerprint table alerts) {rec : AlertRecord}
    (isKey : rec.fingerprint = fingerprint rec.alert)
    (known : ∀ alert ∈ alerts.find? (fun alert => fingerprint alert = rec.fingerprint),
      alert = rec.alert) :
    RowsOf fingerprint (table.writeAlert rec) (Keyed.addNew fingerprint alerts rec.alert) where
  distinct := Keyed.nodup_addNew rowsOf.distinct rec.alert
  stored := by
    intro fp
    rw [Keyed.find_addNew, AlertTable.alertAt, AlertTable.writeAlert, ← isKey]
    by_cases same : fp = rec.fingerprint
    · subst same
      rw [AList.lookup_insert, if_pos rfl]
      cases found : alerts.find? fun alert => fingerprint alert = rec.fingerprint with
      | none => rfl
      | some alert =>
          rw [known alert found]
          rfl
    · rw [AList.lookup_insert_ne same, if_neg (Ne.symm same), Option.or_none]
      exact rowsOf.stored fp

theorem RowsOf.upsertAlert (rowsOf : RowsOf fingerprint table alerts) (now : Int) (alert : Alert) :
    ∃ after rec, table.upsertAlert fingerprint now alert = .ok (after, rec) ∧
      RowsOf fingerprint after (Keyed.addNew fingerprint alerts alert) := by
  rcases rowsOf.getAlert (fingerprint alert) with ⟨found, get, isAlert, _⟩
  rw [AlertTable.upsertAlert, get]
  cases found with
  | some existing =>
      have present : fingerprint alert ∈ alerts.map fingerprint := by
        have first := List.find?_some isAlert.symm
        exact List.mem_map.mpr ⟨_, List.mem_of_find?_eq_some isAlert.symm,
          of_decide_eq_true first⟩
      refine ⟨table, existing, rfl, ?_⟩
      rw [Keyed.addNew, if_pos present]
      exact rowsOf
  | none =>
      refine ⟨_, _, rfl, rowsOf.writeAlert rfl fun other isOther => ?_⟩
      have absent : alerts.find? (fun other => fingerprint other = fingerprint alert) = none :=
        isAlert.symm
      rw [AlertRecord.new, absent] at isOther
      cases isOther

/-- A patch changes no row's alert. -/
theorem RowsOf.patchAlert (rowsOf : RowsOf fingerprint table alerts) (now : Int) (fp : String)
    (patch : AlertPatch) :
    ∃ after answer, table.patchAlert now fp patch = .ok (after, answer) ∧
      RowsOf fingerprint after alerts := by
  rcases rowsOf.getAlert fp with ⟨found, get, isAlert, own⟩
  rw [AlertTable.patchAlert, get]
  cases found with
  | none => exact ⟨table, none, rfl, rowsOf⟩
  | some rec =>
      have first : alerts.find? (fun alert => fingerprint alert = fp) = some rec.alert :=
        isAlert.symm
      rcases (Keyed.find_eq_some_iff rowsOf.distinct).mp first with ⟨member, isKey⟩
      have isFp : rec.fingerprint = fp := own rec rfl
      refine ⟨_, _, rfl, ?_⟩
      have written := @RowsOf.writeAlert _ _ _ rowsOf (patch.apply now rec) (isFp.trans isKey.symm)
        fun other isOther => by
          change other ∈ alerts.find? (fun alert => fingerprint alert =
            rec.fingerprint) at isOther
          rw [isFp, first] at isOther
          exact (Option.some.inj isOther).symm
      have present : fingerprint (patch.apply now rec).alert ∈ alerts.map fingerprint :=
        List.mem_map_of_mem member
      rw [Keyed.addNew, if_pos present] at written
      exact written

/-! ## The list -/

theorem AlertTable.mem_orderedRows {row : String × Option AlertRecord} :
    row ∈ table.orderedRows ↔ table.rows.lookup row.1 = some row.2 := by
  have entry : row ∈ table.orderedRows ↔ ⟨row.1, row.2⟩ ∈ table.rows.entries := by
    rw [AlertTable.orderedRows, List.mem_insertionSort, List.mem_map]
    constructor
    · rintro ⟨entry, member, rfl⟩
      exact member
    · exact fun member => ⟨_, member, rfl⟩
  rw [entry, ← AList.mem_lookup_iff, Option.mem_def]

theorem AlertTable.orderedRows_nodup : (table.orderedRows.map Prod.fst).Nodup := by
  have same : (table.orderedRows.map Prod.fst).Perm
      ((table.rows.entries.map fun row => (row.1, row.2)).map Prod.fst) :=
    (List.perm_insertionSort _ _).map _
  rw [List.map_map] at same
  exact same.nodup_iff.mpr table.rows.nodupKeys

/-- The rows, in the order of the keys, are the records of the alerts. -/
theorem RowsOf.orderedRows (rowsOf : RowsOf fingerprint table alerts) :
    ∃ recs : List AlertRecord,
      table.orderedRows = recs.map (fun rec => (fingerprint rec.alert, some rec)) ∧
      (recs.map AlertRecord.alert).Perm alerts := by
  have row_iff : ∀ row, row ∈ table.orderedRows → ∃ rec : AlertRecord,
      (fingerprint rec.alert, some rec) = row ∧ rec.alert ∈ alerts := by
    rintro ⟨fp, row⟩ member
    have stored := rowsOf.stored fp
    rw [AlertTable.alertAt, AlertTable.mem_orderedRows.mp member] at stored
    rcases Option.map_eq_some_iff.mp stored.symm with ⟨alert, found, isAlert⟩
    rcases Option.map_eq_some_iff.mp isAlert.symm with ⟨rec, rfl, rfl⟩
    rcases (Keyed.find_eq_some_iff rowsOf.distinct).mp found with ⟨isListed, isKey⟩
    exact ⟨rec, by rw [isKey], isListed⟩
  have lifted : table.orderedRows ∈
      Set.range (List.map fun rec : AlertRecord => (fingerprint rec.alert, some rec)) := by
    rw [Set.range_list_map]
    intro row member
    rcases row_iff row member with ⟨rec, isRow, _⟩
    exact ⟨rec, isRow⟩
  rcases lifted with ⟨recs, isList⟩
  have keys : (recs.map fun rec => fingerprint rec.alert).Nodup := by
    have distinct := table.orderedRows_nodup
    rw [← isList, List.map_map] at distinct
    exact distinct
  refine ⟨recs, isList.symm, (List.perm_ext_iff_of_nodup ?_ rowsOf.distinct.of_map).mpr ?_⟩
  · have nodup : ((recs.map AlertRecord.alert).map fingerprint).Nodup := by
      rw [List.map_map]
      exact keys
    exact nodup.of_map
  · intro alert
    constructor
    · intro member
      rcases List.mem_map.mp member with ⟨rec, isRec, rfl⟩
      have isRow : (fingerprint rec.alert, some rec) ∈ table.orderedRows := by
        rw [← isList]
        exact List.mem_map_of_mem isRec
      rcases row_iff _ isRow with ⟨other, same, isAlert⟩
      rw [← Option.some.inj (congrArg Prod.snd same)]
      exact isAlert
    · intro member
      have stored := rowsOf.stored (fingerprint alert)
      rw [(Keyed.find_eq_some_iff rowsOf.distinct).mpr ⟨member, rfl⟩] at stored
      rcases Option.map_eq_some_iff.mp stored with ⟨row, lookup, isAlert⟩
      rcases Option.map_eq_some_iff.mp isAlert with ⟨rec, rfl, rfl⟩
      have isRow : (fingerprint rec.alert, some rec) ∈ table.orderedRows :=
        AlertTable.mem_orderedRows.mpr lookup
      rw [← isList] at isRow
      rcases List.mem_map.mp isRow with ⟨other, isRec, same⟩
      rw [← Option.some.inj (congrArg Prod.snd same)]
      exact List.mem_map_of_mem isRec

variable (fingerprint) in
/-- Later alerts come first, and those of one time in the order of their fingerprints. -/
def NewestFirst (a b : Alert) : Prop :=
  b.ts < a.ts ∨ (a.ts = b.ts ∧ fingerprint a ≤ fingerprint b)

instance newestFirstDecidable (a b : Alert) : Decidable (NewestFirst fingerprint a b) :=
  inferInstanceAs (Decidable (b.ts < a.ts ∨ (a.ts = b.ts ∧ fingerprint a ≤ fingerprint b)))

/-- The alerts of a technique are listed newest first, up to the limit. -/
theorem RowsOf.listAlerts (rowsOf : RowsOf fingerprint table alerts) (limit : Nat)
    (technique : Option String) :
    ∃ (recs : List AlertRecord) (listed : List Alert),
      table.listAlerts limit technique = .ok recs ∧
      listed.Perm (alerts.filter (AlertTable.hasTechnique technique)) ∧
      listed.Pairwise (NewestFirst fingerprint) ∧
      recs.map AlertRecord.alert = listed.take limit := by
  rcases rowsOf.orderedRows with ⟨recs, isRows, same⟩
  have parsed : table.orderedRows.mapM AlertTable.parseRow = .ok recs := by
    apply Pointwise.mapM_ok
    rw [isRows, List.forall₂_map_left_iff]
    exact List.forall₂_same.mpr fun rec _ => rfl
  have ordered : recs.Pairwise fun a b => fingerprint a.alert ≤ fingerprint b.alert := by
    have sorted :=
      List.pairwise_insertionSort (fun a b : String × Option AlertRecord => a.1 ≤ b.1)
      (table.rows.entries.map fun row => (row.1, row.2))
    change table.orderedRows.Pairwise _ at sorted
    rw [isRows, List.pairwise_map] at sorted
    exact sorted
  let out := recs.filter fun rec => AlertTable.hasTechnique technique rec.alert
  let sorted := sortDown (fun rec : AlertRecord => rec.alert.ts) out
  refine ⟨sorted.take limit, sorted.map AlertRecord.alert, ?_, ?_, ?_, List.map_take⟩
  · rw [AlertTable.listAlerts, parsed]
    rfl
  · have perm : sorted.Perm out := List.perm_insertionSort _ out
    refine (perm.map AlertRecord.alert).trans ?_
    have mapped : out.map AlertRecord.alert =
        (recs.map AlertRecord.alert).filter (AlertTable.hasTechnique technique) := by
      rw [List.filter_map]
      rfl
    rw [mapped]
    exact same.filter _
  · rw [List.pairwise_map]
    exact pairwise_sortDown (ordered.sublist List.filter_sublist)

theorem RowsOf.alertCount (rowsOf : RowsOf fingerprint table alerts) :
    table.alertCount = alerts.length := by
  rcases rowsOf.orderedRows with ⟨recs, isRows, same⟩
  have length : table.orderedRows.length = table.rows.entries.length := by
    rw [AlertTable.orderedRows, List.length_insertionSort, List.length_map]
  rw [AlertTable.alertCount, ← length, isRows, List.length_map,
    ← same.length_eq, List.length_map]

end Rows

end Storage
end Sigil
