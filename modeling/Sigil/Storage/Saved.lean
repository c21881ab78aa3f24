import Mathlib.Data.List.AList
import Mathlib.Data.List.Sort
import Sigil.Core.Event

namespace Sigil
namespace Storage

/-!
# Saved objects

One table keeps the saved objects of every kind.  A row is addressed by the kind and the
identifier, joined by a separator; a kind may hold the separator too, so the row of a pair
is not always the row of that pair alone.  A row holds the text of an object, and what the text
parses as need not be the object that was printed: the store of the objects is read off the table.
-/

open Sigil.Core

/-- A saved object; the store does not look into its body. -/
structure SavedObject where
  kind : String
  id : String
  name : String
  owner : Option String
  updatedTs : Int
  body : Json

/-- The text of a row is no saved object. -/
inductive StoreError where
  | unparsable (key : String)
  deriving DecidableEq, Repr

/-- The ASCII unit separator. -/
def sep : String :=
  "\x1f"

def savedKey (kind id : String) : String :=
  kind ++ sep ++ id

/-- The printer and the parser of saved objects. -/
structure SavedJson where
  print : SavedObject → String
  parse : String → Option SavedObject

/-- The texts of the rows by their keys. -/
abbrev SavedTable := AList fun _ : String => String

namespace SavedTable

variable (json : SavedJson) (table : SavedTable)

/-- Create or replace a saved object. -/
def putSaved (obj : SavedObject) : SavedTable :=
  AList.insert (savedKey obj.kind obj.id) (json.print obj) table

/-- Fetch one saved object. -/
def getSaved (kind id : String) : Except StoreError (Option SavedObject) :=
  match AList.lookup (savedKey kind id) table with
  | none => .ok none
  | some text =>
      match json.parse text with
      | none => .error (.unparsable (savedKey kind id))
      | some obj => .ok (some obj)

/-- The rows in the order of their keys. -/
def rows : List (String × String) :=
  (table.entries.map fun row => (row.1, row.2)).insertionSort fun a b => a.1 ≤ b.1

def parseRow (row : String × String) : Except StoreError SavedObject :=
  (json.parse row.2).elim (.error (.unparsable row.1)) .ok

/-- Every saved object of a kind, newest first. -/
def listSaved (kind : String) : Except StoreError (List SavedObject) := do
  let found := table.rows.filter fun row => (kind ++ sep).toList <+: row.1.toList
  let objects ← found.mapM (parseRow json)
  return objects.insertionSort fun a b => b.updatedTs ≤ a.updatedTs

/-- Delete a saved object; the answer says whether there was a row. -/
def deleteSaved (kind id : String) : SavedTable × Bool :=
  (AList.erase (savedKey kind id) table, (AList.lookup (savedKey kind id) table).isSome)

end SavedTable

/-! ## The objects of a table -/

/-- The rows by their keys, as they parse. -/
abbrev SavedRows := AList fun _ : String => Option SavedObject

/-- The objects that are read off a table; its functions are those of the table, for objects that
are parsed as they were printed. -/
structure Store where
  saved : SavedRows

namespace Store

/-- Create or replace a saved object. -/
def putSaved (store : Store) (obj : SavedObject) : Store :=
  { store with saved := store.saved.insert (savedKey obj.kind obj.id) (some obj) }

/-- Fetch one saved object. -/
def getSaved (store : Store) (kind id : String) : Except StoreError (Option SavedObject) :=
  match store.saved.lookup (savedKey kind id) with
  | none => .ok none
  | some none => .error (.unparsable (savedKey kind id))
  | some (some obj) => .ok (some obj)

/-- The rows in the order of their keys. -/
def rows (store : Store) : List (String × Option SavedObject) :=
  (store.saved.entries.map fun row => (row.1, row.2)).insertionSort fun a b => a.1 ≤ b.1

/-- The object of a row. -/
def parseRow (row : String × Option SavedObject) : Except StoreError SavedObject :=
  row.2.elim (.error (.unparsable row.1)) .ok

/-- Every saved object of a kind, newest first. -/
def listSaved (store : Store) (kind : String) : Except StoreError (List SavedObject) := do
  let found := store.rows.filter fun row => (kind ++ sep).toList <+: row.1.toList
  let objects ← found.mapM parseRow
  return objects.insertionSort fun a b => b.updatedTs ≤ a.updatedTs

/-- Delete a saved object; the answer says whether there was a row. -/
def deleteSaved (store : Store) (kind id : String) : Store × Bool :=
  ({ store with saved := store.saved.erase (savedKey kind id) },
    (store.saved.lookup (savedKey kind id)).isSome)

/-- What a write leaves in a row: an object, or nothing. -/
def setRow (store : Store) (key : String) : Option SavedObject → Store
  | some obj => { store with saved := store.saved.insert key (some obj) }
  | none => { store with saved := store.saved.erase key }

end Store

theorem savedKey_injective {kind a b : String} (same : savedKey kind a = savedKey kind b) : a = b :=
  (String.append_right_inj _).mp same

namespace Store

variable (store : Store)

theorem getSaved_putSaved (obj : SavedObject) :
    (store.putSaved obj).getSaved obj.kind obj.id = .ok (some obj) := by
  rw [getSaved, putSaved, AList.lookup_insert]

theorem getSaved_putSaved_ne (obj : SavedObject) {kind id : String}
    (different : savedKey kind id ≠ savedKey obj.kind obj.id) :
    (store.putSaved obj).getSaved kind id = store.getSaved kind id := by
  rw [getSaved, putSaved, AList.lookup_insert_ne different]
  rfl

theorem lookup_setRow (key : String) (row : Option SavedObject) :
    (store.setRow key row).saved.lookup key = row.map some := by
  cases row with
  | none => exact AList.lookup_erase key store.saved
  | some obj => exact AList.lookup_insert store.saved

theorem lookup_setRow_ne {key other : String} (row : Option SavedObject)
    (different : other ≠ key) :
    (store.setRow key row).saved.lookup other = store.saved.lookup other := by
  cases row with
  | none => exact AList.lookup_erase_ne different
  | some obj => exact AList.lookup_insert_ne different

/-! ## The rows of a store -/

theorem rows_sorted : store.rows.Pairwise fun a b => a.1 ≤ b.1 :=
  List.pairwise_insertionSort _ _

theorem rows_nodup : (store.rows.map Prod.fst).Nodup := by
  have same : (store.rows.map Prod.fst).Perm
      ((store.saved.entries.map fun row => (row.1, row.2)).map Prod.fst) :=
    (List.perm_insertionSort _ _).map _
  rw [List.map_map] at same
  exact same.nodup_iff.mpr store.saved.nodupKeys

theorem mem_rows {row : String × Option SavedObject} :
    row ∈ store.rows ↔ store.saved.lookup row.1 = some row.2 := by
  have entry : row ∈ store.rows ↔ ⟨row.1, row.2⟩ ∈ store.saved.entries := by
    rw [rows, List.mem_insertionSort, List.mem_map]
    constructor
    · rintro ⟨entry, member, rfl⟩
      exact member
    · exact fun member => ⟨_, member, rfl⟩
  rw [entry, ← AList.mem_lookup_iff, Option.mem_def]

end Store

/-! ## Reading a table -/

namespace SavedTable

variable (json : SavedJson) (table : SavedTable)

/-- The store whose rows are those of the table, as they parse. -/
def read : Store where
  saved := {
    entries := table.entries.map (.map id fun _ => json.parse)
    nodupKeys := table.nodupKeys.map₂ fun _ => json.parse }

theorem lookup_read (key : String) :
    (read json table).saved.lookup key = (AList.lookup key table).map json.parse :=
  List.dlookup_map₂ key

theorem rows_read :
    (read json table).rows = table.rows.map fun row => (row.1, json.parse row.2) := by
  have sorted := List.map_insertionSort (fun a b : String × String => a.1 ≤ b.1)
    (fun a b : String × Option SavedObject => a.1 ≤ b.1) (fun row => (row.1, json.parse row.2))
    (table.entries.map fun row => (row.1, row.2)) fun _ _ _ _ => Iff.rfl
  rw [rows, sorted, Store.rows, read, List.map_map, List.map_map]
  rfl

/-- A pair has the same object in the table and in the store. -/
theorem getSaved_read (kind id : String) :
    (read json table).getSaved kind id = table.getSaved json kind id := by
  rw [Store.getSaved, getSaved, lookup_read]
  cases AList.lookup (savedKey kind id) table with
  | none => rfl
  | some text =>
      cases parsed : json.parse text <;> simp [parsed]

/-- A kind has the same objects in the table and in the store. -/
theorem listSaved_read (kind : String) :
    (read json table).listSaved kind = table.listSaved json kind := by
  rw [Store.listSaved, listSaved, rows_read, List.filter_map, List.mapM_map]
  rfl

theorem read_erase (key : String) :
    (read json (AList.erase key table)).saved = (read json table).saved.erase key := by
  apply AList.ext
  change (List.kerase key table.entries).map _ = List.kerase key (table.entries.map _)
  rw [List.kerase, List.kerase, List.eraseP_map]
  rfl

/-- An object that is parsed as it was printed is put into the store as it is. -/
theorem read_putSaved {obj : SavedObject} (kept : json.parse (json.print obj) = some obj) :
    read json (table.putSaved json obj) = (read json table).putSaved obj := by
  have erased := congrArg AList.entries (read_erase json table (savedKey obj.kind obj.id))
  have inserted : (read json (table.putSaved json obj)).saved =
      (read json table).saved.insert (savedKey obj.kind obj.id) (some obj) := by
    apply AList.ext
    rw [AList.entries_insert, ← kept]
    exact congrArg _ erased
  rw [Store.putSaved, ← inserted]

/-- What is deleted in the table is deleted in the store, with the same answer. -/
theorem read_deleteSaved (kind id : String) :
    (read json table).deleteSaved kind id =
      (read json (table.deleteSaved kind id).1, (table.deleteSaved kind id).2) := by
  rw [Store.deleteSaved, ← read_erase, lookup_read, Option.isSome_map]
  rfl

end SavedTable

end Storage
end Sigil
