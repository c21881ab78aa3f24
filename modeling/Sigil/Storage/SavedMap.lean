import Mathlib.Data.Set.List
import Sigil.Library.Packed
import Sigil.Core.Reread
import Sigil.Library.Pointwise
import Sigil.Storage.Saved

namespace Sigil
namespace Storage

/-!
# Saved objects as a map

Saved objects are meant as a map from pairs of a kind and an identifier: a pair has the
object that was last put for it, and a kind lists its own objects.  The table shows this map
as long as no object is put whose kind or identifier contains the separator, or whose body is
not read as it was printed.
-/

open Sigil.Core Library

/-- A call of the store. -/
inductive SavedCall where
  | put (obj : SavedObject)
  | get (kind id : String)
  | list (kind : String)
  | delete (kind id : String)

/-- What the parser makes of the printed object, when it reads a number as another function
gives it. -/
def SavedJson.Rereads (json : SavedJson) (number : String → String) (obj : SavedObject) : Prop :=
  json.parse (json.print obj) =
    (obj.body.reread number objectRoom).map fun body => { obj with body := body }

namespace SavedCall

variable (json : SavedJson)

/-- The table after a call. -/
def run (table : SavedTable) : SavedCall → SavedTable
  | .put obj => table.putSaved json obj
  | .get _ _ => table
  | .list _ => table
  | .delete kind id => (table.deleteSaved kind id).1

/-- The table after some calls, from an empty one on. -/
def runAll (calls : List SavedCall) : SavedTable :=
  calls.foldl (run json) ∅

/-- What a call makes of the object of a pair. -/
def set (kind id : String) (current : Option SavedObject) : SavedCall → Option SavedObject
  | .put obj => if obj.kind = kind ∧ obj.id = id then some obj else current
  | .get _ _ => current
  | .list _ => current
  | .delete kind' id' => if kind' = kind ∧ id' = id then none else current

/-- The object that was last put for exactly this pair and has not been deleted since. -/
def lastPut (calls : List SavedCall) (kind id : String) : Option SavedObject :=
  calls.foldl (set kind id) none

end SavedCall

open SavedCall

/-- The table answers as the map: a pair has its last object, and a kind lists its own objects,
each of them once. -/
structure ShowsMap (json : SavedJson) (table : SavedTable) (calls : List SavedCall) : Prop where
  get : ∀ kind id, table.getSaved json kind id = .ok (lastPut calls kind id)
  list : ∀ kind, ∃ objects, table.listSaved json kind = .ok objects ∧
    (objects.map SavedObject.id).Nodup ∧
    ∀ obj, obj ∈ objects ↔ obj.kind = kind ∧ lastPut calls kind obj.id = some obj

/-- The separator stands neither in the kind nor in the identifier. -/
def SavedObject.Plain (obj : SavedObject) : Prop :=
  Packed.Plain '\x1f' obj.kind.toList obj.id.toList

/-! ## Keys -/

theorem toList_savedKey (kind id : String) :
    (savedKey kind id).toList = Packed.pack '\x1f' kind.toList id.toList := by
  have sepList : sep.toList = ['\x1f'] := by decide
  rw [savedKey, String.toList_append, String.toList_append, sepList, List.append_assoc,
    List.singleton_append, Packed.pack]

theorem savedKey_eq_iff {obj : SavedObject} (plain : obj.Plain) {kind id : String} :
    savedKey kind id = savedKey obj.kind obj.id ↔ kind = obj.kind ∧ id = obj.id := by
  rw [← String.toList_inj, toList_savedKey, toList_savedKey, Packed.pack_eq_iff plain,
    String.toList_inj, String.toList_inj]

theorem starts_savedKey_iff {obj : SavedObject} (plain : obj.Plain) {kind : String} :
    (kind ++ sep).toList <+: (savedKey obj.kind obj.id).toList ↔ kind = obj.kind := by
  have sepList : sep.toList = ['\x1f'] := by decide
  rw [String.toList_append, sepList, toList_savedKey, Packed.start_iff plain, String.toList_inj]

/-- An object with the separator in its kind or identifier has its row under another pair, too. -/
theorem exists_other_pair {obj : SavedObject} (mixed : ¬ obj.Plain) :
    ∃ kind id, savedKey kind id = savedKey obj.kind obj.id ∧ kind ≠ obj.kind := by
  rcases Packed.exists_other mixed with ⟨kind, id, same, different⟩
  refine ⟨String.ofList kind, String.ofList id, ?_, fun equal => ?_⟩
  · rw [← String.toList_inj, toList_savedKey, toList_savedKey, String.toList_ofList,
      String.toList_ofList, same]
  · rw [← equal, String.toList_ofList] at different
    exact different rfl

/-! ## The map of some calls -/

theorem lastPut_concat (calls : List SavedCall) (call : SavedCall) (kind id : String) :
    lastPut (calls ++ [call]) kind id = call.set kind id (lastPut calls kind id) := by
  rw [lastPut, List.foldl_append]
  rfl

theorem runAll_concat (json : SavedJson) (calls : List SavedCall) (call : SavedCall) :
    runAll json (calls ++ [call]) = call.run json (runAll json calls) := by
  rw [runAll, List.foldl_append]
  rfl

/-- The object of a pair carries the pair. -/
theorem pair_of_lastPut {calls : List SavedCall} {kind id : String} {obj : SavedObject}
    (last : lastPut calls kind id = some obj) : obj.kind = kind ∧ obj.id = id := by
  induction calls using List.reverseRecOn with
  | nil => cases last
  | append_singleton calls call inductionHypothesis =>
      rw [lastPut_concat] at last
      cases call with
      | put new =>
          rw [SavedCall.set] at last
          split at last
          · next same =>
              cases last
              exact same
          · exact inductionHypothesis last
      | get | list => exact inductionHypothesis last
      | delete kind' id' =>
          rw [SavedCall.set] at last
          split at last
          · cases last
          · exact inductionHypothesis last

/-! ## The rows hold the map -/

/-- The rows are those of the map, whose objects are plain. -/
structure Holds (store : Store) (calls : List SavedCall) : Prop where
  rows : ∀ {key row}, store.saved.lookup key = some row → ∃ obj,
    row = some obj ∧ obj.Plain ∧
    key = savedKey obj.kind obj.id ∧ lastPut calls obj.kind obj.id = some obj
  live : ∀ {kind id obj}, lastPut calls kind id = some obj →
    obj.Plain ∧ store.saved.lookup (savedKey kind id) = some (some obj)

theorem holds_nil : Holds { saved := ∅ } [] where
  rows := fun found => nomatch found
  live := fun last => nomatch last

theorem Holds.put {store : Store} {calls : List SavedCall} (holds : Holds store calls)
    {new : SavedObject} (plain : new.Plain) : Holds (store.putSaved new) (calls ++ [.put new]) where
  rows := by
    intro key row found
    by_cases same : key = savedKey new.kind new.id
    · rw [Store.putSaved, same, AList.lookup_insert] at found
      refine ⟨new, (Option.some.inj found).symm, plain, same, ?_⟩
      rw [lastPut_concat, SavedCall.set, if_pos ⟨rfl, rfl⟩]
    · rw [Store.putSaved, AList.lookup_insert_ne same] at found
      rcases holds.rows found with ⟨obj, isObj, isPlain, isKey, last⟩
      refine ⟨obj, isObj, isPlain, isKey, ?_⟩
      have other : ¬ (new.kind = obj.kind ∧ new.id = obj.id) := by
        rintro ⟨kind, id⟩
        rw [isKey, ← kind, ← id] at same
        exact same rfl
      rw [lastPut_concat, SavedCall.set, if_neg other, last]
  live := by
    intro kind id obj last
    rw [lastPut_concat, SavedCall.set] at last
    split at last
    · next same =>
        cases last
        rw [← same.1, ← same.2, Store.putSaved, AList.lookup_insert]
        exact ⟨plain, rfl⟩
    · next other =>
        have old := holds.live last
        have differs : savedKey kind id ≠ savedKey new.kind new.id := by
          rw [Ne, savedKey_eq_iff plain, eq_comm, eq_comm (a := id)]
          exact other
        rw [Store.putSaved, AList.lookup_insert_ne differs]
        exact old

theorem Holds.delete {store : Store} {calls : List SavedCall} (holds : Holds store calls)
    (kind' id' : String) :
    Holds (store.deleteSaved kind' id').1 (calls ++ [.delete kind' id']) where
  rows := by
    intro key row found
    by_cases same : key = savedKey kind' id'
    · rw [Store.deleteSaved, same, AList.lookup_erase] at found
      cases found
    · rw [Store.deleteSaved, AList.lookup_erase_ne same] at found
      rcases holds.rows found with ⟨obj, isObj, isPlain, isKey, last⟩
      refine ⟨obj, isObj, isPlain, isKey, ?_⟩
      have other : ¬ (kind' = obj.kind ∧ id' = obj.id) := by
        rintro ⟨rfl, rfl⟩
        exact same isKey
      rw [lastPut_concat, SavedCall.set, if_neg other, last]
  live := by
    intro kind id obj last
    rw [lastPut_concat, SavedCall.set] at last
    split at last
    · cases last
    · next other =>
        rcases holds.live last with ⟨isPlain, row⟩
        rcases pair_of_lastPut last with ⟨rfl, rfl⟩
        have differs : savedKey obj.kind obj.id ≠ savedKey kind' id' := by
          rw [ne_comm, Ne, savedKey_eq_iff isPlain]
          exact other
        rw [Store.deleteSaved, AList.lookup_erase_ne differs]
        exact ⟨isPlain, row⟩

/-- Calls that put plain objects only, all of them kept, leave the rows of their map. -/
theorem holds_runAll {json : SavedJson} {calls : List SavedCall}
    (plain : ∀ obj, .put obj ∈ calls → obj.Plain)
    (kept : ∀ obj, .put obj ∈ calls → json.parse (json.print obj) = some obj) :
    Holds ((runAll json calls).read json) calls := by
  induction calls using List.reverseRecOn with
  | nil => exact holds_nil
  | append_singleton calls call inductionHypothesis =>
      have holds := inductionHypothesis
        (fun obj member => plain obj (List.mem_append_left _ member))
        (fun obj member => kept obj (List.mem_append_left _ member))
      have last : call ∈ calls ++ [call] := List.mem_append_right _ List.mem_cons_self
      rw [runAll_concat]
      cases call with
      | put new =>
          rw [SavedCall.run, SavedTable.read_putSaved _ _ (kept new last)]
          exact holds.put (plain new last)
      | delete kind id =>
          have deleted := SavedTable.read_deleteSaved json (runAll json calls) kind id
          have after := holds.delete kind id
          rw [deleted] at after
          exact after
      | get | list =>
          refine ⟨fun found => ?_, fun lastIs => ?_⟩
          · simp only [lastPut_concat]
            exact holds.rows found
          · rw [lastPut_concat] at lastIs
            exact holds.live lastIs

/-! ## The answers -/

variable {store : Store} {calls : List SavedCall}

theorem Holds.get (holds : Holds store calls) (kind id : String) :
    store.getSaved kind id = .ok (lastPut calls kind id) := by
  rw [Store.getSaved]
  cases last : lastPut calls kind id with
  | some obj => rw [(holds.live last).2]
  | none =>
      cases found : store.saved.lookup (savedKey kind id) with
      | none => rfl
      | some row =>
          rcases holds.rows found with ⟨obj, rfl, plain, isKey, isLast⟩
          rcases (savedKey_eq_iff plain).mp isKey with ⟨rfl, rfl⟩
          rw [last] at isLast
          cases isLast

/-- The row of an object. -/
def rowOf (kind : String) (obj : SavedObject) : String × Option SavedObject :=
  (savedKey kind obj.id, some obj)

/-- The rows of a kind and the objects in them. -/
theorem Holds.listed (holds : Holds store calls) (kind : String) :
    ∃ objects : List SavedObject,
      (store.rows.filter fun row => (kind ++ sep).toList <+: row.1.toList) =
        objects.map (rowOf kind) ∧
      ∀ obj, obj ∈ objects ↔ obj.kind = kind ∧ lastPut calls kind obj.id = some obj := by
  have mem_iff : ∀ row, row ∈ (store.rows.filter fun row =>
      (kind ++ sep).toList <+: row.1.toList) ↔ ∃ obj, (obj.kind = kind ∧
        lastPut calls kind obj.id = some obj) ∧ rowOf kind obj = row := by
    intro row
    rw [List.mem_filter, decide_eq_true_eq, Store.mem_rows]
    constructor
    · intro listed
      rcases listed with ⟨found, starts⟩
      rcases holds.rows found with ⟨obj, isObj, plain, isKey, last⟩
      rw [isKey, starts_savedKey_iff plain] at starts
      subst starts
      exact ⟨obj, ⟨rfl, last⟩, Prod.ext isKey.symm isObj.symm⟩
    · intro own
      rcases own with ⟨obj, ⟨isKind, last⟩, rfl⟩
      subst isKind
      rcases holds.live last with ⟨plain, row⟩
      exact ⟨row, (starts_savedKey_iff plain).mpr rfl⟩
  have lifted : (store.rows.filter fun row => (kind ++ sep).toList <+: row.1.toList) ∈
      Set.range (List.map (rowOf kind)) := by
    rw [Set.range_list_map]
    intro row member
    rcases (mem_iff row).mp member with ⟨obj, -, isRow⟩
    exact ⟨obj, isRow⟩
  rcases lifted with ⟨objects, isList⟩
  refine ⟨objects, isList.symm, fun obj => ?_⟩
  have rowOf_injective : Function.Injective (rowOf kind) := by
    intro first second same
    exact Option.some.inj (congrArg Prod.snd same)
  have own := mem_iff (rowOf kind obj)
  rw [← isList, List.mem_map_of_injective rowOf_injective] at own
  rw [own]
  constructor
  · intro found
    rcases found with ⟨other, has, same⟩
    rw [rowOf_injective same] at has
    exact has
  · exact fun has => ⟨obj, has, rfl⟩

theorem Holds.list (holds : Holds store calls) (kind : String) :
    ∃ objects, store.listSaved kind = .ok objects ∧ (objects.map SavedObject.id).Nodup ∧
      ∀ obj, obj ∈ objects ↔ obj.kind = kind ∧ lastPut calls kind obj.id = some obj := by
  rcases holds.listed kind with ⟨objects, isRows, mem_iff⟩
  have parsed : (objects.map (rowOf kind)).mapM Store.parseRow = .ok objects := by
    apply Pointwise.mapM_ok
    rw [List.forall₂_map_left_iff]
    exact List.forall₂_same.mpr fun obj _ => rfl
  have sorted := List.perm_insertionSort
    (fun first second : SavedObject => second.updatedTs ≤ first.updatedTs) objects
  refine ⟨_, by rw [Store.listSaved, isRows, parsed]; rfl, ?_, fun obj => ?_⟩
  · have keys : ((objects.map (rowOf kind)).map Prod.fst).Nodup := by
      rw [← isRows]
      exact store.rows_nodup.sublist (List.filter_sublist.map Prod.fst)
    rw [(sorted.map SavedObject.id).nodup_iff]
    apply List.Nodup.of_map (savedKey kind)
    rw [List.map_map] at keys ⊢
    exact keys
  · rw [sorted.mem_iff]
    exact mem_iff obj

theorem Holds.showsMap {json : SavedJson} {table : SavedTable}
    (holds : Holds (table.read json) calls) : ShowsMap json table calls where
  get := by
    intro kind id
    rw [← SavedTable.getSaved_read]
    exact holds.get kind id
  list := by
    intro kind
    rw [← SavedTable.listSaved_read]
    exact holds.list kind

theorem lastPut_put (calls : List SavedCall) (obj : SavedObject) :
    lastPut (calls ++ [.put obj]) obj.kind obj.id = some obj := by
  rw [lastPut_concat, SavedCall.set, if_pos ⟨rfl, rfl⟩]

/-- A pair whose row has just been written is answered with what the text parses as. -/
theorem getSaved_put {json : SavedJson} {obj : SavedObject} {kind id : String}
    (row : savedKey kind id = savedKey obj.kind obj.id) {answer : Option SavedObject}
    (got : (runAll json (calls ++ [.put obj])).getSaved json kind id = .ok answer) :
    json.parse (json.print obj) = answer := by
  rw [runAll_concat, SavedCall.run, SavedTable.getSaved, row, SavedTable.putSaved,
    AList.lookup_insert] at got
  dsimp only at got
  split at got
  · cases got
  · next parsed =>
      rw [parsed]
      exact Except.ok.inj got

/-- An object is read as it was printed exactly when its body survives. -/
theorem SavedJson.Rereads.parsed_iff {json : SavedJson} {number : String → String}
    {obj : SavedObject} (rereads : json.Rereads number obj) :
    json.parse (json.print obj) = some obj ↔ obj.body.Survives number objectRoom := by
  rw [rereads, ← Json.reread_eq_self_iff, Option.map_eq_some_iff]
  constructor
  · rintro ⟨body, isBody, same⟩
    rw [isBody]
    exact congrArg (some ∘ SavedObject.body) same
  · exact fun isBody => ⟨_, isBody, rfl⟩

/-- The table is the map after every call exactly when no object is put with the separator in
its kind or identifier, or with a body that does not survive. -/
theorem showsMap_iff (json : SavedJson) (number : String → String) (calls : List SavedCall)
    (rereads : ∀ obj, .put obj ∈ calls → json.Rereads number obj) :
    (∀ earlier, earlier <+: calls → ShowsMap json (runAll json earlier) earlier) ↔
      ∀ obj, .put obj ∈ calls → obj.Plain ∧ obj.body.Survives number objectRoom := by
  constructor
  · intro shows obj member
    have mapped := member
    rcases List.append_of_mem mapped with ⟨before, after, rfl⟩
    have showsPut := shows (before ++ [.put obj]) ⟨after, by simp⟩
    have kept : json.parse (json.print obj) = some obj := by
      rw [← lastPut_put before obj]
      exact getSaved_put rfl (showsPut.get obj.kind obj.id)
    refine ⟨?_, (rereads obj member).parsed_iff.mp kept⟩
    by_contra mixed
    rcases exists_other_pair mixed with ⟨kind, id, sameKey, different⟩
    have other := getSaved_put sameKey (showsPut.get kind id)
    rw [kept] at other
    exact different (pair_of_lastPut other.symm).1.symm
  · intro fine earlier start
    apply Holds.showsMap
    refine holds_runAll (fun obj member => (fine obj (start.subset member)).1) ?_
    intro obj member
    have inCalls := start.subset member
    exact (rereads obj inCalls).parsed_iff.mpr (fine obj inCalls).2

/-- A saved search. -/
def savedSearch (name : String) : SavedObject where
  kind := "search"
  id := "s1"
  name := name
  owner := none
  updatedTs := 0
  body := .null

/-- What is printed of a saved search. -/
def searchText (obj : SavedObject) : String :=
  "\x7b\"kind\":\"search\",\"id\":\"s1\",\"name\":\"" ++ obj.name ++
    "\",\"owner\":null,\"updated_ts\":0,\"body\":null\x7d"

/-- What a printer and a parser do with two saved searches. -/
def searchJson : SavedJson where
  print := searchText
  parse text := [savedSearch "logins", savedSearch "logons"].find? fun obj => searchText obj = text

/-- A search is saved, saved again under another name, and deleted. -/
def searchCalls : List SavedCall :=
  [.put (savedSearch "logins"), .get "search" "s1", .put (savedSearch "logons"), .list "search",
    .delete "search" "s1"]

theorem showsMap_searchCalls :
    ShowsMap searchJson (runAll searchJson (searchCalls.take 3)) (searchCalls.take 3) ∧
      ShowsMap searchJson (runAll searchJson searchCalls) searchCalls := by
  have each : ∀ {Good : SavedObject → Prop}, Good (savedSearch "logins") →
      Good (savedSearch "logons") → ∀ obj, .put obj ∈ searchCalls → Good obj := by
    intro Good first second obj member
    simp only [searchCalls, List.mem_cons, SavedCall.put.injEq, reduceCtorEq, List.not_mem_nil,
      or_false, false_or] at member
    rcases member with rfl | rfl
    · exact first
    · exact second
  have shows := (showsMap_iff searchJson id searchCalls (each ?_ ?_)).mpr (each ?_ ?_)
  · exact ⟨shows _ (List.take_prefix 3 _), shows _ (List.prefix_refl _)⟩
  · unfold SavedJson.Rereads
    rfl
  · rfl
  · exact ⟨⟨by decide, by decide⟩, trivial⟩
  · exact ⟨⟨by decide, by decide⟩, trivial⟩

/-- An object of one kind, saved under a kind of its own that begins with another one. -/
def nested : SavedObject where
  kind := "a\x1fb"
  id := "c"
  name := ""
  owner := none
  updatedTs := 0
  body := .null

/-- What any printer and parser do with this object. -/
def nestedJson : SavedJson where
  print _ := "\x7b\"kind\":\"a\\u001fb\",\"id\":\"c\",\"name\":\"\",\"owner\":null," ++
    "\"updated_ts\":0,\"body\":null\x7d"
  parse _ := some nested

/-- It is found under a pair that nothing has been put for. -/
theorem not_showsMap :
    ¬ ∀ (json : SavedJson) (number : String → String) (calls : List SavedCall),
      (∀ obj, .put obj ∈ calls → json.Rereads number obj) →
      ShowsMap json (runAll json calls) calls := by
  intro all
  have shows := all nestedJson id [.put nested] fun obj member => by
    rw [SavedCall.put.inj (List.mem_singleton.mp member)]
    rfl
  have found := shows.get "a" "b\x1fc"
  have missing : lastPut [.put nested] "a" "b\x1fc" = none := by
    simp [lastPut, SavedCall.set, nested]
  rw [missing] at found
  cases found

end Storage
end Sigil
