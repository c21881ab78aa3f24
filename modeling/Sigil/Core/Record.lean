import Sigil.Core.Event
import Sigil.Library.Keyed
import Sigil.Library.Ordered

namespace Sigil
namespace Core

/-!
# Records

What a codec makes of a frame: named values that have no type yet, and the bytes.
-/

open Library

namespace FieldMap

/-- Set the value of a name. -/
def insert (fields : FieldMap) (name : String) (value : Json) : FieldMap where
  entries := Ordered.insert name value fields.entries
  ordered := Ordered.ordered_insert fields.ordered

@[simp] theorem get_insert (fields : FieldMap) (key : String) (value : Json) (name : String) :
    (fields.insert key value).get name = if name = key then some value else fields.get name :=
  Ordered.lookup_insert key name value fields.entries

/-- Of the values that are set under one name the last one stays. -/
theorem get_foldl_insert (fields : FieldMap) (entries : List (String × Json)) (name : String) :
    (entries.foldl (fun fields entry => fields.insert entry.1 entry.2) fields).get name =
      (entries.reverse.lookup name).or (fields.get name) := by
  induction entries generalizing fields with
  | nil => rfl
  | cons entry entries inductionHypothesis =>
      rw [List.foldl_cons, inductionHypothesis, get_insert, List.reverse_cons, List.lookup_append,
        Option.or_assoc, List.lookup_cons, List.lookup_nil]
      by_cases same : name = entry.1
      · simp [same]
      · simp [same, beq_eq_false_iff_ne.mpr same]

/-- The fields of a map, set one after another. -/
theorem get_foldl_entries (fields : FieldMap) (name : String) :
    (fields.entries.foldl (fun set entry => set.insert entry.1 entry.2) empty).get name =
      fields.get name := by
  have distinct : (fields.entries.map Prod.fst).Nodup := fields.ordered.imp ne_of_lt
  rw [get_foldl_insert, Keyed.lookup_reverse distinct]
  exact Option.or_none

end FieldMap

/-- A decoded frame. -/
structure Record where
  fields : FieldMap
  raw : List UInt8

/-- Set a field to a text. -/
def strField (fields : FieldMap) (key val : String) : FieldMap :=
  fields.insert key (.string val)

@[simp] theorem get_strField (fields : FieldMap) (key val name : String) :
    (strField fields key val).get name =
      if name = key then some (.string val) else fields.get name :=
  fields.get_insert key (.string val) name

/-- Of the texts that are set under one name the last one stays. -/
theorem get_foldl_strField (fields : FieldMap) (entries : List (String × String)) (name : String) :
    (entries.foldl (fun fields entry => strField fields entry.1 entry.2) fields).get name =
      (entries.reverse.lookup name).elim (fields.get name) fun text => some (.string text) := by
  induction entries generalizing fields with
  | nil => rfl
  | cons entry entries inductionHypothesis =>
      rw [List.foldl_cons, inductionHypothesis, get_strField, List.reverse_cons, List.lookup_append]
      cases entries.reverse.lookup name with
      | some text => rfl
      | none =>
          rw [Option.none_or, List.lookup_cons, List.lookup_nil]
          by_cases same : name = entry.1
          · simp [same]
          · simp [same, beq_eq_false_iff_ne.mpr same]

end Core
end Sigil
