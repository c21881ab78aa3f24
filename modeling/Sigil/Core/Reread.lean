import Sigil.Core.Event

namespace Sigil
namespace Core

/-!
# JSON that is printed and read again

The parser of JSON need not find the number again that has been printed, because it rounds the
decimals of a fraction, and it refuses containers that nest too deeply.  Everything else comes
back as it was.
-/

/-- The parser reads 127 nested containers; the values of an object have room for one less. -/
def objectRoom : Nat := 126

namespace Json

variable (number : String → String)

/-- What is read of a printed value where there is room for some nested containers; a number is
read as another function gives it. -/
def reread : Nat → Json → Option Json
  | _, .null => some .null
  | _, .bool value => some (.bool value)
  | _, .number text => some (.number (number text))
  | _, .string value => some (.string value)
  | 0, .array _ => none
  | 0, .object _ => none
  | room + 1, .array items => (items.mapM (reread room)).map .array
  | room + 1, .object entries =>
      (entries.mapM fun entry => (reread room entry.2).map fun value =>
        (entry.1, value)).map .object

/-- Every number in the value is read as it was, and there is room for its containers. -/
def Survives : Nat → Json → Prop
  | _, .number text => number text = text
  | 0, .array _ => False
  | 0, .object _ => False
  | room + 1, .array items => ∀ item ∈ items, Survives room item
  | room + 1, .object entries => ∀ entry ∈ entries, Survives room entry.2
  | _, _ => True

end Json

/-- What is read of the entries of a printed object. -/
def rereadEntries (number : String → String) (room : Nat) (entries : List (String × Json)) :
    Option (List (String × Json)) :=
  entries.mapM fun entry => (entry.2.reread number room).map fun value => (entry.1, value)

/-- A list comes back when each of its elements does. -/
theorem mapM_eq_self_iff {α : Type} {f : α → Option α} {list : List α} :
    list.mapM f = some list ↔ ∀ x ∈ list, f x = some x := by
  induction list with
  | nil => simp
  | cons x list inductionHypothesis =>
      rw [List.mapM_cons, List.forall_mem_cons, ← inductionHypothesis]
      cases first : f x with
      | none => simp
      | some y =>
          cases rest : list.mapM f with
          | none => simp
          | some others => simp

namespace Json

variable {number : String → String}

/-- A value is read as it was exactly when it survives. -/
theorem reread_eq_self_iff (room : Nat) (value : Json) :
    value.reread number room = some value ↔ value.Survives number room := by
  induction room generalizing value with
  | zero => cases value <;> simp [reread, Survives]
  | succ room inductionHypothesis =>
      cases value with
      | array items =>
          rw [reread, Survives, Option.map_eq_some_iff]
          simp only [Json.array.injEq, exists_eq_right, mapM_eq_self_iff, inductionHypothesis]
      | object entries =>
          rw [reread, Survives, Option.map_eq_some_iff]
          simp only [Json.object.injEq, exists_eq_right, mapM_eq_self_iff]
          refine forall₂_congr fun entry _ => ?_
          rw [← inductionHypothesis, Option.map_eq_some_iff]
          simp [Prod.ext_iff]
      | _ => simp [reread, Survives]

end Json

theorem FieldMap.entries_injective : Function.Injective FieldMap.entries := by
  rintro ⟨first, _⟩ ⟨second, _⟩ same
  cases same
  rfl

theorem rereadEntries_eq_self_iff {number : String → String} {room : Nat}
    {entries : List (String × Json)} :
    rereadEntries number room entries = some entries ↔
      ∀ entry ∈ entries, entry.2.Survives number room := by
  rw [rereadEntries, mapM_eq_self_iff]
  refine forall₂_congr fun entry _ => ?_
  rw [← Json.reread_eq_self_iff, Option.map_eq_some_iff]
  simp [Prod.ext_iff]

end Core
end Sigil
