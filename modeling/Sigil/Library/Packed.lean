import Mathlib.Data.List.Basic
import Mathlib.Data.List.Infix

namespace Sigil
namespace Library
namespace Packed

/-!
# Keys of two parts

A key of two parts is written as one text with a separator between them.  A key whose parts
are free of the separator is found in its text again; every other text is the text of several
keys.
-/

universe u

variable {α : Type u} {sep : α}

def pack (sep : α) (first second : List α) : List α :=
  first ++ sep :: second

/-- The separator stands in neither part. -/
def Plain (sep : α) (first second : List α) : Prop :=
  sep ∉ first ∧ sep ∉ second

/-- No other key has the text of a plain one. -/
theorem pack_eq_iff {a b first second : List α} (plain : Plain sep first second) :
    pack sep a b = pack sep first second ↔ a = first ∧ b = second := by
  rw [eq_comm, pack, pack, List.append_cons_inj_of_notMem plain.1 plain.2, eq_comm]
  exact and_congr_right fun _ => (and_iff_right rfl).trans eq_comm

/-- The text of a plain key starts with its own first part only. -/
theorem start_iff {a first second : List α} (plain : Plain sep first second) :
    a ++ [sep] <+: pack sep first second ↔ a = first := by
  constructor
  · intro starts
    rcases starts with ⟨b, whole⟩
    rw [List.append_assoc, List.singleton_append] at whole
    exact ((pack_eq_iff plain).mp whole).1
  · rintro rfl
    exact ⟨second, by rw [List.append_assoc, List.singleton_append, pack]⟩

/-- A key that is not plain shares its text. -/
theorem exists_other [DecidableEq α] {first second : List α} (mixed : ¬ Plain sep first second) :
    ∃ a b, pack sep a b = pack sep first second ∧ a ≠ first := by
  rw [Plain, not_and_or, not_not, not_not] at mixed
  rcases mixed with inFirst | inSecond
  · rcases List.append_of_mem inFirst with ⟨a, b, rfl⟩
    refine ⟨a, b ++ sep :: second, by simp [pack], fun same => ?_⟩
    exact absurd (List.self_eq_append_right.mp same) (List.cons_ne_nil sep b)
  · rcases List.append_of_mem inSecond with ⟨a, b, rfl⟩
    refine ⟨first ++ sep :: a, b, by simp [pack], fun same => ?_⟩
    exact absurd (List.append_right_eq_self.mp same) (List.cons_ne_nil sep a)

end Packed
end Library
end Sigil
