import Mathlib.Data.List.Basic

namespace Sigil
namespace Library
namespace Rows

/-!
# Rows of cells in one text

A table is written with one separator between the cells of a row and another between the
rows.  A separator that stands in a cell cuts it when the text is read.  Two tables are
written as the same text exactly when they are the same after this cutting.
-/

universe u

variable {α : Type u}

/-- Put the first row of a table behind the last row of another one. -/
def glue {β : Type u} : List (List β) → List (List β) → List (List β)
  | [], second => second
  | [last], second => (last ++ second.headD []) :: second.tail
  | first :: next :: rows, second => first :: glue (next :: rows) second

theorem append_glue {β : Type u} (front : List (List β)) {rows : List (List β)}
    (some_ : rows ≠ []) (second : List (List β)) :
    glue (front ++ rows) second = front ++ glue rows second := by
  induction front with
  | nil => simp
  | cons first front inductionHypothesis =>
      have more : front ++ rows ≠ [] := List.append_ne_nil_of_right_ne_nil front some_
      rw [List.cons_append, List.cons_append, ← inductionHypothesis]
      cases whole : front ++ rows with
      | nil => exact absurd whole more
      | cons next rest => simp [glue]

variable [DecidableEq α] (cell row : α)

def write (rows : List (List (List α))) : List α :=
  [row].intercalate (rows.map [cell].intercalate)

def read (text : List α) : List (List (List α)) :=
  (text.splitOn row).map (List.splitOn cell)

/-- A row after its cells are cut; a row without cells reads as one empty cell. -/
def cutRow : List (List α) → List (List (List α))
  | [] => read cell row []
  | [only] => read cell row only
  | first :: next :: cells => glue (read cell row first) (cutRow (next :: cells))

/-- The rows after their cells are cut. -/
def cut (rows : List (List (List α))) : List (List (List α)) :=
  rows.flatMap (cutRow cell row)

variable {cell row}

/-! ## Reading -/

theorem read_ne_nil (text : List α) : read cell row text ≠ [] := by
  simp [read]

theorem write_read (text : List α) : write cell row (read cell row text) = text := by
  have rows : ((read cell row text).map [cell].intercalate) = text.splitOn row := by
    simp [read, Function.comp_def]
  rw [write, rows, List.intercalate_splitOn]

/-- A text without the separator goes to the first part of what follows. -/
theorem splitOn_append {before : List α} (absent : row ∉ before) (text : List α) :
    (before ++ text).splitOn row = (text.splitOn row).modifyHead (before ++ ·) := by
  induction before with
  | nil => exact (congrFun List.modifyHead_id (text.splitOn row)).symm
  | cons x before inductionHypothesis =>
      rw [List.mem_cons, not_or] at absent
      have other : (x == row) = false := by simp [Ne.symm absent.1]
      rw [List.cons_append, List.splitOn_cons_eq_if_modifyHead, inductionHypothesis absent.2, other]
      cases text.splitOn row <;> simp

theorem read_row (before after : List α) :
    read cell row (before ++ row :: after) = read cell row before ++ read cell row after := by
  simp [read, List.splitOn_append_cons_self]

theorem read_cell (different : cell ≠ row) (before after : List α) :
    read cell row (before ++ cell :: after) =
      glue (read cell row before) (read cell row after) := by
  -- within one row the cells meet
  have within : ∀ before : List α, row ∉ before → read cell row (before ++ cell :: after) =
      glue (read cell row before) (read cell row after) := by
    intro before absent
    have absent' : row ∉ before ++ [cell] := by simp [absent, Ne.symm different]
    rw [List.append_cons, read, splitOn_append absent', read, List.splitOn_eq_singleton absent,
      read]
    have some_ : after.splitOn row ≠ [] := List.splitOn_ne_nil row after
    cases parts : after.splitOn row with
    | nil => exact absurd parts some_
    | cons first rest => simp [glue, List.splitOn_append_cons_self]
  induction length : before.length using Nat.strongRecOn generalizing before with
  | ind n inductionHypothesis =>
      by_cases present : row ∈ before
      · rcases List.append_of_mem present with ⟨front, back, rfl⟩
        have shorter : back.length < n := by
          rw [← length]
          simp
          omega
        rw [List.append_assoc, List.cons_append, read_row, inductionHypothesis _ shorter back rfl,
          read_row, append_glue _ (read_ne_nil back)]
      · exact within before present

/-! ## Writing -/

theorem read_cells (different : cell ≠ row) (cells : List (List α)) :
    read cell row ([cell].intercalate cells) = cutRow cell row cells := by
  induction cells with
  | nil => simp [cutRow]
  | cons first cells inductionHypothesis =>
      cases cells with
      | nil => simp [cutRow]
      | cons next cells =>
          rw [List.intercalate_cons_cons, List.append_assoc, List.singleton_append,
            read_cell different, inductionHypothesis, cutRow]

theorem read_write (different : cell ≠ row) {rows : List (List (List α))} (some_ : rows ≠ []) :
    read cell row (write cell row rows) = cut cell row rows := by
  induction rows with
  | nil => exact absurd rfl some_
  | cons first rows inductionHypothesis =>
      cases rows with
      | nil => simp [write, cut, read_cells different]
      | cons next rows =>
          have rest := inductionHypothesis (List.cons_ne_nil next rows)
          rw [write, List.map_cons, List.map_cons, List.intercalate_cons_cons, List.append_assoc,
            List.singleton_append, read_row, read_cells different, ← List.map_cons,
            ← write, rest]
          simp [cut]

/-- Two tables with as many rows are written as the same text exactly when they are the same
after their cells are cut. -/
theorem write_eq_iff (different : cell ≠ row) {first second : List (List (List α))}
    (sameLength : first.length = second.length) :
    write cell row first = write cell row second ↔ cut cell row first = cut cell row second := by
  cases first with
  | nil =>
      rw [List.length_eq_zero_iff.mp sameLength.symm]
      simp
  | cons row₁ first =>
      have some_ : second ≠ [] := by
        intro none
        simp [none] at sameLength
      rw [← read_write different (List.cons_ne_nil row₁ first), ← read_write different some_]
      constructor
      · intro same
        rw [same]
      · intro same
        have again := congrArg (write cell row) same
        rwa [write_read, write_read] at again

/-- A row whose cells contain no separator stays, up to the empty cell of a row without any. -/
theorem cutRow_plain {cells : List (List α)}
    (plain : ∀ text ∈ cells, cell ∉ text ∧ row ∉ text) :
    cutRow cell row cells = [if cells = [] then [[]] else cells] := by
  have one :
      ∀ text : List α, cell ∉ text ∧ row ∉ text → read cell row text = [[text]] := by
    intro text absent
    simp [read, List.splitOn_eq_singleton absent.1, List.splitOn_eq_singleton absent.2]
  induction cells with
  | nil => simp [cutRow, read]
  | cons first cells inductionHypothesis =>
      rcases List.forall_mem_cons.mp plain with ⟨here, later⟩
      cases cells with
      | nil => simp [cutRow, one first here]
      | cons next cells => simp [cutRow, one first here, inductionHypothesis later, glue]

end Rows
end Library
end Sigil
