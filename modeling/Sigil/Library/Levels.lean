import Mathlib.Combinatorics.SimpleGraph.Metric
import Mathlib.Data.Finset.Insert

namespace Sigil
namespace Library
namespace Levels

/-!
# Search by levels

A search goes from the nodes of one level to their neighbours, and keeps those whose keys it has
not seen for the next level.  The start is not among the keys at first, so that it may be seen
again.  After some rounds the keys are those of the nodes that walks of at most so many steps end
at, and the last level is that of the nodes that no shorter walk reaches.
-/

universe u v

variable {ν : Type u} {κ : Type v}

/-- Walks of so many steps from a start. -/
inductive Walks (step : ν → ν → Prop) (start : ν) : Nat → ν → Prop
  | zero : Walks step start 0 start
  | succ {k : Nat} {x y : ν} (walks : Walks step start k x) (isStep : step x y) :
      Walks step start (k + 1) y

/-- A walk that is not empty has a first step. -/
theorem Walks.first {step : ν → ν → Prop} {start y : ν} {k : Nat}
    (walks : Walks step start k y) (one : 1 ≤ k) : ∃ x, step start x := by
  induction walks with
  | zero => exact absurd one (Nat.not_succ_le_zero 0)
  | @succ k x y walks isStep inductionHypothesis =>
      cases walks with
      | zero => exact ⟨y, isStep⟩
      | succ _ _ => exact inductionHypothesis (Nat.le_add_left 1 _)

/-! ## Distances -/

section Distance

variable {step : ν → ν → Prop} {start y : ν}

/-- Walks along steps in either direction bound the distance. -/
theorem Walks.edist_le {k : Nat} (walks : Walks step start k y) :
    (SimpleGraph.fromRel step).edist start y ≤ k := by
  induction walks with
  | zero => exact le_of_eq SimpleGraph.edist_self
  | @succ k x y _ isStep inductionHypothesis =>
      have last : (SimpleGraph.fromRel step).edist x y ≤ 1 := by
        apply SimpleGraph.edist_le_one_iff_adj_or_eq.mpr
        by_cases same : x = y
        · exact Or.inr same
        · exact Or.inl ((SimpleGraph.fromRel_adj step x y).mpr ⟨same, Or.inl isStep⟩)
      calc
        (SimpleGraph.fromRel step).edist start y ≤
            (SimpleGraph.fromRel step).edist start x + (SimpleGraph.fromRel step).edist x y :=
          SimpleGraph.edist_triangle
        _ ≤ k + 1 := add_le_add inductionHypothesis last
        _ = (k + 1 : Nat) := by rw [Nat.cast_add, Nat.cast_one]

theorem walks_of_walk (symm : ∀ x y, step x y → step y x)
    (walk : (SimpleGraph.fromRel step).Walk start y) : Walks step start walk.length y := by
  induction walk using SimpleGraph.Walk.concatRec with
  | Hnil => exact .zero
  | Hconcat walk adjacent inductionHypothesis =>
      rw [SimpleGraph.Walk.length_concat]
      rcases ((SimpleGraph.fromRel_adj step _ _).mp adjacent).2 with forth | back
      · exact inductionHypothesis.succ forth
      · exact inductionHypothesis.succ (symm _ _ back)

/-- Over steps in both directions some walk is as short as the distance. -/
theorem edist_le_iff (symm : ∀ x y, step x y → step y x) {rounds : Nat} :
    (SimpleGraph.fromRel step).edist start y ≤ rounds ↔
      ∃ k, k ≤ rounds ∧ Walks step start k y := by
  constructor
  · intro near
    have finite : (SimpleGraph.fromRel step).edist start y ≠ ⊤ :=
      ne_top_of_le_ne_top (ENat.natCast_ne_top rounds) near
    rcases SimpleGraph.exists_walk_of_edist_ne_top finite with ⟨walk, length⟩
    exact ⟨walk.length, Nat.cast_le.mp (length.trans_le near), walks_of_walk symm walk⟩
  · rintro ⟨k, bound, walks⟩
    exact walks.edist_le.trans (Nat.cast_le.mpr bound)

end Distance

/-! ## The search -/

section Search

variable [DecidableEq κ] (adjacent : ν → List ν) (key : ν → κ)

/-- Keep a node whose key has not been seen. -/
def visit (state : Finset κ × List ν) (x : ν) : Finset κ × List ν :=
  if key x ∈ state.1 then state else (insert (key x) state.1, state.2 ++ [x])

/-- Visit the neighbours of all nodes of the last level. -/
def round (state : Finset κ × List ν) : Finset κ × List ν :=
  state.2.foldl (fun state node => (adjacent node).foldl (visit key) state) (state.1, [])

/-- The keys that have been seen and the last level. -/
def search (start : ν) : Nat → Finset κ × List ν
  | 0 => (∅, [start])
  | rounds + 1 => round adjacent key (search start rounds)

variable {adjacent key}

theorem seen_visit {state : Finset κ × List ν} {x : ν} {k : κ} :
    k ∈ (visit key state x).1 ↔ k ∈ state.1 ∨ key x = k := by
  rw [visit]
  split
  · next seen =>
      refine ⟨Or.inl, ?_⟩
      rintro (old | rfl)
      · exact old
      · exact seen
  · rw [Finset.mem_insert, eq_comm (a := k), or_comm]

theorem mem_visit {state : Finset κ × List ν} {x y : ν} :
    y ∈ (visit key state x).2 ↔ y ∈ state.2 ∨ (y = x ∧ key x ∉ state.1) := by
  rw [visit]
  split
  · next seen => exact ⟨Or.inl, fun either => either.resolve_right fun new => new.2 seen⟩
  · next fresh => rw [List.mem_append, List.mem_singleton, and_iff_left fresh]

/-- All keys have been seen, and what is new is kept. -/
theorem foldl_visit {nodes : List ν} {state : Finset κ × List ν}
    (distinct : ∀ x, x ∈ nodes → ∀ y, y ∈ nodes → key x = key y → x = y) :
    (∀ k, k ∈ (nodes.foldl (visit key) state).1 ↔ k ∈ state.1 ∨ ∃ x,
      x ∈ nodes ∧ key x = k) ∧
      ∀ x, x ∈ (nodes.foldl (visit key) state).2 ↔
        x ∈ state.2 ∨ (x ∈ nodes ∧ key x ∉ state.1) := by
  induction nodes generalizing state with
  | nil =>
      simp only [List.foldl_nil, List.not_mem_nil, false_and, exists_false, or_false, implies_true,
        and_self]
  | cons first nodes inductionHypothesis =>
      have rest := @inductionHypothesis (visit key state first) fun x inFirst y inSecond =>
        distinct x (List.mem_cons_of_mem _ inFirst) y (List.mem_cons_of_mem _ inSecond)
      rw [List.foldl_cons]
      constructor
      · intro k
        rw [rest.1, seen_visit]
        simp only [List.mem_cons, or_and_right, exists_or, exists_eq_left, or_assoc]
      · intro x
        rw [rest.2, mem_visit, seen_visit, not_or]
        constructor
        · rintro ((old | ⟨rfl, fresh⟩) | ⟨later, fresh, -⟩)
          · exact Or.inl old
          · exact Or.inr ⟨List.mem_cons_self, fresh⟩
          · exact Or.inr ⟨List.mem_cons_of_mem _ later, fresh⟩
        · rintro (old | ⟨member, fresh⟩)
          · exact Or.inl (Or.inl old)
          · rcases List.mem_cons.mp member with rfl | later
            · exact Or.inl (Or.inr ⟨rfl, fresh⟩)
            · by_cases same : key first = key x
              · have equal := distinct first List.mem_cons_self x member same
                exact Or.inl (Or.inr ⟨equal.symm, same ▸ fresh⟩)
              · exact Or.inr ⟨later, fresh, same⟩

theorem round_eq (state : Finset κ × List ν) :
    round adjacent key state = (state.2.flatMap adjacent).foldl (visit key) (state.1, []) := by
  rw [round, List.foldl_flatMap]

variable {start : ν}

/-- Nodes that walks from the start end at are told apart by their keys. -/
def Distinct (adjacent : ν → List ν) (key : ν → κ) (start : ν) : Prop :=
  ∀ j x, Walks (fun x y => y ∈ adjacent x) start j x →
    ∀ k y, Walks (fun x y => y ∈ adjacent x) start k y → key x = key y → x = y

/-- What has been seen after some rounds, and what the last level is. -/
structure Searched (adjacent : ν → List ν) (key : ν → κ) (start : ν) (rounds : Nat)
    (state : Finset κ × List ν) : Prop where
  seen : ∀ k, k ∈ state.1 ↔
    ∃ j x, 1 ≤ j ∧ j ≤ rounds ∧
      Walks (fun x y => y ∈ adjacent x) start j x ∧ key x = k
  level : ∀ x, x ∈ state.2 ↔ Walks (fun x y => y ∈ adjacent x) start rounds x ∧
    ∀ j, 1 ≤ j → j < rounds → ¬ Walks (fun x y => y ∈ adjacent x) start j x

omit [DecidableEq κ] in
/-- A walk whose last but one node is on an earlier level can be shortened. -/
theorem Searched.shortened {rounds : Nat} {state : Finset κ × List ν}
    (searched : Searched adjacent key start rounds state) {x : ν}
    (walks : Walks (fun x y => y ∈ adjacent x) start (rounds + 1) x) :
    x ∈ state.2.flatMap adjacent ∨ key x ∈ state.1 := by
  cases walks with
  | @succ _ node _ walks neighbour =>
      by_cases inLevel : node ∈ state.2
      · exact Or.inl (List.mem_flatMap.mpr ⟨node, inLevel, neighbour⟩)
      · have earlier :
            ∃ j, 1 ≤ j ∧ j < rounds ∧ Walks (fun x y => y ∈ adjacent x) start j node := by
          by_contra none_
          exact inLevel ((searched.level node).mpr ⟨walks, fun j one before walks' =>
            none_ ⟨j, one, before, walks'⟩⟩)
        rcases earlier with ⟨j, one, before, walks'⟩
        exact Or.inr ((searched.seen _).mpr
          ⟨j + 1, x, Nat.le_add_left 1 j, before, walks'.succ neighbour, rfl⟩)

theorem Searched.round (distinct : Distinct adjacent key start) {rounds : Nat}
    {state : Finset κ × List ν} (searched : Searched adjacent key start rounds state) :
    Searched adjacent key start (rounds + 1) (round adjacent key state) := by
  have reached : ∀ x, x ∈ state.2.flatMap adjacent →
      Walks (fun x y => y ∈ adjacent x) start (rounds + 1) x := by
    intro x member
    rcases List.mem_flatMap.mp member with ⟨node, inLevel, neighbour⟩
    exact ((searched.level node).mp inLevel).1.succ neighbour
  have visited := @foldl_visit _ _ _ key (state.2.flatMap adjacent) (state.1, [])
    fun x inFirst y inSecond => distinct _ x (reached x inFirst) _ y (reached y inSecond)
  rw [round_eq]
  constructor
  · intro k
    rw [visited.1]
    constructor
    · rintro (old | ⟨x, member, rfl⟩)
      · rcases (searched.seen k).mp old with ⟨j, x, one, bound, walks, isKey⟩
        exact ⟨j, x, one, Nat.le_succ_of_le bound, walks, isKey⟩
      · exact ⟨rounds + 1, x, Nat.le_add_left 1 rounds, Nat.le_refl _, reached x member, rfl⟩
    · rintro ⟨j, x, one, bound, walks, rfl⟩
      rcases Nat.lt_or_eq_of_le bound with before | rfl
      · exact Or.inl ((searched.seen _).mpr ⟨j, x, one, Nat.le_of_lt_succ before, walks, rfl⟩)
      · rcases searched.shortened walks with new | old
        · exact Or.inr ⟨x, new, rfl⟩
        · exact Or.inl old
  · intro x
    rw [visited.2]
    constructor
    · rintro (impossible | ⟨member, fresh⟩)
      · exact absurd impossible List.not_mem_nil
      · refine ⟨reached x member, fun j one before walks => fresh ?_⟩
        exact (searched.seen _).mpr ⟨j, x, one, Nat.le_of_lt_succ before, walks, rfl⟩
    · rintro ⟨walks, first⟩
      have fresh : key x ∉ state.1 := by
        intro old
        rcases (searched.seen _).mp old with ⟨j, y, one, bound, walks', isKey⟩
        have same := distinct _ y walks' _ x walks isKey
        subst same
        exact first j one (Nat.lt_succ_of_le bound) walks'
      exact Or.inr ⟨(searched.shortened walks).resolve_right fresh, fresh⟩

theorem searched_search (distinct : Distinct adjacent key start) (rounds : Nat) :
    Searched adjacent key start rounds (search adjacent key start rounds) := by
  induction rounds with
  | zero =>
      constructor
      · intro k
        refine ⟨fun impossible => absurd impossible (Finset.notMem_empty k), ?_⟩
        rintro ⟨j, x, one, bound, -⟩
        omega
      · intro x
        rw [search, List.mem_singleton]
        constructor
        · rintro rfl
          exact ⟨.zero, fun j _ impossible => absurd impossible (Nat.not_lt_zero j)⟩
        · rintro ⟨walks, -⟩
          cases walks
          rfl
  | succ rounds inductionHypothesis => exact inductionHypothesis.round distinct

end Search

end Levels
end Library
end Sigil
