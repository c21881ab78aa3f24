import Mathlib.Data.Int.CardIntervalMod
import Mathlib.Data.List.Nodup
import Mathlib.Data.List.Range

namespace Sigil
namespace Library
namespace Circle

/-!
# Arcs of a circle

Some places stand in a circle.  An arc begins at the place of a number and steps around.  Arcs
that begin at consecutive numbers reach every place nearly equally often: each full turn reaches
all places alike, and what is left reaches no place more often than an arc is long.
-/

/-- The places of an arc. -/
def arc (n length start : Nat) : List Nat :=
  (List.range length).map fun i => (start + i) % n

/-- How many of the first arcs reach a place. -/
def reaching (n length total place : Nat) : Nat :=
  (List.range total).countP fun start => place ∈ arc n length start

universe u

variable {n length start total place other : Nat}

theorem length_arc : (arc n length start).length = length := by
  rw [arc, List.length_map, List.length_range]

theorem mem_arc :
    place ∈ arc n length start ↔ ∃ i, i < length ∧ (start + i) % n = place := by
  simp only [arc, List.mem_map, List.mem_range]

/-- An arc that is not longer than the circle reaches no place twice. -/
theorem nodup_arc (fits : length ≤ n) : (arc n length start).Nodup := by
  apply List.Nodup.map_on _ List.nodup_range
  intro i inFirst j inSecond same
  rw [List.mem_range] at inFirst inSecond
  have congruent : i ≡ j [MOD n] := Nat.ModEq.add_left_cancel' start same
  exact congruent.eq_of_lt_of_lt (inFirst.trans_le fits) (inSecond.trans_le fits)

theorem mem_arc_succ : place ∈ arc n (length + 1) start ↔
    place ∈ arc n length start ∨ (start + length) % n = place := by
  rw [arc, List.range_succ, List.map_append, List.mem_append, List.map_singleton,
    List.mem_singleton, arc, eq_comm (a := place)]

/-- How many of the first numbers are some steps in front of a place. -/
theorem countP_steps (inside : place < n) (steps total : Nat) :
    total / n ≤ (List.range total).countP (fun start => (start + steps) % n = place) ∧
      (List.range total).countP (fun start => (start + steps) % n = place) ≤ total / n + 1 := by
  have positive : 0 < n := Nat.zero_lt_of_lt inside
  have residue : ∀ start, (start + steps) % n = place ↔
      start ≡ place + (n - steps % n) [MOD n] := by
    intro start
    have below : steps % n < n := Nat.mod_lt _ positive
    have turn : place + (n - steps % n) + steps ≡ place [MOD n] := by
      have whole : place + (n - steps % n) + steps = place + n * (steps / n + 1) := by
        have parts := Nat.div_add_mod steps n
        rw [Nat.mul_add]
        omega
      rw [whole]
      exact Nat.add_mul_mod_self_left _ _ _
    constructor
    · intro reached
      apply Nat.ModEq.add_right_cancel' steps
      exact Nat.ModEq.trans (reached.trans (Nat.mod_eq_of_lt inside).symm) turn.symm
    · intro congruent
      have reached : start + steps ≡ place [MOD n] := (congruent.add_right steps).trans turn
      exact Eq.trans reached (Nat.mod_eq_of_lt inside)
  have counted : (List.range total).countP (fun start => (start + steps) % n = place) =
      total.count (· ≡ place + (n - steps % n) [MOD n]) := by
    rw [Nat.count]
    apply List.countP_congr
    intro start _
    rw [decide_eq_true_eq, decide_eq_true_eq]
    exact residue start
  rw [counted, Nat.count_modEq_card total positive]
  split
  · exact ⟨Nat.le_add_right _ _, Nat.le_refl _⟩
  · exact ⟨Nat.le_refl _, Nat.le_succ _⟩

/-- What has one of two properties that exclude each other is counted for one of them. -/
theorem countP_or {α : Type u} {p q : α → Prop} [DecidablePred p]
    [DecidablePred q] {list : List α} (exclusive : ∀ x, x ∈ list → p x → ¬ q x) :
    list.countP (fun x => p x ∨ q x) = list.countP (fun x => p x) +
      list.countP (fun x => q x) := by
  induction list with
  | nil => rfl
  | cons x list inductionHypothesis =>
      have rest := inductionHypothesis fun y member => exclusive y (List.mem_cons_of_mem x member)
      have notBoth := exclusive x List.mem_cons_self
      simp only [List.countP_cons, rest, decide_eq_true_eq]
      by_cases first : p x
      · rw [if_pos (Or.inl first), if_pos first, if_neg (notBoth first)]
        omega
      · by_cases second : q x
        · rw [if_pos (Or.inr second), if_neg first, if_pos second]
          omega
        · rw [if_neg (not_or.mpr ⟨first, second⟩), if_neg first, if_neg second]
          omega

theorem reaching_succ (fits : length + 1 ≤ n) : reaching n (length + 1) total place =
    reaching n length total place +
      (List.range total).countP (fun start => (start + length) % n = place) := by
  unfold reaching
  rw [← countP_or]
  · apply List.countP_congr
    intro start _
    rw [decide_eq_true_eq, decide_eq_true_eq]
    exact mem_arc_succ
  · intro start _ before last
    have nodup : (arc n (length + 1) start).Nodup := nodup_arc fits
    rw [arc, List.range_succ, List.map_append, List.map_singleton] at nodup
    exact (List.nodup_append.mp nodup).2.2 place before _ (List.mem_singleton_self _) last.symm

/-- Each full turn reaches a place as often as an arc is long. -/
theorem reaching_bounds (total : Nat) (fits : length ≤ n) (inside : place < n) :
    length * (total / n) ≤ reaching n length total place ∧
      reaching n length total place ≤ length * (total / n) + length := by
  induction length with
  | zero =>
      have none_ : reaching n 0 total place = 0 := by
        rw [reaching, List.countP_eq_zero]
        intro start _
        simp [arc]
      rw [none_]
      omega
  | succ length inductionHypothesis =>
      have shorter := inductionHypothesis (Nat.le_of_succ_le fits)
      have last := countP_steps inside length total
      rw [reaching_succ fits, Nat.succ_mul]
      omega

/-- Two places are reached nearly equally often. -/
theorem reaching_balanced (fits : length ≤ n) (inFirst : place < n) (inSecond : other < n) :
    reaching n length total place ≤ reaching n length total other + length := by
  have first := (reaching_bounds total fits inFirst).2
  have second := (reaching_bounds total fits inSecond).1
  omega

end Circle
end Library
end Sigil
