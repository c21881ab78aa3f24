import Mathlib.Data.Fintype.Card
import Mathlib.Data.Nat.Find

namespace Sigil
namespace Library

/-!
# Loops with a measure

A loop runs its body until a test holds.  It is given a number of rounds, and the rule for
loops says when that number is enough: some measure falls in every round and starts no higher.
On a finite type any measure will do, for no state comes twice.
-/

universe u v

variable {σ : Type u}

/-- Run the body until the test holds, for at most so many rounds. -/
def loop (done : σ → Prop) [DecidablePred done] (body : σ → σ) : Nat → σ → σ
  | 0, s => s
  | rounds + 1, s => if done s then s else loop done body rounds (body s)

section Rule

variable {done : σ → Prop} [DecidablePred done] {body : σ → σ}

theorem loop_of_done (rounds : Nat) {s : σ} (ended : done s) : loop done body rounds s = s := by
  cases rounds with
  | zero => rfl
  | succ rounds => exact if_pos ended

/-- What every round keeps and a measure that falls: the loop ends by its test. -/
theorem loop_rule (invariant : σ → Prop) (measure : σ → Nat)
    (keep : ∀ s, invariant s → ¬ done s → invariant (body s) ∧
      measure (body s) < measure s)
    {rounds : Nat} {s : σ} (enough : measure s ≤ rounds) (start : invariant s) :
    invariant (loop done body rounds s) ∧ done (loop done body rounds s) := by
  induction rounds generalizing s with
  | zero =>
      refine ⟨start, by_contra fun running => ?_⟩
      exact Nat.not_lt_zero _ ((keep s start running).2.trans_le enough)
  | succ rounds inductionHypothesis =>
      by_cases ended : done s
      · rw [loop_of_done _ ended]
        exact ⟨start, ended⟩
      · rcases keep s start ended with ⟨kept, falls⟩
        rw [loop, if_neg ended]
        exact inductionHypothesis (Nat.le_of_lt_succ (falls.trans_le enough)) kept

/-- On a finite type a falling measure can be bounded by the number of states. -/
theorem exists_bounded_measure [Fintype σ] {measure : σ → Nat}
    (falls : ∀ s, ¬ done s → measure (body s) < measure s) :
    ∃ bounded : σ → Nat, (∀ s, bounded s ≤ Fintype.card σ) ∧
      ∀ s, ¬ done s → bounded (body s) < bounded s := by
  have ends : ∀ s, ∃ k, k ≤ Fintype.card σ ∧ done (body^[k] s) := by
    intro s
    by_contra runs
    have running : ∀ k, k ≤ Fintype.card σ → ¬ done (body^[k] s) :=
      fun k bound ended => runs ⟨k, bound, ended⟩
    have antitone : ∀ k, k ≤ Fintype.card σ + 1 → ∀ j, j < k →
        measure (body^[k] s) < measure (body^[j] s) := by
      intro k
      induction k with
      | zero => exact fun _ j impossible => absurd impossible (Nat.not_lt_zero j)
      | succ k inductionHypothesis =>
          intro bound j below
          have step := falls _ (running k (Nat.le_of_succ_le_succ bound))
          rw [← Function.iterate_succ_apply' body k s] at step
          rcases Nat.lt_or_eq_of_le (Nat.le_of_lt_succ below) with before | rfl
          · exact step.trans (inductionHypothesis (Nat.le_of_succ_le bound) j before)
          · exact step
    -- one state too many
    have injective : Function.Injective fun k : Fin (Fintype.card σ + 1) => body^[k] s := by
      intro j k same
      rcases Nat.lt_trichotomy j k with before | equal | after
      · exact absurd (congrArg measure same).symm
          (Nat.ne_of_lt (antitone k (Nat.le_of_lt k.isLt) j before))
      · exact Fin.ext equal
      · exact absurd (congrArg measure same)
          (Nat.ne_of_lt (antitone j (Nat.le_of_lt j.isLt) k after))
    have tooMany := Fintype.card_le_of_injective _ injective
    rw [Fintype.card_fin] at tooMany
    exact Nat.not_succ_le_self _ tooMany
  refine ⟨fun s => Nat.find (ends s), fun s => (Nat.find_spec (ends s)).1, fun s running => ?_⟩
  have spec := Nat.find_spec (ends s)
  show Nat.find (ends (body s)) < Nat.find (ends s)
  cases found : Nat.find (ends s) with
  | zero =>
      rw [found] at spec
      exact absurd spec.2 running
  | succ k =>
      rw [found] at spec
      exact Nat.lt_succ_of_le (Nat.find_min' (ends (body s)) ⟨Nat.le_of_succ_le spec.1, spec.2⟩)

end Rule

/-! ## Loops that break -/

/-- Run rounds that may fail until one of them breaks the loop, for at most so many rounds.  The
flag tells whether the loop has been broken. -/
def loopUntil (round : σ → Option (σ × Bool)) : Nat → σ → Option (σ × Bool)
  | 0, s => some (s, false)
  | rounds + 1, s => (round s).bind fun next =>
      if next.2 then some next else loopUntil round rounds next.1

/-- What every round keeps and a measure that falls unless the loop breaks: the loop is broken
in time. -/
theorem loopUntil_rule {round : σ → Option (σ × Bool)} (invariant : σ → Prop)
    (measure : σ → Nat)
    (keep : ∀ s, invariant s → ∀ s' broken, round s = some (s', broken) →
      invariant s' ∧ (broken = false → measure s' < measure s))
    {rounds : Nat} {s : σ} (enough : measure s < rounds) (start : invariant s)
    {s' : σ} {broken : Bool} (ran : loopUntil round rounds s = some (s', broken)) :
    invariant s' ∧ broken = true := by
  induction rounds generalizing s with
  | zero => exact absurd enough (Nat.not_lt_zero _)
  | succ rounds inductionHypothesis =>
      rcases Option.bind_eq_some_iff.mp ran with ⟨⟨next, halts⟩, isNext, rest⟩
      rcases keep s start next halts isNext with ⟨kept, falls⟩
      cases halts with
      | true =>
          cases Option.some.inj rest
          exact ⟨kept, rfl⟩
      | false =>
          exact inductionHypothesis ((falls rfl).trans_le (Nat.le_of_lt_succ enough)) kept rest

/-- A loop whose rounds do not fail does not fail. -/
theorem loopUntil_runs {round : σ → Option (σ × Bool)} (invariant : σ → Prop)
    (keep : ∀ s, invariant s → ∃ s' broken, round s = some (s', broken) ∧ invariant s')
    (rounds : Nat) {s : σ} (start : invariant s) :
    ∃ last broken, loopUntil round rounds s = some (last, broken) := by
  induction rounds generalizing s with
  | zero => exact ⟨s, false, rfl⟩
  | succ rounds inductionHypothesis =>
      rcases keep s start with ⟨next, halts, isNext, kept⟩
      rw [loopUntil, isNext, Option.bind_some]
      split
      · exact ⟨next, halts, rfl⟩
      · exact inductionHypothesis kept

/-- The state in which a round breaks the loop, if no round fails and the rounds suffice. -/
def runUntil (round : σ → Option (σ × Bool)) (rounds : Nat) (s : σ) : Option σ :=
  (loopUntil round rounds s).bind fun last => if last.2 then some last.1 else none

/-- Rounds that do not fail, and a measure that falls until one of them breaks the loop: the loop
ends with what the last round establishes. -/
theorem runUntil_rule {round : σ → Option (σ × Bool)} (invariant post : σ → Prop)
    (measure : σ → Nat)
    (keep : ∀ s, invariant s → ∃ s' broken, round s = some (s', broken) ∧
      (broken = true → post s') ∧ (broken = false → invariant s' ∧ measure s' < measure s))
    {rounds : Nat} {s : σ} (enough : measure s < rounds) (start : invariant s) :
    ∃ s', runUntil round rounds s = some s' ∧ post s' := by
  unfold runUntil
  induction rounds generalizing s with
  | zero => exact absurd enough (Nat.not_lt_zero _)
  | succ rounds inductionHypothesis =>
      rcases keep s start with ⟨next, broken, ran, ends, goesOn⟩
      rw [loopUntil, ran, Option.bind_some]
      cases broken with
      | true => exact ⟨next, rfl, ends rfl⟩
      | false =>
          rcases goesOn rfl with ⟨kept, falls⟩
          exact inductionHypothesis (falls.trans_le (Nat.le_of_lt_succ enough)) kept

/-! ## Loops over a list -/

/-- What every step keeps, of the state and the elements that are left: the steps of a loop over a
list do not fail. -/
theorem exists_foldlM {α : Type v} {f : σ → α → Option σ}
    (invariant : List α → σ → Prop)
    (keep : ∀ s a rest, invariant (a :: rest) s → ∃ s', f s a = some s' ∧ invariant rest s')
    {list : List α} {s : σ} (start : invariant list s) :
    ∃ s', list.foldlM f s = some s' ∧ invariant [] s' := by
  induction list generalizing s with
  | nil => exact ⟨s, rfl, start⟩
  | cons a rest inductionHypothesis =>
      rcases keep s a rest start with ⟨next, step, kept⟩
      rw [List.foldlM_cons, step, Option.bind_eq_bind, Option.bind_some]
      exact inductionHypothesis kept

/-- What holds before the round of each index holds with the number of rounds at the end. -/
theorem foldl_finRange_rule (invariant : Nat → σ → Prop) {n : Nat} {f : σ → Fin n → σ}
    (keep : ∀ (i : Fin n) s, invariant i s → invariant (i + 1) (f s i)) {s : σ}
    (start : invariant 0 s) : invariant n ((List.finRange n).foldl f s) := by
  induction n with
  | zero => exact start
  | succ n inductionHypothesis =>
      rw [List.finRange_succ_last, List.foldl_append, List.foldl_map]
      exact keep (Fin.last n) _ (inductionHypothesis fun i s holds => keep i.castSucc s holds)

end Library
end Sigil
