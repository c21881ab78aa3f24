import Mathlib.Data.Finset.Basic
import Mathlib.Data.Finset.Lattice.Lemmas

namespace Sigil
namespace Library

/-!
# Snapshots

Who looks at a changing set from time to time and remembers what was there the last time can tell
what is new.  The first look tells nothing.

Whoever hears what appears and what vanishes, and knows the set of the first look, knows the set of
every later one.
-/

universe u v

variable {α : Type u} {κ : Type v} [DecidableEq κ]

/-! ## Looks -/

/-- What an observer has become after one input after another. -/
def observed {σ : Type*} {ι : Type*} {ο : Type*} (poll : σ → ι → σ × ο) (state : σ)
    (inputs : List ι) : σ :=
  inputs.foldl (fun state input => (poll state input).1) state

theorem observed_concat {σ : Type*} {ι : Type*} {ο : Type*}
    (poll : σ → ι → σ × ο) (state : σ) (inputs : List ι) (input : ι) :
    observed poll state (inputs ++ [input]) = (poll (observed poll state inputs) input).1 := by
  rw [observed, List.foldl_append]
  rfl

/-- The keys of the last look, and whether there was one. -/
structure Baseline (κ : Type v) where
  seen : Finset κ
  primed : Bool

/-- The elements of a snapshot whose keys were not in an earlier one. -/
def appeared (key : α → κ) (before after : List α) : List α :=
  after.filter fun x => key x ∉ before.map key

namespace Baseline

def new : Baseline κ where
  seen := ∅
  primed := false

/-- Look once, and tell what is new. -/
def poll (key : α → κ) (baseline : Baseline κ) (snapshot : List α) : Baseline κ × List α :=
  ({ seen := (snapshot.map key).toFinset, primed := true },
    if baseline.primed then snapshot.filter fun x => key x ∉ baseline.seen else [])

/-- What is remembered of the last look, if there was one. -/
def of (key : α → κ) : Option (List α) → Baseline κ
  | none => new
  | some snapshot => { seen := (snapshot.map key).toFinset, primed := true }

/-- A look tells what has appeared since the last one, the first one nothing. -/
theorem poll_of (key : α → κ) (last : Option (List α)) (snapshot : List α) :
    (of key last).poll key snapshot =
      (of key (some snapshot), last.elim [] fun before => appeared key before snapshot) := by
  cases last with
  | none => rfl
  | some before =>
      rw [poll, of, of, if_pos rfl, Option.elim_some, appeared]
      congr 1
      apply List.filter_congr
      intro x _
      exact decide_eq_decide.mpr (not_congr List.mem_toFinset)

/-- An observer who looks through the inputs, at some of them, remembers the last look. -/
theorem observed_of {ι : Type*} {ο : Type*} {key : α → κ}
    {poll : Baseline κ → ι → Baseline κ × ο} {look : ι → Option (List α)}
    (looks : ∀ baseline input,
      (poll baseline input).1 = (look input).elim baseline fun snapshot =>
        (baseline.poll key snapshot).1)
    (inputs : List ι) : observed poll new inputs = of key (inputs.filterMap look).getLast? := by
  induction inputs using List.reverseRecOn with
  | nil => rfl
  | append_singleton inputs input inductionHypothesis =>
      rw [observed_concat, looks, inductionHypothesis, List.filterMap_append]
      cases seen : look input with
      | none => rw [List.filterMap_cons_none seen, List.filterMap_nil,
          List.append_nil, Option.elim_none]
      | some snapshot =>
          rw [List.filterMap_cons_some seen, List.filterMap_nil,
            List.getLast?_concat, Option.elim_some, poll_of]

end Baseline

/-! ## Changes -/

inductive Change (κ : Type v) where
  | appears (key : κ)
  | vanishes (key : κ)
  deriving DecidableEq

/-- What is there after a change. -/
def Change.apply (present : Finset κ) : Change κ → Finset κ
  | .appears key => insert key present
  | .vanishes key => present.erase key

/-- What is there after all of the changes. -/
def replay (present : Finset κ) (changes : List (Change κ)) : Finset κ :=
  changes.foldl Change.apply present

theorem replay_append (present : Finset κ) (first second : List (Change κ)) :
    replay present (first ++ second) = replay (replay present first) second :=
  List.foldl_append

theorem replay_appears (present : Finset κ) (keys : List κ) :
    replay present (keys.map .appears) = present ∪ keys.toFinset := by
  induction keys generalizing present with
  | nil => exact (Finset.union_empty _).symm
  | cons key keys inductionHypothesis =>
      change replay (insert key present) (keys.map .appears) = _
      rw [inductionHypothesis, List.toFinset_cons, Finset.insert_union, Finset.union_insert]

theorem replay_vanishes (present : Finset κ) (keys : List κ) :
    replay present (keys.map .vanishes) = present \ keys.toFinset := by
  induction keys generalizing present with
  | nil => exact Finset.sdiff_empty.symm
  | cons key keys inductionHypothesis =>
      change replay (present.erase key) (keys.map .vanishes) = _
      rw [inductionHypothesis, List.toFinset_cons, Finset.sdiff_insert, Finset.erase_sdiff_comm]

/-- What has appeared and what has vanished turns one set into the other. -/
theorem replay_difference {before after : Finset κ} {new gone : List κ}
    (isNew : ∀ key, key ∈ new ↔ key ∈ after ∧ key ∉ before)
    (isGone : ∀ key, key ∈ gone ↔ key ∈ before ∧ key ∉ after) :
    replay before (new.map .appears ++ gone.map .vanishes) = after := by
  rw [replay_append, replay_appears, replay_vanishes]
  ext key
  rw [Finset.mem_sdiff, Finset.mem_union, List.mem_toFinset, List.mem_toFinset, isNew, isGone]
  by_cases wasThere : key ∈ before
  · by_cases isThere : key ∈ after
    · simp [wasThere, isThere]
    · simp [wasThere, isThere]
  · by_cases isThere : key ∈ after
    · simp [wasThere, isThere]
    · simp [wasThere, isThere]

end Library
end Sigil
