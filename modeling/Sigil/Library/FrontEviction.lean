import Mathlib.Data.List.Destutter
import Mathlib.Data.List.TakeWhile
import Mathlib.Order.Lattice

namespace Sigil
namespace Library
namespace FrontEviction

/-!
# Queues that are cleaned from the front

A queue drops elements from its front as long as their key lies below a threshold.  In a
queue with ascending keys this is the same as filtering, also when the queue has been
cleaned before with a smaller threshold.  In general it is not: an element below the
threshold stays when it stands behind one that is not.
-/

universe u v

variable {α : Type u} {β : Type v} [LinearOrder β] (key : α → β)

/-- Drop elements from the front while their key is below the threshold. -/
def clean (threshold : β) (queue : List α) : List α :=
  queue.dropWhile fun x => key x < threshold

/-- The keys ascend from the front to the back. -/
def Ascending (queue : List α) : Prop :=
  queue.Pairwise fun first second => key first ≤ key second

variable {key}

theorem clean_eq_filter {threshold : β} {queue : List α} (ascending : Ascending key queue) :
    clean key threshold queue = queue.filter fun x => threshold ≤ key x := by
  induction queue with
  | nil => rfl
  | cons first rest inductionHypothesis =>
      have parts := List.pairwise_cons.mp ascending
      rcases lt_or_ge (key first) threshold with below | above
      · have dropped : clean key threshold (first :: rest) = clean key threshold rest :=
          List.dropWhile_cons_of_pos (decide_eq_true below)
        rw [dropped, inductionHypothesis parts.2, List.filter_cons_of_neg]
        simpa only [decide_eq_true_eq, not_le] using below
      · -- the first element stays, and all others have larger keys
        have kept : clean key threshold (first :: rest) = first :: rest :=
          List.dropWhile_cons_of_neg (by simpa only [decide_eq_true_eq, not_lt] using above)
        rw [kept, List.filter_eq_self.mpr]
        intro x member
        rcases List.mem_cons.mp member with equal | later
        · exact decide_eq_true (equal ▸ above)
        · exact decide_eq_true (above.trans (parts.1 x later))

/-- Cleaning a cleaned queue, with new elements at its back, is filtering the whole. -/
theorem clean_append {early late : β} (order : early ≤ late) {queue new : List α}
    (ascending : Ascending key (queue ++ new)) :
    clean key late ((queue.filter fun x => early ≤ key x) ++ new) =
      (queue ++ new).filter fun x => late ≤ key x := by
  have part : Ascending key ((queue.filter fun x => early ≤ key x) ++ new) :=
    ascending.sublist (List.filter_sublist.append_right new)
  rw [clean_eq_filter part, List.filter_append, List.filter_append, List.filter_filter]
  congr 1
  apply List.filter_congr
  intro x _
  rw [Bool.eq_iff_iff, Bool.and_eq_true, decide_eq_true_eq, decide_eq_true_eq]
  exact ⟨fun both => both.1, fun above => ⟨above, order.trans above⟩⟩

/-- No element below the threshold stands behind one that is not. -/
def StaleFirst (key : α → β) (threshold : β) (queue : List α) : Prop :=
  queue.Pairwise fun first second => key second < threshold → key first < threshold

instance (threshold : β) (queue : List α) : Decidable (StaleFirst key threshold queue) :=
  inferInstanceAs (Decidable (queue.Pairwise _))

/-- What is left lies above the threshold and is good exactly when the elements below the
threshold come first and the others are good. -/
theorem forall_mem_clean_iff {threshold : β} {queue : List α} {good : α → Prop} :
    (∀ x, x ∈ clean key threshold queue → threshold ≤ key x ∧ good x) ↔
      StaleFirst key threshold queue ∧ ∀ x, x ∈ queue → threshold ≤ key x → good x := by
  induction queue with
  | nil =>
      exact ⟨fun _ => ⟨List.Pairwise.nil, fun _ member => absurd member List.not_mem_nil⟩,
        fun _ _ member => absurd member List.not_mem_nil⟩
  | cons first rest inductionHypothesis =>
      rcases lt_or_ge (key first) threshold with below | above
      · have dropped : clean key threshold (first :: rest) = clean key threshold rest :=
          List.dropWhile_cons_of_pos (decide_eq_true below)
        rw [dropped, inductionHypothesis, StaleFirst, StaleFirst, List.pairwise_cons,
          List.forall_mem_cons]
        exact ⟨fun parts => ⟨⟨fun _ _ _ => below, parts.1⟩,
            fun kept => absurd below (not_lt.mpr kept), parts.2⟩,
          fun parts => ⟨parts.1.2, parts.2.2⟩⟩
      · -- the first element stays, so everything stays and has to be good
        have kept : clean key threshold (first :: rest) = first :: rest :=
          List.dropWhile_cons_of_neg (by simpa only [decide_eq_true_eq, not_lt] using above)
        rw [kept]
        constructor
        · intro all
          refine ⟨List.pairwise_of_forall_mem_list fun _ _ second member below => ?_,
            fun x member _ => (all x member).2⟩
          exact absurd below (not_lt.mpr (all second member).1)
        · rintro ⟨staleFirst, good⟩ x member
          have kept : threshold ≤ key x := by
            rcases List.mem_cons.mp member with equal | later
            · exact equal ▸ above
            · apply not_lt.mp
              intro below
              exact not_lt.mpr above ((List.pairwise_cons.mp staleFirst).1 x later below)
          exact ⟨kept, good x member kept⟩

/-! ## Repeated names in a queue of groups -/

section Names

variable {ι : Type u} {γ : Type v} [DecidableEq γ]

/-- Repetitions of one name in front of a list without it count once. -/
theorem destutter_replicate_append {name : γ} {rest : List γ} (absent : name ∉ rest) (n : Nat) :
    List.destutter' (· ≠ ·) name (List.replicate n name ++ rest) =
      name :: rest.destutter (· ≠ ·) := by
  induction n with
  | zero =>
      cases rest with
      | nil => rfl
      | cons next rest =>
          have different : name ≠ next := fun equal => absent (equal ▸ List.mem_cons_self)
          exact List.destutter'_cons_pos _ different
  | succ n inductionHypothesis =>
      rw [List.replicate_succ, List.cons_append, List.destutter'_cons_neg _ (by simp)]
      exact inductionHypothesis

/-- In a queue made of groups, each of one name, the names without repetition are those
of the groups that are not empty. -/
theorem destutter_flatMap {items : List ι} {name : ι → γ} {group : ι → List γ}
    (uniform : ∀ i, i ∈ items → ∀ x, x ∈ group i → x = name i)
    (distinct : (items.map name).Nodup) :
    (items.flatMap group).destutter (· ≠ ·) =
      (items.filter fun i => group i ≠ []).map name := by
  induction items with
  | nil => rfl
  | cons item items inductionHypothesis =>
      rw [List.map_cons, List.nodup_cons] at distinct
      have rest := inductionHypothesis
        (fun i member => uniform i (List.mem_cons_of_mem _ member)) distinct.2
      rw [List.flatMap_cons]
      cases equal : group item with
      | nil =>
          rw [List.nil_append, rest, List.filter_cons_of_neg (by simp [equal])]
      | cons first others =>
          have same : first :: others = List.replicate (others.length + 1) (name item) := by
            apply List.eq_replicate_iff.mpr
            refine ⟨rfl, fun x member => uniform item List.mem_cons_self x ?_⟩
            rw [equal]
            exact member
          have absent : name item ∉ items.flatMap group := by
            intro member
            rcases List.mem_flatMap.mp member with ⟨i, inItems, inGroup⟩
            have nameEq := uniform i (List.mem_cons_of_mem _ inItems) _ inGroup
            exact distinct.1 (nameEq ▸ List.mem_map_of_mem inItems)
          rw [same, List.replicate_succ, List.cons_append, List.destutter_cons',
            destutter_replicate_append absent, rest,
            List.filter_cons_of_pos (by simp [equal]), List.map_cons]

end Names

end FrontEviction
end Library
end Sigil
