import Mathlib.Data.List.DropRight

namespace Sigil
namespace Library
namespace BoundedQueue

/-!
# Queues that forget their front

A queue of bounded length drops its first element before it takes one more.  It then always
holds the last elements that it was given.
-/

universe u

variable {α : Type u}

/-- Put an element at the back, after dropping the first one of a full queue. -/
def push (cap : Nat) (queue : List α) (x : α) : List α :=
  (if queue.length = cap then queue.tail else queue) ++ [x]

/-- A queue that is not full takes the element, and a full one forgets its front. -/
theorem push_rtake {cap : Nat} (positive : 0 < cap) (history : List α) (x : α) :
    push cap (history.rtake cap) x = (history ++ [x]).rtake cap := by
  have length : (history.rtake cap).length = min cap history.length := by
    rw [List.rtake, List.length_drop]
    omega
  rw [push, length]
  by_cases full : cap ≤ history.length
  · -- what is left of the queue starts one place later
    have shift : history.length - cap + 1 = (history ++ [x]).length - cap := by
      rw [List.length_append, List.length_singleton]
      omega
    rw [if_pos (Nat.min_eq_left full), List.rtake, List.tail_drop, shift, List.rtake,
      List.drop_append_of_le_length]
    rw [← shift]
    omega
  · have room : ¬ min cap history.length = cap := by omega
    have all : history.length - cap = 0 := by omega
    have all' : (history ++ [x]).length - cap = 0 := by
      rw [List.length_append, List.length_singleton]
      omega
    rw [if_neg room, List.rtake, List.rtake, all, all', List.drop_zero, List.drop_zero]

/-- After any number of elements the queue holds the last ones of its history. -/
theorem foldl_push {cap : Nat} (positive : 0 < cap) (history new : List α) :
    new.foldl (push cap) (history.rtake cap) = (history ++ new).rtake cap := by
  induction new generalizing history with
  | nil => rw [List.foldl_nil, List.append_nil]
  | cons x new inductionHypothesis =>
      rw [List.foldl_cons, push_rtake positive, inductionHypothesis, ← List.append_cons]

end BoundedQueue
end Library
end Sigil
