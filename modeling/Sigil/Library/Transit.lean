import Mathlib.Algebra.BigOperators.Group.Finset.Basic
import Mathlib.Algebra.Order.BigOperators.Group.Finset
import Mathlib.Algebra.Order.Group.Multiset
import Mathlib.Tactic.Abel
import Sigil.Library.BoundedQueue

namespace Sigil
namespace Library

/-!
# What is in transit

The receiver of a broadcast keeps the last values that it has not taken; one that is too far
behind learns how many it has lost and goes on with the oldest value that is left.

What lies at many places is a sum over the places, and a step that changes one of them changes
the sum by what it adds there.
-/

universe u v

/-- What a receiver has still to take, and how many values it has lost. -/
structure Receiver (α : Type u) where
  pending : List α
  missed : Nat

namespace Receiver

variable {α : Type u}

def new : Receiver α where
  pending := []
  missed := 0

/-- A value is sent; a receiver that is too far behind loses its oldest one. -/
def send (cap : Nat) (receiver : Receiver α) (x : α) : Receiver α where
  pending := BoundedQueue.push cap receiver.pending x
  missed := if receiver.pending.length = cap then receiver.missed + 1 else receiver.missed

/-- Take the next value, or the number of the lost ones; nothing while there is none. -/
def recv (receiver : Receiver α) : Option (Except Nat α × Receiver α) :=
  if receiver.missed = 0 then
    match receiver.pending with
    | [] => none
    | x :: rest => some (.ok x, { receiver with pending := rest })
  else some (.error receiver.missed, { receiver with missed := 0 })

theorem send_pending (cap : Nat) (receiver : Receiver α) (x : α) :
    (receiver.send cap x).pending.Sublist (receiver.pending ++ [x]) := by
  rw [send, BoundedQueue.push]
  apply List.Sublist.append_right
  split
  · exact List.tail_sublist _
  · exact List.Sublist.refl _

theorem recv_ok {receiver after : Receiver α} {x : α}
    (received : receiver.recv = some (.ok x, after)) : receiver.pending = x :: after.pending := by
  rw [recv] at received
  split at received
  · split at received
    · cases received
    · next stored =>
        cases received
        exact stored
  · cases received

theorem recv_error {receiver after : Receiver α} {lost : Nat}
    (received : receiver.recv = some (.error lost, after)) : after.pending = receiver.pending := by
  rw [recv] at received
  split at received
  · split at received <;> cases received
  · cases received
    rfl

end Receiver

section Places

variable {Place : Type u} {Value : Type v} {α : Type*} [DecidableEq Place]

/-- What one place loses and takes. -/
theorem sum_update (places : Finset Place) (carried : Place → Value → Multiset α)
    (values : Place → Value) {place : Place} (isPlace : place ∈ places) (value : Value) :
    ∑ p ∈ places, carried p (Function.update values place value p) +
      carried place (values place) =
      ∑ p ∈ places, carried p (values p) + carried place value := by
  have others : ∑ p ∈ places.erase place, carried p (Function.update values place value p) =
      ∑ p ∈ places.erase place, carried p (values p) := by
    apply Finset.sum_congr rfl
    intro p member
    rw [Function.update_of_ne (Finset.ne_of_mem_erase member)]
  rw [← Finset.add_sum_erase _ _ isPlace, ← Finset.add_sum_erase places _ isPlace, others,
    Function.update_self]
  abel

/-- A place has at most that much more. -/
theorem sum_update_le (places : Finset Place) (carried : Place → Value → Multiset α)
    (values : Place → Value) {place : Place} (isPlace : place ∈ places) {value : Value}
    {more : Multiset α} (grows : carried place value ≤ carried place (values place) + more) :
    ∑ p ∈ places, carried p (Function.update values place value p) ≤
      ∑ p ∈ places, carried p (values p) + more := by
  apply le_of_add_le_add_right
  rw [sum_update places carried values isPlace, add_assoc, add_comm more]
  exact add_le_add_right grows _

/-- A place has at least that much less. -/
theorem sum_update_take (places : Finset Place) (carried : Place → Value → Multiset α)
    (values : Place → Value) {place : Place} (isPlace : place ∈ places) {value : Value}
    {taken : Multiset α} (loses : carried place value + taken ≤ carried place (values place)) :
    ∑ p ∈ places, carried p (Function.update values place value p) + taken ≤
      ∑ p ∈ places, carried p (values p) := by
  apply le_of_add_le_add_right (a := carried place (values place))
  rw [add_right_comm, sum_update places carried values isPlace, add_assoc]
  exact add_le_add_right loses _

/-- What a place of a list loses and takes. -/
theorem sum_set {values : List Value} (carried : Value → Multiset α) {place : Nat} {old : Value}
    (found : values[place]? = some old) (value : Value) :
    ((values.set place value).map carried).sum + carried old =
      (values.map carried).sum + carried value := by
  induction values generalizing place with
  | nil => cases found
  | cons first rest inductionHypothesis =>
      cases place with
      | zero =>
          cases found
          rw [List.set_cons_zero, List.map_cons, List.map_cons, List.sum_cons, List.sum_cons]
          abel
      | succ place =>
          rw [List.set_cons_succ, List.map_cons, List.map_cons, List.sum_cons, List.sum_cons,
            add_assoc, inductionHypothesis found, add_assoc]

/-- What a change at one place leaves alone. -/
theorem map_set_same {β : Type*} (f : Value → β) {values : List Value} {place : Nat}
    {x y : Value} (found : values[place]? = some x) (same : f y = f x) :
    (values.set place y).map f = values.map f := by
  refine List.ext_getElem? fun index => ?_
  rw [List.getElem?_map, List.getElem?_map]
  by_cases here : place = index
  · subst here
    rw [List.getElem?_set_self (List.getElem?_eq_some_iff.mp found).1, found, Option.map_some,
      Option.map_some, same]
  · rw [List.getElem?_set_ne here]

theorem set_same {values : List Value} {place : Nat} {x : Value} (found : values[place]? = some x) :
    values.set place x = values := by
  have same := map_set_same id found rfl
  rwa [List.map_id, List.map_id] at same

/-- A change at one place of two lists that go together. -/
theorem zipWith_set {β γ : Type*} (f : Value → β → γ)
    {lefts : List Value} {rights : List β} {place : Nat} {x : Value} {y : β}
    (left : lefts[place]? = some x) (right : rights[place]? = some y) (x' : Value) (y' : β) :
    List.zipWith f (lefts.set place x') (rights.set place y') =
      (List.zipWith f lefts rights).set place (f x' y') := by
  have leftBound := (List.getElem?_eq_some_iff.mp left).1
  have rightBound := (List.getElem?_eq_some_iff.mp right).1
  refine List.ext_getElem? fun index => ?_
  rw [List.getElem?_zipWith]
  by_cases here : place = index
  · subst here
    rw [List.getElem?_set_self leftBound, List.getElem?_set_self rightBound, List.getElem?_set_self]
    rw [List.length_zipWith]
    exact lt_min leftBound rightBound
  · rw [List.getElem?_set_ne here, List.getElem?_set_ne here, List.getElem?_set_ne here,
      List.getElem?_zipWith]

end Places

end Library
end Sigil
