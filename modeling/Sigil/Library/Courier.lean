import Mathlib.Data.Multiset.UnionInter
import Sigil.Library.Transit
import Sigil.Library.Transition

namespace Sigil
namespace Library

/-!
# Couriers

Parties order items, each with a key of its own.  An order is handed over to a line that leads to
its party, at most once; what is in a line is lost or comes out at the end of it.  So no item comes
out twice, and what comes out was ordered for the party at the end of the line.
-/

universe u v w

structure Order (Party : Type u) (Item : Type v) where
  party : Party
  item : Item
  handed : Bool
  deriving DecidableEq

/-- A line with what is in it, in no order. -/
structure Line (Party : Type u) (Item : Type v) where
  party : Party
  content : Multiset Item

/-- The orders, the lines, and what has come out of them. -/
structure Courier (Party : Type u) (Item : Type v) where
  orders : List (Order Party Item)
  lines : List (Line Party Item)
  done : List (Party × Item)

variable {Party : Type u} {Item : Type v} {Key : Type w}

/-- What an order has put into the lines. -/
def Order.sent (order : Order Party Item) : Multiset (Party × Item) :=
  if order.handed then {(order.party, order.item)} else 0

/-- What may come out of a line. -/
def Line.carried (line : Line Party Item) : Multiset (Party × Item) :=
  line.content.map (Prod.mk line.party)

namespace Courier

/-- The steps of a courier. -/
inductive Step (key : Item → Key) (c : Courier Party Item) : Courier Party Item → Prop where
  | place (party : Party) (item : Item)
      (fresh : ∀ order ∈ c.orders, key order.item ≠ key item) :
      Step key c { c with orders := c.orders ++ [⟨party, item, false⟩] }
  | lead (party : Party) : Step key c { c with lines := c.lines ++ [⟨party, 0⟩] }
  | hand {number place : Nat} {order : Order Party Item} {line : Line Party Item}
      (ordered : c.orders[number]? = some order) (found : c.lines[place]? = some line)
      (unsent : order.handed = false) (leads : line.party = order.party) :
      Step key c { c with
        orders := c.orders.set number { order with handed := true }
        lines := c.lines.set place { line with content := order.item ::ₘ line.content } }
  | perform {place : Nat} {line : Line Party Item} {item : Item} {rest : Multiset Item}
      (found : c.lines[place]? = some line) (content : line.content = item ::ₘ rest) :
      Step key c { c with
        lines := c.lines.set place { line with content := rest }
        done := c.done ++ [(line.party, item)] }
  | lose {place : Nat} {line : Line Party Item} {rest : Multiset Item}
      (found : c.lines[place]? = some line) (less : rest ≤ line.content) :
      Step key c { c with lines := c.lines.set place { line with content := rest } }

/-- All runs of a courier that starts with nothing. -/
def system (key : Item → Key) : TransitionSystem (Courier Party Item) Unit where
  init := fun c => c = ⟨[], [], []⟩
  step := fun before _ after => Step key before after

/-- All that is in the lines. -/
def carried (c : Courier Party Item) : Multiset (Party × Item) :=
  (c.lines.map Line.carried).sum

/-- All that has been put into them. -/
def sent (c : Courier Party Item) : Multiset (Party × Item) :=
  (c.orders.map Order.sent).sum

/-- The items of the orders have different keys, and what is in the lines and what has come out of
them was put into them. -/
structure Fair (key : Item → Key) (c : Courier Party Item) : Prop where
  distinct : (c.orders.map fun order => key order.item).Nodup
  once : c.carried + c.done ≤ c.sent

variable {key : Item → Key} {c c' : Courier Party Item}

theorem carried_cons (party : Party) (item : Item) (rest : Multiset Item) :
    (item ::ₘ rest).map (Prod.mk party) = {(party, item)} + rest.map (Prod.mk party) := by
  rw [Multiset.map_cons, Multiset.singleton_add]

/-- What is in the lines after the content of one of them has changed. -/
theorem carried_set {place : Nat} {line : Line Party Item} (found : c.lines[place]? = some line)
    (content : Multiset Item) :
    ((c.lines.set place { line with content := content }).map Line.carried).sum + line.carried =
      c.carried + content.map (Prod.mk line.party) :=
  sum_set Line.carried found { line with content := content }

/-- What has been put into the lines after an order is handed over. -/
theorem sent_set {number : Nat} {order : Order Party Item}
    (ordered : c.orders[number]? = some order) (unsent : order.handed = false) :
    ((c.orders.set number { order with handed := true }).map Order.sent).sum =
      c.sent + {(order.party, order.item)} := by
  have changed := sum_set Order.sent ordered { order with handed := true }
  have nothing : order.sent = 0 := by
    rw [Order.sent, unsent, if_neg Bool.false_ne_true]
  rw [nothing, add_zero] at changed
  exact changed

theorem Fair.place (fair : Fair key c) {party : Party} {item : Item}
    (fresh : ∀ order ∈ c.orders, key order.item ≠ key item) :
    Fair key { c with orders := c.orders ++ [⟨party, item, false⟩] } where
  distinct := by
    rw [List.map_append, List.map_singleton]
    refine List.nodup_append.mpr ⟨fair.distinct, List.nodup_singleton _, ?_⟩
    intro old member new isNew same
    rcases List.mem_map.mp member with ⟨order, ordered, rfl⟩
    exact fresh order ordered (same.trans (List.mem_singleton.mp isNew))
  once := by
    have same : sent { c with orders := c.orders ++ [⟨party, item, false⟩] } = c.sent := by
      simp [sent, Order.sent]
    rw [same]
    exact fair.once

theorem Fair.lead (fair : Fair key c) (party : Party) :
    Fair key { c with lines := c.lines ++ [⟨party, 0⟩] } where
  distinct := fair.distinct
  once := by
    have same : carried { c with lines := c.lines ++ [⟨party, 0⟩] } = c.carried := by
      simp [carried, Line.carried]
    rw [same]
    exact fair.once

theorem Fair.hand (fair : Fair key c) {number place : Nat} {order : Order Party Item}
    {line : Line Party Item} (ordered : c.orders[number]? = some order)
    (found : c.lines[place]? = some line) (unsent : order.handed = false)
    (leads : line.party = order.party) :
    Fair key { c with
      orders := c.orders.set number { order with handed := true }
      lines := c.lines.set place { line with content := order.item ::ₘ line.content } } where
  distinct := by
    have same := map_set_same (fun order : Order Party Item => key order.item) ordered
      (y := { order with handed := true }) rfl
    exact same.symm ▸ fair.distinct
  once := by
    have moved := carried_set found (order.item ::ₘ line.content)
    rw [carried_cons, ← add_assoc] at moved
    rw [carried, add_right_cancel moved, sent, sent_set ordered unsent, leads, add_right_comm]
    exact add_le_add_left fair.once _

theorem Fair.perform (fair : Fair key c) {place : Nat} {line : Line Party Item} {item : Item}
    {rest : Multiset Item} (found : c.lines[place]? = some line)
    (content : line.content = item ::ₘ rest) :
    Fair key { c with
      lines := c.lines.set place { line with content := rest }
      done := c.done ++ [(line.party, item)] } where
  distinct := fair.distinct
  once := by
    have moved := carried_set found rest
    rw [Line.carried, content, carried_cons, ← add_assoc] at moved
    rw [carried, ← Multiset.coe_add, Multiset.coe_singleton, ← add_assoc, add_right_comm,
      add_right_cancel moved]
    exact fair.once

theorem Fair.lose (fair : Fair key c) {place : Nat} {line : Line Party Item} {rest : Multiset Item}
    (found : c.lines[place]? = some line) (less : rest ≤ line.content) :
    Fair key { c with lines := c.lines.set place { line with content := rest } } where
  distinct := fair.distinct
  once := by
    refine le_trans (add_le_add_left (le_of_add_le_add_right (a := line.carried) ?_) _) fair.once
    rw [carried, carried_set found rest]
    exact add_le_add_right (Multiset.map_le_map less) _

/-- Every step keeps the invariant. -/
theorem Fair.step (fair : Fair key c) (step : Step key c c') : Fair key c' := by
  cases step with
  | place party item fresh => exact fair.place fresh
  | lead party => exact fair.lead party
  | hand ordered found unsent leads => exact fair.hand ordered found unsent leads
  | perform found content => exact fair.perform found content
  | lose found less => exact fair.lose found less

theorem fair_of_reachable (reachable : (system key).Reachable c) : Fair key c :=
  reachable.invariant (Fair key)
    (by rintro state rfl; exact ⟨List.nodup_nil, le_refl _⟩)
    fun _ _ _ fair step => fair.step step

/-! ## What comes out -/

/-- The keys of what has been put into the lines are among those of the orders. -/
theorem keys_sent_le (key : Item → Key) (orders : List (Order Party Item)) :
    ((orders.map Order.sent).sum.map fun x => key x.2) ≤
      ((orders.map fun order => key order.item : List Key) : Multiset Key) := by
  induction orders with
  | nil => exact le_refl _
  | cons order orders inductionHypothesis =>
      rw [List.map_cons, List.sum_cons, Multiset.map_add, List.map_cons, ← Multiset.cons_coe,
        ← Multiset.singleton_add]
      refine add_le_add ?_ inductionHypothesis
      rw [Order.sent]
      split
      · exact le_refl _
      · exact Multiset.zero_le _

/-- No item comes out twice. -/
theorem Fair.done_nodup (fair : Fair key c) : (c.done.map fun x => key x.2).Nodup := by
  rw [← Multiset.coe_nodup, ← Multiset.map_coe]
  refine Multiset.nodup_of_le (le_trans (Multiset.map_le_map ?_) (keys_sent_le key c.orders))
    (Multiset.coe_nodup.mpr fair.distinct)
  exact le_trans (le_add_of_nonneg_left (Multiset.zero_le _)) fair.once

/-- What has been put into the lines was ordered, and handed over. -/
theorem mem_sent {x : Party × Item} {orders : List (Order Party Item)}
    (member : x ∈ (orders.map Order.sent).sum) :
    ∃ order ∈ orders, order.party = x.1 ∧ order.item = x.2 ∧ order.handed = true := by
  induction orders with
  | nil => exact absurd member (Multiset.notMem_zero x)
  | cons order orders inductionHypothesis =>
      rw [List.map_cons, List.sum_cons, Multiset.mem_add, Order.sent] at member
      rcases member with here | later
      · split at here
        · next handed =>
            rw [Multiset.mem_singleton] at here
            exact ⟨order, List.mem_cons_self, by rw [here], by rw [here], handed⟩
        · exact absurd here (Multiset.notMem_zero x)
      · rcases inductionHypothesis later with ⟨other, isOrder, ordered⟩
        exact ⟨other, List.mem_cons_of_mem _ isOrder, ordered⟩

/-- What has come out was ordered for the party at the end of its line, and handed over. -/
theorem Fair.ordered (fair : Fair key c) {x : Party × Item} (member : x ∈ c.done) :
    ∃ order ∈ c.orders, order.party = x.1 ∧ order.item = x.2 ∧ order.handed = true := by
  apply mem_sent
  apply Multiset.mem_of_le fair.once
  exact Multiset.mem_add.mpr (Or.inr member)

end Courier

end Library
end Sigil
