import Mathlib.Logic.Relation
import Sigil.Library.Loops

namespace Sigil
namespace Library

/-!
# Pointers to the representatives of classes

A partition is kept by a pointer of each element to another one of its class.  The pointers
lead to one element that points at itself, the root of the class.  Climbing finds the root,
compressing a path and linking two roots keep the pointers in order, and linking along the
pairs of a relation makes the classes that the relation generates.
-/

universe u

variable {α : Type u} {parent root : α → α}

/-- The pointers lead every element to the root of its class, and go round in no circle. -/
structure Leads (parent root : α → α) : Prop where
  up : ∀ x, root (parent x) = root x
  top : ∀ x, parent x = x → root x = x
  falls : ∃ height : α → Nat, ∀ x, parent x ≠ x → height (parent x) < height x

theorem leads_id : Leads (id : α → α) id where
  up _ := rfl
  top _ _ := rfl
  falls := ⟨fun _ => 0, fun _ different => absurd rfl different⟩

/-- A measure that falls along the pointers falls from every other element to its root. -/
theorem Leads.root_lt (leads : Leads parent root) {height : α → Nat}
    (falls : ∀ x, parent x ≠ x → height (parent x) < height x) {x : α}
    (notRoot : root x ≠ x) :
    height (root x) < height x := by
  induction measured : height x using Nat.strong_induction_on generalizing x with
  | _ n inductionHypothesis =>
      have lower := falls x fun isRoot => notRoot (leads.top x isRoot)
      rw [measured] at lower
      by_cases next : root (parent x) = parent x
      · rw [← leads.up x, next]
        exact lower
      · have below := inductionHypothesis _ lower next rfl
        rw [leads.up x] at below
        exact below.trans lower

/-- One root gets another one as its parent: the two classes become one. -/
theorem Leads.link [DecidableEq α] (leads : Leads parent root) {a b : α} (isRoot : root a = a)
    (isRoot' : root b = b) (different : a ≠ b) :
    Leads (Function.update parent a b) (fun x => if root x = a then b else root x) := by
  rcases leads.falls with ⟨height, falls⟩
  constructor
  · intro x
    by_cases same : x = a
    · subst same
      rw [Function.update_self, isRoot', if_pos isRoot, if_neg different.symm]
    · rw [Function.update_of_ne same, leads.up]
  · intro x
    by_cases same : x = a
    · subst same
      rw [Function.update_self]
      exact fun isSame => absurd isSame.symm different
    · rw [Function.update_of_ne same]
      intro top
      rw [leads.top x top, if_neg same]
  · -- the class of the first root is lifted above the second one
    refine ⟨fun x => if root x = a then height x + height b + 1 else height x, fun x => ?_⟩
    by_cases same : x = a
    · subst same
      dsimp only
      rw [Function.update_self, isRoot', if_neg different.symm, if_pos isRoot]
      exact fun _ => by omega
    · dsimp only
      rw [Function.update_of_ne same, leads.up]
      intro inside
      have lower := falls x inside
      split
      · omega
      · exact lower

section Walks

variable [Fintype α] [DecidableEq α]

/-- Climbing ends at the root. -/
theorem Leads.climb (leads : Leads parent root) (x : α) :
    loop (fun r => parent r = r) parent (Fintype.card α) x = root x := by
  rcases leads.falls with ⟨height, falls⟩
  rcases exists_bounded_measure falls with ⟨steps, bound, falls⟩
  have ended := loop_rule (fun r => root r = root x) steps
    (fun r same running => ⟨(leads.up r).trans same, falls r running⟩) (bound x) rfl
  exact (leads.top _ ended.2).symm.trans ended.1

theorem Leads.parent_root (leads : Leads parent root) (x : α) : parent (root x) = root x := by
  rcases leads.falls with ⟨height, falls⟩
  rcases exists_bounded_measure falls with ⟨steps, bound, falls⟩
  rw [← leads.climb x]
  exact (loop_rule (fun _ => True) steps (fun r _ running => ⟨trivial, falls r running⟩)
    (bound x) trivial).2

theorem Leads.root_root (leads : Leads parent root) (x : α) : root (root x) = root x :=
  leads.top _ (leads.parent_root x)

/-- One round of the compression of a path: the element gets the root as its parent, and the
next one is the parent that it had. -/
def compressing (r : α) (state : (α → α) × α) : (α → α) × α :=
  (Function.update state.1 state.2 r, state.1 state.2)

/-- The compression of a path ends, and leaves every element in its class. -/
theorem Leads.compress (leads : Leads parent root) (x : α) :
    let last := loop (fun state => state.1 state.2 = root x) (compressing (root x))
      (Fintype.card α) (parent, x)
    Leads last.1 root ∧ last.1 last.2 = root x := by
  rcases leads.falls with ⟨height, falls⟩
  rcases exists_bounded_measure falls with ⟨steps, bound, falls⟩
  let good := fun state : (α → α) × α => (∀ y, root (state.1 y) = root y) ∧
    (∀ y, state.1 y = y → root y = y) ∧
    (∀ y, state.1 y ≠ y → steps (state.1 y) < steps y) ∧
      root state.2 = root x
  have rule := @loop_rule _ (fun state => state.1 state.2 = root x) _ (compressing (root x)) good
    (fun state => steps state.2) ?_ (Fintype.card α) (parent, x) (bound x)
    ⟨leads.up, leads.top, falls, rfl⟩
  · exact ⟨⟨rule.1.1, rule.1.2.1, steps, rule.1.2.2.1⟩, rule.2⟩
  · rintro ⟨pointers, y⟩ ⟨up, top, down, here⟩ running
    have inside : pointers y ≠ y := by
      intro isRoot
      exact running (isRoot.trans ((top y isRoot).symm.trans here))
    refine ⟨⟨fun z => ?_, fun z => ?_, fun z => ?_, (up y).trans here⟩, down y inside⟩
    · by_cases same : z = y
      · subst same
        simp only [compressing, Function.update_self]
        exact (leads.root_root x).trans here.symm
      · simp only [compressing, Function.update_of_ne same]
        exact up z
    · by_cases same : z = y
      · subst same
        simp only [compressing, Function.update_self]
        exact fun isRoot => here.trans isRoot
      · simp only [compressing, Function.update_of_ne same]
        exact top z
    · by_cases same : z = y
      · subst same
        simp only [compressing, Function.update_self]
        intro different
        rw [← here] at different ⊢
        exact leads.root_lt falls different
      · simp only [compressing, Function.update_of_ne same]
        exact down z

end Walks

/-! ## Classes -/

/-- The roots are equal exactly in the classes that the relation generates. -/
def Classes (root : α → α) (related : α → α → Prop) : Prop :=
  ∀ x y, root x = root y ↔ Relation.EqvGen related x y

theorem classes_id : Classes (id : α → α) (fun _ _ => False) := by
  intro x y
  constructor
  · rintro rfl
    exact Relation.EqvGen.refl x
  · intro generated
    induction generated with
    | rel x y impossible => exact impossible.elim
    | refl x => rfl
    | symm x y _ inductionHypothesis => exact inductionHypothesis.symm
    | trans x y z _ _ left right => exact left.trans right

theorem Classes.congr {related related' : α → α → Prop} (classes : Classes root related)
    (same : ∀ x y, related x y ↔ related' x y) : Classes root related' := by
  have equal : related = related' := funext fun x => funext fun y => propext (same x y)
  rwa [← equal]

/-- Linking two roots makes the classes of the relation with one more pair. -/
theorem Classes.link [DecidableEq α] {related : α → α → Prop}
    (classes : Classes root related) (a b : α) :
    Classes (fun x => if root x = root a then root b else root x)
      (fun x y => related x y ∨ x = a ∧ y = b) := by
  have lift : ∀ {x y}, Relation.EqvGen related x y →
      Relation.EqvGen (fun x y => related x y ∨ x = a ∧ y = b) x y :=
    fun generated => generated.mono fun _ _ => Or.inl
  have pair : Relation.EqvGen (fun x y => related x y ∨ x = a ∧ y = b) a b :=
    Relation.EqvGen.rel a b (Or.inr ⟨rfl, rfl⟩)
  intro x y
  constructor
  · intro same
    dsimp only at same
    split at same
    · next inFirst =>
        have first := lift ((classes x a).mp inFirst)
        split at same
        · next alsoFirst => exact first.trans _ _ _ (lift ((classes y a).mp alsoFirst)).symm
        · exact (first.trans _ _ _ pair).trans _ _ _ (lift ((classes b y).mp same))
    · split at same
      · next inFirst =>
          have second := lift ((classes x b).mp same)
          exact (second.trans _ _ _ pair.symm).trans _ _ _ (lift ((classes y a).mp inFirst)).symm
      · exact lift ((classes x y).mp same)
  · intro generated
    induction generated with
    | rel x y both =>
        rcases both with old | ⟨rfl, rfl⟩
        · dsimp only
          rw [(classes x y).mpr (Relation.EqvGen.rel x y old)]
        · dsimp only
          rw [if_pos rfl]
          split
          · rfl
          · rfl
    | refl x => rfl
    | symm x y _ inductionHypothesis => exact inductionHypothesis.symm
    | trans x y z _ _ left right => exact left.trans right

end Library
end Sigil
