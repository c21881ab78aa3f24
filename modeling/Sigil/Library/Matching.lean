import Mathlib.Data.List.Perm.Basic
import Mathlib.Data.List.Nodup
import Mathlib.Data.List.Infix
import Mathlib.Data.Prod.Basic

namespace Sigil
namespace Library
namespace Matching

/-!
# Matching two lists

Every element of one list is paired with the first element of the other that is the same up
to an equivalence.  When no list has two such elements, the pairs of the two directions are
the same.
-/

universe u v

variable {α : Type u}

/-- The partner of an element. -/
def partner (test : α → α → Bool) (right : List α) (x : α) : Option α :=
  right.find? (test x)

/-- The elements of the left list with their partners. -/
def pairs (test : α → α → Bool) (left right : List α) : List (α × α) :=
  left.filterMap fun x => (partner test right x).map fun y => (x, y)

/-- The elements of the left list without a partner. -/
def alone (test : α → α → Bool) (left right : List α) : List α :=
  left.filter fun x => (partner test right x).isNone

/-- No two elements are the same. -/
def Apart (same : α → α → Prop) (list : List α) : Prop :=
  list.Pairwise fun x y => ¬ same x y

/-- The test decides an equivalence between the elements of two lists that have no element
twice. -/
structure Matches (same : α → α → Prop) (test : α → α → Bool)
    (left right : List α) : Prop where
  equivalence : Equivalence same
  decides : ∀ x, x ∈ left → ∀ y, y ∈ right → (test x y = true ↔ same x y)
  left_apart : Apart same left
  right_apart : Apart same right

variable {same : α → α → Prop} {test test' : α → α → Bool} {left right : List α}

/-- Elements of a list without repetitions that are the same are equal. -/
theorem Apart.eq (equivalence : Equivalence same) (apart : Apart same left) {x y : α}
    (hx : x ∈ left) (hy : y ∈ left) (xy : same x y) : x = y := by
  have all := List.Pairwise.forall_of_forall_of_flip (R := fun a b => same a b → a = b)
    (fun _ _ _ => rfl) (apart.imp fun differs ab => absurd ab differs)
    (apart.imp fun differs ba => absurd (equivalence.symm ba) differs)
  exact all hx hy xy

theorem Apart.nodup (equivalence : Equivalence same) (apart : Apart same left) : left.Nodup := by
  apply apart.imp
  rintro x _ differs rfl
  exact differs (equivalence.refl x)

theorem Matches.partner_eq_some_iff (matching : Matches same test left right) {x y : α}
    (hx : x ∈ left) : partner test right x = some y ↔ y ∈ right ∧ same x y := by
  constructor
  · intro found
    have member := List.mem_of_find?_eq_some found
    exact ⟨member, (matching.decides x hx y member).mp (List.find?_some found)⟩
  · rintro ⟨hy, xy⟩
    cases found : partner test right x with
    | none =>
        have refused := List.find?_eq_none.mp found y hy
        exact absurd ((matching.decides x hx y hy).mpr xy) refused
    | some z =>
        have hz := List.mem_of_find?_eq_some found
        have xz := (matching.decides x hx z hz).mp (List.find?_some found)
        have zy := matching.equivalence.trans (matching.equivalence.symm xz) xy
        rw [matching.right_apart.eq matching.equivalence hz hy zy]

theorem Matches.mem_pairs (matching : Matches same test left right) {x y : α} :
    (x, y) ∈ pairs test left right ↔ x ∈ left ∧ y ∈ right ∧ same x y := by
  unfold pairs
  rw [List.mem_filterMap]
  constructor
  · rintro ⟨x', hx', found⟩
    rcases Option.map_eq_some_iff.mp found with ⟨y', isPartner, equal⟩
    cases equal
    exact ⟨hx', (matching.partner_eq_some_iff hx').mp isPartner⟩
  · rintro ⟨hx, hy, xy⟩
    exact ⟨x, hx, Option.map_eq_some_iff.mpr
      ⟨y, (matching.partner_eq_some_iff hx).mpr ⟨hy, xy⟩, rfl⟩⟩

theorem Matches.pairs_nodup (matching : Matches same test left right) :
    (pairs test left right).Nodup := by
  apply (matching.left_apart.nodup matching.equivalence).filterMap
  intro x x' pair found found'
  rcases Option.map_eq_some_iff.mp found with ⟨y, -, equal⟩
  rcases Option.map_eq_some_iff.mp found' with ⟨y', -, equal'⟩
  exact congrArg Prod.fst (equal.trans equal'.symm)

/-- In the other direction the pairs are the same. -/
theorem Matches.pairs_swap (matching : Matches same test left right)
    (back : Matches same test' right left) :
    (pairs test' right left).Perm ((pairs test left right).map Prod.swap) := by
  apply (List.perm_ext_iff_of_nodup back.pairs_nodup _).mpr
  · rintro ⟨y, x⟩
    rw [back.mem_pairs, List.mem_map]
    constructor
    · rintro ⟨hy, hx, yx⟩
      exact ⟨(x, y), matching.mem_pairs.mpr ⟨hx, hy, matching.equivalence.symm yx⟩, rfl⟩
    · rintro ⟨pair, member, equal⟩
      cases equal
      rcases matching.mem_pairs.mp member with ⟨hx, hy, xy⟩
      exact ⟨hy, hx, matching.equivalence.symm xy⟩
  · exact matching.pairs_nodup.map Prod.swap_injective

/-- A list is made of the elements with a partner and those without one. -/
theorem length_pairs_add_alone (test : α → α → Bool) (left right : List α) :
    (pairs test left right).length + (alone test left right).length = left.length := by
  induction left with
  | nil => rfl
  | cons x left inductionHypothesis =>
      unfold pairs alone at *
      cases found : partner test right x with
      | none =>
          rw [List.filterMap_cons_none (by rw [found]; rfl),
            List.filter_cons_of_pos (by rw [found]; rfl), List.length_cons, List.length_cons]
          omega
      | some y =>
          rw [List.filterMap_cons_some (by rw [found]; rfl),
            List.filter_cons_of_neg (by rw [found]; exact Bool.false_ne_true), List.length_cons,
            List.length_cons]
          omega

theorem alone_eq_nil_iff_forall : alone test left right = [] ↔
    ∀ x, x ∈ left → ∃ y, partner test right x = some y := by
  unfold alone
  rw [List.filter_eq_nil_iff]
  apply forall_congr'
  intro x
  rw [Bool.not_eq_true, Option.isNone_eq_false_iff, Option.isSome_iff_exists]

/-- What is collected over a list is collected over the pairs and over the rest. -/
theorem flatMap_perm {β : Type v} (test : α → α → Bool) (left right : List α)
    (f : α → α → List β) (g : α → List β) :
    (left.flatMap fun x => (partner test right x).elim (g x) (f x)).Perm
      ((pairs test left right).flatMap (fun p => f p.1 p.2) ++
        (alone test left right).flatMap g) := by
  induction left with
  | nil => exact List.Perm.refl _
  | cons x left inductionHypothesis =>
      unfold pairs alone at *
      rw [List.flatMap_cons]
      cases found : partner test right x with
      | none =>
          rw [List.filterMap_cons_none (by rw [found]; rfl),
            List.filter_cons_of_pos (by rw [found]; rfl), List.flatMap_cons]
          apply (inductionHypothesis.append_left (g x)).trans
          rw [← List.append_assoc, ← List.append_assoc]
          exact List.perm_append_comm.append_right _
      | some y =>
          rw [List.filterMap_cons_some (by rw [found]; rfl),
            List.filter_cons_of_neg (by rw [found]; exact Bool.false_ne_true), List.flatMap_cons,
            List.append_assoc]
          exact inductionHypothesis.append_left (f x y)

/-- When every element has a partner, the lists are matched up to the order of the right one
exactly if they have the same length. -/
theorem Matches.alone_eq_nil_iff (matching : Matches same test left right)
    (back : Matches same test' right left) (all : alone test left right = []) :
    alone test' right left = [] ↔ left.length = right.length := by
  have forth := length_pairs_add_alone test left right
  have backward := length_pairs_add_alone test' right left
  have sameNumber := (matching.pairs_swap back).length_eq
  rw [all, List.length_nil] at forth
  rw [List.length_map] at sameNumber
  rw [← List.length_eq_zero_iff]
  omega

end Matching
end Library
end Sigil
