import Mathlib.Data.List.Forall2

namespace Sigil
namespace Library
namespace Pointwise

/-!
# Lists related element by element

What stands at a place of a list decides what stands there in a related one.  A traversal that
succeeds on every element succeeds on the list, and a test on each element decides what the
related elements say together.
-/

universe u

variable {α β γ ε : Type u}

/-- An element of an extended list is an old one or the new last one. -/
theorem getElem?_concat_cases {list : List α} {last x : α} {index : Nat}
    (found : (list ++ [last])[index]? = some x) :
    (index < list.length ∧ list[index]? = some x) ∨ (index = list.length ∧ x = last) := by
  rcases Nat.lt_or_ge index list.length with inside | outside
  · rw [List.getElem?_append_left inside] at found
    exact Or.inl ⟨inside, found⟩
  · have bound := (List.getElem?_eq_some_iff.mp found).1
    have atEnd : index = list.length := by
      simp only [List.length_append, List.length_singleton] at bound
      omega
    subst atEnd
    rw [List.getElem?_concat_length, Option.some.injEq] at found
    exact Or.inr ⟨rfl, found.symm⟩

theorem getElem?_append_of_some {list : List α} {x : α} {index : Nat}
    (found : list[index]? = some x) (last : α) : (list ++ [last])[index]? = some x := by
  rw [List.getElem?_append_left (List.getElem?_eq_some_iff.mp found).1, found]

/-- The steps of a computation that succeeds. -/
theorem of_bind_ok {x : Except ε α} {f : α → Except ε β} {result : β}
    (succeeds : x >>= f = .ok result) : ∃ value, x = .ok value ∧ f value = .ok result := by
  cases x with
  | error e => cases succeeds
  | ok value => exact ⟨value, rfl, succeeds⟩

/-- A traversal succeeds when it succeeds on every element. -/
theorem exists_mapM {f : α → Except ε β} {Good : β → γ → Prop}
    {list : List α} {others : List γ}
    (each : List.Forall₂ (fun x z => ∃ y, f x = .ok y ∧ Good y z) list others) :
    ∃ results, list.mapM f = .ok results ∧ List.Forall₂ Good results others := by
  induction each with
  | nil => exact ⟨[], rfl, .nil⟩
  | @cons x z list others here _ inductionHypothesis =>
      rcases here with ⟨y, equal, good⟩
      rcases inductionHypothesis with ⟨results, rest, areGood⟩
      refine ⟨y :: results, ?_, .cons good areGood⟩
      rw [List.mapM_cons, equal, rest]
      rfl

theorem mapM_ok {f : α → Except ε β} {list : List α} {results : List β}
    (each : List.Forall₂ (fun x y => f x = .ok y) list results) : list.mapM f = .ok results := by
  induction each with
  | nil => rfl
  | cons here _ inductionHypothesis =>
      rw [List.mapM_cons, here, inductionHypothesis]
      rfl

/-- A traversal in `Option` relates the elements to its results. -/
theorem forall₂_of_mapM {f : α → Option β} {list : List α} {results : List β}
    (ran : list.mapM f = some results) : List.Forall₂ (fun x y => f x = some y) list results := by
  induction list generalizing results with
  | nil =>
      cases Option.some.inj ran
      exact .nil
  | cons x list inductionHypothesis =>
      rw [List.mapM_cons] at ran
      rcases Option.bind_eq_some_iff.mp ran with ⟨y, here, ran⟩
      rcases Option.bind_eq_some_iff.mp ran with ⟨rest, later, ran⟩
      cases Option.some.inj ran
      exact .cons here (inductionHypothesis later)

/-- Two traversals that do the same on every element are the same. -/
theorem mapM_congr {m : Type u → Type u} [Monad m] [LawfulMonad m]
    {f g : α → m β} {list : List α} (each : ∀ a, a ∈ list → f a = g a) :
    list.mapM f = list.mapM g := by
  induction list with
  | nil => rw [List.mapM_nil, List.mapM_nil]
  | cons a rest inductionHypothesis =>
      have later : rest.mapM f = rest.mapM g :=
        inductionHypothesis fun a member => each a (List.mem_cons_of_mem _ member)
      rw [List.mapM_cons, List.mapM_cons, each a List.mem_cons_self, later]

theorem mapM_ne_none {f : α → Option β} {list : List α}
    (each : ∀ a, a ∈ list → ∃ b, f a = some b) : list.mapM f ≠ none := by
  induction list with
  | nil => exact Option.some_ne_none []
  | cons a rest inductionHypothesis =>
      rcases each a List.mem_cons_self with ⟨b, found⟩
      rcases Option.ne_none_iff_exists'.mp
        (inductionHypothesis fun a member => each a (List.mem_cons_of_mem _ member))
          with ⟨bs, mapped⟩
      rw [List.mapM_cons, found, mapped]
      exact Option.some_ne_none (b :: bs)

/-- Related elements are related in another way when members of the two lists are. -/
theorem imp_of_mem {Rel Other : α → γ → Prop} {list : List α} {others : List γ}
    (implies : ∀ x z, x ∈ list → z ∈ others → Rel x z → Other x z)
    (each : List.Forall₂ Rel list others) : List.Forall₂ Other list others := by
  induction each with
  | nil => exact .nil
  | cons here _ inductionHypothesis =>
      refine .cons (implies _ _ List.mem_cons_self List.mem_cons_self here) ?_
      exact inductionHypothesis fun x z inList inOthers =>
        implies x z (List.mem_cons_of_mem _ inList) (List.mem_cons_of_mem _ inOthers)

theorem any_iff {test : α → Bool} {Good : γ → Prop} {list : List α} {others : List γ}
    (each : List.Forall₂ (fun x z => test x = true ↔ Good z) list others) :
    list.any test = true ↔ ∃ z, z ∈ others ∧ Good z := by
  induction each with
  | nil => exact ⟨fun no => absurd no Bool.false_ne_true,
      fun ⟨_, member, _⟩ => absurd member List.not_mem_nil⟩
  | cons here _ inductionHypothesis =>
      rw [List.any_cons, Bool.or_eq_true, here, inductionHypothesis, List.exists_mem_cons_iff]

theorem exists_right {Rel : α → γ → Prop} {list : List α} {others : List γ}
    (each : List.Forall₂ Rel list others) {x : α} (member : x ∈ list) :
    ∃ z, z ∈ others ∧ Rel x z := by
  induction each with
  | nil => exact absurd member List.not_mem_nil
  | cons here _ inductionHypothesis =>
      rcases List.mem_cons.mp member with rfl | later
      · exact ⟨_, List.mem_cons_self, here⟩
      · rcases inductionHypothesis later with ⟨z, isMember, related⟩
        exact ⟨z, List.mem_cons_of_mem _ isMember, related⟩

theorem exists_left {Rel : α → γ → Prop} {list : List α} {others : List γ}
    (each : List.Forall₂ Rel list others) {z : γ} (member : z ∈ others) :
    ∃ x, x ∈ list ∧ Rel x z := by
  have flipped : List.Forall₂ (flip Rel) others list := each.flip
  exact exists_right flipped member

/-- What is related through a list in between. -/
theorem forall₂_trans {Rel : α → β → Prop} {Other : β → γ → Prop} {list : List α}
    {between : List β} {others : List γ} (first : List.Forall₂ Rel list between)
    (second : List.Forall₂ Other between others) :
    List.Forall₂ (fun x z => ∃ y, Rel x y ∧ Other y z) list others := by
  induction first generalizing others with
  | nil =>
      cases second
      exact List.Forall₂.nil
  | cons here _ inductionHypothesis =>
      cases second with
      | cons there later =>
          exact List.Forall₂.cons ⟨_, here, there⟩ (inductionHypothesis later)

theorem exists_of_mapM {f : α → Option β} {source : List α} {target : List β}
    (mapped : source.mapM f = some target) {x : β} (member : x ∈ target) :
    ∃ y, y ∈ source ∧ f y = some x :=
  exists_left (forall₂_of_mapM mapped) member

/-- Texts put together from parts that are no longer than the parts of an equal text have equal
parts. -/
theorem eq_of_flatMap_eq {f g : α → List β} {list : List α}
    (shorter : ∀ x, x ∈ list → (f x).length ≤ (g x).length)
    (same : list.flatMap f = list.flatMap g) :
    ∀ x, x ∈ list → f x = g x := by
  have total : ∀ others : List α, (∀ x, x ∈ others → (f x).length ≤ (g x).length) →
      (others.flatMap f).length ≤ (others.flatMap g).length := by
    intro others shorter
    induction others with
    | nil => exact Nat.le_refl _
    | cons x others inductionHypothesis =>
        rcases List.forall_mem_cons.mp shorter with ⟨here, later⟩
        rw [List.flatMap_cons, List.flatMap_cons, List.length_append, List.length_append]
        exact Nat.add_le_add here (inductionHypothesis later)
  induction list with
  | nil => exact fun x impossible => absurd impossible List.not_mem_nil
  | cons x list inductionHypothesis =>
      rcases List.forall_mem_cons.mp shorter with ⟨here, later⟩
      have rest := total list later
      have lengths := congrArg List.length same
      rw [List.flatMap_cons, List.flatMap_cons] at same
      rw [List.flatMap_cons, List.flatMap_cons, List.length_append, List.length_append] at lengths
      rcases List.append_inj same (by omega) with ⟨first, others⟩
      exact List.forall_mem_cons.mpr ⟨first, inductionHypothesis later others⟩

end Pointwise
end Library
end Sigil
