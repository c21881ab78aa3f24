import Mathlib.Data.List.Forall2

namespace Sigil
namespace Library
namespace Wildcards

/-!
# Patterns with wildcards

A pattern is a word in which one symbol, the wildcard, stands for any symbol.  It covers a
word of the same length that agrees with it at every other position; as a pattern is itself
a word, the same relation compares patterns by generality.  Widening a pattern by a word
gives the least general pattern that covers both.
-/

universe u

variable {α : Type u} (wild : α)

/-- The pattern agrees with the word at every position that is not a wildcard. -/
def Covers (pattern word : List α) : Prop :=
  List.Forall₂ (fun p x => p = wild ∨ p = x) pattern word

/-- Put a wildcard at every position of the pattern that disagrees with the word. -/
def widen [DecidableEq α] : List α → List α → List α
  | p :: pattern, x :: word =>
      (if p ≠ wild ∧ p ≠ x then wild else p) :: widen pattern word
  | pattern, _ => pattern

instance [DecidableEq α] (pattern word : List α) : Decidable (Covers wild pattern word) :=
  inferInstanceAs (Decidable (List.Forall₂ _ pattern word))

variable {wild} {pattern middle word : List α}

namespace Covers

theorem refl (word : List α) : Covers wild word word :=
  List.forall₂_same.mpr fun _ _ => Or.inr rfl

theorem trans (general : Covers wild pattern middle) (special : Covers wild middle word) :
    Covers wild pattern word := by
  induction general generalizing word with
  | nil => exact special
  | cons first rest inductionHypothesis =>
      cases special with
      | cons second others =>
          refine List.Forall₂.cons ?_ (inductionHypothesis others)
          rcases first with isWild | equal
          · exact Or.inl isWild
          · rw [equal]
            exact second

theorem length_eq (covers : Covers wild pattern word) : pattern.length = word.length :=
  List.Forall₂.length_eq covers

theorem getElem? (covers : Covers wild pattern word) {index : Nat} {p x : α}
    (atPattern : pattern[index]? = some p) (atWord : word[index]? = some x) :
    p = wild ∨ p = x := by
  induction covers generalizing index with
  | nil => exact absurd atWord (Option.some_ne_none x).symm
  | cons first rest inductionHypothesis =>
      cases index with
      | zero =>
          cases Option.some.inj atPattern
          cases Option.some.inj atWord
          exact first
      | succ index => exact inductionHypothesis atPattern atWord

end Covers

/-! ## Widening -/

section Widen

variable [DecidableEq α]

theorem widen_covers (sameLength : pattern.length = word.length) :
    Covers wild (widen wild pattern word) pattern ∧
      Covers wild (widen wild pattern word) word := by
  induction pattern generalizing word with
  | nil =>
      cases word with
      | nil => exact ⟨List.Forall₂.nil, List.Forall₂.nil⟩
      | cons x word => exact absurd sameLength.symm (Nat.succ_ne_zero _)
  | cons p pattern inductionHypothesis =>
      cases word with
      | nil => exact absurd sameLength (Nat.succ_ne_zero _)
      | cons x word =>
          have rest := inductionHypothesis (Nat.succ.inj sameLength)
          unfold widen
          by_cases disagree : p ≠ wild ∧ p ≠ x
          · rw [if_pos disagree]
            exact ⟨List.Forall₂.cons (Or.inl rfl) rest.1,
              List.Forall₂.cons (Or.inl rfl) rest.2⟩
          · rw [if_neg disagree]
            have agree : p = wild ∨ p = x := by
              rcases eq_or_ne p wild with isWild | literal
              · exact Or.inl isWild
              · exact Or.inr (not_not.mp fun differs => disagree ⟨literal, differs⟩)
            exact ⟨List.Forall₂.cons (Or.inr rfl) rest.1, List.Forall₂.cons agree rest.2⟩

/-- No pattern that covers both lies below the widened one. -/
theorem widen_least {upper : List α} (coversPattern : Covers wild upper pattern)
    (coversWord : Covers wild upper word) : Covers wild upper (widen wild pattern word) := by
  induction coversPattern generalizing word with
  | nil => exact List.Forall₂.nil
  | @cons u p upper pattern first rest inductionHypothesis =>
      cases coversWord with
      | @cons _ x _ word second others =>
          unfold widen
          refine List.Forall₂.cons ?_ (inductionHypothesis others)
          by_cases disagree : p ≠ wild ∧ p ≠ x
          · rw [if_pos disagree]
            rcases first with isWild | rfl
            · exact Or.inl isWild
            · rcases second with isWild | equal
              · exact Or.inl isWild
              · exact absurd equal disagree.2
          · rw [if_neg disagree]
            exact first

theorem mem_widen {x : α} (member : x ∈ widen wild pattern word) :
    x = wild ∨ x ∈ pattern := by
  induction pattern generalizing word with
  | nil => exact absurd member List.not_mem_nil
  | cons p pattern inductionHypothesis =>
      cases word with
      | nil => exact Or.inr member
      | cons y word =>
          rcases List.mem_cons.mp member with here | later
          · split at here
            · exact Or.inl here
            · exact Or.inr (here ▸ List.mem_cons_self)
          · exact (inductionHypothesis later).imp_right (List.mem_cons_of_mem _)

end Widen

/-! ## Filling -/

section Fill

variable [DecidableEq α] (wild)

/-- The symbols of the word at the wildcards of the pattern. -/
def values (pattern word : List α) : List α :=
  ((pattern.zip word).filter fun p => p.1 = wild).map Prod.snd

/-- Put symbols in the places of the wildcards, from left to right, if there are as many. -/
def fill : List α → List α → Option (List α)
  | [], symbols => if symbols.isEmpty then some [] else none
  | p :: pattern, symbols =>
      if p = wild then symbols.head?.bind fun x => (fill pattern symbols.tail).map (x :: ·)
      else (fill pattern symbols).map (p :: ·)

variable {wild}

/-- A pattern that covers a word gives it back when it is filled with its values. -/
theorem Covers.fill_values (covers : Covers wild pattern word) :
    fill wild pattern (values wild pattern word) = some word := by
  induction covers with
  | nil => rfl
  | @cons p x pattern word first rest inductionHypothesis =>
      rw [values, List.zip_cons_cons, List.filter_cons, fill]
      by_cases isWild : p = wild
      · rw [if_pos isWild, if_pos (decide_eq_true isWild), List.map_cons]
        exact (congrArg (Option.map (x :: ·)) inductionHypothesis).trans rfl
      · rw [if_neg isWild, if_neg (decide_eq_true_iff.not.mpr isWild),
          ← first.resolve_left isWild]
        exact (congrArg (Option.map (p :: ·)) inductionHypothesis).trans rfl

/-- Without symbols a pattern can only be filled if it has no wildcards. -/
theorem fill_nil : fill wild pattern [] = some pattern ↔ wild ∉ pattern := by
  induction pattern with
  | nil => exact iff_of_true rfl List.not_mem_nil
  | cons p pattern inductionHypothesis =>
      rw [fill, List.mem_cons, not_or, ← inductionHypothesis]
      by_cases isWild : p = wild
      · rw [if_pos isWild]
        exact iff_of_false (Option.some_ne_none _).symm fun both => both.1 isWild.symm
      · rw [if_neg isWild, Option.map_eq_some_iff]
        constructor
        · rintro ⟨filled, isFilled, same⟩
          cases same
          exact ⟨Ne.symm isWild, isFilled⟩
        · rintro ⟨-, filled⟩
          exact ⟨pattern, filled, rfl⟩

end Fill

end Wildcards
end Library
end Sigil
