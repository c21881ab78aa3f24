import Mathlib.Data.List.Infix

namespace Sigil
namespace Library
namespace Cut

/-!
# Cutting a text at a pattern

The first occurrence of a pattern cuts a text into the part before it and the part after it.
Where the first element of the pattern does not stand in a part, the pattern does not begin
there, so a text that has been put together from such parts is cut into them again.
-/

universe u

variable {α : Type u} [DecidableEq α]

/-- The parts before and after the first occurrence of a pattern. -/
def cut (pattern : List α) : List α → Option (List α × List α)
  | [] => if pattern = [] then some ([], []) else none
  | x :: rest =>
      if pattern <+: x :: rest then some ([], (x :: rest).drop pattern.length)
      else (cut pattern rest).map fun parts => (x :: parts.1, parts.2)

/-- At most so many parts between the occurrences of a pattern; the last one is the rest. -/
def cutAtMost (pattern : List α) : Nat → List α → List (List α)
  | 0, _ => []
  | 1, text => [text]
  | count + 2, text =>
      match cut pattern text with
      | none => [text]
      | some (before, after) => before :: cutAtMost pattern (count + 1) after

variable {first : α} {others : List α}

/-- The pattern is found where it has been put. -/
theorem cut_append {before : List α} (absent : first ∉ before) (after : List α) :
    cut (first :: others) (before ++ (first :: others ++ after)) = some (before, after) := by
  induction before with
  | nil =>
      have here : first :: others <+: first :: (others ++ after) :=
        List.prefix_append (first :: others) after
      have rest : (first :: (others ++ after)).drop (first :: others).length = after :=
        List.drop_left
      rw [List.nil_append, List.cons_append, cut, if_pos here, rest]
  | cons x before inductionHypothesis =>
      rw [List.mem_cons, not_or] at absent
      have elsewhere : ¬ first :: others <+: x :: (before ++ (first :: others ++ after)) :=
        fun found => absent.1 (List.cons_prefix_cons.mp found).1
      rw [List.cons_append, cut, if_neg elsewhere, inductionHypothesis absent.2]
      rfl

/-- The parts stand before and behind the pattern. -/
theorem eq_of_cut {pattern text before after : List α}
    (found : cut pattern text = some (before, after)) :
    text = before ++ (pattern ++ after) := by
  induction text generalizing before with
  | nil =>
      rw [cut, Option.ite_none_right_eq_some] at found
      rcases found with ⟨rfl, parts⟩
      cases parts
      rfl
  | cons x text inductionHypothesis =>
      rw [cut] at found
      split at found
      · next here =>
          cases found
          rcases here with ⟨rest, shape⟩
          rw [← shape, List.drop_left, List.nil_append]
      · rcases Option.map_eq_some_iff.mp found with ⟨parts, later, equal⟩
        cases equal
        rw [List.cons_append, ← inductionHypothesis later]

theorem cut_eq_none {text : List α} (absent : first ∉ text) :
    cut (first :: others) text = none := by
  induction text with
  | nil => exact if_neg (List.cons_ne_nil first others)
  | cons x text inductionHypothesis =>
      rw [List.mem_cons, not_or] at absent
      have elsewhere : ¬ first :: others <+: x :: text :=
        fun found => absent.1 (List.cons_prefix_cons.mp found).1
      rw [cut, if_neg elsewhere, inductionHypothesis absent.2]
      rfl

theorem cutAtMost_append {before : List α} (absent : first ∉ before)
    (count : Nat) (after : List α) :
    cutAtMost (first :: others) (count + 2) (before ++ (first :: others ++ after)) =
      before :: cutAtMost (first :: others) (count + 1) after := by
  rw [cutAtMost, cut_append absent]

/-! ## Texts of pieces -/

section Pieces

variable {β : Type u} {f : β → α} {pattern : List α}

/-- A piece that can stand for an element: it is the element's image wherever the pattern could
tell, and is never empty. -/
structure Replaces (f : β → α) (pattern : List α) (x : β) (piece : List α) : Prop where
  some_ : piece ≠ []
  image : f x ∈ pattern → piece = [f x]
  only : ∀ y, y ∈ piece → y ∈ pattern → f x = y

/-- A part of the pattern begins a text of pieces exactly if it begins the text of images. -/
theorem prefix_pieces {text : List β} {pieces : List (List α)}
    (replaces : List.Forall₂ (Replaces f pattern) text pieces) {part : List α}
    (inside : ∀ y, y ∈ part → y ∈ pattern) : part <+: pieces.flatten ↔
      part <+: text.map f := by
  induction part generalizing text pieces with
  | nil => exact iff_of_true List.nil_prefix List.nil_prefix
  | cons y part inductionHypothesis =>
      rcases List.forall_mem_cons.mp inside with ⟨first, later⟩
      cases replaces with
      | nil => exact Iff.rfl
      | @cons x piece text pieces here rest =>
          rw [List.flatten_cons, List.map_cons]
          by_cases known : f x ∈ pattern
          · rw [here.image known, List.singleton_append, List.cons_prefix_cons,
              List.cons_prefix_cons, inductionHypothesis rest later]
          · rcases List.exists_cons_of_ne_nil here.some_ with ⟨z, more, shape⟩
            rw [shape, List.cons_append, List.cons_prefix_cons, List.cons_prefix_cons]
            refine iff_of_false (fun both => known ?_) fun both => known (both.1 ▸ first)
            have inPiece : y ∈ piece := by
              rw [shape, both.1]
              exact List.mem_cons_self
            rw [here.only y inPiece first]
            exact first

/-- A pattern does not begin inside a piece without its elements. -/
theorem cut_absent {piece : List α} (some_ : pattern ≠ [])
    (absent : ∀ y, y ∈ piece → y ∉ pattern) (rest : List α) :
    cut pattern (piece ++ rest) = (cut pattern rest).map fun parts =>
      (piece ++ parts.1, parts.2) := by
  induction piece with
  | nil => exact Option.map_id'.symm
  | cons y piece inductionHypothesis =>
      rcases List.forall_mem_cons.mp absent with ⟨here, later⟩
      have elsewhere : ¬ pattern <+: y :: (piece ++ rest) := by
        intro begins
        rcases List.exists_cons_of_ne_nil some_ with ⟨z, others, shape⟩
        rw [shape] at begins here
        exact here ((List.cons_prefix_cons.mp begins).1 ▸ List.mem_cons_self)
      rw [List.cons_append, cut, if_neg elsewhere, inductionHypothesis later, Option.map_map]
      rfl

/-- The pattern is found in a text of pieces where it is found in the text of images. -/
theorem cut_pieces (some_ : pattern ≠ []) {text : List β} {pieces : List (List α)}
    (replaces : List.Forall₂ (Replaces f pattern) text pieces) :
    (cut pattern pieces.flatten).map Prod.fst =
      (cut pattern (text.map f)).map fun parts => (pieces.take parts.1.length).flatten := by
  induction replaces with
  | nil =>
      rw [List.flatten_nil, List.map_nil, cut, if_neg some_]
      rfl
  | @cons x piece text pieces here rest inductionHypothesis =>
      have begins := prefix_pieces (List.Forall₂.cons here rest) fun y member => member
      rw [List.map_cons, cut]
      by_cases found : pattern <+: f x :: text.map f
      · rw [if_pos found]
        rcases List.exists_cons_of_ne_nil here.some_ with ⟨z, more, shape⟩
        rw [List.map_cons] at begins
        have alsoFound := begins.mpr found
        rw [List.flatten_cons, shape, List.cons_append] at alsoFound ⊢
        rw [cut, if_pos alsoFound]
        rfl
      · rw [if_neg found, Option.map_map]
        have skipped : (cut pattern (piece ++ pieces.flatten)).map Prod.fst =
            ((cut pattern pieces.flatten).map Prod.fst).map (piece ++ ·) := by
          by_cases known : f x ∈ pattern
          · have elsewhere : ¬ pattern <+: f x :: pieces.flatten := by
              intro alsoFound
              apply found
              rw [← List.map_cons, ← begins, List.flatten_cons, here.image known]
              exact alsoFound
            rw [here.image known, List.singleton_append, cut, if_neg elsewhere, Option.map_map,
              Option.map_map]
            rfl
          · have absent : ∀ y, y ∈ piece → y ∉ pattern := by
              intro y member inPattern
              rw [← here.only y member inPattern] at inPattern
              exact known inPattern
            rw [cut_absent some_ absent, Option.map_map, Option.map_map]
            rfl
        rw [List.flatten_cons, skipped, inductionHypothesis, Option.map_map]
        rfl

end Pieces

end Cut
end Library
end Sigil
