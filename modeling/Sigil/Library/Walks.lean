import Mathlib.Algebra.Order.Monoid.Unbundled.Basic
import Mathlib.Data.List.Chain
import Mathlib.Data.List.Nodup

namespace Sigil
namespace Library

/-!
# Weighted walks

A walk grows at its end along edges to nodes that it has not visited.  Its score grows by the
weight of each edge and by the bonus of each node.
-/

universe u v

variable {ν : Type u} {S : Type v} [AddMonoid S]

/-- A walk, its last node and its score. -/
inductive Walk (edge : ν → ν → S → Prop) (bonus : ν → S) : List ν → ν → S → Prop
  | start (x : ν) : Walk edge bonus [x] x (bonus x)
  | step {path : List ν} {last next : ν} {score weight : S}
      (walk : Walk edge bonus path last score)
      (isEdge : edge last next weight) (fresh : next ∉ path) :
      Walk edge bonus (path ++ [next]) next (score + weight + bonus next)

/-- The bonuses of the nodes of a path and the weights of its consecutive pairs. -/
def pathScore (weight : ν → ν → S) (bonus : ν → S) : List ν → S
  | [] => 0
  | [x] => bonus x
  | x :: y :: rest => bonus x + weight x y + pathScore weight bonus (y :: rest)

theorem pathScore_concat (weight : ν → ν → S) (bonus : ν → S)
    (path : List ν) (last next : ν) :
    pathScore weight bonus (path ++ [last] ++ [next]) =
      pathScore weight bonus (path ++ [last]) + weight last next + bonus next := by
  induction path with
  | nil => rfl
  | cons x path inductionHypothesis =>
      cases path with
      | nil =>
          simp only [List.nil_append, List.cons_append, pathScore, add_assoc]
      | cons y path =>
          simp only [List.cons_append, pathScore] at inductionHypothesis ⊢
          rw [inductionHypothesis]
          simp only [add_assoc]

namespace Walk

variable {edge : ν → ν → S → Prop} {bonus : ν → S} {path : List ν}
    {last : ν} {score : S}

theorem ends (walk : Walk edge bonus path last score) : ∃ before, path = before ++ [last] := by
  cases walk with
  | start => exact ⟨[], rfl⟩
  | @step path _ _ _ _ walk isEdge fresh => exact ⟨path, rfl⟩

theorem nodup (walk : Walk edge bonus path last score) : path.Nodup := by
  induction walk with
  | start x => exact List.nodup_singleton x
  | step walk isEdge fresh inductionHypothesis =>
      exact List.nodup_append.mpr ⟨inductionHypothesis, List.nodup_singleton _,
          fun a inPath b isNext same =>
        fresh (List.mem_singleton.mp isNext ▸ same ▸ inPath)⟩

/-- Consecutive nodes are joined by an edge. -/
theorem isChain (walk : Walk edge bonus path last score) :
    path.IsChain fun a b => ∃ weight, edge a b weight := by
  induction walk with
  | start x => exact List.isChain_singleton x
  | step walk isEdge fresh inductionHypothesis =>
      rcases walk.ends with ⟨before, rfl⟩
      apply List.isChain_append.mpr ⟨inductionHypothesis, List.isChain_singleton _, ?_⟩
      intro a isLast b isNext
      rw [List.getLast?_concat, Option.mem_some_iff] at isLast
      rw [List.head?_cons, Option.mem_some_iff] at isNext
      subst isLast isNext
      exact ⟨_, isEdge⟩

/-- A walk over edges with one weight each has the score of its path. -/
theorem score_eq {weight : ν → ν → S} (weighs : ∀ a b w, edge a b w → w = weight a b)
    (walk : Walk edge bonus path last score) : score = pathScore weight bonus path := by
  induction walk with
  | start x => rfl
  | step walk isEdge fresh inductionHypothesis =>
      rcases walk.ends with ⟨before, rfl⟩
      rw [pathScore_concat, ← inductionHypothesis, weighs _ _ _ isEdge]

theorem score_nonneg [Preorder S] [AddLeftMono S] (weights : ∀ a b w, edge a b w → 0 ≤ w)
    (bonuses : ∀ x, 0 ≤ bonus x) (walk : Walk edge bonus path last score) : 0 ≤ score := by
  induction walk with
  | start x => exact bonuses x
  | step walk isEdge fresh inductionHypothesis =>
      exact add_nonneg (add_nonneg inductionHypothesis (weights _ _ _ isEdge)) (bonuses _)

end Walk

end Library
end Sigil
