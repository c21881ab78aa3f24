import Sigil.Core.Extrema
import Sigil.Correlate.Causal
import Sigil.Library.Loops
import Sigil.Library.Walks

namespace Sigil
namespace Correlate

/-!
# Selecting a path in the causal graph

The beam search keeps the best partial paths, the greedy policy follows one edge after another
from every start.  Both extend paths only by nodes that the path has not visited, so both loops
end on every graph.

A look at a node outside the graph panics; the functions that can panic return `none` there.
-/

open Sigil.Core Library

/-- A reconstructed multi-stage attack chain: a path of nodes and its total causal score. -/
structure AttackChain where
  path : List Nat
  score : ℚ
  deriving DecidableEq

def AttackChain.default : AttackChain where
  path := []
  score := 0

/-- A small bonus for anomalous nodes. -/
def nodeBonus (graph : CausalGraph) (node : Nat) : Option ℚ :=
  graph.nodes[node]?.map fun n => n.anomaly * (1 / 10)

/-! ## Beam search -/

/-- A partial path and its score. -/
abbrev Entry := List Nat × ℚ

/-- The path with one more edge. -/
def extend (graph : CausalGraph) (entry : Entry) (edge : CausalEdge) : Option Entry :=
  (nodeBonus graph edge.toNode).map fun bonus =>
    (entry.1 ++ [edge.toNode], entry.2 + edge.score + bonus)

/-- The path with each of the edges that leave its end to an unvisited node. -/
def extensions (graph : CausalGraph) (entry : Entry) : Option (List Entry) :=
  entry.1.getLast?.bind fun last =>
    ((graph.outgoing last).filter fun edge => edge.toNode ∉ entry.1).mapM (extend graph entry)

def candidates (graph : CausalGraph) (beam : List Entry) : Option (List Entry) :=
  (beam.mapM (extensions graph)).map List.flatten

/-- The state of the search loop. -/
structure Search where
  beam : List Entry
  best : Entry

/-- The search starts with a path at every node. -/
def Search.start (graph : CausalGraph) : Option Search :=
  ((List.range graph.nodes.length).mapM fun i =>
    (nodeBonus graph i).map fun bonus => ([i], bonus)).map fun beam =>
      { beam := beam, best := (maxBy Prod.snd beam).getD ([0], 0) }

/-- One round of the search; the flag says that the loop breaks. -/
def Search.round (graph : CausalGraph) (width : Nat) (search : Search) : Option (Search × Bool) :=
  (candidates graph search.beam).map fun found =>
    if found.isEmpty then (search, true)
    else
      ({ beam := (found.insertionSort fun a b => b.2 ≤ a.2).take width
         best := found.foldl (fun best c => if best.2 < c.2 then c else best) search.best }, false)

/-- The search loop.  No path is longer than the number of nodes, so the rounds suffice. -/
def Search.run (graph : CausalGraph) (width : Nat) (search : Search) : Option (Search × Bool) :=
  loopUntil (Search.round graph width) (graph.nodes.length + 2) search

def beamSearch (graph : CausalGraph) (width : Nat) : Option AttackChain :=
  if graph.nodes.isEmpty then some .default
  else do
    let search ← Search.start graph
    let (last, _) ← search.run graph width
    return { path := last.best.1, score := last.best.2 }

/-- The beam search selector raises a beam width of zero to one. -/
def BeamSearchSelector.select (beamWidth : Nat) (graph : CausalGraph) : Option AttackChain :=
  beamSearch graph (max beamWidth 1)

/-! ## The value-guided policy -/

/-- The best causal score among the edges that leave a node, or zero. -/
def future (graph : CausalGraph) (node : Nat) : ℚ :=
  ((graph.outgoing node).map CausalEdge.score).foldl max 0

/-- The edge to an unvisited node with the highest value, with the value. -/
def action (graph : CausalGraph) (gamma : ℚ) (path : List Nat) (cur : Nat) :
    Option (CausalEdge × ℚ) :=
  (graph.outgoing cur).foldl (fun best edge =>
    if edge.toNode ∈ path then best
    else
      let q := edge.score + gamma * future graph edge.toNode
      if best.elim true fun b => b.2 < q then some (edge, q) else best) none

/-- The state of an episode. -/
structure Episode where
  path : List Nat
  total : ℚ
  cur : Nat

/-- An episode starts at a node. -/
def Episode.start (graph : CausalGraph) (node : Nat) : Option Episode :=
  (nodeBonus graph node).map fun bonus => { path := [node], total := bonus, cur := node }

/-- One step of an episode; the flag says that there is no action. -/
def Episode.round (graph : CausalGraph) (gamma : ℚ) (episode : Episode) :
    Option (Episode × Bool) :=
  match action graph gamma episode.path episode.cur with
  | some (edge, _) =>
      (nodeBonus graph edge.toNode).map fun bonus =>
        ({ path := episode.path ++ [edge.toNode]
           total := episode.total + (edge.score + bonus)
           cur := edge.toNode }, false)
  | none => some (episode, true)

def Episode.run (graph : CausalGraph) (gamma : ℚ) (episode : Episode) :
    Option (Episode × Bool) :=
  loopUntil (Episode.round graph gamma) (graph.nodes.length + 1) episode

/-- Greedy episode from `start`. -/
def rollout (graph : CausalGraph) (gamma : ℚ) (start : Nat) : Option AttackChain := do
  let episode ← Episode.start graph start
  let (last, _) ← episode.run graph gamma
  return { path := last.path, score := last.total }

/-- The best episode of all starts. -/
def RlPathSelector.select (gamma : ℚ) (graph : CausalGraph) : Option AttackChain :=
  if graph.nodes.isEmpty then some .default
  else
    (List.range graph.nodes.length).foldlM (fun best start =>
      (rollout graph gamma start).map fun chain => if best.score < chain.score then chain else best)
      { path := [0], score := f32Min }

end Correlate
end Sigil
