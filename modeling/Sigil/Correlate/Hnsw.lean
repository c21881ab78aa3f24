import Mathlib.Data.List.Destutter
import Mathlib.Data.List.Sort
import Mathlib.Order.WithBot
import Sigil.Core.Extrema
import Sigil.Library.Loops

namespace Sigil
namespace Correlate

/-!
# The HNSW vector store

A layered graph over the stored vectors.  A search descends greedily through the upper layers
and then looks at the bottom layer best first.  An insertion searches every layer of the new
node, links it to what it finds in both directions, and prunes lists that become too long.

Vectors are opaque and are compared by a similarity into any linear order.  The layer of a new
node, which the code takes from a hash of its number, is an argument.  An index outside a table
panics; functions that can panic return `none` there, and also where a loop would not end.
-/

open Sigil.Core Library

variable {V S : Type} [LinearOrder S]

structure HnswNode (V : Type) where
  id : String
  vector : V
  /-- The indices of the connected nodes at every layer. -/
  neighbors : List (List Nat)

structure HnswVectorStore (V : Type) where
  m : Nat
  efConstruction : Nat
  efSearch : Nat
  nodes : List (HnswNode V)
  /-- Entry node index, if any. -/
  entry : Option Nat

/-- `swap_remove`: the last element takes the place of the removed one. -/
def swapRemove {α : Type} (list : List α) (pos : Nat) : List α :=
  match list.getLast? with
  | none => list
  | some last => (list.set pos last).dropLast

/-- The layers from `low` below `high`, from the top down. -/
def layersDown (low high : Nat) : List Nat :=
  (List.range' low (high - low)).reverse

namespace HnswVectorStore

def new (m efConstruction efSearch : Nat) : HnswVectorStore V where
  m := max m 2
  efConstruction := max efConstruction m
  efSearch := max efSearch 1
  nodes := []
  entry := none

variable (dot : V → V → S) (store : HnswVectorStore V)

/-- The bottom layer allows twice as many neighbours; the product wraps. -/
def maxNeighbors (layer : Nat) : Nat :=
  if layer = 0 then store.m * 2 % 2 ^ 64 else store.m

def links (node layer : Nat) : Option (List Nat) :=
  store.nodes[node]?.bind fun n => n.neighbors[layer]?

def vectorOf (node : Nat) : Option V :=
  store.nodes[node]?.map HnswNode.vector

def similarity (query : V) (node : Nat) : Option S :=
  (store.vectorOf node).map (dot query)

/-! ## Searching a layer -/

/-- The greedy walk at a node with its similarity, and whether the round has improved it. -/
structure Walker (S : Type) where
  ep : Nat
  best : S
  improved : Bool

/-- Move to a neighbour that is more similar. -/
def Walker.look (query : V) (walker : Walker S) (n : Nat) : Option (Walker S) :=
  (store.similarity dot query n).map fun sim =>
    if walker.best < sim then { ep := n, best := sim, improved := true } else walker

def Walker.round (query : V) (layer : Nat) (walker : Walker S) : Option (Walker S × Bool) := do
  let list ← store.links walker.ep layer
  let next ← list.foldlM (Walker.look dot store query) { walker with improved := false }
  return (next, !next.improved)

/-- Greedy walk on a layer toward the query, starting at `ep`. -/
def greedyStep (query : V) (ep layer : Nat) : Option Nat := do
  let best ← store.similarity dot query ep
  let last ← runUntil (Walker.round dot store query layer) (store.nodes.length + 1)
    { ep := ep, best := best, improved := false }
  return last.ep

/-- The state of a search: which nodes have been seen, the candidates to expand and the result
set. -/
structure Frontier (S : Type) where
  visited : List Bool
  candidates : List (Nat × S)
  results : List (Nat × S)

/-- The state in which a search starts. -/
def Frontier.start (ep : Nat) (sim : S) : Frontier S where
  visited := (List.replicate store.nodes.length false).set ep true
  candidates := [(ep, sim)]
  results := [(ep, sim)]

/-- The least similarity of the result set. -/
def worst (results : List (Nat × S)) : WithTop S :=
  results.foldl (fun least r => min least r.2) ⊤

/-- Drop the current worst. -/
def dropWorst (results : List (Nat × S)) : Option (List (Nat × S)) :=
  (minBy (fun r => r.1.2) results.zipIdx).map fun r => swapRemove results r.2

/-- Add a hit to the result set, which holds at most `ef` of them. -/
def pushHit (ef : Nat) (results : List (Nat × S)) (hit : Nat × S) : Option (List (Nat × S)) :=
  if ef < (results ++ [hit]).length then dropWorst (results ++ [hit]) else some (results ++ [hit])

/-- Look at a neighbour that has not been seen. -/
def Frontier.visit (query : V) (ef : Nat) (state : Frontier S) (n : Nat) : Option (Frontier S) :=
  match state.visited[n]? with
  | none => none
  | some true => some state
  | some false => do
      let sim ← store.similarity dot query n
      if state.results.length < ef ∨ worst state.results < sim then
        let results ← pushHit ef state.results (n, sim)
        return {
          visited := state.visited.set n true
          candidates := state.candidates ++ [(n, sim)]
          results := results }
      else return { state with visited := state.visited.set n true }

/-- Expand the best candidate; the flag says that the search is over. -/
def Frontier.round (query : V) (ef layer : Nat) (state : Frontier S) :
    Option (Frontier S × Bool) :=
  match maxBy (fun c => c.1.2) state.candidates.zipIdx with
  | none => some (state, true)
  | some ((node, sim), pos) => do
      let popped := { state with candidates := swapRemove state.candidates pos }
      if ef ≤ state.results.length ∧ sim < worst state.results then return (popped, true)
      else
        let list ← store.links node layer
        let next ← list.foldlM (Frontier.visit dot store query ef) popped
        return (next, false)

/-- Beam search on a layer: the `ef` most similar nodes reachable from `ep`, best first. -/
def searchLayer (query : V) (ep ef layer : Nat) : Option (List (Nat × S)) := do
  let sim ← store.similarity dot query ep
  let last ← runUntil (Frontier.round dot store query ef layer) (store.nodes.length + 1)
    (Frontier.start store ep sim)
  return last.results.insertionSort fun a b => b.2 ≤ a.2

/-- The greedy walks on the given layers. -/
def descend (query : V) (ep : Nat) (layers : List Nat) : Option Nat :=
  layers.foldlM (fun ep layer => store.greedyStep dot query ep layer) ep

/-- Where the search of the bottom layer starts: the end of the greedy walks down from the entry. -/
def approach (query : V) (entry : Nat) : Option Nat :=
  store.nodes[entry]?.bind fun top =>
    store.descend dot query entry (layersDown 1 top.neighbors.length)

/-- The `k` most similar vectors that the search finds, with their similarities. -/
def knn (query : V) (k : Nat) : Option (List (String × S)) :=
  match store.entry with
  | none => some []
  | some entry => do
      let ep ← store.approach dot query entry
      let found ← store.searchLayer dot query ep (max store.efSearch k) 0
      (found.take k).mapM fun hit => store.nodes[hit.1]?.map fun node => (node.id, hit.2)

/-! ## Inserting -/

def setLinks (node layer : Nat) (list : List Nat) : HnswVectorStore V :=
  { store with
    nodes := store.nodes.modify node fun n => { n with neighbors := n.neighbors.set layer list } }

/-- Keep the most similar neighbours. -/
def prune (node layer cap : Nat) : Option (HnswVectorStore V) := do
  let list ← store.links node layer
  if list.length ≤ cap then return store
  else
    let anchor ← store.vectorOf node
    let scored ← list.mapM fun n => (store.similarity dot anchor n).map fun sim => (n, sim)
    let kept :=
      ((scored.insertionSort fun a b => b.2 ≤ a.2).take cap).destutter fun a b => a.1 ≠ b.1
    return store.setLinks node layer (kept.map Prod.fst)

/-- Append to a list of links and prune it to capacity. -/
def link (node layer : Nat) (more : List Nat) : Option (HnswVectorStore V) := do
  let list ← store.links node layer
  (store.setLinks node layer (list ++ more)).prune dot node layer (store.maxNeighbors layer)

/-- Connect a node to the targets on a layer, pruning both sides. -/
def connect (node : Nat) (targets : List Nat) (layer : Nat) : Option (HnswVectorStore V) := do
  let linked ← store.link dot node layer targets
  targets.foldlM (fun store t => store.link dot t layer [node]) linked

/-- Insert a node into one of its layers, starting at `ep`; the search goes on from the best
node found. -/
def insertLayer (query : V) (idx : Nat) (state : HnswVectorStore V × Nat) (layer : Nat) :
    Option (HnswVectorStore V × Nat) := do
  let found ← state.1.searchLayer dot query state.2 state.1.efConstruction layer
  let best ← found.head?
  let m := min (state.1.maxNeighbors layer) found.length
  let connected ← state.1.connect dot idx ((found.take m).map Prod.fst) layer
  return (connected, best.1)

/-- A new node without links. -/
def push (id : String) (vector : V) (layer : Nat) : HnswVectorStore V :=
  { store with
    nodes := store.nodes ++
      [{ id := id, vector := vector, neighbors := List.replicate (layer + 1) [] }] }

/-- Insert a vector under an id, in the layers up to the given one. -/
def add (id : String) (vector : V) (layer : Nat) : Option (HnswVectorStore V) :=
  let idx := store.nodes.length
  let pushed := store.push id vector layer
  match store.entry with
  | none => some { pushed with entry := some idx }
  | some entry => do
      let node ← pushed.nodes[entry]?
      let top := node.neighbors.length - 1
      let ep ← pushed.descend dot vector entry (layersDown (layer + 1) (top + 1))
      let (inserted, _) ← (layersDown 0 (min layer top + 1)).foldlM
        (insertLayer dot vector idx) (pushed, ep)
      return if top < layer then { inserted with entry := some idx } else inserted

/-- Insert vectors one after another, each with its layer. -/
def addAll (items : List ((String × V) × Nat)) : Option (HnswVectorStore V) :=
  items.foldlM (fun store item => store.add dot item.1.1 item.1.2 item.2) store

end HnswVectorStore

end Correlate
end Sigil
