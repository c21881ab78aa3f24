import Mathlib.Data.Prod.Lex
import Mathlib.Data.String.Basic
import Sigil.Core.Extrema
import Sigil.Correlate.VectorStore
import Sigil.Graph.Provenance
import Sigil.Library.UnionFind

namespace Sigil
namespace Correlate

/-!
# Campaign candidates

Events that are similar or share an entity are linked when they lie within a time window, and
the connected components of the links are the candidates.

Similarities and scores are exact fractions here.  The embedding is a parameter, and so is the
order in which each hash map and each hash set is gone through.
-/

open Sigil.Core Sigil.Graph Library

/-- Tunables for candidate generation. -/
structure CampaignConfig where
  windowMicros : Int
  simThreshold : ℚ
  knn : Nat
  requireCrossDomain : Bool
  semanticLinks : Bool
  entityLinks : Bool

def CampaignConfig.default : CampaignConfig where
  windowMicros := 30 * 60 * 1000000
  simThreshold := 1 / 2
  knn := 10
  requireCrossDomain := true
  semanticLinks := true
  entityLinks := true

/-- A group of events that plausibly belong to one campaign. -/
structure CampaignCandidate where
  id : Nat
  events : List String
  domains : List String
  links : Nat
  score : ℚ
  deriving DecidableEq

def classToken : OcsfClass → String
  | .authentication => "authentication"
  | .processActivity => "process_activity"
  | .fileSystemActivity => "file_system_activity"
  | .networkActivity => "network_activity"
  | .httpActivity => "http_activity"
  | .apiActivity => "api_activity"
  | .dnsActivity => "dns_activity"
  | .moduleActivity => "module_activity"
  | .scheduledJobActivity => "scheduled_job_activity"
  | .registryKeyActivity => "registry_key_activity"
  | .other _ => "other"

def dot (a b : List ℚ) : ℚ :=
  (List.zipWith (· * ·) a b).sum

/-! ## Disjoint sets -/

/-- Disjoint-set union for component finding: the parents lead every element to a root. -/
structure Dsu (n : Nat) where
  parent : Fin n → Fin n
  leads : ∃ root, Leads parent root

namespace Dsu

variable {n : Nat}

def new (n : Nat) : Dsu n where
  parent := id
  leads := ⟨id, leads_id⟩

/-- Climb to the root. -/
def rootOf (dsu : Dsu n) (x : Fin n) : Fin n :=
  loop (fun root => dsu.parent root = root) dsu.parent n x

/-- Point the elements on the path to the root at it. -/
def compress (dsu : Dsu n) (x root : Fin n) : Fin n → Fin n :=
  (loop (fun state : (Fin n → Fin n) × Fin n => state.1 state.2 = root)
    (fun state => (Function.update state.1 state.2 root, state.1 state.2)) n (dsu.parent, x)).1

theorem rootOf_eq {dsu : Dsu n} {root : Fin n → Fin n}
    (leads : Leads dsu.parent root) (x : Fin n) :
    dsu.rootOf x = root x := by
  have climbed := leads.climb x
  rwa [Fintype.card_fin] at climbed

theorem compress_leads {dsu : Dsu n} {root : Fin n → Fin n} (leads : Leads dsu.parent root)
    (x : Fin n) : Leads (dsu.compress x (dsu.rootOf x)) root := by
  have compressed := (leads.compress x).1
  rw [Fintype.card_fin] at compressed
  rw [rootOf_eq leads]
  exact compressed

def find (dsu : Dsu n) (x : Fin n) : Dsu n × Fin n :=
  ({ parent := dsu.compress x (dsu.rootOf x)
     leads := dsu.leads.imp fun _ leads => compress_leads leads x }, dsu.rootOf x)

theorem find_spec {dsu : Dsu n} {root : Fin n → Fin n}
    (leads : Leads dsu.parent root) (x : Fin n) :
    Leads (dsu.find x).1.parent root ∧ (dsu.find x).2 = root x :=
  ⟨compress_leads leads x, rootOf_eq leads x⟩

theorem link_leads {dsu : Dsu n} {root : Fin n → Fin n} (leads : Leads dsu.parent root)
    {a b : Fin n} (different : root a ≠ root b) :
    Leads (Function.update dsu.parent (root a) (root b))
      (fun x => if root x = root a then root b else root x) :=
  leads.link (leads.root_root a) (leads.root_root b) different

def union (dsu : Dsu n) (a b : Fin n) : Dsu n :=
  let first := dsu.find a
  let second := first.1.find b
  if different : first.2 = second.2 then second.1
  else
    { parent := Function.update second.1.parent first.2 second.2
      leads := by
        rcases dsu.leads with ⟨root, leads⟩
        have atFirst := find_spec leads a
        have atSecond := find_spec atFirst.1 b
        rw [atFirst.2, atSecond.2] at different ⊢
        exact ⟨_, link_leads atSecond.1 different⟩ }

end Dsu

/-! ## Links -/

/-- The best similarity of each linked pair, and whether it crosses domains. -/
abbrev Links (n : Nat) := AList fun _ : Fin n × Fin n => ℚ × Bool

/-- `abs` of a machine integer. -/
def absI64 (x : Int) : Int :=
  toI64 |x|

variable (cfg : CampaignConfig) (embed : Event → List ℚ) (events : List Event)

/-- Record a link between two events within the window. -/
def record (a b : Fin events.length) (sim : ℚ) (links : Links events.length) :
    Links events.length :=
  if a = b then links
  else if cfg.windowMicros < absI64 (toI64 ((events.get a).ts - (events.get b).ts)) then links
  else
    let key := if a < b then (a, b) else (b, a)
    let cross := decide ((events.get a).ocsfClass.uid ≠ (events.get b).ocsfClass.uid)
    let entry := (links.lookup key).getD (f32Min, cross)
    links.insert key (if entry.1 < sim then sim else entry.1, cross)

/-- The position of the event with an id, the last one if there are several. -/
def positions : AList fun _ : String => Fin events.length :=
  (List.finRange events.length).foldl (fun pos i => pos.insert (events.get i).id i) ∅

/-- The vector index of the events. -/
def vectorStore : FlatVectorStore (List ℚ) :=
  events.foldl (fun store e => store.add e.id (embed e)) .new

/-- The provenance graph of the events. -/
def provenance : ProvenanceGraph :=
  events.foldl ProvenanceGraph.addEvent .new

/-- Semantic links: nearest neighbours above the threshold. -/
def semanticLinks (links : Links events.length) : Links events.length :=
  (List.finRange events.length).foldl (fun links i =>
    ((vectorStore embed events).knn dot (embed (events.get i)) (cfg.knn + 1)).foldl
        (fun links hit =>
      if hit.2 < cfg.simThreshold then links
      else match (positions events).lookup hit.1 with
        | some j => record cfg events i j hit.2 links
        | none => links) links) links

/-- Shared-entity links from the provenance graph. -/
def entityLinks (ids : Fin events.length → HashOrder String) (links : Links events.length) :
    Links events.length :=
  (List.finRange events.length).foldl (fun links i =>
    ((ids i).run ((provenance events).coEntityEvents (events.get i))).foldl (fun links id =>
      match (positions events).lookup id with
      | some j => record cfg events i j (dot (embed (events.get i)) (embed (events.get j))) links
      | none => links) links) links

/-- The orders of the hash maps and sets of one call. -/
structure HashOrders (n : Nat) where
  ids : Fin n → HashOrder String
  links : HashOrder (Sigma fun _ : Fin n × Fin n => ℚ × Bool)
  comps : HashOrder (List (Fin n))

/-- All links of the events. -/
def collectLinks (ids : Fin events.length → HashOrder String) : Links events.length :=
  let links := if cfg.semanticLinks then semanticLinks cfg embed events ∅ else ∅
  if cfg.entityLinks then entityLinks cfg embed events ids links else links

/-! ## Candidates -/

/-- Union along the links. -/
def unionAll {n : Nat} (pairs : List (Fin n × Fin n)) : Dsu n :=
  pairs.foldl (fun dsu pair => dsu.union pair.1 pair.2) (.new n)

/-- The elements by their roots; finding a root compresses paths on the way. -/
def components {n : Nat} (dsu : Dsu n) : AList fun _ : Fin n => List (Fin n) :=
  ((List.finRange n).foldl (fun state i =>
    ((state.1.find i).1, push state.2 (state.1.find i).2 i)) (dsu, ∅)).2

/-- The candidate of a component, if it has two events and spans enough domains. -/
def candidate (links : List (Sigma fun _ : Fin events.length × Fin events.length => ℚ × Bool))
    (members : List (Fin events.length)) : Option CampaignCandidate :=
  let domains :=
    ((members.map fun i => classToken (events.get i).ocsfClass).dedup).insertionSort (· ≤ ·)
  if members.length < 2 then none
  else if cfg.requireCrossDomain = true ∧ domains.length < 2 then none
  else
    let edgeSims := (links.filter fun link => link.1.1 ∈ members ∧ link.1.2 ∈ members).map
      fun link => link.2.1
    let avgSim := if edgeSims.isEmpty then 0 else edgeSims.sum / edgeSims.length
    let eventIds := (members.map fun i => ((events.get i).ts, (events.get i).id)).insertionSort
      fun a b => toLex a ≤ toLex b
    some
      { id := 0
        events := eventIds.map Prod.snd
        domains := domains
        links := edgeSims.length
        score := domains.length + (members.length - 1) * (1 / 2) + max avgSim 0 }

/-- Generate campaign candidates from a batch of events. -/
def buildCampaigns (orders : HashOrders events.length) : List CampaignCandidate :=
  let links := orders.links.run (collectLinks cfg embed events orders.ids).entries
  let dsu := unionAll (links.map Sigma.fst)
  let comps := orders.comps.run ((components dsu).entries.map Sigma.snd)
  let candidates := (comps.filterMap (candidate cfg events links)).insertionSort
    fun a b => b.score ≤ a.score
  candidates.zipIdx.map fun pair => { pair.1 with id := pair.2 }

end Correlate
end Sigil
