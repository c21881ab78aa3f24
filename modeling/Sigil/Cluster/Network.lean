import Mathlib.Logic.Function.Basic
import Sigil.Cluster.Raft

namespace Sigil
namespace Cluster

/-!
# A cluster of Raft nodes and the messages between them

A state holds every node, the copies of messages still in flight, and the nodes that
have stopped because a step indexed outside the log.  A publication puts one copy per
subscriber in flight.  A delivery takes one copy out, at any position, so copies may
overtake each other and a copy may stay in flight for ever, which is how a lost one
looks.  No copy is delivered twice.
-/

open Library

/-- The members of a cluster, each with its peer list and its seed.  The peers of a
member are the other members. -/
structure Membership where
  members : List String
  peers : String → List String
  seed : String → UInt64
  nodup : members.Nodup
  peers_nodup : ∀ i, i ∈ members → (peers i).Nodup
  mem_peers : ∀ i, i ∈ members → ∀ p, p ∈ peers i ↔ p ∈ members ∧ p ≠ i

/-- The nodes, the stopped ones, and the message copies in flight. -/
structure Net where
  node : String → RaftNode
  stopped : List String
  flight : List (String × RaftMsg)

/-- What can happen next: a tick, a proposal, or the delivery of the copy at a position
of the flight list. -/
inductive Event where
  | tick (i : String)
  | propose (i : String) (data : List UInt8)
  | deliver (position : Nat)
  deriving DecidableEq, Repr

namespace Membership

variable (c : Membership)

/-- The copies a publication puts in flight: one for the named node, or one for every
subscriber of the broadcast topic, the sender included. -/
def copies (envelope : Envelope) : List (String × RaftMsg) :=
  match envelope.dest with
  | some p => [(p, envelope.msg)]
  | none => c.members.map fun p => (p, envelope.msg)

/-- Every node as `RaftNode.new` builds it. -/
def start : Net where
  node := fun i => RaftNode.new i (c.peers i) (c.seed i)
  stopped := []
  flight := []

end Membership

namespace Net

variable (c : Membership)

/-- A member that has not panicked. -/
def Runs (s : Net) (i : String) : Prop :=
  i ∈ c.members ∧ i ∉ s.stopped

instance (s : Net) (i : String) : Decidable (s.Runs c i) :=
  inferInstanceAs (Decidable (_ ∧ _))

/-- Store the new state of a node and send its envelopes; a panic stops the node. -/
def act (s : Net) (i : String) : Option (RaftNode × List Envelope) → Net
  | some (n, out) =>
      { s with node := Function.update s.node i n, flight := s.flight ++ out.flatMap c.copies }
  | none => { s with stopped := i :: s.stopped }

/-- What the driver sends after a proposal: nothing when it is refused. -/
def sent : Except String (List Envelope) → List Envelope
  | .ok out => out
  | .error _ => []

/-- One event, when it is possible. -/
def step (s : Net) : Event → Option Net
  | .tick i => if s.Runs c i then some (s.act c i (s.node i).tick) else none
  | .propose i data =>
      if s.Runs c i then
        some (s.act c i (((s.node i).propose data).map fun result => (result.1, sent result.2)))
      else none
  | .deliver position =>
      match s.flight[position]? with
      | some (i, msg) =>
          if s.Runs c i then
            some ({ s with flight := s.flight.eraseIdx position }.act c i
              ((s.node i).decodeStep msg))
          else none
      | none => none

end Net

/-- The transition system of a cluster. -/
def Membership.system (c : Membership) : TransitionSystem Net Event where
  init := fun s => s = c.start
  step := fun before event after => before.step c event = some after

end Cluster
end Sigil
