import Sigil.Cluster.Network
import Sigil.Cluster.Transport
import Sigil.Library.Transit

namespace Sigil
namespace Cluster

/-!
# The drivers of a cluster

Every node has a driver and a bus of its own.  The driver listens to two topics: the one of its
node and the one of the cluster.  What it publishes goes to the topics of its own bus and, as
frames, over one link to each peer; what a peer reads from a link goes to the topics of the
peer's bus.  A link connects when it has something to send, loses what it cannot send, and starts
a new connection after it has lost one.

A message is text on its way.  Its printer and its parser are parameters.
-/

open Library

/-- The printer and the parser of messages. -/
structure MsgText where
  toVec : RaftMsg → List UInt8
  fromSlice : List UInt8 → Option RaftMsg

/-- Directed-topic name for a node. -/
def topicFor (cluster node : String) : String :=
  "raft." ++ cluster ++ "." ++ node

/-- Broadcast-topic name for a cluster. -/
def topicBcast (cluster : String) : String :=
  "raft." ++ cluster ++ ".bcast"

/-- What a subscriber may be behind, and what a link may have to send. -/
def capacity : Nat := 1024

/-- A node with the two subscriptions of its driver. -/
structure Host where
  node : RaftNode
  panicked : Bool
  directed : Receiver (List UInt8)
  bcast : Receiver (List UInt8)

/-- One connection of a link: the bytes that have been sent and not read. -/
structure Connection where
  unread : List UInt8
  broken : Bool

/-- The link to one peer; the first of its connections is the latest one, and `attached` says
that it is still used for sending. -/
structure Link where
  queue : List Publication
  connections : List Connection
  attached : Bool

/-- How the sending of a frame ends: the peer cannot be reached, the bytes are on their way, or
the connection is lost while they are sent. -/
inductive Sending where
  | unreachable
  | sent
  | lost (keep : Nat)
  deriving DecidableEq, Repr

/-- What all drivers, buses and links hold. -/
structure Wires where
  host : String → Host
  link : String × String → Link

/-! ## Topics -/

namespace Host

/-- Publish to the topics of a bus. -/
def publish (cluster id : String) (host : Host) (publication : Publication) : Host :=
  let host :=
    if publication.topic = topicFor cluster id then
      { host with directed := host.directed.send capacity publication.payload }
    else host
  if publication.topic = topicBcast cluster then
    { host with bcast := host.bcast.send capacity publication.payload }
  else host

/-- Handle what a subscription gives: a message that cannot be read and a gap are skipped. -/
def decodeStep (text : MsgText) (node : RaftNode) :
    Except Nat (List UInt8) → Option (RaftNode × List Envelope)
  | .error _ => some (node, [])
  | .ok bytes =>
      match text.fromSlice bytes with
      | some msg => node.decodeStep msg
      | none => some (node, [])

end Host

/-! ## Links -/

namespace Link

/-- Queue a frame, or drop it when the queue is full. -/
def trySend (link : Link) (publication : Publication) : Link :=
  if link.queue.length < capacity then { link with queue := link.queue ++ [publication] } else link

/-- Connect if there is no connection to send over. -/
def connect (link : Link) : Link :=
  if link.attached then link
  else { link with connections := ⟨[], false⟩ :: link.connections, attached := true }

/-- Bytes are sent over the latest connection; nothing arrives over a broken one. -/
def writeAll (link : Link) (bytes : List UInt8) : Link :=
  { link with
    connections := link.connections.modify 0 fun connection =>
      if connection.broken then connection
      else { connection with unread := connection.unread ++ bytes } }

/-- A connection breaks; only some of the bytes that are under way still arrive. -/
def breaks (link : Link) (place keep : Nat) : Link :=
  { link with
    connections := link.connections.modify place fun connection =>
      { unread := connection.unread.take keep, broken := true } }

/-- Send the next frame of the queue. -/
def forward (link : Link) (sending : Sending) : Option Link :=
  match link.queue with
  | [] => none
  | publication :: rest =>
      let link := { link with queue := rest }
      match sending with
      | .unreachable => if link.attached then none else some link
      | .sent => some (link.connect.writeAll (writeFrame publication))
      | .lost keep =>
          some { (link.connect.writeAll (writeFrame publication)).breaks 0 keep with
            attached := false }

/-- Read the next frame of a connection.  The reader waits for bytes that have not arrived, and
closes the connection at a length above the cap. -/
def read (link : Link) (place : Nat) : Option (Link × Option Publication) :=
  match link.connections[place]? with
  | none => none
  | some connection =>
      match readFrame connection.unread with
      | .ok (publication, rest) =>
          some ({ link with
            connections := link.connections.set place { connection with unread := rest } },
            some publication)
      | .error .read => none
      | .error _ =>
          some ({ link with connections := link.connections.set place ⟨[], true⟩ }, none)

end Link

/-! ## Drivers -/

/-- What can happen next: a tick or a proposal at a node, the driver of a node takes from one of
its subscriptions, or something moves on a link. -/
inductive Signal where
  | tick (i : String)
  | propose (i : String) (data : List UInt8)
  | directed (i : String)
  | bcast (i : String)
  | forward (i j : String) (sending : Sending)
  | breaks (i j : String) (place keep : Nat)
  | read (i j : String) (place : Nat)
  deriving DecidableEq, Repr

section Drivers

variable (c : Membership) (cluster : String) (text : MsgText)

namespace Wires

variable (w : Wires)

def setHost (i : String) (host : Host) : Wires :=
  { w with host := Function.update w.host i host }

def setLink (i j : String) (link : Link) : Wires :=
  { w with link := Function.update w.link (i, j) link }

@[simp] theorem setHost_self (i : String) (host : Host) : (w.setHost i host).host i = host :=
  Function.update_self _ _ _

theorem setHost_ne {i k : String} (differ : k ≠ i) (host : Host) :
    (w.setHost i host).host k = w.host k :=
  Function.update_of_ne differ _ _

@[simp] theorem setLink_self (i j : String) (link : Link) :
    (w.setLink i j link).link (i, j) = link :=
  Function.update_self _ _ _

theorem setLink_ne {i j : String} {p : String × String} (differ : p ≠ (i, j)) (link : Link) :
    (w.setLink i j link).link p = w.link p :=
  Function.update_of_ne differ _ _

/-- Publish to the bus of a node, and queue a frame for each of its peers. -/
def publish (i : String) (publication : Publication) : Wires :=
  (c.peers i).foldl (fun w p => w.setLink i p ((w.link (i, p)).trySend publication))
    (w.setHost i ((w.host i).publish cluster i publication))

/-- The publication of an envelope. -/
def publication (envelope : Envelope) : Publication where
  topic :=
    match envelope.dest with
    | some node => topicFor cluster node
    | none => topicBcast cluster
  payload := text.toVec envelope.msg

/-- Publish envelopes one after another. -/
def send (i : String) (envelopes : List Envelope) : Wires :=
  envelopes.foldl (fun w envelope => w.publish c cluster i (publication cluster text envelope)) w

/-- Store the new state of a node and send its envelopes; a panic ends its driver. -/
def act (i : String) : Option (RaftNode × List Envelope) → Wires
  | some (n, out) => (w.setHost i { w.host i with node := n }).send c cluster text i out
  | none => w.setHost i { w.host i with panicked := true }

/-- The driver of a member runs. -/
def Runs (i : String) : Prop :=
  i ∈ c.members ∧ (w.host i).panicked = false

instance (i : String) : Decidable (w.Runs c i) :=
  inferInstanceAs (Decidable (_ ∧ _))

/-- There is a link from a member to each of its peers. -/
def Linked (i j : String) : Prop :=
  i ∈ c.members ∧ j ∈ c.peers i

instance (i j : String) : Decidable (Linked c i j) :=
  inferInstanceAs (Decidable (_ ∧ _))

/-- One signal, when it is possible. -/
def step : Signal → Option Wires
  | .tick i => if w.Runs c i then some (w.act c cluster text i (w.host i).node.tick) else none
  | .propose i data =>
      if w.Runs c i then
        some (w.act c cluster text i
          (((w.host i).node.propose data).map fun result => (result.1, Net.sent result.2)))
      else none
  | .directed i =>
      if w.Runs c i then
        (w.host i).directed.recv.map fun (got, receiver) =>
          (w.setHost i { w.host i with directed := receiver }).act c cluster text i
            (Host.decodeStep text (w.host i).node got)
      else none
  | .bcast i =>
      if w.Runs c i then
        (w.host i).bcast.recv.map fun (got, receiver) =>
          (w.setHost i { w.host i with bcast := receiver }).act c cluster text i
            (Host.decodeStep text (w.host i).node got)
      else none
  | .forward i j sending =>
      if Linked c i j then ((w.link (i, j)).forward sending).map (w.setLink i j) else none
  | .breaks i j place keep =>
      if Linked c i j then some (w.setLink i j ((w.link (i, j)).breaks place keep)) else none
  | .read i j place =>
      if Linked c i j then
        ((w.link (i, j)).read place).map fun (link, got) =>
          match got with
          | none => w.setLink i j link
          | some publication =>
              (w.setLink i j link).setHost j ((w.host j).publish cluster j publication)
      else none

/-- Every driver is new and nothing is under way. -/
def start : Wires where
  host := fun i =>
    { node := RaftNode.new i (c.peers i) (c.seed i)
      panicked := false
      directed := .new
      bcast := .new }
  link := fun _ => { queue := [], connections := [], attached := false }

/-- The frame that a link sends next has no field above the cap. -/
def Small : Signal → Prop
  | .forward i j _ => ∀ publication ∈ (w.link (i, j)).queue.head?, publication.Fits
  | _ => True

instance (signal : Signal) : Decidable (w.Small signal) :=
  match signal with
  | .forward i j _ =>
      inferInstanceAs
        (Decidable (∀ publication ∈ (w.link (i, j)).queue.head?, publication.Fits))
  | .tick _ | .propose _ _ | .directed _ | .bcast _ | .breaks _ _ _ _ | .read _ _ _ =>
      .isTrue trivial

end Wires

/-- The transition system of the drivers. -/
def Membership.drivers : TransitionSystem Wires Signal where
  init := fun w => w = Wires.start c
  step := fun before signal after => before.step c cluster text signal = some after

end Drivers

end Cluster
end Sigil
