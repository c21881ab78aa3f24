import Sigil.Cluster.Addresses
import Sigil.Cluster.Driver

namespace Sigil
namespace Cluster

/-!
# The drivers refine the cluster

A copy of a message is in transit on a link, on a connection or in a subscription.  All of these
copies are in flight in the cluster: the buses, the queues and the connections may lose, delay and
reorder copies, but they neither invent nor double one.  So every run of the drivers is a run of
the cluster, and what is safe there is safe here.
-/

open Library

variable {c : Membership} {cluster : String} {text : MsgText}

/-! ## Connections -/

/-- What the reader of a connection can still publish. -/
def Connection.arrives (conn : Connection) : List Publication :=
  (readFrames conn.unread).1

/-- The bytes that have not been read are those of some frames; a broken connection may have lost
the end of them. -/
def Connection.Intact (conn : Connection) : Prop :=
  ∃ (publications : List Publication) (cut : Nat),
    (∀ publication ∈ publications, publication.Fits) ∧
    conn.unread = (connection publications).take cut ∧
    (conn.broken = false → (connection publications).length ≤ cut)

theorem readFrame_nil : frames.read [] = .error .read :=
  rfl

theorem readsBack_of_fits {publications : List Publication}
    (fit : ∀ publication ∈ publications, publication.Fits) :
    ∀ publication, publication ∈ publications →
      frames.ReadsBack writeFrame .read publication :=
  fun publication member => (fit publication member).readsBack

theorem readFrames_take {publications : List Publication}
    (fit : ∀ publication ∈ publications, publication.Fits) (cut : Nat) :
    (readFrames ((connection publications).take cut)).1 =
      FrameReader.complete writeFrame cut publications :=
  congrArg Prod.fst (FrameReader.readAll_take readFrame_nil (readsBack_of_fits fit) cut)

namespace Connection.Intact

variable {conn : Connection} (intact : conn.Intact)

include intact

theorem breaks (keep : Nat) :
    Connection.Intact { unread := conn.unread.take keep, broken := true } := by
  rcases intact with ⟨publications, cut, fit, unread, _⟩
  exact ⟨publications, min keep cut, fit, by rw [unread, List.take_take],
    fun impossible => by cases impossible⟩

/-- Less arrives of a connection that breaks. -/
theorem arrives_breaks (keep : Nat) :
    Connection.arrives { unread := conn.unread.take keep, broken := true } <+: conn.arrives := by
  rcases intact with ⟨publications, cut, fit, unread, _⟩
  rw [Connection.arrives, Connection.arrives, unread, List.take_take, readFrames_take fit,
    readFrames_take fit]
  exact FrameReader.complete_prefix (Nat.min_le_right keep cut) publications

theorem writes (whole : conn.broken = false) {publication : Publication} (fits : publication.Fits) :
    Connection.Intact { conn with unread := conn.unread ++ writeFrame publication } ∧
      Connection.arrives { conn with unread := conn.unread ++ writeFrame publication } =
        conn.arrives ++ [publication] := by
  rcases intact with ⟨publications, cut, fit, unread, all⟩
  have unread : conn.unread = connection publications := by
    rw [unread, List.take_of_length_le (all whole)]
  have more : connection (publications ++ [publication]) =
      conn.unread ++ writeFrame publication := by
    rw [connection, FrameReader.writeAll, List.flatMap_append, List.flatMap_singleton, unread]
    rfl
  have fit' : ∀ p ∈ publications ++ [publication], p.Fits := by
    intro p member
    rcases List.mem_append.mp member with old | new
    · exact fit p old
    · rw [List.mem_singleton.mp new]
      exact fits
  have shown : ∀ {publications : List Publication}, (∀ p ∈ publications, p.Fits) →
      (readFrames (connection publications)).1 = publications := by
    intro publications fit
    have read := FrameReader.readAll_append (readsBack_of_fits fit) []
    rw [List.append_nil, FrameReader.readAll_error readFrame_nil, List.append_nil] at read
    exact congrArg Prod.fst read
  refine ⟨⟨_, _, fit', ?_, fun _ => Nat.le_refl _⟩, ?_⟩
  · rw [List.take_length, more]
  · rw [Connection.arrives, Connection.arrives, ← more, shown fit', unread, shown fit]

theorem reads {publication : Publication} {rest : List UInt8}
    (result : readFrame conn.unread = .ok (publication, rest)) :
    Connection.Intact { conn with unread := rest } ∧
      conn.arrives = publication :: Connection.arrives { conn with unread := rest } := by
  refine ⟨?_, congrArg Prod.fst (@FrameReader.readAll_ok _ _ _ frames _ _ _ result)⟩
  rcases intact with ⟨publications, cut, fit, unread, all⟩
  rw [unread] at result
  rcases FrameReader.read_take readFrame_nil (readsBack_of_fits fit) result with
    ⟨others, rfl, rfl⟩
  refine ⟨others, _, fun p member => fit p (List.mem_cons_of_mem _ member),
    rfl, fun whole => ?_⟩
  have length := all whole
  rw [connection, FrameReader.writeAll, List.flatMap_cons, List.length_append] at length
  exact Nat.le_sub_of_add_le' length

end Connection.Intact

theorem intact_new : Connection.Intact ⟨[], false⟩ :=
  ⟨[], 0, fun _ member => absurd member List.not_mem_nil, rfl, fun _ => Nat.le_refl _⟩

theorem intact_closed : Connection.Intact ⟨[], true⟩ :=
  ⟨[], 0, fun _ member => absurd member List.not_mem_nil, rfl,
    fun impossible => by cases impossible⟩

/-! ## Links -/

/-- The copies that a driver hears when a payload is published to one of its topics. -/
def decoded (text : MsgText) (j : String) (payload : List UInt8) : List (String × RaftMsg) :=
  (text.fromSlice payload).toList.map fun msg => (j, msg)

/-- The copies that a driver hears of a publication on its bus. -/
def hears (cluster : String) (text : MsgText) (j : String) (publication : Publication) :
    List (String × RaftMsg) :=
  (if publication.topic = topicFor cluster j then decoded text j publication.payload else []) ++
    if publication.topic = topicBcast cluster then decoded text j publication.payload else []

/-- The copies on a connection. -/
def Connection.carried (cluster : String) (text : MsgText) (j : String) (conn : Connection) :
    Multiset (String × RaftMsg) :=
  conn.arrives.flatMap (hears cluster text j)

/-- The copies on a link. -/
def Link.carried (cluster : String) (text : MsgText) (j : String) (link : Link) :
    Multiset (String × RaftMsg) :=
  ↑(link.queue.flatMap (hears cluster text j)) +
    (link.connections.map (Connection.carried cluster text j)).sum

def Link.Intact (link : Link) : Prop :=
  ∀ conn ∈ link.connections, conn.Intact

theorem Connection.carried_new (j : String) (broken : Bool) :
    Connection.carried cluster text j ⟨[], broken⟩ = 0 := by
  rw [Connection.carried, Connection.arrives, readFrames, FrameReader.readAll_error readFrame_nil]
  rfl

namespace Link

variable {link : Link}

theorem trySend_carried (j : String) (publication : Publication) :
    (link.trySend publication).carried cluster text j ≤
      link.carried cluster text j + ↑(hears cluster text j publication) := by
  rw [Link.trySend]
  split
  · rw [Link.carried, Link.carried, List.flatMap_append, List.flatMap_singleton,
      ← Multiset.coe_add, add_right_comm]
  · exact Multiset.le_add_right _ _

theorem Intact.connect (intact : link.Intact) : link.connect.Intact := by
  rw [Link.connect]
  split
  · exact intact
  · intro conn member
    rcases List.mem_cons.mp member with rfl | old
    · exact intact_new
    · exact intact conn old

theorem connect_carried (j : String) :
    link.connect.carried cluster text j = link.carried cluster text j := by
  rw [Link.connect]
  split
  · rfl
  · rw [Link.carried, Link.carried, List.map_cons, List.sum_cons, Connection.carried_new, zero_add]

theorem Intact.set (intact : link.Intact) (place : Nat) {conn : Connection} (new : conn.Intact) :
    Link.Intact { link with connections := link.connections.set place conn } := by
  intro other member
  rcases List.mem_or_eq_of_mem_set member with old | rfl
  · exact intact other old
  · exact new

theorem carried_set (j : String) {place : Nat} {old : Connection}
    (found : link.connections[place]? = some old) (conn : Connection) :
    Link.carried cluster text j { link with connections := link.connections.set place conn } +
        old.carried cluster text j =
      link.carried cluster text j + conn.carried cluster text j := by
  rw [Link.carried, Link.carried, add_assoc, sum_set _ found, add_assoc]

/-- A change of one connection that adds at most so many copies. -/
theorem Intact.modify (intact : link.Intact) (j : String) (place : Nat)
    {change : Connection → Connection} {more : Multiset (String × RaftMsg)}
    (changes : ∀ conn : Connection, conn.Intact → (change conn).Intact ∧
      (change conn).carried cluster text j ≤ conn.carried cluster text j + more) :
    Link.Intact { link with connections := link.connections.modify place change } ∧
      Link.carried cluster text j { link with
        connections := link.connections.modify place change } ≤
        link.carried cluster text j + more := by
  have inhabited : Inhabited Connection := ⟨⟨[], false⟩⟩
  rw [List.modify_eq_set]
  cases found : link.connections[place]? with
  | none =>
      rw [List.set_eq_of_length_le (List.getElem?_eq_none_iff.mp found)]
      exact ⟨intact, Multiset.le_add_right _ _⟩
  | some old =>
      rcases changes old (intact old (List.mem_of_getElem? found)) with ⟨new, bound⟩
      refine ⟨intact.set place new, ?_⟩
      apply le_of_add_le_add_right (a := old.carried cluster text j)
      rw [Option.getD_some, carried_set j found, add_assoc, add_comm more]
      exact add_le_add_right bound _

theorem Intact.writeAll (intact : link.Intact) (j : String) {publication : Publication}
    (fits : publication.Fits) :
    (link.writeAll (writeFrame publication)).Intact ∧
      (link.writeAll (writeFrame publication)).carried cluster text j ≤
        link.carried cluster text j + ↑(hears cluster text j publication) := by
  refine intact.modify j 0 fun conn whole => ?_
  split
  · exact ⟨whole, Multiset.le_add_right _ _⟩
  · next unbroken =>
      rcases whole.writes (Bool.eq_false_iff.mpr unbroken) fits with ⟨new, arrives⟩
      refine ⟨new, ?_⟩
      rw [Connection.carried, Connection.carried, arrives, List.flatMap_append,
        List.flatMap_singleton, ← Multiset.coe_add]

theorem Intact.breaks (intact : link.Intact) (j : String) (place keep : Nat) :
    (link.breaks place keep).Intact ∧
      (link.breaks place keep).carried cluster text j ≤ link.carried cluster text j := by
  have broken := @Intact.modify cluster text link intact j place
    (fun conn => { unread := conn.unread.take keep, broken := true }) 0 fun conn whole => by
      refine ⟨whole.breaks keep, ?_⟩
      rw [add_zero]
      exact Multiset.coe_le.mpr ((whole.arrives_breaks keep).sublist.flatMap _).subperm
  rw [add_zero] at broken
  exact broken

/-- Sending the next frame of the queue puts no copy on the link. -/
theorem Intact.forward (intact : link.Intact) (j : String) {sending : Sending} {after : Link}
    (small : ∀ publication ∈ link.queue.head?, publication.Fits)
    (result : link.forward sending = some after) :
    after.Intact ∧ after.carried cluster text j ≤ link.carried cluster text j := by
  rw [Link.forward] at result
  split at result
  · cases result
  · next publication rest queued =>
      have fits : publication.Fits := small publication (by rw [queued]; rfl)
      have rested : link.carried cluster text j =
          Link.carried cluster text j { link with queue := rest } +
            ↑(hears cluster text j publication) := by
        rw [Link.carried, Link.carried, queued, List.flatMap_cons, ← Multiset.coe_add]
        abel
      have connected : Link.Intact (Link.connect { link with queue := rest }) :=
        @Intact.connect { link with queue := rest } intact
      have written := @Intact.writeAll cluster text _ connected j publication fits
      rw [connect_carried, ← rested] at written
      dsimp only at result
      cases sending with
      | unreachable =>
          dsimp only at result
          split at result
          · cases result
          · cases result
            refine ⟨intact, ?_⟩
            rw [rested]
            exact Multiset.le_add_right _ _
      | sent =>
          cases result
          exact written
      | lost keep =>
          cases result
          have broken := @Intact.breaks cluster text _ written.1 j 0 keep
          exact ⟨broken.1, le_trans broken.2 written.2⟩

/-- A frame that is read leaves the link. -/
theorem Intact.read (intact : link.Intact) (j : String) {place : Nat} {after : Link}
    {got : Option Publication} (result : link.read place = some (after, got)) :
    after.Intact ∧ after.carried cluster text j +
      ↑(got.toList.flatMap (hears cluster text j)) ≤ link.carried cluster text j := by
  rw [Link.read] at result
  split at result
  · cases result
  · next conn found =>
      have whole := intact conn (List.mem_of_getElem? found)
      split at result
      · next publication rest read =>
          cases result
          rcases whole.reads read with ⟨new, arrives⟩
          refine ⟨intact.set place new, ?_⟩
          have moved :=
            @carried_set cluster text link j place conn found { conn with unread := rest }
          have taken : conn.carried cluster text j =
              Connection.carried cluster text j { conn with unread := rest } +
                ↑(hears cluster text j publication) := by
            rw [Connection.carried, arrives, List.flatMap_cons, ← Multiset.coe_add, add_comm]
            rfl
          rw [taken, ← add_assoc, add_right_comm] at moved
          rw [Option.toList_some, List.flatMap_singleton]
          exact le_of_eq (add_right_cancel moved)
      · cases result
      · cases result
        refine ⟨intact.set place intact_closed, ?_⟩
        have moved := @carried_set cluster text link j place conn found ⟨[], true⟩
        rw [Connection.carried_new, add_zero] at moved
        rw [← moved]
        exact add_le_add_right (Multiset.zero_le _) _

end Link

/-! ## Subscriptions -/

/-- The copies that wait in a subscription. -/
def awaited (text : MsgText) (j : String) (receiver : Receiver (List UInt8)) :
    Multiset (String × RaftMsg) :=
  receiver.pending.flatMap (decoded text j)

/-- The copies that wait for a driver. -/
def Host.carried (text : MsgText) (j : String) (host : Host) : Multiset (String × RaftMsg) :=
  awaited text j host.directed + awaited text j host.bcast

theorem awaited_send (j : String) (receiver : Receiver (List UInt8)) (payload : List UInt8) :
    awaited text j (receiver.send capacity payload) ≤
      awaited text j receiver + ↑(decoded text j payload) := by
  have sent := ((receiver.send_pending capacity payload).flatMap (decoded text j)).subperm
  rw [List.flatMap_append, List.flatMap_singleton] at sent
  rw [awaited, awaited, Multiset.coe_add]
  exact Multiset.coe_le.mpr sent

/-- What a driver hears of what a subscription gives. -/
def taken (text : MsgText) (j : String) (got : Except Nat (List UInt8)) :
    List (String × RaftMsg) :=
  got.toOption.toList.flatMap (decoded text j)

theorem awaited_recv (j : String) {receiver after : Receiver (List UInt8)}
    {got : Except Nat (List UInt8)} (received : receiver.recv = some (got, after)) :
    awaited text j after + ↑(taken text j got) = awaited text j receiver := by
  cases got with
  | error lost =>
      rw [awaited, awaited, Receiver.recv_error received]
      exact add_zero _
  | ok payload =>
      rw [awaited, awaited, Receiver.recv_ok received, List.flatMap_cons,
        ← Multiset.coe_add, add_comm]
      congr 2
      exact List.flatMap_singleton _ _

@[simp] theorem Host.publish_node (host : Host) (j : String) (publication : Publication) :
    (host.publish cluster j publication).node = host.node := by
  rw [Host.publish]
  split <;> split <;> rfl

@[simp] theorem Host.publish_panicked (host : Host) (j : String) (publication : Publication) :
    (host.publish cluster j publication).panicked = host.panicked := by
  rw [Host.publish]
  split <;> split <;> rfl

theorem Host.publish_carried (host : Host) (j : String) (publication : Publication) :
    (host.publish cluster j publication).carried text j ≤
      host.carried text j + ↑(hears cluster text j publication) := by
  have part : ∀ (p : Prop) [Decidable p] (receiver : Receiver (List UInt8)),
      awaited text j (if p then receiver.send capacity publication.payload else receiver) ≤
        awaited text j receiver + ↑(if p then decoded text j publication.payload else []) := by
    intro p _ receiver
    split
    · exact awaited_send j receiver publication.payload
    · exact Multiset.le_add_right _ _
  have directed : (host.publish cluster j publication).directed =
      if publication.topic = topicFor cluster j then
        host.directed.send capacity publication.payload else host.directed := by
    rw [Host.publish]
    split <;> split <;> rfl
  have bcast : (host.publish cluster j publication).bcast =
      if publication.topic = topicBcast cluster then
        host.bcast.send capacity publication.payload else host.bcast := by
    rw [Host.publish]
    split <;> split <;> rfl
  rw [Host.carried, Host.carried, directed, bcast, hears, ← Multiset.coe_add,
    add_add_add_comm]
  exact add_le_add (part _ _) (part _ _)

/-! ## All copies in transit -/

section Wires

variable (c cluster text)

/-- The copies that are in transit to the members of a cluster. -/
def Wires.carried (w : Wires) : Multiset (String × RaftMsg) :=
  ∑ i ∈ c.members.toFinset, (w.host i).carried text i +
    ∑ p ∈ c.members.toFinset ×ˢ c.members.toFinset, (w.link p).carried cluster text p.2

end Wires

variable {w : Wires}

theorem setHost_carried {i : String} (member : i ∈ c.members) {host : Host}
    {more : Multiset (String × RaftMsg)}
    (grows : host.carried text i ≤ (w.host i).carried text i + more) :
    (w.setHost i host).carried c cluster text ≤ w.carried c cluster text + more := by
  have bound := sum_update_le c.members.toFinset (fun i host => Host.carried text i host) w.host
    (List.mem_toFinset.mpr member) grows
  rw [Wires.carried, Wires.carried, add_right_comm]
  exact add_le_add_left bound _

theorem setHost_takes {i : String} (member : i ∈ c.members) {host : Host}
    {taken : Multiset (String × RaftMsg)}
    (loses : host.carried text i + taken ≤ (w.host i).carried text i) :
    (w.setHost i host).carried c cluster text + taken ≤ w.carried c cluster text := by
  have bound := sum_update_take c.members.toFinset (fun i host => Host.carried text i host) w.host
    (List.mem_toFinset.mpr member) loses
  rw [Wires.carried, Wires.carried, add_right_comm]
  exact add_le_add_left bound _

theorem mem_pairs {i j : String} (linked : Wires.Linked c i j) :
    (i, j) ∈ c.members.toFinset ×ˢ c.members.toFinset :=
  Finset.mem_product.mpr ⟨List.mem_toFinset.mpr linked.1,
    List.mem_toFinset.mpr ((c.mem_peers i linked.1 j).mp linked.2).1⟩

theorem setLink_carried {i j : String} (linked : Wires.Linked c i j) {link : Link}
    {more : Multiset (String × RaftMsg)}
    (grows : link.carried cluster text j ≤ (w.link (i, j)).carried cluster text j + more) :
    (w.setLink i j link).carried c cluster text ≤ w.carried c cluster text + more := by
  have bound := sum_update_le (c.members.toFinset ×ˢ c.members.toFinset)
    (fun p link => Link.carried cluster text p.2 link) w.link (mem_pairs linked) grows
  rw [Wires.carried, Wires.carried, add_assoc]
  exact add_le_add_right bound _

theorem setLink_takes {i j : String} (linked : Wires.Linked c i j) {link : Link}
    {taken : Multiset (String × RaftMsg)}
    (loses : link.carried cluster text j + taken ≤ (w.link (i, j)).carried cluster text j) :
    (w.setLink i j link).carried c cluster text + taken ≤ w.carried c cluster text := by
  have bound := sum_update_take (c.members.toFinset ×ˢ c.members.toFinset)
    (fun p link => Link.carried cluster text p.2 link) w.link (mem_pairs linked) loses
  rw [Wires.carried, Wires.carried, add_assoc]
  exact add_le_add_right bound _

/-! ## Publications -/

/-- What does not change when something is published. -/
structure Wires.Quiet (before after : Wires) : Prop where
  node : ∀ i, (after.host i).node = (before.host i).node
  panicked : ∀ i, (after.host i).panicked = (before.host i).panicked
  connections : ∀ p, (after.link p).connections = (before.link p).connections

theorem Wires.Quiet.refl (w : Wires) : Wires.Quiet w w :=
  ⟨fun _ => rfl, fun _ => rfl, fun _ => rfl⟩

theorem Wires.Quiet.trans {w w' w'' : Wires} (first : Wires.Quiet w w')
    (second : Wires.Quiet w' w'') :
    Wires.Quiet w w'' :=
  ⟨fun i => (second.node i).trans (first.node i),
    fun i => (second.panicked i).trans (first.panicked i),
    fun p => (second.connections p).trans (first.connections p)⟩

theorem quiet_setHost {i : String} {host : Host} (node : host.node = (w.host i).node)
    (panicked : host.panicked = (w.host i).panicked) : Wires.Quiet w (w.setHost i host) where
  node k := by
    by_cases same : k = i
    · rw [same, Wires.setHost_self, node]
    · rw [Wires.setHost_ne w same]
  panicked k := by
    by_cases same : k = i
    · rw [same, Wires.setHost_self, panicked]
    · rw [Wires.setHost_ne w same]
  connections _ := rfl

theorem quiet_trySend (i p : String) (publication : Publication) :
    Wires.Quiet w (w.setLink i p ((w.link (i, p)).trySend publication)) where
  node _ := rfl
  panicked _ := rfl
  connections q := by
    by_cases same : q = (i, p)
    · rw [same, Wires.setLink_self, Link.trySend]
      split <;> rfl
    · rw [Wires.setLink_ne w same]

/-- Frames for some peers. -/
theorem trySendAll_carried {i : String} (member : i ∈ c.members) {peers : List String}
    (sub : ∀ p ∈ peers, p ∈ c.peers i) (publication : Publication) (w : Wires) :
    let after := peers.foldl (fun w p => w.setLink i p ((w.link (i, p)).trySend publication)) w
    Wires.Quiet w after ∧ after.carried c cluster text ≤ w.carried c cluster text +
      ↑(peers.flatMap fun p => hears cluster text p publication) := by
  induction peers generalizing w with
  | nil => exact ⟨.refl w, Multiset.le_add_right _ _⟩
  | cons p peers inductionHypothesis =>
      rcases List.forall_mem_cons.mp sub with ⟨isPeer, rest⟩
      have first := @setLink_carried c cluster text w i p ⟨member, isPeer⟩ _ _
        (Link.trySend_carried p publication)
      rcases inductionHypothesis rest (w.setLink i p ((w.link (i, p)).trySend publication)) with
        ⟨quiet, later⟩
      refine ⟨(quiet_trySend i p publication).trans quiet, le_trans later ?_⟩
      rw [List.flatMap_cons, ← Multiset.coe_add, ← add_assoc]
      exact add_le_add_left first _

/-- A publication is heard by every member once, at the most. -/
theorem publish_carried {i : String} (member : i ∈ c.members) (publication : Publication) :
    Wires.Quiet w (w.publish c cluster i publication) ∧
      (w.publish c cluster i publication).carried c cluster text ≤ w.carried c cluster text +
        ↑(c.members.flatMap fun p => hears cluster text p publication) := by
  have own := @setHost_carried c cluster text w i member _ _
    (@Host.publish_carried cluster text (w.host i) i publication)
  rcases @trySendAll_carried c cluster text i member _ (fun _ isPeer => isPeer) publication
    (w.setHost i ((w.host i).publish cluster i publication)) with ⟨quiet, others⟩
  refine ⟨(quiet_setHost (Host.publish_node _ _ _) (Host.publish_panicked _ _ _)).trans quiet,
    ?_⟩
  have all : (i :: c.peers i).Perm c.members := by
    refine (List.perm_ext_iff_of_nodup ?_ c.nodup).mpr fun p => ?_
    · refine List.nodup_cons.mpr ⟨fun self_ => ?_, c.peers_nodup i member⟩
      exact ((c.mem_peers i member i).mp self_).2 rfl
    · rw [List.mem_cons, c.mem_peers i member]
      by_cases same : p = i
      · exact iff_of_true (Or.inl same) (same ▸ member)
      · exact ⟨fun either => either.elim (fun equal => absurd equal same) And.left,
          fun isMember => Or.inr ⟨isMember, same⟩⟩
  have heard :=
    Multiset.coe_eq_coe.mpr (all.flatMap_right fun p => hears cluster text p publication)
  rw [← heard, List.flatMap_cons, ← Multiset.coe_add, ← add_assoc]
  exact le_trans others (add_le_add_left own _)

/-! ## Envelopes -/

/-- A message that has been printed is parsed again. -/
def MsgText.RoundTrips (text : MsgText) : Prop :=
  ∀ msg, text.fromSlice (text.toVec msg) = some msg

theorem topicFor_inj {a b : String} : topicFor cluster a = topicFor cluster b ↔ a = b := by
  rw [topicFor, topicFor]
  exact String.append_right_inj _

/-- The topic of the cluster is the one that a node with that name would have. -/
theorem topicBcast_eq : topicBcast cluster = topicFor cluster "bcast" := by
  rw [topicBcast, topicFor, @String.append_assoc ("raft." ++ cluster)]
  rfl

theorem flatMap_of_nodup {α : Type} {l : List String} (nodup : l.Nodup) (q : String)
    (f : String → α) :
    (l.flatMap fun p => if q = p then [f p] else []) = if q ∈ l then [f q] else [] := by
  induction l with
  | nil => rfl
  | cons p l inductionHypothesis =>
      rcases List.nodup_cons.mp nodup with ⟨fresh, rest⟩
      rw [List.flatMap_cons, inductionHypothesis rest]
      by_cases same : q = p
      · subst same
        rw [if_pos rfl, if_neg fresh, if_pos List.mem_cons_self, List.append_nil]
      · rw [if_neg same, List.nil_append]
        simp only [List.mem_cons, same, false_or]

/-- The copies of an envelope are heard by nobody else. -/
theorem heard_le (roundTrips : text.RoundTrips) (named : "bcast" ∉ c.members)
    {envelope : Envelope} (inside : ∀ p, envelope.dest = some p → p ∈ c.members) :
    (c.members.flatMap fun p => hears cluster text p (Wires.publication cluster text envelope)) =
      c.copies envelope := by
  rcases envelope with ⟨dest, msg⟩
  have payload : ∀ j, decoded text j (text.toVec msg) = [(j, msg)] := by
    intro j
    rw [decoded, roundTrips]
    rfl
  cases dest with
  | none =>
      have each : ∀ p ∈ c.members,
          hears cluster text p (Wires.publication cluster text ⟨none, msg⟩) = [(p, msg)] := by
        intro p member
        have other : ¬ topicBcast cluster = topicFor cluster p := by
          rw [topicBcast_eq, topicFor_inj]
          rintro rfl
          exact named member
        rw [hears, Wires.publication, if_neg other, if_pos rfl, payload]
        rfl
      rw [List.flatMap_congr each, Membership.copies, List.map_eq_flatMap]
  | some q =>
      have isMember := inside q rfl
      have other : ¬ topicFor cluster q = topicBcast cluster := by
        rw [topicBcast_eq, topicFor_inj]
        rintro rfl
        exact named isMember
      have each : ∀ p ∈ c.members,
          hears cluster text p (Wires.publication cluster text ⟨some q, msg⟩) =
            if q = p then [(p, msg)] else [] := by
        intro p _
        rw [hears, Wires.publication, if_neg other, List.append_nil, payload]
        simp only [topicFor_inj]
      rw [List.flatMap_congr each, flatMap_of_nodup c.nodup, if_pos isMember, Membership.copies]

/-- Publishing envelopes puts at most their copies in transit. -/
theorem send_carried (roundTrips : text.RoundTrips) (named : "bcast" ∉ c.members) {i : String}
    (member : i ∈ c.members) {envelopes : List Envelope}
    (inside : ∀ envelope ∈ envelopes, ∀ p, envelope.dest = some p → p ∈ c.members) :
    Wires.Quiet w (w.send c cluster text i envelopes) ∧
      (w.send c cluster text i envelopes).carried c cluster text ≤
        w.carried c cluster text + ↑(envelopes.flatMap c.copies) := by
  induction envelopes generalizing w with
  | nil => exact ⟨.refl w, Multiset.le_add_right _ _⟩
  | cons envelope envelopes inductionHypothesis =>
      rcases List.forall_mem_cons.mp inside with ⟨first, rest⟩
      rcases @publish_carried c cluster text w i member
        (Wires.publication cluster text envelope) with ⟨quiet, one⟩
      rw [heard_le roundTrips named first] at one
      rcases @inductionHypothesis (w.publish c cluster i (Wires.publication cluster text envelope))
        rest with ⟨quiet', others⟩
      refine ⟨quiet.trans quiet', le_trans others ?_⟩
      rw [List.flatMap_cons, ← Multiset.coe_add, ← add_assoc]
      exact add_le_add_left one _

/-! ## The simulation -/

/-- The cluster holds the nodes of the drivers, and every copy in transit is in flight. -/
structure Wires.Abstracts (c : Membership) (cluster : String) (text : MsgText) (w : Wires)
    (s : Net) : Prop where
  node : ∀ i, s.node i = (w.host i).node
  stopped : ∀ i, i ∈ s.stopped ↔ (w.host i).panicked = true
  carried : w.carried c cluster text ≤ ↑s.flight
  intact : ∀ p, (w.link p).Intact

variable {s : Net}

theorem Wires.Abstracts.quiet (abstracts : w.Abstracts c cluster text s) {w' : Wires}
    (quiet : Wires.Quiet w w') {flight : List (String × RaftMsg)}
    (carried : w'.carried c cluster text ≤ ↑flight) :
    w'.Abstracts c cluster text { s with flight := flight } where
  node i := (abstracts.node i).trans (quiet.node i).symm
  stopped i := by
    rw [quiet.panicked i]
    exact abstracts.stopped i
  carried := carried
  intact p conn member := abstracts.intact p conn (quiet.connections p ▸ member)

/-- A driver that handles something does what the member of the cluster does. -/
theorem Wires.Abstracts.act (roundTrips : text.RoundTrips) (named : "bcast" ∉ c.members)
    (abstracts : w.Abstracts c cluster text s) {i : String} (member : i ∈ c.members)
    {result : Option (RaftNode × List Envelope)}
    (inside : ∀ n out, result = some (n, out) → ∀ envelope ∈ out,
      ∀ p, envelope.dest = some p → p ∈ c.members) :
    (w.act c cluster text i result).Abstracts c cluster text (s.act c i result) := by
  cases result with
  | none =>
      rw [Wires.act, Net.act]
      refine
        { node := fun k => (abstracts.node k).trans ?_
          stopped := fun k => ?_
          carried := ?_
          intact := abstracts.intact }
      · by_cases same : k = i
        · rw [same, Wires.setHost_self]
        · rw [Wires.setHost_ne w same]
      · rw [List.mem_cons]
        by_cases same : k = i
        · rw [same, Wires.setHost_self]
          exact iff_of_true (Or.inl rfl) rfl
        · rw [Wires.setHost_ne w same, ← abstracts.stopped k]
          exact or_iff_right same
      · have kept := @setHost_carried c cluster text w i member
          { w.host i with panicked := true } 0 (Multiset.le_add_right _ _)
        rw [add_zero] at kept
        exact le_trans kept abstracts.carried
  | some result =>
      rcases result with ⟨n, out⟩
      rw [Wires.act, Net.act]
      have kept := @setHost_carried c cluster text w i member
        { w.host i with node := n } 0 (Multiset.le_add_right _ _)
      rw [add_zero] at kept
      rcases @send_carried c cluster text (w.setHost i { w.host i with node := n }) roundTrips named
        i member out (inside n out rfl) with ⟨quiet, sent⟩
      have moved : (w.setHost i { w.host i with node := n }).Abstracts c cluster text
          { s with node := Function.update s.node i n } := by
        refine
          { node := fun k => ?_
            stopped := fun k => ?_
            carried := le_trans kept abstracts.carried
            intact := abstracts.intact }
        · by_cases same : k = i
          · rw [same, Wires.setHost_self]
            exact Function.update_self _ _ _
          · rw [Wires.setHost_ne w same]
            exact (Function.update_of_ne same _ _).trans (abstracts.node k)
        · by_cases same : k = i
          · rw [same, Wires.setHost_self]
            exact abstracts.stopped i
          · rw [Wires.setHost_ne w same]
            exact abstracts.stopped k
      refine moved.quiet quiet (le_trans sent ?_)
      rw [← Multiset.coe_add]
      exact add_le_add_left (le_trans kept abstracts.carried) _

theorem Wires.Abstracts.runs (abstracts : w.Abstracts c cluster text s) {i : String}
    (runs : w.Runs c i) : s.Runs c i :=
  ⟨runs.1, fun stopped => by
    rw [abstracts.stopped, runs.2] at stopped
    cases stopped⟩

theorem peers_of_reachable (reachable : c.system.Reachable s) {i : String}
    (member : i ∈ c.members) : (s.node i).peers = c.peers i := by
  rcases coupled_of_reachable reachable with ⟨h, coupled⟩
  exact (coupled.nodes i member).peers

/-- A driver that has skipped something. -/
theorem Wires.Abstracts.idle (roundTrips : text.RoundTrips) (named : "bcast" ∉ c.members)
    (abstracts : w.Abstracts c cluster text s) {i : String}
    (member : i ∈ c.members) {taken : Wires} (quiet : Wires.Quiet w taken)
    (less : taken.carried c cluster text ≤ w.carried c cluster text) :
    (taken.act c cluster text i (some ((w.host i).node, []))).Abstracts c cluster text s := by
  have same : Net.act c s i (some ((w.host i).node, [])) = s := by
    rw [Net.act, ← abstracts.node i, Function.update_eq_self, List.flatMap_nil, List.append_nil]
  rw [← same]
  apply Wires.Abstracts.act roundTrips named
    (abstracts.quiet quiet (le_trans less abstracts.carried)) member
  intro n out result envelope sent
  cases result
  exact absurd sent List.not_mem_nil

/-- A driver that has taken something from a subscription: the copy was in flight, or there was
nothing that it could read. -/
theorem Wires.Abstracts.receives (roundTrips : text.RoundTrips) (named : "bcast" ∉ c.members)
    (abstracts : w.Abstracts c cluster text s) (reachable : c.system.Reachable s) {i : String}
    (runs : w.Runs c i) {host : Host} (node : host.node = (w.host i).node)
    (panicked : host.panicked = (w.host i).panicked) {got : Except Nat (List UInt8)}
    (loses : host.carried text i + ↑(taken text i got) = (w.host i).carried text i) :
    ∃ s', c.system.Reaches s s' ∧
      ((w.setHost i host).act c cluster text i
        (Host.decodeStep text (w.host i).node got)).Abstracts c cluster text s' := by
  have quiet := @quiet_setHost w i host node panicked
  have lost := @setHost_takes c cluster text w i runs.1 host _ (le_of_eq loses)
  have less := le_trans (Multiset.le_add_right _ _) lost
  cases got with
  | error gap => exact ⟨s, .refl _ _, abstracts.idle roundTrips named runs.1 quiet less⟩
  | ok payload =>
      rw [Host.decodeStep]
      cases parsed : text.fromSlice payload with
      | none => exact ⟨s, .refl _ _, abstracts.idle roundTrips named runs.1 quiet less⟩
      | some msg =>
          have copy : taken text i (.ok payload) = [(i, msg)] := by
            rw [taken, Except.toOption, Option.toList_some, List.flatMap_singleton, decoded, parsed]
            rfl
          rw [copy] at lost
          have isFlight : (w.setHost i host).carried c cluster text + {(i, msg)} ≤ ↑s.flight :=
            le_trans lost abstracts.carried
          have member : (i, msg) ∈ s.flight := Multiset.mem_of_le isFlight
            (Multiset.mem_add.mpr (Or.inr (Multiset.mem_singleton_self _)))
          rcases List.getElem?_of_mem member with ⟨position, found⟩
          have rest : ({(i, msg)} : Multiset (String × RaftMsg)) +
              ↑(s.flight.eraseIdx position) = ↑s.flight := by
            rcases List.getElem?_eq_some_iff.mp found with ⟨inside, isCopy⟩
            rw [Multiset.singleton_add, Multiset.cons_coe, ← isCopy]
            exact Multiset.coe_eq_coe.mpr (List.getElem_cons_eraseIdx_perm inside)
          have left_ :
              (w.setHost i host).carried c cluster text ≤ ↑(s.flight.eraseIdx position) := by
            rw [← rest, add_comm] at isFlight
            exact le_of_add_le_add_left isFlight
          have step : s.step c (.deliver position) =
              some ({ s with flight := s.flight.eraseIdx position }.act c i
                ((s.node i).decodeStep msg)) := by
            rw [Net.step, found]
            exact if_pos (abstracts.runs runs)
          refine ⟨_, .single (.deliver position) step, ?_⟩
          rw [abstracts.node i]
          refine Wires.Abstracts.act roundTrips named (abstracts.quiet quiet left_) runs.1
            fun n out result envelope sent p dest => ?_
          have addressed := decodeStep_addressed result envelope sent
          rw [← abstracts.node i] at addressed
          refine addressed.inside runs.1 (peers_of_reachable reachable runs.1) ?_ dest
          intro q isOrigin
          rw [List.mem_singleton.mp isOrigin]
          exact known_of_reachable reachable _ member

theorem Wires.Abstracts.setLink (abstracts : w.Abstracts c cluster text s) {i j : String}
    (linked : Wires.Linked c i j) {link : Link} (intact : link.Intact)
    (less : link.carried cluster text j ≤ (w.link (i, j)).carried cluster text j) :
    (w.setLink i j link).Abstracts c cluster text s := by
  have kept := @setLink_carried c cluster text w i j linked link 0 (by rw [add_zero]; exact less)
  rw [add_zero] at kept
  refine
    { node := abstracts.node
      stopped := abstracts.stopped
      carried := le_trans kept abstracts.carried
      intact := fun p => ?_ }
  by_cases same : p = (i, j)
  · rw [same, Wires.setLink_self]
    exact intact
  · rw [Wires.setLink_ne w same]
    exact abstracts.intact p

/-- Every signal of the drivers is matched by at most one event of the cluster. -/
theorem Wires.Abstracts.step (roundTrips : text.RoundTrips) (named : "bcast" ∉ c.members)
    (abstracts : w.Abstracts c cluster text s) (reachable : c.system.Reachable s)
    {signal : Signal} (small : w.Small signal) {w' : Wires}
    (step : w.step c cluster text signal = some w') :
    ∃ s', c.system.Reaches s s' ∧ w'.Abstracts c cluster text s' := by
  cases signal with
  | tick i =>
      rw [Wires.step] at step
      split at step
      · next runs =>
          cases step
          have ticks : s.step c (.tick i) = some (s.act c i (s.node i).tick) :=
            if_pos (abstracts.runs runs)
          refine ⟨_, .single (.tick i) ticks, ?_⟩
          rw [abstracts.node i]
          refine abstracts.act roundTrips named runs.1 fun n out result envelope sent p dest => ?_
          have addressed := @tick_addressed _ [] _ _ result envelope sent
          rw [← abstracts.node i] at addressed
          exact addressed.inside runs.1 (peers_of_reachable reachable runs.1)
            (fun _ none_ => absurd none_ List.not_mem_nil) dest
      · cases step
  | propose i data =>
      rw [Wires.step] at step
      split at step
      · next runs =>
          cases step
          have proposes : s.step c (.propose i data) = some (s.act c i
              (((s.node i).propose data).map fun result => (result.1, Net.sent result.2))) :=
            if_pos (abstracts.runs runs)
          refine ⟨_, .single (.propose i data) proposes, ?_⟩
          rw [abstracts.node i]
          refine abstracts.act roundTrips named runs.1 fun n out result envelope sent p dest => ?_
          rcases Option.map_eq_some_iff.mp result with ⟨answer, proposed, pair⟩
          cases pair
          have addressed := @propose_addressed _ [] _ _ _ proposed envelope sent
          rw [← abstracts.node i] at addressed
          exact addressed.inside runs.1 (peers_of_reachable reachable runs.1)
            (fun _ none_ => absurd none_ List.not_mem_nil) dest
      · cases step
  | directed i =>
      rw [Wires.step] at step
      split at step
      · next runs =>
          rcases Option.map_eq_some_iff.mp step with ⟨⟨got, receiver⟩, received, rfl⟩
          refine @Wires.Abstracts.receives c cluster text w s roundTrips named abstracts reachable i
            runs { w.host i with directed := receiver } rfl rfl got ?_
          rw [Host.carried, Host.carried, add_right_comm, awaited_recv i received]
      · cases step
  | bcast i =>
      rw [Wires.step] at step
      split at step
      · next runs =>
          rcases Option.map_eq_some_iff.mp step with ⟨⟨got, receiver⟩, received, rfl⟩
          refine @Wires.Abstracts.receives c cluster text w s roundTrips named abstracts reachable i
            runs { w.host i with bcast := receiver } rfl rfl got ?_
          rw [Host.carried, Host.carried, add_assoc, awaited_recv i received]
      · cases step
  | forward i j sending =>
      rw [Wires.step] at step
      split at step
      · next linked =>
          rcases Option.map_eq_some_iff.mp step with ⟨link, forwarded, rfl⟩
          rcases (abstracts.intact (i, j)).forward j small forwarded with ⟨intact, less⟩
          exact ⟨s, .refl _ _, abstracts.setLink linked intact less⟩
      · cases step
  | breaks i j place keep =>
      rw [Wires.step] at step
      split at step
      · next linked =>
          cases step
          rcases (abstracts.intact (i, j)).breaks j place keep with ⟨intact, less⟩
          exact ⟨s, .refl _ _, abstracts.setLink linked intact less⟩
      · cases step
  | read i j place =>
      rw [Wires.step] at step
      split at step
      · next linked =>
          rcases Option.map_eq_some_iff.mp step with ⟨⟨link, got⟩, result, rfl⟩
          have isMember := ((c.mem_peers i linked.1 j).mp linked.2).1
          rcases (abstracts.intact (i, j)).read j result with ⟨intact, less⟩
          have moved := abstracts.setLink linked intact (le_trans (Multiset.le_add_right _ _) less)
          cases got with
          | none => exact ⟨s, .refl _ _, moved⟩
          | some publication =>
              rw [Option.toList_some, List.flatMap_singleton] at less
              have taken := @setLink_takes c cluster text w i j linked link _ less
              have heard := @setHost_carried c cluster text (w.setLink i j link) j isMember _ _
                (@Host.publish_carried cluster text (w.host j) j publication)
              exact ⟨s, .refl _ _, moved.quiet (quiet_setHost (Host.publish_node _ _ _)
                (Host.publish_panicked _ _ _))
                  (le_trans heard (le_trans taken abstracts.carried))⟩
      · cases step

/-! ## Runs -/

/-- Runs of the drivers in which no frame has a field above the cap. -/
def Membership.smallDrivers (c : Membership) (cluster : String) (text : MsgText) :
    TransitionSystem Wires Signal :=
  (c.drivers cluster text).restrict Wires.Small

theorem abstracts_start : (Wires.start c).Abstracts c cluster text c.start := by
  refine
    { node := fun _ => rfl
      stopped := fun _ => iff_of_false List.not_mem_nil Bool.false_ne_true
      carried := ?_
      intact := fun _ conn member => absurd member List.not_mem_nil }
  have hosts : ∀ i ∈ c.members.toFinset, ((Wires.start c).host i).carried text i = 0 :=
    fun _ _ => rfl
  have links : ∀ p ∈ c.members.toFinset ×ˢ c.members.toFinset,
      ((Wires.start c).link p).carried cluster text p.2 = 0 :=
    fun _ _ => rfl
  rw [Wires.carried, Finset.sum_eq_zero hosts, Finset.sum_eq_zero links]
  exact Multiset.zero_le _

/-- A run of the drivers is a run of the cluster. -/
theorem Wires.Abstracts.reaches (roundTrips : text.RoundTrips) (named : "bcast" ∉ c.members)
    (abstracts : w.Abstracts c cluster text s) (reachable : c.system.Reachable s) {w' : Wires}
    (run : (c.smallDrivers cluster text).Reaches w w') :
    ∃ s', c.system.Reaches s s' ∧ w'.Abstracts c cluster text s' := by
  have matched : ∀ before signal after abstract,
      c.system.Reachable abstract ∧ before.Abstracts c cluster text abstract →
      (c.smallDrivers cluster text).step before signal after →
      ∃ abstract', c.system.Reaches abstract abstract' ∧
        c.system.Reachable abstract' ∧ after.Abstracts c cluster text abstract' := by
    rintro before signal after abstract ⟨⟨start, initial, path⟩, related⟩ ⟨small, step⟩
    rcases related.step roundTrips named ⟨start, initial, path⟩ small step with
      ⟨next, more, done⟩
    exact ⟨next, more, ⟨start, initial, path.trans more⟩, done⟩
  rcases @TransitionSystem.Reaches.simulate _ _ _ _ _ c.system
    (fun w s => c.system.Reachable s ∧ w.Abstracts c cluster text s) matched _ _ _
    ⟨reachable, abstracts⟩ run with ⟨s', path, _, related⟩
  exact ⟨s', path, related⟩

theorem abstracts_of_reachable (roundTrips : text.RoundTrips) (named : "bcast" ∉ c.members)
    (reachable : (c.smallDrivers cluster text).Reachable w) :
    ∃ s, c.system.Reachable s ∧ w.Abstracts c cluster text s := by
  rcases reachable with ⟨start, initial, path⟩
  have isStart : start = Wires.start c := initial
  subst isStart
  rcases abstracts_start.reaches roundTrips named ⟨_, rfl, .refl _ _⟩ path with
    ⟨s, first, before⟩
  exact ⟨s, ⟨_, rfl, first⟩, before⟩

end Cluster
end Sigil
