import Mathlib.Data.List.AList
import Sigil.Library.Replication

namespace Sigil
namespace Cluster

/-!
# The Raft state machine of one node

`RaftNode` has no clock and no socket: time arrives as `tick`, messages arrive through
`step`, and both return the envelopes to deliver.  The definitions below are the
functions of the node in the order in which it calls them.

Counters are natural numbers.  Where all messages come from nodes of the cluster, a term is at
most the number of elections, and a log index at most that of the proposals, so that no run of
fewer than 2^64 calls can tell them from the machine integers.  A message from elsewhere can carry
any number; for a node that takes such messages the sums that can wrap are wrapped in
`RaftNode.callInWords`.  The hash of the identifier in `RaftNode.new` always wraps.

Two operations index the log without a check: `broadcastAppends`, and the reading of
`committed`.  Where the index is out of range the code panics; the functions that can
panic return `none` there.
-/

open Library

/-- One replicated log entry: opaque catalog bytes stamped with a term. -/
structure LogEntry where
  term : Nat
  data : List UInt8
  deriving DecidableEq, Repr

instance : Stamped LogEntry where
  term := LogEntry.term

/-- Wire messages between Raft peers. -/
inductive RaftMsg where
  | requestVote (term : Nat) (candidate : String) (lastLogIndex lastLogTerm : Nat)
  | voteReply (term : Nat) (sender : String) (granted : Bool)
  | appendEntries (term : Nat) (leader : String) (prevIndex prevTerm : Nat)
      (entries : List LogEntry) (leaderCommit : Nat)
  | appendReply (term : Nat) (sender : String) (success : Bool) (matchIndex : Nat)
  deriving DecidableEq, Repr

/-- An outbound message: `dest = none` broadcasts to every peer. -/
structure Envelope where
  dest : Option String
  msg : RaftMsg
  deriving DecidableEq, Repr

/-- A hash map from peers to log indices. -/
abbrev PeerIndex := AList fun _ : String => Nat

/-- The role of a node with the data only that role has. -/
inductive RaftState where
  | follower
  | candidate (votes : Nat)
  | leader (nextIndex matchIndex : PeerIndex)
  deriving DecidableEq

/-- The Raft state machine for one node. -/
structure RaftNode where
  id : String
  peers : List String
  state : RaftState
  term : Nat
  votedFor : Option String
  log : List LogEntry
  commit : Nat
  leaderHint : Option String
  quietTicks : Nat
  electionAfter : Nat
  heartbeatEvery : Nat
  deriving DecidableEq

namespace RaftNode

/-- One round of the hash that spreads the election timeouts. -/
def mix (x : UInt64) (byte : UInt8) : UInt64 :=
  x * 0x100000001b3 + byte.toUInt64

/-- `peers` excludes `id`; the seed and the bytes of the identifier fix the election
timeout between 10 and 19 ticks. -/
def new (id : String) (peers : List String) (seed : UInt64) : RaftNode :=
  let x := (id.toList.flatMap String.utf8EncodeChar).foldl mix (seed ^^^ 0x5851f42d4c957f2d)
  { id := id
    peers := peers
    state := .follower
    term := 0
    votedFor := none
    log := []
    commit := 0
    leaderHint := none
    quietTicks := 0
    electionAfter := 10 + (x % 10).toNat
    heartbeatEvery := 3 }

def isLeader (n : RaftNode) : Bool :=
  match n.state with
  | .leader _ _ => true
  | _ => false

/-- The node we believe is leader: self, or the sender of valid appends. -/
def leaderHint? (n : RaftNode) : Option String :=
  if n.isLeader then some n.id else n.leaderHint

/-- Committed entries, in order; the slice panics when `commit` is past the log. -/
def committed (n : RaftNode) : Option (List LogEntry) :=
  if n.commit ≤ n.log.length then some (n.log.take n.commit) else none

def lastIndex (n : RaftNode) : Nat :=
  n.log.length

def lastTerm (n : RaftNode) : Nat :=
  (n.log.getLast?.map LogEntry.term).getD 0

/-- Votes or replicas needed: `peers.len().div_ceil(2) + 1`. -/
def majority (n : RaftNode) : Nat :=
  (n.peers.length + 1) / 2 + 1

def becomeFollower (n : RaftNode) (term : Nat) : RaftNode :=
  { n with term := term, state := .follower, votedFor := none, quietTicks := 0 }

/-- Term of the entry at a one-based index, zero before the first one; `none` is a
panic on an index past the log. -/
def prevTerm (n : RaftNode) (prevIndex : Nat) : Option Nat :=
  if prevIndex = 0 then some 0 else n.log[prevIndex - 1]?.map LogEntry.term

/-- The append for one peer, from the index it needs next.  Where the previous entry
exists, the slice of the entries after it does not panic. -/
def appendFor (n : RaftNode) (nextIndex : PeerIndex) (peer : String) : Option Envelope := do
  let next := (nextIndex.lookup peer).getD 1
  let prevIndex := next - 1
  let prevTerm ← n.prevTerm prevIndex
  return { dest := some peer
           msg := .appendEntries n.term n.id prevIndex prevTerm (n.log.drop prevIndex) n.commit }

/-- Per-peer `AppendEntries`; a heartbeat when there is nothing new. -/
def broadcastAppends (n : RaftNode) : Option (List Envelope) :=
  match n.state with
  | .leader nextIndex _ => n.peers.mapM (n.appendFor nextIndex)
  | _ => some []

def becomeLeader (n : RaftNode) : Option (RaftNode × List Envelope) := do
  let next := n.lastIndex + 1
  let n := { n with
    state := .leader (n.peers.map fun p => (⟨p, next⟩ : Sigma fun _ : String => Nat)).toAList
      (n.peers.map fun p => (⟨p, 0⟩ : Sigma fun _ : String => Nat)).toAList
    leaderHint := none
    quietTicks := 0 }
  let out ← n.broadcastAppends
  return (n, out)

def startElection (n : RaftNode) : Option (RaftNode × List Envelope) :=
  let n := { n with
    term := n.term + 1
    votedFor := some n.id
    state := .candidate 1
    quietTicks := 0 }
  -- single-node cluster: elected immediately
  if n.peers.isEmpty then n.becomeLeader
  else some (n, [{ dest := none, msg := .requestVote n.term n.id n.lastIndex n.lastTerm }])

/-- Advance logical time by one tick. -/
def tick (n : RaftNode) : Option (RaftNode × List Envelope) :=
  let n := { n with quietTicks := n.quietTicks + 1 }
  match n.state with
  | .leader _ _ =>
      if n.heartbeatEvery ≤ n.quietTicks then do
        let n := { n with quietTicks := 0 }
        let out ← n.broadcastAppends
        return (n, out)
      else some (n, [])
  | _ => if n.electionAfter ≤ n.quietTicks then n.startElection else some (n, [])

/-- Self plus every peer known to have the entry at `index`. -/
def replicas (matchIndex : PeerIndex) (index : Nat) : Nat :=
  1 + matchIndex.entries.countP fun entry => index ≤ entry.2

/-- Commit the highest index of the current term replicated on a majority; the loop
runs down from the last index to the one after `commit`. -/
def advanceCommit (n : RaftNode) : RaftNode :=
  match n.state with
  | .leader _ matchIndex =>
      let candidates := (List.range' (n.commit + 1) (n.lastIndex - n.commit)).reverse
      match candidates.find? fun index =>
          n.log[index - 1]?.map LogEntry.term = some n.term ∧
            n.majority ≤ replicas matchIndex index with
      | some index => { n with commit := index }
      | none => n
  | _ => n

/-- Leader: append an entry and replicate it; other nodes return an error and do not
change. -/
def propose (n : RaftNode) (data : List UInt8) :
    Option (RaftNode × Except String (List Envelope)) :=
  if n.isLeader then do
    let entry : LogEntry := { term := n.term, data := data }
    let n := { n with log := n.log ++ [entry] }.advanceCommit
    let out ← n.broadcastAppends
    return (n, .ok out)
  else
    some (n, .error ("not the leader (try " ++ n.leaderHint?.getD "unknown" ++ ")"))

def stepRequestVote (n : RaftNode) (term : Nat) (candidate : String)
    (lastLogIndex lastLogTerm : Nat) : RaftNode × List Envelope :=
  let n := if n.term < term then n.becomeFollower term else n
  let upToDate := n.lastTerm < lastLogTerm ∨
    (lastLogTerm = n.lastTerm ∧ n.lastIndex ≤ lastLogIndex)
  let voteAvailable := n.votedFor = none ∨ n.votedFor = some candidate
  let granted := decide (term = n.term ∧ upToDate ∧ voteAvailable)
  let n := if granted then { n with votedFor := some candidate, quietTicks := 0 } else n
  (n, [{ dest := some candidate, msg := .voteReply n.term n.id granted }])

def stepVoteReply (n : RaftNode) (term : Nat) (granted : Bool) :
    Option (RaftNode × List Envelope) :=
  if n.term < term then some (n.becomeFollower term, [])
  else match n.state with
    | .candidate votes =>
        if term = n.term ∧ granted = true then
          let n := { n with state := .candidate (votes + 1) }
          if n.majority ≤ votes + 1 then n.becomeLeader else some (n, [])
        else some (n, [])
    | _ => some (n, [])

/-- The consistency check on the entry before the new ones. -/
def consistent (n : RaftNode) (prevIndex prevTerm : Nat) : Bool :=
  prevIndex = 0 || n.log[prevIndex - 1]?.any fun entry => entry.term == prevTerm

/-- Cut the log at `prevIndex` and append the new entries; the leader's commit index is
taken over as far as the log reaches. -/
def takeOver (n : RaftNode) (prevIndex : Nat) (entries : List LogEntry)
    (leaderCommit : Nat) : RaftNode :=
  let n := { n with log := n.log.take prevIndex ++ entries }
  if n.commit < leaderCommit then { n with commit := min leaderCommit n.lastIndex } else n

def stepAppendEntries (n : RaftNode) (term : Nat) (leader : String) (prevIndex prevTerm : Nat)
    (entries : List LogEntry) (leaderCommit : Nat) : RaftNode × List Envelope :=
  let n := if n.term < term ∨ (term = n.term ∧ n.state ≠ .follower) then n.becomeFollower term
    else n
  if term < n.term then
    (n, [{ dest := some leader, msg := .appendReply n.term n.id false 0 }])
  else
    let n := { n with quietTicks := 0, leaderHint := some leader }
    if n.consistent prevIndex prevTerm then
      let n := n.takeOver prevIndex entries leaderCommit
      (n, [{ dest := some leader, msg := .appendReply n.term n.id true n.lastIndex }])
    else
      (n, [{ dest := some leader, msg := .appendReply n.term n.id false 0 }])

def stepAppendReply (n : RaftNode) (term : Nat) (sender : String) (success : Bool)
    (m : Nat) : RaftNode × List Envelope :=
  if n.term < term then (n.becomeFollower term, [])
  else match n.state with
    | .leader nextIndex matchIndex =>
        if success then
          let n := { n with
            state := .leader (nextIndex.insert sender (m + 1)) (matchIndex.insert sender m) }
          (n.advanceCommit, [])
        else
          -- back off by one and retry on the next append
          let next := max ((nextIndex.lookup sender).getD 1 - 1) 1
          ({ n with state := .leader (nextIndex.insert sender next) matchIndex }, [])
    | _ => (n, [])

/-- Handle one incoming message, returning replies to deliver. -/
def step (n : RaftNode) : RaftMsg → Option (RaftNode × List Envelope)
  | .requestVote term candidate lastLogIndex lastLogTerm =>
      some (n.stepRequestVote term candidate lastLogIndex lastLogTerm)
  | .voteReply term _ granted => n.stepVoteReply term granted
  | .appendEntries term leader prevIndex prevTerm entries leaderCommit =>
      some (n.stepAppendEntries term leader prevIndex prevTerm entries leaderCommit)
  | .appendReply term sender success m => some (n.stepAppendReply term sender success m)

/-- What the driver does with a decoded message: a node hears its own broadcasts, and a
candidate must not count or answer itself. -/
def decodeStep (n : RaftNode) (msg : RaftMsg) : Option (RaftNode × List Envelope) :=
  match msg with
  | .requestVote term candidate lastLogIndex lastLogTerm =>
      if candidate = n.id then some (n, [])
      else n.step (.requestVote term candidate lastLogIndex lastLogTerm)
  | msg => n.step msg

end RaftNode

end Cluster
end Sigil
