import Sigil.Cluster.Runs

namespace Sigil
namespace Cluster

/-!
# Where messages go

Every message names the node that has sent it, and a message goes to all, to a peer, or back to
the sender of the message that it answers.  So no message of a cluster leaves it.
-/

open Library

/-- The node that a message names as its sender. -/
def RaftMsg.origin : RaftMsg → String
  | .requestVote _ candidate _ _ => candidate
  | .voteReply _ sender _ => sender
  | .appendEntries _ leader _ _ _ _ => leader
  | .appendReply _ sender _ _ => sender

/-- The envelope comes from the node, and goes to a peer or to one of the `others`. -/
structure Addressed (n : RaftNode) (others : List String) (envelope : Envelope) : Prop where
  origin : envelope.msg.origin = n.id
  dest : ∀ p, envelope.dest = some p → p ∈ n.peers ∨ p ∈ others

variable {n : RaftNode} {others : List String}

theorem addressed_nil : ∀ envelope ∈ ([] : List Envelope), Addressed n others envelope :=
  fun _ member => absurd member List.not_mem_nil

theorem Addressed.congr {n' : RaftNode} {envelope : Envelope}
    (addressed : Addressed n' others envelope) (id : n'.id = n.id) (peers : n'.peers = n.peers) :
    Addressed n others envelope where
  origin := addressed.origin.trans id
  dest := by
    rw [← peers]
    exact addressed.dest

/-! ## The functions of a node -/

theorem broadcast_addressed {out : List Envelope} (sent : n.broadcastAppends = some out) :
    ∀ envelope ∈ out, Addressed n others envelope := by
  intro envelope member
  rcases mem_broadcastAppends sent member with ⟨peer, prevIndex, prevTerm, isPeer, _, rfl⟩
  exact ⟨rfl, fun p same => Or.inl (Option.some.inj same ▸ isPeer)⟩

theorem becomeLeader_addressed {n' : RaftNode} {out : List Envelope}
    (result : n.becomeLeader = some (n', out)) :
    ∀ envelope ∈ out, Addressed n others envelope := by
  rcases Option.bind_eq_some_iff.mp result with ⟨out', sent, pair⟩
  cases pair
  intro envelope member
  exact (broadcast_addressed sent envelope member).congr rfl rfl

theorem startElection_addressed {n' : RaftNode} {out : List Envelope}
    (result : n.startElection = some (n', out)) :
    ∀ envelope ∈ out, Addressed n others envelope := by
  rw [RaftNode.startElection] at result
  dsimp only at result
  split at result
  · intro envelope member
    exact (becomeLeader_addressed result envelope member).congr rfl rfl
  · cases result
    intro envelope member
    rw [List.mem_singleton.mp member]
    exact ⟨rfl, fun p impossible => by cases impossible⟩

theorem tick_addressed {n' : RaftNode} {out : List Envelope} (result : n.tick = some (n', out)) :
    ∀ envelope ∈ out, Addressed n others envelope := by
  cases leads : n.isLeader with
  | true =>
      rw [tick_of_leader leads] at result
      split at result
      · rcases Option.bind_eq_some_iff.mp result with ⟨out', sent, pair⟩
        cases pair
        intro envelope member
        exact (broadcast_addressed sent envelope member).congr rfl rfl
      · cases result
        exact addressed_nil
  | false =>
      rw [tick_of_not_leader leads] at result
      split at result
      · intro envelope member
        exact (startElection_addressed result envelope member).congr rfl rfl
      · cases result
        exact addressed_nil

theorem advanceCommit_same (n : RaftNode) :
    n.advanceCommit.id = n.id ∧ n.advanceCommit.peers = n.peers := by
  rw [RaftNode.advanceCommit]
  split
  · dsimp only
    split <;> exact ⟨rfl, rfl⟩
  · exact ⟨rfl, rfl⟩

theorem propose_addressed {data : List UInt8} {n' : RaftNode}
    {answer : Except String (List Envelope)} (result : n.propose data = some (n', answer)) :
    ∀ envelope ∈ Net.sent answer, Addressed n others envelope := by
  rw [RaftNode.propose] at result
  split at result
  · rcases Option.bind_eq_some_iff.mp result with ⟨out', sent, pair⟩
    cases pair
    intro envelope member
    have same := advanceCommit_same { n with log := n.log ++ [{ term := n.term, data := data }] }
    exact (broadcast_addressed sent envelope member).congr same.1 same.2
  · cases result
    exact addressed_nil

theorem addressed_answer {sender : String} {reply : RaftMsg} (origin : reply.origin = n.id) :
    ∀ envelope ∈ [({ dest := some sender, msg := reply } : Envelope)],
      Addressed n [sender] envelope := by
  intro envelope member
  rw [List.mem_singleton.mp member]
  exact ⟨origin, fun p same => Or.inr (List.mem_singleton.mpr (Option.some.inj same).symm)⟩

theorem stepRequestVote_addressed (term : Nat) (candidate : String)
    (lastLogIndex lastLogTerm : Nat) :
    ∀ envelope ∈ (n.stepRequestVote term candidate lastLogIndex lastLogTerm).2,
      Addressed n [candidate] envelope := by
  refine addressed_answer ?_
  dsimp only [RaftMsg.origin]
  split <;> split <;> rfl

theorem stepVoteReply_addressed {term : Nat} {granted : Bool} {n' : RaftNode} {out : List Envelope}
    (result : n.stepVoteReply term granted = some (n', out)) :
    ∀ envelope ∈ out, Addressed n others envelope := by
  rw [RaftNode.stepVoteReply] at result
  split at result
  · cases result
    exact addressed_nil
  · split at result
    · dsimp only at result
      split at result
      · split at result
        · intro envelope member
          exact (becomeLeader_addressed result envelope member).congr rfl rfl
        · cases result
          exact addressed_nil
      · cases result
        exact addressed_nil
    · cases result
      exact addressed_nil

theorem takeOver_id (prevIndex : Nat) (entries : List LogEntry) (leaderCommit : Nat) :
    (n.takeOver prevIndex entries leaderCommit).id = n.id := by
  rw [RaftNode.takeOver]
  dsimp only
  split <;> rfl

theorem stepAppendEntries_addressed (term : Nat) (leader : String) (prevIndex prevTerm : Nat)
    (entries : List LogEntry) (leaderCommit : Nat) :
    ∀ envelope ∈ (n.stepAppendEntries term leader prevIndex prevTerm entries leaderCommit).2,
      Addressed n [leader] envelope := by
  rw [RaftNode.stepAppendEntries]
  generalize fell : (if n.term < term ∨ (term = n.term ∧ n.state ≠ .follower) then
    n.becomeFollower term else n) = m
  have same : m.id = n.id := by
    rw [← fell]
    split <;> rfl
  dsimp only
  split
  · exact addressed_answer same
  · split
    · exact addressed_answer ((takeOver_id _ _ _).trans same)
    · exact addressed_answer same

theorem stepAppendReply_silent (term : Nat) (sender : String) (success : Bool) (m : Nat) :
    (n.stepAppendReply term sender success m).2 = [] := by
  rw [RaftNode.stepAppendReply]
  split
  · rfl
  · split
    · split <;> rfl
    · rfl

/-- An answer goes back to the sender of the message. -/
theorem decodeStep_addressed {msg : RaftMsg} {n' : RaftNode} {out : List Envelope}
    (result : n.decodeStep msg = some (n', out)) :
    ∀ envelope ∈ out, Addressed n [msg.origin] envelope := by
  cases msg with
  | requestVote term candidate lastLogIndex lastLogTerm =>
      rw [RaftNode.decodeStep] at result
      split at result
      · cases result
        exact addressed_nil
      · have same : _ = out := congrArg Prod.snd (Option.some.inj result)
        rw [← same]
        exact stepRequestVote_addressed term candidate lastLogIndex lastLogTerm
  | voteReply term sender granted => exact stepVoteReply_addressed result
  | appendEntries term leader prevIndex prevTerm entries leaderCommit =>
      have same : _ = out := congrArg Prod.snd (Option.some.inj result)
      rw [← same]
      exact stepAppendEntries_addressed term leader prevIndex prevTerm entries leaderCommit
  | appendReply term sender success m =>
      have same : _ = out := congrArg Prod.snd (Option.some.inj result)
      rw [← same]
      intro envelope member
      rw [stepAppendReply_silent] at member
      exact absurd member List.not_mem_nil

/-! ## A cluster -/

variable {c : Membership} {s : Net}

/-- What members send goes to members. -/
theorem Addressed.inside {envelope : Envelope} {i : String} (member : i ∈ c.members)
    (peers : n.peers = c.peers i) (known : ∀ p ∈ others, p ∈ c.members)
    (addressed : Addressed n others envelope) {p : String} (dest : envelope.dest = some p) :
    p ∈ c.members := by
  rcases addressed.dest p dest with isPeer | isOther
  · rw [peers] at isPeer
    exact ((c.mem_peers i member p).mp isPeer).1
  · exact known p isOther

/-- The messages in flight name members as their senders. -/
def Net.Known (c : Membership) (s : Net) : Prop :=
  ∀ copy ∈ s.flight, copy.2.origin ∈ c.members

theorem Net.Known.act (known : s.Known c) {i : String} (member : i ∈ c.members)
    {result : Option (RaftNode × List Envelope)}
    (origins : ∀ n out, result = some (n, out) → ∀ envelope ∈ out,
      envelope.msg.origin = i) :
    (s.act c i result).Known c := by
  cases result with
  | none => exact known
  | some result =>
      intro copy isCopy
      rcases List.mem_append.mp isCopy with old | new
      · exact known copy old
      · rcases List.mem_flatMap.mp new with ⟨envelope, sent, isOne⟩
        have origin := origins _ _ rfl envelope sent
        have same : copy.2 = envelope.msg := by
          rw [Membership.copies] at isOne
          split at isOne
          · rw [List.mem_singleton.mp isOne]
          · rcases List.mem_map.mp isOne with ⟨p, _, rfl⟩
            rfl
        rw [same, origin]
        exact member

theorem known_of_reachable (reachable : c.system.Reachable s) : s.Known c := by
  have both : s.Known c ∧ ∃ h, Coupled c False s h := by
    refine reachable.invariant (fun s => s.Known c ∧ ∃ h, Coupled c False s h)
      (fun s initial => ?_)
      (fun before event after holds step => ?_)
    · cases initial
      exact ⟨fun _ member => absurd member List.not_mem_nil, _, coupled_start c False⟩
    · rcases holds with ⟨known, h, coupled⟩
      rcases coupled.step (fun impossible => absurd impossible id) step with
        ⟨h', _, coupled', _⟩
      refine ⟨?_, h', coupled'⟩
      cases event with
      | tick i =>
          simp only [Membership.system, Net.step] at step
          split at step
          · next runs =>
              cases step
              refine known.act runs.1 fun n out result envelope sent => ?_
              rw [(@tick_addressed _ [] _ _ result envelope sent).origin]
              exact (coupled.nodes i runs.1).id
          · cases step
      | propose i data =>
          simp only [Membership.system, Net.step] at step
          split at step
          · next runs =>
              cases step
              refine known.act runs.1 fun n out result envelope sent => ?_
              rcases Option.map_eq_some_iff.mp result with ⟨answer, proposed, pair⟩
              cases pair
              rw [(@propose_addressed _ [] _ _ _ proposed envelope sent).origin]
              exact (coupled.nodes i runs.1).id
          · cases step
      | deliver position =>
          simp only [Membership.system, Net.step] at step
          split at step
          · next i msg found =>
              split at step
              · next runs =>
                  cases step
                  have rest :
                      ({ before with flight := before.flight.eraseIdx position } : Net).Known c :=
                    fun copy isCopy => known copy (List.mem_of_mem_eraseIdx isCopy)
                  refine rest.act runs.1 fun n out result envelope sent => ?_
                  rw [(decodeStep_addressed result envelope sent).origin]
                  exact (coupled.nodes i runs.1).id
              · cases step
          · cases step
  exact both.1

end Cluster
end Sigil
