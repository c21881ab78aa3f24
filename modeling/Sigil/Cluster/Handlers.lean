import Sigil.Cluster.Simulation

namespace Sigil
namespace Cluster

/-!
# The handlers of a node, matched by its history

One theorem per function that the driver calls.  The two places where the strict
coupling needs more than the code guarantees are the acceptance of an append, which must
not cut a log it agrees with, and the counting of an acknowledgement, which must belong
to the leader's own term.
-/

open Library Library.Replication

variable {c : Membership} {strict : Prop} {s : Net} {h : Hist}

/-! ## Time -/

/-- The copies of one vote request are one ballot for every member. -/
theorem pending_request (term lastLogIndex lastLogTerm : Nat) (i : String) (term' : Nat)
    (voter candidate : String) :
    pending (c.copies { dest := none, msg := .requestVote term i lastLogIndex lastLogTerm })
        term' voter candidate ≤ 1 ∧
      ((term' = term ∧ candidate = i) ∨
        pending (c.copies { dest := none, msg := .requestVote term i lastLogIndex lastLogTerm })
          term' voter candidate = 0) := by
  by_cases same : term' = term ∧ candidate = i
  · rcases same with ⟨rfl, rfl⟩
    refine ⟨?_, Or.inl ⟨rfl, rfl⟩⟩
    simp only [pending, Membership.copies, List.countP_map]
    calc c.members.countP _ ≤ c.members.count voter := by
          apply List.countP_mono_left
          intro p _ isBallot
          simp only [Function.comp_apply, ballot, and_true, decide_eq_true_eq] at isBallot
          exact beq_iff_eq.mpr isBallot
      _ ≤ 1 := List.nodup_iff_count_le_one.mp c.nodup voter
  · have zero : pending
        (c.copies { dest := none, msg := .requestVote term i lastLogIndex lastLogTerm })
        term' voter candidate = 0 := by
      apply List.countP_eq_zero.mpr
      intro copy member
      rcases List.mem_map.mp member with ⟨p, _, rfl⟩
      simp only [ballot, decide_eq_true_eq, not_and]
      intro _ first second
      exact same ⟨first.symm, second.symm⟩
    exact ⟨zero ▸ Nat.zero_le 1, Or.inr zero⟩

/-- The node as a candidate of the next term. -/
def campaign (n : RaftNode) : RaftNode :=
  { n with
    term := n.term + 1
    votedFor := some n.id
    state := .candidate 1
    quietTicks := 0 }

/-- What a candidate publishes. -/
def voteRequest (n : RaftNode) : Envelope :=
  { dest := none, msg := .requestVote n.term n.id n.lastIndex n.lastTerm }

/-- The node with another count of quiet ticks. -/
def waiting (n : RaftNode) (quietTicks : Nat) : RaftNode :=
  { n with quietTicks := quietTicks }

/-- Starting an election raises the term and, if the term has no leader yet, is a vote
for oneself. -/
theorem campaign_history (coupled : Coupled c strict s h) {i : String}
    (member : i ∈ c.members) : ∃ h', (histories c strict).Reaches h h' ∧ ActsAlone i h h' ∧
      Agrees c strict h' i (campaign (s.node i)) := by
  have agrees := coupled.nodes i member
  have valid := coupled.valid
  have later : h.term i < (s.node i).term + 1 := agrees.term ▸ Nat.lt_succ_self _
  let raised := h.raise i ((s.node i).term + 1)
  have raise : Step (quorums c) (Allowed strict) h i raised := Step.raise h i _ later
  have raisedAlone := raise.actsAlone valid
  have raisedTerm : raised.term i = (s.node i).term + 1 := Function.update_self _ _ _
  have unvoted : raised.vote ((s.node i).term + 1) i = none := by
    cases voted : h.vote ((s.node i).term + 1) i with
    | none => exact voted
    | some vote => exact absurd (valid.voteTerm voted) (Nat.not_le_of_lt later)
  have notLeader : h.leader ((s.node i).term + 1) ≠ some i :=
    fun leads => absurd (valid.leaderTerm leads) (Nat.not_le_of_lt later)
  cases elected : h.leader ((s.node i).term + 1) with
  | none =>
      have vote : Step (quorums c) (Allowed strict) raised i (raised.castVote i i) := by
        apply Step.vote raised i i
        · rw [raisedTerm]; exact elected
        · rw [raisedTerm]; exact unvoted
        · exact Or.inl rfl
      have alone := raisedAlone.trans (vote.actsAlone (valid.step raise))
      have voted : (raised.castVote i i).vote ((s.node i).term + 1) i =
          some (i, (s.node i).log) := by
        simp only [History.castVote, raisedTerm, History.record_self]
        rw [← agrees.log]
        rfl
      refine ⟨raised.castVote i i, (TransitionSystem.Reaches.single i raise).trans
        (TransitionSystem.Reaches.single i vote), alone, ?_⟩
      refine
        { id := agrees.id
          peers := agrees.peers
          term := raisedTerm
          log := agrees.log
          vote := ?_
          voter := fun leads => absurd (elected.symm.trans leads) (by simp)
          leads := ?_
          candidate := fun _ => ⟨congrArg some agrees.id, fun _ => voted⟩
          acked := fun impossible => absurd impossible (by simp [campaign])
          commit := fun isStrict => ⟨(agrees.commit isStrict).1,
            ((agrees.commit isStrict).2.mono alone.toExtends).later (Nat.le_succ _)⟩ }
      · intro _ candidate
        simp only [campaign, voted, agrees.id, Option.some.injEq, Prod.mk.injEq, exists_and_left,
          exists_eq', and_true]
      · simp only [RaftNode.isLeader, campaign, Bool.false_eq_true, false_iff]
        exact notLeader
  | some leader =>
      refine ⟨raised, TransitionSystem.Reaches.single i raise, raisedAlone, ?_⟩
      refine
        { id := agrees.id
          peers := agrees.peers
          term := raisedTerm
          log := agrees.log
          vote := fun impossible => absurd (elected.symm.trans impossible) (by simp)
          voter := fun _ voted => absurd (unvoted.symm.trans voted) (by simp)
          leads := ?_
          candidate := fun _ => ⟨congrArg some agrees.id,
            fun impossible => absurd (elected.symm.trans impossible) (by simp)⟩
          acked := fun impossible => absurd impossible (by simp [campaign])
          commit := fun isStrict => ⟨(agrees.commit isStrict).1,
            ((agrees.commit isStrict).2.mono raisedAlone.toExtends).later (Nat.le_succ _)⟩ }
      simp only [RaftNode.isLeader, campaign, Bool.false_eq_true, false_iff]
      exact notLeader

/-- A new candidate, with any part of the copies of its vote request in flight. -/
theorem Coupled.campaign (coupled : Coupled c strict s h) {i : String} (member : i ∈ c.members)
    {new : List (String × RaftMsg)}
    (part : new.Subperm (c.copies (voteRequest (campaign (s.node i))))) :
    Matched c strict h s
      { s with node := Function.update s.node i (campaign (s.node i)),
               flight := s.flight ++ new } := by
  have agrees := coupled.nodes i member
  rcases campaign_history coupled member with ⟨h', path, alone, agrees'⟩
  have fresh : ∀ {term voter candidate}, ¬ (term = (s.node i).term + 1 ∧ candidate = i) →
      pending new term voter candidate = 0 := by
    intro term voter candidate different
    have bound := part.countP_le (ballot term voter candidate)
    rcases (pending_request (c := c) ((s.node i).term + 1) (s.node i).lastIndex
      (s.node i).lastTerm (s.node i).id term voter candidate).2 with same | zero
    · exact absurd ⟨same.1, same.2.trans agrees.id⟩ different
    · exact Nat.le_zero.mp (bound.trans (Nat.le_of_eq zero))
  have atMost : ∀ {term voter candidate}, pending new term voter candidate ≤ 1 :=
    fun {term voter candidate} => (part.countP_le _).trans
      (pending_request _ _ _ _ term voter candidate).1
  apply coupled.update path alone agrees'
  · intro copy inFlight
    rcases List.mem_append.mp inFlight with old | fresh_
    · exact Or.inl old
    · right
      rcases List.mem_map.mp (part.subset fresh_) with ⟨p, _, rfl⟩
      refine ⟨agrees.id.symm ▸ member, fun open_ => ?_⟩
      refine ⟨(s.node i).log, ?_, rfl, rfl⟩
      have own : (Cluster.campaign (s.node i)).id = i := agrees.id
      rw [own]
      exact (agrees'.candidate rfl).2 open_
  · refine { once := ?_, future := ?_, counted := ?_ }
    · intro term voter candidate different
      show pending (s.flight ++ new) term voter candidate ≤ 1
      rw [pending_append]
      by_cases here : term = (s.node i).term + 1 ∧ candidate = i
      · rcases here with ⟨rfl, rfl⟩
        rw [coupled.ballots.future member different (Nat.lt_succ_self _), Nat.zero_add]
        exact atMost
      · rw [fresh here, Nat.add_zero]
        exact coupled.ballots.once different
    · intro term voter candidate inCluster different above
      show pending (s.flight ++ new) term voter candidate = 0
      by_cases self : candidate = i
      · subst self
        simp only [Function.update_self] at above
        have past : (s.node candidate).term + 1 < term := above
        rw [pending_append, coupled.ballots.future member different (by omega), fresh (by omega)]
      · simp only [Function.update_of_ne self] at above
        rw [pending_append, coupled.ballots.future inCluster different above,
          fresh (fun both => self both.2)]
    · intro j votes inCluster isCandidate
      by_cases self : j = i
      · subst self
        simp only [Function.update_self] at isCandidate ⊢
        simp only [Cluster.campaign, RaftState.candidate.injEq] at isCandidate
        refine ⟨{j}, Finset.singleton_subset_iff.mpr (List.mem_toFinset.mpr inCluster),
          Finset.mem_singleton_self j, isCandidate ▸ Finset.card_singleton j, ?_⟩
        intro voter inVoters different
        exact absurd (Finset.mem_singleton.mp inVoters) different
      · simp only [Function.update_of_ne self] at isCandidate ⊢
        rcases coupled.ballots.counted inCluster isCandidate with
          ⟨voters, subset, own, card, facts⟩
        refine ⟨voters, subset, own, card, ?_⟩
        intro voter inVoters different
        have fact := facts voter inVoters different
        rw [pending_append, fact.1, fresh (fun both => self both.2)]
        exact ⟨rfl, fact.2.mono alone.toExtends⟩
  · exact fun _ => List.prefix_rfl

theorem Coupled.startElection (coupled : Coupled c strict s h) {i : String}
    (member : i ∈ c.members) {n : RaftNode} {out : List Envelope}
    (started : (s.node i).startElection = some (n, out)) :
    Matched c strict h s
      { s with node := Function.update s.node i n,
               flight := s.flight ++ out.flatMap c.copies } := by
  have agrees := coupled.nodes i member
  change (if (s.node i).peers.isEmpty then (Cluster.campaign (s.node i)).becomeLeader
    else some (Cluster.campaign (s.node i), [voteRequest (Cluster.campaign (s.node i))])) =
      some (n, out) at started
  by_cases alone : (s.node i).peers.isEmpty = true
  · rw [if_pos alone] at started
    have first := coupled.campaign member (List.nil_subperm)
    rw [List.append_nil] at first
    refine first.trans fun h' coupled' => ?_
    have won := coupled'.elect member 1
      (by simp only [Function.update_self]; rfl)
      (by
        simp only [Function.update_self, RaftNode.majority, Cluster.campaign,
          List.isEmpty_iff.mp alone, List.length_nil]
        decide)
      (by simp only [Function.update_self]; exact started)
    simpa only [Function.update_idem] using won
  · rw [if_neg alone, Option.some.injEq, Prod.mk.injEq] at started
    rcases started with ⟨rfl, rfl⟩
    have whole := coupled.campaign member (List.Subperm.refl _)
    simpa only [List.flatMap_cons, List.flatMap_nil, List.append_nil] using whole

/-- A leader counts the quiet ticks up to a heartbeat. -/
theorem tick_of_leader {n : RaftNode} (leads : n.isLeader = true) : n.tick =
    if n.heartbeatEvery ≤ n.quietTicks + 1 then
      (waiting n 0).broadcastAppends.bind fun out => some (waiting n 0, out)
    else some (waiting n (n.quietTicks + 1), []) := by
  rcases n with ⟨id, peers, state, term, votedFor, log, commit, hint, quiet, after, every⟩
  cases state with
  | leader nextIndex matchIndex => rfl
  | follower => exact absurd leads Bool.false_ne_true
  | candidate votes => exact absurd leads Bool.false_ne_true

/-- The other nodes count them up to an election. -/
theorem tick_of_not_leader {n : RaftNode} (notLeader : n.isLeader = false) : n.tick =
    if n.electionAfter ≤ n.quietTicks + 1 then (waiting n (n.quietTicks + 1)).startElection
    else some (waiting n (n.quietTicks + 1), []) := by
  rcases n with ⟨id, peers, state, term, votedFor, log, commit, hint, quiet, after, every⟩
  cases state with
  | leader nextIndex matchIndex => exact absurd notLeader.symm Bool.false_ne_true
  | follower => rfl
  | candidate votes => rfl

theorem Coupled.waiting (coupled : Coupled c strict s h) {i : String} (member : i ∈ c.members)
    (quietTicks : Nat) : Matched c strict h s
      { s with node := Function.update s.node i (waiting (s.node i) quietTicks),
               flight := s.flight ++ [] } :=
  coupled.reply ((coupled.nodes i member).congr rfl rfl rfl rfl rfl rfl rfl)
    (List.Subperm.refl _) (fun _ none_ => absurd none_ List.not_mem_nil) noBallot_nil rfl
    (fun _ isCandidate => isCandidate) (fun _ => List.prefix_rfl)

theorem Coupled.tick (coupled : Coupled c strict s h) {i : String} (member : i ∈ c.members)
    {n : RaftNode} {out : List Envelope} (ticked : (s.node i).tick = some (n, out)) :
    Matched c strict h s
      { s with node := Function.update s.node i n,
               flight := s.flight ++ out.flatMap c.copies } := by
  have agrees := coupled.nodes i member
  have first := coupled.waiting member ((s.node i).quietTicks + 1)
  cases isLeader : (s.node i).isLeader with
  | true =>
      rw [tick_of_leader isLeader] at ticked
      split at ticked
      · rcases Option.bind_eq_some_iff.mp ticked with ⟨sent, broadcast, equal⟩
        rw [Option.some.injEq, Prod.mk.injEq] at equal
        rcases equal with ⟨rfl, rfl⟩
        have agrees' : Agrees c strict h i (Cluster.waiting (s.node i) 0) :=
          agrees.congr rfl rfl rfl rfl rfl rfl rfl
        have messages := broadcast_truthful coupled.valid member agrees'
          (agrees.leads.mp isLeader) broadcast
        exact coupled.reply agrees' (List.Subperm.refl _) messages.1 messages.2 rfl
          (fun _ isCandidate => isCandidate) (fun _ => List.prefix_rfl)
      · rw [Option.some.injEq, Prod.mk.injEq] at ticked
        rcases ticked with ⟨rfl, rfl⟩
        exact first
  | false =>
      rw [tick_of_not_leader isLeader] at ticked
      split at ticked
      · rw [List.append_nil] at first
        refine first.trans fun h' coupled' => ?_
        have begins : (Function.update s.node i
            (Cluster.waiting (s.node i) ((s.node i).quietTicks + 1)) i).startElection =
              some (n, out) := by
          rw [Function.update_self]
          exact ticked
        have started := coupled'.startElection member begins
        simpa only [Function.update_idem] using started
      · rw [Option.some.injEq, Prod.mk.injEq] at ticked
        rcases ticked with ⟨rfl, rfl⟩
        exact first

end Cluster
end Sigil
