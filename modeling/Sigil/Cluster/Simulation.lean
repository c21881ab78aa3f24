import Sigil.Cluster.Coupling
import Sigil.Library.Pointwise

namespace Sigil
namespace Cluster

/-!
# Every event of a cluster is matched by its history

Each function of the node is followed through once: what it may do to the node, the
steps of the history that match it, and why the messages it sends are true.  A handler
that first steps down is matched in two parts, because handling the message after
stepping down is the same computation.
-/

open Library Library.Replication

variable {c : Membership} {strict : Prop} {s : Net} {h : Hist}

/-! ## Majorities -/

theorem card_members {i : String} (member : i ∈ c.members) :
    c.members.toFinset.card = (c.peers i).length + 1 := by
  have peers : (c.peers i).toFinset = c.members.toFinset.erase i := by
    ext p
    simp only [List.mem_toFinset, Finset.mem_erase, c.mem_peers i member p]
    exact And.comm
  rw [← List.toFinset_card_of_nodup (c.peers_nodup i member), peers,
    Finset.card_erase_of_mem (List.mem_toFinset.mpr member)]
  exact (Nat.sub_add_cancel (Finset.card_pos.mpr ⟨i, List.mem_toFinset.mpr member⟩)).symm

/-- The code's majority is more than half of the members. -/
theorem quorum_of_majority {i : String} (member : i ∈ c.members) {n : RaftNode}
    (peers : n.peers = c.peers i) {nodes : Finset String} (subset : nodes ⊆ c.members.toFinset)
    (large : n.majority ≤ nodes.card) : (quorums c).quorum nodes := by
  refine ⟨subset, ?_⟩
  rw [card_members member, ← peers]
  rw [RaftNode.majority] at large
  omega

/-! ## Updates that add no ballot -/

/-- A node changes, copies leave and true copies that are no ballots join. -/
theorem Coupled.send (coupled : Coupled c strict s h) {h' : Hist} {i : String} {n : RaftNode}
    {rest new : List (String × RaftMsg)} (path : (histories c strict).Reaches h h')
    (alone : ActsAlone i h h') (agrees : Agrees c strict h' i n) (part : rest.Subperm s.flight)
    (truthful : ∀ copy, copy ∈ new → Truthful c strict h' copy) (noBallot : NoBallot new)
    (later : (s.node i).term ≤ n.term)
    (same : ∀ votes, n.state = .candidate votes →
      (s.node i).state = .candidate votes ∧ n.term = (s.node i).term)
    (commits : strict → (s.node i).log.take (s.node i).commit <+: n.log.take n.commit) :
    Matched c strict h s
      { s with node := Function.update s.node i n, flight := rest ++ new } := by
  apply coupled.update path alone agrees
  · intro copy member
    exact (List.mem_append.mp member).imp (fun old => part.subset old) (truthful copy)
  · apply coupled.ballots.fewer alone.toExtends _ later same
    intro term voter candidate
    rw [pending_append, noBallot.pending, Nat.add_zero]
    exact part.countP_le _
  · exact commits

/-- The same without a step of the history, for a node that looks the same to it. -/
theorem Coupled.reply (coupled : Coupled c strict s h) {i : String} {n : RaftNode}
    {rest new : List (String × RaftMsg)} (agrees : Agrees c strict h i n)
    (part : rest.Subperm s.flight) (truthful : ∀ copy, copy ∈ new → Truthful c strict h copy)
    (noBallot : NoBallot new) (term : n.term = (s.node i).term)
    (state : ∀ votes, n.state = .candidate votes → (s.node i).state = .candidate votes)
    (commits : strict → (s.node i).log.take (s.node i).commit <+: n.log.take n.commit) :
    Matched c strict h s
      { s with node := Function.update s.node i n, flight := rest ++ new } :=
  coupled.send (TransitionSystem.Reaches.refl _ _) (ActsAlone.refl i h) agrees part truthful
    noBallot (Nat.le_of_eq term.symm) (fun votes isCandidate => ⟨state votes isCandidate, term⟩)
    commits

theorem noBallot_nil : NoBallot [] := by
  intro copy member
  exact absurd member List.not_mem_nil

/-- A copy leaves and nothing else happens. -/
theorem Coupled.drop (coupled : Coupled c strict s h) {i : String} (member : i ∈ c.members)
    {rest : List (String × RaftMsg)} (part : rest.Subperm s.flight) :
    Matched c strict h s
      { s with node := Function.update s.node i (s.node i), flight := rest ++ [] } :=
  coupled.reply (coupled.nodes i member) part (fun _ none_ => absurd none_ List.not_mem_nil)
    noBallot_nil rfl (fun _ isCandidate => isCandidate) (fun _ => List.prefix_rfl)

/-! ## Stepping down -/

theorem Agrees.becomeFollower (valid : Valid (quorums c) h) {i : String} {n : RaftNode}
    (agrees : Agrees c strict h i n) {term : Nat} (later : n.term < term) :
    Agrees c strict (h.raise i term) i (n.becomeFollower term) := by
  have unvoted : ∀ vote, h.vote term i ≠ some vote := by
    intro vote voted
    have bound := valid.voteTerm voted
    rw [agrees.term] at bound
    omega
  refine
    { id := agrees.id
      peers := agrees.peers
      term := Function.update_self _ _ _
      log := agrees.log
      vote := ?_
      voter := fun _ voted => absurd voted (unvoted _)
      leads := ?_
      candidate := fun impossible => absurd impossible (by simp [RaftNode.becomeFollower])
      acked := fun impossible => absurd impossible (by simp [RaftNode.becomeFollower])
      commit := fun isStrict => ⟨(agrees.commit isStrict).1, ?_⟩ }
  · intro _ candidate
    simp only [RaftNode.becomeFollower, reduceCtorEq, false_iff, not_exists]
    exact fun log => unvoted _
  · simp only [RaftNode.isLeader, RaftNode.becomeFollower, Bool.false_eq_true, false_iff]
    intro leads
    have bound := valid.leaderTerm (h := h) leads
    rw [agrees.term] at bound
    exact absurd bound (Nat.not_le_of_lt later)
  · have settled := (agrees.commit isStrict).2.mono
      (ActsAlone.raise (agrees.term ▸ later) : ActsAlone i h (h.raise i term)).toExtends
    exact settled.later (Nat.le_of_lt later)

theorem Coupled.stepDown (coupled : Coupled c strict s h) {i : String} (member : i ∈ c.members)
    {term : Nat} (later : (s.node i).term < term) :
    Matched c strict h s
      { s with node := Function.update s.node i ((s.node i).becomeFollower term) } := by
  have agrees := coupled.nodes i member
  have later' : h.term i < term := agrees.term ▸ later
  have done : Matched c strict h s
      { s with node := Function.update s.node i ((s.node i).becomeFollower term),
               flight := s.flight ++ [] } := coupled.send
    (TransitionSystem.Reaches.single i (Step.raise h i term later'))
    (ActsAlone.raise later') (agrees.becomeFollower coupled.valid later) (List.Subperm.refl _)
    (fun _ none_ => absurd none_ List.not_mem_nil) noBallot_nil (Nat.le_of_lt later)
    (fun _ impossible => absurd impossible (by simp [RaftNode.becomeFollower]))
    (fun _ => List.prefix_rfl)
  rwa [List.append_nil] at done

/-! ## What a leader sends -/

/-- The appends of a leader carry its log from some index on. -/
theorem mem_broadcastAppends {n : RaftNode} {out : List Envelope}
    (sent : n.broadcastAppends = some out) {envelope : Envelope} (member : envelope ∈ out) :
    ∃ peer prevIndex prevTerm, peer ∈ n.peers ∧ n.prevTerm prevIndex = some prevTerm ∧
      envelope = { dest := some peer
                   msg := .appendEntries n.term n.id prevIndex prevTerm
                     (n.log.drop prevIndex) n.commit } := by
  cases state : n.state with
  | leader nextIndex matchIndex =>
      simp only [RaftNode.broadcastAppends, state] at sent
      rcases Library.Pointwise.exists_of_mapM sent member with ⟨peer, inPeers, found⟩
      rcases Option.bind_eq_some_iff.mp found with ⟨prevTerm, previous, built⟩
      exact ⟨peer, _, prevTerm, inPeers, previous, (Option.some.inj built).symm⟩
  | follower =>
      simp only [RaftNode.broadcastAppends, state, Option.some.injEq] at sent
      rw [← sent] at member
      exact absurd member List.not_mem_nil
  | candidate votes =>
      simp only [RaftNode.broadcastAppends, state, Option.some.injEq] at sent
      rw [← sent] at member
      exact absurd member List.not_mem_nil

theorem broadcast_truthful (valid : Valid (quorums c) h) {i : String} (inCluster : i ∈ c.members)
    {n : RaftNode} (agrees : Agrees c strict h i n) (leads : h.leader n.term = some i)
    {out : List Envelope} (sent : n.broadcastAppends = some out) :
    (∀ copy, copy ∈ out.flatMap c.copies → Truthful c strict h copy) ∧
      NoBallot (out.flatMap c.copies) := by
  have shape : ∀ copy, copy ∈ out.flatMap c.copies → ∃ peer prevIndex prevTerm,
      peer ∈ n.peers ∧ n.prevTerm prevIndex = some prevTerm ∧
        copy = (peer, .appendEntries n.term n.id prevIndex prevTerm
          (n.log.drop prevIndex) n.commit) := by
    intro copy member
    rcases List.mem_flatMap.mp member with ⟨envelope, inOut, inCopies⟩
    rcases mem_broadcastAppends sent inOut with
      ⟨peer, prevIndex, prevTerm, inPeers, previous, rfl⟩
    exact ⟨peer, prevIndex, prevTerm, inPeers, previous, List.mem_singleton.mp inCopies⟩
  have own : n.log = h.leaderLog n.term := by
    have ownTerm : h.leader (h.term i) = some i := agrees.term.symm ▸ leads
    have logs := valid.own ownTerm
    rwa [agrees.log, agrees.term] at logs
  constructor
  · intro copy member
    rcases shape copy member with ⟨peer, prevIndex, prevTerm, inPeers, previous, rfl⟩
    rw [agrees.peers, c.mem_peers i inCluster] at inPeers
    rw [agrees.id]
    refine ⟨leads, inPeers.2, n.log, own ▸ List.prefix_rfl, ?_, rfl, ?_, agrees.commit⟩
    · intro start voted
      rcases valid.start leads with ⟨start', rest, voted', equal, _⟩
      have pair := voted'.symm.trans voted
      simp only [Option.some.injEq, Prod.mk.injEq, true_and] at pair
      rw [own, equal, pair]
      exact List.prefix_append _ _
    · rw [RaftNode.prevTerm] at previous
      split at previous
      · next zero => exact Or.inl zero
      · rcases Option.map_eq_some_iff.mp previous with ⟨entry, found, equal⟩
        exact Or.inr ⟨entry, found, equal⟩
  · intro copy member term voter candidate
    rcases shape copy member with ⟨peer, prevIndex, prevTerm, _, _, rfl⟩
    rfl

/-! ## Elections -/

/-- A candidate with the votes of a majority has no rival in its term. -/
theorem Coupled.noRival (coupled : Coupled c strict s h) {i : String} (member : i ∈ c.members)
    {votes : Nat} (isCandidate : (s.node i).state = .candidate votes) {voters : Finset String}
    (quorum : (quorums c).quorum voters)
    (granted : ∀ voter, voter ∈ voters → voter ≠ i → Granted h (s.node i).term voter i) :
    h.leader (s.node i).term = none := by
  have agrees := coupled.nodes i member
  cases elected : h.leader (s.node i).term with
  | none => rfl
  | some leader =>
      have different : leader ≠ i := by
        rintro rfl
        have isLeader := agrees.leads.mpr elected
        simp only [RaftNode.isLeader, isCandidate, Bool.false_eq_true] at isLeader
      rcases coupled.valid.quorum elected with ⟨others, large, votedFor⟩
      rcases (quorums c).intersect voters others quorum large with ⟨node, inVoters, inOthers⟩
      rcases votedFor node inOthers with ⟨log, voted⟩
      by_cases self : node = i
      · subst self
        have first := agrees.voter elected voted
        rw [(agrees.candidate isCandidate).1, Option.some.injEq] at first
        exact absurd first.symm different
      · exact absurd ((granted node inVoters self).2 leader log elected voted).symm different

theorem lookup_map_toAList {peers : List String} {value : Nat} {p : String} {m : Nat}
    (found : AList.lookup p
      (peers.map fun q => (⟨q, value⟩ : Sigma fun _ : String => Nat)).toAList = some m) :
    p ∈ peers ∧ m = value := by
  rw [AList.lookup_to_alist] at found
  have inList := List.of_mem_dlookup found
  rcases List.mem_map.mp inList with ⟨q, inPeers, equal⟩
  cases equal
  exact ⟨inPeers, rfl⟩

/-- A candidate that has counted a majority becomes the leader of its term. -/
theorem Coupled.elect (coupled : Coupled c strict s h) {i : String} (member : i ∈ c.members)
    (votes : Nat) (isCandidate : (s.node i).state = .candidate votes)
    (enough : (s.node i).majority ≤ votes) {n : RaftNode} {out : List Envelope}
    (won : (s.node i).becomeLeader = some (n, out)) :
    Matched c strict h s
      { s with node := Function.update s.node i n,
               flight := s.flight ++ out.flatMap c.copies } := by
  have agrees := coupled.nodes i member
  rcases coupled.ballots.counted member isCandidate with ⟨voters, subset, own, card, facts⟩
  have quorum := quorum_of_majority member agrees.peers subset (card.symm ▸ enough)
  have granted := fun voter inVoters different => (facts voter inVoters different).2
  have open_ := coupled.noRival member isCandidate quorum granted
  have ownVote := (agrees.candidate isCandidate).2 open_
  have step : Step (quorums c) (Allowed strict) h i (h.elect i) := by
    apply Step.elect h i voters (agrees.term ▸ open_)
      (by rw [agrees.term, agrees.log]; exact ownVote)
      quorum
    intro voter inVoters
    rw [agrees.term]
    by_cases self : voter = i
    · subst self
      exact ⟨_, ownVote⟩
    · exact (granted voter inVoters self).1 open_
  have alone := step.actsAlone coupled.valid
  have leads : (h.elect i).leader (s.node i).term = some i := by
    simp only [History.elect, agrees.term, Function.update_self]
  rcases Option.bind_eq_some_iff.mp won with ⟨sent, broadcast, equal⟩
  rw [Option.pure_def, Option.some.injEq, Prod.mk.injEq] at equal
  rcases equal with ⟨rfl, rfl⟩
  have agrees' : Agrees c strict (h.elect i) i
      { s.node i with
        state := .leader
          ((s.node i).peers.map fun p =>
            (⟨p, (s.node i).lastIndex + 1⟩ : Sigma fun _ : String => Nat)).toAList
          ((s.node i).peers.map fun p => (⟨p, 0⟩ : Sigma fun _ : String => Nat)).toAList
        leaderHint := none
        quietTicks := 0 } := by
    refine
      { id := agrees.id
        peers := agrees.peers
        term := agrees.term
        log := agrees.log
        vote := fun impossible => absurd (leads.symm.trans impossible) (by simp)
        voter := ?_
        leads := ⟨fun _ => leads, fun _ => rfl⟩
        candidate := fun impossible => absurd impossible (by simp)
        acked := ?_
        commit := fun isStrict => ⟨(agrees.commit isStrict).1,
          (agrees.commit isStrict).2.mono alone.toExtends⟩ }
    · intro leader log isLeader _
      have same := leads.symm.trans isLeader
      rw [Option.some.injEq] at same
      exact same ▸ (agrees.candidate isCandidate).1
    · intro nextIndex matchIndex isLeader p m found
      simp only [RaftState.leader.injEq] at isLeader
      rw [← isLeader.2] at found
      rcases lookup_map_toAList found with ⟨inPeers, rfl⟩
      exact ⟨agrees.peers ▸ inPeers, fun _ => Nat.zero_le _⟩
  have messages := broadcast_truthful (coupled.valid.step step) member agrees' leads broadcast
  exact coupled.send (TransitionSystem.Reaches.single i step) alone agrees'
    (List.Subperm.refl _) messages.1 messages.2 (Nat.le_refl _)
    (fun _ impossible => absurd impossible (by simp)) (fun _ => List.prefix_rfl)

end Cluster
end Sigil
