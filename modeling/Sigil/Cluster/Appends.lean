import Sigil.Cluster.Votes

namespace Sigil
namespace Cluster

/-!
# Appends and acknowledgements

In strict runs a commit index always stands for a decided prefix.  A leader raises it to
an entry of its own term that a majority has stored, and a follower takes it from an
append, whose entries reach that far.  Both need what the code does not check: that an
accepted append does not cut a log it agrees with, and that a counted acknowledgement
belongs to the leader's own term.
-/

open Library Library.Replication

variable {c : Membership} {strict : Prop} {s : Net} {h : Hist}

/-! ## Raising the commit index -/

/-- The node with another commit index. -/
def committing (n : RaftNode) (index : Nat) : RaftNode :=
  { n with commit := index }

/-- Either the commit index stays, or it rises to an entry of the leader's term that a
majority is known to have. -/
theorem advanceCommit_cases (n : RaftNode) : n.advanceCommit = n ∨
    ∃ nextIndex matchIndex index entry, n.state = .leader nextIndex matchIndex ∧
      n.commit < index ∧ index ≤ n.log.length ∧ n.log[index - 1]? = some entry ∧
      entry.term = n.term ∧ n.majority ≤ RaftNode.replicas matchIndex index ∧
      n.advanceCommit = committing n index := by
  cases state : n.state with
  | follower => exact Or.inl (by simp only [RaftNode.advanceCommit, state])
  | candidate votes => exact Or.inl (by simp only [RaftNode.advanceCommit, state])
  | leader nextIndex matchIndex =>
      simp only [RaftNode.advanceCommit, state]
      split
      · next index found =>
          have member := List.mem_of_find?_eq_some found
          have holds := List.find?_some found
          simp only [List.mem_reverse, List.mem_range'_1, RaftNode.lastIndex] at member
          simp only [decide_eq_true_eq, Option.map_eq_some_iff] at holds
          rcases holds with ⟨⟨entry, entryFound, entryTerm⟩, enough⟩
          exact Or.inr ⟨nextIndex, matchIndex, index, entry, rfl, by omega, by omega, entryFound,
            entryTerm, enough, by simp only [committing, state]⟩
      · exact Or.inl rfl

/-- The replicas counted for an index: the leader and the peers known to have it. -/
def replicaSet (i : String) (matchIndex : PeerIndex) (index : Nat) : Finset String :=
  insert i ((matchIndex.entries.filter fun entry => index ≤ entry.2).map Sigma.fst).toFinset

theorem mem_replicaSet {i : String} {matchIndex : PeerIndex} {index : Nat} {p : String}
    (member : p ∈ replicaSet i matchIndex index) :
    p = i ∨ ∃ m, matchIndex.lookup p = some m ∧ index ≤ m := by
  rcases Finset.mem_insert.mp member with equal | inList
  · exact Or.inl equal
  · rcases List.mem_map.mp (List.mem_toFinset.mp inList) with ⟨⟨q, m⟩, inFilter, rfl⟩
    rw [List.mem_filter, decide_eq_true_eq] at inFilter
    exact Or.inr ⟨m, AList.mem_lookup_iff.mpr inFilter.1, inFilter.2⟩

/-- The keys of a map are distinct, so counting its entries counts nodes. -/
theorem card_replicaSet {i : String} {matchIndex : PeerIndex} {index : Nat}
    (outside : ∀ m, matchIndex.lookup i ≠ some m) :
    (replicaSet i matchIndex index).card = RaftNode.replicas matchIndex index := by
  have distinct :
      ((matchIndex.entries.filter fun entry => index ≤ entry.2).map Sigma.fst).Nodup :=
    List.Nodup.sublist (List.filter_sublist.map _) matchIndex.nodupKeys
  rw [replicaSet, Finset.card_insert_of_notMem, List.toFinset_card_of_nodup distinct,
    List.length_map, RaftNode.replicas, List.countP_eq_length_filter, Nat.add_comm]
  intro member
  rcases List.mem_map.mp (List.mem_toFinset.mp member) with ⟨⟨q, m⟩, inFilter, rfl⟩
  exact outside m (AList.mem_lookup_iff.mpr (List.mem_filter.mp inFilter).1)

/-- What a leader commits is decided in its term. -/
theorem decided_of_majority (valid : Valid (quorums c) h) {i : String} (member : i ∈ c.members)
    {n : RaftNode} (agrees : Agrees c strict h i n) (isStrict : strict)
    {nextIndex matchIndex : PeerIndex} (state : n.state = .leader nextIndex matchIndex)
    {index : Nat} {entry : LogEntry} (positive : 0 < index) (bound : index ≤ n.log.length)
    (found : n.log[index - 1]? = some entry) (stamp : entry.term = n.term)
    (enough : n.majority ≤ RaftNode.replicas matchIndex index) :
    Decided (quorums c) h n.term (n.log.take index) := by
  have leads : h.leader n.term = some i :=
    agrees.leads.mp (by simp only [RaftNode.isLeader, state])
  have own : n.log = h.leaderLog n.term := by
    have ownTerm : h.leader (h.term i) = some i := agrees.term.symm ▸ leads
    have logs := valid.own ownTerm
    rwa [agrees.log, agrees.term] at logs
  have outside : ∀ m, matchIndex.lookup i ≠ some m := by
    intro m found
    exact ((c.mem_peers i member i).mp (agrees.acked state found).1).2 rfl
  have subset : replicaSet i matchIndex index ⊆ c.members.toFinset := by
    intro p inSet
    rcases mem_replicaSet inSet with rfl | ⟨m, known, _⟩
    · exact List.mem_toFinset.mpr member
    · exact List.mem_toFinset.mpr ((c.mem_peers i member p).mp (agrees.acked state known).1).1
  refine ⟨index,
    ⟨⟨index - 1, entry, by omega, own ▸ found, stamp⟩, replicaSet i matchIndex index, ?_,
      ?_⟩, own ▸ List.prefix_rfl⟩
  · exact quorum_of_majority member agrees.peers subset ((card_replicaSet outside).symm ▸ enough)
  · intro p inSet
    rcases mem_replicaSet inSet with rfl | ⟨m, known, reached⟩
    · rw [valid.ackOwn leads, ← own]
      exact bound
    · exact reached.trans ((agrees.acked state known).2 isStrict)

theorem Agrees.advanceCommit (valid : Valid (quorums c) h) {i : String} (member : i ∈ c.members)
    {n : RaftNode} (agrees : Agrees c strict h i n) : Agrees c strict h i n.advanceCommit := by
  rcases advanceCommit_cases n with
    same | ⟨nextIndex, matchIndex, index, entry, state, above, bound, found,
      stamp, enough, raised⟩
  · rw [same]
    exact agrees
  · rw [raised]
    exact
      { id := agrees.id
        peers := agrees.peers
        term := agrees.term
        log := agrees.log
        vote := agrees.vote
        voter := agrees.voter
        leads := agrees.leads
        candidate := agrees.candidate
        acked := agrees.acked
        commit := fun isStrict => ⟨bound, Or.inr ⟨n.term, Nat.le_refl _,
          decided_of_majority valid member agrees isStrict state (Nat.zero_lt_of_lt above) bound
            found stamp enough⟩⟩ }

/-- Advancing changes the commit index only, and only upwards. -/
theorem advanceCommit_frame (n : RaftNode) :
    ∃ index, n.commit ≤ index ∧ n.advanceCommit = committing n index := by
  rcases advanceCommit_cases n with same | ⟨_, _, index, _, _, above, _, _, _, _, raised⟩
  · exact ⟨n.commit, Nat.le_refl _, same⟩
  · exact ⟨index, Nat.le_of_lt above, raised⟩

theorem advanceCommit_commits (n : RaftNode) :
    n.log.take n.commit <+: n.advanceCommit.log.take n.advanceCommit.commit := by
  rcases advanceCommit_frame n with ⟨index, above, raised⟩
  rw [raised]
  exact List.take_prefix_take_left above

/-! ## Proposals -/

/-- The node with one more entry. -/
def appended (n : RaftNode) (entry : LogEntry) : RaftNode :=
  { n with log := n.log ++ [entry] }

theorem Agrees.appended (valid : Valid (quorums c) h) {i : String} {n : RaftNode}
    (agrees : Agrees c strict h i n) (isLeader : n.isLeader = true) (entry : LogEntry) :
    Agrees c strict (h.append i entry) i (appended n entry) := by
  have leads : h.leader n.term = some i := agrees.leads.mp isLeader
  have alone : ActsAlone i h (h.append i entry) :=
    ActsAlone.append valid (agrees.term.symm ▸ leads)
  refine
    { id := agrees.id
      peers := agrees.peers
      term := agrees.term
      log := ?_
      vote := fun open_ => absurd (leads.symm.trans open_) (by simp)
      voter := agrees.voter
      leads := agrees.leads
      candidate := ?_
      acked := ?_
      commit := ?_ }
  · simp only [History.append, Function.update_self, agrees.log, Cluster.appended]
  · intro votes isCandidate
    have state : n.state = .candidate votes := isCandidate
    exact absurd isLeader (by simp [RaftNode.isLeader, state])
  · intro nextIndex matchIndex state p m found
    have fact := agrees.acked state found
    exact ⟨fact.1, fun isStrict => (fact.2 isStrict).trans (alone.ack _ _)⟩
  · intro isStrict
    rcases agrees.commit isStrict with ⟨bound, settled⟩
    refine ⟨?_, ?_⟩
    · simp only [Cluster.appended, List.length_append]
      omega
    · simp only [Cluster.appended, List.take_append_of_le_length bound]
      exact settled.mono alone.toExtends

theorem propose_of_leader {n : RaftNode} (isLeader : n.isLeader = true) (data : List UInt8) :
    n.propose data =
      (appended n { term := n.term, data := data }).advanceCommit.broadcastAppends.bind fun out =>
        some ((appended n { term := n.term, data := data }).advanceCommit, .ok out) := by
  rw [RaftNode.propose, if_pos isLeader]
  rfl

theorem propose_of_not_leader {n : RaftNode} (notLeader : ¬ n.isLeader = true)
    (data : List UInt8) : ∃ text, n.propose data = some (n, .error text) :=
  ⟨_, by rw [RaftNode.propose, if_neg notLeader]⟩

theorem Coupled.propose (coupled : Coupled c strict s h) {i : String} (member : i ∈ c.members)
    {data : List UInt8} {n : RaftNode} {result : Except String (List Envelope)}
    (proposed : (s.node i).propose data = some (n, result)) :
    Matched c strict h s
      { s with node := Function.update s.node i n,
               flight := s.flight ++ (Net.sent result).flatMap c.copies } := by
  have agrees := coupled.nodes i member
  have valid := coupled.valid
  by_cases isLeader : (s.node i).isLeader = true
  · rw [propose_of_leader isLeader] at proposed
    rcases Option.bind_eq_some_iff.mp proposed with ⟨out, broadcast, equal⟩
    rw [Option.some.injEq, Prod.mk.injEq] at equal
    rcases equal with ⟨rfl, rfl⟩
    have leads : h.leader (s.node i).term = some i := agrees.leads.mp isLeader
    generalize newEntry : LogEntry.mk (s.node i).term data = entry at broadcast ⊢
    have stamp : entry.term = (s.node i).term := newEntry ▸ rfl
    have step : Step (quorums c) (Allowed strict) h i (h.append i entry) :=
      Step.append h i entry (agrees.term.symm ▸ leads) (stamp.trans agrees.term.symm)
    have alone := step.actsAlone valid
    have valid' := valid.step step
    have agrees' := (agrees.appended valid isLeader entry).advanceCommit valid' member
    rcases advanceCommit_frame (Cluster.appended (s.node i) entry) with ⟨index, _, raised⟩
    have leads' : (h.append i entry).leader
        (Cluster.appended (s.node i) entry).advanceCommit.term = some i := by
      rw [raised]
      exact leads
    have messages := broadcast_truthful valid' member agrees' leads' broadcast
    have notCandidate : ∀ votes,
        (Cluster.appended (s.node i) entry).advanceCommit.state ≠ .candidate votes := by
      intro votes isCandidate
      rw [raised] at isCandidate
      have state : (s.node i).state = .candidate votes := isCandidate
      exact absurd isLeader (by simp [RaftNode.isLeader, state])
    refine coupled.send (TransitionSystem.Reaches.single i step) alone agrees'
      (List.Subperm.refl _) messages.1 messages.2 ?_
      (fun votes isCandidate => absurd isCandidate (notCandidate votes)) (fun isStrict => ?_)
    · rw [raised]
      exact Nat.le_refl (s.node i).term
    · refine List.IsPrefix.trans ?_ (advanceCommit_commits _)
      exact List.IsPrefix.take (List.prefix_append _ _) _
  · rcases propose_of_not_leader isLeader data with ⟨text, refused⟩
    rw [refused, Option.some.injEq, Prod.mk.injEq] at proposed
    rcases proposed with ⟨rfl, rfl⟩
    exact coupled.drop member (List.Subperm.refl _)

/-! ## Accepting an append -/

/-- The node that has just heard from its leader. -/
def heard (n : RaftNode) (leader : String) : RaftNode :=
  { n with quietTicks := 0, leaderHint := some leader }

/-- The follower with the entries and the commit index of its leader. -/
def follows (n : RaftNode) (leader : String) (prevIndex : Nat) (entries : List LogEntry)
    (leaderCommit : Nat) : RaftNode :=
  (heard n leader).takeOver prevIndex entries leaderCommit

/-- The rest of `stepAppendEntries`, after the node has stepped down where it must. -/
def answerAppend (n : RaftNode) (term : Nat) (leader : String) (prevIndex prevTerm : Nat)
    (entries : List LogEntry) (leaderCommit : Nat) : RaftNode × List Envelope :=
  if term < n.term then
    (n, [{ dest := some leader, msg := .appendReply n.term n.id false 0 }])
  else if n.consistent prevIndex prevTerm then
    (follows n leader prevIndex entries leaderCommit,
      [{ dest := some leader, msg := .appendReply n.term n.id true
          (n.log.take prevIndex ++ entries).length }])
  else
    (heard n leader, [{ dest := some leader, msg := .appendReply n.term n.id false 0 }])

theorem follows_eq (n : RaftNode) (leader : String) (prevIndex : Nat) (entries : List LogEntry)
    (leaderCommit : Nat) : follows n leader prevIndex entries leaderCommit =
      { n with
        quietTicks := 0
        leaderHint := some leader
        log := n.log.take prevIndex ++ entries
        commit := if n.commit < leaderCommit then
          min leaderCommit (n.log.take prevIndex ++ entries).length else n.commit } := by
  by_cases above : n.commit < leaderCommit
  · have raised : (heard n leader).commit < leaderCommit := above
    simp only [follows, RaftNode.takeOver, if_pos raised, if_pos above]
    rfl
  · have kept : ¬ (heard n leader).commit < leaderCommit := above
    simp only [follows, RaftNode.takeOver, if_neg kept, if_neg above]
    rfl

theorem stepAppendEntries_eq (n : RaftNode) (term : Nat) (leader : String)
    (prevIndex prevTerm : Nat) (entries : List LogEntry) (leaderCommit : Nat) :
    n.stepAppendEntries term leader prevIndex prevTerm entries leaderCommit =
      answerAppend (if n.term < term ∨ (term = n.term ∧ n.state ≠ .follower)
        then n.becomeFollower term else n) term leader prevIndex prevTerm entries leaderCommit := by
  simp only [RaftNode.stepAppendEntries]
  generalize (if n.term < term ∨ (term = n.term ∧ n.state ≠ .follower)
    then n.becomeFollower term else n) = m
  change (if term < m.term then _ else if m.consistent prevIndex prevTerm then
    (follows m leader prevIndex entries leaderCommit, [Envelope.mk (some leader)
      (.appendReply (follows m leader prevIndex entries leaderCommit).term
        (follows m leader prevIndex entries leaderCommit).id true
        (follows m leader prevIndex entries leaderCommit).log.length)]) else _) = _
  rw [follows_eq]
  simp only [answerAppend, follows_eq]
  rfl

/-- An append that passes the check of the previous entry leaves the follower with the
state of the leader's log that the append was cut from. -/
theorem take_append_eq_carried {i : String} {n : RaftNode} (valid : Valid (quorums c) h)
    (agrees : Agrees c strict h i n) {term : Nat} {leader : String} {prevIndex prevTerm : Nat}
    {entries : List LogEntry} {leaderCommit : Nat} {log : List LogEntry}
    (carries : Carries c strict h term leader prevIndex prevTerm entries leaderCommit log)
    (consistent : n.consistent prevIndex prevTerm = true) :
    n.log.take prevIndex ++ entries = log := by
  rcases carries with ⟨part, _, rest, previous, _⟩
  rw [rest]
  suffices same : n.log.take prevIndex = log.take prevIndex by
    rw [same, List.take_append_drop]
  rcases previous with zero | ⟨entry, found, stamp⟩
  · rw [zero, List.take_zero, List.take_zero]
  · by_cases zero : prevIndex = 0
    · rw [zero, List.take_zero, List.take_zero]
    · simp only [RaftNode.consistent, zero, decide_false, Bool.false_or, Option.any_eq_true,
        beq_iff_eq] at consistent
      rcases consistent with ⟨own, ownFound, ownStamp⟩
      have matching := Coherent.matching (agrees.log ▸ valid.coherentLog i)
        ((valid.coherentLeader term).part part) ownFound found (ownStamp.trans stamp.symm)
      rwa [Nat.sub_add_cancel (Nat.pos_of_ne_zero zero)] at matching

/-- Once its term has a leader, a node that is not this leader may become a follower
within the term: it has not voted for the leader if it was a candidate. -/
theorem Agrees.yield {i : String} {n : RaftNode} (agrees : Agrees c strict h i n)
    {leader : String} (leads : h.leader n.term = some leader) (different : i ≠ leader)
    (busy : n.state ≠ .follower) : Agrees c strict h i (n.becomeFollower n.term) := by
  have own : n.votedFor = some i := by
    cases state : n.state with
    | follower => exact absurd state busy
    | candidate votes => exact (agrees.candidate state).1
    | leader nextIndex matchIndex =>
        have isLeader := agrees.leads.mp (by simp only [RaftNode.isLeader, state])
        exact absurd (Option.some.inj (isLeader.symm.trans leads)) different
  refine
    { id := agrees.id
      peers := agrees.peers
      term := agrees.term
      log := agrees.log
      vote := fun open_ => absurd (leads.symm.trans open_) (by simp)
      voter := ?_
      leads := ?_
      candidate := fun impossible => absurd impossible (by simp [RaftNode.becomeFollower])
      acked := fun impossible => absurd impossible (by simp [RaftNode.becomeFollower])
      commit := agrees.commit }
  · intro leader' log leads' voted
    have voter := own.symm.trans (agrees.voter leads' voted)
    have same := Option.some.inj (leads.symm.trans leads')
    exact absurd ((Option.some.inj voter).trans same.symm) different
  · simp only [RaftNode.isLeader, RaftNode.becomeFollower, Bool.false_eq_true, false_iff]
    intro leads'
    exact different (Option.some.inj (leads'.symm.trans leads))

/-- The commit index a follower takes over stands for a decided prefix, and what it had
committed before is part of it. -/
theorem follows_commit (valid : Valid (quorums c) h) (kept : Kept h) {i : String} {n : RaftNode}
    (agrees : Agrees c strict h i n) (isStrict : strict) {leader : String}
    {prevIndex prevTerm : Nat} {entries : List LogEntry} {leaderCommit : Nat}
    {log : List LogEntry} (leads : h.leader n.term = some leader)
    (carries : Carries c strict h n.term leader prevIndex prevTerm entries leaderCommit log)
    (keeping : Keeping n.log log) {commit : Nat}
    (equal : commit = if n.commit < leaderCommit then min leaderCommit log.length else n.commit) :
    commit ≤ log.length ∧ Settled c h n.term (log.take commit) ∧
      n.log.take n.commit <+: log.take commit := by
  rcases carries with ⟨part, based, _, _, commits⟩
  rcases commits isStrict with ⟨reach, settledNew⟩
  rcases agrees.commit isStrict with ⟨bound, settledOld⟩
  have known : n.log.take n.commit <+: log := by
    rcases settledOld with empty | ⟨decided, early, fact⟩
    · rw [empty]
      exact List.nil_prefix
    · have early' : decided ≤ h.term i := agrees.term.symm ▸ early
      exact fact.accepted valid kept early' (agrees.log.symm ▸ List.take_prefix _ _)
        (agrees.term.symm ▸ leads)
        (agrees.term.symm ▸ part) (agrees.term.symm ▸ based) (agrees.log.symm ▸ keeping)
  have inside : n.commit ≤ log.length := by
    have shorter := known.length_le
    rw [List.length_take, Nat.min_eq_left bound] at shorter
    exact shorter
  have same : log.take n.commit = n.log.take n.commit := by
    have equal := List.prefix_iff_eq_take.mp known
    rw [List.length_take, Nat.min_eq_left bound] at equal
    exact equal.symm
  split at equal
  · next above =>
      rw [Nat.min_eq_left reach] at equal
      rw [equal]
      refine ⟨reach, settledNew, ?_⟩
      rw [← same]
      exact List.take_prefix_take_left (Nat.le_of_lt above)
  · rw [equal, same]
    exact ⟨inside, settledOld, List.prefix_rfl⟩

/-- A follower that accepts an append stores a state of its leader's log. -/
theorem Coupled.accept (coupled : Coupled c strict s h) {i : String} (member : i ∈ c.members)
    {leader : String} {prevIndex prevTerm : Nat} {entries : List LogEntry} {leaderCommit : Nat}
    {rest : List (String × RaftMsg)} (part : rest.Subperm s.flight)
    (truthful : Truthful c strict h
      (i, .appendEntries (s.node i).term leader prevIndex prevTerm entries leaderCommit))
    (follower : (s.node i).state = .follower)
    (consistent : (s.node i).consistent prevIndex prevTerm = true)
    (keeping : strict → Keeping (s.node i).log ((s.node i).log.take prevIndex ++ entries)) :
    Matched c strict h s
      { s with node := Function.update s.node i
                 (follows (s.node i) leader prevIndex entries leaderCommit),
               flight := rest ++ [(leader, .appendReply (s.node i).term (s.node i).id true
                 ((s.node i).log.take prevIndex ++ entries).length)] } := by
  have agrees := coupled.nodes i member
  have valid := coupled.valid
  rcases truthful with ⟨leads, different, log, carries⟩
  have whole := take_append_eq_carried valid agrees carries consistent
  have leads' : h.leader (h.term i) = some leader := agrees.term.symm ▸ leads
  have step : Step (quorums c) (Allowed strict) h i (h.accept i log) := by
    apply Step.accept h i leader log leads' different
    · rw [agrees.term]
      exact carries.1
    · rw [agrees.term]
      exact carries.2.1
    · intro isStrict
      rw [agrees.log, ← whole]
      exact keeping isStrict
  have alone := step.actsAlone valid
  have committed := fun isStrict => follows_commit valid (coupled.kept isStrict) agrees isStrict
    leads carries (whole ▸ keeping isStrict) rfl
  rw [follows_eq, whole]
  refine coupled.send (TransitionSystem.Reaches.single i step) alone ?_ part ?_ ?_
    (Nat.le_refl (s.node i).term)
    (fun votes isCandidate => absurd (follower.symm.trans isCandidate) (by simp))
    (fun isStrict => (committed isStrict).2.2)
  · refine
      { id := agrees.id
        peers := agrees.peers
        term := agrees.term
        log := Function.update_self _ _ _
        vote := fun open_ => absurd (leads.symm.trans open_) (by simp)
        voter := agrees.voter
        leads := agrees.leads
        candidate := fun isCandidate => absurd (follower.symm.trans isCandidate) (by simp)
        acked := fun isLeader => absurd (follower.symm.trans isLeader) (by simp)
        commit := fun isStrict => ⟨(committed isStrict).1,
          (committed isStrict).2.1.mono alone.toExtends⟩ }
  · intro copy inNew
    rw [List.mem_singleton.mp inNew, agrees.id]
    refine fun _ => ⟨member, different, fun _ => ?_⟩
    simp only [History.accept, agrees.term, History.record_self]
    exact le_max_right _ _
  · intro copy inNew term voter candidate
    rw [List.mem_singleton.mp inNew]
    rfl

/-- A refused append changes timers and hints only. -/
theorem Coupled.refuse (coupled : Coupled c strict s h) {i : String} {n : RaftNode}
    (agrees : Agrees c strict h i n) (term : n.term = (s.node i).term)
    (state : n.state = (s.node i).state) (log : n.log = (s.node i).log)
    (commit : n.commit = (s.node i).commit) {rest : List (String × RaftMsg)}
    (part : rest.Subperm s.flight) (leader sender : String) (term' : Nat) :
    Matched c strict h s
      { s with node := Function.update s.node i n,
               flight := rest ++ [(leader, .appendReply term' sender false 0)] } := by
  refine coupled.reply agrees part ?_ ?_ term (fun votes isCandidate =>
    state.symm.trans isCandidate)
    (fun _ => ?_)
  · intro copy inNew
    rw [List.mem_singleton.mp inNew]
    exact fun impossible => absurd impossible Bool.false_ne_true
  · intro copy inNew term voter candidate
    rw [List.mem_singleton.mp inNew]
    rfl
  · rw [log, commit]

/-- A message after which the log of the node agrees with the sender's entries and is
shorter all the same: the append cuts entries it does not conflict with. -/
def Cuts (n : RaftNode) : RaftMsg → Prop
  | .appendEntries term _ prevIndex prevTerm entries _ =>
      n.term ≤ term ∧ n.consistent prevIndex prevTerm = true ∧
        entries <+: n.log.drop prevIndex ∧ entries ≠ n.log.drop prevIndex
  | _ => False

instance (n : RaftNode) : DecidablePred (Cuts n)
  | .appendEntries .. => inferInstanceAs (Decidable (_ ∧ _ ∧ _ ∧ _))
  | .requestVote .. => instDecidableFalse
  | .voteReply .. => instDecidableFalse
  | .appendReply .. => instDecidableFalse

/-- An accepted append that cuts nothing is a replacement that keeps the log. -/
theorem keeping_of_not_cuts {n : RaftNode} {term : Nat} {leader : String}
    {prevIndex prevTerm : Nat} {entries : List LogEntry} {leaderCommit : Nat}
    (keeps : ¬ Cuts n (.appendEntries term leader prevIndex prevTerm entries leaderCommit))
    (current : n.term ≤ term) (consistent : n.consistent prevIndex prevTerm = true) :
    Keeping n.log (n.log.take prevIndex ++ entries) := by
  rintro ⟨shorter, different⟩
  have split : n.log.take prevIndex ++ n.log.drop prevIndex = n.log := List.take_append_drop _ _
  refine keeps ⟨current, consistent, ?_, ?_⟩
  · rw [← split, List.take_append_drop] at shorter
    nth_rewrite 2 [← split] at shorter
    exact (List.prefix_append_right_inj _).mp shorter
  · intro equal
    exact different (by rw [equal, split])

theorem Coupled.appendEntries (coupled : Coupled c strict s h) {i : String}
    (member : i ∈ c.members) {term : Nat} {leader : String} {prevIndex prevTerm : Nat}
    {entries : List LogEntry} {leaderCommit : Nat} {rest : List (String × RaftMsg)}
    (part : rest.Subperm s.flight)
    (truthful : Truthful c strict h
      (i, .appendEntries term leader prevIndex prevTerm entries leaderCommit))
    (ready : term < (s.node i).term ∨ (term = (s.node i).term ∧ (s.node i).state = .follower))
    (keeps : strict → ¬ Cuts (s.node i)
      (.appendEntries term leader prevIndex prevTerm entries leaderCommit))
    {n : RaftNode} {out : List Envelope}
    (answered : answerAppend (s.node i) term leader prevIndex prevTerm entries leaderCommit =
      (n, out)) :
    Matched c strict h s
      { s with node := Function.update s.node i n, flight := rest ++ out.flatMap c.copies } := by
  have agrees := coupled.nodes i member
  rw [answerAppend] at answered
  rcases ready with old | ⟨rfl, follower⟩
  · rw [if_pos old, Prod.mk.injEq] at answered
    rcases answered with ⟨rfl, rfl⟩
    exact coupled.refuse agrees rfl rfl rfl rfl part _ _ _
  · rw [if_neg (Nat.lt_irrefl _)] at answered
    by_cases consistent : (s.node i).consistent prevIndex prevTerm = true
    · rw [if_pos consistent, Prod.mk.injEq] at answered
      rcases answered with ⟨rfl, rfl⟩
      exact coupled.accept member part truthful follower consistent fun isStrict =>
        keeping_of_not_cuts (keeps isStrict) (Nat.le_refl _) consistent
    · rw [if_neg consistent, Prod.mk.injEq] at answered
      rcases answered with ⟨rfl, rfl⟩
      have agrees' : Agrees c strict h i (heard (s.node i) leader) :=
        agrees.congr rfl rfl rfl rfl rfl rfl rfl
      exact coupled.refuse agrees' rfl rfl rfl rfl part _ _ _

/-- A candidate that hears from the leader of its term becomes a follower. -/
theorem Coupled.yield (coupled : Coupled c strict s h) {i : String} (member : i ∈ c.members)
    {leader : String} (leads : h.leader (s.node i).term = some leader) (different : i ≠ leader)
    (busy : (s.node i).state ≠ .follower) :
    Matched c strict h s
      { s with
        node := Function.update s.node i ((s.node i).becomeFollower (s.node i).term) } := by
  have done : Matched c strict h s
      { s with node := Function.update s.node i ((s.node i).becomeFollower (s.node i).term),
               flight := s.flight ++ [] } := coupled.reply
    ((coupled.nodes i member).yield leads different busy) (List.Subperm.refl _)
    (fun _ none_ => absurd none_ List.not_mem_nil) noBallot_nil rfl
    (fun _ impossible => absurd impossible (by simp [RaftNode.becomeFollower]))
    (fun _ => List.prefix_rfl)
  rwa [List.append_nil] at done

/-! ## Acknowledgements -/

/-- An acknowledgement from an earlier term of the leader. -/
def Stale (n : RaftNode) : RaftMsg → Prop
  | .appendReply term _ success _ => n.isLeader = true ∧ term < n.term ∧ success = true
  | _ => False

/-- The leader with other indices for its peers. -/
def tracking (n : RaftNode) (nextIndex matchIndex : PeerIndex) : RaftNode :=
  { n with state := .leader nextIndex matchIndex }

theorem stepAppendReply_of_leader {n : RaftNode} {nextIndex matchIndex : PeerIndex}
    (state : n.state = .leader nextIndex matchIndex) {term : Nat} (notLater : ¬ n.term < term)
    (sender : String) (success : Bool) (m : Nat) :
    n.stepAppendReply term sender success m =
      if success then
        ((tracking n (nextIndex.insert sender (m + 1)) (matchIndex.insert sender m)).advanceCommit,
          [])
      else
        (tracking n (nextIndex.insert sender (max ((nextIndex.lookup sender).getD 1 - 1) 1))
          matchIndex, []) := by
  simp only [RaftNode.stepAppendReply, if_neg notLater, state]
  rfl

theorem stepAppendReply_ignored {n : RaftNode} (notLeader : n.isLeader = false) {term : Nat}
    (notLater : ¬ n.term < term) (sender : String) (success : Bool) (m : Nat) :
    n.stepAppendReply term sender success m = (n, []) := by
  cases state : n.state with
  | leader nextIndex matchIndex =>
      rw [RaftNode.isLeader, state] at notLeader
      exact absurd notLeader.symm Bool.false_ne_true
  | follower => simp only [RaftNode.stepAppendReply, if_neg notLater, state]
  | candidate votes => simp only [RaftNode.stepAppendReply, if_neg notLater, state]

theorem Agrees.tracking {i : String} {n : RaftNode} (agrees : Agrees c strict h i n)
    (isLeader : n.isLeader = true) (nextIndex : PeerIndex) {matchIndex : PeerIndex}
    (acked : ∀ {p m}, matchIndex.lookup p = some m →
      p ∈ c.peers i ∧ (strict → m ≤ h.ack n.term p)) :
    Agrees c strict h i (tracking n nextIndex matchIndex) := by
  refine
    { id := agrees.id
      peers := agrees.peers
      term := agrees.term
      log := agrees.log
      vote := agrees.vote
      voter := agrees.voter
      leads := ⟨fun _ => agrees.leads.mp isLeader, fun _ => rfl⟩
      candidate := fun impossible => absurd impossible (by simp [Cluster.tracking])
      acked := ?_
      commit := agrees.commit }
  intro next known state p m found
  simp only [Cluster.tracking, RaftState.leader.injEq] at state
  exact acked (state.2.symm ▸ found)

theorem Coupled.appendReply (coupled : Coupled c strict s h) {i : String}
    (member : i ∈ c.members) {term : Nat} {sender : String} {success : Bool} {m : Nat}
    {rest : List (String × RaftMsg)} (part : rest.Subperm s.flight)
    (truthful : Truthful c strict h (i, .appendReply term sender success m))
    (notLater : ¬ (s.node i).term < term)
    (current : strict → ¬ Stale (s.node i) (.appendReply term sender success m))
    {n : RaftNode} {out : List Envelope}
    (counted : (s.node i).stepAppendReply term sender success m = (n, out)) :
    Matched c strict h s
      { s with node := Function.update s.node i n, flight := rest ++ out.flatMap c.copies } := by
  have agrees := coupled.nodes i member
  have valid := coupled.valid
  cases state : (s.node i).state with
  | leader nextIndex matchIndex =>
      have isLeader : (s.node i).isLeader = true := by simp only [RaftNode.isLeader, state]
      rw [stepAppendReply_of_leader state notLater] at counted
      cases success with
      | true =>
          rw [if_pos rfl, Prod.mk.injEq] at counted
          rcases counted with ⟨rfl, rfl⟩
          rcases truthful rfl with ⟨inCluster, different, stored⟩
          have acked : ∀ {p m'}, (matchIndex.insert sender m).lookup p = some m' →
              p ∈ c.peers i ∧ (strict → m' ≤ h.ack (s.node i).term p) := by
            intro p m' found
            by_cases same : p = sender
            · subst same
              rw [AList.lookup_insert, Option.some.injEq] at found
              refine ⟨(c.mem_peers i member p).mpr ⟨inCluster, different⟩,
                fun isStrict => ?_⟩
              -- the acknowledgement is not older than the leader's term
              have now : term = (s.node i).term := by
                by_contra other
                exact current isStrict ⟨isLeader, by omega, rfl⟩
              rw [← found, ← now]
              exact stored isStrict
            · rw [AList.lookup_insert_ne same] at found
              exact agrees.acked state found
          have tracked := agrees.tracking isLeader (nextIndex.insert sender (m + 1)) acked
          have agrees' := tracked.advanceCommit valid member
          rcases advanceCommit_frame (Cluster.tracking (s.node i)
            (nextIndex.insert sender (m + 1)) (matchIndex.insert sender m)) with
              ⟨index, _, raised⟩
          refine coupled.reply agrees' part (fun _ none_ => absurd none_ List.not_mem_nil)
            noBallot_nil ?_ ?_ (fun _ => advanceCommit_commits (Cluster.tracking (s.node i)
              (nextIndex.insert sender (m + 1)) (matchIndex.insert sender m)))
          · rw [raised]
            rfl
          · intro votes isCandidate
            rw [raised] at isCandidate
            exact absurd isCandidate (by simp [committing, Cluster.tracking])
      | false =>
          rw [if_neg Bool.false_ne_true, Prod.mk.injEq] at counted
          rcases counted with ⟨rfl, rfl⟩
          exact coupled.reply (agrees.tracking isLeader _ (agrees.acked state)) part
            (fun _ none_ => absurd none_ List.not_mem_nil) noBallot_nil rfl
            (fun _ impossible => absurd impossible (by simp [Cluster.tracking]))
            (fun _ => List.prefix_rfl)
  | follower =>
      rw [stepAppendReply_ignored (by simp only [RaftNode.isLeader, state]) notLater,
        Prod.mk.injEq] at counted
      rcases counted with ⟨rfl, rfl⟩
      exact coupled.drop member part
  | candidate votes =>
      rw [stepAppendReply_ignored (by simp only [RaftNode.isLeader, state]) notLater,
        Prod.mk.injEq] at counted
      rcases counted with ⟨rfl, rfl⟩
      exact coupled.drop member part

end Cluster
end Sigil
