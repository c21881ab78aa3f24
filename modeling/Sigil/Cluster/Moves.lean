import Sigil.Cluster.Runs

namespace Sigil
namespace Cluster

/-!
# What a node can do

Every handler does one of a few moves, or first falls to a later term, stands for election or
counts a vote and then does one of them.  What the other nodes cannot see, the timers, the
hints and the commit index, is left open.
-/

/-- The nodes differ at most in what the others cannot see. -/
structure Alike (n n' : RaftNode) : Prop where
  id : n'.id = n.id
  peers : n'.peers = n.peers
  state : n'.state = n.state
  term : n'.term = n.term
  votedFor : n'.votedFor = n.votedFor
  log : n'.log = n.log

theorem Alike.refl (n : RaftNode) : Alike n n := ⟨rfl, rfl, rfl, rfl, rfl, rfl⟩

/-- No vote is granted and no append is acknowledged. -/
def Quiet (out : List Envelope) : Prop :=
  ∀ envelope, envelope ∈ out →
    match envelope.msg with
    | .voteReply _ _ granted => granted = false
    | .appendReply _ _ success _ => success = false
    | _ => True

theorem quiet_nil : Quiet [] := fun _ member => absurd member List.not_mem_nil

theorem quiet_broadcast {n : RaftNode} {out : List Envelope}
    (sent : n.broadcastAppends = some out) : Quiet out := by
  intro envelope member
  rcases mem_broadcastAppends sent member with ⟨peer, prevIndex, prevTerm, -, -, rfl⟩
  trivial

/-- The node with the indices of a new leader. -/
def leading (n : RaftNode) : RaftNode :=
  { n with
    state := .leader
      (n.peers.map fun p => (⟨p, n.lastIndex + 1⟩ : Sigma fun _ : String => Nat)).toAList
      (n.peers.map fun p => (⟨p, 0⟩ : Sigma fun _ : String => Nat)).toAList }

/-- What a node does with a message, or without one at a tick or a proposal. -/
inductive Moves : RaftNode → Option RaftMsg → RaftNode → List Envelope → Prop
  /-- Nothing that the others can see. -/
  | stay {n n' received out} (alike : Alike n n') (quiet : Quiet out) : Moves n received n' out
  /-- The node falls to a later term. -/
  | fall {n n' received out term} (later : n.term < term)
      (rest : Moves (n.becomeFollower term) received n' out) : Moves n received n' out
  /-- A node that is no follower becomes one within its term. -/
  | yield {n n' out leader prevIndex prevTerm entries leaderCommit} (busy : n.state ≠ .follower)
      (rest : Moves (n.becomeFollower n.term)
        (some (.appendEntries n.term leader prevIndex prevTerm entries leaderCommit)) n' out) :
      Moves n (some (.appendEntries n.term leader prevIndex prevTerm entries leaderCommit)) n' out
  /-- The node stands for election in the next term. -/
  | stand {n n' out} (rest : Moves (campaign n) none n' out) : Moves n none n' out
  /-- A candidate counts a vote. -/
  | count {n n' received out votes} (isCandidate : n.state = .candidate votes)
      (rest : Moves (counting n votes) received n' out) : Moves n received n' out
  /-- A candidate becomes the leader of its term. -/
  | lead {n n' received out votes} (isCandidate : n.state = .candidate votes)
      (alike : Alike (leading n) n') (quiet : Quiet out) : Moves n received n' out
  /-- The node votes for another one. -/
  | grant {n candidate lastLogIndex lastLogTerm} (different : candidate ≠ n.id)
      (granted : grants n n.term candidate lastLogIndex lastLogTerm) :
      Moves n (some (.requestVote n.term candidate lastLogIndex lastLogTerm)) (voted n candidate)
        [{ dest := some candidate, msg := .voteReply n.term n.id true }]
  /-- A leader appends an entry to its log. -/
  | append {n n' out} (entry : LogEntry) (isLeader : n.isLeader = true)
      (alike : Alike (appended n entry) n') (quiet : Quiet out) : Moves n none n' out
  /-- A follower takes over the entries of its leader. -/
  | accept {n leader prevIndex prevTerm entries leaderCommit} (follower : n.state = .follower)
      (consistent : n.consistent prevIndex prevTerm = true) :
      Moves n (some (.appendEntries n.term leader prevIndex prevTerm entries leaderCommit))
        (follows n leader prevIndex entries leaderCommit)
        [{ dest := some leader, msg := .appendReply n.term n.id true
            (n.log.take prevIndex ++ entries).length }]
  /-- A leader takes over the index that a peer has acknowledged. -/
  | track {n n' term sender m nextIndex matchIndex} (state : n.state = .leader nextIndex matchIndex)
      (notLater : ¬ n.term < term)
      (alike : Alike (tracking n (nextIndex.insert sender (m + 1))
        (matchIndex.insert sender m)) n') :
      Moves n (some (.appendReply term sender true m)) n' []
  /-- A leader goes back by one entry. -/
  | back {n term sender m nextIndex matchIndex} (state : n.state = .leader nextIndex matchIndex)
      (notLater : ¬ n.term < term) :
      Moves n (some (.appendReply term sender false m))
        (tracking n (nextIndex.insert sender (max ((nextIndex.lookup sender).getD 1 - 1) 1))
          matchIndex) []

/-! ## What the moves leave -/

theorem Moves.id {n n' : RaftNode} {received : Option RaftMsg} {out : List Envelope}
    (moves : Moves n received n' out) : n'.id = n.id := by
  induction moves with
  | stay alike quiet => exact alike.id
  | fall later rest inductionHypothesis => exact inductionHypothesis
  | yield busy rest inductionHypothesis => exact inductionHypothesis
  | stand rest inductionHypothesis => exact inductionHypothesis
  | count isCandidate rest inductionHypothesis => exact inductionHypothesis
  | lead isCandidate alike quiet => exact alike.id
  | grant different granted => rfl
  | append entry isLeader alike quiet => exact alike.id
  | accept follower consistent => rw [follows_eq]
  | track state notLater alike => exact alike.id
  | back state notLater => rfl

theorem Moves.term {n n' : RaftNode} {received : Option RaftMsg} {out : List Envelope}
    (moves : Moves n received n' out) : n.term ≤ n'.term := by
  induction moves with
  | stay alike quiet => exact Nat.le_of_eq alike.term.symm
  | fall later rest inductionHypothesis => exact (Nat.le_of_lt later).trans inductionHypothesis
  | yield busy rest inductionHypothesis => exact inductionHypothesis
  | stand rest inductionHypothesis => exact (Nat.le_succ _).trans inductionHypothesis
  | count isCandidate rest inductionHypothesis => exact inductionHypothesis
  | lead isCandidate alike quiet => exact Nat.le_of_eq alike.term.symm
  | grant different granted => exact Nat.le_refl _
  | append entry isLeader alike quiet => exact Nat.le_of_eq alike.term.symm
  | accept follower consistent =>
      rw [follows_eq]
  | track state notLater alike => exact Nat.le_of_eq alike.term.symm
  | back state notLater => exact Nat.le_refl _

/-- No append is acknowledged. -/
def Unacknowledged (out : List Envelope) : Prop :=
  ∀ envelope, envelope ∈ out → ∀ term sender m,
    envelope.msg ≠ .appendReply term sender true m

theorem Quiet.unacknowledged {out : List Envelope} (quiet : Quiet out) : Unacknowledged out := by
  intro envelope member term sender m isReply
  have refused := quiet envelope member
  rw [isReply] at refused
  cases refused

/-- The log after an append that has passed the check, which is acknowledged up to its end. -/
structure Accepted (n : RaftNode) (received : Option RaftMsg) (n' : RaftNode)
    (out : List Envelope) (leader : String) (prevIndex prevTerm : Nat) (entries : List LogEntry)
    (leaderCommit : Nat) : Prop where
  received : received =
    some (.appendEntries n'.term leader prevIndex prevTerm entries leaderCommit)
  consistent : n.consistent prevIndex prevTerm = true
  log : n'.log = n.log.take prevIndex ++ entries
  out : out = [{ dest := some leader, msg := .appendReply n'.term n.id true n'.log.length }]

/-- The log stays, or a leader appends to it, or it is replaced by an append of the term. -/
def Stored (n : RaftNode) (received : Option RaftMsg) (n' : RaftNode) (out : List Envelope) :
    Prop :=
  ((n'.log = n.log ∨ ∃ entry, n'.log = n.log ++ [entry]) ∧ Unacknowledged out) ∨
    ∃ leader prevIndex prevTerm entries leaderCommit,
      Accepted n received n' out leader prevIndex prevTerm entries leaderCommit

theorem Stored.of_same {n middle n' : RaftNode} {received : Option RaftMsg} {out : List Envelope}
    (stored : Stored middle received n' out) (log : middle.log = n.log) (id : middle.id = n.id) :
    Stored n received n' out := by
  rcases stored with kept | ⟨leader, prevIndex, prevTerm, entries, leaderCommit, accepted⟩
  · rw [log] at kept
    exact Or.inl kept
  · right
    refine ⟨leader, prevIndex, prevTerm, entries, leaderCommit, accepted.received, ?_, ?_, ?_⟩
    · have passed := accepted.consistent
      rwa [RaftNode.consistent, log] at passed
    · rw [← log]
      exact accepted.log
    · rw [← id]
      exact accepted.out

theorem Moves.stored {n n' : RaftNode} {received : Option RaftMsg} {out : List Envelope}
    (moves : Moves n received n' out) : Stored n received n' out := by
  induction moves with
  | stay alike quiet => exact Or.inl ⟨Or.inl alike.log, quiet.unacknowledged⟩
  | fall later rest inductionHypothesis => exact inductionHypothesis.of_same rfl rfl
  | yield busy rest inductionHypothesis => exact inductionHypothesis.of_same rfl rfl
  | stand rest inductionHypothesis => exact inductionHypothesis.of_same rfl rfl
  | count isCandidate rest inductionHypothesis => exact inductionHypothesis.of_same rfl rfl
  | lead isCandidate alike quiet => exact Or.inl ⟨Or.inl alike.log, quiet.unacknowledged⟩
  | grant different granted =>
      refine Or.inl ⟨Or.inl rfl, fun envelope member term sender m isReply => ?_⟩
      rw [List.mem_singleton.mp member] at isReply
      cases isReply
  | append entry isLeader alike quiet =>
      exact Or.inl ⟨Or.inr ⟨entry, alike.log⟩, quiet.unacknowledged⟩
  | @accept n leader prevIndex prevTerm entries leaderCommit follower consistent =>
      rw [follows_eq]
      exact Or.inr ⟨leader, prevIndex, prevTerm, entries, leaderCommit, rfl,
        consistent, rfl, rfl⟩
  | track state notLater alike => exact Or.inl ⟨Or.inl alike.log, quiet_nil.unacknowledged⟩
  | back state notLater => exact Or.inl ⟨Or.inl rfl, quiet_nil.unacknowledged⟩

/-! ## The handlers -/

theorem alike_waiting (n : RaftNode) (quietTicks : Nat) : Alike n (waiting n quietTicks) :=
  ⟨rfl, rfl, rfl, rfl, rfl, rfl⟩

theorem alike_advanceCommit (n : RaftNode) : Alike n n.advanceCommit := by
  rcases advanceCommit_frame n with ⟨index, -, raised⟩
  rw [raised]
  exact ⟨rfl, rfl, rfl, rfl, rfl, rfl⟩

theorem becomeLeader_alike {n n' : RaftNode} {out : List Envelope}
    (won : n.becomeLeader = some (n', out)) : Alike (leading n) n' ∧ Quiet out := by
  rcases Option.bind_eq_some_iff.mp won with ⟨sent, broadcast, equal⟩
  cases Option.some.inj equal
  exact ⟨⟨rfl, rfl, rfl, rfl, rfl, rfl⟩, quiet_broadcast broadcast⟩

theorem startElection_moves {n n' : RaftNode} {out : List Envelope} {quietTicks : Nat}
    (started : (waiting n quietTicks).startElection = some (n', out)) : Moves n none n' out := by
  change (if n.peers.isEmpty then (campaign n).becomeLeader
    else some (campaign n, [voteRequest (campaign n)])) = some (n', out) at started
  apply Moves.stand
  split at started
  · have won := becomeLeader_alike started
    exact Moves.lead (n := campaign n) rfl won.1 won.2
  · cases Option.some.inj started
    apply Moves.stay (Alike.refl _)
    intro envelope member
    rw [List.mem_singleton.mp member]
    trivial

theorem tick_moves {n n' : RaftNode} {out : List Envelope} (ticked : n.tick = some (n', out)) :
    Moves n none n' out := by
  cases isLeader : n.isLeader with
  | true =>
      rw [tick_of_leader isLeader] at ticked
      split at ticked
      · rcases Option.bind_eq_some_iff.mp ticked with ⟨sent, broadcast, equal⟩
        cases Option.some.inj equal
        exact Moves.stay (alike_waiting n 0) (quiet_broadcast broadcast)
      · cases Option.some.inj ticked
        exact Moves.stay (alike_waiting n _) quiet_nil
  | false =>
      rw [tick_of_not_leader isLeader] at ticked
      split at ticked
      · exact startElection_moves ticked
      · cases Option.some.inj ticked
        exact Moves.stay (alike_waiting n _) quiet_nil

theorem propose_moves {n n' : RaftNode} {data : List UInt8}
    {result : Except String (List Envelope)} (proposed : n.propose data = some (n', result)) :
    Moves n none n' (Net.sent result) := by
  by_cases isLeader : n.isLeader = true
  · rw [propose_of_leader isLeader] at proposed
    rcases Option.bind_eq_some_iff.mp proposed with ⟨out, broadcast, equal⟩
    cases Option.some.inj equal
    exact Moves.append _ isLeader (alike_advanceCommit _) (quiet_broadcast broadcast)
  · rcases propose_of_not_leader isLeader data with ⟨text, refused⟩
    cases Option.some.inj (refused.symm.trans proposed)
    exact Moves.stay (Alike.refl n) quiet_nil

theorem requestVote_moves {n : RaftNode} {term : Nat} {candidate : String}
    {lastLogIndex lastLogTerm : Nat} (different : candidate ≠ n.id) {n' : RaftNode}
    {out : List Envelope}
    (answered : n.stepRequestVote term candidate lastLogIndex lastLogTerm = (n', out)) :
    Moves n (some (.requestVote term candidate lastLogIndex lastLogTerm)) n' out := by
  -- within the term of the node the request is granted or refused
  have within : ∀ {n : RaftNode}, ¬ n.term < term → candidate ≠ n.id →
      n.stepRequestVote term candidate lastLogIndex lastLogTerm = (n', out) →
      Moves n (some (.requestVote term candidate lastLogIndex lastLogTerm)) n' out := by
    intro n notLater different answered
    by_cases granted : grants n term candidate lastLogIndex lastLogTerm
    · rw [stepRequestVote_granted granted] at answered
      cases answered
      rcases granted with ⟨rfl, both⟩
      exact Moves.grant different ⟨rfl, both⟩
    · rw [stepRequestVote_refused notLater granted] at answered
      cases answered
      apply Moves.stay (Alike.refl _)
      intro envelope member
      rw [List.mem_singleton.mp member]
  by_cases later : n.term < term
  · rw [stepRequestVote_later later] at answered
    exact Moves.fall later (within (Nat.lt_irrefl term) different answered)
  · exact within later different answered

theorem voteReply_moves {n n' : RaftNode} {term : Nat} {sender : String} {granted : Bool}
    {out : List Envelope} (counted : n.stepVoteReply term granted = some (n', out)) :
    Moves n (some (.voteReply term sender granted)) n' out := by
  by_cases later : n.term < term
  · rw [RaftNode.stepVoteReply, if_pos later] at counted
    cases Option.some.inj counted
    exact Moves.fall later (Moves.stay (Alike.refl _) quiet_nil)
  · by_cases isCandidate : ∃ votes, n.state = .candidate votes
    · rcases isCandidate with ⟨votes, isCandidate⟩
      rw [stepVoteReply_of_candidate isCandidate later] at counted
      split at counted
      · apply Moves.count isCandidate
        split at counted
        · have won := becomeLeader_alike counted
          exact Moves.lead (n := counting n votes) rfl won.1 won.2
        · cases Option.some.inj counted
          exact Moves.stay (Alike.refl _) quiet_nil
      · cases Option.some.inj counted
        exact Moves.stay (Alike.refl _) quiet_nil
    · rw [stepVoteReply_ignored (fun votes state => isCandidate ⟨votes, state⟩) later]
        at counted
      cases Option.some.inj counted
      exact Moves.stay (Alike.refl _) quiet_nil

theorem answerAppend_moves {n n' : RaftNode} {term : Nat} {leader : String}
    {prevIndex prevTerm : Nat} {entries : List LogEntry} {leaderCommit : Nat} {out : List Envelope}
    (ready : term < n.term ∨ (term = n.term ∧ n.state = .follower))
    (answered : answerAppend n term leader prevIndex prevTerm entries leaderCommit = (n', out)) :
    Moves n (some (.appendEntries term leader prevIndex prevTerm entries leaderCommit)) n' out := by
  have refusal : ∀ term sender,
      Quiet [{ dest := some leader, msg := .appendReply term sender false 0 }] := by
    intro term sender envelope member
    rw [List.mem_singleton.mp member]
  rw [answerAppend] at answered
  rcases ready with old | ⟨rfl, follower⟩
  · rw [if_pos old] at answered
    cases answered
    exact Moves.stay (Alike.refl n) (refusal _ _)
  · rw [if_neg (Nat.lt_irrefl _)] at answered
    by_cases consistent : n.consistent prevIndex prevTerm = true
    · rw [if_pos consistent] at answered
      cases answered
      exact Moves.accept follower consistent
    · rw [if_neg consistent] at answered
      cases answered
      exact Moves.stay ⟨rfl, rfl, rfl, rfl, rfl, rfl⟩ (refusal _ _)

theorem appendEntries_moves {n n' : RaftNode} {term : Nat} {leader : String}
    {prevIndex prevTerm : Nat} {entries : List LogEntry} {leaderCommit : Nat} {out : List Envelope}
    (answered : n.stepAppendEntries term leader prevIndex prevTerm entries leaderCommit =
      (n', out)) :
    Moves n (some (.appendEntries term leader prevIndex prevTerm entries leaderCommit)) n' out := by
  rw [stepAppendEntries_eq] at answered
  by_cases later : n.term < term
  · rw [if_pos (Or.inl later)] at answered
    exact Moves.fall later (answerAppend_moves (Or.inr ⟨rfl, rfl⟩) answered)
  · by_cases busy : term = n.term ∧ n.state ≠ .follower
    · rw [if_pos (Or.inr busy)] at answered
      rcases busy with ⟨rfl, busy⟩
      exact Moves.yield busy (answerAppend_moves (Or.inr ⟨rfl, rfl⟩) answered)
    · rw [if_neg (not_or.mpr ⟨later, busy⟩)] at answered
      refine answerAppend_moves ?_ answered
      rcases Nat.lt_or_eq_of_le (Nat.le_of_not_lt later) with old | equal
      · exact Or.inl old
      · exact Or.inr ⟨equal, by_contra fun state => busy ⟨equal, state⟩⟩

theorem state_of_leader {n : RaftNode} (isLeader : n.isLeader = true) :
    ∃ nextIndex matchIndex, n.state = .leader nextIndex matchIndex := by
  unfold RaftNode.isLeader at isLeader
  split at isLeader
  · next nextIndex matchIndex state => exact ⟨nextIndex, matchIndex, state⟩
  · cases isLeader

theorem appendReply_moves {n n' : RaftNode} {term : Nat} {sender : String} {success : Bool}
    {m : Nat} {out : List Envelope}
    (counted : n.stepAppendReply term sender success m = (n', out)) :
    Moves n (some (.appendReply term sender success m)) n' out := by
  by_cases later : n.term < term
  · rw [RaftNode.stepAppendReply, if_pos later] at counted
    cases counted
    exact Moves.fall later (Moves.stay (Alike.refl _) quiet_nil)
  · cases isLeader : n.isLeader with
    | false =>
        rw [stepAppendReply_ignored isLeader later] at counted
        cases counted
        exact Moves.stay (Alike.refl _) quiet_nil
    | true =>
        rcases state_of_leader isLeader with ⟨nextIndex, matchIndex, state⟩
        rw [stepAppendReply_of_leader state later] at counted
        cases success with
        | true =>
            rw [if_pos rfl] at counted
            cases counted
            exact Moves.track state later (alike_advanceCommit _)
        | false =>
            rw [if_neg Bool.false_ne_true] at counted
            cases counted
            exact Moves.back state later

theorem decodeStep_moves {n n' : RaftNode} {msg : RaftMsg} {out : List Envelope}
    (handled : n.decodeStep msg = some (n', out)) : Moves n (some msg) n' out := by
  cases msg with
  | requestVote term candidate lastLogIndex lastLogTerm =>
      by_cases own : candidate = n.id
      · rw [RaftNode.decodeStep, if_pos own] at handled
        cases Option.some.inj handled
        exact Moves.stay (Alike.refl n) quiet_nil
      · rw [RaftNode.decodeStep, if_neg own] at handled
        exact requestVote_moves own (Option.some.inj handled)
  | voteReply term sender granted => exact voteReply_moves handled
  | appendEntries term leader prevIndex prevTerm entries leaderCommit =>
      exact appendEntries_moves (Option.some.inj handled)
  | appendReply term sender success m => exact appendReply_moves (Option.some.inj handled)

/-! ## The events -/

/-- A copy has the message and the destination of its envelope. -/
theorem Membership.of_mem_copies {c : Membership} {envelope : Envelope} {p : String}
    {msg : RaftMsg} (member : (p, msg) ∈ c.copies envelope) :
    envelope.msg = msg ∧ ∀ q, envelope.dest = some q → p = q := by
  unfold Membership.copies at member
  split at member
  · next q named =>
      cases List.mem_singleton.mp member
      exact ⟨rfl, fun q equal => Option.some.inj (named.symm.trans equal)⟩
  · next unnamed =>
      rcases List.mem_map.mp member with ⟨q, -, equal⟩
      cases equal
      exact ⟨rfl, fun q equal => absurd (unnamed.symm.trans equal) (Option.some_ne_none q).symm⟩


/-- What the handler of an event returns, and the message it has been given. -/
inductive Handles (n : RaftNode) : Option RaftMsg → Option (RaftNode × List Envelope) → Prop
  | tick : Handles n none n.tick
  | propose (data : List UInt8) :
      Handles n none ((n.propose data).map fun result => (result.1, Net.sent result.2))
  | deliver (msg : RaftMsg) : Handles n (some msg) (n.decodeStep msg)

theorem Handles.moves {n n' : RaftNode} {received : Option RaftMsg} {out : List Envelope}
    (handles : Handles n received (some (n', out))) : Moves n received n' out := by
  generalize result : some (n', out) = returned at handles
  cases handles with
  | tick => exact tick_moves result.symm
  | propose data =>
      rcases Option.map_eq_some_iff.mp result.symm with ⟨pair, proposed, equal⟩
      cases equal
      exact propose_moves proposed
  | deliver msg => exact decodeStep_moves result.symm

/-- An event lets one member handle a message, which leaves the flight, or none. -/
theorem Net.step_cases {c : Membership} {s s' : Net} {event : Event}
    (step : s.step c event = some s') :
    ∃ i received result rest, i ∈ c.members ∧ Handles (s.node i) received result ∧
      (∀ msg, received = some msg → s.delivered event = some (i, msg)) ∧
      s.flight.Perm ((received.toList.map fun msg => (i, msg)) ++ rest) ∧
      s' = { s with flight := rest }.act c i result := by
  cases event with
  | tick i =>
      simp only [Net.step] at step
      split at step
      · next runs =>
          cases Option.some.inj step
          refine ⟨i, none, _, s.flight, runs.1, .tick, ?_, List.Perm.refl _, rfl⟩
          rintro _ ⟨⟩
      · cases step
  | propose i data =>
      simp only [Net.step] at step
      split at step
      · next runs =>
          cases Option.some.inj step
          refine ⟨i, none, _, s.flight, runs.1, .propose data, ?_, List.Perm.refl _, rfl⟩
          rintro _ ⟨⟩
      · cases step
  | deliver position =>
      simp only [Net.step] at step
      split at step
      · next i msg found =>
          split at step
          · next runs =>
              cases Option.some.inj step
              refine ⟨i, some msg, _, s.flight.eraseIdx position, runs.1,
                .deliver msg, ?_, ?_, rfl⟩
              · rintro _ ⟨⟩
                exact found
              · rcases List.getElem?_eq_some_iff.mp found with ⟨bound, equal⟩
                have copy := (List.getElem_cons_eraseIdx_perm bound).symm
                rw [equal] at copy
                exact copy
          · cases step
      · cases step

end Cluster
end Sigil
