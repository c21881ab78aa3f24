import Sigil.Cluster.Handlers

namespace Sigil
namespace Cluster

/-!
# Vote requests and vote replies

A granted request leaves the number of ballots as it was: the copy that leaves is the
request and the copy that joins is the grant, and both are the same ballot.  Counting a
grant takes the ballot out of flight, so the voter cannot be counted again.
-/

open Library Library.Replication

variable {c : Membership} {strict : Prop} {s : Net} {h : Hist}

/-! ## Answering a vote request -/

/-- The vote of a node in its current term, as a condition on the request. -/
abbrev grants (n : RaftNode) (term : Nat) (candidate : String) (lastLogIndex lastLogTerm : Nat) :
    Prop :=
  term = n.term ∧
    (n.lastTerm < lastLogTerm ∨ (lastLogTerm = n.lastTerm ∧ n.lastIndex ≤ lastLogIndex)) ∧
      (n.votedFor = none ∨ n.votedFor = some candidate)

/-- The node after its vote. -/
def voted (n : RaftNode) (candidate : String) : RaftNode :=
  { n with votedFor := some candidate, quietTicks := 0 }

/-- A request of a later term is answered by the follower of that term. -/
theorem stepRequestVote_later {n : RaftNode} {term : Nat} (later : n.term < term)
    (candidate : String) (lastLogIndex lastLogTerm : Nat) :
    n.stepRequestVote term candidate lastLogIndex lastLogTerm =
      (n.becomeFollower term).stepRequestVote term candidate lastLogIndex lastLogTerm := by
  have still : ¬ (n.becomeFollower term).term < term := Nat.lt_irrefl term
  simp only [RaftNode.stepRequestVote, if_pos later, if_neg still]

theorem stepRequestVote_granted {n : RaftNode} {term : Nat} {candidate : String}
    {lastLogIndex lastLogTerm : Nat} (granted : grants n term candidate lastLogIndex lastLogTerm) :
    n.stepRequestVote term candidate lastLogIndex lastLogTerm = (voted n candidate,
      [{ dest := some candidate, msg := .voteReply n.term n.id true }]) := by
  have still : ¬ n.term < term := Nat.not_lt_of_le (Nat.le_of_eq granted.1)
  simp only [RaftNode.stepRequestVote, if_neg still]
  rw [if_pos (decide_eq_true granted), decide_eq_true granted]
  rfl

theorem stepRequestVote_refused {n : RaftNode} {term : Nat} {candidate : String}
    {lastLogIndex lastLogTerm : Nat} (notLater : ¬ n.term < term)
    (refused : ¬ grants n term candidate lastLogIndex lastLogTerm) :
    n.stepRequestVote term candidate lastLogIndex lastLogTerm =
      (n, [{ dest := some candidate, msg := .voteReply n.term n.id false }]) := by
  simp only [RaftNode.stepRequestVote, if_neg notLater]
  rw [if_neg (by simpa only [decide_eq_true_eq] using refused), decide_eq_false refused]

/-- A granted request is a vote in the history, unless the vote has been cast before or
the term already has a leader. -/
theorem vote_history (coupled : Coupled c strict s h) {i : String} (member : i ∈ c.members)
    {term : Nat} {candidate : String} {lastLogIndex lastLogTerm : Nat} (different : candidate ≠ i)
    (truthful : Truthful c strict h (i, .requestVote term candidate lastLogIndex lastLogTerm))
    (granted : grants (s.node i) term candidate lastLogIndex lastLogTerm) :
    ∃ h', (histories c strict).Reaches h h' ∧ ActsAlone i h h' ∧
      Agrees c strict h' i (voted (s.node i) candidate) ∧ Granted h' term i candidate := by
  have agrees := coupled.nodes i member
  rcases granted with ⟨rfl, upToDate, available⟩
  -- a node that can still vote for another node is no candidate
  have noCandidate : ∀ {votes}, (s.node i).state ≠ .candidate votes := by
    intro votes isCandidate
    have own := (agrees.candidate isCandidate).1
    rcases available with none_ | same
    · exact absurd (own.symm.trans none_) (by simp)
    · exact different (Option.some.inj (same.symm.trans own))
  cases elected : h.leader (s.node i).term with
  | some leader =>
      have chosen : ∀ {leader' log}, h.leader (s.node i).term = some leader' →
          h.vote (s.node i).term i = some (leader', log) → candidate = leader' := by
        intro leader' log leads voted
        have own := agrees.voter leads voted
        rcases available with none_ | same
        · exact absurd (own.symm.trans none_) (by simp)
        · exact Option.some.inj (same.symm.trans own)
      have closed : h.leader (s.node i).term ≠ none := elected ▸ Option.some_ne_none leader
      refine ⟨h, TransitionSystem.Reaches.refl _ _, ActsAlone.refl i h, ?_,
        fun open_ => absurd open_ closed, fun _ _ => chosen⟩
      exact
        { id := agrees.id
          peers := agrees.peers
          term := agrees.term
          log := agrees.log
          vote := fun open_ => absurd open_ closed
          voter := fun leads voted => congrArg some (chosen leads voted)
          leads := agrees.leads
          candidate := fun isCandidate => absurd isCandidate noCandidate
          acked := agrees.acked
          commit := agrees.commit }
  | none =>
      rcases truthful.2 elected with ⟨log, own, lengthEq, termEq⟩
      -- the vote is new, or it has been cast for the same candidate
      have cast : ∃ h', (histories c strict).Reaches h h' ∧ ActsAlone i h h' ∧
          h'.term = h.term ∧ h'.log = h.log ∧ h'.leader = h.leader ∧
            ∃ log, h'.vote (s.node i).term i = some (candidate, log) := by
        rcases available with none_ | same
        · have fresh : h.vote (h.term i) i = none := by
            rw [agrees.term]
            cases recorded : h.vote (s.node i).term i with
            | none => rfl
            | some vote =>
                have before := (agrees.vote elected vote.1).mpr ⟨vote.2, recorded⟩
                exact absurd (none_.symm.trans before) (by simp)
          have eligible : UpToDate log (h.log i) := by
            rw [agrees.log]
            rw [lengthEq, termEq] at upToDate
            exact upToDate
          have step : Step (quorums c) (Allowed strict) h i (h.castVote i candidate) :=
            Step.vote h i candidate (agrees.term ▸ elected) fresh
              (Or.inr ⟨log, agrees.term.symm ▸ own, eligible⟩)
          refine ⟨_, TransitionSystem.Reaches.single i step,
            step.actsAlone coupled.valid, rfl, rfl, rfl, h.log i, ?_⟩
          simp only [History.castVote, agrees.term, History.record_self]
        · exact ⟨h, TransitionSystem.Reaches.refl _ _, ActsAlone.refl i h, rfl, rfl, rfl,
            (agrees.vote elected candidate).mp same⟩
      rcases cast with ⟨h', path, alone, sameTerm, sameLog, sameLeader, votedLog, voted⟩
      have open_ : h'.leader (s.node i).term = none := sameLeader ▸ elected
      refine ⟨h', path, alone, ?_, fun _ => ⟨votedLog, voted⟩,
        fun _ _ leads => absurd (open_.symm.trans leads) (by simp)⟩
      refine
        { id := agrees.id
          peers := agrees.peers
          term := sameTerm ▸ agrees.term
          log := sameLog ▸ agrees.log
          vote := ?_
          voter := fun leads => absurd (open_.symm.trans leads) (by simp)
          leads := by rw [sameLeader]; exact agrees.leads
          candidate := fun isCandidate => absurd isCandidate noCandidate
          acked := ?_
          commit := fun isStrict => ⟨(agrees.commit isStrict).1,
            (agrees.commit isStrict).2.mono alone.toExtends⟩ }
      · intro _ candidate'
        simp only [Cluster.voted, voted, Option.some.injEq, Prod.mk.injEq, exists_and_left,
          exists_eq', and_true]
      · intro nextIndex matchIndex isLeader p m found
        have fact := agrees.acked isLeader found
        exact ⟨fact.1, fun isStrict => (fact.2 isStrict).trans (alone.ack _ _)⟩

/-- A request and its grant are the same ballot. -/
theorem ballot_answer (i candidate : String) (term lastLogIndex lastLogTerm : Nat) (term' : Nat)
    (voter candidate' : String) :
    ballot term' voter candidate' (candidate, .voteReply term i true) =
      ballot term' voter candidate' (i, .requestVote term candidate lastLogIndex lastLogTerm) := by
  simp only [ballot, decide_eq_decide, and_true]
  constructor
  · rintro ⟨first, second, third⟩
    exact ⟨third, second, first⟩
  · rintro ⟨first, second, third⟩
    exact ⟨third, second, first⟩

theorem Coupled.requestVote (coupled : Coupled c strict s h) {i : String} (member : i ∈ c.members)
    {term : Nat} {candidate : String} {lastLogIndex lastLogTerm : Nat} (different : candidate ≠ i)
    {rest : List (String × RaftMsg)}
    (copy : s.flight.Perm ((i, .requestVote term candidate lastLogIndex lastLogTerm) :: rest))
    {n : RaftNode} {out : List Envelope}
    (answered : (s.node i).stepRequestVote term candidate lastLogIndex lastLogTerm = (n, out))
    (notLater : ¬ (s.node i).term < term) :
    Matched c strict h s
      { s with node := Function.update s.node i n, flight := rest ++ out.flatMap c.copies } := by
  have agrees := coupled.nodes i member
  have part : rest.Subperm s.flight :=
    ((List.sublist_cons_self _ _).subperm).trans copy.symm.subperm
  by_cases granted : grants (s.node i) term candidate lastLogIndex lastLogTerm
  · rw [stepRequestVote_granted granted, Prod.mk.injEq] at answered
    rcases answered with ⟨rfl, rfl⟩
    have truthful := coupled.flight _ (copy.symm.subset List.mem_cons_self)
    rcases vote_history coupled member different truthful granted with
      ⟨h', path, alone, agrees', grantedVote⟩
    rw [← granted.1, agrees.id]
    apply coupled.update path alone agrees'
    · intro sent inFlight
      rcases List.mem_append.mp inFlight with old | new
      · exact Or.inl (part.subset old)
      · rw [List.mem_singleton.mp new]
        exact Or.inr fun _ => ⟨member, different.symm, grantedVote⟩
    · refine coupled.ballots.fewer alone.toExtends ?_
        (Nat.le_refl (voted (s.node i) candidate).term)
        (fun votes isCandidate => ⟨isCandidate, rfl⟩)
      intro term' voter candidate'
      rw [pending_append, pending_perm copy, pending_cons]
      show _ + pending [(candidate, _)] term' voter candidate' ≤ _
      rw [pending_cons, ballot_answer i candidate term lastLogIndex lastLogTerm]
      simp only [pending, List.countP_nil, Nat.zero_add, Nat.le_refl]
    · exact fun _ => List.prefix_rfl
  · rw [stepRequestVote_refused notLater granted, Prod.mk.injEq] at answered
    rcases answered with ⟨rfl, rfl⟩
    apply coupled.reply agrees part _ _ rfl (fun _ isCandidate => isCandidate)
      (fun _ => List.prefix_rfl)
    · intro sent inNew
      rw [List.mem_singleton.mp inNew]
      exact fun impossible => absurd impossible Bool.false_ne_true
    · intro sent inNew term' voter candidate'
      rw [List.mem_singleton.mp inNew]
      simp only [ballot, Bool.false_eq_true, and_false, decide_false]

/-! ## Counting a vote -/

/-- The candidate with one more vote. -/
def counting (n : RaftNode) (votes : Nat) : RaftNode :=
  { n with state := .candidate (votes + 1) }

theorem stepVoteReply_of_candidate {n : RaftNode} {votes : Nat}
    (isCandidate : n.state = .candidate votes) {term : Nat} (notLater : ¬ n.term < term)
    (granted : Bool) : n.stepVoteReply term granted =
      if term = n.term ∧ granted = true then
        if n.majority ≤ votes + 1 then (counting n votes).becomeLeader
        else some (counting n votes, [])
      else some (n, []) := by
  simp only [RaftNode.stepVoteReply, if_neg notLater, isCandidate]
  rfl

theorem stepVoteReply_ignored {n : RaftNode} (noCandidate : ∀ votes, n.state ≠ .candidate votes)
    {term : Nat} (notLater : ¬ n.term < term) (granted : Bool) :
    n.stepVoteReply term granted = some (n, []) := by
  cases state : n.state with
  | candidate votes => exact absurd state (noCandidate votes)
  | follower => simp only [RaftNode.stepVoteReply, if_neg notLater, state]
  | leader nextIndex matchIndex => simp only [RaftNode.stepVoteReply, if_neg notLater, state]

/-- A candidate counts the grant of a voter that it has not counted before. -/
theorem Coupled.count (coupled : Coupled c strict s h) {i : String} (member : i ∈ c.members)
    {votes : Nat} (isCandidate : (s.node i).state = .candidate votes) {sender : String}
    {rest : List (String × RaftMsg)}
    (copy : s.flight.Perm ((i, .voteReply (s.node i).term sender true) :: rest)) :
    Matched c strict h s
      { s with node := Function.update s.node i (counting (s.node i) votes), flight := rest } := by
  have agrees := coupled.nodes i member
  have part : rest.Subperm s.flight :=
    ((List.sublist_cons_self _ _).subperm).trans copy.symm.subperm
  have fewer : ∀ term voter candidate, pending rest term voter candidate ≤
      pending s.flight term voter candidate := fun _ _ _ => part.countP_le _
  rcases coupled.flight _ (copy.symm.subset List.mem_cons_self) rfl with
    ⟨inCluster, different, granted⟩
  -- the ballot that leaves was the only one of this voter
  have leaves : pending s.flight (s.node i).term sender i =
      pending rest (s.node i).term sender i + 1 := by
    rw [pending_perm copy, pending_cons]
    simp only [ballot, and_self, decide_true, if_true]
  have gone : pending rest (s.node i).term sender i = 0 := by
    have once : pending s.flight (s.node i).term sender i ≤ 1 := coupled.ballots.once different
    omega
  apply coupled.update (TransitionSystem.Reaches.refl _ _) (ActsAlone.refl i h)
  · exact
      { id := agrees.id
        peers := agrees.peers
        term := agrees.term
        log := agrees.log
        vote := agrees.vote
        voter := agrees.voter
        leads := by
          have before := agrees.leads
          rw [RaftNode.isLeader, isCandidate] at before
          exact before
        candidate := fun _ => agrees.candidate isCandidate
        acked := fun impossible => absurd impossible (by simp [counting])
        commit := agrees.commit }
  · exact fun sent inRest => Or.inl (part.subset inRest)
  · refine { once := fun other => (fewer _ _ _).trans (coupled.ballots.once other), future := ?_,
             counted := ?_ }
    · intro term voter candidate inMembers other above
      have bound : (s.node candidate).term < term := by
        by_cases here : candidate = i
        · subst here
          simp only [Function.update_self] at above
          exact above
        · simpa only [Function.update_of_ne here] using above
      have zero := coupled.ballots.future inMembers other bound
      exact Nat.le_zero.mp ((fewer _ _ _).trans (Nat.le_of_eq zero))
    · intro j votes' inMembers isCandidate'
      by_cases here : j = i
      · subst here
        simp only [Function.update_self, counting, RaftState.candidate.injEq] at isCandidate' ⊢
        rcases coupled.ballots.counted inMembers isCandidate with
          ⟨voters, subset, own, card, facts⟩
        have fresh : sender ∉ voters := by
          intro inVoters
          have zero := (facts sender inVoters different).1
          omega
        refine ⟨insert sender voters, ?_, Finset.mem_insert_of_mem own, ?_, ?_⟩
        · exact Finset.insert_subset (List.mem_toFinset.mpr inCluster) subset
        · rw [Finset.card_insert_of_notMem fresh, card, isCandidate']
        · intro voter inVoters other
          rcases Finset.mem_insert.mp inVoters with equal | old
          · subst equal
            exact ⟨gone, granted⟩
          · have fact := facts voter old other
            exact ⟨Nat.le_zero.mp ((fewer _ _ _).trans (Nat.le_of_eq fact.1)), fact.2⟩
      · simp only [Function.update_of_ne here] at isCandidate' ⊢
        rcases coupled.ballots.counted inMembers isCandidate' with
          ⟨voters, subset, own, card, facts⟩
        refine ⟨voters, subset, own, card, fun voter inVoters other => ?_⟩
        have fact := facts voter inVoters other
        exact ⟨Nat.le_zero.mp ((fewer _ _ _).trans (Nat.le_of_eq fact.1)), fact.2⟩
  · exact fun _ => List.prefix_rfl

theorem Coupled.voteReply (coupled : Coupled c strict s h) {i : String} (member : i ∈ c.members)
    {term : Nat} {sender : String} {granted : Bool} {rest : List (String × RaftMsg)}
    (copy : s.flight.Perm ((i, .voteReply term sender granted) :: rest))
    {n : RaftNode} {out : List Envelope}
    (counted : (s.node i).stepVoteReply term granted = some (n, out))
    (notLater : ¬ (s.node i).term < term) :
    Matched c strict h s
      { s with node := Function.update s.node i n, flight := rest ++ out.flatMap c.copies } := by
  have part : rest.Subperm s.flight :=
    ((List.sublist_cons_self _ _).subperm).trans copy.symm.subperm
  by_cases isCandidate : ∃ votes, (s.node i).state = .candidate votes
  · rcases isCandidate with ⟨votes, isCandidate⟩
    rw [stepVoteReply_of_candidate isCandidate notLater] at counted
    split at counted
    · next isGrant =>
        rcases isGrant with ⟨rfl, rfl⟩
        have first := coupled.count member isCandidate copy
        split at counted
        · next enough =>
            refine first.trans fun h' coupled' => ?_
            have won := coupled'.elect member (votes + 1)
              (by simp only [Function.update_self]; rfl)
              (by simp only [Function.update_self]; exact enough)
              (by simp only [Function.update_self]; exact counted)
            simpa only [Function.update_idem] using won
        · rw [Option.some.injEq, Prod.mk.injEq] at counted
          rcases counted with ⟨rfl, rfl⟩
          rw [List.flatMap_nil, List.append_nil]
          exact first
    · rw [Option.some.injEq, Prod.mk.injEq] at counted
      rcases counted with ⟨rfl, rfl⟩
      exact coupled.drop member part
  · rw [stepVoteReply_ignored (fun votes state => isCandidate ⟨votes, state⟩) notLater,
      Option.some.injEq, Prod.mk.injEq] at counted
    rcases counted with ⟨rfl, rfl⟩
    exact coupled.drop member part

end Cluster
end Sigil
