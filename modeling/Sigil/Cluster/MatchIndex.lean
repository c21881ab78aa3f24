import Sigil.Cluster.Cursors

namespace Sigil
namespace Cluster

/-!
# What a leader counts as replicated

A follower acknowledges its whole log, which at that moment is a state of the leader's log.
The acknowledgement stays true as long as the follower stays in the term and no older append
of the same leader shortens its log.  An acknowledgement of an earlier term may be about
entries that nobody has any more.
-/

open Library Library.Replication

variable {c : Membership}

/-- Every leader counts for a peer of its own term only entries that are in the peer's log. -/
def MatchTruthful (T : TransitionSystem Net Event) (c : Membership) : Prop :=
  ∀ s, T.Reachable s → ∀ i, i ∈ c.members → ∀ nextIndex matchIndex,
    (s.node i).state = .leader nextIndex matchIndex → ∀ p, p ∈ c.peers i →
      (s.node p).term = (s.node i).term → ∀ m, matchIndex.lookup p = some m →
        m ≤ (s.node p).log.length ∧ (s.node p).log.take m = (s.node i).log.take m

/-- The node has told the leader of the term that it has so many entries: the reply is in
flight, or the leader has counted it. -/
def Acknowledged (s : Net) (p : String) (term m : Nat) : Prop :=
  (∃ dst, (dst, .appendReply term p true m) ∈ s.flight) ∨
    ∃ i nextIndex matchIndex, (s.node i).state = .leader nextIndex matchIndex ∧
      (s.node i).term = term ∧ matchIndex.lookup p = some m

/-- An append that leaves the log of the node shorter than the node has acknowledged in the
same term. -/
def Drops (s : Net) : String × RaftMsg → Prop
  | (i, .appendEntries term _ prevIndex prevTerm entries _) =>
      term = (s.node i).term ∧ (s.node i).consistent prevIndex prevTerm = true ∧
        ∃ m, Acknowledged s i term m ∧ ((s.node i).log.take prevIndex ++ entries).length < m
  | _ => False

/-- The event delivers no such append. -/
def NoDrop (s : Net) (event : Event) : Prop :=
  ∀ copy, copy ∈ s.delivered event → ¬ Drops s copy

/-- The runs without such appends and without acknowledgements of earlier terms. -/
def Membership.acknowledgingSystem (c : Membership) : TransitionSystem Net Event :=
  c.system.restrict fun s event => NoStale s event ∧ NoDrop s event

/-! ## One node -/

/-- Where a leader has the index from that it counts for a peer. -/
def Counted (n : RaftNode) (received : Option RaftMsg) (n' : RaftNode) (p : String) (m : Nat) :
    Prop :=
  m = 0 ∨ n'.term = n.term ∧
    ((∃ nextIndex matchIndex, n.state = .leader nextIndex matchIndex ∧
        matchIndex.lookup p = some m) ∨
      n.isLeader = true ∧
        ∃ term, received = some (.appendReply term p true m) ∧ ¬ n.term < term)

/-- A node that is no leader has counted nothing. -/
theorem Counted.eq_zero {n n' : RaftNode} {received : Option RaftMsg} {p : String} {m : Nat}
    (counted : Counted n received n' p m) (notLeader : n.isLeader = false) : m = 0 := by
  rcases counted with zero | ⟨-, ⟨nextIndex, matchIndex, state, -⟩ | ⟨isLeader, -⟩⟩
  · exact zero
  · rw [RaftNode.isLeader, state] at notLeader
    cases notLeader
  · exact absurd (notLeader.symm.trans isLeader) Bool.false_ne_true

theorem Moves.counted {n n' : RaftNode} {received : Option RaftMsg} {out : List Envelope}
    (moves : Moves n received n' out) {nextIndex matchIndex : PeerIndex}
    (state : n'.state = .leader nextIndex matchIndex) {p : String} {m : Nat}
    (found : matchIndex.lookup p = some m) : Counted n received n' p m := by
  induction moves with
  | stay alike quiet =>
      exact Or.inr ⟨alike.term,
        Or.inl ⟨nextIndex, matchIndex, alike.state ▸ state, found⟩⟩
  | fall later rest inductionHypothesis => exact Or.inl ((inductionHypothesis state).eq_zero rfl)
  | yield busy rest inductionHypothesis => exact Or.inl ((inductionHypothesis state).eq_zero rfl)
  | stand rest inductionHypothesis => exact Or.inl ((inductionHypothesis state).eq_zero rfl)
  | count isCandidate rest inductionHypothesis =>
      exact Or.inl ((inductionHypothesis state).eq_zero rfl)
  | lead isCandidate alike quiet =>
      left
      rw [alike.state] at state
      cases state
      exact (lookup_map_toAList found).2
  | grant different granted =>
      exact Or.inr ⟨rfl, Or.inl ⟨nextIndex, matchIndex, state, found⟩⟩
  | append entry isLeader alike quiet =>
      exact Or.inr ⟨alike.term,
        Or.inl ⟨nextIndex, matchIndex, alike.state ▸ state, found⟩⟩
  | accept follower consistent =>
      rw [follows_eq] at state
      cases follower.symm.trans state
  | @track n n' term sender m' nextIndex' matchIndex' state' notLater alike =>
      refine Or.inr ⟨alike.term, ?_⟩
      rw [alike.state] at state
      cases state
      by_cases same : p = sender
      · subst same
        rw [AList.lookup_insert, Option.some.injEq] at found
        subst found
        exact Or.inr ⟨by rw [RaftNode.isLeader, state'], term, rfl, notLater⟩
      · rw [AList.lookup_insert_ne same] at found
        exact Or.inl ⟨nextIndex', matchIndex', state', found⟩
  | back state' notLater =>
      cases state
      exact Or.inr ⟨rfl, Or.inl ⟨_, _, state', found⟩⟩

/-- The node has what it has acknowledged: as long as it is in the term, its log begins with
so many entries of the leader's log. -/
def Holds (h : Hist) (n : RaftNode) (term m : Nat) : Prop :=
  m = 0 ∨ term ≤ n.term ∧
    (n.term = term → m ≤ n.log.length ∧ n.log.take m <+: h.leaderLog term)

theorem Holds.mono {h h' : Hist} (grow : Extends h h') {n : RaftNode} {term m : Nat}
    (holds : Holds h n term m) : Holds h' n term m := by
  rcases holds with zero | ⟨reached, here⟩
  · exact Or.inl zero
  · exact Or.inr ⟨reached,
      fun same => ⟨(here same).1, (here same).2.trans (grow.leaderLog term)⟩⟩

/-- The node still holds the entries after a step that does not drop them. -/
theorem Holds.moves {h : Hist} {n n' : RaftNode} {received : Option RaftMsg} {out : List Envelope}
    {term m : Nat} (holds : Holds h n term m) (moves : Moves n received n' out)
    (accepts : ∀ leader prevIndex prevTerm entries leaderCommit,
      Accepted n received n' out leader prevIndex prevTerm entries leaderCommit →
        n'.term = n.term →
        n.term = term → m ≤ n'.log.length ∧
          n'.log <+: h.leaderLog term) : Holds h n' term m := by
  rcases holds with zero | ⟨reached, here⟩
  · exact Or.inl zero
  · refine Or.inr ⟨reached.trans moves.term, fun same => ?_⟩
    have before : n.term = term := Nat.le_antisymm (same ▸ moves.term) reached
    rcases here before with ⟨bound, part⟩
    rcases moves.stored with ⟨kept | ⟨entry, appended⟩, -⟩ |
      ⟨leader, prevIndex, prevTerm, entries, leaderCommit, accepted⟩
    · rw [kept]
      exact ⟨bound, part⟩
    · rw [appended, List.take_append_of_le_length bound]
      exact ⟨bound.trans (List.prefix_append _ _).length_le, part⟩
    · rcases accepts _ _ _ _ _ accepted (same.trans before.symm) before with ⟨bound', part'⟩
      exact ⟨bound', (List.take_prefix m n'.log).trans part'⟩

/-! ## The cluster -/

/-- Whatever is acknowledged is there. -/
def Backed (h : Hist) (s : Net) : Prop :=
  ∀ p term m, Acknowledged s p term m → Holds h (s.node p) term m

/-- What is acknowledged after a step was acknowledged before, or has just been stored. -/
theorem Acknowledged.of_act {s : Net} {i : String} {received : Option RaftMsg} {n : RaftNode}
    {out : List Envelope} {rest : List (String × RaftMsg)} (part : rest ⊆ s.flight)
    (inFlight : ∀ msg, received = some msg → (i, msg) ∈ s.flight)
    (current : ∀ msg, received = some msg → ¬ Stale (s.node i) msg)
    (moves : Moves (s.node i) received n out) {p : String} {term m : Nat}
    (acknowledged : Acknowledged ({ s with flight := rest }.act c i (some (n, out))) p term m) :
    m = 0 ∨ Acknowledged s p term m ∨ p = (s.node i).id ∧
      term = n.term ∧ m = n.log.length ∧
      ∃ leader prevIndex prevTerm entries leaderCommit,
        Accepted (s.node i) received n out leader prevIndex prevTerm entries leaderCommit := by
  rcases acknowledged with ⟨dst, copy⟩ | ⟨j, nextIndex, matchIndex, state, sameTerm, found⟩
  · rcases List.mem_append.mp copy with old | new
    · exact Or.inr (Or.inl (Or.inl ⟨dst, part old⟩))
    · rcases moves.stored.of_mem_copies new with
        ⟨atTerm, sender, atLength, prevIndex, prevTerm, entries, leaderCommit, accepted⟩
      exact Or.inr (Or.inr ⟨sender, atTerm, atLength, dst, prevIndex, prevTerm, entries,
        leaderCommit, accepted⟩)
  · by_cases here : j = i
    · subst here
      simp only [Net.act, Function.update_self] at state sameTerm
      rcases moves.counted state found with
        zero | ⟨same, ⟨nextIndex', matchIndex', state', found'⟩ | ⟨isLeader, term',
          isReply, notLater⟩⟩
      · exact Or.inl zero
      · exact Or.inr (Or.inl (Or.inr
          ⟨j, nextIndex', matchIndex', state', same.symm.trans sameTerm, found'⟩))
      · rcases Nat.lt_or_eq_of_le (Nat.le_of_not_lt notLater) with old | equal
        · exact absurd ⟨isLeader, old, rfl⟩ (current _ isReply)
        · have atTerm : term' = term := equal.trans (same.symm.trans sameTerm)
          rw [← atTerm]
          exact Or.inr (Or.inl (Or.inl ⟨j, inFlight _ isReply⟩))
    · simp only [Net.act, Function.update_of_ne here] at state sameTerm
      exact Or.inr (Or.inl (Or.inr ⟨j, nextIndex, matchIndex, state, sameTerm, found⟩))

theorem Backed.step {s s' : Net} {h : Hist} (backed : Backed h s) (coupled : Coupled c False s h)
    {event : Event} (current : NoStale s event) (noDrop : NoDrop s event)
    (step : s.step c event = some s') : ∃ h', Coupled c False s' h' ∧ Backed h' s' := by
  rcases coupled.step False.elim step with ⟨h', path, coupled', -⟩
  refine ⟨h', coupled', ?_⟩
  have grow := (coupled.valid.reaches path).2
  rcases Net.step_cases step with
    ⟨i, received, result, rest, member, handles, delivered, copies, rfl⟩
  have inFlight : ∀ msg, received = some msg → (i, msg) ∈ s.flight := by
    rintro msg rfl
    exact copies.symm.subset List.mem_cons_self
  have part : rest ⊆ s.flight :=
    fun copy inRest => copies.symm.subset (List.mem_append_right _ inRest)
  cases result with
  | none =>
      rintro p term m (⟨dst, copy⟩ | counted)
      · exact (backed p term m (Or.inl ⟨dst, part copy⟩)).mono grow
      · exact (backed p term m (Or.inr counted)).mono grow
  | some pair =>
      have moves := handles.moves
      intro p term m acknowledged
      rcases acknowledged.of_act part inFlight (fun msg isCopy =>
        current _ (delivered msg isCopy)) moves
        with zero | old | ⟨sender, rfl, rfl, leader, prevIndex, prevTerm, entries,
          leaderCommit, accepted⟩
      · exact Or.inl zero
      · have holds := backed p term m old
        by_cases here : p = i
        · subst here
          simp only [Net.act, Function.update_self]
          refine (holds.moves moves ?_).mono grow
          intro leader prevIndex prevTerm entries leaderCommit accepted sameTerm before
          have stays : ¬ pair.1.log.length < m := by
            intro short
            rw [accepted.log] at short
            exact noDrop _ (delivered _ accepted.received)
              ⟨sameTerm, accepted.consistent, m, (sameTerm.trans before).symm ▸ old, short⟩
          have new := accepted.partOf coupled member rfl inFlight
          rw [sameTerm, before] at new
          exact ⟨Nat.le_of_not_lt stays, new⟩
        · simp only [Net.act, Function.update_of_ne here]
          exact holds.mono grow
      · -- the acknowledgement that has just been sent
        have here : p = i := sender.trans (coupled.nodes i member).id
        subst here
        simp only [Net.act, Function.update_self]
        refine Or.inr ⟨Nat.le_refl _, fun _ => ⟨Nat.le_refl _, ?_⟩⟩
        rw [List.take_length]
        exact (accepted.partOf coupled member rfl inFlight).trans (grow.leaderLog _)

theorem backed_start (c : Membership) : Backed (History.initial : Hist) c.start := by
  rintro p term m (⟨dst, copy⟩ | ⟨i, nextIndex, matchIndex, state, -⟩)
  · exact absurd copy List.not_mem_nil
  · cases state

theorem backed_of_reachable {s : Net} (reachable : c.acknowledgingSystem.Reachable s) :
    ∃ h, Coupled c False s h ∧ Backed h s := by
  refine reachable.invariant (fun s => ∃ h, Coupled c False s h ∧ Backed h s) ?_ ?_
  · rintro s rfl
    exact ⟨_, coupled_start c False, backed_start c⟩
  · rintro before event after ⟨h, coupled, backed⟩ ⟨⟨current, noDrop⟩, step⟩
    exact backed.step coupled current noDrop step

/-- What a leader counts is there, on the runs that take no acknowledged entry away and count
no old acknowledgement. -/
theorem match_index_truthful (c : Membership) : MatchTruthful c.acknowledgingSystem c := by
  intro s reachable i member nextIndex matchIndex state p inPeers sameTerm m found
  rcases backed_of_reachable reachable with ⟨h, coupled, backed⟩
  have leads := log_of_leader coupled member (by rw [RaftNode.isLeader, state])
  rcases backed p _ m (Or.inr ⟨i, nextIndex, matchIndex, state, rfl, found⟩) with
    rfl | ⟨-, here⟩
  · exact ⟨Nat.zero_le _, rfl⟩
  · rcases here sameTerm with ⟨bound, part⟩
    refine ⟨bound, ?_⟩
    rw [leads, List.prefix_iff_eq_take.mp part, List.length_take, Nat.min_eq_left bound]

/-- The late append of `overtaken` empties the log of `b` after `a` has counted its entry. -/
theorem not_matchTruthful_three : ¬ MatchTruthful three.system three := by
  intro truthful
  have ran : (TransitionSystem.follow (Net.step three) three.start
      (overtaken ++ [Event.deliver 2])).map (fun s => ((s.node "a").term, (s.node "b").term,
        (s.node "b").log, RaftState.rec (motive := fun _ => Option Nat) none (fun _ => none)
          (fun _ matchIndex => matchIndex.lookup "b") (s.node "a").state)) =
            some (1, 1, [], some 1) := by
    decide +kernel
  rcases Option.map_eq_some_iff.mp ran with ⟨s, followed, facts⟩
  rw [Prod.mk.injEq, Prod.mk.injEq, Prod.mk.injEq] at facts
  rcases facts with ⟨aTerm, bTerm, bLog, counted⟩
  have run : three.system.Reaches three.start s :=
    TransitionSystem.Reaches.of_follow (fun _ _ _ step => step) followed
  cases state : (s.node "a").state with
  | follower =>
      rw [state] at counted
      cases counted
  | candidate votes =>
      rw [state] at counted
      cases counted
  | leader nextIndex matchIndex =>
      rw [state] at counted
      have there := truthful s ⟨_, rfl, run⟩ "a" (by decide) nextIndex matchIndex state "b"
        (by decide) (bTerm.trans aTerm.symm) 1 counted
      rw [bLog] at there
      exact absurd there.1 (by decide)

end Cluster
end Sigil
