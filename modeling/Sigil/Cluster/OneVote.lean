import Sigil.Cluster.Moves
import Sigil.Cluster.Safety

namespace Sigil
namespace Cluster

/-!
# One vote in a term

A node that votes within its term stays with its vote until the term is over, unless it hears
from the leader of the term while it is a candidate: then it forgets that it has voted for
itself, and may vote again.  On the runs without such a delivery a ledger of all votes can be
kept, and nobody votes twice in it.
-/

open Library

variable {c : Membership}

/-- The message makes a candidate a follower of its own term. -/
def Clears (n : RaftNode) : RaftMsg → Prop
  | .appendEntries term _ _ _ _ _ => term = n.term ∧ ∃ votes, n.state = .candidate votes
  | _ => False

/-- The event delivers no append of its own term to a candidate. -/
def KeepsVote (s : Net) (event : Event) : Prop :=
  ∀ copy, copy ∈ s.delivered event → ¬ Clears (s.node copy.1) copy.2

/-- The node is a candidate in the term, or the leader that it became as a candidate. -/
def Stands (s : Net) (i : String) (term : Nat) : Prop :=
  (s.node i).term = term ∧ (s.node i).state ≠ .follower

/-- A vote of the node for the candidate has been sent. -/
def HasGranted (s : Net) (i : String) (term : Nat) (candidate : String) : Prop :=
  (candidate, .voteReply term i true) ∈ s.flight

/-- At any two moments of a run the votes of a node in a term agree: a candidate votes for no
other node, and a node that has voted for another one votes for no third one and does not
stand itself. -/
def OneVote (T : TransitionSystem Net Event) (c : Membership) : Prop :=
  ∀ s s', T.Reachable s → T.Reaches s s' → ∀ i, i ∈ c.members → ∀ term,
    (Stands s i term → ∀ candidate, ¬ HasGranted s' i term candidate) ∧
      ∀ candidate, HasGranted s i term candidate →
        ¬ Stands s' i term ∧ ∀ other, HasGranted s' i term other → other = candidate

/-! ## One node -/

/-- What a step of a node does to its vote. -/
structure VoteStep (n n' : RaftNode) (out : List Envelope) : Prop where
  id : n'.id = n.id
  term : n.term ≤ n'.term
  keeps : n'.term = n.term → ∀ candidate, n.votedFor = some candidate →
    n'.votedFor = some candidate
  stands : n'.state ≠ .follower → n'.votedFor = some n'.id
  grants : ∀ envelope, envelope ∈ out → ∀ term sender,
    envelope.msg = .voteReply term sender true →
    term = n'.term ∧ sender = n'.id ∧
      ∃ candidate, envelope.dest = some candidate ∧ candidate ≠ n'.id ∧
        n'.votedFor = some candidate

theorem Quiet.noGrant {out : List Envelope} (quiet : Quiet out) {envelope : Envelope}
    (member : envelope ∈ out) {term : Nat} {sender : String} :
    envelope.msg ≠ .voteReply term sender true := by
  intro isGrant
  have refused := quiet envelope member
  rw [isGrant] at refused
  cases refused

/-- A step that keeps term and vote and grants nothing. -/
theorem VoteStep.of_same {n n' : RaftNode} {out : List Envelope} (id : n'.id = n.id)
    (term : n'.term = n.term) (votedFor : n'.votedFor = n.votedFor)
    (stands : n'.state ≠ .follower → n.votedFor = some n.id) (quiet : Quiet out) :
    VoteStep n n' out where
  id := id
  term := Nat.le_of_eq term.symm
  keeps _ _ voted := votedFor.trans voted
  stands busy := by
    rw [votedFor, id]
    exact stands busy
  grants _ member _ _ isGrant := absurd isGrant (quiet.noGrant member)

/-- In a later term the vote is free. -/
theorem VoteStep.afterFall {n middle n' : RaftNode} {out : List Envelope}
    (rest : VoteStep middle n' out) (id : middle.id = n.id) (later : n.term < middle.term) :
    VoteStep n n' out where
  id := rest.id.trans id
  term := (Nat.le_of_lt later).trans rest.term
  keeps same := absurd same (Nat.ne_of_gt (Nat.lt_of_lt_of_le later rest.term))
  stands := rest.stands
  grants := rest.grants

theorem Moves.voteStep {n n' : RaftNode} {received : Option RaftMsg} {out : List Envelope}
    (moves : Moves n received n' out) (own : n.state ≠ .follower → n.votedFor = some n.id)
    (follower : ∀ leader prevIndex prevTerm entries leaderCommit,
      received = some (.appendEntries n.term leader prevIndex prevTerm entries leaderCommit) →
        n.state = .follower) :
    VoteStep n n' out := by
  induction moves with
  | stay alike quiet =>
      exact VoteStep.of_same alike.id alike.term alike.votedFor (alike.state ▸ own) quiet
  | fall later rest inductionHypothesis =>
      have step := inductionHypothesis (fun busy => absurd rfl busy) (fun _ _ _ _ _ _ => rfl)
      exact step.afterFall rfl later
  | yield busy rest inductionHypothesis => exact absurd (follower _ _ _ _ _ rfl) busy
  | stand rest inductionHypothesis =>
      have step :=
        inductionHypothesis (fun _ => rfl) (fun _ _ _ _ _ impossible => nomatch impossible)
      exact step.afterFall rfl (Nat.lt_succ_self _)
  | @count n n' received out votes isCandidate rest inductionHypothesis =>
      have voted := own (by rw [isCandidate]; exact RaftState.noConfusion)
      have step : VoteStep (counting n votes) n' out := by
        apply inductionHypothesis (fun _ => voted)
        intro leader prevIndex prevTerm entries leaderCommit isAppend
        have state := follower leader prevIndex prevTerm entries leaderCommit isAppend
        rw [isCandidate] at state
        cases state
      exact ⟨step.id, step.term, step.keeps, step.stands, step.grants⟩
  | lead isCandidate alike quiet =>
      have voted := own (by rw [isCandidate]; exact RaftState.noConfusion)
      exact VoteStep.of_same alike.id alike.term alike.votedFor (fun _ => voted) quiet
  | @grant n candidate lastLogIndex lastLogTerm different granted =>
      have available := granted.2.2
      refine ⟨rfl, Nat.le_refl _, fun _ other voted => ?_, fun busy => ?_, ?_⟩
      · rcases available with none_ | same
        · exact absurd (none_.symm.trans voted) (Option.some_ne_none other).symm
        · exact same.symm.trans voted
      · rcases available with none_ | same
        · exact absurd (none_.symm.trans (own busy)) (Option.some_ne_none _).symm
        · exact absurd (Option.some.inj (same.symm.trans (own busy))) different
      · intro envelope member term sender isGrant
        cases List.mem_singleton.mp member
        cases isGrant
        exact ⟨rfl, rfl, candidate, rfl, different, rfl⟩
  | append entry isLeader alike quiet =>
      exact VoteStep.of_same alike.id alike.term alike.votedFor (alike.state ▸ own) quiet
  | @accept n leader prevIndex prevTerm entries leaderCommit isFollower consistent =>
      rw [follows_eq]
      refine ⟨rfl, Nat.le_refl _, fun _ _ voted => voted, own, ?_⟩
      intro envelope member term sender isGrant
      cases List.mem_singleton.mp member
      cases isGrant
  | track state notLater alike =>
      have voted := own (by rw [state]; exact RaftState.noConfusion)
      exact VoteStep.of_same alike.id alike.term alike.votedFor (fun _ => voted) quiet_nil
  | back state notLater =>
      have voted := own (by rw [state]; exact RaftState.noConfusion)
      exact VoteStep.of_same rfl rfl rfl (fun _ => voted) quiet_nil

/-! ## The ledger of all votes -/

/-- The candidate that each node has voted for in each term. -/
abbrev Ledger := String → Nat → Option String

/-- No vote is taken back. -/
def Ledger.Extends (before after : Ledger) : Prop :=
  ∀ i term candidate, before i term = some candidate → after i term = some candidate

/-- The ledger has the votes of all nodes, also those of earlier terms. -/
structure Recorded (c : Membership) (ledger : Ledger) (s : Net) : Prop where
  id : ∀ i, i ∈ c.members → (s.node i).id = i
  current : ∀ i, i ∈ c.members → ledger i (s.node i).term = (s.node i).votedFor
  future : ∀ i, i ∈ c.members → ∀ term, (s.node i).term < term → ledger i term = none
  stands : ∀ i, i ∈ c.members → (s.node i).state ≠ .follower →
    (s.node i).votedFor = some i
  sent : ∀ i term candidate, HasGranted s i term candidate →
    i ∈ c.members ∧ candidate ≠ i ∧ ledger i term = some candidate

/-- The ledger after a node has come to a vote in its term. -/
def Ledger.enter (ledger : Ledger) (i : String) (n : RaftNode) : Ledger :=
  fun j term => if j = i ∧ term = n.term then n.votedFor else ledger j term

theorem Ledger.enter_self (ledger : Ledger) (i : String) (n : RaftNode) :
    ledger.enter i n i n.term = n.votedFor :=
  if_pos ⟨rfl, rfl⟩

theorem Recorded.enter_extends {ledger : Ledger} {s : Net} (recorded : Recorded c ledger s)
    {i : String} (member : i ∈ c.members) {n : RaftNode} {out : List Envelope}
    (step : VoteStep (s.node i) n out) : ledger.Extends (ledger.enter i n) := by
  intro j term candidate voted
  by_cases here : j = i ∧ term = n.term
  · rcases here with ⟨rfl, rfl⟩
    rw [Ledger.enter_self]
    rcases Nat.lt_or_eq_of_le step.term with later | same
    · exact absurd ((recorded.future j member _ later).symm.trans voted)
        (Option.some_ne_none candidate).symm
    · apply step.keeps same.symm
      rw [← recorded.current j member, same]
      exact voted
  · exact (if_neg here).trans voted

/-- The step lemma: what one node does is entered into the ledger. -/
theorem Recorded.act {ledger : Ledger} {s : Net} (recorded : Recorded c ledger s)
    {i : String} (member : i ∈ c.members) {n : RaftNode} {out : List Envelope}
    (step : VoteStep (s.node i) n out) {rest : List (String × RaftMsg)}
    (part : rest ⊆ s.flight) :
    Recorded c (ledger.enter i n)
      { s with node := Function.update s.node i n, flight := rest ++ out.flatMap c.copies } := by
  have grow := recorded.enter_extends member step
  have ownId : n.id = i := step.id.trans (recorded.id i member)
  constructor
  · intro j inMembers
    by_cases here : j = i
    · subst here
      simp only [Function.update_self]
      exact ownId
    · simp only [Function.update_of_ne here]
      exact recorded.id j inMembers
  · intro j inMembers
    by_cases here : j = i
    · subst here
      simp only [Function.update_self]
      exact ledger.enter_self j n
    · simp only [Function.update_of_ne here]
      exact (if_neg fun both => here both.1).trans (recorded.current j inMembers)
  · intro j inMembers term above
    by_cases here : j = i
    · subst here
      simp only [Function.update_self] at above
      exact (if_neg fun both => Nat.ne_of_gt above both.2).trans
        (recorded.future j inMembers term (Nat.lt_of_le_of_lt step.term above))
    · simp only [Function.update_of_ne here] at above
      exact (if_neg fun both => here both.1).trans (recorded.future j inMembers term above)
  · intro j inMembers busy
    by_cases here : j = i
    · subst here
      simp only [Function.update_self] at busy ⊢
      exact (step.stands busy).trans (congrArg some ownId)
    · simp only [Function.update_of_ne here] at busy ⊢
      exact recorded.stands j inMembers busy
  · intro j term candidate granted
    rcases List.mem_append.mp granted with old | new
    · rcases recorded.sent j term candidate (part old) with ⟨inMembers, different, voted⟩
      exact ⟨inMembers, different, grow j term candidate voted⟩
    · rcases List.mem_flatMap.mp new with ⟨envelope, inOut, inCopies⟩
      rcases Membership.of_mem_copies inCopies with ⟨isGrant, addressed⟩
      rcases step.grants envelope inOut term j isGrant with
        ⟨rfl, sender, other, dest, different, voted⟩
      have copy : candidate = other := addressed other dest
      have self : j = i := sender.trans ownId
      subst self copy
      exact ⟨member, ownId ▸ different, (ledger.enter_self j n).trans voted⟩

theorem recorded_start (c : Membership) : Recorded c (fun _ _ => none) c.start where
  id _ _ := rfl
  current _ _ := rfl
  future _ _ _ _ := rfl
  stands _ _ busy := absurd rfl busy
  sent _ _ _ granted := absurd granted List.not_mem_nil

/-! ## Runs -/

/-- The runs in which no candidate is sent back by an append of its own term. -/
def Membership.votingSystem (c : Membership) : TransitionSystem Net Event :=
  c.system.restrict KeepsVote

/-- A leader hears no append of its own term, for it is the only one who sends them. -/
theorem follower_of_append {s : Net} {h : Hist} (coupled : Coupled c False s h) {event : Event}
    (keeps : KeepsVote s event) {i leader : String} (member : i ∈ c.members)
    {prevIndex prevTerm leaderCommit : Nat} {entries : List LogEntry}
    (delivered : s.delivered event = some
      (i, .appendEntries (s.node i).term leader prevIndex prevTerm entries leaderCommit))
    (inFlight :
      (i, .appendEntries (s.node i).term leader prevIndex prevTerm entries leaderCommit) ∈
        s.flight) :
    (s.node i).state = .follower := by
  cases state : (s.node i).state with
  | follower => rfl
  | candidate votes => exact absurd ⟨rfl, votes, state⟩ (keeps _ delivered)
  | leader nextIndex matchIndex =>
      have leads := (coupled.nodes i member).leads.mp (by rw [RaftNode.isLeader, state])
      rcases coupled.flight _ inFlight with ⟨leads', different, -⟩
      exact absurd (Option.some.inj (leads.symm.trans leads')) different

theorem Recorded.step {ledger : Ledger} {s s' : Net} {h : Hist} (recorded : Recorded c ledger s)
    (coupled : Coupled c False s h) {event : Event} (keeps : KeepsVote s event)
    (step : s.step c event = some s') :
    ∃ ledger', ledger.Extends ledger' ∧ Recorded c ledger' s' := by
  rcases Net.step_cases step with
    ⟨i, received, result, rest, member, handles, delivered, copies, rfl⟩
  have part : rest ⊆ s.flight :=
    fun copy inRest => copies.symm.subset (List.mem_append_right _ inRest)
  cases result with
  | none =>
      -- a node that panics is still the node it was
      refine ⟨ledger, fun _ _ _ voted => voted, recorded.id, recorded.current, recorded.future,
        recorded.stands, fun i term candidate granted => ?_⟩
      exact recorded.sent i term candidate (part granted)
  | some pair =>
      have voteStep : VoteStep (s.node i) pair.1 pair.2 := by
        apply handles.moves.voteStep
        · intro busy
          rw [recorded.id i member]
          exact recorded.stands i member busy
        · rintro leader prevIndex prevTerm entries leaderCommit rfl
          exact follower_of_append coupled keeps member (delivered _ rfl)
            (copies.symm.subset List.mem_cons_self)
      exact ⟨_, recorded.enter_extends member voteStep, recorded.act member voteStep part⟩

/-- The run lemma: along a run the ledger only grows. -/
theorem Recorded.reaches {ledger : Ledger} {s s' : Net} {h : Hist}
    (recorded : Recorded c ledger s) (coupled : Coupled c False s h)
    (run : c.votingSystem.Reaches s s') :
    ∃ ledger', ledger.Extends ledger' ∧ Recorded c ledger' s' ∧ ∃ h',
      Coupled c False s' h' := by
  apply run.preserve (fun s => ∃ ledger', ledger.Extends ledger' ∧ Recorded c ledger' s ∧
    ∃ h', Coupled c False s h')
  · rintro before event after ⟨middle, grow, recordedBefore, h',
      coupledBefore⟩ ⟨keeps, step⟩
    rcases recordedBefore.step coupledBefore keeps step with ⟨last, more, recordedAfter⟩
    rcases coupledBefore.step False.elim step with
      ⟨h'', -, coupledAfter, -⟩
    exact ⟨last,
      fun i term candidate voted => more i term candidate (grow i term candidate voted),
      recordedAfter, h'', coupledAfter⟩
  · exact ⟨ledger, fun _ _ _ voted => voted, recorded, h, coupled⟩

/-- On the runs in which no candidate forgets its vote, no node votes twice in a term. -/
theorem one_vote_per_term (c : Membership) : OneVote c.votingSystem c := by
  intro s s' reachable run i member term
  rcases reachable with ⟨start, rfl, path⟩
  rcases (recorded_start c).reaches (coupled_start c False) path with
    ⟨ledger, -, recorded, h, coupled⟩
  rcases recorded.reaches coupled run with ⟨ledger', grow, recorded', -⟩
  have own : ∀ {ledger : Ledger} {s : Net}, Recorded c ledger s → Stands s i term →
      ledger i term = some i := by
    rintro ledger s recorded ⟨rfl, busy⟩
    rw [recorded.current i member]
    exact recorded.stands i member busy
  constructor
  · intro stands candidate granted
    have voted := grow i term i (own recorded stands)
    rcases recorded'.sent i term candidate granted with ⟨-, different, voted'⟩
    exact different (Option.some.inj (voted'.symm.trans voted))
  · intro candidate granted
    rcases recorded.sent i term candidate granted with ⟨-, different, voted⟩
    have voted' := grow i term candidate voted
    constructor
    · intro stands
      exact different (Option.some.inj (voted'.symm.trans (own recorded' stands)))
    · intro other granted'
      rcases recorded'.sent i term other granted' with ⟨-, -, votedOther⟩
      exact Option.some.inj (votedOther.symm.trans voted')

/-! ## A vote given twice -/

/-- `a` and then `b` stand for election in term 1. -/
def bothStand : List Event :=
  List.replicate 10 (Event.tick "a") ++ List.replicate 10 (Event.tick "b")

/-- `b` wins with the vote of `c`, and its first append reaches `a` before its request does. -/
def appendFirst : List Event :=
  [Event.deliver 5, .deliver 5, .deliver 5, .deliver 3]

theorem not_oneVote_three : ¬ OneVote three.system three := by
  intro oneVote
  have ran : (TransitionSystem.follow (Net.step three) three.start bothStand).bind (fun s =>
      (TransitionSystem.follow (Net.step three) s appendFirst).map fun s' =>
        ((s.node "a").term, (s.node "a").state, s'.flight.getLast?)) =
      some (1, .candidate 1, some ("b", .voteReply 1 "a" true)) := by
    decide +kernel
  rcases Option.bind_eq_some_iff.mp ran with ⟨s, first, second⟩
  rcases Option.map_eq_some_iff.mp second with ⟨s', last, facts⟩
  rw [Prod.mk.injEq, Prod.mk.injEq] at facts
  rcases facts with ⟨term, state, granted⟩
  have before : three.system.Reachable s :=
    ⟨_, rfl, TransitionSystem.Reaches.of_follow (fun _ _ _ step => step) first⟩
  have after : three.system.Reaches s s' :=
    TransitionSystem.Reaches.of_follow (fun _ _ _ step => step) last
  have stands : Stands s "a" 1 := ⟨term, by rw [state]; exact RaftState.noConfusion⟩
  exact (oneVote s s' before after "a" (by decide) 1).1 stands "b" (List.mem_of_getLast? granted)

end Cluster
end Sigil
