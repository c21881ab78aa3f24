import Sigil.Cluster.Moves
import Sigil.Cluster.Safety
import Sigil.Library.Pointwise

namespace Sigil
namespace Cluster

/-!
# The replication cursors of a leader

A leader sends each peer its log from the index that the peer needs next, and indexes the log
there without a check.  The cursor of a peer is set from whatever its last acknowledgement
says.  An acknowledgement of the leader's own term speaks of its own log; one of an earlier
term may speak of a longer log that the leader no longer has.
-/

open Library Library.Replication

variable {c : Membership}

/-- The cursors of a leader lie inside its log, or just behind it. -/
def Inside (n : RaftNode) : Prop :=
  ∀ nextIndex matchIndex, n.state = .leader nextIndex matchIndex → ∀ p, p ∈ n.peers →
    ∃ next, nextIndex.lookup p = some next ∧ 1 ≤ next ∧ next ≤ n.log.length + 1

/-- Nobody has panicked, and no leader panics at its next broadcast. -/
def CursorsInside (c : Membership) (s : Net) : Prop :=
  s.stopped = [] ∧
    ∀ i, i ∈ c.members → Inside (s.node i) ∧ (s.node i).broadcastAppends ≠ none

/-- A leader is told by a reply of an earlier term that a peer has more entries than the
leader itself. -/
def Overshoots (n : RaftNode) : RaftMsg → Prop
  | .appendReply term _ success m =>
      n.isLeader = true ∧ term < n.term ∧ success = true ∧ n.log.length < m
  | _ => False

/-- The event delivers no such reply. -/
def WithinLog (s : Net) (event : Event) : Prop :=
  ∀ copy, copy ∈ s.delivered event → ¬ Overshoots (s.node copy.1) copy.2

/-- The runs without replies that overshoot. -/
def Membership.cursorSystem (c : Membership) : TransitionSystem Net Event :=
  c.system.restrict WithinLog

/-! ## One node -/

theorem Inside.of_not_leader {n : RaftNode} (notLeader : n.isLeader = false) : Inside n := by
  intro nextIndex matchIndex state
  rw [RaftNode.isLeader, state] at notLeader
  cases notLeader

theorem Inside.alike {n n' : RaftNode} (inside : Inside n) (alike : Alike n n') : Inside n' := by
  intro nextIndex matchIndex state p inPeers
  rw [alike.log]
  exact inside nextIndex matchIndex (alike.state ▸ state) p (alike.peers ▸ inPeers)

/-- A cursor inside the log gives an append. -/
theorem appendFor_isSome {n : RaftNode} {nextIndex : PeerIndex} {p : String} {next : Nat}
    (found : nextIndex.lookup p = some next) (bound : next ≤ n.log.length + 1) :
    ∃ envelope, n.appendFor nextIndex p = some envelope := by
  have previous : ∃ prevTerm, n.prevTerm (next - 1) = some prevTerm := by
    unfold RaftNode.prevTerm
    split
    · exact ⟨0, rfl⟩
    · next positive =>
        have inLog : next - 1 - 1 < n.log.length := by omega
        rw [List.getElem?_eq_getElem inLog]
        exact ⟨_, rfl⟩
  rcases previous with ⟨prevTerm, found'⟩
  rw [RaftNode.appendFor, found, Option.getD_some]
  simp only [found']
  exact ⟨_, rfl⟩

theorem Inside.broadcast {n : RaftNode} (inside : Inside n) : n.broadcastAppends ≠ none := by
  unfold RaftNode.broadcastAppends
  split
  · next nextIndex matchIndex state =>
      apply Library.Pointwise.mapM_ne_none
      intro p inPeers
      rcases inside nextIndex matchIndex state p inPeers with ⟨next, found, -, bound⟩
      exact appendFor_isSome found bound
  · exact Option.some_ne_none []

theorem Inside.appended {n : RaftNode} (inside : Inside n) (entry : LogEntry) :
    Inside (appended n entry) := by
  intro nextIndex matchIndex state p inPeers
  rcases inside nextIndex matchIndex state p inPeers with ⟨next, found, positive, bound⟩
  refine ⟨next, found, positive, ?_⟩
  rw [Cluster.appended, List.length_append]
  omega

/-- A new leader starts behind the end of its log. -/
theorem inside_leading (n : RaftNode) : Inside (leading n) := by
  intro nextIndex matchIndex state p inPeers
  cases state
  refine ⟨n.log.length + 1, ?_, Nat.succ_pos _, Nat.le_refl _⟩
  rw [AList.lookup_to_alist]
  have keyed : (⟨p, n.lastIndex + 1⟩ : Sigma fun _ : String => Nat) ∈
      n.peers.map fun q => (⟨q, n.lastIndex + 1⟩ : Sigma fun _ : String => Nat) :=
    List.mem_map.mpr ⟨p, inPeers, rfl⟩
  have present := List.dlookup_isSome.mpr (List.mem_keys_of_mem keyed)
  rcases Option.isSome_iff_exists.mp present with ⟨next, found⟩
  rcases List.mem_map.mp (List.of_mem_dlookup found) with ⟨q, -, equal⟩
  cases equal
  exact found

/-- The step lemma: a cursor leaves the log only with a reply that does. -/
theorem Moves.inside {n n' : RaftNode} {received : Option RaftMsg} {out : List Envelope}
    (moves : Moves n received n' out) (inside : Inside n)
    (known : ∀ term sender m, received = some (.appendReply term sender true m) →
      n.isLeader = true → ¬ n.term < term → m ≤ n.log.length) : Inside n' := by
  induction moves with
  | stay alike quiet => exact inside.alike alike
  | fall later rest inductionHypothesis =>
      exact inductionHypothesis (Inside.of_not_leader rfl)
        (fun _ _ _ _ impossible => absurd impossible Bool.false_ne_true)
  | yield busy rest inductionHypothesis =>
      exact inductionHypothesis (Inside.of_not_leader rfl)
        (fun _ _ _ _ impossible => absurd impossible Bool.false_ne_true)
  | stand rest inductionHypothesis =>
      exact inductionHypothesis (Inside.of_not_leader rfl)
        (fun _ _ _ _ impossible => absurd impossible Bool.false_ne_true)
  | count isCandidate rest inductionHypothesis =>
      exact inductionHypothesis (Inside.of_not_leader rfl)
        (fun _ _ _ _ impossible => absurd impossible Bool.false_ne_true)
  | @lead n n' received out votes isCandidate alike quiet => exact (inside_leading n).alike alike
  | grant different granted => exact inside
  | @append n n' out entry isLeader alike quiet =>
      exact (inside.appended entry).alike alike
  | accept follower consistent =>
      apply Inside.of_not_leader
      rw [follows_eq, RaftNode.isLeader, follower]
  | @track n n' term sender m nextIndex matchIndex state notLater alike =>
      have told := known term sender m rfl (by rw [RaftNode.isLeader, state]) notLater
      have moved :
          Inside (tracking n (nextIndex.insert sender (m + 1)) (matchIndex.insert sender m)) := by
        intro nextIndex' matchIndex' state' p inPeers
        cases state'
        by_cases same : p = sender
        · subst same
          exact ⟨m + 1, AList.lookup_insert _, Nat.succ_pos m, Nat.succ_le_succ told⟩
        · rw [AList.lookup_insert_ne same]
          exact inside nextIndex matchIndex state p inPeers
      exact moved.alike alike
  | @back n term sender m nextIndex matchIndex state notLater =>
      intro nextIndex' matchIndex' state' p inPeers
      cases state'
      by_cases same : p = sender
      · subst same
        rcases inside nextIndex matchIndex state p inPeers with ⟨next, found, positive, bound⟩
        refine ⟨_, AList.lookup_insert _, Nat.le_max_right _ _, ?_⟩
        rw [found, Option.getD_some]
        exact Nat.max_le.mpr ⟨(Nat.sub_le _ _).trans bound, Nat.succ_le_succ (Nat.zero_le _)⟩
      · rw [AList.lookup_insert_ne same]
        exact inside nextIndex matchIndex state p inPeers

/-! ## No panic -/

theorem becomeLeader_ne_none (n : RaftNode) : n.becomeLeader ≠ none := by
  have inside : Inside { leading n with leaderHint := none, quietTicks := 0 } :=
    (inside_leading n).alike ⟨rfl, rfl, rfl, rfl, rfl, rfl⟩
  rcases Option.ne_none_iff_exists'.mp inside.broadcast with ⟨out, sent⟩
  change Option.bind
    (RaftNode.broadcastAppends { leading n with leaderHint := none, quietTicks := 0 }) _ ≠ none
  rw [sent]
  exact Option.some_ne_none _

theorem startElection_ne_none (n : RaftNode) : n.startElection ≠ none := by
  change (if n.peers.isEmpty then (campaign n).becomeLeader
    else some (campaign n, [voteRequest (campaign n)])) ≠ none
  split
  · exact becomeLeader_ne_none _
  · exact Option.some_ne_none _

theorem stepVoteReply_ne_none (n : RaftNode) (term : Nat) (granted : Bool) :
    n.stepVoteReply term granted ≠ none := by
  by_cases later : n.term < term
  · rw [RaftNode.stepVoteReply, if_pos later]
    exact Option.some_ne_none _
  · by_cases isCandidate : ∃ votes, n.state = .candidate votes
    · rcases isCandidate with ⟨votes, isCandidate⟩
      rw [stepVoteReply_of_candidate isCandidate later]
      split
      · split
        · exact becomeLeader_ne_none _
        · exact Option.some_ne_none _
      · exact Option.some_ne_none _
    · rw [stepVoteReply_ignored (fun votes state => isCandidate ⟨votes, state⟩) later]
      exact Option.some_ne_none _

theorem tick_ne_none {n : RaftNode} (inside : Inside n) : n.tick ≠ none := by
  cases isLeader : n.isLeader with
  | true =>
      rw [tick_of_leader isLeader]
      split
      · rcases Option.ne_none_iff_exists'.mp (inside.alike (alike_waiting n 0)).broadcast
          with ⟨out, sent⟩
        rw [sent]
        exact Option.some_ne_none _
      · exact Option.some_ne_none _
  | false =>
      rw [tick_of_not_leader isLeader]
      split
      · exact startElection_ne_none _
      · exact Option.some_ne_none _

theorem propose_ne_none {n : RaftNode} (inside : Inside n) (data : List UInt8) :
    n.propose data ≠ none := by
  by_cases isLeader : n.isLeader = true
  · rw [propose_of_leader isLeader]
    rcases Option.ne_none_iff_exists'.mp
      ((inside.appended _).alike (alike_advanceCommit _)).broadcast with ⟨out, sent⟩
    rw [sent]
    exact Option.some_ne_none _
  · rcases propose_of_not_leader isLeader data with ⟨text, refused⟩
    rw [refused]
    exact Option.some_ne_none _

theorem decodeStep_ne_none (n : RaftNode) (msg : RaftMsg) : n.decodeStep msg ≠ none := by
  cases msg with
  | requestVote term candidate lastLogIndex lastLogTerm =>
      by_cases own : candidate = n.id
      · rw [RaftNode.decodeStep, if_pos own]
        exact Option.some_ne_none _
      · rw [RaftNode.decodeStep, if_neg own]
        exact Option.some_ne_none _
  | voteReply term sender granted => exact stepVoteReply_ne_none n term granted
  | appendEntries term leader prevIndex prevTerm entries leaderCommit => exact Option.some_ne_none _
  | appendReply term sender success m => exact Option.some_ne_none _

/-- No handler panics while the cursors are inside the log. -/
theorem Handles.ne_none {n : RaftNode} {received : Option RaftMsg}
    {result : Option (RaftNode × List Envelope)} (handles : Handles n received result)
    (inside : Inside n) : result ≠ none := by
  cases handles with
  | tick => exact tick_ne_none inside
  | propose data =>
      intro panics
      exact propose_ne_none inside data (Option.map_eq_none_iff.mp panics)
  | deliver msg => exact decodeStep_ne_none n msg

/-! ## The cluster -/

/-- Every successful reply speaks of a log that the leader of its term has had. -/
def RepliesWithin (h : Hist) (s : Net) : Prop :=
  ∀ dst term sender m, (dst, .appendReply term sender true m) ∈ s.flight →
    m ≤ (h.leaderLog term).length

/-- An accepted append leaves a state of the leader's log behind. -/
theorem Accepted.partOf {n n' : RaftNode} {received : Option RaftMsg} {out : List Envelope}
    {leader : String} {prevIndex prevTerm : Nat} {entries : List LogEntry} {leaderCommit : Nat}
    (accepted : Accepted n received n' out leader prevIndex prevTerm entries leaderCommit)
    {s : Net} {h : Hist} (coupled : Coupled c False s h) {i : String} (member : i ∈ c.members)
    (isNode : n = s.node i) (inFlight : ∀ msg, received = some msg → (i, msg) ∈ s.flight) :
    n'.log <+: h.leaderLog n'.term := by
  rcases coupled.flight _ (inFlight _ accepted.received) with ⟨-, -, log, carries⟩
  have agrees := coupled.nodes i member
  rw [accepted.log,
    take_append_eq_carried coupled.valid (isNode ▸ agrees) carries accepted.consistent]
  exact carries.1

/-- The copies of what a node sends after a step: its acknowledgement is that of its log. -/
theorem Stored.of_mem_copies {n n' : RaftNode} {received : Option RaftMsg} {out : List Envelope}
    (stored : Stored n received n' out) {dst term sender : _} {m : Nat}
    (member : (dst, RaftMsg.appendReply term sender true m) ∈ out.flatMap c.copies) :
    term = n'.term ∧ sender = n.id ∧ m = n'.log.length ∧
      ∃ prevIndex prevTerm entries leaderCommit,
        Accepted n received n' out dst prevIndex prevTerm entries leaderCommit := by
  rcases List.mem_flatMap.mp member with ⟨envelope, inOut, inCopies⟩
  rcases Membership.of_mem_copies inCopies with ⟨isReply, destination⟩
  rcases stored with ⟨-, unacknowledged⟩ | ⟨leader, prevIndex, prevTerm, entries,
    leaderCommit, accepted⟩
  · exact absurd isReply (unacknowledged envelope inOut term sender m)
  · rw [accepted.out] at inOut
    cases List.mem_singleton.mp inOut
    cases isReply
    cases destination leader rfl
    exact ⟨rfl, rfl, rfl, prevIndex, prevTerm, entries, leaderCommit, accepted⟩

/-- The log of a leader is the log that its term has given out. -/
theorem log_of_leader {s : Net} {h : Hist} (coupled : Coupled c False s h) {i : String}
    (member : i ∈ c.members) (isLeader : (s.node i).isLeader = true) :
    (s.node i).log = h.leaderLog (s.node i).term := by
  have agrees := coupled.nodes i member
  have own := coupled.valid.own (agrees.term.symm ▸ agrees.leads.mp isLeader)
  rwa [agrees.term, agrees.log] at own

/-- What keeps the cursors inside the log. -/
structure Bounded (c : Membership) (s : Net) (h : Hist) : Prop where
  running : s.stopped = []
  inside : ∀ i, i ∈ c.members → Inside (s.node i)
  replies : RepliesWithin h s

theorem Bounded.cursorsInside {s : Net} {h : Hist} (bounded : Bounded c s h) :
    CursorsInside c s :=
  ⟨bounded.running,
    fun i member => ⟨bounded.inside i member, (bounded.inside i member).broadcast⟩⟩

/-- A reply that the step lets through speaks of no more than the log of the leader. -/
theorem Bounded.known {s : Net} {h : Hist} (bounded : Bounded c s h)
    (coupled : Coupled c False s h) {event : Event} (within : WithinLog s event) {i : String}
    (member : i ∈ c.members) {term : Nat} {sender : String} {m : Nat}
    (delivered : s.delivered event = some (i, .appendReply term sender true m))
    (inFlight : (i, .appendReply term sender true m) ∈ s.flight)
    (isLeader : (s.node i).isLeader = true) (notLater : ¬ (s.node i).term < term) :
    m ≤ (s.node i).log.length := by
  rcases Nat.lt_or_eq_of_le (Nat.le_of_not_lt notLater) with old | rfl
  · exact Nat.le_of_not_lt fun above => within _ delivered ⟨isLeader, old, rfl, above⟩
  · rw [log_of_leader coupled member isLeader]
    exact bounded.replies i _ sender m inFlight

theorem Bounded.step {s s' : Net} {h : Hist} (bounded : Bounded c s h)
    (coupled : Coupled c False s h) {event : Event} (within : WithinLog s event)
    (step : s.step c event = some s') : ∃ h', Coupled c False s' h' ∧ Bounded c s' h' := by
  rcases coupled.step False.elim step with ⟨h', path, coupled', -⟩
  refine ⟨h', coupled', ?_⟩
  have grow := (coupled.valid.reaches path).2
  rcases Net.step_cases step with
    ⟨i, received, result, rest, member, handles, delivered, copies, rfl⟩
  have inFlight : ∀ msg, received = some msg → (i, msg) ∈ s.flight := by
    rintro msg rfl
    exact copies.symm.subset List.mem_cons_self
  rcases Option.ne_none_iff_exists'.mp (handles.ne_none (bounded.inside i member)) with
    ⟨⟨n, out⟩, rfl⟩
  have moves := handles.moves
  constructor
  · exact bounded.running
  · intro j inMembers
    by_cases here : j = i
    · subst here
      simp only [Net.act, Function.update_self]
      apply moves.inside (bounded.inside j inMembers)
      intro term sender m isReply
      exact bounded.known coupled within member (delivered _ isReply) (inFlight _ isReply)
    · simp only [Net.act, Function.update_of_ne here]
      exact bounded.inside j inMembers
  · intro dst term sender m inFlight'
    rcases List.mem_append.mp inFlight' with old | new
    · have inOld := copies.symm.subset (List.mem_append_right _ old)
      exact (bounded.replies dst term sender m inOld).trans (grow.leaderLog term).length_le
    · rcases moves.stored.of_mem_copies new with
        ⟨rfl, -, rfl, prevIndex, prevTerm, entries, leaderCommit, accepted⟩
      have part := accepted.partOf coupled member rfl inFlight
      exact (part.trans (grow.leaderLog _)).length_le

theorem bounded_start (c : Membership) : Bounded c c.start (History.initial : Hist) where
  running := rfl
  inside _ _ := Inside.of_not_leader rfl
  replies _ _ _ _ impossible := absurd impossible List.not_mem_nil

theorem bounded_of_reachable {s : Net} (reachable : c.cursorSystem.Reachable s) :
    ∃ h, Coupled c False s h ∧ Bounded c s h := by
  refine reachable.invariant (fun s => ∃ h, Coupled c False s h ∧ Bounded c s h) ?_ ?_
  · rintro s rfl
    exact ⟨_, coupled_start c False, bounded_start c⟩
  · rintro before event after ⟨h, coupled, bounded⟩ ⟨within, step⟩
    exact bounded.step coupled within step

/-! ## The condition is exact -/

theorem Overshoots.reply {n : RaftNode} {msg : RaftMsg} (overshoots : Overshoots n msg) :
    ∃ term sender m, msg = .appendReply term sender true m ∧ n.isLeader = true ∧
      term < n.term ∧ n.log.length < m := by
  cases msg with
  | appendReply term sender success m =>
      rcases overshoots with ⟨isLeader, old, rfl, above⟩
      exact ⟨term, sender, m, rfl, isLeader, old, above⟩
  | requestVote term candidate lastLogIndex lastLogTerm => exact overshoots.elim
  | voteReply term sender granted => exact overshoots.elim
  | appendEntries term leader prevIndex prevTerm entries leaderCommit => exact overshoots.elim

/-- A leader that counts an acknowledgement beyond its log is not inside any more. -/
theorem not_inside_of_tracking {n : RaftNode} {sender : String} (inPeers : sender ∈ n.peers)
    {nextIndex matchIndex : PeerIndex} {m : Nat} (above : n.log.length < m) :
    ¬ Inside (tracking n (nextIndex.insert sender (m + 1))
      (matchIndex.insert sender m)).advanceCommit := by
  have alike := alike_advanceCommit
    (tracking n (nextIndex.insert sender (m + 1)) (matchIndex.insert sender m))
  intro inside
  rcases inside _ _ alike.state sender (alike.peers ▸ inPeers) with ⟨next, found, -, bound⟩
  rw [AList.lookup_insert, Option.some.injEq] at found
  rw [alike.log, ← found] at bound
  exact Nat.not_le_of_lt above (Nat.le_of_succ_le_succ bound)

/-- A reply that overshoots leaves a cursor behind the log. -/
theorem overshoots_outside {s s' : Net} {h : Hist} (coupled : Coupled c False s h) {event : Event}
    (step : s.step c event = some s') (beyond : ¬ WithinLog s event) : ¬ CursorsInside c s' := by
  rcases not_forall.mp beyond with ⟨⟨i, msg⟩, excluded⟩
  rcases Classical.not_imp.mp excluded with ⟨delivered, overshoots⟩
  rcases (not_not.mp overshoots).reply with ⟨term, sender, m, rfl, isLeader, old, above⟩
  rcases state_of_leader isLeader with ⟨nextIndex, matchIndex, state⟩
  cases event with
  | tick i => cases delivered
  | propose i data => cases delivered
  | deliver position =>
      have found : s.flight[position]? = some (i, .appendReply term sender true m) := delivered
      simp only [Net.step, found] at step
      split at step
      · next runs =>
          have handled : (s.node i).decodeStep (.appendReply term sender true m) = some
              ((tracking (s.node i) (nextIndex.insert sender (m + 1))
                (matchIndex.insert sender m)).advanceCommit, []) :=
            congrArg some (stepAppendReply_of_leader state (Nat.lt_asymm old) sender true m)
          rw [handled] at step
          cases Option.some.inj step
          rcases coupled.flight _ (List.mem_of_getElem? found) rfl with
            ⟨inMembers, different, -⟩
          have inPeers : sender ∈ (s.node i).peers := by
            rw [(coupled.nodes i runs.1).peers]
            exact (c.mem_peers i runs.1 sender).mpr ⟨inMembers, different⟩
          rintro ⟨-, insideAll⟩
          have inside := (insideAll i runs.1).1
          simp only [Net.act, Function.update_self] at inside
          exact not_inside_of_tracking inPeers above inside
      · cases step

/-- The cursors stay inside the logs exactly as long as no reply overshoots. -/
theorem cursorsInside_iff (c : Membership) :
    (∀ s, c.cursorSystem.Reachable s → CursorsInside c s) ∧ ∀ events,
      (TransitionSystem.Along (Net.step c)
        (fun _ _ after => CursorsInside c after) c.start events ↔
        TransitionSystem.Along (Net.step c) (fun before event _ => WithinLog before event) c.start
          events) := by
  constructor
  · intro s reachable
    rcases bounded_of_reachable reachable with ⟨h, -, bounded⟩
    exact bounded.cursorsInside
  · intro events
    refine TransitionSystem.along_congr _ _ (fun s => ∃ h, Coupled c False s h ∧ Bounded c s h)
      ?_ ?_ ⟨_, coupled_start c False, bounded_start c⟩
    · rintro before event after ⟨h, coupled, bounded⟩ step
      constructor
      · intro inside
        exact by_contra fun beyond => overshoots_outside coupled step beyond inside
      · intro within
        rcases bounded.step coupled within step with ⟨h', -, bounded'⟩
        exact bounded'.cursorsInside
    · rintro before event after ⟨h, coupled, bounded⟩ step inside
      have within : WithinLog before event :=
        by_contra fun beyond => overshoots_outside coupled step beyond inside
      exact bounded.step coupled within step

/-- `b` stores two entries of `a` in term 1, and its acknowledgement stays in flight while the
leader of term 2 replaces both logs by one entry.  In term 3 `a` leads again, counts the old
acknowledgement, and panics at its next heartbeat. -/
def shortened : List Event :=
  List.replicate 10 (Event.tick "a") ++
    [Event.deliver 1, .deliver 1, .deliver 3, .deliver 3, .propose "a" [1], .propose "a" [2],
      .deliver 11] ++
  List.replicate 20 (Event.tick "d") ++
    [Event.deliver 22, .deliver 23, .deliver 23, .deliver 23, .propose "d" [3], .deliver 27,
      .deliver 27, .deliver 27, .deliver 27] ++
  List.replicate 10 (Event.tick "a") ++
    [Event.deliver 32, .deliver 32, .deliver 34, .deliver 34, .deliver 14] ++
  List.replicate 3 (Event.tick "a")

theorem not_cursorsInside_five : ¬ ∀ s, five.system.Reachable s → CursorsInside five s := by
  intro safe
  have ran : (TransitionSystem.follow (Net.step five) five.start shortened).map Net.stopped =
      some ["a"] := by
    decide +kernel
  rcases Option.map_eq_some_iff.mp ran with ⟨s, followed, stopped⟩
  have run : five.system.Reaches five.start s :=
    TransitionSystem.Reaches.of_follow (fun _ _ _ step => step) followed
  exact List.cons_ne_nil _ _ (stopped.symm.trans (safe s ⟨_, rfl, run⟩).1)

end Cluster
end Sigil
