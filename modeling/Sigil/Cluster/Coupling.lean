import Sigil.Cluster.Network
import Sigil.Library.LeaderCompleteness

namespace Sigil
namespace Cluster

/-!
# A cluster and its history

A network state is coupled with a history of votes, leaders and stored prefixes when
every node agrees with the history, every message in flight states a fact about it, and
the ballots in flight and the votes already counted come from distinct voters.

One definition serves two kinds of runs.  With `strict` false the coupling says nothing
about acknowledgements and commit indices and holds on every run.  With `strict` true it
adds those facts; the simulation then needs the steps to keep stored entries and to
ignore stale acknowledgements.
-/

open Library Library.Replication

/-- Histories of a cluster. -/
abbrev Hist := History String LogEntry

variable (c : Membership) (strict : Prop)

/-- More than half of the members. -/
def quorums : QuorumSystem String :=
  QuorumSystem.majority c.members.toFinset

/-- In strict runs a log is never cut where it agrees with the new contents. -/
def Allowed (before after : List LogEntry) : Prop :=
  strict → Keeping before after

/-- The histories a cluster is compared with. -/
abbrev histories : TransitionSystem Hist String :=
  Replication.system (quorums c) (Allowed strict)

/-! ## What messages and nodes say about the history -/

/-- The voter may be counted for the candidate: before the election it has voted for it,
and afterwards it is not one of the voters of another leader. -/
def Granted (h : Hist) (term : Nat) (voter candidate : String) : Prop :=
  (h.leader term = none → ∃ log, h.vote term voter = some (candidate, log)) ∧
    ∀ leader log, h.leader term = some leader →
      h.vote term voter = some (leader, log) → candidate = leader

/-- A committed prefix: empty, or decided in a term that is not in the future. -/
def Settled (h : Hist) (term : Nat) (known : List LogEntry) : Prop :=
  known = [] ∨ ∃ decided, decided ≤ term ∧ Decided (quorums c) h decided known

/-- The entries of an append are the rest of a state of the leader's log. -/
def Carries (h : Hist) (term : Nat) (leader : String) (prevIndex prevTerm : Nat)
    (entries : List LogEntry) (leaderCommit : Nat) (log : List LogEntry) : Prop :=
  log <+: h.leaderLog term ∧
    (∀ start, h.vote term leader = some (leader, start) → start <+: log) ∧
    entries = log.drop prevIndex ∧
    (prevIndex = 0 ∨ ∃ entry, log[prevIndex - 1]? = some entry ∧ entry.term = prevTerm) ∧
    (strict → leaderCommit ≤ log.length ∧ Settled c h term (log.take leaderCommit))

/-- What a message copy in flight states. -/
def Truthful (h : Hist) : String × RaftMsg → Prop
  | (_, .requestVote term candidate lastLogIndex lastLogTerm) =>
      candidate ∈ c.members ∧
        (h.leader term = none → ∃ log, h.vote term candidate = some (candidate, log) ∧
          lastLogIndex = log.length ∧ lastLogTerm = lastTerm log)
  | (dst, .voteReply term sender granted) =>
      granted = true → sender ∈ c.members ∧ sender ≠ dst ∧ Granted h term sender dst
  | (dst, .appendEntries term leader prevIndex prevTerm entries leaderCommit) =>
      h.leader term = some leader ∧ dst ≠ leader ∧ ∃ log,
        Carries c strict h term leader prevIndex prevTerm entries leaderCommit log
  | (dst, .appendReply term sender success matchIndex) =>
      success = true → sender ∈ c.members ∧ sender ≠ dst ∧
        (strict → matchIndex ≤ h.ack term sender)

/-- A node agrees with the history. -/
structure Agrees (h : Hist) (i : String) (n : RaftNode) : Prop where
  id : n.id = i
  peers : n.peers = c.peers i
  term : h.term i = n.term
  log : h.log i = n.log
  vote : h.leader n.term = none → ∀ candidate,
    n.votedFor = some candidate ↔ ∃ log, h.vote n.term i = some (candidate, log)
  voter : ∀ {leader log}, h.leader n.term = some leader →
    h.vote n.term i = some (leader, log) → n.votedFor = some leader
  leads : n.isLeader = true ↔ h.leader n.term = some i
  candidate : ∀ {votes}, n.state = .candidate votes → n.votedFor = some i ∧
    (h.leader n.term = none → h.vote n.term i = some (i, n.log))
  acked : ∀ {nextIndex matchIndex}, n.state = .leader nextIndex matchIndex →
    ∀ {p m}, matchIndex.lookup p = some m → p ∈ c.peers i ∧
    (strict → m ≤ h.ack n.term p)
  commit : strict → n.commit ≤ n.log.length ∧ Settled c h n.term (n.log.take n.commit)

/-! ## Ballots -/

/-- The copy is the candidate's request to the voter, or the voter's grant. -/
def ballot (term : Nat) (voter candidate : String) : String × RaftMsg → Bool
  | (dst, .requestVote term' candidate' _ _) =>
      dst = voter ∧ term' = term ∧ candidate' = candidate
  | (dst, .voteReply term' sender granted) =>
      dst = candidate ∧ term' = term ∧ sender = voter ∧ granted = true
  | _ => false

/-- Ballots in flight for one voter and one candidate. -/
def pending (flight : List (String × RaftMsg)) (term : Nat) (voter candidate : String) : Nat :=
  flight.countP (ballot term voter candidate)

/-- A voter has at most one ballot per candidate and term: in flight or counted. -/
structure Ballots (h : Hist) (s : Net) : Prop where
  once : ∀ {term voter candidate}, voter ≠ candidate →
    pending s.flight term voter candidate ≤ 1
  future : ∀ {term voter candidate}, candidate ∈ c.members → voter ≠ candidate →
    (s.node candidate).term < term → pending s.flight term voter candidate = 0
  counted : ∀ {i votes}, i ∈ c.members → (s.node i).state = .candidate votes →
    ∃ voters : Finset String, voters ⊆ c.members.toFinset ∧ i ∈ voters ∧
    voters.card = votes ∧
      ∀ voter, voter ∈ voters → voter ≠ i →
        pending s.flight (s.node i).term voter i = 0 ∧ Granted h (s.node i).term voter i

/-- A network state and its history. -/
structure Coupled (s : Net) (h : Hist) : Prop where
  valid : Valid (quorums c) h
  kept : strict → Kept h
  nodes : ∀ i, i ∈ c.members → Agrees c strict h i (s.node i)
  flight : ∀ copy, copy ∈ s.flight → Truthful c strict h copy
  ballots : Ballots c h s

/-! ## Facts survive the growth of a history -/

section Growth

variable {c strict} {h h' : Hist}

theorem Granted.mono (grow : Extends h h') {term : Nat} {voter candidate : String}
    (granted : Granted h term voter candidate) : Granted h' term voter candidate := by
  cases elected : h.leader term with
  | none =>
      rcases granted.1 elected with ⟨log, voted⟩
      refine ⟨fun _ => ⟨log, grow.vote voted⟩, ?_⟩
      intro leader log' _ voted'
      have pair := (grow.vote voted).symm.trans voted'
      simp only [Option.some.injEq, Prod.mk.injEq] at pair
      exact pair.1
  | some leader =>
      have closed := grow.closed (elected ▸ Option.some_ne_none leader) voter
      have later := grow.leader elected
      refine ⟨fun impossible => absurd (later.symm.trans impossible) (by simp), ?_⟩
      intro leader' log' leads voted
      rw [later, Option.some.injEq] at leads
      subst leads
      exact granted.2 leader log' elected (closed ▸ voted)

theorem Settled.mono (grow : Extends h h') {term : Nat}
    {known : List LogEntry} (settled : Settled c h term known) : Settled c h' term known :=
  settled.imp id fun ⟨decided, early, fact⟩ => ⟨decided, early, fact.mono grow⟩

theorem Settled.later {term term' : Nat} (order : term ≤ term') {known : List LogEntry}
    (settled : Settled c h term known) : Settled c h term' known :=
  settled.imp id fun ⟨decided, early, fact⟩ => ⟨decided, early.trans order, fact⟩

theorem Truthful.mono (grow : Extends h h')
    {copy : String × RaftMsg} (truthful : Truthful c strict h copy) :
    Truthful c strict h' copy := by
  have before : ∀ {term}, h'.leader term = none → h.leader term = none := by
    intro term open_
    cases elected : h.leader term with
    | none => rfl
    | some leader => exact absurd ((grow.leader elected).symm.trans open_) (by simp)
  rcases copy with ⟨dst, msg⟩
  cases msg with
  | requestVote term candidate lastLogIndex lastLogTerm =>
      refine ⟨truthful.1, fun open_ => ?_⟩
      rcases truthful.2 (before open_) with ⟨log, voted, facts⟩
      exact ⟨log, grow.vote voted, facts⟩
  | voteReply term sender granted =>
      intro isGrant
      rcases truthful isGrant with ⟨member, other, fact⟩
      exact ⟨member, other, fact.mono grow⟩
  | appendEntries term leader prevIndex prevTerm entries leaderCommit =>
      rcases truthful with ⟨leads, other, log, part, based, rest, previous, commits⟩
      refine ⟨grow.leader leads, other, log, part.trans (grow.leaderLog term), ?_, rest,
        previous, fun isStrict => ?_⟩
      · intro start voted
        rw [grow.closed (leads ▸ Option.some_ne_none leader)] at voted
        exact based start voted
      · exact ⟨(commits isStrict).1, (commits isStrict).2.mono grow⟩
  | appendReply term sender success matchIndex =>
      intro isSuccess
      rcases truthful isSuccess with ⟨member, other, stored⟩
      exact ⟨member, other, fun isStrict => (stored isStrict).trans (grow.ack term sender)⟩

/-- A node that did not act still agrees with the history. -/
theorem Agrees.other {actor i : String}
    (alone : ActsAlone actor h h') (different : i ≠ actor) {n : RaftNode}
    (agrees : Agrees c strict h i n) : Agrees c strict h' i n where
  id := agrees.id
  peers := agrees.peers
  term := (alone.otherTerm different).trans agrees.term
  log := (alone.otherLog different).trans agrees.log
  vote := by
    intro open_ candidate
    rw [alone.otherVote different]
    apply agrees.vote
    cases elected : h.leader n.term with
    | none => rfl
    | some leader => exact absurd ((alone.leader elected).symm.trans open_) (by simp)
  voter := by
    intro leader log leads voted
    rw [alone.otherVote different] at voted
    cases elected : h.leader n.term with
    | none => exact (agrees.vote elected leader).mpr ⟨log, voted⟩
    | some leader' =>
        have same := (alone.leader elected).symm.trans leads
        rw [Option.some.injEq] at same
        subst same
        exact agrees.voter elected voted
  leads := agrees.leads.trans ⟨alone.leader, alone.otherLeader different⟩
  candidate := by
    intro votes isCandidate
    refine ⟨(agrees.candidate isCandidate).1, fun open_ => ?_⟩
    rw [alone.otherVote different]
    apply (agrees.candidate isCandidate).2
    cases elected : h.leader n.term with
    | none => rfl
    | some leader => exact absurd ((alone.leader elected).symm.trans open_) (by simp)
  acked := by
    intro nextIndex matchIndex isLeader p m found
    have fact := agrees.acked isLeader found
    exact ⟨fact.1, fun isStrict => (fact.2 isStrict).trans (alone.ack _ _)⟩
  commit := fun isStrict =>
    ⟨(agrees.commit isStrict).1, (agrees.commit isStrict).2.mono alone.toExtends⟩

/-- Agreement does not look at timers, hints and the leader's next indices. -/
theorem Agrees.congr {i : String} {n n' : RaftNode} (agrees : Agrees c strict h i n)
    (id : n'.id = n.id) (peers : n'.peers = n.peers) (state : n'.state = n.state)
    (term : n'.term = n.term) (votedFor : n'.votedFor = n.votedFor) (log : n'.log = n.log)
    (commit : n'.commit = n.commit) : Agrees c strict h i n' where
  id := id.trans agrees.id
  peers := peers.trans agrees.peers
  term := agrees.term.trans term.symm
  log := agrees.log.trans log.symm
  vote := by rw [term, votedFor]; exact agrees.vote
  voter := by rw [term, votedFor]; exact agrees.voter
  leads := by rw [RaftNode.isLeader, state, term]; exact agrees.leads
  candidate := by rw [state, term, votedFor, log]; exact agrees.candidate
  acked := by rw [state, term]; exact agrees.acked
  commit := by rw [term, log, commit]; exact agrees.commit

end Growth

/-! ## Counting ballots -/

section Ballot

variable {c}

theorem pending_perm {flight flight' : List (String × RaftMsg)} (same : flight.Perm flight')
    (term : Nat) (voter candidate : String) :
    pending flight term voter candidate = pending flight' term voter candidate :=
  same.countP_eq _

theorem pending_cons (copy : String × RaftMsg) (flight : List (String × RaftMsg)) (term : Nat)
    (voter candidate : String) : pending (copy :: flight) term voter candidate =
      pending flight term voter candidate + if ballot term voter candidate copy then 1 else 0 :=
  List.countP_cons

theorem pending_append (left right : List (String × RaftMsg)) (term : Nat)
    (voter candidate : String) : pending (left ++ right) term voter candidate =
      pending left term voter candidate + pending right term voter candidate :=
  List.countP_append

/-- Copies that are neither vote requests nor grants. -/
def NoBallot (copies : List (String × RaftMsg)) : Prop :=
  ∀ copy, copy ∈ copies → ∀ term voter candidate, ballot term voter candidate copy = false

theorem NoBallot.pending {copies : List (String × RaftMsg)} (none_ : NoBallot copies)
    (term : Nat) (voter candidate : String) : pending copies term voter candidate = 0 := by
  apply List.countP_eq_zero.mpr
  intro copy member
  simp only [none_ copy member, Bool.false_eq_true, not_false_iff]

/-- Ballots stay distinct when none is added and the acting node does not become a
candidate or count a vote. -/
theorem Ballots.fewer {s : Net} {h h' : Hist} (ballots : Ballots c h s) (grow : Extends h h')
    {i : String} {n : RaftNode} {flight : List (String × RaftMsg)}
    (fewer : ∀ term voter candidate, pending flight term voter candidate ≤
      pending s.flight term voter candidate)
    (later : (s.node i).term ≤ n.term)
    (same : ∀ votes, n.state = .candidate votes →
      (s.node i).state = .candidate votes ∧ n.term = (s.node i).term) :
    Ballots c h' { s with node := Function.update s.node i n, flight := flight } where
  once := fun different => (fewer _ _ _).trans (ballots.once different)
  future := by
    intro term voter candidate member different above
    have bound : (s.node candidate).term < term := by
      by_cases here : candidate = i
      · subst here
        simp only [Function.update_self] at above
        omega
      · simpa only [Function.update_of_ne here] using above
    have zero := ballots.future member different bound
    have less := fewer term voter candidate
    exact Nat.le_zero.mp (less.trans (Nat.le_of_eq zero))
  counted := by
    intro j votes member isCandidate
    have old : (s.node j).state = .candidate votes ∧
        (Function.update s.node i n j).term = (s.node j).term := by
      by_cases here : j = i
      · subst here
        simp only [Function.update_self] at isCandidate ⊢
        exact same votes isCandidate
      · simp only [Function.update_of_ne here] at isCandidate ⊢
        exact ⟨isCandidate, trivial⟩
    rcases ballots.counted member old.1 with ⟨voters, subset, own, card, facts⟩
    refine ⟨voters, subset, own, card, ?_⟩
    intro voter inVoters different
    have fact := facts voter inVoters different
    have less := fewer (s.node j).term voter j
    simp only [old.2]
    exact ⟨by omega, fact.2.mono grow⟩

end Ballot

/-! ## One update of one node -/

/-- The committed parts of the logs only grow. -/
def CommitsGrow (s s' : Net) : Prop :=
  ∀ i, i ∈ c.members → (s.node i).log.take (s.node i).commit <+:
    (s'.node i).log.take (s'.node i).commit

/-- Some history that continues `h` fits the new network state. -/
def Matched (h : Hist) (s s' : Net) : Prop :=
  ∃ h', (histories c strict).Reaches h h' ∧ Coupled c strict s' h' ∧
    (strict → CommitsGrow c s s')

section Update

variable {c strict} {s : Net} {h : Hist}

theorem Matched.trans {s' s'' : Net} (first : Matched c strict h s s')
    (second : ∀ h', Coupled c strict s' h' → Matched c strict h' s' s'') :
    Matched c strict h s s'' := by
  rcases first with ⟨h', path, coupled, commits⟩
  rcases second h' coupled with ⟨h'', path', coupled', commits'⟩
  exact ⟨h'', path.trans path', coupled', fun isStrict i member =>
    (commits isStrict i member).trans (commits' isStrict i member)⟩

/-- One node changes, some copies leave and true ones join. -/
theorem Coupled.update (coupled : Coupled c strict s h) {h' : Hist} {i : String}
    {n : RaftNode} {flight : List (String × RaftMsg)}
    (path : (histories c strict).Reaches h h') (alone : ActsAlone i h h')
    (agrees : Agrees c strict h' i n)
    (truthful : ∀ copy, copy ∈ flight → copy ∈ s.flight ∨ Truthful c strict h' copy)
    (ballots : Ballots c h' { s with node := Function.update s.node i n, flight := flight })
    (commits : strict → (s.node i).log.take (s.node i).commit <+: n.log.take n.commit) :
    Matched c strict h s { s with node := Function.update s.node i n, flight := flight } := by
  refine ⟨h', path, ⟨?_, ?_, ?_, ?_, ballots⟩, ?_⟩
  · exact (coupled.valid.reaches path).1
  · exact fun isStrict => Kept.reaches (fun _ _ allowed => allowed isStrict)
      (coupled.kept isStrict) coupled.valid path
  · intro j member
    by_cases here : j = i
    · subst here
      simp only [Function.update_self]
      exact agrees
    · simp only [Function.update_of_ne here]
      exact (coupled.nodes j member).other alone here
  · intro copy member
    rcases truthful copy member with old | new
    · exact (coupled.flight copy old).mono alone.toExtends
    · exact new
  · intro isStrict j member
    by_cases here : j = i
    · subst here
      simp only [Function.update_self]
      exact commits isStrict
    · simp only [Function.update_of_ne here, List.prefix_rfl]

/-- A node that is marked as stopped is still the node it was. -/
theorem Coupled.stop (coupled : Coupled c strict s h) (stopped : List String)
    (flight : List (String × RaftMsg)) (part : List.Subperm flight s.flight) :
    Matched c strict h s { s with stopped := stopped, flight := flight } := by
  have fewer : ∀ term voter candidate, pending flight term voter candidate ≤
      pending s.flight term voter candidate := fun _ _ _ => part.countP_le _
  refine ⟨h, TransitionSystem.Reaches.refl _ _, ⟨coupled.valid, coupled.kept, coupled.nodes,
    fun copy member => coupled.flight copy (part.subset member), ?_⟩,
    fun _ _ _ => List.prefix_rfl⟩
  refine ⟨fun different => (fewer _ _ _).trans (coupled.ballots.once different), ?_, ?_⟩
  · intro term voter candidate member different above
    have zero := coupled.ballots.future member different above
    have less := fewer term voter candidate
    show pending flight term voter candidate = 0
    omega
  · intro j votes member isCandidate
    rcases coupled.ballots.counted member isCandidate with ⟨voters, subset, own, card, facts⟩
    refine ⟨voters, subset, own, card, fun voter inVoters different => ?_⟩
    have fact := facts voter inVoters different
    have less := fewer (s.node j).term voter j
    refine ⟨?_, fact.2⟩
    show pending flight (s.node j).term voter j = 0
    omega

end Update

end Cluster
end Sigil
