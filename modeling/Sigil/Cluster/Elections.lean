import Mathlib.Algebra.GroupWithZero.Nat
import Sigil.Cluster.Moves

namespace Sigil
namespace Cluster

/-!
# Whose votes make a leader

A candidate counts granted replies with a number and forgets who sent them.  A ledger beside
the node keeps the senders.  When a node leads, it has counted half of the cluster in its
term; these are different members exactly when no reply of the term has been counted twice
and none came from outside.

Any message may come, with any number in it.  So the two sums that such a number can take past a
machine word are wrapped here: the term of the next election, and the cursor after an index.
-/

open Library

/-- A call of a node, with any message. -/
inductive NodeCall where
  | tick
  | propose (data : List UInt8)
  | step (msg : RaftMsg)
  deriving DecidableEq, Repr

namespace RaftNode

/-- The node after a call, in unbounded numbers; there is none when the call panics. -/
def call (n : RaftNode) : NodeCall → Option RaftNode
  | .tick => n.tick.map Prod.fst
  | .propose data => (n.propose data).map Prod.fst
  | .step msg => (n.step msg).map Prod.fst

/-- A cursor after the greatest index is 0.  An append from it panics like one from far past the
log, so that only backing off has to know. -/
def wrapCursor (n : RaftNode) (peer : String) : RaftNode :=
  match n.state with
  | .leader nextIndex matchIndex =>
      if nextIndex.lookup peer = some (2 ^ 64) then
        { n with state := .leader (nextIndex.insert peer 0) matchIndex }
      else n
  | _ => n

def wrapTerm (n : RaftNode) : RaftNode :=
  { n with term := n.term % 2 ^ 64 }

/-- The node as a call finds it. -/
def before (n : RaftNode) : NodeCall → RaftNode
  | .step (.appendReply _ sender false _) => n.wrapCursor sender
  | _ => n

/-- The node after a call, in machine words. -/
def callInWords (n : RaftNode) (call : NodeCall) : Option RaftNode :=
  ((n.before call).call call).map wrapTerm

end RaftNode

/-- The granted reply of its term that a candidate is given in a call, with the sender. -/
def NodeCall.grants (n : RaftNode) : NodeCall → List (Nat × String)
  | .step (.voteReply term sender true) =>
      match n.state with
      | .candidate _ => if term = n.term then [(term, sender)] else []
      | _ => []
  | _ => []

/-- A node, and the granted replies that it has processed as a candidate of their term. -/
structure Polled where
  node : RaftNode
  counted : List (Nat × String)

namespace Polled

def next (p : Polled) (call : NodeCall) : Option Polled :=
  (p.node.callInWords call).map fun n =>
    { node := n, counted := p.counted ++ call.grants p.node }

/-- The calls of one node, from its creation on. -/
def system (id : String) (peers : List String) (seed : UInt64) :
    TransitionSystem Polled NodeCall where
  init := fun p => p = { node := .new id peers seed, counted := [] }
  step := fun before call after => before.next call = some after

/-- The senders of the counted replies of one term. -/
def senders (p : Polled) (term : Nat) : List String :=
  (p.counted.filter fun grant => grant.1 = term).map Prod.snd

/-- A sender is a member of the cluster and not the node itself. -/
def Other (p : Polled) (sender : String) : Prop :=
  sender ∈ p.node.peers ∧ sender ≠ p.node.id

/-- A leader of a cluster of several members has been granted the votes of at least half of
the cluster by different other members. -/
def Elected (p : Polled) : Prop :=
  p.node.isLeader = true → 1 < p.node.peers.length + 1 →
    ∃ voters : List String, voters.Nodup ∧ (p.node.peers.length + 1) / 2 ≤ voters.length ∧
      ∀ voter, voter ∈ voters → p.Other voter ∧ (p.node.term, voter) ∈ p.counted

/-- The senders counted in the term of the node are different other members. -/
def Clean (p : Polled) : Prop :=
  (p.senders p.node.term).Nodup ∧ ∀ sender, sender ∈ p.senders p.node.term → p.Other sender

/-- A candidate counts a reply only from another member that it has not counted before. -/
def Fresh (p : Polled) (call : NodeCall) : Prop :=
  ∀ grant ∈ call.grants p.node, grant ∉ p.counted ∧ p.Other grant.2

/-- The call does not carry the term past a machine word. -/
def Unwrapped (p : Polled) (call : NodeCall) : Prop :=
  ∀ n, (p.node.before call).call call = some n → n.term < 2 ^ 64

instance Other.decidable (p : Polled) (sender : String) : Decidable (p.Other sender) :=
  inferInstanceAs (Decidable (_ ∧ _))

instance Fresh.decidable (p : Polled) (call : NodeCall) : Decidable (p.Fresh call) :=
  inferInstanceAs (Decidable (∀ _ ∈ _, _))

instance Unwrapped.decidable (p : Polled) (call : NodeCall) : Decidable (p.Unwrapped call) :=
  decidable_of_iff (((p.node.before call).call call).all (fun n => n.term < 2 ^ 64) = true)
    (by simp [Unwrapped, Option.all_eq_true])

end Polled

/-! ## What one call does to a candidacy -/

/-- The role of a node, and the term it has it in, before and after a call. -/
inductive Turn (n : RaftNode) (call : NodeCall) (n' : RaftNode) : Prop
  /-- The role stays. -/
  | stays (term : n'.term = n.term) (silent : call.grants n = [])
      (role : n'.state = n.state ∨ n.isLeader = true ∧ n'.isLeader = true)
  /-- The node is a follower now. -/
  | falls (term : n.term ≤ n'.term) (silent : call.grants n = []) (role : n'.state = .follower)
  /-- The node stands for election in the next term. -/
  | stands (term : n'.term = n.term + 1) (silent : call.grants n = []) (notAlone : n.peers ≠ [])
      (role : n'.state = .candidate 1)
  /-- The only member of a cluster leads it. -/
  | leadsAlone (term : n.term ≤ n'.term) (silent : call.grants n = []) (alone : n.peers = [])
      (role : n'.isLeader = true)
  /-- A candidate counts a vote. -/
  | counts {votes : Nat} {sender : String} (term : n'.term = n.term)
      (isCandidate : n.state = .candidate votes) (grant : call.grants n = [(n.term, sender)])
      (role : n'.state = .candidate (votes + 1) ∧ votes + 1 < n.majority ∨
        n'.isLeader = true ∧ n.majority ≤ votes + 1)

theorem Turn.term_le {n n' : RaftNode} {call : NodeCall} (turn : Turn n call n') :
    n.term ≤ n'.term := by
  cases turn with
  | stays term => exact term.ge
  | falls term => exact term
  | stands term => exact term ▸ Nat.le_succ n.term
  | leadsAlone term => exact term
  | counts term => exact term.ge

theorem Turn.grant_term {n n' : RaftNode} {call : NodeCall} (turn : Turn n call n')
    {grant : Nat × String} (member : grant ∈ call.grants n) : grant.1 = n.term := by
  cases turn with
  | counts _ _ grants =>
      rw [grants] at member
      rw [List.mem_singleton.mp member]
  | stays _ silent | falls _ silent | stands _ silent | leadsAlone _ silent =>
      rw [silent] at member
      exact absurd member List.not_mem_nil

theorem isLeader_leading (n : RaftNode) : (leading n).isLeader = true := rfl

theorem isLeader_congr {n n' : RaftNode} (same : n'.state = n.state) :
    n'.isLeader = n.isLeader := by
  simp [RaftNode.isLeader, same]

theorem becomeLeader_turn {n n' : RaftNode} {out : List Envelope}
    (won : n.becomeLeader = some (n', out)) :
    n'.id = n.id ∧ n'.peers = n.peers ∧ n'.term = n.term ∧ n'.isLeader = true := by
  have alike := (becomeLeader_alike won).1
  exact ⟨alike.id, alike.peers, alike.term,
    (isLeader_congr alike.state).trans (isLeader_leading n)⟩

theorem tick_turn {n n' : RaftNode} {out : List Envelope} (ticked : n.tick = some (n', out)) :
    n'.id = n.id ∧ n'.peers = n.peers ∧ Turn n .tick n' := by
  cases isLeader : n.isLeader with
  | true =>
      rw [tick_of_leader isLeader] at ticked
      split at ticked
      · rcases Option.bind_eq_some_iff.mp ticked with ⟨sent, -, equal⟩
        cases Option.some.inj equal
        exact ⟨rfl, rfl, .stays rfl rfl (Or.inl rfl)⟩
      · cases Option.some.inj ticked
        exact ⟨rfl, rfl, .stays rfl rfl (Or.inl rfl)⟩
  | false =>
      rw [tick_of_not_leader isLeader] at ticked
      split at ticked
      · change (if n.peers.isEmpty then (campaign n).becomeLeader
          else some (campaign n, [voteRequest (campaign n)])) = some (n', out) at ticked
        split at ticked
        · next alone =>
            rcases becomeLeader_turn ticked with ⟨id, peers, term, role⟩
            have grows : n.term ≤ n'.term := term ▸ Nat.le_succ n.term
            exact ⟨id, peers, .leadsAlone grows rfl (List.isEmpty_iff.mp alone) role⟩
        · next notAlone =>
            cases Option.some.inj ticked
            refine ⟨rfl, rfl, .stands rfl rfl (fun alone => notAlone ?_) rfl⟩
            exact List.isEmpty_iff.mpr alone
      · cases Option.some.inj ticked
        exact ⟨rfl, rfl, .stays rfl rfl (Or.inl rfl)⟩

theorem propose_turn {n n' : RaftNode} {data : List UInt8} {result : Except String (List Envelope)}
    (proposed : n.propose data = some (n', result)) :
    n'.id = n.id ∧ n'.peers = n.peers ∧ Turn n (.propose data) n' := by
  by_cases isLeader : n.isLeader = true
  · rw [propose_of_leader isLeader] at proposed
    rcases Option.bind_eq_some_iff.mp proposed with ⟨out, -, equal⟩
    cases Option.some.inj equal
    have alike := alike_advanceCommit (appended n { term := n.term, data := data })
    exact ⟨alike.id, alike.peers, .stays alike.term rfl (Or.inl alike.state)⟩
  · rcases propose_of_not_leader isLeader data with ⟨text, refused⟩
    cases Option.some.inj (refused.symm.trans proposed)
    exact ⟨rfl, rfl, .stays rfl rfl (Or.inl rfl)⟩

theorem requestVote_turn (n : RaftNode) (term : Nat) (candidate : String)
    (lastLogIndex lastLogTerm : Nat) :
    (n.stepRequestVote term candidate lastLogIndex lastLogTerm).1.id = n.id ∧
      (n.stepRequestVote term candidate lastLogIndex lastLogTerm).1.peers = n.peers ∧
        Turn n (.step (.requestVote term candidate lastLogIndex lastLogTerm))
          (n.stepRequestVote term candidate lastLogIndex lastLogTerm).1 := by
  -- within a term the answer only changes the vote
  have within : ∀ n : RaftNode, ¬ n.term < term →
      (n.stepRequestVote term candidate lastLogIndex lastLogTerm).1.id = n.id ∧
        (n.stepRequestVote term candidate lastLogIndex lastLogTerm).1.peers = n.peers ∧
          (n.stepRequestVote term candidate lastLogIndex lastLogTerm).1.term = n.term ∧
            (n.stepRequestVote term candidate lastLogIndex lastLogTerm).1.state = n.state := by
    intro n notLater
    by_cases granted : grants n term candidate lastLogIndex lastLogTerm
    · rw [stepRequestVote_granted granted]
      exact ⟨rfl, rfl, rfl, rfl⟩
    · rw [stepRequestVote_refused notLater granted]
      exact ⟨rfl, rfl, rfl, rfl⟩
  by_cases later : n.term < term
  · rw [stepRequestVote_later later]
    rcases within (n.becomeFollower term) (Nat.lt_irrefl term) with ⟨id, peers, sameTerm, role⟩
    exact ⟨id, peers, .falls (sameTerm ▸ Nat.le_of_lt later) rfl role⟩
  · rcases within n later with ⟨id, peers, sameTerm, role⟩
    exact ⟨id, peers, .stays sameTerm rfl (Or.inl role)⟩

theorem voteReply_turn {n n' : RaftNode} {term : Nat} {sender : String} {granted : Bool}
    {out : List Envelope} (counted : n.stepVoteReply term granted = some (n', out)) :
    n'.id = n.id ∧ n'.peers = n.peers ∧ Turn n (.step (.voteReply term sender granted)) n' := by
  have other :
      term ≠ n.term → (NodeCall.step (.voteReply term sender granted)).grants n = [] := by
    intro different
    cases granted with
    | false => rfl
    | true =>
        simp only [NodeCall.grants]
        split
        · exact if_neg different
        · rfl
  by_cases later : n.term < term
  · rw [RaftNode.stepVoteReply, if_pos later] at counted
    cases Option.some.inj counted
    exact ⟨rfl, rfl, .falls (Nat.le_of_lt later) (other (Nat.ne_of_gt later)) rfl⟩
  · by_cases isCandidate : ∃ votes, n.state = .candidate votes
    · rcases isCandidate with ⟨votes, isCandidate⟩
      rw [stepVoteReply_of_candidate isCandidate later] at counted
      split at counted
      · next own =>
          have grant : (NodeCall.step (.voteReply term sender granted)).grants n =
              [(n.term, sender)] := by
            rw [own.1, own.2]
            simp [NodeCall.grants, isCandidate]
          split at counted
          · next enough =>
              rcases becomeLeader_turn counted with ⟨id, peers, sameTerm, role⟩
              exact ⟨id, peers, .counts sameTerm isCandidate grant (Or.inr ⟨role, enough⟩)⟩
          · next few =>
              cases Option.some.inj counted
              exact ⟨rfl, rfl,
                .counts rfl isCandidate grant (Or.inl ⟨rfl, Nat.lt_of_not_le few⟩)⟩
      · next notOwn =>
          cases Option.some.inj counted
          refine ⟨rfl, rfl, .stays rfl ?_ (Or.inl rfl)⟩
          cases granted with
          | false => rfl
          | true => exact other fun same => notOwn ⟨same, rfl⟩
    · have noCandidate : ∀ votes, n.state ≠ .candidate votes :=
        fun votes state => isCandidate ⟨votes, state⟩
      rw [stepVoteReply_ignored noCandidate later] at counted
      cases Option.some.inj counted
      refine ⟨rfl, rfl, .stays rfl ?_ (Or.inl rfl)⟩
      cases granted with
      | false => rfl
      | true => simp only [NodeCall.grants]

theorem answerAppend_keeps (n : RaftNode) (term : Nat) (leader : String)
    (prevIndex prevTerm : Nat) (entries : List LogEntry) (leaderCommit : Nat) :
    (answerAppend n term leader prevIndex prevTerm entries leaderCommit).1.id = n.id ∧
      (answerAppend n term leader prevIndex prevTerm entries leaderCommit).1.peers = n.peers ∧
        (answerAppend n term leader prevIndex prevTerm entries leaderCommit).1.term = n.term ∧
          (answerAppend n term leader prevIndex prevTerm entries leaderCommit).1.state =
            n.state := by
  rw [answerAppend]
  split
  · exact ⟨rfl, rfl, rfl, rfl⟩
  · split
    · rw [follows_eq]
      exact ⟨rfl, rfl, rfl, rfl⟩
    · exact ⟨rfl, rfl, rfl, rfl⟩

theorem appendEntries_turn (n : RaftNode) (term : Nat) (leader : String)
    (prevIndex prevTerm : Nat) (entries : List LogEntry) (leaderCommit : Nat) :
    (n.stepAppendEntries term leader prevIndex prevTerm entries leaderCommit).1.id = n.id ∧
      (n.stepAppendEntries term leader prevIndex prevTerm entries leaderCommit).1.peers =
        n.peers ∧
        Turn n (.step (.appendEntries term leader prevIndex prevTerm entries leaderCommit))
          (n.stepAppendEntries term leader prevIndex prevTerm entries leaderCommit).1 := by
  rw [stepAppendEntries_eq]
  by_cases down : n.term < term ∨ (term = n.term ∧ n.state ≠ .follower)
  · rw [if_pos down]
    rcases answerAppend_keeps (n.becomeFollower term) term leader prevIndex prevTerm entries
      leaderCommit with ⟨id, peers, sameTerm, role⟩
    have grows : n.term ≤ term :=
      down.elim Nat.le_of_lt fun own => Nat.le_of_eq own.1.symm
    exact ⟨id, peers, .falls (sameTerm ▸ grows) rfl role⟩
  · rw [if_neg down]
    rcases answerAppend_keeps n term leader prevIndex prevTerm entries leaderCommit with
      ⟨id, peers, sameTerm, role⟩
    exact ⟨id, peers, .stays sameTerm rfl (Or.inl role)⟩

theorem appendReply_turn (n : RaftNode) (term : Nat) (sender : String) (success : Bool) (m : Nat) :
    (n.stepAppendReply term sender success m).1.id = n.id ∧
      (n.stepAppendReply term sender success m).1.peers = n.peers ∧
        Turn n (.step (.appendReply term sender success m))
          (n.stepAppendReply term sender success m).1 := by
  by_cases later : n.term < term
  · rw [RaftNode.stepAppendReply, if_pos later]
    exact ⟨rfl, rfl, .falls (Nat.le_of_lt later) rfl rfl⟩
  · cases isLeader : n.isLeader with
    | false =>
        rw [stepAppendReply_ignored isLeader later]
        exact ⟨rfl, rfl, .stays rfl rfl (Or.inl rfl)⟩
    | true =>
        rcases state_of_leader isLeader with ⟨nextIndex, matchIndex, state⟩
        rw [stepAppendReply_of_leader state later]
        cases success with
        | true =>
            have alike := alike_advanceCommit
              (tracking n (nextIndex.insert sender (m + 1)) (matchIndex.insert sender m))
            have leads := isLeader_congr alike.state
            exact ⟨alike.id, alike.peers, .stays alike.term rfl (Or.inr ⟨isLeader, leads⟩)⟩
        | false => exact ⟨rfl, rfl, .stays rfl rfl (Or.inr ⟨isLeader, rfl⟩)⟩

/-- The node keeps its name and its peers, and its role changes in one of a few ways. -/
theorem call_turn {n n' : RaftNode} {call : NodeCall} (called : n.call call = some n') :
    n'.id = n.id ∧ n'.peers = n.peers ∧ Turn n call n' := by
  cases call with
  | tick =>
      rcases Option.map_eq_some_iff.mp called with ⟨⟨_, out⟩, ticked, equal⟩
      cases equal
      exact tick_turn ticked
  | propose data =>
      rcases Option.map_eq_some_iff.mp called with ⟨⟨_, result⟩, proposed, equal⟩
      cases equal
      exact propose_turn proposed
  | step msg =>
      rcases Option.map_eq_some_iff.mp called with ⟨⟨_, out⟩, stepped, equal⟩
      cases equal
      cases msg with
      | requestVote term candidate lastLogIndex lastLogTerm =>
          have answered := congrArg Prod.fst (Option.some.inj stepped)
          exact answered ▸ requestVote_turn n term candidate lastLogIndex lastLogTerm
      | voteReply term sender granted => exact voteReply_turn stepped
      | appendEntries term leader prevIndex prevTerm entries leaderCommit =>
          have answered := congrArg Prod.fst (Option.some.inj stepped)
          exact answered ▸ appendEntries_turn n term leader prevIndex
            prevTerm entries leaderCommit
      | appendReply term sender success m =>
          have answered := congrArg Prod.fst (Option.some.inj stepped)
          exact answered ▸ appendReply_turn n term sender success m

/-! ## Calls in machine words -/

theorem wrapCursor_of_not_leader {n : RaftNode} (other : n.isLeader ≠ true) (peer : String) :
    n.wrapCursor peer = n := by
  cases state : n.state <;> simp_all [RaftNode.isLeader, RaftNode.wrapCursor]

theorem wrapCursor_alike (n : RaftNode) (peer : String) :
    (n.wrapCursor peer).id = n.id ∧ (n.wrapCursor peer).peers = n.peers ∧
      (n.wrapCursor peer).term = n.term ∧ (n.wrapCursor peer).isLeader = n.isLeader := by
  cases state : n.state with
  | follower | candidate => simp [RaftNode.wrapCursor, state]
  | leader nextIndex matchIndex =>
      rw [RaftNode.wrapCursor, state]
      dsimp only
      split
      · refine ⟨rfl, rfl, rfl, ?_⟩
        simp [RaftNode.isLeader, state]
      · exact ⟨rfl, rfl, rfl, rfl⟩

/-- A call that counts nothing changes the role alike with a wrapped cursor. -/
theorem Turn.of_wrapCursor {n n' : RaftNode} {call : NodeCall} {peer : String}
    (silent : ∀ n, call.grants n = []) (turn : Turn (n.wrapCursor peer) call n') :
    Turn n call n' := by
  by_cases isLeader : n.isLeader = true
  · rcases wrapCursor_alike n peer with ⟨-, peers, sameTerm, leads⟩
    cases turn with
    | stays term _ role =>
        refine .stays (term.trans sameTerm) (silent n) (Or.inr ⟨isLeader, ?_⟩)
        rcases role with same | ⟨-, after⟩
        · exact (isLeader_congr same).trans (leads.trans isLeader)
        · exact after
    | falls term _ role => exact .falls (sameTerm ▸ term) (silent n) role
    | stands term _ notAlone role =>
        exact .stands (sameTerm ▸ term) (silent n) (peers ▸ notAlone) role
    | leadsAlone term _ alone role =>
        exact .leadsAlone (sameTerm ▸ term) (silent n) (peers ▸ alone) role
    | counts _ _ grant => cases (silent _).symm.trans grant
  · rwa [wrapCursor_of_not_leader isLeader] at turn

/-- In machine words only the term can differ from that of a turn. -/
theorem callInWords_turn {n n' : RaftNode} {call : NodeCall}
    (called : n.callInWords call = some n') : ∃ m, (n.before call).call call = some m ∧
      n' = m.wrapTerm ∧ m.id = n.id ∧ m.peers = n.peers ∧ Turn n call m := by
  rcases Option.map_eq_some_iff.mp called with ⟨m, called, wrapped⟩
  refine ⟨m, called, wrapped.symm, ?_⟩
  rcases call_turn called with ⟨id, peers, turn⟩
  by_cases backsOff : ∃ term sender matched, call = .step (.appendReply term sender false matched)
  · rcases backsOff with ⟨term, sender, matched, rfl⟩
    rcases wrapCursor_alike n sender with ⟨sameId, samePeers, -⟩
    exact ⟨id.trans sameId, peers.trans samePeers, turn.of_wrapCursor fun _ => rfl⟩
  · have same : n.before call = n := by
      unfold RaftNode.before
      split
      · exact absurd ⟨_, _, _, rfl⟩ backsOff
      · rfl
    rw [same] at id peers turn
    exact ⟨id, peers, turn⟩

/-! ## The count of a term -/

namespace Polled

theorem next_turn {p p' : Polled} {call : NodeCall} (next : p.next call = some p') :
    ∃ m, (p.node.before call).call call = some m ∧ p'.node = m.wrapTerm ∧ m.id = p.node.id ∧
      m.peers = p.node.peers ∧ Turn p.node call m ∧
        p'.counted = p.counted ++ call.grants p.node := by
  rcases Option.map_eq_some_iff.mp next with ⟨n', called, equal⟩
  rcases callInWords_turn called with ⟨m, called, wrapped, id, peers, turn⟩
  rw [← equal]
  exact ⟨m, called, wrapped, id, peers, turn, rfl⟩

theorem senders_counted {p p' : Polled} {more : List (Nat × String)}
    (counted : p'.counted = p.counted ++ more) (term : Nat) :
    p'.senders term =
      p.senders term ++ (more.filter fun grant => grant.1 = term).map Prod.snd := by
  simp [senders, counted]

theorem senders_none {p : Polled} {term : Nat} (past : ∀ grant ∈ p.counted, grant.1 ≠ term) :
    p.senders term = [] := by
  simp [senders, List.filter_eq_nil_iff]
  exact fun earlier sender member same => past (earlier, sender) member same

theorem mem_senders {p : Polled} {term : Nat} {sender : String} :
    sender ∈ p.senders term ↔ (term, sender) ∈ p.counted := by
  simp [senders]

/-- A candidate has as many votes as it has counted replies, and one more; a leader of several
members has counted half of the cluster.  The replies it has counted are related to all that have
been counted in its term. -/
structure Tallied (Of : List String → List String → Prop) (p : Polled) : Prop where
  fits : p.node.term < 2 ^ 64
  stands : ∀ votes, p.node.state = .candidate votes →
    ∃ own, Of own (p.senders p.node.term) ∧ votes = own.length + 1 ∧ votes < p.node.majority
  leads : p.node.isLeader = true → p.node.peers ≠ [] →
    ∃ own, Of own (p.senders p.node.term) ∧ own.length + 1 = p.node.majority

theorem majority_congr {n n' : RaftNode} (same : n'.peers = n.peers) :
    n'.majority = n.majority := by
  simp [RaftNode.majority, same]

theorem not_isLeader_of_candidate {n : RaftNode} {votes : Nat}
    (state : n.state = .candidate votes) :
    n.isLeader ≠ true := by
  simp [RaftNode.isLeader, state]

variable {Of : List String → List String → Prop}

theorem tallied_new (id : String) (peers : List String) (seed : UInt64) :
    Tallied Of { node := .new id peers seed, counted := [] } where
  fits := by simp [RaftNode.new]
  stands := by simp [RaftNode.new]
  leads := by simp [RaftNode.new, RaftNode.isLeader]

theorem Tallied.step {p p' : Polled} {call : NodeCall} (tallied : p.Tallied Of)
    (more : ∀ {own all} sender, Of own all → Of (own ++ [sender]) (all ++ [sender]))
    (first : p'.node.term ≠ p.node.term → p'.counted = p.counted →
      Of [] (p'.senders p'.node.term))
    (called : p.next call = some p') : p'.Tallied Of := by
  rcases next_turn called with ⟨m, -, wrapped, -, peers, turn, counted⟩
  have fits : p'.node.term < 2 ^ 64 := by
    rw [wrapped]
    exact Nat.mod_lt _ (by decide)
  have state : p'.node.state = m.state := by rw [wrapped]; rfl
  have samePeers : p'.node.peers = p.node.peers := by rw [wrapped]; exact peers
  have majority := majority_congr samePeers
  have silence : call.grants p.node = [] → p'.counted = p.counted :=
    fun silent => by rw [counted, silent, List.append_nil]
  -- a term that stays is a machine word as it was
  have sameTerm : m.term = p.node.term → p'.node.term = p.node.term := by
    intro same
    rw [wrapped, RaftNode.wrapTerm, same]
    exact Nat.mod_eq_of_lt tallied.fits
  cases turn with
  | stays term silent role =>
      have same : p'.senders p'.node.term = p.senders p.node.term := by
        simp [senders, silence silent, sameTerm term]
      refine ⟨fits, ?_, ?_⟩
      · intro votes isCandidate
        rw [same, majority]
        rw [state] at isCandidate
        rcases role with sameRole | ⟨-, leads⟩
        · exact tallied.stands votes (sameRole ▸ isCandidate)
        · exact absurd leads (not_isLeader_of_candidate isCandidate)
      · intro leads several
        rw [same, majority]
        rw [isLeader_congr state] at leads
        have before : p.node.isLeader = true :=
          role.elim (fun sameRole => (isLeader_congr sameRole).symm.trans leads) And.left
        exact tallied.leads before (samePeers ▸ several)
  | falls term silent role =>
      rw [← state] at role
      refine ⟨fits, ?_, ?_⟩
      · simp [role]
      · simp [role, RaftNode.isLeader]
  | stands term silent notAlone role =>
      rw [← state] at role
      refine ⟨fits, ?_, ?_⟩
      · intro votes isCandidate
        cases role.symm.trans isCandidate
        have next : p'.node.term ≠ p.node.term := by
          rw [wrapped]
          change m.term % 2 ^ 64 ≠ p.node.term
          have := tallied.fits
          omega
        have := List.length_pos_of_ne_nil notAlone
        refine ⟨[], first next (silence silent), rfl, ?_⟩
        rw [majority, RaftNode.majority]
        omega
      · intro leads
        exact absurd leads (not_isLeader_of_candidate role)
  | leadsAlone term silent alone role =>
      rw [← isLeader_congr state] at role
      refine ⟨fits, ?_, ?_⟩
      · intro votes isCandidate
        exact absurd role (not_isLeader_of_candidate isCandidate)
      · intro leads several
        exact absurd (samePeers.trans alone) several
  | @counts votes sender term isCandidate grant role =>
      rw [grant] at counted
      rw [← state, ← isLeader_congr state] at role
      rcases tallied.stands votes isCandidate with ⟨own, isOf, isCount, few⟩
      have one : p'.senders p'.node.term = p.senders p.node.term ++ [sender] := by
        rw [senders_counted counted, sameTerm term]
        simp
      have countOne : votes + 1 = (own ++ [sender]).length + 1 := by
        rw [List.length_append, isCount]
        rfl
      refine ⟨fits, ?_, ?_⟩
      · intro votes' nowCandidate
        rcases role with ⟨under, below⟩ | ⟨leads, -⟩
        · cases under.symm.trans nowCandidate
          rw [one, majority]
          exact ⟨_, more sender isOf, countOne, below⟩
        · exact absurd leads (not_isLeader_of_candidate nowCandidate)
      · intro leads several
        rcases role with ⟨under, -⟩ | ⟨-, enough⟩
        · exact absurd leads (not_isLeader_of_candidate under)
        · rw [one, majority]
          refine ⟨_, more sender isOf, ?_⟩
          omega

/-- What has been counted for the term of a node that has not wrapped around it. -/
structure Counts (p : Polled) : Prop where
  past : ∀ grant ∈ p.counted, grant.1 ≤ p.node.term
  tallied : p.Tallied Eq

theorem Counts.step {p p' : Polled} {call : NodeCall} (counts : p.Counts)
    (unwrapped : p.Unwrapped call) (called : p.next call = some p') : p'.Counts := by
  rcases next_turn called with ⟨m, became, wrapped, -, -, turn, counted⟩
  have term : p'.node.term = m.term := by
    rw [wrapped]
    exact Nat.mod_eq_of_lt (unwrapped m became)
  constructor
  · intro grant member
    rw [counted] at member
    rw [term]
    rcases List.mem_append.mp member with old | new
    · exact (counts.past grant old).trans turn.term_le
    · exact (turn.grant_term new).trans_le turn.term_le
  · refine counts.tallied.step (fun sender same => by rw [same]) (fun next same => ?_) called
    -- nothing has been counted in a later term
    symm
    apply senders_none
    intro grant member
    rw [same] at member
    have := counts.past grant member
    have := turn.term_le
    omega

/-- On every run, whatever the messages. -/
theorem tallied_of_reachable {id : String} {peers : List String} {seed : UInt64} {p : Polled}
    (reachable : (system id peers seed).Reachable p) : p.Tallied List.Sublist := by
  apply reachable.invariant (Tallied List.Sublist)
  · intro start initial
    rw [initial]
    exact tallied_new id peers seed
  · intro before call after tallied step
    refine tallied.step (fun sender sub => ?_) (fun _ _ => List.nil_sublist _) step
    exact sub.append (List.Sublist.refl _)

/-- On a run that keeps its terms in a machine word. -/
theorem counts_of_reachable {id : String} {peers : List String} {seed : UInt64} {p : Polled}
    (reachable : ((system id peers seed).restrict Unwrapped).Reachable p) : p.Counts := by
  apply reachable.invariant Counts
  · intro start initial
    rw [initial]
    exact ⟨by simp, tallied_new id peers seed⟩
  · intro before call after counts step
    exact counts.step step.1 step.2

/-- Half of the cluster, when a leader of several members has counted some replies. -/
theorem Tallied.half {p : Polled} (tallied : p.Tallied Of) (leads : p.node.isLeader = true)
    (several : 1 < p.node.peers.length + 1) :
    ∃ own, Of own (p.senders p.node.term) ∧ own.length = (p.node.peers.length + 1) / 2 := by
  have notAlone : p.node.peers ≠ [] := by
    intro alone
    simp [alone] at several
  rcases tallied.leads leads notAlone with ⟨own, isOf, count⟩
  exact ⟨own, isOf, Nat.succ.inj count⟩

/-- A leader of several members is elected exactly when the votes that it has counted in its
term are those of different other members. -/
theorem Counts.elected_iff {p : Polled} (counts : p.Counts) (leads : p.node.isLeader = true)
    (several : 1 < p.node.peers.length + 1) : p.Elected ↔ p.Clean := by
  rcases counts.tallied.half leads several with ⟨own, rfl, half⟩
  constructor
  · intro elected
    rcases elected leads several with ⟨voters, different, enough, counted⟩
    have within : voters ⊆ p.senders p.node.term :=
      fun voter member => mem_senders.mpr (counted voter member).2
    have same : voters.Perm (p.senders p.node.term) := by
      apply (List.subperm_of_subset different within).perm_of_length_le
      rw [half]
      exact enough
    refine ⟨same.nodup_iff.mp different, fun sender member => ?_⟩
    exact (counted sender (same.mem_iff.mpr member)).1
  · intro clean _ _
    refine ⟨p.senders p.node.term, clean.1, half.ge, fun voter member => ?_⟩
    exact ⟨clean.2 voter member, mem_senders.mp member⟩

/-! ## Counting each voter once -/

/-- No reply has been counted twice, and all came from other members. -/
structure Distinct (p : Polled) : Prop where
  once : p.counted.Nodup
  other : ∀ grant ∈ p.counted, p.Other grant.2

theorem Distinct.step {p p' : Polled} {call : NodeCall} (distinct : p.Distinct)
    (fresh : p.Fresh call) (called : p.next call = some p') : p'.Distinct := by
  rcases next_turn called with ⟨m, -, wrapped, id, peers, turn, counted⟩
  have single : (call.grants p.node).Nodup := by
    cases turn with
    | stays _ silent => simp [silent]
    | falls _ silent => simp [silent]
    | stands _ silent => simp [silent]
    | leadsAlone _ silent => simp [silent]
    | counts _ _ grant => simp [grant]
  constructor
  · rw [counted]
    apply distinct.once.append single
    intro grant old new
    exact (fresh grant new).1 old
  · intro grant member
    rw [counted] at member
    have sameId : p'.node.id = p.node.id := by rw [wrapped]; exact id
    have samePeers : p'.node.peers = p.node.peers := by rw [wrapped]; exact peers
    rw [Other, sameId, samePeers]
    rcases List.mem_append.mp member with old | new
    · exact distinct.other grant old
    · exact (fresh grant new).2

theorem Distinct.clean {p : Polled} (distinct : p.Distinct) : p.Clean := by
  constructor
  · apply List.Nodup.map_on _ (distinct.once.filter _)
    intro first left second right same
    have own := (List.mem_filter.mp left).2
    have own' := (List.mem_filter.mp right).2
    exact Prod.ext ((of_decide_eq_true own).trans (of_decide_eq_true own').symm) same
  · intro sender member
    exact distinct.other _ (mem_senders.mp member)

/-- The votes of a leader are those of different other members. -/
theorem Distinct.elected {p : Polled} (distinct : p.Distinct) (tallied : p.Tallied List.Sublist) :
    p.Elected := by
  intro leads several
  rcases tallied.half leads several with ⟨own, part, half⟩
  have clean := distinct.clean
  refine ⟨own, clean.1.sublist part, half.ge, fun voter member => ?_⟩
  have counted := part.subset member
  exact ⟨clean.2 voter counted, mem_senders.mp counted⟩

/-- When no vote is counted twice and none from outside, a majority of different members
elects every leader; a leader's count is right only when this was so in its term, if the node
has not come to the term a second time. -/
theorem elected_of_fresh (id : String) (peers : List String) (seed : UInt64) :
    (∀ p, ((system id peers seed).restrict Fresh).Reachable p → p.Elected) ∧
      ∀ p, ((system id peers seed).restrict Unwrapped).Reachable p → p.node.isLeader = true →
        1 < p.node.peers.length + 1 → (p.Elected ↔ p.Clean) := by
  constructor
  · intro p reachable
    have distinct : p.Distinct := by
      apply reachable.invariant Distinct
      · intro start initial
        rw [initial]
        exact ⟨by simp, by simp⟩
      · intro before call after holds step
        exact holds.step step.1 step.2
    apply distinct.elected
    rcases reachable with ⟨start, initial, path⟩
    exact tallied_of_reachable ⟨start, initial, path.unrestrict⟩
  · intro p reachable leads several
    exact (counts_of_reachable reachable).elected_iff leads several

/-- `a` of five members stands for election and leads with the votes of `b` and `c`. -/
def twoVoters : List NodeCall :=
  List.replicate 10 NodeCall.tick ++
    [.step (.voteReply 1 "b" true), .step (.voteReply 1 "c" true)]

theorem elected_of_fresh_five :
    ∃ p : Polled, p.node.isLeader = true ∧ p.node.peers.length = 4 ∧
      p.Elected ∧ p.Clean := by
  have ran : (TransitionSystem.follow
      (TransitionSystem.guarded (fun p call => Fresh p call ∧ Unwrapped p call) next)
      { node := .new "a" ["b", "c", "d", "e"] 8, counted := [] } twoVoters).map
        (fun p => (p.node.isLeader, p.node.peers.length)) = some (true, 4) := by
    decide +kernel
  rcases Option.map_eq_some_iff.mp ran with ⟨p, followed, facts⟩
  rw [Prod.mk.injEq] at facts
  have path := TransitionSystem.Reaches.of_guarded (T := system "a" ["b", "c", "d", "e"] 8)
    (fun _ _ _ step => step) followed
  have elected := (elected_of_fresh "a" ["b", "c", "d", "e"] 8).1 p
    ⟨_, rfl, path.restrict_mono fun _ _ => And.left⟩
  have several : 1 < p.node.peers.length + 1 := by
    rw [facts.2]
    decide
  have exact' := (elected_of_fresh "a" ["b", "c", "d", "e"] 8).2 p
    ⟨_, rfl, path.restrict_mono fun _ _ => And.right⟩ facts.1 several
  exact ⟨p, facts.1, facts.2, elected, exact'.mp elected⟩

/-! ## A vote counted twice -/

/-- The reply of `b` is delivered twice. -/
def oneVoter : List NodeCall :=
  List.replicate 10 NodeCall.tick ++
    [.step (.voteReply 1 "b" true), .step (.voteReply 1 "b" true)]

theorem not_elected_five : ¬ ∀ id peers seed p, (system id peers seed).Reachable p →
    p.Elected := by
  intro elected
  have ran : (TransitionSystem.follow next
      { node := .new "a" ["b", "c", "d", "e"] 8, counted := [] } oneVoter).map
        (fun p => (p.node.isLeader, p.node.peers.length, p.counted)) =
          some (true, 4, [(1, "b"), (1, "b")]) := by
    decide +kernel
  rcases Option.map_eq_some_iff.mp ran with ⟨p, followed, facts⟩
  rw [Prod.mk.injEq, Prod.mk.injEq] at facts
  rcases facts with ⟨leads, four, counted⟩
  have run : (system "a" ["b", "c", "d", "e"] 8).Reachable p :=
    ⟨_, rfl, TransitionSystem.Reaches.of_follow (fun _ _ _ step => step) followed⟩
  have several : 1 < p.node.peers.length + 1 := by
    rw [four]
    decide
  rcases elected "a" _ 8 p run leads several with ⟨voters, different, enough, voted⟩
  rw [four] at enough
  -- both counted replies are those of `b`
  have within : voters ⊆ ["b"] := by
    intro voter member
    have := (voted voter member).2
    rw [counted] at this
    simp at this
    simp [this]
  have := (List.subperm_of_subset different within).length_le
  simp at this enough
  omega

end Polled

end Cluster
end Sigil
