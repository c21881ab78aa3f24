import Sigil.Cluster.Appends

namespace Sigil
namespace Cluster

/-!
# Runs of a cluster

One event is matched by the history, and so is every run.  A strict run is one in which
no delivered append cuts entries it does not conflict with and no leader counts an
acknowledgement of an earlier term.
-/

open Library Library.Replication

variable {c : Membership} {strict : Prop} {s : Net} {h : Hist}

/-! ## One delivery -/

/-- After a node has stepped down the rest of the handler continues from there. -/
theorem Matched.continue {i : String} {middle n : RaftNode} {rest new : List (String × RaftMsg)}
    (first : Matched c strict h s { s with node := Function.update s.node i middle })
    (second : ∀ h', Coupled c strict { s with node := Function.update s.node i middle } h' →
      Matched c strict h' { s with node := Function.update s.node i middle }
        { s with node := Function.update (Function.update s.node i middle) i n,
                 flight := rest ++ new }) :
    Matched c strict h s { s with node := Function.update s.node i n, flight := rest ++ new } := by
  have both := first.trans second
  rwa [Function.update_idem] at both

theorem Cuts.becomeFollower {n : RaftNode} {term : Nat} {leader : String}
    {prevIndex prevTerm : Nat} {entries : List LogEntry} {leaderCommit : Nat}
    (current : n.term ≤ term)
    (cuts : Cuts (n.becomeFollower term)
      (.appendEntries term leader prevIndex prevTerm entries leaderCommit)) :
    Cuts n (.appendEntries term leader prevIndex prevTerm entries leaderCommit) :=
  ⟨current, cuts.2⟩

/-- An append to a node that has first become a follower of its term. -/
theorem Matched.appendEntries {i : String} {term : Nat} (member : i ∈ c.members)
    (fell : Matched c strict h s
      { s with node := Function.update s.node i ((s.node i).becomeFollower term) })
    {leader : String} {prevIndex prevTerm : Nat} {entries : List LogEntry} {leaderCommit : Nat}
    {rest : List (String × RaftMsg)} (part : rest.Subperm s.flight)
    (isCopy : (i, .appendEntries term leader prevIndex prevTerm entries leaderCommit) ∈ s.flight)
    (current : (s.node i).term ≤ term)
    (keeps : strict → ¬ Cuts (s.node i)
      (.appendEntries term leader prevIndex prevTerm entries leaderCommit))
    {n : RaftNode} {out : List Envelope}
    (answered : answerAppend ((s.node i).becomeFollower term) term leader prevIndex prevTerm entries
      leaderCommit = (n, out)) :
    Matched c strict h s
      { s with node := Function.update s.node i n, flight := rest ++ out.flatMap c.copies } := by
  refine fell.continue fun h' coupled' => ?_
  refine coupled'.appendEntries member part (coupled'.flight _ isCopy) (Or.inr ?_)
    (fun isStrict cuts => ?_) ?_
  · simp only [Function.update_self]
    exact ⟨rfl, rfl⟩
  · simp only [Function.update_self] at cuts
    exact keeps isStrict (cuts.becomeFollower current)
  · simpa only [Function.update_self] using answered

/-- The delivery of one copy to a node that runs. -/
theorem Coupled.deliver (coupled : Coupled c strict s h) {i : String} (member : i ∈ c.members)
    {msg : RaftMsg} {rest : List (String × RaftMsg)} (copy : s.flight.Perm ((i, msg) :: rest))
    (keeps : strict → ¬ Cuts (s.node i) msg) (current : strict → ¬ Stale (s.node i) msg)
    {n : RaftNode} {out : List Envelope} (handled : (s.node i).decodeStep msg = some (n, out)) :
    Matched c strict h s
      { s with node := Function.update s.node i n, flight := rest ++ out.flatMap c.copies } := by
  have agrees := coupled.nodes i member
  have part : rest.Subperm s.flight :=
    ((List.sublist_cons_self _ _).subperm).trans copy.symm.subperm
  have truthful := coupled.flight _ (copy.symm.subset List.mem_cons_self)
  -- a message that only makes the node step down
  have falls : ∀ {term}, (s.node i).term < term →
      some ((s.node i).becomeFollower term, []) = some (n, out) → Matched c strict h s
        { s with node := Function.update s.node i n, flight := rest ++ out.flatMap c.copies } := by
    intro term later equal
    rw [Option.some.injEq, Prod.mk.injEq] at equal
    rcases equal with ⟨rfl, rfl⟩
    refine (coupled.stepDown member later).continue fun h' coupled' => ?_
    have dropped := coupled'.drop member part
    simp only [Function.update_self] at dropped
    exact dropped
  cases msg with
  | requestVote term candidate lastLogIndex lastLogTerm =>
      by_cases own : candidate = (s.node i).id
      · rw [RaftNode.decodeStep, if_pos own, Option.some.injEq, Prod.mk.injEq] at handled
        rcases handled with ⟨rfl, rfl⟩
        exact coupled.drop member part
      · rw [RaftNode.decodeStep, if_neg own, RaftNode.step, Option.some.injEq] at handled
        have different : candidate ≠ i := agrees.id ▸ own
        by_cases later : (s.node i).term < term
        · rw [stepRequestVote_later later] at handled
          refine (coupled.stepDown member later).continue fun h' coupled' => ?_
          apply coupled'.requestVote member different copy
          · simp only [Function.update_self]
            exact handled
          · simp only [Function.update_self]
            exact Nat.lt_irrefl term
        · exact coupled.requestVote member different copy handled later
  | voteReply term sender granted =>
      rw [RaftNode.decodeStep, RaftNode.step] at handled
      · by_cases later : (s.node i).term < term
        · rw [RaftNode.stepVoteReply, if_pos later] at handled
          exact falls later handled
        · exact coupled.voteReply member copy handled later
      · simp
  | appendEntries term leader prevIndex prevTerm entries leaderCommit =>
      have answered : answerAppend (if (s.node i).term < term ∨
          (term = (s.node i).term ∧ (s.node i).state ≠ .follower)
            then (s.node i).becomeFollower term else s.node i)
          term leader prevIndex prevTerm entries leaderCommit = (n, out) := by
        rw [← stepAppendEntries_eq]
        exact Option.some.inj handled
      by_cases later : (s.node i).term < term
      · rw [if_pos (Or.inl later)] at answered
        exact (coupled.stepDown member later).appendEntries member part
          (copy.symm.subset List.mem_cons_self) (Nat.le_of_lt later) keeps answered
      · by_cases busy : term = (s.node i).term ∧ (s.node i).state ≠ .follower
        · rw [if_pos (Or.inr busy)] at answered
          rcases busy with ⟨rfl, busy⟩
          exact (coupled.yield member truthful.1 truthful.2.1 busy).appendEntries member part
            (copy.symm.subset List.mem_cons_self) (Nat.le_refl _) keeps answered
        · rw [if_neg (not_or.mpr ⟨later, busy⟩)] at answered
          refine coupled.appendEntries member part truthful ?_ keeps answered
          rcases Nat.lt_or_eq_of_le (Nat.le_of_not_lt later) with old | equal
          · exact Or.inl old
          · exact Or.inr ⟨equal, by_contra fun state => busy ⟨equal, state⟩⟩
  | appendReply term sender success m =>
      rw [RaftNode.decodeStep, RaftNode.step] at handled
      · by_cases later : (s.node i).term < term
        · rw [RaftNode.stepAppendReply, if_pos later] at handled
          exact falls later handled
        · exact coupled.appendReply member part truthful later current (Option.some.inj handled)
      · simp

/-! ## One event -/

/-- The copy that an event delivers. -/
def Net.delivered (s : Net) : Event → Option (String × RaftMsg)
  | .deliver position => s.flight[position]?
  | _ => none

/-- The event delivers no append that cuts entries it does not conflict with. -/
def NoCut (s : Net) (event : Event) : Prop :=
  ∀ copy, copy ∈ s.delivered event → ¬ Cuts (s.node copy.1) copy.2

/-- The event delivers no acknowledgement that is too old for its leader. -/
def NoStale (s : Net) (event : Event) : Prop :=
  ∀ copy, copy ∈ s.delivered event → ¬ Stale (s.node copy.1) copy.2

/-- What the committed entries need of an event. -/
def Careful (s : Net) (event : Event) : Prop :=
  NoCut s event ∧ NoStale s event

theorem Coupled.step (coupled : Coupled c strict s h) {event : Event} {s' : Net}
    (careful : strict → Careful s event) (step : s.step c event = some s') :
    Matched c strict h s s' := by
  cases event with
  | tick i =>
      simp only [Net.step] at step
      split at step
      · next runs =>
          rw [Option.some.injEq] at step
          subst step
          cases result : (s.node i).tick with
          | none => exact coupled.stop _ _ (List.Subperm.refl _)
          | some pair => exact coupled.tick runs.1 result
      · exact absurd step (by simp)
  | propose i data =>
      simp only [Net.step] at step
      split at step
      · next runs =>
          rw [Option.some.injEq] at step
          subst step
          cases result : (s.node i).propose data with
          | none => exact coupled.stop _ _ (List.Subperm.refl _)
          | some pair => exact coupled.propose runs.1 result
      · exact absurd step (by simp)
  | deliver position =>
      simp only [Net.step] at step
      split at step
      · next i msg found =>
          split at step
          · next runs =>
              rw [Option.some.injEq] at step
              subst step
              rcases List.getElem?_eq_some_iff.mp found with ⟨bound, equal⟩
              have copy : s.flight.Perm ((i, msg) :: s.flight.eraseIdx position) := by
                rw [← equal]
                exact (List.getElem_cons_eraseIdx_perm bound).symm
              cases result : (s.node i).decodeStep msg with
              | none =>
                  exact coupled.stop _ _ (List.eraseIdx_sublist _ _).subperm
              | some pair =>
                  exact coupled.deliver runs.1 copy
                    (fun isStrict => (careful isStrict).1 (i, msg) found)
                    (fun isStrict => (careful isStrict).2 (i, msg) found) result
          · exact absurd step (by simp)
      · exact absurd step (by simp)

/-! ## Runs -/

theorem coupled_start (c : Membership) (strict : Prop) :
    Coupled c strict c.start (History.initial : Hist) := by
  refine ⟨valid_initial _, fun _ => kept_initial, fun i member => ?_,
    fun copy none_ => absurd none_ List.not_mem_nil, ?_⟩
  · refine
      { id := rfl
        peers := rfl
        term := rfl
        log := rfl
        vote := ?_
        voter := fun impossible => absurd impossible (by simp [History.initial])
        leads := ?_
        candidate := fun impossible => absurd impossible (by simp [Membership.start, RaftNode.new])
        acked := fun impossible => absurd impossible (by simp [Membership.start, RaftNode.new])
        commit := fun _ => ⟨Nat.zero_le _, Or.inl rfl⟩ }
    · intro _ candidate
      simp [Membership.start, RaftNode.new, History.initial]
    · simp [Membership.start, RaftNode.new, RaftNode.isLeader, History.initial]
  · refine { once := fun _ => Nat.zero_le _, future := fun _ _ _ => rfl, counted := ?_ }
    intro i votes _ isCandidate
    exact absurd isCandidate (by simp [Membership.start, RaftNode.new])

/-- The runs in which every event is careful. -/
def Membership.carefulSystem (c : Membership) : TransitionSystem Net Event :=
  c.system.restrict Careful

/-- Every run is matched by a history without the strict facts. -/
theorem Coupled.reaches {s' : Net} (coupled : Coupled c False s h) (run : c.system.Reaches s s') :
    ∃ h', Extends h h' ∧ Coupled c False s' h' := by
  have matched : ∀ before event after history, Coupled c False before history →
      c.system.step before event after →
      ∃ history', (histories c False).Reaches history history' ∧
        Coupled c False after history' := by
    intro before event after history related step
    rcases related.step (fun impossible => absurd impossible id) step with
      ⟨last, path, coupledLast, _⟩
    exact ⟨last, path, coupledLast⟩
  rcases run.simulate matched coupled with ⟨h', path, coupled'⟩
  exact ⟨h', (coupled.valid.reaches path).2, coupled'⟩

/-- A careful run is matched by a history with them, and the committed parts grow. -/
theorem Coupled.reaches_careful {s' : Net} (coupled : Coupled c True s h)
    (run : c.carefulSystem.Reaches s s') :
    ∃ h', Extends h h' ∧ Coupled c True s' h' ∧ CommitsGrow c s s' := by
  have matched : ∀ before event after history,
      Coupled c True before history ∧ CommitsGrow c s before →
      c.carefulSystem.step before event after →
      ∃ history', (histories c True).Reaches history history' ∧
        Coupled c True after history' ∧ CommitsGrow c s after := by
    rintro before event after history ⟨related, grown⟩ ⟨careful, step⟩
    rcases related.step (fun _ => careful) step with ⟨last, path, coupledLast, more⟩
    exact ⟨last, path, coupledLast,
      fun i member => (grown i member).trans (more trivial i member)⟩
  rcases run.simulate matched ⟨coupled, fun _ _ => List.prefix_rfl⟩ with ⟨h', path, both⟩
  exact ⟨h', (coupled.valid.reaches path).2, both⟩

theorem coupled_of_reachable (reachable : c.system.Reachable s) :
    ∃ h, Coupled c False s h := by
  refine reachable.invariant (fun s => ∃ h, Coupled c False s h) (fun _ initial => ?_)
    (fun before event after holds step => ?_)
  · exact ⟨History.initial, initial ▸ coupled_start c False⟩
  · rcases holds with ⟨h, coupled⟩
    rcases coupled.step (fun impossible => absurd impossible id) step with ⟨h', _, coupled', _⟩
    exact ⟨h', coupled'⟩

theorem coupled_of_careful (reachable : c.carefulSystem.Reachable s) :
    ∃ h, Coupled c True s h := by
  refine reachable.invariant (fun s => ∃ h, Coupled c True s h) (fun _ initial => ?_)
    (fun before event after holds step => ?_)
  · exact ⟨History.initial, initial ▸ coupled_start c True⟩
  · rcases holds with ⟨h, coupled⟩
    rcases coupled.step (fun _ => step.1) step.2 with ⟨h', _, coupled', _⟩
    exact ⟨h', coupled'⟩

end Cluster
end Sigil
