import Sigil.Cluster.Runs

namespace Sigil
namespace Cluster

/-!
# Safety of the cluster

Election safety and log matching hold on every run.  The two properties of committed
entries hold on the careful runs.  The module ends each part with the shortest runs on
which they fail: an append that overtakes a younger one of the same leader cuts an entry
that its sender has already committed, and an acknowledgement from an earlier term makes
a leader commit an entry that no majority has.
-/

open Library Library.Replication

/-! ## Elections and logs -/

/-- Two leaders of one term are the same node, also at different moments of a run. -/
def ElectionSafety (c : Membership) : Prop :=
  ∀ s s', c.system.Reachable s → c.system.Reaches s s' →
    ∀ i j, i ∈ c.members → j ∈ c.members →
      (s.node i).isLeader = true → (s'.node j).isLeader = true →
        (s.node i).term = (s'.node j).term → i = j

theorem election_safety (c : Membership) : ElectionSafety c := by
  intro s s' reachable run i j iMember jMember iLeads jLeads sameTerm
  rcases coupled_of_reachable reachable with ⟨h, coupled⟩
  rcases coupled.reaches run with ⟨h', grow, coupled'⟩
  have first := grow.leader ((coupled.nodes i iMember).leads.mp iLeads)
  have second := (coupled'.nodes j jMember).leads.mp jLeads
  rw [sameTerm] at first
  exact Option.some.inj (first.symm.trans second)

/-- Entries of one term at one index end the same list of entries. -/
def LogMatching (c : Membership) : Prop :=
  ∀ s, c.system.Reachable s → ∀ i j, i ∈ c.members → j ∈ c.members →
    ∀ (index : Nat) (first second : LogEntry), (s.node i).log[index]? = some first →
      (s.node j).log[index]? = some second → first.term = second.term →
        (s.node i).log.take (index + 1) = (s.node j).log.take (index + 1)

theorem log_matching (c : Membership) : LogMatching c := by
  intro s reachable i j iMember jMember index first second firstFound secondFound sameTerm
  rcases coupled_of_reachable reachable with ⟨h, coupled⟩
  have left := coupled.valid.coherentLog i
  have right := coupled.valid.coherentLog j
  rw [(coupled.nodes i iMember).log] at left
  rw [(coupled.nodes j jMember).log] at right
  exact left.matching right firstFound secondFound sameTerm

/-! ## Committed entries -/

section Committed

variable (T : TransitionSystem Net Event) (c : Membership)

/-- The committed lists of two nodes, at any two moments, do not disagree. -/
def StateMachineSafety : Prop :=
  ∀ s s', T.Reachable s → T.Reaches s s' → ∀ i j, i ∈ c.members → j ∈ c.members →
    ∀ left right, (s.node i).committed = some left → (s'.node j).committed = some right →
      left <+: right ∨ right <+: left

/-- The commit index stays inside the log, and the committed list of a node only grows
at its end. -/
def CommitsStable : Prop :=
  ∀ s, T.Reachable s → ∀ i, i ∈ c.members →
    (s.node i).commit ≤ (s.node i).log.length ∧
      ∀ s', T.Reaches s s' → ∀ known, (s.node i).committed = some known →
        ∃ later, (s'.node i).committed = some later ∧ known <+: later

end Committed

/-- A committed list is a settled prefix of the log. -/
theorem settled_of_committed {c : Membership} {s : Net} {h : Hist}
    (coupled : Coupled c True s h) {i : String} (member : i ∈ c.members)
    {known : List LogEntry} (committed : (s.node i).committed = some known) :
    Settled c h (s.node i).term known := by
  rcases (coupled.nodes i member).commit trivial with ⟨bound, settled⟩
  rw [RaftNode.committed, if_pos bound, Option.some.injEq] at committed
  rwa [committed] at settled

/-- On careful runs no two nodes commit different entries at one index. -/
theorem careful_stateMachineSafety (c : Membership) :
    StateMachineSafety c.carefulSystem c := by
  intro s s' reachable run i j iMember jMember left right leftKnown rightKnown
  rcases coupled_of_careful reachable with ⟨h, coupled⟩
  rcases coupled.reaches_careful run with ⟨h', grow, coupled', _⟩
  have first := (settled_of_committed coupled iMember leftKnown).mono grow
  have second := settled_of_committed coupled' jMember rightKnown
  rcases first with rfl | ⟨leftTerm, _, leftDecided⟩
  · exact Or.inl List.nil_prefix
  · rcases second with rfl | ⟨rightTerm, _, rightDecided⟩
    · exact Or.inr List.nil_prefix
    · exact leftDecided.comparable coupled'.valid (coupled'.kept trivial) rightDecided

/-- On careful runs a committed list only grows. -/
theorem careful_commitsStable (c : Membership) : CommitsStable c.carefulSystem c := by
  intro s reachable i member
  rcases coupled_of_careful reachable with ⟨h, coupled⟩
  refine ⟨((coupled.nodes i member).commit trivial).1, ?_⟩
  intro s' run known committed
  rcases coupled.reaches_careful run with ⟨h', _, coupled', grows⟩
  have bound := ((coupled.nodes i member).commit trivial).1
  have bound' := ((coupled'.nodes i member).commit trivial).1
  rw [RaftNode.committed, if_pos bound, Option.some.injEq] at committed
  refine ⟨_, by rw [RaftNode.committed, if_pos bound'], ?_⟩
  rw [← committed]
  exact grows i member

/-! ## An append that is overtaken -/

/-- A cluster whose member list is also its broadcast list. -/
def Membership.ofList (members : List String) (seed : String → UInt64) (nodup : members.Nodup) :
    Membership where
  members := members
  peers := members.erase
  seed := seed
  nodup := nodup
  peers_nodup := fun _ _ => nodup.erase _
  mem_peers := fun _ _ _ => nodup.mem_erase_iff.trans And.comm

/-- Three nodes with election timeouts of ten ticks. -/
def three : Membership :=
  .ofList ["a", "b", "c"] (fun i => if i = "a" then 8 else if i = "b" then 3 else 0) (by decide)

/-- `a` wins term 1 with the vote of `b`, proposes and commits one entry that `b` has
stored.  The empty append to `b` from its election is still in flight at position 2. -/
def overtaken : List Event :=
  List.replicate 10 (Event.tick "a") ++
    [Event.deliver 1, .deliver 2, .propose "a" [1], .deliver 4, .deliver 5]

/-- The late append empties the log of `b`, which then wins term 2 with the vote of `c`
and commits another entry at the same index. -/
def takenBack : List Event :=
  overtaken ++ Event.deliver 2 :: List.replicate 10 (Event.tick "b") ++
    [Event.deliver 7, .deliver 7, .propose "b" [2], .deliver 10, .deliver 10]

theorem not_stateMachineSafety_three : ¬ StateMachineSafety three.system three := by
  intro safe
  have ran : (TransitionSystem.follow (Net.step three) three.start takenBack).map
      (fun s => ((s.node "a").committed, (s.node "b").committed)) =
        some (some [⟨1, [1]⟩], some [⟨2, [2]⟩]) := by
    decide +kernel
  rcases Option.map_eq_some_iff.mp ran with ⟨s, followed, committed⟩
  rw [Prod.mk.injEq] at committed
  have run : three.system.Reaches three.start s :=
    TransitionSystem.Reaches.of_follow (fun _ _ _ step => step) followed
  have agree := safe s s ⟨_, rfl, run⟩ (TransitionSystem.Reaches.refl _ _) "a" "b" (by decide)
    (by decide) _ _ committed.1 committed.2
  revert agree
  decide

/-- With a heartbeat `b` commits the entry as well, before the late append arrives. -/
def committedBoth : List Event :=
  overtaken ++ [Event.tick "a", .tick "a", .tick "a", .deliver 5]

theorem not_commitsStable_three : ¬ CommitsStable three.system three := by
  intro stable
  have ran : (TransitionSystem.follow (Net.step three) three.start committedBoth).bind
      (fun s => (s.step three (.deliver 2)).map fun s' =>
        ((s.node "b").committed, (s'.node "b").committed)) = some (some [⟨1, [1]⟩], none) := by
    decide +kernel
  rcases Option.bind_eq_some_iff.mp ran with ⟨s, followed, next⟩
  rcases Option.map_eq_some_iff.mp next with ⟨s', step, committed⟩
  rw [Prod.mk.injEq] at committed
  have run : three.system.Reaches three.start s :=
    TransitionSystem.Reaches.of_follow (fun _ _ _ step => step) followed
  rcases (stable s ⟨_, rfl, run⟩ "b" (by decide)).2 s'
    (TransitionSystem.Reaches.single (.deliver 2) step) _
    committed.1 with ⟨later, known, _⟩
  exact absurd (committed.2.symm.trans known) (by simp)

/-! ## An acknowledgement that is too old -/

instance (s : Net) (event : Event) : Decidable (NoCut s event) :=
  inferInstanceAs (Decidable (∀ copy, copy ∈ s.delivered event →
    ¬ Cuts (s.node copy.1) copy.2))

/-- Five nodes with election timeouts of ten ticks. -/
def five : Membership :=
  .ofList ["a", "b", "c", "d", "e"]
    (fun i => if i = "a" then 8 else if i = "b" then 3 else if i = "d" then 1 else 0) (by decide)

/-- `b` stores two entries of `a` in term 1, and its acknowledgement stays in flight
while the leader of term 2 replaces both logs by one entry.  In term 3 `a` leads again
and appends an entry that only `c` has; with the old acknowledgement it counts as
stored by three nodes.  In term 4 `b` wins without it and commits another entry. -/
def miscounted : List Event :=
  List.replicate 10 (Event.tick "a") ++
    [Event.deliver 1, .deliver 1, .deliver 3, .deliver 3, .propose "a" [1], .propose "a" [2],
      .deliver 11] ++
  List.replicate 20 (Event.tick "d") ++
    [Event.deliver 22, .deliver 23, .deliver 23, .deliver 23, .propose "d" [3], .deliver 27,
      .deliver 27, .deliver 27, .deliver 27] ++
  List.replicate 10 (Event.tick "a") ++
    [Event.deliver 32, .deliver 32, .deliver 34, .deliver 34, .propose "a" [4], .deliver 39,
      .deliver 41, .deliver 14] ++
  List.replicate 10 (Event.tick "b") ++
    [Event.deliver 43, .deliver 43, .deliver 43, .deliver 43, .propose "b" [5], .deliver 49,
      .deliver 49, .deliver 49, .deliver 49]

/-- Appends that cut nothing do not suffice: the old acknowledgement breaks the safety
of a run without any. -/
theorem not_stateMachineSafety_five :
    ¬ StateMachineSafety (five.system.restrict NoCut) five := by
  intro safe
  have ran : (TransitionSystem.follow
      (fun s event => if NoCut s event then s.step five event else none) five.start
        miscounted).map (fun s => ((s.node "a").committed, (s.node "b").committed)) =
      some (some [⟨2, [3]⟩, ⟨3, [4]⟩], some [⟨2, [3]⟩, ⟨4, [5]⟩]) := by
    decide +kernel
  rcases Option.map_eq_some_iff.mp ran with ⟨s, followed, committed⟩
  rw [Prod.mk.injEq] at committed
  have run : (five.system.restrict NoCut).Reaches five.start s := by
    refine TransitionSystem.Reaches.of_follow (fun before event after step => ?_) followed
    split at step
    · next noCut => exact ⟨noCut, step⟩
    · exact absurd step (by simp)
  have agree := safe s s ⟨_, rfl, run⟩ (TransitionSystem.Reaches.refl _ _) "a" "b" (by decide)
    (by decide) _ _ committed.1 committed.2
  revert agree
  decide

end Cluster
end Sigil
