import Mathlib.Data.Finset.Card
import Mathlib.Data.List.Basic
import Mathlib.Tactic.Common
import Sigil.Library.Transition

namespace Sigil
namespace Library

/-!
# Leader-based log replication, without messages

Nodes vote once in every numbered term, a term has at most one leader, and a
leader copies its own log onto the logs of the others.  A `History` remembers what
a running node forgets: the log a voter held when it voted, the log of every
leader, and how much of a leader's log each node has stored during that term.
There are no messages here; an implementation shows that the messages it trusts
state facts about the history.

The steps are those of any protocol of this family.  `accept` is parametrised by
the replacements of a node's log that are allowed.  Log matching needs no
restriction on them.  Completeness, that a leader holds everything decided in
earlier terms, needs that a replacement never drops the tail of a log that the new
contents agree with.

Quorums are any family of sets with pairwise common members.
-/

universe u v

/-- Entries that carry the term in which they were created. -/
class Stamped (Entry : Type v) where
  term : Entry → Nat

/-- Sets of nodes any two of which have a common member. -/
structure QuorumSystem (Node : Type u) where
  quorum : Finset Node → Prop
  intersect :
    ∀ left right, quorum left → quorum right → ∃ node, node ∈ left ∧ node ∈ right

namespace QuorumSystem

/-- The sets of more than half of the members. -/
def majority {Node : Type u} [DecidableEq Node] (members : Finset Node) :
    QuorumSystem Node where
  quorum := fun nodes => nodes ⊆ members ∧ members.card < 2 * nodes.card
  intersect := by
    rintro left right ⟨leftSubset, leftLarge⟩ ⟨rightSubset, rightLarge⟩
    have common : (left ∩ right).Nonempty := by
      rw [← Finset.card_pos]
      have union := Finset.card_le_card (Finset.union_subset leftSubset rightSubset)
      have total := Finset.card_union_add_card_inter left right
      omega
    rcases common with ⟨node, member⟩
    exact ⟨node, Finset.mem_inter.mp member⟩

end QuorumSystem

namespace Replication

/-! ## Facts about prefixes -/

section Prefix

variable {α : Type v}

theorem take_eq_take_of_le {short long : List α} (isPrefix : short <+: long) {n : Nat}
    (bound : n ≤ short.length) : long.take n = short.take n := by
  rcases isPrefix with ⟨rest, rfl⟩
  exact List.take_append_of_le_length bound

/-- A prefix of an extended list lies in the old part, unless it ends with the
new element. -/
theorem prefix_concat_cases {first whole : List α} {last : α}
    (isPrefix : first <+: whole ++ [last]) : first <+: whole ∨ last ∈ first := by
  rcases List.prefix_concat_iff.mp isPrefix with equal | inside
  · right
    rw [equal]
    exact List.mem_append_right _ (List.mem_singleton.mpr rfl)
  · exact Or.inl inside

/-- A prefix none of whose elements satisfies a property of the whole tail lies in
the head part. -/
theorem prefix_of_append_of_forall {first head tail : List α} {property : α → Prop}
    (isPrefix : first <+: head ++ tail) (inTail : ∀ x, x ∈ tail → property x)
    (outside : ∀ x, x ∈ first → ¬ property x) : first <+: head := by
  have headPrefix : head <+: head ++ tail := List.prefix_append head tail
  rcases Nat.le_total first.length head.length with short | long
  · exact List.prefix_of_prefix_length_le isPrefix headPrefix short
  · rcases List.prefix_of_prefix_length_le headPrefix isPrefix long with ⟨rest, rfl⟩
    have restPrefix : rest <+: tail := (List.prefix_append_right_inj head).mp isPrefix
    cases rest with
    | nil => simp only [List.append_nil, List.prefix_rfl]
    | cons x rest =>
        have member : x ∈ tail := restPrefix.subset (List.mem_cons_self)
        have inFirst : x ∈ head ++ x :: rest :=
          List.mem_append_right _ List.mem_cons_self
        exact absurd (inTail x member) (outside x inFirst)

end Prefix

/-! ## The up-to-date order on logs -/

variable {Node : Type u} {Entry : Type v} [Stamped Entry]

/-- Term of the last entry, zero for the empty log. -/
def lastTerm (log : List Entry) : Nat :=
  (log.getLast?.map Stamped.term).getD 0

/-- A candidate log may replace a voter's log: a later last term, or the same
last term and at least the same length. -/
def UpToDate (candidate voter : List Entry) : Prop :=
  lastTerm voter < lastTerm candidate ∨
    (lastTerm candidate = lastTerm voter ∧ voter.length ≤ candidate.length)

theorem UpToDate.refl (log : List Entry) : UpToDate log log :=
  Or.inr ⟨rfl, Nat.le_refl _⟩

/-! ## Histories -/

/-- What has happened so far.  `vote term node` is the candidate the node voted for
in the term and the log the node held then; `ack term node` is the length of the
leader's log of that term which the node has stored during the term. -/
structure History (Node : Type u) (Entry : Type v) where
  term : Node → Nat
  log : Node → List Entry
  vote : Nat → Node → Option (Node × List Entry)
  leader : Nat → Option Node
  leaderLog : Nat → List Entry
  ack : Nat → Node → Nat

namespace History

/-- Nothing has happened: term zero, empty logs, no votes and no leaders. -/
def initial : History Node Entry where
  term := fun _ => 0
  log := fun _ => []
  vote := fun _ _ => none
  leader := fun _ => none
  leaderLog := fun _ => []
  ack := fun _ _ => 0

variable [DecidableEq Node]

/-- Change one cell of a table of terms and nodes. -/
def record {α : Type v} (table : Nat → Node → α) (term : Nat) (node : Node) (value : α) :
    Nat → Node → α :=
  fun term' node' => if term' = term ∧ node' = node then value else table term' node'

@[simp] theorem record_self {α : Type v} (table : Nat → Node → α) (term : Nat) (node : Node)
    (value : α) : record table term node value term node = value := by
  simp only [record, and_self, if_true]

theorem record_of_not {α : Type v} (table : Nat → Node → α) {term term' : Nat}
    {node node' : Node} (value : α) (different : ¬ (term' = term ∧ node' = node)) :
    record table term node value term' node' = table term' node' := by
  simp only [record, if_neg different]

/-- A node enters a term. -/
def raise (h : History Node Entry) (node : Node) (term : Nat) : History Node Entry :=
  { h with term := Function.update h.term node term }

/-- A node votes in its current term, with its current log. -/
def castVote (h : History Node Entry) (voter candidate : Node) : History Node Entry :=
  { h with vote := record h.vote (h.term voter) voter (some (candidate, h.log voter)) }

/-- A node leads its current term, with its current log. -/
def elect (h : History Node Entry) (node : Node) : History Node Entry :=
  { h with
    leader := Function.update h.leader (h.term node) (some node)
    leaderLog := Function.update h.leaderLog (h.term node) (h.log node)
    ack := record h.ack (h.term node) node (h.log node).length }

omit [Stamped Entry] in
@[simp] theorem leaderLog_elect_self (h : History Node Entry) (candidate : Node) :
    (h.elect candidate).leaderLog (h.term candidate) = h.log candidate :=
  Function.update_self _ _ _

omit [Stamped Entry] in
theorem leaderLog_elect_of_ne {h : History Node Entry} {candidate : Node} {term : Nat}
    (different : term ≠ h.term candidate) :
    (h.elect candidate).leaderLog term = h.leaderLog term :=
  Function.update_of_ne different _ _

omit [Stamped Entry] in
/-- After an election a leader is the new one in its term, or an old one in another term. -/
theorem leader_elect_cases {h : History Node Entry} {candidate leader : Node} {term : Nat}
    (leads : (h.elect candidate).leader term = some leader) :
    (term = h.term candidate ∧ leader = candidate) ∨
      (term ≠ h.term candidate ∧ h.leader term = some leader) := by
  by_cases same : term = h.term candidate
  · subst same
    simp only [elect, Function.update_self, Option.some.injEq] at leads
    exact Or.inl ⟨rfl, leads.symm⟩
  · simp only [elect, Function.update_of_ne same] at leads
    exact Or.inr ⟨same, leads⟩

/-- A leader extends its log. -/
def append (h : History Node Entry) (node : Node) (entry : Entry) : History Node Entry :=
  { h with
    log := Function.update h.log node (h.log node ++ [entry])
    leaderLog := Function.update h.leaderLog (h.term node) (h.log node ++ [entry])
    ack := record h.ack (h.term node) node ((h.log node).length + 1) }

/-- A node replaces its log and acknowledges the new contents. -/
def accept (h : History Node Entry) (node : Node) (log : List Entry) : History Node Entry :=
  { h with
    log := Function.update h.log node log
    ack := record h.ack (h.term node) node (max (h.ack (h.term node) node) log.length) }

end History

open History

variable [DecidableEq Node]

/-- What one node may do; the label names it.  `Allowed before after` restricts the
replacement of a follower's log. -/
inductive Step (Q : QuorumSystem Node) (Allowed : List Entry → List Entry → Prop) :
    History Node Entry → Node → History Node Entry → Prop
  /-- A node enters a later term. -/
  | raise (h : History Node Entry) (node : Node) (term : Nat) (later : h.term node < term) :
      Step Q Allowed h node (h.raise node term)
  /-- A node votes for itself, or for a candidate with an up-to-date log, in a term
  that has no leader yet. -/
  | vote (h : History Node Entry) (voter candidate : Node)
      (open_ : h.leader (h.term voter) = none)
      (fresh : h.vote (h.term voter) voter = none)
      (eligible : candidate = voter ∨ ∃ log, h.vote (h.term voter) candidate =
        some (candidate, log) ∧ UpToDate log (h.log voter)) :
      Step Q Allowed h voter (h.castVote voter candidate)
  /-- A candidate with the votes of a quorum becomes the leader of its term. -/
  | elect (h : History Node Entry) (candidate : Node) (voters : Finset Node)
      (open_ : h.leader (h.term candidate) = none)
      (own : h.vote (h.term candidate) candidate = some (candidate, h.log candidate))
      (quorum : Q.quorum voters)
      (votes : ∀ voter, voter ∈ voters →
        ∃ log, h.vote (h.term candidate) voter = some (candidate, log)) :
      Step Q Allowed h candidate (h.elect candidate)
  /-- The leader of a term appends an entry stamped with the term. -/
  | append (h : History Node Entry) (node : Node) (entry : Entry)
      (leads : h.leader (h.term node) = some node)
      (stamp : Stamped.term entry = h.term node) :
      Step Q Allowed h node (h.append node entry)
  /-- A node takes over a state of its leader's log, at least as long as the log the
  leader was elected with. -/
  | accept (h : History Node Entry) (node leader : Node) (log : List Entry)
      (leads : h.leader (h.term node) = some leader) (other : node ≠ leader)
      (part : log <+: h.leaderLog (h.term node))
      (based : ∀ start, h.vote (h.term node) leader = some (leader, start) → start <+: log)
      (allowed : Allowed (h.log node) log) :
      Step Q Allowed h node (h.accept node log)

/-- The transition system of histories. -/
def system (Q : QuorumSystem Node) (Allowed : List Entry → List Entry → Prop) :
    TransitionSystem (History Node Entry) Node where
  init := fun h => h = initial
  step := Step Q Allowed

end Replication
end Library
end Sigil
