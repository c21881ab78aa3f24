import Sigil.Library.LogMatching

namespace Sigil
namespace Library
namespace Replication

/-!
# Decided prefixes survive

A prefix of a leader's log is chosen when a quorum has stored it during the term
and its last entry was created in that term.  Every leader of a later term then
holds it: the quorum that stored it and the quorum that elected the later leader
share a node, this node still held the prefix when it voted, and a candidate with
an up-to-date log holds it too.  The induction is on the term of the later leader.

The middle step needs that a node keeps what it has stored.  That is where the
allowed replacements matter: taking over an older state of the leader's log may
not cut a log that agrees with it.
-/

open History

universe u v

variable {Node : Type u} {Entry : Type v} [Stamped Entry]

/-- Replacements that never cut a log they agree with. -/
def Keeping (before after : List Entry) : Prop :=
  ¬ (after <+: before ∧ after ≠ before)

/-- All elected leaders of the terms in `(low, high]` hold the prefix. -/
def HeldUpTo (h : History Node Entry) (known : List Entry) (low high : Nat) : Prop :=
  ∀ term, low < term → term ≤ high → h.leader term ≠ none → known <+: h.leaderLog term

/-! ## What a node keeps -/

/-- Stored prefixes stay in the log of the node, and in the log it votes with, as long
as the leaders in between hold them. -/
structure Kept (h : History Node Entry) : Prop where
  log : ∀ {term node n}, n ≤ h.ack term node →
    HeldUpTo h ((h.leaderLog term).take n) term (h.term node) →
      (h.leaderLog term).take n <+: h.log node
  vote : ∀ {term node n later candidate log}, n ≤ h.ack term node → term < later →
    h.vote later node = some (candidate, log) →
    (∀ middle, term < middle → middle < later → h.leader middle ≠ none →
      (h.leaderLog term).take n <+: h.leaderLog middle) →
      (h.leaderLog term).take n <+: log

omit [Stamped Entry] in
theorem kept_initial : Kept (initial : History Node Entry) where
  log := by
    intro term node n _ _
    rw [initial, List.take_nil]
  vote := by
    intro term node n later candidate log _ _ voted
    exact absurd voted (by simp [initial])

omit [Stamped Entry] in
/-- What was stored when nothing was acknowledged is empty. -/
theorem take_prefix_of_not_acked {h : History Node Entry} {term : Nat} {node : Node} {n : Nat}
    (bound : n ≤ h.ack term node) (none_ : h.ack term node = 0) (whole log : List Entry) :
    whole.take n <+: log := by
  have zero : n = 0 := by omega
  rw [zero, List.take_zero]
  exact List.nil_prefix

section Preservation

variable [DecidableEq Node] {Q : QuorumSystem Node} {h : History Node Entry}

omit [Stamped Entry] in
theorem Kept.raise (kept : Kept h) {node : Node} {term : Nat} (later : h.term node < term) :
    Kept (h.raise node term) where
  log := by
    intro stored found n bound held
    apply kept.log bound
    intro middle above below elected
    apply held middle above _ elected
    by_cases same : found = node
    · subst same
      simp only [History.raise, Function.update_self]
      omega
    · simpa only [History.raise, Function.update_of_ne same] using below
  vote := kept.vote

omit [Stamped Entry] in
theorem Kept.castVote (kept : Kept h) {voter candidate : Node}
    (open_ : h.leader (h.term voter) = none) : Kept (h.castVote voter candidate) where
  log := kept.log
  vote := by
    intro stored found n later candidate' log bound above voted held
    by_cases here : later = h.term voter ∧ found = voter
    · rcases here with ⟨rfl, rfl⟩
      simp only [History.castVote, record_self, Option.some.injEq, Prod.mk.injEq] at voted
      rw [← voted.2]
      -- the voter's own term has no leader, so the bound may be strict
      apply kept.log bound
      intro middle first last elected
      apply held middle first _ elected
      apply Nat.lt_of_le_of_ne last
      intro equal
      rw [equal] at elected
      exact elected open_
    · simp only [History.castVote, record_of_not _ _ here] at voted
      exact kept.vote bound above voted held

theorem Kept.elect (kept : Kept h) (valid : Valid Q h) {node : Node}
    (open_ : h.leader (h.term node) = none) : Kept (h.elect node) := by
  have unacked : ∀ found, h.ack (h.term node) found = 0 := by
    intro found
    have bound := valid.ackLength (h.term node) found
    rw [valid.noLeader open_, List.length_nil] at bound
    omega
  have sameLog :
      ∀ {term}, term ≠ h.term node → (h.elect node).leaderLog term = h.leaderLog term :=
    fun different => Function.update_of_ne different _ _
  have sameLeader : ∀ {term}, h.leader term ≠ none →
      term ≠ h.term node ∧ (h.elect node).leader term ≠ none := by
    intro term elected
    have different : term ≠ h.term node := by
      intro equal
      rw [equal] at elected
      exact elected open_
    refine ⟨different, ?_⟩
    simp only [History.elect, Function.update_of_ne different]
    exact elected
  have sameAck : ∀ {term found n}, ¬ (term = h.term node ∧ found = node) →
      n ≤ (h.elect node).ack term found → n ≤ h.ack term found := by
    intro term found n different bound
    simpa only [History.elect, record_of_not _ _ different] using bound
  refine { log := ?_, vote := ?_ }
  · intro stored found n bound held
    by_cases here : stored = h.term node ∧ found = node
    · rcases here with ⟨rfl, rfl⟩
      simp only [History.elect, Function.update_self]
      exact List.take_prefix _ _
    · by_cases term : stored = h.term node
      · subst term
        exact take_prefix_of_not_acked (sameAck here bound) (unacked found) _ _
      · rw [sameLog term] at held ⊢
        apply kept.log (sameAck here bound)
        intro middle above below elected
        have both := sameLeader elected
        rw [← sameLog both.1]
        exact held middle above below both.2
  · intro stored found n later candidate log bound above voted held
    by_cases here : stored = h.term node ∧ found = node
    · rcases here with ⟨rfl, rfl⟩
      exact absurd (valid.voteTerm voted) (Nat.not_le_of_lt above)
    · by_cases term : stored = h.term node
      · subst term
        exact take_prefix_of_not_acked (sameAck here bound) (unacked found) _ _
      · rw [sameLog term] at held ⊢
        apply kept.vote (sameAck here bound) above voted
        intro middle first last elected
        have both := sameLeader elected
        rw [← sameLog both.1]
        exact held middle first last both.2

theorem Kept.append (kept : Kept h) (valid : Valid Q h) {node : Node} {entry : Entry}
    (leads : h.leader (h.term node) = some node)
    (stamp : Stamped.term entry = h.term node) : Kept (h.append node entry) := by
  have own := valid.own leads
  have grow : ∀ term, h.leaderLog term <+: (h.append node entry).leaderLog term := by
    intro term
    by_cases here : term = h.term node
    · subst here
      simp only [History.append, Function.update_self, own]
      exact List.prefix_append _ _
    · simp only [History.append, Function.update_of_ne here, List.prefix_rfl]
  have sameAck : ∀ {term found n}, ¬ (term = h.term node ∧ found = node) →
      n ≤ (h.append node entry).ack term found → n ≤ h.ack term found := by
    intro term found n different bound
    simpa only [History.append, record_of_not _ _ different] using bound
  have sameTake : ∀ {term found n}, n ≤ h.ack term found →
      ((h.append node entry).leaderLog term).take n = (h.leaderLog term).take n := by
    intro term found n bound
    exact take_eq_take_of_le (grow term) (bound.trans (valid.ackLength term found))
  -- the new entry is younger than everything an earlier leader created
  have shrink : ∀ {term n middle}, term < middle →
      (h.leaderLog term).take n <+: (h.append node entry).leaderLog middle →
        (h.leaderLog term).take n <+: h.leaderLog middle := by
    intro term n middle above isPrefix
    by_cases here : middle = h.term node
    · subst here
      simp only [History.append, Function.update_self, own] at isPrefix
      rcases prefix_concat_cases isPrefix with old | new
      · exact old
      · have early := valid.leaderStamp (List.mem_of_mem_take new)
        omega
    · simpa only [History.append, Function.update_of_ne here] using isPrefix
  refine { log := ?_, vote := ?_ }
  · intro stored found n bound held
    by_cases here : stored = h.term node ∧ found = node
    · rcases here with ⟨rfl, rfl⟩
      simp only [History.append, Function.update_self]
      exact List.take_prefix _ _
    · have oldBound := sameAck here bound
      rw [sameTake oldBound] at held ⊢
      have inOld : (h.leaderLog stored).take n <+: h.log found := by
        apply kept.log oldBound
        intro middle above below elected
        exact shrink above (held middle above below elected)
      by_cases same : found = node
      · subst same
        simp only [History.append, Function.update_self]
        exact inOld.trans (List.prefix_append _ _)
      · simpa only [History.append, Function.update_of_ne same] using inOld
  · intro stored found n later candidate log bound above voted held
    by_cases here : stored = h.term node ∧ found = node
    · rcases here with ⟨rfl, rfl⟩
      exact absurd (valid.voteTerm voted) (Nat.not_le_of_lt above)
    · have oldBound := sameAck here bound
      rw [sameTake oldBound] at held ⊢
      apply kept.vote oldBound above voted
      intro middle first last elected
      exact shrink first (held middle first last elected)

theorem Kept.accept (kept : Kept h) (valid : Valid Q h) {node leader : Node} {log : List Entry}
    (leads : h.leader (h.term node) = some leader)
    (part : log <+: h.leaderLog (h.term node))
    (based : ∀ start, h.vote (h.term node) leader = some (leader, start) → start <+: log)
    (keeping : Keeping (h.log node) log) : Kept (h.accept node log) := by
  have sameAck : ∀ {term found n}, ¬ (term = h.term node ∧ found = node) →
      n ≤ (h.accept node log).ack term found → n ≤ h.ack term found := by
    intro term found n different bound
    simpa only [History.accept, record_of_not _ _ different] using bound
  refine { log := ?_, vote := ?_ }
  · intro stored found n bound held
    by_cases same : found = node
    · subst same
      simp only [History.accept, Function.update_self]
      by_cases here : stored = h.term found
      · subst here
        rcases Nat.le_total n log.length with short | long
        · rw [take_eq_take_of_le part short]
          exact List.take_prefix _ _
        · -- an older state of the leader's log than the one already stored
          have oldBound : n ≤ h.ack (h.term found) found ∨ n = log.length := by
            simp only [History.accept, record_self] at bound
            omega
          rcases oldBound with oldBound | equal
          · have inOld : (h.leaderLog (h.term found)).take n <+: h.log found := by
              apply kept.log oldBound
              intro middle above below
              exact absurd below (Nat.not_le_of_lt above)
            have inTake : log <+: (h.leaderLog (h.term found)).take n :=
              List.prefix_take_iff.mpr ⟨part, long⟩
            have equal : log = h.log found := by
              by_contra different
              exact keeping ⟨inTake.trans inOld, different⟩
            rw [equal]
            exact inOld
          · rw [equal, take_eq_take_of_le part (Nat.le_refl _)]
            exact List.take_prefix _ _
      · have oldBound : n ≤ h.ack stored found := sameAck (fun both => here both.1) bound
        by_cases zero : h.ack stored found = 0
        · exact take_prefix_of_not_acked oldBound zero _ _
        · have below : stored < h.term found :=
            Nat.lt_of_le_of_ne (valid.ackTerm zero) here
          have inLeader : (h.leaderLog stored).take n <+: h.leaderLog (h.term found) := by
            apply held (h.term found) below (Nat.le_refl _)
            show h.leader (h.term found) ≠ none
            rw [leads]
            exact Option.some_ne_none leader
          rcases valid.start leads with ⟨start, rest, voted, _⟩
          apply List.IsPrefix.trans _ (based start voted)
          apply valid.prefix_start leads voted inLeader
          intro entry member
          exact Nat.lt_of_le_of_lt (valid.leaderStamp (List.mem_of_mem_take member)) below
    · simp only [History.accept, Function.update_of_ne same]
      exact kept.log (sameAck (fun both => same both.2) bound) held
  · intro stored found n later candidate voteLog bound above voted held
    by_cases here : stored = h.term node ∧ found = node
    · rcases here with ⟨rfl, rfl⟩
      exact absurd (valid.voteTerm voted) (Nat.not_le_of_lt above)
    · exact kept.vote (sameAck here bound) above voted held

end Preservation

/-- Where only keeping replacements are allowed, every step keeps what is stored. -/
theorem Kept.step [DecidableEq Node] {Q : QuorumSystem Node}
    {Allowed : List Entry → List Entry → Prop}
    (keeping : ∀ before after, Allowed before after → Keeping before after)
    {before after : History Node Entry} {actor : Node} (kept : Kept before)
    (valid : Valid Q before) (step : Step Q Allowed before actor after) : Kept after := by
  cases step with
  | raise term later => exact kept.raise later
  | vote candidate open_ fresh eligible => exact kept.castVote open_
  | elect voters open_ own quorum votes => exact kept.elect valid open_
  | append entry leads stamp => exact kept.append valid leads stamp
  | accept leader log leads other part based allowed =>
      exact kept.accept valid leads part based (keeping _ _ allowed)

theorem Kept.reaches [DecidableEq Node] {Q : QuorumSystem Node}
    {Allowed : List Entry → List Entry → Prop}
    (keeping : ∀ before after, Allowed before after → Keeping before after)
    {before after : History Node Entry} (kept : Kept before) (valid : Valid Q before)
    (run : (system Q Allowed).Reaches before after) : Kept after := by
  have both := run.preserve (fun h => Valid Q h ∧ Kept h)
    (fun _ _ _ old step => ⟨old.1.step step, Kept.step keeping old.2 old.1 step⟩)
  exact (both ⟨valid, kept⟩).2

/-! ## Completeness -/

/-- A quorum stored the first `n` entries of the leader's log during the term, and the
last of them was created in the term. -/
def Chosen (Q : QuorumSystem Node) (h : History Node Entry) (term n : Nat) : Prop :=
  (∃ index entry, n = index + 1 ∧ (h.leaderLog term)[index]? = some entry ∧
    Stamped.term entry = term) ∧
    ∃ nodes, Q.quorum nodes ∧ ∀ node, node ∈ nodes → n ≤ h.ack term node

/-- An up-to-date candidate holds what its voter holds, provided the leaders in between
do.  `known` ends with an entry of term `low`. -/
theorem upToDate_carries {Q : QuorumSystem Node} {h : History Node Entry} (valid : Valid Q h)
    {low high : Nat} {known candidate voter : List Entry} {last : Entry}
    (lastMem : last ∈ known) (lastStamp : Stamped.term last = low)
    (part : known <+: h.leaderLog low) (candidateCoherent : Coherent h candidate)
    (voterCoherent : Coherent h voter) (upToDate : UpToDate candidate voter)
    (held : known <+: voter)
    (stamped : ∀ entry, entry ∈ candidate → Stamped.term entry < high)
    (between : ∀ middle, low < middle → middle < high → h.leader middle ≠ none →
      known <+: h.leaderLog middle) : known <+: candidate := by
  have inVoter : last ∈ voter := held.subset lastMem
  have voterNonempty : voter ≠ [] := List.ne_nil_of_mem inVoter
  have lowLe : low ≤ lastTerm voter := by
    rw [← lastStamp]
    exact valid.leaderStamp ((voterCoherent.prefix_last voterNonempty).subset inVoter)
  have nonempty : candidate ≠ [] := by
    rintro rfl
    rcases upToDate with less | ⟨_, length⟩
    · exact absurd less (Nat.not_lt_zero _)
    · exact voterNonempty (List.length_eq_zero_iff.mp (Nat.le_zero.mp length))
  rcases lastTerm_mem nonempty with ⟨final, finalMem, finalStamp⟩
  have candidatePrefix := candidateCoherent.prefix_last nonempty
  have order : lastTerm voter ≤ lastTerm candidate := by
    rcases upToDate with less | ⟨equal, _⟩
    · exact Nat.le_of_lt less
    · exact Nat.le_of_eq equal.symm
  rcases Nat.lt_or_ge low (lastTerm candidate) with later | notLater
  · -- the candidate's last entry belongs to a leader in between
    have bound : lastTerm candidate < high := finalStamp ▸ stamped final finalMem
    have elected : h.leader (lastTerm candidate) ≠ none :=
      finalStamp ▸ valid.exists_leader candidateCoherent finalMem
    have inLeader := between _ later bound elected
    rcases Nat.le_total known.length candidate.length with short | long
    · exact List.prefix_of_prefix_length_le inLeader candidatePrefix short
    · have reverse := List.prefix_of_prefix_length_le candidatePrefix inLeader long
      have early := valid.leaderStamp (part.subset (reverse.subset finalMem))
      omega
  · -- both logs end in the term of `known`, so they are states of one leader's log
    have candidateTerm : lastTerm candidate = low := by omega
    have voterTerm : lastTerm voter = low := by omega
    rcases upToDate with less | ⟨_, length⟩
    · omega
    · rw [candidateTerm] at candidatePrefix
      exact List.prefix_of_prefix_length_le part candidatePrefix (held.length_le.trans length)

/-- Leader completeness: a chosen prefix is in the log of every later leader. -/
theorem Chosen.held {Q : QuorumSystem Node} {h : History Node Entry} (valid : Valid Q h)
    (kept : Kept h) {term n : Nat} (chosen : Chosen Q h term n) :
    ∀ later leader, term < later → h.leader later = some leader →
      (h.leaderLog term).take n <+: h.leaderLog later := by
  rcases chosen with ⟨⟨index, last, rfl, found, lastStamp⟩, nodes, stored, acked⟩
  intro later
  induction later using Nat.strongRecOn with
  | ind later inductionHypothesis =>
      intro leader above leads
      have between : ∀ middle, term < middle → middle < later → h.leader middle ≠ none →
          (h.leaderLog term).take (index + 1) <+: h.leaderLog middle := by
        intro middle first second elected
        rcases Option.ne_none_iff_exists'.mp elected with ⟨other, otherLeads⟩
        exact inductionHypothesis middle second other first otherLeads
      rcases valid.start leads with ⟨start, rest, own, equal, _⟩
      rcases valid.quorum leads with ⟨voters, elected, votes⟩
      rcases Q.intersect nodes voters stored elected with ⟨node, inStored, inVoters⟩
      rcases votes node inVoters with ⟨voteLog, voted⟩
      have heldByVoter := kept.vote (acked node inStored) above voted between
      rcases valid.voteSelf voted with ⟨own', ownVote, upToDate⟩
      have same : own' = start := by
        have pair := ownVote.symm.trans own
        simpa only [Option.some.injEq, Prod.mk.injEq, true_and] using pair
      subst same
      have lastMem : last ∈ (h.leaderLog term).take (index + 1) := by
        apply List.mem_of_getElem?
        rw [List.getElem?_take_of_lt (Nat.lt_succ_self index)]
        exact found
      have inStart := upToDate_carries valid lastMem lastStamp (List.take_prefix _ _)
        (valid.coherentVote own) (valid.coherentVote voted) upToDate heldByVoter
        (valid.voteStamp own) between
      rw [equal]
      exact inStart.trans (List.prefix_append _ _)

/-! ## Decided prefixes -/

/-- A list is decided by a term when it is part of a prefix chosen in it. -/
def Decided (Q : QuorumSystem Node) (h : History Node Entry) (term : Nat)
    (known : List Entry) : Prop :=
  ∃ n, Chosen Q h term n ∧ known <+: (h.leaderLog term).take n

theorem Chosen.mono {Q : QuorumSystem Node} {h h' : History Node Entry}
    (grow : Extends h h') {term n : Nat} (chosen : Chosen Q h term n) : Chosen Q h' term n := by
  rcases chosen with ⟨⟨index, entry, equal, found, stamp⟩, nodes, quorum, acked⟩
  refine ⟨⟨index, entry, equal, ?_, stamp⟩, nodes, quorum, fun node member =>
    (acked node member).trans (grow.ack term node)⟩
  rcases grow.leaderLog term with ⟨rest, whole⟩
  rw [← whole, List.getElem?_append_left (List.getElem?_eq_some_iff.mp found).1]
  exact found

theorem Decided.mono {Q : QuorumSystem Node} {h h' : History Node Entry} (grow : Extends h h')
    {term : Nat} {known : List Entry} (decided : Decided Q h term known) :
    Decided Q h' term known := by
  rcases decided with ⟨n, chosen, part⟩
  exact ⟨n, chosen.mono grow, part.trans (List.IsPrefix.take (grow.leaderLog term) n)⟩

/-- Two decided lists never disagree. -/
theorem Decided.comparable {Q : QuorumSystem Node} {h : History Node Entry}
    (valid : Valid Q h) (kept : Kept h) {leftTerm rightTerm : Nat} {left right : List Entry}
    (leftDecided : Decided Q h leftTerm left) (rightDecided : Decided Q h rightTerm right) :
    left <+: right ∨ right <+: left := by
  have common : ∀ {low high : Nat} {first second : List Entry}, low ≤ high →
      Decided Q h low first → Decided Q h high second →
      first <+: second ∨ second <+: first := by
    rintro low high first second order ⟨n, chosen, firstPart⟩ ⟨m, later, secondPart⟩
    have secondPrefix := secondPart.trans (List.take_prefix _ _)
    have firstPrefix : first <+: h.leaderLog high := by
      rcases Nat.lt_or_eq_of_le order with less | equal
      · rcases later.1 with ⟨index, entry, _, found, stamp⟩
        have elected := valid.exists_leader (valid.coherentLeader high)
          (List.mem_of_getElem? found)
        rw [stamp] at elected
        rcases Option.ne_none_iff_exists'.mp elected with ⟨leader, leads⟩
        exact firstPart.trans (chosen.held valid kept high leader less leads)
      · subst equal
        exact firstPart.trans (List.take_prefix _ _)
    exact List.prefix_or_prefix_of_prefix firstPrefix secondPrefix
  rcases Nat.le_total leftTerm rightTerm with order | order
  · exact common order leftDecided rightDecided
  · exact (common order rightDecided leftDecided).symm

/-- A node that takes over its leader's log keeps the decided part of its own. -/
theorem Decided.accepted {Q : QuorumSystem Node} {h : History Node Entry}
    (valid : Valid Q h) (kept : Kept h) {node leader : Node} {term : Nat}
    {known log : List Entry} (decided : Decided Q h term known) (early : term ≤ h.term node)
    (inLog : known <+: h.log node) (leads : h.leader (h.term node) = some leader)
    (part : log <+: h.leaderLog (h.term node))
    (based : ∀ start, h.vote (h.term node) leader = some (leader, start) → start <+: log)
    (keeping : Keeping (h.log node) log) : known <+: log := by
  rcases decided with ⟨n, chosen, knownPart⟩
  rcases Nat.lt_or_eq_of_le early with less | equal
  · rcases valid.start leads with ⟨start, rest, voted, _⟩
    have inLeader := knownPart.trans (chosen.held valid kept _ leader less leads)
    apply List.IsPrefix.trans _ (based start voted)
    apply valid.prefix_start leads voted inLeader
    intro entry member
    exact Nat.lt_of_le_of_lt
      (valid.leaderStamp (List.mem_of_mem_take (knownPart.subset member))) less
  · subst equal
    have inLeader := knownPart.trans (List.take_prefix _ _)
    rcases Nat.le_total known.length log.length with short | long
    · exact List.prefix_of_prefix_length_le inLeader part short
    · have inKnown := List.prefix_of_prefix_length_le part inLeader long
      have equal : log = h.log node := by
        by_contra different
        exact keeping ⟨inKnown.trans inLog, different⟩
      rw [equal]
      exact inLog

end Replication
end Library
end Sigil
