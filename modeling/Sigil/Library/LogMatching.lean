import Sigil.Library.Pointwise
import Sigil.Library.Replication

namespace Sigil
namespace Library
namespace Replication

/-!
# Coherent histories and log matching

A log is coherent when each of its entries stands at the end of a prefix of the log
of that entry's leader.  Two coherent logs with an entry of one term at one index
therefore agree up to that index, whatever happened between their leaders.

`Valid` collects what every history built from the steps satisfies.  It is proved
for arbitrary allowed replacements; nothing here depends on how a follower's log
is cut.
-/

open History

universe u v

variable {Node : Type u} {Entry : Type v} [Stamped Entry]

/-! ## Coherent logs -/

/-- Every entry closes a prefix of the log of its term's leader. -/
def Coherent (h : History Node Entry) (log : List Entry) : Prop :=
  ∀ index entry, log[index]? = some entry →
    log.take (index + 1) <+: h.leaderLog (Stamped.term entry)

theorem Coherent.nil (h : History Node Entry) : Coherent h [] := by
  intro index entry found
  simp only [List.getElem?_nil, reduceCtorEq] at found

theorem Coherent.part {h : History Node Entry} {short long : List Entry}
    (coherent : Coherent h long) (isPrefix : short <+: long) : Coherent h short := by
  intro index entry found
  have bound : index < short.length := (List.getElem?_eq_some_iff.mp found).1
  have same : long.take (index + 1) = short.take (index + 1) :=
    take_eq_take_of_le isPrefix (Nat.succ_le_of_lt bound)
  rw [← same]
  apply coherent index entry
  rcases isPrefix with ⟨rest, rfl⟩
  rw [List.getElem?_append_left bound]
  exact found

theorem Coherent.mono {h h' : History Node Entry}
    (grow : ∀ term, h.leaderLog term <+: h'.leaderLog term) {log : List Entry}
    (coherent : Coherent h log) : Coherent h' log :=
  fun index entry found => (coherent index entry found).trans (grow _)

/-- Appending an entry keeps a log coherent when the result is the leader's log. -/
theorem Coherent.concat {h : History Node Entry} {log : List Entry} {entry : Entry}
    (coherent : Coherent h log)
    (leads : h.leaderLog (Stamped.term entry) = log ++ [entry]) :
    Coherent h (log ++ [entry]) := by
  intro index found present
  rcases Pointwise.getElem?_concat_cases present with ⟨inside, old⟩ | ⟨rfl, same⟩
  · rw [List.take_append_of_le_length (Nat.succ_le_of_lt inside)]
    exact coherent index found old
  · rw [same, leads]
    exact List.take_prefix _ _

/-- Log matching: an entry of one term at one index fixes everything before it. -/
theorem Coherent.matching {h : History Node Entry} {left right : List Entry}
    (leftCoherent : Coherent h left) (rightCoherent : Coherent h right) {index : Nat}
    {first second : Entry} (leftFound : left[index]? = some first)
    (rightFound : right[index]? = some second)
    (sameTerm : Stamped.term first = Stamped.term second) :
    left.take (index + 1) = right.take (index + 1) := by
  have leftPrefix := leftCoherent index first leftFound
  have rightPrefix := rightCoherent index second rightFound
  rw [← sameTerm] at rightPrefix
  have leftBound := (List.getElem?_eq_some_iff.mp leftFound).1
  have rightBound := (List.getElem?_eq_some_iff.mp rightFound).1
  have lengths : (left.take (index + 1)).length = (right.take (index + 1)).length := by
    simp only [List.length_take]
    omega
  exact (List.prefix_of_prefix_length_le leftPrefix rightPrefix
    (Nat.le_of_eq lengths)).eq_of_length lengths

/-- A nonempty coherent log is a prefix of the log of its last entry's leader. -/
theorem Coherent.prefix_last {h : History Node Entry} {log : List Entry}
    (coherent : Coherent h log) (nonempty : log ≠ []) :
    log <+: h.leaderLog (lastTerm log) := by
  have found : log[log.length - 1]? = some (log.getLast nonempty) := by
    rw [← List.getLast?_eq_getElem?, List.getLast?_eq_some_getLast nonempty]
  have atEnd := coherent _ _ found
  have positive : 0 < log.length := List.length_pos_iff.mpr nonempty
  rw [Nat.sub_add_cancel positive, List.take_length] at atEnd
  rw [lastTerm, List.getLast?_eq_some_getLast nonempty]
  exact atEnd

theorem lastTerm_mem {log : List Entry} (nonempty : log ≠ []) :
    ∃ entry, entry ∈ log ∧ Stamped.term entry = lastTerm log := by
  refine ⟨log.getLast nonempty, List.getLast_mem nonempty, ?_⟩
  rw [lastTerm, List.getLast?_eq_some_getLast nonempty]
  rfl

/-! ## The invariant of histories -/

/-- What holds of every history built from the steps. -/
structure Valid (Q : QuorumSystem Node) (h : History Node Entry) : Prop where
  voteTerm : ∀ {term voter vote}, h.vote term voter = some vote → term ≤ h.term voter
  voteSelf : ∀ {term voter candidate log}, h.vote term voter = some (candidate, log) →
    ∃ own, h.vote term candidate = some (candidate, own) ∧ UpToDate own log
  voteStamp : ∀ {term voter candidate log}, h.vote term voter = some (candidate, log) →
    ∀ entry, entry ∈ log → Stamped.term entry < term
  logStamp : ∀ {node entry}, entry ∈ h.log node → Stamped.term entry ≤ h.term node
  quorum : ∀ {term leader}, h.leader term = some leader → ∃ voters, Q.quorum voters ∧
    ∀ voter, voter ∈ voters → ∃ log, h.vote term voter = some (leader, log)
  start : ∀ {term leader}, h.leader term = some leader → ∃ start rest,
    h.vote term leader = some (leader, start) ∧ h.leaderLog term = start ++ rest ∧
      ∀ entry, entry ∈ rest → Stamped.term entry = term
  noLeader : ∀ {term}, h.leader term = none → h.leaderLog term = []
  own : ∀ {node}, h.leader (h.term node) = some node → h.log node = h.leaderLog (h.term node)
  coherentLog : ∀ node, Coherent h (h.log node)
  coherentVote : ∀ {term voter candidate log}, h.vote term voter = some (candidate, log) →
    Coherent h log
  coherentLeader : ∀ term, Coherent h (h.leaderLog term)
  ackLength : ∀ term node, h.ack term node ≤ (h.leaderLog term).length
  ackTerm : ∀ {term node}, h.ack term node ≠ 0 → term ≤ h.term node
  ackOwn : ∀ {term leader}, h.leader term = some leader →
    h.ack term leader = (h.leaderLog term).length

namespace Valid

variable {Q : QuorumSystem Node} {h : History Node Entry}

/-- A leader has reached its term. -/
theorem leaderTerm (valid : Valid Q h) {term : Nat} {leader : Node}
    (leads : h.leader term = some leader) : term ≤ h.term leader := by
  rcases valid.start leads with ⟨start, rest, voted, _⟩
  exact valid.voteTerm voted

/-- The entries of a leader's log were created in its term or earlier. -/
theorem leaderStamp (valid : Valid Q h) {term : Nat} {entry : Entry}
    (member : entry ∈ h.leaderLog term) : Stamped.term entry ≤ term := by
  cases leads : h.leader term with
  | none =>
      rw [valid.noLeader leads] at member
      exact absurd member List.not_mem_nil
  | some leader =>
      rcases valid.start leads with ⟨start, rest, voted, equal, stamped⟩
      rw [equal] at member
      rcases List.mem_append.mp member with old | new
      · exact Nat.le_of_lt (valid.voteStamp voted entry old)
      · exact Nat.le_of_eq (stamped entry new)

/-- The term of an entry in a coherent log has a leader. -/
theorem exists_leader (valid : Valid Q h) {log : List Entry} (coherent : Coherent h log)
    {entry : Entry} (member : entry ∈ log) : h.leader (Stamped.term entry) ≠ none := by
  intro noLeader
  rcases List.mem_iff_getElem?.mp member with ⟨index, found⟩
  have isPrefix := coherent index entry found
  rw [valid.noLeader noLeader, List.prefix_nil, List.take_eq_nil_iff] at isPrefix
  rcases isPrefix with impossible | empty
  · exact Nat.succ_ne_zero index impossible
  · rw [empty] at member
    exact absurd member List.not_mem_nil

/-- Whatever was created before a term and is in its leader's log was there when the
leader was elected. -/
theorem prefix_start (valid : Valid Q h) {term : Nat} {leader : Node} {start known : List Entry}
    (leads : h.leader term = some leader) (voted : h.vote term leader = some (leader, start))
    (part : known <+: h.leaderLog term)
    (earlier : ∀ entry, entry ∈ known → Stamped.term entry < term) : known <+: start := by
  rcases valid.start leads with ⟨start', rest, voted', equal, stamped⟩
  have same : start' = start := by
    have pair := voted'.symm.trans voted
    simpa only [Option.some.injEq, Prod.mk.injEq, true_and] using pair
  subst same
  rw [equal] at part
  exact prefix_of_append_of_forall part stamped
    (fun entry member equalTerm => absurd equalTerm (Nat.ne_of_lt (earlier entry member)))

end Valid

/-! ## Every step keeps the invariant -/

theorem valid_initial (Q : QuorumSystem Node) : Valid Q (initial : History Node Entry) where
  voteTerm := by intro term voter vote voted; exact absurd voted (by simp [initial])
  voteSelf := by intro term voter candidate log voted; exact absurd voted (by simp [initial])
  voteStamp := by intro term voter candidate log voted; exact absurd voted (by simp [initial])
  logStamp := by intro node entry member; exact absurd member List.not_mem_nil
  quorum := by intro term leader leads; exact absurd leads (by simp [initial])
  start := by intro term leader leads; exact absurd leads (by simp [initial])
  noLeader := fun _ => rfl
  own := fun _ => rfl
  coherentLog := fun _ => Coherent.nil _
  coherentVote := by intro term voter candidate log voted; exact absurd voted (by simp [initial])
  coherentLeader := fun _ => Coherent.nil _
  ackLength := fun _ _ => Nat.le_refl _
  ackTerm := fun acked => absurd rfl acked
  ackOwn := by intro term leader leads; exact absurd leads (by simp [initial])

section Preservation

variable [DecidableEq Node] {Q : QuorumSystem Node} {h : History Node Entry}

/-- Entering a later term changes nothing but the term. -/
theorem Valid.raise (valid : Valid Q h) {node : Node} {term : Nat}
    (later : h.term node < term) :
    Valid Q (h.raise node term) := by
  have grow : ∀ other, h.term other ≤ Function.update h.term node term other := by
    intro other
    by_cases same : other = node
    · subst same
      rw [Function.update_self]
      exact Nat.le_of_lt later
    · rw [Function.update_of_ne same]
  refine
    { voteTerm := fun voted => (valid.voteTerm voted).trans (grow _)
      voteSelf := valid.voteSelf
      voteStamp := valid.voteStamp
      logStamp := fun member => (valid.logStamp member).trans (grow _)
      quorum := valid.quorum
      start := valid.start
      noLeader := valid.noLeader
      own := ?_
      coherentLog := valid.coherentLog
      coherentVote := valid.coherentVote
      coherentLeader := valid.coherentLeader
      ackLength := valid.ackLength
      ackTerm := fun acked => (valid.ackTerm acked).trans (grow _)
      ackOwn := valid.ackOwn }
  intro leader leads
  by_cases same : leader = node
  · subst same
    simp only [History.raise, Function.update_self] at leads
    exact absurd (valid.leaderTerm leads) (Nat.not_le_of_lt later)
  · simp only [History.raise, Function.update_of_ne same] at leads ⊢
    exact valid.own leads

/-- A vote in a term without a leader. -/
theorem Valid.castVote (valid : Valid Q h) {voter candidate : Node}
    (open_ : h.leader (h.term voter) = none) (fresh : h.vote (h.term voter) voter = none)
    (eligible : candidate = voter ∨ ∃ log, h.vote (h.term voter) candidate =
      some (candidate, log) ∧ UpToDate log (h.log voter)) :
    Valid Q (h.castVote voter candidate) := by
  have kept : ∀ {term node vote}, h.vote term node = some vote →
      record h.vote (h.term voter) voter (some (candidate, h.log voter)) term node =
        some vote := by
    intro term node vote voted
    rw [record_of_not]
    · exact voted
    · rintro ⟨rfl, rfl⟩
      rw [fresh] at voted
      exact absurd voted (by simp)
  have cases_ : ∀ {term node candidate' log},
      record h.vote (h.term voter) voter (some (candidate, h.log voter)) term node =
        some (candidate', log) →
      (term = h.term voter ∧ node = voter ∧ candidate' = candidate ∧ log = h.log voter) ∨
        h.vote term node = some (candidate', log) := by
    intro term node candidate' log voted
    by_cases here : term = h.term voter ∧ node = voter
    · rcases here with ⟨rfl, rfl⟩
      rw [record_self, Option.some.injEq, Prod.mk.injEq] at voted
      exact Or.inl ⟨rfl, rfl, voted.1.symm, voted.2.symm⟩
    · rw [record_of_not _ _ here] at voted
      exact Or.inr voted
  refine
    { voteTerm := ?_
      voteSelf := ?_
      voteStamp := ?_
      logStamp := valid.logStamp
      quorum := ?_
      start := ?_
      noLeader := valid.noLeader
      own := valid.own
      coherentLog := valid.coherentLog
      coherentVote := ?_
      coherentLeader := valid.coherentLeader
      ackLength := valid.ackLength
      ackTerm := valid.ackTerm
      ackOwn := valid.ackOwn }
  · rintro term node ⟨candidate', log⟩ voted
    rcases cases_ voted with ⟨rfl, rfl, _, _⟩ | old
    · exact Nat.le_refl _
    · exact valid.voteTerm old
  · intro term node candidate' log voted
    rcases cases_ voted with ⟨rfl, rfl, rfl, rfl⟩ | old
    · rcases eligible with rfl | ⟨own, ownVote, upToDate⟩
      · exact ⟨_, record_self _ _ _ _, UpToDate.refl _⟩
      · exact ⟨own, kept ownVote, upToDate⟩
    · rcases valid.voteSelf old with ⟨own, ownVote, upToDate⟩
      exact ⟨own, kept ownVote, upToDate⟩
  · intro term node candidate' log voted entry member
    rcases cases_ voted with ⟨rfl, rfl, rfl, rfl⟩ | old
    · apply Nat.lt_of_le_of_ne (valid.logStamp member)
      intro equal
      apply valid.exists_leader (valid.coherentLog node) member
      rw [equal]
      exact open_
    · exact valid.voteStamp old entry member
  · intro term leader leads
    rcases valid.quorum leads with ⟨voters, large, votes⟩
    exact ⟨voters, large, fun node member => (votes node member).imp fun _ => kept⟩
  · intro term leader leads
    rcases valid.start leads with ⟨start, rest, voted, equal⟩
    exact ⟨start, rest, kept voted, equal⟩
  · intro term node candidate' log voted
    rcases cases_ voted with ⟨rfl, rfl, rfl, rfl⟩ | old
    · exact valid.coherentLog node
    · exact valid.coherentVote old

/-- An election in a term without a leader. -/
theorem Valid.elect (valid : Valid Q h) {candidate : Node} {voters : Finset Node}
    (open_ : h.leader (h.term candidate) = none)
    (own : h.vote (h.term candidate) candidate = some (candidate, h.log candidate))
    (quorum : Q.quorum voters)
    (votes : ∀ voter, voter ∈ voters →
      ∃ log, h.vote (h.term candidate) voter = some (candidate, log)) :
    Valid Q (h.elect candidate) := by
  have grow : ∀ term, h.leaderLog term <+: (h.elect candidate).leaderLog term := by
    intro term
    by_cases same : term = h.term candidate
    · subst same
      rw [valid.noLeader open_]
      exact List.nil_prefix
    · rw [leaderLog_elect_of_ne same]
  have coherent : ∀ {log}, Coherent h log → Coherent (h.elect candidate) log :=
    fun old => Coherent.mono grow old
  refine
    { voteTerm := valid.voteTerm
      voteSelf := valid.voteSelf
      voteStamp := valid.voteStamp
      logStamp := valid.logStamp
      quorum := ?_
      start := ?_
      noLeader := ?_
      own := ?_
      coherentLog := fun node => coherent (valid.coherentLog node)
      coherentVote := fun voted => coherent (valid.coherentVote voted)
      coherentLeader := ?_
      ackLength := ?_
      ackTerm := ?_
      ackOwn := ?_ }
  · intro term leader leads
    rcases leader_elect_cases leads with ⟨rfl, rfl⟩ | ⟨-, old⟩
    · exact ⟨voters, quorum, votes⟩
    · exact valid.quorum old
  · intro term leader leads
    rcases leader_elect_cases leads with ⟨rfl, rfl⟩ | ⟨different, old⟩
    · refine ⟨h.log leader, [], own, ?_, ?_⟩
      · rw [leaderLog_elect_self, List.append_nil]
      · intro entry member
        exact absurd member List.not_mem_nil
    · rw [leaderLog_elect_of_ne different]
      exact valid.start old
  · intro term leads
    by_cases same : term = h.term candidate
    · subst same
      simp only [History.elect, Function.update_self, reduceCtorEq] at leads
    · rw [leaderLog_elect_of_ne same]
      simp only [History.elect, Function.update_of_ne same] at leads
      exact valid.noLeader leads
  · intro node leads
    rcases leader_elect_cases leads with ⟨-, rfl⟩ | ⟨different, old⟩
    · exact (leaderLog_elect_self h node).symm
    · exact (valid.own old).trans (leaderLog_elect_of_ne different).symm
  · intro term
    by_cases same : term = h.term candidate
    · subst same
      rw [leaderLog_elect_self]
      exact coherent (valid.coherentLog candidate)
    · rw [leaderLog_elect_of_ne same]
      exact coherent (valid.coherentLeader term)
  · intro term node
    by_cases here : term = h.term candidate ∧ node = candidate
    · rcases here with ⟨rfl, rfl⟩
      simp only [History.elect, record_self, Function.update_self, Nat.le_refl]
    · simp only [History.elect, record_of_not _ _ here]
      exact (valid.ackLength term node).trans (grow term).length_le
  · intro term node acked
    by_cases here : term = h.term candidate ∧ node = candidate
    · rcases here with ⟨rfl, rfl⟩
      exact Nat.le_refl _
    · simp only [History.elect, record_of_not _ _ here] at acked
      exact valid.ackTerm acked
  · intro term leader leads
    rcases leader_elect_cases leads with ⟨rfl, rfl⟩ | ⟨different, old⟩
    · rw [leaderLog_elect_self]
      exact record_self _ _ _ _
    · rw [leaderLog_elect_of_ne different]
      exact (record_of_not _ _ fun both => different both.1).trans (valid.ackOwn old)

/-- A leader's new entry. -/
theorem Valid.append (valid : Valid Q h) {node : Node} {entry : Entry}
    (leads : h.leader (h.term node) = some node)
    (stamp : Stamped.term entry = h.term node) :
    Valid Q (h.append node entry) := by
  have same : h.log node = h.leaderLog (h.term node) := valid.own leads
  have grow : ∀ term, h.leaderLog term <+:
      Function.update h.leaderLog (h.term node) (h.log node ++ [entry]) term := by
    intro term
    by_cases here : term = h.term node
    · subst here
      rw [Function.update_self, same]
      exact List.prefix_append _ _
    · rw [Function.update_of_ne here]
  have coherent : ∀ {log}, Coherent h log → Coherent (h.append node entry) log :=
    fun old => Coherent.mono grow old
  have newCoherent : Coherent (h.append node entry) (h.log node ++ [entry]) := by
    apply Coherent.concat (coherent (valid.coherentLog node))
    simp only [History.append, stamp, Function.update_self]
  refine
    { voteTerm := valid.voteTerm
      voteSelf := valid.voteSelf
      voteStamp := valid.voteStamp
      logStamp := ?_
      quorum := valid.quorum
      start := ?_
      noLeader := ?_
      own := ?_
      coherentLog := ?_
      coherentVote := fun voted => coherent (valid.coherentVote voted)
      coherentLeader := ?_
      ackLength := ?_
      ackTerm := ?_
      ackOwn := ?_ }
  · intro other found member
    by_cases here : other = node
    · subst here
      simp only [History.append, Function.update_self] at member
      rcases List.mem_append.mp member with old | new
      · exact valid.logStamp old
      · rw [List.mem_singleton.mp new]
        exact Nat.le_of_eq stamp
    · simp only [History.append, Function.update_of_ne here] at member
      exact valid.logStamp member
  · intro term leader leads'
    by_cases here : term = h.term node
    · subst here
      rcases valid.start leads' with ⟨start, rest, voted, equal, stamped⟩
      refine ⟨start, rest ++ [entry], voted, ?_, ?_⟩
      · simp only [History.append, Function.update_self, same, equal, List.append_assoc]
      · intro found member
        rcases List.mem_append.mp member with old | new
        · exact stamped found old
        · rw [List.mem_singleton.mp new, stamp]
    · simp only [History.append, Function.update_of_ne here]
      exact valid.start leads'
  · intro term noLeader
    have here : term ≠ h.term node := by
      intro equal
      subst equal
      exact absurd (leads.symm.trans noLeader) (by simp)
    simp only [History.append, Function.update_of_ne here]
    exact valid.noLeader noLeader
  · intro other leads'
    by_cases here : other = node
    · subst here
      simp only [History.append, Function.update_self]
    · have apart : h.term other ≠ h.term node := by
        intro equal
        have leads'' : h.leader (h.term other) = some other := leads'
        rw [equal, leads, Option.some.injEq] at leads''
        exact here leads''.symm
      simp only [History.append, Function.update_of_ne here, Function.update_of_ne apart]
      exact valid.own leads'
  · intro other
    by_cases here : other = node
    · subst here
      simp only [History.append, Function.update_self]
      exact newCoherent
    · simp only [History.append, Function.update_of_ne here]
      exact coherent (valid.coherentLog other)
  · intro term
    by_cases here : term = h.term node
    · subst here
      simp only [History.append, Function.update_self]
      exact newCoherent
    · simp only [History.append, Function.update_of_ne here]
      exact coherent (valid.coherentLeader term)
  · intro term other
    by_cases here : term = h.term node ∧ other = node
    · rcases here with ⟨rfl, rfl⟩
      simp only [History.append, record_self, Function.update_self, List.length_append,
        List.length_singleton, Nat.le_refl]
    · simp only [History.append, record_of_not _ _ here]
      exact (valid.ackLength term other).trans (grow term).length_le
  · intro term other acked
    by_cases here : term = h.term node ∧ other = node
    · rcases here with ⟨rfl, rfl⟩
      exact Nat.le_refl _
    · simp only [History.append, record_of_not _ _ here] at acked
      exact valid.ackTerm acked
  · intro term leader leads'
    by_cases here : term = h.term node
    · subst here
      have equal : leader = node := by
        have both : some leader = some node := leads'.symm.trans leads
        exact Option.some.inj both
      subst equal
      simp only [History.append, record_self, Function.update_self, List.length_append,
        List.length_singleton]
    · simp only [History.append, Function.update_of_ne here]
      rw [record_of_not _ _ (fun both => here both.1)]
      exact valid.ackOwn leads'

/-- A follower takes over a state of its leader's log. -/
theorem Valid.accept (valid : Valid Q h) {node leader : Node} {log : List Entry}
    (leads : h.leader (h.term node) = some leader) (other : node ≠ leader)
    (part : log <+: h.leaderLog (h.term node)) :
    Valid Q (h.accept node log) := by
  refine
    { voteTerm := valid.voteTerm
      voteSelf := valid.voteSelf
      voteStamp := valid.voteStamp
      logStamp := ?_
      quorum := valid.quorum
      start := valid.start
      noLeader := valid.noLeader
      own := ?_
      coherentLog := ?_
      coherentVote := valid.coherentVote
      coherentLeader := valid.coherentLeader
      ackLength := ?_
      ackTerm := ?_
      ackOwn := ?_ }
  · intro found entry member
    by_cases here : found = node
    · subst here
      simp only [History.accept, Function.update_self] at member
      exact valid.leaderStamp (part.subset member)
    · simp only [History.accept, Function.update_of_ne here] at member
      exact valid.logStamp member
  · intro found leads'
    have here : found ≠ node := by
      intro equal
      subst equal
      have leads'' : h.leader (h.term found) = some found := leads'
      rw [leads, Option.some.injEq] at leads''
      exact other leads''.symm
    simp only [History.accept, Function.update_of_ne here]
    exact valid.own leads'
  · intro found
    by_cases here : found = node
    · subst here
      simp only [History.accept, Function.update_self]
      exact (valid.coherentLeader _).part part
    · simp only [History.accept, Function.update_of_ne here]
      exact valid.coherentLog found
  · intro term found
    by_cases here : term = h.term node ∧ found = node
    · rcases here with ⟨rfl, rfl⟩
      simp only [History.accept, record_self]
      exact max_le (valid.ackLength _ _) part.length_le
    · simp only [History.accept, record_of_not _ _ here]
      exact valid.ackLength term found
  · intro term found acked
    by_cases here : term = h.term node ∧ found = node
    · rcases here with ⟨rfl, rfl⟩
      exact Nat.le_refl _
    · simp only [History.accept, record_of_not _ _ here] at acked
      exact valid.ackTerm acked
  · intro term found leads'
    have apart : ¬ (term = h.term node ∧ found = node) := by
      rintro ⟨rfl, rfl⟩
      have both : some leader = some found := leads.symm.trans leads'
      exact other (Option.some.inj both).symm
    simp only [History.accept, record_of_not _ _ apart]
    exact valid.ackOwn leads'

end Preservation

/-- Every step keeps the invariant, whatever replacements are allowed. -/
theorem Valid.step [DecidableEq Node] {Q : QuorumSystem Node}
    {Allowed : List Entry → List Entry → Prop} {before after : History Node Entry}
    {actor : Node} (valid : Valid Q before) (step : Step Q Allowed before actor after) :
    Valid Q after := by
  cases step with
  | raise term later => exact valid.raise later
  | vote candidate open_ fresh eligible => exact valid.castVote open_ fresh eligible
  | elect voters open_ own quorum votes => exact valid.elect open_ own quorum votes
  | append entry leads stamp => exact valid.append leads stamp
  | accept leader log leads other part based allowed =>
      exact valid.accept leads other part

/-! ## What a step of one node leaves alone -/

/-- Histories only grow: votes, leaders and acknowledgements are never taken back, and
a leader's log is only extended. -/
structure Extends (h h' : History Node Entry) : Prop where
  term : ∀ node, h.term node ≤ h'.term node
  vote : ∀ {term voter vote}, h.vote term voter = some vote → h'.vote term voter = some vote
  closed : ∀ {term}, h.leader term ≠ none → ∀ voter, h'.vote term voter = h.vote term voter
  leader : ∀ {term leader}, h.leader term = some leader → h'.leader term = some leader
  leaderLog : ∀ term, h.leaderLog term <+: h'.leaderLog term
  ack : ∀ term node, h.ack term node ≤ h'.ack term node

omit [Stamped Entry] in
theorem Extends.refl (h : History Node Entry) : Extends h h where
  term := fun _ => Nat.le_refl _
  vote := fun voted => voted
  closed := fun _ _ => rfl
  leader := fun leads => leads
  leaderLog := fun _ => List.prefix_rfl
  ack := fun _ _ => Nat.le_refl _

omit [Stamped Entry] in
theorem Extends.trans {first second third : History Node Entry} (left : Extends first second)
    (right : Extends second third) : Extends first third where
  term := fun node => (left.term node).trans (right.term node)
  vote := fun voted => right.vote (left.vote voted)
  closed := by
    intro term elected voter
    rcases Option.ne_none_iff_exists'.mp elected with ⟨leader, leads⟩
    have later : second.leader term ≠ none := by
      rw [left.leader leads]
      exact Option.some_ne_none leader
    rw [right.closed later, left.closed elected]
  leader := fun leads => right.leader (left.leader leads)
  leaderLog := fun term => (left.leaderLog term).trans (right.leaderLog term)
  ack := fun term node => (left.ack term node).trans (right.ack term node)

/-- A history grows by what one node does: the terms, logs and votes of the others stay,
and no other node becomes a leader. -/
structure ActsAlone (actor : Node) (h h' : History Node Entry) : Prop extends Extends h h' where
  otherTerm : ∀ {node}, node ≠ actor → h'.term node = h.term node
  otherLog : ∀ {node}, node ≠ actor → h'.log node = h.log node
  otherVote : ∀ {node}, node ≠ actor → ∀ term, h'.vote term node = h.vote term node
  otherLeader : ∀ {node}, node ≠ actor → ∀ {term}, h'.leader term = some node →
    h.leader term = some node

omit [Stamped Entry] in
theorem ActsAlone.refl (actor : Node) (h : History Node Entry) : ActsAlone actor h h where
  toExtends := Extends.refl h
  otherTerm := fun _ => rfl
  otherLog := fun _ => rfl
  otherVote := fun _ _ => rfl
  otherLeader := fun _ _ leads => leads

omit [Stamped Entry] in
theorem ActsAlone.trans {actor : Node} {first second third : History Node Entry}
    (left : ActsAlone actor first second) (right : ActsAlone actor second third) :
    ActsAlone actor first third where
  toExtends := left.toExtends.trans right.toExtends
  otherTerm := fun other => (right.otherTerm other).trans (left.otherTerm other)
  otherLog := fun other => (right.otherLog other).trans (left.otherLog other)
  otherVote := fun other term => (right.otherVote other term).trans (left.otherVote other term)
  otherLeader := fun other _ leads => left.otherLeader other (right.otherLeader other leads)

section ActsAlone

variable [DecidableEq Node] {Q : QuorumSystem Node} {h : History Node Entry}

omit [Stamped Entry] in
theorem ActsAlone.raise {node : Node} {term : Nat} (later : h.term node < term) :
    ActsAlone node h (h.raise node term) where
  term := by
    intro other
    by_cases same : other = node
    · subst same
      simp only [History.raise, Function.update_self]
      exact Nat.le_of_lt later
    · simp only [History.raise, Function.update_of_ne same, Nat.le_refl]
  vote := fun voted => voted
  closed := fun _ _ => rfl
  leader := fun leads => leads
  leaderLog := fun _ => List.prefix_rfl
  ack := fun _ _ => Nat.le_refl _
  otherTerm := fun other => Function.update_of_ne other _ _
  otherLog := fun _ => rfl
  otherVote := fun _ _ => rfl
  otherLeader := fun _ _ leads => leads

omit [Stamped Entry] in
theorem ActsAlone.castVote {voter candidate : Node} (open_ : h.leader (h.term voter) = none)
    (fresh : h.vote (h.term voter) voter = none) :
    ActsAlone voter h (h.castVote voter candidate) where
  term := fun _ => Nat.le_refl _
  vote := by
    intro term node vote voted
    simp only [History.castVote]
    rw [record_of_not]
    · exact voted
    · rintro ⟨rfl, rfl⟩
      exact absurd (fresh.symm.trans voted) (by simp)
  closed := by
    intro term elected node
    simp only [History.castVote]
    rw [record_of_not]
    rintro ⟨rfl, _⟩
    exact elected open_
  leader := fun leads => leads
  leaderLog := fun _ => List.prefix_rfl
  ack := fun _ _ => Nat.le_refl _
  otherTerm := fun _ => rfl
  otherLog := fun _ => rfl
  otherVote := fun other _ => record_of_not _ _ (fun both => other both.2)
  otherLeader := fun _ _ leads => leads

theorem ActsAlone.elect (valid : Valid Q h) {node : Node}
    (open_ : h.leader (h.term node) = none) : ActsAlone node h (h.elect node) where
  term := fun _ => Nat.le_refl _
  vote := fun voted => voted
  closed := fun _ _ => rfl
  leader := by
    intro term leader leads
    have different : term ≠ h.term node := by
      rintro rfl
      exact absurd (open_.symm.trans leads) (by simp)
    simp only [History.elect, Function.update_of_ne different]
    exact leads
  leaderLog := by
    intro term
    by_cases same : term = h.term node
    · subst same
      rw [valid.noLeader open_]
      exact List.nil_prefix
    · simp only [History.elect, Function.update_of_ne same, List.prefix_rfl]
  ack := by
    intro term other
    by_cases here : term = h.term node ∧ other = node
    · rcases here with ⟨rfl, rfl⟩
      have bound := valid.ackLength (h.term other) other
      rw [valid.noLeader open_, List.length_nil] at bound
      omega
    · simp only [History.elect, record_of_not _ _ here, Nat.le_refl]
  otherTerm := fun _ => rfl
  otherLog := fun _ => rfl
  otherVote := fun _ _ => rfl
  otherLeader := by
    intro other different term leads
    by_cases same : term = h.term node
    · subst same
      simp only [History.elect, Function.update_self, Option.some.injEq] at leads
      exact absurd leads.symm different
    · simpa only [History.elect, Function.update_of_ne same] using leads

theorem ActsAlone.append (valid : Valid Q h) {node : Node} {entry : Entry}
    (leads : h.leader (h.term node) = some node) :
    ActsAlone node h (h.append node entry) where
  term := fun _ => Nat.le_refl _
  vote := fun voted => voted
  closed := fun _ _ => rfl
  leader := fun leads => leads
  leaderLog := by
    intro term
    by_cases same : term = h.term node
    · subst same
      simp only [History.append, Function.update_self, valid.own leads]
      exact List.prefix_append _ _
    · simp only [History.append, Function.update_of_ne same, List.prefix_rfl]
  ack := by
    intro term other
    by_cases here : term = h.term node ∧ other = node
    · rcases here with ⟨rfl, rfl⟩
      have bound := valid.ackLength (h.term other) other
      rw [← valid.own leads] at bound
      simp only [History.append, record_self]
      omega
    · simp only [History.append, record_of_not _ _ here, Nat.le_refl]
  otherTerm := fun _ => rfl
  otherLog := fun other => Function.update_of_ne other _ _
  otherVote := fun _ _ => rfl
  otherLeader := fun _ _ leads => leads

omit [Stamped Entry] in
theorem ActsAlone.accept {node : Node} {log : List Entry} :
    ActsAlone node h (h.accept node log) where
  term := fun _ => Nat.le_refl _
  vote := fun voted => voted
  closed := fun _ _ => rfl
  leader := fun leads => leads
  leaderLog := fun _ => List.prefix_rfl
  ack := by
    intro term other
    by_cases here : term = h.term node ∧ other = node
    · rcases here with ⟨rfl, rfl⟩
      simp only [History.accept, record_self]
      exact le_max_left _ _
    · simp only [History.accept, record_of_not _ _ here, Nat.le_refl]
  otherTerm := fun _ => rfl
  otherLog := fun other => Function.update_of_ne other _ _
  otherVote := fun _ _ => rfl
  otherLeader := fun _ _ leads => leads

end ActsAlone

theorem Step.actsAlone [DecidableEq Node] {Q : QuorumSystem Node}
    {Allowed : List Entry → List Entry → Prop} {before after : History Node Entry}
    {actor : Node} (valid : Valid Q before) (step : Step Q Allowed before actor after) :
    ActsAlone actor before after := by
  cases step with
  | raise term later => exact ActsAlone.raise later
  | vote candidate open_ fresh eligible => exact ActsAlone.castVote open_ fresh
  | elect voters open_ own quorum votes => exact ActsAlone.elect valid open_
  | append entry leads stamp => exact ActsAlone.append valid leads
  | accept leader log leads other part based allowed => exact ActsAlone.accept

/-- Along a run the invariant is kept and the history grows. -/
theorem Valid.reaches [DecidableEq Node] {Q : QuorumSystem Node}
    {Allowed : List Entry → List Entry → Prop} {before after : History Node Entry}
    (valid : Valid Q before) (run : (system Q Allowed).Reaches before after) :
    Valid Q after ∧ Extends before after := by
  have both := run.preserve (fun h => Valid Q h ∧ Extends before h)
    (fun _ _ _ old step =>
      ⟨old.1.step step, old.2.trans (step.actsAlone old.1).toExtends⟩)
  exact both ⟨valid, Extends.refl before⟩

end Replication
end Library
end Sigil
