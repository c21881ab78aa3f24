import Mathlib.Logic.Equiv.List
import Mathlib.Tactic.DeriveEncodable
import Sigil.Cluster.DriverRefines
import Sigil.Cluster.Safety

namespace Sigil
namespace Cluster

/-!
# Safety of the drivers

What holds on every run of the cluster holds of the nodes behind their drivers, buses and links.
The names of the topics have to be told apart, so no node may be called after the topic of the
cluster, and a frame above the cap ends the run.
-/

open Library Library.Replication Sigil.Core

variable (c : Membership) (cluster : String) (text : MsgText)

/-- Every run of the drivers is a run of the cluster with the same nodes. -/
theorem drivers_refine (roundTrips : text.RoundTrips) (named : "bcast" ∉ c.members) {w w' : Wires}
    (reachable : (c.smallDrivers cluster text).Reachable w)
    (run : (c.smallDrivers cluster text).Reaches w w') :
    ∃ s s', c.system.Reachable s ∧ c.system.Reaches s s' ∧
      (∀ i, s.node i = (w.host i).node) ∧ ∀ i, s'.node i = (w'.host i).node := by
  rcases abstracts_of_reachable roundTrips named reachable with ⟨s, isReachable, before⟩
  rcases before.reaches roundTrips named isReachable run with ⟨s', later, after⟩
  exact ⟨s, s', isReachable, later, before.node, after.node⟩

/-- Behind the drivers two leaders of one term are the same node, also at different moments of a
run, and entries of one term at one index end the same list of entries. -/
theorem drivers_safe (roundTrips : text.RoundTrips) (named : "bcast" ∉ c.members) {w w' : Wires}
    (reachable : (c.smallDrivers cluster text).Reachable w)
    (run : (c.smallDrivers cluster text).Reaches w w') {i j : String} (iMember : i ∈ c.members)
    (jMember : j ∈ c.members) :
    ((w.host i).node.isLeader = true → (w'.host j).node.isLeader = true →
      (w.host i).node.term = (w'.host j).node.term → i = j) ∧
    ∀ (index : Nat) (first second : LogEntry), (w.host i).node.log[index]? = some first →
      (w.host j).node.log[index]? = some second → first.term = second.term →
        (w.host i).node.log.take (index + 1) = (w.host j).node.log.take (index + 1) := by
  rcases abstracts_of_reachable roundTrips named reachable with ⟨s, isReachable, before⟩
  rcases before.reaches roundTrips named isReachable run with ⟨s', later, after⟩
  rcases coupled_of_reachable isReachable with ⟨h, coupled⟩
  rcases coupled.reaches later with ⟨h', grow, coupled'⟩
  rw [← before.node i, ← before.node j, ← after.node j]
  have iAgrees := coupled.nodes i iMember
  have jAgrees := coupled.nodes j jMember
  constructor
  · intro iLeads jLeads sameTerm
    have elected := grow.leader (iAgrees.leads.mp iLeads)
    rw [sameTerm, (coupled'.nodes j jMember).leads.mp jLeads] at elected
    exact (Option.some.inj elected).symm
  · intro index first second firstFound secondFound sameTerm
    have left_ := coupled.valid.coherentLog i
    have right_ := coupled.valid.coherentLog j
    rw [iAgrees.log] at left_
    rw [jAgrees.log] at right_
    exact left_.matching right_ firstFound secondFound sameTerm

/-! ## An election over the links -/

instance encodableByte : Encodable UInt8 :=
  .ofLeftInverse UInt8.toNat UInt8.ofNat fun _ => UInt8.ofNat_toNat

instance encodableText : Encodable String :=
  .ofLeftInverse (fun s => s.toList.map Char.toNat) (fun codes => .ofList (codes.map Char.ofNat))
    fun s => by
      rw [List.map_map, show Char.ofNat ∘ Char.toNat =
        id from funext Char.ofNat_toNat, List.map_id, String.ofList_toList]

deriving instance Encodable for LogEntry
deriving instance Encodable for RaftMsg

/-- Three messages of an election with their text. -/
def electionTexts : List (RaftMsg × String) :=
  [(.requestVote 1 "a" 0 0,
      "\x7b\"RequestVote\":\x7b\"term\":1,\"candidate\":\"a\"," ++
        "\"last_log_index\":0,\"last_log_term\":0\x7d\x7d"),
    (.voteReply 1 "b" true,
      "\x7b\"VoteReply\":\x7b\"term\":1,\"from\":\"b\",\"granted\":true\x7d\x7d"),
    (.appendEntries 1 "a" 0 0 [] 0,
      "\x7b\"AppendEntries\":\x7b\"term\":1,\"leader\":\"a\",\"prev_index\":0," ++
        "\"prev_term\":0,\"entries\":[],\"leader_commit\":0\x7d\x7d")]

/-- A printer and a parser for these texts; any other message gets a number. -/
def electionText : MsgText where
  toVec msg :=
    match electionTexts.find? fun entry => entry.1 = msg with
    | some entry => utf8Bytes entry.2
    | none => List.replicate (Encodable.encode msg) 0
  fromSlice bytes :=
    match electionTexts.find? fun entry => utf8Bytes entry.2 = bytes with
    | some entry => some entry.1
    | none => Encodable.decode bytes.length

theorem roundTrips_electionText : electionText.RoundTrips := by
  intro msg
  dsimp only [electionText]
  cases known : electionTexts.find? fun entry => entry.1 = msg with
  | some entry =>
      have own : ∀ entry ∈ electionTexts,
          (electionTexts.find? fun other => utf8Bytes other.2 = utf8Bytes entry.2) =
            some entry := by
        decide +kernel
      dsimp only
      rw [own entry (List.mem_of_find?_eq_some known)]
      have isOwn : entry.1 = msg := by simpa using List.find?_some known
      exact congrArg some isOwn
  | none =>
      have begins : ∀ entry ∈ electionTexts, (123 : UInt8) ∈ utf8Bytes entry.2 := by
        decide +kernel
      have unknown : (electionTexts.find? fun entry =>
          utf8Bytes entry.2 = List.replicate (Encodable.encode msg) 0) = none := by
        rw [List.find?_eq_none]
        intro entry member same
        have brace := begins entry member
        rw [of_decide_eq_true same] at brace
        exact absurd (List.eq_of_mem_replicate brace) (by decide)
      dsimp only
      rw [unknown, List.length_replicate]
      exact Encodable.encodek msg

/-- `a` stands for election, `b` reads the request and votes, and `a` reads the vote. -/
def linkedElection : List Signal :=
  List.replicate 10 (Signal.tick "a") ++
    [.forward "a" "b" .sent, .read "a" "b" 0, .bcast "b", .forward "b" "a" .sent,
      .read "b" "a" 0, .directed "a"]

theorem ran_linkedElection : ∃ w, (three.smallDrivers "main" electionText).Reachable w ∧
    (w.host "a").node.isLeader = true ∧ (w.host "a").node.term = 1 := by
  have ran : (TransitionSystem.follow
      (TransitionSystem.guarded Wires.Small (Wires.step three "main" electionText))
      (Wires.start three) linkedElection).map (fun w =>
        ((w.host "a").node.isLeader, (w.host "a").node.term)) = some (true, 1) := by
    decide +kernel
  rcases Option.map_eq_some_iff.mp ran with ⟨w, followed, shown⟩
  rw [Prod.mk.injEq] at shown
  exact ⟨w, ⟨_, rfl, .of_guarded (fun _ _ _ step => step) followed⟩, shown⟩

theorem drivers_refine_linkedElection : ∃ s, three.system.Reachable s ∧
    (s.node "a").isLeader = true := by
  rcases ran_linkedElection with ⟨w, reachable, leads, _⟩
  rcases drivers_refine three "main" electionText roundTrips_electionText (by decide) reachable
    (.refl _ _) with ⟨s, _, isReachable, _, same, _⟩
  exact ⟨s, isReachable, by rw [same]; exact leads⟩

theorem drivers_safe_linkedElection :
    ∃ w, (three.smallDrivers "main" electionText).Reachable w ∧
    (w.host "a").node.isLeader = true ∧
    ∀ w', (three.smallDrivers "main" electionText).Reaches w w' →
      (w'.host "b").node.term = 1 → (w'.host "b").node.isLeader ≠ true := by
  rcases ran_linkedElection with ⟨w, reachable, leads, term⟩
  refine ⟨w, reachable, leads, fun w' run sameTerm bLeads => ?_⟩
  have same := (@drivers_safe three "main" electionText roundTrips_electionText (by decide) w w'
    reachable run "a" "b" (by decide) (by decide)).1 leads bLeads (term.trans sameTerm.symm)
  exact absurd same (by decide)

end Cluster
end Sigil
