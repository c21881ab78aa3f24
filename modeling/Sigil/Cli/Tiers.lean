import Sigil.Cli.Journal
import Sigil.Index.Hunting
import Sigil.Normalize.UserOffset

namespace Sigil
namespace Cli

/-!
# Both tiers hold the same events

While a node runs that has started on an empty disk, the hot index holds the events of the
segments that it has written and then those of its buffer, in one order.  Retention drops whole
segments from the cold tier, those that it finds too old, and migration changes nothing that is
read.  After the loop has ended without an error nothing waits any more: the hot index is committed
and the buffer is empty.
-/

open Sigil.Core Sigil.Index Sigil.Sigma

variable {lib : Libraries} (parts : Parts)

/-- The times of the first segments from a number on. -/
def rollTimes (outside : Nat → Outside) (n count : Nat) : List Int64 :=
  (List.range' n count).map fun n => (outside n).rolled

/-- The times that a turn may take as identifiers of segments. -/
def Turn.times : Turn lib → List Int64
  | .frame raw outside =>
      rollTimes outside 0 (Ingest.decode parts.decoders raw.codecKind raw.bytes).length
  | .drained last => [last.rolled]
  | .telemetry _ outside => [outside.rolled]
  | .rolloverTick rolled _ _ => [rolled]
  | .ctrlC last => [last.rolled]
  | _ => []

/-- The times at which a turn looks for what is too old. -/
def Turn.ticks : Turn lib → List Int
  | .retentionTick now _ _ _ => [now]
  | _ => []

/-- The events of a batch are too old at a time. -/
def TooOld (now : Int) (write : Write) : Prop :=
  ∃ maxAge ∈ parts.retention, maxAge < toI64 (now - write.maxTs)

/-- What is expired after a turn: what was, and the segments that are too old at its ticks. -/
def ExpiredAfter (used : List Int64) (ticks : List Int) (isExpired : Write → Prop)
    (write : Write) : Prop :=
  isExpired write ∨ write.now ∈ used ∧ ∃ now ∈ ticks, TooOld parts now write

/-- The tiers of a node and the ledger of its store; `used` are the times of the segments. -/
structure Node.Tiers (node : Node lib) (used : List Int64) (isExpired : Write → Prop)
    (ledger : Ledger) : Prop where
  settled : Settled parts.json node.machine.store ledger
  claimed : ledger.claimed ⊆ used
  documents : node.hot.documents = ledger.written.flatMap Write.events ++ node.buffer
  dirty : node.dirty = node.hot.pending.length
  batches : ∀ write ∈ ledger.written, write.events ≠ [] ∧ write.events.length ≤ rollMax
  expired : ∀ write ∈ ledger.written, write.id ∈ ledger.expired ↔ isExpired write
  since : ∀ write, isExpired write → write.now ∈ used

/-- The tiers agree, and the buffer is not full. -/
def Node.Agrees (used : List Int64) (isExpired : Write → Prop) (node : Node lib) : Prop :=
  (∃ ledger, node.Tiers parts used isExpired ledger) ∧ node.buffer.length < rollMax

section Steps

variable {parts} {node : Node lib} {used : List Int64} {isExpired : Write → Prop}
  {ledger : Ledger}

theorem Node.Tiers.mono (tiers : node.Tiers parts used isExpired ledger) {more : List Int64}
    {isExpired' : Write → Prop} (sub : used ⊆ more)
    (same : ∀ write, isExpired write ↔ isExpired' write) :
    node.Tiers parts more isExpired' ledger :=
  { tiers with
    claimed := List.Subset.trans tiers.claimed sub
    expired := fun write isWritten => (tiers.expired write isWritten).trans (same write)
    since := fun write old => sub (tiers.since write ((same write).mpr old)) }

theorem Node.Tiers.more (tiers : node.Tiers parts used isExpired ledger) {more : List Int64}
    (sub : used ⊆ more) : node.Tiers parts more isExpired ledger :=
  tiers.mono sub fun _ => Iff.rfl

theorem Node.Agrees.mono (agrees : node.Agrees parts used isExpired) {more : List Int64}
    {isExpired' : Write → Prop} (sub : used ⊆ more)
    (same : ∀ write, isExpired write ↔ isExpired' write) :
    node.Agrees parts more isExpired' := by
  rcases agrees with ⟨⟨ledger, tiers⟩, room⟩
  exact ⟨⟨ledger, tiers.mono sub same⟩, room⟩

theorem Node.Agrees.more (agrees : node.Agrees parts used isExpired) {more : List Int64}
    (sub : used ⊆ more) : node.Agrees parts more isExpired :=
  agrees.mono sub fun _ => Iff.rfl

/-- Nothing expires without a tick. -/
theorem Node.Agrees.withoutTick (agrees : node.Agrees parts used isExpired) (past : List Int64) :
    node.Agrees parts used (ExpiredAfter parts past [] isExpired) := by
  refine agrees.mono (List.Subset.refl _) fun write => ⟨Or.inl, fun old => ?_⟩
  rcases old with before | ⟨-, now, isTick, -⟩
  · exact before
  · exact absurd isTick List.not_mem_nil

/-- The rest of the node has nothing to do with the tiers. -/
theorem Node.Agrees.same (agrees : node.Agrees parts used isExpired) {other : Node lib}
    (machine : other.machine = node.machine) (hot : other.hot = node.hot)
    (buffer : other.buffer = node.buffer) (dirty : other.dirty = node.dirty) :
    other.Agrees parts used isExpired := by
  rcases agrees with ⟨⟨ledger, tiers⟩, room⟩
  refine ⟨⟨ledger, ?_⟩, by rw [buffer]; exact room⟩
  exact
    { settled := machine ▸ tiers.settled
      claimed := tiers.claimed
      documents := by rw [hot, buffer]; exact tiers.documents
      dirty := by rw [hot, dirty]; exact tiers.dirty
      batches := tiers.batches
      expired := tiers.expired
      since := tiers.since }

theorem Node.Tiers.used_of_written (tiers : node.Tiers parts used isExpired ledger) {write : Write}
    (isWritten : write ∈ ledger.written) : write.now ∈ used := by
  apply tiers.claimed
  apply tiers.settled.sound.claimed
  exact List.mem_append_right _ (List.mem_map_of_mem isWritten)

/-- What the buffer held is a segment now. -/
theorem Node.Tiers.roll (tiers : node.Tiers parts used isExpired ledger)
    (short : node.buffer.length ≤ rollMax) {rolled : Int64} (created : Int64) (faults : Faults)
    (fresh : rolled ∉ used) :
    Ends (fun after => (∃ ledger, after.Tiers parts (rolled :: used) isExpired ledger) ∧
      after.buffer = [] ∧ after.hot = node.hot) (node.roll parts rolled created faults) := by
  rw [Node.roll, Machine.roll]
  by_cases empty : node.buffer.isEmpty = true
  · rw [if_pos empty]
    exact ⟨⟨ledger, tiers.more (List.subset_cons_self _ _)⟩, List.isEmpty_iff.mp empty, rfl⟩
  · rw [if_neg empty]
    have some_ : node.buffer ≠ [] := fun none_ => empty (List.isEmpty_iff.mpr none_)
    cases result :
      node.machine.writeSegment faults parts.json ⟨node.buffer, rolled, created⟩ with
    | mk machine answer =>
        cases answer with
        | error failure => exact rfl
        | ok seg =>
            refine ⟨⟨{ ledger with
                claimed := rolled :: ledger.claimed
                written := ledger.written ++ [⟨node.buffer, rolled, created⟩] }, ?_⟩,
                  rfl, rfl⟩
            exact
              { settled := tiers.settled.writeSegment some_ (fun member =>
                  fresh (tiers.claimed member))
                  result
                claimed := List.cons_subset_cons rolled tiers.claimed
                documents := by
                  rw [List.flatMap_append, List.flatMap_singleton, List.append_nil]
                  exact tiers.documents
                dirty := tiers.dirty
                batches := by
                  intro write member
                  rcases List.mem_append.mp member with old | new
                  · exact tiers.batches write old
                  · rw [List.mem_singleton.mp new]
                    exact ⟨some_, short⟩
                expired := by
                  intro write member
                  rcases List.mem_append.mp member with old | new
                  · exact tiers.expired write old
                  · -- a new segment has a time of its own
                    rw [List.mem_singleton.mp new]
                    refine iff_of_false (fun gone => ?_) fun old => fresh (tiers.since _ old)
                    rcases tiers.settled.sound.expired _ gone with ⟨other, isWritten, sameId⟩
                    have isUsed := tiers.used_of_written isWritten
                    rw [← ulidLike_injective sameId] at isUsed
                    exact fresh isUsed
                since := fun write old => List.mem_cons_of_mem rolled (tiers.since write old) }

/-- An event is in both tiers now. -/
theorem Node.Agrees.store (agrees : node.Agrees parts used isExpired)
    (event : Event) {outside : Outside} (fresh : outside.rolled ∉ used) :
    Ends (Node.Agrees parts (outside.rolled :: used) isExpired)
      (node.store parts event outside) := by
  rcases agrees with ⟨⟨ledger, tiers⟩, room⟩
  have both : ({ node with
      hot := node.hot.add event
      dirty := node.dirty + 1
      buffer := node.buffer ++ [event] } : Node lib).Tiers parts used isExpired ledger :=
    { tiers with
      documents := by
        rw [EventIndex.documents_add, tiers.documents, List.append_assoc]
      dirty := by
        rw [EventIndex.add, List.length_append, List.length_singleton, tiers.dirty] }
  rw [Node.store]
  split
  · dsimp only
    split
    · refine (both.roll (by simpa using room) _ _ fresh).imp fun after rolled => ⟨rolled.1, ?_⟩
      rw [rolled.2.1]
      exact rollMax_pos
    · next short =>
        exact ⟨⟨ledger, both.more (List.subset_cons_self _ _)⟩, not_le.mp short⟩
  · exact rfl

/-- What the detection path changes has nothing to do with the tiers. -/
theorem Node.Agrees.handle (agrees : node.Agrees parts used isExpired)
    (shouldSigma shouldIndex : Bool) (event : Event) {outside : Outside}
    (fresh : outside.rolled ∉ used) :
    Ends (Node.Agrees parts (outside.rolled :: used) isExpired)
      (node.handle parts shouldSigma shouldIndex event outside) := by
  rw [Node.handle]
  dsimp only
  have detected : (if shouldSigma then
      (node.mine event).1.detect parts (node.mine event).2 outside
      else (node.mine event).1).Agrees parts used isExpired := by
    cases shouldSigma with
    | true => exact agrees.same rfl rfl rfl rfl
    | false => exact agrees.same rfl rfl rfl rfl
  split
  · exact detected.store _ fresh
  · exact detected.more (List.subset_cons_self _ _)

theorem Node.Agrees.handleAll (agrees : node.Agrees parts used isExpired)
    (shouldSigma shouldIndex : Bool) (outside : Nat → Outside) (n : Nat) (events : List Event)
    (distinct : (rollTimes outside n events.length ++ used).Nodup) :
    Ends (Node.Agrees parts (rollTimes outside n events.length ++ used) isExpired)
      (Node.handleAll parts shouldSigma shouldIndex outside n node events) := by
  induction events generalizing node n used with
  | nil => exact agrees
  | cons event events inductionHypothesis =>
      have times : rollTimes outside n (event :: events).length ++ used =
          (outside n).rolled :: (rollTimes outside (n + 1) events.length ++ used) := by
        rw [List.length_cons, rollTimes, List.range'_succ]
        rfl
      have moved : (rollTimes outside (n + 1) events.length ++ (outside n).rolled :: used).Perm
          (rollTimes outside n (event :: events).length ++ used) := by
        rw [times]
        exact List.perm_middle
      have fresh : (outside n).rolled ∉ used := by
        rw [times, List.nodup_cons] at distinct
        exact fun member => distinct.1 (List.mem_append_right _ member)
      rw [Node.handleAll]
      refine (agrees.handle shouldSigma shouldIndex event fresh).bind fun middle agrees => ?_
      refine (inductionHypothesis agrees (n + 1) (moved.nodup_iff.mpr distinct)).imp
        fun after later => ?_
      exact later.more moved.subset

/-- What retention drops is what is too old. -/
theorem Node.Tiers.expire (tiers : node.Tiers parts used isExpired ledger) {now maxAge : Int}
    (retention : parts.retention = some maxAge) {outages : Outages}
    {after : Machine} {dropped : Nat}
    (enforced : node.machine.enforceRetention outages now maxAge = (after, .ok dropped)) :
    ({ node with machine := after } : Node lib).Tiers parts used
      (ExpiredAfter parts used [now] isExpired) (ledger.note (.expire now maxAge)) :=
  { tiers with
    settled := tiers.settled.enforceRetention enforced
    expired := by
      intro write isWritten
      have aged : TooOld parts now write ↔ maxAge < toI64 (now - write.maxTs) := by
        simp [TooOld, retention]
      have found : write.id ∈ (ledger.written.filter fun write =>
          maxAge < toI64 (now - write.maxTs)).map Write.id ↔
            maxAge < toI64 (now - write.maxTs) := by
        rw [List.mem_map]
        constructor
        · rintro ⟨other, isOld, sameId⟩
          rcases List.mem_filter.mp isOld with ⟨isOther, old⟩
          rw [← tiers.settled.sound.write_unique isOther isWritten (ulidLike_injective sameId)]
          exact of_decide_eq_true old
        · exact fun old =>
            ⟨write, List.mem_filter.mpr ⟨isWritten, decide_eq_true old⟩, rfl⟩
      change write.id ∈ ledger.expired ++ _ ↔ _
      rw [List.mem_append, found, tiers.expired write isWritten, ExpiredAfter, ← aged]
      simp [tiers.used_of_written isWritten]
    since := fun write old => old.elim (tiers.since write) And.left }

theorem Node.Agrees.upkeep (agrees : node.Agrees parts used isExpired) (now : Int)
    (dropping : Outages) (later : Int) (moving : Outages)
    (goesOn : (node.upkeep parts now dropping later moving).phase ≠ .failed) :
    (node.upkeep parts now dropping later moving).Agrees parts used
      (ExpiredAfter parts used [now] isExpired) := by
  rcases agrees with ⟨⟨ledger, tiers⟩, room⟩
  refine Ends.settle (@Ends.map _ (Node.Agrees parts used (ExpiredAfter parts used [now] isExpired))
    _ _ _ ?_ ?_) goesOn
  · cases retention : parts.retention with
    | none =>
        refine ⟨⟨ledger, tiers.mono (List.Subset.refl _) fun write =>
          ⟨Or.inl, ?_⟩⟩, room⟩
        rintro (before | ⟨-, _, -, _, keeps, -⟩)
        · exact before
        · rw [retention] at keeps
          cases keeps
    | some maxAge =>
        dsimp only
        split
        · next machine dropped enforced =>
            exact ⟨⟨_, tiers.expire retention enforced⟩, room⟩
        · exact rfl
  · rintro dropped ⟨⟨ledger, tiers⟩, room⟩
    cases parts.warm with
    | none => exact ⟨⟨ledger, tiers⟩, room⟩
    | some warmAge =>
        exact ⟨⟨ledger,
          { tiers with settled := tiers.settled.migrateWarm moving later warmAge }⟩, room⟩

theorem Node.Agrees.commit (agrees : node.Agrees parts used isExpired) (committed : Bool) :
    Ends (fun after => after.Agrees parts used isExpired ∧ after.hot.pending = [])
      (node.commit committed) := by
  rcases agrees with ⟨⟨ledger, tiers⟩, room⟩
  rw [Node.commit]
  split
  · refine ⟨⟨⟨ledger, { tiers with documents := ?_, dirty := rfl }⟩, room⟩, rfl⟩
    rw [EventIndex.documents_commit]
    exact tiers.documents
  · exact rfl

/-- After the last writes nothing waits. -/
theorem Node.Agrees.finish (agrees : node.Agrees parts used isExpired) (last : LastWrites)
    (fresh : last.rolled ∉ used) (goesOn : (node.finish parts last).phase ≠ .failed) :
    (node.finish parts last).Agrees parts (last.rolled :: used) isExpired ∧
      (node.finish parts last).hot.pending = [] ∧ (node.finish parts last).buffer = [] := by
  refine @Ends.settle _ (fun after => after.Agrees parts (last.rolled :: used) isExpired ∧
    after.hot.pending = [] ∧ after.buffer = []) _ ((agrees.commit last.committed).bind ?_) goesOn
  rintro middle ⟨⟨⟨ledger, tiers⟩, room⟩, pending⟩
  refine (tiers.roll room.le _ _ fresh).map ?_
  rintro after ⟨rolled, empty, hot⟩
  have short : after.buffer.length < rollMax := by
    rw [empty]
    exact rollMax_pos
  have rolledAgrees : after.Agrees parts (last.rolled :: used) isExpired := ⟨rolled, short⟩
  exact ⟨rolledAgrees.same rfl rfl rfl rfl,
    (congrArg EventIndex.pending hot).trans pending, empty⟩

theorem normalizeAll_length {codecKind : String} {outside : Nat → Outside} {n : Nat}
    {records : List Record} {events : List Event}
    (normalized : normalizeAll parts codecKind outside n records = some events) :
    events.length = records.length := by
  induction records generalizing n events with
  | nil =>
      cases normalized
      rfl
  | cons record records inductionHypothesis =>
      rcases Option.bind_eq_some_iff.mp normalized with ⟨event, _, rest⟩
      rcases Option.map_eq_some_iff.mp rest with ⟨events', others, rfl⟩
      rw [List.length_cons, List.length_cons, inductionHypothesis others]

/-! ## Turns and runs -/

/-- One turn keeps the agreement, and the last one leaves nothing to wait. -/
theorem Node.Agrees.advance (agrees : node.Agrees parts used isExpired) (turn : Turn lib)
    (distinct : (turn.times parts ++ used).Nodup)
    (goesOn : (node.advance parts turn).phase ≠ .failed) :
    (node.advance parts turn).Agrees parts (turn.times parts ++ used)
        (ExpiredAfter parts used turn.ticks isExpired) ∧
      (turn.ends parts node.inputsOpen = true → (node.advance parts turn).hot.pending = [] ∧
        (node.advance parts turn).buffer = []) := by
  have same : ∀ {changed : Node lib}, changed.Agrees parts used isExpired →
      changed.Agrees parts (turn.times parts ++ used) (ExpiredAfter parts used [] isExpired) :=
    fun changed => (changed.more (List.subset_append_right _ _)).withoutTick used
  cases turn with
  | frame raw outside =>
      rw [Node.advance] at goesOn ⊢
      split at goesOn
      · next isOpen =>
          rw [if_pos isOpen]
          cases normalized : decodeNormalize parts raw outside with
          | none =>
              rw [normalized] at goesOn
              exact absurd rfl goesOn
          | some events =>
              rw [normalized] at goesOn
              have length : events.length =
                  (Ingest.decode parts.decoders raw.codecKind raw.bytes).length :=
                normalizeAll_length normalized
              rw [Turn.times, ← length] at distinct ⊢
              have handled := (agrees.handleAll _ _ _ 0 events distinct).settle goesOn
              exact ⟨handled.withoutTick used, fun impossible => Bool.noConfusion impossible⟩
      · next closed =>
          rw [if_neg closed]
          exact ⟨same agrees, fun impossible => Bool.noConfusion impossible⟩
  | drained last =>
      have closed : ({ node with inputsOpen := false } : Node lib).Agrees parts used isExpired :=
        agrees.same rfl rfl rfl rfl
      rw [Node.advance] at goesOn ⊢
      split at goesOn
      · next last_ =>
          rw [if_pos last_]
          have finished := closed.finish last (List.nodup_cons.mp distinct).1 goesOn
          exact ⟨finished.1.withoutTick used, fun _ => finished.2⟩
      · next goes =>
          rw [if_neg goes]
          refine ⟨same closed, fun ends => absurd ?_ goes⟩
          rw [Turn.ends, Bool.and_eq_true, Bool.not_eq_true'] at ends
          exact ⟨ends.1, by rw [ends.2]; exact Bool.false_ne_true⟩
  | telemetry event outside =>
      have handled := (agrees.handle _ _ event (List.nodup_cons.mp distinct).1).settle goesOn
      exact ⟨handled.withoutTick used, fun impossible => Bool.noConfusion impossible⟩
  | commitTick committed =>
      rw [Node.advance] at goesOn ⊢
      split at goesOn
      · next dirty =>
          rw [if_pos dirty]
          exact ⟨((agrees.commit committed).settle goesOn).1.withoutTick used,
            fun impossible => Bool.noConfusion impossible⟩
      · next clean =>
          rw [if_neg clean]
          exact ⟨agrees.withoutTick used, fun impossible => Bool.noConfusion impossible⟩
  | rolloverTick time created faults =>
      refine ⟨?_, fun impossible => Bool.noConfusion impossible⟩
      rcases agrees with ⟨⟨ledger, tiers⟩, room⟩
      have rolled :=
        (tiers.roll room.le created faults (List.nodup_cons.mp distinct).1).settle goesOn
      have room' : (Node.settle (node.roll parts time created faults)).buffer.length < rollMax := by
        rw [rolled.2.1]
        exact rollMax_pos
      have flushed : (Node.settle (node.roll parts time created faults)).Agrees parts
          (time :: used) isExpired := ⟨rolled.1, room'⟩
      exact flushed.withoutTick used
  | retentionTick now dropping later moving =>
      exact ⟨agrees.upkeep now dropping later moving goesOn,
        fun impossible => Bool.noConfusion impossible⟩
  | ctrlC last =>
      have finished := agrees.finish last (List.nodup_cons.mp distinct).1 goesOn
      exact ⟨finished.1.withoutTick used, fun _ => finished.2⟩
  | edit engine =>
      have other : (node.advance parts (.edit engine)).Agrees parts used isExpired :=
        agrees.same rfl rfl rfl rfl
      exact ⟨other.withoutTick used, fun impossible => Bool.noConfusion impossible⟩
  | patch fp patch now =>
      have other : (node.advance parts (.patch fp patch now)).Agrees parts used isExpired :=
        agrees.same rfl rfl rfl rfl
      exact ⟨other.withoutTick used, fun impossible => Bool.noConfusion impossible⟩

/-- A segment was there and too old at a retention tick, while the node was running. -/
def Node.Expires (parts : Parts) (node : Node lib) (turns : List (Turn lib)) (write : Write) :
    Prop :=
  ∃ before turn after, turns = before ++ turn :: after ∧
    (node.run parts before).phase = .running ∧
    write.now ∈ before.flatMap (Turn.times parts) ∧
    ∃ now ∈ turn.ticks, TooOld parts now write

theorem Node.expires_concat (node : Node lib) (turns : List (Turn lib)) (turn : Turn lib)
    (write : Write) :
    node.Expires parts (turns ++ [turn]) write ↔ node.Expires parts turns write ∨
      (node.run parts turns).phase = .running ∧ write.now ∈ turns.flatMap (Turn.times parts) ∧
        ∃ now ∈ turn.ticks, TooOld parts now write := by
  constructor
  · rintro ⟨before, at_, after, split_, rest⟩
    rcases List.eq_nil_or_concat after with rfl | ⟨after, last, rfl⟩
    · rcases List.append_inj' split_ rfl with ⟨rfl, same⟩
      cases same
      exact Or.inr rest
    · rw [List.concat_eq_append, ← List.cons_append, ← List.append_assoc] at split_
      rcases List.append_inj' split_ rfl with ⟨rfl, -⟩
      exact Or.inl ⟨before, at_, after, rfl, rest⟩
  · rintro (⟨before, at_, after, rfl, rest⟩ | rest)
    · exact ⟨before, at_, after ++ [turn], by simp, rest⟩
    · exact ⟨turns, turn, [], rfl, rest⟩

theorem Node.run_concat (node : Node lib) (turns : List (Turn lib)) (turn : Turn lib) :
    node.run parts (turns ++ [turn]) = (node.run parts turns).turn parts turn :=
  List.foldl_concat _ _ _ _

/-- The tiers agree in every run of a node that starts on an empty disk. -/
theorem Node.start_agrees {engine : SigmaEngine lib} {rules : List CompiledCorrelation}
    {simThreshold : Ingest.Single} {cap : Nat} {coldDir : String} {archive : Option ObjectColdStore}
    {turns : List (Turn lib)} (distinct : (turns.flatMap (Turn.times parts)).Nodup)
    (goesOn : ((Node.start engine rules simThreshold cap coldDir archive).run parts turns).phase ≠
      .failed) :
    let started := Node.start engine rules simThreshold cap coldDir archive
    (started.run parts turns).Agrees parts (turns.flatMap (Turn.times parts))
        (started.Expires parts turns) ∧
      ((started.run parts turns).phase = .stopped →
        (started.run parts turns).hot.pending = [] ∧ (started.run parts turns).buffer = []) := by
  intro started
  induction turns using List.reverseRecOn with
  | nil =>
      refine ⟨⟨⟨{ claimed := [], written := [], expired := [] }, ?_⟩, rollMax_pos⟩, ?_⟩
      · exact
          { settled := settled_new parts.json coldDir archive
            claimed := List.Subset.refl _
            documents := rfl
            dirty := rfl
            batches := fun _ member => absurd member List.not_mem_nil
            expired := fun _ member => absurd member List.not_mem_nil
            since := by
              rintro write ⟨before, turn, after, nil_, -⟩
              simp at nil_ }
      · rintro ⟨⟩
  | append_singleton turns turn inductionHypothesis =>
      rw [List.flatMap_append, List.flatMap_singleton] at distinct
      rw [Node.run_concat] at goesOn
      have swapped : (turn.times parts ++ turns.flatMap (Turn.times parts)).Perm
          (turns.flatMap (Turn.times parts) ++ turn.times parts) := List.perm_append_comm
      have before : (started.run parts turns).phase ≠ .failed := by
        intro failed
        rw [Node.turn, if_neg (by rw [failed]; decide)] at goesOn
        exact goesOn failed
      rcases inductionHypothesis (List.nodup_append.mp distinct).1 before with ⟨agrees, flushed⟩
      rw [Node.run_concat, List.flatMap_append, List.flatMap_singleton]
      by_cases running : (started.run parts turns).phase = .running
      · rw [Node.turn, if_pos running] at goesOn ⊢
        rcases agrees.advance turn (swapped.nodup_iff.mpr distinct) goesOn with ⟨after, ended⟩
        have phase := (Node.advance_journal running turn goesOn).2
        refine ⟨after.mono swapped.subset fun write => ?_, fun stopped => ended ?_⟩
        · rw [Node.expires_concat, ExpiredAfter, and_iff_right running]
        · by_contra goes
          rw [if_neg goes, stopped] at phase
          exact Phase.noConfusion phase.1
      · rw [Node.turn, if_neg running]
        refine ⟨agrees.mono (List.subset_append_left _ _) fun write => ?_, flushed⟩
        rw [Node.expires_concat]
        exact ⟨Or.inl, fun old => old.elim id fun now => absurd now.1 running⟩

end Steps

/-- In every run of a node that starts on an empty disk, whose segments have different times, as
long as it has not failed: the hot index holds the events of the segments and of the buffer in the
order in which they arrived; the cold tier shows every segment but exactly those that were there
and too old at a retention tick, whatever has been migrated; what has not been committed is
counted, the buffer is not full, and a node that has stopped has committed and written all. -/
theorem Node.tiers_agree (parts : Parts) (engine : SigmaEngine lib)
    (rules : List CompiledCorrelation) (simThreshold : Ingest.Single) (cap : Nat) (coldDir : String)
    (archive : Option ObjectColdStore) (turns : List (Turn lib))
    (distinct : (turns.flatMap (Turn.times parts)).Nodup)
    (goesOn : ((Node.start engine rules simThreshold cap coldDir archive).run parts turns).phase ≠
      .failed) :
    let started := Node.start engine rules simThreshold cap coldDir archive
    let node := started.run parts turns
    ∃ (segments : List Write) (expired : List String),
      segments.flatMap Write.events ++ node.buffer = node.hot.documents ∧
      node.hot.documents = (started.journal.noteAll parts (entries parts true turns)).documents ∧
      (∀ start stop, node.machine.store.readRange parts.json start stop =
        .ok ((segments.filter fun write => write.id ∉ expired).flatMap fun write =>
          Index.inRange start stop (write.events.map (stored parts.json)))) ∧
      (∀ write ∈ segments, write.id ∈ expired ↔ started.Expires parts turns write) ∧
      node.dirty = node.hot.pending.length ∧ node.buffer.length < rollMax ∧
      (node.phase = .stopped → node.hot.pending = [] ∧ node.buffer = []) := by
  intro started node
  rcases Node.start_agrees distinct goesOn with ⟨⟨⟨ledger, tiers⟩, room⟩, stopped⟩
  have journal := Node.run_journal rfl turns goesOn
  exact ⟨ledger.written, ledger.expired, tiers.documents.symm, congrArg Journal.documents journal,
    tiers.settled.readRange, tiers.expired, tiers.dirty, room, stopped⟩

/-- A node that only knows one rule. -/
def plainParts : Parts where
  json := plainJson
  decoders := { fromSlice := fun _ => .error "expected value", captures := fun _ => [] }
  tables := Normalize.dottedTables
  normalizer := { tenant := "acme" }
  chain := fun event => event
  detectors := fun _ => []
  fingerprint := fun alert => alert.ruleId
  sigmaActive := true
  servesLong := true
  retention := none
  warm := none

/-- A disk that works. -/
def fine : Faults where
  created := .done
  unlinks := fun _ => .done
  saved := .done

/-- What an event meets when all goes well. -/
def calm (rolled : Int64) : Outside where
  id := "e"
  now := 1
  clock := 1
  recorded := fun _ => 1
  added := true
  rolled := rolled
  created := rolled
  faults := fine

/-- One event of an agent, and the signal to stop. -/
def oneTelemetry : List (Turn asciiLibraries) :=
  [.telemetry (agentEvent (some "web01")) (calm 7), .commitTick true, .rolloverTick 8 8 fine,
    .ctrlC { committed := true, rolled := 9, created := 9, faults := fine }]

/-- A node that keeps events for ten microseconds. -/
def keeping : Parts :=
  { plainParts with retention := some 10 }

/-- An archive that works. -/
def noOutages : Outages where
  objects := fun _ => .done
  faults := fun _ => fine

/-- A segment is written and grows too old, before the next event comes. -/
def twoTelemetry : List (Turn asciiLibraries) :=
  [.telemetry (agentEvent (some "web01")) (calm 7), .rolloverTick 8 8 fine,
    .retentionTick 100 noOutages 100 noOutages,
    .telemetry { agentEvent none with ts := 95 } (calm 9),
    .ctrlC { committed := true, rolled := 10, created := 10, faults := fine }]

theorem Node.tiers_agree_twoTelemetry :
    let node :=
      (Node.start ⟨[startRule]⟩ [] (.finite (1 / 2)) 10 "cold" none).run keeping twoTelemetry
    node.hot.documents.length = 2 ∧
      ∃ (segments : List Write) (expired : List String),
        segments.flatMap Write.events = node.hot.documents ∧
        ((segments.filter fun write => write.id ∉ expired).flatMap fun write =>
          Index.inRange 0 100 (write.events.map (stored keeping.json))).map Event.ts = [95] := by
  intro node
  have shown :
      (node.machine.store.readRange keeping.json 0 100).map (List.map Event.ts) = .ok [95] := by
    decide +kernel
  rcases Node.tiers_agree keeping ⟨[startRule]⟩ [] (.finite (1 / 2)) 10 "cold" none twoTelemetry
    (by decide) (by decide +kernel) with ⟨segments, expired, same, _, read, _, _, _, stopped⟩
  refine ⟨by decide +kernel, segments, expired, ?_, ?_⟩
  · rw [← same, (stopped (by decide +kernel)).2, List.append_nil]
  · rw [read 0 100] at shown
    exact Except.ok.inj shown

end Cli
end Sigil
