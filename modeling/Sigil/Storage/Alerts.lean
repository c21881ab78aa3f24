import Sigil.Library.Serial
import Sigil.Storage.Saved

namespace Sigil
namespace Storage

/-!
# Alerts and their triage

An alert is stored under its fingerprint, with what analysts have made of it.  A call that
inserts or patches an alert reads it in one transaction and writes it in another one, so
the calls of several threads meet between the two.

The triage of an alert is what the calls are about.  On the triage alone a call has an
atomic effect, and a run is serial when the effects of its calls, one after the other, give
the answers and the stored triage.
-/

open Sigil.Core Library

/-- Triage state of an alert. -/
inductive TriageStatus where
  | opened
  | acknowledged
  | closed
  deriving DecidableEq, Repr

/-- A note of an analyst. -/
structure Note where
  ts : Int
  author : String
  text : String
  deriving DecidableEq, Repr

/-- An alert and its triage. -/
structure AlertRecord where
  fingerprint : String
  alert : Alert
  status : TriageStatus
  assignee : Option String
  notes : List Note
  createdTs : Int
  updatedTs : Int
  deriving DecidableEq, Repr

/-- What a patch sets; an assignee is set or cleared. -/
structure AlertPatch where
  status : Option TriageStatus := none
  assignee : Option (Option String) := none
  note : Option Note := none
  deriving DecidableEq, Repr

/-- A fresh alert; the hash that gives its fingerprint is not specified. -/
def AlertRecord.new (fingerprint : Alert → String) (now : Int) (alert : Alert) : AlertRecord where
  fingerprint := fingerprint alert
  alert := alert
  status := .opened
  assignee := none
  notes := []
  createdTs := now
  updatedTs := now

/-- The patched record. -/
def AlertPatch.apply (patch : AlertPatch) (now : Int) (rec : AlertRecord) : AlertRecord :=
  { rec with
    status := patch.status.getD rec.status
    assignee := patch.assignee.getD rec.assignee
    notes := rec.notes ++ patch.note.toList
    updatedTs := now }

/-- The rows of the table, as they parse.  Each record is under its own fingerprint, since
it is written there. -/
structure AlertTable where
  rows : AList fun _ : String => Option AlertRecord
  keyed : ∀ fp rec, rows.lookup fp = some (some rec) → rec.fingerprint = fp

namespace AlertTable

def writeAlert (table : AlertTable) (rec : AlertRecord) : AlertTable where
  rows := table.rows.insert rec.fingerprint (some rec)
  keyed := by
    intro fp stored found
    by_cases same : fp = rec.fingerprint
    · subst same
      rw [AList.lookup_insert] at found
      cases found
      rfl
    · rw [AList.lookup_insert_ne same] at found
      exact table.keyed fp stored found

/-- Fetch one alert. -/
def getAlert (table : AlertTable) (fp : String) : Except StoreError (Option AlertRecord) :=
  match table.rows.lookup fp with
  | none => .ok none
  | some none => .error (.unparsable fp)
  | some (some rec) => .ok (some rec)

end AlertTable

/-! ## Calls of several threads -/

inductive AlertCall where
  | patchAlert (fp : String) (patch : AlertPatch)
  | upsertAlert (alert : Alert)
  deriving DecidableEq, Repr

/-- A call that has not begun, and a call between its two transactions. -/
inductive AlertTask where
  | waiting (call : AlertCall)
  | patching (fp : String) (patch : AlertPatch) (found : AlertRecord)
  | inserting (alert : Alert)
  deriving DecidableEq, Repr

section Transactions

variable (fingerprint : Alert → String)

/-- The first transaction, after which a call goes on or returns. -/
def AlertCall.read (table : AlertTable) : AlertCall →
    Except StoreError (AlertTask ⊕ Option AlertRecord)
  | .patchAlert fp patch =>
      (table.getAlert fp).map fun
        | none => .inr none
        | some found => .inl (.patching fp patch found)
  | .upsertAlert alert =>
      (table.getAlert (fingerprint alert)).map fun
        | some existing => .inr (some existing)
        | none => .inl (.inserting alert)

/-- The record that a call writes in its second transaction and returns. -/
def AlertTask.written (now : Int) : AlertTask → Option (AlertCall × AlertRecord)
  | .waiting _ => none
  | .patching fp patch found => some (.patchAlert fp patch, patch.apply now found)
  | .inserting alert => some (.upsertAlert alert, AlertRecord.new fingerprint now alert)

/-- The table, the calls under way, and the calls that have returned a result, with it; a
call of `upsertAlert` always has a record. -/
structure AlertCalls where
  table : AlertTable
  running : List AlertTask
  returned : List (AlertCall × Option AlertRecord)

/-- A new call, a transaction of a call at the time of the clock, and a transaction that
fails without effect. -/
inductive AlertTurn where
  | call (call : AlertCall)
  | read (task : Nat)
  | write (task : Nat) (now : Int)
  | fail (task : Nat)
  deriving DecidableEq, Repr

def AlertCalls.next (state : AlertCalls) : AlertTurn → Option AlertCalls
  | .call call => some { state with running := state.running ++ [.waiting call] }
  | .read task =>
      match state.running[task]? with
      | some (.waiting call) =>
          match call.read fingerprint state.table with
          | .error _ => some { state with running := state.running.eraseIdx task }
          | .ok (.inl between) => some { state with running := state.running.set task between }
          | .ok (.inr answer) =>
              some
                { state with
                  running := state.running.eraseIdx task
                  returned := state.returned ++ [(call, answer)] }
      | _ => none
  | .write task now =>
      match state.running[task]?.bind (AlertTask.written fingerprint now) with
      | some (call, rec) =>
          some
            { table := state.table.writeAlert rec
              running := state.running.eraseIdx task
              returned := state.returned ++ [(call, some rec)] }
      | none => none
  | .fail task =>
      if task < state.running.length then
        some { state with running := state.running.eraseIdx task }
      else none

/-- Any number of calls in any order of their transactions. -/
def alertCalls : TransitionSystem AlertCalls AlertTurn where
  init := fun state => state.running = [] ∧ state.returned = []
  step := fun before turn after => before.next fingerprint turn = some after

end Transactions

/-! ## The triage of an alert -/

/-- What analysts have made of an alert. -/
structure Triage where
  status : TriageStatus
  assignee : Option String
  notes : List Note
  deriving DecidableEq, Repr

namespace Triage

def new : Triage where
  status := .opened
  assignee := none
  notes := []

/-- One patch. -/
def patch (triage : Triage) (patch : AlertPatch) : Triage where
  status := patch.status.getD triage.status
  assignee := patch.assignee.getD triage.assignee
  notes := triage.notes ++ patch.note.toList

/-- The last status and the last assignee that the patches set, and all their notes. -/
def patched (triage : Triage) (patches : List AlertPatch) : Triage where
  status := (patches.filterMap AlertPatch.status).getLast?.getD triage.status
  assignee := (patches.filterMap AlertPatch.assignee).getLast?.getD triage.assignee
  notes := triage.notes ++ patches.filterMap AlertPatch.note

theorem patched_nil (triage : Triage) : triage.patched [] = triage := by
  simp only [patched, List.filterMap_nil, List.append_nil]
  rfl

theorem getLast?_filterMap_cons {α β : Type} (f : α → Option β) (first : α)
    (rest : List α) (b : β) : ((first :: rest).filterMap f).getLast?.getD b =
      (rest.filterMap f).getLast?.getD ((f first).getD b) := by
  rw [List.filterMap_cons]
  cases f first with
  | none => rfl
  | some c =>
      dsimp only
      rw [List.getLast?_cons]
      rfl

theorem patched_cons (triage : Triage) (first : AlertPatch) (rest : List AlertPatch) :
    triage.patched (first :: rest) = (triage.patch first).patched rest := by
  have notes : (first :: rest).filterMap AlertPatch.note =
      first.note.toList ++ rest.filterMap AlertPatch.note := by
    rw [List.filterMap_cons]
    cases first.note <;> rfl
  rw [patched, patched, getLast?_filterMap_cons, getLast?_filterMap_cons, notes,
    ← List.append_assoc]
  rfl

end Triage

def AlertRecord.triage (rec : AlertRecord) : Triage where
  status := rec.status
  assignee := rec.assignee
  notes := rec.notes

/-- The triage of every stored alert. -/
def AlertTable.triages (table : AlertTable) (fp : String) : Option Triage :=
  (table.rows.lookup fp).join.map AlertRecord.triage

/-- What a call does to the triage when no other one comes in between. -/
def AlertCall.effect (fingerprint : Alert → String) (triages : String → Option Triage) :
    AlertCall → (String → Option Triage) × Option Triage
  | .patchAlert fp patch =>
      match triages fp with
      | none => (triages, none)
      | some triage =>
          (Function.update triages fp (some (triage.patch patch)), some (triage.patch patch))
  | .upsertAlert alert =>
      match triages (fingerprint alert) with
      | none => (Function.update triages (fingerprint alert) (some .new), some .new)
      | some triage => (triages, some triage)

/-- The calls that have returned, with the triage that they have answered. -/
def AlertCalls.answers (state : AlertCalls) : List (AlertCall × Option Triage) :=
  state.returned.map fun entry => (entry.1, entry.2.map AlertRecord.triage)

/-- The patches of an alert that were successful. -/
def patchesOn (fp : String) (answers : List (AlertCall × Option Triage)) : List AlertPatch :=
  answers.filterMap fun
    | (.patchAlert other patch, some _) => if other = fp then some patch else none
    | _ => none

/-- The calls that have returned took effect one after the other in some order: the stored
triage of every alert has the last status and the last assignee that a successful patch has
set, and the notes of all of them. -/
def AlertCalls.Serial (fingerprint : Alert → String) (table : AlertTable)
    (state : AlertCalls) : Prop :=
  ∃ order, order.Perm state.answers ∧
    Replays (AlertCall.effect fingerprint) table.triages order state.table.triages ∧
    ∀ fp, (table.triages fp).isSome = true ∨ patchesOn fp order ≠ [] →
      state.table.triages fp = some (((table.triages fp).getD .new).patched (patchesOn fp order))

/-- A turn in which an upsert writes. -/
def AlertCalls.Upserts (state : AlertCalls) : AlertTurn → Prop
  | .write task _ => ∃ alert, state.running[task]? = some (.inserting alert)
  | _ => False

/-! ## The condition -/

/-- What a call between its transactions has read is still what it needs: a patch has the
stored notes, and the stored status and assignee unless it sets them, and where an upsert
has found nothing there is still no alert or a fresh one. -/
def AlertTask.Current (fingerprint : Alert → String) (table : AlertTable) : AlertTask → Prop
  | .waiting _ => True
  | .patching fp patch found => ∀ stored, table.triages fp = some stored →
      found.notes = stored.notes ∧ (patch.status = none → found.status = stored.status) ∧
        (patch.assignee = none → found.assignee = stored.assignee)
  | .inserting alert =>
      ∀ stored, table.triages (fingerprint alert) = some stored → stored = .new

/-- A call writes only when what it has read is current. -/
def AlertCalls.Careful (fingerprint : Alert → String) (state : AlertCalls) : AlertTurn → Prop
  | .write task _ => ∀ between, state.running[task]? = some between →
      between.Current fingerprint state.table
  | _ => True

instance (fingerprint : Alert → String) (table : AlertTable) :
    (between : AlertTask) → Decidable (between.Current fingerprint table)
  | .waiting _ => .isTrue trivial
  | .patching fp patch found =>
      inferInstanceAs (Decidable (∀ stored ∈ table.triages fp, found.notes = stored.notes ∧
        (patch.status = none → found.status = stored.status) ∧
          (patch.assignee = none → found.assignee = stored.assignee)))
  | .inserting alert =>
      inferInstanceAs (Decidable (∀ stored ∈ table.triages (fingerprint alert), stored = .new))

instance (fingerprint : Alert → String) (state : AlertCalls) :
    (turn : AlertTurn) → Decidable (state.Careful fingerprint turn)
  | .call _ => .isTrue trivial
  | .read _ => .isTrue trivial
  | .fail _ => .isTrue trivial
  | .write task _ =>
      inferInstanceAs (Decidable (∀ between ∈ state.running[task]?,
        between.Current fingerprint state.table))

/-! ## Replays patch by patch -/

section Replay

variable {fingerprint : Alert → String} {first last : String → Option Triage}
  {order : List (AlertCall × Option Triage)} {fp : String}

theorem patchesOn_cons_of_none {entry : AlertCall × Option Triage}
    (silent : patchesOn fp [entry] = []) : patchesOn fp (entry :: order) = patchesOn fp order := by
  have split : patchesOn fp (entry :: order) = patchesOn fp [entry] ++ patchesOn fp order :=
    List.filterMap_append (l := [entry])
  rw [split, silent, List.nil_append]

/-- What a call makes of an alert: a patch of it is applied or, if nothing is there, does not
succeed; an upsert leaves it, or makes it a fresh one; any other call leaves it. -/
theorem effect_at (triages : String → Option Triage) (call : AlertCall) (fp : String) :
    (∃ patch triage, triages fp = some triage ∧
      ((call.effect fingerprint triages).1 fp = some (triage.patch patch) ∧
        patchesOn fp [(call, (call.effect fingerprint triages).2)] = [patch])) ∨
    (patchesOn fp [(call, (call.effect fingerprint triages).2)] = [] ∧
      ((call.effect fingerprint triages).1 fp = triages fp ∨
        triages fp = none ∧ (call.effect fingerprint triages).1 fp = some .new)) := by
  cases call with
  | patchAlert other patch =>
      rw [AlertCall.effect]
      by_cases same : other = fp
      · subst same
        cases here : triages other with
        | none => exact .inr ⟨rfl, .inl here⟩
        | some triage =>
            refine .inl ⟨patch, triage, rfl, Function.update_self _ _ _, ?_⟩
            rw [patchesOn, List.filterMap_cons]
            dsimp only
            rw [if_pos rfl]
            rfl
      · cases triages other with
        | none => exact .inr ⟨rfl, .inl rfl⟩
        | some triage =>
            refine .inr ⟨?_, .inl (Function.update_of_ne (Ne.symm same) _ _)⟩
            rw [patchesOn, List.filterMap_cons]
            dsimp only
            rw [if_neg same]
            rfl
  | upsertAlert alert =>
      rw [AlertCall.effect]
      by_cases same : fingerprint alert = fp
      · subst same
        cases here : triages (fingerprint alert) with
        | none => exact .inr ⟨rfl, .inr ⟨rfl, Function.update_self _ _ _⟩⟩
        | some triage => exact .inr ⟨rfl, .inl here⟩
      · cases triages (fingerprint alert) with
        | none => exact .inr ⟨rfl, .inl (Function.update_of_ne (Ne.symm same) _ _)⟩
        | some triage => exact .inr ⟨rfl, .inl rfl⟩

/-- An alert that is stored at first has in the end what the patches of it have set. -/
theorem replays_patched (replays : Replays (AlertCall.effect fingerprint) first order last)
    {triage : Triage} (stored : first fp = some triage) :
    last fp = some (triage.patched (patchesOn fp order)) := by
  induction order generalizing first triage with
  | nil =>
      have same : last = first := replays
      rw [same, stored]
      exact congrArg some triage.patched_nil.symm
  | cons entry order inductionHypothesis =>
      rcases entry with ⟨call, answer⟩
      rcases replays with ⟨rfl, rest⟩
      rcases effect_at first call fp with
        ⟨patch, found, here, after, counted⟩ | ⟨silent, change⟩
      · rw [stored] at here
        cases here
        have both : patchesOn fp ((call, (call.effect fingerprint first).2) :: order) =
            [patch] ++ patchesOn fp order := by
          rw [← counted]
          exact List.filterMap_append (l := [_])
        rw [both, List.singleton_append, Triage.patched_cons]
        exact inductionHypothesis rest after
      · rw [patchesOn_cons_of_none silent]
        rcases change with same | ⟨missing, _⟩
        · exact inductionHypothesis rest (same.trans stored)
        · rw [stored] at missing
          cases missing

/-- An alert of which a patch was successful is fresh before the first of them. -/
theorem replays_patched_new
    (replays : Replays (AlertCall.effect fingerprint) first order last)
    (missing : first fp = none) (some_patch : patchesOn fp order ≠ []) :
    last fp = some (Triage.new.patched (patchesOn fp order)) := by
  induction order generalizing first with
  | nil => exact absurd rfl some_patch
  | cons entry order inductionHypothesis =>
      rcases entry with ⟨call, answer⟩
      rcases replays with ⟨rfl, rest⟩
      rcases effect_at first call fp with ⟨_, _, here, _⟩ | ⟨silent, change⟩
      · rw [missing] at here
        cases here
      · rw [patchesOn_cons_of_none silent] at some_patch ⊢
        rcases change with same | ⟨_, fresh⟩
        · exact inductionHypothesis rest (same.trans missing) some_patch
        · exact replays_patched rest fresh

end Replay

/-! ## Careful runs are serial -/

/-- What a call between its transactions has found is still in its row, if not as it was. -/
def AlertTask.Sound (table : AlertTable) : AlertTask → Prop
  | .waiting _ => True
  | .patching fp _ found => found.fingerprint = fp ∧ (table.triages fp).isSome = true
  | .inserting _ => True

section Runs

variable {fingerprint : Alert → String} {table : AlertTable} {state after : AlertCalls}
  {turn : AlertTurn}

theorem triages_writeAlert (rec : AlertRecord) :
    (table.writeAlert rec).triages =
      Function.update table.triages rec.fingerprint (some rec.triage) := by
  funext fp
  by_cases same : fp = rec.fingerprint
  · subst same
    rw [Function.update_self, AlertTable.triages, AlertTable.writeAlert, AList.lookup_insert]
    rfl
  · rw [Function.update_of_ne same, AlertTable.triages, AlertTable.writeAlert,
      AList.lookup_insert_ne same]
    rfl

theorem AlertTask.Sound.writeAlert {between : AlertTask} (sound : between.Sound table)
    (rec : AlertRecord) : between.Sound (table.writeAlert rec) := by
  cases between with
  | waiting call => trivial
  | inserting alert => trivial
  | patching fp patch found =>
      refine ⟨sound.1, ?_⟩
      rw [triages_writeAlert]
      by_cases same : fp = rec.fingerprint
      · subst same
        rw [Function.update_self]
        rfl
      · rw [Function.update_of_ne same]
        exact sound.2

/-- The first transaction: it fails, returns with the effect of the call, or goes on. -/
theorem read_effect (call : AlertCall) :
    match call.read fingerprint table with
    | .error _ => True
    | .ok (.inl between) => between.Sound table
    | .ok (.inr answer) => call.effect fingerprint table.triages =
        (table.triages, answer.map AlertRecord.triage) := by
  cases call with
  | patchAlert fp patch =>
      rw [AlertCall.read, AlertCall.effect, AlertTable.getAlert, AlertTable.triages]
      cases found : table.rows.lookup fp with
      | none => rfl
      | some row =>
          cases row with
          | none => trivial
          | some rec =>
              refine ⟨table.keyed fp rec found, ?_⟩
              rw [AlertTable.triages, found]
              rfl
  | upsertAlert alert =>
      rw [AlertCall.read, AlertCall.effect, AlertTable.getAlert, AlertTable.triages]
      cases found : table.rows.lookup (fingerprint alert) with
      | none => trivial
      | some row =>
          cases row with
          | none => trivial
          | some rec => rfl

/-- The second transaction of a call that has read what is current has the effect of the call. -/
theorem written_effect {between : AlertTask} {now : Int} {call : AlertCall} {rec : AlertRecord}
    (sound : between.Sound table) (current : between.Current fingerprint table)
    (writes : between.written fingerprint now = some (call, rec)) :
    call.effect fingerprint table.triages =
      ((table.writeAlert rec).triages, some rec.triage) := by
  rw [triages_writeAlert]
  cases between with
  | waiting call => cases writes
  | patching fp patch found =>
      cases writes
      rcases sound with ⟨rfl, isSome⟩
      rcases Option.isSome_iff_exists.mp isSome with ⟨stored, here⟩
      rcases current stored here with ⟨notes, status, assignee⟩
      have same : (patch.apply now found).triage = stored.patch patch := by
        rw [AlertPatch.apply, AlertRecord.triage, Triage.patch, notes]
        congr 1
        · cases sets : patch.status with
          | none => exact status sets
          | some value => rfl
        · cases sets : patch.assignee with
          | none => exact assignee sets
          | some value => rfl
      rw [AlertCall.effect, here, same]
      rfl
  | inserting alert =>
      cases writes
      rw [AlertCall.effect]
      cases here : table.triages (fingerprint alert) with
      | none => rfl
      | some stored =>
          cases current stored here
          have unchanged : Function.update table.triages (fingerprint alert) (some .new) =
              table.triages := by
            rw [← here]
            exact Function.update_eq_self _ _
          exact Prod.ext unchanged.symm rfl

/-- What is between its transactions is sound. -/
def AlertCalls.Sound (state : AlertCalls) : Prop :=
  ∀ between, between ∈ state.running → between.Sound state.table

/-- A turn keeps the calls sound; it changes no triage and answers nothing, or it answers
one call with the effect of that call. -/
theorem next_effect (sound : state.Sound) (careful : state.Careful fingerprint turn)
    (step : state.next fingerprint turn = some after) :
    after.Sound ∧
      ((after.table.triages = state.table.triages ∧ after.answers = state.answers) ∨
      ∃ call : AlertCall,
        after.table.triages = (call.effect fingerprint state.table.triages).1 ∧
        after.answers = state.answers ++
          [(call, (call.effect fingerprint state.table.triages).2)]) := by
  have rest :
      ∀ task between, between ∈ state.running.eraseIdx task → between.Sound state.table :=
    fun task between member => sound between (List.mem_of_mem_eraseIdx member)
  cases turn with
  | call call =>
      cases step
      refine ⟨fun between member => ?_, .inl ⟨rfl, rfl⟩⟩
      rcases List.mem_append.mp member with old | new
      · exact sound between old
      · rw [List.mem_singleton.mp new]
        trivial
  | fail task =>
      rw [AlertCalls.next] at step
      split at step
      · cases step
        exact ⟨rest task, .inl ⟨rfl, rfl⟩⟩
      · cases step
  | read task =>
      rw [AlertCalls.next] at step
      split at step
      · next call isTask =>
          have effect := @read_effect fingerprint state.table call
          split at step
          · cases step
            exact ⟨rest task, .inl ⟨rfl, rfl⟩⟩
          · next between isRead =>
              cases step
              rw [isRead] at effect
              refine ⟨fun other member => ?_, .inl ⟨rfl, rfl⟩⟩
              rcases List.mem_or_eq_of_mem_set member with old | rfl
              · exact sound other old
              · exact effect
          · next answer isRead =>
              cases step
              rw [isRead] at effect
              refine ⟨rest task, .inr ⟨call, ?_, ?_⟩⟩
              · rw [effect]
              · rw [effect]
                exact List.map_append
      · cases step
  | write task now =>
      rw [AlertCalls.next] at step
      split at step
      · next call rec isWritten =>
          cases step
          rcases Option.bind_eq_some_iff.mp isWritten with ⟨between, isTask, writes⟩
          have effect := written_effect (sound between (List.mem_of_getElem? isTask))
            (careful between isTask) writes
          refine ⟨fun other member => (rest task other member).writeAlert rec,
            .inr ⟨call, ?_, ?_⟩⟩
          · rw [effect]
          · rw [effect]
            exact List.map_append
      · cases step

/-- In every run in which calls write only when what they have read is current, the calls
take effect one after the other, and no upsert changes the triage of a stored alert. -/
theorem careful_serial (fingerprint : Alert → String) (table : AlertTable) (state : AlertCalls)
    (run : ((alertCalls fingerprint).restrict (AlertCalls.Careful fingerprint)).Reaches
      { table := table, running := [], returned := [] } state) :
    state.Serial fingerprint table ∧
      ∀ turn after, state.Upserts turn → state.Careful fingerprint turn →
        state.next fingerprint turn = some after → ∀ fp triage,
          state.table.triages fp = some triage → after.table.triages fp = some triage := by
  have initially : AlertCalls.Sound { table := table, running := [], returned := [] } :=
    fun _ member => absurd member List.not_mem_nil
  refine ⟨⟨state.answers, .refl _, ?_⟩, ?_⟩
  · have replays : Replays (AlertCall.effect fingerprint) table.triages state.answers
        state.table.triages := by
      refine TransitionSystem.Reaches.replays (fun state => state.table.triages)
        AlertCalls.answers AlertCalls.Sound ?_ ?_ run initially rfl
      · exact fun before turn after sound step => (next_effect sound step.1 step.2).1
      · exact fun before turn after sound step => (next_effect sound step.1 step.2).2
    refine ⟨replays, fun fp present => ?_⟩
    cases here : table.triages fp with
    | some triage => exact replays_patched replays here
    | none =>
        rw [here] at present
        rcases present with absent | patched
        · cases absent
        · exact replays_patched_new replays here patched
  · intro turn after upserts careful step fp triage stored
    cases turn with
    | call call => cases upserts
    | read task => cases upserts
    | fail task => cases upserts
    | write task now =>
        rcases upserts with ⟨alert, isTask⟩
        rw [AlertCalls.next, isTask] at step
        cases step
        change (state.table.writeAlert _).triages fp = some triage
        rw [triages_writeAlert]
        by_cases same : fp = fingerprint alert
        · subst same
          rw [careful _ isTask triage stored]
          exact Function.update_self _ _ _
        · exact (Function.update_of_ne same _ _).trans stored

end Runs

/-! ## Two patches of one alert -/

def sudoAlert : Alert where
  ruleId := "a2c4e6f8-sudo-root"
  title := "Sudo Command Executed As Root"
  severity := .low
  technique := some "T1548.003"
  events := ["ev-1"]
  ts := 100

/-- A hash of the alert. -/
def sudoPrint (alert : Alert) : String :=
  alert.ruleId ++ "-" ++ String.join alert.events

def noAlerts : AlertTable where
  rows := ∅
  keyed := fun fp _ found => by cases (AList.lookup_empty fp).symm.trans found

def oneAlert : AlertTable :=
  noAlerts.writeAlert (.new sudoPrint 200 sudoAlert)

def acknowledge : AlertCall :=
  .patchAlert (sudoPrint sudoAlert) { status := some .acknowledged }

def close : AlertCall :=
  .patchAlert (sudoPrint sudoAlert) { status := some .closed }

def comment : AlertCall :=
  .patchAlert (sudoPrint sudoAlert) { note := some ⟨300, "ann", "known host"⟩ }

/-- Both calls read before either of them writes. -/
def meeting (first second : AlertCall) : List AlertTurn :=
  [.call first, .call second, .read 0, .read 1, .write 0 310, .write 0 320]

/-- An upsert and then two patches that meet and set the same field. -/
theorem careful_serial_meeting :
    ∃ state, TransitionSystem.follow (TransitionSystem.guarded (AlertCalls.Careful sudoPrint)
        (AlertCalls.next sudoPrint)) { table := noAlerts, running := [], returned := [] }
        ([.call (.upsertAlert sudoAlert), .read 0, .write 0 200] ++ meeting acknowledge close) =
          some state ∧
      (state.table.triages (sudoPrint sudoAlert)).map Triage.status = some .closed ∧
      state.Serial sudoPrint noAlerts := by
  have closes : ((TransitionSystem.follow (TransitionSystem.guarded (AlertCalls.Careful sudoPrint)
      (AlertCalls.next sudoPrint)) { table := noAlerts, running := [], returned := [] }
      ([.call (.upsertAlert sudoAlert), .read 0, .write 0 200] ++ meeting acknowledge close)).map
        fun state => (state.table.triages (sudoPrint sudoAlert)).map Triage.status) =
          some (some .closed) := by decide +kernel
  rcases Option.map_eq_some_iff.mp closes with ⟨state, followed, closed⟩
  have run : ((alertCalls sudoPrint).restrict (AlertCalls.Careful sudoPrint)).Reaches
      { table := noAlerts, running := [], returned := [] } state :=
    TransitionSystem.Reaches.of_guarded (fun _ _ _ step => step) followed
  exact ⟨state, followed, closed, (careful_serial sudoPrint noAlerts state run).1⟩

/-- The second of two patches that meet takes the status of the first one back. -/
theorem not_serial :
    ¬ ∀ (fingerprint : Alert → String) (table : AlertTable) (state : AlertCalls),
      (alertCalls fingerprint).Reaches { table := table, running := [], returned := [] } state →
        state.running = [] → state.Serial fingerprint table := by
  intro all
  have opens : ((TransitionSystem.follow (AlertCalls.next sudoPrint)
      { table := oneAlert, running := [], returned := [] } (meeting acknowledge comment)).map
        fun state => (state.running,
          patchesOn (sudoPrint sudoAlert) state.answers,
          (state.table.triages (sudoPrint sudoAlert)).map Triage.status)) =
      some ([],
        [{ status := some .acknowledged }, { note := some ⟨300, "ann", "known host"⟩ }],
        some .opened) := by decide +kernel
  rcases Option.map_eq_some_iff.mp opens with ⟨state, followed, equal⟩
  rcases Prod.mk.inj equal with ⟨idle, equal⟩
  rcases Prod.mk.inj equal with ⟨patches, opened⟩
  have run :
      (alertCalls sudoPrint).Reaches { table := oneAlert, running := [], returned := [] } state :=
    TransitionSystem.Reaches.of_follow (fun _ _ _ step => step) followed
  rcases all sudoPrint oneAlert state run idle with ⟨order, perm, _, shows⟩
  have isStored : (oneAlert.triages (sudoPrint sudoAlert)).isSome = true := by decide +kernel
  rw [shows (sudoPrint sudoAlert) (.inl isStored)] at opened
  have same : (patchesOn (sudoPrint sudoAlert) order).Perm
      (patchesOn (sudoPrint sudoAlert) state.answers) := perm.filterMap _
  rw [patches] at same
  have statuses : ((patchesOn (sudoPrint sudoAlert) order).filterMap AlertPatch.status).Perm
      [.acknowledged] := same.filterMap AlertPatch.status
  have status : (some ((((patchesOn (sudoPrint sudoAlert) order).filterMap
      AlertPatch.status).getLast?).getD _)) = some TriageStatus.opened := opened
  rw [List.perm_singleton.mp statuses] at status
  cases status

end Storage
end Sigil
