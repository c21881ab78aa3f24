import Sigil.Agent.Collectors
import Sigil.Agent.Session

namespace Sigil
namespace Agent

/-!
# The inventory of a host

The collectors run on a thread of their own, which puts every event into the channel of the
sessions before it polls the next collector.  Who knows the processes of the first poll and hears
all events knows the processes of every later poll.
-/

open Sigil.Core Sigil.Library
open Sigil.Edr (EndpointEvent EventKind)

/-- The collectors that the configuration enables; the one for files also needs its watcher. -/
structure CollectorsConfig where
  process : Bool
  file : Bool
  network : Bool
  persistence : Bool

/-- The enabled collectors in the order in which they are polled. -/
def CollectorsConfig.collectors (cfg : CollectorsConfig) : List Collector :=
  (if cfg.process then [.process .default] else []) ++ (if cfg.file then [.file] else []) ++
    (if cfg.network then [.network .new] else []) ++
    if cfg.persistence then [.persistence .new] else []

/-- The thread of the collectors and the link.  The last field is not part of the program: the
process tables that the collectors have been shown. -/
structure Sensors where
  collectors : List Collector
  turn : Nat
  outbox : List EndpointEvent
  link : Link EndpointEvent
  tables : List ProcessTable

/-- What can happen next. -/
inductive SensorEvent where
  | poll (sight : Sight)
  | send
  | link (event : LinkEvent EndpointEvent)

/-- The event ends no session. -/
def SensorEvent.isCalm : SensorEvent → Bool
  | .poll _ | .send => true
  | .link (.recv sent) => sent
  | .link (.connect _) => true
  | .link _ => false

/-- Shown the processes, if it looks at them. -/
def Collector.shown : Collector → Sight → List ProcessTable
  | .process _, sight => [sight.processes]
  | .file, _ => []
  | .network _, _ => []
  | .persistence _, _ => []

namespace Sensors

def start (cfg : CollectorsConfig) : Sensors where
  collectors := cfg.collectors
  turn := 0
  outbox := []
  link := Link.start
  tables := []

/-- Events come from the thread only, and the channel is closed only when there is none. -/
def allows (s : Sensors) : LinkEvent EndpointEvent → Bool
  | .arrive _ => false
  | .leave => s.collectors.isEmpty
  | _ => true

def step (identity : AgentIdentity) (batchSize : Nat) (s : Sensors) : SensorEvent → Option Sensors
  | .poll sight =>
      match s.outbox, s.collectors[s.turn]? with
      | [], some collector =>
          some
            { s with
              collectors := s.collectors.set s.turn (collector.poll sight).1
              turn := (s.turn + 1) % s.collectors.length
              outbox := (collector.poll sight).2
              tables := s.tables ++ collector.shown sight }
      | _, _ => none
  | .send =>
      match s.outbox with
      | [] => none
      | ev :: rest =>
          (s.link.step identity batchSize (.arrive ev)).map fun link =>
            { s with outbox := rest, link := link }
  | .link event =>
      if s.allows event then
        (s.link.step identity batchSize event).map fun link => { s with link := link }
      else none

/-- The step ends no session that has events. -/
def Harmless (batchSize : Nat) (s : Sensors) : SensorEvent → Prop
  | .link event => s.link.Harmless batchSize event
  | _ => True

theorem harmless_of_isCalm {batchSize : Nat} (s : Sensors) {event : SensorEvent}
    (calm : event.isCalm = true) : s.Harmless batchSize event := by
  cases event with
  | poll | send => trivial
  | link event =>
      cases event with
      | recv sent => exact fun _ _ _ => calm
      | connect opening => trivial
      | arrive | leave | recvNone | flush | heartbeat | down => cases calm

/-- What the collectors have reported and what has not been handed over. -/
def waiting (s : Sensors) : List EndpointEvent :=
  s.link.batch.getD [] ++ s.link.channel ++ s.outbox

end Sensors

/-- All runs of an agent. -/
def sensors (identity : AgentIdentity) (batchSize : Nat) :
    TransitionSystem Sensors SensorEvent where
  init := fun s => ∃ cfg, s = Sensors.start cfg
  step := fun before event after => before.step identity batchSize event = some after

/-! ## Changes of the processes -/

/-- What an event says about the processes. -/
def changeOf (ev : EndpointEvent) : Option (Change UInt32) :=
  match EventKind.ofWire ev.kind, ev.process with
  | .processStart, some process => some (.appears process.pid)
  | .processStop, some process => some (.vanishes process.pid)
  | _, _ => none

def changes (events : List EndpointEvent) : List (Change UInt32) :=
  events.filterMap changeOf

theorem changes_append (first second : List EndpointEvent) :
    changes (first ++ second) = changes first ++ changes second :=
  List.filterMap_append

theorem changes_map {α : Type} {event : α → EndpointEvent} {change : UInt32 → Change UInt32}
    {pid : α → UInt32} (tells : ∀ x, changeOf (event x) = some (change (pid x)))
    (list : List α) :
    changes (list.map event) = (list.map pid).map change := by
  rw [changes, List.filterMap_map, List.map_map]
  exact (congrFun (congrArg List.filterMap (funext tells)) list).trans
    (congrFun List.filterMap_eq_map' list)

/-- The stamps of the events say nothing. -/
theorem changes_stamped (stamps : Nat → Stamp) (events : List EndpointEvent) :
    changes (stamped stamps events) = changes events := by
  have same : (stamped stamps events).map changeOf = events.map changeOf := by
    refine List.ext_getElem? fun index => ?_
    rw [stamped, List.getElem?_map, List.getElem?_map, List.getElem?_mapIdx, Option.map_map]
    rfl
  have joined := congrArg (List.filterMap id) same
  rw [List.filterMap_map, List.filterMap_map] at joined
  exact joined

/-- Only the collector for processes says anything about them. -/
theorem changes_silent {α : Type} (event : α → EndpointEvent)
    (silent : ∀ x, changeOf (event x) = none) (list : List α) :
    changes (list.map event) = [] := by
  rw [changes, List.filterMap_eq_nil_iff]
  intro ev member
  rcases List.mem_map.mp member with ⟨x, _, rfl⟩
  exact silent x

namespace ProcessCollector

theorem changeOf_startEvent (sight : Sight) (info : ProcessInfo) :
    changeOf (startEvent sight info) = some (.appears info.pid) := by
  rw [startEvent]
  split <;> rfl

theorem changeOf_stopEvent (pid : UInt32) (known : Known) :
    changeOf (stopEvent pid known) = some (.vanishes pid) :=
  rfl

/-- A poll tells how the processes have changed since the last one. -/
theorem Knows.changes {c : ProcessCollector} {before : ProcessTable} (knows : c.Knows (some before))
    (sight : Sight) :
    replay before.pids (changes (c.poll sight).2) = sight.processes.pids := by
  have after := poll_knows c sight
  rw [ProcessCollector.poll, knows.1, if_pos rfl, if_pos rfl, changes_append,
    changes_map (changeOf_startEvent sight), changes_map fun _ => changeOf_stopEvent _ _]
  apply replay_difference
  · intro pid
    rw [ProcessTable.pids, ProcessTable.pids, List.mem_toFinset, List.mem_toFinset, ← knows.mem]
    constructor
    · intro started
      rcases List.mem_map.mp started with ⟨info, member, rfl⟩
      rw [List.mem_filter, decide_eq_true_eq] at member
      exact ⟨List.mem_map_of_mem member.1, member.2⟩
    · rintro ⟨isThere, wasNot⟩
      rcases List.mem_map.mp isThere with ⟨info, member, rfl⟩
      exact List.mem_map_of_mem (List.mem_filter.mpr ⟨member, decide_eq_true wasNot⟩)
  · intro pid
    rw [ProcessTable.pids, ProcessTable.pids, List.mem_toFinset, List.mem_toFinset, ← knows.mem,
      ← after.mem]
    constructor
    · intro stopped
      rcases List.mem_map.mp stopped with ⟨entry, member, rfl⟩
      rw [List.mem_filter, decide_eq_true_eq, sight.order.mem] at member
      exact ⟨List.mem_map_of_mem member.1, member.2⟩
    · rintro ⟨wasThere, isNot⟩
      rcases List.mem_map.mp wasThere with ⟨entry, member, rfl⟩
      exact List.mem_map_of_mem
        (List.mem_filter.mpr ⟨sight.order.mem.mpr member, decide_eq_true isNot⟩)

end ProcessCollector

theorem changes_file (sight : Sight) : changes (FileCollector.poll sight) = [] := by
  rw [changes, List.filterMap_eq_nil_iff]
  intro ev member
  rcases List.mem_flatMap.mp member with ⟨res, _, reported⟩
  split at reported
  · exact absurd reported List.not_mem_nil
  · split at reported
    · exact absurd reported List.not_mem_nil
    · next kind _ =>
        rcases List.mem_map.mp reported with ⟨path, _, rfl⟩
        rw [changeOf]
        split <;> first | rfl | next absent => cases absent

theorem changes_network (c : Baseline String) (sight : Sight) :
    changes (NetworkCollector.poll c sight).2 = [] := by
  rw [NetworkCollector.poll]
  split
  · rfl
  · exact changes_silent _ (fun _ => rfl) _

theorem changes_persistence (c : Baseline String) (sight : Sight) :
    changes (PersistenceCollector.poll c sight).2 = [] :=
  changes_silent _ (fun _ => rfl) _

/-! ## What has been reported -/

/-- The tables that have been shown are told by what has been reported: each by a part from the
beginning, the last one by all. -/
structure Tells (tables : List ProcessTable) (reported : List EndpointEvent) : Prop where
  nothing : tables = [] → changes reported = []
  each : ∀ {first}, tables.head? = some first → ∀ table ∈ tables, ∃ earlier,
    earlier <+: reported ∧ replay first.pids (changes earlier) = table.pids
  last_ : ∀ {first latest}, tables.head? = some first → tables.getLast? = some latest →
    replay first.pids (changes reported) = latest.pids

namespace Tells

variable {tables : List ProcessTable} {reported events : List EndpointEvent}

/-- Something else is reported. -/
theorem quiet (tells : Tells tables reported) (silent : changes events = []) :
    Tells tables (reported ++ events) where
  nothing := by
    intro empty
    rw [changes_append, silent, tells.nothing empty]
    rfl
  each := by
    intro first isFirst table member
    rcases tells.each isFirst table member with ⟨earlier, start, told⟩
    exact ⟨earlier, start.trans (List.prefix_append _ _), told⟩
  last_ := by
    intro first latest isFirst isLatest
    rw [changes_append, silent, List.append_nil]
    exact tells.last_ isFirst isLatest

/-- A table is shown, and the difference to the one before is reported. -/
theorem more (tells : Tells tables reported) {table : ProcessTable}
    (first_ : tables = [] → changes events = [])
    (differs : ∀ before, tables.getLast? = some before →
      replay before.pids (changes events) = table.pids) :
    Tells (tables ++ [table]) (reported ++ events) := by
  have all : ∀ {first}, (tables ++ [table]).head? = some first →
      replay first.pids (changes (reported ++ events)) = table.pids := by
    intro first isFirst
    rw [changes_append, replay_append]
    cases latest : tables.getLast? with
    | none =>
        have empty := List.getLast?_eq_none_iff.mp latest
        rw [empty, List.nil_append, List.head?_cons, Option.some.injEq] at isFirst
        rw [tells.nothing empty, first_ empty, isFirst]
        rfl
    | some before =>
        have nonempty : tables ≠ [] := by
          rintro rfl
          cases latest
        rw [List.head?_append_of_ne_nil _ nonempty] at isFirst
        rw [tells.last_ isFirst latest]
        exact differs before latest
  constructor
  · intro empty
    exact absurd empty (List.append_ne_nil_of_right_ne_nil _ (List.cons_ne_nil _ _))
  · intro first isFirst shown member
    rcases List.mem_append.mp member with old | new
    · have nonempty := List.ne_nil_of_mem old
      rw [List.head?_append_of_ne_nil _ nonempty] at isFirst
      rcases tells.each isFirst shown old with ⟨earlier, start, told⟩
      exact ⟨earlier, start.trans (List.prefix_append _ _), told⟩
    · rw [List.mem_singleton.mp new]
      exact ⟨_, List.prefix_refl _, all isFirst⟩
  · intro first latest isFirst isLatest
    rw [List.getLast?_concat, Option.some.injEq] at isLatest
    rw [← isLatest]
    exact all isFirst

end Tells

namespace Sensors

variable {identity : AgentIdentity} {batchSize : Nat} {s s' : Sensors}

/-- All that the collectors have reported. -/
def reported (s : Sensors) : List EndpointEvent :=
  s.link.arrived ++ s.outbox

/-- At most one collector looks at the processes; it remembers the last table, and what has been
reported tells all of them. -/
structure Mirrors (s : Sensors) : Prop where
  single : ∀ {i j : Nat} {c d : ProcessCollector},
    s.collectors[i]? = some (Collector.process c) →
    s.collectors[j]? = some (Collector.process d) → i = j
  knows : ∀ {c}, Collector.process c ∈ s.collectors → c.Knows s.tables.getLast?
  tells : Tells s.tables s.reported

/-- A step of the link that brings no event. -/
theorem arrived_step {link after : Link EndpointEvent} {event : LinkEvent EndpointEvent}
    (stepped : link.step identity batchSize event = some after)
    (brings : ∀ ev, event ≠ .arrive ev) : after.arrived = link.arrived := by
  cases event with
  | arrive ev => exact absurd rfl (brings ev)
  | leave =>
      cases stepped
      rfl
  | connect opening =>
      rw [Link.step] at stepped
      split at stepped
      · cases stepped
      · cases opening <;> cases stepped <;> rfl
  | recv sent =>
      rcases Link.step_recv stepped with ⟨batch, ev, channel, _, _, rfl⟩
      split
      · cases sent <;> rfl
      · rfl
  | recvNone =>
      rcases Link.step_recvNone stepped with ⟨batch, _, rfl⟩
      rfl
  | flush sent =>
      rcases Option.map_eq_some_iff.mp stepped with ⟨batch, _, rfl⟩
      split
      · rfl
      · cases sent <;> rfl
  | heartbeat ts isolated sent =>
      rcases Option.map_eq_some_iff.mp stepped with ⟨batch, _, rfl⟩
      cases sent <;> rfl
  | down message =>
      rcases Option.map_eq_some_iff.mp stepped with ⟨batch, _, rfl⟩
      cases message <;> rfl

/-- The collector for processes stays that, and no other one becomes it. -/
theorem poll_process {collector : Collector} {sight : Sight} {c : ProcessCollector}
    (polled : (collector.poll sight).1 = .process c) :
    ∃ before, collector = .process before ∧ c = (before.poll sight).1 := by
  cases collector with
  | process before => exact ⟨before, rfl, (Collector.process.inj polled).symm⟩
  | file | network | persistence => cases polled

/-- What a poll of a collector tells. -/
theorem Mirrors.tells_poll (mirrors : s.Mirrors) (sight : Sight) {collector : Collector}
    (member : collector ∈ s.collectors) :
    Tells (s.tables ++ collector.shown sight) (s.reported ++ (collector.poll sight).2) := by
  cases collector with
  | process c =>
      have knows := mirrors.knows member
      refine mirrors.tells.more ?_ ?_
      · intro empty
        rw [empty] at knows
        rw [show c = .default from knows]
        rfl
      · intro before latest
        rw [latest] at knows
        exact (congrArg (replay before.pids) (changes_stamped _ _)).trans (knows.changes sight)
  | file =>
      rw [Collector.shown, List.append_nil]
      exact mirrors.tells.quiet ((changes_stamped _ _).trans (changes_file sight))
  | network c =>
      rw [Collector.shown, List.append_nil]
      exact mirrors.tells.quiet ((changes_stamped _ _).trans (changes_network c sight))
  | persistence c =>
      rw [Collector.shown, List.append_nil]
      exact mirrors.tells.quiet ((changes_stamped _ _).trans (changes_persistence c sight))

theorem Mirrors.poll (mirrors : s.Mirrors) (sight : Sight) {collector : Collector}
    (found : s.collectors[s.turn]? = some collector) (idle : s.outbox = []) :
    Mirrors { s with
      collectors := s.collectors.set s.turn (collector.poll sight).1
      turn := (s.turn + 1) % s.collectors.length
      outbox := (collector.poll sight).2
      tables := s.tables ++ collector.shown sight } := by
  have member := List.mem_of_getElem? found
  have bound := (List.getElem?_eq_some_iff.mp found).1
  have was : ∀ {i : Nat} {c : ProcessCollector},
      (s.collectors.set s.turn (collector.poll sight).1)[i]? = some (.process c) →
        ∃ before, s.collectors[i]? = some (.process before) := by
    intro i c isProcess
    by_cases here : s.turn = i
    · subst here
      rw [List.getElem?_set_self bound, Option.some.injEq] at isProcess
      rcases poll_process isProcess with ⟨before, rfl, _⟩
      exact ⟨before, found⟩
    · rw [List.getElem?_set_ne here] at isProcess
      exact ⟨c, isProcess⟩
  constructor
  · intro i j c d first second
    rcases was first with ⟨_, isFirst⟩
    rcases was second with ⟨_, isSecond⟩
    exact mirrors.single isFirst isSecond
  · intro c isIn
    rcases List.getElem?_of_mem isIn with ⟨i, isProcess⟩
    by_cases here : s.turn = i
    · subst here
      rw [List.getElem?_set_self bound, Option.some.injEq] at isProcess
      rcases poll_process isProcess with ⟨before, rfl, rfl⟩
      change ProcessCollector.Knows _ (s.tables ++ [sight.processes]).getLast?
      rw [List.getLast?_concat]
      exact before.poll_knows sight
    · rw [List.getElem?_set_ne here] at isProcess
      have nothing : collector.shown sight = [] := by
        cases collector with
        | process other => exact absurd (mirrors.single found isProcess) here
        | file | network | persistence => rfl
      change ProcessCollector.Knows _ (s.tables ++ collector.shown sight).getLast?
      rw [nothing, List.append_nil]
      exact mirrors.knows (List.mem_of_getElem? isProcess)
  · have tells := mirrors.tells_poll sight member
    rw [reported, idle, List.append_nil] at tells
    exact tells

/-- Only the first collector can look at the processes. -/
theorem process_first {cfg : CollectorsConfig} {i : Nat} {c : ProcessCollector}
    (found : cfg.collectors[i]? = some (.process c)) : i = 0 ∧ c = .default := by
  rcases cfg with ⟨process, file, network, persistence⟩
  have others : ∀ collector ∈ (if file then [Collector.file] else []) ++
      ((if network then [.network .new] else []) ++
        if persistence then [.persistence .new] else []), ∀ d, collector ≠ .process d := by
    rintro collector member d rfl
    cases file <;> cases network <;> cases persistence <;> simp at member
  rw [CollectorsConfig.collectors, List.append_assoc, List.append_assoc] at found
  cases process with
  | false => exact absurd rfl (others _ (List.mem_of_getElem? found) c)
  | true =>
      cases i with
      | zero => exact ⟨rfl, (Collector.process.inj (Option.some.inj found)).symm⟩
      | succ i => exact absurd rfl (others _ (List.mem_of_getElem? found) c)

theorem mirrors_start (cfg : CollectorsConfig) : (start cfg).Mirrors where
  single := fun first second => (process_first first).1.trans (process_first second).1.symm
  knows := by
    intro c member
    rcases List.getElem?_of_mem member with ⟨i, found⟩
    exact (process_first found).2
  tells := {
    nothing := fun _ => rfl
    each := by rintro first ⟨⟩
    last_ := by rintro first latest ⟨⟩ }

/-- Every step keeps what the collectors know and what has been told. -/
theorem Mirrors.step (mirrors : s.Mirrors) {event : SensorEvent}
    (stepped : s.step identity batchSize event = some s') : s'.Mirrors := by
  cases event with
  | poll sight =>
      rw [Sensors.step] at stepped
      split at stepped
      · next collector idle found =>
          rw [← Option.some.inj stepped]
          exact mirrors.poll sight found idle
      · cases stepped
  | send =>
      rw [Sensors.step] at stepped
      split at stepped
      · cases stepped
      · next ev rest waits =>
          rcases Option.map_eq_some_iff.mp stepped with ⟨link, arrives, rfl⟩
          refine ⟨mirrors.single, mirrors.knows, ?_⟩
          have same : reported { s with outbox := rest, link := link } = s.reported := by
            rw [Link.step] at arrives
            split at arrives
            · cases arrives
            · rw [← Option.some.inj arrives, reported, reported, waits, List.append_assoc]
              rfl
          rw [same]
          exact mirrors.tells
  | link event =>
      rw [Sensors.step] at stepped
      split at stepped
      · next allowed =>
          rcases Option.map_eq_some_iff.mp stepped with ⟨link, moves, rfl⟩
          refine ⟨mirrors.single, mirrors.knows, ?_⟩
          have arrived := arrived_step moves (by rintro ev rfl; cases allowed)
          have same : reported { s with link := link } = s.reported := by
            rw [reported, reported, arrived]
          rw [same]
          exact mirrors.tells
      · cases stepped

theorem mirrors_of_reachable (reachable : (sensors identity batchSize).Reachable s) :
    s.Mirrors := by
  refine reachable.invariant Mirrors ?_ fun _ _ _ mirrors stepped => mirrors.step stepped
  rintro state ⟨cfg, rfl⟩
  exact mirrors_start cfg

/-- While no session that has events ends, nothing is lost on the way to the server. -/
theorem conserved_of_reachable
    (reachable : ((sensors identity batchSize).restrict (Harmless batchSize)).Reachable s) :
    s.link.Conserved := by
  refine reachable.invariant (fun s => s.link.Conserved) ?_ ?_
  · rintro state ⟨cfg, rfl⟩
    exact Link.conserved_start
  · rintro before event after conserved ⟨harmless, stepped⟩
    have moves : ∀ {link event}, before.link.step identity batchSize event = some link →
        before.link.Harmless batchSize event → link.Conserved := by
      intro link event moved kind
      rcases Link.outcome_step conserved moved with ⟨_, held⟩ | ⟨harmful, _⟩
      · exact held
      · exact absurd kind harmful
    change before.step identity batchSize event = some after at stepped
    cases event with
    | poll sight =>
        rw [Sensors.step] at stepped
        split at stepped
        · cases stepped
          exact conserved
        · cases stepped
    | send =>
        rw [Sensors.step] at stepped
        split at stepped
        · cases stepped
        · rcases Option.map_eq_some_iff.mp stepped with ⟨link, arrives, rfl⟩
          exact moves arrives trivial
    | link event =>
        rw [Sensors.step] at stepped
        split at stepped
        · rcases Option.map_eq_some_iff.mp stepped with ⟨link, moved, rfl⟩
          exact moves moved harmless
        · cases stepped

end Sensors

/-- While no session ends that has events, who knows the processes of the first poll and hears what
is handed over and then what still waits is told every process table that the collectors have been
shown, and by all of it the last one. -/
theorem inventory {identity : AgentIdentity} {batchSize : Nat} {s : Sensors}
    (reachable : ((sensors identity batchSize).restrict (Sensors.Harmless batchSize)).Reachable s)
    {first latest : ProcessTable} (isFirst : s.tables.head? = some first)
    (isLatest : s.tables.getLast? = some latest) :
    replay first.pids (changes (s.link.handed ++ s.waiting)) = latest.pids ∧
      ∀ table ∈ s.tables, ∃ earlier, earlier <+: s.link.handed ++ s.waiting ∧
        replay first.pids (changes earlier) = table.pids := by
  have isReachable : (sensors identity batchSize).Reachable s := by
    rcases reachable with ⟨origin, initial, run⟩
    exact ⟨origin, initial, run.unrestrict⟩
  have tells := (Sensors.mirrors_of_reachable isReachable).tells
  have conserved := Sensors.conserved_of_reachable reachable
  have same : s.reported = s.link.handed ++ s.waiting := by
    rw [Sensors.reported, show s.link.arrived = _ from conserved,
      Sensors.waiting, List.append_assoc]
  rw [← same]
  exact ⟨tells.last_ isFirst isLatest, fun table member => tells.each isFirst table member⟩

/-- Nothing, and then one process. -/
def quietSight (entries : List ProcessInfo) (distinct : (entries.map ProcessInfo.pid).Nodup) :
    Sight where
  processes := ⟨entries, distinct⟩
  watched := []
  sockets := .ok []
  readDir := fun _ => .ok []
  sha256File := fun _ _ => none
  fileLen := fun _ => none
  order := HashOrder.inserted _
  stamps := fun _ => ⟨"01J", 1⟩

def shell : ProcessInfo where
  pid := 7
  name := "sh"
  exe := some "/bin/sh"
  cmd := ["sh", "-c", "id"]
  parent := none
  userId := some "0"

/-- Two polls, and the event of the second is handed over. -/
def shellStarts : List SensorEvent :=
  [.poll (quietSight [] List.nodup_nil), .poll (quietSight [shell] (List.nodup_singleton _)), .send,
    .link (.connect .accepted), .link (.recv true)]

theorem inventory_shellStarts : ∃ s, (sensors ⟨"agent", "secret"⟩ 1).Reachable s ∧
    replay ∅ (changes (s.link.handed ++ s.waiting)) = {7} ∧ s.waiting = [] := by
  let cfg : CollectorsConfig := ⟨true, false, false, false⟩
  let next := fun (s : Sensors) (event : SensorEvent) =>
    if event.isCalm then s.step ⟨"agent", "secret"⟩ 1 event else none
  have ran : (TransitionSystem.follow next (Sensors.start cfg) shellStarts).map (fun s =>
      (s.tables.map fun table => table.entries.map ProcessInfo.pid, s.waiting.length)) =
        some ([[], [7]], 0) := by
    decide +kernel
  rcases Option.map_eq_some_iff.mp ran with ⟨s, followed, shown⟩
  have reaches : ((sensors ⟨"agent", "secret"⟩ 1).restrict (Sensors.Harmless 1)).Reaches
      (Sensors.start cfg) s := by
    refine TransitionSystem.Reaches.of_follow (fun before event after stepped => ?_) followed
    simp only [next] at stepped
    split at stepped
    · next calm => exact ⟨Sensors.harmless_of_isCalm before calm, stepped⟩
    · cases stepped
  rcases Prod.mk.inj shown with ⟨tables, waiting⟩
  rcases List.map_eq_cons_iff.mp tables with ⟨first, rest, split, empty, more⟩
  rcases List.map_eq_cons_iff.mp more with ⟨latest, none_, split', single, nothing⟩
  have isNil := List.map_eq_nil_iff.mp nothing
  subst split' isNil
  have told := (inventory ⟨_, ⟨cfg, rfl⟩, reaches⟩ (by rw [split]; rfl)
    (show s.tables.getLast? = some latest by rw [split]; rfl)).1
  rw [ProcessTable.pids, ProcessTable.pids, empty, single] at told
  refine ⟨s, ?_, told, List.length_eq_zero_iff.mp waiting⟩
  exact ⟨_, ⟨cfg, rfl⟩, reaches.unrestrict⟩

end Agent
end Sigil
