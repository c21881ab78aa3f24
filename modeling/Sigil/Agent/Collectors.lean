import Sigil.Core.HashMap
import Sigil.Edr.Map
import Sigil.Library.Snapshots

namespace Sigil
namespace Agent

/-!
# Collectors

The collectors of an agent are polled one after another.  Those for processes, for connections and
for persistence points compare what the host shows with what it showed at the poll before, and
report the difference; the first poll reports nothing.
-/

open Sigil.Core Sigil.Library
open Sigil.Edr (EndpointEvent EventKind FileInfo NetworkInfo PersistenceInfo Process)

/-- The number of a kind on the wire. -/
def kindToWire : EventKind → Int
  | .unspecified => 0
  | .processStart => 1
  | .processStop => 2
  | .fileCreate => 3
  | .fileModify => 4
  | .fileDelete => 5
  | .networkConnect => 6
  | .dnsQuery => 7
  | .moduleLoad => 8
  | .registrySet => 9
  | .persistenceAdd => 10

/-- A process as the host lists it. -/
structure ProcessInfo where
  pid : UInt32
  name : String
  exe : Option String
  cmd : List String
  parent : Option UInt32
  userId : Option String

/-- The processes of a host at one moment, in some order, each under its own identifier. -/
structure ProcessTable where
  entries : List ProcessInfo
  distinct : (entries.map ProcessInfo.pid).Nodup

namespace ProcessTable

def process (table : ProcessTable) (pid : UInt32) : Option ProcessInfo :=
  table.entries.find? fun info => info.pid = pid

def pids (table : ProcessTable) : Finset UInt32 :=
  (table.entries.map ProcessInfo.pid).toFinset

end ProcessTable

/-- A lightweight view of a process, for the event when it has stopped. -/
structure Known where
  name : String
  path : String

structure TcpSocketInfo where
  localAddr : String
  localPort : UInt16
  remoteAddr : String
  remotePort : UInt16

inductive ProtocolSocketInfo where
  | tcp (socket : TcpSocketInfo)
  | udp

structure SocketInfo where
  protocolSocketInfo : ProtocolSocketInfo
  associatedPids : List UInt32

/-- What the file watcher says about some paths. -/
inductive WatchKind where
  | create
  | modify
  | remove
  | other

structure WatchEvent where
  kind : WatchKind
  paths : List String

structure DirEntry where
  path : String
  fileName : String

/-- What is drawn for an event. -/
structure Stamp where
  id : String
  ts : UInt64

/-- What the host shows at a poll: the processes, what the watcher has reported since the last
poll, the sockets and the directories, and what is drawn for the events. -/
structure Sight where
  processes : ProcessTable
  watched : List (Except String WatchEvent)
  sockets : Except String (List SocketInfo)
  readDir : String → Except String (List (Except String DirEntry))
  sha256File : String → Nat → Option String
  fileLen : String → Option UInt64
  order : HashOrder (Sigma fun _ : UInt32 => Known)
  stamps : Nat → Stamp

/-- A fresh event; its stamp is set when the poll is over. -/
def newEvent (kind : EventKind) : EndpointEvent where
  kind := kindToWire kind

/-- Every event has a stamp of its own. -/
def stamped (stamps : Nat → Stamp) (events : List EndpointEvent) : List EndpointEvent :=
  events.mapIdx fun index ev => { ev with id := (stamps index).id, ts := (stamps index).ts }

/-! ## Processes -/

structure ProcessCollector where
  known : AList fun _ : UInt32 => Known
  primed : Bool

namespace ProcessCollector

def default : ProcessCollector where
  known := ∅
  primed := false

/-- The cap on the size of an image that is hashed. -/
def hashMax : Nat := 50 * 1024 * 1024

def startEvent (sight : Sight) (info : ProcessInfo) : EndpointEvent :=
  let ppid := info.parent.getD 0
  let user := info.userId.getD ""
  let ev := { newEvent .processStart with
    user := user
    process := some {
      pid := info.pid
      ppid := ppid
      name := info.name
      path := info.exe.getD ""
      cmdline := " ".intercalate info.cmd
      hashSha256 := (info.exe.bind fun path => sight.sha256File path hashMax).getD ""
      user := user } }
  if ppid = 0 then ev
  else
    { ev with
      parent := (sight.processes.process ppid).map fun parent =>
        { pid := ppid, name := parent.name, path := parent.exe.getD "" } }

def stopEvent (pid : UInt32) (known : Known) : EndpointEvent :=
  { newEvent .processStop with
    process := some { pid := pid, name := known.name, path := known.path } }

def poll (c : ProcessCollector) (sight : Sight) : ProcessCollector × List EndpointEvent :=
  let current := sight.processes.entries.foldl
    (fun current info => current.insert info.pid ⟨info.name, info.exe.getD ""⟩) ∅
  let started :=
    if c.primed then sight.processes.entries.filter fun info => info.pid ∉ c.known else []
  let stopped :=
    if c.primed then
      (sight.order.run c.known.entries).filter fun entry => entry.1 ∉ current
    else []
  ({ known := current, primed := true },
    started.map (startEvent sight) ++ stopped.map fun entry => stopEvent entry.1 entry.2)

end ProcessCollector

/-! ## Connections -/

/-- A connection with a remote peer. -/
structure Connection where
  tcp : TcpSocketInfo
  pid : UInt32

namespace NetworkCollector

/-- Listeners and unconnected sockets are skipped. -/
def connection (si : SocketInfo) : Option Connection :=
  match si.protocolSocketInfo with
  | .udp => none
  | .tcp tcp =>
      if tcp.remotePort = 0 ∨ tcp.remoteAddr = "0.0.0.0" ∨ tcp.remoteAddr = "::" then none
      else some { tcp := tcp, pid := si.associatedPids.head?.getD 0 }

def key (c : Connection) : String :=
  c.tcp.localAddr ++ ":" ++ toString c.tcp.localPort.toNat ++ "->" ++ c.tcp.remoteAddr ++ ":" ++
    toString c.tcp.remotePort.toNat ++ "/" ++ toString c.pid.toNat

def connectEvent (c : Connection) : EndpointEvent :=
  { newEvent .networkConnect with
    network := some {
      proto := "tcp"
      localAddr := c.tcp.localAddr
      localPort := c.tcp.localPort.toUInt32
      remoteAddr := c.tcp.remoteAddr
      remotePort := c.tcp.remotePort.toUInt32
      direction := "outbound" }
    process := if c.pid = 0 then none else some { pid := c.pid } }

/-- A poll that the host refuses changes nothing. -/
def poll (c : Baseline String) (sight : Sight) : Baseline String × List EndpointEvent :=
  match sight.sockets with
  | .error _ => (c, [])
  | .ok sockets =>
      let polled := c.poll key (sockets.filterMap connection)
      (polled.1, polled.2.map connectEvent)

end NetworkCollector

/-! ## Persistence points -/

structure Location where
  kind : String
  dir : String

/-- An entry of a watched location. -/
structure Autostart where
  kind : String
  entry : DirEntry

namespace PersistenceCollector

/-- The locations on Linux. -/
def locations : List Location :=
  [⟨"cron", "/etc/cron.d"⟩, ⟨"cron", "/var/spool/cron/crontabs"⟩,
    ⟨"systemd", "/etc/systemd/system"⟩, ⟨"systemd", "/lib/systemd/system"⟩]

/-- The entries of a location; one that cannot be read is skipped, as are such entries. -/
def entriesOf (sight : Sight) (loc : Location) : List Autostart :=
  match sight.readDir loc.dir with
  | .error _ => []
  | .ok entries => (entries.filterMap Except.toOption).map fun entry => ⟨loc.kind, entry⟩

def key (a : Autostart) : String :=
  a.kind ++ "::" ++ a.entry.path

def addEvent (a : Autostart) : EndpointEvent :=
  { newEvent .persistenceAdd with
    persistence := some { kind := a.kind, name := a.entry.fileName, target := a.entry.path } }

def poll (c : Baseline String) (sight : Sight) : Baseline String × List EndpointEvent :=
  let polled := c.poll key (locations.flatMap (entriesOf sight))
  (polled.1, polled.2.map addEvent)

end PersistenceCollector

/-! ## Files -/

namespace FileCollector

/-- The cap on the size of a file that is hashed. -/
def hashMax : Nat := 25 * 1024 * 1024

def kindOf : WatchKind → Option EventKind
  | .create => some .fileCreate
  | .modify => some .fileModify
  | .remove => some .fileDelete
  | .other => none

def fileEvent (sight : Sight) (kind : EventKind) (path : String) : EndpointEvent :=
  { newEvent kind with
    file := some {
      path := path
      hashSha256 := if kind = .fileDelete then "" else (sight.sha256File path hashMax).getD ""
      size := (sight.fileLen path).getD 0 } }

/-- The watcher keeps what has changed until it is asked. -/
def poll (sight : Sight) : List EndpointEvent :=
  sight.watched.flatMap fun res =>
    match res with
    | .error _ => []
    | .ok event =>
        match kindOf event.kind with
        | none => []
        | some kind => event.paths.map (fileEvent sight kind)

end FileCollector

/-! ## All of them -/

inductive Collector where
  | process (c : ProcessCollector)
  | file
  | network (c : Baseline String)
  | persistence (c : Baseline String)

/-- What one poll reports. -/
def Collector.poll (collector : Collector) (sight : Sight) : Collector × List EndpointEvent :=
  let (collector, events) :=
    match collector with
    | .process c => (Collector.process (c.poll sight).1, (c.poll sight).2)
    | .file => (.file, FileCollector.poll sight)
    | .network c => (.network (NetworkCollector.poll c sight).1, (NetworkCollector.poll c sight).2)
    | .persistence c =>
        (.persistence (PersistenceCollector.poll c sight).1, (PersistenceCollector.poll c sight).2)
  (collector, stamped sight.stamps events)

/-! ## What a poll reports -/

namespace ProcessCollector

/-- What is remembered of a process. -/
def view (info : ProcessInfo) : Sigma fun _ : UInt32 => Known :=
  ⟨info.pid, { name := info.name, path := info.exe.getD "" }⟩

/-- The processes that are remembered are those of the last poll, if there was one. -/
def Knows (c : ProcessCollector) : Option ProcessTable → Prop
  | none => c = .default
  | some table => c.primed = true ∧ c.known.entries.Perm (table.entries.map view)

theorem entries_foldl_insert (entries : List ProcessInfo)
    (distinct : (entries.map ProcessInfo.pid).Nodup) (map : AList fun _ : UInt32 => Known)
    (fresh : ∀ info ∈ entries, info.pid ∉ map) :
    (entries.foldl (fun current info => current.insert info.pid ⟨info.name, info.exe.getD ""⟩)
      map).entries.Perm (map.entries ++ entries.map view) := by
  induction entries generalizing map with
  | nil =>
      rw [List.map_nil, List.append_nil]
      exact .refl _
  | cons info entries inductionHypothesis =>
      rw [List.map_cons, List.nodup_cons] at distinct
      refine (inductionHypothesis distinct.2 _ ?_).trans ?_
      · intro other member
        rw [AList.mem_insert, not_or]
        refine ⟨fun same => distinct.1 ?_, fresh other (List.mem_cons_of_mem _ member)⟩
        rw [← same]
        exact List.mem_map_of_mem member
      · rw [AList.entries_insert_of_notMem (fresh info List.mem_cons_self)]
        exact List.perm_middle.symm

theorem poll_knows (c : ProcessCollector) (sight : Sight) :
    (c.poll sight).1.Knows (some sight.processes) :=
  ⟨rfl, entries_foldl_insert _ sight.processes.distinct ∅ fun _ _ => AList.notMem_empty _⟩

theorem Knows.mem {c : ProcessCollector} {table : ProcessTable} (knows : c.Knows (some table))
    (pid : UInt32) : pid ∈ c.known ↔ pid ∈ table.entries.map ProcessInfo.pid := by
  have keys : c.known.keys.Perm (table.entries.map ProcessInfo.pid) := by
    have mapped := knows.2.map Sigma.fst
    rw [List.map_map] at mapped
    exact mapped
  exact keys.mem_iff

/-- After the first poll: the processes that have come and those that have gone. -/
theorem Knows.poll {c : ProcessCollector} {before : ProcessTable} (knows : c.Knows (some before))
    (sight : Sight) :
    (c.poll sight).2.Perm
      ((appeared ProcessInfo.pid before.entries sight.processes.entries).map (startEvent sight) ++
        (appeared ProcessInfo.pid sight.processes.entries before.entries).map fun info =>
          stopEvent info.pid ⟨info.name, info.exe.getD ""⟩) := by
  have after := poll_knows c sight
  rw [ProcessCollector.poll, knows.1, if_pos rfl, if_pos rfl]
  refine List.Perm.append (.of_eq ?_) ?_
  · congr 1
    apply List.filter_congr
    intro info _
    exact decide_eq_decide.mpr (not_congr (knows.mem info.pid))
  · have gone : (sight.order.run c.known.entries).Perm (before.entries.map view) :=
      (sight.order.perm _).trans knows.2
    refine ((gone.filter _).map _).trans (.of_eq ?_)
    rw [List.filter_map, List.map_map, appeared]
    congr 1
    apply List.filter_congr
    intro info _
    exact decide_eq_decide.mpr (not_congr (after.mem info.pid))

theorem observed_knows (earlier : List Sight) :
    (observed poll .default earlier).Knows (earlier.getLast?.map Sight.processes) := by
  induction earlier using List.reverseRecOn with
  | nil => rfl
  | append_singleton earlier sight _ =>
      rw [observed_concat, List.getLast?_concat, Option.map_some]
      exact poll_knows _ sight

end ProcessCollector

/-- The connections that the host shows, if it shows any. -/
def Sight.connections (sight : Sight) : Option (List Connection) :=
  sight.sockets.toOption.map fun sockets => sockets.filterMap NetworkCollector.connection

def Sight.autostarts (sight : Sight) : List Autostart :=
  PersistenceCollector.locations.flatMap (PersistenceCollector.entriesOf sight)

theorem NetworkCollector.poll_eq (c : Baseline String) (sight : Sight) :
    NetworkCollector.poll c sight = sight.connections.elim (c, []) fun connections =>
      ((c.poll key connections).1, (c.poll key connections).2.map connectEvent) := by
  rw [NetworkCollector.poll, Sight.connections]
  cases sight.sockets with
  | error e => rfl
  | ok sockets => rfl

theorem NetworkCollector.observed_eq (earlier : List Sight) :
    observed NetworkCollector.poll .new earlier =
      .of key (earlier.filterMap Sight.connections).getLast? := by
  refine Baseline.observed_of (fun c sight => ?_) earlier
  rw [NetworkCollector.poll_eq]
  cases sight.connections <;> rfl

theorem PersistenceCollector.observed_eq (earlier : List Sight) :
    observed PersistenceCollector.poll .new earlier =
      .of key (earlier.getLast?.map Sight.autostarts) := by
  have looks : ∀ (c : Baseline String) (sight : Sight), (poll c sight).1 =
      (some sight.autostarts).elim c fun autostarts => (c.poll key autostarts).1 :=
    fun _ _ => rfl
  rw [Baseline.observed_of looks, ← List.getLast?_map]
  congr 2
  exact congrFun List.filterMap_eq_map' earlier

/-- What the collectors remember after any polls, and what they report at the next one.  They
remember the processes and the autostart entries of the last poll, and the connections of the last
poll that the host did not refuse.  They report the processes that have come since then and those
that have gone, and the connections and the entries that have come; where two of these have one
key, both of them.  Nothing is reported at the first poll. -/
theorem collectors_report (earlier : List Sight) (sight : Sight) :
    ((observed ProcessCollector.poll .default earlier).Knows
        (earlier.getLast?.map Sight.processes) ∧
      observed NetworkCollector.poll .new earlier =
        .of NetworkCollector.key (earlier.filterMap Sight.connections).getLast? ∧
      observed PersistenceCollector.poll .new earlier =
        .of PersistenceCollector.key (earlier.getLast?.map Sight.autostarts)) ∧
    ((observed ProcessCollector.poll .default earlier).poll sight).2.Perm
        (earlier.getLast?.elim [] fun before =>
          (appeared ProcessInfo.pid before.processes.entries sight.processes.entries).map
              (ProcessCollector.startEvent sight) ++
            (appeared ProcessInfo.pid sight.processes.entries before.processes.entries).map
              fun info => ProcessCollector.stopEvent info.pid ⟨info.name, info.exe.getD ""⟩) ∧
      (NetworkCollector.poll (observed NetworkCollector.poll .new earlier) sight).2 =
        (sight.connections.elim [] fun after =>
          (earlier.filterMap Sight.connections).getLast?.elim [] fun before =>
            (appeared NetworkCollector.key before after).map NetworkCollector.connectEvent) ∧
      (PersistenceCollector.poll (observed PersistenceCollector.poll .new earlier) sight).2 =
        (earlier.getLast?.elim [] fun before =>
          (appeared PersistenceCollector.key before.autostarts sight.autostarts).map
            PersistenceCollector.addEvent) := by
  refine ⟨⟨ProcessCollector.observed_knows earlier, NetworkCollector.observed_eq earlier,
    PersistenceCollector.observed_eq earlier⟩, ?_, ?_, ?_⟩
  · have knows := ProcessCollector.observed_knows earlier
    cases last : earlier.getLast? with
    | none =>
        rw [last] at knows
        rw [show observed ProcessCollector.poll .default earlier = .default from knows]
        exact .refl _
    | some before =>
        rw [last] at knows
        exact knows.poll sight
  · rw [NetworkCollector.observed_eq, NetworkCollector.poll_eq]
    cases sight.connections with
    | none => rfl
    | some after =>
        rw [Option.elim_some, Option.elim_some, Baseline.poll_of]
        cases (earlier.filterMap Sight.connections).getLast? <;> rfl
  · rw [PersistenceCollector.observed_eq, PersistenceCollector.poll]
    change (Prod.snd (Baseline.poll _ _ sight.autostarts)).map _ = _
    rw [Baseline.poll_of]
    cases earlier.getLast? <;> rfl

end Agent
end Sigil
