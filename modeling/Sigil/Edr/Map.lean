import Sigil.Core.HashMap
import Sigil.Core.Record

namespace Sigil
namespace Edr

/-!
# Events of the agents

A telemetry record becomes an event of the host that the session has authenticated.  The
identity of the host is written into the fields first, then what the record says, and last the
entries that the agent may choose freely.  An entry of the last kind replaces whatever has been
written under its name.
-/

open Sigil.Core

inductive EventKind where
  | unspecified
  | processStart
  | processStop
  | fileCreate
  | fileModify
  | fileDelete
  | networkConnect
  | dnsQuery
  | moduleLoad
  | registrySet
  | persistenceAdd
  deriving DecidableEq, Repr

/-- The kind of a number on the wire; a number that has no kind is unspecified. -/
def EventKind.ofWire : Int → EventKind
  | 1 => .processStart
  | 2 => .processStop
  | 3 => .fileCreate
  | 4 => .fileModify
  | 5 => .fileDelete
  | 6 => .networkConnect
  | 7 => .dnsQuery
  | 8 => .moduleLoad
  | 9 => .registrySet
  | 10 => .persistenceAdd
  | _ => .unspecified

structure Process where
  pid : UInt32 := 0
  ppid : UInt32 := 0
  name : String := ""
  path : String := ""
  cmdline : String := ""
  hashSha256 : String := ""
  user : String := ""

structure FileInfo where
  path : String := ""
  hashSha256 : String := ""
  size : UInt64 := 0
  mode : String := ""

structure NetworkInfo where
  proto : String := ""
  localAddr : String := ""
  localPort : UInt32 := 0
  remoteAddr : String := ""
  remotePort : UInt32 := 0
  direction : String := ""

structure DnsInfo where
  query : String := ""
  qtype : String := ""
  answers : List String := []

structure ModuleInfo where
  path : String := ""
  hashSha256 : String := ""
  pid : UInt32 := 0

structure RegistryInfo where
  key : String := ""
  valueName : String := ""
  valueData : String := ""

structure PersistenceInfo where
  kind : String := ""
  name : String := ""
  target : String := ""

/-- A telemetry record of an agent. -/
structure EndpointEvent where
  id : String := ""
  ts : UInt64 := 0
  kind : Int := 0
  process : Option Process := none
  parent : Option Process := none
  file : Option FileInfo := none
  network : Option NetworkInfo := none
  dns : Option DnsInfo := none
  module : Option ModuleInfo := none
  registry : Option RegistryInfo := none
  persistence : Option PersistenceInfo := none
  user : String := ""
  extra : AList fun _ : String => String := ∅

/-! ## Fields -/

/-- Insert a text that is not empty. -/
def putStr (fields : FieldMap) (key val : String) : FieldMap :=
  if val = "" then fields else fields.insert key (.string val)

def put (fields : FieldMap) (key : String) (val : Json) : FieldMap :=
  fields.insert key val

/-- A number in JSON. -/
def jsonNat (n : Nat) : Json :=
  .number (toString n)

def putProcess (fields : FieldMap) (start : String) (p : Process) : FieldMap :=
  let fields := putStr fields (start ++ ".name") p.name
  let fields := putStr fields (start ++ ".executable") p.path
  let fields := putStr fields (start ++ ".command_line") p.cmdline
  let fields := putStr fields (start ++ ".hash.sha256") p.hashSha256
  let fields := putStr fields (start ++ ".user") p.user
  let fields := if 0 < p.pid then put fields (start ++ ".pid") (jsonNat p.pid.toNat) else fields
  if 0 < p.ppid then put fields (start ++ ".ppid") (jsonNat p.ppid.toNat) else fields

/-! ## The event -/

/-- The class for a kind. -/
def classFor : EventKind → OcsfClass
  | .processStart | .processStop => .processActivity
  | .fileCreate | .fileModify | .fileDelete => .fileSystemActivity
  | .networkConnect => .networkActivity
  | .dnsQuery => .dnsActivity
  | .moduleLoad => .moduleActivity
  | .registrySet => .registryKeyActivity
  | .persistenceAdd => .scheduledJobActivity
  | .unspecified => .other 1008

/-- The name of a kind in the field `event.kind`. -/
def eventKindName : EventKind → String
  | .unspecified => "unspecified"
  | .processStart => "process_start"
  | .processStop => "process_stop"
  | .fileCreate => "file_create"
  | .fileModify => "file_modify"
  | .fileDelete => "file_delete"
  | .networkConnect => "network_connect"
  | .dnsQuery => "dns_query"
  | .moduleLoad => "module_load"
  | .registrySet => "registry_set"
  | .persistenceAdd => "persistence_add"

def processEntity (agentId : String) (p : Process) : EntityRef where
  kind := "process"
  id := agentId ++ ":" ++ toString p.pid.toNat
  name := if p.name = "" then none else some p.name

def summarize (hostname : String) (kind : EventKind) (ee : EndpointEvent) : String :=
  let proc := (ee.process.map fun p => if p.cmdline = "" then p.name else p.cmdline).getD ""
  match kind with
  | .processStart => hostname ++ ": process start " ++ proc
  | .processStop => hostname ++ ": process stop " ++ proc
  | .fileCreate | .fileModify | .fileDelete =>
      let path := (ee.file.map FileInfo.path).getD ""
      hostname ++ ": " ++ eventKindName kind ++ " " ++ path ++ " by " ++ proc
  | .networkConnect =>
      let dst :=
        (ee.network.map fun n => n.remoteAddr ++ ":" ++ toString n.remotePort.toNat).getD ""
      hostname ++ ": connect " ++ dst ++ " by " ++ proc
  | .dnsQuery => hostname ++ ": dns " ++ (ee.dns.map DnsInfo.query).getD "" ++ " by " ++ proc
  | .moduleLoad =>
      hostname ++ ": module load " ++ (ee.module.map ModuleInfo.path).getD "" ++ " by " ++ proc
  | .registrySet =>
      hostname ++ ": registry set " ++ (ee.registry.map RegistryInfo.key).getD "" ++ " by " ++ proc
  | .persistenceAdd =>
      let name := (ee.persistence.map fun p => p.kind ++ "/" ++ p.name).getD ""
      hostname ++ ": persistence add " ++ name ++ " by " ++ proc
  | .unspecified => hostname ++ ": endpoint event"

/-- The target of the activity and the fields of its kind. -/
def putKind (fields : FieldMap) (kind : EventKind) (ee : EndpointEvent) :
    Option EntityRef × FieldMap :=
  match kind with
  | .fileCreate | .fileModify | .fileDelete =>
      match ee.file with
      | none => (none, fields)
      | some file =>
          let fields := putStr fields "file.path" file.path
          let fields := putStr fields "file.hash.sha256" file.hashSha256
          let fields := putStr fields "file.mode" file.mode
          (some (.new "file" file.path),
            if 0 < file.size then put fields "file.size" (jsonNat file.size.toNat) else fields)
  | .networkConnect =>
      match ee.network with
      | none => (none, fields)
      | some n =>
          let fields := putStr fields "network.proto" n.proto
          let fields := putStr fields "network.direction" n.direction
          let fields := putStr fields "source.ip" n.localAddr
          let fields := putStr fields "destination.ip" n.remoteAddr
          let fields :=
            if 0 < n.localPort then put fields "source.port" (jsonNat n.localPort.toNat) else fields
          (some (.new "ip" n.remoteAddr),
            if 0 < n.remotePort then put fields "destination.port" (jsonNat n.remotePort.toNat)
            else fields)
  | .dnsQuery =>
      match ee.dns with
      | none => (none, fields)
      | some d =>
          let fields := putStr fields "dns.question.name" d.query
          let fields := putStr fields "dns.question.type" d.qtype
          (some (.new "domain" d.query),
            if d.answers ≠ [] then put fields "dns.answers" (.array (d.answers.map .string))
            else fields)
  | .moduleLoad =>
      match ee.module with
      | none => (none, fields)
      | some m =>
          let fields := putStr fields "module.path" m.path
          (some (.new "file" m.path), putStr fields "module.hash.sha256" m.hashSha256)
  | .registrySet =>
      match ee.registry with
      | none => (none, fields)
      | some r =>
          let fields := putStr fields "registry.key" r.key
          let fields := putStr fields "registry.value.name" r.valueName
          (some { kind := "registry", id := r.key, name := some r.valueName },
            putStr fields "registry.value.data" r.valueData)
  | .persistenceAdd =>
      match ee.persistence with
      | none => (none, fields)
      | some p =>
          let fields := putStr fields "persistence.kind" p.kind
          let fields := putStr fields "persistence.name" p.name
          (some { kind := "file", id := p.target, name := some p.name },
            putStr fields "persistence.target" p.target)
  | .processStart | .processStop | .unspecified => (none, fields)

/-- The entries that the agent has chosen, in the order of its map. -/
def putExtra (fields : FieldMap) (entries : List (Sigma fun _ : String => String)) : FieldMap :=
  entries.foldl (fun fields entry => putStr fields entry.1 entry.2) fields

/-- What an event is made with: the identifier that is drawn for it, the two times that are read,
the order of a hash map, and the bytes of a record. -/
structure Surroundings where
  id : String
  created : Int
  now : Int
  order : HashOrder (Sigma fun _ : String => String)
  encode : EndpointEvent → List UInt8

/-- The event of a telemetry record. -/
def toEvent (around : Surroundings) (agentId hostname tenant : String)
    (ee : EndpointEvent) : Event :=
  let kind := EventKind.ofWire ee.kind
  let fields := putStr .empty "agent.id" agentId
  let fields := putStr fields "host.name" hostname
  let fields := putStr fields "event.kind" (eventKindName kind)
  let fields := putStr fields "user.name" ee.user
  let fields := ee.process.elim fields (putProcess fields "process")
  let fields := ee.parent.elim fields (putProcess fields "parent")
  let (target, fields) := putKind fields kind ee
  let fields := putExtra fields (around.order.run ee.extra.entries)
  { id := around.id
    ts := if 0 < ee.ts then toI64 ee.ts.toNat else around.created
    ingestTs := around.now
    ocsfClass := classFor kind
    tenant := tenant
    severity := .informational
    host := some { kind := "host", id := agentId, name := some hostname }
    actor := ee.process.map (processEntity agentId)
    target := target
    message := summarize hostname kind ee
    fields := fields
    templateId := none
    labels := ["edr", "agent:" ++ agentId]
    raw := around.encode ee }

/-! ## What is written under a name -/

@[simp] theorem get_putStr (fields : FieldMap) (key val name : String) :
    (putStr fields key val).get name =
      if val ≠ "" ∧ name = key then some (.string val) else fields.get name := by
  by_cases empty : val = ""
  · simp [putStr, empty]
  · simp [putStr, empty]

@[simp] theorem get_put (fields : FieldMap) (key : String) (val : Json) (name : String) :
    (put fields key val).get name = if name = key then some val else fields.get name :=
  fields.get_insert key val name

theorem get_putStr_of_ne {key name : String} (other : name ≠ key) (fields : FieldMap)
    (val : String) : (putStr fields key val).get name = fields.get name := by
  rw [get_putStr, if_neg fun both => other both.2]

theorem get_put_if_of_ne {key name : String} (other : name ≠ key) (condition : Prop)
    [Decidable condition] (fields : FieldMap) (val : Json) :
    (if condition then put fields key val else fields).get name = fields.get name := by
  split
  · rw [get_put, if_neg other]
  · rfl

/-- The fields of a process are written under names that start with its prefix. -/
theorem get_putProcess {start name : String} (foreign : ∀ rest, name ≠ start ++ rest)
    (fields : FieldMap) (p : Process) : (putProcess fields start p).get name = fields.get name := by
  unfold putProcess
  rw [get_put_if_of_ne (foreign _), get_put_if_of_ne (foreign _), get_putStr_of_ne (foreign _),
    get_putStr_of_ne (foreign _), get_putStr_of_ne (foreign _), get_putStr_of_ne (foreign _),
    get_putStr_of_ne (foreign _)]

/-- The names of the identity. -/
def Identity (name : String) : Prop :=
  name = "agent.id" ∨ name = "host.name"

variable {name : String}

theorem Identity.foreign (identity : Identity name) (rest : String) :
    name ≠ "process" ++ rest ∧ name ≠ "parent" ++ rest := by
  constructor
  · intro same
    have sameHead := congrArg (fun text : String => text.toList.head?) same
    rcases identity with rfl | rfl
    · simp at sameHead
    · simp at sameHead
  · intro same
    have sameHead := congrArg (fun text : String => text.toList.head?) same
    rcases identity with rfl | rfl
    · simp at sameHead
    · simp at sameHead

theorem Identity.ne (identity : Identity name) {key : String} (notAgent : key ≠ "agent.id")
    (notHost : key ≠ "host.name") : name ≠ key := by
  rintro rfl
  rcases identity with same | same
  · exact notAgent same
  · exact notHost same

/-- No field of a kind has a name of the identity. -/
theorem get_putKind (identity : Identity name) (fields : FieldMap) (kind : EventKind)
    (ee : EndpointEvent) : (putKind fields kind ee).2.get name = fields.get name := by
  cases kind with
  | unspecified | processStart | processStop => rfl
  | fileCreate | fileModify | fileDelete =>
      cases file : ee.file with
      | none => simp only [putKind, file]
      | some file' =>
          simp only [putKind, file]
          rw [get_put_if_of_ne (identity.ne (by decide) (by decide)),
            get_putStr_of_ne (identity.ne (by decide) (by decide)),
            get_putStr_of_ne (identity.ne (by decide) (by decide)),
            get_putStr_of_ne (identity.ne (by decide) (by decide))]
  | networkConnect =>
      cases network : ee.network with
      | none => simp only [putKind, network]
      | some n =>
          simp only [putKind, network]
          rw [get_put_if_of_ne (identity.ne (by decide) (by decide)),
            get_put_if_of_ne (identity.ne (by decide) (by decide)),
            get_putStr_of_ne (identity.ne (by decide) (by decide)),
            get_putStr_of_ne (identity.ne (by decide) (by decide)),
            get_putStr_of_ne (identity.ne (by decide) (by decide)),
            get_putStr_of_ne (identity.ne (by decide) (by decide))]
  | dnsQuery =>
      cases dns : ee.dns with
      | none => simp only [putKind, dns]
      | some d =>
          simp only [putKind, dns]
          rw [get_put_if_of_ne (identity.ne (by decide) (by decide)),
            get_putStr_of_ne (identity.ne (by decide) (by decide)),
            get_putStr_of_ne (identity.ne (by decide) (by decide))]
  | moduleLoad =>
      cases module : ee.module with
      | none => simp only [putKind, module]
      | some m =>
          simp only [putKind, module]
          rw [get_putStr_of_ne (identity.ne (by decide) (by decide)),
            get_putStr_of_ne (identity.ne (by decide) (by decide))]
  | registrySet =>
      cases registry : ee.registry with
      | none => simp only [putKind, registry]
      | some r =>
          simp only [putKind, registry]
          rw [get_putStr_of_ne (identity.ne (by decide) (by decide)),
            get_putStr_of_ne (identity.ne (by decide) (by decide)),
            get_putStr_of_ne (identity.ne (by decide) (by decide))]
  | persistenceAdd =>
      cases persistence : ee.persistence with
      | none => simp only [putKind, persistence]
      | some p =>
          simp only [putKind, persistence]
          rw [get_putStr_of_ne (identity.ne (by decide) (by decide)),
            get_putStr_of_ne (identity.ne (by decide) (by decide)),
            get_putStr_of_ne (identity.ne (by decide) (by decide))]

/-- An entry of the agent replaces what has been written under its name, unless it is empty. -/
theorem get_putExtra {entries : List (Sigma fun _ : String => String)} (nodup : entries.NodupKeys)
    (fields : FieldMap) (name : String) :
    (putExtra fields entries).get name =
      ((entries.dlookup name).filter (· ≠ "")).elim (fields.get name) fun val =>
        some (.string val) := by
  induction entries generalizing fields with
  | nil => rfl
  | cons entry entries inductionHypothesis =>
      rcases entry with ⟨key, val⟩
      rcases List.nodupKeys_cons.mp nodup with ⟨fresh, nodup⟩
      change (putExtra (putStr fields key val) entries).get name = _
      rw [inductionHypothesis nodup]
      by_cases same : name = key
      · subst same
        -- The key occurs only once, so nothing after it writes under its name.
        rw [List.dlookup_eq_none.mpr fresh, List.dlookup_cons_eq, get_putStr]
        by_cases blank : val = ""
        · simp [blank, Option.filter]
        · simp [blank, Option.filter]
      · rw [List.dlookup_cons_ne _ _ same, get_putStr_of_ne same]

/-! ## The identity of the event -/

/-- The fields before the entries of the agent. -/
def ownFields (agentId hostname : String) (ee : EndpointEvent) : FieldMap :=
  let kind := EventKind.ofWire ee.kind
  let fields := putStr .empty "agent.id" agentId
  let fields := putStr fields "host.name" hostname
  let fields := putStr fields "event.kind" (eventKindName kind)
  let fields := putStr fields "user.name" ee.user
  let fields := ee.process.elim fields (putProcess fields "process")
  let fields := ee.parent.elim fields (putProcess fields "parent")
  (putKind fields kind ee).2

theorem toEvent_fields (around : Surroundings) (agentId hostname tenant : String)
    (ee : EndpointEvent) :
    (toEvent around agentId hostname tenant ee).fields =
      putExtra (ownFields agentId hostname ee) (around.order.run ee.extra.entries) :=
  rfl

theorem get_ownFields (identity : Identity name) (agentId hostname : String) (ee : EndpointEvent) :
    (ownFields agentId hostname ee).get name =
      (putStr (putStr .empty "agent.id" agentId) "host.name" hostname).get name := by
  have same : ∀ {fields : FieldMap} {start : String} (p : Option Process),
      (∀ rest, name ≠ start ++ rest) →
        (p.elim fields (putProcess fields start)).get name = fields.get name := by
    intro fields start p foreign
    cases p with
    | none => rfl
    | some p => exact get_putProcess foreign fields p
  unfold ownFields
  rw [get_putKind identity, same _ fun rest => (identity.foreign rest).2,
    same _ fun rest => (identity.foreign rest).1,
    get_putStr_of_ne (identity.ne (by decide) (by decide)),
    get_putStr_of_ne (identity.ne (by decide) (by decide))]

/-- What the event of an agent shows under a name of the identity. -/
theorem get_toEvent (identity : Identity name) (around : Surroundings)
    (agentId hostname tenant : String) (ee : EndpointEvent) :
    (toEvent around agentId hostname tenant ee).fields.get name =
      ((ee.extra.lookup name).filter (· ≠ "")).elim
        ((putStr (putStr .empty "agent.id" agentId) "host.name" hostname).get name)
        fun val => some (.string val) := by
  have orderPerm := around.order.perm ee.extra.entries
  have nodup : (around.order.run ee.extra.entries).NodupKeys :=
    (List.perm_nodupKeys orderPerm).mpr ee.extra.nodupKeys
  rw [toEvent_fields, get_putExtra nodup, get_ownFields identity,
    List.perm_dlookup name nodup orderPerm]
  rfl

/-- The agent claims no other value than its own under a name. -/
def Honest (ee : EndpointEvent) (name own : String) : Prop :=
  ∀ val, ee.extra.lookup name = some val → val = "" ∨ val = own

theorem shows_iff_honest (ee : EndpointEvent) (name own : String) :
    ((ee.extra.lookup name).filter (· ≠ "")).elim (some (.string own))
    (fun val => some (.string val)) =
      some (Json.string own) ↔ Honest ee name own := by
  unfold Honest
  cases ee.extra.lookup name with
  | none => simp
  | some val =>
      by_cases blank : val = ""
      · simp [blank, Option.filter]
      · simp [blank, Option.filter]

/-- The event is one of the host that has sent it exactly if the free entries of the record name
neither another agent nor another host. -/
theorem toEvent_identity_iff (around : Surroundings) {agentId hostname : String}
    (agentIdNonempty : agentId ≠ "") (hostnameNonempty : hostname ≠ "") (tenant : String)
    (ee : EndpointEvent) :
    (toEvent around agentId hostname tenant ee).host =
          some { kind := "host", id := agentId, name := some hostname } ∧
        (toEvent around agentId hostname tenant ee).fields.get "agent.id" =
          some (.string agentId) ∧
        (toEvent around agentId hostname tenant ee).fields.get "host.name" =
          some (.string hostname) ↔
      Honest ee "agent.id" agentId ∧ Honest ee "host.name" hostname := by
  have ownAgent : (putStr (putStr .empty "agent.id" agentId) "host.name" hostname).get "agent.id" =
      some (.string agentId) := by
    rw [get_putStr_of_ne (by decide), get_putStr, if_pos ⟨agentIdNonempty, rfl⟩]
  have ownHost : (putStr (putStr .empty "agent.id" agentId) "host.name" hostname).get "host.name" =
      some (.string hostname) := by
    rw [get_putStr, if_pos ⟨hostnameNonempty, rfl⟩]
  rw [get_toEvent (Or.inl rfl), get_toEvent (Or.inr rfl), ownAgent, ownHost, shows_iff_honest,
    shows_iff_honest]
  exact and_iff_right rfl

/-- The surroundings of a record that is mapped at the start of the epoch. -/
def Surroundings.initial : Surroundings where
  id := "01ARZ3NDEKTSV4RRFFQ69G5FAV"
  created := 0
  now := 0
  order := HashOrder.inserted _
  encode _ := []

/-- A file event with a free entry. -/
def fileEvent (key val : String) : EndpointEvent where
  kind := 3
  file := some { path := "/etc/passwd" }
  extra := AList.insert key val ∅

theorem toEvent_identity_fileEvent :
    "agent-1" ≠ "" ∧ "host-a" ≠ "" ∧
      ((toEvent .initial "agent-1" "host-a" "acme" (fileEvent "file.owner" "root")).host =
          some { kind := "host", id := "agent-1", name := some "host-a" } ∧
        (toEvent .initial "agent-1" "host-a" "acme" (fileEvent "file.owner" "root")).fields.get
          "agent.id" = some (.string "agent-1") ∧
        (toEvent .initial "agent-1" "host-a" "acme" (fileEvent "file.owner" "root")).fields.get
          "host.name" = some (.string "host-a")) := by
  refine ⟨by decide, by decide, (toEvent_identity_iff .initial (by decide) (by decide) "acme"
    (fileEvent "file.owner" "root")).mpr ⟨?_, ?_⟩⟩
  · intro val found
    rw [fileEvent, AList.lookup_insert_ne (by decide)] at found
    exact nomatch found
  · intro val found
    rw [fileEvent, AList.lookup_insert_ne (by decide)] at found
    exact nomatch found

/-- An agent can make an event of another one. -/
theorem toEvent_other_agent :
    ¬ ∀ (around : Surroundings) (agentId hostname tenant : String) (ee : EndpointEvent),
      agentId ≠ "" → hostname ≠ "" →
        (toEvent around agentId hostname tenant ee).host =
            some { kind := "host", id := agentId, name := some hostname } ∧
          (toEvent around agentId hostname tenant ee).fields.get "agent.id" =
            some (.string agentId) ∧
          (toEvent around agentId hostname tenant ee).fields.get "host.name" =
            some (.string hostname) := by
  intro always
  have shown := (always .initial "agent-1" "host-a" "acme" (fileEvent "agent.id" "agent-2")
    (by decide) (by decide)).2.1
  rw [get_toEvent (Or.inl rfl), fileEvent, AList.lookup_insert] at shown
  simp [Option.filter] at shown

end Edr
end Sigil
