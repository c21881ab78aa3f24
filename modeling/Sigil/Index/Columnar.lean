import Sigil.Core.Event

namespace Sigil
namespace Index

/-!
# Columnar segments

A segment stores one row for every event.  The columns do not carry everything: labels,
raw bytes, the template, the names of entities and the kind of the host are left out.
-/

open Sigil.Core

/-- The printer and the parser of JSON objects. -/
structure JsonText where
  print : FieldMap → String
  parse : String → Option FieldMap

/-- What any printer and parser do with objects without entries. -/
def plainJson : JsonText where
  print := fun _ => "\x7b\x7d"
  parse := fun _ => some .empty

/-- One row of a segment, with the columns of the schema. -/
structure Row where
  id : String
  ts : Int
  ingestTs : Int
  ocsfClass : UInt32
  ocsfClassName : String
  severity : String
  severityId : Int
  tenant : String
  host : Option String
  actor : Option String
  actorKind : Option String
  target : Option String
  targetKind : Option String
  message : String
  fieldsJson : String
  deriving DecidableEq, Repr

def className : OcsfClass → String
  | .fileSystemActivity => "file_system_activity"
  | .processActivity => "process_activity"
  | .authentication => "authentication"
  | .networkActivity => "network_activity"
  | .httpActivity => "http_activity"
  | .apiActivity => "api_activity"
  | .dnsActivity => "dns_activity"
  | .moduleActivity => "module_activity"
  | .scheduledJobActivity => "scheduled_job_activity"
  | .registryKeyActivity => "registry_key_activity"
  | .other _ => "other"

def severityName : Severity → String
  | .unknown => "unknown"
  | .informational => "informational"
  | .low => "low"
  | .medium => "medium"
  | .high => "high"
  | .critical => "critical"
  | .fatal => "fatal"

variable (json : JsonText)

/-- The row of one event. -/
def eventToRow (ev : Event) : Row where
  id := ev.id
  ts := ev.ts
  ingestTs := ev.ingestTs
  ocsfClass := ev.ocsfClass.uid
  ocsfClassName := className ev.ocsfClass
  severity := severityName ev.severity
  severityId := ev.severity.id.toNat
  tenant := ev.tenant
  host := ev.host.map EntityRef.id
  actor := ev.actor.map EntityRef.id
  actorKind := ev.actor.map EntityRef.kind
  target := ev.target.map EntityRef.id
  targetKind := ev.target.map EntityRef.kind
  message := ev.message
  fieldsJson := json.print ev.fields

/-- Build a batch from events. -/
def eventsToBatch (events : List Event) : List Row :=
  events.map (eventToRow json)

/-- The event of one row; what no column carries gets its default. -/
def rowToEvent (row : Row) : Event where
  id := row.id
  ts := row.ts
  ingestTs := row.ingestTs
  ocsfClass := OcsfClass.fromUid row.ocsfClass
  severity := Severity.fromId (UInt8.ofNat (max 0 (min row.severityId 255)).toNat)
  tenant := row.tenant
  message := row.message
  host := row.host.map (EntityRef.new "host")
  actor := row.actor.map (EntityRef.new (row.actorKind.getD "user"))
  target := row.target.map (EntityRef.new (row.targetKind.getD "host"))
  fields := (json.parse row.fieldsJson).getD .empty
  templateId := none
  labels := []
  raw := []

def batchIntoEvents (batch : List Row) : List Event :=
  batch.map (rowToEvent json)

/-- An event as it comes back from a segment. -/
def stored (ev : Event) : Event :=
  rowToEvent json (eventToRow json ev)

theorem batchIntoEvents_eventsToBatch (events : List Event) :
    batchIntoEvents json (eventsToBatch json events) = events.map (stored json) := by
  rw [batchIntoEvents, eventsToBatch, List.map_map]
  rfl

end Index
end Sigil
