import Sigil.Core.Record
import Sigil.Core.Slices

namespace Sigil
namespace Normalize

/-!
# Normalization of records

A record becomes an event: its message, host and severity are read from some aliases, its class is
decided from the fields that are there and the words of the message, and all its fields are kept.
The case tables are a parameter, as are the id of a new event and the time.  A function without a
result panics.
-/

open Sigil.Core

/-! ## Helpers -/

/-- The first of some fields that is not empty. -/
def firstStr (f : FieldMap) (keys : List String) : Option String :=
  keys.findSome? fun k => ((f.get k).map valueToString).filter (· ≠ "")

def hasAny (f : FieldMap) (keys : List String) : Bool :=
  keys.any fun k => (f.get k).isSome

def valueAsU64 : Json → Option Nat
  | .number text => parseUsize text
  | .string s => parseUsize s
  | .null | .bool _ | .array _ | .object _ => none

def contains (text pattern : String) : Bool :=
  pattern.toList <:+: text.toList

/-- An event that has been started at some time. -/
def newEvent (id : String) (now : Int) (tenant : String) : Event where
  id := id
  ts := now
  ingestTs := now
  ocsfClass := .other 1008
  tenant := tenant
  severity := .informational
  host := none
  actor := none
  target := none
  message := ""
  fields := .empty
  templateId := none
  labels := []
  raw := []

/-- Set the actor, if there is one. -/
def withActor (ev : Event) (kind : String) (id : Option String) : Event :=
  { ev with actor := (id.map (EntityRef.new kind)).or ev.actor }

/-- Set the target, if there is one. -/
def withTarget (ev : Event) (kind : String) (id : Option String) : Event :=
  { ev with target := (id.map (EntityRef.new kind)).or ev.target }

/-! ## Reading the message -/

section Message

variable (tables : CaseTables)

def severityFrom (f : FieldMap) (message _codecKind : String) : Severity :=
  match (f.get "syslog_severity").bind valueAsU64 with
  | some sev =>
      if sev ≤ 2 then .critical
      else if sev = 3 then .high
      else if sev = 4 then .medium
      else if sev = 5 then .low
      else .informational
  | none =>
      let msgLc := tables.toLowercase message
      if contains msgLc "failed" || contains msgLc "error" || contains msgLc "denied" then .medium
      else .informational

/-- Pull a username out of common sshd-style messages.  The place of `for ` is looked for in the
lower case of the message, and the message itself is cut there. -/
def extractUserFromMessage (msg : String) : Option (Option String) :=
  match splitOnce "for " (tables.toLowercase msg) with
  | none => some none
  | some parts =>
      (splitAt (byteLength parts.1.toList + 4) msg).map fun cut =>
        let tail := (stripPrefix "invalid user " cut.2).getD cut.2
        (splitWhitespace tail).head?

/-- Authentication: explicit fields or telltale message text. -/
def looksAuth (f : FieldMap) (msgLc : String) : Bool :=
  hasAny f ["user", "username", "user.name", "auth", "logon_type"] ||
    contains msgLc "authentication" || contains msgLc "failed password" ||
    contains msgLc "login" || contains msgLc "logon" || contains msgLc "sshd"

/-- The user of an authentication event. -/
def userOf (f : FieldMap) (message : String) : Option (Option String) :=
  match firstStr f ["user", "username", "user.name", "user_name"] with
  | some user => some (some user)
  | none => extractUserFromMessage tables message

/-- Decide the class of an event that is no authentication, and its actor and target. -/
def classifyOther (f : FieldMap) (ev : Event) : OcsfClass × Event :=
  if hasAny f ["http_method", "method", "url", "uri", "http.request.method", "status_code"] then
    (.httpActivity, withTarget ev "url" (firstStr f ["url", "uri", "url.full"]))
  else if hasAny f ["src_ip", "dst_ip", "source.ip", "destination.ip", "dest_ip", "dst_port"] then
    let ev := withActor ev "ip" (firstStr f ["src_ip", "source.ip", "src"])
    (.networkActivity,
      withTarget ev "ip" (firstStr f ["dst_ip", "destination.ip", "dest_ip", "dst"]))
  else if hasAny f ["process", "process.name", "cmd", "command_line", "exe", "image"] then
    (.processActivity,
      withActor ev "process" (firstStr f ["process", "process.name", "exe", "image"]))
  else if hasAny f ["eventName", "methodName", "protoPayload", "eventSource"] then
    (.apiActivity, ev)
  else
    match firstStr f ["app", "appname", "tag"] with
    | some app =>
        if app ≠ "" then (.processActivity, withActor ev "process" (some app))
        else (.other 1008, ev)
    | none => (.other 1008, ev)

/-- Decide the class of an event, and its actor and target. -/
def classify (f : FieldMap) (message : String) (ev : Event) : Option (OcsfClass × Event) :=
  let msgLc := tables.toLowercase message
  if looksAuth f msgLc then
    (userOf tables f message).map fun user =>
      let ev := withActor ev "user" user
      (.authentication,
        withTarget ev "ip" (firstStr f ["src_ip", "source.ip", "src", "client_ip"]))
  else some (classifyOther f ev)

end Message

/-- Maps records into events of a tenant. -/
structure Normalizer where
  tenant : String

/-- The message of a record. -/
def messageOf (record : Record) : String :=
  (firstStr record.fields ["message", "msg", "event.original"]).getD ""

/-- Normalize one decoded record. -/
def Normalizer.normalize (self : Normalizer) (tables : CaseTables) (id : String) (now : Int)
    (record : Record) (codecKind : String) : Option Event :=
  let f := record.fields
  let message := messageOf record
  let ev := { newEvent id now self.tenant with raw := record.raw, message := message }
  let ev := match firstStr f ["host", "hostname", "host.name", "host_name"] with
    | some host => if host ≠ "" then { ev with host := some (.new "host" host) } else ev
    | none => ev
  let ev := { ev with severity := severityFrom tables f message codecKind }
  (classify tables f message ev).map fun classified =>
    let ev := { classified.2 with ocsfClass := classified.1 }
    -- every decoded field is carried through
    f.entries.foldl (fun ev entry => { ev with fields := ev.fields.insert entry.1 entry.2 }) ev

/-! ## When the message is read for a user -/

/-- The record looks like an authentication and has no field with a user. -/
def Searched (tables : CaseTables) (record : Record) : Prop :=
  looksAuth record.fields (tables.toLowercase (messageOf record)) = true ∧
    firstStr record.fields ["user", "username", "user.name", "user_name"] = none

/-- A record is normalized unless a user is looked for in its message and that panics. -/
theorem normalize_isSome_iff (self : Normalizer) (tables : CaseTables) (id : String) (now : Int)
    (record : Record) (codecKind : String) :
    (self.normalize tables id now record codecKind).isSome = true ↔
      (Searched tables record →
        (extractUserFromMessage tables (messageOf record)).isSome = true) := by
  rw [Normalizer.normalize, Option.isSome_map, classify, Searched]
  dsimp only
  split
  · next auth =>
      rw [Option.isSome_map, userOf]
      cases firstStr record.fields ["user", "username", "user.name", "user_name"] with
      | some user => exact iff_of_true rfl fun searched => absurd searched.2 (Option.some_ne_none _)
      | none => exact ⟨fun read _ => read, fun read => read ⟨auth, rfl⟩⟩
  · next other => exact iff_of_true rfl fun searched => absurd searched.1 other

/-- To classify an event leaves its bytes and its fields alone. -/
theorem classify_keeps {tables : CaseTables} {f : FieldMap} {message : String} {ev : Event}
    {classified : OcsfClass × Event}
    (isClassified : classify tables f message ev = some classified) :
    classified.2.raw = ev.raw ∧ classified.2.fields = ev.fields := by
  rw [classify] at isClassified
  split at isClassified
  · rcases Option.map_eq_some_iff.mp isClassified with ⟨user, -, rfl⟩
    exact ⟨rfl, rfl⟩
  · rw [← Option.some.inj isClassified, classifyOther]
    repeat' split
    all_goals exact ⟨rfl, rfl⟩

/-- An event keeps the bytes and the fields of its record. -/
theorem normalize_keeps {self : Normalizer} {tables : CaseTables} {id : String} {now : Int}
    {record : Record} {codecKind : String} {ev : Event}
    (normalized : self.normalize tables id now record codecKind = some ev) :
    ev.raw = record.raw ∧ ∀ name, ev.fields.get name = record.fields.get name := by
  have carried : ∀ (entries : List (String × Json)) (ev : Event),
      let carried := entries.foldl (fun ev entry =>
        { ev with fields := ev.fields.insert entry.1 entry.2 }) ev
      carried.raw = ev.raw ∧ carried.fields =
        entries.foldl (fun fields entry => fields.insert entry.1 entry.2) ev.fields := by
    intro entries
    induction entries with
    | nil => exact fun ev => ⟨rfl, rfl⟩
    | cons entry entries inductionHypothesis => exact fun ev => inductionHypothesis _
  rw [Normalizer.normalize] at normalized
  rcases Option.map_eq_some_iff.mp normalized with ⟨classified, isClassified, rfl⟩
  have kept := classify_keeps isClassified
  have set := carried record.fields.entries { classified.2 with ocsfClass := classified.1 }
  refine ⟨set.1.trans (kept.1.trans ?_), fun name => ?_⟩
  · dsimp only
    repeat' split
    all_goals rfl
  · rw [set.2, ← FieldMap.get_foldl_entries record.fields name]
    dsimp only
    rw [kept.2]
    repeat' split
    all_goals rfl

end Normalize
end Sigil
