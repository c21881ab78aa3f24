import Sigil.Core.Reread
import Sigil.Index.Columnar

namespace Sigil
namespace Index

/-!
# What comes back from a segment

The documentation of the columns names the raw bytes, the labels and the template as what
is lost.  An event comes back equal in everything else exactly when its entities have no
names, its host has the kind of a host, its class is not a named class under its number, and
its fields survive the printer and the parser of JSON.
-/

open Sigil.Core

/-- The printer and the parser are inverse on these fields. -/
def JsonText.Keeps (json : JsonText) (fields : FieldMap) : Prop :=
  json.parse (json.print fields) = some fields

/-- What the parser makes of the printed fields, when it reads a number as another function
gives it. -/
def JsonText.Rereads (json : JsonText) (number : String → String) (fields : FieldMap) : Prop :=
  (json.parse (json.print fields)).map FieldMap.entries =
    rereadEntries number objectRoom fields.entries

/-- An event without the parts that are documented as not stored. -/
def documented (ev : Event) : Event :=
  { ev with templateId := none, labels := [], raw := [] }

/-- The columns can carry the event. -/
structure Carried (number : String → String) (ev : Event) : Prop where
  ocsfClass : ∀ uid, ev.ocsfClass = .other uid → OcsfClass.fromUid uid = .other uid
  host : ∀ entity, ev.host = some entity → entity.kind = "host" ∧ entity.name = none
  actor : ∀ entity, ev.actor = some entity → entity.name = none
  target : ∀ entity, ev.target = some entity → entity.name = none
  fields : ∀ entry ∈ ev.fields.entries, entry.2.Survives number objectRoom

/-! ## Columns, one at a time -/

theorem severity_stored (severity : Severity) :
    Severity.fromId (UInt8.ofNat (max 0 (min (severity.id.toNat : Int) 255)).toNat) = severity := by
  cases severity <;> rfl

theorem ocsfClass_stored (ocsfClass : OcsfClass) :
    OcsfClass.fromUid ocsfClass.uid = ocsfClass ↔
      ∀ uid, ocsfClass = .other uid → OcsfClass.fromUid uid = .other uid := by
  constructor
  · rintro same uid rfl
    exact same
  · intro unnamed
    cases ocsfClass with
    | other uid => exact unnamed uid rfl
    | _ => rfl

/-- A column of kinds and one of identifiers carry an entity without a name. -/
theorem entity_stored (entity : Option EntityRef) (missing : String) :
    (entity.map EntityRef.id).map
        (EntityRef.new ((entity.map EntityRef.kind).getD missing)) = entity ↔
      ∀ e, entity = some e → e.name = none := by
  cases entity with
  | none => exact ⟨fun _ e equal => absurd equal (Option.some_ne_none e).symm, fun _ => rfl⟩
  | some e =>
      rcases e with ⟨kind, id, name⟩
      constructor
      · rintro same _ ⟨⟩
        exact (congrArg EntityRef.name (Option.some.inj same)).symm
      · intro unnamed
        rw [show name = none from unnamed _ rfl]
        rfl

/-- A column of identifiers alone carries an entity of the default kind. -/
theorem entity_stored_kind (entity : Option EntityRef) (kind : String) :
    (entity.map EntityRef.id).map (EntityRef.new kind) = entity ↔
      ∀ e, entity = some e → e.kind = kind ∧ e.name = none := by
  cases entity with
  | none => exact ⟨fun _ e equal => absurd equal (Option.some_ne_none e).symm, fun _ => rfl⟩
  | some e =>
      rcases e with ⟨own, id, name⟩
      constructor
      · rintro same _ ⟨⟩
        have equal := Option.some.inj same
        exact ⟨(congrArg EntityRef.kind equal).symm, (congrArg EntityRef.name equal).symm⟩
      · intro plain
        have both := plain _ rfl
        rw [show own = kind from both.1, show name = none from both.2]
        rfl

/-- A column of printed fields carries fields that survive. -/
theorem fields_stored {json : JsonText} {number : String → String} {fields : FieldMap}
    (rereads : json.Rereads number fields) :
    (json.parse (json.print fields)).getD .empty = fields ↔
      ∀ entry ∈ fields.entries, entry.2.Survives number objectRoom := by
  rw [← rereadEntries_eq_self_iff, ← rereads]
  cases parsed : json.parse (json.print fields) with
  | some read =>
      rw [Option.getD_some, Option.map_some, Option.some_inj,
        FieldMap.entries_injective.eq_iff]
  | none =>
      rw [JsonText.Rereads, parsed] at rereads
      refine iff_of_false (fun empty => ?_) (by simp)
      rw [← empty] at rereads
      cases rereads

/-! ## Events and batches -/

variable {json : JsonText} {number : String → String}

theorem documented_stored_iff {ev : Event} (rereads : json.Rereads number ev.fields) :
    documented (stored json ev) = documented ev ↔ Carried number ev := by
  constructor
  · intro same
    refine ⟨?_, ?_, ?_, ?_, ?_⟩
    · exact (ocsfClass_stored ev.ocsfClass).mp (congrArg Event.ocsfClass same)
    · exact (entity_stored_kind ev.host "host").mp (congrArg Event.host same)
    · exact (entity_stored ev.actor "user").mp (congrArg Event.actor same)
    · exact (entity_stored ev.target "host").mp (congrArg Event.target same)
    · exact (fields_stored rereads).mp (congrArg Event.fields same)
  · intro carried
    simp only [documented, stored, rowToEvent, eventToRow, severity_stored,
      (fields_stored rereads).mpr carried.fields,
      (ocsfClass_stored ev.ocsfClass).mpr carried.ocsfClass,
      (entity_stored_kind ev.host "host").mpr carried.host,
      (entity_stored ev.actor "user").mpr carried.actor,
      (entity_stored ev.target "host").mpr carried.target]

/-- A batch comes back as it is documented if and only if the columns can carry each of
its events. -/
theorem roundTrip_iff (json : JsonText) (number : String → String) (events : List Event)
    (rereads : ∀ ev, ev ∈ events → json.Rereads number ev.fields) :
    (batchIntoEvents json (eventsToBatch json events)).map documented = events.map documented ↔
      ∀ ev, ev ∈ events → Carried number ev := by
  rw [batchIntoEvents_eventsToBatch, List.map_map, List.map_inj_left]
  exact forall₂_congr fun ev member => documented_stored_iff (rereads ev member)

/-- An event of an endpoint agent, on a host that may have a name. -/
def agentEvent (name : Option String) : Event where
  id := "e1"
  ts := 42
  ingestTs := 43
  ocsfClass := .processActivity
  tenant := "acme"
  severity := .informational
  host := some { kind := "host", id := "agent-1", name := name }
  actor := some { kind := "process", id := "agent-1:7" }
  target := none
  message := "process start"
  fields := .empty
  templateId := none
  labels := ["edr"]
  raw := []

/-- The fields of a connection. -/
def portFields : FieldMap :=
  ⟨[("dst_port", .number "22")], List.pairwise_singleton _ _⟩

/-- What a printer and a parser do with these fields, and with none. -/
def portJson : JsonText where
  print := fun fields =>
    match fields.get "dst_port" with
    | some (.number text) => "\x7b\"dst_port\":" ++ text ++ "\x7d"
    | _ => "\x7b\x7d"
  parse := fun text =>
    if text = "\x7b\"dst_port\":22\x7d" then some portFields else some .empty

/-- A connection on a host without a name. -/
def portEvent : Event :=
  { agentEvent none with ocsfClass := .networkActivity, fields := portFields }

theorem roundTrip_agentEvent :
    (batchIntoEvents portJson (eventsToBatch portJson [agentEvent none, portEvent])).map
        documented = [agentEvent none, portEvent].map documented := by
  have each : ∀ {Good : Event → Prop}, Good (agentEvent none) → Good portEvent →
      ∀ ev ∈ [agentEvent none, portEvent], Good ev := by
    intro Good first second
    exact List.forall_mem_cons.mpr ⟨first, List.forall_mem_singleton.mpr second⟩
  refine (roundTrip_iff portJson id [agentEvent none, portEvent] (each rfl rfl)).mpr
    (each ?_ ?_)
  · refine ⟨?_, ?_, ?_, ?_, ?_⟩
    · rintro uid ⟨⟩
    · rintro entity ⟨⟩
      exact ⟨rfl, rfl⟩
    · rintro entity ⟨⟩
      rfl
    · rintro entity ⟨⟩
    · exact fun _ impossible => absurd impossible List.not_mem_nil
  · refine ⟨?_, ?_, ?_, ?_, ?_⟩
    · rintro uid ⟨⟩
    · rintro entity ⟨⟩
      exact ⟨rfl, rfl⟩
    · rintro entity ⟨⟩
      rfl
    · rintro entity ⟨⟩
    · exact List.forall_mem_singleton.mpr rfl

theorem not_roundTrip :
    ¬ ∀ (json : JsonText) (number : String → String) (events : List Event),
      (∀ ev, ev ∈ events → json.Rereads number ev.fields) →
      (batchIntoEvents json (eventsToBatch json events)).map documented =
        events.map documented := by
  intro always
  have same := always plainJson id [agentEvent (some "web01")] fun ev member => by
    rw [List.mem_singleton.mp member]
    rfl
  have hosts := congrArg (List.map Event.host) same
  exact absurd hosts (by decide)

end Index
end Sigil
