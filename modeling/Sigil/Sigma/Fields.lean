import Mathlib.Data.List.Forall2
import Sigil.Core.Event
import Sigil.Core.Text
import Sigil.Library.Keyed

namespace Sigil
namespace Sigma

/-!
# Resolving the fields of an event

A Sigma field name stands for the values of the event field of that name, else of the
fields that differ from it in ASCII case only, else of one of the parts of the normalized
event that the name is an alias of.
-/

open Sigil.Core Library

/-- A value as a list, without an empty one. -/
def nonempty (value : String) : List String :=
  if value.isEmpty then [] else [value]

/-- The identifier of an entity, when there is one and it is not empty. -/
def entityId (entity : Option EntityRef) : List String :=
  (entity.map fun e => nonempty e.id).getD []

/-- The identifier of an entity of one kind. -/
def entityIdOfKind (kind : String) (entity : Option EntityRef) : List String :=
  entityId (entity.filter fun e => e.kind = kind)

/-- The part of the event that a lower-case name is an alias of. -/
def resolveAlias (event : Event) : String → List String
  | "message" | "msg" => nonempty event.message
  | "user" | "username" | "user.name" | "targetusername" | "subjectusername" =>
      entityIdOfKind "user" event.actor
  | "host" | "hostname" | "computer" | "computername" | "host.name" => entityId event.host
  | "image" | "process" | "process.name" | "processname" =>
      entityIdOfKind "process" event.actor
  | "actor" | "actor.name" => entityId event.actor
  | "target" | "target.name" | "targetobject" => entityId event.target
  | "commandline" | "command_line" | "cmd" => nonempty event.message
  | _ => []

/-- The candidate values of a Sigma field name. -/
def resolveField (event : Event) (name : String) : List String :=
  match event.fields.get name with
  | some value => [valueToString value]
  | none =>
      let hits := (event.fields.entries.filter fun entry => eqIgnoreAsciiCase entry.1 name).map
        fun entry => valueToString entry.2
      if hits.isEmpty then resolveAlias event (toAsciiLowercase name) else hits

/-! ## What a name stands for -/

/-- The names differ in the case of ASCII letters at most. -/
def SameName (left right : String) : Prop :=
  List.Forall₂ (fun c d => c.toLower = d.toLower) left.toList right.toList

/-- A part of the normalized event that has names of its own. -/
inductive Part where
  | message
  | user
  | host
  | process
  | actor
  | target

namespace Part

def names : Part → List String
  | .message => ["message", "msg", "commandline", "command_line", "cmd"]
  | .user => ["user", "username", "user.name", "targetusername", "subjectusername"]
  | .host => ["host", "hostname", "computer", "computername", "host.name"]
  | .process => ["image", "process", "process.name", "processname"]
  | .actor => ["actor", "actor.name"]
  | .target => ["target", "target.name", "targetobject"]

/-- The part shows this text in the event. -/
def Shows (event : Event) : Part → String → Prop
  | .message, text => event.message = text
  | .user, text => ∃ entity ∈ event.actor, entity.kind = "user" ∧ entity.id = text
  | .host, text => ∃ entity ∈ event.host, entity.id = text
  | .process, text => ∃ entity ∈ event.actor, entity.kind = "process" ∧ entity.id = text
  | .actor, text => ∃ entity ∈ event.actor, entity.id = text
  | .target, text => ∃ entity ∈ event.target, entity.id = text

end Part

/-- A name stands for the value of the field of this very name; where there is none, for the
values of the fields whose names differ in case only; where there are none, for what a part of
the event of this name shows, if it is not empty. -/
inductive StandsFor (event : Event) (name : String) : String → Prop where
  | field {value : Json} (isField : (name, value) ∈ event.fields.entries) :
      StandsFor event name (valueToString value)
  | anyCase {key : String} {value : Json} (absent : name ∉ event.fields.entries.map Prod.fst)
      (isField : (key, value) ∈ event.fields.entries) (same : SameName key name) :
      StandsFor event name (valueToString value)
  | part {text : String} (part : Part) (absent : ∀ entry ∈ event.fields.entries,
      ¬ SameName entry.1 name) (named : ∃ other ∈ part.names, SameName other name)
      (shows_ : part.Shows event text) (some_ : text ≠ "") : StandsFor event name text

/-! ### The lookup finds it -/

theorem sameName_iff {left right : String} :
    SameName left right ↔ toAsciiLowercase left = toAsciiLowercase right := by
  rw [SameName, toAsciiLowercase, toAsciiLowercase, String.ofList_inj, ← List.forall₂_eq_eq_eq,
    List.forall₂_map_left_iff, List.forall₂_map_right_iff]

theorem SameName.refl (name : String) : SameName name name :=
  sameName_iff.mpr rfl

/-- The names of the parts are in lower case. -/
theorem Part.names_lower (part : Part) :
    ∀ name ∈ part.names, toAsciiLowercase name = name := by
  cases part <;> decide

theorem mem_nonempty {text value : String} :
    text ∈ nonempty value ↔ value = text ∧ text ≠ "" := by
  rw [nonempty]
  split
  · next empty =>
      rw [String.isEmpty_iff] at empty
      rw [empty]
      exact iff_of_false List.not_mem_nil fun both => both.2 both.1.symm
  · next some_ =>
      rw [String.isEmpty_iff] at some_
      rw [List.mem_singleton]
      exact ⟨fun same => ⟨same.symm, same ▸ some_⟩, fun both => both.1.symm⟩

theorem mem_entityId {text : String} {entity : Option EntityRef} :
    text ∈ entityId entity ↔ (∃ e ∈ entity, e.id = text) ∧ text ≠ "" := by
  cases entity with
  | none => simp [entityId]
  | some e => simp [entityId, mem_nonempty]

theorem mem_entityIdOfKind {kind text : String} {entity : Option EntityRef} :
    text ∈ entityIdOfKind kind entity ↔
      (∃ e ∈ entity, e.kind = kind ∧ e.id = text) ∧ text ≠ "" := by
  rw [entityIdOfKind, mem_entityId]
  simp [and_assoc]

/-- The texts of a part, without an empty one. -/
def Part.texts (event : Event) : Part → List String
  | .message => nonempty event.message
  | .user => entityIdOfKind "user" event.actor
  | .host => entityId event.host
  | .process => entityIdOfKind "process" event.actor
  | .actor => entityId event.actor
  | .target => entityId event.target

theorem Part.mem_texts {event : Event} {part : Part} {text : String} :
    text ∈ part.texts event ↔ part.Shows event text ∧ text ≠ "" := by
  cases part with
  | message => exact mem_nonempty
  | user => exact mem_entityIdOfKind
  | host => exact mem_entityId
  | process => exact mem_entityIdOfKind
  | actor => exact mem_entityId
  | target => exact mem_entityId

theorem resolveAlias_named (event : Event) {part : Part} {lower : String}
    (named : lower ∈ part.names) : resolveAlias event lower = part.texts event := by
  cases part <;> simp only [Part.names, List.mem_cons, List.not_mem_nil, or_false] at named
  case message => rcases named with rfl | rfl | rfl | rfl | rfl <;> rfl
  case user => rcases named with rfl | rfl | rfl | rfl | rfl <;> rfl
  case host => rcases named with rfl | rfl | rfl | rfl | rfl <;> rfl
  case process => rcases named with rfl | rfl | rfl | rfl <;> rfl
  case actor => rcases named with rfl | rfl <;> rfl
  case target => rcases named with rfl | rfl | rfl <;> rfl

theorem resolveAlias_other (event : Event) {lower : String}
    (other : ∀ part : Part, lower ∉ part.names) : resolveAlias event lower = [] := by
  have message := other .message
  have user := other .user
  have host := other .host
  have process := other .process
  have actor := other .actor
  have target := other .target
  unfold resolveAlias
  split
  case h_25 => rfl
  all_goals simp [Part.names] at message user host process actor target

theorem mem_resolveAlias {event : Event} {lower text : String} :
    text ∈ resolveAlias event lower ↔
      ∃ part : Part, lower ∈ part.names ∧ part.Shows event text ∧ text ≠ "" := by
  by_cases known : ∃ part : Part, lower ∈ part.names
  · constructor
    · intro member
      rcases known with ⟨part, named⟩
      rw [resolveAlias_named event named] at member
      exact ⟨part, named, Part.mem_texts.mp member⟩
    · rintro ⟨part, named, shown⟩
      rw [resolveAlias_named event named]
      exact Part.mem_texts.mpr shown
  · rw [resolveAlias_other event (not_exists.mp known)]
    exact iff_of_false List.not_mem_nil fun ⟨part, named, _⟩ => known ⟨part, named⟩

theorem get_eq_some_iff {fields : FieldMap} {name : String} {value : Json} :
    fields.get name = some value ↔ (name, value) ∈ fields.entries := by
  constructor
  · intro found
    rcases List.lookup_eq_some_iff.mp found with ⟨before, after, whole, _⟩
    rw [whole]
    exact List.mem_append_right before List.mem_cons_self
  · exact Keyed.lookup_of_mem (fields.ordered.imp ne_of_lt)

theorem get_eq_none_iff {fields : FieldMap} {name : String} :
    fields.get name = none ↔ name ∉ fields.entries.map Prod.fst := by
  rw [Option.eq_none_iff_forall_ne_some, List.mem_map]
  constructor
  · rintro none_ ⟨⟨_, value⟩, member, rfl⟩
    exact none_ value (get_eq_some_iff.mpr member)
  · intro absent value found
    exact absent ⟨(name, value), get_eq_some_iff.mp found, rfl⟩

/-- The lookup finds what the name stands for. -/
theorem mem_resolveField {event : Event} {name text : String} :
    text ∈ resolveField event name ↔ StandsFor event name text := by
  rw [resolveField]
  cases found : event.fields.get name with
  | some value =>
      have isField := get_eq_some_iff.mp found
      rw [List.mem_singleton]
      constructor
      · rintro rfl
        exact .field isField
      · rintro (@⟨other, isOther⟩ | @⟨key, other, absent, _,
          _⟩ | ⟨part, absent, _, _, _⟩)
        · rw [← get_eq_some_iff, found] at isOther
          cases isOther
          rfl
        · exact absurd (List.mem_map_of_mem isField) absent
        · exact absurd (SameName.refl name) (absent _ isField)
  | none =>
      have absent := get_eq_none_iff.mp found
      have hit : ∀ entry : String × Json, eqIgnoreAsciiCase entry.1 name = true ↔
          SameName entry.1 name := by
        intro entry
        rw [eqIgnoreAsciiCase, decide_eq_true_iff, sameName_iff]
      dsimp only
      split
      · next noHits =>
          rw [List.isEmpty_iff, List.map_eq_nil_iff, List.filter_eq_nil_iff] at noHits
          have none_ : ∀ entry ∈ event.fields.entries, ¬ SameName entry.1 name :=
            fun entry member same => noHits entry member ((hit entry).mpr same)
          rw [mem_resolveAlias]
          constructor
          · rintro ⟨part, named, shown, some_⟩
            refine .part part none_ ⟨_, named, ?_⟩ shown some_
            rw [sameName_iff, part.names_lower _ named]
          · rintro (⟨isField⟩ | ⟨_, isField, same⟩ | ⟨part, _,
              ⟨other, named, same⟩, shown, some_⟩)
            · exact absurd (SameName.refl name) (none_ _ isField)
            · exact absurd same (none_ _ isField)
            · rw [sameName_iff, part.names_lower other named] at same
              exact ⟨part, same ▸ named, shown, some_⟩
      · next hits =>
          rw [List.isEmpty_iff, List.map_eq_nil_iff, List.filter_eq_nil_iff] at hits
          rw [List.mem_map]
          constructor
          · rintro ⟨⟨key, value⟩, member, rfl⟩
            rcases List.mem_filter.mp member with ⟨isField, same⟩
            exact .anyCase absent isField ((hit _).mp same)
          · rintro (⟨isField⟩ | @⟨key, value, _, isField,
              same⟩ | ⟨part, none_, _, _, _⟩)
            · exact absurd (List.mem_map_of_mem isField) absent
            · exact ⟨(key, value), List.mem_filter.mpr ⟨isField, (hit _).mpr same⟩, rfl⟩
            · exact absurd (fun entry member same => none_ entry member ((hit entry).mp same)) hits

end Sigma
end Sigil
