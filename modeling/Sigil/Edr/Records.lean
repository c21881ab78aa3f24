import Mathlib
import Sigil.Edr.Enrollment

namespace Sigil
namespace Edr

/-!
# Records and their bodies

The body of a saved object is read field by field, by name or, from an array, by position.  An
optional field may be missing, and so may the fields with a default; other fields may not.
Timestamps and sizes are integers of any size.
-/

open Sigil.Core Storage

/-- A record is an object, or an array of at most all its fields. -/
def isRecord (count : Nat) : Json → Bool
  | .object _ => true
  | .array items => items.length ≤ count
  | _ => false

/-- A field of a record. -/
def field (index : Nat) (name : String) : Json → Option Json
  | .object entries => entries.lookup name
  | .array items => items[index]?
  | _ => none

def readString : Json → Option String
  | .string value => some value
  | _ => none

def readBool : Json → Option Bool
  | .bool value => some value
  | _ => none

def readInt : Json → Option Int
  | .number text => text.toInt?
  | _ => none

def readNat : Json → Option Nat
  | .number text => text.toNat?
  | _ => none

def readUInt32 (json : Json) : Option UInt32 :=
  (readNat json).bind fun n => if n < UInt32.size then some (UInt32.ofNat n) else none

def readUInt64 (json : Json) : Option UInt64 :=
  (readNat json).bind fun n => if n < UInt64.size then some (UInt64.ofNat n) else none

def readStrings : Json → Option (List String)
  | .array items => items.mapM readString
  | _ => none

/-- A field that may be missing or null. -/
def optional {α : Type} (read : Json → Option α) : Option Json → Option (Option α)
  | none => some none
  | some .null => some none
  | some json => (read json).map some

/-- A field with a default. -/
def defaulted {α : Type} (read : Json → Option α) (default : α) : Option Json → Option α
  | none => some default
  | some json => read json

def AgentRecord.fromJson (json : Json) : Option AgentRecord := do
  guard (isRecord 10 json)
  let agentId ← (field 0 "agent_id" json).bind readString
  let hostname ← (field 1 "hostname" json).bind readString
  let os ← (field 2 "os" json).bind readString
  let osVersion ← (field 3 "os_version" json).bind readString
  let agentVersion ← (field 4 "agent_version" json).bind readString
  let fingerprint ← (field 5 "fingerprint" json).bind readString
  let sessionToken ← (field 6 "session_token" json).bind readString
  let enrolledTs ← (field 7 "enrolled_ts" json).bind readInt
  let lastSeen ← defaulted readInt 0 (field 8 "last_seen" json)
  let isolated ← defaulted readBool false (field 9 "isolated" json)
  return {
    agentId := agentId
    hostname := hostname
    os := os
    osVersion := osVersion
    agentVersion := agentVersion
    fingerprint := fingerprint
    sessionToken := sessionToken
    enrolledTs := enrolledTs
    lastSeen := lastSeen
    isolated := isolated }

def CommandParams.fromJson (json : Json) : Option CommandParams := do
  guard (isRecord 5 json)
  let pid ← optional readUInt32 (field 0 "pid" json)
  let hashSha256 ← optional readString (field 1 "hash_sha256" json)
  let path ← optional readString (field 2 "path" json)
  let maxBytes ← optional readUInt64 (field 3 "max_bytes" json)
  let allowlistCidrs ← optional readStrings (field 4 "allowlist_cidrs" json)
  return {
    pid := pid
    hashSha256 := hashSha256
    path := path
    maxBytes := maxBytes
    allowlistCidrs := allowlistCidrs }

def CommandRecord.fromJson (json : Json) : Option CommandRecord := do
  guard (isRecord 11 json)
  let commandId ← (field 0 "command_id" json).bind readString
  let agentId ← (field 1 "agent_id" json).bind readString
  let commandType ← (field 2 "command_type" json).bind readString
  let params ← (field 3 "params" json).bind CommandParams.fromJson
  let status ← (field 4 "status" json).bind readString
  let issuedBy ← (field 5 "issued_by" json).bind readString
  let issuedTs ← (field 6 "issued_ts" json).bind readInt
  let resultOk ← optional readBool (field 7 "result_ok" json)
  let resultMessage ← optional readString (field 8 "result_message" json)
  let resultBytes ← optional readNat (field 9 "result_bytes" json)
  let completedTs ← optional readInt (field 10 "completed_ts" json)
  return {
    commandId := commandId
    agentId := agentId
    commandType := commandType
    params := params
    status := status
    issuedBy := issuedBy
    issuedTs := issuedTs
    resultOk := resultOk
    resultMessage := resultMessage
    resultBytes := resultBytes
    completedTs := completedTs }

/-! ## Reading what has been written -/

@[simp] theorem readInt_repr (n : Int) : readInt (.number n.repr) = some n :=
  Int.toInt?_repr n

@[simp] theorem readNat_repr (n : Nat) : readNat (.number n.repr) = some n :=
  Nat.toNat?_repr n

@[simp] theorem readStrings_map (list : List String) :
    readStrings (.array (list.map .string)) = some list := by
  rw [readStrings]
  induction list with
  | nil => rfl
  | cons first list inductionHypothesis =>
      rw [List.map_cons, List.mapM_cons, inductionHypothesis]
      rfl

theorem AgentRecord.fromJson_toJson (rec_ : AgentRecord) :
    AgentRecord.fromJson rec_.toJson = some rec_ := by
  simp [AgentRecord.fromJson, AgentRecord.toJson, isRecord, field, List.lookup,
    readString, readBool, defaulted]

section Entry

variable {α : Type} {name other : String} {toJson : α → Json} {read : Json → Option α}
  {value : Option α} {rest : List (String × Json)}

/-- An entry of another name is passed. -/
theorem lookup_cons_ne {json : Json} (different : (other == name) = false) :
    ((name, json) :: rest).lookup other = rest.lookup other := by
  rw [List.lookup_cons, different]

/-- So is an optional one. -/
theorem lookup_entry_ne (different : (other == name) = false) :
    (entry name toJson value ++ rest).lookup other = rest.lookup other := by
  cases value with
  | none => rfl
  | some value => exact lookup_cons_ne different

/-- An optional entry is read as it was written, if nothing of its name follows. -/
theorem optional_entry (reads : ∀ a, toJson a ≠ .null ∧ read (toJson a) = some a)
    (last_ : rest.lookup name = none) :
    optional read ((entry name toJson value ++ rest).lookup name) = some value := by
  cases value with
  | none =>
      change optional read (rest.lookup name) = _
      rw [last_]
      rfl
  | some value =>
      change optional read (((name, toJson value) :: rest).lookup name) = _
      rw [List.lookup_cons_self]
      have nonnull := (reads value).1
      cases json : toJson value with
      | null => exact absurd json nonnull
      | bool | number | string | array | object =>
          rw [optional, ← json, (reads value).2]
          · rfl
          · rintro ⟨⟩

end Entry

theorem string_reads (text : String) :
    Json.string text ≠ .null ∧ readString (.string text) = some text :=
  ⟨by rintro ⟨⟩, rfl⟩

theorem bool_reads (value : Bool) :
    Json.bool value ≠ .null ∧ readBool (.bool value) = some value :=
  ⟨by rintro ⟨⟩, rfl⟩

theorem nat_reads (n : Nat) :
    Json.number (toString n) ≠ .null ∧ readNat (.number (toString n)) = some n :=
  ⟨by rintro ⟨⟩, readNat_repr n⟩

theorem int_reads (n : Int) :
    Json.number (toString n) ≠ .null ∧ readInt (.number (toString n)) = some n :=
  ⟨by rintro ⟨⟩, readInt_repr n⟩

theorem strings_reads (list : List String) :
    Json.array (list.map .string) ≠ .null ∧
      readStrings (.array (list.map .string)) = some list :=
  ⟨by rintro ⟨⟩, readStrings_map list⟩

theorem uInt32_reads (n : UInt32) :
    Json.number (toString n) ≠ .null ∧ readUInt32 (.number (toString n)) = some n := by
  refine ⟨by rintro ⟨⟩, ?_⟩
  rw [readUInt32, show toString n = n.toNat.repr from rfl, readNat_repr, Option.bind_some,
    if_pos n.toNat_lt, UInt32.ofNat_toNat]

theorem uInt64_reads (n : UInt64) :
    Json.number (toString n) ≠ .null ∧ readUInt64 (.number (toString n)) = some n := by
  refine ⟨by rintro ⟨⟩, ?_⟩
  rw [readUInt64, show toString n = n.toNat.repr from rfl, readNat_repr, Option.bind_some,
    if_pos n.toNat_lt, UInt64.ofNat_toNat]

theorem CommandParams.fromJson_toJson (params : CommandParams) :
    CommandParams.fromJson params.toJson = some params := by
  rw [CommandParams.fromJson, CommandParams.toJson,
    ← List.append_nil (entry "pid" (fun n => .number (toString n)) params.pid)]
  simp (disch := decide) only [field, List.append_assoc, lookup_entry_ne]
  rw [optional_entry uInt32_reads rfl,
    optional_entry string_reads (by simp (disch := decide) only [lookup_entry_ne, List.lookup_nil]),
    optional_entry string_reads (by simp (disch := decide) only [lookup_entry_ne, List.lookup_nil]),
    optional_entry uInt64_reads (by simp (disch := decide) only [lookup_entry_ne, List.lookup_nil]),
    optional_entry strings_reads
      (by simp (disch := decide) only [lookup_entry_ne, List.lookup_nil])]
  rfl

theorem CommandRecord.fromJson_toJson (rec_ : CommandRecord) :
    CommandRecord.fromJson rec_.toJson = some rec_ := by
  have absent : ∀ {name : String}, (name == "status") = false →
      [("status", Json.string rec_.status)].lookup name = none :=
    fun different => lookup_cons_ne different
  rw [CommandRecord.fromJson, CommandRecord.toJson]
  simp (disch := decide) only [field, List.append_assoc, List.cons_append, List.nil_append,
    List.lookup_cons_self, lookup_cons_ne, lookup_entry_ne]
  rw [optional_entry bool_reads (absent (by decide)),
    optional_entry string_reads (by simp (disch := decide) only [lookup_entry_ne, absent]),
    optional_entry nat_reads (by simp (disch := decide) only [lookup_entry_ne, absent]),
    optional_entry int_reads
      (by simp (disch := decide) only [lookup_cons_ne, lookup_entry_ne, absent])]
  simp only [Option.bind_some, readString, (int_reads rec_.issuedTs).2,
    CommandParams.fromJson_toJson]
  rfl

/-- What the gateway writes it reads again. -/
theorem decoders_reads :
    Decoders.Reads { agent := AgentRecord.fromJson, command := CommandRecord.fromJson } where
  agent := AgentRecord.fromJson_toJson
  command := CommandRecord.fromJson_toJson

end Edr
end Sigil
