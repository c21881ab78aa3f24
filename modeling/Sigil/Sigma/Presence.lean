import Sigil.Sigma.Denotation

namespace Sigil
namespace Sigma

/-!
# Fields that are absent or empty

A condition with the value null asks for a field that is absent or empty.  The lookup
leaves out an empty part of the normalized event.  What is stored under the name of the
field it keeps as a text, null and the empty text included.
-/

open Sigil.Core Library

/-- The values stored under a name: the one of this very key, else those of the keys that
differ from it in ASCII case only. -/
def storedValues (event : Event) (name : String) : List Json :=
  match event.fields.get name with
  | some value => [value]
  | none => (event.fields.entries.filter fun entry => eqIgnoreAsciiCase entry.1 name).map Prod.snd

/-- The part of the event that a lower-case name is an alias of, empty or not. -/
def aliasPart (event : Event) : String → Option String
  | "message" | "msg" => some event.message
  | "user" | "username" | "user.name" | "targetusername" | "subjectusername" =>
      (event.actor.filter fun e => e.kind = "user").map EntityRef.id
  | "host" | "hostname" | "computer" | "computername" | "host.name" =>
      event.host.map EntityRef.id
  | "image" | "process" | "process.name" | "processname" =>
      (event.actor.filter fun e => e.kind = "process").map EntityRef.id
  | "actor" | "actor.name" => event.actor.map EntityRef.id
  | "target" | "target.name" | "targetobject" => event.target.map EntityRef.id
  | "commandline" | "command_line" | "cmd" => some event.message
  | _ => none

/-- Null or the empty text. -/
def Blank (value : Json) : Prop :=
  value = .null ∨ value = .string ""

/-- What a name stands for is missing, null or the empty text. -/
def AbsentOrEmpty (event : Event) (name : String) : Prop :=
  (∀ value ∈ storedValues event name, Blank value) ∧
    (storedValues event name = [] →
      ∀ part, aliasPart event (toAsciiLowercase name) = some part → part = "")

/-- Null, or a list of nulls. -/
def OnlyNull (value : Yaml) : Prop :=
  value = .null ∨ ∃ n, value = .sequence (List.replicate (n + 1) .null)

/-! ## The three lookups -/

theorem nonempty_eq_nil_iff (part : String) : nonempty part = [] ↔ part = "" := by
  simp [nonempty]

theorem resolveAlias_eq (event : Event) (name : String) :
    resolveAlias event name = ((aliasPart event name).map nonempty).getD [] := by
  unfold resolveAlias aliasPart entityIdOfKind entityId
  split <;> simp [Function.comp_def]

theorem resolveField_eq (event : Event) (name : String) :
    resolveField event name =
      if storedValues event name = [] then resolveAlias event (toAsciiLowercase name)
      else (storedValues event name).map valueToString := by
  unfold resolveField storedValues
  cases event.fields.get name with
  | some value => simp
  | none =>
      simp only [List.isEmpty_iff, List.map_eq_nil_iff, List.map_map]
      rfl

/-- The lookup finds nothing when nothing is stored under the name and the part that it is an
alias of is missing or empty. -/
theorem resolveField_eq_nil_iff (event : Event) (name : String) :
    resolveField event name = [] ↔ storedValues event name = [] ∧ AbsentOrEmpty event name := by
  rw [resolveField_eq, AbsentOrEmpty]
  by_cases none : storedValues event name = []
  · rw [if_pos none, resolveAlias_eq]
    cases aliasPart event (toAsciiLowercase name) with
    | none => simp [none]
    | some part => simp [none, nonempty_eq_nil_iff]
  · simp [none]

/-! ## The condition -/

variable {lib : Libraries}

theorem buildPreds_null {value : Yaml} (null : OnlyNull value) (mods : Modifiers) :
    ∃ n, buildPreds lib value mods = .ok (List.replicate (n + 1) .isNull) := by
  rcases null with rfl | ⟨n, rfl⟩
  · exact ⟨0, rfl⟩
  · refine ⟨n, ?_⟩
    apply Pointwise.mapM_ok
    simp [List.forall₂_iff_get, scalarStr, StringPredicate.build]

/-- The condition of a field without modifiers. -/
theorem compileField_null (lib : Libraries) {field : String} (plain : '|' ∉ field.toList) :
    compileField lib (.string field, .null) =
      .ok { field := field, all := false, preds := [.isNull] } := by
  have parsed := parse_key { field := field, modifiers := [], values := [], fieldPlain := plain }
  simp only [FieldTest.key, List.map_nil, List.flatMap_nil, List.append_nil,
    String.ofList_toList] at parsed
  simp [compileField, Yaml.asStr, bind, Except.bind, parsed, buildPreds, FieldTest.mods]
  rfl

/-- With or without the modifier `all`, the condition holds when the lookup finds nothing. -/
theorem eval_null {key value : Yaml} {cond : FieldCond lib}
    (compiled : compileField lib (key, value) = .ok cond) (null : OnlyNull value) (event : Event) :
    cond.eval event = true ↔ resolveField event cond.field = [] := by
  rcases Pointwise.of_bind_ok compiled with ⟨text, -, named⟩
  rcases Pointwise.of_bind_ok named with ⟨⟨field, mods⟩, -, valued⟩
  rcases Pointwise.of_bind_ok valued with ⟨preds, isPreds, whole⟩
  rcases buildPreds_null null mods with ⟨n, built⟩
  cases Except.ok.inj (built.symm.trans isPreds)
  cases Except.ok.inj whole
  simp [FieldCond.eval]

/-- The condition on null asks for an absent or empty field exactly when nothing is stored
under the name of the field, or something stored there is neither null nor empty. -/
theorem null_iff {key value : Yaml} {cond : FieldCond lib}
    (compiled : compileField lib (key, value) = .ok cond) (null : OnlyNull value) (event : Event) :
    (cond.eval event = true ↔ AbsentOrEmpty event cond.field) ↔
      storedValues event cond.field = [] ∨
        ∃ stored ∈ storedValues event cond.field, ¬ Blank stored := by
  rw [eval_null compiled null, resolveField_eq_nil_iff]
  by_cases none : storedValues event cond.field = []
  · simp [none]
  · simp only [none, false_and, false_or, false_iff, AbsentOrEmpty, false_implies, and_true]
    push Not
    rfl

/-- A user whose name is stored as null. -/
def anonymous : Event where
  id := "e1"
  ts := 1
  ingestTs := 1
  ocsfClass := .authentication
  tenant := "acme"
  severity := .low
  host := none
  actor := none
  target := none
  message := ""
  fields := { entries := [("user", .null)], ordered := by simp }
  templateId := none
  labels := []
  raw := []

theorem null_iff_missing :
    ∃ cond, compileField asciiLibraries (.string "src_ip", .null) = .ok cond ∧
      (cond.eval anonymous = true ↔ AbsentOrEmpty anonymous cond.field) := by
  have compiled := compileField_null asciiLibraries (show '|' ∉ "src_ip".toList by decide)
  refine ⟨_, compiled, (null_iff compiled (Or.inl rfl) anonymous).mpr (Or.inl ?_)⟩
  rfl

theorem not_null_iff_absentOrEmpty : ¬ ∀ (lib : Libraries) (key value : Yaml)
    (cond : FieldCond lib) (event : Event), compileField lib (key, value) = .ok cond →
      OnlyNull value → (cond.eval event = true ↔ AbsentOrEmpty event cond.field) := by
  intro law
  have compiled := compileField_null asciiLibraries (show '|' ∉ "user".toList by decide)
  have holds := law asciiLibraries (.string "user") .null _ anonymous compiled (Or.inl rfl)
  have stored : storedValues anonymous "user" = [.null] := rfl
  have absent : AbsentOrEmpty anonymous "user" := by
    simp [AbsentOrEmpty, stored, Blank]
  have found := (eval_null compiled (Or.inl rfl) anonymous).mp (holds.mpr absent)
  exact absurd found (by decide)

end Sigma
end Sigil
