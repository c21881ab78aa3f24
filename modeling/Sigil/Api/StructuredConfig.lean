import Sigil.Api.ConfigExt
import Sigil.Library.Keyed
import Mathlib.Data.List.Forall2

namespace Sigil
namespace Api

/-!
# The structured configuration

The form editor is given a configuration without its secrets and sends one back.  Secrets that
come back blank are filled in from the stored configuration: the credentials of a user by the
name of the user, the enrollment tokens as a whole.
-/

open Sigil.Core Library

/-- A declared user with its roles. -/
structure DeclaredUser extends UserConfig where
  roles : List String := []
  deriving DecidableEq, Repr

structure AuthSection where
  enabled : Bool := true
  jwtSecret : String := ""
  tokenTtlSecs : UInt64 := 28800
  users : List DeclaredUser := []
  deriving DecidableEq, Repr

structure EdrSection where
  enabled : Bool := false
  listen : String := "0.0.0.0:50055"
  tlsCert : Option String := none
  tlsKey : Option String := none
  enrollmentTokens : List String := []
  deriving DecidableEq, Repr

/-- A configuration: the sections with secrets, and the other ones, which are only copied. -/
structure StructuredConfig (Rest : Type) where
  auth : AuthSection
  edr : EdrSection
  rest : Rest
  deriving DecidableEq

variable {Rest : Type}

/-- Blank every secret. -/
def redact (cfg : StructuredConfig Rest) : StructuredConfig Rest :=
  { cfg with
    auth :=
      { cfg.auth with
        jwtSecret := ""
        users := cfg.auth.users.map fun u => { u with password := none, passwordHash := none } }
    edr := { cfg.edr with enrollmentTokens := [] } }

/-- Fill in the credentials of a user. -/
def mergeUser (current : List DeclaredUser) (u : DeclaredUser) : DeclaredUser :=
  if u.password = none ∧ u.passwordHash = none then
    match current.find? fun c => c.username = u.username with
    | some cur => { u with password := cur.password, passwordHash := cur.passwordHash }
    | none => u
  else u

/-- Fill in the blank secrets. -/
def mergeSecrets (new current : StructuredConfig Rest) : StructuredConfig Rest :=
  { new with
    auth :=
      { new.auth with
        jwtSecret :=
          if trim new.auth.jwtSecret = "" then current.auth.jwtSecret else new.auth.jwtSecret
        users := new.auth.users.map (mergeUser current.auth.users) }
    edr :=
      { new.edr with
        enrollmentTokens :=
          if new.edr.enrollmentTokens = [] then current.edr.enrollmentTokens
          else new.edr.enrollmentTokens } }

/-! ## Edits -/

/-- Every credential that the user has is a value that is not blank. -/
structure DeclaredUser.Given (u : DeclaredUser) : Prop where
  password : ∀ p, u.password = some p → trim p ≠ ""
  passwordHash : ∀ h, u.passwordHash = some h → trim h ≠ ""

/-- The user has no credential. -/
def DeclaredUser.Bare (u : DeclaredUser) : Prop :=
  u.password = none ∧ u.passwordHash = none

/-- A redacted configuration with other users in it, and with some secrets that are new and not
blank. -/
structure Edited (c new : StructuredConfig Rest) : Prop where
  rest : new.rest = c.rest
  enabled : new.auth.enabled = c.auth.enabled
  tokenTtlSecs : new.auth.tokenTtlSecs = c.auth.tokenTtlSecs
  edr : { new.edr with enrollmentTokens := [] } = { c.edr with enrollmentTokens := [] }
  jwtSecret : new.auth.jwtSecret = "" ∨ trim new.auth.jwtSecret ≠ ""
  users : ∀ u, u ∈ new.auth.users → u.Given
  enrollmentTokens : ∀ t, t ∈ new.edr.enrollmentTokens → trim t ≠ ""

/-- What becomes of a user: its new credentials, else the stored ones of the user of the same
name, else none. -/
structure Restored (stored : List DeclaredUser) (u merged : DeclaredUser) : Prop where
  username : merged.username = u.username
  roles : merged.roles = u.roles
  given : ¬ u.Bare → merged = u
  own : u.Bare → ∀ cur, cur ∈ stored → cur.username = u.username →
    merged.password = cur.password ∧ merged.passwordHash = cur.passwordHash
  unknown : u.Bare → (∀ cur, cur ∈ stored → cur.username ≠ u.username) → merged.Bare

/-- Every new secret is kept, every other one is the stored one, and nothing else differs from
the stored configuration but the users that are declared. -/
structure Merged (c new merged : StructuredConfig Rest) : Prop where
  rest : merged.rest = c.rest
  enabled : merged.auth.enabled = c.auth.enabled
  tokenTtlSecs : merged.auth.tokenTtlSecs = c.auth.tokenTtlSecs
  edr : { merged.edr with enrollmentTokens := [] } = { c.edr with enrollmentTokens := [] }
  jwtSecret : merged.auth.jwtSecret =
    if new.auth.jwtSecret = "" then c.auth.jwtSecret else new.auth.jwtSecret
  users : List.Forall₂ (Restored c.auth.users) new.auth.users merged.auth.users
  enrollmentTokens : merged.edr.enrollmentTokens =
    if new.edr.enrollmentTokens = [] then c.edr.enrollmentTokens else new.edr.enrollmentTokens

/-! ## Users by their names -/

/-- No two users have the same name. -/
def DistinctNames (users : List DeclaredUser) : Prop :=
  (users.map fun u => u.username).Nodup

instance (users : List DeclaredUser) : Decidable (DistinctNames users) :=
  inferInstanceAs (Decidable (List.Nodup _))

variable {stored : List DeclaredUser}

theorem find_username_iff (distinct : DistinctNames stored) {name : String} {cur : DeclaredUser} :
    (stored.find? fun c => c.username = name) = some cur ↔
      cur ∈ stored ∧ cur.username = name :=
  Keyed.find_eq_some_iff distinct

theorem restored_mergeUser (distinct : DistinctNames stored) (u : DeclaredUser) :
    Restored stored u (mergeUser stored u) := by
  by_cases bare : u.password = none ∧ u.passwordHash = none
  · rw [mergeUser, if_pos bare]
    cases found : stored.find? fun c => c.username = u.username with
    | none =>
        have absent : ∀ cur, cur ∈ stored → cur.username ≠ u.username := by
          intro cur member
          have other := List.find?_eq_none.mp found cur member
          rwa [decide_eq_true_eq] at other
        exact {
          username := rfl
          roles := rfl
          given := fun _ => rfl
          own := fun _ cur member named => absurd named (absent cur member)
          unknown := fun _ _ => bare }
    | some cur =>
        have isNamed := (find_username_iff distinct).mp found
        exact {
          username := rfl
          roles := rfl
          given := fun notBare => absurd bare notBare
          own := fun _ other member named => by
            rw [(find_username_iff distinct).mpr ⟨member, named⟩] at found
            cases found
            exact ⟨rfl, rfl⟩
          unknown := fun _ absent => absurd isNamed.2 (absent cur isNamed.1) }
  · rw [mergeUser, if_neg bare]
    exact {
      username := rfl
      roles := rfl
      given := fun _ => rfl
      own := fun isBare => absurd isBare bare
      unknown := fun isBare => absurd isBare bare }

/-- A user that has been redacted gets its own credentials back. -/
theorem mergeUser_redacted (distinct : DistinctNames stored) {u : DeclaredUser}
    (member : u ∈ stored) :
    mergeUser stored { u with password := none, passwordHash := none } = u := by
  rw [mergeUser, if_pos ⟨rfl, rfl⟩]
  have own := (find_username_iff distinct).mpr ⟨member, rfl⟩
  simp only [own]

/-! ## Merging -/

theorem mergeSecrets_redact {c : StructuredConfig Rest} (distinct : DistinctNames c.auth.users) :
    mergeSecrets (redact c) c = c := by
  have users : (c.auth.users.map fun u : DeclaredUser =>
      { u with password := none, passwordHash := none }).map (mergeUser c.auth.users) =
        c.auth.users := by
    rw [List.map_map]
    apply (List.map_congr_left _).trans (List.map_id _)
    intro u member
    exact mergeUser_redacted distinct member
  have blank : trim "" = "" := by decide
  rcases c with ⟨auth, edr, rest⟩
  simp only [mergeSecrets, redact, users, blank, if_true]

/-- Redacting and merging again gives the stored configuration.  After an edit, new secrets are
kept and the others are restored to whom they belong. -/
theorem mergeSecrets_edited {c new : StructuredConfig Rest} (distinct : DistinctNames c.auth.users)
    (edited : Edited c new) :
    mergeSecrets (redact c) c = c ∧ Merged c new (mergeSecrets new c) := by
  refine ⟨mergeSecrets_redact distinct, ?_⟩
  exact {
    rest := by rw [mergeSecrets, edited.rest]
    enabled := by rw [mergeSecrets, edited.enabled]
    tokenTtlSecs := by rw [mergeSecrets, edited.tokenTtlSecs]
    edr := by rw [← edited.edr, mergeSecrets]
    jwtSecret := by
      have blank : trim "" = "" := by decide
      rcases edited.jwtSecret with empty | given
      · simp only [mergeSecrets, empty, blank, if_true]
      · have nonempty : new.auth.jwtSecret ≠ "" := by
          rintro empty
          rw [empty] at given
          exact given blank
        simp only [mergeSecrets, given, nonempty, if_false]
    users := by
      apply List.forall₂_map_right_iff.mpr
      exact List.forall₂_same.mpr fun u _ => restored_mergeUser distinct u
    enrollmentTokens := by rw [mergeSecrets] }

/-- A stored configuration with two users. -/
def storedConfig : StructuredConfig Nat where
  auth :=
    { jwtSecret := "hs256-key"
      users :=
        [{ username := "admin", passwordHash := some "$argon2id$abc", roles := ["admin"] },
          { username := "ana", password := some "secret", roles := ["analyst"] }] }
  edr := { enrollmentTokens := ["tok-a"] }
  rest := 1

/-- The form removes a user, adds one and changes the signing secret. -/
def editedConfig : StructuredConfig Nat where
  auth :=
    { jwtSecret := "rotated-key"
      users := [{ username := "bob" }, { username := "admin", roles := ["admin"] }] }
  edr := {}
  rest := 1

theorem mergeSecrets_edited_studio :
    mergeSecrets (redact storedConfig) storedConfig = storedConfig ∧
      Merged storedConfig editedConfig (mergeSecrets editedConfig storedConfig) := by
  apply mergeSecrets_edited (by decide)
  exact {
    rest := rfl
    enabled := rfl
    tokenTtlSecs := rfl
    edr := rfl
    jwtSecret := Or.inr (by decide +kernel)
    users := by
      have bare : ∀ u, u ∈ editedConfig.auth.users → u.Bare := by
        simp [editedConfig, DeclaredUser.Bare]
      intro u member
      rcases bare u member with ⟨noPassword, noHash⟩
      refine ⟨fun p given => ?_, fun h given => ?_⟩
      · rw [noPassword] at given
        cases given
      · rw [noHash] at given
        cases given
    enrollmentTokens := fun t member => absurd member List.not_mem_nil }

/-! ## The secrets that are left -/

/-- The secrets of a structured configuration. -/
def StructuredConfig.secrets (cfg : StructuredConfig Rest) : Config where
  auth := { jwtSecret := cfg.auth.jwtSecret, users := cfg.auth.users.map DeclaredUser.toUserConfig }
  edr := { enrollmentTokens := cfg.edr.enrollmentTokens }

/-- A redacted configuration has no secret that its text could show. -/
theorem redactYaml_redact (yaml : String) (cfg : StructuredConfig Rest) :
    redactYaml yaml (redact cfg).secrets = yaml := by
  have hidden : ∀ slot, slot ∈ (redact cfg).secrets.slots → slot.hidden = "" := by
    intro slot member
    have blank : trim "" = "" := by decide
    simp only [Config.slots, StructuredConfig.secrets, redact, List.map_map, List.mem_cons,
      List.mem_append, List.mem_flatMap, List.mem_map, List.zipIdx_nil, List.not_mem_nil,
      false_and, exists_false, or_false] at member
    rcases member with rfl | ⟨u, ⟨v, -, rfl⟩, rfl | rfl⟩
    · exact blank
    · rfl
    · rfl
  rw [redactYaml_eq]
  revert hidden
  generalize (redact cfg).secrets.slots = slots
  intro hidden
  induction slots with
  | nil => rfl
  | cons slot slots inductionHypothesis =>
      have here := hidden slot List.mem_cons_self
      rw [List.foldl_cons, Slot.redact, if_pos here]
      exact inductionHypothesis fun other member => hidden other (List.mem_cons_of_mem _ member)

end Api
end Sigil
