import Sigil.Core.Text
import Sigil.Library.Masking

namespace Sigil
namespace Api

/-!
# Secrets of the configuration

The text of the configuration is shown with placeholders for the secrets, and in a text
that is submitted the placeholders are replaced by the secrets of the current file.  Both go
through the secrets one after another and replace text, wherever it stands.
-/

open Sigil.Core Library

/-- A declared user. -/
structure UserConfig where
  username : String
  passwordHash : Option String := none
  password : Option String := none
  deriving DecidableEq, Repr

structure AuthConfig where
  jwtSecret : String := ""
  users : List UserConfig := []
  deriving DecidableEq, Repr

structure EdrConfig where
  enrollmentTokens : List String := []
  deriving DecidableEq, Repr

/-- The secrets of a configuration. -/
structure Config where
  auth : AuthConfig := {}
  edr : EdrConfig := {}
  deriving DecidableEq, Repr

def jwtPh : String :=
  "<redacted:jwt_secret>"

def userHashPh (u : String) : String :=
  "<redacted:user:" ++ u ++ ":password_hash>"

def userPwPh (u : String) : String :=
  "<redacted:user:" ++ u ++ ":password>"

def tokenPh (i : Nat) : String :=
  "<redacted:edr_token:" ++ toString i ++ ">"

/-- Replace every occurrence of a pattern that is not empty. -/
def replaceText (text pattern replacement : String) : String :=
  String.ofList (Masking.replace pattern.toList replacement.toList text.toList)

/-- Replace the secrets by placeholders. -/
def redactYaml (yaml : String) (cfg : Config) : String :=
  let jwt := trim cfg.auth.jwtSecret
  let out := if jwt = "" then yaml else replaceText yaml jwt jwtPh
  let out := cfg.auth.users.foldl (fun out u =>
    let out :=
      match u.passwordHash.filter (· ≠ "") with
      | some h => replaceText out h (userHashPh u.username)
      | none => out
    match u.password.filter (· ≠ "") with
    | some p => replaceText out p (userPwPh u.username)
    | none => out) out
  cfg.edr.enrollmentTokens.zipIdx.foldl (fun out t =>
    if t.1 = "" then out else replaceText out t.1 (tokenPh t.2)) out

/-- Replace the placeholders by the secrets. -/
def restoreYaml (yaml : String) (current : Config) : String :=
  let out := replaceText yaml jwtPh current.auth.jwtSecret
  let out := current.auth.users.foldl (fun out u =>
    let out :=
      match u.passwordHash with
      | some h => replaceText out (userHashPh u.username) h
      | none => out
    match u.password with
    | some p => replaceText out (userPwPh u.username) p
    | none => out) out
  current.edr.enrollmentTokens.zipIdx.foldl (fun out t => replaceText out (tokenPh t.2) t.1) out

/-- How a file is parsed, and whether what it holds is valid. -/
structure ConfigFormat where
  parse : String → Option Config
  ok : Config → Bool

/-- The text that is shown; a file that does not parse is shown as it is. -/
def configGet (format : ConfigFormat) (file : String) : String :=
  match format.parse file with
  | some cfg => redactYaml file cfg
  | none => file

/-- The file after a text has been submitted; what is not valid is not written. -/
def configPut (format : ConfigFormat) (file yaml : String) : String :=
  let resolved := restoreYaml yaml ((format.parse file).getD {})
  match format.parse resolved with
  | some cfg => if format.ok cfg then resolved else file
  | none => file

/-! ## Slots for secrets -/

/-- A place for a secret: the placeholder, the text that it hides, where an empty one is not
hidden, and the secret that it stands for.  What is hidden stands for a secret. -/
structure Slot where
  placeholder : String
  hidden : String
  value : Option String
  hasValue : hidden ≠ "" → value.isSome = true
  deriving DecidableEq

def Slot.ofSecret (placeholder : String) (secret : Option String) : Slot where
  placeholder := placeholder
  hidden := secret.getD ""
  value := secret
  hasValue := by
    cases secret with
    | none => exact absurd rfl
    | some s => exact fun _ => rfl

/-- The slots in the order in which they are gone through. -/
def Config.slots (cfg : Config) : List Slot :=
  { placeholder := jwtPh
    hidden := trim cfg.auth.jwtSecret
    value := some cfg.auth.jwtSecret
    hasValue := fun _ => rfl } ::
    (cfg.auth.users.flatMap (fun u =>
        [.ofSecret (userHashPh u.username) u.passwordHash,
          .ofSecret (userPwPh u.username) u.password]) ++
      cfg.edr.enrollmentTokens.zipIdx.map fun t => .ofSecret (tokenPh t.2) (some t.1))

/-- The characters of the slots. -/
def slotSecrets : Masking.Secrets Char Slot where
  secret := fun slot => slot.hidden.toList
  placeholder := fun slot => slot.placeholder.toList
  value := fun slot => slot.value.map String.toList

/-- Every pass fits: in redacting, a secret is found in the text of the file only, not in a
stretch that touches a placeholder; in restoring, a placeholder is found only where it has
been put, and its secret is the text that it hides. -/
def Config.Separate (cfg : Config) (yaml : String) : Prop :=
  TransitionSystem.Along (Masking.Pass.next slotSecrets)
    (fun before pass _ => pass.Fits slotSecrets before) (yaml.toList.map Sum.inl)
    (cfg.slots.map .hide ++ cfg.slots.map .reveal)

/-! ## Restoring what has been redacted -/

/-- One slot in redacting. -/
def Slot.redact (out : String) (slot : Slot) : String :=
  if slot.hidden = "" then out else replaceText out slot.hidden slot.placeholder

/-- One slot in restoring. -/
def Slot.restore (out : String) (slot : Slot) : String :=
  slot.value.elim out (replaceText out slot.placeholder)

theorem redact_ofSecret (out placeholder : String) (secret : Option String) :
    (Slot.ofSecret placeholder secret).redact out =
      match secret.filter (· ≠ "") with
      | some s => replaceText out s placeholder
      | none => out := by
  rw [Slot.redact, Slot.ofSecret]
  cases secret with
  | none => rfl
  | some s =>
      by_cases empty : s = ""
      · subst empty
        rfl
      · rw [Option.filter_some, if_pos (decide_eq_true empty)]
        exact if_neg empty

theorem restore_ofSecret (out placeholder : String) (secret : Option String) :
    (Slot.ofSecret placeholder secret).restore out =
      match secret with
      | some s => replaceText out placeholder s
      | none => out := by
  cases secret <;> rfl

theorem redactYaml_eq (yaml : String) (cfg : Config) :
    redactYaml yaml cfg = cfg.slots.foldl Slot.redact yaml := by
  rw [redactYaml, Config.slots, List.foldl_cons, List.foldl_append, List.foldl_flatMap,
    List.foldl_map]
  congr 2
  funext out u
  rw [List.foldl_cons, List.foldl_cons, List.foldl_nil, redact_ofSecret, redact_ofSecret]

theorem restoreYaml_eq (yaml : String) (cfg : Config) :
    restoreYaml yaml cfg = cfg.slots.foldl Slot.restore yaml := by
  rw [restoreYaml, Config.slots, List.foldl_cons, List.foldl_append, List.foldl_flatMap,
    List.foldl_map]
  congr 2
  funext out u
  rw [List.foldl_cons, List.foldl_cons, List.foldl_nil, restore_ofSecret, restore_ofSecret]

/-- Steps on a text that are passes on its characters. -/
theorem toList_foldl {step : String → Slot → String} {pass : Slot → Masking.Pass Slot}
    (each : ∀ out slot,
      (step out slot).toList = Masking.Pass.run slotSecrets out.toList (pass slot))
    (slots : List Slot) (out : String) :
    (slots.foldl step out).toList =
      (slots.map pass).foldl (Masking.Pass.run slotSecrets) out.toList := by
  induction slots generalizing out with
  | nil => rfl
  | cons slot slots inductionHypothesis =>
      rw [List.foldl_cons, inductionHypothesis, List.map_cons, List.foldl_cons, each]

theorem toList_redact (out : String) (slot : Slot) :
    (slot.redact out).toList = Masking.Pass.run slotSecrets out.toList (.hide slot) := by
  rw [Slot.redact, Masking.Pass.run]
  have isEmpty : slotSecrets.secret slot = [] ↔ slot.hidden = "" := String.toList_eq_nil_iff
  by_cases empty : slot.hidden = ""
  · rw [if_pos empty, if_pos (isEmpty.mpr empty)]
  · rw [if_neg empty, if_neg fun none => empty (isEmpty.mp none)]
    exact String.toList_ofList

theorem toList_restore (out : String) (slot : Slot) :
    (slot.restore out).toList = Masking.Pass.run slotSecrets out.toList (.reveal slot) := by
  rw [Slot.restore, Masking.Pass.run]
  change _ = (slot.value.map String.toList).elim _ _
  cases slot.value with
  | none => rfl
  | some value => exact String.toList_ofList

/-- When every pass fits, a text that is redacted and restored is the same. -/
theorem restore_redact (cfg : Config) (yaml : String) (separate : cfg.Separate yaml) :
    restoreYaml (redactYaml yaml cfg) cfg = yaml := by
  apply String.toList_injective
  rw [restoreYaml_eq, redactYaml_eq, toList_foldl toList_restore, toList_foldl toList_redact,
    ← List.foldl_append]
  refine Masking.hide_reveal (fun slot nonempty => ?_) separate
  rw [slotSecrets, Option.isSome_map]
  exact slot.hasValue fun empty => nonempty (String.toList_eq_nil_iff.mpr empty)

/-- The file stays when the text that is shown is submitted. -/
theorem configPut_configGet (format : ConfigFormat) {file : String} {cfg : Config}
    (parsed : format.parse file = some cfg) (separate : cfg.Separate file) :
    configPut format file (configGet format file) = file := by
  rw [configPut, configGet, parsed]
  dsimp only [Option.getD_some]
  rw [restore_redact cfg file separate, parsed]
  exact ite_self file

instance (cfg : Config) (yaml : String) : Decidable (cfg.Separate yaml) :=
  inferInstanceAs (Decidable (TransitionSystem.Along _ _ _ _))

/-- A configuration with a signing secret and a token. -/
def tokenOnly : Config where
  auth := { jwtSecret := "hs256-key" }
  edr := { enrollmentTokens := ["tok-a"] }

def tokenOnlyYaml : String :=
  "version: 1\nauth: \x7bjwt_secret: hs256-key\x7d\nedr: \x7benrollment_tokens: [tok-a]\x7d\n"

theorem restore_redact_tokenOnly :
    restoreYaml (redactYaml tokenOnlyYaml tokenOnly) tokenOnly = tokenOnlyYaml :=
  restore_redact tokenOnly tokenOnlyYaml (by decide +kernel)

/-- A password that is the name of another user, who is declared twice. -/
def declaredTwice : Config where
  auth :=
    { users :=
        [{ username := "admin", passwordHash := some "h-1" },
          { username := "x", password := some "admin" },
          { username := "admin", passwordHash := some "h-1" }] }

-- the condition is not necessary: a later pass may mend what an earlier one has broken
example : ¬ declaredTwice.Separate "h-1" ∧
    restoreYaml (redactYaml "h-1" declaredTwice) declaredTwice = "h-1" := by
  decide +kernel

/-- A password that the placeholder of the signing secret holds. -/
def plainAdmin : Config where
  auth :=
    { jwtSecret := "hs256-key"
      users := [{ username := "admin", password := some "secret" }] }

def plainAdminYaml : String :=
  "version: 1\nauth:\n  jwt_secret: hs256-key\n  users:\n    - username: admin\n" ++
    "      password: secret\n"

/-- The text comes back with the placeholder in the place of the signing secret. -/
theorem not_restore_redact :
    ¬ ∀ (parse : String → Option Config) (cfg : Config) (yaml : String),
      parse yaml = some cfg →
      restoreYaml (redactYaml yaml cfg) cfg = yaml := by
  intro all
  have same := all (fun text => if text = plainAdminYaml then some plainAdmin else none) plainAdmin
    plainAdminYaml (if_pos rfl)
  have chars := congrArg String.toList same
  rw [restoreYaml_eq, redactYaml_eq, toList_foldl toList_restore, toList_foldl toList_redact,
    ← List.foldl_append] at chars
  have differs :
      (plainAdmin.slots.map Masking.Pass.hide ++ plainAdmin.slots.map Masking.Pass.reveal).foldl
      (Masking.Pass.run slotSecrets) plainAdminYaml.toList ≠ plainAdminYaml.toList := by
    decide +kernel
  exact differs chars

end Api
end Sigil
