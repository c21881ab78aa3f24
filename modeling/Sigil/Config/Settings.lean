import Mathlib.Data.List.Nodup
import Sigil.Config.Value
import Sigil.Core.Text

namespace Sigil
namespace Config

/-!
# The settings of a node

A configuration is validated before a node starts: what would make it unusable is an error, what
only deserves attention is a warning.
-/

open Sigil.Core

section Settings

variable (ν : Type)

/-- The codec of an input. -/
structure CodecConfig where
  kind : String

/-- One input source with its other settings. -/
structure InputConfig where
  id : String
  kind : String
  codec : CodecConfig
  settings : List (String × Value ν)

/-- A single route entry. -/
structure RouteTarget where
  to_ : String

/-- A processing pipeline. -/
structure PipelineConfig where
  id : String
  from_ : List String
  route : List RouteTarget

structure SigmaConfig where
  enabled : Bool
  rulepacks : List String
  rulesDir : Option String

/-- One declared user. -/
structure UserConfig where
  username : String
  passwordHash : Option String
  password : Option String
  roles : List String

structure AuthConfig where
  enabled : Bool
  jwtSecret : String
  tokenTtlSecs : UInt64
  users : List UserConfig

structure EdrConfig where
  enabled : Bool
  listen : String
  tlsCert : Option String
  tlsKey : Option String
  enrollmentTokens : List String

structure ClusterConfig where
  objectStore : Value ν

/-- The declared state of a node, as far as it is validated or can keep the node from starting. -/
structure NodeConfig where
  version : UInt32
  inputs : List (InputConfig ν)
  pipelines : List PipelineConfig
  sigma : SigmaConfig
  cluster : ClusterConfig ν
  auth : AuthConfig
  edr : EdrConfig

/-- What validation asks of its surroundings: how a value and a list of texts are printed, and which
paths are directories. -/
structure Surroundings where
  valueText : Value ν → Option String
  debug : List String → String
  isDir : String → Bool

end Settings

def knownSinks : List String :=
  ["index", "sigma", "correlation"]

def knownCodecs : List String :=
  ["json", "syslog", "cef", "leef"]

def implementedInputs : List String :=
  ["file", "syslog"]

variable {ν : Type}

/-- A text setting, if present. -/
def InputConfig.settingStr (env : Surroundings ν) (input : InputConfig ν) (key : String) :
    Option String :=
  (input.settings.lookup key).bind fun value =>
    match value with
    | .string s => some s
    | other => (env.valueText other).map trim

/-- What validation has found. -/
structure ValidationReport where
  errors : List String
  warnings : List String

namespace ValidationReport

/-- There are no errors. -/
def ok (r : ValidationReport) : Bool :=
  r.errors.isEmpty

def errorIf (r : ValidationReport) (wrong : Prop) [Decidable wrong] (msg : String) :
    ValidationReport :=
  if wrong then { r with errors := r.errors ++ [msg] } else r

def warnIf (r : ValidationReport) (odd : Prop) [Decidable odd] (msg : String) : ValidationReport :=
  if odd then { r with warnings := r.warnings ++ [msg] } else r

/-- Check the elements of a list. -/
def each {α : Type} (check : ValidationReport → α → ValidationReport) (list : List α)
    (r : ValidationReport) : ValidationReport :=
  list.foldl check r

/-- Check the elements of a list, knowing whether a name comes again. -/
def eachNamed {α : Type} (name : α → String)
    (check : ValidationReport → Bool → α → ValidationReport) :
    List String → List α → ValidationReport → ValidationReport
  | _, [], r => r
  | seen, x :: list, r =>
      eachNamed name check (name x :: seen) list (check r (seen.contains (name x)) x)

variable {r : ValidationReport} {msg : String} {α : Type}

@[simp] theorem ok_errorIf {wrong : Prop} [Decidable wrong] :
    (r.errorIf wrong msg).ok = true ↔ r.ok = true ∧ ¬ wrong := by
  rw [errorIf]
  split
  · next wrong =>
      refine iff_of_false ?_ fun both => both.2 wrong
      rw [ok, List.isEmpty_iff]
      exact List.append_ne_nil_of_right_ne_nil _ (List.cons_ne_nil _ _)
  · next right => exact (and_iff_left right).symm

@[simp] theorem ok_warnIf {odd : Prop} [Decidable odd] :
    (r.warnIf odd msg).ok = true ↔ r.ok = true := by
  rw [warnIf]
  split
  · exact Iff.rfl
  · exact Iff.rfl

theorem ok_each {check : ValidationReport → α → ValidationReport} {good : α → Prop}
    (checks : ∀ r x, (check r x).ok = true ↔ r.ok = true ∧ good x) (list : List α) :
    (each check list r).ok = true ↔ r.ok = true ∧ ∀ x ∈ list, good x := by
  rw [each]
  induction list generalizing r with
  | nil => simp
  | cons x list inductionHypothesis =>
      rw [List.foldl_cons, inductionHypothesis, checks, List.forall_mem_cons, and_assoc]

theorem ok_eachNamed {name : α → String}
    {check : ValidationReport → Bool → α → ValidationReport} {good : α → Prop}
    (checks : ∀ r again x, (check r again x).ok = true ↔
      r.ok = true ∧ again = false ∧ good x)
    (seen : List String) (list : List α) :
    (eachNamed name check seen list r).ok = true ↔
      r.ok = true ∧ (∀ x ∈ list, good x) ∧ (list.map name).Nodup ∧
        ∀ x ∈ list, name x ∉ seen := by
  induction list generalizing seen r with
  | nil => simp [eachNamed]
  | cons x list inductionHypothesis =>
      rw [eachNamed, inductionHypothesis, checks, List.forall_mem_cons, List.forall_mem_cons,
        List.map_cons, List.nodup_cons, List.contains_eq_mem, decide_eq_false_iff_not]
      constructor
      · rintro ⟨⟨fine, new, good⟩, rest, distinct, apart⟩
        refine ⟨fine, ⟨good, rest⟩, ⟨fun again => ?_, distinct⟩,
          new, fun y member => ?_⟩
        · rcases List.mem_map.mp again with ⟨y, member, same⟩
          exact apart y member (same ▸ List.mem_cons_self)
        · exact fun old => apart y member (List.mem_cons_of_mem _ old)
      · rintro ⟨fine, ⟨good, rest⟩, ⟨once, distinct⟩, new, apart⟩
        refine ⟨⟨fine, new, good⟩, rest, distinct, fun y member old => ?_⟩
        rcases List.mem_cons.mp old with same | older
        · exact once (same ▸ List.mem_map_of_mem member)
        · exact apart y member older

end ValidationReport

open ValidationReport

/-! ## The checks -/

section Checks

variable (env : Surroundings ν)

def checkInput (r : ValidationReport) (again : Bool) (input : InputConfig ν) : ValidationReport :=
  r
  |>.errorIf ((trim input.id).isEmpty) "input with empty id"
  |>.errorIf again ("duplicate input id `" ++ input.id ++ "`")
  |>.warnIf (input.kind ∉ implementedInputs)
    ("input `" ++ input.id ++ "` uses kind `" ++ input.kind ++
      "` which is not implemented yet (Phase 0 supports " ++ env.debug implementedInputs ++ ")")
  |>.warnIf (input.codec.kind ∉ knownCodecs)
    ("input `" ++ input.id ++ "` uses codec `" ++ input.codec.kind ++
      "` which is not implemented yet (Phase 0 supports " ++ env.debug knownCodecs ++ ")")
  |>.errorIf (input.kind = "file" ∧ input.settingStr env "path" = none)
    ("file input `" ++ input.id ++ "` requires a `path`")
  |>.errorIf (input.kind = "syslog" ∧ input.settingStr env "listen" = none)
    ("syslog input `" ++ input.id ++ "` requires a `listen` address")

def checkTarget (p : PipelineConfig) (r : ValidationReport) (target : RouteTarget) :
    ValidationReport :=
  r
  |>.errorIf (target.to_ ∉ knownSinks)
    ("pipeline `" ++ p.id ++ "` routes to unknown sink `" ++ target.to_ ++ "` (known: " ++
      env.debug knownSinks ++ ")")
  |>.warnIf (target.to_ = "correlation")
    ("pipeline `" ++ p.id ++ "` routes to `correlation`, which is not wired yet (Phases 3+)")

def checkPipeline (inputIds : List String) (r : ValidationReport) (again : Bool)
    (p : PipelineConfig) :
    ValidationReport :=
  r
  |>.errorIf again ("duplicate pipeline id `" ++ p.id ++ "`")
  |>.warnIf (p.from_ = [])
    ("pipeline `" ++ p.id ++ "` has no `from` inputs; it will process nothing")
  |> each (fun r src =>
      r.errorIf (src ∉ inputIds)
        ("pipeline `" ++ p.id ++ "` references unknown input `" ++ src ++ "`")) p.from_
  |>.warnIf (p.route.isEmpty) ("pipeline `" ++ p.id ++ "` has no `route`; events will be dropped")
  |> each (checkTarget env p) p.route

def PipelineConfig.routesTo (p : PipelineConfig) (sink : String) : Bool :=
  p.route.any fun target => target.to_ = sink

def checkSigma (cfg : NodeConfig ν) (r : ValidationReport) : ValidationReport :=
  if cfg.sigma.enabled && cfg.pipelines.any (fun p => p.routesTo "sigma") then
    let r := r.warnIf (cfg.sigma.rulepacks ≠ [] ∧ cfg.sigma.rulesDir = none)
      ("sigma.rulepacks " ++ env.debug cfg.sigma.rulepacks ++
        " are not resolvable yet; set `sigma.rules_dir` to load rules")
    match cfg.sigma.rulesDir with
    | some dir =>
        r.warnIf (env.isDir dir = false)
          ("sigma.rules_dir `" ++ dir ++
            "` not found at validate time (must exist when `run` starts)")
    | none =>
        r.warnIf (cfg.sigma.rulepacks = [])
          ("a pipeline routes to `sigma` but no rules are configured (set `sigma.rules_dir`)")
  else r

def checkUser (r : ValidationReport) (again : Bool) (u : UserConfig) : ValidationReport :=
  r
  |>.errorIf ((trim u.username).isEmpty) "auth user with empty username"
  |>.errorIf again ("duplicate auth user `" ++ u.username ++ "`")
  |>.errorIf (u.passwordHash = none ∧ u.password = none)
    ("auth user `" ++ u.username ++ "` has neither `password_hash` nor `password`")
  |> each (fun r role =>
      r.warnIf (role ∉ ["viewer", "analyst", "admin"])
        ("auth user `" ++ u.username ++ "` has unknown role `" ++ role ++
          "` (known: viewer, analyst, admin)")) u.roles

def checkAuth (auth : AuthConfig) (r : ValidationReport) : ValidationReport :=
  if auth.enabled then
    r
    |>.warnIf (auth.users.isEmpty)
      "auth.enabled is true but no users are declared; the API will reject all requests"
    |>.warnIf ((trim auth.jwtSecret).isEmpty)
      "auth.jwt_secret is empty; an ephemeral secret will be generated (tokens won't survive a restart)"
    |> eachNamed UserConfig.username checkUser [] auth.users
  else r

def checkEdr (edr : EdrConfig) (r : ValidationReport) : ValidationReport :=
  if edr.enabled then
    r
    |>.errorIf ((trim edr.listen).isEmpty) "edr.enabled is true but `edr.listen` is empty"
    |>.errorIf (edr.tlsCert.isSome ≠ edr.tlsKey.isSome)
      "edr.tls_cert and edr.tls_key must be set together"
    |>.warnIf (edr.tlsCert = none ∧ edr.tlsKey = none)
      ("edr TLS is not configured; the agent gateway will run plaintext " ++
        "(set edr.tls_cert/tls_key for production)")
    |>.warnIf (edr.enrollmentTokens.all fun t => (trim t).isEmpty)
      "edr has no enrollment_tokens; issue one via the admin API before agents can enroll"
  else r

/-- Check version, identifiers and references, and what is not supported. -/
def NodeConfig.validate (cfg : NodeConfig ν) : ValidationReport :=
  { errors := [], warnings := [] : ValidationReport }
  |>.errorIf (cfg.version ≠ 1)
    ("unsupported config version " ++ toString cfg.version ++ " (expected 1)")
  |> eachNamed InputConfig.id (checkInput env) [] cfg.inputs
  |> eachNamed PipelineConfig.id
    (checkPipeline env (cfg.inputs.map InputConfig.id)) [] cfg.pipelines
  |> checkSigma env cfg
  |> checkAuth cfg.auth
  |> checkEdr cfg.edr

end Checks

/-! ## What is valid -/

/-- An input has a name, and the setting that its kind requires. -/
structure InputConfig.Complete (env : Surroundings ν) (input : InputConfig ν) : Prop where
  named : trim input.id ≠ ""
  path : input.kind = "file" → ∃ path, input.settingStr env "path" = some path
  listen : input.kind = "syslog" → ∃ listen, input.settingStr env "listen" = some listen

/-- A pipeline reads from inputs among the given ones, and routes to known sinks. -/
structure PipelineConfig.Resolved (inputIds : List String) (p : PipelineConfig) : Prop where
  sources : ∀ src ∈ p.from_, src ∈ inputIds
  sinks : ∀ target ∈ p.route, target.to_ ∈ knownSinks

/-- A user has a name and can prove it. -/
structure UserConfig.Complete (u : UserConfig) : Prop where
  named : trim u.username ≠ ""
  credential : u.passwordHash.isSome = true ∨ u.password.isSome = true

structure AuthConfig.WellFormed (auth : AuthConfig) : Prop where
  users : ∀ u ∈ auth.users, u.Complete
  names : (auth.users.map UserConfig.username).Nodup

structure EdrConfig.WellFormed (edr : EdrConfig) : Prop where
  listen : trim edr.listen ≠ ""
  tls : edr.tlsCert.isSome = edr.tlsKey.isSome

/-- A configuration from which a node can start. -/
structure NodeConfig.WellFormed (env : Surroundings ν) (cfg : NodeConfig ν) : Prop where
  version : cfg.version = 1
  inputs : ∀ input ∈ cfg.inputs, input.Complete env
  inputIds : (cfg.inputs.map InputConfig.id).Nodup
  pipelines : ∀ p ∈ cfg.pipelines, p.Resolved (cfg.inputs.map InputConfig.id)
  pipelineIds : (cfg.pipelines.map PipelineConfig.id).Nodup
  auth : cfg.auth.enabled = true → cfg.auth.WellFormed
  edr : cfg.edr.enabled = true → cfg.edr.WellFormed

section Valid

variable (env : Surroundings ν) {r : ValidationReport}

theorem ok_checkInput (r : ValidationReport) (again : Bool) (input : InputConfig ν) :
    (checkInput env r again input).ok = true ↔ r.ok = true ∧ again = false ∧
    input.Complete env := by
  simp only [checkInput, ok_errorIf, ok_warnIf, Bool.not_eq_true, String.isEmpty_eq_false_iff,
    not_and, Option.ne_none_iff_exists', ← ne_eq]
  constructor
  · rintro ⟨⟨⟨⟨fine, named⟩, once⟩, path⟩, listen⟩
    exact ⟨fine, once, named, path, listen⟩
  · rintro ⟨fine, once, named, path, listen⟩
    exact ⟨⟨⟨⟨fine, named⟩, once⟩, path⟩, listen⟩

theorem ok_checkPipeline (inputIds : List String) (r : ValidationReport) (again : Bool)
    (p : PipelineConfig) :
    (checkPipeline env inputIds r again p).ok = true ↔
      r.ok = true ∧ again = false ∧ p.Resolved inputIds := by
  have target : ∀ r target, (checkTarget env p r target).ok = true ↔
      r.ok = true ∧ target.to_ ∈ knownSinks := by
    intro r target
    rw [checkTarget, ok_warnIf, ok_errorIf, not_not]
  have source : ∀ (r : ValidationReport) (src : String), (r.errorIf (src ∉ inputIds)
      ("pipeline `" ++ p.id ++ "` references unknown input `" ++ src ++ "`")).ok = true ↔
        r.ok = true ∧ src ∈ inputIds := by
    intro r src
    rw [ok_errorIf, not_not]
  rw [checkPipeline, ok_each target, ok_warnIf, ok_each source, ok_warnIf, ok_errorIf,
    Bool.not_eq_true]
  constructor
  · rintro ⟨⟨⟨fine, once⟩, sources⟩, sinks⟩
    exact ⟨fine, once, sources, sinks⟩
  · rintro ⟨fine, once, sources, sinks⟩
    exact ⟨⟨⟨fine, once⟩, sources⟩, sinks⟩

/-- Nothing about the rules is an error. -/
theorem ok_checkSigma (cfg : NodeConfig ν) : (checkSigma env cfg r).ok = true ↔ r.ok = true := by
  rw [checkSigma]
  split
  · dsimp only
    split
    · rw [ok_warnIf, ok_warnIf]
    · rw [ok_warnIf, ok_warnIf]
  · exact Iff.rfl

theorem ok_checkUser (r : ValidationReport) (again : Bool) (u : UserConfig) :
    (checkUser r again u).ok = true ↔ r.ok = true ∧ again = false ∧ u.Complete := by
  have role : ∀ (r : ValidationReport) (role : String),
      (r.warnIf (role ∉ ["viewer", "analyst", "admin"])
      ("auth user `" ++ u.username ++ "` has unknown role `" ++ role ++
        "` (known: viewer, analyst, admin)")).ok = true ↔ r.ok = true ∧ True := by
    intro r role
    rw [ok_warnIf, and_true]
  have credential : ¬ (u.passwordHash = none ∧ u.password = none) ↔
      u.passwordHash.isSome = true ∨ u.password.isSome = true := by
    rw [not_and_or, Option.isSome_iff_ne_none, Option.isSome_iff_ne_none]
  rw [checkUser, ok_each role, ok_errorIf, ok_errorIf, ok_errorIf, credential, Bool.not_eq_true,
    Bool.not_eq_true, String.isEmpty_eq_false_iff]
  constructor
  · rintro ⟨⟨⟨⟨fine, named⟩, once⟩, credential⟩, _⟩
    exact ⟨fine, once, named, credential⟩
  · rintro ⟨fine, once, named, credential⟩
    exact ⟨⟨⟨⟨fine, named⟩, once⟩, credential⟩, fun _ _ => trivial⟩

theorem ok_checkAuth (auth : AuthConfig) :
    (checkAuth auth r).ok = true ↔ r.ok = true ∧ (auth.enabled = true → auth.WellFormed) := by
  rw [checkAuth]
  split
  · next enabled =>
      rw [ok_eachNamed ok_checkUser, ok_warnIf, ok_warnIf]
      constructor
      · rintro ⟨fine, users, names, _⟩
        exact ⟨fine, fun _ => ⟨users, names⟩⟩
      · rintro ⟨fine, wellFormed⟩
        exact ⟨fine, (wellFormed enabled).users, (wellFormed enabled).names,
          fun _ _ => List.not_mem_nil⟩
  · next disabled => exact (and_iff_left fun enabled => absurd enabled disabled).symm

theorem ok_checkEdr (edr : EdrConfig) :
    (checkEdr edr r).ok = true ↔ r.ok = true ∧ (edr.enabled = true → edr.WellFormed) := by
  rw [checkEdr]
  split
  · next enabled =>
      rw [ok_warnIf, ok_warnIf, ok_errorIf, ok_errorIf, not_not, Bool.not_eq_true,
        String.isEmpty_eq_false_iff]
      constructor
      · rintro ⟨⟨fine, listen⟩, tls⟩
        exact ⟨fine, fun _ => ⟨listen, tls⟩⟩
      · rintro ⟨fine, wellFormed⟩
        exact ⟨⟨fine, (wellFormed enabled).listen⟩, (wellFormed enabled).tls⟩
  · next disabled => exact (and_iff_left fun enabled => absurd enabled disabled).symm

/-- Validation finds no error exactly in the configurations from which a node can start. -/
theorem NodeConfig.validate_ok_iff (cfg : NodeConfig ν) :
    (cfg.validate env).ok = true ↔ cfg.WellFormed env := by
  have empty : ({ errors := [], warnings := [] : ValidationReport }).ok = true := rfl
  rw [validate, ok_checkEdr, ok_checkAuth, ok_checkSigma,
    ok_eachNamed (ok_checkPipeline env (cfg.inputs.map InputConfig.id)),
    ok_eachNamed (ok_checkInput env), ok_errorIf, not_not]
  constructor
  · rintro ⟨⟨⟨⟨⟨_, version⟩, inputs, inputIds, _⟩, pipelines, pipelineIds, _⟩,
      auth⟩, edr⟩
    exact ⟨version, inputs, inputIds, pipelines, pipelineIds, auth, edr⟩
  · rintro ⟨version, inputs, inputIds, pipelines, pipelineIds, auth, edr⟩
    exact ⟨⟨⟨⟨⟨empty, version⟩, inputs, inputIds, fun _ _ => List.not_mem_nil⟩,
      pipelines, pipelineIds, fun _ _ => List.not_mem_nil⟩, auth⟩, edr⟩

end Valid

end Config
end Sigil
