import Sigil.Api.Authentication
import Sigil.Detect.Ioc

namespace Sigil
namespace Cli

/-!
# The start of a node

A node starts only from a valid configuration, and when what the configuration points to can be
opened.  Then every reference of a pipeline has one meaning, every implemented input has its task,
and the users are the declared ones.
-/

open Sigil.Core Config Api Detect

variable {ν : Type} [BEq ν]

/-! ## What a node opens -/

/-- How what a node opens answers: the hot index, the directory of the segments, the directory of an
archive, a bucket where that has been built in, the durable store, and a directory of rules, which
is read once for the rules and once for the correlations. -/
structure Disk where
  index : Except String Unit
  cold : Except String Unit
  archive : String → Except String Unit
  bucket : Option (String → (region endpoint keyStart : Option String) → Except String Unit)
  store : Except String Unit
  rules : String → Except String Unit
  correlations : String → Except String Unit

/-- The text of a setting of the archive. -/
def archiveText (entries : List (Value ν × Value ν)) (key : String) : Option String :=
  (Value.get entries (.string key)).bind asStr

/-- An archive on the disk, where none other is asked for. -/
def isLocal (kind : Option String) : Bool :=
  kind = none || kind = some "local"

/-- Attach the archive of the configuration, if it has one. -/
def Disk.attach (disk : Disk) : Value ν → Except String Unit
  | .mapping entries =>
      let get := archiveText entries
      if isLocal (get "kind") then disk.archive ((get "root").getD "./data/archive")
      else if get "kind" = some "s3" then
        match disk.bucket, get "bucket" with
        | none, _ =>
            .error "object_store kind `s3` requires building sigil-index with the `s3` feature"
        | some _, none => .error "object_store: s3 needs `bucket`"
        | some open_, some bucket => open_ bucket (get "region") (get "endpoint") (get "prefix")
      else
        .error
          ("unknown object_store kind `" ++ (get "kind").getD "" ++ "` (expected local|s3)")
  | _ => .ok ()

/-- Read the rules, if there is a directory of them. -/
def readRules (load : String → Except String Unit) (sigma : SigmaConfig) : Except String Unit :=
  if sigma.enabled then sigma.rulesDir.elim (.ok ()) load else .ok ()

/-- Open one after another what the node needs. -/
def Disk.openAll (disk : Disk) (cfg : NodeConfig ν) : Except String Unit := do
  disk.index
  disk.cold
  disk.attach cfg.cluster.objectStore
  disk.store
  readRules disk.rules cfg.sigma
  readRules disk.correlations cfg.sigma

/-! ## The start -/

/-- The inputs that the pipelines with a sink read from. -/
def sourcesRoutedTo (cfg : NodeConfig ν) (sink : String) : List String :=
  cfg.pipelines.flatMap fun p => if p.routesTo sink then p.from_ else []

/-- The task of an input: the path or the address it reads from, and what becomes of its frames. -/
structure InputTask where
  id : String
  kind : String
  codecKind : String
  source : String
  shouldIndex : Bool
  shouldSigma : Bool

/-- Where an input reads from; other kinds are skipped. -/
def inputSource (env : Surroundings ν) (input : InputConfig ν) : Option String :=
  if input.kind = "file" then input.settingStr env "path"
  else if input.kind = "syslog" then input.settingStr env "listen"
  else none

def inputTask (env : Surroundings ν) (cfg : NodeConfig ν) (runIndex sigmaActive : Bool)
    (input : InputConfig ν) : Option InputTask :=
  let indexSources := sourcesRoutedTo cfg "index"
  let sigmaSources := sourcesRoutedTo cfg "sigma"
  (inputSource env input).map fun source =>
    { id := input.id
      kind := input.kind
      codecKind := input.codec.kind
      source := source
      shouldIndex := runIndex && (indexSources.isEmpty || indexSources.contains input.id)
      shouldSigma := runIndex && sigmaActive && sigmaSources.contains input.id }

/-- What a node starts with. -/
structure Startup where
  auth : AuthState
  tasks : List InputTask

/-- Start a node, or say what keeps it from starting. -/
def start (env : Surroundings ν) (disk : Disk) (cfg : NodeConfig ν) (drawn : List UInt8)
    (runIndex sigmaActive : Bool) : Except String Startup :=
  let report := cfg.validate env
  if report.ok then
    (disk.openAll cfg).map fun _ =>
      { auth := AuthState.fromConfig cfg.auth drawn
        tasks := cfg.inputs.filterMap (inputTask env cfg runIndex sigmaActive) }
  else
    .error (toString report.errors.length ++ " validation error(s); fix the config before running")

/-! ## Inputs -/

omit [BEq ν] in
theorem mem_sourcesRoutedTo {cfg : NodeConfig ν} {sink src : String} :
    src ∈ sourcesRoutedTo cfg sink ↔
      ∃ p ∈ cfg.pipelines, p.routesTo sink = true ∧ src ∈ p.from_ := by
  rw [sourcesRoutedTo, List.mem_flatMap]
  constructor
  · rintro ⟨p, member, source⟩
    split at source
    · next routes => exact ⟨p, member, routes, source⟩
    · cases source
  · rintro ⟨p, member, routes, source⟩
    refine ⟨p, member, ?_⟩
    rw [if_pos routes]
    exact source

variable {env : Surroundings ν} {disk : Disk} {cfg : NodeConfig ν} {drawn : List UInt8}
  {runIndex sigmaActive : Bool} {started : Startup} {input : InputConfig ν} {task : InputTask}

omit [BEq ν] in
theorem inputTask_eq_some_iff :
    inputTask env cfg runIndex sigmaActive input = some task ↔ ∃ source,
      inputSource env input = some source ∧ task =
        { id := input.id
          kind := input.kind
          codecKind := input.codec.kind
          source := source
          shouldIndex := runIndex && ((sourcesRoutedTo cfg "index").isEmpty ||
            (sourcesRoutedTo cfg "index").contains input.id)
          shouldSigma :=
              runIndex && sigmaActive && (sourcesRoutedTo cfg "sigma").contains input.id } := by
  rw [inputTask, Option.map_eq_some_iff]
  simp only [eq_comm]

omit [BEq ν] in
/-- A complete input of an implemented kind has a source, and so a task. -/
theorem exists_inputTask (complete : input.Complete env)
    (implemented : input.kind ∈ implementedInputs) :
    ∃ task, inputTask env cfg runIndex sigmaActive input = some task ∧ task.id = input.id := by
  have known : ∃ source, inputSource env input = some source := by
    rw [inputSource]
    split
    · next isFile => exact complete.path isFile
    · next notFile =>
        have isSyslog : input.kind = "syslog" := by
          rw [implementedInputs, List.mem_pair] at implemented
          exact implemented.resolve_left notFile
        rw [if_pos isSyslog]
        exact complete.listen isSyslog
  rcases known with ⟨source, known⟩
  exact ⟨_, inputTask_eq_some_iff.mpr ⟨source, known, rfl⟩, rfl⟩

theorem start_eq_ok (starts : start env disk cfg drawn runIndex sigmaActive = .ok started) :
    cfg.WellFormed env ∧ disk.openAll cfg = .ok () ∧
      started.auth = AuthState.fromConfig cfg.auth drawn ∧
        started.tasks = cfg.inputs.filterMap (inputTask env cfg runIndex sigmaActive) := by
  rw [start] at starts
  split at starts
  · next valid =>
      cases opened : disk.openAll cfg with
      | error text =>
          rw [opened] at starts
          cases starts
      | ok _ =>
          rw [opened] at starts
          cases starts
          exact ⟨(cfg.validate_ok_iff env).mp valid, rfl, rfl, rfl⟩
  · cases starts

/-! ## What keeps a node from starting -/

/-- An archive with these settings can be attached: one on the disk at its root, or one in a bucket
where that has been built in. -/
def Disk.Attaches (disk : Disk) (entries : List (Value ν × Value ν)) : Prop :=
  isLocal (archiveText entries "kind") = true ∧
      disk.archive ((archiveText entries "root").getD "./data/archive") = .ok () ∨
    archiveText entries "kind" = some "s3" ∧ ∃ open_ ∈ disk.bucket,
      ∃ bucket ∈ archiveText entries "bucket",
        open_ bucket (archiveText entries "region") (archiveText entries "endpoint")
          (archiveText entries "prefix") = .ok ()

/-- What the configuration points to can be opened. -/
structure Disk.Serves (disk : Disk) (cfg : NodeConfig ν) : Prop where
  index : disk.index = .ok ()
  cold : disk.cold = .ok ()
  archive : ∀ entries, cfg.cluster.objectStore = .mapping entries → disk.Attaches entries
  store : disk.store = .ok ()
  rules : cfg.sigma.enabled = true → ∀ dir ∈ cfg.sigma.rulesDir,
    disk.rules dir = .ok () ∧ disk.correlations dir = .ok ()

theorem attach_ok_iff (value : Value ν) :
    disk.attach value = .ok () ↔
      ∀ entries, value = .mapping entries → disk.Attaches entries := by
  cases value with
  | mapping entries =>
      have whole :
          (∀ entries', Value.mapping entries = .mapping entries' → disk.Attaches entries') ↔
          disk.Attaches entries := by
        refine ⟨fun all => all entries rfl, fun attaches entries' same => ?_⟩
        cases same
        exact attaches
      rw [whole, Disk.attach, Disk.Attaches]
      by_cases onDisk : isLocal (archiveText entries "kind") = true
      · have notBucket : archiveText entries "kind" ≠ some "s3" := by
          intro isBucket
          rw [isBucket] at onDisk
          exact absurd onDisk (by decide)
        simp [onDisk, notBucket]
      · by_cases isBucket : archiveText entries "kind" = some "s3"
        · have notLocal : isLocal (some "s3") = false := rfl
          simp only [isBucket, notLocal, Bool.false_eq_true, if_false, if_true, true_and, false_and,
            false_or]
          cases disk.bucket <;> cases archiveText entries "bucket" <;> simp
        · simp [onDisk, isBucket]
  | _ => exact iff_of_true rfl fun _ isMapping => nomatch isMapping

theorem readRules_ok_iff (load : String → Except String Unit) (sigma : SigmaConfig) :
    readRules load sigma = .ok () ↔
      (sigma.enabled = true → ∀ dir ∈ sigma.rulesDir, load dir = .ok ()) := by
  rw [readRules]
  split
  · next enabled => cases sigma.rulesDir <;> simp [enabled]
  · next disabled => simp [disabled]

/-- A step after another is reached when the first one succeeds. -/
theorem andThen_ok_iff (first next : Except String Unit) :
    (do first; next) = .ok () ↔ first = .ok () ∧ next = .ok () := by
  cases first with
  | error text => simp [bind, Except.bind]
  | ok _ => simp [bind, Except.bind]

theorem openAll_ok_iff (disk : Disk) (cfg : NodeConfig ν) :
    disk.openAll cfg = .ok () ↔ disk.Serves cfg := by
  rw [Disk.openAll]
  simp only [andThen_ok_iff, attach_ok_iff, readRules_ok_iff]
  constructor
  · rintro ⟨index, cold, archive, store, rules, correlations⟩
    exact ⟨index, cold, archive, store, fun enabled dir isDir =>
      ⟨rules enabled dir isDir, correlations enabled dir isDir⟩⟩
  · intro serves
    exact ⟨serves.index, serves.cold, serves.archive, serves.store,
      fun enabled dir isDir => (serves.rules enabled dir isDir).1,
      fun enabled dir isDir => (serves.rules enabled dir isDir).2⟩

/-- A node starts exactly from the well-formed configurations, when what they point to can be
opened. -/
theorem starts_iff (env : Surroundings ν) (disk : Disk) (cfg : NodeConfig ν) (drawn : List UInt8)
    (runIndex sigmaActive : Bool) :
    (∃ started, start env disk cfg drawn runIndex sigmaActive = .ok started) ↔
      cfg.WellFormed env ∧ disk.Serves cfg := by
  rw [← openAll_ok_iff]
  constructor
  · rintro ⟨started, starts⟩
    exact ⟨(start_eq_ok starts).1, (start_eq_ok starts).2.1⟩
  · rintro ⟨wellFormed, opened⟩
    rw [start, if_pos ((cfg.validate_ok_iff env).mpr wellFormed), opened]
    exact ⟨_, rfl⟩

/-- A node that starts reads every pipeline's inputs without ambiguity, has one task for every input
of an implemented kind, hands the frames of a task where the pipelines route them, and lets exactly
the declared users log in. -/
theorem start_as_declared (starts : start env disk cfg drawn runIndex sigmaActive = .ok started) :
    (∀ p ∈ cfg.pipelines, ∀ src ∈ p.from_, ∃! input,
      input ∈ cfg.inputs ∧ input.id = src) ∧
    (∀ input ∈ cfg.inputs, input.kind ∈ implementedInputs →
      ∃! task, task ∈ started.tasks ∧ task.id = input.id) ∧
    (∀ task ∈ started.tasks,
      (task.shouldIndex = true ↔ runIndex = true ∧
        ((∀ p ∈ cfg.pipelines, p.routesTo "index" = true → p.from_ = []) ∨
          ∃ p ∈ cfg.pipelines, p.routesTo "index" = true ∧ task.id ∈ p.from_)) ∧
      (task.shouldSigma = true ↔ runIndex = true ∧ sigmaActive = true ∧
        ∃ p ∈ cfg.pipelines, p.routesTo "sigma" = true ∧ task.id ∈ p.from_)) ∧
    (cfg.auth.enabled = true → ∀ crypto username password user,
      started.auth.authenticate crypto username password = some user ↔
        ∃ u ∈ cfg.auth.users, u.username = username ∧ user = principalOf u ∧
          Accepts crypto u password) := by
  rcases start_eq_ok starts with ⟨wellFormed, -, auth, tasks⟩
  have oneInput :
      ∀ {first second : InputConfig ν}, first ∈ cfg.inputs → second ∈ cfg.inputs →
      first.id = second.id → first = second :=
    fun first second => List.inj_on_of_nodup_map wellFormed.inputIds first second
  have ofTask : ∀ {task}, task ∈ started.tasks → ∃ input ∈ cfg.inputs,
      inputTask env cfg runIndex sigmaActive input = some task := by
    intro task member
    rw [tasks] at member
    exact List.mem_filterMap.mp member
  refine ⟨fun p pipeline src source => ?_, fun input member implemented => ?_,
    fun task member => ?_, fun enabled crypto username password user => ?_⟩
  · rcases List.mem_map.mp ((wellFormed.pipelines p pipeline).sources src source) with
      ⟨input, member, rfl⟩
    exact ⟨input, ⟨member, rfl⟩, fun other both => oneInput both.1 member both.2⟩
  · rcases exists_inputTask (wellFormed.inputs input member) implemented with
      ⟨task, makes, named⟩
    refine ⟨task, ⟨?_, named⟩, fun other both => ?_⟩
    · rw [tasks]
      exact List.mem_filterMap.mpr ⟨input, member, makes⟩
    · rcases ofTask both.1 with ⟨from_, present, made⟩
      rcases inputTask_eq_some_iff.mp made with ⟨_, _, rfl⟩
      cases oneInput present member both.2
      exact Option.some.inj (made.symm.trans makes)
  · rcases ofTask member with ⟨input, _, made⟩
    rcases inputTask_eq_some_iff.mp made with ⟨_, _, rfl⟩
    have noSources : (sourcesRoutedTo cfg "index").isEmpty = true ↔
        ∀ p ∈ cfg.pipelines, p.routesTo "index" = true → p.from_ = [] := by
      rw [List.isEmpty_iff, List.eq_nil_iff_forall_not_mem]
      constructor
      · intro none p pipeline routes
        exact List.eq_nil_iff_forall_not_mem.mpr fun src source =>
          none src (mem_sourcesRoutedTo.mpr ⟨p, pipeline, routes, source⟩)
      · intro empty src source
        rcases mem_sourcesRoutedTo.mp source with ⟨p, pipeline, routes, member⟩
        rw [empty p pipeline routes] at member
        cases member
    constructor
    · rw [Bool.and_eq_true, Bool.or_eq_true, noSources, List.contains_iff_mem, mem_sourcesRoutedTo]
    · rw [Bool.and_eq_true, Bool.and_eq_true, List.contains_iff_mem,
        mem_sourcesRoutedTo, and_assoc]
  · rw [auth]
    exact authenticate_iff (wellFormed.auth enabled)

/-! ## A small node -/

def plainSurroundings : Surroundings Unit where
  valueText _ := none
  debug _ := ""
  isDir _ := false

def plainDisk : Disk where
  index := .ok ()
  cold := .ok ()
  archive _ := .ok ()
  bucket := none
  store := .ok ()
  rules _ := .ok ()
  correlations _ := .ok ()

def oneInput : NodeConfig Unit where
  version := 1
  inputs := [⟨"a", "file", ⟨"json"⟩, [("path", .string "/var/log/x")]⟩]
  pipelines := [⟨"p", ["a"], [⟨"index"⟩]⟩]
  sigma := ⟨true, [], none⟩
  cluster := ⟨.null⟩
  auth := ⟨true, "", 10, [⟨"root", none, some "toor", ["admin"]⟩]⟩
  edr := ⟨false, "0.0.0.0:50055", none, none, []⟩

theorem start_as_declared_oneInput :
    ∃! task, task ∈ oneInput.inputs.filterMap
      (inputTask plainSurroundings oneInput true false) ∧
      task.id = "a" := by
  have starts : start plainSurroundings plainDisk oneInput [7] true false = .ok
      { auth := AuthState.fromConfig oneInput.auth [7]
        tasks := oneInput.inputs.filterMap (inputTask plainSurroundings oneInput true false) } := by
    have valid : (oneInput.validate plainSurroundings).ok = true := by decide +kernel
    rw [start]
    exact if_pos valid
  exact (start_as_declared starts).2.1 _ List.mem_cons_self (by decide)

end Cli
end Sigil
