import Sigil.Sigma.Hunt

namespace Sigil
namespace Sigma

/-!
# Loading a rulepack directory

Every YAML file under the directory is a rule or a correlation; the correlations are
skipped and what does not compile is reported.  The entries of a directory stand in the
order in which the system lists them.
-/

open Sigil.Core

/-- How a text is read as YAML. -/
structure YamlText where
  rule : String → Option SigmaRule
  mapping : String → Option YamlMapping

inductive CompileError where
  | parsing
  | rule (error : RuleError)
  deriving DecidableEq, Repr

/-- A file with its text, when it is UTF-8, or a directory. -/
inductive Node where
  | file (text : Option String)
  | dir (entries : List (String × Node))

/-- A file cannot be read. -/
inductive LoadError where
  | io (path : String)
  deriving DecidableEq, Repr

/-- Outcome of loading a directory. -/
structure LoadReport where
  loaded : Nat
  failed : List (String × CompileError)
  deriving DecidableEq, Repr

/-- The part of a file name after its last dot, unless that dot is its first character. -/
def extension (name : String) : Option String :=
  match name.toList.reverse.dropWhile (· ≠ '.') with
  | [] => none
  | [_] => none
  | _ :: _ :: _ => some (String.ofList (name.toList.reverse.takeWhile (· ≠ '.')).reverse)

def isYaml (name : String) : Bool :=
  extension name = some "yml" ∨ extension name = some "yaml"

/-- The YAML files that stand directly in a directory. -/
def filesIn (path : String) (entries : List (String × Node)) : List (String × Option String) :=
  entries.filterMap fun entry =>
    match entry.2 with
    | .file text => if isYaml entry.1 then some (path ++ "/" ++ entry.1, text) else none
    | .dir _ => none

mutual

/-- The YAML files below an entry. -/
def Node.yamlFiles (path : String) : Node → List (String × Option String)
  | .file _ => []
  | .dir entries => filesIn path entries ++ yamlBelow path entries

/-- The YAML files below the directories of a listing; the last one is visited first. -/
def yamlBelow (path : String) : List (String × Node) → List (String × Option String)
  | [] => []
  | (name, node) :: entries => yamlBelow path entries ++ node.yamlFiles (path ++ "/" ++ name)

end

/-- The texts of files, when all of them can be read. -/
def textsOf (files : List (String × Option String)) : Except LoadError (List (String × String)) :=
  files.mapM fun file => file.2.elim (.error (.io file.1)) fun text => .ok (file.1, text)

/-- Every YAML file under the directory, with its text. -/
def yamlFiles (path : String) (entries : List (String × Node)) :
    Except LoadError (List (String × String)) :=
  textsOf (filesIn path entries ++ yamlBelow path entries)

variable (lib : Libraries) (yaml : YamlText)

/-- Is the text a correlation? -/
def isCorrelationDoc (text : String) : Bool :=
  (yaml.mapping text).any fun mapping => mapping.entries.any fun entry =>
    match entry.1 with
    | .string key => key = "correlation"
    | _ => false

/-- Compile a single rule from its text. -/
def CompiledRule.compile (text : String) : Except CompileError (CompiledRule lib) := do
  let rule ← (yaml.rule text).elim (.error .parsing) .ok
  (CompiledRule.fromRule lib rule).mapError .rule

/-- One file of the directory. -/
def loadFile (loaded : SigmaEngine lib × LoadReport) (file : String × String) :
    SigmaEngine lib × LoadReport :=
  if isCorrelationDoc yaml file.2 then loaded
  else
    match CompiledRule.compile lib yaml file.2 with
    | .ok rule =>
        ({ rules := loaded.1.rules ++ [rule] }, { loaded.2 with loaded := loaded.2.loaded + 1 })
    | .error error =>
        (loaded.1, { loaded.2 with failed := loaded.2.failed ++ [(file.1, error)] })

/-- Load every rule under the directory. -/
def SigmaEngine.loadDir (path : String) (entries : List (String × Node)) :
    Except LoadError (SigmaEngine lib × LoadReport) := do
  let files ← yamlFiles path entries
  return files.foldl (loadFile lib yaml) ({ rules := [] }, { loaded := 0, failed := [] })

/-! ## The rules of a directory -/

/-- The rule that a loaded text gives. -/
def ruleOf (text : String) : Option (CompiledRule lib) :=
  if isCorrelationDoc yaml text then none else (CompiledRule.compile lib yaml text).toOption

/-- The YAML files of one entry. -/
def entryFiles (path : String) (entry : String × Node) : List (String × Option String) :=
  filesIn path [entry] ++ entry.2.yamlFiles (path ++ "/" ++ entry.1)

/-- The rules that one entry gives. -/
def entryRules (path : String) (entry : String × Node) : List (CompiledRule lib) :=
  (entryFiles path entry).filterMap fun file => file.2.bind (ruleOf lib yaml)

variable {lib} {yaml}

theorem foldl_loadFile (files : List (String × String)) (loaded : SigmaEngine lib × LoadReport) :
    (files.foldl (loadFile lib yaml) loaded).1.rules =
      loaded.1.rules ++ files.filterMap fun file => ruleOf lib yaml file.2 := by
  induction files generalizing loaded with
  | nil => exact (List.append_nil _).symm
  | cons file files inductionHypothesis =>
      rw [List.foldl_cons, inductionHypothesis, loadFile, List.filterMap_cons, ruleOf]
      by_cases correlation : isCorrelationDoc yaml file.2
      · rw [if_pos correlation, if_pos correlation]
      · rw [if_neg correlation, if_neg correlation]
        cases CompiledRule.compile lib yaml file.2 with
        | error error => rfl
        | ok rule => exact List.append_assoc _ _ _

/-- The files of a listing are those of its entries, in some order. -/
theorem files_perm (path : String) (entries : List (String × Node)) :
    (filesIn path entries ++ yamlBelow path entries).Perm (entries.flatMap (entryFiles path)) := by
  induction entries with
  | nil => exact .nil
  | cons entry entries inductionHypothesis =>
      have files :
          filesIn path (entry :: entries) = filesIn path [entry] ++ filesIn path entries := by
        rw [filesIn, filesIn, filesIn, ← List.filterMap_append]
        rfl
      rw [files, yamlBelow, List.flatMap_cons, entryFiles]
      have moved : (filesIn path entries ++ (yamlBelow path entries ++
          entry.2.yamlFiles (path ++ "/" ++ entry.1))).Perm
          (entry.2.yamlFiles (path ++ "/" ++ entry.1) ++ entries.flatMap (entryFiles path)) := by
        rw [← List.append_assoc]
        exact (List.perm_append_comm).trans (inductionHypothesis.append_left _)
      rw [List.append_assoc, List.append_assoc]
      exact moved.append_left _

/-- Every YAML file under the entries is UTF-8. -/
def FilesReadable (path : String) (entries : List (String × Node)) : Prop :=
  ∀ entry, entry ∈ entries → ∀ file, file ∈ entryFiles path entry → file.2.isSome = true

theorem textsOf_cons (path : String) (text : Option String)
    (files : List (String × Option String)) :
    textsOf ((path, text) :: files) =
      match text with
      | none => .error (.io path)
      | some text => (textsOf files).map fun texts => (path, text) :: texts := by
  rw [textsOf, List.mapM_cons]
  cases text with
  | none => rfl
  | some text =>
      change (textsOf files >>= fun texts => pure ((path, text) :: texts)) = _
      cases textsOf files <;> rfl

theorem exists_textsOf (lib : Libraries) (yaml : YamlText) {files : List (String × Option String)}
    (readable : ∀ file, file ∈ files → file.2.isSome = true) :
    ∃ texts, textsOf files = .ok texts ∧ (texts.filterMap fun file => ruleOf lib yaml file.2) =
      files.filterMap fun file => file.2.bind (ruleOf lib yaml) := by
  induction files with
  | nil => exact ⟨[], rfl, rfl⟩
  | cons file files inductionHypothesis =>
      rcases inductionHypothesis fun other member => readable other (List.mem_cons_of_mem _ member)
        with ⟨texts, read, rules⟩
      rcases file with ⟨path, text⟩
      rcases Option.isSome_iff_exists.mp (readable (path, text) List.mem_cons_self)
        with ⟨text, rfl⟩
      refine ⟨(path, text) :: texts, ?_, ?_⟩
      · rw [textsOf_cons, read]
        rfl
      · rw [List.filterMap_cons, List.filterMap_cons, rules]
        rfl

theorem isSome_of_textsOf {files : List (String × Option String)} {texts : List (String × String)}
    (read : textsOf files = .ok texts) : ∀ file, file ∈ files → file.2.isSome = true := by
  induction files generalizing texts with
  | nil => exact fun _ member => absurd member List.not_mem_nil
  | cons file files inductionHypothesis =>
      rcases file with ⟨path, text⟩
      rw [textsOf_cons] at read
      cases text with
      | none => cases read
      | some text =>
          cases rest : textsOf files with
          | error error =>
              rw [rest] at read
              cases read
          | ok others =>
              intro file member
              rcases List.mem_cons.mp member with rfl | later
              · rfl
              · exact inductionHypothesis rest file later

theorem loadDir_eq (path : String) (entries : List (String × Node)) :
    SigmaEngine.loadDir lib yaml path entries =
      (textsOf (filesIn path entries ++ yamlBelow path entries)).map fun files =>
        files.foldl (loadFile lib yaml) ({ rules := [] }, { loaded := 0, failed := [] }) := by
  rw [SigmaEngine.loadDir, yamlFiles]
  cases textsOf (filesIn path entries ++ yamlBelow path entries) <;> rfl

/-- A readable directory loads, and gives the rules of its entries. -/
theorem loadDir_of_readable (lib : Libraries) (yaml : YamlText) {path : String}
    {entries : List (String × Node)} (readable : FilesReadable path entries) :
    ∃ loaded, SigmaEngine.loadDir lib yaml path entries = .ok loaded ∧
      loaded.1.rules.Perm (entries.flatMap (entryRules lib yaml path)) := by
  have files := files_perm path entries
  have each : ∀ file, file ∈ filesIn path entries ++ yamlBelow path entries →
      file.2.isSome = true := by
    intro file member
    rcases List.mem_flatMap.mp (files.mem_iff.mp member) with ⟨entry, isEntry, isFile⟩
    exact readable entry isEntry file isFile
  rcases exists_textsOf lib yaml each with ⟨texts, read, rules⟩
  refine ⟨texts.foldl (loadFile lib yaml)
    ({ rules := [] }, { loaded := 0, failed := [] }), ?_, ?_⟩
  · rw [loadDir_eq, read]
    rfl
  · rw [foldl_loadFile, List.nil_append, rules]
    have perm := files.filterMap fun file => file.2.bind (ruleOf lib yaml)
    rwa [List.filterMap_flatMap] at perm

/-- What loads is readable. -/
theorem readable_of_loadDir {path : String} {entries : List (String × Node)}
    {loaded : SigmaEngine lib × LoadReport}
    (ok : SigmaEngine.loadDir lib yaml path entries = .ok loaded) : FilesReadable path entries := by
  rw [loadDir_eq] at ok
  intro entry isEntry file isFile
  have member : file ∈ filesIn path entries ++ yamlBelow path entries :=
    (files_perm path entries).mem_iff.mpr (List.mem_flatMap.mpr ⟨entry, isEntry, isFile⟩)
  cases read : textsOf (filesIn path entries ++ yamlBelow path entries) with
  | error error =>
      rw [read] at ok
      cases ok
  | ok texts => exact isSome_of_textsOf read file member

end Sigma
end Sigil
