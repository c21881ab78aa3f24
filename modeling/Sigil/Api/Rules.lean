import Sigil.Api.Auth
import Sigil.Library.Keyed
import Sigil.Library.Transition
import Sigil.Sigma.Denotation
import Sigil.Sigma.RulesDir

namespace Sigil
namespace Api

/-!
# Creating, replacing and deleting rules

A rule is written to the file that its identifier names, deleted by that file or by a scan
of the directory, and then the engine is loaded again from all files.  Read as a map from
identifiers to rules, the engine is updated at the identifier of the request exactly when
the file that is written or deleted and the other files fit together.
-/

open Sigil.Core Library Sigil.Sigma

/-- A character that a file name keeps. -/
def keepsChar (c : Char) : Bool :=
  c.isAlphanum ∨ c = '-' ∨ c = '_'

def sanitize (s : String) : String :=
  String.ofList (s.toList.map fun c => if keepsChar c then c else '_')

/-- The file of a rule. -/
def ruleFile (id : String) : String :=
  sanitize id ++ ".yml"

/-- The entries of the rules directory, in the order in which the system lists them. -/
structure RulesDir where
  entries : List (String × Node)
  distinct : (entries.map Prod.fst).Nodup

/-- The order in which a changed directory is listed. -/
structure ReadDir where
  arrange : List (String × Node) → List (String × Node)
  perm : ∀ entries, (arrange entries).Perm entries

namespace RulesDir

variable (dir : RulesDir)

def find (name : String) : Option Node :=
  dir.entries.lookup name

/-- The entries but one. -/
def without (name : String) : List (String × Node) :=
  dir.entries.filter fun entry => entry.1 ≠ name

theorem without_distinct (name : String) : ((dir.without name).map Prod.fst).Nodup :=
  dir.distinct.sublist (List.filter_sublist.map _)

/-- Write a file; a directory of the name is in the way. -/
def write (listing : ReadDir) (name text : String) : Option RulesDir :=
  match dir.find name with
  | some (.dir _) => none
  | _ =>
      some
        { entries := listing.arrange ((name, .file (some text)) :: dir.without name)
          distinct := by
            rw [((listing.perm _).map Prod.fst).nodup_iff, List.map_cons, List.nodup_cons]
            refine ⟨fun member => ?_, dir.without_distinct name⟩
            rcases List.mem_map.mp member with ⟨entry, isOther, same⟩
            exact of_decide_eq_true (List.mem_filter.mp isOther).2 same }

/-- Remove a file. -/
def remove (listing : ReadDir) (name : String) : Option RulesDir :=
  match dir.find name with
  | some (.file _) =>
      some
        { entries := listing.arrange (dir.without name)
          distinct := by
            rw [((listing.perm _).map Prod.fst).nodup_iff]
            exact dir.without_distinct name }
  | _ => none

end RulesDir

/-- Why a rule file cannot be changed. -/
inductive RuleConflict where
  | noRulesDir
  | cannotWrite (name : String)
  | cannotDelete (name : String)
  deriving DecidableEq, Repr

inductive RuleResponse where
  | forbidden (role : Role)
  | badRequest (error : CompileError)
  | conflict (reason : RuleConflict)
  | notFound
  | failed (error : LoadError)
  | created (ruleId : String) (rules : Nat)
  | updated (ruleId : String) (rules : Nat)
  | deleted (ruleId : String) (rules : Nat)
  deriving DecidableEq, Repr

/-- What the handlers use: the libraries, the YAML parser, the listing order and where the
directory is. -/
structure RuleSystem where
  lib : Libraries
  yaml : YamlText
  listing : ReadDir
  path : String

/-- The rules directory, if there is one, and the engine in use. -/
structure RuleState (sys : RuleSystem) where
  rulesDir : Option RulesDir
  engine : SigmaEngine sys.lib

section Handlers

variable {sys : RuleSystem}

def writeRuleFile (state : RuleState sys) (ruleId text : String) :
    Except RuleConflict (RuleState sys) :=
  match state.rulesDir with
  | none => .error .noRulesDir
  | some dir =>
      match dir.write sys.listing (ruleFile ruleId) text with
      | none => .error (.cannotWrite (ruleFile ruleId))
      | some dir => .ok { state with rulesDir := some dir }

/-- The first file whose rule has the identifier; directories below are not searched. -/
def findRulePath (sys : RuleSystem) (dir : RulesDir) (id : String) : Option String :=
  (dir.entries.find? fun entry =>
    match entry.2 with
    | .file (some text) =>
        isYaml entry.1 &&
          (CompiledRule.compile sys.lib sys.yaml text).toOption.any fun rule => rule.ruleId = id
    | _ => false).map Prod.fst

/-- The file that is deleted for a rule: its own file if there is one, and else the one
that the scan finds. -/
def ruleTarget (sys : RuleSystem) (dir : RulesDir) (id : String) : Option String :=
  if (dir.find (ruleFile id)).isSome then some (ruleFile id) else findRulePath sys dir id

def deleteRuleFile (state : RuleState sys) (id : String) :
    Except RuleConflict (Option (RuleState sys)) :=
  match state.rulesDir with
  | none => .error .noRulesDir
  | some dir =>
      match ruleTarget sys dir id with
      | none => .ok none
      | some name =>
          match dir.remove sys.listing name with
          | none => .error (.cannotDelete name)
          | some dir => .ok (some { state with rulesDir := some dir })

/-- Load the engine again. -/
def reloadEngine (state : RuleState sys) : RuleState sys × Except RuleResponse Nat :=
  match state.rulesDir with
  | none => (state, .error (.conflict .noRulesDir))
  | some dir =>
      match SigmaEngine.loadDir sys.lib sys.yaml sys.path dir.entries with
      | .error error => (state, .error (.failed error))
      | .ok (engine, _) => ({ state with engine := engine }, .ok engine.rules.length)

/-- Reload and answer with the number of rules. -/
def reloadAnd (state : RuleState sys) (answer : Nat → RuleResponse) :
    RuleState sys × RuleResponse :=
  match reloadEngine state with
  | (state, .ok rules) => (state, answer rules)
  | (state, .error response) => (state, response)

def ruleCreate (state : RuleState sys) (user : AuthUser) (text : String) :
    RuleState sys × RuleResponse :=
  if user.has .analyst then
    match CompiledRule.compile sys.lib sys.yaml text with
    | .error error => (state, .badRequest error)
    | .ok compiled =>
        match writeRuleFile state compiled.ruleId text with
        | .error reason => (state, .conflict reason)
        | .ok state => reloadAnd state (.created compiled.ruleId)
  else (state, .forbidden .analyst)

def ruleUpdate (state : RuleState sys) (user : AuthUser) (id text : String) :
    RuleState sys × RuleResponse :=
  if user.has .analyst then
    match CompiledRule.compile sys.lib sys.yaml text with
    | .error error => (state, .badRequest error)
    | .ok _ =>
        match writeRuleFile state id text with
        | .error reason => (state, .conflict reason)
        | .ok state => reloadAnd state (.updated id)
  else (state, .forbidden .analyst)

def ruleDelete (state : RuleState sys) (user : AuthUser) (id : String) :
    RuleState sys × RuleResponse :=
  if user.has .analyst then
    match deleteRuleFile state id with
    | .error reason => (state, .conflict reason)
    | .ok none => (state, .notFound)
    | .ok (some state) => reloadAnd state (.deleted id)
  else (state, .forbidden .analyst)

end Handlers

/-- What a request asks for. -/
inductive RuleAction where
  | create (text : String)
  | update (id text : String)
  | delete (id : String)

structure RuleRequest where
  user : AuthUser
  action : RuleAction

def RuleRequest.handle {sys : RuleSystem} (state : RuleState sys) (request : RuleRequest) :
    RuleState sys × RuleResponse :=
  match request.action with
  | .create text => ruleCreate state request.user text
  | .update id text => ruleUpdate state request.user id text
  | .delete id => ruleDelete state request.user id

/-- What a request makes of the state. -/
def RuleRequest.next {sys : RuleSystem} (state : RuleState sys) (request : RuleRequest) :
    Option (RuleState sys) :=
  some (request.handle state).1

/-! ## The engine as a map from identifiers to rules -/

/-- The identifier for which a request has been successful. -/
def RuleResponse.succeeded : RuleResponse → Option String
  | .created id _ => some id
  | .updated id _ => some id
  | .deleted id _ => some id
  | _ => none

/-- The rule that is submitted, as it compiles. -/
def RuleAction.submitted (sys : RuleSystem) : RuleAction → List (CompiledRule sys.lib)
  | .create text => (CompiledRule.compile sys.lib sys.yaml text).toOption.toList
  | .update _ text => (CompiledRule.compile sys.lib sys.yaml text).toOption.toList
  | .delete _ => []

/-- A successful request puts the submitted rule at its identifier, or nothing where it
deletes, and leaves the rules of the other identifiers as they are. -/
def RuleRequest.Refines {sys : RuleSystem} (before : RuleState sys) (request : RuleRequest)
    (after : RuleState sys) : Prop :=
  ∀ id, (request.handle before).2.succeeded = some id →
    Keyed.Updates CompiledRule.ruleId before.engine.rules after.engine.rules id
      (request.action.submitted sys)

/-! ## The condition -/

section Condition

variable (sys : RuleSystem) (dir : RulesDir)

/-- The rules of one entry of the directory. -/
def RulesDir.rulesAt (name : String) : List (CompiledRule sys.lib) :=
  (dir.entries.filter fun entry => entry.1 = name).flatMap (entryRules sys.lib sys.yaml sys.path)

/-- The rules of the other entries. -/
def RulesDir.rulesBeside (name : String) : List (CompiledRule sys.lib) :=
  (dir.without name).flatMap (entryRules sys.lib sys.yaml sys.path)

/-- The rules that the file of an identifier gives with a text. -/
def placed (id text : String) : List (CompiledRule sys.lib) :=
  entryRules sys.lib sys.yaml sys.path (ruleFile id, .file (some text))

/-- How a file that is written or deleted for an identifier and the other files fit: the
submitted rule has the identifier, the old file holds no rule of another one, and the file
and the others together hold just the submitted rule. -/
structure Fits (id name : String) (placed submitted : List (CompiledRule sys.lib)) : Prop where
  named : ∀ rule, rule ∈ submitted → rule.ruleId = id
  replaced : ∀ rule, rule ∈ dir.rulesAt sys name → rule.ruleId = id
  alone : placed ++ Keyed.content CompiledRule.ruleId (dir.rulesBeside sys name) id = submitted

end Condition

/-- The file that a request writes or deletes fits. -/
def RuleRequest.FitsIn {sys : RuleSystem} (state : RuleState sys) (request : RuleRequest) : Prop :=
  request.user.has .analyst = true → ∀ dir, state.rulesDir = some dir →
    match request.action with
    | .create text => ∀ rule, CompiledRule.compile sys.lib sys.yaml text = .ok rule →
        (dir.write sys.listing (ruleFile rule.ruleId) text).isSome = true →
          Fits sys dir rule.ruleId (ruleFile rule.ruleId) (placed sys rule.ruleId text) [rule]
    | .update id text => ∀ rule, CompiledRule.compile sys.lib sys.yaml text = .ok rule →
        (dir.write sys.listing (ruleFile id) text).isSome = true →
          Fits sys dir id (ruleFile id) (placed sys id text) [rule]
    | .delete id => ∀ name, ruleTarget sys dir id = some name →
        (dir.remove sys.listing name).isSome = true → Fits sys dir id name [] []

/-- The engine in use is what the directory loads. -/
def RuleState.InSync {sys : RuleSystem} (state : RuleState sys) : Prop :=
  ∀ dir, state.rulesDir = some dir → ∃ report,
    SigmaEngine.loadDir sys.lib sys.yaml sys.path dir.entries = .ok (state.engine, report)

/-! ## What a request does to the engine -/

section Requests

variable {sys : RuleSystem} {state : RuleState sys} {dir next : RulesDir}

theorem extension_ruleFile (id : String) :
    extension (ruleFile id) = if id = "" then none else some "yml" := by
  have chars : (ruleFile id).toList.reverse =
      'l' :: 'm' :: 'y' :: '.' :: (sanitize id).toList.reverse := by
    rw [ruleFile, String.toList_append, List.reverse_append]
    rfl
  have same : (sanitize id).toList = [] ↔ id = "" := by
    rw [sanitize, String.toList_ofList, List.map_eq_nil_iff, String.toList_eq_nil_iff]
  rw [extension, chars]
  by_cases empty : id = ""
  · rw [if_pos empty, same.mpr empty]
    rfl
  · rw [if_neg empty]
    cases rest : (sanitize id).toList.reverse with
    | nil => exact absurd (same.mp (List.reverse_eq_nil_iff.mp rest)) empty
    | cons c cs => rfl

/-- A rule is loaded from its file unless its identifier is empty or the text is a
correlation as well. -/
theorem placed_eq (id text : String) :
    placed sys id text = if id = "" then [] else (ruleOf sys.lib sys.yaml text).toList := by
  have yaml : isYaml (ruleFile id) = decide (id ≠ "") := by
    rw [isYaml, extension_ruleFile]
    by_cases empty : id = "" <;> simp [empty]
  have files : entryFiles sys.path (ruleFile id, .file (some text)) =
      if id = "" then [] else [(sys.path ++ "/" ++ ruleFile id, some text)] := by
    rw [entryFiles, filesIn, List.filterMap_cons]
    dsimp only
    rw [yaml]
    by_cases empty : id = ""
    · rw [if_pos empty, empty]
      rfl
    · rw [if_neg empty, if_pos (decide_eq_true empty)]
      rfl
  rw [placed, entryRules, files]
  by_cases empty : id = ""
  · rw [if_pos empty, if_pos empty]
    rfl
  · rw [if_neg empty, if_neg empty, List.filterMap_cons]
    cases rule : ruleOf sys.lib sys.yaml text with
    | none =>
        rw [Option.bind_some, rule]
        rfl
    | some loaded =>
        rw [Option.bind_some, rule]
        rfl

/-- The rules of a directory are those of one name and those beside it. -/
theorem rules_split (name : String) :
    (dir.entries.flatMap (entryRules sys.lib sys.yaml sys.path)).Perm
      (dir.rulesAt sys name ++ dir.rulesBeside sys name) := by
  have split : (dir.entries.filter (fun entry => entry.1 = name) ++ dir.without name).Perm
      dir.entries := by
    have parts := List.filter_append_perm (fun entry : String × Node => decide (entry.1 = name))
      dir.entries
    simpa only [RulesDir.without, decide_not] using parts
  have rules := split.flatMap_right (entryRules sys.lib sys.yaml sys.path)
  rw [List.flatMap_append] at rules
  exact rules.symm

/-- Loading a changed directory: the engine is updated exactly when the change fits. -/
theorem reload_changed (sync : state.InSync) (here : state.rulesDir = some dir) {name : String}
    {added : List (String × Node)} (entries : next.entries.Perm (added ++ dir.without name))
    (readable : ∀ entry, entry ∈ added → ∀ file, file ∈ entryFiles sys.path entry →
      file.2.isSome = true) (answer : Nat → RuleResponse) :
    ∃ engine rules, reloadAnd { state with rulesDir := some next } answer =
        ({ rulesDir := some next, engine := engine }, answer rules) ∧
      (RuleState.InSync { rulesDir := some next, engine := engine : RuleState sys }) ∧
      ∀ id submitted, submitted.length ≤ 1 →
        added.flatMap (entryRules sys.lib sys.yaml sys.path) ⊆ submitted →
          (Keyed.Updates CompiledRule.ruleId state.engine.rules engine.rules id submitted ↔
            Fits sys dir id name
                (added.flatMap (entryRules sys.lib sys.yaml sys.path)) submitted) := by
  rcases sync dir here with ⟨report, loaded⟩
  have isReadable := readable_of_loadDir loaded
  have nextReadable : FilesReadable sys.path next.entries := by
    intro entry member
    rcases List.mem_append.mp (entries.mem_iff.mp member) with isAdded | isOld
    · exact readable entry isAdded
    · exact isReadable entry (List.mem_of_mem_filter isOld)
  rcases loadDir_of_readable sys.lib sys.yaml isReadable with ⟨before, isBefore, beforeRules⟩
  rcases loadDir_of_readable sys.lib sys.yaml nextReadable with ⟨after, isAfter, afterRules⟩
  rw [loaded] at isBefore
  cases isBefore
  refine ⟨after.1, after.1.rules.length, ?_, ?_, fun id submitted short part => ?_⟩
  · rw [reloadAnd, reloadEngine]
    dsimp only
    rw [isAfter]
  · intro other equal
    cases equal
    exact ⟨after.2, isAfter⟩
  · have changed := entries.flatMap_right (entryRules sys.lib sys.yaml sys.path)
    rw [List.flatMap_append] at changed
    rw [Keyed.updates_iff (beforeRules.trans (rules_split name))
      (afterRules.trans changed) short part]
    exact ⟨fun ⟨named, replaced, alone⟩ => ⟨named, replaced, alone⟩,
      fun fits => ⟨fits.named, fits.replaced, fits.alone⟩⟩

theorem write_eq {name text : String} (written : dir.write sys.listing name text = some next) :
    next.entries.Perm ([(name, .file (some text))] ++ dir.without name) := by
  rw [RulesDir.write] at written
  split at written
  · cases written
  · cases written
    exact sys.listing.perm _

theorem remove_eq {name : String} (removed : dir.remove sys.listing name = some next) :
    next.entries.Perm ([] ++ dir.without name) := by
  rw [RulesDir.remove] at removed
  split at removed
  · cases removed
    exact sys.listing.perm _
  · cases removed

/-- Writing a rule file and loading again. -/
theorem write_changed (sync : state.InSync) (here : state.rulesDir = some dir) {id text : String}
    {rule : CompiledRule sys.lib} (compiled : CompiledRule.compile sys.lib sys.yaml text = .ok rule)
    (written : dir.write sys.listing (ruleFile id) text = some next)
    (answer : Nat → RuleResponse) :
    ∃ engine rules, reloadAnd { state with rulesDir := some next } answer =
        ({ rulesDir := some next, engine := engine }, answer rules) ∧
      (RuleState.InSync { rulesDir := some next, engine := engine : RuleState sys }) ∧
      (Keyed.Updates CompiledRule.ruleId state.engine.rules engine.rules id [rule] ↔
        Fits sys dir id (ruleFile id) (placed sys id text) [rule]) := by
  have readable : ∀ entry, entry ∈ [(ruleFile id, Node.file (some text))] →
      ∀ file, file ∈ entryFiles sys.path entry → file.2.isSome = true := by
    intro entry member file isFile
    rw [List.mem_singleton.mp member, entryFiles, filesIn, List.filterMap_cons] at isFile
    dsimp only at isFile
    split at isFile
    · exact absurd isFile List.not_mem_nil
    · next isYaml =>
        split at isYaml
        · cases isYaml
          rw [List.mem_singleton.mp isFile]
          rfl
        · cases isYaml
  rcases reload_changed sync here (write_eq written) readable answer with
    ⟨engine, rules, reloaded, inSync, updates⟩
  refine ⟨engine, rules, reloaded, inSync, ?_⟩
  have only : [(ruleFile id, Node.file (some text))].flatMap
      (entryRules sys.lib sys.yaml sys.path) = placed sys id text := List.flatMap_singleton _ _
  have part : placed sys id text ⊆ [rule] := by
    rw [placed_eq]
    split
    · exact List.nil_subset _
    · rw [ruleOf, compiled]
      split
      · exact List.nil_subset _
      · exact List.Subset.refl _
  rw [only] at updates
  exact updates id [rule] le_rfl part

/-- What holds of a request that changes nothing and does not succeed. -/
theorem unchanged_iff (sync : state.InSync) {request : RuleRequest} {response : RuleResponse}
    (handled : request.handle state = (state, response)) (fails : response.succeeded = none)
    (vacuous : request.FitsIn state) :
    (request.handle state).1.InSync ∧
      (request.Refines state (request.handle state).1 ↔ request.FitsIn state) := by
  rw [RuleRequest.Refines, handled]
  refine ⟨sync, iff_of_true (fun id succeeded => ?_) vacuous⟩
  rw [fails] at succeeded
  cases succeeded

/-- What holds of a request that succeeds. -/
theorem succeeded_iff {request : RuleRequest} {after : RuleState sys} {response : RuleResponse}
    {id : String} (handled : request.handle state = (after, response))
    (succeeds : response.succeeded = some id) (sync : after.InSync)
    (updates : Keyed.Updates CompiledRule.ruleId state.engine.rules after.engine.rules id
      (request.action.submitted sys) ↔ request.FitsIn state) :
    (request.handle state).1.InSync ∧
      (request.Refines state (request.handle state).1 ↔ request.FitsIn state) := by
  rw [RuleRequest.Refines, handled]
  refine ⟨sync, ?_⟩
  rw [← updates]
  constructor
  · exact fun refines => refines id succeeds
  · intro update other same
    rw [succeeds] at same
    cases same
    exact update

/-- What holds of a request that writes the file of an identifier. -/
theorem write_iff (sync : state.InSync) {request : RuleRequest} {id text : String}
    {rule : CompiledRule sys.lib} {answer : Nat → RuleResponse}
    (compiled : CompiledRule.compile sys.lib sys.yaml text = .ok rule)
    (handled : request.handle state =
      match writeRuleFile state id text with
      | .error reason => (state, .conflict reason)
      | .ok state => reloadAnd state answer)
    (succeeds : ∀ rules, (answer rules).succeeded = some id)
    (submitted : request.action.submitted sys = [rule])
    (fits_iff : request.FitsIn state ↔ ∀ dir, state.rulesDir = some dir →
      (dir.write sys.listing (ruleFile id) text).isSome = true →
        Fits sys dir id (ruleFile id) (placed sys id text) [rule]) :
    (request.handle state).1.InSync ∧
      (request.Refines state (request.handle state).1 ↔ request.FitsIn state) := by
  cases here : state.rulesDir with
  | none =>
      rw [writeRuleFile, here] at handled
      refine unchanged_iff sync handled rfl (fits_iff.mpr fun dir isDir => ?_)
      rw [here] at isDir
      cases isDir
  | some dir =>
      rw [writeRuleFile, here] at handled
      dsimp only at handled
      cases written : dir.write sys.listing (ruleFile id) text with
      | none =>
          rw [written] at handled
          refine unchanged_iff sync handled rfl (fits_iff.mpr fun other isDir isWritten => ?_)
          rw [here] at isDir
          cases isDir
          rw [written] at isWritten
          cases isWritten
      | some next =>
          rw [written] at handled
          rcases write_changed sync here compiled written answer with
            ⟨engine, rules, reloaded, inSync, updates⟩
          dsimp only at handled
          rw [reloaded] at handled
          refine succeeded_iff handled (succeeds rules) inSync ?_
          rw [submitted, updates, fits_iff]
          constructor
          · intro fits other isDir _
            rw [here] at isDir
            cases isDir
            exact fits
          · exact fun fits => fits dir here (by rw [written]; rfl)

/-- What holds of a request that submits a rule for the identifier that `idOf` gives. -/
theorem submit_iff (sync : state.InSync) {request : RuleRequest} {text : String}
    (idOf : CompiledRule sys.lib → String)
    (answer : CompiledRule sys.lib → Nat → RuleResponse)
    (handled : request.user.has .analyst = true → request.handle state =
      match CompiledRule.compile sys.lib sys.yaml text with
      | .error error => (state, .badRequest error)
      | .ok compiled =>
          match writeRuleFile state (idOf compiled) text with
          | .error reason => (state, .conflict reason)
          | .ok state => reloadAnd state (answer compiled))
    (refused : ¬ request.user.has .analyst = true →
      request.handle state = (state, .forbidden .analyst))
    (succeeds : ∀ rule rules, (answer rule rules).succeeded = some (idOf rule))
    (submitted : request.action.submitted sys =
      (CompiledRule.compile sys.lib sys.yaml text).toOption.toList)
    (fits_iff : request.FitsIn state ↔ (request.user.has .analyst = true →
      ∀ dir, state.rulesDir = some dir → ∀ rule,
        CompiledRule.compile sys.lib sys.yaml text = .ok rule →
          (dir.write sys.listing (ruleFile (idOf rule)) text).isSome = true →
            Fits sys dir (idOf rule) (ruleFile (idOf rule)) (placed sys (idOf rule) text) [rule])) :
    (request.handle state).1.InSync ∧
      (request.Refines state (request.handle state).1 ↔ request.FitsIn state) := by
  by_cases may : request.user.has .analyst = true
  · have handled := handled may
    cases compiled : CompiledRule.compile sys.lib sys.yaml text with
    | error error =>
        rw [compiled] at handled
        refine unchanged_iff sync handled rfl (fits_iff.mpr fun _ dir _ rule ok => ?_)
        rw [compiled] at ok
        cases ok
    | ok rule =>
        rw [compiled] at handled
        refine write_iff sync compiled handled (succeeds rule) ?_ ?_
        · rw [submitted, compiled]
          rfl
        · rw [fits_iff]
          constructor
          · exact fun fits dir here => fits may dir here rule compiled
          · intro fits _ dir here other ok
            rw [compiled] at ok
            cases ok
            exact fits dir here
  · exact unchanged_iff sync (refused may) rfl (fits_iff.mpr fun isAnalyst => absurd isAnalyst may)

theorem delete_iff (sync : state.InSync) (user : AuthUser) (id : String) :
    (RuleRequest.handle state ⟨user, .delete id⟩).1.InSync ∧
      (RuleRequest.Refines state ⟨user,
        .delete id⟩ (RuleRequest.handle state ⟨user, .delete id⟩).1 ↔
        RuleRequest.FitsIn state ⟨user, .delete id⟩) := by
  by_cases may : user.has .analyst = true
  · have handled : RuleRequest.handle state ⟨user, .delete id⟩ =
        match deleteRuleFile state id with
        | .error reason => (state, .conflict reason)
        | .ok none => (state, .notFound)
        | .ok (some state) => reloadAnd state (.deleted id) := if_pos may
    cases here : state.rulesDir with
    | none =>
        rw [deleteRuleFile, here] at handled
        refine unchanged_iff sync handled rfl fun _ dir isDir => ?_
        rw [here] at isDir
        cases isDir
    | some dir =>
        rw [deleteRuleFile, here] at handled
        dsimp only at handled
        cases target : ruleTarget sys dir id with
        | none =>
            rw [target] at handled
            refine unchanged_iff sync handled rfl fun _ other isDir name isTarget => ?_
            rw [here] at isDir
            cases isDir
            rw [target] at isTarget
            cases isTarget
        | some name =>
            rw [target] at handled
            dsimp only at handled
            cases removed : dir.remove sys.listing name with
            | none =>
                rw [removed] at handled
                refine unchanged_iff sync handled rfl fun _ other isDir file isTarget gone => ?_
                rw [here] at isDir
                cases isDir
                rw [target] at isTarget
                cases isTarget
                rw [removed] at gone
                cases gone
            | some next =>
                rw [removed] at handled
                rcases reload_changed sync here (remove_eq removed)
                  (fun _ member => absurd member List.not_mem_nil) (.deleted id) with
                  ⟨engine, rules, reloaded, inSync, updates⟩
                dsimp only at handled
                rw [reloaded] at handled
                refine succeeded_iff handled rfl inSync ?_
                rw [RuleAction.submitted, updates id [] (Nat.zero_le 1) (List.nil_subset _)]
                constructor
                · intro fits _ other isDir file isTarget _
                  rw [here] at isDir
                  cases isDir
                  rw [target] at isTarget
                  cases isTarget
                  exact fits
                · exact fun fits => fits may dir here name target (by rw [removed]; rfl)
  · have handled :
        RuleRequest.handle state ⟨user, .delete id⟩ = (state, .forbidden .analyst) :=
      if_neg may
    exact unchanged_iff sync handled rfl fun isAnalyst => absurd isAnalyst may

theorem handle_iff (sync : state.InSync) (request : RuleRequest) :
    (request.handle state).1.InSync ∧
      (request.Refines state (request.handle state).1 ↔ request.FitsIn state) := by
  rcases request with ⟨user, action⟩
  cases action with
  | create text =>
      exact submit_iff sync CompiledRule.ruleId (fun rule => .created rule.ruleId)
        (fun may => if_pos may) (fun may => if_neg may) (fun _ _ => rfl) rfl Iff.rfl
  | update id text =>
      exact submit_iff sync (fun _ => id) (fun _ => .updated id)
        (fun may => if_pos may) (fun may => if_neg may) (fun _ _ => rfl) rfl Iff.rfl
  | delete id => exact delete_iff sync user id

/-- From a directory whose rules are in use, every successful request of a sequence updates
the engine as a map from identifiers to rules if and only if the file that each of them writes
or deletes fits the directory that it meets. -/
theorem refines_iff_fits (sync : state.InSync) (requests : List RuleRequest) :
    TransitionSystem.Along RuleRequest.next
        (fun before request after => request.Refines before after) state requests ↔
      TransitionSystem.Along RuleRequest.next
        (fun before request _ => request.FitsIn before) state requests := by
  apply TransitionSystem.along_congr _ _ RuleState.InSync _ _ sync
  · rintro before request after inSync ⟨⟩
    exact (handle_iff inSync request).2
  · rintro before request after inSync ⟨⟩ _
    exact (handle_iff inSync request).1

end Requests

/-! ## A rule in a file with another name -/

def sudoText (level : String) : String :=
  "title: Sudo Command Executed As Root\nid: a2c4e6f8-sudo-root\ndetection:\n" ++
    "  selection:\n    app: sudo\n  condition: selection\nlevel: " ++ level ++ "\n"

def sudoDetection : YamlMapping where
  entries := [(.string "selection", .mapping [(.string "app", .string "sudo")]),
    (.string "condition", .string "selection")]
  distinct := by simp

def sudoRule (level : String) : SigmaRule where
  title := "Sudo Command Executed As Root"
  id := some "a2c4e6f8-sudo-root"
  level := some level
  detection := sudoDetection

def sudoMapping (level : String) : YamlMapping where
  entries := [(.string "title", .string "Sudo Command Executed As Root"),
    (.string "id", .string "a2c4e6f8-sudo-root"),
    (.string "detection", .mapping sudoDetection.entries),
    (.string "level", .string level)]
  distinct := by simp

/-- The parser on the texts of the rule. -/
def sudoYaml : YamlText where
  rule := fun text =>
    (["low", "high"].find? fun level => text = sudoText level).map sudoRule
  mapping := fun text =>
    (["low", "high"].find? fun level => text = sudoText level).map sudoMapping

def sudoSystem : RuleSystem where
  lib := asciiLibraries
  yaml := sudoYaml
  listing := ⟨id, fun _ => .refl _⟩
  path := "configs/rules"

def sudoDir : RulesDir where
  entries := [("sudo_to_root.yml", .file (some (sudoText "low")))]
  distinct := by simp

def sudoState : RuleState sudoSystem where
  rulesDir := some sudoDir
  engine :=
    match SigmaEngine.loadDir sudoSystem.lib sudoSystem.yaml sudoSystem.path sudoDir.entries with
    | .ok (engine, _) => engine
    | .error _ => { rules := [] }

theorem sudoState_inSync : sudoState.InSync := by
  rintro dir ⟨⟩
  have readable : FilesReadable sudoSystem.path sudoDir.entries := by
    intro entry member file isFile
    cases List.mem_singleton.mp member
    cases List.mem_singleton.mp isFile
    rfl
  rcases loadDir_of_readable sudoSystem.lib sudoSystem.yaml readable with
    ⟨⟨engine, report⟩, loaded, _⟩
  refine ⟨report, ?_⟩
  rw [sudoState, loaded]

def analyst : AuthUser where
  username := "ann"
  roles := [.analyst]

/-- The rule is deleted by the scan. -/
theorem refines_delete :
    TransitionSystem.Along RuleRequest.next
      (fun before request after => request.Refines before after) sudoState
      [⟨analyst, .delete "a2c4e6f8-sudo-root"⟩] := by
  apply (refines_iff_fits sudoState_inSync _).mpr
  refine ⟨_, rfl, ?_, trivial⟩
  rintro _ dir ⟨⟩ name target _
  have isScanned :
      ruleTarget sudoSystem sudoDir "a2c4e6f8-sudo-root" = some "sudo_to_root.yml" := by
    decide +kernel
  cases isScanned.symm.trans target
  refine ⟨fun _ member => absurd member List.not_mem_nil, fun rule member => ?_, ?_⟩
  · have ids : (sudoDir.rulesAt sudoSystem "sudo_to_root.yml").map CompiledRule.ruleId =
        ["a2c4e6f8-sudo-root"] := by decide +kernel
    have isId :
        rule.ruleId ∈ (sudoDir.rulesAt sudoSystem "sudo_to_root.yml").map CompiledRule.ruleId :=
      List.mem_map_of_mem member
    rw [ids] at isId
    exact List.mem_singleton.mp isId
  · have others : sudoDir.without "sudo_to_root.yml" = [] := by decide +kernel
    rw [RulesDir.rulesBeside, others]
    rfl

/-- When the rule is submitted with another level, it is written to the file that its
identifier names, and both files are loaded. -/
theorem not_refines :
    ¬ ∀ (sys : RuleSystem) (state : RuleState sys), state.InSync → ∀ requests,
      TransitionSystem.Along RuleRequest.next
        (fun before request after => request.Refines before after) state requests := by
  intro all
  have along := all sudoSystem sudoState sudoState_inSync
    [⟨analyst, .update "a2c4e6f8-sudo-root" (sudoText "high")⟩]
  rcases along with ⟨after, step, refines, _⟩
  cases step
  have fits := (handle_iff sudoState_inSync _).2.mp refines
  have compiles :
      (CompiledRule.compile sudoSystem.lib sudoSystem.yaml (sudoText "high")).toOption.isSome =
      true := by decide +kernel
  cases compiled : CompiledRule.compile sudoSystem.lib sudoSystem.yaml (sudoText "high") with
  | error error =>
      rw [compiled] at compiles
      cases compiles
  | ok rule =>
      have alone := (fits rfl sudoDir rfl rule compiled rfl).alone
      have two := congrArg (List.map CompiledRule.ruleId) alone
      have both : (placed sudoSystem "a2c4e6f8-sudo-root" (sudoText "high") ++
          Keyed.content CompiledRule.ruleId
            (sudoDir.rulesBeside sudoSystem (ruleFile "a2c4e6f8-sudo-root"))
            "a2c4e6f8-sudo-root").map CompiledRule.ruleId =
          ["a2c4e6f8-sudo-root", "a2c4e6f8-sudo-root"] := by decide +kernel
      rw [both] at two
      have lengths : 2 = 1 := congrArg List.length two
      cases lengths

end Api
end Sigil
