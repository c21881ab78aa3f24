import Sigil.Config.Value
import Sigil.Core.Event
import Sigil.Core.Record
import Sigil.Sigma.Denotation

namespace Sigil
namespace Detect

/-!
# Matching indicators

The detector `detect:ioc` knows hashes, addresses and domains that an analyst has listed, and
fires on an event in which one of them occurs.  What is listed is brought into lower case when
the settings are read; what an event says must be brought into the same form when it is looked
up.
-/

open Sigil.Core Sigil.Config

/-! ## Settings -/

section Settings

variable {ν : Type}

/-- A value without its tags. -/
def untag : Value ν → Value ν
  | .tagged _ value => untag value
  | value => value

def asStr (value : Value ν) : Option String :=
  match untag value with
  | .string s => some s
  | _ => none

/-- The value under a name, if there is a mapping with it. -/
def setting [BEq ν] (settings : Value ν) (key : String) : Option (Value ν) :=
  match untag settings with
  | .mapping entries => Value.get entries (.string key)
  | _ => none

end Settings

/-- The lines of a text, without what ends them. -/
def lines (text : String) : List String :=
  let parts := text.toList.splitOnP fun c => c = '\n'
  let ended := parts.dropLast.map fun part =>
    if part.getLast? = some '\r' then part.dropLast else part
  (ended ++ (parts.getLast?.toList.filter (· ≠ []))).map String.ofList

section

variable (tables : CaseTables)

def addIndicator (set : List String) (raw : String) : List String :=
  let v := trim raw
  if v = "" ∨ v.toList.head? = some '#' then set else tables.toLowercase v :: set

/-- What the file system gives for a path; nothing if the file cannot be read. -/
abbrev ReadToString := String → Option String

def loadSet {ν : Type} (readToString : ReadToString) : Option (Value ν) → List String
  | some (.string path) =>
      match readToString path with
      | some text => (lines text).foldl (addIndicator tables) []
      | none => []
  | some (.sequence items) =>
      items.foldl
        (fun out item => match asStr item with
          | some s => addIndicator tables out s
          | none => out) []
  | _ => []

structure IocDetector where
  hashes : List String
  ips : List String
  domains : List String

def fromSettings {ν : Type} [BEq ν] (readToString : ReadToString) (settings : Value ν) :
    IocDetector where
  hashes := loadSet tables readToString (setting settings "hashes")
  ips := loadSet tables readToString (setting settings "ips")
  domains := loadSet tables readToString (setting settings "domains")

/-! ## Events -/

/-- The text of a field. -/
def fieldStr (event : Event) (key : String) : Option String :=
  (event.fields.get key).map valueToString

def hashHit (detector : IocDetector) (event : Event) : Option String :=
  ["process.hash.sha256", "file.hash.sha256", "module.hash.sha256"].findSome? fun field =>
    (fieldStr event field).bind fun v =>
      let v := tables.toLowercase v
      if v ∈ detector.hashes then some v else none

def ipHit (detector : IocDetector) (event : Event) : Option String :=
  ["destination.ip", "source.ip"].findSome? fun field =>
    (fieldStr event field).bind fun v => if v ∈ detector.ips then some v else none

def domainHit (detector : IocDetector) (event : Event) : Option String :=
  ((fieldStr event "dns.question.name").bind fun v =>
      let v := tables.toLowercase v
      if v ∈ detector.domains then some v else none).or
    (event.target.bind fun t =>
      if t.kind = "domain" ∧ tables.toLowercase t.id ∈ detector.domains then some t.id
      else none)

/-- The alert for an indicator of a kind. -/
def alert (event : Event) (kind value technique : String) : Alert where
  ruleId := "ioc-" ++ kind ++ "-match"
  title := "IOC match (" ++ kind ++ "): " ++ value
  severity := .high
  technique := some technique
  events := [event.id]
  ts := event.ts

def eval (detector : IocDetector) (event : Event) : Option Alert :=
  match hashHit tables detector event with
  | some h => some (alert event "hash" h "T1204")
  | none =>
      match ipHit detector event with
      | some ip => some (alert event "ip" ip "T1071")
      | none => (domainHit tables detector event).map fun d => alert event "domain" d "T1071"

end

/-! ## What is listed, and what an event shows -/

/-- What the settings list, as it stands there. -/
def listed {ν : Type} (readToString : ReadToString) : Option (Value ν) → List String
  | some (.string path) => (readToString path).elim [] lines
  | some (.sequence items) => items.filterMap asStr
  | _ => []

inductive Category where
  | hash
  | ip
  | domain
  deriving DecidableEq, Repr

namespace Category

def key : Category → String
  | .hash => "hashes"
  | .ip => "ips"
  | .domain => "domains"

/-- The texts of an event that are looked up. -/
def shown (event : Event) : Category → List String
  | .hash =>
      ["process.hash.sha256", "file.hash.sha256", "module.hash.sha256"].filterMap (fieldStr event)
  | .ip => ["destination.ip", "source.ip"].filterMap (fieldStr event)
  | .domain => (fieldStr event "dns.question.name").toList ++
      (event.target.filter fun t => t.kind = "domain").toList.map EntityRef.id

end Category

/-- An entry that lists nothing: it is blank, or a comment. -/
def Remark (raw : String) : Prop :=
  trim raw = "" ∨ (trim raw).toList.head? = some '#'

instance (raw : String) : Decidable (Remark raw) :=
  inferInstanceAs (Decidable (_ ∨ _))

section

variable (tables : CaseTables) {ν : Type} [BEq ν] (readToString : ReadToString)
    (settings : Value ν)
  (event : Event)

/-- The texts are the same up to letter case and the white space around the first. -/
def Agrees (raw v : String) : Prop :=
  tables.toLowercase (trim raw) = tables.toLowercase v

/-- An entry of a list is a text of the event, up to letter case and blanks or as it stands. -/
structure Match (category : Category) (raw v : String) : Prop where
  listed : raw ∈ listed readToString (setting settings category.key)
  shown : v ∈ category.shown event
  same : Agrees tables raw v ∨ raw = v

/-- The detector can hear a match: the entry is not skipped, the texts agree, and an address
stands in lower case in the event. -/
def Heard (category : Category) (raw v : String) : Prop :=
  ¬ Remark raw ∧ Agrees tables raw v ∧ (category = .ip → tables.toLowercase v = v)

variable {tables readToString settings event}

/-! ## What is loaded -/

theorem mem_addIndicators {raws set : List String} {v : String} :
    v ∈ raws.foldl (addIndicator tables) set ↔
      v ∈ set ∨ ∃ raw, raw ∈ raws ∧ ¬ Remark raw ∧
        tables.toLowercase (trim raw) = v := by
  induction raws generalizing set with
  | nil => simp
  | cons raw raws inductionHypothesis =>
      rw [List.foldl_cons, inductionHypothesis]
      by_cases remark : Remark raw
      · have skipped : addIndicator tables set raw = set := if_pos remark
        simp [skipped, remark]
      · have added : addIndicator tables set raw = tables.toLowercase (trim raw) :: set :=
          if_neg remark
        rw [added, List.mem_cons]
        constructor
        · rintro ((rfl | old) | ⟨other, member, facts⟩)
          · exact Or.inr ⟨raw, List.mem_cons_self, remark, rfl⟩
          · exact Or.inl old
          · exact Or.inr ⟨other, List.mem_cons_of_mem _ member, facts⟩
        · rintro (old | ⟨other, member, kept, same⟩)
          · exact Or.inl (Or.inr old)
          · rcases List.mem_cons.mp member with rfl | later
            · exact Or.inl (Or.inl same.symm)
            · exact Or.inr ⟨other, later, kept, same⟩

omit [BEq ν] in
theorem loadSet_eq (value : Option (Value ν)) :
    loadSet tables readToString value =
      (listed readToString value).foldl (addIndicator tables) [] := by
  cases value with
  | none => rfl
  | some value =>
      cases value with
      | null | bool | number | mapping | tagged => rfl
      | string path => cases text : readToString path <;> simp [loadSet, listed, text]
      | sequence items =>
          rw [listed, List.foldl_filterMap, loadSet]
          congr 1
          funext out item
          cases asStr item <;> rfl

/-- The indicators of a category are its entries that are no remarks, in lower case. -/
theorem mem_loadSet (category : Category) {v : String} :
    v ∈ loadSet tables readToString (setting settings category.key) ↔
      ∃ raw, raw ∈ listed readToString (setting settings category.key) ∧ ¬ Remark raw ∧
        tables.toLowercase (trim raw) = v := by
  rw [loadSet_eq, mem_addIndicators]
  simp

/-! ## What fires -/

theorem isSome_findSome (fields : List String) (text : String → Option String)
    (hit : String → Prop) [DecidablePred hit] (name : String → String) :
    (fields.findSome? fun field =>
        (text field).bind fun v => if hit v then some (name v) else none).isSome ↔
      ∃ v, v ∈ fields.filterMap text ∧ hit v := by
  induction fields with
  | nil => simp
  | cons field fields inductionHypothesis =>
      rw [List.findSome?_cons, List.filterMap_cons]
      cases shown : text field with
      | none => exact inductionHypothesis
      | some v =>
          by_cases hits : hit v
          · simp [hits]
          · simpa [hits] using inductionHypothesis

theorem isSome_hashHit (detector : IocDetector) :
    (hashHit tables detector event).isSome ↔
      ∃ v, v ∈ Category.hash.shown event ∧ tables.toLowercase v ∈ detector.hashes :=
  isSome_findSome _ _ (fun v => tables.toLowercase v ∈ detector.hashes) _

theorem isSome_ipHit (detector : IocDetector) :
    (ipHit detector event).isSome ↔ ∃ v, v ∈ Category.ip.shown event ∧ v ∈ detector.ips :=
  isSome_findSome _ _ (· ∈ detector.ips) id

theorem isSome_domainHit (detector : IocDetector) :
    (domainHit tables detector event).isSome ↔
      ∃ v, v ∈ Category.domain.shown event ∧ tables.toLowercase v ∈ detector.domains := by
  have question : ((fieldStr event "dns.question.name").bind fun v =>
      if tables.toLowercase v ∈ detector.domains then some (tables.toLowercase v)
      else none).isSome ↔
      ∃ v, v ∈ fieldStr event "dns.question.name" ∧
          tables.toLowercase v ∈ detector.domains := by
    cases fieldStr event "dns.question.name" with
    | none => simp
    | some v => by_cases hits : tables.toLowercase v ∈ detector.domains <;> simp [hits]
  have target : (event.target.bind fun t =>
      if t.kind = "domain" ∧ tables.toLowercase t.id ∈ detector.domains then some t.id
      else none).isSome ↔
      ∃ t, t ∈ event.target ∧ t.kind = "domain" ∧
          tables.toLowercase t.id ∈ detector.domains := by
    cases event.target with
    | none => simp
    | some t =>
        by_cases hits : t.kind = "domain" ∧ tables.toLowercase t.id ∈ detector.domains <;>
          simp [hits]
  unfold domainHit
  rw [Option.isSome_or, Bool.or_eq_true, question, target]
  constructor
  · rintro (⟨v, shown, hits⟩ | ⟨t, shown, isDomain, hits⟩)
    · exact ⟨v, List.mem_append_left _ (Option.mem_toList.mpr shown), hits⟩
    · refine ⟨t.id, List.mem_append_right _ (List.mem_map_of_mem ?_), hits⟩
      exact Option.mem_toList.mpr (Option.mem_filter_iff.mpr ⟨shown, decide_eq_true isDomain⟩)
  · rintro ⟨v, shown, hits⟩
    rcases List.mem_append.mp shown with shown | shown
    · exact Or.inl ⟨v, Option.mem_toList.mp shown, hits⟩
    · rcases List.mem_map.mp shown with ⟨t, member, rfl⟩
      rcases Option.mem_filter_iff.mp (Option.mem_toList.mp member) with ⟨shown, isDomain⟩
      exact Or.inr ⟨t, shown, of_decide_eq_true isDomain, hits⟩

theorem isSome_eval (detector : IocDetector) :
    (eval tables detector event).isSome ↔
      (hashHit tables detector event).isSome ∨ (ipHit detector event).isSome ∨
        (domainHit tables detector event).isSome := by
  unfold eval
  cases hashHit tables detector event with
  | some h => simp
  | none =>
      cases ipHit detector event with
      | some ip => simp
      | none => simp

/-- The detector fires exactly if it can hear a match. -/
theorem isSome_eval_iff_heard :
    (eval tables (fromSettings tables readToString settings) event).isSome ↔
      ∃ category raw v, Match tables readToString settings event category raw v ∧
        Heard tables category raw v := by
  rw [isSome_eval, isSome_hashHit, isSome_ipHit, isSome_domainHit]
  constructor
  · rintro (⟨v, shown, hits⟩ | ⟨v, shown, hits⟩ | ⟨v, shown, hits⟩)
    · rcases (mem_loadSet .hash).mp hits with ⟨raw, isListed, kept, same⟩
      exact ⟨.hash, raw, v, ⟨isListed, shown, Or.inl same⟩, kept, same, nofun⟩
    · rcases (mem_loadSet .ip).mp hits with ⟨raw, isListed, kept, same⟩
      have lower : tables.toLowercase v = v := by
        rw [← same, CaseTables.toLowercase_toLowercase]
      have agrees : Agrees tables raw v := same.trans lower.symm
      exact ⟨.ip, raw, v, ⟨isListed, shown, Or.inl agrees⟩, kept, agrees, fun _ => lower⟩
    · rcases (mem_loadSet .domain).mp hits with ⟨raw, isListed, kept, same⟩
      exact ⟨.domain, raw, v, ⟨isListed, shown, Or.inl same⟩, kept, same, nofun⟩
  · rintro ⟨category, raw, v, found, kept, agrees, lower⟩
    cases category with
    | hash => exact Or.inl ⟨v, found.shown, (mem_loadSet .hash).mpr
        ⟨raw, found.listed, kept, agrees⟩⟩
    | ip => exact Or.inr (Or.inl ⟨v, found.shown, (mem_loadSet .ip).mpr
        ⟨raw, found.listed, kept, agrees.trans (lower rfl)⟩⟩)
    | domain => exact Or.inr (Or.inr ⟨v, found.shown, (mem_loadSet .domain).mpr
        ⟨raw, found.listed, kept, agrees⟩⟩)

end

/-! ## A listed address that is not found -/

/-- Settings with one listed address. -/
def oneAddress (address : String) : Value Nat :=
  .mapping [(.string "ips", .sequence [.string address])]

/-- A connection to an address. -/
def connection (address : String) : Event where
  id := "e1"
  ts := 42
  ingestTs := 43
  ocsfClass := .networkActivity
  tenant := "acme"
  severity := .informational
  host := none
  actor := none
  target := none
  message := "connect"
  fields := FieldMap.empty.insert "destination.ip" (.string address)
  templateId := none
  labels := []
  raw := []

end Detect
end Sigil
