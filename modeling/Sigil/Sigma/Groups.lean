import Sigil.Library.Rows
import Sigil.Sigma.Correlation

namespace Sigil
namespace Sigma

/-!
# The groups of a correlation rule

A window belongs to a text that the engine joins from the values of the group-by fields,
with commas between the values of one field and U+001F between the fields.  The engine
neither quotes nor counts what it joins.
-/

open Sigil.Core Library

/-- In every engine that has the rule, the matches of the event go to the window of this key,
and the rule's other windows stay. -/
def CompiledCorrelation.PutsUnder (rule : CompiledCorrelation) (event : Event) (key : String) :
    Prop :=
  ∀ (engine : CorrelationEngine) (i : Nat) (windows : Windows), engine.rules[i]? = some rule →
    engine.windows[i]? = some windows → ∀ (baseAlerts : List Alert) (clock : Int),
      rule.matched baseAlerts ≠ [] → ∃ window,
        (engine.process event baseAlerts clock).1.windows[i]? = some (windows.insert key window)

/-- The matches of two events go to the same window. -/
def CompiledCorrelation.SameWindow (rule : CompiledCorrelation) (first second : Event) : Prop :=
  ∃ key, rule.PutsUnder first key ∧ rule.PutsUnder second key

/-- Every group-by field has the same values, with their numbers, in both events. -/
def CompiledCorrelation.SameValues (rule : CompiledCorrelation) (first second : Event) : Prop :=
  ∀ field ∈ rule.groupBy, (resolveField first field).Perm (resolveField second field)

/-- The values of the group-by fields, field by field and sorted. -/
def CompiledCorrelation.groupValues (rule : CompiledCorrelation) (event : Event) :
    List (List (List Char)) :=
  rule.groupBy.map fun field =>
    ((resolveField event field).insertionSort (· ≤ ·)).map String.toList

/-- The values after each is cut at its commas and unit separators; a field without values
reads as one empty value. -/
def CompiledCorrelation.cutValues (rule : CompiledCorrelation) (event : Event) :
    List (List (List Char)) :=
  Rows.cut ',' '\u001f' (rule.groupValues event)

/-- The values of the group-by fields are not empty and have neither comma nor unit
separator in them. -/
def CompiledCorrelation.PlainValues (rule : CompiledCorrelation) (event : Event) : Prop :=
  ∀ field ∈ rule.groupBy, ∀ value ∈ resolveField event field,
    value ≠ "" ∧ ',' ∉ value.toList ∧ '\u001f' ∉ value.toList

/-! ## The key of a window -/

theorem puts_under_groupKey (rule : CompiledCorrelation) (event : Event) :
    rule.PutsUnder event (rule.groupKey event) := by
  intro engine i windows isRule areWindows baseAlerts clock hasMatches
  have processed : (engine.process event baseAlerts clock).1.windows[i]? =
      some (rule.process windows event baseAlerts clock).1 := by
    simp [CorrelationEngine.process, List.getElem?_zipWith, isRule, areWindows]
  rw [processed, CompiledCorrelation.process]
  simp only [List.isEmpty_iff, if_neg hasMatches]
  split
  · exact ⟨[], rfl⟩
  · exact ⟨_, rfl⟩

/-- A rule that references some rule puts the matches of an event nowhere else. -/
theorem key_of_puts_under {rule : CompiledCorrelation}
    (references : rule.rules ≠ []) {event : Event} {key : String}
    (puts : rule.PutsUnder event key) : key = rule.groupKey event := by
  rcases List.exists_mem_of_ne_nil rule.rules references with ⟨id, isReferenced⟩
  let alert : Alert := ⟨id, "", .medium, none, [], 0⟩
  have hasMatches : rule.matched [alert] ≠ [] := by
    simp [CompiledCorrelation.matched, alert, isReferenced]
  have inNew : (CorrelationEngine.new [rule]).rules[0]? = some rule := rfl
  have windows : (CorrelationEngine.new [rule]).windows[0]? = some ∅ := rfl
  rcases puts _ 0 ∅ inNew windows [alert] 0 hasMatches with ⟨window, here⟩
  rcases puts_under_groupKey rule event _ 0 ∅ inNew windows [alert] 0 hasMatches with
    ⟨window', there⟩
  have same := congrArg AList.keys (Option.some.inj (here.symm.trans there))
  simpa [AList.keys_insert] using same

theorem sameWindow_iff {rule : CompiledCorrelation} (references : rule.rules ≠ [])
    (first second : Event) :
    rule.SameWindow first second ↔ rule.groupKey first = rule.groupKey second := by
  constructor
  · intro same
    rcases same with ⟨key, one, two⟩
    rw [← key_of_puts_under references one, key_of_puts_under references two]
  · intro same
    exact ⟨_, puts_under_groupKey rule first, same ▸ puts_under_groupKey rule second⟩

/-! ## What the key tells of the values -/

theorem groupKey_toList (rule : CompiledCorrelation) (event : Event) :
    (rule.groupKey event).toList = Rows.write ',' '\u001f' (rule.groupValues event) := by
  simp [CompiledCorrelation.groupKey, CompiledCorrelation.groupValues, Rows.write,
    Function.comp_def]

theorem groupKey_eq_iff (rule : CompiledCorrelation) (first second : Event) :
    rule.groupKey first = rule.groupKey second ↔
      rule.cutValues first = rule.cutValues second := by
  have different : ',' ≠ '\u001f' := by decide
  have sameLength : (rule.groupValues first).length = (rule.groupValues second).length := by
    simp [CompiledCorrelation.groupValues]
  rw [← String.toList_inj, groupKey_toList, groupKey_toList]
  exact Rows.write_eq_iff different sameLength

theorem sorted_eq_iff (first second : List String) :
    first.insertionSort (· ≤ ·) = second.insertionSort (· ≤ ·) ↔ first.Perm second := by
  have firstPerm := List.perm_insertionSort (· ≤ ·) first
  have secondPerm := List.perm_insertionSort (· ≤ ·) second
  constructor
  · intro same
    exact firstPerm.symm.trans (same ▸ secondPerm)
  · intro perm
    exact (firstPerm.trans (perm.trans secondPerm.symm)).eq_of_pairwise'
      (List.pairwise_insertionSort _ first) (List.pairwise_insertionSort _ second)

theorem groupValues_eq_iff (rule : CompiledCorrelation) (first second : Event) :
    rule.groupValues first = rule.groupValues second ↔ rule.SameValues first second := by
  have injective : Function.Injective (List.map String.toList) :=
    List.map_injective_iff.mpr fun _ _ => String.toList_inj.mp
  rw [CompiledCorrelation.groupValues, CompiledCorrelation.groupValues, List.map_inj_left]
  apply forall₂_congr
  intro field _
  rw [injective.eq_iff, sorted_eq_iff]

theorem cutValues_of_sameValues {rule : CompiledCorrelation} {first second : Event}
    (same : rule.SameValues first second) : rule.cutValues first = rule.cutValues second := by
  rw [CompiledCorrelation.cutValues, (groupValues_eq_iff rule first second).mpr same,
    CompiledCorrelation.cutValues]

theorem plain_cells {rule : CompiledCorrelation} {event : Event} (plain : rule.PlainValues event)
    {field : String} (isField : field ∈ rule.groupBy) :
    ∀ text ∈ ((resolveField event field).insertionSort (· ≤ ·)).map String.toList,
      text ≠ [] ∧ ',' ∉ text ∧ '\u001f' ∉ text := by
  intro text member
  rcases List.mem_map.mp member with ⟨value, isValue, rfl⟩
  rcases plain field isField value ((List.mem_insertionSort _).mp isValue) with
    ⟨nonempty, noComma, noUnit⟩
  exact ⟨by simp [nonempty], noComma, noUnit⟩

/-- Plain values are not cut. -/
theorem cutValues_plain {rule : CompiledCorrelation} {event : Event}
    (plain : rule.PlainValues event) :
    rule.cutValues event =
      (rule.groupValues event).map fun cells => if cells = [] then [[]] else cells := by
  rw [CompiledCorrelation.cutValues, Rows.cut, List.map_eq_flatMap]
  apply List.flatMap_congr
  intro cells member
  rcases List.mem_map.mp member with ⟨field, isField, rfl⟩
  exact Rows.cutRow_plain fun text isText => (plain_cells plain isField text isText).2

theorem sameValues_of_plain {rule : CompiledCorrelation} {first second : Event}
    (plain : rule.PlainValues first) (plain' : rule.PlainValues second)
    (same : rule.cutValues first = rule.cutValues second) : rule.SameValues first second := by
  rw [cutValues_plain plain, cutValues_plain plain', CompiledCorrelation.groupValues,
    CompiledCorrelation.groupValues, List.map_map, List.map_map, List.map_inj_left] at same
  rw [← groupValues_eq_iff, CompiledCorrelation.groupValues, CompiledCorrelation.groupValues,
    List.map_inj_left]
  intro field isField
  have here := same field isField
  simp only [Function.comp_apply] at here
  -- an empty value would stand for a missing one
  have filled := fun text isText => (plain_cells plain isField text isText).1
  have filled' := fun text isText => (plain_cells plain' isField text isText).1
  split at here
  · next none =>
      split at here
      · next none' => rw [none, none']
      · exact absurd rfl (filled' [] (here ▸ List.mem_singleton_self []))
  · split at here
    · exact absurd rfl (filled [] (here ▸ List.mem_singleton_self []))
    · exact here

/-- Two events share a window exactly when they have the same values, unless different values
become the same when they are cut at their commas and unit separators; plain values do not. -/
theorem sameWindow_iff_sameValues {rule : CompiledCorrelation} (references : rule.rules ≠ [])
    (first second : Event) :
    ((rule.SameWindow first second ↔ rule.SameValues first second) ↔
      rule.SameValues first second ∨ rule.cutValues first ≠ rule.cutValues second) ∧
    (rule.PlainValues first → rule.PlainValues second →
      (rule.SameWindow first second ↔ rule.SameValues first second)) := by
  rw [sameWindow_iff references, groupKey_eq_iff]
  constructor
  · by_cases same : rule.SameValues first second
    · simp [same, cutValues_of_sameValues same]
    · simp [same]
  · intro plain plain'
    exact ⟨sameValues_of_plain plain plain', cutValues_of_sameValues⟩

/-! ## Two entities in one window -/

/-- Logins are counted by user and host. -/
def loginsPerUser : CompiledCorrelation where
  ruleId := "corr-brute"
  title := "Brute force per user"
  severity := .high
  technique := none
  tags := []
  kind := .eventCount
  rules := ["rule-ssh-failed"]
  groupBy := ["host", "user"]
  timespan := 600000000
  condition := { gte := some 3 }
  generate := false

theorem hostBeforeUser : ["host", "user"].Pairwise (· < ·) := by decide

/-- A login of a user on a host, as the log names them. -/
def login (host user : String) : Event where
  id := "e1"
  ts := 1
  ingestTs := 1
  ocsfClass := .authentication
  tenant := "acme"
  severity := .low
  host := none
  actor := none
  target := none
  message := ""
  fields :=
    { entries := [("host", .string host), ("user", .string user)], ordered := hostBeforeUser }
  templateId := none
  labels := []
  raw := []

theorem resolveField_login (host user : String) :
    resolveField (login host user) "host" = [host] ∧
      resolveField (login host user) "user" = [user] :=
  ⟨rfl, rfl⟩

theorem sameValues_login (host user host' user' : String) :
    loginsPerUser.SameValues (login host user) (login host' user') ↔
      host = host' ∧ user = user' := by
  simp [CompiledCorrelation.SameValues, loginsPerUser, resolveField_login]

theorem sameWindow_iff_sameValues_logins :
    ¬ loginsPerUser.SameWindow (login "web01" "alice") (login "web01" "mallory") := by
  have plain : ∀ user, user ≠ "" ∧ ',' ∉ user.toList ∧ '\u001f' ∉ user.toList →
      loginsPerUser.PlainValues (login "web01" user) := by
    intro user isPlain
    simp [CompiledCorrelation.PlainValues, loginsPerUser, resolveField_login]
    exact isPlain
  have references : loginsPerUser.rules ≠ [] := by simp [loginsPerUser]
  rw [(sameWindow_iff_sameValues references _ _).2 (plain "alice" (by decide))
    (plain "mallory" (by decide)), sameValues_login]
  simp

theorem not_sameWindow_iff_sameValues : ¬ ∀ (rule : CompiledCorrelation) (first second : Event),
    rule.rules ≠ [] → (rule.SameWindow first second ↔ rule.SameValues first second) := by
  intro law
  have references : loginsPerUser.rules ≠ [] := by simp [loginsPerUser]
  have same : loginsPerUser.SameWindow (login "web01\u001fx" "alice")
      (login "web01" "x\u001falice") := by
    rw [sameWindow_iff references]
    simp [CompiledCorrelation.groupKey, loginsPerUser, resolveField_login]
  have values := (law _ _ _ references).mp same
  rw [sameValues_login] at values
  simp at values

end Sigma
end Sigil
