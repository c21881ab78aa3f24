import Sigil.Sigma.ConditionText
import Sigil.Sigma.Detection

namespace Sigil
namespace Sigma

/-!
# Compiled rules mean what their detections say

The selections of a compiled rule are those of the blocks, whatever the order in which
the entries of the detection are read.  The evaluation of the condition only counts
names, so their order has no influence either.
-/

open Sigil.Core Library

variable {lib : Libraries}

/-! ## Conditions -/

theorem stripStar_some {p start : String} :
    stripStar p = some start ↔ p.toList = start.toList ++ ['*'] := by
  rw [stripStar, Option.ite_none_right_eq_some, Option.some.injEq]
  constructor
  · rintro ⟨last, rfl⟩
    rw [String.toList_ofList, List.dropLast_append_getLast? _ last]
  · intro equal
    rw [equal, List.getLast?_concat, List.dropLast_concat, String.ofList_toList]
    exact ⟨rfl, rfl⟩

theorem mem_select {target : Target} {names : List String} {name : String} :
    name ∈ target.select names ↔ name ∈ names ∧ target.Selects name := by
  cases target with
  | them => exact (and_iff_left trivial).symm
  | pattern p =>
      rw [Target.select, Target.Selects]
      cases strip : stripStar p with
      | some start =>
          have star := stripStar_some.mp strip
          simp only [List.mem_filter, List.isPrefixOf_iff_prefix]
          refine and_congr_right fun _ => ⟨fun begins => Or.inl ⟨_, star, begins⟩, ?_⟩
          rintro (⟨other, equal, begins⟩ | ⟨noStar, _⟩)
          · rw [star] at equal
            rwa [List.append_cancel_right equal]
          · rw [star, List.getLast?_concat] at noStar
            exact absurd rfl noStar
      | none =>
          have noStar : p.toList.getLast? ≠ some '*' := by
            intro last
            rw [stripStar, if_pos last] at strip
            cases strip
          simp only [List.mem_filter, decide_eq_true_eq]
          refine and_congr_right fun _ => ⟨fun equal => Or.inr ⟨noStar, equal⟩, ?_⟩
          rintro (⟨other, equal, _⟩ | ⟨_, equal⟩)
          · rw [equal, List.getLast?_concat] at noStar
            exact absurd rfl noStar
          · exact equal

theorem select_nodup {target : Target} {names : List String} (nodup : names.Nodup) :
    (target.select names).Nodup := by
  cases target with
  | them => exact nodup
  | pattern p =>
      rw [Target.select]
      split
      · exact nodup.filter _
      · exact nodup.filter _

/-- Counting hits in a list of names is counting names. -/
theorem countP_select {target : Target} {names : List String} (nodup : names.Nodup)
    {hit : String → Bool} {truth : String → Prop}
    (hits : ∀ name, hit name = true ↔ name ∈ names ∧ truth name) :
    (target.select names).countP hit =
      Set.ncard {name | name ∈ names.toFinset ∧ target.Selects name ∧ truth name} := by
  have same : {name | name ∈ names.toFinset ∧ target.Selects name ∧ truth name} =
      (((target.select names).filter hit).toFinset : Set String) := by
    ext name
    simp only [Set.mem_ofPred_eq, List.mem_toFinset, Finset.mem_coe, List.mem_filter, mem_select,
      hits]
    exact ⟨fun ⟨isName, selected, holds⟩ => ⟨⟨isName, selected⟩, isName, holds⟩,
      fun ⟨⟨isName, selected⟩, _, holds⟩ => ⟨isName, selected, holds⟩⟩
  rw [same, Set.ncard_coe_finset,
    List.toFinset_card_of_nodup ((select_nodup nodup).filter hit), List.countP_eq_length_filter]

/-- The evaluation decides whether the condition holds. -/
theorem eval_iff {results : String → Option Bool} {names : List String} (nodup : names.Nodup)
    {truth : String → Prop}
    (hits : ∀ name, (results name).getD false = true ↔ name ∈ names ∧ truth name)
    (e : Expr) :
    eval results names e = true ↔ e.Holds names.toFinset truth := by
  induction e with
  | ref name => rw [eval, hits, Expr.Holds, List.mem_toFinset]
  | not e inductionHypothesis =>
      rw [eval, Bool.not_eq_true', ← Bool.not_eq_true, inductionHypothesis, Expr.Holds]
  | and a b left right => rw [eval, Bool.and_eq_true, left, right, Expr.Holds]
  | or a b left right => rw [eval, Bool.or_eq_true, left, right, Expr.Holds]
  | quant atLeast target =>
      cases atLeast with
      | some k =>
          rw [eval, Expr.Holds, ← countP_select nodup hits]
          exact decide_eq_true_iff
      | none =>
          simp only [eval, Expr.Holds, Bool.and_eq_true, Bool.not_eq_true', decide_eq_true_eq,
            List.countP_eq_length, List.isEmpty_eq_false_iff_exists_mem, mem_select, hits,
            List.mem_toFinset]
          refine and_congr_right fun _ => ⟨fun all name isName selected => ?_,
            fun all name both => ⟨both.1, all name both.1 both.2⟩⟩
          exact (all name ⟨isName, selected⟩).2

/-! ## Reading the entries -/

/-- An entry that is the condition or writes some block. -/
def Readable (text : String) (entry : Yaml × Yaml) : Prop :=
  entry = (.string "condition", .string text) ∨
    ∃ name block, name ≠ "condition" ∧ WritesEntry entry (name, block)

theorem addEntry_block {entry : Yaml × Yaml} {name : String} {selection : Selection lib}
    (isKey : entry.1 = .string name) (other : name ≠ "condition")
    (compiled : compileSelection lib entry.2 = .ok selection)
    (found : (AList fun _ : String => Selection lib) × Option String) :
    CompiledRule.addEntry lib found entry = .ok (found.1.insert name selection, found.2) := by
  rw [CompiledRule.addEntry_selection (isKey ▸ rfl) other, compiled]
  rfl

/-- What is known after some entries: the condition if it is among them, a selection for
every block among them, and for other names what was known before. -/
structure Read (text : String) (entries : List (Yaml × Yaml))
    (before after : (AList fun _ : String => Selection lib) × Option String) : Prop where
  condition : (.string "condition", .string text) ∈ entries → after.2 = some text
  noCondition : (.string "condition", .string text) ∉ entries → after.2 = before.2
  block : ∀ entry, entry ∈ entries → ∀ name, name ≠ "condition" →
    entry.1 = .string name →
    ∃ selection, after.1.lookup name = some selection ∧
      compileSelection lib entry.2 = .ok selection
  other : ∀ name, name = "condition" ∨ .string name ∉ entries.map Prod.fst →
    after.1.lookup name = before.1.lookup name

theorem exists_read (lib : Libraries) {text : String} {entries : List (Yaml × Yaml)}
    (readable : ∀ entry, entry ∈ entries → Readable text entry)
    (distinct : (entries.map Prod.fst).Nodup)
    (before : (AList fun _ : String => Selection lib) × Option String) :
    ∃ after, entries.foldlM (CompiledRule.addEntry lib) before = .ok after ∧
      Read text entries before after := by
  induction entries generalizing before with
  | nil =>
      refine ⟨before, rfl, fun member => ?_, fun _ => rfl, fun _ member => ?_, fun _ _ => rfl⟩
      · exact absurd member List.not_mem_nil
      · exact absurd member List.not_mem_nil
  | cons entry entries inductionHypothesis =>
      rcases List.forall_mem_cons.mp readable with ⟨here, later⟩
      rw [List.map_cons, List.nodup_cons] at distinct
      rcases here with rfl | ⟨name, block, notCondition, writes⟩
      · rcases inductionHypothesis later distinct.2 (before.1, some text) with
          ⟨after, rest, read⟩
        refine ⟨after, ?_, fun _ => ?_, fun absent => ?_, fun one member => ?_,
          fun name away => ?_⟩
        · rw [List.foldlM_cons, CompiledRule.addEntry_condition (by simp [Yaml.asStr])]
          exact rest
        · refine read.noCondition fun member => ?_
          exact distinct.1 (List.mem_map_of_mem member)
        · exact absurd List.mem_cons_self absent
        · rcases List.mem_cons.mp member with rfl | isLater
          · intro name notCondition isKey
            cases isKey
            exact absurd rfl notCondition
          · exact read.block one isLater
        · exact read.other name (away.imp_right fun absent member =>
            absent (List.mem_cons_of_mem _ member))
      · rcases compileSelection_means lib writes.2 with ⟨selection, compiled, _⟩
        rcases inductionHypothesis later distinct.2 (before.1.insert name selection, before.2) with
          ⟨after, rest, read⟩
        have notLater : .string name ∉ entries.map Prod.fst := writes.1 ▸ distinct.1
        refine ⟨after, ?_, fun member => ?_, fun absent => ?_, fun one member => ?_,
          fun other away => ?_⟩
        · rw [List.foldlM_cons, addEntry_block writes.1 notCondition compiled]
          exact rest
        · rcases List.mem_cons.mp member with rfl | isLater
          · cases writes.1
            exact absurd rfl notCondition
          · exact read.condition isLater
        · exact read.noCondition fun member => absent (List.mem_cons_of_mem _ member)
        · rcases List.mem_cons.mp member with rfl | isLater
          · intro again _ isKey
            cases writes.1.symm.trans isKey
            rw [read.other name (Or.inr notLater), AList.lookup_insert]
            exact ⟨selection, rfl, compiled⟩
          · exact read.block one isLater
        · have different : other ≠ name := by
            rintro rfl
            rcases away with equal | absent
            · exact notCondition equal
            · exact absent (List.mem_cons.mpr (Or.inl writes.1.symm))
          rw [read.other other (away.imp_right fun absent member =>
            absent (List.mem_cons_of_mem _ member))]
          exact AList.lookup_insert_ne different

/-! ## Rules -/

namespace YamlMapping.Writes

variable {mapping : YamlMapping} {detection : Detection}

theorem condition_mem (writes : mapping.Writes detection) :
    (.string "condition", .string detection.condition) ∈ mapping.entries := by
  rcases writes with ⟨entries, order, _⟩
  exact order.mem_iff.mpr List.mem_cons_self

/-- An entry that writes a block has another name than the condition. -/
theorem not_condition {entries : List (Yaml × Yaml)}
    (order : mapping.entries.Perm
      ((.string "condition", .string detection.condition) :: entries))
    {entry : Yaml × Yaml} (member : entry ∈ entries) {name : String}
    (isKey : entry.1 = .string name) : name ≠ "condition" := by
  have distinct := (order.map Prod.fst).nodup_iff.mp mapping.distinct
  rw [List.map_cons, List.nodup_cons] at distinct
  have keyMember : entry.1 ∈ entries.map Prod.fst := List.mem_map_of_mem member
  rintro rfl
  rw [isKey] at keyMember
  exact distinct.1 keyMember

theorem exists_entry (writes : mapping.Writes detection) {name : String} {block : Block}
    (member : (name, block) ∈ detection.blocks) :
    ∃ entry, entry ∈ mapping.entries ∧ name ≠ "condition" ∧
      WritesEntry entry (name, block) := by
  rcases writes with ⟨entries, order, written⟩
  rcases Pointwise.exists_left written member with ⟨entry, isEntry, writesEntry⟩
  exact ⟨entry, order.mem_iff.mpr (List.mem_cons_of_mem _ isEntry),
    not_condition order isEntry writesEntry.1, writesEntry⟩

theorem exists_block (writes : mapping.Writes detection) {entry : Yaml × Yaml}
    (member : entry ∈ mapping.entries) :
    entry = (.string "condition", .string detection.condition) ∨
      ∃ name block, name ≠ "condition" ∧ (name, block) ∈ detection.blocks ∧
        WritesEntry entry (name, block) := by
  rcases writes with ⟨entries, order, written⟩
  rcases List.mem_cons.mp (order.mem_iff.mp member) with equal | isEntry
  · exact Or.inl equal
  · rcases Pointwise.exists_right written isEntry with
      ⟨⟨name, block⟩, isBlock, writesEntry⟩
    exact Or.inr ⟨name, block, not_condition order isEntry writesEntry.1, isBlock, writesEntry⟩

theorem readable (writes : mapping.Writes detection) :
    ∀ entry, entry ∈ mapping.entries → Readable detection.condition entry := by
  intro entry member
  rcases writes.exists_block member with equal | ⟨name, block, notCondition, _, writesEntry⟩
  · exact Or.inl equal
  · exact Or.inr ⟨name, block, notCondition, writesEntry⟩

end YamlMapping.Writes

namespace Read

variable {mapping : YamlMapping} {detection : Detection}
  {after : (AList fun _ : String => Selection lib) × Option String}

/-- The compiled selection of a block. -/
theorem selection_of_block (writes : mapping.Writes detection)
    (read : Read detection.condition mapping.entries (∅, none) after) {name : String}
    {block : Block} (member : (name, block) ∈ detection.blocks) :
    ∃ selection, after.1.lookup name = some selection ∧
      selection.Means fun event => block.Holds lib.cases.forms event := by
  rcases writes.exists_entry member with ⟨entry, isEntry, notCondition, writesEntry⟩
  rcases read.block entry isEntry name notCondition writesEntry.1 with
    ⟨selection, found, compiled⟩
  rcases compileSelection_means lib writesEntry.2 with ⟨same, compiledSame, isMeaning⟩
  rw [compiled] at compiledSame
  cases compiledSame
  exact ⟨selection, found, isMeaning⟩

/-- The block of a compiled selection. -/
theorem block_of_selection (writes : mapping.Writes detection)
    (read : Read detection.condition mapping.entries (∅, none) after) {name : String}
    {selection : Selection lib} (found : after.1.lookup name = some selection) :
    ∃ block, (name, block) ∈ detection.blocks ∧
      selection.Means fun event => block.Holds lib.cases.forms event := by
  have present : ¬ (name = "condition" ∨ .string name ∉ mapping.entries.map Prod.fst) := by
    intro away
    rw [read.other name away, AList.lookup_empty] at found
    cases found
  rcases not_or.mp present with ⟨notCondition, isKey⟩
  rcases List.mem_map.mp (not_not.mp isKey) with ⟨entry, isEntry, keyEq⟩
  rcases writes.exists_block isEntry with rfl | ⟨other, block, _, isBlock, writesEntry⟩
  · cases keyEq
    exact absurd rfl notCondition
  · cases keyEq.symm.trans writesEntry.1
    rcases read.selection_of_block writes isBlock with ⟨same, foundSame, isMeaning⟩
    rw [found] at foundSame
    cases foundSame
    exact ⟨block, isBlock, isMeaning⟩

theorem names_eq (writes : mapping.Writes detection)
    (read : Read detection.condition mapping.entries (∅, none) after) :
    after.1.keys.toFinset = detection.names := by
  ext name
  rw [List.mem_toFinset, ← AList.mem_keys, ← AList.lookup_isSome, Option.isSome_iff_exists,
    Detection.names, List.mem_toFinset]
  constructor
  · rintro ⟨selection, found⟩
    rcases read.block_of_selection writes found with ⟨block, isBlock, _⟩
    exact List.mem_map_of_mem isBlock
  · intro isName
    rcases List.mem_map.mp isName with ⟨⟨_, block⟩, isBlock, rfl⟩
    rcases read.selection_of_block writes isBlock with ⟨selection, found, _⟩
    exact ⟨selection, found⟩

/-- The result of a selection is the truth of its block. -/
theorem result_iff (writes : mapping.Writes detection)
    (read : Read detection.condition mapping.entries (∅, none) after) (event : Event)
    (name : String) :
    ((after.1.lookup name).map (Selection.eval event (eventHaystack lib event))).getD false =
        true ↔
      name ∈ after.1.keys ∧ detection.Truth lib.cases.forms event name := by
  constructor
  · intro hit
    cases found : after.1.lookup name with
    | none =>
        rw [found] at hit
        cases hit
    | some selection =>
        rw [found] at hit
        rcases read.block_of_selection writes found with ⟨block, isBlock, isMeaning⟩
        have isKey := AList.lookup_isSome.mp (found ▸ Option.isSome_some)
        exact ⟨AList.mem_keys.mp isKey, block, isBlock, (isMeaning event).mp hit⟩
  · rintro ⟨_, block, isBlock, holds⟩
    rcases read.selection_of_block writes isBlock with ⟨selection, found, isMeaning⟩
    rw [found]
    exact (isMeaning event).mpr holds

end Read

/-- A rule whose detection is written with supported values compiles, and it matches exactly the
events of which the detection holds with the forms of the sigmas. -/
theorem matches_iff_forms (lib : Libraries) (rule : SigmaRule) (detection : Detection)
    (condition : Expr) (writes : rule.detection.Writes detection)
    (parsed : parseCondition detection.condition = .ok condition) :
    ∃ compiled, CompiledRule.fromRule lib rule = .ok compiled ∧
      ∀ event, compiled.matches event = true ↔
        condition.Holds detection.names (detection.Truth lib.cases.forms event) := by
  rcases exists_read lib writes.readable rule.detection.distinct (∅, none) with
    ⟨⟨selections, text⟩, folded, read⟩
  have hasCondition : text = some detection.condition := read.condition writes.condition_mem
  subst hasCondition
  have compiled := CompiledRule.fromRule_eq_ok_iff.mpr
    ⟨selections, detection.condition, condition, folded, parsed, rfl⟩
  refine ⟨_, compiled, fun event => ?_⟩
  rw [← read.names_eq writes]
  exact eval_iff selections.keys_nodup (read.result_iff writes event) condition

/-! ## Letters and forms

What a detection says does not depend on the case of letters, so it takes no account of the
forms of a sigma, which the compiled rule sees. -/

/-- A block that holds of the event also holds when sigmas of different forms are different. -/
def Block.Unshaped (tables : CaseTables) (event : Event) (block : Block) : Prop :=
  block.Holds tables.letters event → block.Holds tables.forms event

/-- Every rule with these blocks and some condition compiles, and matches the event when its
detection holds of it. -/
def Denotes (lib : Libraries) (blocks : List (String × Block)) (event : Event) : Prop :=
  ∀ (rule : SigmaRule) (text : String) (condition : Expr),
    rule.detection.Writes { blocks := blocks, condition := text } →
    parseCondition text = .ok condition →
    ∃ compiled, CompiledRule.fromRule lib rule = .ok compiled ∧
      (compiled.matches event = true ↔
        condition.Holds (blocks.map Prod.fst).toFinset
          (Detection.Truth lib.cases.letters event { blocks := blocks, condition := text }))

theorem Block.Holds.letters_of_forms {tables : CaseTables} {event : Event} {block : Block}
    (holds : block.Holds tables.forms event) : block.Holds tables.letters event := by
  refine holds.imp fun sense candidate value matched => ?_
  rw [CaseTables.letters_eq, CaseTables.letters_eq]
  exact matched.map Prod.fst

theorem Expr.holds_congr {names : Finset String} {truth other : String → Prop}
    (same : ∀ name, truth name ↔ other name) (e : Expr) :
    e.Holds names truth ↔ e.Holds names other := by
  rw [funext fun name => propext (same name)]

theorem YamlMapping.Writes.names_nodup {mapping : YamlMapping} {detection : Detection}
    (writes : mapping.Writes detection) : (detection.blocks.map Prod.fst).Nodup := by
  rcases writes with ⟨entries, order, written⟩
  have distinct := (order.map Prod.fst).nodup_iff.mp mapping.distinct
  rw [List.map_cons, List.nodup_cons] at distinct
  have keys : entries.map Prod.fst = (detection.blocks.map Prod.fst).map Yaml.string := by
    rw [List.map_map, ← List.forall₂_eq_eq_eq, List.forall₂_map_left_iff,
      List.forall₂_map_right_iff]
    exact written.imp fun entry block writesEntry => writesEntry.1
  exact List.Nodup.of_map Yaml.string (keys ▸ distinct.2)

/-- The same blocks with another condition. -/
theorem YamlMapping.Writes.exists_condition {mapping : YamlMapping} {detection : Detection}
    (writes : mapping.Writes detection) (text : String) :
    ∃ other : YamlMapping, other.Writes { detection with condition := text } := by
  rcases writes with ⟨entries, order, written⟩
  have distinct := (order.map Prod.fst).nodup_iff.mp mapping.distinct
  exact ⟨⟨(.string "condition", .string text) :: entries, distinct⟩,
    entries, .refl _, written⟩

/-- When no fewer names are seen than said, all that is said is seen. -/
theorem seen_of_counts {names : Finset String} {said seen : String → Prop}
    (isSaid : ∀ name, seen name → said name)
    (enough : (Expr.quant
      (some (Set.ncard {name | name ∈ names ∧ Target.them.Selects name ∧
        said name})) .them).Holds
      names seen) {name : String} (isName : name ∈ names) (holds : said name) : seen name := by
  have finite : {name | name ∈ names ∧ Target.them.Selects name ∧ said name}.Finite :=
    names.finite_toSet.subset fun _ both => both.1
  have subset : {name | name ∈ names ∧ Target.them.Selects name ∧ seen name} ⊆
      {name | name ∈ names ∧ Target.them.Selects name ∧ said name} :=
    fun name both => ⟨both.1, both.2.1, isSaid name both.2.2⟩
  have same := Set.eq_of_subset_of_ncard_le subset enough finite
  have both : name ∈ {name | name ∈ names ∧ Target.them.Selects name ∧ said name} :=
    ⟨isName, trivial, holds⟩
  exact (same ▸ both).2.2

theorem ncard_selected_le (blocks : List (String × Block)) (said : String → Prop) :
    Set.ncard {name | name ∈ (blocks.map Prod.fst).toFinset ∧
      Target.them.Selects name ∧ said name} ≤
      blocks.length := by
  calc _ ≤ Set.ncard ((blocks.map Prod.fst).toFinset : Set String) :=
        Set.ncard_le_ncard (fun _ both => both.1) (Finset.finite_toSet _)
    _ = (blocks.map Prod.fst).toFinset.card := Set.ncard_coe_finset _
    _ ≤ (blocks.map Prod.fst).length := List.toFinset_card_le _
    _ = blocks.length := List.length_map _

/-- The compiled rules of some blocks match an event as their detections say, under every
condition, exactly when the blocks take no account of the forms of sigmas. -/
theorem matches_iff (lib : Libraries) {mapping : YamlMapping} {text : String}
    {blocks : List (String × Block)}
    (writes : mapping.Writes { blocks := blocks, condition := text }) (event : Event) :
    ((∀ name block, (name, block) ∈ blocks → block.Unshaped lib.cases event) →
      Denotes lib blocks event) ∧
    (blocks.length < 2 ^ 64 → Denotes lib blocks event →
      ∀ name block, (name, block) ∈ blocks → block.Unshaped lib.cases event) := by
  constructor
  · intro unshaped rule text condition writes parsed
    rcases matches_iff_forms lib rule _ condition writes parsed with ⟨compiled, isRule, matched⟩
    refine ⟨compiled, isRule,
      (matched event).trans (Expr.holds_congr (fun name => ?_) condition)⟩
    refine exists_congr fun block => and_congr_right fun member => ?_
    exact ⟨Block.Holds.letters_of_forms, unshaped name block member⟩
  · intro few denotes name block member holds
    -- a condition counts the blocks that hold, so none of them may be missed
    let detection : Detection := { blocks := blocks, condition := text }
    let count := Set.ncard {name | name ∈ detection.names ∧ Target.them.Selects name ∧
      detection.Truth lib.cases.letters event name}
    have valid : (Expr.quant (some count) .them).Valid := by
      refine ⟨fun n isCount => ?_, trivial⟩
      cases isCount
      exact (ncard_selected_le blocks _).trans_lt few
    rcases exists_prints_iff.mpr valid with ⟨counts, prints⟩
    rcases writes.exists_condition counts with ⟨other, writes'⟩
    have parsed := parseCondition_eq_ok_iff.mpr prints
    have written : ({ title := "", detection := other } : SigmaRule).detection.Writes
      { blocks := blocks, condition := counts } := writes'
    rcases denotes _ counts _ written parsed with ⟨compiled, isRule, asSaid⟩
    rcases matches_iff_forms lib _ _ _ written parsed with ⟨compiled', isRule', asSeen⟩
    cases Except.ok.inj (isRule.symm.trans isRule')
    have enough := (asSeen event).mp (asSaid.mpr le_rfl)
    have isName : name ∈ detection.names := List.mem_toFinset.mpr (List.mem_map_of_mem member)
    rcases seen_of_counts (fun name ⟨block, isBlock, seen⟩ =>
      ⟨block, isBlock, seen.letters_of_forms⟩) enough isName ⟨block, member, holds⟩ with
      ⟨same, isBlock, seen⟩
    cases List.inj_on_of_nodup_map writes.names_nodup isBlock member rfl
    exact seen

/-! ## A rule about failed logins -/

theorem ascii_stable (c d : Char) (member : d ∈ if c = 'Σ' then ['σ'] else [c.toLower]) :
    d ≠ 'Σ' ∧ (if d = 'Σ' then ['σ'] else [d.toLower]) = [d] := by
  split at member
  · cases List.mem_singleton.mp member
    decide
  · next notSigma =>
      cases List.mem_singleton.mp member
      have stays : c.toLower ≠ 'Σ' := by
        rcases toLower_cases c with same | ⟨_, small⟩
        · rwa [same]
        · intro equal
          rw [equal] at small
          exact absurd small (by decide)
      rw [if_neg stays, toLower_toLower]
      exact ⟨stays, rfl⟩

/-- Libraries with the tables of the ASCII letters, a capital sigma and the text of no
nested YAML value; an expression is its own text. -/
def asciiLibraries : Libraries where
  cases :=
    { lower := fun c => if c = 'Σ' then ['σ'] else [c.toLower]
      upper := fun c => [c.toUpper]
      cased := fun c => c.isAlpha
      caseIgnorable := fun c => c = '.'
      lower_sigma := rfl
      lower_finalSigma := by decide
      lower_stable := ascii_stable }
  Regex := String
  newRegex := .ok
  escapeRegex := id
  isMatch := fun re candidate => re = candidate
  yamlText := fun _ => none

def failedLogins : Detection where
  blocks := [("selection", .item (.map [⟨"message", [.contains], ["Failed"], by decide⟩])),
    ("filter", .list [.keyword "trusted"])]
  condition := "selection and not 1 of filt*"

def failedLoginsRule : SigmaRule where
  title := "Failed logins"
  detection :=
    { entries :=
        [(.string "filter", .sequence [.string "trusted"]),
          (.string "condition", .string "selection and not 1 of filt*"),
          (.string "selection", .mapping [(.string "message|contains", .string "Failed")])]
      distinct := by simp }

theorem failedLogins_written : failedLoginsRule.detection.Writes failedLogins := by
  refine ⟨[(.string "selection", .mapping [(.string "message|contains", .string "Failed")]),
    (.string "filter", .sequence [.string "trusted"])], ?_, ?_⟩
  · exact (List.Perm.swap _ _ _).trans (.cons _ (.swap _ _ _))
  · have failed : Scalar (.string "Failed") "Failed" := .string (by decide)
    have trusted : Scalar (.string "trusted") "trusted" := .string (by decide)
    refine .cons ⟨rfl, .item (.map (.cons ⟨rfl, .one failed⟩ .nil))⟩
      (.cons ⟨rfl, ?_⟩ .nil)
    exact .list (.cons (.keyword trusted) .nil)

/-- A login that fails. -/
def failedLogin (message : String) : Event where
  id := "e1"
  ts := 1
  ingestTs := 1
  ocsfClass := .authentication
  tenant := "acme"
  severity := .low
  host := none
  actor := none
  target := none
  message := message
  fields := .empty
  templateId := none
  labels := []
  raw := []

theorem matches_iff_failedLogins :
    Denotes asciiLibraries failedLogins.blocks (failedLogin "Login FAILED") ∧
      ∀ name block, (name, block) ∈ failedLogins.blocks →
        block.Unshaped asciiLibraries.cases (failedLogin "Login FAILED") := by
  have both := matches_iff asciiLibraries failedLogins_written (failedLogin "Login FAILED")
  have denotes : Denotes asciiLibraries failedLogins.blocks (failedLogin "Login FAILED") := by
    refine both.1 fun name block member holds => ?_
    rcases List.mem_cons.mp member with same | other
    · cases same
      intro test isTest
      rw [List.mem_singleton.mp isTest, FieldTest.Holds, if_neg (by decide)]
      refine ⟨"Failed", List.mem_singleton_self _, "Login FAILED", ?_, ?_⟩
      · exact .part .message (fun _ impossible => absurd impossible List.not_mem_nil)
          ⟨"message", by decide, SameName.refl _⟩ rfl (by decide)
      · change asciiLibraries.cases.forms "Failed" <:+: asciiLibraries.cases.forms "Login FAILED"
        decide
    · cases List.mem_singleton.mp other
      rcases holds with ⟨one, isOne, holds⟩
      cases List.mem_singleton.mp isOne
      change asciiLibraries.cases.letters "trusted" <:+:
        asciiLibraries.cases.letters "Login FAILED" at holds
      exact absurd holds (by decide)
  exact ⟨denotes, both.2 (by decide) denotes⟩

/-- A word with a capital sigma at its end, looked for in a message that goes on after it. -/
def sigmaRule : SigmaRule where
  title := "Sigma"
  detection :=
    { entries := [(.string "condition", .string "word"), (.string "word", .string "aΣ")]
      distinct := by simp }

/-- A text that stands in the message as it is can be missed. -/
theorem not_matches_iff : ¬ ∀ (lib : Libraries) (rule : SigmaRule) (detection : Detection)
    (condition : Expr), rule.detection.Writes detection →
      parseCondition detection.condition = .ok condition →
      ∃ compiled, CompiledRule.fromRule lib rule = .ok compiled ∧
        ∀ event, compiled.matches event = true ↔
          condition.Holds detection.names (detection.Truth lib.cases.letters event) := by
  intro law
  let detection : Detection := { blocks := [("word", .item (.keyword "aΣ"))], condition := "word" }
  have writes : sigmaRule.detection.Writes detection :=
    ⟨[(.string "word", .string "aΣ")], .refl _,
      .cons ⟨rfl, .item (.keyword (.string (by decide)))⟩ .nil⟩
  have parsed : parseCondition "word" = .ok (.ref "word") := by decide +kernel
  rcases law asciiLibraries sigmaRule detection _ writes parsed with ⟨compiled, isRule, asSaid⟩
  rcases matches_iff_forms asciiLibraries sigmaRule detection _ writes parsed with
    ⟨compiled', isRule', asSeen⟩
  cases Except.ok.inj (isRule.symm.trans isRule')
  have said : (Expr.ref "word").Holds detection.names
      (detection.Truth asciiLibraries.cases.letters (failedLogin "aΣb")) := by
    refine ⟨by decide, _, List.mem_singleton_self _, ?_⟩
    change asciiLibraries.cases.letters "aΣ" <:+: asciiLibraries.cases.letters "aΣb"
    decide
  rcases (asSeen _).mp ((asSaid _).mpr said) with ⟨_, block, isBlock, seen⟩
  cases List.mem_singleton.mp isBlock
  change asciiLibraries.cases.forms "aΣ" <:+: asciiLibraries.cases.forms "aΣb" at seen
  exact absurd seen (by decide)

end Sigma
end Sigil
