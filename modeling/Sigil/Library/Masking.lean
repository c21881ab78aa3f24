import Mathlib.Data.List.Basic
import Sigil.Library.Transition

namespace Sigil
namespace Library
namespace Masking

/-!
# Masked texts

Secrets in a text are replaced by placeholders, one after another over the whole text, and
the placeholders are replaced by the secrets again.  A marked text records where the
placeholders have been put: it holds plain elements and marks.  As long as every replacement
finds in the text what it finds in the marked text, the text is the marked one with the
placeholders written out, and in the end it is the text of the beginning.
-/

universe u v

section Replace

variable {α : Type u} [DecidableEq α] (pattern replacement : List α)

/-- Replace the occurrences of a pattern that is not empty from left to right; the elements
that are skipped belong to an occurrence. -/
def replaceFrom : Nat → List α → List α
  | _, [] => []
  | skip + 1, _ :: rest => replaceFrom skip rest
  | 0, x :: rest =>
      if pattern <+: x :: rest then replacement ++ replaceFrom (pattern.length - 1) rest
      else x :: replaceFrom 0 rest

def replace (text : List α) : List α :=
  replaceFrom pattern replacement 0 text

/-- The parts between the occurrences that are replaced. -/
def splitFrom : Nat → List α → List (List α)
  | _, [] => [[]]
  | skip + 1, _ :: rest => splitFrom skip rest
  | 0, x :: rest =>
      if pattern <+: x :: rest then [] :: splitFrom (pattern.length - 1) rest
      else (splitFrom 0 rest).modifyHead (x :: ·)

def split (text : List α) : List (List α) :=
  splitFrom pattern 0 text

theorem splitFrom_ne_nil (skip : Nat) (text : List α) : splitFrom pattern skip text ≠ [] := by
  induction text generalizing skip with
  | nil =>
      cases skip <;> exact List.cons_ne_nil _ _
  | cons x rest inductionHypothesis =>
      cases skip with
      | succ skip => exact inductionHypothesis skip
      | zero =>
          rw [splitFrom]
          split
          · exact List.cons_ne_nil _ _
          · intro empty
            exact inductionHypothesis 0 (List.modifyHead_eq_nil_iff.mp empty)

/-- The replacement is put between the parts. -/
theorem replaceFrom_eq (skip : Nat) (text : List α) :
    replaceFrom pattern replacement skip text =
      replacement.intercalate (splitFrom pattern skip text) := by
  induction text generalizing skip with
  | nil =>
      cases skip <;> exact List.intercalate_singleton.symm
  | cons x rest inductionHypothesis =>
      cases skip with
      | succ skip => exact inductionHypothesis skip
      | zero =>
          rw [replaceFrom, splitFrom]
          split
          · rw [List.intercalate_cons_of_ne_nil (splitFrom_ne_nil pattern _ rest),
              inductionHypothesis]
            rfl
          · rw [inductionHypothesis]
            cases parts : splitFrom pattern 0 rest with
            | nil => exact absurd parts (splitFrom_ne_nil pattern 0 rest)
            | cons part parts => exact List.intercalate_cons_cons_left.symm

theorem replace_eq (text : List α) :
    replace pattern replacement text = replacement.intercalate (split pattern text) :=
  replaceFrom_eq pattern replacement 0 text

variable {pattern}

theorem replaceFrom_self (nonempty : pattern ≠ []) (skip : Nat) (text : List α) :
    replaceFrom pattern pattern skip text = text.drop skip := by
  induction text generalizing skip with
  | nil =>
      cases skip <;> rfl
  | cons x rest inductionHypothesis =>
      cases skip with
      | succ skip => exact inductionHypothesis skip
      | zero =>
          rw [replaceFrom, inductionHypothesis, inductionHypothesis]
          split
          · next found =>
              rcases found with ⟨after, text⟩
              cases pattern with
              | nil => exact absurd rfl nonempty
              | cons first others =>
                  rcases List.cons_eq_cons.mp text with ⟨rfl, rfl⟩
                  exact congrArg (first :: others ++ ·) List.drop_left
          · rfl

variable {replacement} in
theorem mem_replaceFrom {skip : Nat} {text : List α} {x : α}
    (member : x ∈ replaceFrom pattern replacement skip text) :
    x ∈ text ∨ x ∈ replacement := by
  induction text generalizing skip with
  | nil =>
      cases skip <;> exact absurd member List.not_mem_nil
  | cons y rest inductionHypothesis =>
      have further : ∀ skip, x ∈ replaceFrom pattern replacement skip rest →
          x ∈ y :: rest ∨ x ∈ replacement :=
        fun skip member => (inductionHypothesis member).imp_left (List.mem_cons_of_mem y)
      cases skip with
      | succ skip => exact further skip member
      | zero =>
          rw [replaceFrom] at member
          split at member
          · exact (List.mem_append.mp member).elim .inr (further _)
          · rcases List.mem_cons.mp member with rfl | later
            · exact .inl List.mem_cons_self
            · exact further 0 later

/-- A pattern is replaced by itself. -/
theorem replace_self (nonempty : pattern ≠ []) (text : List α) :
    replace pattern pattern text = text :=
  replaceFrom_self nonempty 0 text

/-- A single element is replaced wherever it stands. -/
theorem replace_singleton (x : α) (text : List α) :
    replace [x] replacement text = text.flatMap fun y => if y = x then replacement else [y] := by
  rw [replace]
  induction text with
  | nil => rfl
  | cons y rest inductionHypothesis =>
      rw [replaceFrom, List.flatMap_cons]
      by_cases same : y = x
      · subst same
        rw [if_pos rfl, if_pos (List.cons_prefix_cons.mpr ⟨rfl, List.nil_prefix⟩)]
        exact congrArg (replacement ++ ·) inductionHypothesis
      · rw [if_neg same, if_neg fun found => same (List.cons_prefix_cons.mp found).1.symm]
        exact congrArg (y :: ·) inductionHypothesis

theorem replace_of_not_mem {x : α} {text : List α} (absent : x ∉ text) :
    replace [x] replacement text = text := by
  rw [replace_singleton]
  have each : ∀ y, y ∈ text → (if y = x then replacement else [y]) = [y] := by
    intro y member
    rw [if_neg fun same : y = x => absent (same ▸ member)]
  rw [List.flatMap_def, List.map_congr_left each, ← List.flatMap_def]
  exact List.flatMap_singleton' text

end Replace

section Render

variable {α : Type u} {ι : Type v} (write : ι → List α)

/-- Write out the marks. -/
def render (text : List (α ⊕ ι)) : List α :=
  text.flatMap (Sum.elim (fun x => [x]) write)

theorem render_plain (text : List α) : render write (text.map Sum.inl) = text := by
  rw [render, List.flatMap_map]
  exact List.flatMap_singleton' text

theorem render_mark (k : ι) : render write [Sum.inr k] = write k :=
  List.flatMap_singleton _ _

/-- A text with a mark behind each of several equal parts. -/
theorem render_marks {β : Type*} (first part : List α) (mark : β → ι) (items : List β) :
    render write (first.map Sum.inl ++
        items.flatMap fun item => part.map Sum.inl ++ [Sum.inr (mark item)]) =
      first ++ items.flatMap fun item => part ++ write (mark item) := by
  rw [render, List.flatMap_append, ← render, render_plain, List.flatMap_assoc]
  congr 2
  funext item
  rw [List.flatMap_append, ← render, render_plain]
  exact congrArg (part ++ ·) (render_mark write _)

theorem render_intercalate (between : List (α ⊕ ι)) (parts : List (List (α ⊕ ι))) :
    render write (between.intercalate parts) =
      (render write between).intercalate (parts.map (render write)) := by
  induction parts with
  | nil => rfl
  | cons part parts inductionHypothesis =>
      cases parts with
      | nil => rw [List.intercalate_singleton, List.map_singleton, List.intercalate_singleton]
      | cons next parts =>
          rw [List.intercalate_cons_cons, List.map_cons, List.map_cons, List.intercalate_cons_cons,
            ← List.map_cons, ← inductionHypothesis, render,
            List.flatMap_append, List.flatMap_append]
          rfl

variable {write}

theorem render_congr {other : ι → List α} {text : List (α ⊕ ι)}
    (same : ∀ k, Sum.inr k ∈ text → write k = other k) :
    render write text = render other text := by
  rw [render, render, List.flatMap_def, List.flatMap_def]
  congr 1
  apply List.map_congr_left
  intro x member
  cases x with
  | inl x => rfl
  | inr k => exact same k member

variable [DecidableEq α] [DecidableEq ι]

/-- In the text a pattern is found just where it is found among the plain elements and the
marks. -/
def Apart (write : ι → List α) (pattern text : List (α ⊕ ι)) : Prop :=
  split (render write pattern) (render write text) = (split pattern text).map (render write)

instance (write : ι → List α) (pattern text : List (α ⊕ ι)) :
    Decidable (Apart write pattern text) :=
  inferInstanceAs (Decidable (_ = _))

theorem replace_render {pattern text : List (α ⊕ ι)} (apart : Apart write pattern text)
    (replacement : List (α ⊕ ι)) :
    replace (render write pattern) (render write replacement) (render write text) =
      render write (replace pattern replacement text) := by
  rw [replace_eq, replace_eq, apart, render_intercalate]

/-- Exchanging what is written alike does not change what is written. -/
theorem render_replace {pattern replacement : List (α ⊕ ι)} (nonempty : pattern ≠ [])
    (alike : render write replacement = render write pattern) (text : List (α ⊕ ι)) :
    render write (replace pattern replacement text) = render write text := by
  rw [replace_eq, render_intercalate, alike, ← render_intercalate, ← replace_eq,
    replace_self nonempty]

end Render

/-! ## Hiding and revealing -/

/-- The secret of a slot, where an empty one is not hidden, its placeholder, and the value
that is put back, if any. -/
structure Secrets (α : Type u) (ι : Type v) where
  secret : ι → List α
  placeholder : ι → List α
  value : ι → Option (List α)

/-- A pass over the whole text. -/
inductive Pass (ι : Type v) where
  | hide (slot : ι)
  | reveal (slot : ι)
  deriving DecidableEq

section Passes

variable {α : Type u} {ι : Type v} [DecidableEq α] [DecidableEq ι] (S : Secrets α ι)

namespace Pass

/-- What a pass does to a text. -/
def run (text : List α) : Pass ι → List α
  | .hide k => if S.secret k = [] then text else replace (S.secret k) (S.placeholder k) text
  | .reveal k => (S.value k).elim text fun value => replace (S.placeholder k) value text

/-- What it should do: secrets are hidden among the plain elements, and marks are revealed. -/
def mark (text : List (α ⊕ ι)) : Pass ι → List (α ⊕ ι)
  | .hide k =>
      if S.secret k = [] then text else replace ((S.secret k).map Sum.inl) [Sum.inr k] text
  | .reveal k => (S.value k).elim text fun value => replace [Sum.inr k] (value.map Sum.inl) text

/-- The secret of a slot is found in plain text only, and its placeholder only where it has
been put for a secret that is put back as it was. -/
def Fits (text : List (α ⊕ ι)) : Pass ι → Prop
  | .hide k => S.secret k ≠ [] → Apart S.placeholder ((S.secret k).map Sum.inl) text
  | .reveal k => ∀ value ∈ S.value k, Apart S.placeholder [Sum.inr k] text ∧
      (Sum.inr k ∈ text → value = S.secret k)

instance (k : ι) (text : List (α ⊕ ι)) : Decidable (Sum.inr k ∈ text) :=
  decidable_of_iff (∃ x ∈ text, x = Sum.inr k)
    ⟨fun ⟨_, member, same⟩ => same ▸ member, fun member => ⟨_, member, rfl⟩⟩

instance (text : List (α ⊕ ι)) : (pass : Pass ι) → Decidable (pass.Fits S text)
  | .hide k => inferInstanceAs (Decidable (S.secret k ≠ [] →
      Apart S.placeholder ((S.secret k).map Sum.inl) text))
  | .reveal k => inferInstanceAs (Decidable (∀ value ∈ S.value k,
      Apart S.placeholder [Sum.inr k] text ∧ (Sum.inr k ∈ text → value = S.secret k)))

/-- A pass on a marked text, as a step. -/
def next (text : List (α ⊕ ι)) (pass : Pass ι) : Option (List (α ⊕ ι)) :=
  some (pass.mark S text)

variable {S}

/-- A pass that fits does to the text what it should do, and with the secrets in the place
of the marks the text stays the same. -/
theorem Fits.run {text : List (α ⊕ ι)} {pass : Pass ι} (fits : pass.Fits S text) :
    pass.run S (render S.placeholder text) = render S.placeholder (pass.mark S text) ∧
      render S.secret (pass.mark S text) = render S.secret text := by
  cases pass with
  | hide k =>
      rw [Pass.run, mark]
      by_cases empty : S.secret k = []
      · rw [if_pos empty, if_pos empty]
        exact ⟨rfl, rfl⟩
      · rw [if_neg empty, if_neg empty, ← replace_render (fits empty), render_plain, render_mark]
        refine ⟨rfl, render_replace (fun none => empty (List.map_eq_nil_iff.mp none)) ?_ text⟩
        rw [render_plain, render_mark]
  | reveal k =>
      rw [Pass.run, mark]
      cases here : S.value k with
      | none => exact ⟨rfl, rfl⟩
      | some value =>
          rcases fits value here with ⟨apart, same⟩
          dsimp only [Option.elim_some]
          rw [← replace_render apart, render_plain, render_mark]
          refine ⟨rfl, ?_⟩
          by_cases present : Sum.inr k ∈ text
          · apply render_replace (List.cons_ne_nil _ _)
            rw [render_plain, render_mark, same present]
          · rw [replace_of_not_mem _ present]

end Pass

/-! ## Hiding and revealing all secrets -/

/-- Every secret that is hidden is revealed later. -/
def Restores (S : Secrets α ι) : List (Pass ι) → Prop
  | [] => True
  | .hide k :: rest =>
      (S.secret k ≠ [] → Pass.reveal k ∈ rest ∧ (S.value k).isSome = true) ∧
        Restores S rest
  | .reveal _ :: rest => Restores S rest

/-- The marks of a text are revealed later. -/
def Pending (S : Secrets α ι) (text : List (α ⊕ ι)) (rest : List (Pass ι)) : Prop :=
  ∀ k, Sum.inr k ∈ text → Pass.reveal k ∈ rest ∧ (S.value k).isSome = true

variable {S}

theorem Pending.mark {text : List (α ⊕ ι)} {pass : Pass ι} {rest : List (Pass ι)}
    (pending : Pending S text (pass :: rest)) (restores : Restores S (pass :: rest)) :
    Pending S (pass.mark S text) rest := by
  intro k isMark
  cases pass with
  | hide j =>
      have old : Sum.inr k ∈ text → Pass.reveal k ∈ rest ∧ (S.value k).isSome = true := by
        intro member
        rcases pending k member with ⟨later, isSome⟩
        exact ⟨(List.mem_cons.mp later).resolve_left nofun, isSome⟩
      rw [Pass.mark] at isMark
      split at isMark
      · exact old isMark
      · next nonempty =>
          rcases mem_replaceFrom isMark with member | new
          · exact old member
          · cases List.mem_singleton.mp new
            exact restores.1 nonempty
  | reveal j =>
      rw [Pass.mark] at isMark
      cases here : S.value j with
      | none =>
          rw [here] at isMark
          rcases pending k isMark with ⟨later, isSome⟩
          rcases List.mem_cons.mp later with same | later
          · cases same
            rw [here] at isSome
            cases isSome
          · exact ⟨later, isSome⟩
      | some value =>
          rw [here, Option.elim_some, replace_singleton] at isMark
          rcases List.mem_flatMap.mp isMark with ⟨x, member, stays⟩
          split at stays
          · rcases List.mem_map.mp stays with ⟨_, _, impossible⟩
            cases impossible
          · next other =>
              cases List.mem_singleton.mp stays
              rcases pending k member with ⟨later, isSome⟩
              rcases List.mem_cons.mp later with same | later
              · cases same
                exact absurd rfl other
              · exact ⟨later, isSome⟩

/-- When every pass fits, the passes do to the text what they should do. -/
theorem foldl_run_mark {passes : List (Pass ι)} {text : List (α ⊕ ι)}
    (fits : TransitionSystem.Along (Pass.next S)
      (fun before pass _ => pass.Fits S before) text passes) :
    passes.foldl (Pass.run S) (render S.placeholder text) =
      render S.placeholder (passes.foldl (Pass.mark S) text) := by
  induction passes generalizing text with
  | nil => rfl
  | cons pass passes inductionHypothesis =>
      rcases fits with ⟨after, step, isFit, rest⟩
      cases step
      rw [List.foldl_cons, List.foldl_cons, isFit.run.1, inductionHypothesis rest]

/-- When every pass fits, all passes together give the text with the secrets. -/
theorem foldl_run {passes : List (Pass ι)} {text : List (α ⊕ ι)}
    (fits : TransitionSystem.Along (Pass.next S)
      (fun before pass _ => pass.Fits S before) text passes)
    (restores : Restores S passes) (pending : Pending S text passes) :
    passes.foldl (Pass.run S) (render S.placeholder text) = render S.secret text := by
  induction passes generalizing text with
  | nil => exact render_congr fun k member => absurd (pending k member).1 List.not_mem_nil
  | cons pass passes inductionHypothesis =>
      rcases fits with ⟨after, step, isFit, rest⟩
      cases step
      have later : Restores S passes := by
        cases pass with
        | hide k => exact restores.2
        | reveal k => exact restores
      rw [List.foldl_cons, isFit.run.1, inductionHypothesis rest later (pending.mark restores)]
      exact isFit.run.2

omit [DecidableEq α] [DecidableEq ι] in
theorem restores_append {hidden slots : List ι} (sub : hidden ⊆ slots)
    (some_value : ∀ k, S.secret k ≠ [] → (S.value k).isSome = true) :
    Restores S (hidden.map .hide ++ slots.map .reveal) := by
  induction hidden with
  | nil =>
      clear sub
      induction slots with
      | nil => trivial
      | cons k slots inductionHypothesis => exact inductionHypothesis
  | cons k hidden inductionHypothesis =>
      refine ⟨fun nonempty => ⟨?_, some_value k nonempty⟩, inductionHypothesis fun j member =>
        sub (List.mem_cons_of_mem _ member)⟩
      exact List.mem_append_right _ (List.mem_map_of_mem (sub List.mem_cons_self))

/-- Hiding the secrets of all slots and revealing them again gives the text back when every
pass fits. -/
theorem hide_reveal {slots : List ι} {text : List α}
    (some_value : ∀ k, S.secret k ≠ [] → (S.value k).isSome = true)
    (fits : TransitionSystem.Along (Pass.next S) (fun before pass _ => pass.Fits S before)
      (text.map Sum.inl) (slots.map .hide ++ slots.map .reveal)) :
    (slots.map Pass.hide ++ slots.map Pass.reveal).foldl (Pass.run S) text = text := by
  have pending : Pending S (text.map Sum.inl) (slots.map .hide ++ slots.map .reveal) := by
    intro k isMark
    rcases List.mem_map.mp isMark with ⟨_, _, impossible⟩
    cases impossible
  have run := foldl_run fits (restores_append (List.Subset.refl slots) some_value) pending
  rwa [render_plain, render_plain] at run

end Passes

end Masking
end Library
end Sigil
