import Mathlib.Data.List.Basic
import Sigil.Library.Words

namespace Sigil
namespace Library
namespace Blanks

/-!
# Texts with blanks

A text is tight when no blank stands at its ends.  Blanks at the ends can be stripped, and runs of
blanks inside can be collapsed.  Both keep the elements that are no blanks, so that a tight text
keeps its ends when its blanks are collapsed.
-/

universe u

variable {α : Type u} {blank : α → Bool}

/-- No blank stands at the ends. -/
def Tight (blank : α → Bool) (text : List α) : Prop :=
  (∀ x, x ∈ text.head? → blank x = false) ∧ ∀ x, x ∈ text.getLast? → blank x = false

theorem Tight.reverse {text : List α} (tight : Tight blank text) : Tight blank text.reverse := by
  rw [Tight, List.head?_reverse, List.getLast?_reverse]
  exact ⟨tight.2, tight.1⟩

/-- A text without blanks is tight. -/
theorem tight_of_plain {text : List α} (plain : ∀ x, x ∈ text → blank x = false) :
    Tight blank text :=
  ⟨fun x head => plain x (List.mem_of_head? head),
    fun x last => plain x (List.mem_of_getLast? last)⟩

/-- What stands between two tight texts does not matter. -/
theorem Tight.between {first second : List α} (tight : Tight blank first)
    (next : Tight blank second) (someFirst : first ≠ []) (someSecond : second ≠ [])
    (middle : List α) :
    Tight blank (first ++ (middle ++ second)) := by
  constructor
  · rw [List.head?_append_of_ne_nil _ someFirst]
    exact tight.1
  · rw [← List.append_assoc, List.getLast?_append_of_ne_nil _ someSecond]
    exact next.2

/-! ## Stripping the ends -/

/-- Remove the blanks at the ends. -/
def strip (blank : α → Bool) (text : List α) : List α :=
  ((text.dropWhile blank).reverse.dropWhile blank).reverse

theorem dropWhile_tight {text : List α} (plain : ∀ x, x ∈ text.head? → blank x = false) :
    text.dropWhile blank = text := by
  cases text with
  | nil => rfl
  | cons x text =>
      have here := plain x rfl
      exact List.dropWhile_cons_of_neg (by rw [here]; exact Bool.false_ne_true)

theorem Tight.strip_eq {text : List α} (tight : Tight blank text) : strip blank text = text := by
  rw [strip, dropWhile_tight tight.1, dropWhile_tight tight.reverse.1, List.reverse_reverse]

theorem dropWhile_pad {front : List α} (isBlank : ∀ x, x ∈ front → blank x = true)
    (text : List α) : (front ++ text).dropWhile blank = text.dropWhile blank := by
  have gone : front.dropWhile blank = [] := List.dropWhile_eq_nil_iff.mpr isBlank
  rw [List.dropWhile_append, gone, List.isEmpty_nil, if_pos rfl]

/-- Blanks that have been put around a text are removed. -/
theorem strip_pad {front back : List α} (isFront : ∀ x, x ∈ front → blank x = true)
    (isBack : ∀ x, x ∈ back → blank x = true) (text : List α) :
    strip blank (front ++ (text ++ back)) = strip blank text := by
  have isBackward : ∀ x, x ∈ back.reverse → blank x = true := fun x member =>
    isBack x (List.mem_reverse.mp member)
  have gone : back.dropWhile blank = [] := List.dropWhile_eq_nil_iff.mpr isBack
  rw [strip, dropWhile_pad isFront, List.dropWhile_append, gone, strip]
  split
  · next isEmpty => rw [List.isEmpty_iff.mp isEmpty]
  · rw [List.reverse_append, dropWhile_pad isBackward]

theorem last_strip (text : List α) :
    ∀ x, x ∈ (strip blank text).getLast? → blank x = false := by
  intro x last
  rw [strip, List.getLast?_reverse] at last
  have stops := List.head?_dropWhile_not blank (text.dropWhile blank).reverse
  rw [Option.mem_def.mp last] at stops
  exact stops

/-- Where nothing is left there were only blanks. -/
theorem blank_of_strip {text : List α} (none_ : strip blank text = []) :
    ∀ x, x ∈ text → blank x = true := by
  have backward : (text.dropWhile blank).reverse.dropWhile blank = [] :=
    List.reverse_eq_nil_iff.mp none_
  apply List.dropWhile_eq_nil_iff.mp
  cases shape : text.dropWhile blank with
  | nil => rfl
  | cons x rest =>
      have stops := List.head?_dropWhile_not blank text
      rw [shape] at stops backward
      have blankHead :=
        List.dropWhile_eq_nil_iff.mp backward x (List.mem_reverse.mpr List.mem_cons_self)
      exact absurd (blankHead.symm.trans stops) (by decide)

theorem dropWhile_stops {x : α} (plain : blank x = false) (front rest : List α) :
    ∃ kept, (front ++ x :: rest).dropWhile blank = kept ++ x :: rest := by
  have here : (x :: rest).dropWhile blank = x :: rest :=
    List.dropWhile_cons_of_neg (by rw [plain]; exact Bool.false_ne_true)
  rw [List.dropWhile_append, here]
  split
  · exact ⟨[], rfl⟩
  · exact ⟨front.dropWhile blank, rfl⟩

/-- An element that is no blank is not removed. -/
theorem mem_strip_self {text : List α} {x : α} (plain : blank x = false) (member : x ∈ text) :
    x ∈ strip blank text := by
  rcases List.append_of_mem member with ⟨front, rest, rfl⟩
  rcases dropWhile_stops plain front rest with ⟨kept, start⟩
  rcases dropWhile_stops plain rest.reverse kept.reverse with ⟨others, stop⟩
  rw [strip, start, List.reverse_append, List.reverse_cons, List.append_assoc,
    List.singleton_append, stop, List.mem_reverse]
  exact List.mem_append_right _ List.mem_cons_self

/-- What stands between two elements that are no blanks is not removed. -/
theorem mem_strip {front middle rest : List α} {first last x : α}
    (plainFirst : blank first = false) (plainLast : blank last = false) (member : x ∈ middle) :
    x ∈ strip blank (front ++ first :: (middle ++ last :: rest)) := by
  rcases dropWhile_stops plainFirst front (middle ++ last :: rest) with ⟨kept, start⟩
  have turned : (kept ++ first :: (middle ++ last :: rest)).reverse =
      rest.reverse ++ last :: (middle.reverse ++ first :: kept.reverse) := by
    simp
  rcases dropWhile_stops plainLast rest.reverse (middle.reverse ++ first :: kept.reverse) with
    ⟨others, stop⟩
  rw [strip, start, turned, stop, List.mem_reverse]
  simp [member]

/-! ## Collapsing blanks -/

/-- The words with one blank between them. -/
def collapse (blank : α → Bool) (space : α) (text : List α) : List α :=
  [space].intercalate (Words.split blank text)

theorem split_plain {word : List α} (some_ : word ≠ [])
    (plain : ∀ x, x ∈ word → blank x = false) :
    Words.split blank word = [word] := by
  have alone : Words.split blank (word ++ []) = word :: Words.split blank [] :=
    Words.split_word some_ plain fun x impossible => absurd impossible (Option.not_mem_none x)
  rw [List.append_nil] at alone
  exact alone

/-- The words have all the elements that are no blanks. -/
theorem flatten_split (blank : α → Bool) (text : List α) :
    (Words.split blank text).flatten = text.filter fun x => !blank x := by
  rw [Words.split, List.flatten_filter_not_isEmpty]
  induction text with
  | nil => rfl
  | cons x text inductionHypothesis =>
      rw [List.splitOnP_cons_eq_if_modifyHead, List.filter_cons]
      cases isBlank : blank x with
      | true => exact inductionHypothesis
      | false =>
          cases parts : text.splitOnP blank with
          | nil => exact absurd parts (List.splitOnP_ne_nil _ _)
          | cons part others =>
              rw [parts] at inductionHypothesis
              exact congrArg (x :: ·) inductionHypothesis

theorem plain_of_mem_split {text word : List α} (member : word ∈ Words.split blank text) :
    ∀ x, x ∈ word → blank x = false :=
  Words.plain_of_mem_splitOnP (List.mem_filter.mp member).1

theorem ne_nil_of_mem_split {text word : List α} (member : word ∈ Words.split blank text) :
    word ≠ [] := by
  have kept := (List.mem_filter.mp member).2
  rw [Bool.not_eq_true', List.isEmpty_eq_false_iff] at kept
  exact kept

theorem split_ne_nil {text : List α} {x : α} (member : x ∈ text) (plain : blank x = false) :
    Words.split blank text ≠ [] := by
  intro none_
  have kept : x ∈ (Words.split blank text).flatten := by
    rw [flatten_split, List.mem_filter, plain]
    exact ⟨member, rfl⟩
  rw [none_] at kept
  exact absurd kept List.not_mem_nil

variable {space : α}

/-- Blanks between words are not among what is no blank. -/
theorem filter_intercalate (isBlank : blank space = true) {words : List (List α)}
    (plain : ∀ word, word ∈ words → ∀ x, x ∈ word → blank x = false) :
    ([space].intercalate words).filter (fun x => !blank x) = words.flatten := by
  have all :
      ∀ word, word ∈ words → word.filter (fun x => !blank x) = word := fun word member =>
    List.filter_eq_self.mpr fun x inside => by rw [plain word member x inside]; rfl
  induction words with
  | nil => rfl
  | cons word words inductionHypothesis =>
      have rest :=
        inductionHypothesis (fun other member => plain other (List.mem_cons_of_mem _ member))
        fun other member => all other (List.mem_cons_of_mem _ member)
      have here := all word List.mem_cons_self
      cases words with
      | nil =>
          rw [List.intercalate_singleton, here]
          simp
      | cons next words =>
          rw [List.intercalate_cons_cons, List.filter_append, List.filter_append, here, rest,
            List.filter_cons_of_neg (by rw [isBlank]; decide)]
          simp

theorem filter_collapse (isBlank : blank space = true) (text : List α) :
    (collapse blank space text).filter (fun x => !blank x) = text.filter fun x => !blank x := by
  rw [collapse, filter_intercalate isBlank fun _ => plain_of_mem_split, flatten_split]

/-- Words with one blank between them are tight. -/
theorem tight_intercalate {words : List (List α)}
    (some_ : ∀ word, word ∈ words → word ≠ [])
    (plain : ∀ word, word ∈ words → ∀ x, x ∈ word → blank x = false) :
    Tight blank ([space].intercalate words) := by
  induction words with
  | nil => exact tight_of_plain fun x impossible => absurd impossible List.not_mem_nil
  | cons word words inductionHypothesis =>
      have here := tight_of_plain (plain word List.mem_cons_self)
      cases words with
      | nil =>
          rw [List.intercalate_singleton]
          exact here
      | cons next words =>
          have rest :=
            inductionHypothesis (fun other member => some_ other (List.mem_cons_of_mem _ member))
            fun other member => plain other (List.mem_cons_of_mem _ member)
          have someRest : [space].intercalate (next :: words) ≠ [] := by
            have someNext := some_ next (List.mem_cons_of_mem _ List.mem_cons_self)
            cases words with
            | nil =>
                rw [List.intercalate_singleton]
                exact someNext
            | cons other words =>
                rw [List.intercalate_cons_cons]
                simp
          rw [List.intercalate_cons_cons, List.append_assoc]
          exact here.between rest (some_ word List.mem_cons_self) someRest [space]

theorem tight_collapse (text : List α) : Tight blank (collapse blank space text) :=
  tight_intercalate (fun _ => ne_nil_of_mem_split) fun _ => plain_of_mem_split

theorem head?_filter_tight {text : List α} (tight : Tight blank text) :
    (text.filter fun x => !blank x).head? = text.head? := by
  cases text with
  | nil => rfl
  | cons x text =>
      have here := tight.1 x rfl
      rw [List.filter_cons_of_pos (by rw [here]; rfl)]
      rfl

/-- The first element stays. -/
theorem head?_collapse (isBlank : blank space = true) {text : List α} (tight : Tight blank text) :
    (collapse blank space text).head? = text.head? := by
  rw [← head?_filter_tight (tight_collapse text), filter_collapse isBlank,
    head?_filter_tight tight]

/-- The last element stays. -/
theorem getLast?_collapse (isBlank : blank space = true) {text : List α}
    (tight : Tight blank text) : (collapse blank space text).getLast? = text.getLast? := by
  have backward : ∀ list : List α, Tight blank list →
      (list.filter fun x => !blank x).getLast? = list.getLast? := by
    intro list tightList
    rw [← List.head?_reverse, ← List.head?_reverse, ← List.filter_reverse]
    exact head?_filter_tight tightList.reverse
  rw [← backward _ (tight_collapse text), filter_collapse isBlank, backward _ tight]

/-- A text of one word stays. -/
theorem collapse_plain {text : List α} (plain : ∀ x, x ∈ text → blank x = false) :
    collapse blank space text = text := by
  by_cases some_ : text = []
  · rw [some_]
    rfl
  · rw [collapse, split_plain some_ plain]
    exact List.intercalate_singleton

/-- A text of several elements keeps several, since the ones at its ends are no blanks. -/
theorem two_le_length_collapse (isBlank : blank space = true) {text : List α}
    (tight : Tight blank text) :
    2 ≤ (collapse blank space text).length ↔ 2 ≤ text.length := by
  rcases text with _ | ⟨x, _ | ⟨y, rest⟩⟩
  · rfl
  · have plain : ∀ z, z ∈ [x] → blank z = false := by
      intro z member
      rw [List.mem_singleton.mp member]
      exact tight.1 x rfl
    rw [collapse_plain plain]
  · refine iff_of_true ?_ (by simp)
    have last := List.dropLast_concat_getLast (List.cons_ne_nil y rest)
    have plainLast : blank ((y :: rest).getLast (List.cons_ne_nil y rest)) = false := by
      apply tight.2
      rw [List.getLast?_cons_cons, List.getLast?_eq_some_getLast (List.cons_ne_nil y rest)]
      rfl
    have kept : 2 ≤ ((x :: y :: rest).filter fun z => !blank z).length := by
      rw [← last, List.filter_cons_of_pos (by rw [tight.1 x rfl]; rfl), List.filter_append,
        List.filter_cons_of_pos (by rw [plainLast]; rfl)]
      simp
    rw [← filter_collapse isBlank] at kept
    exact Nat.le_trans kept (List.length_filter_le _ _)

end Blanks
end Library
end Sigil
