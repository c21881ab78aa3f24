import Mathlib.Data.List.TakeWhile

namespace Sigil
namespace Library
namespace Words

/-!
# Splitting a text into words

Words are the maximal runs without blanks, except that some elements are words of their
own wherever they stand.  The scanner puts blanks around these elements and then splits
at the blanks.  A layout of a list of words says the same without a scanner, and every
text is a layout of exactly one list of words.
-/

universe u

/-- The blanks, one of them, and the elements that are words of their own. -/
structure Separators (α : Type u) where
  blank : α → Bool
  single : α → Bool
  space : α
  space_blank : blank space = true
  disjoint : ∀ x, blank x = true → single x = false

variable {α : Type u}

/-- No blank is left in a part. -/
theorem plain_of_mem_splitOnP {blank : α → Bool} {text part : List α}
    (member : part ∈ text.splitOnP blank) : ∀ x, x ∈ part → blank x = false := by
  induction text generalizing part with
  | nil =>
      cases List.mem_singleton.mp member
      exact fun x inside => absurd inside List.not_mem_nil
  | cons first text inductionHypothesis =>
      rw [List.splitOnP_cons_eq_if_modifyHead] at member
      cases isBlank : blank first with
      | true =>
          rw [if_pos isBlank] at member
          rcases List.mem_cons.mp member with rfl | later
          · exact fun x inside => absurd inside List.not_mem_nil
          · exact inductionHypothesis later
      | false =>
          rw [if_neg (by rw [isBlank]; decide)] at member
          cases parts : text.splitOnP blank with
          | nil => exact absurd parts (List.splitOnP_ne_nil _ _)
          | cons run runs =>
              rw [parts] at member inductionHypothesis
              rcases List.mem_cons.mp member with rfl | later
              · exact List.forall_mem_cons.mpr
                  ⟨isBlank, inductionHypothesis List.mem_cons_self⟩
              · exact inductionHypothesis (List.mem_cons_of_mem _ later)

/-- The maximal runs without blanks. -/
def split (blank : α → Bool) (text : List α) : List (List α) :=
  (text.splitOnP blank).filter fun run => !run.isEmpty

theorem split_blank {blank : α → Bool} {x : α} (isBlank : blank x = true) (text : List α) :
    split blank (x :: text) = split blank text := by
  rw [split, ← List.nil_append (x :: text),
    List.splitOnP_append_cons_of_forall_mem (fun _ member => absurd member List.not_mem_nil) x
      isBlank]
  rfl

theorem split_word {blank : α → Bool} {word : List α} (nonempty : word ≠ [])
    (plain : ∀ x, x ∈ word → blank x = false) {text : List α}
    (next : ∀ x, x ∈ text.head? → blank x = true) :
    split blank (word ++ text) = word :: split blank text := by
  have kept : (!word.isEmpty) = true := by
    rw [Bool.not_eq_true', List.isEmpty_eq_false_iff]
    exact nonempty
  cases text with
  | nil =>
      rw [List.append_nil, split, List.splitOnP_eq_singleton plain, List.filter_cons, if_pos kept]
      rfl
  | cons x text =>
      have isBlank := next x rfl
      rw [split_blank isBlank, split,
        List.splitOnP_append_cons_of_forall_mem plain x isBlank, List.filter_cons, if_pos kept]
      rfl

namespace Separators

variable (separators : Separators α)

/-- Put blanks around the elements that are words of their own. -/
def spread (text : List α) : List α :=
  text.flatMap fun x =>
    if separators.single x then [separators.space, x, separators.space] else [x]

/-- The words of a text. -/
def scan (text : List α) : List (List α) :=
  split separators.blank (separators.spread text)

/-- An element inside a word of several elements. -/
def Plain (x : α) : Prop :=
  separators.blank x = false ∧ separators.single x = false

instance (x : α) : Decidable (separators.Plain x) :=
  inferInstanceAs (Decidable (_ ∧ _))

/-- What may follow such a word: nothing, a blank or a word of its own. -/
def Stops (text : List α) : Prop :=
  ∀ x, x ∈ text.head? → ¬ separators.Plain x

/-- A text lays out a list of words. -/
inductive Layout : List (List α) → List α → Prop where
  | nil : Layout [] []
  | blank {x : α} {words : List (List α)} {text : List α} :
      separators.blank x = true → Layout words text → Layout words (x :: text)
  | single {x : α} {words : List (List α)} {text : List α} :
      separators.single x = true → Layout words text → Layout ([x] :: words) (x :: text)
  | word {word : List α} {words : List (List α)} {text : List α} :
      word ≠ [] → (∀ x, x ∈ word → separators.Plain x) → separators.Stops text →
        Layout words text → Layout (word :: words) (word ++ text)

variable {separators}

theorem spread_append (first second : List α) :
    separators.spread (first ++ second) = separators.spread first ++ separators.spread second :=
  List.flatMap_append

theorem spread_single {x : α} (isSingle : separators.single x = true) :
    separators.spread [x] = [separators.space, x, separators.space] := by
  rw [spread, List.flatMap_singleton, if_pos isSingle]

theorem spread_of_not_single {word : List α}
    (plain : ∀ x, x ∈ word → separators.single x = false) :
    separators.spread word = word := by
  induction word with
  | nil => rfl
  | cons x word inductionHypothesis =>
      have rest := inductionHypothesis fun y member => plain y (List.mem_cons_of_mem _ member)
      have here := plain x List.mem_cons_self
      rw [spread, List.flatMap_cons, if_neg (Bool.eq_false_iff.mp here)]
      exact congrArg (x :: ·) rest

theorem single_not_blank {x : α} (isSingle : separators.single x = true) :
    separators.blank x = false := by
  apply Bool.eq_false_iff.mpr
  intro isBlank
  rw [separators.disjoint x isBlank] at isSingle
  exact Bool.false_ne_true isSingle

theorem scan_blank {x : α} (isBlank : separators.blank x = true) (text : List α) :
    separators.scan (x :: text) = separators.scan text := by
  have same : separators.spread (x :: text) = x :: separators.spread text := by
    rw [spread, List.flatMap_cons, if_neg (Bool.eq_false_iff.mp (separators.disjoint x isBlank))]
    rfl
  rw [scan, same, split_blank isBlank, scan]

theorem scan_single {x : α} (isSingle : separators.single x = true) (text : List α) :
    separators.scan (x :: text) = [x] :: separators.scan text := by
  have spaced : separators.spread (x :: text) =
      separators.space :: ([x] ++ separators.space :: separators.spread text) := by
    rw [← List.singleton_append, spread_append, spread_single isSingle]
    rfl
  have alone : ∀ y, y ∈ [x] → separators.blank y = false := by
    intro y member
    exact List.mem_singleton.mp member ▸ single_not_blank isSingle
  have next : ∀ y, y ∈ (separators.space :: separators.spread text).head? →
      separators.blank y = true := by
    rintro y ⟨⟩
    exact separators.space_blank
  rw [scan, spaced, split_blank separators.space_blank,
    split_word (List.cons_ne_nil x []) alone next, split_blank separators.space_blank, scan]

/-- In a spread text a word is followed by a blank or by nothing. -/
theorem head_spread {text : List α} (stops : separators.Stops text) :
    ∀ x, x ∈ (separators.spread text).head? → separators.blank x = true := by
  cases text with
  | nil =>
      intro x member
      exact absurd member (Option.not_mem_none x)
  | cons y text =>
      intro x member
      rw [spread, List.flatMap_cons] at member
      cases isSingle : separators.single y with
      | true =>
          rw [if_pos isSingle] at member
          rcases member
          exact separators.space_blank
      | false =>
          rw [if_neg (Bool.eq_false_iff.mp isSingle)] at member
          rcases member
          apply Bool.not_eq_false _ |>.mp
          intro notBlank
          exact stops y rfl ⟨notBlank, isSingle⟩

theorem scan_word {word : List α} (nonempty : word ≠ [])
    (plain : ∀ x, x ∈ word → separators.Plain x) {text : List α}
    (stops : separators.Stops text) :
    separators.scan (word ++ text) = word :: separators.scan text := by
  rw [scan, spread_append, spread_of_not_single fun x member => (plain x member).2,
    split_word nonempty (fun x member => (plain x member).1) (head_spread stops), scan]

/-- A text that starts with a plain element starts with a word that stops. -/
theorem exists_word {x : α} (plainHead : separators.Plain x) (text : List α) :
    ∃ word rest, x :: text = word ++ rest ∧ word ≠ [] ∧
      (∀ y, y ∈ word → separators.Plain y) ∧ separators.Stops rest ∧
        rest.length ≤ text.length := by
  let inside : α → Bool := fun y => !separators.blank y && !separators.single y
  have inside_iff : ∀ y, inside y = true ↔ separators.Plain y := by
    intro y
    simp only [inside, Bool.and_eq_true, Bool.not_eq_true', Plain]
  refine ⟨x :: text.takeWhile inside, text.dropWhile inside, ?_, List.cons_ne_nil _ _, ?_, ?_,
    (List.dropWhile_sublist _).length_le⟩
  · rw [List.cons_append, List.takeWhile_append_dropWhile]
  · intro y member
    rcases List.mem_cons.mp member with equal | later
    · exact equal ▸ plainHead
    · exact (inside_iff y).mp (List.mem_takeWhile_imp later)
  · intro y member isPlain
    have fails := List.head?_dropWhile_not inside text
    rw [Option.mem_def.mp member] at fails
    exact Bool.eq_false_iff.mp fails ((inside_iff y).mpr isPlain)

/-- Every text is a layout of the words that the scanner finds. -/
theorem layout_scan (text : List α) : separators.Layout (separators.scan text) text := by
  induction size : text.length using Nat.strongRecOn generalizing text with
  | ind n inductionHypothesis =>
      cases text with
      | nil => exact Layout.nil
      | cons x rest =>
          have shorter : rest.length < n := size ▸ Nat.lt_succ_self rest.length
          cases isBlank : separators.blank x with
          | true =>
              rw [scan_blank isBlank]
              exact Layout.blank isBlank (inductionHypothesis _ shorter rest rfl)
          | false =>
              cases isSingle : separators.single x with
              | true =>
                  rw [scan_single isSingle]
                  exact Layout.single isSingle (inductionHypothesis _ shorter rest rfl)
              | false =>
                  rcases exists_word ⟨isBlank, isSingle⟩ rest with
                    ⟨word, left, equal, nonempty, plain, stops, size⟩
                  rw [equal, scan_word nonempty plain stops]
                  exact Layout.word nonempty plain stops
                    (inductionHypothesis _ (Nat.lt_of_le_of_lt size shorter) left rfl)

theorem Layout.scan_eq {words : List (List α)} {text : List α}
    (layout : separators.Layout words text) : separators.scan text = words := by
  induction layout with
  | nil => rfl
  | blank isBlank _ inductionHypothesis => rw [scan_blank isBlank, inductionHypothesis]
  | single isSingle _ inductionHypothesis => rw [scan_single isSingle, inductionHypothesis]
  | word nonempty plain stops _ inductionHypothesis =>
      rw [scan_word nonempty plain stops, inductionHypothesis]

/-- A text is a layout of exactly the words that the scanner finds. -/
theorem layout_iff {words : List (List α)} {text : List α} :
    separators.Layout words text ↔ separators.scan text = words :=
  ⟨Layout.scan_eq, fun equal => equal ▸ layout_scan text⟩

theorem Stops.append {text second : List α} (stops : separators.Stops text)
    (next : separators.Stops second) : separators.Stops (text ++ second) := by
  cases text with
  | nil => exact next
  | cons x text => exact stops

theorem Layout.append {words others : List (List α)} {first second : List α}
    (layout : separators.Layout words first) (rest : separators.Layout others second)
    (stops : separators.Stops second) : separators.Layout (words ++ others) (first ++ second) := by
  induction layout with
  | nil => exact rest
  | blank isBlank _ inductionHypothesis => exact .blank isBlank inductionHypothesis
  | single isSingle _ inductionHypothesis => exact .single isSingle inductionHypothesis
  | word nonempty plain next _ inductionHypothesis =>
      rw [List.append_assoc]
      exact .word nonempty plain (next.append stops) inductionHypothesis

/-- Where no word goes on, a text can be cut. -/
theorem scan_append {first second : List α} (stops : separators.Stops second) :
    separators.scan (first ++ second) = separators.scan first ++ separators.scan second :=
  ((layout_scan first).append (layout_scan second) stops).scan_eq

/-- What can stand in a layout: a word of its own or several plain elements. -/
def IsWord (separators : Separators α) (word : List α) : Prop :=
  (∃ x, word = [x] ∧ separators.single x = true) ∨
    (word ≠ [] ∧ ∀ x, x ∈ word → separators.Plain x)

/-- A word of plain elements, tested one by one. -/
theorem IsWord.of_plain {word : List α} (nonempty : word ≠ [])
    (plain : (word.all fun x => decide (separators.Plain x)) = true) : separators.IsWord word :=
  .inr ⟨nonempty, fun x member => of_decide_eq_true (List.all_eq_true.mp plain x member)⟩

theorem Layout.isWord {words : List (List α)} {text : List α}
    (layout : separators.Layout words text) {word : List α} (member : word ∈ words) :
    separators.IsWord word := by
  induction layout with
  | nil => exact absurd member List.not_mem_nil
  | blank _ _ inductionHypothesis => exact inductionHypothesis member
  | single isSingle _ inductionHypothesis =>
      rcases List.mem_cons.mp member with equal | later
      · exact Or.inl ⟨_, equal, isSingle⟩
      · exact inductionHypothesis later
  | word nonempty plain _ _ inductionHypothesis =>
      rcases List.mem_cons.mp member with equal | later
      · exact Or.inr (equal ▸ ⟨nonempty, plain⟩)
      · exact inductionHypothesis later

/-- Words with a blank in front of each are a layout. -/
theorem layout_spaced {words : List (List α)}
    (areWords : ∀ word, word ∈ words → separators.IsWord word) :
    separators.Layout words (words.flatMap fun word => separators.space :: word) := by
  induction words with
  | nil => exact Layout.nil
  | cons word words inductionHypothesis =>
      have rest := inductionHypothesis fun w member => areWords w (List.mem_cons_of_mem _ member)
      rw [List.flatMap_cons, List.cons_append]
      apply Layout.blank separators.space_blank
      rcases areWords word List.mem_cons_self with ⟨x, rfl, isSingle⟩ | ⟨nonempty, plain⟩
      · exact Layout.single isSingle rest
      · refine Layout.word nonempty plain ?_ rest
        cases words with
        | nil =>
            intro x member
            exact absurd member (Option.not_mem_none x)
        | cons second words =>
            rintro x ⟨⟩ isPlain
            exact Bool.false_ne_true (isPlain.1.symm.trans separators.space_blank)

end Separators

end Words
end Library
end Sigil
