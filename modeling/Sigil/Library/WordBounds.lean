import Sigil.Library.Blanks

namespace Sigil
namespace Library
namespace WordBounds

/-!
# Where a text is cut

A text that is cut next to a blank has the words of both parts.  A cut inside a word leaves the
words in front of it and behind it, and two parts of the word.  So the first word behind a cut is a
word of the whole text if the cut is next to a blank, and else only if the same word stands
elsewhere.
-/

universe u

variable {α : Type u} {blank : α → Bool}

/-- A text is empty, or begins with a blank or with a word. -/
theorem induct (blank : α → Bool) {motive : List α → Prop} (nil : motive [])
    (space : ∀ x rest, blank x = true → motive rest → motive (x :: rest))
    (word : ∀ word rest, word ≠ [] → (∀ x, x ∈ word → blank x = false) →
      (∀ x, x ∈ rest.head? → blank x = true) → motive rest → motive (word ++ rest))
    (text : List α) : motive text := by
  induction length : text.length using Nat.strongRecOn generalizing text with
  | ind n inductionHypothesis =>
      cases text with
      | nil => exact nil
      | cons x text =>
          cases isBlank : blank x with
          | true =>
              rw [List.length_cons] at length
              exact space x text isBlank (inductionHypothesis text.length (by omega) text rfl)
          | false =>
              have parts := @List.takeWhile_append_dropWhile _ (fun y => !blank y) (x :: text)
              have begins : (x :: text).takeWhile (fun y => !blank y) =
                  x :: text.takeWhile fun y => !blank y :=
                List.takeWhile_cons_of_pos (by rw [isBlank]; rfl)
              have shorter : ((x :: text).dropWhile fun y => !blank y).length < n := by
                rw [List.dropWhile_cons_of_pos (by rw [isBlank]; rfl), ← length, List.length_cons]
                exact Nat.lt_succ_of_le (List.length_dropWhile_le _ _)
              rw [← parts]
              refine word _ _ (by rw [begins]; exact List.cons_ne_nil _ _) (fun y member => ?_)
                (fun y head => ?_) (inductionHypothesis _ shorter _ rfl)
              · have plain := List.mem_takeWhile_imp member
                rwa [Bool.not_eq_true'] at plain
              · have stops := List.head?_dropWhile_not (fun y => !blank y) (x :: text)
                rw [Option.mem_def.mp head] at stops
                exact (Bool.not_eq_false' (b := blank y)).mp stops

/-- A blank stands in front of the cut or behind it, or nothing does. -/
def Between (blank : α → Bool) (front back : List α) : Prop :=
  (∀ x, x ∈ front.getLast? → blank x = true) ∨ ∀ x, x ∈ back.head? → blank x = true

theorem Between.tail {front more back : List α} (some_ : more ≠ []) :
    Between blank (front ++ more) back ↔ Between blank more back := by
  rw [Between, Between, List.getLast?_append_of_ne_nil _ some_]

/-- A cut next to a blank divides the words. -/
theorem split_append {front back : List α} (between : Between blank front back) :
    Words.split blank (front ++ back) = Words.split blank front ++ Words.split blank back := by
  induction front using induct blank with
  | nil => rfl
  | space x rest isBlank inductionHypothesis =>
      rw [List.cons_append, Words.split_blank isBlank, Words.split_blank isBlank]
      by_cases some_ : rest = []
      · rw [some_]
        rfl
      · exact inductionHypothesis ((@Between.tail _ _ [x] _ _ some_).mp between)
  | word word rest nonempty plain next inductionHypothesis =>
      by_cases some_ : rest = []
      · subst some_
        have head : ∀ x, x ∈ back.head? → blank x = true := by
          rcases between with last | head
          · rw [List.append_nil] at last
            have isLast := List.getLast?_eq_some_getLast nonempty
            have isBlank := last _ isLast
            rw [plain _ (List.getLast_mem nonempty)] at isBlank
            cases isBlank
          · exact head
        rw [List.append_nil, Words.split_word nonempty plain head,
          Blanks.split_plain nonempty plain]
        rfl
      · have next' : ∀ x, x ∈ (rest ++ back).head? → blank x = true := by
          rw [List.head?_append_of_ne_nil _ some_]
          exact next
        rw [List.append_assoc, Words.split_word nonempty plain next',
          Words.split_word nonempty plain next,
          inductionHypothesis ((Between.tail some_).mp between), List.cons_append]

/-- A word without a blank behind it goes on behind the cut. -/
theorem split_word_inside {word back : List α} (nonempty : word ≠ [])
    (plain : ∀ x, x ∈ word → blank x = false) (inside : ¬ Between blank word back) :
    ∃ second rest, Words.split blank back = second :: rest ∧
      Words.split blank (word ++ back) = (word ++ second) :: rest := by
  induction back using induct blank with
  | nil => exact absurd (Or.inr fun x impossible =>
      absurd impossible (Option.not_mem_none x)) inside
  | space x others isBlank _ =>
      refine absurd (Or.inr fun y head => ?_) inside
      rw [← Option.some.inj head]
      exact isBlank
  | word second others nonempty' plain' next' _ =>
      have whole : ∀ x, x ∈ word ++ second → blank x = false := by
        intro x member
        rcases List.mem_append.mp member with first | later
        · exact plain x first
        · exact plain' x later
      refine ⟨second, Words.split blank others, Words.split_word nonempty' plain' next', ?_⟩
      rw [← List.append_assoc,
        Words.split_word (List.append_ne_nil_of_left_ne_nil nonempty _) whole next']

/-- A cut inside a word leaves two parts of it. -/
theorem split_inside {front back : List α} (inside : ¬ Between blank front back) :
    ∃ words part word rest, part ≠ [] ∧ Words.split blank front = words ++ [part] ∧
      Words.split blank back = word :: rest ∧
      Words.split blank (front ++ back) = words ++ (part ++ word) :: rest := by
  induction front using induct blank with
  | nil => exact absurd (Or.inl fun x impossible =>
      absurd impossible (Option.not_mem_none x)) inside
  | space x rest isBlank inductionHypothesis =>
      rw [List.cons_append, Words.split_blank isBlank, Words.split_blank isBlank]
      by_cases some_ : rest = []
      · subst some_
        refine absurd (Or.inl fun y last => ?_) inside
        rw [← Option.some.inj last]
        exact isBlank
      · exact inductionHypothesis fun between =>
          inside ((@Between.tail _ _ [x] _ _ some_).mpr between)
  | word word rest nonempty plain next inductionHypothesis =>
      by_cases some_ : rest = []
      · subst some_
        rw [List.append_nil] at inside ⊢
        rcases split_word_inside nonempty plain inside with ⟨second, others, behind, both⟩
        exact ⟨[], word, second, others, nonempty,
          Blanks.split_plain nonempty plain, behind, both⟩
      · have next' : ∀ x, x ∈ (rest ++ back).head? → blank x = true := by
          rw [List.head?_append_of_ne_nil _ some_]
          exact next
        rcases inductionHypothesis fun between => inside ((Between.tail some_).mpr between) with
          ⟨words, part, word', others, some', first, second, both⟩
        refine ⟨word :: words, part, word', others, some', ?_, second, ?_⟩
        · rw [Words.split_word nonempty plain next, first, List.cons_append]
        · rw [List.append_assoc, Words.split_word nonempty plain next', both, List.cons_append]

/-- The first word behind a cut is a word of the text if it begins there, or stands elsewhere. -/
theorem head_mem_split_iff {front back word : List α} {rest : List (List α)}
    (shape : Words.split blank back = word :: rest) :
    word ∈ Words.split blank (front ++ back) ↔ Between blank front back ∨
      word ∈ (Words.split blank front).dropLast ∨ word ∈ rest := by
  by_cases between : Between blank front back
  · rw [split_append between, shape]
    exact iff_of_true (List.mem_append_right _ List.mem_cons_self) (Or.inl between)
  · rcases split_inside between with ⟨words, part, word', rest', some_, first, second, both⟩
    cases shape.symm.trans second
    have longer : word ≠ part ++ word := by
      intro same
      exact some_ (List.self_eq_append_left.mp same)
    rw [both, first, List.dropLast_concat, List.mem_append, List.mem_cons, or_iff_right between]
    exact or_congr_right (or_iff_right longer)

end WordBounds
end Library
end Sigil
