import Sigil.Core.Slices
import Sigil.Library.Expressions
import Sigil.Sigma.Denotation

namespace Sigil
namespace Sigma

/-!
# Wildcards

A pattern with wildcards becomes an expression in which a dot stands for one character, but a
dot accepts no line feed.  So a predicate finds the texts that the pattern generates only where
the wildcards need not stand for line feeds: the part that is found has exactly as many of them
as the pattern itself.
-/

open Sigil.Core Library Expressions

/-! ## What a pattern generates -/

def IsAscii (text : List Char) : Prop :=
  ∀ c ∈ text, c.toNat < 128

instance (text : List Char) : Decidable (IsAscii text) :=
  inferInstanceAs (Decidable (∀ c ∈ text, c.toNat < 128))

/-- A star generates any characters, a question mark any one character, and another character
itself, in either case. -/
inductive Generates : List Char → List Char → Prop where
  | nil : Generates [] []
  | starSkip {pattern word : List Char} : Generates pattern word → Generates ('*' :: pattern) word
  | starTake {pattern word : List Char} (d : Char) :
      Generates ('*' :: pattern) word → Generates ('*' :: pattern) (d :: word)
  | one {pattern word : List Char} (d : Char) :
      Generates pattern word → Generates ('?' :: pattern) (d :: word)
  | char {c d : Char} {pattern word : List Char} :
      c ≠ '*' → c ≠ '?' → c.toLower = d.toLower →
      Generates pattern word → Generates (c :: pattern) (d :: word)

/-- The part of a candidate that a modifier compares. -/
def BaseMatch.Part (base : BaseMatch) (part candidate : List Char) : Prop :=
  match base with
  | .equals => part = candidate
  | .contains => part <:+: candidate
  | .startsWith => part <+: candidate
  | .endsWith => part <:+ candidate
  | .regex => False

/-- The pattern generates such a part of the candidate. -/
def Globs (base : BaseMatch) (pattern candidate : String) : Prop :=
  ∃ part, base.Part part candidate.toList ∧ Generates pattern.toList part

/-- It generates one with exactly as many line feeds as the pattern has. -/
def GlobsInLine (base : BaseMatch) (pattern candidate : String) : Prop :=
  ∃ part, base.Part part candidate.toList ∧ Generates pattern.toList part ∧
    part.count '\n' = pattern.toList.count '\n'

/-! ## What the expression matches -/

/-- What a symbol accepts when case is ignored. -/
def accepts : Symbol → Char → Bool
  | .any, d => d ≠ '\n'
  | .char c, d => c.toLower = d.toLower

/-- The piece for a character of a pattern. -/
def globPiece (c : Char) : Piece Symbol :=
  if c = '*' then ⟨.any, true⟩ else if c = '?' then ⟨.any, false⟩ else ⟨.char c, false⟩

theorem globPiece_star : globPiece '*' = ⟨.any, true⟩ := by
  simp [globPiece]

theorem globPiece_one : globPiece '?' = ⟨.any, false⟩ := by
  simp [globPiece]

theorem globPiece_char {c : Char} (noStar : c ≠ '*') (noOne : c ≠ '?') :
    globPiece c = ⟨.char c, false⟩ := by
  simp [globPiece, noStar, noOne]

theorem globPiece_repeated {c : Char} {symbol : Symbol} (piece : globPiece c = ⟨symbol, true⟩) :
    c = '*' ∧ symbol = .any := by
  unfold globPiece at piece
  split at piece
  · next isStar =>
      cases piece
      exact ⟨isStar, rfl⟩
  · split at piece
    · cases piece
    · cases piece

theorem globPiece_once {c : Char} {symbol : Symbol} (piece : globPiece c = ⟨symbol, false⟩) :
    c = '?' ∧ symbol = .any ∨ c ≠ '*' ∧ c ≠ '?' ∧ symbol = .char c := by
  unfold globPiece at piece
  split at piece
  · cases piece
  · next noStar =>
      split at piece
      · next isOne =>
          cases piece
          exact Or.inl ⟨isOne, rfl⟩
      · next noOne =>
          cases piece
          exact Or.inr ⟨noStar, noOne, rfl⟩

theorem globPiece_symbol {c d : Char} (isChar : (globPiece c).symbol = .char d) : c = d := by
  unfold globPiece at isChar
  split at isChar
  · cases isChar
  · split at isChar
    · cases isChar
    · exact Symbol.char.inj isChar

/-- Only a line feed is lowered to one. -/
theorem toLower_eq_newline {c : Char} : c.toLower = '\n' ↔ c = '\n' := by
  constructor
  · intro lower
    rcases toLower_cases c with same | ⟨low, _⟩
    · exact same.symm.trans lower
    · rw [lower] at low
      exact absurd low (by decide)
  · intro same
    rw [same]
    decide

theorem newline_congr {c d : Char} (same : c.toLower = d.toLower) : c = '\n' ↔ d = '\n' := by
  rw [← toLower_eq_newline, same, toLower_eq_newline]

theorem Generates.count_le {pattern word : List Char} (generates : Generates pattern word) :
    pattern.count '\n' ≤ word.count '\n' := by
  induction generates with
  | nil => simp
  | starSkip _ inductionHypothesis => simpa using inductionHypothesis
  | starTake d _ inductionHypothesis =>
      exact inductionHypothesis.trans (List.count_le_count_cons)
  | one d _ inductionHypothesis =>
      rw [List.count_cons_of_ne (by decide)]
      exact inductionHypothesis.trans List.count_le_count_cons
  | char _ _ same _ inductionHypothesis =>
      simp only [List.count_cons, beq_iff_eq, newline_congr same]
      omega

theorem generates_of_matches {pattern word : List Char}
    (matched : Matches accepts (pattern.map globPiece) word) :
    Generates pattern word ∧ word.count '\n' = pattern.count '\n' := by
  generalize shape : pattern.map globPiece = pieces at matched
  induction matched generalizing pattern with
  | nil =>
      rw [List.map_eq_nil_iff.mp shape]
      exact ⟨.nil, by simp⟩
  | @once symbol d pieces word accepted _ inductionHypothesis =>
      rcases List.map_eq_cons_iff.mp shape with ⟨c, rest, rfl, isPiece, isRest⟩
      rcases inductionHypothesis isRest with ⟨generates, count⟩
      rcases globPiece_once isPiece with ⟨rfl, rfl⟩ | ⟨noStar, noOne, rfl⟩
      · have other : d ≠ '\n' := by simpa [accepts] using accepted
        refine ⟨.one d generates, ?_⟩
        rw [List.count_cons_of_ne other, List.count_cons_of_ne (by decide), count]
      · have same : c.toLower = d.toLower := by simpa [accepts] using accepted
        refine ⟨.char noStar noOne same generates, ?_⟩
        simp only [List.count_cons, beq_iff_eq, newline_congr same, count]
  | skip _ inductionHypothesis =>
      rcases List.map_eq_cons_iff.mp shape with ⟨c, rest, rfl, isPiece, isRest⟩
      rcases globPiece_repeated isPiece with ⟨rfl, rfl⟩
      rcases inductionHypothesis isRest with ⟨generates, count⟩
      exact ⟨.starSkip generates, by simpa using count⟩
  | @again symbol d pieces word accepted _ inductionHypothesis =>
      rcases inductionHypothesis shape with ⟨generates, count⟩
      rcases List.map_eq_cons_iff.mp shape with ⟨c, rest, rfl, isPiece, -⟩
      rcases globPiece_repeated isPiece with ⟨rfl, rfl⟩
      have other : d ≠ '\n' := by simpa [accepts] using accepted
      exact ⟨.starTake d generates, by rw [List.count_cons_of_ne other, count]⟩

theorem matches_of_generates {pattern word : List Char} (generates : Generates pattern word)
    (count : word.count '\n' = pattern.count '\n') :
    Matches accepts (pattern.map globPiece) word := by
  induction generates with
  | nil => exact .nil
  | starSkip _ inductionHypothesis =>
      rw [List.map_cons, globPiece_star]
      exact .skip (inductionHypothesis (by simpa using count))
  | @starTake pattern word d generates inductionHypothesis =>
      rw [List.map_cons, globPiece_star] at inductionHypothesis ⊢
      have least := generates.count_le
      rw [List.count_cons] at count
      split at count
      · omega
      · next other => exact .again (by simpa [accepts] using other) (inductionHypothesis count)
  | one d generates inductionHypothesis =>
      rw [List.map_cons, globPiece_one]
      have least := generates.count_le
      rw [List.count_cons, List.count_cons_of_ne (by decide)] at count
      split at count
      · omega
      · next other => exact .once (by simpa [accepts] using other) (inductionHypothesis count)
  | char noStar noOne same _ inductionHypothesis =>
      rw [List.map_cons, globPiece_char noStar noOne]
      refine .once (by simpa [accepts] using same) (inductionHypothesis ?_)
      simp only [List.count_cons, beq_iff_eq, newline_congr same] at count
      omega

/-- The wildcards of the expression accept everything but line feeds. -/
theorem matches_iff_generates {pattern word : List Char} :
    Matches accepts (pattern.map globPiece) word ↔
      Generates pattern word ∧ word.count '\n' = pattern.count '\n' :=
  ⟨generates_of_matches, fun both => matches_of_generates both.1 both.2⟩

/-! ## The libraries -/

/-- The documented behaviour of the libraries on ASCII text: lower case, and expressions of
symbols under the flag that ignores case. -/
structure Documented (lib : Libraries) : Prop where
  lower : ∀ c : Char, c.toNat < 128 → lib.cases.lower c = [c.toLower]
  isMatch : ∀ (e : Expression Symbol) (re : lib.Regex),
    (∀ piece ∈ e.pieces, ∀ c, piece.symbol = .char c → c.toNat < 128) →
    lib.newRegex ("(?i)" ++
      String.ofList (e.text fun c => (lib.escapeRegex (String.singleton c)).toList)) = .ok re →
    ∀ candidate : String, IsAscii candidate.toList →
      (lib.isMatch re candidate = true ↔ e.Found accepts candidate.toList)

section

variable {lib : Libraries}

/-- The expression that a pattern is translated to. -/
def globExpression (pattern : String) (anchorStart anchorEnd : Bool) : Expression Symbol :=
  ⟨anchorStart, pattern.toList.map globPiece, anchorEnd⟩

theorem wildcardRegex_eq (lib : Libraries) (pattern : String) (anchorStart anchorEnd : Bool) :
    wildcardRegex lib pattern anchorStart anchorEnd =
      (lib.newRegex ("(?i)" ++ String.ofList ((globExpression pattern anchorStart anchorEnd).text
        fun c => (lib.escapeRegex (String.singleton c)).toList))).mapError
          (.badWildcard pattern) := by
  have body : ∀ chars : List Char,
      (String.join (chars.map fun c => if c = '*' then ".*" else if c = '?' then "."
        else lib.escapeRegex (String.singleton c))).toList =
      (chars.map globPiece).flatMap
        (Piece.text fun c => (lib.escapeRegex (String.singleton c)).toList) := by
    intro chars
    induction chars with
    | nil => simp
    | cons c chars inductionHypothesis =>
        rw [List.map_cons, List.map_cons, List.flatMap_cons, ← inductionHypothesis, globPiece]
        by_cases isStar : c = '*'
        · simp [isStar, Piece.text, Symbol.text]
        · by_cases isOne : c = '?'
          · simp [isOne, Piece.text, Symbol.text]
          · simp [isStar, isOne, Piece.text, Symbol.text]
  have whole : ∀ text text' : String, text.toList = text'.toList →
      lib.newRegex text = lib.newRegex text' := by
    intro text text' same
    rw [String.toList_injective same]
  rw [wildcardRegex]
  congr 1
  apply whole
  simp only [String.toList_append, body, String.toList_ofList, Expression.text, globExpression]
  cases anchorStart <;> cases anchorEnd <;> simp

/-- A pattern with a star or a question mark. -/
def HasWildcard (pattern : String) : Prop :=
  '*' ∈ pattern.toList ∨ '?' ∈ pattern.toList

/-- The ends at which a modifier anchors the expression. -/
def BaseMatch.anchors : BaseMatch → Bool × Bool
  | .equals => (true, true)
  | .contains => (false, false)
  | .startsWith => (true, false)
  | .endsWith => (false, true)
  | .regex => (false, false)

theorem part_iff {base : BaseMatch} (plain : base ≠ .regex) (part candidate : List Char) :
    base.Part part candidate ↔ ∃ before after, candidate = before ++ part ++ after ∧
      (base.anchors.1 = true → before = []) ∧ (base.anchors.2 = true → after = []) := by
  cases base with
  | equals => simp [BaseMatch.Part, BaseMatch.anchors, eq_comm]
  | contains => simp [BaseMatch.Part, BaseMatch.anchors, List.IsInfix, eq_comm]
  | startsWith => simp [BaseMatch.Part, BaseMatch.anchors, List.IsPrefix, eq_comm]
  | endsWith => simp [BaseMatch.Part, BaseMatch.anchors, List.IsSuffix, eq_comm]
  | regex => exact absurd rfl plain

theorem build_wildcard {mods : Modifiers} (plain : mods.base ≠ .regex) {pattern : String}
    (wild : HasWildcard pattern) :
    StringPredicate.build (some pattern) mods =
      (wildcardRegex lib pattern mods.base.anchors.1 mods.base.anchors.2).map .regex := by
  rw [HasWildcard] at wild
  cases base : mods.base with
  | regex => exact absurd base plain
  | _ => simp [StringPredicate.build, base, wild, BaseMatch.anchors]

/-- A predicate with wildcards finds what the pattern generates without line feeds for its
wildcards. -/
theorem matches_wildcard (documented : Documented lib) {mods : Modifiers}
    (plain : mods.base ≠ .regex) {pattern candidate : String} (wild : HasWildcard pattern)
    (asciiPattern : IsAscii pattern.toList) (asciiCandidate : IsAscii candidate.toList)
    {predicate : StringPredicate lib}
    (built : StringPredicate.build (some pattern) mods = .ok predicate) :
    predicate.matches candidate = true ↔ GlobsInLine mods.base pattern candidate := by
  rw [build_wildcard plain wild, wildcardRegex_eq] at built
  cases compiled : lib.newRegex ("(?i)" ++ String.ofList ((globExpression pattern
      mods.base.anchors.1 mods.base.anchors.2).text fun c =>
        (lib.escapeRegex (String.singleton c)).toList)) with
  | error reason => simp [compiled, Except.mapError, Except.map] at built
  | ok re =>
      simp only [compiled, Except.mapError, Except.map, Except.ok.injEq] at built
      have symbols : ∀ piece ∈ (globExpression pattern mods.base.anchors.1
          mods.base.anchors.2).pieces, ∀ c, piece.symbol = .char c → c.toNat < 128 := by
        intro piece member c isChar
        rcases List.mem_map.mp member with ⟨d, inPattern, rfl⟩
        rw [← globPiece_symbol isChar]
        exact asciiPattern d inPattern
      rw [← built, StringPredicate.matches,
        documented.isMatch _ re symbols compiled candidate asciiCandidate, GlobsInLine]
      simp only [Expression.Found, globExpression, matches_iff_generates, part_iff plain]
      constructor
      · intro found
        rcases found with ⟨before, word, after, whole, start, stop, generates, count⟩
        exact ⟨word, ⟨before, after, whole, start, stop⟩, generates, count⟩
      · intro found
        rcases found with ⟨word, ⟨before, after, whole, start, stop⟩, generates, count⟩
        exact ⟨before, word, after, whole, start, stop, generates, count⟩

/-! ## Plain values -/

theorem lowerAfter_ascii (documented : Documented lib) {text : List Char} (ascii : IsAscii text)
    (before : List Char) : lib.cases.lowerAfter before text = text.map Char.toLower := by
  induction text generalizing before with
  | nil => simp [CaseTables.lowerAfter]
  | cons c text inductionHypothesis =>
      rcases List.forall_mem_cons.mp ascii with ⟨here, later⟩
      have noSigma : c ≠ 'Σ' := by
        intro same
        rw [same] at here
        exact absurd here (by decide)
      rw [CaseTables.lowerAfter, if_neg noSigma, documented.lower c here,
        inductionHypothesis later, List.map_cons, List.singleton_append]

theorem toLowercase_ascii (documented : Documented lib) {s : String} (ascii : IsAscii s.toList) :
    (lib.cases.toLowercase s).toList = s.toList.map Char.toLower := by
  rw [CaseTables.toLowercase, String.toList_ofList, lowerAfter_ascii documented ascii]

/-- Without wildcards a pattern generates itself, in either case. -/
theorem generates_plain {pattern : List Char} (plain : ∀ c ∈ pattern, c ≠ '*' ∧ c ≠ '?')
    (word : List Char) :
    Generates pattern word ↔ pattern.map Char.toLower = word.map Char.toLower := by
  induction pattern generalizing word with
  | nil =>
      constructor
      · intro generates
        cases generates
        rfl
      · intro same
        rw [List.map_nil, eq_comm, List.map_eq_nil_iff] at same
        rw [same]
        exact .nil
  | cons c pattern inductionHypothesis =>
      rcases List.forall_mem_cons.mp plain with ⟨⟨noStar, noOne⟩, later⟩
      constructor
      · intro generates
        cases generates with
        | starSkip => exact absurd rfl noStar
        | starTake => exact absurd rfl noStar
        | one => exact absurd rfl noOne
        | char _ _ same rest =>
            rw [List.map_cons, List.map_cons, same, (inductionHypothesis later _).mp rest]
      · intro same
        cases word with
        | nil => simp at same
        | cons d word =>
            rw [List.map_cons, List.map_cons, List.cons.injEq] at same
            exact .char noStar noOne same.1 ((inductionHypothesis later word).mpr same.2)

/-- A part of the lowered candidate is lowered from a part of the candidate. -/
theorem part_map {base : BaseMatch} (plain : base ≠ .regex) (f : Char → Char)
    (part candidate : List Char) :
    base.Part part (candidate.map f) ↔ ∃ own, base.Part own candidate ∧ part = own.map f := by
  simp only [part_iff plain]
  constructor
  · intro found
    rcases found with ⟨before, after, whole, start, stop⟩
    rcases List.map_eq_append_iff.mp whole with ⟨front, back, rfl, isFront, isBack⟩
    rcases List.map_eq_append_iff.mp isFront with ⟨first, own, rfl, isFirst, isOwn⟩
    refine ⟨own, ⟨first, back, rfl, fun anchored => ?_, fun anchored => ?_⟩, isOwn.symm⟩
    · rw [start anchored] at isFirst
      exact List.map_eq_nil_iff.mp isFirst
    · rw [stop anchored] at isBack
      exact List.map_eq_nil_iff.mp isBack
  · intro found
    rcases found with ⟨own, ⟨before, after, rfl, start, stop⟩, rfl⟩
    refine ⟨before.map f, after.map f, by simp, fun anchored => ?_, fun anchored => ?_⟩
    · rw [start anchored, List.map_nil]
    · rw [stop anchored, List.map_nil]

theorem count_of_lower {pattern word : List Char}
    (same : pattern.map Char.toLower = word.map Char.toLower) :
    word.count '\n' = pattern.count '\n' := by
  induction pattern generalizing word with
  | nil =>
      rw [List.map_nil, eq_comm, List.map_eq_nil_iff] at same
      rw [same]
  | cons c pattern inductionHypothesis =>
      cases word with
      | nil => simp at same
      | cons d word =>
          rw [List.map_cons, List.map_cons, List.cons.injEq] at same
          simp only [List.count_cons, beq_iff_eq, newline_congr same.1, inductionHypothesis same.2]

/-- A predicate without wildcards finds the value itself, in either case. -/
theorem matches_plain (documented : Documented lib) {mods : Modifiers}
    (plain : mods.base ≠ .regex) {value candidate : String} (tame : ¬ HasWildcard value)
    (asciiValue : IsAscii value.toList) (asciiCandidate : IsAscii candidate.toList)
    {predicate : StringPredicate lib}
    (built : StringPredicate.build (some value) mods = .ok predicate) :
    predicate.matches candidate = true ↔ GlobsInLine mods.base value candidate := by
  have compares : predicate.matches candidate = true ↔
      mods.base.Part (lib.cases.toLowercase value).toList
          (lib.cases.toLowercase candidate).toList := by
    rw [HasWildcard] at tame
    cases base : mods.base with
    | regex => exact absurd base plain
    | equals =>
        simp only [StringPredicate.build, base, tame, if_false, Except.ok.injEq] at built
        rw [← built, StringPredicate.matches, decide_eq_true_eq,
          BaseMatch.Part, String.toList_inj, eq_comm]
    | _ =>
        simp only [StringPredicate.build, base, tame, if_false, Except.ok.injEq] at built
        rw [← built, StringPredicate.matches, decide_eq_true_eq, BaseMatch.Part]
  have generates : ∀ part, Generates value.toList part ↔
      value.toList.map Char.toLower = part.map Char.toLower := by
    apply generates_plain
    intro c member
    constructor
    · intro same
      exact tame (Or.inl (same ▸ member))
    · intro same
      exact tame (Or.inr (same ▸ member))
  rw [compares, toLowercase_ascii documented asciiValue,
    toLowercase_ascii documented asciiCandidate, part_map plain]
  simp only [GlobsInLine, generates]
  constructor
  · intro found
    rcases found with ⟨part, isPart, same⟩
    exact ⟨part, isPart, same, count_of_lower same⟩
  · intro found
    rcases found with ⟨part, isPart, same, -⟩
    exact ⟨part, isPart, same⟩

/-- What the predicate of a value finds. -/
theorem matches_iff_globsInLine (documented : Documented lib) {mods : Modifiers}
    (plain : mods.base ≠ .regex) {value candidate : String} (asciiValue : IsAscii value.toList)
    (asciiCandidate : IsAscii candidate.toList) {predicate : StringPredicate lib}
    (built : StringPredicate.build (some value) mods = .ok predicate) :
    predicate.matches candidate = true ↔ GlobsInLine mods.base value candidate := by
  by_cases wild : HasWildcard value
  · exact matches_wildcard documented plain wild asciiValue asciiCandidate built
  · exact matches_plain documented plain wild asciiValue asciiCandidate built

/-! ## Stars in the place of a modifier -/

/-- A value with stars where the modifier leaves the candidate open. -/
def starred (base : BaseMatch) (value : String) : String :=
  match base with
  | .contains => "*" ++ value ++ "*"
  | .startsWith => value ++ "*"
  | .endsWith => "*" ++ value
  | _ => value

theorem generates_star {pattern word : List Char} :
    Generates ('*' :: pattern) word ↔
      ∃ before rest, word = before ++ rest ∧ Generates pattern rest := by
  constructor
  · intro generates
    generalize shape : '*' :: pattern = whole at generates
    induction generates with
    | nil => cases shape
    | @starSkip _ word generates _ =>
        cases shape
        exact ⟨[], word, rfl, generates⟩
    | starTake d _ inductionHypothesis =>
        rcases inductionHypothesis shape with ⟨before, rest, rfl, generates⟩
        exact ⟨d :: before, rest, rfl, generates⟩
    | one => cases shape
    | char noStar _ _ _ _ =>
        cases shape
        exact absurd rfl noStar
  · intro parts
    rcases parts with ⟨before, rest, rfl, generates⟩
    induction before with
    | nil => exact .starSkip generates
    | cons d before inductionHypothesis => exact .starTake d inductionHypothesis

theorem Generates.append {pattern pattern' word word' : List Char} (first : Generates pattern word)
    (second : Generates pattern' word') : Generates (pattern ++ pattern') (word ++ word') := by
  induction first with
  | nil => exact second
  | starSkip _ inductionHypothesis => exact .starSkip inductionHypothesis
  | starTake d _ inductionHypothesis => exact .starTake d inductionHypothesis
  | one d _ inductionHypothesis => exact .one d inductionHypothesis
  | char noStar noOne same _ inductionHypothesis =>
      exact .char noStar noOne same inductionHypothesis

/-- A star at the end generates any rest. -/
theorem generates_append_star {pattern word : List Char} :
    Generates (pattern ++ ['*']) word ↔
      ∃ own after, word = own ++ after ∧ Generates pattern own := by
  constructor
  · intro generates
    induction pattern generalizing word with
    | nil => exact ⟨[], word, rfl, .nil⟩
    | cons c pattern inductionHypothesis =>
        rw [List.cons_append] at generates
        by_cases isStar : c = '*'
        · rw [isStar, generates_star] at generates
          rcases generates with ⟨before, rest, rfl, inside⟩
          rcases inductionHypothesis inside with ⟨own, after, rfl, itself⟩
          refine ⟨before ++ own, after, by simp, ?_⟩
          rw [isStar, generates_star]
          exact ⟨before, own, rfl, itself⟩
        · cases generates with
          | starSkip => exact absurd rfl isStar
          | starTake => exact absurd rfl isStar
          | one d inside =>
              rcases inductionHypothesis inside with ⟨own, after, rfl, itself⟩
              exact ⟨d :: own, after, rfl, .one d itself⟩
          | @char _ d _ _ noStar noOne same inside =>
              rcases inductionHypothesis inside with ⟨own, after, rfl, itself⟩
              exact ⟨d :: own, after, rfl, .char noStar noOne same itself⟩
  · intro parts
    rcases parts with ⟨own, after, rfl, generates⟩
    apply generates.append
    rw [generates_star]
    exact ⟨after, [], by simp, .nil⟩

/-- The modifiers that stars can stand for. -/
def BaseMatch.Open (base : BaseMatch) : Prop :=
  base = .contains ∨ base = .startsWith ∨ base = .endsWith

theorem BaseMatch.Open.plain {base : BaseMatch} (isOpen : base.Open) : base ≠ .regex := by
  rcases isOpen with rfl | rfl | rfl <;> simp

theorem starred_ascii {base : BaseMatch} {value : String} (ascii : IsAscii value.toList) :
    IsAscii (starred base value).toList := by
  intro c member
  have cases_ : c = '*' ∨ c ∈ value.toList := by
    cases base <;> simp [starred] at member <;> tauto
  rcases cases_ with rfl | inValue
  · decide
  · exact ascii c inValue

theorem starred_count (base : BaseMatch) (value : String) :
    (starred base value).toList.count '\n' = value.toList.count '\n' := by
  cases base <;> simp [starred]

/-- The value with stars generates the candidates of which the value generates a part. -/
theorem globs_starred {base : BaseMatch} (isOpen : base.Open) (value candidate : String) :
    Globs .equals (starred base value) candidate ↔ Globs base value candidate := by
  have whole : Globs .equals (starred base value) candidate ↔
      Generates (starred base value).toList candidate.toList := by
    simp [Globs, BaseMatch.Part]
  rw [whole, Globs]
  simp only [part_iff isOpen.plain]
  rcases isOpen with rfl | rfl | rfl
  · have shape : (starred .contains value).toList = '*' :: (value.toList ++ ['*']) := by
      simp [starred]
    simp only [shape, generates_star, generates_append_star, BaseMatch.anchors]
    constructor
    · intro found
      rcases found with ⟨before, _, same, own, after, rfl, generates⟩
      exact ⟨own, ⟨before, after, by simp [same], by simp, by simp⟩, generates⟩
    · intro found
      rcases found with ⟨own, ⟨before, after, same, -, -⟩, generates⟩
      exact ⟨before, own ++ after, by simp [same], own, after, rfl, generates⟩
  · have shape : (starred .startsWith value).toList = value.toList ++ ['*'] := by
      simp [starred]
    simp only [shape, generates_append_star, BaseMatch.anchors]
    constructor
    · intro found
      rcases found with ⟨own, after, same, generates⟩
      exact ⟨own, ⟨[], after, same, by simp, by simp⟩, generates⟩
    · intro found
      rcases found with ⟨own, ⟨before, after, same, start, -⟩, generates⟩
      exact ⟨own, after, by simp [same, start trivial], generates⟩
  · have shape : (starred .endsWith value).toList = '*' :: value.toList := by
      simp [starred]
    simp only [shape, generates_star, BaseMatch.anchors]
    constructor
    · intro found
      rcases found with ⟨before, own, same, generates⟩
      exact ⟨own, ⟨before, [], by simp [same], by simp, by simp⟩, generates⟩
    · intro found
      rcases found with ⟨own, ⟨before, after, same, -, stop⟩, generates⟩
      exact ⟨before, own, by simp [same, stop trivial], generates⟩

theorem globsInLine_equals (pattern candidate : String) :
    GlobsInLine .equals pattern candidate ↔ Globs .equals pattern candidate ∧
      candidate.toList.count '\n' = pattern.toList.count '\n' := by
  simp [GlobsInLine, Globs, BaseMatch.Part]

theorem globsInLine_globs {base : BaseMatch} {pattern candidate : String}
    (found : GlobsInLine base pattern candidate) : Globs base pattern candidate := by
  rcases found with ⟨part, isPart, generates, -⟩
  exact ⟨part, isPart, generates⟩

/-- A candidate with no more line feeds than the pattern has none for the wildcards. -/
theorem globsInLine_of_count {base : BaseMatch} (plain : base ≠ .regex)
    {pattern candidate : String} (found : Globs base pattern candidate)
    (count : candidate.toList.count '\n' = pattern.toList.count '\n') :
    GlobsInLine base pattern candidate := by
  rcases found with ⟨part, isPart, generates⟩
  refine ⟨part, isPart, generates, ?_⟩
  have least := generates.count_le
  rcases (part_iff plain _ _).mp isPart with ⟨before, after, whole, -, -⟩
  rw [whole, List.count_append, List.count_append] at count
  omega

/-- A predicate finds what its pattern generates where some such part has no line feeds for the
wildcards, and stars stand for a modifier where the candidate has no other line feeds than the
value that is found in it. -/
theorem wildcards_iff (documented : Documented lib) {candidate : String}
    (asciiCandidate : IsAscii candidate.toList) :
    (∀ (mods : Modifiers) (pattern : String) (predicate : StringPredicate lib),
      mods.base ≠ .regex → IsAscii pattern.toList →
      StringPredicate.build (some pattern) mods = .ok predicate →
      ((predicate.matches candidate = true ↔ Globs mods.base pattern candidate) ↔
        (Globs mods.base pattern candidate → GlobsInLine mods.base pattern candidate))) ∧
    ∀ (mods mods' : Modifiers) (value : String) (stars plain : StringPredicate lib),
      mods.base = .equals → mods'.base.Open → IsAscii value.toList →
      StringPredicate.build (some (starred mods'.base value)) mods = .ok stars →
      StringPredicate.build (some value) mods' = .ok plain →
      (stars.matches candidate = plain.matches candidate ↔
        (GlobsInLine mods'.base value candidate →
          candidate.toList.count '\n' = value.toList.count '\n')) := by
  constructor
  · intro mods pattern predicate plain ascii built
    rw [matches_iff_globsInLine documented plain ascii asciiCandidate built]
    constructor
    · intro same
      exact same.mpr
    · intro inLine
      exact ⟨globsInLine_globs, inLine⟩
  · intro mods mods' value stars plain isEquals isOpen ascii builtStars builtPlain
    rw [Bool.eq_iff_iff,
      matches_iff_globsInLine documented (by simp [isEquals]) (starred_ascii ascii) asciiCandidate
        builtStars,
      matches_iff_globsInLine documented isOpen.plain ascii asciiCandidate builtPlain, isEquals,
      globsInLine_equals, globs_starred isOpen, starred_count]
    constructor
    · intro same found
      exact (same.mpr found).2
    · intro inLine
      constructor
      · intro both
        exact globsInLine_of_count isOpen.plain both.1 both.2
      · intro found
        exact ⟨globsInLine_globs found, inLine found⟩

end

/-! ### Libraries that read these expressions -/

/-- Libraries whose expressions are those of symbols, under the flag that ignores case. -/
def globLibraries : Libraries where
  cases := asciiLibraries.cases
  Regex := Expression Symbol
  newRegex := fun text =>
    ((stripPrefix "(?i)" text).bind fun body => read body.toList).elim (.error "no expression") .ok
  escapeRegex := fun text => String.ofList (text.toList.flatMap escape)
  isMatch := fun e candidate => e.found accepts candidate.toList
  yamlText := fun _ => none

theorem newRegex_text (e : Expression Symbol) :
    globLibraries.newRegex ("(?i)" ++ String.ofList (e.text fun c =>
      (globLibraries.escapeRegex (String.singleton c)).toList)) = .ok e := by
  have same : (fun c => (globLibraries.escapeRegex (String.singleton c)).toList) = escape := by
    funext c
    simp [globLibraries]
  rw [same]
  simp only [globLibraries, stripPrefix_append, Option.bind_some, String.toList_ofList, read_text,
    Option.elim_some]

theorem documented_globLibraries : Documented globLibraries where
  lower := by
    intro c ascii
    have noSigma : c ≠ 'Σ' := by
      intro same
      rw [same] at ascii
      exact absurd ascii (by decide)
    simp [globLibraries, asciiLibraries, noSigma]
  isMatch := by
    intro e re _ compiled candidate _
    rw [newRegex_text] at compiled
    cases compiled
    exact e.found_iff candidate.toList

theorem exists_build {mods : Modifiers} (plain : mods.base ≠ .regex) {pattern : String}
    (wild : HasWildcard pattern) :
    ∃ predicate : StringPredicate globLibraries,
      StringPredicate.build (some pattern) mods = .ok predicate := by
  rw [build_wildcard plain wild, wildcardRegex_eq, newRegex_text]
  exact ⟨_, rfl⟩

theorem wildcards_iff_command :
    ∃ predicate : StringPredicate globLibraries,
      StringPredicate.build (some "*cmd*") ⟨.equals, false⟩ = .ok predicate ∧
      ((predicate.matches "run CMD" = true ↔ Globs .equals "*cmd*" "run CMD") ↔
        (Globs .equals "*cmd*" "run CMD" → GlobsInLine .equals "*cmd*" "run CMD")) := by
  rcases @exists_build ⟨.equals, false⟩ (by simp) "*cmd*" (by simp [HasWildcard]) with
    ⟨predicate, built⟩
  have ascii : IsAscii "run CMD".toList := by decide
  refine ⟨predicate, built, ?_⟩
  exact (wildcards_iff documented_globLibraries ascii).1 ⟨.equals, false⟩ "*cmd*" predicate
    (by simp) (by decide) built

/-- A line feed between the two letters hides them. -/
theorem not_wildcards : ¬ ∀ lib : Libraries, Documented lib →
    ∀ (pattern candidate : String) (predicate : StringPredicate lib),
      HasWildcard pattern → IsAscii pattern.toList → IsAscii candidate.toList →
      StringPredicate.build (some pattern) ⟨.equals, false⟩ = .ok predicate →
      (predicate.matches candidate = true ↔ Globs .equals pattern candidate) := by
  intro law
  have wild : HasWildcard "a*b" := by simp [HasWildcard]
  rcases @exists_build ⟨.equals, false⟩ (by simp) "a*b" wild with ⟨predicate, built⟩
  have asciiPattern : IsAscii "a*b".toList := by decide
  have asciiCandidate : IsAscii "a\nb".toList := by decide
  have generated : Globs .equals "a*b" "a\nb" := by
    refine ⟨"a\nb".toList, rfl, ?_⟩
    exact .char (by decide) (by decide) rfl (.starTake '\n' (.starSkip
      (.char (by decide) (by decide) rfl .nil)))
  have found := (law globLibraries documented_globLibraries "a*b" "a\nb" predicate wild asciiPattern
    asciiCandidate built).mpr generated
  rw [matches_iff_globsInLine documented_globLibraries (by simp) asciiPattern asciiCandidate built,
    globsInLine_equals] at found
  exact absurd found.2 (by decide)

end Sigma
end Sigil
