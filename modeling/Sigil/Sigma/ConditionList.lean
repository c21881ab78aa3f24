import Sigil.Library.Brackets
import Sigil.Sigma.ConditionText
import Sigil.Sigma.Denotation

namespace Sigil
namespace Sigma

/-!
# Lists of conditions

The elements of a list of conditions are put in parentheses, joined with `or` and parsed as
one condition.  When the parentheses of every element are balanced the parser cannot take
the elements apart differently, so the list is the disjunction of its elements.  Elements
that are not strings are left out.
-/

open Sigil.Core Library

/-! ## Parentheses in the grammar -/

def Tok.turn : Tok → Brackets.Turn
  | .lparen => .opens
  | .rparen => .closes
  | _ => .stays

/-- Tokens in parentheses. -/
def wrapped (toks : List Tok) : List Tok :=
  .lparen :: toks ++ [.rparen]

theorem Derives.balanced {level : Level} {toks : List Tok} {e : Expr}
    (derives : Derives level toks e) : Brackets.Balanced Tok.turn toks := by
  have operator : ∀ {left right : List Tok} (tok : Tok), tok.turn = .stays →
      Brackets.Balanced Tok.turn left → Brackets.Balanced Tok.turn right →
      Brackets.Balanced Tok.turn (left ++ tok :: right) := by
    intro left right tok stays isLeft isRight
    apply isLeft.append
    simpa [Brackets.Balanced, Brackets.nesting, stays] using isRight
  induction derives with
  | or _ _ left right => exact operator .or rfl left right
  | orOfAnd _ inductionHypothesis => exact inductionHypothesis
  | and _ _ left right => exact operator .and rfl left right
  | andOfNot _ inductionHypothesis => exact inductionHypothesis
  | not _ inductionHypothesis =>
      simpa [Brackets.Balanced, Brackets.nesting, Tok.turn] using inductionHypothesis
  | notOfPrimary _ inductionHypothesis => exact inductionHypothesis
  | ref name => simp [Brackets.Balanced, Brackets.nesting, Tok.turn]
  | paren _ inductionHypothesis => exact inductionHypothesis.wrap rfl rfl
  | all target => cases target <;> simp [Brackets.Balanced, Brackets.nesting, Tok.turn, Target.tok]
  | atLeast n target =>
      cases target <;> simp [Brackets.Balanced, Brackets.nesting, Tok.turn, Target.tok]

/-- Below the level `or` every `or` stands in parentheses. -/
theorem Derives.guarded {level : Level} {toks : List Tok} {e : Expr}
    (derives : Derives level toks e) (below : level ≠ .or) :
    Brackets.Guarded Tok.turn .or toks := by
  induction derives with
  | or => exact absurd rfl below
  | orOfAnd => exact absurd rfl below
  | and left _ inLeft inRight =>
      exact (inLeft (by decide)).append (inRight (by decide)) left.balanced (by decide) rfl
  | andOfNot _ inductionHypothesis => exact inductionHypothesis (by decide)
  | @not toks _ _ inductionHypothesis =>
      have none : Brackets.Guarded Tok.turn .or [] := Brackets.guarded_of_not_mem (by simp)
      exact none.append (inductionHypothesis (by decide)) rfl (by decide) rfl
  | notOfPrimary _ inductionHypothesis => exact inductionHypothesis (by decide)
  | ref name => exact Brackets.guarded_of_not_mem (by simp)
  | paren derives _ => exact derives.balanced.guarded_wrap rfl (by decide)
  | all target =>
      apply Brackets.guarded_of_not_mem
      cases target <;> simp [Target.tok]
  | atLeast n target =>
      apply Brackets.guarded_of_not_mem
      cases target <;> simp [Target.tok]

/-! ## One element -/

/-- A conjunction does not reach over a closed parenthesis. -/
theorem derives_and_wrapped {toks : List Tok}
    (balanced : Brackets.Balanced Tok.turn toks) {e : Expr}
    (derives : Derives .and (wrapped toks) e) : Derives .or toks e := by
  generalize whole : wrapped toks = word at derives
  cases derives with
  | and left right =>
      exact absurd left.balanced
        (balanced.open_inside rfl whole left.nonempty (List.cons_ne_nil _ _))
  | andOfNot derives =>
      cases derives with
      | not => cases whole
      | notOfPrimary derives =>
          cases derives with
          | ref => cases whole
          | paren inside =>
              rw [wrapped, List.cons_append, List.cons_append, List.cons.injEq] at whole
              rw [(List.append_inj' whole.2 rfl).1]
              exact inside
          | all => cases whole
          | atLeast => cases whole

theorem derives_wrapped_iff {toks : List Tok}
    (balanced : Brackets.Balanced Tok.turn toks) {e : Expr} :
    Derives .or (wrapped toks) e ↔ Derives .or toks e := by
  constructor
  · intro derives
    generalize whole : wrapped toks = word at derives
    cases derives with
    | or left right =>
        exact absurd left.balanced
          (balanced.open_inside rfl whole left.nonempty (List.cons_ne_nil _ _))
    | orOfAnd derives =>
        rw [← whole] at derives
        exact derives_and_wrapped balanced derives
  · intro derives
    exact (Derives.paren derives).ofPrimary .or

/-- The last `or` outside the parentheses is the one in front of the last element. -/
theorem derives_or_wrapped_iff {front toks : List Tok}
    (balancedFront : Brackets.Balanced Tok.turn front)
    (balanced : Brackets.Balanced Tok.turn toks) {e : Expr} :
    Derives .or (front ++ .or :: wrapped toks) e ↔
      ∃ a b, e = .or a b ∧ Derives .or front a ∧ Derives .or toks b := by
  constructor
  · intro derives
    generalize whole : front ++ .or :: wrapped toks = word at derives
    cases derives with
    | or left right =>
        rcases Brackets.last_separator rfl balancedFront (balanced.guarded_wrap rfl (by decide))
          left.balanced (right.guarded (by decide)) whole with ⟨sameLeft, sameRight⟩
        rw [← sameLeft] at left
        rw [← sameRight] at right
        exact ⟨_, _, rfl, left, derives_and_wrapped balanced right⟩
    | orOfAnd derives =>
        rw [← whole] at derives
        exact absurd balancedFront (derives.guarded (by decide) front (wrapped toks) rfl)
  · intro parts
    rcases parts with ⟨a, b, rfl, left, right⟩
    exact .or left ((Derives.paren right).ofPrimary .and)

/-- A list of tokens has one derivation at most. -/
theorem Derives.unique {toks : List Tok} {a b : Expr} (first : Derives .or toks a)
    (second : Derives .or toks b) : a = b := by
  rcases parseTokens_correct toks with ⟨result, -, correct⟩
  have same := ((correct a).mpr first).symm.trans ((correct b).mpr second)
  cases same
  rfl

/-! ## The elements together -/

/-- The elements in parentheses, joined with `or`. -/
def joined (elements : List (List Tok)) : List Tok :=
  [Tok.or].intercalate (elements.map wrapped)

theorem intercalate_concat {α : Type} (sep : List α) {parts : List (List α)}
    (some_ : parts ≠ []) (last : List α) :
    sep.intercalate (parts ++ [last]) = sep.intercalate parts ++ sep ++ last := by
  induction parts with
  | nil => exact absurd rfl some_
  | cons part parts inductionHypothesis =>
      cases parts with
      | nil => simp
      | cons next parts =>
          have rest := inductionHypothesis (List.cons_ne_nil next parts)
          rw [List.cons_append] at rest
          simp [List.intercalate_cons_cons, rest]

theorem joined_concat (first : List Tok) (others : List (List Tok)) (last : List Tok) :
    joined (first :: (others ++ [last])) = joined (first :: others) ++ .or :: wrapped last := by
  rw [joined, List.map_cons, List.map_append, ← List.cons_append, List.map_singleton,
    intercalate_concat _ (List.cons_ne_nil _ _), joined, List.map_cons, List.append_assoc]
  rfl

theorem joined_singleton (only : List Tok) : joined [only] = wrapped only := by
  simp [joined]

theorem joined_balanced (first : List Tok) (others : List (List Tok))
    (balanced : ∀ word ∈ first :: others, Brackets.Balanced Tok.turn word) :
    Brackets.Balanced Tok.turn (joined (first :: others)) := by
  induction others using List.reverseRecOn with
  | nil =>
      rw [joined_singleton]
      exact (balanced first (by simp)).wrap rfl rfl
  | append_singleton others last inductionHypothesis =>
      have front := inductionHypothesis fun word member => balanced word (by
        rcases List.mem_cons.mp member with equal | later
        · simp [equal]
        · simp [later])
      have back : Brackets.Balanced Tok.turn (wrapped last) :=
        (balanced last (by simp)).wrap rfl rfl
      rw [joined_concat]
      apply front.append
      simpa [Brackets.Balanced, Brackets.nesting, Tok.turn] using back

/-- The joined elements are a condition when each of them is one, and it holds when some
element does. -/
theorem derives_joined (first : List Tok) (others : List (List Tok))
    (balanced : ∀ word ∈ first :: others, Brackets.Balanced Tok.turn word) :
    ((∃ e, Derives .or (joined (first :: others)) e) ↔
      ∀ word ∈ first :: others, ∃ a, Derives .or word a) ∧
    ∀ e, Derives .or (joined (first :: others)) e → ∀ results names,
      (eval results names e = true ↔
        ∃ word ∈ first :: others, ∃ a, Derives .or word a ∧
          eval results names a = true) := by
  induction others using List.reverseRecOn with
  | nil =>
      have here := balanced first List.mem_cons_self
      simp only [joined_singleton, derives_wrapped_iff here, List.mem_singleton, forall_eq,
        exists_eq_left, true_and]
      intro e derives results names
      constructor
      · intro holds
        exact ⟨e, derives, holds⟩
      · intro found
        rcases found with ⟨a, derives', holds⟩
        rwa [derives.unique derives']
  | append_singleton others last inductionHypothesis =>
      have within : ∀ word ∈ first :: others, Brackets.Balanced Tok.turn word := by
        intro word member
        apply balanced
        rw [← List.cons_append]
        exact List.mem_append_left [last] member
      have here : Brackets.Balanced Tok.turn last := balanced last (by simp)
      rcases inductionHypothesis within with ⟨accepted, evaluated⟩
      simp only [joined_concat, derives_or_wrapped_iff (joined_balanced first others within) here]
      rw [← List.cons_append]
      constructor
      · rw [List.forall_mem_append, ← accepted, List.forall_mem_singleton]
        constructor
        · intro whole
          rcases whole with ⟨_, a, b, rfl, left, right⟩
          exact ⟨⟨a, left⟩, b, right⟩
        · intro parts
          rcases parts with ⟨⟨a, left⟩, b, right⟩
          exact ⟨_, a, b, rfl, left, right⟩
      · intro e whole results names
        rcases whole with ⟨a, b, rfl, left, right⟩
        rw [eval, Bool.or_eq_true, evaluated a left]
        constructor
        · intro either
          rcases either with ⟨word, member, found⟩ | holds
          · exact ⟨word, List.mem_append_left _ member, found⟩
          · exact ⟨last, List.mem_append_right _ (List.mem_singleton_self last),
              b, right, holds⟩
        · intro found
          rcases found with ⟨word, member, b', right', holds⟩
          rcases List.mem_append.mp member with before | isLast
          · exact Or.inl ⟨word, before, b', right', holds⟩
          · rw [List.mem_singleton.mp isLast] at right'
            rw [right.unique right']
            exact Or.inr holds

/-! ## From texts to tokens -/

/-- The tokens of a text. -/
def tokens (s : String) : List Tok :=
  (separators.scan s.toList).map fun word => tokenOf (String.ofList word)

theorem prints_iff_tokens {e : Expr} {s : String} : Prints e s ↔ Derives .or (tokens s) e := by
  rw [prints_iff, tokenize_eq]
  constructor
  · intro printed
    rcases printed with ⟨toks, equal, derives⟩
    simp only at equal
    split at equal
    · cases equal
    · cases equal
      exact derives
  · intro derives
    have some_ : (tokens s).isEmpty = false := List.isEmpty_eq_false_iff.mpr derives.nonempty
    exact ⟨tokens s, by simpa [tokens] using some_, derives⟩

theorem tokens_append (first : String) {second : String}
    (stops : separators.Stops second.toList) :
    tokens (first ++ second) = tokens first ++ tokens second := by
  simp [tokens, Words.Separators.scan_append stops]

theorem tokens_wrapped (s : String) : tokens ("(" ++ s ++ ")") = wrapped (tokens s) := by
  have closed : separators.Stops ")".toList := by
    intro c member isPlain
    cases member
    exact absurd isPlain.2 (by decide)
  have opening : tokens ("(" ++ s) = .lparen :: tokens s := by
    have scanned := Words.Separators.scan_single (show separators.single '(' = true from rfl)
      s.toList
    simp [tokens, scanned]
    rfl
  rw [tokens_append _ closed, opening]
  rfl

theorem tokens_or (s : String) : tokens (" or " ++ s) = .or :: tokens s := by
  have stops : separators.Stops (' ' :: s.toList) := by
    intro c member isPlain
    cases member
    exact absurd isPlain.1 (by decide)
  have blank : ∀ text, separators.scan (' ' :: text) = separators.scan text :=
    Words.Separators.scan_blank rfl
  have word := Words.Separators.scan_word (List.cons_ne_nil 'o' ['r']) (by decide) stops
  rw [blank] at word
  simp only [List.cons_append, List.nil_append] at word
  simp [tokens, blank, word]
  rfl

/-- The text of a list of conditions has the tokens of its elements, joined. -/
theorem tokens_intercalate (strings : List String) :
    tokens (" or ".intercalate (strings.map fun s => "(" ++ s ++ ")")) =
      joined (strings.map tokens) := by
  induction strings with
  | nil => simp [tokens, joined, Words.Separators.scan, Words.Separators.spread, Words.split]
  | cons first strings inductionHypothesis =>
      cases strings with
      | nil => simp [joined_singleton, ← tokens_wrapped]
      | cons next strings =>
          have stops : separators.Stops
              (" or " ++ " or ".intercalate ((next :: strings).map fun s => "(" ++
                  s ++ ")")).toList := by
            intro c member isPlain
            rw [String.toList_append] at member
            cases member
            exact absurd isPlain.1 (by decide)
          rw [List.map_cons] at stops inductionHypothesis
          rw [List.map_cons, List.map_cons, String.intercalate_cons_cons, String.append_assoc,
            tokens_append _ stops, tokens_or, inductionHypothesis, tokens_wrapped]
          simp [joined, List.intercalate_cons_cons]

/-! ## Parentheses in a text -/

def parenthesis (c : Char) : Brackets.Turn :=
  if c = '(' then .opens else if c = ')' then .closes else .stays

theorem parenthesis_stays {c : Char} (notSingle : separators.single c = false) :
    parenthesis c = .stays := by
  simp [separators] at notSingle
  simp [parenthesis, notSingle]

/-- A character that is lowered to a parenthesis is this parenthesis. -/
theorem toLower_eq_single {c paren : Char} (isParen : separators.single paren = true)
    (lower : c.toLower = paren) : c = paren := by
  rcases toLower_cases c with same | ⟨small, _⟩
  · exact same.symm.trans lower
  · rw [lower] at small
    simp [separators] at isParen
    rcases isParen with rfl | rfl
    · exact absurd small (by decide)
    · exact absurd small (by decide)

/-- The keywords that are parentheses. -/
theorem keyword_single {word : String} {tok : Tok} (isKeyword : keyword word = some tok)
    (isParen : tok = .lparen ∨ tok = .rparen) :
    word = if tok = .lparen then "(" else ")" := by
  unfold keyword at isKeyword
  split at isKeyword
  case h_9 => cases isKeyword
  all_goals
    cases isKeyword
    simp at isParen ⊢

/-- Only a parenthesis is read as one. -/
theorem tokenOf_stays {word : List Char} (nonempty : word ≠ [])
    (plain : ∀ c ∈ word, separators.Plain c) :
    (tokenOf (String.ofList word)).turn = .stays := by
  have other : ∀ paren : Char, separators.single paren = true →
      (toAsciiLowercase (String.ofList word)).toList ≠ [paren] := by
    intro paren isParen lower
    rw [toAsciiLowercase, String.toList_ofList, String.toList_ofList,
      List.map_eq_singleton_iff] at lower
    rcases lower with ⟨c, rfl, lower⟩
    have same := toLower_eq_single isParen lower
    have here := (plain c List.mem_cons_self).2
    rw [same, isParen] at here
    cases here
  have isWord : separators.IsWord word := Or.inr ⟨nonempty, plain⟩
  cases isToken : tokenOf (String.ofList word) with
  | lparen =>
      refine absurd ?_ (other '(' rfl)
      have spells := (spells_iff isWord).mpr isToken
      rw [keyword_single spells (Or.inl rfl)]
      rfl
  | rparen =>
      refine absurd ?_ (other ')' rfl)
      have spells := (spells_iff isWord).mpr isToken
      rw [keyword_single spells (Or.inr rfl)]
      rfl
  | _ => simp [Tok.turn]

/-- The tokens of a text nest as its characters do. -/
theorem nesting_layout {words : List (List Char)} {text : List Char}
    (layout : separators.Layout words text) (depth : Nat) :
    Brackets.nesting Tok.turn depth (words.map fun word => tokenOf (String.ofList word)) =
      Brackets.nesting parenthesis depth text := by
  induction layout generalizing depth with
  | nil => simp [Brackets.nesting]
  | blank isBlank _ inductionHypothesis =>
      have stays := parenthesis_stays (separators.disjoint _ isBlank)
      simp only [Brackets.nesting, stays, inductionHypothesis]
  | @single c words text isSingle _ inductionHypothesis =>
      have cases_ : c = '(' ∨ c = ')' := by simpa [separators] using isSingle
      rcases cases_ with rfl | rfl
      · have opens : (tokenOf (String.ofList ['('])).turn = .opens := by rfl
        have opens' : parenthesis '(' = .opens := by rfl
        simp only [List.map_cons, Brackets.nesting, opens, opens', inductionHypothesis]
      · have closes : (tokenOf (String.ofList [')'])).turn = .closes := by rfl
        have closes' : parenthesis ')' = .closes := by rfl
        cases depth with
        | zero => simp only [List.map_cons, Brackets.nesting, closes, closes']
        | succ depth =>
            simp only [List.map_cons, Brackets.nesting, closes, closes', inductionHypothesis]
  | word nonempty plain _ _ inductionHypothesis =>
      have inside := Brackets.nesting_of_stays fun c member => parenthesis_stays (plain c member).2
      have stays := tokenOf_stays nonempty plain
      simp [Brackets.nesting, stays, Brackets.nesting_append, inside, inductionHypothesis]

theorem balanced_tokens_iff (s : String) :
    Brackets.Balanced Tok.turn (tokens s) ↔ Brackets.Balanced parenthesis s.toList := by
  rw [Brackets.Balanced, tokens, nesting_layout (Words.Separators.layout_scan s.toList)]
  rfl

/-! ## Rules with a list of conditions -/

/-- The strings of a list. -/
def strings (seq : List Yaml) : List String :=
  seq.filterMap Yaml.asStr

/-- The strings of a list in parentheses, joined with `or`. -/
def anyOfText (seq : List Yaml) : String :=
  " or ".intercalate ((strings seq).map fun s => "(" ++ s ++ ")")

theorem conditionToString_eq {seq : List Yaml} {text : String} :
    conditionToString (.sequence seq) = .ok text ↔
      strings seq ≠ [] ∧ text = anyOfText seq := by
  have parts : (seq.filterMap fun x => x.asStr.map fun s => "(" ++ s ++ ")") =
      (strings seq).map fun s => "(" ++ s ++ ")" := by
    rw [strings, List.map_filterMap]
  simp only [conditionToString, parts, List.isEmpty_map, List.isEmpty_iff]
  by_cases none : strings seq = []
  · simp [none]
  · simp [none, anyOfText, eq_comm]

namespace CompiledRule

variable {lib : Libraries}

/-- An entry of the detection that can be compiled. -/
def Accepted (lib : Libraries) (entry : Yaml × Yaml) : Prop :=
  ∃ found, addEntry lib (∅, none) entry = .ok found

/-- Entries that can be compiled give selections; without a condition among them they leave
the text of the condition as it is. -/
theorem exists_addEntries {entries : List (Yaml × Yaml)}
    (accepted : ∀ entry ∈ entries, Accepted lib entry)
    (selections : AList fun _ : String => Selection lib) :
    ∃ after : AList fun _ : String => Selection lib, ∀ text, ∃ last,
      entries.foldlM (addEntry lib) (selections, text) = .ok (after, last) ∧
      ((∀ entry ∈ entries, entry.1.asStr ≠ some "condition") → last = text) := by
  induction entries generalizing selections with
  | nil => exact ⟨selections, fun text => ⟨text, rfl, fun _ => rfl⟩⟩
  | cons entry entries inductionHypothesis =>
      rcases List.forall_mem_cons.mp accepted with ⟨⟨found, added⟩, later⟩
      rcases addEntry_key added with ⟨name, named⟩
      by_cases isCondition : name = "condition"
      · rw [isCondition] at named
        rw [addEntry_condition named] at added
        rcases inductionHypothesis later selections with ⟨after, rest⟩
        cases read : conditionToString entry.2 with
        | error failure => simp [read, Except.map] at added
        | ok condition =>
            refine ⟨after, fun text => ?_⟩
            rcases rest (some condition) with ⟨last, folded, -⟩
            refine ⟨last, ?_, fun none => absurd named (none entry List.mem_cons_self)⟩
            rw [List.foldlM_cons, addEntry_condition named, read]
            exact folded
      · rw [addEntry_selection named isCondition] at added
        cases compiled : compileSelection lib entry.2 with
        | error failure => simp [compiled, Except.map] at added
        | ok selection =>
            rcases inductionHypothesis later (selections.insert name selection)
              with ⟨after, rest⟩
            refine ⟨after, fun text => ?_⟩
            rcases rest text with ⟨last, folded, stays⟩
            refine ⟨last, ?_, fun none => stays (List.forall_mem_cons.mp none).2⟩
            rw [List.foldlM_cons, addEntry_selection named isCondition, compiled]
            exact folded

end CompiledRule

/-- The condition of a rule is a list: the last entry under this name.  The other entries can
be compiled. -/
def HasList (lib : Libraries) (rule : SigmaRule) (seq : List Yaml) : Prop :=
  ∃ before key after, rule.detection.entries = before ++ (key, .sequence seq) :: after ∧
    key.asStr = some "condition" ∧ (∀ entry ∈ after, entry.1.asStr ≠ some "condition") ∧
    ∀ entry ∈ before ++ after, CompiledRule.Accepted lib entry

section

variable {lib : Libraries} {rule : SigmaRule} {seq : List Yaml}

theorem HasList.addEntries (hasList : HasList lib rule seq) :
    ∃ selections, rule.detection.entries.foldlM (CompiledRule.addEntry lib) (∅, none) =
      (conditionToString (.sequence seq)).map fun text => (selections, some text) := by
  rcases hasList with ⟨before, key, after, entries, isCondition, isLast, accepted⟩
  rcases List.forall_mem_append.mp accepted with ⟨front, back⟩
  rcases CompiledRule.exists_addEntries front ∅ with ⟨middle, folded⟩
  rcases folded none with ⟨last, folded, -⟩
  rcases CompiledRule.exists_addEntries back middle with ⟨selections, rest⟩
  have here : CompiledRule.addEntry lib (middle, last) (key, .sequence seq) =
      (conditionToString (.sequence seq)).map fun text => (middle, some text) :=
    CompiledRule.addEntry_condition isCondition _
  refine ⟨selections, ?_⟩
  rw [entries, List.foldlM_append, folded]
  simp only [bind, Except.bind, List.foldlM_cons, here]
  cases read : conditionToString (.sequence seq) with
  | error failure => simp [Except.map]
  | ok text =>
      rcases rest (some text) with ⟨text', folded', stays⟩
      simp [Except.map, folded', stays isLast]

theorem prints_anyOfText {e : Expr} :
    Prints e (anyOfText seq) ↔ Derives .or (joined ((strings seq).map tokens)) e := by
  rw [prints_iff_tokens, anyOfText, tokens_intercalate]

/-- The rule compiles when the joined strings are a condition, and that is its condition. -/
theorem HasList.fromRule_iff (hasList : HasList lib rule seq) :
    ((∃ compiled, CompiledRule.fromRule lib rule = .ok compiled) ↔
      ∃ e, Prints e (anyOfText seq)) ∧
    ∀ compiled, CompiledRule.fromRule lib rule = .ok compiled →
      Prints compiled.condition (anyOfText seq) := by
  rcases hasList.addEntries with ⟨selections, folded⟩
  have printed : ∀ compiled, CompiledRule.fromRule lib rule = .ok compiled →
      Prints compiled.condition (anyOfText seq) := by
    intro compiled isRule
    rcases CompiledRule.fromRule_eq_ok_iff.mp isRule with ⟨_, text, e, whole, parsed, rfl⟩
    rw [folded] at whole
    cases read : conditionToString (.sequence seq) with
    | error failure => simp [read, Except.map] at whole
    | ok text' =>
        simp [read, Except.map] at whole
        rw [← (conditionToString_eq.mp read).2, whole.2]
        exact parseCondition_eq_ok_iff.mp parsed
  refine ⟨⟨fun compiles => ?_, fun reads => ?_⟩, printed⟩
  · rcases compiles with ⟨compiled, isRule⟩
    exact ⟨_, printed compiled isRule⟩
  · rcases reads with ⟨e, prints⟩
    have some_ : strings seq ≠ [] := by
      intro none
      have nothing := (prints_anyOfText.mp prints).nonempty
      simp [none, joined] at nothing
    have read := conditionToString_eq.mpr ⟨some_, rfl⟩
    rw [read] at folded
    exact ⟨_, CompiledRule.fromRule_eq_ok_iff.mpr
      ⟨_, _, _, folded, parseCondition_eq_ok_iff.mpr prints, rfl⟩⟩

/-- An element is a string that is a condition on its own. -/
def Stands (x : Yaml) (e : Expr) : Prop :=
  ∃ s, x.asStr = some s ∧ parseCondition s = .ok e

/-- A rule with a list of conditions compiles when there are elements and each of them is a
condition, and it matches an event when some element does. -/
def AnyOfList (lib : Libraries) (rule : SigmaRule) (seq : List Yaml) : Prop :=
  ((∃ compiled, CompiledRule.fromRule lib rule = .ok compiled) ↔
    seq ≠ [] ∧ ∀ x ∈ seq, ∃ e, Stands x e) ∧
  ∀ compiled, CompiledRule.fromRule lib rule = .ok compiled → ∀ event,
    (compiled.matches event = true ↔
      ∃ x ∈ seq, ∃ e, Stands x e ∧ ({ compiled with condition := e }).matches event = true)

/-- The element is a string whose parentheses are balanced. -/
def BalancedString (x : Yaml) : Prop :=
  ∃ s, x.asStr = some s ∧ Brackets.Balanced parenthesis s.toList

theorem Stands.derives {x : Yaml} {e : Expr} (stands : Stands x e) :
    ∃ s, x.asStr = some s ∧ Derives .or (tokens s) e := by
  rcases stands with ⟨s, isString, parsed⟩
  exact ⟨s, isString, prints_iff_tokens.mp (parseCondition_eq_ok_iff.mp parsed)⟩

theorem Stands.balanced {x : Yaml} {e : Expr} (stands : Stands x e) : BalancedString x := by
  rcases stands.derives with ⟨s, isString, derives⟩
  exact ⟨s, isString, (balanced_tokens_iff s).mp derives.balanced⟩

theorem stands_iff {s : String} {x : Yaml} (isString : x.asStr = some s) {e : Expr} :
    Stands x e ↔ Derives .or (tokens s) e := by
  simp [Stands, isString, parseCondition_eq_ok_iff, prints_iff_tokens]

theorem mem_words_iff {word : List Tok} :
    word ∈ (strings seq).map tokens ↔
      ∃ x ∈ seq, ∃ s, x.asStr = some s ∧ tokens s = word := by
  simp only [strings, List.mem_map, List.mem_filterMap]
  constructor
  · intro found
    rcases found with ⟨s, ⟨x, inSeq, isString⟩, isWord⟩
    exact ⟨x, inSeq, s, isString, isWord⟩
  · intro found
    rcases found with ⟨x, inSeq, s, isString, isWord⟩
    exact ⟨s, ⟨x, inSeq, isString⟩, isWord⟩

/-- The strings of the list are conditions when all its elements are. -/
theorem forall_words_iff (areStrings : ∀ x ∈ seq, BalancedString x) :
    (∀ word ∈ (strings seq).map tokens, ∃ e, Derives .or word e) ↔
      ∀ x ∈ seq, ∃ e, Stands x e := by
  constructor
  · intro derived x inSeq
    rcases areStrings x inSeq with ⟨s, isString, -⟩
    simp only [stands_iff isString]
    exact derived _ (mem_words_iff.mpr ⟨x, inSeq, s, isString, rfl⟩)
  · intro stand word member
    rcases mem_words_iff.mp member with ⟨x, inSeq, s, isString, rfl⟩
    simpa only [stands_iff isString] using stand x inSeq

theorem exists_words_iff {p : Expr → Prop} :
    (∃ word ∈ (strings seq).map tokens, ∃ e, Derives .or word e ∧ p e) ↔
      ∃ x ∈ seq, ∃ e, Stands x e ∧ p e := by
  constructor
  · intro found
    rcases found with ⟨word, member, e, derives, holds⟩
    rcases mem_words_iff.mp member with ⟨x, inSeq, s, isString, rfl⟩
    exact ⟨x, inSeq, e, (stands_iff isString).mpr derives, holds⟩
  · intro found
    rcases found with ⟨x, inSeq, e, stands, holds⟩
    rcases stands.derives with ⟨s, isString, derives⟩
    exact ⟨_, mem_words_iff.mpr ⟨x, inSeq, s, isString, rfl⟩, e, derives, holds⟩

/-- A list of strings with balanced parentheses is the disjunction of its elements. -/
theorem anyOfList_of_balanced (hasList : HasList lib rule seq)
    (balanced : ∀ x ∈ seq, BalancedString x) : AnyOfList lib rule seq := by
  rcases hasList.fromRule_iff with ⟨compiles, printed⟩
  rw [AnyOfList, compiles]
  simp only [prints_anyOfText] at printed ⊢
  have inWords : ∀ word ∈ (strings seq).map tokens, Brackets.Balanced Tok.turn word := by
    intro word member
    rcases mem_words_iff.mp member with ⟨x, inSeq, s, isString, rfl⟩
    rcases balanced x inSeq with ⟨s', isString', closes⟩
    rw [Option.some.inj (isString.symm.trans isString')]
    exact (balanced_tokens_iff s').mpr closes
  have each := forall_words_iff balanced
  have one : ∀ p : Expr → Prop,
      (∃ word ∈ (strings seq).map tokens, ∃ e, Derives .or word e ∧ p e) ↔
        ∃ x ∈ seq, ∃ e, Stands x e ∧ p e := fun p => exists_words_iff
  cases words : (strings seq).map tokens with
  | nil =>
      have nothing : seq = [] := by
        cases seq with
        | nil => rfl
        | cons x seq =>
            rcases balanced x List.mem_cons_self with ⟨s, isString, -⟩
            simp [strings, isString] at words
      have noCondition : ∀ e, ¬ Derives .or (joined []) e := by
        intro e derives
        exact absurd rfl derives.nonempty
      rw [words] at printed
      refine ⟨?_, fun compiled isRule => absurd (printed compiled isRule) (noCondition _)⟩
      simp [nothing, noCondition]
  | cons first others =>
      have some_ : seq ≠ [] := by
        intro none
        simp [none, strings] at words
      rw [words] at inWords each one printed
      rcases derives_joined first others inWords with ⟨accepted, evaluated⟩
      refine ⟨by rw [accepted, each, and_iff_right some_], fun compiled isRule event => ?_⟩
      rw [CompiledRule.matches, evaluated _ (printed compiled isRule), one]
      rfl

/-- A list of conditions is the disjunction of its elements when the elements are strings with
balanced parentheses, or when what is joined from its strings is no condition either. -/
theorem anyOfList_iff (hasList : HasList lib rule seq) :
    AnyOfList lib rule seq ↔
      (∀ x ∈ seq, BalancedString x) ∨ ¬ ∃ e, parseCondition (anyOfText seq) = .ok e := by
  simp only [parseCondition_eq_ok_iff]
  rcases hasList.fromRule_iff with ⟨compiles, -⟩
  constructor
  · intro law
    by_cases reads : ∃ e, Prints e (anyOfText seq)
    · apply Or.inl
      intro x inSeq
      rcases (law.1.mp (compiles.mpr reads)).2 x inSeq with ⟨e, stands⟩
      exact stands.balanced
    · exact Or.inr reads
  · intro either
    by_cases balanced : ∀ x ∈ seq, BalancedString x
    · exact anyOfList_of_balanced hasList balanced
    · have rejected := compiles.not.mpr (either.resolve_left balanced)
      refine ⟨iff_of_false rejected ?_,
        fun compiled isRule => absurd ⟨compiled, isRule⟩ rejected⟩
      intro stand
      apply balanced
      intro x inSeq
      rcases stand.2 x inSeq with ⟨e, stands⟩
      exact stands.balanced

end

/-- A rule with a keyword and a list of conditions. -/
def keywordRule (seq : List Yaml) : SigmaRule where
  title := "Failed logins"
  detection :=
    { entries := [(.string "keywords", .string "failed"), (.string "condition", .sequence seq)]
      distinct := by simp }

theorem hasList_keywordRule (lib : Libraries) (seq : List Yaml) :
    HasList lib (keywordRule seq) seq := by
  refine ⟨[(.string "keywords", .string "failed")], .string "condition", [],
    rfl, rfl, by simp, ?_⟩
  intro entry member
  rw [List.append_nil, List.mem_singleton] at member
  rw [member]
  exact ⟨_, rfl⟩

theorem anyOfList_iff_keyword :
    AnyOfList asciiLibraries (keywordRule [.string "keywords", .string "not keywords"])
      [.string "keywords", .string "not keywords"] := by
  refine (anyOfList_iff (hasList_keywordRule asciiLibraries _)).mpr (Or.inl ?_)
  intro x member
  rcases List.mem_cons.mp member with rfl | other
  · exact ⟨"keywords", rfl, by decide⟩
  · rw [List.mem_singleton.mp other]
    exact ⟨"not keywords", rfl, by decide⟩

/-- An element that is not a string is left out. -/
theorem not_anyOfList : ¬ ∀ (lib : Libraries) (rule : SigmaRule) (seq : List Yaml),
    HasList lib rule seq → AnyOfList lib rule seq := by
  intro law
  have hasList := hasList_keywordRule asciiLibraries [.string "keywords", .null]
  have parsed : parseCondition (anyOfText [.string "keywords", .null]) = .ok (.ref "keywords") := by
    decide +kernel
  have compiles := hasList.fromRule_iff.1.mpr ⟨_, parseCondition_eq_ok_iff.mp parsed⟩
  rcases ((law _ _ _ hasList).1.mp compiles).2 .null (by simp) with ⟨e, s, isString, -⟩
  cases isString

/-- Parentheses that close in the text around an element make a condition of it. -/
example : parseCondition (anyOfText [.string "a) or (b"]) = .ok (.or (.ref "a") (.ref "b")) := by
  decide +kernel

end Sigma
end Sigil
