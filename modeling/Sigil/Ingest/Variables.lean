import Sigil.Core.Blanks
import Sigil.Ingest.Template

namespace Sigil
namespace Ingest

/-!
# Templates and their variables

A template and the values on its wildcard positions should give back the message.  They do for a
message that joins a cluster.  A message that starts one is returned as its own template without
any values, also when some of its tokens are the wildcard.
-/

open Sigil.Core Library

/-- Put the variables in the places of the wildcards of the template. -/
def Mined.refill (mined : Mined) : Option (List String) :=
  Wildcards.fill wildcard (splitWhitespace mined.template) mined.variableTokens

namespace TemplateMiner

/-- Some cluster of the token count is similar enough. -/
def Recognises (ratio : Nat → Nat → ℚ) (self : TemplateMiner) (tokens : List String) : Prop :=
  ∃ c, c ∈ self.bucket tokens.length ∧
    self.simThreshold.reachedBy (similarity ratio c.tokens tokens) = true

variable {ratio : Nat → Nat → ℚ}

/-! ## The two branches -/

theorem mine_of_recognises {self : TemplateMiner} {message : String}
    (recognises : self.Recognises ratio (splitWhitespace message)) :
    ∃ c i, self.clusterAt (splitWhitespace message).length i = some c ∧
      self.mine ratio message = self.join (splitWhitespace message) c i := by
  rcases recognises with ⟨c, member, similar⟩
  rcases List.mem_iff_getElem?.mp member with ⟨i, atPlace⟩
  have indexed : ((c, i), similarity ratio c.tokens (splitWhitespace message)) ∈
      (self.bucket (splitWhitespace message).length).zipIdx.map fun c =>
        (c, similarity ratio c.1.tokens (splitWhitespace message)) :=
    List.mem_map.mpr ⟨(c, i), List.mem_zipIdx_iff_getElem?.mpr atPlace, rfl⟩
  dsimp only [mine]
  split
  · next best place sim chosen =>
      have greatest := maxBy_spec chosen
      have reaches : self.simThreshold.reachedBy sim = true :=
        Single.reachedBy_mono similar (greatest.2 _ indexed)
      rcases List.mem_map.mp greatest.1 with ⟨⟨c', i'⟩, inBucket, equal⟩
      cases equal
      rw [if_pos reaches]
      exact ⟨best, place, List.mem_zipIdx_iff_getElem?.mp inBucket, rfl⟩
  · next none_ =>
      rw [maxBy_eq_none.mp none_] at indexed
      exact absurd indexed List.not_mem_nil

theorem mine_of_not_recognises {self : TemplateMiner} {message : String}
    (unknown : ¬ self.Recognises ratio (splitWhitespace message)) :
    self.mine ratio message = self.start (splitWhitespace message) := by
  dsimp only [mine]
  split
  · next best place sim chosen =>
      rcases List.mem_map.mp (maxBy_spec chosen).1 with ⟨⟨c, i⟩, inBucket, equal⟩
      cases equal
      have member := List.mem_of_getElem? (List.mem_zipIdx_iff_getElem?.mp inBucket)
      exact if_neg fun similar => unknown ⟨best, member, similar⟩
  · rfl

/-! ## Templates are made of words -/

/-- The tokens of all templates have characters, and none of them is white space. -/
def OfWords (self : TemplateMiner) : Prop :=
  ∀ n i c, self.clusterAt n i = some c → ∀ word, word ∈ c.tokens →
    word ≠ "" ∧ ∀ d, d ∈ word.toList → isWhitespace d = false

theorem merge_ofWords {template tokens : List String}
    (words : ∀ word, word ∈ template → word ≠ "" ∧ ∀ c, c ∈ word.toList →
      isWhitespace c = false) :
    ∀ word, word ∈ merge template tokens →
      word ≠ "" ∧ ∀ c, c ∈ word.toList → isWhitespace c = false := by
  intro word member
  rcases Wildcards.mem_widen member with rfl | old
  · decide
  · exact words word old

theorem OfWords.mineStep {self after : TemplateMiner} {tokens : List String} {id : Nat}
    (ofWords : self.OfWords)
    (words : ∀ word, word ∈ tokens → word ≠ "" ∧ ∀ c, c ∈ word.toList →
      isWhitespace c = false)
    (step : MineStep self tokens id after) : after.OfWords := by
  intro n i c now
  cases step with
  | joined found written _ =>
      rcases written.cases now with ⟨-, rfl⟩ | ⟨-, before⟩
      · exact merge_ofWords (ofWords _ _ _ found)
      · exact ofWords n i c before
  | started _ written _ =>
      rcases written.cases now with ⟨-, rfl⟩ | ⟨-, before⟩
      · exact words
      · exact ofWords n i c before

theorem OfWords.mineAll {self : TemplateMiner} (ofWords : self.OfWords)
    (ratio : Nat → Nat → ℚ) (messages : List String) :
    (self.mineAll ratio messages).2.OfWords := by
  induction messages generalizing self with
  | nil => exact ofWords
  | cons message messages inductionHypothesis =>
      exact inductionHypothesis
        (ofWords.mineStep (fun word => word_of_mem_splitWhitespace) (mine_step ratio self message))

theorem ofWords_new (threshold : Single) : (new threshold).OfWords :=
  fun _ _ c found => absurd found (Option.some_ne_none c).symm

/-! ## Filling the template -/

/-- What joins a cluster is given back. -/
theorem refill_join {self : TemplateMiner} {tokens : List String} {c : Cluster} {i : Nat}
    (words : ∀ word, word ∈ c.tokens → word ≠ "" ∧ ∀ d, d ∈ word.toList →
      isWhitespace d = false)
    (lengths : c.tokens.length = tokens.length) :
    (self.join tokens c i).1.refill = some tokens := by
  rw [Mined.refill, join, splitWhitespace_intercalate (merge_ofWords words)]
  exact (Wildcards.widen_covers lengths).2.fill_values

/-- What starts a cluster is given back exactly if it has no wildcards. -/
theorem refill_start {self : TemplateMiner} (message : String) :
    (self.start (splitWhitespace message)).1.refill = some (splitWhitespace message) ↔
      wildcard ∉ splitWhitespace message := by
  rw [Mined.refill, start, splitWhitespace_intercalate fun word => word_of_mem_splitWhitespace]
  exact Wildcards.fill_nil

/-- After any messages, the template and the variables of the next one give it back exactly if it
has no wildcards or joins a cluster. -/
theorem refill_mine (ratio : Nat → Nat → ℚ) (threshold : Single) (earlier : List String)
    (message : String) :
    (((new threshold).mineAll ratio earlier).2.mine ratio message).1.refill =
        some (splitWhitespace message) ↔
      wildcard ∉ splitWhitespace message ∨
        ((new threshold).mineAll ratio earlier).2.Recognises ratio (splitWhitespace message) := by
  have wellFormed := (wellFormed_new threshold).mineAll ratio earlier
  have ofWords := (ofWords_new threshold).mineAll ratio earlier
  generalize ((new threshold).mineAll ratio earlier).2 = miner at wellFormed ofWords ⊢
  by_cases recognises : miner.Recognises ratio (splitWhitespace message)
  · rcases mine_of_recognises recognises with ⟨c, i, found, joined⟩
    rw [joined]
    exact iff_of_true (refill_join (ofWords _ _ _ found) (wellFormed.tokenCount found))
      (Or.inr recognises)
  · rw [mine_of_not_recognises recognises, refill_start]
    exact ⟨Or.inl, fun either => either.resolve_right recognises⟩

/-- A first message with the text of the wildcard is returned without a value for it. -/
theorem refill_mine_wildcard :
    ((new (.finite (1 / 2))).mine singleRatio "rule <*> matched").1 =
      ⟨1, "rule <*> matched", []⟩ ∧
      ((new (.finite (1 / 2))).mine singleRatio "rule <*> matched").1.refill ≠
        some (splitWhitespace "rule <*> matched") := by
  decide +kernel

end TemplateMiner
end Ingest
end Sigil
