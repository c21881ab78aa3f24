import Mathlib.Data.Int.Log
import Mathlib.Data.List.AList
import Mathlib.Data.Rat.Cast.Order
import Mathlib.Data.Rat.Floor
import Sigil.Core.Extrema
import Sigil.Core.Text
import Sigil.Library.Wildcards

namespace Sigil
namespace Ingest

/-!
# Mining of log templates

The miner keeps clusters of messages with the same number of tokens.  A message joins the
cluster whose template is most similar to it, if it is similar enough, and the template is
widened at the positions that disagree; else the message starts a cluster of its own.

The similarity is a quotient of two counts in single precision.  The functions take the quotient
as a parameter, so that what is proved of them holds for exact fractions too.
-/

open Sigil.Core Library

def wildcard : String := "<*>"

/-- The result of mining one message. -/
structure Mined where
  templateId : Nat
  template : String
  variableTokens : List String
  deriving DecidableEq, Repr

structure Cluster where
  id : Nat
  tokens : List String
  deriving DecidableEq, Repr

/-! ## Single precision -/

/-- A floating-point number: a fraction, an infinity, or no number at all. -/
inductive Single where
  | finite (value : ℚ)
  | infinite (negative : Bool)
  | nan
  deriving DecidableEq, Repr

/-- The fraction is at least this number. -/
def Single.reachedBy (sim : ℚ) : Single → Bool
  | .finite value => value ≤ sim
  | .infinite negative => negative
  | .nan => false

theorem Single.reachedBy_mono {threshold : Single} {a b : ℚ}
    (reached : threshold.reachedBy a = true) (below : a ≤ b) : threshold.reachedBy b = true := by
  cases threshold with
  | finite value => exact decide_eq_true ((of_decide_eq_true reached).trans below)
  | infinite negative => exact reached
  | nan => cases reached

/-- The nearest integer, and the even one between two of them. -/
def roundEven (q : ℚ) : Int :=
  let low := q.floor
  let rest := q - low
  if rest < 1 / 2 then low else if 1 / 2 < rest then low + 1 else low + low % 2

/-- The nearest number of 24 binary digits. -/
def nearestSingle (q : ℚ) : ℚ :=
  let ulp : ℚ := 2 ^ (Int.log 2 q - 23)
  roundEven (q / ulp) * ulp

/-- The quotient of two counts; counts of 64 bits stay in the range of the exponent. -/
def singleRatio (matching count : Nat) : ℚ :=
  nearestSingle (nearestSingle matching / nearestSingle count)

/-- Three of five are 0.6 as it is rounded, and not the fraction. -/
example : singleRatio 3 5 = 10066330 / 2 ^ 24 := by
  decide +kernel

/-! ## The miner -/

/-- The miner with its clusters in buckets by token count. -/
structure TemplateMiner where
  simThreshold : Single
  buckets : AList fun _ : Nat => List Cluster
  nextId : Nat

/-- The fraction of the positions that match. -/
def similarity (ratio : Nat → Nat → ℚ) (template tokens : List String) : ℚ :=
  if template.isEmpty then 1
  else
    let matching := (template.zip tokens).filter fun p => p.1 = wildcard || p.1 = p.2
    ratio matching.length template.length

/-- Widen the template: positions that disagree become wildcards. -/
def merge (template tokens : List String) : List String :=
  Wildcards.widen wildcard template tokens

/-- The tokens on wildcard positions. -/
def variableTokens (template tokens : List String) : List String :=
  ((template.zip tokens).filter fun p => p.1 = wildcard).map Prod.snd

namespace TemplateMiner

def new (simThreshold : Single) : TemplateMiner where
  simThreshold := simThreshold
  buckets := ∅
  nextId := 1

/-- The bucket of a token count. -/
def bucket (self : TemplateMiner) (n : Nat) : List Cluster :=
  (self.buckets.lookup n).getD []

/-- The message joins the cluster at a place of its bucket. -/
def join (self : TemplateMiner) (tokens : List String) (c : Cluster) (i : Nat) :
    Mined × TemplateMiner :=
  let cluster := { c with tokens := merge c.tokens tokens }
  (⟨cluster.id, " ".intercalate cluster.tokens, variableTokens cluster.tokens tokens⟩,
    { self with
      buckets := self.buckets.insert tokens.length ((self.bucket tokens.length).set i cluster) })

/-- The message starts a cluster. -/
def start (self : TemplateMiner) (tokens : List String) : Mined × TemplateMiner :=
  let id := self.nextId
  (⟨id, " ".intercalate tokens, []⟩,
    { self with
      buckets := self.buckets.insert tokens.length (self.bucket tokens.length ++ [⟨id, tokens⟩])
      nextId := self.nextId + 1 })

variable (ratio : Nat → Nat → ℚ)

/-- Mine one message. -/
def mine (self : TemplateMiner) (message : String) : Mined × TemplateMiner :=
  let tokens := splitWhitespace message
  let bucket := self.bucket tokens.length
  let best := maxBy Prod.snd (bucket.zipIdx.map fun c => (c, similarity ratio c.1.tokens tokens))
  match best with
  | some ((c, i), sim) =>
      if self.simThreshold.reachedBy sim then self.join tokens c i else self.start tokens
  | none => self.start tokens

/-- Mine one message after another. -/
def mineAll (self : TemplateMiner) : List String → List Mined × TemplateMiner
  | [] => ([], self)
  | message :: messages =>
      let first := self.mine ratio message
      let others := first.2.mineAll messages
      (first.1 :: others.1, others.2)

/-- The cluster at a place of a bucket. -/
def clusterAt (self : TemplateMiner) (n i : Nat) : Option Cluster :=
  (self.bucket n)[i]?

/-! ## What one message changes -/

/-- The miner after differs from the one before by the cluster at one place. -/
structure Written (before after : TemplateMiner) (n i : Nat) (cluster : Cluster) : Prop where
  here : after.clusterAt n i = some cluster
  elsewhere : ∀ m j, (m, j) ≠ (n, i) → after.clusterAt m j = before.clusterAt m j

/-- The message widens the template of a cluster or starts the next one. -/
inductive MineStep (self : TemplateMiner) (tokens : List String) :
    Nat → TemplateMiner → Prop where
  | joined {after i cluster} (found : self.clusterAt tokens.length i = some cluster)
      (written : Written self after tokens.length i
        { cluster with tokens := merge cluster.tokens tokens })
      (sameId : after.nextId = self.nextId) : MineStep self tokens cluster.id after
  | started {after i} (free : self.clusterAt tokens.length i = none)
      (written : Written self after tokens.length i ⟨self.nextId, tokens⟩)
      (nextId : after.nextId = self.nextId + 1) : MineStep self tokens self.nextId after

theorem bucket_insert (self : TemplateMiner) (n m : Nat) (clusters : List Cluster) (next : Nat) :
    (TemplateMiner.mk self.simThreshold (self.buckets.insert n clusters) next).bucket m =
      if m = n then clusters else self.bucket m := by
  unfold bucket
  by_cases same : m = n
  · rw [if_pos same, same, AList.lookup_insert]
    rfl
  · rw [if_neg same, AList.lookup_insert_ne same]

/-- Storing a bucket that differs at one index writes one place. -/
theorem written_insert {self : TemplateMiner} {n i next : Nat} {clusters : List Cluster}
    {cluster : Cluster} (here : clusters[i]? = some cluster)
    (elsewhere : ∀ j, j ≠ i → clusters[j]? = self.clusterAt n j) :
    Written self ⟨self.simThreshold, self.buckets.insert n clusters, next⟩ n i cluster where
  here := by
    rw [clusterAt, bucket_insert, if_pos rfl]
    exact here
  elsewhere m j apart := by
    rw [clusterAt, bucket_insert]
    by_cases same : m = n
    · rw [if_pos same, same]
      apply elsewhere
      rintro rfl
      exact apart (Prod.ext same rfl)
    · rw [if_neg same]
      rfl

theorem mine_cases (self : TemplateMiner) (message : String) :
    (∃ c i, self.clusterAt (splitWhitespace message).length i = some c ∧
      self.mine ratio message = self.join (splitWhitespace message) c i) ∨
    self.mine ratio message = self.start (splitWhitespace message) := by
  dsimp only [mine]
  split
  · next c i sim chosen =>
      split
      · rcases List.mem_map.mp (maxBy_spec chosen).1 with ⟨⟨c', i'⟩, indexed, equal⟩
        cases equal
        exact Or.inl ⟨c, i, List.mem_zipIdx_iff_getElem?.mp indexed, rfl⟩
      · exact Or.inr rfl
  · exact Or.inr rfl

theorem mine_step (self : TemplateMiner) (message : String) :
    MineStep self (splitWhitespace message) (self.mine ratio message).1.templateId
      (self.mine ratio message).2 := by
  rcases mine_cases ratio self message with ⟨c, i, found, joined⟩ | started
  · rw [joined]
    apply MineStep.joined found
    · apply written_insert
      · exact List.getElem?_set_self (List.getElem?_eq_some_iff.mp found).1
      · intro j apart
        exact List.getElem?_set_ne apart.symm
    · rfl
  · rw [started]
    have end_free : self.clusterAt (splitWhitespace message).length
        (self.bucket (splitWhitespace message).length).length = none :=
      List.getElem?_eq_none (le_refl _)
    apply MineStep.started end_free
    · apply written_insert
      · exact List.getElem?_concat_length
      · intro j apart
        rw [clusterAt, List.getElem?_append]
        split
        · rfl
        · rw [List.getElem?_eq_none (by rw [List.length_singleton]; omega),
            List.getElem?_eq_none (by omega)]
    · rfl

/-! ## Runs -/

/-- What holds between messages: the ids are distinct and below the next one, and the template
of a cluster has the token count of its bucket. -/
structure WellFormed (miner : TemplateMiner) : Prop where
  id_lt {n i c} : miner.clusterAt n i = some c → c.id < miner.nextId
  id_injective {n i c m j d} : miner.clusterAt n i = some c → miner.clusterAt m j = some d →
    c.id = d.id → (n, i) = (m, j)
  tokenCount {n i c} : miner.clusterAt n i = some c → c.tokens.length = n

theorem wellFormed_new (threshold : Single) : WellFormed (new threshold) := by
  have empty : ∀ n i, (new threshold).clusterAt n i = none := fun _ _ => rfl
  constructor
  · intro n i c found
    exact absurd (found.symm.trans (empty n i)) (Option.some_ne_none c)
  · intro n i c m j d found
    exact absurd (found.symm.trans (empty n i)) (Option.some_ne_none c)
  · intro n i c found
    exact absurd (found.symm.trans (empty n i)) (Option.some_ne_none c)

/-- A cluster after a message that wrote one place stands there or was there before. -/
theorem Written.cases {before after : TemplateMiner} {n i m j : Nat} {written found : Cluster}
    (step : Written before after n i written) (at_place : after.clusterAt m j = some found) :
    ((m, j) = (n, i) ∧ found = written) ∨
      ((m, j) ≠ (n, i) ∧ before.clusterAt m j = some found) := by
  by_cases same : (m, j) = (n, i)
  · cases same
    exact Or.inl ⟨rfl, Option.some.inj (at_place.symm.trans step.here)⟩
  · exact Or.inr ⟨same, (step.elsewhere m j same).symm.trans at_place⟩

theorem WellFormed.mineStep {self after : TemplateMiner} {tokens : List String} {id : Nat}
    (wellFormed : WellFormed self) (step : MineStep self tokens id after) : WellFormed after := by
  cases step with
  | @joined after i cluster found written sameId =>
      -- every cluster has the id and the token count of one that was at its place before
      have earlier :
          ∀ {m j c}, after.clusterAt m j = some c → ∃ c', self.clusterAt m j = some c' ∧
          c.id = c'.id ∧ c.tokens.length = c'.tokens.length := by
        intro m j c now
        rcases written.cases now with ⟨same, rfl⟩ | ⟨-, before⟩
        · cases same
          have lengths := wellFormed.tokenCount found
          exact ⟨cluster, found, rfl, (Wildcards.widen_covers lengths).1.length_eq⟩
        · exact ⟨c, before, rfl, rfl⟩
      constructor
      · intro n i c now
        rcases earlier now with ⟨c', before, sameIds, -⟩
        rw [sameIds, sameId]
        exact wellFormed.id_lt before
      · intro n i c m j d now there equal
        rcases earlier now with ⟨c', before, idOfC, -⟩
        rcases earlier there with ⟨d', beforeThere, idOfD, -⟩
        exact wellFormed.id_injective before beforeThere (idOfC ▸ idOfD ▸ equal)
      · intro n i c now
        rcases earlier now with ⟨c', before, -, lengths⟩
        exact lengths.trans (wellFormed.tokenCount before)
  | @started after i free written nextId =>
      constructor
      · intro m j c now
        rcases written.cases now with ⟨-, rfl⟩ | ⟨-, before⟩
        · rw [nextId]
          exact Nat.lt_succ_self _
        · rw [nextId]
          exact Nat.lt_succ_of_lt (wellFormed.id_lt before)
      · intro n i c m j d now there equal
        rcases written.cases now with ⟨same, rfl⟩ | ⟨-, before⟩
        · rcases written.cases there with ⟨same', -⟩ | ⟨-, beforeThere⟩
          · exact same.trans same'.symm
          · exact absurd equal.symm (Nat.ne_of_lt (wellFormed.id_lt beforeThere))
        · rcases written.cases there with ⟨-, rfl⟩ | ⟨-, beforeThere⟩
          · exact absurd equal (Nat.ne_of_lt (wellFormed.id_lt before))
          · exact wellFormed.id_injective before beforeThere equal
      · intro m j c now
        rcases written.cases now with ⟨same, rfl⟩ | ⟨-, before⟩
        · cases same
          rfl
        · exact wellFormed.tokenCount before

theorem WellFormed.mine {self : TemplateMiner} (wellFormed : WellFormed self)
    (message : String) : WellFormed (self.mine ratio message).2 :=
  wellFormed.mineStep (mine_step ratio self message)

theorem WellFormed.mineAll {self : TemplateMiner} (wellFormed : WellFormed self)
    (messages : List String) : WellFormed (self.mineAll ratio messages).2 := by
  induction messages generalizing self with
  | nil => exact wellFormed
  | cons message messages inductionHypothesis =>
      exact inductionHypothesis (wellFormed.mine ratio message)

/-- Every cluster stays at its place with its id, under a template that covers the old one. -/
def Widened (self after : TemplateMiner) : Prop :=
  ∀ n i c, self.clusterAt n i = some c →
    ∃ c', after.clusterAt n i = some c' ∧ c'.id = c.id ∧
    Wildcards.Covers wildcard c'.tokens c.tokens

theorem Widened.refl (self : TemplateMiner) : Widened self self :=
  fun _ _ c found => ⟨c, found, rfl, Wildcards.Covers.refl c.tokens⟩

theorem Widened.trans {self middle after : TemplateMiner} (first : Widened self middle)
    (second : Widened middle after) : Widened self after := by
  intro n i c found
  rcases first n i c found with ⟨c', found', id', covers⟩
  rcases second n i c' found' with ⟨c'', found'', id'', covers'⟩
  exact ⟨c'', found'', id''.trans id', covers'.trans covers⟩

theorem WellFormed.widened {self after : TemplateMiner} {tokens : List String} {id : Nat}
    (wellFormed : WellFormed self) (step : MineStep self tokens id after) :
    Widened self after := by
  intro n i c found
  cases step with
  | @joined after j cluster foundCluster written sameId =>
      by_cases same : (n, i) = (tokens.length, j)
      · cases same
        cases Option.some.inj (foundCluster.symm.trans found)
        exact ⟨_, written.here, rfl, (Wildcards.widen_covers (wellFormed.tokenCount found)).1⟩
      · exact ⟨c, (written.elsewhere n i same).trans found, rfl,
          Wildcards.Covers.refl c.tokens⟩
  | @started after j free written nextId =>
      have apart : (n, i) ≠ (tokens.length, j) := by
        intro same
        cases same
        exact absurd (free.symm.trans found) (Option.some_ne_none c).symm
      exact ⟨c, (written.elsewhere n i apart).trans found, rfl, Wildcards.Covers.refl c.tokens⟩

theorem widened_mineAll {self : TemplateMiner} (wellFormed : WellFormed self)
    (messages : List String) : Widened self (self.mineAll ratio messages).2 := by
  induction messages generalizing self with
  | nil => exact Widened.refl self
  | cons message messages inductionHypothesis =>
      apply (wellFormed.widened (mine_step ratio self message)).trans
      exact inductionHypothesis (wellFormed.mine ratio message)

/-- Some cluster has the id and a template that the tokens match. -/
def Assigned (self : TemplateMiner) (id : Nat) (tokens : List String) : Prop :=
  ∃ n i c, self.clusterAt n i = some c ∧ c.id = id ∧ Wildcards.Covers wildcard c.tokens tokens

theorem Assigned.widened {self after : TemplateMiner} {id : Nat} {tokens : List String}
    (assigned : Assigned self id tokens) (widened : Widened self after) :
    Assigned after id tokens := by
  rcases assigned with ⟨n, i, c, found, idOfC, covers⟩
  rcases widened n i c found with ⟨c', found', sameId, general⟩
  exact ⟨n, i, c', found', sameId.trans idOfC, general.trans covers⟩

theorem WellFormed.assigned {self after : TemplateMiner} {tokens : List String} {id : Nat}
    (wellFormed : WellFormed self) (step : MineStep self tokens id after) :
    Assigned after id tokens := by
  cases step with
  | @joined after i cluster found written sameId =>
      have lengths := wellFormed.tokenCount found
      exact ⟨_, i, _, written.here, rfl, (Wildcards.widen_covers lengths).2⟩
  | @started after i free written nextId =>
      exact ⟨_, i, _, written.here, rfl, Wildcards.Covers.refl tokens⟩

theorem assigned_mineAll {self : TemplateMiner} (wellFormed : WellFormed self)
    {messages : List String} {index : Nat} {message : String} {mined : Mined}
    (isMessage : messages[index]? = some message)
    (isMined : (self.mineAll ratio messages).1[index]? = some mined) :
    Assigned (self.mineAll ratio messages).2 mined.templateId (splitWhitespace message) := by
  induction messages generalizing self index with
  | nil => exact absurd isMessage (Option.some_ne_none message).symm
  | cons first messages inductionHypothesis =>
      have step := mine_step ratio self first
      have later := wellFormed.mine ratio first
      cases index with
      | zero =>
          cases Option.some.inj isMessage
          cases Option.some.inj isMined
          exact (wellFormed.assigned step).widened (widened_mineAll ratio later messages)
      | succ index => exact inductionHypothesis later isMessage isMined

theorem length_mineAll (self : TemplateMiner) (messages : List String) :
    (self.mineAll ratio messages).1.length = messages.length := by
  induction messages generalizing self with
  | nil => rfl
  | cons message messages inductionHypothesis =>
      exact congrArg Nat.succ (inductionHypothesis _)

/-- Ids are unique, templates only turn literals into wildcards, and every message matches the
template of its cluster from then on; for any quotient, the exact one or the rounded one. -/
theorem mined_templates_only_generalise (ratio : Nat → Nat → ℚ) (threshold : Single)
    (messages later : List String) :
    let run := (new threshold).mineAll ratio messages
    let after := (run.2.mineAll ratio later).2
    (∀ n i c m j d, run.2.clusterAt n i = some c → run.2.clusterAt m j = some d →
      c.id = d.id → n = m ∧ i = j) ∧
    (∀ n i c, run.2.clusterAt n i = some c → ∃ c', after.clusterAt n i = some c' ∧
      c'.id = c.id ∧ c'.tokens.length = c.tokens.length ∧
      ∀ (p : Nat) (token token' : String), c.tokens[p]? = some token →
        c'.tokens[p]? = some token' → token' = token ∨ token' = wildcard) ∧
    run.1.length = messages.length ∧
    ∀ (index : Nat) (message : String) (mined : Mined), messages[index]? = some message →
      run.1[index]? = some mined →
      ∃ n i c, run.2.clusterAt n i = some c ∧ c.id = mined.templateId ∧
        c.tokens.length = (splitWhitespace message).length ∧
        ∀ (p : Nat) (t token : String), c.tokens[p]? = some t → t ≠ wildcard →
          (splitWhitespace message)[p]? = some token → t = token := by
  have wellFormed := (wellFormed_new threshold).mineAll ratio messages
  refine ⟨?_, ?_, length_mineAll ratio _ messages, ?_⟩
  · intro n i c m j d found there equal
    exact Prod.ext_iff.mp (wellFormed.id_injective found there equal)
  · intro n i c found
    rcases widened_mineAll ratio wellFormed later n i c found with ⟨c', found', sameId, covers⟩
    refine ⟨c', found', sameId, covers.length_eq, fun p token token' atToken atToken' => ?_⟩
    exact (covers.getElem? atToken' atToken).symm
  · intro index message mined isMessage isMined
    rcases assigned_mineAll ratio (wellFormed_new threshold) isMessage isMined with
      ⟨n, i, c, found, sameId, covers⟩
    refine ⟨n, i, c, found, sameId, covers.length_eq, fun p t token atT literal atToken => ?_⟩
    exact (covers.getElem? atT atToken).resolve_left literal

/-! ## Templates are least general -/

/-- A pattern that covers all messages of a cluster covers its template. -/
def LeastGeneral (history : List (Nat × List String)) (self : TemplateMiner) : Prop :=
  ∀ n i c, self.clusterAt n i = some c → ∀ upper,
    (∀ tokens, (c.id, tokens) ∈ history → Wildcards.Covers wildcard upper tokens) →
      Wildcards.Covers wildcard upper c.tokens

theorem LeastGeneral.mineStep {history : List (Nat × List String)} {self after : TemplateMiner}
    {tokens : List String} {id : Nat} (least : LeastGeneral history self)
    (step : MineStep self tokens id after) :
    LeastGeneral (history ++ [(id, tokens)]) after := by
  intro m j c now upper coversAll
  have coversOld : ∀ old, (c.id, old) ∈ history → Wildcards.Covers wildcard upper old :=
    fun old member => coversAll old (List.mem_append_left _ member)
  have isNew : ∀ id', (id', tokens) ∈ history ++ [(id', tokens)] :=
    fun _ => List.mem_append_right _ List.mem_cons_self
  cases step with
  | @joined after i cluster found written sameId =>
      rcases written.cases now with ⟨-, rfl⟩ | ⟨-, before⟩
      · exact Wildcards.widen_least (least _ _ _ found upper coversOld)
          (coversAll tokens (isNew _))
      · exact least m j c before upper coversOld
  | @started after i free written nextId =>
      rcases written.cases now with ⟨-, rfl⟩ | ⟨-, before⟩
      · exact coversAll tokens (isNew _)
      · exact least m j c before upper coversOld

/-- The ids that the messages have been given, with their tokens. -/
def assignments (messages : List String) (mined : List Mined) : List (Nat × List String) :=
  (mined.map Mined.templateId).zip (messages.map splitWhitespace)

theorem LeastGeneral.mineAll {history : List (Nat × List String)} {self : TemplateMiner}
    (least : LeastGeneral history self) (messages : List String) :
    LeastGeneral (history ++ assignments messages (self.mineAll ratio messages).1)
      (self.mineAll ratio messages).2 := by
  induction messages generalizing history self with
  | nil =>
      rw [assignments, List.map_nil, List.zip_nil_right, List.append_nil]
      exact least
  | cons message messages inductionHypothesis =>
      have rest := inductionHypothesis (least.mineStep (mine_step ratio self message))
      rw [List.append_assoc] at rest
      exact rest

/-- A message matches the template of the cluster that it has been given. -/
theorem covers_assigned (ratio : Nat → Nat → ℚ) (threshold : Single) {messages : List String}
    {n i : Nat} {c : Cluster} {tokens : List String}
    (found : ((new threshold).mineAll ratio messages).2.clusterAt n i = some c)
    (member : (c.id, tokens) ∈
      assignments messages ((new threshold).mineAll ratio messages).1) :
    Wildcards.Covers wildcard c.tokens tokens := by
  rcases List.mem_iff_getElem?.mp member with ⟨index, atIndex⟩
  rw [assignments, List.getElem?_zip_eq_some, List.getElem?_map, List.getElem?_map] at atIndex
  rcases Option.map_eq_some_iff.mp atIndex.1 with ⟨mined, isMined, sameId⟩
  rcases Option.map_eq_some_iff.mp atIndex.2 with ⟨message, isMessage, rfl⟩
  rcases assigned_mineAll ratio (wellFormed_new threshold) isMessage isMined with
    ⟨m, j, d, there, itsId, covers⟩
  have wellFormed := (wellFormed_new threshold).mineAll ratio messages
  have place := wellFormed.id_injective there found (itsId.trans sameId)
  cases place
  rw [there] at found
  cases found
  exact covers

/-- The messages of a cluster match its template, and it is the least general one that they
match. -/
theorem templates_are_least_general (ratio : Nat → Nat → ℚ) (threshold : Single)
    (messages : List String) :
    (∀ n i c, ((new threshold).mineAll ratio messages).2.clusterAt n i = some c → ∀ tokens,
      (c.id, tokens) ∈ assignments messages ((new threshold).mineAll ratio messages).1 →
        Wildcards.Covers wildcard c.tokens tokens) ∧
    LeastGeneral (assignments messages ((new threshold).mineAll ratio messages).1)
      ((new threshold).mineAll ratio messages).2 := by
  have empty : LeastGeneral [] (new threshold) :=
    fun _ _ c found => absurd found (Option.some_ne_none c).symm
  exact ⟨fun _ _ _ found _ member => covers_assigned ratio threshold found member,
    empty.mineAll ratio messages⟩

end TemplateMiner
end Ingest
end Sigil
