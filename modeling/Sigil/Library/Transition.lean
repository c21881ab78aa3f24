import Mathlib.Logic.Relation

namespace Sigil
namespace Library

/-!
# Labelled transition systems

A system is a set of initial states and a labelled step relation.  Its runs are
the reflexive transitive closure of the steps, so Mathlib's induction principles
for that closure apply unchanged.

Three rules are packaged here.  The invariant rule needs one step lemma.  The
simulation rule carries a relation to a second system along a whole run; the
second system may be a history that the first one does not store.  The
restriction of a system keeps only the steps that satisfy a side condition, which
is how a result "for every run whose steps all meet the condition" is stated.
-/

universe u v w x

/-- Initial states and labelled steps. -/
structure TransitionSystem (State : Type u) (Label : Type v) where
  init : State → Prop
  step : State → Label → State → Prop

namespace TransitionSystem

variable {State : Type u} {Label : Type v} {Abstract : Type w} {Action : Type x}

/-- One step under some label. -/
def Next (T : TransitionSystem State Label) (before after : State) : Prop :=
  ∃ label, T.step before label after

/-- Finitely many steps. -/
def Reaches (T : TransitionSystem State Label) : State → State → Prop :=
  Relation.ReflTransGen T.Next

/-- Reached from an initial state. -/
def Reachable (T : TransitionSystem State Label) (state : State) : Prop :=
  ∃ start, T.init start ∧ T.Reaches start state

theorem Reaches.refl (T : TransitionSystem State Label) (state : State) :
    T.Reaches state state :=
  Relation.ReflTransGen.refl

theorem Reaches.single {T : TransitionSystem State Label} {before after : State}
    (label : Label) (step : T.step before label after) : T.Reaches before after :=
  Relation.ReflTransGen.single ⟨label, step⟩

theorem Reaches.trans {T : TransitionSystem State Label} {first second third : State}
    (left : T.Reaches first second) (right : T.Reaches second third) :
    T.Reaches first third :=
  Relation.ReflTransGen.trans left right

/-! ## Evaluated runs -/

/-- Follow a list of labels, as long as each of them is possible. -/
def follow (next : State → Label → Option State) (state : State) : List Label → Option State
  | [] => some state
  | label :: labels => (next state label).bind fun state => follow next state labels

/-- What a sound step function evaluates to is reached. -/
theorem Reaches.of_follow {T : TransitionSystem State Label}
    {next : State → Label → Option State}
    (sound : ∀ before label after, next before label = some after → T.step before label after)
    {before after : State} {labels : List Label}
    (followed : follow next before labels = some after) : T.Reaches before after := by
  induction labels generalizing before with
  | nil =>
      rw [← Option.some.inj followed]
      exact Reaches.refl T before
  | cons label labels inductionHypothesis =>
      rcases Option.bind_eq_some_iff.mp followed with ⟨middle, first, rest⟩
      exact (Reaches.single label (sound before label middle first)).trans
        (inductionHypothesis rest)

/-- Every step of an evaluated run has the property. -/
def Along (next : State → Label → Option State)
    (property : State → Label → State → Prop) :
    State → List Label → Prop
  | _, [] => True
  | state, label :: labels => ∃ after, next state label = some after ∧
      property state label after ∧ Along next property after labels

instance Along.decidable {next : State → Label → Option State}
    {property : State → Label → State → Prop}
    [∀ before label after, Decidable (property before label after)] (state : State) :
    (labels : List Label) → Decidable (Along next property state labels)
  | [] => .isTrue trivial
  | label :: labels =>
      match step : next state label with
      | none => .isFalse fun ⟨_, impossible, _⟩ => by
          rw [step] at impossible
          cases impossible
      | some after =>
          have : Decidable (Along next property after labels) := Along.decidable after labels
          decidable_of_iff (property state label after ∧ Along next property after labels)
            ⟨fun along => ⟨after, step, along⟩, fun ⟨other, same, along⟩ => by
              rw [step] at same
              cases same
              exact along⟩

/-- What holds along a run holds in its last step. -/
theorem Along.last {next : State → Label → Option State}
    {property : State → Label → State → Prop} {state : State} {labels : List Label}
    {label : Label} (along : Along next property state (labels ++ [label])) :
    ∃ before after, follow next state labels = some before ∧
      next before label = some after ∧ property before label after := by
  induction labels generalizing state with
  | nil =>
      rcases along with ⟨after, step, has, _⟩
      exact ⟨state, after, rfl, step, has⟩
  | cons first labels inductionHypothesis =>
      rcases along with ⟨middle, step, _, rest⟩
      rcases inductionHypothesis rest with ⟨before, after, path, last, has⟩
      exact ⟨before, after, Option.bind_eq_some_iff.mpr ⟨middle, step, path⟩, last, has⟩

/-- Two properties of steps hold along the same runs when an invariant makes them
equivalent and the first one keeps the invariant. -/
theorem along_congr {next : State → Label → Option State}
    (first second : State → Label → State → Prop) (invariant : State → Prop)
    (equivalent : ∀ before label after, invariant before → next before label = some after →
      (first before label after ↔ second before label after))
    (keep : ∀ before label after, invariant before → next before label = some after →
      first before label after → invariant after)
    {state : State} {labels : List Label} (holds : invariant state) :
    Along next first state labels ↔ Along next second state labels := by
  induction labels generalizing state with
  | nil => exact Iff.rfl
  | cons label labels inductionHypothesis =>
      refine exists_congr fun after => and_congr_right fun step => ?_
      have same := equivalent state label after holds step
      constructor
      · rintro ⟨has, rest⟩
        exact ⟨same.mp has, (inductionHypothesis (keep _ _ _ holds step has)).mp rest⟩
      · rintro ⟨has, rest⟩
        exact ⟨same.mpr has,
          (inductionHypothesis (keep _ _ _ holds step (same.mpr has))).mpr rest⟩

/-- The states of a run are all equivalent to the first one exactly when each step leads to
an equivalent state. -/
theorem along_iff_equivalent {next : State → Label → Option State}
    {Same : State → State → Prop} (equivalence : Equivalence Same) {state : State}
    {labels : List Label} :
    Along next (fun before _ after => Same before after) state labels ↔
      ∀ earlier, earlier <+: labels →
        ∃ after, follow next state earlier = some after ∧ Same state after := by
  induction labels generalizing state with
  | nil =>
      refine iff_of_true trivial fun earlier start => ?_
      rw [List.prefix_nil.mp start]
      exact ⟨state, rfl, equivalence.refl state⟩
  | cons label labels inductionHypothesis =>
      constructor
      · rintro ⟨middle, step, same, along⟩ earlier start
        cases earlier with
        | nil => exact ⟨state, rfl, equivalence.refl state⟩
        | cons first earlier =>
            rcases List.cons_prefix_cons.mp start with ⟨rfl, shorter⟩
            rcases inductionHypothesis.mp along earlier shorter with ⟨after, path, rest⟩
            exact ⟨after, Option.bind_eq_some_iff.mpr ⟨middle, step, path⟩,
              equivalence.trans same rest⟩
      · intro all
        rcases all [label] (List.cons_prefix_cons.mpr ⟨rfl, List.nil_prefix⟩) with
          ⟨middle, path, same⟩
        rcases Option.bind_eq_some_iff.mp path with ⟨other, step, stays⟩
        cases stays
        refine ⟨middle, step, same, inductionHypothesis.mpr fun earlier start => ?_⟩
        rcases all (label :: earlier) (List.cons_prefix_cons.mpr ⟨rfl, start⟩) with
          ⟨after, longer, rest⟩
        rcases Option.bind_eq_some_iff.mp longer with ⟨other, again, path⟩
        rw [step] at again
        cases again
        exact ⟨after, path, equivalence.trans (equivalence.symm same) rest⟩

/-! ## Invariants -/

/-- A property kept by every step is kept by every run. -/
theorem Reaches.preserve {T : TransitionSystem State Label} (property : State → Prop)
    (keep : ∀ before label after, property before → T.step before label after →
      property after)
    {before after : State} (run : T.Reaches before after) (holds : property before) :
    property after := by
  induction run with
  | refl => exact holds
  | tail _ next inductionHypothesis =>
      rcases next with ⟨label, step⟩
      exact keep _ label _ inductionHypothesis step

/-- The invariant rule: true initially and kept by every step. -/
theorem Reachable.invariant {T : TransitionSystem State Label} (property : State → Prop)
    (initially : ∀ state, T.init state → property state)
    (keep : ∀ before label after, property before → T.step before label after →
      property after)
    {state : State} (reachable : T.Reachable state) : property state := by
  rcases reachable with ⟨start, initial, run⟩
  exact run.preserve property keep (initially start initial)

/-! ## Simulation -/

/-- The simulation rule: when every step is matched by finitely many abstract steps, so is
every run. -/
theorem Reaches.simulate {T : TransitionSystem State Label} {A : TransitionSystem Abstract Action}
    {relation : State → Abstract → Prop}
    (matched : ∀ before label after abstract, relation before abstract →
      T.step before label after →
      ∃ abstract', A.Reaches abstract abstract' ∧ relation after abstract')
    {before after : State} {abstract : Abstract} (related : relation before abstract)
    (run : T.Reaches before after) :
    ∃ abstract', A.Reaches abstract abstract' ∧ relation after abstract' := by
  induction run with
  | refl => exact ⟨abstract, Reaches.refl A abstract, related⟩
  | tail _ next inductionHypothesis =>
      rcases inductionHypothesis with ⟨middle, path, middleRelated⟩
      rcases next with ⟨label, step⟩
      rcases matched _ label _ middle middleRelated step with ⟨last, more, lastRelated⟩
      exact ⟨last, path.trans more, lastRelated⟩

/-! ## Restriction to the steps that meet a condition -/

/-- The runs whose steps all meet `condition`. -/
def restrict (T : TransitionSystem State Label) (condition : State → Label → Prop) :
    TransitionSystem State Label where
  init := T.init
  step := fun before label after => condition before label ∧ T.step before label after

theorem Reaches.unrestrict {T : TransitionSystem State Label} {condition : State → Label → Prop}
    {before after : State} (run : (T.restrict condition).Reaches before after) :
    T.Reaches before after := by
  apply Relation.ReflTransGen.mono _ _ _ run
  intro before after next
  rcases next with ⟨label, -, step⟩
  exact ⟨label, step⟩

/-- Runs whose steps meet a condition meet a weaker one. -/
theorem Reaches.restrict_mono {T : TransitionSystem State Label}
    {strong weak : State → Label → Prop}
    (weaker : ∀ state label, strong state label → weak state label) {before after : State}
    (run : (T.restrict strong).Reaches before after) : (T.restrict weak).Reaches before after := by
  apply Relation.ReflTransGen.mono _ _ _ run
  intro before after next
  rcases next with ⟨label, meets, step⟩
  exact ⟨label, weaker before label meets, step⟩

/-- Take only the steps that meet the condition. -/
def guarded (condition : State → Label → Prop)
    [∀ state label, Decidable (condition state label)] (next : State → Label → Option State)
    (state : State) (label : Label) : Option State :=
  if condition state label then next state label else none

theorem Reaches.of_guarded {T : TransitionSystem State Label} {condition : State → Label → Prop}
    [∀ state label, Decidable (condition state label)] {next : State → Label → Option State}
    (sound : ∀ before label after, next before label = some after → T.step before label after)
    {before after : State} {labels : List Label}
    (followed : follow (guarded condition next) before labels = some after) :
    (T.restrict condition).Reaches before after := by
  refine Reaches.of_follow (fun before label after step => ?_) followed
  rw [guarded] at step
  split at step
  · next meets => exact ⟨meets, sound before label after step⟩
  · cases step

end TransitionSystem

end Library
end Sigil
