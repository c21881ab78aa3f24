import Mathlib.Data.List.Induction
import Sigil.Library.Transition

namespace Sigil
namespace Library
namespace TransitionSystem

/-!
# Where the contents of a state come from

A state holds values under keys.  What a run has left in its last state goes back to a step that
put it there, also when later steps have filed it again under the name that it bears.
-/

universe u v w x y

variable {State : Type u} {Label : Type v} {next : State → Label → Option State} {start : State}

theorem follow_concat (labels : List Label) (label : Label) :
    follow next start (labels ++ [label]) =
      (follow next start labels).bind fun state => next state label := by
  induction labels generalizing start with
  | nil =>
      rw [List.nil_append, follow, follow, Option.bind_some]
      exact Option.bind_fun_some _
  | cons first labels inductionHypothesis =>
      change (next start first).bind (fun state => follow next state (labels ++ [label])) =
        ((next start first).bind fun state => follow next state labels).bind _
      rw [Option.bind_assoc]
      exact congrArg _ (funext fun state => inductionHypothesis)

/-- A moment of a run: after some labels, in the state they have led to, a label is taken. -/
structure Moment (next : State → Label → Option State) (start : State)
    (labels earlier : List Label) (before : State) (label : Label) : Prop where
  inside : earlier ++ [label] <+: labels
  reached : follow next start earlier = some before

namespace Moment

variable {labels more earlier : List Label} {before : State} {label : Label}

theorem longer (moment : Moment next start labels earlier before label) (start_ : labels <+: more) :
    Moment next start more earlier before label :=
  ⟨moment.inside.trans start_, moment.reached⟩

theorem last_ (reached : follow next start labels = some before) (label : Label) :
    Moment next start (labels ++ [label]) labels before label :=
  ⟨List.prefix_refl _, reached⟩

end Moment

/-- Every step keeps what is held, lets something in, or files again under its name what was held
before, with a part of it as it was. -/
def Keeps {Key : Type w} {Value : Type x} {Part : Type y} (next : State → Label → Option State)
    (start : State) (holds : State → Key → Value → Prop)
    (grants : List Label → State → Label → Key → Value → Prop) (name : Value → Key)
    (part : Value → Part) : Prop :=
  ∀ {earlier : List Label} {before : State} {label : Label} {after : State},
    follow next start earlier = some before → next before label = some after →
      ∀ {key : Key} {value : Value}, holds after key value →
        holds before key value ∨ grants earlier before label key value ∨
          ∃ key' value', holds before key' value' ∧ name value' = key ∧ name value = key ∧
            part value' = part value

/-- What is held at the end of a run was let in at some moment of it. -/
theorem Keeps.exists_origin {Key : Type w} {Value : Type x} {Part : Type y}
    {holds : State → Key → Value → Prop}
    {grants : List Label → State → Label → Key → Value → Prop} {name : Value → Key}
    {part : Value → Part} (keeps : Keeps next start holds grants name part)
    (nothing : ∀ key value, ¬ holds start key value) {labels : List Label} {last : State}
    (followed : follow next start labels = some last) {key : Key} {value : Value}
    (has : holds last key value) :
    ∃ earlier before label key' value', Moment next start labels earlier before label ∧
      grants earlier before label key' value' ∧ part value' = part value ∧
        name value' = name value ∧ (key' = key ∨ name value = key) := by
  induction labels using List.reverseRecOn generalizing last key value with
  | nil =>
      cases followed
      exact absurd has (nothing key value)
  | append_singleton labels label inductionHypothesis =>
      rw [follow_concat] at followed
      rcases Option.bind_eq_some_iff.mp followed with ⟨middle, reached, taken⟩
      have start_ : labels <+: labels ++ [label] := List.prefix_append _ _
      rcases keeps reached taken has with
        old | granted | ⟨from_, former, held, named, names, same⟩
      · rcases inductionHypothesis reached old with ⟨earlier, before, l, k, v, moment, rest⟩
        exact ⟨earlier, before, l, k, v, moment.longer start_, rest⟩
      · exact ⟨labels, middle, label, key, value, Moment.last_ reached label, granted, rfl, rfl,
          Or.inl rfl⟩
      · rcases inductionHypothesis reached held with
          ⟨earlier, before, l, k, v, moment, granted, samePart, sameName, _⟩
        exact ⟨earlier, before, l, k, v, moment.longer start_, granted, samePart.trans same,
          sameName.trans (named.trans names.symm), Or.inr names⟩

end TransitionSystem
end Library
end Sigil
