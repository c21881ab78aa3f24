import Sigil.Library.Transition

namespace Sigil
namespace Library

/-!
# Serial replays

The calls that a system has answered are replayed one after the other on an abstract state.
When every step either changes nothing abstract and answers nothing, or answers one call as
its effect on the abstract state does, the answers of every run are replayed in the order in
which they are given.
-/

universe u v w x y

variable {Abstract : Type u} {Call : Type v} {Answer : Type w}

/-- The calls, in this order, give these answers and lead from the first state to the last. -/
def Replays (effect : Abstract → Call → Abstract × Answer) :
    Abstract → List (Call × Answer) → Abstract → Prop
  | first, [], last => last = first
  | first, (call, answer) :: rest, last =>
      (effect first call).2 = answer ∧ Replays effect (effect first call).1 rest last

/-- One more call. -/
theorem Replays.snoc {effect : Abstract → Call → Abstract × Answer} {first last : Abstract}
    {history : List (Call × Answer)} (replays : Replays effect first history last) (call : Call) :
    Replays effect first (history ++ [(call, (effect last call).2)]) (effect last call).1 := by
  induction history generalizing first with
  | nil =>
      have same : last = first := replays
      subst same
      exact ⟨rfl, rfl⟩
  | cons entry history inductionHypothesis =>
      exact ⟨replays.1, inductionHypothesis replays.2⟩

/-- The rule of the points at which calls take effect. -/
theorem TransitionSystem.Reaches.replays {State : Type x} {Label : Type y}
    {T : TransitionSystem State Label} {effect : Abstract → Call → Abstract × Answer}
    (abstract : State → Abstract) (history : State → List (Call × Answer))
    (invariant : State → Prop)
    (keep : ∀ before label after, invariant before →
      T.step before label after → invariant after)
    (points : ∀ before label after, invariant before → T.step before label after →
      (abstract after = abstract before ∧ history after = history before) ∨
        ∃ call, abstract after = (effect (abstract before) call).1 ∧
          history after = history before ++ [(call, (effect (abstract before) call).2)])
    {start state : State} (run : T.Reaches start state) (holds : invariant start)
    (fresh : history start = []) :
    Replays effect (abstract start) (history state) (abstract state) := by
  have both :
      invariant state ∧ Replays effect (abstract start) (history state) (abstract state) := by
    refine run.preserve
      (fun state => invariant state ∧
        Replays effect (abstract start) (history state) (abstract state))
      ?_ ⟨holds, ?_⟩
    · rintro before label after ⟨inv, replays⟩ step
      refine ⟨keep before label after inv step, ?_⟩
      rcases points before label after inv step with
        ⟨same, silent⟩ | ⟨call, moved, answered⟩
      · rw [same, silent]
        exact replays
      · rw [moved, answered]
        exact replays.snoc call
    · rw [fresh]
      exact rfl
  exact both.2

end Library
end Sigil
