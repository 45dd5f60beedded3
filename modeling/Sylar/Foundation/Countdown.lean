import Sylar.Foundation.Machine

/-! # Things that do not last

A measure that no step of a machine raises, and that the steps of one kind lower, bounds
how many steps of that kind there can be while something lasts, whatever the other steps
are and however many of them come in between.
-/

namespace Sylar.Foundation.Machine

variable {State : Type u} {Label : Type v} {machine : Machine State Label}

/-- What lasts to the end of a run has lasted all along, and the measure has paid for each
step of the kind. The induction goes from the end of the run to its beginning, so that
nothing is said about the steps after which it is over. -/
theorem countP_le {invariant lasts : State → Prop} {measure : State → Nat}
    {counted : Label → Bool}
    (preserved : ∀ state label next, invariant state →
      machine.step state label = some next → invariant next)
    (lasted : ∀ state label next, invariant state → machine.step state label = some next →
      lasts next →
        lasts state ∧ measure next + (if counted label then 1 else 0) ≤ measure state)
    {state final : State} {labels : List Label} (holds : invariant state)
    (ran : machine.run state labels = some final) (last : lasts final) :
    lasts state ∧ measure final + labels.countP counted ≤ measure state := by
  induction labels generalizing state with
  | nil =>
      cases ran
      exact ⟨last, Nat.le_refl _⟩
  | cons label labels induction =>
      rcases Option.bind_eq_some_iff.mp ran with ⟨next, stepped, rest⟩
      rcases induction (preserved state label next holds stepped) rest with
        ⟨lastsNext, fromNext⟩
      rcases lasted state label next holds stepped lastsNext with ⟨lastsHere, here⟩
      refine ⟨lastsHere, ?_⟩
      rw [List.countP_cons]
      omega

end Sylar.Foundation.Machine
