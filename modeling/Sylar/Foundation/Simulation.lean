import Sylar.Foundation.Machine

/-! # Machines inside machines

A machine whose steps are runs of another one, seen through a projection, has only
runs that project to runs of the other. A machine may also be run with a record of
what its steps give out.
-/

namespace Sylar.Foundation.Machine

variable {State : Type u} {Label : Type v} {Inner : Type w} {Move : Type x}
  {Output : Type y}

def Simulates (machine : Machine State Label) (inner : Machine Inner Move)
    (project : State → Inner) : Prop :=
  ∀ state label next, machine.step state label = some next →
    ∃ moves, inner.run (project state) moves = some (project next)

theorem Simulates.run {machine : Machine State Label} {inner : Machine Inner Move}
    {project : State → Inner} (simulates : machine.Simulates inner project)
    {state final : State} {labels : List Label}
    (ran : machine.run state labels = some final) :
    ∃ moves, inner.run (project state) moves = some (project final) := by
  induction labels generalizing state with
  | nil =>
      cases ran
      exact ⟨[], rfl⟩
  | cons label labels induction =>
      rcases Option.bind_eq_some_iff.mp ran with ⟨next, stepped, rest⟩
      rcases simulates state label next stepped with ⟨before, here⟩
      rcases induction rest with ⟨after, later⟩
      refine ⟨before ++ after, ?_⟩
      rw [run_append, here]
      exact later

theorem run_translate {machine : Machine State Label} {inner : Machine Inner Move}
    (project : State → Inner) (translate : Label → List Move) (invariant : State → Prop)
    (translates : ∀ state label next, invariant state → machine.step state label = some next →
      invariant next ∧ inner.run (project state) (translate label) = some (project next))
    {state final : State} {labels : List Label} (holds : invariant state)
    (ran : machine.run state labels = some final) :
    inner.run (project state) (labels.flatMap translate) = some (project final) := by
  induction labels generalizing state with
  | nil =>
      cases ran
      rfl
  | cons label labels induction =>
      rcases Option.bind_eq_some_iff.mp ran with ⟨next, stepped, rest⟩
      rcases translates state label next holds stepped with ⟨holdsNext, here⟩
      rw [List.flatMap_cons, run_append, here]
      exact induction holdsNext rest

theorem run_singleton {machine : Machine State Label} {state next : State} {label : Label}
    (stepped : machine.step state label = some next) :
    machine.run state [label] = some next := by
  rw [run_cons, stepped]
  rfl

/-! ## Records -/

def observe (machine : Machine State Label) (output : State → Label → List Output) :
    Machine (State × List Output) Label where
  step seen label :=
    (machine.step seen.1 label).map fun next => (next, seen.2 ++ output seen.1 label)

theorem observe_step {machine : Machine State Label} {output : State → Label → List Output}
    {state next : State} {label : Label} (stepped : machine.step state label = some next)
    (record : List Output) :
    (machine.observe output).step (state, record) label =
      some (next, record ++ output state label) := by
  simp [observe, stepped]

theorem run_of_observe {machine : Machine State Label}
    {output : State → Label → List Output} {state : State} {record : List Output}
    {final : State × List Output} {labels : List Label}
    (ran : (machine.observe output).run (state, record) labels = some final) :
    machine.run state labels = some final.1 := by
  induction labels generalizing state record with
  | nil =>
      cases ran
      rfl
  | cons label labels induction =>
      rcases Option.bind_eq_some_iff.mp ran with ⟨seen, stepped, rest⟩
      rcases Option.map_eq_some_iff.mp stepped with ⟨next, taken, rfl⟩
      rw [run_cons, taken]
      exact induction rest

end Sylar.Foundation.Machine
