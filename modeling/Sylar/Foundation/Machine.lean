import Mathlib.Data.Option.Basic
import Mathlib.Tactic.Common

/-! # Labelled machines and their runs

A machine takes one labelled step at a time; a label that is not enabled in a
state has no successor there. The file knows nothing about what the labels do:
it packages the induction over a run once, for invariants and for properties
that hold exactly as long as every step meets a condition.
-/

namespace Sylar.Foundation

structure Machine (State : Type u) (Label : Type v) where
  step : State → Label → Option State

namespace Machine

variable {State : Type u} {Label : Type v} (machine : Machine State Label)

/-- Execute the labels from left to right, stopping when one is not enabled. -/
def run : State → List Label → Option State
  | state, [] => some state
  | state, label :: labels => (machine.step state label).bind (run · labels)

@[simp] theorem run_nil (state : State) : machine.run state [] = some state := rfl

theorem run_cons (state : State) (label : Label) (labels : List Label) :
    machine.run state (label :: labels) =
      (machine.step state label).bind (machine.run · labels) := rfl

theorem run_append (state : State) (before after : List Label) :
    machine.run state (before ++ after) =
      (machine.run state before).bind (machine.run · after) := by
  induction before generalizing state with
  | nil => rfl
  | cons label labels induction =>
      simp only [List.cons_append, run_cons]
      cases machine.step state label with
      | none => rfl
      | some next => exact induction next

def restrict (allowed : Label → Prop) [DecidablePred allowed] :
    Machine State Label where
  step state label := if allowed label then machine.step state label else none

variable {machine}

theorem restrict_step {allowed : Label → Prop} [DecidablePred allowed]
    {state next : State} {label : Label} :
    (machine.restrict allowed).step state label = some next ↔
      allowed label ∧ machine.step state label = some next := by
  simp [restrict]

theorem run_induction {invariant : State → Prop}
    (preserved : ∀ state label next, invariant state →
      machine.step state label = some next → invariant next)
    {state final : State} {labels : List Label} (holds : invariant state)
    (ran : machine.run state labels = some final) : invariant final := by
  induction labels generalizing state with
  | nil => cases ran; exact holds
  | cons label labels induction =>
      rcases Option.bind_eq_some_iff.mp ran with ⟨next, stepped, rest⟩
      exact induction (preserved state label next holds stepped) rest

variable (machine)

/-- The property holds in every state the labels lead through, first and last
included. -/
def Always (property : State → Prop) : State → List Label → Prop
  | state, [] => property state
  | state, label :: labels =>
      property state ∧
        ∀ next, machine.step state label = some next → Always property next labels

/-- Every step the labels take meets the condition in the state before it. -/
def StepsMeet (condition : State → Label → Prop) : State → List Label → Prop
  | _, [] => True
  | state, label :: labels =>
      ∀ next, machine.step state label = some next →
        condition state label ∧ StepsMeet condition next labels

variable {machine}

theorem Always.here {property : State → Prop} {state : State}
    {labels : List Label} (always : machine.Always property state labels) :
    property state := by
  cases labels with
  | nil => exact always
  | cons label labels => exact always.1

theorem Always.mono {property weaker : State → Prop} {state : State} {labels : List Label}
    (always : machine.Always property state labels)
    (implies : ∀ state, property state → weaker state) :
    machine.Always weaker state labels := by
  induction labels generalizing state with
  | nil => exact implies state always
  | cons label labels induction =>
      exact ⟨implies state always.1, fun next stepped => induction (always.2 next stepped)⟩

theorem StepsMeet.cons {condition : State → Label → Prop} {state next : State}
    {label : Label} {labels : List Label}
    (stepped : machine.step state label = some next) (met : condition state label)
    (rest : machine.StepsMeet condition next labels) :
    machine.StepsMeet condition state (label :: labels) := by
  intro other stepsToo
  rw [stepped] at stepsToo
  cases stepsToo
  exact ⟨met, rest⟩

theorem Always.last {property : State → Prop} {state final : State}
    {labels : List Label} (always : machine.Always property state labels)
    (ran : machine.run state labels = some final) : property final := by
  induction labels generalizing state with
  | nil => cases ran; exact always
  | cons label labels induction =>
      rcases Option.bind_eq_some_iff.mp ran with ⟨next, stepped, rest⟩
      exact induction (always.2 next stepped) rest

/-- An invariant that every step preserves holds all along every run, and so does
what follows from it. -/
theorem always_of_invariant (invariant : State → Prop) {property : State → Prop}
    (preserved : ∀ state label next, invariant state →
      machine.step state label = some next → invariant next)
    (implies : ∀ state, invariant state → property state)
    {state : State} (holds : invariant state) (labels : List Label) :
    machine.Always property state labels := by
  induction labels generalizing state with
  | nil => exact implies state holds
  | cons label labels induction =>
      refine ⟨implies state holds, fun next stepped => ?_⟩
      exact induction (preserved state label next holds stepped)

/-- An invariant that steps meeting the first condition preserve, and that turns it into
the second. -/
theorem StepsMeet.mono (invariant : State → Prop) {left right : State → Label → Prop}
    (preserved : ∀ state label next, invariant state → left state label →
      machine.step state label = some next → invariant next)
    (implies : ∀ state label next, invariant state → left state label →
      machine.step state label = some next → right state label)
    {state : State} (holds : invariant state) {labels : List Label}
    (meet : machine.StepsMeet left state labels) : machine.StepsMeet right state labels := by
  induction labels generalizing state with
  | nil => trivial
  | cons label labels induction =>
      intro next stepped
      rcases meet next stepped with ⟨met, rest⟩
      exact ⟨implies state label next holds met stepped,
        induction (preserved state label next holds met stepped) rest⟩

theorem stepsMeet_of_forall {condition : State → Label → Prop}
    (met : ∀ state label, condition state label) {state : State} {labels : List Label} :
    machine.StepsMeet condition state labels := by
  induction labels generalizing state with
  | nil => trivial
  | cons label labels induction => exact fun next _ => ⟨met state label, induction⟩

/-- Where each step meets a condition that the invariant needs, the invariant may turn two
other conditions into one another. -/
theorem StepsMeet.congr (invariant : State → Prop)
    {careful left right : State → Label → Prop}
    (preserved : ∀ state label next, invariant state → careful state label →
      machine.step state label = some next → invariant next)
    (same : ∀ state label next, invariant state → careful state label →
      machine.step state label = some next → (left state label ↔ right state label))
    {state : State} (holds : invariant state) {labels : List Label}
    (meet : machine.StepsMeet careful state labels) :
    machine.StepsMeet left state labels ↔ machine.StepsMeet right state labels := by
  induction labels generalizing state with
  | nil => exact Iff.rfl
  | cons label labels induction =>
      refine forall_congr' fun next => forall_congr' fun stepped => ?_
      rcases meet next stepped with ⟨met, rest⟩
      exact and_congr (same state label next holds met stepped)
        (induction (preserved state label next holds met stepped) rest)

/-- An invariant that turns the conditions into one another turns the two
statements about the steps of a run into one another. -/
theorem stepsMeet_congr (invariant : State → Prop)
    {left right : State → Label → Prop}
    (preserved : ∀ state label next, invariant state →
      machine.step state label = some next → invariant next)
    (same : ∀ state label next, invariant state →
      machine.step state label = some next →
      (left state label ↔ right state label))
    {state : State} (holds : invariant state) (labels : List Label) :
    machine.StepsMeet left state labels ↔
      machine.StepsMeet right state labels :=
  (stepsMeet_of_forall fun _ _ => trivial).congr invariant
    (fun state label next invariantHolds _ => preserved state label next invariantHolds)
    (fun state label next invariantHolds _ => same state label next invariantHolds) holds

/-- When each single step keeps the property exactly if it meets the condition,
the property holds all along a run exactly if every step meets the condition.
The invariant has to survive such steps only. -/
theorem always_iff_stepsMeet (invariant : State → Prop)
    {property : State → Prop} {condition : State → Label → Prop}
    (preserved : ∀ state label next, invariant state → property state →
      condition state label → machine.step state label = some next →
      invariant next)
    (exact : ∀ state label next, invariant state → property state →
      machine.step state label = some next →
      (property next ↔ condition state label))
    {state : State} (holds : invariant state) (initially : property state)
    (labels : List Label) :
    machine.Always property state labels ↔
      machine.StepsMeet condition state labels := by
  induction labels generalizing state with
  | nil => exact ⟨fun _ => trivial, fun _ => initially⟩
  | cons label labels induction =>
      constructor
      · intro always next stepped
        have rest := always.2 next stepped
        have met := (exact state label next holds initially stepped).mp rest.here
        have nextHolds := preserved state label next holds initially met stepped
        exact ⟨met, (induction nextHolds rest.here).mp rest⟩
      · intro meet
        refine ⟨initially, fun next stepped => ?_⟩
        rcases meet next stepped with ⟨met, rest⟩
        have nextHolds := preserved state label next holds initially met stepped
        have nextProperty :=
          (exact state label next holds initially stepped).mpr met
        exact (induction nextHolds nextProperty).mpr rest

/-- An invariant that steps meeting the condition preserve holds all along a run
of such steps, and so does what follows from it. -/
theorem StepsMeet.always (invariant : State → Prop) {property : State → Prop}
    {condition : State → Label → Prop}
    (preserved : ∀ state label next, invariant state → condition state label →
      machine.step state label = some next → invariant next)
    (implies : ∀ state, invariant state → property state)
    {state : State} (holds : invariant state) {labels : List Label}
    (meet : machine.StepsMeet condition state labels) :
    machine.Always property state labels := by
  induction labels generalizing state with
  | nil => exact implies state holds
  | cons label labels induction =>
      refine ⟨implies state holds, fun next stepped => ?_⟩
      rcases meet next stepped with ⟨met, rest⟩
      exact induction (preserved state label next holds met stepped) rest

end Machine

end Sylar.Foundation
