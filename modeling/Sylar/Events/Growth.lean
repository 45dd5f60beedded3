import Sylar.Events.WellFormed

/-! # What growing does to the table

`fd_contex_resize` gives every entry of the table a new context, also the
entries that have one already.
-/

namespace Sylar.Events

open Foundation Scheduling

namespace IOManager

variable {Callback : Type} {manager next : IOManager Callback}

def Operation.Concerns (operation : Operation Callback) (fd : Int32) : Prop :=
  match operation with
  | .addEvent named _ _ _ | .delEvent named _ | .cancelEvent named _
  | .cancelAll named => named = fd
  | .dispatch .. => False

/-- For every other descriptor of the table, the context is the same one with the
same contents, and the next operation gives the same answer. -/
def PreservesOthers (manager next : IOManager Callback) (fd : Int32) : Prop :=
  ∀ other id, other ≠ fd → manager.Holds other id →
    next.Holds other id ∧ next.objects id = manager.objects id ∧
      ∀ call : Call Callback, call.operation.Concerns other →
        (next.execute call).map Prod.snd = (manager.execute call).map Prod.snd

/-- A registration that grows the table leaves the others alone. -/
def GrowthPreserves (manager : IOManager Callback) (call : Call Callback) : Prop :=
  match call.operation with
  | .addEvent fd .. => manager.beyond fd = true →
      ∀ next answer, manager.execute call = .ok (next, answer) →
        manager.PreservesOthers next fd
  | .delEvent .. | .cancelEvent .. | .cancelAll _ | .dispatch .. => True

/-- The table grows only from nothing. -/
def GrowsFromEmpty (manager : IOManager Callback) (call : Call Callback) : Prop :=
  match call.operation with
  | .addEvent fd .. => manager.beyond fd = true → manager.fdContexs = []
  | .delEvent .. | .cancelEvent .. | .cancelAll _ | .dispatch .. => True

theorem Outcome.fdContexs {operation : Operation Callback} {reply answer : Bool}
    (outcome : manager.Outcome operation reply next answer) :
    next.fdContexs = (manager.base operation).fdContexs := by
  rcases outcome with ⟨_, rfl, _⟩ | ⟨_, _, request, _, effect⟩
  · rfl
  · cases effect with
    | registered => rfl
    | deleted => rfl
    | fired fires => rw [fires.base_eq]; rfl

theorem WellFormed.not_holds_fdContexResize (formed : manager.WellFormed)
    {size : Nat} {fd other : Int32} {id : ContexId}
    (holds : manager.Holds fd id) :
    ¬(manager.fdContexResize size).Holds other id := by
  intro held
  have below := formed.allocated id holds.mem
  rw [(fdContexResize_holds.mp held).2.2] at below
  exact Nat.not_lt.mpr (Nat.le_add_right _ _) below

theorem exists_other_holds (nonempty : manager.fdContexs ≠ []) {fd : Int32}
    (outside : manager.beyond fd = true) :
    ∃ other id, other ≠ fd ∧ manager.Holds other id := by
  rw [beyond, decide_eq_true_iff] at outside
  cases table : manager.fdContexs with
  | nil => exact absurd table nonempty
  | cons first rest =>
      by_cases isZero : fd = 0
      · cases rest with
        | nil =>
            rw [table, isZero, List.length_singleton] at outside
            exact absurd outside (by decide)
        | cons second rest =>
            refine ⟨1, second, ?_, by decide, by rw [table]; rfl⟩
            rw [isZero]
            decide
      · exact ⟨0, first, Ne.symm isZero, by decide, by rw [table]; rfl⟩

theorem WellFormed.growthPreserves_iff (formed : manager.WellFormed)
    {call : Call Callback} (stepped : machine.step manager call = some next) :
    manager.GrowthPreserves call ↔ manager.GrowsFromEmpty call := by
  rcases call with ⟨operation, reply⟩
  cases operation with
  | addEvent fd event cb caller =>
      simp only [GrowthPreserves, GrowsFromEmpty]
      apply imp_congr_right
      intro outside
      constructor
      · intro preserves
        by_contra nonempty
        rcases exists_other_holds nonempty outside with ⟨other, id, different, holds⟩
        rcases execute_of_step stepped with ⟨answer, returned⟩
        have kept := (preserves next answer returned other id different holds).1
        have grownTable := (execute_ok returned).fdContexs
        rw [IOManager.base, IOManager.grown, if_pos outside] at grownTable
        rw [Holds, grownTable] at kept
        exact formed.not_holds_fdContexResize holds kept
      · intro empty next answer _ other id _ holds
        have member := holds.mem
        rw [empty] at member
        cases member
  | delEvent | cancelEvent | cancelAll | dispatch => exact Iff.rfl

/-- Every registration that grows the table leaves the other contexts and the
answers of later calls for them alone, exactly if the table is empty whenever it
grows. -/
theorem growthPreserves_iff_growsFromEmpty (calls : List (Call Callback)) :
    machine.StepsMeet GrowthPreserves .new calls ↔
      machine.StepsMeet GrowsFromEmpty .new calls := by
  apply Machine.stepsMeet_congr WellFormed ?_ ?_ new_wellFormed
  · intro before call next formed stepped
    rcases machine_step stepped with ⟨answer, outcome⟩
    exact outcome.wellFormed formed
  · intro before call next formed stepped
    exact formed.growthPreserves_iff stepped

/-- Descriptor 2 is registered for reading. Registering descriptor 3 then makes
`delEvent` answer false for it. -/
theorem growthPreserves_iff_growsFromEmpty_fails :
    ¬(machine : Machine (IOManager Unit) (Call Unit)).StepsMeet GrowthPreserves .new
      [{ operation := .addEvent 2 .READD (some ()) { scheduler := some 0, fiber := 0 } },
       { operation := .addEvent 3 .READD (some ())
          { scheduler := some 0, fiber := 0 } }] := by
  intro preserves
  have grows := ((preserves _ rfl).2 _ rfl).1 (by decide) _ _ rfl
  have answers := (grows 2 2 (by decide) ⟨by decide, rfl⟩).2.2
    { operation := .delEvent 2 .READD } rfl
  exact absurd answers (by decide)

end IOManager

end Sylar.Events
