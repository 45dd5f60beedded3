import Sylar.Events.Growth

/-! # Operations that answer `false`

Before it asks the kernel, `addEvent` may have grown the table, and it does not take that
back when the kernel refuses. Nothing else is changed by an operation that fails.
-/

namespace Sylar.Events

open Foundation Scheduling

namespace IOManager

variable {Callback : Type} {manager next : IOManager Callback}

/-- The table still holds every context it held, each with the same contents, and nothing has
been counted or queued. -/
structure Unchanged (manager next : IOManager Callback) : Prop where
  contexs : ∀ fd id, manager.Holds fd id →
    next.Holds fd id ∧ next.objects id = manager.objects id
  pendingEventSize : next.pendingEventSize = manager.pendingEventSize
  queued : next.queued = manager.queued

/-- If the operation answers `false`, nothing has changed. -/
def FailsCleanly (manager : IOManager Callback) (call : Call Callback) : Prop :=
  ∀ next, manager.execute call = .ok (next, false) → manager.Unchanged next

/-- A registration that the kernel refuses does not grow a table that has entries. -/
def RefusedInside (manager : IOManager Callback) (call : Call Callback) : Prop :=
  match call.operation with
  | .addEvent fd .. =>
      call.reply = false → manager.beyond fd = true → manager.fdContexs = []
  | .delEvent .. | .cancelEvent .. | .cancelAll _ | .dispatch .. => True

theorem Unchanged.refl (manager : IOManager Callback) : manager.Unchanged manager where
  contexs _ _ holds := ⟨holds, rfl⟩
  pendingEventSize := rfl
  queued := rfl

theorem unchanged_fdContexResize_iff (formed : manager.WellFormed) (size : Nat) :
    manager.Unchanged (manager.fdContexResize size) ↔ manager.fdContexs = [] := by
  constructor
  · intro unchanged
    cases table : manager.fdContexs with
    | nil => rfl
    | cons first rest =>
        have holds : manager.Holds 0 first := ⟨by decide, by rw [table]; rfl⟩
        have kept := (unchanged.contexs 0 first holds).1
        exact absurd kept (formed.not_holds_fdContexResize holds)
  · intro empty
    constructor
    · intro fd id holds
      have member := holds.mem
      rw [empty] at member
      cases member
    · rfl
    · rfl

theorem requestOf_grown {fd : Int32} {event : Event} {cb : Option Callback} {caller : Caller}
    (outside : manager.beyond fd = true) {id : ContexId}
    (held : (manager.grown fd).Holds fd id) :
    manager.requestOf (.addEvent fd event cb caller) ≠ none := by
  have found : manager.target (.addEvent fd event cb caller) = some id :=
    toOption_contexAt_eq_some.mpr held
  have unarmed : ((manager.grown fd).objects id).armed event = false := by
    rw [IOManager.grown, if_pos outside] at held ⊢
    exact fdContexResize_quiet id held.mem event
  rw [requestOf, found]
  simp [base, FdContex.addRequest, unarmed]

theorem addEvent_refused_eq {fd : Int32} {event : Event} {cb : Option Callback} {caller : Caller}
    {reply : Bool} (returned : manager.addEvent fd event cb caller reply = .ok (next, false))
    (outside : manager.beyond fd = true) : reply = false := by
  rcases bind_eq_ok.mp returned with ⟨grown, grew, rest⟩
  rcases bind_eq_ok.mp rest with ⟨id, found, -⟩
  cases grow_ok grew
  rcases addEvent_ok returned with ⟨-, -, silent | refused⟩ | ⟨impossible, -⟩
  · exact absurd silent (requestOf_grown outside (contexAt_ok.mp found))
  · exact refused
  · cases impossible

theorem WellFormed.failsCleanly_iff (formed : manager.WellFormed) {call : Call Callback}
    (stepped : machine.step manager call = some next) :
    manager.FailsCleanly call ↔ manager.RefusedInside call := by
  have failed : ∀ next, manager.execute call = .ok (next, false) →
      next = manager.base call.operation := by
    intro next returned
    rcases execute_ok returned with ⟨-, same, -⟩ | ⟨impossible, -⟩
    · exact same
    · cases impossible
  rcases call with ⟨operation, reply⟩
  cases operation with
  | addEvent fd event cb caller =>
      constructor
      · intro clean refused outside
        cases refused
        rcases execute_of_step stepped with ⟨answer, returned⟩
        have isFalse : answer = false := by
          rcases execute_ok returned with ⟨isFalse, -⟩ | ⟨-, impossible, -⟩
          · exact isFalse
          · cases impossible
        rw [isFalse] at returned
        have unchanged := clean next returned
        rw [failed next returned, IOManager.base, IOManager.grown, if_pos outside] at unchanged
        exact (unchanged_fdContexResize_iff formed _).mp unchanged
      · intro inside after returned
        rw [failed after returned, IOManager.base, IOManager.grown]
        by_cases outside : manager.beyond fd = true
        · rw [if_pos outside]
          apply (unchanged_fdContexResize_iff formed _).mpr
          exact inside (addEvent_refused_eq returned outside) outside
        · rw [if_neg outside]
          exact .refl manager
  | delEvent | cancelEvent | cancelAll | dispatch =>
      refine iff_of_true ?_ trivial
      intro after returned
      rw [failed after returned]
      exact .refl manager

/-- In every run the operations that fail change nothing, exactly if no registration that the
kernel refuses grows a table with entries. -/
theorem failsCleanly_iff_refusedInside (calls : List (Call Callback)) :
    machine.StepsMeet FailsCleanly .new calls ↔
      machine.StepsMeet RefusedInside .new calls := by
  apply Machine.stepsMeet_congr WellFormed ?_ ?_ new_wellFormed
  · intro before call next formed stepped
    rcases machine_step stepped with ⟨answer, outcome⟩
    exact outcome.wellFormed formed
  · intro before call next formed stepped
    exact formed.failsCleanly_iff stepped

/-- Descriptor 2 is registered. A registration of descriptor 3 that the kernel refuses then
takes its context out of the table, with the direction that is armed in it. -/
theorem failsCleanly_iff_refusedInside_fails :
    let first : Call Unit :=
      { operation := .addEvent 2 .READD (some ()) { scheduler := some 0, fiber := 0 } }
    let second : Call Unit :=
      { operation := .addEvent 3 .READD (some ()) { scheduler := some 0, fiber := 0 }
        reply := false }
    ¬(machine : Machine (IOManager Unit) (Call Unit)).StepsMeet FailsCleanly .new
      [first, second] := by
  intro first second meets
  have clean := ((meets _ rfl).2 _ rfl).1
  have kept := (clean _ rfl).contexs 2 2 ⟨by decide, rfl⟩
  exact absurd kept.1.2 (by decide)

end IOManager

end Sylar.Events
