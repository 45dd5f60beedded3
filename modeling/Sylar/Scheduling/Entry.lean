/-! # Fibers and queue entries

The vocabulary shared by the scheduler's run loop and the event manager.
-/

namespace Sylar.Scheduling

abbrev FiberId := Nat

abbrev SchedulerId := Nat

/-- A thread's number; `-1` in a queue entry stands for any thread. -/
abbrev ThreadId := Int

inductive FiberState
  | INIT
  | READY
  | HOLD
  | EXEC
  | TERM
  | EXCET
  deriving DecidableEq, Repr

inductive Work (Callback : Type)
  | cb (callback : Callback)
  | fiber (id : FiberId)
  deriving DecidableEq, Repr

structure FiberAnThread (Callback : Type) where
  work : Work Callback
  thread : ThreadId := -1
  deriving DecidableEq, Repr

def FiberAnThread.fiber (entry : FiberAnThread Callback) : Option FiberId :=
  match entry.work with
  | .cb _ => none
  | .fiber fiber => some fiber

theorem FiberAnThread.fiber_eq_some {entry : FiberAnThread Callback} {fiber : FiberId} :
    entry.fiber = some fiber ↔ entry.work = .fiber fiber := by
  rcases entry with ⟨callback | other, thread⟩ <;> simp [FiberAnThread.fiber]

def FiberAnThread.executing (entry : FiberAnThread Callback)
    (fiberState : FiberId → FiberState) : Bool :=
  match entry.work with
  | .cb _ => false
  | .fiber fiber => decide (fiberState fiber = .EXEC)

end Sylar.Scheduling
