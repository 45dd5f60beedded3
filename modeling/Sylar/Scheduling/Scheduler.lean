import Mathlib.Logic.Function.Basic
import Mathlib.Tactic.Common
import Sylar.Foundation.Machine
import Sylar.Scheduling.Entry

/-! # The run loop of the workers

`Scheduler::run`, cut at the points where another thread may come in between: the
scan of the queue under its lock, the change to a fiber and back, the updates of
the atomic counters and the return of an unfinished fiber to the queue. What a
derived class does in its `idle` is left open: `Idle` is the type of its stages.
-/

namespace Sylar.Scheduling

open Foundation

/-! ## State -/

/-- How a fiber gives control back: its callback has returned or thrown, or the
fiber has yielded to `READY` or to `HOLD`. -/
inductive SwapOut
  | finished
  | threw
  | ready
  | hold
  deriving DecidableEq, Repr

def SwapOut.state : SwapOut → FiberState
  | .finished => .TERM
  | .threw => .EXCET
  | .ready => .READY
  | .hold => .EXEC

def SwapOut.ends : SwapOut → Bool
  | .finished | .threw => true
  | .ready | .hold => false

inductive Stage (Callback Idle : Type)
  | scanning
  /-- The scan is over and `tickle` is due. -/
  | tickling (ft : Option (FiberAnThread Callback))
  | scanned (ft : Option (FiberAnThread Callback))
  /-- Inside a fiber, which the worker has made itself if it took a callback. -/
  | running (fiber : FiberId) (thread : ThreadId) (fromCb : Bool)
  | returned (fiber : FiberId) (thread : ThreadId) (fromCb : Bool)
  /-- The active count is decremented, the fiber's state still to be read. -/
  | released (fiber : FiberId) (thread : ThreadId)
  | idling (stage : Idle)
  | idled
  | left

def Stage.hasLeft : Stage Callback Idle → Bool
  | .left => true
  | .scanning | .tickling _ | .scanned _ | .running .. | .returned .. | .released ..
  | .idling _ | .idled => false

/-- The local variables of `run`. What the worker has taken last is none of them:
it is kept to speak about runs. -/
structure Worker (Callback Idle : Type) where
  stage : Stage Callback Idle := .scanning
  tickelMe : Bool := false
  isActivate : Bool := false
  idleFiber : FiberState := .INIT
  lastTaken : Option (Work Callback) := none

structure Scheduler (Callback Idle : Type) (size : Nat) where
  fibers : List (FiberAnThread Callback) := []
  fiberState : FiberId → FiberState := fun _ => .INIT
  /-- The callback a fiber runs. -/
  fiberCb : FiberId → Option Callback := fun _ => none
  /-- The number of fibers created so far. -/
  created : Nat := 0
  activeThreadsCount : Int := 0
  idleThreadsCount : Int := 0
  autoStop : Bool := false
  stopping : Bool := false
  workers : Fin size → Worker Callback Idle := fun _ => {}

namespace Scheduler

variable {Callback Idle : Type} {size : Nat}

def setWorker (scheduler : Scheduler Callback Idle size) (w : Fin size)
    (worker : Worker Callback Idle) : Scheduler Callback Idle size :=
  { scheduler with workers := Function.update scheduler.workers w worker }

def setFiber (scheduler : Scheduler Callback Idle size) (fiber : FiberId)
    (state : FiberState) : Scheduler Callback Idle size :=
  { scheduler with fiberState := Function.update scheduler.fiberState fiber state }

/-! ## The scan -/

/-- The entry a scan takes, what it leaves, and whether it has passed over an
entry for another thread. -/
structure Scan (Callback : Type) where
  taken : Option (FiberAnThread Callback)
  rest : List (FiberAnThread Callback)
  passed : Bool

/-- A scan by a thread passes over the entries for other threads and over the
fibers that are executing. -/
def scan (fiberState : FiberId → FiberState) (thread : ThreadId) :
    List (FiberAnThread Callback) → Scan Callback
  | [] => { taken := none, rest := [], passed := false }
  | entry :: entries =>
      if entry.thread ≠ -1 ∧ entry.thread ≠ thread then
        let later := scan fiberState thread entries
        { later with rest := entry :: later.rest, passed := true }
      else if entry.executing fiberState then
        let later := scan fiberState thread entries
        { later with rest := entry :: later.rest }
      else { taken := some entry, rest := entries, passed := false }

/-! ## Steps -/

def schedulerNoLock (scheduler : Scheduler Callback Idle size)
    (entry : FiberAnThread Callback) : Scheduler Callback Idle size :=
  { scheduler with fibers := scheduler.fibers ++ [entry] }

def newFiber (scheduler : Scheduler Callback Idle size) (callback : Callback) :
    Scheduler Callback Idle size :=
  { scheduler with
    fiberState := Function.update scheduler.fiberState scheduler.created .INIT
    fiberCb := Function.update scheduler.fiberCb scheduler.created (some callback)
    created := scheduler.created + 1 }

def scanQueue (threadOf : Fin size → ThreadId)
    (scheduler : Scheduler Callback Idle size) (w : Fin size) :
    Scheduler Callback Idle size :=
  let worker := scheduler.workers w
  let found := scan scheduler.fiberState (threadOf w) scheduler.fibers
  let tickelMe := worker.tickelMe || found.passed
  let stage := if tickelMe then .tickling found.taken else .scanned found.taken
  match found.taken with
  | some entry =>
      { scheduler.setWorker w
          { worker with
            stage := stage
            tickelMe := tickelMe
            isActivate := true
            lastTaken := some entry.work } with
        fibers := found.rest
        activeThreadsCount := scheduler.activeThreadsCount + 1 }
  | none => scheduler.setWorker w { worker with stage := stage, tickelMe := tickelMe }

def swapIn (scheduler : Scheduler Callback Idle size) (w : Fin size)
    (fiber : FiberId) (thread : ThreadId) (fromCb : Bool) :
    Scheduler Callback Idle size :=
  (scheduler.setFiber fiber .EXEC).setWorker w
    { scheduler.workers w with stage := .running fiber thread fromCb }

def nothingToRun (enter : Idle) (scheduler : Scheduler Callback Idle size)
    (w : Fin size) : Scheduler Callback Idle size :=
  let worker := scheduler.workers w
  if worker.isActivate then
    { scheduler.setWorker w { worker with stage := .scanning } with
      activeThreadsCount := scheduler.activeThreadsCount - 1 }
  else if worker.idleFiber = .TERM then
    scheduler.setWorker w { worker with stage := .left }
  else
    { scheduler.setWorker w { worker with stage := .idling enter, idleFiber := .EXEC } with
      idleThreadsCount := scheduler.idleThreadsCount + 1 }

def resume (enter : Idle) (scheduler : Scheduler Callback Idle size) (w : Fin size)
    (ft : Option (FiberAnThread Callback)) : Scheduler Callback Idle size :=
  match ft with
  | none => scheduler.nothingToRun enter w
  | some entry =>
      match entry.work with
      | .fiber fiber =>
          if scheduler.fiberState fiber ≠ .TERM ∧ scheduler.fiberState fiber ≠ .EXCET then
            scheduler.swapIn w fiber entry.thread false
          else scheduler.nothingToRun enter w
      | .cb callback =>
          (scheduler.newFiber callback).swapIn w scheduler.created entry.thread true

def swapOut (scheduler : Scheduler Callback Idle size) (w : Fin size)
    (fiber : FiberId) (thread : ThreadId) (fromCb : Bool) (how : SwapOut) :
    Scheduler Callback Idle size :=
  (scheduler.setFiber fiber how.state).setWorker w
    { scheduler.workers w with stage := .returned fiber thread fromCb }

/-- The active count is decremented; after a callback `is_activate` is reset. -/
def release (scheduler : Scheduler Callback Idle size) (w : Fin size)
    (fiber : FiberId) (thread : ThreadId) (fromCb : Bool) :
    Scheduler Callback Idle size :=
  let worker := scheduler.workers w
  { scheduler.setWorker w
      { worker with
        stage := .released fiber thread
        isActivate := if fromCb then false else worker.isActivate } with
    activeThreadsCount := scheduler.activeThreadsCount - 1 }

/-- What becomes of a fiber that the worker is back from. The code compares its state with
one value after the other and then writes `HOLD`; here that is one step. -/
def settle (scheduler : Scheduler Callback Idle size) (w : Fin size)
    (fiber : FiberId) (thread : ThreadId) : Scheduler Callback Idle size :=
  let next := scheduler.setWorker w { scheduler.workers w with stage := .scanning }
  if scheduler.fiberState fiber = .READY then
    next.schedulerNoLock { work := .fiber fiber, thread := thread }
  else if scheduler.fiberState fiber ≠ .TERM ∧ scheduler.fiberState fiber ≠ .EXCET then
    next.setFiber fiber .HOLD
  else next

def leaveIdle (scheduler : Scheduler Callback Idle size) (w : Fin size)
    (ended : Bool) : Scheduler Callback Idle size :=
  let worker := scheduler.workers w
  scheduler.setWorker w
    { worker with
      stage := .idled
      idleFiber := if ended then .TERM else worker.idleFiber }

/-- After the idle fiber. Its state is `EXEC` or `TERM` here, and stays. -/
def afterIdle (scheduler : Scheduler Callback Idle size) (w : Fin size) :
    Scheduler Callback Idle size :=
  let worker := scheduler.workers w
  { scheduler.setWorker w
      { worker with
        stage := .scanning
        idleFiber :=
          if worker.idleFiber ≠ .EXEC ∧ worker.idleFiber ≠ .TERM then .HOLD
          else worker.idleFiber } with
    idleThreadsCount := scheduler.idleThreadsCount - 1 }

def isStopping (scheduler : Scheduler Callback Idle size) : Bool :=
  scheduler.autoStop && scheduler.stopping && scheduler.fibers.isEmpty &&
    decide (scheduler.activeThreadsCount = 0)

/-! ## Runs -/

inductive Label (Callback : Type) (size : Nat)
  | schedule (entry : FiberAnThread Callback)
  | newFiber (callback : Callback)
  | autoStop
  | stopping
  | scan (w : Fin size)
  | tickle (w : Fin size)
  | resume (w : Fin size)
  | swapOut (w : Fin size) (how : SwapOut)
  | release (w : Fin size)
  | settle (w : Fin size)
  | leaveIdle (w : Fin size) (ended : Bool)
  | afterIdle (w : Fin size)

/-- The workers' step function. A step is enabled at its stage only; `idle` may
give control back at any of its stages, for good or not. -/
def step (scheduler : Scheduler Callback Idle size)
    (threadOf : Fin size → ThreadId) (enter : Idle) :
    Label Callback size → Option (Scheduler Callback Idle size)
  | .schedule entry => some (scheduler.schedulerNoLock entry)
  | .newFiber callback => some (scheduler.newFiber callback)
  | .autoStop => some { scheduler with autoStop := true }
  | .stopping => some { scheduler with stopping := true }
  | .scan w =>
      match (scheduler.workers w).stage with
      | .scanning => some (scheduler.scanQueue threadOf w)
      | _ => none
  | .tickle w =>
      match (scheduler.workers w).stage with
      | .tickling ft =>
          some (scheduler.setWorker w { scheduler.workers w with stage := .scanned ft })
      | _ => none
  | .resume w =>
      match (scheduler.workers w).stage with
      | .scanned ft => some (scheduler.resume enter w ft)
      | _ => none
  | .swapOut w how =>
      match (scheduler.workers w).stage with
      | .running fiber thread fromCb => some (scheduler.swapOut w fiber thread fromCb how)
      | _ => none
  | .release w =>
      match (scheduler.workers w).stage with
      | .returned fiber thread fromCb => some (scheduler.release w fiber thread fromCb)
      | _ => none
  | .settle w =>
      match (scheduler.workers w).stage with
      | .released fiber thread => some (scheduler.settle w fiber thread)
      | _ => none
  | .leaveIdle w ended =>
      match (scheduler.workers w).stage with
      | .idling _ => some (scheduler.leaveIdle w ended)
      | _ => none
  | .afterIdle w =>
      match (scheduler.workers w).stage with
      | .idled => some (scheduler.afterIdle w)
      | _ => none

inductive Steps (threadOf : Fin size → ThreadId) (enter : Idle)
    (scheduler : Scheduler Callback Idle size) :
    Label Callback size → Scheduler Callback Idle size → Prop
  | schedule (entry : FiberAnThread Callback) :
      Steps threadOf enter scheduler (.schedule entry) (scheduler.schedulerNoLock entry)
  | newFiber (callback : Callback) :
      Steps threadOf enter scheduler (.newFiber callback) (scheduler.newFiber callback)
  | autoStop :
      Steps threadOf enter scheduler .autoStop { scheduler with autoStop := true }
  | stopping :
      Steps threadOf enter scheduler .stopping { scheduler with stopping := true }
  | scan {w : Fin size} (stageIs : (scheduler.workers w).stage = .scanning) :
      Steps threadOf enter scheduler (.scan w) (scheduler.scanQueue threadOf w)
  | tickle {w : Fin size} {ft : Option (FiberAnThread Callback)}
      (stageIs : (scheduler.workers w).stage = .tickling ft) :
      Steps threadOf enter scheduler (.tickle w)
        (scheduler.setWorker w { scheduler.workers w with stage := .scanned ft })
  | resume {w : Fin size} {ft : Option (FiberAnThread Callback)}
      (stageIs : (scheduler.workers w).stage = .scanned ft) :
      Steps threadOf enter scheduler (.resume w) (scheduler.resume enter w ft)
  | swapOut {w : Fin size} {fiber : FiberId} {thread : ThreadId} {fromCb : Bool}
      (how : SwapOut)
      (stageIs : (scheduler.workers w).stage = .running fiber thread fromCb) :
      Steps threadOf enter scheduler (.swapOut w how)
        (scheduler.swapOut w fiber thread fromCb how)
  | release {w : Fin size} {fiber : FiberId} {thread : ThreadId} {fromCb : Bool}
      (stageIs : (scheduler.workers w).stage = .returned fiber thread fromCb) :
      Steps threadOf enter scheduler (.release w)
        (scheduler.release w fiber thread fromCb)
  | settle {w : Fin size} {fiber : FiberId} {thread : ThreadId}
      (stageIs : (scheduler.workers w).stage = .released fiber thread) :
      Steps threadOf enter scheduler (.settle w) (scheduler.settle w fiber thread)
  | leaveIdle {w : Fin size} {stage : Idle} (ended : Bool)
      (stageIs : (scheduler.workers w).stage = .idling stage) :
      Steps threadOf enter scheduler (.leaveIdle w ended) (scheduler.leaveIdle w ended)
  | afterIdle {w : Fin size} (stageIs : (scheduler.workers w).stage = .idled) :
      Steps threadOf enter scheduler (.afterIdle w) (scheduler.afterIdle w)

theorem step_eq_some {threadOf : Fin size → ThreadId} {enter : Idle}
    {scheduler next : Scheduler Callback Idle size} {label : Label Callback size}
    (stepped : scheduler.step threadOf enter label = some next) :
    Steps threadOf enter scheduler label next := by
  cases label with
  | schedule entry => cases stepped; exact .schedule entry
  | newFiber callback => cases stepped; exact .newFiber callback
  | autoStop => cases stepped; exact .autoStop
  | stopping => cases stepped; exact .stopping
  | scan w =>
      cases stageIs : (scheduler.workers w).stage <;> simp only [step, stageIs] at stepped <;>
        cases stepped
      exact .scan stageIs
  | tickle w =>
      cases stageIs : (scheduler.workers w).stage <;> simp only [step, stageIs] at stepped <;>
        cases stepped
      exact .tickle stageIs
  | resume w =>
      cases stageIs : (scheduler.workers w).stage <;> simp only [step, stageIs] at stepped <;>
        cases stepped
      exact .resume stageIs
  | swapOut w how =>
      cases stageIs : (scheduler.workers w).stage <;> simp only [step, stageIs] at stepped <;>
        cases stepped
      exact .swapOut how stageIs
  | release w =>
      cases stageIs : (scheduler.workers w).stage <;> simp only [step, stageIs] at stepped <;>
        cases stepped
      exact .release stageIs
  | settle w =>
      cases stageIs : (scheduler.workers w).stage <;> simp only [step, stageIs] at stepped <;>
        cases stepped
      exact .settle stageIs
  | leaveIdle w ended =>
      cases stageIs : (scheduler.workers w).stage <;> simp only [step, stageIs] at stepped <;>
        cases stepped
      exact .leaveIdle ended stageIs
  | afterIdle w =>
      cases stageIs : (scheduler.workers w).stage <;> simp only [step, stageIs] at stepped <;>
        cases stepped
      exact .afterIdle stageIs

def machine (threadOf : Fin size → ThreadId) (enter : Idle) :
    Machine (Scheduler Callback Idle size) (Label Callback size) where
  step scheduler := scheduler.step threadOf enter

end Scheduler

end Sylar.Scheduling
