import Mathlib.Logic.Function.Basic
import Mathlib.Tactic.Common
import Sylar.Scheduling.Scheduler

/-! # The loop does not look at callbacks

To replace every callback of a scheduler by another one commutes with every step, so
callbacks may be numbered to tell them apart without the workers taking notice.
-/

namespace Sylar.Scheduling

open Foundation

variable {Callback Other Idle : Type} {size : Nat} (rename : Callback → Other)

/-! ## Renaming -/

def Work.map : Work Callback → Work Other
  | .cb callback => .cb (rename callback)
  | .fiber id => .fiber id

def FiberAnThread.map (entry : FiberAnThread Callback) : FiberAnThread Other where
  work := entry.work.map rename
  thread := entry.thread

def Stage.map : Stage Callback Idle → Stage Other Idle
  | .scanning => .scanning
  | .tickling ft => .tickling (ft.map (FiberAnThread.map rename))
  | .scanned ft => .scanned (ft.map (FiberAnThread.map rename))
  | .running fiber thread fromCb => .running fiber thread fromCb
  | .returned fiber thread fromCb => .returned fiber thread fromCb
  | .released fiber thread => .released fiber thread
  | .idling stage => .idling stage
  | .idled => .idled
  | .left => .left

def Worker.map (worker : Worker Callback Idle) : Worker Other Idle where
  stage := worker.stage.map rename
  tickelMe := worker.tickelMe
  isActivate := worker.isActivate
  idleFiber := worker.idleFiber
  lastTaken := worker.lastTaken.map (Work.map rename)

namespace Scheduler

def map (scheduler : Scheduler Callback Idle size) : Scheduler Other Idle size where
  fibers := scheduler.fibers.map (FiberAnThread.map rename)
  fiberState := scheduler.fiberState
  fiberCb fiber := (scheduler.fiberCb fiber).map rename
  created := scheduler.created
  activeThreadsCount := scheduler.activeThreadsCount
  idleThreadsCount := scheduler.idleThreadsCount
  autoStop := scheduler.autoStop
  stopping := scheduler.stopping
  workers w := (scheduler.workers w).map rename

def Label.map : Label Callback size → Label Other size
  | .schedule entry => .schedule (entry.map rename)
  | .newFiber callback => .newFiber (rename callback)
  | .autoStop => .autoStop
  | .stopping => .stopping
  | .scan w => .scan w
  | .tickle w => .tickle w
  | .resume w => .resume w
  | .swapOut w how => .swapOut w how
  | .release w => .release w
  | .settle w => .settle w
  | .leaveIdle w ended => .leaveIdle w ended
  | .afterIdle w => .afterIdle w

def Scan.map (found : Scan Callback) : Scan Other where
  taken := found.taken.map (FiberAnThread.map rename)
  rest := found.rest.map (FiberAnThread.map rename)
  passed := found.passed

/-! ## The operations -/

variable {rename} {scheduler : Scheduler Callback Idle size} {w : Fin size}

theorem map_workers (worker : Worker Callback Idle) :
    (fun v => (Function.update scheduler.workers w worker v).map rename) =
      Function.update (scheduler.map rename).workers w (worker.map rename) :=
  Function.comp_update (Worker.map rename) scheduler.workers w worker

theorem map_setWorker (worker : Worker Callback Idle) :
    (scheduler.setWorker w worker).map rename =
      (scheduler.map rename).setWorker w (worker.map rename) := by
  simp only [map, setWorker, map_workers]

theorem map_scanned (tickelMe : Bool) (ft : Option (FiberAnThread Callback)) :
    (if tickelMe then .tickling ft else .scanned ft : Stage Callback Idle).map rename =
      if tickelMe then .tickling (ft.map (FiberAnThread.map rename))
      else .scanned (ft.map (FiberAnThread.map rename)) := by
  cases tickelMe
  · rfl
  · rfl

theorem scan_map (fiberState : FiberId → FiberState) (thread : ThreadId)
    (entries : List (FiberAnThread Callback)) :
    scan fiberState thread (entries.map (FiberAnThread.map rename)) =
      (scan fiberState thread entries).map rename := by
  induction entries with
  | nil => rfl
  | cons entry entries induction =>
      have sameExecuting : (entry.map rename).executing fiberState =
          entry.executing fiberState := by
        rcases entry with ⟨callback | fiber, thread⟩ <;> rfl
      simp only [List.map_cons, scan, sameExecuting, induction]
      by_cases passed : entry.thread ≠ -1 ∧ entry.thread ≠ thread
      · have passedToo : (entry.map rename).thread ≠ -1 ∧
          (entry.map rename).thread ≠ thread := passed
        rw [if_pos passed, if_pos passedToo]
        rfl
      · have passedToo : ¬((entry.map rename).thread ≠ -1 ∧
          (entry.map rename).thread ≠ thread) := passed
        rw [if_neg passed, if_neg passedToo]
        split
        · rfl
        · rfl

theorem map_scanQueue (threadOf : Fin size → ThreadId) :
    (scheduler.scanQueue threadOf w).map rename =
      (scheduler.map rename).scanQueue threadOf w := by
  have sameScan : scan (scheduler.map rename).fiberState (threadOf w)
        (scheduler.map rename).fibers =
      (scan scheduler.fiberState (threadOf w) scheduler.fibers).map rename :=
    scan_map ..
  have sameFlag : ((scheduler.map rename).workers w).tickelMe =
    (scheduler.workers w).tickelMe := rfl
  simp only [scanQueue, sameScan, sameFlag]
  generalize scan scheduler.fiberState (threadOf w) scheduler.fibers = found
  rcases found with ⟨taken, rest, passed⟩
  cases taken with
  | none =>
      simp only [Scan.map, Option.map_none, map_setWorker, Worker.map, map_scanned]
      rfl
  | some entry =>
      simp only [Scan.map, Option.map_some, map, setWorker, map_workers]
      simp only [Worker.map, map_scanned]
      rfl

theorem map_nothingToRun (enter : Idle) :
    (scheduler.nothingToRun enter w).map rename =
      (scheduler.map rename).nothingToRun enter w := by
  have sameWorker : (scheduler.map rename).workers w =
    (scheduler.workers w).map rename := rfl
  simp only [nothingToRun, sameWorker, Worker.map]
  split
  · simp only [map, setWorker, map_workers]
    rfl
  · split
    · simp only [map, setWorker, map_workers]
      rfl
    · simp only [map, setWorker, map_workers]
      rfl

theorem map_newFiber (callback : Callback) :
    (scheduler.newFiber callback).map rename =
      (scheduler.map rename).newFiber (rename callback) := by
  have cbs : (fun fiber => (Function.update scheduler.fiberCb scheduler.created
        (some callback) fiber).map rename) =
      Function.update (scheduler.map rename).fiberCb scheduler.created
        (some (rename callback)) :=
    Function.comp_update (Option.map rename) scheduler.fiberCb scheduler.created
      (some callback)
  simp only [newFiber, map, cbs]

theorem map_swapIn (fiber : FiberId) (thread : ThreadId) (fromCb : Bool) :
    (scheduler.swapIn w fiber thread fromCb).map rename =
      (scheduler.map rename).swapIn w fiber thread fromCb := by
  simp only [swapIn, setFiber, map, setWorker, map_workers]
  rfl

theorem map_resume (enter : Idle) (ft : Option (FiberAnThread Callback)) :
    (scheduler.resume enter w ft).map rename =
      (scheduler.map rename).resume enter w (ft.map (FiberAnThread.map rename)) := by
  rcases ft with _ | ⟨callback | fiber, thread⟩
  · exact map_nothingToRun enter
  · simp only [resume, map_swapIn, map_newFiber]
    rfl
  · by_cases live : scheduler.fiberState fiber ≠ .TERM ∧ scheduler.fiberState fiber ≠ .EXCET
    · have liveToo : (scheduler.map rename).fiberState fiber ≠ .TERM ∧
        (scheduler.map rename).fiberState fiber ≠ .EXCET := live
      simp only [resume, Option.map_some, FiberAnThread.map, Work.map, if_pos live,
        if_pos liveToo]
      exact map_swapIn fiber thread false
    · have deadToo : ¬((scheduler.map rename).fiberState fiber ≠ .TERM ∧
        (scheduler.map rename).fiberState fiber ≠ .EXCET) := live
      simp only [resume, Option.map_some, FiberAnThread.map, Work.map, if_neg live,
        if_neg deadToo]
      exact map_nothingToRun enter

theorem map_settle (fiber : FiberId) (thread : ThreadId) :
    (scheduler.settle w fiber thread).map rename =
      (scheduler.map rename).settle w fiber thread := by
  by_cases ready : scheduler.fiberState fiber = .READY
  · have readyToo : (scheduler.map rename).fiberState fiber = .READY := ready
    simp only [settle, if_pos ready, if_pos readyToo]
    simp only [schedulerNoLock, map, setWorker, map_workers, List.map_append]
    rfl
  · have notReady : ¬(scheduler.map rename).fiberState fiber = .READY := ready
    simp only [settle, if_neg ready, if_neg notReady]
    by_cases live : scheduler.fiberState fiber ≠ .TERM ∧ scheduler.fiberState fiber ≠ .EXCET
    · have liveToo : (scheduler.map rename).fiberState fiber ≠ .TERM ∧
        (scheduler.map rename).fiberState fiber ≠ .EXCET := live
      rw [if_pos live, if_pos liveToo]
      simp only [setFiber, map, setWorker, map_workers]
      rfl
    · have deadToo : ¬((scheduler.map rename).fiberState fiber ≠ .TERM ∧
        (scheduler.map rename).fiberState fiber ≠ .EXCET) := live
      rw [if_neg live, if_neg deadToo]
      exact map_setWorker _

theorem map_swapOut (fiber : FiberId) (thread : ThreadId) (fromCb : Bool)
    (how : SwapOut) :
    (scheduler.swapOut w fiber thread fromCb how).map rename =
      (scheduler.map rename).swapOut w fiber thread fromCb how := by
  simp only [swapOut, setFiber, map, setWorker, map_workers]
  rfl

theorem map_leaveIdle (ended : Bool) :
    (scheduler.leaveIdle w ended).map rename =
      (scheduler.map rename).leaveIdle w ended := by
  simp only [leaveIdle, map, setWorker, map_workers]
  rfl

theorem map_release (fiber : FiberId) (thread : ThreadId) (fromCb : Bool) :
    (scheduler.release w fiber thread fromCb).map rename =
      (scheduler.map rename).release w fiber thread fromCb := by
  simp only [release, map, setWorker, map_workers]
  rfl

theorem map_afterIdle :
    (scheduler.afterIdle w).map rename = (scheduler.map rename).afterIdle w := by
  simp only [afterIdle, map, setWorker, map_workers]
  rfl

theorem step_map (threadOf : Fin size → ThreadId) (enter : Idle)
    (label : Label Callback size) :
    (scheduler.map rename).step threadOf enter (label.map rename) =
      (scheduler.step threadOf enter label).map (map rename) := by
  have stage : ∀ w, ((scheduler.map rename).workers w).stage =
    (scheduler.workers w).stage.map rename := fun _ => rfl
  cases label with
  | schedule entry =>
      simp only [Label.map, step, Option.map_some, schedulerNoLock, map, List.map_append]
      rfl
  | newFiber callback => exact congrArg some (map_newFiber callback).symm
  | autoStop | stopping => rfl
  | scan w =>
      simp only [Label.map, step, stage]
      cases (scheduler.workers w).stage with
      | scanning => exact congrArg some (map_scanQueue threadOf).symm
      | tickling | scanned | running | returned | released | idling | idled | left => rfl
  | tickle w =>
      simp only [Label.map, step, stage]
      cases (scheduler.workers w).stage with
      | tickling ft =>
          exact congrArg some
            (map_setWorker { scheduler.workers w with stage := .scanned ft }).symm
      | scanning | scanned | running | returned | released | idling | idled | left => rfl
  | resume w =>
      simp only [Label.map, step, stage]
      cases (scheduler.workers w).stage with
      | scanned ft => exact congrArg some (map_resume enter ft).symm
      | scanning | tickling | running | returned | released | idling | idled | left => rfl
  | swapOut w how =>
      simp only [Label.map, step, stage]
      cases (scheduler.workers w).stage with
      | running fiber thread fromCb =>
          exact congrArg some (map_swapOut fiber thread fromCb how).symm
      | scanning | tickling | scanned | returned | released | idling | idled | left => rfl
  | release w =>
      simp only [Label.map, step, stage]
      cases (scheduler.workers w).stage with
      | returned fiber thread fromCb =>
          exact congrArg some (map_release fiber thread fromCb).symm
      | scanning | tickling | scanned | running | released | idling | idled | left => rfl
  | settle w =>
      simp only [Label.map, step, stage]
      cases (scheduler.workers w).stage with
      | released fiber thread => exact congrArg some (map_settle fiber thread).symm
      | scanning | tickling | scanned | running | returned | idling | idled | left => rfl
  | leaveIdle w ended =>
      simp only [Label.map, step, stage]
      cases (scheduler.workers w).stage with
      | idling => exact congrArg some (map_leaveIdle ended).symm
      | scanning | tickling | scanned | running | returned | released | idled | left => rfl
  | afterIdle w =>
      simp only [Label.map, step, stage]
      cases (scheduler.workers w).stage with
      | idled => exact congrArg some map_afterIdle.symm
      | scanning | tickling | scanned | running | returned | released | idling | left => rfl

theorem Label.map_map {Third : Type} (again : Other → Third)
    (label : Label Callback size) :
    (label.map rename).map again = label.map (again ∘ rename) := by
  rcases label with ⟨callback | fiber, thread⟩ | _ | _ | _ | _ | _ | _ | _ | _ | _ | _ | _ <;>
    rfl

theorem Label.map_id (label : Label Callback size) : label.map id = label := by
  rcases label with ⟨callback | fiber, thread⟩ | _ | _ | _ | _ | _ | _ | _ | _ | _ | _ | _ <;>
    rfl

end Scheduler

end Sylar.Scheduling
