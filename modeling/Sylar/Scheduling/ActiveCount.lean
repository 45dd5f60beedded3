import Mathlib.Data.List.FinRange
import Mathlib.Tactic.Common
import Sylar.Foundation.Counting
import Sylar.Scheduling.Moves

/-! # Counting active workers

`active_threads_count_` is meant to be the number of workers that handle an entry
of the queue. A worker that has taken a fiber keeps `is_activate` set, so its
next empty scan decrements the count once more; nothing else makes it drift.
-/

namespace Sylar.Scheduling

open Foundation

variable {Callback Idle : Type} {size : Nat}

def Stage.handling : Stage Callback Idle → Bool
  | .tickling ft | .scanned ft => ft.isSome
  | .running .. | .returned .. => true
  | .scanning | .released .. | .idling _ | .idled | .left => false

namespace Worker

def tookFiber (worker : Worker Callback Idle) : Bool :=
  match worker.lastTaken with
  | some (.fiber _) => true
  | some (.cb _) | none => false

def load (worker : Worker Callback Idle) : Nat := worker.stage.handling.toNat

/-- `is_activate` tells what the worker has in hand or, with nothing in hand,
whether it has taken a fiber last. -/
def Tracked (worker : Worker Callback Idle) : Prop :=
  match worker.stage with
  | .tickling (some entry) | .scanned (some entry) =>
      worker.isActivate = true ∧ worker.lastTaken = some entry.work
  | .running _ _ fromCb | .returned _ _ fromCb =>
      worker.isActivate = true ∧ worker.tookFiber = !fromCb
  | .tickling none | .scanned none | .scanning | .released .. | .idling _ | .idled
  | .left => worker.isActivate = worker.tookFiber

end Worker

namespace Scheduler

variable {scheduler next : Scheduler Callback Idle size}

def handlingCount (scheduler : Scheduler Callback Idle size) : Nat :=
  total Worker.load scheduler.workers (List.finRange size)

def drift (scheduler : Scheduler Callback Idle size) : Int :=
  scheduler.activeThreadsCount - scheduler.handlingCount

/-- The count is the number of workers that handle an entry; hence it is not
negative, and `stopping()` is not true while a task is in hand nor kept false by
the count once none is. -/
structure ActiveCounted (scheduler : Scheduler Callback Idle size) : Prop where
  counted : scheduler.activeThreadsCount = scheduler.handlingCount
  nonneg : 0 ≤ scheduler.activeThreadsCount
  sound : scheduler.isStopping = true →
    ∀ w, (scheduler.workers w).stage.handling = false
  complete : scheduler.autoStop = true → scheduler.stopping = true →
    scheduler.fibers = [] → (∀ w, (scheduler.workers w).stage.handling = false) →
    scheduler.isStopping = true

/-- No worker comes out of a scan with nothing after it has taken a fiber last. -/
def Balanced (scheduler : Scheduler Callback Idle size) (label : Label Callback size) :
    Prop :=
  ∀ w, label = .resume w → (scheduler.workers w).stage = .scanned none →
    (scheduler.workers w).tookFiber = false

theorem handlingCount_eq_zero_iff :
    scheduler.handlingCount = 0 ↔
      ∀ w, (scheduler.workers w).stage.handling = false := by
  rw [handlingCount, total_eq_zero_iff]
  simp [Worker.load]

theorem activeCounted_iff : scheduler.ActiveCounted ↔ scheduler.drift = 0 := by
  rw [drift, sub_eq_zero]
  refine ⟨ActiveCounted.counted, fun counted => ⟨counted, ?_, ?_, ?_⟩⟩
  · rw [counted]
    exact Int.natCast_nonneg _
  · intro stops
    simp only [isStopping, Bool.and_eq_true, decide_eq_true_eq] at stops
    rw [← handlingCount_eq_zero_iff]
    omega
  · intro autoStop stopping empty idle
    have none := handlingCount_eq_zero_iff.mpr idle
    simp [isStopping, autoStop, stopping, empty, counted, none]

/-! ## One worker moves -/

def AllTracked (scheduler : Scheduler Callback Idle size) : Prop :=
  ∀ w, (scheduler.workers w).Tracked

def Moved (scheduler next : Scheduler Callback Idle size) (w : Fin size)
    (excess : Int) : Prop :=
  ∃ worker, next.workers = Function.update scheduler.workers w worker ∧
    worker.Tracked ∧
    next.activeThreadsCount =
      scheduler.activeThreadsCount + worker.load - (scheduler.workers w).load + excess

theorem Moved.drift_eq {w : Fin size} {excess : Int}
    (moved : Moved scheduler next w excess) : next.drift = scheduler.drift + excess := by
  rcases moved with ⟨worker, workersIs, _, countIs⟩
  have exchanged : next.handlingCount + (scheduler.workers w).load =
      scheduler.handlingCount + worker.load := total_finRange_update workersIs
  rw [drift, drift, countIs]
  omega

theorem Moved.allTracked {w : Fin size} {excess : Int}
    (moved : Moved scheduler next w excess) (tracked : scheduler.AllTracked) :
    next.AllTracked := by
  rcases moved with ⟨worker, workersIs, workerTracked, _⟩
  rw [AllTracked, workersIs]
  exact (Function.forall_update_iff _ fun _ => Worker.Tracked).mpr
    ⟨workerTracked, fun v _ => tracked v⟩

variable {threadOf : Fin size → ThreadId} {enter : Idle} {w : Fin size}

theorem scanQueue_moved (tracked : scheduler.AllTracked)
    (stageIs : (scheduler.workers w).stage = .scanning) :
    Moved scheduler (scheduler.scanQueue threadOf w) w 0 := by
  have before := tracked w
  have noLoad : (scheduler.workers w).load = 0 := by
    simp [Worker.load, stageIs, Stage.handling]
  simp only [Worker.Tracked, stageIs] at before
  simp only [scanQueue]
  generalize scan scheduler.fiberState (threadOf w) scheduler.fibers = found
  rcases found with ⟨taken, rest, passed⟩
  cases taken with
  | none =>
      refine ⟨_, rfl, ?_, ?_⟩
      · cases (scheduler.workers w).tickelMe || passed <;> exact before
      · cases (scheduler.workers w).tickelMe || passed <;>
          simp [Worker.load, Stage.handling, setWorker, stageIs]
  | some entry =>
      refine ⟨_, rfl, ?_, ?_⟩
      · cases (scheduler.workers w).tickelMe || passed <;> exact ⟨rfl, rfl⟩
      · cases (scheduler.workers w).tickelMe || passed <;>
          simp [Worker.load, Stage.handling, stageIs]

theorem nothingToRun_moved (enter : Idle) (tracked : scheduler.AllTracked)
    {ft : Option (FiberAnThread Callback)}
    (stageIs : (scheduler.workers w).stage = .scanned ft)
    (noCb : ∀ entry, ft = some entry → (scheduler.workers w).tookFiber = true) :
    Moved scheduler (scheduler.nothingToRun enter w) w
      (if ft = none ∧ (scheduler.workers w).tookFiber = true then -1 else 0) := by
  have before := tracked w
  rw [nothingToRun]
  by_cases active : (scheduler.workers w).isActivate = true
  · rw [if_pos active]
    have took : (scheduler.workers w).tookFiber = true := by
      cases ft with
      | none =>
          simp only [Worker.Tracked, stageIs] at before
          exact before.symm.trans active
      | some entry => exact noCb entry rfl
    refine ⟨_, rfl, active.trans took.symm, ?_⟩
    cases ft with
    | none => simp [Worker.load, Stage.handling, stageIs, took, Int.sub_eq_add_neg]
    | some entry => simp [Worker.load, Stage.handling, stageIs]
  · rw [if_neg active]
    have nothing : ft = none := by
      cases ft with
      | none => rfl
      | some entry =>
          simp only [Worker.Tracked, stageIs] at before
          exact absurd before.1 active
    subst nothing
    simp only [Worker.Tracked, stageIs] at before
    have notTook : (scheduler.workers w).tookFiber = false := by
      rw [← before]
      simpa using active
    by_cases terminated : (scheduler.workers w).idleFiber = .TERM
    · rw [if_pos terminated]
      refine ⟨_, rfl, before, ?_⟩
      simp [Worker.load, Stage.handling, setWorker, stageIs, notTook]
    · rw [if_neg terminated]
      refine ⟨_, rfl, before, ?_⟩
      simp [Worker.load, Stage.handling, setWorker, stageIs, notTook]

def excess (scheduler : Scheduler Callback Idle size) :
    Label Callback size → Int
  | .resume w =>
      match (scheduler.workers w).stage with
      | .scanned none => if (scheduler.workers w).tookFiber then -1 else 0
      | _ => 0
  | _ => 0

theorem excess_eq_zero_iff {label : Label Callback size} :
    scheduler.excess label = 0 ↔ scheduler.Balanced label := by
  constructor
  · rintro balanced w rfl stageIs
    simpa [excess, stageIs] using balanced
  · intro balanced
    simp only [excess]
    split
    · rename_i w
      split
      · rename_i stageIs
        simp [balanced w rfl stageIs]
      · rfl
    · rfl

theorem resume_moved (tracked : scheduler.AllTracked)
    {ft : Option (FiberAnThread Callback)}
    (stageIs : (scheduler.workers w).stage = .scanned ft) :
    Moved scheduler (scheduler.resume enter w ft) w (scheduler.excess (.resume w)) := by
  have before := tracked w
  cases ft with
  | none =>
      have moved := nothingToRun_moved enter tracked stageIs (by simp)
      simpa [resume, excess, stageIs] using moved
  | some entry =>
      simp only [Worker.Tracked, stageIs] at before
      have noExcess : scheduler.excess (.resume w) = 0 := by simp [excess, stageIs]
      rw [noExcess, resume]
      cases workIs : entry.work with
      | fiber fiber =>
          have took : (scheduler.workers w).tookFiber = true := by
            simp [Worker.tookFiber, before.2, workIs]
          simp only
          split
          · refine ⟨_, rfl, ⟨before.1, took⟩, ?_⟩
            simp [Worker.load, Stage.handling, setWorker, setFiber, swapIn, stageIs]
          · have moved := nothingToRun_moved enter tracked stageIs
              fun _ _ => took
            simpa using moved
      | cb callback =>
          have notTook : (scheduler.workers w).tookFiber = false := by
            simp [Worker.tookFiber, before.2, workIs]
          refine ⟨_, rfl, ⟨before.1, notTook⟩, ?_⟩
          simp [Worker.load, Stage.handling, setWorker, setFiber, swapIn, newFiber,
            stageIs]

theorem swapOut_moved (tracked : scheduler.AllTracked) {fiber : FiberId}
    {thread : ThreadId} {fromCb : Bool} (how : SwapOut)
    (stageIs : (scheduler.workers w).stage = .running fiber thread fromCb) :
    Moved scheduler (scheduler.swapOut w fiber thread fromCb how) w 0 := by
  have before := tracked w
  simp only [Worker.Tracked, stageIs] at before
  refine ⟨_, rfl, before, ?_⟩
  simp [Worker.load, Stage.handling, setWorker, setFiber, swapOut, stageIs]

theorem release_moved (tracked : scheduler.AllTracked) {fiber : FiberId}
    {thread : ThreadId} {fromCb : Bool}
    (stageIs : (scheduler.workers w).stage = .returned fiber thread fromCb) :
    Moved scheduler (scheduler.release w fiber thread fromCb) w 0 := by
  have before := tracked w
  simp only [Worker.Tracked, stageIs] at before
  refine ⟨_, rfl, ?_, ?_⟩
  · cases fromCb with
    | true => exact before.2.symm
    | false => exact before.1.trans before.2.symm
  · simp [Worker.load, Stage.handling, release, stageIs]

theorem settle_moved (tracked : scheduler.AllTracked) {fiber : FiberId}
    {thread : ThreadId} (stageIs : (scheduler.workers w).stage = .released fiber thread) :
    Moved scheduler (scheduler.settle w fiber thread) w 0 := by
  have before := tracked w
  simp only [Worker.Tracked, stageIs] at before
  rcases settle_frame scheduler w fiber thread with ⟨_, _, nextIs⟩
  rw [nextIs]
  refine ⟨_, rfl, before, ?_⟩
  simp [Worker.load, Stage.handling, setWorker, stageIs]

theorem idle_moved {stage : Idle} (tracked : scheduler.AllTracked) (ended : Bool)
    (stageIs : (scheduler.workers w).stage = .idling stage) :
    Moved scheduler (scheduler.leaveIdle w ended) w 0 := by
  have before := tracked w
  simp only [Worker.Tracked, stageIs] at before
  refine ⟨_, rfl, before, ?_⟩
  simp [Worker.load, Stage.handling, leaveIdle, setWorker, stageIs]

theorem afterIdle_moved (tracked : scheduler.AllTracked)
    (stageIs : (scheduler.workers w).stage = .idled) :
    Moved scheduler (scheduler.afterIdle w) w 0 := by
  have before := tracked w
  simp only [Worker.Tracked, stageIs] at before
  refine ⟨_, rfl, before, ?_⟩
  simp [Worker.load, Stage.handling, afterIdle, setWorker, stageIs]

theorem tickle_moved (tracked : scheduler.AllTracked)
    {ft : Option (FiberAnThread Callback)}
    (stageIs : (scheduler.workers w).stage = .tickling ft) :
    Moved scheduler
      (scheduler.setWorker w { scheduler.workers w with stage := .scanned ft }) w 0 := by
  have before := tracked w
  refine ⟨_, rfl, ?_, ?_⟩
  · simp only [Worker.Tracked, stageIs] at before
    cases ft <;> exact before
  · simp [Worker.load, Stage.handling, setWorker, stageIs]

theorem Moved.tracks {w : Fin size} {excess : Int}
    (moved : Moved scheduler next w excess) (tracked : scheduler.AllTracked) :
    next.AllTracked ∧ next.drift = scheduler.drift + excess :=
  ⟨moved.allTracked tracked, moved.drift_eq⟩

theorem Steps.tracks {label : Label Callback size}
    (steps : Steps threadOf enter scheduler label next)
    (tracked : scheduler.AllTracked) :
    next.AllTracked ∧ next.drift = scheduler.drift + scheduler.excess label := by
  cases steps with
  | schedule | newFiber | autoStop | stopping =>
      exact ⟨tracked, (Int.add_zero _).symm⟩
  | scan stageIs => exact (scanQueue_moved tracked stageIs).tracks tracked
  | tickle stageIs => exact (tickle_moved tracked stageIs).tracks tracked
  | resume stageIs => exact (resume_moved tracked stageIs).tracks tracked
  | swapOut how stageIs => exact (swapOut_moved tracked how stageIs).tracks tracked
  | release stageIs => exact (release_moved tracked stageIs).tracks tracked
  | settle stageIs => exact (settle_moved tracked stageIs).tracks tracked
  | leaveIdle ended stageIs => exact (idle_moved tracked ended stageIs).tracks tracked
  | afterIdle stageIs => exact (afterIdle_moved tracked stageIs).tracks tracked

/-! ## Runs -/

theorem new_tracked : ({} : Scheduler Callback Idle size).AllTracked := fun _ => rfl

theorem new_activeCounted : ({} : Scheduler Callback Idle size).ActiveCounted := by
  have none : ({} : Scheduler Callback Idle size).handlingCount = 0 :=
    handlingCount_eq_zero_iff.mpr fun _ => rfl
  rw [activeCounted_iff, drift, none]
  rfl

/-- The count is right in every state of a run exactly if in no step of it a
worker that has taken a fiber last comes out of a scan with nothing. -/
theorem activeThreadsCount_counts (threadOf : Fin size → ThreadId) (enter : Idle)
    (labels : List (Label Callback size)) :
    (machine threadOf enter).Always ActiveCounted {} labels ↔
      (machine threadOf enter).StepsMeet Balanced {} labels := by
  refine Machine.always_iff_stepsMeet AllTracked ?_ ?_ new_tracked new_activeCounted
    labels
  · intro scheduler label next tracked _ _ stepped
    exact ((step_eq_some stepped).tracks tracked).1
  · intro scheduler label next tracked counted stepped
    rw [activeCounted_iff] at counted ⊢
    rw [((step_eq_some stepped).tracks tracked).2, counted, Int.zero_add,
      excess_eq_zero_iff]

/-- One worker that runs a fiber to its end and then finds the queue empty. -/
theorem activeThreadsCount_counts_fails :
    ¬(machine (fun _ => 1) () : Machine (Scheduler Unit Unit 1) _).Always ActiveCounted {}
      [.newFiber (), .schedule { work := .fiber 0 }, .scan 0, .resume 0,
       .swapOut 0 .finished, .release 0, .settle 0, .scan 0, .resume 0] := by
  intro always
  have counted := (always.last rfl).nonneg
  exact absurd counted (by decide)

end Scheduler

end Sylar.Scheduling
