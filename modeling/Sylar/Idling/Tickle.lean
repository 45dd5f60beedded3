import Mathlib.Tactic.Common
import Sylar.Idling.Manager
import Sylar.Scheduling.Custody

/-! # Waking a worker

A byte in the pipe is meant to wake a worker from `epoll_wait` when there is
something to do. `tickle` returns at once when `hasIdleThreads()` holds, which it
always does. A task is therefore picked up without delay only if some worker is on
its way to the queue when the task is handed in.
-/

namespace Sylar.Idling

open Foundation Scheduling

variable {Callback : Type} {size : Nat}

/-! ## On the way to the queue -/

def willScan (worker : Worker Callback (Idle Callback)) : Bool :=
  match worker.stage with
  | .tickling _ | .scanned _ => worker.isActivate
  | .scanning | .running .. | .returned .. | .released .. | .idled => true
  | .idling stage => stage.awake
  | .left => false

def executes (stage : Stage Callback (Idle Callback)) : Option FiberId :=
  match stage with
  | .running fiber .. | .returned fiber .. | .released fiber _ => some fiber
  | .scanning | .tickling _ | .scanned _ | .idling _ | .idled | .left => none

variable {scheduler next : Scheduler Callback (Idle Callback) size}

/-- An unpinned entry has a worker on its way to the queue, and if the scan would
pass over it because it is executing, the worker that executes it. -/
structure Watched (scheduler : Scheduler Callback (Idle Callback) size) : Prop where
  onTheWay : (∃ entry ∈ scheduler.fibers, entry.thread = -1) →
    ∃ w, willScan (scheduler.workers w) = true
  inHand : ∀ entry ∈ scheduler.fibers, entry.thread = -1 →
    ∀ fiber, entry.work = .fiber fiber → scheduler.fiberState fiber = .EXEC →
      ∃ w, executes (scheduler.workers w).stage = some fiber

theorem executes_willScan {worker : Worker Callback (Idle Callback)} {fiber : FiberId}
    (inside : executes worker.stage = some fiber) : willScan worker = true := by
  simp only [executes] at inside
  rw [willScan]
  split at inside <;> simp_all

theorem Watched.moved {w : Fin size} {worker : Worker Callback (Idle Callback)}
    (watched : Watched scheduler)
    (workersIs : next.workers = Function.update scheduler.workers w worker)
    (scans : willScan (scheduler.workers w) = true → willScan worker = true)
    (queue : ∀ entry ∈ next.fibers, entry ∈ scheduler.fibers ∨
      (willScan worker = true ∧ entry.executing next.fiberState = false))
    (states : ∀ fiber, next.fiberState fiber = .EXEC →
      executes worker.stage = some fiber ∨
        (scheduler.fiberState fiber = .EXEC ∧
          executes (scheduler.workers w).stage ≠ some fiber)) : Watched next := by
  constructor
  · intro given
    rcases given with ⟨entry, member, unpinned⟩
    rcases queue entry member with old | ⟨back, -⟩
    · rcases watched.onTheWay ⟨entry, old, unpinned⟩ with ⟨v, scansV⟩
      refine ⟨v, ?_⟩
      rw [workersIs]
      by_cases here : v = w
      · subst here
        rw [Function.update_self]
        exact scans scansV
      · rw [Function.update_of_ne here]
        exact scansV
    · exact ⟨w, by rw [workersIs, Function.update_self]; exact back⟩
  · intro entry member unpinned fiber workIs executing
    rcases states fiber executing with inside | ⟨before, outside⟩
    · exact ⟨w, by rw [workersIs, Function.update_self]; exact inside⟩
    · rcases queue entry member with old | ⟨-, notExecuting⟩
      · rcases watched.inHand entry old unpinned fiber workIs before with ⟨v, inside⟩
        have other : v ≠ w := by
          intro same
          subst same
          exact outside inside
        exact ⟨v, by rw [workersIs, Function.update_of_ne other]; exact inside⟩
      · simp [FiberAnThread.executing, workIs, executing] at notExecuting

theorem Watched.scan {threadOf : Fin size → ThreadId} {w : Fin size}
    (watched : Watched scheduler)
    (stageIs : (scheduler.workers w).stage = .scanning) :
    Watched (scheduler.scanQueue threadOf w) := by
  have executesNone : executes (scheduler.workers w).stage = none := by rw [stageIs]; rfl
  have others : ∀ v fiber, executes (scheduler.workers v).stage = some fiber → v ≠ w := by
    rintro v fiber inside rfl
    rw [executesNone] at inside
    cases inside
  rcases Scheduler.scanQueue_workers with ⟨worker, workersIs, stageAfter, -, -, active⟩
  cases takenIs : (Scheduler.found threadOf scheduler w).taken with
  | some entry =>
      apply watched.moved workersIs
      · rcases stageAfter with stageAfter | stageAfter <;>
          simp [willScan, stageAfter, active entry takenIs]
      · intro other member
        rw [Scheduler.scanQueue_fibers] at member
        exact Or.inl (Scheduler.mem_of_found member)
      · intro fiber executing
        rw [Scheduler.scanQueue_fiberState] at executing
        exact Or.inr ⟨executing, by simp [executesNone]⟩
  | none =>
      have kept : (scheduler.scanQueue threadOf w).fibers = scheduler.fibers := by
        rw [Scheduler.scanQueue_fibers, Scheduler.found]
        exact Scheduler.scan_none takenIs
      constructor
      · rw [kept]
        intro given
        rcases given with ⟨entry, member, unpinned⟩
        rcases Scheduler.scan_none_iff.mp takenIs entry member with ⟨pinned, -⟩ | executing
        · exact absurd unpinned pinned
        · rw [FiberAnThread.executing] at executing
          cases workIs : entry.work with
          | cb callback => simp [workIs] at executing
          | fiber fiber =>
              simp only [workIs, decide_eq_true_eq] at executing
              rcases watched.inHand entry member unpinned fiber workIs executing with
                ⟨v, inside⟩
              refine ⟨v, ?_⟩
              rw [workersIs, Function.update_of_ne (others v fiber inside)]
              exact executes_willScan inside
      · rw [kept, Scheduler.scanQueue_fiberState]
        intro entry member unpinned fiber workIs executing
        rcases watched.inHand entry member unpinned fiber workIs executing with ⟨v, inside⟩
        refine ⟨v, ?_⟩
        rw [workersIs, Function.update_of_ne (others v fiber inside)]
        exact inside

theorem Watched.nothingToRun {w : Fin size} {ft : Option (FiberAnThread Callback)}
    (watched : Watched scheduler)
    (stageIs : (scheduler.workers w).stage = .scanned ft) :
    Watched (scheduler.nothingToRun .asking w) := by
  have outside : ∀ fiber, scheduler.fiberState fiber = .EXEC →
      scheduler.fiberState fiber = .EXEC ∧
        executes (scheduler.workers w).stage ≠ some fiber := by
    intro fiber executing
    exact ⟨executing, by simp [executes, stageIs]⟩
  simp only [Scheduler.nothingToRun]
  split
  · exact watched.moved rfl (fun _ => rfl) (fun _ => Or.inl)
      fun fiber executing => Or.inr (outside fiber executing)
  · rename_i inactive
    have asleep : ∀ {worker : Worker Callback (Idle Callback)},
        willScan (scheduler.workers w) = true → willScan worker = true := by
      intro worker scans
      exact absurd (by simpa [willScan, stageIs] using scans) inactive
    split
    · exact watched.moved rfl asleep (fun _ => Or.inl)
        fun fiber executing => Or.inr (outside fiber executing)
    · exact watched.moved rfl asleep (fun _ => Or.inl)
        fun fiber executing => Or.inr (outside fiber executing)

theorem Watched.resume {w : Fin size} {ft : Option (FiberAnThread Callback)}
    (watched : Watched scheduler)
    (stageIs : (scheduler.workers w).stage = .scanned ft) :
    Watched (scheduler.resume .asking w ft) := by
  rcases ft with _ | ⟨callback | fiber, thread⟩
  · exact watched.nothingToRun stageIs
  · refine watched.moved rfl (fun _ => rfl) (fun _ => Or.inl) ?_
    intro other executing
    by_cases same : other = scheduler.created
    · exact Or.inl (congrArg some same.symm)
    · refine Or.inr ⟨?_, by simp [executes, stageIs]⟩
      simpa [Scheduler.resume, Scheduler.newFiber, Scheduler.swapIn, Scheduler.setFiber,
        Scheduler.setWorker, same] using executing
  · simp only [Scheduler.resume]
    split
    · refine watched.moved rfl (fun _ => rfl) (fun _ => Or.inl) ?_
      intro other executing
      by_cases same : other = fiber
      · exact Or.inl (congrArg some same.symm)
      · refine Or.inr ⟨?_, by simp [executes, stageIs]⟩
        simpa [Scheduler.swapIn, Scheduler.setFiber, Scheduler.setWorker, same]
          using executing
    · exact watched.nothingToRun stageIs

/-- A fiber goes back to the queue in state `READY` only. -/
theorem Watched.settle {w : Fin size} {fiber : FiberId} {thread : ThreadId}
    (watched : Watched scheduler)
    (stageIs : (scheduler.workers w).stage = .released fiber thread) :
    Watched (scheduler.settle w fiber thread) := by
  have outside : ∀ other, other ≠ fiber →
      executes (scheduler.workers w).stage ≠ some other := by
    intro other different
    simp [executes, stageIs, Ne.symm different]
  simp only [Scheduler.settle]
  split
  · rename_i ready
    refine watched.moved rfl (fun _ => rfl) ?_ fun other executing => ?_
    · intro entry member
      rcases List.mem_append.mp member with old | new
      · exact Or.inl old
      · rw [List.mem_singleton.mp new]
        have notExecuting : scheduler.fiberState fiber ≠ .EXEC := by
          rw [ready]
          decide
        exact Or.inr ⟨rfl, decide_eq_false notExecuting⟩
    · refine Or.inr ⟨executing, outside other ?_⟩
      intro same
      subst same
      exact absurd (ready.symm.trans executing) (by decide)
  · split
    · refine watched.moved rfl (fun _ => rfl) (fun _ => Or.inl) ?_
      intro other executing
      by_cases same : other = fiber
      · subst same
        simp [Scheduler.setFiber] at executing
      · refine Or.inr ⟨?_, outside other same⟩
        simpa [Scheduler.setFiber, Scheduler.setWorker, same] using executing
    · rename_i finished
      refine watched.moved rfl (fun _ => rfl) (fun _ => Or.inl) ?_
      intro other executing
      refine Or.inr ⟨executing, outside other ?_⟩
      intro same
      subst same
      have executing : scheduler.fiberState other = .EXEC := executing
      simp [executing] at finished

/-- Each unpinned entry is handed in while some worker is on its way to the queue,
and a fiber that executes while some worker has it in hand. -/
def Noticed (manager : Manager Callback size) (label : Manager.Label Callback size) : Prop :=
  ∀ entry ∈ manager.handsIn label, entry.thread = -1 →
    (∃ w, willScan (manager.scheduler.workers w) = true) ∧
      ∀ fiber, entry.work = .fiber fiber → manager.scheduler.fiberState fiber = .EXEC →
        ∃ w, executes (manager.scheduler.workers w).stage = some fiber

theorem Watched.enqueue {entries : List (FiberAnThread Callback)} (watched : Watched scheduler)
    (noticed : ∀ entry ∈ entries, entry.thread = -1 →
      (∃ w, willScan (scheduler.workers w) = true) ∧
        ∀ fiber, entry.work = .fiber fiber → scheduler.fiberState fiber = .EXEC →
          ∃ w, executes (scheduler.workers w).stage = some fiber) :
    Watched { scheduler with fibers := scheduler.fibers ++ entries } := by
  constructor
  · intro given
    rcases given with ⟨entry, member, unpinned⟩
    rcases List.mem_append.mp member with old | new
    · exact watched.onTheWay ⟨entry, old, unpinned⟩
    · exact (noticed entry new unpinned).1
  · intro entry member unpinned
    rcases List.mem_append.mp member with old | new
    · exact watched.inHand entry old unpinned
    · exact (noticed entry new unpinned).2

theorem Watched.goOn {w : Fin size} {before after : Idle Callback} (watched : Watched scheduler)
    (stageIs : (scheduler.workers w).stage = .idling before)
    (stays : before.awake = true → after.awake = true) :
    Watched (scheduler.setWorker w
      { scheduler.workers w with stage := .idling after }) := by
  refine watched.moved rfl ?_ (fun _ => Or.inl) fun fiber executing => ?_
  · simpa [willScan, stageIs] using stays
  · exact Or.inr ⟨executing, by simp [executes, stageIs]⟩

theorem Watched.leaveIdle {w : Fin size} {before : Idle Callback} (watched : Watched scheduler)
    (stageIs : (scheduler.workers w).stage = .idling before) (ended : Bool) :
    Watched (scheduler.leaveIdle w ended) := by
  refine watched.moved rfl (fun _ => rfl) (fun _ => Or.inl) ?_
  intro fiber executing
  exact Or.inr ⟨executing, by simp [executes, stageIs]⟩

theorem steps_watched {threadOf : Fin size → ThreadId}
    {label : Scheduler.Label Callback size}
    (steps : Scheduler.Steps threadOf .asking scheduler label next)
    (own : ∀ entry, label ≠ .schedule entry) (watched : Watched scheduler) : Watched next := by
  cases steps with
  | schedule entry => exact absurd rfl (own entry)
  | newFiber callback =>
      refine ⟨watched.onTheWay, fun entry member unpinned fiber workIs executing => ?_⟩
      apply watched.inHand entry member unpinned fiber workIs
      by_cases same : fiber = scheduler.created
      · subst same
        simp [Scheduler.newFiber] at executing
      · simpa [Scheduler.newFiber, same] using executing
  | autoStop => exact ⟨watched.onTheWay, watched.inHand⟩
  | stopping => exact ⟨watched.onTheWay, watched.inHand⟩
  | scan stageIs => exact watched.scan stageIs
  | @tickle w ft stageIs =>
      refine watched.moved rfl ?_ (fun _ => Or.inl) fun fiber executing => ?_
      · simp [willScan, stageIs]
      · exact Or.inr ⟨executing, by simp [executes, stageIs]⟩
  | resume stageIs => exact watched.resume stageIs
  | @swapOut w fiber thread fromCb how stageIs =>
      refine watched.moved rfl (fun _ => rfl) (fun _ => Or.inl) ?_
      intro other executing
      by_cases same : other = fiber
      · exact Or.inl (congrArg some same.symm)
      · refine Or.inr ⟨?_, ?_⟩
        · simpa [Scheduler.swapOut, Scheduler.setFiber, Scheduler.setWorker, same] using executing
        · simp [executes, stageIs, Ne.symm same]
  | @release w fiber thread fromCb stageIs =>
      refine watched.moved rfl (fun _ => rfl) (fun _ => Or.inl) ?_
      intro other executing
      by_cases same : other = fiber
      · exact Or.inl (congrArg some same.symm)
      · exact Or.inr ⟨executing, by simp [executes, stageIs, Ne.symm same]⟩
  | settle stageIs => exact watched.settle stageIs
  | leaveIdle ended stageIs => exact watched.leaveIdle stageIs ended
  | @afterIdle w stageIs =>
      refine watched.moved rfl (fun _ => rfl) (fun _ => Or.inl) ?_
      intro other executing
      exact Or.inr ⟨executing, by simp [executes, stageIs]⟩

/-- With an unpinned task in the queue and every worker in `epoll_wait`, there is a
byte in the pipe. -/
def WakesUp (manager : Manager Callback size) : Prop :=
  (∃ entry ∈ manager.scheduler.fibers, entry.thread = -1) →
    (∀ w, (manager.scheduler.workers w).stage = .idling .blocked) → 0 < manager.tickles

theorem manager_watched [DecidableEq Callback] {threadOf : Fin size → ThreadId}
    {manager after : Manager Callback size} {label : Manager.Label Callback size}
    (steps : manager.Steps threadOf label after) (watched : Watched manager.scheduler)
    (noticed : Noticed manager label) : Watched after.scheduler := by
  cases steps with
  | scheduler tickles due own stays steps => exact steps_watched steps own watched
  | timers | addEvent | delEvent | pipe => exact watched
  | schedule | cancelEvent =>
      rw [Manager.enqueue_scheduler]
      exact watched.enqueue noticed
  | readTimers stageIs | readQueue stageIs => exact watched.goOn stageIs nofun
  | judge stageIs => exact watched.leaveIdle stageIs true
  | leave stageIs => exact watched.leaveIdle stageIs false
  | sleep stageIs asleep =>
      exact watched.goOn stageIs fun awake => by cases asleep.symm.trans awake
  | expire due stageIs | dispatch stageIs => exact watched.goOn stageIs fun _ => rfl
  | queueExpired stageIs | trigger stageIs =>
      simp only [Manager.goOn, Manager.enqueue_scheduler]
      simp only [Noticed, Manager.handsIn, stageIs] at noticed
      exact (watched.enqueue noticed).goOn stageIs fun _ => rfl

theorem Watched.wakesUp {manager : Manager Callback size}
    (watched : Watched manager.scheduler) : WakesUp manager := by
  intro queued blocked
  rcases watched.onTheWay queued with ⟨w, scans⟩
  simp [willScan, blocked w, Idle.awake] at scans

/-- No wake-up is missed in a run in which every unpinned entry is handed in while
some worker is on its way to the queue. -/
theorem wakesUp_always [DecidableEq Callback] (threadOf : Fin size → ThreadId)
    (fiberState : FiberId → FiberState) (created : Nat)
    (labels : List (Manager.Label Callback size))
    (meet : (Manager.machine threadOf).StepsMeet Noticed
      (Manager.start size fiberState created) labels) :
    (Manager.machine threadOf).Always WakesUp (Manager.start size fiberState created)
      labels := by
  refine Machine.StepsMeet.always (fun manager => Watched manager.scheduler) ?_ ?_ ?_ meet
  · intro manager label next watched noticed stepped
    exact manager_watched (Manager.step_eq_some stepped) watched noticed
  · exact fun _ watched => watched.wakesUp
  · exact ⟨nofun, nofun⟩

theorem wakesUp_always_scanning :
    (Manager.machine fun _ => 1).Always WakesUp
      (Manager.start 1 (fun _ => .INIT) 0 : Manager Nat 1)
      [.schedule .outside { work := .cb 7 }, .tickle, .scheduler (.scan 0)] := by
  apply wakesUp_always _ _ _ _
  apply Machine.StepsMeet.cons rfl
  · intro entry member _
    rw [List.mem_singleton.mp member]
    exact ⟨⟨0, rfl⟩, nofun⟩
  apply Machine.StepsMeet.cons rfl nofun
  exact Machine.StepsMeet.cons rfl nofun trivial

/-- The worker is in `epoll_wait` when a callback is handed in, and the call of
`tickle` that is due writes nothing. -/
theorem wakesUp_always_fails :
    ¬(Manager.machine fun _ => 1).Always WakesUp
      (Manager.start 1 (fun _ => .INIT) 0 : Manager Nat 1)
      [.scheduler (.scan 0), .scheduler (.resume 0), .readTimers 0, .readQueue 0, .wait 0,
        .schedule .outside { work := .cb 7 }, .tickle] := by
  intro always
  have wakes := always.last rfl
  have written := wakes ⟨_, List.mem_singleton_self _, rfl⟩ (Fin.forall_fin_one.mpr rfl)
  exact absurd written (by decide)

/-! ## The pipe stays empty -/

def idleLoad (worker : Worker Callback (Idle Callback)) : Nat :=
  match worker.stage with
  | .idling _ | .idled => 1
  | .scanning | .tickling _ | .scanned _ | .running .. | .returned .. | .released .. | .left => 0

def IdleCounted (scheduler : Scheduler Callback (Idle Callback) size) : Prop :=
  scheduler.idleThreadsCount = total idleLoad scheduler.workers (List.finRange size)

theorem IdleCounted.moved {w : Fin size} {worker : Worker Callback (Idle Callback)}
    (counted : IdleCounted scheduler)
    (workersIs : next.workers = Function.update scheduler.workers w worker)
    (countIs : next.idleThreadsCount + idleLoad (scheduler.workers w) =
      scheduler.idleThreadsCount + idleLoad worker) : IdleCounted next := by
  have exchanged : total idleLoad next.workers (List.finRange size) +
        idleLoad (scheduler.workers w) =
      total idleLoad scheduler.workers (List.finRange size) + idleLoad worker :=
    total_finRange_update workersIs
  rw [IdleCounted] at counted ⊢
  omega

theorem nothingToRun_idleCounted {w : Fin size} {ft : Option (FiberAnThread Callback)}
    (counted : IdleCounted scheduler)
    (stageIs : (scheduler.workers w).stage = .scanned ft) :
    IdleCounted (scheduler.nothingToRun .asking w) := by
  simp only [Scheduler.nothingToRun]
  split
  · exact counted.moved rfl (by simp [idleLoad, stageIs, Scheduler.setWorker])
  · split
    · exact counted.moved rfl (by simp [idleLoad, stageIs, Scheduler.setWorker])
    · exact counted.moved rfl (by simp [idleLoad, stageIs])

theorem steps_idleCounted {threadOf : Fin size → ThreadId}
    {label : Scheduler.Label Callback size}
    (steps : Scheduler.Steps threadOf .asking scheduler label next)
    (counted : IdleCounted scheduler) : IdleCounted next := by
  cases steps with
  | schedule | newFiber | autoStop | stopping => exact counted
  | scan stageIs =>
      rcases Scheduler.scanQueue_workers with ⟨worker, workersIs, stageAfter, -⟩
      apply counted.moved workersIs
      rw [Scheduler.scanQueue_idleThreadsCount]
      rcases stageAfter with stageAfter | stageAfter <;>
        simp [idleLoad, stageIs, stageAfter]
  | @resume w ft stageIs =>
      rcases Scheduler.resume_frame .asking scheduler w ft with
        nextIs | ⟨_, _, _, _, _, _, _, nextIs⟩
      · rw [nextIs]
        exact nothingToRun_idleCounted counted stageIs
      · rw [nextIs]
        exact counted.moved rfl (by simp [idleLoad, stageIs, Scheduler.setWorker])
  | @settle w fiber thread stageIs =>
      rcases Scheduler.settle_frame scheduler w fiber thread with ⟨_, _, nextIs⟩
      rw [nextIs]
      exact counted.moved rfl (by simp [idleLoad, stageIs, Scheduler.setWorker])
  | tickle stageIs =>
      exact counted.moved rfl (by simp [idleLoad, stageIs, Scheduler.setWorker])
  | swapOut how stageIs =>
      exact counted.moved rfl (by simp [idleLoad, stageIs, Scheduler.swapOut,
        Scheduler.setFiber, Scheduler.setWorker])
  | release stageIs =>
      exact counted.moved rfl (by simp [idleLoad, stageIs, Scheduler.release,
        Scheduler.setWorker])
  | leaveIdle ended stageIs =>
      exact counted.moved rfl (by simp [idleLoad, stageIs, Scheduler.leaveIdle,
        Scheduler.setWorker])
  | afterIdle stageIs =>
      exact counted.moved rfl (by simp [idleLoad, stageIs, Scheduler.afterIdle,
        Scheduler.setWorker])

theorem IdleCounted.goOn {w : Fin size} {before : Idle Callback}
    (counted : IdleCounted scheduler)
    (stageIs : (scheduler.workers w).stage = .idling before) (after : Idle Callback) :
    IdleCounted (scheduler.setWorker w
      { scheduler.workers w with stage := .idling after }) :=
  counted.moved rfl (by simp [idleLoad, stageIs, Scheduler.setWorker])

theorem IdleCounted.leaveIdle {w : Fin size} {before : Idle Callback}
    (counted : IdleCounted scheduler)
    (stageIs : (scheduler.workers w).stage = .idling before) (ended : Bool) :
    IdleCounted (scheduler.leaveIdle w ended) :=
  counted.moved rfl (by simp [idleLoad, stageIs, Scheduler.leaveIdle, Scheduler.setWorker])

theorem IdleCounted.tickle {manager : Manager Callback size}
    (counted : IdleCounted manager.scheduler) : manager.tickle = manager := by
  rw [IdleCounted] at counted
  have idle : manager.hasIdleThreads = true := by
    rw [Manager.hasIdleThreads, decide_eq_true_eq, counted]
    exact Int.natCast_nonneg _
  rw [Manager.tickle, if_pos idle]

variable [DecidableEq Callback]

theorem manager_idleCounted {threadOf : Fin size → ThreadId}
    {manager after : Manager Callback size} {label : Manager.Label Callback size}
    (steps : manager.Steps threadOf label after) (counted : IdleCounted manager.scheduler) :
    IdleCounted after.scheduler := by
  cases steps with
  | scheduler tickles due own stays steps => exact steps_idleCounted steps counted
  | timers | addEvent | delEvent | pipe => exact counted
  | schedule | cancelEvent =>
      rw [Manager.enqueue_scheduler]
      exact counted
  | judge stageIs => exact counted.leaveIdle stageIs true
  | leave stageIs => exact counted.leaveIdle stageIs false
  | readTimers stageIs | readQueue stageIs | sleep stageIs | expire due stageIs
  | dispatch stageIs => exact counted.goOn stageIs _
  | queueExpired stageIs | trigger stageIs =>
      simp only [Manager.goOn, Manager.enqueue_scheduler]
      exact IdleCounted.goOn counted stageIs _

theorem tickles_of_step {threadOf : Fin size → ThreadId}
    {manager after : Manager Callback size} {label : Manager.Label Callback size}
    (stepped : manager.step threadOf label = some after) :
    after.tickles = manager.tickles ∨ after.tickles = manager.tickle.tickles ∨
      after.tickles = 0 := by
  cases label with
  | scheduler label =>
      cases label with
      | schedule | leaveIdle => cases stepped
      | tickle w =>
          simp only [Manager.step, Option.map_eq_some_iff] at stepped
          rcases stepped with ⟨scheduler, inner, rfl⟩
          exact Or.inr (Or.inl rfl)
      | newFiber | autoStop | stopping | scan | resume | swapOut | release | settle
      | afterIdle =>
          simp only [Manager.step, Option.map_eq_some_iff] at stepped
          rcases stepped with ⟨scheduler, inner, rfl⟩
          exact Or.inl rfl
  | schedule | addTimer | cancelTimers | addEvent | delEvent | cancelEvent =>
      rcases Option.ite_none_right_eq_some.mp stepped with ⟨-, ⟨⟩⟩
      exact Or.inl rfl
  | tickle =>
      rcases Option.ite_none_right_eq_some.mp stepped with ⟨-, ⟨⟩⟩
      exact Or.inr (Or.inl rfl)
  | readTimers | wait | wake | expire | queueExpired | leave =>
      simp only [Manager.step] at stepped
      split at stepped
      · cases stepped
        exact Or.inl rfl
      · cases stepped
  | readQueue | readPending | dispatch | trigger =>
      simp only [Manager.step] at stepped
      split at stepped
      · split at stepped <;> cases stepped <;> exact Or.inl rfl
      · cases stepped
  | drain =>
      simp only [Manager.step] at stepped
      split at stepped
      · cases stepped
        exact Or.inr (Or.inr rfl)
      · cases stepped

/-- `hasIdleThreads()` is true in every state reached, so no call of `tickle` writes. -/
theorem tickles_eq_zero {threadOf : Fin size → ThreadId} {fiberState : FiberId → FiberState}
    {created : Nat} {labels : List (Manager.Label Callback size)}
    {final : Manager Callback size}
    (ran : (Manager.machine threadOf).run (Manager.start size fiberState created) labels =
      some final) : final.tickles = 0 := by
  have preserved : ∀ (manager : Manager Callback size) label next,
      (IdleCounted manager.scheduler ∧ manager.tickles = 0) →
      (Manager.machine threadOf).step manager label = some next →
      (IdleCounted next.scheduler ∧ next.tickles = 0) := by
    rintro manager label next ⟨counted, empty⟩ stepped
    refine ⟨manager_idleCounted (Manager.step_eq_some stepped) counted, ?_⟩
    rcases tickles_of_step stepped with same | called | drained
    · exact same.trans empty
    · rw [called, counted.tickle]
      exact empty
    · exact drained
  have none : total idleLoad
      (Manager.start size fiberState created : Manager Callback size).scheduler.workers
      (List.finRange size) = 0 := total_eq_zero_iff.mpr fun _ _ => rfl
  have counted :
      IdleCounted (Manager.start size fiberState created : Manager Callback size).scheduler := by
    rw [IdleCounted, none]
    rfl
  exact (Machine.run_induction preserved ⟨counted, rfl⟩ ran).2

end Sylar.Idling
