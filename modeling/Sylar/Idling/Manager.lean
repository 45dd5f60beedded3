import Mathlib.Tactic.Common
import Sylar.Scheduling.Scheduler

/-! # The run loop of an `IOManager`

`IOManager` gives `idle` and `tickle` of the scheduler their meaning. An idle worker
asks whether to stop, in three separate readings, sleeps in `epoll_wait`, and moves
expired timers and reported events to the queue, each in two steps. Which timers
are due and which events are reported is left open.
-/

namespace Sylar.Idling

open Foundation Scheduling

inductive Idle (Callback : Type)
  | asking
  /-- `getNextTImer()` has been called; was there no timer? -/
  | readTimers (noTimer : Bool)
  /-- `Scheduler::stopping()` was true as well. -/
  | readQueue (noTimer : Bool)
  /-- It is not time to stop, `epoll_wait` is due. -/
  | timing
  | blocked
  | woken
  /-- The callbacks `listExpiredCb` has taken out, still to be queued. -/
  | expiring (cbs : List Callback)
  | dispatching
  /-- The event is no longer counted as pending, `triggerEvent` is due. -/
  | firing (slot : Option (Work Callback))

def Idle.awake : Idle Callback → Bool
  | .asking | .readTimers _ | .readQueue _ | .timing | .blocked => false
  | .woken | .expiring _ | .dispatching | .firing _ => true

structure Timer (Callback : Type) where
  cb : Callback
  recuring : Bool := false

structure Manager (Callback : Type) (size : Nat) where
  scheduler : Scheduler Callback (Idle Callback) size := {}
  timers : List (Timer Callback) := []
  /-- The slots of the armed directions. -/
  armed : List (Option (Work Callback)) := []
  pendingEventSize : Int := 0
  /-- The unread bytes in the pipe. -/
  tickles : Nat := 0
  /-- The calls of `tickle` that are due, by whatever thread. -/
  due : Nat := 0
  /-- Some evaluation of `stopping(timeout)` has been true. -/
  judged : Bool := false

/-- Who calls an operation: a thread without a scheduler, or the task a worker runs. -/
inductive Actor (size : Nat)
  | outside
  | task (w : Fin size)

namespace Manager

variable {Callback : Type} {size : Nat}

def hasIdleThreads (manager : Manager Callback size) : Bool :=
  decide (0 ≤ manager.scheduler.idleThreadsCount)

def tickle (manager : Manager Callback size) : Manager Callback size :=
  if manager.hasIdleThreads then manager else { manager with tickles := manager.tickles + 1 }

/-- `need_tickel` is true when the queue was empty. -/
def advance (manager : Manager Callback size)
    (next : Scheduler Callback (Idle Callback) size) : Manager Callback size :=
  { manager with
    scheduler := next
    due := manager.due +
      if manager.scheduler.fibers.isEmpty && !next.fibers.isEmpty then 1 else 0 }

/-- `scheduler(begin,end)`, and `scheduler(fc,thread)` for one entry. -/
def enqueue (manager : Manager Callback size) (entries : List (FiberAnThread Callback)) :
    Manager Callback size :=
  manager.advance (entries.foldl Scheduler.schedulerNoLock manager.scheduler)

def goOn (manager : Manager Callback size) (w : Fin size) (stage : Idle Callback) :
    Manager Callback size :=
  { manager with
    scheduler := manager.scheduler.setWorker w
      { manager.scheduler.workers w with stage := .idling stage } }

def leaveIdle (manager : Manager Callback size) (w : Fin size) (ended : Bool) :
    Manager Callback size :=
  { manager with scheduler := manager.scheduler.leaveIdle w ended }

def enabled (manager : Manager Callback size) : Actor size → Bool
  | .outside => true
  | .task w =>
      match (manager.scheduler.workers w).stage with
      | .running .. => true
      | _ => false

def expire (manager : Manager Callback size) (due : Timer Callback → Bool) :
    Manager Callback size :=
  { manager with
    timers := manager.timers.filter (fun timer => !due timer) ++
      manager.timers.filter (fun timer => due timer && timer.recuring) }

def handOver (slot : Option (Work Callback)) : List (FiberAnThread Callback) :=
  slot.toList.map fun work => { work := work }

inductive Label (Callback : Type) (size : Nat)
  /-- The steps of the run loop, the creation of fibers and the flags of `stop`. -/
  | scheduler (label : Scheduler.Label Callback size)
  | schedule (actor : Actor size) (entry : FiberAnThread Callback)
  | addTimer (actor : Actor size) (timer : Timer Callback) (atFront : Bool)
  | cancelTimers (actor : Actor size) (kept : Timer Callback → Bool)
  | addEvent (actor : Actor size) (work : Work Callback)
  | delEvent (actor : Actor size) (slot : Option (Work Callback))
  | cancelEvent (actor : Actor size) (slot : Option (Work Callback))
  | tickle
  | readTimers (w : Fin size)
  | readQueue (w : Fin size)
  | readPending (w : Fin size)
  | wait (w : Fin size)
  | wake (w : Fin size)
  | drain (w : Fin size)
  | expire (w : Fin size) (due : Timer Callback → Bool)
  | queueExpired (w : Fin size)
  | dispatch (w : Fin size) (slot : Option (Work Callback))
  | trigger (w : Fin size)
  | leave (w : Fin size)

theorem foldl_schedulerNoLock (scheduler : Scheduler Callback (Idle Callback) size)
    (entries : List (FiberAnThread Callback)) :
    entries.foldl Scheduler.schedulerNoLock scheduler =
      { scheduler with fibers := scheduler.fibers ++ entries } := by
  induction entries generalizing scheduler with
  | nil => simp
  | cons entry entries induction =>
      rw [List.foldl_cons, induction]
      simp [Scheduler.schedulerNoLock]

@[simp] theorem enqueue_scheduler (manager : Manager Callback size)
    (entries : List (FiberAnThread Callback)) :
    (manager.enqueue entries).scheduler =
      { manager.scheduler with fibers := manager.scheduler.fibers ++ entries } :=
  foldl_schedulerNoLock manager.scheduler entries

def handsIn (manager : Manager Callback size) :
    Label Callback size → List (FiberAnThread Callback)
  | .schedule _ entry => [entry]
  | .cancelEvent _ slot => handOver slot
  | .queueExpired w =>
      match (manager.scheduler.workers w).stage with
      | .idling (.expiring cbs) => cbs.map fun cb => { work := .cb cb }
      | _ => []
  | .trigger w =>
      match (manager.scheduler.workers w).stage with
      | .idling (.firing slot) => handOver slot
      | _ => []
  | _ => []

variable [DecidableEq Callback]

def step (manager : Manager Callback size) (threadOf : Fin size → ThreadId) :
    Label Callback size → Option (Manager Callback size)
  | .scheduler label =>
      match label with
      | .schedule _ | .leaveIdle _ _ => none
      | .tickle w =>
          (manager.scheduler.step threadOf .asking (.tickle w)).map fun next =>
            { manager.tickle with scheduler := next }
      | label => (manager.scheduler.step threadOf .asking label).map manager.advance
  | .schedule actor entry =>
      if manager.enabled actor then some (manager.enqueue [entry]) else none
  | .addTimer actor timer atFront =>
      if manager.enabled actor then
        some { manager with
          timers := manager.timers ++ [timer]
          due := manager.due + if atFront then 1 else 0 }
      else none
  | .cancelTimers actor kept =>
      if manager.enabled actor then
        some { manager with timers := manager.timers.filter kept }
      else none
  | .addEvent actor work =>
      if manager.enabled actor then
        some { manager with
          armed := manager.armed ++ [some work]
          pendingEventSize := manager.pendingEventSize + 1 }
      else none
  -- `delEvent` empties the slot and leaves the direction armed
  | .delEvent actor slot =>
      if manager.enabled actor ∧ slot ∈ manager.armed then
        some { manager with
          armed := manager.armed.erase slot ++ [none]
          pendingEventSize := manager.pendingEventSize - 1 }
      else none
  | .cancelEvent actor slot =>
      if manager.enabled actor ∧ slot ∈ manager.armed then
        some { manager.enqueue (handOver slot) with
          armed := manager.armed.erase slot
          pendingEventSize := manager.pendingEventSize - 1 }
      else none
  | .tickle =>
      if 0 < manager.due then some { manager.tickle with due := manager.due - 1 } else none
  | .readTimers w =>
      match (manager.scheduler.workers w).stage with
      | .idling .asking => some (manager.goOn w (.readTimers manager.timers.isEmpty))
      | _ => none
  | .readQueue w =>
      match (manager.scheduler.workers w).stage with
      | .idling (.readTimers noTimer) =>
          if manager.scheduler.isStopping then some (manager.goOn w (.readQueue noTimer))
          else some (manager.goOn w .timing)
      | _ => none
  | .readPending w =>
      match (manager.scheduler.workers w).stage with
      | .idling (.readQueue noTimer) =>
          if manager.pendingEventSize = 0 ∧ noTimer = true then
            some { manager.leaveIdle w true with judged := true }
          else some (manager.goOn w .timing)
      | _ => none
  | .wait w =>
      match (manager.scheduler.workers w).stage with
      | .idling .timing => some (manager.goOn w .blocked)
      | _ => none
  | .wake w =>
      match (manager.scheduler.workers w).stage with
      | .idling .blocked => some (manager.goOn w .woken)
      | _ => none
  | .expire w due =>
      match (manager.scheduler.workers w).stage with
      | .idling .woken =>
          some ((manager.expire due).goOn w
            (.expiring ((manager.timers.filter due).map Timer.cb)))
      | _ => none
  | .queueExpired w =>
      match (manager.scheduler.workers w).stage with
      | .idling (.expiring cbs) =>
          some ((manager.enqueue (cbs.map fun cb => { work := .cb cb })).goOn w .dispatching)
      | _ => none
  | .drain w =>
      match (manager.scheduler.workers w).stage with
      | .idling .dispatching => some { manager with tickles := 0 }
      | _ => none
  | .dispatch w slot =>
      match (manager.scheduler.workers w).stage with
      | .idling .dispatching =>
          if slot ∈ manager.armed then
            some { manager.goOn w (.firing slot) with
              pendingEventSize := manager.pendingEventSize - 1 }
          else none
      | _ => none
  -- `triggerEvent` asserts that the direction is still armed
  | .trigger w =>
      match (manager.scheduler.workers w).stage with
      | .idling (.firing slot) =>
          if slot ∈ manager.armed then
            some { (manager.enqueue (handOver slot)).goOn w .dispatching with
              armed := manager.armed.erase slot }
          else none
      | _ => none
  | .leave w =>
      match (manager.scheduler.workers w).stage with
      | .idling .dispatching => some (manager.leaveIdle w false)
      | _ => none

def machine (threadOf : Fin size → ThreadId) :
    Machine (Manager Callback size) (Label Callback size) where
  step manager := manager.step threadOf

/-- Nothing is queued and the workers are about to start. Fibers may exist already,
among them those of threads that run no scheduler, which stay in `EXEC`. -/
def start (size : Nat) (fiberState : FiberId → FiberState) (created : Nat) :
    Manager Callback size :=
  { scheduler := { fiberState := fiberState, created := created } }

/-! ## What the steps do -/

/-- The steps with what enables them. The pipe and the calls of `tickle` that are due
are left out. -/
inductive Steps (threadOf : Fin size → ThreadId) (manager : Manager Callback size) :
    Label Callback size → Manager Callback size → Prop
  | scheduler {label : Scheduler.Label Callback size}
      {next : Scheduler Callback (Idle Callback) size} (tickles due : Nat)
      (own : ∀ entry, label ≠ .schedule entry) (stays : ∀ w ended, label ≠ .leaveIdle w ended)
      (steps : Scheduler.Steps threadOf .asking manager.scheduler label next) :
      Steps threadOf manager (.scheduler label)
        { manager with scheduler := next, tickles := tickles, due := due }
  | schedule {actor : Actor size} (entry : FiberAnThread Callback)
      (enabled : manager.enabled actor = true) :
      Steps threadOf manager (.schedule actor entry) (manager.enqueue [entry])
  | timers {label : Label Callback size} {actor : Actor size}
      (timers : List (Timer Callback)) (due : Nat)
      (enabled : manager.enabled actor = true)
      (labelIs : (∃ timer atFront, label = .addTimer actor timer atFront) ∨
        (∃ kept, label = .cancelTimers actor kept ∧ timers = manager.timers.filter kept)) :
      Steps threadOf manager label { manager with timers := timers, due := due }
  | addEvent {actor : Actor size} (work : Work Callback)
      (enabled : manager.enabled actor = true) :
      Steps threadOf manager (.addEvent actor work)
        { manager with
          armed := manager.armed ++ [some work]
          pendingEventSize := manager.pendingEventSize + 1 }
  | delEvent {actor : Actor size} {slot : Option (Work Callback)}
      (enabled : manager.enabled actor = true) (member : slot ∈ manager.armed) :
      Steps threadOf manager (.delEvent actor slot)
        { manager with
          armed := manager.armed.erase slot ++ [none]
          pendingEventSize := manager.pendingEventSize - 1 }
  | cancelEvent {actor : Actor size} {slot : Option (Work Callback)}
      (enabled : manager.enabled actor = true) (member : slot ∈ manager.armed) :
      Steps threadOf manager (.cancelEvent actor slot)
        { manager.enqueue (handOver slot) with
          armed := manager.armed.erase slot
          pendingEventSize := manager.pendingEventSize - 1 }
  | pipe (label : Label Callback size) (tickles due : Nat) :
      Steps threadOf manager label { manager with tickles := tickles, due := due }
  | readTimers {w : Fin size} (stageIs : (manager.scheduler.workers w).stage = .idling .asking) :
      Steps threadOf manager (.readTimers w)
        (manager.goOn w (.readTimers manager.timers.isEmpty))
  | readQueue {w : Fin size} {noTimer : Bool}
      (stageIs : (manager.scheduler.workers w).stage = .idling (.readTimers noTimer))
      (stops : manager.scheduler.isStopping = true) :
      Steps threadOf manager (.readQueue w) (manager.goOn w (.readQueue noTimer))
  | judge {w : Fin size}
      (stageIs : (manager.scheduler.workers w).stage = .idling (.readQueue true))
      (noEvent : manager.pendingEventSize = 0) :
      Steps threadOf manager (.readPending w)
        { manager.leaveIdle w true with judged := true }
  | sleep {label : Label Callback size} {w : Fin size} {before after : Idle Callback}
      (stageIs : (manager.scheduler.workers w).stage = .idling before)
      (asleep : before.awake = false)
      (afterIs : after = .timing ∨ after = .blocked ∨ after = .woken) :
      Steps threadOf manager label (manager.goOn w after)
  | expire {w : Fin size} (due : Timer Callback → Bool)
      (stageIs : (manager.scheduler.workers w).stage = .idling .woken) :
      Steps threadOf manager (.expire w due)
        ((manager.expire due).goOn w
          (.expiring ((manager.timers.filter due).map Timer.cb)))
  | queueExpired {w : Fin size} {cbs : List Callback}
      (stageIs : (manager.scheduler.workers w).stage = .idling (.expiring cbs)) :
      Steps threadOf manager (.queueExpired w)
        ((manager.enqueue (cbs.map fun cb => { work := .cb cb })).goOn w .dispatching)
  | dispatch {w : Fin size} {slot : Option (Work Callback)}
      (stageIs : (manager.scheduler.workers w).stage = .idling .dispatching)
      (member : slot ∈ manager.armed) :
      Steps threadOf manager (.dispatch w slot)
        { manager.goOn w (.firing slot) with
          pendingEventSize := manager.pendingEventSize - 1 }
  | trigger {w : Fin size} {slot : Option (Work Callback)}
      (stageIs : (manager.scheduler.workers w).stage = .idling (.firing slot))
      (member : slot ∈ manager.armed) :
      Steps threadOf manager (.trigger w)
        { (manager.enqueue (handOver slot)).goOn w .dispatching with
          armed := manager.armed.erase slot }
  | leave {w : Fin size}
      (stageIs : (manager.scheduler.workers w).stage = .idling .dispatching) :
      Steps threadOf manager (.leave w) (manager.leaveIdle w false)

theorem step_eq_some {threadOf : Fin size → ThreadId} {manager next : Manager Callback size}
    {label : Label Callback size} (stepped : manager.step threadOf label = some next) :
    Steps threadOf manager label next := by
  have called : ∃ tickles, manager.tickle = { manager with tickles := tickles } := by
    rw [tickle]
    split
    · exact ⟨manager.tickles, rfl⟩
    · exact ⟨_, rfl⟩
  rcases called with ⟨tickles, tickleIs⟩
  cases label with
  | scheduler label =>
      cases label with
      | schedule | leaveIdle => cases stepped
      | tickle w =>
          simp only [step, Option.map_eq_some_iff, tickleIs] at stepped
          rcases stepped with ⟨scheduler, inner, rfl⟩
          exact .scheduler tickles manager.due nofun nofun (Scheduler.step_eq_some inner)
      | newFiber | autoStop | stopping | scan | resume | swapOut | release | settle
      | afterIdle =>
          simp only [step, Option.map_eq_some_iff] at stepped
          rcases stepped with ⟨scheduler, inner, rfl⟩
          exact .scheduler manager.tickles _ nofun nofun (Scheduler.step_eq_some inner)
  | schedule actor entry =>
      rcases Option.ite_none_right_eq_some.mp stepped with ⟨enabled, ⟨⟩⟩
      exact .schedule entry enabled
  | addTimer actor timer atFront =>
      rcases Option.ite_none_right_eq_some.mp stepped with ⟨enabled, ⟨⟩⟩
      exact .timers _ _ enabled (Or.inl ⟨timer, atFront, rfl⟩)
  | cancelTimers actor kept =>
      rcases Option.ite_none_right_eq_some.mp stepped with ⟨enabled, ⟨⟩⟩
      exact .timers _ _ enabled (Or.inr ⟨kept, rfl, rfl⟩)
  | addEvent actor work =>
      rcases Option.ite_none_right_eq_some.mp stepped with ⟨enabled, ⟨⟩⟩
      exact .addEvent work enabled
  | delEvent actor slot =>
      rcases Option.ite_none_right_eq_some.mp stepped with ⟨⟨enabled, member⟩, ⟨⟩⟩
      exact .delEvent enabled member
  | cancelEvent actor slot =>
      rcases Option.ite_none_right_eq_some.mp stepped with ⟨⟨enabled, member⟩, ⟨⟩⟩
      exact .cancelEvent enabled member
  | tickle =>
      rcases Option.ite_none_right_eq_some.mp stepped with ⟨-, returned⟩
      rw [tickleIs] at returned
      cases returned
      exact .pipe _ _ _
  | readTimers w =>
      simp only [step] at stepped
      split at stepped
      · rename_i stageIs
        cases stepped
        exact .readTimers stageIs
      · cases stepped
  | readQueue w =>
      simp only [step] at stepped
      split at stepped
      · rename_i stageIs
        split at stepped
        · rename_i stops
          cases stepped
          exact .readQueue stageIs stops
        · cases stepped
          exact .sleep stageIs rfl (Or.inl rfl)
      · cases stepped
  | readPending w =>
      simp only [step] at stepped
      split at stepped
      · rename_i stageIs
        split at stepped
        · rename_i noWork
          rcases noWork with ⟨noEvent, rfl⟩
          cases stepped
          exact .judge stageIs noEvent
        · cases stepped
          exact .sleep stageIs rfl (Or.inl rfl)
      · cases stepped
  | wait w =>
      simp only [step] at stepped
      split at stepped
      · rename_i stageIs
        cases stepped
        exact .sleep stageIs rfl (Or.inr (Or.inl rfl))
      · cases stepped
  | wake w =>
      simp only [step] at stepped
      split at stepped
      · rename_i stageIs
        cases stepped
        exact .sleep stageIs rfl (Or.inr (Or.inr rfl))
      · cases stepped
  | drain w =>
      simp only [step] at stepped
      split at stepped
      · cases stepped
        exact .pipe _ _ _
      · cases stepped
  | expire w due =>
      simp only [step] at stepped
      split at stepped
      · rename_i stageIs
        cases stepped
        exact .expire due stageIs
      · cases stepped
  | queueExpired w =>
      simp only [step] at stepped
      split at stepped
      · rename_i stageIs
        cases stepped
        exact .queueExpired stageIs
      · cases stepped
  | dispatch w slot =>
      simp only [step] at stepped
      split at stepped
      · rename_i stageIs
        rcases Option.ite_none_right_eq_some.mp stepped with ⟨member, ⟨⟩⟩
        exact .dispatch stageIs member
      · cases stepped
  | trigger w =>
      simp only [step] at stepped
      split at stepped
      · rename_i stageIs
        rcases Option.ite_none_right_eq_some.mp stepped with ⟨member, ⟨⟩⟩
        exact .trigger stageIs member
      · cases stepped
  | leave w =>
      simp only [step] at stepped
      split at stepped
      · rename_i stageIs
        cases stepped
        exact .leave stageIs
      · cases stepped

end Manager

end Sylar.Idling
