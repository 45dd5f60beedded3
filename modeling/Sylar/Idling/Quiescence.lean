import Mathlib.Tactic.Common
import Sylar.Idling.Manager
import Sylar.Scheduling.ActiveCount
import Sylar.Scheduling.Custody

/-! # Judging that no work is left

`stopping(timeout)` reads the timers, then the queue with the active count, then the
number of pending events. Work moves between these places in two steps, and some of
it is in none of them in between. The judgement is right if no hand-over is under way
when the queue is read and no event is dispatched before the last reading.
-/

namespace Sylar.Idling

open Foundation Scheduling

variable {Callback : Type} {size : Nat}
  {scheduler next : Scheduler Callback (Idle Callback) size}

/-! ## Work in transit -/

/-- The worker is between the two halves of a hand-over: a ready fiber that is no
longer counted as active, expired callbacks, or an event that is no longer pending. -/
def inTransit (fiberState : FiberId → FiberState)
    (stage : Stage Callback (Idle Callback)) : Bool :=
  match stage with
  | .released fiber _ => decide (fiberState fiber = .READY)
  | .idling (.expiring cbs) => !cbs.isEmpty
  | .idling (.firing _) => true
  | .scanning | .tickling _ | .scanned _ | .running .. | .returned .. | .idling _ | .idled
  | .left => false

def AtRest (fiberState : FiberId → FiberState)
    (stage : Stage Callback (Idle Callback)) : Prop :=
  stage.handling = false ∧ inTransit fiberState stage = false

structure Calm (manager : Manager Callback size) : Prop where
  autoStop : manager.scheduler.autoStop = true
  stopping : manager.scheduler.stopping = true
  fibers : manager.scheduler.fibers = []
  timers : manager.timers = []
  workers : ∀ w, AtRest manager.scheduler.fiberState (manager.scheduler.workers w).stage

/-- Once `stopping(timeout)` has been true, the queue is empty and no worker has work
in hand, not even in transit; hence nothing starts any more. -/
def JudgedRightly (manager : Manager Callback size) : Prop :=
  manager.judged = true → manager.scheduler.fibers = [] ∧
    ∀ w, AtRest manager.scheduler.fiberState (manager.scheduler.workers w).stage

/-! ## Runs after `stop` -/

def addsWork : Manager.Label Callback size → Bool
  | .schedule .outside _ | .addTimer .outside _ _ | .addEvent .outside _
  | .cancelEvent .outside _ => true
  | _ => false

/-- Once `stop` has set its flags, no other thread adds work. -/
def closed [DecidableEq Callback] (threadOf : Fin size → ThreadId) :
    Machine (Manager Callback size) (Manager.Label Callback size) where
  step manager label :=
    if manager.scheduler.autoStop && manager.scheduler.stopping && addsWork label then none
    else manager.step threadOf label

/-- Nothing upsets the three readings. -/
structure Undisturbed (manager : Manager Callback size)
    (label : Manager.Label Callback size) : Prop where
  /-- The active count stays right. -/
  balanced : ∀ inner, label = .scheduler inner → manager.scheduler.Balanced inner
  /-- The number of pending events stays right. -/
  noDelEvent : ∀ actor slot, label ≠ .delEvent actor slot
  /-- A worker that has found no timer and finds the queue empty finds no hand-over
  under way, and no timer added since. -/
  handedOver : ∀ w, label = .readQueue w →
    (manager.scheduler.workers w).stage = .idling (.readTimers true) →
    manager.scheduler.isStopping = true →
    manager.timers = [] ∧
      ∀ v, inTransit manager.scheduler.fiberState (manager.scheduler.workers v).stage = false
  /-- No event is dispatched between the last two readings of a worker. -/
  noDispatch : ∀ w slot, label = .dispatch w slot →
    ∀ v, (manager.scheduler.workers v).stage ≠ .idling (.readQueue true)

/-! ## Nothing comes from nothing -/

theorem AtRest.mono {before after : FiberId → FiberState}
    {stage : Stage Callback (Idle Callback)} (rest : AtRest before stage)
    (states : ∀ fiber, after fiber = .READY → before fiber = .READY) : AtRest after stage := by
  refine ⟨rest.1, ?_⟩
  have settled := rest.2
  cases stage with
  | released fiber thread =>
      simp only [inTransit, decide_eq_false_iff_not] at settled ⊢
      exact fun ready => settled (states fiber ready)
  | scanning | tickling | scanned | running | returned | idled | left => exact settled
  | idling stage => cases stage <;> exact settled

theorem atRest_of_none {fiberState : FiberId → FiberState}
    {stage : Stage Callback (Idle Callback)}
    (stageIs : stage = .tickling none ∨ stage = .scanned none) : AtRest fiberState stage := by
  rcases stageIs with rfl | rfl <;> exact ⟨rfl, rfl⟩

theorem AtRest.ft_eq_none {fiberState : FiberId → FiberState}
    {ft : Option (FiberAnThread Callback)} {stage : Stage Callback (Idle Callback)}
    (rest : AtRest fiberState stage)
    (stageIs : stage = .tickling ft ∨ stage = .scanned ft) : ft = none := by
  have handles := rest.1
  cases ft with
  | none => rfl
  | some entry => rcases stageIs with rfl | rfl <;> cases handles

theorem atRest_update {w : Fin size} {worker : Worker Callback (Idle Callback)}
    (rest : ∀ v, AtRest scheduler.fiberState (scheduler.workers v).stage)
    (workersIs : next.workers = Function.update scheduler.workers w worker)
    (states : ∀ fiber, next.fiberState fiber = .READY → scheduler.fiberState fiber = .READY)
    (here : AtRest next.fiberState worker.stage) :
    ∀ v, AtRest next.fiberState (next.workers v).stage := by
  rw [workersIs]
  exact (Function.forall_update_iff _
    fun _ (worker : Worker Callback (Idle Callback)) =>
      AtRest next.fiberState worker.stage).mpr ⟨here, fun v _ => (rest v).mono states⟩

theorem ready_of_update {states : FiberId → FiberState} {changed fiber : FiberId}
    {state : FiberState} (notReady : state ≠ .READY)
    (ready : Function.update states changed state fiber = .READY) : states fiber = .READY := by
  by_cases same : fiber = changed
  · subst same
    rw [Function.update_self] at ready
    exact absurd ready notReady
  · rwa [Function.update_of_ne same] at ready

theorem steps_atRest {threadOf : Fin size → ThreadId}
    {label : Scheduler.Label Callback size}
    (steps : Scheduler.Steps threadOf .asking scheduler label next)
    (own : ∀ entry, label ≠ .schedule entry) (empty : scheduler.fibers = [])
    (rest : ∀ w, AtRest scheduler.fiberState (scheduler.workers w).stage) :
    next.fibers = [] ∧ ∀ w, AtRest next.fiberState (next.workers w).stage := by
  cases steps with
  | schedule entry => exact absurd rfl (own entry)
  | autoStop | stopping => exact ⟨empty, rest⟩
  | newFiber callback =>
      exact ⟨empty, fun w => (rest w).mono fun fiber => ready_of_update (by decide)⟩
  | @scan w stageIs =>
      have nothing : Scheduler.found threadOf scheduler w =
          { taken := none, rest := [], passed := false } := by
        rw [Scheduler.found, empty]
        rfl
      rcases Scheduler.scanQueue_workers with ⟨worker, workersIs, stageAfter, -⟩
      rw [nothing] at stageAfter
      refine ⟨by rw [Scheduler.scanQueue_fibers, nothing], ?_⟩
      refine atRest_update rest workersIs ?_ (atRest_of_none stageAfter)
      rw [Scheduler.scanQueue_fiberState]
      exact fun _ => id
  | @tickle w ft stageIs =>
      have nothing : ft = none := (rest w).ft_eq_none (Or.inl stageIs)
      subst nothing
      exact ⟨empty, atRest_update rest rfl (fun _ => id) ⟨rfl, rfl⟩⟩
  | @resume w ft stageIs =>
      have nothing : ft = none := (rest w).ft_eq_none (Or.inr stageIs)
      subst nothing
      rcases Scheduler.nothingToRun_frame .asking scheduler w with
        ⟨worker, _, _, nextIs, stageAfter⟩
      rw [Scheduler.resume, nextIs]
      refine ⟨empty, atRest_update rest rfl (fun _ => id) ?_⟩
      rcases stageAfter with stageAfter | stageAfter | stageAfter <;> rw [stageAfter] <;>
        exact ⟨rfl, rfl⟩
  | @swapOut w _ _ _ _ stageIs | @release w _ _ _ stageIs =>
      have handles := (rest w).1
      rw [stageIs] at handles
      cases handles
  | @settle w fiber thread stageIs =>
      have settled := (rest w).2
      simp only [stageIs, inTransit, decide_eq_false_iff_not] at settled
      simp only [Scheduler.settle, if_neg settled]
      split
      · exact ⟨empty, atRest_update rest rfl (fun _ => ready_of_update (by decide)) ⟨rfl, rfl⟩⟩
      · exact ⟨empty, atRest_update rest rfl (fun _ => id) ⟨rfl, rfl⟩⟩
  | leaveIdle | afterIdle =>
      exact ⟨empty, atRest_update rest rfl (fun _ => id) ⟨rfl, rfl⟩⟩

theorem not_enabled {manager : Manager Callback size} {w : Fin size}
    (rest : AtRest manager.scheduler.fiberState (manager.scheduler.workers w).stage) :
    manager.enabled (.task w) = false := by
  have handles := rest.1
  rw [Manager.enabled]
  cases stageIs : (manager.scheduler.workers w).stage <;>
    simp [stageIs, Stage.handling] at handles ⊢

variable {threadOf : Fin size → ThreadId} {manager after : Manager Callback size}
  {label : Manager.Label Callback size}

theorem Calm.no_actor (calm : Calm manager) {actor : Actor size}
    (enabled : manager.enabled actor = true) : actor = .outside := by
  cases actor with
  | outside => rfl
  | task w => cases (not_enabled (calm.workers w)).symm.trans enabled

theorem Calm.goOn (calm : Calm manager) {w : Fin size} {stage : Idle Callback}
    (rest : AtRest manager.scheduler.fiberState (.idling stage)) : Calm (manager.goOn w stage) :=
  { calm with workers := atRest_update calm.workers rfl (fun _ => id) rest }

theorem Calm.leaveIdle (calm : Calm manager) {w : Fin size} (ended : Bool) :
    Calm (manager.leaveIdle w ended) :=
  { calm with workers := atRest_update calm.workers rfl (fun _ => id) ⟨rfl, rfl⟩ }

theorem Calm.expire (calm : Calm manager) (due : Timer Callback → Bool) :
    Calm (manager.expire due) :=
  { calm with timers := by simp [Manager.expire, calm.timers] }

theorem Calm.enqueue_nil (calm : Calm manager) : Calm (manager.enqueue []) :=
  { calm with }

/-! ## The count of pending events -/

def Idle.fires : Idle Callback → Nat
  | .firing _ => 1
  | .asking | .readTimers _ | .readQueue _ | .timing | .blocked | .woken | .expiring _
  | .dispatching => 0

def firingLoad (worker : Worker Callback (Idle Callback)) : Nat :=
  match worker.stage with
  | .idling stage => stage.fires
  | .scanning | .tickling _ | .scanned _ | .running .. | .returned .. | .released ..
  | .idled | .left => 0

def firingCount (scheduler : Scheduler Callback (Idle Callback) size) : Nat :=
  total firingLoad scheduler.workers (List.finRange size)

def PendingCounted (manager : Manager Callback size) : Prop :=
  manager.pendingEventSize + firingCount manager.scheduler = manager.armed.length

theorem firingCount_update {w : Fin size} {worker : Worker Callback (Idle Callback)}
    (workersIs : next.workers = Function.update scheduler.workers w worker) :
    firingCount next + firingLoad (scheduler.workers w) =
      firingCount scheduler + firingLoad worker :=
  total_finRange_update workersIs

theorem steps_firingCount {inner : Scheduler.Label Callback size}
    (steps : Scheduler.Steps threadOf .asking scheduler inner next)
    (stays : ∀ w ended, inner ≠ .leaveIdle w ended) :
    firingCount next = firingCount scheduler := by
  rcases steps.workers_cases stays with same | ⟨w, worker, workersIs, outside, entered⟩
  · rw [firingCount, same, firingCount]
  · have moved := firingCount_update workersIs
    have before : firingLoad (scheduler.workers w) = 0 := by
      rw [firingLoad]
      cases stageIs : (scheduler.workers w).stage with
      | idling stage => exact absurd stageIs (outside stage)
      | scanning | tickling | scanned | running | returned | released | idled | left => rfl
    have afterwards : firingLoad worker = 0 := by
      rw [firingLoad]
      cases stageIs : worker.stage with
      | idling stage =>
          rw [entered stage stageIs]
          rfl
      | scanning | tickling | scanned | running | returned | released | idled | left => rfl
    omega

theorem goOn_firingCount {w : Fin size} {before : Idle Callback}
    (stageIs : (manager.scheduler.workers w).stage = .idling before) (stage : Idle Callback) :
    firingCount (manager.goOn w stage).scheduler + before.fires =
      firingCount manager.scheduler + stage.fires := by
  have moved : firingCount (manager.goOn w stage).scheduler +
        firingLoad (manager.scheduler.workers w) =
      firingCount manager.scheduler +
        firingLoad { manager.scheduler.workers w with stage := .idling stage } :=
    firingCount_update rfl
  simpa only [firingLoad, stageIs] using moved

theorem enqueue_workers (entries : List (FiberAnThread Callback)) :
    (manager.enqueue entries).scheduler.workers = manager.scheduler.workers := by
  rw [Manager.enqueue_scheduler]

theorem enqueue_firingCount (entries : List (FiberAnThread Callback)) :
    firingCount (manager.enqueue entries).scheduler = firingCount manager.scheduler := by
  rw [firingCount, enqueue_workers, firingCount]

theorem PendingCounted.goOn (counted : PendingCounted manager) {w : Fin size}
    {before stage : Idle Callback}
    (stageIs : (manager.scheduler.workers w).stage = .idling before)
    (same : before.fires = stage.fires) : PendingCounted (manager.goOn w stage) := by
  have moved := goOn_firingCount stageIs stage
  have countIs : firingCount (manager.goOn w stage).scheduler =
      firingCount manager.scheduler := by omega
  rw [PendingCounted, countIs]
  exact counted

theorem PendingCounted.leaveIdle (counted : PendingCounted manager) {w : Fin size}
    {before : Idle Callback}
    (stageIs : (manager.scheduler.workers w).stage = .idling before)
    (none : before.fires = 0) (ended : Bool) : PendingCounted (manager.leaveIdle w ended) := by
  have left : ∃ worker, (manager.leaveIdle w ended).scheduler.workers =
      Function.update manager.scheduler.workers w worker ∧ worker.stage = .idled :=
    ⟨_, rfl, rfl⟩
  rcases left with ⟨worker, workersIs, stageAfter⟩
  have moved := firingCount_update workersIs
  simp only [firingLoad, stageIs, stageAfter, none, Nat.add_zero] at moved
  rw [PendingCounted, moved]
  exact counted

theorem PendingCounted.enqueue (counted : PendingCounted manager)
    (entries : List (FiberAnThread Callback)) : PendingCounted (manager.enqueue entries) := by
  rw [PendingCounted, enqueue_firingCount]
  exact counted

/-! ## The three readings -/

theorem goOn_stage {w v : Fin size} {stage idle : Idle Callback}
    (stageAfter : ((manager.goOn w stage).scheduler.workers v).stage = .idling idle) :
    (v = w ∧ idle = stage) ∨ (manager.scheduler.workers v).stage = .idling idle := by
  simp only [Manager.goOn, Scheduler.setWorker] at stageAfter
  by_cases here : v = w
  · subst here
    rw [Function.update_self] at stageAfter
    cases stageAfter
    exact Or.inl ⟨rfl, rfl⟩
  · rw [Function.update_of_ne here] at stageAfter
    exact Or.inr stageAfter

theorem leaveIdle_stage {w v : Fin size} {ended : Bool} {idle : Idle Callback}
    (stageAfter : ((manager.leaveIdle w ended).scheduler.workers v).stage = .idling idle) :
    (manager.scheduler.workers v).stage = .idling idle := by
  simp only [Manager.leaveIdle, Scheduler.leaveIdle, Scheduler.setWorker] at stageAfter
  by_cases here : v = w
  · subst here
    rw [Function.update_self] at stageAfter
    cases stageAfter
  · rw [Function.update_of_ne here] at stageAfter
    exact stageAfter

theorem PendingCounted.no_armed (counted : PendingCounted manager) (calm : Calm manager)
    (noEvent : manager.pendingEventSize = 0) : manager.armed = [] := by
  have none : firingCount manager.scheduler = 0 := by
    apply total_eq_zero_iff.mpr
    intro w _
    have settled := (calm.workers w).2
    rw [firingLoad]
    cases stageIs : (manager.scheduler.workers w).stage with
    | idling stage =>
        rw [stageIs] at settled
        cases stage <;> first | rfl | cases settled
    | scanning | tickling | scanned | running | returned | released | idled | left => rfl
  rw [PendingCounted, noEvent, none] at counted
  exact List.eq_nil_of_length_eq_zero (by omega)

theorem calm_of_readQueue (counted : manager.scheduler.drift = 0)
    (stops : manager.scheduler.isStopping = true) (noTimer : manager.timers = [])
    (handedOver : ∀ v,
      inTransit manager.scheduler.fiberState (manager.scheduler.workers v).stage = false) :
    Calm manager := by
  have sound := (Scheduler.activeCounted_iff.mpr counted).sound stops
  simp only [Scheduler.isStopping, Bool.and_eq_true, List.isEmpty_iff] at stops
  exact ⟨stops.1.1.1, stops.1.1.2, stops.1.2, noTimer, fun w => ⟨sound w, handedOver w⟩⟩

structure Judging (manager : Manager Callback size) : Prop where
  tracked : manager.scheduler.AllTracked
  counted : manager.scheduler.drift = 0
  pending : PendingCounted manager
  calm : ∀ w, (manager.scheduler.workers w).stage = .idling (.readQueue true) → Calm manager
  judged : manager.judged = true → Calm manager ∧ manager.armed = []

theorem start_judging (fiberState : FiberId → FiberState) (created : Nat) :
    Judging (Manager.start size fiberState created : Manager Callback size) := by
  have noHandling : (Manager.start size fiberState created :
      Manager Callback size).scheduler.handlingCount = 0 :=
    Scheduler.handlingCount_eq_zero_iff.mpr fun _ => rfl
  have noFiring : firingCount (Manager.start size fiberState created :
      Manager Callback size).scheduler = 0 := total_eq_zero_iff.mpr fun _ _ => rfl
  refine ⟨fun _ => rfl, ?_, ?_, nofun, nofun⟩
  · rw [Scheduler.drift, noHandling]
    rfl
  · rw [PendingCounted, noFiring]
    rfl

variable [DecidableEq Callback]

theorem PendingCounted.step (counted : PendingCounted manager)
    (steps : manager.Steps threadOf label after)
    (noDelEvent : ∀ actor slot, label ≠ .delEvent actor slot) : PendingCounted after := by
  cases steps with
  | scheduler tickles due own stays steps =>
      rw [PendingCounted, steps_firingCount steps stays]
      exact counted
  | delEvent => exact absurd rfl (noDelEvent _ _)
  | timers | pipe => exact counted
  | schedule => exact counted.enqueue _
  | addEvent =>
      rw [PendingCounted] at counted ⊢
      simp only [List.length_append, List.length_singleton]
      omega
  | cancelEvent enabled member =>
      have shorter := List.length_erase_add_one member
      rw [PendingCounted] at counted ⊢
      simp only [enqueue_firingCount]
      omega
  | readTimers stageIs | readQueue stageIs => exact counted.goOn stageIs rfl
  | judge stageIs => exact counted.leaveIdle stageIs rfl true
  | leave stageIs => exact counted.leaveIdle stageIs rfl false
  | @sleep _ w before stage stageIs asleep afterIs =>
      have none : before.fires = 0 := by
        cases before <;> first | rfl | cases asleep
      refine counted.goOn stageIs (none.trans ?_)
      rcases afterIs with rfl | rfl | rfl <;> rfl
  | expire due stageIs =>
      have kept : PendingCounted (manager.expire due) := counted
      exact kept.goOn stageIs rfl
  | @queueExpired w cbs stageIs =>
      have queuedIs : ((manager.enqueue (cbs.map fun cb => { work := .cb cb })).scheduler.workers
          w).stage = .idling (.expiring cbs) := by
        rw [enqueue_workers]
        exact stageIs
      exact (counted.enqueue _).goOn queuedIs rfl
  | @dispatch w slot stageIs member =>
      have moved := goOn_firingCount stageIs (.firing slot)
      simp only [Idle.fires] at moved
      rw [PendingCounted] at counted ⊢
      simp only
      have armedIs : (manager.goOn w (.firing slot)).armed = manager.armed := rfl
      rw [armedIs]
      omega
  | @trigger w slot stageIs member =>
      have shorter := List.length_erase_add_one member
      have queuedIs : ((manager.enqueue (Manager.handOver slot)).scheduler.workers w).stage =
          .idling (.firing slot) := by
        rw [enqueue_workers]
        exact stageIs
      have moved := goOn_firingCount queuedIs .dispatching
      rw [enqueue_firingCount] at moved
      simp only [Idle.fires] at moved
      rw [PendingCounted] at counted ⊢
      have pendingIs : ((manager.enqueue (Manager.handOver slot)).goOn w
          .dispatching).pendingEventSize = manager.pendingEventSize := rfl
      simp only [pendingIs]
      omega

theorem Calm.step (calm : Calm manager) (steps : manager.Steps threadOf label after)
    (alone : addsWork label = false) (noDelEvent : ∀ actor slot, label ≠ .delEvent actor slot)
    (noDispatch : ∀ w slot, label = .dispatch w slot → slot ∉ manager.armed) :
    Calm after ∧ after.armed = manager.armed := by
  cases steps with
  | scheduler tickles due own stays steps =>
      rcases steps_atRest steps own calm.fibers calm.workers with ⟨empty, rest⟩
      rcases steps.flags ⟨calm.autoStop, calm.stopping⟩ with ⟨autoStop, stopping⟩
      exact ⟨⟨autoStop, stopping, empty, calm.timers, rest⟩, rfl⟩
  | schedule entry enabled | addEvent work enabled | cancelEvent enabled =>
      rw [calm.no_actor enabled] at alone
      cases alone
  | delEvent => exact absurd rfl (noDelEvent _ _)
  | timers timers due enabled labelIs =>
      rw [calm.no_actor enabled] at labelIs
      rcases labelIs with ⟨timer, atFront, rfl⟩ | ⟨kept, rfl, timersAre⟩
      · cases alone
      · rw [calm.timers] at timersAre
        exact ⟨{ calm with timers := timersAre }, rfl⟩
  | pipe => exact ⟨{ calm with }, rfl⟩
  | readTimers | readQueue => exact ⟨calm.goOn ⟨rfl, rfl⟩, rfl⟩
  | judge => exact ⟨{ calm.leaveIdle true with }, rfl⟩
  | leave => exact ⟨calm.leaveIdle false, rfl⟩
  | sleep stageIs asleep afterIs =>
      rcases afterIs with rfl | rfl | rfl <;> exact ⟨calm.goOn ⟨rfl, rfl⟩, rfl⟩
  | expire due stageIs =>
      refine ⟨(calm.expire due).goOn ⟨rfl, ?_⟩, rfl⟩
      simp [inTransit, calm.timers]
  | @queueExpired w cbs stageIs =>
      have settled := (calm.workers w).2
      simp only [stageIs, inTransit, Bool.not_eq_false', List.isEmpty_iff] at settled
      subst settled
      exact ⟨calm.enqueue_nil.goOn ⟨rfl, rfl⟩, rfl⟩
  | dispatch stageIs member => exact absurd member (noDispatch _ _ rfl)
  | @trigger w _ stageIs =>
      have settled := (calm.workers w).2
      rw [stageIs] at settled
      cases settled

theorem manager_counted (steps : manager.Steps threadOf label after)
    (balanced : ∀ inner, label = .scheduler inner → manager.scheduler.Balanced inner)
    (tracked : manager.scheduler.AllTracked) (counted : manager.scheduler.drift = 0) :
    after.scheduler.AllTracked ∧ after.scheduler.drift = 0 := by
  have goOn : ∀ {w before}, (manager.scheduler.workers w).stage = .idling before → ∀ stage,
      (manager.goOn w stage).scheduler.AllTracked ∧
        (manager.goOn w stage).scheduler.drift = 0 := by
    intro w before stageIs stage
    have trackedHere := tracked w
    simp only [Worker.Tracked, stageIs] at trackedHere
    have moved : Scheduler.Moved manager.scheduler (manager.goOn w stage).scheduler w 0 := by
      refine ⟨_, rfl, trackedHere, ?_⟩
      simp [Worker.load, Stage.handling, Manager.goOn, Scheduler.setWorker, stageIs]
    rcases moved.tracks tracked with ⟨trackedAfter, driftIs⟩
    exact ⟨trackedAfter, driftIs.trans (by rw [counted, Int.add_zero])⟩
  have leaveIdle : ∀ {w before}, (manager.scheduler.workers w).stage = .idling before →
      ∀ ended, (manager.leaveIdle w ended).scheduler.AllTracked ∧
        (manager.leaveIdle w ended).scheduler.drift = 0 := by
    intro w before stageIs ended
    rcases (Scheduler.idle_moved tracked ended stageIs).tracks tracked with
      ⟨trackedAfter, driftIs⟩
    exact ⟨trackedAfter, driftIs.trans (by rw [counted, Int.add_zero])⟩
  cases steps with
  | scheduler tickles due own stays steps =>
      rcases steps.tracks tracked with ⟨trackedAfter, driftIs⟩
      have noExcess := Scheduler.excess_eq_zero_iff.mpr (balanced _ rfl)
      refine ⟨trackedAfter, ?_⟩
      rw [driftIs, noExcess, counted]
      rfl
  | timers | pipe | addEvent | delEvent => exact ⟨tracked, counted⟩
  | schedule | cancelEvent =>
      simp only [Manager.enqueue_scheduler]
      exact ⟨tracked, counted⟩
  | judge stageIs => exact leaveIdle stageIs true
  | leave stageIs => exact leaveIdle stageIs false
  | readTimers stageIs | readQueue stageIs | sleep stageIs | expire due stageIs
  | dispatch stageIs => exact goOn stageIs _
  | queueExpired stageIs | trigger stageIs =>
      simp only [Manager.goOn, Manager.enqueue_scheduler]
      exact goOn stageIs _

theorem readQueue_entered (steps : manager.Steps threadOf label after) {v : Fin size}
    (stageAfter : (after.scheduler.workers v).stage = .idling (.readQueue true)) :
    (manager.scheduler.workers v).stage = .idling (.readQueue true) ∨
      (label = .readQueue v ∧
        (manager.scheduler.workers v).stage = .idling (.readTimers true) ∧
        manager.scheduler.isStopping = true ∧ after = manager.goOn v (.readQueue true)) := by
  cases steps with
  | scheduler tickles due own stays steps =>
      rcases steps.workers_cases stays with same | ⟨w, worker, workersIs, outside, entered⟩
      · simp only [same] at stageAfter
        exact Or.inl stageAfter
      · simp only [workersIs] at stageAfter
        by_cases here : v = w
        · subst here
          rw [Function.update_self] at stageAfter
          cases entered _ stageAfter
        · rw [Function.update_of_ne here] at stageAfter
          exact Or.inl stageAfter
  | timers | pipe | addEvent | delEvent => exact Or.inl stageAfter
  | schedule | cancelEvent =>
      simp only [enqueue_workers] at stageAfter
      exact Or.inl stageAfter
  | judge | leave => exact Or.inl (leaveIdle_stage stageAfter)
  | readQueue stageIs stops =>
      rcases goOn_stage stageAfter with ⟨rfl, ⟨⟩⟩ | before
      · exact Or.inr ⟨rfl, stageIs, stops, rfl⟩
      · exact Or.inl before
  | readTimers | expire | dispatch =>
      rcases goOn_stage stageAfter with ⟨-, ⟨⟩⟩ | before
      exact Or.inl before
  | sleep stageIs asleep afterIs =>
      rcases goOn_stage stageAfter with ⟨-, rfl⟩ | before
      · rcases afterIs with ⟨⟨⟩⟩ | ⟨⟨⟩⟩ | ⟨⟨⟩⟩
      · exact Or.inl before
  | queueExpired | trigger =>
      rcases goOn_stage stageAfter with ⟨-, ⟨⟩⟩ | before
      rw [enqueue_workers] at before
      exact Or.inl before

theorem Judging.step (judging : Judging manager) (undisturbed : Undisturbed manager label)
    (stepped : (closed threadOf).step manager label = some after) : Judging after := by
  rcases Option.ite_none_left_eq_some.mp stepped with ⟨guard, stepped⟩
  have steps := Manager.step_eq_some stepped
  have alone : Calm manager → addsWork label = false := by
    intro calm
    simpa [calm.autoStop, calm.stopping] using guard
  rcases manager_counted steps undisturbed.balanced judging.tracked judging.counted with
    ⟨tracked, counted⟩
  refine ⟨tracked, counted, judging.pending.step steps undisturbed.noDelEvent, ?_, ?_⟩
  · intro v stageAfter
    rcases readQueue_entered steps stageAfter with stageIs | ⟨labelIs, stageIs, stops, rfl⟩
    · have calm := judging.calm v stageIs
      have noDispatch : ∀ w slot, label = .dispatch w slot → slot ∉ manager.armed :=
        fun w slot labelIs => absurd stageIs (undisturbed.noDispatch w slot labelIs v)
      exact (calm.step steps (alone calm) undisturbed.noDelEvent noDispatch).1
    · rcases undisturbed.handedOver v labelIs stageIs stops with ⟨noTimer, handedOver⟩
      exact (calm_of_readQueue judging.counted stops noTimer handedOver).goOn ⟨rfl, rfl⟩
  · intro judged
    by_cases before : manager.judged = true
    · rcases judging.judged before with ⟨calm, noEvent⟩
      have noDispatch : ∀ w slot, label = .dispatch w slot → slot ∉ manager.armed := by
        simp [noEvent]
      rcases calm.step steps (alone calm) undisturbed.noDelEvent noDispatch with
        ⟨calmAfter, armedIs⟩
      exact ⟨calmAfter, armedIs.trans noEvent⟩
    · cases steps with
      | judge stageIs noEvent =>
          have calm := judging.calm _ stageIs
          exact ⟨{ calm.leaveIdle true with }, judging.pending.no_armed calm noEvent⟩
      | scheduler | schedule | timers | addEvent | delEvent | cancelEvent | pipe | readTimers
      | readQueue | sleep | expire | queueExpired | dispatch | trigger | leave =>
          exact absurd judged before

/-- In an undisturbed run `stopping(timeout)` is true only when no work is left, at
rest or in transit, and none comes up afterwards. -/
theorem judgedRightly_always (threadOf : Fin size → ThreadId)
    (fiberState : FiberId → FiberState) (created : Nat)
    (labels : List (Manager.Label Callback size))
    (meet : (closed threadOf).StepsMeet Undisturbed
      (Manager.start size fiberState created) labels) :
    (closed threadOf).Always JudgedRightly (Manager.start size fiberState created) labels := by
  refine Machine.StepsMeet.always Judging ?_ ?_ (start_judging fiberState created) meet
  · exact fun _ _ _ judging undisturbed stepped => judging.step undisturbed stepped
  · exact fun _ judging judged =>
      ⟨(judging.judged judged).1.fibers, (judging.judged judged).1.workers⟩

/-- The worker runs a callback to its end, finds nothing more to do, is told to stop, and
leaves its loop. -/
theorem judgedRightly_always_finished :
    let labels : List (Manager.Label Nat 1) :=
      [.schedule .outside { work := .cb 7 }, .scheduler (.scan 0), .scheduler (.resume 0),
        .scheduler (.swapOut 0 .finished), .scheduler (.release 0), .scheduler (.settle 0),
        .scheduler (.scan 0), .scheduler (.resume 0), .readTimers 0, .scheduler .autoStop,
        .scheduler .stopping, .readQueue 0, .readPending 0, .scheduler (.afterIdle 0),
        .scheduler (.scan 0), .scheduler (.resume 0)]
    (closed fun _ => 1).Always JudgedRightly (Manager.start 1 (fun _ => .INIT) 0) labels ∧
      ∃ final, (closed fun _ => 1).run (Manager.start 1 (fun _ => .INIT) 0) labels = some final ∧
        final.judged = true := by
  intro labels
  refine ⟨judgedRightly_always _ _ _ _ ?_, _, rfl, rfl⟩
  apply Machine.StepsMeet.cons rfl ⟨nofun, nofun, nofun, nofun⟩
  apply Machine.StepsMeet.cons rfl ⟨by rintro _ ⟨⟩ _ ⟨⟩, nofun, nofun, nofun⟩
  apply Machine.StepsMeet.cons rfl ⟨by rintro _ ⟨⟩ _ ⟨⟩ _; rfl, nofun, nofun, nofun⟩
  iterate 4 apply Machine.StepsMeet.cons rfl ⟨by rintro _ ⟨⟩ _ ⟨⟩, nofun, nofun, nofun⟩
  apply Machine.StepsMeet.cons rfl ⟨by rintro _ ⟨⟩ _ ⟨⟩ _; rfl, nofun, nofun, nofun⟩
  apply Machine.StepsMeet.cons rfl ⟨nofun, nofun, nofun, nofun⟩
  iterate 2 apply Machine.StepsMeet.cons rfl ⟨by rintro _ ⟨⟩ _ ⟨⟩, nofun, nofun, nofun⟩
  apply Machine.StepsMeet.cons rfl
    ⟨nofun, nofun, fun _ _ _ _ => ⟨rfl, Fin.forall_fin_one.mpr rfl⟩, nofun⟩
  apply Machine.StepsMeet.cons rfl ⟨nofun, nofun, nofun, nofun⟩
  iterate 2 apply Machine.StepsMeet.cons rfl ⟨by rintro _ ⟨⟩ _ ⟨⟩, nofun, nofun, nofun⟩
  exact Machine.StepsMeet.cons rfl ⟨by rintro _ ⟨⟩ _ ⟨⟩ _; rfl, nofun, nofun, nofun⟩ trivial

/-- The second worker judges while the first has a ready fiber that is neither counted
nor queued. -/
theorem judgedRightly_always_fails :
    ¬(closed fun _ => 1).Always JudgedRightly
      (Manager.start 2 (fun _ => .INIT) 0 : Manager Nat 2)
      [.schedule .outside { work := .cb 7 }, .scheduler (.scan 0), .scheduler (.resume 0),
        .scheduler .autoStop, .scheduler .stopping, .scheduler (.swapOut 0 .ready),
        .scheduler (.scan 1), .scheduler (.resume 1), .readTimers 1,
        .scheduler (.release 0), .readQueue 1, .readPending 1, .scheduler (.settle 0)] := by
  intro always
  have empty := (always.last rfl rfl).1
  cases empty

end Sylar.Idling
