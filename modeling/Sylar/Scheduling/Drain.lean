import Mathlib.Data.List.Count
import Mathlib.Tactic.Common
import Sylar.Scheduling.Unpinned

/-! # What `stop` leaves behind

A callback lives on in the fiber made for it, and no step loses it or runs it twice.
With workers in the pool, someone comes back to the queue until it is empty. A
caller that is the only worker never runs the loop.
-/

namespace Sylar.Scheduling

open Foundation

variable {Callback Idle : Type}

namespace Scheduler

variable {config : Config} {scheduler next : Scheduler Callback Unit config.poolSize}
  {threadOf : Fin config.poolSize → ThreadId}
  {label : Label Callback config.poolSize}

/-! ## No callback is lost -/

section Completion

variable [DecidableEq Callback]

def unfinished {size : Nat} (scheduler : Scheduler Callback Idle size) (callback : Callback) :
    Work Callback → Nat
  | .cb other => if other = callback then 1 else 0
  | .fiber fiber =>
      if scheduler.fiberCb fiber = some callback ∧ scheduler.fiberState fiber ≠ .TERM ∧
        scheduler.fiberState fiber ≠ .EXCET then 1 else 0

def remaining {size : Nat} (scheduler : Scheduler Callback Idle size)
    (callback : Callback) : Nat :=
  scheduler.inPlay (scheduler.unfinished callback)

theorem unfinished_congr {size : Nat} {scheduler next : Scheduler Callback Idle size}
    {callback : Callback} (cbs : next.fiberCb = scheduler.fiberCb)
    (states : next.fiberState = scheduler.fiberState) :
    next.unfinished callback = scheduler.unfinished callback := by
  funext work
  cases work with
  | cb other => rfl
  | fiber fiber => simp only [unfinished, cbs, states]

theorem unfinished_of_ne {size : Nat} {scheduler next : Scheduler Callback Idle size}
    (callback : Callback) {fiber : FiberId}
    (cbs : ∀ other, other ≠ fiber → next.fiberCb other = scheduler.fiberCb other)
    (states : ∀ other, other ≠ fiber → next.fiberState other = scheduler.fiberState other) :
    ∀ work, work ≠ .fiber fiber →
      next.unfinished callback work = scheduler.unfinished callback work := by
  intro work different
  cases work with
  | cb other => rfl
  | fiber other =>
      have apart : other ≠ fiber := fun same => different (congrArg Work.fiber same)
      simp only [unfinished, cbs other apart, states other apart]

variable {callback : Callback}

theorem remaining_kept (steps : Steps threadOf () scheduler label next)
    (same : next.unfinished callback = scheduler.unfinished callback)
    (nothing : (scheduler.drops label).elim 0 (scheduler.unfinished callback) =
      (scheduler.brings label).elim 0 (scheduler.unfinished callback)) :
    next.remaining callback = scheduler.remaining callback := by
  have balance : next.inPlay (scheduler.unfinished callback) +
      (scheduler.drops label).elim 0 (scheduler.unfinished callback) =
      scheduler.inPlay (scheduler.unfinished callback) +
        (scheduler.brings label).elim 0 (scheduler.unfinished callback) := steps.inPlay
  rw [remaining, remaining, same]
  omega

theorem swapOut_unfinished {w : Fin config.poolSize} {fiber : FiberId} {thread : ThreadId}
    {fromCb : Bool} (how : SwapOut) (notHold : how ≠ .hold)
    (stageIs : (scheduler.workers w).stage = .running fiber thread fromCb)
    (executes : scheduler.fiberState fiber = .EXEC) :
    (scheduler.swapOut w fiber thread fromCb how).unfinished callback (.fiber fiber) +
        (Program.completes scheduler (.swapOut w how)).toList.count callback =
      scheduler.unfinished callback (.fiber fiber) := by
  by_cases cbIs : scheduler.fiberCb fiber = some callback
  · cases how with
    | hold => exact absurd rfl notHold
    | ready | finished | threw =>
        simp [unfinished, Program.completes, Scheduler.swapOut, setFiber, setWorker, stageIs,
          executes, SwapOut.state, cbIs]
  · have other : (scheduler.fiberCb fiber).toList.count callback = 0 := by
      cases fiberCbIs : scheduler.fiberCb fiber with
      | none => rfl
      | some another =>
          rw [fiberCbIs] at cbIs
          apply List.count_eq_zero_of_not_mem
          simpa [eq_comm] using cbIs
    cases how with
    | hold => exact absurd rfl notHold
    | ready | finished | threw =>
        simp [unfinished, Program.completes, Scheduler.swapOut, setFiber, setWorker, stageIs,
          cbIs, other]

theorem swapOut_remaining {w : Fin config.poolSize} {fiber : FiberId} {thread : ThreadId}
    {fromCb : Bool} {how : SwapOut} (owned : scheduler.Owned) (fresh : scheduler.Fresh)
    (notHold : how ≠ .hold)
    (stageIs : (scheduler.workers w).stage = .running fiber thread fromCb) :
    (scheduler.swapOut w fiber thread fromCb how).remaining callback +
        (Program.completes scheduler (.swapOut w how)).toList.count callback =
      scheduler.remaining callback := by
  have before := fresh.at_stage stageIs
  have finished : (scheduler.swapOut w fiber thread fromCb how).unfinished callback
      (.fiber fiber) + (Program.completes scheduler (.swapOut w how)).toList.count callback =
      scheduler.unfinished callback (.fiber fiber) :=
    swapOut_unfinished how notHold stageIs before.2
  have holds : (scheduler.workers w).stage.hand = some (.fiber fiber) := by
    rw [stageIs]
    rfl
  have single : (scheduler.swapOut w fiber thread fromCb how).owners fiber = 1 := by
    have kept : (scheduler.swapOut w fiber thread fromCb how).owners fiber =
        scheduler.owners fiber := swapOut_inPlay how stageIs
    have most := owned.once fiber
    have least := owners_pos holds
    omega
  have kept : (scheduler.swapOut w fiber thread fromCb how).inPlay
      (scheduler.unfinished callback) = scheduler.remaining callback :=
    swapOut_inPlay how stageIs
  have elsewhere : ∀ work, work ≠ .fiber fiber →
      (scheduler.swapOut w fiber thread fromCb how).unfinished callback work =
        scheduler.unfinished callback work :=
    unfinished_of_ne callback
      (fun other apart => by simp [Scheduler.swapOut, setFiber, setWorker])
      (fun other apart => by simp [Scheduler.swapOut, setFiber, setWorker, apart])
  have reweighed :=
    (scheduler.swapOut w fiber thread fromCb how).inPlay_reweigh elsewhere
  rw [single] at reweighed
  rw [remaining]
  omega

theorem resumeCb_remaining {w : Fin config.poolSize} {cb : Callback} {thread : ThreadId}
    (owned : scheduler.Owned)
    (stageIs : (scheduler.workers w).stage = .scanned (some ⟨.cb cb, thread⟩)) :
    (scheduler.resume () w (some ⟨.cb cb, thread⟩)).remaining callback =
      scheduler.remaining callback := by
  have moved : ∀ weight : Work Callback → Nat,
      (scheduler.resume () w (some ⟨.cb cb, thread⟩)).inPlay weight + weight (.cb cb) =
        scheduler.inPlay weight + weight (.fiber scheduler.created) := by
    intro weight
    have balance : (scheduler.resume () w (some ⟨.cb cb, thread⟩)).inPlay weight +
        (scheduler.drops (.resume w)).elim 0 weight =
        scheduler.inPlay weight + (scheduler.brings (.resume w)).elim 0 weight :=
      resume_inPlay stageIs
    simpa only [drops, brings, stageIs, Option.elim_some] using balance
  have single : (scheduler.resume () w (some ⟨.cb cb, thread⟩)).owners
      scheduler.created = 1 := by
    have counted : (scheduler.resume () w (some ⟨.cb cb, thread⟩)).owners
        scheduler.created = scheduler.owners scheduler.created + 1 := by
      simpa [isFiber, owners] using moved (isFiber scheduler.created)
    have none := owned.known scheduler.created (Nat.le_refl _)
    omega
  have elsewhere : ∀ work, work ≠ .fiber scheduler.created →
      (scheduler.resume () w (some ⟨.cb cb, thread⟩)).unfinished callback work =
        scheduler.unfinished callback work :=
    unfinished_of_ne callback
      (fun other apart => by simp [resume, newFiber, swapIn, setFiber, setWorker, apart])
      (fun other apart => by simp [resume, newFiber, swapIn, setFiber, setWorker, apart])
  have made : (scheduler.resume () w (some ⟨.cb cb, thread⟩)).unfinished callback
      (.fiber scheduler.created) = scheduler.unfinished callback (.cb cb) := by
    simp [unfinished, resume, newFiber, swapIn, setFiber, setWorker]
  have reweighed :=
    (scheduler.resume () w (some ⟨.cb cb, thread⟩)).inPlay_reweigh elsewhere
  have balance := moved (scheduler.unfinished callback)
  rw [single] at reweighed
  rw [remaining, remaining]
  omega

theorem Steps.remaining (steps : Steps threadOf () scheduler label next)
    (allowed : Program.Allowed scheduler label = true) (owned : scheduler.Owned)
    (fresh : scheduler.Fresh) :
    next.remaining callback +
        (Program.completes scheduler label).toList.count callback =
      scheduler.remaining callback := by
  have kept : next.unfinished callback = scheduler.unfinished callback →
      (scheduler.drops label).elim 0 (scheduler.unfinished callback) =
        (scheduler.brings label).elim 0 (scheduler.unfinished callback) →
      next.remaining callback = scheduler.remaining callback := remaining_kept steps
  cases steps with
  | schedule | newFiber | autoStop | stopping => cases allowed
  | scan stageIs =>
      exact kept
        (unfinished_congr scanQueue_fiberCb scanQueue_fiberState) rfl
  | tickle stageIs =>
      exact kept (unfinished_congr rfl rfl) rfl
  | @resume w ft stageIs =>
      rcases ft with _ | ⟨cb | fiber, thread⟩
      · apply kept
        · rcases nothingToRun_frame () scheduler w with ⟨_, _, _, nextIs, -⟩
          rw [Scheduler.resume, nextIs]
          exact unfinished_congr rfl rfl
        · simp [drops, brings, stageIs]
      · exact resumeCb_remaining owned stageIs
      · have ready : scheduler.fiberState fiber = .READY := fresh.ready_of_scanned stageIs
        apply kept
        · rw [fresh.resume_fiber stageIs]
          funext work
          cases work with
          | cb other => simp [unfinished]
          | fiber other =>
              by_cases same : other = fiber
              · subst same
                simp [unfinished, ready, swapIn, setFiber, setWorker]
              · simp [unfinished, swapIn, setFiber, setWorker, same]
        · simp [drops, brings, stageIs, ready]
  | swapOut how stageIs =>
      refine swapOut_remaining owned fresh ?_ stageIs
      intro same
      subst same
      cases allowed
  | release stageIs =>
      exact kept (unfinished_congr rfl rfl) rfl
  | @settle w fiber thread stageIs =>
      have before := fresh.at_stage stageIs
      apply kept
      · rcases before.2 with ready | ended | threw <;>
          exact unfinished_congr (by simp [Scheduler.settle, *]; rfl)
            (by simp [Scheduler.settle, *]; rfl)
      · rcases before.2 with ready | ended | threw <;>
          simp [drops, brings, unfinished, *]
  | leaveIdle ended stageIs =>
      exact kept (unfinished_congr rfl rfl) rfl
  | afterIdle stageIs =>
      exact kept (unfinished_congr rfl rfl) rfl

end Completion

/-! ## The way out of the loop -/

def Closing {size : Nat} (scheduler : Scheduler Callback Idle size) : Prop :=
  ∀ w, ((scheduler.workers w).stage = .left → (scheduler.workers w).past) ∧
    ((scheduler.workers w).idleFiber = .TERM → scheduler.autoStop = true)

theorem Closing.moved {size : Nat} {scheduler next : Scheduler Callback Idle size}
    {w : Fin size} {worker : Worker Callback Idle} (closing : scheduler.Closing)
    (workersIs : next.workers = Function.update scheduler.workers w worker)
    (autoStopIs : next.autoStop = scheduler.autoStop)
    (left : worker.stage = .left → worker.past)
    (ended : worker.idleFiber = .TERM → scheduler.autoStop = true) :
    next.Closing ∧ next.autoStop = scheduler.autoStop := by
  refine ⟨?_, autoStopIs⟩
  rw [Closing, workersIs, autoStopIs]
  exact (Function.forall_update_iff _ fun _ (worker : Worker Callback Idle) =>
    (worker.stage = .left → worker.past) ∧
      (worker.idleFiber = .TERM → scheduler.autoStop = true)).mpr
    ⟨⟨left, ended⟩, fun v _ => closing v⟩

theorem Closing.goOn {size : Nat} {scheduler next : Scheduler Callback Idle size}
    {w : Fin size} {worker : Worker Callback Idle} (closing : scheduler.Closing)
    (workersIs : next.workers = Function.update scheduler.workers w worker)
    (autoStopIs : next.autoStop = scheduler.autoStop)
    (stays : worker.stage ≠ .left)
    (idleFiberIs : worker.idleFiber = (scheduler.workers w).idleFiber) :
    next.Closing ∧ next.autoStop = scheduler.autoStop := by
  apply closing.moved workersIs autoStopIs
  · intro left
    exact absurd left stays
  · rw [idleFiberIs]
    exact (closing w).2

theorem Closing.nothingToRun {size : Nat} {scheduler : Scheduler Callback Idle size}
    (closing : scheduler.Closing) (enter : Idle) (w : Fin size) :
    (scheduler.nothingToRun enter w).Closing ∧
      (scheduler.nothingToRun enter w).autoStop = scheduler.autoStop := by
  simp only [Scheduler.nothingToRun]
  split
  · exact closing.goOn rfl rfl (by simp) rfl
  · rename_i inactive
    split
    · rename_i ended
      exact closing.moved rfl rfl
        (fun _ => ⟨by simpa using inactive, ended, Or.inr (Or.inr rfl)⟩) (closing w).2
    · exact closing.moved rfl rfl (by simp) (by simp)

theorem Steps.closing (steps : Steps threadOf () scheduler label next)
    (allowed : Program.Allowed scheduler label = true) (closing : scheduler.Closing) :
    next.Closing ∧ next.autoStop = scheduler.autoStop := by
  cases steps with
  | schedule | newFiber | autoStop | stopping => cases allowed
  | @scan w stageIs =>
      rcases scanQueue_workers with ⟨worker, workersIs, stageAfter, idleFiberIs, -⟩
      apply closing.goOn workersIs scanQueue_autoStop ?_ idleFiberIs
      rcases stageAfter with stageAfter | stageAfter <;> simp [stageAfter]
  | @resume w ft stageIs =>
      rcases resume_frame () scheduler w ft with nextIs | ⟨_, _, _, _, _, _, _, nextIs⟩
      · rw [nextIs]
        exact closing.nothingToRun () w
      · rw [nextIs]
        exact closing.goOn rfl rfl (by simp) rfl
  | @settle w fiber thread =>
      rcases settle_frame scheduler w fiber thread with ⟨_, _, nextIs⟩
      rw [nextIs]
      exact closing.goOn rfl rfl (by simp) rfl
  | @tickle w | @swapOut w | @release w => exact closing.goOn rfl rfl (by simp) rfl
  | @leaveIdle w stage ended stageIs =>
      refine closing.moved rfl rfl (by simp) ?_
      intro terminated
      have stops : ended = scheduler.isStopping := by simpa [Program.Allowed] using allowed
      cases ended with
      | true =>
          simp only [isStopping, Bool.true_eq, Bool.and_eq_true] at stops
          exact stops.1.1.1
      | false => exact (closing w).2 terminated
  | @afterIdle w stageIs =>
      refine closing.moved rfl rfl (by simp) ?_
      simp only
      split
      · intro terminated
        cases terminated
      · exact (closing w).2

theorem Steps.not_left (steps : Steps threadOf () scheduler label next)
    (allowed : Program.Allowed scheduler label = true)
    (left : ∀ w, (scheduler.workers w).stage = .left) : False := by
  cases steps with
  | schedule | newFiber | autoStop | stopping => cases allowed
  | @scan w stageIs | @tickle w _ stageIs | @resume w _ stageIs | @swapOut w _ _ _ _ stageIs
  | @release w _ _ _ stageIs | @settle w _ _ stageIs | @leaveIdle w _ _ stageIs
  | @afterIdle w stageIs =>
      rw [left w] at stageIs
      cases stageIs

end Scheduler

theorem Config.poolSize_pos_iff {config : Config} :
    0 < config.poolSize ↔ config.useCaller = false ∨ 2 ≤ config.threadPoolSize := by
  have positive := config.positive
  rw [Config.poolSize]
  cases config.useCaller with
  | false => simpa using positive
  | true =>
      simp
      omega

namespace Program

variable {config : Config} {threadOf : Fin config.poolSize → ThreadId}
  {program next : Program Callback config} {label : Label Callback config}

def handedIn (labels : List (Label Callback config)) : List Callback :=
  labels.filterMap fun label =>
    match label with
    | .schedule callback => some callback
    | .start | .callStop | .setStopping | .join | .worker _ => none

theorem run_scheduled {labels : List (Label Callback config)} {final : Program Callback config}
    (ran : (machine threadOf).run program labels = some final) :
    final.scheduled = program.scheduled ++ handedIn labels := by
  induction labels generalizing program with
  | nil =>
      cases ran
      simp [handedIn]
  | cons label labels induction =>
      rcases Option.bind_eq_some_iff.mp ran with ⟨next, stepped, rest⟩
      rw [induction rest]
      cases step_eq_some stepped <;> simp [handedIn]

theorem construct_inPlay (callerThread : ThreadId) (weight : Work Callback → Nat) :
    (construct config callerThread).scheduler.inPlay weight = 0 :=
  Scheduler.inPlay_eq_zero weight rfl fun _ => rfl

/-! ## A pool with workers -/

section Workers

variable [DecidableEq Callback]

structure Draining (program : Program Callback config) : Prop where
  owned : program.scheduler.Owned
  fresh : program.scheduler.Fresh
  closing : program.scheduler.Closing
  attended : program.scheduler.Attended
  conserved : ∀ callback, program.scheduled.count callback =
    program.completed.count callback + program.scheduler.remaining callback
  stopped : program.scheduler.autoStop = true →
    program.caller ≠ .constructed ∧ program.caller ≠ .started
  left : program.caller = .returned → ∀ w, (program.scheduler.workers w).stage = .left

theorem construct_draining (callerThread : ThreadId) :
    (construct config callerThread : Program Callback config).Draining where
  owned :=
    { once := fun fiber => (construct_inPlay callerThread _).trans_le (Nat.zero_le _)
      known := fun _ _ => construct_inPlay callerThread _ }
  fresh := ⟨nofun, fun _ => trivial⟩
  closing _ := ⟨nofun, nofun⟩
  attended := Or.inl rfl
  conserved callback := by
    rw [Scheduler.remaining, construct_inPlay]
    rfl
  stopped := nofun
  left := nofun

theorem Draining.schedule (threadOf : Fin config.poolSize → ThreadId)
    (draining : program.Draining) (workers : 0 < config.poolSize)
    (callback : Callback)
    (before : program.caller = .constructed ∨ program.caller = .started) :
    Draining { program with
      scheduler := program.scheduler.schedulerNoLock { work := .cb callback }
      scheduled := program.scheduled ++ [callback] } := by
  have steps : Scheduler.Steps threadOf () program.scheduler
      (.schedule { work := .cb callback })
      (program.scheduler.schedulerNoLock { work := .cb callback }) := .schedule _
  constructor
  · exact steps.owned (by rintro _ ⟨⟩; exact ⟨callback, rfl⟩) draining.owned
  · refine ⟨?_, draining.fresh.2⟩
    intro entry member
    rcases List.mem_append.mp member with old | new
    · exact draining.fresh.1 entry old
    · rw [List.mem_singleton.mp new]
      exact ⟨rfl, nofun⟩
  · exact draining.closing
  · -- before `stop` no worker can be past the queue
    refine Or.inr ⟨⟨0, workers⟩, ?_⟩
    intro given
    rcases given with ⟨-, ended, -⟩
    have stopped := draining.stopped ((draining.closing _).2 ended)
    rcases before with before | before
    · exact stopped.1 before
    · exact stopped.2 before
  · intro other
    have conserved := draining.conserved other
    have weight : (program.scheduler.schedulerNoLock { work := .cb callback }).inPlay
          (program.scheduler.unfinished other) =
        program.scheduler.inPlay (program.scheduler.unfinished other) +
          (if callback = other then 1 else 0) := steps.inPlay
    have same : (program.scheduler.schedulerNoLock { work := .cb callback }).unfinished other =
        program.scheduler.unfinished other := Scheduler.unfinished_congr rfl rfl
    simp only [Scheduler.remaining, List.count_append] at conserved ⊢
    rw [same, weight, conserved]
    simp [List.count_singleton, Nat.add_assoc]
  · exact draining.stopped
  · intro returned
    rcases before with before | before <;> simp [before] at returned

theorem Draining.worker (draining : program.Draining)
    {label : Scheduler.Label Callback config.poolSize}
    {scheduler : Scheduler Callback Unit config.poolSize}
    (allowed : Allowed program.scheduler label = true)
    (steps : Scheduler.Steps threadOf () program.scheduler label scheduler) :
    Draining { program with
      scheduler := scheduler
      completed := program.completed ++ (completes program.scheduler label).toList } := by
  rcases steps.closing allowed draining.closing with ⟨closing, autoStopIs⟩
  constructor
  · refine steps.owned ?_ draining.owned
    rintro entry rfl
    cases allowed
  · exact steps.fresh allowed draining.owned draining.fresh
  · exact closing
  · exact steps.attended allowed draining.fresh draining.attended
  · intro callback
    have conserved := draining.conserved callback
    have completed : scheduler.remaining callback +
        (completes program.scheduler label).toList.count callback =
        program.scheduler.remaining callback :=
      steps.remaining allowed draining.owned draining.fresh
    simp only [List.count_append]
    omega
  · rw [autoStopIs]
    exact draining.stopped
  · intro returned
    exact (steps.not_left allowed (draining.left returned)).elim

theorem Draining.moveOn (draining : program.Draining) {autoStop stopping : Bool}
    {caller : Caller} (keeps : program.scheduler.autoStop = true → autoStop = true)
    (stopped : autoStop = true → caller ≠ .constructed ∧ caller ≠ .started)
    (left : caller = .returned → ∀ w, (program.scheduler.workers w).stage = .left) :
    Draining { program with
      scheduler := { program.scheduler with autoStop := autoStop, stopping := stopping }
      caller := caller } where
  owned := ⟨draining.owned.once, draining.owned.known⟩
  fresh := draining.fresh
  closing w := ⟨(draining.closing w).1, fun ended => keeps ((draining.closing w).2 ended)⟩
  attended := draining.attended
  conserved := draining.conserved
  stopped := stopped
  left := left

theorem Steps.draining (steps : Steps threadOf program label next)
    (workers : 0 < config.poolSize) (draining : program.Draining) : next.Draining := by
  cases steps with
  | schedule callback before => exact draining.schedule threadOf workers callback before
  | worker started allowed steps => exact draining.worker allowed steps
  | start callerIs =>
      exact draining.moveOn id
        (fun stopped => absurd callerIs (draining.stopped stopped).1) nofun
  | callStop => exact draining.moveOn (fun _ => rfl) (fun _ => ⟨nofun, nofun⟩) nofun
  | setStopping => exact draining.moveOn id (fun _ => ⟨nofun, nofun⟩) nofun
  | join callerIs left =>
      refine draining.moveOn id (fun _ => ⟨nofun, nofun⟩) fun _ w => ?_
      have leftIs := left w
      revert leftIs
      cases (program.scheduler.workers w).stage <;> simp [Stage.hasLeft]

theorem Draining.drained (draining : program.Draining)
    (returned : program.caller = .returned) :
    program.scheduler.fibers = [] ∧ program.scheduled.Perm program.completed := by
  have empty : program.scheduler.fibers = [] := by
    rcases draining.attended with empty | ⟨w, back⟩
    · exact empty
    · exact absurd ((draining.closing w).1 (draining.left returned w)) back
  refine ⟨empty, List.perm_iff_count.mpr fun callback => ?_⟩
  have nothing : program.scheduler.remaining callback = 0 := by
    refine Scheduler.inPlay_eq_zero _ empty fun w => ?_
    rw [draining.left returned w]
    rfl
  rw [draining.conserved callback, nothing, Nat.add_zero]

end Workers

/-! ## A pool without workers -/

def Untouched (program : Program Callback config) : Prop :=
  program.completed = [] ∧
    program.scheduler.fibers = program.scheduled.map fun callback => { work := .cb callback }

theorem Steps.untouched (steps : Steps threadOf program label next)
    (noWorker : config.poolSize = 0) (untouched : program.Untouched) : next.Untouched := by
  have absent : Fin config.poolSize → False := fun w => by
    have bound := w.isLt
    omega
  cases steps with
  | schedule callback =>
      refine ⟨untouched.1, ?_⟩
      simp [Scheduler.schedulerNoLock, untouched.2]
  | start | callStop | setStopping | join => exact untouched
  | worker started allowed steps =>
      cases steps with
      | schedule | newFiber | autoStop | stopping => cases allowed
      | @scan w | @tickle w | @resume w | @swapOut w | @release w | @settle w | @leaveIdle w
      | @afterIdle w => exact (absent w).elim

/-- When `stop` returns, the queue is empty and each callback handed in has been run
to its end once, unless the calling thread was to be the only worker and
something was handed in. -/
theorem stop_drains [DecidableEq Callback] (config : Config) (callerThread : ThreadId)
    (threadOf : Fin config.poolSize → ThreadId) (labels : List (Label Callback config))
    (final : Program Callback config)
    (ran : (machine threadOf).run (construct config callerThread) labels = some final)
    (returned : final.caller = .returned) :
    (final.scheduler.fibers = [] ∧ (handedIn labels).Perm final.completed) ↔
      (config.useCaller = false ∨ 2 ≤ config.threadPoolSize ∨ handedIn labels = []) := by
  have scheduledIs : final.scheduled = handedIn labels := run_scheduled ran
  rw [← scheduledIs, ← or_assoc, ← Config.poolSize_pos_iff]
  by_cases workers : 0 < config.poolSize
  · have preserved : ∀ (program : Program Callback config) label next, Draining program →
        (machine threadOf).step program label = some next → Draining next :=
      fun _ _ _ draining stepped => (step_eq_some stepped).draining workers draining
    have draining : final.Draining :=
      Machine.run_induction preserved (construct_draining callerThread) ran
    exact ⟨fun _ => Or.inl workers, fun _ => draining.drained returned⟩
  · have preserved : ∀ (program : Program Callback config) label next, Untouched program →
        (machine threadOf).step program label = some next → Untouched next :=
      fun _ _ _ untouched stepped =>
        (step_eq_some stepped).untouched (Nat.eq_zero_of_not_pos workers) untouched
    have untouched : final.Untouched :=
      Machine.run_induction preserved ⟨rfl, rfl⟩ ran
    rw [untouched.1, untouched.2, List.map_eq_nil_iff, List.perm_nil]
    simp [workers]

def oneThread : Config := { threadPoolSize := 1, useCaller := false, positive := by decide }

def oneThreadRun (w : Fin oneThread.poolSize) : List (Label Nat oneThread) :=
  [.schedule 7, .start] ++
    ([.scan w, .resume w, .swapOut w .finished, .release w, .settle w].map .worker) ++
    [.callStop, .setStopping] ++
    ([.scan w, .resume w, .leaveIdle w true, .afterIdle w, .scan w, .resume w].map .worker) ++
    [.join]

theorem stop_drains_oneThread :
    ∃ final, (machine fun _ => 1).run (construct oneThread 0)
        (oneThreadRun ⟨0, by decide⟩) = some final ∧
      final.caller = .returned ∧ final.scheduler.fibers = [] ∧ [7].Perm final.completed := by
  have returns : ∃ final, (machine fun _ => 1).run (construct oneThread 0)
      (oneThreadRun ⟨0, by decide⟩) = some final ∧ final.caller = .returned := ⟨_, rfl, rfl⟩
  rcases returns with ⟨final, ran, returned⟩
  have drains := stop_drains oneThread 0 (fun _ => 1) _ final ran returned
  exact ⟨final, ran, returned, drains.mpr (Or.inl rfl)⟩

def callerOnly : Config := { threadPoolSize := 1, useCaller := true, positive := by decide }

theorem stop_drains_fails :
    ∃ final : Program Nat callerOnly,
      (machine fun _ => 1).run (construct callerOnly 0)
        [.schedule 7, .start, .callStop, .setStopping, .join] = some final ∧
      final.caller = .returned ∧ ¬(final.scheduler.fibers = [] ∧ [7].Perm final.completed) := by
  refine ⟨_, rfl, rfl, ?_⟩
  intro given
  rcases given with ⟨⟨⟩, -⟩

end Program

end Sylar.Scheduling
