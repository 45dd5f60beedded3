import Mathlib.Tactic.Common
import Sylar.Scheduling.Scheduler

/-! # What a step of the loop moves

A step of a worker replaces that worker and, now and then, an entry of the queue or
the state of a fiber. What the scan takes, and where the branches of the loop agree
whichever is taken, is said here once.
-/

namespace Sylar.Scheduling.Scheduler

variable {Callback Idle : Type} {size : Nat}
  {scheduler next : Scheduler Callback Idle size} {w : Fin size}
  {threadOf : Fin size → ThreadId} {enter : Idle}

/-! ## The scan -/

theorem scan_none {fiberState : FiberId → FiberState} {thread : ThreadId}
    {entries : List (FiberAnThread Callback)}
    (nothing : (scan fiberState thread entries).taken = none) :
    (scan fiberState thread entries).rest = entries := by
  induction entries with
  | nil => rfl
  | cons entry entries induction =>
      by_cases passed : entry.thread ≠ -1 ∧ entry.thread ≠ thread
      · simp only [scan, if_pos passed] at nothing ⊢
        rw [induction nothing]
      · by_cases executing : entry.executing fiberState = true
        · simp only [scan, if_neg passed, if_pos executing] at nothing ⊢
          rw [induction nothing]
        · simp only [scan, if_neg passed, if_neg executing] at nothing
          cases nothing

theorem scan_perm {fiberState : FiberId → FiberState} {thread : ThreadId}
    {entries : List (FiberAnThread Callback)} {entry : FiberAnThread Callback}
    (taken : (scan fiberState thread entries).taken = some entry) :
    entries.Perm (entry :: (scan fiberState thread entries).rest) := by
  induction entries with
  | nil => cases taken
  | cons first entries induction =>
      by_cases passed : first.thread ≠ -1 ∧ first.thread ≠ thread
      · simp only [scan, if_pos passed] at taken ⊢
        exact ((induction taken).cons first).trans (List.Perm.swap entry first _)
      · by_cases executing : first.executing fiberState = true
        · simp only [scan, if_neg passed, if_pos executing] at taken ⊢
          exact ((induction taken).cons first).trans (List.Perm.swap entry first _)
        · simp only [scan, if_neg passed, if_neg executing] at taken ⊢
          cases taken
          exact List.Perm.refl _

theorem scan_none_iff {fiberState : FiberId → FiberState} {thread : ThreadId}
    {entries : List (FiberAnThread Callback)} :
    (scan fiberState thread entries).taken = none ↔
      ∀ entry ∈ entries, (entry.thread ≠ -1 ∧ entry.thread ≠ thread) ∨
        entry.executing fiberState = true := by
  induction entries with
  | nil => simp [scan]
  | cons entry entries induction =>
      by_cases passed : entry.thread ≠ -1 ∧ entry.thread ≠ thread
      · simp only [scan, if_pos passed, List.forall_mem_cons, induction]
        exact ⟨fun rest => ⟨Or.inl passed, rest⟩, fun both => both.2⟩
      · by_cases executing : entry.executing fiberState = true
        · simp only [scan, if_neg passed, if_pos executing, List.forall_mem_cons, induction]
          exact ⟨fun rest => ⟨Or.inr executing, rest⟩, fun both => both.2⟩
        · simp only [scan, if_neg passed, if_neg executing, List.forall_mem_cons]
          constructor
          · intro taken
            cases taken
          · intro given
            rcases given with ⟨here, -⟩
            exact absurd here (not_or.mpr ⟨passed, executing⟩)

def free (fiberState : FiberId → FiberState) (thread : ThreadId)
    (entry : FiberAnThread Callback) : Bool :=
  decide (entry.thread = -1 ∨ entry.thread = thread) && !entry.executing fiberState

theorem scan_taken (fiberState : FiberId → FiberState) (thread : ThreadId)
    (entries : List (FiberAnThread Callback)) :
    (scan fiberState thread entries).taken = entries.find? (free fiberState thread) := by
  induction entries with
  | nil => rfl
  | cons entry entries induction =>
      by_cases passed : entry.thread ≠ -1 ∧ entry.thread ≠ thread
      · have notFree : ¬free fiberState thread entry = true := by
          simp [free, passed]
        simp only [scan, if_pos passed, List.find?_cons_of_neg notFree]
        exact induction
      · by_cases executing : entry.executing fiberState = true
        · have notFree : ¬free fiberState thread entry = true := by
            simp [free, executing]
          simp only [scan, if_neg passed, if_pos executing, List.find?_cons_of_neg notFree]
          exact induction
        · have isFree : free fiberState thread entry = true := by
            simp only [free, executing, Bool.not_false, Bool.and_true, decide_eq_true_eq]
            by_cases unpinned : entry.thread = -1
            · exact Or.inl unpinned
            · exact Or.inr (not_not.mp fun other => passed ⟨unpinned, other⟩)
          simp only [scan, if_neg passed, if_neg executing, List.find?_cons_of_pos isFree]

def found (threadOf : Fin size → ThreadId) (scheduler : Scheduler Callback Idle size)
    (w : Fin size) : Scan Callback :=
  scan scheduler.fiberState (threadOf w) scheduler.fibers

@[simp] theorem scanQueue_fibers :
    (scheduler.scanQueue threadOf w).fibers = (found threadOf scheduler w).rest := by
  simp only [scanQueue, found]
  split
  · rfl
  · rename_i taken
    exact (scan_none taken).symm

@[simp] theorem scanQueue_fiberState :
    (scheduler.scanQueue threadOf w).fiberState = scheduler.fiberState := by
  simp only [scanQueue]
  split <;> rfl

@[simp] theorem scanQueue_fiberCb :
    (scheduler.scanQueue threadOf w).fiberCb = scheduler.fiberCb := by
  simp only [scanQueue]
  split <;> rfl

@[simp] theorem scanQueue_created :
    (scheduler.scanQueue threadOf w).created = scheduler.created := by
  simp only [scanQueue]
  split <;> rfl

@[simp] theorem scanQueue_autoStop :
    (scheduler.scanQueue threadOf w).autoStop = scheduler.autoStop := by
  simp only [scanQueue]
  split <;> rfl

@[simp] theorem scanQueue_idleThreadsCount :
    (scheduler.scanQueue threadOf w).idleThreadsCount = scheduler.idleThreadsCount := by
  simp only [scanQueue]
  split <;> rfl

theorem scanQueue_workers :
    ∃ worker, (scheduler.scanQueue threadOf w).workers =
        Function.update scheduler.workers w worker ∧
      (worker.stage = .tickling (found threadOf scheduler w).taken ∨
        worker.stage = .scanned (found threadOf scheduler w).taken) ∧
      worker.idleFiber = (scheduler.workers w).idleFiber ∧
      ((found threadOf scheduler w).taken = none →
        worker.isActivate = (scheduler.workers w).isActivate) ∧
      (∀ entry, (found threadOf scheduler w).taken = some entry →
        worker.isActivate = true) := by
  simp only [scanQueue, found]
  generalize scan scheduler.fiberState (threadOf w) scheduler.fibers = result
  rcases result with ⟨taken, rest, passed⟩
  cases taken with
  | none =>
      refine ⟨_, rfl, ?_, rfl, fun _ => rfl, nofun⟩
      split
      · exact Or.inl rfl
      · exact Or.inr rfl
  | some entry =>
      refine ⟨_, rfl, ?_, rfl, nofun, fun _ _ => rfl⟩
      split
      · exact Or.inl rfl
      · exact Or.inr rfl

theorem mem_of_found {entry : FiberAnThread Callback}
    (member : entry ∈ (found threadOf scheduler w).rest) : entry ∈ scheduler.fibers := by
  cases takenIs : (found threadOf scheduler w).taken with
  | none =>
      rw [found, scan_none takenIs] at member
      exact member
  | some taken => exact (scan_perm takenIs).mem_iff.mpr (List.mem_cons_of_mem _ member)

/-! ## The branches -/

theorem nothingToRun_frame (enter : Idle) (scheduler : Scheduler Callback Idle size)
    (w : Fin size) :
    ∃ worker active idle, scheduler.nothingToRun enter w =
        { scheduler.setWorker w worker with
          activeThreadsCount := active, idleThreadsCount := idle } ∧
      (worker.stage = .scanning ∨ worker.stage = .left ∨ worker.stage = .idling enter) := by
  simp only [nothingToRun]
  split
  · exact ⟨_, _, _, rfl, Or.inl rfl⟩
  · split
    · exact ⟨_, _, _, rfl, Or.inr (Or.inl rfl)⟩
    · exact ⟨_, _, _, rfl, Or.inr (Or.inr rfl)⟩

theorem resume_frame (enter : Idle) (scheduler : Scheduler Callback Idle size)
    (w : Fin size) (ft : Option (FiberAnThread Callback)) :
    scheduler.resume enter w ft = scheduler.nothingToRun enter w ∨
      ∃ fiber thread fromCb states cbs created, scheduler.created ≤ created ∧
        scheduler.resume enter w ft =
          { scheduler.setWorker w
              { scheduler.workers w with stage := .running fiber thread fromCb } with
            fiberState := states, fiberCb := cbs, created := created } := by
  rcases ft with _ | ⟨callback | fiber, thread⟩
  · exact Or.inl rfl
  · exact Or.inr ⟨_, _, _, _, _, _, Nat.le_succ _, rfl⟩
  · simp only [resume]
    split
    · exact Or.inr ⟨_, _, _, _, _, _, Nat.le_refl _, rfl⟩
    · exact Or.inl rfl

@[simp] theorem nothingToRun_fiberState :
    (scheduler.nothingToRun enter w).fiberState = scheduler.fiberState := by
  rcases nothingToRun_frame enter scheduler w with ⟨_, _, _, idleIs, -⟩
  rw [idleIs]
  rfl

theorem resume_kept (enter : Idle) (scheduler : Scheduler Callback Idle size)
    (w : Fin size) (ft : Option (FiberAnThread Callback)) :
    (scheduler.resume enter w ft).fibers = scheduler.fibers ∧
      (scheduler.resume enter w ft).autoStop = scheduler.autoStop ∧
      (scheduler.resume enter w ft).stopping = scheduler.stopping ∧
      scheduler.created ≤ (scheduler.resume enter w ft).created := by
  rcases resume_frame enter scheduler w ft with nextIs | ⟨_, _, _, _, _, _, more, nextIs⟩
  · rcases nothingToRun_frame enter scheduler w with ⟨_, _, _, idleIs, -⟩
    rw [nextIs, idleIs]
    exact ⟨rfl, rfl, rfl, Nat.le_refl _⟩
  · rw [nextIs]
    exact ⟨rfl, rfl, rfl, more⟩

theorem settle_frame (scheduler : Scheduler Callback Idle size) (w : Fin size)
    (fiber : FiberId) (thread : ThreadId) :
    ∃ fibers states, scheduler.settle w fiber thread =
      { scheduler.setWorker w { scheduler.workers w with stage := .scanning } with
        fibers := fibers, fiberState := states } := by
  simp only [settle]
  split
  · exact ⟨_, _, rfl⟩
  · split
    · exact ⟨_, _, rfl⟩
    · exact ⟨_, _, rfl⟩

/-! ## Stages -/

def Live (scheduler : Scheduler Callback Idle size) (fiber : FiberId) : Prop :=
  scheduler.fiberState fiber ≠ .TERM ∧ scheduler.fiberState fiber ≠ .EXCET

def Label.worker : Label Callback size → Option (Fin size)
  | .schedule _ | .newFiber _ | .autoStop | .stopping => none
  | .scan w | .tickle w | .resume w | .swapOut w _ | .release w | .settle w
  | .leaveIdle w _ | .afterIdle w => some w

/-- How a step of a worker changes its stage, and the state of the fiber it goes into
or comes out of. -/
inductive Transition (threadOf : Fin size → ThreadId) (enter : Idle)
    (scheduler next : Scheduler Callback Idle size) (w : Fin size) :
    Label Callback size → Stage Callback Idle → Stage Callback Idle → Prop
  | scan {ft : Option (FiberAnThread Callback)} {after : Stage Callback Idle}
      (takes : scheduler.fibers.find? (free scheduler.fiberState (threadOf w)) = ft)
      (stageAfter : after = .tickling ft ∨ after = .scanned ft) :
      Transition threadOf enter scheduler next w (.scan w) .scanning after
  | tickle (ft : Option (FiberAnThread Callback)) :
      Transition threadOf enter scheduler next w (.tickle w) (.tickling ft) (.scanned ft)
  | nothing (ft : Option (FiberAnThread Callback)) {after : Stage Callback Idle}
      (stageAfter : after = .scanning ∨ after = .left ∨ after = .idling enter) :
      Transition threadOf enter scheduler next w (.resume w) (.scanned ft) after
  | start (callback : Callback) (thread : ThreadId)
      (executes : next.fiberState scheduler.created = .EXEC) :
      Transition threadOf enter scheduler next w (.resume w)
        (.scanned (some ⟨.cb callback, thread⟩)) (.running scheduler.created thread true)
  | swapIn {fiber : FiberId} (thread : ThreadId) (live : scheduler.Live fiber)
      (executes : next.fiberState fiber = .EXEC) :
      Transition threadOf enter scheduler next w (.resume w)
        (.scanned (some ⟨.fiber fiber, thread⟩)) (.running fiber thread false)
  | swapOut {fiber : FiberId} (thread : ThreadId) (fromCb : Bool) {how : SwapOut}
      (leaves : next.fiberState fiber = how.state) :
      Transition threadOf enter scheduler next w (.swapOut w how)
        (.running fiber thread fromCb) (.returned fiber thread fromCb)
  | release (fiber : FiberId) (thread : ThreadId) (fromCb : Bool)
      (same : next.fiberState = scheduler.fiberState) :
      Transition threadOf enter scheduler next w (.release w)
        (.returned fiber thread fromCb) (.released fiber thread)
  | settle (fiber : FiberId) (thread : ThreadId) :
      Transition threadOf enter scheduler next w (.settle w)
        (.released fiber thread) .scanning
  | leaveIdle (stage : Idle) (ended : Bool) :
      Transition threadOf enter scheduler next w (.leaveIdle w ended)
        (.idling stage) .idled
  | afterIdle : Transition threadOf enter scheduler next w (.afterIdle w) .idled .scanning

theorem stage_moved (v : Fin size) {worker : Worker Callback Idle}
    (workersIs : next.workers = Function.update scheduler.workers w worker) :
    some w ≠ some v ∧ (next.workers v).stage = (scheduler.workers v).stage ∨
      v = w ∧ (next.workers v).stage = worker.stage := by
  rw [workersIs]
  by_cases same : v = w
  · subst same
    exact Or.inr ⟨rfl, congrArg Worker.stage (Function.update_self ..)⟩
  · refine Or.inl ⟨?_, congrArg Worker.stage (Function.update_of_ne same ..)⟩
    intro isSame
    exact same (Option.some.inj isSame).symm

theorem Transition.of_worker {label : Label Callback size} {worker : Worker Callback Idle}
    (moves : Transition threadOf enter scheduler next w label
      (scheduler.workers w).stage worker.stage)
    (isWorker : label.worker = some w)
    (workersIs : next.workers = Function.update scheduler.workers w worker) (v : Fin size) :
    label.worker ≠ some v ∧ (next.workers v).stage = (scheduler.workers v).stage ∨
      Transition threadOf enter scheduler next v label (scheduler.workers v).stage
        (next.workers v).stage := by
  rcases stage_moved v workersIs with other | ⟨same, stageAfter⟩
  · rw [isWorker]
    exact Or.inl other
  · subst same
    rw [stageAfter]
    exact Or.inr moves

theorem Steps.stage {label : Label Callback size}
    (steps : Steps threadOf enter scheduler label next) (v : Fin size) :
    label.worker ≠ some v ∧ (next.workers v).stage = (scheduler.workers v).stage ∨
      Transition threadOf enter scheduler next v label (scheduler.workers v).stage
        (next.workers v).stage := by
  cases steps with
  | schedule | newFiber | autoStop | stopping => exact Or.inl ⟨by simp [Label.worker], rfl⟩
  | @scan w stageIs =>
      rcases @scanQueue_workers _ _ _ scheduler w threadOf with
        ⟨worker, workersIs, stageAfter, -⟩
      apply Transition.of_worker _ rfl workersIs
      rw [stageIs]
      exact .scan (scan_taken ..).symm stageAfter
  | @tickle w ft stageIs =>
      apply Transition.of_worker _ rfl rfl
      rw [stageIs]
      exact .tickle ft
  | @resume w ft stageIs =>
      have idle : (Label.resume w : Label Callback size).worker ≠ some v ∧
            ((scheduler.nothingToRun enter w).workers v).stage =
              (scheduler.workers v).stage ∨
          Transition threadOf enter scheduler (scheduler.nothingToRun enter w) v
            (.resume w) (scheduler.workers v).stage
            ((scheduler.nothingToRun enter w).workers v).stage := by
        rcases nothingToRun_frame enter scheduler w with
          ⟨worker, _, _, idleIs, stageAfter⟩
        rw [idleIs]
        apply Transition.of_worker _ rfl rfl
        rw [stageIs]
        exact .nothing ft stageAfter
      rcases ft with _ | ⟨callback | fiber, thread⟩
      · exact idle
      · apply Transition.of_worker _ rfl rfl
        rw [stageIs]
        exact .start callback thread (Function.update_self ..)
      · simp only [Scheduler.resume]
        split
        · rename_i live
          apply Transition.of_worker _ rfl rfl
          rw [stageIs]
          exact .swapIn thread live (Function.update_self ..)
        · exact idle
  | @swapOut w fiber thread fromCb how stageIs =>
      apply Transition.of_worker _ rfl rfl
      rw [stageIs]
      exact .swapOut thread fromCb (Function.update_self ..)
  | @release w fiber thread fromCb stageIs =>
      apply Transition.of_worker _ rfl rfl
      rw [stageIs]
      exact .release fiber thread fromCb rfl
  | @settle w fiber thread stageIs =>
      rcases settle_frame scheduler w fiber thread with ⟨_, _, nextIs⟩
      rw [nextIs]
      apply Transition.of_worker _ rfl rfl
      rw [stageIs]
      exact .settle fiber thread
  | @leaveIdle w stage ended stageIs =>
      apply Transition.of_worker _ rfl rfl
      rw [stageIs]
      exact .leaveIdle stage ended
  | @afterIdle w stageIs =>
      apply Transition.of_worker _ rfl rfl
      rw [stageIs]
      exact .afterIdle

/-- A step of the loop moves a worker outside `idle`, and into it at its beginning
only. -/
theorem Steps.workers_cases {label : Label Callback size}
    (steps : Steps threadOf enter scheduler label next)
    (stays : ∀ w ended, label ≠ .leaveIdle w ended) :
    next.workers = scheduler.workers ∨
      ∃ w worker, next.workers = Function.update scheduler.workers w worker ∧
        (∀ idle, (scheduler.workers w).stage ≠ .idling idle) ∧
        ∀ idle, worker.stage = .idling idle → idle = enter := by
  cases steps with
  | schedule | newFiber | autoStop | stopping => exact Or.inl rfl
  | @scan w stageIs =>
      rcases scanQueue_workers with ⟨worker, workersIs, stageAfter, -⟩
      refine Or.inr ⟨w, worker, workersIs, by simp [stageIs], ?_⟩
      rcases stageAfter with stageAfter | stageAfter <;> simp [stageAfter]
  | @resume w ft stageIs =>
      rcases resume_frame enter scheduler w ft with nextIs | ⟨_, _, _, _, _, _, _, nextIs⟩
      · rcases nothingToRun_frame enter scheduler w with ⟨worker, _, _, idleIs, stageAfter⟩
        rw [nextIs, idleIs]
        refine Or.inr ⟨w, worker, rfl, by simp [stageIs], ?_⟩
        rcases stageAfter with stageAfter | stageAfter | stageAfter <;>
          simp [stageAfter, eq_comm]
      · rw [nextIs]
        exact Or.inr ⟨w, _, rfl, by simp [stageIs], nofun⟩
  | @settle w fiber thread stageIs =>
      rcases settle_frame scheduler w fiber thread with ⟨_, _, nextIs⟩
      rw [nextIs]
      exact Or.inr ⟨w, _, rfl, by simp [stageIs], nofun⟩
  | @tickle w _ stageIs | @swapOut w _ _ _ _ stageIs | @release w _ _ _ stageIs
  | @afterIdle w stageIs => exact Or.inr ⟨w, _, rfl, by simp [stageIs], nofun⟩
  | leaveIdle ended => exact absurd rfl (stays _ ended)

theorem Steps.flags {label : Label Callback size}
    (steps : Steps threadOf enter scheduler label next)
    (stopped : scheduler.autoStop = true ∧ scheduler.stopping = true) :
    next.autoStop = true ∧ next.stopping = true := by
  cases steps with
  | schedule | newFiber | tickle | swapOut | release | leaveIdle | afterIdle => exact stopped
  | autoStop => exact ⟨rfl, stopped.2⟩
  | stopping => exact ⟨stopped.1, rfl⟩
  | scan =>
      simp only [scanQueue]
      split <;> exact stopped
  | @resume w ft =>
      rcases resume_kept enter scheduler w ft with ⟨-, autoStopIs, stoppingIs, -⟩
      rw [autoStopIs, stoppingIs]
      exact stopped
  | @settle w fiber thread =>
      rcases settle_frame scheduler w fiber thread with ⟨_, _, nextIs⟩
      rw [nextIs]
      exact stopped

/-! ## Fibers that can be resumed -/

theorem live_congr {fiber : FiberId}
    (same : next.fiberState fiber = scheduler.fiberState fiber) :
    next.Live fiber ↔ scheduler.Live fiber := by
  rw [Live, Live, same]

theorem live_update {other : FiberId} {state : FiberState} (live : scheduler.Live other)
    (resumable : state ≠ .TERM ∧ state ≠ .EXCET)
    (statesAre : next.fiberState = Function.update scheduler.fiberState other state)
    (fiber : FiberId) : next.Live fiber ↔ scheduler.Live fiber := by
  by_cases same : fiber = other
  · subst same
    rw [Live, statesAre, Function.update_self]
    exact iff_of_true resumable live
  · apply live_congr
    rw [statesAre, Function.update_of_ne same]

theorem Steps.live_cases {label : Label Callback size}
    (steps : Steps threadOf enter scheduler label next)
    (notLeft : ∀ w how, label ≠ .swapOut w how) :
    next.created = scheduler.created ∧ (∀ fiber, next.Live fiber ↔ scheduler.Live fiber) ∨
      next.created = scheduler.created + 1 ∧ next.Live scheduler.created ∧
        ∀ fiber, fiber ≠ scheduler.created → (next.Live fiber ↔ scheduler.Live fiber) := by
  cases steps with
  | schedule | autoStop | stopping | tickle | release | leaveIdle | afterIdle =>
      exact Or.inl ⟨rfl, fun _ => Iff.rfl⟩
  | newFiber callback =>
      refine Or.inr ⟨rfl, ?_, fun fiber notNew => live_congr (Function.update_of_ne notNew ..)⟩
      simp [Live, Scheduler.newFiber]
  | scan =>
      refine Or.inl ⟨scanQueue_created, fun fiber => live_congr ?_⟩
      rw [scanQueue_fiberState]
  | swapOut how => exact absurd rfl (notLeft _ how)
  | @resume w ft =>
      have idle : (scheduler.nothingToRun enter w).created = scheduler.created ∧
          ∀ fiber, (scheduler.nothingToRun enter w).Live fiber ↔ scheduler.Live fiber := by
        refine ⟨?_, fun fiber => live_congr (by rw [nothingToRun_fiberState])⟩
        rcases nothingToRun_frame enter scheduler w with ⟨_, _, _, idleIs, -⟩
        rw [idleIs]
        rfl
      rcases ft with _ | ⟨callback | other, thread⟩
      · exact Or.inl idle
      · refine Or.inr ⟨rfl, ?_, ?_⟩
        · simp [Scheduler.resume, Live, swapIn, setWorker, setFiber]
        · intro fiber notNew
          apply live_congr
          simp only [Scheduler.resume, swapIn, setWorker, setFiber]
          rw [Function.update_of_ne notNew]
          exact Function.update_of_ne notNew ..
      · simp only [Scheduler.resume]
        split
        · rename_i live
          exact Or.inl ⟨rfl, live_update live (by simp) rfl⟩
        · exact Or.inl idle
  | @settle w other thread =>
      simp only [Scheduler.settle]
      split
      · exact Or.inl ⟨rfl, fun _ => Iff.rfl⟩
      · split
        · rename_i live
          exact Or.inl ⟨rfl, live_update live (by simp) rfl⟩
        · exact Or.inl ⟨rfl, fun _ => Iff.rfl⟩

/-! ## The idle fiber -/

theorem idleFiber_of_worker {worker : Worker Callback Idle}
    (workersIs : next.workers = Function.update scheduler.workers w worker)
    (stays : (scheduler.workers w).idleFiber = .TERM → worker.idleFiber = .TERM) (v : Fin size)
    (ended : (scheduler.workers v).idleFiber = .TERM) : (next.workers v).idleFiber = .TERM := by
  rw [workersIs]
  by_cases same : v = w
  · subst same
    rw [Function.update_self]
    exact stays ended
  · rw [Function.update_of_ne same]
    exact ended

theorem Steps.idleFiber_term {label : Label Callback size}
    (steps : Steps threadOf enter scheduler label next) (v : Fin size)
    (ended : (scheduler.workers v).idleFiber = .TERM) : (next.workers v).idleFiber = .TERM := by
  cases steps with
  | schedule | newFiber | autoStop | stopping => exact ended
  | tickle | swapOut | release =>
      refine idleFiber_of_worker rfl (fun same => ?_) v ended
      exact same
  | scan =>
      rcases scanQueue_workers with ⟨worker, workersIs, -, sameIdle, -⟩
      exact idleFiber_of_worker workersIs (fun same => sameIdle.trans same) v ended
  | @resume w ft =>
      rcases resume_frame enter scheduler w ft with nextIs | ⟨_, _, _, _, _, _, -, nextIs⟩
      · rw [nextIs, nothingToRun]
        split
        · refine idleFiber_of_worker rfl (fun same => ?_) v ended
          exact same
        · split
          · refine idleFiber_of_worker rfl (fun same => ?_) v ended
            exact same
          · next notEnded =>
              refine idleFiber_of_worker rfl (fun same => ?_) v ended
              exact absurd same notEnded
      · rw [nextIs]
        refine idleFiber_of_worker rfl (fun same => ?_) v ended
        exact same
  | @settle w fiber thread =>
      rcases settle_frame scheduler w fiber thread with ⟨_, _, nextIs⟩
      rw [nextIs]
      refine idleFiber_of_worker rfl (fun same => ?_) v ended
      exact same
  | leaveIdle finished =>
      refine idleFiber_of_worker rfl (fun same => ?_) v ended
      cases finished with
      | true => rfl
      | false => exact same
  | afterIdle =>
      refine idleFiber_of_worker rfl (fun same => ?_) v ended
      exact (if_neg (fun other => other.2 same)).trans same

end Sylar.Scheduling.Scheduler
