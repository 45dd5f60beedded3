import Mathlib.Computability.StateTransition
import Sylar.Scheduling.Moves

/-! # A worker on its own

The loop of the only worker, with the `idle` of the base class and tasks that yield to `READY` a
number of times: its next step is determined. A round takes the first entry of the queue and
gives its task one turn. It clears `is_activate` for a callback, and leaves it set for a fiber.
-/

namespace Sylar.Scheduling

/-- What a task does: it yields to `READY` a number of times, and then returns or throws. -/
structure Plan where
  yields : Nat
  throws : Bool
  deriving DecidableEq, Repr

def Plan.last (plan : Plan) : FiberState :=
  if plan.throws then .EXCET else .TERM

structure Execution (Callback : Type) where
  scheduler : Scheduler Callback Unit 1
  yielded : FiberId → Nat := fun _ => 0

namespace Execution

variable {Callback : Type} (plan : Callback → Plan) (threadOf : Fin 1 → ThreadId)

def worker (execution : Execution Callback) : Worker Callback Unit :=
  execution.scheduler.workers 0

def planOf (execution : Execution Callback) (fiber : FiberId) : Plan :=
  (execution.scheduler.fiberCb fiber).elim { yields := 0, throws := true } plan

def swapsOut (execution : Execution Callback) (fiber : FiberId) : SwapOut :=
  if execution.yielded fiber < (execution.planOf plan fiber).yields then .ready
  else if (execution.planOf plan fiber).throws then .threw
  else .finished

/-- What the worker does next. The base class's `idle` returns if `stopping()` holds, and
yields to `HOLD` if not. -/
def nextLabel (execution : Execution Callback) : Option (Scheduler.Label Callback 1) :=
  match execution.worker.stage with
  | .scanning => some (.scan 0)
  | .tickling _ => some (.tickle 0)
  | .scanned _ => some (.resume 0)
  | .running fiber _ _ => some (.swapOut 0 (execution.swapsOut plan fiber))
  | .returned .. => some (.release 0)
  | .released .. => some (.settle 0)
  | .idling _ => some (.leaveIdle 0 execution.scheduler.isStopping)
  | .idled => some (.afterIdle 0)
  | .left => none

def nextYielded (execution : Execution Callback) : FiberId → Nat :=
  match execution.worker.stage with
  | .running fiber _ _ =>
      if execution.swapsOut plan fiber = .ready then
        Function.update execution.yielded fiber (execution.yielded fiber + 1)
      else execution.yielded
  | _ => execution.yielded

def advance (execution : Execution Callback) : Option (Execution Callback) :=
  (execution.nextLabel plan).bind fun label =>
    (execution.scheduler.step threadOf () label).map fun next =>
      { scheduler := next, yielded := execution.nextYielded plan }

def Queued (execution : Execution Callback) (fiber : FiberId) : Prop :=
  ∃ entry ∈ execution.scheduler.fibers, entry.work = .fiber fiber

def remaining (execution : Execution Callback) : Work Callback → Nat
  | .cb callback => (plan callback).yields
  | .fiber fiber => (execution.planOf plan fiber).yields - execution.yielded fiber

def posed (execution : Execution Callback) (worker : Worker Callback Unit)
    (idleThreadsCount : Int) : Execution Callback :=
  { execution with
    scheduler :=
      { execution.scheduler with
        idleThreadsCount := idleThreadsCount
        workers := Function.update execution.scheduler.workers 0 worker } }

/-! ## One step -/

section Steps

variable {plan threadOf} {execution : Execution Callback}

theorem advance_scanning (stageIs : execution.worker.stage = .scanning) :
    execution.advance plan threadOf =
      some { execution with scheduler := execution.scheduler.scanQueue threadOf 0 } := by
  have stageThere : (execution.scheduler.workers 0).stage = .scanning := stageIs
  simp [advance, nextLabel, nextYielded, stageIs, Scheduler.step, stageThere]

theorem advance_scanned {ft : Option (FiberAnThread Callback)}
    (stageIs : execution.worker.stage = .scanned ft) :
    execution.advance plan threadOf =
      some { execution with scheduler := execution.scheduler.resume () 0 ft } := by
  have stageThere : (execution.scheduler.workers 0).stage = .scanned ft := stageIs
  simp [advance, nextLabel, nextYielded, stageIs, Scheduler.step, stageThere]

theorem advance_left (stageIs : execution.worker.stage = .left) :
    execution.advance plan threadOf = none := by
  simp [advance, nextLabel, stageIs]

def afterRun (plan : Callback → Plan) (execution : Execution Callback) (fiber : FiberId)
    (fromCb : Bool) : Execution Callback :=
  { scheduler :=
      (((execution.scheduler.swapOut 0 fiber (-1) fromCb (execution.swapsOut plan fiber)).release 0
        fiber (-1) fromCb).settle 0 fiber (-1))
    yielded :=
      if execution.swapsOut plan fiber = .ready then
        Function.update execution.yielded fiber (execution.yielded fiber + 1)
      else execution.yielded }

theorem reaches_afterRun (threadOf : Fin 1 → ThreadId) {fiber : FiberId} {fromCb : Bool}
    (stageIs : execution.worker.stage = .running fiber (-1) fromCb) :
    StateTransition.Reaches (advance plan threadOf) execution
      (execution.afterRun plan fiber fromCb) := by
  have stageThere : (execution.scheduler.workers 0).stage = .running fiber (-1) fromCb := stageIs
  let swapped : Execution Callback :=
    { scheduler := execution.scheduler.swapOut 0 fiber (-1) fromCb (execution.swapsOut plan fiber)
      yielded := (execution.afterRun plan fiber fromCb).yielded }
  let released : Execution Callback :=
    { scheduler := swapped.scheduler.release 0 fiber (-1) fromCb, yielded := swapped.yielded }
  have swaps : execution.advance plan threadOf = some swapped := by
    simp [advance, nextLabel, nextYielded, stageIs, Scheduler.step, stageThere, swapped, afterRun]
  have releases : swapped.advance plan threadOf = some released := by
    have stageNow : swapped.worker.stage = .returned fiber (-1) fromCb := by
      simp [worker, swapped, Scheduler.swapOut, Scheduler.setWorker]
    have stageNowThere : (swapped.scheduler.workers 0).stage = .returned fiber (-1) fromCb :=
      stageNow
    simp [advance, nextLabel, nextYielded, stageNow, Scheduler.step, stageNowThere, released]
  have settles : released.advance plan threadOf = some (execution.afterRun plan fiber fromCb) := by
    have stageNow : released.worker.stage = .released fiber (-1) := by
      simp [worker, released, Scheduler.release, Scheduler.setWorker]
    have stageNowThere : (released.scheduler.workers 0).stage = .released fiber (-1) := stageNow
    simp [advance, nextLabel, nextYielded, stageNow, Scheduler.step, stageNowThere]
    rfl
  exact .head swaps (.head releases (.single settles))

def scans (execution : Execution Callback) (fromCb : Bool) : Worker Callback Unit :=
  { execution.worker with
    stage := .scanning
    isActivate := if fromCb then false else execution.worker.isActivate }

theorem afterRun_yields {fiber : FiberId} {fromCb : Bool}
    (yields : execution.yielded fiber < (execution.planOf plan fiber).yields) :
    execution.afterRun plan fiber fromCb =
      { scheduler :=
          { execution.scheduler with
            fibers := execution.scheduler.fibers ++ [{ work := .fiber fiber }]
            fiberState := Function.update execution.scheduler.fiberState fiber .READY
            activeThreadsCount := execution.scheduler.activeThreadsCount - 1
            workers := Function.update execution.scheduler.workers 0 (execution.scans fromCb) }
        yielded := Function.update execution.yielded fiber (execution.yielded fiber + 1) } := by
  have how : execution.swapsOut plan fiber = .ready := if_pos yields
  simp [afterRun, how, Scheduler.swapOut, Scheduler.release, Scheduler.settle, SwapOut.state,
    Scheduler.setFiber, Scheduler.setWorker, Scheduler.schedulerNoLock, scans, worker]

theorem afterRun_ends {fiber : FiberId} {fromCb : Bool}
    (ends : ¬execution.yielded fiber < (execution.planOf plan fiber).yields) :
    execution.afterRun plan fiber fromCb =
      { execution with
        scheduler :=
          { execution.scheduler with
            fiberState := Function.update execution.scheduler.fiberState fiber
              (execution.planOf plan fiber).last
            activeThreadsCount := execution.scheduler.activeThreadsCount - 1
            workers := Function.update execution.scheduler.workers 0
              (execution.scans fromCb) } } := by
  have how : (execution.swapsOut plan fiber).state = (execution.planOf plan fiber).last ∧
      execution.swapsOut plan fiber ≠ .ready := by
    rw [swapsOut, if_neg ends, Plan.last]
    split <;> simp [SwapOut.state]
  have isOver : (execution.planOf plan fiber).last = .TERM ∨
      (execution.planOf plan fiber).last = .EXCET := by
    rw [Plan.last]
    split
    · exact Or.inr rfl
    · exact Or.inl rfl
  rcases isOver with is | is <;>
    simp [afterRun, how, Scheduler.swapOut, Scheduler.release, Scheduler.settle,
      Scheduler.setFiber, Scheduler.setWorker, scans, worker, is]

theorem afterRun_worker {fiber : FiberId} {fromCb : Bool} :
    (execution.afterRun plan fiber fromCb).worker = execution.scans fromCb := by
  by_cases yields : execution.yielded fiber < (execution.planOf plan fiber).yields
  · simp [afterRun_yields yields, Execution.worker]
  · simp [afterRun_ends yields, Execution.worker]

theorem afterRun_activeThreadsCount {fiber : FiberId} {fromCb : Bool} :
    (execution.afterRun plan fiber fromCb).scheduler.activeThreadsCount =
      execution.scheduler.activeThreadsCount - 1 := by
  by_cases yields : execution.yielded fiber < (execution.planOf plan fiber).yields
  · rw [afterRun_yields yields]
  · rw [afterRun_ends yields]

end Steps

/-! ## One round -/

variable {plan threadOf} {execution before after : Execution Callback}

def Pending (plan : Callback → Plan) (execution : Execution Callback) (fiber : FiberId) : Prop :=
  ((execution.scheduler.fiberState fiber = .INIT ∨
      execution.scheduler.fiberState fiber = .READY) ∧
    execution.yielded fiber ≤ (execution.planOf plan fiber).yields) ∨
  (execution.scheduler.fiberState fiber = (execution.planOf plan fiber).last ∧
    execution.yielded fiber = (execution.planOf plan fiber).yields)

structure Busy (execution : Execution Callback) : Prop where
  autoStop : execution.scheduler.autoStop = true
  stopping : execution.scheduler.stopping = true
  unpinned : ∀ entry ∈ execution.scheduler.fibers, entry.thread = -1
  queued : ∀ fiber, execution.Queued fiber → fiber < execution.scheduler.created
  fresh : ∀ fiber, execution.scheduler.created ≤ fiber → execution.yielded fiber = 0

structure AtScan (plan : Callback → Plan) (execution : Execution Callback)
    (isActivate : Bool) : Prop extends Busy execution where
  worker : execution.worker =
    { isActivate := isActivate, lastTaken := execution.worker.lastTaken }
  activeThreadsCount : execution.scheduler.activeThreadsCount = 0
  pending : ∀ fiber, execution.Queued fiber → execution.Pending plan fiber

structure Inside (plan : Callback → Plan) (execution : Execution Callback) (fiber : FiberId)
    (fromCb : Bool) : Prop extends Busy execution where
  worker : execution.worker =
    { stage := .running fiber (-1) fromCb, isActivate := true,
      lastTaken := execution.worker.lastTaken }
  activeThreadsCount : execution.scheduler.activeThreadsCount = 1
  created : fiber < execution.scheduler.created
  yielded : execution.yielded fiber ≤ (execution.planOf plan fiber).yields
  pending : ∀ other, execution.Queued other → other ≠ fiber → execution.Pending plan other

structure Turn (plan : Callback → Plan) (before : Execution Callback) (fiber : FiberId)
    (after : Execution Callback) : Prop where
  autoStop : after.scheduler.autoStop = before.scheduler.autoStop
  stopping : after.scheduler.stopping = before.scheduler.stopping
  created : after.scheduler.created = before.scheduler.created
  fiberCb : after.scheduler.fiberCb = before.scheduler.fiberCb
  others : ∀ other, other ≠ fiber →
    after.scheduler.fiberState other = before.scheduler.fiberState other ∧
      after.yielded other = before.yielded other
  outcome :
    (before.remaining plan (.fiber fiber) = 0 ∧
      after.scheduler.fibers = before.scheduler.fibers ∧
      after.scheduler.fiberState fiber = (after.planOf plan fiber).last ∧
      after.yielded fiber = (after.planOf plan fiber).yields) ∨
    (before.remaining plan (.fiber fiber) = after.remaining plan (.fiber fiber) + 1 ∧
      after.scheduler.fibers = before.scheduler.fibers ++ [{ work := .fiber fiber }] ∧
      after.scheduler.fiberState fiber = .READY ∧
      after.yielded fiber ≤ (after.planOf plan fiber).yields)

theorem planOf_congr (plan : Callback → Plan) {fiber : FiberId}
    (same : after.scheduler.fiberCb fiber = before.scheduler.fiberCb fiber) :
    after.planOf plan fiber = before.planOf plan fiber := by
  rw [planOf, planOf, same]

theorem Pending.congr {fiber : FiberId} (pending : before.Pending plan fiber)
    (cb : after.scheduler.fiberCb fiber = before.scheduler.fiberCb fiber)
    (state : after.scheduler.fiberState fiber = before.scheduler.fiberState fiber)
    (yielded : after.yielded fiber = before.yielded fiber) : after.Pending plan fiber := by
  rw [Pending, planOf_congr plan cb, state, yielded]
  exact pending

theorem Turn.mem_fibers {fiber : FiberId} (turn : before.Turn plan fiber after)
    {entry : FiberAnThread Callback} (member : entry ∈ after.scheduler.fibers) :
    entry ∈ before.scheduler.fibers ∨ entry = { work := .fiber fiber } := by
  rcases turn.outcome with ⟨-, queue, -⟩ | ⟨-, queue, -⟩
  · rw [queue] at member
    exact Or.inl member
  · rw [queue, List.mem_append, List.mem_singleton] at member
    exact member

theorem Turn.queued {fiber other : FiberId} (turn : before.Turn plan fiber after)
    (queued : after.Queued other) : before.Queued other ∨ other = fiber := by
  rcases queued with ⟨entry, member, workIs⟩
  rcases turn.mem_fibers member with old | rfl
  · exact Or.inl ⟨entry, old, workIs⟩
  · cases workIs
    exact Or.inr rfl

theorem Turn.atScan {fiber : FiberId} {fromCb : Bool} (turn : before.Turn plan fiber after)
    (inside : before.Inside plan fiber fromCb)
    (worker : after.worker = { isActivate := !fromCb, lastTaken := after.worker.lastTaken })
    (activeThreadsCount : after.scheduler.activeThreadsCount = 0) :
    after.AtScan plan (!fromCb) where
  autoStop := turn.autoStop.trans inside.autoStop
  stopping := turn.stopping.trans inside.stopping
  unpinned entry member := by
    rcases turn.mem_fibers member with old | rfl
    · exact inside.unpinned entry old
    · rfl
  queued other queued := by
    rw [turn.created]
    rcases turn.queued queued with old | rfl
    · exact inside.queued other old
    · exact inside.created
  fresh other new := by
    rw [turn.created] at new
    have differs : other ≠ fiber := by
      rintro rfl
      exact absurd inside.created (Nat.not_lt.mpr new)
    rw [(turn.others other differs).2]
    exact inside.fresh other new
  worker := worker
  activeThreadsCount := activeThreadsCount
  pending other queued := by
    by_cases same : other = fiber
    · subst same
      rcases turn.outcome with ⟨-, -, ended⟩ | ⟨-, -, ready, within⟩
      · exact Or.inr ended
      · exact Or.inl ⟨Or.inr ready, within⟩
    · have old := (turn.queued queued).resolve_right same
      exact (inside.pending other old same).congr (congrFun turn.fiberCb other)
        (turn.others other same).1 (turn.others other same).2

theorem Inside.turn_afterRun {fiber : FiberId} {fromCb : Bool}
    (inside : before.Inside plan fiber fromCb) :
    before.Turn plan fiber (before.afterRun plan fiber fromCb) := by
  by_cases yields : before.yielded fiber < (before.planOf plan fiber).yields
  · rw [afterRun_yields yields]
    refine ⟨rfl, rfl, rfl, rfl, fun other differs => by simp [differs], Or.inr ?_⟩
    rw [planOf] at yields
    simp only [remaining, planOf, Function.update_self]
    exact ⟨by omega, trivial, trivial, yields⟩
  · have all : before.yielded fiber = (before.planOf plan fiber).yields :=
      Nat.le_antisymm inside.yielded (Nat.not_lt.mp yields)
    rw [afterRun_ends yields]
    refine ⟨rfl, rfl, rfl, rfl, fun other differs => by simp [differs], Or.inl ?_⟩
    refine ⟨?_, rfl, ?_, all⟩
    · simp [remaining, all]
    · simp [planOf]

theorem Inside.turn (threadOf : Fin 1 → ThreadId) {fiber : FiberId} {fromCb : Bool}
    (inside : before.Inside plan fiber fromCb) :
    ∃ after, StateTransition.Reaches (advance plan threadOf) before after ∧
      after.AtScan plan (!fromCb) ∧ before.Turn plan fiber after := by
  have stageIs : before.worker.stage = .running fiber (-1) fromCb := by
    rw [inside.worker]
  refine ⟨_, reaches_afterRun threadOf stageIs, ?_, inside.turn_afterRun⟩
  apply inside.turn_afterRun.atScan inside
  · rw [afterRun_worker, scans, inside.worker]
    cases fromCb <;> rfl
  · rw [afterRun_activeThreadsCount, inside.activeThreadsCount]
    rfl

theorem Queued.of_rest {entry : FiberAnThread Callback} {rest : List (FiberAnThread Callback)}
    (queue : before.scheduler.fibers = entry :: rest) (queueIs : after.scheduler.fibers = rest)
    {fiber : FiberId} (queued : after.Queued fiber) : before.Queued fiber := by
  rcases queued with ⟨other, member, workIs⟩
  rw [queueIs] at member
  exact ⟨other, queue ▸ List.mem_cons_of_mem _ member, workIs⟩

theorem Busy.rest {entry : FiberAnThread Callback} {rest : List (FiberAnThread Callback)}
    (busy : before.Busy) (queue : before.scheduler.fibers = entry :: rest)
    (queueIs : after.scheduler.fibers = rest)
    (autoStop : after.scheduler.autoStop = before.scheduler.autoStop)
    (stopping : after.scheduler.stopping = before.scheduler.stopping)
    (created : before.scheduler.created ≤ after.scheduler.created)
    (yielded : after.yielded = before.yielded) : after.Busy where
  autoStop := autoStop.trans busy.autoStop
  stopping := stopping.trans busy.stopping
  unpinned other member := by
    rw [queueIs] at member
    exact busy.unpinned other (queue ▸ List.mem_cons_of_mem _ member)
  queued fiber queued := (busy.queued fiber (queued.of_rest queue queueIs)).trans_le created
  fresh fiber new := by
    rw [yielded]
    exact busy.fresh fiber (created.trans new)

def took (execution : Execution Callback) (entry : FiberAnThread Callback)
    (rest : List (FiberAnThread Callback)) : Execution Callback :=
  { execution with
    scheduler :=
      { execution.scheduler with
        fibers := rest
        activeThreadsCount := 1
        workers := Function.update execution.scheduler.workers 0
          { stage := .scanned (some entry), isActivate := true, lastTaken := some entry.work } } }

theorem took_stage (execution : Execution Callback) (entry : FiberAnThread Callback)
    (rest : List (FiberAnThread Callback)) :
    (execution.took entry rest).worker.stage = .scanned (some entry) := by
  simp [Execution.worker, took]

theorem AtScan.takes {isActivate : Bool} {entry : FiberAnThread Callback}
    {rest : List (FiberAnThread Callback)} (atScan : before.AtScan plan isActivate)
    (queue : before.scheduler.fibers = entry :: rest) :
    before.advance plan threadOf = some (before.took entry rest) := by
  have member : entry ∈ before.scheduler.fibers := by simp [queue]
  have unpinned : ¬(entry.thread ≠ -1 ∧ entry.thread ≠ threadOf 0) := by
    simp [atScan.unpinned entry member]
  have free : ¬entry.executing before.scheduler.fiberState = true := by
    rw [FiberAnThread.executing]
    cases workIs : entry.work with
    | cb callback => simp
    | fiber fiber =>
        have pending := atScan.pending fiber ⟨entry, member, workIs⟩
        rw [Pending, Plan.last] at pending
        simp only [decide_eq_true_eq]
        intro executes
        rw [executes] at pending
        split at pending <;> simp at pending
  have scanned : Scheduler.scan before.scheduler.fiberState (threadOf 0)
      before.scheduler.fibers = { taken := some entry, rest := rest, passed := false } := by
    rw [queue, Scheduler.scan, if_neg unpinned, if_neg free]
  have workerIs := atScan.worker
  rw [Execution.worker] at workerIs
  rw [advance_scanning (by rw [atScan.worker])]
  simp only [Scheduler.scanQueue, scanned, took, Scheduler.setWorker,
    atScan.activeThreadsCount]
  rw [workerIs]
  rfl

/-- What a round has changed that has run the first entry of the queue, in the fiber `task`. -/
structure Round (plan : Callback → Plan) (before : Execution Callback)
    (entry : FiberAnThread Callback) (rest : List (FiberAnThread Callback)) (task : FiberId)
    (after : Execution Callback) : Prop where
  created :
    (entry.work = .fiber task ∧ task < before.scheduler.created ∧
      after.scheduler.created = before.scheduler.created) ∨
    (task = before.scheduler.created ∧
      after.scheduler.created = before.scheduler.created + 1 ∧
      ∃ callback, entry.work = .cb callback ∧ after.scheduler.fiberCb task = some callback)
  kept : ∀ fiber, fiber < before.scheduler.created →
    after.scheduler.fiberCb fiber = before.scheduler.fiberCb fiber
  others : ∀ fiber, fiber ≠ task →
    after.scheduler.fiberState fiber = before.scheduler.fiberState fiber ∧
      after.yielded fiber = before.yielded fiber
  outcome :
    (before.remaining plan entry.work = 0 ∧ after.scheduler.fibers = rest ∧
      after.scheduler.fiberState task = (after.planOf plan task).last ∧
      after.yielded task = (after.planOf plan task).yields) ∨
    (before.remaining plan entry.work = after.remaining plan (.fiber task) + 1 ∧
      after.scheduler.fibers = rest ++ [{ work := .fiber task }])

theorem AtScan.round_cb (threadOf : Fin 1 → ThreadId) {isActivate : Bool}
    {callback : Callback} {rest : List (FiberAnThread Callback)}
    (atScan : before.AtScan plan isActivate)
    (queue : before.scheduler.fibers = { work := .cb callback } :: rest) :
    ∃ after, StateTransition.Reaches (advance plan threadOf) before after ∧
      after.AtScan plan false ∧
      before.Round plan { work := .cb callback } rest before.scheduler.created after := by
  let entered : Execution Callback :=
    { before with
      scheduler :=
        { before.scheduler with
          fibers := rest
          fiberState :=
            Function.update before.scheduler.fiberState before.scheduler.created .EXEC
          fiberCb :=
            Function.update before.scheduler.fiberCb before.scheduler.created (some callback)
          created := before.scheduler.created + 1
          activeThreadsCount := 1
          workers := Function.update before.scheduler.workers 0
            { stage := .running before.scheduler.created (-1) true, isActivate := true
              lastTaken := some (.cb callback) } } }
  have enters : (before.took { work := .cb callback } rest).advance plan threadOf =
      some entered := by
    rw [advance_scanned (took_stage before _ rest)]
    simp [Scheduler.resume, Scheduler.newFiber, Scheduler.swapIn, Scheduler.setFiber,
      Scheduler.setWorker, took, entered]
  have inside : entered.Inside plan before.scheduler.created true :=
    { toBusy := atScan.toBusy.rest queue rfl rfl rfl (Nat.le_succ _) rfl
      worker := by simp [Execution.worker, entered]
      activeThreadsCount := rfl
      created := Nat.lt_succ_self _
      yielded := by simp [entered, atScan.fresh]
      pending := fun fiber queued differs =>
        (atScan.pending fiber (queued.of_rest queue rfl)).congr
          (by simp [entered, differs]) (by simp [entered, differs]) rfl }
  rcases inside.turn threadOf with ⟨after, reaches, isAtScan, turn⟩
  refine ⟨after, .head (atScan.takes queue) (.head enters reaches), isAtScan, ?_⟩
  have leftIs : entered.remaining plan (.fiber before.scheduler.created) =
      before.remaining plan (.cb callback) := by
    simp [remaining, planOf, entered, atScan.fresh]
  refine ⟨Or.inr ⟨rfl, turn.created, callback, rfl, ?_⟩, ?_, ?_, ?_⟩
  · rw [turn.fiberCb]
    simp [entered]
  · intro fiber old
    rw [turn.fiberCb]
    simp [entered, Nat.ne_of_lt old]
  · intro fiber differs
    have same := turn.others fiber differs
    simpa [entered, differs] using same
  · rcases turn.outcome with ⟨nothing, queueIs, ended⟩ | ⟨less, queueIs, -⟩
    · exact Or.inl ⟨leftIs ▸ nothing, queueIs, ended⟩
    · exact Or.inr ⟨leftIs ▸ less, queueIs⟩

theorem AtScan.round_ended (threadOf : Fin 1 → ThreadId) {isActivate : Bool}
    {fiber : FiberId} {rest : List (FiberAnThread Callback)}
    (atScan : before.AtScan plan isActivate)
    (queue : before.scheduler.fibers = { work := .fiber fiber } :: rest)
    (finished : before.scheduler.fiberState fiber = .TERM ∨
      before.scheduler.fiberState fiber = .EXCET) :
    ∃ after, StateTransition.Reaches (advance plan threadOf) before after ∧
      after.AtScan plan true ∧ before.Round plan { work := .fiber fiber } rest fiber after := by
  have isQueued : before.Queued fiber := ⟨_, queue ▸ List.mem_cons_self, rfl⟩
  have ended : before.scheduler.fiberState fiber = (before.planOf plan fiber).last ∧
      before.yielded fiber = (before.planOf plan fiber).yields := by
    rcases atScan.pending fiber isQueued with ⟨runnable, -⟩ | ended
    · rcases finished with is | is <;> simp [is] at runnable
    · exact ended
  let dropped : Execution Callback :=
    { before with
      scheduler :=
        { before.scheduler with
          fibers := rest
          workers := Function.update before.scheduler.workers 0
            { isActivate := true, lastTaken := some (.fiber fiber) } } }
  have drops : (before.took { work := .fiber fiber } rest).advance plan threadOf =
      some dropped := by
    have noRun : ¬(before.scheduler.fiberState fiber ≠ .TERM ∧
        before.scheduler.fiberState fiber ≠ .EXCET) := by
      rw [← not_or]
      exact not_not.mpr finished
    have inactive := atScan.activeThreadsCount
    rw [advance_scanned (took_stage before _ rest)]
    simp [Scheduler.resume, Scheduler.nothingToRun, Scheduler.setWorker, took, dropped, noRun,
      inactive]
  refine ⟨dropped, .head (atScan.takes queue) (.single drops), ?_, ?_⟩
  · exact
      { toBusy := atScan.toBusy.rest queue rfl rfl rfl le_rfl rfl
        worker := by simp [Execution.worker, dropped]
        activeThreadsCount := atScan.activeThreadsCount
        pending := fun other queued => atScan.pending other (queued.of_rest queue rfl) }
  · refine ⟨Or.inl ⟨rfl, atScan.queued fiber isQueued, rfl⟩, fun _ _ => rfl,
      fun _ _ => ⟨rfl, rfl⟩, Or.inl ⟨?_, rfl, ended⟩⟩
    simp [remaining, ended.2]

theorem AtScan.round_resumed (threadOf : Fin 1 → ThreadId) {isActivate : Bool}
    {fiber : FiberId} {rest : List (FiberAnThread Callback)}
    (atScan : before.AtScan plan isActivate)
    (queue : before.scheduler.fibers = { work := .fiber fiber } :: rest)
    (runs : before.scheduler.fiberState fiber ≠ .TERM ∧
      before.scheduler.fiberState fiber ≠ .EXCET) :
    ∃ after, StateTransition.Reaches (advance plan threadOf) before after ∧
      after.AtScan plan true ∧ before.Round plan { work := .fiber fiber } rest fiber after := by
  have isQueued : before.Queued fiber := ⟨_, queue ▸ List.mem_cons_self, rfl⟩
  have known := atScan.queued fiber isQueued
  have within : before.yielded fiber ≤ (before.planOf plan fiber).yields := by
    rcases atScan.pending fiber isQueued with ⟨-, within⟩ | ⟨-, all⟩
    · exact within
    · exact all.le
  let entered : Execution Callback :=
    { before with
      scheduler :=
        { before.scheduler with
          fibers := rest
          fiberState := Function.update before.scheduler.fiberState fiber .EXEC
          activeThreadsCount := 1
          workers := Function.update before.scheduler.workers 0
            { stage := .running fiber (-1) false, isActivate := true
              lastTaken := some (.fiber fiber) } } }
  have enters : (before.took { work := .fiber fiber } rest).advance plan threadOf =
      some entered := by
    rw [advance_scanned (took_stage before _ rest)]
    simp [Scheduler.resume, Scheduler.swapIn, Scheduler.setFiber, Scheduler.setWorker, took,
      entered, runs]
  have inside : entered.Inside plan fiber false :=
    { toBusy := atScan.toBusy.rest queue rfl rfl rfl le_rfl rfl
      worker := by simp [Execution.worker, entered]
      activeThreadsCount := rfl
      created := known
      yielded := within
      pending := fun other queued differs =>
        (atScan.pending other (queued.of_rest queue rfl)).congr rfl
          (by simp [entered, differs]) rfl }
  rcases inside.turn threadOf with ⟨after, reaches, isAtScan, turn⟩
  refine ⟨after, .head (atScan.takes queue) (.head enters reaches), isAtScan, ?_⟩
  refine ⟨Or.inl ⟨rfl, known, turn.created⟩, fun other _ => congrFun turn.fiberCb other, ?_, ?_⟩
  · intro other differs
    have same := turn.others other differs
    simpa [entered, differs] using same
  · rcases turn.outcome with ⟨nothing, queueIs, ended⟩ | ⟨less, queueIs, -⟩
    · exact Or.inl ⟨nothing, queueIs, ended⟩
    · exact Or.inr ⟨less, queueIs⟩

theorem AtScan.round (threadOf : Fin 1 → ThreadId) {isActivate : Bool}
    {entry : FiberAnThread Callback} {rest : List (FiberAnThread Callback)}
    (atScan : before.AtScan plan isActivate) (queue : before.scheduler.fibers = entry :: rest) :
    ∃ after task, StateTransition.Reaches (advance plan threadOf) before after ∧
      after.AtScan plan entry.fiber.isSome ∧ before.Round plan entry rest task after := by
  rcases entry with ⟨work, thread⟩
  have isUnpinned : thread = -1 := atScan.unpinned _ (queue ▸ List.mem_cons_self)
  subst isUnpinned
  cases work with
  | cb callback =>
      rcases atScan.round_cb threadOf queue with ⟨after, reaches, isAtScan, round⟩
      exact ⟨after, _, reaches, isAtScan, round⟩
  | fiber fiber =>
      by_cases finished : before.scheduler.fiberState fiber = .TERM ∨
          before.scheduler.fiberState fiber = .EXCET
      · rcases atScan.round_ended threadOf queue finished with ⟨after, reaches, isAtScan, round⟩
        exact ⟨after, _, reaches, isAtScan, round⟩
      · rcases atScan.round_resumed threadOf queue (not_or.mp finished) with
          ⟨after, reaches, isAtScan, round⟩
        exact ⟨after, _, reaches, isAtScan, round⟩

end Execution

end Sylar.Scheduling
