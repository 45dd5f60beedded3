import Mathlib.Algebra.Order.BigOperators.Group.List
import Mathlib.Algebra.Order.Ring.Nat
import Sylar.Scheduling.Solo

/-! # Whether a worker leaves its loop

The loop leaves through the idle fiber, which is entered only while `is_activate` is clear. What
a round leaves of the queue and of the flag decides what the next one finds, and the yields left
to the entries go down with every round.
-/

namespace Sylar.Scheduling

namespace Execution

variable {Callback : Type} {plan : Callback → Plan} {threadOf : Fin 1 → ThreadId}
  {execution before after : Execution Callback}

/-- Before the loop, with nothing but unpinned callbacks and fresh fibers in the queue. -/
structure Starts (execution : Execution Callback) : Prop where
  worker : execution.worker = {}
  autoStop : execution.scheduler.autoStop = true
  stopping : execution.scheduler.stopping = true
  activeThreadsCount : execution.scheduler.activeThreadsCount = 0
  unpinned : ∀ entry ∈ execution.scheduler.fibers, entry.thread = -1
  queued : ∀ fiber, execution.Queued fiber →
    fiber < execution.scheduler.created ∧ execution.scheduler.fiberState fiber = .INIT
  yielded : ∀ fiber, execution.yielded fiber = 0

def callbacks (entries : List (FiberAnThread Callback)) : List Callback :=
  entries.filterMap fun entry =>
    match entry.work with
    | .cb callback => some callback
    | .fiber _ => none

structure Completed (plan : Callback → Plan) (before after : Execution Callback) : Prop where
  left : after.worker.stage = .left
  fibers : after.scheduler.fibers = []
  /-- A new fiber has been made for each callback, in order. -/
  made : (List.range' before.scheduler.created
      (after.scheduler.created - before.scheduler.created)).map after.scheduler.fiberCb =
    (callbacks before.scheduler.fibers).map some
  ended : ∀ fiber, (before.Queued fiber ∨
      (before.scheduler.created ≤ fiber ∧ fiber < after.scheduler.created)) →
    after.scheduler.fiberState fiber = (after.planOf plan fiber).last ∧
      after.yielded fiber = (after.planOf plan fiber).yields
  grows : before.scheduler.created ≤ after.scheduler.created
  kept : ∀ fiber, fiber < before.scheduler.created →
    after.scheduler.fiberCb fiber = before.scheduler.fiberCb fiber
  untouched : ∀ fiber, fiber < before.scheduler.created → ¬before.Queued fiber →
    after.scheduler.fiberState fiber = before.scheduler.fiberState fiber ∧
      after.yielded fiber = before.yielded fiber

/-- After finitely many steps the worker leaves its loop, with all work done. -/
def RunsToEnd (plan : Callback → Plan) (threadOf : Fin 1 → ThreadId)
    (execution : Execution Callback) : Prop :=
  ∃ final ∈ StateTransition.eval (advance plan threadOf) execution, execution.Completed plan final

/-- There is nothing to do, or no task yields and the last one is a callback. -/
def EndsWithCallback (plan : Callback → Plan) (execution : Execution Callback) : Prop :=
  execution.scheduler.fibers = [] ∨
    (∀ entry ∈ execution.scheduler.fibers, execution.remaining plan entry.work = 0) ∧
      ∃ entry callback, execution.scheduler.fibers.getLast? = some entry ∧
        entry.work = .cb callback

/-! ## The end of the loop -/

/-- With `is_activate` clear and the queue empty, `idle` returns at once and the loop is left. -/
theorem AtScan.leaves (threadOf : Fin 1 → ThreadId) (atScan : before.AtScan plan false)
    (empty : before.scheduler.fibers = []) :
    ∃ final ∈ StateTransition.eval (advance plan threadOf) before,
      ∃ worker idleThreadsCount, final = before.posed worker idleThreadsCount ∧
        worker.stage = .left := by
  let idle := before.scheduler.idleThreadsCount
  let idler : Worker Callback Unit := { lastTaken := before.worker.lastTaken }
  have start : before = before.posed idler idle := by
    have sameWorker : Function.update before.scheduler.workers 0 idler =
        before.scheduler.workers := by
      rw [← show before.scheduler.workers 0 = idler from atScan.worker]
      exact Function.update_eq_self 0 _
    rw [posed, sameWorker]
  have scans (idleFiber : FiberState) :
      (before.posed { idler with idleFiber := idleFiber } idle).advance plan threadOf =
        some (before.posed { idler with stage := .scanned none, idleFiber := idleFiber } idle) := by
    simp [advance, nextLabel, nextYielded, Execution.worker, posed, Scheduler.step,
      Scheduler.scanQueue, Scheduler.scan, Scheduler.setWorker, empty, idler]
  have turnsIdle : (before.posed { idler with stage := .scanned none } idle).advance plan threadOf =
      some (before.posed { idler with stage := .idling (), idleFiber := .EXEC } (idle + 1)) := by
    simp [advance, nextLabel, nextYielded, Execution.worker, posed, Scheduler.step,
      Scheduler.resume, Scheduler.nothingToRun, Scheduler.setWorker, idler]
  have stops : (before.posed { idler with stage := .idling (), idleFiber := .EXEC }
        (idle + 1)).advance plan threadOf =
      some (before.posed { idler with stage := .idled, idleFiber := .TERM } (idle + 1)) := by
    simp [advance, nextLabel, nextYielded, Execution.worker, posed, Scheduler.step,
      Scheduler.leaveIdle, Scheduler.isStopping, Scheduler.setWorker, idler, empty,
      atScan.autoStop, atScan.stopping, atScan.activeThreadsCount]
  have wakes : (before.posed { idler with stage := .idled, idleFiber := .TERM }
        (idle + 1)).advance plan threadOf =
      some (before.posed { idler with idleFiber := .TERM } idle) := by
    simp [advance, nextLabel, nextYielded, Execution.worker, posed, Scheduler.step,
      Scheduler.afterIdle, Scheduler.setWorker, idler]
  have breaks : (before.posed { idler with stage := .scanned none, idleFiber := .TERM }
        idle).advance plan threadOf =
      some (before.posed { idler with stage := .left, idleFiber := .TERM } idle) := by
    simp [advance, nextLabel, nextYielded, Execution.worker, posed, Scheduler.step,
      Scheduler.resume, Scheduler.nothingToRun, Scheduler.setWorker, idler]
  refine ⟨before.posed { idler with stage := .left, idleFiber := .TERM } idle, ?_, _, _, rfl, rfl⟩
  rw [StateTransition.mem_eval]
  constructor
  · nth_rewrite 1 [start]
    exact .head (scans .INIT) (.head turnsIdle (.head stops (.head wakes
      (.head (scans .TERM) (.single breaks)))))
  · exact advance_left (by simp [Execution.worker, posed])

theorem not_mem_eval {State : Type} {advance : State → Option State} (invariant : State → Prop)
    (goes : ∀ state, invariant state → ∃ next, advance state = some next ∧ invariant next)
    {state : State} (holds : invariant state) (final : State) :
    final ∉ StateTransition.eval advance state := by
  intro ends
  refine absurd holds (StateTransition.evalInduction ends ?_)
  intro state _ induction holds
  rcases goes state holds with ⟨next, advanced, nextHolds⟩
  exact induction next advanced nextHolds

/-- With `is_activate` set and the queue empty, the worker counts down and scans again. -/
def Spinning (execution : Execution Callback) : Prop :=
  execution.scheduler.fibers = [] ∧ execution.worker.isActivate = true ∧
    execution.worker.tickelMe = false ∧
    (execution.worker.stage = .scanning ∨ execution.worker.stage = .scanned none)

theorem Spinning.advance (spinning : before.Spinning) :
    ∃ after, before.advance plan threadOf = some after ∧ after.Spinning := by
  rcases spinning with ⟨empty, isActivate, noTickle, scanning | scanned⟩
  · refine ⟨_, advance_scanning scanning, ?_⟩
    rw [Execution.worker] at isActivate noTickle
    simp [Spinning, Scheduler.scanQueue, Scheduler.scan, Scheduler.setWorker, empty,
      Execution.worker, isActivate, noTickle]
  · refine ⟨_, advance_scanned scanned, ?_⟩
    rw [Execution.worker] at isActivate noTickle
    simp [Spinning, Scheduler.resume, Scheduler.nothingToRun, Scheduler.setWorker, empty,
      Execution.worker, isActivate, noTickle]

theorem AtScan.spins (atScan : before.AtScan plan true) (empty : before.scheduler.fibers = [])
    (final : Execution Callback) :
    final ∉ StateTransition.eval (Execution.advance plan threadOf) before := by
  refine not_mem_eval Spinning (fun _ spinning => spinning.advance) ?_ final
  refine ⟨empty, ?_, ?_, Or.inl ?_⟩ <;> rw [atScan.worker]

/-! ## Whole runs -/

/-- The loop is left from here: with `is_activate` clear if the queue is empty, and else after a
callback that is the last of the entries, none of which comes back. -/
def Smooth (plan : Callback → Plan) (execution : Execution Callback) (isActivate : Bool) : Prop :=
  (execution.scheduler.fibers = [] ∧ isActivate = false) ∨
    (∀ entry ∈ execution.scheduler.fibers, execution.remaining plan entry.work = 0) ∧
      ∃ entry callback, execution.scheduler.fibers.getLast? = some entry ∧
        entry.work = .cb callback

def weight (plan : Callback → Plan) (execution : Execution Callback) : Nat :=
  (execution.scheduler.fibers.map fun entry => execution.remaining plan entry.work + 1).sum

section Round

variable {entry : FiberAnThread Callback} {rest : List (FiberAnThread Callback)} {task : FiberId}
  {isActivate : Bool}

theorem Round.remaining_cases (round : before.Round plan entry rest task after)
    (atScan : before.AtScan plan isActivate) (queue : before.scheduler.fibers = entry :: rest)
    {other : FiberAnThread Callback} (member : other ∈ rest) :
    after.remaining plan other.work = before.remaining plan other.work ∨
      (before.remaining plan entry.work ≠ 0 ∧
        after.remaining plan other.work < before.remaining plan other.work) := by
  cases workIs : other.work with
  | cb callback => exact Or.inl rfl
  | fiber fiber =>
      have known := atScan.queued fiber
        ⟨other, queue ▸ List.mem_cons_of_mem _ member, workIs⟩
      have planIs := planOf_congr plan (round.kept fiber known)
      by_cases same : fiber = task
      · subst same
        rcases round.created with ⟨entryIs, -⟩ | ⟨isNew, -⟩
        · rcases round.outcome with ⟨nothing, -, -, all⟩ | ⟨less, -⟩
          · left
            rw [entryIs] at nothing
            rw [nothing, remaining, all, Nat.sub_self]
          · right
            rw [entryIs] at less ⊢
            omega
        · exact absurd (isNew ▸ known) (Nat.lt_irrefl _)
      · left
        rw [remaining, remaining, planIs, (round.others fiber same).2]

theorem Round.weight_lt (round : before.Round plan entry rest task after)
    (atScan : before.AtScan plan isActivate) (queue : before.scheduler.fibers = entry :: rest) :
    after.weight plan < before.weight plan := by
  have restLe : (rest.map fun entry => after.remaining plan entry.work + 1).sum ≤
      (rest.map fun entry => before.remaining plan entry.work + 1).sum := by
    apply List.sum_le_sum
    intro other member
    rcases round.remaining_cases atScan queue member with same | ⟨-, less⟩
    · rw [same]
    · omega
  rw [weight, weight, queue, List.map_cons, List.sum_cons]
  rcases round.outcome with ⟨-, queueIs, -⟩ | ⟨less, queueIs⟩
  · rw [queueIs]
    omega
  · rw [queueIs, List.map_append, List.sum_append, List.map_singleton, List.sum_singleton, less]
    change _ + (after.remaining plan (.fiber task) + 1) < _
    omega

theorem Round.smooth_iff (round : before.Round plan entry rest task after)
    (atScan : before.AtScan plan isActivate) (queue : before.scheduler.fibers = entry :: rest) :
    after.Smooth plan entry.fiber.isSome ↔ before.Smooth plan isActivate := by
  rw [Smooth, Smooth, queue]
  rcases round.outcome with ⟨nothing, queueIs, -⟩ | ⟨less, queueIs⟩
  · have sameRest (other : FiberAnThread Callback) (member : other ∈ rest) :
        after.remaining plan other.work = before.remaining plan other.work := by
      rcases round.remaining_cases atScan queue member with same | ⟨some, -⟩
      · exact same
      · exact absurd nothing some
    have firstDone : before.remaining plan entry.work = 0 ↔ True := iff_true_intro nothing
    rw [queueIs, List.forall_mem_cons, firstDone, true_and,
      forall₂_congr fun other member => by rw [sameRest other member]]
    cases rest with
    | nil =>
        have isCb : entry.fiber.isSome = false ↔ ∃ callback, entry.work = .cb callback := by
          rw [FiberAnThread.fiber]
          cases entry.work <;> simp
        simp [isCb]
    | cons second others => simp [List.getLast?_cons_cons]
  · have comesBack : ¬(∃ last callback, (rest ++ [({ work := .fiber task } :
        FiberAnThread Callback)]).getLast? = some last ∧ last.work = .cb callback) := by
      rintro ⟨last, callback, lastIs, workIs⟩
      rw [List.getLast?_concat] at lastIs
      cases lastIs
      cases workIs
    rw [queueIs]
    refine iff_of_false ?_ ?_
    · rintro (⟨empty, -⟩ | ⟨-, last⟩)
      · simp at empty
      · exact comesBack last
    · rintro (⟨empty, -⟩ | ⟨none, -⟩)
      · cases empty
      · have nothing := none entry List.mem_cons_self
        omega

theorem Round.task_cases (round : before.Round plan entry rest task after) :
    after.Queued task ∨
      (after.scheduler.fiberState task = (after.planOf plan task).last ∧
        after.yielded task = (after.planOf plan task).yields) := by
  rcases round.outcome with ⟨-, -, ended⟩ | ⟨-, queueIs⟩
  · exact Or.inr ended
  · exact Or.inl ⟨{ work := .fiber task }, by simp [queueIs], rfl⟩

theorem Round.task_lt (round : before.Round plan entry rest task after) :
    task < after.scheduler.created := by
  rcases round.created with ⟨-, known, same⟩ | ⟨isNew, grown, -⟩
  · rw [same]
    exact known
  · rw [isNew, grown]
    exact Nat.lt_succ_self _

theorem Round.queued_of_rest (round : before.Round plan entry rest task after)
    {other : FiberAnThread Callback} {fiber : FiberId} (member : other ∈ rest)
    (workIs : other.work = .fiber fiber) : after.Queued fiber := by
  rcases round.outcome with ⟨-, queueIs, -⟩ | ⟨-, queueIs⟩
  · exact ⟨other, queueIs ▸ member, workIs⟩
  · exact ⟨other, by simp [queueIs, member], workIs⟩

theorem Round.queued_before (round : before.Round plan entry rest task after)
    (queue : before.scheduler.fibers = entry :: rest) {fiber : FiberId}
    (queued : after.Queued fiber) (differs : fiber ≠ task) : before.Queued fiber := by
  rcases queued with ⟨other, member, workIs⟩
  rcases round.outcome with ⟨-, queueIs, -⟩ | ⟨-, queueIs⟩
  · exact ⟨other, by simp [queue, ← queueIs, member], workIs⟩
  · rw [queueIs, List.mem_append, List.mem_singleton] at member
    rcases member with old | rfl
    · exact ⟨other, by simp [queue, old], workIs⟩
    · cases workIs
      exact absurd rfl differs

theorem callbacks_append_fiber (entries : List (FiberAnThread Callback)) (fiber : FiberId) :
    callbacks (entries ++ [{ work := .fiber fiber }]) = callbacks entries := by
  simp [callbacks]

theorem Round.callbacks_eq (round : before.Round plan entry rest task after) :
    callbacks after.scheduler.fibers = callbacks rest := by
  rcases round.outcome with ⟨-, queueIs, -⟩ | ⟨-, queueIs⟩
  · rw [queueIs]
  · rw [queueIs, callbacks_append_fiber]

theorem Round.created_le (round : before.Round plan entry rest task after) :
    before.scheduler.created ≤ after.scheduler.created := by
  rcases round.created with ⟨-, -, same⟩ | ⟨-, grown, -⟩ <;> omega

theorem Round.made {final : Execution Callback} (round : before.Round plan entry rest task after)
    (queue : before.scheduler.fibers = entry :: rest) (completed : after.Completed plan final) :
    (List.range' before.scheduler.created
        (final.scheduler.created - before.scheduler.created)).map final.scheduler.fiberCb =
      (callbacks before.scheduler.fibers).map some := by
  rw [queue]
  rcases round.created with ⟨entryIs, -, same⟩ | ⟨rfl, grown, callback, entryIs, cbIs⟩
  · have noCb : callbacks (entry :: rest) = callbacks rest := by
      simp [callbacks, entryIs]
    rw [noCb, ← round.callbacks_eq, ← completed.made, same]
  · have oneCb : callbacks (entry :: rest) = callback :: callbacks rest := by
      simp [callbacks, entryIs]
    have more : final.scheduler.created - before.scheduler.created =
        final.scheduler.created - after.scheduler.created + 1 := by
      have later := completed.grows
      omega
    rw [oneCb, more, List.range'_succ, List.map_cons, List.map_cons, ← round.callbacks_eq,
      ← completed.made, grown, completed.kept _ round.task_lt, cbIs]

theorem Round.completed {final : Execution Callback}
    (round : before.Round plan entry rest task after)
    (queue : before.scheduler.fibers = entry :: rest)
    (completed : after.Completed plan final) : before.Completed plan final := by
  have taskEnds : final.scheduler.fiberState task = (final.planOf plan task).last ∧
      final.yielded task = (final.planOf plan task).yields := by
    by_cases queued : after.Queued task
    · exact completed.ended task (Or.inl queued)
    · rcases completed.untouched task round.task_lt queued with ⟨sameState, sameYielded⟩
      rw [planOf_congr plan (completed.kept task round.task_lt), sameState, sameYielded]
      exact round.task_cases.resolve_left queued
  exact
    { left := completed.left
      fibers := completed.fibers
      made := round.made queue completed
      ended := by
        intro fiber given
        by_cases same : fiber = task
        · rw [same]
          exact taskEnds
        · apply completed.ended fiber
          rcases given with ⟨other, member, workIs⟩ | ⟨new, made⟩
          · rw [queue, List.mem_cons] at member
            rcases member with rfl | inRest
            · rcases round.created with ⟨entryIs, -⟩ | ⟨-, -, callback, entryIs, -⟩
              · rw [workIs] at entryIs
                cases entryIs
                exact absurd rfl same
              · rw [workIs] at entryIs
                cases entryIs
            · exact Or.inl (round.queued_of_rest inRest workIs)
          · right
            rcases round.created with ⟨-, -, sameCreated⟩ | ⟨isNew, grown, -⟩
            · rw [sameCreated]
              exact ⟨new, made⟩
            · rw [grown]
              rw [isNew] at same
              exact ⟨Nat.lt_of_le_of_ne new (Ne.symm same), made⟩
      grows := round.created_le.trans completed.grows
      kept := fun fiber old =>
        (completed.kept fiber (old.trans_le round.created_le)).trans (round.kept fiber old)
      untouched := by
        intro fiber old notQueued
        have differs : fiber ≠ task := by
          rintro rfl
          rcases round.created with ⟨entryIs, -⟩ | ⟨isNew, -⟩
          · exact notQueued ⟨entry, by simp [queue], entryIs⟩
          · exact absurd (isNew ▸ old) (Nat.lt_irrefl _)
        have same := round.others fiber differs
        rw [← same.1, ← same.2]
        exact completed.untouched fiber (old.trans_le round.created_le) fun queued =>
          notQueued (round.queued_before queue queued differs) }

end Round

theorem AtScan.smooth_of_ends {isActivate : Bool} (atScan : before.AtScan plan isActivate)
    {final : Execution Callback}
    (ends : final ∈ StateTransition.eval (advance plan threadOf) before) :
    before.Smooth plan isActivate := by
  induction weightIs : before.weight plan using Nat.strong_induction_on
    generalizing before isActivate with
  | _ weight induction =>
      cases queue : before.scheduler.fibers with
      | nil =>
          cases isActivate with
          | false => exact Or.inl ⟨queue, rfl⟩
          | true => exact absurd ends (atScan.spins queue final)
      | cons entry rest =>
          rcases atScan.round threadOf queue with ⟨after, task, reaches, isAtScan, round⟩
          rw [StateTransition.reaches_eval reaches] at ends
          exact (round.smooth_iff atScan queue).mp
            (induction _ (weightIs ▸ round.weight_lt atScan queue) isAtScan ends rfl)

theorem AtScan.runsToEnd (threadOf : Fin 1 → ThreadId) {isActivate : Bool}
    (atScan : before.AtScan plan isActivate)
    (smooth : before.Smooth plan isActivate) : before.RunsToEnd plan threadOf := by
  induction weightIs : before.weight plan using Nat.strong_induction_on
    generalizing before isActivate with
  | _ weight induction =>
      cases queue : before.scheduler.fibers with
      | nil =>
          have isClear : isActivate = false := by
            rcases smooth with ⟨-, isClear⟩ | ⟨-, last, callback, lastIs, -⟩
            · exact isClear
            · rw [queue] at lastIs
              cases lastIs
          subst isClear
          rcases atScan.leaves threadOf queue with
            ⟨final, ends, worker, idleThreadsCount, rfl, left⟩
          refine ⟨_, ends, ?_⟩
          exact
            { left := by simpa [Execution.worker, posed] using left
              fibers := queue
              made := by simp [posed, queue, callbacks]
              ended := by
                intro fiber given
                rcases given with ⟨entry, member, -⟩ | ⟨new, made⟩
                · rw [queue] at member
                  cases member
                · exact absurd made (Nat.not_lt.mpr new)
              grows := Nat.le_refl _
              kept := fun _ _ => rfl
              untouched := fun _ _ _ => ⟨rfl, rfl⟩ }
      | cons entry rest =>
          rcases atScan.round threadOf queue with ⟨after, task, reaches, isAtScan, round⟩
          have smoothNext := (round.smooth_iff atScan queue).mpr smooth
          rcases induction _ (weightIs ▸ round.weight_lt atScan queue) isAtScan smoothNext rfl with
            ⟨final, ends, completed⟩
          rw [← StateTransition.reaches_eval reaches] at ends
          exact ⟨final, ends, round.completed queue completed⟩

theorem Starts.atScan (starts : execution.Starts) : execution.AtScan plan false where
  autoStop := starts.autoStop
  stopping := starts.stopping
  unpinned := starts.unpinned
  queued fiber queued := (starts.queued fiber queued).1
  fresh fiber _ := starts.yielded fiber
  worker := by rw [starts.worker]
  activeThreadsCount := starts.activeThreadsCount
  pending fiber queued := by
    refine Or.inl ⟨Or.inl (starts.queued fiber queued).2, ?_⟩
    rw [starts.yielded]
    exact Nat.zero_le _

/-- A worker that starts with no other worker and no further entries leaves its loop with all
work done if and only if there is nothing to do, or no task yields and the last entry of the queue
is a callback. -/
theorem runsToEnd_iff (plan : Callback → Plan) (threadOf : Fin 1 → ThreadId)
    (starts : execution.Starts) :
    execution.RunsToEnd plan threadOf ↔ execution.EndsWithCallback plan := by
  have atScan : execution.AtScan plan false := starts.atScan
  constructor
  · intro runs
    rcases runs with ⟨final, ends, -⟩
    rcases atScan.smooth_of_ends ends with ⟨empty, -⟩ | smooth
    · exact Or.inl empty
    · exact Or.inr smooth
  · intro given
    apply atScan.runsToEnd threadOf
    rcases given with empty | smooth
    · exact Or.inl ⟨empty, rfl⟩
    · exact Or.inr smooth

theorem runsToEnd_iff_two :
    let plan (throws : Bool) : Plan := { yields := 0, throws := throws }
    let execution : Execution Bool :=
      { scheduler :=
          { fibers := [{ work := .cb true }, { work := .cb false }]
            autoStop := true, stopping := true } }
    execution.RunsToEnd plan (fun _ => 1) ↔ execution.EndsWithCallback plan := by
  intro plan execution
  apply runsToEnd_iff plan (fun _ => 1)
  refine ⟨rfl, rfl, rfl, rfl, by simp [execution], ?_, fun _ => rfl⟩
  rintro fiber ⟨entry, member, workIs⟩
  simp only [execution, List.mem_cons, List.not_mem_nil, or_false] at member
  rcases member with rfl | rfl <;> cases workIs

/-- Neither after a callback that yields once nor after a fiber that just returns does the
worker leave its loop. -/
theorem runsToEnd_iff_fails :
    let plan (yields : Nat) : Plan := { yields := yields, throws := false }
    let yielding : Execution Nat :=
      { scheduler := { fibers := [{ work := .cb 1 }], autoStop := true, stopping := true } }
    let returning : Execution Nat :=
      { scheduler :=
          { fibers := [{ work := .fiber 0 }], fiberCb := fun _ => some 0, created := 1
            autoStop := true, stopping := true } }
    (yielding.Starts ∧ ¬yielding.RunsToEnd plan (fun _ => 1)) ∧
      returning.Starts ∧ ¬returning.RunsToEnd plan (fun _ => 1) := by
  intro plan yielding returning
  have yieldingStarts : yielding.Starts := by
    refine ⟨rfl, rfl, rfl, rfl, by simp [yielding], ?_, fun _ => rfl⟩
    rintro fiber ⟨entry, member, workIs⟩
    cases List.mem_singleton.mp member
    cases workIs
  have returningStarts : returning.Starts := by
    refine ⟨rfl, rfl, rfl, rfl, by simp [returning], ?_, fun _ => rfl⟩
    rintro fiber ⟨entry, member, workIs⟩
    cases List.mem_singleton.mp member
    cases workIs
    exact ⟨Nat.zero_lt_one, rfl⟩
  have never (execution : Execution Nat) (starts : execution.Starts)
      (rough : ¬execution.Smooth plan false) : ¬execution.RunsToEnd plan (fun _ => 1) := by
    rintro ⟨final, ends, -⟩
    exact rough (starts.atScan.smooth_of_ends ends)
  refine ⟨⟨yieldingStarts, never yielding yieldingStarts ?_⟩,
    returningStarts, never returning returningStarts ?_⟩
  · rintro (⟨empty, -⟩ | ⟨none, -⟩)
    · cases empty
    · exact absurd (none _ List.mem_cons_self) (by decide)
  · rintro (⟨empty, -⟩ | ⟨-, last, callback, lastIs, workIs⟩)
    · cases empty
    · cases lastIs
      cases workIs

end Execution

end Sylar.Scheduling
