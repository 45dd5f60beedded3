import Mathlib.Data.List.FinRange
import Mathlib.Tactic.Common
import Sylar.Foundation.Counting
import Sylar.Scheduling.Moves

/-! # Work in play

Work lies in the queue or in the hand of a worker. Each step of a worker moves it
from one to the other; weighing it by any measure tells what a step adds and what
it drops. Weighing single fibers gives that a fiber is in one place at most.
-/

namespace Sylar.Scheduling

open Foundation

variable {Callback Idle : Type} {size : Nat}

def Stage.hand : Stage Callback Idle → Option (Work Callback)
  | .tickling ft | .scanned ft => ft.map FiberAnThread.work
  | .running fiber .. | .returned fiber .. | .released fiber _ => some (.fiber fiber)
  | .scanning | .idling _ | .idled | .left => none

def Worker.handWeight (weight : Work Callback → Nat) (worker : Worker Callback Idle) : Nat :=
  worker.stage.hand.elim 0 weight

namespace Scheduler

variable {scheduler next : Scheduler Callback Idle size} {w : Fin size}
  {threadOf : Fin size → ThreadId} {enter : Idle}
  {weight : Work Callback → Nat}

/-! ## Weighing the work in play -/

def inPlay (weight : Work Callback → Nat) (scheduler : Scheduler Callback Idle size) : Nat :=
  total weight FiberAnThread.work scheduler.fibers +
    total (Worker.handWeight weight) scheduler.workers (List.finRange size)

theorem inPlay_eq_zero (weight : Work Callback → Nat) (empty : scheduler.fibers = [])
    (emptyHanded : ∀ w, (scheduler.workers w).stage.hand = none) :
    scheduler.inPlay weight = 0 := by
  rw [inPlay, Nat.add_eq_zero_iff, empty]
  refine ⟨rfl, total_eq_zero_iff.mpr fun w _ => ?_⟩
  rw [Worker.handWeight, emptyHanded w]
  rfl

theorem inPlay_moved {worker : Worker Callback Idle} {gained lost : Nat}
    (workersIs : next.workers = Function.update scheduler.workers w worker)
    (balance : total weight FiberAnThread.work next.fibers +
        worker.handWeight weight + lost =
      total weight FiberAnThread.work scheduler.fibers +
        (scheduler.workers w).handWeight weight + gained) :
    next.inPlay weight + lost = scheduler.inPlay weight + gained := by
  have exchanged : total (Worker.handWeight weight) next.workers (List.finRange size) +
        (scheduler.workers w).handWeight weight =
      total (Worker.handWeight weight) scheduler.workers (List.finRange size) +
        worker.handWeight weight := total_finRange_update workersIs
  rw [inPlay, inPlay]
  omega

theorem inPlay_kept {worker : Worker Callback Idle}
    (workersIs : next.workers = Function.update scheduler.workers w worker)
    (balance : total weight FiberAnThread.work next.fibers + worker.handWeight weight =
      total weight FiberAnThread.work scheduler.fibers +
        (scheduler.workers w).handWeight weight) :
    next.inPlay weight = scheduler.inPlay weight :=
  inPlay_moved workersIs (congrArg (· + 0) balance)

def brings (scheduler : Scheduler Callback Idle size) :
    Label Callback size → Option (Work Callback)
  | .schedule entry => some entry.work
  | .resume w =>
      match (scheduler.workers w).stage with
      | .scanned (some { work := .cb _, .. }) => some (.fiber scheduler.created)
      | _ => none
  | _ => none

def drops (scheduler : Scheduler Callback Idle size) :
    Label Callback size → Option (Work Callback)
  | .resume w =>
      match (scheduler.workers w).stage with
      | .scanned (some { work := .cb callback, .. }) => some (.cb callback)
      | .scanned (some { work := .fiber fiber, .. }) =>
          if scheduler.fiberState fiber ≠ .TERM ∧ scheduler.fiberState fiber ≠ .EXCET then
            none
          else some (.fiber fiber)
      | _ => none
  | .settle w =>
      match (scheduler.workers w).stage with
      | .released fiber _ =>
          if scheduler.fiberState fiber = .READY then none else some (.fiber fiber)
      | _ => none
  | _ => none

theorem scanQueue_inPlay (stageIs : (scheduler.workers w).stage = .scanning) :
    (scheduler.scanQueue threadOf w).inPlay weight = scheduler.inPlay weight := by
  rcases scanQueue_workers with ⟨worker, workersIs, stageAfter, -, -⟩
  apply inPlay_kept workersIs
  have handAfter : worker.stage.hand =
      (found threadOf scheduler w).taken.map FiberAnThread.work := by
    rcases stageAfter with stageAfter | stageAfter <;> rw [stageAfter] <;> rfl
  rw [scanQueue_fibers, Worker.handWeight, Worker.handWeight, handAfter, stageIs]
  cases taken : (found threadOf scheduler w).taken with
  | none =>
      rw [found] at taken ⊢
      rw [scan_none taken]
      rfl
  | some entry =>
      have kept : total weight FiberAnThread.work scheduler.fibers =
          total weight FiberAnThread.work
            (entry :: (found threadOf scheduler w).rest) :=
        total_perm (scan_perm taken)
      rw [kept]
      exact Nat.add_comm _ _

theorem nothingToRun_inPlay {ft : Option (FiberAnThread Callback)}
    (stageIs : (scheduler.workers w).stage = .scanned ft) :
    (scheduler.nothingToRun enter w).inPlay weight +
        (ft.map FiberAnThread.work).elim 0 weight =
      scheduler.inPlay weight := by
  have before : (scheduler.workers w).handWeight weight =
      (ft.map FiberAnThread.work).elim 0 weight := by
    rw [Worker.handWeight, stageIs, Stage.hand]
  rcases nothingToRun_frame enter scheduler w with ⟨worker, _, _, nextIs, stageAfter⟩
  have emptyHanded : worker.handWeight weight = 0 := by
    rw [Worker.handWeight]
    rcases stageAfter with stageAfter | stageAfter | stageAfter <;> rw [stageAfter] <;> rfl
  rw [← Nat.add_zero (scheduler.inPlay weight), nextIs]
  apply inPlay_moved rfl
  rw [before, emptyHanded]
  rfl

theorem resume_inPlay {ft : Option (FiberAnThread Callback)}
    (stageIs : (scheduler.workers w).stage = .scanned ft) :
    (scheduler.resume enter w ft).inPlay weight +
        (scheduler.drops (.resume w)).elim 0 weight =
      scheduler.inPlay weight + (scheduler.brings (.resume w)).elim 0 weight := by
  cases ft with
  | none =>
      simp only [resume, drops, brings, stageIs]
      exact nothingToRun_inPlay stageIs
  | some entry =>
      rcases entry with ⟨work, thread⟩
      cases work with
      | cb callback =>
          simp only [resume, drops, brings, stageIs]
          apply inPlay_moved rfl
          simp [Worker.handWeight, stageIs, Stage.hand, newFiber, setWorker, swapIn,
            setFiber, Nat.add_comm]
          omega
      | fiber fiber =>
          by_cases runnable :
              scheduler.fiberState fiber ≠ .TERM ∧ scheduler.fiberState fiber ≠ .EXCET
          · simp only [resume, drops, brings, stageIs, if_pos runnable]
            apply inPlay_moved rfl
            simp [Worker.handWeight, stageIs, Stage.hand, swapIn, setWorker, setFiber]
          · simp only [resume, drops, brings, stageIs, if_neg runnable]
            exact nothingToRun_inPlay stageIs

theorem swapOut_inPlay {fiber : FiberId} {thread : ThreadId} {fromCb : Bool}
    (how : SwapOut)
    (stageIs : (scheduler.workers w).stage = .running fiber thread fromCb) :
    (scheduler.swapOut w fiber thread fromCb how).inPlay weight =
      scheduler.inPlay weight := by
  apply inPlay_kept rfl
  rw [Worker.handWeight, Worker.handWeight, stageIs]
  rfl

theorem settle_inPlay {fiber : FiberId} {thread : ThreadId}
    (stageIs : (scheduler.workers w).stage = .released fiber thread) :
    (scheduler.settle w fiber thread).inPlay weight +
        (scheduler.drops (.settle w)).elim 0 weight =
      scheduler.inPlay weight := by
  have before : (scheduler.workers w).handWeight weight = weight (.fiber fiber) := by
    rw [Worker.handWeight, stageIs]
    rfl
  rw [← Nat.add_zero (scheduler.inPlay weight)]
  simp only [drops, stageIs]
  rw [settle]
  by_cases ready : scheduler.fiberState fiber = .READY
  · simp only [if_pos ready]
    apply inPlay_moved rfl
    rw [before]
    simp [schedulerNoLock, setWorker, Worker.handWeight, Stage.hand, total]
  · simp only [if_neg ready]
    split
    · apply inPlay_moved rfl
      rw [before]
      rfl
    · apply inPlay_moved rfl
      rw [before]
      rfl

theorem Steps.inPlay {label : Label Callback size}
    (steps : Steps threadOf enter scheduler label next) :
    next.inPlay weight + (scheduler.drops label).elim 0 weight =
      scheduler.inPlay weight + (scheduler.brings label).elim 0 weight := by
  cases steps with
  | schedule entry =>
      simp [schedulerNoLock, Scheduler.inPlay, drops, brings, total]
      omega
  | newFiber | autoStop | stopping => rfl
  | scan stageIs => exact scanQueue_inPlay stageIs
  | resume stageIs => exact resume_inPlay stageIs
  | settle stageIs => exact settle_inPlay stageIs
  | tickle stageIs =>
      apply inPlay_kept rfl
      rw [Worker.handWeight, Worker.handWeight, stageIs]
      rfl
  | swapOut how stageIs => exact swapOut_inPlay how stageIs
  | release stageIs =>
      apply inPlay_kept rfl
      rw [Worker.handWeight, Worker.handWeight, stageIs]
      rfl
  | leaveIdle ended stageIs =>
      apply inPlay_kept rfl
      rw [Worker.handWeight, Worker.handWeight, stageIs]
      rfl
  | afterIdle stageIs =>
      apply inPlay_kept rfl
      rw [Worker.handWeight, Worker.handWeight, stageIs]
      rfl

/-! ## One place for each fiber -/

def isFiber (fiber : FiberId) : Work Callback → Nat
  | .cb _ => 0
  | .fiber other => if other = fiber then 1 else 0

def owners (scheduler : Scheduler Callback Idle size) (fiber : FiberId) : Nat :=
  scheduler.inPlay (isFiber fiber)

structure Owned (scheduler : Scheduler Callback Idle size) : Prop where
  once : ∀ fiber, scheduler.owners fiber ≤ 1
  known : ∀ fiber, scheduler.created ≤ fiber → scheduler.owners fiber = 0

theorem inPlay_reweigh (scheduler : Scheduler Callback Idle size)
    {after : Work Callback → Nat} {fiber : FiberId}
    (same : ∀ work, work ≠ .fiber fiber → after work = weight work) :
    scheduler.inPlay after + scheduler.owners fiber * weight (.fiber fiber) =
      scheduler.inPlay weight + scheduler.owners fiber * after (.fiber fiber) := by
  have shift : ∀ work, after work + isFiber fiber work * weight (.fiber fiber) =
      weight work + isFiber fiber work * after (.fiber fiber) := by
    intro work
    by_cases here : work = .fiber fiber
    · subst here
      simp [isFiber, Nat.add_comm]
    · have none : isFiber fiber work = 0 := by
        cases work with
        | cb callback => rfl
        | fiber other => exact if_neg fun equal => here (congrArg Work.fiber equal)
      simp [same work here, none]
  have shiftHeld : ∀ worker : Worker Callback Idle,
      worker.handWeight after + worker.handWeight (isFiber fiber) * weight (.fiber fiber) =
        worker.handWeight weight +
          worker.handWeight (isFiber fiber) * after (.fiber fiber) := by
    intro worker
    simp only [Worker.handWeight]
    cases worker.stage.hand with
    | none => simp
    | some work => exact shift work
  have queued : total after FiberAnThread.work scheduler.fibers +
        total (isFiber fiber) FiberAnThread.work scheduler.fibers * weight (.fiber fiber) =
      total weight FiberAnThread.work scheduler.fibers +
        total (isFiber fiber) FiberAnThread.work scheduler.fibers *
          after (.fiber fiber) := total_reweigh shift
  have held : total (Worker.handWeight after) scheduler.workers (List.finRange size) +
        total (Worker.handWeight (isFiber fiber)) scheduler.workers (List.finRange size) *
          weight (.fiber fiber) =
      total (Worker.handWeight weight) scheduler.workers (List.finRange size) +
        total (Worker.handWeight (isFiber fiber)) scheduler.workers (List.finRange size) *
          after (.fiber fiber) := total_reweigh shiftHeld
  simp only [owners, inPlay, Nat.add_mul]
  omega

def Elsewhere (scheduler : Scheduler Callback Idle size) (w : Fin size)
    (fiber : FiberId) : Prop :=
  (∃ entry ∈ scheduler.fibers, entry.work = .fiber fiber) ∨
    ∃ v, v ≠ w ∧ (scheduler.workers v).stage.hand = some (.fiber fiber)

theorem handWeight_of_hand {worker : Worker Callback Idle} {fiber : FiberId}
    (holds : worker.stage.hand = some (.fiber fiber)) :
    worker.handWeight (isFiber fiber) = 1 := by
  rw [Worker.handWeight, holds]
  exact if_pos rfl

theorem weight_of_queued {entry : FiberAnThread Callback} {fiber : FiberId}
    (workIs : entry.work = .fiber fiber) : isFiber fiber entry.work = 1 := by
  rw [workIs]
  exact if_pos rfl

theorem owners_pos_of_queued {entry : FiberAnThread Callback} {fiber : FiberId}
    (queued : entry ∈ scheduler.fibers) (workIs : entry.work = .fiber fiber) :
    0 < scheduler.owners fiber := by
  have counted : isFiber fiber entry.work ≤
      total (isFiber fiber) FiberAnThread.work scheduler.fibers := le_total queued
  rw [weight_of_queued workIs] at counted
  rw [owners, inPlay]
  omega

theorem owners_pos {fiber : FiberId}
    (holds : (scheduler.workers w).stage.hand = some (.fiber fiber)) :
    0 < scheduler.owners fiber := by
  have counted : (scheduler.workers w).handWeight (isFiber fiber) ≤
      total (Worker.handWeight (isFiber fiber)) scheduler.workers (List.finRange size) :=
    le_total (List.mem_finRange w)
  rw [handWeight_of_hand holds] at counted
  rw [owners, inPlay]
  omega

theorem Elsewhere.owners_pos {fiber : FiberId} (elsewhere : scheduler.Elsewhere w fiber) :
    0 < scheduler.owners fiber := by
  rcases elsewhere with ⟨entry, queued, workIs⟩ | ⟨v, -, holds⟩
  · exact owners_pos_of_queued queued workIs
  · exact Scheduler.owners_pos holds

theorem Owned.nowhere (owned : scheduler.Owned) (w : Fin size) {fiber : FiberId}
    (unknown : scheduler.created ≤ fiber) : ¬scheduler.Elsewhere w fiber := by
  intro elsewhere
  have counted := elsewhere.owners_pos
  have none := owned.known fiber unknown
  omega

theorem only_here {fiber : FiberId} (single : scheduler.owners fiber ≤ 1)
    (holds : (scheduler.workers w).stage.hand = some (.fiber fiber)) :
    ¬scheduler.Elsewhere w fiber := by
  rw [owners, inPlay] at single
  have here := handWeight_of_hand holds
  intro given
  rcases given with ⟨entry, queued, workIs⟩ | ⟨v, other, otherHolds⟩
  · have counted : isFiber fiber entry.work ≤
        total (isFiber fiber) FiberAnThread.work scheduler.fibers := le_total queued
    have held : (scheduler.workers w).handWeight (isFiber fiber) ≤
        total (Worker.handWeight (isFiber fiber)) scheduler.workers (List.finRange size) :=
      le_total (List.mem_finRange w)
    rw [weight_of_queued workIs] at counted
    omega
  · have both : (scheduler.workers v).handWeight (isFiber fiber) +
        (scheduler.workers w).handWeight (isFiber fiber) ≤
        total (Worker.handWeight (isFiber fiber)) scheduler.workers (List.finRange size) :=
      add_le_total other (List.mem_finRange v) (List.mem_finRange w)
    rw [handWeight_of_hand otherHolds] at both
    omega

theorem Owned.only_here (owned : scheduler.Owned) {fiber : FiberId}
    (holds : (scheduler.workers w).stage.hand = some (.fiber fiber)) :
    ¬scheduler.Elsewhere w fiber :=
  Scheduler.only_here (owned.once fiber) holds

theorem Owned.ne_of_elsewhere (owned : scheduler.Owned) {fiber other : FiberId}
    (holds : (scheduler.workers w).stage.hand = some (.fiber fiber))
    (elsewhere : scheduler.Elsewhere w other) : other ≠ fiber := by
  intro same
  subst same
  exact owned.only_here holds elsewhere

theorem Steps.brings_cases {label : Label Callback size}
    (steps : Steps threadOf enter scheduler label next) :
    scheduler.created ≤ next.created ∧
      ∀ fiber, scheduler.brings label = some (.fiber fiber) →
        (∃ entry, label = .schedule entry) ∨
          (fiber = scheduler.created ∧ next.created = scheduler.created + 1) := by
  cases steps with
  | schedule entry => exact ⟨Nat.le_refl _, fun _ _ => Or.inl ⟨entry, rfl⟩⟩
  | newFiber => exact ⟨Nat.le_succ _, nofun⟩
  | scan =>
      rw [scanQueue_created]
      exact ⟨Nat.le_refl _, nofun⟩
  | @settle w fiber thread =>
      refine ⟨?_, nofun⟩
      rcases settle_frame scheduler w fiber thread with ⟨_, _, nextIs⟩
      rw [nextIs]
      exact Nat.le_refl _
  | autoStop | stopping | tickle | swapOut | release | leaveIdle | afterIdle =>
      exact ⟨Nat.le_refl _, nofun⟩
  | @resume w ft stageIs =>
      rcases resume_kept enter scheduler w ft with ⟨-, -, -, grows⟩
      refine ⟨grows, ?_⟩
      simp only [brings, stageIs]
      rcases ft with _ | ⟨callback | fiber, thread⟩
      · exact nofun
      · rintro _ ⟨⟩
        exact Or.inr ⟨rfl, rfl⟩
      · exact nofun

def Known (scheduler : Scheduler Callback Idle size) : Prop :=
  ∀ fiber, scheduler.created ≤ fiber → scheduler.owners fiber = 0

theorem Known.lt_created (known : scheduler.Known) {fiber : FiberId}
    (holds : (scheduler.workers w).stage.hand = some (.fiber fiber)) :
    fiber < scheduler.created := by
  by_contra notBelow
  have none := known fiber (Nat.le_of_not_lt notBelow)
  have some := owners_pos holds
  omega

theorem Steps.owners {label : Label Callback size}
    (steps : Steps threadOf enter scheduler label next) (fiber : FiberId) :
    next.owners fiber + (scheduler.drops label).elim 0 (isFiber fiber) =
      scheduler.owners fiber + (scheduler.brings label).elim 0 (isFiber fiber) :=
  steps.inPlay

theorem Steps.not_brought {label : Label Callback size}
    (steps : Steps threadOf enter scheduler label next) {fiber : FiberId}
    (notHandedIn : ∀ entry, label = .schedule entry → entry.work ≠ .fiber fiber)
    (notMade : fiber = scheduler.created → next.created ≠ scheduler.created + 1) :
    (scheduler.brings label).elim 0 (isFiber fiber) = 0 := by
  cases bringsIs : scheduler.brings label with
  | none => rfl
  | some work =>
      cases work with
      | cb callback => rfl
      | fiber other =>
          refine if_neg ?_
          intro same
          subst same
          rcases steps.brings_cases.2 other bringsIs with ⟨entry, rfl⟩ | ⟨made, more⟩
          · exact notHandedIn entry rfl (Option.some.inj bringsIs)
          · exact notMade made more

theorem Steps.known {label : Label Callback size}
    (steps : Steps threadOf enter scheduler label next)
    (existing : ∀ entry fiber, label = .schedule entry → entry.work = .fiber fiber →
      fiber < scheduler.created)
    (known : scheduler.Known) : next.Known := by
  have grows := steps.brings_cases.1
  intro fiber unknown
  have before := known fiber (grows.trans unknown)
  have after := steps.owners fiber
  have nothing : (scheduler.brings label).elim 0 (isFiber fiber) = 0 := by
    refine steps.not_brought ?_ ?_
    · intro entry isSchedule workIs
      exact Nat.not_lt.mpr (grows.trans unknown) (existing entry fiber isSchedule workIs)
    · intro made more
      rw [more, made] at unknown
      exact Nat.not_succ_le_self _ unknown
  omega

theorem Steps.owned {label : Label Callback size}
    (steps : Steps threadOf enter scheduler label next)
    (callbacksOnly : ∀ entry, label = .schedule entry → ∃ callback, entry.work = .cb callback)
    (owned : scheduler.Owned) : next.Owned := by
  constructor
  · intro fiber
    have before := owned.once fiber
    have after := steps.owners fiber
    cases bringsIs : scheduler.brings label with
    | none =>
        rw [bringsIs, Option.elim_none] at after
        omega
    | some work =>
        rw [bringsIs, Option.elim_some] at after
        cases work with
        | cb callback =>
            simp only [isFiber] at after
            omega
        | fiber other =>
            rcases steps.brings_cases.2 other bringsIs with ⟨entry, rfl⟩ | ⟨made, -⟩
            · rcases callbacksOnly entry rfl with ⟨callback, workIs⟩
              simp only [brings, workIs] at bringsIs
              cases bringsIs
            · have none := owned.known other (Nat.le_of_eq made.symm)
              by_cases same : other = fiber
              · subst same
                simp only [isFiber, if_pos] at after
                omega
              · simp only [isFiber, if_neg same] at after
                omega
  · refine steps.known ?_ owned.known
    intro entry fiber isSchedule workIs
    rcases callbacksOnly entry isSchedule with ⟨callback, isCb⟩
    rw [isCb] at workIs
    cases workIs

end Scheduler

end Sylar.Scheduling
