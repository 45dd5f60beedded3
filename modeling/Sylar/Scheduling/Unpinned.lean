import Mathlib.Tactic.Common
import Sylar.Scheduling.Custody
import Sylar.Scheduling.Program

/-! # A queue that every worker can empty

With unpinned callbacks that do not yield to `HOLD` every entry of the queue can
be taken by every worker. A worker leaves its loop only after it has found the
queue empty, and whoever refills the queue comes back to it.
-/

namespace Sylar.Scheduling

open Foundation

variable {Callback Idle : Type}

/-! ## Entries any worker can take -/

def FiberAnThread.Fresh (fiberState : FiberId → FiberState)
    (entry : FiberAnThread Callback) : Prop :=
  entry.thread = -1 ∧ ∀ fiber, entry.work = .fiber fiber → fiberState fiber = .READY

def Stage.Fresh (fiberState : FiberId → FiberState) : Stage Callback Idle → Prop
  | .tickling (some entry) | .scanned (some entry) => entry.Fresh fiberState
  | .running fiber thread _ => thread = -1 ∧ fiberState fiber = .EXEC
  | .returned fiber thread _ | .released fiber thread =>
      thread = -1 ∧ (fiberState fiber = .READY ∨ fiberState fiber = .TERM ∨
        fiberState fiber = .EXCET)
  | .tickling none | .scanned none | .scanning | .idling _ | .idled | .left => True

theorem FiberAnThread.Fresh.congr {before after : FiberId → FiberState}
    {entry : FiberAnThread Callback} (fresh : entry.Fresh before)
    (same : ∀ fiber, entry.work = .fiber fiber → after fiber = before fiber) :
    entry.Fresh after :=
  ⟨fresh.1, fun fiber workIs => (same fiber workIs).trans (fresh.2 fiber workIs)⟩

theorem Stage.Fresh.congr {before after : FiberId → FiberState}
    {stage : Stage Callback Idle} (fresh : stage.Fresh before)
    (same : ∀ fiber, stage.hand = some (.fiber fiber) → after fiber = before fiber) :
    stage.Fresh after := by
  cases stage with
  | scanning | idling | idled | left => trivial
  | tickling ft | scanned ft =>
      cases ft with
      | none => trivial
      | some entry =>
          exact FiberAnThread.Fresh.congr fresh fun fiber workIs =>
            same fiber (congrArg some workIs)
  | running fiber | returned fiber | released fiber =>
      have unchanged := same fiber rfl
      simp only [Stage.Fresh] at fresh ⊢
      rw [unchanged]
      exact fresh

def Worker.past (worker : Worker Callback Idle) : Prop :=
  worker.isActivate = false ∧ worker.idleFiber = .TERM ∧
    (worker.stage = .tickling none ∨ worker.stage = .scanned none ∨ worker.stage = .left)

namespace Scheduler

section

variable {size : Nat} {scheduler next : Scheduler Callback Idle size}
  {w : Fin size}

def Fresh (scheduler : Scheduler Callback Idle size) : Prop :=
  (∀ entry ∈ scheduler.fibers, entry.Fresh scheduler.fiberState) ∧
    ∀ w, (scheduler.workers w).stage.Fresh scheduler.fiberState

theorem Fresh.at_stage {stage : Stage Callback Idle} (fresh : scheduler.Fresh)
    (stageIs : (scheduler.workers w).stage = stage) : stage.Fresh scheduler.fiberState := by
  rw [← stageIs]
  exact fresh.2 w

theorem Fresh.ready_of_scanned {fiber : FiberId} {thread : ThreadId}
    (fresh : scheduler.Fresh)
    (stageIs : (scheduler.workers w).stage = .scanned (some ⟨.fiber fiber, thread⟩)) :
    scheduler.fiberState fiber = .READY :=
  (fresh.at_stage stageIs).2 fiber rfl

theorem Fresh.resume_fiber {enter : Idle} {fiber : FiberId} {thread : ThreadId}
    (fresh : scheduler.Fresh)
    (stageIs : (scheduler.workers w).stage = .scanned (some ⟨.fiber fiber, thread⟩)) :
    scheduler.resume enter w (some ⟨.fiber fiber, thread⟩) =
      scheduler.swapIn w fiber thread false :=
  if_pos (by simp [fresh.ready_of_scanned stageIs])

theorem Fresh.moved {worker : Worker Callback Idle} (fresh : scheduler.Fresh)
    (workersIs : next.workers = Function.update scheduler.workers w worker)
    (same : ∀ fiber, scheduler.Elsewhere w fiber →
      next.fiberState fiber = scheduler.fiberState fiber)
    (queue : ∀ entry ∈ next.fibers,
      entry ∈ scheduler.fibers ∨ entry.Fresh next.fiberState)
    (stage : worker.stage.Fresh next.fiberState) : next.Fresh := by
  constructor
  · intro entry member
    rcases queue entry member with old | new
    · exact (fresh.1 entry old).congr fun fiber workIs =>
        same fiber (Or.inl ⟨entry, old, workIs⟩)
    · exact new
  · rw [workersIs]
    refine (Function.forall_update_iff _ fun _ (worker : Worker Callback Idle) =>
      worker.stage.Fresh next.fiberState).mpr ⟨stage, fun v other => ?_⟩
    exact (fresh.2 v).congr fun fiber holds => same fiber (Or.inr ⟨v, other, holds⟩)

theorem found_none {threadOf : Fin size → ThreadId} (fresh : scheduler.Fresh)
    (nothing : (found threadOf scheduler w).taken = none) : scheduler.fibers = [] := by
  apply List.eq_nil_iff_forall_not_mem.mpr
  intro entry member
  rcases fresh.1 entry member with ⟨unpinned, ready⟩
  rcases scan_none_iff.mp nothing entry member with ⟨pinned, -⟩ | executing
  · exact pinned unpinned
  · rw [FiberAnThread.executing] at executing
    cases workIs : entry.work with
    | cb callback => simp [workIs] at executing
    | fiber fiber => simp [workIs, ready fiber workIs] at executing

end

variable {config : Config} {scheduler next : Scheduler Callback Unit config.poolSize}
  {threadOf : Fin config.poolSize → ThreadId}
  {label : Label Callback config.poolSize}

theorem Fresh.scan (threadOf : Fin config.poolSize → ThreadId) (fresh : scheduler.Fresh)
    (w : Fin config.poolSize) : (scheduler.scanQueue threadOf w).Fresh := by
  rcases scanQueue_workers with ⟨worker, workersIs, stageAfter, -, -⟩
  have taken : ∀ entry, (found threadOf scheduler w).taken = some entry →
      entry.Fresh scheduler.fiberState := fun entry takenIs =>
    fresh.1 entry ((scan_perm takenIs).mem_iff.mpr List.mem_cons_self)
  apply fresh.moved workersIs (fun _ _ => by rw [scanQueue_fiberState])
  · intro entry member
    rw [scanQueue_fibers] at member
    exact Or.inl (mem_of_found member)
  · rw [scanQueue_fiberState]
    cases takenIs : (found threadOf scheduler w).taken with
    | none =>
        rw [takenIs] at stageAfter
        rcases stageAfter with stageAfter | stageAfter <;> rw [stageAfter] <;> trivial
    | some entry =>
        rw [takenIs] at stageAfter
        rcases stageAfter with stageAfter | stageAfter <;> rw [stageAfter] <;>
          exact taken entry takenIs

theorem Fresh.resume {w : Fin config.poolSize} {ft : Option (FiberAnThread Callback)}
    (fresh : scheduler.Fresh) (owned : scheduler.Owned)
    (stageIs : (scheduler.workers w).stage = .scanned ft) :
    (scheduler.resume () w ft).Fresh := by
  have before := fresh.at_stage stageIs
  rcases ft with _ | ⟨callback | fiber, thread⟩
  · rcases nothingToRun_frame () scheduler w with ⟨worker, _, _, nextIs, stageAfter⟩
    rw [Scheduler.resume, nextIs]
    refine fresh.moved rfl (fun _ _ => rfl) (fun _ => Or.inl) ?_
    rcases stageAfter with stageAfter | stageAfter | stageAfter <;> rw [stageAfter] <;>
      trivial
  · refine fresh.moved rfl ?_ (fun _ => Or.inl) ⟨before.1, Function.update_self ..⟩
    intro fiber elsewhere
    have different : fiber ≠ scheduler.created := by
      intro same
      subst same
      exact owned.nowhere w (Nat.le_refl _) elsewhere
    simp [Scheduler.resume, newFiber, swapIn, setFiber, setWorker, different]
  · have holds : (scheduler.workers w).stage.hand = some (.fiber fiber) := by
      rw [stageIs]
      rfl
    rw [fresh.resume_fiber stageIs]
    refine fresh.moved rfl ?_ (fun _ => Or.inl) ⟨before.1, Function.update_self ..⟩
    intro other elsewhere
    exact Function.update_of_ne (owned.ne_of_elsewhere holds elsewhere) ..

theorem Fresh.swapOut {w : Fin config.poolSize} {fiber : FiberId} {thread : ThreadId}
    {fromCb : Bool} {how : SwapOut} (fresh : scheduler.Fresh) (owned : scheduler.Owned)
    (notHold : how ≠ .hold)
    (stageIs : (scheduler.workers w).stage = .running fiber thread fromCb) :
    (scheduler.swapOut w fiber thread fromCb how).Fresh := by
  have before := fresh.at_stage stageIs
  have holds : (scheduler.workers w).stage.hand = some (.fiber fiber) := by
    rw [stageIs]
    rfl
  refine fresh.moved rfl ?_ (fun _ => Or.inl) ⟨before.1, ?_⟩
  · intro other elsewhere
    exact Function.update_of_ne (owned.ne_of_elsewhere holds elsewhere) ..
  · simp only [Scheduler.swapOut, setWorker, setFiber, Function.update_self]
    cases how with
    | finished => exact Or.inr (Or.inl rfl)
    | threw => exact Or.inr (Or.inr rfl)
    | ready => exact Or.inl rfl
    | hold => exact absurd rfl notHold

theorem Fresh.settle {w : Fin config.poolSize} {fiber : FiberId} {thread : ThreadId}
    (fresh : scheduler.Fresh)
    (stageIs : (scheduler.workers w).stage = .released fiber thread) :
    (scheduler.settle w fiber thread).Fresh := by
  have before := fresh.at_stage stageIs
  simp only [Scheduler.settle]
  split
  · rename_i ready
    refine fresh.moved rfl (fun _ _ => rfl) ?_ trivial
    intro entry member
    rcases List.mem_append.mp member with old | new
    · exact Or.inl old
    · rw [List.mem_singleton.mp new]
      refine Or.inr ⟨before.1, ?_⟩
      rintro _ ⟨⟩
      exact ready
  · rename_i notReady
    have finished := before.2.resolve_left notReady
    rw [if_neg (by rcases finished with finished | finished <;> simp [finished])]
    exact fresh.moved rfl (fun _ _ => rfl) (fun _ => Or.inl) trivial

theorem Steps.fresh (steps : Steps threadOf () scheduler label next)
    (allowed : Program.Allowed scheduler label = true) (owned : scheduler.Owned)
    (fresh : scheduler.Fresh) : next.Fresh := by
  cases steps with
  | schedule | newFiber | autoStop | stopping => cases allowed
  | scan => exact fresh.scan threadOf _
  | @tickle w ft stageIs =>
      have before := fresh.at_stage stageIs
      refine fresh.moved rfl (fun _ _ => rfl) (fun _ => Or.inl) ?_
      cases ft <;> exact before
  | resume stageIs => exact fresh.resume owned stageIs
  | swapOut how stageIs =>
      refine fresh.swapOut owned ?_ stageIs
      intro same
      subst same
      cases allowed
  | release stageIs =>
      have before := fresh.at_stage stageIs
      exact fresh.moved rfl (fun _ _ => rfl) (fun _ => Or.inl) before
  | settle stageIs => exact fresh.settle stageIs
  | leaveIdle | afterIdle =>
      exact fresh.moved rfl (fun _ _ => rfl) (fun _ => Or.inl) trivial

/-! ## Someone comes back to the queue -/

section

variable {size : Nat} {scheduler next : Scheduler Callback Idle size}
  {w : Fin size} {worker : Worker Callback Idle}

def Attended (scheduler : Scheduler Callback Idle size) : Prop :=
  scheduler.fibers = [] ∨ ∃ w, ¬(scheduler.workers w).past

theorem attended_of_back
    (workersIs : next.workers = Function.update scheduler.workers w worker)
    (back : ¬worker.past) : next.Attended := by
  refine Or.inr ⟨w, ?_⟩
  rw [workersIs, Function.update_self]
  exact back

theorem Attended.moved (attended : scheduler.Attended)
    (workersIs : next.workers = Function.update scheduler.workers w worker)
    (queueIs : next.fibers = scheduler.fibers)
    (stays : worker.past → (scheduler.workers w).past) : next.Attended := by
  rcases attended with empty | ⟨v, back⟩
  · exact Or.inl (queueIs.trans empty)
  · refine Or.inr ⟨v, ?_⟩
    rw [workersIs]
    by_cases here : v = w
    · subst here
      rw [Function.update_self]
      exact fun past => back (stays past)
    · rw [Function.update_of_ne here]
      exact back

end

theorem Steps.attended (steps : Steps threadOf () scheduler label next)
    (allowed : Program.Allowed scheduler label = true) (fresh : scheduler.Fresh)
    (attended : scheduler.Attended) : next.Attended := by
  cases steps with
  | schedule | newFiber | autoStop | stopping => cases allowed
  | @scan w stageIs =>
      cases takenIs : (found threadOf scheduler w).taken with
      | none =>
          apply Or.inl
          rw [scanQueue_fibers, found, scan_none takenIs]
          exact found_none fresh takenIs
      | some entry =>
          rcases scanQueue_workers with ⟨worker, workersIs, stageAfter, -, -⟩
          apply attended_of_back workersIs
          rw [takenIs] at stageAfter
          intro given
          rcases given with ⟨-, -, atEnd⟩
          rcases stageAfter with stageAfter | stageAfter <;> simp [stageAfter] at atEnd
  | @tickle w ft stageIs =>
      refine attended.moved rfl rfl ?_
      intro given
      rcases given with ⟨inactive, ended, atEnd⟩
      cases ft with
      | none => exact ⟨inactive, ended, Or.inl stageIs⟩
      | some entry => simp at atEnd
  | @resume w ft stageIs =>
      rcases ft with _ | ⟨callback | fiber, thread⟩
      · simp only [Scheduler.resume, nothingToRun]
        split
        · exact attended_of_back rfl (by simp [Worker.past])
        · rename_i inactive
          split
          · rename_i ended
            exact attended.moved rfl rfl fun _ =>
              ⟨by simpa using inactive, ended, Or.inr (Or.inl stageIs)⟩
          · exact attended_of_back rfl (by simp [Worker.past])
      · exact attended_of_back rfl (by simp [Worker.past])
      · rw [fresh.resume_fiber stageIs]
        exact attended_of_back rfl (by simp [Worker.past])
  | @settle w fiber thread =>
      rcases settle_frame scheduler w fiber thread with ⟨_, _, nextIs⟩
      rw [nextIs]
      exact attended_of_back rfl (by simp [Worker.past])
  | swapOut | release | leaveIdle | afterIdle =>
      exact attended_of_back rfl (by simp [Worker.past])

end Scheduler

end Sylar.Scheduling
