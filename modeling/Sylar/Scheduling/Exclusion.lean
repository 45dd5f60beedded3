import Mathlib.Tactic.Common
import Sylar.Scheduling.Custody

/-! # One worker at a time in a fiber

The run loop with the way out of a fiber cut in two: the fiber writes its new state
first, and the switch saves its context after that. In between the scan of another
worker may already take the fiber, if it is in the queue a second time.
-/

namespace Sylar.Scheduling

open Foundation

variable {Callback Idle : Type} {size : Nat}

/-! ## Getting into a fiber -/

def Stage.inside : Stage Callback Idle → Option FiberId
  | .running fiber .. => some fiber
  | .scanning | .tickling _ | .scanned _ | .returned .. | .released .. | .idling _
  | .idled | .left => none

def Stage.claimed : Stage Callback Idle → Option FiberId
  | .tickling ft | .scanned ft => ft.bind FiberAnThread.fiber
  | .running fiber .. => some fiber
  | .scanning | .returned .. | .released .. | .idling _ | .idled | .left => none

theorem Stage.claimed_of_inside {stage : Stage Callback Idle} {fiber : FiberId}
    (isInside : stage.inside = some fiber) : stage.claimed = some fiber := by
  cases stage with
  | running => exact isInside
  | scanning | tickling | scanned | returned | released | idling | idled | left =>
      cases isInside

theorem Stage.hand_of_claimed {stage : Stage Callback Idle} {fiber : FiberId}
    (claims : stage.claimed = some fiber) : stage.hand = some (.fiber fiber) := by
  cases stage with
  | tickling ft | scanned ft =>
      rcases Option.bind_eq_some_iff.mp claims with ⟨entry, rfl, isFiber⟩
      exact congrArg some (FiberAnThread.fiber_eq_some.mp isFiber)
  | running =>
      cases claims
      rfl
  | scanning | returned | released | idling | idled | left => cases claims

namespace Scheduler

variable {scheduler next : Scheduler Callback Idle size} {w : Fin size}
  {threadOf : Fin size → ThreadId} {enter : Idle}

theorem Known.claimed (known : scheduler.Known) {fiber : FiberId}
    (claims : (scheduler.workers w).stage.claimed = some fiber) :
    fiber < scheduler.created :=
  known.lt_created (Stage.hand_of_claimed claims)

theorem Steps.live {label : Label Callback size}
    (steps : Steps threadOf enter scheduler label next)
    (notLeft : ∀ w how, label ≠ .swapOut w how) {fiber : FiberId}
    (existing : fiber < scheduler.created) : next.Live fiber ↔ scheduler.Live fiber := by
  rcases steps.live_cases notLeft with ⟨-, same⟩ | ⟨-, -, same⟩
  · exact same fiber
  · exact same fiber (Nat.ne_of_lt existing)

theorem Transition.claimed {label : Label Callback size} {fiber : FiberId}
    {before after : Stage Callback Idle}
    (moves : Transition threadOf enter scheduler next w label before after)
    (claims : after.claimed = some fiber) :
    before.claimed = some fiber ∨
      (label = .scan w ∧ ∃ entry, entry.fiber = some fiber ∧
        scheduler.fibers.find? (free scheduler.fiberState (threadOf w)) = some entry) ∨
      (label = .resume w ∧ fiber = scheduler.created) := by
  cases moves with
  | @scan ft after takes stageAfter =>
      have isFiber : ft.bind FiberAnThread.fiber = some fiber := by
        rcases stageAfter with rfl | rfl
        · exact claims
        · exact claims
      rcases Option.bind_eq_some_iff.mp isFiber with ⟨entry, ftIs, entryIs⟩
      exact Or.inr (Or.inl ⟨rfl, entry, entryIs, takes.trans ftIs⟩)
  | tickle | swapIn => exact Or.inl claims
  | start =>
      cases claims
      exact Or.inr (Or.inr ⟨rfl, rfl⟩)
  | nothing ft stageAfter => rcases stageAfter with rfl | rfl | rfl <;> cases claims
  | swapOut | release | settle | leaveIdle | afterIdle => cases claims

theorem Steps.claimed {label : Label Callback size}
    (steps : Steps threadOf enter scheduler label next) {v : Fin size} {fiber : FiberId}
    (claims : (next.workers v).stage.claimed = some fiber) :
    (scheduler.workers v).stage.claimed = some fiber ∨
      (label = .scan v ∧ ∃ entry, entry.fiber = some fiber ∧
        scheduler.fibers.find? (free scheduler.fiberState (threadOf v)) = some entry) ∨
      (label = .resume v ∧ fiber = scheduler.created) := by
  rcases steps.stage v with ⟨-, same⟩ | moves
  · rw [same] at claims
    exact Or.inl claims
  · exact moves.claimed claims

theorem Transition.inside {label : Label Callback size} {fiber : FiberId}
    {before after : Stage Callback Idle}
    (moves : Transition threadOf enter scheduler next w label before after)
    (isInside : after.inside = some fiber) :
    label = .resume w ∧ next.Live fiber ∧
      (before.claimed = some fiber ∧ scheduler.Live fiber ∨
        fiber = scheduler.created) := by
  cases moves with
  | start callback thread executes =>
      cases isInside
      exact ⟨rfl, by simp [Live, executes], Or.inr rfl⟩
  | swapIn thread live executes =>
      cases isInside
      exact ⟨rfl, by simp [Live, executes], Or.inl ⟨rfl, live⟩⟩
  | scan takes stageAfter => rcases stageAfter with rfl | rfl <;> cases isInside
  | nothing ft stageAfter => rcases stageAfter with rfl | rfl | rfl <;> cases isInside
  | tickle | swapOut | release | settle | leaveIdle | afterIdle => cases isInside

theorem Steps.inside {label : Label Callback size}
    (steps : Steps threadOf enter scheduler label next) {v : Fin size} {fiber : FiberId}
    (isInside : (next.workers v).stage.inside = some fiber) :
    (scheduler.workers v).stage.inside = some fiber ∨
      (label = .resume v ∧ next.Live fiber ∧
        ((scheduler.workers v).stage.claimed = some fiber ∧ scheduler.Live fiber ∨
          fiber = scheduler.created)) := by
  rcases steps.stage v with ⟨-, same⟩ | moves
  · rw [same] at isInside
    exact Or.inl isInside
  · exact Or.inr (moves.inside isInside)

end Scheduler

/-! ## Leaving a fiber -/

/-- `YieldToReady` and `YieldToHold` assert that the fiber is executing. -/
def SwapOut.asserts : SwapOut → Bool
  | .ready | .hold => true
  | .finished | .threw => false

structure Switching (Callback Idle : Type) (size : Nat) where
  scheduler : Scheduler Callback Idle size := {}
  /-- The worker's fiber has written its state and not switched back yet. -/
  leaving : Fin size → Bool := fun _ => false

namespace Switching

/-- The state a fiber writes on its way out; `YieldToHold` writes none. -/
def leave (state : Switching Callback Idle size) (w : Fin size) (fiber : FiberId)
    (how : SwapOut) : Switching Callback Idle size where
  scheduler :=
    if how = .hold then state.scheduler else state.scheduler.setFiber fiber how.state
  leaving := Function.update state.leaving w true

/-- The switch of `swapOut`, after which the worker reads the fiber's state. -/
def switch (state : Switching Callback Idle size) (w : Fin size) (fiber : FiberId)
    (thread : ThreadId) (fromCb : Bool) : Switching Callback Idle size where
  scheduler := state.scheduler.setWorker w
    { state.scheduler.workers w with stage := .returned fiber thread fromCb }
  leaving := Function.update state.leaving w false

inductive Label (Callback : Type) (size : Nat)
  | loop (label : Scheduler.Label Callback size)
  | leave (w : Fin size) (how : SwapOut)
  | switch (w : Fin size)

def Allowed (state : Switching Callback Idle size) : Scheduler.Label Callback size → Bool
  | .schedule entry => entry.fiber.all (· < state.scheduler.created)
  | .swapOut .. => false
  | .newFiber _ | .autoStop | .stopping | .scan _ | .tickle _ | .resume _ | .release _
  | .settle _ | .leaveIdle .. | .afterIdle _ => true

def step (threadOf : Fin size → ThreadId) (enter : Idle)
    (state : Switching Callback Idle size) :
    Label Callback size → Option (Switching Callback Idle size)
  | .loop label =>
      if state.Allowed label then
        (state.scheduler.step threadOf enter label).map fun next =>
          { state with scheduler := next }
      else none
  | .leave w how =>
      match (state.scheduler.workers w).stage with
      | .running fiber _ _ =>
          if state.leaving w = false ∧
              (how.asserts = true → state.scheduler.fiberState fiber = .EXEC) then
            some (state.leave w fiber how)
          else none
      | _ => none
  | .switch w =>
      match (state.scheduler.workers w).stage with
      | .running fiber thread fromCb =>
          if state.leaving w = true then some (state.switch w fiber thread fromCb)
          else none
      | _ => none

inductive Steps (threadOf : Fin size → ThreadId) (enter : Idle)
    (state : Switching Callback Idle size) :
    Label Callback size → Switching Callback Idle size → Prop
  | loop {label : Scheduler.Label Callback size} {next : Scheduler Callback Idle size}
      (allowed : state.Allowed label = true)
      (steps : Scheduler.Steps threadOf enter state.scheduler label next) :
      Steps threadOf enter state (.loop label) { state with scheduler := next }
  | leave {w : Fin size} {fiber : FiberId} {thread : ThreadId} {fromCb : Bool}
      (how : SwapOut)
      (stageIs : (state.scheduler.workers w).stage = .running fiber thread fromCb)
      (staying : state.leaving w = false) :
      Steps threadOf enter state (.leave w how) (state.leave w fiber how)
  | switch {w : Fin size} {fiber : FiberId} {thread : ThreadId} {fromCb : Bool}
      (stageIs : (state.scheduler.workers w).stage = .running fiber thread fromCb) :
      Steps threadOf enter state (.switch w) (state.switch w fiber thread fromCb)

variable {threadOf : Fin size → ThreadId} {enter : Idle}
  {state next : Switching Callback Idle size} {label : Label Callback size}

theorem step_eq_some (stepped : step threadOf enter state label = some next) :
    Steps threadOf enter state label next := by
  cases label with
  | loop label =>
      rcases Option.ite_none_right_eq_some.mp stepped with ⟨allowed, moved⟩
      rcases Option.map_eq_some_iff.mp moved with ⟨scheduler, inner, rfl⟩
      exact .loop allowed (Scheduler.step_eq_some inner)
  | leave w how =>
      cases stageIs : (state.scheduler.workers w).stage <;>
        simp only [step, stageIs] at stepped <;> try cases stepped
      rcases Option.ite_none_right_eq_some.mp stepped with
        ⟨⟨staying, -⟩, ⟨⟩⟩
      exact .leave how stageIs staying
  | switch w =>
      cases stageIs : (state.scheduler.workers w).stage <;>
        simp only [step, stageIs] at stepped <;> try cases stepped
      rcases Option.ite_none_right_eq_some.mp stepped with ⟨-, ⟨⟩⟩
      exact .switch stageIs

def machine (threadOf : Fin size → ThreadId) (enter : Idle) :
    Machine (Switching Callback Idle size) (Label Callback size) where
  step := step threadOf enter

theorem run_leave_switch {w : Fin size} {fiber : FiberId} {thread : ThreadId}
    {fromCb : Bool} (how : SwapOut)
    (stageIs : (state.scheduler.workers w).stage = .running fiber thread fromCb)
    (staying : state.leaving w = false)
    (executing : state.scheduler.fiberState fiber = .EXEC) :
    (machine threadOf enter).run state [.leave w how, .switch w] =
      some { state with
        scheduler := state.scheduler.swapOut w fiber thread fromCb how } := by
  have written : (state.leave w fiber how).scheduler =
      state.scheduler.setFiber fiber how.state := by
    by_cases isHold : how = .hold
    · subst isHold
      have same : Function.update state.scheduler.fiberState fiber .EXEC =
          state.scheduler.fiberState := by
        rw [← executing, Function.update_eq_self]
      simp only [leave, if_pos, SwapOut.state, Scheduler.setFiber, same]
    · simp only [leave, if_neg isHold]
  have isLeaving : (state.leave w fiber how).leaving w = true := Function.update_self ..
  have leaves : step threadOf enter state (.leave w how) =
      some (state.leave w fiber how) := by
    simp [step, stageIs, staying, executing]
  have stageAfter : ((state.leave w fiber how).scheduler.workers w).stage =
      .running fiber thread fromCb := by
    rw [written]
    exact stageIs
  have switches : step threadOf enter (state.leave w fiber how) (.switch w) =
      some ((state.leave w fiber how).switch w fiber thread fromCb) := by
    simp [step, stageAfter, isLeaving]
  have restored : Function.update (Function.update state.leaving w true) w false =
      state.leaving := by
    rw [Function.update_idem, ← staying, Function.update_eq_self]
  refine Option.bind_eq_some_iff.mpr ⟨_, leaves, Option.bind_eq_some_iff.mpr
    ⟨_, switches, ?_⟩⟩
  rw [switch, written, leave, restored]
  rfl

/-! ## Exclusion -/

/-- A fiber is executed by one worker at most, and nobody resumes it before the
worker that leaves it has saved its context. -/
structure Exclusive (state : Switching Callback Idle size) : Prop where
  executed : ∀ v w fiber,
    (state.scheduler.workers v).stage.inside = some fiber → state.leaving v = false →
    (state.scheduler.workers w).stage.inside = some fiber → state.leaving w = false →
    v = w
  saved : ∀ v w fiber,
    (state.scheduler.workers v).stage.inside = some fiber → state.leaving v = true →
    (state.scheduler.workers w).stage.inside = some fiber → v = w

/-- A scan takes no live fiber that a worker has taken and not left yet. -/
def Unclaimed (threadOf : Fin size → ThreadId) (state : Switching Callback Idle size) :
    Label Callback size → Prop
  | .loop (.scan w) => ∀ entry fiber,
      state.scheduler.fibers.find?
        (Scheduler.free state.scheduler.fiberState (threadOf w)) = some entry →
      entry.fiber = some fiber → state.scheduler.Live fiber →
      ∀ v, (state.scheduler.workers v).stage.claimed ≠ some fiber
  | .loop _ | .leave .. | .switch _ => True

/-- What every step keeps: a live fiber has one claim at most, and a dead one is
being left by one worker at most. -/
structure Guarded (state : Switching Callback Idle size) : Prop where
  known : state.scheduler.Known
  apart : ∀ v w fiber, state.scheduler.Live fiber →
    (state.scheduler.workers v).stage.claimed = some fiber →
    (state.scheduler.workers w).stage.claimed = some fiber → v = w
  alone : ∀ v w fiber, (state.scheduler.workers v).stage.inside = some fiber →
    (state.scheduler.workers w).stage.inside = some fiber → v = w
  live : ∀ v fiber, (state.scheduler.workers v).stage.inside = some fiber →
    state.leaving v = false → state.scheduler.Live fiber

theorem Guarded.exclusive (guarded : state.Guarded) : state.Exclusive where
  executed v w fiber insideV _ insideW _ := guarded.alone v w fiber insideV insideW
  saved v w fiber insideV _ insideW := guarded.alone v w fiber insideV insideW

@[simp] theorem leave_workers (state : Switching Callback Idle size) (w : Fin size)
    (fiber : FiberId) (how : SwapOut) :
    (state.leave w fiber how).scheduler.workers = state.scheduler.workers := by
  simp only [leave]
  split <;> rfl

theorem leave_known {w : Fin size} {fiber : FiberId} {how : SwapOut}
    (known : state.scheduler.Known) : (state.leave w fiber how).scheduler.Known := by
  simp only [leave]
  split
  · exact known
  · exact known

theorem leave_fiberState {w : Fin size} {fiber other : FiberId} (how : SwapOut)
    (different : other ≠ fiber) :
    (state.leave w fiber how).scheduler.fiberState other =
      state.scheduler.fiberState other := by
  simp only [leave]
  split
  · rfl
  · exact Function.update_of_ne different ..

theorem Guarded.leave {w : Fin size} {fiber : FiberId} {thread : ThreadId}
    {fromCb : Bool} (how : SwapOut) (guarded : state.Guarded)
    (stageIs : (state.scheduler.workers w).stage = .running fiber thread fromCb)
    (staying : state.leaving w = false) : (state.leave w fiber how).Guarded := by
  have isInside : (state.scheduler.workers w).stage.inside = some fiber := by
    rw [stageIs]
    rfl
  have wasLive : ∀ other, (state.leave w fiber how).scheduler.Live other →
      state.scheduler.Live other := by
    intro other live
    by_cases same : other = fiber
    · subst same
      exact guarded.live w other isInside staying
    · exact (Scheduler.live_congr (leave_fiberState how same)).mp live
  constructor
  · exact leave_known guarded.known
  · intro v u other live
    rw [leave_workers]
    exact guarded.apart v u other (wasLive other live)
  · rw [leave_workers]
    exact guarded.alone
  · intro v other
    rw [leave_workers]
    intro insideV stayingV
    have different : v ≠ w := by
      intro same
      subst same
      simp only [Switching.leave, Function.update_self] at stayingV
      cases stayingV
    have notSame : other ≠ fiber := by
      intro same
      subst same
      exact different (guarded.alone v w other insideV isInside)
    simp only [Switching.leave, Function.update_of_ne different] at stayingV
    exact (Scheduler.live_congr (leave_fiberState how notSame)).mpr
      (guarded.live v other insideV stayingV)

theorem Guarded.switch {w : Fin size} {fiber : FiberId} {thread : ThreadId}
    {fromCb : Bool} (guarded : state.Guarded)
    (stageIs : (state.scheduler.workers w).stage = .running fiber thread fromCb) :
    (state.switch w fiber thread fromCb).Guarded := by
  have before : ∀ (of : Stage Callback Idle → Option FiberId) (v : Fin size)
      (other : FiberId), of (.returned fiber thread fromCb) = none →
      of ((state.switch w fiber thread fromCb).scheduler.workers v).stage = some other →
      of (state.scheduler.workers v).stage = some other := by
    intro of v other nothing after
    have workersIs : (state.switch w fiber thread fromCb).scheduler.workers =
      Function.update state.scheduler.workers w _ := rfl
    rcases Scheduler.stage_moved v workersIs with ⟨-, same⟩ | ⟨-, isReturned⟩
    · rw [same] at after
      exact after
    · rw [isReturned, nothing] at after
      cases after
  constructor
  · intro other unknown
    rw [← guarded.known other unknown]
    apply Scheduler.inPlay_kept rfl
    rw [Worker.handWeight, Worker.handWeight, stageIs]
    rfl
  · intro v u other live claimsV claimsU
    exact guarded.apart v u other live (before Stage.claimed v other rfl claimsV)
      (before Stage.claimed u other rfl claimsU)
  · intro v u other insideV insideU
    exact guarded.alone v u other (before Stage.inside v other rfl insideV)
      (before Stage.inside u other rfl insideU)
  · intro v other insideV stayingV
    have different : v ≠ w := by
      intro same
      subst same
      simp only [Switching.switch, Scheduler.setWorker, Function.update_self] at insideV
      cases insideV
    simp only [Switching.switch, Function.update_of_ne different] at stayingV
    exact guarded.live v other (before Stage.inside v other rfl insideV) stayingV

theorem Guarded.loop {inner : Scheduler.Label Callback size}
    {after : Scheduler Callback Idle size} (guarded : state.Guarded)
    (unclaimed : state.Unclaimed threadOf (.loop inner))
    (allowed : state.Allowed inner = true)
    (steps : Scheduler.Steps threadOf enter state.scheduler inner after) :
    ({ state with scheduler := after } : Switching Callback Idle size).Guarded := by
  have notLeft : ∀ w how, inner ≠ .swapOut w how := by
    intro w how same
    subst same
    cases allowed
  have wasLive : ∀ v fiber, after.Live fiber →
      (state.scheduler.workers v).stage.claimed = some fiber →
      state.scheduler.Live fiber := fun v fiber live claims =>
    (steps.live notLeft (guarded.known.claimed claims)).mp live
  have notNew : ∀ v, (state.scheduler.workers v).stage.claimed ≠
      some state.scheduler.created := fun v claims =>
    Nat.lt_irrefl _ (guarded.known.claimed claims)
  -- nobody but the worker that takes a live fiber has a claim on it
  have newClaim : ∀ v w fiber, after.Live fiber →
      (state.scheduler.workers v).stage.claimed = some fiber →
      (after.workers w).stage.claimed = some fiber → v = w := by
    intro v w fiber live claims claimsAfter
    rcases steps.claimed claimsAfter with old | ⟨rfl, entry, isFiber, takes⟩ | ⟨-, rfl⟩
    · exact guarded.apart v w fiber (wasLive v fiber live claims) claims old
    · exact absurd claims
        (unclaimed entry fiber takes isFiber (wasLive v fiber live claims) v)
    · exact absurd claims (notNew v)
  have newInside : ∀ v w fiber,
      (state.scheduler.workers v).stage.inside = some fiber →
      (after.workers w).stage.inside = some fiber → v = w := by
    intro v w fiber isInside insideAfter
    have claims := Stage.claimed_of_inside isInside
    rcases steps.inside insideAfter with old | ⟨-, -, ⟨claimsToo, live⟩ | rfl⟩
    · exact guarded.alone v w fiber isInside old
    · exact guarded.apart v w fiber live claims claimsToo
    · exact absurd claims (notNew v)
  constructor
  · refine steps.known ?_ guarded.known
    intro entry fiber isSchedule workIs
    subst isSchedule
    simpa [Allowed, FiberAnThread.fiber, workIs] using allowed
  · intro v w fiber live claimsV claimsW
    rcases steps.claimed claimsV with old | newV
    · exact newClaim v w fiber live old claimsW
    · rcases steps.claimed claimsW with old | newW
      · exact (newClaim w v fiber live old claimsV).symm
      · rcases newV with ⟨rfl, -⟩ | ⟨rfl, -⟩
        · rcases newW with ⟨same, -⟩ | ⟨same, -⟩
          · exact Scheduler.Label.scan.inj same
          · cases same
        · rcases newW with ⟨same, -⟩ | ⟨same, -⟩
          · cases same
          · exact Scheduler.Label.resume.inj same
  · intro v w fiber insideV insideW
    rcases steps.inside insideV with old | ⟨rfl, -⟩
    · exact newInside v w fiber old insideW
    · rcases steps.inside insideW with old | ⟨same, -⟩
      · exact (newInside w v fiber old insideV).symm
      · exact Scheduler.Label.resume.inj same
  · intro v fiber insideAfter staying
    rcases steps.inside insideAfter with old | ⟨-, live, -⟩
    · have claims := Stage.claimed_of_inside old
      exact (steps.live notLeft (guarded.known.claimed claims)).mpr
        (guarded.live v fiber old staying)
    · exact live

theorem Guarded.step (guarded : state.Guarded) (unclaimed : state.Unclaimed threadOf label)
    (stepped : (machine threadOf enter).step state label = some next) :
    next.Guarded := by
  cases step_eq_some stepped with
  | loop allowed steps => exact guarded.loop unclaimed allowed steps
  | leave how stageIs staying => exact guarded.leave how stageIs staying
  | switch stageIs => exact guarded.switch stageIs

theorem Guarded.start : ({} : Switching Callback Idle size).Guarded where
  known _ _ := Scheduler.inPlay_eq_zero _ rfl fun _ => rfl
  apart := by
    intro v w fiber live claims
    cases claims
  alone := by
    intro v w fiber isInside
    cases isInside
  live := by
    intro v fiber isInside
    cases isInside

/-- In every interleaving in which no scan takes a live fiber that another worker has
taken and not left, a fiber is executed by one worker at a time. -/
theorem exclusive_always (threadOf : Fin size → ThreadId) (enter : Idle)
    {labels : List (Label Callback size)}
    (unclaimed : (machine threadOf enter).StepsMeet (Unclaimed threadOf) {} labels) :
    (machine threadOf enter).Always Exclusive {} labels :=
  unclaimed.always Guarded
    (fun _ _ _ guarded meets stepped => guarded.step meets stepped)
    (fun _ guarded => guarded.exclusive) Guarded.start

abbrev pair : Machine (Switching Unit Unit 2) (Label Unit 2) :=
  machine (fun w => (w.val : Int)) ()

/-- A fiber is in the queue twice. A second worker takes it, and resumes it, once the
first has saved its context. -/
theorem exclusive_always_left :
    let labels : List (Label Unit 2) :=
      [.loop (.newFiber ()), .loop (.schedule ⟨.fiber 0, -1⟩),
        .loop (.schedule ⟨.fiber 0, -1⟩), .loop (.scan 0), .loop (.resume 0),
        .leave 0 .ready, .switch 0, .loop (.scan 1), .loop (.resume 1)]
    pair.Always Exclusive {} labels ∧
      ∃ final, pair.run {} labels = some final ∧
        (final.scheduler.workers 1).stage.inside = some 0 := by
  intro labels
  refine ⟨exclusive_always _ _ ?_, _, rfl, rfl⟩
  apply Machine.StepsMeet.cons rfl trivial
  apply Machine.StepsMeet.cons rfl trivial
  apply Machine.StepsMeet.cons rfl trivial
  apply Machine.StepsMeet.cons rfl
  · intro entry fiber _ _ _ v claims
    cases claims
  apply Machine.StepsMeet.cons rfl trivial
  apply Machine.StepsMeet.cons rfl trivial
  apply Machine.StepsMeet.cons rfl trivial
  apply Machine.StepsMeet.cons rfl
  · intro entry fiber _ _ _
    refine Fin.forall_fin_two.mpr ⟨?_, ?_⟩ <;> intro claims <;> cases claims
  exact Machine.StepsMeet.cons rfl trivial trivial

/-- A fiber is in the queue twice. Two workers take it before either resumes it, and
both execute it; or one leaves it, to `READY`, and the other resumes it before its
context is saved. -/
theorem exclusive_always_fails :
    ¬pair.Always Exclusive {}
        [.loop (.newFiber ()), .loop (.schedule ⟨.fiber 0, -1⟩),
          .loop (.schedule ⟨.fiber 0, -1⟩), .loop (.scan 0), .loop (.scan 1),
          .loop (.resume 0), .loop (.resume 1)] ∧
      ¬pair.Always Exclusive {}
        [.loop (.newFiber ()), .loop (.schedule ⟨.fiber 0, -1⟩),
          .loop (.schedule ⟨.fiber 0, -1⟩), .loop (.scan 0), .loop (.resume 0),
          .leave 0 .ready, .loop (.scan 1), .loop (.resume 1)] := by
  constructor
  · intro always
    exact absurd ((always.last rfl).executed 0 1 0 rfl rfl rfl rfl) (by decide)
  · intro always
    exact absurd ((always.last rfl).saved 0 1 0 rfl rfl rfl) (by decide)

end Switching

end Sylar.Scheduling
