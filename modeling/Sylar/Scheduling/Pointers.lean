import Sylar.Scheduling.Comparisons
import Sylar.Scheduling.Conservation
import Sylar.Scheduling.Exclusion

/-! # How long a fiber lives

A fiber is held by `Fiber::ptr`: by entries of the queue, by the workers, by callers and
the slots of events, and by its own body, which keeps `cur` on the fiber's stack. The
destructor asserts that the body has not begun or has ended. The comparisons of `run` with
the fiber's state are steps of their own here, so that others may come in between.
-/

namespace Sylar.Scheduling

open Foundation

variable {Callback Idle : Type} {size : Nat}

/-- The run loop with the pointers to fibers that neither the queue nor a worker at work
has. -/
structure Pointers (Callback Idle : Type) (size : Nat) where
  scheduler : Scheduler Callback Idle size := {}
  compared : Fin size → Compared := fun _ => .unequal 0
  /-- The pointer in `ft` of a worker that is through with its fiber, until `ft.reset()`. -/
  kept : Fin size → Option FiberId := fun _ => none
  /-- Those of callers and of the slots of events. -/
  outside : FiberId → Nat := fun _ => 0
  /-- Those on the fiber's own stack: `cur` of `MainFunc`, and `cur` of `YieldToReady` or
  `YieldToHold` while it has yielded. -/
  onStack : FiberId → Nat := fun _ => 0
  /-- The state in which `~Fiber` has found the fiber. -/
  destroyed : FiberId → Option FiberState := fun _ => none

/-- What `~Fiber` asserts. -/
def FiberState.disposable : FiberState → Bool
  | .TERM | .INIT | .EXCET => true
  | .READY | .HOLD | .EXEC => false

def Stage.entered : Stage Callback Idle → Option FiberId
  | .running fiber .. | .returned fiber .. | .released fiber _ => some fiber
  | .scanning | .tickling _ | .scanned _ | .idling _ | .idled | .left => none

theorem Stage.hand_of_inside {stage : Stage Callback Idle} {fiber : FiberId}
    (isInside : stage.inside = some fiber) : stage.hand = some (.fiber fiber) :=
  Stage.hand_of_claimed (Stage.claimed_of_inside isInside)

/-! ## The states of the fibers -/

namespace Scheduler

variable {scheduler next : Scheduler Callback Idle size} {threadOf : Fin size → ThreadId}
  {enter : Idle} {label : Label Callback size}

inductive Writes (scheduler next : Scheduler Callback Idle size) : Label Callback size → Prop
  | nothing {label : Label Callback size} (states : next.fiberState = scheduler.fiberState)
      (notMade : ∀ callback, label ≠ .newFiber callback)
      (notEntered : ∀ w, label = .resume w → (next.workers w).stage.inside = none)
      (notLeft : ∀ w how, label ≠ .swapOut w how) : Writes scheduler next label
  | newFiber (callback : Callback)
      (states : next.fiberState =
        Function.update scheduler.fiberState scheduler.created .INIT) :
      Writes scheduler next (.newFiber callback)
  | enter {w : Fin size} {fiber : FiberId}
      (inside : (next.workers w).stage.inside = some fiber)
      (states : next.fiberState = Function.update scheduler.fiberState fiber .EXEC) :
      Writes scheduler next (.resume w)
  | leave {w : Fin size} {fiber : FiberId} (how : SwapOut)
      (inside : (scheduler.workers w).stage.inside = some fiber)
      (states : next.fiberState = Function.update scheduler.fiberState fiber how.state) :
      Writes scheduler next (.swapOut w how)
  | hold {w : Fin size} {fiber : FiberId} (live : scheduler.Live fiber)
      (entered : (scheduler.workers w).stage.entered = some fiber)
      (states : next.fiberState = Function.update scheduler.fiberState fiber .HOLD) :
      Writes scheduler next (.settle w)

theorem nothingToRun_writes (enter : Idle) (scheduler : Scheduler Callback Idle size)
    (w : Fin size) : Writes scheduler (scheduler.nothingToRun enter w) (.resume w) := by
  refine .nothing nothingToRun_fiberState (by simp) ?_ (by simp)
  intro v same
  cases same
  rcases nothingToRun_frame enter scheduler w with ⟨worker, _, _, idleIs, stageAfter⟩
  rw [idleIs]
  simp only [setWorker, Function.update_self]
  rcases stageAfter with stageAfter | stageAfter | stageAfter <;> rw [stageAfter] <;> rfl

theorem Steps.writes (steps : Steps threadOf enter scheduler label next) :
    Writes scheduler next label := by
  cases steps with
  | schedule | autoStop | stopping | tickle | release | leaveIdle | afterIdle =>
      exact .nothing rfl (by simp) (by simp) (by simp)
  | newFiber callback => exact .newFiber callback rfl
  | scan => exact .nothing scanQueue_fiberState (by simp) (by simp) (by simp)
  | @resume w ft =>
      rcases ft with _ | ⟨callback | fiber, thread⟩
      · exact nothingToRun_writes enter scheduler w
      · have inside : ((scheduler.resume enter w (some ⟨.cb callback, thread⟩)).workers
            w).stage.inside = some scheduler.created := by
          simp [Scheduler.resume, swapIn, setWorker, Stage.inside]
        refine .enter inside ?_
        simp only [Scheduler.resume, swapIn, setWorker, setFiber, Scheduler.newFiber]
        exact Function.update_idem ..
      · simp only [Scheduler.resume]
        split
        · have inside : ((scheduler.swapIn w fiber thread false).workers w).stage.inside =
              some fiber := by
            simp [swapIn, setWorker, Stage.inside]
          exact .enter inside rfl
        · exact nothingToRun_writes enter scheduler w
  | swapOut how stageIs =>
      refine .leave how ?_ rfl
      rw [stageIs]
      rfl
  | @settle w fiber thread stageIs =>
      simp only [Scheduler.settle]
      split
      · exact .nothing rfl (by simp) (by simp) (by simp)
      · split
        · next live =>
            refine .hold live ?_ rfl
            rw [stageIs]
            rfl
        · exact .nothing rfl (by simp) (by simp) (by simp)

theorem Writes.begun (writes : Writes scheduler next label) {fiber : FiberId}
    (existing : fiber < scheduler.created) (begun : scheduler.fiberState fiber ≠ .INIT) :
    next.fiberState fiber ≠ .INIT := by
  have updated : ∀ {other : FiberId} {state : FiberState},
      next.fiberState = Function.update scheduler.fiberState other state →
        (other = fiber → state ≠ .INIT) → next.fiberState fiber ≠ .INIT := by
    intro other state states notBack
    rw [states]
    by_cases same : fiber = other
    · subst same
      rw [Function.update_self]
      exact notBack rfl
    · rw [Function.update_of_ne same]
      exact begun
  cases writes with
  | nothing states =>
      rw [states]
      exact begun
  | newFiber callback states =>
      exact updated states fun same => absurd same.symm (Nat.ne_of_lt existing)
  | enter inside states => exact updated states (by simp)
  | leave how inside states => exact updated states (by cases how <;> simp [SwapOut.state])
  | hold live entered states => exact updated states (by simp)

def Begun (scheduler : Scheduler Callback Idle size) : Prop :=
  ∀ w fiber, (scheduler.workers w).stage.entered = some fiber →
    scheduler.fiberState fiber ≠ .INIT

theorem Steps.stays_begun (steps : Steps threadOf enter scheduler label next)
    (known : scheduler.Known) (begun : scheduler.Begun) : next.Begun := by
  intro w fiber entered
  have kept : (scheduler.workers w).stage.entered = some fiber →
      next.fiberState fiber ≠ .INIT := by
    intro before
    have holds : (scheduler.workers w).stage.hand = some (.fiber fiber) := by
      generalize (scheduler.workers w).stage = stage at before
      cases stage <;> cases before <;> rfl
    exact steps.writes.begun (known.lt_created holds) (begun w fiber before)
  rcases steps.stage w with ⟨-, same⟩ | moves
  · rw [same] at entered
    exact kept entered
  · generalize stageIs : (scheduler.workers w).stage = before at moves kept
    generalize (next.workers w).stage = after at moves entered
    cases moves with
    | scan takes stageAfter => rcases stageAfter with rfl | rfl <;> cases entered
    | nothing ft stageAfter => rcases stageAfter with rfl | rfl | rfl <;> cases entered
    | start callback thread executes =>
        cases entered
        rw [executes]
        simp
    | swapIn thread live executes =>
        cases entered
        rw [executes]
        simp
    | @swapOut other thread fromCb how leaves =>
        cases entered
        rw [leaves]
        cases how <;> simp [SwapOut.state]
    | release other thread fromCb same => exact kept entered
    | tickle | settle | leaveIdle | afterIdle => cases entered

end Scheduler

/-! ## Pointers -/

namespace Pointers

inductive Label (Callback : Type) (size : Nat)
  | loop (label : Scheduler.Label Callback size)
  | compare (w : Fin size)
  | branch (w : Fin size)
  | reset (w : Fin size)
  | copy (fiber : FiberId)
  | drop (fiber : FiberId)

def keepers (pointers : Pointers Callback Idle size) (fiber : FiberId) : Nat :=
  (List.finRange size).countP (pointers.kept · = some fiber)

def useCount (pointers : Pointers Callback Idle size) (fiber : FiberId) : Nat :=
  pointers.scheduler.owners fiber + pointers.keepers fiber + pointers.outside fiber +
    pointers.onStack fiber

def collect (pointers : Pointers Callback Idle size) : Pointers Callback Idle size :=
  { pointers with
    destroyed := fun fiber =>
      match pointers.destroyed fiber with
      | some state => some state
      | none =>
          if fiber < pointers.scheduler.created ∧ pointers.useCount fiber = 0 then
            some (pointers.scheduler.fiberState fiber)
          else none }

/-- Who makes a fiber has a pointer to it; a worker keeps its own in its hand. -/
def given (before : Scheduler Callback Idle size) (outside : FiberId → Nat) :
    Scheduler.Label Callback size → FiberId → Nat
  | .newFiber _ => Function.update outside before.created 1
  | .schedule _ | .autoStop | .stopping | .scan _ | .tickle _ | .resume _ | .swapOut ..
  | .release _ | .settle _ | .leaveIdle .. | .afterIdle _ => outside

/-- `MainFunc` takes a pointer when it begins and gives it up before its last switch; a
body that yields takes another one until it goes on. -/
def stacked (before after : Scheduler Callback Idle size) (onStack : FiberId → Nat) :
    Scheduler.Label Callback size → FiberId → Nat
  | .resume w =>
      match (after.workers w).stage.inside with
      | some fiber => Function.update onStack fiber 1
      | none => onStack
  | .swapOut w how =>
      match (before.workers w).stage.inside with
      | some fiber => Function.update onStack fiber (if how.ends then 0 else 2)
      | none => onStack
  | .schedule _ | .newFiber _ | .autoStop | .stopping | .scan _ | .tickle _ | .release _
  | .settle _ | .leaveIdle .. | .afterIdle _ => onStack

def moved (pointers : Pointers Callback Idle size) (label : Scheduler.Label Callback size)
    (next : Scheduler Callback Idle size) : Pointers Callback Idle size :=
  { pointers with
    scheduler := next
    outside := given pointers.scheduler pointers.outside label
    onStack := stacked pointers.scheduler next pointers.onStack label }

/-- The worker begins with its fiber, or is through with it and keeps `ft`. -/
def passes (pointers : Pointers Callback Idle size) (w : Fin size) (kept : Option FiberId) :
    Pointers Callback Idle size :=
  { pointers with
    compared := Function.update pointers.compared w (.unequal 0)
    kept := Function.update pointers.kept w kept }

/-- The steps taken over from the loop. Who enqueues a fiber has a pointer to it, and `ft`
is empty when a scan begins. -/
def Allowed (pointers : Pointers Callback Idle size) : Scheduler.Label Callback size → Bool
  | .schedule entry => entry.fiber.all (0 < pointers.outside ·)
  | .scan w => (pointers.kept w).isNone
  | .resume w => (pointers.scheduler.workers w).stage.compares.isNone
  | .settle _ => false
  | .newFiber _ | .autoStop | .stopping | .tickle _ | .swapOut .. | .release _
  | .leaveIdle .. | .afterIdle _ => true

def step (threadOf : Fin size → ThreadId) (enter : Idle)
    (pointers : Pointers Callback Idle size) :
    Label Callback size → Option (Pointers Callback Idle size)
  | .loop label =>
      if pointers.Allowed label then
        (pointers.scheduler.step threadOf enter label).map fun next =>
          (pointers.moved label next).collect
      else none
  | .compare w => do
      let (fiber, states) ← (pointers.scheduler.workers w).stage.compares
      let after ← (pointers.compared w).next states (pointers.scheduler.fiberState fiber)
      pure { pointers with compared := Function.update pointers.compared w after }
  | .branch w => do
      let (fiber, _) ← (pointers.scheduler.workers w).stage.compares
      let next ← pointers.scheduler.branch enter w (pointers.compared w)
      let kept := if (next.workers w).stage.inside = none then some fiber else none
      pure ((pointers.moved ((pointers.scheduler.workers w).stage.branch w) next).passes w
        kept).collect
  | .reset w =>
      some { pointers with kept := Function.update pointers.kept w none }.collect
  -- from a pointer that the caller has, or by `GetCurrentFiber` inside the fiber
  | .copy fiber =>
      if 0 < pointers.outside fiber ∨
          ∃ w, (pointers.scheduler.workers w).stage.inside = some fiber then
        some
          { pointers with
            outside := Function.update pointers.outside fiber (pointers.outside fiber + 1) }
      else none
  | .drop fiber =>
      if 0 < pointers.outside fiber then
        some
          { pointers with
            outside :=
              Function.update pointers.outside fiber (pointers.outside fiber - 1) }.collect
      else none

def machine (threadOf : Fin size → ThreadId) (enter : Idle) :
    Machine (Pointers Callback Idle size) (Label Callback size) where
  step := step threadOf enter

variable {threadOf : Fin size → ThreadId} {enter : Idle}
  {pointers after : Pointers Callback Idle size} {label : Label Callback size}

inductive Steps (threadOf : Fin size → ThreadId) (enter : Idle)
    (pointers : Pointers Callback Idle size) :
    Label Callback size → Pointers Callback Idle size → Prop
  | loop {label : Scheduler.Label Callback size} {next : Scheduler Callback Idle size}
      (allowed : pointers.Allowed label = true)
      (steps : Scheduler.Steps threadOf enter pointers.scheduler label next) :
      Steps threadOf enter pointers (.loop label) (pointers.moved label next).collect
  | compare {w : Fin size} {fiber : FiberId} {states : List FiberState} {after : Compared}
      (compares : (pointers.scheduler.workers w).stage.compares = some (fiber, states))
      (isNext : (pointers.compared w).next states (pointers.scheduler.fiberState fiber) =
        some after) :
      Steps threadOf enter pointers (.compare w)
        { pointers with compared := Function.update pointers.compared w after }
  | branch {w : Fin size} {fiber : FiberId} {states : List FiberState}
      {next : Scheduler Callback Idle size} (kept : Option FiberId)
      (compares : (pointers.scheduler.workers w).stage.compares = some (fiber, states))
      (branched : pointers.scheduler.branch enter w (pointers.compared w) = some next)
      (keptIs : ∀ other, kept = some other → other = fiber) :
      Steps threadOf enter pointers (.branch w)
        ((pointers.moved ((pointers.scheduler.workers w).stage.branch w) next).passes w
          kept).collect
  | reset (w : Fin size) :
      Steps threadOf enter pointers (.reset w)
        { pointers with kept := Function.update pointers.kept w none }.collect
  | copy {fiber : FiberId}
      (source : 0 < pointers.outside fiber ∨
        ∃ w, (pointers.scheduler.workers w).stage.inside = some fiber) :
      Steps threadOf enter pointers (.copy fiber)
        { pointers with
          outside := Function.update pointers.outside fiber (pointers.outside fiber + 1) }
  | drop {fiber : FiberId} (has : 0 < pointers.outside fiber) :
      Steps threadOf enter pointers (.drop fiber)
        { pointers with
          outside :=
            Function.update pointers.outside fiber (pointers.outside fiber - 1) }.collect

theorem step_eq_some (stepped : step threadOf enter pointers label = some after) :
    Steps threadOf enter pointers label after := by
  cases label with
  | loop label =>
      rcases Option.ite_none_right_eq_some.mp stepped with ⟨allowed, moved⟩
      rcases Option.map_eq_some_iff.mp moved with ⟨next, inner, rfl⟩
      exact .loop allowed (Scheduler.step_eq_some inner)
  | compare w =>
      rcases Option.bind_eq_some_iff.mp stepped with ⟨⟨fiber, states⟩, compares, rest⟩
      rcases Option.bind_eq_some_iff.mp rest with ⟨after, isNext, ⟨⟩⟩
      exact .compare compares isNext
  | branch w =>
      rcases Option.bind_eq_some_iff.mp stepped with ⟨⟨fiber, states⟩, compares, rest⟩
      rcases Option.bind_eq_some_iff.mp rest with ⟨next, branched, ⟨⟩⟩
      refine .branch _ compares branched fun other isKept => ?_
      exact (Option.some.inj (Option.ite_none_right_eq_some.mp isKept).2).symm
  | reset w =>
      cases stepped
      exact .reset w
  | copy fiber =>
      rcases Option.ite_none_right_eq_some.mp stepped with ⟨source, moved⟩
      cases moved
      exact .copy source
  | drop fiber =>
      rcases Option.ite_none_right_eq_some.mp stepped with ⟨has, moved⟩
      cases moved
      exact .drop has

/-! ## One worker at a time -/

/-- No scan takes a fiber that another worker has not settled yet. -/
def Unshared (threadOf : Fin size → ThreadId) (pointers : Pointers Callback Idle size) :
    Label Callback size → Prop
  | .loop (.scan w) => ∀ entry fiber,
      pointers.scheduler.fibers.find?
        (Scheduler.free pointers.scheduler.fiberState (threadOf w)) = some entry →
      entry.fiber = some fiber →
      ∀ v, (pointers.scheduler.workers v).stage.hand ≠ some (.fiber fiber)
  | .loop _ | .compare _ | .branch _ | .reset _ | .copy _ | .drop _ => True

theorem unshared_of_emptyHanded
    (emptyHanded : ∀ w, (pointers.scheduler.workers w).stage.hand = none)
    (label : Label Callback size) : pointers.Unshared threadOf label := by
  cases label with
  | loop label =>
      cases label with
      | scan w => simp [Unshared, emptyHanded]
      | schedule | newFiber | autoStop | stopping | tickle | resume | swapOut | release | settle
      | leaveIdle | afterIdle => trivial
  | compare | branch | reset | copy | drop => trivial

/-- Each fiber is in one hand at most, so that what its worker has found of its state stays
so. -/
structure Apart (pointers : Pointers Callback Idle size) : Prop where
  apart : ∀ v w fiber, (pointers.scheduler.workers v).stage.hand = some (.fiber fiber) →
    (pointers.scheduler.workers w).stage.hand = some (.fiber fiber) → v = w
  fresh : ∀ w, (pointers.scheduler.workers w).stage.compares = none →
    pointers.compared w = .unequal 0
  holds : ∀ w fiber states,
    (pointers.scheduler.workers w).stage.compares = some (fiber, states) →
      (pointers.compared w).Holds states (pointers.scheduler.fiberState fiber)

theorem Apart.begin : ({} : Pointers Callback Idle size).Apart where
  apart v w fiber holds := by cases holds
  fresh w _ := rfl
  holds w fiber states compares := by cases compares

theorem Apart.steps (apart : pointers.Apart) (known : pointers.scheduler.Known)
    {label : Scheduler.Label Callback size} {next : Scheduler Callback Idle size}
    (steps : Scheduler.Steps threadOf enter pointers.scheduler label next)
    (notShared : ∀ w, label = .scan w → ∀ entry fiber,
      pointers.scheduler.fibers.find?
        (Scheduler.free pointers.scheduler.fiberState (threadOf w)) = some entry →
      entry.fiber = some fiber →
      ∀ v, (pointers.scheduler.workers v).stage.hand ≠ some (.fiber fiber))
    (schedulerIs : after.scheduler = next)
    (own : ∀ w, label.worker = some w → after.compared w = .unequal 0)
    (others : ∀ w, label.worker ≠ some w → after.compared w = pointers.compared w) :
    after.Apart := by
  subst schedulerIs
  have stays : ∀ w, label.worker ≠ some w →
      (after.scheduler.workers w).stage = (pointers.scheduler.workers w).stage := by
    intro w notHis
    rcases steps.stage w with ⟨-, same⟩ | moves
    · exact same
    · exact absurd (Scheduler.Transition.worker moves) notHis
  -- A worker comes to hold what a scan finds in nobody's hand, or a fiber that is new.
  have comes : ∀ v fiber, (after.scheduler.workers v).stage.hand = some (.fiber fiber) →
      (pointers.scheduler.workers v).stage.hand = some (.fiber fiber) ∨
        label.worker = some v ∧
          ∀ w, (pointers.scheduler.workers w).stage.hand ≠ some (.fiber fiber) := by
    intro v fiber holds
    rw [Stage.hand_eq_held] at holds
    rcases Option.map_eq_some_iff.mp holds with ⟨entry, held, workIs⟩
    rcases steps.held held with before | ⟨rfl, found⟩ | ⟨callback, thread, rfl, -, rfl⟩
    · left
      rw [Stage.hand_eq_held, before, Option.map_some, workIs]
    · exact Or.inr ⟨rfl, notShared v rfl entry fiber found (FiberAnThread.fiber_eq_some.mpr workIs)⟩
    · refine Or.inr ⟨rfl, fun w holdsNew => ?_⟩
      cases workIs
      exact absurd (known.lt_created holdsNew) (Nat.lt_irrefl _)
  constructor
  · intro v w fiber holdsV holdsW
    rcases comes v fiber holdsV with oldV | ⟨hisV, nobody⟩
    · rcases comes w fiber holdsW with oldW | ⟨hisW, nobody⟩
      · exact apart.apart v w fiber oldV oldW
      · exact absurd oldV (nobody v)
    · rcases comes w fiber holdsW with oldW | ⟨hisW, -⟩
      · exact absurd oldW (nobody w)
      · exact Option.some.inj (hisV.symm.trans hisW)
  · intro w nothing
    by_cases his : label.worker = some w
    · exact own w his
    · rw [others w his]
      rw [stays w his] at nothing
      exact apart.fresh w nothing
  · intro w fiber states compares
    by_cases his : label.worker = some w
    · rw [own w his]
      intro other member
      cases member
    · rw [stays w his] at compares
      have holds := Stage.hand_of_compares compares
      have sameState := steps.fiberState (known.lt_created holds) fun v isHis holdsToo =>
        his (apart.apart w v fiber holds holdsToo ▸ isHis)
      rw [others w his, sameState]
      exact apart.holds w fiber states compares

theorem Allowed.compares {label : Scheduler.Label Callback size}
    {next : Scheduler Callback Idle size} (allowed : pointers.Allowed label = true)
    (steps : Scheduler.Steps threadOf enter pointers.scheduler label next) {w : Fin size}
    (his : label.worker = some w) : (pointers.scheduler.workers w).stage.compares = none := by
  cases steps with
  | schedule | newFiber | autoStop | stopping => cases his
  | resume =>
      cases his
      exact Option.isNone_iff_eq_none.mp allowed
  | settle => cases allowed
  | scan stageIs | tickle stageIs | swapOut _ stageIs | release stageIs | leaveIdle _ stageIs
  | afterIdle stageIs =>
      cases his
      rw [stageIs]
      rfl

theorem Apart.step (apart : pointers.Apart) (known : pointers.scheduler.Known)
    (unshared : pointers.Unshared threadOf label)
    (steps : Steps threadOf enter pointers label after) : after.Apart := by
  cases steps with
  | loop allowed inner =>
      refine apart.steps known inner ?_ rfl ?_ fun _ _ => rfl
      · rintro w rfl
        exact unshared
      · exact fun w his => apart.fresh w (Allowed.compares allowed inner his)
  | @compare w fiber states found compares isNext =>
      constructor
      · exact apart.apart
      · intro v nothing
        have different : v ≠ w := by
          rintro rfl
          rw [compares] at nothing
          cases nothing
        exact (Function.update_of_ne different ..).trans (apart.fresh v nothing)
      · intro v other otherStates comparesToo
        by_cases same : v = w
        · subst same
          cases compares.symm.trans comparesToo
          dsimp only
          rw [Function.update_self]
          exact (apart.holds v fiber states compares).next isNext
        · dsimp only
          rw [Function.update_of_ne same]
          exact apart.holds v other otherStates comparesToo
  | @branch w fiber states next kept compares branched =>
      have inner : Scheduler.Steps threadOf enter pointers.scheduler _ next :=
        Scheduler.branch_steps compares (apart.holds w fiber states compares) branched
      have worker := Stage.branch_worker w (pointers.scheduler.workers w).stage
      refine apart.steps known inner ?_ rfl ?_ ?_
      · intro v isScan
        cases stageIs : (pointers.scheduler.workers w).stage <;> rw [stageIs] at isScan <;>
          cases isScan
      · intro v his
        rw [worker] at his
        cases his
        exact Function.update_self ..
      · intro v notHis
        rw [worker] at notHis
        exact Function.update_of_ne (fun same => notHis (congrArg some same.symm)) ..
  | reset | copy | drop => exact ⟨apart.apart, apart.fresh, apart.holds⟩

/-! ## What holds of the pointers -/

structure Sound (pointers : Pointers Callback Idle size) : Prop where
  known : pointers.scheduler.Known
  begun : pointers.scheduler.Begun
  unborn : ∀ fiber, pointers.scheduler.created ≤ fiber →
    pointers.useCount fiber = 0 ∧ pointers.destroyed fiber = none
  /-- A body that has begun and not ended has a pointer to its fiber. -/
  bodies : ∀ fiber, pointers.onStack fiber = 0 ↔
    (pointers.scheduler.fiberState fiber).disposable = true
  /-- What has been destroyed is as it was then, and nobody points to it. -/
  gone : ∀ fiber state, pointers.destroyed fiber = some state →
    pointers.useCount fiber = 0 ∧ pointers.scheduler.fiberState fiber = state

theorem keepers_eq_zero {fiber : FiberId} :
    pointers.keepers fiber = 0 ↔ ∀ w, pointers.kept w ≠ some fiber := by
  simp [keepers, List.countP_eq_zero]

theorem useCount_eq_zero {fiber : FiberId} : pointers.useCount fiber = 0 ↔
    pointers.scheduler.owners fiber = 0 ∧ (∀ w, pointers.kept w ≠ some fiber) ∧
      pointers.outside fiber = 0 ∧ pointers.onStack fiber = 0 := by
  rw [useCount, ← keepers_eq_zero]
  omega

theorem Sound.begin : ({} : Pointers Callback Idle size).Sound where
  known fiber _ := Scheduler.inPlay_eq_zero _ rfl fun _ => rfl
  begun w fiber entered := by cases entered
  unborn fiber _ := by
    refine ⟨useCount_eq_zero.mpr ⟨?_, nofun, rfl, rfl⟩, rfl⟩
    exact Scheduler.inPlay_eq_zero _ rfl fun _ => rfl
  bodies fiber := by simp [FiberState.disposable]
  gone fiber state destroyed := by cases destroyed

theorem stacked_iff {before next : Scheduler Callback Idle size} {onStack : FiberId → Nat}
    {label : Scheduler.Label Callback size} (writes : Scheduler.Writes before next label)
    (begun : before.Begun) (unborn : onStack before.created = 0)
    (bodies : ∀ fiber, onStack fiber = 0 ↔ (before.fiberState fiber).disposable = true)
    (fiber : FiberId) :
    stacked before next onStack label fiber = 0 ↔
      (next.fiberState fiber).disposable = true := by
  cases writes with
  | nothing states notMade notEntered notLeft =>
      have same : stacked before next onStack label = onStack := by
        cases label with
        | resume w => simp only [stacked, notEntered w rfl]
        | swapOut w how => exact absurd rfl (notLeft w how)
        | schedule | newFiber | autoStop | stopping | scan | tickle | release | settle
        | leaveIdle | afterIdle => rfl
      rw [same, states]
      exact bodies fiber
  | newFiber callback states =>
      rw [states]
      by_cases isNew : fiber = before.created
      · subst isNew
        rw [Function.update_self]
        exact iff_of_true unborn rfl
      · rw [Function.update_of_ne isNew]
        exact bodies fiber
  | @enter w entered inside states =>
      simp only [stacked, inside, states]
      by_cases same : fiber = entered
      · subst same
        simp [FiberState.disposable]
      · rw [Function.update_of_ne same, Function.update_of_ne same]
        exact bodies fiber
  | @leave w left how inside states =>
      simp only [stacked, inside, states]
      by_cases same : fiber = left
      · subst same
        rw [Function.update_self, Function.update_self]
        cases how <;> simp [SwapOut.ends, SwapOut.state, FiberState.disposable]
      · rw [Function.update_of_ne same, Function.update_of_ne same]
        exact bodies fiber
  | @hold w held live entered states =>
      rw [states]
      by_cases same : fiber = held
      · subst same
        -- Its body has begun and not ended, so it has a pointer already.
        rw [Function.update_self]
        have notNew := begun w fiber entered
        have notDisposable : (before.fiberState fiber).disposable = false := by
          cases stateIs : before.fiberState fiber with
          | INIT => exact absurd stateIs notNew
          | TERM => exact absurd stateIs live.1
          | EXCET => exact absurd stateIs live.2
          | READY | HOLD | EXEC => rfl
        refine iff_of_false (fun empty => ?_) (by simp [FiberState.disposable])
        have disposable := (bodies fiber).mp empty
        rw [notDisposable] at disposable
        cases disposable
      · rw [Function.update_of_ne same]
        exact bodies fiber

theorem stacked_other {before next : Scheduler Callback Idle size} {onStack : FiberId → Nat}
    {label : Scheduler.Label Callback size} {fiber : FiberId}
    (notHeld : ∀ w, (before.workers w).stage.hand ≠ some (.fiber fiber))
    (notHeldAfter : ∀ w, (next.workers w).stage.hand ≠ some (.fiber fiber)) :
    stacked before next onStack label fiber = onStack fiber := by
  cases label with
  | resume w =>
      rw [stacked]
      cases inside : (next.workers w).stage.inside with
      | none => rfl
      | some other =>
          refine Function.update_of_ne (fun same => ?_) ..
          exact notHeldAfter w (same ▸ Stage.hand_of_inside inside)
  | swapOut w how =>
      rw [stacked]
      cases inside : (before.workers w).stage.inside with
      | none => rfl
      | some other =>
          refine Function.update_of_ne (fun same => ?_) ..
          exact notHeld w (same ▸ Stage.hand_of_inside inside)
  | schedule | newFiber | autoStop | stopping | scan | tickle | release | settle
  | leaveIdle | afterIdle => rfl

theorem given_other (before : Scheduler Callback Idle size) (outside : FiberId → Nat)
    (label : Scheduler.Label Callback size) {fiber : FiberId} (notNew : fiber ≠ before.created) :
    given before outside label fiber = outside fiber := by
  cases label with
  | newFiber callback => exact Function.update_of_ne notNew ..
  | schedule | autoStop | stopping | scan | tickle | resume | swapOut | release | settle
  | leaveIdle | afterIdle => rfl

theorem not_held {scheduler : Scheduler Callback Idle size} {fiber : FiberId}
    (nowhere : scheduler.owners fiber = 0) (w : Fin size) :
    (scheduler.workers w).stage.hand ≠ some (.fiber fiber) := by
  intro holds
  have held := Scheduler.owners_pos holds
  rw [nowhere] at held
  cases held

structure Unheld (pointers : Pointers Callback Idle size) (fiber : FiberId) : Prop where
  existing : fiber < pointers.scheduler.created
  owners : pointers.scheduler.owners fiber = 0
  kept : ∀ w, pointers.kept w ≠ some fiber
  outside : pointers.outside fiber = 0

def Sourced (pointers : Pointers Callback Idle size)
    (label : Scheduler.Label Callback size) : Prop :=
  ∀ entry fiber, label = .schedule entry → entry.work = .fiber fiber →
    0 < pointers.outside fiber

theorem sourced_of_allowed {label : Scheduler.Label Callback size}
    (allowed : pointers.Allowed label = true) : pointers.Sourced label := by
  rintro entry fiber rfl workIs
  rw [Allowed, FiberAnThread.fiber_eq_some.mpr workIs, Option.all_some,
    decide_eq_true_eq] at allowed
  exact allowed

theorem sourced_branch (w : Fin size) (stage : Stage Callback Idle) :
    pointers.Sourced (stage.branch w) := by
  intro entry fiber isSchedule
  cases stage <;> cases isSchedule

theorem Unheld.moved {fiber : FiberId} (unheld : pointers.Unheld fiber)
    {label : Scheduler.Label Callback size} {next : Scheduler Callback Idle size}
    (sourced : pointers.Sourced label)
    (steps : Scheduler.Steps threadOf enter pointers.scheduler label next) :
    (pointers.moved label next).Unheld fiber ∧
      (pointers.moved label next).onStack fiber = pointers.onStack fiber ∧
      next.fiberState fiber = pointers.scheduler.fiberState fiber := by
  have notHeld := not_held unheld.owners
  have notNew : fiber ≠ pointers.scheduler.created := Nat.ne_of_lt unheld.existing
  have ownersAfter : next.owners fiber = 0 := by
    have balance := steps.owners fiber
    have nothing : (pointers.scheduler.brings label).elim 0 (Scheduler.isFiber fiber) = 0 := by
      refine steps.not_brought ?_ fun isNew => absurd isNew notNew
      intro entry isSchedule workIs
      have has := sourced entry fiber isSchedule workIs
      rw [unheld.outside] at has
      cases has
    rw [unheld.owners, nothing] at balance
    omega
  refine ⟨⟨?_, ownersAfter, unheld.kept, ?_⟩, ?_,
    steps.fiberState unheld.existing fun w _ => notHeld w⟩
  · exact Nat.lt_of_lt_of_le unheld.existing steps.brings_cases.1
  · exact (given_other _ _ _ notNew).trans unheld.outside
  · exact stacked_other notHeld (not_held ownersAfter)

theorem Sound.unheld (sound : pointers.Sound) {fiber : FiberId} {state : FiberState}
    (destroyed : pointers.destroyed fiber = some state) : pointers.Unheld fiber := by
  rcases useCount_eq_zero.mp (sound.gone fiber state destroyed).1 with
    ⟨owners, kept, outside, -⟩
  refine ⟨?_, owners, kept, outside⟩
  by_contra notBelow
  rw [(sound.unborn fiber (Nat.le_of_not_lt notBelow)).2] at destroyed
  cases destroyed

theorem collect_destroyed {fiber : FiberId} {state : FiberState} :
    pointers.collect.destroyed fiber = some state ↔
      pointers.destroyed fiber = some state ∨
        pointers.destroyed fiber = none ∧ fiber < pointers.scheduler.created ∧
          pointers.useCount fiber = 0 ∧ pointers.scheduler.fiberState fiber = state := by
  simp only [collect]
  split
  · next found isFound => simp [isFound]
  · next notFound => simp [notFound, and_assoc]

theorem Sound.collect (sound : pointers.Sound) : pointers.collect.Sound where
  known := sound.known
  begun := sound.begun
  unborn fiber unknown := by
    rcases sound.unborn fiber unknown with ⟨nobody, destroyed⟩
    refine ⟨nobody, Option.eq_none_iff_forall_ne_some.mpr fun state found => ?_⟩
    rcases collect_destroyed.mp found with before | ⟨-, existing, -⟩
    · rw [destroyed] at before
      cases before
    · exact absurd existing (Nat.not_lt_of_le unknown)
  bodies := sound.bodies
  gone fiber state destroyed := by
    rcases collect_destroyed.mp destroyed with before | ⟨-, -, nobody, stateIs⟩
    · exact sound.gone fiber state before
    · exact ⟨nobody, stateIs⟩

theorem Sound.lt_created (sound : pointers.Sound) {fiber : FiberId}
    (inUse : 0 < pointers.useCount fiber) : fiber < pointers.scheduler.created := by
  by_contra notBelow
  rw [(sound.unborn fiber (Nat.le_of_not_lt notBelow)).1] at inUse
  cases inUse

theorem useCount_pos_of_outside {fiber : FiberId} (has : 0 < pointers.outside fiber) :
    0 < pointers.useCount fiber := by
  rw [useCount]
  omega

theorem useCount_pos_of_hand {fiber : FiberId} {w : Fin size}
    (holds : (pointers.scheduler.workers w).stage.hand = some (.fiber fiber)) :
    0 < pointers.useCount fiber := by
  have held := Scheduler.owners_pos holds
  rw [useCount]
  omega

theorem useCount_pos_of_source {fiber : FiberId} (source : 0 < pointers.outside fiber ∨
      ∃ w, (pointers.scheduler.workers w).stage.inside = some fiber) :
    0 < pointers.useCount fiber := by
  rcases source with has | ⟨w, inside⟩
  · exact useCount_pos_of_outside has
  · exact useCount_pos_of_hand (Stage.hand_of_inside inside)

theorem Sound.moved (sound : pointers.Sound) {label : Scheduler.Label Callback size}
    {next : Scheduler Callback Idle size} (sourced : pointers.Sourced label)
    (steps : Scheduler.Steps threadOf enter pointers.scheduler label next) :
    (pointers.moved label next).Sound := by
  have grows := steps.brings_cases.1
  have known := steps.known (fun entry fiber isSchedule workIs =>
    sound.lt_created (useCount_pos_of_outside (sourced entry fiber isSchedule workIs))) sound.known
  have begun := steps.stays_begun sound.known sound.begun
  constructor
  · exact known
  · exact begun
  · intro fiber unknown
    rcases sound.unborn fiber (grows.trans unknown) with ⟨nobody, destroyed⟩
    rcases useCount_eq_zero.mp nobody with ⟨nowhere, kept, outside, onStack⟩
    have sameStack : (pointers.moved label next).onStack fiber = pointers.onStack fiber :=
      stacked_other (not_held nowhere) (not_held (known fiber unknown))
    refine ⟨useCount_eq_zero.mpr ⟨known fiber unknown, kept, ?_, sameStack.trans onStack⟩,
      destroyed⟩
    cases label with
    | newFiber callback =>
        cases steps
        exact (Function.update_of_ne (Nat.ne_of_gt unknown) ..).trans outside
    | schedule | autoStop | stopping | scan | tickle | resume | swapOut | release | settle
    | leaveIdle | afterIdle => exact outside
  · exact stacked_iff steps.writes sound.begun
      (useCount_eq_zero.mp (sound.unborn _ (Nat.le_refl _)).1).2.2.2 sound.bodies
  · intro fiber state destroyed
    rcases useCount_eq_zero.mp (sound.gone fiber state destroyed).1 with ⟨-, -, -, onStack⟩
    rcases (sound.unheld destroyed).moved sourced steps with ⟨unheld, sameStack, sameState⟩
    refine ⟨useCount_eq_zero.mpr ⟨unheld.owners, unheld.kept, unheld.outside,
      sameStack.trans onStack⟩, ?_⟩
    exact sameState.trans (sound.gone fiber state destroyed).2

theorem Sound.setOutside (sound : pointers.Sound) {fiber : FiberId} (count : Nat)
    (inUse : 0 < pointers.useCount fiber) :
    Sound { pointers with outside := Function.update pointers.outside fiber count } := by
  have others : ∀ other, pointers.useCount other = 0 → useCount
      { pointers with outside := Function.update pointers.outside fiber count } other = 0 := by
    intro other nobody
    rcases useCount_eq_zero.mp nobody with ⟨owners, kept, outside, onStack⟩
    have different : other ≠ fiber := by
      rintro rfl
      rw [nobody] at inUse
      cases inUse
    refine useCount_eq_zero.mpr ⟨owners, kept, ?_, onStack⟩
    exact (Function.update_of_ne different ..).trans outside
  exact ⟨sound.known, sound.begun,
    fun other unknown => (sound.unborn other unknown).imp_left (others other), sound.bodies,
    fun other state destroyed => (sound.gone other state destroyed).imp_left (others other)⟩

theorem kept_passes {v w : Fin size} {kept : Option FiberId} {fiber : FiberId}
    (isKept : (pointers.passes w kept).kept v = some fiber) :
    kept = some fiber ∨ pointers.kept v = some fiber := by
  simp only [passes, Function.update_apply] at isKept
  split at isKept
  · exact Or.inl isKept
  · exact Or.inr isKept

/-- A worker is through with a fiber that nobody has destroyed, and keeps `ft` or not. -/
theorem Sound.passes (sound : pointers.Sound) (w : Fin size) {kept : Option FiberId}
    (existing : ∀ fiber, kept = some fiber →
      fiber < pointers.scheduler.created ∧ pointers.destroyed fiber = none) :
    (pointers.passes w kept).Sound := by
  have others : ∀ other, pointers.useCount other = 0 → kept ≠ some other →
      (pointers.passes w kept).useCount other = 0 := by
    intro other nobody different
    rcases useCount_eq_zero.mp nobody with ⟨owners, notKept, outside, onStack⟩
    exact useCount_eq_zero.mpr ⟨owners,
      fun v isKept => (kept_passes isKept).elim different (notKept v), outside, onStack⟩
  constructor
  · exact sound.known
  · exact sound.begun
  · intro other unknown
    refine (sound.unborn other unknown).imp_left fun nobody => others other nobody ?_
    exact fun isKept => absurd (existing other isKept).1 (Nat.not_lt_of_le unknown)
  · exact sound.bodies
  · intro other state destroyed
    refine (sound.gone other state destroyed).imp_left fun nobody => others other nobody ?_
    intro isKept
    exact absurd ((existing other isKept).2.symm.trans destroyed) nofun

theorem Apart.branch_steps (apart : pointers.Apart) {w : Fin size} {fiber : FiberId}
    {states : List FiberState} {next : Scheduler Callback Idle size}
    (compares : (pointers.scheduler.workers w).stage.compares = some (fiber, states))
    (branched : pointers.scheduler.branch enter w (pointers.compared w) = some next) :
    Scheduler.Steps threadOf enter pointers.scheduler
      ((pointers.scheduler.workers w).stage.branch w) next :=
  Scheduler.branch_steps compares (apart.holds w fiber states compares) branched

theorem Sound.step (sound : pointers.Sound) (apart : pointers.Apart)
    (steps : Steps threadOf enter pointers label after) : after.Sound := by
  cases steps with
  | loop allowed inner => exact (sound.moved (sourced_of_allowed allowed) inner).collect
  | compare => exact ⟨sound.known, sound.begun, sound.unborn, sound.bodies, sound.gone⟩
  | @branch w fiber states next kept compares branched keptIs =>
      have inner : Scheduler.Steps threadOf enter pointers.scheduler _ next :=
        apart.branch_steps compares branched
      have inUse := useCount_pos_of_hand (Stage.hand_of_compares compares)
      refine ((sound.moved (sourced_branch w _) inner).passes w fun other isKept => ?_).collect
      rw [keptIs other isKept]
      refine ⟨Nat.lt_of_lt_of_le (sound.lt_created inUse) inner.brings_cases.1, ?_⟩
      refine Option.eq_none_iff_forall_ne_some.mpr fun state destroyed => ?_
      rw [(sound.gone fiber state destroyed).1] at inUse
      cases inUse
  | reset w =>
      have without : (pointers.passes w none).Sound := sound.passes w nofun
      exact Sound.collect ⟨without.known, without.begun, without.unborn, without.bodies,
        without.gone⟩
  | copy source => exact sound.setOutside _ (useCount_pos_of_source source)
  | drop has => exact (sound.setOutside _ (useCount_pos_of_outside has)).collect

def Collected (pointers : Pointers Callback Idle size) : Prop :=
  ∀ fiber, fiber < pointers.scheduler.created → pointers.useCount fiber = 0 →
    pointers.destroyed fiber ≠ none

theorem collect_collected (pointers : Pointers Callback Idle size) :
    pointers.collect.Collected := by
  intro fiber existing nobody
  cases destroyed : pointers.destroyed fiber with
  | some state =>
      rw [collect_destroyed.mpr (Or.inl destroyed)]
      simp
  | none =>
      rw [collect_destroyed.mpr (Or.inr ⟨destroyed, existing, nobody, rfl⟩)]
      simp

theorem Collected.step (collected : pointers.Collected)
    (steps : Steps threadOf enter pointers label after) : after.Collected := by
  cases steps with
  | loop | branch | reset | drop => exact collect_collected _
  | compare => exact collected
  | @copy other source =>
      intro fiber existing nobody
      refine collected fiber existing ?_
      rcases useCount_eq_zero.mp nobody with ⟨owners, kept, outside, onStack⟩
      refine useCount_eq_zero.mpr ⟨owners, kept, ?_, onStack⟩
      dsimp only at outside
      by_cases same : fiber = other
      · subst same
        rw [Function.update_self] at outside
        cases outside
      · rw [Function.update_of_ne same] at outside
        exact outside

/-! ## Fibers that are lost -/

structure Lost (pointers : Pointers Callback Idle size) (fiber : FiberId) : Prop where
  unheld : pointers.Unheld fiber
  midway : (pointers.scheduler.fiberState fiber).disposable = false

theorem Unheld.passes {fiber : FiberId} (unheld : pointers.Unheld fiber) (w : Fin size)
    {kept : Option FiberId} (different : kept ≠ some fiber) :
    (pointers.passes w kept).Unheld fiber :=
  ⟨unheld.existing, unheld.owners,
    fun v isKept => (kept_passes isKept).elim different (unheld.kept v), unheld.outside⟩

theorem Unheld.setOutside {fiber other : FiberId} (unheld : pointers.Unheld fiber)
    (count : Nat) (inUse : 0 < pointers.outside other ∨
      ∃ w, (pointers.scheduler.workers w).stage.inside = some other) :
    Unheld { pointers with outside := Function.update pointers.outside other count } fiber := by
  refine ⟨unheld.existing, unheld.owners, unheld.kept, ?_⟩
  have different : fiber ≠ other := by
    rintro rfl
    rcases inUse with has | ⟨w, inside⟩
    · rw [unheld.outside] at has
      cases has
    · exact not_held unheld.owners w (Stage.hand_of_inside inside)
  exact (Function.update_of_ne different ..).trans unheld.outside

theorem Unheld.collect {fiber : FiberId} (unheld : pointers.Unheld fiber) :
    pointers.collect.Unheld fiber :=
  ⟨unheld.existing, unheld.owners, unheld.kept, unheld.outside⟩

theorem Lost.step {fiber : FiberId} (lost : pointers.Lost fiber) (apart : pointers.Apart)
    (steps : Steps threadOf enter pointers label after) : after.Lost fiber := by
  cases steps with
  | loop allowed inner =>
      rcases lost.unheld.moved (sourced_of_allowed allowed) inner with ⟨unheld, -, sameState⟩
      exact ⟨unheld.collect, (congrArg FiberState.disposable sameState).trans lost.midway⟩
  | compare =>
      have unheld := lost.unheld
      exact ⟨⟨unheld.existing, unheld.owners, unheld.kept, unheld.outside⟩, lost.midway⟩
  | @branch w other states next kept compares branched keptIs =>
      have inner : Scheduler.Steps threadOf enter pointers.scheduler _ next :=
        apart.branch_steps compares branched
      rcases lost.unheld.moved (sourced_branch w _) inner with ⟨unheld, -, sameState⟩
      refine ⟨(unheld.passes w fun isKept => ?_).collect,
        (congrArg FiberState.disposable sameState).trans lost.midway⟩
      have holds := Stage.hand_of_compares compares
      rw [← keptIs fiber isKept] at holds
      exact not_held lost.unheld.owners w holds
  | reset w =>
      have unheld : (pointers.passes w none).Unheld fiber := lost.unheld.passes w nofun
      exact ⟨⟨unheld.existing, unheld.owners, unheld.kept, unheld.outside⟩, lost.midway⟩
  | copy source => exact ⟨lost.unheld.setOutside _ source, lost.midway⟩
  | drop has => exact ⟨(lost.unheld.setOutside _ (Or.inl has)).collect, lost.midway⟩

/-! ## Runs -/

structure Held (pointers : Pointers Callback Idle size) : Prop where
  sound : pointers.Sound
  apart : pointers.Apart
  collected : pointers.Collected

theorem Held.step (held : pointers.Held) (unshared : pointers.Unshared threadOf label)
    (stepped : (machine threadOf enter).step pointers label = some after) : after.Held := by
  have steps := step_eq_some stepped
  exact ⟨held.sound.step held.apart steps, held.apart.step held.sound.known unshared steps,
    held.collected.step steps⟩

structure Disposed (threadOf : Fin size → ThreadId) (enter : Idle)
    (pointers : Pointers Callback Idle size) : Prop where
  /-- The assertion of `~Fiber` holds. -/
  asserted : ∀ fiber state, pointers.destroyed fiber = some state → state.disposable = true
  /-- A fiber is destroyed when nobody else points to it and its body has not begun or has
  ended, and not before. -/
  destroyed_iff : ∀ fiber, fiber < pointers.scheduler.created →
    (pointers.destroyed fiber ≠ none ↔
      (∀ entry ∈ pointers.scheduler.fibers, entry.work ≠ .fiber fiber) ∧
        (∀ w, (pointers.scheduler.workers w).stage.hand ≠ some (.fiber fiber)) ∧
        (∀ w, pointers.kept w ≠ some fiber) ∧ pointers.outside fiber = 0 ∧
        (pointers.scheduler.fiberState fiber).disposable = true)
  /-- A fiber that has yielded and that nobody else points to stays as it is for ever: it is
  neither resumed nor destroyed. -/
  lost : ∀ fiber, pointers.Lost fiber → ∀ labels final,
    (machine threadOf enter).StepsMeet (Unshared threadOf) pointers labels →
    (machine threadOf enter).run pointers labels = some final →
      final.Lost fiber ∧ final.destroyed fiber = none

theorem owners_eq_zero_iff {scheduler : Scheduler Callback Idle size} {fiber : FiberId} :
    scheduler.owners fiber = 0 ↔
      (∀ entry ∈ scheduler.fibers, entry.work ≠ .fiber fiber) ∧
        ∀ w, (scheduler.workers w).stage.hand ≠ some (.fiber fiber) := by
  constructor
  · intro nowhere
    refine ⟨fun entry queued workIs => ?_, not_held nowhere⟩
    have owned := Scheduler.owners_pos_of_queued queued workIs
    rw [nowhere] at owned
    cases owned
  · rintro ⟨notQueued, notHeld⟩
    rw [Scheduler.owners, Scheduler.inPlay, Nat.add_eq_zero_iff]
    constructor
    · refine total_eq_zero_iff.mpr fun entry queued => ?_
      have workIs := notQueued entry queued
      generalize entry.work = work at workIs
      cases work with
      | cb callback => rfl
      | fiber other => exact if_neg fun same : other = fiber => workIs (congrArg _ same)
    · refine total_eq_zero_iff.mpr fun w _ => ?_
      have handIs := notHeld w
      rw [Worker.handWeight]
      generalize (scheduler.workers w).stage.hand = hand at handIs
      rcases hand with _ | ⟨callback⟩ | ⟨other⟩
      · rfl
      · rfl
      · exact if_neg fun same : other = fiber => handIs (by rw [same])

theorem Sound.asserted (sound : pointers.Sound) {fiber : FiberId} {state : FiberState}
    (destroyed : pointers.destroyed fiber = some state) : state.disposable = true := by
  rcases sound.gone fiber state destroyed with ⟨nobody, rfl⟩
  exact (sound.bodies fiber).mp (useCount_eq_zero.mp nobody).2.2.2

theorem Held.disposed (held : pointers.Held) (threadOf : Fin size → ThreadId) (enter : Idle) :
    pointers.Disposed threadOf enter where
  asserted fiber state destroyed := held.sound.asserted destroyed
  destroyed_iff fiber existing := by
    have same : pointers.destroyed fiber ≠ none ↔ pointers.useCount fiber = 0 := by
      refine ⟨fun destroyed => ?_, held.collected fiber existing⟩
      rcases Option.ne_none_iff_exists'.mp destroyed with ⟨state, isDestroyed⟩
      exact (held.sound.gone fiber state isDestroyed).1
    rw [same, useCount_eq_zero, owners_eq_zero_iff, held.sound.bodies fiber]
    exact and_assoc
  lost fiber lost labels final unshared ran := by
    have always := unshared.always
      (fun pointers : Pointers Callback Idle size => pointers.Held ∧ pointers.Lost fiber)
      (fun _ _ _ both meets stepped =>
        ⟨both.1.step meets stepped, both.2.step both.1.apart (step_eq_some stepped)⟩)
      (fun _ both => both) ⟨held, lost⟩
    rcases always.last ran with ⟨heldThere, lostThere⟩
    refine ⟨lostThere, Option.eq_none_iff_forall_ne_some.mpr fun state destroyed => ?_⟩
    have disposable := heldThere.sound.asserted destroyed
    rw [← (heldThere.sound.gone fiber state destroyed).2, lostThere.midway] at disposable
    cases disposable

abbrev pair : Machine (Pointers Unit Unit 2) (Label Unit 2) :=
  machine (fun w => (w.val : Int)) ()

/-- In every interleaving in which no scan takes a fiber that another worker has not settled
yet, fibers are destroyed as soon as nobody needs them and not before, and `~Fiber` never
fails; but a fiber that yields when nobody else points to it is never seen again. -/
theorem disposed_always (threadOf : Fin size → ThreadId) (enter : Idle)
    {labels : List (Label Callback size)}
    (unshared : (machine threadOf enter).StepsMeet (Unshared threadOf) {} labels) :
    (machine threadOf enter).Always (Disposed threadOf enter)
      ({} : Pointers Callback Idle size) labels :=
  unshared.always Held (fun _ _ _ held meets stepped => held.step meets stepped)
    (fun _ held => held.disposed threadOf enter)
    ⟨.begin, .begin, fun fiber existing => absurd existing (Nat.not_lt_zero fiber)⟩

/-- A fiber yields to `READY`, and another worker ends it while the first still has it in
its `ft`: that pointer is the last one. -/
theorem disposed_always_last :
    let labels : List (Label Unit 2) :=
      [.loop (.newFiber ()), .loop (.schedule ⟨.fiber 0, -1⟩), .drop 0, .loop (.scan 0),
        .compare 0, .compare 0, .branch 0, .loop (.swapOut 0 .ready), .loop (.release 0),
        .compare 0, .branch 0, .loop (.scan 1), .compare 1, .compare 1, .branch 1,
        .loop (.swapOut 1 .finished), .loop (.release 1), .compare 1, .compare 1, .branch 1,
        .reset 1, .reset 0]
    pair.Always (Disposed (fun w => (w.val : Int)) ()) {} labels ∧
      ∃ final, pair.run {} labels = some final ∧ final.destroyed 0 = some .TERM := by
  intro labels
  refine ⟨disposed_always _ _ ?_, _, rfl, rfl⟩
  iterate 3 apply Machine.StepsMeet.cons rfl trivial
  apply Machine.StepsMeet.cons rfl (unshared_of_emptyHanded (Fin.forall_fin_two.mpr ⟨rfl, rfl⟩) _)
  iterate 7 apply Machine.StepsMeet.cons rfl trivial
  apply Machine.StepsMeet.cons rfl (unshared_of_emptyHanded (Fin.forall_fin_two.mpr ⟨rfl, rfl⟩) _)
  iterate 10 apply Machine.StepsMeet.cons rfl trivial
  exact trivial

/-- A fiber is in the queue twice, and two workers take it. The first has found it `EXEC`
and is about to hold it, when the second ends it: `~Fiber` finds it held. -/
example :
    ∃ final, pair.run {}
        [.loop (.newFiber ()), .loop (.schedule ⟨.fiber 0, -1⟩),
          .loop (.schedule ⟨.fiber 0, -1⟩), .drop 0, .loop (.scan 0), .loop (.scan 1),
          .compare 0, .compare 0, .branch 0, .loop (.swapOut 0 .hold), .loop (.release 0),
          .compare 0, .compare 0, .compare 0, .compare 1, .compare 1, .branch 1,
          .loop (.swapOut 1 .finished), .loop (.release 1), .compare 1, .compare 1, .branch 1,
          .reset 1, .branch 0, .reset 0] = some final ∧
      final.destroyed 0 = some .HOLD :=
  ⟨_, rfl, rfl⟩

/-- A callback whose body yields to `HOLD`: the fiber that the worker has made for it is
lost. -/
example :
    ∃ final, pair.run {}
        [.loop (.schedule ⟨.cb (), -1⟩), .loop (.scan 0), .loop (.resume 0),
          .loop (.swapOut 0 .hold), .loop (.release 0), .compare 0, .compare 0, .compare 0,
          .branch 0, .reset 0] = some final ∧
      final.scheduler.fiberState 0 = .HOLD ∧ final.useCount 0 = 2 ∧ final.onStack 0 = 2 :=
  ⟨_, rfl, rfl, rfl, rfl⟩

end Pointers

end Sylar.Scheduling
