import Sylar.Foundation.Simulation
import Sylar.Scheduling.Exclusion

/-! # Leaving a fiber in two steps or in one

The run loop lets a fiber write its state and switch back in one step. The code does one
after the other, and other workers come in between. A run in which they do is a run of the
loop if a worker counts as back from its fiber as soon as the state is written.
-/

namespace Sylar.Scheduling

open Foundation

variable {Callback Idle : Type} {size : Nat}

/-! ## Workers that the others do not look at -/

namespace Scheduler

def through (change : Fin size → Worker Callback Idle → Worker Callback Idle)
    (scheduler : Scheduler Callback Idle size) : Scheduler Callback Idle size :=
  { scheduler with workers := fun v => change v (scheduler.workers v) }

variable {change : Fin size → Worker Callback Idle → Worker Callback Idle}
  {scheduler next : Scheduler Callback Idle size} {w : Fin size}
  {threadOf : Fin size → ThreadId} {enter : Idle} {label : Label Callback size}

theorem through_setWorker (unchanged : change w = id) (worker : Worker Callback Idle) :
    (scheduler.setWorker w worker).through change =
      (scheduler.through change).setWorker w worker := by
  have same : (fun v => change v (Function.update scheduler.workers w worker v)) =
      Function.update (fun v => change v (scheduler.workers v)) w worker := by
    funext v
    by_cases isWorker : v = w
    · subst isWorker
      rw [Function.update_self, Function.update_self, unchanged]
      rfl
    · rw [Function.update_of_ne isWorker, Function.update_of_ne isWorker]
  simp only [through, setWorker, same]

theorem through_workers (unchanged : change w = id) :
    (scheduler.through change).workers w = scheduler.workers w :=
  congrFun unchanged _

theorem through_scanQueue (unchanged : change w = id) :
    (scheduler.through change).scanQueue threadOf w =
      (scheduler.scanQueue threadOf w).through change := by
  simp only [scanQueue, through_workers unchanged]
  rw [show (scheduler.through change).fiberState = scheduler.fiberState from rfl,
    show (scheduler.through change).fibers = scheduler.fibers from rfl]
  split
  · rw [← through_setWorker unchanged]
    rfl
  · rw [← through_setWorker unchanged]

theorem through_nothingToRun (unchanged : change w = id) :
    (scheduler.through change).nothingToRun enter w =
      (scheduler.nothingToRun enter w).through change := by
  simp only [nothingToRun, through_workers unchanged]
  split
  · rw [← through_setWorker unchanged]
    rfl
  · split
    · rw [← through_setWorker unchanged]
    · rw [← through_setWorker unchanged]
      rfl

theorem through_swapIn (unchanged : change w = id) (fiber : FiberId) (thread : ThreadId)
    (fromCb : Bool) :
    (scheduler.through change).swapIn w fiber thread fromCb =
      (scheduler.swapIn w fiber thread fromCb).through change := by
  simp only [swapIn, through_workers unchanged]
  rw [through_setWorker unchanged]
  rfl

theorem through_resume (unchanged : change w = id) (ft : Option (FiberAnThread Callback)) :
    (scheduler.through change).resume enter w ft =
      (scheduler.resume enter w ft).through change := by
  rcases ft with _ | ⟨callback | fiber, thread⟩
  · exact through_nothingToRun unchanged
  · have commutes : ((scheduler.newFiber callback).through change).swapIn w
          scheduler.created thread true =
        ((scheduler.newFiber callback).swapIn w scheduler.created thread true).through
          change := through_swapIn unchanged ..
    exact commutes
  · simp only [resume]
    rw [show (scheduler.through change).fiberState = scheduler.fiberState from rfl]
    split
    · exact through_swapIn unchanged ..
    · exact through_nothingToRun unchanged

theorem through_settle (unchanged : change w = id) (fiber : FiberId) (thread : ThreadId) :
    (scheduler.through change).settle w fiber thread =
      (scheduler.settle w fiber thread).through change := by
  simp only [settle, through_workers unchanged]
  rw [show (scheduler.through change).fiberState = scheduler.fiberState from rfl,
    ← through_setWorker unchanged]
  split
  · rfl
  · split
    · rfl
    · rfl

theorem Steps.through (steps : Steps threadOf enter scheduler label next)
    (unchanged : ∀ w, label.worker = some w → change w = id) :
    Steps threadOf enter (scheduler.through change) label (next.through change) := by
  have stage : ∀ {w : Fin size} {stage : Stage Callback Idle}, change w = id →
      (scheduler.workers w).stage = stage →
        ((scheduler.through change).workers w).stage = stage := by
    intro w stage same stageIs
    rw [through_workers same]
    exact stageIs
  cases steps with
  | schedule entry => exact .schedule entry
  | newFiber callback => exact .newFiber callback
  | autoStop => exact .autoStop
  | stopping => exact .stopping
  | @scan w stageIs =>
      have same := unchanged w rfl
      rw [← through_scanQueue same]
      exact .scan (stage same stageIs)
  | @tickle w ft stageIs =>
      have same := unchanged w rfl
      rw [through_setWorker same, ← through_workers same]
      exact .tickle (stage same stageIs)
  | @resume w ft stageIs =>
      have same := unchanged w rfl
      rw [← through_resume same]
      exact .resume (stage same stageIs)
  | @swapOut w fiber thread fromCb how stageIs =>
      have same := unchanged w rfl
      have commutes : (scheduler.through change).swapOut w fiber thread fromCb how =
          (scheduler.swapOut w fiber thread fromCb how).through change := by
        simp only [Scheduler.swapOut, through_workers same]
        rw [through_setWorker same]
        rfl
      rw [← commutes]
      exact .swapOut how (stage same stageIs)
  | @release w fiber thread fromCb stageIs =>
      have same := unchanged w rfl
      have commutes : (scheduler.through change).release w fiber thread fromCb =
          (scheduler.release w fiber thread fromCb).through change := by
        simp only [Scheduler.release, through_workers same]
        rw [← through_setWorker same]
        rfl
      rw [← commutes]
      exact .release (stage same stageIs)
  | @settle w fiber thread stageIs =>
      have same := unchanged w rfl
      rw [← through_settle same]
      exact .settle (stage same stageIs)
  | @leaveIdle w idle ended stageIs =>
      have same := unchanged w rfl
      have commutes : (scheduler.through change).leaveIdle w ended =
          (scheduler.leaveIdle w ended).through change := by
        simp only [Scheduler.leaveIdle, through_workers same]
        rw [← through_setWorker same]
      rw [← commutes]
      exact .leaveIdle ended (stage same stageIs)
  | @afterIdle w stageIs =>
      have same := unchanged w rfl
      have commutes : (scheduler.through change).afterIdle w =
          (scheduler.afterIdle w).through change := by
        simp only [Scheduler.afterIdle, through_workers same]
        rw [← through_setWorker same]
        rfl
      rw [← commutes]
      exact .afterIdle (stage same stageIs)

/-! ## The loop with what it asserts -/

def asserts (scheduler : Scheduler Callback Idle size) : Label Callback size → Bool
  | .schedule entry => entry.fiber.all (· < scheduler.created)
  | .swapOut w how =>
      match (scheduler.workers w).stage with
      | .running fiber .. => !how.asserts || scheduler.fiberState fiber = .EXEC
      | _ => true
  | .newFiber _ | .autoStop | .stopping | .scan _ | .tickle _ | .resume _ | .release _
  | .settle _ | .leaveIdle .. | .afterIdle _ => true

def asserting (threadOf : Fin size → ThreadId) (enter : Idle) :
    Machine (Scheduler Callback Idle size) (Label Callback size) where
  step scheduler label :=
    if scheduler.asserts label then scheduler.step threadOf enter label else none

theorem Steps.step_eq (steps : Steps threadOf enter scheduler label next) :
    scheduler.step threadOf enter label = some next := by
  cases steps with
  | schedule | newFiber | autoStop | stopping => rfl
  | scan stageIs | tickle stageIs | resume stageIs | swapOut how stageIs | release stageIs
  | settle stageIs | leaveIdle ended stageIs | afterIdle stageIs =>
      simp only [Scheduler.step, stageIs]

theorem Steps.not_inside (steps : Steps threadOf enter scheduler label next)
    (isWorker : label.worker = some w) (notLeft : ∀ how, label ≠ .swapOut w how) :
    (scheduler.workers w).stage.inside = none := by
  rcases steps.stage w with ⟨other, -⟩ | moves
  · exact absurd isWorker other
  · generalize (scheduler.workers w).stage = before at moves
    generalize (next.workers w).stage = after at moves
    cases moves with
    | @swapOut fiber thread fromCb how => exact absurd rfl (notLeft how)
    | scan | tickle | nothing | start | swapIn | release | settle | leaveIdle | afterIdle => rfl

end Scheduler

/-! ## The two halves together -/

def Stage.back : Stage Callback Idle → Stage Callback Idle
  | .running fiber thread fromCb => .returned fiber thread fromCb
  | stage => stage

namespace Switching

def back (leaving : Fin size → Bool) (w : Fin size) (worker : Worker Callback Idle) :
    Worker Callback Idle :=
  if leaving w then { worker with stage := worker.stage.back } else worker

def whole (state : Switching Callback Idle size) : Scheduler Callback Idle size :=
  state.scheduler.through (back state.leaving)

def Label.whole : Label Callback size → List (Scheduler.Label Callback size)
  | .loop label => [label]
  | .leave w how => [.swapOut w how]
  | .switch _ => []

def Label.halves : Scheduler.Label Callback size → List (Label Callback size)
  | .swapOut w how => [.leave w how, .switch w]
  | label => [.loop label]

def Leavers (state : Switching Callback Idle size) : Prop :=
  ∀ w, state.leaving w = true → (state.scheduler.workers w).stage.inside ≠ none

variable {threadOf : Fin size → ThreadId} {enter : Idle}
  {state next : Switching Callback Idle size} {label : Label Callback size}

theorem back_eq_id {w : Fin size} (staying : state.leaving w = false) :
    (back state.leaving w : Worker Callback Idle → Worker Callback Idle) = id := by
  funext worker
  simp [back, staying]

theorem whole_of_stayed (scheduler : Scheduler Callback Idle size) :
    ({ scheduler := scheduler } : Switching Callback Idle size).whole = scheduler := rfl

theorem whole_workers (state : Switching Callback Idle size) (v : Fin size) :
    state.whole.workers v = back state.leaving v (state.scheduler.workers v) := rfl

theorem asserts_whole (label : Scheduler.Label Callback size)
    (notLeft : ∀ w how, label ≠ .swapOut w how) :
    state.whole.asserts label = state.Allowed label := by
  cases label with
  | swapOut w how => exact absurd rfl (notLeft w how)
  | schedule | newFiber | autoStop | stopping | scan | tickle | resume | release | settle
  | leaveIdle | afterIdle => rfl

/-! ## From two steps to one -/

theorem leave_whole {w : Fin size} {fiber : FiberId} {thread : ThreadId} {fromCb : Bool}
    {how : SwapOut} (stageIs : (state.scheduler.workers w).stage = .running fiber thread fromCb)
    (staying : state.leaving w = false)
    (executing : how.asserts = true → state.scheduler.fiberState fiber = .EXEC) :
    (state.leave w fiber how).whole = state.whole.swapOut w fiber thread fromCb how := by
  have states : (state.leave w fiber how).scheduler = state.scheduler.setFiber fiber how.state := by
    simp only [leave]
    split
    · next isHold =>
        subst isHold
        rw [Scheduler.setFiber, SwapOut.state, ← executing rfl, Function.update_eq_self]
    · rfl
  have workers : (state.leave w fiber how).whole.workers =
      Function.update state.whole.workers w
        { state.scheduler.workers w with stage := .returned fiber thread fromCb } := by
    funext v
    have leftIs : (state.leave w fiber how).whole.workers v =
        back (Function.update state.leaving w true) v (state.scheduler.workers v) := by
      rw [whole_workers, leave_workers]
      rfl
    rw [leftIs]
    by_cases isLeaver : v = w
    · subst isLeaver
      rw [Function.update_self, back, if_pos (Function.update_self ..), stageIs]
      rfl
    · rw [Function.update_of_ne isLeaver, whole_workers, back, Function.update_of_ne isLeaver]
      rfl
  have same : state.whole.workers w = state.scheduler.workers w :=
    Scheduler.through_workers (back_eq_id staying)
  rw [Scheduler.swapOut, same, Scheduler.setWorker]
  have split : (state.leave w fiber how).whole =
      { state.scheduler.setFiber fiber how.state with
        workers := (state.leave w fiber how).whole.workers } := by
    rw [← states]
    rfl
  rw [split, workers]
  rfl

theorem switch_whole {w : Fin size} {fiber : FiberId} {thread : ThreadId} {fromCb : Bool}
    (stageIs : (state.scheduler.workers w).stage = .running fiber thread fromCb)
    (isLeaving : state.leaving w = true) :
    (state.switch w fiber thread fromCb).whole = state.whole := by
  have workers : (state.switch w fiber thread fromCb).whole.workers = state.whole.workers := by
    funext v
    by_cases isLeaver : v = w
    · subst isLeaver
      simp [whole_workers, back, switch, Scheduler.setWorker, isLeaving, stageIs, Stage.back]
    · simp only [whole_workers, back, switch, Scheduler.setWorker,
        Function.update_of_ne isLeaver]
  have split : (state.switch w fiber thread fromCb).whole =
      { state.whole with workers := (state.switch w fiber thread fromCb).whole.workers } := rfl
  rw [split, workers]

theorem Leavers.step (leavers : state.Leavers) (steps : Steps threadOf enter state label next) :
    next.Leavers := by
  intro v isLeaving
  cases steps with
  | @loop inner after allowed inside =>
      have wasInside := leavers v isLeaving
      rcases inside.stage v with ⟨-, same⟩ | moves
      · rw [same]
        exact wasInside
      · generalize (state.scheduler.workers v).stage = before at moves wasInside
        generalize (after.workers v).stage = stage at moves
        cases moves with
        | swapOut => cases allowed
        | scan | tickle | nothing | start | swapIn | release | settle | leaveIdle | afterIdle =>
            exact absurd rfl wasInside
  | @leave w fiber thread fromCb how stageIs staying =>
      rw [leave_workers]
      by_cases isLeaver : v = w
      · subst isLeaver
        rw [stageIs]
        simp [Stage.inside]
      · refine leavers v ?_
        rw [← isLeaving]
        exact (Function.update_of_ne isLeaver ..).symm
  | @switch w fiber thread fromCb stageIs =>
      by_cases isLeaver : v = w
      · subst isLeaver
        simp [switch] at isLeaving
      · simp only [switch, Function.update_of_ne isLeaver] at isLeaving
        simp only [switch, Scheduler.setWorker, Function.update_of_ne isLeaver]
        exact leavers v isLeaving

theorem step_whole (leavers : state.Leavers)
    (stepped : (machine threadOf enter).step state label = some next) :
    (Scheduler.asserting threadOf enter).run state.whole label.whole = some next.whole := by
  cases label with
  | loop label =>
      rcases Option.ite_none_right_eq_some.mp stepped with ⟨allowed, moved⟩
      rcases Option.map_eq_some_iff.mp moved with ⟨after, inner, rfl⟩
      have steps := Scheduler.step_eq_some inner
      have notLeft : ∀ w how, label ≠ .swapOut w how := by
        rintro w how rfl
        cases allowed
      have unchanged : ∀ w, label.worker = some w →
          (back state.leaving w : Worker Callback Idle → Worker Callback Idle) = id := by
        intro w isWorker
        have outside := steps.not_inside isWorker (notLeft w)
        exact back_eq_id (Bool.eq_false_iff.mpr fun isLeaving => leavers w isLeaving outside)
      apply Machine.run_singleton
      refine Option.ite_none_right_eq_some.mpr ⟨?_, (steps.through unchanged).step_eq⟩
      rw [asserts_whole label notLeft]
      exact allowed
  | leave w how =>
      cases stageIs : (state.scheduler.workers w).stage <;>
        simp only [machine, step, stageIs] at stepped <;> try cases stepped
      rcases Option.ite_none_right_eq_some.mp stepped with ⟨⟨staying, executing⟩, ⟨⟩⟩
      have sameStage : (state.whole.workers w).stage = (state.scheduler.workers w).stage := by
        rw [whole, Scheduler.through_workers (back_eq_id staying)]
      apply Machine.run_singleton
      refine Option.ite_none_right_eq_some.mpr ⟨?_, ?_⟩
      · have sameState : state.whole.fiberState = state.scheduler.fiberState := rfl
        simp only [Scheduler.asserts, sameStage, stageIs, sameState]
        cases isAsserted : how.asserts with
        | true => simpa using executing isAsserted
        | false => rfl
      · simp only [Scheduler.step, sameStage, stageIs]
        exact congrArg some (leave_whole stageIs staying executing).symm
  | switch w =>
      cases stageIs : (state.scheduler.workers w).stage <;>
        simp only [machine, step, stageIs] at stepped <;> try cases stepped
      rcases Option.ite_none_right_eq_some.mp stepped with ⟨isLeaving, ⟨⟩⟩
      rw [switch_whole stageIs isLeaving]
      rfl

/-! ## From one step to two -/

theorem run_leave_then_switch {scheduler : Scheduler Callback Idle size} {w : Fin size}
    {fiber : FiberId} {thread : ThreadId} {fromCb : Bool} {how : SwapOut}
    (stageIs : (scheduler.workers w).stage = .running fiber thread fromCb)
    (executing : how.asserts = true → scheduler.fiberState fiber = .EXEC) :
    (machine threadOf enter).run { scheduler := scheduler } [.leave w how, .switch w] =
      some { scheduler := scheduler.swapOut w fiber thread fromCb how } := by
  let start : Switching Callback Idle size := { scheduler := scheduler }
  let left := start.leave w fiber how
  have stageLeft : (left.scheduler.workers w).stage = .running fiber thread fromCb := by
    rw [leave_workers]
    exact stageIs
  have isLeaving : left.leaving w = true := Function.update_self ..
  have leaves : (machine threadOf enter).step start (.leave w how) = some left := by
    have stageAtStart : (start.scheduler.workers w).stage = .running fiber thread fromCb := stageIs
    simp only [machine, step, stageAtStart]
    exact if_pos ⟨rfl, executing⟩
  have switches : (machine threadOf enter).step left (.switch w) =
      some (left.switch w fiber thread fromCb) := by
    simp only [machine, step, stageLeft]
    exact if_pos isLeaving
  have nobody : (left.switch w fiber thread fromCb).leaving = fun _ => false := by
    simp only [switch, left, leave, start, Function.update_idem]
    exact Function.update_eq_self w (fun _ : Fin size => false)
  have returned : (left.switch w fiber thread fromCb).scheduler =
      scheduler.swapOut w fiber thread fromCb how := by
    rw [← whole_of_stayed (left.switch w fiber thread fromCb).scheduler, ← nobody]
    exact (switch_whole stageLeft isLeaving).trans (leave_whole stageIs rfl executing)
  refine Option.bind_eq_some_iff.mpr ⟨left, leaves, Option.bind_eq_some_iff.mpr
    ⟨_, switches, ?_⟩⟩
  rw [← returned, ← nobody]
  rfl

theorem step_loop {scheduler after : Scheduler Callback Idle size}
    {inner : Scheduler.Label Callback size}
    (allowed : Allowed ({ scheduler := scheduler } : Switching Callback Idle size) inner = true)
    (moved : scheduler.step threadOf enter inner = some after) :
    (machine threadOf enter).step { scheduler := scheduler } (.loop inner) =
      some { scheduler := after } := by
  simp only [machine, step, moved]
  exact if_pos allowed

theorem run_halves {scheduler after : Scheduler Callback Idle size}
    {inner : Scheduler.Label Callback size}
    (stepped : (Scheduler.asserting threadOf enter).step scheduler inner = some after) :
    (machine threadOf enter).run { scheduler := scheduler } (Label.halves inner) =
      some { scheduler := after } := by
  rcases Option.ite_none_right_eq_some.mp stepped with ⟨asserted, moved⟩
  cases inner with
  | swapOut w how =>
      cases Scheduler.step_eq_some moved with
      | @swapOut w fiber thread fromCb how stageIs =>
          have executing : how.asserts = true → scheduler.fiberState fiber = .EXEC := by
            intro isAsserted
            simpa [Scheduler.asserts, stageIs, isAsserted] using asserted
          exact run_leave_then_switch stageIs executing
  | schedule | newFiber | autoStop | stopping | scan | tickle | resume | release | settle
  | leaveIdle | afterIdle =>
      exact Machine.run_singleton (step_loop asserted moved)

/-- Leaving a fiber in two steps and leaving it in one come to the same. Whatever comes
between the halves, a run is one of the loop for whoever counts a worker as back once the
state is written; and each run of the loop is one in which nothing comes between them. -/
theorem refines (threadOf : Fin size → ThreadId) (enter : Idle) :
    (∀ (labels : List (Label Callback size)) final,
      (machine threadOf enter).run {} labels = some final →
        (Scheduler.asserting threadOf enter).run {} (labels.flatMap Label.whole) =
          some final.whole) ∧
      ∀ (labels : List (Scheduler.Label Callback size)) final,
        (Scheduler.asserting threadOf enter).run {} labels = some final →
          (machine threadOf enter).run {} (labels.flatMap Label.halves) =
            some { scheduler := final } := by
  constructor
  · intro labels final ran
    have leavers : ({} : Switching Callback Idle size).Leavers := fun w isLeaving => by
      cases isLeaving
    refine Machine.run_translate whole Label.whole Leavers ?_ leavers ran
    exact fun state label next holds stepped =>
      ⟨holds.step (step_eq_some stepped), step_whole holds stepped⟩
  · intro labels final ran
    let apart (scheduler : Scheduler Callback Idle size) : Switching Callback Idle size :=
      { scheduler := scheduler }
    refine Machine.run_translate apart Label.halves (fun _ => True) ?_ trivial ran
    exact fun scheduler label next _ stepped => ⟨trivial, run_halves stepped⟩

end Switching

end Sylar.Scheduling
