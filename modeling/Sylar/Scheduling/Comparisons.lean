import Sylar.Scheduling.Custody

/-! # Comparing the state of a fiber

`run` compares `state_` of its fiber with one value after the other, before it switches to
the fiber and when it is back, and then does what they say. Where the loop has one step, a
worker takes several here; if nobody else writes the state, they come to the same.
-/

namespace Sylar.Scheduling

variable {Callback Idle : Type} {size : Nat}

/-- What a worker knows of its fiber's state: how many values it is not equal to, or the
one it is equal to. It is what the comparisons have found, and may be out of date. -/
inductive Compared
  | unequal (count : Nat)
  | equal (state : FiberState)
  deriving DecidableEq, Repr

/-- The fiber whose state the worker compares, and with what: before the switch to it, and
when it is back from it. -/
def Stage.compares : Stage Callback Idle → Option (FiberId × List FiberState)
  | .scanned (some ⟨.fiber fiber, _⟩) => some (fiber, [.TERM, .EXCET])
  | .released fiber _ => some (fiber, [.READY, .TERM, .EXCET])
  | .scanned _ | .scanning | .tickling _ | .running .. | .returned .. | .idling _ | .idled
  | .left => none

def Stage.branch (w : Fin size) : Stage Callback Idle → Scheduler.Label Callback size
  | .released .. => .settle w
  | .scanned _ | .scanning | .tickling _ | .running .. | .returned .. | .idling _ | .idled
  | .left => .resume w

theorem Stage.hand_of_compares {stage : Stage Callback Idle} {fiber : FiberId}
    {states : List FiberState} (compares : stage.compares = some (fiber, states)) :
    stage.hand = some (.fiber fiber) := by
  rcases stage with _ | _ | (_ | ⟨_ | _, _⟩) | _ | _ | _ | _ | _ | _ <;> cases compares <;> rfl

theorem Stage.branch_worker (w : Fin size) (stage : Stage Callback Idle) :
    (stage.branch w).worker = some w := by
  cases stage <;> rfl

def Compared.Holds (states : List FiberState) (state : FiberState) : Compared → Prop
  | .unequal count => ∀ other ∈ states.take count, state ≠ other
  | .equal other => other ∈ states ∧ state = other

def Compared.next (states : List FiberState) (state : FiberState) :
    Compared → Option Compared
  | .unequal count =>
      states[count]?.map fun other => if state = other then .equal other else .unequal (count + 1)
  | .equal _ => none

theorem Compared.Holds.next {states : List FiberState} {state : FiberState}
    {compared after : Compared} (holds : compared.Holds states state)
    (isNext : compared.next states state = some after) : after.Holds states state := by
  cases compared with
  | equal other => cases isNext
  | unequal count =>
      rcases Option.map_eq_some_iff.mp isNext with ⟨other, isOther, rfl⟩
      split
      · next same => exact ⟨List.mem_of_getElem? isOther, same⟩
      · next different =>
          intro earlier member
          rw [List.take_add_one, isOther, List.mem_append] at member
          rcases member with before | here
          · exact holds earlier before
          · cases List.mem_singleton.mp here
            exact different

namespace Scheduler

/-- The branch of a worker that has taken a fiber, whatever has become of the fiber since
the comparisons. -/
def resumeCompared (enter : Idle) (scheduler : Scheduler Callback Idle size) (w : Fin size)
    (fiber : FiberId) (thread : ThreadId) : Compared → Option (Scheduler Callback Idle size)
  | .equal _ => some (scheduler.nothingToRun enter w)
  | .unequal 2 => some (scheduler.swapIn w fiber thread false)
  | .unequal _ => none

def settleCompared (scheduler : Scheduler Callback Idle size) (w : Fin size)
    (fiber : FiberId) (thread : ThreadId) : Compared → Option (Scheduler Callback Idle size) :=
  let next := scheduler.setWorker w { scheduler.workers w with stage := .scanning }
  fun
  | .equal .READY => some (next.schedulerNoLock { work := .fiber fiber, thread := thread })
  | .equal _ => some next
  | .unequal 3 => some (next.setFiber fiber .HOLD)
  | .unequal _ => none

def branch (enter : Idle) (scheduler : Scheduler Callback Idle size) (w : Fin size)
    (compared : Compared) : Option (Scheduler Callback Idle size) :=
  match (scheduler.workers w).stage with
  | .scanned (some ⟨.fiber fiber, thread⟩) =>
      scheduler.resumeCompared enter w fiber thread compared
  | .released fiber thread => scheduler.settleCompared w fiber thread compared
  | _ => none

variable {scheduler next : Scheduler Callback Idle size} {threadOf : Fin size → ThreadId}
  {enter : Idle} {label : Label Callback size}

theorem resumeCompared_eq {w : Fin size} {compared : Compared} {fiber : FiberId}
    {thread : ThreadId} (holds : compared.Holds [.TERM, .EXCET] (scheduler.fiberState fiber))
    (branched : scheduler.resumeCompared enter w fiber thread compared = some next) :
    scheduler.resume enter w (some ⟨.fiber fiber, thread⟩) = next := by
  rcases compared with (_ | _ | _ | count) | other <;> cases branched
  · exact if_pos ⟨holds .TERM (by simp), holds .EXCET (by simp)⟩
  · rcases holds with ⟨member, same⟩
    refine if_neg fun live => ?_
    rw [same] at live
    simp [live.1, live.2] at member

theorem settleCompared_eq {w : Fin size} {compared : Compared} {fiber : FiberId}
    {thread : ThreadId}
    (holds : compared.Holds [.READY, .TERM, .EXCET] (scheduler.fiberState fiber))
    (branched : scheduler.settleCompared w fiber thread compared = some next) :
    scheduler.settle w fiber thread = next := by
  rcases compared with (_ | _ | _ | _ | count) | other
  · cases branched
  · cases branched
  · cases branched
  · cases branched
    rw [settle, if_neg (holds .READY (by simp)),
      if_pos ⟨holds .TERM (by simp), holds .EXCET (by simp)⟩]
  · cases branched
  · rcases holds with ⟨member, same⟩
    cases other with
    | READY | TERM | EXCET =>
        cases branched
        simp [settle, same]
    | INIT | HOLD | EXEC => simp at member

theorem Transition.worker {w : Fin size} {before after : Stage Callback Idle}
    (moves : Transition threadOf enter scheduler next w label before after) :
    label.worker = some w := by
  cases moves <;> rfl

theorem branch_steps {w : Fin size} {compared : Compared} {fiber : FiberId}
    {states : List FiberState}
    (compares : (scheduler.workers w).stage.compares = some (fiber, states))
    (holds : compared.Holds states (scheduler.fiberState fiber))
    (branched : scheduler.branch enter w compared = some next) :
    Steps threadOf enter scheduler ((scheduler.workers w).stage.branch w) next := by
  cases stageIs : (scheduler.workers w).stage with
  | scanned ft =>
      rcases ft with _ | ⟨_ | other, thread⟩ <;> rw [stageIs] at compares <;> cases compares
      rw [branch, stageIs] at branched
      rw [← resumeCompared_eq holds branched]
      exact .resume stageIs
  | released other thread =>
      rw [stageIs] at compares
      cases compares
      rw [branch, stageIs] at branched
      rw [← settleCompared_eq holds branched]
      exact .settle stageIs
  | scanning | tickling | running | returned | idling | idled | left =>
      rw [stageIs] at compares
      cases compares

end Scheduler

end Sylar.Scheduling
