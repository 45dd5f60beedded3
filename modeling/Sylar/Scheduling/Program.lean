import Mathlib.Data.Fintype.Basic
import Mathlib.Tactic.Common
import Sylar.Scheduling.Scheduler

/-! # A program that uses a scheduler

The life of a scheduler as one thread sees it: the constructor, callbacks handed
in by anyone, `start`, and `stop`, whose last act is to join the workers. The
callbacks finish, throw, or yield to `READY` on the way.
-/

namespace Sylar.Scheduling

open Foundation

/-- The arguments of the constructor, which asserts that the size is positive. -/
structure Config where
  threadPoolSize : Nat
  useCaller : Bool
  positive : 0 < threadPoolSize

/-- `threadPool_size_`: the calling thread is counted as a worker if it is used. -/
def Config.poolSize (config : Config) : Nat :=
  if config.useCaller then config.threadPoolSize - 1 else config.threadPoolSize

inductive Caller
  | constructed
  | started
  /-- In `stop`, with `auto_stop_` set. -/
  | stopping
  /-- In `stop`, with `stopping_` set. -/
  | joining
  | returned
  deriving DecidableEq, Repr

structure Program (Callback : Type) (config : Config) where
  scheduler : Scheduler Callback Unit config.poolSize
  /-- `main_thread_`, `-1` if the caller is not used. -/
  mainThread : ThreadId
  /-- `main_fiber_`. The constructor stores the caller's fiber elsewhere, in
  `root_Fiber_`, and nothing assigns this one. -/
  mainFiber : Option FiberId
  /-- `GetCurrentSch()==this` on the calling thread. -/
  current : Bool
  caller : Caller
  /-- The callbacks handed in so far. -/
  scheduled : List Callback
  /-- The callbacks that have run to their end. -/
  completed : List Callback

namespace Program

variable {Callback : Type} {config : Config}

def construct (config : Config) (callerThread : ThreadId) :
    Program Callback config where
  scheduler := { stopping := true }
  mainThread := if config.useCaller then callerThread else -1
  mainFiber := none
  current := config.useCaller
  caller := .constructed
  scheduled := []
  completed := []

inductive Label (Callback : Type) (config : Config)
  | schedule (callback : Callback)
  | start
  | callStop
  | setStopping
  | join
  | worker (label : Scheduler.Label Callback config.poolSize)

/-- The steps of the workers. A callback does not yield to `HOLD`, and `idle` of
the base class returns exactly when it finds `stopping()` true. -/
def Allowed (scheduler : Scheduler Callback Unit config.poolSize) :
    Scheduler.Label Callback config.poolSize → Bool
  | .schedule _ | .newFiber _ | .autoStop | .stopping => false
  | .swapOut _ how => how != .hold
  | .leaveIdle _ ended => ended == scheduler.isStopping
  | .scan _ | .tickle _ | .resume _ | .release _ | .settle _ | .afterIdle _ => true

def completes (scheduler : Scheduler Callback Unit config.poolSize) :
    Scheduler.Label Callback config.poolSize → Option Callback
  | .swapOut w how =>
      if how = .finished ∨ how = .threw then
        match (scheduler.workers w).stage with
        | .running fiber _ _ => scheduler.fiberCb fiber
        | _ => none
      else none
  | _ => none

def calledRightly (program : Program Callback config) : Bool :=
  if program.mainThread = -1 then !program.current else program.current

def step (threadOf : Fin config.poolSize → ThreadId) (program : Program Callback config) :
    Label Callback config → Option (Program Callback config)
  | .schedule callback =>
      if program.caller = .constructed ∨ program.caller = .started then
        some { program with
          scheduler := program.scheduler.schedulerNoLock { work := .cb callback }
          scheduled := program.scheduled ++ [callback] }
      else none
  | .start =>
      if program.caller = .constructed then
        some { program with
          scheduler := { program.scheduler with stopping := false }
          caller := .started }
      else none
  | .callStop =>
      if program.caller = .started then
        some { program with
          scheduler := { program.scheduler with autoStop := true }
          caller := .stopping }
      else none
  -- with no main fiber neither the early return nor `call` is reached
  | .setStopping =>
      if program.caller = .stopping ∧ program.mainFiber = none ∧ program.calledRightly then
        some { program with
          scheduler := { program.scheduler with stopping := true }
          caller := .joining }
      else none
  | .join =>
      if program.caller = .joining ∧
          ∀ w, (program.scheduler.workers w).stage.hasLeft = true then
        some { program with caller := .returned }
      else none
  | .worker label =>
      if program.caller ≠ .constructed ∧ Allowed program.scheduler label then
        (program.scheduler.step threadOf () label).map fun next =>
          { program with
            scheduler := next
            completed :=
              program.completed ++ (completes program.scheduler label).toList }
      else none

inductive Steps (threadOf : Fin config.poolSize → ThreadId)
    (program : Program Callback config) :
    Label Callback config → Program Callback config → Prop
  | schedule (callback : Callback)
      (before : program.caller = .constructed ∨ program.caller = .started) :
      Steps threadOf program (.schedule callback)
        { program with
          scheduler := program.scheduler.schedulerNoLock { work := .cb callback }
          scheduled := program.scheduled ++ [callback] }
  | start (callerIs : program.caller = .constructed) :
      Steps threadOf program .start
        { program with
          scheduler := { program.scheduler with stopping := false }
          caller := .started }
  | callStop (callerIs : program.caller = .started) :
      Steps threadOf program .callStop
        { program with
          scheduler := { program.scheduler with autoStop := true }
          caller := .stopping }
  | setStopping (callerIs : program.caller = .stopping) :
      Steps threadOf program .setStopping
        { program with
          scheduler := { program.scheduler with stopping := true }
          caller := .joining }
  | join (callerIs : program.caller = .joining)
      (left : ∀ w, (program.scheduler.workers w).stage.hasLeft = true) :
      Steps threadOf program .join { program with caller := .returned }
  | worker {label : Scheduler.Label Callback config.poolSize}
      {next : Scheduler Callback Unit config.poolSize}
      (started : program.caller ≠ .constructed)
      (allowed : Allowed program.scheduler label = true)
      (steps : Scheduler.Steps threadOf () program.scheduler label next) :
      Steps threadOf program (.worker label)
        { program with
          scheduler := next
          completed :=
            program.completed ++ (completes program.scheduler label).toList }

theorem step_eq_some {threadOf : Fin config.poolSize → ThreadId}
    {program next : Program Callback config} {label : Label Callback config}
    (stepped : program.step threadOf label = some next) :
    Steps threadOf program label next := by
  cases label with
  | schedule callback =>
      rcases Option.ite_none_right_eq_some.mp stepped with ⟨before, ⟨⟩⟩
      exact .schedule callback before
  | start =>
      rcases Option.ite_none_right_eq_some.mp stepped with ⟨callerIs, ⟨⟩⟩
      exact .start callerIs
  | callStop =>
      rcases Option.ite_none_right_eq_some.mp stepped with ⟨callerIs, ⟨⟩⟩
      exact .callStop callerIs
  | setStopping =>
      rcases Option.ite_none_right_eq_some.mp stepped with ⟨enabled, ⟨⟩⟩
      exact .setStopping enabled.1
  | join =>
      rcases Option.ite_none_right_eq_some.mp stepped with ⟨enabled, ⟨⟩⟩
      exact .join enabled.1 enabled.2
  | worker label =>
      rcases Option.ite_none_right_eq_some.mp stepped with ⟨enabled, moved⟩
      rcases Option.map_eq_some_iff.mp moved with ⟨scheduler, inner, ⟨⟩⟩
      exact .worker enabled.1 enabled.2 (Scheduler.step_eq_some inner)

def machine (threadOf : Fin config.poolSize → ThreadId) :
    Machine (Program Callback config) (Label Callback config) where
  step := step threadOf

end Program

end Sylar.Scheduling
