import Sylar.Scheduling.Moves

/-! # Fibers that have ended

The context of a fiber whose body has returned or thrown stands in `MainFunc` behind the last
`swapOut`; to resume it once more fails the assertion there. After each resume the worker
rewrites the fiber's state, by one condition for the fibers of the queue and by another for
its idle fiber.
-/

namespace Sylar.Scheduling

open Foundation

def sole : Fin 1 := Fin.last 0

structure Resumption (Callback : Type) where
  scheduler : Scheduler Callback Unit 1
  /-- The bodies that have returned or thrown. -/
  ended : FiberId → Bool
  /-- How `idle()` has ended, if it has. -/
  idleEnded : Option SwapOut := none
  /-- `ASSERT1(false,"never come to here")` has failed. -/
  asserted : Bool := false

namespace Resumption

variable {Callback : Type}

/-! ## Steps -/

def leaveIdle (state : Resumption Callback) (how : SwapOut) : Resumption Callback :=
  let worker := state.scheduler.workers sole
  { state with
    scheduler := state.scheduler.setWorker sole
      { worker with stage := .idled, idleFiber := how.state }
    idleEnded := if how.ends then some how else none }

def swapOut (state : Resumption Callback) (fiber : FiberId) (thread : ThreadId) (fromCb : Bool)
    (how : SwapOut) : Resumption Callback :=
  { state with
    scheduler := state.scheduler.swapOut sole fiber thread fromCb how
    ended := Function.update state.ended fiber how.ends }

def endedIn (state : Resumption Callback) (next : Scheduler Callback Unit 1) : FiberId → Bool :=
  if next.created = state.scheduler.created then state.ended
  else Function.update state.ended state.scheduler.created false

def enters (ended : FiberId → Bool) (idleEnded : Option SwapOut) : Stage Callback Unit → Bool
  | .running fiber _ _ => ended fiber
  | .idling _ => idleEnded.isSome
  | .scanning | .tickling _ | .scanned _ | .returned .. | .released .. | .idled | .left => false

/-- Any other step. It is the step of a resume that calls `swapIn`. -/
def follow (state : Resumption Callback) (label : Scheduler.Label Callback 1)
    (next : Scheduler Callback Unit 1) : Resumption Callback :=
  { state with
    scheduler := next
    ended := state.endedIn next
    asserted := state.asserted ||
      match label with
      | .resume _ => enters (state.endedIn next) state.idleEnded (next.workers sole).stage
      | _ => false }

inductive Label (Callback : Type)
  | loop (label : Scheduler.Label Callback 1)
  | swapOut (how : SwapOut)
  | leaveIdle (how : SwapOut)

def Allowed : Scheduler.Label Callback 1 → Bool
  | .swapOut .. | .leaveIdle .. => false
  | .schedule _ | .newFiber _ | .autoStop | .stopping | .scan _ | .tickle _ | .resume _
  | .release _ | .settle _ | .afterIdle _ => true

def step (threadOf : Fin 1 → ThreadId) (state : Resumption Callback) :
    Label Callback → Option (Resumption Callback)
  | .loop label =>
      if Allowed label then
        (state.scheduler.step threadOf () label).map (state.follow label)
      else none
  | .swapOut how =>
      match (state.scheduler.workers sole).stage with
      | .running fiber thread fromCb => some (state.swapOut fiber thread fromCb how)
      | _ => none
  | .leaveIdle how =>
      match (state.scheduler.workers sole).stage with
      | .idling _ => some (state.leaveIdle how)
      | _ => none

inductive Steps (threadOf : Fin 1 → ThreadId) (state : Resumption Callback) :
    Label Callback → Resumption Callback → Prop
  | loop {label : Scheduler.Label Callback 1} {next : Scheduler Callback Unit 1}
      (allowed : Allowed label = true)
      (steps : Scheduler.Steps threadOf () state.scheduler label next) :
      Steps threadOf state (.loop label) (state.follow label next)
  | swapOut {fiber : FiberId} {thread : ThreadId} {fromCb : Bool} (how : SwapOut)
      (stageIs : (state.scheduler.workers sole).stage = .running fiber thread fromCb) :
      Steps threadOf state (.swapOut how) (state.swapOut fiber thread fromCb how)
  | leaveIdle (how : SwapOut) (stageIs : (state.scheduler.workers sole).stage = .idling ()) :
      Steps threadOf state (.leaveIdle how) (state.leaveIdle how)

variable {threadOf : Fin 1 → ThreadId} {state next : Resumption Callback}
  {label : Label Callback}

theorem step_eq_some (stepped : step threadOf state label = some next) :
    Steps threadOf state label next := by
  cases label with
  | loop label =>
      rcases Option.ite_none_right_eq_some.mp stepped with ⟨allowed, moved⟩
      rcases Option.map_eq_some_iff.mp moved with ⟨scheduler, inner, rfl⟩
      exact .loop allowed (Scheduler.step_eq_some inner)
  | swapOut how =>
      cases stageIs : (state.scheduler.workers sole).stage <;>
        simp only [step, stageIs] at stepped <;> cases stepped
      exact .swapOut how stageIs
  | leaveIdle how =>
      cases stageIs : (state.scheduler.workers sole).stage <;>
        simp only [step, stageIs] at stepped <;> cases stepped
      exact .leaveIdle how stageIs

def machine (threadOf : Fin 1 → ThreadId) :
    Machine (Resumption Callback) (Label Callback) where
  step := step threadOf

/-- Where `idle` returns or yields to `HOLD`, as the base class's does, the idle fiber leaves
it as in the loop without exceptions. -/
theorem leaveIdle_scheduler {how : SwapOut} (regular : how = .finished ∨ how = .hold)
    (executing : (state.scheduler.workers sole).idleFiber = .EXEC) :
    (state.leaveIdle how).scheduler = state.scheduler.leaveIdle sole how.ends := by
  rcases regular with rfl | rfl
  · rfl
  · rw [leaveIdle, Scheduler.leaveIdle]
    simp [SwapOut.ends, SwapOut.state, executing]

/-! ## What is not resumed -/

/-- Before the loop: any queue, and fibers that have ended according to their states. -/
def start (scheduler : Scheduler Callback Unit 1) : Resumption Callback where
  scheduler := { scheduler with workers := fun _ => {} }
  ended fiber :=
    decide (scheduler.fiberState fiber = .TERM ∨ scheduler.fiberState fiber = .EXCET)

def Quiet (state : Resumption Callback) : Prop :=
  state.asserted = false

structure Sound (state : Resumption Callback) : Prop where
  fibers : ∀ fiber, state.ended fiber = false ↔ state.scheduler.Live fiber
  ends : ∀ how, state.idleEnded = some how → how.ends = true
  idle : state.idleEnded = some .finished → (state.scheduler.workers sole).idleFiber = .TERM

def Nothing (scheduler : Scheduler Callback Unit 1) (ft : Option (FiberAnThread Callback)) : Prop :=
  ∀ entry ∈ ft, ∃ fiber, entry.work = .fiber fiber ∧ ¬scheduler.Live fiber

def ComesToIdle (scheduler : Scheduler Callback Unit 1) : Prop :=
  ∃ ft, (scheduler.workers sole).stage = .scanned ft ∧ Nothing scheduler ft ∧
    (scheduler.workers sole).isActivate = false ∧ (scheduler.workers sole).idleFiber ≠ .TERM

/-- The worker does not come to its idle fiber once `idle()` has thrown. -/
def Spares (state : Resumption Callback) : Label Callback → Prop
  | .loop (.resume _) => state.idleEnded = some .threw → ¬ComesToIdle state.scheduler
  | .loop _ | .swapOut _ | .leaveIdle _ => True

theorem start_sound (scheduler : Scheduler Callback Unit 1) : (start scheduler).Sound where
  fibers fiber := by simp [start, Scheduler.Live]
  ends how isEnded := by cases isEnded
  idle isEnded := by cases isEnded

theorem live_state_iff (how : SwapOut) :
    (how.state ≠ .TERM ∧ how.state ≠ .EXCET) ↔ how.ends = false := by
  cases how <;> simp [SwapOut.state, SwapOut.ends]

theorem Sound.endedIn (sound : state.Sound) {label : Scheduler.Label Callback 1}
    {next : Scheduler Callback Unit 1}
    (steps : Scheduler.Steps threadOf () state.scheduler label next)
    (notLeft : ∀ w how, label ≠ .swapOut w how) (fiber : FiberId) :
    state.endedIn next fiber = false ↔ next.Live fiber := by
  rw [Resumption.endedIn]
  rcases steps.live_cases notLeft with ⟨same, live⟩ | ⟨more, liveNew, live⟩
  · rw [if_pos same, live]
    exact sound.fibers fiber
  · rw [if_neg (by omega)]
    by_cases isNew : fiber = state.scheduler.created
    · subst isNew
      rw [Function.update_self]
      exact iff_of_true rfl liveNew
    · rw [Function.update_of_ne isNew, live fiber isNew]
      exact sound.fibers fiber

theorem enters_nothingToRun (state : Resumption Callback) {ft : Option (FiberAnThread Callback)}
    (stageIs : (state.scheduler.workers sole).stage = .scanned ft)
    (nothing : Nothing state.scheduler ft) (ended : FiberId → Bool) :
    enters ended state.idleEnded
        ((state.scheduler.nothingToRun () sole).workers sole).stage = true ↔
      state.idleEnded.isSome = true ∧ ComesToIdle state.scheduler := by
  have comes : ComesToIdle state.scheduler ↔ (state.scheduler.workers sole).isActivate = false ∧
      (state.scheduler.workers sole).idleFiber ≠ .TERM := by
    constructor
    · rintro ⟨_, -, -, idle⟩
      exact idle
    · intro idle
      exact ⟨ft, stageIs, nothing, idle⟩
  rw [comes, Scheduler.nothingToRun]
  by_cases active : (state.scheduler.workers sole).isActivate = true
  · simp [active, Scheduler.setWorker, enters]
  · by_cases isTerm : (state.scheduler.workers sole).idleFiber = .TERM
    · simp [active, isTerm, Scheduler.setWorker, enters]
    · simp [active, isTerm, Scheduler.setWorker, enters]

theorem not_comesToIdle {scheduler : Scheduler Callback Unit 1}
    {ft : Option (FiberAnThread Callback)} (stageIs : (scheduler.workers sole).stage = .scanned ft)
    (something : ¬Nothing scheduler ft) : ¬ComesToIdle scheduler := by
  rintro ⟨other, isOther, nothing, -⟩
  rw [stageIs] at isOther
  cases isOther
  exact something nothing

/-- If `idle()` has returned then the worker leaves its loop and does not come to it. -/
theorem Sound.isSome_idleEnded_iff (sound : state.Sound) (comes : ComesToIdle state.scheduler) :
    state.idleEnded.isSome = true ↔ state.idleEnded = some .threw := by
  rcases comes with ⟨-, -, -, -, notTerm⟩
  cases ended : state.idleEnded with
  | none => simp
  | some how =>
      cases how with
      | finished => exact absurd (sound.idle ended) notTerm
      | threw => simp
      | ready | hold => exact absurd (sound.ends _ ended) (by decide)

theorem Sound.enters_running (sound : state.Sound) {ft : Option (FiberAnThread Callback)}
    (stageIs : (state.scheduler.workers sole).stage = .scanned ft)
    (something : ¬Nothing state.scheduler ft) {fiber : FiberId} {thread : ThreadId}
    {fromCb : Bool}
    (entered : ((state.scheduler.resume () sole ft).workers sole).stage =
      .running fiber thread fromCb)
    (live : (state.scheduler.resume () sole ft).Live fiber) :
    enters (state.endedIn (state.scheduler.resume () sole ft)) state.idleEnded
        ((state.scheduler.resume () sole ft).workers sole).stage = true ↔
      state.idleEnded = some .threw ∧ ComesToIdle state.scheduler := by
  have steps : Scheduler.Steps (fun _ => 0) () state.scheduler (.resume sole)
      (state.scheduler.resume () sole ft) := .resume stageIs
  have notEnded := (sound.endedIn steps (by simp) fiber).mpr live
  rw [entered, enters, notEnded]
  exact iff_of_false Bool.false_ne_true fun both => not_comesToIdle stageIs something both.2

/-- The fiber that a resume changes to has not ended, unless it is the idle fiber and `idle()`
has thrown. -/
theorem Sound.enters_resume (sound : state.Sound) {ft : Option (FiberAnThread Callback)}
    (stageIs : (state.scheduler.workers sole).stage = .scanned ft) :
    enters (state.endedIn (state.scheduler.resume () sole ft)) state.idleEnded
        ((state.scheduler.resume () sole ft).workers sole).stage = true ↔
      state.idleEnded = some .threw ∧ ComesToIdle state.scheduler := by
  have idle (nothing : Nothing state.scheduler ft) :
      enters (state.endedIn (state.scheduler.nothingToRun () sole)) state.idleEnded
          ((state.scheduler.nothingToRun () sole).workers sole).stage = true ↔
        state.idleEnded = some .threw ∧ ComesToIdle state.scheduler := by
    rw [state.enters_nothingToRun stageIs nothing]
    exact and_congr_left sound.isSome_idleEnded_iff
  rcases ft with _ | ⟨callback | fiber, thread⟩
  · exact idle fun entry member => by cases member
  · refine sound.enters_running stageIs ?_ rfl ?_
    · intro nothing
      rcases nothing _ rfl with ⟨fiber, isFiber, -⟩
      cases isFiber
    · simp [Scheduler.resume, Scheduler.Live, Scheduler.swapIn, Scheduler.setWorker,
        Scheduler.setFiber]
  · by_cases live : state.scheduler.Live fiber
    · have resumes : state.scheduler.resume () sole (some ⟨.fiber fiber, thread⟩) =
          state.scheduler.swapIn sole fiber thread false := if_pos live
      refine sound.enters_running stageIs ?_ (congrArg (fun next => (next.workers sole).stage)
        resumes) ?_
      · intro nothing
        rcases nothing _ rfl with ⟨other, isOther, dead⟩
        cases isOther
        exact dead live
      · rw [resumes]
        simp [Scheduler.Live, Scheduler.swapIn, Scheduler.setWorker, Scheduler.setFiber]
    · have resumes : state.scheduler.resume () sole (some ⟨.fiber fiber, thread⟩) =
          state.scheduler.nothingToRun () sole := if_neg live
      rw [resumes]
      exact idle fun entry member => by cases member; exact ⟨fiber, rfl, live⟩

theorem Sound.follow (sound : state.Sound) {label : Scheduler.Label Callback 1}
    {next : Scheduler Callback Unit 1} (allowed : Allowed label = true)
    (steps : Scheduler.Steps threadOf () state.scheduler label next) :
    (state.follow label next).Sound where
  fibers := sound.endedIn steps fun w how isSwapOut => by
    rw [isSwapOut] at allowed
    cases allowed
  ends := sound.ends
  idle returned := steps.idleFiber_term sole (sound.idle returned)

theorem Sound.swapOut (sound : state.Sound) (fiber : FiberId) (thread : ThreadId)
    (fromCb : Bool) (how : SwapOut) : (state.swapOut fiber thread fromCb how).Sound where
  fibers other := by
    simp only [Resumption.swapOut, Scheduler.swapOut, Scheduler.Live, Scheduler.setWorker,
      Scheduler.setFiber]
    by_cases same : other = fiber
    · subst same
      rw [Function.update_self, Function.update_self]
      exact (live_state_iff how).symm
    · rw [Function.update_of_ne same, Function.update_of_ne same]
      exact sound.fibers other
  ends := sound.ends
  idle := by
    intro returned
    simp only [Resumption.swapOut, Scheduler.swapOut, Scheduler.setWorker, Function.update_self]
    exact sound.idle returned

theorem Sound.leaveIdle (sound : state.Sound) (how : SwapOut) : (state.leaveIdle how).Sound where
  fibers := sound.fibers
  ends other isOther := by
    rcases Option.ite_none_right_eq_some.mp isOther with ⟨ends, isHow⟩
    cases isHow
    exact ends
  idle returned := by
    rcases Option.ite_none_right_eq_some.mp returned with ⟨-, isHow⟩
    cases isHow
    simp [Resumption.leaveIdle, Scheduler.setWorker, SwapOut.state]

theorem Sound.step (sound : state.Sound) (stepped : step threadOf state label = some next) :
    next.Sound := by
  cases step_eq_some stepped with
  | loop allowed steps => exact sound.follow allowed steps
  | swapOut how => exact sound.swapOut _ _ _ how
  | leaveIdle how => exact sound.leaveIdle how

/-- A step fails the assertion if it resumes the idle fiber after `idle()` has thrown. -/
theorem Sound.quiet_iff (sound : state.Sound) (quiet : state.Quiet)
    (stepped : Resumption.step threadOf state label = some next) :
    next.Quiet ↔ state.Spares label := by
  rw [Quiet] at quiet ⊢
  cases step_eq_some stepped with
  | swapOut | leaveIdle => exact iff_of_true quiet trivial
  | @loop label next allowed steps =>
      cases steps with
      | schedule | newFiber | autoStop | stopping | scan | tickle | release | settle | afterIdle
      | swapOut | leaveIdle =>
          refine iff_of_true ?_ trivial
          exact (Bool.or_false _).trans quiet
      | @resume w ft stageIs =>
          have isSole : w = sole := Subsingleton.elim w sole
          subst isSole
          have entered := sound.enters_resume stageIs
          simp only [Resumption.follow, quiet, Bool.false_or, Spares]
          rw [← Bool.not_eq_true, entered, not_and]

/-- Whatever the queue and the bodies do, a fiber that has ended is not resumed exactly if the
worker does not come to its idle fiber once `idle()` has thrown. -/
theorem never_here_iff (threadOf : Fin 1 → ThreadId) (scheduler : Scheduler Callback Unit 1)
    (labels : List (Label Callback)) :
    (machine threadOf).Always Quiet (start scheduler) labels ↔
      (machine threadOf).StepsMeet Spares (start scheduler) labels := by
  have initially : (start scheduler).Quiet := rfl
  apply Machine.always_iff_stepsMeet Sound ?_ ?_ (start_sound scheduler) initially
  · intro state label next sound _ _ stepped
    exact sound.step stepped
  · intro state label next sound quiet stepped
    exact sound.quiet_iff quiet stepped

/-- `idle()` throws, and the worker finds nothing to run once more. -/
theorem never_here_iff_fails :
    ¬(machine fun _ => 1).Always Quiet (start ({} : Scheduler Unit Unit 1))
      [.loop (.scan 0), .loop (.resume 0), .leaveIdle .threw, .loop (.afterIdle 0),
        .loop (.scan 0), .loop (.resume 0)] := by
  intro always
  have quiet := always.last rfl
  cases quiet

end Resumption

end Sylar.Scheduling
