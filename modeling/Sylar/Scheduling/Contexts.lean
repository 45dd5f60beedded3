import Mathlib.Logic.Function.Basic
import Mathlib.Tactic.Common
import Sylar.Foundation.Machine
import Sylar.Scheduling.Scheduler

/-! # Where a fiber gives control back to

The fibers of one thread, resumed from the thread's own context by `call` or by `swapIn`. The
first saves this context in the thread's own `Fiber`, the second in the main fiber of the
scheduler. A yield always goes to the main fiber, and the end of a body to where its entry
function says.
-/

namespace Sylar.Scheduling

open Foundation

/-! ## State -/

/-- A `Fiber*`: the `Fiber` of the thread's own context, or one with a body. -/
inductive Pointer
  | threadFiber
  | fiber (id : FiberId)
deriving DecidableEq, Repr

inductive EntryFunc
  | mainFunc
  | backExternFunc
deriving DecidableEq, Repr

inductive Contex
  | made (func : EntryFunc)
  /-- Saved by a yield in the body of the fiber. -/
  | yielded
  /-- Saved by the last switch of the entry function. -/
  | ended
  /-- The thread's own context, saved by the resume with this number. -/
  | own (number : Nat)
deriving DecidableEq, Repr

structure Arrival where
  fiber : FiberId
  pointer : Option Pointer
  contex : Option Contex
deriving DecidableEq, Repr

structure Setting where
  mainFiber : Option Pointer
  useColler : FiberId → Bool

/-- What the numbers, the resets and the arrival say is not stored in the code: it is kept to
speak about runs. -/
structure Control where
  contex : Pointer → Contex
  state : FiberId → FiberState := fun _ => .INIT
  /-- `Current_Fiber`. -/
  currentFiber : Option Pointer := some .threadFiber
  /-- The fiber whose body is executed; none for the thread's own code. -/
  running : Option FiberId := none
  /-- The entry function that runs the body of a fiber. -/
  func : FiberId → EntryFunc
  /-- The contexts of the thread that were saved. -/
  saves : Nat := 1
  /-- The number that the most recent resume of a fiber has saved. -/
  saved : FiberId → Nat := fun _ => 0
  wasReset : FiberId → Bool := fun _ => false
  /-- The fibers that were reset since the last resume. -/
  resetSince : List FiberId := []
  /-- Where the last step has switched to, if a fiber has given up control. -/
  arrival : Option Arrival := none
  crashed : Bool := false

def Setting.entryFunc (setting : Setting) (fiber : FiberId) : EntryFunc :=
  if setting.useColler fiber then .backExternFunc else .mainFunc

namespace Control

def start (setting : Setting) : Control where
  contex
    | .threadFiber => .own 0
    | .fiber fiber => .made (setting.entryFunc fiber)
  func := setting.entryFunc

/-! ## Switches -/

/-- The context is taken up. Behind the last switch of an entry function an assertion fails;
the `Fiber` of the thread has no body. -/
def load (control : Control) (pointer : Pointer) : Control :=
  match control.contex pointer, pointer with
  | .own _, _ => { control with running := none }
  | .made func, .fiber fiber =>
      { control with
        running := some fiber
        func := Function.update control.func fiber func }
  | .yielded, .fiber fiber => { control with running := some fiber }
  | .ended, _ | .made _, .threadFiber | .yielded, .threadFiber => { control with crashed := true }

def save (control : Control) (slot : Pointer) (fiber : FiberId) : Control :=
  { control with
    currentFiber := some (.fiber fiber)
    state := Function.update control.state fiber .EXEC
    contex := Function.update control.contex slot (.own control.saves)
    saves := control.saves + 1
    saved := Function.update control.saved fiber control.saves
    resetSince := []
    arrival := none }

/-- The thread's own code resumes a fiber and is saved in a `contex_`. -/
def enter (control : Control) (slot : Pointer) (fiber : FiberId) : Control :=
  (control.save slot fiber).load (.fiber fiber)

def swapIn (control : Control) (setting : Setting) (fiber : FiberId) : Control :=
  match setting.mainFiber with
  | some main => control.enter main fiber
  | none =>
      { control with
        currentFiber := some (.fiber fiber)
        state := Function.update control.state fiber .EXEC
        arrival := none
        crashed := true }

def call (control : Control) (fiber : FiberId) : Control :=
  control.enter .threadFiber fiber

def giveUp (control : Control) (fiber : FiberId) (left : Contex) (target : Option Pointer) :
    Control :=
  let contex := Function.update control.contex (.fiber fiber) left
  { control with
    currentFiber := target
    contex := contex
    arrival := some { fiber := fiber, pointer := target, contex := target.map contex } }

def switchTo (control : Control) (fiber : FiberId) (left : Contex) (target : Option Pointer) :
    Control :=
  match target with
  | some pointer => (control.giveUp fiber left target).load pointer
  | none => { control.giveUp fiber left target with crashed := true }

def swapOut (control : Control) (setting : Setting) (fiber : FiberId) (left : Contex) : Control :=
  control.switchTo fiber left setting.mainFiber

def back (control : Control) (fiber : FiberId) (left : Contex) : Control :=
  control.switchTo fiber left (some .threadFiber)

def setState (control : Control) (fiber : FiberId) (state : FiberState) : Control :=
  { control with state := Function.update control.state fiber state }

/-- `YieldToReady` and `YieldToHold`, which assert that the current fiber is executing. -/
def yieldTo (control : Control) (setting : Setting) (how : SwapOut) : Option Control :=
  match control.currentFiber with
  | some (.fiber cur) =>
      if control.state cur = .EXEC then
        some ((control.setState cur how.state).swapOut setting cur .yielded)
      else none
  | _ => none

def complete (control : Control) (setting : Setting) (cur : FiberId) (how : SwapOut) : Control :=
  match control.func cur with
  | .mainFunc => (control.setState cur how.state).swapOut setting cur .ended
  | .backExternFunc => (control.setState cur how.state).back cur .ended

/-- `reset` always takes `MainFunc`. -/
def remake (control : Control) (fiber : FiberId) : Control :=
  { control with
    contex := Function.update control.contex (.fiber fiber) (.made .mainFunc)
    state := Function.update control.state fiber .INIT
    wasReset := Function.update control.wasReset fiber true
    resetSince := fiber :: control.resetSince
    arrival := none }

def reset (control : Control) (fiber : FiberId) : Option Control :=
  if control.state fiber = .INIT ∨ control.state fiber = .TERM then some (control.remake fiber)
  else none

def resume (control : Control) (setting : Setting) (fiber : FiberId) : Control :=
  if setting.useColler fiber then control.call fiber else control.swapIn setting fiber

/-! ## Runs -/

inductive Label
  | resume (fiber : FiberId)
  | leave (how : SwapOut)
  | reset (fiber : FiberId)

/-- Fibers are resumed from the thread's own code. -/
def step (setting : Setting) (control : Control) : Label → Option Control
  | .resume fiber =>
      if control.crashed = false ∧ control.running = none then
        some (control.resume setting fiber)
      else none
  | .leave how =>
      match control.crashed, control.running with
      | false, some fiber =>
          match how with
          | .ready | .hold => control.yieldTo setting how
          | .finished | .threw => some (control.complete setting fiber how)
      | _, _ => none
  | .reset fiber => if control.crashed = false then control.reset fiber else none

def machine (setting : Setting) : Machine Control Label where
  step := step setting

/-- A fiber that gives up control switches to the context that its most recent resume has
saved, and the fiber with this context is then the current one. -/
def Returned (control : Control) : Prop :=
  ∀ arrival, control.arrival = some arrival →
    arrival.contex = some (.own (control.saved arrival.fiber)) ∧
      control.currentFiber = arrival.pointer

/-- Where the fiber switches to is where its resume has saved. The main fiber has what was
saved there unless it was reset in between. -/
def Matches (setting : Setting) (control : Control) : Label → Prop
  | .leave how => ∀ fiber, control.running = some fiber →
      setting.mainFiber = some .threadFiber ∨
      (setting.useColler fiber = false ∧
        ∀ main, setting.mainFiber = some (.fiber main) → main ∉ control.resetSince) ∨
      (how.ends = true ∧ setting.useColler fiber = true ∧ control.wasReset fiber = false)
  | .resume _ | .reset _ => True

/-! ## What is known of a run -/

def slotOf (setting : Setting) (fiber : FiberId) : Option Pointer :=
  if setting.useColler fiber then some .threadFiber else setting.mainFiber

def entryOf (setting : Setting) (control : Control) (fiber : FiberId) : EntryFunc :=
  if setting.useColler fiber = true ∧ control.wasReset fiber = false then .backExternFunc
  else .mainFunc

def targetOf (setting : Setting) (control : Control) (fiber : FiberId) (how : SwapOut) :
    Option Pointer :=
  if how.ends = true ∧ control.entryOf setting fiber = .backExternFunc then some .threadFiber
  else setting.mainFiber

/-- The fiber was not reset since the last resume. -/
def Kept (control : Control) (pointer : Pointer) : Prop :=
  ∀ fiber, pointer = .fiber fiber → fiber ∉ control.resetSince

structure Inside (setting : Setting) (control : Control) (fiber : FiberId) : Prop where
  current : control.currentFiber = some (.fiber fiber)
  executing : control.state fiber = .EXEC
  apart : ∃ slot, slotOf setting fiber = some slot ∧ slot ≠ .fiber fiber
  holds : ∀ pointer, control.contex pointer = .own (control.saved fiber) ↔
    slotOf setting fiber = some pointer ∧ control.Kept pointer

/-- What is stored in a `contex_` is from the past, and belongs to the last entry function. -/
def Fits (setting : Setting) (control : Control) (pointer : Pointer) : Contex → Prop
  | .own number => number < control.saves
  | .made func => ∀ fiber, pointer = .fiber fiber → func = control.entryOf setting fiber
  | .yielded => ∀ fiber, pointer = .fiber fiber →
      control.func fiber = control.entryOf setting fiber
  | .ended => True

structure Sound (setting : Setting) (control : Control) : Prop where
  fits : ∀ pointer, control.Fits setting pointer (control.contex pointer)
  func : ∀ fiber, control.running = some fiber →
    control.func fiber = control.entryOf setting fiber
  inside : ∀ fiber, control.running = some fiber → control.Inside setting fiber

variable {setting : Setting} {control next : Control} {label : Label}

theorem Sound.of_stopped (fits : ∀ pointer, control.Fits setting pointer (control.contex pointer))
    (stopped : control.running = none) : control.Sound setting where
  fits := fits
  func fiber isRunning := by
    rw [stopped] at isRunning
    cases isRunning
  inside fiber isRunning := by
    rw [stopped] at isRunning
    cases isRunning

theorem Sound.fits_contex (sound : control.Sound setting) {pointer : Pointer} {contex : Contex}
    (contexIs : control.contex pointer = contex) : control.Fits setting pointer contex := by
  rw [← contexIs]
  exact sound.fits pointer

theorem start_sound (setting : Setting) : (start setting).Sound setting := by
  refine .of_stopped (fun pointer => ?_) rfl
  cases pointer with
  | threadFiber => exact Nat.one_pos
  | fiber fiber =>
      intro other isFiber
      cases isFiber
      simp [entryOf, Setting.entryFunc, start]

/-! ## Resumes -/

theorem load_eq (control : Control) (pointer : Pointer) :
    ∃ running func crashed, control.load pointer =
      { control with running := running, func := func, crashed := crashed } := by
  unfold load
  split <;> exact ⟨_, _, _, rfl⟩

theorem load_own {pointer : Pointer} {number : Nat}
    (isOwn : control.contex pointer = .own number) :
    control.load pointer = { control with running := none } := by
  simp only [load, isOwn]

theorem Fits.load {pointer : Pointer} {contex : Contex}
    (fits : control.Fits setting pointer contex) {fiber : FiberId} :
    Fits setting
      { control with
        running := some fiber
        func := Function.update control.func fiber (control.entryOf setting fiber) }
      pointer contex := by
  cases contex with
  | own | made | ended => exact fits
  | yielded =>
      intro other isFiber
      by_cases same : other = fiber
      · subst same
        exact Function.update_self _ _ _
      · exact (Function.update_of_ne same _ _).trans (fits other isFiber)

theorem Sound.load (sound : control.Sound setting) {fiber : FiberId}
    (inside : (∀ number, control.contex (.fiber fiber) ≠ .own number) →
      control.Inside setting fiber)
    (alive : (control.load (.fiber fiber)).crashed = false) :
    (control.load (.fiber fiber)).Sound setting := by
  cases contexIs : control.contex (.fiber fiber) with
  | own number =>
      rw [load_own contexIs]
      exact .of_stopped sound.fits rfl
  | ended =>
      simp [Control.load, contexIs] at alive
  | yielded =>
      have entered := inside (by simp [contexIs])
      have loaded : control.load (.fiber fiber) = { control with running := some fiber } := by
        simp only [Control.load, contexIs]
      rw [loaded]
      refine { sound with func := ?_, inside := ?_ }
      · intro other isRunning
        cases isRunning
        exact sound.fits_contex contexIs fiber rfl
      · intro other isRunning
        cases isRunning
        exact { entered with }
  | made func =>
      have entered := inside (by simp [contexIs])
      have loaded : control.load (.fiber fiber) =
          { control with
            running := some fiber
            func := Function.update control.func fiber func } := by
        simp only [Control.load, contexIs]
      have byEntry : func = control.entryOf setting fiber :=
        sound.fits_contex contexIs fiber rfl
      rw [loaded, byEntry]
      refine { sound with fits := ?_, func := ?_, inside := ?_ }
      · exact fun pointer => (sound.fits pointer).load
      · intro other isRunning
        cases isRunning
        exact Function.update_self _ _ _
      · intro other isRunning
        cases isRunning
        exact { entered with }

theorem Fits.save {pointer slot : Pointer} {contex : Contex} {fiber : FiberId}
    (fits : control.Fits setting pointer contex) :
    (control.save slot fiber).Fits setting pointer contex := by
  cases contex with
  | own number => exact Nat.lt_succ_of_lt fits
  | made | yielded | ended => exact fits

theorem Sound.save (sound : control.Sound setting) (stopped : control.running = none)
    (slot : Pointer) (fiber : FiberId) : (control.save slot fiber).Sound setting := by
  refine .of_stopped ?_ stopped
  refine (Function.forall_update_iff _ _).mpr ⟨Nat.lt_succ_self _, fun pointer _ => ?_⟩
  exact (sound.fits pointer).save

theorem Sound.inside_save (sound : control.Sound setting) {slot : Pointer} {fiber : FiberId}
    (slotIs : slotOf setting fiber = some slot)
    (notOwn : ∀ number, (control.save slot fiber).contex (.fiber fiber) ≠ .own number) :
    (control.save slot fiber).Inside setting fiber where
  current := rfl
  executing := Function.update_self _ _ _
  apart := by
    refine ⟨slot, slotIs, ?_⟩
    rintro rfl
    exact notOwn _ (Function.update_self _ _ _)
  holds pointer := by
    have kept : (control.save slot fiber).Kept pointer := fun _ _ => List.not_mem_nil
    rw [slotIs, and_iff_left kept]
    simp only [Control.save, Function.update_self]
    by_cases same : pointer = slot
    · subst same
      rw [Function.update_self]
      exact iff_of_true rfl rfl
    · rw [Function.update_of_ne same]
      refine iff_of_false ?_ fun isSlot => same (Option.some.inj isSlot).symm
      intro isOwn
      exact Nat.lt_irrefl _ (sound.fits_contex isOwn)

theorem resume_cases (setting : Setting) (control : Control) (fiber : FiberId) :
    (∃ slot, slotOf setting fiber = some slot ∧
      control.resume setting fiber = control.enter slot fiber) ∨
    ((control.resume setting fiber).crashed = true ∧
      (control.resume setting fiber).arrival = none) := by
  by_cases isColler : setting.useColler fiber = true
  · rw [resume, if_pos isColler, slotOf, if_pos isColler]
    exact Or.inl ⟨_, rfl, rfl⟩
  · rw [resume, if_neg isColler, slotOf, if_neg isColler, swapIn]
    cases setting.mainFiber with
    | none => exact Or.inr ⟨rfl, rfl⟩
    | some main => exact Or.inl ⟨main, rfl, rfl⟩

theorem arrival_resume (setting : Setting) (control : Control) (fiber : FiberId) :
    (control.resume setting fiber).arrival = none := by
  rcases resume_cases setting control fiber with ⟨slot, -, entered⟩ | ⟨-, noArrival⟩
  · rcases (control.save slot fiber).load_eq (.fiber fiber) with
      ⟨running, func, crashed, loaded⟩
    rw [entered, enter, loaded]
    rfl
  · exact noArrival

/-! ## Where control goes back to -/

theorem Inside.matches_iff {fiber : FiberId} (inside : control.Inside setting fiber)
    (isRunning : control.running = some fiber) (how : SwapOut) :
    (∃ pointer, targetOf setting control fiber how = some pointer ∧
      slotOf setting fiber = some pointer ∧ control.Kept pointer) ↔
      control.Matches setting (.leave how) := by
  have matchesHere : control.Matches setting (.leave how) ↔
      setting.mainFiber = some .threadFiber ∨
      (setting.useColler fiber = false ∧
        ∀ main, setting.mainFiber = some (.fiber main) → main ∉ control.resetSince) ∨
      (how.ends = true ∧ setting.useColler fiber = true ∧ control.wasReset fiber = false) := by
    simp [Matches, isRunning]
  rcases inside.apart with ⟨slot, slotIs, -⟩
  rw [matchesHere, targetOf, entryOf, slotIs]
  by_cases isColler : setting.useColler fiber = true
  · rw [slotOf, if_pos isColler] at slotIs
    cases slotIs
    have kept : control.Kept .threadFiber := fun _ isFiber => by cases isFiber
    by_cases byBack : how.ends = true ∧ control.wasReset fiber = false
    · simp [isColler, byBack, kept]
    · simp [isColler, byBack, kept]
  · rw [slotOf, if_neg isColler] at slotIs
    cases slot with
    | threadFiber => simp [isColler, slotIs, Kept]
    | fiber main => simp [isColler, slotIs, Kept]

theorem returned_switchTo (control : Control) (fiber : FiberId) (left : Contex)
    (target : Option Pointer) :
    (control.switchTo fiber left target).Returned ↔ ∃ pointer, target = some pointer ∧
      Function.update control.contex (.fiber fiber) left pointer =
        .own (control.saved fiber) := by
  cases target with
  | none =>
      refine iff_of_false (fun returned => ?_) (by simp)
      have arrived := (returned _ rfl).1
      cases arrived
  | some pointer =>
      rcases (control.giveUp fiber left (some pointer)).load_eq pointer with
        ⟨running, func, crashed, loaded⟩
      rw [switchTo, loaded]
      constructor
      · intro returned
        exact ⟨pointer, rfl, Option.some.inj (returned _ rfl).1⟩
      · rintro ⟨other, isOther, isOwn⟩ arrival isArrival
        cases isOther
        cases isArrival
        exact ⟨congrArg some isOwn, rfl⟩

theorem Inside.returned_iff {fiber : FiberId} (inside : control.Inside setting fiber)
    {left : Contex} (notOwn : ∀ number, left ≠ .own number) (state : FiberState)
    (target : Option Pointer) :
    ((control.setState fiber state).switchTo fiber left target).Returned ↔
      ∃ pointer, target = some pointer ∧
        slotOf setting fiber = some pointer ∧ control.Kept pointer := by
  rw [returned_switchTo]
  refine exists_congr fun pointer => and_congr_right fun _ => ?_
  rw [← inside.holds, setState]
  by_cases same : pointer = .fiber fiber
  · subst same
    rw [Function.update_self]
    refine iff_of_false (notOwn _) fun isOwn => ?_
    rcases inside.apart with ⟨slot, slotIs, apart⟩
    have isSlot := ((inside.holds _).mp isOwn).1
    rw [slotIs] at isSlot
    exact apart (Option.some.inj isSlot)
  · rw [Function.update_of_ne same]

def leftBy (how : SwapOut) : Contex :=
  if how.ends then .ended else .yielded

theorem leftBy_ne_own (how : SwapOut) (number : Nat) : leftBy how ≠ .own number := by
  cases how <;> simp [leftBy, SwapOut.ends]

theorem fits_leftBy {fiber : FiberId}
    (byEntry : control.func fiber = control.entryOf setting fiber) (how : SwapOut) :
    control.Fits setting (.fiber fiber) (leftBy how) := by
  cases how with
  | finished | threw => trivial
  | ready | hold =>
      intro other isFiber
      cases isFiber
      exact byEntry

theorem Sound.switchTo (sound : control.Sound setting) {fiber : FiberId}
    (isRunning : control.running = some fiber) (how : SwapOut) {target : Option Pointer}
    (returned :
      ((control.setState fiber how.state).switchTo fiber (leftBy how) target).Returned) :
    ((control.setState fiber how.state).switchTo fiber (leftBy how) target).Sound setting := by
  rcases (returned_switchTo _ _ _ _).mp returned with ⟨pointer, rfl, isOwn⟩
  rw [Control.switchTo, load_own isOwn]
  refine .of_stopped ?_ rfl
  refine (Function.forall_update_iff _ _).mpr ⟨?_, fun other _ => sound.fits other⟩
  exact fits_leftBy (sound.func fiber isRunning) how

theorem Sound.step_leave (sound : control.Sound setting) (alive : control.crashed = false)
    {fiber : FiberId} (isRunning : control.running = some fiber) (how : SwapOut) :
    step setting control (.leave how) =
      some ((control.setState fiber how.state).switchTo fiber (leftBy how)
        (targetOf setting control fiber how)) := by
  have inside := sound.inside fiber isRunning
  have byEntry := sound.func fiber isRunning
  simp only [step, alive, isRunning]
  cases how with
  | ready | hold =>
      simp only [yieldTo, inside.current, inside.executing, if_true]
      rfl
  | finished | threw =>
      simp only [complete, byEntry, targetOf, leftBy, SwapOut.ends, true_and, if_true]
      cases control.entryOf setting fiber with
      | mainFunc => rfl
      | backExternFunc => rfl

/-! ## Steps -/

theorem entryOf_remake {fiber other : FiberId} (different : other ≠ fiber) :
    (control.remake fiber).entryOf setting other = control.entryOf setting other := by
  simp only [entryOf, remake, Function.update_of_ne different]

theorem Fits.remake {pointer : Pointer} {contex : Contex} {fiber : FiberId}
    (fits : control.Fits setting pointer contex) (apart : pointer ≠ .fiber fiber) :
    (control.remake fiber).Fits setting pointer contex := by
  have same : ∀ other, pointer = .fiber other →
      (control.remake fiber).entryOf setting other = control.entryOf setting other := by
    rintro other rfl
    exact entryOf_remake fun isFiber => apart (congrArg Pointer.fiber isFiber)
  cases contex with
  | own | ended => exact fits
  | made func => exact fun other isFiber => (fits other isFiber).trans (same other isFiber).symm
  | yielded => exact fun other isFiber => (fits other isFiber).trans (same other isFiber).symm

theorem kept_remake_iff {fiber : FiberId} (pointer : Pointer) :
    (control.remake fiber).Kept pointer ↔ pointer ≠ .fiber fiber ∧ control.Kept pointer := by
  cases pointer with
  | threadFiber => simp [Kept]
  | fiber main => simp [Kept, remake]

theorem Inside.remake {fiber other : FiberId} (inside : control.Inside setting other)
    (different : other ≠ fiber) : (control.remake fiber).Inside setting other where
  current := inside.current
  executing := (Function.update_of_ne different _ _).trans inside.executing
  apart := inside.apart
  holds pointer := by
    rw [kept_remake_iff]
    simp only [Control.remake]
    by_cases same : pointer = .fiber fiber
    · subst same
      simp
    · rw [Function.update_of_ne same, inside.holds]
      simp [same]

theorem Sound.reset (sound : control.Sound setting) {fiber : FiberId}
    (isReset : control.reset fiber = some next) : next.Sound setting := by
  rcases Option.ite_none_right_eq_some.mp isReset with ⟨resettable, isNext⟩
  cases isNext
  have notRunning : ∀ other, control.running = some other → other ≠ fiber := by
    rintro other isRunning rfl
    rw [(sound.inside other isRunning).executing] at resettable
    rcases resettable with isInit | isTerm
    · cases isInit
    · cases isTerm
  refine { fits := ?_, func := ?_, inside := ?_ }
  · refine (Function.forall_update_iff _ _).mpr ⟨?_, fun pointer apart => ?_⟩
    · intro other isFiber
      cases isFiber
      simp [entryOf, Control.remake]
    · exact (sound.fits pointer).remake apart
  · intro other isRunning
    exact (sound.func other isRunning).trans (entryOf_remake (notRunning other isRunning)).symm
  · intro other isRunning
    exact (sound.inside other isRunning).remake (notRunning other isRunning)

inductive Steps (setting : Setting) (control : Control) : Label → Control → Prop
  | resume (fiber : FiberId) (stopped : control.running = none) :
      Steps setting control (.resume fiber) (control.resume setting fiber)
  | leave {fiber : FiberId} (how : SwapOut) (isRunning : control.running = some fiber) :
      Steps setting control (.leave how)
        ((control.setState fiber how.state).switchTo fiber (leftBy how)
          (targetOf setting control fiber how))
  | reset {fiber : FiberId} {next : Control} (isReset : control.reset fiber = some next) :
      Steps setting control (.reset fiber) next

theorem step_alive (stepped : step setting control label = some next) :
    control.crashed = false := by
  cases label with
  | resume fiber => exact (Option.ite_none_right_eq_some.mp stepped).1.1
  | reset fiber => exact (Option.ite_none_right_eq_some.mp stepped).1
  | leave how =>
      cases crashed : control.crashed with
      | false => rfl
      | true => simp [step, crashed] at stepped

theorem Sound.step_eq_some (sound : control.Sound setting)
    (stepped : step setting control label = some next) : Steps setting control label next := by
  have alive := step_alive stepped
  cases label with
  | resume fiber =>
      rcases Option.ite_none_right_eq_some.mp stepped with ⟨⟨-, stopped⟩, isNext⟩
      cases isNext
      exact .resume fiber stopped
  | reset fiber => exact .reset (Option.ite_none_right_eq_some.mp stepped).2
  | leave how =>
      cases isRunning : control.running with
      | none => simp [step, alive, isRunning] at stepped
      | some fiber =>
          rw [sound.step_leave alive isRunning] at stepped
          cases stepped
          exact .leave how isRunning

theorem Sound.returned_iff (sound : control.Sound setting)
    (steps : Steps setting control label next) :
    next.Returned ↔ control.Matches setting label := by
  cases steps with
  | resume fiber stopped =>
      refine iff_of_true (fun arrival isArrival => ?_) trivial
      rw [arrival_resume] at isArrival
      cases isArrival
  | @leave fiber how isRunning =>
      have inside := sound.inside fiber isRunning
      rw [inside.returned_iff (leftBy_ne_own how), inside.matches_iff isRunning]
  | @reset fiber next isReset =>
      rcases Option.ite_none_right_eq_some.mp isReset with ⟨-, isNext⟩
      cases isNext
      exact iff_of_true (fun _ isArrival => by cases isArrival) trivial

theorem Sound.step (sound : control.Sound setting) (met : control.Matches setting label)
    (steps : Steps setting control label next) (alive : next.crashed = false) :
    next.Sound setting := by
  cases steps with
  | resume fiber stopped =>
      rcases resume_cases setting control fiber with ⟨slot, slotIs, entered⟩ | ⟨crashed, -⟩
      · rw [entered, enter] at alive ⊢
        exact (sound.save stopped slot fiber).load (sound.inside_save slotIs) alive
      · rw [alive] at crashed
        cases crashed
  | @leave fiber how isRunning =>
      have returned := (sound.returned_iff (.leave how isRunning)).mpr met
      exact sound.switchTo isRunning how returned
  | reset isReset => exact sound.reset isReset

/-- Control always returns to the resumer exactly if each time the fiber switches to where it
was resumed from: the main fiber is the thread's own `Fiber`, or the fiber is resumed by
`swapIn` and the main fiber is not reset in its body, or it is resumed by `call`, was never
reset and ends. -/
theorem returns_to_resumer_iff (setting : Setting) (labels : List Label) :
    (machine setting).Always Returned (start setting) labels ↔
      (machine setting).StepsMeet (Matches setting) (start setting) labels := by
  have initially : (start setting).Returned := fun _ isArrival => by cases isArrival
  apply Machine.always_iff_stepsMeet (fun control => control.crashed = false →
    control.Sound setting) ?_ ?_ (fun _ => start_sound setting) initially
  · intro control label next sound _ met stepped
    have soundHere := sound (step_alive stepped)
    exact soundHere.step met (soundHere.step_eq_some stepped)
  · intro control label next sound _ stepped
    have soundHere := sound (step_alive stepped)
    exact soundHere.returned_iff (soundHere.step_eq_some stepped)

/-- The main fiber of the thread is one with a body. Another is resumed by `call`, and its yield
starts that body; reset and resumed once more, so does its end. -/
theorem returns_to_resumer_fails :
    let setting : Setting := { mainFiber := some (.fiber 0), useColler := fun _ => true }
    ¬(machine setting).Always Returned (start setting) [.resume 1, .leave .hold] ∧
      ¬(machine setting).Always Returned (start setting)
        [.resume 1, .leave .finished, .reset 1, .resume 1, .leave .finished] := by
  constructor
  · intro always
    have returned := always.last rfl
    cases (returned _ rfl).1
  · intro always
    have returned := always.last rfl
    cases (returned _ rfl).1

end Control

end Sylar.Scheduling
