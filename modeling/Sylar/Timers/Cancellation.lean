import Mathlib.Data.List.Nodup
import Sylar.Timers.Snapshot

/-! # A cancellation and the set it works on

Between the lookup of a cancellation and its erasure the set may be replaced by a
copy or lose the element. As long as neither happens a timer whose cancellation
has succeeded is out of the installed set for good.
-/

namespace Sylar.Timers

open Foundation Foundation.SearchTree

namespace Stage

def timer : Stage → Option Addr
  | .resting => none
  | .found _ timer _ | .matched _ timer _ | .erased _ timer => some timer

def errand : Stage → Option Errand
  | .resting => none
  | .found errand _ _ | .matched errand _ _ | .erased errand _ => some errand

def iterator : Stage → Option Iterator
  | .resting | .erased .. => none
  | .found _ _ it | .matched _ _ it => some it

end Stage

structure Cancelling (Callback : Type u) where
  state : Snapshot Callback
  cancelled : List Addr

namespace Cancelling

variable {Callback : Type u}

def new (start : UInt64) : Cancelling Callback where
  state := .new start
  cancelled := []

def answered (state : Snapshot Callback) : Snapshot.Step Callback → Option Addr
  | .erase who _ =>
      match state.callers who with
      | .matched .cancel timer _ => some timer
      | _ => none
  | _ => none

def machine : Machine (Cancelling Callback) (Snapshot.Step Callback) where
  step history label := (history.state.step label).map fun next =>
    { state := next
      cancelled := (answered history.state label).toList ++ history.cancelled }

def members (history : Cancelling Callback) : List Addr :=
  toList history.state.view.timers

def Absent (history : Cancelling Callback) : Prop :=
  ∀ timer ∈ history.cancelled, timer ∉ history.members

def KeepsIterators (history : Cancelling Callback) : Prop :=
  history.state.sets.installed ∈ history.state.sets.holders →
    ∀ who, (history.state.callers who).iterator = none

/-- The step installs no copy while a call is between its lookup and its erasure,
delivers no timer such a call has found, and erases none that another such call has
found; no `refresh` puts back a cancelled timer. -/
def Orderly (history : Cancelling Callback) : Snapshot.Step Callback → Prop
  | .addTimer .. => history.KeepsIterators
  | .listExpiredCb _ probe now =>
      history.KeepsIterators ∧
        ∀ who it element, (history.state.callers who).iterator = some it →
          it.element = some element →
          element ∉ history.state.view.expired probe now
  | .erase who _ => ∀ other it otherIt, other ≠ who →
      (history.state.callers who).iterator = some it →
      (history.state.callers other).iterator = some otherIt →
      it.element ≠ otherIt.element
  | .insert who _ _ =>
      match history.state.callers who with
      | .erased (.reset ..) _ => history.KeepsIterators
      | .erased .refresh timer => timer ∉ history.cancelled
      | _ => True
  | .acquire | .drop _ | .find .. | .compare _ => True

/-! ## Calls under way -/

/-- What holds of a call under way: its iterator belongs to the installed set and
leads to an element of it, which is its own timer if that is a member. -/
structure Fits (history : Cancelling Callback) (stage : Stage) : Prop where
  created : ∀ timer, stage.timer = some timer → timer ∈ history.state.created
  installed : ∀ it, stage.iterator = some it →
    it.set = history.state.sets.installed
  element : ∀ it element, stage.iterator = some it → it.element = some element →
    element ∈ history.members
  sought : ∀ timer it, stage.timer = some timer → stage.iterator = some it →
    timer ∈ history.members → it.element = some timer
  out : ∀ errand timer, stage = .erased errand timer → timer ∉ history.members
  cleared : ∀ timer, stage.errand = some .cancel → stage.timer = some timer →
    (history.state.objects timer).cb = none
  uncancelled : ∀ ms fromNow timer, stage.errand = some (.reset ms fromNow) →
    stage.timer = some timer → timer ∉ history.cancelled

variable {history next : Cancelling Callback} {stage : Stage}

theorem Fits.resting : history.Fits .resting where
  created := by intro _ impossible; cases impossible
  installed := by intro _ impossible; cases impossible
  element := by intro _ _ impossible; cases impossible
  sought := by intro _ _ impossible; cases impossible
  out := by intro _ _ impossible; cases impossible
  cleared := by intro _ impossible; cases impossible
  uncancelled := by intro _ _ _ impossible; cases impossible

/-- A step of others leaves a call in order if its set stays installed with the
element it has found, and its timer is not inserted or given a callback. -/
theorem Fits.evolve (fits : history.Fits stage)
    (created : ∀ timer ∈ history.state.created, timer ∈ next.state.created)
    (installed : stage.iterator = none ∨
      next.state.sets.installed = history.state.sets.installed)
    (keeps : ∀ it element, stage.iterator = some it → it.element = some element →
      element ∈ history.members → element ∈ next.members)
    (only : ∀ timer, stage.timer = some timer → timer ∈ next.members →
      timer ∈ history.members)
    (fades : ∀ timer ∈ history.state.created,
      (history.state.objects timer).cb = none →
      (next.state.objects timer).cb = none)
    (cancelled : ∀ timer, stage.timer = some timer → timer ∈ next.cancelled →
      timer ∈ history.cancelled) :
    next.Fits stage where
  created timer isTimer := created timer (fits.created timer isTimer)
  installed it isIt := by
    rcases installed with none | same
    · rw [none] at isIt
      cases isIt
    · rw [same]
      exact fits.installed it isIt
  element it element isIt isElement :=
    keeps it element isIt isElement (fits.element it element isIt isElement)
  sought timer it isTimer isIt member :=
    fits.sought timer it isTimer isIt (only timer isTimer member)
  out errand timer isErased member := by
    have isTimer : stage.timer = some timer := by rw [isErased]; rfl
    exact fits.out errand timer isErased (only timer isTimer member)
  cleared timer isCancel isTimer :=
    fades timer (fits.created timer isTimer) (fits.cleared timer isCancel isTimer)
  uncancelled ms fromNow timer isReset isTimer member :=
    fits.uncancelled ms fromNow timer isReset isTimer
      (cancelled timer isTimer member)

structure Steady (history : Cancelling Callback) : Prop where
  valid : history.state.view.Valid
  locks : ∀ who timer, (history.state.callers who).timer = some timer →
    timer ∈ history.state.locked
  alone : ∀ who other timer, (history.state.callers who).timer = some timer →
    (history.state.callers other).timer = some timer → who = other
  fits : ∀ who, history.Fits (history.state.callers who)
  created : ∀ timer ∈ history.cancelled, timer ∈ history.state.created
  absent : ∀ timer ∈ history.cancelled, timer ∉ history.members
  cleared : ∀ timer ∈ history.cancelled, (history.state.objects timer).cb = none

theorem Steady.new (start : UInt64) :
    (Cancelling.new start : Cancelling Callback).Steady where
  valid := TimerManager.Valid.new start
  locks who timer impossible := by cases impossible
  alone who other timer impossible := by cases impossible
  fits who := .resting
  created timer member := absurd member List.not_mem_nil
  absent timer member := absurd member List.not_mem_nil
  cleared timer member := absurd member List.not_mem_nil

/-! ## Single changes -/

theorem Steady.stand (steady : history.Steady) {who : Nat} {locked : List Addr}
    (own : ∀ timer, stage.timer = some timer → timer ∈ locked)
    (others : ∀ other timer, other ≠ who →
      (history.state.callers other).timer = some timer →
      timer ∈ locked ∧ stage.timer ≠ some timer)
    (fits : history.Fits stage) :
    ({ history with
        state := { history.state with
          callers := Function.update history.state.callers who stage
          locked := locked } } : Cancelling Callback).Steady where
  valid := steady.valid
  locks other timer isTimer := by
    by_cases same : other = who
    · subst same
      simp only [Function.update_self] at isTimer
      exact own timer isTimer
    · simp only [Function.update_of_ne same] at isTimer
      exact (others other timer same isTimer).1
  alone first second timer isFirst isSecond := by
    by_cases firstSame : first = who
    · subst firstSame
      simp only [Function.update_self] at isFirst
      by_contra different
      simp only [Function.update_of_ne (Ne.symm different)] at isSecond
      exact (others second timer (Ne.symm different) isSecond).2 isFirst
    · simp only [Function.update_of_ne firstSame] at isFirst
      by_cases secondSame : second = who
      · subst secondSame
        simp only [Function.update_self] at isSecond
        exact absurd isSecond (others first timer firstSame isFirst).2
      · simp only [Function.update_of_ne secondSame] at isSecond
        exact steady.alone first second timer isFirst isSecond
  fits other := by
    by_cases same : other = who
    · subst same
      simp only [Function.update_self]
      exact { fits with }
    · simp only [Function.update_of_ne same]
      exact { steady.fits other with }
  created := steady.created
  absent := steady.absent
  cleared := steady.cleared

theorem Steady.moved (steady : history.Steady) {state : Snapshot Callback}
    (callers : state.callers = history.state.callers)
    (locked : state.locked = history.state.locked) (valid : state.view.Valid)
    (created : ∀ timer ∈ history.state.created, timer ∈ state.created)
    (installed : (∀ who, (history.state.callers who).iterator = none) ∨
      state.sets.installed = history.state.sets.installed)
    (keeps : ∀ who it element, (history.state.callers who).iterator = some it →
      it.element = some element → element ∈ history.members →
      element ∈ toList state.view.timers)
    (only : ∀ timer, timer ∈ history.cancelled ∨
        (∃ who, (history.state.callers who).timer = some timer) →
      timer ∈ toList state.view.timers → timer ∈ history.members)
    (fades : ∀ timer ∈ history.state.created,
      (history.state.objects timer).cb = none → (state.objects timer).cb = none) :
    ({ history with state := state } : Cancelling Callback).Steady where
  valid := valid
  locks who timer isTimer := by
    rw [callers] at isTimer
    rw [locked]
    exact steady.locks who timer isTimer
  alone who other timer isTimer isOther := by
    rw [callers] at isTimer isOther
    exact steady.alone who other timer isTimer isOther
  fits who := by
    rw [callers]
    apply (steady.fits who).evolve created
    · rcases installed with none | same
      · exact Or.inl (none who)
      · exact Or.inr same
    · exact keeps who
    · intro timer isTimer
      exact only timer (Or.inr ⟨who, isTimer⟩)
    · exact fades
    · exact fun timer _ member => member
  created timer member := created timer (steady.created timer member)
  absent timer member isPending :=
    steady.absent timer member (only timer (Or.inl member) isPending)
  cleared timer member :=
    fades timer (steady.created timer member) (steady.cleared timer member)

theorem Steady.answer (steady : history.Steady) {timer : Addr}
    (created : timer ∈ history.state.created) (out : timer ∉ history.members)
    (cleared : (history.state.objects timer).cb = none)
    (free : ∀ who, (history.state.callers who).timer ≠ some timer) :
    ({ history with cancelled := timer :: history.cancelled } :
      Cancelling Callback).Steady where
  valid := steady.valid
  locks := steady.locks
  alone := steady.alone
  fits who := by
    refine (steady.fits who).evolve (fun _ member => member) (Or.inr rfl)
      (fun _ _ _ _ member => member) (fun _ _ member => member)
      (fun _ _ isNone => isNone) ?_
    intro other isTimer member
    rcases List.mem_cons.mp member with same | before
    · exact absurd (same ▸ isTimer) (free who)
    · exact before
  created other member := by
    rcases List.mem_cons.mp member with same | before
    · exact same ▸ created
    · exact steady.created other before
  absent other member := by
    rcases List.mem_cons.mp member with same | before
    · exact same ▸ out
    · exact steady.absent other before
  cleared other member := by
    rcases List.mem_cons.mp member with same | before
    · exact same ▸ cleared
    · exact steady.cleared other before

/-! ## The steps -/

theorem KeepsIterators.installed (keeps : history.KeepsIterators) :
    (∀ who, (history.state.callers who).iterator = none) ∨
      history.state.sets.unshare.installed = history.state.sets.installed := by
  by_cases held : history.state.sets.installed ∈ history.state.sets.holders
  · exact Or.inl (keeps held)
  · right
    rw [Shared.unshare_of_unique _ held]

theorem Steady.created_of_named (steady : history.Steady) {timer : Addr}
    (named : timer ∈ history.cancelled ∨
      ∃ who, (history.state.callers who).timer = some timer) :
    timer ∈ history.state.created := by
  rcases named with isCancelled | ⟨who, isTimer⟩
  · exact steady.created timer isCancelled
  · exact (steady.fits who).created timer isTimer

theorem Steady.addTimer (steady : history.Steady) (keeps : history.KeepsIterators)
    (layout : Layout Addr) {address : Addr}
    (fresh : address ∉ history.state.created) (now ms : UInt64)
    (cb : Option Callback) (recuring : Bool) :
    ({ history with
        state := history.state.unshare.writeBack
          (history.state.view.addTimer layout address now ms cb recuring).1 } :
      Cancelling Callback).Steady := by
  have chain := (steady.valid.create fresh now ms cb recuring).chain
  refine steady.moved rfl rfl ?_ ?_ ?_ ?_ ?_ ?_
  · rw [Snapshot.view_writeBack]
    exact steady.valid.addTimer layout fresh now ms cb recuring
  · exact fun timer member => List.mem_cons_of_mem _ member
  · exact keeps.installed
  · intro who it element _ _ member
    rw [Snapshot.view_writeBack]
    exact (chain.mem_insertTimer layout address element).mpr (Or.inl member)
  · intro timer named member
    rw [Snapshot.view_writeBack] at member
    rcases (chain.mem_insertTimer layout address timer).mp member with
      before | ⟨isNew, _⟩
    · exact before
    · exact absurd (steady.created_of_named named) (isNew ▸ fresh)
  · intro timer created isNone
    have different : timer ≠ address := fun same => fresh (same ▸ created)
    have same := TimerManager.objects_addTimer history.state.view layout now ms cb
      recuring different
    exact (congrArg Timer.cb same).trans isNone

theorem Steady.listExpiredCb (steady : history.Steady)
    (keeps : history.KeepsIterators) (layout : Layout Addr) (probe : Addr)
    (now : UInt64)
    (spares : ∀ who it element, (history.state.callers who).iterator = some it →
      it.element = some element →
      element ∉ history.state.view.expired probe now) :
    ({ history with
        state := history.state.unshare.writeBack
          (history.state.view.listExpiredCb layout probe now).1 } :
      Cancelling Callback).Steady := by
  let delivering : Call Callback := ⟨.listExpiredCb probe now, layout⟩
  refine steady.moved rfl rfl ?_ ?_ ?_ ?_ ?_ ?_
  · rw [Snapshot.view_writeBack]
    exact steady.valid.listExpiredCb layout probe now
  · exact fun timer member => steady.valid.created_execute delivering member
  · exact keeps.installed
  · intro who it element isIt isElement member
    rw [Snapshot.view_writeBack]
    exact steady.valid.kept_listExpiredCb layout member
      (spares who it element isIt isElement)
  · intro timer _ member
    rw [Snapshot.view_writeBack] at member
    exact steady.valid.pending_of_listExpiredCb layout probe now member
  · intro timer _ isNone
    have object := steady.valid.objects_listExpiredCb layout probe now timer
    have fades : (history.state.objects timer).Fades
        ((history.state.view.listExpiredCb layout probe now).1.objects timer) := by
      rw [object]
      split
      · exact Timer.fades_expire _ now
      · exact .refl _
    rcases fades.cb with same | gone
    · exact same.trans isNone
    · exact gone

theorem Steady.clearCb (steady : history.Steady) (timer : Addr) :
    ({ history with
        state := { history.state with
          objects := (history.state.view.clearCb timer).objects } } :
      Cancelling Callback).Steady := by
  refine steady.moved rfl rfl ?_ ?_ ?_ ?_ ?_ ?_
  · exact steady.valid.clearCb timer
  · exact fun _ member => member
  · exact Or.inr rfl
  · exact fun _ _ _ _ _ member => member
  · exact fun _ _ member => member
  · intro other _ isNone
    rcases (TimerManager.fades_clearCb history.state.view timer other).cb with
      same | gone
    · exact same.trans isNone
    · exact gone

theorem Steady.enter (steady : history.Steady) {who : Nat} {errand : Errand}
    {timer : Addr} (created : timer ∈ history.state.created)
    (unlocked : timer ∉ history.state.locked)
    (cleared : errand = .cancel → (history.state.objects timer).cb = none)
    (uncancelled : ∀ ms fromNow, errand = .reset ms fromNow →
      timer ∉ history.cancelled) :
    ({ history with state := history.state.enter who errand timer } :
      Cancelling Callback).Steady := by
  apply steady.stand
  · intro other isTimer
    cases isTimer
    exact List.mem_cons_self
  · intro other otherTimer _ isOther
    have locked := steady.locks other otherTimer isOther
    refine ⟨List.mem_cons_of_mem _ locked, ?_⟩
    intro same
    cases same
    exact unlocked locked
  · refine
      { created := ?_
        installed := ?_
        element := ?_
        sought := ?_
        out := by intro _ _ impossible; cases impossible
        cleared := ?_
        uncancelled := ?_ }
    · intro other isTimer
      cases isTimer
      exact created
    · intro it isIt
      cases isIt
      rfl
    · intro it element isIt isElement
      cases isIt
      rcases Option.bind_eq_some_iff.mp isElement with ⟨position, _, atPosition⟩
      exact List.mem_of_getElem? atPosition
    · intro other it isTimer isIt member
      cases isTimer
      cases isIt
      rcases steady.valid.chain.find_pending member with ⟨position, found, atPosition⟩
      simp only [Snapshot.lookup, found, Option.bind_some, atPosition]
    · intro other isCancel isTimer
      cases isTimer
      exact cleared (Option.some.inj isCancel)
    · intro ms fromNow other isReset isTimer
      cases isTimer
      exact uncancelled ms fromNow (Option.some.inj isReset)

theorem Steady.begin (steady : history.Steady) {who : Nat} (errand : Errand)
    {timer : Addr} (created : timer ∈ history.state.created)
    (unlocked : timer ∉ history.state.locked) :
    ({ history with state := history.state.begin who errand timer } :
      Cancelling Callback).Steady := by
  cases errand with
  | cancel =>
      apply (steady.clearCb timer).enter created unlocked
      · intro _
        simp [TimerManager.objects_clearCb]
      · intro ms fromNow impossible
        cases impossible
  | refresh =>
      apply (steady.clearCb timer).enter created unlocked
      · intro impossible
        cases impossible
      · intro ms fromNow impossible
        cases impossible
  | reset ms fromNow =>
      simp only [Snapshot.begin]
      split
      · exact steady
      · split
        · exact steady
        · next filled =>
            apply steady.enter created unlocked
            · intro impossible
              cases impossible
            · intro _ _ _ isCancelled
              rw [steady.cleared timer isCancelled] at filled
              exact filled rfl

theorem Steady.rest (steady : history.Steady) {who : Nat} {timer : Addr}
    (isTimer : (history.state.callers who).timer = some timer)
    {locked : List Addr}
    (keeps : ∀ other ∈ history.state.locked, other ≠ timer → other ∈ locked) :
    ({ history with
        state := { history.state with
          callers := Function.update history.state.callers who .resting
          locked := locked } } : Cancelling Callback).Steady := by
  apply steady.stand
  · intro other impossible
    cases impossible
  · intro other otherTimer different isOther
    refine ⟨keeps otherTimer (steady.locks other otherTimer isOther) ?_, by simp [Stage.timer]⟩
    intro same
    subst same
    exact different (steady.alone other who otherTimer isOther isTimer)
  · exact .resting

theorem Steady.leave (steady : history.Steady) {who : Nat} {timer : Addr}
    (isTimer : (history.state.callers who).timer = some timer) :
    ({ history with state := history.state.leave who timer } :
      Cancelling Callback).Steady :=
  steady.rest isTimer fun _ member different =>
    (List.mem_erase_of_ne different).mpr member

theorem Steady.advance (steady : history.Steady) {who : Nat} {timer : Addr}
    (isTimer : (history.state.callers who).timer = some timer)
    (goesOn : stage.timer = some timer) (fits : history.Fits stage) :
    ({ history with
        state := { history.state with
          callers := Function.update history.state.callers who stage } } :
      Cancelling Callback).Steady := by
  apply steady.stand
  · intro other isOther
    rw [goesOn] at isOther
    cases isOther
    exact steady.locks who timer isTimer
  · intro other otherTimer different isOther
    refine ⟨steady.locks other otherTimer isOther, ?_⟩
    intro same
    rw [goesOn] at same
    cases same
    exact different (steady.alone other who timer isOther isTimer)
  · exact fits

theorem Steady.unlink (steady : history.Steady) (layout : Layout Addr)
    {element : Addr}
    (unwanted : ∀ who it, (history.state.callers who).iterator = some it →
      it.element ≠ some element) :
    ({ history with
        state := history.state.unlink layout history.state.sets.installed element } :
      Cancelling Callback).Steady := by
  have sublist : (history.members.erase element).Sublist history.members :=
    List.erase_sublist
  refine steady.moved rfl rfl ?_ ?_ ?_ ?_ ?_ ?_
  · rw [Snapshot.view_unlink]
    constructor
    · rw [TimerManager.IsChain, Chain, Layout.toList_build]
      exact List.Pairwise.sublist sublist steady.valid.chain
    · intro timer member
      rw [Layout.toList_build] at member
      exact steady.valid.created timer (List.mem_of_mem_erase member)
  · exact fun _ member => member
  · exact Or.inr rfl
  · intro who it found isIt isFound member
    rw [Snapshot.view_unlink, Layout.toList_build]
    have different : found ≠ element := by
      intro same
      exact unwanted who it isIt (same ▸ isFound)
    exact (List.mem_erase_of_ne different).mpr member
  · intro timer _ member
    rw [Snapshot.view_unlink, Layout.toList_build] at member
    exact List.mem_of_mem_erase member
  · exact fun _ _ isNone => isNone

theorem Steady.insertAgain (steady : history.Steady) {layout : Layout Addr}
    {timer : Addr} (created : timer ∈ history.state.created)
    (out : timer ∉ history.members)
    (free : ∀ who, (history.state.callers who).timer ≠ some timer)
    (uncancelled : timer ∉ history.cancelled) {now ms : UInt64}
    {state : Snapshot Callback} (callers : state.callers = history.state.callers)
    (locked : state.locked = history.state.locked)
    (installed : (∀ who, (history.state.callers who).iterator = none) ∨
      state.sets.installed = history.state.sets.installed)
    (view : state.view =
      ((history.state.view.rearm timer now ms).insertTimer layout timer).1) :
    ({ history with state := state } : Cancelling Callback).Steady := by
  have chain := steady.valid.chain.rearm out now ms
  have armed : (history.state.view.rearm timer now ms).Valid :=
    { chain := chain, created := steady.valid.created }
  refine steady.moved callers locked ?_ ?_ installed ?_ ?_ ?_
  · rw [view]
    exact armed.insertTimer layout created
  · intro other member
    have same : state.created = history.state.created :=
      congrArg TimerManager.created view
    rw [same]
    exact member
  · intro who it element _ _ member
    rw [view]
    exact (chain.mem_insertTimer layout timer element).mpr (Or.inl member)
  · intro other named member
    rw [view] at member
    rcases (chain.mem_insertTimer layout timer other).mp member with
      before | ⟨same, _⟩
    · exact before
    · subst same
      rcases named with isCancelled | ⟨who, isTimer⟩
      · exact absurd isCancelled uncancelled
      · exact absurd isTimer (free who)
  · intro other _ isNone
    have object : state.objects other =
        (history.state.view.rearm timer now ms).objects other :=
      congrFun (congrArg TimerManager.objects view) other
    rw [object, TimerManager.objects_rearm]
    split
    · exact isNone
    · exact isNone

theorem Steady.free (steady : history.Steady) {who : Nat} {timer : Addr}
    (isTimer : (history.state.callers who).timer = some timer) (other : Nat) :
    (Function.update history.state.callers who .resting other).timer ≠
      some timer := by
  by_cases same : other = who
  · subst same
    rw [Function.update_self]
    simp [Stage.timer]
  · rw [Function.update_of_ne same]
    intro isOther
    exact same (steady.alone other who timer isOther isTimer)

theorem Steady.erasing (steady : history.Steady) {who : Nat} {errand : Errand}
    {timer element : Addr} {it : Iterator}
    (standing : history.state.callers who = .matched errand timer it)
    (isElement : it.element = some element)
    (orderly : ∀ other it otherIt, other ≠ who →
      (history.state.callers who).iterator = some it →
      (history.state.callers other).iterator = some otherIt →
      it.element ≠ otherIt.element)
    (layout : Layout Addr) {locked : List Addr}
    (keeps : ∀ other ∈ history.state.locked, other ≠ timer → other ∈ locked) :
    ({ history with
        state := { history.state.unlink layout it.set element with
          callers := Function.update history.state.callers who .resting
          locked := locked } } : Cancelling Callback).Steady := by
  have isTimer : (history.state.callers who).timer = some timer := by
    rw [standing]
    rfl
  have isIt : (history.state.callers who).iterator = some it := by
    rw [standing]
    rfl
  rw [(steady.fits who).installed it isIt]
  apply (steady.rest isTimer keeps).unlink layout
  intro other otherIt isOther same
  by_cases isWho : other = who
  · subst isWho
    simp only [Function.update_self] at isOther
    cases isOther
  · simp only [Function.update_of_ne isWho] at isOther
    exact orderly other it otherIt isWho isIt isOther (isElement.trans same.symm)

theorem Steady.out_of_erased (steady : history.Steady) {who : Nat} {errand : Errand}
    {timer element : Addr} {it : Iterator}
    (standing : history.state.callers who = .matched errand timer it)
    (isElement : it.element = some element) (layout : Layout Addr) :
    timer ∉ toList (history.state.unlink layout it.set element).view.timers := by
  have fits := steady.fits who
  rw [standing] at fits
  rw [fits.installed it rfl, Snapshot.view_unlink, Layout.toList_build]
  intro member
  have found := fits.sought timer it rfl rfl (List.mem_of_mem_erase member)
  rw [isElement] at found
  cases found
  exact steady.valid.chain.nodup.not_mem_erase member

theorem Steady.erased (steady : history.Steady) {who : Nat} {errand : Errand}
    {timer element : Addr} {it : Iterator} (again : errand ≠ .cancel)
    (standing : history.state.callers who = .matched errand timer it)
    (isElement : it.element = some element)
    (orderly : ∀ other it otherIt, other ≠ who →
      (history.state.callers who).iterator = some it →
      (history.state.callers other).iterator = some otherIt →
      it.element ≠ otherIt.element) (layout : Layout Addr) :
    ({ history with
        state := { history.state.unlink layout it.set element with
          callers := Function.update history.state.callers who
            (.erased errand timer) } } : Cancelling Callback).Steady := by
  have fits := steady.fits who
  have out := steady.out_of_erased standing isElement layout
  have isTimer : (history.state.callers who).timer = some timer := by
    rw [standing]
    rfl
  have erasing := steady.erasing standing isElement orderly layout
    fun _ kept _ => kept
  have advanced : ({ history with
      state := { history.state.unlink layout it.set element with
        callers := Function.update
          (Function.update history.state.callers who .resting) who
          (.erased errand timer)
        locked := history.state.locked } } : Cancelling Callback).Steady := by
    apply erasing.stand
    · intro other isOther
      cases isOther
      exact steady.locks who timer isTimer
    · intro other otherTimer different isOther
      refine ⟨erasing.locks other otherTimer isOther, ?_⟩
      intro same
      cases same
      exact steady.free isTimer other isOther
    · rw [standing] at fits
      exact
        { created := fits.created
          installed := by intro _ impossible; cases impossible
          element := by intro _ _ impossible; cases impossible
          sought := by intro _ _ _ impossible; cases impossible
          out := by intro _ _ same; cases same; exact out
          cleared := by
            intro other isCancel
            exact absurd (Option.some.inj isCancel) again
          uncancelled := fits.uncancelled }
  simp only [Function.update_idem] at advanced
  exact advanced

theorem Steady.insertedAgain (steady : history.Steady) {who : Nat}
    {errand : Errand} {timer : Addr} {layout : Layout Addr} {now ms : UInt64}
    (standing : history.state.callers who = .erased errand timer)
    (uncancelled : timer ∉ history.cancelled) (state : Snapshot Callback)
    (callers : state.callers = history.state.callers)
    (locked : state.locked = history.state.locked)
    (installed :
      (∀ other, (Function.update history.state.callers who .resting other).iterator =
        none) ∨ state.sets.installed = history.state.sets.installed)
    (view : state.view =
      ((history.state.view.rearm timer now ms).insertTimer layout timer).1) :
    ({ history with state := state.leave who timer } :
      Cancelling Callback).Steady := by
  have fits := steady.fits who
  have isTimer : (history.state.callers who).timer = some timer := by
    rw [standing]
    rfl
  rw [standing] at fits
  apply (steady.leave isTimer).insertAgain (fits.created timer rfl)
    (fits.out errand timer rfl) (steady.free isTimer) uncancelled
  · rw [Snapshot.leave, callers]
    rfl
  · rw [Snapshot.leave, locked]
    rfl
  · exact installed
  · exact view

theorem Steady.pointers (steady : history.Steady) (sets : Shared (BinaryTree Addr))
    (cells : sets.cells = history.state.sets.cells)
    (installed : sets.installed = history.state.sets.installed) :
    ({ history with state := { history.state with sets := sets } } :
      Cancelling Callback).Steady := by
  have view : ({ history.state with sets := sets } : Snapshot Callback).view =
      history.state.view := by
    simp [Snapshot.view, Shared.contents, cells, installed]
  refine steady.moved rfl rfl ?_ (fun _ member => member) (Or.inr installed) ?_ ?_
    (fun _ _ isNone => isNone)
  · rw [view]
    exact steady.valid
  · intro who it element _ _ member
    rw [view]
    exact member
  · intro timer _ member
    rw [view] at member
    exact member

theorem Steady.step (steady : history.Steady) {label : Snapshot.Step Callback}
    (orderly : history.Orderly label)
    (stepped : machine.step history label = some next) : next.Steady := by
  rcases Option.map_eq_some_iff.mp stepped with ⟨state, taken, rfl⟩
  have steps := Snapshot.step_eq_some taken
  cases steps with
  | acquire => exact steady.pointers _ rfl rfl
  | drop member => exact steady.pointers _ rfl rfl
  | addTimer fresh =>
      exact steady.addTimer orderly _ fresh _ _ _ _
  | listExpiredCb fresh =>
      exact steady.listExpiredCb orderly.1 _ _ _ orderly.2
  | find standing created unlocked =>
      exact steady.begin _ created unlocked
  | missing standing =>
      apply steady.leave
      rw [standing]
      rfl
  | @matched who errand timer it standing different =>
      have fits := steady.fits who
      rw [standing] at fits
      apply steady.advance (by rw [standing]; rfl) rfl
      exact
        { created := fits.created
          installed := fits.installed
          element := fits.element
          sought := fits.sought
          out := by intro _ _ impossible; cases impossible
          cleared := fits.cleared
          uncancelled := fits.uncancelled }
  | @cancelled who timer it element layout standing isElement member =>
      have fits := steady.fits who
      have out := steady.out_of_erased standing isElement layout
      have isTimer : (history.state.callers who).timer = some timer := by
        rw [standing]
        rfl
      have erasing := steady.erasing standing isElement orderly layout
        fun _ kept different => (List.mem_erase_of_ne different).mpr kept
      rw [standing] at fits
      have answers : (answered history.state (.erase who layout)).toList ++
          history.cancelled = timer :: history.cancelled := by
        simp [answered, standing]
      rw [answers]
      apply erasing.answer (fits.created timer rfl) out (fits.cleared timer rfl rfl)
      exact steady.free isTimer
  | @erased who errand timer it element layout again standing isElement member =>
      have answers : (answered history.state (.erase who layout)).toList ++
          history.cancelled = history.cancelled := by
        simp only [answered, standing]
        cases errand with
        | cancel => exact absurd rfl again
        | reset | refresh => rfl
      rw [answers]
      exact steady.erased again standing isElement orderly layout
  | @added who ms fromNow timer layout now standing =>
      have keeps : history.KeepsIterators := by
        simpa only [Orderly, standing] using orderly
      have fits := steady.fits who
      rw [standing] at fits
      refine steady.insertedAgain standing
        (fits.uncancelled ms fromNow timer rfl rfl)
        (history.state.addAgain layout timer now ms) rfl rfl ?_
        (Snapshot.view_addAgain layout timer now ms)
      rcases keeps.installed with none | same
      · left
        intro other
        by_cases isWho : other = who
        · subst isWho
          rw [Function.update_self]
          rfl
        · rw [Function.update_of_ne isWho]
          exact none other
      · exact Or.inr same
  | @inserted who timer layout now standing =>
      have uncancelled : timer ∉ history.cancelled := by
        simpa only [Orderly, standing] using orderly
      exact steady.insertedAgain standing uncancelled
        (history.state.insertAgain layout timer now) rfl rfl (Or.inr rfl)
        (Snapshot.view_insertAgain layout timer now)

/-! ## Runs -/

/-- In every interleaving in which nothing gets between the lookup and the erasure
of a call, a timer whose cancellation has succeeded is not in the installed set, and
does not come back. -/
theorem absent_always (start : UInt64) {labels : List (Snapshot.Step Callback)}
    (orderly : machine.StepsMeet Orderly (.new start) labels) :
    machine.Always Absent (.new start) labels :=
  orderly.always Steady
    (fun _ _ _ steady meets stepped => steady.step meets stepped)
    (fun _ steady => steady.absent) (Steady.new start)

theorem absent_always_copied :
    let labels : List (Snapshot.Step Unit) :=
      [.addTimer spine 1 1000 10 (some ()) false, .acquire, .find 0 .cancel 1,
        .compare 0, .erase 0 spine, .addTimer spine 2 1001 5 (some ()) false]
    machine.Always Absent (.new 1000) labels ∧
      ∃ final, machine.run (.new 1000) labels = some final ∧
        final.cancelled = [1] ∧ final.state.sets.allocated = 2 := by
  intro labels
  refine ⟨absent_always 1000 ?_, _, rfl, rfl, rfl⟩
  apply Machine.StepsMeet.cons rfl (fun _ _ => rfl)
  apply Machine.StepsMeet.cons rfl trivial
  apply Machine.StepsMeet.cons rfl trivial
  apply Machine.StepsMeet.cons rfl trivial
  apply Machine.StepsMeet.cons rfl
  · intro other it otherIt different _ isOther
    have resting : (Function.update (Function.update (fun _ => Stage.resting) 0 _) 0 _
        other).iterator = some otherIt := isOther
    simp [Function.update_of_ne different, Stage.iterator] at resting
  refine Machine.StepsMeet.cons rfl ?_ trivial
  intro _ who
  by_cases isFirst : who = 0
  · subst isFirst
    rfl
  · change (Function.update (Function.update (Function.update
      (fun _ => Stage.resting) 0 _) 0 _) 0 _ who).iterator = none
    simp [Function.update_of_ne isFirst, Stage.iterator]

/-- A reader holds the set when a cancellation looks its timer up. The addition that
comes next installs a copy, and the cancellation erases from the old set. -/
theorem absent_always_fails :
    ¬(machine : Machine (Cancelling Unit) (Snapshot.Step Unit)).Always Absent (.new 1000)
      [.addTimer spine 1 1000 10 (some ()) false, .acquire, .find 0 .cancel 1,
        .addTimer spine 2 1001 5 (some ()) false, .compare 0, .erase 0 spine] := by
  intro always
  exact always.last rfl 1 (by decide) (by decide)

end Cancelling

end Sylar.Timers
