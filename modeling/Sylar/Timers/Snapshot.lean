import Sylar.Foundation.Sharing
import Sylar.Timers.Delivery

/-! # The set of timers as a shared object

`getNextTImer` copies the pointer to the set under the mutex of the manager and
looks at the set outside. `addTimer` and `listExpiredCb` are sections under that
mutex which first replace a set that is not unique by a copy. `cancel`, `reset`
and `refresh` hold the mutex of their timer only, so their lookups, comparisons
and modifications are steps of their own.
-/

namespace Sylar.Timers

open Foundation Foundation.SearchTree

structure Iterator where
  set : CellId
  element : Option Addr
  deriving DecidableEq

inductive Errand
  | cancel
  | reset (ms : UInt64) (fromNow : Bool)
  | refresh
  deriving DecidableEq

/-- How far a call on a timer has come: it has its iterator, it has found that not
to be the end, or it has erased the element and still has to insert its timer. -/
inductive Stage
  | resting
  | found (errand : Errand) (timer : Addr) (it : Iterator)
  | matched (errand : Errand) (timer : Addr) (it : Iterator)
  | erased (errand : Errand) (timer : Addr)

structure Snapshot (Callback : Type u) where
  objects : Addr → Timer Callback
  created : List Addr
  previousTimr : UInt64
  /-- The sets; the installed one is `timers_`, the others' are the readers'. -/
  sets : Shared (BinaryTree Addr)
  callers : Nat → Stage
  /-- The timers whose `mutex_` is held. -/
  locked : List Addr

namespace Snapshot

variable {Callback : Type u}

def new (start : UInt64) : Snapshot Callback where
  objects := fun _ => {}
  created := []
  previousTimr := start
  sets := .single .nil
  callers := fun _ => .resting
  locked := []

def view (state : Snapshot Callback) : TimerManager Callback where
  objects := state.objects
  created := state.created
  timers := state.sets.contents
  previousTimr := state.previousTimr

def writeBack (state : Snapshot Callback) (manager : TimerManager Callback) :
    Snapshot Callback :=
  { state with
    objects := manager.objects
    created := manager.created
    previousTimr := manager.previousTimr
    sets := state.sets.write manager.timers }

/-- `if(!timers_.unique())timers_.reset(...)`. -/
def unshare (state : Snapshot Callback) : Snapshot Callback :=
  { state with sets := state.sets.unshare }

def lookup (state : Snapshot Callback) (timer : Addr) : Iterator where
  set := state.sets.installed
  element := (find state.view.less timer state.view.timers).bind fun it =>
    (toList state.view.timers)[it]?

def enter (state : Snapshot Callback) (who : Nat) (errand : Errand)
    (timer : Addr) : Snapshot Callback :=
  { state with
    callers := Function.update state.callers who
      (.found errand timer (state.lookup timer))
    locked := timer :: state.locked }

def leave (state : Snapshot Callback) (who : Nat) (timer : Addr) :
    Snapshot Callback :=
  { state with
    callers := Function.update state.callers who .resting
    locked := state.locked.erase timer }

/-- The beginning of `cancel`, `reset` and `refresh`, with the early returns of
`reset`. -/
def begin (state : Snapshot Callback) (who : Nat) (errand : Errand)
    (timer : Addr) : Snapshot Callback :=
  match errand with
  | .cancel | .refresh =>
      { state with objects := (state.view.clearCb timer).objects }.enter who
        errand timer
  | .reset ms fromNow =>
      if ms = (state.objects timer).ms ∧ fromNow = false then state
      else if (state.objects timer).cb.isNone then state
      else state.enter who errand timer

def unlink (state : Snapshot Callback) (layout : Layout Addr) (set : CellId)
    (element : Addr) : Snapshot Callback :=
  { state with
    sets := state.sets.modify set
      (layout.build ((toList (state.sets.cells set)).erase element)) }

/-- `erase(it)` unlinks the element in the set the iterator belongs to. Erasing the
end, or where the iterator dangles, is undefined. -/
def eraseElement (state : Snapshot Callback) (layout : Layout Addr)
    (it : Iterator) : Option (Snapshot Callback) :=
  match it.element with
  | none => none
  | some element =>
      if state.sets.alive it.set = true ∧
          element ∈ toList (state.sets.cells it.set) then
        some (state.unlink layout it.set element)
      else none

/-- `addTimer(Timer::ptr)` at the end of `reset`, once the timer is armed anew. -/
def addAgain (state : Snapshot Callback) (layout : Layout Addr) (timer : Addr)
    (now ms : UInt64) : Snapshot Callback :=
  state.unshare.writeBack ((state.view.rearm timer now ms).insertTimer layout timer).1

/-- `insert` at the end of `refresh`, once the timer is armed anew. -/
def insertAgain (state : Snapshot Callback) (layout : Layout Addr) (timer : Addr)
    (now : UInt64) : Snapshot Callback :=
  state.writeBack ((state.view.rearm timer now
    (state.objects timer).ms).insertTimer layout timer).1

/-! ## Steps -/

inductive Step (Callback : Type u)
  /-- `it=timers_` in `getNextTImer`. -/
  | acquire
  /-- A reader's pointer goes out of scope. -/
  | drop (held : CellId)
  | addTimer (layout : Layout Addr) (address : Addr) (now ms : UInt64)
      (cb : Option Callback) (recuring : Bool)
  | listExpiredCb (layout : Layout Addr) (probe : Addr) (now : UInt64)
  | find (who : Nat) (errand : Errand) (timer : Addr)
  | compare (who : Nat)
  | erase (who : Nat) (layout : Layout Addr)
  | insert (who : Nat) (layout : Layout Addr) (now : UInt64)

def step (state : Snapshot Callback) : Step Callback → Option (Snapshot Callback)
  | .acquire => some { state with sets := state.sets.acquire }
  | .drop held =>
      if held ∈ state.sets.holders then
        some { state with sets := state.sets.drop held }
      else none
  | .addTimer layout address now ms cb recuring =>
      if address ∈ state.created then none
      else some (state.unshare.writeBack
        (state.view.addTimer layout address now ms cb recuring).1)
  | .listExpiredCb layout probe now =>
      if probe ∈ state.created then none
      else some (state.unshare.writeBack
        (state.view.listExpiredCb layout probe now).1)
  | .find who errand timer =>
      match state.callers who with
      | .resting =>
          if timer ∈ state.created ∧ timer ∉ state.locked then
            some (state.begin who errand timer)
          else none
      | _ => none
  | .compare who =>
      match state.callers who with
      | .found errand timer it =>
          if it = { set := state.sets.installed, element := none } then
            some (state.leave who timer)
          else some
            { state with
              callers := Function.update state.callers who
                (.matched errand timer it) }
      | _ => none
  | .erase who layout =>
      match state.callers who with
      | .matched errand timer it =>
          (state.eraseElement layout it).map fun removed =>
            if errand = .cancel then removed.leave who timer
            else
              { removed with
                callers := Function.update removed.callers who
                  (.erased errand timer) }
      | _ => none
  | .insert who layout now =>
      match state.callers who with
      | .erased (.reset ms _) timer =>
          -- `addTimer` asserts that the callback is still there.
          if (state.objects timer).cb.isNone then none
          else some ((state.addAgain layout timer now ms).leave who timer)
      | .erased .refresh timer =>
          some ((state.insertAgain layout timer now).leave who timer)
      | _ => none

def machine : Machine (Snapshot Callback) (Step Callback) where
  step := step

inductive Steps (state : Snapshot Callback) :
    Step Callback → Snapshot Callback → Prop
  | acquire : Steps state .acquire { state with sets := state.sets.acquire }
  | drop {held : CellId} (member : held ∈ state.sets.holders) :
      Steps state (.drop held) { state with sets := state.sets.drop held }
  | addTimer {layout : Layout Addr} {address : Addr} {now ms : UInt64}
      {cb : Option Callback} {recuring : Bool} (fresh : address ∉ state.created) :
      Steps state (.addTimer layout address now ms cb recuring)
        (state.unshare.writeBack
          (state.view.addTimer layout address now ms cb recuring).1)
  | listExpiredCb {layout : Layout Addr} {probe : Addr} {now : UInt64}
      (fresh : probe ∉ state.created) :
      Steps state (.listExpiredCb layout probe now)
        (state.unshare.writeBack (state.view.listExpiredCb layout probe now).1)
  | find {who : Nat} {errand : Errand} {timer : Addr}
      (standing : state.callers who = .resting) (created : timer ∈ state.created)
      (unlocked : timer ∉ state.locked) :
      Steps state (.find who errand timer) (state.begin who errand timer)
  | missing {who : Nat} {errand : Errand} {timer : Addr}
      (standing : state.callers who =
        .found errand timer { set := state.sets.installed, element := none }) :
      Steps state (.compare who) (state.leave who timer)
  | matched {who : Nat} {errand : Errand} {timer : Addr} {it : Iterator}
      (standing : state.callers who = .found errand timer it)
      (different : it ≠ { set := state.sets.installed, element := none }) :
      Steps state (.compare who)
        { state with
          callers := Function.update state.callers who (.matched errand timer it) }
  | cancelled {who : Nat} {timer : Addr} {it : Iterator} {element : Addr}
      {layout : Layout Addr} (standing : state.callers who = .matched .cancel timer it)
      (isElement : it.element = some element)
      (member : element ∈ toList (state.sets.cells it.set)) :
      Steps state (.erase who layout)
        ((state.unlink layout it.set element).leave who timer)
  | erased {who : Nat} {errand : Errand} {timer : Addr} {it : Iterator}
      {element : Addr} {layout : Layout Addr} (again : errand ≠ .cancel)
      (standing : state.callers who = .matched errand timer it)
      (isElement : it.element = some element)
      (member : element ∈ toList (state.sets.cells it.set)) :
      Steps state (.erase who layout)
        { state.unlink layout it.set element with
          callers := Function.update state.callers who (.erased errand timer) }
  | added {who : Nat} {ms : UInt64} {fromNow : Bool} {timer : Addr}
      {layout : Layout Addr} {now : UInt64}
      (standing : state.callers who = .erased (.reset ms fromNow) timer) :
      Steps state (.insert who layout now)
        ((state.addAgain layout timer now ms).leave who timer)
  | inserted {who : Nat} {timer : Addr} {layout : Layout Addr} {now : UInt64}
      (standing : state.callers who = .erased .refresh timer) :
      Steps state (.insert who layout now)
        ((state.insertAgain layout timer now).leave who timer)

variable {state next : Snapshot Callback}

theorem eraseElement_some {layout : Layout Addr} {it : Iterator}
    (erased : state.eraseElement layout it = some next) :
    ∃ element, it.element = some element ∧
      element ∈ toList (state.sets.cells it.set) ∧
      next = state.unlink layout it.set element := by
  rw [eraseElement] at erased
  split at erased
  · cases erased
  · next element isElement =>
      rcases Option.ite_none_right_eq_some.mp erased with ⟨given, result⟩
      cases result
      exact ⟨element, isElement, given.2, rfl⟩

theorem step_eq_some {label : Step Callback}
    (stepped : step state label = some next) : Steps state label next := by
  cases label with
  | acquire => cases stepped; exact .acquire
  | drop held =>
      rcases Option.ite_none_right_eq_some.mp stepped with ⟨member, result⟩
      cases result
      exact .drop member
  | addTimer layout address now ms cb recuring =>
      rcases Option.ite_none_left_eq_some.mp stepped with ⟨fresh, result⟩
      cases result
      exact .addTimer fresh
  | listExpiredCb layout probe now =>
      rcases Option.ite_none_left_eq_some.mp stepped with ⟨fresh, result⟩
      cases result
      exact .listExpiredCb fresh
  | find who errand timer =>
      simp only [step] at stepped
      split at stepped
      · next standing =>
          rcases Option.ite_none_right_eq_some.mp stepped with ⟨given, result⟩
          cases result
          exact .find standing given.1 given.2
      · cases stepped
  | compare who =>
      simp only [step] at stepped
      split at stepped
      · next errand timer it standing =>
          split at stepped
          · next isEnd =>
              cases stepped
              exact .missing (isEnd ▸ standing)
          · next different =>
              cases stepped
              exact .matched standing different
      · cases stepped
  | erase who layout =>
      simp only [step] at stepped
      split at stepped
      · next errand timer it standing =>
          rcases Option.map_eq_some_iff.mp stepped with ⟨removed, erased, result⟩
          rcases eraseElement_some erased with ⟨element, isElement, member, rfl⟩
          by_cases isCancel : errand = .cancel
          · subst isCancel
            cases result
            exact .cancelled standing isElement member
          · rw [if_neg isCancel] at result
            cases result
            exact .erased isCancel standing isElement member
      · cases stepped
  | insert who layout now =>
      simp only [step] at stepped
      split at stepped
      · next ms fromNow timer standing =>
          rcases Option.ite_none_left_eq_some.mp stepped with ⟨_, result⟩
          cases result
          exact .added standing
      · next timer standing =>
          cases stepped
          exact .inserted standing
      · cases stepped

/-! ## The manager after a step -/

@[simp] theorem view_writeBack (manager : TimerManager Callback) :
    (state.writeBack manager).view = manager := by
  simp [view, writeBack]

@[simp] theorem view_leave (who : Nat) (timer : Addr) :
    (state.leave who timer).view = state.view := rfl

@[simp] theorem view_addAgain (layout : Layout Addr) (timer : Addr)
    (now ms : UInt64) :
    (state.addAgain layout timer now ms).view =
      ((state.view.rearm timer now ms).insertTimer layout timer).1 :=
  view_writeBack _

@[simp] theorem view_insertAgain (layout : Layout Addr) (timer : Addr)
    (now : UInt64) :
    (state.insertAgain layout timer now).view =
      ((state.view.rearm timer now (state.objects timer).ms).insertTimer layout
        timer).1 :=
  view_writeBack _

theorem view_unlink (state : Snapshot Callback) (layout : Layout Addr)
    (element : Addr) :
    (state.unlink layout state.sets.installed element).view =
      { state.view with
        timers := layout.build ((toList state.view.timers).erase element) } := by
  simp [view, unlink, Shared.contents_modify]
  rfl

/-! ## Calls nobody interrupts -/

def callSteps (who : Nat) (errand : Errand) (timer : Addr) (layout : Layout Addr)
    (now : UInt64) : List (Step Callback) :=
  [.find who errand timer, .compare who, .erase who layout, .insert who layout now]

def sequential (manager : TimerManager Callback) (errand : Errand) (timer : Addr)
    (layout : Layout Addr) (now : UInt64) : TimerManager Callback :=
  match errand with
  | .cancel => (manager.cancel layout timer).1
  | .reset ms fromNow => (manager.reset layout timer now ms fromNow).1
  | .refresh => (manager.refresh layout timer now).1

theorem compare_missing (state : Snapshot Callback) {who : Nat} {errand : Errand}
    {timer : Addr}
    (missing : SearchTree.find state.view.less timer state.view.timers = none) :
    step (state.enter who errand timer) (.compare who) =
      some ((state.enter who errand timer).leave who timer) := by
  have isEnd : state.lookup timer =
      { set := state.sets.installed, element := none } := by
    rw [lookup, missing]
    rfl
  simp [step, enter, isEnd]

theorem step_compare {who : Nat} {errand : Errand} {timer : Addr} {it : Iterator}
    (standing : state.callers who = .found errand timer it)
    (different : it ≠ { set := state.sets.installed, element := none }) :
    step state (.compare who) = some
      { state with
        callers := Function.update state.callers who (.matched errand timer it) } := by
  simp [step, standing, different]

theorem step_erase (state : Snapshot Callback) {who : Nat} {errand : Errand}
    {timer element : Addr}
    (standing : state.callers who = .matched errand timer
      { set := state.sets.installed, element := some element })
    (member : element ∈ toList state.sets.contents) (layout : Layout Addr) :
    step state (.erase who layout) = some
      (if errand = .cancel then
        (state.unlink layout state.sets.installed element).leave who timer
      else
        { state.unlink layout state.sets.installed element with
          callers := Function.update state.callers who (.erased errand timer) }) := by
  have alive : state.sets.alive state.sets.installed = true := by
    simp [Shared.alive]
  have inside : element ∈ toList (state.sets.cells state.sets.installed) := member
  simp only [step, standing, eraseElement, alive, inside, and_self, if_true,
    Option.map_some]
  rfl

theorem run_found (state : Snapshot Callback) (who : Nat) (errand : Errand)
    {timer : Addr} {it : Nat}
    (valid : state.view.Valid) (layout : Layout Addr)
    (found : SearchTree.find state.view.less timer state.view.timers = some it) :
    ∃ next, machine.run (state.enter who errand timer)
        [.compare who, .erase who layout] = some next ∧
      next.view = { state.view with timers := eraseAt layout it state.view.timers } ∧
      next.callers who = if errand = .cancel then .resting else .erased errand timer := by
  rcases valid.chain.find_some found with ⟨element, atPosition⟩
  have isElement : state.lookup timer =
      { set := state.sets.installed, element := some element } := by
    rw [lookup, found, Option.bind_some, atPosition]
  have sameTree : layout.build ((toList state.view.timers).erase element) =
      eraseAt layout it state.view.timers := by
    rcases List.getElem?_eq_some_iff.mp atPosition with ⟨inside, isElement⟩
    rw [eraseAt, ← isElement, valid.chain.nodup.erase_getElem it inside]
  let entered := state.enter who errand timer
  let compared : Snapshot Callback :=
    { entered with
      callers := Function.update entered.callers who (.matched errand timer
        { set := state.sets.installed, element := some element }) }
  have comparing : step entered (.compare who) = some compared := by
    apply step_compare
    · rw [← isElement]
      exact Function.update_self ..
    · simp
  have erasing := step_erase compared (Function.update_self ..)
    (List.mem_of_getElem? atPosition) layout
  have unlinked : (compared.unlink layout state.sets.installed element).view =
      { state.view with timers := eraseAt layout it state.view.timers } := by
    rw [← sameTree]
    exact view_unlink compared layout element
  refine ⟨_, Option.bind_eq_some_iff.mpr ⟨compared, comparing,
    Option.bind_eq_some_iff.mpr ⟨_, erasing, rfl⟩⟩, ?_, ?_⟩
  · by_cases isCancel : errand = .cancel
    · rw [if_pos isCancel]
      exact unlinked
    · rw [if_neg isCancel]
      exact unlinked
  · by_cases isCancel : errand = .cancel
    · rw [if_pos isCancel, if_pos isCancel]
      exact Function.update_self ..
    · rw [if_neg isCancel, if_neg isCancel]
      exact Function.update_self ..

/-- A `reset` or `refresh` that has found an element puts its timer in its place. -/
theorem run_replaced (state : Snapshot Callback) (who : Nat) {errand : Errand}
    {timer : Addr} {it : Nat}
    (valid : state.view.Valid) (layout : Layout Addr) (now : UInt64)
    (found : SearchTree.find state.view.less timer state.view.timers = some it)
    {ms : UInt64}
    (inserts : (∃ fromNow, errand = .reset ms fromNow ∧
        (state.objects timer).cb.isNone = false) ∨
      errand = .refresh ∧ ms = (state.objects timer).ms) :
    ∃ next, machine.run (state.enter who errand timer)
        [.compare who, .erase who layout, .insert who layout now] = some next ∧
      next.callers who = .resting ∧
      next.view = state.view.replace layout timer it now ms := by
  rcases run_found state who errand valid layout found with
    ⟨erased, ran, view, callers⟩
  have objects : erased.objects = state.objects :=
    congrArg TimerManager.objects view
  have split : ([.compare who, .erase who layout, .insert who layout now] :
      List (Step Callback)) =
        [.compare who, .erase who layout] ++ [.insert who layout now] := rfl
  rw [split, Machine.run_append, ran, Option.bind_some]
  rcases inserts with ⟨fromNow, rfl, filled⟩ | ⟨rfl, rfl⟩
  · have standing : erased.callers who = .erased (.reset ms fromNow) timer := callers
    have stepped : step erased (.insert who layout now) =
        some ((erased.addAgain layout timer now ms).leave who timer) := by
      simp only [step, standing, objects, filled]
      rfl
    refine ⟨_, Option.bind_eq_some_iff.mpr ⟨_, stepped, rfl⟩,
      Function.update_self .., ?_⟩
    rw [view_leave, view_addAgain, view]
    rfl
  · have standing : erased.callers who = .erased .refresh timer := callers
    have stepped : step erased (.insert who layout now) =
        some ((erased.insertAgain layout timer now).leave who timer) := by
      simp only [step, standing]
    refine ⟨_, Option.bind_eq_some_iff.mpr ⟨_, stepped, rfl⟩,
      Function.update_self .., ?_⟩
    rw [view_leave, view_insertAgain, view, objects]
    rfl

theorem run_missing (state : Snapshot Callback) (who : Nat) (errand : Errand) {timer : Addr}
    (missing : SearchTree.find state.view.less timer state.view.timers = none) :
    ∃ next, machine.run (state.enter who errand timer) [.compare who] = some next ∧
      next.callers who = .resting ∧ next.view = state.view := by
  have ran := @compare_missing _ state who errand timer missing
  exact ⟨_, Option.bind_eq_some_iff.mpr ⟨_, ran, rfl⟩, Function.update_self .., rfl⟩

theorem run_callSteps (valid : state.view.Valid) {who : Nat} (errand : Errand)
    {timer : Addr} (standing : state.callers who = .resting)
    (created : timer ∈ state.created) (unlocked : timer ∉ state.locked)
    (layout : Layout Addr) (now : UInt64) :
    ∃ count next,
      machine.run state ((callSteps who errand timer layout now).take count) =
        some next ∧
      next.callers who = .resting ∧
      next.view = sequential state.view errand timer layout now := by
  let cleared : Snapshot Callback :=
    { state with objects := (state.view.clearCb timer).objects }
  have clearedView : cleared.view = state.view.clearCb timer := rfl
  have begins : step state (.find who errand timer) =
      some (state.begin who errand timer) := by
    simp [step, standing, created, unlocked]
  cases errand with
  | cancel =>
      rcases TimerManager.cancel_cases state.view layout timer with
        ⟨missing, result⟩ | ⟨it, found, result⟩
      · rw [← TimerManager.less_clearCb state.view timer] at missing
        rcases run_missing cleared who .cancel missing with ⟨next, ran, callers, view⟩
        refine ⟨2, next, Option.bind_eq_some_iff.mpr ⟨_, begins, ran⟩, callers, ?_⟩
        rw [sequential, result, view]
        rfl
      · rw [← TimerManager.less_clearCb state.view timer] at found
        rcases run_found cleared who .cancel (valid.clearCb timer) layout found with
          ⟨next, ran, view, callers⟩
        refine ⟨3, next, Option.bind_eq_some_iff.mpr ⟨_, begins, ran⟩, callers, ?_⟩
        rw [sequential, result, view]
        rfl
  | reset ms fromNow =>
      simp only [begin] at begins
      have sameObjects : state.view.objects = state.objects := rfl
      simp only [sequential, TimerManager.reset, sameObjects]
      by_cases early : ms = (state.objects timer).ms ∧ fromNow = false
      · rw [if_pos early] at begins
        refine ⟨1, state, Option.bind_eq_some_iff.mpr ⟨_, begins, rfl⟩, standing, ?_⟩
        rw [if_pos early]
      · rw [if_neg early] at begins
        rw [if_neg early]
        cases filled : (state.objects timer).cb.isNone with
        | true =>
            rw [if_pos filled] at begins
            refine ⟨1, state, Option.bind_eq_some_iff.mpr ⟨_, begins, rfl⟩, standing, ?_⟩
            rfl
        | false =>
            have hasCb : ¬(state.objects timer).cb.isNone = true := by simp [filled]
            rw [if_neg hasCb] at begins
            rw [if_neg Bool.false_ne_true]
            cases found : SearchTree.find state.view.less timer state.view.timers with
            | none =>
                rcases run_missing state who (.reset ms fromNow) found with
                  ⟨next, ran, callers, view⟩
                exact ⟨2, next, Option.bind_eq_some_iff.mpr ⟨_, begins, ran⟩, callers,
                  view⟩
            | some it =>
                rcases run_replaced state who valid layout now found
                  (Or.inl ⟨fromNow, rfl, filled⟩) with ⟨next, ran, callers, view⟩
                exact ⟨4, next, Option.bind_eq_some_iff.mpr ⟨_, begins, ran⟩, callers,
                  view⟩
  | refresh =>
      rcases TimerManager.refresh_cases state.view layout timer now with
        ⟨missing, result⟩ | ⟨it, found, result⟩
      · rw [← TimerManager.less_clearCb state.view timer] at missing
        rcases run_missing cleared who .refresh missing with ⟨next, ran, callers, view⟩
        refine ⟨2, next, Option.bind_eq_some_iff.mpr ⟨_, begins, ran⟩, callers, ?_⟩
        rw [sequential, result, view]
        rfl
      · rw [← TimerManager.less_clearCb state.view timer] at found
        have delay : (state.objects timer).ms = (cleared.objects timer).ms := by
          simp only [cleared, TimerManager.objects_clearCb]
          rfl
        rcases run_replaced cleared who (valid.clearCb timer) layout now found
          (Or.inr ⟨rfl, delay⟩) with ⟨next, ran, callers, view⟩
        refine ⟨4, next, Option.bind_eq_some_iff.mpr ⟨_, begins, ran⟩, callers, ?_⟩
        rw [sequential, result, view]
        rfl

/-! ## The effect of a step on the sets -/

@[simp] theorem sets_begin (who : Nat) (errand : Errand) (timer : Addr) :
    (state.begin who errand timer).sets = state.sets := by
  cases errand with
  | cancel | refresh => rfl
  | reset ms fromNow =>
      simp only [begin]
      split
      · rfl
      · split <;> rfl

def touched (state : Snapshot Callback) : Step Callback → Option CellId
  | .addTimer .. | .listExpiredCb .. => some state.sets.unshare.installed
  | .erase who _ =>
      match state.callers who with
      | .matched _ _ it => some it.set
      | _ => none
  | .insert who _ _ =>
      match state.callers who with
      | .erased (.reset ..) _ => some state.sets.unshare.installed
      | .erased .refresh _ => some state.sets.installed
      | _ => none
  | .acquire | .drop _ | .find .. | .compare _ => none

/-- How the sets change: a step takes or drops a pointer, writes the set after
making it unique, writes some object in place, or leaves all of them alone. -/
inductive Writes (sets : Shared (BinaryTree Addr)) :
    Option CellId → Shared (BinaryTree Addr) → Prop
  | same : Writes sets none sets
  | acquired : Writes sets none sets.acquire
  | dropped (held : CellId) : Writes sets none (sets.drop held)
  | own (tree : BinaryTree Addr) :
      Writes sets (some sets.unshare.installed) (sets.unshare.write tree)
  | inPlace (set : CellId) (tree : BinaryTree Addr) :
      Writes sets (some set) (sets.modify set tree)

theorem Steps.writes {label : Step Callback} (steps : Steps state label next) :
    Writes state.sets (state.touched label) next.sets := by
  cases steps with
  | acquire => exact .acquired
  | drop member => exact .dropped _
  | addTimer fresh => exact .own _
  | listExpiredCb fresh => exact .own _
  | find standing created unlocked =>
      rw [sets_begin]
      exact .same
  | missing standing => exact .same
  | matched standing different => exact .same
  | cancelled standing isElement member =>
      simp only [touched, standing]
      exact .inPlace _ _
  | erased again standing isElement member =>
      simp only [touched, standing]
      exact .inPlace _ _
  | added standing =>
      simp only [touched, standing]
      exact .own _
  | inserted standing =>
      simp only [touched, standing]
      exact .inPlace _ _

theorem Writes.sound {sets after : Shared (BinaryTree Addr)}
    {touched : Option CellId} (writes : Writes sets touched after)
    (sound : sets.Sound) : after.Sound := by
  cases writes with
  | same => exact sound
  | acquired => exact sound.acquire
  | dropped held => exact sound.drop held
  | own tree => exact sound.unshare.modify _ tree
  | inPlace set tree => exact sound.modify set tree

/-! ## Isolation -/

/-- The step inserts into no set and erases from no set that a reader holds, and the
sets of the readers stay as they are. -/
def Isolated (state : Snapshot Callback) (label : Step Callback) : Prop :=
  (∀ set, state.touched label = some set → set ∉ state.sets.holders) ∧
    ∀ next, step state label = some next →
      ∀ held ∈ state.sets.holders, next.sets.cells held = state.sets.cells held

/-- No reader holds the set that `cancel`, `reset` and `refresh` erase from, nor the
one that `refresh` inserts into. -/
def Unobserved (state : Snapshot Callback) : Step Callback → Prop
  | .erase who _ => ∀ errand timer it,
      state.callers who = .matched errand timer it → it.set ∉ state.sets.holders
  | .insert who _ _ => ∀ timer,
      state.callers who = .erased .refresh timer →
        state.sets.installed ∉ state.sets.holders
  | .acquire | .drop _ | .addTimer .. | .listExpiredCb .. | .find ..
  | .compare _ => True

theorem Writes.cells_eq {sets after : Shared (BinaryTree Addr)}
    {touched : Option CellId} (writes : Writes sets touched after)
    (sound : sets.Sound) {held : CellId} (member : held ∈ sets.holders)
    (spared : ∀ set, touched = some set → set ∉ sets.holders) :
    after.cells held = sets.cells held := by
  cases writes with
  | same | acquired | dropped => rfl
  | own tree => exact sound.cells_write_unshare member tree
  | inPlace set tree =>
      have different : held ≠ set := by
        intro same
        subst same
        exact spared held rfl member
      exact sets.cells_modify_of_ne different tree

theorem touched_unheld_iff (sound : state.sets.Sound) (label : Step Callback) :
    (∀ set, state.touched label = some set → set ∉ state.sets.holders) ↔
      state.Unobserved label := by
  cases label with
  | addTimer | listExpiredCb =>
      simp only [touched, Unobserved, Option.some.injEq, forall_eq', iff_true]
      exact sound.unshare_unique
  | acquire | drop | find | compare => simp [touched, Unobserved]
  | erase who layout =>
      simp only [touched, Unobserved]
      cases state.callers who with
      | matched errand timer it => simp
      | resting | found | erased => simp
  | insert who layout now =>
      simp only [touched, Unobserved]
      cases state.callers who with
      | erased errand timer =>
          cases errand with
          | cancel => simp
          | reset ms fromNow => simp [sound.unshare_unique]
          | refresh => simp
      | resting | found | matched => simp

theorem isolated_iff (sound : state.sets.Sound) (label : Step Callback) :
    state.Isolated label ↔ state.Unobserved label := by
  rw [← touched_unheld_iff sound label, Isolated, and_iff_left_iff_imp]
  intro spared next stepped held member
  exact (step_eq_some stepped).writes.cells_eq sound member spared

/-- In every interleaving of readers with the operations, each step leaves the sets
the readers hold alone, exactly if no reader holds a set that `cancel`, `reset` or
`refresh` modifies without asking. -/
theorem isolated_iff_unobserved (start : UInt64) (labels : List (Step Callback)) :
    machine.StepsMeet Isolated (.new start) labels ↔
      machine.StepsMeet Unobserved (.new start) labels := by
  have initially : (Snapshot.new start : Snapshot Callback).sets.Sound :=
    Shared.Sound.single _
  apply Machine.stepsMeet_congr (fun state : Snapshot Callback => state.sets.Sound)
    ?_ ?_ initially
  · intro before label next sound stepped
    exact (step_eq_some stepped).writes.sound sound
  · intro before label next sound _
    exact isolated_iff sound label

/-- A reader has copied the pointer when a timer is cancelled. -/
theorem isolated_iff_unobserved_fails :
    ¬(machine : Machine (Snapshot Unit) (Step Unit)).StepsMeet Isolated (.new 1000)
      [.addTimer spine 1 1000 10 (some ()) false, .acquire, .find 0 .cancel 1,
        .compare 0, .erase 0 spine] := by
  intro isolated
  have erases :=
    ((((isolated _ rfl).2 _ rfl).2 _ rfl).2 _ rfl).2 _ rfl
  exact erases.1.1 0 rfl (by decide)

end Snapshot

end Sylar.Timers
