import Sylar.Foundation.Machine
import Sylar.Foundation.SearchTree
import Mathlib.Logic.Function.Basic

/-! # Timers and the timer manager

`Timer` objects live at addresses; `timers` is the ordered set of the pending
ones, keyed by `comparator`. The operations are the sequential ones: nobody else
holds `timers_`, so it is unique whenever it is tested and no copy is made. The
set rebalances as it likes, so every modification takes a `Layout`.
-/

namespace Sylar.Timers

open Foundation Foundation.SearchTree

abbrev Addr := Nat

/-- A timer object. `ms` is the delay and `nextMs` the deadline. -/
structure Timer (Callback : Type u) where
  ms : UInt64 := 0
  nextMs : UInt64 := 0
  recuring : Bool := false
  cb : Option Callback := none

namespace Timer

variable {Callback : Type u}

/-- `Timer(ms, cb, recuring, manager)`, with the clock reading it takes. -/
def new (now ms : UInt64) (cb : Option Callback) (recuring : Bool) :
    Timer Callback where
  ms := ms
  nextMs := now + ms
  recuring := recuring
  cb := cb

/-- `Timer(next)` has an empty body: every member keeps its default. -/
def ofNext (_next : UInt64) : Timer Callback := {}

end Timer

/-! ## The comparator -/

def comparator (objects : Addr → Timer Callback) :
    Option Addr → Option Addr → Bool
  | none, none => false
  | none, some _ => true
  | some _, none => false
  | some a, some b =>
      if (objects a).nextMs < (objects b).nextMs then false
      else decide (a < b)

/-- The order the comparator gives to timers with the given deadlines: a lower
address and a deadline that is no earlier. -/
def before (deadline : Addr → UInt64) (a b : Addr) : Bool :=
  decide (deadline b ≤ deadline a) && decide (a < b)

theorem comparator_some (objects : Addr → Timer Callback) (a b : Addr) :
    comparator objects (some a) (some b) =
      before (fun timer => (objects timer).nextMs) a b := by
  by_cases earlier : (objects a).nextMs < (objects b).nextMs
  · simp [comparator, before, earlier, UInt64.not_le.mpr earlier]
  · simp [comparator, before, earlier, UInt64.not_lt.mp earlier]

theorem before_iff {deadline : Addr → UInt64} {a b : Addr} :
    before deadline a b = true ↔ deadline b ≤ deadline a ∧ a < b := by
  simp [before]

theorem before_irreflexive (deadline : Addr → UInt64) (timer : Addr) :
    before deadline timer timer = false := by
  simp [before]

theorem before_transitive (deadline : Addr → UInt64) (first second third : Addr)
    (left : before deadline first second = true)
    (right : before deadline second third = true) :
    before deadline first third = true := by
  rw [before_iff] at left right ⊢
  exact ⟨UInt64.le_trans right.1 left.1, Nat.lt_trans left.2 right.2⟩

/-! ## The manager -/

structure TimerManager (Callback : Type u) where
  objects : Addr → Timer Callback
  /-- The addresses of the timers handed out so far. -/
  created : List Addr
  timers : BinaryTree Addr
  previousTimr : UInt64

namespace TimerManager

variable {Callback : Type u}

def new (now : UInt64) : TimerManager Callback where
  objects := fun _ => {}
  created := []
  timers := .nil
  previousTimr := now

def deadline (manager : TimerManager Callback) (timer : Addr) : UInt64 :=
  (manager.objects timer).nextMs

def less (manager : TimerManager Callback) (a b : Addr) : Bool :=
  comparator manager.objects (some a) (some b)

theorem less_eq (manager : TimerManager Callback) :
    manager.less = before manager.deadline := by
  funext a b
  exact comparator_some manager.objects a b

def setObject (manager : TimerManager Callback) (timer : Addr)
    (object : Timer Callback) : TimerManager Callback :=
  { manager with objects := Function.update manager.objects timer object }

/-- The section of `addTimer` under the mutex: insert a timer, and report
whether the element the set returns stands first. -/
def insertTimer (manager : TimerManager Callback) (layout : Layout Addr)
    (timer : Addr) : TimerManager Callback × Bool :=
  let insertion := insertUnique manager.less layout timer manager.timers
  ({ manager with timers := insertion.tree }, insertion.position == 0)

def create (manager : TimerManager Callback) (address : Addr) (now ms : UInt64)
    (cb : Option Callback) (recuring : Bool) : TimerManager Callback :=
  { manager.setObject address (.new now ms cb recuring) with
    created := address :: manager.created }

/-- `addTimer(ms, cb, recuring)`. The flag says whether
`onTimerInsertAtFront` is called. -/
def addTimer (manager : TimerManager Callback) (layout : Layout Addr)
    (address : Addr) (now ms : UInt64) (cb : Option Callback)
    (recuring : Bool) : TimerManager Callback × Bool :=
  (manager.create address now ms cb recuring).insertTimer layout address

def clearCb (manager : TimerManager Callback) (timer : Addr) :
    TimerManager Callback :=
  manager.setObject timer { manager.objects timer with cb := none }

def cancel (manager : TimerManager Callback) (layout : Layout Addr)
    (timer : Addr) : TimerManager Callback × Bool :=
  let cleared := manager.clearCb timer
  match find cleared.less timer cleared.timers with
  | none => (cleared, false)
  | some it =>
      ({ cleared with timers := eraseAt layout it cleared.timers }, true)

def rearm (manager : TimerManager Callback) (timer : Addr) (now ms : UInt64) :
    TimerManager Callback :=
  manager.setObject timer
    { manager.objects timer with ms := ms, nextMs := now + ms }

/-- `Timer::reset`. The answer is `none` where the function flows off its end
without returning a value; the last component says whether
`onTimerInsertAtFront` is called. -/
def reset (manager : TimerManager Callback) (layout : Layout Addr)
    (timer : Addr) (now ms : UInt64) (fromNow : Bool) :
    TimerManager Callback × Option Bool × Bool :=
  if ms = (manager.objects timer).ms ∧ fromNow = false then
    (manager, some false, false)
  else
    let it := find manager.less timer manager.timers
    if (manager.objects timer).cb.isNone then (manager, some false, false)
    else
      match it with
      | none => (manager, none, false)
      | some it =>
          let erased :=
            { manager with timers := eraseAt layout it manager.timers }
          let added := (erased.rearm timer now ms).insertTimer layout timer
          (added.1, none, added.2)

def refresh (manager : TimerManager Callback) (layout : Layout Addr)
    (timer : Addr) (now : UInt64) : TimerManager Callback × Bool :=
  let cleared := manager.clearCb timer
  match find cleared.less timer cleared.timers with
  | none => (cleared, false)
  | some it =>
      let erased :=
        { cleared with timers := eraseAt layout it cleared.timers }
      let armed := erased.rearm timer now (erased.objects timer).ms
      ((armed.insertTimer layout timer).1, false)

/-- The test of `detectClockRollover`, on wrapping 64-bit numbers. -/
def rollsBack (previous now : UInt64) : Bool :=
  decide (now < previous) && decide (now < previous - 60 * 60 * 1000)

/-- The body of the loop of `listExpiredCb` over the expired timers. -/
def expireOne (manager : TimerManager Callback) (layout : Layout Addr)
    (now : UInt64) (timer : Addr) : TimerManager Callback :=
  let val := manager.objects timer
  if val.recuring then
    ((manager.rearm timer now val.ms).insertTimer layout timer).1
  else manager.clearCb timer

def expireAll (layout : Layout Addr) (now : UInt64) :
    List Addr → TimerManager Callback →
      TimerManager Callback × List (Option Callback)
  | [], manager => (manager, [])
  | timer :: rest, manager =>
      let finished :=
        expireAll layout now rest (manager.expireOne layout now timer)
      (finished.1, (manager.objects timer).cb :: finished.2)

/-- Where `listExpiredCb` cuts the set: at the end after a rollover, else at the
`upper_bound` of a timer built at the address `probe`. -/
def cut (manager : TimerManager Callback) (probe : Addr) (now : UInt64) : Nat :=
  if rollsBack manager.previousTimr now then (toList manager.timers).length
  else
    upperBound (manager.setObject probe (.ofNext now)).less probe manager.timers

def expired (manager : TimerManager Callback) (probe : Addr) (now : UInt64) :
    List Addr :=
  match toList manager.timers with
  | [] => []
  | first :: _ =>
      if !rollsBack manager.previousTimr now && decide (now < manager.deadline first)
      then []
      else (toList manager.timers).take (manager.cut probe now)

def listExpiredCb (manager : TimerManager Callback) (layout : Layout Addr)
    (probe : Addr) (now : UInt64) :
    TimerManager Callback × List (Option Callback) :=
  -- An empty set returns before the clock reading is recorded.
  if toList manager.timers = [] then (manager, [])
  else
    let read := { manager with previousTimr := now }
    match manager.expired probe now with
    | [] => (read, [])
    | first :: rest =>
        let erased :=
          { read with
            timers := erasePrefix layout (manager.cut probe now) manager.timers }
        expireAll layout now (first :: rest) erased

end TimerManager

end Sylar.Timers
