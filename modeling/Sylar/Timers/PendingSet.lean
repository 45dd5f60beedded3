import Mathlib.Order.BooleanAlgebra.Set
import Sylar.Timers.Chain

/-! # The set of pending timers

What the timer manager is for: a set of timers that a caller fills, empties and
re-arms, and that gives up its one-shot timers when it delivers them. The second
half of the file says when one step of the manager is a step of that set.
-/

namespace Sylar.Timers

open Foundation Foundation.SearchTree

/-! ## The abstract set -/

namespace PendingSet

/-- What a caller sees of one operation. A delivery names the timers whose
callbacks are emitted, each with its `recuring` flag. -/
inductive Event
  | added (timer : Addr)
  | cancelled (timer : Addr) (answer : Bool)
  | rearmed (timer : Addr)
  | expired (emitted : List (Addr × Bool))

def Admits (pending : Set Addr) : Event → Prop
  | .added timer => timer ∉ pending
  | .cancelled timer answer => answer = true ↔ timer ∈ pending
  | .rearmed _ => True
  | .expired emitted =>
      (emitted.map Prod.fst).Nodup ∧ ∀ entry ∈ emitted, entry.1 ∈ pending

def next (pending : Set Addr) : Event → Set Addr
  | .added timer => insert timer pending
  | .cancelled timer _ => pending \ {timer}
  | .rearmed _ => pending
  | .expired emitted => pending \ {timer | (timer, false) ∈ emitted}

/-- The set after a sequence of events it admits one after the other. -/
inductive Evolves : Set Addr → List Event → Set Addr → Prop
  | nil (pending) : Evolves pending [] pending
  | cons {pending final event events} :
      Admits pending event →
      Evolves (next pending event) events final →
      Evolves pending (event :: events) final

end PendingSet

/-! ## The operations as steps -/

inductive Action (Callback : Type u)
  | addTimer (address : Addr) (now ms : UInt64) (cb : Option Callback)
      (recuring : Bool)
  | cancel (timer : Addr)
  | reset (timer : Addr) (now ms : UInt64) (fromNow : Bool)
  | refresh (timer : Addr) (now : UInt64)
  | listExpiredCb (probe : Addr) (now : UInt64)

/-- An operation and the shape its modifications give to the tree. -/
structure Call (Callback : Type u) where
  action : Action Callback
  layout : Layout Addr := spine

namespace TimerManager

variable {Callback : Type u}

def Enabled (manager : TimerManager Callback) : Action Callback → Prop
  | .addTimer address .. => address ∉ manager.created
  | .cancel timer | .reset timer .. | .refresh timer _ =>
      timer ∈ manager.created
  | .listExpiredCb probe _ => probe ∉ manager.created

instance (manager : TimerManager Callback) :
    (action : Action Callback) → Decidable (manager.Enabled action)
  | .addTimer .. | .listExpiredCb .. => inferInstanceAs (Decidable (_ ∉ _))
  | .cancel _ | .reset .. | .refresh .. => inferInstanceAs (Decidable (_ ∈ _))

def execute (manager : TimerManager Callback) (call : Call Callback) :
    TimerManager Callback × PendingSet.Event :=
  match call.action with
  | .addTimer address now ms cb recuring =>
      ((manager.addTimer call.layout address now ms cb recuring).1,
        .added address)
  | .cancel timer =>
      let cancelled := manager.cancel call.layout timer
      (cancelled.1, .cancelled timer cancelled.2)
  | .reset timer now ms fromNow =>
      ((manager.reset call.layout timer now ms fromNow).1, .rearmed timer)
  | .refresh timer now =>
      ((manager.refresh call.layout timer now).1, .rearmed timer)
  | .listExpiredCb probe now =>
      ((manager.listExpiredCb call.layout probe now).1,
        .expired ((manager.expired probe now).map fun timer =>
          (timer, (manager.objects timer).recuring)))

def machine : Machine (TimerManager Callback) (Call Callback) where
  step manager call :=
    if manager.Enabled call.action then some (manager.execute call).1 else none

theorem machine_step_iff {manager next : TimerManager Callback}
    {call : Call Callback} :
    machine.step manager call = some next ↔
      manager.Enabled call.action ∧ (manager.execute call).1 = next := by
  simp [machine]

def pending (manager : TimerManager Callback) : Set Addr :=
  {timer | timer ∈ toList manager.timers}

@[simp] theorem mem_pending {manager : TimerManager Callback} {timer : Addr} :
    timer ∈ manager.pending ↔ timer ∈ toList manager.timers := Iff.rfl

structure Valid (manager : TimerManager Callback) : Prop where
  chain : manager.IsChain
  created : ∀ timer ∈ toList manager.timers, timer ∈ manager.created

theorem Valid.new (now : UInt64) :
    (TimerManager.new now : TimerManager Callback).Valid where
  chain := List.Pairwise.nil
  created := by simp [TimerManager.new]

/-! ## Adding -/

variable {manager : TimerManager Callback}

theorem Valid.create (valid : manager.Valid) {address : Addr}
    (fresh : address ∉ manager.created) (now ms : UInt64)
    (cb : Option Callback) (recuring : Bool) :
    (manager.create address now ms cb recuring).Valid where
  chain := valid.chain.of_update rfl
    (deadline_create manager address now ms cb recuring)
    (fun member => fresh (valid.created address member))
  created timer member :=
    List.mem_cons_of_mem _ (valid.created timer member)

theorem Valid.insertTimer (valid : manager.Valid) (layout : Layout Addr)
    {timer : Addr} (created : timer ∈ manager.created) :
    (manager.insertTimer layout timer).1.Valid where
  chain := valid.chain.insertTimer layout timer
  created other member := by
    rcases (valid.chain.mem_insertTimer layout timer other).mp member with
      stayed | ⟨isNew, _⟩
    · exact valid.created other stayed
    · exact isNew ▸ created

theorem Valid.addTimer (valid : manager.Valid) (layout : Layout Addr)
    {address : Addr} (fresh : address ∉ manager.created) (now ms : UInt64)
    (cb : Option Callback) (recuring : Bool) :
    (manager.addTimer layout address now ms cb recuring).1.Valid :=
  (valid.create fresh now ms cb recuring).insertTimer layout
    List.mem_cons_self

/-- `addTimer` adds the timer and removes none, exactly if the comparator can
place the new timer. -/
theorem Valid.pending_addTimer_iff (valid : manager.Valid)
    (layout : Layout Addr) {address : Addr}
    (fresh : address ∉ manager.created) (now ms : UInt64)
    (cb : Option Callback) (recuring : Bool) :
    (manager.addTimer layout address now ms cb recuring).1.pending =
        insert address manager.pending ↔
      (manager.create address now ms cb recuring).Placeable address := by
  have chain := (valid.create fresh now ms cb recuring).chain
  have outside : address ∉ toList manager.timers :=
    fun member => fresh (valid.created address member)
  simp only [Set.ext_iff, mem_pending, Set.mem_insert_iff, TimerManager.addTimer,
    chain.mem_insertTimer layout, timers_create]
  constructor
  · intro same
    rcases (same address).mpr (Or.inl rfl) with member | ⟨_, placeable⟩
    · exact absurd member outside
    · exact placeable
  · intro placeable timer
    simp [placeable, or_comm]

/-! ## Cancelling -/

theorem Valid.clearCb (valid : manager.Valid) (timer : Addr) :
    (manager.clearCb timer).Valid where
  chain := valid.chain.clearCb timer
  created := valid.created

theorem Valid.erase (valid : manager.Valid) (layout : Layout Addr) (it : Nat) :
    ({ manager with timers := eraseAt layout it manager.timers } :
      TimerManager Callback).Valid where
  chain := Chain.eraseAt valid.chain layout it
  created timer member := by
    rw [toList_eraseAt] at member
    exact valid.created timer (List.mem_of_mem_eraseIdx member)

theorem Valid.cancel (valid : manager.Valid) (layout : Layout Addr)
    (timer : Addr) : (manager.cancel layout timer).1.Valid := by
  have cleared := valid.clearCb timer
  unfold TimerManager.cancel
  dsimp only
  split
  · exact cleared
  · exact cleared.erase layout _

/-- `cancel` removes its timer and nothing else, and answers whether it was
pending, exactly if it was or the comparator can place it among the others. -/
theorem Valid.pending_cancel_iff (valid : manager.Valid) (layout : Layout Addr)
    (timer : Addr) :
    ((manager.cancel layout timer).1.pending = manager.pending \ {timer} ∧
        ((manager.cancel layout timer).2 = true ↔ timer ∈ manager.pending)) ↔
      timer ∈ manager.pending ∨ manager.Placeable timer := by
  have missing := valid.chain.find_eq_none_iff timer
  simp only [TimerManager.cancel, less_clearCb, timers_clearCb]
  cases found : find manager.less timer manager.timers with
  | none =>
      have placeable := missing.mp found
      have notPending : timer ∉ manager.pending :=
        valid.chain.not_pending_of_find_none found
      have same : manager.pending \ {timer} = manager.pending :=
        Set.sdiff_singleton_eq_self notPending
      rw [same]
      simp only [notPending, placeable, or_true, iff_true, iff_false]
      exact ⟨rfl, by simp⟩
  | some it =>
      rcases valid.chain.find_some found with ⟨value, atPosition⟩
      have erased := valid.chain.mem_erase layout atPosition
      have notPlaceable : ¬manager.Placeable timer := by
        intro placeable
        rw [missing.mpr placeable] at found
        cases found
      simp only [notPlaceable, or_false, true_iff]
      constructor
      · exact fun same => same.2
      · intro member
        have isTimer := valid.chain.found_pending found atPosition member
        subst isTimer
        refine ⟨?_, member⟩
        ext other
        exact erased other

/-! ## Re-arming -/

/-- The comparator can place the timer under its new deadline or, where it is
not pending, under its old one. -/
def Rearmable (manager : TimerManager Callback) (timer : Addr)
    (now ms : UInt64) : Prop :=
  if timer ∈ toList manager.timers then
    ∀ other ∈ toList manager.timers, other ≠ timer →
      Comparable (before (Function.update manager.deadline timer (now + ms)))
        other timer
  else manager.Placeable timer

instance (timer : Addr) (now ms : UInt64) :
    Decidable (manager.Rearmable timer now ms) := by
  unfold Rearmable
  infer_instance

theorem Valid.rearmed (valid : manager.Valid) (layout : Layout Addr)
    {timer : Addr} (created : timer ∈ manager.created) (now ms : UInt64)
    {it : Nat} (found : find manager.less timer manager.timers = some it) :
    let erased : TimerManager Callback :=
      { manager with timers := eraseAt layout it manager.timers }
    ((erased.rearm timer now ms).insertTimer layout timer).1.Valid ∧
      (((erased.rearm timer now ms).insertTimer layout timer).1.pending =
          manager.pending ↔ manager.Rearmable timer now ms) := by
  intro erased
  rcases valid.chain.find_some found with ⟨value, atPosition⟩
  have erasedMem : ∀ other, other ∈ toList erased.timers ↔
      other ∈ toList manager.timers ∧ other ≠ value :=
    valid.chain.mem_erase layout atPosition
  have erasedValid : erased.Valid := valid.erase layout it
  have pendingIsFound := valid.chain.found_pending found atPosition
  have outside : timer ∉ toList erased.timers := valid.chain.outside_erased layout found
  have armedValid : (erased.rearm timer now ms).Valid :=
    { chain := erasedValid.chain.rearm outside now ms
      created := erasedValid.created }
  refine ⟨armedValid.insertTimer layout created, ?_⟩
  simp only [Set.ext_iff, mem_pending, armedValid.chain.mem_insertTimer layout,
    timers_rearm, erasedMem]
  by_cases wasPending : timer ∈ toList manager.timers
  · have isTimer := pendingIsFound wasPending
    subst isTimer
    have placeable : (erased.rearm value now ms).Placeable value ↔
        manager.Rearmable value now ms := by
      simp only [Rearmable, wasPending, if_true, Placeable, timers_rearm,
        erasedMem, deadline_rearm, and_imp]
      exact Iff.rfl
    rw [← placeable]
    constructor
    · intro same
      rcases (same value).mpr wasPending with ⟨_, different⟩ | ⟨_, isPlaceable⟩
      · exact absurd rfl different
      · exact isPlaceable
    · intro isPlaceable other
      by_cases isValue : other = value
      · simp [isValue, isPlaceable, wasPending]
      · simp [isValue]
  · have notPlaceable : ¬manager.Placeable timer := by
      intro placeable
      rw [(valid.chain.find_eq_none_iff timer).mpr placeable] at found
      cases found
    have lost : value ∈ toList manager.timers := List.mem_of_getElem? atPosition
    have different : value ≠ timer := fun same => wasPending (same ▸ lost)
    simp only [Rearmable, wasPending, if_false, notPlaceable, iff_false]
    intro same
    rcases (same value).mpr lost with ⟨_, self⟩ | ⟨isTimer, _⟩
    · exact self rfl
    · exact different isTimer

end TimerManager

end Sylar.Timers
