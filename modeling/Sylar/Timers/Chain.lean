import Sylar.Timers.TimerManager

/-! # The pending timers form a chain

`Timer::Comparator` is a strict partial order, not a weak one: it relates two
timers only if the one at the lower address has the later or equal deadline. The
set refuses every timer that this order cannot place, so what it holds is always
a chain: addresses ascend and deadlines descend. No operation breaks the chain.
-/

namespace Sylar.Timers

open Foundation Foundation.SearchTree

variable {Callback : Type u}

theorem before_update {deadline : Addr → UInt64} {timer a b : Addr}
    (value : UInt64) (leftOther : a ≠ timer) (rightOther : b ≠ timer) :
    before (Function.update deadline timer value) a b = before deadline a b := by
  simp [before, leftOther, rightOther]

theorem chain_update {deadline : Addr → UInt64} {tree : BinaryTree Addr}
    (chain : Chain (before deadline) tree) {timer : Addr}
    (outside : timer ∉ toList tree) (value : UInt64) :
    Chain (before (Function.update deadline timer value)) tree :=
  chain.congr fun _ leftMember _ rightMember =>
    before_update value (fun same => outside (same ▸ leftMember))
      (fun same => outside (same ▸ rightMember))

theorem chain_before_of_lt {deadline : Addr → UInt64} {tree : BinaryTree Addr}
    (chain : Chain (before deadline) tree) {a b : Addr} (left : a ∈ toList tree)
    (right : b ∈ toList tree) (lower : a < b) : before deadline a b = true := by
  rcases chain.comparable left right (Nat.ne_of_lt lower) with ordered | reversed
  · exact ordered
  · exact absurd (before_iff.mp reversed).2 (Nat.lt_asymm lower)

namespace TimerManager

variable (manager : TimerManager Callback)

/-! ## Deadlines after an update -/

@[simp] theorem deadline_setObject (timer : Addr) (object : Timer Callback) :
    (manager.setObject timer object).deadline =
      Function.update manager.deadline timer object.nextMs := by
  funext other
  by_cases same : other = timer
  · subst same
    simp [deadline, setObject]
  · simp [deadline, setObject, same]

@[simp] theorem deadline_clearCb (timer : Addr) :
    (manager.clearCb timer).deadline = manager.deadline := by
  rw [clearCb]
  rw [deadline_setObject]
  exact Function.update_eq_self timer manager.deadline

@[simp] theorem less_clearCb (timer : Addr) :
    (manager.clearCb timer).less = manager.less := by
  rw [less_eq, less_eq, deadline_clearCb]

@[simp] theorem timers_clearCb (timer : Addr) :
    (manager.clearCb timer).timers = manager.timers := rfl

@[simp] theorem deadline_rearm (timer : Addr) (now ms : UInt64) :
    (manager.rearm timer now ms).deadline =
      Function.update manager.deadline timer (now + ms) := by
  simp [rearm]

@[simp] theorem deadline_create (address : Addr) (now ms : UInt64)
    (cb : Option Callback) (recuring : Bool) :
    (manager.create address now ms cb recuring).deadline =
      Function.update manager.deadline address (now + ms) :=
  deadline_setObject manager address (.new now ms cb recuring)

@[simp] theorem timers_setObject (timer : Addr) (object : Timer Callback) :
    (manager.setObject timer object).timers = manager.timers := rfl

@[simp] theorem timers_rearm (timer : Addr) (now ms : UInt64) :
    (manager.rearm timer now ms).timers = manager.timers := rfl

@[simp] theorem timers_create (address : Addr) (now ms : UInt64)
    (cb : Option Callback) (recuring : Bool) :
    (manager.create address now ms cb recuring).timers = manager.timers := rfl

@[simp] theorem deadline_insertTimer (layout : Layout Addr) (timer : Addr) :
    (manager.insertTimer layout timer).1.deadline = manager.deadline := rfl

@[simp] theorem objects_insertTimer (layout : Layout Addr) (timer : Addr) :
    (manager.insertTimer layout timer).1.objects = manager.objects := rfl

/-! ## Inserting and erasing -/

def IsChain : Prop := Chain (before manager.deadline) manager.timers

def Placeable (timer : Addr) : Prop :=
  ∀ other ∈ toList manager.timers,
    Comparable (before manager.deadline) other timer

instance (timer : Addr) : Decidable (manager.Placeable timer) :=
  inferInstanceAs (Decidable (∀ other ∈ toList manager.timers, _))

variable {manager}

theorem IsChain.nodup (chain : manager.IsChain) :
    (toList manager.timers).Nodup :=
  Chain.nodup (before_irreflexive manager.deadline) chain

theorem IsChain.insertTimer (chain : manager.IsChain) (layout : Layout Addr)
    (timer : Addr) : (manager.insertTimer layout timer).1.IsChain := by
  rw [IsChain]
  rw [deadline_insertTimer]
  simp only [TimerManager.insertTimer, less_eq]
  exact Chain.insertUnique (before_transitive manager.deadline) chain layout timer

theorem IsChain.insertTimer_refused (chain : manager.IsChain) (layout : Layout Addr)
    {timer : Addr} (refused : ¬manager.Placeable timer) :
    (manager.insertTimer layout timer).1 = manager := by
  have accepted := Chain.insertUnique_inserted_iff
    (before_transitive manager.deadline) chain layout timer
  have notInserted : (insertUnique (before manager.deadline) layout timer
      manager.timers).inserted = false :=
    Bool.eq_false_iff.mpr fun inserted => refused (accepted.mp inserted)
  simp only [TimerManager.insertTimer, less_eq, insertUnique_refused layout timer notInserted]

/-- Inserting keeps the pending timers and adds at most the new one, which it
adds exactly if the comparator can place it. -/
theorem IsChain.mem_insertTimer (chain : manager.IsChain) (layout : Layout Addr)
    (timer other : Addr) :
    other ∈ toList (manager.insertTimer layout timer).1.timers ↔
      other ∈ toList manager.timers ∨
        other = timer ∧ manager.Placeable timer := by
  by_cases placeable : manager.Placeable timer
  · simp only [TimerManager.insertTimer, less_eq]
    rw [Chain.mem_insertUnique (before_transitive manager.deadline) chain layout timer placeable]
    simp [placeable, or_comm]
  · rw [chain.insertTimer_refused layout placeable]
    simp [placeable]

theorem IsChain.find_eq_none_iff (chain : manager.IsChain) (timer : Addr) :
    find manager.less timer manager.timers = none ↔ manager.Placeable timer := by
  rw [less_eq]
  exact Chain.find_eq_none_iff (before_transitive manager.deadline) chain timer

theorem IsChain.find_pending (chain : manager.IsChain) {timer : Addr}
    (pending : timer ∈ toList manager.timers) :
    ∃ it, find manager.less timer manager.timers = some it ∧
      (toList manager.timers)[it]? = some timer := by
  rw [less_eq]
  exact Chain.find_of_mem (before_irreflexive manager.deadline)
    (before_transitive manager.deadline) chain pending

theorem IsChain.find_some (chain : manager.IsChain) {timer : Addr} {it : Nat}
    (found : find manager.less timer manager.timers = some it) :
    ∃ value, (toList manager.timers)[it]? = some value := by
  rw [less_eq] at found
  rcases Chain.find_some (before_transitive manager.deadline) chain timer found
    with ⟨value, atPosition, _⟩
  exact ⟨value, atPosition⟩

theorem IsChain.found_pending (chain : manager.IsChain) {timer value : Addr}
    {it : Nat} (found : find manager.less timer manager.timers = some it)
    (atPosition : (toList manager.timers)[it]? = some value)
    (pending : timer ∈ toList manager.timers) : value = timer := by
  rcases chain.find_pending pending with ⟨it', foundIt, atTimer⟩
  rw [found] at foundIt
  cases foundIt
  rw [atPosition] at atTimer
  exact Option.some.inj atTimer

theorem IsChain.mem_erase (chain : manager.IsChain) (layout : Layout Addr)
    {it : Nat} {erased : Addr}
    (atPosition : (toList manager.timers)[it]? = some erased) (other : Addr) :
    other ∈ toList (eraseAt layout it manager.timers) ↔
      other ∈ toList manager.timers ∧ other ≠ erased :=
  mem_eraseAt chain.nodup layout atPosition other

theorem IsChain.not_pending_of_find_none (chain : manager.IsChain) {timer : Addr}
    (missing : find manager.less timer manager.timers = none) :
    timer ∉ toList manager.timers := by
  intro pending
  rcases chain.find_pending pending with ⟨it, found, _⟩
  rw [missing] at found
  cases found

theorem IsChain.outside_erased (chain : manager.IsChain) (layout : Layout Addr)
    {timer : Addr} {it : Nat} (found : find manager.less timer manager.timers = some it) :
    timer ∉ toList (eraseAt layout it manager.timers) := by
  rcases chain.find_some found with ⟨value, atPosition⟩
  intro member
  rcases (chain.mem_erase layout atPosition timer).mp member with ⟨pending, different⟩
  exact different (chain.found_pending found atPosition pending).symm

theorem IsChain.of_update (chain : manager.IsChain)
    {next : TimerManager Callback} {timer : Addr} {value : UInt64}
    (timers : next.timers = manager.timers)
    (deadline : next.deadline = Function.update manager.deadline timer value)
    (outside : timer ∉ toList manager.timers) : next.IsChain := by
  rw [IsChain]
  rw [timers, deadline]
  exact chain_update chain outside value

theorem IsChain.rearm (chain : manager.IsChain) {timer : Addr}
    (outside : timer ∉ toList manager.timers) (now ms : UInt64) :
    (manager.rearm timer now ms).IsChain :=
  chain.of_update rfl (deadline_rearm manager timer now ms) outside

theorem IsChain.clearCb (chain : manager.IsChain) (timer : Addr) :
    (manager.clearCb timer).IsChain := by
  rw [IsChain]
  rw [deadline_clearCb]
  exact chain

end TimerManager

end Sylar.Timers
