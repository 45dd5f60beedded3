import Sylar.Timers.Delivery

/-! # Telling a sleeping worker of an earlier deadline

A worker sleeps until the earliest deadline it has seen. `onTimerInsertAtFront` is
meant to wake it when an earlier one comes up, but the set has its latest deadline in
front: a timer that overtakes the others is the last of them.
-/

namespace Sylar.Timers

open Foundation Foundation.SearchTree

namespace TimerManager

variable {Callback : Type u} {manager : TimerManager Callback}

def earliest (manager : TimerManager Callback) : Option UInt64 :=
  ((toList manager.timers).map manager.deadline).min?

def Sooner (manager next : TimerManager Callback) : Prop :=
  ∃ deadline, next.earliest = some deadline ∧
    ∀ previous, manager.earliest = some previous → deadline < previous

def notifies (manager : TimerManager Callback) (call : Call Callback) : Bool :=
  match call.action with
  | .addTimer address now ms cb recuring =>
      (manager.addTimer call.layout address now ms cb recuring).2
  | .reset timer now ms fromNow =>
      (manager.reset call.layout timer now ms fromNow).2.2
  | .refresh .. | .cancel _ | .listExpiredCb .. => false

/-- A call that arms a timer notifies of an earliest deadline that is new. -/
def Wakes (manager : TimerManager Callback) (call : Call Callback) : Prop :=
  match call.action with
  | .addTimer .. | .reset .. | .refresh .. =>
      manager.Sooner (manager.execute call).1 → manager.notifies call = true
  | .cancel _ | .listExpiredCb .. => True

/-- A timer with the deadline goes behind the others that stay in the set, and is due
before every pending one. -/
def Overtakes (manager : TimerManager Callback) (others : List Addr) (timer : Addr)
    (deadline : UInt64) : Prop :=
  (∀ other ∈ others, other < timer) ∧
    ∀ other ∈ toList manager.timers, deadline < manager.deadline other

/-- What a call has to do so that a worker oversleeps: to insert a timer that overtakes
the others; `refresh` does not even notify where there are no others. -/
def Heard (manager : TimerManager Callback) (call : Call Callback) : Prop :=
  match call.action with
  | .addTimer address now ms _ _ =>
      toList manager.timers = [] ∨
        ¬manager.Overtakes (toList manager.timers) address (now + ms)
  | .reset timer now ms fromNow =>
      (ms = (manager.objects timer).ms ∧ fromNow = false) ∨
        (manager.objects timer).cb = none ∨
          ∀ it, find manager.less timer manager.timers = some it →
            (toList manager.timers).eraseIdx it = [] ∨
              ¬manager.Overtakes ((toList manager.timers).eraseIdx it) timer (now + ms)
  | .refresh timer now =>
      ∀ it, find manager.less timer manager.timers = some it →
        ¬manager.Overtakes ((toList manager.timers).eraseIdx it) timer
          (now + (manager.objects timer).ms)
  | .cancel _ | .listExpiredCb .. => True

/-! ## The earliest deadline -/

theorem sooner_iff {next : TimerManager Callback} :
    manager.Sooner next ↔
      ∃ timer ∈ toList next.timers, ∀ other ∈ toList manager.timers,
        next.deadline timer < manager.deadline other := by
  simp only [Sooner, earliest, List.min?_eq_some_iff]
  constructor
  · intro sooner
    rcases sooner with ⟨deadline, ⟨member, least⟩, before⟩
    rcases List.mem_map.mp member with ⟨timer, pending, rfl⟩
    refine ⟨timer, pending, ?_⟩
    intro other otherPending
    cases isLeast : ((toList manager.timers).map manager.deadline).min? with
    | none =>
        rw [List.min?_eq_none_iff, List.map_eq_nil_iff] at isLeast
        rw [isLeast] at otherPending
        cases otherPending
    | some previous =>
        have isMin := List.min?_eq_some_iff.mp isLeast
        exact UInt64.lt_of_lt_of_le (before previous isMin)
          (isMin.2 _ (List.mem_map_of_mem otherPending))
  · intro overtaking
    rcases overtaking with ⟨timer, pending, below⟩
    cases isLeast : ((toList next.timers).map next.deadline).min? with
    | none =>
        rw [List.min?_eq_none_iff, List.map_eq_nil_iff] at isLeast
        rw [isLeast] at pending
        cases pending
    | some deadline =>
        have isMin := List.min?_eq_some_iff.mp isLeast
        refine ⟨deadline, isMin, ?_⟩
        intro previous least
        rcases List.mem_map.mp least.1 with ⟨other, otherPending, rfl⟩
        exact UInt64.lt_of_le_of_lt (isMin.2 _ (List.mem_map_of_mem pending))
          (below other otherPending)

theorem not_sooner_self {next : TimerManager Callback}
    (timers : next.timers = manager.timers) (deadline : next.deadline = manager.deadline) :
    ¬manager.Sooner next := by
  rw [sooner_iff, timers, deadline]
  intro overtaking
  rcases overtaking with ⟨timer, pending, below⟩
  exact UInt64.lt_irrefl _ (below timer pending)

/-! ## Inserting -/

theorem IsChain.sooner_insertTimer {armed : TimerManager Callback}
    (chain : armed.IsChain) (layout : Layout Addr) (timer : Addr)
    (kept : ∀ other ∈ toList armed.timers,
      other ∈ toList manager.timers ∧ armed.deadline other = manager.deadline other) :
    manager.Sooner (armed.insertTimer layout timer).1 ↔
      manager.Overtakes (toList armed.timers) timer (armed.deadline timer) := by
  rw [sooner_iff, deadline_insertTimer]
  constructor
  · intro overtaking
    rcases overtaking with ⟨earlier, pending, below⟩
    rcases (chain.mem_insertTimer layout timer earlier).mp pending with
      stayed | ⟨isNew, placeable⟩
    · rcases kept earlier stayed with ⟨wasPending, same⟩
      have ordered := below earlier wasPending
      rw [same] at ordered
      exact absurd ordered (UInt64.lt_irrefl _)
    · subst isNew
      refine ⟨?_, below⟩
      intro other member
      rcases kept other member with ⟨wasPending, same⟩
      rcases placeable other member with behind | inFront
      · exact (before_iff.mp behind).2
      · have later := (before_iff.mp inFront).1
        rw [same] at later
        exact absurd (below other wasPending) (UInt64.not_lt.mpr later)
  · intro overtakes
    refine ⟨timer, ?_, overtakes.2⟩
    refine (chain.mem_insertTimer layout timer timer).mpr (Or.inr ⟨rfl, ?_⟩)
    intro other member
    rcases kept other member with ⟨wasPending, same⟩
    refine Or.inl (before_iff.mpr ⟨?_, overtakes.1 other member⟩)
    rw [same]
    exact UInt64.le_of_lt (overtakes.2 other wasPending)

theorem IsChain.front_insertTimer {armed : TimerManager Callback}
    (chain : armed.IsChain) (layout : Layout Addr) {timer : Addr}
    (behind : ∀ other ∈ toList armed.timers, before armed.deadline other timer = true) :
    (armed.insertTimer layout timer).2 = true ↔ toList armed.timers = [] := by
  have transitive := before_transitive armed.deadline
  have notInFront : ∀ other ∈ toList armed.timers,
      before armed.deadline timer other = false := by
    intro other member
    rw [Bool.eq_false_iff]
    intro inFront
    have loop := before_transitive _ _ _ _ inFront (behind other member)
    rw [before_irreflexive] at loop
    cases loop
  have accepted := (Chain.accepts_iff transitive chain timer).mpr
    fun other member => Or.inl (behind other member)
  have taken := (Chain.upperBound_splits transitive chain timer).1
  have everything : (toList armed.timers).filter
      (fun other => !before armed.deadline timer other) = toList armed.timers :=
    List.filter_eq_self.mpr fun other member => by simp [notInFront other member]
  have bounded : upperBound (before armed.deadline) timer armed.timers ≤
      (toList armed.timers).length := descend_le_length _ _
  rw [everything] at taken
  have atEnd := congrArg List.length taken
  rw [List.length_take, Nat.min_eq_left bounded] at atEnd
  rw [atEnd] at accepted
  simp only [TimerManager.insertTimer, less_eq, insertUnique, atEnd, if_pos accepted,
    beq_iff_eq, List.length_eq_zero_iff]

theorem IsChain.wakes_insertTimer {armed : TimerManager Callback}
    (chain : armed.IsChain) (layout : Layout Addr) (timer : Addr)
    (kept : ∀ other ∈ toList armed.timers,
      other ∈ toList manager.timers ∧ armed.deadline other = manager.deadline other) :
    (manager.Sooner (armed.insertTimer layout timer).1 →
        (armed.insertTimer layout timer).2 = true) ↔
      toList armed.timers = [] ∨
        ¬manager.Overtakes (toList armed.timers) timer (armed.deadline timer) := by
  rw [chain.sooner_insertTimer layout timer kept, or_comm, ← imp_iff_not_or]
  apply imp_congr_right
  intro overtakes
  apply chain.front_insertTimer layout
  intro other member
  rcases kept other member with ⟨wasPending, same⟩
  refine before_iff.mpr ⟨?_, overtakes.1 other member⟩
  rw [same]
  exact UInt64.le_of_lt (overtakes.2 other wasPending)

/-! ## The calls -/

theorem Valid.wakes_addTimer_iff (valid : manager.Valid) (layout : Layout Addr)
    {address : Addr} (fresh : address ∉ manager.created) (now ms : UInt64)
    (cb : Option Callback) (recuring : Bool) :
    manager.Wakes { action := .addTimer address now ms cb recuring, layout := layout } ↔
      manager.Heard
        { action := .addTimer address now ms cb recuring, layout := layout } := by
  have created := valid.create fresh now ms cb recuring
  have outside : ∀ other ∈ toList manager.timers, other ≠ address :=
    fun other member same => fresh (same ▸ valid.created other member)
  have kept : ∀ other ∈ toList (manager.create address now ms cb recuring).timers,
      other ∈ toList manager.timers ∧
        (manager.create address now ms cb recuring).deadline other = manager.deadline other :=
    fun other member => ⟨member, by
      rw [deadline_create, Function.update_of_ne (outside other member)]⟩
  have inserts := created.chain.wakes_insertTimer layout address kept
  rw [deadline_create, Function.update_self, timers_create] at inserts
  exact inserts

theorem Valid.kept_erased (valid : manager.Valid) (layout : Layout Addr) {timer : Addr}
    {it : Nat} (now ms : UInt64)
    (found : find manager.less timer manager.timers = some it) :
    let armed := ({ manager with timers := eraseAt layout it manager.timers } :
      TimerManager Callback).rearm timer now ms
    armed.IsChain ∧ toList armed.timers = (toList manager.timers).eraseIdx it ∧
      armed.deadline timer = now + ms ∧
      ∀ other ∈ toList armed.timers,
        other ∈ toList manager.timers ∧ armed.deadline other = manager.deadline other := by
  intro armed
  have outside := valid.chain.outside_erased layout found
  refine ⟨(valid.erase layout it).chain.rearm outside now ms,
    toList_eraseAt layout it manager.timers, ?_, ?_⟩
  · rw [deadline_rearm, Function.update_self]
  · intro other member
    have different : other ≠ timer := ne_of_mem_of_not_mem member outside
    rw [timers_rearm, toList_eraseAt] at member
    refine ⟨List.mem_of_mem_eraseIdx member, ?_⟩
    rw [deadline_rearm, Function.update_of_ne different]
    rfl

theorem Valid.wakes_reset_iff (valid : manager.Valid) (layout : Layout Addr)
    (timer : Addr) (now ms : UInt64) (fromNow : Bool) :
    manager.Wakes { action := .reset timer now ms fromNow, layout := layout } ↔
      manager.Heard { action := .reset timer now ms fromNow, layout := layout } := by
  have unmoved : ¬manager.Sooner manager := not_sooner_self rfl rfl
  simp only [Wakes, Heard, notifies, TimerManager.execute, TimerManager.reset]
  split
  · next early => simp [early, unmoved]
  · next late =>
      split
      · next empty => simp [Option.isNone_iff_eq_none.mp empty, unmoved]
      · next filled =>
          have hasCb : (manager.objects timer).cb ≠ none := by simpa using filled
          simp only [late, hasCb, false_or]
          split
          · next missing => simp [missing, unmoved]
          · next it found =>
              rcases valid.kept_erased layout now ms found with
                ⟨chain, timers, deadline, kept⟩
              have inserts := chain.wakes_insertTimer layout timer kept
              rw [timers, deadline] at inserts
              simp only [found, Option.some.injEq, forall_eq']
              exact inserts

theorem Valid.wakes_refresh_iff (valid : manager.Valid) (layout : Layout Addr)
    (timer : Addr) (now : UInt64) :
    manager.Wakes { action := .refresh timer now, layout := layout } ↔
      manager.Heard { action := .refresh timer now, layout := layout } := by
  simp only [Wakes, Heard, notifies, TimerManager.execute, Bool.false_eq_true, imp_false]
  rcases refresh_cases manager layout timer now with
    ⟨missing, result⟩ | ⟨it, found, result⟩
  · have unmoved : ¬manager.Sooner (manager.clearCb timer) :=
      not_sooner_self rfl (deadline_clearCb manager timer)
    simp [result, missing, unmoved]
  · have foundCleared : find (manager.clearCb timer).less timer
        (manager.clearCb timer).timers = some it := by
      rw [less_clearCb]
      exact found
    rcases (valid.clearCb timer).kept_erased layout now (manager.objects timer).ms
      foundCleared with ⟨chain, timers, deadline, kept⟩
    rw [deadline_clearCb, timers_clearCb] at kept
    have inserts := chain.sooner_insertTimer layout timer kept
    rw [timers, deadline] at inserts
    simp only [found, Option.some.injEq, forall_eq']
    rw [result]
    exact not_congr inserts

theorem Valid.wakes_iff (valid : manager.Valid) {call : Call Callback}
    (enabled : manager.Enabled call.action) :
    manager.Wakes call ↔ manager.Heard call := by
  rcases call with ⟨action, layout⟩
  cases action with
  | addTimer address now ms cb recuring =>
      exact valid.wakes_addTimer_iff layout enabled now ms cb recuring
  | reset timer now ms fromNow => exact valid.wakes_reset_iff layout timer now ms fromNow
  | refresh timer now => exact valid.wakes_refresh_iff layout timer now
  | cancel | listExpiredCb => exact Iff.rfl

/-- Every call of a run that makes the earliest deadline earlier notifies, exactly if
no call inserts a timer that overtakes the others. -/
theorem wakes_iff_heard (start : UInt64) (calls : List (Call Callback)) :
    machine.StepsMeet Wakes (.new start) calls ↔
      machine.StepsMeet Heard (.new start) calls := by
  apply Machine.stepsMeet_congr Valid ?_ ?_ (Valid.new start)
  · intro manager call next valid stepped
    rcases machine_step_iff.mp stepped with ⟨enabled, rfl⟩
    exact valid.execute call enabled
  · intro manager call next valid stepped
    exact valid.wakes_iff (machine_step_iff.mp stepped).1

/-- A timer due at 1010 is added at a higher address than one due at 1020. -/
theorem wakes_iff_heard_fails :
    ¬(machine : Machine (TimerManager Unit) (Call Unit)).StepsMeet Wakes (.new 1000)
      [{ action := .addTimer 1 1000 20 (some ()) false },
       { action := .addTimer 2 1000 10 (some ()) false }] := by
  intro wakes
  have notified := ((wakes _ rfl).2 _ rfl).1
    ⟨1010, by decide, fun previous isEarliest => by
      have same : some (1020 : UInt64) = some previous := isEarliest
      cases same
      decide⟩
  exact absurd notified (by decide)

end TimerManager

end Sylar.Timers
