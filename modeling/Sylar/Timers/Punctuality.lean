import Sylar.Timers.Delivery

/-! # When timers are delivered

A delivery that is not a rollover is never early. It can be late: one timer that
is not due yet keeps every other one from being delivered.
-/

namespace Sylar.Timers

open Foundation Foundation.SearchTree

namespace TimerManager

variable {Callback : Type u} {manager : TimerManager Callback}

/-! ## Never early -/

/-- A delivery emits callbacks of timers that are due only, and leaves those that
are due later where they are. -/
def NotEarly (manager : TimerManager Callback) (layout : Layout Addr)
    (probe : Addr) (now : UInt64) : Prop :=
  (manager.listExpiredCb layout probe now).2 =
      (manager.emitted probe now).map Prod.snd ∧
    (∀ entry ∈ manager.emitted probe now, manager.deadline entry.1 ≤ now) ∧
    ∀ timer ∈ manager.pending, now < manager.deadline timer →
      timer ∈ (manager.listExpiredCb layout probe now).1.pending ∧
        (manager.listExpiredCb layout probe now).1.deadline timer =
          manager.deadline timer

theorem Valid.notEarly (valid : manager.Valid) (layout : Layout Addr)
    {probe : Addr} (free : probe ∉ manager.created) {now : UInt64}
    (steady : rollsBack manager.previousTimr now = false) :
    manager.NotEarly layout probe now := by
  have due : ∀ timer ∈ manager.expired probe now, manager.deadline timer ≤ now :=
    fun timer taken =>
      valid.due_of_expired free steady taken timer (mem_pending_of_expired taken)
  refine ⟨valid.callbacks_listExpiredCb layout probe now, ?_, ?_⟩
  · intro entry member
    rcases List.mem_map.mp member with ⟨timer, taken, rfl⟩
    exact due timer taken
  intro timer pending later
  have notTaken : timer ∉ manager.expired probe now := fun taken =>
    UInt64.not_le.mpr later (due timer taken)
  refine ⟨valid.kept_listExpiredCb layout pending notTaken, ?_⟩
  rw [deadline, valid.objects_listExpiredCb, if_neg notTaken]
  rfl

/-- The call neither arms the timer anew nor delivers it. -/
def Undisturbed (timer : Addr) (manager : TimerManager Callback)
    (call : Call Callback) : Prop :=
  match call.action with
  | .addTimer .. | .cancel _ => True
  | .reset other .. | .refresh other _ => other ≠ timer
  | .listExpiredCb probe now => timer ∉ manager.expired probe now

theorem Valid.deadline_execute (valid : manager.Valid) {call : Call Callback}
    (enabled : manager.Enabled call.action) {timer : Addr}
    (created : timer ∈ manager.created)
    (undisturbed : Undisturbed timer manager call) :
    (manager.execute call).1.deadline timer = manager.deadline timer := by
  rcases call with ⟨action, layout⟩
  simp only [deadline]
  cases action with
  | addTimer address now ms cb recuring =>
      have different : timer ≠ address := fun same => enabled (same ▸ created)
      simp only [TimerManager.execute,
        objects_addTimer _ layout now ms cb recuring different]
  | cancel other =>
      simp only [TimerManager.execute, objects_cancel, objects_clearCb]
  | reset other now ms fromNow =>
      have different : timer ≠ other := Ne.symm undisturbed
      simp only [TimerManager.execute]
      rcases objects_reset manager layout other now ms fromNow with
        same | rearmed
      · rw [same]
      · rw [rearmed, objects_rearm, if_neg different]
  | refresh other now =>
      have different : timer ≠ other := Ne.symm undisturbed
      simp only [TimerManager.execute]
      rcases objects_refresh manager layout other now with
        same | rearmed
      · rw [same, objects_clearCb]
      · rw [rearmed, objects_rearm, if_neg different, objects_clearCb]
  | listExpiredCb probe now =>
      have notTaken : timer ∉ manager.expired probe now := undisturbed
      simp only [TimerManager.execute, valid.objects_listExpiredCb,
        if_neg notTaken]

theorem Valid.deadline_run (valid : manager.Valid) {timer : Addr}
    (created : timer ∈ manager.created) {calls : List (Call Callback)}
    (undisturbed : machine.StepsMeet (Undisturbed timer) manager calls)
    {final : TimerManager Callback}
    (ran : machine.run manager calls = some final) :
    final.deadline timer = manager.deadline timer := by
  induction calls generalizing manager with
  | nil => cases ran; rfl
  | cons call calls induction =>
      rcases Option.bind_eq_some_iff.mp ran with ⟨next, stepped, rest⟩
      rcases undisturbed next stepped with ⟨here, later⟩
      rcases machine_step_iff.mp stepped with ⟨enabled, rfl⟩
      rw [induction (valid.execute call enabled)
        (valid.created_execute call created) later rest]
      exact valid.deadline_execute enabled created here

/-- Whatever the order of addresses and deadlines: a delivery that is not a
rollover emits nothing early and disturbs nothing that is due later. A recurring
timer it does emit is not emitted again, unless it is armed anew in between or
the clock rolls over, until its delay has passed. -/
theorem no_early_firing (start : UInt64) {calls : List (Call Callback)}
    {manager : TimerManager Callback}
    (ran : machine.run (.new start) calls = some manager)
    (layout : Layout Addr) {probe : Addr} (free : probe ∉ manager.created)
    (now : UInt64) :
    (rollsBack manager.previousTimr now = false →
      manager.NotEarly layout probe now) ∧
    ∀ timer ∈ manager.expired probe now,
      (manager.objects timer).recuring = true →
      now.toNat + (manager.objects timer).ms.toNat < UInt64.size →
      ∀ between later,
        machine.StepsMeet (Undisturbed timer)
          (manager.listExpiredCb layout probe now).1 between →
        machine.run (manager.listExpiredCb layout probe now).1 between =
          some later →
        ∀ probe' now', probe' ∉ later.created →
          rollsBack later.previousTimr now' = false →
          timer ∈ later.expired probe' now' →
          now.toNat + (manager.objects timer).ms.toNat ≤ now'.toNat := by
  have valid := (Valid.new start).run ran
  refine ⟨valid.notEarly layout free, ?_⟩
  intro timer taken recuring small between later undisturbed ranBetween probe' now'
    free' steady again
  have delivered := valid.listExpiredCb layout probe now
  have created : timer ∈ (manager.listExpiredCb layout probe now).1.created :=
    valid.created_execute ⟨.listExpiredCb probe now, layout⟩
      (valid.created timer (mem_pending_of_expired taken))
  have armed : (manager.listExpiredCb layout probe now).1.deadline timer =
      now + (manager.objects timer).ms := by
    rw [deadline, valid.objects_listExpiredCb, if_pos taken, Timer.expire,
      if_pos recuring]
  have reached := (delivered.run ranBetween).due_of_expired free' steady again timer
    (mem_pending_of_expired again)
  rw [delivered.deadline_run created undisturbed ranBetween, armed,
    UInt64.le_iff_toNat_le, UInt64.toNat_add] at reached
  exact Nat.mod_eq_of_lt small ▸ reached

theorem no_early_firing_recurring :
    let manager : TimerManager Unit :=
      (TimerManager.new 1000).addTimer spine 1 1000 10 (some ()) true |>.1
    manager.NotEarly spine 2 1010 ∧
      (1010 : UInt64).toNat + (10 : UInt64).toNat ≤ (1020 : UInt64).toNat := by
  intro manager
  have ran : machine.run (.new 1000)
      [{ action := .addTimer 1 1000 10 (some ()) true }] = some manager := rfl
  have free : 2 ∉ manager.created := by decide
  have timely := no_early_firing 1000 ran spine free 1010
  refine ⟨timely.1 rfl, ?_⟩
  exact timely.2 1 (by decide) rfl (by decide) [] _ trivial rfl 2 1020
    (by decide) rfl (by decide)

/-! ## Late -/

structure Owing (Callback : Type u) where
  manager : TimerManager Callback
  owed : Addr → Option (Option Callback)

namespace Owing

def new (start : UInt64) : Owing Callback where
  manager := .new start
  owed := fun _ => none

/-- A timer is owed from its `addTimer` until it is cancelled or, unless it
recurs, delivered. -/
def record (state : Owing Callback) :
    Action Callback → Addr → Option (Option Callback)
  | .addTimer address _ _ cb _ => Function.update state.owed address (some cb)
  | .cancel timer => Function.update state.owed timer none
  | .reset .. | .refresh .. => state.owed
  | .listExpiredCb probe now => fun timer =>
      if timer ∈ state.manager.expired probe now ∧
          (state.manager.objects timer).recuring = false then none
      else state.owed timer

/-- The operations other than `refresh`. -/
def machine : Machine (Owing Callback) (Call Callback) where
  step state call :=
    match call.action with
    | .refresh .. => none
    | action =>
        if state.manager.Enabled action then
          some
            { manager := (state.manager.execute call).1
              owed := state.record action }
        else none

theorem machine_step {state next : Owing Callback} {call : Call Callback}
    (stepped : machine.step state call = some next) :
    (∀ timer now, call.action ≠ .refresh timer now) ∧
      state.manager.Enabled call.action ∧
      next = { manager := (state.manager.execute call).1
               owed := state.record call.action } := by
  rcases call with ⟨action, layout⟩
  cases action with
  | refresh timer now => cases stepped
  | addTimer _ _ _ _ _ | cancel _ | reset _ _ _ _ | listExpiredCb _ _ =>
      rcases Option.ite_none_right_eq_some.mp stepped with ⟨enabled, result⟩
      cases result
      refine ⟨?_, enabled, rfl⟩
      intro timer now same
      cases same

/-- A delivery emits every owed timer that is due, with its callback. -/
def Prompt (state : Owing Callback) (call : Call Callback) : Prop :=
  match call.action with
  | .listExpiredCb probe now =>
      (state.manager.listExpiredCb call.layout probe now).2 =
          (state.manager.emitted probe now).map Prod.snd ∧
        ∀ timer cb, state.owed timer = some cb →
          state.manager.deadline timer ≤ now →
          (timer, cb) ∈ state.manager.emitted probe now
  | _ => True

/-- Every owed timer that is due is pending. If there is one and the clock did
not roll over, no pending timer is due later, and none that is owed has deadline
zero above the address of the probe. -/
def Unobstructed (state : Owing Callback) (call : Call Callback) : Prop :=
  match call.action with
  | .listExpiredCb probe now =>
      ∀ timer cb, state.owed timer = some cb →
        state.manager.deadline timer ≤ now →
        timer ∈ state.manager.pending ∧ state.manager.Due probe now timer
  | _ => True

structure Sound (state : Owing Callback) : Prop where
  valid : state.manager.Valid
  created : ∀ timer cb, state.owed timer = some cb →
    timer ∈ state.manager.created
  callback : ∀ timer cb, state.owed timer = some cb →
    (state.manager.objects timer).cb = cb

variable {state : Owing Callback}

theorem Sound.new (start : UInt64) : (Owing.new start : Owing Callback).Sound where
  valid := Valid.new start
  created timer cb owed := by cases owed
  callback timer cb owed := by cases owed

theorem Sound.prompt_iff (sound : state.Sound) {call : Call Callback}
    (enabled : state.manager.Enabled call.action) :
    state.Prompt call ↔ state.Unobstructed call := by
  rcases call with ⟨action, layout⟩
  cases action with
  | listExpiredCb probe now =>
      have outside : probe ∉ toList state.manager.timers :=
        fun member => enabled (sound.valid.created probe member)
      simp only [Prompt, Unobstructed, sound.valid.callbacks_listExpiredCb,
        true_and]
      apply forall₄_congr
      intro timer cb owed _
      rw [mem_pending, ← sound.valid.chain.mem_expired_iff outside now timer]
      simp only [emitted, List.mem_map, Prod.mk.injEq]
      constructor
      · intro given
        rcases given with ⟨other, taken, same, _⟩
        exact same ▸ taken
      · intro taken
        exact ⟨timer, taken, rfl, sound.callback timer cb owed⟩
  | addTimer _ _ _ _ _ | cancel _ | reset _ _ _ _ | refresh _ _ => exact Iff.rfl

section Record

variable {timer : Addr} {cb : Option Callback}

theorem record_addTimer {address : Addr} {now ms : UInt64} {added : Option Callback}
    {recuring : Bool} :
    state.record (.addTimer address now ms added recuring) timer = some cb ↔
      (timer = address ∧ added = cb) ∨ (timer ≠ address ∧ state.owed timer = some cb) := by
  rw [record]
  by_cases same : timer = address
  · subst same
    simp
  · simp [same]

theorem record_cancel {other : Addr} :
    state.record (.cancel other) timer = some cb ↔
      timer ≠ other ∧ state.owed timer = some cb := by
  rw [record]
  by_cases same : timer = other
  · subst same
    simp
  · simp [same]

theorem record_listExpiredCb {probe : Addr} {now : UInt64} :
    state.record (.listExpiredCb probe now) timer = some cb ↔
      ¬(timer ∈ state.manager.expired probe now ∧
          (state.manager.objects timer).recuring = false) ∧ state.owed timer = some cb := by
  rw [record]
  exact Option.ite_none_left_eq_some

theorem owed_of_record {action : Action Callback} (owed : state.record action timer = some cb) :
    state.owed timer = some cb ∨
      ∃ now ms recuring, action = .addTimer timer now ms cb recuring := by
  cases action with
  | addTimer address now ms added recuring =>
      rcases record_addTimer.mp owed with ⟨rfl, rfl⟩ | ⟨-, before⟩
      · exact Or.inr ⟨now, ms, recuring, rfl⟩
      · exact Or.inl before
  | cancel other => exact Or.inl (record_cancel.mp owed).2
  | reset other now ms fromNow => exact Or.inl owed
  | refresh other now => exact Or.inl owed
  | listExpiredCb probe now => exact Or.inl (record_listExpiredCb.mp owed).2

end Record

theorem Sound.callback_execute (sound : state.Sound) {call : Call Callback}
    (noRefresh : ∀ timer now, call.action ≠ .refresh timer now)
    {timer : Addr} {cb : Option Callback}
    (owed : state.record call.action timer = some cb) :
    ((state.manager.execute call).1.objects timer).cb = cb := by
  rcases call with ⟨action, layout⟩
  cases action with
  | addTimer address now ms added recuring =>
      rcases record_addTimer.mp owed with ⟨rfl, rfl⟩ | ⟨differs, before⟩
      · simp [TimerManager.execute, addTimer, create, setObject, Timer.new]
      · simp only [TimerManager.execute,
          objects_addTimer _ layout now ms added recuring differs]
        exact sound.callback timer cb before
  | cancel other =>
      rcases record_cancel.mp owed with ⟨differs, before⟩
      simp only [TimerManager.execute, objects_cancel, objects_clearCb, differs, if_false]
      exact sound.callback timer cb before
  | reset other now ms fromNow =>
      have was := sound.callback timer cb owed
      simp only [TimerManager.execute]
      rcases objects_reset state.manager layout other now ms fromNow with
        same | rearmed
      · rw [same]
        exact was
      · rw [rearmed, objects_rearm]
        split <;> exact was
  | refresh other now => exact absurd rfl (noRefresh other now)
  | listExpiredCb probe now =>
      rcases record_listExpiredCb.mp owed with ⟨stays, before⟩
      simp only [TimerManager.execute, sound.valid.objects_listExpiredCb]
      by_cases taken : timer ∈ state.manager.expired probe now
      · have recuring : (state.manager.objects timer).recuring = true :=
          Bool.eq_true_of_not_eq_false fun once => stays ⟨taken, once⟩
        rw [if_pos taken, Timer.cb_expire, if_pos recuring]
        exact sound.callback timer cb before
      · rw [if_neg taken]
        exact sound.callback timer cb before

theorem Sound.step (sound : state.Sound) {call : Call Callback}
    {next : Owing Callback} (stepped : machine.step state call = some next) :
    next.Sound := by
  rcases machine_step stepped with ⟨noRefresh, enabled, rfl⟩
  refine ⟨sound.valid.execute call enabled, ?_, ?_⟩
  · intro timer cb owed
    rcases owed_of_record owed with before | ⟨now, ms, recuring, action⟩
    · exact sound.valid.created_execute call (sound.created timer cb before)
    · rcases call with ⟨_, layout⟩
      cases action
      exact List.mem_cons_self
  · intro timer cb owed
    exact sound.callback_execute noRefresh owed

/-- Every delivery emits all that is owed and due, exactly if no such timer was
refused by the set and none is kept by a pending timer that is due later. -/
theorem prompt_iff_unobstructed (start : UInt64) (calls : List (Call Callback)) :
    machine.StepsMeet Prompt (.new start) calls ↔
      machine.StepsMeet Unobstructed (.new start) calls := by
  apply Machine.stepsMeet_congr Sound ?_ ?_ (Sound.new start)
  · intro before call next sound stepped
    exact sound.step stepped
  · intro before call next sound stepped
    exact sound.prompt_iff (machine_step stepped).2.1

/-- The timer at address 1 is due in twenty milliseconds, the one at address 2
in ten. After fifteen the second one is not delivered. -/
theorem prompt_iff_unobstructed_fails :
    ¬(machine : Machine (Owing Unit) (Call Unit)).StepsMeet Prompt (.new 1000)
      [{ action := .addTimer 1 1000 20 (some ()) false },
       { action := .addTimer 2 1000 10 (some ()) false },
       { action := .listExpiredCb 3 1015 }] := by
  intro prompt
  have delivers := ((prompt _ rfl).2 _ rfl).2 _ rfl
  have emitted := delivers.1.2 2 (some ()) rfl (by decide)
  exact absurd emitted (by decide)

end Owing

end TimerManager

end Sylar.Timers
