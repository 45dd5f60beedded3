import Sylar.Timers.Refinement

/-! # What a delivery emits

The order of the set is no order of deadlines, but its first element has the
latest one, so a delivery that is not a rollover takes nothing that is not due.
A timer that has lost its callback, by a cancellation or a one-shot delivery,
never gets it back.
-/

namespace Sylar.Timers

open Foundation Foundation.SearchTree

def Timer.expire (object : Timer Callback) (now : UInt64) : Timer Callback :=
  if object.recuring then { object with nextMs := now + object.ms }
  else { object with cb := none }

@[simp] theorem Timer.recuring_expire (object : Timer Callback) (now : UInt64) :
    (object.expire now).recuring = object.recuring := by
  rw [Timer.expire]
  split <;> rfl

theorem Timer.cb_expire (object : Timer Callback) (now : UInt64) :
    (object.expire now).cb = if object.recuring then object.cb else none := by
  rw [Timer.expire]
  split <;> rfl

namespace TimerManager

variable {Callback : Type u} {manager : TimerManager Callback}

/-! ## The loop -/

theorem objects_expireOne (layout : Layout Addr) (now : UInt64) (timer : Addr) :
    (manager.expireOne layout now timer).objects timer =
      (manager.objects timer).expire now := by
  cases recuring : (manager.objects timer).recuring with
  | false => simp [expireOne, Timer.expire, recuring, clearCb, setObject]
  | true => simp [expireOne, Timer.expire, recuring, rearm, setObject]

theorem objects_expireAll (layout : Layout Addr) (now : UInt64)
    {timers : List Addr} (nodup : timers.Nodup) (other : Addr) :
    (expireAll layout now timers manager).1.objects other =
      if other ∈ timers then (manager.objects other).expire now
      else manager.objects other := by
  induction timers generalizing manager with
  | nil => rfl
  | cons timer rest induction =>
      rcases List.nodup_cons.mp nodup with ⟨fresh, restNodup⟩
      simp only [expireAll, induction restNodup, List.mem_cons]
      by_cases same : other = timer
      · subst same
        simp [fresh, objects_expireOne]
      · simp [same, objects_expireOne_other layout now same]

theorem callbacks_expireAll (layout : Layout Addr) (now : UInt64)
    {timers : List Addr} (nodup : timers.Nodup) :
    (expireAll layout now timers manager).2 =
      timers.map fun timer => (manager.objects timer).cb := by
  induction timers generalizing manager with
  | nil => rfl
  | cons timer rest induction =>
      rcases List.nodup_cons.mp nodup with ⟨fresh, restNodup⟩
      simp only [expireAll, induction restNodup, List.map_cons]
      apply congrArg
      apply List.map_congr_left
      intro other member
      have different : other ≠ timer := fun same => fresh (same ▸ member)
      rw [objects_expireOne_other layout now different]

/-! ## The delivery -/

theorem Valid.expired_nodup (valid : manager.Valid) (probe : Addr)
    (now : UInt64) : (manager.expired probe now).Nodup :=
  valid.chain.nodup.sublist (expired_sublist probe now)

theorem mem_pending_of_expired {probe timer : Addr} {now : UInt64}
    (taken : timer ∈ manager.expired probe now) :
    timer ∈ toList manager.timers :=
  (expired_sublist probe now).subset taken

theorem Valid.objects_listExpiredCb (valid : manager.Valid)
    (layout : Layout Addr) (probe : Addr) (now : UInt64) (timer : Addr) :
    (manager.listExpiredCb layout probe now).1.objects timer =
      if timer ∈ manager.expired probe now then
        (manager.objects timer).expire now
      else manager.objects timer := by
  rcases valid.listExpiredCb_form layout probe now with
    ⟨erased, objects, _, expiring, _, result⟩
  rw [result, objects_expireAll layout now expiring.nodup, objects]

def emitted (manager : TimerManager Callback) (probe : Addr) (now : UInt64) :
    List (Addr × Option Callback) :=
  (manager.expired probe now).map fun timer =>
    (timer, (manager.objects timer).cb)

theorem Valid.callbacks_listExpiredCb (valid : manager.Valid)
    (layout : Layout Addr) (probe : Addr) (now : UInt64) :
    (manager.listExpiredCb layout probe now).2 =
      (manager.emitted probe now).map Prod.snd := by
  rw [emitted, List.map_map]
  by_cases empty : toList manager.timers = []
  · simp [TimerManager.listExpiredCb, expired, empty]
  · have nodup := valid.expired_nodup probe now
    rw [TimerManager.listExpiredCb, if_neg empty]
    dsimp only
    split
    · next none => simp [none]
    · next first rest some =>
        rw [some] at nodup ⊢
        exact callbacks_expireAll layout now nodup

theorem Valid.kept_listExpiredCb (valid : manager.Valid) (layout : Layout Addr)
    {probe : Addr} {now : UInt64} {timer : Addr}
    (pending : timer ∈ toList manager.timers)
    (notTaken : timer ∉ manager.expired probe now) :
    timer ∈ toList (manager.listExpiredCb layout probe now).1.timers := by
  rcases valid.listExpiredCb_form layout probe now with
    ⟨erased, _, _, expiring, erasedMem, result⟩
  rw [result]
  exact expiring.keeps layout now ((erasedMem timer).mpr ⟨pending, notTaken⟩)

theorem Valid.pending_of_listExpiredCb (valid : manager.Valid)
    (layout : Layout Addr) (probe : Addr) (now : UInt64) {timer : Addr}
    (pending : timer ∈
      toList (manager.listExpiredCb layout probe now).1.timers) :
    timer ∈ toList manager.timers := by
  rcases valid.listExpiredCb_form layout probe now with
    ⟨erased, _, _, expiring, erasedMem, result⟩
  rw [result] at pending
  rcases expiring.only layout now pending with isLeft | ⟨taken, _⟩
  · exact ((erasedMem timer).mp isLeft).1
  · exact mem_pending_of_expired taken

theorem Valid.due_of_expired (valid : manager.Valid) {probe : Addr}
    (free : probe ∉ manager.created) {now : UInt64}
    (steady : rollsBack manager.previousTimr now = false) {timer : Addr}
    (taken : timer ∈ manager.expired probe now) :
    ∀ other ∈ toList manager.timers, manager.deadline other ≤ now := by
  have outside : probe ∉ toList manager.timers :=
    fun member => free (valid.created probe member)
  rcases ((valid.chain.mem_expired_iff outside now timer).mp taken).2 with
    rolled | ⟨passed, _⟩
  · rw [steady] at rolled
    cases rolled
  · exact passed

theorem Valid.run (valid : manager.Valid) {calls : List (Call Callback)}
    {final : TimerManager Callback}
    (ran : machine.run manager calls = some final) : final.Valid := by
  apply Machine.run_induction ?_ valid ran
  intro before call next beforeValid stepped
  rcases machine_step_iff.mp stepped with ⟨enabled, rfl⟩
  exact beforeValid.execute call enabled

end TimerManager

/-! ## The objects after an operation -/

structure Timer.Fades (before after : Timer Callback) : Prop where
  recuring : after.recuring = before.recuring
  cb : after.cb = before.cb ∨ after.cb = none

theorem Timer.Fades.refl (object : Timer Callback) : object.Fades object where
  recuring := rfl
  cb := Or.inl rfl

theorem Timer.fades_expire (object : Timer Callback) (now : UInt64) :
    object.Fades (object.expire now) where
  recuring := object.recuring_expire now
  cb := by
    rw [object.cb_expire now]
    cases object.recuring with
    | false => exact Or.inr rfl
    | true => exact Or.inl rfl

namespace TimerManager

variable {Callback : Type u} {manager : TimerManager Callback}

theorem objects_clearCb (timer other : Addr) :
    (manager.clearCb timer).objects other =
      { manager.objects other with
        cb := if other = timer then none else (manager.objects other).cb } := by
  by_cases same : other = timer
  · subst same
    simp [clearCb, setObject]
  · simp [clearCb, setObject, same]

theorem objects_rearm (timer other : Addr) (now ms : UInt64) :
    (manager.rearm timer now ms).objects other =
      if other = timer then
        { manager.objects other with ms := ms, nextMs := now + ms }
      else manager.objects other := by
  by_cases same : other = timer
  · subst same
    simp [rearm, setObject]
  · simp [rearm, setObject, same]

theorem objects_addTimer (manager : TimerManager Callback)
    (layout : Layout Addr) {address other : Addr}
    (now ms : UInt64) (cb : Option Callback) (recuring : Bool)
    (different : other ≠ address) :
    (manager.addTimer layout address now ms cb recuring).1.objects other =
      manager.objects other := by
  simp [addTimer, create, setObject, different]

theorem cancel_cases (manager : TimerManager Callback) (layout : Layout Addr)
    (timer : Addr) :
    (find manager.less timer manager.timers = none ∧
        (manager.cancel layout timer).1 = manager.clearCb timer) ∨
      ∃ it, find manager.less timer manager.timers = some it ∧
        (manager.cancel layout timer).1 =
          { manager.clearCb timer with
            timers := eraseAt layout it manager.timers } := by
  rw [cancel, less_clearCb, timers_clearCb]
  cases find manager.less timer manager.timers with
  | none => exact Or.inl ⟨rfl, rfl⟩
  | some it => exact Or.inr ⟨it, rfl, rfl⟩

/-- The manager once the element found for a timer is out of the set and the timer
is armed anew and inserted. -/
def replace (manager : TimerManager Callback) (layout : Layout Addr)
    (timer : Addr) (it : Nat) (now ms : UInt64) : TimerManager Callback :=
  let erased : TimerManager Callback :=
    { manager with timers := eraseAt layout it manager.timers }
  ((erased.rearm timer now ms).insertTimer layout timer).1

theorem reset_cases (manager : TimerManager Callback) (layout : Layout Addr)
    (timer : Addr) (now ms : UInt64) (fromNow : Bool) :
    (manager.reset layout timer now ms fromNow).1 = manager ∨
      (manager.objects timer).cb ≠ none ∧
        ∃ it, find manager.less timer manager.timers = some it ∧
          (manager.reset layout timer now ms fromNow).1 =
            manager.replace layout timer it now ms := by
  rw [reset]
  dsimp only
  split
  · exact Or.inl rfl
  · split
    · exact Or.inl rfl
    · next filled =>
        split
        · exact Or.inl rfl
        · next it found =>
            exact Or.inr ⟨by simpa using filled, it, found, rfl⟩

theorem refresh_cases (manager : TimerManager Callback) (layout : Layout Addr)
    (timer : Addr) (now : UInt64) :
    (find manager.less timer manager.timers = none ∧
        (manager.refresh layout timer now).1 = manager.clearCb timer) ∨
      ∃ it, find manager.less timer manager.timers = some it ∧
        (manager.refresh layout timer now).1 =
          (manager.clearCb timer).replace layout timer it now
            (manager.objects timer).ms := by
  have delay : ((manager.clearCb timer).objects timer).ms =
      (manager.objects timer).ms := by
    simp [clearCb, setObject]
  rw [refresh, less_clearCb, timers_clearCb]
  cases find manager.less timer manager.timers with
  | none => exact Or.inl ⟨rfl, rfl⟩
  | some it => exact Or.inr ⟨it, rfl, by rw [replace, ← delay]; rfl⟩

theorem objects_cancel (manager : TimerManager Callback) (layout : Layout Addr)
    (timer : Addr) :
    (manager.cancel layout timer).1.objects = (manager.clearCb timer).objects := by
  rcases cancel_cases manager layout timer with ⟨_, result⟩ | ⟨it, _, result⟩
  · rw [result]
  · rw [result]

theorem objects_replace (manager : TimerManager Callback) (layout : Layout Addr)
    (timer : Addr) (it : Nat) (now ms : UInt64) :
    (manager.replace layout timer it now ms).objects =
      (manager.rearm timer now ms).objects := rfl

theorem objects_reset (manager : TimerManager Callback) (layout : Layout Addr)
    (timer : Addr) (now ms : UInt64) (fromNow : Bool) :
    (manager.reset layout timer now ms fromNow).1.objects = manager.objects ∨
      (manager.reset layout timer now ms fromNow).1.objects =
        (manager.rearm timer now ms).objects := by
  rcases reset_cases manager layout timer now ms fromNow with
    same | ⟨_, it, _, replaced⟩
  · exact Or.inl (congrArg objects same)
  · right
    rw [replaced, objects_replace]

theorem objects_refresh (manager : TimerManager Callback) (layout : Layout Addr)
    (timer : Addr) (now : UInt64) :
    (manager.refresh layout timer now).1.objects =
        (manager.clearCb timer).objects ∨
      (manager.refresh layout timer now).1.objects =
        ((manager.clearCb timer).rearm timer now
          (manager.objects timer).ms).objects := by
  rcases refresh_cases manager layout timer now with
    ⟨_, same⟩ | ⟨it, _, replaced⟩
  · exact Or.inl (congrArg objects same)
  · right
    rw [replaced, objects_replace]

theorem fades_clearCb (manager : TimerManager Callback)
    (timer other : Addr) :
    (manager.objects other).Fades ((manager.clearCb timer).objects other) where
  recuring := by rw [objects_clearCb]
  cb := by
    rw [objects_clearCb]
    split
    · exact Or.inr rfl
    · exact Or.inl rfl

theorem fades_rearm (manager : TimerManager Callback)
    (timer other : Addr) (now ms : UInt64) :
    (manager.objects other).Fades
      ((manager.rearm timer now ms).objects other) := by
  rw [objects_rearm]
  split
  · exact ⟨rfl, Or.inl rfl⟩
  · exact .refl _

theorem Valid.created_execute (valid : manager.Valid) (call : Call Callback)
    {timer : Addr} (created : timer ∈ manager.created) :
    timer ∈ (manager.execute call).1.created := by
  rcases call with ⟨action, layout⟩
  cases action with
  | addTimer address now ms cb recuring => exact List.mem_cons_of_mem _ created
  | cancel other =>
      simp only [TimerManager.execute]
      rcases cancel_cases manager layout other with ⟨_, result⟩ | ⟨it, _, result⟩
      · rw [result]
        exact created
      · rw [result]
        exact created
  | reset other now ms fromNow =>
      simp only [TimerManager.execute]
      rcases reset_cases manager layout other now ms fromNow with
        same | ⟨_, it, _, replaced⟩
      · rw [same]
        exact created
      · rw [replaced]
        exact created
  | refresh other now =>
      simp only [TimerManager.execute]
      rcases refresh_cases manager layout other now with
        ⟨_, same⟩ | ⟨it, _, replaced⟩
      · rw [same]
        exact created
      · rw [replaced]
        exact created
  | listExpiredCb probe now =>
      rcases valid.listExpiredCb_form layout probe now with
        ⟨erased, _, same, _, _, result⟩
      simp only [TimerManager.execute, result, created_expireAll, same]
      exact created

theorem Valid.fades_execute (valid : manager.Valid) (call : Call Callback)
    (enabled : manager.Enabled call.action) {timer : Addr}
    (created : timer ∈ manager.created) :
    (manager.objects timer).Fades
      ((manager.execute call).1.objects timer) := by
  rcases call with ⟨action, layout⟩
  cases action with
  | addTimer address now ms cb recuring =>
      have different : timer ≠ address := fun same => enabled (same ▸ created)
      have same := objects_addTimer manager layout now ms cb recuring
        different
      simp only [TimerManager.execute, same]
      exact .refl _
  | cancel other =>
      simp only [TimerManager.execute, objects_cancel]
      exact fades_clearCb manager other timer
  | reset other now ms fromNow =>
      simp only [TimerManager.execute]
      rcases objects_reset manager layout other now ms fromNow with
        same | rearmed
      · rw [same]
        exact .refl _
      · rw [rearmed]
        exact fades_rearm manager other timer now ms
  | refresh other now =>
      have cleared := fades_clearCb manager other timer
      simp only [TimerManager.execute]
      rcases objects_refresh manager layout other now with
        same | rearmed
      · rw [same]
        exact cleared
      · rw [rearmed]
        have armed := fades_rearm (manager.clearCb other) other timer now
          (manager.objects other).ms
        refine ⟨armed.recuring.trans cleared.recuring, ?_⟩
        rcases armed.cb with kept | empty
        · rw [kept]
          exact cleared.cb
        · exact Or.inr empty
  | listExpiredCb probe now =>
      simp only [TimerManager.execute, valid.objects_listExpiredCb]
      split
      · exact Timer.fades_expire _ now
      · exact .refl _

end TimerManager

end Sylar.Timers
