import Sylar.Timers.Callbacks
import Sylar.Timers.Overflow

/-! # The reading a rollover is judged by

`detectClockRollover` compares a reading with `previous_timr_`, which a delivery records and
which says nothing about the timers that were armed since. A watcher that remembers, for
each timer, the readings since it was armed can tell which rollovers it accounts for.
-/

namespace Sylar.Timers

open Foundation Foundation.SearchTree

/-! ## The test -/

/-- The least reading that accounts for every rollover that is found after `previous`. Below
an hour the subtraction wraps around: there the least step back is found to be one. -/
def accounting (previous : UInt64) : Nat :=
  if previous.toNat < 3600000 then previous.toNat + 3600000 else previous.toNat

def NeverRollsBack (previous : UInt64) : Prop := previous = 0 ∨ previous = 3600000

instance (previous : UInt64) : Decidable (NeverRollsBack previous) := instDecidableOr

theorem rollsBack_iff (previous now : UInt64) :
    TimerManager.rollsBack previous now = true ↔
      now.toNat + 3600000 < accounting previous := by
  have small := now.toNat_lt
  have smallPrevious := previous.toNat_lt
  have hour : (60 * 60 * 1000 : UInt64).toNat = 3600000 := rfl
  simp only [TimerManager.rollsBack, accounting, Bool.and_eq_true, decide_eq_true_eq,
    UInt64.lt_iff_toNat_lt, UInt64.toNat_sub, hour]
  split <;> omega

theorem neverRollsBack_iff (previous : UInt64) :
    NeverRollsBack previous ↔ previous.toNat = 0 ∨ previous.toNat = 3600000 := by
  rw [NeverRollsBack, ← UInt64.toNat_inj, ← UInt64.toNat_inj]
  exact Iff.rfl

/-- Some reading exceeds, by more than an hour, every reading that is taken for a rollover,
exactly if no reading is or it accounts for them all. -/
theorem accounted_iff {previous : UInt64} {readings : Nat → Prop}
    (upward : ∀ low high, low ≤ high → readings high → readings low) :
    (∀ now, TimerManager.rollsBack previous now = true → readings (now.toNat + 3600001)) ↔
      NeverRollsBack previous ∨ readings (accounting previous) := by
  rw [neverRollsBack_iff]
  have smallPrevious := previous.toNat_lt
  constructor
  · intro accounted
    by_contra unaccounted
    rcases not_or.mp unaccounted with ⟨rolls, notReached⟩
    -- The last reading that is taken for a rollover.
    have last : ∃ now : UInt64, now.toNat + 3600001 = accounting previous := by
      refine ⟨UInt64.ofNat (accounting previous - 3600001), ?_⟩
      rw [UInt64.toNat_ofNat', accounting]
      split <;> omega
    rcases last with ⟨now, isLast⟩
    apply notReached
    rw [← isLast]
    apply accounted now
    rw [rollsBack_iff]
    omega
  · intro given now rolled
    rw [rollsBack_iff] at rolled
    rcases given with never | reached
    · rw [accounting] at rolled
      rcases never with isZero | isHour
      · rw [if_pos (by omega)] at rolled
        omega
      · rw [if_neg (by omega)] at rolled
        omega
    · exact upward _ _ (by omega) reached

namespace TimerManager

variable {Callback : Type u} {manager : TimerManager Callback}

/-! ## What an operation reads, takes out and arms -/

def reading (manager : TimerManager Callback) : Action Callback → Option UInt64
  | .addTimer _ now _ _ _ => some now
  | .cancel _ => none
  | .reset timer now ms fromNow =>
      if manager.ReturnsEarly timer ms fromNow ∨ find manager.less timer manager.timers = none
      then none else some now
  | .refresh timer now =>
      if find manager.less timer manager.timers = none then none else some now
  | .listExpiredCb _ now => some now

def foundFor (manager : TimerManager Callback) (timer : Addr) : List Addr :=
  ((find manager.less timer manager.timers).bind ((toList manager.timers)[·]?)).toList

def taken (manager : TimerManager Callback) : Action Callback → List Addr
  | .addTimer .. => []
  | .cancel timer => manager.foundFor timer
  | .reset timer _ ms fromNow =>
      if manager.ReturnsEarly timer ms fromNow then [] else manager.foundFor timer
  | .refresh timer _ => manager.foundFor timer
  | .listExpiredCb probe now => manager.expired probe now

def recorded (manager : TimerManager Callback) : Action Callback → UInt64
  | .listExpiredCb _ now => if toList manager.timers = [] then manager.previousTimr else now
  | _ => manager.previousTimr

theorem foundFor_none {timer : Addr} (missing : find manager.less timer manager.timers = none) :
    manager.foundFor timer = [] := by
  rw [foundFor, missing]
  rfl

theorem foundFor_some {timer value : Addr} {it : Nat}
    (found : find manager.less timer manager.timers = some it)
    (atPosition : (toList manager.timers)[it]? = some value) :
    manager.foundFor timer = [value] := by
  rw [foundFor, found, Option.bind_some, atPosition]
  rfl

/-- An operation keeps what it does not take out, and what it arms is read at its reading and
is in the set afterwards, unless something else is. -/
structure Exchanges (manager : TimerManager Callback) (call : Call Callback) : Prop where
  recorded : (manager.execute call).1.previousTimr = manager.recorded call.action
  stays : ∀ timer ∈ toList manager.timers, timer ∉ manager.taken call.action →
    timer ∈ toList (manager.execute call).1.timers
  only : ∀ timer ∈ toList (manager.execute call).1.timers,
    (timer ∈ toList manager.timers ∧ timer ∉ manager.taken call.action) ∨
      timer ∈ (manager.armings call.action).map Arming.timer
  fresh : ∀ timer ∈ (manager.armings call.action).map Arming.timer,
    timer ∈ toList manager.timers → timer ∈ manager.taken call.action
  read : ∀ arming ∈ manager.armings call.action,
    manager.reading call.action = some arming.now
  nonempty : manager.armings call.action ≠ [] →
    toList (manager.execute call).1.timers ≠ []

theorem Valid.exchanges_addTimer (valid : manager.Valid) (layout : Layout Addr)
    {address : Addr} (fresh : address ∉ manager.created) (now ms : UInt64)
    (cb : Option Callback) (recuring : Bool) :
    manager.Exchanges ⟨.addTimer address now ms cb recuring, layout⟩ := by
  have chain := (valid.create fresh now ms cb recuring).chain
  have member := chain.mem_insertTimer layout address
  rw [timers_create] at member
  constructor
  · rfl
  · intro timer pending _
    exact (member timer).mpr (Or.inl pending)
  · intro timer pending
    rcases (member timer).mp pending with stayed | ⟨isNew, _⟩
    · exact Or.inl ⟨stayed, List.not_mem_nil⟩
    · exact Or.inr (isNew ▸ List.mem_cons_self)
  · intro timer isNew pending
    rw [List.mem_singleton.mp isNew] at pending
    exact absurd (valid.created address pending) fresh
  · intro arming isNew
    rw [List.mem_singleton.mp isNew]
    rfl
  · intro _ empty
    have nothing : ∀ other, other ∉ toList manager.timers := by
      intro other pending
      have stayed := (member other).mpr (Or.inl pending)
      exact List.not_mem_nil (empty ▸ stayed)
    have placeable : (manager.create address now ms cb recuring).Placeable address :=
      fun other pending => absurd pending (nothing other)
    have added := (member address).mpr (Or.inr ⟨rfl, placeable⟩)
    exact List.not_mem_nil (empty ▸ added)

theorem exchanges_same {call : Call Callback} {next : TimerManager Callback}
    (executed : (manager.execute call).1 = next) (timers : next.timers = manager.timers)
    (previous : next.previousTimr = manager.previousTimr)
    (recorded : manager.recorded call.action = manager.previousTimr)
    (taken : manager.taken call.action = []) (armings : manager.armings call.action = []) :
    manager.Exchanges call := by
  constructor
  · rw [executed, recorded, previous]
  · intro timer pending _
    rw [executed, timers]
    exact pending
  · intro timer pending
    rw [executed, timers] at pending
    rw [taken]
    exact Or.inl ⟨pending, List.not_mem_nil⟩
  · rw [armings]
    exact List.forall_mem_nil _
  · rw [armings]
    exact List.forall_mem_nil _
  · intro isArmed
    exact absurd armings isArmed

theorem Valid.exchanges_replace (valid : manager.Valid) {layout : Layout Addr}
    {action : Action Callback} {timer : Addr} {it : Nat} {now ms : UInt64}
    (found : find manager.less timer manager.timers = some it)
    {cleared : TimerManager Callback} (clearedValid : cleared.Valid)
    (sameTimers : cleared.timers = manager.timers) (sameLess : cleared.less = manager.less)
    (samePrevious : cleared.previousTimr = manager.previousTimr)
    (executed : (manager.execute ⟨action, layout⟩).1 =
      cleared.replace layout timer it now ms)
    (recorded : manager.recorded action = manager.previousTimr)
    (taken : manager.taken action = manager.foundFor timer)
    (armings : manager.armings action = [⟨timer, now, ms⟩])
    (reading : manager.reading action = some now) :
    manager.Exchanges ⟨action, layout⟩ := by
  rcases valid.chain.find_some found with ⟨value, atPosition⟩
  rw [foundFor_some found atPosition] at taken
  have member : ∀ other, other ∈ toList (cleared.replace layout timer it now ms).timers ↔
      (other ∈ toList manager.timers ∧ other ≠ value) ∨
        other = timer ∧ cleared.Returns timer value now ms := by
    rw [← sameTimers] at atPosition ⊢
    rw [← sameLess, ← sameTimers] at found
    exact clearedValid.mem_replace layout now ms found atPosition
  constructor
  · rw [executed, recorded]
    exact samePrevious
  · intro other pending notTaken
    rw [executed]
    rw [taken] at notTaken
    exact (member other).mpr (Or.inl ⟨pending, fun same =>
      notTaken (same ▸ List.mem_singleton_self _)⟩)
  · intro other pending
    rw [executed] at pending
    rw [taken, armings]
    rcases (member other).mp pending with ⟨stayed, different⟩ | ⟨isTimer, _⟩
    · exact Or.inl ⟨stayed, fun same => different (List.mem_singleton.mp same)⟩
    · exact Or.inr (isTimer ▸ List.mem_cons_self)
  · intro other isArmed pending
    rw [armings] at isArmed
    rw [taken, List.mem_singleton]
    rw [List.mem_singleton.mp isArmed] at pending ⊢
    exact (valid.chain.found_pending found atPosition pending).symm
  · intro arming isArmed
    rw [armings] at isArmed
    rw [List.mem_singleton.mp isArmed]
    exact reading
  · intro _ empty
    rw [executed] at empty
    have returns : cleared.Returns timer value now ms := by
      intro other pending different
      rw [sameTimers] at pending
      have stayed := (member other).mpr (Or.inl ⟨pending, different⟩)
      exact absurd (empty ▸ stayed) List.not_mem_nil
    have back := (member timer).mpr (Or.inr ⟨rfl, returns⟩)
    exact List.not_mem_nil (empty ▸ back)

theorem Valid.exchanges_cancel (valid : manager.Valid) (layout : Layout Addr) (timer : Addr) :
    manager.Exchanges ⟨.cancel timer, layout⟩ := by
  have cleared : (manager.execute ⟨.cancel timer, layout⟩).1 =
      (manager.cancel layout timer).1 := rfl
  rcases cancel_cases manager layout timer with ⟨missing, result⟩ | ⟨it, found, result⟩
  · exact exchanges_same (cleared.trans result) rfl rfl rfl (foundFor_none missing) rfl
  · rcases valid.chain.find_some found with ⟨value, atPosition⟩
    have taken : manager.taken (.cancel timer) = [value] := foundFor_some found atPosition
    have erased := valid.chain.mem_erase layout atPosition
    have after : (manager.execute ⟨.cancel timer, layout⟩).1.timers =
        eraseAt layout it manager.timers := by
      rw [cleared, result]
    constructor
    · rw [cleared, result]
      rfl
    · intro other pending notTaken
      rw [taken] at notTaken
      rw [after]
      exact (erased other).mpr ⟨pending, fun same => notTaken (same ▸ List.mem_singleton_self _)⟩
    · intro other pending
      rw [after] at pending
      rw [taken]
      rcases (erased other).mp pending with ⟨stayed, different⟩
      exact Or.inl ⟨stayed, fun same => different (List.mem_singleton.mp same)⟩
    · intro other isArmed
      cases isArmed
    · intro arming isArmed
      cases isArmed
    · intro isArmed
      exact absurd rfl isArmed

theorem Valid.exchanges_reset (valid : manager.Valid) (layout : Layout Addr) (timer : Addr)
    (now ms : UInt64) (fromNow : Bool) :
    manager.Exchanges ⟨.reset timer now ms fromNow, layout⟩ := by
  by_cases early : manager.ReturnsEarly timer ms fromNow
  · have same : (manager.execute ⟨.reset timer now ms fromNow, layout⟩).1 = manager :=
      congrArg Prod.fst (reset_early early)
    exact exchanges_same same rfl rfl rfl (if_pos early) (if_pos (Or.inl early))
  · cases found : find manager.less timer manager.timers with
    | none =>
        have same : (manager.execute ⟨.reset timer now ms fromNow, layout⟩).1 = manager := by
          rcases reset_cases manager layout timer now ms fromNow with same | ⟨_, it, isFound, _⟩
          · exact same
          · rw [found] at isFound
            cases isFound
        exact exchanges_same same rfl rfl rfl ((if_neg early).trans (foundFor_none found))
          (if_pos (Or.inr found))
    | some it =>
        have late : ¬(manager.ReturnsEarly timer ms fromNow ∨
            find manager.less timer manager.timers = none) := by
          rw [found]
          simp [early]
        exact valid.exchanges_replace found valid rfl rfl rfl (reset_late early found) rfl
          (if_neg early) (if_neg late) (if_neg late)

theorem Valid.exchanges_refresh (valid : manager.Valid) (layout : Layout Addr) (timer : Addr)
    (now : UInt64) : manager.Exchanges ⟨.refresh timer now, layout⟩ := by
  rcases refresh_cases manager layout timer now with
    ⟨missing, refreshed⟩ | ⟨it, found, refreshed⟩
  · exact exchanges_same refreshed rfl rfl rfl (foundFor_none missing) (if_pos missing)
  · have isFound : find manager.less timer manager.timers ≠ none := by
      rw [found]
      exact Option.some_ne_none it
    exact valid.exchanges_replace found (valid.clearCb timer) rfl (less_clearCb manager timer)
      rfl refreshed rfl rfl (if_neg isFound) (if_neg isFound)

/-- Of the recurring timers that are expired the first comes back, unless the set is not empty
anyway. -/
theorem Expiring.nonempty {timers : List Addr} (expiring : manager.Expiring timers)
    (layout : Layout Addr) (now : UInt64) {timer : Addr} (member : timer ∈ timers)
    (recuring : (manager.objects timer).recuring = true) :
    toList (expireAll layout now timers manager).1.timers ≠ [] := by
  induction timers generalizing manager with
  | nil => cases member
  | cons first rest induction =>
      have step := expiring.step layout now
      have mem := expiring.mem_step layout now
      rcases List.mem_cons.mp member with isFirst | later
      · subst isFirst
        have some : ∃ other, other ∈ toList (manager.expireOne layout now timer).timers := by
          by_cases empty : ∀ other, other ∉ toList manager.timers
          · refine ⟨timer, (mem timer).mpr (Or.inr ⟨rfl, recuring, ?_⟩)⟩
            intro other pending
            exact absurd pending (empty other)
          · rcases not_forall_not.mp empty with ⟨other, pending⟩
            exact ⟨other, (mem other).mpr (Or.inl pending)⟩
        rcases some with ⟨other, pending⟩
        exact List.ne_nil_of_mem (step.keeps layout now pending)
      · apply induction step later
        rw [expiring.objects_step layout now later]
        exact recuring

@[simp] theorem previousTimr_expireAll (layout : Layout Addr) (now : UInt64)
    (timers : List Addr) (manager : TimerManager Callback) :
    (expireAll layout now timers manager).1.previousTimr = manager.previousTimr := by
  induction timers generalizing manager with
  | nil => rfl
  | cons timer rest induction =>
      simp only [expireAll, induction, expireOne]
      split <;> rfl

theorem previousTimr_listExpiredCb (layout : Layout Addr) (probe : Addr) (now : UInt64) :
    (manager.listExpiredCb layout probe now).1.previousTimr =
      manager.recorded (.listExpiredCb probe now) := by
  rw [listExpiredCb, recorded]
  split
  · rfl
  · split
    · rfl
    · rw [previousTimr_expireAll]

theorem Valid.exchanges_listExpiredCb (valid : manager.Valid) (layout : Layout Addr)
    (probe : Addr) (now : UInt64) :
    manager.Exchanges ⟨.listExpiredCb probe now, layout⟩ := by
  rcases valid.listExpiredCb_form layout probe now with
    ⟨erased, objects, _, expiring, erasedMem, result⟩
  have after : (manager.execute ⟨.listExpiredCb probe now, layout⟩).1 =
      (expireAll layout now (manager.expired probe now) erased).1 := result
  have isArmed : ∀ timer,
      timer ∈ (manager.armings (.listExpiredCb probe now)).map Arming.timer ↔
        timer ∈ manager.expired probe now ∧ (manager.objects timer).recuring = true := by
    simp [armings]
  constructor
  · exact previousTimr_listExpiredCb layout probe now
  · intro timer pending notTaken
    rw [after]
    exact expiring.keeps layout now ((erasedMem timer).mpr ⟨pending, notTaken⟩)
  · intro timer pending
    rw [after] at pending
    rcases expiring.only layout now pending with isLeft | ⟨taken, recuring⟩
    · exact Or.inl ((erasedMem timer).mp isLeft)
    · rw [objects] at recuring
      exact Or.inr ((isArmed timer).mpr ⟨taken, recuring⟩)
  · intro timer armed _
    exact ((isArmed timer).mp armed).1
  · intro arming armed
    rcases List.mem_map.mp armed with ⟨timer, -, rfl⟩
    rfl
  · intro some
    rcases List.exists_mem_of_ne_nil _ some with ⟨arming, armed⟩
    rcases (isArmed arming.timer).mp (List.mem_map_of_mem armed) with ⟨taken, recuring⟩
    rw [after]
    apply expiring.nonempty layout now taken
    rw [objects]
    exact recuring

theorem Valid.exchanges (valid : manager.Valid) (call : Call Callback)
    (enabled : manager.Enabled call.action) : manager.Exchanges call := by
  rcases call with ⟨action, layout⟩
  cases action with
  | addTimer address now ms cb recuring =>
      exact valid.exchanges_addTimer layout enabled now ms cb recuring
  | cancel timer => exact valid.exchanges_cancel layout timer
  | reset timer now ms fromNow => exact valid.exchanges_reset layout timer now ms fromNow
  | refresh timer now => exact valid.exchanges_refresh layout timer now
  | listExpiredCb probe now => exact valid.exchanges_listExpiredCb layout probe now

end TimerManager

/-! ## Watching the readings -/

/-- A manager and, for each timer, the clock readings since it was last armed, beginning with
the one it was armed at. -/
structure Watched (Callback : Type u) where
  manager : TimerManager Callback
  seen : Addr → List UInt64

namespace Watched

open TimerManager

variable {Callback : Type u} {state : Watched Callback}

def new (start : UInt64) : Watched Callback where
  manager := .new start
  seen := fun _ => []

def watch (state : Watched Callback) (call : Call Callback) : Watched Callback where
  manager := (state.manager.execute call).1
  seen timer :=
    match state.manager.reading call.action with
    | none => state.seen timer
    | some now =>
        if timer ∈ (state.manager.armings call.action).map Arming.timer then [now]
        else now :: state.seen timer

def machine : Machine (Watched Callback) (Call Callback) where
  step state call :=
    if state.manager.Enabled call.action then some (state.watch call) else none

theorem machine_step_iff {next : Watched Callback} {call : Call Callback} :
    machine.step state call = some next ↔
      state.manager.Enabled call.action ∧ state.watch call = next := by
  simp [machine]

theorem run_manager {calls : List (Call Callback)} {final : Watched Callback}
    (ran : machine.run state calls = some final) :
    TimerManager.machine.run state.manager calls = some final.manager := by
  induction calls generalizing state with
  | nil =>
      cases ran
      rfl
  | cons call calls induction =>
      rcases Option.bind_eq_some_iff.mp ran with ⟨next, stepped, rest⟩
      rcases machine_step_iff.mp stepped with ⟨enabled, rfl⟩
      rw [Machine.run_cons, TimerManager.machine_step_iff.mpr ⟨enabled, rfl⟩]
      exact induction rest

def Reached (state : Watched Callback) (bound : Nat) : Prop :=
  ∃ timer ∈ toList state.manager.timers, ∃ read ∈ state.seen timer, bound ≤ read.toNat

/-- Whatever reading a delivery takes next: if it is taken for a rollover with timers pending,
then since one of them was armed a reading was taken that exceeds it by more than an hour. -/
def JudgesPending (state : Watched Callback) : Prop :=
  toList state.manager.timers ≠ [] →
    ∀ now, rollsBack state.manager.previousTimr now = true → state.Reached (now.toNat + 3600001)

/-- After the call, nothing is pending, or no reading can be taken for a rollover, or the
reading of the call itself or one since the arming of a timer that is kept accounts for all
that can. -/
def Accounts (state : Watched Callback) (call : Call Callback) : Prop :=
  (state.manager.armings call.action = [] ∧
      ∀ timer ∈ toList state.manager.timers, timer ∈ state.manager.taken call.action) ∨
    NeverRollsBack (state.manager.recorded call.action) ∨
    (∃ now, state.manager.reading call.action = some now ∧
      accounting (state.manager.recorded call.action) ≤ now.toNat) ∨
    ∃ timer ∈ toList state.manager.timers, timer ∉ state.manager.taken call.action ∧
      ∃ read ∈ state.seen timer,
        accounting (state.manager.recorded call.action) ≤ read.toNat

theorem judgesPending_iff :
    state.JudgesPending ↔ toList state.manager.timers = [] ∨
      NeverRollsBack state.manager.previousTimr ∨
        state.Reached (accounting state.manager.previousTimr) := by
  have upward : ∀ low high, low ≤ high → state.Reached high → state.Reached low := by
    intro low high below reached
    rcases reached with ⟨timer, pending, read, isSeen, reaches⟩
    exact ⟨timer, pending, read, isSeen, below.trans reaches⟩
  rw [JudgesPending, accounted_iff upward, ← or_iff_not_imp_left]

/-- A reading is seen for a timer if the call takes it, or if it was seen before and the call
does not arm the timer. -/
theorem mem_seen_watch {call : Call Callback} (exchanges : state.manager.Exchanges call)
    (timer : Addr) (read : UInt64) :
    read ∈ (state.watch call).seen timer ↔
      state.manager.reading call.action = some read ∨
        timer ∉ (state.manager.armings call.action).map Arming.timer ∧
          read ∈ state.seen timer := by
  rw [watch]
  dsimp only
  split
  · next none =>
      have notArmed : timer ∉ (state.manager.armings call.action).map Arming.timer := by
        intro armed
        rcases List.mem_map.mp armed with ⟨arming, isArmed, -⟩
        rw [exchanges.read arming isArmed] at none
        cases none
      simp [none, notArmed]
  · next now some =>
      rw [some, Option.some_inj]
      split
      · next armed => simp [armed, eq_comm]
      · next notArmed => simp [notArmed, eq_comm]

theorem judgesPending_watch_iff (valid : state.manager.Valid) (call : Call Callback)
    (enabled : state.manager.Enabled call.action) :
    (state.watch call).JudgesPending ↔ state.Accounts call := by
  have exchanges := valid.exchanges call enabled
  have seen := mem_seen_watch exchanges
  have previous : (state.watch call).manager.previousTimr =
      state.manager.recorded call.action := exchanges.recorded
  rw [judgesPending_iff, previous, Accounts]
  constructor
  · intro judges
    rcases judges with empty | never | ⟨timer, pending, read, isSeen, reaches⟩
    · left
      constructor
      · by_contra isArmed
        exact exchanges.nonempty isArmed empty
      · intro timer pending
        by_contra notTaken
        exact List.not_mem_nil (empty ▸ exchanges.stays timer pending notTaken)
    · exact Or.inr (Or.inl never)
    · rcases (seen timer read).mp isSeen with isNow | ⟨notArmed, wasSeen⟩
      · exact Or.inr (Or.inr (Or.inl ⟨read, isNow, reaches⟩))
      · rcases exchanges.only timer pending with ⟨wasPending, notTaken⟩ | armed
        · exact Or.inr (Or.inr (Or.inr
            ⟨timer, wasPending, notTaken, read, wasSeen, reaches⟩))
        · exact absurd armed notArmed
  · intro accounts
    rcases accounts with ⟨noneArmed, allTaken⟩ | never | ⟨now, isNow, reaches⟩ |
      ⟨timer, pending, notTaken, read, wasSeen, reaches⟩
    · left
      apply List.eq_nil_iff_forall_not_mem.mpr
      intro timer pending
      rcases exchanges.only timer pending with ⟨wasPending, notTaken⟩ | armed
      · exact notTaken (allTaken timer wasPending)
      · rw [noneArmed] at armed
        cases armed
    · exact Or.inr (Or.inl never)
    · by_cases empty : toList (state.watch call).manager.timers = []
      · exact Or.inl empty
      · rcases List.exists_mem_of_ne_nil _ empty with ⟨timer, pending⟩
        exact Or.inr (Or.inr
          ⟨timer, pending, now, (seen timer now).mpr (Or.inl isNow), reaches⟩)
    · have notArmed : timer ∉ (state.manager.armings call.action).map Arming.timer :=
        fun armed => notTaken (exchanges.fresh timer armed pending)
      exact Or.inr (Or.inr ⟨timer, exchanges.stays timer pending notTaken, read,
        (seen timer read).mpr (Or.inr ⟨notArmed, wasSeen⟩), reaches⟩)

/-- All along a run, rollovers are judged on pending timers whatever the next reading is,
exactly if every call accounts for what it leaves in `previous_timr_`. -/
theorem judgesPending_always_iff (start : UInt64) (calls : List (Call Callback)) :
    machine.Always JudgesPending (.new start) calls ↔
      machine.StepsMeet Accounts (.new start) calls := by
  have initially : (new start : Watched Callback).JudgesPending := by
    intro pending
    exact absurd rfl pending
  apply Machine.always_iff_stepsMeet (fun state => state.manager.Valid) ?_ ?_
    (Valid.new start) initially
  · intro before call next valid _ _ stepped
    rcases machine_step_iff.mp stepped with ⟨enabled, rfl⟩
    exact valid.execute call enabled
  · intro before call next valid _ stepped
    rcases machine_step_iff.mp stepped with ⟨enabled, rfl⟩
    exact judgesPending_watch_iff valid call enabled

/-- The manager is built at 10000000, and the clock is set back before the first timer is
added. A timer due at 1050 is delivered at 1010, though no reading since it was added is
above 1010. -/
theorem judgesPending_always_fails :
    let call : Call Unit := { action := .addTimer 1 1000 50 (some ()) false }
    let state := (new 10000000).watch call
    machine.run (.new 10000000) [call] = some state ∧
      state.manager.deadline 1 = 1050 ∧ state.seen 1 = [1000] ∧
      rollsBack state.manager.previousTimr 1010 = true ∧
      state.manager.emitted 2 1010 = [(1, some ())] ∧
      ¬machine.Always JudgesPending (.new 10000000) [call] := by
  intro call state
  refine ⟨rfl, by decide, by decide, by decide, by decide, ?_⟩
  intro always
  have judges : state.JudgesPending := always.last rfl
  rcases judges (by decide) 1010 (by decide) with ⟨timer, pending, read, isSeen, reaches⟩
  have isFirst : timer = 1 := List.mem_singleton.mp pending
  rw [isFirst] at isSeen
  rw [List.mem_singleton.mp isSeen] at reaches
  exact absurd reaches (by decide)

end Watched

end Sylar.Timers
