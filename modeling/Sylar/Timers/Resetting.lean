import Sylar.Timers.Delivery

/-! # Re-arming a timer

`reset` and `refresh` take a timer out of the set, change its deadline and insert it again.
`reset` never reports that it did, and `refresh` takes the callback away.
-/

namespace Sylar.Timers

open Foundation Foundation.SearchTree

namespace TimerManager

variable {Callback : Type u} {manager : TimerManager Callback}

/-! ## What `reset` should do -/

def KeepsDeadline (manager : TimerManager Callback) (timer : Addr) (ms : UInt64)
    (fromNow : Bool) : Prop :=
  (ms = (manager.objects timer).ms ∧ fromNow = false) ∨
    timer ∉ manager.pending ∨ (manager.objects timer).cb = none

def newDeadline (manager : TimerManager Callback) (timer : Addr) (now ms : UInt64)
    (fromNow : Bool) : UInt64 :=
  if fromNow then now + ms
  else (manager.objects timer).nextMs - (manager.objects timer).ms + ms

structure Rearmed (manager next : TimerManager Callback) (timer : Addr)
    (ms nextMs : UInt64) : Prop where
  once : (toList next.timers).count timer = 1
  object : next.objects timer = { manager.objects timer with ms := ms, nextMs := nextMs }
  others : ∀ other, other ≠ timer →
    (other ∈ next.pending ↔ other ∈ manager.pending) ∧
      next.objects other = manager.objects other

structure Resets (manager : TimerManager Callback) (layout : Layout Addr) (timer : Addr)
    (now ms : UInt64) (fromNow : Bool) : Prop where
  refused : manager.KeepsDeadline timer ms fromNow →
    (manager.reset layout timer now ms fromNow).2.1 = some false ∧
      (manager.reset layout timer now ms fromNow).1 = manager
  rearmed : ¬manager.KeepsDeadline timer ms fromNow →
    (manager.reset layout timer now ms fromNow).2.1 = some true ∧
      manager.Rearmed (manager.reset layout timer now ms fromNow).1 timer ms
        (manager.newDeadline timer now ms fromNow)

/-! ## What it does -/

def ReturnsEarly (manager : TimerManager Callback) (timer : Addr) (ms : UInt64)
    (fromNow : Bool) : Prop :=
  (ms = (manager.objects timer).ms ∧ fromNow = false) ∨ (manager.objects timer).cb = none

theorem reset_early {layout : Layout Addr} {timer : Addr} {now ms : UInt64} {fromNow : Bool}
    (early : manager.ReturnsEarly timer ms fromNow) :
    manager.reset layout timer now ms fromNow = (manager, some false, false) := by
  rw [reset]
  dsimp only
  rcases early with same | empty
  · rw [if_pos same]
  · rw [empty, Option.isNone_none, if_pos rfl]
    exact ite_self _

theorem answer_late {layout : Layout Addr} {timer : Addr} {now ms : UInt64} {fromNow : Bool}
    (late : ¬manager.ReturnsEarly timer ms fromNow) :
    (manager.reset layout timer now ms fromNow).2.1 = none := by
  rcases not_or.mp late with ⟨changed, filled⟩
  rw [reset, if_neg changed]
  dsimp only
  rw [if_neg (fun isNone => filled (Option.isNone_iff_eq_none.mp isNone))]
  split <;> rfl

theorem reset_late {layout : Layout Addr} {timer : Addr} {now ms : UInt64} {fromNow : Bool}
    (late : ¬manager.ReturnsEarly timer ms fromNow) {it : Nat}
    (found : find manager.less timer manager.timers = some it) :
    (manager.reset layout timer now ms fromNow).1 = manager.replace layout timer it now ms := by
  rcases not_or.mp late with ⟨changed, filled⟩
  rw [reset, if_neg changed]
  dsimp only
  rw [if_neg (fun isNone => filled (Option.isNone_iff_eq_none.mp isNone)), found]
  rfl

theorem ReturnsEarly.keepsDeadline {timer : Addr} {ms : UInt64} {fromNow : Bool}
    (early : manager.ReturnsEarly timer ms fromNow) :
    manager.KeepsDeadline timer ms fromNow :=
  early.imp_right Or.inr

/-- `reset` does what it should exactly where it returns early. -/
theorem resets_iff (manager : TimerManager Callback) (layout : Layout Addr) (timer : Addr)
    (now ms : UInt64) (fromNow : Bool) :
    manager.Resets layout timer now ms fromNow ↔ manager.ReturnsEarly timer ms fromNow := by
  constructor
  · intro resets
    by_contra late
    have noAnswer : (manager.reset layout timer now ms fromNow).2.1 = none := answer_late late
    by_cases keeps : manager.KeepsDeadline timer ms fromNow
    · rw [(resets.refused keeps).1] at noAnswer
      cases noAnswer
    · rw [(resets.rearmed keeps).1] at noAnswer
      cases noAnswer
  · intro early
    constructor
    · intro _
      rw [reset_early early]
      exact ⟨rfl, rfl⟩
    · intro changes
      exact absurd early.keepsDeadline changes

/-- A timer due at 1020 after 20 ms is to be due after 50 ms, from the time 1005 or from when
it was armed. No value is returned, and both times it is due at 1055. -/
theorem resets_iff_fails :
    let manager : TimerManager Unit := ((new 1000).addTimer spine 1 1000 20 (some ()) false).1
    machine.run (.new 1000) [{ action := .addTimer 1 1000 20 (some ()) false }] =
        some manager ∧
      1 ∈ manager.pending ∧
      ¬manager.Resets spine 1 1005 50 true ∧ ¬manager.Resets spine 1 1005 50 false ∧
      ((manager.reset spine 1 1005 50 false).1.objects 1).nextMs = 1055 := by
  intro manager
  have inTree : 1 ∈ toList manager.timers := by decide
  have keepsNot (fromNow : Bool) : ¬manager.KeepsDeadline 1 50 fromNow := by
    intro keeps
    rcases keeps with ⟨same, -⟩ | outside | noCb
    · exact absurd same (by decide)
    · exact outside inTree
    · cases noCb
  refine ⟨rfl, inTree, ?_, ?_, rfl⟩
  · intro resets
    cases (resets.rearmed (keepsNot true)).1
  · intro resets
    cases (resets.rearmed (keepsNot false)).1

/-! ## What it leaves -/

/-- Apart from its answer, `reset` does what it should to a pending timer if the comparator
can place it, unless the deadline was to count from when the timer was armed. -/
theorem Valid.rearmed_reset_iff (valid : manager.Valid) (layout : Layout Addr) {timer : Addr}
    (pending : timer ∈ manager.pending) {now ms : UInt64} {fromNow : Bool}
    (late : ¬manager.ReturnsEarly timer ms fromNow) :
    manager.Rearmed (manager.reset layout timer now ms fromNow).1 timer ms
        (manager.newDeadline timer now ms fromNow) ↔
      manager.Rearmable timer now ms ∧
        (fromNow = true ∨ now = (manager.objects timer).nextMs - (manager.objects timer).ms) := by
  rcases not_or.mp late with ⟨changed, hasCb⟩
  rcases valid.chain.find_pending pending with ⟨it, found, -⟩
  have created := valid.created timer pending
  have resetValid := valid.reset layout created now ms fromNow
  have isReset := valid.pending_reset_iff layout created now ms fromNow
  simp only [changed, hasCb, false_or] at isReset
  have objects : ∀ other, (manager.reset layout timer now ms fromNow).1.objects other =
      if other = timer then { manager.objects timer with ms := ms, nextMs := now + ms }
      else manager.objects other := by
    intro other
    rw [reset_late late found, objects_replace, objects_rearm]
    split
    · next same => rw [same]
    · rfl
  have deadline : now + ms = manager.newDeadline timer now ms fromNow ↔
      fromNow = true ∨ now = (manager.objects timer).nextMs - (manager.objects timer).ms := by
    cases fromNow <;> simp [newDeadline]
  rw [← isReset, ← deadline]
  constructor
  · intro rearmed
    constructor
    · ext other
      by_cases isTimer : other = timer
      · rw [isTimer]
        exact iff_of_true (List.count_pos_iff.mp (rearmed.once ▸ Nat.one_pos)) pending
      · exact (rearmed.others other isTimer).1
    · have object := rearmed.object
      rw [objects, if_pos rfl] at object
      exact congrArg Timer.nextMs object
  · intro both
    rcases both with ⟨samePending, sameDeadline⟩
    constructor
    · apply List.count_eq_one_of_mem resetValid.chain.nodup
      exact samePending.ge pending
    · rw [objects, if_pos rfl, sameDeadline]
    · intro other different
      rw [samePending, objects, if_neg different]
      exact ⟨Iff.rfl, rfl⟩

/-! ## Refreshing -/

/-- `refresh` comes to a `reset` with the same delay. -/
structure RefreshAgrees (manager : TimerManager Callback) (layout : Layout Addr)
    (timer : Addr) (now : UInt64) : Prop where
  objects : (manager.refresh layout timer now).1.objects =
    (manager.reset layout timer now (manager.objects timer).ms true).1.objects
  pending : (manager.refresh layout timer now).1.pending =
    (manager.reset layout timer now (manager.objects timer).ms true).1.pending
  answer : (manager.reset layout timer now (manager.objects timer).ms true).2.1 =
    some (manager.refresh layout timer now).2

theorem clearCb_replace (layout : Layout Addr) (timer : Addr) (it : Nat) (now ms : UInt64) :
    (manager.clearCb timer).replace layout timer it now ms =
      (manager.replace layout timer it now ms).clearCb timer := by
  let erased (manager : TimerManager Callback) : TimerManager Callback :=
    { manager with timers := eraseAt layout it manager.timers }
  have commutes : (erased (manager.clearCb timer)).rearm timer now ms =
      ((erased manager).rearm timer now ms).clearCb timer := by
    simp [erased, clearCb, rearm, setObject]
  have inserts (armed : TimerManager Callback) :
      ((armed.clearCb timer).insertTimer layout timer).1 =
        (armed.insertTimer layout timer).1.clearCb timer := by
    rw [insertTimer, less_clearCb]
    rfl
  change (((erased (manager.clearCb timer)).rearm timer now ms).insertTimer layout timer).1 = _
  rw [commutes, inserts]
  rfl

/-- `refresh` is a `reset` that takes the callback away. -/
theorem refresh_eq (layout : Layout Addr) {timer : Addr} (now : UInt64)
    (hasCb : (manager.objects timer).cb ≠ none) :
    (manager.refresh layout timer now).1 =
      (manager.reset layout timer now (manager.objects timer).ms true).1.clearCb timer := by
  have filled : ¬(manager.objects timer).cb.isNone = true :=
    fun isNone => hasCb (Option.isNone_iff_eq_none.mp isNone)
  rw [reset, if_neg (by simp)]
  dsimp only
  rw [if_neg filled]
  rcases refresh_cases manager layout timer now with
    ⟨missing, refreshed⟩ | ⟨it, found, refreshed⟩
  · rw [refreshed, missing]
  · rw [refreshed, found, clearCb_replace]
    rfl

/-- The two never agree on a timer that can fire. -/
theorem refresh_disagrees (layout : Layout Addr) {timer : Addr} (now : UInt64)
    (hasCb : (manager.objects timer).cb ≠ none) :
    ¬manager.RefreshAgrees layout timer now := by
  intro agrees
  have lost : ((manager.refresh layout timer now).1.objects timer).cb = none := by
    rw [refresh_eq layout now hasCb, objects_clearCb, if_pos rfl]
  have kept : ((manager.reset layout timer now (manager.objects timer).ms true).1.objects
      timer).cb = (manager.objects timer).cb := by
    rcases objects_reset manager layout timer now (manager.objects timer).ms true with
      same | rearmed
    · rw [same]
    · rw [rearmed, objects_rearm, if_pos rfl]
  rw [agrees.objects, kept] at lost
  exact hasCb lost

theorem refresh_disagrees_added :
    ¬((new 1000).addTimer spine 1 1000 20 (some ()) false).1.RefreshAgrees spine 1 1005 :=
  refresh_disagrees spine 1005 (by decide)

/-- Its callback is lost by `refresh` and kept by `reset`. -/
theorem refresh_loses_callback :
    let manager : TimerManager Unit := ((new 1000).addTimer spine 1 1000 20 (some ()) false).1
    machine.run (.new 1000) [{ action := .addTimer 1 1000 20 (some ()) false }] =
        some manager ∧
      1 ∈ manager.pending ∧ ¬manager.RefreshAgrees spine 1 1005 ∧
      ((manager.refresh spine 1 1005).1.objects 1).cb = none ∧
      ((manager.reset spine 1 1005 20 true).1.objects 1).cb = some () := by
  intro manager
  have inTree : 1 ∈ toList manager.timers := by decide
  refine ⟨rfl, inTree, ?_, rfl, rfl⟩
  intro agrees
  cases agrees.answer

end TimerManager

end Sylar.Timers
