import Sylar.Timers.Resetting

/-! # Arming a timer

A timer is armed by its constructor, by `reset`, by `refresh` and, if it is recurring, by
the delivery that takes it. Each of the four stores the clock reading plus the delay, and
none of them looks whether the sum still fits into 64 bits.
-/

namespace Sylar.Timers

open Foundation Foundation.SearchTree

structure Arming where
  timer : Addr
  now : UInt64
  ms : UInt64
  deriving DecidableEq

/-- The deadline is representable. -/
def Arming.Fits (arming : Arming) : Prop :=
  arming.now.toNat + arming.ms.toNat < UInt64.size

namespace TimerManager

variable {Callback : Type u} {manager : TimerManager Callback}

instance (timer : Addr) (ms : UInt64) (fromNow : Bool) :
    Decidable (manager.ReturnsEarly timer ms fromNow) :=
  decidable_of_iff
    ((ms = (manager.objects timer).ms ∧ fromNow = false) ∨
      (manager.objects timer).cb.isNone = true)
    (or_congr_right Option.isNone_iff_eq_none)

def armings (manager : TimerManager Callback) : Action Callback → List Arming
  | .addTimer address now ms _ _ => [⟨address, now, ms⟩]
  | .cancel _ => []
  | .reset timer now ms fromNow =>
      if manager.ReturnsEarly timer ms fromNow ∨ find manager.less timer manager.timers = none
      then [] else [⟨timer, now, ms⟩]
  | .refresh timer now =>
      if find manager.less timer manager.timers = none then []
      else [⟨timer, now, (manager.objects timer).ms⟩]
  | .listExpiredCb probe now =>
      ((manager.expired probe now).filter fun timer => (manager.objects timer).recuring).map
        fun timer => ⟨timer, now, (manager.objects timer).ms⟩

theorem mem_armings_reset {timer : Addr} {now ms : UInt64} {fromNow : Bool} {arming : Arming} :
    arming ∈ manager.armings (.reset timer now ms fromNow) ↔
      (¬manager.ReturnsEarly timer ms fromNow ∧
        find manager.less timer manager.timers ≠ none) ∧ arming = ⟨timer, now, ms⟩ := by
  rw [armings, List.mem_ite_nil_left, not_or, List.mem_singleton]

theorem mem_armings_refresh {timer : Addr} {now : UInt64} {arming : Arming} :
    arming ∈ manager.armings (.refresh timer now) ↔
      find manager.less timer manager.timers ≠ none ∧
        arming = ⟨timer, now, (manager.objects timer).ms⟩ := by
  rw [armings, List.mem_ite_nil_left, List.mem_singleton]

theorem deadline_replace (layout : Layout Addr) (timer : Addr) (it : Nat) (now ms : UInt64) :
    (manager.replace layout timer it now ms).deadline timer = now + ms := by
  rw [deadline, objects_replace, objects_rearm, if_pos rfl]

theorem Valid.deadline_armed (valid : manager.Valid) (call : Call Callback) {arming : Arming}
    (armed : arming ∈ manager.armings call.action) :
    (manager.execute call).1.deadline arming.timer = arming.now + arming.ms := by
  rcases call with ⟨action, layout⟩
  cases action with
  | addTimer address now ms cb recuring =>
      rw [List.mem_singleton.mp armed]
      simp [TimerManager.execute, TimerManager.addTimer]
  | cancel timer => cases armed
  | reset timer now ms fromNow =>
      rcases mem_armings_reset.mp armed with ⟨⟨late, isFound⟩, rfl⟩
      rcases Option.ne_none_iff_exists'.mp isFound with ⟨it, found⟩
      simp only [TimerManager.execute, reset_late late found]
      exact deadline_replace layout timer it now ms
  | refresh timer now =>
      rcases mem_armings_refresh.mp armed with ⟨isFound, rfl⟩
      simp only [TimerManager.execute]
      rcases refresh_cases manager layout timer now with ⟨missing, -⟩ | ⟨it, -, refreshed⟩
      · exact absurd missing isFound
      · rw [refreshed]
        exact deadline_replace layout timer it now _
  | listExpiredCb probe now =>
      rcases List.mem_map.mp armed with ⟨timer, member, rfl⟩
      rcases List.mem_filter.mp member with ⟨taken, recuring⟩
      simp only [TimerManager.execute]
      rw [deadline, valid.objects_listExpiredCb, if_pos taken, Timer.expire, if_pos recuring]

/-! ## Whole runs -/

/-- The timers armed in a run, each with the deadline that is stored. -/
def deadlines (manager : TimerManager Callback) :
    List (Call Callback) → List (Arming × UInt64)
  | [] => []
  | call :: calls =>
      (manager.armings call.action).map
          (fun arming => (arming, (manager.execute call).1.deadline arming.timer)) ++
        (manager.execute call).1.deadlines calls

theorem Valid.deadlines_eq (valid : manager.Valid) {calls : List (Call Callback)}
    {final : TimerManager Callback} (ran : machine.run manager calls = some final) :
    ∀ entry ∈ manager.deadlines calls, entry.2 = entry.1.now + entry.1.ms := by
  induction calls generalizing manager with
  | nil => simp [deadlines]
  | cons call calls induction =>
      rcases Option.bind_eq_some_iff.mp ran with ⟨next, stepped, rest⟩
      rcases machine_step_iff.mp stepped with ⟨enabled, rfl⟩
      intro entry member
      rcases List.mem_append.mp member with here | later
      · rcases List.mem_map.mp here with ⟨arming, armed, rfl⟩
        exact valid.deadline_armed call armed
      · exact induction (valid.execute call enabled) rest entry later

end TimerManager

/-- No deadline lies before the reading it was computed from, a larger delay gives no smaller
deadline at the same reading, and a timer with a delay is not due when it is armed. -/
structure Unwrapped (deadlines : List (Arming × UInt64)) : Prop where
  notBefore : ∀ entry ∈ deadlines, entry.1.now ≤ entry.2
  monotone : ∀ entry ∈ deadlines, ∀ other ∈ deadlines, entry.1.now = other.1.now →
    entry.1.ms ≤ other.1.ms → entry.2 ≤ other.2
  notDue : ∀ entry ∈ deadlines, 0 < entry.1.ms → entry.1.now < entry.2

theorem le_add_iff (now ms : UInt64) :
    now ≤ now + ms ↔ now.toNat + ms.toNat < UInt64.size := by
  have small := now.toNat_lt
  have smallDelay := ms.toNat_lt
  rw [UInt64.le_iff_toNat_le, UInt64.toNat_add]
  simp only [UInt64.size]
  omega

theorem toNat_add_of_fits {arming : Arming} (fits : arming.Fits) :
    (arming.now + arming.ms).toNat = arming.now.toNat + arming.ms.toNat := by
  rw [UInt64.toNat_add]
  exact Nat.mod_eq_of_lt fits

theorem unwrapped_iff {deadlines : List (Arming × UInt64)}
    (sums : ∀ entry ∈ deadlines, entry.2 = entry.1.now + entry.1.ms) :
    Unwrapped deadlines ↔ ∀ entry ∈ deadlines, entry.1.Fits := by
  constructor
  · intro unwrapped entry member
    have notBefore := unwrapped.notBefore entry member
    rw [sums entry member] at notBefore
    exact (le_add_iff _ _).mp notBefore
  · intro fits
    have value : ∀ entry ∈ deadlines,
        entry.2.toNat = entry.1.now.toNat + entry.1.ms.toNat := by
      intro entry member
      rw [sums entry member]
      exact toNat_add_of_fits (fits entry member)
    constructor
    · intro entry member
      rw [UInt64.le_iff_toNat_le, value entry member]
      exact Nat.le_add_right _ _
    · intro entry member other otherMember sameReading shorter
      rw [UInt64.le_iff_toNat_le, value entry member, value other otherMember, sameReading]
      exact Nat.add_le_add_left (UInt64.le_iff_toNat_le.mp shorter) _
    · intro entry member delayed
      rw [UInt64.lt_iff_toNat_lt, value entry member]
      exact Nat.lt_add_of_pos_right (UInt64.lt_iff_toNat_lt.mp delayed)

namespace TimerManager

variable {Callback : Type u}

/-- The deadlines of a run are as they should be exactly if every sum fits. -/
theorem unwrapped_deadlines_iff (start : UInt64) {calls : List (Call Callback)}
    {final : TimerManager Callback} (ran : machine.run (.new start) calls = some final) :
    Unwrapped (deadlines (.new start) calls) ↔
      ∀ entry ∈ deadlines (.new start) calls, entry.1.Fits :=
  unwrapped_iff ((Valid.new start).deadlines_eq ran)

theorem unwrapped_deadlines_iff_added :
    let calls : List (Call Unit) :=
      [{ action := .addTimer 1 1000 20 (some ()) true },
       { action := .reset 1 1005 30 true },
       { action := .listExpiredCb 2 1040 }]
    deadlines (.new 1000) calls =
        [(⟨1, 1000, 20⟩, 1020), (⟨1, 1005, 30⟩, 1035), (⟨1, 1040, 30⟩, 1070)] ∧
      (Unwrapped (deadlines (.new 1000) calls) ↔
        ∀ entry ∈ deadlines (.new 1000) calls, entry.1.Fits) := by
  intro calls
  have ran : ∃ final, machine.run (.new 1000) calls = some final := ⟨_, rfl⟩
  rcases ran with ⟨final, ran⟩
  exact ⟨rfl, unwrapped_deadlines_iff 1000 ran⟩

/-- A timer with the largest delay is due in the past, and delivered at the reading at which it
was added. -/
theorem unwrapped_deadlines_fails :
    let call : Call Unit := { action := .addTimer 1 1000 18446744073709551615 (some ()) false }
    let manager := ((new 1000).execute call).1
    machine.run (.new 1000) [call] = some manager ∧
      deadlines (.new 1000) [call] = [(⟨1, 1000, 18446744073709551615⟩, 999)] ∧
      ¬Unwrapped (deadlines (.new 1000) [call]) ∧
      manager.emitted 2 1000 = [(1, some ())] := by
  intro call manager
  have stored : deadlines (.new 1000) [call] =
      [(⟨1, 1000, 18446744073709551615⟩, 999)] := by decide
  refine ⟨rfl, stored, ?_, by decide⟩
  intro unwrapped
  have notBefore := unwrapped.notBefore _ (stored ▸ List.mem_cons_self)
  exact absurd notBefore (by decide)

end TimerManager

end Sylar.Timers
