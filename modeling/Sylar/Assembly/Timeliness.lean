import Sylar.Assembly.Starts
import Sylar.Timers.Delivery
import Sylar.Timers.Rollover

/-! # When the callbacks of timers run

An idle worker reads the clock and collects what has expired. What a worker starts for a
timer has been collected so, at a reading that the deadline had passed, unless the clock
had been set back.
-/

namespace Sylar.Assembly

open Foundation Scheduling Timers Events

/-- That `listExpiredCb` has collected a timer: with its deadline, the reading of the clock
and the reading that was recorded before. -/
structure Expiry where
  timer : Addr
  deadline : UInt64
  previous : UInt64
  now : UInt64

/-- The clock was set back by more than an hour, or it stood at less than an hour and was
set back at all: there `detectClockRollover` subtracts the hour from less than an hour. -/
def Expiry.SetBack (expiry : Expiry) : Prop :=
  expiry.now.toNat + 3600000 < expiry.previous.toNat ∨
    expiry.previous.toNat < 3600000 ∧ expiry.now.toNat < expiry.previous.toNat

theorem Expiry.setBack_iff (expiry : Expiry) :
    expiry.SetBack ↔ TimerManager.rollsBack expiry.previous expiry.now = true := by
  rw [rollsBack_iff, accounting, SetBack]
  split <;> omega

namespace IOManager

variable {Callback : Type} {size : Nat} {self : SchedulerId}
  {threadOf : Fin size → ThreadId} {manager next : IOManager Callback size}
  {start : UInt64}

def expiries (manager : IOManager Callback size) : Label Callback size → List Expiry
  | .listExpiredCb _ _ probe now =>
      (manager.timers.expired probe now).map fun timer =>
        { timer := timer
          deadline := manager.timers.deadline timer
          previous := manager.timers.previousTimr
          now := now }
  | .loop _ | .schedule .. | .timers .. | .events .. | .getNextTImer .. | .stopping _
  | .pendingEventSize _ | .wait _ | .interrupt _ | .wake .. | .queueExpired _ | .dispatch ..
  | .swapOut _ => []

/-- The manager with a record of the timers that have been collected. -/
def timed (self : SchedulerId) (threadOf : Fin size → ThreadId) :
    Machine (IOManager Callback size × List Expiry) (Label Callback size) :=
  (machine self threadOf).observe expiries

/-! ## The record -/

theorem emitted_leaveIdle {w : Fin size} {ended : Bool}
    (left : manager.leaveIdle threadOf w ended = some next) :
    next.emitted = manager.emitted := by
  rcases Option.map_eq_some_iff.mp left with ⟨loop, -, rfl⟩
  rfl

theorem emitted_handAll {before : IOManager Callback size}
    {entries : List (Origin × FiberAnThread (Option Callback))}
    (handed : handAll threadOf before entries = some next) : next.emitted = before.emitted := by
  rcases handAll_eq_some handed with ⟨loop, -, rfl⟩
  rfl

theorem emitted_step (valid : manager.timers.Valid) {label : Label Callback size}
    (stepped : manager.step self threadOf label = some next) :
    next.emitted.map Prod.fst =
      manager.emitted.map Prod.fst ++ (manager.expiries label).map Expiry.timer := by
  have quiet : next.emitted = manager.emitted → manager.expiries label = [] →
      next.emitted.map Prod.fst =
        manager.emitted.map Prod.fst ++ (manager.expiries label).map Expiry.timer := by
    intro same none
    rw [same, none]
    exact (List.append_nil _).symm
  cases label with
  | loop label =>
      rcases Option.ite_none_right_eq_some.mp stepped with ⟨-, moved⟩
      rcases Option.map_eq_some_iff.mp moved with ⟨loop, -, rfl⟩
      exact quiet rfl rfl
  | schedule actor entry =>
      rcases Option.ite_none_right_eq_some.mp stepped with ⟨-, handed⟩
      rcases hand_eq_some handed with ⟨loop, -, rfl⟩
      exact quiet rfl rfl
  | timers actor call =>
      rcases Option.ite_none_right_eq_some.mp stepped with ⟨-, moved⟩
      rcases Option.map_eq_some_iff.mp moved with ⟨timers, -, rfl⟩
      exact quiet rfl rfl
  | events actor request reply =>
      rcases Option.bind_eq_some_iff.mp stepped with ⟨caller, -, rest⟩
      rcases Option.bind_eq_some_iff.mp rest with ⟨events, -, handed⟩
      have same := emitted_handAll handed
      exact quiet same rfl
  | listExpiredCb w layout probe now =>
      simp only [step] at stepped
      split at stepped
      · rcases Option.map_eq_some_iff.mp stepped with ⟨timers, -, rfl⟩
        simp only [expiries, List.map_append, List.map_map, zip_listExpiredCb valid,
          TimerManager.emitted]
        rfl
      · cases stepped
  | getNextTImer w now | wait w | interrupt w =>
      simp only [step] at stepped
      split at stepped
      · cases stepped
        exact quiet rfl rfl
      · cases stepped
  | stopping w =>
      simp only [step] at stepped
      split at stepped
      · split at stepped
        · cases stepped
          exact quiet rfl rfl
        · cases stepped
          exact quiet rfl rfl
      · cases stepped
  | pendingEventSize w =>
      simp only [step] at stepped
      split at stepped
      · split at stepped
        · exact quiet (emitted_leaveIdle stepped) rfl
        · cases stepped
          exact quiet rfl rfl
      · cases stepped
  | wake w reported =>
      simp only [step] at stepped
      split at stepped
      · rcases Option.ite_none_right_eq_some.mp stepped with ⟨-, woken⟩
        rcases Option.map_eq_some_iff.mp woken with ⟨epEvents, -, rfl⟩
        exact quiet rfl rfl
      · cases stepped
  | queueExpired w =>
      simp only [step] at stepped
      split at stepped
      · have same := emitted_handAll stepped
        exact quiet same rfl
      · cases stepped
  | dispatch w reply =>
      simp only [step] at stepped
      split at stepped
      · rcases Option.bind_eq_some_iff.mp stepped with ⟨events, -, handed⟩
        have same := emitted_handAll handed
        exact quiet same rfl
      · cases stepped
  | swapOut w =>
      simp only [step] at stepped
      split at stepped
      · exact quiet (emitted_leaveIdle stepped) rfl
      · cases stepped

theorem due_step (valid : manager.timers.Valid) {label : Label Callback size}
    (stepped : manager.step self threadOf label = some next) :
    ∀ expiry ∈ manager.expiries label, ¬expiry.SetBack →
      expiry.deadline ≤ expiry.now := by
  intro expiry member forward
  cases label with
  | listExpiredCb w layout probe now =>
      rcases List.mem_map.mp member with ⟨timer, taken, rfl⟩
      simp only [step] at stepped
      split at stepped
      · rcases Option.map_eq_some_iff.mp stepped with ⟨timers, delivered, -⟩
        have free : probe ∉ manager.timers.created :=
          (TimerManager.machine_step_iff.mp delivered).1
        have steady := Bool.eq_false_iff.mpr ((Expiry.setBack_iff _).not.mp forward)
        exact valid.due_of_expired free steady taken timer
          (TimerManager.mem_pending_of_expired taken)
      · cases stepped
  | loop | schedule | timers | events | getNextTImer | stopping | pendingEventSize | wait
  | interrupt | wake | queueExpired | dispatch | swapOut => cases member

/-! ## Runs -/

/-- What the record says about the callbacks that workers have started. -/
structure Timely (seen : IOManager Callback size × List Expiry) : Prop where
  due : ∀ expiry ∈ seen.2, ¬expiry.SetBack → expiry.deadline ≤ expiry.now
  /-- For a timer nothing is started more often than it has been collected. -/
  started : ∀ timer, (seen.1.startedFrom (.timer timer)).length ≤
    (seen.2.map Expiry.timer).count timer

/-- However workers, tasks and other threads come in between one another: each start of the
callback of a timer has a reading of the clock before it at which an idle worker found the
deadline passed, or the clock set back. -/
theorem timely_always (self : SchedulerId) (threadOf : Fin size → ThreadId) (start : UInt64)
    (labels : List (Label Callback size)) :
    (timed self threadOf).Always Timely (.new size start, []) labels := by
  apply Machine.always_of_invariant fun seen : IOManager Callback size × List Expiry =>
    (∃ before, (machine self threadOf).run (.new size start) before = some seen.1) ∧
      seen.1.emitted.map Prod.fst = seen.2.map Expiry.timer ∧
      ∀ expiry ∈ seen.2, ¬expiry.SetBack → expiry.deadline ≤ expiry.now
  · rintro ⟨manager, record⟩ label ⟨after, recorded⟩ ⟨⟨before, ran⟩, same, due⟩ stepped
    rcases Option.map_eq_some_iff.mp stepped with ⟨next, moved, isNext⟩
    cases isNext
    have valid := (composed_of_run self threadOf start ran).valid
    refine ⟨⟨before ++ [label], ?_⟩, ?_, ?_⟩
    · rw [Machine.run_append, ran]
      exact Machine.run_singleton moved
    · rw [emitted_step valid moved, same, List.map_append]
    · intro expiry member
      rcases List.mem_append.mp member with old | new
      · exact due expiry old
      · exact due_step valid moved expiry new
  · rintro ⟨manager, record⟩ ⟨⟨before, ran⟩, same, due⟩
    refine ⟨due, fun timer => ?_⟩
    have sound := sound_of_run ran
    have nodup := (composed_of_run self threadOf start ran).started_nodup
    have emitted : ((filled manager.emitted).map Prod.fst).Sublist
        (manager.emitted.map Prod.fst) := by
      rw [filled, List.map_filterMap]
      have fromFirst : manager.emitted.filterMap (fun entry =>
          (entry.2.map (entry.1, ·)).map Prod.fst) =
            (manager.emitted.filter fun entry => entry.2.isSome).map Prod.fst := by
        rw [← List.filterMap_eq_map, List.filterMap_filter]
        refine List.filterMap_congr fun entry _ => ?_
        cases entry.2 <;> rfl
      rw [fromFirst]
      exact List.filter_sublist.map _
    calc (manager.startedFrom (.timer timer)).length
      _ ≤ manager.origins.countP (isFrom (.timer timer)) := length_startedFrom_le nodup _
      _ ≤ ((filled manager.emitted).map Prod.fst).count timer :=
          sound.handsIn.countP_timer_le timer
      _ ≤ (manager.emitted.map Prod.fst).count timer := emitted.count_le timer
      _ = (record.map Expiry.timer).count timer := by rw [same]
  · exact ⟨⟨[], rfl⟩, rfl, fun expiry member => absurd member List.not_mem_nil⟩

end IOManager

end Sylar.Assembly
