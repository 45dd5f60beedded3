import Sylar.Timers.Expiry

/-! # The timer manager against the set of pending timers

Every single operation does what the set does exactly as long as the comparator
can place the timers involved; the run then follows the set's own run.
-/

namespace Sylar.Timers

open Foundation Foundation.SearchTree

namespace TimerManager

variable {Callback : Type u} {manager : TimerManager Callback}

/-! ## Reset and refresh -/

theorem Valid.reset (valid : manager.Valid) (layout : Layout Addr)
    {timer : Addr} (created : timer ∈ manager.created) (now ms : UInt64)
    (fromNow : Bool) :
    (manager.reset layout timer now ms fromNow).1.Valid := by
  rw [TimerManager.reset]
  dsimp only
  split
  · exact valid
  · split
    · exact valid
    · split
      · exact valid
      · next found => exact (valid.rearmed layout created now ms found).1

theorem Valid.refresh (valid : manager.Valid) (layout : Layout Addr)
    {timer : Addr} (created : timer ∈ manager.created) (now : UInt64) :
    (manager.refresh layout timer now).1.Valid := by
  have cleared := valid.clearCb timer
  rw [TimerManager.refresh]
  dsimp only
  split
  · exact cleared
  · next found => exact (cleared.rearmed layout created now _ found).1

theorem Valid.pending_of_find_none (valid : manager.Valid) {timer : Addr}
    (missing : find manager.less timer manager.timers = none) (now ms : UInt64) :
    manager.Rearmable timer now ms := by
  rw [Rearmable, if_neg (valid.chain.not_pending_of_find_none missing)]
  exact (valid.chain.find_eq_none_iff timer).mp missing

/-- `reset` leaves the pending timers the same ones, exactly if it returns early
or the comparator can place the timer. -/
theorem Valid.pending_reset_iff (valid : manager.Valid) (layout : Layout Addr)
    {timer : Addr} (created : timer ∈ manager.created) (now ms : UInt64)
    (fromNow : Bool) :
    (manager.reset layout timer now ms fromNow).1.pending = manager.pending ↔
      (ms = (manager.objects timer).ms ∧ fromNow = false) ∨
        (manager.objects timer).cb = none ∨ manager.Rearmable timer now ms := by
  rw [TimerManager.reset]
  dsimp only
  split
  · next early => simp [early]
  · next late =>
      simp only [late, false_or]
      split
      · next empty => simp [Option.isNone_iff_eq_none.mp empty]
      · next filled =>
          have hasCb : (manager.objects timer).cb ≠ none := by
            simpa using filled
          simp only [hasCb, false_or]
          split
          · next missing =>
              simp [valid.pending_of_find_none missing now ms]
          · next found => exact (valid.rearmed layout created now ms found).2

theorem Valid.pending_refresh_iff (valid : manager.Valid) (layout : Layout Addr)
    {timer : Addr} (created : timer ∈ manager.created) (now : UInt64) :
    (manager.refresh layout timer now).1.pending = manager.pending ↔
      manager.Rearmable timer now (manager.objects timer).ms := by
  have cleared := valid.clearCb timer
  have delay : ((manager.clearCb timer).objects timer).ms =
      (manager.objects timer).ms := by
    simp [TimerManager.clearCb, setObject]
  have rearmable : (manager.clearCb timer).Rearmable timer now
      (manager.objects timer).ms ↔
        manager.Rearmable timer now (manager.objects timer).ms := by
    simp [Rearmable, Placeable]
  rw [← rearmable]
  rw [TimerManager.refresh]
  dsimp only
  split
  · next missing =>
      simp only [cleared.pending_of_find_none missing now, iff_true]
      rfl
  · next found =>
      have rearmed := (cleared.rearmed layout created now
        (manager.objects timer).ms found).2
      rw [delay]
      exact rearmed

/-! ## Every operation -/

/-- The comparator can place the timers the operation puts into the set or looks
up there. -/
def Placed (manager : TimerManager Callback) : Action Callback → Prop
  | .addTimer address now ms cb recuring =>
      (manager.create address now ms cb recuring).Placeable address
  | .cancel timer => timer ∈ manager.pending ∨ manager.Placeable timer
  | .reset timer now ms fromNow =>
      (ms = (manager.objects timer).ms ∧ fromNow = false) ∨
        (manager.objects timer).cb = none ∨ manager.Rearmable timer now ms
  | .refresh timer now =>
      manager.Rearmable timer now (manager.objects timer).ms
  | .listExpiredCb probe now => manager.InOrder probe now

/-- The operation is a step of the set of pending timers, and no timer is in
`timers` twice. -/
def Agrees (manager : TimerManager Callback) (call : Call Callback) : Prop :=
  PendingSet.Admits manager.pending (manager.execute call).2 ∧
    (manager.execute call).1.pending =
      PendingSet.next manager.pending (manager.execute call).2 ∧
    (toList (manager.execute call).1.timers).Nodup

theorem Valid.execute (valid : manager.Valid) (call : Call Callback)
    (enabled : manager.Enabled call.action) :
    (manager.execute call).1.Valid := by
  rcases call with ⟨action, layout⟩
  cases action with
  | addTimer address now ms cb recuring =>
      exact valid.addTimer layout enabled now ms cb recuring
  | cancel timer => exact valid.cancel layout timer
  | reset timer now ms fromNow => exact valid.reset layout enabled now ms fromNow
  | refresh timer now => exact valid.refresh layout enabled now
  | listExpiredCb probe now => exact valid.listExpiredCb layout probe now

theorem Valid.agrees_iff (valid : manager.Valid) (call : Call Callback)
    (enabled : manager.Enabled call.action) :
    manager.Agrees call ↔ manager.Placed call.action := by
  have nodup := (valid.execute call enabled).chain.nodup
  rw [Agrees]
  simp only [nodup, and_true]
  rcases call with ⟨action, layout⟩
  cases action with
  | addTimer address now ms cb recuring =>
      have outside : address ∉ manager.pending :=
        fun member => enabled (valid.created address member)
      simp only [TimerManager.execute, PendingSet.Admits, outside,
        not_false_eq_true, true_and, PendingSet.next]
      exact valid.pending_addTimer_iff layout enabled now ms cb recuring
  | cancel timer =>
      rw [and_comm]
      exact valid.pending_cancel_iff layout timer
  | reset timer now ms fromNow =>
      simp only [TimerManager.execute, PendingSet.Admits, true_and,
        PendingSet.next]
      exact valid.pending_reset_iff layout enabled now ms fromNow
  | refresh timer now =>
      simp only [TimerManager.execute, PendingSet.Admits, true_and,
        PendingSet.next]
      exact valid.pending_refresh_iff layout enabled now
  | listExpiredCb probe now =>
      have emitted : (manager.expired probe now).Sublist (toList manager.timers) :=
        expired_sublist probe now
      have removed : {timer | (timer, false) ∈
          (manager.expired probe now).map fun timer =>
            (timer, (manager.objects timer).recuring)} =
          {timer | timer ∈ manager.expired probe now ∧
            (manager.objects timer).recuring = false} := by
        ext timer
        simp
      simp only [TimerManager.execute, PendingSet.Admits, PendingSet.next,
        removed, Placed]
      rw [valid.pending_listExpiredCb_iff layout enabled now]
      simp only [and_iff_right_iff_imp]
      intro _
      constructor
      · simpa [Function.comp_def] using valid.chain.nodup.sublist emitted
      · intro entry member
        rcases List.mem_map.mp member with ⟨timer, taken, rfl⟩
        exact emitted.subset taken

/-! ## Whole runs -/

def events (manager : TimerManager Callback) :
    List (Call Callback) → List PendingSet.Event
  | [] => []
  | call :: calls =>
      (manager.execute call).2 :: (manager.execute call).1.events calls

theorem evolves_of_agrees {calls : List (Call Callback)}
    {final : TimerManager Callback}
    (agree : machine.StepsMeet Agrees manager calls)
    (ran : machine.run manager calls = some final) :
    PendingSet.Evolves manager.pending (manager.events calls) final.pending := by
  induction calls generalizing manager with
  | nil => cases ran; exact .nil _
  | cons call calls induction =>
      rcases Option.bind_eq_some_iff.mp ran with ⟨next, stepped, rest⟩
      rcases agree next stepped with ⟨⟨admitted, pending, _⟩, later⟩
      rcases machine_step_iff.mp stepped with ⟨_, rfl⟩
      exact .cons admitted (pending ▸ induction later rest)

theorem stepsMeet_agrees_iff (start : UInt64) (calls : List (Call Callback)) :
    machine.StepsMeet Agrees (.new start) calls ↔
      machine.StepsMeet (fun manager call => manager.Placed call.action)
        (.new start) calls := by
  apply Machine.stepsMeet_congr Valid ?_ ?_ (Valid.new start)
  · intro manager call next valid stepped
    rcases machine_step_iff.mp stepped with ⟨enabled, rfl⟩
    exact valid.execute call enabled
  · intro manager call next valid stepped
    exact valid.agrees_iff call (machine_step_iff.mp stepped).1

/-- Every step of a run does what the set of pending timers does, exactly if the
comparator can place the timers of every step; the manager then ends with the
timers of the set that evolved by the same events from empty. -/
theorem pendingSet_refinement (start : UInt64) (calls : List (Call Callback)) :
    (machine.StepsMeet Agrees (.new start) calls ↔
      machine.StepsMeet (fun manager call => manager.Placed call.action)
        (.new start) calls) ∧
    (machine.StepsMeet (fun manager call => manager.Placed call.action)
        (.new start) calls →
      ∀ final, machine.run (.new start) calls = some final →
        PendingSet.Evolves ∅ (events (.new start) calls) final.pending) := by
  refine ⟨stepsMeet_agrees_iff start calls, fun placed final ran => ?_⟩
  have empty : (TimerManager.new start : TimerManager Callback).pending = ∅ := by
    ext timer
    simp [TimerManager.new]
  rw [← empty]
  exact evolves_of_agrees ((stepsMeet_agrees_iff start calls).mpr placed) ran

/-- A timer due in ten milliseconds at address 1 keeps one due in twenty at
address 2 out of the set. -/
theorem pendingSet_refinement_fails :
    ¬(machine : Machine (TimerManager Unit) (Call Unit)).StepsMeet Agrees
      (.new 1000)
      [{ action := .addTimer 1 1000 10 (some ()) false },
       { action := .addTimer 2 1000 20 (some ()) false }] := by
  intro agrees
  rcases (agrees _ rfl).2 _ rfl with ⟨⟨_, added, _⟩, _⟩
  have present := added.ge (Set.mem_insert (2 : Addr) _)
  exact absurd present (by decide : (2 : Addr) ∉ [(1 : Addr)])

end TimerManager

end Sylar.Timers
