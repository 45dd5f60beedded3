import Sylar.Assembly.IOManager

/-! # The parts of the manager

Whatever the workers, the tasks and other threads do, each part of the manager only
makes steps of its own machine. What holds in every run of a part thus holds in every
run of the manager.
-/

namespace Sylar.Assembly

open Foundation Scheduling Timers Events

namespace IOManager

variable {Callback : Type} {size : Nat} {self : SchedulerId}
  {threadOf : Fin size → ThreadId} {manager next : IOManager Callback size}

/-! ## Hand-overs -/

def numbered (entries : List (Origin × FiberAnThread (Option Callback))) :
    List (Origin × Option Callback) :=
  entries.filterMap fun entry =>
    match entry.2.work with
    | .cb callback => some (entry.1, callback)
    | .fiber _ => none

theorem handAll_eq_some {entries : List (Origin × FiberAnThread (Option Callback))}
    (handed : handAll threadOf manager entries = some next) :
    ∃ loop, (Registry.machine threadOf ()).run manager.loop
        (entries.map fun entry => .schedule entry.2) = some loop ∧
      next = { manager with loop := loop, origins := manager.origins ++ numbered entries } := by
  induction entries generalizing manager with
  | nil =>
      cases handed
      exact ⟨next.loop, rfl, by simp [numbered]⟩
  | cons entry rest induction =>
      rcases entry with ⟨origin, entry⟩
      rcases Option.bind_eq_some_iff.mp handed with ⟨middle, first, later⟩
      rcases Option.map_eq_some_iff.mp first with ⟨loop, stepped, rfl⟩
      rcases induction later with ⟨final, ran, rfl⟩
      refine ⟨final, Option.bind_eq_some_iff.mpr ⟨loop, stepped, ran⟩, ?_⟩
      rcases entry with ⟨callback | fiber, thread⟩
      · simp [numbered]
      · simp [numbered]

theorem hand_eq_some {origin : Origin} {entry : FiberAnThread (Option Callback)}
    (handed : manager.hand threadOf origin entry = some next) :
    ∃ loop, (Registry.machine threadOf ()).run manager.loop [.schedule entry] = some loop ∧
      next = { manager with
        loop := loop
        origins := manager.origins ++ numbered [(origin, entry)] } := by
  have handedAll : handAll threadOf manager [(origin, entry)] = some next := by
    simp [handAll, handed]
  exact handAll_eq_some handedAll

/-! ## The machines of the parts -/

/-- What a call of the timer manager appends to `timer_cbs`, each callback with the timer
it is taken from. -/
def emission (timers : TimerManager Callback) (call : Timers.Call Callback) :
    List (Addr × Option Callback) :=
  match call.action with
  | .listExpiredCb probe now =>
      (timers.expired probe now).zip (timers.listExpiredCb call.layout probe now).2
  | .addTimer .. | .cancel _ | .reset .. | .refresh .. => []

theorem emission_eq_nil {timers : TimerManager Callback} {call : Timers.Call Callback}
    (notDelivery : isDelivery call.action = false) : emission timers call = [] := by
  rcases call with ⟨action, layout⟩
  cases action with
  | listExpiredCb => cases notDelivery
  | addTimer | cancel | reset | refresh => rfl

def emitting : Machine (TimerManager Callback × List (Addr × Option Callback))
    (Timers.Call Callback) :=
  TimerManager.machine.observe emission

theorem Steps.loop_run (steps : Steps self threadOf manager next) :
    ∃ labels, (Registry.machine threadOf ()).run manager.loop labels = some next.loop := by
  cases steps with
  | loop own callable stepped advances => exact ⟨_, Machine.run_singleton stepped⟩
  | idle | wake | timers | listExpiredCb => exact ⟨[], rfl⟩
  | schedule handed =>
      rcases hand_eq_some handed with ⟨loop, ran, rfl⟩
      exact ⟨_, ran⟩
  | events registers reported stepped advances handed =>
      rcases handAll_eq_some handed with ⟨loop, ran, rfl⟩
      exact ⟨_, ran⟩
  | queueExpired stageIs handed =>
      rcases handAll_eq_some handed with ⟨loop, ran, rfl⟩
      exact ⟨_, ran⟩

theorem Steps.timers_run (steps : Steps self threadOf manager next) :
    ∃ calls, emitting.run (manager.timers, manager.emitted) calls =
      some (next.timers, next.emitted) := by
  cases steps with
  | loop | idle | wake => exact ⟨[], rfl⟩
  | schedule handed =>
      rcases hand_eq_some handed with ⟨loop, ran, rfl⟩
      exact ⟨[], rfl⟩
  | @timers call timers notDelivery stepped =>
      have taken : emitting.step (manager.timers, manager.emitted) call =
          some (timers, manager.emitted ++ emission manager.timers call) :=
        Machine.observe_step stepped manager.emitted
      rw [emission_eq_nil notDelivery, List.append_nil] at taken
      exact ⟨_, Machine.run_singleton taken⟩
  | events registers reported stepped advances handed =>
      rcases handAll_eq_some handed with ⟨loop, ran, rfl⟩
      exact ⟨[], rfl⟩
  | listExpiredCb stageIs stepped =>
      exact ⟨_, Machine.run_singleton (Machine.observe_step stepped manager.emitted)⟩
  | queueExpired stageIs handed =>
      rcases handAll_eq_some handed with ⟨loop, ran, rfl⟩
      exact ⟨[], rfl⟩

theorem Steps.events_run (steps : Steps self threadOf manager next) :
    ∃ calls, Events.IOManager.Ledger.machine.run manager.events calls =
      some next.events := by
  cases steps with
  | loop | idle | wake | timers | listExpiredCb => exact ⟨[], rfl⟩
  | schedule handed =>
      rcases hand_eq_some handed with ⟨loop, ran, rfl⟩
      exact ⟨[], rfl⟩
  | events registers reported stepped advances handed =>
      rcases handAll_eq_some handed with ⟨loop, ran, rfl⟩
      exact ⟨_, Machine.run_singleton stepped⟩
  | queueExpired stageIs handed =>
      rcases handAll_eq_some handed with ⟨loop, ran, rfl⟩
      exact ⟨[], rfl⟩

/-! ## Runs -/

structure Composed (threadOf : Fin size → ThreadId) (start : UInt64)
    (manager : IOManager Callback size) : Prop where
  loop : ∃ labels, (Registry.machine threadOf ()).run {} labels = some manager.loop
  timers : ∃ calls, emitting.run (.new start, []) calls =
    some (manager.timers, manager.emitted)
  events : ∃ calls, Events.IOManager.Ledger.machine.run .new calls = some manager.events

theorem simulates_loop (self : SchedulerId) (threadOf : Fin size → ThreadId) :
    (machine self threadOf).Simulates (Registry.machine threadOf ())
      (IOManager.loop : IOManager Callback size → _) :=
  fun _ _ _ stepped => (step_eq_some stepped).loop_run

theorem simulates_timers (self : SchedulerId) (threadOf : Fin size → ThreadId) :
    (machine self threadOf).Simulates emitting
      fun manager : IOManager Callback size => (manager.timers, manager.emitted) :=
  fun _ _ _ stepped => (step_eq_some stepped).timers_run

theorem simulates_events (self : SchedulerId) (threadOf : Fin size → ThreadId) :
    (machine self threadOf).Simulates Events.IOManager.Ledger.machine
      (IOManager.events : IOManager Callback size → _) :=
  fun _ _ _ stepped => (step_eq_some stepped).events_run

/-- In every run of the manager, the loop, the timers and the events each go through a run of
their own. -/
theorem composed_of_run (self : SchedulerId) (threadOf : Fin size → ThreadId) (start : UInt64)
    {labels : List (Label Callback size)} {final : IOManager Callback size}
    (ran : (machine self threadOf).run (.new size start) labels = some final) :
    final.Composed threadOf start where
  loop := (simulates_loop self threadOf).run ran
  timers := (simulates_timers self threadOf).run ran
  events := (simulates_events self threadOf).run ran

/-! ## A turn -/

def fallAsleep (w : Fin size) (now : UInt64) : List (Label Callback size) :=
  [.loop (.scan w), .loop (.resume w), .getNextTImer w now, .stopping w, .wait w]

/-- A worker brings in what is due and what is reported, all `epoll_ctl` accepted. -/
def wakeUp (w : Fin size) (reported : List (Int32 × Mask)) (probe : Addr) (now : UInt64) :
    List (Label Callback size) :=
  [.wake w reported, .listExpiredCb w SearchTree.spine probe now, .queueExpired w] ++
    reported.map (fun _ => .dispatch w true) ++ [.swapOut w, .loop (.afterIdle w)]

def runOne (w : Fin size) : List (Label Callback size) :=
  [.loop (.scan w), .loop (.resume w), .loop (.swapOut w .finished), .loop (.release w),
    .loop (.settle w)]

def alone : Fin 1 := Fin.last 0

def timerAndEvent : List (Label Unit 1) :=
  fallAsleep alone 1000 ++
    [.timers (.outside none) { action := .addTimer 1 1000 10 (some ()) false },
      .events (.outside (some 7)) (.addEvent 2 .READD (some ())) true] ++
    wakeUp alone [(2, EPOLLIN)] 2 1010 ++ runOne alone ++ runOne alone

/-! ## What the parts keep -/

variable {start : UInt64}

theorem Composed.tracked (composed : manager.Composed threadOf start) :
    manager.loop.Tracked threadOf := by
  rcases composed.loop with ⟨labels, ran⟩
  exact Machine.run_induction (fun _ _ _ tracked stepped => tracked.step stepped)
    (Registry.Tracked.begin threadOf) ran

theorem Composed.valid (composed : manager.Composed threadOf start) :
    manager.timers.Valid := by
  rcases composed.timers with ⟨calls, ran⟩
  exact (TimerManager.Valid.new start).run (Machine.run_of_observe ran)

def filled (entries : List (Addr × Option Callback)) : List (Addr × Callback) :=
  entries.filterMap fun entry => entry.2.map (entry.1, ·)

theorem zip_listExpiredCb {timers : TimerManager Callback} (valid : timers.Valid)
    (layout : SearchTree.Layout Addr) (probe : Addr) (now : UInt64) :
    (timers.expired probe now).zip (timers.listExpiredCb layout probe now).2 =
      timers.emitted probe now := by
  rw [valid.callbacks_listExpiredCb, TimerManager.emitted, List.map_map]
  induction timers.expired probe now with
  | nil => rfl
  | cons timer rest induction =>
      rw [List.map_cons, List.zip_cons_cons, induction]
      rfl

theorem filled_emission {timers : TimerManager Callback} (valid : timers.Valid)
    (call : Timers.Call Callback) :
    filled (emission timers call) = timers.deliveries call.action := by
  rcases call with ⟨action, layout⟩
  cases action with
  | listExpiredCb probe now =>
      simp only [emission, zip_listExpiredCb valid]
      rfl
  | addTimer | cancel | reset | refresh => rfl

theorem filled_record {timers final : TimerManager Callback} (valid : timers.Valid)
    {record after : List (Addr × Option Callback)} {calls : List (Timers.Call Callback)}
    (ran : emitting.run (timers, record) calls = some (final, after)) :
    filled after = filled record ++ timers.emissions calls := by
  induction calls generalizing timers record with
  | nil =>
      cases ran
      simp [TimerManager.emissions]
  | cons call calls induction =>
      rcases Option.bind_eq_some_iff.mp ran with ⟨seen, stepped, rest⟩
      rcases Option.map_eq_some_iff.mp stepped with ⟨next, taken, rfl⟩
      rcases TimerManager.machine_step_iff.mp taken with ⟨enabled, rfl⟩
      have split : filled (record ++ emission timers call) =
          filled record ++ timers.deliveries call.action := by
        rw [← filled_emission valid]
        exact List.filterMap_append
      rw [induction (valid.execute call enabled) rest, split, TimerManager.emissions,
        List.append_assoc]

theorem Composed.emissions (composed : manager.Composed threadOf start) :
    ∃ calls, TimerManager.machine.run (.new start) calls = some manager.timers ∧
      filled manager.emitted = (TimerManager.new start).emissions calls := by
  rcases composed.timers with ⟨calls, ran⟩
  refine ⟨calls, Machine.run_of_observe ran, ?_⟩
  rw [filled_record (TimerManager.Valid.new start) ran]
  rfl

end IOManager

end Sylar.Assembly
