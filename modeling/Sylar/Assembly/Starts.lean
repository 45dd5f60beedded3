import Sylar.Assembly.Delivery

/-! # What the workers start

From the timers and the events to the workers: the callback of a one-shot timer is
started at most once, that of a registration at most once and never after its deletion,
and nothing new is emitted for a timer that has been cancelled.
-/

namespace Sylar.Assembly

open Foundation Scheduling Timers Events

namespace IOManager

variable {Callback : Type} {size : Nat} {self : SchedulerId}
  {threadOf : Fin size → ThreadId} {manager next : IOManager Callback size}
  {start : UInt64}

/-- The callback of an origin: handed in by a caller, emitted for its timer, or that of a
delivered registration of this scheduler. -/
def Justified (own : SchedulerId) (manager : IOManager Callback size) (callback : Callback) :
    Origin → Prop
  | .scheduled => True
  | .timer timer => (timer, callback) ∈ filled manager.emitted
  | .event registration =>
      registration ∈ manager.events.delivered ∧
        manager.events.registered[registration]? = some (some own, .cb callback)

def isFrom (origin : Origin) (entry : Origin × Option Callback) : Bool :=
  decide (entry.1 = origin) && entry.2.isSome

def startedFrom (manager : IOManager Callback size) (origin : Origin) : List Nat :=
  manager.loop.started.filter fun number => manager.origins[number]?.any (isFrom origin)

/-! ## Origins -/

theorem HandsIn.mem_emitted (handsIn : manager.HandsIn self) {timer : Addr}
    {callback : Option Callback} (member : (.timer timer, callback) ∈ manager.origins) :
    (timer, callback) ∈ manager.emitted := by
  apply handsIn.expired.subset
  exact List.mem_append_left _ (List.mem_filterMap.mpr ⟨_, member, rfl⟩)

theorem HandsIn.mem_history (handsIn : manager.HandsIn self) {registration : Nat}
    {callback : Option Callback} (member : (.event registration, callback) ∈ manager.origins) :
    ∃ work, (registration, self, work) ∈ Ledger.history manager.events ∧
      work.map some = .cb callback := by
  have isFired : (.event registration, callback) ∈
      numbered (IOManager.fired self .new manager.events) := by
    rw [← handsIn.fired]
    exact List.mem_filter.mpr ⟨member, rfl⟩
  rcases List.mem_filterMap.mp isFired with ⟨⟨origin, entry⟩, isEntry, numbers⟩
  rcases List.mem_filterMap.mp isEntry with ⟨⟨other, scheduler, work⟩, isDelivered, made⟩
  rcases Option.ite_none_right_eq_some.mp made with ⟨rfl, same⟩
  cases same
  cases work with
  | cb given =>
      cases numbers
      exact ⟨.cb given, isDelivered, rfl⟩
  | fiber fiber => cases numbers

theorem Sound.justified (sound : manager.Sound self) {origin : Origin} {callback : Callback}
    (member : (origin, some callback) ∈ manager.origins) :
    manager.Justified self callback origin := by
  cases origin with
  | scheduled => trivial
  | timer timer =>
      have emitted := sound.handsIn.mem_emitted member
      exact List.mem_filterMap.mpr ⟨_, emitted, rfl⟩
  | event registration =>
      rcases sound.handsIn.mem_history member with ⟨work, isDelivered, workIs⟩
      rcases Ledger.mem_history sound.tracked isDelivered with ⟨delivered, registered⟩
      refine ⟨delivered, ?_⟩
      cases work with
      | cb given =>
          cases workIs
          exact registered
      | fiber fiber => cases workIs

/-! ## Counting -/

theorem length_startedFrom_le (nodup : manager.loop.started.Nodup) (origin : Origin) :
    (manager.startedFrom origin).length ≤ manager.origins.countP (isFrom origin) :=
  length_indices_le (nodup.filter _) fun _ member => (List.mem_filter.mp member).2

def isOf (timer : Addr) (entry : Addr × Option Callback) : Bool :=
  decide (entry.1 = timer) && entry.2.isSome

theorem HandsIn.countP_timer (handsIn : manager.HandsIn self) (timer : Addr) :
    manager.origins.countP (isFrom (.timer timer)) + manager.inHand.countP (isOf timer) =
      ((filled manager.emitted).map Prod.fst).count timer := by
  have counted := handsIn.expired.countP_eq (isOf timer)
  rw [List.countP_append, List.countP_filterMap] at counted
  have origins : manager.origins.countP (isFrom (.timer timer)) =
      manager.origins.countP fun entry => ((ofTimer entry).map (isOf timer)).getD false := by
    apply List.countP_congr
    rintro ⟨origin, callback⟩ -
    cases origin <;> simp [isFrom, ofTimer, isOf]
  have emitted : manager.emitted.countP (isOf timer) =
      ((filled manager.emitted).map Prod.fst).count timer := by
    rw [List.count, List.countP_map, filled, List.countP_filterMap]
    apply List.countP_congr
    rintro ⟨other, callback⟩ -
    cases callback <;> simp [isOf]
  rw [origins, counted, emitted]

theorem HandsIn.countP_timer_le (handsIn : manager.HandsIn self) (timer : Addr) :
    manager.origins.countP (isFrom (.timer timer)) ≤
      ((filled manager.emitted).map Prod.fst).count timer :=
  Nat.le.intro (handsIn.countP_timer timer)

def isFired (own : SchedulerId) (registration : Nat)
    (entry : Nat × SchedulerId × Work Callback) : Bool :=
  decide (entry.1 = registration) && decide (entry.2.1 = own) &&
    match entry.2.2 with
    | .cb _ => true
    | .fiber _ => false

theorem HandsIn.countP_event (handsIn : manager.HandsIn self) (registration : Nat) :
    manager.origins.countP (isFrom (.event registration)) =
      (Ledger.history manager.events).countP (isFired self registration) := by
  have origins : manager.origins.countP (isFrom (.event registration)) =
      (manager.origins.filter isEvent).countP (isFrom (.event registration)) := by
    rw [List.countP_filter]
    apply List.countP_congr
    rintro ⟨origin, callback⟩ -
    cases origin <;> simp [isFrom, isEvent]
  rw [origins, handsIn.fired]
  change ((((Ledger.history manager.events).filterMap (entryOf self)).filterMap _).countP
    _) = _
  rw [List.filterMap_filterMap, List.countP_filterMap]
  apply List.countP_congr
  rintro ⟨other, scheduler, work⟩ -
  cases work <;> by_cases own : scheduler = self <;>
    simp [entryOf, Work.map, isFrom, isFired, own]

theorem countP_history (tracked : manager.events.Tracked) (registration : Nat) :
    (Ledger.history manager.events).countP (fun entry => decide (entry.1 = registration)) =
      manager.events.delivered.count registration := by
  have firsts : (Ledger.history manager.events).map Prod.fst = manager.events.delivered :=
    List.map_fst_zip (Nat.le_of_eq (Ledger.length_delivered tracked))
  rw [← firsts, List.count, List.countP_map]
  apply List.countP_congr
  simp

theorem countP_event_le (tracked : manager.events.Tracked)
    (handsIn : manager.HandsIn self) (registration : Nat) :
    manager.origins.countP (isFrom (.event registration)) ≤
      manager.events.delivered.count registration := by
  rw [handsIn.countP_event, ← countP_history tracked]
  apply List.countP_mono_left
  intro entry _ passes
  simp only [isFired, Bool.and_eq_true] at passes
  exact passes.1.1

theorem countP_event_eq (tracked : manager.events.Tracked) (handsIn : manager.HandsIn self)
    {registration : Nat} {callback : Callback}
    (registered : manager.events.registered[registration]? = some (some self, .cb callback)) :
    manager.origins.countP (isFrom (.event registration)) =
      manager.events.delivered.count registration := by
  rw [handsIn.countP_event, ← countP_history tracked]
  apply List.countP_congr
  rintro ⟨other, scheduler, work⟩ member
  simp only [isFired, Bool.and_eq_true, decide_eq_true_eq]
  constructor
  · exact fun passes => passes.1.1
  · rintro rfl
    have same := (Ledger.mem_history tracked member).2
    rw [registered] at same
    cases same
    exact ⟨⟨rfl, rfl⟩, rfl⟩

/-! ## Runs -/

theorem Composed.started_nodup (composed : manager.Composed threadOf start) :
    manager.loop.started.Nodup := by
  rw [List.nodup_iff_count_le_one]
  intro number
  have counted := composed.tracked.numbers number
  split at counted <;> omega

theorem Composed.count_emitted_le (composed : manager.Composed threadOf start) {timer : Addr}
    (oneShot : (manager.timers.objects timer).recuring = false) :
    ((filled manager.emitted).map Prod.fst).count timer ≤ 1 := by
  rcases composed.emissions with ⟨calls, ran, emitted⟩
  rw [emitted]
  exact (TimerManager.Valid.new start).count_emissions timer ran oneShot

structure StartsOnce (own : SchedulerId) (manager : IOManager Callback size) : Prop where
  nodup : manager.loop.started.Nodup
  /-- It is no empty function, and somebody has handed it in. -/
  justified : ∀ number ∈ manager.loop.started, ∃ origin callback,
    manager.origins[number]? = some (origin, some callback) ∧
      manager.Justified own callback origin
  oneShot : ∀ timer, (manager.timers.objects timer).recuring = false →
    (manager.startedFrom (.timer timer)).length ≤ 1
  event : ∀ registration, (manager.startedFrom (.event registration)).length ≤ 1
  revoked : ∀ registration ∈ manager.events.revoked,
    manager.startedFrom (.event registration) = []

/-- However workers, tasks and other threads come in between one another, an operation on
timers or events at a time: the workers start the callback of a one-shot timer and that of a
registration at most once, that of a deleted registration never, and nothing that nobody has
handed in. -/
theorem startsOnce_of_run (self : SchedulerId) (threadOf : Fin size → ThreadId)
    (start : UInt64) {labels : List (Label Callback size)} {final : IOManager Callback size}
    (ran : (machine self threadOf).run (.new size start) labels = some final) :
    final.StartsOnce self := by
  have sound := sound_of_run ran
  have composed := composed_of_run self threadOf start ran
  have nodup := composed.started_nodup
  have events : ∀ registration, (final.startedFrom (.event registration)).length ≤
      final.events.delivered.count registration := fun registration =>
    (length_startedFrom_le nodup _).trans
      (countP_event_le sound.tracked sound.handsIn registration)
  constructor
  · exact nodup
  · intro number started
    rcases sound.sourced.started number started with ⟨origin, callback, found⟩
    exact ⟨origin, callback, found, sound.justified (List.mem_of_getElem? found)⟩
  · intro timer oneShot
    exact (length_startedFrom_le nodup _).trans
      ((sound.handsIn.countP_timer_le timer).trans (composed.count_emitted_le oneShot))
  · intro registration
    exact (events registration).trans
      (List.nodup_iff_count_le_one.mp sound.tracked.nodup registration)
  · intro registration revoked
    have undelivered := (sound.tracked.revoked registration revoked).2.1
    have none := events registration
    rw [List.count_eq_zero_of_not_mem undelivered] at none
    exact List.length_eq_zero_iff.mp (Nat.le_zero.mp none)

theorem startsOnce_of_run_timerAndEvent : ∃ final : IOManager Unit 1,
    (machine 7 fun _ => 1).run (.new 1 1000) timerAndEvent = some final ∧
      final.startedFrom (.timer 1) = [0] ∧ final.startedFrom (.event 0) = [1] ∧
      final.StartsOnce 7 := by
  have ran : ∃ final : IOManager Unit 1,
      (machine 7 fun _ => 1).run (.new 1 1000) timerAndEvent = some final ∧
        final.startedFrom (.timer 1) = [0] ∧ final.startedFrom (.event 0) = [1] :=
    ⟨_, rfl, rfl, rfl⟩
  rcases ran with ⟨final, ran, timer, event⟩
  exact ⟨final, ran, timer, event, startsOnce_of_run 7 (fun _ => 1) 1000 ran⟩

theorem silent_of_run (composed : manager.Composed threadOf start) {timer : Addr}
    (created : timer ∈ manager.timers.created)
    (empty : (manager.timers.objects timer).cb = none)
    {labels : List (Label Callback size)} {final : IOManager Callback size}
    (ran : (machine self threadOf).run manager labels = some final) :
    ((filled final.emitted).map Prod.fst).count timer =
      ((filled manager.emitted).map Prod.fst).count timer := by
  rcases (simulates_timers self threadOf).run ran with ⟨calls, timersRan⟩
  have silent := composed.valid.silent created empty (Machine.run_of_observe timersRan)
  rw [filled_record composed.valid timersRan, List.map_append, List.count_append,
    List.count_eq_zero_of_not_mem silent, Nat.add_zero]

/-- Whatever happens after a cancellation, in the middle of whatever turn of an idle worker
it comes: what the workers start for the timer in the end had been emitted before it. -/
theorem cancelled_of_run (self : SchedulerId) (threadOf : Fin size → ThreadId)
    (start : UInt64) {earlier later : List (Label Callback size)}
    {before after final : IOManager Callback size} {actor : Actor size} {timer : Addr}
    {layout : SearchTree.Layout Addr}
    (ranEarlier : (machine self threadOf).run (.new size start) earlier = some before)
    (cancels : (machine self threadOf).step before
      (.timers actor { action := .cancel timer, layout := layout }) = some after)
    (ranLater : (machine self threadOf).run after later = some final) :
    (final.startedFrom (.timer timer)).length ≤
      ((filled before.emitted).map Prod.fst).count timer := by
  have composed := composed_of_run self threadOf start ranEarlier
  have ranTo : (machine self threadOf).run (.new size start)
      (earlier ++ [.timers actor { action := .cancel timer, layout := layout }]) =
        some after := by
    rw [Machine.run_append, ranEarlier]
    exact Machine.run_singleton cancels
  have ran : (machine self threadOf).run (.new size start)
      ((earlier ++ [.timers actor { action := .cancel timer, layout := layout }]) ++ later) =
        some final := by
    rw [Machine.run_append, ranTo]
    exact ranLater
  have sound := sound_of_run ran
  have nodup := (composed_of_run self threadOf start ran).started_nodup
  rcases Option.ite_none_right_eq_some.mp cancels with ⟨-, moved⟩
  rcases Option.map_eq_some_iff.mp moved with ⟨timers, stepped, rfl⟩
  rcases TimerManager.machine_step_iff.mp stepped with ⟨created, rfl⟩
  have empty : ((before.timers.execute
      { action := .cancel timer, layout := layout }).1.objects timer).cb = none := by
    simp [TimerManager.execute, TimerManager.objects_cancel, TimerManager.objects_clearCb]
  have silent := silent_of_run (composed_of_run self threadOf start ranTo)
    (composed.valid.created_execute _ created) empty ranLater
  rw [← silent]
  exact (length_startedFrom_le nodup _).trans (sound.handsIn.countP_timer_le timer)

theorem cancelled_of_run_recurring : ∃ before after final : IOManager Unit 1,
    (machine 7 fun _ => 1).run (.new 1 1000)
        (.timers (.outside none) { action := .addTimer 1 1000 10 (some ()) true } ::
          fallAsleep alone 1000 ++ wakeUp alone [] 2 1010) = some before ∧
      (machine 7 fun _ => 1).step before
        (.timers (.outside none) { action := .cancel 1 }) = some after ∧
      (machine 7 fun _ => 1).run after
        (runOne alone ++ fallAsleep alone 1020 ++ wakeUp alone [] 2 1020) = some final ∧
      (filled before.emitted).map Prod.fst = [1] ∧
      (final.startedFrom (.timer 1)).length ≤
        ((filled before.emitted).map Prod.fst).count 1 := by
  have earlier : ∃ before : IOManager Unit 1,
      (machine 7 fun _ => 1).run (.new 1 1000)
          (.timers (.outside none) { action := .addTimer 1 1000 10 (some ()) true } ::
            fallAsleep alone 1000 ++ wakeUp alone [] 2 1010) = some before ∧
        (filled before.emitted).map Prod.fst = [1] ∧
        ∃ after, (machine 7 fun _ => 1).step before
            (.timers (.outside none) { action := .cancel 1 }) = some after ∧
          ∃ final, (machine 7 fun _ => 1).run after
            (runOne alone ++ fallAsleep alone 1020 ++ wakeUp alone [] 2 1020) = some final :=
    ⟨_, rfl, rfl, _, rfl, _, rfl⟩
  rcases earlier with ⟨before, ranEarlier, emitted, after, cancels, final, ranLater⟩
  exact ⟨before, after, final, ranEarlier, cancels, ranLater, emitted,
    cancelled_of_run 7 (fun _ => 1) 1000 ranEarlier cancels ranLater⟩

/-! ## At rest -/

/-- The queue is empty, and no worker has a callback that it has not started, or expired
callbacks that it has not queued. -/
structure AtRest (manager : IOManager Callback size) : Prop where
  queue : manager.loop.scheduler.fibers = []
  hands : ∀ w callback, (manager.loop.scheduler.workers w).stage.hand ≠ some (.cb callback)
  carried : ∀ w, (manager.idle w).inHand = []

structure Drained (own : SchedulerId) (manager : IOManager Callback size) : Prop where
  started : manager.loop.started.Perm (List.range manager.loop.issued)
  timer : ∀ timer, (manager.startedFrom (.timer timer)).length =
    ((filled manager.emitted).map Prod.fst).count timer
  event : ∀ registration callback,
    manager.events.registered[registration]? = some (some own, .cb callback) →
      (manager.startedFrom (.event registration)).length =
        manager.events.delivered.count registration

theorem AtRest.count_started (rest : manager.AtRest)
    (tracked : manager.loop.Tracked threadOf) (number : Nat) :
    manager.loop.started.count number = if number < manager.loop.issued then 1 else 0 := by
  have counted := tracked.numbers number
  have nothing : manager.loop.scheduler.inPlay (Registry.isNumber number) = 0 := by
    rw [Scheduler.inPlay, rest.queue, Nat.add_eq_zero_iff]
    refine ⟨rfl, total_eq_zero_iff.mpr fun w _ => ?_⟩
    rw [Worker.handWeight]
    cases hand : (manager.loop.scheduler.workers w).stage.hand with
    | none => rfl
    | some work =>
        cases work with
        | cb callback => exact absurd hand (rest.hands w callback)
        | fiber fiber => rfl
  rwa [nothing, Nat.zero_add] at counted

theorem AtRest.started_perm (rest : manager.AtRest) (tracked : manager.loop.Tracked threadOf) :
    manager.loop.started.Perm (List.range manager.loop.issued) := by
  rw [List.perm_iff_count]
  intro number
  rw [rest.count_started tracked, List.count_range]

theorem AtRest.length_startedFrom (rest : manager.AtRest)
    (tracked : manager.loop.Tracked threadOf) (sourced : manager.Sourced) (origin : Origin) :
    (manager.startedFrom origin).length = manager.origins.countP (isFrom origin) := by
  have perm := rest.started_perm tracked
  rw [← sourced.length] at perm
  rw [startedFrom, (perm.filter _).length_eq, length_filter_range]

/-- When the manager has come to rest, the workers have started the callback of a timer as
often as the timer has expired with one, and that of a registration as often as it has been
delivered. -/
theorem drained_of_run (self : SchedulerId) (threadOf : Fin size → ThreadId) (start : UInt64)
    {labels : List (Label Callback size)} {final : IOManager Callback size}
    (ran : (machine self threadOf).run (.new size start) labels = some final)
    (rest : final.AtRest) : final.Drained self := by
  have sound := sound_of_run ran
  have tracked := (composed_of_run self threadOf start ran).tracked
  have length := rest.length_startedFrom tracked sound.sourced
  constructor
  · exact rest.started_perm tracked
  · intro timer
    have carried : final.inHand = [] := List.flatMap_eq_nil_iff.mpr fun w _ => rest.carried w
    have counted := sound.handsIn.countP_timer timer
    rw [carried, List.countP_nil, Nat.add_zero] at counted
    exact (length _).trans counted
  · intro registration callback registered
    exact (length _).trans (countP_event_eq sound.tracked sound.handsIn registered)

theorem drained_of_run_timerAndEvent : ∃ final : IOManager Unit 1,
    (machine 7 fun _ => 1).run (.new 1 1000) timerAndEvent = some final ∧ final.AtRest ∧
      final.Drained 7 := by
  have ran : ∃ final : IOManager Unit 1,
      (machine 7 fun _ => 1).run (.new 1 1000) timerAndEvent = some final ∧
        final.loop.scheduler.fibers = [] ∧
        (final.loop.scheduler.workers alone).stage.hand = none ∧
        (final.idle alone).inHand = [] := ⟨_, rfl, rfl, rfl, rfl⟩
  rcases ran with ⟨final, ran, queue, hand, carried⟩
  have onlyOne : ∀ w : Fin 1, w = alone := fun w => Subsingleton.elim _ _
  have rest : final.AtRest :=
    { queue := queue
      hands := fun w callback => by rw [onlyOne w, hand]; simp
      carried := fun w => by rw [onlyOne w]; exact carried }
  exact ⟨final, ran, rest, drained_of_run 7 (fun _ => 1) 1000 ran rest⟩

end IOManager

end Sylar.Assembly
