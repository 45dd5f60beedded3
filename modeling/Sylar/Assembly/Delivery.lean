import Sylar.Assembly.Sources
import Sylar.Foundation.Indices

/-! # From timers and events to the workers

What has been emitted for a timer or fired for a registration is in the queue, in the
hand of a worker or started, and it is so once. On the way nothing is lost and nothing
comes up twice.
-/

namespace Sylar.Assembly

open Foundation Scheduling Timers Events

/-! ## What an event operation adds -/

namespace Ledger

variable {Callback : Type} {ledger next : Events.IOManager.Ledger Callback}

theorem base_queued (manager : Events.IOManager Callback)
    (operation : Events.IOManager.Operation Callback) :
    (manager.base operation).queued = manager.queued := by
  cases operation with
  | addEvent fd event cb caller =>
      rw [Events.IOManager.base, Events.IOManager.grown]
      split <;> rfl
  | delEvent | cancelEvent | cancelAll | dispatch => rfl

theorem effect_queued {manager after : Events.IOManager Callback}
    {request : EpollRequest} {operation : Events.IOManager.Operation Callback}
    (effect : manager.Effect request operation after) :
    ∃ later, after.queued = manager.queued ++ later := by
  cases effect with
  | @registered fd event cb caller id holds direction unarmed empty callable =>
      have grown : (manager.grown fd).queued = manager.queued :=
        base_queued manager (.addEvent fd event cb caller)
      exact ⟨[], congrArg (· ++ []) grown⟩
  | deleted => exact ⟨[], rfl⟩
  | fired fires covers something queued => exact ⟨queued, rfl⟩

structure Grows (operation : Events.IOManager.Operation Callback)
    (ledger next : Events.IOManager.Ledger Callback) : Prop where
  delivered : ∃ later, next.delivered = ledger.delivered ++ later
  queued : ∃ later, next.manager.queued = ledger.manager.queued ++ later
  registered : ∃ later, next.registered = ledger.registered ++ later ∧
    ∀ scheduler fiber, (scheduler, Work.fiber fiber) ∈ later →
      ∃ fd event caller, operation = .addEvent fd event none caller ∧ caller.fiber = fiber

theorem grows {operation : Events.IOManager.Operation Callback} {reply : Bool}
    (stepped : Events.IOManager.Ledger.machine.step ledger
      { operation := operation, reply := reply } = some next) :
    Grows operation ledger next := by
  rcases Events.IOManager.Ledger.machine_step stepped with
    ⟨manager, answer, executed, ⟨rfl, rfl⟩ | ⟨rfl, id, targetIs, rfl⟩⟩
  · rcases Events.IOManager.execute_ok executed with ⟨-, rfl, -⟩ | ⟨impossible, -⟩
    · exact
        { delivered := ⟨[], (List.append_nil _).symm⟩
          queued := ⟨[], (base_queued _ _).trans (List.append_nil _).symm⟩
          registered := ⟨[], (List.append_nil _).symm, by simp⟩ }
    · cases impossible
  · rcases Events.IOManager.execute_ok executed with ⟨impossible, -⟩ | ⟨-, -, _, -, effect⟩
    · cases impossible
    · have queued := effect_queued effect
      cases operation with
      | addEvent fd event cb caller =>
          refine
            { delivered := ⟨[], (List.append_nil _).symm⟩
              queued := queued
              registered := ⟨_, rfl, ?_⟩ }
          intro scheduler fiber member
          cases cb with
          | some callback =>
              cases List.mem_singleton.mp member
          | none =>
              cases List.mem_singleton.mp member
              exact ⟨fd, event, caller, rfl, rfl⟩
      | delEvent =>
          exact
            { delivered := ⟨[], (List.append_nil _).symm⟩
              queued := queued
              registered := ⟨[], (List.append_nil _).symm, by simp⟩ }
      | cancelEvent | cancelAll | dispatch =>
          exact
            { delivered := ⟨_, rfl⟩
              queued := queued
              registered := ⟨[], (List.append_nil _).symm, by simp⟩ }

def history (ledger : Events.IOManager.Ledger Callback) :
    List (Nat × SchedulerId × Work Callback) :=
  ledger.delivered.zip ledger.manager.queued

theorem length_delivered (tracked : ledger.Tracked) :
    ledger.delivered.length = ledger.manager.queued.length := by
  have lengths := congrArg List.length tracked.queued
  rwa [List.length_map, List.length_map] at lengths

theorem history_grows (before : ledger.Tracked)
    {operation : Events.IOManager.Operation Callback} (grows : Grows operation ledger next) :
    history next =
      history ledger ++ (history next).drop ledger.delivered.length := by
  rcases grows.delivered with ⟨delivered, deliveredIs⟩
  rcases grows.queued with ⟨queued, queuedIs⟩
  have lengths := length_delivered before
  have split : history next = history ledger ++ delivered.zip queued := by
    rw [history, deliveredIs, queuedIs, List.zip_append lengths, history]
  have length : (history ledger).length = ledger.delivered.length := by
    rw [history, List.length_zip, ← lengths, Nat.min_self]
  rw [split, ← length, List.drop_left]

theorem mem_history (tracked : ledger.Tracked) {registration : Nat}
    {scheduler : SchedulerId} {work : Work Callback}
    (member : (registration, scheduler, work) ∈ history ledger) :
    registration ∈ ledger.delivered ∧
      ledger.registered[registration]? = some (some scheduler, work) := by
  rcases List.mem_iff_getElem?.mp member with ⟨position, found⟩
  rw [history, List.getElem?_zip_eq_some] at found
  rcases found with ⟨deliveredAt, queuedAt⟩
  refine ⟨List.mem_of_getElem? deliveredAt, ?_⟩
  have same := congrArg (fun entries => entries[position]?) tracked.queued
  simpa [deliveredAt, queuedAt] using same

end Ledger

namespace IOManager

variable {Callback : Type} {size : Nat} {self : SchedulerId}
  {threadOf : Fin size → ThreadId} {manager next : IOManager Callback size}
  {start : UInt64}

/-! ## Nothing is lost -/

def ofTimer : Origin × Option Callback → Option (Addr × Option Callback)
  | (.timer timer, callback) => some (timer, callback)
  | (.scheduled, _) | (.event _, _) => none

def isEvent : Origin × Option Callback → Bool
  | (.event _, _) => true
  | (.scheduled, _) | (.timer _, _) => false

def inHand (manager : IOManager Callback size) : List (Addr × Option Callback) :=
  (List.finRange size).flatMap fun w => (manager.idle w).inHand

/-- What has been emitted for timers has been handed in or is in the hand of an idle
worker. What has been fired for this scheduler has been handed in, in order. -/
structure HandsIn (own : SchedulerId) (manager : IOManager Callback size) : Prop where
  expired : (manager.origins.filterMap ofTimer ++ manager.inHand).Perm manager.emitted
  fired : manager.origins.filter isEvent = numbered (fired own .new manager.events)

theorem HandsIn.new (self : SchedulerId) (size : Nat) (start : UInt64) :
    (IOManager.new size start : IOManager Callback size).HandsIn self where
  expired := by
    have nothing : (IOManager.new size start : IOManager Callback size).inHand = [] :=
      List.flatMap_eq_nil_iff.mpr fun _ _ => rfl
    rw [nothing]
    exact List.Perm.refl _
  fired := rfl

theorem inHand_advances {idle : Fin size → Idle Callback}
    (advances : Advances manager.idle idle) :
    ((List.finRange size).flatMap fun w => (idle w).inHand) = manager.inHand :=
  List.flatMap_congr fun w _ => advances.inHand w

theorem ofTimer_fired (before after : Events.IOManager.Ledger Callback) :
    (numbered (fired self before after)).filterMap ofTimer = [] := by
  rw [numbered, fired, List.filterMap_filterMap, List.filterMap_filterMap,
    List.filterMap_eq_nil_iff]
  rintro ⟨registration, scheduler, work⟩ -
  cases work <;> by_cases own : scheduler = self <;> simp [entryOf, own, Work.map, ofTimer]

theorem isEvent_fired (before after : Events.IOManager.Ledger Callback) :
    (numbered (fired self before after)).filter isEvent =
      numbered (fired self before after) := by
  rw [List.filter_eq_self]
  intro entry member
  rw [numbered, fired, List.filterMap_filterMap, List.mem_filterMap] at member
  rcases member with ⟨⟨registration, scheduler, work⟩, -, found⟩
  cases work <;> by_cases own : scheduler = self <;> simp [entryOf, own, Work.map] at found
  subst found
  rfl

theorem fired_append {operation : Events.IOManager.Operation Callback}
    {before after : Events.IOManager.Ledger Callback} (tracked : before.Tracked)
    (grows : Ledger.Grows operation before after) :
    numbered (fired self .new after) =
      numbered (fired self .new before) ++ numbered (fired self before after) := by
  have split := Ledger.history_grows tracked grows
  have entries : fired self .new after = fired self .new before ++ fired self before after := by
    change (Ledger.history after).filterMap (entryOf self) =
      (Ledger.history before).filterMap (entryOf self) ++
        ((Ledger.history after).drop before.delivered.length).filterMap (entryOf self)
    rw [← List.filterMap_append, ← split]
  rw [entries]
  exact List.filterMap_append

theorem numbered_expiredEntries (timerCbs : List (Addr × Option Callback)) :
    (numbered (expiredEntries timerCbs)).filterMap ofTimer = timerCbs ∧
      (numbered (expiredEntries timerCbs)).filter isEvent = [] := by
  constructor
  · rw [numbered, expiredEntries, List.filterMap_filterMap, List.filterMap_map]
    exact List.filterMap_some
  · rw [List.filter_eq_nil_iff]
    intro entry member
    rw [numbered, expiredEntries, List.filterMap_map, List.mem_filterMap] at member
    rcases member with ⟨⟨timer, callback⟩, -, found⟩
    cases found
    simp [isEvent]

theorem HandsIn.congr (handsIn : manager.HandsIn self)
    {origins : List (Origin × Option Callback)}
    (originsIs : next.origins = manager.origins ++ origins)
    (noTimer : origins.filterMap ofTimer = []) (noEvent : origins.filter isEvent = [])
    (inHand : next.inHand = manager.inHand) (emitted : next.emitted = manager.emitted)
    (events : next.events = manager.events) : next.HandsIn self where
  expired := by
    rw [originsIs, List.filterMap_append, noTimer, List.append_nil, inHand, emitted]
    exact handsIn.expired
  fired := by
    rw [originsIs, List.filter_append, noEvent, List.append_nil, events]
    exact handsIn.fired

theorem HandsIn.step (handsIn : manager.HandsIn self) (tracked : manager.events.Tracked)
    (steps : Steps self threadOf manager next) :
    next.HandsIn self := by
  have same : manager.origins = manager.origins ++ [] := (List.append_nil _).symm
  cases steps with
  | loop own callable stepped advances =>
      exact handsIn.congr same rfl rfl (inHand_advances advances) rfl rfl
  | idle advances => exact handsIn.congr same rfl rfl (inHand_advances advances) rfl rfl
  | @wake w nextTimeout reported epEvents stageIs reports =>
      have advances : Advances manager.idle (Function.update manager.idle w (.blocked 0)) :=
        .update (by rw [stageIs]; rfl) (List.nil_subset _)
      refine handsIn.congr same rfl rfl ?_ rfl rfl
      rw [← inHand_advances advances]
      apply List.flatMap_congr
      intro v _
      by_cases here : v = w
      · subst here
        simp [goOn, Idle.inHand]
      · simp [goOn, here]
  | schedule handed =>
      rcases hand_eq_some handed with ⟨loop, -, rfl⟩
      refine handsIn.congr rfl ?_ ?_ rfl rfl rfl
      · rename_i entry
        rcases entry with ⟨callback | fiber, thread⟩ <;> rfl
      · rename_i entry
        rcases entry with ⟨callback | fiber, thread⟩ <;> rfl
  | timers => exact handsIn.congr same rfl rfl rfl rfl rfl
  | @events operation reply events idle _ registers reported stepped advances handed =>
      rcases handAll_eq_some handed with ⟨loop, -, rfl⟩
      constructor
      · simp only [List.filterMap_append, ofTimer_fired, List.append_nil]
        have inHand : ((List.finRange size).flatMap fun w => (idle w).inHand) =
          manager.inHand := inHand_advances advances
        have expired := handsIn.expired
        rwa [← inHand] at expired
      · simp only [List.filter_append, isEvent_fired, handsIn.fired]
        exact (fired_append tracked (Ledger.grows stepped)).symm
  | @listExpiredCb w epEvents layout probe now timers stageIs stepped =>
      refine ⟨?_, handsIn.fired⟩
      rcases flatMap_update_perm Idle.inHand manager.idle w
        (.expiring ((manager.timers.expired probe now).zip
          (manager.timers.listExpiredCb layout probe now).2) epEvents) with
        ⟨rest, before, after⟩
      rw [stageIs] at before
      have here : manager.inHand.Perm rest := before
      have taken := handsIn.expired.append_right
        ((manager.timers.expired probe now).zip
          (manager.timers.listExpiredCb layout probe now).2)
      refine List.Perm.trans ?_ taken
      rw [List.append_assoc]
      refine List.Perm.append_left _ ?_
      exact after.trans (List.perm_append_comm.trans (here.symm.append_right _))
  | @queueExpired w timerCbs epEvents _ stageIs handed =>
      rcases handAll_eq_some handed with ⟨loop, -, rfl⟩
      rcases numbered_expiredEntries timerCbs with ⟨timers, events⟩
      constructor
      · rcases flatMap_update_perm Idle.inHand manager.idle w (.dispatching epEvents) with
          ⟨rest, before, after⟩
        rw [stageIs] at before
        have here : manager.inHand.Perm (timerCbs ++ rest) := before
        simp only [goOn, List.filterMap_append, timers, List.append_assoc]
        refine List.Perm.trans (List.Perm.append_left _ ?_) handsIn.expired
        exact (after.append_left timerCbs).trans here.symm
      · simp only [goOn, List.filter_append, events, List.append_nil]
        exact handsIn.fired

/-! ## Runs -/

structure Sound (own : SchedulerId) (manager : IOManager Callback size) : Prop where
  tracked : manager.events.Tracked
  sourced : manager.Sourced
  handsIn : manager.HandsIn own

theorem Sound.new (self : SchedulerId) (size : Nat) (start : UInt64) :
    (IOManager.new size start : IOManager Callback size).Sound self where
  tracked := Events.IOManager.Ledger.Tracked.new
  sourced := .new size start
  handsIn := .new self size start

theorem Sound.step (sound : manager.Sound self) (steps : Steps self threadOf manager next) :
    next.Sound self where
  tracked := by
    rcases steps.events_run with ⟨calls, ran⟩
    exact Machine.run_induction (fun _ _ _ tracked stepped => tracked.step stepped)
      sound.tracked ran
  sourced := sound.sourced.step steps
  handsIn := sound.handsIn.step sound.tracked steps

theorem sound_of_run {labels : List (Label Callback size)} {final : IOManager Callback size}
    (ran : (machine self threadOf).run (.new size start) labels = some final) :
    final.Sound self :=
  Machine.run_induction (fun _ _ _ sound stepped => sound.step (step_eq_some stepped))
    (.new self size start) ran

/-- What has been emitted for timers and fired for this scheduler is handed in, and what
is handed in is in one place. -/
structure Conserved (own : SchedulerId) (manager : IOManager Callback size) : Prop where
  handsIn : manager.HandsIn own
  numbered : manager.origins.length = manager.loop.issued
  /-- A callback is queued, taken by one worker, or started, and that once. -/
  once : ∀ number, number < manager.loop.issued →
    manager.loop.queued number + manager.loop.taken number +
      manager.loop.started.count number = 1

/-- However the idle turns of the workers, the tasks and other threads come in between
one another, an operation at a time, whatever the clock, `epoll_wait` and `epoll_ctl` say:
no expired callback and no fired callback is lost on its way to a worker, and none is there
twice. -/
theorem conserved_of_run (self : SchedulerId) (threadOf : Fin size → ThreadId) (start : UInt64)
    {labels : List (Label Callback size)} {final : IOManager Callback size}
    (ran : (machine self threadOf).run (.new size start) labels = some final) :
    final.Conserved self := by
  have sound := sound_of_run ran
  have tracked := (composed_of_run self threadOf start ran).tracked
  exact
    { handsIn := sound.handsIn
      numbered := sound.sourced.length
      once := tracked.conserved.once }

theorem conserved_of_run_timerAndEvent : ∃ final : IOManager Unit 1,
    (machine 7 fun _ => 1).run (.new 1 1000) timerAndEvent = some final ∧
      final.origins = [(.timer 1, some ()), (.event 0, some ())] ∧ final.Conserved 7 := by
  have ran : ∃ final : IOManager Unit 1,
      (machine 7 fun _ => 1).run (.new 1 1000) timerAndEvent = some final ∧
        final.origins = [(.timer 1, some ()), (.event 0, some ())] := ⟨_, rfl, rfl⟩
  rcases ran with ⟨final, ran, origins⟩
  exact ⟨final, ran, origins, conserved_of_run 7 (fun _ => 1) 1000 ran⟩

end IOManager

end Sylar.Assembly
