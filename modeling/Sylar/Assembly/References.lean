import Sylar.Assembly.Delivery

/-! # What the parts refer to

Epoll keeps pointers to contexts, and idle workers carry them about while the table
grows; slots keep fibers. What they refer to exists, so a report can be treated and a
hand-over is never turned away.
-/

namespace Sylar.Assembly

open Foundation Scheduling Timers Events

/-! ## Pointers that epoll keeps -/

namespace Ledger

variable {Callback : Type} {manager next : Events.IOManager Callback}
  {operation : Events.IOManager.Operation Callback}

def Points (manager : Events.IOManager Callback) : Prop :=
  ∀ fd registration, manager.epoll fd = some registration →
    registration.contex < manager.allocated

theorem allocated_base (manager : Events.IOManager Callback)
    (operation : Events.IOManager.Operation Callback) :
    manager.allocated ≤ (manager.base operation).allocated := by
  cases operation with
  | addEvent fd event cb caller =>
      rw [Events.IOManager.base, Events.IOManager.grown]
      split
      · exact Nat.le_add_right _ _
      · exact Nat.le_refl _
  | delEvent | cancelEvent | cancelAll | dispatch => exact Nat.le_refl _

theorem epoll_base (manager : Events.IOManager Callback)
    (operation : Events.IOManager.Operation Callback) :
    (manager.base operation).epoll = manager.epoll := by
  cases operation with
  | addEvent fd event cb caller =>
      rw [Events.IOManager.base, Events.IOManager.grown]
      split <;> rfl
  | delEvent | cancelEvent | cancelAll | dispatch => rfl

theorem requestOf_contex {request : EpollRequest}
    (made : manager.requestOf operation = some request) :
    manager.target operation = some request.contex := by
  rcases Option.bind_eq_some_iff.mp made with ⟨id, targetIs, requested⟩
  rw [targetIs]
  cases operation with
  | addEvent =>
      simp only [FdContex.addRequest] at requested
      split at requested <;> cases requested
      rfl
  | delEvent | cancelEvent =>
      simp only [FdContex.removeRequest] at requested
      split at requested <;> cases requested
      rfl
  | cancelAll =>
      simp only [FdContex.removeAllRequest] at requested
      split at requested <;> cases requested
      rfl
  | dispatch =>
      simp only [FdContex.dispatchRequest] at requested
      split at requested <;> cases requested
      rfl

theorem target_lt (formed : manager.WellFormed)
    (reported : ∀ id events, operation = .dispatch id events → id < manager.allocated)
    {id : ContexId} (targetIs : manager.target operation = some id) :
    id < (manager.base operation).allocated := by
  cases operation with
  | addEvent fd event cb caller =>
      have holds := Events.IOManager.toOption_contexAt_eq_some.mp targetIs
      exact (formed.base (.addEvent fd event cb caller)).allocated id holds.mem
  | delEvent | cancelEvent | cancelAll =>
      exact formed.allocated id (Events.IOManager.lookup_eq_some.mp targetIs).2.mem
  | dispatch reportedId events =>
      cases targetIs
      exact reported id events rfl

theorem effect_epoll {request : EpollRequest} (effect : manager.Effect request operation next) :
    next.epoll = request.apply (manager.base operation).epoll ∧
      next.allocated = (manager.base operation).allocated := by
  cases effect with
  | registered => exact ⟨rfl, rfl⟩
  | deleted => exact ⟨rfl, rfl⟩
  | fired fires =>
      cases operation with
      | addEvent | delEvent => exact fires.elim
      | cancelEvent | cancelAll | dispatch => exact ⟨rfl, rfl⟩

theorem Points.execute (points : Points manager) (formed : manager.WellFormed)
    (reported : ∀ id events, operation = .dispatch id events → id < manager.allocated)
    {reply answer : Bool}
    (returned : manager.execute { operation := operation, reply := reply } =
      .ok (next, answer)) :
    Points next ∧ manager.allocated ≤ next.allocated := by
  have grows := allocated_base manager operation
  rcases Events.IOManager.execute_ok returned with ⟨-, rfl, -⟩ | ⟨-, -, request, made, effect⟩
  · refine ⟨fun fd registration kept => ?_, grows⟩
    rw [epoll_base] at kept
    exact (points fd registration kept).trans_le grows
  · rcases effect_epoll effect with ⟨epollIs, allocatedIs⟩
    have below := target_lt formed reported (requestOf_contex made)
    rw [Points, epollIs, allocatedIs]
    refine ⟨fun fd registration kept => ?_, grows⟩
    rw [EpollRequest.apply, Function.update_apply, epoll_base] at kept
    split at kept
    · cases operationIs : request.op <;> rw [operationIs] at kept <;> cases kept
      · exact below
      · exact below
    · exact (points fd registration kept).trans_le grows

theorem executed {ledger after : Events.IOManager.Ledger Callback}
    {call : Events.IOManager.Call Callback}
    (stepped : Events.IOManager.Ledger.machine.step ledger call = some after) :
    ∃ answer, ledger.manager.execute call = .ok (after.manager, answer) := by
  rcases Events.IOManager.Ledger.machine_step stepped with
    ⟨manager, answer, returned, ⟨-, rfl⟩ | ⟨-, id, -, rfl⟩⟩
  · exact ⟨answer, returned⟩
  · exact ⟨answer, returned⟩

end Ledger

namespace IOManager

variable {Callback : Type} {size : Nat} {self : SchedulerId}
  {threadOf : Fin size → ThreadId} {manager next : IOManager Callback size}
  {start : UInt64}

/-! ## The manager as a whole -/

/-- The contexts that are referred to have been allocated, and the fibers that have been
registered exist. -/
structure Refers (manager : IOManager Callback size) : Prop where
  epoll : Ledger.Points manager.events.manager
  reports : ∀ w, ∀ report ∈ (manager.idle w).reports,
    report.contex < manager.events.manager.allocated
  fibers : ∀ scheduler fiber, (scheduler, Work.fiber fiber) ∈ manager.events.registered →
    fiber < manager.loop.scheduler.created

theorem Refers.new (size : Nat) (start : UInt64) :
    (IOManager.new size start : IOManager Callback size).Refers where
  epoll fd registration kept := by cases kept
  reports w report member := by cases member
  fibers scheduler fiber member := by cases member

theorem reportsOf_points {epoll : Interest} {reported : List (Int32 × Mask)}
    {epEvents : List Report}
    (reports : (reported.mapM fun report => (epoll report.1).map fun registration =>
      ({ contex := registration.contex, events := report.2 } : Report)) = some epEvents) :
    ∀ report ∈ epEvents, ∃ fd registration,
      epoll fd = some registration ∧ report.contex = registration.contex := by
  induction reported generalizing epEvents with
  | nil =>
      cases reports
      simp
  | cons first rest induction =>
      rw [List.mapM_cons] at reports
      rcases Option.bind_eq_some_iff.mp reports with ⟨report, here, more⟩
      rcases Option.bind_eq_some_iff.mp more with ⟨others, later, same⟩
      rcases Option.map_eq_some_iff.mp here with ⟨registration, registered, rfl⟩
      cases same
      intro other member
      rcases List.mem_cons.mp member with rfl | member
      · exact ⟨first.1, registration, registered, rfl⟩
      · exact induction later other member

theorem created_run {loop after : Registry (Option Callback) Unit size}
    {labels : List (Scheduler.Label (Option Callback) size)}
    (ran : (Registry.machine threadOf ()).run loop labels = some after) :
    loop.scheduler.created ≤ after.scheduler.created := by
  have grows : ∀ (registry : Registry (Option Callback) Unit size) label next,
      loop.scheduler.created ≤ registry.scheduler.created →
        (Registry.machine threadOf ()).step registry label = some next →
          loop.scheduler.created ≤ next.scheduler.created := by
    intro registry label next below stepped
    exact below.trans (Registry.scheduler_step stepped).brings_cases.1
  exact Machine.run_induction grows (Nat.le_refl _) ran

theorem Refers.step (refers : manager.Refers) (tracked : manager.loop.Tracked threadOf)
    (formed : manager.events.manager.WellFormed)
    (steps : Steps self threadOf manager next) : next.Refers := by
  rcases steps.loop_run with ⟨labels, ran⟩
  have grows := created_run ran
  cases steps with
  | loop own callable stepped advances =>
      exact
        { epoll := refers.epoll
          reports := fun w report member =>
            refers.reports w report (advances.reports w member)
          fibers := fun scheduler fiber member =>
            (refers.fibers scheduler fiber member).trans_le grows }
  | idle advances =>
      exact
        { epoll := refers.epoll
          reports := fun w report member =>
            refers.reports w report (advances.reports w member)
          fibers := refers.fibers }
  | @wake w nextTimeout reported epEvents stageIs reports =>
      refine { epoll := refers.epoll, reports := ?_, fibers := refers.fibers }
      refine (Function.forall_update_iff manager.idle fun _ stage =>
        ∀ report ∈ stage.reports, report.contex < manager.events.manager.allocated).mpr
          ⟨?_, fun v _ => refers.reports v⟩
      intro report member
      rcases reportsOf_points reports report member with
        ⟨fd, registration, registered, contexIs⟩
      rw [contexIs]
      exact refers.epoll fd registration registered
  | schedule handed =>
      rcases hand_eq_some handed with ⟨loop, -, rfl⟩
      exact
        { epoll := refers.epoll
          reports := refers.reports
          fibers := fun scheduler fiber member =>
            (refers.fibers scheduler fiber member).trans_le grows }
  | timers => exact ⟨refers.epoll, refers.reports, refers.fibers⟩
  | @events operation reply events idle _ registers reported stepped advances handed =>
      rcases handAll_eq_some handed with ⟨loop, -, rfl⟩
      rcases Ledger.executed stepped with ⟨answer, executed⟩
      have pointed : ∀ id mask, operation = .dispatch id mask →
          id < manager.events.manager.allocated := by
        intro id mask isDispatch
        rcases reported id mask isDispatch with ⟨w, member⟩
        exact refers.reports w _ member
      rcases refers.epoll.execute formed pointed executed with ⟨epoll, allocated⟩
      refine { epoll := epoll, reports := ?_, fibers := ?_ }
      · exact fun w report member =>
          (refers.reports w report (advances.reports w member)).trans_le allocated
      · intro scheduler fiber member
        rcases (Ledger.grows stepped).registered with ⟨later, registeredIs, callers⟩
        rw [registeredIs] at member
        rcases List.mem_append.mp member with before | new
        · exact (refers.fibers scheduler fiber before).trans_le grows
        · rcases callers scheduler fiber new with ⟨fd, event, caller, isAdd, rfl⟩
          rcases registers fd event caller isAdd with ⟨w, thread, fromCb, stageIs⟩
          have holds : (manager.loop.scheduler.workers w).stage.hand =
              some (.fiber caller.fiber) := by
            rw [stageIs]
            rfl
          exact (tracked.known.lt_created holds).trans_le grows
  | @listExpiredCb w epEvents layout probe now timers stageIs stepped =>
      refine { epoll := refers.epoll, reports := ?_, fibers := refers.fibers }
      refine (Function.forall_update_iff manager.idle fun _ stage =>
        ∀ report ∈ stage.reports, report.contex < manager.events.manager.allocated).mpr
          ⟨?_, fun v _ => refers.reports v⟩
      have before := refers.reports w
      rw [stageIs] at before
      exact before
  | @queueExpired w timerCbs epEvents _ stageIs handed =>
      rcases handAll_eq_some handed with ⟨loop, -, rfl⟩
      refine { epoll := refers.epoll, reports := ?_, fibers := ?_ }
      · refine (Function.forall_update_iff manager.idle fun _ stage =>
          ∀ report ∈ stage.reports, report.contex < manager.events.manager.allocated).mpr
            ⟨?_, fun v _ => refers.reports v⟩
        have before := refers.reports w
        rw [stageIs] at before
        exact before
      · exact fun scheduler fiber member =>
          (refers.fibers scheduler fiber member).trans_le grows

/-! ## Hand-overs are accepted -/

theorem handAll_isSome {entries : List (Origin × FiberAnThread (Option Callback))}
    (existing : ∀ entry ∈ entries, ∀ fiber, entry.2.work = .fiber fiber →
      fiber < manager.loop.scheduler.created) :
    (handAll threadOf manager entries).isSome = true := by
  induction entries generalizing manager with
  | nil => rfl
  | cons entry rest induction =>
      rcases entry with ⟨origin, entry⟩
      rcases List.forall_mem_cons.mp existing with ⟨here, later⟩
      have allowed : manager.loop.Allowed (.schedule entry) = true := by
        rw [Registry.Allowed, Option.all_eq_true]
        intro fiber fiberIs
        exact decide_eq_true (here fiber (FiberAnThread.fiber_eq_some.mp fiberIs))
      have taken : ∃ next, manager.hand threadOf origin entry = some next := by
        simp only [hand, Registry.step, allowed, if_true]
        exact ⟨_, rfl⟩
      rcases taken with ⟨next, taken⟩
      rw [handAll, taken]
      apply induction
      rcases hand_eq_some taken with ⟨loop, ran, rfl⟩
      intro other member fiber workIs
      exact (later other member fiber workIs).trans_le (created_run ran)

def Registers (manager : IOManager Callback size)
    (operation : Events.IOManager.Operation Callback) : Prop :=
  ∀ fd event caller, operation = .addEvent fd event none caller →
    caller.fiber < manager.loop.scheduler.created

theorem Refers.fired_existing (refers : manager.Refers) (self : SchedulerId)
    {after : Events.IOManager.Ledger Callback} (tracked : after.Tracked)
    {operation : Events.IOManager.Operation Callback}
    (registers : manager.Registers operation)
    (grows : Ledger.Grows operation manager.events after) :
    ∀ entry ∈ IOManager.fired self manager.events after, ∀ fiber,
      entry.2.work = .fiber fiber → fiber < manager.loop.scheduler.created := by
  intro entry member fiber workIs
  rcases List.mem_filterMap.mp member with ⟨⟨registration, scheduler, work⟩, isNew, made⟩
  rcases Option.ite_none_right_eq_some.mp made with ⟨-, same⟩
  cases same
  cases work with
  | cb callback => cases workIs
  | fiber own =>
      cases workIs
      have found := (Ledger.mem_history tracked (List.mem_of_mem_drop isNew)).2
      have registered := List.mem_of_getElem? found
      rcases grows.registered with ⟨later, registeredIs, callers⟩
      rw [registeredIs] at registered
      rcases List.mem_append.mp registered with before | new
      · exact refers.fibers _ fiber before
      · rcases callers _ fiber new with ⟨fd, event, caller, isAdd, rfl⟩
        exact registers fd event caller isAdd

/-! ## Runs -/

/-- What is referred to exists, and no hand-over is turned away: an operation goes
through whenever its part of the manager lets it. -/
structure Responsive (own : SchedulerId) (threadOf : Fin size → ThreadId)
    (manager : IOManager Callback size) : Prop where
  refers : manager.Refers
  queueExpired : ∀ w timerCbs epEvents,
    manager.idleStage w = some (.expiring timerCbs epEvents) →
      (step own threadOf manager (.queueExpired w)).isSome = true
  dispatch : ∀ w report rest reply after,
    manager.idleStage w = some (.dispatching (report :: rest)) →
      Events.IOManager.Ledger.machine.step manager.events
        { operation := .dispatch report.contex report.events, reply := reply } = some after →
      (step own threadOf manager (.dispatch w reply)).isSome = true
  events : ∀ actor request caller reply after,
    manager.caller own request actor = some caller →
      Events.IOManager.Ledger.machine.step manager.events
        { operation := request.operation caller, reply := reply } = some after →
      (step own threadOf manager (.events actor request reply)).isSome = true

theorem Refers.handsOver (refers : manager.Refers) (self : SchedulerId)
    (threadOf : Fin size → ThreadId) {moved : IOManager Callback size}
    {after : Events.IOManager.Ledger Callback} (tracked : manager.events.Tracked)
    {operation : Events.IOManager.Operation Callback} {reply : Bool}
    (registers : manager.Registers operation)
    (stepped : Events.IOManager.Ledger.machine.step manager.events
      { operation := operation, reply := reply } = some after)
    (same : moved.loop = manager.loop) :
    (handAll threadOf moved (IOManager.fired self manager.events after)).isSome = true := by
  have existing := refers.fired_existing self (tracked.step stepped) registers
    (Ledger.grows stepped)
  apply handAll_isSome
  rw [same]
  exact existing

theorem registers_of_caller (loop : manager.loop.Tracked threadOf)
    {request : Request Callback} {actor : Actor size} {caller : Events.Caller}
    (callerIs : manager.caller self request actor = some caller) :
    manager.Registers (request.operation caller) := by
  intro fd event named operationIs
  rcases caller_registers callerIs fd event named operationIs with
    ⟨w, thread, fromCb, stageIs⟩
  have holds : (manager.loop.scheduler.workers w).stage.hand = some (.fiber named.fiber) := by
    rw [stageIs]
    rfl
  exact loop.known.lt_created holds

theorem registers_dispatch (id : ContexId) (events : Mask) :
    manager.Registers (.dispatch id events) := by
  intro fd event caller isAdd
  cases isAdd

theorem Refers.responsive (refers : manager.Refers) (loop : manager.loop.Tracked threadOf)
    (tracked : manager.events.Tracked) : manager.Responsive self threadOf where
  refers := refers
  queueExpired w timerCbs epEvents stageIs := by
    simp only [IOManager.step, stageIs]
    apply handAll_isSome
    intro entry member fiber workIs
    rcases List.mem_map.mp member with ⟨expired, -, rfl⟩
    cases workIs
  dispatch w report rest reply after stageIs stepped := by
    simp only [IOManager.step, stageIs, stepped, Option.bind_some]
    exact refers.handsOver self threadOf tracked (registers_dispatch _ _) stepped rfl
  events actor request caller reply after callerIs stepped := by
    simp only [IOManager.step, callerIs, stepped, Option.bind_some]
    exact refers.handsOver self threadOf tracked (registers_of_caller loop callerIs) stepped rfl

/-- However workers, tasks and other threads come in between one another, an operation on
timers or events at a time: no report that an idle worker carries about and no pointer in
epoll dangles, no slot keeps a fiber that does not exist, and the queue accepts what expired
callbacks and an event operation that goes through hand over. -/
theorem responsive_of_run (self : SchedulerId) (threadOf : Fin size → ThreadId)
    (start : UInt64) {labels : List (Label Callback size)} {final : IOManager Callback size}
    (ran : (machine self threadOf).run (.new size start) labels = some final) :
    final.Responsive self threadOf := by
  have invariant : final.Refers ∧ final.loop.Tracked threadOf ∧ final.events.Tracked := by
    apply Machine.run_induction ?_ ⟨.new size start, Registry.Tracked.begin threadOf,
      Events.IOManager.Ledger.Tracked.new⟩ ran
    rintro manager label next ⟨refers, loop, tracked⟩ stepped
    have steps := step_eq_some stepped
    rcases steps.loop_run with ⟨labels, loopRan⟩
    rcases steps.events_run with ⟨calls, eventsRan⟩
    refine ⟨refers.step loop tracked.formed steps, ?_, ?_⟩
    · exact Machine.run_induction (fun _ _ _ tracked stepped => tracked.step stepped)
        loop loopRan
    · exact Machine.run_induction (fun _ _ _ tracked stepped => tracked.step stepped)
        tracked eventsRan
  exact invariant.1.responsive invariant.2.1 invariant.2.2

theorem responsive_of_run_timerAndEvent : ∃ final : IOManager Unit 1,
    (machine 7 fun _ => 1).run (.new 1 1000) timerAndEvent = some final ∧
      final.Responsive 7 fun _ => 1 := by
  have ran : ∃ final : IOManager Unit 1,
      (machine 7 fun _ => 1).run (.new 1 1000) timerAndEvent = some final := ⟨_, rfl⟩
  rcases ran with ⟨final, ran⟩
  exact ⟨final, ran, responsive_of_run 7 (fun _ => 1) 1000 ran⟩

end IOManager

end Sylar.Assembly
