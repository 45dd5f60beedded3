import Sylar.Events.Delivery
import Sylar.Foundation.Simulation
import Sylar.Scheduling.Conservation
import Sylar.Timers.Callbacks
import Sylar.Timers.NextTimeout

/-! # The manager as a whole

`IOManager` is a scheduler, a timer manager and the event operations in one object.
Its workers run the loop of the scheduler; an idle one goes through `idle` and brings what
has expired or been reported into the queue. Threads come in between the calls that `idle`
and the loop make, but each operation on timers or events is one step, and so is the
treatment of one report. In the code `idle` has no lock on the context then, and `cancel`,
`reset` and `refresh` do not have the manager's: two of these at once are left out here. The
pipe is left out as well: `tickle` never writes to it.
-/

namespace Sylar.Assembly

open Foundation Scheduling Timers Events

/-! ## The turn of an idle worker -/

/-- What `epoll_wait` says about one descriptor, with the pointer that was registered. -/
structure Report where
  contex : ContexId
  events : Mask
  deriving DecidableEq, Repr

/-- Where a worker stands in `idle`, with the local variables it still needs. The
callbacks in `timer_cbs` are kept with the timers they come from. -/
inductive Idle (Callback : Type)
  | asking
  /-- `getNextTImer()` has been called. -/
  | readTimers (nextTimeout : UInt64)
  /-- `Scheduler::stopping()` was true as well. -/
  | readQueue (nextTimeout : UInt64)
  /-- It is not time to stop, `epoll_wait` is due. -/
  | timing (nextTimeout : UInt64)
  | blocked (nextTimeout : UInt64)
  | woken (epEvents : List Report)
  | expiring (timerCbs : List (Addr × Option Callback)) (epEvents : List Report)
  | dispatching (epEvents : List Report)

def Idle.inHand : Idle Callback → List (Addr × Option Callback)
  | .expiring timerCbs _ => timerCbs
  | .asking | .readTimers _ | .readQueue _ | .timing _ | .blocked _ | .woken _
  | .dispatching _ => []

def Idle.reports : Idle Callback → List Report
  | .woken epEvents | .expiring _ epEvents | .dispatching epEvents => epEvents
  | .asking | .readTimers _ | .readQueue _ | .timing _ | .blocked _ => []

def MAX_EPOLLTIME : UInt64 := 3000

def epollTimeout (nextTimeout : UInt64) : UInt64 :=
  if nextTimeout ≠ 18446744073709551615 then
    if MAX_EPOLLTIME < nextTimeout then MAX_EPOLLTIME else nextTimeout
  else MAX_EPOLLTIME

/-! ## The state -/

inductive Origin
  /-- A caller of `scheduler(fc,thread)`. -/
  | scheduled
  | timer (timer : Addr)
  /-- The event whose registration has this number. -/
  | event (registration : Nat)
  deriving DecidableEq, Repr

/-- The three parts and the stages of the idle workers. The callbacks in the queue may
be empty functions, which `listExpiredCb` can emit. -/
structure IOManager (Callback : Type) (size : Nat) where
  loop : Registry (Option Callback) Unit size := {}
  timers : TimerManager Callback
  events : Events.IOManager.Ledger Callback := .new
  idle : Fin size → Idle Callback := fun _ => .asking
  /-- The numbered callbacks of the loop, each with its origin; kept to speak about runs,
  as is what `listExpiredCb` has emitted. -/
  origins : List (Origin × Option Callback) := []
  emitted : List (Addr × Option Callback) := []

/-- Who calls an operation: a thread that runs no worker of this manager, with its
scheduler, or the task a worker runs. -/
inductive Actor (size : Nat)
  | outside (scheduler : Option SchedulerId)
  | task (w : Fin size)

inductive Request (Callback : Type)
  | addEvent (fd : Int32) (event : Event) (cb : Option Callback)
  | delEvent (fd : Int32) (event : Event)
  | cancelEvent (fd : Int32) (event : Event)
  | cancelAll (fd : Int32)

def Request.operation (caller : Events.Caller) :
    Request Callback → Events.IOManager.Operation Callback
  | .addEvent fd event cb => .addEvent fd event cb caller
  | .delEvent fd event => .delEvent fd event
  | .cancelEvent fd event => .cancelEvent fd event
  | .cancelAll fd => .cancelAll fd

def Request.registersFiber : Request Callback → Bool
  | .addEvent _ _ cb => cb.isNone
  | .delEvent .. | .cancelEvent .. | .cancelAll _ => false

def isDelivery : Action Callback → Bool
  | .listExpiredCb .. => true
  | .addTimer .. | .cancel _ | .reset .. | .refresh .. => false

namespace IOManager

variable {Callback : Type} {size : Nat}

def new (size : Nat) (now : UInt64) : IOManager Callback size where
  timers := .new now

/-- A task acts while its worker is inside its fiber. A thread without a fiber of this
scheduler registers callbacks only. -/
def caller (manager : IOManager Callback size) (self : SchedulerId)
    (request : Request Callback) : Actor size → Option Events.Caller
  | .outside scheduler =>
      if request.registersFiber then none else some { scheduler := scheduler, fiber := 0 }
  | .task w =>
      match (manager.loop.scheduler.workers w).stage with
      | .running fiber _ _ =>
          some
            { scheduler := some self
              fiber := fiber
              fiberState := manager.loop.scheduler.fiberState fiber }
      | _ => none

def active (manager : IOManager Callback size) : Actor size → Bool
  | .outside _ => true
  | .task w =>
      match (manager.loop.scheduler.workers w).stage with
      | .running .. => true
      | _ => false

/-! ## Handing over -/

/-- `scheduler(fc,thread)` for one entry. A callback gets the next number. -/
def hand (threadOf : Fin size → ThreadId) (manager : IOManager Callback size)
    (origin : Origin) (entry : FiberAnThread (Option Callback)) :
    Option (IOManager Callback size) :=
  (manager.loop.step threadOf () (.schedule entry)).map fun loop =>
    { manager with
      loop := loop
      origins := manager.origins ++
        match entry.work with
        | .cb callback => [(origin, callback)]
        | .fiber _ => [] }

def handAll (threadOf : Fin size → ThreadId) (manager : IOManager Callback size) :
    List (Origin × FiberAnThread (Option Callback)) → Option (IOManager Callback size)
  | [] => some manager
  | (origin, entry) :: rest =>
      (manager.hand threadOf origin entry).bind (handAll threadOf · rest)

def entryOf (self : SchedulerId) (delivered : Nat × SchedulerId × Work Callback) :
    Option (Origin × FiberAnThread (Option Callback)) :=
  if delivered.2.1 = self then
    some (.event delivered.1, { work := delivered.2.2.map some })
  else none

def fired (self : SchedulerId) (before after : Events.IOManager.Ledger Callback) :
    List (Origin × FiberAnThread (Option Callback)) :=
  ((after.delivered.zip after.manager.queued).drop before.delivered.length).filterMap
    (entryOf self)

def expiredEntries (timerCbs : List (Addr × Option Callback)) :
    List (Origin × FiberAnThread (Option Callback)) :=
  timerCbs.map fun entry => (.timer entry.1, { work := .cb entry.2 })

/-! ## Steps -/

inductive Label (Callback : Type) (size : Nat)
  /-- The steps of the run loop, the creation of fibers and the flags of `stop`. -/
  | loop (label : Scheduler.Label (Option Callback) size)
  | schedule (actor : Actor size) (entry : FiberAnThread (Option Callback))
  | timers (actor : Actor size) (call : Timers.Call Callback)
  | events (actor : Actor size) (request : Request Callback) (reply : Bool)
  | getNextTImer (w : Fin size) (now : UInt64)
  | stopping (w : Fin size)
  | pendingEventSize (w : Fin size)
  | wait (w : Fin size)
  | interrupt (w : Fin size)
  | wake (w : Fin size) (reported : List (Int32 × Mask))
  | listExpiredCb (w : Fin size) (layout : SearchTree.Layout Addr) (probe : Addr) (now : UInt64)
  | queueExpired (w : Fin size)
  | dispatch (w : Fin size) (reply : Bool)
  | swapOut (w : Fin size)

def idleStage (manager : IOManager Callback size) (w : Fin size) : Option (Idle Callback) :=
  match (manager.loop.scheduler.workers w).stage with
  | .idling _ => some (manager.idle w)
  | _ => none

def goOn (manager : IOManager Callback size) (w : Fin size) (stage : Idle Callback) :
    IOManager Callback size :=
  { manager with idle := Function.update manager.idle w stage }

def leaveIdle (threadOf : Fin size → ThreadId) (manager : IOManager Callback size)
    (w : Fin size) (ended : Bool) : Option (IOManager Callback size) :=
  (manager.loop.step threadOf () (.leaveIdle w ended)).map fun loop =>
    { manager.goOn w .asking with loop := loop }

def isOwn : Scheduler.Label (Option Callback) size → Bool
  | .schedule _ | .leaveIdle .. => false
  | .newFiber _ | .autoStop | .stopping | .scan _ | .tickle _ | .resume _ | .swapOut ..
  | .release _ | .settle _ | .afterIdle _ => true

/-- `ASSERT(it->fiber||it->cb)` on the entries the scan comes to. -/
def callable (threadOf : Fin size → ThreadId) (manager : IOManager Callback size) :
    Scheduler.Label (Option Callback) size → Bool
  | .scan w =>
      match (Scheduler.scan manager.loop.scheduler.fiberState (threadOf w)
          manager.loop.scheduler.fibers).taken with
      | some ⟨.cb (_, none), _⟩ => false
      | _ => true
  | _ => true

def reportsOf (manager : IOManager Callback size) (reported : List (Int32 × Mask)) :
    Option (List Report) :=
  reported.mapM fun report =>
    (manager.events.manager.epoll report.1).map fun registration =>
      { contex := registration.contex, events := report.2 }

def step (self : SchedulerId) (threadOf : Fin size → ThreadId)
    (manager : IOManager Callback size) : Label Callback size → Option (IOManager Callback size)
  | .loop label =>
      if isOwn label = true ∧ manager.callable threadOf label = true then
        (manager.loop.step threadOf () label).map fun loop => { manager with loop := loop }
      else none
  | .schedule actor entry =>
      if manager.active actor then manager.hand threadOf .scheduled entry else none
  | .timers actor call =>
      if manager.active actor ∧ isDelivery call.action = false then
        (TimerManager.machine.step manager.timers call).map fun timers =>
          { manager with timers := timers }
      else none
  | .events actor request reply =>
      (manager.caller self request actor).bind fun caller =>
        (Events.IOManager.Ledger.machine.step manager.events
          { operation := request.operation caller, reply := reply }).bind fun events =>
          handAll threadOf { manager with events := events } (fired self manager.events events)
  | .getNextTImer w now =>
      match manager.idleStage w with
      | some .asking => some (manager.goOn w (.readTimers (manager.timers.getNextTImer now)))
      | _ => none
  | .stopping w =>
      match manager.idleStage w with
      | some (.readTimers nextTimeout) =>
          if manager.loop.scheduler.isStopping then some (manager.goOn w (.readQueue nextTimeout))
          else some (manager.goOn w (.timing nextTimeout))
      | _ => none
  | .pendingEventSize w =>
      match manager.idleStage w with
      | some (.readQueue nextTimeout) =>
          if manager.events.manager.pendingEventSize = 0 ∧ nextTimeout = 18446744073709551615 then
            manager.leaveIdle threadOf w true
          else some (manager.goOn w (.timing nextTimeout))
      | _ => none
  | .wait w =>
      match manager.idleStage w with
      | some (.timing nextTimeout) => some (manager.goOn w (.blocked (epollTimeout nextTimeout)))
      | _ => none
  -- `EINTR`: the inner loop goes round
  | .interrupt w =>
      match manager.idleStage w with
      | some (.blocked nextTimeout) => some (manager.goOn w (.timing nextTimeout))
      | _ => none
  | .wake w reported =>
      match manager.idleStage w with
      | some (.blocked _) =>
          if reported.length ≤ 64 then
            (manager.reportsOf reported).map fun epEvents => manager.goOn w (.woken epEvents)
          else none
      | _ => none
  | .listExpiredCb w layout probe now =>
      match manager.idleStage w with
      | some (.woken epEvents) =>
          let timerCbs :=
            (manager.timers.expired probe now).zip
              (manager.timers.listExpiredCb layout probe now).2
          (TimerManager.machine.step manager.timers
            { action := .listExpiredCb probe now, layout := layout }).map fun timers =>
            { manager.goOn w (.expiring timerCbs epEvents) with
              timers := timers
              emitted := manager.emitted ++ timerCbs }
      | _ => none
  | .queueExpired w =>
      match manager.idleStage w with
      | some (.expiring timerCbs epEvents) =>
          handAll threadOf (manager.goOn w (.dispatching epEvents)) (expiredEntries timerCbs)
      | _ => none
  | .dispatch w reply =>
      match manager.idleStage w with
      | some (.dispatching (report :: rest)) =>
          (Events.IOManager.Ledger.machine.step manager.events
            { operation := .dispatch report.contex report.events, reply := reply }).bind
            fun events =>
              handAll threadOf { manager.goOn w (.dispatching rest) with events := events }
                (fired self manager.events events)
      | _ => none
  | .swapOut w =>
      match manager.idleStage w with
      | some (.dispatching []) => manager.leaveIdle threadOf w false
      | _ => none

def machine (self : SchedulerId) (threadOf : Fin size → ThreadId) :
    Machine (IOManager Callback size) (Label Callback size) where
  step := step self threadOf

/-! ## What the steps do -/

variable {self : SchedulerId} {threadOf : Fin size → ThreadId}
  {manager next : IOManager Callback size}

/-- The stages of the idle workers change, and nothing they hold but reports that have
been treated. -/
structure Advances (before after : Fin size → Idle Callback) : Prop where
  inHand : ∀ w, (after w).inHand = (before w).inHand
  reports : ∀ w, (after w).reports ⊆ (before w).reports

theorem Advances.refl (idle : Fin size → Idle Callback) : Advances idle idle where
  inHand _ := rfl
  reports _ := List.Subset.refl _

theorem Advances.update {idle : Fin size → Idle Callback} {w : Fin size}
    {stage : Idle Callback} (inHand : stage.inHand = (idle w).inHand)
    (reports : stage.reports ⊆ (idle w).reports) :
    Advances idle (Function.update idle w stage) where
  inHand := (Function.forall_update_iff idle fun v after =>
    after.inHand = (idle v).inHand).mpr ⟨inHand, fun _ _ => rfl⟩
  reports := (Function.forall_update_iff idle fun v after =>
    after.reports ⊆ (idle v).reports).mpr ⟨reports, fun _ _ => List.Subset.refl _⟩

inductive Steps (self : SchedulerId) (threadOf : Fin size → ThreadId)
    (manager : IOManager Callback size) : IOManager Callback size → Prop
  | loop {label : Scheduler.Label (Option Callback) size}
      {loop : Registry (Option Callback) Unit size} {idle : Fin size → Idle Callback}
      (own : ∀ entry, label ≠ .schedule entry)
      (callable : manager.callable threadOf label = true)
      (stepped : manager.loop.step threadOf () label = some loop)
      (advances : Advances manager.idle idle) :
      Steps self threadOf manager { manager with loop := loop, idle := idle }
  | idle {idle : Fin size → Idle Callback} (advances : Advances manager.idle idle) :
      Steps self threadOf manager { manager with idle := idle }
  | wake {w : Fin size} {nextTimeout : UInt64} {reported : List (Int32 × Mask)}
      {epEvents : List Report} (stageIs : manager.idle w = .blocked nextTimeout)
      (reports : manager.reportsOf reported = some epEvents) :
      Steps self threadOf manager (manager.goOn w (.woken epEvents))
  | schedule {entry : FiberAnThread (Option Callback)} {next : IOManager Callback size}
      (handed : manager.hand threadOf .scheduled entry = some next) :
      Steps self threadOf manager next
  | timers {call : Timers.Call Callback} {timers : TimerManager Callback}
      (notDelivery : isDelivery call.action = false)
      (stepped : TimerManager.machine.step manager.timers call = some timers) :
      Steps self threadOf manager { manager with timers := timers }
  | events {operation : Events.IOManager.Operation Callback} {reply : Bool}
      {events : Events.IOManager.Ledger Callback} {idle : Fin size → Idle Callback}
      {next : IOManager Callback size}
      (registers : ∀ fd event caller, operation = .addEvent fd event none caller →
        ∃ w thread fromCb,
          (manager.loop.scheduler.workers w).stage = .running caller.fiber thread fromCb)
      (reported : ∀ id events, operation = .dispatch id events →
        ∃ w, { contex := id, events := events } ∈ (manager.idle w).reports)
      (stepped : Events.IOManager.Ledger.machine.step manager.events
        { operation := operation, reply := reply } = some events)
      (advances : Advances manager.idle idle)
      (handed : handAll threadOf { manager with events := events, idle := idle }
        (fired self manager.events events) = some next) :
      Steps self threadOf manager next
  | listExpiredCb {w : Fin size} {epEvents : List Report}
      {layout : SearchTree.Layout Addr} {probe : Addr} {now : UInt64}
      {timers : TimerManager Callback} (stageIs : manager.idle w = .woken epEvents)
      (stepped : TimerManager.machine.step manager.timers
        { action := .listExpiredCb probe now, layout := layout } = some timers) :
      Steps self threadOf manager
        { manager.goOn w (.expiring ((manager.timers.expired probe now).zip
            (manager.timers.listExpiredCb layout probe now).2) epEvents) with
          timers := timers
          emitted := manager.emitted ++ (manager.timers.expired probe now).zip
            (manager.timers.listExpiredCb layout probe now).2 }
  | queueExpired {w : Fin size} {timerCbs : List (Addr × Option Callback)}
      {epEvents : List Report} {next : IOManager Callback size}
      (stageIs : manager.idle w = .expiring timerCbs epEvents)
      (handed : handAll threadOf (manager.goOn w (.dispatching epEvents))
        (expiredEntries timerCbs) = some next) :
      Steps self threadOf manager next

theorem idleStage_eq {w : Fin size} {stage : Idle Callback}
    (stageIs : manager.idleStage w = some stage) : manager.idle w = stage := by
  rw [idleStage] at stageIs
  split at stageIs
  · exact Option.some.inj stageIs
  · cases stageIs

theorem Steps.goOn {w : Fin size} {before after : Idle Callback}
    (stageIs : manager.idle w = before) (inHand : after.inHand = before.inHand)
    (reports : after.reports ⊆ before.reports) :
    Steps self threadOf manager (manager.goOn w after) := by
  subst stageIs
  exact .idle (.update inHand reports)

theorem Steps.leaveIdle {w : Fin size} {before : Idle Callback} {ended : Bool}
    (stageIs : manager.idle w = before) (inHand : before.inHand = [])
    (left : manager.leaveIdle threadOf w ended = some next) :
    Steps self threadOf manager next := by
  subst stageIs
  rcases Option.map_eq_some_iff.mp left with ⟨loop, stepped, rfl⟩
  exact .loop (by simp) rfl stepped (.update inHand.symm (List.nil_subset _))

theorem caller_registers {request : Request Callback} {actor : Actor size} {caller : Events.Caller}
    (callerIs : manager.caller self request actor = some caller) :
    ∀ fd event named, request.operation caller = .addEvent fd event none named →
      ∃ w thread fromCb,
        (manager.loop.scheduler.workers w).stage = .running named.fiber thread fromCb := by
  intro fd event named operationIs
  cases request with
  | delEvent | cancelEvent | cancelAll => cases operationIs
  | addEvent =>
      cases operationIs
      cases actor with
      | outside scheduler => cases callerIs
      | task w =>
          simp only [IOManager.caller] at callerIs
          split at callerIs
          · rename_i fiber thread fromCb stageIs
            cases callerIs
            exact ⟨w, thread, fromCb, stageIs⟩
          · cases callerIs

theorem step_eq_some {label : Label Callback size}
    (stepped : manager.step self threadOf label = some next) :
    Steps self threadOf manager next := by
  cases label with
  | loop label =>
      rcases Option.ite_none_right_eq_some.mp stepped with ⟨⟨own, callable⟩, moved⟩
      rcases Option.map_eq_some_iff.mp moved with ⟨loop, taken, rfl⟩
      have notHandedIn : ∀ entry, label ≠ .schedule entry := by
        intro entry same
        subst same
        cases own
      exact .loop notHandedIn callable taken (.refl _)
  | schedule actor entry =>
      rcases Option.ite_none_right_eq_some.mp stepped with ⟨-, handed⟩
      exact .schedule handed
  | timers actor call =>
      rcases Option.ite_none_right_eq_some.mp stepped with ⟨⟨-, notDelivery⟩, moved⟩
      rcases Option.map_eq_some_iff.mp moved with ⟨timers, taken, rfl⟩
      exact .timers notDelivery taken
  | events actor request reply =>
      rcases Option.bind_eq_some_iff.mp stepped with ⟨caller, callerIs, rest⟩
      rcases Option.bind_eq_some_iff.mp rest with ⟨events, taken, handed⟩
      refine .events (caller_registers callerIs) ?_ taken (.refl _) handed
      intro id reported isDispatch
      cases request <;> cases isDispatch
  | getNextTImer w now =>
      simp only [step] at stepped
      split at stepped
      · rename_i stageIs
        cases stepped
        exact .goOn (idleStage_eq stageIs) rfl (List.Subset.refl _)
      · cases stepped
  | stopping w =>
      simp only [step] at stepped
      split at stepped
      · rename_i stageIs
        split at stepped
        · cases stepped
          exact .goOn (idleStage_eq stageIs) rfl (List.Subset.refl _)
        · cases stepped
          exact .goOn (idleStage_eq stageIs) rfl (List.Subset.refl _)
      · cases stepped
  | pendingEventSize w =>
      simp only [step] at stepped
      split at stepped
      · rename_i stageIs
        split at stepped
        · exact .leaveIdle (idleStage_eq stageIs) rfl stepped
        · cases stepped
          exact .goOn (idleStage_eq stageIs) rfl (List.Subset.refl _)
      · cases stepped
  | wait w =>
      simp only [step] at stepped
      split at stepped
      · rename_i stageIs
        cases stepped
        exact .goOn (idleStage_eq stageIs) rfl (List.Subset.refl _)
      · cases stepped
  | interrupt w =>
      simp only [step] at stepped
      split at stepped
      · rename_i stageIs
        cases stepped
        exact .goOn (idleStage_eq stageIs) rfl (List.Subset.refl _)
      · cases stepped
  | wake w reported =>
      simp only [step] at stepped
      split at stepped
      · rename_i stageIs
        rcases Option.ite_none_right_eq_some.mp stepped with ⟨-, woken⟩
        rcases Option.map_eq_some_iff.mp woken with ⟨epEvents, reports, rfl⟩
        exact .wake (idleStage_eq stageIs) reports
      · cases stepped
  | listExpiredCb w layout probe now =>
      simp only [step] at stepped
      split at stepped
      · rename_i stageIs
        rcases Option.map_eq_some_iff.mp stepped with ⟨timers, taken, rfl⟩
        exact .listExpiredCb (idleStage_eq stageIs) taken
      · cases stepped
  | queueExpired w =>
      simp only [step] at stepped
      split at stepped
      · rename_i stageIs
        exact .queueExpired (idleStage_eq stageIs) stepped
      · cases stepped
  | dispatch w reply =>
      simp only [step] at stepped
      split at stepped
      · rename_i report rest stageIs
        have before := idleStage_eq stageIs
        rcases Option.bind_eq_some_iff.mp stepped with ⟨events, taken, handed⟩
        refine .events (by simp) ?_ taken (.update ?_ ?_) handed
        · intro id events isDispatch
          cases isDispatch
          refine ⟨w, ?_⟩
          rw [before]
          exact List.mem_cons_self
        · rw [before]
          rfl
        · rw [before]
          exact List.subset_cons_self report rest
      · cases stepped
  | swapOut w =>
      simp only [step] at stepped
      split at stepped
      · rename_i stageIs
        exact .leaveIdle (idleStage_eq stageIs) rfl stepped
      · cases stepped

end IOManager

end Sylar.Assembly
