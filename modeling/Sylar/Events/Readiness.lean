import Mathlib.Tactic.Common
import Sylar.Events.Effects

/-! # One registration among workers that treat reports

`addEvent` holds the context's mutex from its test to its update, but `idle` does
not take that mutex. The steps of one `addEvent` and of any number of workers are
therefore interleaved freely here: the test, the `epoll_ctl` and the update on the
one side; the report, the test, the `epoll_ctl` and the single calls of
`triggerEvent` on the other.
-/

namespace Sylar.Events

open Foundation Scheduling

variable {Callback : Type} {size : Nat}

/-- The arguments of an `addEvent`, with the context it has found. -/
structure Addition (Callback : Type) where
  id : ContexId
  event : Event
  cb : Option Callback
  caller : Caller

def Addition.work (addition : Addition Callback) : Work Callback :=
  match addition.cb with
  | some callback => .cb callback
  | none => .fiber addition.caller.fiber

inductive Adding
  | testing
  | requesting (request : EpollRequest)
  | updating
  | returned (result : Bool)

def Adding.accepted : Adding → Bool
  | .testing | .requesting _ | .returned false => false
  | .updating | .returned true => true

inductive Treating
  | waiting
  | testing (reported : Mask)
  | requesting (request : EpollRequest) (realEvent : Mask)
  | firing (events : List Event)

/-- Whether the report names the event and was made after the registration was
accepted is kept to speak about runs. -/
structure Reporter where
  stage : Treating := .waiting
  fresh : Bool := false

structure Race (Callback : Type) (size : Nat) where
  manager : IOManager Callback
  adding : Adding := .testing
  reporters : Fin size → Reporter := fun _ => {}
  /-- The event has been reported since the registration was accepted. -/
  reported : Bool := false
  /-- The length of the queue when the registration was accepted. -/
  mark : Nat := 0

namespace Race

def setReporter (race : Race Callback size) (w : Fin size) (reporter : Reporter) :
    Race Callback size :=
  { race with reporters := Function.update race.reporters w reporter }

inductive Label (size : Nat)
  | test
  | control (reply : Bool)
  | update
  | report (w : Fin size) (mask : Mask)
  | testReport (w : Fin size)
  | controlReport (w : Fin size) (reply : Bool)
  | fire (w : Fin size)

def step (race : Race Callback size) (addition : Addition Callback) :
    Label size → Option (Race Callback size)
  | .test =>
      match race.adding with
      | .testing =>
          match (race.manager.objects addition.id).addRequest addition.id addition.event with
          | none => some { race with adding := .returned false }
          | some request => some { race with adding := .requesting request }
      | _ => none
  | .control reply =>
      match race.adding with
      | .requesting request =>
          if reply then
            some { race with
              manager := { race.manager with epoll := request.apply race.manager.epoll }
              adding := .updating
              mark := race.manager.queued.length }
          else some { race with adding := .returned false }
      | _ => none
  | .update =>
      match race.adding with
      | .updating =>
          match race.manager.arm addition.id addition.event addition.cb addition.caller with
          | .ok manager => some { race with manager := manager, adding := .returned true }
          | .error _ => none
      | _ => none
  | .report w mask =>
      match (race.reporters w).stage with
      | .waiting =>
          let fresh := race.adding.accepted && mask.has addition.event
          some { race.setReporter w { stage := .testing mask, fresh := fresh } with
            reported := race.reported || fresh }
      | _ => none
  | .testReport w =>
      match (race.reporters w).stage with
      | .testing mask =>
          let contex := race.manager.objects addition.id
          match contex.dispatchRequest addition.id mask with
          | none => some (race.setReporter w {})
          | some request =>
              some (race.setReporter w
                { race.reporters w with stage := .requesting request (contex.realEvent mask) })
      | _ => none
  | .controlReport w reply =>
      match (race.reporters w).stage with
      | .requesting request realEvent =>
          if reply then
            some { race.setReporter w
                { race.reporters w with
                  stage := .firing ([.READD, .WRITE].filter (realEvent.has ·)) } with
              manager := { race.manager with epoll := request.apply race.manager.epoll } }
          else some (race.setReporter w {})
      | _ => none
  | .fire w =>
      match (race.reporters w).stage with
      | .firing [] => some (race.setReporter w {})
      | .firing (event :: events) =>
          match race.manager.fire addition.id event with
          | .ok manager =>
              some { race.setReporter w
                  { race.reporters w with stage := .firing events } with
                manager := manager }
          | .error _ => none
      | _ => none

def machine (size : Nat) (addition : Addition Callback) :
    Machine (Race Callback size) (Label size) where
  step race := race.step addition

def start (size : Nat) (manager : IOManager Callback) : Race Callback size :=
  { manager := manager }

inductive Steps (addition : Addition Callback) (race : Race Callback size) :
    Label size → Race Callback size → Prop
  | testedArmed (addingIs : race.adding = .testing) :
      Steps addition race .test { race with adding := .returned false }
  | tested {request : EpollRequest} (addingIs : race.adding = .testing)
      (made : (race.manager.objects addition.id).addRequest addition.id addition.event =
        some request) :
      Steps addition race .test { race with adding := .requesting request }
  | refused {request : EpollRequest} (addingIs : race.adding = .requesting request) :
      Steps addition race (.control false) { race with adding := .returned false }
  | accepted {request : EpollRequest} (addingIs : race.adding = .requesting request) :
      Steps addition race (.control true)
        { race with
          manager := { race.manager with epoll := request.apply race.manager.epoll }
          adding := .updating
          mark := race.manager.queued.length }
  | updated {manager : IOManager Callback} (addingIs : race.adding = .updating)
      (armed : race.manager.arm addition.id addition.event addition.cb addition.caller =
        .ok manager) :
      Steps addition race .update
        { race with manager := manager, adding := .returned true }
  | reported {w : Fin size} (mask : Mask)
      (stageIs : (race.reporters w).stage = .waiting) :
      Steps addition race (.report w mask)
        { race.setReporter w
            { stage := .testing mask
              fresh := race.adding.accepted && mask.has addition.event } with
          reported := race.reported ||
            (race.adding.accepted && mask.has addition.event) }
  | ignored {w : Fin size} {mask : Mask}
      (stageIs : (race.reporters w).stage = .testing mask)
      (nothing : (race.manager.objects addition.id).dispatchRequest addition.id mask = none) :
      Steps addition race (.testReport w) (race.setReporter w {})
  | heeded {w : Fin size} {mask : Mask} (request : EpollRequest)
      (stageIs : (race.reporters w).stage = .testing mask) :
      Steps addition race (.testReport w)
        (race.setReporter w
          { race.reporters w with
            stage := .requesting request
              ((race.manager.objects addition.id).realEvent mask) })
  | dropped {w : Fin size} {request : EpollRequest} {realEvent : Mask}
      (stageIs : (race.reporters w).stage = .requesting request realEvent) :
      Steps addition race (.controlReport w false) (race.setReporter w {})
  | controlled {w : Fin size} {request : EpollRequest} {realEvent : Mask}
      (stageIs : (race.reporters w).stage = .requesting request realEvent) :
      Steps addition race (.controlReport w true)
        { race.setReporter w
            { race.reporters w with
              stage := .firing ([.READD, .WRITE].filter (realEvent.has ·)) } with
          manager := { race.manager with epoll := request.apply race.manager.epoll } }
  | finished {w : Fin size} (stageIs : (race.reporters w).stage = .firing []) :
      Steps addition race (.fire w) (race.setReporter w {})
  | fired {w : Fin size} {event : Event} {events : List Event}
      {manager : IOManager Callback}
      (stageIs : (race.reporters w).stage = .firing (event :: events))
      (triggered : race.manager.fire addition.id event = .ok manager) :
      Steps addition race (.fire w)
        { race.setReporter w { race.reporters w with stage := .firing events } with
          manager := manager }

theorem step_eq_some {addition : Addition Callback} {race next : Race Callback size}
    {label : Label size} (stepped : race.step addition label = some next) :
    Steps addition race label next := by
  cases label with
  | test =>
      cases addingIs : race.adding <;> simp only [step, addingIs] at stepped <;>
        try cases stepped
      split at stepped
      · cases stepped
        exact .testedArmed addingIs
      · rename_i made
        cases stepped
        exact .tested addingIs made
  | control reply =>
      cases addingIs : race.adding <;> simp only [step, addingIs] at stepped <;>
        try cases stepped
      cases reply with
      | false =>
          cases stepped
          exact .refused addingIs
      | true =>
          cases stepped
          exact .accepted addingIs
  | update =>
      cases addingIs : race.adding <;> simp only [step, addingIs] at stepped <;>
        try cases stepped
      split at stepped
      · rename_i armed
        cases stepped
        exact .updated addingIs armed
      · cases stepped
  | report w mask =>
      cases stageIs : (race.reporters w).stage <;> simp only [step, stageIs] at stepped <;>
        cases stepped
      exact .reported mask stageIs
  | testReport w =>
      cases stageIs : (race.reporters w).stage <;> simp only [step, stageIs] at stepped <;>
        try cases stepped
      split at stepped
      · rename_i nothing
        cases stepped
        exact .ignored stageIs nothing
      · cases stepped
        exact .heeded _ stageIs
  | controlReport w reply =>
      cases stageIs : (race.reporters w).stage <;> simp only [step, stageIs] at stepped <;>
        try cases stepped
      cases reply with
      | false =>
          cases stepped
          exact .dropped stageIs
      | true =>
          cases stepped
          exact .controlled stageIs
  | fire w =>
      cases stageIs : (race.reporters w).stage with
      | firing events =>
          cases events with
          | nil =>
              simp only [step, stageIs] at stepped
              cases stepped
              exact .finished stageIs
          | cons event events =>
              simp only [step, stageIs] at stepped
              split at stepped
              · rename_i triggered
                cases stepped
                exact .fired stageIs triggered
              · cases stepped
      | waiting | testing | requesting =>
          simp only [step, stageIs] at stepped
          cases stepped

end Race

/-! ## Nothing is lost -/

def Addition.slot (addition : Addition Callback) : FdEvent Callback :=
  { cb := addition.cb
    fiber := if addition.cb.isNone then some addition.caller.fiber else none
    scheduler := addition.caller.scheduler }

theorem Addition.handOver_slot {addition : Addition Callback}
    {queued : List (SchedulerId × Work Callback)}
    (handed : addition.slot.handOver = .ok queued) :
    ∃ scheduler, queued = [(scheduler, addition.work)] := by
  rcases addition with ⟨id, event, cb, scheduler, fiber, fiberState⟩
  cases cb <;> cases scheduler <;> cases handed <;> exact ⟨_, rfl⟩

theorem FdContex.realEvent_of_reported {contex : FdContex Callback} {mask : Mask}
    {event : Event} (named : mask.has event = true) :
    (contex.realEvent mask).has event = true := by
  rw [realEvent_has, reportedEvents]
  split
  · rw [Mask.has_or, named, Bool.true_or]
  · exact named

theorem FdContex.dispatchRequest_ne_none {contex : FdContex Callback} {id : ContexId}
    {mask : Mask} {event : Event} (armed : contex.armed event = true)
    (named : mask.has event = true) : contex.dispatchRequest id mask ≠ none := by
  intro nothing
  have both : Mask.has (contex.event &&& contex.realEvent mask) event = true := by
    rw [Mask.has_and, realEvent_of_reported named, Bool.and_true]
    exact armed
  by_cases clear : (contex.event &&& contex.realEvent mask == Event.NONE.bits) = true
  · rw [beq_iff_eq] at clear
    rw [clear, Mask.has_bits] at both
    simp at both
  · simp [dispatchRequest, clear] at nothing

theorem Event.mem_filter_has {event : Event} {mask : Mask} (named : mask.has event = true) :
    event ∈ [Event.READD, Event.WRITE].filter (mask.has ·) := by
  rw [List.mem_filter]
  refine ⟨?_, named⟩
  cases event with
  | NONE => simp at named
  | READD => exact List.mem_cons_self
  | WRITE => exact List.mem_cons_of_mem _ List.mem_cons_self

/-- The worker has a fresh report in hand and has not fired the event yet. -/
def Reporter.Holds (reporter : Reporter) (event : Event) : Prop :=
  reporter.fresh = true ∧
    match reporter.stage with
    | .waiting => False
    | .testing _ | .requesting _ _ => True
    | .firing events => event ∈ events

def Treating.Names (stage : Treating) (event : Event) : Prop :=
  match stage with
  | .testing mask => mask.has event = true
  | .requesting _ realEvent => realEvent.has event = true
  | .waiting | .firing _ => True

namespace Race

variable {addition : Addition Callback} {race next : Race Callback size}
  {label : Label size}

def Scheduled (addition : Addition Callback) (race : Race Callback size) : Prop :=
  ∃ scheduler, (scheduler, addition.work) ∈ race.manager.queued.drop race.mark

def Held (addition : Addition Callback) (race : Race Callback size) : Prop :=
  ∃ w, (race.reporters w).Holds addition.event

/-- If the event has been reported after the registration and `addEvent` has
returned `true`, its work is queued or a worker still has the report in hand. -/
def EdgeKept (addition : Addition Callback) (race : Race Callback size) : Prop :=
  race.adding = .returned true → race.reported = true →
    Scheduled addition race ∨ Held addition race

/-- No fresh report is tested between the registration and the update with none of
its directions armed, and the kernel accepts the request that follows a test. -/
def Heeded (addition : Addition Callback) (race : Race Callback size)
    (label : Label size) : Prop :=
  (∀ w mask, label = .testReport w → (race.reporters w).stage = .testing mask →
    (race.reporters w).fresh = true → race.adding = .updating →
    (race.manager.objects addition.id).dispatchRequest addition.id mask ≠ none) ∧
  ∀ w, label = .controlReport w false → (race.reporters w).fresh = false

structure Kept (addition : Addition Callback) (race : Race Callback size) : Prop where
  unarmed : (race.adding = .updating ∨ ∃ request, race.adding = .requesting request) →
    (race.manager.objects addition.id).armed addition.event = false
  names : ∀ w, (race.reporters w).fresh = true →
    race.adding.accepted = true ∧ (race.reporters w).stage.Names addition.event
  unreported : race.adding.accepted = false → race.reported = false
  marked : race.adding.accepted = true → race.mark ≤ race.manager.queued.length
  pending : race.adding = .updating → race.reported = true → Held addition race
  settled : race.adding = .returned true → Scheduled addition race ∨
    ((race.manager.objects addition.id).slot addition.event = addition.slot ∧
      (race.manager.objects addition.id).armed addition.event = true ∧
      (race.reported = true → Held addition race))

theorem Kept.edgeKept (kept : Kept addition race) : EdgeKept addition race := by
  intro returned reported
  rcases kept.settled returned with scheduled | ⟨-, -, held⟩
  · exact Or.inl scheduled
  · exact Or.inr (held reported)

theorem start_kept (addition : Addition Callback) (size : Nat)
    (manager : IOManager Callback) : Kept addition (start size manager) where
  unarmed := by
    intro given
    rcases given with adding | ⟨_, adding⟩
    · cases adding
    · cases adding
  names := nofun
  unreported _ := rfl
  marked := nofun
  pending := nofun
  settled := nofun

theorem Held.moved {w : Fin size} {reporter : Reporter}
    (held : Held addition race)
    (reportersAre : next.reporters = Function.update race.reporters w reporter)
    (holds : (race.reporters w).Holds addition.event → reporter.Holds addition.event) :
    Held addition next := by
  rcases held with ⟨v, heldV⟩
  refine ⟨v, ?_⟩
  rw [reportersAre]
  by_cases here : v = w
  · subst here
    rw [Function.update_self]
    exact holds heldV
  · rw [Function.update_of_ne here]
    exact heldV

theorem Kept.names_update (kept : Kept addition race) {w : Fin size} {reporter : Reporter}
    (named : reporter.fresh = true →
      race.adding.accepted = true ∧ reporter.stage.Names addition.event) :
    ∀ v, (Function.update race.reporters w reporter v).fresh = true →
      race.adding.accepted = true ∧
        (Function.update race.reporters w reporter v).stage.Names addition.event :=
  (Function.forall_update_iff _ fun _ (reporter : Reporter) => reporter.fresh = true →
    race.adding.accepted = true ∧ reporter.stage.Names addition.event).mpr
    ⟨named, fun v _ => kept.names v⟩

theorem Kept.moved {w : Fin size} {reporter : Reporter} {epoll : Interest}
    (kept : Kept addition race)
    (nextIs : next = { race.setReporter w reporter with
      manager := { race.manager with epoll := epoll } })
    (names : reporter.fresh = true →
      (race.reporters w).fresh = true ∧ reporter.stage.Names addition.event)
    (holds : (race.reporters w).Holds addition.event →
      (race.adding = .returned true →
        (race.manager.objects addition.id).armed addition.event = true) →
      reporter.Holds addition.event) : Kept addition next := by
  subst nextIs
  constructor
  · exact kept.unarmed
  · apply kept.names_update
    intro fresh
    rcases names fresh with ⟨before, named⟩
    exact ⟨(kept.names w before).1, named⟩
  · exact kept.unreported
  · exact kept.marked
  · intro updating reported
    refine (kept.pending updating reported).moved rfl fun held => holds held ?_
    intro returned
    cases updating.symm.trans returned
  · intro returned
    rcases kept.settled returned with scheduled | ⟨slotIs, armed, held⟩
    · exact Or.inl scheduled
    · refine Or.inr ⟨slotIs, armed, fun reported => ?_⟩
      exact (held reported).moved rfl fun heldHere => holds heldHere fun _ => armed

/-! ## Steps of `addEvent` -/

theorem Kept.accept (kept : Kept addition race) {request : EpollRequest}
    (addingIs : race.adding = .requesting request) :
    Kept addition { race with
      manager := { race.manager with epoll := request.apply race.manager.epoll }
      adding := .updating
      mark := race.manager.queued.length } := by
  have notAccepted : race.adding.accepted = false := by
    rw [addingIs]
    rfl
  constructor
  · exact fun _ => kept.unarmed (Or.inr ⟨request, addingIs⟩)
  · exact fun w fresh => ⟨rfl, (kept.names w fresh).2⟩
  · exact nofun
  · exact fun _ => Nat.le_refl _
  · intro _ reported
    cases (kept.unreported notAccepted).symm.trans reported
  · exact nofun

theorem Kept.update (kept : Kept addition race) {manager : IOManager Callback}
    (addingIs : race.adding = .updating)
    (armed : race.manager.arm addition.id addition.event addition.cb addition.caller =
      .ok manager) :
    Kept addition { race with manager := manager, adding := .returned true } := by
  rcases IOManager.arm_ok armed with ⟨direction, -, -, rfl⟩
  have accepted : race.adding.accepted = true := by
    rw [addingIs]
    rfl
  constructor
  · rintro (adding | ⟨_, adding⟩) <;> cases adding
  · exact fun w fresh => ⟨rfl, (kept.names w fresh).2⟩
  · exact nofun
  · exact fun _ => kept.marked accepted
  · exact nofun
  · refine fun _ => Or.inr ⟨?_, ?_, kept.pending addingIs⟩
    · simp only [IOManager.setContex, Function.update_self]
      rw [FdContex.filled, FdContex.setSlot_slot _ direction, if_pos rfl]
      rfl
    · simp [IOManager.setContex, direction]

theorem Kept.step_back (kept : Kept addition race)
    (notAccepted : race.adding.accepted = false) :
    Kept addition { race with adding := .returned false } := by
  constructor
  · rintro (adding | ⟨_, adding⟩) <;> cases adding
  · intro w fresh
    cases notAccepted.symm.trans (kept.names w fresh).1
  · exact fun _ => kept.unreported notAccepted
  · exact nofun
  · exact nofun
  · exact nofun

/-! ## Steps of a worker -/

theorem Kept.report (kept : Kept addition race) {w : Fin size} (mask : Mask)
    (stageIs : (race.reporters w).stage = .waiting) :
    Kept addition
      { race.setReporter w
          { stage := .testing mask
            fresh := race.adding.accepted && mask.has addition.event } with
        reported := race.reported ||
          (race.adding.accepted && mask.has addition.event) } := by
  have notHeld : ¬(race.reporters w).Holds addition.event := by
    intro given
    rcases given with ⟨-, stage⟩
    simp [stageIs] at stage
  have held : (race.reported = true → Held addition race) →
      (race.reported || (race.adding.accepted && mask.has addition.event)) = true →
      Held addition
        { race.setReporter w
            { stage := .testing mask
              fresh := race.adding.accepted && mask.has addition.event } with
          reported := race.reported ||
            (race.adding.accepted && mask.has addition.event) } := by
    intro before reported
    by_cases fresh : (race.adding.accepted && mask.has addition.event) = true
    · refine ⟨w, ?_⟩
      simp only [setReporter, Function.update_self]
      exact ⟨fresh, trivial⟩
    · rw [Bool.or_eq_true] at reported
      exact (before (reported.resolve_right fresh)).moved rfl fun held => absurd held notHeld
  constructor
  · exact kept.unarmed
  · apply kept.names_update
    simp only [Bool.and_eq_true]
    exact fun fresh => ⟨fresh.1, fresh.2⟩
  · intro notAccepted
    have before : race.adding.accepted = false := notAccepted
    simp [kept.unreported before, before]
  · exact kept.marked
  · exact fun updating => held (kept.pending updating)
  · intro returned
    rcases kept.settled returned with scheduled | ⟨slotIs, armed, before⟩
    · exact Or.inl scheduled
    · exact Or.inr ⟨slotIs, armed, held before⟩

/-- A call of `triggerEvent` queues the work of the event if it is the event's turn,
and leaves bit and slot of the event alone otherwise. -/
theorem Kept.fire (kept : Kept addition race) {w : Fin size} {event : Event}
    {events : List Event} {manager : IOManager Callback}
    (stageIs : (race.reporters w).stage = .firing (event :: events))
    (triggered : race.manager.fire addition.id event = .ok manager) :
    Kept addition
      { race.setReporter w { race.reporters w with stage := .firing events } with
        manager := manager } := by
  rcases IOManager.fire_handOver triggered with ⟨handed, handedOver, queuedIs⟩
  rcases IOManager.fire_ok triggered with ⟨armed, _, managerIs⟩
  have contexIs : manager.objects addition.id =
      (race.manager.objects addition.id).fired event := by
    rw [managerIs]
    simp [IOManager.setContex]
  have direction : event ≠ .NONE := by
    intro same
    subst same
    simp at armed
  have stays : event ≠ addition.event → (race.reporters w).Holds addition.event →
      Reporter.Holds { race.reporters w with stage := .firing events } addition.event := by
    rintro other ⟨fresh, stage⟩
    rw [stageIs] at stage
    exact ⟨fresh, (List.mem_cons.mp stage).resolve_left other.symm⟩
  constructor
  · intro before
    simp only [contexIs, FdContex.fired_armed, kept.unarmed before, Bool.false_and]
  · exact kept.names_update fun fresh => ⟨(kept.names w fresh).1, trivial⟩
  · exact kept.unreported
  · intro accepted
    simp only [queuedIs, List.length_append]
    exact Nat.le_trans (kept.marked accepted) (Nat.le_add_right _ _)
  · intro updating reported
    have other : event ≠ addition.event := by
      intro same
      subst same
      cases (kept.unarmed (Or.inl updating)).symm.trans armed
    exact (kept.pending updating reported).moved rfl (stays other)
  · intro returned
    have accepted : race.adding.accepted = true := by
      rw [show race.adding = .returned true from returned]
      rfl
    have marked := kept.marked accepted
    rcases kept.settled returned with ⟨scheduler, member⟩ | ⟨slotIs, stillArmed, held⟩
    · refine Or.inl ⟨scheduler, ?_⟩
      change (scheduler, addition.work) ∈ manager.queued.drop race.mark
      rw [queuedIs, List.drop_append_of_le_length marked]
      exact List.mem_append_left _ member
    · by_cases same : event = addition.event
      · subst same
        rw [slotIs] at handedOver
        rcases addition.handOver_slot handedOver with ⟨scheduler, handedIs⟩
        refine Or.inl ⟨scheduler, ?_⟩
        change (scheduler, addition.work) ∈ manager.queued.drop race.mark
        rw [queuedIs, handedIs, List.drop_append_of_le_length marked]
        exact List.mem_append_right _ (List.mem_singleton_self _)
      · refine Or.inr ⟨?_, ?_, fun reported => (held reported).moved rfl (stays same)⟩
        · simp only [contexIs]
          rw [FdContex.fired_slot _ direction, if_neg (Ne.symm same)]
          exact slotIs
        · simp [contexIs, stillArmed, Ne.symm same]

theorem Kept.accepted_cases (kept : Kept addition race) {w : Fin size}
    (fresh : (race.reporters w).fresh = true) :
    race.adding = .updating ∨ race.adding = .returned true := by
  have accepted := (kept.names w fresh).1
  cases addingIs : race.adding with
  | testing | requesting => rw [addingIs] at accepted; cases accepted
  | updating => exact Or.inl rfl
  | returned result =>
      cases result with
      | false => rw [addingIs] at accepted; cases accepted
      | true => exact Or.inr rfl

theorem Steps.kept (steps : Steps addition race label next) (heeded : Heeded addition race label)
    (kept : Kept addition race) : Kept addition next := by
  cases steps with
  | testedArmed addingIs => exact kept.step_back (by rw [addingIs]; rfl)
  | refused addingIs => exact kept.step_back (by rw [addingIs]; rfl)
  | accepted addingIs => exact kept.accept addingIs
  | updated addingIs armed => exact kept.update addingIs armed
  | reported mask stageIs => exact kept.report mask stageIs
  | fired stageIs triggered => exact kept.fire stageIs triggered
  | @tested request addingIs made =>
      have notAccepted : race.adding.accepted = false := by
        rw [addingIs]
        rfl
      constructor
      · exact fun _ => IOManager.addRequest_some made
      · intro w fresh
        cases notAccepted.symm.trans (kept.names w fresh).1
      · exact fun _ => kept.unreported notAccepted
      · exact nofun
      · exact nofun
      · exact nofun
  | @ignored w mask stageIs nothing =>
      refine kept.moved rfl nofun ?_
      rintro ⟨fresh, -⟩ armed
      have named := (kept.names w fresh).2
      rw [stageIs] at named
      rcases kept.accepted_cases fresh with updating | returned
      · exact absurd nothing (heeded.1 w mask rfl stageIs fresh updating)
      · exact absurd nothing (FdContex.dispatchRequest_ne_none (armed returned) named)
  | @heeded w mask request stageIs =>
      refine kept.moved rfl ?_ ?_
      · intro fresh
        have named := (kept.names w fresh).2
        rw [stageIs] at named
        exact ⟨fresh, FdContex.realEvent_of_reported named⟩
      · exact fun held _ => ⟨held.1, trivial⟩
  | @dropped w request realEvent stageIs =>
      refine kept.moved rfl nofun ?_
      rintro ⟨fresh, -⟩ -
      cases (heeded.2 w rfl).symm.trans fresh
  | @controlled w request realEvent stageIs =>
      refine kept.moved rfl (fun fresh => ⟨fresh, trivial⟩) ?_
      rintro ⟨fresh, -⟩ -
      refine ⟨fresh, ?_⟩
      have named := (kept.names w fresh).2
      rw [stageIs] at named
      exact Event.mem_filter_has named
  | finished stageIs =>
      refine kept.moved rfl nofun ?_
      intro given
      rcases given with ⟨-, stage⟩
      rw [stageIs] at stage
      cases stage

/-- No report is lost in a run in which every fresh report is heeded. -/
theorem edgeKept_always (addition : Addition Callback) (manager : IOManager Callback)
    (labels : List (Label size))
    (meet : (machine size addition).StepsMeet (Heeded addition) (start size manager) labels) :
    (machine size addition).Always (EdgeKept addition) (start size manager) labels := by
  refine Machine.StepsMeet.always (Kept addition) ?_ ?_ (start_kept addition size manager) meet
  · intro race label next kept heeded stepped
    exact (step_eq_some stepped).kept heeded kept
  · exact fun _ kept => kept.edgeKept

def readAddition : Addition Nat :=
  { id := 0, event := .READD, cb := some 7, caller := { scheduler := some 1, fiber := 0 } }

theorem edgeKept_always_later :
    (machine 1 readAddition).Always (EdgeKept readAddition)
      (start 1 (IOManager.new.fdContexResize 1))
      [.test, .control true, .report 0 EPOLLIN, .update, .testReport 0] := by
  apply edgeKept_always readAddition _ _
  apply Machine.StepsMeet.cons rfl ⟨nofun, nofun⟩
  apply Machine.StepsMeet.cons rfl ⟨nofun, nofun⟩
  apply Machine.StepsMeet.cons rfl ⟨nofun, nofun⟩
  apply Machine.StepsMeet.cons rfl ⟨nofun, nofun⟩
  refine Machine.StepsMeet.cons rfl ⟨?_, nofun⟩ trivial
  rintro _ _ ⟨⟩ _ _ ⟨⟩

/-- The report is tested between the registration and the update. -/
theorem edgeKept_always_fails :
    ¬(machine 1 readAddition).Always (EdgeKept readAddition)
      (start 1 (IOManager.new.fdContexResize 1))
      [.test, .control true, .report 0 EPOLLIN, .testReport 0, .update] := by
  intro always
  rcases always.last rfl rfl rfl with ⟨scheduler, member⟩ | ⟨w, fresh, -⟩
  · cases member
  · rw [Subsingleton.elim w 0] at fresh
    cases fresh

/-! ## The pieces put together -/

/-- Without a worker in between, the steps of `addEvent` are the operation. -/
theorem run_addEvent {manager : IOManager Callback} (testing : race.adding = .testing)
    (added : race.manager.perform
      ((race.manager.objects addition.id).addRequest addition.id addition.event) true
      (·.arm addition.id addition.event addition.cb addition.caller) = .ok (manager, true)) :
    ∃ next, (machine size addition).run race [.test, .control true, .update] = some next ∧
      next.manager = manager ∧ next.adding = .returned true := by
  rcases IOManager.perform_ok added with ⟨⟨⟩, -⟩ | ⟨-, -, request, made, completed⟩
  refine ⟨{ race with
    manager := manager, adding := .returned true, mark := race.manager.queued.length }, ?_,
    rfl, rfl⟩
  simp [Machine.run_cons, machine, step, testing, made, completed]

theorem fireReported_eq_foldlM (manager : IOManager Callback) (id : ContexId)
    (realEvent : Mask) :
    manager.fireReported id realEvent =
      ([Event.READD, Event.WRITE].filter (realEvent.has ·)).foldlM
        (fun manager event => manager.fire id event) manager := by
  have before : ∀ after : IOManager Callback → Except Fault (IOManager Callback),
      (Except.ok manager >>= after) = after manager := fun _ => rfl
  have after : ∀ first : Except Fault (IOManager Callback),
      (first >>= fun manager => Except.ok manager) = first := by
    intro first
    cases first <;> rfl
  cases readReported : realEvent.has .READD <;>
    cases writeReported : realEvent.has .WRITE <;>
    simp [IOManager.fireReported, IOManager.fireIfReported, readReported, writeReported,
      before, after]
  rfl

theorem run_fires {w : Fin size} {events : List Event} {manager : IOManager Callback}
    (stageIs : (race.reporters w).stage = .firing events)
    (fired : events.foldlM (fun manager event => manager.fire addition.id event)
      race.manager = .ok manager) :
    ∃ next, (machine size addition).run race (List.replicate events.length (.fire w)) =
      some next ∧ next.manager = manager := by
  induction events generalizing race with
  | nil =>
      cases fired
      exact ⟨race, rfl, rfl⟩
  | cons event events induction =>
      rcases bind_eq_ok.mp fired with ⟨middle, first, rest⟩
      have stepped : (machine size addition).step race (.fire w) =
          some { race.setReporter w
              { race.reporters w with stage := .firing events } with
            manager := middle } := by
        simp [machine, step, stageIs, first]
      rw [List.length_cons, List.replicate_succ, Machine.run_cons, stepped]
      refine induction ?_ rest
      simp [setReporter]

theorem step_controlReport {w : Fin size} {request : EpollRequest} {realEvent : Mask}
    (stageIs : (race.reporters w).stage = .requesting request realEvent) :
    (machine size addition).step race (.controlReport w true) =
      some { race.setReporter w
          { race.reporters w with
            stage := .firing ([.READD, .WRITE].filter (realEvent.has ·)) } with
        manager := { race.manager with epoll := request.apply race.manager.epoll } } := by
  simp [machine, step, stageIs]

/-- Without another thread in between, the steps of a worker are `dispatch`. -/
theorem run_dispatch {w : Fin size} {mask : Mask} {manager : IOManager Callback}
    (stageIs : (race.reporters w).stage = .testing mask)
    (dispatched : race.manager.dispatch addition.id mask true = .ok (manager, true)) :
    ∃ fires next, (machine size addition).run race
        (.testReport w :: .controlReport w true :: List.replicate fires (.fire w)) =
      some next ∧ next.manager = manager := by
  simp only [IOManager.dispatch] at dispatched
  rcases IOManager.perform_ok dispatched with ⟨⟨⟩, -⟩ | ⟨-, -, request, made, completed⟩
  rw [fireReported_eq_foldlM] at completed
  have tested : (machine size addition).step race (.testReport w) =
      some (race.setReporter w
        { race.reporters w with
          stage := .requesting request
            ((race.manager.objects addition.id).realEvent mask) }) := by
    simp [machine, step, stageIs, made]
  have heeded : ((race.setReporter w
      { race.reporters w with
        stage := .requesting request
          ((race.manager.objects addition.id).realEvent mask) }).reporters w).stage =
      .requesting request ((race.manager.objects addition.id).realEvent mask) := by
    simp only [setReporter, Function.update_self]
  refine ⟨([Event.READD, Event.WRITE].filter
    (((race.manager.objects addition.id).realEvent mask).has ·)).length, ?_⟩
  rw [Machine.run_cons, tested, Option.bind_some, Machine.run_cons,
    step_controlReport heeded, Option.bind_some]
  exact run_fires (by simp [setReporter]) completed

end Race

end Sylar.Events
