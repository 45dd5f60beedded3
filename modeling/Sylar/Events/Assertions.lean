import Mathlib.Tactic.Common
import Sylar.Events.WellFormed

/-! # When triggering asserts

`triggerEvent` asserts that the direction is armed. `cancelAll` breaks this on a
context with only the write direction armed, and `idle` on a report that mixes
armed and unarmed directions; these are the only ways.
-/

namespace Sylar.Events

open Foundation Scheduling

theorem bind_eq_error {ε : Type u} {α β : Type v} {first : Except ε α}
    {rest : α → Except ε β} {fault : ε} :
    first >>= rest = .error fault ↔
      first = .error fault ∨ ∃ value, first = .ok value ∧ rest value = .error fault := by
  cases first with
  | error other =>
      constructor
      · exact fun failed => Or.inl (by cases failed; rfl)
      · intro given
        rcases given with same | ⟨value, impossible, _⟩
        · cases same
          rfl
        · cases impossible
  | ok value =>
      constructor
      · exact fun failed => Or.inr ⟨value, rfl, failed⟩
      · intro given
        rcases given with impossible | ⟨_, same, failed⟩
        · cases impossible
        · cases same
          exact failed

theorem map_eq_error {ε : Type u} {α β : Type v} {first : Except ε α} {f : α → β} {fault : ε} :
    first.map f = .error fault ↔ first = .error fault := by
  cases first with
  | error other => simp [Except.map]
  | ok value => simp [Except.map]

def triggerFault : Fault := .assertion .triggerEvent

def nullFault : Fault := .undefined .nullScheduler

def Fault.OfTrigger (fault : Fault) : Prop :=
  fault = triggerFault ∨ fault = nullFault

def FdEvent.Deliverable (slot : FdEvent Callback) : Prop :=
  ∃ queued, slot.handOver = .ok queued

namespace FdContex

variable {Callback : Type} (contex : FdContex Callback)

theorem handOver_ne (slot : FdEvent Callback) :
    slot.handOver ≠ .error triggerFault := by
  rw [FdEvent.handOver]
  cases slot.cb <;> cases slot.fiber <;> cases slot.scheduler <;>
    simp [triggerFault]

theorem triggerEvent_error_iff (event : Event) :
    contex.triggerEvent event = .error triggerFault ↔ contex.armed event = false := by
  by_cases armed : contex.armed event = true
  · refine iff_of_false ?_ (by simp [armed])
    simp only [triggerEvent, armed, if_true, getEventConetx]
    rw [bind_eq_error]
    intro given
    rcases given with impossible | ⟨slot, found, failed⟩
    · cases impossible
    · cases found
      rcases bind_eq_error.mp failed with handingOver | ⟨_, _, impossible⟩
      · exact handOver_ne _ handingOver
      · cases impossible
  · have unarmed : contex.armed event = false := by simpa using armed
    simp [triggerEvent, unarmed, triggerFault]

theorem triggerEvent_returns {event : Event} (armed : contex.armed event = true) :
    (∃ outcome, contex.triggerEvent event = .ok outcome) ↔
      (contex.slot event).Deliverable := by
  simp only [triggerEvent, armed, if_true, getEventConetx, FdEvent.Deliverable]
  constructor
  · intro given
    rcases given with ⟨outcome, returned⟩
    rcases bind_eq_ok.mp returned with ⟨slot, found, returned⟩
    rcases bind_eq_ok.mp returned with ⟨queued, handedOver, _⟩
    cases found
    exact ⟨queued, handedOver⟩
  · intro given
    rcases given with ⟨queued, handedOver⟩
    exact ⟨_, bind_eq_ok.mpr ⟨_, rfl, bind_eq_ok.mpr ⟨queued, handedOver, rfl⟩⟩⟩

/-- A report concerns armed directions only, unless handing over the read slot
has already gone to no scheduler. -/
def Triggerable (mask : Mask) : Prop :=
  ∀ event, mask.has event = true → contex.armed event = true ∨
    (event = .WRITE ∧ mask.has .READD = true ∧ ¬(contex.slot .READD).Deliverable)

end FdContex

namespace IOManager

variable {Callback : Type} {manager : IOManager Callback}

theorem fire_error_iff {id : ContexId} {event : Event} :
    manager.fire id event = .error triggerFault ↔
      (manager.objects id).armed event = false := by
  rw [← FdContex.triggerEvent_error_iff]
  rw [fire]
  cases (manager.objects id).triggerEvent event with
  | error fault => simp
  | ok outcome => simp

theorem fire_returns {id : ContexId} {event : Event}
    (armed : (manager.objects id).armed event = true) :
    (∃ next, manager.fire id event = .ok next) ↔
      ((manager.objects id).slot event).Deliverable := by
  rw [← FdContex.triggerEvent_returns _ armed]
  rw [fire]
  cases (manager.objects id).triggerEvent event with
  | error fault => simp
  | ok outcome => simp

theorem fireIfReported_error_iff {id : ContexId} {realEvent : Mask} {event : Event} :
    manager.fireIfReported id realEvent event = .error triggerFault ↔
      realEvent.has event = true ∧ (manager.objects id).armed event = false := by
  rw [fireIfReported]
  by_cases reported : realEvent.has event = true
  · rw [if_pos reported, fire_error_iff, and_iff_right reported]
  · simp [reported]

/-- After the read direction the write direction is as armed as before, and a
reported read slot has been handed over. -/
theorem fireIfReported_ok {id : ContexId} {realEvent : Mask} {middle : IOManager Callback}
    (first : manager.fireIfReported id realEvent .READD = .ok middle) :
    (middle.objects id).armed .WRITE = (manager.objects id).armed .WRITE ∧
      (realEvent.has .READD = true → ((manager.objects id).slot .READD).Deliverable) := by
  rw [fireIfReported] at first
  by_cases reported : realEvent.has .READD = true
  · rw [if_pos reported] at first
    rcases fire_ok first with ⟨armed, queued, rfl⟩
    exact ⟨by simp [setContex], fun _ => (fire_returns armed).mp ⟨_, first⟩⟩
  · rw [if_neg reported] at first
    cases first
    exact ⟨rfl, fun impossible => absurd impossible reported⟩

theorem fireReported_error_iff (manager : IOManager Callback) {id : ContexId}
    {realEvent : Mask} :
    manager.fireReported id realEvent = .error triggerFault ↔
      ¬(manager.objects id).Triggerable realEvent := by
  rw [fireReported, bind_eq_error, fireIfReported_error_iff]
  constructor
  · rintro (⟨reported, unarmed⟩ | ⟨middle, first, second⟩) triggerable
    · rcases triggerable .READD reported with armed | ⟨impossible, _⟩
      · rw [unarmed] at armed
        cases armed
      · cases impossible
    · rcases fireIfReported_ok first with ⟨writeStays, delivered⟩
      rcases fireIfReported_error_iff.mp second with ⟨reported, unarmed⟩
      rcases triggerable .WRITE reported with armed | ⟨_, readReported, undelivered⟩
      · rw [writeStays, armed] at unarmed
        cases unarmed
      · exact undelivered (delivered readReported)
  · intro notTriggerable
    simp only [FdContex.Triggerable, not_forall, not_or, Bool.not_eq_true] at notTriggerable
    rcases notTriggerable with ⟨event, reported, unarmed, noExcuse⟩
    cases event with
    | NONE => simp at reported
    | READD => exact Or.inl ⟨reported, unarmed⟩
    | WRITE =>
        cases first : manager.fireIfReported id realEvent .READD with
        | ok middle =>
            right
            refine ⟨middle, rfl, fireIfReported_error_iff.mpr ⟨reported, ?_⟩⟩
            rw [(fireIfReported_ok first).1, unarmed]
        | error fault =>
            left
            have readReported : realEvent.has .READD = true := by
              by_contra silent
              simp [fireIfReported, silent] at first
            refine ⟨readReported, ?_⟩
            by_contra armed
            have delivered : ((manager.objects id).slot .READD).Deliverable := by
              by_contra undelivered
              exact noExcuse ⟨rfl, readReported, undelivered⟩
            rcases (fire_returns (by simpa using armed)).mpr delivered with
              ⟨middle, fired⟩
            rw [fireIfReported, if_pos readReported, fired] at first
            cases first

theorem fireAll_error_iff (manager : IOManager Callback) {id : ContexId}
    (legal : (manager.objects id).event.Legal)
    (something : (manager.objects id).event ≠ 0#32) :
    manager.fireAll id = .error triggerFault ↔
      (manager.objects id).armed .READD = false := by
  rw [fireAll, bind_eq_error, fireIfAny_eq manager id (by simp), if_neg something,
    fire_error_iff]
  apply or_iff_left
  intro given
  rcases given with ⟨middle, first, failed⟩
  rcases fire_ok first with ⟨readArmed, queued, middleIs⟩
  rcases bind_eq_error.mp failed with second | ⟨last, _, asserted⟩
  · rw [fireIfAny_eq middle id (by simp)] at second
    by_cases clear : (middle.objects id).event = 0#32
    · rw [if_pos clear] at second
      cases second
    · rw [if_neg clear, fire_error_iff] at second
      have middleLegal : (middle.objects id).event.Legal := by
        simpa [middleIs, setContex] using FdContex.fired_legal _ legal .READD
      have readGone : (middle.objects id).armed .READD = false := by
        simp [middleIs, setContex]
      have writeStays : (middle.objects id).armed .WRITE = true :=
        middleLegal.has_write clear readGone
      rw [second] at writeStays
      cases writeStays
  · by_cases cleared : ((last.objects id).event == 0) = true
    · rw [if_pos cleared] at asserted
      cases asserted
    · rw [if_neg cleared] at asserted
      cases asserted

theorem perform_error_iff {request : Option EpollRequest} {reply : Bool} {fault : Fault}
    {complete : IOManager Callback → Except Fault (IOManager Callback)} :
    manager.perform request reply complete = .error fault ↔
      reply = true ∧ ∃ accepted, request = some accepted ∧
        complete { manager with epoll := accepted.apply manager.epoll } =
          .error fault := by
  cases request with
  | none => simp [perform]
  | some request =>
      cases reply with
      | false => simp [perform]
      | true =>
          simp only [perform, if_true, map_eq_error, Option.some.injEq, true_and,
            exists_eq_left']

/-! ## Operations -/

/-- Triggering is for armed directions in the call: `cancelAll` does not find the
write direction armed alone, and a report that concerns an armed direction of its
context concerns no unarmed one. A refused request leaves nothing to trigger. -/
def Triggerable (manager : IOManager Callback) (call : Call Callback) : Prop :=
  call.reply = true →
    match call.operation with
    | .addEvent .. | .delEvent .. | .cancelEvent .. => True
    | .cancelAll fd => manager.armedAt fd .WRITE → manager.armedAt fd .READD
    | .dispatch id reported =>
        let contex := manager.objects id
        contex.event &&& contex.realEvent reported ≠ 0#32 →
          contex.Triggerable (contex.realEvent reported)

section OfTrigger

variable {fault : Fault} (triggering : fault.OfTrigger)

include triggering

theorem grow_ne (fd : Int32) : manager.grow fd ≠ .error fault := by
  rw [grow]
  rcases triggering with rfl | rfl
  all_goals
    split
    · split <;> simp [triggerFault, nullFault]
    · simp

theorem contexAt_ne (fd : Int32) : manager.contexAt fd ≠ .error fault := by
  rw [contexAt]
  rcases triggering with rfl | rfl
  all_goals
    split
    · simp [triggerFault, nullFault]
    · cases manager.fdContexs[fd.toNatClampNeg]? <;> simp [triggerFault, nullFault]

theorem getEventConetx_ne (contex : FdContex Callback) (event : Event) :
    contex.getEventConetx event ≠ .error fault := by
  rw [FdContex.getEventConetx]
  rcases triggering with rfl | rfl <;> split <;> simp [triggerFault, nullFault]

theorem arm_ne (id : ContexId) (event : Event) (cb : Option Callback)
    (caller : Caller) : manager.arm id event cb caller ≠ .error fault := by
  simp only [arm]
  generalize found : FdContex.getEventConetx _ event = slot
  cases slot with
  | error other =>
      intro same
      cases same
      exact getEventConetx_ne triggering _ event found
  | ok slot =>
      rcases triggering with rfl | rfl
      all_goals
        simp only
        split
        · simp [triggerFault, nullFault]
        · cases cb with
          | some callback => simp
          | none =>
              simp only
              split <;> simp [triggerFault, nullFault]

theorem disarm_ne (id : ContexId) (event : Event) :
    manager.disarm id event ≠ .error fault := by
  simp only [disarm]
  generalize found : FdContex.getEventConetx _ event = slot
  cases slot with
  | error other =>
      intro same
      cases same
      exact getEventConetx_ne triggering _ event found
  | ok slot => simp

theorem lookup_error_iff {fd : Int32}
    {rest : ContexId → Except Fault (IOManager Callback × Bool)} :
    (if manager.beyond fd then .ok (manager, false) else manager.contexAt fd >>= rest) =
        .error fault ↔
      ∃ id, manager.lookup fd = some id ∧ rest id = .error fault := by
  by_cases outside : manager.beyond fd = true
  · simp [lookup, outside]
  · rw [if_neg outside, bind_eq_error, or_iff_right (contexAt_ne triggering fd)]
    apply exists_congr
    intro id
    rw [contexAt_ok, lookup_eq_some,
      and_iff_right (show manager.beyond fd = false by simpa using outside)]

theorem addEvent_ne (fd : Int32) (event : Event) (cb : Option Callback)
    (caller : Caller) (reply : Bool) :
    manager.addEvent fd event cb caller reply ≠ .error fault := by
  intro failed
  rcases bind_eq_error.mp failed with growing | ⟨grown, _, failed⟩
  · exact grow_ne triggering fd growing
  · rcases bind_eq_error.mp failed with finding | ⟨id, _, failed⟩
    · exact contexAt_ne triggering fd finding
    · rcases perform_error_iff.mp failed with ⟨_, request, _, arming⟩
      exact arm_ne triggering id event cb caller arming

theorem delEvent_ne (fd : Int32) (event : Event) (reply : Bool) :
    manager.delEvent fd event reply ≠ .error fault := by
  intro failed
  rcases (lookup_error_iff triggering).mp failed with ⟨id, _, failed⟩
  rcases perform_error_iff.mp failed with ⟨_, request, _, disarming⟩
  exact disarm_ne triggering id event disarming

end OfTrigger

theorem cancelEvent_ne (fd : Int32) (event : Event) (reply : Bool) :
    manager.cancelEvent fd event reply ≠ .error triggerFault := by
  intro failed
  rcases (lookup_error_iff (Or.inl rfl)).mp failed with ⟨id, _, failed⟩
  rcases perform_error_iff.mp failed with ⟨_, request, made, firing⟩
  have armed := removeRequest_some made
  have unarmed := fire_error_iff.mp firing
  simp only at unarmed
  rw [armed] at unarmed
  cases unarmed

theorem cancelAll_error_iff (formed : manager.WellFormed) (fd : Int32) (reply : Bool) :
    manager.cancelAll fd reply = .error triggerFault ↔
      reply = true ∧ manager.armedAt fd .WRITE ∧ ¬manager.armedAt fd .READD := by
  rw [cancelAll]
  rw [lookup_error_iff (Or.inl rfl)]
  constructor
  · intro given
    rcases given with ⟨id, found, failed⟩
    rcases perform_error_iff.mp failed with ⟨replied, request, made, firing⟩
    have something := removeAllRequest_some made
    have readUnarmed : (manager.objects id).armed .READD = false :=
      (fireAll_error_iff { manager with epoll := request.apply manager.epoll }
        (formed.legal id) something).mp firing
    refine ⟨replied, ⟨id, found, ?_⟩, ?_⟩
    · exact (formed.legal id).has_write something readUnarmed
    · intro given
      rcases given with ⟨other, foundOther, readArmed⟩
      cases found.symm.trans foundOther
      rw [readUnarmed] at readArmed
      cases readArmed
  · intro given
    rcases given with ⟨replied, ⟨id, found, writeArmed⟩, readUnarmed⟩
    have something : (manager.objects id).event ≠ 0#32 := by
      intro clear
      simp [FdContex.armed, clear, Mask.has] at writeArmed
    have readUnarmedHere : (manager.objects id).armed .READD = false := by
      by_contra readArmed
      exact readUnarmed ⟨id, found, by simpa using readArmed⟩
    have made : ∃ request, (manager.objects id).removeAllRequest id = some request := by
      simp [FdContex.removeAllRequest, something]
    rcases made with ⟨request, made⟩
    have firing : fireAll { manager with epoll := request.apply manager.epoll } id =
        .error triggerFault :=
      (fireAll_error_iff { manager with epoll := request.apply manager.epoll }
        (formed.legal id) something).mpr readUnarmedHere
    exact ⟨id, found, perform_error_iff.mpr ⟨replied, request, made, firing⟩⟩

theorem dispatch_error_iff (id : ContexId) (reported : Mask) (reply : Bool) :
    manager.dispatch id reported reply = .error triggerFault ↔
      reply = true ∧
        (manager.objects id).event &&& (manager.objects id).realEvent reported ≠ 0#32 ∧
        ¬(manager.objects id).Triggerable ((manager.objects id).realEvent reported) := by
  simp only [dispatch]
  rw [perform_error_iff]
  apply and_congr_right
  intro _
  constructor
  · intro given
    rcases given with ⟨request, made, firing⟩
    have notTriggerable := (fireReported_error_iff _).mp firing
    refine ⟨?_, notTriggerable⟩
    intro clear
    simp [FdContex.dispatchRequest, clear, Event.bits] at made
  · intro given
    rcases given with ⟨concerned, notTriggerable⟩
    have made : ∃ request,
        (manager.objects id).dispatchRequest id reported = some request := by
      simp [FdContex.dispatchRequest, Event.bits, concerned]
    rcases made with ⟨request, made⟩
    have firing : fireReported { manager with epoll := request.apply manager.epoll } id
        ((manager.objects id).realEvent reported) = .error triggerFault :=
      (fireReported_error_iff _).mpr notTriggerable
    exact ⟨request, made, firing⟩

theorem execute_error_iff (formed : manager.WellFormed) (call : Call Callback) :
    manager.execute call = .error triggerFault ↔ ¬manager.Triggerable call := by
  rcases call with ⟨operation, reply⟩
  cases operation with
  | addEvent fd event cb caller =>
      exact iff_of_false (addEvent_ne (Or.inl rfl) fd event cb caller reply)
        (not_not.mpr fun _ => trivial)
  | delEvent fd event =>
      exact iff_of_false (delEvent_ne (Or.inl rfl) fd event reply) (not_not.mpr fun _ => trivial)
  | cancelEvent fd event =>
      exact iff_of_false (cancelEvent_ne fd event reply) (not_not.mpr fun _ => trivial)
  | cancelAll fd =>
      rw [execute, cancelAll_error_iff formed, Triggerable]
      simp only [Classical.not_imp]
  | dispatch id reported =>
      rw [execute, dispatch_error_iff, Triggerable]
      simp only [Classical.not_imp]

/-! ## Runs -/

/-- The machine whose runs end with the fault an operation meets. -/
def outcomeMachine : Machine (Except Fault (IOManager Callback)) (Call Callback) where
  step state call :=
    match state with
    | .ok manager => some ((manager.execute call).map Prod.fst)
    | .error _ => none

def Untriggered (state : Except Fault (IOManager Callback)) : Prop :=
  state ≠ .error triggerFault

/-- A report for a registration: some of the mask the kernel accepted last, with
or without an error or a hang-up. -/
def Delivered (state : Except Fault (IOManager Callback)) (call : Call Callback) : Prop :=
  ∀ id reported, call.operation = .dispatch id reported →
    ∃ manager fd registration, state = .ok manager ∧
      manager.epoll fd = some registration ∧ registration.contex = id ∧
      reported &&& ~~~(registration.events ||| EPOLLHUP ||| EPOLLERR) = 0#32

theorem outcomeMachine_step {next : Except Fault (IOManager Callback)}
    {call : Call Callback} (stepped : outcomeMachine.step (.ok manager) call = some next) :
    (∃ fault, next = .error fault) ∨
      ∃ after answer, next = .ok after ∧ manager.execute call = .ok (after, answer) := by
  simp only [outcomeMachine, Option.some.injEq] at stepped
  subst stepped
  cases manager.execute call with
  | error fault => exact Or.inl ⟨fault, rfl⟩
  | ok outcome => exact Or.inr ⟨outcome.1, outcome.2, rfl, rfl⟩

/-- The assertion of `triggerEvent` holds throughout a run exactly if no call of
it makes `cancelAll` meet the write direction alone or a report mix armed and
unarmed directions. -/
theorem triggerEvent_asserts (calls : List (Call Callback)) :
    outcomeMachine.Always Untriggered (.ok new) calls ↔
      outcomeMachine.StepsMeet
        (fun state call => ∀ manager, state = .ok manager → manager.Triggerable call)
        (.ok new) calls := by
  refine Machine.always_iff_stepsMeet
    (fun state => ∀ manager, state = .ok manager → manager.WellFormed) ?_ ?_ ?_ ?_ calls
  · intro state call next formed _ _ stepped manager isOk
    cases state with
    | error fault => cases stepped
    | ok before =>
        rcases outcomeMachine_step stepped with ⟨_, rfl⟩ | ⟨after, answer, rfl, returned⟩
        · cases isOk
        · cases isOk
          exact (execute_ok returned).wellFormed (formed before rfl)
  · intro state call next formed _ stepped
    cases state with
    | error fault => cases stepped
    | ok before =>
        have failure := execute_error_iff (formed before rfl) call
        simp only [outcomeMachine, Option.some.injEq] at stepped
        subst stepped
        simp only [Untriggered, Except.ok.injEq, forall_eq']
        rw [← not_iff_not, not_not, ← failure, map_eq_error]
  · intro manager isNew
    cases isNew
    exact new_wellFormed
  · simp [Untriggered]

/-- With both directions armed, cancelling the read direction leaves both in the
kernel's mask, and a report of both then triggers the read direction again. -/
theorem triggerEvent_asserts_fails :
    let calls : List (Call Unit) :=
      [{ operation := .addEvent 3 .READD (some ()) { scheduler := some 0, fiber := 0 } },
       { operation := .addEvent 3 .WRITE (some ()) { scheduler := some 0, fiber := 0 } },
       { operation := .cancelEvent 3 .READD },
       { operation := .dispatch 3 (EPOLLIN ||| EPOLLOUT) }]
    outcomeMachine.StepsMeet Delivered (.ok new) calls ∧
      ¬outcomeMachine.Always Untriggered (.ok new) calls := by
  intro calls
  constructor
  · apply Machine.StepsMeet.cons rfl (by simp [Delivered])
    apply Machine.StepsMeet.cons rfl (by simp [Delivered])
    apply Machine.StepsMeet.cons rfl (by simp [Delivered])
    refine Machine.StepsMeet.cons rfl ?_ trivial
    intro manager event isCall
    cases isCall
    exact ⟨_, 3, _, rfl, rfl, rfl, by decide⟩
  · intro always
    exact always.last rfl rfl

end IOManager

end Sylar.Events
