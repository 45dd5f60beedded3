import Mathlib.Tactic.Common
import Sylar.Events.IOManager

/-! # What the operations do

One lemma for every operation says what it has done when it returns, so that no
later proof unfolds an operation. On the way, the effect on one context is given
by the directions that are armed afterwards and by the slots.
-/

namespace Sylar.Events

open Foundation Scheduling

theorem bind_eq_ok {ε : Type u} {α β : Type v} {first : Except ε α}
    {rest : α → Except ε β} {result : β} :
    first >>= rest = .ok result ↔
      ∃ value, first = .ok value ∧ rest value = .ok result := by
  cases first with
  | error fault =>
      constructor
      · intro impossible
        cases impossible
      · intro given
        rcases given with ⟨value, impossible, _⟩
        cases impossible
  | ok value =>
      constructor
      · exact fun returned => ⟨value, rfl, returned⟩
      · intro given
        rcases given with ⟨_, same, returned⟩
        cases same
        exact returned

theorem map_eq_ok {ε : Type u} {α β : Type v} {first : Except ε α} {f : α → β} {result : β} :
    first.map f = .ok result ↔ ∃ value, first = .ok value ∧ f value = result := by
  cases first with
  | error fault => simp [Except.map]
  | ok value => simp [Except.map]

def Mask.count (mask : Mask) : Nat :=
  (mask.has .READD).toNat + (mask.has .WRITE).toNat

theorem Mask.count_le (mask : Mask) : mask.count ≤ 2 := by
  have readLe := Bool.toNat_le (mask.has .READD)
  have writeLe := Bool.toNat_le (mask.has .WRITE)
  rw [Mask.count]
  omega

theorem Event.count_bits {event : Event} (direction : event ≠ .NONE) :
    event.bits.count = 1 := by
  cases event with
  | NONE => exact absurd rfl direction
  | READD => rfl
  | WRITE => rfl

theorem Mask.Legal.eq_zero_iff {mask : Mask} (legal : mask.Legal) :
    mask = 0#32 ↔ ∀ event, mask.has event = false := by
  constructor
  · rintro rfl event
    simp [Mask.has]
  · intro clear
    apply legal.ext Event.NONE.bits_legal
    intro event
    simp [clear event, Mask.has_bits]

theorem Mask.Legal.has_write {mask : Mask} (legal : mask.Legal) (something : mask ≠ 0#32)
    (noRead : mask.has .READD = false) : mask.has .WRITE = true := by
  by_contra noWrite
  apply something
  rw [legal.eq_zero_iff]
  intro event
  cases event with
  | NONE => exact has_NONE mask
  | READD => exact noRead
  | WRITE => exact Bool.eq_false_iff.mpr noWrite

/-! ## One context -/

namespace FdContex

variable {Callback : Type} (contex : FdContex Callback)

def filled (event : Event) (cb : Option Callback) (caller : Caller) :
    FdContex Callback :=
  ({ contex with event := event.bits ||| contex.event }).setSlot event
    { cb := cb
      fiber := if cb.isNone then some caller.fiber else none
      scheduler := caller.scheduler }

def deleted (event : Event) : FdContex Callback :=
  ({ contex with event := contex.newEvent event }).resetContex event

def fired (event : Event) : FdContex Callback :=
  ({ contex with event := contex.event &&& ~~~event.bits }).setSlot event
    { contex.slot event with scheduler := none }

def firedBy (mask : Mask) : FdContex Callback :=
  let afterRead := if mask.has .READD then contex.fired .READD else contex
  if mask.has .WRITE then afterRead.fired .WRITE else afterRead

def Covers (mask : Mask) : Prop :=
  ∀ event, mask.has event = true → contex.armed event = true

@[simp] theorem armed_NONE : contex.armed .NONE = false := by
  simp [armed]

theorem armed_withBits (contex : FdContex Callback) {event : Event}
    (direction : event ≠ .NONE) :
    FdContex.armed { contex with event := event.bits ||| contex.event } event = true := by
  simp [armed, Mask.has_bits, direction]

theorem slot_withBits (contex : FdContex Callback) (event : Event) :
    FdContex.slot { contex with event := event.bits ||| contex.event } event =
      contex.slot event := by
  cases event <;> rfl

@[simp] theorem setSlot_event (event : Event) (slot : FdEvent Callback) :
    (contex.setSlot event slot).event = contex.event := by
  cases event <;> rfl

@[simp] theorem setSlot_fd (event : Event) (slot : FdEvent Callback) :
    (contex.setSlot event slot).fd = contex.fd := by
  cases event <;> rfl

theorem setSlot_slot {event : Event} (direction : event ≠ .NONE)
    (slot : FdEvent Callback) (other : Event) :
    (contex.setSlot event slot).slot other =
      if other = event then slot else contex.slot other := by
  cases event with
  | NONE => exact absurd rfl direction
  | READD => cases other <;> rfl
  | WRITE => cases other <;> rfl

@[simp] theorem filled_fd (event : Event) (cb : Option Callback)
    (caller : Caller) : (contex.filled event cb caller).fd = contex.fd := by
  simp [filled]

@[simp] theorem filled_event (event : Event) (cb : Option Callback)
    (caller : Caller) :
    (contex.filled event cb caller).event = event.bits ||| contex.event := by
  simp [filled]

@[simp] theorem filled_armed (event : Event) (cb : Option Callback)
    (caller : Caller) (other : Event) :
    (contex.filled event cb caller).armed other =
      ((decide (event = other) && decide (event ≠ .NONE)) ||
        contex.armed other) := by
  simp [filled, armed, Mask.has_bits]

@[simp] theorem deleted_fd (event : Event) :
    (contex.deleted event).fd = contex.fd := by
  simp [deleted, resetContex]

@[simp] theorem deleted_event (event : Event) :
    (contex.deleted event).event = contex.event ||| event.bits := by
  simp [deleted, resetContex, newEvent]

@[simp] theorem fired_fd (event : Event) :
    (contex.fired event).fd = contex.fd := by
  simp [fired]

@[simp] theorem fired_armed (event other : Event) :
    (contex.fired event).armed other =
      (contex.armed other && decide (other ≠ event)) := by
  by_cases none : other = .NONE
  · simp [none]
  · have apart : event.bits.has other = decide (other = event) := by
      cases event <;> cases other <;> first | rfl | exact absurd rfl none
    simp [fired, armed, Mask.has_not _ none, apart]

theorem fired_slot {event : Event} (direction : event ≠ .NONE) (other : Event) :
    (contex.fired event).slot other =
      if other = event then { contex.slot other with scheduler := none }
      else contex.slot other := by
  rw [fired, setSlot_slot _ direction]
  by_cases same : other = event
  · simp [same]
  · cases other <;> simp [same, slot]

@[simp] theorem firedBy_fd (mask : Mask) :
    (contex.firedBy mask).fd = contex.fd := by
  rw [firedBy]
  cases mask.has .READD <;> cases mask.has .WRITE <;> simp

@[simp] theorem firedBy_armed (mask : Mask) (other : Event) :
    (contex.firedBy mask).armed other =
      (contex.armed other && !mask.has other) := by
  rw [firedBy]
  cases readReported : mask.has .READD <;>
    cases writeReported : mask.has .WRITE <;>
    cases other <;> simp [readReported, writeReported]

theorem firedBy_slot (mask : Mask) (other : Event) :
    (contex.firedBy mask).slot other =
      if mask.has other then { contex.slot other with scheduler := none }
      else contex.slot other := by
  have readFired := contex.fired_slot (show Event.READD ≠ .NONE by simp)
  rw [firedBy]
  cases readReported : mask.has .READD <;>
    cases writeReported : mask.has .WRITE <;>
    cases other <;>
    simp [readReported, writeReported, readFired, fired_slot]

theorem firedBy_bits {event : Event} (direction : event ≠ .NONE) :
    contex.firedBy event.bits = contex.fired event := by
  cases event with
  | NONE => exact absurd rfl direction
  | READD => rfl
  | WRITE => rfl

/-! ### Legal masks stay legal -/

theorem filled_legal (legal : contex.event.Legal) (event : Event)
    (cb : Option Callback) (caller : Caller) :
    (contex.filled event cb caller).event.Legal := by
  simpa [filled] using event.bits_legal.or legal

theorem deleted_legal (legal : contex.event.Legal) (event : Event) :
    (contex.deleted event).event.Legal := by
  simpa using legal.or event.bits_legal

theorem fired_legal (legal : contex.event.Legal) (event : Event) :
    (contex.fired event).event.Legal := by
  intro position bit
  rw [fired, setSlot_event, BitVec.getLsbD_and, Bool.and_eq_true] at bit
  exact legal position bit.1

theorem firedBy_legal (legal : contex.event.Legal) (mask : Mask) :
    (contex.firedBy mask).event.Legal := by
  rw [firedBy]
  cases mask.has .READD <;> cases mask.has .WRITE <;>
    simp only [Bool.false_eq_true, if_false, if_true]
  · exact legal
  · exact contex.fired_legal legal .WRITE
  · exact contex.fired_legal legal .READD
  · exact (contex.fired .READD).fired_legal (contex.fired_legal legal .READD) .WRITE

theorem firedBy_all (legal : contex.event.Legal) : (contex.firedBy contex.event).event = 0#32 := by
  rw [(contex.firedBy_legal legal _).eq_zero_iff]
  intro event
  rw [← armed, firedBy_armed, armed, Bool.and_not_self]

theorem deleted_event_of_armed {event : Event} (armed : contex.armed event = true) :
    (contex.deleted event).event = contex.event := by
  have direction : event ≠ .NONE := by
    intro same
    subst same
    simp at armed
  have bit : contex.event.getLsbD event.position = true := by
    rw [← Mask.has_eq_getLsbD]
    exact armed
  rw [deleted_event, Event.bits_eq_twoPow direction]
  apply BitVec.eq_of_getLsbD_eq
  intro position inRange
  rw [BitVec.getLsbD_or, BitVec.getLsbD_twoPow]
  by_cases here : event.position = position
  · simp [← here, bit]
  · simp [here]

theorem realEvent_legal (reported : Mask) : (contex.realEvent reported).Legal := by
  apply Mask.Legal.or
  · split
    · exact Event.READD.bits_legal
    · exact Event.NONE.bits_legal
  · split
    · exact Event.WRITE.bits_legal
    · exact Event.NONE.bits_legal

theorem remainingEvent_legal (legal : contex.event.Legal) (reported : Mask) :
    (contex.remainingEvent reported).Legal :=
  legal.and _

theorem remainingEvent_has (reported : Mask) (event : Event) :
    (contex.remainingEvent reported).has event =
      (contex.firedBy (contex.realEvent reported)).armed event := by
  by_cases none : event = .NONE
  · simp [none]
  · rw [remainingEvent, Mask.has_and, Mask.has_not _ none, firedBy_armed,
      Bool.and_comm, armed]

theorem firedBy_realEvent (legal : contex.event.Legal) (reported : Mask) :
    (contex.firedBy (contex.realEvent reported)).event =
      contex.remainingEvent reported :=
  (contex.firedBy_legal legal _).ext (contex.remainingEvent_legal legal reported)
    fun event => (contex.remainingEvent_has reported event).symm

theorem ite_bits_has (chosen : Bool) (event other : Event) :
    Mask.has (if chosen then event.bits else Event.NONE.bits) other =
      (chosen && event.bits.has other) := by
  cases chosen with
  | false => simp [Mask.has_bits]
  | true => rfl

theorem realEvent_has (reported : Mask) (event : Event) :
    (contex.realEvent reported).has event =
      (contex.reportedEvents reported).has event := by
  have inIs : (contex.reportedEvents reported &&& EPOLLIN != 0) =
      (contex.reportedEvents reported).has .READD := by
    rw [Mask.has, BitVec.and_comm]
    rfl
  have outIs : (contex.reportedEvents reported &&& EPOLLOUT != 0) =
      (contex.reportedEvents reported).has .WRITE := by
    rw [Mask.has, BitVec.and_comm]
    rfl
  rw [realEvent, Mask.has_or, ite_bits_has, ite_bits_has, inIs, outIs]
  cases event <;> simp [Mask.has_bits]

theorem triggerEvent_ok {event : Event} {after : FdContex Callback}
    {queued : List (SchedulerId × Work Callback)}
    (returned : contex.triggerEvent event = .ok (after, queued)) :
    contex.armed event = true ∧ after = contex.fired event := by
  by_cases armed : contex.armed event = true
  · simp only [triggerEvent, getEventConetx, armed, if_true] at returned
    rcases bind_eq_ok.mp returned with ⟨slot, found, returned⟩
    rcases bind_eq_ok.mp returned with ⟨handedOver, _, returned⟩
    cases found
    cases returned
    exact ⟨armed, rfl⟩
  · simp [triggerEvent, armed] at returned

theorem triggerEvent_handOver {event : Event} {after : FdContex Callback}
    {queued : List (SchedulerId × Work Callback)}
    (returned : contex.triggerEvent event = .ok (after, queued)) :
    (contex.slot event).handOver = .ok queued := by
  have armed := (contex.triggerEvent_ok returned).1
  simp only [triggerEvent, getEventConetx, armed, if_true] at returned
  rcases bind_eq_ok.mp returned with ⟨slot, found, returned⟩
  rcases bind_eq_ok.mp returned with ⟨handedOver, handed, returned⟩
  cases found
  cases returned
  exact handed

def HandsOver (contex : FdContex Callback) (mask : Mask)
    (queued : List (SchedulerId × Work Callback)) : Prop :=
  ∃ read write,
    (if mask.has .READD then (contex.slot .READD).handOver else .ok []) = .ok read ∧
    (if mask.has .WRITE then (contex.slot .WRITE).handOver else .ok []) = .ok write ∧
    queued = read ++ write

end FdContex

/-! ## The whole manager -/

namespace IOManager

variable {Callback : Type} {manager next : IOManager Callback}

def settle (manager : IOManager Callback) (request : EpollRequest)
    (id : ContexId) (contex : FdContex Callback) (pendingEventSize : UInt64)
    (queued : List (SchedulerId × Work Callback)) : IOManager Callback :=
  { manager with
    objects := Function.update manager.objects id contex
    pendingEventSize := pendingEventSize
    epoll := request.apply manager.epoll
    queued := manager.queued ++ queued }

section Settle

variable (request : EpollRequest) (id : ContexId) (contex : FdContex Callback)
  (pendingEventSize : UInt64) (queued : List (SchedulerId × Work Callback))

@[simp] theorem settle_objects :
    (manager.settle request id contex pendingEventSize queued).objects =
      Function.update manager.objects id contex := rfl

@[simp] theorem settle_pendingEventSize :
    (manager.settle request id contex pendingEventSize queued).pendingEventSize =
      pendingEventSize := rfl

@[simp] theorem settle_epoll :
    (manager.settle request id contex pendingEventSize queued).epoll =
      request.apply manager.epoll := rfl

end Settle

theorem perform_ok {request : Option EpollRequest} {reply answer : Bool}
    {complete : IOManager Callback → Except Fault (IOManager Callback)}
    (returned : manager.perform request reply complete = .ok (next, answer)) :
    (answer = false ∧ next = manager ∧ (request = none ∨ reply = false)) ∨
      (answer = true ∧ reply = true ∧ ∃ accepted, request = some accepted ∧
        complete { manager with epoll := accepted.apply manager.epoll } =
          .ok next) := by
  cases request with
  | none =>
      cases returned
      exact Or.inl ⟨rfl, rfl, Or.inl rfl⟩
  | some request =>
      cases reply with
      | false =>
          cases returned
          exact Or.inl ⟨rfl, rfl, Or.inr rfl⟩
      | true =>
          right
          simp only [perform, if_true] at returned
          rcases map_eq_ok.mp returned with ⟨finished, settled, isPair⟩
          cases isPair
          exact ⟨rfl, rfl, request, rfl, settled⟩

theorem fire_ok {id : ContexId} {event : Event}
    (returned : manager.fire id event = .ok next) :
    (manager.objects id).armed event = true ∧ ∃ queued,
      next =
        { manager.setContex id ((manager.objects id).fired event) with
          pendingEventSize := manager.pendingEventSize - 1
          queued := manager.queued ++ queued } := by
  rw [fire] at returned
  generalize triggered : (manager.objects id).triggerEvent event = outcome at returned
  cases outcome with
  | error fault => cases returned
  | ok outcome =>
      rcases FdContex.triggerEvent_ok _ triggered with ⟨armed, after⟩
      cases returned
      exact ⟨armed, outcome.2, by rw [after]⟩

theorem fire_handOver {id : ContexId} {event : Event}
    (returned : manager.fire id event = .ok next) :
    ∃ queued, ((manager.objects id).slot event).handOver = .ok queued ∧
      next.queued = manager.queued ++ queued := by
  rw [fire] at returned
  generalize triggered : (manager.objects id).triggerEvent event = outcome at returned
  cases outcome with
  | error fault => cases returned
  | ok outcome =>
      cases returned
      exact ⟨outcome.2, FdContex.triggerEvent_handOver _ triggered, rfl⟩

theorem arm_ok {id : ContexId} {event : Event} {cb : Option Callback}
    {caller : Caller} (returned : manager.arm id event cb caller = .ok next) :
    event ≠ .NONE ∧ ((manager.objects id).slot event).IsEmpty ∧
      (cb = none → caller.fiberState = .EXEC) ∧
      next =
        { manager.setContex id ((manager.objects id).filled event cb caller) with
          pendingEventSize := manager.pendingEventSize + 1 } := by
  have direction : event ≠ .NONE := by
    intro same
    subst same
    simp [arm, FdContex.getEventConetx] at returned
  have set := FdContex.armed_withBits (manager.objects id) direction
  have sameSlot := FdContex.slot_withBits (manager.objects id) event
  simp only [arm, FdContex.getEventConetx, set, if_true, sameSlot] at returned
  generalize slotIs : (manager.objects id).slot event = slot at returned ⊢
  by_cases occupied : (slot.scheduler.isSome || slot.cb.isSome || slot.fiber.isSome) = true
  · simp [occupied] at returned
  · have empty : slot.IsEmpty := by
      simpa [FdEvent.IsEmpty, and_assoc] using occupied
    rcases empty with ⟨noScheduler, noCb, noFiber⟩
    refine ⟨direction, ⟨noScheduler, noCb, noFiber⟩, ?_⟩
    simp only [occupied] at returned
    cases cb with
    | some callback =>
        cases returned
        exact ⟨by simp, by simp [FdContex.filled, setContex, noFiber]⟩
    | none =>
        by_cases executing : caller.fiberState = .EXEC
        · simp only [executing, if_true] at returned
          cases returned
          exact ⟨fun _ => executing, by simp [FdContex.filled, setContex, noCb]⟩
        · simp [executing] at returned

theorem disarm_ok {id : ContexId} {event : Event}
    (returned : manager.disarm id event = .ok next) :
    next =
      { manager.setContex id ((manager.objects id).deleted event) with
        pendingEventSize := manager.pendingEventSize - 1 } := by
  simp only [disarm] at returned
  generalize stored : FdContex.getEventConetx _ event = found at returned
  cases found with
  | error fault => cases returned
  | ok slot => cases returned; rfl

/-- `fireIfAny` and `fireIfReported` fire a direction or leave the manager
alone; two of them in a row fire the directions of a mask. -/
theorem fire_fire_ok {id : ContexId} {mask : Mask} {middle : IOManager Callback}
    (first : (if mask.has .READD then manager.fire id .READD else .ok manager) =
      .ok middle)
    (second : (if mask.has .WRITE then middle.fire id .WRITE else .ok middle) =
      .ok next) :
    (manager.objects id).Covers mask ∧ ∃ queued,
      next =
        { manager.setContex id ((manager.objects id).firedBy mask) with
          pendingEventSize :=
            manager.pendingEventSize - UInt64.ofNat mask.count
          queued := manager.queued ++ queued } := by
  have middleIs : (mask.has .READD = true → (manager.objects id).armed .READD = true) ∧
      ∃ queued, middle =
        { manager.setContex id
            (if mask.has .READD then (manager.objects id).fired .READD
              else manager.objects id) with
          pendingEventSize :=
            manager.pendingEventSize - UInt64.ofNat (mask.has .READD).toNat
          queued := manager.queued ++ queued } := by
    by_cases readReported : mask.has .READD = true
    · simp only [readReported, if_true] at first ⊢
      exact ⟨fun _ => (fire_ok first).1, (fire_ok first).2⟩
    · simp only [readReported, Bool.not_eq_true] at first readReported ⊢
      cases first
      exact ⟨by simp, [], by simp [setContex]⟩
  rcases middleIs with ⟨readArmed, afterRead, rfl⟩
  have countIs (size : UInt64) : size - UInt64.ofNat mask.count =
      size - UInt64.ofNat (mask.has .READD).toNat -
        UInt64.ofNat (mask.has .WRITE).toNat := by
    rw [Mask.count, UInt64.ofNat_add]
    simp only [UInt64.sub_eq_add_neg, UInt64.neg_add, UInt64.add_assoc]
  by_cases writeReported : mask.has .WRITE = true
  · simp only [writeReported, if_true] at second
    rcases fire_ok second with ⟨writeArmed, afterWrite, rfl⟩
    have writeWasArmed : (manager.objects id).armed .WRITE = true := by
      revert writeArmed
      cases mask.has .READD <;> simp [setContex]
    refine ⟨?_, afterRead ++ afterWrite, ?_⟩
    · intro event reported
      cases event with
      | NONE => simp at reported
      | READD => exact readArmed reported
      | WRITE => exact writeWasArmed
    · simp [setContex, FdContex.firedBy, writeReported, countIs]
  · simp only [writeReported] at second
    cases second
    refine ⟨?_, afterRead, ?_⟩
    · intro event reported
      cases event with
      | NONE => simp at reported
      | READD => exact readArmed reported
      | WRITE => exact absurd reported writeReported
    · simp [setContex, FdContex.firedBy, writeReported, countIs]

theorem fire_fire_handOver {id : ContexId} {mask : Mask}
    {middle : IOManager Callback}
    (first : (if mask.has .READD then manager.fire id .READD else .ok manager) =
      .ok middle)
    (second : (if mask.has .WRITE then middle.fire id .WRITE else .ok middle) =
      .ok next) :
    ∃ queued, (manager.objects id).HandsOver mask queued ∧
      next.queued = manager.queued ++ queued := by
  have readPart : ∃ read,
      (if mask.has .READD then ((manager.objects id).slot .READD).handOver
        else .ok []) = .ok read ∧
      middle.queued = manager.queued ++ read ∧
      (middle.objects id).slot .WRITE = (manager.objects id).slot .WRITE := by
    by_cases readReported : mask.has .READD = true
    · simp only [readReported, if_true] at first ⊢
      rcases fire_handOver first with ⟨read, handed, queuedIs⟩
      rcases fire_ok first with ⟨_, _, middleIs⟩
      refine ⟨read, handed, queuedIs, ?_⟩
      have objectIs : middle.objects id = (manager.objects id).fired .READD := by
        rw [middleIs]
        simp [setContex]
      rw [objectIs, FdContex.fired_slot _ (by simp), if_neg (by simp)]
    · simp only [readReported] at first ⊢
      cases first
      exact ⟨[], rfl, (List.append_nil _).symm, rfl⟩
  rcases readPart with ⟨read, readHanded, readQueued, sameSlot⟩
  by_cases writeReported : mask.has .WRITE = true
  · simp only [writeReported, if_true] at second
    rcases fire_handOver second with ⟨write, writeHanded, writeQueued⟩
    refine ⟨read ++ write, ⟨read, write, readHanded, ?_, rfl⟩, ?_⟩
    · rw [if_pos writeReported, ← sameSlot]
      exact writeHanded
    · rw [writeQueued, readQueued, List.append_assoc]
  · simp only [writeReported] at second
    cases second
    refine ⟨read, ⟨read, [], readHanded, ?_, (List.append_nil _).symm⟩, readQueued⟩
    rw [if_neg writeReported]

theorem fireIfAny_eq (manager : IOManager Callback) (id : ContexId)
    {event : Event} (direction : event ≠ .NONE) :
    manager.fireIfAny id event =
      if (manager.objects id).event = 0#32 then .ok manager
      else manager.fire id event := by
  have bitsNonzero : event.bits ≠ 0#32 := by
    cases event with
    | NONE => exact absurd rfl direction
    | READD => simp [Event.bits]
    | WRITE => simp [Event.bits]
  by_cases clear : (manager.objects id).event = 0#32
  · simp [fireIfAny, clear]
  · simp [fireIfAny, clear, bitsNonzero]

theorem fireAll_fires {id : ContexId} (returned : manager.fireAll id = .ok next)
    (something : (manager.objects id).event ≠ 0#32) :
    (manager.objects id).armed .READD = true ∧
      (next.objects id).event = 0#32 ∧ ∃ middle,
        (if Mask.has (manager.objects id).event .READD then
          manager.fire id .READD else .ok manager) = .ok middle ∧
        (if Mask.has (manager.objects id).event .WRITE then
          middle.fire id .WRITE else .ok middle) = .ok next := by
  rcases bind_eq_ok.mp returned with ⟨middle, first, rest⟩
  rcases bind_eq_ok.mp rest with ⟨last, second, asserted⟩
  have cleared : last = next ∧ (last.objects id).event = 0#32 := by
    by_cases clear : (last.objects id).event = 0#32
    · simp only [clear, BitVec.ofNat_eq_ofNat, beq_self_eq_true, if_true] at asserted
      cases asserted
      exact ⟨rfl, clear⟩
    · simp only [BitVec.ofNat_eq_ofNat, beq_iff_eq, clear, if_false] at asserted
      cases asserted
  rcases cleared with ⟨rfl, clear⟩
  rw [fireIfAny_eq manager id (by simp), if_neg something] at first
  rw [fireIfAny_eq middle id (by simp)] at second
  rcases fire_ok first with ⟨readArmed, _, middleIs⟩
  have writeStays : (middle.objects id).armed .WRITE =
      (manager.objects id).armed .WRITE := by
    simp [middleIs, setContex]
  have secondFires : (if Mask.has (manager.objects id).event .WRITE then
      middle.fire id .WRITE else .ok middle) = .ok last := by
    by_cases stays : (middle.objects id).event = 0#32
    · have unarmed : Mask.has (manager.objects id).event .WRITE = false := by
        rw [FdContex.armed, stays] at writeStays
        exact writeStays.symm
      simpa [stays, unarmed] using second
    · rw [if_neg stays] at second
      have armed : Mask.has (manager.objects id).event .WRITE = true :=
        writeStays.symm.trans (fire_ok second).1
      rw [if_pos armed]
      exact second
  have readHas : Mask.has (manager.objects id).event .READD = true := readArmed
  exact ⟨readArmed, clear, middle, by rw [if_pos readHas]; exact first, secondFires⟩

theorem fireAll_ok {id : ContexId} (returned : manager.fireAll id = .ok next)
    (something : (manager.objects id).event ≠ 0#32) :
    (manager.objects id).Covers (manager.objects id).event ∧
      (manager.objects id).armed .READD = true ∧
      (next.objects id).event = 0#32 ∧ ∃ queued,
      next =
        { manager.setContex id
            ((manager.objects id).firedBy (manager.objects id).event) with
          pendingEventSize := manager.pendingEventSize -
            UInt64.ofNat (Mask.count (manager.objects id).event)
          queued := manager.queued ++ queued } := by
  rcases fireAll_fires returned something with ⟨readArmed, clear, middle, first, second⟩
  have effect := fire_fire_ok first second
  exact ⟨effect.1, readArmed, clear, effect.2⟩

theorem fireReported_ok {id : ContexId} {realEvent : Mask}
    (returned : manager.fireReported id realEvent = .ok next) :
    (manager.objects id).Covers realEvent ∧ ∃ queued,
      next =
        { manager.setContex id ((manager.objects id).firedBy realEvent) with
          pendingEventSize :=
            manager.pendingEventSize - UInt64.ofNat realEvent.count
          queued := manager.queued ++ queued } := by
  rcases bind_eq_ok.mp returned with ⟨middle, first, second⟩
  exact fire_fire_ok first second

/-! ## Operations -/

def Holds (manager : IOManager Callback) (fd : Int32) (id : ContexId) : Prop :=
  0 ≤ fd ∧ manager.fdContexs[fd.toNatClampNeg]? = some id

theorem contexAt_ok {fd : Int32} {id : ContexId} :
    manager.contexAt fd = .ok id ↔ manager.Holds fd id := by
  unfold contexAt Holds
  by_cases negative : fd < 0
  · simp [negative, Int32.not_le.mpr negative]
  · simp only [negative, if_false, Int32.not_lt.mp negative, true_and]
    cases manager.fdContexs[fd.toNatClampNeg]? with
    | none => simp
    | some found => simp

theorem toOption_contexAt_eq_some {fd : Int32} {id : ContexId} :
    (manager.contexAt fd).toOption = some id ↔ manager.Holds fd id := by
  rw [← contexAt_ok]
  cases manager.contexAt fd with
  | error fault => simp [Except.toOption]
  | ok found => simp [Except.toOption]

def grown (manager : IOManager Callback) (fd : Int32) : IOManager Callback :=
  if manager.beyond fd then manager.fdContexResize (fd.toNatClampNeg * 3 / 2)
  else manager

theorem grow_ok {fd : Int32} (returned : manager.grow fd = .ok next) :
    next = manager.grown fd := by
  rw [grow] at returned
  rw [grown]
  by_cases outside : manager.beyond fd = true
  · simp only [outside, if_true] at returned ⊢
    by_cases negative : fd < 0
    · simp [negative] at returned
    · simpa [negative] using returned.symm
  · simp only [outside] at returned ⊢
    cases returned
    rfl

def base (manager : IOManager Callback) : Operation Callback → IOManager Callback
  | .addEvent fd _ _ _ => manager.grown fd
  | _ => manager

/-- The context of a descriptor for the operations that do not grow the table. -/
def lookup (manager : IOManager Callback) (fd : Int32) : Option ContexId :=
  if manager.beyond fd then none else (manager.contexAt fd).toOption

theorem lookup_eq_some {fd : Int32} {id : ContexId} :
    manager.lookup fd = some id ↔ manager.beyond fd = false ∧ manager.Holds fd id := by
  rw [← toOption_contexAt_eq_some, lookup]
  by_cases outside : manager.beyond fd = true
  · simp [outside]
  · simp [outside]

def target (manager : IOManager Callback) : Operation Callback → Option ContexId
  | .addEvent fd _ _ _ => ((manager.grown fd).contexAt fd).toOption
  | .delEvent fd _ | .cancelEvent fd _ | .cancelAll fd => manager.lookup fd
  | .dispatch id _ => some id

def requestOf (manager : IOManager Callback) (operation : Operation Callback) :
    Option EpollRequest :=
  (manager.target operation).bind fun id =>
    let contex := (manager.base operation).objects id
    match operation with
    | .addEvent _ event _ _ => contex.addRequest id event
    | .delEvent _ event | .cancelEvent _ event => contex.removeRequest id event
    | .cancelAll _ => contex.removeAllRequest id
    | .dispatch _ reported => contex.dispatchRequest id reported

def Fires (manager : IOManager Callback) (operation : Operation Callback)
    (id : ContexId) (mask : Mask) : Prop :=
  match operation with
  | .addEvent .. | .delEvent .. => False
  | .cancelEvent fd event => manager.Holds fd id ∧ mask = event.bits
  | .cancelAll fd => manager.Holds fd id ∧ mask = (manager.objects id).event
  | .dispatch reportedId reported =>
      reportedId = id ∧ mask = (manager.objects id).realEvent reported

inductive Effect (manager : IOManager Callback) (request : EpollRequest) :
    Operation Callback → IOManager Callback → Prop
  | registered {fd : Int32} {event : Event} {cb : Option Callback}
      {caller : Caller} {id : ContexId}
      (holds : (manager.grown fd).Holds fd id) (direction : event ≠ .NONE)
      (unarmed : ((manager.grown fd).objects id).armed event = false)
      (empty : (((manager.grown fd).objects id).slot event).IsEmpty)
      (callable : cb = none → caller.fiberState = .EXEC) :
      Effect manager request (.addEvent fd event cb caller)
        ((manager.grown fd).settle request id
          (((manager.grown fd).objects id).filled event cb caller)
          (manager.pendingEventSize + 1) [])
  | deleted {fd : Int32} {event : Event} {id : ContexId}
      (holds : manager.Holds fd id)
      (armed : (manager.objects id).armed event = true) :
      Effect manager request (.delEvent fd event)
        (manager.settle request id ((manager.objects id).deleted event)
          (manager.pendingEventSize - 1) [])
  | fired {operation : Operation Callback} {id : ContexId} {mask : Mask}
      (fires : manager.Fires operation id mask)
      (covers : (manager.objects id).Covers mask)
      (something : ∃ event, mask.has event = true)
      (queued : List (SchedulerId × Work Callback)) :
      Effect manager request operation
        (manager.settle request id ((manager.objects id).firedBy mask)
          (manager.pendingEventSize - UInt64.ofNat mask.count) queued)

/-- Every operation either returns false and has changed nothing but the size of
the table, or it has made a request, which was accepted, and its effect. -/
def Outcome (manager : IOManager Callback) (operation : Operation Callback)
    (reply : Bool) (next : IOManager Callback) (answer : Bool) : Prop :=
  (answer = false ∧ next = manager.base operation ∧
      (manager.requestOf operation = none ∨ reply = false)) ∨
    (answer = true ∧ reply = true ∧
      ∃ request, manager.requestOf operation = some request ∧
        manager.Effect request operation next)

theorem outcome_of_perform {operation : Operation Callback} {reply answer : Bool}
    {complete : IOManager Callback → Except Fault (IOManager Callback)}
    (returned : (manager.base operation).perform (manager.requestOf operation)
      reply complete = .ok (next, answer))
    (effect : ∀ request, manager.requestOf operation = some request →
      complete { manager.base operation with
        epoll := request.apply (manager.base operation).epoll } = .ok next →
      manager.Effect request operation next) :
    manager.Outcome operation reply next answer := by
  rcases perform_ok returned with
    ⟨refused, same, reason⟩ | ⟨answered, replied, request, made, completed⟩
  · exact Or.inl ⟨refused, same, reason⟩
  · exact Or.inr ⟨answered, replied, request, made, effect request made completed⟩

theorem outcome_of_lookup {operation : Operation Callback} {fd : Int32}
    {reply answer : Bool}
    {rest : ContexId → Except Fault (IOManager Callback × Bool)}
    (returned : (if manager.beyond fd then .ok (manager, false)
      else manager.contexAt fd >>= rest) = .ok (next, answer))
    (noGrowth : manager.base operation = manager)
    (targetIs : manager.target operation = manager.lookup fd)
    (found : ∀ id, manager.Holds fd id → manager.target operation = some id →
      rest id = .ok (next, answer) →
      manager.Outcome operation reply next answer) :
    manager.Outcome operation reply next answer := by
  by_cases outside : manager.beyond fd = true
  · rw [lookup, if_pos outside] at targetIs
    rw [if_pos outside] at returned
    cases returned
    exact Or.inl ⟨rfl, noGrowth.symm, Or.inl (by simp [requestOf, targetIs])⟩
  · rw [lookup, if_neg outside] at targetIs
    rw [if_neg outside] at returned
    rcases bind_eq_ok.mp returned with ⟨id, lookup, rest⟩
    exact found id (contexAt_ok.mp lookup) (by rw [targetIs, lookup]; rfl) rest

section Requests

variable {contex : FdContex Callback} {id : ContexId} {event : Event}
  {request : EpollRequest}

theorem addRequest_some (made : contex.addRequest id event = some request) :
    contex.armed event = false := by
  by_contra armed
  simp [FdContex.addRequest, armed] at made

theorem removeRequest_some (made : contex.removeRequest id event = some request) :
    contex.armed event = true := by
  by_contra unarmed
  simp [FdContex.removeRequest, unarmed] at made

theorem removeAllRequest_some (made : contex.removeAllRequest id = some request) :
    contex.event ≠ 0#32 := by
  intro clear
  simp [FdContex.removeAllRequest, clear] at made

theorem dispatchRequest_some {reported : Mask}
    (made : contex.dispatchRequest id reported = some request) :
    ∃ event, (contex.realEvent reported).has event = true := by
  by_contra silent
  have clear : contex.realEvent reported = 0#32 :=
    (contex.realEvent_legal reported).eq_zero_iff.mpr (by simpa using silent)
  simp [FdContex.dispatchRequest, clear, Event.bits] at made

end Requests

theorem addEvent_ok {fd : Int32} {event : Event} {cb : Option Callback}
    {caller : Caller} {reply answer : Bool}
    (returned : manager.addEvent fd event cb caller reply = .ok (next, answer)) :
    manager.Outcome (.addEvent fd event cb caller) reply next answer := by
  rcases bind_eq_ok.mp returned with ⟨grown, grew, returned⟩
  rcases bind_eq_ok.mp returned with ⟨id, lookup, returned⟩
  cases grow_ok grew
  have targetIs : manager.target (.addEvent fd event cb caller) = some id := by
    simp [target, lookup, Except.toOption]
  have requestIs : manager.requestOf (.addEvent fd event cb caller) =
      ((manager.grown fd).objects id).addRequest id event := by
    simp [requestOf, targetIs, base]
  apply outcome_of_perform (by rw [requestIs]; exact returned)
  intro request made completed
  rcases arm_ok completed with ⟨direction, empty, callable, rfl⟩
  have unarmed := addRequest_some (requestIs ▸ made)
  have sameSize : (manager.grown fd).pendingEventSize = manager.pendingEventSize := by
    rw [IOManager.grown]
    split <;> rfl
  have effect : manager.Effect request (.addEvent fd event cb caller) _ :=
    .registered (contexAt_ok.mp lookup) direction unarmed empty callable
  simpa [base, settle, setContex, sameSize] using effect

theorem delEvent_ok {fd : Int32} {event : Event} {reply answer : Bool}
    (returned : manager.delEvent fd event reply = .ok (next, answer)) :
    manager.Outcome (.delEvent fd event) reply next answer := by
  apply outcome_of_lookup returned rfl rfl
  intro id holds targetIs returned
  have requestIs : manager.requestOf (.delEvent fd event) =
      (manager.objects id).removeRequest id event := by
    simp [requestOf, targetIs, base]
  apply outcome_of_perform (by rw [requestIs]; exact returned)
  intro request made completed
  have armed := removeRequest_some (requestIs ▸ made)
  have effect : manager.Effect request (.delEvent fd event) _ :=
    .deleted holds armed
  rw [disarm_ok completed]
  simpa [base, settle, setContex] using effect

theorem cancelEvent_ok {fd : Int32} {event : Event} {reply answer : Bool}
    (returned : manager.cancelEvent fd event reply = .ok (next, answer)) :
    manager.Outcome (.cancelEvent fd event) reply next answer := by
  apply outcome_of_lookup returned rfl rfl
  intro id holds targetIs returned
  have requestIs : manager.requestOf (.cancelEvent fd event) =
      (manager.objects id).removeRequest id event := by
    simp [requestOf, targetIs, base]
  apply outcome_of_perform (by rw [requestIs]; exact returned)
  intro request made completed
  rcases fire_ok completed with ⟨armed, queued, rfl⟩
  have direction : event ≠ .NONE := by
    intro same
    subst same
    simp at armed
  have covers : (manager.objects id).Covers event.bits := by
    intro other reported
    rw [Mask.has_bits] at reported
    have same : event = other := by
      simpa using (Bool.and_eq_true_iff.mp reported).1
    exact same ▸ armed
  have fires : manager.Fires (.cancelEvent fd event) id event.bits := ⟨holds, rfl⟩
  have effect : manager.Effect request (.cancelEvent fd event) _ :=
    .fired fires covers ⟨event, by simp [Mask.has_bits, direction]⟩ queued
  rw [FdContex.firedBy_bits _ direction, Event.count_bits direction] at effect
  simpa [base, settle, setContex] using effect

theorem cancelAll_ok {fd : Int32} {reply answer : Bool}
    (returned : manager.cancelAll fd reply = .ok (next, answer)) :
    manager.Outcome (.cancelAll fd) reply next answer := by
  apply outcome_of_lookup returned rfl rfl
  intro id holds targetIs returned
  have requestIs : manager.requestOf (.cancelAll fd) =
      (manager.objects id).removeAllRequest id := by
    simp [requestOf, targetIs, base]
  apply outcome_of_perform (by rw [requestIs]; exact returned)
  intro request made completed
  rcases fireAll_ok completed (removeAllRequest_some (requestIs ▸ made)) with
    ⟨covers, readArmed, _, queued, rfl⟩
  have fires : manager.Fires (.cancelAll fd) id (manager.objects id).event :=
    ⟨holds, rfl⟩
  have effect : manager.Effect request (.cancelAll fd) _ :=
    .fired fires covers ⟨.READD, readArmed⟩ queued
  simpa [base, settle, setContex] using effect

theorem dispatch_ok {id : ContexId} {reported : Mask} {reply answer : Bool}
    (returned : manager.dispatch id reported reply = .ok (next, answer)) :
    manager.Outcome (.dispatch id reported) reply next answer := by
  have requestIs : manager.requestOf (.dispatch id reported) =
      (manager.objects id).dispatchRequest id reported := rfl
  rw [dispatch] at returned
  apply outcome_of_perform (by rw [requestIs]; exact returned)
  intro request made completed
  rcases fireReported_ok completed with ⟨covers, queued, rfl⟩
  have fires : manager.Fires (.dispatch id reported) id
      ((manager.objects id).realEvent reported) := ⟨rfl, rfl⟩
  have effect : manager.Effect request (.dispatch id reported) _ :=
    .fired fires covers (dispatchRequest_some (requestIs ▸ made)) queued
  simpa [base, settle, setContex] using effect

theorem execute_ok {call : Call Callback} {answer : Bool}
    (returned : manager.execute call = .ok (next, answer)) :
    manager.Outcome call.operation call.reply next answer := by
  rcases call with ⟨operation, reply⟩
  cases operation with
  | addEvent fd event cb caller => exact addEvent_ok returned
  | delEvent fd event => exact delEvent_ok returned
  | cancelEvent fd event => exact cancelEvent_ok returned
  | cancelAll fd => exact cancelAll_ok returned
  | dispatch id reported => exact dispatch_ok returned

end IOManager

end Sylar.Events
