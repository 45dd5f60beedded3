import Mathlib.Tactic.Common
import Sylar.Events.WellFormed

/-! # Registering again

A direction that has fired, been cancelled or been deleted is meant to be free
for the next registration. Neither `triggerEvent` nor `delEvent` frees it: the
one keeps the callback or the fiber in the slot, the other keeps the bit. So the
promise holds exactly along the runs that take nothing out of the table.
-/

namespace Sylar.Events

open Foundation Scheduling

namespace FdEvent

def Loaded (slot : FdEvent Callback) : Prop :=
  slot.cb.isSome = true ∨ slot.fiber.isSome = true

theorem Loaded.not_isEmpty {slot : FdEvent Callback} (loaded : slot.Loaded) :
    ¬slot.IsEmpty := by
  intro given
  rcases given with ⟨_, noCb, noFiber⟩
  simp [Loaded, noCb, noFiber] at loaded

theorem isEmpty_default : ({} : FdEvent Callback).IsEmpty := ⟨rfl, rfl, rfl⟩

end FdEvent

namespace FdContex

variable {Callback : Type} (contex : FdContex Callback)

theorem filled_slot {event : Event} (direction : event ≠ .NONE)
    (cb : Option Callback) (caller : Caller) (other : Event) :
    (contex.filled event cb caller).slot other =
      if other = event then
        { cb := cb
          fiber := if cb.isNone then some caller.fiber else none
          scheduler := caller.scheduler }
      else contex.slot other := by
  rw [filled, setSlot_slot _ direction]
  by_cases same : other = event
  · simp [same]
  · cases other <;> simp [same, slot]

theorem filled_loaded {event : Event} (direction : event ≠ .NONE)
    (cb : Option Callback) (caller : Caller) :
    ((contex.filled event cb caller).slot event).Loaded := by
  rw [filled_slot _ direction, if_pos rfl]
  cases cb with
  | none => exact Or.inr rfl
  | some callback => exact Or.inl rfl

end FdContex

/-! ## Registrations by the users' reckoning -/

/-- Which directions of which contexts have been registered and since then
neither fired nor been cancelled or deleted. -/
abbrev Registered := ContexId → Event → Bool

namespace IOManager

variable {Callback : Type} {manager next : IOManager Callback}

def takesOut (manager : IOManager Callback) (operation : Operation Callback)
    (id : ContexId) (event : Event) : Bool :=
  match operation with
  | .addEvent .. => false
  | .delEvent _ removed | .cancelEvent _ removed => decide (event = removed)
  | .cancelAll _ => true
  | .dispatch _ reported => ((manager.objects id).realEvent reported).has event

def putsIn (operation : Operation Callback) (event : Event) : Bool :=
  match operation with
  | .addEvent _ added _ _ => decide (event = added)
  | .delEvent .. | .cancelEvent .. | .cancelAll _ | .dispatch .. => false

def reckon (manager : IOManager Callback) (registered : Registered)
    (operation : Operation Callback) : Registered :=
  fun id event =>
    if manager.target operation = some id then
      putsIn operation event ||
        (registered id event && !manager.takesOut operation id event)
    else registered id event

def Emptied (manager : IOManager Callback) : Prop :=
  ∀ id ∈ manager.fdContexs, ∀ event, (manager.objects id).armed event = false →
    ((manager.objects id).slot event).IsEmpty

structure Reckoned (Callback : Type) where
  manager : IOManager Callback
  registered : Registered

def reckonedMachine : Machine (Reckoned Callback) (Call Callback) where
  step reckoned call :=
    match reckoned.manager.execute call with
    | .ok (next, answer) => some
        { manager := next
          registered :=
            if answer then reckoned.manager.reckon reckoned.registered call.operation
            else reckoned.registered }
    | .error _ => none

namespace Reckoned

def new : Reckoned Callback := { manager := IOManager.new, registered := fun _ _ => false }

/-- The slots of directions that are not armed are empty, and a direction that is
not registered is registered by the next `addEvent` the kernel accepts. -/
structure Rearmable (reckoned : Reckoned Callback) : Prop where
  emptied : reckoned.manager.Emptied
  accepts : ∀ fd id event cb caller, reckoned.manager.lookup fd = some id →
    event ≠ .NONE → reckoned.registered id event = false →
    caller.fiberState = .EXEC →
      ∃ next, reckoned.manager.addEvent fd event cb caller true = .ok (next, true)

/-- The call takes no armed direction out of a context of the table: it is a
registration, finds nothing armed, is refused by the kernel, or reports a context
that growth has replaced. -/
def Keeps (reckoned : Reckoned Callback) (call : Call Callback) : Prop :=
  match call.operation with
  | .addEvent .. => True
  | .delEvent .. | .cancelEvent .. | .cancelAll _ | .dispatch .. =>
      reckoned.manager.requestOf call.operation = none ∨ call.reply = false ∨
        ∃ id, reckoned.manager.target call.operation = some id ∧
          id ∉ reckoned.manager.fdContexs

/-- What the runs that take nothing out keep: the reckoning is the armed bits,
and armed directions have something to hand over. -/
structure Reckons (reckoned : Reckoned Callback) : Prop where
  formed : reckoned.manager.WellFormed
  exact : ∀ id event, reckoned.registered id event =
    (reckoned.manager.objects id).armed event
  loaded : ∀ id event, (reckoned.manager.objects id).armed event = true →
    ((reckoned.manager.objects id).slot event).Loaded

end Reckoned

theorem arm_succeeds {id : ContexId} {event : Event} {cb : Option Callback}
    {caller : Caller} (direction : event ≠ .NONE)
    (empty : ((manager.objects id).slot event).IsEmpty)
    (executing : caller.fiberState = .EXEC) :
    ∃ next, manager.arm id event cb caller = .ok next := by
  have set := FdContex.armed_withBits (manager.objects id) direction
  have sameSlot := FdContex.slot_withBits (manager.objects id) event
  rcases empty with ⟨noScheduler, noCb, noFiber⟩
  simp only [arm, FdContex.getEventConetx, set, if_true, sameSlot, noScheduler, noCb,
    noFiber]
  cases cb with
  | none => simp [executing]
  | some callback => simp

theorem addEvent_succeeds {fd : Int32} {id : ContexId} {event : Event}
    {cb : Option Callback} {caller : Caller} (found : manager.lookup fd = some id)
    (direction : event ≠ .NONE) (unarmed : (manager.objects id).armed event = false)
    (empty : ((manager.objects id).slot event).IsEmpty)
    (executing : caller.fiberState = .EXEC) :
    ∃ next, manager.addEvent fd event cb caller true = .ok (next, true) := by
  rcases lookup_eq_some.mp found with ⟨inside, holds⟩
  have grew : manager.grow fd = .ok manager := by
    simp [grow, inside]
  have request : ∃ request, (manager.objects id).addRequest id event = some request := by
    simp [FdContex.addRequest, unarmed]
  rcases request with ⟨request, made⟩
  have armed : ∃ next,
      arm { manager with epoll := request.apply manager.epoll } id event cb caller =
        .ok next :=
    arm_succeeds direction empty executing
  rcases armed with ⟨next, armed⟩
  refine ⟨next, bind_eq_ok.mpr ⟨manager, grew, ?_⟩⟩
  refine bind_eq_ok.mpr ⟨id, contexAt_ok.mpr holds, ?_⟩
  simp only [made, perform, if_true, armed]
  rfl

theorem addEvent_refused {fd : Int32} {id : ContexId} {event : Event}
    {cb : Option Callback} {caller : Caller} (found : manager.lookup fd = some id)
    (armed : (manager.objects id).armed event = true) :
    ¬∃ next, manager.addEvent fd event cb caller true = .ok (next, true) := by
  intro given
  rcases given with ⟨next, returned⟩
  rcases lookup_eq_some.mp found with ⟨inside, holds⟩
  have grown : manager.grown fd = manager := by
    simp [grown, inside]
  rcases addEvent_ok returned with ⟨impossible, _⟩ | ⟨_, _, request, _, effect⟩
  · cases impossible
  · cases effect with
    | @registered _ _ _ _ other holdsOther direction unarmed empty callable =>
        rw [grown] at holdsOther unarmed
        rw [holds.inj holdsOther, unarmed] at armed
        cases armed
    | @fired _ _ _ fires => exact fires.elim

/-! ## Growth -/

theorem grown_object_cases (manager : IOManager Callback) (fd : Int32) (id : ContexId) :
    (manager.grown fd).objects id = manager.objects id ∨
      manager.allocated ≤ id ∧ ∃ number : Int32,
        (manager.grown fd).objects id = { fd := number } := by
  rw [grown]
  by_cases outside : manager.beyond fd = true
  · simp only [outside, if_true, fdContexResize]
    split
    · rename_i range
      exact Or.inr ⟨range.1, _, rfl⟩
    · exact Or.inl rfl
  · simp [outside]

theorem new_armed (number : Int32) (event : Event) :
    ({ fd := number } : FdContex Callback).armed event = false := by
  simp [FdContex.armed, Mask.has, Event.bits]

theorem Emptied.grown {manager : IOManager Callback} (emptied : manager.Emptied)
    (fd : Int32) : (manager.grown fd).Emptied := by
  rw [IOManager.grown]
  by_cases outside : manager.beyond fd = true
  · rw [if_pos outside]
    intro id member event _
    rw [fdContexResize_object member]
    cases event <;> exact FdEvent.isEmpty_default
  · rw [if_neg outside]
    exact emptied

namespace Reckoned

variable {reckoned following : Reckoned Callback}

/-- With the reckoning in order, registrations succeed as soon as the slots of
unarmed directions are empty. -/
theorem Reckons.rearmable (reckons : reckoned.Reckons)
    (emptied : reckoned.manager.Emptied) : reckoned.Rearmable where
  emptied := emptied
  accepts fd id event cb caller found direction unregistered executing := by
    have unarmed := (reckons.exact id event).symm.trans unregistered
    have member := (lookup_eq_some.mp found).2.mem
    exact addEvent_succeeds found direction unarmed (emptied id member event unarmed)
      executing

theorem new_reckons : (new : Reckoned Callback).Reckons where
  formed := new_wellFormed
  exact _ event := by simp [new, IOManager.new, FdContex.armed, Mask.has, Event.bits]
  loaded _ event armed := by
    simp [new, IOManager.new, FdContex.armed, Mask.has, Event.bits] at armed

theorem new_rearmable : (new : Reckoned Callback).Rearmable :=
  new_reckons.rearmable fun _ member => absurd member List.not_mem_nil

theorem reckonedMachine_step {call : Call Callback}
    (stepped : reckonedMachine.step reckoned call = some following) :
    ∃ answer, reckoned.manager.Outcome call.operation call.reply following.manager answer ∧
      following.registered =
        if answer then reckoned.manager.reckon reckoned.registered call.operation
        else reckoned.registered := by
  simp only [reckonedMachine] at stepped
  generalize executed : reckoned.manager.execute call = outcome at stepped
  cases outcome with
  | error fault => cases stepped
  | ok outcome =>
      cases stepped
      exact ⟨outcome.2, execute_ok executed, rfl⟩

theorem Reckons.grown (reckons : reckoned.Reckons) (fd : Int32) :
    ({ reckoned with manager := reckoned.manager.grown fd } :
      Reckoned Callback).Reckons where
  formed := reckons.formed.grown fd
  exact id event := by
    rcases grown_object_cases reckoned.manager fd id with same | ⟨fresh, number, new⟩
    · rw [same]
      exact reckons.exact id event
    · have clear := reckons.formed.fresh id fresh
      rw [new, new_armed, reckons.exact id event]
      simp [FdContex.armed, clear, Mask.has]
  loaded id event armed := by
    rcases grown_object_cases reckoned.manager fd id with same | ⟨_, number, new⟩
    · rw [same] at armed ⊢
      exact reckons.loaded id event armed
    · rw [new, new_armed] at armed
      cases armed

/-! ## Steps -/

theorem Reckons.registered (reckons : reckoned.Reckons)
    (emptied : reckoned.manager.Emptied) {fd : Int32} {event : Event}
    {cb : Option Callback} {caller : Caller} {id : ContexId} {request : EpollRequest}
    (holds : reckoned.manager.Holds fd id) (isDirection : event ≠ .NONE)
    (pendingEventSize : UInt64) (registered : Registered)
    (reckoning : ∀ other direction, registered other direction =
      if other = id then decide (direction = event) || reckoned.registered id direction
      else reckoned.registered other direction) :
    let settled : Reckoned Callback :=
      { manager := reckoned.manager.settle request id
          ((reckoned.manager.objects id).filled event cb caller) pendingEventSize []
        registered }
    settled.Reckons ∧ settled.manager.Emptied := by
  intro settled
  have formed := reckons.formed
  refine ⟨⟨?_, ?_, ?_⟩, ?_⟩
  · exact formed.settle (formed.allocated id holds.mem)
      (FdContex.filled_legal _ (formed.legal id) event cb caller)
      (FdContex.filled_fd _ event cb caller) ..
  · intro other direction
    by_cases same : other = id
    · subst same
      simp [settled, reckoning, reckons.exact, isDirection, eq_comm]
    · simp [settled, reckoning, reckons.exact, same]
  · intro other direction armed
    by_cases same : other = id
    · subst same
      simp only [settled, settle_objects, Function.update_self] at armed ⊢
      by_cases added : direction = event
      · subst added
        exact FdContex.filled_loaded _ isDirection cb caller
      · rw [FdContex.filled_slot _ isDirection, if_neg added]
        rw [FdContex.filled_armed] at armed
        exact reckons.loaded other direction (by simpa [Ne.symm added] using armed)
    · simp only [settled, settle_objects, Function.update_of_ne same] at armed ⊢
      exact reckons.loaded other direction armed
  · intro other member direction unarmed
    by_cases same : other = id
    · subst same
      simp only [settled, settle_objects, Function.update_self,
        FdContex.filled_armed, Bool.or_eq_false_iff] at unarmed ⊢
      have notAdded : direction ≠ event := by
        intro same
        subst same
        simp [isDirection] at unarmed
      rw [FdContex.filled_slot _ isDirection, if_neg notAdded]
      exact emptied other member direction unarmed.2
    · simp only [settled, settle_objects, Function.update_of_ne same] at unarmed ⊢
      exact emptied other member direction unarmed

/-- Firing in a context outside the table keeps the reckoning in order and the
table's empty slots empty. -/
theorem Reckons.firedOutside (reckons : reckoned.Reckons)
    (emptied : reckoned.manager.Emptied) {id : ContexId} {mask : Mask}
    {request : EpollRequest} (outside : id ∉ reckoned.manager.fdContexs)
    (old : id < reckoned.manager.allocated) (pendingEventSize : UInt64)
    (queued : List (SchedulerId × Work Callback)) (registered : Registered)
    (reckoning : ∀ other direction, registered other direction =
      if other = id then reckoned.registered id direction && !mask.has direction
      else reckoned.registered other direction) :
    let settled : Reckoned Callback :=
      { manager := reckoned.manager.settle request id
          ((reckoned.manager.objects id).firedBy mask) pendingEventSize queued
        registered }
    settled.Reckons ∧ settled.manager.Emptied := by
  intro settled
  have formed := reckons.formed
  refine ⟨⟨?_, ?_, ?_⟩, ?_⟩
  · exact formed.settle old (FdContex.firedBy_legal _ (formed.legal id) mask)
      (FdContex.firedBy_fd _ mask) ..
  · intro other direction
    by_cases same : other = id
    · subst same
      simp [settled, reckoning, reckons.exact]
    · simp [settled, reckoning, reckons.exact, same]
  · intro other direction armed
    by_cases same : other = id
    · subst same
      simp only [settled, settle_objects, Function.update_self, FdContex.firedBy_armed,
        Bool.and_eq_true, Bool.not_eq_true'] at armed ⊢
      rw [FdContex.firedBy_slot, if_neg (by simp [armed.2])]
      exact reckons.loaded other direction armed.1
    · simp only [settled, settle_objects, Function.update_of_ne same] at armed ⊢
      exact reckons.loaded other direction armed
  · intro other member direction unarmed
    have apart : other ≠ id := ne_of_mem_of_not_mem member outside
    simp only [settled, settle_objects, Function.update_of_ne apart] at unarmed ⊢
    exact emptied other member direction unarmed

theorem not_rearmable_deleted {fd : Int32} (event : Event) {id : ContexId}
    (found : following.manager.lookup fd = some id)
    (armed : (following.manager.objects id).armed event = true)
    (unregistered : following.registered id event = false) :
    ¬following.Rearmable := by
  intro rearmable
  have isDirection : event ≠ .NONE := by
    intro same
    subst same
    simp at armed
  exact addEvent_refused found armed
    (rearmable.accepts fd id event none { scheduler := none, fiber := 0 } found
      isDirection unregistered rfl)

theorem not_rearmable_fired (reckons : reckoned.Reckons) {id : ContexId} {mask : Mask}
    (member : id ∈ following.manager.fdContexs)
    (objectIs : following.manager.objects id =
      (reckoned.manager.objects id).firedBy mask)
    (covers : (reckoned.manager.objects id).Covers mask)
    (something : ∃ event, mask.has event = true) : ¬following.Rearmable := by
  intro rearmable
  rcases something with ⟨event, reported⟩
  have unarmed : (following.manager.objects id).armed event = false := by
    rw [objectIs, FdContex.firedBy_armed, reported]
    simp
  have empty := rearmable.emptied id member event unarmed
  rw [objectIs, FdContex.firedBy_slot, if_pos reported] at empty
  have stillLoaded : FdEvent.Loaded
      { (reckoned.manager.objects id).slot event with scheduler := none } :=
    reckons.loaded id event (covers event reported)
  exact stillLoaded.not_isEmpty empty

theorem not_keeps {operation : Operation Callback} {request : EpollRequest}
    {id : ContexId}
    (noRegistration : ∀ fd event cb caller, operation ≠ .addEvent fd event cb caller)
    (made : reckoned.manager.requestOf operation = some request)
    (targetIs : reckoned.manager.target operation = some id)
    (member : id ∈ reckoned.manager.fdContexs) :
    ¬reckoned.Keeps { operation, reply := true } := by
  intro keeps
  have alternatives : reckoned.manager.requestOf operation = none ∨ true = false ∨
      ∃ other, reckoned.manager.target operation = some other ∧
        other ∉ reckoned.manager.fdContexs := by
    cases operation with
    | addEvent fd event cb caller => exact absurd rfl (noRegistration fd event cb caller)
    | delEvent | cancelEvent | cancelAll | dispatch => exact keeps
  rcases alternatives with silent | refused | ⟨other, otherIs, outside⟩
  · rw [silent] at made
    cases made
  · cases refused
  · rw [targetIs] at otherIs
    cases otherIs
    exact outside member

/-- A step whose request the kernel accepts keeps the promise exactly if it takes
nothing out of the table. -/
theorem effect_rearmable {request : EpollRequest} {operation : Operation Callback}
    (effect : reckoned.manager.Effect request operation following.manager)
    (made : reckoned.manager.requestOf operation = some request)
    (reckoning : following.registered =
      reckoned.manager.reckon reckoned.registered operation)
    (reckons : reckoned.Reckons) (emptied : reckoned.manager.Emptied) :
    (reckoned.Keeps { operation, reply := true } →
        following.Reckons ∧ following.manager.Emptied) ∧
      (¬reckoned.Keeps { operation, reply := true } → ¬following.Rearmable) := by
  rcases following with ⟨manager, registered⟩
  rcases Option.bind_eq_some_iff.mp made with ⟨found, targetIs, requested⟩
  simp only at effect reckoning
  cases effect with
  | @registered fd event cb caller id holds direction unarmed empty callable =>
      refine ⟨fun _ => ?_, fun broken => absurd trivial broken⟩
      cases holds.inj (toOption_contexAt_eq_some.mp targetIs)
      refine (reckons.grown fd).registered (IOManager.Emptied.grown emptied fd) holds
        direction _ _ ?_
      intro other direction
      rw [reckoning, reckon, targetIs]
      by_cases same : other = found
      · simp [same, putsIn, takesOut]
      · simp [same, Ne.symm same]
  | @deleted fd event id holds armed =>
      cases holds.inj (lookup_eq_some.mp targetIs).2
      have broken := not_keeps (by simp) made targetIs holds.mem
      refine ⟨fun keeps => absurd keeps broken,
        fun _ => not_rearmable_deleted event targetIs ?_ ?_⟩
      · simp only [settle_objects, Function.update_self, FdContex.armed]
        rw [FdContex.deleted_event_of_armed _ armed]
        exact armed
      · simp [reckoning, reckon, targetIs, putsIn, takesOut]
  | @fired operation id mask fires covers something queued =>
      cases fires.target_eq targetIs
      by_cases member : found ∈ reckoned.manager.fdContexs
      · have noRegistration (fd : Int32) (event : Event) (cb : Option Callback)
            (caller : Caller) : operation ≠ .addEvent fd event cb caller := by
          intro same
          subst same
          exact fires
        have broken := not_keeps noRegistration made targetIs member
        refine ⟨fun keeps => absurd keeps broken,
          fun _ => not_rearmable_fired reckons member ?_ covers something⟩
        simp
      · cases operation with
        | addEvent | delEvent => exact fires.elim
        | cancelEvent | cancelAll => exact absurd fires.1.mem member
        | dispatch reportedId reported =>
            rcases something with ⟨event, isReported⟩
            have old := reckons.formed.lt_of_armed (covers event isReported)
            refine ⟨fun _ => reckons.firedOutside emptied member old _ _ _ ?_,
              fun broken => absurd (Or.inr (Or.inr ⟨found, targetIs, member⟩)) broken⟩
            intro other direction
            rw [reckoning, reckon, targetIs]
            by_cases same : other = found
            · simp [same, putsIn, takesOut, fires.2]
            · simp [same, Ne.symm same]

theorem refused_rearmable {call : Call Callback}
    (refused : reckoned.manager.requestOf call.operation = none ∨ call.reply = false) :
    reckoned.Keeps call := by
  rcases call with ⟨operation, reply⟩
  cases operation with
  | addEvent => trivial
  | delEvent | cancelEvent | cancelAll | dispatch =>
      exact refused.elim Or.inl fun refusal => Or.inr (Or.inl refusal)

theorem step_rearmable {call : Call Callback}
    (stepped : reckonedMachine.step reckoned call = some following)
    (reckons : reckoned.Reckons) (emptied : reckoned.manager.Emptied) :
    (reckoned.Keeps call → following.Reckons ∧ following.manager.Emptied) ∧
      (¬reckoned.Keeps call → ¬following.Rearmable) := by
  rcases reckonedMachine_step stepped with ⟨answer, outcome, reckoning⟩
  rcases outcome with ⟨rfl, same, refused⟩ | ⟨rfl, replied, request, made, effect⟩
  · refine ⟨fun _ => ?_, fun broken => absurd (refused_rearmable refused) broken⟩
    rcases following with ⟨manager, registered⟩
    simp only [Bool.false_eq_true, if_false] at same reckoning
    subst same reckoning
    cases operationIs : call.operation with
    | addEvent fd event cb caller =>
        exact ⟨reckons.grown fd, IOManager.Emptied.grown emptied fd⟩
    | delEvent | cancelEvent | cancelAll | dispatch => exact ⟨reckons, emptied⟩
  · rcases call with ⟨operation, reply⟩
    simp only at replied
    subst replied
    exact effect_rearmable effect made reckoning reckons emptied

/-- Every direction that is not registered can be registered, in every state of a
run, exactly if no step of it takes an armed direction out of the table. -/
theorem rearmable_always (calls : List (Call Callback)) :
    reckonedMachine.Always Rearmable new calls ↔
      reckonedMachine.StepsMeet Keeps new calls := by
  refine Machine.always_iff_stepsMeet Reckons ?_ ?_ new_reckons new_rearmable calls
  · intro reckoned call following reckons rearmable keeps stepped
    exact ((step_rearmable stepped reckons rearmable.emptied).1 keeps).1
  · intro reckoned call following reckons rearmable stepped
    have either := step_rearmable stepped reckons rearmable.emptied
    constructor
    · exact fun held => by_contra fun broken => either.2 broken held
    · intro keeps
      rcases either.1 keeps with ⟨reckonsAfter, emptiedAfter⟩
      exact reckonsAfter.rearmable emptiedAfter

/-- A cancelled read event leaves its callback in the slot. -/
theorem rearmable_always_fails :
    ¬(reckonedMachine : Machine (Reckoned Unit) (Call Unit)).Always Rearmable new
      [{ operation := .addEvent 3 .READD (some ()) { scheduler := some 0, fiber := 0 } },
       { operation := .cancelEvent 3 .READD }] := by
  intro always
  have emptied := (always.last rfl).emptied
  have empty := emptied 3 (by decide) .READD (by decide)
  exact absurd empty.2.1 (by decide)

end Reckoned

end IOManager

end Sylar.Events
