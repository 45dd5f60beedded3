import Sylar.Events.Assertions
import Sylar.Events.Delivery

/-! # The scheduler a slot points to

`addEvent` stores the current scheduler of the calling thread, a thread-local pointer, and
`triggerEvent` follows it later on another thread. A thread that runs no scheduler has none.
-/

namespace Sylar.Events

open Foundation Scheduling

theorem FdEvent.handOver_cases (slot : FdEvent Callback) :
    slot.Deliverable ∧ (slot.Loaded → slot.scheduler.isSome = true) ∨
      slot.handOver = .error nullFault ∧ slot.Loaded ∧ slot.scheduler = none := by
  rcases slot with ⟨cb, fiber, scheduler⟩
  cases cb <;> cases fiber <;> cases scheduler <;>
    simp [Deliverable, handOver, Loaded, nullFault]

theorem FdEvent.deliverable_iff (slot : FdEvent Callback) :
    slot.Deliverable ↔ (slot.Loaded → slot.scheduler.isSome = true) := by
  rcases slot.handOver_cases with ⟨deliverable, served⟩ | ⟨failed, loaded, absent⟩
  · exact iff_of_true deliverable served
  · refine iff_of_false ?_ (by simp [loaded, absent])
    rintro ⟨queued, handedOver⟩
    rw [failed] at handedOver
    cases handedOver

namespace FdContex

variable {Callback : Type} (contex : FdContex Callback)

def Serves : Prop :=
  ∀ event, contex.armed event = true → (contex.slot event).Deliverable

variable {contex}

theorem new_serves (number : Int32) : ({ fd := number } : FdContex Callback).Serves := by
  intro event armed
  rw [IOManager.new_armed] at armed
  cases armed

theorem Serves.filled (serves : contex.Serves) {event : Event} (direction : event ≠ .NONE)
    {cb : Option Callback} {caller : Caller} (served : caller.scheduler.isSome = true) :
    (contex.filled event cb caller).Serves := by
  intro other armed
  rw [filled_slot _ direction]
  by_cases same : other = event
  · rw [if_pos same, FdEvent.deliverable_iff]
    exact fun _ => served
  · rw [if_neg same]
    apply serves other
    simpa [Ne.symm same] using armed

theorem Serves.deleted (serves : contex.Serves) {event : Event}
    (armed : contex.armed event = true) : (contex.deleted event).Serves := by
  have direction : event ≠ .NONE := by
    rintro rfl
    simp at armed
  intro other otherArmed
  rw [deleted_slot _ direction]
  by_cases same : other = event
  · rw [if_pos same, FdEvent.deliverable_iff]
    exact fun loaded => absurd FdEvent.isEmpty_default loaded.not_isEmpty
  · rw [if_neg same]
    apply serves other
    rwa [deleted_armed_of_armed _ armed] at otherArmed

theorem Serves.firedBy (serves : contex.Serves) (mask : Mask) :
    (contex.firedBy mask).Serves := by
  intro event armed
  rw [firedBy_armed, Bool.and_eq_true, Bool.not_eq_true'] at armed
  rw [firedBy_slot, if_neg (by simp [armed.2])]
  exact serves event armed.1

end FdContex

namespace IOManager

variable {Callback : Type} {manager next : IOManager Callback}

/-! ## Firing follows no null pointer -/

def Serves (manager : IOManager Callback) : Prop :=
  ∀ id, (manager.objects id).Serves

theorem Serves.update (serves : manager.Serves) {id : ContexId} {contex : FdContex Callback}
    (objects : next.objects = Function.update manager.objects id contex)
    (here : contex.Serves) : next.Serves := by
  intro other
  rw [objects]
  by_cases same : other = id
  · subst same
    rwa [Function.update_self]
  · rw [Function.update_of_ne same]
    exact serves other

theorem Serves.grown (serves : manager.Serves) (fd : Int32) : (manager.grown fd).Serves := by
  intro id
  rcases grown_object_cases manager fd id with same | ⟨-, number, isNew⟩
  · rw [same]
    exact serves id
  · rw [isNew]
    exact FdContex.new_serves number

theorem Serves.base (serves : manager.Serves) (operation : Operation Callback) :
    (manager.base operation).Serves := by
  cases operation with
  | addEvent fd event cb caller => exact serves.grown fd
  | delEvent | cancelEvent | cancelAll | dispatch => exact serves

theorem Serves.fire_ne (serves : manager.Serves) (id : ContexId) (event : Event) :
    manager.fire id event ≠ .error nullFault := by
  intro failed
  by_cases armed : (manager.objects id).armed event = true
  · rcases (fire_returns armed).mpr (serves id event armed) with ⟨next, fired⟩
    rw [fired] at failed
    cases failed
  · rw [fire_error_iff.mpr (by simpa using armed)] at failed
    cases failed

theorem Serves.fire (serves : manager.Serves) {id : ContexId} {event : Event}
    (fired : manager.fire id event = .ok next) : next.Serves := by
  rcases fire_ok fired with ⟨armed, queued, rfl⟩
  have direction : event ≠ .NONE := by
    rintro rfl
    simp at armed
  have here := (serves id).firedBy event.bits
  rw [FdContex.firedBy_bits _ direction] at here
  exact serves.update rfl here

theorem Serves.fireIf_ne (serves : manager.Serves) {chosen : Prop} [Decidable chosen]
    (id : ContexId) (event : Event) :
    (if chosen then manager.fire id event else .ok manager) ≠ .error nullFault := by
  split
  · exact serves.fire_ne id event
  · simp

theorem Serves.fireIf (serves : manager.Serves) {chosen : Prop} [Decidable chosen]
    {id : ContexId} {event : Event}
    (fired : (if chosen then manager.fire id event else .ok manager) = .ok next) :
    next.Serves := by
  split at fired
  · exact serves.fire fired
  · cases fired
    exact serves

theorem Serves.fireReported_ne (serves : manager.Serves) (id : ContexId) (mask : Mask) :
    manager.fireReported id mask ≠ .error nullFault := by
  intro failed
  rcases bind_eq_error.mp failed with first | ⟨middle, first, second⟩
  · exact serves.fireIf_ne id .READD first
  · exact (serves.fireIf first).fireIf_ne id .WRITE second

theorem Serves.fireAll_ne (serves : manager.Serves) (id : ContexId) :
    manager.fireAll id ≠ .error nullFault := by
  intro failed
  rcases bind_eq_error.mp failed with first | ⟨middle, first, rest⟩
  · exact serves.fireIf_ne id .READD first
  · rcases bind_eq_error.mp rest with second | ⟨last, -, asserted⟩
    · exact (serves.fireIf first).fireIf_ne id .WRITE second
    · split at asserted <;> cases asserted

def NeverNull (manager : IOManager Callback) : Prop :=
  ∀ call, manager.execute call ≠ .error nullFault

theorem Serves.neverNull (serves : manager.Serves) : manager.NeverNull := by
  intro call failed
  rcases call with ⟨operation, reply⟩
  have isTrigger : nullFault.OfTrigger := Or.inr rfl
  have served (epoll : Interest) : ({ manager with epoll := epoll } :
      IOManager Callback).Serves := serves
  cases operation with
  | addEvent fd event cb caller => exact addEvent_ne isTrigger fd event cb caller reply failed
  | delEvent fd event => exact delEvent_ne isTrigger fd event reply failed
  | cancelEvent fd event =>
      rcases (lookup_error_iff isTrigger).mp failed with ⟨id, -, failed⟩
      rcases perform_error_iff.mp failed with ⟨-, request, -, firing⟩
      exact (served _).fire_ne id event firing
  | cancelAll fd =>
      rcases (lookup_error_iff isTrigger).mp failed with ⟨id, -, failed⟩
      rcases perform_error_iff.mp failed with ⟨-, request, -, firing⟩
      exact (served _).fireAll_ne id firing
  | dispatch id reported =>
      simp only [execute, dispatch] at failed
      rcases perform_error_iff.mp failed with ⟨-, request, -, firing⟩
      exact (served _).fireReported_ne id _ firing

theorem Serves.effect (serves : manager.Serves) {request : EpollRequest}
    {operation : Operation Callback} (effect : manager.Effect request operation next)
    (served : ∀ fd event cb caller, operation = .addEvent fd event cb caller →
      caller.scheduler.isSome = true) : next.Serves := by
  cases effect with
  | @registered fd event cb caller id _ direction _ _ _ =>
      exact (serves.grown fd).update rfl
        ((serves.grown fd id).filled direction (served fd event cb caller rfl))
  | @deleted _ _ id _ armed => exact serves.update rfl ((serves id).deleted armed)
  | @fired _ id mask _ _ _ _ => exact serves.update rfl ((serves id).firedBy mask)

theorem dispatch_null {id : ContexId} {event : Event}
    (armed : (manager.objects id).armed event = true)
    (loaded : ((manager.objects id).slot event).Loaded)
    (absent : ((manager.objects id).slot event).scheduler = none) :
    manager.execute { operation := .dispatch id event.bits } = .error nullFault := by
  have direction : event ≠ .NONE := by
    rintro rfl
    simp at armed
  have realIs : (manager.objects id).realEvent event.bits = event.bits := by
    cases event with
    | NONE => exact absurd rfl direction
    | READD => simp [FdContex.realEvent, FdContex.reportedEvents, Event.bits, EPOLLHUP, EPOLLERR,
        EPOLLIN, EPOLLOUT]
    | WRITE => simp [FdContex.realEvent, FdContex.reportedEvents, Event.bits, EPOLLHUP, EPOLLERR,
        EPOLLIN, EPOLLOUT]
  have concerned : (manager.objects id).event &&& event.bits ≠ 0#32 := by
    rw [FdContex.armed, Mask.has, BitVec.and_comm] at armed
    simpa using armed
  have undelivered : ¬((manager.objects id).slot event).Deliverable := by
    rw [FdEvent.deliverable_iff]
    simp [loaded, absent]
  have handed : ((manager.objects id).slot event).handOver = .error nullFault := by
    rcases ((manager.objects id).slot event).handOver_cases with ⟨deliverable, -⟩ | ⟨failed, -⟩
    · exact absurd deliverable undelivered
    · exact failed
  have triggered : (manager.objects id).triggerEvent event = .error nullFault := by
    simp only [FdContex.triggerEvent, FdContex.getEventConetx, armed, if_true]
    exact bind_eq_error.mpr (Or.inr ⟨_, rfl, bind_eq_error.mpr (Or.inl handed)⟩)
  have fails (epoll : Interest) : fireReported { manager with epoll := epoll } id event.bits =
      .error nullFault := by
    have firing : fire { manager with epoll := epoll } id event = .error nullFault := by
      rw [fire, triggered]
    cases event with
    | NONE => exact absurd rfl direction
    | READD => exact bind_eq_error.mpr (Or.inl firing)
    | WRITE => exact bind_eq_error.mpr (Or.inr ⟨_, rfl, firing⟩)
  have requested : ∃ request,
      (manager.objects id).dispatchRequest id event.bits = some request := by
    rw [FdContex.dispatchRequest, realIs, if_neg (by simpa [Event.bits] using concerned)]
    exact ⟨_, rfl⟩
  rcases requested with ⟨request, made⟩
  simp only [execute, dispatch, realIs]
  exact perform_error_iff.mpr ⟨rfl, request, made, fails _⟩

/-! ## Threads and their schedulers -/

/-- The operation as a thread calls it, whose current scheduler `addEvent` reads. -/
def Operation.calledWith (current : Option SchedulerId) :
    Operation Callback → Operation Callback
  | .addEvent fd event cb caller => .addEvent fd event cb { caller with scheduler := current }
  | operation => operation

structure Process (Callback : Type) where
  current : ThreadId → Option SchedulerId
  manager : IOManager Callback

inductive Act (Callback : Type)
  | construct (thread : ThreadId) (scheduler : SchedulerId) (useCaller : Bool)
  | setThis (thread : ThreadId) (scheduler : SchedulerId)
  | destroy (thread : ThreadId) (scheduler : SchedulerId)
  | call (thread : ThreadId) (call : Call Callback)

namespace Process

variable {Callback : Type} {process next : Process Callback}

/-- Before any manager operation, with whatever schedulers the threads have. -/
def start (current : ThreadId → Option SchedulerId) : Process Callback :=
  { current := current, manager := .new }

def setCurrent (process : Process Callback) (thread : ThreadId)
    (scheduler : Option SchedulerId) : Process Callback :=
  { process with current := Function.update process.current thread scheduler }

def issued (process : Process Callback) (thread : ThreadId) (call : Call Callback) :
    Call Callback :=
  { call with operation := call.operation.calledWith (process.current thread) }

/-- The constructor asserts that a caller it is to use has no scheduler yet, and a worker sets
its scheduler when it enters `run`. -/
def machine : Machine (Process Callback) (Act Callback) where
  step process
    | .construct thread scheduler useCaller =>
        if useCaller then
          if (process.current thread).isSome then none
          else some (process.setCurrent thread (some scheduler))
        else some process
    | .setThis thread scheduler => some (process.setCurrent thread (some scheduler))
    | .destroy thread scheduler =>
        if process.current thread = some scheduler then some (process.setCurrent thread none)
        else some process
    | .call thread call =>
        match process.manager.execute (process.issued thread call) with
        | .ok (manager, _) => some { process with manager := manager }
        | .error _ => none

/-- Whatever is called next, `triggerEvent` follows no null pointer. -/
def NeverNull (process : Process Callback) : Prop :=
  process.manager.NeverNull

/-- An `addEvent` whose request the kernel accepts comes from a thread with a scheduler. -/
def FromScheduler (process : Process Callback) : Act Callback → Prop
  | .call thread { operation := .addEvent fd event cb caller, reply := true } =>
      (process.manager.requestOf (.addEvent fd event cb caller)).isSome = true →
        (process.current thread).isSome = true
  | _ => True

theorem machine_call {thread : ThreadId} {call : Call Callback}
    (stepped : machine.step process (.call thread call) = some next) :
    ∃ manager answer, process.manager.execute (process.issued thread call) =
      .ok (manager, answer) ∧ next = { process with manager := manager } := by
  simp only [machine] at stepped
  split at stepped
  · next manager answer returned =>
      cases stepped
      exact ⟨manager, answer, returned, rfl⟩
  · cases stepped

theorem machine_manager {act : Act Callback} (stepped : machine.step process act = some next)
    (noCall : ∀ thread call, act ≠ .call thread call) : next.manager = process.manager := by
  cases act with
  | call thread call => exact absurd rfl (noCall thread call)
  | setThis thread scheduler =>
      cases stepped
      rfl
  | construct thread scheduler useCaller =>
      simp only [machine] at stepped
      split at stepped
      · split at stepped <;> cases stepped
        rfl
      · cases stepped
        rfl
  | destroy thread scheduler =>
      simp only [machine] at stepped
      split at stepped <;> cases stepped <;> rfl

theorem serves_step {act : Act Callback} (serves : process.manager.Serves)
    (stepped : machine.step process act = some next) (met : process.FromScheduler act) :
    next.manager.Serves := by
  cases act with
  | construct | setThis | destroy =>
      rw [machine_manager stepped (by simp)]
      exact serves
  | call thread call =>
      rcases call with ⟨operation, reply⟩
      rcases machine_call stepped with ⟨manager, answer, returned, rfl⟩
      rcases execute_ok returned with ⟨-, same, -⟩ | ⟨-, replied, request, made, effect⟩
      · rw [same]
        exact serves.base _
      · apply serves.effect effect
        intro fd event cb caller isAdd
        cases operation with
        | delEvent | cancelEvent | cancelAll | dispatch => cases isAdd
        | addEvent otherFd otherEvent otherCb otherCaller =>
            cases isAdd
            cases replied
            exact met (by rw [Option.isSome_iff_exists]; exact ⟨request, made⟩)

theorem fromScheduler_of_neverNull {act : Act Callback}
    (stepped : machine.step process act = some next) (never : next.NeverNull) :
    process.FromScheduler act := by
  cases act with
  | construct | setThis | destroy => trivial
  | call thread call =>
      rcases call with ⟨operation, reply⟩
      cases operation with
      | delEvent | cancelEvent | cancelAll | dispatch => trivial
      | addEvent fd event cb caller =>
          cases reply with
          | false => trivial
          | true =>
              intro accepted
              by_contra absent
              rcases machine_call stepped with ⟨manager, answer, returned, rfl⟩
              rcases execute_ok returned with ⟨-, -, refused⟩ | ⟨-, -, request, -, effect⟩
              · rcases refused with noRequest | impossible
                · rw [show process.manager.requestOf (.addEvent fd event cb caller) = none
                    from noRequest] at accepted
                  cases accepted
                · cases impossible
              · cases effect with
                | fired fires => exact fires.elim
                | @registered _ _ _ _ id _ direction _ _ _ =>
                    have noScheduler : process.current thread = none := by simpa using absent
                    apply never
                    refine @dispatch_null _ _ id event ?_ ?_ ?_
                    · simp [direction]
                    · simpa using FdContex.filled_loaded _ direction cb _
                    · simp [FdContex.filled_slot _ direction, noScheduler]

/-- Triggering never follows a null pointer in a run if and only if all accepted `addEvent` calls
of the run come from threads that have a current scheduler. -/
theorem neverNull_iff (current : ThreadId → Option SchedulerId) (acts : List (Act Callback)) :
    machine.Always NeverNull (start current) acts ↔
      machine.StepsMeet FromScheduler (start current) acts := by
  apply Machine.always_iff_stepsMeet fun process => process.manager.Serves
  · intro process act next serves _ met stepped
    exact serves_step serves stepped met
  · intro process act next serves _ stepped
    exact ⟨fromScheduler_of_neverNull stepped,
      fun met => (serves_step serves stepped met).neverNull⟩
  · intro id
    exact FdContex.new_serves 0
  · exact Serves.neverNull fun id => FdContex.new_serves 0

/-- Thread 0 builds the manager without becoming one of its workers and registers a callback,
which a worker is to trigger. Built to use thread 0, the manager would be in its slot. -/
theorem neverNull_iff_fails :
    let registering : Call Unit :=
      { operation := .addEvent 3 .READD (some ()) { scheduler := none, fiber := 0 } }
    let acts (useCaller : Bool) : List (Act Unit) :=
      [.construct 0 7 useCaller, .setThis 1 7, .call 0 registering]
    let reading : Call Unit := { operation := .dispatch 3 EPOLLIN }
    (∃ process, machine.run (start fun _ => none) (acts false) = some process ∧
      process.manager.execute (process.issued 1 reading) = .error nullFault) ∧
    ¬machine.Always NeverNull (start fun _ => none) (acts false) ∧
    ∃ process, machine.run (start fun _ => none) (acts true) = some process ∧
      ((process.manager.execute (process.issued 1 reading)).map
        fun after => after.1.queued).toOption = some [(7, .cb ())] := by
  intro registering acts reading
  refine ⟨⟨_, rfl, rfl⟩, ?_, _, rfl, by decide⟩
  intro always
  exact always.last rfl reading rfl

end Process

end IOManager

end Sylar.Events
