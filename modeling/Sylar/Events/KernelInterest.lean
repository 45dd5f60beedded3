import Mathlib.Tactic.Common
import Sylar.Events.WellFormed

/-! # What the kernel watches

For descriptors that stay open, and a kernel that accepts a request whenever its
precondition holds, the interest list mirrors the masks of the table exactly as
long as no direction is deleted or cancelled alone and every dispatch fires all
armed directions of its context.
-/

namespace Sylar.Events

open Foundation Scheduling

def EpollRequest.leaves (request : EpollRequest) : Option Mask :=
  match request.op with
  | .ADD | .MOD => some request.events
  | .DEL => none

def Mask.watched (mask : Mask) : Option Mask :=
  if mask = 0#32 then none else some (EPOLLET ||| mask)

theorem EPOLLET_has (event : Event) : EPOLLET.has event = false := by
  cases event <;> decide

theorem Mask.Legal.watched_ne {mask : Mask} (legal : mask.Legal) (other : Mask) :
    Mask.watched other ≠ some mask := by
  intro same
  by_cases clear : other = 0#32
  · simp [watched, clear] at same
  · simp only [watched, clear, if_false, Option.some.injEq] at same
    have edge : mask.getLsbD 31 = true := by
      rw [← same, BitVec.getLsbD_or]
      simp [EPOLLET]
    rcases legal 31 edge with zero | two
    · cases zero
    · cases two

namespace IOManager

variable {Callback : Type} {manager next : IOManager Callback}

def userMask (manager : IOManager Callback) (fd : Int32) : Mask :=
  if 0 ≤ fd then
    match manager.fdContexs[fd.toNatClampNeg]? with
    | some id => (manager.objects id).event
    | none => 0#32
  else 0#32

def MirroredAt (manager : IOManager Callback) (fd : Int32) : Prop :=
  (manager.epoll fd).map Registration.events = (manager.userMask fd).watched

instance (fd : Int32) : Decidable (manager.MirroredAt fd) :=
  inferInstanceAs (Decidable (_ = _))

/-- A descriptor is registered exactly if something is armed for it, with the
edge-triggered mask of what is armed. -/
def Mirrored (manager : IOManager Callback) : Prop :=
  ∀ fd, manager.MirroredAt fd

/-- `ADD` is requested for unregistered descriptors only, and `MOD` and `DEL` for
registered ones, by every operation that does not grow the table under armed
directions. -/
def Requestable (manager : IOManager Callback) : Prop :=
  ∀ operation request, manager.GrowsQuietly operation →
    manager.requestOf operation = some request →
    request.accepted manager.epoll = true

/-- The operation does not grow the table under armed directions, removes no
armed direction by itself, and as a dispatch concerns all or none of the armed
directions. -/
def Reflects (manager : IOManager Callback) (operation : Operation Callback) : Prop :=
  manager.GrowsQuietly operation ∧
    match operation with
    | .addEvent .. | .cancelAll _ => True
    | .delEvent fd event | .cancelEvent fd event => ¬manager.armedAt fd event
    | .dispatch id reported =>
        let contex := manager.objects id
        contex.event &&& contex.realEvent reported = 0#32 ∨
          contex.remainingEvent reported = 0#32

def answer (manager : IOManager Callback) (operation : Operation Callback) : Bool :=
  (manager.requestOf operation).all (·.accepted manager.epoll)

/-- The machine whose kernel answers by the preconditions of `epoll_ctl`. -/
def kernelMachine : Machine (IOManager Callback) (Operation Callback) where
  step manager operation :=
    machine.step manager { operation, reply := manager.answer operation }

/-! ## Masks of the table -/

theorem userMask_of_holds {fd : Int32} {id : ContexId} (holds : manager.Holds fd id) :
    manager.userMask fd = (manager.objects id).event := by
  rw [userMask, if_pos holds.1, holds.2]

theorem userMask_of_not_holds {fd : Int32} (absent : ∀ id, ¬manager.Holds fd id) :
    manager.userMask fd = 0#32 := by
  rw [userMask]
  by_cases nonneg : 0 ≤ fd
  · rw [if_pos nonneg]
    cases position : manager.fdContexs[fd.toNatClampNeg]? with
    | none => rfl
    | some id => exact absurd ⟨nonneg, position⟩ (absent id)
  · exact if_neg nonneg

theorem WellFormed.quiet_iff_userMask (formed : manager.WellFormed)
    (owned : manager.Owned) :
    manager.Quiet ↔ ∀ fd, manager.userMask fd = 0#32 := by
  constructor
  · intro quiet fd
    by_cases held : ∃ id, manager.Holds fd id
    · rcases held with ⟨id, holds⟩
      rw [userMask_of_holds holds]
      exact (formed.legal id).eq_zero_iff.mpr (quiet id holds.mem)
    · exact userMask_of_not_holds (not_exists.mp held)
  · intro clear id member event
    by_contra armed
    have isArmed : (manager.objects id).armed event = true := by simpa using armed
    rcases owned id event isArmed with ⟨fd, holds⟩
    have noMask := clear fd
    rw [userMask_of_holds holds] at noMask
    exact armed ((formed.legal id).eq_zero_iff.mp noMask event)

theorem WellFormed.holds_inj (formed : manager.WellFormed) {fd other : Int32}
    {id : ContexId} (holds : manager.Holds fd id) (holdsOther : manager.Holds other id) :
    fd = other :=
  (formed.numbered fd id holds).symm.trans (formed.numbered other id holdsOther)

theorem WellFormed.userMask_settle (formed : manager.WellFormed) {fd other : Int32}
    {id : ContexId} (holds : manager.Holds fd id) (request : EpollRequest)
    (contex : FdContex Callback) (pendingEventSize : UInt64)
    (queued : List (SchedulerId × Work Callback)) :
    (manager.settle request id contex pendingEventSize queued).userMask other =
      if other = fd then contex.event else manager.userMask other := by
  by_cases same : other = fd
  · subst same
    rw [if_pos rfl, userMask_of_holds (settle_holds.mpr holds)]
    simp
  · rw [if_neg same]
    by_cases held : ∃ otherId, manager.Holds other otherId
    · rcases held with ⟨otherId, holdsOther⟩
      have apart : otherId ≠ id := by
        intro same
        subst same
        exact same (formed.holds_inj holdsOther holds)
      rw [userMask_of_holds holdsOther, userMask_of_holds (settle_holds.mpr holdsOther)]
      simp [apart]
    · rw [userMask_of_not_holds (not_exists.mp held),
        userMask_of_not_holds fun otherId holdsOther =>
          held ⟨otherId, settle_holds.mp holdsOther⟩]

theorem leaves_apply (request : EpollRequest) (interest : Interest) :
    (request.apply interest request.fd).map Registration.events = request.leaves := by
  rw [EpollRequest.apply, Function.update_self, EpollRequest.leaves]
  cases request.op <;> rfl

/-- A settled request mirrors its own descriptor if it leaves what should be
watched there, and the other descriptors as before. -/
theorem WellFormed.mirrored_settle_iff (formed : manager.WellFormed) {fd : Int32}
    {id : ContexId} (holds : manager.Holds fd id) {request : EpollRequest}
    (sameFd : request.fd = fd) (contex : FdContex Callback)
    (pendingEventSize : UInt64) (queued : List (SchedulerId × Work Callback)) :
    (manager.settle request id contex pendingEventSize queued).Mirrored ↔
      request.leaves = Mask.watched contex.event ∧
        ∀ other, other ≠ fd → manager.MirroredAt other := by
  have here : (manager.settle request id contex pendingEventSize queued).MirroredAt fd ↔
      request.leaves = Mask.watched contex.event := by
    rw [MirroredAt, formed.userMask_settle holds, if_pos rfl, settle_epoll, ← sameFd,
      leaves_apply]
  have there (other : Int32) (apart : other ≠ fd) :
      (manager.settle request id contex pendingEventSize queued).MirroredAt other ↔
        manager.MirroredAt other := by
    rw [MirroredAt, formed.userMask_settle holds, if_neg apart, settle_epoll,
      EpollRequest.apply, sameFd, Function.update_of_ne apart, MirroredAt]
  constructor
  · intro mirrored
    exact ⟨here.mp (mirrored fd), fun other apart =>
      (there other apart).mp (mirrored other)⟩
  · intro ⟨own, others⟩ other
    by_cases same : other = fd
    · exact same ▸ here.mpr own
    · exact (there other same).mpr (others other same)

/-! ## Growth -/

theorem epoll_grown (fd : Int32) : (manager.grown fd).epoll = manager.epoll := by
  rw [grown]
  split <;> rfl

theorem userMask_fdContexResize (size : Nat) (fd : Int32) :
    (manager.fdContexResize size).userMask fd = 0#32 := by
  by_cases held : ∃ id, (manager.fdContexResize size).Holds fd id
  · rcases held with ⟨id, holds⟩
    rw [userMask_of_holds holds, fdContexResize_object holds.mem]
    rfl
  · exact userMask_of_not_holds (not_exists.mp held)

theorem MirroredAt.isSome_iff {fd : Int32} (mirrored : manager.MirroredAt fd) :
    (manager.epoll fd).isSome = true ↔ manager.userMask fd ≠ 0#32 := by
  rw [← Option.isSome_map, mirrored, Mask.watched]
  by_cases clear : manager.userMask fd = 0#32 <;> simp [clear]

theorem Mirrored.base (mirrored : manager.Mirrored) (formed : manager.WellFormed)
    (owned : manager.Owned) {operation : Operation Callback}
    (quietly : manager.GrowsQuietly operation) : (manager.base operation).Mirrored := by
  cases operation with
  | addEvent fd event cb caller =>
      intro other
      rw [IOManager.base, MirroredAt, epoll_grown]
      by_cases outside : manager.beyond fd = true
      · have clear := (formed.quiet_iff_userMask owned).mp (quietly outside) other
        rw [grown, if_pos outside, userMask_fdContexResize, ← clear]
        exact mirrored other
      · rw [grown, if_neg outside]
        exact mirrored other
  | delEvent | cancelEvent | cancelAll | dispatch => exact mirrored

theorem Mirrored.forgets (mirrored : manager.Mirrored) (owned : manager.Owned)
    {fd : Int32} (outside : manager.beyond fd = true) (loud : ¬manager.Quiet) :
    ∃ other, (manager.epoll other).isSome = true ∧
      ¬(manager.grown fd).MirroredAt other := by
  simp only [Quiet, not_forall] at loud
  rcases loud with ⟨id, member, event, armed⟩
  rcases owned id event (by simpa using armed) with ⟨other, holds⟩
  have masked : manager.userMask other ≠ 0#32 := by
    rw [userMask_of_holds holds]
    intro clear
    simp [FdContex.armed, clear, Mask.has] at armed
  have registered := (mirrored other).isSome_iff.mpr masked
  refine ⟨other, registered, fun mirroredAt => ?_⟩
  rw [← epoll_grown fd, mirroredAt.isSome_iff, grown, if_pos outside] at registered
  exact registered (userMask_fdContexResize _ other)

/-! ## Requests -/

theorem addRequest_spec {contex : FdContex Callback} {id : ContexId} {event : Event}
    {request : EpollRequest} (made : contex.addRequest id event = some request) :
    request.fd = contex.fd ∧ (request.op = .ADD ↔ contex.event = 0#32) ∧
      request.leaves = some (EPOLLET ||| (event.bits ||| contex.event)) := by
  simp only [FdContex.addRequest, addRequest_some made, Bool.false_eq_true, if_false,
    Option.some.injEq] at made
  subst made
  by_cases clear : contex.event = 0#32
  · simp [clear, EpollRequest.leaves]
  · simp [clear, EpollRequest.leaves, BitVec.or_assoc]

theorem removeRequest_spec {contex : FdContex Callback} {id : ContexId}
    {event : Event} {request : EpollRequest}
    (made : contex.removeRequest id event = some request) :
    request.fd = contex.fd ∧ request.op = .MOD ∧
      request.leaves = some (contex.newEvent event) := by
  have armed := removeRequest_some made
  have nonzero : contex.newEvent event ≠ 0#32 := by
    intro clear
    have bit : (contex.newEvent event).has event = true := by
      rw [FdContex.newEvent, Mask.has_or]
      exact Bool.or_eq_true_iff.mpr (Or.inl armed)
    rw [clear] at bit
    simp [Mask.has] at bit
  simp only [FdContex.removeRequest, armed, if_true, Option.some.injEq] at made
  subst made
  simp [nonzero, EpollRequest.leaves]

theorem removeAllRequest_spec {contex : FdContex Callback} {id : ContexId}
    {request : EpollRequest} (made : contex.removeAllRequest id = some request) :
    request.fd = contex.fd ∧ request.op = .DEL ∧ request.leaves = none := by
  have something := removeAllRequest_some made
  have condition : (contex.event != 0) = true := by simpa using something
  simp only [FdContex.removeAllRequest, condition, if_true, Option.some.injEq] at made
  subst made
  simp [EpollRequest.leaves]

theorem dispatchRequest_spec {contex : FdContex Callback} {id : ContexId}
    {reported : Mask} {request : EpollRequest}
    (made : contex.dispatchRequest id reported = some request) :
    request.fd = contex.fd ∧ request.op ≠ .ADD ∧
      contex.event &&& contex.realEvent reported ≠ 0#32 ∧
      request.leaves =
        if contex.remainingEvent reported = 0#32 then none
        else some (contex.reportedEvents reported |||
          (EPOLLET ||| contex.remainingEvent reported)) := by
  have concerned : contex.event &&& contex.realEvent reported ≠ 0#32 := by
    intro clear
    simp [FdContex.dispatchRequest, clear, Event.bits] at made
  have condition :
      (contex.event &&& contex.realEvent reported == Event.NONE.bits) = false := by
    simpa [Event.bits] using concerned
  simp only [FdContex.dispatchRequest, condition, Bool.false_eq_true, if_false,
    Option.some.injEq] at made
  subst made
  by_cases clear : contex.remainingEvent reported = 0#32
  · simp [clear, concerned, EpollRequest.leaves]
  · simp [clear, concerned, EpollRequest.leaves]

theorem requestOf_fits {operation : Operation Callback} {request : EpollRequest}
    (owned : (manager.base operation).Owned)
    (made : manager.requestOf operation = some request) :
    ∃ fd id, (manager.base operation).Holds fd id ∧
      request.fd = ((manager.base operation).objects id).fd ∧
      (request.op = .ADD ↔ ((manager.base operation).objects id).event = 0#32) := by
  rcases Option.bind_eq_some_iff.mp made with ⟨id, targetIs, made⟩
  have somethingArmed {event : Event} (armed : (manager.objects id).armed event = true) :
      (manager.objects id).event ≠ 0#32 := by
    intro clear
    simp [FdContex.armed, clear, Mask.has] at armed
  cases operation with
  | addEvent fd event cb caller =>
      rcases addRequest_spec made with ⟨sameFd, adds, _⟩
      exact ⟨fd, id, toOption_contexAt_eq_some.mp targetIs, sameFd, adds⟩
  | delEvent fd event | cancelEvent fd event =>
      rcases removeRequest_spec made with ⟨sameFd, modifies, _⟩
      have nonzero := somethingArmed (removeRequest_some made)
      exact ⟨fd, id, (lookup_eq_some.mp targetIs).2, sameFd,
        iff_of_false (by simp [modifies]) nonzero⟩
  | cancelAll fd =>
      rcases removeAllRequest_spec made with ⟨sameFd, deletes, _⟩
      exact ⟨fd, id, (lookup_eq_some.mp targetIs).2, sameFd,
        iff_of_false (by simp [deletes]) (removeAllRequest_some made)⟩
  | dispatch reportedId reported =>
      rcases dispatchRequest_spec made with ⟨sameFd, notAdd, concerned, _⟩
      have overlap := (FdContex.realEvent_legal _ reported).and _ |>.eq_zero_iff.not.mp
        concerned
      simp only [not_forall, Mask.has_and, Bool.not_eq_false, Bool.and_eq_true] at overlap
      rcases overlap with ⟨event, armed, _⟩
      rcases owned id event armed with ⟨fd, holds⟩
      exact ⟨fd, id, holds, sameFd, iff_of_false notAdd (somethingArmed armed)⟩

theorem epoll_base (operation : Operation Callback) :
    (manager.base operation).epoll = manager.epoll := by
  cases operation with
  | addEvent fd event cb caller => exact epoll_grown fd
  | delEvent | cancelEvent | cancelAll | dispatch => rfl

theorem Mirrored.requestable (mirrored : manager.Mirrored)
    (formed : manager.WellFormed) (owned : manager.Owned) : manager.Requestable := by
  intro operation request quietly made
  have baseOwned := owned.base quietly
  rcases requestOf_fits baseOwned made with ⟨fd, id, holds, sameFd, adds⟩
  rw [(formed.base operation).numbered fd id holds] at sameFd
  have registered := (mirrored.base formed owned quietly fd).isSome_iff
  rw [epoll_base, userMask_of_holds holds, ne_eq, ← adds, ← sameFd] at registered
  rw [EpollRequest.accepted]
  cases operationIs : request.op with
  | ADD => simpa [operationIs] using registered
  | MOD | DEL => simpa [operationIs] using registered

/-! ## Steps -/

/-- The request of `delEvent` and `cancelEvent` leaves a registration that is not
edge-triggered. -/
theorem remove_not_mirrored {request : EpollRequest} (formed : manager.WellFormed)
    {fd : Int32} {event : Event} {id : ContexId} (holds : manager.Holds fd id)
    (made : ((manager.lookup fd).bind fun id =>
      (manager.objects id).removeRequest id event) = some request)
    (contex : FdContex Callback) (pendingEventSize : UInt64)
    (queued : List (SchedulerId × Work Callback)) :
    ¬(manager.settle request id contex pendingEventSize queued).Mirrored := by
  rcases Option.bind_eq_some_iff.mp made with ⟨found, foundIs, made⟩
  cases holds.inj (lookup_eq_some.mp foundIs).2
  rcases removeRequest_spec made with ⟨sameFd, _, leaves⟩
  rw [formed.numbered fd id holds] at sameFd
  rw [formed.mirrored_settle_iff holds sameFd, leaves]
  intro ⟨watched, _⟩
  have legal : ((manager.objects id).newEvent event).Legal :=
    (formed.legal id).or event.bits_legal
  exact legal.watched_ne contex.event watched.symm

theorem reported_ne_watched (contex : FdContex Callback) (reported : Mask)
    (concerned : contex.event &&& contex.realEvent reported ≠ 0#32) :
    contex.reportedEvents reported |||
        (EPOLLET ||| contex.remainingEvent reported) ≠
      EPOLLET ||| contex.remainingEvent reported := by
  have overlap :=
    ((contex.realEvent_legal reported).and contex.event).eq_zero_iff.not.mp concerned
  simp only [not_forall, Mask.has_and, Bool.not_eq_false, Bool.and_eq_true] at overlap
  rcases overlap with ⟨event, _, isReal⟩
  intro same
  have bit := congrArg (Mask.has · event) same
  simp only [Mask.has_or, EPOLLET_has, contex.remainingEvent_has,
    FdContex.firedBy_armed, isReal, ← contex.realEvent_has] at bit
  simp at bit

theorem Mirrored.registered_iff {request : EpollRequest} {fd : Int32} {event : Event}
    {cb : Option Callback} {caller : Caller} {id : ContexId} (mirrored : manager.Mirrored)
    (formed : manager.WellFormed) (owned : manager.Owned)
    (holds : (manager.grown fd).Holds fd id) (direction : event ≠ .NONE)
    (made : manager.requestOf (.addEvent fd event cb caller) = some request)
    (accepted : request.accepted manager.epoll = true) (pendingEventSize : UInt64) :
    ((manager.grown fd).settle request id
        (((manager.grown fd).objects id).filled event cb caller)
        pendingEventSize []).Mirrored ↔
      manager.Reflects (.addEvent fd event cb caller) := by
  have grown := formed.grown fd
  have request_eq : manager.requestOf (.addEvent fd event cb caller) =
      ((manager.grown fd).objects id).addRequest id event := by
    simp [requestOf, target, IOManager.base, toOption_contexAt_eq_some.mpr holds]
  rcases addRequest_spec (request_eq ▸ made) with ⟨sameFd, adds, leaves⟩
  rw [grown.numbered fd id holds] at sameFd
  have watched : request.leaves =
      Mask.watched (((manager.grown fd).objects id).filled event cb caller).event := by
    rw [leaves, FdContex.filled_event, Mask.watched, if_neg]
    intro clear
    have bit : Mask.has (event.bits ||| ((manager.grown fd).objects id).event)
        event = true := by
      simp [Mask.has_bits, direction]
    rw [clear] at bit
    simp [Mask.has] at bit
  rw [grown.mirrored_settle_iff holds sameFd, Reflects, and_iff_right watched, and_true]
  constructor
  · intro others outside
    by_contra loud
    rcases mirrored.forgets owned outside loud with ⟨other, registered, forgotten⟩
    have here : other = fd := by
      by_contra apart
      exact forgotten (others other apart)
    have fresh : ((manager.grown fd).objects id).event = 0#32 := by
      rw [← userMask_of_holds holds, IOManager.grown, if_pos outside,
        userMask_fdContexResize]
    simp only [EpollRequest.accepted, adds.mpr fresh, sameFd, ← here] at accepted
    rw [Option.isNone_iff_eq_none] at accepted
    simp [accepted] at registered
  · exact fun quietly other _ => mirrored.base formed owned quietly other

theorem Mirrored.cancelledAll {request : EpollRequest} {fd : Int32} {id : ContexId}
    (mirrored : manager.Mirrored) (formed : manager.WellFormed)
    (holds : manager.Holds fd id)
    (made : manager.requestOf (.cancelAll fd) = some request)
    (pendingEventSize : UInt64) (queued : List (SchedulerId × Work Callback)) :
    (manager.settle request id
      ((manager.objects id).firedBy (manager.objects id).event)
      pendingEventSize queued).Mirrored := by
  rcases Option.bind_eq_some_iff.mp made with ⟨found, foundIs, made⟩
  cases holds.inj (lookup_eq_some.mp foundIs).2
  rcases removeAllRequest_spec made with ⟨sameFd, _, leaves⟩
  have sameFd := sameFd.trans (formed.numbered fd id holds)
  rw [formed.mirrored_settle_iff holds sameFd, leaves]
  refine ⟨?_, fun other _ => mirrored other⟩
  rw [FdContex.firedBy_all _ (formed.legal id), Mask.watched, if_pos rfl]

theorem Mirrored.dispatched_iff {request : EpollRequest} {id : ContexId} {reported : Mask}
    (mirrored : manager.Mirrored) (formed : manager.WellFormed) (owned : manager.Owned)
    (covers : (manager.objects id).Covers ((manager.objects id).realEvent reported))
    (something : ∃ event, ((manager.objects id).realEvent reported).has event = true)
    (made : (manager.objects id).dispatchRequest id reported = some request)
    (pendingEventSize : UInt64) (queued : List (SchedulerId × Work Callback)) :
    (manager.settle request id
        ((manager.objects id).firedBy ((manager.objects id).realEvent reported))
        pendingEventSize queued).Mirrored ↔
      manager.Reflects (.dispatch id reported) := by
  rcases dispatchRequest_spec made with ⟨sameFd, _, concerned, leaves⟩
  rcases something with ⟨event, isReal⟩
  rcases owned id event (covers event isReal) with ⟨fd, holds⟩
  have sameFd := sameFd.trans (formed.numbered fd id holds)
  rw [formed.mirrored_settle_iff holds sameFd, leaves,
    FdContex.firedBy_realEvent _ (formed.legal id), Reflects]
  by_cases clear : (manager.objects id).remainingEvent reported = 0#32
  · simp only [clear, if_true, Mask.watched, true_and]
    exact iff_of_true (fun other _ => mirrored other) ⟨trivial, Or.inr trivial⟩
  · refine iff_of_false ?_ fun reflects => clear (reflects.2.resolve_left concerned)
    rw [if_neg clear, Mask.watched, if_neg clear]
    intro ⟨same, _⟩
    exact reported_ne_watched _ reported concerned (Option.some.inj same)

/-- A step whose request the kernel accepts keeps the mirror exactly if it is one
of those the condition names. -/
theorem Effect.mirrored_iff {request : EpollRequest} {operation : Operation Callback}
    (effect : manager.Effect request operation next)
    (made : manager.requestOf operation = some request)
    (accepted : request.accepted manager.epoll = true)
    (formed : manager.WellFormed) (owned : manager.Owned)
    (mirrored : manager.Mirrored) :
    next.Mirrored ↔ manager.Reflects operation := by
  cases effect with
  | registered holds direction =>
      exact mirrored.registered_iff formed owned holds direction made accepted _
  | @deleted fd event id holds armed =>
      apply iff_of_false (remove_not_mirrored formed holds made _ _ _)
      intro reflects
      exact absurd made (by simp [requestOf_delEvent_eq_none_iff.mpr reflects.2])
  | @fired operation id mask fires covers something queued =>
      cases operation with
      | addEvent | delEvent => exact fires.elim
      | cancelEvent fd event =>
          apply iff_of_false (remove_not_mirrored formed fires.1 made _ _ _)
          intro reflects
          exact absurd made (by simp [requestOf_cancelEvent_eq_none_iff.mpr reflects.2])
      | cancelAll fd =>
          rcases fires with ⟨holds, rfl⟩
          exact iff_of_true (mirrored.cancelledAll formed holds made _ _) ⟨trivial, trivial⟩
      | dispatch reportedId reported =>
          rcases fires with ⟨rfl, rfl⟩
          exact mirrored.dispatched_iff formed owned covers something made _ _

theorem Mirrored.base_iff (mirrored : manager.Mirrored) (formed : manager.WellFormed)
    (owned : manager.Owned) (operation : Operation Callback) :
    (manager.base operation).Mirrored ↔ manager.GrowsQuietly operation := by
  refine ⟨fun baseMirrored => ?_, mirrored.base formed owned⟩
  cases operation with
  | addEvent fd event cb caller =>
      intro outside
      by_contra loud
      rcases mirrored.forgets owned outside loud with ⟨other, _, forgotten⟩
      exact forgotten (baseMirrored other)
  | delEvent | cancelEvent | cancelAll | dispatch => trivial

theorem GrowsQuietly.reflects {operation : Operation Callback}
    (quietly : manager.GrowsQuietly operation)
    (silent : manager.requestOf operation = none) : manager.Reflects operation := by
  refine ⟨quietly, ?_⟩
  cases operation with
  | addEvent | cancelAll => trivial
  | delEvent => exact requestOf_delEvent_eq_none_iff.mp silent
  | cancelEvent => exact requestOf_cancelEvent_eq_none_iff.mp silent
  | dispatch id reported =>
      left
      by_contra concerned
      have made : (manager.objects id).dispatchRequest id reported = none := silent
      simp [FdContex.dispatchRequest, Event.bits, concerned] at made

theorem Outcome.mirrored_iff {operation : Operation Callback} {answer : Bool}
    (outcome : manager.Outcome operation (manager.answer operation) next answer)
    (formed : manager.WellFormed) (owned : manager.Owned)
    (mirrored : manager.Mirrored) :
    next.Mirrored ↔ manager.Reflects operation := by
  rcases outcome with ⟨_, rfl, refused⟩ | ⟨_, answered, request, made, effect⟩
  · rw [mirrored.base_iff formed owned]
    refine ⟨fun quietly => quietly.reflects ?_, And.left⟩
    by_contra requested
    rcases Option.ne_none_iff_exists'.mp requested with ⟨request, made⟩
    have accepted := mirrored.requestable formed owned operation request quietly made
    have refusal := refused.resolve_left requested
    simp [IOManager.answer, made, accepted] at refusal
  · have accepted : request.accepted manager.epoll = true := by
      simpa [IOManager.answer, made] using answered
    exact effect.mirrored_iff made accepted formed owned mirrored

theorem new_mirrored : (new : IOManager Callback).Mirrored := by
  intro fd
  rw [MirroredAt, userMask_of_not_holds fun id holds => absurd holds.mem List.not_mem_nil]
  rfl

theorem kernelMachine_step {operation : Operation Callback}
    (stepped : kernelMachine.step manager operation = some next) :
    ∃ answer, manager.Outcome operation (manager.answer operation) next answer :=
  machine_step stepped

/-- The interest list mirrors the table in every state of a run exactly if every
step is one of those that keep it; then all requests are ones the kernel accepts. -/
theorem interest_mirrors (operations : List (Operation Callback)) :
    (kernelMachine.Always Mirrored new operations ↔
      kernelMachine.StepsMeet Reflects new operations) ∧
    (kernelMachine.StepsMeet Reflects new operations →
      kernelMachine.Always Requestable new operations) := by
  constructor
  · refine Machine.always_iff_stepsMeet
      (fun manager => manager.WellFormed ∧ manager.Owned) ?_ ?_
      ⟨new_wellFormed, new_owned⟩ new_mirrored operations
    · intro manager operation next ⟨formed, owned⟩ _ reflects stepped
      rcases kernelMachine_step stepped with ⟨answer, outcome⟩
      exact ⟨outcome.wellFormed formed, outcome.owned owned reflects.1⟩
    · intro manager operation next ⟨formed, owned⟩ mirrored stepped
      rcases kernelMachine_step stepped with ⟨answer, outcome⟩
      exact outcome.mirrored_iff formed owned mirrored
  · refine Machine.StepsMeet.always
      (fun manager => manager.WellFormed ∧ manager.Owned ∧ manager.Mirrored) ?_ ?_
      ⟨new_wellFormed, new_owned, new_mirrored⟩
    · intro manager operation next ⟨formed, owned, mirrored⟩ reflects stepped
      rcases kernelMachine_step stepped with ⟨answer, outcome⟩
      exact ⟨outcome.wellFormed formed, outcome.owned owned reflects.1,
        (outcome.mirrored_iff formed owned mirrored).mpr reflects⟩
    · intro manager ⟨formed, owned, mirrored⟩
      exact mirrored.requestable formed owned

/-- Deleting an event registers its mask again, without the edge-trigger bit. -/
theorem interest_mirrors_fails :
    ¬(kernelMachine : Machine (IOManager Unit) (Operation Unit)).Always Mirrored new
      [.addEvent 3 .READD (some ()) { scheduler := some 0, fiber := 0 },
       .delEvent 3 .READD] := by
  intro always
  have mirrored := always.last rfl 3
  exact absurd mirrored (by decide)

end IOManager

end Sylar.Events
