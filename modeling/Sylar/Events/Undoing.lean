import Sylar.Events.Assertions

/-! # Taking registrations back

`delEvent` and `cancelEvent` are to take a direction out of the mask. Both compute the new
mask with an or, so neither takes anything out of the kernel's mask, and `delEvent` leaves
the direction armed as well.
-/

namespace Sylar.Events

open Foundation Scheduling

namespace IOManager

variable {Callback : Type} {manager next : IOManager Callback}

/-! ## Adding and deleting -/

/-- The contexts of the table, the count, the kernel's mask for the descriptor and the queues
are as before. -/
structure Restored (manager next : IOManager Callback) (fd : Int32) : Prop where
  contexs : ∀ other id, manager.Holds other id →
    next.Holds other id ∧ next.objects id = manager.objects id
  pendingEventSize : next.pendingEventSize = manager.pendingEventSize
  interest : (next.epoll fd).map Registration.events = (manager.epoll fd).map Registration.events
  queued : next.queued = manager.queued

/-- With a kernel that accepts both requests, `delEvent` takes back what `addEvent` has done. -/
def Undoes (manager : IOManager Callback) (fd : Int32) (event : Event) (cb : Option Callback)
    (caller : Caller) : Prop :=
  ∃ middle next, manager.addEvent fd event cb caller true = .ok (middle, true) ∧
    middle.delEvent fd event true = .ok (next, true) ∧ manager.Restored next fd

theorem requestOf_settled {operation : Operation Callback} {reply : Bool}
    (outcome : manager.Outcome operation reply next true) :
    ∃ request, manager.requestOf operation = some request ∧
      manager.Effect request operation next := by
  rcases outcome with ⟨impossible, -⟩ | ⟨-, -, request, made, effect⟩
  · cases impossible
  · exact ⟨request, made, effect⟩

theorem deleted_filled (contex : FdContex Callback) {event : Event} (direction : event ≠ .NONE)
    (empty : (contex.slot event).IsEmpty) (cb : Option Callback) (caller : Caller) :
    (contex.filled event cb caller).deleted event =
      { contex with event := event.bits ||| contex.event } := by
  have sameBits : event.bits ||| contex.event ||| event.bits =
      event.bits ||| contex.event := by
    rw [BitVec.or_comm event.bits contex.event, BitVec.or_assoc, BitVec.or_self]
  have isEmpty : contex.slot event = {} := by
    rcases empty with ⟨noScheduler, noCb, noFiber⟩
    cases slotIs : contex.slot event
    simp_all
  cases event with
  | NONE => exact absurd rfl direction
  | READD =>
      have readIs : contex.read = {} := isEmpty
      simp [FdContex.deleted, FdContex.resetContex, FdContex.filled, FdContex.setSlot,
        FdContex.newEvent, sameBits, readIs]
  | WRITE =>
      have writeIs : contex.write = {} := isEmpty
      simp [FdContex.deleted, FdContex.resetContex, FdContex.filled, FdContex.setSlot,
        FdContex.newEvent, sameBits, writeIs]

theorem addEvent_delEvent_leaves {fd : Int32} {id : ContexId} {event : Event}
    {cb : Option Callback} {caller : Caller} {middle : IOManager Callback}
    (found : manager.lookup fd = some id)
    (added : manager.addEvent fd event cb caller true = .ok (middle, true))
    (deleted : middle.delEvent fd event true = .ok (next, true)) :
    next.fdContexs = manager.fdContexs ∧
      next.objects = Function.update manager.objects id
        { manager.objects id with event := event.bits ||| (manager.objects id).event } ∧
      next.pendingEventSize = manager.pendingEventSize ∧ next.queued = manager.queued ∧
      (next.objects id).armed event = true := by
  rcases lookup_eq_some.mp found with ⟨notBeyond, holds⟩
  have noGrowth : manager.grown fd = manager := by
    simp [IOManager.grown, notBeyond]
  rcases requestOf_settled (addEvent_ok added) with ⟨addRequest, -, adds⟩
  cases adds with
  | @registered _ _ _ _ other held direction unarmed empty callable =>
      rw [noGrowth] at held empty deleted
      cases holds.inj held
      rcases requestOf_settled (delEvent_ok deleted) with ⟨removeRequest, -, removes⟩
      cases removes with
      | @deleted _ _ other held armed =>
          cases holds.inj held
          have object := deleted_filled (manager.objects id) direction empty cb caller
          simp [settle, object, FdContex.armed_withBits _ direction]
      | fired fires => exact fires.elim
  | fired fires => exact fires.elim

/-- `delEvent` never takes a registration back: it or-s the direction into the mask. -/
theorem addEvent_never_undone {fd : Int32} {id : ContexId} {event : Event}
    (found : manager.lookup fd = some id)
    (unarmed : (manager.objects id).armed event = false) (cb : Option Callback)
    (caller : Caller) : ¬manager.Undoes fd event cb caller := by
  intro undoes
  rcases undoes with ⟨middle, next, added, deleted, restored⟩
  rcases addEvent_delEvent_leaves found added deleted with ⟨-, -, -, -, armed⟩
  rw [(restored.contexs fd id (lookup_eq_some.mp found).2).2, unarmed] at armed
  cases armed

theorem addEvent_never_undone_write :
    let reading : IOManager Unit :=
      (new.fdContexResize 4).setContex 3
        (({ fd := 3 } : FdContex Unit).filled .READD (some ()) { scheduler := some 0, fiber := 0 })
    ¬reading.Undoes 3 .WRITE (some ()) { scheduler := some 0, fiber := 0 } := by
  intro reading
  have found : reading.lookup 3 = some 3 := by decide
  exact addEvent_never_undone found (by decide) _ _

/-- Descriptor 3 is registered for reading, then for writing, and the writing is deleted: it can
be deleted once more, and not be registered again. -/
theorem addEvent_never_undone_fails :
    let caller : Caller := { scheduler := some 0, fiber := 0 }
    let reading : Call Unit := { operation := .addEvent 3 .READD (some ()) caller }
    let writing : Call Unit := { operation := .addEvent 3 .WRITE (some ()) caller }
    let deleting : Call Unit := { operation := .delEvent 3 .WRITE }
    (∃ manager, machine.run .new [reading] = some manager ∧
      manager.lookup 3 = some 3 ∧ (manager.objects 3).armed .WRITE = false ∧
      ¬manager.Undoes 3 .WRITE (some ()) caller) ∧
    (machine.run .new [reading, writing, deleting]).map (fun manager =>
        ((manager.execute deleting).map Prod.snd).toOption) = some (some true) ∧
    (machine.run .new [reading, writing, deleting]).map (fun manager =>
        ((manager.execute writing).map Prod.snd).toOption) = some (some false) := by
  intro caller reading writing deleting
  refine ⟨⟨_, rfl, rfl, by decide, ?_⟩, by decide, by decide⟩
  intro undoes
  rcases undoes with ⟨middle, next, added, deleted, restored⟩
  have leaves := addEvent_delEvent_leaves (show lookup _ 3 = some 3 from rfl) added deleted
  have armed := leaves.2.2.2.2
  rw [(restored.contexs 3 3 ⟨by decide, rfl⟩).2] at armed
  exact absurd armed (by decide)

/-! ## Cancelling all directions and each -/

/-- `cancelEvent` if the direction is armed, with a kernel that accepts the request. -/
def cancelIfArmed (manager : IOManager Callback) (fd : Int32) (event : Event) :
    Except Fault (IOManager Callback × Bool) :=
  if (manager.lookup fd).any fun id => (manager.objects id).armed event then
    manager.cancelEvent fd event true
  else .ok (manager, true)

def cancelEach (manager : IOManager Callback) (fd : Int32) :
    Except Fault (IOManager Callback × Bool) := do
  let read ← manager.cancelIfArmed fd .READD
  let write ← read.1.cancelIfArmed fd .WRITE
  return (write.1, read.2 && write.2)

/-- Both have the same effect in the manager: nothing is armed any more, and the work of each
armed direction has been queued once. -/
structure CancelledAlike (manager : IOManager Callback) (id : ContexId)
    (all each : IOManager Callback) : Prop where
  objects : all.objects = each.objects
  cleared : (all.objects id).event = 0#32
  pendingEventSize : all.pendingEventSize = each.pendingEventSize
  queued : all.queued = each.queued
  delivered : ∃ work, (manager.objects id).HandsOver (manager.objects id).event work ∧
    all.queued = manager.queued ++ work

def CancelsAlike (manager : IOManager Callback) (fd : Int32) (id : ContexId) : Prop :=
  ∃ all each, manager.cancelAll fd true = .ok (all, true) ∧
    manager.cancelEach fd = .ok (each, true) ∧ manager.CancelledAlike id all each

/-- And with the same interest of the kernel. -/
def CancelsEqually (manager : IOManager Callback) (fd : Int32) (id : ContexId) : Prop :=
  ∃ all each, manager.cancelAll fd true = .ok (all, true) ∧
    manager.cancelEach fd = .ok (each, true) ∧ manager.CancelledAlike id all each ∧
    all.epoll = each.epoll

def withEpoll (epoll : Interest) (manager : IOManager Callback) : IOManager Callback :=
  { manager with epoll := epoll }

theorem lookup_bind {fd : Int32} {id : ContexId} (found : manager.lookup fd = some id)
    (rest : ContexId → Except Fault (IOManager Callback × Bool)) :
    (if manager.beyond fd then .ok (manager, false) else manager.contexAt fd >>= rest) =
      rest id := by
  rcases lookup_eq_some.mp found with ⟨notBeyond, holds⟩
  have contexIs : manager.contexAt fd = .ok id := contexAt_ok.mpr holds
  rw [if_neg (by simp [notBeyond]), contexIs]
  rfl

theorem perform_accepted (request : EpollRequest)
    (complete : IOManager Callback → Except Fault (IOManager Callback)) :
    manager.perform (some request) true complete =
      (complete (manager.withEpoll (request.apply manager.epoll))).map (·, true) := rfl

theorem fire_withEpoll (epoll : Interest) (id : ContexId) (event : Event) :
    (manager.withEpoll epoll).fire id event = (manager.fire id event).map (withEpoll epoll) := by
  have sameObjects : (manager.withEpoll epoll).objects = manager.objects := rfl
  rw [fire, fire, sameObjects]
  cases (manager.objects id).triggerEvent event <;> rfl

theorem fireIfReported_withEpoll (epoll : Interest) (id : ContexId) (mask : Mask) (event : Event) :
    (manager.withEpoll epoll).fireIfReported id mask event =
      (manager.fireIfReported id mask event).map (withEpoll epoll) := by
  by_cases reported : mask.has event = true
  · rw [fireIfReported, fireIfReported, if_pos reported, if_pos reported, fire_withEpoll]
  · rw [fireIfReported, fireIfReported, if_neg reported, if_neg reported]
    rfl

theorem fireReported_withEpoll (epoll : Interest) (id : ContexId) (mask : Mask) :
    (manager.withEpoll epoll).fireReported id mask =
      (manager.fireReported id mask).map (withEpoll epoll) := by
  rw [fireReported, fireReported, fireIfReported_withEpoll]
  cases manager.fireIfReported id mask .READD with
  | error fault => rfl
  | ok middle => exact fireIfReported_withEpoll epoll id mask .WRITE

theorem fireReported_returns {id : ContexId} {mask : Mask}
    (covers : (manager.objects id).Covers mask) :
    (∃ next, manager.fireReported id mask = .ok next) ↔
      ∀ event, mask.has event = true → ((manager.objects id).slot event).Deliverable := by
  constructor
  · intro given
    rcases given with ⟨next, returned⟩
    rcases bind_eq_ok.mp returned with ⟨middle, first, second⟩
    rcases fire_fire_handOver first second with ⟨_, ⟨read, write, readHanded, writeHanded, _⟩, _⟩
    intro event reported
    cases event with
    | NONE => simp at reported
    | READD => exact ⟨read, by rwa [if_pos reported] at readHanded⟩
    | WRITE => exact ⟨write, by rwa [if_pos reported] at writeHanded⟩
  · intro deliverable
    have read : ∃ middle, manager.fireIfReported id mask .READD = .ok middle ∧
        (middle.objects id).armed .WRITE = (manager.objects id).armed .WRITE ∧
        (middle.objects id).slot .WRITE = (manager.objects id).slot .WRITE := by
      rw [fireIfReported]
      by_cases reported : mask.has .READD = true
      · rcases (fire_returns (covers _ reported)).mpr (deliverable _ reported) with
          ⟨middle, fired⟩
        rcases fire_ok fired with ⟨-, queued, middleIs⟩
        rw [if_pos reported]
        exact ⟨middle, fired, by simp [middleIs, setContex],
          by simp [middleIs, setContex, FdContex.fired_slot]⟩
      · rw [if_neg reported]
        exact ⟨manager, rfl, rfl, rfl⟩
    rcases read with ⟨middle, first, sameArmed, sameSlot⟩
    have write : ∃ next, middle.fireIfReported id mask .WRITE = .ok next := by
      rw [fireIfReported]
      by_cases reported : mask.has .WRITE = true
      · rw [if_pos reported, fire_returns (sameArmed.trans (covers _ reported)), sameSlot]
        exact deliverable _ reported
      · rw [if_neg reported]
        exact ⟨middle, rfl⟩
    rcases write with ⟨next, second⟩
    exact ⟨next, bind_eq_ok.mpr ⟨middle, first, second⟩⟩

theorem fireReported_clear {id : ContexId} (legal : (manager.objects id).event.Legal)
    (fired : manager.fireReported id (manager.objects id).event = .ok next) :
    (next.objects id).event = 0#32 := by
  rcases fireReported_ok fired with ⟨-, queued, rfl⟩
  simpa [setContex] using FdContex.firedBy_all _ legal

/-- `cancelAll` comes to firing all armed directions, if the read direction is among them. -/
theorem fireAll_eq_ok_iff {id : ContexId} (legal : (manager.objects id).event.Legal)
    (something : (manager.objects id).event ≠ 0#32) :
    manager.fireAll id = .ok next ↔ (manager.objects id).armed .READD = true ∧
      manager.fireReported id (manager.objects id).event = .ok next := by
  constructor
  · intro returned
    rcases fireAll_fires returned something with ⟨readArmed, -, middle, first, second⟩
    exact ⟨readArmed, bind_eq_ok.mpr ⟨middle, first, second⟩⟩
  · intro given
    rcases given with ⟨readArmed, fired⟩
    have cleared := fireReported_clear legal fired
    have readHas : Mask.has (manager.objects id).event .READD = true := readArmed
    rcases bind_eq_ok.mp fired with ⟨middle, first, second⟩
    have writeStays := (fireIfReported_ok first).1
    rw [fireIfReported, if_pos readHas] at first
    have secondFires : middle.fireIfAny id .WRITE = .ok next := by
      rw [fireIfAny_eq middle id (by simp)]
      rw [fireIfReported] at second
      by_cases writeHas : Mask.has (manager.objects id).event .WRITE = true
      · have stays : (middle.objects id).event ≠ 0#32 := by
          intro clear
          rw [FdContex.armed, FdContex.armed, clear, writeHas] at writeStays
          cases writeStays
        rw [if_neg stays]
        rwa [if_pos writeHas] at second
      · rw [if_neg writeHas] at second
        cases second
        rw [if_pos cleared]
    apply bind_eq_ok.mpr
    refine ⟨middle, ?_, bind_eq_ok.mpr ⟨next, secondFires, ?_⟩⟩
    · rw [fireIfAny_eq manager id (by simp), if_neg something]
      exact first
    · simp only [cleared]
      rfl

/-- `cancelAll` removes the descriptor from the kernel and fires all armed directions, if the
read direction is among them. -/
theorem cancelAll_eq_ok_iff {fd : Int32} {id : ContexId} {all : IOManager Callback}
    (found : manager.lookup fd = some id) (legal : (manager.objects id).event.Legal)
    (something : (manager.objects id).event ≠ 0#32) :
    manager.cancelAll fd true = .ok (all, true) ↔
      (manager.objects id).armed .READD = true ∧ ∃ last,
        manager.fireReported id (manager.objects id).event = .ok last ∧
        all = last.withEpoll (Function.update manager.epoll (manager.objects id).fd none) := by
  let request : EpollRequest :=
    { op := .DEL, fd := (manager.objects id).fd, events := 0, contex := id }
  have requested : (manager.objects id).removeAllRequest id = some request := by
    simp [FdContex.removeAllRequest, something, request]
  have performs : manager.cancelAll fd true =
      ((manager.withEpoll (request.apply manager.epoll)).fireAll id).map (·, true) := by
    rw [cancelAll, lookup_bind found, requested, perform_accepted]
  have firing (last : IOManager Callback) :
      (manager.withEpoll (request.apply manager.epoll)).fireAll id = .ok last ↔
        (manager.objects id).armed .READD = true ∧
          (manager.fireReported id (manager.objects id).event).map
            (withEpoll (request.apply manager.epoll)) = .ok last := by
    rw [← fireReported_withEpoll]
    exact fireAll_eq_ok_iff legal something
  rw [performs]
  constructor
  · intro returned
    rcases map_eq_ok.mp returned with ⟨after, fired, isPair⟩
    cases isPair
    rcases (firing all).mp fired with ⟨readArmed, fired⟩
    rcases map_eq_ok.mp fired with ⟨last, reported, rfl⟩
    exact ⟨readArmed, last, reported, rfl⟩
  · intro given
    rcases given with ⟨readArmed, last, reported, rfl⟩
    have fired := (firing (last.withEpoll (request.apply manager.epoll))).mpr
      ⟨readArmed, map_eq_ok.mpr ⟨last, reported, rfl⟩⟩
    exact map_eq_ok.mpr ⟨_, fired, rfl⟩

/-- `cancelEvent` fires its direction and leaves the kernel with a mask for the descriptor. -/
theorem cancelEvent_eq {fd : Int32} {id : ContexId} {event : Event}
    (found : manager.lookup fd = some id) (armed : (manager.objects id).armed event = true) :
    ∃ epoll : Interest, (epoll (manager.objects id).fd).isSome = true ∧
      manager.cancelEvent fd event true =
        (manager.fire id event).map fun last => (last.withEpoll epoll, true) := by
  have stays : (manager.objects id).newEvent event ≠ 0#32 := by
    intro clear
    have bit : Mask.has ((manager.objects id).newEvent event) event = true := by
      rw [FdContex.newEvent, Mask.has_or, Bool.or_eq_true]
      exact Or.inl armed
    rw [clear] at bit
    simp [Mask.has] at bit
  let request : EpollRequest :=
    { op := .MOD, fd := (manager.objects id).fd
      events := (manager.objects id).newEvent event, contex := id }
  have requested : (manager.objects id).removeRequest id event = some request := by
    simp [FdContex.removeRequest, armed, stays, request]
  refine ⟨request.apply manager.epoll, by simp [EpollRequest.apply, request], ?_⟩
  rw [cancelEvent, lookup_bind found, requested, perform_accepted, fire_withEpoll]
  cases manager.fire id event <;> rfl

theorem cancelIfArmed_eq {fd : Int32} {id : ContexId} (found : manager.lookup fd = some id)
    (event : Event) :
    ∃ epoll : Interest,
      (((manager.objects id).armed event = true ∨
          (manager.epoll (manager.objects id).fd).isSome = true) →
        (epoll (manager.objects id).fd).isSome = true) ∧
      manager.cancelIfArmed fd event =
        (manager.fireIfReported id (manager.objects id).event event).map
          fun last => (last.withEpoll epoll, true) := by
  rw [cancelIfArmed, found, fireIfReported]
  simp only [Option.any_some]
  by_cases armed : (manager.objects id).armed event = true
  · have has : Mask.has (manager.objects id).event event = true := armed
    rcases cancelEvent_eq found armed with ⟨epoll, registered, cancelled⟩
    rw [if_pos armed, if_pos has]
    exact ⟨epoll, fun _ => registered, cancelled⟩
  · have has : ¬Mask.has (manager.objects id).event event = true := armed
    rw [if_neg armed, if_neg has]
    exact ⟨manager.epoll, fun given => given.resolve_left armed, rfl⟩

theorem fireIfReported_keeps {id : ContexId} {mask : Mask} {event : Event}
    (fired : manager.fireIfReported id mask event = .ok next) :
    next.fdContexs = manager.fdContexs ∧
      (next.objects id).fd = (manager.objects id).fd := by
  rw [fireIfReported] at fired
  by_cases has : mask.has event = true
  · rw [if_pos has] at fired
    rcases fire_ok fired with ⟨-, queued, rfl⟩
    exact ⟨rfl, by simp [setContex]⟩
  · rw [if_neg has] at fired
    cases fired
    exact ⟨rfl, rfl⟩

/-- Cancelling each armed direction fires all of them, and leaves the kernel with a mask for
the descriptor. -/
theorem cancelEach_eq {fd : Int32} {id : ContexId} (found : manager.lookup fd = some id)
    (legal : (manager.objects id).event.Legal)
    (something : (manager.objects id).event ≠ 0#32) :
    ∃ epoll : Interest, (epoll (manager.objects id).fd).isSome = true ∧
      manager.cancelEach fd =
        (manager.fireReported id (manager.objects id).event).map
          fun last => (last.withEpoll epoll, true) := by
  rcases cancelIfArmed_eq found .READD with ⟨afterRead, registered, readCancelled⟩
  rw [cancelEach, readCancelled, fireReported]
  cases fired : manager.fireIfReported id (manager.objects id).event .READD with
  | error fault => exact ⟨fun _ => some { events := 0, contex := id }, rfl, rfl⟩
  | ok middle =>
      have sameArmed := (fireIfReported_ok fired).1
      rcases fireIfReported_keeps fired with ⟨sameTable, sameFd⟩
      have foundHere : (middle.withEpoll afterRead).lookup fd = some id := by
        have found' := lookup_eq_some.mp found
        rw [lookup_eq_some]
        simpa only [beyond, Holds, withEpoll, sameTable] using found'
      rcases cancelIfArmed_eq foundHere .WRITE with
        ⟨afterWrite, registeredStill, writeCancelled⟩
      have sameFire : (middle.withEpoll afterRead).fireIfReported id
          ((middle.withEpoll afterRead).objects id).event .WRITE =
          (middle.fireIfReported id (manager.objects id).event .WRITE).map
            (withEpoll afterRead) := by
        rw [← fireIfReported_withEpoll, fireIfReported, fireIfReported]
        have sameHas : Mask.has ((middle.withEpoll afterRead).objects id).event .WRITE =
            Mask.has (manager.objects id).event .WRITE := sameArmed
        rw [sameHas]
      refine ⟨afterWrite, ?_, ?_⟩
      · rw [← sameFd]
        apply registeredStill
        by_cases readArmed : (manager.objects id).armed .READD = true
        · right
          change (afterRead (middle.objects id).fd).isSome = true
          rw [sameFd]
          exact registered (Or.inl readArmed)
        · left
          change (middle.objects id).armed .WRITE = true
          rw [sameArmed]
          exact legal.has_write something (Bool.eq_false_iff.mpr readArmed)
      · change (middle.withEpoll afterRead).cancelIfArmed fd .WRITE >>= _ =
          (middle.fireIfReported id (manager.objects id).event .WRITE).map _
        rw [writeCancelled, sameFire]
        cases middle.fireIfReported id (manager.objects id).event .WRITE <;> rfl

/-- The two agree in the manager if and only if the read direction is armed and all armed slots
can be handed over; the interest of the kernel always differs. -/
theorem WellFormed.cancelsAlike_iff (formed : manager.WellFormed) {fd : Int32} {id : ContexId}
    (found : manager.lookup fd = some id) (something : (manager.objects id).event ≠ 0#32) :
    ¬manager.CancelsEqually fd id ∧
      (manager.CancelsAlike fd id ↔ (manager.objects id).armed .READD = true ∧
        ∀ event, (manager.objects id).armed event = true →
          ((manager.objects id).slot event).Deliverable) := by
  have legal := formed.legal id
  rcases cancelEach_eq found legal something with ⟨epoll, registered, eachIs⟩
  have covers : (manager.objects id).Covers (manager.objects id).event := fun _ armed => armed
  constructor
  · intro equally
    rcases equally with ⟨all, each, allReturned, eachReturned, -, sameEpoll⟩
    rcases (cancelAll_eq_ok_iff found legal something).mp allReturned with
      ⟨-, last, fired, rfl⟩
    rw [eachIs, fired] at eachReturned
    cases eachReturned
    have deregistered := congrFun sameEpoll (manager.objects id).fd
    simp only [withEpoll, Function.update_self] at deregistered
    rw [← deregistered] at registered
    cases registered
  · constructor
    · intro alike
      rcases alike with ⟨all, each, allReturned, -, -⟩
      rcases (cancelAll_eq_ok_iff found legal something).mp allReturned with
        ⟨readArmed, last, fired, -⟩
      exact ⟨readArmed, (fireReported_returns covers).mp ⟨last, fired⟩⟩
    · intro given
      rcases given with ⟨readArmed, deliverable⟩
      rcases (fireReported_returns covers).mpr deliverable with ⟨last, fired⟩
      have allReturns := (cancelAll_eq_ok_iff found legal something).mpr
        ⟨readArmed, last, fired, rfl⟩
      rcases bind_eq_ok.mp fired with ⟨middle, first, second⟩
      have cleared : (last.objects id).event = 0#32 := fireReported_clear legal fired
      have delivered : ∃ work, (manager.objects id).HandsOver (manager.objects id).event work ∧
          last.queued = manager.queued ++ work := fire_fire_handOver first second
      exact ⟨_, last.withEpoll epoll, allReturns, by rw [eachIs, fired]; rfl,
        { objects := rfl, cleared := cleared, pendingEventSize := rfl, queued := rfl
          delivered := delivered }⟩

/-- `cancelAll` takes the descriptor out of the kernel, and `cancelEvent` keeps it there: they
never agree. Without the kernel they agree if and only if the read direction is armed and all
armed slots can be handed over. -/
theorem cancelsEqually_never {calls : List (Call Callback)}
    (reached : machine.run .new calls = some manager) {fd : Int32} {id : ContexId}
    (found : manager.lookup fd = some id) (something : (manager.objects id).event ≠ 0#32) :
    ¬manager.CancelsEqually fd id ∧
      (manager.CancelsAlike fd id ↔ (manager.objects id).armed .READD = true ∧
        ∀ event, (manager.objects id).armed event = true →
          ((manager.objects id).slot event).Deliverable) :=
  (new_wellFormed.run reached).cancelsAlike_iff found something

theorem cancelsEqually_never_read :
    let caller : Caller := { scheduler := some 0, fiber := 0 }
    let reading : Call Unit := { operation := .addEvent 3 .READD (some ()) caller }
    ∃ manager : IOManager Unit, machine.run .new [reading] = some manager ∧
      ¬manager.CancelsEqually 3 3 ∧
      (manager.CancelsAlike 3 3 ↔ (manager.objects 3).armed .READD = true ∧
        ∀ event, (manager.objects 3).armed event = true →
          ((manager.objects 3).slot event).Deliverable) := by
  intro caller reading
  have reached : machine.run .new [reading] = some _ := rfl
  exact ⟨_, reached, cancelsEqually_never reached (show lookup _ 3 = some 3 from rfl) (by decide)⟩

/-- Registered for reading, a descriptor stays in the kernel after `cancelEvent` and leaves it
with `cancelAll`. Registered for writing, `cancelAll` asserts and `cancelEvent` does not. -/
theorem cancelsEqually_never_fails :
    let caller : Caller := { scheduler := some 0, fiber := 0 }
    let reading : Call Unit := { operation := .addEvent 3 .READD (some ()) caller }
    let writing : Call Unit := { operation := .addEvent 3 .WRITE (some ()) caller }
    (∃ manager : IOManager Unit, machine.run .new [reading] = some manager ∧
      manager.lookup 3 = some 3 ∧ (manager.objects 3).event ≠ 0#32 ∧
      ¬manager.CancelsEqually 3 3) ∧
    ∃ manager : IOManager Unit, machine.run .new [writing] = some manager ∧
      manager.lookup 3 = some 3 ∧ (manager.objects 3).event ≠ 0#32 ∧
      ((manager.cancelAll 3 true).map Prod.snd).toOption = none ∧
      ((manager.cancelEach 3).map Prod.snd).toOption = some true := by
  intro caller reading writing
  constructor
  · have reached : machine.run .new [reading] = some _ := rfl
    exact ⟨_, reached, rfl, by decide, ((new_wellFormed.run reached).cancelsAlike_iff
      (show lookup _ 3 = some 3 from rfl) (by decide)).1⟩
  · exact ⟨_, rfl, rfl, by decide, by decide, by decide⟩

end IOManager

end Sylar.Events
