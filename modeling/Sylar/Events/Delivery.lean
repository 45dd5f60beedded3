import Mathlib.Data.List.Nodup
import Sylar.Events.Rearming

/-! # Every registration is delivered at most once

A slot can outlive its bit and a bit its slot, and growth leaves contexts behind
that epoll still reports. What a slot holds is followed from the registration
that put it there: while its direction is armed it has not been delivered yet.
-/

namespace Sylar.Events

open Foundation Scheduling

/-! ## What firing hands over -/

namespace IOManager

variable {Callback : Type} {manager next : IOManager Callback}

theorem fire_handsOver {id : ContexId} {event : Event}
    (returned : manager.fire id event = .ok next) :
    ∃ queued, (manager.objects id).HandsOver event.bits queued ∧
      next.queued = manager.queued ++ queued := by
  cases event with
  | NONE =>
      have armed := (fire_ok returned).1
      simp at armed
  | READD =>
      have first : (if Mask.has Event.READD.bits .READD then
          manager.fire id .READD else .ok manager) = .ok next := returned
      exact fire_fire_handOver first rfl
  | WRITE =>
      have second : (if Mask.has Event.WRITE.bits .WRITE then
          manager.fire id .WRITE else .ok manager) = .ok next := returned
      exact fire_fire_handOver rfl second

theorem Fires.handsOver {operation : Operation Callback} {reply : Bool}
    {id : ContexId} {mask : Mask} (fires : manager.Fires operation id mask)
    (returned : manager.execute { operation := operation, reply := reply } =
      .ok (next, true)) :
    ∃ queued, (manager.objects id).HandsOver mask queued ∧
      next.queued = manager.queued ++ queued := by
  cases operation with
  | addEvent | delEvent => exact fires.elim
  | cancelEvent fd event =>
      rcases fires with ⟨holds, rfl⟩
      simp only [execute, cancelEvent] at returned
      split at returned
      · cases returned
      · rcases bind_eq_ok.mp returned with ⟨found, lookup, performed⟩
        cases (contexAt_ok.mp lookup).inj holds
        rcases perform_ok performed with ⟨refused, _⟩ | ⟨_, _, _, _, completed⟩
        · cases refused
        · have handed := fire_handsOver completed
          exact handed
  | cancelAll fd =>
      rcases fires with ⟨holds, rfl⟩
      simp only [execute, cancelAll] at returned
      split at returned
      · cases returned
      · rcases bind_eq_ok.mp returned with ⟨found, lookup, performed⟩
        cases (contexAt_ok.mp lookup).inj holds
        rcases perform_ok performed with ⟨refused, _⟩ | ⟨_, _, _, made, completed⟩
        · cases refused
        · rcases fireAll_fires completed (removeAllRequest_some made) with
            ⟨_, _, middle, first, second⟩
          have handed := fire_fire_handOver first second
          exact handed
  | dispatch reportedId reported =>
      rcases fires with ⟨rfl, rfl⟩
      simp only [execute, dispatch] at returned
      rcases perform_ok returned with ⟨refused, _⟩ | ⟨_, _, _, _, completed⟩
      · cases refused
      · rcases bind_eq_ok.mp completed with ⟨middle, first, second⟩
        have handed := fire_fire_handOver first second
        exact handed

/-! ## The ledger of registrations -/

def registeredWork (cb : Option Callback) (caller : Caller) : Work Callback :=
  match cb with
  | some callback => .cb callback
  | none => .fiber caller.fiber

/-- A manager with the history of its registrations, which are numbered in the
order in which `addEvent` accepted them. -/
structure Ledger (Callback : Type) where
  manager : IOManager Callback
  /-- The caller's scheduler and the work of every registration. -/
  registered : List (Option SchedulerId × Work Callback)
  /-- The registration whose work a slot was given last. -/
  holder : ContexId → Event → Option Nat
  /-- The registrations whose work has been put into a queue, in order. -/
  delivered : List Nat
  /-- The registrations that `delEvent` has deleted. -/
  revoked : List Nat

def firing (mask : Mask) : List Event :=
  [Event.READD, Event.WRITE].filter mask.has

namespace Ledger

def new : Ledger Callback where
  manager := .new
  registered := []
  holder _ _ := none
  delivered := []
  revoked := []

def hold (ledger : Ledger Callback) (id : ContexId) (event : Event)
    (holder : Option Nat) : ContexId → Event → Option Nat :=
  fun otherId other =>
    if otherId = id ∧ other = event then holder else ledger.holder otherId other

def handed (ledger : Ledger Callback) (id : ContexId) (mask : Mask) : List Nat :=
  (firing mask).filterMap (ledger.holder id)

def record (ledger : Ledger Callback) (operation : Operation Callback)
    (id : ContexId) : Ledger Callback :=
  match operation with
  | .addEvent _ event cb caller =>
      { ledger with
        registered := ledger.registered ++
          [(caller.scheduler, registeredWork cb caller)]
        holder := ledger.hold id event (some ledger.registered.length) }
  | .delEvent _ event =>
      { ledger with
        holder := ledger.hold id event none
        revoked := (ledger.holder id event).toList ++ ledger.revoked }
  | .cancelEvent _ event =>
      { ledger with delivered := ledger.delivered ++ ledger.handed id event.bits }
  | .cancelAll _ =>
      { ledger with
        delivered := ledger.delivered ++
          ledger.handed id (ledger.manager.objects id).event }
  | .dispatch _ reported =>
      { ledger with
        delivered := ledger.delivered ++
          ledger.handed id ((ledger.manager.objects id).realEvent reported) }

def machine : Machine (Ledger Callback) (Call Callback) where
  step ledger call :=
    match ledger.manager.execute call, ledger.manager.target call.operation with
    | .ok (next, true), some id =>
        some { ledger.record call.operation id with manager := next }
    | .ok (next, _), _ => some { ledger with manager := next }
    | .error _, _ => none

/-- The queue holds the work of the registrations delivered, one entry for each
and none twice, and none of them had been deleted. -/
def DeliversOnce (ledger : Ledger Callback) : Prop :=
  ledger.delivered.map (fun registration => ledger.registered[registration]?) =
      ledger.manager.queued.map (fun entry => some (some entry.1, entry.2)) ∧
    ledger.delivered.Nodup ∧
    ∀ registration ∈ ledger.revoked, registration ∉ ledger.delivered

end Ledger

end IOManager

/-! ## What a slot carries -/

namespace FdEvent

def Carries (slot : FdEvent Callback) (work : Work Callback) : Prop :=
  match work with
  | .cb callback => slot.cb = some callback
  | .fiber fiber => slot.cb = none ∧ slot.fiber = some fiber

variable {Callback : Type} {slot : FdEvent Callback} {work : Work Callback}
  {queued : List (SchedulerId × Work Callback)}

theorem Carries.loaded (carries : slot.Carries work) : slot.Loaded := by
  cases work with
  | cb callback =>
      left
      rw [show slot.cb = some callback from carries]
      rfl
  | fiber fiber =>
      right
      rw [carries.2]
      rfl

theorem Carries.clear (carries : slot.Carries work) :
    ({ slot with scheduler := none } : FdEvent Callback).Carries work := by
  cases work with
  | cb callback => exact carries
  | fiber fiber => exact carries

theorem Carries.handOver (carries : slot.Carries work)
    (handed : slot.handOver = .ok queued) :
    ∃ scheduler, slot.scheduler = some scheduler ∧ queued = [(scheduler, work)] := by
  cases slot with
  | mk cb fiber scheduler =>
      cases work with
      | cb callback =>
          cases show cb = some callback from carries
          cases scheduler with
          | none => cases handed
          | some scheduler => cases handed; exact ⟨scheduler, rfl, rfl⟩
      | fiber handle =>
          cases show cb = none from carries.1
          cases show fiber = some handle from carries.2
          cases scheduler with
          | none => cases handed
          | some scheduler => cases handed; exact ⟨scheduler, rfl, rfl⟩

theorem handOver_unloaded (unloaded : ¬slot.Loaded)
    (handed : slot.handOver = .ok queued) : queued = [] := by
  cases slot with
  | mk cb fiber scheduler =>
      cases cb with
      | some callback => exact absurd (Or.inl rfl) unloaded
      | none =>
          cases fiber with
          | some fiber => exact absurd (Or.inr rfl) unloaded
          | none => cases handed; rfl

end FdEvent

theorem FdContex.deleted_slot (contex : FdContex Callback) {event : Event}
    (direction : event ≠ .NONE) (other : Event) :
    (contex.deleted event).slot other =
      if other = event then {} else contex.slot other := by
  rw [deleted, resetContex, setSlot_slot _ direction]
  cases other <;> rfl

theorem FdContex.deleted_armed_of_armed (contex : FdContex Callback) {event : Event}
    (armed : contex.armed event = true) (other : Event) :
    (contex.deleted event).armed other = contex.armed other := by
  rw [FdContex.armed, contex.deleted_event_of_armed armed]
  rfl

namespace IOManager

namespace Ledger

variable {Callback : Type} {ledger : Ledger Callback}

theorem filled_carries (contex : FdContex Callback) {event : Event}
    (direction : event ≠ .NONE) (cb : Option Callback) (caller : Caller) :
    ((contex.filled event cb caller).slot event).Carries
      (registeredWork cb caller) := by
  rw [FdContex.filled_slot _ direction, if_pos rfl]
  cases cb with
  | none => exact ⟨rfl, rfl⟩
  | some callback => rfl

/-- The slot of a direction holds the work of the registration, which has not been
delivered while the direction is armed. -/
def Holding (ledger : Ledger Callback) (id : ContexId) (event : Event)
    (registration : Nat) : Prop :=
  ∃ scheduler work, ledger.registered[registration]? = some (scheduler, work) ∧
    ((ledger.manager.objects id).slot event).Carries work ∧
    ((ledger.manager.objects id).armed event = true →
      ((ledger.manager.objects id).slot event).scheduler = scheduler ∧
        registration ∉ ledger.delivered)

theorem Holding.congr {next : Ledger Callback} {id : ContexId} {event : Event}
    {registration : Nat} (holding : ledger.Holding id event registration)
    (registered : next.registered[registration]? = ledger.registered[registration]?)
    (delivered : registration ∉ ledger.delivered → registration ∉ next.delivered)
    (slot : (next.manager.objects id).slot event = (ledger.manager.objects id).slot event)
    (armed : (next.manager.objects id).armed event = (ledger.manager.objects id).armed event) :
    next.Holding id event registration := by
  rcases holding with ⟨scheduler, work, found, carries, whileArmed⟩
  rw [Holding, registered, slot, armed]
  refine ⟨scheduler, work, found, carries, ?_⟩
  intro isArmed
  exact ⟨(whileArmed isArmed).1, delivered (whileArmed isArmed).2⟩

structure Tracked (ledger : Ledger Callback) : Prop where
  formed : ledger.manager.WellFormed
  holding : ∀ id event registration,
    ledger.holder id event = some registration → ledger.Holding id event registration
  unloaded : ∀ id event, ledger.holder id event = none →
    ¬((ledger.manager.objects id).slot event).Loaded
  single : ∀ id event otherId other registration,
    ledger.holder id event = some registration →
    ledger.holder otherId other = some registration → id = otherId ∧ event = other
  unallocated : ∀ id event, ledger.manager.allocated ≤ id →
    ledger.holder id event = none
  queued : ledger.delivered.map (fun registration => ledger.registered[registration]?) =
    ledger.manager.queued.map fun entry => some (some entry.1, entry.2)
  nodup : ledger.delivered.Nodup
  revoked : ∀ registration ∈ ledger.revoked,
    registration < ledger.registered.length ∧ registration ∉ ledger.delivered ∧
      ∀ id event, ledger.holder id event ≠ some registration

theorem Tracked.deliversOnce (tracked : ledger.Tracked) : ledger.DeliversOnce :=
  ⟨tracked.queued, tracked.nodup,
    fun registration member => (tracked.revoked registration member).2.1⟩

theorem Tracked.new : (Ledger.new : Ledger Callback).Tracked where
  formed := new_wellFormed
  holding id event registration impossible := by cases impossible
  unloaded id event _ := by cases event <;> simp [FdEvent.Loaded, Ledger.new,
    IOManager.new, FdContex.slot]
  single id event otherId other registration impossible := by cases impossible
  unallocated id event _ := rfl
  queued := rfl
  nodup := List.nodup_nil
  revoked registration member := absurd member List.not_mem_nil

theorem Tracked.lt_of_holder (tracked : ledger.Tracked) {id : ContexId}
    {event : Event} {registration : Nat}
    (held : ledger.holder id event = some registration) :
    registration < ledger.registered.length := by
  rcases tracked.holding id event registration held with ⟨_, _, found, _⟩
  exact (List.getElem?_eq_some_iff.mp found).1

theorem Tracked.lt_of_delivered (tracked : ledger.Tracked) {registration : Nat}
    (delivered : registration ∈ ledger.delivered) :
    registration < ledger.registered.length := by
  have found : ledger.registered[registration]? ∈
      ledger.manager.queued.map fun entry => some (some entry.1, entry.2) := by
    rw [← tracked.queued]
    exact List.mem_map_of_mem delivered
  rcases List.mem_map.mp found with ⟨entry, _, same⟩
  exact (List.getElem?_eq_some_iff.mp same.symm).1

/-! ## One operation -/

theorem Tracked.base (tracked : ledger.Tracked) (operation : Operation Callback) :
    ({ ledger with manager := ledger.manager.base operation } :
      Ledger Callback).Tracked := by
  have objects : ∀ id,
      (ledger.manager.base operation).objects id = ledger.manager.objects id ∨
        ledger.manager.allocated ≤ id ∧ ∃ number : Int32,
          (ledger.manager.base operation).objects id = { fd := number } := by
    intro id
    cases operation with
    | addEvent fd event cb caller => exact grown_object_cases ledger.manager fd id
    | delEvent | cancelEvent | cancelAll | dispatch => exact Or.inl rfl
  have allocated : ledger.manager.allocated ≤
      (ledger.manager.base operation).allocated := by
    cases operation with
    | addEvent fd event cb caller =>
        rw [IOManager.base, IOManager.grown]
        split
        · exact Nat.le_add_right _ _
        · exact Nat.le_refl _
    | delEvent | cancelEvent | cancelAll | dispatch => exact Nat.le_refl _
  have queue : (ledger.manager.base operation).queued = ledger.manager.queued := by
    cases operation with
    | addEvent fd event cb caller =>
        rw [IOManager.base, IOManager.grown]
        split <;> rfl
    | delEvent | cancelEvent | cancelAll | dispatch => rfl
  refine
    { formed := tracked.formed.base operation
      holding := ?_
      unloaded := ?_
      single := tracked.single
      unallocated := fun id event later =>
        tracked.unallocated id event (Nat.le_trans allocated later)
      queued := by rw [queue]; exact tracked.queued
      nodup := tracked.nodup
      revoked := tracked.revoked }
  · intro id event registration held
    rcases objects id with same | ⟨fresh, _⟩
    · rw [Holding, same]
      exact tracked.holding id event registration held
    · rw [tracked.unallocated id event fresh] at held
      cases held
  · intro id event free
    rcases objects id with same | ⟨_, number, new⟩
    · rw [same]
      exact tracked.unloaded id event free
    · rw [new]
      cases event <;> simp [FdEvent.Loaded, FdContex.slot]

theorem hold_cases {id otherId : ContexId} {event other : Event}
    {given : Option Nat} {registration : Nat}
    (held : ledger.hold id event given otherId other = some registration) :
    (otherId = id ∧ other = event ∧ given = some registration) ∨
      ¬(otherId = id ∧ other = event) ∧
        ledger.holder otherId other = some registration := by
  rw [hold] at held
  split at held
  · next here => exact Or.inl ⟨here.1, here.2, held⟩
  · next elsewhere => exact Or.inr ⟨elsewhere, held⟩

theorem settle_elsewhere {manager : IOManager Callback} {id : ContexId} {event : Event}
    {contex : FdContex Callback}
    (slots : ∀ other ≠ event, contex.slot other = (manager.objects id).slot other)
    (bits : ∀ other ≠ event, contex.armed other = (manager.objects id).armed other)
    (request : EpollRequest) (pendingEventSize : UInt64)
    (queued : List (SchedulerId × Work Callback)) {otherId : ContexId} {other : Event}
    (elsewhere : ¬(otherId = id ∧ other = event)) :
    ((manager.settle request id contex pendingEventSize queued).objects otherId).slot other =
        (manager.objects otherId).slot other ∧
      ((manager.settle request id contex pendingEventSize queued).objects otherId).armed other =
        (manager.objects otherId).armed other := by
  rw [settle_objects]
  by_cases same : otherId = id
  · subst same
    have apart : other ≠ event := fun equal => elsewhere ⟨rfl, equal⟩
    rw [Function.update_self]
    exact ⟨slots other apart, bits other apart⟩
  · rw [Function.update_of_ne same]
    exact ⟨rfl, rfl⟩

theorem Tracked.registered (tracked : ledger.Tracked) {id : ContexId}
    {event : Event} (direction : event ≠ .NONE)
    (old : id < ledger.manager.allocated)
    (unarmed : (ledger.manager.objects id).armed event = false)
    (cb : Option Callback) (caller : Caller) (request : EpollRequest)
    (pendingEventSize : UInt64)
    (formed : (ledger.manager.settle request id
      ((ledger.manager.objects id).filled event cb caller)
      pendingEventSize []).WellFormed) :
    ({ ledger with
        registered := ledger.registered ++
          [(caller.scheduler, registeredWork cb caller)]
        holder := ledger.hold id event (some ledger.registered.length)
        manager := ledger.manager.settle request id
          ((ledger.manager.objects id).filled event cb caller)
          pendingEventSize [] } : Ledger Callback).Tracked := by
  have kept : ∀ registration < ledger.registered.length,
      (ledger.registered ++ [(caller.scheduler, registeredWork cb caller)])[registration]? =
        ledger.registered[registration]? :=
    fun registration below => List.getElem?_append_left below
  have slotIs := FdContex.filled_slot (ledger.manager.objects id) direction cb caller
  have slots : ∀ other ≠ event, ((ledger.manager.objects id).filled event cb caller).slot other =
      (ledger.manager.objects id).slot other :=
    fun other apart => (slotIs other).trans (if_neg apart)
  have bits : ∀ other ≠ event, ((ledger.manager.objects id).filled event cb caller).armed other =
      (ledger.manager.objects id).armed other :=
    fun other apart => by simp [Ne.symm apart]
  refine
    { formed := formed
      holding := ?_
      unloaded := ?_
      single := ?_
      unallocated := ?_
      queued := ?_
      nodup := tracked.nodup
      revoked := ?_ }
  · intro otherId other registration held
    rcases hold_cases held with ⟨rfl, rfl, isNew⟩ | ⟨elsewhere, held⟩
    · cases isNew
      refine ⟨caller.scheduler, registeredWork cb caller, by simp, ?_, ?_⟩
      · simpa using filled_carries (ledger.manager.objects otherId) direction cb caller
      · intro _
        refine ⟨by simp [slotIs], ?_⟩
        intro delivered
        exact Nat.lt_irrefl _ (tracked.lt_of_delivered delivered)
    · have same := settle_elsewhere slots bits request pendingEventSize [] elsewhere
      exact (tracked.holding otherId other registration held).congr
        (kept registration (tracked.lt_of_holder held)) (fun undelivered => undelivered)
        same.1 same.2
  · intro otherId other free
    simp only [hold] at free
    split at free
    · cases free
    · next elsewhere =>
        rw [(settle_elsewhere slots bits request pendingEventSize [] elsewhere).1]
        exact tracked.unloaded otherId other free
  · intro firstId first secondId second registration heldFirst heldSecond
    rcases hold_cases heldFirst with ⟨rfl, rfl, isNew⟩ | ⟨_, oldFirst⟩
    · rcases hold_cases heldSecond with ⟨rfl, rfl, _⟩ | ⟨_, oldSecond⟩
      · exact ⟨rfl, rfl⟩
      · cases isNew
        exact absurd (tracked.lt_of_holder oldSecond) (Nat.lt_irrefl _)
    · rcases hold_cases heldSecond with ⟨rfl, rfl, isNew⟩ | ⟨_, oldSecond⟩
      · cases isNew
        exact absurd (tracked.lt_of_holder oldFirst) (Nat.lt_irrefl _)
      · exact tracked.single _ _ _ _ registration oldFirst oldSecond
  · intro otherId other later
    have apart : otherId ≠ id := by
      intro same
      subst same
      exact Nat.not_le.mpr old later
    simp only [hold, apart, false_and, if_false]
    exact tracked.unallocated otherId other later
  · simp only [settle, List.append_nil]
    rw [← tracked.queued]
    apply List.map_congr_left
    intro registration delivered
    exact kept registration (tracked.lt_of_delivered delivered)
  · intro registration member
    rcases tracked.revoked registration member with ⟨below, undelivered, unheld⟩
    refine ⟨?_, undelivered, ?_⟩
    · rw [List.length_append]
      exact Nat.lt_of_lt_of_le below (Nat.le_add_right _ _)
    · intro otherId other held
      rcases hold_cases held with ⟨_, _, isNew⟩ | ⟨_, oldHeld⟩
      · cases isNew
        exact Nat.lt_irrefl _ below
      · exact unheld otherId other oldHeld

theorem Tracked.deleted (tracked : ledger.Tracked) {id : ContexId} {event : Event}
    (armed : (ledger.manager.objects id).armed event = true)
    (request : EpollRequest) (pendingEventSize : UInt64)
    (formed : (ledger.manager.settle request id
      ((ledger.manager.objects id).deleted event) pendingEventSize []).WellFormed) :
    ({ ledger with
        holder := ledger.hold id event none
        revoked := (ledger.holder id event).toList ++ ledger.revoked
        manager := ledger.manager.settle request id
          ((ledger.manager.objects id).deleted event)
          pendingEventSize [] } : Ledger Callback).Tracked := by
  have direction : event ≠ .NONE := by
    intro same
    subst same
    simp at armed
  have slotIs := FdContex.deleted_slot (ledger.manager.objects id) direction
  have slots : ∀ other ≠ event, ((ledger.manager.objects id).deleted event).slot other =
      (ledger.manager.objects id).slot other :=
    fun other apart => (slotIs other).trans (if_neg apart)
  have bits : ∀ other ≠ event, ((ledger.manager.objects id).deleted event).armed other =
      (ledger.manager.objects id).armed other :=
    fun other _ => FdContex.deleted_armed_of_armed (ledger.manager.objects id) armed other
  have still : ∀ {otherId other registration},
      ledger.hold id event none otherId other = some registration →
        ¬(otherId = id ∧ other = event) ∧
          ledger.holder otherId other = some registration := by
    intro otherId other registration held
    rcases hold_cases held with ⟨_, _, impossible⟩ | kept
    · cases impossible
    · exact kept
  refine
    { formed := formed
      holding := ?_
      unloaded := ?_
      single := ?_
      unallocated := ?_
      queued := by simpa [settle] using tracked.queued
      nodup := tracked.nodup
      revoked := ?_ }
  · intro otherId other registration held
    rcases still held with ⟨elsewhere, held⟩
    have same := settle_elsewhere slots bits request pendingEventSize [] elsewhere
    exact (tracked.holding otherId other registration held).congr rfl
      (fun undelivered => undelivered) same.1 same.2
  · intro otherId other free
    simp only [hold] at free
    split at free
    · next here =>
        rcases here with ⟨rfl, rfl⟩
        simp [slotIs, FdEvent.Loaded]
    · next elsewhere =>
        rw [(settle_elsewhere slots bits request pendingEventSize [] elsewhere).1]
        exact tracked.unloaded otherId other free
  · intro firstId first secondId second registration heldFirst heldSecond
    exact tracked.single _ _ _ _ registration (still heldFirst).2 (still heldSecond).2
  · intro otherId other later
    simp only [hold]
    split
    · rfl
    · exact tracked.unallocated otherId other later
  · intro registration member
    rcases List.mem_append.mp member with deleted | before
    · have held := Option.mem_toList.mp deleted
      rcases tracked.holding id event registration held with ⟨_, _, _, _, undelivered⟩
      refine ⟨tracked.lt_of_holder held, (undelivered armed).2, ?_⟩
      intro otherId other again
      rcases still again with ⟨elsewhere, heldAgain⟩
      have same := tracked.single _ _ _ _ registration heldAgain held
      exact elsewhere same
    · rcases tracked.revoked registration before with ⟨below, undelivered, unheld⟩
      exact ⟨below, undelivered, fun otherId other held =>
        unheld otherId other (still held).2⟩

/-! ### Firing -/

theorem Tracked.handOver (tracked : ledger.Tracked) {id : ContexId} {event : Event}
    (armed : (ledger.manager.objects id).armed event = true)
    {queued : List (SchedulerId × Work Callback)}
    (handed : ((ledger.manager.objects id).slot event).handOver = .ok queued) :
    (ledger.holder id event).toList.map
        (fun registration => ledger.registered[registration]?) =
      queued.map fun entry => some (some entry.1, entry.2) := by
  cases held : ledger.holder id event with
  | none =>
      rw [FdEvent.handOver_unloaded (tracked.unloaded id event held) handed]
      rfl
  | some registration =>
      rcases tracked.holding id event registration held with
        ⟨scheduler, work, found, carries, whileArmed⟩
      rcases carries.handOver handed with ⟨named, schedulerIs, rfl⟩
      have same := (whileArmed armed).1
      rw [schedulerIs] at same
      simp [found, ← same]

theorem handed_eq (id : ContexId) (mask : Mask) :
    ledger.handed id mask =
      (if mask.has .READD then (ledger.holder id .READD).toList else []) ++
        (if mask.has .WRITE then (ledger.holder id .WRITE).toList else []) := by
  rw [handed, firing]
  cases readReported : mask.has .READD <;> cases writeReported : mask.has .WRITE <;>
    cases readHeld : ledger.holder id .READD <;>
    cases writeHeld : ledger.holder id .WRITE <;>
    simp [readReported, writeReported, readHeld, writeHeld]

theorem mem_handed {id : ContexId} {mask : Mask} {registration : Nat}
    (member : registration ∈ ledger.handed id mask) :
    ∃ event, mask.has event = true ∧ ledger.holder id event = some registration := by
  rcases List.mem_filterMap.mp member with ⟨event, fires, held⟩
  exact ⟨event, (List.mem_filter.mp fires).2, held⟩

theorem Tracked.queued_handed (tracked : ledger.Tracked) {id : ContexId}
    {mask : Mask} (covers : (ledger.manager.objects id).Covers mask)
    {queued : List (SchedulerId × Work Callback)}
    (handsOver : (ledger.manager.objects id).HandsOver mask queued) :
    (ledger.handed id mask).map
        (fun registration => ledger.registered[registration]?) =
      queued.map fun entry => some (some entry.1, entry.2) := by
  rcases handsOver with ⟨read, write, readHanded, writeHanded, rfl⟩
  rw [handed_eq, List.map_append, List.map_append]
  congr 1
  · by_cases reported : mask.has .READD = true
    · rw [if_pos reported] at readHanded ⊢
      exact tracked.handOver (covers _ reported) readHanded
    · rw [if_neg reported] at readHanded ⊢
      cases readHanded
      rfl
  · by_cases reported : mask.has .WRITE = true
    · rw [if_pos reported] at writeHanded ⊢
      exact tracked.handOver (covers _ reported) writeHanded
    · rw [if_neg reported] at writeHanded ⊢
      cases writeHanded
      rfl

theorem Tracked.handed_undelivered (tracked : ledger.Tracked) {id : ContexId}
    {mask : Mask} (covers : (ledger.manager.objects id).Covers mask)
    {registration : Nat} (member : registration ∈ ledger.handed id mask) :
    registration ∉ ledger.delivered := by
  rcases mem_handed member with ⟨event, reported, held⟩
  rcases tracked.holding id event registration held with ⟨_, _, _, _, whileArmed⟩
  exact (whileArmed (covers event reported)).2

theorem Tracked.handed_nodup (tracked : ledger.Tracked) (id : ContexId)
    (mask : Mask) : (ledger.handed id mask).Nodup := by
  apply List.Nodup.filterMap
  · intro first second registration heldFirst heldSecond
    exact (tracked.single _ _ _ _ registration heldFirst heldSecond).2
  · exact List.Nodup.filter _ (by decide)

theorem Tracked.fired (tracked : ledger.Tracked) {id : ContexId} {mask : Mask}
    (covers : (ledger.manager.objects id).Covers mask) (request : EpollRequest)
    (pendingEventSize : UInt64) {queued : List (SchedulerId × Work Callback)}
    (handsOver : (ledger.manager.objects id).HandsOver mask queued)
    (formed : (ledger.manager.settle request id
      ((ledger.manager.objects id).firedBy mask)
      pendingEventSize queued).WellFormed) :
    ({ ledger with
        delivered := ledger.delivered ++ ledger.handed id mask
        manager := ledger.manager.settle request id
          ((ledger.manager.objects id).firedBy mask)
          pendingEventSize queued } : Ledger Callback).Tracked := by
  refine
    { formed := formed
      holding := ?_
      unloaded := ?_
      single := tracked.single
      unallocated := tracked.unallocated
      queued := ?_
      nodup := ?_
      revoked := ?_ }
  · intro otherId other registration held
    have holding := tracked.holding otherId other registration held
    have stays (spared : otherId = id → mask.has other = false)
        (undelivered : registration ∉ ledger.delivered) :
        registration ∉ ledger.delivered ++ ledger.handed id mask := by
      rw [List.mem_append, not_or]
      refine ⟨undelivered, ?_⟩
      intro member
      rcases mem_handed member with ⟨event, reported, heldAgain⟩
      rcases tracked.single _ _ _ _ registration held heldAgain with ⟨rfl, rfl⟩
      rw [spared rfl] at reported
      cases reported
    by_cases same : otherId = id
    · subst same
      cases reported : mask.has other with
      | true =>
          rcases holding with ⟨scheduler, work, found, carries, -⟩
          refine ⟨scheduler, work, found, ?_⟩
          simp only [settle_objects, Function.update_self, FdContex.firedBy_slot,
            FdContex.firedBy_armed, reported, if_true, Bool.not_true, Bool.and_false,
            Bool.false_eq_true, false_implies, and_true]
          exact carries.clear
      | false =>
          refine holding.congr rfl (stays fun _ => reported) ?_ ?_
          · simp [FdContex.firedBy_slot, reported]
          · simp [FdContex.firedBy_armed, reported]
    · refine holding.congr rfl (stays fun equal => absurd equal same) ?_ ?_
      · simp only [settle_objects, Function.update_of_ne same]
      · simp only [settle_objects, Function.update_of_ne same]
  · intro otherId other free
    have before := tracked.unloaded otherId other free
    by_cases same : otherId = id
    · subst same
      simp only [settle_objects, Function.update_self, FdContex.firedBy_slot]
      split
      · exact before
      · exact before
    · simpa only [settle_objects, Function.update_of_ne same] using before
  · simp only [settle, List.map_append]
    rw [tracked.queued, tracked.queued_handed covers handsOver]
  · refine List.nodup_append.mpr
      ⟨tracked.nodup, tracked.handed_nodup id mask, ?_⟩
    intro registration delivered other member same
    subst same
    exact tracked.handed_undelivered covers member delivered
  · intro registration member
    rcases tracked.revoked registration member with ⟨below, undelivered, unheld⟩
    refine ⟨below, ?_, unheld⟩
    rw [List.mem_append, not_or]
    refine ⟨undelivered, ?_⟩
    intro again
    rcases mem_handed again with ⟨event, _, held⟩
    exact unheld id event held

/-! ## Runs -/

theorem machine_step {next : Ledger Callback} {call : Call Callback}
    (stepped : machine.step ledger call = some next) :
    ∃ manager answer, ledger.manager.execute call = .ok (manager, answer) ∧
      ((answer = false ∧ next = { ledger with manager := manager }) ∨
        answer = true ∧ ∃ id, ledger.manager.target call.operation = some id ∧
          next = { ledger.record call.operation id with manager := manager }) := by
  simp only [machine] at stepped
  generalize executed : ledger.manager.execute call = outcome at stepped
  cases outcome with
  | error fault => cases stepped
  | ok outcome =>
      rcases outcome with ⟨manager, answer⟩
      refine ⟨manager, answer, rfl, ?_⟩
      cases answer with
      | false => cases stepped; exact Or.inl ⟨rfl, rfl⟩
      | true =>
          rcases execute_ok executed with ⟨impossible, _⟩ | ⟨_, _, request, made, _⟩
          · cases impossible
          · rcases Option.bind_eq_some_iff.mp made with ⟨id, targetIs, _⟩
            rw [targetIs] at stepped
            cases stepped
            exact Or.inr ⟨rfl, id, targetIs, rfl⟩

theorem Tracked.effect (tracked : ledger.Tracked) {operation : Operation Callback}
    {reply : Bool} {manager : IOManager Callback} {request : EpollRequest}
    (executed : ledger.manager.execute { operation := operation, reply := reply } =
      .ok (manager, true))
    (effect : ledger.manager.Effect request operation manager) {id : ContexId}
    (targetIs : ledger.manager.target operation = some id) :
    ({ ledger.record operation id with manager := manager } :
      Ledger Callback).Tracked := by
  have formed := (execute_ok executed).wellFormed tracked.formed
  cases effect with
  | @registered fd event cb caller found holds direction unarmed empty callable =>
      have targetFound := toOption_contexAt_eq_some.mp targetIs
      cases targetFound.inj holds
      have grown := tracked.base (.addEvent fd event cb caller)
      exact grown.registered direction (grown.formed.allocated _ holds.mem) unarmed cb
        caller request _ formed
  | @deleted fd event found holds armed =>
      cases (lookup_eq_some.mp targetIs).2.inj holds
      exact tracked.deleted armed request _ formed
  | @fired operation found mask fires covers something queued =>
      cases fires.target_eq targetIs
      rcases fires.handsOver executed with ⟨handed, handsOver, queuedIs⟩
      cases List.append_cancel_left queuedIs
      have after := tracked.fired covers request _ handsOver formed
      cases operation with
      | addEvent | delEvent => exact fires.elim
      | cancelEvent fd event => cases fires.2; exact after
      | cancelAll fd => cases fires.2; exact after
      | dispatch reportedId reported => cases fires.2; exact after

theorem Tracked.step (tracked : ledger.Tracked) {next : Ledger Callback}
    {call : Call Callback} (stepped : machine.step ledger call = some next) :
    next.Tracked := by
  rcases machine_step stepped with
    ⟨manager, answer, executed, ⟨rfl, rfl⟩ | ⟨rfl, id, targetIs, rfl⟩⟩
  · rcases execute_ok executed with ⟨_, rfl, _⟩ | ⟨impossible, _⟩
    · exact tracked.base call.operation
    · cases impossible
  · rcases execute_ok executed with ⟨impossible, _⟩ | ⟨_, _, request, _, effect⟩
    · cases impossible
    · exact tracked.effect executed effect targetIs

/-- In every run, whatever epoll answers and reports and however the table grows:
the work of a registration is put into a queue at most once, and never if the
registration has been deleted. -/
theorem deliversOnce_always (calls : List (Call Callback)) :
    machine.Always DeliversOnce .new calls :=
  Machine.always_of_invariant Tracked (fun _ _ _ tracked => tracked.step)
    (fun _ tracked => tracked.deliversOnce) Tracked.new calls

/-- Deleted registrations and delivered ones in one run: the first is deleted, the
second one is delivered although its context has left the table. -/
example : ∃ final : Ledger Unit,
    machine.run .new
      [{ operation := .addEvent 2 .READD (some ()) { scheduler := some 0, fiber := 0 } },
       { operation := .delEvent 2 .READD },
       { operation := .addEvent 2 .WRITE (some ()) { scheduler := some 0, fiber := 0 } },
       { operation := .addEvent 3 .READD (some ()) { scheduler := some 0, fiber := 0 } },
       { operation := .dispatch 2 EPOLLOUT }] = some final ∧
      final.revoked = [0] ∧ final.delivered = [1] := ⟨_, rfl, rfl, rfl⟩

end Ledger

end IOManager

end Sylar.Events
