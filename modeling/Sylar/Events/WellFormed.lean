import Mathlib.Algebra.Order.Ring.Nat
import Mathlib.Tactic.Common
import Sylar.Events.Effects

/-! # What every run keeps

The table holds distinct contexts that have been allocated and are numbered by
their positions, no context that is still to be allocated is armed, and all
masks consist of directions.
-/

namespace Sylar.Events

open Foundation Scheduling

namespace IOManager

variable {Callback : Type} {manager next : IOManager Callback}

structure WellFormed (manager : IOManager Callback) : Prop where
  nodup : manager.fdContexs.Nodup
  allocated : ∀ id ∈ manager.fdContexs, id < manager.allocated
  short : manager.fdContexs.length ≤ 2 ^ 32
  fresh : ∀ id, manager.allocated ≤ id → (manager.objects id).event = 0#32
  legal : ∀ id, (manager.objects id).event.Legal
  numbered : ∀ fd id, manager.Holds fd id → (manager.objects id).fd = fd

theorem Holds.mem {fd : Int32} {id : ContexId} (holds : manager.Holds fd id) :
    id ∈ manager.fdContexs :=
  List.mem_of_getElem? holds.2

theorem Holds.inj {fd : Int32} {id other : ContexId}
    (holds : manager.Holds fd id) (holdsOther : manager.Holds fd other) :
    id = other :=
  Option.some.inj (holds.2.symm.trans holdsOther.2)

theorem WellFormed.lt_of_armed (formed : manager.WellFormed) {id : ContexId}
    {event : Event} (armed : (manager.objects id).armed event = true) :
    id < manager.allocated := by
  by_contra beyond
  have clear := formed.fresh id (Nat.le_of_not_lt beyond)
  simp [FdContex.armed, clear, Mask.has] at armed

@[simp] theorem settle_holds {request : EpollRequest} {id : ContexId}
    {contex : FdContex Callback} {pendingEventSize : UInt64}
    {queued : List (SchedulerId × Work Callback)} {fd : Int32} {other : ContexId} :
    (manager.settle request id contex pendingEventSize queued).Holds fd other ↔
      manager.Holds fd other := Iff.rfl

/-! ## Armed directions -/

def armedAt (manager : IOManager Callback) (fd : Int32) (event : Event) : Prop :=
  ∃ id, manager.lookup fd = some id ∧ (manager.objects id).armed event = true

def Quiet (manager : IOManager Callback) : Prop :=
  ∀ id ∈ manager.fdContexs, ∀ event, (manager.objects id).armed event = false

def GrowsQuietly (manager : IOManager Callback) : Operation Callback → Prop
  | .addEvent fd _ _ _ => manager.beyond fd = true → manager.Quiet
  | .delEvent .. | .cancelEvent .. | .cancelAll _ | .dispatch .. => True

def Owned (manager : IOManager Callback) : Prop :=
  ∀ id event, (manager.objects id).armed event = true → ∃ fd, manager.Holds fd id

theorem Owned.quiet_objects (owned : manager.Owned) (quiet : manager.Quiet)
    (id : ContexId) (event : Event) : (manager.objects id).armed event = false := by
  by_contra armed
  rcases owned id event (by simpa using armed) with ⟨fd, holds⟩
  exact armed (quiet id holds.mem event)

theorem remove_eq_none_iff {fd : Int32} {event : Event} :
    ((manager.lookup fd).bind fun id =>
        (manager.objects id).removeRequest id event) = none ↔
      ¬manager.armedAt fd event := by
  rw [Option.bind_eq_none_iff, armedAt, not_exists]
  apply forall_congr'
  intro id
  rw [not_and]
  apply imp_congr_right
  intro _
  simp [FdContex.removeRequest]

theorem requestOf_delEvent_eq_none_iff {fd : Int32} {event : Event} :
    manager.requestOf (.delEvent fd event) = none ↔ ¬manager.armedAt fd event :=
  remove_eq_none_iff

theorem requestOf_cancelEvent_eq_none_iff {fd : Int32} {event : Event} :
    manager.requestOf (.cancelEvent fd event) = none ↔
      ¬manager.armedAt fd event :=
  remove_eq_none_iff

/-! ## Growth -/

theorem fdContexResize_object {size : Nat} {id : ContexId}
    (member : id ∈ (manager.fdContexResize size).fdContexs) :
    (manager.fdContexResize size).objects id =
      { fd := Int32.ofNat (id - manager.allocated) } := by
  have range := List.mem_range'_1.mp member
  simp [fdContexResize, range]

theorem fdContexResize_holds {size : Nat} {fd : Int32} {id : ContexId} :
    (manager.fdContexResize size).Holds fd id ↔
      0 ≤ fd ∧ fd.toNatClampNeg < size ∧
        id = manager.allocated + fd.toNatClampNeg := by
  have position : (manager.fdContexResize size).fdContexs =
      List.range' manager.allocated size := rfl
  rw [Holds, position, List.getElem?_eq_some_iff]
  simp only [List.length_range', List.getElem_range', Nat.one_mul, exists_prop]
  exact and_congr_right fun _ => and_congr_right fun _ => eq_comm

theorem WellFormed.fdContexResize (formed : manager.WellFormed) {size : Nat}
    (short : size ≤ 2 ^ 32) : (manager.fdContexResize size).WellFormed where
  nodup := List.nodup_range'
  allocated id member := (List.mem_range'_1.mp member).2
  short := by simpa [IOManager.fdContexResize] using short
  fresh id later := by
    have past : manager.allocated + size ≤ id := later
    have outside : ¬(manager.allocated ≤ id ∧ id < manager.allocated + size) := by
      omega
    simp only [IOManager.fdContexResize, outside, if_false]
    exact formed.fresh id (Nat.le_trans (Nat.le_add_right _ _) past)
  legal id := by
    simp only [IOManager.fdContexResize]
    split
    · exact Event.NONE.bits_legal
    · exact formed.legal id
  numbered fd id holds := by
    rw [fdContexResize_object holds.mem]
    have offset : id - manager.allocated = fd.toNatClampNeg := by
      rw [(fdContexResize_holds.mp holds).2.2, Nat.add_sub_cancel_left]
    rw [offset]
    exact Int32.ofNat_toNatClampNeg fd holds.1

theorem fdContexResize_quiet {size : Nat} :
    (manager.fdContexResize size).Quiet := by
  intro id member event
  rw [fdContexResize_object member]
  simp [FdContex.armed, Mask.has, Event.bits]

theorem Owned.fdContexResize (owned : manager.Owned) (quiet : manager.Quiet)
    {size : Nat} : (manager.fdContexResize size).Owned := by
  intro id event armed
  by_cases member : id ∈ (manager.fdContexResize size).fdContexs
  · rw [fdContexResize_quiet id member event] at armed
    cases armed
  · have outside : ¬(manager.allocated ≤ id ∧ id < manager.allocated + size) :=
      fun range => member (List.mem_range'_1.mpr range)
    simp only [IOManager.fdContexResize, outside, if_false] at armed
    rw [owned.quiet_objects quiet id event] at armed
    cases armed

theorem Owned.base (owned : manager.Owned) {operation : Operation Callback}
    (quietly : manager.GrowsQuietly operation) :
    (manager.base operation).Owned := by
  cases operation with
  | addEvent fd event cb caller =>
      rw [IOManager.base, grown]
      by_cases outside : manager.beyond fd = true
      · rw [if_pos outside]
        exact owned.fdContexResize (quietly outside)
      · rw [if_neg outside]
        exact owned
  | delEvent | cancelEvent | cancelAll | dispatch => exact owned

theorem WellFormed.grown (formed : manager.WellFormed) (fd : Int32) :
    (manager.grown fd).WellFormed := by
  rw [IOManager.grown]
  split
  · apply formed.fdContexResize
    have bound := Int32.toNatClampNeg_lt fd
    omega
  · exact formed

theorem WellFormed.base (formed : manager.WellFormed)
    (operation : Operation Callback) : (manager.base operation).WellFormed := by
  cases operation with
  | addEvent fd event cb caller => exact formed.grown fd
  | delEvent | cancelEvent | cancelAll | dispatch => exact formed

/-! ## Steps -/

theorem WellFormed.settle (formed : manager.WellFormed) {id : ContexId}
    (old : id < manager.allocated) {contex : FdContex Callback}
    (legal : contex.event.Legal) (sameFd : contex.fd = (manager.objects id).fd)
    (request : EpollRequest) (pendingEventSize : UInt64)
    (queued : List (SchedulerId × Work Callback)) :
    (manager.settle request id contex pendingEventSize queued).WellFormed where
  nodup := formed.nodup
  allocated := formed.allocated
  short := formed.short
  fresh other later := by
    have apart : other ≠ id := by
      intro same
      subst same
      exact Nat.not_le.mpr old later
    simpa [apart] using formed.fresh other later
  legal other := by
    by_cases same : other = id
    · simpa [same] using legal
    · simpa [same] using formed.legal other
  numbered fd other holds := by
    have number := formed.numbered fd other holds
    by_cases same : other = id
    · subst same
      simpa [sameFd] using number
    · simpa [same] using number

theorem Effect.wellFormed {request : EpollRequest}
    {operation : Operation Callback} (effect : manager.Effect request operation next)
    (formed : manager.WellFormed) : next.WellFormed := by
  cases effect with
  | @registered fd event cb caller id holds direction unarmed empty callable =>
      have grown := formed.grown fd
      exact grown.settle (grown.allocated id holds.mem)
        (FdContex.filled_legal _ (grown.legal id) event cb caller)
        (FdContex.filled_fd _ event cb caller) ..
  | @deleted fd event id holds armed =>
      exact formed.settle (formed.lt_of_armed armed)
        (FdContex.deleted_legal _ (formed.legal id) event)
        (FdContex.deleted_fd _ event) ..
  | @fired operation id mask fires covers something queued =>
      rcases something with ⟨event, reported⟩
      exact formed.settle (formed.lt_of_armed (covers event reported))
        (FdContex.firedBy_legal _ (formed.legal id) mask)
        (FdContex.firedBy_fd _ mask) ..

theorem execute_of_step {call : Call Callback}
    (stepped : machine.step manager call = some next) :
    ∃ answer, manager.execute call = .ok (next, answer) := by
  simp only [machine] at stepped
  generalize executed : manager.execute call = outcome at stepped
  cases outcome with
  | error fault => cases stepped
  | ok outcome =>
      cases stepped
      exact ⟨outcome.2, rfl⟩

theorem machine_step {call : Call Callback}
    (stepped : machine.step manager call = some next) :
    ∃ answer, manager.Outcome call.operation call.reply next answer := by
  rcases execute_of_step stepped with ⟨answer, returned⟩
  exact ⟨answer, execute_ok returned⟩

theorem Outcome.wellFormed {operation : Operation Callback} {reply answer : Bool}
    (outcome : manager.Outcome operation reply next answer)
    (formed : manager.WellFormed) : next.WellFormed := by
  rcases outcome with ⟨_, rfl, _⟩ | ⟨_, _, request, _, effect⟩
  · exact formed.base operation
  · exact effect.wellFormed formed

theorem Owned.settle (owned : manager.Owned) {id : ContexId}
    {contex : FdContex Callback}
    (held : ∀ event, contex.armed event = true → ∃ fd, manager.Holds fd id)
    (request : EpollRequest) (pendingEventSize : UInt64)
    (queued : List (SchedulerId × Work Callback)) :
    (manager.settle request id contex pendingEventSize queued).Owned := by
  intro other event armed
  by_cases same : other = id
  · subst same
    exact held event (by simpa using armed)
  · exact owned other event (by simpa [same] using armed)

theorem Fires.base_eq {operation : Operation Callback} {id : ContexId} {mask : Mask}
    (fires : manager.Fires operation id mask) : manager.base operation = manager := by
  cases operation with
  | addEvent => exact fires.elim
  | delEvent | cancelEvent | cancelAll | dispatch => rfl

theorem Fires.target_eq {operation : Operation Callback} {id found : ContexId}
    {mask : Mask} (fires : manager.Fires operation id mask)
    (targetIs : manager.target operation = some found) : found = id := by
  cases operation with
  | addEvent | delEvent => exact fires.elim
  | cancelEvent | cancelAll => exact (lookup_eq_some.mp targetIs).2.inj fires.1
  | dispatch => exact (Option.some.inj targetIs).symm.trans fires.1

theorem Fires.growsQuietly {operation : Operation Callback} {id : ContexId}
    {mask : Mask} (fires : manager.Fires operation id mask) :
    manager.GrowsQuietly operation := by
  cases operation with
  | addEvent => exact fires.elim
  | delEvent | cancelEvent | cancelAll | dispatch => trivial

theorem Effect.owned {request : EpollRequest} {operation : Operation Callback}
    (effect : manager.Effect request operation next)
    (owned : (manager.base operation).Owned) : next.Owned := by
  cases effect with
  | @registered fd event cb caller id holds direction unarmed empty callable =>
      exact Owned.settle owned (fun _ _ => ⟨fd, holds⟩) request _ _
  | @deleted fd event id holds armed =>
      exact Owned.settle owned (fun _ _ => ⟨fd, holds⟩) request _ _
  | @fired operation id mask fires covers something queued =>
      rw [fires.base_eq] at owned
      refine owned.settle (fun event armed => ?_) request _ queued
      rw [FdContex.firedBy_armed, Bool.and_eq_true] at armed
      exact owned id event armed.1

theorem Outcome.owned {operation : Operation Callback} {reply answer : Bool}
    (outcome : manager.Outcome operation reply next answer)
    (owned : manager.Owned) (quietly : manager.GrowsQuietly operation) :
    next.Owned := by
  rcases outcome with ⟨_, rfl, _⟩ | ⟨_, _, request, _, effect⟩
  · exact owned.base quietly
  · exact effect.owned (owned.base quietly)

theorem new_owned : (new : IOManager Callback).Owned := by
  intro id event armed
  simp [new, FdContex.armed, Mask.has, Event.bits] at armed

theorem new_wellFormed : (new : IOManager Callback).WellFormed where
  nodup := List.nodup_nil
  allocated _ member := absurd member List.not_mem_nil
  short := Nat.zero_le _
  fresh _ _ := rfl
  legal _ := Event.NONE.bits_legal
  numbered _ _ holds := absurd holds.mem List.not_mem_nil

theorem WellFormed.run (formed : manager.WellFormed) {calls : List (Call Callback)}
    (ran : machine.run manager calls = some next) : next.WellFormed := by
  apply Machine.run_induction ?_ formed ran
  intro before call after beforeFormed stepped
  rcases machine_step stepped with ⟨answer, outcome⟩
  exact outcome.wellFormed beforeFormed

end IOManager

end Sylar.Events
