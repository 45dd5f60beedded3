import Mathlib.Tactic.Common
import Sylar.Events.WellFormed
import Sylar.Foundation.Counting

/-! # Counting pending events

`pending_Event_Size_` is meant to be the number of armed directions in the
table. It stays so exactly as long as the table grows only while nothing is
armed and no armed direction is deleted.
-/

namespace Sylar.Events

open Foundation Scheduling

namespace FdContex

variable {Callback : Type} (contex : FdContex Callback)

def armedCount : Nat := Mask.count contex.event

theorem armedCount_eq : contex.armedCount =
    (contex.armed .READD).toNat + (contex.armed .WRITE).toNat := rfl

theorem armedCount_eq_zero_iff :
    contex.armedCount = 0 ↔ ∀ event, contex.armed event = false := by
  rw [armedCount_eq]
  constructor
  · intro none event
    cases event with
    | NONE => exact contex.armed_NONE
    | READD => simpa using (Nat.add_eq_zero_iff.mp none).1
    | WRITE => simpa using (Nat.add_eq_zero_iff.mp none).2
  · intro clear
    simp [clear]

theorem armedCount_filled {event : Event} (direction : event ≠ .NONE)
    (unarmed : contex.armed event = false) (cb : Option Callback)
    (caller : Caller) :
    (contex.filled event cb caller).armedCount = contex.armedCount + 1 := by
  simp only [armedCount_eq, filled_armed]
  cases event with
  | NONE => exact absurd rfl direction
  | READD => simp [unarmed, Nat.add_comm]
  | WRITE => simp [unarmed]

theorem armedCount_deleted {event : Event} (armed : contex.armed event = true) :
    (contex.deleted event).armedCount = contex.armedCount := by
  rw [armedCount, contex.deleted_event_of_armed armed, armedCount]

theorem armedCount_firedBy {mask : Mask} (covers : contex.Covers mask) :
    (contex.firedBy mask).armedCount + mask.count = contex.armedCount := by
  have readCovered := covers .READD
  have writeCovered := covers .WRITE
  simp only [armedCount_eq, firedBy_armed, Mask.count]
  cases readReported : mask.has .READD <;>
    cases writeReported : mask.has .WRITE <;>
    simp_all [Nat.add_comm]

end FdContex

namespace IOManager

variable {Callback : Type} {manager next : IOManager Callback}

def armedCount (manager : IOManager Callback) : Nat :=
  total FdContex.armedCount manager.objects manager.fdContexs

/-- The counter is the number of armed directions, so that `stopping` finds it
zero exactly when nothing is armed. -/
structure Accounted (manager : IOManager Callback) : Prop where
  counted : manager.pendingEventSize.toNat = manager.armedCount
  zero_iff : manager.pendingEventSize = 0 ↔ manager.Quiet

/-- The table does not grow while something is armed, and the kernel accepts no
deletion of an armed direction. -/
def Countable (manager : IOManager Callback) (call : Call Callback) : Prop :=
  manager.GrowsQuietly call.operation ∧
    ∀ fd event, call.operation = .delEvent fd event →
      manager.armedAt fd event → call.reply = false

theorem armedCount_eq_zero_iff : manager.armedCount = 0 ↔ manager.Quiet := by
  rw [armedCount, total_eq_zero_iff]
  exact forall₂_congr fun id _ => (manager.objects id).armedCount_eq_zero_iff

/-- Counting cannot overflow: there are fewer contexts than `int` descriptors. -/
theorem WellFormed.armedCount_le (formed : manager.WellFormed) :
    manager.armedCount ≤ 2 ^ 33 := by
  have bound : manager.armedCount ≤ manager.fdContexs.length * 2 :=
    total_le 2 fun contex => Mask.count_le contex.event
  have short := formed.short
  omega

theorem accounted_iff (manager : IOManager Callback) :
    manager.Accounted ↔ manager.pendingEventSize.toNat = manager.armedCount := by
  refine ⟨Accounted.counted, fun counted => ⟨counted, ?_⟩⟩
  rw [← armedCount_eq_zero_iff, ← counted, ← UInt64.toNat_inj, UInt64.toNat_zero]

theorem armedCount_settle {id : ContexId} (formed : manager.WellFormed)
    (member : id ∈ manager.fdContexs) (request : EpollRequest)
    (contex : FdContex Callback) (pendingEventSize : UInt64)
    (queued : List (SchedulerId × Work Callback)) :
    (manager.settle request id contex pendingEventSize queued).armedCount +
        (manager.objects id).armedCount =
      manager.armedCount + contex.armedCount :=
  total_update formed.nodup member contex

theorem armedCount_fdContexResize {size : Nat} :
    (manager.fdContexResize size).armedCount = 0 :=
  armedCount_eq_zero_iff.mpr fdContexResize_quiet

theorem pendingEventSize_grown (fd : Int32) :
    (manager.grown fd).pendingEventSize = manager.pendingEventSize := by
  rw [grown]
  split <;> rfl

theorem armedCount_base_iff (operation : Operation Callback) :
    (manager.base operation).armedCount = manager.armedCount ↔
      manager.GrowsQuietly operation := by
  cases operation with
  | addEvent fd event cb caller =>
      unfold base grown GrowsQuietly
      by_cases outside : manager.beyond fd = true
      · simp only [outside, if_true, armedCount_fdContexResize, true_imp_iff]
        rw [eq_comm, armedCount_eq_zero_iff]
      · simp [outside]
  | delEvent | cancelEvent | cancelAll | dispatch => exact iff_of_true rfl trivial

theorem Accounted.base_iff (accounted : manager.Accounted)
    (operation : Operation Callback) :
    (manager.base operation).Accounted ↔ manager.GrowsQuietly operation := by
  have sameSize : (manager.base operation).pendingEventSize =
      manager.pendingEventSize := by
    cases operation with
    | addEvent fd event cb caller => exact pendingEventSize_grown fd
    | delEvent | cancelEvent | cancelAll | dispatch => rfl
  rw [accounted_iff, sameSize, accounted.counted, eq_comm, armedCount_base_iff]

theorem Effect.accounted_iff {request : EpollRequest}
    {operation : Operation Callback} (effect : manager.Effect request operation next)
    (formed : manager.WellFormed) (owned : manager.Owned)
    (accounted : manager.Accounted) :
    next.Accounted ↔
      manager.GrowsQuietly operation ∧
        ∀ fd event, operation ≠ .delEvent fd event := by
  have counted := accounted.counted
  have bound := formed.armedCount_le
  cases effect with
  | @registered fd event cb caller id holds direction unarmed empty callable =>
      have grown := formed.grown fd
      have grownBound := grown.armedCount_le
      have exchanged := armedCount_settle grown holds.mem request
        (((manager.grown fd).objects id).filled event cb caller)
        (manager.pendingEventSize + 1) []
      rw [FdContex.armedCount_filled _ direction unarmed] at exchanged
      have same := manager.armedCount_base_iff (.addEvent fd event cb caller)
      simp only [base] at same
      rw [IOManager.accounted_iff, settle_pendingEventSize, UInt64.toNat_add, ← same]
      simp only [UInt64.toNat_one, ne_eq, reduceCtorEq, not_false_eq_true,
        implies_true, and_true]
      omega
  | @deleted fd event id holds armed =>
      have exchanged := armedCount_settle formed holds.mem request
        ((manager.objects id).deleted event) (manager.pendingEventSize - 1) []
      rw [FdContex.armedCount_deleted _ armed] at exchanged
      have something : manager.armedCount ≠ 0 := by
        intro none
        rw [armedCount_eq_zero_iff.mp none id holds.mem event] at armed
        cases armed
      refine iff_of_false ?_ fun notDeleted => notDeleted.2 fd event rfl
      rw [IOManager.accounted_iff, settle_pendingEventSize, UInt64.toNat_sub,
        UInt64.toNat_one]
      omega
  | @fired operation id mask fires covers something queued =>
      rcases something with ⟨event, reported⟩
      rcases owned id event (covers event reported) with ⟨fd, holds⟩
      have exchanged := armedCount_settle formed holds.mem request
        ((manager.objects id).firedBy mask)
        (manager.pendingEventSize - UInt64.ofNat mask.count) queued
      have fired := (manager.objects id).armedCount_firedBy covers
      have few := mask.count_le
      have small : mask.count % 2 ^ 64 = mask.count := Nat.mod_eq_of_lt (by omega)
      refine iff_of_true ?_ ⟨fires.growsQuietly, fun fd event same => ?_⟩
      · rw [IOManager.accounted_iff, settle_pendingEventSize, UInt64.toNat_sub,
          UInt64.toNat_ofNat', small]
        omega
      · subst same
        exact fires

/-- One step keeps the count exactly if it does not grow the table under armed
directions and does not delete one. -/
theorem Outcome.accounted_iff {call : Call Callback} {answer : Bool}
    (outcome : manager.Outcome call.operation call.reply next answer)
    (formed : manager.WellFormed) (owned : manager.Owned)
    (accounted : manager.Accounted) :
    next.Accounted ↔ manager.Countable call := by
  rcases outcome with ⟨_, rfl, refused⟩ | ⟨_, replied, request, made, effect⟩
  · rw [accounted.base_iff, Countable, iff_self_and]
    intro _ fd event isDelete armed
    rw [isDelete, requestOf_delEvent_eq_none_iff] at refused
    exact refused.resolve_left (not_not.mpr armed)
  · rw [effect.accounted_iff formed owned accounted, Countable, and_congr_right_iff]
    intro _
    constructor
    · exact fun notDelete fd event isDelete => absurd isDelete (notDelete fd event)
    · intro refused fd event isDelete
      have armed : manager.armedAt fd event := by
        by_contra unarmed
        rw [isDelete, requestOf_delEvent_eq_none_iff.mpr unarmed] at made
        cases made
      rw [refused fd event isDelete armed] at replied
      cases replied

theorem new_accounted : (new : IOManager Callback).Accounted :=
  (accounted_iff new).mpr rfl

/-- `pending_Event_Size_` is the number of armed directions in every state of a
run exactly if no step of it grows the table under armed directions or deletes an
armed direction. -/
theorem pendingEventSize_counts (calls : List (Call Callback)) :
    machine.Always Accounted new calls ↔ machine.StepsMeet Countable new calls := by
  refine Machine.always_iff_stepsMeet (fun manager => manager.WellFormed ∧ manager.Owned)
    ?_ ?_ ⟨new_wellFormed, new_owned⟩ new_accounted calls
  · intro manager call next ⟨formed, owned⟩ _ countable stepped
    rcases machine_step stepped with ⟨answer, outcome⟩
    exact ⟨outcome.wellFormed formed, outcome.owned owned countable.1⟩
  · intro manager call next ⟨formed, owned⟩ accounted stepped
    rcases machine_step stepped with ⟨answer, outcome⟩
    exact outcome.accounted_iff formed owned accounted

/-- Deleting the only event leaves its bit set and the counter zero. -/
theorem pendingEventSize_counts_fails :
    ¬(machine : Machine (IOManager Unit) (Call Unit)).Always Accounted new
      [{ operation := .addEvent 3 .READD (some ()) { scheduler := some 0, fiber := 0 } },
       { operation := .delEvent 3 .READD }] := by
  intro always
  have counted := (always.last rfl).counted
  exact absurd counted (by decide)

end IOManager

end Sylar.Events
