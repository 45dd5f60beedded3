import Mathlib.Tactic.Common
import Sylar.Scheduling.Entry

/-! # Descriptor contexts

`FdContex` keeps, for one descriptor, the mask of armed directions and a slot
for each direction. Masks are the 32-bit words the code computes with, and the
directions have the values of the corresponding epoll bits.
-/

namespace Sylar.Events

open Scheduling

inductive Event
  | NONE
  | READD
  | WRITE
  deriving DecidableEq, Repr

abbrev Mask := BitVec 32

def Event.bits : Event → Mask
  | .NONE => 0x0#32
  | .READD => 0x1#32
  | .WRITE => 0x4#32

def Mask.has (mask : Mask) (event : Event) : Bool :=
  event.bits &&& mask != 0

def EPOLLIN : Mask := 0x001#32
def EPOLLOUT : Mask := 0x004#32
def EPOLLERR : Mask := 0x008#32
def EPOLLHUP : Mask := 0x010#32
def EPOLLET : Mask := 0x80000000#32

/-! ## Bits -/

def Event.position : Event → Nat
  | .NONE => 32
  | .READD => 0
  | .WRITE => 2

theorem Event.bits_eq_twoPow {event : Event} (direction : event ≠ .NONE) :
    event.bits = BitVec.twoPow 32 event.position := by
  cases event with
  | NONE => exact absurd rfl direction
  | READD => rfl
  | WRITE => rfl

theorem Mask.has_eq_getLsbD (mask : Mask) (event : Event) :
    mask.has event = mask.getLsbD event.position := by
  by_cases direction : event = .NONE
  · subst direction
    simp [Mask.has, Event.bits, Event.position]
  · rw [Mask.has, Event.bits_eq_twoPow direction, BitVec.twoPow_and]
    have nonzero : (BitVec.twoPow 32 event.position != 0#32) = true := by
      rw [← Event.bits_eq_twoPow direction]
      cases event with
      | NONE => exact absurd rfl direction
      | READD => rfl
      | WRITE => rfl
    cases mask.getLsbD event.position with
    | false => rfl
    | true => exact nonzero

@[simp] theorem Mask.has_or (left right : Mask) (event : Event) :
    Mask.has (left ||| right) event = (left.has event || right.has event) := by
  simp [Mask.has_eq_getLsbD]

@[simp] theorem Mask.has_and (left right : Mask) (event : Event) :
    Mask.has (left &&& right) event = (left.has event && right.has event) := by
  simp [Mask.has_eq_getLsbD]

theorem Mask.has_not (mask : Mask) {event : Event} (direction : event ≠ .NONE) :
    Mask.has (~~~mask) event = !mask.has event := by
  cases event with
  | NONE => exact absurd rfl direction
  | READD => simp [Mask.has_eq_getLsbD, Event.position]
  | WRITE => simp [Mask.has_eq_getLsbD, Event.position]

@[simp] theorem Mask.has_NONE (mask : Mask) : mask.has .NONE = false := by
  simp [Mask.has, Event.bits]

theorem Mask.has_bits (left right : Event) :
    left.bits.has right = (decide (left = right) && decide (left ≠ .NONE)) := by
  cases left <;> cases right <;> rfl

def Mask.Legal (mask : Mask) : Prop :=
  ∀ position, mask.getLsbD position = true → position = 0 ∨ position = 2

theorem Event.bits_legal (event : Event) : event.bits.Legal := by
  intro position bit
  cases event with
  | NONE => simp [Event.bits] at bit
  | READD =>
      rw [Event.bits_eq_twoPow (by simp), BitVec.getLsbD_twoPow] at bit
      exact Or.inl (of_decide_eq_true (Bool.and_eq_true_iff.mp bit).2).symm
  | WRITE =>
      rw [Event.bits_eq_twoPow (by simp), BitVec.getLsbD_twoPow] at bit
      exact Or.inr (of_decide_eq_true (Bool.and_eq_true_iff.mp bit).2).symm

theorem Mask.Legal.or {left right : Mask} (leftLegal : left.Legal)
    (rightLegal : right.Legal) : Mask.Legal (left ||| right) := by
  intro position bit
  rw [BitVec.getLsbD_or, Bool.or_eq_true] at bit
  exact bit.elim (leftLegal position) (rightLegal position)

theorem Mask.Legal.and {right : Mask} (rightLegal : right.Legal) (left : Mask) :
    Mask.Legal (left &&& right) := by
  intro position bit
  rw [BitVec.getLsbD_and, Bool.and_eq_true] at bit
  exact rightLegal position bit.2

theorem Mask.Legal.ext {left right : Mask} (leftLegal : left.Legal)
    (rightLegal : right.Legal) (same : ∀ event, left.has event = right.has event) :
    left = right := by
  apply BitVec.eq_of_getLsbD_eq
  intro position _
  by_cases atRead : position = 0
  · simpa [Mask.has_eq_getLsbD, Event.position, atRead] using same .READD
  · by_cases atWrite : position = 2
    · simpa [Mask.has_eq_getLsbD, Event.position, atWrite] using same .WRITE
    · have leftClear : left.getLsbD position = false := by
        by_contra bit
        rcases leftLegal position (by simpa using bit) with isRead | isWrite
        · exact atRead isRead
        · exact atWrite isWrite
      have rightClear : right.getLsbD position = false := by
        by_contra bit
        rcases rightLegal position (by simpa using bit) with isRead | isWrite
        · exact atRead isRead
        · exact atWrite isWrite
      rw [leftClear, rightClear]

/-! ## Faults -/

inductive Site
  | getEventConetx
  | triggerEvent
  | eventSlot
  | currentFiber
  | cancelAll
  deriving DecidableEq, Repr

inductive Undefined
  | indexOutOfRange
  | negativeSize
  | nullScheduler
  deriving DecidableEq, Repr

inductive Fault
  | assertion (site : Site)
  | undefined (cause : Undefined)
  deriving DecidableEq, Repr

structure FdEvent (Callback : Type) where
  cb : Option Callback := none
  fiber : Option FiberId := none
  scheduler : Option SchedulerId := none
  deriving DecidableEq, Repr

def FdEvent.IsEmpty (slot : FdEvent Callback) : Prop :=
  slot.scheduler = none ∧ slot.cb = none ∧ slot.fiber = none

instance (slot : FdEvent Callback) : Decidable slot.IsEmpty := by
  cases slot with
  | mk cb fiber scheduler =>
      exact decidable_of_iff
        (scheduler.isNone = true ∧ cb.isNone = true ∧ fiber.isNone = true)
        (by simp [FdEvent.IsEmpty])

/-- What `triggerEvent` hands to the slot's scheduler. A callback goes before a
fiber, and an empty slot hands over nothing. -/
def FdEvent.handOver (slot : FdEvent Callback) :
    Except Fault (List (SchedulerId × Work Callback)) :=
  match slot.cb, slot.fiber with
  | some callback, _ =>
      match slot.scheduler with
      | some scheduler => .ok [(scheduler, .cb callback)]
      | none => .error (.undefined .nullScheduler)
  | none, some fiber =>
      match slot.scheduler with
      | some scheduler => .ok [(scheduler, .fiber fiber)]
      | none => .error (.undefined .nullScheduler)
  | none, none => .ok []

structure FdContex (Callback : Type) where
  write : FdEvent Callback := {}
  read : FdEvent Callback := {}
  fd : Int32
  event : Mask := Event.NONE.bits

namespace FdContex

variable {Callback : Type}

def armed (contex : FdContex Callback) (event : Event) : Bool :=
  contex.event.has event

def slot (contex : FdContex Callback) : Event → FdEvent Callback
  | .NONE => {}
  | .READD => contex.read
  | .WRITE => contex.write

def setSlot (contex : FdContex Callback) (event : Event)
    (slot : FdEvent Callback) : FdContex Callback :=
  match event with
  | .NONE => contex
  | .READD => { contex with read := slot }
  | .WRITE => { contex with write := slot }

/-- `getEventConetx`; its default case cannot be reached by an armed event. -/
def getEventConetx (contex : FdContex Callback) (event : Event) :
    Except Fault (FdEvent Callback) :=
  if contex.armed event then .ok (contex.slot event)
  else .error (.assertion .getEventConetx)

/-- `triggerEvent`: clear the bit, hand the slot's work to its scheduler by
copy, and clear the scheduler pointer. The callback and the fiber stay. -/
def triggerEvent (contex : FdContex Callback) (event : Event) :
    Except Fault (FdContex Callback × List (SchedulerId × Work Callback)) :=
  if contex.armed event then do
    let fdEvent ← contex.getEventConetx event
    let cleared := { contex with event := contex.event &&& ~~~event.bits }
    let queued ← fdEvent.handOver
    return (cleared.setSlot event { fdEvent with scheduler := none }, queued)
  else .error (.assertion .triggerEvent)

def resetContex (contex : FdContex Callback) (event : Event) :
    FdContex Callback :=
  contex.setSlot event {}

end FdContex

end Sylar.Events
