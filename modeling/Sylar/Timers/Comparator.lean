import Mathlib.Data.Set.Basic
import Sylar.Timers.TimerManager

/-! # The comparator as the order of a set

`std::set` needs a strict weak order of its keys, and the manager reads the earliest
deadline off the first of them. The comparator is a strict partial order whatever the
deadlines are, and the order that is needed only if they are all the same.
-/

namespace Sylar.Timers

variable {Callback : Type u}

def PointsInto (timers : Set Addr) (pointer : Option Addr) : Prop :=
  ∀ timer ∈ pointer, timer ∈ timers

def Incomparable (objects : Addr → Timer Callback) (a b : Option Addr) : Prop :=
  comparator objects a b = false ∧ comparator objects b a = false

/-- What a set of timers relies on: a strict weak order of the pointers, null included, in
which different pointers are never equivalent and earlier deadlines come first. -/
structure OrdersByDeadline (objects : Addr → Timer Callback) (timers : Set Addr) : Prop where
  irreflexive : ∀ a, PointsInto timers a → comparator objects a a = false
  transitive : ∀ a b c, PointsInto timers a → PointsInto timers b → PointsInto timers c →
    comparator objects a b = true → comparator objects b c = true →
    comparator objects a c = true
  incomparable : ∀ a b c, PointsInto timers a → PointsInto timers b → PointsInto timers c →
    Incomparable objects a b → Incomparable objects b c → Incomparable objects a c
  total : ∀ a b, PointsInto timers a → PointsInto timers b → Incomparable objects a b → a = b
  earlier : ∀ a ∈ timers, ∀ b ∈ timers, (objects a).nextMs < (objects b).nextMs →
    comparator objects (some a) (some b) = true
  /-- The first of several pointers has the earliest deadline. -/
  first : ∀ a ∈ timers, ∀ others : List Addr, (∀ b ∈ others, b ∈ timers) →
    (∀ b ∈ others, comparator objects (some a) (some b) = true) →
    ∀ b ∈ others, (objects a).nextMs ≤ (objects b).nextMs

theorem pointsInto_some {timers : Set Addr} {timer : Addr} :
    PointsInto timers (some timer) ↔ timer ∈ timers := by
  simp [PointsInto]

theorem comparator_irreflexive (objects : Addr → Timer Callback) (a : Option Addr) :
    comparator objects a a = false := by
  cases a with
  | none => rfl
  | some a => rw [comparator_some, before_irreflexive]

theorem comparator_transitive (objects : Addr → Timer Callback) {a b c : Option Addr}
    (left : comparator objects a b = true) (right : comparator objects b c = true) :
    comparator objects a c = true := by
  cases b with
  | none => cases a <;> cases left
  | some b =>
      cases c with
      | none => cases right
      | some c =>
          cases a with
          | none => rfl
          | some a =>
              rw [comparator_some] at left right ⊢
              exact before_transitive _ a b c left right

theorem comparator_of_lt {objects : Addr → Timer Callback} {a b : Addr}
    (earlier : (objects a).nextMs < (objects b).nextMs) :
    comparator objects (some a) (some b) = false :=
  if_pos earlier

def rank : Option Addr → Nat
  | none => 0
  | some timer => timer + 1

theorem rank_injective {a b : Option Addr} (same : rank a = rank b) : a = b := by
  cases a with
  | none =>
      cases b with
      | none => rfl
      | some b => cases same
  | some a =>
      cases b with
      | none => cases same
      | some b => exact congrArg some (Nat.succ.inj same)

section Simultaneous

variable {objects : Addr → Timer Callback} {timers : Set Addr}

theorem comparator_iff_rank
    (simultaneous : ∀ a ∈ timers, ∀ b ∈ timers, (objects a).nextMs = (objects b).nextMs)
    {a b : Option Addr} (left : PointsInto timers a) (right : PointsInto timers b) :
    comparator objects a b = true ↔ rank a < rank b := by
  cases a with
  | none => cases b <;> simp [comparator, rank]
  | some a =>
      cases b with
      | none => simp [comparator, rank]
      | some b =>
          have same := simultaneous a (pointsInto_some.mp left) b (pointsInto_some.mp right)
          have notEarlier : ¬(objects a).nextMs < (objects b).nextMs := by
            rw [same]
            exact UInt64.lt_irrefl _
          rw [comparator, if_neg notEarlier]
          simp [rank]

theorem incomparable_iff_rank
    (simultaneous : ∀ a ∈ timers, ∀ b ∈ timers, (objects a).nextMs = (objects b).nextMs)
    {a b : Option Addr} (left : PointsInto timers a) (right : PointsInto timers b) :
    Incomparable objects a b ↔ rank a = rank b := by
  rw [Incomparable, ← Bool.not_eq_true, ← Bool.not_eq_true,
    comparator_iff_rank simultaneous left right, comparator_iff_rank simultaneous right left]
  omega

theorem ordersByDeadline_of_simultaneous
    (simultaneous : ∀ a ∈ timers, ∀ b ∈ timers, (objects a).nextMs = (objects b).nextMs) :
    OrdersByDeadline objects timers := by
  constructor
  · exact fun a _ => comparator_irreflexive objects a
  · exact fun a b c _ _ _ before after => comparator_transitive objects before after
  · intro a b c first second third before after
    rw [incomparable_iff_rank simultaneous first second] at before
    rw [incomparable_iff_rank simultaneous second third] at after
    rw [incomparable_iff_rank simultaneous first third]
    exact before.trans after
  · intro a b left right neither
    exact rank_injective ((incomparable_iff_rank simultaneous left right).mp neither)
  · intro a left b right earlier
    rw [simultaneous a left b right] at earlier
    exact absurd earlier (UInt64.lt_irrefl _)
  · intro a left others inside _ b member
    rw [simultaneous a left b (inside b member)]
    exact UInt64.le_refl _

end Simultaneous

/-- The comparator orders a set of timers by deadline exactly if there is no order of
deadlines to keep: all of them are the same. -/
theorem ordersByDeadline_iff (objects : Addr → Timer Callback) (timers : Set Addr) :
    OrdersByDeadline objects timers ↔
      ∀ a ∈ timers, ∀ b ∈ timers, (objects a).nextMs = (objects b).nextMs := by
  constructor
  · intro orders a left b right
    have notEarlier {a b : Addr} (left : a ∈ timers) (right : b ∈ timers) :
        ¬(objects a).nextMs < (objects b).nextMs := by
      intro earlier
      have before := orders.earlier a left b right earlier
      rw [comparator_of_lt earlier] at before
      cases before
    exact UInt64.le_antisymm (UInt64.not_lt.mp (notEarlier right left))
      (UInt64.not_lt.mp (notEarlier left right))
  · exact ordersByDeadline_of_simultaneous

/-- The timer at address 1 has the earliest deadline and cannot be compared with the two others.
Of these the one with the later deadline comes first. -/
theorem ordersByDeadline_fails :
    let objects (timer : Addr) : Timer Unit :=
      { nextMs := if timer = 1 then 10 else if timer = 2 then 30 else 20 }
    (Incomparable objects (some 2) (some 1) ∧ Incomparable objects (some 1) (some 3) ∧
      ¬Incomparable objects (some 2) (some 3)) ∧
    comparator objects (some 2) (some 3) = true ∧
    ¬OrdersByDeadline objects {timer | timer ∈ [1, 2, 3]} := by
  intro objects
  refine ⟨⟨⟨by decide, by decide⟩, ⟨by decide, by decide⟩, ?_⟩, by decide, ?_⟩
  · intro neither
    exact absurd neither.1 (by decide)
  · intro orders
    have before := orders.earlier 1 (by simp) 2 (by simp) (by decide)
    exact absurd before (by decide)

end Sylar.Timers
