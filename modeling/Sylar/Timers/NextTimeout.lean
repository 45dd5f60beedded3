import Sylar.Timers.Notification

/-! # How long a worker may sleep

`getNextTImer` reads the timer in front of the set, which is the one with the latest
deadline. It gives the time to the earliest only where the two do not differ in it.
-/

namespace Sylar.Timers

open Foundation Foundation.SearchTree

namespace TimerManager

variable {Callback : Type u} {manager : TimerManager Callback}

def getNextTImer (manager : TimerManager Callback) (now : UInt64) : UInt64 :=
  match toList manager.timers with
  | [] => 18446744073709551615
  | next :: _ => if manager.deadline next < now then 0 else manager.deadline next - now

/-- The largest number says that no timer is pending, and any other how far the earliest
deadline is away. -/
def TellsNext (manager : TimerManager Callback) (now : UInt64) : Prop :=
  (manager.getNextTImer now = 18446744073709551615 ↔ toList manager.timers = []) ∧
    ∀ least, manager.earliest = some least →
      (manager.getNextTImer now).toNat = least.toNat - now.toNat

/-- The pending timers are all due, or they have the same deadline; and none is as far away
as the largest number. -/
def Foreseeable (manager : TimerManager Callback) (now : UInt64) : Prop :=
  ((∀ timer ∈ toList manager.timers, manager.deadline timer ≤ now) ∨
      ∀ timer ∈ toList manager.timers, ∀ other ∈ toList manager.timers,
        manager.deadline timer = manager.deadline other) ∧
    ∀ timer ∈ toList manager.timers, now = 0 →
      manager.deadline timer ≠ 18446744073709551615

theorem toNat_getNextTImer {first : Addr} {rest : List Addr}
    (timers : toList manager.timers = first :: rest) (now : UInt64) :
    (manager.getNextTImer now).toNat = (manager.deadline first).toNat - now.toNat := by
  simp only [getNextTImer, timers]
  split
  · next past =>
      have passed := UInt64.lt_iff_toNat_lt.mp past
      rw [Nat.sub_eq_zero_of_le (Nat.le_of_lt passed)]
      rfl
  · next ahead => exact UInt64.toNat_sub_of_le _ _ (UInt64.not_lt.mp ahead)

section Front

variable {first : Addr} {rest : List Addr}

theorem IsChain.due_iff (chain : manager.IsChain)
    (timers : toList manager.timers = first :: rest) (now : UInt64) :
    (∀ timer ∈ toList manager.timers, manager.deadline timer ≤ now) ↔
      manager.deadline first ≤ now := by
  constructor
  · intro due
    exact due first (timers ▸ List.mem_cons_self)
  · intro firstDue timer member
    exact UInt64.le_trans (chain.deadline_le_first timers member) firstDue

theorem IsChain.same_iff (chain : manager.IsChain)
    (timers : toList manager.timers = first :: rest) {least : UInt64}
    (earliest : manager.earliest = some least) :
    (∀ timer ∈ toList manager.timers, ∀ other ∈ toList manager.timers,
        manager.deadline timer = manager.deadline other) ↔
      manager.deadline first = least := by
  rcases List.min?_eq_some_iff.mp earliest with ⟨member, isLeast⟩
  constructor
  · intro same
    rcases List.mem_map.mp member with ⟨last, pending, rfl⟩
    exact same first (timers ▸ List.mem_cons_self) last pending
  · intro firstIsLeast
    have all : ∀ timer ∈ toList manager.timers, manager.deadline timer = least := by
      intro timer pending
      apply UInt64.le_antisymm
      · exact firstIsLeast ▸ chain.deadline_le_first timers pending
      · exact isLeast _ (List.mem_map_of_mem pending)
    intro timer pending other otherPending
    rw [all timer pending, all other otherPending]

/-- The timer in front tells the time to the least deadline if that is its own, or if it
is due itself. -/
theorem tells_first_iff (timers : toList manager.timers = first :: rest) (now : UInt64)
    {least : UInt64} (earliest : manager.earliest = some least) :
    (manager.getNextTImer now).toNat = least.toNat - now.toNat ↔
      manager.deadline first ≤ now ∨ manager.deadline first = least := by
  have notLater : least ≤ manager.deadline first :=
    (List.min?_eq_some_iff.mp earliest).2 _
      (List.mem_map_of_mem (timers ▸ List.mem_cons_self))
  rw [toNat_getNextTImer timers, UInt64.le_iff_toNat_le, ← UInt64.toNat_inj]
  rw [UInt64.le_iff_toNat_le] at notLater
  omega

theorem IsChain.isNone_iff (chain : manager.IsChain)
    (timers : toList manager.timers = first :: rest) (now : UInt64) :
    manager.getNextTImer now ≠ 18446744073709551615 ↔
      ∀ timer ∈ toList manager.timers, now = 0 →
        manager.deadline timer ≠ 18446744073709551615 := by
  have size : (18446744073709551615 : UInt64).toNat = 18446744073709551615 := rfl
  have bound := UInt64.toNat_lt (manager.deadline first)
  have isLargest : manager.getNextTImer now = 18446744073709551615 ↔
      now = 0 ∧ manager.deadline first = 18446744073709551615 := by
    rw [← UInt64.toNat_inj, ← UInt64.toNat_inj, ← UInt64.toNat_inj, toNat_getNextTImer timers,
      size, UInt64.toNat_zero]
    omega
  rw [ne_eq, isLargest, not_and]
  constructor
  · intro far timer member atZero isFar
    apply far atZero
    have below := chain.deadline_le_first timers member
    rw [isFar] at below
    rw [UInt64.le_iff_toNat_le, size] at below
    rw [← UInt64.toNat_inj, size]
    omega
  · intro far atZero
    exact far first (timers ▸ List.mem_cons_self) atZero

end Front

theorem IsChain.tellsNext_iff (chain : manager.IsChain) (now : UInt64) :
    manager.TellsNext now ↔ manager.Foreseeable now := by
  cases timers : toList manager.timers with
  | nil =>
      simp [TellsNext, Foreseeable, getNextTImer, earliest, timers]
  | cons first rest =>
      rcases Option.isSome_iff_exists.mp
        (show manager.earliest.isSome by simp [earliest, timers]) with ⟨least, isLeast⟩
      have told := tells_first_iff timers now isLeast
      rw [← chain.due_iff timers now, ← chain.same_iff timers isLeast] at told
      rw [TellsNext, Foreseeable, ← chain.isNone_iff timers now, ← told, isLeast]
      simp [timers, and_comm]

/-- In every set that calls lead to, and at every clock reading, the next timeout is told
exactly if it is foreseeable. -/
theorem next_timeout_iff (start : UInt64) (calls : List (Call Callback)) :
    machine.Always (fun manager => ∀ now, manager.TellsNext now ↔ manager.Foreseeable now)
      (.new start) calls := by
  apply Machine.always_of_invariant Valid
  · intro manager call next valid stepped
    rcases machine_step_iff.mp stepped with ⟨enabled, rfl⟩
    exact valid.execute call enabled
  · exact fun manager valid now => valid.chain.tellsNext_iff now
  · exact Valid.new start

/-- A timer due at 1010 stands behind one due at 1020. -/
theorem next_timeout_iff_fails :
    ¬(machine : Machine (TimerManager Unit) (Call Unit)).Always
      (fun manager => ∀ now, manager.TellsNext now) (.new 1000)
      [{ action := .addTimer 1 1000 20 (some ()) false },
       { action := .addTimer 2 1000 10 (some ()) false }] := by
  intro always
  have told := (Machine.Always.last always rfl 1000).2 1010 rfl
  exact absurd told (by decide)

end TimerManager

end Sylar.Timers
