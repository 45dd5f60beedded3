import Mathlib.Logic.Function.Basic
import Mathlib.Tactic.Common

/-! # Shared objects and copy on write

An owner has one object installed at a time, and others may hold pointers to the
objects that are or were installed. An owner that makes the installed object its
own before it writes disturbs nobody.
-/

namespace Sylar.Foundation

abbrev CellId := Nat

structure Shared (Value : Type u) where
  cells : CellId → Value
  /-- The number of objects allocated so far. -/
  allocated : Nat
  installed : CellId
  /-- The pointers the others hold. -/
  holders : List CellId

namespace Shared

variable {Value : Type u}

def single (value : Value) : Shared Value where
  cells := fun _ => value
  allocated := 1
  installed := 0
  holders := []

variable (shared : Shared Value)

def contents : Value := shared.cells shared.installed

def unique : Bool := decide (shared.installed ∉ shared.holders)

def alive (cell : CellId) : Bool :=
  decide (cell = shared.installed ∨ cell ∈ shared.holders)

def modify (cell : CellId) (value : Value) : Shared Value :=
  { shared with cells := Function.update shared.cells cell value }

def write (value : Value) : Shared Value := shared.modify shared.installed value

def copy : Shared Value where
  cells := Function.update shared.cells shared.allocated shared.contents
  allocated := shared.allocated + 1
  installed := shared.allocated
  holders := shared.holders

def unshare : Shared Value := if shared.unique then shared else shared.copy

def acquire : Shared Value :=
  { shared with holders := shared.installed :: shared.holders }

def drop (cell : CellId) : Shared Value :=
  { shared with holders := shared.holders.erase cell }

@[simp] theorem contents_write (value : Value) :
    (shared.write value).contents = value := by
  simp [contents, write, modify]

@[simp] theorem contents_copy : shared.copy.contents = shared.contents := by
  simp [contents, copy]

@[simp] theorem contents_unshare : shared.unshare.contents = shared.contents := by
  rw [unshare]
  split
  · rfl
  · exact contents_copy shared

theorem contents_modify (cell : CellId) (value : Value) :
    (shared.modify cell value).contents =
      if cell = shared.installed then value else shared.contents := by
  by_cases same : cell = shared.installed
  · simp [contents, modify, same]
  · simp [contents, modify, Function.update_of_ne (Ne.symm same), same]

theorem unshare_of_unique (unique : shared.installed ∉ shared.holders) :
    shared.unshare = shared := by
  rw [unshare, Shared.unique, decide_eq_true unique]
  rfl

theorem cells_modify_of_ne {cell other : CellId} (different : other ≠ cell)
    (value : Value) : (shared.modify cell value).cells other = shared.cells other := by
  simp [modify, different]

/-! ## Sound pointers -/

structure Sound : Prop where
  installed : shared.installed < shared.allocated
  holders : ∀ cell ∈ shared.holders, cell < shared.allocated

variable {shared}

theorem Sound.single (value : Value) : (Shared.single value).Sound where
  installed := Nat.zero_lt_one
  holders _ member := absurd member List.not_mem_nil

theorem Sound.modify (sound : shared.Sound) (cell : CellId) (value : Value) :
    (shared.modify cell value).Sound where
  installed := sound.installed
  holders := sound.holders

theorem Sound.acquire (sound : shared.Sound) : shared.acquire.Sound where
  installed := sound.installed
  holders cell member := by
    rcases List.mem_cons.mp member with same | held
    · exact same ▸ sound.installed
    · exact sound.holders cell held

theorem Sound.drop (sound : shared.Sound) (cell : CellId) :
    (shared.drop cell).Sound where
  installed := sound.installed
  holders other member := sound.holders other (List.mem_of_mem_erase member)

theorem Sound.unshare (sound : shared.Sound) : shared.unshare.Sound := by
  rw [Shared.unshare]
  split
  · exact sound
  · exact
      { installed := Nat.lt_succ_self _
        holders := fun cell member => Nat.lt_succ_of_lt (sound.holders cell member) }

theorem Sound.unshare_unique (sound : shared.Sound) :
    shared.unshare.installed ∉ shared.holders := by
  rw [Shared.unshare]
  split
  · next unique => exact of_decide_eq_true unique
  · intro member
    exact Nat.lt_irrefl _ (sound.holders _ member)

theorem Sound.cells_unshare (sound : shared.Sound) {cell : CellId}
    (held : cell ∈ shared.holders) :
    shared.unshare.cells cell = shared.cells cell := by
  rw [Shared.unshare]
  split
  · rfl
  · have different : cell ≠ shared.allocated :=
      Nat.ne_of_lt (sound.holders cell held)
    simp [copy, different]

theorem Sound.cells_write_unshare (sound : shared.Sound) {cell : CellId}
    (held : cell ∈ shared.holders) (value : Value) :
    (shared.unshare.write value).cells cell = shared.cells cell := by
  have different : cell ≠ shared.unshare.installed := by
    intro same
    exact sound.unshare_unique (same ▸ held)
  rw [write, cells_modify_of_ne _ different, sound.cells_unshare held]

end Shared

end Sylar.Foundation
