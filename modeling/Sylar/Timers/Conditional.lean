import Sylar.Timers.Callbacks
import Sylar.Timers.NextTimeout

/-! # Conditional timers

`addContionTimer` is to add a timer whose callback runs only while some object is alive. It
builds the timer and binds the condition to the callback, but neither inserts the timer nor
returns it: nothing of it is left when the function ends.
-/

namespace Sylar.Timers

open Foundation Foundation.SearchTree

/-! ## Function objects -/

/-- What a function object calls when it runs, given which objects are alive then. A call
through an empty function is a call of `none`. -/
abbrev Closure (Object : Type v) (Callback : Type u) :=
  (Object → Bool) → List (Option Callback)

variable {Object : Type v} {Callback : Type u}

/-- `OnTImer(weak_pond, cb)`, where a weak pointer that refers to no object cannot be locked. -/
def onTImer (weakPond : Option Object) (cb : Option Callback) : Closure Object Callback :=
  fun alive => if weakPond.any alive then [cb] else []

/-- An operation on the manager, or the registration of a conditional timer. -/
inductive Registration (Object : Type v) (Callback : Type u)
  | call (call : Call (Closure Object Callback))
  | addContionTimer (address : Addr) (now ms : UInt64) (cb : Option Callback)
      (weakPond : Option Object) (recuring : Bool)

namespace TimerManager

variable {manager : TimerManager (Closure Object Callback)}

/-- `addContionTimer(ms, cb, weak_pond, recuring)`. The pointer to the timer is local and the
only one, so its memory is free again when the function flows off its end. -/
def addContionTimer (manager : TimerManager (Closure Object Callback)) (address : Addr)
    (now ms : UInt64) (cb : Option Callback) (weakPond : Option Object) (recuring : Bool) :
    TimerManager (Closure Object Callback) × Option Addr :=
  let timer := manager.create address now ms (some (onTImer weakPond cb)) recuring
  ({ timer with created := timer.created.erase address }, none)

def registering : Machine (TimerManager (Closure Object Callback))
    (Registration Object Callback) where
  step manager
    | .call call => machine.step manager call
    | .addContionTimer address now ms cb weakPond recuring =>
        if address ∈ manager.created then none
        else some (manager.addContionTimer address now ms cb weakPond recuring).1

theorem created_addContionTimer (address : Addr) (now ms : UInt64) (cb : Option Callback)
    (weakPond : Option Object) (recuring : Bool) :
    (manager.addContionTimer address now ms cb weakPond recuring).1.created =
      manager.created :=
  List.erase_cons_head address manager.created

theorem Valid.addContionTimer (valid : manager.Valid) {address : Addr}
    (fresh : address ∉ manager.created) (now ms : UInt64) (cb : Option Callback)
    (weakPond : Option Object) (recuring : Bool) :
    (manager.addContionTimer address now ms cb weakPond recuring).1.Valid where
  chain := (valid.create fresh now ms (some (onTImer weakPond cb)) recuring).chain
  created timer pending := by
    rw [created_addContionTimer]
    exact valid.created timer pending

theorem Valid.registered {registration : Registration Object Callback}
    {next : TimerManager (Closure Object Callback)} (valid : manager.Valid)
    (stepped : registering.step manager registration = some next) : next.Valid := by
  cases registration with
  | call call =>
      rcases machine_step_iff.mp stepped with ⟨enabled, rfl⟩
      exact valid.execute call enabled
  | addContionTimer address now ms cb weakPond recuring =>
      simp only [registering, Option.ite_none_left_eq_some, Option.some_inj] at stepped
      rcases stepped with ⟨fresh, rfl⟩
      exact valid.addContionTimer fresh now ms cb weakPond recuring

/-! ## Managers that differ in the addresses in use -/

def withCreated (manager : TimerManager Callback) (created : List Addr) :
    TimerManager Callback :=
  { manager with created := created }

section WithCreated

variable (manager : TimerManager Callback) (created : List Addr)

@[simp] theorem less_withCreated : (manager.withCreated created).less = manager.less := rfl

@[simp] theorem timers_withCreated :
    (manager.withCreated created).timers = manager.timers := rfl

@[simp] theorem objects_withCreated :
    (manager.withCreated created).objects = manager.objects := rfl

theorem clearCb_withCreated (timer : Addr) :
    (manager.withCreated created).clearCb timer =
      (manager.clearCb timer).withCreated created := rfl

theorem expireOne_withCreated (layout : Layout Addr) (now : UInt64) (timer : Addr) :
    (manager.withCreated created).expireOne layout now timer =
      (manager.expireOne layout now timer).withCreated created := by
  cases recuring : (manager.objects timer).recuring with
  | false =>
      simp only [expireOne, objects_withCreated, recuring, Bool.false_eq_true, ↓reduceIte]
      rfl
  | true =>
      simp only [expireOne, objects_withCreated, recuring, ↓reduceIte]
      rfl

theorem expireAll_withCreated (layout : Layout Addr) (now : UInt64) (timers : List Addr) :
    expireAll layout now timers (manager.withCreated created) =
      ((expireAll layout now timers manager).1.withCreated created,
        (expireAll layout now timers manager).2) := by
  induction timers generalizing manager with
  | nil => rfl
  | cons timer rest induction =>
      simp only [expireAll, expireOne_withCreated, induction]
      rfl

theorem listExpiredCb_withCreated (layout : Layout Addr) (probe : Addr) (now : UInt64) :
    (manager.withCreated created).listExpiredCb layout probe now =
      ((manager.listExpiredCb layout probe now).1.withCreated created,
        (manager.listExpiredCb layout probe now).2) := by
  have sameExpired : (manager.withCreated created).expired probe now =
      manager.expired probe now := rfl
  simp only [listExpiredCb, sameExpired, timers_withCreated]
  by_cases empty : toList manager.timers = []
  · rw [if_pos empty, if_pos empty]
  · rw [if_neg empty, if_neg empty]
    cases manager.expired probe now with
    | nil => rfl
    | cons first rest =>
        let erased : TimerManager Callback :=
          { manager with
            previousTimr := now
            timers := erasePrefix layout (manager.cut probe now) manager.timers }
        exact expireAll_withCreated erased created layout now (first :: rest)

theorem cancel_withCreated (layout : Layout Addr) (timer : Addr) :
    ((manager.withCreated created).cancel layout timer).1 =
      (manager.cancel layout timer).1.withCreated created := by
  simp only [cancel, clearCb_withCreated, less_withCreated, timers_withCreated]
  cases find (manager.clearCb timer).less timer (manager.clearCb timer).timers <;> rfl

theorem reset_withCreated (layout : Layout Addr) (timer : Addr) (now ms : UInt64)
    (fromNow : Bool) :
    ((manager.withCreated created).reset layout timer now ms fromNow).1 =
      (manager.reset layout timer now ms fromNow).1.withCreated created := by
  by_cases unchanged : ms = (manager.objects timer).ms ∧ fromNow = false
  · simp only [reset, objects_withCreated, unchanged, and_self, ↓reduceIte]
  · simp only [reset, less_withCreated, timers_withCreated, objects_withCreated, unchanged,
      ↓reduceIte]
    by_cases empty : (manager.objects timer).cb.isNone = true
    · simp only [empty, ↓reduceIte]
    · simp only [empty, Bool.false_eq_true, ↓reduceIte]
      cases find manager.less timer manager.timers <;> rfl

theorem refresh_withCreated (layout : Layout Addr) (timer : Addr) (now : UInt64) :
    ((manager.withCreated created).refresh layout timer now).1 =
      (manager.refresh layout timer now).1.withCreated created := by
  simp only [refresh, clearCb_withCreated, less_withCreated, timers_withCreated]
  cases find (manager.clearCb timer).less timer (manager.clearCb timer).timers <;> rfl

theorem execute_withCreated (call : Call Callback) :
    ∃ others, ((manager.withCreated created).execute call).1 =
      (manager.execute call).1.withCreated others := by
  rcases call with ⟨action, layout⟩
  cases action with
  | addTimer address now ms cb recuring => exact ⟨address :: created, rfl⟩
  | cancel timer => exact ⟨created, cancel_withCreated manager created layout timer⟩
  | reset timer now ms fromNow =>
      exact ⟨created, reset_withCreated manager created layout timer now ms fromNow⟩
  | refresh timer now => exact ⟨created, refresh_withCreated manager created layout timer now⟩
  | listExpiredCb probe now =>
      have listed := listExpiredCb_withCreated manager created layout probe now
      exact ⟨created, congrArg Prod.fst listed⟩

end WithCreated

/-! ## The same effect -/

/-- Whatever is done to the two managers from now on, as long as it can be done to both: the
next timeout and what a delivery emits are the same. -/
def SameLater (left right : TimerManager (Closure Object Callback)) : Prop :=
  ∀ registrations leftEnd rightEnd,
    registering.run left registrations = some leftEnd →
    registering.run right registrations = some rightEnd →
    (∀ now, leftEnd.getNextTImer now = rightEnd.getNextTImer now) ∧
      ∀ layout probe now, probe ∉ leftEnd.created → probe ∉ rightEnd.created →
        (leftEnd.listExpiredCb layout probe now).2 =
          (rightEnd.listExpiredCb layout probe now).2

/-- The two registrations leave the same pending timers, return the same handle, and no
later operation tells them apart. -/
structure SameEffect (left right : TimerManager (Closure Object Callback) × Option Addr) :
    Prop where
  pending : left.1.pending = right.1.pending
  handle : left.2 = right.2
  later : SameLater left.1 right.1

theorem run_withCreated {left leftEnd rightEnd : TimerManager (Closure Object Callback)}
    {created : List Addr} {registrations : List (Registration Object Callback)}
    (ranLeft : registering.run left registrations = some leftEnd)
    (ranRight : registering.run (left.withCreated created) registrations = some rightEnd) :
    ∃ others, rightEnd = leftEnd.withCreated others := by
  induction registrations generalizing left created with
  | nil =>
      cases ranLeft
      cases ranRight
      exact ⟨created, rfl⟩
  | cons registration registrations induction =>
      rcases Option.bind_eq_some_iff.mp ranLeft with ⟨nextLeft, stepLeft, restLeft⟩
      rcases Option.bind_eq_some_iff.mp ranRight with ⟨nextRight, stepRight, restRight⟩
      have agree : ∃ others, nextRight = nextLeft.withCreated others := by
        cases registration with
        | call call =>
            rcases machine_step_iff.mp stepLeft with ⟨-, rfl⟩
            rcases machine_step_iff.mp stepRight with ⟨-, rfl⟩
            exact execute_withCreated left created call
        | addContionTimer address now ms cb weakPond recuring =>
            simp only [registering, Option.ite_none_left_eq_some, Option.some_inj]
              at stepLeft stepRight
            rcases stepLeft with ⟨-, rfl⟩
            rcases stepRight with ⟨-, rfl⟩
            exact ⟨_, rfl⟩
      rcases agree with ⟨others, rfl⟩
      exact induction restLeft restRight

theorem sameLater_withCreated (left : TimerManager (Closure Object Callback))
    (created : List Addr) : SameLater left (left.withCreated created) := by
  intro registrations leftEnd rightEnd ranLeft ranRight
  rcases run_withCreated ranLeft ranRight with ⟨others, rfl⟩
  refine ⟨fun now => rfl, ?_⟩
  intro layout probe now _ _
  rw [listExpiredCb_withCreated]

theorem length_emitted_last {manager : TimerManager Callback} (valid : manager.Valid)
    (layout : Layout Addr) {probe : Addr} (above : ∀ timer ∈ manager.created, timer < probe) :
    (manager.listExpiredCb layout probe 18446744073709551615).2.length =
      (toList manager.timers).length := by
  rw [valid.callbacks_listExpiredCb, emitted, List.length_map, List.length_map]
  apply Nat.le_antisymm
  · exact (expired_sublist probe _).length_le
  · apply List.Nodup.length_le_of_subset valid.chain.nodup
    intro timer pending
    exact valid.mem_expired_last above pending

/-- A timer that is in one of two sets and not in the other shows in the number of callbacks that
a late delivery emits. -/
theorem not_sameLater {left right : TimerManager (Closure Object Callback)}
    (leftValid : left.Valid) (rightValid : right.Valid) {timer : Addr}
    (more : (timer :: toList left.timers).Nodup)
    (inRight : ∀ other ∈ timer :: toList left.timers, other ∈ toList right.timers) :
    ¬SameLater left right := by
  intro same
  rcases exists_above (left.created ++ right.created) with ⟨probe, above⟩
  have aboveLeft : ∀ other ∈ left.created, other < probe :=
    fun other member => above other (List.mem_append_left _ member)
  have aboveRight : ∀ other ∈ right.created, other < probe :=
    fun other member => above other (List.mem_append_right _ member)
  have emits := (same [] left right rfl rfl).2 spine probe 18446744073709551615
    (fun member => Nat.lt_irrefl probe (aboveLeft probe member))
    (fun member => Nat.lt_irrefl probe (aboveRight probe member))
  have lengths := congrArg List.length emits
  rw [length_emitted_last leftValid spine aboveLeft,
    length_emitted_last rightValid spine aboveRight] at lengths
  have longer := List.Nodup.length_le_of_subset more inRight
  rw [List.length_cons, ← lengths] at longer
  exact Nat.not_succ_le_self _ longer

/-- A conditional timer never has the effect of a timer whose callback tests the condition itself:
the caller is given no handle. In the manager the two agree, at once and in all that is done
later, exactly if the set refuses the timer that is added. -/
theorem addContionTimer_differs (start : UInt64)
    {registrations : List (Registration Object Callback)}
    {manager : TimerManager (Closure Object Callback)}
    (ran : registering.run (.new start) registrations = some manager) (layout : Layout Addr)
    {address : Addr} (fresh : address ∉ manager.created) (now ms : UInt64)
    (cb : Option Callback) (weakPond : Option Object) (recuring : Bool)
    {guarded : Closure Object Callback}
    (guards : ∀ alive, guarded alive = if weakPond.any alive then [cb] else []) :
    let conditional := manager.addContionTimer address now ms cb weakPond recuring
    let added := manager.addTimer layout address now ms (some guarded) recuring
    ¬SameEffect conditional (added.1, some address) ∧
      (conditional.1.pending = added.1.pending ↔
        ¬(manager.create address now ms (some guarded) recuring).Placeable address) ∧
      (SameLater conditional.1 added.1 ↔
        ¬(manager.create address now ms (some guarded) recuring).Placeable address) := by
  intro conditional added
  have valid : manager.Valid := by
    apply Machine.run_induction ?_ (Valid.new start) ran
    exact fun before registration next beforeValid stepped => beforeValid.registered stepped
  have isGuard : onTImer weakPond cb = guarded := (funext guards).symm
  have addedValid : added.1.Valid := valid.addTimer layout fresh now ms (some guarded) recuring
  have conditionalValid : conditional.1.Valid :=
    valid.addContionTimer fresh now ms cb weakPond recuring
  have chain := (valid.create fresh now ms (some guarded) recuring).chain
  have member := chain.mem_insertTimer layout address
  have outside : address ∉ toList manager.timers :=
    fun pending => fresh (valid.created address pending)
  refine ⟨?_, ?_, ?_⟩
  · intro same
    cases same.handle
  · constructor
    · intro same placeable
      have isAdded : address ∈ added.1.pending := (member address).mpr (Or.inr ⟨rfl, placeable⟩)
      exact outside (same.ge isAdded)
    · intro refused
      ext timer
      exact ((member timer).trans (or_iff_left fun isNew => refused isNew.2)).symm
  · constructor
    · intro same placeable
      apply not_sameLater conditionalValid addedValid ?_ ?_ same
      · exact address
      · exact List.nodup_cons.mpr ⟨outside, valid.chain.nodup⟩
      · intro other isOne
        rcases List.mem_cons.mp isOne with isNew | pending
        · exact (member other).mpr (Or.inr ⟨isNew, placeable⟩)
        · exact (member other).mpr (Or.inl pending)
    · intro refused
      have same : added.1 = conditional.1.withCreated (address :: manager.created) := by
        have kept := chain.insertTimer_refused layout refused
        simp only [added, conditional, addTimer, kept, addContionTimer, isGuard]
        rfl
      rw [same]
      exact sameLater_withCreated _ _

theorem addContionTimer_differs_first :
    let manager : TimerManager (Closure Unit Unit) := new 1000
    let guarded : Closure Unit Unit := fun alive => if alive () then [some ()] else []
    let conditional := manager.addContionTimer 1 1000 10 (some ()) (some ()) false
    let added := manager.addTimer spine 1 1000 10 (some guarded) false
    ¬SameEffect conditional (added.1, some 1) ∧
      (conditional.1.pending = added.1.pending ↔
        ¬(manager.create 1 1000 10 (some guarded) false).Placeable 1) := by
  intro manager guarded conditional added
  have ran : registering.run (.new 1000) ([] : List (Registration Unit Unit)) =
      some manager := rfl
  have fresh : 1 ∉ manager.created := List.not_mem_nil
  have guards : ∀ alive, guarded alive = if (some ()).any alive then [some ()] else [] :=
    fun _ => rfl
  have differs := addContionTimer_differs 1000 ran spine fresh 1000 10 (some ()) (some ())
    false guards
  exact ⟨differs.1, differs.2.1⟩

/-- Ten milliseconds after the registration the conditional timer is not delivered, and it never
was the next one. -/
theorem addContionTimer_differs_fails :
    let manager : TimerManager (Closure Unit Unit) := new 1000
    let guarded : Closure Unit Unit := fun alive => if alive () then [some ()] else []
    let conditional := manager.addContionTimer 1 1000 10 (some ()) (some ()) false
    let added := manager.addTimer spine 1 1000 10 (some guarded) false
    ¬SameEffect conditional (added.1, some 1) ∧
      conditional.1.getNextTImer 1000 = 18446744073709551615 ∧
      added.1.getNextTImer 1000 = 10 ∧
      (conditional.1.listExpiredCb spine 2 1010).2.length = 0 ∧
      (added.1.listExpiredCb spine 2 1010).2.length = 1 := by
  intro manager guarded conditional added
  refine ⟨?_, rfl, by decide, rfl, rfl⟩
  intro same
  cases same.handle

end TimerManager

end Sylar.Timers
