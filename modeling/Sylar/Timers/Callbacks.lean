import Mathlib.Data.List.ReduceOption
import Sylar.Timers.Delivery

/-! # The callbacks of timers

Over a whole run a one-shot timer is delivered at most once, and no timer after
its cancellation. What is delivered need not be callable: `refresh` puts its
timer back without a callback.
-/

namespace Sylar.Timers

open Foundation Foundation.SearchTree

namespace TimerManager

variable {Callback : Type u} {manager : TimerManager Callback}

/-! ## Counting deliveries -/

/-- The timers whose callbacks a call emits. An emitted function that is empty is
no callback of the timer. -/
def deliveries (manager : TimerManager Callback) :
    Action Callback → List (Addr × Callback)
  | .listExpiredCb probe now => (manager.emitted probe now).filterMap fun entry =>
      entry.2.map (entry.1, ·)
  | _ => []

theorem mem_deliveries {action : Action Callback} {timer : Addr} {cb : Callback}
    (member : (timer, cb) ∈ manager.deliveries action) :
    timer ∈ toList manager.timers ∧ (manager.objects timer).cb = some cb ∧
      ∃ probe now, action = .listExpiredCb probe now ∧
        timer ∈ manager.expired probe now := by
  cases action with
  | listExpiredCb probe now =>
      simp only [deliveries, emitted, List.filterMap_map, List.mem_filterMap,
        Function.comp_apply, Option.map_eq_some_iff, Prod.mk.injEq] at member
      rcases member with ⟨other, taken, found, filled, rfl, rfl⟩
      exact ⟨mem_pending_of_expired taken, filled, probe, now, rfl, taken⟩
  | addTimer _ _ _ _ _ | cancel _ | reset _ _ _ _ | refresh _ _ =>
      simp [deliveries] at member

theorem Valid.deliveries_nodup (valid : manager.Valid) (action : Action Callback) :
    ((manager.deliveries action).map Prod.fst).Nodup := by
  cases action with
  | listExpiredCb probe now =>
      have nodup := valid.expired_nodup probe now
      have sublist : ((manager.deliveries (.listExpiredCb probe now)).map
          Prod.fst).Sublist (manager.expired probe now) := by
        simp only [deliveries, emitted, List.filterMap_map, List.map_filterMap]
        induction manager.expired probe now with
        | nil => exact List.Sublist.slnil
        | cons timer rest induction =>
            cases filled : (manager.objects timer).cb with
            | none => simpa [filled] using induction.cons timer
            | some cb => simpa [filled] using induction
      exact nodup.sublist sublist
  | addTimer _ _ _ _ _ | cancel _ | reset _ _ _ _ | refresh _ _ =>
      exact List.nodup_nil

/-- The callbacks emitted in a run, in order, each with its timer. -/
def emissions (manager : TimerManager Callback) :
    List (Call Callback) → List (Addr × Callback)
  | [] => []
  | call :: calls =>
      manager.deliveries call.action ++ (manager.execute call).1.emissions calls

theorem Valid.silent (valid : manager.Valid) {timer : Addr}
    (created : timer ∈ manager.created)
    (empty : (manager.objects timer).cb = none) {calls : List (Call Callback)}
    {final : TimerManager Callback}
    (ran : machine.run manager calls = some final) :
    timer ∉ (manager.emissions calls).map Prod.fst := by
  induction calls generalizing manager with
  | nil => simp [emissions]
  | cons call calls induction =>
      rcases Option.bind_eq_some_iff.mp ran with ⟨next, stepped, rest⟩
      rcases machine_step_iff.mp stepped with ⟨enabled, rfl⟩
      have fades := valid.fades_execute call enabled created
      have emptyNext : ((manager.execute call).1.objects timer).cb = none := by
        rcases fades.cb with same | gone
        · exact same.trans empty
        · exact gone
      have later := induction (valid.execute call enabled)
        (valid.created_execute call created) emptyNext rest
      rw [emissions, List.map_append, List.mem_append, not_or]
      refine ⟨?_, later⟩
      intro member
      rcases List.mem_map.mp member with ⟨⟨other, cb⟩, delivered, rfl⟩
      rcases mem_deliveries delivered with ⟨_, filled, _⟩
      rw [empty] at filled
      cases filled

theorem Valid.recuring_run (valid : manager.Valid) {timer : Addr}
    (created : timer ∈ manager.created) {calls : List (Call Callback)}
    {final : TimerManager Callback}
    (ran : machine.run manager calls = some final) :
    (final.objects timer).recuring = (manager.objects timer).recuring := by
  induction calls generalizing manager with
  | nil => cases ran; rfl
  | cons call calls induction =>
      rcases Option.bind_eq_some_iff.mp ran with ⟨next, stepped, rest⟩
      rcases machine_step_iff.mp stepped with ⟨enabled, rfl⟩
      rw [induction (valid.execute call enabled)
        (valid.created_execute call created) rest]
      exact (valid.fades_execute call enabled created).recuring

theorem Valid.count_emissions (valid : manager.Valid) (timer : Addr)
    {calls : List (Call Callback)} {final : TimerManager Callback}
    (ran : machine.run manager calls = some final)
    (oneShot : (final.objects timer).recuring = false) :
    ((manager.emissions calls).map Prod.fst).count timer ≤ 1 := by
  induction calls generalizing manager with
  | nil => simp [emissions]
  | cons call calls induction =>
      rcases Option.bind_eq_some_iff.mp ran with ⟨next, stepped, rest⟩
      rcases machine_step_iff.mp stepped with ⟨enabled, rfl⟩
      have nextValid := valid.execute call enabled
      rw [emissions, List.map_append, List.count_append]
      by_cases here : timer ∈ (manager.deliveries call.action).map Prod.fst
      · rcases List.mem_map.mp here with ⟨⟨other, cb⟩, delivered, rfl⟩
        rcases mem_deliveries delivered with
          ⟨pending, _, probe, now, action, taken⟩
        have created := valid.created other pending
        have once : (manager.objects other).recuring = false :=
          valid.recuring_run created ran ▸ oneShot
        -- The delivery itself clears the callback of a one-shot timer.
        have empty : ((manager.execute call).1.objects other).cb = none := by
          rcases call with ⟨_, layout⟩
          cases action
          simp only [TimerManager.execute, valid.objects_listExpiredCb,
            if_pos taken]
          rw [Timer.cb_expire, once]
          rfl
        have noMore := nextValid.silent (valid.created_execute call created) empty rest
        have single := valid.deliveries_nodup call.action
        rw [List.count_eq_zero_of_not_mem noMore, Nat.add_zero]
        exact List.nodup_iff_count_le_one.mp single other
      · rw [List.count_eq_zero_of_not_mem here, Nat.zero_add]
        exact induction nextValid rest

theorem Valid.deliveries_listExpiredCb (valid : manager.Valid)
    (layout : Layout Addr) (probe : Addr) (now : UInt64) :
    (manager.listExpiredCb layout probe now).2.reduceOption =
      (manager.deliveries (.listExpiredCb probe now)).map Prod.snd := by
  rw [valid.callbacks_listExpiredCb, deliveries, List.map_filterMap,
    List.reduceOption, List.filterMap_map]
  apply List.filterMap_congr
  intro entry _
  simp [Option.map_map, Function.comp_def]

/-- In a whole run the callback of a one-shot timer is emitted at most once. No
delivery emits a timer's callback twice, and none after its cancellation. -/
theorem delivery_count (start : UInt64) {calls : List (Call Callback)}
    {final : TimerManager Callback}
    (ran : machine.run (.new start) calls = some final) :
    (∀ timer, (final.objects timer).recuring = false →
      ((emissions (.new start) calls).map Prod.fst).count timer ≤ 1) ∧
    ∀ earlier call later, calls = earlier ++ call :: later →
      ∀ manager, machine.run (.new start) earlier = some manager →
        (∀ probe now, call.action = .listExpiredCb probe now →
          (manager.listExpiredCb call.layout probe now).2.reduceOption =
              (manager.deliveries call.action).map Prod.snd ∧
            ((manager.deliveries call.action).map Prod.fst).Nodup) ∧
        ∀ timer, call.action = .cancel timer →
          timer ∉ ((manager.execute call).1.emissions later).map Prod.fst := by
  refine ⟨fun timer => (Valid.new start).count_emissions timer ran, ?_⟩
  intro earlier call later calls manager ranEarlier
  have valid := (Valid.new start).run ranEarlier
  rw [calls, Machine.run_append, ranEarlier, Option.bind_some] at ran
  rcases Option.bind_eq_some_iff.mp ran with ⟨next, stepped, rest⟩
  rcases machine_step_iff.mp stepped with ⟨enabled, rfl⟩
  constructor
  · intro probe now action
    rw [action]
    exact ⟨valid.deliveries_listExpiredCb call.layout probe now,
      valid.deliveries_nodup _⟩
  · intro timer action
    rcases call with ⟨_, layout⟩
    cases action
    have empty : ((manager.execute ⟨.cancel timer, layout⟩).1.objects timer).cb =
        none := by
      simp [TimerManager.execute, objects_cancel, objects_clearCb]
    exact (valid.execute _ enabled).silent (valid.created_execute _ enabled)
      empty rest

theorem delivery_count_once :
    let earlier : List (Call Unit) :=
      [{ action := .addTimer 1 1000 10 (some ()) false },
       { action := .listExpiredCb 2 1010 }]
    let cancelling : Call Unit := { action := .cancel 1 }
    let later : List (Call Unit) := [{ action := .listExpiredCb 2 1020 }]
    emissions (.new 1000) (earlier ++ cancelling :: later) = [(1, ())] ∧
      ((emissions (.new 1000) (earlier ++ cancelling :: later)).map
        Prod.fst).count 1 ≤ 1 ∧
      ∃ manager, machine.run (.new 1000) earlier = some manager ∧
        1 ∉ ((manager.execute cancelling).1.emissions later).map Prod.fst := by
  intro earlier cancelling later
  have ran : ∃ final,
      machine.run (.new 1000) (earlier ++ cancelling :: later) = some final ∧
        (final.objects 1).recuring = false := ⟨_, rfl, rfl⟩
  rcases ran with ⟨final, ran, oneShot⟩
  have counted := delivery_count 1000 ran
  refine ⟨rfl, counted.1 1 oneShot, _, rfl, ?_⟩
  exact (counted.2 earlier cancelling later rfl _ rfl).2 1 rfl

/-! ## Emitting only callable functions -/

/-- Whatever delivery comes next, every function it emits is non-empty. -/
def Callable (manager : TimerManager Callback) : Prop :=
  ∀ layout probe now, probe ∉ manager.created →
    ∀ cb ∈ (manager.listExpiredCb layout probe now).2, cb ≠ none

theorem exists_above (values : List Addr) :
    ∃ bound, ∀ value ∈ values, value < bound := by
  induction values with
  | nil => exact ⟨0, by simp⟩
  | cons value values induction =>
      rcases induction with ⟨bound, below⟩
      refine ⟨max (value + 1) bound, ?_⟩
      intro other member
      rcases List.mem_cons.mp member with same | rest
      · rw [same]
        exact Nat.lt_of_lt_of_le (Nat.lt_succ_self value) (Nat.le_max_left _ _)
      · exact Nat.lt_of_lt_of_le (below other rest) (Nat.le_max_right _ _)

theorem Valid.mem_expired_last (valid : manager.Valid) {probe : Addr}
    (above : ∀ timer ∈ manager.created, timer < probe) {timer : Addr}
    (pending : timer ∈ toList manager.timers) :
    timer ∈ manager.expired probe 18446744073709551615 := by
  have passed : ∀ deadline : UInt64, deadline ≤ 18446744073709551615 := by
    intro deadline
    rw [UInt64.le_iff_toNat_le]
    exact Nat.le_of_lt_succ deadline.toNat_lt
  have outside : probe ∉ toList manager.timers := fun member =>
    Nat.lt_irrefl probe (above probe (valid.created probe member))
  apply (valid.chain.mem_expired_iff outside _ timer).mpr
  refine ⟨pending, Or.inr ⟨fun other _ => passed _, fun lower => ?_⟩⟩
  exact Nat.lt_asymm lower.2 (above timer (valid.created timer pending))

theorem Valid.callable_iff (valid : manager.Valid) :
    manager.Callable ↔
      ∀ timer ∈ toList manager.timers, (manager.objects timer).cb ≠ none := by
  constructor
  · intro callable timer pending
    rcases exists_above manager.created with ⟨probe, above⟩
    have free : probe ∉ manager.created :=
      fun member => Nat.lt_irrefl probe (above probe member)
    have taken := valid.mem_expired_last above pending
    apply callable spine probe _ free
    rw [valid.callbacks_listExpiredCb]
    exact List.mem_map.mpr ⟨_, List.mem_map.mpr ⟨timer, taken, rfl⟩, rfl⟩
  · intro filled layout probe now _ cb member
    rw [valid.callbacks_listExpiredCb] at member
    rcases List.mem_map.mp member with ⟨_, emitted, rfl⟩
    rcases List.mem_map.mp emitted with ⟨timer, taken, rfl⟩
    exact filled timer (mem_pending_of_expired taken)

/-- With the element that was found for the timer out of the set, the comparator
can place the timer under its new deadline. -/
def Returns (manager : TimerManager Callback) (timer found : Addr)
    (now ms : UInt64) : Prop :=
  ∀ other ∈ toList manager.timers, other ≠ found →
    Comparable (before (Function.update manager.deadline timer (now + ms)))
      other timer

theorem Valid.mem_replace (valid : manager.Valid) (layout : Layout Addr)
    {timer value : Addr} {it : Nat} (now ms : UInt64)
    (found : find manager.less timer manager.timers = some it)
    (atPosition : (toList manager.timers)[it]? = some value) (other : Addr) :
    other ∈ toList (manager.replace layout timer it now ms).timers ↔
      (other ∈ toList manager.timers ∧ other ≠ value) ∨
        other = timer ∧ manager.Returns timer value now ms := by
  let erased : TimerManager Callback :=
    { manager with timers := eraseAt layout it manager.timers }
  have erasedMem := valid.chain.mem_erase layout atPosition
  have outside : timer ∉ toList erased.timers := valid.chain.outside_erased layout found
  have armed := (valid.erase layout it).chain.rearm outside now ms
  rw [replace, armed.mem_insertTimer layout timer other]
  have placeable : (erased.rearm timer now ms).Placeable timer ↔
      manager.Returns timer value now ms := by
    simp only [Placeable, Returns, deadline_rearm, timers_rearm]
    apply forall_congr'
    intro other
    rw [erasedMem other, and_imp]
    exact Iff.rfl
  rw [placeable, timers_rearm, erasedMem other]

def AllFilled (manager : TimerManager Callback) : Prop :=
  ∀ timer ∈ toList manager.timers, (manager.objects timer).cb ≠ none

/-- Only `refresh` does harm: it clears the callback and, when the lookup finds
an element, puts the timer into its place unless the comparator cannot. -/
def Harmless (manager : TimerManager Callback) (call : Call Callback) : Prop :=
  match call.action with
  | .refresh timer now =>
      ∀ it value, find manager.less timer manager.timers = some it →
        (toList manager.timers)[it]? = some value →
        ¬manager.Returns timer value now (manager.objects timer).ms
  | _ => True

def carriesCallback (call : Call Callback) : Bool :=
  match call.action with
  | .addTimer _ _ _ cb _ => cb.isSome
  | _ => true

theorem Valid.allFilled_addTimer (valid : manager.Valid)
    (filled : manager.AllFilled) (layout : Layout Addr) {address : Addr}
    (fresh : address ∉ manager.created) (now ms : UInt64) {cb : Option Callback}
    (given : cb ≠ none) (recuring : Bool) :
    (manager.addTimer layout address now ms cb recuring).1.AllFilled := by
  have chain := (valid.create fresh now ms cb recuring).chain
  intro timer pending
  rcases (chain.mem_insertTimer layout address timer).mp pending with
    stayed | ⟨isNew, _⟩
  · have different : timer ≠ address := fun same =>
      fresh (same ▸ valid.created timer stayed)
    rw [objects_addTimer manager layout now ms cb recuring different]
    exact filled timer stayed
  · rw [isNew]
    simpa [TimerManager.addTimer, TimerManager.create, setObject, Timer.new]
      using given

theorem Valid.mem_cancel (valid : manager.Valid) (layout : Layout Addr)
    {timer other : Addr}
    (pending : other ∈ toList (manager.cancel layout timer).1.timers) :
    other ∈ toList manager.timers ∧ other ≠ timer := by
  rcases cancel_cases manager layout timer with
    ⟨missing, result⟩ | ⟨it, found, result⟩
  · rw [result] at pending
    exact ⟨pending, ne_of_mem_of_not_mem pending
      (valid.chain.not_pending_of_find_none missing)⟩
  · rw [result] at pending
    rcases valid.chain.find_some found with ⟨value, atPosition⟩
    exact ⟨((valid.chain.mem_erase layout atPosition other).mp pending).1,
      ne_of_mem_of_not_mem pending (valid.chain.outside_erased layout found)⟩

theorem Valid.allFilled_cancel (valid : manager.Valid)
    (filled : manager.AllFilled) (layout : Layout Addr) (timer : Addr) :
    (manager.cancel layout timer).1.AllFilled := by
  intro other pending
  rcases valid.mem_cancel layout pending with ⟨wasPending, different⟩
  rw [objects_cancel, objects_clearCb, if_neg different]
  exact filled other wasPending

theorem Valid.allFilled_reset (valid : manager.Valid)
    (filled : manager.AllFilled) (layout : Layout Addr) (timer : Addr)
    (now ms : UInt64) (fromNow : Bool) :
    (manager.reset layout timer now ms fromNow).1.AllFilled := by
  rcases reset_cases manager layout timer now ms fromNow with
    same | ⟨hasCb, it, found, replaced⟩
  · rw [same]
    exact filled
  · rcases valid.chain.find_some found with ⟨value, atPosition⟩
    rw [replaced]
    intro other pending
    have callback : ((manager.replace layout timer it now ms).objects other).cb =
        (manager.objects other).cb := by
      rw [objects_replace, objects_rearm]
      split <;> rfl
    rw [callback]
    rcases (valid.mem_replace layout now ms found atPosition other).mp pending with
      ⟨wasPending, _⟩ | ⟨isTimer, _⟩
    · exact filled other wasPending
    · exact isTimer ▸ hasCb

/-- `refresh` leaves a timer without a callback in the set exactly if it puts its
timer there. -/
theorem Valid.allFilled_refresh_iff (valid : manager.Valid)
    (filled : manager.AllFilled) (layout : Layout Addr) (timer : Addr)
    (now : UInt64) :
    (manager.refresh layout timer now).1.AllFilled ↔
      manager.Harmless ⟨.refresh timer now, layout⟩ := by
  have cleared := valid.clearCb timer
  simp only [Harmless]
  rcases refresh_cases manager layout timer now with
    ⟨missing, result⟩ | ⟨it, found, result⟩
  · rw [result, missing]
    constructor
    · intro _ it value impossible
      cases impossible
    · intro _ other pending
      have different : other ≠ timer := ne_of_mem_of_not_mem pending
        (valid.chain.not_pending_of_find_none missing)
      rw [objects_clearCb, if_neg different]
      exact filled other pending
  · rcases valid.chain.find_some found with ⟨value, atPosition⟩
    have foundCleared :
        find (manager.clearCb timer).less timer (manager.clearCb timer).timers =
          some it := by
      rw [less_clearCb]
      exact found
    have member := cleared.mem_replace layout now (manager.objects timer).ms
      foundCleared atPosition
    have returns : (manager.clearCb timer).Returns timer value now
        (manager.objects timer).ms ↔
          manager.Returns timer value now (manager.objects timer).ms := by
      rw [Returns, deadline_clearCb]
      exact Iff.rfl
    have callback : ∀ other, (((manager.clearCb timer).replace layout timer it now
        (manager.objects timer).ms).objects other).cb =
          if other = timer then none else (manager.objects other).cb := by
      intro other
      rw [objects_replace, objects_rearm, objects_clearCb]
      split <;> rfl
    rw [result]
    constructor
    · intro allFilled it' value' found' atPosition' put
      rw [found] at found'
      cases found'
      rw [atPosition] at atPosition'
      cases atPosition'
      have pending := (member timer).mpr (Or.inr ⟨rfl, returns.mpr put⟩)
      exact allFilled timer pending (by rw [callback, if_pos rfl])
    · intro harmless other pending
      rcases (member other).mp pending with ⟨wasPending, isOther⟩ | ⟨_, put⟩
      · have different : other ≠ timer := by
          intro same
          subst same
          exact isOther (valid.chain.found_pending found atPosition wasPending).symm
        rw [callback, if_neg different]
        exact filled other wasPending
      · exact absurd (returns.mp put) (harmless it value found atPosition)

theorem Valid.allFilled_listExpiredCb (valid : manager.Valid)
    (filled : manager.AllFilled) (layout : Layout Addr) (probe : Addr)
    (now : UInt64) :
    (manager.listExpiredCb layout probe now).1.AllFilled := by
  intro timer pending
  rw [valid.objects_listExpiredCb]
  rcases valid.listExpiredCb_form layout probe now with
    ⟨erased, objects, _, expiring, erasedMem, result⟩
  rw [result] at pending
  rcases expiring.only layout now pending with isLeft | ⟨taken, recuring⟩
  · rcases (erasedMem timer).mp isLeft with ⟨wasPending, notTaken⟩
    rw [if_neg notTaken]
    exact filled timer wasPending
  · rw [objects] at recuring
    rw [if_pos taken, Timer.cb_expire, if_pos recuring]
    exact filled timer (mem_pending_of_expired taken)

theorem Valid.allFilled_execute_iff (valid : manager.Valid)
    (filled : manager.AllFilled) {call : Call Callback}
    (enabled : manager.Enabled call.action)
    (carries : carriesCallback call = true) :
    (manager.execute call).1.AllFilled ↔ manager.Harmless call := by
  rcases call with ⟨action, layout⟩
  cases action with
  | addTimer address now ms cb recuring =>
      have given : cb ≠ none := Option.isSome_iff_ne_none.mp carries
      simp only [Harmless, iff_true]
      exact valid.allFilled_addTimer filled layout enabled now ms given recuring
  | cancel timer =>
      simp only [Harmless, iff_true]
      exact valid.allFilled_cancel filled layout timer
  | reset timer now ms fromNow =>
      simp only [Harmless, iff_true]
      exact valid.allFilled_reset filled layout timer now ms fromNow
  | refresh timer now => exact valid.allFilled_refresh_iff filled layout timer now
  | listExpiredCb probe now =>
      simp only [Harmless, iff_true]
      exact valid.allFilled_listExpiredCb filled layout probe now

/-- Whatever delivery may come next emits only callable functions, all along a run
exactly if no `refresh` puts its timer into the set. -/
theorem callable_iff_harmless (start : UInt64) (calls : List (Call Callback)) :
    (machine.restrict fun call => carriesCallback call = true).Always Callable
        (.new start) calls ↔
      (machine.restrict fun call => carriesCallback call = true).StepsMeet Harmless
        (.new start) calls := by
  have initially : (TimerManager.new start : TimerManager Callback).Callable := by
    rw [(Valid.new start).callable_iff]
    simp [TimerManager.new]
  apply Machine.always_iff_stepsMeet Valid ?_ ?_ (Valid.new start) initially
  · intro before call next valid _ _ stepped
    rcases machine_step_iff.mp (Machine.restrict_step.mp stepped).2 with
      ⟨enabled, rfl⟩
    exact valid.execute call enabled
  · intro before call next valid callable stepped
    rcases Machine.restrict_step.mp stepped with ⟨carries, taken⟩
    rcases machine_step_iff.mp taken with ⟨enabled, rfl⟩
    rw [(valid.execute call enabled).callable_iff]
    exact valid.allFilled_execute_iff (valid.callable_iff.mp callable) enabled carries

/-- A timer is added and refreshed; its delivery emits an empty function. -/
theorem callable_iff_harmless_fails :
    ¬((machine : Machine (TimerManager Unit) (Call Unit)).restrict
        fun call => carriesCallback call = true).Always Callable (.new 1000)
      [{ action := .addTimer 1 1000 10 (some ()) false },
       { action := .refresh 1 1005 }] := by
  intro always
  have callable := always.last rfl
  exact callable spine 2 1015 (by decide) none (by decide) rfl

end TimerManager

end Sylar.Timers
