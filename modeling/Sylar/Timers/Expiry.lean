import Sylar.Timers.PendingSet

/-! # Delivering expired timers

`listExpiredCb` cuts a prefix off the set and puts its recurring timers back one
by one under their new deadlines. Whether each of them is accepted depends on
those put back before it.
-/

namespace Sylar.Timers

open Foundation Foundation.SearchTree

namespace TimerManager

variable {Callback : Type u} {manager : TimerManager Callback}

/-! ## One timer -/

theorem objects_expireOne_other (layout : Layout Addr) (now : UInt64)
    {timer other : Addr} (different : other ≠ timer) :
    (manager.expireOne layout now timer).objects other =
      manager.objects other := by
  unfold expireOne
  dsimp only
  split
  · simp [rearm, setObject, different]
  · simp [clearCb, setObject, different]

/-- Expiring a timer leaves the other pending timers as they are, and puts it
back if it is recurring and the comparator can place it. -/
theorem IsChain.mem_expireOne (chain : manager.IsChain) (layout : Layout Addr)
    (now : UInt64) {timer : Addr} (outside : timer ∉ toList manager.timers)
    (other : Addr) :
    other ∈ toList (manager.expireOne layout now timer).timers ↔
      other ∈ toList manager.timers ∨
        other = timer ∧ (manager.objects timer).recuring = true ∧
          (manager.rearm timer now (manager.objects timer).ms).Placeable timer := by
  cases recuring : (manager.objects timer).recuring with
  | false => simp [TimerManager.expireOne, recuring]
  | true =>
      have armed := chain.rearm outside now (manager.objects timer).ms
      simp [TimerManager.expireOne, recuring, armed.mem_insertTimer layout]

theorem deadline_expireOne (layout : Layout Addr) (now : UInt64) {timer : Addr}
    (recuring : (manager.objects timer).recuring = true) :
    (manager.expireOne layout now timer).deadline timer =
      now + (manager.objects timer).ms := by
  simp [TimerManager.expireOne, recuring]

/-! ## The loop -/

structure Expiring (manager : TimerManager Callback) (timers : List Addr) :
    Prop where
  chain : manager.IsChain
  outside : ∀ timer ∈ timers, timer ∉ toList manager.timers
  nodup : timers.Nodup

section Loop

variable {timer : Addr} {rest : List Addr}

theorem Expiring.fresh (expiring : manager.Expiring (timer :: rest)) :
    timer ∉ rest :=
  (List.nodup_cons.mp expiring.nodup).1

theorem Expiring.mem_step (expiring : manager.Expiring (timer :: rest))
    (layout : Layout Addr) (now : UInt64) (other : Addr) :
    other ∈ toList (manager.expireOne layout now timer).timers ↔
      other ∈ toList manager.timers ∨
        other = timer ∧ (manager.objects timer).recuring = true ∧
          (manager.rearm timer now (manager.objects timer).ms).Placeable timer :=
  expiring.chain.mem_expireOne layout now
    (expiring.outside timer List.mem_cons_self) other

theorem Expiring.step (expiring : manager.Expiring (timer :: rest))
    (layout : Layout Addr) (now : UInt64) :
    (manager.expireOne layout now timer).Expiring rest where
  chain := by
    unfold TimerManager.expireOne
    dsimp only
    split
    · exact (expiring.chain.rearm
        (expiring.outside timer List.mem_cons_self) now _).insertTimer layout timer
    · exact expiring.chain.clearCb timer
  outside other member isPending := by
    rcases (expiring.mem_step layout now other).mp isPending with
      stayed | ⟨same, _⟩
    · exact expiring.outside other (List.mem_cons_of_mem _ member) stayed
    · exact expiring.fresh (same ▸ member)
  nodup := (List.nodup_cons.mp expiring.nodup).2

theorem Expiring.objects_step (expiring : manager.Expiring (timer :: rest))
    (layout : Layout Addr) (now : UInt64) {other : Addr} (member : other ∈ rest) :
    (manager.expireOne layout now timer).objects other =
      manager.objects other :=
  objects_expireOne_other layout now fun same => expiring.fresh (same ▸ member)

/-- Under deadlines that agree with the set's own and with the new one of the
timer, the comparator of the set places the timer. -/
theorem Expiring.placeable_iff (expiring : manager.Expiring (timer :: rest))
    (now : UInt64) (final : Addr → UInt64)
    (left : ∀ other ∈ toList manager.timers, final other = manager.deadline other)
    (armed : final timer = now + (manager.objects timer).ms) :
    (manager.rearm timer now (manager.objects timer).ms).Placeable timer ↔
      ∀ other ∈ toList manager.timers, Comparable (before final) other timer := by
  rw [Placeable]
  apply forall₂_congr
  intro other member
  have different : other ≠ timer := fun same =>
    expiring.outside timer List.mem_cons_self (same ▸ member)
  simp [Comparable, before, different, left other member, armed]

end Loop

section WholeLoop

variable (layout : Layout Addr) (now : UInt64) {timers : List Addr}

theorem Expiring.isChain (expiring : manager.Expiring timers) :
    (expireAll layout now timers manager).1.IsChain := by
  induction timers generalizing manager with
  | nil => exact expiring.chain
  | cons timer rest induction => exact induction (expiring.step layout now)

@[simp] theorem created_expireAll (timers : List Addr)
    (manager : TimerManager Callback) :
    (expireAll layout now timers manager).1.created = manager.created := by
  induction timers generalizing manager with
  | nil => rfl
  | cons timer rest induction =>
      simp only [expireAll, induction, expireOne]
      split <;> rfl

theorem Expiring.keeps (expiring : manager.Expiring timers) {other : Addr}
    (member : other ∈ toList manager.timers) :
    other ∈ toList (expireAll layout now timers manager).1.timers := by
  induction timers generalizing manager with
  | nil => exact member
  | cons timer rest induction =>
      exact induction (expiring.step layout now)
        ((expiring.mem_step layout now other).mpr (Or.inl member))

theorem Expiring.only (expiring : manager.Expiring timers) {other : Addr}
    (member : other ∈ toList (expireAll layout now timers manager).1.timers) :
    other ∈ toList manager.timers ∨
      other ∈ timers ∧ (manager.objects other).recuring = true := by
  induction timers generalizing manager with
  | nil => exact Or.inl member
  | cons timer rest induction =>
      rcases induction (expiring.step layout now) member with
        isPending | ⟨inRest, recuring⟩
      · rcases (expiring.mem_step layout now other).mp isPending with
          stayed | ⟨same, recuring, _⟩
        · exact Or.inl stayed
        · exact Or.inr ⟨same ▸ List.mem_cons_self, same ▸ recuring⟩
      · rw [expiring.objects_step layout now inRest] at recuring
        exact Or.inr ⟨List.mem_cons_of_mem _ inRest, recuring⟩

/-- Deadlines that agree with those of the set and with the new ones of the timers
still agree after a step of the loop. -/
theorem Expiring.left_step {timer : Addr} {rest : List Addr}
    (expiring : manager.Expiring (timer :: rest)) (final : Addr → UInt64)
    (left : ∀ other ∈ toList manager.timers, final other = manager.deadline other)
    (armed : final timer = now + (manager.objects timer).ms) :
    ∀ other ∈ toList (manager.expireOne layout now timer).timers,
      final other = (manager.expireOne layout now timer).deadline other := by
  intro other member
  rcases (expiring.mem_step layout now other).mp member with stayed | ⟨same, recuring, _⟩
  · have different : other ≠ timer := fun same =>
      expiring.outside timer List.mem_cons_self (same ▸ stayed)
    rw [left other stayed, deadline, deadline,
      objects_expireOne_other layout now different]
  · rw [same, armed, deadline_expireOne layout now recuring]

theorem Expiring.back_iff {timer : Addr} {rest : List Addr}
    (expiring : manager.Expiring (timer :: rest))
    (recuring : (manager.objects timer).recuring = true) :
    timer ∈ toList (expireAll layout now rest
        (manager.expireOne layout now timer)).1.timers ↔
      (manager.rearm timer now (manager.objects timer).ms).Placeable timer := by
  have step := expiring.mem_step layout now timer
  constructor
  · intro member
    rcases (expiring.step layout now).only layout now member with isPending | ⟨inRest, _⟩
    · rcases step.mp isPending with stayed | ⟨_, _, isPlaced⟩
      · exact absurd stayed (expiring.outside timer List.mem_cons_self)
      · exact isPlaced
    · exact absurd inRest expiring.fresh
  · intro isPlaceable
    exact (expiring.step layout now).keeps layout now
      (step.mpr (Or.inr ⟨rfl, recuring, isPlaceable⟩))

/-- All recurring timers come back exactly if the comparator can compare them,
under their new deadlines, with one another and with what was left in the set.
The deadlines in question are given once for the whole loop. -/
theorem Expiring.all_back_iff (expiring : manager.Expiring timers)
    (final : Addr → UInt64)
    (left : ∀ other ∈ toList manager.timers, final other = manager.deadline other)
    (armed : ∀ timer ∈ timers, final timer = now + (manager.objects timer).ms) :
    (∀ timer ∈ timers, (manager.objects timer).recuring = true →
        timer ∈ toList (expireAll layout now timers manager).1.timers) ↔
      (timers.filter fun timer => (manager.objects timer).recuring).Pairwise
          (Comparable (before final)) ∧
        ∀ timer ∈ timers, (manager.objects timer).recuring = true →
          ∀ other ∈ toList manager.timers,
            Comparable (before final) other timer := by
  induction timers generalizing manager with
  | nil => simp
  | cons timer rest induction =>
      have objects {other : Addr} (member : other ∈ rest) :=
        expiring.objects_step layout now member
      have mem := expiring.mem_step layout now
      have armedHere := armed timer List.mem_cons_self
      have armedNext : ∀ other ∈ rest, final other =
          now + ((manager.expireOne layout now timer).objects other).ms := by
        intro other member
        rw [objects member]
        exact armed other (List.mem_cons_of_mem _ member)
      have inRest := induction (expiring.step layout now)
        (expiring.left_step layout now final left armedHere) armedNext
      have sameFilter : rest.filter (fun other =>
          ((manager.expireOne layout now timer).objects other).recuring) =
            rest.filter fun other => (manager.objects other).recuring :=
        List.filter_congr fun other member => by rw [objects member]
      have sameRecuring {fact : Addr → Prop} : (∀ other ∈ rest,
          ((manager.expireOne layout now timer).objects other).recuring = true →
            fact other) ↔
          ∀ other ∈ rest, (manager.objects other).recuring = true → fact other :=
        forall₂_congr fun other member => by rw [objects member]
      rw [sameRecuring, sameFilter, sameRecuring] at inRest
      simp only [List.forall_mem_cons, expireAll]
      rw [inRest]
      cases recuring : (manager.objects timer).recuring with
      | false =>
          have samePending : ∀ other,
              other ∈ toList (manager.expireOne layout now timer).timers ↔
                other ∈ toList manager.timers := by
            intro other
            simp [mem other, recuring]
          simp [recuring, samePending]
      | true =>
          have back := expiring.back_iff layout now recuring
          have placeable := expiring.placeable_iff now final left armedHere
          by_cases isPlaceable :
              (manager.rearm timer now (manager.objects timer).ms).Placeable timer
          · have pendingNext : ∀ other,
                other ∈ toList (manager.expireOne layout now timer).timers ↔
                  other ∈ toList manager.timers ∨ other = timer := by
              intro other
              simp [mem other, recuring, isPlaceable]
            have compared := placeable.mp isPlaceable
            simp only [back.mpr isPlaceable, pendingNext, List.filter_cons, recuring,
              if_true, List.pairwise_cons, List.mem_filter]
            grind
          · have lost := mt back.mp isPlaceable
            have notCompared := mt placeable.mpr isPlaceable
            simp [lost, notCompared]

end WholeLoop

/-! ## The delivery -/

/-- Whether a delivery at the clock reading takes the pending timer: after a
rollover it takes all of them, otherwise none unless every deadline has passed,
and then all but those with deadline zero above the address of the probe. -/
def Due (manager : TimerManager Callback) (probe : Addr) (now : UInt64)
    (timer : Addr) : Prop :=
  rollsBack manager.previousTimr now = true ∨
    (∀ other ∈ toList manager.timers, manager.deadline other ≤ now) ∧
      ¬(manager.deadline timer = 0 ∧ probe < timer)

instance (probe : Addr) (now : UInt64) (timer : Addr) :
    Decidable (manager.Due probe now timer) := by
  unfold Due
  infer_instance

theorem expired_sublist (probe : Addr) (now : UInt64) :
    (manager.expired probe now).Sublist (toList manager.timers) := by
  rw [expired]
  split
  · exact List.nil_sublist _
  · split
    · exact List.nil_sublist _
    · exact List.take_sublist _ _

theorem before_probe {probe timer : Addr} (different : timer ≠ probe)
    (now : UInt64) :
    (manager.setObject probe (.ofNext now)).less probe timer = true ↔
      manager.deadline timer = 0 ∧ probe < timer := by
  rw [less_eq, before_iff, deadline_setObject]
  simp [Timer.ofNext, different]

theorem IsChain.deadline_le_first (chain : manager.IsChain) {first : Addr}
    {rest : List Addr} (timers : toList manager.timers = first :: rest)
    {timer : Addr} (member : timer ∈ toList manager.timers) :
    manager.deadline timer ≤ manager.deadline first := by
  have ordered : (first :: rest).Pairwise
      fun left right => before manager.deadline left right = true :=
    timers ▸ chain
  rw [timers] at member
  rcases List.mem_cons.mp member with same | later
  · exact same ▸ UInt64.le_refl _
  · exact (before_iff.mp ((List.pairwise_cons.mp ordered).1 timer later)).1

theorem IsChain.mem_expired_iff (chain : manager.IsChain) {probe : Addr}
    (free : probe ∉ toList manager.timers) (now : UInt64) (timer : Addr) :
    timer ∈ manager.expired probe now ↔
      timer ∈ toList manager.timers ∧ manager.Due probe now timer := by
  cases timers : toList manager.timers with
  | nil => simp [expired, timers]
  | cons first rest =>
      rw [← timers]
      have firstMember : first ∈ toList manager.timers := by simp [timers]
      have delivers : (∀ other ∈ toList manager.timers,
          manager.deadline other ≤ now) ↔ manager.deadline first ≤ now :=
        ⟨fun all => all first firstMember, fun passed other member =>
          UInt64.le_trans (chain.deadline_le_first timers member) passed⟩
      have unfolded : manager.expired probe now =
          if !rollsBack manager.previousTimr now &&
              decide (now < manager.deadline first) then []
          else (toList manager.timers).take (manager.cut probe now) := by
        simp only [expired]
        split
        · next empty => rw [empty] at timers; cases timers
        · next first' rest' equal =>
            rw [equal] at timers
            cases timers
            rfl
      rw [unfolded]
      rw [Due]
      rw [delivers]
      cases rolled : rollsBack manager.previousTimr now with
      | true => simp [cut, rolled]
      | false =>
          by_cases late : now < manager.deadline first
          · simp [late, UInt64.not_le.mpr late]
          · have probeChain : (manager.setObject probe (.ofNext now)).IsChain :=
              chain.of_update rfl (deadline_setObject manager probe _) free
            have split := (Chain.upperBound_splits
              (before_transitive _) probeChain probe).1
            rw [← less_eq, timers_setObject] at split
            have cutIs : manager.cut probe now = upperBound
                (manager.setObject probe (.ofNext now)).less probe
                manager.timers := by
              simp [cut, rolled]
            rw [if_neg (by simp [late]), cutIs, split, List.mem_filter]
            apply and_congr_right
            intro member
            have different : timer ≠ probe := fun same => free (same ▸ member)
            rw [← before_probe different now]
            simp [UInt64.not_lt.mp late]

/-! ## Membership after a delivery -/

theorem Valid.listExpiredCb_form (valid : manager.Valid) (layout : Layout Addr)
    (probe : Addr) (now : UInt64) :
    ∃ erased : TimerManager Callback,
      erased.objects = manager.objects ∧ erased.created = manager.created ∧
      erased.Expiring (manager.expired probe now) ∧
      (∀ timer, timer ∈ toList erased.timers ↔
        timer ∈ toList manager.timers ∧ timer ∉ manager.expired probe now) ∧
      (manager.listExpiredCb layout probe now).1 =
        (expireAll layout now (manager.expired probe now) erased).1 := by
  cases expiredIs : manager.expired probe now with
  | nil =>
      have expiring : ∀ previous,
          ({ manager with previousTimr := previous } :
            TimerManager Callback).Expiring [] := fun previous =>
        { chain := valid.chain, outside := by simp, nodup := List.nodup_nil }
      by_cases empty : toList manager.timers = []
      · exact ⟨manager, rfl, rfl, expiring manager.previousTimr, by simp,
          by simp [listExpiredCb, empty, expireAll]⟩
      · exact ⟨{ manager with previousTimr := now }, rfl, rfl, expiring now,
          by simp, by simp [listExpiredCb, empty, expiredIs, expireAll]⟩
  | cons first rest =>
      have taken : manager.expired probe now =
          (toList manager.timers).take (manager.cut probe now) := by
        rw [expired] at expiredIs ⊢
        split at expiredIs
        · cases expiredIs
        · split at expiredIs
          · cases expiredIs
          · simp_all
      have nonempty : toList manager.timers ≠ [] := by
        intro empty
        rw [taken, empty] at expiredIs
        simp at expiredIs
      have nodup := valid.chain.nodup
      rw [← List.take_append_drop (manager.cut probe now)
        (toList manager.timers)] at nodup
      have parts := List.nodup_append.mp nodup
      rw [← taken] at parts
      refine ⟨{ manager with
          previousTimr := now
          timers := erasePrefix layout (manager.cut probe now) manager.timers },
        rfl, rfl, ?_, ?_, ?_⟩
      · rw [← expiredIs]
        exact
          { chain := Chain.erasePrefix valid.chain layout _
            outside := fun timer member isLeft => by
              rw [toList_erasePrefix] at isLeft
              exact parts.2.2 timer member timer isLeft rfl
            nodup := parts.1 }
      · intro timer
        rw [← expiredIs, toList_erasePrefix]
        constructor
        · intro isLeft
          exact ⟨List.mem_of_mem_drop isLeft,
            fun member => parts.2.2 timer member timer isLeft rfl⟩
        · intro given
          rcases given with ⟨member, notTaken⟩
          rw [← List.take_append_drop (manager.cut probe now)
            (toList manager.timers), ← taken] at member
          exact (List.mem_append.mp member).resolve_left notTaken
      · simp [listExpiredCb, nonempty, expiredIs]

/-- The order in which the recurring timers come back: at ascending addresses
the new deadlines do not increase. -/
def InOrder (manager : TimerManager Callback) (probe : Addr) (now : UInt64) :
    Prop :=
  ∀ a ∈ toList manager.timers, ∀ b ∈ toList manager.timers,
    (manager.objects a).recuring = true → (manager.objects b).recuring = true →
    manager.Due probe now a → manager.Due probe now b → a < b →
    now + (manager.objects b).ms ≤ now + (manager.objects a).ms

instance (probe : Addr) (now : UInt64) : Decidable (manager.InOrder probe now) := by
  unfold InOrder
  infer_instance

theorem pairwise_comparable_iff (final : Addr → UInt64) {timers : List Addr}
    (ascending : timers.Pairwise (· < ·)) :
    timers.Pairwise (Comparable (before final)) ↔
      ∀ a ∈ timers, ∀ b ∈ timers, a < b → final b ≤ final a := by
  constructor
  · intro comparable a aMember b bMember lower
    rcases comparable_of_pairwise comparable aMember bMember
      (Nat.ne_of_lt lower) with ordered | reversed
    · exact (before_iff.mp ordered).1
    · exact absurd (before_iff.mp reversed).2 (Nat.lt_asymm lower)
  · intro descending
    exact List.Pairwise.imp_of_mem (fun aMember bMember lower =>
      Or.inl (before_iff.mpr ⟨descending _ aMember _ bMember lower, lower⟩))
      ascending

theorem IsChain.ascending (chain : manager.IsChain) :
    (toList manager.timers).Pairwise (· < ·) :=
  List.Pairwise.imp (fun ordered => (before_iff.mp ordered).2) chain

theorem IsChain.left_after_expired (chain : manager.IsChain) {probe : Addr}
    (free : probe ∉ toList manager.timers) (now : UInt64) {taken left : Addr}
    (takenMember : taken ∈ manager.expired probe now)
    (leftMember : left ∈ toList manager.timers)
    (notTaken : left ∉ manager.expired probe now) :
    manager.deadline left = 0 ∧ taken < left := by
  have takenFacts := (chain.mem_expired_iff free now taken).mp takenMember
  have notDue : ¬manager.Due probe now left := fun due =>
    notTaken ((chain.mem_expired_iff free now left).mpr ⟨leftMember, due⟩)
  rw [Due] at notDue takenFacts
  have zero : manager.deadline left = 0 ∧ probe < left := by
    by_contra positive
    rcases takenFacts.2 with rolled | ⟨passed, _⟩
    · exact notDue (Or.inl rolled)
    · exact notDue (Or.inr ⟨passed, positive⟩)
  refine ⟨zero.1, ?_⟩
  have different : left ≠ taken := fun same => notTaken (same ▸ takenMember)
  by_contra notLower
  have lower : left < taken :=
    Nat.lt_of_le_of_ne (Nat.le_of_not_lt notLower) different
  -- Were it before, its deadline zero would force the deadline of `taken` to zero.
  have ordered := before_iff.mp
    (chain_before_of_lt chain leftMember takenFacts.1 lower)
  have takenZero : manager.deadline taken = 0 :=
    UInt64.le_antisymm (zero.1 ▸ ordered.1) UInt64.zero_le
  rcases takenFacts.2 with rolled | ⟨_, notAfterProbe⟩
  · exact notDue (Or.inl rolled)
  · exact notAfterProbe ⟨takenZero, Nat.lt_trans zero.2 lower⟩

/-- The recurring timers a delivery takes are all back in the set afterwards exactly
if they come back in order. -/
theorem Valid.all_back_iff (valid : manager.Valid) (layout : Layout Addr)
    {probe : Addr} (free : probe ∉ manager.created) (now : UInt64) :
    (∀ timer ∈ manager.expired probe now, (manager.objects timer).recuring = true →
        timer ∈ toList (manager.listExpiredCb layout probe now).1.timers) ↔
      manager.InOrder probe now := by
  have probeFree : probe ∉ toList manager.timers :=
    fun member => free (valid.created probe member)
  have expiredIff := valid.chain.mem_expired_iff probeFree now
  rcases valid.listExpiredCb_form layout probe now with
    ⟨erased, objects, _, expiring, erasedMem, result⟩
  let final : Addr → UInt64 := fun timer =>
    if timer ∈ manager.expired probe now then now + (manager.objects timer).ms
    else manager.deadline timer
  have finalExpired : ∀ timer ∈ manager.expired probe now,
      final timer = now + (manager.objects timer).ms :=
    fun timer member => if_pos member
  have finalLeft : ∀ other ∈ toList erased.timers,
      final other = manager.deadline other :=
    fun other member => if_neg ((erasedMem other).mp member).2
  have back := expiring.all_back_iff layout now final
    (fun other member => by
      rw [finalLeft other member, deadline, deadline, objects])
    (fun timer member => by rw [objects, finalExpired timer member])
  have placed : ∀ timer ∈ manager.expired probe now,
      (manager.objects timer).recuring = true →
        ∀ other ∈ toList erased.timers,
          Comparable (before final) other timer := by
    intro timer member _ other otherMember
    have otherFacts := (erasedMem other).mp otherMember
    have after := valid.chain.left_after_expired probeFree now member
      otherFacts.1 otherFacts.2
    right
    rw [before_iff, finalLeft other otherMember, after.1]
    exact ⟨UInt64.zero_le, after.2⟩
  have ascending : ((manager.expired probe now).filter fun timer =>
      (manager.objects timer).recuring).Pairwise (· < ·) :=
    (valid.chain.ascending.sublist (expired_sublist probe now)).filter _
  rw [result]
  simp only [objects] at back
  rw [back, pairwise_comparable_iff final ascending]
  simp only [List.mem_filter, expiredIff, and_imp] at finalExpired placed ⊢
  constructor
  · rintro ⟨descending, _⟩ a aMember b bMember aRecuring bRecuring aDue bDue lower
    rw [← finalExpired a aMember aDue, ← finalExpired b bMember bDue]
    exact descending a aMember aDue aRecuring b bMember bDue bRecuring lower
  · intro inOrder
    refine ⟨?_, placed⟩
    intro a aMember aDue aRecuring b bMember bDue bRecuring lower
    rw [finalExpired a aMember aDue, finalExpired b bMember bDue]
    exact inOrder a aMember b bMember aRecuring bRecuring aDue bDue lower

/-- A delivery removes exactly the one-shot timers whose callbacks it emits and
keeps every recurring one, exactly if the recurring ones come back in order. -/
theorem Valid.pending_listExpiredCb_iff (valid : manager.Valid)
    (layout : Layout Addr) {probe : Addr} (free : probe ∉ manager.created)
    (now : UInt64) :
    (manager.listExpiredCb layout probe now).1.pending =
        manager.pending \ {timer | timer ∈ manager.expired probe now ∧
          (manager.objects timer).recuring = false} ↔
      manager.InOrder probe now := by
  have taken : ∀ timer ∈ manager.expired probe now, timer ∈ toList manager.timers :=
    fun _ member => (expired_sublist probe now).subset member
  rcases valid.listExpiredCb_form layout probe now with
    ⟨erased, objects, _, expiring, erasedMem, result⟩
  rw [← valid.all_back_iff layout free now, result]
  simp only [Set.ext_iff, mem_pending, Set.mem_sdiff, Set.mem_ofPred_eq]
  constructor
  · intro same timer member recuring
    exact (same timer).mpr ⟨taken timer member, by simp [recuring]⟩
  · intro allReturn timer
    constructor
    · intro isPending
      rcases expiring.only layout now isPending with isLeft | ⟨member, recuring⟩
      · exact ⟨((erasedMem timer).mp isLeft).1,
          fun taken => ((erasedMem timer).mp isLeft).2 taken.1⟩
      · rw [objects] at recuring
        exact ⟨taken timer member, by simp [recuring]⟩
    · intro given
      rcases given with ⟨wasPending, notOneShot⟩
      by_cases member : timer ∈ manager.expired probe now
      · exact allReturn timer member (by simpa [member] using notOneShot)
      · exact expiring.keeps layout now ((erasedMem timer).mpr ⟨wasPending, member⟩)

theorem Valid.listExpiredCb (valid : manager.Valid) (layout : Layout Addr)
    (probe : Addr) (now : UInt64) :
    (manager.listExpiredCb layout probe now).1.Valid := by
  rcases valid.listExpiredCb_form layout probe now with
    ⟨erased, objects, created, expiring, erasedMem, result⟩
  rw [result]
  refine { chain := expiring.isChain layout now, created := fun timer member => ?_ }
  rw [created_expireAll, created]
  rcases expiring.only layout now member with isLeft | ⟨taken, _⟩
  · exact valid.created timer ((erasedMem timer).mp isLeft).1
  · exact valid.created timer ((expired_sublist probe now).subset taken)

end TimerManager

end Sylar.Timers
