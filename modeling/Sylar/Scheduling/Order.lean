import Mathlib.Data.List.Sort
import Sylar.Foundation.Simulation
import Sylar.Scheduling.Numbers

/-! # The order of the callbacks

Callbacks are numbered in the order in which they are enqueued. A scan takes the first
entry that is free for its thread, so a worker starts what it starts in that order, and
a callback is only overtaken by one that its own thread may not be waiting for.
-/

namespace Sylar.Scheduling

open Foundation

variable {Callback Idle : Type} {size : Nat}

/-! ## What a scan leaves behind -/

theorem Scheduler.scan_split {fiberState : FiberId → FiberState} {thread : ThreadId}
    {entries : List (FiberAnThread Callback)} {entry : FiberAnThread Callback}
    (taken : (scan fiberState thread entries).taken = some entry) :
    ∃ before after, entries = before ++ entry :: after ∧
      (scan fiberState thread entries).rest = before ++ after ∧
      free fiberState thread entry = true ∧
      ∀ other ∈ before, free fiberState thread other = false := by
  induction entries with
  | nil => cases taken
  | cons first entries induction =>
      by_cases isFree : free fiberState thread first = true
      · have isFirst : entry = first := by
          rw [scan_taken, List.find?_cons_of_pos isFree] at taken
          exact (Option.some.inj taken).symm
        subst isFirst
        refine ⟨[], entries, rfl, ?_, isFree, by simp⟩
        rw [free, Bool.and_eq_true, decide_eq_true_eq] at isFree
        have notPassed : ¬(entry.thread ≠ -1 ∧ entry.thread ≠ thread) := by
          rintro ⟨pinned, other⟩
          exact isFree.1.elim pinned other
        have notExecuting : ¬entry.executing fiberState = true := by
          simpa using isFree.2
        simp [scan, notPassed, notExecuting]
      · have later : (scan fiberState thread entries).taken = some entry := by
          rw [scan_taken, List.find?_cons_of_neg isFree] at taken
          rw [scan_taken]
          exact taken
        rcases induction later with ⟨before, after, split, rest, entryFree, none⟩
        refine ⟨first :: before, after, by rw [split]; rfl, ?_, entryFree, ?_⟩
        · by_cases passed : first.thread ≠ -1 ∧ first.thread ≠ thread
          · simp only [scan, if_pos passed, rest]
            rfl
          · by_cases executing : first.executing fiberState = true
            · simp only [scan, if_neg passed, if_pos executing, rest]
              rfl
            · refine absurd ?_ isFree
              have onThread : first.thread = -1 ∨ first.thread = thread := by
                by_contra neither
                exact passed (not_or.mp neither)
              simp [free, onThread, executing]
        · intro other member
          rcases List.mem_cons.mp member with rfl | member
          · exact Bool.eq_false_iff.mpr isFree
          · exact none other member

namespace Registry

variable {threadOf : Fin size → ThreadId} {enter : Idle}
  {registry after : Registry Callback Idle size} {label : Scheduler.Label Callback size}

/-! ## Numbers -/

def numberOf (entry : FiberAnThread (Nat × Callback)) : Option Nat :=
  match entry.work with
  | .cb callback => some callback.1
  | .fiber _ => none

def waiting (registry : Registry Callback Idle size) : List Nat :=
  registry.scheduler.fibers.filterMap numberOf

def inHand (registry : Registry Callback Idle size) (w : Fin size) : Option Nat :=
  (registry.scheduler.workers w).stage.held.bind numberOf

def startedBy (registry : Registry Callback Idle size) :
    Scheduler.Label Callback size → List (Fin size × Nat)
  | .resume w =>
      match (registry.scheduler.workers w).stage with
      | .scanned (some entry) => (numberOf entry).toList.map (w, ·)
      | _ => []
  | .schedule _ | .newFiber _ | .autoStop | .stopping | .scan _ | .tickle _ | .swapOut ..
  | .release _ | .settle _ | .leaveIdle .. | .afterIdle _ => []

def recording (threadOf : Fin size → ThreadId) (enter : Idle) :
    Machine (Registry Callback Idle size × List (Fin size × Nat))
      (Scheduler.Label Callback size) :=
  (machine threadOf enter).observe startedBy

def startsOf (record : List (Fin size × Nat)) (w : Fin size) : List Nat :=
  (record.filter fun start => start.1 = w).map Prod.snd

def takenBy (registry : Registry Callback Idle size) (record : List (Fin size × Nat))
    (w : Fin size) : List Nat :=
  startsOf record w ++ (registry.inHand w).toList

def FreeFor (threadOf : Fin size → ThreadId) (registry : Registry Callback Idle size)
    (w : Fin size) (number : Nat) : Prop :=
  registry.pin number = -1 ∨ registry.pin number = threadOf w

/-! ## Steps -/

inductive Change (threadOf : Fin size → ThreadId) (registry : Registry Callback Idle size)
    (record : List (Fin size × Nat)) (after : Registry Callback Idle size)
    (recorded : List (Fin size × Nat)) : Prop
  | keep (issued : after.issued = registry.issued) (pin : after.pin = registry.pin)
      (waiting : after.waiting = registry.waiting)
      (taken : ∀ w, after.takenBy recorded w = registry.takenBy record w)
  | enqueue (thread : ThreadId) (issued : after.issued = registry.issued + 1)
      (pin : after.pin = Function.update registry.pin registry.issued thread)
      (waiting : after.waiting = registry.waiting ++ [registry.issued])
      (taken : ∀ w, after.takenBy recorded w = registry.takenBy record w)
  | take (w : Fin size) (number : Nat) {left right : List Nat}
      (issued : after.issued = registry.issued) (pin : after.pin = registry.pin)
      (before : registry.waiting = left ++ number :: right)
      (waiting : after.waiting = left ++ right)
      (isFree : registry.FreeFor threadOf w number)
      (first : ∀ other ∈ left, ¬registry.FreeFor threadOf w other)
      (taken : after.takenBy recorded w = registry.takenBy record w ++ [number])
      (others : ∀ v, v ≠ w → after.takenBy recorded v = registry.takenBy record v)

theorem Tracked.waiting_entry (tracked : registry.Tracked threadOf)
    {entry : FiberAnThread (Nat × Callback)} (queued : entry ∈ registry.scheduler.fibers)
    {number : Nat} (numbers : numberOf entry = some number) :
    number < registry.issued ∧ entry.thread = registry.pin number ∧
      ∀ fiberState, entry.executing fiberState = false := by
  rcases entry with ⟨⟨given, callback⟩ | fiber, thread⟩
  · cases numbers
    rcases tracked.pins _ (Or.inl queued) given callback rfl with ⟨below, pinned⟩
    exact ⟨below, pinned, fun _ => rfl⟩
  · cases numbers

theorem startsOf_append (record later : List (Fin size × Nat)) (w : Fin size) :
    startsOf (record ++ later) w = startsOf record w ++ startsOf later w := by
  rw [startsOf, List.filter_append, List.map_append]
  rfl

theorem startsOf_self (w : Fin size) (numbers : List Nat) :
    startsOf (numbers.map (w, ·)) w = numbers := by
  induction numbers with
  | nil => rfl
  | cons number numbers induction => simpa [startsOf] using induction

theorem startsOf_other {w v : Fin size} (different : v ≠ w) (numbers : List Nat) :
    startsOf (numbers.map (w, ·)) v = [] := by
  induction numbers with
  | nil => rfl
  | cons number numbers induction => simp [startsOf, different.symm]

theorem startedBy_other {w : Fin size} (other : label.worker ≠ some w) :
    startsOf (registry.startedBy label) w = [] := by
  cases label with
  | resume v =>
      have different : w ≠ v := fun same => other (congrArg some same.symm)
      simp only [startedBy]
      split
      · exact startsOf_other different _
      · rfl
  | schedule | newFiber | autoStop | stopping | scan | tickle | swapOut | release | settle
  | leaveIdle | afterIdle => rfl

def taking (threadOf : Fin size → ThreadId) (registry : Registry Callback Idle size)
    (w : Fin size) : Scheduler.Label Callback size → Option Nat
  | .scan v =>
      if v = w then
        (registry.scheduler.fibers.find?
          (Scheduler.free registry.scheduler.fiberState (threadOf w))).bind numberOf
      else none
  | .schedule _ | .newFiber _ | .autoStop | .stopping | .tickle _ | .resume _ | .swapOut ..
  | .release _ | .settle _ | .leaveIdle .. | .afterIdle _ => none

theorem startsOf_resume {w : Fin size}
    {ft : Option (FiberAnThread (Nat × Callback))}
    (stageIs : (registry.scheduler.workers w).stage = .scanned ft) :
    startsOf (registry.startedBy (.resume w)) w = (registry.inHand w).toList := by
  simp only [startedBy, inHand, stageIs, Stage.held]
  cases ft with
  | none => rfl
  | some entry => exact startsOf_self w _

theorem takenBy_step (stepped : step threadOf enter registry label = some after)
    (record : List (Fin size × Nat)) (w : Fin size) :
    after.takenBy (record ++ registry.startedBy label) w =
      registry.takenBy record w ++ (registry.taking threadOf w label).toList := by
  rw [takenBy, startsOf_append]
  rcases (scheduler_step stepped).stage w with ⟨other, same⟩ | moves
  · have notWorker : label.worker ≠ some w := by
      cases label <;> exact other
    have takesNothing : registry.taking threadOf w label = none := by
      cases label with
      | scan v =>
          have different : v ≠ w := fun isSame => notWorker (congrArg some isSame)
          exact if_neg different
      | schedule | newFiber | autoStop | stopping | tickle | resume | swapOut | release
      | settle | leaveIdle | afterIdle => rfl
    rw [startedBy_other notWorker, takesNothing, List.append_nil, inHand, same]
    exact (List.append_nil _).symm
  · rw [takenBy, List.append_assoc, List.append_assoc]
    apply congrArg
    generalize labelIs : label.map (Prod.mk registry.issued) = inner at moves
    generalize stageIs : (registry.scheduler.workers w).stage = before at moves
    generalize stageAfterIs : (after.scheduler.workers w).stage = stage at moves
    cases moves with
    | scan takes stageAfter =>
        cases label <;> cases labelIs
        simp only [inHand, stageIs, stageAfterIs, startedBy, taking, if_pos, takes]
        rcases stageAfter with rfl | rfl <;> rfl
    | nothing ft stageAfter =>
        cases label <;> cases labelIs
        have handsFree : after.inHand w = none := by
          rcases stageAfter with rfl | rfl | rfl <;> rw [inHand, stageAfterIs] <;> rfl
        rw [startsOf_resume stageIs, handsFree]
        rfl
    | start callback thread executes =>
        cases label <;> cases labelIs
        have handsFree : after.inHand w = none := by
          rw [inHand, stageAfterIs]
          rfl
        rw [startsOf_resume stageIs, handsFree]
        rfl
    | swapIn thread live executes =>
        cases label <;> cases labelIs
        have handsFree : after.inHand w = none := by
          rw [inHand, stageAfterIs]
          rfl
        rw [startsOf_resume stageIs, handsFree]
        rfl
    | tickle | swapOut | release | settle | leaveIdle | afterIdle =>
        cases label <;> cases labelIs
        simp only [inHand, stageIs, stageAfterIs]
        exact (List.append_nil _).symm

theorem pin_step (own : ∀ entry, label ≠ .schedule entry)
    (stepped : step threadOf enter registry label = some after) :
    after.pin = registry.pin := by
  rcases Option.ite_none_right_eq_some.mp stepped with ⟨-, moved⟩
  rcases Option.map_eq_some_iff.mp moved with ⟨next, -, rfl⟩
  cases label with
  | schedule entry => exact absurd rfl (own entry)
  | resume w =>
      simp only [Registry.record]
      split <;> rfl
  | settle w =>
      simp only [Registry.record]
      split <;> rfl
  | newFiber | autoStop | stopping | scan | tickle | swapOut | release | leaveIdle
  | afterIdle => rfl

theorem waiting_step (own : ∀ entry, label ≠ .schedule entry)
    (notScan : ∀ w, label ≠ .scan w) (stepped : step threadOf enter registry label = some after) :
    after.waiting = registry.waiting := by
  have steps := scheduler_step stepped
  rw [waiting, waiting]
  generalize labelIs : label.map (Prod.mk registry.issued) = inner at steps
  generalize after.scheduler = next at steps ⊢
  cases steps with
  | schedule =>
      cases label <;> cases labelIs
      exact absurd rfl (own _)
  | scan =>
      cases label <;> cases labelIs
      exact absurd rfl (notScan _)
  | @resume w ft => rw [(Scheduler.resume_kept enter registry.scheduler w ft).1]
  | settle =>
      simp only [Scheduler.settle]
      split
      · exact (List.filterMap_append).trans (List.append_nil _)
      · split <;> rfl
  | newFiber | autoStop | stopping | tickle | swapOut | release | leaveIdle | afterIdle => rfl

theorem takenBy_kept (stepped : step threadOf enter registry label = some after)
    (record : List (Fin size × Nat)) {w : Fin size}
    (nothing : registry.taking threadOf w label = none) :
    after.takenBy (record ++ registry.startedBy label) w = registry.takenBy record w := by
  rw [takenBy_step stepped, nothing]
  exact List.append_nil _

theorem change_scan (tracked : registry.Tracked threadOf) {w : Fin size}
    (stepped : step threadOf enter registry (.scan w) = some after)
    (record : List (Fin size × Nat)) :
    Change threadOf registry record after (record ++ registry.startedBy (.scan w)) := by
  have own : ∀ entry, (.scan w : Scheduler.Label Callback size) ≠ .schedule entry := by simp
  have others : ∀ v, v ≠ w → after.takenBy (record ++ registry.startedBy (.scan w)) v =
      registry.takenBy record v :=
    fun v different => takenBy_kept stepped record (if_neg different.symm)
  have fibers : after.scheduler.fibers =
      (Scheduler.found threadOf registry.scheduler w).rest := by
    have steps := scheduler_step stepped
    generalize after.scheduler = next at steps ⊢
    cases steps with
    | scan stageIs => exact Scheduler.scanQueue_fibers
  have takes : registry.taking threadOf w (.scan w) =
      (Scheduler.found threadOf registry.scheduler w).taken.bind numberOf := by
    rw [taking, if_pos rfl, Scheduler.found, Scheduler.scan_taken]
  have issued := issued_step own stepped
  have pin := pin_step own stepped
  rw [Scheduler.found] at fibers takes
  cases takenIs : (Scheduler.scan registry.scheduler.fiberState (threadOf w)
      registry.scheduler.fibers).taken with
  | none =>
      rw [takenIs] at takes
      rw [Scheduler.scan_none takenIs] at fibers
      refine .keep issued pin (by rw [waiting, fibers, waiting]) fun v => ?_
      by_cases same : v = w
      · exact takenBy_kept stepped record (same ▸ takes)
      · exact others v same
  | some entry =>
      rw [takenIs] at takes
      rcases Scheduler.scan_split takenIs with ⟨left, right, split, rest, isFree, first⟩
      rw [rest] at fibers
      have queued : ∀ other ∈ left ++ [entry], other ∈ registry.scheduler.fibers := by
        intro other member
        rw [split]
        rcases List.mem_append.mp member with earlier | here
        · exact List.mem_append_left _ earlier
        · rw [List.mem_singleton.mp here]
          exact List.mem_append_right _ List.mem_cons_self
      cases numbers : numberOf entry with
      | none =>
          rw [Option.bind_some, numbers] at takes
          refine .keep issued pin ?_ fun v => ?_
          · rw [waiting, waiting, fibers, split, List.filterMap_append,
              List.filterMap_append, List.filterMap_cons_none numbers]
          · by_cases same : v = w
            · exact takenBy_kept stepped record (same ▸ takes)
            · exact others v same
      | some number =>
          rw [Option.bind_some, numbers] at takes
          have here := tracked.waiting_entry (queued entry (by simp)) numbers
          have waitingAfter : after.waiting =
              left.filterMap numberOf ++ right.filterMap numberOf := by
            rw [waiting, fibers, List.filterMap_append]
          refine .take w number issued pin ?_ waitingAfter ?_ ?_ ?_ others
          · rw [waiting, split, List.filterMap_append, List.filterMap_cons_some numbers]
          · rw [Scheduler.free, Bool.and_eq_true, decide_eq_true_eq, here.2.1] at isFree
            exact isFree.1
          · intro other member isFreeToo
            rcases List.mem_filterMap.mp member with ⟨earlier, before, numbersToo⟩
            have waits := tracked.waiting_entry
              (queued earlier (List.mem_append_left _ before)) numbersToo
            have notFree := first earlier before
            rw [Scheduler.free, waits.2.2, waits.2.1] at notFree
            rw [FreeFor] at isFreeToo
            simp [isFreeToo] at notFree
          · rw [takenBy_step stepped record w, takes]
            rfl

theorem change_step (tracked : registry.Tracked threadOf)
    (stepped : step threadOf enter registry label = some after)
    (record : List (Fin size × Nat)) :
    Change threadOf registry record after (record ++ registry.startedBy label) := by
  have quiet : (∀ w, registry.taking threadOf w label = none) →
      (∀ entry, label ≠ .schedule entry) → (∀ w, label ≠ .scan w) →
      Change threadOf registry record after (record ++ registry.startedBy label) := by
    intro nothing own notScan
    exact .keep (issued_step own stepped) (pin_step own stepped)
      (waiting_step own notScan stepped) fun w => takenBy_kept stepped record (nothing w)
  cases label with
  | scan w => exact change_scan tracked stepped record
  | schedule entry =>
      have kept : ∀ w, after.takenBy (record ++ registry.startedBy (.schedule entry)) w =
          registry.takenBy record w := fun w => takenBy_kept stepped record rfl
      rcases step_schedule stepped with ⟨fibers, -, -, issued⟩
      rcases Option.ite_none_right_eq_some.mp stepped with ⟨-, moved⟩
      rcases Option.map_eq_some_iff.mp moved with ⟨next, inner, rfl⟩
      rcases entry with ⟨callback | fiber, thread⟩
      · refine .enqueue thread issued rfl ?_ kept
        rw [waiting, fibers, List.filterMap_append]
        rfl
      · refine .keep issued rfl ?_ kept
        rw [waiting, fibers, List.filterMap_append]
        exact List.append_nil _
  | newFiber | autoStop | stopping | tickle | resume | swapOut | release | settle
  | leaveIdle | afterIdle => exact quiet (fun _ => rfl) (by simp) (by simp)

/-! ## In order -/

structure Ordered (threadOf : Fin size → ThreadId) (registry : Registry Callback Idle size)
    (record : List (Fin size × Nat)) : Prop where
  numbered : ∀ number ∈ registry.waiting, number < registry.issued
  sorted : registry.waiting.Pairwise (· < ·)
  taken : ∀ w, (registry.takenBy record w).Pairwise (· < ·)
  given : ∀ w, ∀ number ∈ registry.takenBy record w, number < registry.issued
  isFree : ∀ w, ∀ number ∈ registry.takenBy record w, registry.FreeFor threadOf w number
  /-- What a worker has taken comes before what still waits for its thread. -/
  before : ∀ w, ∀ number ∈ registry.takenBy record w, ∀ other ∈ registry.waiting,
    registry.FreeFor threadOf w other → number < other
  /-- A callback that has been enqueued later waits as long as an earlier one that every
  thread may run that may run the later one. -/
  kept : ∀ number other, number < other → other < registry.issued →
    registry.pin number = -1 ∨ registry.pin number = registry.pin other →
    number ∈ registry.waiting → other ∈ registry.waiting

theorem Ordered.begin (threadOf : Fin size → ThreadId) :
    ({} : Registry Callback Idle size).Ordered threadOf [] where
  numbered number member := by cases member
  sorted := List.Pairwise.nil
  taken _ := List.Pairwise.nil
  given w number member := by cases member
  isFree w number member := by cases member
  before w number member := by cases member
  kept number other _ below := by cases below

variable {record recorded : List (Fin size × Nat)}

theorem Ordered.keep (ordered : registry.Ordered threadOf record)
    (issued : after.issued = registry.issued) (pin : after.pin = registry.pin)
    (waiting : after.waiting = registry.waiting)
    (taken : ∀ w, after.takenBy recorded w = registry.takenBy record w) :
    after.Ordered threadOf recorded := by
  constructor <;> simp only [issued, pin, waiting, taken, FreeFor]
  · exact ordered.numbered
  · exact ordered.sorted
  · exact ordered.taken
  · exact ordered.given
  · exact ordered.isFree
  · exact ordered.before
  · exact ordered.kept

theorem Ordered.enqueue (ordered : registry.Ordered threadOf record) (thread : ThreadId)
    (issued : after.issued = registry.issued + 1)
    (pin : after.pin = Function.update registry.pin registry.issued thread)
    (waiting : after.waiting = registry.waiting ++ [registry.issued])
    (taken : ∀ w, after.takenBy recorded w = registry.takenBy record w) :
    after.Ordered threadOf recorded := by
  have samePin : ∀ number, number < registry.issued →
      after.pin number = registry.pin number := by
    intro number below
    rw [pin, Function.update_of_ne (Nat.ne_of_lt below)]
  constructor
  · intro number member
    rw [waiting] at member
    rw [issued]
    rcases List.mem_append.mp member with old | new
    · exact Nat.lt_succ_of_lt (ordered.numbered number old)
    · rw [List.mem_singleton.mp new]
      exact Nat.lt_succ_self _
  · rw [waiting, List.pairwise_append]
    refine ⟨ordered.sorted, List.pairwise_singleton _ _, fun number old other new => ?_⟩
    rw [List.mem_singleton.mp new]
    exact ordered.numbered number old
  · intro w
    rw [taken w]
    exact ordered.taken w
  · intro w number member
    rw [taken w] at member
    rw [issued]
    exact Nat.lt_succ_of_lt (ordered.given w number member)
  · intro w number member
    rw [taken w] at member
    rw [FreeFor, samePin number (ordered.given w number member)]
    exact ordered.isFree w number member
  · intro w number member other waits isFree
    rw [taken w] at member
    rw [waiting] at waits
    rcases List.mem_append.mp waits with old | new
    · rw [FreeFor, samePin other (ordered.numbered other old)] at isFree
      exact ordered.before w number member other old isFree
    · rw [List.mem_singleton.mp new]
      exact ordered.given w number member
  · intro number other earlier below samePins member
    rw [waiting] at member ⊢
    rw [issued] at below
    by_cases isNew : other = registry.issued
    · rw [isNew]
      exact List.mem_append_right _ List.mem_cons_self
    · have otherBelow : other < registry.issued := by omega
      have numberBelow := earlier.trans otherBelow
      rw [samePin number numberBelow, samePin other otherBelow] at samePins
      rcases List.mem_append.mp member with old | new
      · exact List.mem_append_left _
          (ordered.kept number other earlier otherBelow samePins old)
      · exact absurd (List.mem_singleton.mp new) (Nat.ne_of_lt numberBelow)

/-- What a worker may run and leaves behind when it takes a callback was enqueued later. -/
theorem Ordered.lt_of_first (ordered : registry.Ordered threadOf record) {w : Fin size}
    {number : Nat} {left right : List Nat}
    (before : registry.waiting = left ++ number :: right)
    (first : ∀ other ∈ left, ¬registry.FreeFor threadOf w other) {other : Nat}
    (waits : other ∈ left ++ right) (isFree : registry.FreeFor threadOf w other) :
    number < other := by
  have sorted := ordered.sorted
  rw [before] at sorted
  rcases List.mem_append.mp waits with inLeft | inRight
  · exact absurd isFree (first other inLeft)
  · exact (List.pairwise_cons.mp (List.pairwise_append.mp sorted).2.1).1 other inRight

theorem mem_takenBy_take {w v : Fin size} {number given : Nat}
    (taken : after.takenBy recorded w = registry.takenBy record w ++ [number])
    (others : ∀ v, v ≠ w → after.takenBy recorded v = registry.takenBy record v)
    (member : given ∈ after.takenBy recorded v) :
    given ∈ registry.takenBy record v ∨ v = w ∧ given = number := by
  by_cases same : v = w
  · subst same
    rw [taken] at member
    exact (List.mem_append.mp member).imp_right fun new => ⟨rfl, List.mem_singleton.mp new⟩
  · rw [others v same] at member
    exact Or.inl member

theorem Ordered.take (ordered : registry.Ordered threadOf record) (w : Fin size)
    (number : Nat) {left right : List Nat} (issued : after.issued = registry.issued)
    (pin : after.pin = registry.pin) (before : registry.waiting = left ++ number :: right)
    (waiting : after.waiting = left ++ right)
    (isFree : registry.FreeFor threadOf w number)
    (first : ∀ other ∈ left, ¬registry.FreeFor threadOf w other)
    (taken : after.takenBy recorded w = registry.takenBy record w ++ [number])
    (others : ∀ v, v ≠ w → after.takenBy recorded v = registry.takenBy record v) :
    after.Ordered threadOf recorded := by
  have here : number ∈ registry.waiting := by
    rw [before]
    exact List.mem_append_right _ List.mem_cons_self
  have sublist : after.waiting.Sublist registry.waiting := by
    rw [waiting, before]
    exact (List.sublist_cons_self number right).append_left left
  have later : ∀ other ∈ after.waiting, registry.FreeFor threadOf w other →
      number < other := by
    intro other member
    rw [waiting] at member
    exact ordered.lt_of_first before first member
  have takes : ∀ v given, given ∈ after.takenBy recorded v →
      given ∈ registry.takenBy record v ∨ v = w ∧ given = number :=
    fun v given => mem_takenBy_take taken others
  have sameFree : ∀ v taken, after.FreeFor threadOf v taken =
      registry.FreeFor threadOf v taken := by
    intro v taken
    rw [FreeFor, FreeFor, pin]
  constructor
  · intro other member
    rw [issued]
    exact ordered.numbered other (sublist.subset member)
  · exact ordered.sorted.sublist sublist
  · intro v
    by_cases same : v = w
    · subst same
      rw [taken, List.pairwise_append]
      refine ⟨ordered.taken v, List.pairwise_singleton _ _, fun given old other new => ?_⟩
      rw [List.mem_singleton.mp new]
      exact ordered.before v given old number here isFree
    · rw [others v same]
      exact ordered.taken v
  · intro v given member
    rw [issued]
    rcases takes v given member with old | ⟨rfl, rfl⟩
    · exact ordered.given v given old
    · exact ordered.numbered given here
  · intro v given member
    rw [sameFree]
    rcases takes v given member with old | ⟨rfl, rfl⟩
    · exact ordered.isFree v given old
    · exact isFree
  · intro v given member other waits isFreeToo
    rw [sameFree] at isFreeToo
    rcases takes v given member with old | ⟨rfl, rfl⟩
    · exact ordered.before v given old other (sublist.subset waits) isFreeToo
    · exact later other waits isFreeToo
  · intro earlier other isEarlier below samePins member
    rw [issued] at below
    rw [pin] at samePins
    have waits := ordered.kept earlier other isEarlier below samePins (sublist.subset member)
    rw [before] at waits
    rw [waiting]
    rcases List.mem_append.mp waits with inLeft | inRest
    · exact List.mem_append_left _ inLeft
    · rcases List.mem_cons.mp inRest with rfl | inRight
      · -- The worker would have taken the earlier callback.
        have isFreeToo : registry.FreeFor threadOf w earlier := by
          rcases samePins with unpinned | same
          · exact Or.inl unpinned
          · rw [FreeFor, same]
            exact isFree
        exact absurd (later earlier member isFreeToo) (Nat.lt_asymm isEarlier)
      · exact List.mem_append_right _ inRight

theorem Ordered.step (ordered : registry.Ordered threadOf record)
    (tracked : registry.Tracked threadOf)
    (stepped : step threadOf enter registry label = some after) :
    after.Ordered threadOf (record ++ registry.startedBy label) := by
  cases change_step tracked stepped record with
  | keep issued pin waiting taken => exact ordered.keep issued pin waiting taken
  | enqueue thread issued pin waiting taken =>
      exact ordered.enqueue thread issued pin waiting taken
  | take w number issued pin before waiting isFree first taken others =>
      exact ordered.take w number issued pin before waiting isFree first taken others

/-! ## The record -/

theorem moved_started (next : Scheduler (Nat × Callback) Idle size) :
    (registry.moved next).started = registry.started := rfl

theorem started_resume {w : Fin size} {ft : Option (FiberAnThread (Nat × Callback))}
    (stageIs : (registry.scheduler.workers w).stage = .scanned ft) :
    (registry.record (registry.scheduler.resume enter w ft) (.resume w)).started =
      registry.started ++ (registry.startedBy (.resume w)).map Prod.snd := by
  rcases ft with _ | ⟨⟨number, callback⟩ | fiber, thread⟩
  · have notMade : ∀ fiber thread,
        ((registry.scheduler.resume enter w none).workers w).stage ≠
          .running fiber thread true :=
      (nothingToRun_not_running enter registry.scheduler w · · true)
    rw [record_resume notMade]
    simp [startedBy, stageIs, moved_started]
  · simp [record, startedBy, stageIs, numberOf, Scheduler.resume, Scheduler.swapIn,
      Scheduler.setWorker, Scheduler.setFiber, Scheduler.newFiber]
  · have notMade : ∀ other thread',
        ((registry.scheduler.resume enter w (some ⟨.fiber fiber, thread⟩)).workers w).stage ≠
          .running other thread' true := by
      simp only [Scheduler.resume]
      split
      · simp [Scheduler.swapIn, Scheduler.setWorker]
      · exact (nothingToRun_not_running enter registry.scheduler w · · true)
    rw [record_resume notMade]
    simp [startedBy, stageIs, numberOf, moved_started]

theorem started_recorded (stepped : step threadOf enter registry label = some after) :
    after.started = registry.started ++ (registry.startedBy label).map Prod.snd := by
  rcases Option.ite_none_right_eq_some.mp stepped with ⟨-, moved⟩
  rcases Option.map_eq_some_iff.mp moved with ⟨next, inner, rfl⟩
  cases label with
  | resume w =>
      cases Scheduler.step_eq_some inner with
      | resume stageIs => exact started_resume stageIs
  | schedule entry =>
      rcases entry with ⟨callback | fiber, thread⟩
      · exact (List.append_nil _).symm
      · exact (List.append_nil _).symm
  | settle w =>
      simp only [Registry.record, startedBy]
      split
      · exact (List.append_nil _).symm
      · exact (List.append_nil _).symm
  | newFiber | autoStop | stopping | scan | tickle | swapOut | release | leaveIdle
  | afterIdle => exact (List.append_nil _).symm

/-! ## Runs -/

/-- The callbacks are run in the order in which they were enqueued, as far as the threads
they are for allow it. -/
structure InOrder (threadOf : Fin size → ThreadId)
    (seen : Registry Callback Idle size × List (Fin size × Nat)) : Prop where
  /-- The record is one of what has been started. -/
  recorded : seen.2.map Prod.snd = seen.1.started
  /-- A worker takes its callbacks, and starts them, in the order of their numbers. -/
  ascending : ∀ w, (seen.1.takenBy seen.2 w).Pairwise (· < ·)
  /-- A worker takes only what its thread may run. -/
  isFree : ∀ w, ∀ number ∈ seen.1.takenBy seen.2 w, seen.1.FreeFor threadOf w number
  /-- What a worker has taken was enqueued before everything that waits and that the worker
  may run. -/
  notOvertaken : ∀ w, ∀ number ∈ seen.1.takenBy seen.2 w, ∀ other ∈ seen.1.waiting,
    seen.1.FreeFor threadOf w other → number < other
  /-- While a callback waits, none enqueued after it for its thread is taken by anyone, and
  none at all if any thread may run it. -/
  inFront : ∀ number other, number < other → other < seen.1.issued →
    seen.1.pin number = -1 ∨ seen.1.pin number = seen.1.pin other →
    number ∈ seen.1.waiting → other ∈ seen.1.waiting
  /-- When every worker has its own thread, the callbacks for a thread are started in the
  order of their numbers. -/
  pinned : Function.Injective threadOf → ∀ thread, thread ≠ -1 →
    (seen.1.started.filter fun number => seen.1.pin number = thread).Pairwise (· < ·)

theorem mem_takenBy (record : List (Fin size × Nat)) {w : Fin size} {number : Nat}
    (member : (w, number) ∈ record) : number ∈ registry.takenBy record w := by
  have mine : (w, number) ∈ record.filter fun start => start.1 = w :=
    List.mem_filter.mpr ⟨member, by simp⟩
  exact List.mem_append_left _ (List.mem_map.mpr ⟨_, mine, rfl⟩)

theorem Ordered.pairwise (ordered : registry.Ordered threadOf record) :
    record.Pairwise fun first second => first.1 = second.1 → first.2 < second.2 := by
  have each : ∀ w : Fin size, record.Pairwise fun first second =>
      first.1 = w → second.1 = w → first.2 < second.2 := by
    intro w
    have ascending := (List.pairwise_append.mp (ordered.taken w)).1
    rw [startsOf, List.pairwise_map, List.pairwise_filter] at ascending
    refine ascending.imp fun below isFirst isSecond => ?_
    exact below (decide_eq_true isFirst) (decide_eq_true isSecond)
  rw [List.pairwise_iff_getElem]
  intro i j iBelow jBelow earlier sameWorker
  exact List.pairwise_iff_getElem.mp (each _) i j iBelow jBelow earlier sameWorker rfl

theorem Ordered.inOrder (ordered : registry.Ordered threadOf record)
    (recorded : record.map Prod.snd = registry.started) :
    InOrder threadOf (registry, record) where
  recorded := recorded
  ascending := ordered.taken
  isFree := ordered.isFree
  notOvertaken := ordered.before
  inFront := ordered.kept
  pinned := by
    intro distinct thread pinned
    have onThread : ∀ start ∈ record, registry.pin start.2 = thread →
        threadOf start.1 = thread := by
      intro start member isPinned
      have isFree := ordered.isFree start.1 start.2 (mem_takenBy record member)
      rw [FreeFor, isPinned] at isFree
      exact (isFree.resolve_left pinned).symm
    rw [← recorded, List.pairwise_filter, List.pairwise_map]
    refine ordered.pairwise.imp_of_mem fun {first second} member memberToo below => ?_
    intro isFirst isSecond
    apply below
    apply distinct
    rw [onThread first member (of_decide_eq_true isFirst),
      onThread second memberToo (of_decide_eq_true isSecond)]

theorem ordered_always (threadOf : Fin size → ThreadId) (enter : Idle)
    (labels : List (Scheduler.Label Callback size)) :
    (recording threadOf enter).Always
      (fun seen => seen.1.Tracked threadOf ∧ seen.1.Ordered threadOf seen.2 ∧
        seen.2.map Prod.snd = seen.1.started) ({}, []) labels := by
  apply Machine.always_of_invariant fun seen : Registry Callback Idle size × _ =>
    seen.1.Tracked threadOf ∧ seen.1.Ordered threadOf seen.2 ∧
      seen.2.map Prod.snd = seen.1.started
  · rintro ⟨registry, record⟩ label ⟨after, recorded⟩ ⟨tracked, ordered, same⟩ stepped
    rcases Option.map_eq_some_iff.mp stepped with ⟨next, moved, isNext⟩
    cases isNext
    refine ⟨tracked.step moved, ordered.step tracked moved, ?_⟩
    rw [List.map_append, same]
    exact (started_recorded moved).symm
  · exact fun seen kept => kept
  · exact ⟨Tracked.begin threadOf, Ordered.begin threadOf, rfl⟩

/-- However the workers and those who enqueue come in between one another, each worker
takes and starts its callbacks in the order in which they were enqueued, and takes none
while an earlier one waits that it may run. -/
theorem inOrder_always (threadOf : Fin size → ThreadId) (enter : Idle)
    (labels : List (Scheduler.Label Callback size)) :
    (recording threadOf enter).Always (InOrder threadOf) ({}, []) labels :=
  (ordered_always threadOf enter labels).mono fun _ kept => kept.2.1.inOrder kept.2.2

/-! ## Lanes

The callbacks that one worker alone may run, taken for themselves, are a queue.
-/

def Lane (seen : Registry Callback Idle size × List (Fin size × Nat)) (w : Fin size)
    (mine : Nat → Bool) : Prop :=
  (seen.1.takenBy seen.2 w).filter mine ++ seen.1.waiting.filter mine =
    (List.range seen.1.issued).filter mine

theorem Tracked.somewhere (tracked : registry.Tracked threadOf)
    (recorded : record.map Prod.snd = registry.started) {number : Nat}
    (below : number < registry.issued) :
    number ∈ registry.waiting ∨ ∃ w, number ∈ registry.takenBy record w := by
  by_contra nowhere
  rcases not_or.mp nowhere with ⟨notWaiting, notTaken⟩
  have notStarted : registry.started.count number = 0 := by
    refine List.count_eq_zero.mpr fun started => ?_
    rw [← recorded] at started
    rcases List.mem_map.mp started with ⟨⟨w, _⟩, member, rfl⟩
    exact notTaken ⟨w, mem_takenBy record member⟩
  have notQueued : total (isNumber number) FiberAnThread.work registry.scheduler.fibers = 0 := by
    refine total_eq_zero_iff.mpr fun entry queued => ?_
    rcases entry with ⟨⟨other, callback⟩ | fiber, thread⟩
    · refine if_neg fun same : other = number => notWaiting ?_
      exact List.mem_filterMap.mpr ⟨_, queued, congrArg some same⟩
    · rfl
  have notHeld : total (Worker.handWeight (isNumber number)) registry.scheduler.workers
      (List.finRange size) = 0 := by
    refine total_eq_zero_iff.mpr fun w _ => ?_
    rw [Worker.handWeight, Stage.hand_eq_held]
    cases holds : (registry.scheduler.workers w).stage.held with
    | none => rfl
    | some entry =>
        rcases entry with ⟨⟨other, callback⟩ | fiber, thread⟩
        · refine if_neg fun same : other = number => notTaken ⟨w, ?_⟩
          refine List.mem_append_right _ (Option.mem_toList.mpr ?_)
          rw [inHand, holds]
          exact congrArg some same
        · rfl
  have once := tracked.numbers number
  rw [Scheduler.inPlay, notQueued, notHeld, notStarted, if_pos below] at once
  cases once

theorem Ordered.lane (ordered : registry.Ordered threadOf record)
    (tracked : registry.Tracked threadOf) (recorded : record.map Prod.snd = registry.started)
    (w : Fin size) (mine : Nat → Bool)
    (isFree : ∀ number, mine number = true → registry.FreeFor threadOf w number)
    (alone : ∀ v, ∀ number ∈ registry.takenBy record v, mine number = true → v = w) :
    Lane (registry, record) w mine := by
  rw [Lane, ← List.filter_append]
  have ascending : ((registry.takenBy record w ++ registry.waiting).filter mine).Pairwise
      (· < ·) := by
    rw [List.pairwise_filter, List.pairwise_append]
    refine ⟨(ordered.taken w).imp fun below _ _ => below,
      ordered.sorted.imp fun below _ _ => below, ?_⟩
    intro number taken other waits _ otherMine
    exact ordered.before w number taken other waits (isFree other otherMine)
  refine ascending.eq_of_mem_iff (List.pairwise_lt_range.filter _) fun number => ?_
  rw [List.mem_filter, List.mem_filter, List.mem_append, List.mem_range]
  constructor
  · rintro ⟨taken | waits, isMine⟩
    · exact ⟨ordered.given w number taken, isMine⟩
    · exact ⟨ordered.numbered number waits, isMine⟩
  · rintro ⟨below, isMine⟩
    rcases tracked.somewhere recorded below with waits | ⟨v, taken⟩
    · exact ⟨Or.inr waits, isMine⟩
    · exact ⟨Or.inl (alone v number taken isMine ▸ taken), isMine⟩

structure InLanes (threadOf : Fin size → ThreadId)
    (seen : Registry Callback Idle size × List (Fin size × Nat)) : Prop where
  /-- Those for the thread of a worker, when no other worker has that thread. -/
  pinned : ∀ w, threadOf w ≠ -1 → (∀ v, threadOf v = threadOf w → v = w) →
    Lane seen w fun number => seen.1.pin number = threadOf w
  /-- All that a worker may run, when it is the only one. -/
  single : ∀ w, (∀ v, v = w) →
    Lane seen w fun number => seen.1.pin number = -1 ∨ seen.1.pin number = threadOf w

/-- Callbacks for the thread of one worker go through the scheduler first in, first out,
and so do all callbacks when there is a single worker. -/
theorem inLanes_always (threadOf : Fin size → ThreadId) (enter : Idle)
    (labels : List (Scheduler.Label Callback size)) :
    (recording threadOf enter).Always (InLanes threadOf) ({}, []) labels := by
  refine (ordered_always threadOf enter labels).mono ?_
  rintro ⟨registry, record⟩ ⟨tracked, ordered, recorded⟩
  constructor
  · intro w pinned alone
    refine ordered.lane tracked recorded w _ (fun number isMine => ?_) ?_
    · exact Or.inr (of_decide_eq_true isMine)
    · intro v number taken isMine
      have isPin : registry.pin number = threadOf w := of_decide_eq_true isMine
      rcases ordered.isFree v number taken with unpinned | same
      · exact absurd (isPin.symm.trans unpinned) pinned
      · exact alone v (same.symm.trans isPin)
  · intro w single
    refine ordered.lane tracked recorded w _ (fun number isMine => ?_) ?_
    · have isFree : registry.pin number = -1 ∨ registry.pin number = threadOf w :=
        of_decide_eq_true isMine
      exact isFree
    · exact fun v _ _ _ => single v

end Registry

end Sylar.Scheduling
