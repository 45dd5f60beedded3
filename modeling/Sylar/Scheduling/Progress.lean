import Sylar.Foundation.Countdown
import Sylar.Scheduling.ActiveCount
import Sylar.Scheduling.Order

/-! # No callback waits for ever

A callback in the queue comes forward whenever an entry before it is taken, and what is
enqueued comes after it. So a worker that may run it comes to it, if no other does, after
a bounded number of its own steps, whatever the others do in between.
-/

namespace Sylar.Scheduling

open Foundation

variable {Callback Idle : Type} {size : Nat}

/-! ## The queue -/

section Position

variable {entry : Entry} {left right : List Entry} {isHere : Entry → Bool}

theorem findIdx_remove_le (notHere : isHere entry = false) :
    (left ++ right).findIdx isHere ≤ (left ++ entry :: right).findIdx isHere := by
  rw [List.findIdx_append, List.findIdx_append, List.findIdx_cons, notHere]
  split
  · exact Nat.le_refl _
  · simp only [cond_false]
    omega

theorem findIdx_remove_lt (notHere : isHere entry = false)
    (notBefore : ∀ other ∈ left, isHere other = false) :
    (left ++ right).findIdx isHere < (left ++ entry :: right).findIdx isHere := by
  have atEnd : left.findIdx isHere = left.length := List.findIdx_eq_length.mpr notBefore
  rw [List.findIdx_append, List.findIdx_append, List.findIdx_cons, notHere, atEnd]
  simp only [Nat.lt_irrefl, if_false, cond_false]
  omega

theorem findIdx_append_left (here : ∃ other ∈ left, isHere other = true) :
    (left ++ right).findIdx isHere = left.findIdx isHere := by
  rw [List.findIdx_append, if_pos (List.findIdx_lt_length.mpr here)]

end Position

namespace Scheduler

variable {scheduler next : Scheduler Callback Idle size} {w : Fin size}
  {threadOf : Fin size → ThreadId} {enter : Idle} {label : Label Callback size}

/-- A step puts entries at the end of the queue, or takes the first one that is free for
the worker that scans. -/
theorem Steps.fibers_cases (steps : Steps threadOf enter scheduler label next) :
    ((∃ more, next.fibers = scheduler.fibers ++ more) ∧
        ∀ w, label = .scan w →
          ∀ entry ∈ scheduler.fibers, free scheduler.fiberState (threadOf w) entry = false) ∨
      ∃ w entry left right, label = .scan w ∧
        scheduler.fibers = left ++ entry :: right ∧ next.fibers = left ++ right ∧
        ∀ other ∈ left, free scheduler.fiberState (threadOf w) other = false := by
  have kept : next.fibers = scheduler.fibers → (∀ w, label ≠ .scan w) →
      (∃ more, next.fibers = scheduler.fibers ++ more) ∧
        ∀ w, label = .scan w →
          ∀ entry ∈ scheduler.fibers, free scheduler.fiberState (threadOf w) entry = false :=
    fun same notScan =>
      ⟨⟨[], by rw [same, List.append_nil]⟩, fun w isScan => absurd isScan (notScan w)⟩
  cases steps with
  | schedule entry => exact Or.inl ⟨⟨[entry], rfl⟩, by simp⟩
  | @scan w stageIs =>
      cases takenIs : (found threadOf scheduler w).taken with
      | none =>
          refine Or.inl ⟨⟨[], ?_⟩, ?_⟩
          · rw [scanQueue_fibers, List.append_nil]
            exact scan_none takenIs
          · intro v isScan entry member
            cases isScan
            rw [found, scan_taken] at takenIs
            exact Bool.eq_false_iff.mpr (List.find?_eq_none.mp takenIs entry member)
      | some entry =>
          rcases scan_split takenIs with ⟨left, right, split, rest, -, first⟩
          refine Or.inr ⟨w, entry, left, right, rfl, split, ?_, first⟩
          rw [scanQueue_fibers]
          exact rest
  | @resume w ft =>
      exact Or.inl (kept (resume_kept enter scheduler w ft).1 (by simp))
  | @settle w fiber thread =>
      refine Or.inl ⟨?_, by simp⟩
      simp only [Scheduler.settle]
      split
      · exact ⟨[⟨.fiber fiber, thread⟩], rfl⟩
      · split
        · exact ⟨[], (List.append_nil _).symm⟩
        · exact ⟨[], (List.append_nil _).symm⟩
  | newFiber | autoStop | stopping | tickle | swapOut | release | leaveIdle | afterIdle =>
      exact Or.inl (kept rfl (by simp))

end Scheduler

/-! ## The rounds of a worker -/

/-- The steps a worker takes at most before it scans the queue again. -/
def Stage.due : Stage Callback Idle → Nat
  | .scanning | .left => 0
  | .released .. | .idled => 1
  | .returned .. | .idling _ => 2
  | .running .. => 3
  | .scanned _ => 4
  | .tickling _ => 5

theorem Stage.due_le (stage : Stage Callback Idle) : stage.due ≤ 5 := by
  cases stage <;> simp [Stage.due]

theorem Scheduler.Transition.due_lt {scheduler next : Scheduler Callback Idle size}
    {w : Fin size} {threadOf : Fin size → ThreadId} {enter : Idle}
    {label : Scheduler.Label Callback size} {before after : Stage Callback Idle}
    (moves : Transition threadOf enter scheduler next w label before after)
    (notScan : label ≠ .scan w) : after.due < before.due := by
  cases moves with
  | scan => exact absurd rfl notScan
  | nothing ft stageAfter =>
      rcases stageAfter with rfl | rfl | rfl <;> simp [Stage.due]
  | tickle | start | swapIn | swapOut | release | settle | leaveIdle | afterIdle =>
      simp [Stage.due]

/-! ## Staying in the loop -/

/-- The worker has left its loop, or it has found nothing to run and its idle fiber has
ended, so that it leaves the loop next. -/
def Worker.Leaving (worker : Worker Callback Idle) : Prop :=
  worker.stage = .left ∨
    (worker.stage = .tickling none ∨ worker.stage = .scanned none) ∧
      worker.isActivate = false ∧ worker.idleFiber = .TERM

namespace Scheduler

variable {scheduler next : Scheduler Callback Idle size} {v w : Fin size}
  {threadOf : Fin size → ThreadId} {enter : Idle} {label : Label Callback size}

theorem staying_of_worker {worker : Worker Callback Idle}
    (workersIs : next.workers = Function.update scheduler.workers w worker)
    (stays : ¬(scheduler.workers v).Leaving)
    (here : ¬(scheduler.workers w).Leaving → ¬worker.Leaving) : ¬(next.workers v).Leaving := by
  rw [workersIs]
  by_cases same : v = w
  · subst same
    rw [Function.update_self]
    exact here stays
  · rw [Function.update_of_ne same]
    exact stays

theorem nothingToRun_staying (enter : Idle) (tracked : scheduler.AllTracked)
    {ft : Option (FiberAnThread Callback)} (stageIs : (scheduler.workers w).stage = .scanned ft)
    (stays : ¬(scheduler.workers v).Leaving) :
    ¬((scheduler.nothingToRun enter w).workers v).Leaving := by
  have isTracked := tracked w
  rw [nothingToRun]
  by_cases active : (scheduler.workers w).isActivate = true
  · rw [if_pos active]
    exact staying_of_worker rfl stays (by simp [Worker.Leaving])
  · rw [if_neg active]
    by_cases ended : (scheduler.workers w).idleFiber = .TERM
    · rw [if_pos ended]
      refine staying_of_worker rfl stays fun staysHere => absurd ?_ staysHere
      cases ft with
      | none => exact Or.inr ⟨Or.inr stageIs, Bool.eq_false_iff.mpr active, ended⟩
      | some entry =>
          rw [Worker.Tracked, stageIs] at isTracked
          exact absurd isTracked.1 active
    · rw [if_neg ended]
      exact staying_of_worker rfl stays (by simp [Worker.Leaving])

theorem Steps.staying (steps : Steps threadOf enter scheduler label next)
    (tracked : scheduler.AllTracked) (stays : ¬(scheduler.workers v).Leaving)
    (queued : ∃ entry ∈ scheduler.fibers,
      free scheduler.fiberState (threadOf v) entry = true) :
    ¬(next.workers v).Leaving := by
  cases steps with
  | schedule | newFiber | autoStop | stopping => exact stays
  | @scan w stageIs =>
      by_cases same : v = w
      · subst same
        rcases @scanQueue_workers _ _ _ scheduler v threadOf with
          ⟨worker, workersIs, stageAfter, -⟩
        have takes : (found threadOf scheduler v).taken.isSome = true := by
          rw [found, scan_taken, List.find?_isSome]
          exact queued
        refine staying_of_worker workersIs stays fun _ leaving => ?_
        rcases Option.isSome_iff_exists.mp takes with ⟨entry, takenIs⟩
        rw [takenIs] at stageAfter
        rcases stageAfter with stageAfter | stageAfter <;>
          simp [Worker.Leaving, stageAfter] at leaving
      · rcases @scanQueue_workers _ _ _ scheduler w threadOf with ⟨worker, workersIs, -⟩
        rw [workersIs, Function.update_of_ne same]
        exact stays
  | @tickle w ft stageIs =>
      refine staying_of_worker rfl stays fun staysHere leaving => staysHere ?_
      rcases leaving with isLeft | ⟨nothing, ends⟩
      · cases isLeft
      · rcases nothing with isTickling | isScanned
        · cases isTickling
        · cases isScanned
          exact Or.inr ⟨Or.inl stageIs, ends⟩
  | @resume w ft stageIs =>
      rcases resume_frame enter scheduler w ft with
        nextIs | ⟨_, _, _, _, _, _, -, nextIs⟩
      · rw [nextIs]
        exact nothingToRun_staying enter tracked stageIs stays
      · rw [nextIs]
        exact staying_of_worker rfl stays (by simp [Worker.Leaving])
  | @settle w fiber thread =>
      rcases settle_frame scheduler w fiber thread with ⟨_, _, nextIs⟩
      rw [nextIs]
      exact staying_of_worker rfl stays (by simp [Worker.Leaving])
  | swapOut | release | leaveIdle | afterIdle =>
      exact staying_of_worker rfl stays (by simp [Worker.Leaving])

end Scheduler

namespace Registry

variable {threadOf : Fin size → ThreadId} {enter : Idle}
  {registry after : Registry Callback Idle size} {label : Scheduler.Label Callback size}
  {number : Nat}

def ahead (registry : Registry Callback Idle size) (number : Nat) : Nat :=
  registry.scheduler.fibers.findIdx fun entry => numberOf entry = some number

def turnsOf (w : Fin size) (labels : List (Scheduler.Label Callback size)) : Nat :=
  labels.countP fun label => label.worker = some w

structure InPlace (threadOf : Fin size → ThreadId)
    (registry : Registry Callback Idle size) : Prop where
  tracked : registry.Tracked threadOf
  recorded : ∃ record, registry.Ordered threadOf record ∧
    record.map Prod.snd = registry.started
  workers : registry.scheduler.AllTracked

theorem InPlace.begin (threadOf : Fin size → ThreadId) :
    ({} : Registry Callback Idle size).InPlace threadOf where
  tracked := Tracked.begin threadOf
  recorded := ⟨[], Ordered.begin threadOf, rfl⟩
  workers := Scheduler.new_tracked

theorem InPlace.step (inPlace : registry.InPlace threadOf)
    (stepped : step threadOf enter registry label = some after) : after.InPlace threadOf where
  tracked := inPlace.tracked.step stepped
  recorded := by
    rcases inPlace.recorded with ⟨record, ordered, same⟩
    refine ⟨_, ordered.step inPlace.tracked stepped, ?_⟩
    rw [List.map_append, same]
    exact (started_recorded stepped).symm
  workers := ((scheduler_step stepped).tracks inPlace.workers).1

theorem InPlace.nodup (inPlace : registry.InPlace threadOf) : registry.waiting.Nodup := by
  rcases inPlace.recorded with ⟨record, ordered, -⟩
  exact ordered.sorted.imp Nat.ne_of_lt

theorem mem_waiting : number ∈ registry.waiting ↔
    ∃ entry ∈ registry.scheduler.fibers, numberOf entry = some number :=
  List.mem_filterMap

/-! ## Callbacks that wait -/

structure Meant (threadOf : Fin size → ThreadId) (w : Fin size) (number : Nat)
    (registry : Registry Callback Idle size) : Prop where
  inPlace : registry.InPlace threadOf
  given : number < registry.issued
  isFree : registry.FreeFor threadOf w number

theorem given_step (inPlace : registry.InPlace threadOf)
    (stepped : step threadOf enter registry label = some after)
    (given : number < registry.issued) :
    number < after.issued ∧ after.pin number = registry.pin number ∧
      (number ∈ after.waiting → number ∈ registry.waiting) := by
  cases change_step inPlace.tracked stepped [] with
  | keep issued pin waiting =>
      rw [issued, pin, waiting]
      exact ⟨given, rfl, id⟩
  | enqueue thread issued pin waiting =>
      rw [issued, pin, waiting, Function.update_of_ne (Nat.ne_of_lt given)]
      refine ⟨Nat.lt_succ_of_lt given, rfl, fun waits => ?_⟩
      rcases List.mem_append.mp waits with before | new
      · exact before
      · exact absurd (List.mem_singleton.mp new) (Nat.ne_of_lt given)
  | @take w taken left right issued pin before waiting =>
      rw [issued, pin, before, waiting]
      exact ⟨given, rfl, fun waits => ((List.sublist_cons_self taken right).append_left
        left).subset waits⟩

theorem Meant.onward {w : Fin size} (meant : registry.Meant threadOf w number)
    (stepped : step threadOf enter registry label = some after) :
    after.Meant threadOf w number := by
  rcases given_step meant.inPlace stepped meant.given with ⟨given, pin, -⟩
  refine ⟨meant.inPlace.step stepped, given, ?_⟩
  rw [FreeFor, pin]
  exact meant.isFree

theorem Meant.free {w : Fin size} (meant : registry.Meant threadOf w number)
    {entry : FiberAnThread (Nat × Callback)} (queued : entry ∈ registry.scheduler.fibers)
    (holds : numberOf entry = some number) :
    Scheduler.free registry.scheduler.fiberState (threadOf w) entry = true := by
  rcases meant.inPlace.tracked.waiting_entry queued holds with ⟨-, pin, notExecuting⟩
  have isFree := meant.isFree
  rw [FreeFor, ← pin] at isFree
  simp [Scheduler.free, isFree, notExecuting]

/-- While a callback waits, no step puts an entry before it, and a scan by a worker that may
run it takes one from before it. -/
theorem Meant.ahead_step {w : Fin size} (meant : registry.Meant threadOf w number)
    (stepped : step threadOf enter registry label = some after)
    (waits : number ∈ after.waiting) :
    after.ahead number ≤ registry.ahead number ∧
      (label = .scan w → after.ahead number < registry.ahead number) := by
  rcases mem_waiting.mp ((given_step meant.inPlace stepped meant.given).2.2 waits) with
    ⟨entry, queued, holds⟩
  have isScan : label = .scan w → label.map (Prod.mk registry.issued) = .scan w := by
    rintro rfl
    rfl
  rcases (scheduler_step stepped).fibers_cases with
    ⟨⟨more, fibers⟩, nothing⟩ | ⟨v, taken, left, right, scans, before, fibers, first⟩
  · rw [ahead, ahead, fibers, findIdx_append_left ⟨entry, queued, by simp [holds]⟩]
    refine ⟨Nat.le_refl _, fun same => ?_⟩
    have notFree := nothing w (isScan same) entry queued
    rw [meant.free queued holds] at notFree
    cases notFree
  · have notTaken : numberOf taken ≠ some number := by
      intro same
      have nodup := meant.inPlace.nodup
      rw [waiting, before, List.filterMap_append, List.filterMap_cons_some same,
        List.nodup_middle, List.nodup_cons] at nodup
      rw [waiting, fibers, List.filterMap_append] at waits
      exact nodup.1 waits
    rw [ahead, ahead, fibers, before]
    refine ⟨findIdx_remove_le (by simpa using notTaken), fun same => ?_⟩
    have sameWorker : v = w := by
      have scansToo := scans.symm.trans (isScan same)
      cases scansToo
      rfl
    subst sameWorker
    refine findIdx_remove_lt (by simpa using notTaken) fun other member => ?_
    have notFree := first other member
    refine decide_eq_false fun holdsToo => ?_
    have queuedToo : other ∈ registry.scheduler.fibers := by
      rw [before]
      exact List.mem_append_left _ member
    rw [meant.free queuedToo holdsToo] at notFree
    cases notFree

def remaining (w : Fin size) (number : Nat) (registry : Registry Callback Idle size) : Nat :=
  6 * registry.ahead number + (registry.scheduler.workers w).stage.due

theorem worker_map (label : Scheduler.Label Callback size) (issued : Nat) :
    (label.map (Prod.mk issued)).worker = label.worker := by
  cases label <;> rfl

theorem Meant.remaining_step {w : Fin size} (meant : registry.Meant threadOf w number)
    (stepped : step threadOf enter registry label = some after)
    (waits : number ∈ after.waiting) :
    number ∈ registry.waiting ∧
      remaining w number after + (if decide (label.worker = some w) then 1 else 0) ≤
        remaining w number registry := by
  refine ⟨(given_step meant.inPlace stepped meant.given).2.2 waits, ?_⟩
  rcases meant.ahead_step stepped waits with ⟨notMore, less⟩
  rw [remaining, remaining]
  rcases (scheduler_step stepped).stage w with ⟨other, same⟩ | moves
  · rw [worker_map] at other
    rw [same, decide_eq_false other]
    simp only [Bool.false_eq_true, if_false]
    omega
  · by_cases isScan : label = .scan w
    · -- A new round is paid for with an entry.
      have fewer := less isScan
      have round := (after.scheduler.workers w).stage.due_le
      split <;> omega
    · have sooner := moves.due_lt fun same => isScan (by cases label <;> cases same; rfl)
      split <;> omega

theorem InPlace.meant {w : Fin size} (inPlace : registry.InPlace threadOf)
    (waits : number ∈ registry.waiting) (isFree : registry.FreeFor threadOf w number) :
    registry.Meant threadOf w number := by
  rcases mem_waiting.mp waits with ⟨entry, queued, holds⟩
  exact ⟨inPlace, (inPlace.tracked.waiting_entry queued holds).1, isFree⟩

/-- What waits at the end of a run has waited all along, and the steps of a worker that may
run it have been paid for. -/
theorem Meant.waits_of_run {w : Fin size} (meant : registry.Meant threadOf w number)
    {labels : List (Scheduler.Label Callback size)}
    (ran : (machine threadOf enter).run registry labels = some after)
    (waits : number ∈ after.waiting) :
    number ∈ registry.waiting ∧
      remaining w number after + turnsOf w labels ≤ remaining w number registry := by
  have lasted : ∀ (state : Registry Callback Idle size) label next,
      Meant threadOf w number state → (machine threadOf enter).step state label = some next →
        number ∈ next.waiting →
          number ∈ state.waiting ∧
            remaining w number next + (if decide (label.worker = some w) then 1 else 0) ≤
              remaining w number state :=
    fun _ _ _ meantThere stepped => meantThere.remaining_step stepped
  exact Machine.countP_le (fun _ _ _ meantThere stepped => meantThere.onward stepped) lasted
    meant ran waits

theorem Meant.taken {w : Fin size} (meant : registry.Meant threadOf w number)
    {labels : List (Scheduler.Label Callback size)}
    (ran : (machine threadOf enter).run registry labels = some after)
    (turns : 6 * (registry.ahead number + 1) ≤ turnsOf w labels) : number ∉ after.waiting := by
  intro waits
  have paid := (meant.waits_of_run ran waits).2
  have round := (registry.scheduler.workers w).stage.due_le
  rw [remaining, remaining] at paid
  omega

theorem Meant.staying {w : Fin size} (meant : registry.Meant threadOf w number)
    {labels : List (Scheduler.Label Callback size)}
    (ran : (machine threadOf enter).run registry labels = some after)
    (waits : number ∈ after.waiting) (stays : ¬(registry.scheduler.workers w).Leaving) :
    ¬(after.scheduler.workers w).Leaving := by
  induction labels generalizing registry with
  | nil =>
      cases ran
      exact stays
  | cons label labels induction =>
      rcases mem_waiting.mp (meant.waits_of_run ran waits).1 with ⟨entry, queued, holds⟩
      rcases Option.bind_eq_some_iff.mp ran with ⟨next, stepped, rest⟩
      exact induction (meant.onward stepped) rest
        ((scheduler_step stepped).staying meant.inPlace.workers stays
          ⟨entry, queued, meant.free queued holds⟩)

/-! ## Callbacks in hand -/

structure Gone (threadOf : Fin size → ThreadId) (number : Nat)
    (registry : Registry Callback Idle size) : Prop where
  inPlace : registry.InPlace threadOf
  given : number < registry.issued
  notWaiting : number ∉ registry.waiting

theorem Gone.onward (gone : registry.Gone threadOf number)
    (stepped : step threadOf enter registry label = some after) :
    after.Gone threadOf number := by
  rcases given_step gone.inPlace stepped gone.given with ⟨given, -, waited⟩
  exact ⟨gone.inPlace.step stepped, given, fun waits => gone.notWaiting (waited waits)⟩

theorem due_of_inHand {v : Fin size} (holds : registry.inHand v = some number) :
    4 ≤ (registry.scheduler.workers v).stage.due := by
  rw [inHand] at holds
  cases stageIs : (registry.scheduler.workers v).stage with
  | tickling | scanned => simp [Stage.due]
  | scanning | running | returned | released | idling | idled | left =>
      rw [stageIs] at holds
      cases holds

theorem Gone.inHand_step (gone : registry.Gone threadOf number) {v : Fin size}
    (stepped : step threadOf enter registry label = some after)
    (holds : after.inHand v = some number) :
    registry.inHand v = some number ∧
      (after.scheduler.workers v).stage.due +
          (if decide (label.worker = some v) then 1 else 0) ≤
        (registry.scheduler.workers v).stage.due := by
  have steps := scheduler_step stepped
  rcases Option.bind_eq_some_iff.mp holds with ⟨entry, heldAfter, numbers⟩
  have held : (registry.scheduler.workers v).stage.held = some entry := by
    rcases steps.held heldAfter with before | ⟨-, found⟩ | ⟨_, _, -, -, rfl⟩
    · exact before
    · exact absurd (mem_waiting.mpr ⟨entry, List.mem_of_find?_eq_some found, numbers⟩)
        gone.notWaiting
    · cases numbers
  refine ⟨Option.bind_eq_some_iff.mpr ⟨entry, held, numbers⟩, ?_⟩
  rcases steps.stage v with ⟨other, same⟩ | moves
  · rw [worker_map] at other
    rw [same, decide_eq_false other]
    exact Nat.le_refl _
  · have notScan : label.map (Prod.mk registry.issued) ≠ .scan v := by
      intro isScan
      rw [isScan] at steps
      generalize after.scheduler = next at steps
      cases steps with
      | scan stageIs =>
          rw [stageIs] at held
          cases held
    have sooner := moves.due_lt notScan
    split <;> omega

theorem Gone.started (gone : registry.Gone threadOf number)
    {labels : List (Scheduler.Label Callback size)}
    (ran : (machine threadOf enter).run registry labels = some after)
    (each : ∀ v, 2 ≤ turnsOf v labels) : number ∈ after.started := by
  have goneAfter : after.Gone threadOf number :=
    Machine.run_induction (fun _ _ _ goneThere stepped => goneThere.onward stepped) gone ran
  have notHeld : ∀ v, after.inHand v ≠ some number := by
    intro v holds
    have lasted : ∀ (state : Registry Callback Idle size) label next,
        Gone threadOf number state → (machine threadOf enter).step state label = some next →
        next.inHand v = some number →
          state.inHand v = some number ∧
            (next.scheduler.workers v).stage.due +
                (if decide (label.worker = some v) then 1 else 0) ≤
              (state.scheduler.workers v).stage.due :=
      fun _ _ _ goneThere stepped => goneThere.inHand_step stepped
    have paid := (Machine.countP_le
      (fun _ _ _ goneThere stepped => Gone.onward goneThere stepped) lasted gone ran holds).2
    have toGo := due_of_inHand holds
    have atMost := (registry.scheduler.workers v).stage.due_le
    have enough := each v
    rw [turnsOf] at enough
    omega
  rcases goneAfter.inPlace.recorded with ⟨record, -, recorded⟩
  rcases goneAfter.inPlace.tracked.somewhere recorded goneAfter.given with waits | ⟨v, taken⟩
  · exact absurd waits goneAfter.notWaiting
  · rcases List.mem_append.mp taken with begun | holds
    · rcases List.mem_map.mp begun with ⟨start, member, rfl⟩
      rw [← recorded]
      exact List.mem_map_of_mem (List.mem_of_mem_filter member)
    · exact absurd (Option.mem_toList.mp holds) (notHeld v)

/-! ## Runs -/

/-- What a callback that waits can rely on, whatever the workers and those who enqueue do
from here on. -/
structure Served (threadOf : Fin size → ThreadId) (enter : Idle)
    (registry : Registry Callback Idle size) (number : Nat) : Prop where
  /-- With so many steps of a worker that may run it, somebody has taken it. -/
  taken : ∀ w, registry.FreeFor threadOf w number → ∀ labels after,
    (machine threadOf enter).run registry labels = some after →
      6 * (registry.ahead number + 1) ≤ turnsOf w labels → number ∉ after.waiting
  /-- With two steps more of every worker, it has been started. -/
  started : ∀ labels after more final,
    (machine threadOf enter).run registry labels = some after → number ∉ after.waiting →
      (machine threadOf enter).run after more = some final →
        (∀ v, 2 ≤ turnsOf v more) → number ∈ final.started
  /-- A worker that may run it does not leave its loop meanwhile, unless it is already about
  to. -/
  stays : ∀ w, registry.FreeFor threadOf w number →
    ¬(registry.scheduler.workers w).Leaving → ∀ labels after,
      (machine threadOf enter).run registry labels = some after → number ∈ after.waiting →
        ¬(after.scheduler.workers w).Leaving

theorem InPlace.served (inPlace : registry.InPlace threadOf) (enter : Idle)
    (waits : number ∈ registry.waiting) : registry.Served threadOf enter number where
  taken w isFree labels after ran turns := (inPlace.meant waits isFree).taken ran turns
  started labels after more final ran notWaiting ranMore each := by
    rcases mem_waiting.mp waits with ⟨entry, queued, holds⟩
    have given := (inPlace.tracked.waiting_entry queued holds).1
    have kept : after.InPlace threadOf ∧ number < after.issued := by
      apply Machine.run_induction ?_ ⟨inPlace, given⟩ ran
      rintro state label next ⟨inPlaceThere, givenThere⟩ stepped
      exact ⟨inPlaceThere.step stepped, (given_step inPlaceThere stepped givenThere).1⟩
    exact Gone.started ⟨kept.1, kept.2, notWaiting⟩ ranMore each
  stays w isFree stays labels after ran waitsAfter :=
    (inPlace.meant waits isFree).staying ran waitsAfter stays

/-- However the workers and those who enqueue come in between one another, no callback is
left behind: as many steps of a worker that may run it as the entries before it call for,
and it has been taken. -/
theorem served_always (threadOf : Fin size → ThreadId) (enter : Idle)
    (labels : List (Scheduler.Label Callback size)) :
    (machine threadOf enter).Always
      (fun registry : Registry Callback Idle size =>
        ∀ number ∈ registry.waiting, registry.Served threadOf enter number) {} labels := by
  apply Machine.always_of_invariant (InPlace threadOf)
  · exact fun _ _ _ inPlace stepped => inPlace.step stepped
  · exact fun _ inPlace number waits => inPlace.served enter waits
  · exact InPlace.begin threadOf

/-- Two callbacks, of which the second has one entry before it. -/
example :
    ∃ registry after : Registry Unit Unit 1,
      (machine (fun _ => 1) ()).run {} [.schedule ⟨.cb (), -1⟩, .schedule ⟨.cb (), 1⟩] =
          some registry ∧
        registry.ahead 1 = 1 ∧ 1 ∈ registry.waiting ∧
        (machine (fun _ => 1) ()).run registry
          [.scan 0, .resume 0, .swapOut 0 .finished, .release 0, .settle 0, .scan 0,
            .resume 0] = some after ∧
        1 ∈ after.started :=
  ⟨_, _, rfl, rfl, by decide, rfl, by decide⟩

end Registry

end Sylar.Scheduling
