import Mathlib.Tactic.Common
import Sylar.Scheduling.Custody
import Sylar.Scheduling.Renaming

/-! # Every callback is started once

The run loop with its callbacks numbered in the order they are enqueued, and with a
record of what becomes of them: which have been started, which fiber was made from
which, how each fiber gave control back and what the workers put into the queue for
it after that.
-/

namespace Sylar.Scheduling

open Foundation

variable {Callback Idle : Type} {size : Nat}

/-! ## Entries in hand -/

def Stage.held : Stage Callback Idle → Option (FiberAnThread Callback)
  | .tickling ft | .scanned ft => ft
  | .running fiber thread _ | .returned fiber thread _ | .released fiber thread =>
      some { work := .fiber fiber, thread := thread }
  | .scanning | .idling _ | .idled | .left => none

theorem Stage.hand_eq_held (stage : Stage Callback Idle) :
    stage.hand = stage.held.map FiberAnThread.work := by
  cases stage <;> rfl

def Stage.settling : Stage Callback Idle → Option FiberId
  | .returned fiber .. | .released fiber _ => some fiber
  | .scanning | .tickling _ | .scanned _ | .running .. | .idling _ | .idled | .left => none

theorem Stage.hand_of_settling {stage : Stage Callback Idle} {fiber : FiberId}
    (settles : stage.settling = some fiber) : stage.hand = some (.fiber fiber) := by
  cases stage with
  | returned | released =>
      cases settles
      rfl
  | scanning | tickling | scanned | running | idling | idled | left => cases settles

namespace Scheduler

variable {scheduler next : Scheduler Callback Idle size} {w : Fin size}
  {threadOf : Fin size → ThreadId} {enter : Idle} {label : Label Callback size}

def Present (scheduler : Scheduler Callback Idle size)
    (entry : FiberAnThread Callback) : Prop :=
  entry ∈ scheduler.fibers ∨ ∃ w, (scheduler.workers w).stage.held = some entry

theorem Transition.held {entry : FiberAnThread Callback} {before after : Stage Callback Idle}
    (moves : Transition threadOf enter scheduler next w label before after)
    (holds : after.held = some entry) :
    before.held = some entry ∨
      (label = .scan w ∧
        scheduler.fibers.find? (free scheduler.fiberState (threadOf w)) = some entry) ∨
      ∃ callback thread, label = .resume w ∧
        before = .scanned (some ⟨.cb callback, thread⟩) ∧
        entry = ⟨.fiber scheduler.created, thread⟩ := by
  cases moves with
  | scan takes stageAfter =>
      refine Or.inr (Or.inl ⟨rfl, takes.trans ?_⟩)
      rcases stageAfter with rfl | rfl
      · exact holds
      · exact holds
  | start callback thread =>
      cases holds
      exact Or.inr (Or.inr ⟨callback, thread, rfl, rfl, rfl⟩)
  | tickle | swapIn | swapOut | release => exact Or.inl holds
  | nothing ft stageAfter => rcases stageAfter with rfl | rfl | rfl <;> cases holds
  | settle | leaveIdle | afterIdle => cases holds

/-- What a worker comes to hold: what its scan finds, or the fiber it makes for the
callback in its hand. -/
theorem Steps.held (steps : Steps threadOf enter scheduler label next) {v : Fin size}
    {entry : FiberAnThread Callback}
    (holds : (next.workers v).stage.held = some entry) :
    (scheduler.workers v).stage.held = some entry ∨
      (label = .scan v ∧
        scheduler.fibers.find? (free scheduler.fiberState (threadOf v)) = some entry) ∨
      ∃ callback thread, label = .resume v ∧
        (scheduler.workers v).stage = .scanned (some ⟨.cb callback, thread⟩) ∧
        entry = ⟨.fiber scheduler.created, thread⟩ := by
  rcases steps.stage v with ⟨-, same⟩ | moves
  · rw [same] at holds
    exact Or.inl holds
  · exact moves.held holds

theorem Steps.queued (steps : Steps threadOf enter scheduler label next)
    {entry : FiberAnThread Callback} (member : entry ∈ next.fibers) :
    scheduler.Present entry ∨ label = .schedule entry := by
  cases steps with
  | schedule other =>
      rcases List.mem_append.mp member with old | new
      · exact Or.inl (Or.inl old)
      · rw [List.mem_singleton.mp new]
        exact Or.inr rfl
  | scan =>
      rw [scanQueue_fibers] at member
      exact Or.inl (Or.inl (mem_of_found member))
  | @resume w ft =>
      rw [(resume_kept enter scheduler w ft).1] at member
      exact Or.inl (Or.inl member)
  | @settle w fiber thread stageIs =>
      simp only [Scheduler.settle] at member
      split at member
      · rcases List.mem_append.mp member with old | new
        · exact Or.inl (Or.inl old)
        · rw [List.mem_singleton.mp new]
          refine Or.inl (Or.inr ⟨w, ?_⟩)
          rw [stageIs]
          rfl
      · split at member
        · exact Or.inl (Or.inl member)
        · exact Or.inl (Or.inl member)
  | newFiber | autoStop | stopping | tickle | swapOut | release | leaveIdle | afterIdle =>
      exact Or.inl (Or.inl member)

/-- An entry that comes up is handed in, or is the fiber made for a callback, with
the thread of the callback. -/
theorem Steps.present (steps : Steps threadOf enter scheduler label next)
    {entry : FiberAnThread Callback} (present : next.Present entry) :
    scheduler.Present entry ∨ label = .schedule entry ∨
      ∃ v callback thread, label = .resume v ∧
        (scheduler.workers v).stage = .scanned (some ⟨.cb callback, thread⟩) ∧
        entry = ⟨.fiber scheduler.created, thread⟩ := by
  rcases present with member | ⟨v, holds⟩
  · rcases steps.queued member with before | handedIn
    · exact Or.inl before
    · exact Or.inr (Or.inl handedIn)
  · rcases steps.held holds with before | ⟨-, takes⟩ | ⟨callback, thread, made⟩
    · exact Or.inl (Or.inr ⟨v, before⟩)
    · exact Or.inl (Or.inl (List.mem_of_find?_eq_some takes))
    · exact Or.inr (Or.inr ⟨v, callback, thread, made⟩)

theorem Transition.resumed {before after : Stage Callback Idle} {fiber : FiberId}
    (moves : Transition threadOf enter scheduler next w (.resume v) before after)
    (settles : after.settling = some fiber) : False := by
  cases moves with
  | nothing ft stageAfter => rcases stageAfter with rfl | rfl | rfl <;> cases settles
  | start | swapIn => cases settles

/-- A step leaves the states of the fibers alone but for a new one and the one in the
hand of the worker that takes the step. -/
theorem Steps.fiberState (steps : Steps threadOf enter scheduler label next)
    {fiber : FiberId} (existing : fiber < scheduler.created)
    (notHeld : ∀ w, label.worker = some w →
      (scheduler.workers w).stage.hand ≠ some (.fiber fiber)) :
    next.fiberState fiber = scheduler.fiberState fiber := by
  have notNew : fiber ≠ scheduler.created := Nat.ne_of_lt existing
  have different : ∀ {w : Fin size} {other : FiberId}, label.worker = some w →
      (scheduler.workers w).stage.hand = some (.fiber other) → fiber ≠ other := by
    intro w other isWorker holds same
    subst same
    exact notHeld w isWorker holds
  cases steps with
  | schedule | autoStop | stopping | tickle | release | leaveIdle | afterIdle => rfl
  | newFiber => exact Function.update_of_ne notNew ..
  | scan => rw [scanQueue_fiberState]
  | @resume w ft stageIs =>
      have idle : (scheduler.nothingToRun enter w).fiberState fiber =
          scheduler.fiberState fiber := by
        rw [nothingToRun_fiberState]
      rcases ft with _ | ⟨callback | other, thread⟩
      · exact idle
      · simp only [Scheduler.resume, swapIn, setWorker, setFiber]
        rw [Function.update_of_ne notNew]
        exact Function.update_of_ne notNew ..
      · have notOther := different rfl (by rw [stageIs]; rfl)
        simp only [Scheduler.resume]
        split
        · exact Function.update_of_ne notOther ..
        · exact idle
  | swapOut how stageIs =>
      exact Function.update_of_ne (different rfl (by rw [stageIs]; rfl)) ..
  | settle stageIs =>
      have notOther := different rfl (by rw [stageIs]; rfl)
      simp only [Scheduler.settle]
      split
      · rfl
      · split
        · exact Function.update_of_ne notOther ..
        · rfl

theorem Steps.settling (steps : Steps threadOf enter scheduler label next) {v : Fin size}
    {fiber : FiberId} (existing : fiber < scheduler.created)
    (single : scheduler.owners fiber ≤ 1)
    (settles : (next.workers v).stage.settling = some fiber) :
    (∃ how, label = .swapOut v how ∧ next.fiberState fiber = how.state) ∨
      ((scheduler.workers v).stage.settling = some fiber ∧
        (∀ how, label ≠ .swapOut v how) ∧
        next.fiberState fiber = scheduler.fiberState fiber) := by
  rcases steps.stage v with ⟨other, same⟩ | moves
  · rw [same] at settles
    refine Or.inr ⟨settles, ?_, steps.fiberState existing ?_⟩
    · intro how isSwapOut
      subst isSwapOut
      exact other rfl
    · intro w isWorker holds
      refine only_here single holds (Or.inr ⟨v, ?_, Stage.hand_of_settling settles⟩)
      intro isSame
      subst isSame
      exact other isWorker
  · generalize (scheduler.workers v).stage = before at moves ⊢
    generalize (next.workers v).stage = after at moves settles
    cases moves with
    | @swapOut left thread fromCb how leaves =>
        cases settles
        exact Or.inl ⟨how, rfl, leaves⟩
    | release left thread fromCb same =>
        exact Or.inr ⟨settles, by simp, by rw [same]⟩
    | scan takes stageAfter => rcases stageAfter with rfl | rfl <;> cases settles
    | nothing ft stageAfter => rcases stageAfter with rfl | rfl | rfl <;> cases settles
    | tickle | start | swapIn | settle | leaveIdle | afterIdle => cases settles

theorem Steps.drop_fibers (steps : Steps threadOf enter scheduler label next)
    (notHandedIn : ∀ entry, label ≠ .schedule entry)
    (notSettled : ∀ w, label ≠ .settle w) :
    next.fibers.drop scheduler.fibers.length = [] := by
  rw [List.drop_eq_nil_iff]
  cases steps with
  | schedule entry => exact absurd rfl (notHandedIn entry)
  | settle => exact absurd rfl (notSettled _)
  | @scan w =>
      rw [scanQueue_fibers, found]
      cases takenIs :
          (Scheduler.scan scheduler.fiberState (threadOf w) scheduler.fibers).taken with
      | none => exact Nat.le_of_eq (congrArg List.length (scan_none takenIs))
      | some entry =>
          have split := (scan_perm takenIs).length_eq
          rw [List.length_cons] at split
          omega
  | @resume w ft =>
      rw [(resume_kept enter scheduler w ft).1]
  | newFiber | autoStop | stopping | tickle | swapOut | release | leaveIdle | afterIdle =>
      exact Nat.le_refl _

theorem drop_settle (scheduler : Scheduler Callback Idle size) (w : Fin size)
    (fiber : FiberId) (thread : ThreadId) :
    (scheduler.settle w fiber thread).fibers.drop scheduler.fibers.length =
      if scheduler.fiberState fiber = .READY then
        [{ work := .fiber fiber, thread := thread }]
      else [] := by
  by_cases ready : scheduler.fiberState fiber = .READY
  · simp only [settle, if_pos ready]
    exact List.drop_left
  · simp only [settle, if_neg ready]
    split
    · exact List.drop_length
    · exact List.drop_length

end Scheduler

/-! ## Numbered callbacks -/

structure Registry (Callback Idle : Type) (size : Nat) where
  scheduler : Scheduler (Nat × Callback) Idle size := {}
  /-- The number of callbacks enqueued so far. -/
  issued : Nat := 0
  /-- The thread each callback was enqueued for. -/
  pin : Nat → ThreadId := fun _ => -1
  /-- The callbacks that a worker has switched to, in order. -/
  started : List Nat := []
  /-- The callback a worker has made the fiber from. -/
  source : FiberId → Option Nat := fun _ => none
  /-- Someone other than a worker has enqueued the fiber. -/
  enqueued : FiberId → Bool := fun _ => false
  /-- How the worker's last fiber gave control back. -/
  outcome : Fin size → Option SwapOut := fun _ => none
  /-- How the fiber gave control back, once for each time a worker has settled it. -/
  turns : FiberId → List SwapOut := fun _ => []
  /-- The threads of the entries the workers have added for the fiber. -/
  added : FiberId → List ThreadId := fun _ => []

namespace Registry

def appended (before after : Scheduler (Nat × Callback) Idle size) :
    List (FiberAnThread (Nat × Callback)) :=
  after.fibers.drop before.fibers.length

def threadsOf (fiber : FiberId) (entries : List (FiberAnThread Callback)) :
    List ThreadId :=
  (entries.filter fun entry => entry.fiber == some fiber).map FiberAnThread.thread

def moved (registry : Registry Callback Idle size)
    (next : Scheduler (Nat × Callback) Idle size) : Registry Callback Idle size :=
  { registry with
    scheduler := next
    added := fun fiber =>
      registry.added fiber ++ threadsOf fiber (appended registry.scheduler next) }

def record (registry : Registry Callback Idle size)
    (next : Scheduler (Nat × Callback) Idle size) :
    Scheduler.Label Callback size → Registry Callback Idle size
  | .schedule ⟨.cb _, thread⟩ =>
      { registry with
        scheduler := next
        issued := registry.issued + 1
        pin := Function.update registry.pin registry.issued thread }
  | .schedule ⟨.fiber fiber, _⟩ =>
      { registry with
        scheduler := next
        enqueued := Function.update registry.enqueued fiber true }
  | .resume w =>
      match (next.workers w).stage with
      | .running fiber _ true =>
          let number := (next.fiberCb fiber).map Prod.fst
          { registry.moved next with
            started := registry.started ++ number.toList
            source := Function.update registry.source fiber number }
      | _ => registry.moved next
  | .swapOut w how =>
      { registry.moved next with
        outcome := Function.update registry.outcome w (some how) }
  | .settle w =>
      match (registry.scheduler.workers w).stage with
      | .released fiber _ =>
          { registry.moved next with
            turns := Function.update registry.turns fiber
              (registry.turns fiber ++ (registry.outcome w).toList) }
      | _ => registry.moved next
  | .newFiber _ | .autoStop | .stopping | .scan _ | .tickle _ | .release _
  | .leaveIdle .. | .afterIdle _ => registry.moved next

def Allowed (registry : Registry Callback Idle size) : Scheduler.Label Callback size → Bool
  | .schedule entry => entry.fiber.all (· < registry.scheduler.created)
  | .newFiber _ | .autoStop | .stopping | .scan _ | .tickle _ | .resume _ | .swapOut ..
  | .release _ | .settle _ | .leaveIdle .. | .afterIdle _ => true

def step (threadOf : Fin size → ThreadId) (enter : Idle)
    (registry : Registry Callback Idle size) (label : Scheduler.Label Callback size) :
    Option (Registry Callback Idle size) :=
  if registry.Allowed label then
    (registry.scheduler.step threadOf enter (label.map (Prod.mk registry.issued))).map
      fun next => registry.record next label
  else none

def machine (threadOf : Fin size → ThreadId) (enter : Idle) :
    Machine (Registry Callback Idle size) (Scheduler.Label Callback size) where
  step := step threadOf enter

variable {threadOf : Fin size → ThreadId} {enter : Idle}
  {registry after : Registry Callback Idle size} {label : Scheduler.Label Callback size}

/-- A step that neither takes a callback from the queue's books nor has to do with the
end of a fiber's turn. -/
structure Quiet (scheduler : Scheduler (Nat × Callback) Idle size)
    (label : Scheduler.Label (Nat × Callback) size) : Prop where
  brings : scheduler.brings label = none
  drops : ∀ callback, scheduler.drops label ≠ some (.cb callback)
  notSwapOut : ∀ w how, label ≠ .swapOut w how
  notSettle : ∀ w, label ≠ .settle w

inductive Steps (threadOf : Fin size → ThreadId) (enter : Idle)
    (registry : Registry Callback Idle size) : Registry Callback Idle size → Prop
  | callback (callback : Callback) (thread : ThreadId) :
      Steps threadOf enter registry
        { registry with
          scheduler := registry.scheduler.schedulerNoLock
            ⟨.cb (registry.issued, callback), thread⟩
          issued := registry.issued + 1
          pin := Function.update registry.pin registry.issued thread }
  | fiber {fiber : FiberId} (thread : ThreadId)
      (existing : fiber < registry.scheduler.created) :
      Steps threadOf enter registry
        { registry with
          scheduler := registry.scheduler.schedulerNoLock ⟨.fiber fiber, thread⟩
          enqueued := Function.update registry.enqueued fiber true }
  | start {w : Fin size} {number : Nat} {callback : Callback} {thread : ThreadId}
      (stageIs : (registry.scheduler.workers w).stage =
        .scanned (some ⟨.cb (number, callback), thread⟩)) :
      Steps threadOf enter registry
        { registry with
          scheduler := registry.scheduler.resume enter w
            (some ⟨.cb (number, callback), thread⟩)
          started := registry.started ++ [number]
          source :=
            Function.update registry.source registry.scheduler.created (some number) }
  | swapOut {w : Fin size} {fiber : FiberId} {thread : ThreadId} {fromCb : Bool}
      (how : SwapOut)
      (stageIs : (registry.scheduler.workers w).stage = .running fiber thread fromCb) :
      Steps threadOf enter registry
        { registry with
          scheduler := registry.scheduler.swapOut w fiber thread fromCb how
          outcome := Function.update registry.outcome w (some how) }
  | settle {w : Fin size} {fiber : FiberId} {thread : ThreadId}
      (stageIs : (registry.scheduler.workers w).stage = .released fiber thread) :
      Steps threadOf enter registry
        { registry with
          scheduler := registry.scheduler.settle w fiber thread
          turns := Function.update registry.turns fiber
            (registry.turns fiber ++ (registry.outcome w).toList)
          added := Function.update registry.added fiber
            (registry.added fiber ++
              if registry.scheduler.fiberState fiber = .READY then [thread] else []) }
  | quiet {label : Scheduler.Label (Nat × Callback) size}
      {next : Scheduler (Nat × Callback) Idle size}
      (steps : Scheduler.Steps threadOf enter registry.scheduler label next)
      (isQuiet : Quiet registry.scheduler label) :
      Steps threadOf enter registry { registry with scheduler := next }

theorem moved_of_nothing {next : Scheduler (Nat × Callback) Idle size}
    (nothing : next.fibers.drop registry.scheduler.fibers.length = []) :
    registry.moved next = { registry with scheduler := next } := by
  have same : (fun fiber => registry.added fiber ++
      threadsOf fiber (appended registry.scheduler next)) = registry.added := by
    funext fiber
    rw [appended, nothing]
    exact List.append_nil _
  rw [moved, same]

theorem Quiet.moved {label : Scheduler.Label (Nat × Callback) size}
    {next : Scheduler (Nat × Callback) Idle size}
    (isQuiet : Quiet registry.scheduler label)
    (steps : Scheduler.Steps threadOf enter registry.scheduler label next) :
    Steps threadOf enter registry (registry.moved next) := by
  have notHandedIn : ∀ entry, label ≠ .schedule entry := by
    intro entry same
    subst same
    cases isQuiet.brings
  rw [moved_of_nothing (steps.drop_fibers notHandedIn isQuiet.notSettle)]
  exact .quiet steps isQuiet

theorem record_resume {next : Scheduler (Nat × Callback) Idle size} {w : Fin size}
    (notMade : ∀ fiber thread, (next.workers w).stage ≠ .running fiber thread true) :
    registry.record next (.resume w) = registry.moved next := by
  rw [record]
  split
  · rename_i fiber thread stageIs
    exact absurd stageIs (notMade fiber thread)
  · rfl

theorem nothingToRun_not_running (enter : Idle)
    (scheduler : Scheduler (Nat × Callback) Idle size) (w : Fin size)
    (fiber : FiberId) (thread : ThreadId) (fromCb : Bool) :
    ((scheduler.nothingToRun enter w).workers w).stage ≠ .running fiber thread fromCb := by
  rcases Scheduler.nothingToRun_frame enter scheduler w with
    ⟨worker, _, _, idleIs, stageAfter⟩
  rw [idleIs]
  simp only [Scheduler.setWorker, Function.update_self]
  intro same
  rcases stageAfter with stageAfter | stageAfter | stageAfter <;>
    rw [stageAfter] at same <;> cases same

theorem Steps.resumed {w : Fin size}
    {ft : Option (FiberAnThread (Nat × Callback))}
    (stageIs : (registry.scheduler.workers w).stage = .scanned ft) :
    Steps threadOf enter registry
      (registry.record (registry.scheduler.resume enter w ft) (.resume w)) := by
  have steps : Scheduler.Steps threadOf enter registry.scheduler (.resume w)
      (registry.scheduler.resume enter w ft) := .resume stageIs
  rcases ft with _ | ⟨⟨number, callback⟩ | fiber, thread⟩
  · have notMade : ∀ fiber thread,
        ((registry.scheduler.resume enter w none).workers w).stage ≠
          .running fiber thread true :=
      (nothingToRun_not_running enter registry.scheduler w · · true)
    have isQuiet : Quiet registry.scheduler (.resume w) :=
      { brings := by simp only [Scheduler.brings, stageIs]
        drops := by simp [Scheduler.drops, stageIs]
        notSwapOut := by simp
        notSettle := by simp }
    rw [record_resume notMade]
    exact isQuiet.moved steps
  · have nothing := steps.drop_fibers (by simp) (by simp)
    have stageAfter : ((registry.scheduler.resume enter w
          (some ⟨.cb (number, callback), thread⟩)).workers w).stage =
        .running registry.scheduler.created thread true := by
      simp [Scheduler.resume, Scheduler.swapIn, Scheduler.setWorker]
    have made : (registry.scheduler.resume enter w
          (some ⟨.cb (number, callback), thread⟩)).fiberCb registry.scheduler.created =
        some (number, callback) := by
      simp [Scheduler.resume, Scheduler.swapIn, Scheduler.setWorker, Scheduler.setFiber,
        Scheduler.newFiber]
    simp only [record, stageAfter, made, moved_of_nothing nothing]
    exact .start stageIs
  · have notMade : ∀ other thread',
        ((registry.scheduler.resume enter w (some ⟨.fiber fiber, thread⟩)).workers w).stage ≠
          .running other thread' true := by
      simp only [Scheduler.resume]
      split
      · simp [Scheduler.swapIn, Scheduler.setWorker]
      · exact (nothingToRun_not_running enter registry.scheduler w · · true)
    have isQuiet : Quiet registry.scheduler (.resume w) :=
      { brings := by simp only [Scheduler.brings, stageIs]
        drops := by
          intro callback
          simp only [Scheduler.drops, stageIs]
          split <;> simp
        notSwapOut := by simp
        notSettle := by simp }
    rw [record_resume notMade]
    exact isQuiet.moved steps

theorem Steps.settled {w : Fin size} {fiber : FiberId} {thread : ThreadId}
    (stageIs : (registry.scheduler.workers w).stage = .released fiber thread) :
    Steps threadOf enter registry
      (registry.record (registry.scheduler.settle w fiber thread) (.settle w)) := by
  have addedIs : (registry.moved (registry.scheduler.settle w fiber thread)).added =
      Function.update registry.added fiber (registry.added fiber ++
        if registry.scheduler.fiberState fiber = .READY then [thread] else []) := by
    funext other
    simp only [moved, appended, Scheduler.drop_settle]
    by_cases same : other = fiber
    · subst same
      rw [Function.update_self]
      split <;> simp [threadsOf, FiberAnThread.fiber]
    · rw [Function.update_of_ne same]
      split <;> simp [threadsOf, FiberAnThread.fiber, Ne.symm same]
  simp only [record, stageIs, addedIs]
  exact .settle stageIs

theorem step_eq_some (stepped : step threadOf enter registry label = some after) :
    Steps threadOf enter registry after := by
  rcases Option.ite_none_right_eq_some.mp stepped with ⟨allowed, moved⟩
  rcases Option.map_eq_some_iff.mp moved with ⟨next, inner, rfl⟩
  have steps := Scheduler.step_eq_some inner
  cases label with
  | schedule entry =>
      rcases entry with ⟨callback | fiber, thread⟩
      · cases steps
        exact .callback callback thread
      · cases steps
        refine .fiber thread ?_
        simpa [Allowed, FiberAnThread.fiber] using allowed
  | resume w =>
      cases steps with
      | resume stageIs => exact .resumed stageIs
  | swapOut w how =>
      have nothing := steps.drop_fibers (by simp [Scheduler.Label.map])
        (by simp [Scheduler.Label.map])
      cases steps with
      | swapOut how stageIs =>
          simp only [record, moved_of_nothing nothing]
          exact .swapOut how stageIs
  | settle w =>
      cases steps with
      | settle stageIs => exact .settled stageIs
  | newFiber | autoStop | stopping | scan | tickle | release | leaveIdle | afterIdle =>
      refine Quiet.moved ⟨rfl, ?_, ?_, ?_⟩ steps <;> intros <;> intro same <;> cases same

/-! ## Without the numbers -/

def forget (registry : Registry Callback Idle size) : Scheduler Callback Idle size :=
  registry.scheduler.map Prod.snd

theorem record_scheduler (registry : Registry Callback Idle size)
    (next : Scheduler (Nat × Callback) Idle size)
    (label : Scheduler.Label Callback size) :
    (registry.record next label).scheduler = next := by
  rcases label with ⟨callback | fiber, thread⟩ | _ | _ | _ | _ | _ | w | _ | _ | w | _ | _
  case resume =>
    simp only [record]
    split <;> rfl
  case settle =>
    simp only [record]
    split <;> rfl
  all_goals rfl

theorem step_forget (allowed : registry.Allowed label = true) :
    (step threadOf enter registry label).map forget =
      registry.forget.step threadOf enter label := by
  have unnumbered : (label.map (Prod.mk registry.issued)).map Prod.snd = label :=
    (label.map_map Prod.snd).trans label.map_id
  rw [step, if_pos allowed, forget, ← unnumbered, Scheduler.step_map, unnumbered,
    Option.map_map]
  apply Option.map_congr
  intro next _
  rw [Function.comp_apply, forget, record_scheduler]

theorem run_forget {labels : List (Scheduler.Label Callback size)}
    (ran : (machine threadOf enter).run registry labels = some after) :
    (Scheduler.machine threadOf enter).run registry.forget labels =
      some after.forget := by
  induction labels generalizing registry with
  | nil =>
      cases ran
      rfl
  | cons label labels induction =>
      rcases Option.bind_eq_some_iff.mp ran with ⟨next, stepped, rest⟩
      have allowed := (Option.ite_none_right_eq_some.mp stepped).1
      have taken : registry.forget.step threadOf enter label = some next.forget := by
        rw [← step_forget allowed]
        exact congrArg (Option.map forget) stepped
      exact Option.bind_eq_some_iff.mpr ⟨_, taken, induction rest⟩

/-! ## What is conserved -/

def isNumber (number : Nat) : Work (Nat × Callback) → Nat
  | .cb callback => if callback.1 = number then 1 else 0
  | .fiber _ => 0

def queued (registry : Registry Callback Idle size) (number : Nat) : Nat :=
  total (isNumber number) FiberAnThread.work registry.scheduler.fibers

def taken (registry : Registry Callback Idle size) (number : Nat) : Nat :=
  total (Worker.handWeight (isNumber number)) registry.scheduler.workers
    (List.finRange size)

def owed (thread : ThreadId) (turns : List SwapOut) : List ThreadId :=
  turns.flatMap fun how => if how = .ready then [thread] else []

structure Conserved (threadOf : Fin size → ThreadId)
    (registry : Registry Callback Idle size) : Prop where
  /-- A callback is queued, taken by one worker, or started, and that once. -/
  once : ∀ number, number < registry.issued →
    registry.queued number + registry.taken number + registry.started.count number = 1
  pinned : ∀ w entry, (registry.scheduler.workers w).stage.held = some entry →
    entry.thread ≠ -1 → entry.thread = threadOf w
  asEnqueued : ∀ w number callback thread,
    (registry.scheduler.workers w).stage.held = some ⟨.cb (number, callback), thread⟩ →
    thread = registry.pin number
  /-- A fiber made from a callback, and enqueued by the workers alone, has got an
  entry with the thread of the callback for each yield to `READY`, and no other. -/
  requeued : ∀ fiber number, registry.source fiber = some number →
    registry.enqueued fiber = false →
    registry.added fiber = owed (registry.pin number) (registry.turns fiber)

/-- A fiber that only the workers enqueue, made from the callback. -/
structure Own (registry : Registry Callback Idle size) (fiber : FiberId)
    (number : Nat) : Prop where
  existing : fiber < registry.scheduler.created
  numbered : number < registry.issued
  single : registry.scheduler.owners fiber ≤ 1
  thread : ∀ entry, registry.scheduler.Present entry → entry.work = .fiber fiber →
    entry.thread = registry.pin number
  settling : ∀ w, (registry.scheduler.workers w).stage.settling = some fiber →
    ∃ how, registry.outcome w = some how ∧
      registry.scheduler.fiberState fiber = how.state
  added : registry.added fiber = owed (registry.pin number) (registry.turns fiber)

structure Tracked (threadOf : Fin size → ThreadId)
    (registry : Registry Callback Idle size) : Prop where
  known : registry.scheduler.Known
  numbers : ∀ number,
    registry.scheduler.inPlay (isNumber number) + registry.started.count number =
      if number < registry.issued then 1 else 0
  pinned : ∀ w entry, (registry.scheduler.workers w).stage.held = some entry →
    entry.thread ≠ -1 → entry.thread = threadOf w
  pins : ∀ entry, registry.scheduler.Present entry →
    ∀ number callback, entry.work = .cb (number, callback) →
      number < registry.issued ∧ entry.thread = registry.pin number
  unborn : ∀ fiber, registry.scheduler.created ≤ fiber →
    registry.source fiber = none ∧ registry.turns fiber = [] ∧ registry.added fiber = []
  own : ∀ fiber number, registry.source fiber = some number →
    registry.enqueued fiber = false → registry.Own fiber number

theorem Tracked.conserved (tracked : registry.Tracked threadOf) :
    registry.Conserved threadOf where
  once number below := by
    have count := tracked.numbers number
    rw [if_pos below] at count
    exact count
  pinned := tracked.pinned
  asEnqueued w number callback thread holds :=
    (tracked.pins _ (Or.inr ⟨w, holds⟩) number callback rfl).2
  requeued fiber number made alone := (tracked.own fiber number made alone).added

/-! ## A fiber of the workers -/

section

variable {fiber : FiberId} {number : Nat}
  {inner : Scheduler.Label (Nat × Callback) size}

theorem Own.step (own : registry.Own fiber number)
    (steps : Scheduler.Steps threadOf enter registry.scheduler inner after.scheduler)
    (notHandedIn : ∀ entry, inner = .schedule entry → entry.work ≠ .fiber fiber)
    (grows : registry.issued ≤ after.issued)
    (samePin : after.pin number = registry.pin number)
    (settling : ∀ w, (after.scheduler.workers w).stage.settling = some fiber →
      ∃ how, after.outcome w = some how ∧ after.scheduler.fiberState fiber = how.state)
    (added : after.added fiber = owed (registry.pin number) (after.turns fiber)) :
    after.Own fiber number := by
  have notNew : fiber ≠ registry.scheduler.created := Nat.ne_of_lt own.existing
  constructor
  · exact Nat.lt_of_lt_of_le own.existing steps.brings_cases.1
  · exact Nat.lt_of_lt_of_le own.numbered grows
  · have before := own.single
    have balance := steps.owners fiber
    have nothing : (registry.scheduler.brings inner).elim 0
        (Scheduler.isFiber fiber) = 0 :=
      steps.not_brought notHandedIn fun made => absurd made notNew
    omega
  · intro entry present workIs
    rw [samePin]
    rcases steps.present present with before | handedIn | ⟨_, _, _, _, _, rfl⟩
    · exact own.thread entry before workIs
    · exact absurd workIs (notHandedIn entry handedIn)
    · exact absurd (Work.fiber.inj workIs).symm notNew
  · exact settling
  · rw [samePin]
    exact added

theorem Own.settling_kept (own : registry.Own fiber number)
    {next : Scheduler (Nat × Callback) Idle size}
    (steps : Scheduler.Steps threadOf enter registry.scheduler inner next)
    (notSwapOut : ∀ w how, inner ≠ .swapOut w how) (w : Fin size)
    (settles : (next.workers w).stage.settling = some fiber) :
    ∃ how, registry.outcome w = some how ∧ next.fiberState fiber = how.state := by
  rcases steps.settling own.existing own.single settles with
    ⟨how, isSwapOut, -⟩ | ⟨before, -, same⟩
  · exact absurd isSwapOut (notSwapOut w how)
  · rcases own.settling w before with ⟨how, outcomeIs, stateIs⟩
    exact ⟨how, outcomeIs, same.trans stateIs⟩

/-! ## The steps -/

theorem Tracked.moved (tracked : registry.Tracked threadOf)
    (steps : Scheduler.Steps threadOf enter registry.scheduler inner after.scheduler)
    (existing : ∀ entry fiber, inner = .schedule entry → entry.work = .fiber fiber →
      fiber < registry.scheduler.created)
    (numbers : ∀ number,
      after.scheduler.inPlay (isNumber number) + after.started.count number =
        if number < after.issued then 1 else 0)
    (handedIn : ∀ entry, inner = .schedule entry →
      ∀ number callback, entry.work = .cb (number, callback) →
        number < after.issued ∧ entry.thread = after.pin number)
    (samePin : ∀ number, number < registry.issued →
      number < after.issued ∧ after.pin number = registry.pin number)
    (unborn : ∀ fiber, after.scheduler.created ≤ fiber →
      after.source fiber = registry.source fiber ∧
        after.turns fiber = registry.turns fiber ∧
        after.added fiber = registry.added fiber)
    (own : ∀ fiber number, after.source fiber = some number →
      after.enqueued fiber = false → after.Own fiber number) :
    after.Tracked threadOf := by
  constructor
  · exact steps.known existing tracked.known
  · exact numbers
  · intro w entry holds pinned
    rcases steps.held holds with before | ⟨-, takes⟩ |
        ⟨callback, thread, -, stageIs, rfl⟩
    · exact tracked.pinned w entry before pinned
    · have isFree := List.find?_some takes
      simp only [Scheduler.free, Bool.and_eq_true, decide_eq_true_eq] at isFree
      exact isFree.1.resolve_left pinned
    · have holdsCb : (registry.scheduler.workers w).stage.held =
          some ⟨.cb callback, thread⟩ := by
        rw [stageIs]
        rfl
      exact tracked.pinned w ⟨.cb callback, thread⟩ holdsCb pinned
  · intro entry present number callback workIs
    rcases steps.present present with before | isHandedIn | ⟨_, _, _, _, _, rfl⟩
    · have pin := tracked.pins entry before number callback workIs
      have same := samePin number pin.1
      exact ⟨same.1, pin.2.trans same.2.symm⟩
    · exact handedIn entry isHandedIn number callback workIs
    · cases workIs
  · intro fiber unknown
    have none := tracked.unborn fiber (steps.brings_cases.1.trans unknown)
    have same := unborn fiber unknown
    rw [same.1, same.2.1, same.2.2]
    exact none
  · exact own

theorem Tracked.count (tracked : registry.Tracked threadOf)
    {next : Scheduler (Nat × Callback) Idle size}
    (steps : Scheduler.Steps threadOf enter registry.scheduler inner next)
    (number : Nat) :
    next.inPlay (isNumber number) +
        (registry.scheduler.drops inner).elim 0 (isNumber number) +
        registry.started.count number =
      (registry.scheduler.brings inner).elim 0 (isNumber number) +
        if number < registry.issued then 1 else 0 := by
  have balance : next.inPlay (isNumber number) +
        (registry.scheduler.drops inner).elim 0 (isNumber number) =
      registry.scheduler.inPlay (isNumber number) +
        (registry.scheduler.brings inner).elim 0 (isNumber number) := steps.inPlay
  have before := tracked.numbers number
  omega

theorem Tracked.quiet (tracked : registry.Tracked threadOf)
    {next : Scheduler (Nat × Callback) Idle size}
    (steps : Scheduler.Steps threadOf enter registry.scheduler inner next)
    (isQuiet : Quiet registry.scheduler inner) :
    Tracked threadOf { registry with scheduler := next } := by
  have notHandedIn : ∀ entry, inner ≠ .schedule entry := by
    intro entry same
    subst same
    cases isQuiet.brings
  apply tracked.moved steps
  · exact fun entry _ same => absurd same (notHandedIn entry)
  · intro number
    have count := tracked.count steps number
    have nothing : (registry.scheduler.drops inner).elim 0 (isNumber number) = 0 := by
      cases dropsIs : registry.scheduler.drops inner with
      | none => rfl
      | some work =>
          cases work with
          | cb callback => exact absurd dropsIs (isQuiet.drops callback)
          | fiber other => rfl
    rw [isQuiet.brings, nothing, Option.elim_none] at count
    simpa using count
  · exact fun entry same => absurd same (notHandedIn entry)
  · exact fun number below => ⟨below, rfl⟩
  · exact fun fiber _ => ⟨rfl, rfl, rfl⟩
  · intro fiber number made alone
    have own := tracked.own fiber number made alone
    exact own.step steps (fun entry same => absurd same (notHandedIn entry))
      (Nat.le_refl _) rfl (own.settling_kept steps isQuiet.notSwapOut) own.added

theorem Tracked.callback (threadOf : Fin size → ThreadId) (enter : Idle)
    (tracked : registry.Tracked threadOf) (callback : Callback) (thread : ThreadId) :
    Tracked threadOf
      { registry with
        scheduler := registry.scheduler.schedulerNoLock
          ⟨.cb (registry.issued, callback), thread⟩
        issued := registry.issued + 1
        pin := Function.update registry.pin registry.issued thread } := by
  have steps : Scheduler.Steps threadOf enter registry.scheduler
      (.schedule ⟨.cb (registry.issued, callback), thread⟩) _ := .schedule _
  have samePin : ∀ number, number < registry.issued →
      Function.update registry.pin registry.issued thread number = registry.pin number :=
    fun number below => Function.update_of_ne (Nat.ne_of_lt below) ..
  apply tracked.moved steps
  · intro entry fiber same workIs
    cases same
    cases workIs
  · intro number
    have count := tracked.count steps number
    simp only [Scheduler.brings, Scheduler.drops, Option.elim_none, Option.elim_some,
      isNumber] at count
    split at count <;> split at count <;> split <;> simp only at * <;> omega
  · intro entry same number other workIs
    cases same
    cases workIs
    have pinIs : Function.update registry.pin registry.issued thread registry.issued =
        thread := Function.update_self ..
    exact ⟨Nat.lt_succ_self _, pinIs.symm⟩
  · exact fun number below => ⟨Nat.lt_succ_of_lt below, samePin number below⟩
  · exact fun fiber _ => ⟨rfl, rfl, rfl⟩
  · intro fiber number made alone
    have own := tracked.own fiber number made alone
    refine own.step steps ?_ (Nat.le_succ _) (samePin number own.numbered)
      (own.settling_kept steps (by simp)) own.added
    intro entry same
    cases same
    intro workIs
    cases workIs

theorem Tracked.enqueue (threadOf : Fin size → ThreadId) (enter : Idle)
    (tracked : registry.Tracked threadOf) (thread : ThreadId)
    (existing : fiber < registry.scheduler.created) :
    Tracked threadOf
      { registry with
        scheduler := registry.scheduler.schedulerNoLock ⟨.fiber fiber, thread⟩
        enqueued := Function.update registry.enqueued fiber true } := by
  have steps : Scheduler.Steps threadOf enter registry.scheduler
      (.schedule ⟨.fiber fiber, thread⟩) _ := .schedule _
  apply tracked.moved steps
  · intro entry other same workIs
    cases same
    cases workIs
    exact existing
  · intro number
    have count := tracked.count steps number
    simpa [Scheduler.brings, Scheduler.drops, isNumber] using count
  · intro entry same number other workIs
    cases same
    cases workIs
  · exact fun number below => ⟨below, rfl⟩
  · exact fun other _ => ⟨rfl, rfl, rfl⟩
  · intro other number made alone
    have different : other ≠ fiber := by
      intro same
      subst same
      simp at alone
    have aloneBefore : registry.enqueued other = false := by
      rw [← alone]
      exact (Function.update_of_ne different ..).symm
    have own := tracked.own other number made aloneBefore
    refine own.step steps ?_ (Nat.le_refl _) rfl (own.settling_kept steps (by simp)) own.added
    intro entry same
    cases same
    intro workIs
    exact different (Work.fiber.inj workIs).symm

theorem Tracked.absent (tracked : registry.Tracked threadOf)
    {entry : FiberAnThread (Nat × Callback)}
    (workIs : entry.work = .fiber registry.scheduler.created) :
    ¬registry.scheduler.Present entry := by
  have nowhere := tracked.known registry.scheduler.created (Nat.le_refl _)
  intro present
  have somewhere : 0 < registry.scheduler.owners registry.scheduler.created := by
    rcases present with queued | ⟨w, holds⟩
    · exact Scheduler.owners_pos_of_queued queued workIs
    · apply Scheduler.owners_pos
      rw [Stage.hand_eq_held, holds]
      exact congrArg some workIs
  omega

theorem Tracked.made (tracked : registry.Tracked threadOf) {w : Fin size}
    {callback : Callback} {thread : ThreadId}
    (stageIs : (registry.scheduler.workers w).stage =
      .scanned (some ⟨.cb (number, callback), thread⟩)) :
    Own
      { registry with
        scheduler := registry.scheduler.resume enter w
          (some ⟨.cb (number, callback), thread⟩)
        started := registry.started ++ [number]
        source :=
          Function.update registry.source registry.scheduler.created (some number) }
      registry.scheduler.created number := by
  have steps : Scheduler.Steps threadOf enter registry.scheduler (.resume w)
    (registry.scheduler.resume enter w (some ⟨.cb (number, callback), thread⟩)) :=
    .resume stageIs
  have pin := tracked.pins ⟨.cb (number, callback), thread⟩
    (Or.inr ⟨w, by rw [stageIs]; rfl⟩) number callback rfl
  have unborn := tracked.unborn registry.scheduler.created (Nat.le_refl _)
  constructor
  · exact Nat.lt_succ_self _
  · exact pin.1
  · have balance := steps.owners registry.scheduler.created
    have nowhere := tracked.known registry.scheduler.created (Nat.le_refl _)
    simp only [Scheduler.brings, Scheduler.drops, stageIs, Option.elim_some,
      Scheduler.isFiber, if_pos, nowhere] at balance
    exact Nat.le_of_eq balance
  · intro entry present workIs
    rcases steps.present present with before | handedIn |
      ⟨v, _, _, isResume, heldIs, rfl⟩
    · exact absurd before (tracked.absent workIs)
    · cases handedIn
    · cases isResume
      rw [stageIs] at heldIs
      cases heldIs
      exact pin.2
  · intro v settles
    rcases steps.stage v with ⟨-, same⟩ | moves
    · simp only [same] at settles
      exact absurd (tracked.known.lt_created (Stage.hand_of_settling settles))
        (Nat.lt_irrefl _)
    · exact (moves.resumed settles).elim
  · simp only [unborn]
    rfl

theorem Tracked.start (threadOf : Fin size → ThreadId) (enter : Idle)
    (tracked : registry.Tracked threadOf) {w : Fin size} {callback : Callback}
    {thread : ThreadId}
    (stageIs : (registry.scheduler.workers w).stage =
      .scanned (some ⟨.cb (number, callback), thread⟩)) :
    Tracked threadOf
      { registry with
        scheduler := registry.scheduler.resume enter w
          (some ⟨.cb (number, callback), thread⟩)
        started := registry.started ++ [number]
        source :=
          Function.update registry.source registry.scheduler.created (some number) } := by
  have steps : Scheduler.Steps threadOf enter registry.scheduler (.resume w)
    (registry.scheduler.resume enter w (some ⟨.cb (number, callback), thread⟩)) :=
    .resume stageIs
  have pin := tracked.pins ⟨.cb (number, callback), thread⟩
    (Or.inr ⟨w, by rw [stageIs]; rfl⟩) number callback rfl
  apply tracked.moved steps
  · simp
  · intro other
    have count := tracked.count steps other
    simp only [Scheduler.brings, Scheduler.drops, stageIs, Option.elim_some,
      isNumber] at count
    rw [List.count_append, List.count_singleton]
    simp only [beq_iff_eq]
    omega
  · simp
  · exact fun other below => ⟨below, rfl⟩
  · intro fiber unknown
    have notNew : fiber ≠ registry.scheduler.created := by
      intro same
      subst same
      exact Nat.not_succ_le_self _ unknown
    exact ⟨Function.update_of_ne notNew .., rfl, rfl⟩
  · intro fiber other made alone
    by_cases isNew : fiber = registry.scheduler.created
    · subst isNew
      simp only [Function.update_self, Option.some.injEq] at made
      subst made
      exact tracked.made stageIs
    · have madeBefore : registry.source fiber = some other := by
        rw [← made]
        exact (Function.update_of_ne isNew ..).symm
      have own := tracked.own fiber other madeBefore alone
      exact own.step steps (by simp) (Nat.le_refl _) rfl (own.settling_kept steps (by simp))
        own.added

theorem Tracked.swapOut (threadOf : Fin size → ThreadId) (enter : Idle)
    (tracked : registry.Tracked threadOf) {w : Fin size} {thread : ThreadId}
    {fromCb : Bool} (how : SwapOut)
    (stageIs : (registry.scheduler.workers w).stage = .running fiber thread fromCb) :
    Tracked threadOf
      { registry with
        scheduler := registry.scheduler.swapOut w fiber thread fromCb how
        outcome := Function.update registry.outcome w (some how) } := by
  have steps : Scheduler.Steps threadOf enter registry.scheduler (.swapOut w how)
    (registry.scheduler.swapOut w fiber thread fromCb how) := .swapOut how stageIs
  apply tracked.moved steps
  · simp
  · intro number
    simpa [Scheduler.brings, Scheduler.drops] using tracked.count steps number
  · simp
  · exact fun number below => ⟨below, rfl⟩
  · exact fun other _ => ⟨rfl, rfl, rfl⟩
  · intro other number made alone
    have own := tracked.own other number made alone
    refine own.step steps (by simp) (Nat.le_refl _) rfl ?_ own.added
    intro v settles
    rcases steps.settling own.existing own.single settles with
      ⟨way, isSwapOut, stateIs⟩ | ⟨before, notSwapOut, same⟩
    · cases isSwapOut
      exact ⟨how, Function.update_self .., stateIs⟩
    · have different : v ≠ w := fun isW => notSwapOut how (by rw [isW])
      rcases own.settling v before with ⟨way, outcomeIs, stateIs⟩
      refine ⟨way, ?_, same.trans stateIs⟩
      rw [← outcomeIs]
      exact Function.update_of_ne different ..

theorem Own.settled (own : registry.Own fiber number) {w : Fin size} {thread : ThreadId}
    (stageIs : (registry.scheduler.workers w).stage = .released fiber thread) :
    (registry.added fiber ++
        if registry.scheduler.fiberState fiber = .READY then [thread] else []) =
      owed (registry.pin number)
        (registry.turns fiber ++ (registry.outcome w).toList) := by
  have held : registry.scheduler.Present ⟨.fiber fiber, thread⟩ :=
    Or.inr ⟨w, by rw [stageIs]; rfl⟩
  have threadIs : thread = registry.pin number := own.thread _ held rfl
  rcases own.settling w (by rw [stageIs]; rfl) with ⟨how, outcomeIs, stateIs⟩
  have isReady : how.state = .READY ↔ how = .ready := by
    cases how <;> simp [SwapOut.state]
  simp only [outcomeIs, stateIs, isReady, own.added, threadIs, owed,
    List.flatMap_append, Option.toList_some, List.flatMap_singleton]

theorem Tracked.settle (threadOf : Fin size → ThreadId) (enter : Idle)
    (tracked : registry.Tracked threadOf) {w : Fin size} {thread : ThreadId}
    (stageIs : (registry.scheduler.workers w).stage = .released fiber thread) :
    Tracked threadOf
      { registry with
        scheduler := registry.scheduler.settle w fiber thread
        turns := Function.update registry.turns fiber
          (registry.turns fiber ++ (registry.outcome w).toList)
        added := Function.update registry.added fiber
          (registry.added fiber ++
            if registry.scheduler.fiberState fiber = .READY then [thread] else []) } := by
  have steps : Scheduler.Steps threadOf enter registry.scheduler (.settle w)
    (registry.scheduler.settle w fiber thread) := .settle stageIs
  have holds : (registry.scheduler.workers w).stage.hand = some (.fiber fiber) := by
    rw [stageIs]
    rfl
  apply tracked.moved steps
  · simp
  · intro number
    have count := tracked.count steps number
    simp only [Scheduler.brings, Scheduler.drops, stageIs, Option.elim_none] at count
    split at count <;> simpa [isNumber] using count
  · simp
  · exact fun number below => ⟨below, rfl⟩
  · intro other unknown
    have different : other ≠ fiber := by
      intro same
      subst same
      exact Nat.not_lt.mpr (steps.brings_cases.1.trans unknown)
        (tracked.known.lt_created holds)
    exact ⟨rfl, Function.update_of_ne different .., Function.update_of_ne different ..⟩
  · intro other number made alone
    have own := tracked.own other number made alone
    refine own.step steps (by simp) (Nat.le_refl _) rfl (own.settling_kept steps (by simp)) ?_
    by_cases same : other = fiber
    · subst same
      simp only [Function.update_self]
      exact own.settled stageIs
    · simp only [Function.update_of_ne same]
      exact own.added

end

/-! ## Runs -/

theorem Tracked.begin (threadOf : Fin size → ThreadId) :
    ({} : Registry Callback Idle size).Tracked threadOf where
  known _ _ := Scheduler.inPlay_eq_zero _ rfl fun _ => rfl
  numbers number := by
    have nothing : ({} : Scheduler (Nat × Callback) Idle size).inPlay (isNumber number) =
      0 := Scheduler.inPlay_eq_zero _ rfl fun _ => rfl
    simpa using nothing
  pinned w entry holds := by cases holds
  pins entry present := by
    rcases present with queued | ⟨w, holds⟩
    · cases queued
    · cases holds
  unborn _ _ := ⟨rfl, rfl, rfl⟩
  own fiber number made := by cases made

theorem Tracked.step (tracked : registry.Tracked threadOf)
    (stepped : (machine threadOf enter).step registry label = some after) :
    after.Tracked threadOf := by
  cases step_eq_some stepped with
  | callback callback thread => exact tracked.callback threadOf enter callback thread
  | fiber thread existing => exact tracked.enqueue threadOf enter thread existing
  | start stageIs => exact tracked.start threadOf enter stageIs
  | swapOut how stageIs => exact tracked.swapOut threadOf enter how stageIs
  | settle stageIs => exact tracked.settle threadOf enter stageIs
  | quiet steps isQuiet => exact tracked.quiet steps isQuiet

/-- However the workers and those who enqueue come in between one another, no callback
is lost or started twice, each is taken by a worker it was enqueued for, and its fiber
is put back into the queue once for each yield to `READY`. -/
theorem conserved_always (threadOf : Fin size → ThreadId) (enter : Idle)
    (labels : List (Scheduler.Label Callback size)) :
    (machine threadOf enter).Always (Conserved threadOf) {} labels :=
  Machine.always_of_invariant (Tracked threadOf)
    (fun _ _ _ tracked stepped => tracked.step stepped)
    (fun _ tracked => tracked.conserved) (Tracked.begin threadOf) labels

end Registry

end Sylar.Scheduling
