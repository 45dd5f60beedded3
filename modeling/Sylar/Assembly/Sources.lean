import Sylar.Assembly.Lifting
import Sylar.Scheduling.Numbers

/-! # Where callbacks come from

Every number that the loop gives out stands for a callback with its origin. The
assertion of the scan keeps empty functions out of the workers' hands, so what they
start is a callback that somebody has handed in.
-/

namespace Sylar.Assembly

open Foundation Scheduling Timers Events

namespace IOManager

variable {Callback : Type} {size : Nat} {self : SchedulerId}
  {threadOf : Fin size → ThreadId} {manager next : IOManager Callback size}
  {start : UInt64}

/-! ## Where callbacks come from -/

theorem recorded_append {Entry : Type} {entries : List Entry} {index : Nat} {entry : Entry}
    (found : entries[index]? = some entry) (later : List Entry) :
    (entries ++ later)[index]? = some entry := by
  rw [List.getElem?_append_left (List.getElem?_eq_some_iff.mp found).1]
  exact found

/-- Each number stands for the callback that is recorded under it. No worker holds an
empty function, so none is started. -/
structure Sourced (manager : IOManager Callback size) : Prop where
  length : manager.origins.length = manager.loop.issued
  present : ∀ entry, manager.loop.scheduler.Present entry →
    ∀ number callback, entry.work = .cb (number, callback) →
      ∃ origin, manager.origins[number]? = some (origin, callback)
  held : ∀ w number thread,
    (manager.loop.scheduler.workers w).stage.held ≠ some ⟨.cb (number, none), thread⟩
  started : ∀ number ∈ manager.loop.started,
    ∃ origin callback, manager.origins[number]? = some (origin, some callback)

theorem Sourced.new (size : Nat) (start : UInt64) :
    (IOManager.new size start : IOManager Callback size).Sourced where
  length := rfl
  present entry present := by
    rcases present with queued | ⟨w, holds⟩
    · cases queued
    · cases holds
  held w number thread holds := by cases holds
  started number member := by cases member

theorem Sourced.hand (sourced : manager.Sourced) {origin : Origin}
    {entry : FiberAnThread (Option Callback)}
    (handed : manager.hand threadOf origin entry = some next) : next.Sourced := by
  rcases Option.map_eq_some_iff.mp handed with ⟨loop, stepped, rfl⟩
  rcases Registry.step_schedule stepped with ⟨fibers, workers, started, issued⟩
  constructor
  · rw [issued, List.length_append, sourced.length]
    rcases entry with ⟨callback | fiber, thread⟩
    · rfl
    · rfl
  · intro other present number callback workIs
    have here : manager.loop.scheduler.Present other ∨
        other = entry.map (Prod.mk manager.loop.issued) := by
      rcases present with queued | ⟨w, holds⟩
      · rw [fibers, List.mem_append, List.mem_singleton] at queued
        exact queued.imp_left Or.inl
      · rw [workers] at holds
        exact Or.inl (Or.inr ⟨w, holds⟩)
    rcases here with before | rfl
    · rcases sourced.present other before number callback workIs with ⟨given, found⟩
      exact ⟨given, recorded_append found _⟩
    · rcases entry with ⟨new | fiber, thread⟩
      · cases workIs
        refine ⟨origin, ?_⟩
        rw [← sourced.length]
        exact List.getElem?_concat_length
      · cases workIs
  · intro w number thread holds
    rw [workers] at holds
    exact sourced.held w number thread holds
  · intro number member
    rw [started] at member
    rcases sourced.started number member with ⟨given, callback, found⟩
    exact ⟨given, callback, recorded_append found _⟩

theorem Sourced.handAll (sourced : manager.Sourced)
    {entries : List (Origin × FiberAnThread (Option Callback))}
    (handed : IOManager.handAll threadOf manager entries = some next) : next.Sourced := by
  induction entries generalizing manager with
  | nil =>
      cases handed
      exact sourced
  | cons entry rest induction =>
      rcases Option.bind_eq_some_iff.mp handed with ⟨middle, first, later⟩
      exact induction (sourced.hand first) later

/-- A step of the loop hands nothing in, and its assertion keeps empty functions out of
the workers' hands. -/
theorem Sourced.loop (sourced : manager.Sourced)
    {label : Scheduler.Label (Option Callback) size}
    {loop : Registry (Option Callback) Unit size} (own : ∀ entry, label ≠ .schedule entry)
    (callable : manager.callable threadOf label = true)
    (stepped : manager.loop.step threadOf () label = some loop)
    (idle : Fin size → Idle Callback) :
    ({ manager with loop := loop, idle := idle } : IOManager Callback size).Sourced := by
  constructor
  · exact sourced.length.trans (Registry.issued_step own stepped).symm
  · intro entry present number callback workIs
    have before := Registry.present_step stepped own present workIs
    exact sourced.present entry before number callback workIs
  · intro w number thread holds
    rcases (Registry.scheduler_step stepped).held holds with
      before | ⟨isScan, takes⟩ | ⟨_, _, _, _, made⟩
    · exact sourced.held w number thread before
    · cases label with
      | scan v =>
          cases isScan
          rw [← Scheduler.scan_taken] at takes
          rw [IOManager.callable, takes] at callable
          cases callable
      | schedule | newFiber | autoStop | stopping | tickle | resume | swapOut | release
      | settle | leaveIdle | afterIdle => cases isScan
    · cases made
  · intro number member
    rcases Registry.started_step stepped member with before | ⟨w, callback, thread, holds⟩
    · exact sourced.started number before
    · rcases sourced.present _ (Or.inr ⟨w, holds⟩) number callback rfl with ⟨origin, found⟩
      cases callback with
      | none => exact absurd holds (sourced.held w number thread)
      | some callback => exact ⟨origin, callback, found⟩

theorem Sourced.step (sourced : manager.Sourced)
    (steps : Steps self threadOf manager next) : next.Sourced := by
  cases steps with
  | loop own callable stepped advances => exact sourced.loop own callable stepped _
  | idle | wake | timers | listExpiredCb =>
      exact ⟨sourced.length, sourced.present, sourced.held, sourced.started⟩
  | schedule handed => exact sourced.hand handed
  | @events _ _ events idle _ registers reported stepped advances handed =>
      have moved : ({ manager with events := events, idle := idle } :
          IOManager Callback size).Sourced :=
        ⟨sourced.length, sourced.present, sourced.held, sourced.started⟩
      exact moved.handAll handed
  | @queueExpired w timerCbs epEvents _ stageIs handed =>
      have moved : (manager.goOn w (.dispatching epEvents)).Sourced :=
        ⟨sourced.length, sourced.present, sourced.held, sourced.started⟩
      exact moved.handAll handed

end IOManager

end Sylar.Assembly
