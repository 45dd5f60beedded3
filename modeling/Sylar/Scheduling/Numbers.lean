import Sylar.Scheduling.Conservation

/-! # Numbered callbacks, step by step

What a step of the loop does to the numbers that have been given out, to the entries
that hold them and to what has been started.
-/

namespace Sylar.Scheduling.Registry

variable {Callback Idle : Type} {size : Nat} {threadOf : Fin size → ThreadId} {enter : Idle}
  {registry after : Registry Callback Idle size} {label : Scheduler.Label Callback size}

theorem record_issued (own : ∀ entry, label ≠ .schedule entry)
    (next : Scheduler (Nat × Callback) Idle size) :
    (registry.record next label).issued = registry.issued := by
  rcases label with ⟨callback | fiber, thread⟩ | _ | _ | _ | _ | _ | w | _ | _ | w | _ | _
  case schedule.cb => exact absurd rfl (own _)
  case schedule.fiber => exact absurd rfl (own _)
  case resume =>
    simp only [record]
    split <;> rfl
  case settle =>
    simp only [record]
    split <;> rfl
  all_goals rfl

theorem started_step (stepped : step threadOf enter registry label = some after)
    {number : Nat} (started : number ∈ after.started) :
    number ∈ registry.started ∨ ∃ w callback thread,
      (registry.scheduler.workers w).stage.held = some ⟨.cb (number, callback), thread⟩ := by
  cases step_eq_some stepped with
  | callback | fiber | swapOut | settle | quiet => exact Or.inl started
  | @start w begun callback thread stageIs =>
      rcases List.mem_append.mp started with before | here
      · exact Or.inl before
      · rw [List.mem_singleton.mp here]
        exact Or.inr ⟨w, callback, thread, by rw [stageIs]; rfl⟩

theorem scheduler_step (stepped : step threadOf enter registry label = some after) :
    Scheduler.Steps threadOf enter registry.scheduler
      (label.map (Prod.mk registry.issued)) after.scheduler := by
  rcases Option.ite_none_right_eq_some.mp stepped with ⟨-, moved⟩
  rcases Option.map_eq_some_iff.mp moved with ⟨next, inner, rfl⟩
  rw [record_scheduler]
  exact Scheduler.step_eq_some inner

theorem issued_step (own : ∀ entry, label ≠ .schedule entry)
    (stepped : step threadOf enter registry label = some after) :
    after.issued = registry.issued := by
  rcases Option.ite_none_right_eq_some.mp stepped with ⟨-, moved⟩
  rcases Option.map_eq_some_iff.mp moved with ⟨next, -, rfl⟩
  exact record_issued own next

theorem present_step (stepped : step threadOf enter registry label = some after)
    (own : ∀ entry, label ≠ .schedule entry)
    {entry : FiberAnThread (Nat × Callback)} {callback : Nat × Callback}
    (present : after.scheduler.Present entry) (workIs : entry.work = .cb callback) :
    registry.scheduler.Present entry := by
  rcases (scheduler_step stepped).present present with before | handedIn | ⟨_, _, _, _, _, rfl⟩
  · exact before
  · cases label with
    | schedule other => exact absurd rfl (own other)
    | newFiber | autoStop | stopping | scan | tickle | resume | swapOut | release | settle
    | leaveIdle | afterIdle => cases handedIn
  · cases workIs

theorem step_schedule {entry : FiberAnThread Callback}
    (stepped : step threadOf enter registry (.schedule entry) = some after) :
    after.scheduler.fibers =
        registry.scheduler.fibers ++ [entry.map (Prod.mk registry.issued)] ∧
      after.scheduler.workers = registry.scheduler.workers ∧
      after.started = registry.started ∧
      after.issued = registry.issued + if entry.fiber.isNone then 1 else 0 := by
  rcases Option.ite_none_right_eq_some.mp stepped with ⟨-, moved⟩
  rcases Option.map_eq_some_iff.mp moved with ⟨next, inner, rfl⟩
  cases inner
  rcases entry with ⟨callback | fiber, thread⟩
  · exact ⟨rfl, rfl, rfl, rfl⟩
  · exact ⟨rfl, rfl, rfl, rfl⟩

end Sylar.Scheduling.Registry
