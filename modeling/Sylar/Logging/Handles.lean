import Sylar.Logging.Reconfiguration

/-! # Handles across configurations

The callback takes a logger from the table only if the old value had its name. For a name
that is new to the value it makes a logger of its own, also where the table has one that
was asked for before, and whoever has that one keeps a logger that nothing configures.
-/

namespace Sylar.Logging

open Foundation

namespace LoggerManager

variable {manager : LoggerManager}

theorem lookUp_getLogger (manager : LoggerManager) (name : Text) :
    (manager.getLogger name).1.lookUp name = some (manager.getLogger name).2 := by
  rw [getLogger]
  cases looksUp : manager.lookUp name with
  | none => simp
  | some logger => exact looksUp

structure Above (manager : LoggerManager) (mark : LoggerId) (name : Text) : Prop where
  created : mark ≤ manager.created
  logger : ∃ logger, manager.lookUp name = some logger ∧ mark ≤ logger

theorem above_enter {mark : LoggerId} (created : mark ≤ manager.created) (name : Text)
    (object : Logger) : (manager.enter name object).Above mark name where
  created := Nat.le_succ_of_le created
  logger := ⟨manager.created, by rw [lookUp_enter, if_pos rfl], created⟩

theorem Above.enter {mark : LoggerId} {name : Text} (above : manager.Above mark name)
    (other : Text) (object : Logger) : (manager.enter other object).Above mark name := by
  by_cases same : other = name
  · rw [same]
    exact above_enter above.created name object
  · rcases above.logger with ⟨logger, looksUp, isAbove⟩
    refine ⟨Nat.le_succ_of_le above.created, logger, ?_, isAbove⟩
    rw [lookUp_enter, if_neg same]
    exact looksUp

theorem Above.defined {mark : LoggerId} {name : Text} (above : manager.Above mark name)
    {oldVal : LogDefiners} (holds : manager.Holds oldVal) (it : LogDefiner) :
    (manager.defined oldVal it).Above mark name := by
  rcases defined_cases holds it with ⟨-, result⟩ | ⟨logger, -, -, result⟩
  · rw [result]
    exact above.enter it.name _
  · rw [result]
    exact ⟨above.created, above.logger⟩

theorem Above.definedAll {mark : LoggerId} {name : Text} (above : manager.Above mark name)
    {oldVal : LogDefiners} (holds : manager.Holds oldVal) (its : List LogDefiner) :
    (definedAll oldVal its manager).Above mark name := by
  induction its generalizing manager with
  | nil => exact above
  | cons it rest induction =>
      exact induction (above.defined holds it) (holds_defined holds it holds)

theorem Above.getLogger {mark : LoggerId} {name : Text} (above : manager.Above mark name)
    (other : Text) : (manager.getLogger other).1.Above mark name := by
  rcases getLogger_cases manager other with ⟨-, result⟩ | ⟨-, result⟩
  · rw [result]
    exact above
  · rw [result]
    exact above.enter other _

theorem created_defined {oldVal : LogDefiners} (holds : manager.Holds oldVal)
    (it : LogDefiner) : manager.created ≤ (manager.defined oldVal it).created := by
  rcases defined_cases holds it with ⟨-, result⟩ | ⟨logger, -, -, result⟩
  · rw [result]
    exact Nat.le_succ _
  · rw [result]
    exact Nat.le_refl _

theorem above_definedAll {mark : LoggerId} (created : mark ≤ manager.created)
    {oldVal : LogDefiners} (holds : manager.Holds oldVal) {its : List LogDefiner}
    {it : LogDefiner} (member : it ∈ its) (isNew : oldVal.find? it.name = none) :
    (definedAll oldVal its manager).Above mark it.name := by
  induction its generalizing manager with
  | nil => cases member
  | cons first rest induction =>
      have nextHolds := holds_defined holds first holds
      rcases List.mem_cons.mp member with rfl | later
      · refine Above.definedAll ?_ nextHolds rest
        rcases defined_cases holds it with ⟨-, result⟩ | ⟨logger, isOld, -, -⟩
        · rw [result]
          exact above_enter created it.name _
        · exact absurd isNew isOld
      · exact induction (created.trans (created_defined holds first)) nextHolds later

theorem lookUp_definedAll {oldVal : LogDefiners} (holds : manager.Holds oldVal)
    {its : List LogDefiner} {name : Text} {logger : LoggerId}
    (looksUp : manager.lookUp name = some logger)
    (known : ∀ it ∈ its, it.name = name → oldVal.find? name ≠ none) :
    (definedAll oldVal its manager).lookUp name = some logger := by
  induction its generalizing manager with
  | nil => exact looksUp
  | cons it rest induction =>
      rcases List.forall_mem_cons.mp known with ⟨here, others⟩
      have stays : (manager.defined oldVal it).lookUp name = some logger := by
        rcases defined_cases holds it with ⟨isNew, result⟩ | ⟨other, -, -, result⟩
        · rw [result, lookUp_enter, if_neg]
          · exact looksUp
          · intro same
            exact here same (same ▸ isNew)
        · rw [result]
          exact looksUp
      exact induction (holds_defined holds it holds) stays others

end LoggerManager

namespace LogConfig

variable {config : LogConfig}

def Reuses (config : LogConfig) : Call → Prop
  | .setVal val => ∀ it ∈ val, config.val.find? it.name = none →
      config.manager.lookUp it.name = none
  | .getLogger _ => True

/-- A logger that the table had on the way is in the end the one of its name. -/
def KeepsHandles (config : LogConfig) (calls : List Call) (final : LogConfig) : Prop :=
  ∀ before after mid, calls = before ++ after → machine.run config before = some mid →
    ∀ name logger, mid.manager.lookUp name = some logger →
      final.manager.lookUp name = some logger

theorem Tracked.step (tracked : config.Tracked) {call : Call} {next : LogConfig}
    (stepped : machine.step config call = some next) : next.Tracked := by
  cases call with
  | getLogger name =>
      cases stepped
      exact tracked.getLogger name
  | setVal val =>
      rcases tracked.step_setVal stepped with ⟨valid, -, rfl⟩
      exact tracked.change valid

theorem Tracked.above (tracked : config.Tracked) {call : Call} {next : LogConfig}
    (stepped : machine.step config call = some next) {mark : LoggerId} {name : Text}
    (above : config.manager.Above mark name) : next.manager.Above mark name := by
  cases call with
  | getLogger other =>
      cases stepped
      exact above.getLogger other
  | setVal val =>
      rcases tracked.step_setVal stepped with ⟨-, -, rfl⟩
      exact above.definedAll tracked.holds val.toList

theorem Tracked.above_run (tracked : config.Tracked) {calls : List Call} {final : LogConfig}
    (ran : machine.run config calls = some final) {mark : LoggerId} {name : Text}
    (above : config.manager.Above mark name) : final.manager.Above mark name := by
  have preserved (config : LogConfig) (call : Call) (next : LogConfig)
      (holds : config.Tracked ∧ config.manager.Above mark name)
      (stepped : machine.step config call = some next) :
      next.Tracked ∧ next.manager.Above mark name :=
    ⟨holds.1.step stepped, holds.1.above stepped holds.2⟩
  exact (Machine.run_induction preserved ⟨tracked, above⟩ ran).2

theorem Tracked.lookUp_of_reuses (tracked : config.Tracked) {call : Call} {next : LogConfig}
    (stepped : machine.step config call = some next) (reuses : config.Reuses call)
    {name : Text} {logger : LoggerId} (looksUp : config.manager.lookUp name = some logger) :
    next.manager.lookUp name = some logger := by
  cases call with
  | getLogger other =>
      cases stepped
      rcases LoggerManager.getLogger_cases config.manager other with
        ⟨-, result⟩ | ⟨missing, result⟩
      · exact (congrArg (LoggerManager.lookUp · name) result).trans looksUp
      · refine (congrArg (LoggerManager.lookUp · name) result).trans ?_
        rw [LoggerManager.lookUp_enter, if_neg]
        · exact looksUp
        · intro same
          rw [same, looksUp] at missing
          cases missing
  | setVal val =>
      rcases tracked.step_setVal stepped with ⟨-, -, rfl⟩
      apply LoggerManager.lookUp_definedAll tracked.holds looksUp
      intro it member isName isNew
      have missing := reuses it member (isName ▸ isNew)
      rw [isName, looksUp] at missing
      cases missing

theorem Tracked.reuses_of_kept (tracked : config.Tracked) {call : Call} {next final : LogConfig}
    {calls : List Call} (stepped : machine.step config call = some next)
    (ran : machine.run next calls = some final)
    (kept : ∀ name logger, config.manager.lookUp name = some logger →
      final.manager.lookUp name = some logger) : config.Reuses call := by
  cases call with
  | getLogger name => trivial
  | setVal val =>
      intro it member isNew
      cases looksUp : config.manager.lookUp it.name with
      | none => rfl
      | some logger =>
          have nextTracked := tracked.step stepped
          rcases tracked.step_setVal stepped with ⟨-, -, rfl⟩
          have above := LoggerManager.above_definedAll (Nat.le_refl _) tracked.holds member isNew
          rcases (nextTracked.above_run ran above).logger with ⟨other, isOther, isAbove⟩
          rw [kept it.name logger looksUp] at isOther
          cases isOther
          exact absurd (tracked.sound.taken it.name logger looksUp) (Nat.not_lt.mpr isAbove)

theorem Tracked.keepsHandles_iff (tracked : config.Tracked) {calls : List Call}
    {final : LogConfig} (ran : machine.run config calls = some final) :
    config.KeepsHandles calls final ↔ machine.StepsMeet Reuses config calls := by
  induction calls generalizing config with
  | nil =>
      cases ran
      refine iff_of_true ?_ trivial
      intro before after mid isNil reached name logger looksUp
      rw [(List.append_eq_nil_iff.mp isNil.symm).1] at reached
      cases reached
      exact looksUp
  | cons call rest induction =>
      rcases Option.bind_eq_some_iff.mp ran with ⟨next, stepped, restRan⟩
      have same := induction (tracked.step stepped) restRan
      constructor
      · intro keeps
        have reuses := tracked.reuses_of_kept stepped restRan (keeps [] _ config rfl rfl)
        refine .cons stepped reuses (same.mp ?_)
        intro before after mid isRest reached
        refine keeps (call :: before) after mid (by rw [isRest]; rfl) ?_
        rw [Machine.run_cons, stepped]
        exact reached
      · intro meet
        rcases meet next stepped with ⟨reuses, restMeet⟩
        have keeps := same.mpr restMeet
        intro before after mid isCalls reached name logger looksUp
        cases before with
        | nil =>
            cases reached
            exact keeps [] rest next rfl rfl name logger
              (tracked.lookUp_of_reuses stepped reuses looksUp)
        | cons first others =>
            cases isCalls
            rw [Machine.run_cons, stepped] at reached
            exact keeps others after mid rfl reached name logger looksUp

/-- From an empty table on. -/
theorem handles_kept_iff (manager : LoggerManager) {calls : List Call} {final : LogConfig}
    (ran : machine.run (start manager) calls = some final) :
    (start manager).KeepsHandles calls final ↔ machine.StepsMeet Reuses (start manager) calls :=
  (Tracked.start manager).keepsHandles_iff ran

theorem handles_kept_iff_configured :
    let val : LogDefiners := Ordered.ofList _ [{ name := ['a'] }]
    let both : LogDefiners := Ordered.ofList _ [{ name := ['a'], level := .INFO }, { name := ['b'] }]
    let calls : List Call := [.setVal val, .getLogger ['a'], .setVal both]
    ∃ final, machine.run (start .empty) calls = some final ∧
      (start .empty).KeepsHandles calls final := by
  intro val both calls
  refine ⟨_, rfl, (handles_kept_iff .empty rfl).mpr ?_⟩
  apply Machine.StepsMeet.cons rfl
  · intro it _ _
    rfl
  apply Machine.StepsMeet.cons rfl trivial
  refine Machine.StepsMeet.cons rfl ?_ True.intro
  intro it member isNew
  rcases List.mem_pair.mp member with rfl | rfl
  · cases isNew
  · rfl

/-- The logger is asked for first, and the configuration makes another one. -/
theorem handles_kept_iff_fails :
    let calls : List Call :=
      [.getLogger ['a'], .setVal (Ordered.ofList _ [{ name := ['a'], level := .INFO }])]
    ∃ final, machine.run (start .empty) calls = some final ∧
      ¬(start .empty).KeepsHandles calls final := by
  intro calls
  refine ⟨_, rfl, fun keeps => ?_⟩
  have kept := keeps [.getLogger ['a']] _ _ rfl rfl ['a'] 0 rfl
  cases kept

end LogConfig

end Sylar.Logging
