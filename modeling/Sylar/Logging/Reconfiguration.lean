import Sylar.Logging.Configuration

/-! # One configuration after another

The callback edits long-lived loggers, so what it leaves depends on what it finds: the
formatter of a logger whose definer names none is the one it had. A name that is gone
from the configuration is looked for through the end of the new value.
-/

namespace Sylar.Logging

open Foundation

def Logger.settings (logger : Logger) : Level × LogFormatter × List LogAppender :=
  (logger.level, logger.formatter, logger.appenders)

theorem LogDefiner.settings_over_iff (it : LogDefiner) (left right : Logger) :
    (it.over left).settings = (it.over right).settings ↔
      it.formatterOver left.formatter = it.formatterOver right.formatter := by
  simp only [Logger.settings, LogDefiner.over, Prod.mk.injEq, true_and, and_iff_left_iff_imp]
  intro same
  rw [same]

def LogDefiner.Formats (it : LogDefiner) : Prop :=
  it.formatter ≠ [] ∧ (LogFormatter.new it.formatter).ifError = false

theorem LogDefiner.formatterOver_eq_iff (it : LogDefiner) (before : LogFormatter) :
    it.formatterOver before = it.formatterOver .default ↔
      it.Formats ∨ before = .default := by
  by_cases formats : it.Formats
  · have own : ¬(it.formatter = [] ∨ (LogFormatter.new it.formatter).ifError = true) := by
      simpa [Formats] using formats
    simp [formatterOver, own, formats]
  · have none : it.formatter = [] ∨ (LogFormatter.new it.formatter).ifError = true := by
      rw [Formats, not_and_or, not_not, Bool.not_eq_false] at formats
      exact formats
    simp [formatterOver, none, formats]

namespace LoggerManager

variable {manager : LoggerManager}

theorem getLogger_cases (manager : LoggerManager) (name : Text) :
    ((manager.lookUp name).isSome = true ∧ (manager.getLogger name).1 = manager) ∨
      manager.lookUp name = none ∧
        (manager.getLogger name).1 =
          manager.enter name { Logger.new name with root := manager.root } := by
  rw [getLogger]
  cases looksUp : manager.lookUp name with
  | none => exact Or.inr ⟨rfl, rfl⟩
  | some logger => exact Or.inl ⟨rfl, rfl⟩

theorem Sound.getLogger (sound : manager.Sound) (name : Text) :
    (manager.getLogger name).1.Sound := by
  rcases getLogger_cases manager name with ⟨-, result⟩ | ⟨-, result⟩
  · rw [result]
    exact sound
  · rw [result]
    exact sound.enter name _

theorem Sound.loggerOf_getLogger (sound : manager.Sound) (name : Text) {other : Text}
    (there : (manager.lookUp other).isSome = true) :
    (manager.getLogger name).1.loggerOf other = manager.loggerOf other := by
  rcases getLogger_cases manager name with ⟨-, result⟩ | ⟨missing, result⟩
  · rw [result]
  · rw [result, sound.loggerOf_enter]
    split
    · next same =>
        subst same
        rw [missing] at there
        cases there
    · rfl

theorem holds_getLogger {val : LogDefiners} (holds : manager.Holds val) (name : Text) :
    (manager.getLogger name).1.Holds val := by
  intro it member
  rcases getLogger_cases manager name with ⟨-, result⟩ | ⟨-, result⟩
  · rw [result]
    exact holds it member
  · rw [result, lookUp_enter]
    split
    · rfl
    · exact holds it member

theorem sound_of_no_loggers (manager : LoggerManager) :
    ({ manager with loggers := ∅ } : LoggerManager).Sound where
  taken := by simp [lookUp]
  apart := by simp [lookUp]

end LoggerManager

namespace LogConfig

variable {config : LogConfig}

/-! ## Convergence -/

def settingsOf (config : LogConfig) (name : Text) :
    Option (Level × LogFormatter × List LogAppender) :=
  (config.manager.loggerOf name).map Logger.settings

def alone (val : LogDefiners) : Except Fault LogConfig :=
  (start .empty).setVal val

/-- The loggers that the value names are as the value alone makes them. -/
def Converged : Except Fault LogConfig → Prop
  | .ok config =>
      ∃ fresh, alone config.val = .ok fresh ∧ ∀ it ∈ config.val,
        (config.settingsOf it.name).isSome = true ∧
          config.settingsOf it.name = fresh.settingsOf it.name
  | .error _ => False

/-- A value can be applied, no name is gone from it, and no logger is left with a
formatter it got from an earlier value. -/
def Renews : Except Fault LogConfig → Call → Prop
  | .ok config, .setVal val =>
      LoggerManager.AllValid val ∧ LoggerManager.Keeps config.val val ∧
        ∀ it ∈ val, config.val.find? it.name ≠ none →
          it.Formats ∨ ∀ logger, config.manager.loggerOf it.name = some logger →
            logger.formatter = .default
  | .ok _, .getLogger _ | .error _, _ => True

structure Tracked (config : LogConfig) : Prop where
  sound : config.manager.Sound
  holds : config.manager.Holds config.val
  valid : LoggerManager.AllValid config.val

theorem Tracked.start (manager : LoggerManager) : (start manager).Tracked where
  sound := manager.sound_of_no_loggers
  holds := by simp [LogConfig.start, LoggerManager.Holds]
  valid := by simp [LogConfig.start, LoggerManager.AllValid]

theorem Tracked.getLogger (tracked : config.Tracked) (name : Text) :
    ({ config with manager := (config.manager.getLogger name).1 } : LogConfig).Tracked where
  sound := tracked.sound.getLogger name
  holds := LoggerManager.holds_getLogger tracked.holds name
  valid := tracked.valid

theorem holds_change {manager : LoggerManager} (sound : manager.Sound)
    {oldVal newVal : LogDefiners} (holds : manager.Holds oldVal) :
    (LoggerManager.definedAll oldVal newVal.toList manager).Holds newVal := by
  intro it member
  have isLogger := sound.loggerOf_change holds member
  rw [LoggerManager.loggerOf] at isLogger
  rcases Option.map_eq_some_iff.mp isLogger with ⟨logger, looksUp, -⟩
  rw [looksUp]
  rfl

theorem Tracked.change (tracked : config.Tracked) {val : LogDefiners}
    (valid : LoggerManager.AllValid val) :
    Tracked { val := val
              manager := LoggerManager.definedAll config.val val.toList config.manager } where
  sound := tracked.sound.definedAll tracked.holds
  holds := holds_change tracked.sound tracked.holds
  valid := valid

theorem Tracked.setVal_of_not_valid (tracked : config.Tracked) {val : LogDefiners}
    (invalid : ¬LoggerManager.AllValid val) :
    config.setVal val = .error .nullAppender := by
  rw [setVal, LoggerManager.change_of_not_valid tracked.holds invalid]
  rfl

theorem Tracked.setVal_of_gone (tracked : config.Tracked) {val : LogDefiners}
    (valid : LoggerManager.AllValid val) (gone : ¬LoggerManager.Keeps config.val val) :
    config.setVal val = .error .endIterator := by
  rw [setVal, LoggerManager.change_of_gone tracked.holds valid gone]
  rfl

theorem Tracked.setVal_of_kept (tracked : config.Tracked) {val : LogDefiners}
    (valid : LoggerManager.AllValid val) (kept : LoggerManager.Keeps config.val val) :
    config.setVal val = .ok
      { val := val
        manager := LoggerManager.definedAll config.val val.toList config.manager } := by
  rw [setVal, LoggerManager.change_of_kept tracked.holds valid kept]
  rfl

theorem Tracked.step_setVal (tracked : config.Tracked) {val : LogDefiners} {next : LogConfig}
    (stepped : machine.step config (.setVal val) = some next) :
    LoggerManager.AllValid val ∧ LoggerManager.Keeps config.val val ∧ next =
      { val := val
        manager := LoggerManager.definedAll config.val val.toList config.manager } := by
  simp only [machine, execute] at stepped
  by_cases valid : LoggerManager.AllValid val
  · by_cases kept : LoggerManager.Keeps config.val val
    · rw [tracked.setVal_of_kept valid kept] at stepped
      cases stepped
      exact ⟨valid, kept, rfl⟩
    · rw [tracked.setVal_of_gone valid kept] at stepped
      cases stepped
  · rw [tracked.setVal_of_not_valid valid] at stepped
    cases stepped

theorem alone_spec {val : LogDefiners} (valid : LoggerManager.AllValid val) :
    ∃ fresh, alone val = .ok fresh ∧ ∀ it ∈ val,
      fresh.settingsOf it.name = some (it.over (.new it.name)).settings := by
  have tracked := Tracked.start .empty
  have kept : LoggerManager.Keeps (start .empty).val val := by
    simp [start, LoggerManager.Keeps]
  refine ⟨_, tracked.setVal_of_kept valid kept, ?_⟩
  intro it member
  rw [settingsOf, tracked.sound.loggerOf_change tracked.holds member]
  rfl

theorem Tracked.converged_iff (tracked : config.Tracked) {val : LogDefiners}
    (valid : LoggerManager.AllValid val) (kept : LoggerManager.Keeps config.val val) :
    Converged (config.setVal val) ↔
      ∀ it ∈ val, config.val.find? it.name ≠ none →
        it.Formats ∨ ∀ logger, config.manager.loggerOf it.name = some logger →
          logger.formatter = .default := by
  rcases alone_spec valid with ⟨fresh, isAlone, settings⟩
  have result : ∀ it ∈ val, settingsOf
      { val := val
        manager := LoggerManager.definedAll config.val val.toList config.manager } it.name =
        some (it.over (config.manager.base config.val it.name)).settings := by
    intro it member
    rw [settingsOf, tracked.sound.loggerOf_change tracked.holds member]
    rfl
  have same : ∀ it ∈ val,
      ((it.over (config.manager.base config.val it.name)).settings =
          (it.over (.new it.name)).settings ↔
        (config.val.find? it.name ≠ none →
          it.Formats ∨ ∀ logger, config.manager.loggerOf it.name = some logger →
            logger.formatter = .default)) := by
    intro it member
    rw [it.settings_over_iff]
    by_cases isNew : config.val.find? it.name = none
    · simp [LoggerManager.base, isNew]
    · rcases tracked.holds.lookUp isNew with ⟨logger, looksUp⟩
      have isLogger := LoggerManager.loggerOf_of_lookUp looksUp
      rw [LoggerManager.base, if_neg isNew, isLogger]
      simp only [Option.getD_some, ne_eq, isNew, not_false_eq_true, forall_const,
        Option.some.injEq, forall_eq']
      exact it.formatterOver_eq_iff _
  rw [tracked.setVal_of_kept valid kept]
  constructor
  · intro converged it member
    rcases converged with ⟨other, isOther, agree⟩
    have isFresh : fresh = other := Except.ok.inj (isAlone.symm.trans isOther)
    have agrees := (agree it member).2
    rw [result it member, ← isFresh, settings it member] at agrees
    exact (same it member).mp (Option.some.inj agrees)
  · intro renews
    refine ⟨fresh, isAlone, ?_⟩
    intro it member
    rw [result it member, settings it member]
    exact ⟨rfl, congrArg some ((same it member).mpr (renews it member))⟩

theorem Tracked.converged_getLogger (tracked : config.Tracked)
    (converged : Converged (.ok config)) (name : Text) :
    Converged (config.execute (.getLogger name)) := by
  rcases converged with ⟨fresh, isAlone, agree⟩
  refine ⟨fresh, isAlone, ?_⟩
  intro it member
  have same := tracked.sound.loggerOf_getLogger name (tracked.holds it member)
  rw [settingsOf, same]
  exact agree it member

theorem Tracked.execute (tracked : config.Tracked) {call : Call} {next : LogConfig}
    (renews : Renews (.ok config) call) (executed : config.execute call = .ok next) :
    next.Tracked := by
  cases call with
  | getLogger name =>
      cases executed
      exact tracked.getLogger name
  | setVal val =>
      rcases renews with ⟨valid, kept, -⟩
      rw [LogConfig.execute, tracked.setVal_of_kept valid kept] at executed
      cases executed
      exact tracked.change valid

theorem Tracked.converged_execute_iff (tracked : config.Tracked)
    (converged : Converged (.ok config)) (call : Call) :
    Converged (config.execute call) ↔ Renews (.ok config) call := by
  cases call with
  | getLogger name =>
      simp only [Renews, iff_true]
      exact tracked.converged_getLogger converged name
  | setVal val =>
      simp only [LogConfig.execute, Renews]
      by_cases valid : LoggerManager.AllValid val
      · by_cases kept : LoggerManager.Keeps config.val val
        · rw [tracked.converged_iff valid kept]
          simp [valid, kept]
        · rw [tracked.setVal_of_gone valid kept]
          simp [Converged, kept]
      · rw [tracked.setVal_of_not_valid valid]
        simp [Converged, valid]

/-- Whatever values the variable is given, in whatever order, the loggers of the last
one are as it alone makes them, exactly if every value renews what it finds. -/
theorem converged_iff_renews (manager : LoggerManager) (calls : List Call) :
    outcomeMachine.Always Converged (.ok (start manager)) calls ↔
      outcomeMachine.StepsMeet Renews (.ok (start manager)) calls := by
  have initially : Converged (.ok (start manager)) := by
    rcases alone_spec (Tracked.start manager).valid with ⟨fresh, isAlone, -⟩
    exact ⟨fresh, isAlone, by simp [start]⟩
  apply Machine.always_iff_stepsMeet (fun outcome => ∀ config, outcome = .ok config →
    config.Tracked) ?_ ?_ ?_ initially
  · intro before call next tracked converged renews stepped
    cases before with
    | error fault => cases stepped
    | ok config =>
        cases stepped
        intro after isAfter
        exact (tracked config rfl).execute renews isAfter
  · intro before call next tracked converged stepped
    cases before with
    | error fault => cases stepped
    | ok config =>
        cases stepped
        exact (tracked config rfl).converged_execute_iff converged call
  · intro config isStart
    cases isStart
    exact Tracked.start manager

/-- A logger gets a formatter, and keeps it when the next value names none. -/
theorem converged_iff_renews_fails :
    ¬outcomeMachine.Always Converged (.ok (start .empty))
      [.setVal (Ordered.ofList _ [{ name := ['a'], formatter := "%m".toList }]),
       .setVal (Ordered.ofList _ [{ name := ['a'] }])] := by
  intro always
  rcases always.last rfl with ⟨fresh, isAlone, agree⟩
  cases isAlone
  have agrees := (agree { name := ['a'] } List.mem_cons_self).2
  exact absurd agrees (by decide)

end LogConfig

/-! ## Removal -/

namespace LoggerManager

variable {manager : LoggerManager}

def Silenced (manager : LoggerManager) (logger : LoggerId) : Prop :=
  (manager.objects logger).appenders = [] ∧
    ∀ strftime (level : Level) event, level ≤ .FATAL →
      manager.logLogger strftime level event logger = .ok []

/-- The callback silences the loggers whose names are gone, and does nothing else in its
second loop. -/
structure Removed (manager : LoggerManager) (oldVal newVal : LogDefiners)
    (after : LoggerManager) : Prop where
  silences : ∀ it ∈ oldVal, newVal.find? it.name = none →
    ∃ logger, after.lookUp it.name = some logger ∧ after.Silenced logger
  spares : ∃ defined, defineAll oldVal newVal.toList manager = .ok defined ∧
    after.loggers = defined.loggers ∧
    ∀ logger, (∀ it ∈ oldVal, newVal.find? it.name = none →
        defined.lookUp it.name ≠ some logger) →
      after.objects logger = defined.objects logger

/-- The callback dereferences nothing that is not there, so that it returns, and what it
leaves is as it should be. -/
def Removes (manager : LoggerManager) (oldVal newVal : LogDefiners) : Prop :=
  ∃ after, manager.change oldVal newVal = .ok after ∧ manager.Removed oldVal newVal after

/-- The callback removes loggers as it should exactly if there are none to remove and it
can make every appender. -/
theorem removes_iff {oldVal newVal : LogDefiners} (holds : manager.Holds oldVal) :
    manager.Removes oldVal newVal ↔ Keeps oldVal newVal ∧ AllValid newVal := by
  constructor
  · rintro ⟨after, returns, -⟩
    have valid : AllValid newVal := by
      by_contra invalid
      rw [change_of_not_valid holds invalid] at returns
      cases returns
    refine ⟨?_, valid⟩
    by_contra gone
    rw [change_of_gone holds valid gone] at returns
    cases returns
  · rintro ⟨kept, valid⟩
    refine ⟨_, change_of_kept holds valid kept, ?_, ?_⟩
    · intro it member gone
      exact absurd gone (kept it member)
    · exact ⟨_, defineAll_of_valid holds valid, rfl, fun _ _ => rfl⟩

theorem removes_iff_stays :
    let val : LogDefiners := Ordered.ofList _ [{ name := ['a'], appenders := [{ type := 2 }] }]
    (LoggerManager.empty.enter ['a'] (.new ['a'])).Removes val val := by
  intro val
  refine (removes_iff ?_).mpr ⟨?_, ?_⟩
  · intro it member
    rw [List.mem_singleton.mp member]
    rfl
  · intro it member
    rw [List.mem_singleton.mp member]
    exact Option.some_ne_none _
  · intro it member
    rw [List.mem_singleton.mp member]
    exact List.forall_mem_singleton.mpr (Or.inr rfl)

/-- The only name there is is taken out of the configuration. -/
theorem removes_iff_fails :
    let val : LogDefiners := Ordered.ofList _ [{ name := ['a'] }]
    (LoggerManager.empty.enter ['a'] (.new ['a'])).Holds val ∧
      ¬(LoggerManager.empty.enter ['a'] (.new ['a'])).Removes val ∅ := by
  intro val
  constructor
  · intro it member
    rw [List.mem_singleton.mp member]
    rfl
  · rintro ⟨after, returns, -⟩
    cases returns

end LoggerManager

end Sylar.Logging
