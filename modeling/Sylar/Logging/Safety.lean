import Sylar.Logging.Delivery
import Sylar.Logging.Reconfiguration

/-! # Loggers that are safe to log through

`getLogger` gives a new logger the root of the table to fall back on; the change callback
does not. A logger it makes without appenders sends its events to a null pointer.
-/

namespace Sylar.Logging

open Foundation

/-! ## Logging without null pointers -/

def Harmless {α : Type u} (result : Except Fault α) : Prop :=
  result ≠ .error .nullRoot ∧ result ≠ .error .nullFormatter

theorem Harmless.ok {α : Type u} (value : α) : Harmless (.ok value) :=
  ⟨by simp, by simp⟩

theorem Harmless.bind {α : Type u} {β : Type u} {result : Except Fault α}
    {next : α → Except Fault β} (harmless : Harmless result)
    (later : ∀ value, Harmless (next value)) : Harmless (result >>= next) := by
  cases result with
  | error fault =>
      constructor
      · intro isNull
        cases isNull
        exact harmless.1 rfl
      · intro isNull
        cases isNull
        exact harmless.2 rfl
  | ok value => exact later value

namespace LogAppender

theorem harmless_writes {appender : LogAppender}
    (formatted : appender.formatter.isSome = true) (source : Source) (level : Level)
    (event : LogEvent) (passes : Bool) :
    Harmless (appender.writes source level event passes) := by
  rcases Option.isSome_iff_exists.mp formatted with ⟨formatter, isFormatter⟩
  cases passes with
  | true =>
      simp only [writes, isFormatter]
      exact Harmless.ok _
  | false => exact Harmless.ok _

theorem harmless_log {appender : LogAppender}
    (formatted : appender.formatter.isSome = true) (source : Source) (level : Level)
    (event : LogEvent) : Harmless (appender.log source level event) := by
  rw [log]
  cases appender.stream with
  | stdout =>
      simp only [logStdout]
      split
      · exact ⟨by simp, by simp⟩
      · exact harmless_writes formatted source level event _
  | file fileName =>
      simp only [logFile]
      split
      · exact ⟨by simp, by simp⟩
      · exact harmless_writes formatted source level event _

theorem harmless_logAll {appenders : List LogAppender}
    (formatted : ∀ appender ∈ appenders, appender.formatter.isSome = true)
    (source : Source) (level : Level) (event : LogEvent) :
    Harmless (logAll source level event appenders) := by
  induction appenders with
  | nil => exact Harmless.ok _
  | cons appender rest induction =>
      rcases List.forall_mem_cons.mp formatted with ⟨here, others⟩
      exact (harmless_log here source level event).bind fun _ =>
        (induction others).bind fun _ => Harmless.ok _

end LogAppender

namespace LoggerManager

variable {manager : LoggerManager}

/-- Every appender of the logger has its formatter and its threshold, and where there
are none, the root is there and has some. -/
def Safe (manager : LoggerManager) (logger : Logger) : Prop :=
  (∀ appender ∈ logger.appenders, appender.Assigned) ∧
    (logger.appenders = [] →
      ∃ root, logger.root = some root ∧ (manager.objects root).appenders ≠ [])

/-- The root has appenders and is in no one's way: it is not in the table, and the
loggers of the table have it or none as their root. -/
structure Rooted (manager : LoggerManager) : Prop where
  sound : manager.Sound
  root : ∃ root, manager.root = some root ∧ root < manager.created ∧
    (∀ name, manager.lookUp name ≠ some root) ∧
    (manager.objects root).appenders ≠ [] ∧
    ∀ appender ∈ (manager.objects root).appenders, appender.formatter.isSome = true
  pointers : ∀ name logger, manager.loggerOf name = some logger →
    logger.root = none ∨ logger.root = manager.root

theorem Rooted.safe_iff (rooted : manager.Rooted) {name : Text} {logger : Logger}
    (isLogger : manager.loggerOf name = some logger) :
    manager.Safe logger ↔
      (∀ appender ∈ logger.appenders, appender.Assigned) ∧
        (logger.appenders = [] → logger.root ≠ none) := by
  rw [Safe]
  apply and_congr_right
  intro _
  apply imp_congr_right
  intro _
  constructor
  · intro falls
    rcases falls with ⟨root, isRoot, -⟩
    rw [isRoot]
    exact Option.some_ne_none root
  · intro notNull
    rcases rooted.root with ⟨root, isRoot, -, -, nonempty, -⟩
    rcases rooted.pointers name logger isLogger with null | same
    · exact absurd null notNull
    · exact ⟨root, same.trans isRoot, nonempty⟩

theorem Rooted.enter (rooted : manager.Rooted) (name : Text) {object : Logger}
    (pointer : object.root = none ∨ object.root = manager.root) :
    (manager.enter name object).Rooted where
  sound := rooted.sound.enter name object
  root := by
    rcases rooted.root with ⟨root, isRoot, taken, outside, nonempty, formatted⟩
    have same : (manager.enter name object).objects root = manager.objects root :=
      Function.update_of_ne (Nat.ne_of_lt taken) ..
    refine ⟨root, isRoot, Nat.lt_succ_of_lt taken, ?_, ?_, ?_⟩
    · intro other
      rw [lookUp_enter]
      split
      · intro isNew
        exact Nat.ne_of_gt taken (Option.some.inj isNew)
      · exact outside other
    · rw [same]
      exact nonempty
    · rw [same]
      exact formatted
  pointers other logger isLogger := by
    rw [rooted.sound.loggerOf_enter] at isLogger
    split at isLogger
    · cases isLogger
      exact pointer
    · exact rooted.pointers other logger isLogger

theorem Rooted.setLogger (rooted : manager.Rooted) {name : Text} {logger : LoggerId}
    (looksUp : manager.lookUp name = some logger) {object : Logger}
    (pointer : object.root = none ∨ object.root = manager.root) :
    (manager.setLogger logger object).Rooted where
  sound := rooted.sound.setLogger logger object
  root := by
    rcases rooted.root with ⟨root, isRoot, taken, outside, nonempty, formatted⟩
    have different : root ≠ logger := by
      intro same
      subst same
      exact outside name looksUp
    have same : (manager.setLogger logger object).objects root = manager.objects root :=
      Function.update_of_ne different ..
    refine ⟨root, isRoot, taken, outside, ?_, ?_⟩
    · rw [same]
      exact nonempty
    · rw [same]
      exact formatted
  pointers other otherLogger isLogger := by
    rw [rooted.sound.loggerOf_setLogger looksUp] at isLogger
    split at isLogger
    · cases isLogger
      exact pointer
    · exact rooted.pointers other otherLogger isLogger

theorem Rooted.getLogger (rooted : manager.Rooted) (name : Text) :
    (manager.getLogger name).1.Rooted := by
  rcases getLogger_cases manager name with ⟨-, result⟩ | ⟨-, result⟩
  · rw [result]
    exact rooted
  · rw [result]
    exact rooted.enter name (Or.inr rfl)

theorem Rooted.defined (rooted : manager.Rooted) {oldVal : LogDefiners}
    (holds : manager.Holds oldVal) (it : LogDefiner) :
    (manager.defined oldVal it).Rooted := by
  rcases defined_cases holds it with ⟨-, result⟩ | ⟨logger, -, looksUp, result⟩
  · rw [result]
    exact rooted.enter it.name (Or.inl rfl)
  · rw [result]
    have isLogger := loggerOf_of_lookUp looksUp
    have pointer := rooted.pointers it.name (manager.objects logger) isLogger
    exact rooted.setLogger looksUp pointer

theorem Rooted.definedAll (rooted : manager.Rooted) {oldVal : LogDefiners}
    {its : List LogDefiner} (holds : manager.Holds oldVal) :
    (definedAll oldVal its manager).Rooted := by
  induction its generalizing manager with
  | nil => exact rooted
  | cons it rest induction =>
      exact induction (rooted.defined holds it) (holds_defined holds it holds)

theorem Rooted.harmless_logLogger (rooted : manager.Rooted) {name : Text}
    {logger : LoggerId} (looksUp : manager.lookUp name = some logger) {level : Level}
    (safe : (manager.objects logger).level ≤ level → manager.Safe (manager.objects logger))
    (strftime : Text → Int → Text) (event : LogEvent) :
    Harmless (manager.logLogger strftime level event logger) := by
  have isLogger := loggerOf_of_lookUp looksUp
  rw [logLogger, logTo]
  split
  · next passes =>
      rcases safe passes with ⟨assigned, falls⟩
      split
      · next noAppenders =>
          rcases falls noAppenders with ⟨target, isTarget, -⟩
          rcases rooted.root with ⟨root, isRoot, -, -, nonempty, formatted⟩
          have same : some target = some root := by
            rcases rooted.pointers name _ isLogger with null | pointer
            · rw [isTarget] at null
              cases null
            · rw [← isTarget, ← isRoot]
              exact pointer
          cases same
          rw [isTarget]
          simp only [logTo, if_neg nonempty]
          split
          · exact LogAppender.harmless_logAll formatted ..
          · exact Harmless.ok _
      · exact LogAppender.harmless_logAll (fun appender member =>
          (assigned appender member).2) ..
  · exact Harmless.ok _

theorem Rooted.harmless_log (rooted : manager.Rooted) {level : Level}
    (safe : ∀ name logger, manager.loggerOf name = some logger → logger.level ≤ level →
      manager.Safe logger) (strftime : Text → Int → Text) (event : LogEvent) :
    Harmless (manager.log strftime level event) := by
  have entries : ∀ (entries : List (Text × LoggerId)) (event : LogEvent),
      (∀ entry ∈ entries, entry ∈ manager.loggers) →
      Harmless (manager.logEntries strftime level event entries) := by
    intro entries
    induction entries with
    | nil =>
        intro event _
        exact Harmless.ok _
    | cons entry rest induction =>
        intro event members
        rcases List.forall_mem_cons.mp members with ⟨here, others⟩
        have looksUp := lookUp_of_mem here
        have safeHere : (manager.objects entry.2).level ≤ level →
            manager.Safe (manager.objects entry.2) := by
          exact safe entry.1 _ (loggerOf_of_lookUp looksUp)
        exact (rooted.harmless_logLogger looksUp safeHere strftime _).bind fun _ =>
          (induction _ others).bind fun _ => Harmless.ok _
  exact entries manager.loggers.toList event fun entry member => member

end LoggerManager

/-! ## Runs -/

namespace LogConfig

variable {config : LogConfig}

/-- Every logger of the table that lets an ordinary event pass is safe, and ordinary
events are logged without a null pointer. The level of the root's appender is never assigned:
a run that comes to compare with it is followed no further, and what comes after it is left
to `safe`. -/
structure Loggable (config : LogConfig) : Prop where
  safe : ∀ name logger, config.manager.loggerOf name = some logger →
    logger.level ≤ .FATAL → config.manager.Safe logger
  harmless : ∀ strftime (level : Level) event, level ≤ .FATAL →
    Harmless (config.manager.log strftime level event)

/-- A value has appenders for every logger that lets an ordinary event pass. -/
def Supplied (_ : LogConfig) : Call → Prop
  | .setVal val => ∀ it ∈ val, it.level ≤ .FATAL → it.appenders ≠ []
  | .getLogger _ => True

structure Grounded (config : LogConfig) : Prop where
  tracked : config.Tracked
  rooted : config.manager.Rooted
  unrooted : ∀ it ∈ config.val, ∀ logger, config.manager.loggerOf it.name = some logger →
    logger.root = none

theorem Grounded.start (manager : LoggerManager) : (start manager.construct).Grounded where
  tracked := Tracked.start _
  rooted :=
    { sound := manager.construct.sound_of_no_loggers
      root := by
        refine ⟨manager.created, rfl, Nat.lt_succ_self _, ?_, ?_, ?_⟩
        · intro name
          simp [LogConfig.start, LoggerManager.lookUp]
        · simp [LogConfig.start, LoggerManager.construct, LoggerManager.allocate,
            Logger.addAppender]
        · simp [LogConfig.start, LoggerManager.construct, LoggerManager.allocate,
            Logger.addAppender, Logger.new]
      pointers := by
        simp [LogConfig.start, LoggerManager.loggerOf, LoggerManager.lookUp] }
  unrooted := by simp [LogConfig.start]

theorem Grounded.loggable_iff (grounded : config.Grounded) :
    config.Loggable ↔ ∀ name logger, config.manager.loggerOf name = some logger →
      logger.level ≤ .FATAL → config.manager.Safe logger := by
  constructor
  · exact fun loggable => loggable.safe
  · intro safe
    refine ⟨safe, ?_⟩
    intro strftime level event ordinary
    apply grounded.rooted.harmless_log
    intro name logger isLogger passes
    exact safe name logger isLogger (Nat.le_trans passes ordinary)

theorem Grounded.getLogger (grounded : config.Grounded) (name : Text) :
    ({ config with manager := (config.manager.getLogger name).1 } :
      LogConfig).Grounded where
  tracked := grounded.tracked.getLogger name
  rooted := grounded.rooted.getLogger name
  unrooted it member logger isLogger := by
    rw [grounded.tracked.sound.loggerOf_getLogger name
      (grounded.tracked.holds it member)] at isLogger
    exact grounded.unrooted it member logger isLogger

theorem Grounded.root_base (grounded : config.Grounded) (name : Text) :
    (config.manager.base config.val name).root = none := by
  rw [LoggerManager.base]
  split
  · rfl
  · next isOld =>
      rcases Option.ne_none_iff_exists'.mp isOld with ⟨old, found⟩
      rcases Ordered.find?_eq_some_iff.mp found with ⟨member, rfl⟩
      cases isLogger : config.manager.loggerOf old.name with
      | none => rfl
      | some logger => exact grounded.unrooted old member logger isLogger

theorem Grounded.change (grounded : config.Grounded) {val : LogDefiners}
    (valid : LoggerManager.AllValid val) :
    Grounded { val := val
               manager := LoggerManager.definedAll config.val val.toList config.manager } where
  tracked := grounded.tracked.change valid
  rooted := grounded.rooted.definedAll grounded.tracked.holds
  unrooted it member logger isLogger := by
    rw [grounded.tracked.sound.loggerOf_change grounded.tracked.holds member] at isLogger
    cases isLogger
    exact grounded.root_base it.name

theorem Grounded.loggable_change_iff (grounded : config.Grounded)
    (loggable : config.Loggable) {val : LogDefiners} (valid : LoggerManager.AllValid val) :
    Loggable { val := val
               manager := LoggerManager.definedAll config.val val.toList config.manager } ↔
      config.Supplied (.setVal val) := by
  have changed := grounded.change valid
  have configured := fun it (member : it ∈ val) =>
    grounded.tracked.sound.loggerOf_change grounded.tracked.holds member
  rw [changed.loggable_iff]
  constructor
  · intro safe it member ordinary noAppenders
    have isLogger := configured it member
    have safeHere := (changed.rooted.safe_iff isLogger).mp
      (safe it.name _ isLogger ordinary)
    refine safeHere.2 ?_ (grounded.root_base it.name)
    simp [LogDefiner.over, noAppenders]
  · intro supplied name logger isLogger ordinary
    by_cases named : ∃ it ∈ val, it.name = name
    · rcases named with ⟨it, member, rfl⟩
      have isOver : some (it.over (config.manager.base config.val it.name)) = some logger :=
        (configured it member).symm.trans isLogger
      cases isOver
      refine (changed.rooted.safe_iff isLogger).mpr ⟨?_, ?_⟩
      · intro appender appenderMember
        rcases List.mem_map.mp appenderMember with ⟨definer, -, rfl⟩
        exact ⟨rfl, rfl⟩
      · intro noAppenders
        exact absurd (List.map_eq_nil_iff.mp noAppenders) (supplied it member ordinary)
    · have others : ∀ it ∈ val.toList, it.name ≠ name :=
        fun it member same => named ⟨it, member, same⟩
      have before := isLogger
      rw [grounded.tracked.sound.loggerOf_definedAll_of_ne grounded.tracked.holds
        others] at before
      exact (changed.rooted.safe_iff isLogger).mpr
        ((grounded.rooted.safe_iff before).mp (loggable.safe name logger before ordinary))

theorem Grounded.loggable_getLogger (grounded : config.Grounded)
    (loggable : config.Loggable) (name : Text) :
    Loggable { config with manager := (config.manager.getLogger name).1 } := by
  have asked := grounded.getLogger name
  rw [asked.loggable_iff]
  intro other logger isLogger ordinary
  rw [asked.rooted.safe_iff isLogger]
  rcases LoggerManager.getLogger_cases config.manager name with
    ⟨-, result⟩ | ⟨missing, result⟩
  · rw [result] at isLogger
    exact (grounded.rooted.safe_iff isLogger).mp
      (loggable.safe other logger isLogger ordinary)
  · rw [result, grounded.tracked.sound.loggerOf_enter] at isLogger
    split at isLogger
    · cases isLogger
      rcases grounded.rooted.root with ⟨root, isRoot, -⟩
      refine ⟨by simp [Logger.new], ?_⟩
      intro _
      rw [isRoot]
      exact Option.some_ne_none root
    · exact (grounded.rooted.safe_iff isLogger).mp
        (loggable.safe other logger isLogger ordinary)

theorem Grounded.step (grounded : config.Grounded) (loggable : config.Loggable) {call : Call}
    {next : LogConfig} (stepped : machine.step config call = some next) :
    next.Grounded ∧ (next.Loggable ↔ config.Supplied call) := by
  cases call with
  | getLogger name =>
      cases stepped
      exact ⟨grounded.getLogger name,
        ⟨fun _ => trivial, fun _ => grounded.loggable_getLogger loggable name⟩⟩
  | setVal val =>
      rcases grounded.tracked.step_setVal stepped with ⟨valid, -, rfl⟩
      exact ⟨grounded.change valid, grounded.loggable_change_iff loggable valid⟩

/-- Once the manager is constructed, every logger stays safe to log through exactly if
every value that is applied has appenders for its loggers. -/
theorem loggable_iff_supplied (manager : LoggerManager) (calls : List Call) :
    machine.Always Loggable (start manager.construct) calls ↔
      machine.StepsMeet Supplied (start manager.construct) calls := by
  have grounded := Grounded.start manager
  have initially : (start manager.construct).Loggable := by
    rw [grounded.loggable_iff]
    simp [start, LoggerManager.loggerOf, LoggerManager.lookUp]
  apply Machine.always_iff_stepsMeet Grounded ?_ ?_ grounded initially
  · intro config call next grounded loggable _ stepped
    exact (grounded.step loggable stepped).1
  · intro config call next grounded loggable stepped
    exact (grounded.step loggable stepped).2

/-- A value names a logger and gives it no appender. -/
theorem loggable_iff_supplied_fails :
    ¬machine.Always Loggable (start LoggerManager.empty.construct)
      [.setVal (Ordered.ofList _ [{ name := ['a'] }])] := by
  intro always
  rcases (always.last rfl).safe ['a'] _ rfl (by decide) with ⟨-, falls⟩
  rcases falls rfl with ⟨root, isRoot, -⟩
  cases isRoot

end LogConfig

end Sylar.Logging
