import Sylar.Logging.Reconfiguration

/-! # The first configuration

Applied to an empty table, a value makes every logger anew. The callback takes all that a
definer says of its logger and all but one field of what it says of its appenders: their
formatters are those of the logger, whatever `formattor` says.
-/

namespace Sylar.Logging

open Foundation

/-! ## What a definer asks for -/

def LogAppenderDefiner.Formats (val : LogAppenderDefiner) : Prop :=
  val.formattor ≠ [] ∧ (LogFormatter.new val.formattor).ifError = false

/-- The formatter that an appender is to have, where the one of its logger is `before`. -/
def LogAppenderDefiner.formatterOver (val : LogAppenderDefiner) (before : LogFormatter) :
    LogFormatter :=
  if val.formattor = [] ∨ (LogFormatter.new val.formattor).ifError = true then before
  else .new val.formattor

def LogDefiner.freshFormatter (it : LogDefiner) : LogFormatter :=
  it.formatterOver .default

structure Logger.Follows (logger : Logger) (it : LogDefiner) : Prop where
  name : logger.name = it.name
  level : logger.level = it.level
  formatter : logger.formatter = it.freshFormatter
  appenders : logger.appenders =
    it.appenders.map fun val => val.appender (val.formatterOver it.freshFormatter)

/-- The table has a logger of its own for each definer, as this asks for, and no others. -/
structure LoggerManager.Applies (manager : LoggerManager) (val : LogDefiners) : Prop where
  names : ∀ name, (manager.lookUp name).isSome = true ↔ ∃ it ∈ val, it.name = name
  apart : ∀ left right logger, manager.lookUp left = some logger →
    manager.lookUp right = some logger → left = right
  loggers : ∀ it ∈ val, ∃ logger, manager.loggerOf it.name = some logger ∧ logger.Follows it

/-- The formatters of the appenders, where they are named, are those of their loggers. -/
def Uniform (val : LogDefiners) : Prop :=
  ∀ it ∈ val, ∀ appender ∈ it.appenders, appender.Formats →
    appender.formattor = it.freshFormatter.pattern

/-! ## What it gets -/

theorem LogDefiner.new_freshFormatter (it : LogDefiner) :
    LogFormatter.new it.freshFormatter.pattern = it.freshFormatter := by
  rw [freshFormatter, formatterOver]
  split <;> rfl

theorem LogAppenderDefiner.formatterOver_eq_iff (val : LogAppenderDefiner)
    {before : LogFormatter} (isNew : LogFormatter.new before.pattern = before) :
    before = val.formatterOver before ↔ (val.Formats → val.formattor = before.pattern) := by
  by_cases formats : val.Formats
  · have own : ¬(val.formattor = [] ∨ (LogFormatter.new val.formattor).ifError = true) := by
      simpa [Formats] using formats
    rw [formatterOver, if_neg own, imp_iff_right formats]
    constructor
    · intro same
      exact (congrArg LogFormatter.pattern same).symm
    · intro same
      rw [same, isNew]
  · have none : val.formattor = [] ∨ (LogFormatter.new val.formattor).ifError = true := by
      rw [Formats, not_and_or, not_not, Bool.not_eq_false] at formats
      exact formats
    rw [formatterOver, if_pos none]
    exact iff_of_true rfl fun isFormats => absurd isFormats formats

theorem LogDefiner.follows_over_iff (it : LogDefiner) :
    (it.over (.new it.name)).Follows it ↔
      ∀ val ∈ it.appenders, val.Formats → val.formattor = it.freshFormatter.pattern := by
  have same (val : LogAppenderDefiner) :
      val.appender it.freshFormatter = val.appender (val.formatterOver it.freshFormatter) ↔
        (val.Formats → val.formattor = it.freshFormatter.pattern) := by
    rw [← val.formatterOver_eq_iff it.new_freshFormatter]
    simp [LogAppenderDefiner.appender]
  have appenders : (it.over (.new it.name)).appenders =
      it.appenders.map fun val => val.appender it.freshFormatter := rfl
  constructor
  · intro follows val member
    have lists := appenders.symm.trans follows.appenders
    exact (same val).mp (List.map_inj_left.mp lists val member)
  · intro uniform
    constructor
    · rfl
    · rfl
    · rfl
    · rw [appenders]
      exact List.map_congr_left fun val member => (same val).mpr (uniform val member)

namespace LoggerManager

theorem change_of_fresh (manager : LoggerManager) {val : LogDefiners} (valid : AllValid val) :
    (LogConfig.start manager).manager.change ∅ val =
      .ok (definedAll ∅ val.toList (LogConfig.start manager).manager) := by
  have tracked := LogConfig.Tracked.start manager
  apply change_of_kept tracked.holds valid
  intro it member
  exact absurd member (Ordered.notMem_empty it)

theorem lookUp_fresh (manager : LoggerManager) (val : LogDefiners) (name : Text) :
    ((definedAll ∅ val.toList (LogConfig.start manager).manager).lookUp name).isSome = true ↔
      ∃ it ∈ val, it.name = name := by
  have tracked := LogConfig.Tracked.start manager
  constructor
  · intro there
    by_contra others
    have unnamed : ∀ it ∈ val.toList, it.name ≠ name :=
      fun it member isName => others ⟨it, member, isName⟩
    have missing : loggerOf (definedAll ∅ val.toList (LogConfig.start manager).manager) name =
        none := tracked.sound.loggerOf_definedAll_of_ne tracked.holds unnamed
    rw [Option.map_eq_none_iff.mp missing] at there
    cases there
  · rintro ⟨it, member, rfl⟩
    exact LogConfig.holds_change tracked.sound tracked.holds it member

/-- A fresh configuration is applied as its definers ask exactly if no appender asks for a
formatter that differs from its logger's. -/
theorem applies_iff (manager : LoggerManager) {val : LogDefiners} (valid : AllValid val) :
    (∃ after, (LogConfig.start manager).manager.change ∅ val = .ok after ∧ after.Applies val) ↔
      Uniform val := by
  have tracked := LogConfig.Tracked.start manager
  have loggers : ∀ it ∈ val,
      loggerOf (definedAll ∅ val.toList (LogConfig.start manager).manager) it.name =
        some (it.over (.new it.name)) :=
    fun it member => tracked.sound.loggerOf_change tracked.holds member
  rw [change_of_fresh manager valid]
  constructor
  · rintro ⟨after, ⟨⟩, applies⟩ it member
    rcases applies.loggers it member with ⟨logger, isLogger, follows⟩
    rw [loggers it member] at isLogger
    cases isLogger
    exact it.follows_over_iff.mp follows
  · intro uniform
    refine ⟨_, rfl, ?_⟩
    constructor
    · exact lookUp_fresh manager val
    · exact (tracked.sound.definedAll tracked.holds).apart
    · intro it member
      exact ⟨_, loggers it member, it.follows_over_iff.mpr (uniform it member)⟩

theorem applies_iff_own :
    let appenders : List LogAppenderDefiner :=
      [{ type := 1 }, { type := 2, file := "f".toList, formattor := "%m".toList }]
    let val : LogDefiners :=
      Ordered.ofList _ [{ name := ['a'], formatter := "%m".toList, appenders := appenders }]
    ∃ after, (LogConfig.start .empty).manager.change ∅ val = .ok after ∧ after.Applies val := by
  intro appenders val
  have valid : AllValid val := by
    intro it member appender isAppender
    rw [List.mem_singleton.mp member] at isAppender
    rcases List.mem_pair.mp isAppender with rfl | rfl
    · exact Or.inl rfl
    · exact Or.inr rfl
  apply (applies_iff .empty valid).mpr
  intro it member appender isAppender formats
  rw [List.mem_singleton.mp member] at isAppender ⊢
  rcases List.mem_pair.mp isAppender with rfl | rfl
  · exact absurd rfl formats.1
  · decide

/-- The appender asks for the message alone and gets the default format. -/
theorem applies_iff_fails :
    let val : LogDefiners := Ordered.ofList _
      [{ name := ['a'], appenders := [{ type := 1, formattor := "%m".toList }] }]
    AllValid val ∧
      ¬∃ after, (LogConfig.start .empty).manager.change ∅ val = .ok after ∧
        after.Applies val := by
  intro val
  constructor
  · intro it member appender isAppender
    rw [List.mem_singleton.mp member] at isAppender
    rw [List.mem_singleton.mp isAppender]
    exact Or.inl rfl
  · rintro ⟨after, ⟨⟩, applies⟩
    rcases applies.loggers _ List.mem_cons_self with ⟨logger, ⟨⟩, follows⟩
    have appenders := congrArg (List.map fun val => val.formatter.map LogFormatter.pattern)
      follows.appenders
    exact absurd appenders (by decide)

end LoggerManager

end Sylar.Logging
