import Sylar.Logging.Loginit

/-! # What the change callback leaves of the logger table

A definer says what its logger is to be: a level, a formatter and a list of appenders.
With every name of the old value in the table, the callback makes each logger of the new
value so, unless it meets an appender of no known type or a name that is gone.
-/

namespace Sylar.Logging

open Foundation

/-! ## The logger of a definer -/

def LogAppenderDefiner.Valid (val : LogAppenderDefiner) : Prop :=
  val.type = 1 ∨ val.type = 2

def LogDefiner.Valid (it : LogDefiner) : Prop :=
  ∀ val ∈ it.appenders, val.Valid

/-- The appender of a valid definer once its logger's formatter is added. -/
def LogAppenderDefiner.appender (formatter : LogFormatter) (val : LogAppenderDefiner) :
    LogAppender where
  stream := if val.type = 2 then .file val.file else .stdout
  level := some val.level
  formatter := some formatter

/-- The formatter that a definer gives to a logger with the formatter `before`. -/
def LogDefiner.formatterOver (it : LogDefiner) (before : LogFormatter) : LogFormatter :=
  if it.formatter = [] ∨ (LogFormatter.new it.formatter).ifError = true then before
  else .new it.formatter

def LogDefiner.over (it : LogDefiner) (before : Logger) : Logger :=
  { before with
    level := it.level
    formatter := it.formatterOver before.formatter
    appenders := it.appenders.map
      (LogAppenderDefiner.appender (it.formatterOver before.formatter)) }

theorem LogAppenderDefiner.make_of_valid {val : LogAppenderDefiner} (valid : val.Valid) :
    val.make = .ok
      { stream := if val.type = 2 then .file val.file else .stdout
        level := some val.level } := by
  rcases valid with isStdout | isFile
  · simp [make, isStdout]
  · simp [make, isFile]

theorem LogAppenderDefiner.make_of_not_valid {val : LogAppenderDefiner}
    (invalid : ¬val.Valid) : val.make = .error .nullAppender := by
  rcases not_or.mp invalid with ⟨notStdout, notFile⟩
  rw [make, if_neg notFile, if_neg notStdout]

theorem Logger.addAppenders_of_valid {vals : List LogAppenderDefiner} (logger : Logger)
    (valid : ∀ val ∈ vals, val.Valid) :
    logger.addAppenders vals = .ok
      { logger with
        appenders := logger.appenders ++
          vals.map (LogAppenderDefiner.appender logger.formatter) } := by
  induction vals generalizing logger with
  | nil => simp [addAppenders]
  | cons val rest induction =>
      rw [addAppenders, LogAppenderDefiner.make_of_valid (valid val List.mem_cons_self)]
      refine (induction _ fun other member =>
        valid other (List.mem_cons_of_mem _ member)).trans ?_
      simp [addAppender, LogAppenderDefiner.appender]

theorem Logger.addAppenders_of_not_valid {vals : List LogAppenderDefiner}
    (logger : Logger) (invalid : ¬∀ val ∈ vals, val.Valid) :
    logger.addAppenders vals = .error .nullAppender := by
  induction vals generalizing logger with
  | nil => exact absurd (by simp) invalid
  | cons val rest induction =>
      by_cases valid : val.Valid
      · rw [addAppenders, LogAppenderDefiner.make_of_valid valid]
        apply induction
        intro others
        exact invalid (List.forall_mem_cons.mpr ⟨valid, others⟩)
      · rw [addAppenders, LogAppenderDefiner.make_of_not_valid valid]
        rfl

theorem Logger.configure_of_valid (logger : Logger) {it : LogDefiner} (valid : it.Valid) :
    logger.configure it = .ok (it.over logger) := by
  rw [configure]
  by_cases unformatted : it.formatter = []
  · rw [if_pos unformatted, addAppenders_of_valid _ valid]
    simp [LogDefiner.over, LogDefiner.formatterOver, unformatted, setLevel, clearAppender]
  · rw [if_neg unformatted, addAppenders_of_valid _ valid]
    by_cases isError : (LogFormatter.new it.formatter).ifError = true
    · simp [LogDefiner.over, LogDefiner.formatterOver, isError, setLevel, clearAppender,
        setFormatter]
    · simp [LogDefiner.over, LogDefiner.formatterOver, unformatted, isError, setLevel,
        clearAppender, setFormatter]

theorem Logger.configure_of_not_valid (logger : Logger) {it : LogDefiner}
    (invalid : ¬it.Valid) : logger.configure it = .error .nullAppender :=
  addAppenders_of_not_valid _ invalid

namespace LoggerManager

variable {manager : LoggerManager}

/-! ## The table -/

def loggerOf (manager : LoggerManager) (name : Text) : Option Logger :=
  (manager.lookUp name).map manager.objects

theorem loggerOf_of_lookUp {name : Text} {logger : LoggerId}
    (looksUp : manager.lookUp name = some logger) :
    manager.loggerOf name = some (manager.objects logger) :=
  congrArg (Option.map manager.objects) looksUp

@[simp] theorem lookUp_allocate (logger : Logger) (name : Text) :
    (manager.allocate logger).lookUp name = manager.lookUp name := rfl

@[simp] theorem lookUp_setLogger (logger : LoggerId) (object : Logger) (name : Text) :
    (manager.setLogger logger object).lookUp name = manager.lookUp name := rfl

@[simp] theorem lookUp_addLogger (name other : Text) (logger : LoggerId) :
    (manager.addLogger name logger).lookUp other =
      if name = other then some logger else manager.lookUp other := by
  simp only [lookUp, addLogger, Ordered.find?_assign]
  split <;> rfl

theorem lookUp_of_mem {entry : Text × LoggerId} (member : entry ∈ manager.loggers) :
    manager.lookUp entry.1 = some entry.2 := by
  rw [lookUp, Ordered.find?_of_mem member]
  rfl

structure Sound (manager : LoggerManager) : Prop where
  taken : ∀ name logger, manager.lookUp name = some logger → logger < manager.created
  apart : ∀ left right logger, manager.lookUp left = some logger →
    manager.lookUp right = some logger → left = right

def enter (manager : LoggerManager) (name : Text) (object : Logger) : LoggerManager :=
  (manager.allocate object).addLogger name manager.created

theorem lookUp_enter (name other : Text) (object : Logger) :
    (manager.enter name object).lookUp other =
      if name = other then some manager.created else manager.lookUp other := by
  rw [enter, lookUp_addLogger, lookUp_allocate]

theorem Sound.enter (sound : manager.Sound) (name : Text) (object : Logger) :
    (manager.enter name object).Sound where
  taken other logger looksUp := by
    rw [lookUp_enter] at looksUp
    split at looksUp
    · cases looksUp
      exact Nat.lt_succ_self _
    · exact Nat.lt_succ_of_lt (sound.taken other logger looksUp)
  apart left right logger looksUpLeft looksUpRight := by
    have old : ∀ other, manager.lookUp other ≠ some manager.created := fun other looksUp =>
      Nat.lt_irrefl _ (sound.taken other _ looksUp)
    rw [lookUp_enter] at looksUpLeft looksUpRight
    split at looksUpLeft
    · next isLeft =>
        cases looksUpLeft
        split at looksUpRight
        · next isRight => exact isLeft.symm.trans isRight
        · exact absurd looksUpRight (old right)
    · split at looksUpRight
      · cases looksUpRight
        exact absurd looksUpLeft (old left)
      · exact sound.apart left right logger looksUpLeft looksUpRight

theorem Sound.loggerOf_enter (sound : manager.Sound) (name other : Text)
    (object : Logger) :
    (manager.enter name object).loggerOf other =
      if name = other then some object else manager.loggerOf other := by
  rw [loggerOf, lookUp_enter]
  split
  · exact congrArg some (Function.update_self ..)
  · rw [loggerOf]
    apply Option.map_congr
    intro logger looksUp
    exact Function.update_of_ne (Nat.ne_of_lt (sound.taken other logger looksUp)) ..

theorem Sound.setLogger (sound : manager.Sound) (logger : LoggerId) (object : Logger) :
    (manager.setLogger logger object).Sound where
  taken := sound.taken
  apart := sound.apart

theorem Sound.loggerOf_setLogger (sound : manager.Sound) {name : Text}
    {logger : LoggerId} (looksUp : manager.lookUp name = some logger) (other : Text)
    (object : Logger) :
    (manager.setLogger logger object).loggerOf other =
      if name = other then some object else manager.loggerOf other := by
  rw [loggerOf, lookUp_setLogger]
  split
  · next same =>
      rw [← same, looksUp]
      exact congrArg some (Function.update_self ..)
  · next different =>
      rw [loggerOf]
      apply Option.map_congr
      intro otherLogger looksUpOther
      apply Function.update_of_ne
      intro same
      subst same
      exact different (sound.apart name other _ looksUp looksUpOther)

/-! ## The callback -/

def defined (manager : LoggerManager) (oldVal : LogDefiners) (it : LogDefiner) :
    LoggerManager :=
  match oldVal.find? it.name, manager.lookUp it.name with
  | some _, some logger => manager.setLogger logger (it.over (manager.objects logger))
  | _, _ => manager.enter it.name (it.over (.new it.name))

def Holds (manager : LoggerManager) (val : LogDefiners) : Prop :=
  ∀ it ∈ val, (manager.lookUp it.name).isSome = true

theorem Holds.lookUp {val : LogDefiners} (holds : manager.Holds val) {name : Text}
    (named : val.find? name ≠ none) : ∃ logger, manager.lookUp name = some logger := by
  rcases Option.ne_none_iff_exists'.mp named with ⟨it, found⟩
  rcases Ordered.find?_eq_some_iff.mp found with ⟨member, rfl⟩
  exact Option.isSome_iff_exists.mp (holds it member)

theorem defined_cases {oldVal : LogDefiners} (holds : manager.Holds oldVal)
    (it : LogDefiner) :
    (oldVal.find? it.name = none ∧
        manager.defined oldVal it = manager.enter it.name (it.over (.new it.name))) ∨
      ∃ logger, oldVal.find? it.name ≠ none ∧ manager.lookUp it.name = some logger ∧
        manager.defined oldVal it =
          manager.setLogger logger (it.over (manager.objects logger)) := by
  rw [defined]
  cases found : oldVal.find? it.name with
  | none => exact Or.inl ⟨rfl, rfl⟩
  | some old =>
      have isOld : oldVal.find? it.name ≠ none := by
        rw [found]
        exact Option.some_ne_none old
      rcases holds.lookUp isOld with ⟨logger, looksUp⟩
      rw [looksUp]
      exact Or.inr ⟨logger, by simp, rfl, rfl⟩

theorem define_of_valid {oldVal : LogDefiners} (holds : manager.Holds oldVal)
    {it : LogDefiner} (valid : it.Valid) :
    manager.define oldVal it = .ok (manager.defined oldVal it) := by
  rcases defined_cases holds it with ⟨isNew, result⟩ | ⟨logger, isOld, looksUp, result⟩
  · simp only [define, isNew, result, Logger.configure_of_valid _ valid]
    rfl
  · rcases Option.ne_none_iff_exists'.mp isOld with ⟨old, found⟩
    simp only [define, found, looksUp, result, Logger.configure_of_valid _ valid]
    rfl

theorem define_of_not_valid {oldVal : LogDefiners} (holds : manager.Holds oldVal)
    {it : LogDefiner} (invalid : ¬it.Valid) :
    manager.define oldVal it = .error .nullAppender := by
  rcases defined_cases holds it with ⟨isNew, -⟩ | ⟨logger, isOld, looksUp, -⟩
  · simp only [define, isNew, Logger.configure_of_not_valid _ invalid]
    rfl
  · rcases Option.ne_none_iff_exists'.mp isOld with ⟨old, found⟩
    simp only [define, found, looksUp, Logger.configure_of_not_valid _ invalid]
    rfl

theorem holds_defined {oldVal : LogDefiners} (holds : manager.Holds oldVal)
    (it : LogDefiner) {val : LogDefiners} (holdsToo : manager.Holds val) :
    (manager.defined oldVal it).Holds val := by
  intro other member
  rcases defined_cases holds it with ⟨-, result⟩ | ⟨logger, -, -, result⟩
  · rw [result, lookUp_enter]
    split
    · rfl
    · exact holdsToo other member
  · rw [result, lookUp_setLogger]
    exact holdsToo other member

theorem Sound.defined (sound : manager.Sound) {oldVal : LogDefiners}
    (holds : manager.Holds oldVal) (it : LogDefiner) :
    (manager.defined oldVal it).Sound := by
  rcases defined_cases holds it with ⟨-, result⟩ | ⟨logger, -, -, result⟩
  · rw [result]
    exact sound.enter it.name _
  · rw [result]
    exact sound.setLogger logger _

def base (manager : LoggerManager) (oldVal : LogDefiners) (name : Text) : Logger :=
  if oldVal.find? name = none then .new name
  else (manager.loggerOf name).getD (.new name)

theorem Sound.loggerOf_defined (sound : manager.Sound) {oldVal : LogDefiners}
    (holds : manager.Holds oldVal) (it : LogDefiner) (name : Text) :
    (manager.defined oldVal it).loggerOf name =
      if it.name = name then some (it.over (manager.base oldVal name))
      else manager.loggerOf name := by
  rcases defined_cases holds it with
    ⟨isNew, result⟩ | ⟨logger, isOld, looksUp, result⟩
  · rw [result, sound.loggerOf_enter]
    split
    · next same =>
        subst same
        rw [base, if_pos isNew]
    · rfl
  · rw [result, sound.loggerOf_setLogger looksUp]
    split
    · next same =>
        subst same
        rw [base, if_neg isOld, loggerOf, looksUp]
        rfl
    · rfl

def definedAll (oldVal : LogDefiners) (its : List LogDefiner) (manager : LoggerManager) :
    LoggerManager :=
  its.foldl (fun manager it => manager.defined oldVal it) manager

theorem defineAll_of_valid {oldVal : LogDefiners} {its : List LogDefiner}
    (holds : manager.Holds oldVal) (valid : ∀ it ∈ its, it.Valid) :
    defineAll oldVal its manager = .ok (definedAll oldVal its manager) := by
  induction its generalizing manager with
  | nil => rfl
  | cons it rest induction =>
      rw [defineAll, define_of_valid holds (valid it List.mem_cons_self)]
      exact induction (holds_defined holds it holds) fun other member =>
        valid other (List.mem_cons_of_mem _ member)

theorem defineAll_of_not_valid {oldVal : LogDefiners} {its : List LogDefiner}
    (holds : manager.Holds oldVal) (invalid : ¬∀ it ∈ its, it.Valid) :
    defineAll oldVal its manager = .error .nullAppender := by
  induction its generalizing manager with
  | nil => exact absurd (by simp) invalid
  | cons it rest induction =>
      by_cases valid : it.Valid
      · rw [defineAll, define_of_valid holds valid]
        apply induction (holds_defined holds it holds)
        intro others
        exact invalid (List.forall_mem_cons.mpr ⟨valid, others⟩)
      · rw [defineAll, define_of_not_valid holds valid]
        rfl

theorem Sound.definedAll (sound : manager.Sound) {oldVal : LogDefiners}
    {its : List LogDefiner} (holds : manager.Holds oldVal) :
    (definedAll oldVal its manager).Sound := by
  induction its generalizing manager with
  | nil => exact sound
  | cons it rest induction =>
      exact induction (sound.defined holds it) (holds_defined holds it holds)

theorem Sound.loggerOf_definedAll_of_ne (sound : manager.Sound) {oldVal : LogDefiners}
    {its : List LogDefiner} (holds : manager.Holds oldVal) {name : Text}
    (others : ∀ it ∈ its, it.name ≠ name) :
    (LoggerManager.definedAll oldVal its manager).loggerOf name =
      manager.loggerOf name := by
  induction its generalizing manager with
  | nil => rfl
  | cons it rest induction =>
      refine (induction (sound.defined holds it) (holds_defined holds it holds)
        fun other member => others other (List.mem_cons_of_mem _ member)).trans ?_
      rw [sound.loggerOf_defined holds it, if_neg (others it List.mem_cons_self)]

theorem Sound.loggerOf_definedAll (sound : manager.Sound) {oldVal : LogDefiners}
    {its : List LogDefiner} (holds : manager.Holds oldVal)
    (names : its.Pairwise fun left right => left.name ≠ right.name) {it : LogDefiner}
    (member : it ∈ its) :
    (LoggerManager.definedAll oldVal its manager).loggerOf it.name =
      some (it.over (manager.base oldVal it.name)) := by
  induction its generalizing manager with
  | nil => cases member
  | cons first rest induction =>
      rcases List.pairwise_cons.mp names with ⟨different, restNames⟩
      have step := sound.loggerOf_defined holds first
      have nextSound := sound.defined holds first
      have nextHolds := holds_defined holds first holds
      rcases List.mem_cons.mp member with rfl | later
      · refine (nextSound.loggerOf_definedAll_of_ne nextHolds fun other otherMember same =>
          different other otherMember same.symm).trans ?_
        rw [step, if_pos rfl]
      · refine (induction nextSound nextHolds restNames later).trans ?_
        rw [base, step, if_neg (different it later)]
        rfl

theorem removeAll_of_kept {newVal : LogDefiners} {its : List LogDefiner}
    (kept : ∀ it ∈ its, newVal.find? it.name ≠ none) :
    removeAll newVal its manager = .ok manager := by
  induction its with
  | nil => rfl
  | cons it rest induction =>
      rcases Option.ne_none_iff_exists'.mp (kept it List.mem_cons_self) with ⟨new, found⟩
      simp only [removeAll, found]
      exact induction fun other member => kept other (List.mem_cons_of_mem _ member)

theorem removeAll_of_gone {newVal : LogDefiners} {its : List LogDefiner}
    (gone : ¬∀ it ∈ its, newVal.find? it.name ≠ none) :
    removeAll newVal its manager = .error .endIterator := by
  induction its with
  | nil => exact absurd (by simp) gone
  | cons it rest induction =>
      rw [removeAll]
      split
      · next found =>
          apply induction
          intro others
          exact gone (List.forall_mem_cons.mpr ⟨by simp [found], others⟩)
      · rfl

/-- Every name of the old value is in the new one. -/
def Keeps (oldVal newVal : LogDefiners) : Prop :=
  ∀ it ∈ oldVal, newVal.find? it.name ≠ none

/-- No appender of the value has an unknown type. -/
def AllValid (val : LogDefiners) : Prop := ∀ it ∈ val, it.Valid

theorem change_of_not_valid {oldVal newVal : LogDefiners} (holds : manager.Holds oldVal)
    (invalid : ¬AllValid newVal) :
    manager.change oldVal newVal = .error .nullAppender := by
  rw [change, defineAll_of_not_valid holds invalid]
  rfl

theorem change_of_gone {oldVal newVal : LogDefiners} (holds : manager.Holds oldVal)
    (valid : AllValid newVal) (gone : ¬Keeps oldVal newVal) :
    manager.change oldVal newVal = .error .endIterator := by
  rw [change, defineAll_of_valid holds valid]
  exact removeAll_of_gone gone

theorem change_of_kept {oldVal newVal : LogDefiners} (holds : manager.Holds oldVal)
    (valid : AllValid newVal) (kept : Keeps oldVal newVal) :
    manager.change oldVal newVal =
      .ok (LoggerManager.definedAll oldVal newVal.toList manager) := by
  rw [change, defineAll_of_valid holds valid]
  exact removeAll_of_kept kept

theorem Sound.loggerOf_change (sound : manager.Sound) {oldVal newVal : LogDefiners}
    (holds : manager.Holds oldVal) {it : LogDefiner} (member : it ∈ newVal) :
    (LoggerManager.definedAll oldVal newVal.toList manager).loggerOf it.name =
      some (it.over (manager.base oldVal it.name)) :=
  sound.loggerOf_definedAll holds (newVal.ascending.imp ne_of_lt) member

end LoggerManager

end Sylar.Logging
