import Sylar.Events.Effects
import Sylar.Logging.Fresh
import Sylar.Settings.Loading
import Sylar.Settings.LogDefiners

/-! # From a document to the loggers

`LoadFromYaml` gives the text of a node to the variable `logs`, which reads a set of
definers from it, and whose callback makes the loggers what the definers say. Documents
are loaded one after another, and in between loggers are asked for.
-/

namespace Sylar.Assembly.LogSettings

open Foundation Logging Settings

/-! ## What is read -/

theorem valid_of_readAppender {yaml : Yaml} {value : Option Node}
    {appender : LogAppenderDefiner}
    (reads : readAppender yaml value = .ok (some appender)) : appender.Valid := by
  rcases Events.bind_eq_ok.mp reads with ⟨type, -, rest⟩
  cases type with
  | none => cases rest
  | some type =>
      simp only at rest
      split at rest
      · rcases Events.bind_eq_ok.mp rest with ⟨formattor, -, rest⟩
        rcases Events.bind_eq_ok.mp rest with ⟨file, -, rest⟩
        rcases Events.bind_eq_ok.mp rest with ⟨level, -, rest⟩
        cases rest
        exact Or.inr rfl
      · split at rest
        · rcases Events.bind_eq_ok.mp rest with ⟨formattor, -, rest⟩
          rcases Events.bind_eq_ok.mp rest with ⟨file, -, rest⟩
          rcases Events.bind_eq_ok.mp rest with ⟨level, -, rest⟩
          cases rest
          exact Or.inl rfl
        · cases rest

theorem valid_of_readAppenders {yaml : Yaml} {values : List (Option Node)}
    {appenders : List LogAppenderDefiner}
    (reads : readAppenders yaml values = .ok appenders) :
    ∀ appender ∈ appenders, appender.Valid := by
  induction values generalizing appenders with
  | nil =>
      cases reads
      exact fun _ member => absurd member List.not_mem_nil
  | cons value values induction =>
      rcases Events.bind_eq_ok.mp reads with ⟨first, isFirst, rest⟩
      rcases Events.bind_eq_ok.mp rest with ⟨others, areOthers, rest⟩
      cases rest
      intro appender member
      rcases List.mem_append.mp member with isHead | later
      · rw [Option.mem_toList.mp isHead] at isFirst
        exact valid_of_readAppender isFirst
      · exact induction areOthers appender later

theorem valid_of_readDefiner {yaml : Yaml} {node : Option Node} {definer : LogDefiner}
    (reads : readDefiner yaml node = .ok (some definer)) : definer.Valid := by
  rcases Events.bind_eq_ok.mp reads with ⟨name, -, rest⟩
  cases name with
  | none => cases rest
  | some name =>
      rcases Events.bind_eq_ok.mp rest with ⟨level, -, rest⟩
      rcases Events.bind_eq_ok.mp rest with ⟨formatter, -, rest⟩
      rcases Events.bind_eq_ok.mp rest with ⟨list, -, rest⟩
      cases list with
      | none =>
          cases rest
          exact fun _ member => absurd member List.not_mem_nil
      | some list =>
          rcases Events.bind_eq_ok.mp rest with ⟨appenders, areRead, rest⟩
          cases rest
          exact valid_of_readAppenders areRead

theorem valid_of_readDefiners {yaml : Yaml} {nodes : List (Option Node)}
    {before definers : LogDefiners} (valid : LoggerManager.AllValid before)
    (reads : readDefiners yaml nodes before = .ok definers) :
    LoggerManager.AllValid definers := by
  induction nodes generalizing before with
  | nil =>
      cases reads
      exact valid
  | cons node nodes induction =>
      rcases Events.bind_eq_ok.mp reads with ⟨first, isFirst, rest⟩
      cases first with
      | none => exact induction valid rest
      | some definer =>
          refine induction ?_ rest
          intro it member
          rcases Ordered.mem_insert.mp member with old | ⟨rfl, -⟩
          · exact valid it old
          · exact valid_of_readDefiner isFirst

theorem allValid_of_ofText {yaml : Yaml} {text : Text} {definers : LogDefiners}
    (reads : (LexicalCast.logDefiners yaml).ofText text = .ok definers) :
    LoggerManager.AllValid definers := by
  rcases Events.bind_eq_ok.mp reads with ⟨node, -, rest⟩
  exact valid_of_readDefiners (by simp [LoggerManager.AllValid]) rest

/-! ## Loading -/

variable {Kind : Type} {Val : Kind → Type}

/-- The virtual `fromString`, as far as the loggers go. That a text does not convert is
caught, a fault of the callback is not. -/
def fromString (yaml : Yaml) (logs : VarId) (outcome : Except Fault LogConfig) (v : VarId)
    (text : Text) : Except Fault LogConfig :=
  if v = logs then do
    let config ← outcome
    match (LexicalCast.logDefiners yaml).ofText text with
    | .ok val => config.setVal val
    | .error _ => pure config
  else outcome

/-- `LoadFromYaml`, where `logs` is the variable in `Log_Config`. -/
def loadFromYaml (yaml : Yaml) (registry : Config Val) (logs : VarId) (config : LogConfig)
    (root : Node) : Except Fault LogConfig :=
  registry.loadWith yaml (fromString yaml logs) root (.ok config)

def valuesOf (yaml : Yaml) (texts : List Text) : List LogDefiners :=
  texts.filterMap fun text => ((LexicalCast.logDefiners yaml).ofText text).toOption

/-- The values that a document gives to `logs`, one after the other. -/
def given (yaml : Yaml) (registry : Config Val) (logs : VarId) (root : Node) :
    List LogDefiners :=
  valuesOf yaml <| Config.textsFor logs <|
    (Config.loadAllNumber [] root []).filterMap (Config.callFor yaml registry)

theorem foldl_fromString (yaml : Yaml) (logs : VarId) (calls : List (VarId × Text))
    (outcome : Except Fault LogConfig) :
    calls.foldl (fun outcome call => fromString yaml logs outcome call.1 call.2) outcome =
      outcome >>= fun config =>
        (valuesOf yaml (Config.textsFor logs calls)).foldlM LogConfig.setVal config := by
  induction calls generalizing outcome with
  | nil => cases outcome <;> rfl
  | cons call calls induction =>
      rw [List.foldl_cons, induction]
      cases outcome with
      | error fault =>
          have same : fromString yaml logs (.error fault) call.1 call.2 = .error fault := by
            rw [fromString]
            split <;> rfl
          rw [same]
          rfl
      | ok config =>
          by_cases isLogs : call.1 = logs
          · have texts : Config.textsFor logs (call :: calls) =
                call.2 :: Config.textsFor logs calls :=
              List.filterMap_cons_some (if_pos isLogs)
            rw [fromString, if_pos isLogs, texts, valuesOf, valuesOf]
            cases reads : (LexicalCast.logDefiners yaml).ofText call.2 with
            | error exception => rw [List.filterMap_cons_none (by rw [reads]; rfl)]; rfl
            | ok val =>
                rw [List.filterMap_cons_some (show _ = some val by rw [reads]; rfl)]
                rfl
          · have texts : Config.textsFor logs (call :: calls) = Config.textsFor logs calls :=
              List.filterMap_cons_none (if_neg isLogs)
            rw [fromString, if_neg isLogs, texts]

theorem loadFromYaml_eq (yaml : Yaml) (registry : Config Val) (logs : VarId)
    (config : LogConfig) (root : Node) :
    loadFromYaml yaml registry logs config root =
      (given yaml registry logs root).foldlM LogConfig.setVal config := by
  rw [loadFromYaml, Config.loadWith_eq, foldl_fromString]
  rfl

theorem allValid_of_given {yaml : Yaml} {registry : Config Val} {logs : VarId} {root : Node}
    {val : LogDefiners} (isGiven : val ∈ given yaml registry logs root) :
    LoggerManager.AllValid val := by
  rcases List.mem_filterMap.mp isGiven with ⟨text, -, reads⟩
  cases converted : (LexicalCast.logDefiners yaml).ofText text with
  | error exception =>
      rw [converted] at reads
      cases reads
  | ok definers =>
      rw [converted] at reads
      cases reads
      exact allValid_of_ofText converted

/-! ## One value after another -/

def KeepsNames (val : LogDefiners) (vals : List LogDefiners) : Prop :=
  List.IsChain LoggerManager.Keeps (val :: vals)

def overAll (its : List LogDefiner) (logger : Logger) : Logger :=
  its.foldl (fun logger it => it.over logger) logger

def definersFor (vals : List LogDefiners) (name : Text) : List LogDefiner :=
  vals.filterMap fun val => val.find? name

theorem definersFor_cons_none {val : LogDefiners} {name : Text}
    (missing : val.find? name = none) (vals : List LogDefiners) :
    definersFor (val :: vals) name = definersFor vals name :=
  List.filterMap_cons_none missing

theorem definersFor_cons_some {val : LogDefiners} {name : Text} {it : LogDefiner}
    (found : val.find? name = some it) (vals : List LogDefiners) :
    definersFor (val :: vals) name = it :: definersFor vals name :=
  List.filterMap_cons_some found

def loggerAfter (config : LogConfig) (vals : List LogDefiners) (name : Text) :
    Option Logger :=
  match definersFor vals name with
  | [] => config.manager.loggerOf name
  | its => some (overAll its (config.manager.base config.val name))

variable {config : LogConfig} {vals : List LogDefiners}

theorem loggerOf_setVal (tracked : config.Tracked) (val : LogDefiners) (name : Text) :
    (LoggerManager.definedAll config.val val.toList config.manager).loggerOf name =
      match val.find? name with
      | none => config.manager.loggerOf name
      | some it => some (it.over (config.manager.base config.val name)) := by
  cases found : val.find? name with
  | none =>
      apply tracked.sound.loggerOf_definedAll_of_ne tracked.holds
      exact Ordered.find?_eq_none_iff.mp found
  | some it =>
      rcases Ordered.find?_eq_some_iff.mp found with ⟨member, rfl⟩
      exact tracked.sound.loggerOf_change tracked.holds member

theorem setAll_of_keeps (tracked : config.Tracked)
    (valid : ∀ val ∈ vals, LoggerManager.AllValid val) (keeps : KeepsNames config.val vals) :
    ∃ final, vals.foldlM LogConfig.setVal config = .ok final ∧ final.Tracked ∧
      final.val = vals.getLast?.getD config.val ∧
      ∀ name, final.manager.loggerOf name = loggerAfter config vals name := by
  induction vals generalizing config with
  | nil => exact ⟨config, rfl, tracked, rfl, fun _ => rfl⟩
  | cons val vals induction =>
      rcases List.forall_mem_cons.mp valid with ⟨first, later⟩
      rcases List.isChain_cons_cons.mp keeps with ⟨kept, rest⟩
      have logger := loggerOf_setVal tracked val
      rcases induction (tracked.change first) later rest with
        ⟨final, loaded, finalTracked, last, loggers⟩
      refine ⟨final, ?_, finalTracked, ?_, ?_⟩
      · rw [List.foldlM_cons, tracked.setVal_of_kept first kept]
        exact loaded
      · rw [last, List.getLast?_cons]
        rfl
      · intro name
        rw [loggers, loggerAfter, loggerAfter]
        cases found : val.find? name with
        | none =>
            have unknown : config.val.find? name = none := by
              by_contra known
              rcases Option.ne_none_iff_exists'.mp known with ⟨it, isKnown⟩
              rcases Ordered.find?_eq_some_iff.mp isKnown with ⟨member, rfl⟩
              exact kept it member found
            have same : (LoggerManager.definedAll config.val val.toList
                config.manager).loggerOf name = config.manager.loggerOf name := by
              rw [logger, found]
            simp only [definersFor_cons_none found, same, LoggerManager.base, found, unknown]
        | some it =>
            have isLogger : (LoggerManager.definedAll config.val val.toList
                config.manager).loggerOf name =
                  some (it.over (config.manager.base config.val name)) := by
              rw [logger, found]
            have isBase : (LoggerManager.definedAll config.val val.toList
                config.manager).base val name =
                  it.over (config.manager.base config.val name) := by
              rw [LoggerManager.base, if_neg (by simp [found]), isLogger]
              rfl
            simp only [definersFor_cons_some found, isLogger, isBase]
            cases definersFor vals name with
            | nil => rfl
            | cons => rfl

theorem setAll_of_gone (tracked : config.Tracked)
    (valid : ∀ val ∈ vals, LoggerManager.AllValid val)
    (gone : ¬KeepsNames config.val vals) :
    vals.foldlM LogConfig.setVal config = .error .endIterator := by
  induction vals generalizing config with
  | nil => exact absurd (List.IsChain.singleton _) gone
  | cons val vals induction =>
      rcases List.forall_mem_cons.mp valid with ⟨first, later⟩
      rw [List.foldlM_cons]
      by_cases kept : LoggerManager.Keeps config.val val
      · rw [tracked.setVal_of_kept first kept]
        apply induction (tracked.change first) later
        intro rest
        exact gone (List.isChain_cons_cons.mpr ⟨kept, rest⟩)
      · rw [tracked.setVal_of_gone first kept]
        rfl

/-! ## Documents one after another -/

theorem overAll_append (its : List LogDefiner) (it : LogDefiner) (logger : Logger) :
    overAll (its ++ [it]) logger = it.over (overAll its logger) := by
  rw [overAll, List.foldl_append]
  rfl

def formatterAfter (its : List LogDefiner) (before : LogFormatter) : LogFormatter :=
  its.foldl (fun formatter it => it.formatterOver formatter) before

theorem overAll_kept (its : List LogDefiner) (logger : Logger) :
    (overAll its logger).name = logger.name ∧ (overAll its logger).root = logger.root ∧
      (overAll its logger).formatter = formatterAfter its logger.formatter := by
  induction its generalizing logger with
  | nil => exact ⟨rfl, rfl, rfl⟩
  | cons it its induction => exact induction (it.over logger)

/-- The logger is what its definer says, and each appender has the formatter that its own
definer names, or else that of the logger. -/
structure Follows (it : LogDefiner) (logger : Logger) : Prop where
  level : logger.level = it.level
  formatter : it.Formats → logger.formatter = .new it.formatter
  appenders : logger.appenders =
    it.appenders.map fun appender => appender.appender (appender.formatterOver logger.formatter)

/-- No appender of the definer names another formatter than the one its logger has. -/
def Agrees (it : LogDefiner) (formatter : LogFormatter) : Prop :=
  ∀ appender ∈ it.appenders, appender.Formats → .new appender.formattor = formatter

theorem formatterOver_eq_self_iff (appender : LogAppenderDefiner) (formatter : LogFormatter) :
    formatter = appender.formatterOver formatter ↔
      (appender.Formats → .new appender.formattor = formatter) := by
  by_cases formats : appender.Formats
  · have own : ¬(appender.formattor = [] ∨
        (LogFormatter.new appender.formattor).ifError = true) := by
      simpa [LogAppenderDefiner.Formats] using formats
    rw [LogAppenderDefiner.formatterOver, if_neg own, imp_iff_right formats]
    exact eq_comm
  · have none : appender.formattor = [] ∨
        (LogFormatter.new appender.formattor).ifError = true := by
      rw [LogAppenderDefiner.Formats, not_and_or, not_not, Bool.not_eq_false] at formats
      exact formats
    rw [LogAppenderDefiner.formatterOver, if_pos none]
    exact iff_of_true rfl fun isFormats => absurd isFormats formats

theorem map_appender_iff (it : LogDefiner) (formatter : LogFormatter) :
    it.appenders.map (LogAppenderDefiner.appender formatter) =
        it.appenders.map (fun appender =>
          appender.appender (appender.formatterOver formatter)) ↔
      Agrees it formatter := by
  rw [List.map_inj_left, Agrees]
  refine forall₂_congr fun appender _ => ?_
  rw [← formatterOver_eq_self_iff]
  simp [LogAppenderDefiner.appender]

theorem follows_over_iff (it : LogDefiner) (logger : Logger) :
    Follows it (it.over logger) ↔ Agrees it (it.formatterOver logger.formatter) := by
  rw [← map_appender_iff]
  constructor
  · exact fun follows => follows.appenders
  · intro appenders
    refine ⟨rfl, ?_, appenders⟩
    rintro ⟨nonempty, readable⟩
    have own : ¬(it.formatter = [] ∨ (LogFormatter.new it.formatter).ifError = true) := by
      simp [nonempty, readable]
    exact if_neg own

/-- The program goes on, and the loggers in the value are what their definers say. -/
def Configured : Except Fault LogConfig → Prop
  | .ok config => ∀ it ∈ config.val, ∃ logger,
      config.manager.loggerOf it.name = some logger ∧ Follows it logger
  | .error _ => False

inductive Call
  | loadFromYaml (root : Node)
  | getLogger (name : Text)

def execute (yaml : Yaml) (registry : Config Val) (logs : VarId) (config : LogConfig) :
    Call → Except Fault LogConfig
  | .loadFromYaml root => loadFromYaml yaml registry logs config root
  | .getLogger name => .ok { config with manager := (config.manager.getLogger name).1 }

def outcomeMachine (yaml : Yaml) (registry : Config Val) (logs : VarId) :
    Machine (Except Fault LogConfig) Call where
  step
    | .ok config, call => some (execute yaml registry logs config call)
    | .error _, _ => none

/-- In the last of the values no appender names another formatter than the one that the
values leave its logger with. -/
def AgreesLast (config : LogConfig) (vals : List LogDefiners) : Prop :=
  ∀ val, vals.getLast? = some val → ∀ it ∈ val,
    Agrees it (formatterAfter (definersFor vals it.name)
      (config.manager.base config.val it.name).formatter)

/-- Of the values that the document gives, each has the names of the one before it, and the
appenders of the last one write in the formats of their loggers. -/
def KeepsGiven (yaml : Yaml) (registry : Config Val) (logs : VarId) :
    Except Fault LogConfig → Call → Prop
  | .ok config, .loadFromYaml root =>
      KeepsNames config.val (given yaml registry logs root) ∧
        AgreesLast config (given yaml registry logs root)
  | .ok _, .getLogger _ | .error _, _ => True

variable {yaml : Yaml} {registry : Config Val} {logs : VarId}

theorem loadFromYaml_of_keeps (tracked : config.Tracked) {root : Node}
    (keeps : KeepsNames config.val (given yaml registry logs root)) :
    ∃ final, loadFromYaml yaml registry logs config root = .ok final ∧ final.Tracked ∧
      final.val = (given yaml registry logs root).getLast?.getD config.val ∧
      ∀ name, final.manager.loggerOf name =
        loggerAfter config (given yaml registry logs root) name := by
  rw [loadFromYaml_eq]
  exact setAll_of_keeps tracked (fun _ isGiven => allValid_of_given isGiven) keeps

theorem loadFromYaml_of_gone (tracked : config.Tracked) {root : Node}
    (gone : ¬KeepsNames config.val (given yaml registry logs root)) :
    loadFromYaml yaml registry logs config root = .error .endIterator := by
  rw [loadFromYaml_eq]
  exact setAll_of_gone tracked (fun _ isGiven => allValid_of_given isGiven) gone

def Kept : Except Fault LogConfig → Prop
  | .ok config => config.Tracked
  | .error fault => fault = .endIterator

theorem kept_execute (tracked : config.Tracked) (call : Call) :
    Kept (execute yaml registry logs config call) := by
  cases call with
  | getLogger name => exact tracked.getLogger name
  | loadFromYaml root =>
      rw [execute]
      by_cases keeps : KeepsNames config.val (given yaml registry logs root)
      · rcases loadFromYaml_of_keeps tracked keeps with ⟨final, loaded, finalTracked, -⟩
        rw [loaded]
        exact finalTracked
      · rw [loadFromYaml_of_gone tracked keeps]
        rfl

theorem kept_step {before next : Except Fault LogConfig} {call : Call} (kept : Kept before)
    (stepped : (outcomeMachine yaml registry logs).step before call = some next) :
    Kept next := by
  cases before with
  | error fault => cases stepped
  | ok config =>
      cases stepped
      exact kept_execute kept call

theorem configured_after_iff {final : LogConfig} (configured : Configured (.ok config))
    (last : final.val = vals.getLast?.getD config.val)
    (loggers : ∀ name, final.manager.loggerOf name = loggerAfter config vals name) :
    Configured (.ok final) ↔ AgreesLast config vals := by
  rcases List.eq_nil_or_concat' vals with rfl | ⟨before, val, rfl⟩
  · refine iff_of_true (fun it member => ?_) fun val isLast => by cases isLast
    rw [last] at member
    rw [loggers]
    exact configured it member
  · have isLast : (before ++ [val]).getLast? = some val := List.getLast?_concat
    rw [isLast, Option.getD_some] at last
    have its : ∀ it ∈ val,
        definersFor (before ++ [val]) it.name = definersFor before it.name ++ [it] := by
      intro it member
      rw [definersFor, List.filterMap_append, definersFor]
      exact congrArg _ (definersFor_cons_some (Ordered.find?_of_mem member) [])
    have logger : ∀ it ∈ val, final.manager.loggerOf it.name = some (it.over
        (overAll (definersFor before it.name) (config.manager.base config.val it.name))) := by
      intro it member
      rw [loggers, loggerAfter, its it member, ← overAll_append]
      cases appended : definersFor before it.name ++ [it] with
      | nil => exact absurd appended (by simp)
      | cons first rest => rfl
    have formatter : ∀ it ∈ val, it.formatterOver (overAll (definersFor before it.name)
          (config.manager.base config.val it.name)).formatter =
        formatterAfter (definersFor (before ++ [val]) it.name)
          (config.manager.base config.val it.name).formatter := by
      intro it member
      rw [its it member, (overAll_kept _ _).2.2, formatterAfter, formatterAfter,
        List.foldl_append]
      rfl
    rw [AgreesLast, Configured, last, isLast]
    simp only [Option.some.injEq, forall_eq']
    refine forall₂_congr fun it member => ?_
    rw [logger it member, ← formatter it member, ← follows_over_iff]
    simp

theorem configured_execute_iff (tracked : config.Tracked)
    (configured : Configured (.ok config)) (call : Call) :
    Configured (execute yaml registry logs config call) ↔
      KeepsGiven yaml registry logs (.ok config) call := by
  cases call with
  | getLogger name =>
      simp only [KeepsGiven, iff_true]
      intro it member
      rw [tracked.sound.loggerOf_getLogger name (tracked.holds it member)]
      exact configured it member
  | loadFromYaml root =>
      rw [KeepsGiven, execute]
      by_cases keeps : KeepsNames config.val (given yaml registry logs root)
      · rcases loadFromYaml_of_keeps tracked keeps with ⟨final, loaded, -, last, loggers⟩
        rw [loaded, configured_after_iff configured last loggers]
        exact (and_iff_right keeps).symm
      · rw [loadFromYaml_of_gone tracked keeps]
        exact iff_of_false id fun both => keeps both.1

/-- Whatever documents are loaded, in whatever order and whoever asks for loggers in
between, the program goes on with the loggers as the last value says exactly if no value
leaves out a name of the one before it and no appender that stays asks for a format of its
own. -/
theorem configured_iff_keeps (yaml : Yaml) (registry : Config Val) (logs : VarId)
    (manager : LoggerManager) (calls : List Call) :
    (outcomeMachine yaml registry logs).Always Configured (.ok (.start manager)) calls ↔
      (outcomeMachine yaml registry logs).StepsMeet (KeepsGiven yaml registry logs)
        (.ok (.start manager)) calls := by
  apply Machine.always_iff_stepsMeet Kept
  · exact fun _ _ _ kept _ _ stepped => kept_step kept stepped
  · intro before call next kept configured stepped
    cases before with
    | error fault => cases stepped
    | ok config =>
        cases stepped
        exact configured_execute_iff kept configured call
  · exact LogConfig.Tracked.start manager
  · simp [Configured, LogConfig.start]

/-- No document makes the callback use an appender or a logger that is not there: all it
can fail at is a name that is gone. -/
theorem endIterator_always (yaml : Yaml) (registry : Config Val) (logs : VarId)
    (manager : LoggerManager) (calls : List Call) :
    (outcomeMachine yaml registry logs).Always
      (fun outcome => ∀ fault, outcome = .error fault → fault = .endIterator)
      (.ok (.start manager)) calls := by
  apply Machine.always_of_invariant Kept
  · exact fun _ _ _ kept stepped => kept_step kept stepped
  · intro outcome kept fault isError
    subst isError
    exact kept
  · exact LogConfig.Tracked.start manager

/-! ## The same document again -/

theorem formatterAfter_cases (its : List LogDefiner) :
    (∀ before, formatterAfter its before = before) ∨
      ∃ formatter, ∀ before, formatterAfter its before = formatter := by
  induction its with
  | nil => exact Or.inl fun _ => rfl
  | cons it its induction =>
      rcases induction with kept | ⟨formatter, renewed⟩
      · by_cases none : it.formatter = [] ∨ (LogFormatter.new it.formatter).ifError = true
        · exact Or.inl fun before => (kept _).trans (if_pos none)
        · exact Or.inr ⟨.new it.formatter, fun before => (kept _).trans (if_neg none)⟩
      · exact Or.inr ⟨formatter, fun before => renewed _⟩

theorem formatterAfter_twice (its : List LogDefiner) (before : LogFormatter) :
    formatterAfter its (formatterAfter its before) = formatterAfter its before := by
  rcases formatterAfter_cases its with kept | ⟨formatter, renewed⟩
  · exact kept _
  · exact (renewed _).trans (renewed _).symm

theorem over_congr (it : LogDefiner) {left right : Logger} (name : left.name = right.name)
    (root : left.root = right.root)
    (formatter : it.formatterOver left.formatter = it.formatterOver right.formatter) :
    it.over left = it.over right := by
  rw [LogDefiner.over, LogDefiner.over, formatter, name, root]

theorem overAll_twice (its : List LogDefiner) (logger : Logger) :
    overAll its (overAll its logger) = overAll its logger := by
  rcases List.eq_nil_or_concat' its with rfl | ⟨before, it, rfl⟩
  · rfl
  · have once := overAll_kept (before ++ [it]) logger
    have again := overAll_kept before (overAll (before ++ [it]) logger)
    have first := overAll_kept before logger
    have split : ∀ formatter, formatterAfter (before ++ [it]) formatter =
        it.formatterOver (formatterAfter before formatter) := by
      intro formatter
      rw [formatterAfter, List.foldl_append]
      rfl
    rw [overAll_append, overAll_append before it logger]
    rw [overAll_append] at once again
    apply over_congr
    · rw [again.1, once.1, first.1]
    · rw [again.2.1, once.2.1, first.2.1]
    · rw [again.2.2, once.2.2, ← split, formatterAfter_twice, split, first.2.2]

theorem find?_last {val : LogDefiners} (keeps : KeepsNames val vals) {name : Text}
    (named : val.find? name ≠ none ∨ definersFor vals name ≠ []) :
    (vals.getLast?.getD val).find? name ≠ none := by
  induction vals generalizing val with
  | nil => exact named.resolve_right (· rfl)
  | cons next vals induction =>
      rcases List.isChain_cons_cons.mp keeps with ⟨kept, rest⟩
      rw [List.getLast?_cons]
      refine induction rest ?_
      by_cases inNext : next.find? name = none
      · refine Or.inr ?_
        rcases named with inVal | later
        · rcases Option.ne_none_iff_exists'.mp inVal with ⟨it, found⟩
          rcases Ordered.find?_eq_some_iff.mp found with ⟨member, rfl⟩
          exact absurd inNext (kept it member)
        · rwa [definersFor_cons_none inNext] at later
      · exact Or.inl inNext

theorem tracked_of_run {manager : LoggerManager} {calls : List Call} {config : LogConfig}
    (ran : (outcomeMachine yaml registry logs).run (.ok (.start manager)) calls =
      some (.ok config)) : config.Tracked := by
  have kept : Kept (.ok config) := by
    refine Machine.run_induction (fun _ _ _ kept stepped => kept_step kept stepped) ?_ ran
    exact LogConfig.Tracked.start manager
  exact kept

theorem keeps_of_loaded (tracked : config.Tracked) {root : Node} {final : LogConfig}
    (loaded : loadFromYaml yaml registry logs config root = .ok final) :
    KeepsNames config.val (given yaml registry logs root) := by
  by_contra gone
  rw [loadFromYaml_of_gone tracked gone] at loaded
  cases loaded

theorem loaded_spec (tracked : config.Tracked) {root : Node} {final : LogConfig}
    (loaded : loadFromYaml yaml registry logs config root = .ok final) :
    final.Tracked ∧ final.val = (given yaml registry logs root).getLast?.getD config.val ∧
      ∀ name, final.manager.loggerOf name =
        loggerAfter config (given yaml registry logs root) name := by
  rcases loadFromYaml_of_keeps tracked (keeps_of_loaded tracked loaded) with
    ⟨after, isAfter, spec⟩
  rw [loaded] at isAfter
  cases isAfter
  exact spec

/-- A document that has been loaded can be loaded once more if it gives `logs` one value at
most, and loading it once more leaves the value and every logger as they are. -/
theorem reload_same (yaml : Yaml) (registry : Config Val) (logs : VarId)
    (manager : LoggerManager) {calls : List Call} {root : Node} {before once : LogConfig}
    (ran : (outcomeMachine yaml registry logs).run (.ok (.start manager)) calls =
      some (.ok before))
    (loaded : loadFromYaml yaml registry logs before root = .ok once) :
    ((given yaml registry logs root).length ≤ 1 →
        ∃ twice, loadFromYaml yaml registry logs once root = .ok twice) ∧
      ∀ twice, loadFromYaml yaml registry logs once root = .ok twice →
        twice.val = once.val ∧
          ∀ name, twice.manager.loggerOf name = once.manager.loggerOf name := by
  have tracked := tracked_of_run ran
  have keeps := keeps_of_loaded tracked loaded
  rcases loaded_spec tracked loaded with ⟨onceTracked, onceVal, onceLoggers⟩
  constructor
  · intro single
    have keepsAgain : KeepsNames once.val (given yaml registry logs root) := by
      rw [onceVal]
      cases values : given yaml registry logs root with
      | nil => exact .singleton _
      | cons val rest =>
          rw [values] at single
          have alone : rest = [] := List.length_eq_zero_iff.mp
            (Nat.le_zero.mp (Nat.le_of_succ_le_succ single))
          rw [alone]
          refine .cons_cons (fun it member => ?_) (.singleton _)
          exact fun missing => Ordered.find?_eq_none_iff.mp missing it member rfl
    rcases loadFromYaml_of_keeps onceTracked keepsAgain with ⟨twice, loadedAgain, -⟩
    exact ⟨twice, loadedAgain⟩
  · intro twice loadedAgain
    rcases loaded_spec onceTracked loadedAgain with ⟨-, twiceVal, twiceLoggers⟩
    constructor
    · rw [twiceVal, onceVal]
      cases (given yaml registry logs root).getLast? <;> rfl
    · intro name
      have isOnce := onceLoggers name
      rw [twiceLoggers, loggerAfter]
      rw [loggerAfter] at isOnce
      have named : before.val.find? name ≠ none ∨
          definersFor (given yaml registry logs root) name ≠ [] → _ := find?_last keeps
      rw [← onceVal] at named
      cases its : definersFor (given yaml registry logs root) name with
      | nil => rfl
      | cons it rest =>
          rw [its] at isOnce named
          have isBase : once.manager.base once.val name =
              overAll (it :: rest) (before.manager.base before.val name) := by
            rw [LoggerManager.base, if_neg (named (Or.inr (by simp))), isOnce]
            rfl
          exact (congrArg some (by rw [isBase, overAll_twice])).trans isOnce.symm

theorem reload_same_formatted :
    let entries : Node := .sequence
      [.map [("name".toList, .scalar ['a']), ("formatter_".toList, .scalar "%m".toList)]]
    let yaml := oneLogger entries "- name: a\n  formatter_: \"%m\"".toList
    let registry : Config fun _ : Unit => LogDefiners :=
      Config.empty.enter "logs".toList (by decide) ⟨(), .new "logs".toList ∅ []⟩
    let root : Node := .map [("logs".toList, entries)]
    ∃ before once twice, (outcomeMachine yaml registry 0).run (.ok (.start .empty))
        [.getLogger ['b']] = some (.ok before) ∧
      loadFromYaml yaml registry 0 before root = .ok once ∧
      loadFromYaml yaml registry 0 once root = .ok twice ∧ once.val.toList.length = 1 ∧
      twice.val = once.val ∧
      ∀ name, twice.manager.loggerOf name = once.manager.loggerOf name := by
  intro entries yaml registry root
  have loads : ∃ before once, (outcomeMachine yaml registry 0).run (.ok (.start .empty))
        [.getLogger ['b']] = some (.ok before) ∧
      loadFromYaml yaml registry 0 before root = .ok once ∧ once.val.toList.length = 1 :=
    ⟨_, _, rfl, rfl, rfl⟩
  rcases loads with ⟨before, once, ran, loaded, single⟩
  have reloads := reload_same yaml registry 0 .empty ran loaded
  rcases reloads.1 (by decide) with ⟨twice, loadedAgain⟩
  exact ⟨before, once, twice, ran, loaded, loadedAgain, single, reloads.2 twice loadedAgain⟩

end Sylar.Assembly.LogSettings
