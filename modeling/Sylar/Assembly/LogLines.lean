import Mathlib.Data.List.Sort
import Sylar.Assembly.LogSettings
import Sylar.Foundation.Simulation
import Sylar.Logging.Safety

/-! # From a document to the lines of the log

When every logger of the table is in the value of `logs`, what is written of an event can
be read off the values that the documents have given.
-/

namespace Sylar.Assembly.LogSettings

open Foundation Logging Settings

variable {Kind : Type} {Val : Kind → Type} {yaml : Yaml} {registry : Config Val} {logs : VarId}
  {config : LogConfig} {vals : List LogDefiners}

def givenBy (yaml : Yaml) (registry : Config Val) (logs : VarId) (_ : Except Fault LogConfig) :
    Call → List LogDefiners
  | .loadFromYaml root => given yaml registry logs root
  | .getLogger _ => []

/-- The program with a record of the values that `logs` has been given. -/
def recording (yaml : Yaml) (registry : Config Val) (logs : VarId) :
    Machine (Except Fault LogConfig × List LogDefiners) Call :=
  (outcomeMachine yaml registry logs).observe (givenBy yaml registry logs)

/-! ## The loggers, from the record -/

theorem definersFor_append (vals later : List LogDefiners) (name : Text) :
    definersFor (vals ++ later) name = definersFor vals name ++ definersFor later name :=
  List.filterMap_append

structure Recorded (config : LogConfig) (vals : List LogDefiners) : Prop where
  tracked : config.Tracked
  last : config.val = vals.getLast?.getD ∅
  named : ∀ name, config.val.find? name = none → definersFor vals name = []
  loggers : ∀ name, config.val.find? name ≠ none →
    config.manager.loggerOf name = some (overAll (definersFor vals name) (.new name))

theorem Recorded.start (manager : LoggerManager) : Recorded (.start manager) [] where
  tracked := LogConfig.Tracked.start manager
  last := rfl
  named _ _ := rfl
  loggers _ named := absurd rfl named

theorem Recorded.getLogger (recorded : Recorded config vals) (name : Text) :
    Recorded { config with manager := (config.manager.getLogger name).1 } vals where
  tracked := recorded.tracked.getLogger name
  last := recorded.last
  named := recorded.named
  loggers other named := by
    rcases Option.ne_none_iff_exists'.mp named with ⟨it, found⟩
    rcases Ordered.find?_eq_some_iff.mp found with ⟨member, rfl⟩
    have same := recorded.tracked.sound.loggerOf_getLogger name (recorded.tracked.holds it member)
    exact same.trans (recorded.loggers it.name named)

theorem Recorded.base (recorded : Recorded config vals) (name : Text) :
    config.manager.base config.val name = overAll (definersFor vals name) (.new name) := by
  rw [LoggerManager.base]
  by_cases unknown : config.val.find? name = none
  · rw [if_pos unknown, recorded.named name unknown]
    rfl
  · rw [if_neg unknown, recorded.loggers name unknown]
    rfl

theorem Recorded.loadFromYaml (recorded : Recorded config vals) {root : Node}
    {final : LogConfig} (loaded : loadFromYaml yaml registry logs config root = .ok final) :
    Recorded final (vals ++ given yaml registry logs root) := by
  have keeps := keeps_of_loaded recorded.tracked loaded
  rcases loaded_spec recorded.tracked loaded with ⟨tracked, isLast, loggers⟩
  have last : final.val = (vals ++ given yaml registry logs root).getLast?.getD ∅ := by
    rw [isLast, recorded.last, List.getLast?_append]
    cases (given yaml registry logs root).getLast? <;> rfl
  refine ⟨tracked, last, fun name unknown => ?_, fun name known => ?_⟩
  · rw [isLast] at unknown
    have never := mt (find?_last keeps) (not_not.mpr unknown)
    rcases not_or.mp never with ⟨before, here⟩
    rw [definersFor_append, recorded.named name (not_not.mp before), not_not.mp here]
    rfl
  · rw [loggers, loggerAfter, definersFor_append]
    cases its : definersFor (given yaml registry logs root) name with
    | nil =>
        -- The last value has the name, so the document has given no value at all.
        have kept : config.val.find? name ≠ none := by
          intro unknown
          rw [isLast] at known
          rcases List.eq_nil_or_concat' (given yaml registry logs root) with none | ⟨_, val, some⟩
          · rw [none] at known
            exact known unknown
          · rw [some, List.getLast?_concat, Option.getD_some] at known
            rw [some, definersFor_append] at its
            rcases Option.ne_none_iff_exists'.mp known with ⟨it, found⟩
            have isDefiner := (List.append_eq_nil_iff.mp its).2
            rw [definersFor_cons_some found] at isDefiner
            cases isDefiner
        rw [List.append_nil]
        exact recorded.loggers name kept
    | cons it rest =>
        rw [recorded.base]
        exact congrArg some List.foldl_append.symm

theorem recorded_always (yaml : Yaml) (registry : Config Val) (logs : VarId)
    (manager : LoggerManager) (calls : List Call) :
    (recording yaml registry logs).Always
      (fun seen => ∀ config, seen.1 = .ok config → Recorded config seen.2)
      (.ok (.start manager), []) calls := by
  apply Machine.always_of_invariant
    fun seen : Except Fault LogConfig × List LogDefiners =>
      ∀ config, seen.1 = .ok config → Recorded config seen.2
  · rintro ⟨outcome, vals⟩ call ⟨after, valsAfter⟩ recorded stepped config isOk
    rcases Option.map_eq_some_iff.mp stepped with ⟨next, moved, isNext⟩
    cases isNext
    cases isOk
    cases outcome with
    | error fault => cases moved
    | ok before =>
        have executed := Option.some.inj moved
        cases call with
        | getLogger name =>
            cases executed
            exact (List.append_nil vals).symm ▸ (recorded before rfl).getLogger name
        | loadFromYaml root => exact (recorded before rfl).loadFromYaml executed
  · exact fun seen recorded => recorded
  · intro config isStart
    cases isStart
    exact Recorded.start manager

/-! ## What is written -/

def formatterOf (vals : List LogDefiners) (it : LogDefiner) : LogFormatter :=
  formatterAfter (definersFor vals it.name) .default

/-- What the logger of a definer writes of an event: nothing below its level, and else one
line for each of its appenders whose class lets the event pass, in the logger's format. -/
def lines (strftime : Text → Int → Text) (level : Level) (event : LogEvent)
    (vals : List LogDefiners) (it : LogDefiner) : List Write :=
  if it.level ≤ level then
    ((it.appenders.map (LogAppenderDefiner.appender (formatterOf vals it))).filter
      (LogAppender.passes level)).map
        (LogAppender.written { strftime := strftime, loggerName := it.name } level event)
  else []

/-- What a definer asks for: a line for each appender whose threshold the event reaches, in
the format that the appender names or else in that of its logger. -/
def asked (strftime : Text → Int → Text) (level : Level) (event : LogEvent)
    (vals : List LogDefiners) (it : LogDefiner) : List Write :=
  if it.level ≤ level then
    ((it.appenders.map fun appender =>
        appender.appender (appender.formatterOver (formatterOf vals it))).filter
      (LogAppender.accepts level)).map
        (LogAppender.written { strftime := strftime, loggerName := it.name } level event)
  else []

/-- No appender names a format other than its logger's, and no file has the level of the
event for its threshold. -/
structure Plain (level : Level) (vals : List LogDefiners) (it : LogDefiner) : Prop where
  format : Agrees it (formatterOf vals it)
  threshold : ∀ appender ∈ it.appenders, appender.type = 2 → appender.level ≠ level

theorem passes_appender {appender : LogAppenderDefiner} {level : Level}
    (off : appender.type = 2 → appender.level ≠ level) (formatter : LogFormatter) :
    LogAppender.passes level (appender.appender formatter) =
      LogAppender.accepts level (appender.appender formatter) := by
  rw [Bool.eq_iff_iff]
  refine ⟨LogAppender.accepts_of_passes, fun accepted => ?_⟩
  by_contra refused
  rcases LogAppender.borders_iff.mpr ⟨accepted, Bool.eq_false_iff.mpr refused⟩ with
    ⟨⟨fileName, isFile⟩, isLevel⟩
  have file : appender.type = 2 := by
    by_contra notFile
    rw [LogAppenderDefiner.appender, if_neg notFile] at isFile
    cases isFile
  exact off file (Option.some.inj isLevel)

theorem lines_eq_asked (strftime : Text → Int → Text) (event : LogEvent) {level : Level}
    {it : LogDefiner} (plain : Plain level vals it) :
    lines strftime level event vals it = asked strftime level event vals it := by
  rw [lines, asked, ← (map_appender_iff it _).mpr plain.format]
  refine congrArg (fun wanted => if it.level ≤ level then List.map _ wanted else []) ?_
  apply List.filter_congr
  intro appender member
  rcases List.mem_map.mp member with ⟨definer, isDefiner, rfl⟩
  exact passes_appender (plain.threshold definer isDefiner) _

theorem Recorded.logger (recorded : Recorded config vals) {it : LogDefiner}
    (member : it ∈ config.val) :
    ∃ logger, config.manager.loggerOf it.name = some logger ∧ logger.name = it.name ∧
      logger.level = it.level ∧
      logger.appenders = it.appenders.map (LogAppenderDefiner.appender (formatterOf vals it)) := by
  have found : config.val.find? it.name = some it := Ordered.find?_of_mem member
  refine ⟨_, recorded.loggers it.name (by simp [found]), ?_⟩
  have kept := overAll_kept (definersFor vals it.name) (.new it.name)
  refine ⟨kept.1, ?_⟩
  rcases List.eq_nil_or_concat' vals with rfl | ⟨before, val, rfl⟩
  · rw [recorded.last] at member
    cases member
  · have isLast : config.val = val := by
      rw [recorded.last, List.getLast?_concat]
      rfl
    rw [isLast] at found
    have its : definersFor (before ++ [val]) it.name = definersFor before it.name ++ [it] := by
      rw [definersFor_append, definersFor_cons_some found]
      rfl
    have isFormatter : (it.over (overAll (definersFor before it.name) (.new it.name))).formatter =
        formatterOf (before ++ [val]) it := by
      rw [← overAll_append, ← its]
      exact kept.2.2
    rw [its, overAll_append]
    exact ⟨rfl, by rw [← isFormatter]; rfl⟩

variable {strftime : Text → Int → Text} {level : Level} {event : LogEvent}

theorem lines_mark (logger : Option LoggerId) :
    lines strftime level { event with logger := logger } vals =
      lines strftime level event vals := by
  funext it
  simp only [lines, LogAppender.written_mark]

theorem Recorded.logLogger (recorded : Recorded config vals) {logger : LoggerId}
    {it : LogDefiner} (member : it ∈ config.val)
    (looksUp : config.manager.lookUp it.name = some logger)
    (supplied : it.level ≤ level → it.appenders ≠ []) :
    config.manager.logLogger strftime level event logger =
      .ok (lines strftime level event vals it) := by
  rcases recorded.logger member with ⟨object, isLogger, name, isLevel, appenders⟩
  rw [LoggerManager.loggerOf_of_lookUp looksUp] at isLogger
  cases isLogger
  by_cases passes : it.level ≤ level
  · have nonempty : (config.manager.objects logger).appenders ≠ [] := by
      rw [appenders]
      simpa using supplied passes
    have assigned : ∀ appender ∈ (config.manager.objects logger).appenders,
        appender.Assigned := by
      intro appender isAppender
      rw [appenders] at isAppender
      rcases List.mem_map.mp isAppender with ⟨definer, -, rfl⟩
      exact ⟨rfl, rfl⟩
    have isReached : config.manager.reached level logger = some logger := by
      rw [LoggerManager.reached, isLevel, if_pos passes, if_neg nonempty]
    rw [LoggerManager.logLogger, LoggerManager.logTo_of_appenders _ nonempty assigned,
      LoggerManager.sentTo, isReached, lines, if_pos passes]
    simp only [name, appenders]
  · rw [LoggerManager.logLogger, LoggerManager.logTo, lines, if_neg passes]
    simp only [isLevel, if_neg passes]

theorem names_eq (tracked : config.Tracked)
    (known : ∀ entry ∈ config.manager.loggers, config.val.find? entry.1 ≠ none) :
    config.manager.loggers.toList.map Prod.fst = config.val.toList.map LogDefiner.name := by
  refine List.Pairwise.eq_of_mem_iff (List.pairwise_map.mpr config.manager.loggers.ascending)
    (List.pairwise_map.mpr config.val.ascending) fun name => ?_
  rw [List.mem_map, List.mem_map]
  constructor
  · rintro ⟨entry, member, rfl⟩
    rcases Option.ne_none_iff_exists'.mp (known entry member) with ⟨it, found⟩
    exact ⟨it, Ordered.find?_eq_some_iff.mp found⟩
  · rintro ⟨it, member, rfl⟩
    have inTable := tracked.holds it member
    rcases Option.isSome_iff_exists.mp inTable with ⟨logger, looksUp⟩
    rcases Option.map_eq_some_iff.mp looksUp with ⟨entry, found, -⟩
    exact ⟨entry, Ordered.find?_eq_some_iff.mp found⟩

theorem Recorded.logEntries (recorded : Recorded config vals)
    (known : ∀ entry ∈ config.manager.loggers, config.val.find? entry.1 ≠ none)
    (supplied : ∀ it ∈ config.val, it.level ≤ level → it.appenders ≠ [])
    {entries : List (Text × LoggerId)}
    (members : ∀ entry ∈ entries, entry ∈ config.manager.loggers) :
    config.manager.logEntries strftime level event entries =
      .ok ((entries.map Prod.fst).flatMap fun name =>
        (config.val.find? name).elim [] (lines strftime level event vals)) := by
  induction entries generalizing event with
  | nil => rfl
  | cons entry rest induction =>
      rcases List.forall_mem_cons.mp members with ⟨here, others⟩
      rcases Option.ne_none_iff_exists'.mp (known entry here) with ⟨it, found⟩
      rcases Ordered.find?_eq_some_iff.mp found with ⟨member, named⟩
      have looksUp := LoggerManager.lookUp_of_mem here
      rw [← named] at looksUp
      rw [LoggerManager.logEntries, recorded.logLogger member looksUp (supplied it member),
        induction others, lines_mark, List.map_cons, List.flatMap_cons, found]
      rfl

theorem Recorded.log (recorded : Recorded config vals)
    (known : ∀ entry ∈ config.manager.loggers, config.val.find? entry.1 ≠ none)
    (supplied : ∀ it ∈ config.val, it.level ≤ level → it.appenders ≠ []) :
    config.manager.log strftime level event =
      .ok (config.val.toList.flatMap (lines strftime level event vals)) := by
  rw [LoggerManager.log, recorded.logEntries known supplied fun entry member => member,
    names_eq recorded.tracked known, List.flatMap_map]
  refine congrArg Except.ok (List.flatMap_congr fun it member => ?_)
  rw [Ordered.find?_of_mem (Ordered.mem_toList.mp member)]
  rfl

/-- An event is written as the values that the documents have given lead to it, and as they
ask for it where the code takes up all that they say. -/
def Logs (seen : Except Fault LogConfig × List LogDefiners) : Prop :=
  ∀ config, seen.1 = .ok config →
    config.val = seen.2.getLast?.getD ∅ ∧
      ((∀ entry ∈ config.manager.loggers, config.val.find? entry.1 ≠ none) →
        ∀ strftime level event,
          (∀ it ∈ config.val, it.level ≤ level → it.appenders ≠ []) →
            config.manager.log strftime level event =
                .ok (config.val.toList.flatMap (lines strftime level event seen.2)) ∧
              ((∀ it ∈ config.val, Plain level seen.2 it) →
                config.manager.log strftime level event =
                  .ok (config.val.toList.flatMap (asked strftime level event seen.2))))

/-- Whatever documents are loaded and whatever loggers are asked for: as long as the table
has only loggers of the last value, and each of them that passes an event has appenders,
the values alone say which lines are written of it, logger by logger in the order of their
names. -/
theorem logs_always (yaml : Yaml) (registry : Config Val) (logs : VarId)
    (manager : LoggerManager) (calls : List Call) :
    (recording yaml registry logs).Always Logs (.ok (.start manager), []) calls := by
  refine (recorded_always yaml registry logs manager calls).mono ?_
  intro seen recorded config isOk
  have record := recorded config isOk
  refine ⟨record.last, fun known strftime level event supplied => ?_⟩
  have logged : config.manager.log strftime level event =
      .ok (config.val.toList.flatMap (lines strftime level event seen.2)) :=
    record.log known supplied
  refine ⟨logged, fun plain => logged.trans (congrArg Except.ok ?_)⟩
  exact List.flatMap_congr fun it member => lines_eq_asked strftime event (plain it member)

/-- A document with one logger, which writes the text of an event to the standard output. -/
example :
    let appender : Node := .map [("type".toList, .scalar "StdoutLogAppender".toList)]
    let entries : Node := .sequence
      [.map [("name".toList, .scalar ['a']), ("formatter_".toList, .scalar "%m".toList),
        ("appenders".toList, .sequence [appender])]]
    let yaml := oneLogger entries "logs".toList
    let registry : Config fun _ : Unit => LogDefiners :=
      Config.empty.enter "logs".toList (by decide) ⟨(), .new "logs".toList ∅ []⟩
    ∃ config, loadFromYaml yaml registry 0 (.start .empty)
        (.map [("logs".toList, entries)]) = .ok config ∧
      config.manager.log (fun _ _ => []) .INFO LoggerManager.infoEvent =
        .ok [{ stream := .stdout, text := "text".toList }] :=
  ⟨_, rfl, rfl⟩

end Sylar.Assembly.LogSettings
