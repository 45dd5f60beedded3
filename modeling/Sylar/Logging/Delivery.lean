import Mathlib.Data.List.Flatten
import Sylar.Logging.Logger

/-! # Who gets an event

An event goes to the appenders of every logger of the table that lets it pass, or to
those of the `root_` of a logger without any. Each appender has a threshold of its own;
`StdoutAppender` and `FileAppender` do not agree on what it means to reach it.
-/

namespace Sylar.Logging

open Foundation

theorem flatMap_eq_iff_of_sublist {α : Type u} {β : Type v} {entries : List α}
    {part whole : α → List β} (parts : ∀ entry ∈ entries, (part entry).Sublist (whole entry)) :
    entries.flatMap part = entries.flatMap whole ↔
      ∀ entry ∈ entries, part entry = whole entry := by
  induction entries with
  | nil => simp
  | cons entry rest induction =>
      rcases List.forall_mem_cons.mp parts with ⟨here, others⟩
      rw [List.flatMap_cons, List.flatMap_cons, List.forall_mem_cons, ← induction others]
      constructor
      · intro same
        have lengths := congrArg List.length same
        have restPart := List.Sublist.flatMap_right rest others
        have hereLength := here.length_le
        have restLength := restPart.length_le
        simp only [List.length_append] at lengths
        exact ⟨here.eq_of_length (by omega), restPart.eq_of_length (by omega)⟩
      · intro same
        rw [same.1, same.2]

/-! ## The text of an event -/

theorem LogFormatter.format_mark (strftime : Text → Int → Text) (formatter : LogFormatter)
    (loggerName : Text) (level : Level) (event : LogEvent) (logger : Option LoggerId) :
    formatter.format strftime loggerName level { event with logger := logger } =
      formatter.format strftime loggerName level event := by
  simp only [LogFormatter.format]
  apply List.flatMap_congr
  intro item _
  cases item <;> rfl

namespace LogAppender

def Assigned (appender : LogAppender) : Prop :=
  appender.level.isSome = true ∧ appender.formatter.isSome = true

def accepts (level : Level) (appender : LogAppender) : Bool :=
  appender.level.any fun threshold => decide (threshold ≤ level)

def passes (level : Level) (appender : LogAppender) : Bool :=
  appender.level.any fun threshold =>
    match appender.stream with
    | .stdout => decide (threshold ≤ level)
    | .file _ => decide (threshold < level)

def written (source : Source) (level : Level) (event : LogEvent) (appender : LogAppender) :
    Write where
  stream := appender.stream
  text := (appender.formatter.getD .default).format source.strftime source.loggerName level
    event

theorem written_mark (source : Source) (level : Level) (event : LogEvent)
    (logger : Option LoggerId) :
    written source level { event with logger := logger } = written source level event := by
  funext appender
  simp only [written, LogFormatter.format_mark]

theorem log_of_assigned {appender : LogAppender} (assigned : appender.Assigned)
    (source : Source) (level : Level) (event : LogEvent) :
    appender.log source level event =
      .ok (([appender].filter (passes level)).map (written source level event)) := by
  rcases Option.isSome_iff_exists.mp assigned.1 with ⟨threshold, isThreshold⟩
  rcases Option.isSome_iff_exists.mp assigned.2 with ⟨formatter, isFormatter⟩
  have given : ∀ reached : Bool, passes level appender = reached →
      appender.writes source level event reached =
        .ok (([appender].filter (passes level)).map (written source level event)) := by
    intro reached isReached
    cases reached with
    | true => simp [writes, isReached, isFormatter, written]
    | false => simp [writes, isReached]
  rw [log]
  cases isStream : appender.stream with
  | stdout =>
      simp only [logStdout, isThreshold]
      exact given _ (by simp [passes, isThreshold, isStream])
  | file fileName =>
      simp only [logFile, isThreshold]
      exact given _ (by simp [passes, isThreshold, isStream])

theorem logAll_of_assigned {appenders : List LogAppender}
    (assigned : ∀ appender ∈ appenders, appender.Assigned) (source : Source)
    (level : Level) (event : LogEvent) :
    logAll source level event appenders =
      .ok ((appenders.filter (passes level)).map (written source level event)) := by
  induction appenders with
  | nil => rfl
  | cons appender rest induction =>
      rcases List.forall_mem_cons.mp assigned with ⟨here, others⟩
      rw [logAll, log_of_assigned here source level event, induction others]
      change Except.ok _ = _
      rw [← List.map_append, ← List.filter_append]
      rfl

theorem accepts_of_passes {level : Level} {appender : LogAppender}
    (pass : passes level appender = true) : accepts level appender = true := by
  rcases (Option.any_eq_true ..).mp pass with ⟨threshold, isThreshold, below⟩
  refine (Option.any_eq_true ..).mpr ⟨threshold, isThreshold, ?_⟩
  split at below
  · exact below
  · exact decide_eq_true (Nat.le_of_lt (of_decide_eq_true below))

def Borders (level : Level) (appender : LogAppender) : Prop :=
  (∃ fileName, appender.stream = .file fileName) ∧ appender.level = some level

theorem borders_iff {level : Level} {appender : LogAppender} :
    Borders level appender ↔
      accepts level appender = true ∧ passes level appender = false := by
  cases isLevel : appender.level with
  | none => simp [Borders, accepts, isLevel]
  | some threshold =>
      cases isStream : appender.stream with
      | stdout => simp [Borders, accepts, passes, isLevel, isStream]
      | file fileName =>
          have border : threshold = level ↔ threshold ≤ level ∧ ¬threshold < level := by
            constructor
            · intro same
              subst same
              exact ⟨Nat.le_refl _, Nat.lt_irrefl _⟩
            · intro between
              exact Level.value_injective
                (Nat.le_antisymm between.1 (Nat.not_lt.mp between.2))
          simpa [Borders, accepts, passes, isLevel, isStream] using border

theorem filter_passes_iff {appenders : List LogAppender} (source : Source) (level : Level)
    (event : LogEvent) :
    (appenders.filter (passes level)).map (written source level event) =
        (appenders.filter (accepts level)).map (written source level event) ↔
      ∀ appender ∈ appenders, ¬Borders level appender := by
  have part : (appenders.filter (passes level)).Sublist (appenders.filter (accepts level)) :=
    List.monotone_filter_right _ fun _ => accepts_of_passes
  constructor
  · intro same appender member borders
    rcases borders_iff.mp borders with ⟨accepted, notPassed⟩
    have lengths := congrArg List.length same
    rw [List.length_map, List.length_map] at lengths
    have isAccepted := List.mem_filter.mpr ⟨member, accepted⟩
    rw [← part.eq_of_length lengths] at isAccepted
    rw [(List.mem_filter.mp isAccepted).2] at notPassed
    cases notPassed
  · intro clear
    congr 1
    apply List.filter_congr
    intro appender member
    cases passed : passes level appender with
    | true => exact (accepts_of_passes passed).symm
    | false =>
        cases accepted : accepts level appender with
        | true => exact absurd (borders_iff.mpr ⟨accepted, passed⟩) (clear appender member)
        | false => rfl

end LogAppender

namespace LoggerManager

variable {manager : LoggerManager}

/-! ## The recipients -/

/-- The logger whose appenders an event comes to when it is sent to a logger: itself or,
where it has none, its root, as long as the event passes their levels. -/
def reached (manager : LoggerManager) (level : Level) (logger : LoggerId) :
    Option LoggerId :=
  if (manager.objects logger).level ≤ level then
    if (manager.objects logger).appenders = [] then
      (manager.objects logger).root.filter fun root =>
        decide ((manager.objects root).level ≤ level)
    else some logger
  else none

def sentTo (test : LogAppender → Bool) (strftime : Text → Int → Text)
    (manager : LoggerManager) (level : Level) (event : LogEvent) (logger : LoggerId) :
    List Write :=
  match manager.reached level logger with
  | none => []
  | some target =>
      ((manager.objects target).appenders.filter test).map (LogAppender.written
        { strftime := strftime, loggerName := (manager.objects target).name } level event)

/-- What is to be written of an event: logger by logger, one text for each appender
whose threshold it reaches. -/
def due (strftime : Text → Int → Text) (manager : LoggerManager) (level : Level)
    (event : LogEvent) : List Write :=
  manager.loggers.toList.flatMap fun entry =>
    manager.sentTo (LogAppender.accepts level) strftime level event entry.2

/-- Every appender has its threshold and its formatter, and every logger without
appenders a root with some. -/
structure Equipped (manager : LoggerManager) : Prop where
  assigned : ∀ entry ∈ manager.loggers, ∀ appender ∈ (manager.objects entry.2).appenders,
    appender.Assigned
  rooted : ∀ entry ∈ manager.loggers, (manager.objects entry.2).appenders = [] →
    ∃ root, (manager.objects entry.2).root = some root ∧
      (manager.objects root).appenders ≠ [] ∧
      ∀ appender ∈ (manager.objects root).appenders, appender.Assigned

/-- The event comes to no file appender just at its threshold. -/
def Unbordered (manager : LoggerManager) (level : Level) : Prop :=
  ∀ entry ∈ manager.loggers, ∀ target, manager.reached level entry.2 = some target →
    ∀ appender ∈ (manager.objects target).appenders, ¬LogAppender.Borders level appender

/-! ## What is written -/

theorem sentTo_mark (test : LogAppender → Bool) (strftime : Text → Int → Text)
    (level : Level) (event : LogEvent) (logger : LoggerId) (mark : Option LoggerId) :
    manager.sentTo test strftime level { event with logger := mark } logger =
      manager.sentTo test strftime level event logger := by
  simp only [sentTo, LogAppender.written_mark]

theorem logTo_of_appenders {strftime : Text → Int → Text} {level : Level}
    {event : LogEvent} {logger : LoggerId} (depth : Nat)
    (nonempty : (manager.objects logger).appenders ≠ [])
    (assigned : ∀ appender ∈ (manager.objects logger).appenders, appender.Assigned) :
    manager.logTo strftime level event (depth + 1) logger =
      .ok (manager.sentTo (LogAppender.passes level) strftime level event logger) := by
  rw [logTo, sentTo, reached]
  by_cases passes : (manager.objects logger).level ≤ level
  · simp only [if_pos passes, if_neg nonempty]
    exact LogAppender.logAll_of_assigned assigned ..
  · simp only [if_neg passes]

theorem Equipped.logLogger (equipped : manager.Equipped) {strftime : Text → Int → Text}
    {level : Level} {event : LogEvent} {entry : Text × LoggerId}
    (member : entry ∈ manager.loggers) :
    manager.logLogger strftime level event entry.2 =
      .ok (manager.sentTo (LogAppender.passes level) strftime level event entry.2) := by
  by_cases noAppenders : (manager.objects entry.2).appenders = []
  · rcases equipped.rooted entry member noAppenders with
      ⟨root, isRoot, nonempty, assigned⟩
    have rootSends : manager.logTo strftime level event (manager.created + 1) root =
        .ok (manager.sentTo (LogAppender.passes level) strftime level event root) :=
      logTo_of_appenders manager.created nonempty assigned
    rw [LoggerManager.logLogger, logTo, sentTo, reached]
    by_cases passes : (manager.objects entry.2).level ≤ level
    · simp only [if_pos passes, if_pos noAppenders, isRoot]
      rw [rootSends, sentTo, reached]
      by_cases rootPasses : (manager.objects root).level ≤ level
      · simp [Option.filter, rootPasses, nonempty]
      · simp [Option.filter, rootPasses]
    · simp only [if_neg passes]
  · exact logTo_of_appenders _ noAppenders (equipped.assigned entry member)

theorem Equipped.logEntries (equipped : manager.Equipped) {strftime : Text → Int → Text}
    {level : Level} {event : LogEvent} {entries : List (Text × LoggerId)}
    (members : ∀ entry ∈ entries, entry ∈ manager.loggers) :
    manager.logEntries strftime level event entries =
      .ok (entries.flatMap fun entry =>
        manager.sentTo (LogAppender.passes level) strftime level event entry.2) := by
  induction entries generalizing event with
  | nil => rfl
  | cons entry rest induction =>
      rcases List.forall_mem_cons.mp members with ⟨here, others⟩
      rw [LoggerManager.logEntries, equipped.logLogger here, induction others]
      simp only [sentTo_mark]
      rfl

/-- An event is written by exactly the appenders whose threshold it reaches, once each
and in order, exactly if it comes to no file appender just at its threshold. -/
theorem log_eq_due_iff (equipped : manager.Equipped) (strftime : Text → Int → Text)
    (level : Level) (event : LogEvent) :
    manager.log strftime level event = .ok (manager.due strftime level event) ↔
      manager.Unbordered level := by
  have logs : manager.log strftime level event = .ok (manager.loggers.toList.flatMap
      fun entry => manager.sentTo (LogAppender.passes level) strftime level event entry.2) :=
    equipped.logEntries fun entry member => member
  have parts : ∀ entry ∈ manager.loggers.toList,
      (manager.sentTo (LogAppender.passes level) strftime level event entry.2).Sublist
        (manager.sentTo (LogAppender.accepts level) strftime level event entry.2) := by
    intro entry _
    rw [sentTo, sentTo]
    split
    · exact List.Sublist.slnil
    · exact (List.monotone_filter_right _ fun _ => LogAppender.accepts_of_passes).map _
  rw [logs, Except.ok.injEq, due, flatMap_eq_iff_of_sublist parts, Unbordered]
  apply forall_congr'
  intro entry
  apply imp_congr_right
  intro _
  rw [sentTo, sentTo]
  cases isReached : manager.reached level entry.2 with
  | none => simp
  | some target => simp [LogAppender.filter_passes_iff]

def single (appender : LogAppender) : LoggerManager :=
  (empty.allocate { Logger.new ['a'] with appenders := [appender] }).addLogger ['a'] 0

theorem equipped_single {appender : LogAppender} (assigned : appender.Assigned) :
    (single appender).Equipped where
  assigned entry member other otherMember := by
    rw [List.mem_singleton.mp member] at otherMember
    rw [List.mem_singleton.mp otherMember]
    exact assigned
  rooted entry member noAppenders := by
    rw [List.mem_singleton.mp member] at noAppenders
    cases noAppenders

def infoEvent : LogEvent where
  file := []
  elapse := 0
  line := 1
  threadId := 1
  fiberId := 0
  time := 0
  content := "text".toList
  level := .INFO
  threadName := []

theorem log_eq_due_iff_stdout :
    let appender : LogAppender :=
      { stream := .stdout, level := some .INFO, formatter := some (.new "%m".toList) }
    (single appender).log (fun _ _ => []) .INFO infoEvent =
        .ok ((single appender).due (fun _ _ => []) .INFO infoEvent) ∧
      (single appender).due (fun _ _ => []) .INFO infoEvent =
        [{ stream := .stdout, text := "text".toList }] := by
  intro appender
  refine ⟨(log_eq_due_iff (equipped_single ⟨rfl, rfl⟩) _ _ _).mpr ?_, by decide⟩
  intro entry member target isTarget other otherMember borders
  have isFirst : entry = (['a'], 0) := List.mem_singleton.mp member
  subst isFirst
  have isZero : some 0 = some target := isTarget
  cases isZero
  rw [List.mem_singleton.mp otherMember] at borders
  rcases borders.1 with ⟨fileName, isFile⟩
  cases isFile

/-- To a file it is not. -/
theorem log_eq_due_iff_fails :
    let appender : LogAppender :=
      { stream := .file ['f'], level := some .INFO, formatter := some (.new "%m".toList) }
    (single appender).Equipped ∧
      (single appender).log (fun _ _ => []) .INFO infoEvent ≠
        .ok ((single appender).due (fun _ _ => []) .INFO infoEvent) := by
  intro appender
  refine ⟨equipped_single ⟨rfl, rfl⟩, ?_⟩
  have logs : (single appender).log (fun _ _ => []) .INFO infoEvent = .ok [] := rfl
  have isDue : (single appender).due (fun _ _ => []) .INFO infoEvent =
      [{ stream := .file ['f'], text := "text".toList }] := by decide
  rw [logs, isDue]
  simp

end LoggerManager

end Sylar.Logging
