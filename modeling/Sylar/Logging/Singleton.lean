import Sylar.Foundation.Machine
import Sylar.Logging.Delivery

/-! # Log statements on one shared logger

All statements on a `SingletonLogger` of one level and one class of appenders share its
logger. A statement writes its name into the logger where it begins, and what the line says
is read from the logger where the statement ends. In between the arguments are streamed,
which may run other statements, and other threads run theirs.
-/

namespace Sylar.Logging

open Foundation

/-! ## The logger -/

def Logger.setName (logger : Logger) (name : Text) : Logger :=
  { logger with name := name }

/-- `SingletonLogger<level, Appender>`, with what `level_` of the new appender happens to be:
nobody assigns it. -/
structure SingletonLogger where
  level : Level
  stream : Stream
  threshold : Level

namespace SingletonLogger

def init (shared : SingletonLogger) : Logger :=
  ((Logger.new "root".toList).addAppender
    { stream := shared.stream, level := some shared.threshold }).setLevel shared.level

/-- The argument of `getInstence`, and the name that the form without one stands for. -/
def nameOf (name : Option Text) : Text :=
  name.getD "root".toList

/-- `getInstence` makes the logger where there is none and overwrites its name. -/
def getInstence (shared : SingletonLogger) (value : Option Logger) (name : Option Text) : Logger :=
  (value.getD shared.init).setName (nameOf name)

def log (strftime : Text → Int → Text) (value : Logger) (event : LogEvent) :
    Except Fault (List Write) :=
  if value.level ≤ event.level then
    if value.appenders = [] then .error .nullRoot
    else
      LogAppender.logAll { strftime := strftime, loggerName := value.name } event.level event
        value.appenders
  else .ok []

/-! ## Statements, part by part -/

/-- `SYLAR_LOG_LEVEL(logger, level)`, where the logger is given by a name or is the root. -/
structure Statement where
  given : Option Text
  level : Level
deriving DecidableEq, Repr

def Statement.name (statement : Statement) : Text :=
  nameOf statement.given

/-- A statement that has passed the test of its level, before and after its `LogWrap` is
constructed. -/
inductive Opened
  | passed (statement : Statement)
  | wrapped (statement : Statement) (event : LogEvent)

/-- A line, with the statement that has produced it and what `LoggerNameFormatItem` has
written into it. -/
structure Line where
  statement : Statement
  loggerName : Text
  write : Write

structure State where
  value : Option Logger := none
  /-- The statements that a thread is in, the innermost first. -/
  opened : Nat → List Opened := fun _ => []
  written : List Line := []

inductive Label
  | test (thread : Nat) (statement : Statement)
  | wrap (thread : Nat) (statement : Statement) (event : LogEvent)
  | stream (thread : Nat) (content : Text)
  | write (thread : Nat) (statement : Statement)

namespace State

def setOpened (state : State) (thread : Nat) (opened : List Opened) : State :=
  { state with opened := Function.update state.opened thread opened }

/-- `if(level>=logger->getLevel())`. A thread can come to a statement at any time, also from
within the arguments of another. -/
def test (shared : SingletonLogger) (state : State) (thread : Nat) (statement : Statement) :
    State :=
  let value := shared.getInstence state.value statement.given
  let named := { state with value := some value }
  if value.level ≤ statement.level then
    named.setOpened thread (.passed statement :: state.opened thread)
  else named

/-- `LogWrap(LogEvent::ptr(new LogEvent(logger,level,...)))`: the logger is obtained once
more. -/
def wrap (shared : SingletonLogger) (state : State) (thread : Nat) (statement : Statement)
    (event : LogEvent) : Option State :=
  match state.opened thread with
  | .passed top :: rest =>
      if top = statement then
        let value := shared.getInstence state.value statement.given
        some (State.setOpened { state with value := some value } thread
          (.wrapped statement { event with level := statement.level, content := [] } :: rest))
      else none
  | _ => none

def stream (state : State) (thread : Nat) (content : Text) : Option State :=
  match state.opened thread with
  | .wrapped statement event :: rest =>
      some (state.setOpened thread
        (.wrapped statement { event with content := event.content ++ content } :: rest))
  | _ => none

def write (strftime : Text → Int → Text) (state : State) (thread : Nat)
    (statement : Statement) : Option State :=
  match state.opened thread, state.value with
  | .wrapped top event :: rest, some value =>
      if top = statement then
        match log strftime value event with
        | .ok writes =>
            let lines := writes.map fun write =>
              { statement := statement
                loggerName :=
                  FormatItem.loggerName.format strftime value.name event.level event
                write := write }
            some (State.setOpened { state with written := state.written ++ lines } thread rest)
        | .error _ => none
      else none
  | _, _ => none

theorem wrap_cases {shared : SingletonLogger} {state next : State} {thread : Nat}
    {statement : Statement} {event : LogEvent}
    (stepped : state.wrap shared thread statement event = some next) :
    ∃ rest, state.opened thread = .passed statement :: rest ∧ next =
      State.setOpened { state with value := some (shared.getInstence state.value statement.given) }
        thread
        (.wrapped statement { event with level := statement.level, content := [] } :: rest) := by
  rw [wrap] at stepped
  split at stepped
  · next top rest isOpened =>
      split at stepped
      · next same =>
          cases stepped
          exact ⟨rest, same ▸ isOpened, rfl⟩
      · cases stepped
  · cases stepped

theorem stream_cases {state next : State} {thread : Nat} {content : Text}
    (stepped : state.stream thread content = some next) :
    ∃ statement event rest, state.opened thread = .wrapped statement event :: rest ∧ next =
      state.setOpened thread
        (.wrapped statement { event with content := event.content ++ content } :: rest) := by
  rw [stream] at stepped
  split at stepped
  · next statement event rest isOpened =>
      cases stepped
      exact ⟨statement, event, rest, isOpened, rfl⟩
  · cases stepped

theorem write_cases {strftime : Text → Int → Text} {state next : State} {thread : Nat}
    {statement : Statement} (stepped : state.write strftime thread statement = some next) :
    ∃ event rest value writes, state.opened thread = .wrapped statement event :: rest ∧
      state.value = some value ∧ log strftime value event = .ok writes ∧ next =
        State.setOpened
          { state with
            written := state.written ++ writes.map fun write =>
              { statement := statement, loggerName := value.name, write := write } }
          thread rest := by
  rw [write] at stepped
  split at stepped
  · next top event rest value isOpened isValue =>
      split at stepped
      · next same =>
          split at stepped
          · next writes logged =>
              cases stepped
              exact ⟨event, rest, value, writes, same ▸ isOpened, isValue, logged, rfl⟩
          · cases stepped
      · cases stepped
  · cases stepped

end State

def machine (strftime : Text → Int → Text) (shared : SingletonLogger) :
    Machine State Label where
  step state
    | .test thread statement => some (state.test shared thread statement)
    | .wrap thread statement event => state.wrap shared thread statement event
    | .stream thread content => state.stream thread content
    | .write thread statement => state.write strftime thread statement

/-! ## The name a statement gives -/

def appender (shared : SingletonLogger) : LogAppender where
  stream := shared.stream
  level := some shared.threshold
  formatter := some .default

def Label.obtains : Label → Option Text
  | .test _ statement | .wrap _ statement _ => some statement.name
  | .stream _ _ | .write _ _ => none

/-- The name with which the logger was obtained last, at first or in one of the parts. -/
def lastName (first : Option Text) (labels : List Label) : Option Text :=
  labels.foldl (fun last label => label.obtains.or last) first

def Line.Own (line : Line) : Prop :=
  line.loggerName = line.statement.name

def Opened.Admitted (shared : SingletonLogger) : Opened → Prop
  | .passed statement => shared.level ≤ statement.level
  | .wrapped statement event => shared.level ≤ statement.level ∧ event.level = statement.level

structure Carries (shared : SingletonLogger) (last : Option Text) (state : State) : Prop where
  value : state.value = last.map shared.init.setName
  opened : ∀ thread, ∀ opened ∈ state.opened thread, opened.Admitted shared

variable {strftime : Text → Int → Text} {shared : SingletonLogger}

theorem log_eq {event : LogEvent} (name : Text) (level : shared.level ≤ event.level) :
    log strftime (shared.init.setName name) event = .ok
      (([shared.appender].filter (LogAppender.passes event.level)).map
        (LogAppender.written { strftime := strftime, loggerName := name } event.level
          event)) := by
  have ownLevel : (shared.init.setName name).level = shared.level := rfl
  have appenders : (shared.init.setName name).appenders = [shared.appender] := rfl
  rw [log, ownLevel, appenders, if_pos level, if_neg (List.cons_ne_nil _ _)]
  apply LogAppender.logAll_of_assigned
  intro appender member
  rw [List.mem_singleton.mp member]
  exact ⟨rfl, rfl⟩

theorem getInstence_eq (last given : Option Text) :
    shared.getInstence (last.map shared.init.setName) given =
      shared.init.setName (nameOf given) := by
  cases last <;> rfl

theorem Carries.admitted {state : State} {last : Option Text} (carries : Carries shared last state)
    {thread : Nat} {part : Opened} {rest : List Opened}
    (isOpened : state.opened thread = part :: rest) :
    part.Admitted shared ∧ ∀ other ∈ rest, other.Admitted shared := by
  have all := carries.opened thread
  rw [isOpened] at all
  exact List.forall_mem_cons.mp all

theorem Carries.setOpened {state : State} {last : Option Text} (carries : Carries shared last state)
    (thread : Nat) {opened : List Opened} (admitted : ∀ part ∈ opened, part.Admitted shared) :
    Carries shared last (state.setOpened thread opened) where
  value := carries.value
  opened := by
    intro other part member
    change part ∈ Function.update state.opened thread opened other at member
    by_cases same : other = thread
    · rw [same, Function.update_self] at member
      exact admitted part member
    · rw [Function.update_of_ne same] at member
      exact carries.opened other part member

theorem Carries.obtain {state : State} {last : Option Text} (carries : Carries shared last state)
    (given : Option Text) :
    Carries shared (some (nameOf given))
      { state with value := some (shared.getInstence state.value given) } where
  value := by rw [carries.value, getInstence_eq]; rfl
  opened := carries.opened

theorem Carries.step {state next : State} {label : Label} {last : Option Text}
    (carries : Carries shared last state)
    (stepped : (machine strftime shared).step state label = some next) :
    Carries shared (label.obtains.or last) next := by
  cases label with
  | test thread statement =>
      cases stepped
      have obtained := carries.obtain statement.given
      change Carries shared (some statement.name) (state.test shared thread statement)
      rw [State.test]
      split
      · next level =>
          rw [carries.value, getInstence_eq] at level
          exact obtained.setOpened thread
            (List.forall_mem_cons.mpr ⟨level, carries.opened thread⟩)
      · exact obtained
  | wrap thread statement event =>
      rcases State.wrap_cases stepped with ⟨rest, isOpened, rfl⟩
      have admitted := carries.admitted isOpened
      exact (carries.obtain statement.given).setOpened thread
        (List.forall_mem_cons.mpr ⟨⟨admitted.1, rfl⟩, admitted.2⟩)
  | stream thread content =>
      rcases State.stream_cases stepped with ⟨statement, event, rest, isOpened, rfl⟩
      have admitted := carries.admitted isOpened
      exact carries.setOpened thread (List.forall_mem_cons.mpr admitted)
  | write thread statement =>
      rcases State.write_cases stepped with
        ⟨event, rest, value, writes, isOpened, isValue, logged, rfl⟩
      have admitted := carries.admitted isOpened
      have writing : Carries shared last
          { state with
            written := state.written ++ writes.map fun write =>
              { statement := statement, loggerName := value.name, write := write } } :=
        ⟨carries.value, carries.opened⟩
      exact writing.setOpened thread admitted.2

theorem Carries.written {state next : State} {label : Label} {last : Option Text}
    (carries : Carries shared last state)
    (stepped : (machine strftime shared).step state label = some next) :
    (∀ line ∈ next.written, line.Own) ↔ (∀ line ∈ state.written, line.Own) ∧
      ∀ thread statement, label = .write thread statement →
        shared.appender.passes statement.level = true → last = some statement.name := by
  cases label with
  | test thread statement =>
      cases stepped
      have same : (state.test shared thread statement).written = state.written := by
        rw [State.test]
        split <;> rfl
      simp [same]
  | wrap thread statement event =>
      rcases State.wrap_cases stepped with ⟨rest, -, rfl⟩
      simp [State.setOpened]
  | stream thread content =>
      rcases State.stream_cases stepped with ⟨statement, event, rest, -, rfl⟩
      simp [State.setOpened]
  | write thread statement =>
      rcases State.write_cases stepped with
        ⟨event, rest, value, writes, isOpened, isValue, logged, rfl⟩
      have admitted := carries.admitted isOpened
      rcases admitted.1 with ⟨level, isLevel⟩
      rw [carries.value] at isValue
      rcases Option.map_eq_some_iff.mp isValue with ⟨name, rfl, rfl⟩
      rw [log_eq name (isLevel ▸ level), isLevel] at logged
      cases logged
      by_cases passes : shared.appender.passes statement.level = true
      · simp [State.setOpened, Line.Own, passes, Logger.setName, or_imp, forall_and]
      · simp [State.setOpened, passes]

theorem Carries.own_iff {labels : List Label} {state final : State} {last : Option Text}
    (carries : Carries shared last state)
    (ran : (machine strftime shared).run state labels = some final) :
    (∀ line ∈ final.written, line.Own) ↔ (∀ line ∈ state.written, line.Own) ∧
      ∀ index thread statement, labels[index]? = some (.write thread statement) →
        shared.appender.passes statement.level = true →
        lastName last (labels.take index) = some statement.name := by
  induction labels generalizing state last with
  | nil =>
      cases ran
      simp
  | cons label rest induction =>
      rcases Option.bind_eq_some_iff.mp ran with ⟨next, stepped, restRan⟩
      rw [induction (carries.step stepped) restRan, carries.written stepped, and_assoc]
      apply and_congr_right
      intro _
      constructor
      · rintro ⟨here, others⟩ index thread statement isWrite passes
        cases index with
        | zero => exact here thread statement (Option.some.inj isWrite) passes
        | succ index => exact others index thread statement isWrite passes
      · intro all
        constructor
        · rintro thread statement rfl passes
          exact all 0 thread statement rfl passes
        · exact fun index => all (index + 1)

/-- Every line carries the name of its statement exactly if, wherever a statement writes, the
logger was obtained last by this statement or by another one with its name. -/
theorem own_names_iff (strftime : Text → Int → Text) (shared : SingletonLogger)
    {labels : List Label} {final : State}
    (ran : (machine strftime shared).run {} labels = some final) :
    (∀ line ∈ final.written, line.Own) ↔
      ∀ index thread statement, labels[index]? = some (.write thread statement) →
        shared.appender.passes statement.level = true →
        lastName none (labels.take index) = some statement.name := by
  have start : Carries shared none {} := ⟨rfl, fun _ _ member => absurd member List.not_mem_nil⟩
  rw [start.own_iff ran]
  exact and_iff_right fun _ member => absurd member List.not_mem_nil

theorem own_names_iff_flat :
    let shared : SingletonLogger := { level := .DEBUG, stream := .stdout, threshold := .UNKNOW }
    let a : Statement := { given := some ['a'], level := .DEBUG }
    let root : Statement := { given := none, level := .INFO }
    let event := LoggerManager.infoEvent
    let labels : List Label :=
      [.test 0 a, .wrap 0 a event, .write 0 a, .test 1 root, .wrap 1 root event,
        .test 1 root, .wrap 1 root event, .write 1 root, .write 1 root]
    ∃ final, (machine (fun _ _ => []) shared).run {} labels = some final ∧
      final.written.length = 3 ∧ ∀ line ∈ final.written, line.Own := by
  intro shared a root event labels
  have ran : (machine (fun _ _ => []) shared).run {} labels = some _ := rfl
  refine ⟨_, ran, rfl, (own_names_iff _ shared ran).mpr ?_⟩
  intro index thread statement isWrite _
  match index with
  | 2 | 7 | 8 => cases isWrite; rfl
  | 0 | 1 | 3 | 4 | 5 | 6 | _ + 9 => cases isWrite

/-- A statement with the name b within the arguments of one with the name a. -/
theorem own_names_iff_nested :
    let shared : SingletonLogger := { level := .DEBUG, stream := .stdout, threshold := .UNKNOW }
    let a : Statement := { given := some ['a'], level := .DEBUG }
    let b : Statement := { given := some ['b'], level := .DEBUG }
    let event := LoggerManager.infoEvent
    ∃ final, (machine (fun _ _ => []) shared).run {}
        [.test 0 a, .wrap 0 a event, .test 0 b, .wrap 0 b event, .write 0 b, .write 0 a] =
          some final ∧
      final.written.map (fun line => (line.statement.name, line.loggerName)) =
        [(['b'], ['b']), (['a'], ['b'])] ∧
      ¬∀ line ∈ final.written, line.Own := by
  intro shared a b event
  refine ⟨_, rfl, rfl, ?_⟩
  intro own
  have last := own _ (List.mem_cons_of_mem _ List.mem_cons_self)
  cases last

end SingletonLogger

end Sylar.Logging
