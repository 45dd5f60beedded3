import Mathlib.Logic.Function.Basic
import Sylar.Foundation.Ordered
import Sylar.Logging.LogFormatter

/-! # Loggers, appenders and the logger table

`Logger` objects live at addresses; the table and the `root_` pointers refer to them.
An appender belongs to the list of its logger. Every dereference of a null pointer and
every read of a member that nobody has assigned is a fault.
-/

namespace Sylar.Logging

open Foundation

inductive Fault
  | endIterator
  | nullLogger
  | nullAppender
  | nullRoot
  | nullFormatter
  | unassignedLevel
  | recursion
deriving DecidableEq, Repr

/-! ## Appenders -/

inductive Stream
  | stdout
  | file (fileName : Text)
deriving DecidableEq, Repr

/-- A `StdoutAppender` or a `FileAppender`. The constructors leave `level_` alone. -/
structure LogAppender where
  stream : Stream
  level : Option Level := none
  formatter : Option LogFormatter := none
deriving DecidableEq, Repr

structure Write where
  stream : Stream
  text : Text
deriving DecidableEq, Repr

structure Source where
  strftime : Text → Int → Text
  loggerName : Text

namespace LogAppender

def writes (appender : LogAppender) (source : Source) (level : Level) (event : LogEvent)
    (passes : Bool) : Except Fault (List Write) :=
  if passes then
    match appender.formatter with
    | none => .error .nullFormatter
    | some formatter =>
        .ok [{ stream := appender.stream
               text := formatter.format source.strftime source.loggerName level event }]
  else .ok []

def logStdout (appender : LogAppender) (source : Source) (level : Level)
    (event : LogEvent) : Except Fault (List Write) :=
  match appender.level with
  | none => .error .unassignedLevel
  | some threshold => appender.writes source level event (decide (threshold ≤ level))

def logFile (appender : LogAppender) (source : Source) (level : Level)
    (event : LogEvent) : Except Fault (List Write) :=
  match appender.level with
  | none => .error .unassignedLevel
  | some threshold => appender.writes source level event (decide (threshold < level))

def log (appender : LogAppender) (source : Source) (level : Level) (event : LogEvent) :
    Except Fault (List Write) :=
  match appender.stream with
  | .stdout => appender.logStdout source level event
  | .file _ => appender.logFile source level event

def logAll (source : Source) (level : Level) (event : LogEvent) :
    List LogAppender → Except Fault (List Write)
  | [] => .ok []
  | appender :: rest => do
      let first ← appender.log source level event
      let others ← logAll source level event rest
      pure (first ++ others)

end LogAppender

/-! ## Loggers -/

structure Logger where
  name : Text
  level : Level := .DEBUG
  appenders : List LogAppender := []
  formatter : LogFormatter := .default
  root : Option LoggerId := none
deriving DecidableEq, Repr

namespace Logger

def new (name : Text) : Logger where
  name := name

def setLevel (logger : Logger) (level : Level) : Logger :=
  { logger with level := level }

/-- `setFormatter(val)`: a pattern with an error is not taken. -/
def setFormatter (logger : Logger) (val : Text) : Logger :=
  let formatter := LogFormatter.new val
  if formatter.ifError then logger else { logger with formatter := formatter }

def clearAppender (logger : Logger) : Logger :=
  { logger with appenders := [] }

/-- `addAppender`: an appender without a formatter gets the logger's. -/
def addAppender (logger : Logger) (appender : LogAppender) : Logger :=
  { logger with
    appenders := logger.appenders ++
      [{ appender with formatter := some (appender.formatter.getD logger.formatter) }] }

end Logger

/-! ## The table -/

structure LoggerManager where
  objects : LoggerId → Logger
  /-- Addresses from here on are free. -/
  created : Nat
  loggers : Ordered (Prod.fst : Text × LoggerId → Text)
  root : Option LoggerId

namespace LoggerManager

def empty : LoggerManager where
  objects := fun _ => .new "root".toList
  created := 0
  loggers := ∅
  root := none

def allocate (manager : LoggerManager) (logger : Logger) : LoggerManager :=
  { manager with
    objects := Function.update manager.objects manager.created logger
    created := manager.created + 1 }

def construct (manager : LoggerManager) : LoggerManager :=
  { manager.allocate
      ((Logger.new "root".toList).addAppender { stream := .stdout }) with
    root := some manager.created }

def lookUp (manager : LoggerManager) (name : Text) : Option LoggerId :=
  (manager.loggers.find? name).map Prod.snd

def addLogger (manager : LoggerManager) (name : Text) (logger : LoggerId) :
    LoggerManager :=
  { manager with loggers := manager.loggers.assign (name, logger) }

def getLogger (manager : LoggerManager) (name : Text) : LoggerManager × LoggerId :=
  match manager.lookUp name with
  | some logger => (manager, logger)
  | none =>
      ((manager.allocate { Logger.new name with root := manager.root }).addLogger name
        manager.created, manager.created)

/-- `Logger::log`, to a given depth of `root_` pointers. -/
def logTo (strftime : Text → Int → Text) (manager : LoggerManager) (level : Level)
    (event : LogEvent) : Nat → LoggerId → Except Fault (List Write)
  | 0, _ => .error .recursion
  | depth + 1, logger =>
      let self := manager.objects logger
      if self.level ≤ level then
        if self.appenders = [] then
          match self.root with
          | none => .error .nullRoot
          | some root => logTo strftime manager level event depth root
        else
          LogAppender.logAll { strftime := strftime, loggerName := self.name } level event
            self.appenders
      else .ok []

/-- `Logger::log`. A chain of `root_` pointers longer than there are loggers never
ends. -/
def logLogger (strftime : Text → Int → Text) (manager : LoggerManager) (level : Level)
    (event : LogEvent) (logger : LoggerId) : Except Fault (List Write) :=
  manager.logTo strftime level event (manager.created + 2) logger

def logEntries (strftime : Text → Int → Text) (manager : LoggerManager) (level : Level)
    (event : LogEvent) : List (Text × LoggerId) → Except Fault (List Write)
  | [] => .ok []
  | entry :: rest => do
      let sent := { event with logger := some entry.2 }
      let first ← manager.logLogger strftime level sent entry.2
      let others ← manager.logEntries strftime level sent rest
      pure (first ++ others)

def log (strftime : Text → Int → Text) (manager : LoggerManager) (level : Level)
    (event : LogEvent) : Except Fault (List Write) :=
  manager.logEntries strftime level event manager.loggers.toList

end LoggerManager

end Sylar.Logging
