import Sylar.Foundation.Machine
import Sylar.Logging.Logger

/-! # The logs variable and its change callback

The value of the variable is a set of `LogDefiner`s, compared by name. When it is set,
the callback that `Loginit` has registered edits the loggers of the table.
-/

namespace Sylar.Logging

open Foundation

/-! ## Definers -/

structure LogAppenderDefiner where
  type : Int := 0
  formattor : Text := []
  file : Text := []
  level : Level := .UNKNOW
deriving DecidableEq, Repr

structure LogDefiner where
  name : Text := []
  level : Level := .UNKNOW
  appenders : List LogAppenderDefiner := []
  formatter : Text := []
deriving DecidableEq, Repr

abbrev LogDefiners := Ordered LogDefiner.name

/-! ## Applying a definer -/

/-- The appender that the callback makes for its definer. For another type it makes
none and calls `setLevel` on a null pointer. -/
def LogAppenderDefiner.make (val : LogAppenderDefiner) : Except Fault LogAppender :=
  if val.type = 2 then .ok { stream := .file val.file, level := some val.level }
  else if val.type = 1 then .ok { stream := .stdout, level := some val.level }
  else .error .nullAppender

def Logger.addAppenders (logger : Logger) : List LogAppenderDefiner → Except Fault Logger
  | [] => .ok logger
  | val :: rest => do
      let ap ← val.make
      (logger.addAppender ap).addAppenders rest

def Logger.configure (logger : Logger) (it : LogDefiner) : Except Fault Logger :=
  let leveled := logger.setLevel it.level
  let formatted := if it.formatter = [] then leveled else leveled.setFormatter it.formatter
  formatted.clearAppender.addAppenders it.appenders

namespace LoggerManager

def setLogger (manager : LoggerManager) (logger : LoggerId) (object : Logger) :
    LoggerManager :=
  { manager with objects := Function.update manager.objects logger object }

def define (manager : LoggerManager) (oldVal : LogDefiners) (it : LogDefiner) :
    Except Fault LoggerManager :=
  match oldVal.find? it.name with
  | none => do
      let logger ← (Logger.new it.name).configure it
      pure ((manager.allocate logger).addLogger it.name manager.created)
  | some _ =>
      match manager.lookUp it.name with
      | none => .error .nullLogger
      | some logger => do
          let object ← (manager.objects logger).configure it
          pure (manager.setLogger logger object)

def defineAll (oldVal : LogDefiners) :
    List LogDefiner → LoggerManager → Except Fault LoggerManager
  | [], manager => .ok manager
  | it :: rest, manager => do
      let defined ← manager.define oldVal it
      defineAll oldVal rest defined

/-- The second loop of the callback, over the old value. For a name that is gone it
reads `i->name` where `i` is the end of the new value. -/
def removeAll (newVal : LogDefiners) :
    List LogDefiner → LoggerManager → Except Fault LoggerManager
  | [], manager => .ok manager
  | it :: rest, manager =>
      match newVal.find? it.name with
      | some _ => removeAll newVal rest manager
      | none => .error .endIterator

def change (manager : LoggerManager) (oldVal newVal : LogDefiners) :
    Except Fault LoggerManager := do
  let defined ← defineAll oldVal newVal.toList manager
  removeAll newVal oldVal.toList defined

end LoggerManager

/-! ## The variable -/

structure LogConfig where
  val : LogDefiners
  manager : LoggerManager

namespace LogConfig

/-- The variable is registered with an empty set; the table is empty. -/
def start (manager : LoggerManager) : LogConfig where
  val := ∅
  manager := { manager with loggers := ∅ }

/-- `setVal`: the callback first, the value after it. -/
def setVal (config : LogConfig) (val : LogDefiners) : Except Fault LogConfig := do
  let manager ← config.manager.change config.val val
  pure { val := val, manager := manager }

inductive Call
  | setVal (val : LogDefiners)
  | getLogger (name : Text)

def execute (config : LogConfig) : Call → Except Fault LogConfig
  | .setVal val => config.setVal val
  | .getLogger name => .ok { config with manager := (config.manager.getLogger name).1 }

def machine : Machine LogConfig Call where
  step config call := (config.execute call).toOption

def outcomeMachine : Machine (Except Fault LogConfig) Call where
  step
    | .ok config, call => some (config.execute call)
    | .error _, _ => none

end LogConfig

end Sylar.Logging
