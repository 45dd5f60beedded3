import Sylar.Foundation.LockOrder

/-! # The locks of the program

Which locks each function takes, inside which others, and how often, and which threads it
waits for with `pthread_join`. What it does with the locks in hand is left out, and so is on
which of its ways it goes. No function takes its locks against one order over all of them,
and none joins a thread with a lock in hand, so the threads that call the functions never
deadlock, as long as the change callbacks of variables keep to the order too and no threads
join one another.

Two waits are left out, which end whatever the others do: `epoll_wait` has a timeout, and the
semaphore in the constructor of `Thread` waits for a thread that takes no lock before it
calls `notify`.
-/

namespace Sylar.Threads

open Foundation Foundation.LockOrder

inductive Lock
  /-- `Config::mutex_` -/
  | config
  | valMutex (v : Nat)
  /-- `ConfigVar::mutex_` -/
  | callbacks (v : Nat)
  | timer (timer : Nat)
  | timerManager (manager : Nat)
  | ioManager (manager : Nat)
  | fdContex (contex : Nat)
  | scheduler (manager : Nat)
  | loggerManager
  /-- `SingletonLogger::ponce_`: whoever comes second waits for `init`. -/
  | ponce (logger : Nat)
  | logger (logger : Nat)
  /-- The logger in `LoggerManager::root_`. -/
  | root
  | appender (appender : Nat)
deriving DecidableEq, Repr

def Lock.rank : Lock → Nat
  | .config => 0
  | .valMutex _ => 1
  | .callbacks _ => 2
  | .timer _ => 3
  | .timerManager _ => 4
  | .ioManager _ => 5
  | .fdContex _ => 6
  | .scheduler _ => 7
  | .loggerManager => 8
  | .ponce _ => 9
  | .logger _ => 10
  | .root => 11
  | .appender _ => 12

namespace Locks

def guarded (lock : Lock) (body : Code Lock) : Code Lock :=
  .locked lock .exclusive body

def touch (lock : Lock) : Code Lock :=
  guarded lock .skip

def maybe (code : Code Lock) : Code Lock :=
  .either .skip code

/-! ## Loggers -/

namespace LogAppender

def getFormatter (appender : Nat) : Code Lock :=
  touch (.appender appender)

def setFormatter (appender : Nat) : Code Lock :=
  touch (.appender appender)

/-- A `FileAppender` copies its formatter, a `StdoutAppender` does not. -/
def log (appender : Nat) : Code Lock :=
  maybe (touch (.appender appender))

end LogAppender

namespace Logger

def addAppender (logger : Lock) (appender : Nat) : Code Lock :=
  guarded logger
    (.seq (LogAppender.getFormatter appender) (maybe (LogAppender.setFormatter appender)))

def clearAppender (logger : Nat) : Code Lock :=
  touch (.logger logger)

def deleteAppender (logger : Nat) : Code Lock :=
  touch (.logger logger)

def logRoot : Code Lock :=
  .locked .root .shared (maybe (.loop (.any LogAppender.log)))

def log (logger : Nat) : Code Lock :=
  .locked (.logger logger) .shared
    (maybe (.either (.loop (.any LogAppender.log)) logRoot))

end Logger

namespace LoggerManager

/-- The constructor, which gives the new `root_` an appender. -/
def new : Code Lock :=
  .any (Logger.addAppender .root)

def getInstence : Code Lock :=
  maybe new

def log : Code Lock :=
  .locked .loggerManager .shared (.loop (.any Logger.log))

end LoggerManager

namespace SingletonLogger

def init (logger : Nat) : Code Lock :=
  .any (Logger.addAppender (.logger logger))

def getInstence (logger : Nat) : Code Lock :=
  maybe (guarded (.ponce logger) (init logger))

end SingletonLogger

/-- `LOG_DEBUG` and the others; the destructor of `LogManagerWrap` writes the event. -/
def LOG : Code Lock :=
  .seq LoggerManager.getInstence LoggerManager.log

/-- `SYLAR_LOG_DEBUG` and the others with one of the singletons, which the macro gets once
more for the event; the destructor of `LogWrap` writes it. -/
def SYLAR_LOG : Code Lock :=
  .any fun logger =>
    .seq (SingletonLogger.getInstence logger)
      (maybe (.seq (SingletonLogger.getInstence logger) (Logger.log logger)))

def ASSERT : Code Lock :=
  maybe (.seq (maybe LOG) LOG)

def Loginit.callback : Code Lock :=
  guarded .loggerManager
    (.seq
      (.loop
        (.seq SYLAR_LOG
          (.any fun logger =>
            .seq (Logger.clearAppender logger)
              (.loop (.any (Logger.addAppender (.logger logger)))))))
      (.loop (.seq LoggerManager.getInstence (.any Logger.clearAppender))))

/-! ## Threads -/

namespace Thread

def new : Code Lock :=
  maybe LOG

def join (thread : Nat) : Code Lock :=
  maybe (.seq (.join thread) (maybe LOG))

end Thread

/-! ## Configuration -/

/-- The variables that the program itself has: `system.stack_size_` and `logs`. -/
def Config_Stack_Size_ : Nat := 0

def Log_Config : Nat := 1

namespace ConfigVar

def callback (added : Nat → Code Lock) (v : Nat) : Code Lock :=
  if v = Log_Config then .either Loginit.callback (added v) else added v

def getVal (v : Nat) : Code Lock :=
  touch (.valMutex v)

def setVal (added : Nat → Code Lock) (v : Nat) : Code Lock :=
  guarded (.valMutex v) (.seq (touch (.callbacks v)) (.loop (callback added v)))

def toString : Code Lock :=
  maybe SYLAR_LOG

def fromString (added : Nat → Code Lock) (v : Nat) : Code Lock :=
  .seq (maybe (setVal added v)) (maybe SYLAR_LOG)

def addValChangeCB (v : Nat) : Code Lock :=
  touch (.callbacks v)

def delValChangeCB (v : Nat) : Code Lock :=
  touch (.callbacks v)

def ClearValChangeCB (v : Nat) : Code Lock :=
  touch (.callbacks v)

end ConfigVar

namespace Config

def Lookup : Code Lock :=
  guarded .config (maybe SYLAR_LOG)

def LoadAllNumber : Code Lock :=
  .loop SYLAR_LOG

def LoadFromYaml (added : Nat → Code Lock) : Code Lock :=
  .seq LoadAllNumber (guarded .config (.loop (.any (ConfigVar.fromString added))))

end Config

/-! ## Schedulers -/

namespace Scheduler

/-- `Scheduler::tickle`, or `IOManager::tickle`, which may find an idle thread. -/
def tickle : Code Lock :=
  .either LOG ASSERT

def scheduler (manager : Nat) : Code Lock :=
  .seq (touch (.scheduler manager)) (maybe tickle)

def stopping (manager : Nat) : Code Lock :=
  touch (.scheduler manager)

def start (manager : Nat) : Code Lock :=
  guarded (.scheduler manager) (maybe (.seq ASSERT (.loop Thread.new)))

def joinAll : List Nat → Code Lock
  | [] => .skip
  | thread :: threads => .seq (Thread.join thread) (joinAll threads)

/-- `threads` are those of the pool. `main_fiber_` is never set, and never called. -/
def stop (manager : Nat) (threads : List Nat) : Code Lock :=
  .seq (maybe (stopping manager))
    (.seq ASSERT
      (.seq (.loop tickle)
        (.seq (maybe (stopping manager))
          (.seq (touch (.scheduler manager)) (.seq LOG (joinAll threads))))))

/-- `Fiber::GetCurrentFiber`, with the fiber that it makes for the thread. -/
def getCurrentFiber : Code Lock :=
  maybe (.seq (maybe LOG) ASSERT)

def newFiber : Code Lock :=
  .seq (maybe (ConfigVar.getVal Config_Stack_Size_)) (maybe LOG)

def new : Code Lock :=
  .seq ASSERT (maybe (.seq ASSERT (.seq getCurrentFiber newFiber)))

def begin : Code Lock :=
  .seq getCurrentFiber newFiber

/-- A turn of the loop of `run`, up to where it switches to a fiber or back to the top. -/
def scan (manager : Nat) : Code Lock :=
  .seq (maybe LOG)
    (.seq (guarded (.scheduler manager) (.loop ASSERT))
      (.seq (maybe tickle) (.seq (maybe newFiber) (maybe LOG))))

def settle (manager : Nat) : Code Lock :=
  maybe (scheduler manager)

end Scheduler

/-! ## Timers -/

namespace TimerManager

def onTimerInsertAtFront : Code Lock :=
  maybe Scheduler.tickle

def addTimer (manager : Nat) : Code Lock :=
  .seq (guarded (.timerManager manager) (.seq (maybe LOG) (.seq ASSERT ASSERT)))
    (maybe onTimerInsertAtFront)

def getNextTImer (manager : Nat) : Code Lock :=
  touch (.timerManager manager)

def listExpiredCb (manager : Nat) : Code Lock :=
  touch (.timerManager manager)

end TimerManager

namespace Timer

def cancel (timer : Nat) : Code Lock :=
  touch (.timer timer)

def refresh (timer : Nat) : Code Lock :=
  touch (.timer timer)

def reset (manager timer : Nat) : Code Lock :=
  maybe
    (guarded (.timer timer)
      (maybe
        (.seq (touch (.timerManager manager))
          (.seq ASSERT (TimerManager.addTimer manager)))))

end Timer

/-! ## Events -/

namespace FdContex

def getEventConetx : Code Lock :=
  ASSERT

def triggerEvent : Code Lock :=
  .seq ASSERT (.seq getEventConetx (maybe (.any Scheduler.scheduler)))

end FdContex

namespace IOManager

def withContex (manager : Nat) (body : Code Lock) : Code Lock :=
  .seq (touch (.ioManager manager))
    (maybe (.any fun contex => guarded (.fdContex contex) body))

def addEvent (manager : Nat) : Code Lock :=
  withContex manager
    (.either LOG
      (.either LOG (.seq FdContex.getEventConetx (.seq ASSERT (maybe ASSERT)))))

def delEvent (manager : Nat) : Code Lock :=
  withContex manager (maybe (.either LOG FdContex.getEventConetx))

def cancelEvent (manager : Nat) : Code Lock :=
  withContex manager (maybe (.either LOG FdContex.triggerEvent))

def cancelAll (manager : Nat) : Code Lock :=
  withContex manager
    (.either LOG
      (.either LOG
        (.seq (maybe FdContex.triggerEvent) (.seq (maybe FdContex.triggerEvent) ASSERT))))

def stopping (manager : Nat) : Code Lock :=
  .seq (TimerManager.getNextTImer manager) (Scheduler.stopping manager)

def dispatch : Code Lock :=
  maybe (.either LOG (.seq (maybe FdContex.triggerEvent) (maybe FdContex.triggerEvent)))

def idle (manager : Nat) : Code Lock :=
  .seq (stopping manager)
    (maybe
      (.seq (TimerManager.listExpiredCb manager)
        (.seq (maybe (Scheduler.scheduler manager)) (.loop dispatch))))

def new (manager : Nat) : Code Lock :=
  .seq Scheduler.new
    (.seq (maybe LOG) (.seq ASSERT (.seq ASSERT (Scheduler.start manager))))

/-- The destructor, with that of `Scheduler`. -/
def destroy (manager : Nat) (threads : List Nat) : Code Lock :=
  .seq LOG (.seq (Scheduler.stop manager threads) ASSERT)

end IOManager

/-! ## Calls -/

/-- What a thread may do, from within tasks or not. A worker is one that calls `begin`,
`scan`, `settle` and `idle` with its tasks in between. -/
inductive Call
  | log
  | sylarLog
  | loggerManagerLog
  | loggerLog (logger : Nat)
  | addAppender (logger appender : Nat)
  | clearAppender (logger : Nat)
  | deleteAppender (logger : Nat)
  | lookup
  | loadFromYaml
  | getVal (v : Nat)
  | setVal (v : Nat)
  | toString
  | fromString (v : Nat)
  | addValChangeCB (v : Nat)
  | delValChangeCB (v : Nat)
  | clearValChangeCB (v : Nat)
  | cancel (timer : Nat)
  | refresh (timer : Nat)
  | reset (manager timer : Nat)
  | addTimer (manager : Nat)
  | getNextTImer (manager : Nat)
  | listExpiredCb (manager : Nat)
  | newScheduler
  | newIOManager (manager : Nat)
  | destroyIOManager (manager : Nat) (threads : List Nat)
  | addEvent (manager : Nat)
  | delEvent (manager : Nat)
  | cancelEvent (manager : Nat)
  | cancelAll (manager : Nat)
  | scheduler (manager : Nat)
  | start (manager : Nat)
  | stop (manager : Nat) (threads : List Nat)
  | newThread
  | join (thread : Nat)
  | begin
  | scan (manager : Nat)
  | settle (manager : Nat)
  | idle (manager : Nat)
deriving Repr

def Call.code (added : Nat → Code Lock) : Call → Code Lock
  | .log => LOG
  | .sylarLog => SYLAR_LOG
  | .loggerManagerLog => LoggerManager.log
  | .loggerLog logger => Logger.log logger
  | .addAppender logger appender => Logger.addAppender (.logger logger) appender
  | .clearAppender logger => Logger.clearAppender logger
  | .deleteAppender logger => Logger.deleteAppender logger
  | .lookup => Config.Lookup
  | .loadFromYaml => Config.LoadFromYaml added
  | .getVal v => ConfigVar.getVal v
  | .setVal v => ConfigVar.setVal added v
  | .toString => ConfigVar.toString
  | .fromString v => ConfigVar.fromString added v
  | .addValChangeCB v => ConfigVar.addValChangeCB v
  | .delValChangeCB v => ConfigVar.delValChangeCB v
  | .clearValChangeCB v => ConfigVar.ClearValChangeCB v
  | .cancel timer => Timer.cancel timer
  | .refresh timer => Timer.refresh timer
  | .reset manager timer => Timer.reset manager timer
  | .addTimer manager => TimerManager.addTimer manager
  | .getNextTImer manager => TimerManager.getNextTImer manager
  | .listExpiredCb manager => TimerManager.listExpiredCb manager
  | .newScheduler => Scheduler.new
  | .newIOManager manager => IOManager.new manager
  | .destroyIOManager manager threads => IOManager.destroy manager threads
  | .addEvent manager => IOManager.addEvent manager
  | .delEvent manager => IOManager.delEvent manager
  | .cancelEvent manager => IOManager.cancelEvent manager
  | .cancelAll manager => IOManager.cancelAll manager
  | .scheduler manager => Scheduler.scheduler manager
  | .start manager => Scheduler.start manager
  | .stop manager threads => Scheduler.stop manager threads
  | .newThread => Thread.new
  | .join thread => Thread.join thread
  | .begin => Scheduler.begin
  | .scan manager => Scheduler.scan manager
  | .settle manager => Scheduler.settle manager
  | .idle manager => IOManager.idle manager

def Call.joins : Call → List Nat
  | .destroyIOManager _ threads | .stop _ threads => threads
  | .join thread => [thread]
  | _ => []

/-- Threads that are about to call the functions, each in its own order. -/
def ready (added : Nat → Code Lock) {size : Nat} (calls : Fin size → List Call) :
    Fin size → List (Frame Lock) :=
  fun v => (calls v).map fun call => .run (call.code added)

/-! ## The order -/

section

variable {code : Code Lock} {added : Nat → Code Lock}

abbrev Over (level : Nat) (code : Code Lock) : Prop :=
  code.Above Lock.rank level

theorem Over.lower {level lower : Nat} (isOver : Over level code) (le : lower ≤ level) :
    Over lower code :=
  isOver.mono (WithBot.coe_le_coe.mpr le)

/-- Code for a thread without locks, which waits for none but the threads. -/
structure Fits (threads : List Nat) (code : Code Lock) : Prop where
  above : code.Above Lock.rank ⊥
  joins : ∀ own, (∀ thread ∈ threads, own < thread) → code.JoinsAfter own

variable {threads : List Nat}

theorem Over.fits {level : Nat} (isOver : Over level code) : Fits threads code :=
  ⟨isOver.mono bot_le, fun own _ => isOver.joinsAfter WithBot.coe_ne_bot own⟩

theorem Fits.seq {second : Code Lock} (fits : Fits threads code)
    (fitsSecond : Fits threads second) : Fits threads (.seq code second) :=
  ⟨⟨fits.above, fitsSecond.above⟩, fun own later => ⟨fits.joins own later,
    fitsSecond.joins own later⟩⟩

end

end Locks

end Sylar.Threads
