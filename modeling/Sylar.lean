import Sylar.Assembly.LogLines
import Sylar.Assembly.LogSettings
import Sylar.Assembly.References
import Sylar.Assembly.Starts
import Sylar.Assembly.Timeliness
import Sylar.Events.Accounting
import Sylar.Events.Bounds
import Sylar.Events.Failures
import Sylar.Events.KernelInterest
import Sylar.Events.Readiness
import Sylar.Events.Schedulers
import Sylar.Events.Undoing
import Sylar.Events.Wakeup
import Sylar.Idling.Quiescence
import Sylar.Idling.Tickle
import Sylar.Logging.Escaping
import Sylar.Logging.Fresh
import Sylar.Logging.Handles
import Sylar.Logging.ItemOrder
import Sylar.Logging.Safety
import Sylar.Logging.Singleton
import Sylar.Scheduling.Conservation
import Sylar.Scheduling.Contexts
import Sylar.Scheduling.Drain
import Sylar.Scheduling.Pointers
import Sylar.Scheduling.Progress
import Sylar.Scheduling.Resumption
import Sylar.Scheduling.Termination
import Sylar.Settings.Cycles
import Sylar.Settings.Entries
import Sylar.Settings.Locking
import Sylar.Settings.LogDefiners
import Sylar.Settings.Names
import Sylar.Settings.Registry
import Sylar.Settings.Reloading
import Sylar.Settings.RoundTrip
import Sylar.Threads.Identity
import Sylar.Threads.Joining
import Sylar.Threads.Locks
import Sylar.Timers.Cancellation
import Sylar.Timers.Comparator
import Sylar.Timers.Conditional
import Sylar.Timers.Punctuality
import Sylar.Timers.Rollover
import Sylar.Scheduling.Atomicity
