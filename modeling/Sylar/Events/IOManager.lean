import Mathlib.Logic.Function.Basic
import Sylar.Events.FdContex
import Sylar.Foundation.Machine

/-! # The event operations of the manager

`addEvent`, `delEvent`, `cancelEvent`, `cancelAll` and the treatment of one
reported event in `idle`, executed one at a time. Contexts live in a heap and
the table holds pointers to them, because epoll keeps the pointers it was given
when the table replaces its contexts. The answer of `epoll_ctl` is an input.
-/

namespace Sylar.Events

open Foundation Scheduling

abbrev ContexId := Nat

/-! ## The kernel's interest list -/

inductive EpollOp
  | ADD
  | MOD
  | DEL
  deriving DecidableEq, Repr

structure Registration where
  events : Mask
  contex : ContexId
  deriving DecidableEq, Repr

structure EpollRequest where
  op : EpollOp
  fd : Int32
  events : Mask
  contex : ContexId
  deriving DecidableEq, Repr

abbrev Interest := Int32 → Option Registration

/-- `ADD` needs an unregistered descriptor, `MOD` and `DEL` a registered one. -/
def EpollRequest.accepted (request : EpollRequest) (interest : Interest) : Bool :=
  match request.op with
  | .ADD => (interest request.fd).isNone
  | .MOD | .DEL => (interest request.fd).isSome

def EpollRequest.apply (request : EpollRequest) (interest : Interest) : Interest :=
  Function.update interest request.fd <|
    match request.op with
    | .ADD | .MOD => some { events := request.events, contex := request.contex }
    | .DEL => none

/-! ## Requests of the operations -/

namespace FdContex

variable {Callback : Type} (contex : FdContex Callback) (id : ContexId)

def addRequest (event : Event) : Option EpollRequest :=
  if contex.armed event then none
  else some
    { op := if contex.event != 0 then .MOD else .ADD
      fd := contex.fd
      events := EPOLLET ||| event.bits ||| contex.event
      contex := id }

/-- `new_event` in `delEvent` and `cancelEvent`: the direction is or-ed in. -/
def newEvent (event : Event) : Mask := contex.event ||| event.bits

def removeRequest (event : Event) : Option EpollRequest :=
  if contex.armed event then some
    { op := if contex.newEvent event != 0 then .MOD else .DEL
      fd := contex.fd
      events := contex.newEvent event
      contex := id }
  else none

def removeAllRequest : Option EpollRequest :=
  if contex.event != 0 then
    some { op := .DEL, fd := contex.fd, events := 0, contex := id }
  else none

/-- The mask `idle` works with: an error or a hang-up stands for every armed
direction. -/
def reportedEvents (reported : Mask) : Mask :=
  if reported &&& (EPOLLHUP ||| EPOLLERR) != 0 then
    reported ||| ((EPOLLIN ||| EPOLLOUT) &&& contex.event)
  else reported

/-- `real_event` in `idle`. -/
def realEvent (reported : Mask) : Mask :=
  (if contex.reportedEvents reported &&& EPOLLIN != 0 then Event.READD.bits
    else Event.NONE.bits) |||
  (if contex.reportedEvents reported &&& EPOLLOUT != 0 then Event.WRITE.bits
    else Event.NONE.bits)

/-- `new_event` in `idle`: what stays armed. -/
def remainingEvent (reported : Mask) : Mask :=
  ~~~contex.realEvent reported &&& contex.event

/-- The call `idle` makes if the report concerns an armed direction. The mask it
passes keeps the reported bits. -/
def dispatchRequest (reported : Mask) : Option EpollRequest :=
  if contex.event &&& contex.realEvent reported == Event.NONE.bits then none
  else some
    { op := if contex.remainingEvent reported != 0 then .MOD else .DEL
      fd := contex.fd
      events := contex.reportedEvents reported |||
        (EPOLLET ||| contex.remainingEvent reported)
      contex := id }

end FdContex

/-! ## The manager -/

/-- The thread that calls `addEvent`: its scheduler, if it has one, and its
current fiber. -/
structure Caller where
  scheduler : Option SchedulerId
  fiber : FiberId
  fiberState : FiberState := .EXEC

structure IOManager (Callback : Type) where
  objects : ContexId → FdContex Callback
  /-- The number of contexts allocated so far. -/
  allocated : Nat
  fdContexs : List ContexId
  pendingEventSize : UInt64
  epoll : Interest
  /-- What the operations have put into scheduler queues, in order. -/
  queued : List (SchedulerId × Work Callback)

namespace IOManager

variable {Callback : Type}

def new : IOManager Callback where
  objects _ := { fd := 0 }
  allocated := 0
  fdContexs := []
  pendingEventSize := 0
  epoll _ := none
  queued := []

def setContex (manager : IOManager Callback) (id : ContexId)
    (contex : FdContex Callback) : IOManager Callback :=
  { manager with objects := Function.update manager.objects id contex }

/-- `fd_contex_resize(size)`: every entry of the table becomes a new context. -/
def fdContexResize (manager : IOManager Callback) (size : Nat) :
    IOManager Callback :=
  { manager with
    objects := fun id =>
      if manager.allocated ≤ id ∧ id < manager.allocated + size then
        { fd := Int32.ofNat (id - manager.allocated) }
      else manager.objects id
    allocated := manager.allocated + size
    fdContexs := List.range' manager.allocated size }

/-- `(int)fd_Contexs_.size()<=fd`, with the conversion to `int`. -/
def beyond (manager : IOManager Callback) (fd : Int32) : Bool :=
  decide (Int32.ofNat manager.fdContexs.length ≤ fd)

def contexAt (manager : IOManager Callback) (fd : Int32) :
    Except Fault ContexId :=
  if fd < 0 then .error (.undefined .indexOutOfRange)
  else
    match manager.fdContexs[fd.toNatClampNeg]? with
    | some id => .ok id
    | none => .error (.undefined .indexOutOfRange)

/-- The growth step of `addEvent`, to the truncation of `fd*1.5`. -/
def grow (manager : IOManager Callback) (fd : Int32) :
    Except Fault (IOManager Callback) :=
  if manager.beyond fd then
    if fd < 0 then .error (.undefined .negativeSize)
    else .ok (manager.fdContexResize (fd.toNatClampNeg * 3 / 2))
  else .ok manager

/-- The part every operation shares: nothing to request means `false`, a refused
request means `false`, and an accepted one is followed by the update. -/
def perform (manager : IOManager Callback) (request : Option EpollRequest)
    (reply : Bool)
    (complete : IOManager Callback → Except Fault (IOManager Callback)) :
    Except Fault (IOManager Callback × Bool) :=
  match request with
  | none => .ok (manager, false)
  | some request =>
      if reply then
        (complete { manager with epoll := request.apply manager.epoll }).map
          (·, true)
      else .ok (manager, false)

/-- `--pending_Event_Size_` and `triggerEvent`, which commute. -/
def fire (manager : IOManager Callback) (id : ContexId) (event : Event) :
    Except Fault (IOManager Callback) :=
  match (manager.objects id).triggerEvent event with
  | .error fault => .error fault
  | .ok (contex, queued) =>
      .ok { manager.setContex id contex with
        pendingEventSize := manager.pendingEventSize - 1
        queued := manager.queued ++ queued }

def arm (manager : IOManager Callback) (id : ContexId) (event : Event)
    (cb : Option Callback) (caller : Caller) :
    Except Fault (IOManager Callback) :=
  let counted :=
    { manager with pendingEventSize := manager.pendingEventSize + 1 }
  let contex := manager.objects id
  let armed := { contex with event := event.bits ||| contex.event }
  match armed.getEventConetx event with
  | .error fault => .error fault
  | .ok slot =>
      if slot.scheduler.isSome || slot.cb.isSome || slot.fiber.isSome then
        .error (.assertion .eventSlot)
      else
        match cb with
        | some callback =>
            .ok (counted.setContex id (armed.setSlot event
              { slot with scheduler := caller.scheduler, cb := some callback }))
        | none =>
            if caller.fiberState = .EXEC then
              .ok (counted.setContex id (armed.setSlot event
                { slot with
                  scheduler := caller.scheduler
                  fiber := some caller.fiber }))
            else .error (.assertion .currentFiber)

def disarm (manager : IOManager Callback) (id : ContexId) (event : Event) :
    Except Fault (IOManager Callback) :=
  let contex := manager.objects id
  let stored := { contex with event := contex.newEvent event }
  match stored.getEventConetx event with
  | .error fault => .error fault
  | .ok _ =>
      .ok { manager.setContex id (stored.resetContex event) with
        pendingEventSize := manager.pendingEventSize - 1 }

/-- `if(_event&&event)` as `cancelAll` writes it: a logical and, which holds
whenever anything is armed. -/
def fireIfAny (manager : IOManager Callback) (id : ContexId) (event : Event) :
    Except Fault (IOManager Callback) :=
  if (manager.objects id).event != 0 && event.bits != 0 then
    manager.fire id event
  else .ok manager

def fireAll (manager : IOManager Callback) (id : ContexId) :
    Except Fault (IOManager Callback) := do
  let manager ← manager.fireIfAny id .READD
  let manager ← manager.fireIfAny id .WRITE
  if (manager.objects id).event == 0 then return manager
  else throw (.assertion .cancelAll)

def fireIfReported (manager : IOManager Callback) (id : ContexId)
    (realEvent : Mask) (event : Event) : Except Fault (IOManager Callback) :=
  if realEvent.has event then manager.fire id event else .ok manager

def fireReported (manager : IOManager Callback) (id : ContexId)
    (realEvent : Mask) : Except Fault (IOManager Callback) := do
  let manager ← manager.fireIfReported id realEvent .READD
  manager.fireIfReported id realEvent .WRITE

/-! ## The operations -/

def addEvent (manager : IOManager Callback) (fd : Int32) (event : Event)
    (cb : Option Callback) (caller : Caller) (reply : Bool) :
    Except Fault (IOManager Callback × Bool) := do
  let manager ← manager.grow fd
  let id ← manager.contexAt fd
  manager.perform ((manager.objects id).addRequest id event) reply
    (·.arm id event cb caller)

def delEvent (manager : IOManager Callback) (fd : Int32) (event : Event)
    (reply : Bool) : Except Fault (IOManager Callback × Bool) :=
  if manager.beyond fd then .ok (manager, false)
  else do
    let id ← manager.contexAt fd
    manager.perform ((manager.objects id).removeRequest id event) reply
      (·.disarm id event)

def cancelEvent (manager : IOManager Callback) (fd : Int32) (event : Event)
    (reply : Bool) : Except Fault (IOManager Callback × Bool) :=
  if manager.beyond fd then .ok (manager, false)
  else do
    let id ← manager.contexAt fd
    manager.perform ((manager.objects id).removeRequest id event) reply
      (·.fire id event)

def cancelAll (manager : IOManager Callback) (fd : Int32) (reply : Bool) :
    Except Fault (IOManager Callback × Bool) :=
  if manager.beyond fd then .ok (manager, false)
  else do
    let id ← manager.contexAt fd
    manager.perform ((manager.objects id).removeAllRequest id) reply
      (·.fireAll id)

/-- One iteration of the loop of `idle` over the reported events, for an event
of a descriptor. -/
def dispatch (manager : IOManager Callback) (id : ContexId) (reported : Mask)
    (reply : Bool) : Except Fault (IOManager Callback × Bool) :=
  let contex := manager.objects id
  manager.perform (contex.dispatchRequest id reported) reply
    (·.fireReported id (contex.realEvent reported))

/-! ## Runs -/

inductive Operation (Callback : Type)
  | addEvent (fd : Int32) (event : Event) (cb : Option Callback)
      (caller : Caller)
  | delEvent (fd : Int32) (event : Event)
  | cancelEvent (fd : Int32) (event : Event)
  | cancelAll (fd : Int32)
  | dispatch (id : ContexId) (reported : Mask)

structure Call (Callback : Type) where
  operation : Operation Callback
  reply : Bool := true

def execute (manager : IOManager Callback) (call : Call Callback) :
    Except Fault (IOManager Callback × Bool) :=
  match call.operation with
  | .addEvent fd event cb caller =>
      manager.addEvent fd event cb caller call.reply
  | .delEvent fd event => manager.delEvent fd event call.reply
  | .cancelEvent fd event => manager.cancelEvent fd event call.reply
  | .cancelAll fd => manager.cancelAll fd call.reply
  | .dispatch id reported => manager.dispatch id reported call.reply

/-- A run ends where an operation does not return. -/
def machine : Machine (IOManager Callback) (Call Callback) where
  step manager call :=
    match manager.execute call with
    | .ok (next, _) => some next
    | .error _ => none

end IOManager

end Sylar.Events
