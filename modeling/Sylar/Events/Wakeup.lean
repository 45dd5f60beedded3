import Mathlib.Algebra.Order.Ring.Nat
import Mathlib.Tactic.Common
import Sylar.Events.IOManager

/-! # Telling wake-ups from descriptor events

The constructor registers the read end of a pipe with the descriptor as its data, and
`addEvent` registers contexts with their addresses. For every event `idle` reads the data as
a descriptor, and takes the event for a wake-up if this is the read end of the pipe.
-/

namespace Sylar.Events

/-! ## The data of an event -/

/-- `epoll_data_t`, as the pointer that it is large enough for. -/
abbrev EpollData := BitVec 64

namespace EpollData

def fd (data : EpollData) : Int32 := Int32.ofBitVec (data.setWidth 32)

/-- The data after `data.fd` has been assigned in an event that was all zero. -/
def ofFd (fd : Int32) : EpollData := fd.toBitVec.setWidth 64

@[simp] theorem fd_ofFd (fd : Int32) : (ofFd fd).fd = fd := by
  have low : (fd.toBitVec.setWidth 64).setWidth 32 = fd.toBitVec := by
    simp
  rw [EpollData.fd, ofFd, low, Int32.ofBitVec_toBitVec]

end EpollData

/-! ## The pipe -/

structure TickleFd where
  read : Int32
  write : Int32
  deriving DecidableEq, Repr

structure DescriptorFlags where
  closeOnExec : Bool := false
  nonblock : Bool := false
  deriving DecidableEq, Repr

def FD_CLOEXEC : Mask := 0x1#32
def O_NONBLOCK : Mask := 0x800#32

inductive FcntlCommand
  | F_SETFD
  | F_SETFL
  deriving DecidableEq, Repr

/-- `fcntl`: the descriptor flags are set by `F_SETFD`, and the status flags by `F_SETFL`. -/
def DescriptorFlags.fcntl (flags : DescriptorFlags) (command : FcntlCommand)
    (argument : Mask) : DescriptorFlags :=
  match command with
  | .F_SETFD => { flags with closeOnExec := argument &&& FD_CLOEXEC != 0 }
  | .F_SETFL => { flags with nonblock := argument &&& O_NONBLOCK != 0 }

inductive ReadResult
  | count (size : Nat)
  | again
  | blocked
  deriving DecidableEq, Repr

def readPipe (nonblock : Bool) (unread size : Nat) : ReadResult :=
  if unread = 0 then if nonblock then .again else .blocked
  else .count (min unread size)

theorem readPipe_count {nonblock : Bool} {unread size taken : Nat} (positive : 0 < size)
    (result : readPipe nonblock unread size = .count taken) :
    0 < taken ∧ taken ≤ unread := by
  rw [readPipe] at result
  split at result
  · split at result <;> cases result
  · next some =>
      cases result
      exact ⟨Nat.lt_min.mpr ⟨Nat.pos_of_ne_zero some, positive⟩, Nat.min_le_left _ _⟩

/-- The loop that reads the pipe empty, 64 words at a time, while `tickle` may write more
bytes before each read. Whether it ends without a read that blocks. -/
def drain (nonblock : Bool) (unread : Nat) (arrivals : List Nat) : Bool :=
  match result : readPipe nonblock (unread + arrivals.headD 0) (64 * 8) with
  | .count taken =>
      have progress := readPipe_count (by decide) result
      drain nonblock (unread + arrivals.headD 0 - taken) arrivals.tail
  | .again => true
  | .blocked => false
termination_by unread + arrivals.sum
decreasing_by
  cases arrivals with
  | nil =>
      simp only [List.headD_nil, List.tail_nil, List.sum_nil] at progress ⊢
      omega
  | cons first rest =>
      simp only [List.headD_cons, List.tail_cons, List.sum_cons] at progress ⊢
      omega

theorem drain_eq (nonblock : Bool) (unread : Nat) (arrivals : List Nat) :
    drain nonblock unread arrivals = nonblock := by
  fun_induction drain nonblock unread arrivals with
  | case1 unread arrivals taken result progress induction => exact induction
  | case2 unread arrivals result =>
      rw [readPipe] at result
      split at result
      · split at result
        · next isNonblock => exact isNonblock.symm
        · cases result
      · cases result
  | case3 unread arrivals result =>
      rw [readPipe] at result
      split at result
      · split at result
        · cases result
        · next isBlocking => simpa using isBlocking
      · cases result

/-! ## The constructor -/

/-- What the constructor leaves of the pipe: its ends, the flags of the read end, and the data
registered for it. -/
structure Channel where
  tickleFd : TickleFd
  flags : DescriptorFlags
  data : EpollData

/-- The constructor, which finds something in `tickle_fd_` and gets a pipe from the kernel. It
fills the event in before it calls `pipe`. -/
def Channel.construct (initial pipe : TickleFd) : Channel :=
  let data := EpollData.ofFd initial.read
  let tickleFd := pipe
  let flags := DescriptorFlags.fcntl {} .F_SETFD O_NONBLOCK
  { tickleFd := tickleFd, flags := flags, data := data }

/-- The read end blocks: `F_SETFD` does not set status flags. -/
theorem Channel.construct_blocks (initial pipe : TickleFd) :
    (Channel.construct initial pipe).flags.nonblock = false := rfl

/-! ## The loop of `idle` over the reported events -/

inductive Source
  | tickle
  | contex (id : ContexId)
  deriving DecidableEq, Repr

/-- A reported event. For the pipe, the bytes that `idle` finds in it, and those that are
written before each of its further reads. -/
structure Report where
  source : Source
  unread : Nat := 0
  arrivals : List Nat := []

/-- What `idle` does with an event: read the pipe, with or without an end, or use its data as
the address of a context. -/
inductive Treatment
  | wakeup (ended : Bool)
  | descriptor (address : EpollData)
  deriving DecidableEq, Repr

namespace Channel

variable (channel : Channel) (address : ContexId → EpollData)

def dataOf : Source → EpollData
  | .tickle => channel.data
  | .contex id => address id

/-- `ep_event.data.fd==tickle_fd_[0]`. -/
def isWakeup (source : Source) : Bool :=
  decide ((channel.dataOf address source).fd = channel.tickleFd.read)

def treat (report : Report) : Treatment :=
  if channel.isWakeup address report.source then
    .wakeup (drain channel.flags.nonblock report.unread report.arrivals)
  else .descriptor (channel.dataOf address report.source)

def treatAll : List Report → List Treatment
  | [] => []
  | report :: reports =>
      match channel.treat address report with
      | .wakeup false => [.wakeup false]
      | treatment => treatment :: treatAll reports

def Meant (report : Report) (treatment : Treatment) : Prop :=
  match report.source with
  | .tickle => treatment = .wakeup true
  | .contex id => treatment = .descriptor (address id)

def ToldApart (reports : List Report) : Prop :=
  List.Forall₂ (Meant address) reports (channel.treatAll address reports)

/-- A wake-up is recognised if and only if `tickle_fd_` held the read end before `pipe` wrote
it, and a context is not taken for one if and only if its address does not end in the read
end. -/
theorem isWakeup_construct_iff (address : ContexId → EpollData) (initial pipe : TickleFd)
    (source : Source) :
    ((Channel.construct initial pipe).isWakeup address source = true ↔ source = .tickle) ↔
      match source with
      | .tickle => initial.read = pipe.read
      | .contex id => (address id).fd ≠ pipe.read := by
  cases source with
  | tickle => simp [isWakeup, dataOf, construct]
  | contex id =>
      have apart : (Channel.construct initial pipe).isWakeup address (.contex id) = true ↔
          (address id).fd = pipe.read := decide_eq_true_iff
      simp [apart]

theorem meant_treat_iff (address : ContexId → EpollData) (initial pipe : TickleFd)
    (report : Report) :
    Meant address report ((Channel.construct initial pipe).treat address report) ↔
      ∃ id, report.source = .contex id ∧ (address id).fd ≠ pipe.read := by
  rcases report with ⟨source, unread, arrivals⟩
  rw [treat, drain_eq, construct_blocks]
  cases source with
  | tickle => split <;> simp [Meant]
  | contex id =>
      have apart := isWakeup_construct_iff address initial pipe (.contex id)
      by_cases woken : (Channel.construct initial pipe).isWakeup address (.contex id) = true
      · have ends : (address id).fd = pipe.read := by simpa [woken] using apart
        simp [Meant, woken, ends]
      · have differs : (address id).fd ≠ pipe.read := by simpa [woken] using apart
        simp [Meant, woken, differs, dataOf]

/-- The events of one call of `epoll_wait` are told apart and treated to the end if and only if
none of them is a wake-up and none a context whose address ends in the read end. -/
theorem toldApart_iff (initial pipe : TickleFd) (address : ContexId → EpollData)
    (reports : List Report) :
    (Channel.construct initial pipe).ToldApart address reports ↔
      ∀ report ∈ reports, ∃ id, report.source = .contex id ∧ (address id).fd ≠ pipe.read := by
  induction reports with
  | nil => simp [ToldApart, treatAll]
  | cons report reports induction =>
      rw [List.forall_mem_cons, ← meant_treat_iff address, ← induction]
      rw [ToldApart, treatAll]
      split
      · next blocked =>
          have notMeant : ¬Meant address report (.wakeup false) := by
            rw [Meant]
            split <;> simp
          rw [blocked]
          exact iff_of_false (fun told => notMeant (List.forall₂_cons.mp told).1)
            fun given => notMeant given.1
      · next treatment treated =>
          rw [List.forall₂_cons]
          rfl

/-- A wake-up leads to a context at address 0 or to a read that blocks, whatever the constructor
finds in `tickle_fd_`, and the context at an address that ends in 16 is taken for a wake-up. -/
theorem toldApart_iff_fails :
    let pipe : TickleFd := { read := 16, write := 17 }
    let address (id : ContexId) : EpollData := 0x7f0000000000 + BitVec.ofNat 64 (16 * id)
    let zeroed := Channel.construct { read := 0, write := 0 } pipe
    let lucky := Channel.construct pipe pipe
    let wakeup : Report := { source := .tickle, unread := 1 }
    let reading : Report := { source := .contex 1 }
    (zeroed.treatAll address [wakeup] = [.descriptor 0] ∧ ¬zeroed.ToldApart address [wakeup]) ∧
    (lucky.treatAll address [wakeup] = [.wakeup false] ∧ ¬lucky.ToldApart address [wakeup]) ∧
    (zeroed.treatAll address [reading] = [.wakeup false] ∧
      ¬zeroed.ToldApart address [reading]) := by
  intro pipe address zeroed lucky wakeup reading
  have notMeant (channel : Channel) (report : Report) (treatment : Treatment)
      (treated : channel.treatAll address [report] = [treatment])
      (wrong : ¬Meant address report treatment) : ¬channel.ToldApart address [report] := by
    intro told
    rw [ToldApart, treated] at told
    exact wrong (List.forall₂_cons.mp told).1
  have isDereferenced : zeroed.treatAll address [wakeup] = [.descriptor 0] := rfl
  have blocks (initial : TickleFd) (report : Report)
      (woken : (Channel.construct initial pipe).isWakeup address report.source = true) :
      (Channel.construct initial pipe).treatAll address [report] = [.wakeup false] := by
    rw [treatAll, treat, if_pos woken, drain_eq, construct_blocks]
  have isBlocked := blocks pipe wakeup (by decide)
  have isSwallowed := blocks { read := 0, write := 0 } reading (by decide)
  exact ⟨⟨isDereferenced, notMeant _ _ _ isDereferenced (by simp [Meant, wakeup])⟩,
    ⟨isBlocked, notMeant _ _ _ isBlocked (by simp [Meant, wakeup])⟩,
    ⟨isSwallowed, notMeant _ _ _ isSwallowed (by simp [Meant, reading])⟩⟩

end Channel

end Sylar.Events
