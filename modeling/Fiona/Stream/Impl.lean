import Fiona.Recv.Frame
import Mathlib.Logic.Function.Basic

/-!
# The frames of a stream

`stream_impl` and `client_impl` of `src/detail/stream_impl.hpp` and the awaitables and handles
that work on them (`src/tcp.cpp`). A stream has one *frame* for each kind of operation;
a request carries the address of its frame, and the frame turns the completion into
what the awaiting coroutine is given. One counter, `count_`, is shared by all of them: a
handle, an awaitable and each request the kernel has hold one reference.

Six of the frames have the same four members and live in one family (`Fiona.OpFrame`,
indexed by `Fiona.Op`); two of these, for `socket` and `connect`, are those of a client. The
functions below are the source's, one each; what they queue is returned as a list of
`Fiona.Sqe`, and a descriptor slot that they give back as the argument of `release_fd`.
`BOOST_ASSERT` is not modelled: what an assertion demands is proved, or it is part of the
condition under which something is.
-/

namespace Fiona

/-! ### The members -/

/-- The operations whose frames are alike. -/
inductive Op
  | cancel
  | close
  | shutdown
  | send
  | socket
  | connect
  deriving DecidableEq, Repr

/-- The frames a request can carry the address of. -/
inductive FrameId
  | op (o : Op)
  | recv
  | timeout
  | timeoutCancel
  deriving DecidableEq, Repr

/-- A request that is queued. -/
inductive Sqe
  /-- A request that carries the address of a frame. -/
  | request (f : FrameId) (fd : Int)
  /-- `io_uring_prep_cancel_fd`, without user data. -/
  | cancelFd (fd : Int)
  /-- `io_uring_prep_cancel` of the request of a frame. -/
  | cancelOp (f : FrameId)
  /-- `io_uring_prep_timeout_remove` of the timer. -/
  | timeoutRemove
  /-- `io_uring_prep_link_timeout`. -/
  | linkTimeout
  deriving DecidableEq, Repr

/-- The frames whose addresses the requests queued carry, one for each completion to come. -/
def requests (q : List Sqe) : List FrameId :=
  q.filterMap fun
    | .request f _ => some f
    | _ => none

section

variable (q q' : List Sqe) (f : FrameId) (fd : Int)

@[simp] theorem requests_nil : requests [] = [] := rfl

@[simp] theorem requests_request : requests (.request f fd :: q) = f :: requests q := rfl

@[simp] theorem requests_cancelFd : requests (.cancelFd fd :: q) = requests q := rfl

@[simp] theorem requests_cancelOp : requests (.cancelOp f :: q) = requests q := rfl

@[simp] theorem requests_timeoutRemove : requests (.timeoutRemove :: q) = requests q := rfl

@[simp] theorem requests_linkTimeout : requests (.linkTimeout :: q) = requests q := rfl

@[simp] theorem requests_append : requests (q ++ q') = requests q ++ requests q' :=
  List.filterMap_append

end

/-- `cancel_frame`, `close_frame`, `shutdown_frame`, `send_frame`, `socket_frame` and
`connect_frame`. -/
structure OpFrame where
  h : Option Coro
  res : Int
  initiated : Bool
  done : Bool
  deriving DecidableEq, Repr

namespace OpFrame

variable (f : OpFrame)

def idle : OpFrame := ⟨none, 0, false, false⟩

/-- `reset`. -/
def reset (_ : OpFrame) : OpFrame := idle

/-- `is_active`. -/
def isActive : Bool := f.initiated && !f.done

/-- The two members that `await_suspend` sets once the request is queued. -/
def start (h : Coro) : OpFrame := { f with initiated := true, h := some h }

/-- The two members that most frames set for a completion. -/
def complete (res : Int) : OpFrame := { f with done := true, res := res }

/-- `boost::exchange( h_, nullptr )`. -/
def exchange : Option Coro × OpFrame := (f.h, { f with h := none })

end OpFrame

/-- `timeout_frame`. -/
structure TimeoutFrame where
  initiated : Bool
  cancelled : Bool
  deriving DecidableEq, Repr

/-- `timeout_cancel_frame`. -/
structure TimeoutCancelFrame where
  res : Int
  initiated : Bool
  deriving DecidableEq, Repr

/-- `stream_impl`, with the two frames of `client_impl`. Times are in nanoseconds. -/
structure StreamImpl where
  frame : Op → OpFrame
  recv : RecvFrame
  timeout : TimeoutFrame
  timeoutCancel : TimeoutCancelFrame
  lastSend : Nat
  ts : Nat
  fd : Int
  connected : Bool
  streamCancelled : Bool
  count : Int

namespace StreamImpl

variable (s : StreamImpl)

def setFrame (o : Op) (f : OpFrame) : StreamImpl := { s with frame := Function.update s.frame o f }

/-- `intrusive_ptr_add_ref`. -/
def addRef : StreamImpl := { s with count := s.count + 1 }

/-- The `is_active` of each frame. -/
def isActive : FrameId → Bool
  | .op o => (s.frame o).isActive
  | .recv => s.recv.isActive
  | .timeout => s.timeout.initiated
  | .timeoutCancel => s.timeoutCancel.initiated

@[simp] theorem setFrame_count (o : Op) (f : OpFrame) : (s.setFrame o f).count = s.count := rfl

@[simp] theorem addRef_count : s.addRef.count = s.count + 1 := rfl

@[simp] theorem addRef_frame : s.addRef.frame = s.frame := rfl

@[simp] theorem addRef_recv : s.addRef.recv = s.recv := rfl

@[simp] theorem addRef_timeout : s.addRef.timeout = s.timeout := rfl

@[simp] theorem addRef_isActive : s.addRef.isActive = s.isActive := rfl

/-- The frames that `stream::~stream` looks at. -/
def streamFrames : List FrameId :=
  [.op .cancel, .timeoutCancel, .op .close, .op .shutdown, .op .send, .recv, .timeout]

/-- The frames that `client::~client` looks at. -/
def clientFrames : List FrameId := streamFrames ++ [.op .socket, .op .connect]

/-- The `use_count` of the two destructors. -/
def useCount (frames : List FrameId) : Int := s.count - frames.countP s.isActive

/-- `stream_impl::stream_impl`, which arms the timer; three seconds are the default period. -/
def new (fd : Int) (now : Nat) : StreamImpl where
  frame := fun _ => .idle
  recv := .init now
  timeout := ⟨true, false⟩
  timeoutCancel := ⟨0, false⟩
  lastSend := now
  ts := 3000000000
  fd := fd
  connected := false
  streamCancelled := false
  count := 1

/-! ### Completions -/

/-- `cancel_frame::await_process_cqe`. -/
def cancelAwaitProcessCqe (res : Int) : StreamImpl :=
  s.setFrame .cancel ((s.frame .cancel).complete res)

/-- `shutdown_frame::await_process_cqe`. -/
def shutdownAwaitProcessCqe (res : Int) : StreamImpl :=
  s.setFrame .shutdown ((s.frame .shutdown).complete res)

/-- `send_frame::await_process_cqe`. -/
def sendAwaitProcessCqe (res : Int) : StreamImpl :=
  let s := s.setFrame .send ((s.frame .send).complete res)
  if res < 0 then { s with connected := false } else s

/-- `close_frame::await_process_cqe`; the descriptor is given back. -/
def closeAwaitProcessCqe (res : Int) : StreamImpl × Option Int :=
  let fd := s.fd
  let s := s.setFrame .close ((s.frame .close).complete res)
  ({ s with fd := -1, connected := false }, some fd)

/-- `socket_frame::await_process_cqe`; the descriptor is given back if there is no socket. -/
def socketAwaitProcessCqe (res : Int) : StreamImpl × Option Int :=
  let f := s.frame .socket
  if res < 0 then
    let s' := s.setFrame .socket { f with done := true, res := res }
    ({ s' with fd := -1 }, some s.fd)
  else (s.setFrame .socket { f with done := true }, none)

/-- `connect_frame::await_process_cqe`. -/
def connectAwaitProcessCqe (res : Int) : StreamImpl :=
  let f := s.frame .connect
  if res < 0 then
    let s' := s.setFrame .connect { f with done := true, res := res }
    if res ≠ -Errno.EISCONN then { s' with connected := false } else s'
  else { s.setFrame .connect { f with done := true } with connected := true }

/-- The `await_process_cqe` of an operation. -/
def opAwaitProcessCqe (o : Op) (res : Int) : StreamImpl × Option Int :=
  match o with
  | .cancel => (s.cancelAwaitProcessCqe res, none)
  | .close => s.closeAwaitProcessCqe res
  | .shutdown => (s.shutdownAwaitProcessCqe res, none)
  | .send => (s.sendAwaitProcessCqe res, none)
  | .socket => s.socketAwaitProcessCqe res
  | .connect => (s.connectAwaitProcessCqe res, none)

/-- The `handle` of an operation: a socket that was made resumes nobody. -/
def opHandle (o : Op) : Option Coro × StreamImpl :=
  if o = .socket ∧ ¬(s.frame o).res < 0 then (none, s)
  else
    let (h, f) := (s.frame o).exchange
    (h, s.setFrame o f)

/-- `timeout_cancel_frame::await_process_cqe`. -/
def timeoutCancelAwaitProcessCqe (res : Int) : StreamImpl :=
  { s with timeoutCancel := ⟨res, false⟩ }

/-- A completion of the timer is a tick, and not its end. -/
def isTick (cqe : Cqe) : Bool := cqe.res = -Errno.ETIME || cqe.res = 0

/-- The test of a timer tick: a receive or a send has been idle for the period. -/
def shouldCancel (now : Nat) : Bool :=
  (s.recv.initiated && decide (s.ts ≤ now - s.recv.lastRecv)) ||
    ((s.frame .send).initiated && !(s.frame .send).done && decide (s.ts ≤ now - s.lastSend))

/-- The cancel of everything on the descriptor that a tick may issue. -/
def tickCancel (now : Nat) : StreamImpl × List Sqe :=
  if s.shouldCancel now then
    ({ s with timeoutCancel := { s.timeoutCancel with initiated := true } }.addRef,
      [.request .timeoutCancel s.fd])
  else (s, [])

/-- The timer is armed. -/
def armTimer : StreamImpl × List Sqe :=
  ({ s with timeout := { s.timeout with initiated := true } }, [.request .timeout s.fd])

/-- `timeout_frame::await_process_cqe` on a tick; the last one arms the timer anew. -/
def tick (cqe : Cqe) (now : Nat) : StreamImpl × List Sqe :=
  let (s', q) := s.tickCancel now
  let (s'', q') := if cqe.more then (s', []) else s'.armTimer
  (s''.addRef, q ++ q')

/-- `timeout_frame::await_process_cqe`. -/
def timeoutAwaitProcessCqe (cqe : Cqe) (now : Nat) : StreamImpl × List Sqe :=
  if cqe.res = -Errno.ECANCELED ∧ s.timeout.cancelled then
    ({ s with timeout := ⟨false, false⟩ }, [])
  else if cqe.res = -Errno.ECANCELED then (s.armTimer.1.addRef, s.armTimer.2)
  else if ¬isTick cqe then ({ s with timeout := { s.timeout with initiated := false } }, [])
  else s.tick cqe now

/-- `recv_frame::await_process_cqe`, with the reference of a multishot receive renewed. -/
def recvAwaitProcessCqe (cqe : Cqe) (now p : Nat) (buf : RecvBuffer) : Option StreamImpl := do
  let rf ← s.recv.awaitProcessCqe s.streamCancelled cqe now p buf
  let s := { s with recv := rf }
  some (if cqe.more then s.addRef else s)

/-! ### The timer and the handles -/

/-- `queue_timer_cancel`. -/
def queueTimerCancel : StreamImpl × List Sqe :=
  if s.timeout.initiated then
    ({ s with timeout := { s.timeout with cancelled := true } }, [.timeoutRemove])
  else (s, [])

/-- `stream::cancel_recv`. -/
def cancelRecv : List Sqe := if s.recv.initiated then [.cancelOp .recv] else []

/-- `stream::timeout`. -/
def setTimeout (ts : Nat) : StreamImpl × List Sqe := ({ s with ts := ts }, [.timeoutRemove])

/-- The test of `stream::~stream`, after that of `client::~client` where there is one. -/
def isLast (client : Bool) : Bool :=
  client && decide (s.useCount clientFrames = 1) || decide (s.useCount streamFrames = 1)

/-- What the destructor of a handle does before its reference goes. -/
def handleDestructor (client : Bool) : StreamImpl × List Sqe :=
  if s.isLast client then
    let (s', q) := s.queueTimerCancel
    (s', q ++ s'.cancelRecv)
  else (s, [])

/-- `send_awaitable::~send_awaitable`. -/
def sendAwaitableDestructor : List Sqe :=
  if s.isActive (.op .send) then [.cancelOp (.op .send)] else []

/-- `connect_awaitable::~connect_awaitable`. -/
def connectAwaitableDestructor : List Sqe :=
  (if s.isActive (.op .socket) then [.cancelOp (.op .socket)] else []) ++
    (if s.isActive (.op .connect) then [.cancelOp (.op .connect)] else [])

/-- The destructor of an awaitable, as to what it queues. -/
def awaitableDestructor : FrameId → List Sqe
  | .op .send => s.sendAwaitableDestructor
  | .op .connect => s.connectAwaitableDestructor
  | _ => []

/-- `stream_impl::~stream_impl`, with the slot it gives back. -/
def destructor : StreamImpl × Option Int :=
  if 0 ≤ s.fd then ({ s with fd := -1 }, some s.fd) else (s, none)

/-- `intrusive_ptr_release`. -/
def release : StreamImpl × Option Int :=
  let s' := { s with count := s.count - 1 }
  if s'.count = 0 then s'.destructor else (s', none)

/-! ### Awaiting -/

/-- `stream_cancel_awaitable::await_suspend`. -/
def cancelAwaitSuspend (h : Coro) : StreamImpl × List Sqe :=
  let s' := s.setFrame .cancel ((s.frame .cancel).start h)
  ({ s' with streamCancelled := true }.addRef, [.request (.op .cancel) s.fd])

/-- `shutdown_awaitable::await_suspend`. -/
def shutdownAwaitSuspend (h : Coro) : StreamImpl × List Sqe :=
  ((s.setFrame .shutdown ((s.frame .shutdown).start h)).addRef, [.request (.op .shutdown) s.fd])

/-- `stream_close_awaitable::await_suspend`. -/
def closeAwaitSuspend (h : Coro) : StreamImpl × List Sqe :=
  let (s', q) := { s with streamCancelled := true }.queueTimerCancel
  ((s'.setFrame .close ((s'.frame .close).start h)).addRef,
    .cancelFd s.fd :: .request (.op .close) s.fd :: q)

/-- `send_awaitable::await_suspend`; `none` is `EBUSY`. -/
def sendAwaitSuspend (h : Coro) (now : Nat) : Option (StreamImpl × List Sqe) :=
  if (s.frame .send).initiated then none
  else
    let s' := s.setFrame .send ((s.frame .send).start h)
    some ({ s' with lastSend := now }.addRef, [.request (.op .send) s.fd])

/-- `recv_awaitable::await_suspend`. -/
def recvAwaitSuspend (h : Coro) (now : Nat) : RecvFrame.Suspend × StreamImpl × List Sqe :=
  match s.recv.awaitSuspend h now with
  | (.arm g, rf) => (.arm g, { s with recv := rf }.addRef, [.request .recv s.fd])
  | (w, rf) => (w, { s with recv := rf }, [])

/-- `connect_awaitable::await_ready` throws `EBUSY`. -/
def connectBusy : Bool := (s.frame .socket).initiated

/-- The descriptor with which `connect_awaitable::await_suspend` goes on, given the slot that
`get_available_fd` answers. -/
def connectFd (slot : Option Nat) : Int :=
  if s.fd = -1 then (slot.map Int.ofNat).getD (-1) else s.fd

/-- `connect_awaitable::await_suspend` goes on to `await_resume` at once, for want of a slot. -/
def connectRefused (slot : Option Nat) : Bool :=
  !(decide (0 ≤ s.fd) && s.connected) && decide (s.connectFd slot < 0)

/-- The socket request of `connect_awaitable::await_suspend`, unless the client is connected. -/
def connectSocket (slot : Option Nat) (h : Coro) : StreamImpl × List Sqe :=
  if 0 ≤ s.fd ∧ s.connected then (s, [])
  else
    let s' := s.setFrame .socket ((s.frame .socket).start h)
    ({ s' with fd := s.connectFd slot }.addRef, [.request (.op .socket) (s.connectFd slot)])

/-- `connect_awaitable::await_suspend`, where it suspends. -/
def connectAwaitSuspend (slot : Option Nat) (h : Coro) : StreamImpl × List Sqe :=
  let (s', q) := s.connectSocket slot h
  ((s'.setFrame .connect ((s'.frame .connect).start h)).addRef,
    q ++ [.request (.op .connect) s'.fd, .linkTimeout])

/-- `connect_awaitable::await_suspend`, where it does not. -/
def connectRefuse : StreamImpl :=
  s.setFrame .socket { s.frame .socket with res := -Errno.ENFILE }

/-- `connect_awaitable::await_resume`: the error of the socket, or that of the connect. -/
def connectAwaitResume : Option Nat × StreamImpl :=
  let res := (s.frame .socket).res
  let res' := (s.frame .connect).res
  let s' := (s.setFrame .socket (s.frame .socket).reset).setFrame .connect (s.frame .connect).reset
  if res < 0 then (some (-res).toNat, s')
  else if res' < 0 then (some (-res').toNat, s')
  else (none, s')

/-- `recv_awaitable::await_resume`, as to the frame; without data the error, which may be
none, is handed out. -/
def recvAwaitResume : StreamImpl :=
  { s with recv := (s.recv.awaitResume.map Prod.snd).getD s.recv }

/-- The `await_resume` of an awaitable, as to the frames. -/
def awaitResume : FrameId → StreamImpl
  | .op .connect => s.connectAwaitResume.2
  | .op o => s.setFrame o (s.frame o).reset
  | .recv => s.recvAwaitResume
  | _ => s

end StreamImpl

end Fiona
