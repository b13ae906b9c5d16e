import Fiona.Frames.File
import Fiona.Stream.Life

/-!
# The frames of a stream and of a client

A stream or a client, as an object whose awaitables share its frames: `stream_impl` and
`client_impl` of `Fiona.Stream.Impl`, with the two members that are left out there because they
hold arguments, `addr_storage_` and `shutdown_frame::how_`. What a send is to write is kept in its
awaitable, not in the frame. References are not looked at here (see `Fiona.Stream.Life`).
-/

namespace Fiona

open Shared

/-- `sockaddr_in` or `sockaddr_in6`: the family, and the rest. -/
structure SockAddr where
  ipv4 : Bool
  data : Nat
  deriving DecidableEq, Repr

/-- The arguments that lie in the frames. -/
structure ClientArgs where
  addrStorage : SockAddr
  how : Int
  deriving DecidableEq, Repr

/-- The calls that make an awaitable. -/
inductive ClientCall
  | asyncClose
  | asyncCancel
  | asyncSend (buf : Span)
  | asyncRecv
  | asyncShutdown (how : Int)
  | asyncConnect (addr : SockAddr)
  deriving DecidableEq, Repr

/-- What is asked of the kernel. -/
inductive ClientRequest
  | plain
  | send (buf : Span)
  | shutdown (how : Int)
  /-- A socket of the family is asked for, and the connect request has the length of an address of
  this family and what lies at the address that it is given. -/
  | connect (ipv4 : Bool) (addr : SockAddr)
  deriving DecidableEq, Repr

namespace ClientArgs

variable (m : ClientArgs)

def init : ClientArgs := ⟨⟨true, 0⟩, 0⟩

/-- `client::async_connect`, for an address of one of the two families, and
`stream::async_shutdown`. -/
def store : ClientCall → ClientArgs
  | .asyncConnect addr => { m with addrStorage := addr }
  | .asyncShutdown how => { m with how := how }
  | _ => m

/-- What a call asks for. -/
def asked : ClientCall → ClientRequest
  | .asyncSend buf => .send buf
  | .asyncShutdown how => .shutdown how
  | .asyncConnect addr => .connect addr.ipv4 addr
  | _ => .plain

/-- The requests that `await_suspend` prepares. -/
def capture : ClientCall → ClientRequest
  | .asyncSend buf => .send buf
  | .asyncShutdown _ => .shutdown m.how
  | .asyncConnect _ => .connect m.addrStorage.ipv4 m.addrStorage
  | _ => .plain

/-- The kernel reads the address when the request is submitted. -/
def deref : ClientRequest → ClientRequest
  | .connect ipv4 _ => .connect ipv4 m.addrStorage
  | r => r

/-- `shutdown_frame::reset`, as to the argument; the address stays. -/
def clear : FrameId → ClientArgs
  | .op .shutdown => { m with how := 0 }
  | _ => m

end ClientArgs

/-- What is found in a completion of a stream, and when. -/
structure ClientCqe where
  cqe : Cqe
  now : Nat
  p : Nat
  buf : RecvBuffer

/-- What else happens to a stream. -/
inductive ClientOther
  /-- A completion of the timer, or of the cancel that it has issued. -/
  | timeout (cqe : Cqe) (now : Nat)
  | timeoutCancel (res : Int)
  | setTimeout (ts : Nat)
  | setBufferGroup (g : Nat)

namespace StreamImpl

variable (s : StreamImpl)

/-- The frame that the awaitable of a call works on. -/
def frameOf : ClientCall → FrameId
  | .asyncClose => .op .close
  | .asyncCancel => .op .cancel
  | .asyncSend _ => .op .send
  | .asyncRecv => .recv
  | .asyncShutdown _ => .op .shutdown
  | .asyncConnect _ => .op .connect

/-- The handle that a frame has. -/
def stored : FrameId → Option Coro
  | .op o => (s.frame o).h
  | .recv => s.recv.h
  | .timeout | .timeoutCancel => none

/-- `connect_awaitable::await_ready` and `await_suspend`; one that is refused for want of a slot
goes on to `await_resume`. -/
def awaitConnect (h : Coro) (slot : Option Nat) : Outcome StreamImpl FrameId :=
  if s.connectBusy then .refuses
  else if s.connectRefused slot then .goesOn (s.connectRefuse.awaitResume (.op .connect))
  else .suspends (s.connectAwaitSuspend slot h).1 (requests (s.connectAwaitSuspend slot h).2)

/-- `recv_awaitable::await_ready` and `await_suspend`. -/
def awaitRecv (h : Coro) (now : Nat) : Outcome StreamImpl FrameId :=
  if s.recv.awaitReady then .goesOn (s.awaitResume .recv)
  else
    match s.recvAwaitSuspend h now with
    | (.resume, s, _) => .goesOn (s.awaitResume .recv)
    | (.throw _, s, _) => .goesOn s
    | (_, s, q) => .suspends s (requests q)

/-- `co_await`, up to the suspension or to the result. -/
def await (h : Coro) (slot : Option Nat) (now : Nat) : ClientCall → Outcome StreamImpl FrameId
  | .asyncClose => .suspends (s.closeAwaitSuspend h).1 (requests (s.closeAwaitSuspend h).2)
  | .asyncCancel => .suspends (s.cancelAwaitSuspend h).1 (requests (s.cancelAwaitSuspend h).2)
  | .asyncShutdown _ =>
    .suspends (s.shutdownAwaitSuspend h).1 (requests (s.shutdownAwaitSuspend h).2)
  | .asyncSend _ => (s.sendAwaitSuspend h now).elim .refuses fun r => .suspends r.1 (requests r.2)
  | .asyncConnect _ => s.awaitConnect h slot
  | .asyncRecv => s.awaitRecv h now

/-- `co_await` does not throw before anything is stored or reset. -/
def takes : ClientCall → Bool
  | .asyncSend _ => !(s.frame .send).initiated
  | .asyncConnect _ => !s.connectBusy
  | .asyncRecv => !s.recv.awaitReady
  | _ => true

/-- The `handle` of a frame gives out the handle: that of a socket does so only after an error. -/
def gives (c : ClientCqe) : FrameId → Bool
  | .op .socket => decide (c.cqe.res < 0) || decide ((s.frame .socket).res < 0)
  | _ => true

/-- A step that is about no awaitable. -/
def other : ClientOther → Option StreamImpl
  | .timeout cqe now =>
    if Life.posts .timeout cqe then some (s.timeoutAwaitProcessCqe cqe now).1 else none
  | .timeoutCancel res => some (s.timeoutCancelAwaitProcessCqe res)
  | .setTimeout ts => some (s.setTimeout ts).1
  | .setBufferGroup g => (s.recv.setBufferGroup g).map fun rf => { s with recv := rf }

end StreamImpl

/-- A client; a stream is one on which `async_connect` is not called. -/
def clientObject :
    Object StreamImpl ClientArgs FrameId Coro ClientCall ClientRequest
    (Option Nat × Nat) ClientCqe ClientOther where
  main := StreamImpl.frameOf
  kind
    | .op .socket => .op .connect
    | f => f
  asked := ClientArgs.asked
  store := ClientArgs.store
  capture := ClientArgs.capture
  deref := ClientArgs.deref
  clear := ClientArgs.clear
  await s x h w := s.await h w.1 w.2 x
  process s f c := (Life.processCqe s c.cqe c.now c.p c.buf f).map fun r => (r.1, r.2.1)
  more c := c.cqe.more
  posts f c := Life.posts f c.cqe
  resume := StreamImpl.awaitResume
  drops
    | .op .send => [.op .send]
    | .op .connect => [.op .socket, .op .connect]
    | _ => []
  active := StreamImpl.isActive
  other := StreamImpl.other
  stored := StreamImpl.stored
  takes s x _ := s.takes x
  gives s f c := s.gives c f
  resets
    | .op _ => true
    | _ => false

end Fiona
