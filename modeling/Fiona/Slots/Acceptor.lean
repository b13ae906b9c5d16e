import Fiona.Lib.Run
import Fiona.Stream.Impl

/-!
# Acceptors

`acceptor_impl` of `src/tcp.cpp`, its awaitables, and its life from the construction to the
end. An accept asks for a descriptor slot when it is queued and keeps it in `peer_fd_` until its
coroutine is resumed: then the slot goes to the new stream, or to the caller of
`async_accept_raw`. An accept that fails gives its slot back as soon as its completion is
processed.

`cancel_frame` and `acceptor_close_frame` have the members of a stream's frames
(`Fiona.OpFrame`). As for streams, what a step gives to `release_fd` is listed in `released`,
and an acceptor whose counter is zero is destroyed.
-/

namespace Fiona

/-! ### The members -/

/-- `accept_frame`. -/
structure AcceptFrame where
  h : Option Coro
  peerFd : Int
  initiated : Bool
  done : Bool
  deriving DecidableEq, Repr

/-- The frames of an acceptor that a request can carry the address of. -/
inductive AcceptorFrame
  | accept
  | cancel
  | close
  deriving DecidableEq, Repr

/-- The awaitables of an acceptor. -/
inductive AcceptorAwait
  | accept
  | acceptRaw
  | cancel
  | close
  deriving DecidableEq, Repr

/-- `accept_awaitable`, or `accept_raw_awaitable`, which is derived from it. -/
def AcceptorAwait.accepts : AcceptorAwait → Bool
  | .accept | .acceptRaw => true
  | .cancel | .close => false

/-- A request that is queued. -/
inductive AcceptorSqe
  /-- `io_uring_prep_accept_direct` into a slot. -/
  | accept (fd : Int) (slot : Nat)
  /-- `io_uring_prep_cancel_fd`, with or without user data. -/
  | cancelFd (fd : Int) (f : Option AcceptorFrame)
  /-- `io_uring_prep_cancel` of the accept. -/
  | cancelAccept
  /-- `io_uring_prep_close_direct`. -/
  | close (fd : Int)
  deriving DecidableEq, Repr

/-- The frame whose address a request carries. -/
def AcceptorSqe.frame : AcceptorSqe → Option AcceptorFrame
  | .accept _ _ => some .accept
  | .cancelFd _ f => f
  | .cancelAccept => none
  | .close _ => some .close

structure AcceptorImpl where
  accept : AcceptFrame
  cancel : OpFrame
  close : OpFrame
  fd : Int
  count : Int
  deriving DecidableEq, Repr

def AcceptFrame.idle : AcceptFrame := ⟨none, -1, false, false⟩

/-- `accept_frame::reset`. -/
def AcceptFrame.reset (_ : AcceptFrame) : AcceptFrame := idle

namespace AcceptorImpl

variable (s : AcceptorImpl)

/-- `acceptor_impl::acceptor_impl`, as far as it succeeds: the listening socket is installed in
the slot `off`. -/
def new (off : Nat) : AcceptorImpl := ⟨.idle, .idle, .idle, off, 0⟩

/-- `intrusive_ptr_add_ref`. -/
def addRef : AcceptorImpl := { s with count := s.count + 1 }

/-- `acceptor_impl::~acceptor_impl`, with the slot it gives back. -/
def destructor : AcceptorImpl × Option Int :=
  if 0 ≤ s.fd then ({ s with fd := -1 }, some s.fd) else (s, none)

/-- `intrusive_ptr_release`. -/
def release : AcceptorImpl × Option Int :=
  let s' := { s with count := s.count - 1 }
  if s'.count = 0 then s'.destructor else (s', none)

/-! ### Completions -/

/-- `accept_frame::await_process_cqe`; the slot of an accept that failed is given back. -/
def acceptAwaitProcessCqe (res : Int) : AcceptorImpl × Option Int :=
  if res < 0 then
    ({ s with accept := { s.accept with peerFd := res, done := true } }, some s.accept.peerFd)
  else ({ s with accept := { s.accept with done := true } }, none)

/-- `cancel_frame::await_process_cqe`. -/
def cancelAwaitProcessCqe (res : Int) : AcceptorImpl :=
  { s with cancel := s.cancel.complete res }

/-- `acceptor_close_frame::await_process_cqe`; the descriptor is given back. -/
def closeAwaitProcessCqe (res : Int) : AcceptorImpl × Option Int :=
  ({ s with close := s.close.complete res, fd := -1 }, some s.fd)

/-- The `await_process_cqe` of a frame. -/
def awaitProcessCqe (res : Int) : AcceptorFrame → AcceptorImpl × Option Int
  | .accept => s.acceptAwaitProcessCqe res
  | .cancel => (s.cancelAwaitProcessCqe res, none)
  | .close => s.closeAwaitProcessCqe res

/-- The `handle` of a frame. -/
def handle : AcceptorFrame → Option Coro × AcceptorImpl
  | .accept => (s.accept.h, { s with accept := { s.accept with h := none } })
  | .cancel => (s.cancel.h, { s with cancel := s.cancel.exchange.2 })
  | .close => (s.close.h, { s with close := s.close.exchange.2 })

/-! ### Awaiting -/

/-- `accept_awaitable::await_suspend`, with what `get_available_fd` answers if it is asked; an
error number is thrown. -/
def acceptAwaitSuspend (h : Coro) (slot : Option Nat) :
    Except Nat (AcceptorImpl × List AcceptorSqe) :=
  if s.accept.initiated then .error Errno.EBUSY
  else
    match slot with
    | none => .error Errno.ENFILE
    | some n =>
      let accept := { s.accept with initiated := true, h := some h, peerFd := n }
      .ok ({ s with accept := accept }.addRef, [.accept s.fd n])

/-- `accept_cancel_awaitable::await_suspend`. -/
def cancelAwaitSuspend (h : Coro) : AcceptorImpl × List AcceptorSqe :=
  ({ s with cancel := s.cancel.start h }.addRef, [.cancelFd s.fd (some .cancel)])

/-- `accept_close_awaitable::await_suspend`; an error number is thrown. -/
def closeAwaitSuspend (h : Coro) : Except Nat (AcceptorImpl × List AcceptorSqe) :=
  if s.fd < 0 then .error Errno.EBADFD
  else .ok ({ s with close := s.close.start h }.addRef, [.cancelFd s.fd none, .close s.fd])

/-- The `await_suspend` of an awaitable. -/
def awaitSuspend (h : Coro) (slot : Option Nat) :
    AcceptorAwait → Except Nat (AcceptorImpl × List AcceptorSqe)
  | .accept | .acceptRaw => s.acceptAwaitSuspend h slot
  | .cancel => .ok (s.cancelAwaitSuspend h)
  | .close => s.closeAwaitSuspend h

/-- The `await_resume` of an awaitable, as to the frames. -/
def awaitResume : AcceptorAwait → AcceptorImpl
  | .accept | .acceptRaw => { s with accept := s.accept.reset }
  | .cancel => { s with cancel := s.cancel.reset }
  | .close => { s with close := s.close.reset }

/-- `accept_awaitable::~accept_awaitable`. -/
def acceptAwaitableDestructor : List AcceptorSqe :=
  if s.accept.initiated && !s.accept.done then [.cancelAccept] else []

/-- The destructor of an awaitable, as to what it queues. -/
def awaitableDestructor : AcceptorAwait → List AcceptorSqe
  | .accept | .acceptRaw => s.acceptAwaitableDestructor
  | .cancel | .close => []

end AcceptorImpl

/-! ### The life of an acceptor -/

structure AcceptorLife where
  impl : AcceptorImpl
  handles : Nat
  awaitables : List AcceptorAwait
  suspended : List (Coro × AcceptorAwait)
  /-- The handles that `run` has collected and not yet resumed. -/
  collected : List Coro
  inFlight : List AcceptorFrame
  released : List Int
  deriving DecidableEq, Repr

inductive AcceptorOp
  /-- A handle is copied. -/
  | copyHandle
  /-- A handle is destroyed or assigned a handle of something else. -/
  | dropHandle
  /-- `async_accept` and its like. -/
  | newAwaitable (a : AcceptorAwait)
  | dropAwaitable (a : AcceptorAwait)
  /-- `co_await`, up to the suspension, with what `get_available_fd` answers if it is asked. -/
  | await (a : AcceptorAwait) (h : Coro) (slot : Option Nat)
  /-- A completion is processed and its reference goes. -/
  | process (f : AcceptorFrame) (res : Int)
  /-- A collected coroutine is resumed in `await_resume`. -/
  | resume (h : Coro) (a : AcceptorAwait)
  deriving DecidableEq, Repr

/-- What `await_resume` hands to the coroutine, beside an error. -/
inductive Accepted
  | nothing
  /-- A stream, which owns the descriptor. -/
  | connection (fd : Int)
  | raw (fd : Int)
  deriving DecidableEq, Repr

namespace AcceptorLife

variable (l : AcceptorLife)

/-- A new acceptor in the slot `off`. -/
def new (off : Nat) : AcceptorLife := ⟨(AcceptorImpl.new off).addRef, 1, [], [], [], [], []⟩

/-- The references of the user's side. -/
def users : Nat := l.handles + l.awaitables.length

/-- Requests are queued, and become the kernel's. -/
def queue (q : List AcceptorSqe) : AcceptorLife :=
  { l with inFlight := l.inFlight ++ q.filterMap AcceptorSqe.frame }

/-- A reference goes. -/
def release : AcceptorLife :=
  { l with impl := l.impl.release.1, released := l.released ++ l.impl.release.2.toList }

/-- `co_await`; where it throws the coroutine runs on. -/
def await (a : AcceptorAwait) (h : Coro) (slot : Option Nat) : AcceptorLife :=
  match l.impl.awaitSuspend h slot a with
  | .error _ => l
  | .ok (s, q) => { l with impl := s, suspended := (h, a) :: l.suspended }.queue q

/-- `await_process_cqe` and `handle`, before the reference of the request goes. -/
def processed (f : AcceptorFrame) (res : Int) : AcceptorLife :=
  let (s, slot) := l.impl.awaitProcessCqe res f
  let (h, s) := s.handle f
  { l with
    impl := s
    inFlight := l.inFlight.erase f
    collected := l.collected ++ h.toList
    released := l.released ++ slot.toList }

def perform : AcceptorOp → AcceptorLife
  | .copyHandle => { l with impl := l.impl.addRef, handles := l.handles + 1 }
  | .dropHandle => { l with handles := l.handles - 1 }.release
  | .newAwaitable a => { l with impl := l.impl.addRef, awaitables := a :: l.awaitables }
  | .dropAwaitable a =>
    ({ l with awaitables := l.awaitables.erase a }.queue (l.impl.awaitableDestructor a)).release
  | .await a h slot => l.await a h slot
  | .process f res => (l.processed f res).release
  | .resume h a =>
    { l with
      suspended := l.suspended.erase (h, a)
      collected := l.collected.erase h
      impl := l.impl.awaitResume a }

/-- What the step hands to a coroutine: what `await_resume` finds in `peer_fd_`. -/
def accepted : AcceptorOp → Accepted
  | .resume _ .accept =>
    if 0 ≤ l.impl.accept.peerFd then .connection l.impl.accept.peerFd else .nothing
  | .resume _ .acceptRaw => if 0 ≤ l.impl.accept.peerFd then .raw l.impl.accept.peerFd else .nothing
  | _ => .nothing

/-- The answer of `get_available_fd`, if the step asks for one. -/
def asks : AcceptorOp → Option (Option Nat)
  | .await a _ slot => if a.accepts && !l.impl.accept.initiated then some slot else none
  | _ => none

/-- What the callers and the kernel are held to: there is something to call, a coroutine
waits in one place only, an awaitable is there as long as a coroutine is suspended in it,
and a completion is one of a request in flight. -/
def allows : AcceptorOp → Bool
  | .copyHandle | .dropHandle | .newAwaitable _ => decide (0 < l.handles)
  | .dropAwaitable a => decide ((l.suspended.map Prod.snd).count a < l.awaitables.count a)
  | .await a h _ => decide (h ∉ l.suspended.map Prod.fst) &&
      decide ((l.suspended.map Prod.snd).count a < l.awaitables.count a)
  | .process f _ => decide (f ∈ l.inFlight)
  | .resume h a => decide ((h, a) ∈ l.suspended) && decide (h ∈ l.collected)

/-- One allowed step in the life of an acceptor that is there. -/
def step (op : AcceptorOp) : Option AcceptorLife :=
  if l.impl.count ≠ 0 ∧ l.allows op then some (l.perform op) else none

end AcceptorLife

end Fiona
