import Fiona.Lib.Run
import Fiona.Stream.Impl

/-!
# The life of a stream

One `stream_impl` or `client_impl`, from its construction to its end: the handles and
awaitables that refer to it, the coroutines suspended in one of its awaitables, and the
requests the kernel has. Each call and each completion is one label, in any order;
moving a handle moves its reference and is therefore no step to speak of, but it has a label, so
that a history can be written down in full.

Two facts are recorded beside what the program keeps: whether the removal of the timer,
and the cancel of the receive, have been queued since the request in flight was. The
slots given to `release_fd` are listed in `released`. A stream whose counter is zero is
destroyed, and nothing more happens to it.
-/

namespace Fiona

structure Life where
  impl : StreamImpl
  /-- The object is a `client_impl`. -/
  client : Bool
  handles : Nat
  awaitables : List FrameId
  suspended : List (Coro × FrameId)
  /-- The handles that `run` has collected and not yet resumed. -/
  collected : List Coro
  inFlight : List FrameId
  timerRemoved : Bool
  recvCancelled : Bool
  released : List Int

inductive LifeOp
  /-- A handle is copy-constructed, or copy-assigned to a handle of something else. -/
  | copyHandle
  /-- A handle is move-constructed, or move-assigned to a handle of something else. -/
  | moveHandle
  /-- A handle is assigned a handle of something else, by copy or by move. -/
  | assignOver
  /-- `client::~client` or `stream::~stream`. -/
  | destroyHandle (asClient : Bool)
  /-- `async_close` and its like. -/
  | newAwaitable (f : FrameId)
  | dropAwaitable (f : FrameId)
  /-- `co_await`, up to the suspension or to the result, with what `get_available_fd` answers if
  it is asked. -/
  | await (f : FrameId) (h : Coro) (slot : Option Nat) (now : Nat)
  /-- A completion is processed and its reference goes. -/
  | process (f : FrameId) (cqe : Cqe) (now p : Nat) (buf : RecvBuffer)
  /-- A collected coroutine is resumed in `await_resume`. -/
  | resume (h : Coro) (f : FrameId)
  /-- `stream::timeout`. -/
  | setTimeout (ts : Nat)
  /-- `stream::set_buffer_group`. -/
  | setBufferGroup (g : Nat)

namespace Life

variable (l : Life)

/-- A new stream on the descriptor `fd`, or a new client. -/
def new (client : Bool) (fd : Int) (now : Nat) : Life where
  impl := (StreamImpl.new (if client then -1 else fd) now).addRef
  client := client
  handles := 1
  awaitables := []
  suspended := []
  collected := []
  inFlight := [.timeout]
  timerRemoved := false
  recvCancelled := false
  released := []

/-- The references of the user's side. -/
def users : Nat := l.handles + l.awaitables.length

/-- The frames that the destructor of a handle of this object looks at. -/
def frames : List FrameId :=
  if l.client then StreamImpl.clientFrames else StreamImpl.streamFrames

/-- Requests are queued, and become the kernel's. -/
def queue (q : List Sqe) : Life :=
  { l with
    inFlight := l.inFlight ++ requests q
    timerRemoved := decide (.timeoutRemove ∈ q) ||
      l.timerRemoved && !decide (.timeout ∈ requests q)
    recvCancelled := decide (.cancelOp .recv ∈ q) ||
      l.recvCancelled && !decide (.recv ∈ requests q) }

/-- What a call on the object leaves of it, and the requests it queues. -/
def update (r : StreamImpl × List Sqe) : Life := { l with impl := r.1 }.queue r.2

/-- A reference goes. -/
def release : Life :=
  { l with impl := l.impl.release.1, released := l.released ++ l.impl.release.2.toList }

/-- A coroutine suspends in an awaitable. -/
def suspend (h : Coro) (f : FrameId) (r : StreamImpl × List Sqe) : Life :=
  { l with suspended := (h, f) :: l.suspended }.update r

/-- `connect_awaitable::await_ready` and `await_suspend`; a connect that is refused goes on to
`await_resume`. -/
def awaitConnect (h : Coro) (slot : Option Nat) : Life :=
  if l.impl.connectBusy then l
  else if l.impl.connectRefused slot then
    { l with impl := l.impl.connectRefuse.awaitResume (.op .connect) }
  else l.suspend h (.op .connect) (l.impl.connectAwaitSuspend slot h)

/-- `recv_awaitable::await_ready` and `await_suspend`. -/
def awaitRecv (h : Coro) (now : Nat) : Life :=
  if l.impl.recv.awaitReady then { l with impl := l.impl.awaitResume .recv }
  else
    match l.impl.recvAwaitSuspend h now with
    | (.resume, s, _) => { l with impl := s.awaitResume .recv }
    | (.throw _, s, _) => { l with impl := s }
    | (_, r) => l.suspend h .recv r

/-- `co_await`; where it throws the coroutine runs on. -/
def await (h : Coro) (slot : Option Nat) (now : Nat) : FrameId → Option Life
  | .op .cancel => some (l.suspend h (.op .cancel) (l.impl.cancelAwaitSuspend h))
  | .op .close => some (l.suspend h (.op .close) (l.impl.closeAwaitSuspend h))
  | .op .shutdown => some (l.suspend h (.op .shutdown) (l.impl.shutdownAwaitSuspend h))
  | .op .send =>
    match l.impl.sendAwaitSuspend h now with
    | none => some l
    | some r => some (l.suspend h (.op .send) r)
  | .op .connect => some (l.awaitConnect h slot)
  | .recv => some (l.awaitRecv h now)
  | .op .socket | .timeout | .timeoutCancel => none

/-- `await_process_cqe` and `handle`, with the slot given back and the requests queued. -/
def processCqe (s : StreamImpl) (cqe : Cqe) (now p : Nat) (buf : RecvBuffer) :
    FrameId → Option (StreamImpl × Option Coro × Option Int × List Sqe)
  | .op o =>
    let (s, slot) := s.opAwaitProcessCqe o cqe.res
    let (h, s) := s.opHandle o
    some (s, h, slot, [])
  | .recv => do
    let s ← s.recvAwaitProcessCqe cqe now p buf
    let (h, rf) := s.recv.handle
    some ({ s with recv := rf }, h, none, [])
  | .timeout =>
    let (s, q) := s.timeoutAwaitProcessCqe cqe now
    some (s, none, none, q)
  | .timeoutCancel => some (s.timeoutCancelAwaitProcessCqe cqe.res, none, none, [])

/-- The requests in flight after a completion: a multishot request stays until its last. -/
def completed (f : FrameId) (cqe : Cqe) : List FrameId :=
  if cqe.more then l.inFlight else l.inFlight.erase f

def perform : LifeOp → Option Life
  | .copyHandle => some { l with impl := l.impl.addRef, handles := l.handles + 1 }
  | .moveHandle => some l
  | .assignOver => some { l with handles := l.handles - 1 }.release
  | .destroyHandle asClient =>
    some ({ l with handles := l.handles - 1 }.update (l.impl.handleDestructor asClient)).release
  | .newAwaitable f => some { l with impl := l.impl.addRef, awaitables := f :: l.awaitables }
  | .dropAwaitable f =>
    some ({ l with awaitables := l.awaitables.erase f }.queue
      (l.impl.awaitableDestructor f)).release
  | .await f h slot now => l.await h slot now f
  | .process f cqe now p buf => do
    let (s, h, slot, q) ← processCqe l.impl cqe now p buf f
    some ({ l with
      inFlight := l.completed f cqe
      collected := l.collected ++ h.toList
      released := l.released ++ slot.toList }.update (s, q)).release
  | .resume h f =>
    some { l with
      suspended := l.suspended.erase (h, f)
      collected := l.collected.erase h
      impl := l.impl.awaitResume f }
  | .setTimeout ts => some (l.update (l.impl.setTimeout ts))
  | .setBufferGroup g => do
    let rf ← l.impl.recv.setBufferGroup g
    some { l with impl := { l.impl with recv := rf } }

/-- A request of the kernel goes on after a completion only if it is multishot: the receive
after data, the timer after a tick. -/
def posts (f : FrameId) (cqe : Cqe) : Bool :=
  !cqe.more || decide (f = .recv ∧ 0 < cqe.res) || decide (f = .timeout) && StreamImpl.isTick cqe

/-- The awaitables that a handle can make. -/
def awaitable : FrameId → Bool
  | .op .socket | .timeout | .timeoutCancel => false
  | .op .connect => l.client
  | _ => true

/-- What the callers and the kernel are held to: there is something to call, a coroutine
waits in one place only, an awaitable is there as long as a coroutine is suspended in it,
and a completion is one of a request in flight. -/
def allows : LifeOp → Bool
  | .copyHandle | .moveHandle | .assignOver | .setTimeout _ | .setBufferGroup _ =>
    decide (0 < l.handles)
  | .destroyHandle asClient => decide (0 < l.handles) && (!asClient || l.client)
  | .newAwaitable f => decide (0 < l.handles) && l.awaitable f
  | .dropAwaitable f => decide ((l.suspended.map Prod.snd).count f < l.awaitables.count f)
  | .await f h _ _ => decide (f ∈ l.awaitables) && l.awaitable f &&
      decide (h ∉ l.suspended.map Prod.fst) &&
      decide ((l.suspended.map Prod.snd).count f < l.awaitables.count f)
  | .process f cqe _ _ _ => decide (f ∈ l.inFlight) && posts f cqe
  | .resume h f => decide ((h, f) ∈ l.suspended) && decide (h ∈ l.collected)

/-- One allowed step in the life of an object that is there. -/
def step (op : LifeOp) : Option Life :=
  if l.impl.count ≠ 0 ∧ l.allows op then l.perform op else none

variable {l} {l' : Life}

/-- What a completion comes to, and the end of its reference. -/
theorem perform_process {f : FrameId} {cqe : Cqe} {now p : Nat} {buf : RecvBuffer}
    (hstep : l.perform (.process f cqe now p buf) = some l') :
    ∃ s h slot q, processCqe l.impl cqe now p buf f = some (s, h, slot, q) ∧
      ({ l with
        inFlight := l.completed f cqe
        collected := l.collected ++ h.toList
        released := l.released ++ slot.toList }.update (s, q)).release = l' := by
  obtain ⟨⟨s, h, slot, q⟩, hp, heq⟩ := Option.bind_eq_some_iff.mp hstep
  exact ⟨s, h, slot, q, hp, Option.some.inj heq⟩

/-- The buffer group is set, of a frame that no receive is in progress in. -/
theorem perform_setBufferGroup {g : Nat} (hstep : l.perform (.setBufferGroup g) = some l') :
    { l with impl := { l.impl with
      recv := { l.impl.recv with bufferGroupId := some g } } } = l' := by
  obtain ⟨rf, hrf, heq⟩ := Option.bind_eq_some_iff.mp hstep
  obtain ⟨-, hrf⟩ := Option.ite_none_left_eq_some.mp hrf
  obtain rfl := Option.some.inj hrf
  exact Option.some.inj heq

end Life

end Fiona
