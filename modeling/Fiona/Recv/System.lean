import Fiona.Lib.Run
import Fiona.Recv.Frame
import Fiona.Recv.Owned

/-!
# Streams that share buffer rings

The groups registered with a context, the live streams, and the calls that move buffers
between them: a receive completion takes a buffer from the ring the receive was armed
with, `await_resume` refills the ring of the *current* group of the stream, and
`recycle_buffer` refills a group by name.

Each call is one label, and the labels carry what the program does not decide: the
completion the kernel posts, the time and the addresses the allocator answers. What
the kernel promises, and what a caller must have, is `Fiona.RecvSystem.Allows`; what the
program does is `Fiona.RecvSystem.perform`, where `none` is a fault. Nothing is said about which
coroutine makes a call: any number of them may receive on a stream.
-/

namespace Fiona

/-- A live stream, as far as receiving goes: its frame, `stream_cancelled_`, and the
multishot receives the kernel has, each with the group it was armed with. -/
structure RecvStream where
  rf : RecvFrame
  streamCancelled : Bool
  inFlight : List Nat
  deriving DecidableEq, Repr

/-- The registered groups and the streams; a destroyed stream leaves its place empty. -/
structure RecvSystem where
  groups : Nat → Option BufRing
  streams : List (Option RecvStream)

inductive RecvOp
  /-- `executor::register_buf_ring`. -/
  | registerGroup (g numBufs bufSize : Nat) (alloc : Nat → Nat)
  | newStream (now : Nat)
  | destroyStream (i : Nat)
  /-- `stream::set_buffer_group`. -/
  | setBufferGroup (i g : Nat)
  /-- `async_cancel` or `async_close` is awaited. -/
  | setCancelled (i : Nat)
  /-- `co_await stream.async_recv()`, up to the suspension or to the result. -/
  | awaitRecv (i : Nat) (h : Coro) (now : Nat) (alloc : Nat → Nat)
  /-- A completion of a receive armed with the group `g` is processed. -/
  | recvCqe (i g : Nat) (cqe : Cqe) (now p : Nat)
  /-- A coroutine suspended in `async_recv` is resumed. -/
  | resume (i : Nat) (alloc : Nat → Nat)
  /-- `executor::recycle_buffer`. -/
  | recycle (g : Nat) (buf : RecvBuffer)

namespace RecvSystem

variable (σ : RecvSystem)

def init : RecvSystem := ⟨fun _ => none, []⟩

def stream (i : Nat) : Option RecvStream := σ.streams[i]?.join

def setStream (i : Nat) (s : RecvStream) : RecvSystem :=
  { σ with streams := σ.streams.set i (some s) }

def setGroup (g : Nat) (r : BufRing) : RecvSystem :=
  { σ with groups := Function.update σ.groups g (some r) }

/-- `recv_awaitable::await_resume` on the stream `i`, which is `s`. -/
def awaitResume (i : Nat) (s : RecvStream) (alloc : Nat → Nat) : Option RecvSystem := do
  let (_, rf) ← s.rf.awaitResume
  if s.rf.buffers.isEmpty then some (σ.setStream i { s with rf := rf })
  else do
    let g ← s.rf.bufferGroupId
    let r ← σ.groups g
    let r ← r.refill alloc s.rf.buffers
    some ((σ.setGroup g r).setStream i { s with rf := rf })

/-- `recv_awaitable::await_suspend` on the stream `i`, which is `s`; where it returns
false the coroutine goes on to `await_resume`. -/
def awaitSuspend (i : Nat) (s : RecvStream) (h : Coro) (now : Nat) (alloc : Nat → Nat) :
    Option RecvSystem :=
  match s.rf.awaitSuspend h now with
  | (.resume, rf) => σ.awaitResume i { s with rf := rf } alloc
  | (.wait, rf) => some (σ.setStream i { s with rf := rf })
  | (.arm g, rf) => some (σ.setStream i { s with rf := rf, inFlight := g :: s.inFlight })
  | (.throw _, rf) => some (σ.setStream i { s with rf := rf })

/-- The completion of a receive armed with the group `g`: the kernel consumes the
buffer, if the completion names one, and the frame processes it. -/
def recvCqe (i g : Nat) (s : RecvStream) (cqe : Cqe) (now p : Nat) : Option RecvSystem := do
  let inFlight := if cqe.more then s.inFlight else s.inFlight.erase g
  match cqe.buffer with
  | none => do
    let rf ← s.rf.awaitProcessCqe s.streamCancelled cqe now p .defaulted
    some (σ.setStream i { s with rf := rf, inFlight := inFlight })
  | some id => do
    let r ← σ.groups g
    let σ := σ.setGroup g (r.consume id)
    let g' ← s.rf.pBufRing
    let r' ← σ.groups g'
    let (buf, r') ← r'.takeBuf g' id cqe.res.toNat
    let rf ← s.rf.awaitProcessCqe s.streamCancelled cqe now p buf
    some ((σ.setGroup g' r').setStream i { s with rf := rf, inFlight := inFlight })

/-- What a call does; `none` is a fault. -/
def perform : RecvOp → Option RecvSystem
  | .registerGroup g numBufs bufSize alloc => do
    let r ← BufRing.new numBufs bufSize alloc
    some (σ.setGroup g r)
  | .newStream now => some { σ with streams := σ.streams ++ [some ⟨.init now, false, []⟩] }
  | .destroyStream i => some { σ with streams := σ.streams.set i none }
  | .setBufferGroup i g => do
    let s ← σ.stream i
    let rf ← s.rf.setBufferGroup g
    some (σ.setStream i { s with rf := rf })
  | .setCancelled i => do
    let s ← σ.stream i
    some (σ.setStream i { s with streamCancelled := true })
  | .awaitRecv i h now alloc => do
    let s ← σ.stream i
    if s.rf.awaitReady then σ.awaitResume i s alloc else σ.awaitSuspend i s h now alloc
  | .recvCqe i g cqe now p => do
    let s ← σ.stream i
    σ.recvCqe i g s cqe now p
  | .resume i alloc => do
    let s ← σ.stream i
    σ.awaitResume i s alloc
  | .recycle g buf => do
    let r ← σ.groups g
    let r ← r.recycleBuffer buf
    some (σ.setGroup g r)

/-- A completion of a multishot receive armed with the group of the ring `r`: the last
one of an error or an end of stream lacks `IORING_CQE_F_MORE`, and data, and only data, comes
in a buffer that is published. -/
def posts (r : BufRing) (cqe : Cqe) : Bool :=
  if cqe.res ≤ 0 then !cqe.more && cqe.buffer.isNone
  else cqe.buffer.any fun id => id ∈ r.published.map BufEntry.bid

/-- What the callers and the kernel are held to: a name is registered once and a group
looked up is registered – otherwise the call throws and changes nothing –, a ring can be
set up with the size asked for, a stream is there and is not destroyed under a receive,
a resumed coroutine finds something to take, and a recycled buffer has capacity. -/
def allows : RecvOp → Bool
  | .registerGroup g numBufs bufSize _ =>
    (σ.groups g).isNone && decide (∃ k < 16, numBufs = 2 ^ k) && decide (bufSize ≠ 0)
  | .newStream _ => true
  | .destroyStream i => (σ.stream i).any fun s => s.inFlight.isEmpty
  | .setBufferGroup i g => ((σ.stream i).any fun s => !s.rf.initiated) && (σ.groups g).isSome
  | .setCancelled i => (σ.stream i).isSome
  | .awaitRecv i _ _ _ => (σ.stream i).isSome
  | .recvCqe i g cqe _ _ =>
    ((σ.stream i).any fun s => g ∈ s.inFlight) && (σ.groups g).any fun r => posts r cqe
  | .resume i _ => (σ.stream i).any fun s => !s.rf.buffers.isEmpty || s.rf.ec.isSome
  | .recycle g buf => (σ.groups g).isSome && decide (0 < buf.capacity)

/-- One allowed call. -/
def step (op : RecvOp) : Option RecvSystem := if σ.allows op then σ.perform op else none

end RecvSystem

end Fiona
