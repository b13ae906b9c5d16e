import Fiona.Recv.BufRing
import Fiona.Ring

/-!
# The receive frame

`recv_frame` of `src/detail/stream_impl.hpp` and the awaitable that works on it
(`src/tcp.cpp`). Completions of a multishot receive queue what was received in
`buffers_`; `await_resume` hands the whole queue out. An error is kept in `ec_` and
handed out after the queue, so the two members together are what a receiver has
still to be given.
-/

namespace Fiona

/-- `detail::recv_frame`. The error is an `errno`, the group `-1` is `none`, and the
buffer ring pointed to is named by its group. -/
structure RecvFrame where
  buffers : List RecvBuffer
  ec : Option Nat
  pBufRing : Option Nat
  h : Option Coro
  lastRecv : Nat
  bufferGroupId : Option Nat
  initiated : Bool
  deriving DecidableEq, Repr

namespace RecvFrame

variable (rf : RecvFrame)

/-- The frame of a new stream. -/
def init (now : Nat) : RecvFrame := ⟨[], none, none, none, now, none, false⟩

/-- `recv_frame::is_active`. -/
def isActive : Bool := rf.initiated

/-- `recv_frame::handle`. -/
def handle : Option Coro × RecvFrame := (rf.h, { rf with h := none })

/-- The error that `recv_frame::await_process_cqe` stores for a negative result. -/
def errorOf (streamCancelled : Bool) (res : Int) : Nat :=
  if res = -Errno.ECANCELED ∧ ¬streamCancelled then Errno.ETIMEDOUT else (-res).toNat

/-- `recv_frame::await_process_cqe`, given the buffer `buf` taken from the ring if
there is one, and the block `p` of the buffer that stands for the end of the stream. -/
def awaitProcessCqe (streamCancelled : Bool) (cqe : Cqe) (now p : Nat) (buf : RecvBuffer) :
    Option RecvFrame :=
  if cqe.res < 0 then
    if rf.ec.isSome then none
    else some { rf with ec := some (errorOf streamCancelled cqe.res), initiated := cqe.more }
  else if cqe.res = 0 then
    some { rf with buffers := rf.buffers ++ [.alloc p 0], initiated := cqe.more }
  else
    some { rf with lastRecv := now, buffers := rf.buffers ++ [buf], initiated := cqe.more }

/-- `recv_frame::schedule_recv`, apart from the request that it queues. -/
def scheduleRecv (now : Nat) : RecvFrame := { rf with initiated := true, lastRecv := now }

/-- `recv_awaitable::await_ready`. -/
def awaitReady : Bool := !rf.buffers.isEmpty

/-- What `recv_awaitable::await_suspend` comes to. -/
inductive Suspend
  /-- It returns false, and the coroutine goes on at once. -/
  | resume
  /-- It returns true. -/
  | wait
  /-- It returns true and has queued a multishot receive from the group. -/
  | arm (group : Nat)
  /-- It throws. -/
  | throw (errno : Nat)
  deriving DecidableEq, Repr

/-- `recv_awaitable::await_suspend`. -/
def awaitSuspend (h : Coro) (now : Nat) : Suspend × RecvFrame :=
  let rf := { rf with h := some h }
  if rf.ec.isSome then (.resume, rf)
  else if rf.initiated then (.wait, rf)
  else
    match rf.bufferGroupId with
    | none => (.throw Errno.EINVAL, rf)
    | some g => (.arm g, { rf with pBufRing := some g }.scheduleRecv now)

/-- Suspending leaves the queue as it is. -/
theorem awaitSuspend_buffers (h : Coro) (now : Nat) :
    (rf.awaitSuspend h now).2.buffers = rf.buffers := by
  cases hg : rf.bufferGroupId <;> cases hi : rf.initiated <;> cases he : rf.ec <;>
    simp [awaitSuspend, scheduleRecv, hg, hi, he]

/-- What `recv_awaitable::await_resume` returns. -/
inductive Result
  | buffers (bs : List RecvBuffer)
  | error (ec : Nat)
  deriving DecidableEq, Repr

/-- `recv_awaitable::await_resume`, apart from the refilling of the ring. -/
def awaitResume : Option (Result × RecvFrame) :=
  if rf.buffers.isEmpty then
    rf.ec.map fun ec => (.error ec, { rf with ec := none })
  else some (.buffers rf.buffers, { rf with buffers := [] })

/-- `stream::set_buffer_group`, on a registered group. -/
def setBufferGroup (bgid : Nat) : Option RecvFrame :=
  if rf.initiated then none else some { rf with bufferGroupId := some bgid }

end RecvFrame

end Fiona
