import Fiona.Recv.Ownership

/-!
# The bytes that are received

A received byte is written once, by the kernel, into the memory that a buffer ring published, and
is read there by whoever gets the buffer: it is never copied. In between the buffer goes from its
slot to the queue of a stream and from there to a coroutine, which may keep it, destroy it or
hand it to a ring again, while other streams receive into the other buffers of the same group.

The system is that of `Fiona.RecvSystem`, with the contents of the memory. Blocks are numbered in
the order in which they are allocated; a number is not used again, unlike an address. That a
coroutine does not write to the buffers it was given is assumed here.

What every stream was given, followed by what its queue holds, is what was received
(`Fiona.RecvMemory.recv_bytes`), and a block has one owner at a time
(`Fiona.RecvMemory.blocks_owned`): what the kernel may write to, nobody reads.
-/

namespace Fiona

open Transition

variable {β : Type}

/-- The receive system, the contents of the blocks, the buffers that coroutines have, each with what
was in it when they got it, and for each stream the bytes that were received and those that
were given to a coroutine. -/
structure RecvMemory (β : Type) where
  sys : RecvSystem
  mem : Nat → List β
  next : Nat
  user : List (RecvBuffer × List β)
  received : Nat → List β
  given : Nat → List β

/-- The calls of `Fiona.RecvOp`, and what a coroutine does with its buffers. -/
inductive MemoryOp (β : Type)
  | registerGroup (g numBufs bufSize : Nat)
  | newStream (now : Nat)
  | destroyStream (i : Nat)
  | setBufferGroup (i g : Nat)
  | setCancelled (i : Nat)
  | awaitRecv (i : Nat) (h : Coro) (now : Nat)
  /-- A completion, with the bytes that were received. -/
  | recvCqe (i g : Nat) (cqe : Cqe) (now : Nat) (data : List β)
  | resume (i : Nat)
  /-- `executor::recycle_buffer`, with the `k`-th of the buffers. -/
  | recycle (g k : Nat)
  /-- A coroutine makes a buffer. -/
  | newBuffer (capacity : Nat)
  /-- It destroys the `k`-th of the buffers. -/
  | drop (k : Nat)

/-- The blocks of some buffers. -/
def blocksOf (bs : List RecvBuffer) : List Nat := bs.filterMap RecvBuffer.data

/-- The blocks in the queues of the streams. -/
def RecvSystem.queued (σ : RecvSystem) : List Nat :=
  σ.streams.flatMap fun s => s.elim [] fun s => blocksOf s.rf.buffers

/-- The readable bytes of a buffer. -/
def RecvBuffer.content (mem : Nat → List β) (b : RecvBuffer) : List β :=
  b.data.elim [] fun p => (mem p).take b.size

namespace RecvMemory

def init : RecvMemory β := ⟨.init, fun _ => [], 0, [], fun _ => [], fun _ => []⟩

variable (m : RecvMemory β)

/-- The blocks that are not in a ring. -/
def out : List Nat := m.sys.queued ++ blocksOf (m.user.map Prod.fst)

/-- The address that the `i`-th allocation in a call is answered with. -/
def alloc (i : Nat) : Nat := m.next + i

/-- The entry that the kernel takes for a completion. -/
def entry (g id : Nat) : Option BufEntry :=
  (m.sys.groups g).bind fun r => r.published.find? fun e => e.bid = id

/-- What the kernel has written when it posts a completion. -/
def write (g : Nat) (cqe : Cqe) (data : List β) : Nat → List β :=
  match (cqe.buffer.bind (m.entry g)).bind BufEntry.addr with
  | none => m.mem
  | some p => Function.update m.mem p data

/-- The kernel says how many bytes it has written, and writes no more than the entry has room
for. -/
def posts (g : Nat) (cqe : Cqe) (data : List β) : Bool :=
  decide (data.length = cqe.res.toNat) &&
    (cqe.buffer.bind (m.entry g)).all fun e => decide (data.length ≤ e.len)

/-- What is in the queue of a stream. -/
def queue (i : Nat) : List RecvBuffer := (m.sys.stream i).elim [] fun s => s.rf.buffers

/-- A coroutine goes on with the queue of the stream `i`; where this is empty, with an error or not
at all. -/
def handOut (i : Nat) (sys : RecvSystem) : RecvMemory β :=
  let buffers := m.queue i
  { m with
    sys := sys
    next := m.next + buffers.length
    user := m.user ++ buffers.map fun b => (b, b.content m.mem)
    given := Function.update m.given i (m.given i ++ buffers.flatMap (RecvBuffer.content m.mem)) }

def step : MemoryOp β → Option (RecvMemory β)
  | .registerGroup g numBufs bufSize =>
    (m.sys.step (.registerGroup g numBufs bufSize m.alloc)).map fun sys =>
      { m with sys := sys, next := m.next + numBufs }
  | .newStream now => (m.sys.step (.newStream now)).map fun sys => { m with sys := sys }
  | .destroyStream i => (m.sys.step (.destroyStream i)).map fun sys => { m with sys := sys }
  | .setBufferGroup i g => (m.sys.step (.setBufferGroup i g)).map fun sys => { m with sys := sys }
  | .setCancelled i => (m.sys.step (.setCancelled i)).map fun sys => { m with sys := sys }
  | .awaitRecv i h now => (m.sys.step (.awaitRecv i h now m.alloc)).map (m.handOut i)
  | .recvCqe i g cqe now data =>
    if m.posts g cqe data then
      (m.sys.step (.recvCqe i g cqe now m.next)).map fun sys =>
        { m with
          sys := sys
          mem := m.write g cqe data
          next := m.next + 1
          received := Function.update m.received i (m.received i ++ data) }
    else none
  | .resume i => (m.sys.step (.resume i m.alloc)).map (m.handOut i)
  | .recycle g k =>
    m.user[k]?.bind fun x => (m.sys.step (.recycle g x.1)).map fun sys =>
      { m with sys := sys, user := m.user.eraseIdx k }
  | .newBuffer capacity =>
    some { m with next := m.next + 1, user := m.user ++ [(.alloc m.next capacity, [])] }
  | .drop k => some { m with user := m.user.eraseIdx k }

end RecvMemory

end Fiona
