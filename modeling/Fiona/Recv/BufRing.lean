import Fiona.Lib.Stock
import Mathlib.Algebra.Group.Nat.Defs
import Mathlib.Data.Nat.Bits
import Mathlib.Logic.Function.Basic
import Mathlib.Tactic.Common

/-!
# Buffer rings

A group of receive buffers (`src/common.cpp`, `buf_ring`): the program keeps the
buffers in `bufs_`, one slot for each id, and publishes their memory in a ring it
shares with the kernel, which picks one of the published ids for each receive. A
slot whose memory was received into is left with a buffer of no capacity, and its
id goes on a hand-rolled stack, `buf_ids_` below `buf_id_pos_`, until the slot gets
new memory and the id is published again.

Publishing takes two calls: `io_uring_buf_ring_add` writes an entry at an offset from
the tail of the ring, and `io_uring_buf_ring_advance` moves the tail, which is when the
kernel sees the entries between the old tail and the new one. So what is published
is *read back* from the ring (`Fiona.BufRing.reading`), and an entry written at the wrong
offset would be missed.

A write or a read through `buf_id_pos_` outside `buf_ids_`, an index outside `bufs_` and
a failed `BOOST_ASSERT` give `none`.
-/

namespace Fiona

/-! ### Buffers -/

/-- A `recv_buffer` as the receive path sees it: its memory, which a defaulted buffer
does not have, and its two lengths. The group is the one a received buffer came from;
the program does not keep it. -/
structure RecvBuffer where
  data : Option Nat
  capacity : Nat
  size : Nat
  group : Option Nat
  deriving DecidableEq, Repr

namespace RecvBuffer

/-- `recv_buffer::recv_buffer()`. -/
def defaulted : RecvBuffer := ⟨none, 0, 0, none⟩

/-- `recv_buffer::recv_buffer( capacity )`, with the address the allocator answers. -/
def alloc (p capacity : Nat) : RecvBuffer := ⟨some p, capacity, 0, none⟩

/-- `recv_buffer_view::empty`. -/
def empty (b : RecvBuffer) : Bool := b.size = 0

/-- `recv_buffer_view::set_len`, on a buffer received from a group. -/
def setLen (b : RecvBuffer) (size group : Nat) : RecvBuffer :=
  { b with size := size, group := some group }

end RecvBuffer

/-! ### The ring -/

/-- `io_uring_buf`. -/
structure BufEntry where
  addr : Option Nat
  len : Nat
  bid : Nat
  deriving DecidableEq, Repr

/-- `detail::buf_ring`, with the ring it shares with the kernel: the entries, the
tail, which is 16 bits wide, and the entries published and not yet consumed. -/
structure BufRing where
  bufs : List RecvBuffer
  bufIds : List Nat
  bufIdPos : Nat
  bufSize : Nat
  slots : Nat → BufEntry
  tail : Nat
  published : List BufEntry

namespace BufRing

variable (r : BufRing)

/-- `buf_ring::num_bufs`. -/
def numBufs : Nat := r.bufs.length

/-- The ids on the stack. -/
def free : List Nat := r.bufIds.take r.bufIdPos

/-- `buf_ring::get_buf`. -/
def getBuf (id : Nat) : Option RecvBuffer := r.bufs[id]?

/-- The assignment to the slot `id`. -/
def setBuf (id : Nat) (b : RecvBuffer) : BufRing := { r with bufs := r.bufs.set id b }

/-- `*buf_id_pos_++ = id`. -/
def pushId (id : Nat) : Option BufRing :=
  if r.bufIdPos < r.bufIds.length then
    some { r with bufIds := r.bufIds.set r.bufIdPos id, bufIdPos := r.bufIdPos + 1 }
  else none

/-- `*( --buf_id_pos_ )`. -/
def popId : Option (Nat × BufRing) :=
  if r.bufIdPos = 0 then none
  else do
    let id ← r.bufIds[r.bufIdPos - 1]?
    some (id, { r with bufIdPos := r.bufIdPos - 1 })

/-- The entry that publishes the memory of `b` under an id, in the widths of
`io_uring_buf`. -/
def entry (b : RecvBuffer) (id : Nat) : BufEntry := ⟨b.data, b.capacity % 2 ^ 32, id % 2 ^ 16⟩

/-- The slot at an offset from the tail; the mask is `io_uring_buf_ring_mask`. -/
def slotAt (off : Nat) : Nat := (r.tail + off) &&& (r.numBufs - 1)

/-- `io_uring_buf_ring_add`. -/
def add (b : RecvBuffer) (id off : Nat) : BufRing :=
  { r with slots := Function.update r.slots (r.slotAt off) (entry b id) }

/-- The `n` entries from the tail on. -/
def reading (n : Nat) : List BufEntry := (List.range n).map fun j => r.slots (r.slotAt j)

/-- `io_uring_buf_ring_advance`: the kernel sees `n` more entries. -/
def advance (n : Nat) : BufRing :=
  { r with tail := (r.tail + n) % 2 ^ 16, published := r.published ++ r.reading n }

/-- The kernel consumes the entry with the id that a completion names. -/
def consume (id : Nat) : BufRing :=
  { r with published := r.published.eraseP fun e => e.bid = id }

/-- The loop of the constructor that publishes every buffer, from the id `i` on. -/
def addAll (r : BufRing) : List RecvBuffer → Nat → BufRing
  | [], _ => r
  | b :: bs, i => (r.add b i i).addAll bs (i + 1)

/-- `buf_ring::buf_ring( ring, num_bufs, buf_size, bgid )`. The kernel sets up rings of
2, 4, … 2¹⁵ entries, or of one. -/
def new (numBufs bufSize : Nat) (alloc : Nat → Nat) : Option BufRing :=
  if ∃ k < 16, numBufs = 2 ^ k then
    if bufSize = 0 then none
    else
      let r : BufRing := {
        bufs := (List.range numBufs).map fun i => RecvBuffer.alloc (alloc i) bufSize
        bufIds := List.replicate numBufs 0
        bufIdPos := 0
        bufSize := bufSize
        slots := fun _ => ⟨none, 0, 0⟩
        tail := 0
        published := [] }
      some ((r.addAll r.bufs 0).advance numBufs)
  else none

/-- `buf_ring::recycle_buffer`. -/
def recycleBuffer (buf : RecvBuffer) : Option BufRing :=
  if r.bufIdPos = 0 then some r
  else do
    let (id, r) ← r.popId
    let b ← r.getBuf id
    if b.capacity = 0 ∧ 0 < buf.capacity then
      let r := (r.add buf id 0).advance 1
      some (r.setBuf id buf)
    else none

/-- What `recv_frame::await_process_cqe` does to the ring for a completion with data:
move the buffer out of its slot, set its length and push the id. -/
def takeBuf (group id size : Nat) : Option (RecvBuffer × BufRing) := do
  let buf ← r.getBuf id
  if 0 < buf.capacity then
    let r := r.setBuf id .defaulted
    let r ← r.pushId id
    some (buf.setLen size group, r)
  else none

/-- The loop of `recv_awaitable::await_resume` that gives a slot new memory for each
received buffer, up to the first empty one; it counts the entries added. -/
def replenish (alloc : Nat → Nat) (r : BufRing) : List RecvBuffer → Nat → Option (Nat × BufRing)
  | [], len => some (len, r)
  | buffer :: bs, len =>
    if buffer.empty then some (len, r)
    else if r.bufIdPos = 0 then some (len, r)
    else do
      let (id, r) ← r.popId
      let b ← r.getBuf id
      if b.capacity = 0 ∧ 0 < r.bufSize then
        let b := RecvBuffer.alloc (alloc len) r.bufSize
        let r := (r.setBuf id b).add b id len
        r.replenish alloc bs (len + 1)
      else none

/-- The part of `recv_awaitable::await_resume` that refills the ring. -/
def refill (alloc : Nat → Nat) (buffers : List RecvBuffer) : Option BufRing := do
  let (len, r) ← r.replenish alloc buffers 0
  if 0 < len then some (r.advance len) else some r

end BufRing

end Fiona
