import Mathlib.Logic.Function.Basic

/-!
# Receive buffers and sequences of them

`include/fiona/buffer.hpp` as a program over an explicit memory. A `recv_buffer` is
one heap block whose first bytes are a header (`Fiona.BufHeader`) with the size, the
capacity and two link fields; a `recv_buffer_sequence` threads such blocks through
their headers and through a **sentry** header that is a member of the sequence
object itself. So the address of the sentry is the address of the object, and
every operation that moves buffers from one object to another has to make the
last of them point to another sentry.

The memory (`Fiona.Mem`) maps the addresses of headers to headers, `none` being an
address nothing lives at. Reading or writing through the null pointer or through
such an address is a fault, and so is freeing a block that is not allocated; an
operation that faults, or whose `BOOST_ASSERT` fails, gives `none`. The pool of
objects (`Fiona.Pool`) names the `recv_buffer` and `recv_buffer_sequence` objects by
numbers, and its two counters record, for each block address, how often it was
allocated and how often freed – the program does not read them.
-/

namespace Fiona

/-! ### Headers and the memory they live in -/

/-- The addresses a header can have: the static header that a defaulted
`recv_buffer` refers to, the front of a heap block, or the `sentry_` member of a
sequence object. -/
inductive Addr
  /-- `detail::default_buf_header()`. -/
  | defaultHeader
  /-- A block obtained from `aligned_alloc`. -/
  | node (n : Nat)
  /-- The `sentry_` of the sequence object `s`. -/
  | sentry (s : Nat)
  deriving DecidableEq, Repr

/-- A pointer to a header; `none` is the null pointer. -/
abbrev Ptr := Option Addr

/-- `detail::buf_header_impl`. -/
structure BufHeader where
  size : Nat
  capacity : Nat
  prev : Ptr
  next : Ptr
  deriving DecidableEq, Repr

/-- A value-initialized header with the given capacity. -/
def BufHeader.init (capacity : Nat) : BufHeader := ⟨0, capacity, none, none⟩

/-- What lives at each address. -/
abbrev Mem := Addr → Option BufHeader

namespace Mem

variable (m : Mem) (a : Addr) (p v : Ptr)

/-- The link a header holds forward. -/
def next : Ptr := (m a).bind BufHeader.next

/-- The link a header holds backward. -/
def prev : Ptr := (m a).bind BufHeader.prev

/-- What a `recv_buffer_view` on a header reports: the size and the capacity. -/
def view : Option (Nat × Nat) := (m a).map fun h => (h.size, h.capacity)

def putNext : Mem := Function.update m a ((m a).map fun h => { h with next := v })

def putPrev : Mem := Function.update m a ((m a).map fun h => { h with prev := v })

def putSize (n : Nat) : Mem := Function.update m a ((m a).map fun h => { h with size := n })

/-- `detail::get_next`. -/
def getNext : Option Ptr := p.bind fun a => (m a).map BufHeader.next

/-- `detail::set_next`. -/
def setNext : Option Mem := p.bind fun a => if (m a).isSome then some (m.putNext a v) else none

/-- `detail::set_prev`. -/
def setPrev : Option Mem := p.bind fun a => if (m a).isSome then some (m.putPrev a v) else none

section

variable {m : Mem} {a b : Addr} {v : Ptr}

theorem getNext_some (h : (m a).isSome) : m.getNext (some a) = some (m.next a) := by
  obtain ⟨x, hx⟩ := Option.isSome_iff_exists.mp h
  simp [getNext, next, hx]

theorem setNext_some (h : (m a).isSome) : m.setNext (some a) v = some (m.putNext a v) := by
  simp [setNext, h]

theorem setPrev_some (h : (m a).isSome) : m.setPrev (some a) v = some (m.putPrev a v) := by
  simp [setPrev, h]

@[simp] theorem isSome_putNext : ((m.putNext a v) b).isSome = (m b).isSome := by
  rcases eq_or_ne b a with rfl | hb
  · simp [putNext]
  · simp [putNext, hb]

@[simp] theorem isSome_putPrev : ((m.putPrev a v) b).isSome = (m b).isSome := by
  rcases eq_or_ne b a with rfl | hb
  · simp [putPrev]
  · simp [putPrev, hb]

@[simp] theorem isSome_putSize {n : Nat} : ((m.putSize a n) b).isSome = (m b).isSome := by
  rcases eq_or_ne b a with rfl | hb
  · simp [putSize]
  · simp [putSize, hb]

/-- Replacing what lives at an address replaces the links found there. -/
theorem next_update (x : Option BufHeader) :
    next (Function.update m a x) = Function.update m.next a (x.bind BufHeader.next) := by
  funext b
  rcases eq_or_ne b a with rfl | hb
  · simp [next]
  · simp [next, hb]

theorem prev_update (x : Option BufHeader) :
    prev (Function.update m a x) = Function.update m.prev a (x.bind BufHeader.prev) := by
  funext b
  rcases eq_or_ne b a with rfl | hb
  · simp [prev]
  · simp [prev, hb]

theorem view_update (x : Option BufHeader) :
    view (Function.update m a x) =
      Function.update m.view a (x.map fun h => (h.size, h.capacity)) := by
  funext b
  rcases eq_or_ne b a with rfl | hb
  · simp [view]
  · simp [view, hb]

/-- Storing a link forward changes that link and no other field of any header. -/
theorem next_putNext (h : (m a).isSome) : (m.putNext a v).next = Function.update m.next a v := by
  obtain ⟨x, hx⟩ := Option.isSome_iff_exists.mp h
  rw [putNext, next_update, hx]
  rfl

@[simp] theorem prev_putNext : (m.putNext a v).prev = m.prev := by
  rw [putNext, prev_update, Function.update_eq_self_iff]
  cases hx : m a <;> simp [prev, hx]

@[simp] theorem view_putNext : (m.putNext a v).view = m.view := by
  rw [putNext, view_update, Function.update_eq_self_iff]
  cases hx : m a <;> simp [view, hx]

/-- Storing a link backward changes that link and no other field of any header. -/
theorem prev_putPrev (h : (m a).isSome) : (m.putPrev a v).prev = Function.update m.prev a v := by
  obtain ⟨x, hx⟩ := Option.isSome_iff_exists.mp h
  rw [putPrev, prev_update, hx]
  rfl

@[simp] theorem next_putPrev : (m.putPrev a v).next = m.next := by
  rw [putPrev, next_update, Function.update_eq_self_iff]
  cases hx : m a <;> simp [next, hx]

@[simp] theorem view_putPrev : (m.putPrev a v).view = m.view := by
  rw [putPrev, view_update, Function.update_eq_self_iff]
  cases hx : m a <;> simp [view, hx]

@[simp] theorem next_putSize {n : Nat} : (m.putSize a n).next = m.next := by
  rw [putSize, next_update, Function.update_eq_self_iff]
  cases hx : m a <;> simp [next, hx]

@[simp] theorem prev_putSize {n : Nat} : (m.putSize a n).prev = m.prev := by
  rw [putSize, prev_update, Function.update_eq_self_iff]
  cases hx : m a <;> simp [prev, hx]

/-- A header that is there reports something. -/
@[simp] theorem isSome_view : (m.view a).isSome = (m a).isSome := by
  simp [view]

end

end Mem

/-! ### Objects -/

/-- The members of a `recv_buffer_sequence` other than `sentry_`, which lives in the
memory. -/
structure RecvBufferSequence where
  pSentry : Addr
  head : Ptr
  tail : Ptr
  numBufs : Nat
  deriving DecidableEq, Repr

namespace RecvBufferSequence

variable (q : RecvBufferSequence)

/-- `recv_buffer_sequence_view::empty`. -/
def empty : Bool := q.numBufs = 0

/-- `recv_buffer_sequence_view::end`. -/
def endIter : Ptr := some q.pSentry

/-- `recv_buffer_sequence_view::begin`. -/
def beginIter : Ptr := if q.empty then q.endIter else q.head

end RecvBufferSequence

/-- The memory and the live objects. A live `recv_buffer` is its `p_`. -/
structure Pool where
  mem : Mem
  seqs : Nat → Option RecvBufferSequence
  bufs : Nat → Option Addr
  allocs : Nat → Nat
  frees : Nat → Nat

namespace Pool

variable (fuel : Nat) (σ : Pool)

/-- Before any object is constructed only the static header exists. -/
def init : Pool where
  mem := Function.update (fun _ => none) .defaultHeader (some (BufHeader.init 0))
  seqs := fun _ => none
  bufs := fun _ => none
  allocs := fun _ => 0
  frees := fun _ => 0

def setSeq (s : Nat) (q : RecvBufferSequence) : Pool :=
  { σ with seqs := Function.update σ.seqs s (some q) }

def setBuf (b : Nat) (a : Addr) : Pool :=
  { σ with bufs := Function.update σ.bufs b (some a) }

/-! ### `recv_buffer` -/

/-- `recv_buffer::aligned_alloc`: the allocator answers with some address nothing
lives at. -/
def alignedAlloc (n capacity : Nat) : Option Pool :=
  if (σ.mem (.node n)).isSome then none
  else some { σ with
    mem := Function.update σ.mem (.node n) (some (BufHeader.init capacity))
    allocs := Function.update σ.allocs n (σ.allocs n + 1) }

/-- `recv_buffer::aligned_delete`. -/
def alignedDelete : Addr → Option Pool
  | .node n =>
    if (σ.mem (.node n)).isSome then
      some { σ with
        mem := Function.update σ.mem (.node n) none
        frees := Function.update σ.frees n (σ.frees n + 1) }
    else none
  | _ => none

/-- `recv_buffer::recv_buffer( capacity )`, for a new object `b`. -/
def newBuffer (b n capacity : Nat) : Option Pool :=
  if (σ.bufs b).isSome then none
  else do
    let σ ← σ.alignedAlloc n capacity
    some (σ.setBuf b (.node n))

/-- `recv_buffer::recv_buffer()`. -/
def defaultBuffer (b : Nat) : Option Pool :=
  if (σ.bufs b).isSome then none else some (σ.setBuf b .defaultHeader)

/-- `recv_buffer::recv_buffer( recv_buffer&& )`, for a new object `b`. -/
def moveBuffer (b c : Nat) : Option Pool :=
  if (σ.bufs b).isSome then none
  else do
    let p ← σ.bufs c
    some ((σ.setBuf b p).setBuf c .defaultHeader)

/-- The deallocation shared by the assignment and the destructor of `recv_buffer`: a
defaulted buffer owns nothing. -/
def deleteBuffer (p : Addr) : Option Pool :=
  if p = .defaultHeader then some σ else σ.alignedDelete p

/-- `recv_buffer::operator=( recv_buffer&& )`. -/
def assignBuffer (b c : Nat) : Option Pool := do
  let p ← σ.bufs b
  let p' ← σ.bufs c
  if b = c then some σ
  else do
    let σ ← σ.deleteBuffer p
    some ((σ.setBuf b p').setBuf c .defaultHeader)

/-- `recv_buffer::~recv_buffer`. -/
def destroyBuffer (b : Nat) : Option Pool := do
  let p ← σ.bufs b
  let σ ← σ.deleteBuffer p
  some { σ with bufs := Function.update σ.bufs b none }

/-- `recv_buffer_view::set_len`, on a view of the block `n`. -/
def setLen (n size : Nat) : Option Pool :=
  if (σ.mem (.node n)).isSome then some { σ with mem := σ.mem.putSize (.node n) size } else none

/-! ### `recv_buffer_sequence` -/

/-- The loop of `recv_buffer_sequence::free_list`: walk from `p` to the sentry `e`,
freeing each block once its link has been read. -/
def freeLoop (e : Addr) : Nat → Pool → Ptr → Option Pool
  | 0, _, _ => none
  | fuel + 1, σ, p =>
    if p = some e then some σ
    else do
      let old ← p
      let p ← σ.mem.getNext p
      let σ ← σ.alignedDelete old
      freeLoop e fuel σ p

/-- `recv_buffer_sequence::free_list`. -/
def freeList (s : Nat) : Option Pool := do
  let q ← σ.seqs s
  if q.head = none then some σ
  else do
    let σ ← freeLoop (.sentry s) fuel σ q.head
    let σ := σ.setSeq s { q with head := none, tail := none, numBufs := 0 }
    let m ← σ.mem.setNext (some (.sentry s)) none
    let m ← m.setPrev (some (.sentry s)) none
    some { σ with mem := m }

/-- `recv_buffer_sequence::recv_buffer_sequence()`, for a new object `s`. -/
def newSequence (s : Nat) : Option Pool :=
  if (σ.seqs s).isSome then none
  else some { σ.setSeq s ⟨.sentry s, none, none, 0⟩ with
    mem := Function.update σ.mem (.sentry s) (some (BufHeader.init 0)) }

/-- The statements that the move constructor and the move assignment share: take
over the head, the tail and the count of `rhs`, empty it, and re-point the two
sentries and the last block. -/
def takeOver (s rhs : Nat) : Option Pool := do
  let q ← σ.seqs s
  let r ← σ.seqs rhs
  let q := { q with head := r.head, tail := r.tail, numBufs := r.numBufs }
  let σ := σ.setSeq s q
  let σ := σ.setSeq rhs { r with head := none, tail := none, numBufs := 0 }
  let m ← σ.mem.setPrev (some (.sentry rhs)) none
  let m ← m.setPrev (some (.sentry s)) q.tail
  let m ← if q.tail = none then some m else m.setNext q.tail (some (.sentry s))
  some { σ with mem := m }

/-- `recv_buffer_sequence::recv_buffer_sequence( recv_buffer_sequence&& )`, for a new
object `s`. -/
def moveSequence (s rhs : Nat) : Option Pool := do
  let σ ← σ.newSequence s
  σ.takeOver s rhs

/-- `recv_buffer_sequence::operator=( recv_buffer_sequence&& )`. -/
def assignSequence (s rhs : Nat) : Option Pool := do
  let q ← σ.seqs s
  if s = rhs then some σ
  else do
    let σ ← if q.empty then some σ else σ.freeList fuel s
    σ.takeOver s rhs

/-- `recv_buffer_sequence::~recv_buffer_sequence`. The sentry goes with the object. -/
def destroySequence (s : Nat) : Option Pool := do
  let σ ← σ.freeList fuel s
  some { σ with
    seqs := Function.update σ.seqs s none
    mem := Function.update σ.mem (.sentry s) none }

/-- `recv_buffer_sequence::push_back( std::move( b ) )`: the parameter takes the block
over from `b`, and `to_raw_parts` takes it from the parameter. -/
def pushBack (s b : Nat) : Option Pool := do
  let p ← σ.bufs b
  if p = .defaultHeader then none
  else do
    let σ := σ.setBuf b .defaultHeader
    let q ← σ.seqs s
    let m ← if q.tail = none then some σ.mem
      else do
        let m ← σ.mem.setNext q.tail (some p)
        m.setPrev (some p) q.tail
    let m ← m.setNext (some p) (some (.sentry s))
    let m ← m.setPrev (some (.sentry s)) (some p)
    let q := { q with
      head := if q.head = none then some p else q.head
      tail := some p
      numBufs := q.numBufs + 1 }
    some { σ.setSeq s q with mem := m }

/-- `b = recv_buffer_sequence::pop_front()`, for a new object `b`. -/
def popFront (s b : Nat) : Option Pool := do
  let q ← σ.seqs s
  if q.empty ∨ (σ.bufs b).isSome then none
  else do
    let p := q.head
    let head ← σ.mem.getNext p
    let m ← σ.mem.setNext p none
    let m ← m.setPrev p none
    let m ← m.setPrev head none
    let a ← p
    let σ := { σ.setBuf b a with mem := m }
    let n := q.numBufs - 1
    if p = q.tail then
      if n = 0 then some (σ.setSeq s { q with head := none, tail := none, numBufs := n }) else none
    else some (σ.setSeq s { q with head := head, numBufs := n })

/-- The body of `recv_buffer_sequence::concat`, on the parameter object `rhs`. -/
def concatBody (s rhs : Nat) : Option Pool := do
  let r ← σ.seqs rhs
  if r.empty then some σ
  else do
    let q ← σ.seqs s
    if q.empty then σ.assignSequence fuel s rhs
    else do
      let m ← σ.mem.setNext q.tail r.head
      let m ← m.setPrev r.head q.tail
      let m ← m.setNext r.tail (some (.sentry s))
      let m ← m.setPrev (some (.sentry s)) r.tail
      let m ← m.setPrev (some (.sentry rhs)) none
      let σ := { σ with mem := m }
      let σ := σ.setSeq s { q with tail := r.tail, numBufs := q.numBufs + r.numBufs }
      some (σ.setSeq rhs { r with head := none, tail := none, numBufs := 0 })

/-- `recv_buffer_sequence::concat( std::move( t ) )`: the parameter is a new object
`param`, move-constructed from `t` before the body and destroyed after it. -/
def concat (s t param : Nat) : Option Pool := do
  let σ ← σ.moveSequence param t
  let σ ← σ.concatBody fuel s param
  σ.destroySequence fuel param

end Pool

/-! ### Programs over a pool -/

/-- The operations on a pool of buffers and sequences. A constructed object gets a
number no live object has; a block gets an address of the allocator's choice. -/
inductive BufferOp
  | newBuffer (b n capacity : Nat)
  | defaultBuffer (b : Nat)
  | moveBuffer (b c : Nat)
  | assignBuffer (b c : Nat)
  | destroyBuffer (b : Nat)
  | setLen (n size : Nat)
  | newSequence (s : Nat)
  | moveSequence (s rhs : Nat)
  | assignSequence (s rhs : Nat)
  | destroySequence (s : Nat)
  | pushBack (s b : Nat)
  | popFront (s b : Nat)
  | concat (s t param : Nat)
  deriving DecidableEq, Repr

/-- One operation, with `fuel` rounds allowed to each `free_list`. -/
def Pool.step (fuel : Nat) (σ : Pool) : BufferOp → Option Pool
  | .newBuffer b n capacity => σ.newBuffer b n capacity
  | .defaultBuffer b => σ.defaultBuffer b
  | .moveBuffer b c => σ.moveBuffer b c
  | .assignBuffer b c => σ.assignBuffer b c
  | .destroyBuffer b => σ.destroyBuffer b
  | .setLen n size => σ.setLen n size
  | .newSequence s => σ.newSequence s
  | .moveSequence s rhs => σ.moveSequence s rhs
  | .assignSequence s rhs => σ.assignSequence fuel s rhs
  | .destroySequence s => σ.destroySequence fuel s
  | .pushBack s b => σ.pushBack s b
  | .popFront s b => σ.popFront s b
  | .concat s t param => σ.concat fuel s t param

end Fiona
