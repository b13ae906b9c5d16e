import Fiona.Lib.Parking
import Fiona.Stream.Impl

/-!
# The frames of a file

`file_impl` of `src/file.cpp` and its awaitables. The arguments of the calls are stored in the
frames when an awaitable is made; writing and reading read them in `await_suspend`, and of an open
the request carries the address of the path.
-/

namespace Fiona

open Shared

/-- A `std::span`. -/
structure Span where
  data : Nat
  size : Nat
  deriving DecidableEq, Repr

/-- A `std::string`: where its characters lie, and what they are. -/
structure Path where
  data : Nat
  text : String
  deriving DecidableEq, Repr

inductive FileFrame
  | open
  | write
  | read
  deriving DecidableEq, Repr

/-- `open_frame`, `write_frame` and `read_frame`, apart from the arguments, in `file_impl`. -/
structure FileImpl where
  frame : FileFrame → OpFrame
  tempFd : Int
  fd : Int

/-- The arguments that lie in the frames: `pathname_` and `flags_` of `open_frame`, `buf_` and
`buf_index_` of `write_frame` and of `read_frame`. -/
structure FileArgs where
  pathname : Path
  flags : Int
  writeBuf : Span
  writeBufIndex : Int
  readBuf : Span
  readBufIndex : Int
  deriving DecidableEq, Repr

/-- The calls that make an awaitable; of a fixed buffer, the bytes and the index. -/
inductive FileCall
  | asyncOpen (pathname : Path) (flags : Int)
  | asyncWrite (msg : Span)
  | asyncWriteFixed (buf : Span) (bufIndex : Nat)
  | asyncRead (buf : Span)
  | asyncReadFixed (buf : Span) (bufIndex : Nat)
  deriving DecidableEq, Repr

/-- What is asked of the kernel. -/
inductive FileRequest
  /-- `io_uring_prep_openat_direct`, with what lies at the address it is given, if it is still a
  string. -/
  | openat (data : Nat) (text : Option String) (flags : Int)
  | write (buf : Span)
  | writeFixed (buf : Span) (bufIndex : Int)
  | read (buf : Span)
  | readFixed (buf : Span) (bufIndex : Int)
  deriving DecidableEq, Repr

namespace FileArgs

variable (m : FileArgs)

def init : FileArgs := ⟨⟨0, ""⟩, -1, ⟨0, 0⟩, -1, ⟨0, 0⟩, -1⟩

/-- The conversion of a `std::size_t` to `int`. -/
def castInt (n : Nat) : Int := Int.bmod n (2 ^ 32)

/-- `file::async_open`, `file::async_write` and the others. -/
def store : FileCall → FileArgs
  | .asyncOpen pathname flags => { m with pathname := pathname, flags := flags }
  | .asyncWrite msg => { m with writeBuf := msg }
  | .asyncWriteFixed buf i => { m with writeBuf := buf, writeBufIndex := castInt i }
  | .asyncRead buf => { m with readBuf := buf }
  | .asyncReadFixed buf i => { m with readBuf := buf, readBufIndex := castInt i }

/-- What a call asks for. -/
def asked : FileCall → FileRequest
  | .asyncOpen pathname flags => .openat pathname.data (some pathname.text) flags
  | .asyncWrite msg => .write msg
  | .asyncWriteFixed buf i => .writeFixed buf i
  | .asyncRead buf => .read buf
  | .asyncReadFixed buf i => .readFixed buf i

/-- The request that `await_suspend` prepares. -/
def capture : FileFrame → FileRequest
  | .open => .openat m.pathname.data (some m.pathname.text) m.flags
  | .write =>
    if 0 ≤ m.writeBufIndex then .writeFixed m.writeBuf m.writeBufIndex else .write m.writeBuf
  | .read => if 0 ≤ m.readBufIndex then .readFixed m.readBuf m.readBufIndex else .read m.readBuf

/-- The kernel reads the path at the address that it was given, when the request is submitted. -/
def deref : FileRequest → FileRequest
  | .openat data _ flags =>
    .openat data (if m.pathname.data = data then some m.pathname.text else none) flags
  | r => r

/-- The `reset` of a frame, as to the arguments; `clear` leaves the characters of a string where
they are. -/
def clear : FileFrame → FileArgs
  | .open => { m with pathname := { m.pathname with text := "" }, flags := -1 }
  | .write => { m with writeBuf := ⟨0, 0⟩, writeBufIndex := -1 }
  | .read => { m with readBuf := ⟨0, 0⟩, readBufIndex := -1 }

end FileArgs

namespace FileImpl

variable (s : FileImpl)

def new : FileImpl := ⟨fun _ => .idle, -1, -1⟩

def setFrame (f : FileFrame) (x : OpFrame) : FileImpl :=
  { s with frame := Function.update s.frame f x }

/-- The frame that the awaitable of a call works on. -/
def frameOf : FileCall → FileFrame
  | .asyncOpen _ _ => .open
  | .asyncWrite _ | .asyncWriteFixed _ _ => .write
  | .asyncRead _ | .asyncReadFixed _ _ => .read

/-- `open_frame::await_process_cqe`; if the open failed the slot is given back. -/
def openAwaitProcessCqe (res : Int) : FileImpl × Option Int :=
  let s' := s.setFrame .open ((s.frame .open).complete res)
  if 0 ≤ res then ({ s' with fd := s.tempFd, tempFd := -1 }, none)
  else ({ s' with tempFd := -1 }, some s.tempFd)

/-- `write_frame::await_process_cqe`. -/
def writeAwaitProcessCqe (res : Int) : FileImpl := s.setFrame .write ((s.frame .write).complete res)

/-- `read_frame::await_process_cqe`. -/
def readAwaitProcessCqe (res : Int) : FileImpl := s.setFrame .read ((s.frame .read).complete res)

/-- The `await_process_cqe` of a frame. -/
def awaitProcessCqe (res : Int) : FileFrame → FileImpl × Option Int
  | .open => s.openAwaitProcessCqe res
  | .write => (s.writeAwaitProcessCqe res, none)
  | .read => (s.readAwaitProcessCqe res, none)

/-- The `handle` of a frame. -/
def handle (f : FileFrame) : Option Coro × FileImpl :=
  let (h, x) := (s.frame f).exchange
  (h, s.setFrame f x)

/-- `open_awaitable::await_suspend`, with what `get_available_fd` answers. -/
def openAwaitSuspend (h : Coro) (slot : Option Nat) : FileImpl :=
  { s.setFrame .open ((s.frame .open).start h) with tempFd := (slot.map Int.ofNat).getD (-1) }

/-- `write_awaitable::await_suspend`; `none` is `EBUSY`. -/
def writeAwaitSuspend (h : Coro) : Option FileImpl :=
  if (s.frame .write).initiated then none else some (s.setFrame .write ((s.frame .write).start h))

/-- `read_awaitable::await_suspend`; `none` is `EBUSY`. -/
def readAwaitSuspend (h : Coro) : Option FileImpl :=
  if (s.frame .read).initiated then none else some (s.setFrame .read ((s.frame .read).start h))

/-- The `await_suspend` of an awaitable. -/
def awaitSuspend (h : Coro) (slot : Option Nat) : FileFrame → Option FileImpl
  | .open => some (s.openAwaitSuspend h slot)
  | .write => s.writeAwaitSuspend h
  | .read => s.readAwaitSuspend h

/-- The `await_resume` of an awaitable, which resets its frame. -/
def awaitResume : FileFrame → FileImpl
  | .open => { s.setFrame .open (s.frame .open).reset with tempFd := -1 }
  | f => s.setFrame f (s.frame f).reset

end FileImpl

/-- A file, as an object whose awaitables share its frames. All three destructors cancel what is
in flight. -/
def fileObject : Object FileImpl FileArgs FileFrame Coro FileCall FileRequest
    (Option Nat) Int Empty where
  main := FileImpl.frameOf
  kind := id
  asked := FileArgs.asked
  store := FileArgs.store
  capture m x := m.capture (FileImpl.frameOf x)
  deref := FileArgs.deref
  clear := FileArgs.clear
  await s x h slot :=
    (s.awaitSuspend h slot (FileImpl.frameOf x)).elim .refuses fun s =>
      .suspends s [FileImpl.frameOf x]
  process s f res :=
    let (h, s) := (s.awaitProcessCqe res f).1.handle f
    some (s, h)
  more _ := false
  posts _ _ := true
  resume := FileImpl.awaitResume
  drops f := [f]
  active s f := (s.frame f).isActive
  other _ b := nomatch b
  stored s f := (s.frame f).h
  takes s x _ :=
    match FileImpl.frameOf x with
    | .open => true
    | f => !(s.frame f).initiated
  gives _ _ _ := true
  resets _ := true

end Fiona
