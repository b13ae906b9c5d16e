import Mathlib.Data.BitVec
import Fiona.Context.Loop

/-!
# The pipe of an `io_context`

Other threads reach a context through a pipe: `executor::post` and `waker::wake` write a tagged
pointer, and each call of `run` keeps one read of the pipe in flight, which its `frame` schedules
again after it has processed a record. A record that the kernel has handed to a read is no longer
in the pipe; it exists in the buffer of the read, until its completion is processed.

When `run` is left the read is cancelled, and the guard releases whatever completions it finds
without looking at them. A read can take a record until it is cancelled, and a cancelled read can
outlive the call of `run`; so both the kernel and the other threads may move at any time here.
-/

namespace Fiona

open Transition

/-- A pointer, or what is written into the pipe. -/
abbrev Word := BitVec 64

def wakeMask : Word := 0b01
def postMask : Word := 0b10
def ptrMask : Word := ~~~(wakeMask + postMask)

/-- The tag bits of a pointer are free. -/
def Aligned (p : Word) : Prop := p &&& ptrMask = p

instance : DecidablePred Aligned := fun p => inferInstanceAs (Decidable (p &&& ptrMask = p))

/-- What a record says: a coroutine is to be resumed, or a task to be spawned. -/
inductive Record
  | wake (h : Word)
  | post (task : Word)
  deriving DecidableEq

namespace Record

/-- `waker::wake` and `executor::post`. -/
def encode : Record → Word
  | wake h => h ||| wakeMask
  | post task => task ||| postMask

/-- The pointer of a record. -/
def ptr : Record → Word
  | wake h => h
  | post task => task

/-- `frame::await_process_cqe` looks for `wake_mask` first. -/
def decode (data : Word) : Option Record :=
  if data &&& wakeMask ≠ 0 then some (wake (data &&& ptrMask))
  else if data &&& postMask ≠ 0 then some (post (data &&& ptrMask))
  else none

def wake? : Record → Option Coro
  | wake h => some h.toNat
  | post _ => none

def post? : Record → Option Word
  | wake _ => none
  | post task => some task

theorem tag_of_aligned {p mask : Word} (hp : Aligned p) (hmask : ptrMask &&& mask = 0#64) :
    p &&& mask = 0#64 := by
  rw [← hp, BitVec.and_assoc, hmask, BitVec.and_zero]

theorem ptr_of_aligned {p mask : Word} (hp : Aligned p) (hmask : mask &&& ptrMask = 0#64) :
    (p ||| mask) &&& ptrMask = p := by
  rw [BitVec.and_or_distrib_right, hp, hmask, BitVec.or_zero]

theorem or_tag_of_aligned {p mask : Word} (hp : Aligned p) (tag : Word)
    (hmask : ptrMask &&& mask = 0#64) : (p ||| tag) &&& mask = tag &&& mask := by
  rw [BitVec.and_or_distrib_right, tag_of_aligned hp hmask, BitVec.zero_or]

/-- **A record is read as it was written**, if the tag bits of its pointer are free. -/
theorem decode_encode (r : Record) (hr : Aligned r.ptr) : decode r.encode = some r := by
  cases r with
  | wake h =>
    have hptr : (h ||| wakeMask) &&& ptrMask = h := ptr_of_aligned hr (by decide)
    have hwake : (h ||| wakeMask) &&& wakeMask = wakeMask :=
      or_tag_of_aligned hr wakeMask (by decide)
    rw [encode, decode, hwake, hptr, if_pos (by decide)]
  | post task =>
    have hptr : (task ||| postMask) &&& ptrMask = task := ptr_of_aligned hr (by decide)
    have hwake : (task ||| postMask) &&& wakeMask = 0 := or_tag_of_aligned hr postMask (by decide)
    have hpost : (task ||| postMask) &&& postMask = postMask :=
      or_tag_of_aligned hr postMask (by decide)
    rw [encode, decode, hwake, hpost, hptr, if_neg (by simp), if_pos (by decide)]

end Record

/-- A context with its pipe. A read is named by the call of `run` whose `frame` has scheduled it;
its completion brings the record that it took, or an error. The last members are kept for a
reader: the records written and processed so far, the tasks made from them, the handles that were
found in completions, with those of wake records marked, and the handles that were resumed. -/
structure Piped where
  loop : Loop
  pipe : List Word
  /-- The reads in flight. -/
  reads : List Nat
  /-- The completions of reads that have been posted. -/
  ring : List (Nat × Option Word)
  /-- How many of them the present batch still has. -/
  batch : Nat
  frames : Nat
  written : List Record
  processed : List Record
  posted : List (Word × TaskId)
  found : List (Coro × Bool)
  resumed : List Coro

inductive PipeOp
  /-- Another thread writes a record. -/
  | write (r : Record)
  /-- The kernel hands the front of the pipe to a read. -/
  | take (f : Nat)
  /-- A read fails, or is cancelled. -/
  | lapse (f : Nat)
  /-- The next completion of a read is processed; the number stands for the exception of a failed
  read. -/
  | record (e : Exn)
  /-- Any other step of the loop. -/
  | loop (op : LoopOp)
  deriving DecidableEq

namespace Piped

def init : Piped := ⟨.init, [], [], [], 0, 0, [], [], [], [], []⟩

variable (s : Piped)

/-- The handles that a step of the loop finds in a completion. -/
def foundBy : LoopOp → List Coro
  | .completion h => h.toList
  | _ => []

/-- The handle that a step of the loop resumes. -/
def resumedBy (l : Loop) : LoopOp → List Coro
  | .advance =>
    match l.phase with
    | .handles (c :: _) => [c]
    | _ => []
  | _ => []

/-- `frame::await_process_cqe` for a read that has taken `data`, and `schedule_recv`; the `frame`
then has a handle if the record is that of a `waker`. -/
def process (f : Nat) (rest : List (Nat × Option Word)) (n : Nat) (data : Word) : Option Piped := do
  let s := { s with ring := rest, batch := n, reads := s.reads ++ [f] }
  match Record.decode data with
  | some (.wake h) =>
    let loop ← s.loop.step (.completion (some h.toNat))
    some { s with
      loop := loop
      processed := s.processed ++ [.wake h]
      found := s.found ++ [(h.toNat, true)] }
  | some (.post task) =>
    let loop ← s.loop.step .posted
    some { s with
      loop := loop
      processed := s.processed ++ [.post task]
      posted := s.posted ++ [(task, s.loop.ctx.next)] }
  | none =>
    let loop ← s.loop.step (.completion none)
    some { s with loop := loop }

/-- A step of the loop that is not about the pipe, but for the read that a call of `run`
schedules, the number of completions that a batch has, and those that the guard drops. -/
def follow (op : LoopOp) : Option Piped := do
  let loop ← s.loop.step op
  let s' := { s with
    loop := loop
    found := s.found ++ (foundBy op).map fun c => (c, false)
    resumed := s.resumed ++ resumedBy s.loop op }
  match op with
  | .run => some { s' with frames := s.frames + 1, reads := s.reads ++ [s.frames] }
  | .ready => some { s' with batch := s.ring.length }
  | .posted => none
  | .processed => if s.batch = 0 then some s' else none
  | .leave _ => some { s' with ring := [] }
  | _ => some s'

/-- One step. What is written is the pointer of a coroutine. -/
def step : PipeOp → Option Piped
  | .write r =>
    if Aligned r.ptr ∧ r.ptr ≠ 0 then
      some { s with pipe := s.pipe ++ [r.encode], written := s.written ++ [r] }
    else none
  | .take f =>
    match s.pipe with
    | data :: pipe =>
      if f ∈ s.reads then
        some { s with pipe := pipe, reads := s.reads.erase f, ring := s.ring ++ [(f, some data)] }
      else none
    | [] => none
  | .lapse f =>
    if f ∈ s.reads then some { s with reads := s.reads.erase f, ring := s.ring ++ [(f, none)] }
      else none
  | .record e =>
    match s.batch, s.ring with
    | n + 1, (f, some data) :: rest => s.process f rest n data
    | _ + 1, (_, none) :: _ => (s.loop.step (.throws e)).map fun loop => { s with loop := loop }
    | _, _ => none
  | .loop op => s.follow op

end Piped

end Fiona
