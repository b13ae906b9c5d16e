import Fiona.Lib.Run
import Fiona.Slots.Acceptor
import Fiona.Stream.Life
import Mathlib.Data.Finset.Basic

/-!
# Descriptor slots

The table of registered descriptors of a context: the free slots, `fds_`, and everything that
can have one – acceptors, accepts in progress, streams and clients, and the raw descriptors that
`async_accept_raw` has handed to the caller. `get_available_fd` takes a slot and `release_fd`
gives one back; both fail, as they assert, on a slot outside of the table, and `release_fd` on a
slot that is free already.

An object's step is one of its life (`Fiona.Life.step`, `Fiona.AcceptorLife.step`). What the step
lists in `released` is what it passes to `release_fd`, and the answer of `get_available_fd` that
a step carries must be one that `fds_` can give.
-/

namespace Fiona

/-- The answer that the step uses, if it asks `get_available_fd` for a slot. -/
def Life.asks (l : Life) : LifeOp → Option (Option Nat)
  | .await (.op .connect) _ slot _ =>
    if !l.impl.connectBusy && decide (l.impl.fd = -1) then some slot else none
  | _ => none

/-- The context, as far as slots go. What is absent has not been made yet. -/
structure Slots where
  numFiles : Nat
  fds : Finset Nat
  acceptors : Nat → Option AcceptorLife
  streams : Nat → Option Life
  /-- The raw descriptors that the caller has. -/
  raw : Nat → Option Nat

inductive SlotsOp
  /-- An acceptor is constructed, in the slot that `get_available_fd` answers. -/
  | newAcceptor (i slot : Nat)
  /-- A client is constructed. -/
  | newClient (j now : Nat)
  /-- A stream is constructed on a raw descriptor. -/
  | newStream (j r now : Nat)
  /-- A step of an acceptor, with the place of the stream or the raw descriptor that it hands
  out. -/
  | onAcceptor (i : Nat) (op : AcceptorOp) (j now : Nat)
  /-- A step of a stream or a client. -/
  | onStream (j : Nat) (op : LifeOp)

namespace Slots

variable (σ : Slots)

/-- A new context. -/
def init (numFiles : Nat) : Slots :=
  ⟨numFiles, Finset.range numFiles, fun _ => none, fun _ => none, fun _ => none⟩

/-- `get_available_fd`, where it is asked and answers `slot`. -/
def getAvailableFd : Option (Option Nat) → Option Slots
  | none | some none => some σ
  | some (some n) => if n < σ.numFiles then some { σ with fds := σ.fds.erase n } else none

/-- `release_fd`. -/
def releaseFd (fd : Int) : Option Slots :=
  if fd < 0 then some σ
  else if fd.toNat < σ.numFiles ∧ fd.toNat ∉ σ.fds then
    some { σ with fds := insert fd.toNat σ.fds }
  else none

/-- `release_fd`, for each of the descriptors that a step gives back. -/
def releaseFds : Slots → List Int → Option Slots
  | σ, [] => some σ
  | σ, fd :: rest => (σ.releaseFd fd).bind fun σ' => σ'.releaseFds rest

def setAcceptor (i : Nat) (l : AcceptorLife) : Slots :=
  { σ with acceptors := Function.update σ.acceptors i (some { l with released := [] }) }

def setStream (j : Nat) (l : Life) : Slots :=
  { σ with streams := Function.update σ.streams j (some { l with released := [] }) }

def setRaw (r : Nat) (o : Option Nat) : Slots := { σ with raw := Function.update σ.raw r o }

/-- What an accept hands out: a stream that is connected, or the descriptor. -/
def accept (j now : Nat) : Accepted → Slots
  | .nothing => σ
  | .connection fd =>
    let l := Life.new false fd now
    σ.setStream j { l with impl := { l.impl with connected := true } }
  | .raw fd => σ.setRaw j (some fd.toNat)

/-- What a call does; `none` is a fault. -/
def perform : SlotsOp → Option Slots
  | .newAcceptor i slot => do
    let σ ← σ.getAvailableFd (some (some slot))
    some (σ.setAcceptor i (.new slot))
  | .newClient j now => some (σ.setStream j (.new true (-1) now))
  | .newStream j r now => do
    let fd ← σ.raw r
    some ((σ.setRaw r none).setStream j (.new false fd now))
  | .onAcceptor i op j now => do
    let l ← σ.acceptors i
    let l' ← l.step op
    let σ ← σ.getAvailableFd (l.asks op)
    let σ ← σ.releaseFds l'.released
    some ((σ.setAcceptor i l').accept j now (l.accepted op))
  | .onStream j op => do
    let l ← σ.streams j
    let l' ← l.step op
    let σ ← σ.getAvailableFd (l.asks op)
    let σ ← σ.releaseFds l'.released
    some (σ.setStream j l')

/-- `get_available_fd` answers some free slot, and none if there is none. -/
def answers : Option (Option Nat) → Bool
  | none => true
  | some none => decide (σ.fds = ∅)
  | some (some n) => decide (n ∈ σ.fds)

/-- What the callers and the kernel are held to: what is made is new, a raw descriptor is
adopted once, and the object can take the step. -/
def allows : SlotsOp → Bool
  | .newAcceptor i slot => (σ.acceptors i).isNone && σ.answers (some (some slot))
  | .newClient j _ => (σ.streams j).isNone
  | .newStream j r _ => (σ.streams j).isNone && (σ.raw r).isSome
  | .onAcceptor i op j _ => (σ.streams j).isNone && (σ.raw j).isNone &&
      (σ.acceptors i).any fun l => (l.step op).isSome && σ.answers (l.asks op)
  | .onStream j op => (σ.streams j).any fun l => (l.step op).isSome && σ.answers (l.asks op)

/-- One allowed call. -/
def step (op : SlotsOp) : Option Slots := if σ.allows op then σ.perform op else none

/-! ### The places of a slot -/

/-- What can have a slot. -/
inductive Holder
  | acceptor (i : Nat)
  /-- The accept of an acceptor that is in progress. -/
  | accepting (i : Nat)
  | stream (j : Nat)
  | raw (r : Nat)
  deriving DecidableEq, Repr

/-- The slot `n` is in a place: in `fds_`, which is `none`, or with one that has it. Only objects
that have not been destroyed have any. -/
def Holds : Option Holder → Nat → Prop
  | none, n => n ∈ σ.fds
  | some (.acceptor i), n =>
    ∃ l, σ.acceptors i = some l ∧ l.impl.count ≠ 0 ∧ l.impl.fd = n
  | some (.accepting i), n =>
    ∃ l, σ.acceptors i = some l ∧ l.impl.count ≠ 0 ∧ l.impl.accept.initiated = true ∧
      l.impl.accept.peerFd = n
  | some (.stream j), n => ∃ l, σ.streams j = some l ∧ l.impl.count ≠ 0 ∧ l.impl.fd = n
  | some (.raw r), n => σ.raw r = some n

end Slots

end Fiona
