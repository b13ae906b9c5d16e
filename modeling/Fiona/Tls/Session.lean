import Fiona.Tls.Callbacks

/-!
# An established TLS stream

`async_send_impl` and `async_recv_impl` of `src/tls/tls.cpp`, as what coroutines on one stream do
between two `co_await`s. Several coroutines may be in `async_send_impl`, of which one has its
`send` accepted and the others are refused with `EBUSY`; one coroutine is in
`async_recv_impl`, and while it runs no other does.

Each step of the receiver is a label of its own, and so is each callback that the channel
makes inside of `received_data` and how far it has read its data by then. What a channel may
emit, deliver or throw is in the labels. Beside the members it is recorded what was
emitted, handed to the socket, delivered and returned.
-/

namespace Fiona

namespace Tls

open Packing

variable {β : Type*}

/-- A coroutine in `async_recv_impl`; a buffer received is given by its capacity and its
bytes. -/
inductive Receiver (β : Type*)
  /-- There is none. -/
  | idle
  /-- It is suspended in `co_await stream.async_recv()`. -/
  | waiting
  /-- It is in the loop over the buffers received. -/
  | looping (bufs : List (Nat × List β))
  /-- It is in `received_data`, which has read so much of the block's bytes. -/
  | reading (block : Block) (size consumed : Nat) (bufs : List (Nat × List β))
  deriving DecidableEq, Repr

/-- No coroutine is running. -/
def Receiver.quiet : Receiver β → Bool
  | .idle | .waiting => true
  | _ => false

structure Session (β : Type*) where
  cb : Callbacks β
  receiver : Receiver β
  /-- The bytes of the `tcp` send that is in flight. -/
  sending : Option (List β)
  fault : Option Fault
  /-- The number of buffers that were moved into a sequence. -/
  arrived : Nat
  /-- All that was passed to `tls_emit_data`. -/
  emitted : List β
  /-- What was handed to a `tcp` send that succeeded. -/
  handed : List β
  /-- All that was passed to `tls_record_received`. -/
  delivered : List β
  /-- The buffers of the sequences that were returned. -/
  returned : List (RecvBuffer β)
  deriving DecidableEq, Repr

inductive TlsOp (β : Type*)
  /-- `async_send_impl` up to the `tcp` send; the channel emits the bytes. -/
  | send (data : List β)
  /-- The coroutine whose send was accepted goes on, with its result. -/
  | sent (res : Int)
  /-- `async_recv_impl` is called. -/
  | recv
  /-- The `tcp` receive is over, with buffers. -/
  | resume (bufs : List (Nat × List β))
  /-- The `tcp` receive is over, with an error. -/
  | fail
  /-- The loop over the buffers takes the next one, or is over. -/
  | next
  /-- The channel reads on in its data. -/
  | consume (n : Nat)
  | callback (c : Callback β)
  /-- `received_data` returns. -/
  | finish
  /-- `received_data` throws. -/
  | throws

namespace Session

variable (s : Session β)

/-- An established stream, with what the handshake may leave: bytes not sent, and the flag of a
record. -/
def established (sendBuf : List β) (receivedRecord : Bool) : Session β where
  cb := { Callbacks.init with sendBuf := sendBuf, receivedRecord := receivedRecord }
  receiver := .idle
  sending := none
  fault := none
  arrived := 0
  emitted := sendBuf
  handed := []
  delivered := []
  returned := []

def setReceiver (r : Receiver β) : Session β := { s with receiver := r }

/-- `async_send_impl` up to its suspension; a send that is refused throws. -/
def send (data : List β) : Session β :=
  let cb := s.cb.tlsEmitData data
  { s with
    cb := cb
    emitted := s.emitted ++ data
    sending := s.sending <|> some cb.sendBuf }

/-- `async_send_impl` from its resumption on. -/
def sent (res : Int) (data : List β) : Session β :=
  { s with
    cb := { s.cb with sendBuf := [] }
    handed := if res < 0 then s.handed else s.handed ++ data
    sending := none }

/-- `co_return std::move( cb.input_sequence_ )`. -/
def handOff : Session β :=
  { s with
    cb := { s.cb with inputSequence := [], receivedRecord := false }
    returned := s.returned ++ s.cb.inputSequence
    receiver := .idle }

/-- The test of the outer loop of `async_recv_impl`. -/
def again : Session β := if s.cb.receivedRecord then s.handOff else s.setReceiver .waiting

/-- A round of the inner loop of `async_recv_impl`, up to `received_data`: the buffer that stands
for the end of the stream ends the loop. -/
def takeBuf (capacity : Nat) (bytes : List β) (bufs : List (Nat × List β)) : Session β :=
  let buf : RecvBuffer β := ⟨.received s.arrived, capacity, bytes⟩
  if capacity = 0 then
    { s with
      cb := { s.cb with
        inputSequence := s.cb.inputSequence ++ [buf]
        receivedRecord := true }
      arrived := s.arrived + 1
      receiver := .looping [] }
  else
    { s with
      cb := { s.cb with outputSequence := s.cb.outputSequence ++ [buf] }
      arrived := s.arrived + 1
      receiver := .reading buf.id bytes.length 0 bufs }

/-- A callback in `received_data`. -/
def callback (c : Callback β) : Session β :=
  match s.cb.call c with
  | .error f => { s with fault := some f }
  | .ok (cb, _) =>
    { s with
      cb := cb
      emitted := s.emitted ++ c.emits
      delivered := s.delivered ++ c.plaintext }

/-- Buffers as they are received: the bytes fit, and only the end of the stream has none. -/
def wellFormed (bufs : List (Nat × List β)) : Bool :=
  bufs.all fun b => decide (b.2.length ≤ b.1) && (b.2.isEmpty == decide (b.1 = 0))

def perform : TlsOp β → Option (Session β)
  | .send data => if s.receiver.quiet then some (s.send data) else none
  | .sent res =>
    if s.receiver.quiet then s.sending.map (s.sent res) else none
  | .recv =>
    match s.receiver with
    | .idle => some s.again
    | _ => none
  | .resume bufs =>
    match s.receiver with
    | .waiting => if wellFormed bufs then some (s.setReceiver (.looping bufs)) else none
    | _ => none
  | .fail =>
    match s.receiver with
    | .waiting => some (s.setReceiver .idle)
    | _ => none
  | .next =>
    match s.receiver with
    | .looping [] => some s.again
    | .looping (b :: bufs) => some (s.takeBuf b.1 b.2 bufs)
    | _ => none
  | .consume n =>
    match s.receiver with
    | .reading block size consumed bufs =>
      if consumed + n ≤ size then some (s.setReceiver (.reading block size (consumed + n) bufs))
      else none
    | _ => none
  | .callback c =>
    match s.receiver with
    | .reading .. => some (s.callback c)
    | _ => none
  | .finish =>
    match s.receiver with
    | .reading _ _ _ bufs => some (s.setReceiver (.looping bufs))
    | _ => none
  | .throws =>
    match s.receiver with
    | .reading .. => some (s.setReceiver .idle)
    | _ => none

/-- One step, of a stream that has not come to a fault. -/
def step (op : TlsOp β) : Option (Session β) := if s.fault.isSome then none else s.perform op

/-! ### What a step does -/

/-- **The steps**, each with where the receiver is. -/
inductive Steps (s : Session β) : TlsOp β → Session β → Prop
  | send (data : List β) : Steps s (.send data) (s.send data)
  | sent (res : Int) (data : List β) (hsending : s.sending = some data) :
      Steps s (.sent res) (s.sent res data)
  | recv (hidle : s.receiver = .idle) : Steps s .recv s.again
  | resume (bufs : List (Nat × List β)) (hwait : s.receiver = .waiting)
      (hbufs : wellFormed bufs = true) : Steps s (.resume bufs) (s.setReceiver (.looping bufs))
  | fail (hwait : s.receiver = .waiting) : Steps s .fail (s.setReceiver .idle)
  | ended (hover : s.receiver = .looping []) : Steps s .next s.again
  | take (capacity : Nat) (bytes : List β) (bufs : List (Nat × List β))
      (hloop : s.receiver = .looping ((capacity, bytes) :: bufs)) :
      Steps s .next (s.takeBuf capacity bytes bufs)
  | consume (n : Nat) (block : Block) (size consumed : Nat) (bufs : List (Nat × List β))
      (hread : s.receiver = .reading block size consumed bufs) (hle : consumed + n ≤ size) :
      Steps s (.consume n) (s.setReceiver (.reading block size (consumed + n) bufs))
  | callback (c : Callback β) (block : Block) (size consumed : Nat) (bufs : List (Nat × List β))
      (hread : s.receiver = .reading block size consumed bufs) :
      Steps s (.callback c) (s.callback c)
  | finish (block : Block) (size consumed : Nat) (bufs : List (Nat × List β))
      (hread : s.receiver = .reading block size consumed bufs) :
      Steps s .finish (s.setReceiver (.looping bufs))
  | throws (block : Block) (size consumed : Nat) (bufs : List (Nat × List β))
      (hread : s.receiver = .reading block size consumed bufs) :
      Steps s .throws (s.setReceiver .idle)

variable {s} {s' : Session β} {op : TlsOp β}

theorem steps_of_step (hstep : s.step op = some s') : s.fault = none ∧ Steps s op s' := by
  rw [step] at hstep
  split_ifs at hstep with hfault
  refine ⟨by simpa using hfault, ?_⟩
  unfold perform at hstep
  cases op with
  | send data =>
    obtain ⟨-, heq⟩ := Option.ite_none_right_eq_some.mp hstep
    exact Option.some.inj heq ▸ .send data
  | sent res =>
    obtain ⟨-, heq⟩ := Option.ite_none_right_eq_some.mp hstep
    obtain ⟨data, hdata, rfl⟩ := Option.map_eq_some_iff.mp heq
    exact .sent res data hdata
  | recv =>
    cases hr : s.receiver with
    | idle =>
      simp only [hr] at hstep
      exact Option.some.inj hstep ▸ .recv hr
    | _ => exact absurd hstep (by simp [hr])
  | resume bufs =>
    cases hr : s.receiver with
    | waiting =>
      simp only [hr] at hstep
      obtain ⟨hbufs, heq⟩ := Option.ite_none_right_eq_some.mp hstep
      exact Option.some.inj heq ▸ .resume bufs hr hbufs
    | _ => exact absurd hstep (by simp [hr])
  | fail =>
    cases hr : s.receiver with
    | waiting =>
      simp only [hr] at hstep
      exact Option.some.inj hstep ▸ .fail hr
    | _ => exact absurd hstep (by simp [hr])
  | next =>
    cases hr : s.receiver with
    | looping bufs =>
      cases bufs with
      | nil =>
        simp only [hr] at hstep
        exact Option.some.inj hstep ▸ .ended hr
      | cons b bufs =>
        simp only [hr] at hstep
        exact Option.some.inj hstep ▸ .take b.1 b.2 bufs hr
    | _ => exact absurd hstep (by simp [hr])
  | consume n =>
    cases hr : s.receiver with
    | reading block size consumed bufs =>
      simp only [hr] at hstep
      obtain ⟨hle, heq⟩ := Option.ite_none_right_eq_some.mp hstep
      exact Option.some.inj heq ▸ .consume n block size consumed bufs hr hle
    | _ => exact absurd hstep (by simp [hr])
  | callback c =>
    cases hr : s.receiver with
    | reading block size consumed bufs =>
      simp only [hr] at hstep
      exact Option.some.inj hstep ▸ .callback c block size consumed bufs hr
    | _ => exact absurd hstep (by simp [hr])
  | finish =>
    cases hr : s.receiver with
    | reading block size consumed bufs =>
      simp only [hr] at hstep
      exact Option.some.inj hstep ▸ .finish block size consumed bufs hr
    | _ => exact absurd hstep (by simp [hr])
  | throws =>
    cases hr : s.receiver with
    | reading block size consumed bufs =>
      simp only [hr] at hstep
      exact Option.some.inj hstep ▸ .throws block size consumed bufs hr
    | _ => exact absurd hstep (by simp [hr])

/-- A callback comes to a fault, or to what the callback makes of the members. -/
theorem callback_cases (s : Session β) (c : Callback β) :
    (∃ f, s.cb.call c = .error f ∧ s.callback c = { s with fault := some f }) ∨
      ∃ cb ws, s.cb.call c = .ok (cb, ws) ∧ s.callback c =
        { s with
          cb := cb
          emitted := s.emitted ++ c.emits
          delivered := s.delivered ++ c.plaintext } := by
  rw [callback]
  cases hcall : s.cb.call c with
  | error f => exact .inl ⟨f, rfl, rfl⟩
  | ok r => exact .inr ⟨r.1, r.2, rfl, rfl⟩

@[simp] theorem callback_receiver (s : Session β) (c : Callback β) :
    (s.callback c).receiver = s.receiver := by
  rcases s.callback_cases c with ⟨f, -, heq⟩ | ⟨cb, ws, -, heq⟩ <;> rw [heq]

/-- The end of the stream goes into `input_sequence_`, and a buffer with data is read. -/
theorem takeBuf_cases (s : Session β) (capacity : Nat) (bytes : List β)
    (bufs : List (Nat × List β)) :
    (capacity = 0 ∧ s.takeBuf capacity bytes bufs =
      { s with
        cb := { s.cb with
          inputSequence := s.cb.inputSequence ++ [⟨.received s.arrived, capacity, bytes⟩]
          receivedRecord := true }
        arrived := s.arrived + 1
        receiver := .looping [] }) ∨
    (capacity ≠ 0 ∧ s.takeBuf capacity bytes bufs =
      { s with
        cb := { s.cb with
          outputSequence := s.cb.outputSequence ++ [⟨.received s.arrived, capacity, bytes⟩] }
        arrived := s.arrived + 1
        receiver := .reading (.received s.arrived) bytes.length 0 bufs }) := by
  by_cases hcap : capacity = 0
  · exact .inl ⟨hcap, if_pos hcap⟩
  · exact .inr ⟨hcap, if_neg hcap⟩

/-- The loop goes on or hands the sequence out. -/
theorem again_cases (s : Session β) :
    (s.cb.receivedRecord = true ∧ s.again = s.handOff) ∨
      (s.cb.receivedRecord = false ∧ s.again = s.setReceiver .waiting) := by
  rw [again]
  cases hrecord : s.cb.receivedRecord with
  | true => exact .inl ⟨rfl, rfl⟩
  | false => exact .inr ⟨rfl, rfl⟩

/-- After either, the channel does not read. -/
theorem again_receiver_ne (s : Session β) (block : Block) (size consumed : Nat)
    (bufs : List (Nat × List β)) : s.again.receiver ≠ .reading block size consumed bufs := by
  rcases s.again_cases with ⟨-, heq⟩ | ⟨-, heq⟩ <;> rw [heq] <;> simp [handOff, setReceiver]

end Session

end Tls

end Fiona
