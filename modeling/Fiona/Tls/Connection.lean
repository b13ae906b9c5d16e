import Fiona.Lib.Framing
import Fiona.Tls.InPlace
import Fiona.Tls.Sending

/-!
# Two ends of a TLS connection

Each end is an established TLS stream with its channel (`Fiona.Tls.Channel`), as `async_send_impl`
and `async_recv_impl` of `src/tls/tls.cpp` drive it. What one end transmits is what the other
receives, in order, cut into buffers anyhow and at any later time.

The channels are Botan's. How they write records is a parameter, a framing: a channel makes records
of what it is given to send, it may answer what it reads with records of its own, and of what it
is given to read it finds the next record once that is complete, and keeps the beginning of
one that is not. What it reads is what was received, as long as no byte that it has not consumed
was overwritten; from then on it may make anything of it.

A receive that is handed the end of the stream is handed nothing after it. Both handshakes are over,
and nothing is left of them.
-/

namespace Fiona

namespace Tls

open Packing Transition

variable {β : Type*}

/-- A record: application data, or what the channels tell each other. -/
inductive Record (β : Type*)
  | data (plaintext : List β)
  | control (content : List β)
  deriving DecidableEq, Repr

def Record.plaintext : Record β → List β
  | .data plaintext => plaintext
  | .control _ => []

/-- The bytes in some buffers. -/
def bytesOf (bufs : List (Nat × List β)) : List β := bufs.flatMap Prod.snd

/-- One end, with what it has made of its stream and of the other one's. -/
structure End (β : Type*) where
  channel : Channel β
  /-- The records that the channel has written. -/
  written : List (Record β)
  /-- The records that it has read. -/
  opened : List (Record β)
  /-- Of an incomplete record, what the channel keeps. -/
  kept : List β
  /-- What was received in the buffer that the channel reads, and is not consumed. -/
  unread : List β
  transmitted : List β
  received : List β
  deriving DecidableEq, Repr

inductive EndOp (β : Type*)
  /-- `async_send`, of data of which the channel makes these records. -/
  | send (data : List (List β))
  /-- A `tcp` send is over. -/
  | sent (res : Int)
  | recv
  | resume (bufs : List (Nat × List β))
  | fail
  | next
  /-- The channel reads the next record. -/
  | read
  /-- It answers with records of its own. -/
  | reply (contents : List (List β))
  | closeNotify
  /-- There is no other record in the buffer. -/
  | finish
  /-- It reads something else, after a byte was overwritten. -/
  | misread (op : ChannelOp β)

/-- What is passed to `async_send`. -/
def EndOp.plaintext : EndOp β → List β
  | .send data => data.flatten
  | _ => []

/-- What a channel can do in `received_data`. -/
def ChannelOp.inside : ChannelOp β → Bool
  | .record _ _ | .skip _ | .finish | .tls (.callback _) | .tls .throws => true
  | .tls _ => false

namespace End

variable (e : End β)

def established (receivedRecord : Bool) : End β :=
  ⟨.established [] receivedRecord 0, [], [], [], [], [], []⟩

/-- The other members stay as they are. -/
def perform (op : ChannelOp β) : Option (End β) :=
  (e.channel.perform op).map fun channel => { e with channel := channel }

/-- The channel writes records, and the program takes them in `op`. -/
def write (f : Framing (Record β) β) (records : List (Record β)) (op : List β → TlsOp β) :
    Option (End β) :=
  ({ e with written := e.written ++ records }).perform
    (.tls (op (f.encode e.written.length records)))

/-- What was received in the buffer that is taken next. -/
def nextBytes : List β :=
  match e.channel.session.receiver with
  | .looping (buf :: _) => buf.2
  | _ => []

/-- How far the record goes, in what is read now, and what it is to the program. -/
def recordOp (n : Nat) : Record β → ChannelOp β
  | .data plaintext => .record n plaintext
  | .control _ => .skip n

/-- A step of one end, where the other one has transmitted `incoming`. -/
def step [DecidableEq β] (f : Framing (Record β) β) (incoming : List β) :
    EndOp β → Option (End β)
  | .send data => e.write f (data.map .data) .send
  | .sent res =>
    e.channel.session.sending.bind fun bytes =>
      if res ≤ bytes.length then
        ({ e with transmitted := e.transmitted ++ bytes.take res.toNat }).perform (.tls (.sent res))
      else none
  | .recv => e.perform (.tls .recv)
  | .resume bufs =>
    if e.received ++ bytesOf bufs <+: incoming ∧ ∀ buf ∈ bufs.dropLast, buf.1 ≠ 0 then
      ({ e with received := e.received ++ bytesOf bufs }).perform (.tls (.resume bufs))
    else none
  | .fail => e.perform (.tls .fail)
  | .next => ({ e with unread := e.nextBytes }).perform (.tls .next)
  | .read =>
    if e.channel.clobbered then none
    else
      (f.parse e.opened.length (e.kept ++ e.unread)).bind fun (record, length) =>
        let n := length - e.kept.length
        ({ e with
          opened := e.opened ++ [record]
          kept := []
          unread := e.unread.drop n }).perform (recordOp n record)
  | .reply contents => e.write f (contents.map .control) fun bytes => .callback (.emitData bytes)
  | .closeNotify => e.perform (.tls (.callback .closeNotify))
  | .finish =>
    if e.channel.clobbered ∨ (f.parse e.opened.length (e.kept ++ e.unread)).isSome then none
    else ({ e with kept := e.kept ++ e.unread, unread := [] }).perform .finish
  | .misread op => if e.channel.clobbered && op.inside then e.perform op else none

/-- A `tcp` send is over while `send_buf_` is what it was started with, and has transmitted all of
it; one that failed had nothing to transmit. When a buffer is taken, there is room in front of it
for what the channel has kept. -/
def Orderly : EndOp β → Prop
  | .sent res => e.channel.session.Untouched (.sent res) ∧
      (0 ≤ res → res = e.channel.session.cb.sendBuf.length)
  | .next => e.channel.KeptFits (.tls .next)
  | _ => True

/-- What is left of what was received: what the channel keeps, has not consumed, and was not given
yet. -/
def pending : List β := e.kept ++ e.unread ++ bytesOf e.channel.session.receiver.rest

/-- What the program got of the plaintext, or will get next. -/
def plaintext : List β :=
  contents e.channel.session.returned ++ contents e.channel.session.cb.inputSequence

end End

/-- Both ends. -/
def Connection (β : Type*) := Bool → End β

namespace Connection

/-- The handshakes may have left the flag of a record. -/
def established (receivedRecord : Bool → Bool) : Connection β :=
  fun x => .established (receivedRecord x)

/-- A step of one of the ends. -/
def step [DecidableEq β] (f : Framing (Record β) β) (l : Connection β) (op : Bool × EndOp β) :
    Option (Connection β) :=
  ((l op.1).step f (l !op.1).transmitted op.2).map fun e => Function.update l op.1 e

/-- What one end passes to `async_send` in a run. -/
def sentBy (x : Bool) (ops : List (Bool × EndOp β)) : List β :=
  ops.flatMap fun op => if op.1 = x then op.2.plaintext else []

/-- The condition is on the end that takes the step. -/
def Orderly (l : Connection β) (op : Bool × EndOp β) : Prop := (l op.1).Orderly op.2

/-- Nothing is under way to the end `x`: the other one has transmitted everything, and this one has
received it and has nothing left to read. -/
def Settled (l : Connection β) (x : Bool) : Prop :=
  (l !x).channel.session.cb.sendBuf = [] ∧ (l x).received = (l !x).transmitted ∧
    (l x).pending = []

end Connection

end Tls

end Fiona
