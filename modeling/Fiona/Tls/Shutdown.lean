import Fiona.Lib.Run
import Fiona.Tls.Callbacks

/-!
# Closing a TLS connection

A client that sends a message and shuts the connection down, and a server that receives until it
has the message and shuts it down then, as `async_send`, `async_recv` and the two
`async_shutdown`s of `src/tls/tls.cpp` do it. TCP keeps the order of the bytes and nothing else: a
receive yields any part of what is on its way.

The server's answer to the close notification is put into `send_buf_` by whichever
`received_data` comes to it, but it is sent by `async_shutdown`, and only after it has
received something. If `async_recv` came to it, with the end of the message, there is
nothing left to receive, and the client waits for the answer.
-/

namespace Fiona

namespace Tls

open Transition

/-- A byte of ciphertext, by what ends with it. -/
inductive Sym
  | part
  /-- A record with so many bytes of plaintext. -/
  | record (plain : Nat)
  /-- A close notification. -/
  | notify
  deriving DecidableEq, Repr

/-- What the two sides say: the records of the client's message, each with the number of its other
bytes and of its plaintext, and the other bytes of the two close notifications. -/
structure Dialogue where
  records : List (Nat × Nat)
  closing : Nat
  reply : Nat

/-- The plaintext in so much ciphertext. -/
def plain (data : List Sym) : Nat :=
  (data.map fun
    | .record n => n
    | _ => 0).sum

@[simp] theorem plain_append (data data' : List Sym) :
    plain (data ++ data') = plain data + plain data' := by
  simp [plain]

namespace Dialogue

variable (d : Dialogue)

def notifyAfter (n : Nat) : List Sym := List.replicate n .part ++ [.notify]

def message : List Sym := d.records.flatMap fun r => List.replicate r.1 .part ++ [.record r.2]

/-- The length of the message. -/
def expected : Nat := plain d.message

theorem plain_notifyAfter (n : Nat) : plain (notifyAfter n) = 0 := by
  simp [notifyAfter, plain]

theorem notify_not_mem_message : Sym.notify ∉ d.message := by
  simp [message, List.mem_flatMap]

end Dialogue

/-- What a shutdown is about in `tls_callbacks`, and the plaintext received. -/
structure Peer where
  sendBuf : List Sym
  receivedRecord : Bool
  closeNotifyReceived : Bool
  received : Nat
  deriving DecidableEq, Repr

namespace Peer

variable (p : Peer)

/-- What `received_data` makes of a byte. -/
def read (reply : List Sym) : Sym → Peer
  | .part => p
  | .record n => { p with receivedRecord := true, received := p.received + n }
  | .notify => { p with closeNotifyReceived := true, sendBuf := p.sendBuf ++ reply }

def receivedData (reply data : List Sym) : Peer := data.foldl (fun p sym => p.read reply sym) p

/-- What is emitted for what was received. -/
def replies (reply data : List Sym) : List Sym :=
  data.flatMap fun
    | .notify => reply
    | _ => []

def isRecord : Sym → Bool
  | .record _ => true
  | _ => false

/-- **What a `received_data` does** in all. -/
theorem receivedData_eq (reply data : List Sym) :
    p.receivedData reply data =
      { sendBuf := p.sendBuf ++ replies reply data
        receivedRecord := p.receivedRecord || data.any isRecord
        closeNotifyReceived := p.closeNotifyReceived || data.any fun sym => decide (sym = .notify)
        received := p.received + plain data } := by
  induction data generalizing p with
  | nil => simp [receivedData, replies, plain]
  | cons sym data ih =>
    rw [receivedData, List.foldl_cons, ← receivedData, ih]
    cases sym with
    | part => simp [read, replies, plain, isRecord]
    | record n => simp [read, replies, plain, isRecord, Nat.add_assoc]
    | notify => simp [read, replies, plain, isRecord]

theorem replies_of_not_mem {reply data : List Sym} (h : .notify ∉ data) :
    replies reply data = [] := by
  rw [replies, List.flatMap_eq_nil_iff]
  intro sym hsym
  cases sym with
  | notify => exact absurd hsym h
  | _ => rfl

theorem mem_replies {reply data : List Sym} (hreply : .notify ∈ reply) (h : .notify ∈ data) :
    .notify ∈ replies reply data := List.mem_flatMap.mpr ⟨.notify, h, hreply⟩

/-- Plaintext comes with a record. -/
theorem any_isRecord {data : List Sym} (h : plain data ≠ 0) : data.any isRecord = true := by
  induction data with
  | nil => exact absurd rfl h
  | cons sym data ih =>
    cases sym with
    | record n => rfl
    | part => simpa [isRecord] using ih (by simpa [plain] using h)
    | notify => simpa [isRecord] using ih (by simpa [plain] using h)

end Peer

/-! ### The callbacks behind it -/

/-- The callbacks for a byte; what the plaintext is does not matter here. -/
def Sym.callbacks (reply : List Sym) : Sym → List (Callback Sym)
  | .part => []
  | .record n => [.recordReceived (List.replicate n .part)]
  | .notify => [.closeNotify, .emitData reply]

namespace Callbacks

/-- Callbacks one after the other. -/
def calls : Callbacks Sym → List (Callback Sym) → Except Fault (Callbacks Sym)
  | cb, [] => .ok cb
  | cb, c :: cs =>
    match cb.call c with
    | .error f => .error f
    | .ok (cb', _) => calls cb' cs

/-- The members that a shutdown is about. -/
def peer (cb : Callbacks Sym) (received : Nat) : Peer :=
  ⟨cb.sendBuf, cb.receivedRecord, cb.closeNotifyReceived, received⟩

variable {cb cb' : Callbacks Sym}

theorem calls_append {cs cs' : List (Callback Sym)} (h : cb.calls (cs ++ cs') = .ok cb') :
    ∃ cb₁, cb.calls cs = .ok cb₁ ∧ cb₁.calls cs' = .ok cb' := by
  induction cs generalizing cb with
  | nil => exact ⟨cb, rfl, h⟩
  | cons c cs ih =>
    simp only [List.cons_append, calls] at h ⊢
    cases hcall : cb.call c with
    | error f => simp [hcall] at h
    | ok r =>
      simp only [hcall] at h
      exact ih h

theorem peer_read {reply : List Sym} {sym : Sym} (h : cb.calls (sym.callbacks reply) = .ok cb')
    (received : Nat) : cb'.peer (received + plain [sym]) = (cb.peer received).read reply sym := by
  cases sym with
  | part =>
    obtain rfl := Except.ok.inj h
    rfl
  | record n =>
    simp only [Sym.callbacks, calls] at h
    cases hcall : cb.call (.recordReceived (List.replicate n .part)) with
    | error f => simp [hcall] at h
    | ok r =>
      simp only [hcall, Except.ok.injEq] at h
      subst h
      obtain ⟨hbuf, hrecord, hnotify⟩ := pack_keeps hcall
      simp only [peer, Peer.read, hbuf, hrecord, hnotify]
      rfl
  | notify =>
    obtain rfl := Except.ok.inj h
    rfl

/-- **What `received_data` makes of a shutdown's members** is what its callbacks make of them. -/
theorem peer_receivedData {reply data : List Sym}
    (h : cb.calls (data.flatMap (Sym.callbacks reply)) = .ok cb') (received : Nat) :
    cb'.peer (received + plain data) = (cb.peer received).receivedData reply data := by
  induction data generalizing cb received with
  | nil =>
    obtain rfl := Except.ok.inj h
    rfl
  | cons sym data ih =>
    obtain ⟨cb₁, hsym, hdata⟩ := calls_append h
    have hplain : plain (sym :: data) = plain [sym] + plain data := plain_append [sym] data
    rw [hplain, ← Nat.add_assoc, ih hdata, peer_read hsym]
    rfl

end Callbacks

/-- Where the client is. -/
inductive ClientAt
  | start
  /-- It is suspended in the send of `async_send`. -/
  | sending
  | sent
  /-- It is suspended in the send of `async_shutdown`. -/
  | closing
  /-- It is suspended in the receive of `async_shutdown`. -/
  | awaiting
  | done
  deriving DecidableEq, Repr

/-- Where the server is. -/
inductive ServerAt
  /-- It is in its own code. -/
  | ready
  /-- It is suspended in the receive of `async_recv`. -/
  | receiving
  /-- It is suspended in the receive of `async_shutdown`. -/
  | awaiting
  /-- It is suspended in the send of `async_shutdown`. -/
  | replying
  | done
  /-- `async_shutdown` returned `EINVAL`. -/
  | failed
  deriving DecidableEq, Repr

/-- Both sides, and the bytes on their way. -/
structure Parties where
  client : ClientAt
  server : ServerAt
  clientPeer : Peer
  serverPeer : Peer
  toServer : List Sym
  toClient : List Sym
  deriving DecidableEq, Repr

inductive PartyOp
  /-- `client::async_send`, up to its suspension. -/
  | asyncSend
  | sent
  /-- `client::async_shutdown`, up to its first suspension. -/
  | asyncShutdown
  | closed
  /-- The client's receive yields bytes. -/
  | clientRecv (n : Nat)
  /-- The server calls `async_recv`, or `async_shutdown` if it has the message. -/
  | next
  /-- The server's receive yields bytes. -/
  | serverRecv (n : Nat)
  | replied
  deriving DecidableEq, Repr

namespace Parties

variable (d : Dialogue) (s : Parties)

def start : Parties :=
  ⟨.start, .ready, ⟨[], false, false, 0⟩, ⟨[], false, false, 0⟩, [], []⟩

/-- The client's channel emits, and `send_buf_` is sent. -/
def clientSend (at' : ClientAt) (data : List Sym) : Parties :=
  let sendBuf := s.clientPeer.sendBuf ++ data
  { s with
    client := at'
    clientPeer := { s.clientPeer with sendBuf := sendBuf }
    toServer := s.toServer ++ sendBuf }

/-- The client's send is over. -/
def clientSent (at' : ClientAt) : Parties :=
  { s with client := at', clientPeer := { s.clientPeer with sendBuf := [] } }

/-- `async_recv_impl` up to its suspension; with a record received it returns at once. -/
def asyncRecv : Parties :=
  if s.serverPeer.receivedRecord then
    { s with serverPeer := { s.serverPeer with receivedRecord := false } }
  else { s with server := .receiving }

/-- `async_recv_impl` from its resumption on: it returns if there was a record. -/
def recvResume (data : List Sym) : Parties :=
  let peer := s.serverPeer.receivedData (Dialogue.notifyAfter d.reply) data
  if peer.receivedRecord then
    { s with server := .ready, serverPeer := { peer with receivedRecord := false } }
  else { s with serverPeer := peer }

/-- `server::async_shutdown` from its first resumption on. -/
def shutdownResume (data : List Sym) : Parties :=
  let peer := s.serverPeer.receivedData (Dialogue.notifyAfter d.reply) data
  if peer.closeNotifyReceived then
    { s with
      server := .replying
      serverPeer := peer
      toClient := s.toClient ++ peer.sendBuf }
  else { s with server := .failed, serverPeer := peer }

def step : PartyOp → Option Parties
  | .asyncSend => if s.client = .start then some (s.clientSend .sending d.message) else none
  | .sent => if s.client = .sending then some (s.clientSent .sent) else none
  | .asyncShutdown =>
    if s.client = .sent then some (s.clientSend .closing (Dialogue.notifyAfter d.closing)) else none
  | .closed => if s.client = .closing then some (s.clientSent .awaiting) else none
  | .clientRecv n =>
    if s.client = .awaiting ∧ 0 < n ∧ n ≤ s.toClient.length then
      some { s with
        client := .done
        clientPeer := s.clientPeer.receivedData (Dialogue.notifyAfter d.reply) (s.toClient.take n)
        toClient := s.toClient.drop n }
    else none
  | .next =>
    if s.server = .ready then
      if s.serverPeer.received < d.expected then some s.asyncRecv
      else some { s with server := .awaiting }
    else none
  | .serverRecv n =>
    if 0 < n ∧ n ≤ s.toServer.length then
      let rest := { s with toServer := s.toServer.drop n }
      match s.server with
      | .receiving => some (rest.recvResume d (s.toServer.take n))
      | .awaiting => some (rest.shutdownResume d (s.toServer.take n))
      | _ => none
    else none
  | .replied =>
    if s.server = .replying then
      some { s with server := .done, serverPeer := { s.serverPeer with sendBuf := [] } }
    else none

/-- **The steps**, each with where its side is. -/
inductive Steps (d : Dialogue) (s : Parties) : PartyOp → Parties → Prop
  | asyncSend (hclient : s.client = .start) : Steps d s .asyncSend (s.clientSend .sending d.message)
  | sent (hclient : s.client = .sending) : Steps d s .sent (s.clientSent .sent)
  | asyncShutdown (hclient : s.client = .sent) :
      Steps d s .asyncShutdown (s.clientSend .closing (Dialogue.notifyAfter d.closing))
  | closed (hclient : s.client = .closing) : Steps d s .closed (s.clientSent .awaiting)
  | clientRecv (n : Nat) (hclient : s.client = .awaiting) (hsome : s.toClient ≠ []) :
      Steps d s (.clientRecv n)
        { s with
          client := .done
          clientPeer := s.clientPeer.receivedData (Dialogue.notifyAfter d.reply) (s.toClient.take n)
          toClient := s.toClient.drop n }
  | recv (hserver : s.server = .ready) (hlt : s.serverPeer.received < d.expected) :
      Steps d s .next s.asyncRecv
  | shutdown (hserver : s.server = .ready) (hle : d.expected ≤ s.serverPeer.received) :
      Steps d s .next { s with server := .awaiting }
  | recvResume (n : Nat) (hserver : s.server = .receiving) (hsome : s.toServer ≠ []) :
      Steps d s (.serverRecv n)
        (recvResume d { s with toServer := s.toServer.drop n } (s.toServer.take n))
  | shutdownResume (n : Nat) (hserver : s.server = .awaiting) (hsome : s.toServer ≠ []) :
      Steps d s (.serverRecv n)
        (shutdownResume d { s with toServer := s.toServer.drop n } (s.toServer.take n))
  | replied (hserver : s.server = .replying) :
      Steps d s .replied
        { s with server := .done, serverPeer := { s.serverPeer with sendBuf := [] } }

theorem steps_of_step {s' : Parties} {op : PartyOp} (hstep : s.step d op = some s') :
    Steps d s op s' := by
  have hsome : ∀ (wire : List Sym) (n : Nat), 0 < n → n ≤ wire.length → wire ≠ [] := by
    rintro wire n hpos hle rfl
    exact absurd hle (by simpa using Nat.pos_iff_ne_zero.mp hpos)
  unfold step at hstep
  cases op with
  | asyncSend =>
    obtain ⟨hclient, heq⟩ := Option.ite_none_right_eq_some.mp hstep
    exact Option.some.inj heq ▸ .asyncSend hclient
  | sent =>
    obtain ⟨hclient, heq⟩ := Option.ite_none_right_eq_some.mp hstep
    exact Option.some.inj heq ▸ .sent hclient
  | asyncShutdown =>
    obtain ⟨hclient, heq⟩ := Option.ite_none_right_eq_some.mp hstep
    exact Option.some.inj heq ▸ .asyncShutdown hclient
  | closed =>
    obtain ⟨hclient, heq⟩ := Option.ite_none_right_eq_some.mp hstep
    exact Option.some.inj heq ▸ .closed hclient
  | clientRecv n =>
    obtain ⟨⟨hclient, hpos, hle⟩, heq⟩ := Option.ite_none_right_eq_some.mp hstep
    exact Option.some.inj heq ▸ .clientRecv n hclient (hsome _ n hpos hle)
  | next =>
    obtain ⟨hserver, heq⟩ := Option.ite_none_right_eq_some.mp hstep
    split_ifs at heq with hlt
    · exact Option.some.inj heq ▸ .recv hserver hlt
    · exact Option.some.inj heq ▸ .shutdown hserver (Nat.le_of_not_lt hlt)
  | serverRecv n =>
    obtain ⟨⟨hpos, hle⟩, heq⟩ := Option.ite_none_right_eq_some.mp hstep
    dsimp only at heq
    split at heq
    · rename_i hserver
      exact Option.some.inj heq ▸ .recvResume n hserver (hsome _ n hpos hle)
    · rename_i hserver
      exact Option.some.inj heq ▸ .shutdownResume n hserver (hsome _ n hpos hle)
    · exact absurd heq (by simp)
  | replied =>
    obtain ⟨hserver, heq⟩ := Option.ite_none_right_eq_some.mp hstep
    exact Option.some.inj heq ▸ .replied hserver

/-- Both sides are suspended in a receive, with nothing on its way, and a close notification is in a
`send_buf_`. -/
def Deadlocked : Prop :=
  s.client = .awaiting ∧ (s.server = .receiving ∨ s.server = .awaiting) ∧ s.toServer = [] ∧
    s.toClient = [] ∧ (.notify ∈ s.clientPeer.sendBuf ∨ .notify ∈ s.serverPeer.sendBuf)

/-- No receive of the server's `async_recv` brings the end of the close notification. -/
def ReadsApart : PartyOp → Prop
  | .serverRecv n => s.server = .receiving → .notify ∉ s.toServer.take n
  | _ => True

/-! ### The runs -/

/-- What the client has handed to TCP. -/
def said : ClientAt → List Sym
  | .start => []
  | .sending | .sent => d.message
  | .closing | .awaiting | .done => d.message ++ Dialogue.notifyAfter d.closing

/-- The server has not read the close notification outside of `async_shutdown`. -/
structure Good (s : Parties) : Prop where
  flow : ∃ read, read ++ s.toServer = said d s.client ∧ s.serverPeer.received = plain read
  clientSent : s.client ≠ .sending → s.client ≠ .closing → s.client ≠ .done →
    s.clientPeer.sendBuf = []
  serverSent : s.server = .ready ∨ s.server = .receiving ∨ s.server = .awaiting →
    s.serverPeer.sendBuf = [] ∧ s.toClient = [] ∧ s.client ≠ .done
  receiving : s.server = .receiving → s.serverPeer.received < d.expected

/-- `async_recv` has read it, and there is nothing more to receive. -/
structure Doomed (s : Parties) : Prop where
  client : s.client = .closing ∨ s.client = .awaiting
  server : s.server = .ready ∨ s.server = .awaiting
  toServer : s.toServer = []
  toClient : s.toClient = []
  received : d.expected ≤ s.serverPeer.received
  reply : .notify ∈ s.serverPeer.sendBuf

variable {d} {s s' : Parties} {op : PartyOp}

theorem good_start : Good d start where
  flow := ⟨[], rfl, rfl⟩
  clientSent := fun _ _ _ => rfl
  serverSent := fun _ => ⟨rfl, rfl, by simp [start]⟩
  receiving := by simp [start]

theorem Good.not_deadlocked (hs : Good d s) : ¬s.Deadlocked := by
  rintro ⟨hclient, hserver, -, -, hnotify⟩
  rcases hnotify with hnotify | hnotify
  · rw [hs.clientSent (by simp [hclient]) (by simp [hclient]) (by simp [hclient])] at hnotify
    exact absurd hnotify (by simp)
  · rw [(hs.serverSent (.inr hserver)).1] at hnotify
    exact absurd hnotify (by simp)

/-- A step of the client, before it is done. -/
theorem Good.client (hs : Good d s) (hserver : s'.server = s.server)
    (hpeer : s'.serverPeer = s.serverPeer) (htoClient : s'.toClient = s.toClient)
    (hflow : ∀ read, read ++ s.toServer = said d s.client → read ++ s'.toServer = said d s'.client)
    (hsent : s'.client ≠ .sending → s'.client ≠ .closing → s'.clientPeer.sendBuf = [])
    (hdone : s'.client ≠ .done) : Good d s' where
  flow := by
    obtain ⟨read, hread, hreceived⟩ := hs.flow
    exact ⟨read, hflow read hread, hpeer ▸ hreceived⟩
  clientSent := fun h1 h2 _ => hsent h1 h2
  serverSent := by
    rw [hserver, hpeer, htoClient]
    exact fun h => ⟨(hs.serverSent h).1, (hs.serverSent h).2.1, hdone⟩
  receiving := by
    rw [hserver, hpeer]
    exact hs.receiving

/-- The client sends. -/
theorem Good.clientSend (hs : Good d s) {at' : ClientAt} {data : List Sym}
    (hbuf : s.clientPeer.sendBuf = []) (hsaid : said d at' = said d s.client ++ data)
    (hat : at' = .sending ∨ at' = .closing) : Good d (s.clientSend at' data) := by
  refine hs.client rfl rfl rfl (fun read hread => ?_) (fun h1 h2 => ?_) ?_
  · show read ++ (s.toServer ++ (s.clientPeer.sendBuf ++ data)) = said d at'
    rw [hbuf, List.nil_append, ← List.append_assoc, hread, hsaid]
  · rcases hat with heq | heq
    · exact absurd heq h1
    · exact absurd heq h2
  · rintro (rfl : at' = .done)
    exact absurd hat (by simp)

/-- The client's send is over. -/
theorem Good.sent (hs : Good d s) {at' : ClientAt} (hsaid : said d at' = said d s.client)
    (hdone : at' ≠ .done) : Good d (s.clientSent at') :=
  hs.client rfl rfl rfl (fun _ hread => hread.trans hsaid.symm) (fun _ _ => rfl) hdone

/-- The bytes that a receive of the server yields move from those on their way to those read. -/
theorem Good.flow_take (hs : Good d s) (n : Nat) (reply : List Sym) :
    ∃ read, read ++ s.toServer.drop n = said d s.client ∧
      (s.serverPeer.receivedData reply (s.toServer.take n)).received = plain read := by
  obtain ⟨read, hread, hreceived⟩ := hs.flow
  refine ⟨read ++ s.toServer.take n, ?_, ?_⟩
  · rw [List.append_assoc, List.take_append_drop, hread]
  · rw [Peer.receivedData_eq, plain_append, ← hreceived]

/-- A record is what lets `async_recv` return. -/
theorem received_eq_of_not_record {p : Peer} {reply data : List Sym}
    (h : (p.receivedData reply data).receivedRecord = false) : plain data = 0 := by
  by_contra hne
  rw [Peer.receivedData_eq, Peer.any_isRecord hne] at h
  simp at h

theorem Good.recvResume (hs : Good d s) {n : Nat} (hserver : s.server = .receiving)
    (hapart : .notify ∉ s.toServer.take n) :
    Good d (Parties.recvResume d { s with toServer := s.toServer.drop n } (s.toServer.take n)) := by
  obtain ⟨hbuf, htoClient, hclient⟩ := hs.serverSent (.inr (.inl hserver))
  have hbuf' : (s.serverPeer.receivedData (Dialogue.notifyAfter d.reply)
      (s.toServer.take n)).sendBuf = [] := by
    rw [Peer.receivedData_eq, hbuf, Peer.replies_of_not_mem hapart]
    rfl
  rw [Parties.recvResume]
  dsimp only
  split_ifs with hrecord
  · exact {
      flow := hs.flow_take n _
      clientSent := hs.clientSent
      serverSent := fun _ => ⟨hbuf', htoClient, hclient⟩
      receiving := by simp }
  · exact {
      flow := hs.flow_take n _
      clientSent := hs.clientSent
      serverSent := fun _ => ⟨hbuf', htoClient, hclient⟩
      receiving := fun _ => by
        have hzero := received_eq_of_not_record (by simpa using hrecord)
        rw [Peer.receivedData_eq]
        simpa [hzero] using hs.receiving hserver }

theorem Good.shutdownResume (hs : Good d s) (n : Nat) :
    Good d (Parties.shutdownResume d { s with toServer := s.toServer.drop n }
      (s.toServer.take n)) := by
  rw [Parties.shutdownResume]
  dsimp only
  split_ifs <;> exact {
    flow := hs.flow_take n _
    clientSent := hs.clientSent
    serverSent := by simp
    receiving := by simp }

/-- **A step with receives that are apart** keeps the close notification out of `async_recv`. -/
theorem Good.step (hs : Good d s) (hapart : s.ReadsApart op) (hstep : s.step d op = some s') :
    Good d s' := by
  cases steps_of_step d s hstep with
  | asyncSend hclient =>
    have hbuf := hs.clientSent (by simp [hclient]) (by simp [hclient]) (by simp [hclient])
    exact hs.clientSend hbuf (by rw [hclient]; rfl) (.inl rfl)
  | sent hclient => exact hs.sent (by rw [hclient]; rfl) (by simp)
  | asyncShutdown hclient =>
    have hbuf := hs.clientSent (by simp [hclient]) (by simp [hclient]) (by simp [hclient])
    exact hs.clientSend hbuf (by rw [hclient]; rfl) (.inr rfl)
  | closed hclient => exact hs.sent (by rw [hclient]; rfl) (by simp)
  | clientRecv n hclient hsome =>
    -- there is something to receive only once the server has replied
    have hserver : ¬(s.server = .ready ∨ s.server = .receiving ∨ s.server = .awaiting) :=
      fun h => hsome (hs.serverSent h).2.1
    obtain ⟨read, hread, hreceived⟩ := hs.flow
    rw [hclient] at hread
    exact {
      flow := ⟨read, hread, hreceived⟩
      clientSent := fun _ _ h => absurd rfl h
      serverSent := fun h => absurd h hserver
      receiving := hs.receiving }
  | recv hserver hlt =>
    have hsent := hs.serverSent (.inl hserver)
    rw [asyncRecv]
    split_ifs <;> exact {
      flow := hs.flow
      clientSent := hs.clientSent
      serverSent := fun _ => hsent
      receiving := fun _ => hlt }
  | shutdown hserver hle =>
    exact {
      flow := hs.flow
      clientSent := hs.clientSent
      serverSent := fun _ => hs.serverSent (.inl hserver)
      receiving := by simp }
  | recvResume n hserver hsome => exact hs.recvResume hserver (hapart hserver)
  | shutdownResume n hserver hsome => exact hs.shutdownResume n
  | replied hserver =>
    exact {
      flow := hs.flow
      clientSent := hs.clientSent
      serverSent := by simp
      receiving := by simp }

/-- What comes before the only occurrence of the last element is everything. -/
theorem eq_nil_of_mem {l₁ l₂ init : List Sym} {a : Sym} (h : l₁ ++ l₂ = init ++ [a])
    (ha : a ∈ l₁) (hinit : a ∉ init) : l₂ = [] := by
  rcases List.eq_nil_or_concat l₂ with rfl | ⟨l, b, rfl⟩
  · rfl
  · have h' : l₁ ++ l ++ [b] = init ++ [a] := by simpa using h
    have heq : l₁ ++ l = init := (List.append_inj' h' rfl).1
    exact absurd (heq ▸ List.mem_append_left _ ha) hinit

/-- The client has said the close notification last and once, and all of the message. -/
theorem said_of_notify (h : .notify ∈ said d s.client) :
    (s.client = .closing ∨ s.client = .awaiting ∨ s.client = .done) ∧
      plain (said d s.client) = d.expected ∧
      ∃ init, said d s.client = init ++ [.notify] ∧ .notify ∉ init := by
  have hmessage := d.notify_not_mem_message
  have hsaid : (s.client = .closing ∨ s.client = .awaiting ∨ s.client = .done) ∧
      said d s.client = d.message ++ Dialogue.notifyAfter d.closing := by
    cases hclient : s.client with
    | start => simp [hclient, said] at h
    | sending =>
      rw [hclient] at h
      exact absurd h hmessage
    | sent =>
      rw [hclient] at h
      exact absurd h hmessage
    | closing => exact ⟨.inl rfl, rfl⟩
    | awaiting => exact ⟨.inr (.inl rfl), rfl⟩
    | done => exact ⟨.inr (.inr rfl), rfl⟩
  obtain ⟨hclient, heq⟩ := hsaid
  refine ⟨hclient, ?_, d.message ++ List.replicate d.closing .part, ?_, by simp [hmessage]⟩
  · rw [heq, plain_append, Dialogue.plain_notifyAfter, Nat.add_zero]
    rfl
  · rw [heq, Dialogue.notifyAfter, List.append_assoc]

/-- **A receive of `async_recv` that brings the end of the close notification** is the last one, and
brings the end of the message too. -/
theorem Good.doomed_of_recv (hs : Good d s) {n : Nat} (hserver : s.server = .receiving)
    (hnotify : .notify ∈ s.toServer.take n) :
    Doomed d (Parties.recvResume d { s with toServer := s.toServer.drop n }
      (s.toServer.take n)) := by
  obtain ⟨hbuf, htoClient, hdone⟩ := hs.serverSent (.inr (.inl hserver))
  obtain ⟨read, hread, hreceived⟩ := hs.flow
  have hsaid : .notify ∈ said d s.client := by
    rw [← hread]
    exact List.mem_append_right _ (List.mem_of_mem_take hnotify)
  obtain ⟨hclient, hplain, init, hinit, hnot⟩ := said_of_notify hsaid
  have hall : read ++ s.toServer.take n ++ s.toServer.drop n = init ++ [.notify] := by
    rw [List.append_assoc, List.take_append_drop, hread, hinit]
  have hdrop : s.toServer.drop n = [] :=
    eq_nil_of_mem hall (List.mem_append_right _ hnotify) hnot
  have htake : s.toServer.take n = s.toServer := by
    have happend := List.take_append_drop n s.toServer
    rwa [hdrop, List.append_nil] at happend
  -- the message was not complete before, so there is a record among what is received
  have hsum : plain read + plain s.toServer = d.expected := by
    rw [← hplain, ← hread, plain_append]
  have hlt := hs.receiving hserver
  have hrecord : (s.serverPeer.receivedData (Dialogue.notifyAfter d.reply)
      (s.toServer.take n)).receivedRecord = true := by
    rw [Peer.receivedData_eq, htake, Peer.any_isRecord (by omega), Bool.or_true]
  simp only [Parties.recvResume, hrecord, if_true]
  rw [Peer.receivedData_eq]
  exact {
    client := by
      rcases hclient with hclient | hclient | hclient
      · exact .inl hclient
      · exact .inr hclient
      · exact absurd hclient hdone
    server := .inl rfl
    toServer := hdrop
    toClient := htoClient
    received := by
      show d.expected ≤ s.serverPeer.received + plain (s.toServer.take n)
      rw [htake]
      omega
    reply := List.mem_append_right _
      (Peer.mem_replies (by simp [Dialogue.notifyAfter]) hnotify) }

theorem Good.doomed (hs : Good d s) (hapart : ¬s.ReadsApart op) (hstep : s.step d op = some s') :
    Doomed d s' := by
  cases steps_of_step d s hstep with
  | recvResume n hserver hsome =>
    simp only [ReadsApart, hserver, true_imp_iff, not_not] at hapart
    exact hs.doomed_of_recv hserver hapart
  | shutdownResume n hserver hsome => exact absurd hapart (by simp [ReadsApart, hserver])
  | _ => exact absurd trivial hapart

theorem Doomed.step (hs : Doomed d s) (hstep : s.step d op = some s') : Doomed d s' := by
  obtain ⟨hclient, hserver, htoServer, htoClient, hreceived, hreply⟩ := hs
  cases steps_of_step d s hstep with
  | closed _ => exact ⟨.inr rfl, hserver, htoServer, htoClient, hreceived, hreply⟩
  | shutdown _ _ => exact ⟨hclient, .inr rfl, htoServer, htoClient, hreceived, hreply⟩
  | recv _ hlt => exact absurd hlt (Nat.not_lt.mpr hreceived)
  | clientRecv _ _ hsome => exact absurd htoClient hsome
  | recvResume _ _ hsome => exact absurd htoServer hsome
  | shutdownResume _ _ hsome => exact absurd htoServer hsome
  | replied heq => exact absurd hserver (by simp [heq])
  | asyncSend heq => exact absurd hclient (by simp [heq])
  | sent heq => exact absurd hclient (by simp [heq])
  | asyncShutdown heq => exact absurd hclient (by simp [heq])

theorem Doomed.deadlocks_of_awaiting (hs : Doomed d s) (hserver : s.server = .awaiting) :
    ∃ more t, run (Parties.step d) s more = some t ∧ t.Deadlocked := by
  obtain ⟨hclient, -, htoServer, htoClient, -, hreply⟩ := hs
  rcases hclient with hclient | hclient
  · have hstep : s.step d .closed = some (s.clientSent .awaiting) := by
      simp [Parties.step, hclient]
    refine ⟨[.closed], _, run_cons_eq_some.mpr ⟨_, hstep, rfl⟩, ?_⟩
    exact ⟨rfl, .inr hserver, htoServer, htoClient, .inr hreply⟩
  · exact ⟨[], s, rfl, hclient, .inr hserver, htoServer, htoClient, .inr hreply⟩

/-- **From there both sides come to wait**, as soon as each has taken its next step. -/
theorem Doomed.deadlocks (hs : Doomed d s) :
    ∃ more t, run (Parties.step d) s more = some t ∧ t.Deadlocked := by
  rcases hs.server with hserver | hserver
  · have hstep : s.step d .next = some { s with server := .awaiting } := by
      have hreceived := hs.received
      simp only [Parties.step, hserver, if_true]
      rw [if_neg (by omega)]
    obtain ⟨more, t, hrun, ht⟩ := (hs.step hstep).deadlocks_of_awaiting rfl
    exact ⟨.next :: more, t, run_cons_eq_some.mpr ⟨_, hstep, hrun⟩, ht⟩
  · exact hs.deadlocks_of_awaiting hserver

/-- **No deadlock in any run** in which no receive of the server's `async_recv` brings the end of
the close notification; any other run can be continued into one. -/
theorem shutdown_orderly (d : Dialogue) (ops : List PartyOp) :
    (StepsMeet (step d) ReadsApart start ops → Along (step d) (fun s => ¬s.Deadlocked) start ops) ∧
      ∀ t, run (step d) start ops = some t → ¬StepsMeet (step d) ReadsApart start ops →
        ∃ more u, run (step d) t more = some u ∧ u.Deadlocked := by
  constructor
  · intro hapart
    have hgood : Along (step d) (Good d) start ops :=
      along_of_stepsMeet (fun _ _ _ hs hapart hstep => hs.step hapart hstep) good_start hapart
    exact hgood.mono fun _ hs => hs.not_deadlocked
  · intro t hrun hapart
    rcases stepsMeet_or_of_run (fun _ _ _ hs hapart hstep => hs.step hapart hstep)
      (fun _ _ _ hs hapart hstep => hs.doomed hapart hstep) (fun _ _ _ hs hstep => hs.step hstep)
      good_start hrun with hmeets | hdoomed
    · exact absurd hmeets hapart
    · exact hdoomed.deadlocks

/-- **The deadlock**: TCP delivers the message and the close notification together. -/
theorem shutdown_deadlocks :
    ¬Along (step ⟨[(1, 5)], 1, 1⟩) (fun s => ¬s.Deadlocked) start
      [.next, .asyncSend, .sent, .asyncShutdown, .closed, .serverRecv 4, .next] := by
  intro h
  exact absurd (h.last rfl) (by unfold Deadlocked; decide)

end Parties

end Tls

end Fiona
