import Fiona.Lib.Run
import Fiona.Ring
import Fiona.Tls.Callbacks

/-!
# Short writes

A `tcp` send transmits as many bytes as the kernel takes, and says how many. `src/tls/tls.cpp` sends
`send_buf_` in six places: `async_send_impl`, the start and the loop of the client's handshake, the
loop of the server's, and both shutdowns. All of them empty it when the send is over, and
none of them looks at the number. So what a short write has left is dropped
(`Fiona.Tls.Writing.writes_complete`). When a send fails, `async_send_impl` and the handshakes still
empty `send_buf_`, and the shutdowns return before they do.

What the channel emits in between is in the labels, and so are the results of the sends.
-/

namespace Fiona

namespace Tls

open Transition

variable {β : Type*}

/-- `send_awaitable::await_resume`, of the `res_` of its frame. -/
def sendAwaitResume (res : Int) : Except Nat Nat :=
  if res < 0 then .error (-res).toNat else .ok res.toNat

/-- One side of a connection, with what it has emitted, what the kernel has taken, and how much had
been emitted when `async_send` reported success last. -/
structure Writing (β : Type*) where
  cb : Callbacks β
  emitted : List β
  transmitted : List β
  reported : Nat
  deriving DecidableEq, Repr

/-- The result of the `tcp` send is part of each label that has one. -/
inductive WritingOp (β : Type*)
  /-- The channel emits something, elsewhere. -/
  | emits (data : List β)
  /-- `async_send` of so many bytes, which the channel makes ciphertext of. -/
  | asyncSend (size : Nat) (data : List β) (res : Int)
  | clientHandshake (res : Int)
  | clientRound (data : List β) (res : Int)
  | serverRound (data : List β) (res : Int)
  | clientShutdown (data : List β) (res : Int)
  | serverShutdown (data : List β) (res : Int)

/-- What the channel emits before the send, and the result of the send. -/
def WritingOp.send : WritingOp β → Option (List β × Int)
  | .emits _ => none
  | .clientHandshake res => some ([], res)
  | .asyncSend _ data res | .clientRound data res | .serverRound data res
  | .clientShutdown data res | .serverShutdown data res => some (data, res)

namespace Writing

variable (s : Writing β)

def init : Writing β := ⟨.init, [], [], 0⟩

/-- The channel emits. -/
def emit (data : List β) : Writing β :=
  { s with cb := s.cb.tlsEmitData data, emitted := s.emitted ++ data }

/-- `co_await stream.async_send( send_buf )`. -/
def tcpSend (res : Int) : Writing β × Except Nat Nat :=
  ({ s with transmitted := s.transmitted ++ s.cb.sendBuf.take res.toNat }, sendAwaitResume res)

/-- `send_buf.clear()`. -/
def clear : Writing β := { s with cb := { s.cb with sendBuf := [] } }

/-- `async_send_impl`, with what it returns. -/
def asyncSendImpl (size : Nat) (data : List β) (res : Int) : Writing β × Except Nat Nat :=
  let s := s.emit data
  let (s, mn) := s.tcpSend res
  let s := s.clear
  match mn with
  | .error e => (s, .error e)
  | .ok _ => ({ s with reported := s.emitted.length }, .ok size)

/-- A handshake sends what has been emitted, whatever comes of it. -/
def handshakeSend (res : Int) : Writing β := (s.tcpSend res).1.clear

/-- `client::async_handshake` up to its loop, with the error that it returns. -/
def clientHandshake (res : Int) : Writing β × Option Nat :=
  if s.cb.sendBuf.isEmpty then (s, some Errno.EINVAL) else (s.handshakeSend res, none)

/-- A round of the loop of a handshake, from `received_data` on. -/
def handshakeRound (data : List β) (res : Int) : Writing β :=
  let s := s.emit data
  if s.cb.sendBuf.isEmpty then s else s.handshakeSend res

/-- A round of the loop of `client::async_handshake`. -/
def clientRound (data : List β) (res : Int) : Writing β := s.handshakeRound data res

/-- A round of the loop of `server::async_handshake`. -/
def serverRound (data : List β) (res : Int) : Writing β := s.handshakeRound data res

/-- A shutdown sends what has been emitted, with the error that it returns for one of the send. -/
def shutdownSend (error : Nat → Nat) (data : List β) (res : Int) : Writing β × Option Nat :=
  let s := s.emit data
  match s.tcpSend res with
  | (s, .error e) => (s, some (error e))
  | (s, .ok _) => (s.clear, none)

/-- `client::async_shutdown`, from `close` on. -/
def clientShutdown (data : List β) (res : Int) : Writing β × Option Nat :=
  s.shutdownSend id data res

/-- `server::async_shutdown`, from `received_data` on. -/
def serverShutdown (data : List β) (res : Int) : Writing β × Option Nat :=
  s.shutdownSend (fun _ => Errno.EINVAL) data res

/-- What the kernel answers a send of the buffer: it takes some of it, if there is something. -/
def takes (buf : List β) (res : Int) : Bool :=
  if buf.isEmpty then decide (res = 0) else decide (0 < res ∧ res ≤ buf.length)

def perform : WritingOp β → Writing β
  | .emits data => s.emit data
  | .asyncSend size data res => (s.asyncSendImpl size data res).1
  | .clientHandshake res => (s.clientHandshake res).1
  | .clientRound data res => s.clientRound data res
  | .serverRound data res => s.serverRound data res
  | .clientShutdown data res => (s.clientShutdown data res).1
  | .serverShutdown data res => (s.serverShutdown data res).1

/-- One step, with a result that the kernel can give. -/
def step (op : WritingOp β) : Option (Writing β) :=
  if op.send.all fun (data, res) => takes (s.cb.sendBuf ++ data) res then some (s.perform op)
  else none

/-- What the kernel answers a send of the buffer: that it fails, or what it has taken. -/
def answers (buf : List β) (res : Int) : Bool := decide (res < 0) || takes buf res

/-- One step, with any result that the kernel can give, errors included. -/
def attempt (op : WritingOp β) : Option (Writing β) :=
  if op.send.all fun (data, res) => answers (s.cb.sendBuf ++ data) res then some (s.perform op)
  else none

/-- **Nothing is dropped**: what has not been transmitted is in `send_buf_`, the transmitted bytes
are a prefix of the emitted ones, and all that `async_send` reported on has been transmitted. -/
structure Complete : Prop where
  kept : s.transmitted ++ s.cb.sendBuf = s.emitted
  isPrefix : s.transmitted <+: s.emitted
  reported : s.reported ≤ s.transmitted.length

/-- The kernel takes all of `send_buf_`. -/
def TakesAll (op : WritingOp β) : Prop :=
  ∀ data res, op.send = some (data, res) → res = (s.cb.sendBuf ++ data).length

/-! ### What a send does -/

/-- **What every send does**: it transmits what the kernel takes and keeps nothing. -/
structure Sends (s : Writing β) (data : List β) (res : Int) (s' : Writing β) : Prop where
  sendBuf : s'.cb.sendBuf = []
  emitted : s'.emitted = s.emitted ++ data
  transmitted : s'.transmitted = s.transmitted ++ (s.cb.sendBuf ++ data).take res.toNat
  reported : s'.reported = s.reported ∨ s'.reported = s'.emitted.length

variable {s} {s' : Writing β} {op : WritingOp β} {data : List β} {res : Int}

theorem handshakeSend_sends (h : s.cb.sendBuf = s'.cb.sendBuf ++ data)
    (hemitted : s.emitted = s'.emitted ++ data) (htransmitted : s.transmitted = s'.transmitted)
    (hreported : s.reported = s'.reported) : Sends s' data res (s.handshakeSend res) where
  sendBuf := rfl
  emitted := hemitted
  transmitted := by simp [handshakeSend, tcpSend, clear, h, htransmitted]
  reported := .inl hreported

/-- Nothing is sent where there is nothing to send. -/
theorem emit_sends_of_isEmpty (h : (s.emit data).cb.sendBuf.isEmpty = true) :
    Sends s data res (s.emit data) where
  sendBuf := List.isEmpty_iff.mp h
  emitted := rfl
  transmitted := by
    have hnil : s.cb.sendBuf ++ data = [] := List.isEmpty_iff.mp h
    rw [hnil, List.take_nil, List.append_nil]
    rfl
  reported := .inl rfl

theorem handshakeRound_sends (s : Writing β) (data : List β) (res : Int) :
    Sends s data res (s.handshakeRound data res) := by
  rw [handshakeRound]
  split_ifs with h
  · exact emit_sends_of_isEmpty h
  · exact handshakeSend_sends rfl rfl rfl rfl

theorem clientHandshake_sends (s : Writing β) (res : Int) :
    Sends s [] res (s.clientHandshake res).1 := by
  rw [clientHandshake]
  split_ifs with h
  · have hemit : s.emit [] = s := by simp [emit, Callbacks.tlsEmitData]
    have hsends : Sends s [] res (s.emit []) := emit_sends_of_isEmpty (by rwa [hemit])
    rwa [hemit] at hsends
  · exact handshakeSend_sends (by simp) (by simp) rfl rfl

theorem sendAwaitResume_of_nonneg (hres : 0 ≤ res) : sendAwaitResume res = .ok res.toNat :=
  if_neg (by omega)

theorem sendAwaitResume_of_neg (hres : res < 0) : sendAwaitResume res = .error (-res).toNat :=
  if_pos hres

/-- `async_send` empties `send_buf_` also after an error, of which it reports nothing. -/
theorem asyncSendImpl_sends (s : Writing β) (size : Nat) (data : List β) (res : Int) :
    Sends s data res (s.asyncSendImpl size data res).1 := by
  by_cases hres : res < 0
  · simp only [asyncSendImpl, tcpSend, sendAwaitResume_of_neg hres]
    exact ⟨rfl, rfl, rfl, .inl rfl⟩
  · simp only [asyncSendImpl, tcpSend, sendAwaitResume_of_nonneg (Int.not_lt.mp hres)]
    exact ⟨rfl, rfl, rfl, .inr rfl⟩

theorem shutdownSend_sends (s : Writing β) (error : Nat → Nat) (data : List β) (hres : 0 ≤ res) :
    Sends s data res (s.shutdownSend error data res).1 := by
  simp only [shutdownSend, tcpSend, sendAwaitResume_of_nonneg hres]
  exact ⟨rfl, rfl, rfl, .inl rfl⟩

/-- A shutdown whose send fails returns before it empties `send_buf_`. -/
theorem shutdownSend_of_neg (s : Writing β) (error : Nat → Nat) (data : List β) (hres : res < 0) :
    (s.shutdownSend error data res).1 = s.emit data := by
  have htake : res.toNat = 0 := by omega
  simp [shutdownSend, tcpSend, sendAwaitResume_of_neg hres, htake]

theorem nonneg_of_takes {buf : List β} (h : takes buf res = true) : 0 ≤ res ∧ res ≤ buf.length := by
  cases buf with
  | nil =>
    have hzero : res = 0 := by simpa [takes] using h
    simp [hzero]
  | cons b buf =>
    have hpos : 0 < res ∧ res ≤ (b :: buf).length := by simpa [takes] using h
    omega

/-- **What a step does.** -/
theorem step_cases (hstep : s.step op = some s') :
    (∃ data, op = .emits data ∧ s' = s.emit data) ∨
      ∃ data res, op.send = some (data, res) ∧ takes (s.cb.sendBuf ++ data) res = true ∧
        Sends s data res s' := by
  obtain ⟨htakes, hperform⟩ := Option.ite_none_right_eq_some.mp hstep
  obtain rfl := Option.some.inj hperform
  cases op with
  | emits data => exact .inl ⟨data, rfl, rfl⟩
  | asyncSend size data res =>
    exact .inr ⟨data, res, rfl, htakes, asyncSendImpl_sends s size data res⟩
  | clientHandshake res => exact .inr ⟨[], res, rfl, htakes, clientHandshake_sends s res⟩
  | clientRound data res => exact .inr ⟨data, res, rfl, htakes, handshakeRound_sends s data res⟩
  | serverRound data res => exact .inr ⟨data, res, rfl, htakes, handshakeRound_sends s data res⟩
  | clientShutdown data res =>
    exact .inr ⟨data, res, rfl, htakes, shutdownSend_sends s _ data (nonneg_of_takes htakes).1⟩
  | serverShutdown data res =>
    exact .inr ⟨data, res, rfl, htakes, shutdownSend_sends s _ data (nonneg_of_takes htakes).1⟩

/-! ### Runs -/

theorem complete_of_kept (hkept : s.transmitted ++ s.cb.sendBuf = s.emitted)
    (hreported : s.reported ≤ s.transmitted.length) : s.Complete :=
  ⟨hkept, ⟨_, hkept⟩, hreported⟩

theorem Complete.step (hs : s.Complete) (hall : s.TakesAll op) (hstep : s.step op = some s') :
    s'.Complete := by
  rcases step_cases hstep with ⟨data, rfl, rfl⟩ | ⟨data, res, hop, -, hsends⟩
  · refine complete_of_kept ?_ hs.reported
    rw [emit, Callbacks.tlsEmitData, ← List.append_assoc, hs.kept]
  · have hkept : s'.transmitted = s'.emitted := by
      rw [hsends.transmitted, hsends.emitted, hall data res hop, Int.toNat_natCast,
        List.take_length, ← List.append_assoc, hs.kept]
    refine complete_of_kept (by rw [hsends.sendBuf, List.append_nil, hkept]) ?_
    rcases hsends.reported with heq | heq
    · rw [heq, hsends.transmitted, List.length_append]
      exact Nat.le_add_right_of_le hs.reported
    · exact Nat.le_of_eq (heq.trans (congrArg List.length hkept).symm)

/-- A send that drops nothing has transmitted everything. -/
theorem Complete.takesAll (hs : s.Complete) (hstep : s.step op = some s') (hs' : s'.Complete) :
    s.TakesAll op := by
  intro data res hop
  rcases step_cases hstep with ⟨data', rfl, -⟩ | ⟨data', res', hop', htakes, hsends⟩
  · exact absurd hop (by simp [WritingOp.send])
  · obtain ⟨rfl, rfl⟩ := Prod.mk.inj (Option.some.inj (hop.symm.trans hop'))
    have hkept := hs'.kept
    rw [hsends.sendBuf, List.append_nil, hsends.transmitted, hsends.emitted, ← hs.kept,
      List.append_assoc, List.append_cancel_left_eq, List.take_eq_self_iff] at hkept
    have hle := nonneg_of_takes htakes
    omega

/-- **Nothing is dropped in exactly those runs** in which the kernel takes all of `send_buf_` each
time. -/
theorem writes_complete (ops : List (WritingOp β)) :
    Along step Complete init ops ↔ StepsMeet step TakesAll (init : Writing β) ops :=
  along_iff_stepsMeet (I := Complete) (fun _ hs => hs)
    (fun _ _ _ hs hall hstep => hs.step hall hstep)
    (fun _ _ _ hs hstep hs' => hs.takesAll hstep hs')
    (complete_of_kept rfl (Nat.le_refl 0))

/-- **A short write drops the rest**, in each of the six places; what `async_send` sends next
follows the gap, and what it reported on was not transmitted. -/
theorem writes_drop :
    ¬Along step Complete init [.asyncSend 1 [1, 2] 1] ∧
      ¬Along step Complete init [.emits [1, 2], .clientHandshake 1] ∧
      ¬Along step Complete init [.clientRound [1, 2] 1] ∧
      ¬Along step Complete init [.serverRound [1, 2] 1] ∧
      ¬Along step Complete init [.clientShutdown [1, 2] 1] ∧
      ¬Along step Complete init [.serverShutdown [1, 2] 1] ∧
      ∃ s, run step init [.asyncSend 1 [1, 2] 1, .asyncSend 1 [3, 4] 2] = some s ∧
        s.transmitted = [1, 3, 4] ∧ s.emitted = [1, 2, 3, 4] ∧ s.reported = 4 := by
  refine ⟨fun h => ?_, fun h => ?_, fun h => ?_, fun h => ?_, fun h => ?_, fun h => ?_,
    ⟨_, rfl, rfl, rfl, rfl⟩⟩ <;> exact absurd (h.last rfl).kept (by decide)

/-! ### What holds in any case -/

theorem shutdownSend_cases (s : Writing β) (error : Nat → Nat) (data : List β) (res : Int) :
    (s.shutdownSend error data res).1 = s.emit data ∨
      Sends s data res (s.shutdownSend error data res).1 := by
  by_cases hres : res < 0
  · exact .inl (shutdownSend_of_neg s error data hres)
  · exact .inr (shutdownSend_sends s error data (Int.not_lt.mp hres))

/-- **What a step does, whatever the kernel answers**: it keeps all that is emitted, or sends it. -/
theorem perform_cases (s : Writing β) (op : WritingOp β) :
    ∃ data, s.perform op = s.emit data ∨ ∃ res, Sends s data res (s.perform op) := by
  cases op with
  | emits data => exact ⟨data, .inl rfl⟩
  | asyncSend size data res => exact ⟨data, .inr ⟨res, asyncSendImpl_sends s size data res⟩⟩
  | clientHandshake res => exact ⟨[], .inr ⟨res, clientHandshake_sends s res⟩⟩
  | clientRound data res => exact ⟨data, .inr ⟨res, handshakeRound_sends s data res⟩⟩
  | serverRound data res => exact ⟨data, .inr ⟨res, handshakeRound_sends s data res⟩⟩
  | clientShutdown data res =>
    exact ⟨data, (shutdownSend_cases s _ data res).imp_right fun hsends => ⟨res, hsends⟩⟩
  | serverShutdown data res =>
    exact ⟨data, (shutdownSend_cases s _ data res).imp_right fun hsends => ⟨res, hsends⟩⟩

theorem sublist_step (hs : (s.transmitted ++ s.cb.sendBuf).Sublist s.emitted)
    (hstep : s.attempt op = some s') : (s'.transmitted ++ s'.cb.sendBuf).Sublist s'.emitted := by
  obtain ⟨-, hperform⟩ := Option.ite_none_right_eq_some.mp hstep
  obtain rfl := Option.some.inj hperform
  obtain ⟨data, hemit | ⟨res, hsends⟩⟩ := perform_cases s op
  · rw [hemit, emit, Callbacks.tlsEmitData, ← List.append_assoc]
    exact hs.append_right data
  · rw [hsends.sendBuf, List.append_nil, hsends.transmitted, hsends.emitted]
    refine ((List.take_sublist _ _).append_left _).trans ?_
    rw [← List.append_assoc]
    exact hs.append_right data

/-- **The transmitted bytes are in order**, and those in `send_buf_` come after them, whatever is
dropped in between, by short writes or by sends that fail. -/
theorem sublist_of_run {ops : List (WritingOp β)} (hrun : run attempt init ops = some s) :
    (s.transmitted ++ s.cb.sendBuf).Sublist s.emitted :=
  run_invariant (I := fun s => (s.transmitted ++ s.cb.sendBuf).Sublist s.emitted)
    (fun _ _ _ hs hstep => sublist_step hs hstep) (List.Sublist.refl []) hrun

/-- The kernel takes one of two bytes; the send of the next two fails, and they are dropped; and a
shutdown whose send fails keeps what it has not sent. -/
theorem sublist_of_short_write : ∃ s : Writing Nat,
    run attempt init [.asyncSend 2 [1, 2] 1, .asyncSend 2 [3, 4] (-32), .clientShutdown [5] (-32)] =
      some s ∧ s.transmitted = [1] ∧ s.cb.sendBuf = [5] ∧
      (s.transmitted ++ s.cb.sendBuf).Sublist s.emitted :=
  ⟨_, rfl, rfl, rfl, @sublist_of_run Nat _
    [.asyncSend 2 [1, 2] 1, .asyncSend 2 [3, 4] (-32), .clientShutdown [5] (-32)] rfl⟩

end Writing

end Tls

end Fiona
