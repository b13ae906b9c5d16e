import Fiona.Tls.Receiving

/-!
# Records outside of `async_recv`

The two `async_handshake`s and the two `async_shutdown`s pass what they receive to `received_data`
too, but do not move it into `output_sequence_` first. A record with plaintext that TCP put
behind the last handshake message, or before a close notification, finds the sequences as
they are: with what earlier calls of `async_recv` left there, and on a new stream with nothing.
-/

namespace Fiona

namespace Tls

open Packing Transition

variable {β : Type*}

/-- A `tls::client` or a `tls::server`. -/
structure Endpoint (β : Type*) where
  session : Session β
  /-- A handshake or a shutdown is in `received_data`. -/
  driving : Bool
  deriving DecidableEq, Repr

inductive EndpointOp (β : Type*)
  /-- What `async_send` and `async_recv` do. -/
  | session (op : TlsOp β)
  /-- A handshake or a shutdown calls `received_data`. -/
  | drive
  /-- A callback in that call. -/
  | callback (c : Callback β)
  /-- That call returns or throws. -/
  | done
  /-- A handshake or a shutdown has sent `send_buf_`, and clears it. -/
  | clear

/-- **What is left to draw on**: there is a buffer exactly while one that arrived or was allocated
is not yet returned. -/
theorem Session.RecvInv.stocked_iff {s : Session β} (hs : s.RecvInv) :
    s.cb.Stocked ↔ s.returned.length < s.arrived + s.cb.allocated := by
  have hlen := hs.holding.ids.length_eq
  simp only [blocks, List.length_map, List.length_append, List.length_range] at hlen
  rw [Callbacks.Stocked]
  rw [← List.length_pos_iff, ← List.length_pos_iff]
  omega

namespace Endpoint

variable (e : Endpoint β)

/-- A new endpoint; a client's first message is in `send_buf_` from the start. -/
def create (hello : List β) : Endpoint β := ⟨.established hello false, false⟩

def clear : Endpoint β :=
  { e with session := { e.session with cb := { e.session.cb with sendBuf := [] } } }

def perform : EndpointOp β → Option (Endpoint β)
  | .session op =>
    if e.driving then none else (e.session.step op).map fun s => { e with session := s }
  | .drive =>
    if e.driving || !e.session.receiver.quiet then none else some { e with driving := true }
  | .callback c => if e.driving then some { e with session := e.session.callback c } else none
  | .done => if e.driving then some { e with driving := false } else none
  | .clear => if e.driving || !e.session.receiver.quiet then none else some e.clear

/-- One step, of an endpoint that has not come to a fault. -/
def step (op : EndpointOp β) : Option (Endpoint β) :=
  if e.session.fault.isSome then none else e.perform op

/-- `front()` was not called of an empty sequence. -/
def NoEmptyFront : Prop := e.session.fault ≠ some .emptyFront

/-- A record with plaintext that a handshake or a shutdown reads comes before all buffers are
returned that `async_recv` received or the callback allocated. -/
def BuffersLeft : EndpointOp β → Prop
  | .callback c => c.plaintext ≠ [] →
    e.session.returned.length < e.session.arrived + e.session.cb.allocated
  | _ => True

/-- **The steps.** -/
inductive Steps (e : Endpoint β) : EndpointOp β → Endpoint β → Prop
  | session (op : TlsOp β) (s : Session β) (hidle : e.driving = false)
      (hs : e.session.step op = some s) : Steps e (.session op) { e with session := s }
  | drive (hquiet : e.session.receiver.quiet = true) : Steps e .drive { e with driving := true }
  | callback (c : Callback β) (hdriving : e.driving = true) :
      Steps e (.callback c) { e with session := e.session.callback c }
  | done : Steps e .done { e with driving := false }
  | clear : Steps e .clear e.clear

variable {e} {e' : Endpoint β} {op : EndpointOp β}

theorem steps_of_step (hstep : e.step op = some e') : Steps e op e' := by
  rw [step] at hstep
  split_ifs at hstep
  cases op with
  | session op =>
    simp only [perform, Option.ite_none_left_eq_some, Option.map_eq_some_iff] at hstep
    obtain ⟨hidle, s, hs, rfl⟩ := hstep
    exact .session op s (by simpa using hidle) hs
  | drive =>
    obtain ⟨hquiet, heq⟩ := Option.ite_none_left_eq_some.mp hstep
    simp only [Bool.or_eq_true, Bool.not_eq_true', not_or, Bool.not_eq_false] at hquiet
    exact Option.some.inj heq ▸ .drive hquiet.2
  | callback c =>
    obtain ⟨hdriving, heq⟩ := Option.ite_none_right_eq_some.mp hstep
    exact Option.some.inj heq ▸ .callback c hdriving
  | done =>
    obtain ⟨-, heq⟩ := Option.ite_none_right_eq_some.mp hstep
    exact Option.some.inj heq ▸ .done
  | clear =>
    obtain ⟨-, heq⟩ := Option.ite_none_left_eq_some.mp hstep
    exact Option.some.inj heq ▸ .clear

/-- No coroutine is in `async_recv_impl` while a handshake or a shutdown is in `received_data`. -/
structure DriveInv (e : Endpoint β) : Prop where
  recv : e.session.RecvInv
  quiet : e.driving = true → e.session.receiver.quiet = true

theorem driveInv_create (hello : List β) : DriveInv (create hello) :=
  ⟨Session.recvInv_established .., by simp [create]⟩

theorem DriveInv.step (he : DriveInv e) (hleft : e.BuffersLeft op)
    (hstep : e.step op = some e') : DriveInv e' := by
  cases steps_of_step hstep with
  | session op s hidle hs =>
    refine ⟨he.recv.step hs, fun hdriving => ?_⟩
    exact absurd hdriving (by simp [hidle])
  | drive hquiet => exact ⟨he.recv, fun _ => hquiet⟩
  | callback c hdriving =>
    have hquiet := he.quiet hdriving
    have hreceiver : e.session.receiver ≠ .looping [] := by
      intro hover
      exact absurd hquiet (by simp [hover, Receiver.quiet])
    have hstocked : c.plaintext ≠ [] → e.session.cb.Stocked :=
      fun hplain => he.recv.stocked_iff.mpr (hleft hplain)
    refine ⟨he.recv.callback c hreceiver hstocked, fun _ => ?_⟩
    rwa [Session.callback_receiver]
  | done => exact ⟨he.recv, by simp⟩
  | clear => exact ⟨he.recv.congr rfl rfl rfl rfl rfl (.inl rfl) rfl rfl rfl, he.quiet⟩

/-- A step without a fault has found its buffer. -/
theorem DriveInv.buffersLeft (he : DriveInv e) (hstep : e.step op = some e')
    (he' : e'.NoEmptyFront) : e.BuffersLeft op := by
  cases steps_of_step hstep with
  | callback c hdriving =>
    intro hplain
    rw [← he.recv.stocked_iff]
    by_contra hnot
    refine he' ?_
    simp [Session.callback, Callbacks.call_of_not_stocked hnot hplain]
  | _ => trivial

/-- **The record callback has a buffer in exactly those runs** in which every record that a
handshake or a shutdown reads comes before all buffers are returned. -/
theorem record_stocked (hello : List β) (ops : List (EndpointOp β)) :
    Along step NoEmptyFront (create hello) ops ↔ StepsMeet step BuffersLeft (create hello) ops :=
  along_iff_stepsMeet (fun _ he => by simp [NoEmptyFront, he.recv.fault])
    (fun _ _ _ he hleft hstep => he.step hleft hstep)
    (fun _ _ _ he hstep he' => he.buffersLeft hstep he') (driveInv_create hello)

/-- **There is none** for data that comes with the last handshake message, and for data that comes
with a close notification after all buffers were handed out. -/
theorem record_unstocked :
    ¬Along step NoEmptyFront (create ([] : List Nat)) [.drive, .callback (.recordReceived [7])] ∧
      ¬Along step NoEmptyFront (create ([] : List Nat))
        [.session .recv, .session (.resume [(4, [1])]), .session .next, .session (.consume 1),
          .session (.callback (.recordReceived [7])), .session .finish, .session .next,
          .drive, .callback (.recordReceived [8])] := by
  refine ⟨fun h => ?_, fun h => ?_⟩
  · exact absurd (h.last rfl) (by unfold NoEmptyFront; decide)
  · exact absurd (h.last rfl) (by unfold NoEmptyFront; decide)

end Endpoint

end Tls

end Fiona
