import Fiona.Lib.Run
import Fiona.Tls.Session

/-!
# The ciphertext that is sent

`send_buf_` is what the channel appends its ciphertext to, and the memory a `tcp` send that is in
flight reads. `async_send_impl` empties it once its send is over, whatever was appended
in the meantime, by another coroutine's `send` – be it one whose own `tcp` send is then
refused – or by `received_data`, and whether or not the send succeeded.
-/

namespace Fiona

namespace Tls

open Transition

namespace Session

variable {β : Type*} (s : Session β)

/-- What was handed to the socket and what is left in `send_buf_` is all that was emitted. -/
def Lossless : Prop := s.handed ++ s.cb.sendBuf = s.emitted

/-- A send that succeeded is over while `send_buf_` is what it was started with, and one that
failed while it is empty. -/
def Untouched : TlsOp β → Prop
  | .sent res => if res < 0 then s.cb.sendBuf = [] else s.sending = some s.cb.sendBuf
  | _ => True

variable {s} {s' : Session β} {op : TlsOp β}

/-- The bytes of the send that is in flight are the first in `send_buf_`. -/
structure SendInv (s : Session β) : Prop where
  lossless : s.Lossless
  sending : ∀ data, s.sending = some data → data <+: s.cb.sendBuf

theorem sendInv_established (sendBuf : List β) (receivedRecord : Bool) :
    SendInv (established sendBuf receivedRecord) where
  lossless := rfl
  sending := by simp [established]

/-- A step that sends and emits nothing. -/
theorem SendInv.congr (hs : SendInv s) (hbuf : s'.cb.sendBuf = s.cb.sendBuf)
    (hsending : s'.sending = s.sending) (hemitted : s'.emitted = s.emitted)
    (hhanded : s'.handed = s.handed) : SendInv s' where
  lossless := by rw [Lossless, hbuf, hemitted, hhanded]; exact hs.lossless
  sending := by rw [hbuf, hsending]; exact hs.sending

theorem SendInv.again (hs : SendInv s) : SendInv s.again := by
  rcases s.again_cases with ⟨-, heq⟩ | ⟨-, heq⟩ <;> rw [heq] <;> exact hs.congr rfl rfl rfl rfl

/-- What is emitted is appended to `send_buf_`. -/
theorem SendInv.emit (hs : SendInv s) {data : List β}
    (hbuf : s'.cb.sendBuf = s.cb.sendBuf ++ data) (hemitted : s'.emitted = s.emitted ++ data)
    (hhanded : s'.handed = s.handed)
    (hsending : ∀ w, s'.sending = some w → s.sending = some w ∨ w = s'.cb.sendBuf) :
    SendInv s' where
  lossless := by
    have hlossless := hs.lossless
    rw [Lossless, hbuf, hemitted, hhanded, ← List.append_assoc, hlossless]
  sending w hw := by
    rcases hsending w hw with hold | rfl
    · rw [hbuf]
      exact (hs.sending w hold).trans (List.prefix_append ..)
    · exact List.prefix_refl _

theorem SendInv.send (hs : SendInv s) (data : List β) : SendInv (s.send data) := by
  refine hs.emit rfl rfl rfl fun w hw => ?_
  simp only [Session.send] at hw ⊢
  cases hsending : s.sending with
  | none => exact .inr (by simpa [hsending] using hw.symm)
  | some v => exact .inl (by simpa [hsending] using hw)

theorem SendInv.callback (hs : SendInv s) (c : Callback β) : SendInv (s.callback c) := by
  rcases s.callback_cases c with ⟨f, -, heq⟩ | ⟨cb, ws, hcall, heq⟩
  · exact heq ▸ hs.congr rfl rfl rfl rfl
  · exact heq ▸ hs.emit (Callbacks.call_sendBuf hcall) rfl rfl fun _ hw => .inl hw

/-- **Nothing is lost of a send** exactly when `send_buf_` was left alone. -/
theorem sent_lossless (hs : SendInv s) {res : Int} {data : List β}
    (hsending : s.sending = some data) :
    (s.sent res data).Lossless ↔ s.Untouched (.sent res) := by
  obtain ⟨rest, hrest⟩ := hs.sending data hsending
  have hlossless := hs.lossless
  rw [Lossless] at hlossless
  simp only [Lossless, Session.sent, Untouched, List.append_nil, hsending, Option.some.injEq]
  split_ifs with hres
  · constructor
    · intro h
      rw [← hlossless] at h
      simpa using h
    · intro h
      rw [← hlossless, h, List.append_nil]
  · rw [← hlossless]
    exact List.append_right_inj _

theorem SendInv.step (hs : SendInv s) (huntouched : s.Untouched op)
    (hstep : s.step op = some s') : SendInv s' := by
  obtain ⟨-, hsteps⟩ := steps_of_step hstep
  cases hsteps with
  | send data => exact hs.send data
  | sent res data hsending =>
    exact ⟨(sent_lossless hs hsending).mpr huntouched, by simp [Session.sent]⟩
  | recv hidle => exact hs.again
  | ended hover => exact hs.again
  | callback c block size consumed bufs hread => exact hs.callback c
  | take capacity bytes bufs hloop =>
    rcases s.takeBuf_cases capacity bytes bufs with ⟨-, heq⟩ | ⟨-, heq⟩ <;> rw [heq] <;>
      exact hs.congr rfl rfl rfl rfl
  | _ => exact hs.congr rfl rfl rfl rfl

theorem SendInv.untouched (hs : SendInv s) (hstep : s.step op = some s') (hs' : s'.Lossless) :
    s.Untouched op := by
  obtain ⟨-, hsteps⟩ := steps_of_step hstep
  cases hsteps with
  | sent res data hsending => exact (sent_lossless hs hsending).mp hs'
  | _ => trivial

/-- **No ciphertext is lost in exactly those runs** in which nothing was emitted while a send was
in flight, and in which every send that found something to send succeeded. -/
theorem send_lossless (sendBuf : List β) (receivedRecord : Bool) (ops : List (TlsOp β)) :
    Along step Lossless (established sendBuf receivedRecord) ops ↔
      StepsMeet step Untouched (established sendBuf receivedRecord) ops :=
  along_iff_stepsMeet (fun _ hs => hs.lossless)
    (fun _ _ _ hs huntouched hstep => hs.step huntouched hstep)
    (fun _ _ _ hs hstep hs' => hs.untouched hstep hs') (sendInv_established ..)

/-- **Ciphertext is lost** when a second coroutine sends while the first one's send is in flight,
and is refused; when a record makes the channel emit in the meantime; and when a send fails. -/
theorem send_loses :
    ¬Along step Lossless (established ([] : List Nat) false) [.send [1], .send [2], .sent 1] ∧
      ¬Along step Lossless (established ([] : List Nat) false)
        [.recv, .send [1], .resume [(8, [7])], .next, .consume 1, .callback (.emitData [2]),
          .finish, .next, .sent 1] ∧
      ¬Along step Lossless (established ([] : List Nat) false) [.send [1], .sent (-104)] := by
  refine ⟨fun h => ?_, fun h => ?_, fun h => ?_⟩
  · exact absurd (h.last rfl) (by unfold Lossless; decide)
  · exact absurd (h.last rfl) (by unfold Lossless; decide)
  · exact absurd (h.last rfl) (by unfold Lossless; decide)

end Session

end Tls

end Fiona
