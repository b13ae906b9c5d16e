import Fiona.Frames.Guarding
import Fiona.Lib.Returning

/-!
# What `await_resume` returns

An awaitable returns what it finds in the frame of its object: `res_` of a send, a write and a read,
`peer_fd_` of an accept, `ec_` of a wait and a cancel of a timer. That this is the result of the
request that the awaitable has started, and not what a request of another awaitable has left there
or what the frame had before, is so for the operations that are guarded (`Fiona.results_own`).
-/

namespace Fiona

open Shared Transition

/-- A `result<T>`, or an exception. -/
inductive Returned (V : Type)
  | value (v : V)
  | error (e : Int)
  | throws (e : Int)
  deriving DecidableEq, Repr

/-! ### Bytes -/

/-- The bytes that `res_` counts, or its error. -/
def transferred (res : Int) : Returned Nat := if res < 0 then .error (-res) else .value res.toNat

/-- `send_awaitable::await_resume`, as to what it returns. -/
def sendReturns (_ : StreamCall) (f : OpFrame) : Returned Nat := transferred f.res

/-- `write_awaitable::await_resume`, as to what it returns. -/
def writeReturns (_ : FileCall) (f : OpFrame) : Returned Nat := transferred f.res

/-- `read_awaitable::await_resume`, as to what it returns. -/
def readReturns (_ : FileCall) (f : OpFrame) : Returned Nat := transferred f.res

theorem streamObject_answers_send : Answers streamObject (.op .send) (fun s => s.frame .send)
    (fun _ => True) (fun _ _ _ => True) (fun _ _ c f => f.res = c.cqe.res) sendReturns
    fun _ _ c => transferred c.cqe.res where
  starts := by
    intro s x h w s' q hawait hmain _
    cases x with
    | asyncSend buf =>
      have hsends : s.await h w.1 w.2 (.asyncSend buf) = .suspends s' q := hawait
      cases hsend : s.sendAwaitSuspend h w.2 with
      | none => simp [StreamImpl.await, hsend] at hsends
      | some r =>
        simp only [StreamImpl.await, hsend, Option.elim_some, Outcome.suspends.injEq] at hsends
        obtain ⟨-, rfl⟩ := hsends
        rw [(StreamImpl.sendAwaitSuspend_starts hsend).2.requests]
        exact ⟨by simp, trivial⟩
    | _ => cases hmain
  ends := by
    intro s c s' found x w hposts hprocess _ _
    have hclient : clientObject.process s (.op .send) c = some (s', found) := hprocess
    obtain ⟨slot, q, hp⟩ := StreamImpl.clientObject_process hclient
    refine ⟨by simpa [streamObject, Object.restrict, clientObject, Life.posts] using hposts, ?_⟩
    rw [StreamImpl.processCqe_send hp]
    rfl
  resumes _ _ := trivial
  reads _ hended := congrArg transferred hended

/-- A write or a read, whose frame has what the last completion was. -/
theorem fileObject_answers {k : FileFrame} (returns : FileCall → OpFrame → Returned Nat)
    (hreturns : ∀ x f, returns x f = transferred f.res) :
    Answers fileObject k (fun s => s.frame k) (fun _ => True) (fun _ _ _ => True)
      (fun _ _ res f => f.res = res) returns fun _ _ res => transferred res where
  starts := by
    intro s x h slot s' q hawait hmain _
    rcases fileObject_plain.await s x h slot with ⟨hrefuses, -⟩ | ⟨t, hsusp, -⟩
    · cases hrefuses.symm.trans hawait
    · obtain ⟨-, rfl⟩ := Outcome.suspends.inj (hsusp.symm.trans hawait)
      rw [hmain]
      exact ⟨by simp, trivial⟩
  ends := by
    intro s res s' found x w _ hprocess _ _
    refine ⟨rfl, ?_⟩
    rw [fileObject_process hprocess, Function.update_self]
    rfl
  resumes _ _ := trivial
  reads := by
    intro x w res f _ hended
    rw [hreturns, hended]

/-! ### Connections -/

/-- `accept_awaitable::await_resume` and `accept_raw_awaitable::await_resume`, as to what they
return. -/
def acceptReturns (x : AcceptorAwait) (f : AcceptFrame) : Returned Accepted :=
  if f.peerFd < 0 then .error (-f.peerFd)
  else
    match x with
    | .accept => .value (.connection f.peerFd)
    | .acceptRaw => .value (.raw f.peerFd)
    | .cancel | .close => .value .nothing

/-- What is due for an accept: the error, or the connection in the slot that was asked for. -/
def acceptDue (x : AcceptorAwait) (slot : Option Nat) (res : Int) : Returned Accepted :=
  if res < 0 then .error (-res)
  else
    match x, slot with
    | .accept, some n => .value (.connection n)
    | .acceptRaw, some n => .value (.raw n)
    | _, _ => .value .nothing

theorem acceptorObject_answers : Answers acceptorObject .accept AcceptorImpl.accept
    (fun _ => True) (fun _ slot f => ∃ n : Nat, slot = some n ∧ f.peerFd = n)
    (fun _ slot res f => ∃ n : Nat, slot = some n ∧ f.peerFd = if res < 0 then res else n)
    acceptReturns acceptDue where
  starts := by
    intro s x h slot s' q hawait hmain _
    rcases acceptorObject_plain.await s x h slot with ⟨hrefuses, -⟩ | ⟨t, hsusp, -⟩
    · cases hrefuses.symm.trans hawait
    · obtain ⟨-, rfl⟩ := Outcome.suspends.inj (hsusp.symm.trans hawait)
      refine ⟨by rw [hmain]; simp, ?_⟩
      obtain ⟨q', hok⟩ := acceptorObject_suspends hawait
      cases x with
      | accept | acceptRaw =>
        obtain ⟨-, n, rfl, rfl⟩ := AcceptorImpl.acceptAwaitSuspend_ok hok
        exact ⟨n, rfl, rfl⟩
      | cancel | close => cases hmain
  ends := by
    intro s res s' found x slot _ hprocess _ hbegun
    obtain ⟨n, rfl, hn⟩ := hbegun
    obtain ⟨rfl, -⟩ := Prod.mk.inj (Option.some.inj hprocess)
    refine ⟨rfl, n, rfl, ?_⟩
    simp only [AcceptorImpl.awaitProcessCqe, AcceptorImpl.acceptAwaitProcessCqe]
    split_ifs
    · rfl
    · exact hn
  resumes _ _ := trivial
  reads := by
    intro x slot res f hmain hended
    obtain ⟨n, rfl, hn⟩ := hended
    simp only [acceptReturns, acceptDue, hn]
    have hnat : ¬(n : Int) < 0 := by omega
    cases x with
    | accept | acceptRaw => split_ifs <;> rfl
    | cancel | close => cases hmain

/-! ### Timers -/

/-- What an `error_code` says. -/
def ofErrorCode (ec : Option Int) : Returned Unit := ec.elim (.value ()) .error

/-- `timer_awaitable::await_resume` and `timer_cancel_awaitable::await_resume`, as to what they
return. -/
def timerReturns : TimerCall → TimerFrame → Returned Unit
  | .asyncWait _, f => ofErrorCode f.ec
  | .asyncCancel, f => if !f.initiated || !f.done then .throws Errno.EBUSY else ofErrorCode f.ec

/-- What is due for a wait, which ends with `ETIME` when the time has passed, and for a cancel. -/
def timerDue : TimerCall → Unit → Int → Returned Unit
  | .asyncWait _, _, res => if res = 0 ∨ res = -Errno.ETIME then .value () else .error (-res)
  | .asyncCancel, _, res => if res < 0 then .error (-res) else .value ()

theorem timerObject_answers (k : TimerFrameId) : Answers timerObject k (fun s => s.frame k)
    (fun f => f.ec = none) (fun _ _ f => f.initiated = true ∧ f.ec = none)
    (fun x w res f => f.initiated = true ∧ f.done = true ∧ ofErrorCode f.ec = timerDue x w res)
    timerReturns timerDue where
  starts := by
    intro s x h w s' q hawait hmain hfresh
    rcases timerObject_plain.await s x h w with ⟨hrefuses, -⟩ | ⟨t, hsusp, -⟩
    · cases hrefuses.symm.trans hawait
    · obtain ⟨-, rfl⟩ := Outcome.suspends.inj (hsusp.symm.trans hawait)
      subst hmain
      rw [(timerObject_suspends hawait).2, Function.update_self]
      exact ⟨by simp, rfl, hfresh⟩
  ends := by
    intro s res s' found x w _ hprocess hmain hbegun
    obtain ⟨rfl, -⟩ := Prod.mk.inj (Option.some.inj hprocess)
    obtain ⟨hinitiated, hec⟩ := hbegun
    refine ⟨rfl, ?_⟩
    cases x with
    | asyncWait ts =>
      subst hmain
      simp only [timerObject, TimerImpl.awaitProcessCqe, TimerImpl.timeoutAwaitProcessCqe,
        TimerImpl.frame, timerDue]
      split_ifs with herror hdue hdue
      · omega
      · exact ⟨hinitiated, rfl, rfl⟩
      · exact ⟨hinitiated, rfl, congrArg ofErrorCode hec⟩
      · omega
    | asyncCancel =>
      subst hmain
      simp only [timerObject, TimerImpl.awaitProcessCqe, TimerImpl.cancelAwaitProcessCqe,
        TimerImpl.frame, timerDue]
      split_ifs
      · exact ⟨hinitiated, rfl, rfl⟩
      · exact ⟨hinitiated, rfl, congrArg ofErrorCode hec⟩
  resumes := by
    intro s x w res hmain hended
    obtain ⟨hinitiated, hdone, -⟩ := hended
    cases k with
    | timeout => rfl
    | cancel =>
      simp only [TimerImpl.frame] at hinitiated hdone
      simp [timerObject, TimerImpl.cancelAwaitResume, TimerImpl.frame, hinitiated, hdone]
  reads := by
    intro x w res f _ hended
    obtain ⟨hinitiated, hdone, hec⟩ := hended
    cases x with
    | asyncWait ts => exact hec
    | asyncCancel => simpa [timerReturns, hinitiated, hdone] using hec

/-- **Each operation returns its own result**, of those that are guarded: in any run a coroutine
that is resumed in `await_resume` of a send, an accept, a write, a read, a wait or a cancel is given
what the completion of the request that it has started says. -/
theorem results_own (fd : Int) (now off : Nat) :
    (∀ ops, Along (Recorded.step streamObject (.op .send) (fun s => s.frame .send) sendReturns)
      (ReturnsOwn fun _ _ c => transferred c.cqe.res) (.init (StreamImpl.new fd now) .init) ops) ∧
    (∀ ops, Along (Recorded.step acceptorObject .accept AcceptorImpl.accept acceptReturns)
      (ReturnsOwn acceptDue) (.init (AcceptorImpl.new off) ()) ops) ∧
    (∀ ops, Along (Recorded.step fileObject .write (fun s => s.frame .write) writeReturns)
      (ReturnsOwn fun _ _ res => transferred res) (.init FileImpl.new .init) ops) ∧
    (∀ ops, Along (Recorded.step fileObject .read (fun s => s.frame .read) readReturns)
      (ReturnsOwn fun _ _ res => transferred res) (.init FileImpl.new .init) ops) ∧
    ∀ k ops, Along (Recorded.step timerObject k (fun s => s.frame k) timerReturns)
      (ReturnsOwn timerDue) (.init TimerImpl.new ⟨0, 0⟩) ops := by
  refine ⟨fun ops => ?_, fun ops => ?_, fun ops => ?_, fun ops => ?_, fun k ops => ?_⟩
  · have hnew : (StreamImpl.new fd now).RecvInv fun _ => 0 := ⟨rfl, fun _ => rfl⟩
    exact along_returnsOwn (clientObject_parks.restrict _) StreamImpl.streamObject_single
      (StreamImpl.clientObject_guards_send.restrict _) streamObject_answers_send hnew trivial ops
  · exact along_returnsOwn acceptorObject_plain.parks acceptorObject_plain.single
      acceptorObject_guards_accept acceptorObject_answers trivial trivial ops
  · exact along_returnsOwn fileObject_plain.parks fileObject_plain.single
      (fileObject_guards (by simp)) (fileObject_answers _ fun _ _ => rfl) trivial trivial ops
  · exact along_returnsOwn fileObject_plain.parks fileObject_plain.single
      (fileObject_guards (by simp)) (fileObject_answers _ fun _ _ => rfl) trivial trivial ops
  · have hfresh : (TimerImpl.new.frame k).ec = none := by cases k <;> rfl
    exact along_returnsOwn timerObject_plain.parks timerObject_plain.single (timerObject_guards k)
      (timerObject_answers k) trivial hfresh ops

end Fiona
