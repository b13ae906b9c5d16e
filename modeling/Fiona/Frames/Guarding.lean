import Fiona.Frames.Timer
import Fiona.Frames.Waiting
import Fiona.Lib.Guarding
import Fiona.Stream.Accounting

/-!
# The operations that are guarded

`await_suspend` of a send, of an accept, of a write and a read of a file, and of a wait and a
cancel of a timer throws `EBUSY` while `initiated_` is set, and `initiated_` is set until the
coroutine that waits is resumed. So a coroutine that waits in one of these is never forgotten,
whatever other operations there are on the object, guarded or not. Moreover the frames of a stream,
of an acceptor, of a file and of a timer give each handle out once: nobody is resumed twice, or
without waiting. That is not so of a client, because of the two frames of a connect.
-/

namespace Fiona

open Shared Transition

/-! ### Streams -/

/-- The calls of a stream, which are those of a client but for `async_connect`. -/
inductive StreamCall
  | asyncClose
  | asyncCancel
  | asyncSend (buf : Span)
  | asyncRecv
  | asyncShutdown (how : Int)
  deriving DecidableEq, Repr

/-- `client` is derived from `stream`. -/
def StreamCall.toClient : StreamCall → ClientCall
  | .asyncClose => .asyncClose
  | .asyncCancel => .asyncCancel
  | .asyncSend buf => .asyncSend buf
  | .asyncRecv => .asyncRecv
  | .asyncShutdown how => .asyncShutdown how

/-- A stream, as an object whose awaitables share its frames. -/
def streamObject : Object StreamImpl ClientArgs FrameId Coro StreamCall ClientRequest
    (Option Nat × Nat) ClientCqe ClientOther := clientObject.restrict StreamCall.toClient

namespace StreamImpl

variable {s s' : StreamImpl} {h : Coro} {o : Op} {x : ClientCall} {w : Option Nat × Nat}
  {q : List FrameId}

/-- What awaiting does to the frame of an operation: nothing, unless it is the frame of the call, or
that of the socket. -/
theorem await_frame (hawait : s.await h w.1 w.2 x = .suspends s' q) (hsocket : o ≠ .socket)
    (hmain : frameOf x ≠ .op o) : s'.frame o = s.frame o := by
  have hstarts : ∀ {o' : Op} {t : StreamImpl} {r : StreamImpl × List Sqe}, t.Starts o' h r →
      o ≠ o' → r.1.frame o = t.frame o := by
    intro o' t r hr hne
    rw [hr.frame, Function.update_of_ne hne]
  have hne : ∀ {o' : Op}, frameOf x = .op o' → o ≠ o' := by
    rintro o' heq rfl
    exact hmain heq
  cases x with
  | asyncClose =>
    obtain ⟨rfl, -⟩ := Outcome.suspends.inj hawait
    exact hstarts closeAwaitSuspend_starts (hne rfl)
  | asyncCancel =>
    obtain ⟨rfl, -⟩ := Outcome.suspends.inj hawait
    exact hstarts cancelAwaitSuspend_starts (hne rfl)
  | asyncShutdown how =>
    obtain ⟨rfl, -⟩ := Outcome.suspends.inj hawait
    exact hstarts shutdownAwaitSuspend_starts (hne rfl)
  | asyncSend buf =>
    cases hsend : s.sendAwaitSuspend h w.2 with
    | none => simp [await, hsend] at hawait
    | some r =>
      simp only [await, hsend, Option.elim_some, Outcome.suspends.injEq] at hawait
      obtain ⟨rfl, -⟩ := hawait
      exact hstarts (sendAwaitSuspend_starts hsend).2 (hne rfl)
  | asyncConnect addr =>
    rcases s.awaitConnect_cases h w.1 with ⟨-, heq⟩ | ⟨-, heq⟩ | ⟨-, heq⟩
    · cases heq.symm.trans hawait
    · cases heq.symm.trans hawait
    · obtain ⟨rfl, -⟩ := Outcome.suspends.inj (heq.symm.trans hawait)
      obtain ⟨r, hr, hconnect⟩ := s.connectAwaitSuspend_starts (h := h) w.1
      rw [hr]
      refine (hstarts hconnect (hne rfl)).trans ?_
      rcases s.connectSocket_starts (h := h) w.1 with hsame | hsocket'
      · rw [hsame]
      · exact hstarts hsocket' hsocket
  | asyncRecv =>
    have hrecv : s.awaitRecv h w.2 = .suspends s' q := hawait
    unfold awaitRecv at hrecv
    split_ifs at hrecv
    rcases s.recvAwaitSuspend_cases h w.2 with ⟨v, rf, heq, -⟩ | ⟨g, rf, fd, heq, -⟩
    · rw [heq] at hrecv
      cases v <;> cases hrecv <;> rfl
    · rw [heq] at hrecv
      cases hrecv
      rfl

/-- What goes on at once leaves the frames of other operations. -/
theorem await_goesOn_frame (hawait : s.await h w.1 w.2 x = .goesOn s') :
    s'.frame .send = s.frame .send ∧ frameOf x ≠ .op .send := by
  cases x with
  | asyncClose | asyncCancel | asyncShutdown _ => cases hawait
  | asyncSend buf =>
    cases hsend : s.sendAwaitSuspend h w.2 <;> simp [await, hsend] at hawait
  | asyncConnect addr =>
    rcases s.awaitConnect_cases h w.1 with ⟨-, heq⟩ | ⟨-, heq⟩ | ⟨-, heq⟩
    · cases heq.symm.trans hawait
    · obtain rfl := Outcome.goesOn.inj (heq.symm.trans hawait)
      rw [s.connectRefuse_awaitResume.1, awaitResume_frame]
      exact ⟨by simp [resets], by simp [frameOf]⟩
    · cases heq.symm.trans hawait
  | asyncRecv =>
    have hresume : ∀ t : StreamImpl, (t.awaitResume .recv).frame .send = t.frame .send := by
      intro t
      rw [awaitResume_frame]
      simp [resets]
    have hrecv : s.awaitRecv h w.2 = .goesOn s' := hawait
    refine ⟨?_, by simp [frameOf]⟩
    unfold awaitRecv at hrecv
    split_ifs at hrecv
    · cases hrecv
      exact hresume s
    · rcases s.recvAwaitSuspend_cases h w.2 with ⟨v, rf, heq, -⟩ | ⟨g, rf, fd, heq, -⟩
      · rw [heq] at hrecv
        cases v with
        | resume =>
          cases hrecv
          exact hresume _
        | arm g | wait => cases hrecv
        | throw e =>
          cases hrecv
          rfl
      · rw [heq] at hrecv
        cases hrecv

/-- A completion of another frame leaves the frame of an operation. -/
theorem processCqe_frame {f : FrameId} {cqe : Cqe} {now p : Nat} {buf : RecvBuffer}
    {found : Option Coro} {slot : Option Int} {q : List Sqe} (hne : f ≠ .op o)
    (hposts : Life.posts f cqe = true)
    (hp : Life.processCqe s cqe now p buf f = some (s', found, slot, q)) :
    s'.frame o = s.frame o := by
  cases f with
  | op o' =>
    have hframe : (s.opAwaitProcessCqe o' cqe.res).1.frame o = s.frame o := by
      have hset : ∀ g : OpFrame, (s.setFrame o' g).frame o = s.frame o := by
        intro g
        exact Function.update_of_ne (fun heq => hne (congrArg FrameId.op heq.symm)) ..
      cases o' <;> simp only [opAwaitProcessCqe, cancelAwaitProcessCqe, closeAwaitProcessCqe,
        shutdownAwaitProcessCqe, sendAwaitProcessCqe, socketAwaitProcessCqe,
        connectAwaitProcessCqe] <;> (try split_ifs) <;> exact hset _
    simp only [Life.processCqe, Option.some.injEq, Prod.mk.injEq] at hp
    obtain ⟨rfl, -⟩ := hp
    rw [← hframe, opHandle]
    split_ifs
    · rfl
    · exact Function.update_of_ne (fun heq => hne (congrArg FrameId.op heq.symm)) ..
  | recv =>
    simp only [Life.processCqe, Option.bind_eq_bind, Option.bind_eq_some_iff, Option.some.injEq,
      Prod.mk.injEq] at hp
    obtain ⟨t, ht, rfl, -⟩ := hp
    simp only [recvAwaitProcessCqe, Option.bind_eq_bind, Option.bind_eq_some_iff,
      Option.some.injEq] at ht
    obtain ⟨rf, -, rfl⟩ := ht
    split_ifs <;> rfl
  | timeout =>
    obtain ⟨-, -, hframe⟩ := s.timeoutAwaitProcessCqe_keeps (Life.posts_timeout hposts) now
    simp only [Life.processCqe, Option.some.injEq, Prod.mk.injEq] at hp
    obtain ⟨rfl, -⟩ := hp
    rw [hframe]
  | timeoutCancel =>
    simp only [Life.processCqe, Option.some.injEq, Prod.mk.injEq] at hp
    obtain ⟨rfl, -⟩ := hp
    rfl

/-- A completion of a send, and what `handle` makes of the frame. -/
theorem processCqe_send {cqe : Cqe} {now p : Nat} {buf : RecvBuffer} {found : Option Coro}
    {slot : Option Int} {q : List Sqe}
    (hp : Life.processCqe s cqe now p buf (.op .send) = some (s', found, slot, q)) :
    s'.frame .send = ((s.frame .send).complete cqe.res).exchange.2 := by
  have hframe : (s.sendAwaitProcessCqe cqe.res).frame .send = (s.frame .send).complete cqe.res := by
    simp only [sendAwaitProcessCqe]
    split_ifs <;> simp [setFrame]
  simp only [Life.processCqe, opAwaitProcessCqe, opHandle, reduceCtorEq, false_and, if_false,
    Option.some.injEq, Prod.mk.injEq] at hp
  obtain ⟨rfl, -⟩ := hp
  rw [← hframe]
  simp [setFrame]

theorem clientObject_process {f : FrameId} {c : ClientCqe} {found : Option Coro}
    (hprocess : clientObject.process s f c = some (s', found)) :
    ∃ slot q, Life.processCqe s c.cqe c.now c.p c.buf f = some (s', found, slot, q) := by
  obtain ⟨⟨s'', found', slot, q⟩, hp, heq⟩ := Option.map_eq_some_iff.mp hprocess
  obtain ⟨rfl, rfl⟩ := Prod.mk.inj heq
  exact ⟨slot, q, hp⟩

/-- **A send is guarded.** -/
theorem clientObject_guards_send :
    Guards clientObject (.op .send) (fun s => s.frame .send) OpFrame.initiated where
  kind := rfl
  goesOn hawait := (await_goesOn_frame hawait).symm
  suspends hawait hmain := await_frame hawait (by simp) hmain
  process := by
    intro s f c s' found hne hposts hprocess
    obtain ⟨slot, q, hp⟩ := clientObject_process hprocess
    exact processCqe_frame hne hposts hp
  resume := by
    intro s f hkind hne
    have hkeeps : FrameId.op .send ∉ resets f := by
      cases f with
      | op o => cases o <;> simp_all [resets]
      | _ => simp [resets]
    show (s.awaitResume f).frame .send = s.frame .send
    rw [awaitResume_frame, if_neg hkeeps]
  other := by
    intro s b s' hother
    cases b with
    | timeout cqe now =>
      simp only [clientObject, StreamImpl.other, Option.ite_none_right_eq_some, Option.some.injEq]
        at hother
      obtain ⟨hposts, rfl⟩ := hother
      obtain ⟨-, -, hframe⟩ := s.timeoutAwaitProcessCqe_keeps (Life.posts_timeout hposts) now
      rw [hframe]
    | timeoutCancel res | setTimeout ts =>
      obtain rfl := Option.some.inj hother
      rfl
    | setBufferGroup g =>
      obtain ⟨rf, -, rfl⟩ := Option.map_eq_some_iff.mp hother
      rfl
  starts := by
    intro s x h w s' q hawait hmain
    cases x with
    | asyncSend buf =>
      cases hsend : s.sendAwaitSuspend h w.2 with
      | none => simp [clientObject, await, hsend] at hawait
      | some r =>
        obtain ⟨hfree, hstarts⟩ := sendAwaitSuspend_starts hsend
        simp only [clientObject, await, hsend, Option.elim_some, Outcome.suspends.injEq] at hawait
        obtain ⟨rfl, -⟩ := hawait
        exact ⟨hfree, by simp [hstarts.frame, OpFrame.start]⟩
    | _ => cases hmain
  ends := by
    intro s c s' found _ hprocess
    obtain ⟨slot, q, hp⟩ := clientObject_process hprocess
    rw [processCqe_send hp]
    rfl

/-- Without connects, each operation has one frame. -/
theorem streamObject_single : Single streamObject RecvInv := by
  intro s n x h w s' q hs hawait i hi
  have hstarts : ∀ {o : Op} {t : StreamImpl} {r : StreamImpl × List Sqe}, t.Starts o h r →
      q = requests r.2 → i = .op o := by
    intro o t r hr hq
    rw [hq, hr.requests] at hi
    exact List.mem_singleton.mp hi
  cases x with
  | asyncClose => exact hstarts closeAwaitSuspend_starts (Outcome.suspends.inj hawait).2.symm
  | asyncCancel => exact hstarts cancelAwaitSuspend_starts (Outcome.suspends.inj hawait).2.symm
  | asyncShutdown how =>
    exact hstarts shutdownAwaitSuspend_starts (Outcome.suspends.inj hawait).2.symm
  | asyncSend buf =>
    have hsends : s.await h w.1 w.2 (.asyncSend buf) = .suspends s' q := hawait
    cases hsend : s.sendAwaitSuspend h w.2 with
    | none => simp [await, hsend] at hsends
    | some r =>
      simp only [await, hsend, Option.elim_some, Outcome.suspends.injEq] at hsends
      exact hstarts (sendAwaitSuspend_starts hsend).2 hsends.2.symm
  | asyncRecv =>
    rcases awaitRecv_cases hs h w.2 with ⟨-, heq⟩ | ⟨-, -, t, heq, -⟩ | ⟨-, t, q', heq, -, -, hq, -⟩
    · cases heq.symm.trans hawait
    · cases heq.symm.trans hawait
    · obtain ⟨-, rfl⟩ := Outcome.suspends.inj (heq.symm.trans hawait)
      exact hq i hi

end StreamImpl

/-! ### Acceptors, files and timers -/

theorem acceptorObject_suspends {s s' : AcceptorImpl} {x : AcceptorAwait} {h : Coro}
    {slot : Option Nat} {q : List AcceptorFrame}
    (hawait : acceptorObject.await s x h slot = .suspends s' q) :
    ∃ q', s.awaitSuspend h slot x = .ok (s', q') := by
  simp only [acceptorObject] at hawait
  split at hawait
  · cases hawait
  · rename_i r q' heq
    obtain ⟨rfl, -⟩ := Outcome.suspends.inj hawait
    exact ⟨q', heq⟩

/-- An accept that does not throw found the frame free, and has the slot in it. -/
theorem AcceptorImpl.acceptAwaitSuspend_ok {s s' : AcceptorImpl} {h : Coro} {slot : Option Nat}
    {q : List AcceptorSqe} (hok : s.acceptAwaitSuspend h slot = .ok (s', q)) :
    s.accept.initiated = false ∧ ∃ n, slot = some n ∧
      s' = { s with
        accept := { s.accept with initiated := true, h := some h, peerFd := n } }.addRef := by
  unfold acceptAwaitSuspend at hok
  split_ifs at hok with hbusy
  cases slot with
  | none => cases hok
  | some n =>
    cases hok
    exact ⟨by simpa using hbusy, n, rfl, rfl⟩

/-- **An accept is guarded.** -/
theorem acceptorObject_guards_accept :
    Guards acceptorObject .accept AcceptorImpl.accept AcceptFrame.initiated where
  kind := rfl
  goesOn hawait := absurd hawait acceptorObject_plain.await_ne_goesOn
  suspends := by
    intro s x h slot s' q hawait hmain
    obtain ⟨q', hok⟩ := acceptorObject_suspends hawait
    cases x with
    | accept | acceptRaw => exact absurd rfl hmain
    | cancel =>
      cases hok
      rfl
    | close =>
      simp only [AcceptorImpl.awaitSuspend, AcceptorImpl.closeAwaitSuspend] at hok
      split_ifs at hok
      cases hok
      rfl
  process := by
    intro s f res s' found hne _ hprocess
    obtain ⟨rfl, -⟩ := Prod.mk.inj (Option.some.inj hprocess)
    cases f with
    | accept => exact absurd rfl hne
    | cancel | close => rfl
  resume := by
    intro s f _ hne
    cases f with
    | accept => exact absurd rfl hne
    | cancel | close => rfl
  other := by
    intro s b
    exact b.elim
  starts := by
    intro s x h slot s' q hawait hmain
    obtain ⟨q', hok⟩ := acceptorObject_suspends hawait
    cases x with
    | accept | acceptRaw =>
      obtain ⟨hfree, n, -, rfl⟩ := AcceptorImpl.acceptAwaitSuspend_ok hok
      exact ⟨hfree, rfl⟩
    | cancel | close => cases hmain
  ends := by
    intro s res s' found _ hprocess
    obtain ⟨rfl, -⟩ := Prod.mk.inj (Option.some.inj hprocess)
    simp only [AcceptorImpl.awaitProcessCqe, AcceptorImpl.acceptAwaitProcessCqe]
    split_ifs <;> rfl

/-- A completion changes the frame of its own operation. -/
theorem fileObject_process {s s' : FileImpl} {f : FileFrame} {res : Int} {found : Option Coro}
    (hprocess : fileObject.process s f res = some (s', found)) :
    s'.frame = Function.update s.frame f ((s.frame f).complete res).exchange.2 := by
  obtain ⟨rfl, -⟩ := Prod.mk.inj (Option.some.inj hprocess)
  have hframe : (s.awaitProcessCqe res f).1.frame =
      Function.update s.frame f ((s.frame f).complete res) := by
    cases f with
    | «open» =>
      simp only [FileImpl.awaitProcessCqe, FileImpl.openAwaitProcessCqe, FileImpl.setFrame]
      split_ifs <;> rfl
    | write | read => rfl
  simp [FileImpl.setFrame, OpFrame.exchange, hframe]

theorem fileObject_suspends {s s' : FileImpl} {x : FileCall} {h : Coro} {slot : Option Nat}
    {q : List FileFrame} (hawait : fileObject.await s x h slot = .suspends s' q) :
    fileObject.takes s x slot = true ∧ s'.frame = Function.update s.frame (FileImpl.frameOf x)
      ((s.frame (FileImpl.frameOf x)).start h) := by
  rcases s.awaitSuspend_cases h slot x with ⟨hnone, -⟩ | ⟨t, hsome, htakes, hframe⟩
  · simp [fileObject, hnone] at hawait
  · simp only [fileObject, hsome, Option.elim_some, Outcome.suspends.injEq] at hawait
    obtain ⟨rfl, -⟩ := hawait
    exact ⟨htakes, hframe⟩

/-- **A write and a read are guarded.** -/
theorem fileObject_guards {k : FileFrame} (hk : k ≠ .open) :
    Guards fileObject k (fun s => s.frame k) OpFrame.initiated where
  kind := rfl
  goesOn hawait := absurd hawait fileObject_plain.await_ne_goesOn
  suspends := by
    intro s x h slot s' q hawait hmain
    obtain ⟨-, hframe⟩ := fileObject_suspends hawait
    rw [hframe]
    exact Function.update_of_ne (Ne.symm hmain) ..
  process := by
    intro s f res s' found hne _ hprocess
    rw [fileObject_process hprocess, Function.update_of_ne hne.symm]
  resume := by
    intro s f _ hne
    show (s.awaitResume f).frame k = s.frame k
    cases f <;> exact Function.update_of_ne hne.symm ..
  other := by
    intro s b
    exact b.elim
  starts := by
    intro s x h slot s' q hawait hmain
    obtain ⟨htakes, hframe⟩ := fileObject_suspends hawait
    obtain rfl : FileImpl.frameOf x = k := hmain
    refine ⟨?_, ?_⟩
    · cases hkind : FileImpl.frameOf x with
      | «open» => exact absurd hkind hk
      | write | read => simpa [fileObject, hkind] using htakes
    · rw [hframe, Function.update_self]
      rfl
  ends := by
    intro s res s' found _ hprocess
    rw [fileObject_process hprocess, Function.update_self]
    rfl

/-- The frames of a timer. -/
def TimerImpl.frame (s : TimerImpl) : TimerFrameId → TimerFrame
  | .timeout => s.timeout
  | .cancel => s.cancel

/-- A completion leaves `h_` and `initiated_`, and the other frame. -/
theorem TimerImpl.awaitProcessCqe_keeps (s : TimerImpl) (res : Int) (f k : TimerFrameId) :
    ((s.awaitProcessCqe res f).frame k).h = (s.frame k).h ∧
      ((s.awaitProcessCqe res f).frame k).initiated = (s.frame k).initiated ∧
      (f ≠ k → (s.awaitProcessCqe res f).frame k = s.frame k) := by
  cases f with
  | timeout =>
    simp only [awaitProcessCqe, timeoutAwaitProcessCqe]
    cases k with
    | timeout => split_ifs <;> exact ⟨rfl, rfl, fun hne => absurd rfl hne⟩
    | cancel => exact ⟨rfl, rfl, fun _ => rfl⟩
  | cancel =>
    simp only [awaitProcessCqe, cancelAwaitProcessCqe]
    cases k with
    | timeout => exact ⟨rfl, rfl, fun _ => rfl⟩
    | cancel => split_ifs <;> exact ⟨rfl, rfl, fun hne => absurd rfl hne⟩

/-- What awaiting does to a timer: it throws, or starts the operation of the frame. -/
theorem timerObject_await (s : TimerImpl) (x : TimerCall) (h : Coro) :
    timerObject.await s x h () = .refuses ∧ timerObject.takes s x () = false ∨
      ∃ s', timerObject.await s x h () = .suspends s' [timerObject.main x] ∧
        timerObject.takes s x () = true ∧
        timerObject.stored s' =
          Function.update (timerObject.stored s) (timerObject.main x) (some h) := by
  cases x with
  | asyncWait ts =>
    cases hbusy : s.timeout.initiated with
    | true => exact .inl (by simp [timerObject, TimerImpl.waitAwaitSuspend, hbusy])
    | false =>
      refine .inr ⟨{ s with timeout := { s.timeout with h := some h, initiated := true } }, ?_⟩
      refine ⟨by simp [timerObject, TimerImpl.waitAwaitSuspend, hbusy],
        by simp [timerObject, hbusy], ?_⟩
      funext f
      cases f <;> rfl
  | asyncCancel =>
    cases hbusy : s.cancel.initiated with
    | true => exact .inl (by simp [timerObject, TimerImpl.cancelAwaitSuspend, hbusy])
    | false =>
      refine .inr ⟨{ s with cancel := { s.cancel with h := some h, initiated := true } }, ?_⟩
      refine ⟨by simp [timerObject, TimerImpl.cancelAwaitSuspend, hbusy],
        by simp [timerObject, hbusy], ?_⟩
      funext f
      cases f <;> rfl

theorem timerObject_plain : Plain timerObject where
  kind _ := rfl
  gives _ _ _ := rfl
  await s x h _ := timerObject_await s x h
  process := by
    intro s f res s' found hprocess
    obtain ⟨rfl, rfl⟩ := Prod.mk.inj (Option.some.inj hprocess)
    have hstored : timerObject.stored (s.awaitProcessCqe res f) = timerObject.stored s := by
      funext g
      have hkeeps := (s.awaitProcessCqe_keeps res f g).1
      cases g <;> exact hkeeps
    rw [← hstored]
    constructor
    · cases f <;> rfl
    · funext g
      cases f <;> cases g <;> rfl
  resume s f := by
    funext g
    cases f with
    | timeout => cases g <;> rfl
    | cancel =>
      show timerObject.stored s.cancelAwaitResume g = timerObject.stored s g
      unfold TimerImpl.cancelAwaitResume
      split_ifs <;> cases g <;> rfl
  other := by
    intro s b
    exact b.elim

/-- Awaiting sets two members of its own frame, which was free. -/
theorem timerObject_suspends {s s' : TimerImpl} {x : TimerCall} {h : Coro} {q : List TimerFrameId}
    (hawait : timerObject.await s x h () = .suspends s' q) :
    (s.frame (timerObject.main x)).initiated = false ∧
      s'.frame = Function.update s.frame (timerObject.main x)
        { s.frame (timerObject.main x) with h := some h, initiated := true } := by
  cases x with
  | asyncWait ts =>
    simp only [timerObject, TimerImpl.waitAwaitSuspend] at hawait
    split_ifs at hawait with hbusy
    · cases hawait
    · cases hawait
      refine ⟨by simpa [timerObject, TimerImpl.frame] using hbusy, ?_⟩
      funext k
      cases k <;> rfl
  | asyncCancel =>
    simp only [timerObject, TimerImpl.cancelAwaitSuspend] at hawait
    split_ifs at hawait with hbusy
    · cases hawait
    · cases hawait
      refine ⟨by simpa [timerObject, TimerImpl.frame] using hbusy, ?_⟩
      funext k
      cases k <;> rfl

/-- **A wait and a cancel are guarded.** -/
theorem timerObject_guards (k : TimerFrameId) :
    Guards timerObject k (fun s => s.frame k) TimerFrame.initiated where
  kind := rfl
  goesOn hawait := absurd hawait timerObject_plain.await_ne_goesOn
  suspends := by
    intro s x h w s' q hawait hmain
    rw [(timerObject_suspends hawait).2, Function.update_of_ne hmain.symm]
  process := by
    intro s f res s' found hne _ hprocess
    obtain ⟨rfl, -⟩ := Prod.mk.inj (Option.some.inj hprocess)
    rw [← (s.awaitProcessCqe_keeps res f k).2.2 hne]
    cases f <;> cases k <;> first | rfl | exact absurd rfl hne
  resume := by
    intro s f _ hne
    cases f with
    | timeout =>
      cases k with
      | timeout => exact absurd rfl hne
      | cancel => rfl
    | cancel =>
      cases k with
      | timeout =>
        simp only [timerObject, TimerImpl.cancelAwaitResume]
        split_ifs <;> rfl
      | cancel => exact absurd rfl hne
  other := by
    intro s b
    exact b.elim
  starts := by
    intro s x h w s' q hawait hmain
    obtain ⟨hfree, hframe⟩ := timerObject_suspends hawait
    subst hmain
    exact ⟨hfree, by rw [hframe, Function.update_self]⟩
  ends := by
    intro s res s' found _ hprocess
    obtain ⟨rfl, -⟩ := Prod.mk.inj (Option.some.inj hprocess)
    rw [← (s.awaitProcessCqe_keeps res k k).2.1]
    cases k <;> rfl

/-- **No coroutine is forgotten that waits in an operation that is guarded**, in any run; and
nobody is woken twice, or without waiting, but for a connect. Of a timer all operations are guarded,
and so no coroutine is forgotten at all. -/
theorem coroutines_guarded (fd : Int) (now off : Nat) :
    (∀ ops, Along clientObject.step (HeldIn clientObject (.op .send))
      (.init (StreamImpl.new fd now) .init) ops) ∧
    (∀ ops, Along streamObject.step (fun s => WokenOnce s ∧ HeldIn streamObject (.op .send) s)
      (.init (StreamImpl.new fd now) .init) ops) ∧
    (∀ ops, Along acceptorObject.step (fun s => WokenOnce s ∧ HeldIn acceptorObject .accept s)
      (.init (AcceptorImpl.new off) ()) ops) ∧
    (∀ k, k ≠ .open → ∀ ops, Along fileObject.step (fun s => WokenOnce s ∧ HeldIn fileObject k s)
      (.init FileImpl.new .init) ops) ∧
    ∀ ops, Along timerObject.step (Kept timerObject) (.init TimerImpl.new ⟨0, 0⟩) ops := by
  have hnew : (StreamImpl.new fd now).RecvInv fun _ => 0 := ⟨rfl, fun _ => rfl⟩
  refine ⟨fun ops => ?_, fun ops => ?_, fun ops => ?_, fun k hk ops => ?_, fun ops => ?_⟩
  · exact along_heldIn clientObject_parks StreamImpl.clientObject_guards_send hnew ops
  · have hparks := clientObject_parks.restrict StreamCall.toClient
    exact (along_wokenOnce hparks StreamImpl.streamObject_single hnew ops).and
      (along_heldIn hparks (StreamImpl.clientObject_guards_send.restrict _) hnew ops)
  · exact (along_wokenOnce acceptorObject_plain.parks acceptorObject_plain.single trivial ops).and
      (along_heldIn acceptorObject_plain.parks acceptorObject_guards_accept trivial ops)
  · exact (along_wokenOnce fileObject_plain.parks fileObject_plain.single trivial ops).and
      (along_heldIn fileObject_plain.parks (fileObject_guards hk) trivial ops)
  · have hheld : ∀ k, Along timerObject.step (HeldIn timerObject k)
        (.init TimerImpl.new ⟨0, 0⟩) ops :=
      fun k => along_heldIn timerObject_plain.parks (timerObject_guards k) trivial ops
    have honce : Along timerObject.step WokenOnce (.init TimerImpl.new ⟨0, 0⟩) ops :=
      along_wokenOnce timerObject_plain.parks timerObject_plain.single trivial ops
    refine ((honce.and (hheld .timeout)).and (hheld .cancel)).mono ?_
    rintro s ⟨⟨hwoken, htimeout⟩, hcancel⟩
    refine ⟨fun v hv => ?_, hwoken.once, hwoken.waits⟩
    cases hk : v.kind with
    | timeout => exact htimeout v hv hk
    | cancel => exact hcancel v hv hk

end Fiona
