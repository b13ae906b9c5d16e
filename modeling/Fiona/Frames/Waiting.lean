import Fiona.Frames.Acceptor
import Fiona.Frames.Client
import Fiona.Stream.Counting

/-!
# Suspended coroutines

A frame has room for one handle. `send`, `accept` and the reads and writes of a file refuse a
second operation as long as `initiated_` is set; the others store the handle of whoever comes.
`connect` looks at the flag of `socket_frame`, which is not set when the client is connected
already.

So a coroutine is forgotten when another one awaits the same operation before it has been resumed,
be it that its handle is overwritten, or that the handle which replaced it is reset by
`await_resume`. This, and a connect that is resumed by both its frames, is all that can happen
(`Fiona.coroutines_kept`).
-/

namespace Fiona

open Shared Transition

/-! ### What the functions do to the handles -/

/-- `await_suspend` of a file refuses, or stores the handle in the frame of the operation. -/
theorem FileImpl.awaitSuspend_cases (s : FileImpl) (h : Coro) (slot : Option Nat) (x : FileCall) :
    (s.awaitSuspend h slot (frameOf x) = none ∧ fileObject.takes s x slot = false) ∨
      ∃ s', s.awaitSuspend h slot (frameOf x) = some s' ∧ fileObject.takes s x slot = true ∧
        s'.frame = Function.update s.frame (frameOf x) ((s.frame (frameOf x)).start h) := by
  have hguarded : ∀ f : FileFrame,
      (s.frame f).initiated = true ∨ (s.frame f).initiated = false := by
    intro f
    cases (s.frame f).initiated <;> simp
  cases x with
  -- the only one of the three that does not look at `initiated_`
  | asyncOpen pathname flags => exact .inr ⟨_, rfl, rfl, rfl⟩
  | asyncWrite _ | asyncWriteFixed _ _ =>
    rcases hguarded .write with hbusy | hfree
    · exact .inl (by simp [awaitSuspend, writeAwaitSuspend, frameOf, fileObject, hbusy])
    · exact .inr (by simp [awaitSuspend, writeAwaitSuspend, frameOf, fileObject, hfree, setFrame])
  | asyncRead _ | asyncReadFixed _ _ =>
    rcases hguarded .read with hbusy | hfree
    · exact .inl (by simp [awaitSuspend, readAwaitSuspend, frameOf, fileObject, hbusy])
    · exact .inr (by simp [awaitSuspend, readAwaitSuspend, frameOf, fileObject, hfree, setFrame])

theorem fileObject_plain : Plain fileObject where
  kind _ := rfl
  gives _ _ _ := rfl
  await o x h slot := by
    rcases o.awaitSuspend_cases h slot x with ⟨hnone, htakes⟩ | ⟨s', hsome, htakes, hframe⟩
    · exact .inl ⟨by simp [fileObject, hnone], htakes⟩
    · refine .inr ⟨s', by simp [fileObject, hsome], htakes, ?_⟩
      funext f
      simp only [fileObject, hframe]
      rcases eq_or_ne f (FileImpl.frameOf x) with rfl | hne
      · simp [OpFrame.start]
      · simp [hne]
  process := by
    intro o f res o' found hprocess
    obtain ⟨rfl, rfl⟩ := Prod.mk.inj (Option.some.inj hprocess)
    have hframe : (o.awaitProcessCqe res f).1.frame =
        Function.update o.frame f ((o.frame f).complete res) := by
      cases f with
      | «open» =>
        simp only [FileImpl.awaitProcessCqe, FileImpl.openAwaitProcessCqe, FileImpl.setFrame]
        split_ifs <;> rfl
      | write => rfl
      | read => rfl
    refine ⟨?_, ?_⟩
    · simp [FileImpl.handle, OpFrame.exchange, hframe, OpFrame.complete, fileObject]
    · funext g
      rcases eq_or_ne g f with rfl | hne
      · simp [FileImpl.handle, FileImpl.setFrame, OpFrame.exchange, fileObject]
      · simp [FileImpl.handle, FileImpl.setFrame, hframe, fileObject, hne]
  resume o f := by
    funext g
    rcases eq_or_ne g f with rfl | hne
    · cases g <;> simp [fileObject, FileImpl.awaitResume, FileImpl.setFrame, OpFrame.reset,
        OpFrame.idle]
    · cases f <;> simp [fileObject, FileImpl.awaitResume, FileImpl.setFrame, hne]
  other := by
    intro o b
    exact b.elim

/-- `accept_awaitable::await_suspend` throws, or stores the handle. -/
theorem AcceptorImpl.acceptAwaitSuspend_cases (s : AcceptorImpl) (h : Coro) (slot : Option Nat) :
    (∃ e, s.acceptAwaitSuspend h slot = .error e) ∧ s.accepts slot .accept = false ∨
      ∃ s' q, s.acceptAwaitSuspend h slot = .ok (s', q) ∧ s.accepts slot .accept = true ∧
        q.filterMap AcceptorSqe.frame = [.accept] ∧
        s'.stored = Function.update s.stored .accept (some h) := by
  unfold acceptAwaitSuspend accepts
  cases hbusy : s.accept.initiated with
  | true => exact .inl ⟨⟨_, rfl⟩, rfl⟩
  | false =>
    cases slot with
    | none => exact .inl ⟨⟨_, rfl⟩, rfl⟩
    | some n =>
      refine .inr ⟨_, _, rfl, rfl, rfl, ?_⟩
      funext f
      cases f <;> rfl

/-- `accept_close_awaitable::await_suspend` throws, or stores the handle. -/
theorem AcceptorImpl.closeAwaitSuspend_cases (s : AcceptorImpl) (h : Coro) (slot : Option Nat) :
    (∃ e, s.closeAwaitSuspend h = .error e) ∧ s.accepts slot .close = false ∨
      ∃ s' q, s.closeAwaitSuspend h = .ok (s', q) ∧ s.accepts slot .close = true ∧
        q.filterMap AcceptorSqe.frame = [.close] ∧
        s'.stored = Function.update s.stored .close (some h) := by
  unfold closeAwaitSuspend accepts
  by_cases hfd : s.fd < 0
  · exact .inl ⟨⟨_, if_pos hfd⟩, by simp [hfd]⟩
  · refine .inr ⟨_, _, if_neg hfd, by simpa using hfd, rfl, ?_⟩
    funext f
    cases f <;> rfl

theorem acceptorObject_plain : Plain acceptorObject where
  kind _ := rfl
  gives _ _ _ := rfl
  await o x h slot := by
    cases x with
    | accept | acceptRaw =>
      rcases o.acceptAwaitSuspend_cases h slot with ⟨⟨e, herror⟩, hrefuses⟩ | ⟨s', q, hok, haccepts,
        hq, hstored⟩
      · exact .inl ⟨by simp [acceptorObject, AcceptorImpl.awaitSuspend, herror], hrefuses⟩
      · exact .inr ⟨s', by simp [acceptorObject, AcceptorImpl.awaitSuspend, AcceptorImpl.frameOf,
          hok, hq], haccepts, hstored⟩
    | cancel =>
      refine .inr ⟨_, rfl, rfl, ?_⟩
      funext f
      cases f <;> rfl
    | close =>
      rcases o.closeAwaitSuspend_cases h slot with ⟨⟨e, herror⟩, hrefuses⟩ | ⟨s', q, hok, haccepts,
        hq, hstored⟩
      · exact .inl ⟨by simp [acceptorObject, AcceptorImpl.awaitSuspend, herror], hrefuses⟩
      · exact .inr ⟨s', by simp [acceptorObject, AcceptorImpl.awaitSuspend, AcceptorImpl.frameOf,
          hok, hq], haccepts, hstored⟩
  process := by
    intro o f res o' found hprocess
    obtain ⟨rfl, rfl⟩ := Prod.mk.inj (Option.some.inj hprocess)
    cases f with
    | accept =>
      have hh : (o.acceptAwaitProcessCqe res).1.accept.h = o.accept.h ∧
          (o.acceptAwaitProcessCqe res).1.cancel = o.cancel ∧
          (o.acceptAwaitProcessCqe res).1.close = o.close := by
        unfold AcceptorImpl.acceptAwaitProcessCqe
        split_ifs <;> exact ⟨rfl, rfl, rfl⟩
      obtain ⟨haccept, hcancel, hclose⟩ := hh
      refine ⟨haccept, ?_⟩
      funext g
      cases g with
      | accept => rfl
      | cancel => exact congrArg OpFrame.h hcancel
      | close => exact congrArg OpFrame.h hclose
    | cancel | close =>
      refine ⟨rfl, ?_⟩
      funext g
      cases g <;> rfl
  resume o f := by
    funext g
    cases f <;> cases g <;> rfl
  other := by
    intro o b
    exact b.elim

/-! ### Streams and clients -/

namespace StreamImpl

variable {s s' : StreamImpl} {h : Coro} {o : Op} {n : FrameId → Nat} {x : ClientCall}
  {w : Option Nat × Nat}

/-- The receive has a request exactly while `initiated_` is set, and an error is kept only when it
has none. -/
def RecvInv (s : StreamImpl) (n : FrameId → Nat) : Prop :=
  n .recv = s.recv.initiated.toNat ∧ s.Clear

theorem RecvInv.of_recv (hs : s.RecvInv n) {n' : FrameId → Nat} (hn : n' .recv = n .recv)
    (hrecv : s'.recv = s.recv) : s'.RecvInv n' := by
  rw [RecvInv, Clear, hn, hrecv]
  exact hs

/-- Whoever starts an operation is stored in its frame. -/
theorem Starts.stored {r : StreamImpl × List Sqe} (hr : s.Starts o h r) :
    r.1.stored = Function.update s.stored (.op o) (some h) := by
  funext f
  cases f with
  | op o' =>
    rcases eq_or_ne o' o with rfl | hne
    · simp [StreamImpl.stored, hr.frame, OpFrame.start]
    · rw [Function.update_of_ne (by simp [hne])]
      simp [StreamImpl.stored, hr.frame, hne]
  | recv => exact congrArg RecvFrame.h hr.recv
  | _ => rfl

/-- The awaitables that start one operation. -/
theorem Starts.suspends {r : StreamImpl × List Sqe} (hr : s.Starts o h r) (hs : s.RecvInv n)
    (hmain : frameOf x = .op o) (htakes : s.takes x = true) :
    Suspends clientObject RecvInv s n x h w r.1 (Fiona.requests r.2) := by
  have hstored : r.1.stored (.op o) = some h := by rw [hr.stored, Function.update_self]
  have hkind : clientObject.kind (frameOf x) = frameOf x := by cases x <;> rfl
  refine ⟨htakes, hs.of_recv (by simp [hr.requests]) hr.recv, ?_, ?_, fun i hi => ?_, fun i => ?_⟩
  · simp [clientObject, hmain, hr.requests]
  · rw [show clientObject.main x = .op o from hmain]
    exact hstored
  · rw [hr.requests, List.mem_singleton] at hi
    subst hi
    exact ⟨hmain ▸ hkind, hstored⟩
  · rcases eq_or_ne i (.op o) with rfl | hne
    · exact .inr ⟨hmain ▸ hkind, hstored⟩
    · refine .inl ?_
      rw [show clientObject.stored r.1 = r.1.stored from rfl, hr.stored, Function.update_of_ne hne]
      rfl

/-- A connect is stored in two frames, or, on a client that is connected, in one. -/
theorem connect_suspends (hs : s.RecvInv n) (addr : SockAddr) (slot : Option Nat)
    (hbusy : s.connectBusy = false) :
    Suspends clientObject RecvInv s n (.asyncConnect addr) h w (s.connectAwaitSuspend slot h).1
      (requests (s.connectAwaitSuspend slot h).2) := by
  have htakes : clientObject.takes s (.asyncConnect addr) w = true := by
    simp [clientObject, takes, hbusy]
  obtain ⟨r, heq, hconnect⟩ := s.connectAwaitSuspend_starts (h := h) slot
  rw [heq]
  rcases s.connectSocket_starts (h := h) slot with hsame | hsocket
  -- the client has a socket, and only the connect is queued
  · rw [hsame] at hconnect ⊢
    simpa using hconnect.suspends (w := w) hs (x := .asyncConnect addr) rfl htakes
  · have hstored : r.1.stored = Function.update (Function.update s.stored (.op .socket) (some h))
        (.op .connect) (some h) := by
      rw [hconnect.stored, hsocket.stored]
    have hsocket' : r.1.stored (.op .socket) = some h := by simp [hstored]
    have hconnect' : r.1.stored (.op .connect) = some h := by simp [hstored]
    simp only [requests_append, hsocket.requests, hconnect.requests]
    refine ⟨htakes, hs.of_recv (by simp) (hconnect.recv.trans hsocket.recv), ?_, hconnect',
      fun i hi => ?_, fun i => ?_⟩
    · simp [clientObject, frameOf]
    · rcases List.mem_cons.mp hi with rfl | hi
      · exact ⟨rfl, hsocket'⟩
      · obtain rfl := List.mem_singleton.mp hi
        exact ⟨rfl, hconnect'⟩
    · by_cases hi : i = .op .socket ∨ i = .op .connect
      · rcases hi with rfl | rfl
        · exact .inr ⟨rfl, hsocket'⟩
        · exact .inr ⟨rfl, hconnect'⟩
      · obtain ⟨hne, hne'⟩ := not_or.mp hi
        refine .inl ?_
        rw [show clientObject.stored r.1 = r.1.stored from rfl, hstored, Function.update_of_ne hne',
          Function.update_of_ne hne]
        rfl

theorem stored_reset (s : StreamImpl) (o : Op) (f : OpFrame) :
    (s.setFrame o f.reset).stored = Function.update s.stored (.op o) none := by
  funext i
  cases i with
  | op o' =>
    rcases eq_or_ne o' o with rfl | hne
    · simp [stored, setFrame, OpFrame.reset, OpFrame.idle]
    · simp [stored, setFrame, hne]
  | _ => rfl

theorem recvAwaitResume_h : s.recvAwaitResume.recv.h = s.recv.h := by
  unfold recvAwaitResume RecvFrame.awaitResume
  split_ifs with hempty
  · cases hec : s.recv.ec <;> simp
  · simp

theorem stored_awaitResume_recv : (s.awaitResume .recv).stored = s.stored := by
  funext i
  cases i with
  | recv => exact recvAwaitResume_h
  | _ => rfl

/-- `await_resume` resets the frames of its operation, but for the receive. -/
theorem stored_awaitResume {k : FrameId} (hk : clientObject.kind k = k) (i : FrameId) :
    (s.awaitResume k).stored i =
      if clientObject.kind i = k ∧ clientObject.resets k then none else s.stored i := by
  have hsingle : ∀ o, (∀ o', clientObject.kind (.op o') = .op o ↔ o' = o) →
      Function.update s.stored (.op o) none i =
        if clientObject.kind i = .op o ∧ clientObject.resets (.op o) then none else s.stored i := by
    intro o ho
    have hresets : clientObject.resets (.op o) = true := rfl
    cases i with
    | op o' => simp [Function.update_apply, ho, hresets]
    | _ => rfl
  cases k with
  | op o =>
    cases o with
    | socket => simp [clientObject] at hk
    | connect =>
      have hboth : s.awaitResume (.op .connect) =
          (s.setFrame .socket (s.frame .socket).reset).setFrame .connect
            (s.frame .connect).reset := by
        simp only [awaitResume, connectAwaitResume]
        split_ifs <;> rfl
      rw [hboth, stored_reset, stored_reset]
      cases i with
      | op o' => cases o' <;> simp [clientObject]
      | _ => rfl
    | cancel | close | shutdown | send =>
      rw [show s.awaitResume (.op _) = s.setFrame _ (s.frame _).reset from rfl, stored_reset]
      exact hsingle _ fun o' => by cases o' <;> simp [clientObject]
  | recv =>
    rw [stored_awaitResume_recv]
    simp [clientObject]
  | timeout | timeoutCancel => simp [clientObject, awaitResume]

theorem RecvInv.awaitResume (hs : s.RecvInv n) (k : FrameId) : (s.awaitResume k).RecvInv n := by
  obtain ⟨-, -, -, -, hinit, hec⟩ := s.awaitResume_keeps k
  refine ⟨by rw [hinit]; exact hs.1, fun hup => hec (hs.2 ?_)⟩
  exact hinit ▸ hup

/-- What comes of awaiting the receive: there is data, or the coroutine stores its handle and goes
on with an error or an exception, or it waits for a receive that is under way or armed now. -/
theorem awaitRecv_cases (hs : s.RecvInv n) (h : Coro) (now : Nat) :
    (s.recv.awaitReady = true ∧ s.awaitRecv h now = .goesOn (s.awaitResume .recv)) ∨
      (s.recv.awaitReady = false ∧ n .recv = 0 ∧ ∃ s', s.awaitRecv h now = .goesOn s' ∧
        s'.RecvInv n ∧ s'.stored = Function.update s.stored .recv (some h)) ∨
      (s.recv.awaitReady = false ∧ ∃ s' q, s.awaitRecv h now = .suspends s' q ∧
        s'.RecvInv (fun i => n i + q.count i) ∧
        s'.stored = Function.update s.stored .recv (some h) ∧ (∀ i ∈ q, i = .recv) ∧
        0 < n .recv + q.count .recv) := by
  have hstored : ∀ rf : RecvFrame, rf.h = some h →
      ({ s with recv := rf } : StreamImpl).stored = Function.update s.stored .recv (some h) := by
    intro rf hrf
    funext i
    cases i with
    | recv => simp [stored, hrf]
    | _ => rfl
  obtain ⟨hn, hclear⟩ := hs
  cases hready : s.recv.awaitReady with
  | true => exact .inl ⟨rfl, by simp [awaitRecv, hready]⟩
  | false =>
    refine .inr ?_
    have hkept : ({ s with recv := { s.recv with h := some h } } : StreamImpl).RecvInv n :=
      ⟨hn, hclear⟩
    cases hec : s.recv.ec with
    | some e =>
      -- `await_suspend` stores the handle, finds the error and does not suspend
      have hdown : s.recv.initiated = false := by
        by_contra hup
        simp [hclear (by simpa using hup)] at hec
      rw [hdown] at hn
      refine .inl ⟨rfl, hn, ({ s with recv := { s.recv with h := some h } } :
        StreamImpl).awaitResume .recv, ?_, hkept.awaitResume .recv, ?_⟩
      · simp [awaitRecv, hready, recvAwaitSuspend, RecvFrame.awaitSuspend, hec]
      · rw [stored_awaitResume_recv, hstored _ rfl]
    | none =>
      cases hinit : s.recv.initiated with
      | true =>
        -- a receive is in flight, and nothing is queued
        refine .inr ⟨rfl, _, [], ?_, hkept.of_recv rfl rfl, hstored _ rfl, by simp, ?_⟩
        · simp [awaitRecv, hready, recvAwaitSuspend, RecvFrame.awaitSuspend, hec, hinit]
        · simp [hn, hinit]
      | false =>
        rw [hinit] at hn
        cases hg : s.recv.bufferGroupId with
        | none =>
          -- there is no buffer group to receive into: an exception, with the handle stored
          refine .inl ⟨rfl, hn, _, ?_, hkept, hstored _ rfl⟩
          simp [awaitRecv, hready, recvAwaitSuspend, RecvFrame.awaitSuspend, hec, hinit, hg]
        | some g =>
          let rf := { s.recv with h := some h, pBufRing := some g }.scheduleRecv now
          refine .inr ⟨rfl, ({ s with recv := rf } : StreamImpl).addRef, [.recv], ?_,
            ⟨?_, fun _ => hec⟩, ?_, by simp, by simp⟩
          · simp [awaitRecv, hready, recvAwaitSuspend, RecvFrame.awaitSuspend, hec, hinit, hg, rf]
          · simp [hn, rf, addRef, RecvFrame.scheduleRecv]
          · exact hstored rf rfl

/-- A connect throws, or is refused for want of a slot, or starts. -/
theorem awaitConnect_cases (s : StreamImpl) (h : Coro) (slot : Option Nat) :
    (s.connectBusy = true ∧ s.awaitConnect h slot = .refuses) ∨
      (s.connectBusy = false ∧
        s.awaitConnect h slot = .goesOn (s.connectRefuse.awaitResume (.op .connect))) ∨
      (s.connectBusy = false ∧ s.awaitConnect h slot =
        .suspends (s.connectAwaitSuspend slot h).1
        (requests (s.connectAwaitSuspend slot h).2)) := by
  unfold awaitConnect
  cases s.connectBusy with
  | true => exact .inl ⟨rfl, rfl⟩
  | false =>
    cases s.connectRefused slot with
    | true => exact .inr (.inl ⟨rfl, rfl⟩)
    | false => exact .inr (.inr ⟨rfl, rfl⟩)

/-- A connect that is refused for want of a slot resets both frames. -/
theorem connect_goesOn (hs : s.RecvInv n) (addr : SockAddr) (hbusy : s.connectBusy = false) :
    GoesOn clientObject RecvInv s n (.asyncConnect addr) h w
    (s.connectRefuse.awaitResume (.op .connect)) := by
  have hframe : s.connectRefuse.stored = s.stored := by
    funext i
    cases i with
    | op o => cases o <;> rfl
    | _ => rfl
  have htakes : clientObject.takes s (.asyncConnect addr) w = true := by
    simp [clientObject, takes, hbusy]
  have hstored := stored_awaitResume (s := s.connectRefuse) (k := .op .connect) rfl
  rw [hframe] at hstored
  have hrefused : s.connectRefuse.RecvInv n := hs.of_recv rfl rfl
  refine ⟨hrefused.awaitResume _, fun i => ?_, fun hnot => ?_, fun _ => .inl ?_⟩
  · by_cases hi : clientObject.kind i = .op .connect
    · exact .inr ⟨hi, .inl ((hstored i).trans (if_pos ⟨hi, rfl⟩))⟩
    · exact .inl ((hstored i).trans (if_neg fun hand => hi hand.1))
  · simp [htakes] at hnot
  · exact (hstored (.op .connect)).trans (if_pos ⟨rfl, rfl⟩)

/-- `await_process_cqe` of an operation leaves the handles, and notes the error of a socket. -/
theorem opAwaitProcessCqe_stored (s : StreamImpl) (o : Op) (res : Int) :
    (s.opAwaitProcessCqe o res).1.stored = s.stored ∧
      (o = .socket → ((s.opAwaitProcessCqe o res).1.frame o).res =
        if res < 0 then res else (s.frame o).res) := by
  have hset : ∀ (f : OpFrame) (fd : Int) (connected : Bool), f.h = (s.frame o).h →
      ({ s.setFrame o f with fd := fd, connected := connected } : StreamImpl).stored =
        s.stored := by
    intro f fd connected hf
    funext i
    cases i with
    | op o' =>
      rcases eq_or_ne o' o with rfl | hne
      · simp [stored, setFrame, hf]
      · simp [stored, setFrame, hne]
    | _ => rfl
  cases o with
  | cancel => exact ⟨hset _ s.fd s.connected rfl, by simp⟩
  | shutdown => exact ⟨hset _ s.fd s.connected rfl, by simp⟩
  | close => exact ⟨hset _ (-1) false rfl, by simp⟩
  | send =>
    refine ⟨?_, by simp⟩
    unfold opAwaitProcessCqe sendAwaitProcessCqe
    dsimp only
    split_ifs <;> exact hset _ s.fd _ rfl
  | socket =>
    unfold opAwaitProcessCqe socketAwaitProcessCqe
    dsimp only
    split_ifs with hres
    · exact ⟨hset _ (-1) s.connected rfl, fun _ => by simp [setFrame]⟩
    · exact ⟨hset _ s.fd s.connected rfl, fun _ => by simp [setFrame]⟩
  | connect =>
    refine ⟨?_, by simp⟩
    unfold opAwaitProcessCqe connectAwaitProcessCqe
    dsimp only
    split_ifs <;> exact hset _ s.fd _ rfl

/-- `handle` of an operation gives out the handle, unless a socket has been made. -/
theorem opHandle_stored (s : StreamImpl) (o : Op) {b : Bool}
    (hb : b = false ↔ o = .socket ∧ ¬(s.frame o).res < 0) :
    (s.opHandle o).1 = (if b then s.stored (.op o) else none) ∧
      ∀ i, (s.opHandle o).2.stored i = if i = .op o ∧ b then none else s.stored i := by
  unfold opHandle
  cases b with
  | false =>
    rw [if_pos (hb.mp rfl)]
    simp
  | true =>
    rw [if_neg fun hand => Bool.noConfusion (hb.mpr hand)]
    refine ⟨rfl, fun i => ?_⟩
    rcases eq_or_ne i (.op o) with rfl | hne
    · simp [stored, setFrame, OpFrame.exchange]
    · rw [if_neg fun hand => hne hand.1]
      cases i with
      | op o' =>
        simp [stored, setFrame, OpFrame.exchange, Function.update_of_ne fun heq : o' = o =>
          hne (heq ▸ rfl)]
      | _ => rfl

/-- A completion takes the handle out of its frame, unless a socket has been made. -/
theorem processCqe_stored {c : ClientCqe} {f : FrameId} {found : Option Coro} {slot : Option Int}
    {q : List Sqe} (hposts : Life.posts f c.cqe = true)
    (hprocess : Life.processCqe s c.cqe c.now c.p c.buf f = some (s', found, slot, q)) :
    found = (if s.gives c f then s.stored f else none) ∧
      ∀ i, s'.stored i = if i = f ∧ s.gives c f then none else s.stored i := by
  cases f with
  | op o =>
    obtain ⟨hstored, hres⟩ := s.opAwaitProcessCqe_stored o c.cqe.res
    simp only [Life.processCqe, Option.some.injEq, Prod.mk.injEq] at hprocess
    obtain ⟨rfl, rfl, -, -⟩ := hprocess
    rw [← hstored]
    refine opHandle_stored _ o ?_
    cases o with
    | socket =>
      rw [hres rfl]
      by_cases hneg : c.cqe.res < 0 <;> simp [gives, hneg]
    | _ => simp [gives]
  | recv =>
    simp only [Life.processCqe, recvAwaitProcessCqe, Option.bind_eq_bind, Option.bind_eq_some_iff]
      at hprocess
    obtain ⟨s₁, ⟨rf, hrf, heq⟩, hfound⟩ := hprocess
    have hh : rf.h = s.recv.h := by
      unfold RecvFrame.awaitProcessCqe at hrf
      split_ifs at hrf <;> obtain rfl := Option.some.inj hrf <;> rfl
    have hs₁ : s₁.recv = rf ∧ s₁.frame = s.frame := by
      obtain rfl := Option.some.inj heq
      cases c.cqe.more <;> exact ⟨rfl, rfl⟩
    simp only [Option.some.injEq, Prod.mk.injEq] at hfound
    obtain ⟨rfl, rfl, -, -⟩ := hfound
    refine ⟨(congrArg RecvFrame.h hs₁.1).trans hh, fun i => ?_⟩
    cases i with
    | op o => simp [stored, hs₁.2]
    | recv => simp [stored, gives, RecvFrame.handle]
    | _ => rfl
  | timeout =>
    obtain ⟨hrecv, -, hframe⟩ := s.timeoutAwaitProcessCqe_keeps (Life.posts_timeout hposts) c.now
    simp only [Life.processCqe, Option.some.injEq, Prod.mk.injEq] at hprocess
    obtain ⟨rfl, rfl, -, -⟩ := hprocess
    refine ⟨by simp [stored], fun i => ?_⟩
    cases i <;> simp [stored, hrecv, hframe]
  | timeoutCancel =>
    simp only [Life.processCqe, Option.some.injEq, Prod.mk.injEq] at hprocess
    obtain ⟨rfl, rfl, -, -⟩ := hprocess
    refine ⟨by simp [stored], fun i => ?_⟩
    cases i <;> simp [stored, timeoutCancelAwaitProcessCqe]

/-- The receive goes on or is over after a completion of it, and nothing else is about it. -/
theorem processCqe_recvInv {c : ClientCqe} {f : FrameId} {found : Option Coro} {slot : Option Int}
    {q : List Sqe} (hs : s.RecvInv n) (hpos : 0 < n f) (hposts : Life.posts f c.cqe = true)
    (hprocess : Life.processCqe s c.cqe c.now c.p c.buf f = some (s', found, slot, q)) :
    s'.RecvInv (if c.cqe.more then n else Function.update n f (n f - 1)) := by
  by_cases htimer : f = .timeout
  · subst htimer
    obtain ⟨hrecv, -, -⟩ := s.timeoutAwaitProcessCqe_keeps (Life.posts_timeout hposts) c.now
    simp only [Life.processCqe, Option.some.injEq, Prod.mk.injEq] at hprocess
    obtain ⟨rfl, -, -, -⟩ := hprocess
    refine hs.of_recv ?_ hrecv
    split <;> simp
  · obtain ⟨hdone, -⟩ := Life.processCqe_completes htimer hposts hprocess
    have hinit : s'.recv.initiated = Function.update s.isActive f c.cqe.more .recv :=
      congrFun hdone.isActive .recv
    have hup : f = .recv → s.recv.initiated = true ∧ n .recv = 1 := by
      rintro rfl
      have hn := hs.1
      cases hrecv : s.recv.initiated with
      | true => exact ⟨rfl, by rw [hn, hrecv, Bool.toNat_true]⟩
      | false =>
        rw [hn, hrecv] at hpos
        exact absurd hpos (by decide)
    refine ⟨?_, hdone.clear hs.2 fun hf => (hup hf).1⟩
    rcases eq_or_ne f .recv with rfl | hne
    · rw [hinit, Function.update_self]
      cases c.cqe.more <;> simp [(hup rfl).2]
    · rw [hinit, Function.update_of_ne hne.symm]
      split
      · exact hs.1
      · rw [Function.update_of_ne hne.symm]
        exact hs.1

end StreamImpl

open StreamImpl in
theorem clientObject_parks : Parks clientObject RecvInv where
  kind_main x := by cases x <;> rfl
  resets_of_ne i hne := by
    cases i with
    | op o => cases o <;> rfl
    | _ => exact absurd rfl hne
  gives_self o i c hi := by
    cases i with
    | op f =>
      cases f with
      | socket => simp [clientObject] at hi
      | _ => rfl
    | _ => rfl
  refuses := by
    intro s n x h w hs hawait
    cases x with
    | asyncSend buf =>
      cases hbusy : (s.frame .send).initiated with
      | true => simp [clientObject, takes, hbusy]
      | false => simp [clientObject, StreamImpl.await, sendAwaitSuspend, hbusy] at hawait
    | asyncConnect addr =>
      rcases s.awaitConnect_cases h w.1 with ⟨hbusy, -⟩ | ⟨-, heq⟩ | ⟨-, heq⟩
      · simp [clientObject, takes, hbusy]
      · cases heq.symm.trans hawait
      · cases heq.symm.trans hawait
    | asyncRecv =>
      rcases awaitRecv_cases hs h w.2 with ⟨-, heq⟩ | ⟨-, -, s', heq, -⟩ | ⟨-, s', q, heq, -⟩ <;>
        cases heq.symm.trans hawait
    | asyncClose | asyncCancel | asyncShutdown _ => cases hawait
  goesOn := by
    intro s n x h w s' hs hawait
    cases x with
    | asyncSend buf =>
      cases hsend : s.sendAwaitSuspend h w.2 <;> simp [clientObject, StreamImpl.await,
        hsend] at hawait
    | asyncConnect addr =>
      rcases s.awaitConnect_cases h w.1 with ⟨-, heq⟩ | ⟨hbusy, heq⟩ | ⟨-, heq⟩
      · cases heq.symm.trans hawait
      · obtain rfl := Outcome.goesOn.inj (heq.symm.trans hawait)
        exact connect_goesOn hs addr hbusy
      · cases heq.symm.trans hawait
    | asyncRecv =>
      rcases awaitRecv_cases hs h w.2 with ⟨hready, heq⟩ | ⟨hready, hn, s'', heq, hinv,
        hstored⟩ | ⟨-, s'', q, heq, -⟩
      · obtain rfl := Outcome.goesOn.inj (heq.symm.trans hawait)
        have hsame := stored_awaitResume_recv (s := s)
        refine ⟨hs.awaitResume .recv, fun i => .inl (congrFun hsame i),
          fun _ => congrFun hsame .recv, fun htakes => ?_⟩
        simp [clientObject, takes, hready] at htakes
      · obtain rfl := Outcome.goesOn.inj (heq.symm.trans hawait)
        have hself : s''.stored .recv = some h := by rw [hstored, Function.update_self]
        refine ⟨hinv, fun i => ?_, fun hnot => ?_, fun _ => .inr hself⟩
        · rcases eq_or_ne i .recv with rfl | hne
          · exact .inr ⟨rfl, .inr ⟨hself, hn⟩⟩
          · exact .inl ((congrFun hstored i).trans (Function.update_of_ne hne ..))
        · simp [clientObject, takes, hready] at hnot
      · cases heq.symm.trans hawait
    | asyncClose | asyncCancel | asyncShutdown _ => cases hawait
  suspends := by
    intro s n x h w s' q hs hawait
    cases x with
    | asyncSend buf =>
      cases hsend : s.sendAwaitSuspend h w.2 with
      | none => simp [clientObject, StreamImpl.await, hsend] at hawait
      | some r =>
        obtain ⟨hfree, hstarts⟩ := sendAwaitSuspend_starts hsend
        simp only [clientObject, StreamImpl.await, hsend, Option.elim_some, Outcome.suspends.injEq]
          at hawait
        obtain ⟨rfl, rfl⟩ := hawait
        exact hstarts.suspends hs rfl (by simp [takes, hfree])
    | asyncConnect addr =>
      rcases s.awaitConnect_cases h w.1 with ⟨-, heq⟩ | ⟨-, heq⟩ | ⟨hbusy, heq⟩
      · cases heq.symm.trans hawait
      · cases heq.symm.trans hawait
      · obtain ⟨rfl, rfl⟩ := Outcome.suspends.inj (heq.symm.trans hawait)
        exact connect_suspends hs addr _ hbusy
    | asyncRecv =>
      rcases awaitRecv_cases hs h w.2 with ⟨-, heq⟩ | ⟨-, -, s'', heq, -⟩ |
        ⟨hready, s'', q', heq, hinv, hstored, hq, hout⟩
      · cases heq.symm.trans hawait
      · cases heq.symm.trans hawait
      · obtain ⟨rfl, rfl⟩ := Outcome.suspends.inj (heq.symm.trans hawait)
        have hself : s''.stored .recv = some h := by rw [hstored, Function.update_self]
        refine ⟨by simp [clientObject, takes, hready], hinv, hout, hself, fun i hi => ?_,
          fun i => ?_⟩
        · obtain rfl := hq i hi
          exact ⟨rfl, hself⟩
        · rcases eq_or_ne i .recv with rfl | hne
          · exact .inr ⟨rfl, hself⟩
          · exact .inl ((congrFun hstored i).trans (Function.update_of_ne hne ..))
    | asyncClose =>
      obtain ⟨rfl, rfl⟩ := Outcome.suspends.inj hawait
      exact closeAwaitSuspend_starts.suspends hs rfl rfl
    | asyncCancel =>
      obtain ⟨rfl, rfl⟩ := Outcome.suspends.inj hawait
      exact cancelAwaitSuspend_starts.suspends hs rfl rfl
    | asyncShutdown how =>
      obtain ⟨rfl, rfl⟩ := Outcome.suspends.inj hawait
      exact shutdownAwaitSuspend_starts.suspends hs rfl rfl
  process := by
    intro s n f c s' found hs hpos hposts hprocess
    obtain ⟨⟨s'', found', slot, q⟩, hp, heq⟩ := Option.map_eq_some_iff.mp hprocess
    obtain ⟨rfl, rfl⟩ := Prod.mk.inj heq
    obtain ⟨hfound, hstored⟩ := processCqe_stored hposts hp
    exact ⟨processCqe_recvInv hs hpos hposts hp, hfound, hstored⟩
  resume hs hk := ⟨hs.awaitResume _, stored_awaitResume hk⟩
  other := by
    intro s n b s' hs hother
    cases b with
    | timeout cqe now =>
      simp only [clientObject, StreamImpl.other, Option.ite_none_right_eq_some, Option.some.injEq]
        at hother
      obtain ⟨hposts, rfl⟩ := hother
      obtain ⟨hrecv, -, hframe⟩ := s.timeoutAwaitProcessCqe_keeps (Life.posts_timeout hposts) now
      refine ⟨hs.of_recv rfl hrecv, fun i => ?_⟩
      cases i <;> simp [clientObject, stored, hrecv, hframe]
    | timeoutCancel res =>
      obtain rfl := Option.some.inj hother
      exact ⟨hs.of_recv rfl rfl, fun i => by cases i <;> rfl⟩
    | setTimeout ts =>
      obtain rfl := Option.some.inj hother
      exact ⟨hs.of_recv rfl rfl, fun i => by cases i <;> rfl⟩
    | setBufferGroup g =>
      obtain ⟨rf, hrf, rfl⟩ := Option.map_eq_some_iff.mp hother
      unfold RecvFrame.setBufferGroup at hrf
      split_ifs at hrf with hinit
      obtain rfl := Option.some.inj hrf
      exact ⟨hs, fun i => by cases i <;> rfl⟩

/-! ### No coroutine is lost -/

/-- **Every suspended coroutine is resumed exactly once, exactly as long as none is disturbed**,
on a stream or client, on an acceptor and on a file. -/
theorem coroutines_kept (fd : Int) (now off : Nat) :
    (∀ ops, Along clientObject.step (Kept clientObject) (.init (StreamImpl.new fd now) .init) ops ↔
      StepsMeet clientObject.step (Undisturbed clientObject)
      (.init (StreamImpl.new fd now) .init) ops) ∧
    (∀ ops, Along acceptorObject.step (Kept acceptorObject) (.init (AcceptorImpl.new off) ()) ops ↔
      StepsMeet acceptorObject.step (Undisturbed acceptorObject)
      (.init (AcceptorImpl.new off) ()) ops) ∧
    ∀ ops, Along fileObject.step (Kept fileObject) (.init FileImpl.new .init) ops ↔
      StepsMeet fileObject.step (Undisturbed fileObject) (.init FileImpl.new .init) ops := by
  have hnew : (StreamImpl.new fd now).RecvInv fun _ => 0 := ⟨rfl, fun _ => rfl⟩
  refine ⟨fun ops => ?_, fun ops => ?_, fun ops => ?_⟩
  · exact kept_iff clientObject_parks (Parked.init hnew)
  · exact kept_iff acceptorObject_plain.parks (Parked.init trivial)
  · exact kept_iff fileObject_plain.parks (Parked.init trivial)

/-- Two coroutines cancel one stream, and the first is forgotten. -/
theorem coroutines_kept_fails :
    ¬∀ ops t, run clientObject.step (.init (StreamImpl.new 0 0) .init) ops = some t →
    Kept clientObject t := by
  intro hall
  have hkept := hall [.create 0 .asyncCancel, .create 1 .asyncCancel, .await 0 1 (none, 0),
    .await 1 2 (none, 0)] _ rfl
  have hheld := hkept.held ⟨1, 0, .op .cancel⟩ (List.mem_cons_of_mem _ List.mem_cons_self)
  rcases hheld with hwoken | ⟨hstored, -⟩
  · exact absurd hwoken List.not_mem_nil
  · exact absurd hstored (by decide)

end Fiona
