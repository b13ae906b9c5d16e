import Fiona.Lib.Flags
import Fiona.Stream.Life

/-!
# What the counter of a stream counts

Every reference belongs to a handle, to an awaitable or to a request of the kernel, and
`Fiona.Life.Counted` says so: it holds in every state of every history, whatever the
callers do. The timer and the multishot receive are the two requests that renew
themselves, and each of them is in flight exactly while its frame says so.

What a call changes is said once for each call: a call that starts an operation is
`Fiona.StreamImpl.Starts`, one that starts none but operations `Fiona.StreamImpl.Calls`,
and a completion `Fiona.StreamImpl.Completes`.
-/

namespace Fiona

namespace StreamImpl

variable {s : StreamImpl} {h : Coro} {o : Op}

/-! ### Flags -/

theorem isActive_setFrame (o : Op) (f : OpFrame) :
    (s.setFrame o f).isActive = Function.update s.isActive (.op o) f.isActive := by
  funext g
  rcases eq_or_ne g (.op o) with rfl | hne
  · simp [isActive, setFrame]
  · rw [Function.update_of_ne hne]
    cases g with
    | op o' =>
      simp [isActive, setFrame, Function.update_of_ne (fun heq : o' = o => hne (by rw [heq]))]
    | _ => rfl

theorem isActive_recv (rf : RecvFrame) :
    ({ s with recv := rf } : StreamImpl).isActive =
      Function.update s.isActive .recv rf.initiated := by
  funext g
  cases g <;> rfl

theorem isActive_timeout (t : TimeoutFrame) :
    ({ s with timeout := t } : StreamImpl).isActive =
      Function.update s.isActive .timeout t.initiated := by
  funext g
  cases g <;> rfl

theorem isActive_timeoutCancel (t : TimeoutCancelFrame) :
    ({ s with timeoutCancel := t } : StreamImpl).isActive =
      Function.update s.isActive .timeoutCancel t.initiated := by
  funext g
  cases g <;> rfl

/-! ### Calls -/

/-- A call that starts nothing but operations: each request queued has its reference, and
the timer and the receive run on. -/
structure Calls (s : StreamImpl) (r : StreamImpl × List Sqe) : Prop where
  count : r.1.count = s.count + (requests r.2).length
  timer : r.1.timeout.initiated = s.timeout.initiated
  recv : r.1.recv = s.recv
  ops : ∀ f ∈ requests r.2, ∃ o, f = .op o

/-- A call that starts the operation `o`. -/
structure Starts (s : StreamImpl) (o : Op) (h : Coro) (r : StreamImpl × List Sqe) : Prop where
  frame : r.1.frame = Function.update s.frame o ((s.frame o).start h)
  count : r.1.count = s.count + 1
  timer : r.1.timeout.initiated = s.timeout.initiated
  timerCancel : r.1.timeoutCancel = s.timeoutCancel
  recv : r.1.recv = s.recv
  requests : requests r.2 = [.op o]

theorem Starts.calls {r : StreamImpl × List Sqe} (hr : s.Starts o h r) : s.Calls r :=
  ⟨by rw [hr.count, hr.requests]; rfl, hr.timer, hr.recv, by simp [hr.requests]⟩

/-- The flag goes up, unless a completion was processed and never taken note of. -/
theorem Starts.isActive {r : StreamImpl × List Sqe} (hr : s.Starts o h r) :
    r.1.isActive = Function.update s.isActive (.op o) !(s.frame o).done := by
  funext g
  cases g with
  | op o' =>
    rcases eq_or_ne o' o with rfl | hne
    · simp [StreamImpl.isActive, hr.frame, OpFrame.start, OpFrame.isActive]
    · rw [Function.update_of_ne (by simp [hne])]
      simp [StreamImpl.isActive, hr.frame, hne]
  | recv => simp [StreamImpl.isActive, hr.recv]
  | timeout => simp [StreamImpl.isActive, hr.timer]
  | timeoutCancel => simp [StreamImpl.isActive, hr.timerCancel]

theorem calls_nil : s.Calls (s, []) := ⟨by simp, rfl, rfl, by simp⟩

/-- The removal of the timer is queued, if there is a timer. -/
theorem queueTimerCancel_calls : s.Calls s.queueTimerCancel := by
  unfold queueTimerCancel
  split_ifs with hinit
  · exact ⟨by simp, rfl, rfl, by simp⟩
  · exact calls_nil

theorem cancelRecv_requests : requests s.cancelRecv = [] := by
  unfold cancelRecv
  split_ifs <;> rfl

theorem setTimeout_calls (ts : Nat) : s.Calls (s.setTimeout ts) :=
  ⟨by simp [setTimeout], rfl, rfl, by simp [setTimeout]⟩

theorem handleDestructor_calls (client : Bool) : s.Calls (s.handleDestructor client) := by
  have hcancel := s.queueTimerCancel_calls
  unfold handleDestructor
  split_ifs with hlast
  · exact ⟨by simp [hcancel.count, cancelRecv_requests], hcancel.timer, hcancel.recv,
      by simpa [cancelRecv_requests] using hcancel.ops⟩
  · exact calls_nil

theorem awaitableDestructor_requests (f : FrameId) : requests (s.awaitableDestructor f) = [] := by
  unfold awaitableDestructor sendAwaitableDestructor connectAwaitableDestructor
  split <;> first | rfl | (split_ifs <;> rfl)

theorem cancelAwaitSuspend_starts : s.Starts .cancel h (s.cancelAwaitSuspend h) :=
  ⟨rfl, rfl, rfl, rfl, rfl, rfl⟩

theorem shutdownAwaitSuspend_starts : s.Starts .shutdown h (s.shutdownAwaitSuspend h) :=
  ⟨rfl, rfl, rfl, rfl, rfl, rfl⟩

theorem closeAwaitSuspend_starts : s.Starts .close h (s.closeAwaitSuspend h) := by
  unfold closeAwaitSuspend queueTimerCancel
  dsimp only
  split_ifs with hinit
  · exact ⟨rfl, rfl, rfl, rfl, rfl, rfl⟩
  · exact ⟨rfl, rfl, rfl, rfl, rfl, rfl⟩

theorem sendAwaitSuspend_starts {now : Nat} {r : StreamImpl × List Sqe}
    (hr : s.sendAwaitSuspend h now = some r) :
    (s.frame .send).initiated = false ∧ s.Starts .send h r := by
  unfold sendAwaitSuspend at hr
  split_ifs at hr with hbusy
  obtain rfl := Option.some.inj hr
  exact ⟨by simpa using hbusy, rfl, rfl, rfl, rfl, rfl, rfl⟩

/-- A socket is asked for, unless the client is connected. -/
theorem connectSocket_starts (slot : Option Nat) :
    s.connectSocket slot h = (s, []) ∨ s.Starts .socket h (s.connectSocket slot h) := by
  unfold connectSocket
  split_ifs with hconn
  · exact .inl rfl
  · exact .inr ⟨rfl, rfl, rfl, rfl, rfl, rfl⟩

/-- The connect is queued behind the socket. -/
theorem connectAwaitSuspend_starts (slot : Option Nat) :
    ∃ r, s.connectAwaitSuspend slot h = (r.1, (s.connectSocket slot h).2 ++ r.2) ∧
      (s.connectSocket slot h).1.Starts .connect h r :=
  ⟨(_, [.request (.op .connect) (s.connectSocket slot h).1.fd, .linkTimeout]), rfl,
    rfl, rfl, rfl, rfl, rfl, rfl⟩

theorem connectAwaitSuspend_calls (slot : Option Nat) : s.Calls (s.connectAwaitSuspend slot h) := by
  have hsocket : s.Calls (s.connectSocket slot h) := by
    rcases s.connectSocket_starts (h := h) slot with heq | hstarts
    · exact heq ▸ calls_nil
    · exact hstarts.calls
  obtain ⟨r, heq, hconnect⟩ := s.connectAwaitSuspend_starts (h := h) slot
  have hcalls := hconnect.calls
  refine heq ▸ ⟨?_, hcalls.timer.trans hsocket.timer, hcalls.recv.trans hsocket.recv,
    fun f hf => ?_⟩
  · rw [hcalls.count, hsocket.count, requests_append, List.length_append]
    omega
  · rw [requests_append, List.mem_append] at hf
    exact hf.elim (hsocket.ops f) (hcalls.ops f)

/-- What `recv_awaitable::await_suspend` leaves of the frame, and whether it arms a receive. -/
theorem recvAwaitSuspend_cases (h : Coro) (now : Nat) :
    (∃ w rf, s.recvAwaitSuspend h now = (w, { s with recv := rf }, []) ∧ (∀ g, w ≠ .arm g) ∧
        rf.initiated = s.recv.initiated ∧ rf.ec = s.recv.ec) ∨
      ∃ g rf fd, s.recvAwaitSuspend h now =
          (.arm g, { s with recv := rf }.addRef, [.request .recv fd]) ∧
        s.recv.initiated = false ∧ rf.initiated = true ∧ rf.ec = none := by
  unfold recvAwaitSuspend RecvFrame.awaitSuspend
  cases hec : s.recv.ec with
  | some e => exact .inl ⟨.resume, _, rfl, by simp, rfl, rfl⟩
  | none =>
    cases hinit : s.recv.initiated with
    | true => exact .inl ⟨.wait, _, rfl, by simp, rfl, rfl⟩
    | false =>
      cases hg : s.recv.bufferGroupId with
      | none => exact .inl ⟨.throw Errno.EINVAL, _, rfl, by simp, rfl, rfl⟩
      | some g => exact .inr ⟨g, _, s.fd, rfl, rfl, rfl, rfl⟩

/-- What `await_resume` leaves: no reference comes or goes, and timer and receive run on. -/
theorem awaitResume_keeps (f : FrameId) :
    (s.awaitResume f).count = s.count ∧ (s.awaitResume f).fd = s.fd ∧
      (s.awaitResume f).timeout = s.timeout ∧ (s.awaitResume f).timeoutCancel = s.timeoutCancel ∧
      (s.awaitResume f).recv.initiated = s.recv.initiated ∧
      (s.recv.ec = none → (s.awaitResume f).recv.ec = none) := by
  cases f with
  | op o =>
    cases o <;> try exact ⟨rfl, rfl, rfl, rfl, rfl, id⟩
    unfold awaitResume connectAwaitResume
    dsimp only
    split_ifs <;> exact ⟨rfl, rfl, rfl, rfl, rfl, id⟩
  | recv =>
    unfold awaitResume recvAwaitResume RecvFrame.awaitResume
    split_ifs with hempty
    · cases hec : s.recv.ec <;> simp [hec]
    · simp
  | _ => exact ⟨rfl, rfl, rfl, rfl, rfl, id⟩

/-! ### Completions -/

/-- No error is kept in a frame whose receive goes on. -/
def Clear (s : StreamImpl) : Prop := s.recv.initiated = true → s.recv.ec = none

/-- A completion of a request that is not the timer: its flag is up if the request goes on,
which then has a new reference, and the slot of the descriptor is kept or given back. -/
structure Completes (s : StreamImpl) (f : FrameId) (more : Bool) (s' : StreamImpl)
    (slot : Option Int) : Prop where
  count : s'.count = s.count + more.toNat
  isActive : s'.isActive = Function.update s.isActive f more
  frame : ∀ o, (s'.frame o).initiated = (s.frame o).initiated ∧
    (f = .op o ∨ (s'.frame o).done = (s.frame o).done)
  timeout : s'.timeout = s.timeout
  clear : s.Clear → (f = .recv → s.recv.initiated = true) → s'.Clear
  slot : slot = none ∧ s'.fd = s.fd ∨ slot = some s.fd ∧ s'.fd = -1

theorem opAwaitProcessCqe_completes (o : Op) (res : Int) :
    s.Completes (.op o) false (s.opAwaitProcessCqe o res).1 (s.opAwaitProcessCqe o res).2 := by
  have hflag : ∀ f : OpFrame, f.done = true →
      (s.setFrame o f).isActive = Function.update s.isActive (.op o) false := by
    intro f hf
    rw [isActive_setFrame]
    simp [OpFrame.isActive, hf]
  have hframe : ∀ f : OpFrame, f.initiated = (s.frame o).initiated → ∀ o',
      ((s.setFrame o f).frame o').initiated = (s.frame o').initiated ∧
        (FrameId.op o = .op o' ∨ ((s.setFrame o f).frame o').done = (s.frame o').done) := by
    intro f hf o'
    rcases eq_or_ne o' o with rfl | hne
    · exact ⟨by simpa [setFrame] using hf, .inl rfl⟩
    · simp [setFrame, hne]
  cases o with
  | cancel => exact ⟨by simp [opAwaitProcessCqe, cancelAwaitProcessCqe], hflag _ rfl, hframe _ rfl,
      rfl, fun hc _ => hc, .inl ⟨rfl, rfl⟩⟩
  | shutdown => exact ⟨by simp [opAwaitProcessCqe, shutdownAwaitProcessCqe], hflag _ rfl,
      hframe _ rfl, rfl, fun hc _ => hc, .inl ⟨rfl, rfl⟩⟩
  | close => exact ⟨by simp [opAwaitProcessCqe, closeAwaitProcessCqe], hflag _ rfl, hframe _ rfl,
      rfl, fun hc _ => hc, .inr ⟨rfl, rfl⟩⟩
  | send =>
    unfold opAwaitProcessCqe sendAwaitProcessCqe
    dsimp only
    split_ifs <;> exact ⟨by simp, hflag _ rfl, hframe _ rfl, rfl, fun hc _ => hc, .inl ⟨rfl, rfl⟩⟩
  | socket =>
    unfold opAwaitProcessCqe socketAwaitProcessCqe
    dsimp only
    split_ifs
    · exact ⟨by simp, hflag _ rfl, hframe _ rfl, rfl, fun hc _ => hc, .inr ⟨rfl, rfl⟩⟩
    · exact ⟨by simp, hflag _ rfl, hframe _ rfl, rfl, fun hc _ => hc, .inl ⟨rfl, rfl⟩⟩
  | connect =>
    unfold opAwaitProcessCqe connectAwaitProcessCqe
    dsimp only
    split_ifs <;> exact ⟨by simp, hflag _ rfl, hframe _ rfl, rfl, fun hc _ => hc, .inl ⟨rfl, rfl⟩⟩

/-- Taking the handle out of a frame changes nothing else. -/
theorem opHandle_keeps (o : Op) :
    (s.opHandle o).2.isActive = s.isActive ∧ (s.opHandle o).2.count = s.count ∧
      (s.opHandle o).2.timeout = s.timeout ∧ (s.opHandle o).2.recv = s.recv ∧
      (s.opHandle o).2.fd = s.fd ∧
      ∀ o', ((s.opHandle o).2.frame o').initiated = (s.frame o').initiated ∧
        ((s.opHandle o).2.frame o').done = (s.frame o').done := by
  unfold opHandle
  split_ifs with hsocket
  · exact ⟨rfl, rfl, rfl, rfl, rfl, fun o' => ⟨rfl, rfl⟩⟩
  · refine ⟨?_, rfl, rfl, rfl, rfl, fun o' => ?_⟩
    · exact (isActive_setFrame ..).trans (Function.update_eq_self ..)
    · rcases eq_or_ne o' o with rfl | hne
      · simp [setFrame, OpFrame.exchange]
      · simp [setFrame, hne]

theorem recvAwaitProcessCqe_completes {cqe : Cqe} {now p : Nat} {buf : RecvBuffer} {s' : StreamImpl}
    (hposts : cqe.more = true → 0 < cqe.res)
    (hs' : s.recvAwaitProcessCqe cqe now p buf = some s') :
    s.Completes .recv cqe.more s' none := by
  simp only [recvAwaitProcessCqe, Option.bind_eq_bind, Option.bind_eq_some_iff] at hs'
  obtain ⟨rf, hrf, heq⟩ := hs'
  have hinit : rf.initiated = cqe.more := by
    unfold RecvFrame.awaitProcessCqe at hrf
    split_ifs at hrf <;> obtain rfl := Option.some.inj hrf <;> rfl
  have hclear : s.recv.ec = none → rf.initiated = true → rf.ec = none := by
    intro hec hgo
    have hres : 0 < cqe.res := hposts (hinit.symm.trans hgo)
    unfold RecvFrame.awaitProcessCqe at hrf
    rw [if_neg (by omega), if_neg (by omega)] at hrf
    obtain rfl := Option.some.inj hrf
    exact hec
  obtain rfl := Option.some.inj heq
  refine ⟨?_, ?_, ?_, ?_, fun hc hactive => ?_, ?_⟩
  · cases cqe.more <;> simp [addRef]
  · rw [← hinit, ← isActive_recv]
    cases rf.initiated <;> rfl
  · cases cqe.more <;> exact fun o => ⟨rfl, .inr rfl⟩
  · cases cqe.more <;> rfl
  · cases hmore : cqe.more <;> simpa [Clear, hmore] using hclear (hc (hactive rfl))
  · cases cqe.more <;> exact .inl ⟨rfl, rfl⟩

theorem timeoutCancelAwaitProcessCqe_completes (res : Int) :
    s.Completes .timeoutCancel false (s.timeoutCancelAwaitProcessCqe res) none :=
  ⟨by simp [timeoutCancelAwaitProcessCqe], isActive_timeoutCancel _,
    fun _ => ⟨rfl, .inr rfl⟩, rfl, fun hc _ => hc, .inl ⟨rfl, rfl⟩⟩

/-! ### The timer -/

/-- A tick cancels at most once. -/
theorem tickCancel_cases (now : Nat) :
    s.tickCancel now = (s, []) ∨
      s.shouldCancel now = true ∧ requests (s.tickCancel now).2 = [.timeoutCancel] ∧
        (s.tickCancel now).1.count = s.count + 1 ∧
        (s.tickCancel now).1.isActive = Function.update s.isActive .timeoutCancel true := by
  unfold tickCancel
  split_ifs with hidle
  · exact .inr ⟨hidle, rfl, rfl, isActive_timeoutCancel (s := s) _⟩
  · exact .inl rfl

theorem armTimer_isActive : s.armTimer.1.isActive = Function.update s.isActive .timeout true :=
  isActive_timeout (s := s) _

@[simp] theorem armTimer_requests : requests s.armTimer.2 = [.timeout] := rfl

theorem tickCancel_keeps (now : Nat) :
    (s.tickCancel now).1.recv = s.recv ∧ (s.tickCancel now).1.fd = s.fd ∧
      (s.tickCancel now).1.frame = s.frame ∧ (s.tickCancel now).1.timeout = s.timeout := by
  unfold tickCancel
  split_ifs <;> exact ⟨rfl, rfl, rfl, rfl⟩

theorem not_isTick_of_canceled {cqe : Cqe} (hres : cqe.res = -Errno.ECANCELED) :
    isTick cqe = false := by
  rw [isTick, hres]
  decide

theorem timeoutAwaitProcessCqe_tick {cqe : Cqe} (htick : isTick cqe = true) (now : Nat) :
    s.timeoutAwaitProcessCqe cqe now = s.tick cqe now := by
  have hres : cqe.res ≠ -Errno.ECANCELED := fun hres => by
    simp [not_isTick_of_canceled hres] at htick
  simp [timeoutAwaitProcessCqe, hres, htick]

/-- The three ways on from a completion of the timer: it is over, it is armed anew because it was
removed for its period to change, or it has ticked. -/
theorem timeoutAwaitProcessCqe_cases {cqe : Cqe} (hposts : cqe.more = true → isTick cqe = true)
    (now : Nat) :
    (∃ t : TimeoutFrame, s.timeoutAwaitProcessCqe cqe now = ({ s with timeout := t }, []) ∧
        t.initiated = false ∧ cqe.more = false) ∨
      (s.timeoutAwaitProcessCqe cqe now = (s.armTimer.1.addRef, s.armTimer.2) ∧
        s.timeout.cancelled = false ∧ cqe.more = false) ∨
      (s.timeoutAwaitProcessCqe cqe now = s.tick cqe now ∧ isTick cqe = true) := by
  cases htick : isTick cqe with
  | true => exact .inr (.inr ⟨timeoutAwaitProcessCqe_tick htick now, rfl⟩)
  | false =>
    have hmore : cqe.more = false := by
      by_contra hmore
      simp [hposts (by simpa using hmore)] at htick
    unfold timeoutAwaitProcessCqe
    by_cases hclosing : cqe.res = -Errno.ECANCELED ∧ s.timeout.cancelled
    · rw [if_pos hclosing]
      exact .inl ⟨_, rfl, rfl, hmore⟩
    rw [if_neg hclosing]
    by_cases hadjusted : cqe.res = -Errno.ECANCELED
    · rw [if_pos hadjusted]
      exact .inr (.inl ⟨rfl, by simpa [hadjusted] using hclosing, hmore⟩)
    · rw [if_neg hadjusted]
      exact .inl ⟨_, if_pos (by simp [htick]), rfl, hmore⟩

theorem timeoutAwaitProcessCqe_count {cqe : Cqe} (hposts : cqe.more = true → isTick cqe = true)
    (now : Nat) :
    (s.timeoutAwaitProcessCqe cqe now).1.count =
      s.count + (requests (s.timeoutAwaitProcessCqe cqe now).2).length + cqe.more.toNat := by
  rcases s.timeoutAwaitProcessCqe_cases hposts now with ⟨t, heq, -, hmore⟩ | ⟨heq, -,
    hmore⟩ | ⟨heq, -⟩
  · simp [heq, hmore]
  · simp [heq, hmore, armTimer]
  · rw [heq, tick]
    rcases s.tickCancel_cases now with hnone | ⟨-, hreq, hcount, -⟩
    · cases hmore : cqe.more <;> simp [hnone, armTimer]
    · cases hmore : cqe.more
      · simp [hreq, hcount, armTimer, Int.add_assoc]
      · simp [hreq, hcount]

theorem timeoutAwaitProcessCqe_keeps {cqe : Cqe} (hposts : cqe.more = true → isTick cqe = true)
    (now : Nat) :
    (s.timeoutAwaitProcessCqe cqe now).1.recv = s.recv ∧
      (s.timeoutAwaitProcessCqe cqe now).1.fd = s.fd ∧
      (s.timeoutAwaitProcessCqe cqe now).1.frame = s.frame := by
  rcases s.timeoutAwaitProcessCqe_cases hposts now with ⟨t, heq, -⟩ | ⟨heq, -⟩ | ⟨heq, -⟩
  · exact heq ▸ ⟨rfl, rfl, rfl⟩
  · exact heq ▸ ⟨rfl, rfl, rfl⟩
  · rw [heq, tick]
    obtain ⟨hrecv, hfd, hframe, -⟩ := s.tickCancel_keeps now
    cases cqe.more <;> exact ⟨hrecv, hfd, hframe⟩

/-- A completion of the timer that issues a cancel of its own. -/
def tickCancels (s : StreamImpl) (cqe : Cqe) (now : Nat) : Bool := isTick cqe && s.shouldCancel now

/-- **The flags stay right over a completion of the timer**, which may have been the last
and may queue a cancel – if that is looked at, then only one at a time. -/
theorem timeoutAwaitProcessCqe_synced {K : Set FrameId} {out : List FrameId} {cqe : Cqe} (now : Nat)
    (hs : Flags.Synced K s.isActive out) (hK : .timeout ∈ K) (hin : .timeout ∈ out)
    (hposts : cqe.more = true → isTick cqe = true)
    (hfree : .timeoutCancel ∈ K → s.tickCancels cqe now = true →
      s.timeoutCancel.initiated = false) :
    Flags.Synced K (s.timeoutAwaitProcessCqe cqe now).1.isActive
      ((if cqe.more then out else out.erase .timeout) ++
        requests (s.timeoutAwaitProcessCqe cqe now).2) := by
  have hup : s.isActive .timeout = true := (hs.mem_iff hK).mp hin
  have hlower := hs.lower (i := .timeout)
  rcases s.timeoutAwaitProcessCqe_cases hposts now with
    ⟨t, heq, hdown, hmore⟩ | ⟨heq, -, hmore⟩ | ⟨heq, htick⟩
  · rw [heq, isActive_timeout, hdown, hmore]
    simpa using hlower
  · rw [heq, hmore, addRef_isActive, armTimer_isActive]
    simpa using hlower.raise (i := .timeout) (by simp)
  · -- the cancel is queued first, and the timer after it
    have hcancel : ∀ {out : List FrameId} {p : FrameId → Bool}, Flags.Synced K p out →
        p .timeoutCancel = s.timeoutCancel.initiated → (s.tickCancel now = (s, []) ∨
          (s.tickCancel now).1.isActive = Function.update s.isActive .timeoutCancel true ∧
          Flags.Synced K (Function.update p .timeoutCancel true)
            (out ++ requests (s.tickCancel now).2)) := by
      intro out p hp hsame
      rcases s.tickCancel_cases now with hnone | ⟨hidle, hreq, -, hflag⟩
      · exact .inl hnone
      · rw [hreq]
        exact .inr ⟨hflag, hp.raise fun hmem =>
          hsame.trans (hfree hmem (by simp [tickCancels, htick, hidle]))⟩
    rw [heq, tick]
    cases hmore : cqe.more with
    | true =>
      rcases hcancel hs rfl with hnone | ⟨hflag, hsync⟩
      · simpa [hnone] using hs
      · simpa [hflag] using hsync
    | false =>
      rcases hcancel hlower (by simp; rfl) with hnone | ⟨hflag, hsync⟩
      · simpa [hnone, armTimer_isActive] using hlower.raise (i := .timeout) (by simp)
      · have hraise := hsync.raise (i := .timeout) (by simp)
        rw [Function.update_comm (by simp), Function.update_idem, Function.update_comm (by simp)]
          at hraise
        simpa [armTimer_isActive, hflag] using hraise

/-! ### The end of a reference -/

theorem release_keeps :
    s.release.1.count = s.count - 1 ∧ s.release.1.isActive = s.isActive ∧
      s.release.1.recv = s.recv ∧ s.release.1.frame = s.frame ∧
      s.release.1.timeout = s.timeout := by
  unfold release destructor
  dsimp only
  split_ifs <;> exact ⟨rfl, rfl, rfl, rfl, rfl⟩

end StreamImpl

namespace Life

variable {l l' : Life} {n : Nat} {h : Coro} {f : FrameId}

/-- The requests that renew themselves. -/
def renewing : Set FrameId := {.timeout, .recv}

theorem op_notMem_renewing (o : Op) : .op o ∉ renewing := by simp [renewing]

/-- What holds of every object that is there, when `n` references are about to go. -/
structure Counted (n : Nat) (l : Life) : Prop where
  count : l.impl.count = l.users + l.inFlight.length + n
  flags : Flags.Synced renewing l.impl.isActive l.inFlight
  clear : l.impl.Clear
  held : ∀ f, (l.suspended.map Prod.snd).count f ≤ l.awaitables.count f

theorem counted_new (client : Bool) (fd : Int) (now : Nat) : Counted 0 (new client fd now) := by
  refine ⟨by simp [new, StreamImpl.new, users], ?_, fun _ => rfl, fun f => ?_⟩
  · rintro i (rfl | rfl) <;> rfl
  · simp [new]

/-! ### Effects that are shared -/

/-- A reference goes. -/
theorem Counted.release (hl : Counted (n + 1) l) : Counted n l.release := by
  obtain ⟨hcount, hflags, hrecv, -⟩ := l.impl.release_keeps
  refine ⟨?_, ?_, ?_, hl.held⟩
  · have := hl.count
    simp only [Life.release, hcount, users] at this ⊢
    omega
  · simpa only [Life.release, hflags] using hl.flags
  · simpa only [Life.release, StreamImpl.Clear, hrecv] using hl.clear

/-- A call that starts nothing but operations. -/
theorem Counted.update {r : StreamImpl × List Sqe} (hl : Counted n l) (hr : l.impl.Calls r) :
    Counted n (l.update r) := by
  refine ⟨?_, ?_, ?_, hl.held⟩
  · have := hl.count
    simp only [Life.update, queue, users, hr.count, List.length_append] at this ⊢
    omega
  · refine hl.flags.append ?_ ?_
    · rintro i (rfl | rfl)
      · exact hr.timer
      · exact congrArg RecvFrame.isActive hr.recv
    · intro i hi hmem
      obtain ⟨o, rfl⟩ := hr.ops i hmem
      exact op_notMem_renewing o hi
  · simpa only [StreamImpl.Clear, Life.update, queue, hr.recv] using hl.clear

/-- `await_resume`. -/
theorem Counted.awaitResume (hl : Counted n l) (f : FrameId) :
    Counted n { l with impl := l.impl.awaitResume f } := by
  obtain ⟨hcount, -, htimer, -, hinit, hec⟩ := l.impl.awaitResume_keeps f
  refine ⟨hcount.trans hl.count, ?_, fun hgo => hec (hl.clear (hinit.symm.trans hgo)), hl.held⟩
  rintro i (rfl | rfl)
  · exact (hl.flags _ (.inl rfl)).trans
      (congrArg Bool.toNat (congrArg TimeoutFrame.initiated htimer.symm))
  · exact (hl.flags _ (.inr rfl)).trans (congrArg Bool.toNat hinit.symm)

/-- A handle goes, and its reference with it. -/
theorem Counted.dropHandle (hl : Counted n l) (hpos : 0 < l.handles) :
    Counted (n + 1) { l with handles := l.handles - 1 } := by
  refine ⟨?_, hl.flags, hl.clear, hl.held⟩
  have := hl.count
  simp only [users] at this ⊢
  omega

/-- An awaitable goes in which no coroutine is suspended, and its reference with it. -/
theorem Counted.dropAwaitable (hl : Counted n l)
    (hfree : (l.suspended.map Prod.snd).count f < l.awaitables.count f) :
    Counted (n + 1)
      ({ l with awaitables := l.awaitables.erase f }.queue (l.impl.awaitableDestructor f)) := by
  have hmem : f ∈ l.awaitables := List.count_pos_iff.mp (by omega)
  have hreq := l.impl.awaitableDestructor_requests f
  refine ⟨?_, ?_, hl.clear, fun g => ?_⟩
  · have := hl.count
    have := List.length_erase_of_mem hmem
    have := List.length_pos_of_mem hmem
    simp only [queue, users, hreq, List.append_nil] at *
    omega
  · simpa only [queue, hreq, List.append_nil] using hl.flags
  · have hg := hl.held g
    rcases eq_or_ne g f with rfl | hne
    · simp only [queue, List.count_erase_self]
      omega
    · simpa only [queue, List.count_erase_of_ne hne] using hg

/-- A coroutine may suspend in an awaitable in which nobody is suspended. -/
theorem Counted.wait (hl : Counted n l)
    (hfree : (l.suspended.map Prod.snd).count f < l.awaitables.count f) :
    Counted n { l with suspended := (h, f) :: l.suspended } := by
  refine ⟨hl.count, hl.flags, hl.clear, fun g => ?_⟩
  have hg := hl.held g
  rcases eq_or_ne g f with rfl | hne
  · simpa using Nat.succ_le_of_lt hfree
  · simpa [hne.symm] using hg

/-! ### Awaiting -/

theorem Counted.awaitConnect (hl : Counted 0 l) (slot : Option Nat)
    (hfree : (l.suspended.map Prod.snd).count (.op .connect) < l.awaitables.count (.op .connect)) :
    Counted 0 (l.awaitConnect h slot) := by
  unfold Life.awaitConnect
  split_ifs with hbusy hrefused
  · exact hl
  · have hrefuse : Counted 0 { l with impl := l.impl.connectRefuse } := by
      refine ⟨hl.count, ?_, hl.clear, hl.held⟩
      rintro i (rfl | rfl)
      · exact hl.flags _ (.inl rfl)
      · exact hl.flags _ (.inr rfl)
    exact hrefuse.awaitResume _
  · exact (hl.wait hfree).update (l.impl.connectAwaitSuspend_calls slot)

theorem Counted.awaitRecv (hl : Counted 0 l) (now : Nat)
    (hfree : (l.suspended.map Prod.snd).count .recv < l.awaitables.count .recv) :
    Counted 0 (l.awaitRecv h now) := by
  unfold Life.awaitRecv
  split_ifs with hready
  · exact hl.awaitResume _
  rcases l.impl.recvAwaitSuspend_cases h now with
    ⟨w, rf, heq, hw, hinit, hec⟩ | ⟨g, rf, fd, heq, hidle, hinit, hec⟩
  · -- the flag of the receive is as it was
    have hrf : Counted 0 { l with impl := { l.impl with recv := rf } } := by
      refine ⟨hl.count, ?_, fun hgo => hec.trans (hl.clear (hinit.symm.trans hgo)), hl.held⟩
      rintro i (rfl | rfl)
      · exact hl.flags _ (.inl rfl)
      · exact (hl.flags _ (.inr rfl)).trans (congrArg Bool.toNat hinit.symm)
    rw [heq]
    cases w with
    | resume => exact hrf.awaitResume .recv
    | throw errno => exact hrf
    | wait => exact (hrf.wait hfree).update StreamImpl.calls_nil
    | arm g => exact absurd rfl (hw g)
  · -- a receive is armed
    rw [heq]
    have hwait : Counted 0 { l with suspended := (h, .recv) :: l.suspended } := hl.wait hfree
    refine ⟨?_, ?_, fun _ => hec, hwait.held⟩
    · have := hl.count
      simp only [suspend, Life.update, queue, users, StreamImpl.addRef_count, requests_request,
        requests_nil, List.length_append, List.length_singleton] at this ⊢
      omega
    · simp only [suspend, Life.update, queue, StreamImpl.addRef_isActive, StreamImpl.isActive_recv,
        hinit, requests_request, requests_nil]
      exact hl.flags.raise fun _ => hidle

/-- **Awaiting keeps the count**, whatever is awaited. -/
theorem Counted.await (hl : Counted 0 l) {slot : Option Nat} {now : Nat}
    (hfree : (l.suspended.map Prod.snd).count f < l.awaitables.count f)
    (hstep : l.await h slot now f = some l') : Counted 0 l' := by
  cases f with
  | op o =>
    cases o with
    | cancel =>
      obtain rfl := Option.some.inj hstep
      exact (hl.wait hfree).update l.impl.cancelAwaitSuspend_starts.calls
    | close =>
      obtain rfl := Option.some.inj hstep
      exact (hl.wait hfree).update l.impl.closeAwaitSuspend_starts.calls
    | shutdown =>
      obtain rfl := Option.some.inj hstep
      exact (hl.wait hfree).update l.impl.shutdownAwaitSuspend_starts.calls
    | send =>
      simp only [Life.await] at hstep
      split at hstep
      · obtain rfl := Option.some.inj hstep
        exact hl
      · rename_i r hr
        obtain rfl := Option.some.inj hstep
        exact (hl.wait hfree).update (StreamImpl.sendAwaitSuspend_starts hr).2.calls
    | socket => exact absurd hstep (by simp [Life.await])
    | connect =>
      obtain rfl := Option.some.inj hstep
      exact hl.awaitConnect slot hfree
  | recv =>
    obtain rfl := Option.some.inj hstep
    exact hl.awaitRecv now hfree
  | _ => exact absurd hstep (by simp [Life.await])

/-! ### Completions -/

section

variable {s s' : StreamImpl} {cqe : Cqe} {now p : Nat} {buf : RecvBuffer} {x : Option Coro}
  {slot : Option Int} {q : List Sqe}

theorem posts_timeout (hposts : posts .timeout cqe = true) :
    cqe.more = true → StreamImpl.isTick cqe = true := by
  intro hmore
  simpa [posts, hmore] using hposts

/-- What a completion does, apart from those of the timer. -/
theorem processCqe_completes (hf : f ≠ .timeout) (hposts : posts f cqe = true)
    (hp : processCqe s cqe now p buf f = some (s', x, slot, q)) :
    s.Completes f cqe.more s' slot ∧ q = [] := by
  cases f with
  | op o =>
    have hmore : cqe.more = false := by simpa [posts] using hposts
    have hdone := s.opAwaitProcessCqe_completes o cqe.res
    obtain ⟨hactive, hcount, htimeout, hrecv, hfd, hframe⟩ :=
      (s.opAwaitProcessCqe o cqe.res).1.opHandle_keeps o
    simp only [processCqe, Option.some.injEq, Prod.mk.injEq] at hp
    obtain ⟨rfl, -, rfl, rfl⟩ := hp
    refine ⟨⟨?_, ?_, fun o' => ?_, htimeout.trans hdone.timeout, fun hc ha => ?_, ?_⟩, rfl⟩
    · rw [hcount, hdone.count, hmore]
    · rw [hactive, hdone.isActive, hmore]
    · rw [(hframe o').1, (hframe o').2]
      exact hdone.frame o'
    · simpa only [StreamImpl.Clear, hrecv] using hdone.clear hc ha
    · simpa only [hfd] using hdone.slot
  | recv =>
    simp only [processCqe, Option.bind_eq_bind, Option.bind_eq_some_iff] at hp
    obtain ⟨s₁, hs₁, heq⟩ := hp
    obtain ⟨hcount, hactive, hframe, htimeout, hclear, hslot⟩ :=
      StreamImpl.recvAwaitProcessCqe_completes
      (fun hmore => by simpa [posts, hmore] using hposts) hs₁
    simp only [Option.some.injEq, Prod.mk.injEq] at heq
    obtain ⟨rfl, -, rfl, rfl⟩ := heq
    refine ⟨⟨hcount, ?_, hframe, htimeout, hclear, hslot⟩, rfl⟩
    rw [← hactive, StreamImpl.isActive_recv]
    exact Function.update_eq_self ..
  | timeout => exact absurd rfl hf
  | timeoutCancel =>
    have hmore : cqe.more = false := by simpa [posts] using hposts
    simp only [processCqe, Option.some.injEq, Prod.mk.injEq] at hp
    obtain ⟨rfl, -, rfl, rfl⟩ := hp
    exact ⟨hmore ▸ s.timeoutCancelAwaitProcessCqe_completes cqe.res, rfl⟩

/-- A completion keeps the descriptor, or gives it back. -/
theorem processCqe_slot (hposts : posts f cqe = true)
    (hp : processCqe s cqe now p buf f = some (s', x, slot, q)) :
    slot = none ∧ s'.fd = s.fd ∨ slot = some s.fd ∧ s'.fd = -1 := by
  by_cases hf : f = .timeout
  · subst hf
    obtain ⟨-, hfd, -⟩ := s.timeoutAwaitProcessCqe_keeps (posts_timeout hposts) now
    simp only [processCqe, Option.some.injEq, Prod.mk.injEq] at hp
    obtain ⟨rfl, -, rfl, -⟩ := hp
    exact .inl ⟨rfl, hfd⟩
  · exact (processCqe_completes hf hposts hp).1.slot

/-- The flags over a completion of a request that is not the timer. -/
theorem completes_synced {K : Set FrameId} (hl : Flags.Synced K l.impl.isActive l.inFlight)
    (hK : f ∈ K ∨ cqe.more = false) (hin : f ∈ l.inFlight)
    (hs' : l.impl.Completes f cqe.more s' slot) :
    Flags.Synced K s'.isActive (l.completed f cqe) := by
  rw [hs'.isActive, completed]
  cases hmore : cqe.more with
  | false => simpa using hl.lower (i := f)
  | true =>
    have hup : l.impl.isActive f = true := (hl.mem_iff (hK.resolve_right (by simp [hmore]))).mp hin
    have hsame : Function.update l.impl.isActive f true = l.impl.isActive := by
      rw [← hup, Function.update_eq_self]
    simpa [hsame] using hl

theorem length_completed (hin : f ∈ l.inFlight) :
    (l.completed f cqe).length + 1 = l.inFlight.length + cqe.more.toNat := by
  unfold completed
  have hpos : 0 < l.inFlight.length := List.length_pos_of_mem hin
  cases cqe.more with
  | true => simp
  | false =>
    simp only [Bool.false_eq_true, if_false, List.length_erase_of_mem hin, Bool.toNat_false]
    omega

/-- What a completion makes of the object, before its reference goes. -/
def processed (l : Life) (f : FrameId) (cqe : Cqe) (s' : StreamImpl) (x : Option Coro)
    (slot : Option Int) (q : List Sqe) : Life :=
  { l with
    inFlight := l.completed f cqe
    collected := l.collected ++ x.toList
    released := l.released ++ slot.toList }.update (s', q)

theorem Counted.process (hl : Counted 0 l) (hin : f ∈ l.inFlight) (hposts : posts f cqe = true)
    (hp : processCqe l.impl cqe now p buf f = some (s', x, slot, q)) :
    Counted 1 (l.processed f cqe s' x slot q) := by
  have hcount := hl.count
  have hlen : (l.completed f cqe).length + 1 = l.inFlight.length + cqe.more.toNat :=
    length_completed hin
  by_cases hf : f = .timeout
  · subst hf
    have htick := posts_timeout hposts
    obtain ⟨hrecv, -⟩ := l.impl.timeoutAwaitProcessCqe_keeps htick now
    have hnew := l.impl.timeoutAwaitProcessCqe_count htick now
    have hsync := StreamImpl.timeoutAwaitProcessCqe_synced now hl.flags (.inl rfl) hin htick
      (fun hmem => absurd hmem (by simp [renewing]))
    simp only [processCqe, Option.some.injEq, Prod.mk.injEq] at hp
    obtain ⟨rfl, -, -, rfl⟩ := hp
    refine ⟨?_, hsync, ?_, hl.held⟩
    · simp only [processed, Life.update, queue, users, hnew, List.length_append] at hcount ⊢
      omega
    · simpa only [processed, Life.update, queue, StreamImpl.Clear, hrecv] using hl.clear
  · obtain ⟨hs', rfl⟩ := processCqe_completes hf hposts hp
    have hK : f ∈ renewing ∨ cqe.more = false := by
      cases hmore : cqe.more with
      | false => exact .inr rfl
      | true =>
        simp only [posts, hmore, hf, Bool.not_true, decide_false, Bool.false_and, Bool.false_or,
          Bool.or_false, decide_eq_true_eq] at hposts
        exact .inl (.inr hposts.1)
    have hsync := completes_synced hl.flags hK hin hs'
    refine ⟨?_, ?_, ?_, hl.held⟩
    · simp only [processed, Life.update, queue, users, hs'.count, requests_nil, List.append_nil]
        at hcount ⊢
      omega
    · simpa only [processed, Life.update, queue, requests_nil, List.append_nil] using hsync
    · exact hs'.clear hl.clear fun heq => (hl.flags.mem_iff (.inr rfl)).mp (heq ▸ hin)

end

/-! ### Histories -/

/-- **What the counter counts, in every step.** -/
theorem Counted.step (hl : Counted 0 l) {op : LifeOp} (hstep : l.step op = some l') :
    Counted 0 l' := by
  unfold Life.step at hstep
  split_ifs at hstep with hop
  have hallows := hop.2
  cases op with
  | copyHandle =>
    obtain rfl := Option.some.inj hstep
    refine ⟨?_, hl.flags, hl.clear, hl.held⟩
    have := hl.count
    simp only [users, StreamImpl.addRef_count] at this ⊢
    omega
  | moveHandle =>
    obtain rfl := Option.some.inj hstep
    exact hl
  | assignOver =>
    simp only [allows, decide_eq_true_eq] at hallows
    obtain rfl := Option.some.inj hstep
    exact (hl.dropHandle hallows).release
  | destroyHandle asClient =>
    simp only [allows, Bool.and_eq_true, decide_eq_true_eq] at hallows
    obtain rfl := Option.some.inj hstep
    exact ((hl.dropHandle hallows.1).update (l.impl.handleDestructor_calls asClient)).release
  | newAwaitable f =>
    obtain rfl := Option.some.inj hstep
    refine ⟨?_, hl.flags, hl.clear, fun g => (hl.held g).trans List.count_le_count_cons⟩
    have := hl.count
    simp only [users, StreamImpl.addRef_count, List.length_cons] at this ⊢
    omega
  | dropAwaitable f =>
    simp only [allows, decide_eq_true_eq] at hallows
    obtain rfl := Option.some.inj hstep
    exact (hl.dropAwaitable hallows).release
  | await f h slot now =>
    simp only [allows, Bool.and_eq_true, decide_eq_true_eq] at hallows
    exact hl.await hallows.2 hstep
  | process f cqe now p buf =>
    simp only [allows, Bool.and_eq_true, decide_eq_true_eq] at hallows
    obtain ⟨s', x, slot, q, hp, rfl⟩ := perform_process hstep
    exact (hl.process hallows.1 hallows.2 hp).release
  | resume h f =>
    obtain rfl := Option.some.inj hstep
    have hawake := hl.awaitResume f
    refine ⟨hawake.count, hawake.flags, hawake.clear, fun g => ?_⟩
    exact (List.Sublist.count_le g (List.erase_sublist.map Prod.snd)).trans (hl.held g)
  | setTimeout ts =>
    obtain rfl := Option.some.inj hstep
    exact hl.update (l.impl.setTimeout_calls ts)
  | setBufferGroup g =>
    obtain rfl := perform_setBufferGroup hstep
    refine ⟨hl.count, ?_, hl.clear, hl.held⟩
    rintro i (rfl | rfl)
    · exact hl.flags _ (.inl rfl)
    · exact hl.flags _ (.inr rfl)

end Life

end Fiona
