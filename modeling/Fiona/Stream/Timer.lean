import Fiona.Lib.Renewal
import Fiona.Lib.Run
import Fiona.Stream.Flags
import Fiona.Stream.Ring

/-!
# The timer of a stream

`stream::timeout` overwrites `ts_` and queues the removal of the timer, whose last completion
arms it again; a tick that lacks `IORING_CQE_F_MORE` arms it as well. What a stream does
to its timer is a system of its own, a standing request that is renewed
(`Renewal.State`), and every step of a stream with its ring is one of its steps or leaves it alone
(`Fiona.StreamRing.step_timer`). So a stream has one timer at most, however calls, ticks
and removals overlap, and the last period in the end.
-/

namespace Fiona

open Transition

namespace StreamImpl

variable {s s' s'' : StreamImpl} {h : Coro}

/-! ### Calls that leave the timer alone -/

structure SameTimer (s s' : StreamImpl) : Prop where
  ts : s'.ts = s.ts
  timeout : s'.timeout = s.timeout

theorem SameTimer.refl : s.SameTimer s := ⟨rfl, rfl⟩

theorem SameTimer.trans (h : s.SameTimer s') (h' : s'.SameTimer s'') : s.SameTimer s'' :=
  ⟨h'.ts.trans h.ts, h'.timeout.trans h.timeout⟩

theorem SameState.sameTimer (h : s.SameState s') : s.SameTimer s' := ⟨h.ts, h.timeout⟩

theorem opAwaitProcessCqe_sameTimer (o : Op) (res : Int) :
    s.SameTimer (s.opAwaitProcessCqe o res).1 := by
  cases o <;> simp only [opAwaitProcessCqe, cancelAwaitProcessCqe, closeAwaitProcessCqe,
    shutdownAwaitProcessCqe, sendAwaitProcessCqe, socketAwaitProcessCqe, connectAwaitProcessCqe] <;>
    (try split_ifs) <;> exact ⟨rfl, rfl⟩

/-! ### What is queued for the timer -/

/-- The entries of the submission queue that are for the timer. -/
def timerEntry : Sqe → Option Renewal.Entry
  | .request .timeout _ => some .arm
  | .timeoutRemove => some .remove
  | _ => none

theorem cancelRecv_timer : s.cancelRecv.filterMap timerEntry = [] := by
  rw [cancelRecv]
  split_ifs <;> rfl

theorem awaitableDestructor_timer (f : FrameId) :
    (s.awaitableDestructor f).filterMap timerEntry = [] := by
  unfold awaitableDestructor sendAwaitableDestructor connectAwaitableDestructor
  split <;> first | rfl | (split_ifs <;> rfl)

theorem connectAwaitSuspend_timer (slot : Option Nat) :
    (s.connectAwaitSuspend slot h).2.filterMap timerEntry = [] := by
  rw [connectAwaitSuspend, connectSocket]
  split_ifs <;> rfl

theorem recvAwaitSuspend_timer (now : Nat) :
    (s.recvAwaitSuspend h now).2.2.filterMap timerEntry = [] := by
  rcases s.recvAwaitSuspend_cases h now with ⟨w, rf, heq, -⟩ | ⟨g, rf, fd, heq, -⟩
  · exact heq ▸ rfl
  · exact heq ▸ rfl

/-- `queue_timer_cancel` does something only to a timer that is there. -/
theorem queueTimerCancel_cases :
    s.queueTimerCancel = (s, []) ∨
      s.timeout.initiated = true ∧
        s.queueTimerCancel = ({ s with timeout := ⟨true, true⟩ }, [.timeoutRemove]) := by
  rw [queueTimerCancel]
  split_ifs with hinit
  · exact .inr ⟨hinit, by simp [hinit]⟩
  · exact .inl rfl

theorem closeAwaitSuspend_timer (h : Coro) :
    s.SameTimer (s.closeAwaitSuspend h).1 ∧
        (s.closeAwaitSuspend h).2.filterMap timerEntry = [] ∨
      s.timeout.initiated = true ∧ (s.closeAwaitSuspend h).1.ts = s.ts ∧
        (s.closeAwaitSuspend h).1.timeout = ⟨true, true⟩ ∧
        (s.closeAwaitSuspend h).2.filterMap timerEntry = [.remove] := by
  rw [closeAwaitSuspend]
  rcases ({ s with streamCancelled := true } : StreamImpl).queueTimerCancel_cases with
    heq | ⟨hinit, heq⟩
  · exact .inl (heq ▸ ⟨⟨rfl, rfl⟩, rfl⟩)
  · exact .inr ⟨hinit, heq ▸ ⟨rfl, rfl, rfl⟩⟩

theorem handleDestructor_timer (client : Bool) :
    s.SameTimer (s.handleDestructor client).1 ∧
        (s.handleDestructor client).2.filterMap timerEntry = [] ∨
      s.timeout.initiated = true ∧ (s.handleDestructor client).1.ts = s.ts ∧
        (s.handleDestructor client).1.timeout = ⟨true, true⟩ ∧
        (s.handleDestructor client).2.filterMap timerEntry = [.remove] := by
  rw [handleDestructor]
  split_ifs with hlast
  · rcases s.queueTimerCancel_cases with heq | ⟨hinit, heq⟩
    · rw [heq]
      exact .inl ⟨.refl, cancelRecv_timer⟩
    · rw [heq]
      exact .inr ⟨hinit, rfl, rfl, by simp [timerEntry, cancelRecv_timer]⟩
  · exact .inl ⟨.refl, rfl⟩

/-! ### The completions of the timer -/

theorem tickCancel_timer (now : Nat) :
    s.SameTimer (s.tickCancel now).1 ∧ (s.tickCancel now).2.filterMap timerEntry = [] := by
  refine ⟨(s.tickCancel_same now).sameTimer, ?_⟩
  rw [tickCancel]
  split_ifs <;> rfl

/-- The last tick arms the timer again. -/
theorem tick_timer (cqe : Cqe) (now : Nat) :
    (s.tick cqe now).1.ts = s.ts ∧
      (s.tick cqe now).1.timeout =
        (if cqe.more then s.timeout else { s.timeout with initiated := true }) ∧
      (s.tick cqe now).2.filterMap timerEntry = if cqe.more then [] else [.arm] := by
  obtain ⟨⟨hts, htimeout⟩, hq⟩ := s.tickCancel_timer now
  rw [tick]
  cases hmore : cqe.more
  · simp [armTimer, hts, htimeout, hq, timerEntry, addRef]
  · simp [hts, htimeout, hq, addRef]

/-- **A completion of the timer** leaves it alone if the timer goes on; otherwise it is armed again
or it is no more. -/
theorem timeoutAwaitProcessCqe_timer {cqe : Cqe}
    (hposts : cqe.more = true → isTick cqe = true) (now : Nat) :
    let r := s.timeoutAwaitProcessCqe cqe now
    r.1.ts = s.ts ∧
      (cqe.more = true → r.1.timeout = s.timeout ∧ r.2.filterMap timerEntry = []) ∧
      (cqe.more = false →
        r.2.filterMap timerEntry = if r.1.timeout.initiated then [.arm] else []) := by
  intro r
  rcases s.timeoutAwaitProcessCqe_cases hposts now with ⟨t, heq, hdown, hmore⟩ | ⟨heq, -, hmore⟩ |
    ⟨heq, -⟩
  · simp [r, heq, hmore, hdown]
  · simp [r, heq, hmore, armTimer, addRef, timerEntry]
  · obtain ⟨hts, htimeout, hq⟩ := s.tick_timer cqe now
    refine ⟨by rw [show r = s.tick cqe now from heq, hts], fun hmore => ?_, fun hmore => ?_⟩
    · rw [show r = s.tick cqe now from heq, htimeout, hq, hmore]
      exact ⟨rfl, rfl⟩
    · rw [show r = s.tick cqe now from heq, htimeout, hq, hmore]
      rfl

end StreamImpl

open StreamImpl (timerEntry)

namespace Life

variable {l l' : Life} {h : Coro} {f : FrameId}

/-- **What a step may do to the timer**: nothing, a new period, its end, or a completion. -/
inductive TimerStep (l l' : Life) (op : LifeOp) : Prop
  | quiet (hsame : l.impl.SameTimer l'.impl) (hq : (l.queued op).filterMap timerEntry = [])
      (hset : ∀ ts, op ≠ .setTimeout ts)
      (hprocess : ∀ cqe now p buf, op ≠ .process .timeout cqe now p buf)
  | set (ts : Nat) (hop : op = .setTimeout ts) (hts : l'.impl.ts = ts)
      (htimeout : l'.impl.timeout = l.impl.timeout)
      (hq : (l.queued op).filterMap timerEntry = [.remove])
  | stop (hinit : l.impl.timeout.initiated = true) (hts : l'.impl.ts = l.impl.ts)
      (htimeout : l'.impl.timeout = ⟨true, true⟩)
      (hq : (l.queued op).filterMap timerEntry = [.remove])
      (hset : ∀ ts, op ≠ .setTimeout ts)
      (hprocess : ∀ cqe now p buf, op ≠ .process .timeout cqe now p buf)
  | process (cqe : Cqe) (now p : Nat) (buf : RecvBuffer)
      (hop : op = .process .timeout cqe now p buf) (hposts : posts .timeout cqe = true)
      (hts : l'.impl.ts = (l.impl.timeoutAwaitProcessCqe cqe now).1.ts)
      (htimeout : l'.impl.timeout = (l.impl.timeoutAwaitProcessCqe cqe now).1.timeout)
      (hq : l.queued op = (l.impl.timeoutAwaitProcessCqe cqe now).2)

/-- Apart from `async_close` no `co_await` touches the timer. -/
theorem await_timer {slot : Option Nat} {now : Nat} (hf : f ≠ .op .close)
    (hstep : l.await h slot now f = some l') :
    l.impl.SameTimer l'.impl ∧ (l.awaitQueued h slot now f).filterMap timerEntry = [] := by
  cases f with
  | op o =>
    cases o with
    | close => exact absurd rfl hf
    | send =>
      simp only [await] at hstep
      split at hstep
      · rename_i hr
        obtain rfl := Option.some.inj hstep
        exact ⟨.refl, by simp [awaitQueued, hr]⟩
      · rename_i r hr
        obtain rfl := Option.some.inj hstep
        have hr' := hr
        rw [StreamImpl.sendAwaitSuspend] at hr'
        split_ifs at hr'
        obtain rfl := Option.some.inj hr'
        exact ⟨⟨rfl, rfl⟩, by simp [awaitQueued, hr, timerEntry]⟩
    | socket => exact absurd hstep (by simp [await])
    | connect =>
      obtain rfl := Option.some.inj hstep
      simp only [awaitConnect, awaitQueued]
      by_cases hbusy : l.impl.connectBusy = true
      · simp [hbusy, StreamImpl.SameTimer.refl]
      by_cases hrefused : l.impl.connectRefused slot = true
      · have hrefuse : l.impl.SameTimer l.impl.connectRefuse := ⟨rfl, rfl⟩
        simp only [hbusy, hrefused, if_true, Bool.or_true]
        exact ⟨hrefuse.trans (l.impl.connectRefuse.awaitResume_same (.op .connect)).sameTimer, rfl⟩
      · simp only [hbusy, hrefused, Bool.or_false]
        exact ⟨(l.impl.connectAwaitSuspend_same slot).sameTimer,
          l.impl.connectAwaitSuspend_timer slot⟩
    | _ =>
      obtain rfl := Option.some.inj hstep
      exact ⟨⟨rfl, rfl⟩, rfl⟩
  | recv =>
    obtain rfl := Option.some.inj hstep
    have hsame := (l.impl.recvAwaitSuspend_same (h := h) now).sameTimer
    simp only [awaitRecv, awaitQueued]
    split_ifs with hready
    · exact ⟨(l.impl.awaitResume_same .recv).sameTimer, rfl⟩
    · refine ⟨?_, l.impl.recvAwaitSuspend_timer now⟩
      split <;> rename_i heq <;> rw [heq] at hsame
      · rename_i s _
        exact hsame.trans (s.awaitResume_same .recv).sameTimer
      · exact hsame
      · exact hsame
  | _ => exact absurd hstep (by simp [await])

/-- No other completion touches the timer. -/
theorem processCqe_timer {s s' : StreamImpl} {cqe : Cqe} {now p : Nat} {buf : RecvBuffer}
    {x : Option Coro} {slot : Option Int} {q : List Sqe} (hf : f ≠ .timeout)
    (hp : processCqe s cqe now p buf f = some (s', x, slot, q)) :
    s.SameTimer s' ∧ q = [] := by
  cases f with
  | op o =>
    simp only [processCqe, Option.some.injEq, Prod.mk.injEq] at hp
    obtain ⟨rfl, -, -, rfl⟩ := hp
    have hsame := (s.opAwaitProcessCqe_sameTimer o cqe.res).trans
      (StreamImpl.opHandle_same o).sameTimer
    exact ⟨hsame, rfl⟩
  | recv =>
    simp only [processCqe, Option.bind_eq_bind, Option.bind_eq_some_iff] at hp
    obtain ⟨s₁, hs₁, heq⟩ := hp
    simp only [Option.some.injEq, Prod.mk.injEq] at heq
    obtain ⟨rfl, -, -, rfl⟩ := heq
    exact ⟨(StreamImpl.recvAwaitProcessCqe_same hs₁).sameTimer.trans ⟨rfl, rfl⟩, rfl⟩
  | timeout => exact absurd rfl hf
  | timeoutCancel =>
    simp only [processCqe, Option.some.injEq, Prod.mk.injEq] at hp
    obtain ⟨rfl, -, -, rfl⟩ := hp
    exact ⟨⟨rfl, rfl⟩, rfl⟩

theorem timer_step {op : LifeOp} (hstep : l.step op = some l') : TimerStep l l' op := by
  rw [step] at hstep
  split_ifs at hstep with hop
  have hallows := hop.2
  cases op with
  | assignOver =>
    obtain rfl := Option.some.inj hstep
    exact .quiet StreamImpl.release_same.sameTimer rfl (by simp) (by simp)
  | destroyHandle asClient =>
    obtain rfl := Option.some.inj hstep
    rcases l.impl.handleDestructor_timer asClient with ⟨hsame, hq⟩ | ⟨hinit, hts, htimeout, hq⟩
    · exact .quiet (hsame.trans StreamImpl.release_same.sameTimer) hq (by simp) (by simp)
    · exact .stop hinit (StreamImpl.release_same.sameTimer.ts.trans hts)
        (StreamImpl.release_same.sameTimer.timeout.trans htimeout) hq (by simp) (by simp)
  | dropAwaitable f =>
    obtain rfl := Option.some.inj hstep
    exact .quiet StreamImpl.release_same.sameTimer (l.impl.awaitableDestructor_timer f) (by simp)
      (by simp)
  | await f h slot now =>
    by_cases hf : f = .op .close
    · subst hf
      obtain rfl := Option.some.inj hstep
      rcases l.impl.closeAwaitSuspend_timer h with ⟨hsame, hq⟩ | ⟨hinit, hts, htimeout, hq⟩
      · exact .quiet hsame hq (by simp) (by simp)
      · exact .stop hinit hts htimeout hq (by simp) (by simp)
    · obtain ⟨hsame, hq⟩ := await_timer hf hstep
      exact .quiet hsame hq (by simp) (by simp)
  | process f cqe now p buf =>
    simp only [allows, Bool.and_eq_true] at hallows
    obtain ⟨s', x, slot, q, hp, rfl⟩ := perform_process hstep
    have hq : l.queued (.process f cqe now p buf) = q := by simp [queued, hp]
    by_cases hf : f = .timeout
    · subst hf
      have hs' := hp
      simp only [processCqe, Option.some.injEq, Prod.mk.injEq] at hs'
      obtain ⟨rfl, -, -, rfl⟩ := hs'
      exact .process cqe now p buf rfl hallows.2 StreamImpl.release_same.sameTimer.ts
        StreamImpl.release_same.sameTimer.timeout hq
    · obtain ⟨hsame, rfl⟩ := processCqe_timer hf hp
      exact .quiet (hsame.trans StreamImpl.release_same.sameTimer) (by rw [hq]; rfl) (by simp)
        (by simp [hf])
  | resume h f =>
    obtain rfl := Option.some.inj hstep
    exact .quiet (StreamImpl.awaitResume_same f).sameTimer rfl (by simp) (by simp)
  | setTimeout ts =>
    obtain rfl := Option.some.inj hstep
    exact .set ts rfl rfl rfl rfl
  | setBufferGroup g =>
    obtain rfl := perform_setBufferGroup hstep
    exact .quiet ⟨rfl, rfl⟩ rfl (by simp) (by simp)
  | _ =>
    obtain rfl := Option.some.inj hstep
    exact .quiet ⟨rfl, rfl⟩ rfl (by simp) (by simp)

end Life

namespace StreamRing

variable {r r' : StreamRing}

/-! ### The timer as a standing request -/

/-- What a stream and its ring are to the timer. -/
def timer (r : StreamRing) : Renewal.State Nat where
  current := r.life.impl.ts
  active := r.life.impl.timeout.initiated
  queue := r.sq.filterMap timerEntry
  armed := r.armed
  posted := r.timerCq.map Cqe.more

@[simp] theorem takeRecv_timer (e : Sqe) : (r.takeRecv e).timer = r.timer := by
  simp [timer]

theorem submit_timer (hstep : r.submit = some r') :
    r'.timer = r.timer ∨ Renewal.step r.timer .submit = some r'.timer := by
  rw [submit] at hstep
  split at hstep
  · exact absurd hstep (by simp)
  rename_i e q hq
  obtain rfl := Option.some.inj hstep
  rw [takeRecv_timer]
  -- only two entries are for the timer, and the two queues have the same first of these
  cases hentry : timerEntry e with
  | none =>
    refine .inl ?_
    have hnot : takeTimer { r with sq := q } e = { r with sq := q } := by
      unfold takeTimer
      split <;> first | rfl | exact absurd hentry (by simp [timerEntry])
    simp [hnot, timer, hq, hentry]
  | some entry =>
    refine .inr ?_
    have hqueue : r.timer.queue = entry :: q.filterMap timerEntry := by simp [timer, hq, hentry]
    unfold timerEntry at hentry
    split at hentry
    · obtain rfl := Option.some.inj hentry
      simp only [Renewal.step, Renewal.State.submit, hqueue]
      rfl
    · obtain rfl := Option.some.inj hentry
      simp only [Renewal.step, Renewal.State.submit, hqueue, takeTimer]
      cases harmed : r.armed <;> simp [timer, harmed, canceled]
    · exact absurd hentry (by simp)

theorem perform_timer {op : LifeOp} (hstep : r.perform op = some r') :
    r'.timer = r.timer ∨ ∃ label, Renewal.step r.timer label = some r'.timer := by
  obtain ⟨hready, l, hl, rfl⟩ := perform_life hstep
  have hpop : (∀ cqe now p buf, op ≠ .process .timeout cqe now p buf) →
      (r.pop op).armed = r.armed ∧ (r.pop op).timerCq = r.timerCq := by
    intro hop
    unfold pop
    split
    · exact absurd rfl (hop _ _ _ _)
    · exact ⟨rfl, rfl⟩
    · exact ⟨rfl, rfl⟩
  rcases Life.timer_step hl with ⟨⟨hts, htimeout⟩, hq, -, hop⟩ | ⟨ts, rfl, hts, htimeout, hq⟩ |
    ⟨hinit, hts, htimeout, hq, -, hop⟩ | ⟨cqe, now, p, buf, rfl, hposts, hts, htimeout, hq⟩
  · obtain ⟨harmed, hcq⟩ := hpop hop
    exact .inl (by simp [timer, hts, htimeout, hq, harmed, hcq])
  · exact .inr ⟨.set ts, by simp [timer, Renewal.step, hts, htimeout, hq, pop]⟩
  · obtain ⟨harmed, hcq⟩ := hpop hop
    exact .inr ⟨.remove, by simp [timer, Renewal.step, hts, htimeout, hq, harmed, hcq, hinit]⟩
  · obtain ⟨hsame, hmore, hlast⟩ :=
      r.life.impl.timeoutAwaitProcessCqe_timer (Life.posts_timeout hposts) now
    obtain ⟨c, hc⟩ : ∃ c, r.timerCq = cqe :: c := by
      simpa [ready, List.head?_eq_some_iff] using hready
    refine .inr ⟨.handle l.impl.timeout.initiated, ?_⟩
    cases hcqe : cqe.more with
    | true =>
      obtain ⟨heq, hnone⟩ := hmore hcqe
      simp [timer, Renewal.step, Renewal.State.handle, hc, hcqe, pop, hts, hsame, htimeout, heq, hq,
        hnone]
    | false =>
      simp [timer, Renewal.step, Renewal.State.handle, hc, hcqe, pop, hts, hsame, htimeout, hq,
        hlast hcqe]

/-- **A stream does nothing to its timer but renew it.** -/
theorem step_timer {op : RingOp} (hstep : r.step op = some r') :
    r'.timer = r.timer ∨ ∃ label, Renewal.step r.timer label = some r'.timer := by
  cases op with
  | life op => exact perform_timer hstep
  | submit => exact (submit_timer hstep).imp_right fun h => ⟨_, h⟩
  | postTimer cqe =>
    obtain ⟨⟨harmed, -⟩, heq⟩ := Option.ite_none_right_eq_some.mp hstep
    obtain rfl := Option.some.inj heq
    refine .inr ⟨.post cqe.more, ?_⟩
    simp only [Renewal.step, timer, harmed, if_true]
    simp
  | postRecv cqe =>
    obtain ⟨-, heq⟩ := Option.ite_none_right_eq_some.mp hstep
    obtain rfl := Option.some.inj heq
    exact .inl rfl

theorem created_timer (o : Origin) (now : Nat) : Renewal.Inv (created o now).timer := by
  cases o <;> exact Renewal.inv_start _

theorem step_timer_inv {op : RingOp} (hinv : Renewal.Inv r.timer) (hstep : r.step op = some r') :
    Renewal.Inv r'.timer := by
  rcases step_timer hstep with heq | ⟨label, hlabel⟩
  · rwa [heq]
  · exact hinv.step hlabel

theorem timer_run {o : Origin} {now : Nat} {ops : List RingOp}
    (hrun : run step (created o now) ops = some r) : Renewal.Inv r.timer :=
  run_invariant (fun _ _ _ hinv hstep => step_timer_inv hinv hstep) (created_timer o now) hrun

/-! ### One timer, with the last period -/

/-- The timers that are queued, armed, or over with their last completion not yet processed. -/
def timers (r : StreamRing) : Nat :=
  (requests r.sq).count .timeout + r.armed.toList.length + r.timerCq.countP fun c => !c.more

theorem timers_eq : r.timers = r.timer.outstanding := by
  have hqueue : (requests r.sq).count .timeout = (r.sq.filterMap timerEntry).count .arm := by
    induction r.sq with
    | nil => rfl
    | cons e q ih =>
      cases e with
      | request f fd => cases f <;> simp [List.filterMap_cons, timerEntry, ih]
      | _ => simp [List.filterMap_cons, timerEntry, ih]
  have hposted : r.timerCq.countP (fun c => !c.more) = (r.timerCq.map Cqe.more).count false := by
    rw [List.count_eq_countP, List.countP_map]
    exact List.countP_congr fun c _ => by simp
  rw [timers, hqueue, hposted]
  rfl

/-- The argument of the last `stream::timeout`, or the period `ts` that was there before. -/
def lastTimeout : Nat → List RingOp → Nat
  | ts, [] => ts
  | _, .life (.setTimeout ts) :: ops => lastTimeout ts ops
  | ts, _ :: ops => lastTimeout ts ops

/-- Nothing but `stream::timeout` changes the period. -/
theorem step_ts {op : RingOp} {ops : List RingOp} (hstep : r.step op = some r') :
    lastTimeout r'.life.impl.ts ops = lastTimeout r.life.impl.ts (op :: ops) := by
  cases op with
  | life op =>
    obtain ⟨-, l, hl, rfl⟩ := perform_life hstep
    rcases Life.timer_step hl with ⟨⟨hts, -⟩, -, hset, -⟩ | ⟨ts, rfl, hts, -⟩ |
      ⟨-, hts, -, -, hset, -⟩ | ⟨cqe, now, p, buf, rfl, hposts, hts, -⟩
    · rw [lastTimeout, hts]
      exact fun ts heq => hset ts (RingOp.life.inj heq)
    · rw [lastTimeout, hts]
    · rw [lastTimeout, hts]
      exact fun ts heq => hset ts (RingOp.life.inj heq)
    · rw [lastTimeout, hts,
        (r.life.impl.timeoutAwaitProcessCqe_timer (Life.posts_timeout hposts) now).1]
      simp
  | submit => rw [submit_life hstep, lastTimeout]; simp
  | postTimer cqe => rw [postTimer_life hstep, lastTimeout]; simp
  | postRecv cqe => rw [postRecv_life hstep, lastTimeout]; simp

theorem run_ts {ops : List RingOp} (hrun : run step r ops = some r') :
    r'.life.impl.ts = lastTimeout r.life.impl.ts ops := by
  induction ops generalizing r with
  | nil =>
    obtain rfl := Option.some.inj hrun
    rfl
  | cons op ops ih =>
    obtain ⟨r₁, hstep, hrest⟩ := run_cons_eq_some.mp hrun
    exact (ih hrest).trans (step_ts hstep)

/-- **One timer for a stream, with the last period**: however calls, ticks, removals and
completions overlap there is at most one timer, and exactly one while `initiated_` says so;
with all entries taken and all completions processed it is armed with the last period. -/
theorem timer_lastPeriod (o : Origin) (now : Nat) (ops : List RingOp) (r : StreamRing)
    (hrun : run step (created o now) ops = some r) :
    r.timers ≤ 1 ∧ (r.life.impl.timeout.initiated = true → r.timers = 1) ∧
      (r.sq = [] → r.timerCq = [] → r.armed =
        if r.life.impl.timeout.initiated then some (lastTimeout 3000000000 ops) else none) := by
  have hinv := timer_run hrun
  have hts : r.life.impl.ts = lastTimeout 3000000000 ops := by
    rw [run_ts hrun]
    cases o <;> rfl
  have htimers : r.timers = r.life.impl.timeout.initiated.toNat :=
    timers_eq.trans hinv.outstanding
  refine ⟨?_, ?_, ?_⟩
  · rw [htimers]
    exact Bool.toNat_le _
  · intro hinit
    rw [htimers, hinit]
    rfl
  · intro hsq hcq
    rw [← hts]
    exact hinv.armed_of_drained (by simp [timer, hsq]) (by simp [timer, hcq])

/-- The period is changed before and after the timer ticks for the last time. -/
def retimed : List RingOp :=
  [.submit, .life (.setTimeout 5), .postTimer ⟨-Errno.ETIME, false, none⟩,
    .life (.process .timeout ⟨-Errno.ETIME, false, none⟩ 1 0 (.alloc 0 0)), .life (.setTimeout 9),
    .submit, .submit, .submit, .life (.process .timeout canceled 1 0 (.alloc 0 0)), .submit]

theorem timer_lastPeriod_sample :
    (∃ r, run step (created (.accepted 7) 0) retimed = some r ∧ r.timers ≤ 1 ∧
      (r.life.impl.timeout.initiated = true → r.timers = 1) ∧
      (r.sq = [] → r.timerCq = [] → r.armed =
        if r.life.impl.timeout.initiated then some (lastTimeout 3000000000 retimed) else none)) ∧
    (run step (created (.accepted 7) 0) retimed).map (fun r => (r.sq, r.timerCq, r.armed)) =
      some ([], [], some 9) :=
  ⟨exists_run (by decide) (timer_lastPeriod (.accepted 7) 0 retimed), by decide⟩

end StreamRing

end Fiona
