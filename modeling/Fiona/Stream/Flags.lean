import Fiona.Stream.Counting

/-!
# `connected_` and `stream_cancelled_`

The two flags that a stream keeps over its operations. `connected_` goes up with a connect that
succeeds and down with a close, a failed send or a failed connect; `stream_cancelled_`
goes up with `async_cancel` and `async_close`, and nothing takes it down.
-/

namespace Fiona

namespace StreamImpl

variable {s s' s'' : StreamImpl} {h : Coro}

structure SameFlags (s s' : StreamImpl) : Prop where
  connected : s'.connected = s.connected
  streamCancelled : s'.streamCancelled = s.streamCancelled

theorem SameFlags.refl : s.SameFlags s := ⟨rfl, rfl⟩

theorem SameFlags.trans (h : s.SameFlags s') (h' : s'.SameFlags s'') : s.SameFlags s'' :=
  ⟨h'.connected.trans h.connected, h'.streamCancelled.trans h.streamCancelled⟩

/-- A call that leaves the flags and the timer alone. -/
structure SameState (s s' : StreamImpl) : Prop extends SameFlags s s' where
  ts : s'.ts = s.ts
  timeout : s'.timeout = s.timeout

theorem release_same : s.SameState s.release.1 := by
  rw [release, destructor]
  dsimp only
  split_ifs <;> exact ⟨⟨rfl, rfl⟩, rfl, rfl⟩

theorem awaitResume_same (f : FrameId) : s.SameState (s.awaitResume f) := by
  cases f with
  | op o =>
    cases o <;> try exact ⟨⟨rfl, rfl⟩, rfl, rfl⟩
    rw [awaitResume, connectAwaitResume]
    split_ifs <;> exact ⟨⟨rfl, rfl⟩, rfl, rfl⟩
  | _ => exact ⟨⟨rfl, rfl⟩, rfl, rfl⟩

theorem connectAwaitSuspend_same (slot : Option Nat) :
    s.SameState (s.connectAwaitSuspend slot h).1 := by
  rw [connectAwaitSuspend, connectSocket]
  split_ifs <;> exact ⟨⟨rfl, rfl⟩, rfl, rfl⟩

theorem recvAwaitSuspend_same (now : Nat) : s.SameState (s.recvAwaitSuspend h now).2.1 := by
  rcases s.recvAwaitSuspend_cases h now with ⟨w, rf, heq, -⟩ | ⟨g, rf, fd, heq, -⟩
  · exact heq ▸ ⟨⟨rfl, rfl⟩, rfl, rfl⟩
  · exact heq ▸ ⟨⟨rfl, rfl⟩, rfl, rfl⟩

theorem opHandle_same (o : Op) : s.SameState (s.opHandle o).2 := by
  rw [opHandle]
  split_ifs <;> exact ⟨⟨rfl, rfl⟩, rfl, rfl⟩

theorem recvAwaitProcessCqe_same {cqe : Cqe} {now p : Nat} {buf : RecvBuffer}
    (hs' : s.recvAwaitProcessCqe cqe now p buf = some s') : s.SameState s' := by
  simp only [recvAwaitProcessCqe, Option.bind_eq_bind, Option.bind_eq_some_iff] at hs'
  obtain ⟨rf, -, heq⟩ := hs'
  obtain rfl := Option.some.inj heq
  split_ifs <;> exact ⟨⟨rfl, rfl⟩, rfl, rfl⟩

theorem tickCancel_same (now : Nat) : s.SameState (s.tickCancel now).1 := by
  rw [tickCancel]
  split_ifs <;> exact ⟨⟨rfl, rfl⟩, rfl, rfl⟩

theorem queueTimerCancel_sameFlags : s.SameFlags s.queueTimerCancel.1 := by
  rw [queueTimerCancel]
  split_ifs <;> exact ⟨rfl, rfl⟩

theorem handleDestructor_sameFlags (client : Bool) :
    s.SameFlags (s.handleDestructor client).1 := by
  rw [handleDestructor]
  split_ifs
  · exact s.queueTimerCancel_sameFlags
  · exact .refl

theorem sendAwaitSuspend_sameFlags {now : Nat} {r : StreamImpl × List Sqe}
    (hr : s.sendAwaitSuspend h now = some r) : s.SameFlags r.1 := by
  rw [sendAwaitSuspend] at hr
  split_ifs at hr
  obtain rfl := Option.some.inj hr
  exact ⟨rfl, rfl⟩

/-- `async_close` sets the flag as `async_cancel` does. -/
theorem closeAwaitSuspend_flags :
    (s.closeAwaitSuspend h).1.connected = s.connected ∧
      (s.closeAwaitSuspend h).1.streamCancelled = true :=
  have hsame := ({ s with streamCancelled := true } : StreamImpl).queueTimerCancel_sameFlags
  ⟨hsame.connected, hsame.streamCancelled⟩

/-- What the completion of an operation makes of `connected_`. -/
def connectedAfter (s : StreamImpl) (o : Op) (res : Int) : Bool :=
  match o with
  | .close => false
  | .send => if res < 0 then false else s.connected
  | .connect =>
    if res < 0 then if res ≠ -Errno.EISCONN then false else s.connected else true
  | _ => s.connected

theorem opAwaitProcessCqe_flags (o : Op) (res : Int) :
    (s.opAwaitProcessCqe o res).1.connected = s.connectedAfter o res ∧
      (s.opAwaitProcessCqe o res).1.streamCancelled = s.streamCancelled := by
  cases o with
  | send =>
    simp only [opAwaitProcessCqe, sendAwaitProcessCqe, connectedAfter]
    split_ifs <;> exact ⟨rfl, rfl⟩
  | socket =>
    simp only [opAwaitProcessCqe, socketAwaitProcessCqe, connectedAfter]
    split_ifs <;> exact ⟨rfl, rfl⟩
  | connect =>
    simp only [opAwaitProcessCqe, connectAwaitProcessCqe, connectedAfter]
    split_ifs <;> exact ⟨rfl, rfl⟩
  | _ => exact ⟨rfl, rfl⟩

theorem timeoutAwaitProcessCqe_sameFlags (cqe : Cqe) (now : Nat) :
    s.SameFlags (s.timeoutAwaitProcessCqe cqe now).1 := by
  obtain ⟨⟨hconnected, hcancelled⟩, -⟩ := s.tickCancel_same now
  rw [timeoutAwaitProcessCqe, tick]
  split_ifs <;> exact ⟨by first | rfl | exact hconnected, by first | rfl | exact hcancelled⟩

end StreamImpl

namespace Life

variable {l l' : Life} {h : Coro} {f : FrameId}

/-- **What a step may do to the two flags.** -/
inductive FlagsStep (l l' : Life) (op : LifeOp) : Prop
  | quiet (hsame : l.impl.SameFlags l'.impl)
      (hawait : ∀ h slot now, op ≠ .await (.op .cancel) h slot now ∧
        op ≠ .await (.op .close) h slot now)
      (hprocess : ∀ o cqe now p buf, op ≠ .process (.op o) cqe now p buf)
  | cancel (o : Op) (h : Coro) (slot : Option Nat) (now : Nat) (ho : o = .cancel ∨ o = .close)
      (hop : op = .await (.op o) h slot now) (hconnected : l'.impl.connected = l.impl.connected)
      (hcancelled : l'.impl.streamCancelled = true)
  | process (o : Op) (cqe : Cqe) (now p : Nat) (buf : RecvBuffer)
      (hop : op = .process (.op o) cqe now p buf)
      (hconnected : l'.impl.connected = l.impl.connectedAfter o cqe.res)
      (hcancelled : l'.impl.streamCancelled = l.impl.streamCancelled)

theorem await_sameFlags {slot : Option Nat} {now : Nat} (hcancel : f ≠ .op .cancel)
    (hclose : f ≠ .op .close) (hstep : l.await h slot now f = some l') :
    l.impl.SameFlags l'.impl := by
  cases f with
  | op o =>
    cases o with
    | cancel => exact absurd rfl hcancel
    | close => exact absurd rfl hclose
    | shutdown =>
      obtain rfl := Option.some.inj hstep
      exact ⟨rfl, rfl⟩
    | send =>
      simp only [await] at hstep
      split at hstep
      · obtain rfl := Option.some.inj hstep
        exact .refl
      · rename_i r hr
        obtain rfl := Option.some.inj hstep
        exact StreamImpl.sendAwaitSuspend_sameFlags hr
    | socket => exact absurd hstep (by simp [await])
    | connect =>
      obtain rfl := Option.some.inj hstep
      simp only [awaitConnect]
      split_ifs
      · exact .refl
      · have hrefuse : l.impl.SameFlags l.impl.connectRefuse := ⟨rfl, rfl⟩
        exact hrefuse.trans (l.impl.connectRefuse.awaitResume_same (.op .connect)).toSameFlags
      · exact (l.impl.connectAwaitSuspend_same slot).toSameFlags
  | recv =>
    obtain rfl := Option.some.inj hstep
    have hsame := (l.impl.recvAwaitSuspend_same (h := h) now).toSameFlags
    simp only [awaitRecv]
    split_ifs with hready
    · exact (l.impl.awaitResume_same .recv).toSameFlags
    · split <;> rename_i heq <;> rw [heq] at hsame
      · rename_i s _
        exact hsame.trans (s.awaitResume_same .recv).toSameFlags
      · exact hsame
      · exact hsame
  | _ => exact absurd hstep (by simp [await])

theorem processCqe_sameFlags {s s' : StreamImpl} {cqe : Cqe} {now p : Nat} {buf : RecvBuffer}
    {x : Option Coro} {slot : Option Int} {q : List Sqe} (hf : ∀ o, f ≠ .op o)
    (hp : processCqe s cqe now p buf f = some (s', x, slot, q)) : s.SameFlags s' := by
  cases f with
  | op o => exact absurd rfl (hf o)
  | recv =>
    simp only [processCqe, Option.bind_eq_bind, Option.bind_eq_some_iff] at hp
    obtain ⟨s₁, hs₁, heq⟩ := hp
    simp only [Option.some.injEq, Prod.mk.injEq] at heq
    obtain ⟨rfl, -⟩ := heq
    exact (StreamImpl.recvAwaitProcessCqe_same hs₁).toSameFlags.trans ⟨rfl, rfl⟩
  | timeout =>
    simp only [processCqe, Option.some.injEq, Prod.mk.injEq] at hp
    obtain ⟨rfl, -⟩ := hp
    exact s.timeoutAwaitProcessCqe_sameFlags cqe now
  | timeoutCancel =>
    simp only [processCqe, Option.some.injEq, Prod.mk.injEq] at hp
    obtain ⟨rfl, -⟩ := hp
    exact ⟨rfl, rfl⟩

theorem flags_step {op : LifeOp} (hstep : l.step op = some l') : FlagsStep l l' op := by
  rw [step] at hstep
  split_ifs at hstep with hop
  cases op with
  | assignOver =>
    obtain rfl := Option.some.inj hstep
    exact .quiet StreamImpl.release_same.toSameFlags (by simp) (by simp)
  | destroyHandle asClient =>
    obtain rfl := Option.some.inj hstep
    have hsame := (l.impl.handleDestructor_sameFlags asClient).trans
      StreamImpl.release_same.toSameFlags
    exact .quiet hsame (by simp) (by simp)
  | dropAwaitable f =>
    obtain rfl := Option.some.inj hstep
    exact .quiet StreamImpl.release_same.toSameFlags (by simp) (by simp)
  | await f h slot now =>
    by_cases hcancel : f = .op .cancel
    · subst hcancel
      obtain rfl := Option.some.inj hstep
      exact .cancel .cancel h slot now (.inl rfl) rfl rfl rfl
    by_cases hclose : f = .op .close
    · subst hclose
      obtain rfl := Option.some.inj hstep
      obtain ⟨hconnected, hcancelled⟩ := l.impl.closeAwaitSuspend_flags (h := h)
      exact .cancel .close h slot now (.inr rfl) rfl hconnected hcancelled
    · exact .quiet (await_sameFlags hcancel hclose hstep) (by simp [hcancel, hclose]) (by simp)
  | process f cqe now p buf =>
    obtain ⟨s', x, slot, q, hp, rfl⟩ := perform_process hstep
    cases f with
    | op o =>
      obtain ⟨hconnected, hcancelled⟩ := l.impl.opAwaitProcessCqe_flags o cqe.res
      have hhandle := ((l.impl.opAwaitProcessCqe o cqe.res).1.opHandle_same o).toSameFlags
      simp only [processCqe, Option.some.injEq, Prod.mk.injEq] at hp
      obtain ⟨rfl, -⟩ := hp
      have hsame := hhandle.trans StreamImpl.release_same.toSameFlags
      exact .process o cqe now p buf rfl (hsame.connected.trans hconnected)
        (hsame.streamCancelled.trans hcancelled)
    | _ =>
      have hsame := processCqe_sameFlags (by simp) hp
      exact .quiet (hsame.trans StreamImpl.release_same.toSameFlags) (by simp) (by simp)
  | resume h f =>
    obtain rfl := Option.some.inj hstep
    exact .quiet (l.impl.awaitResume_same f).toSameFlags (by simp) (by simp)
  | setBufferGroup g =>
    obtain rfl := perform_setBufferGroup hstep
    exact .quiet ⟨rfl, rfl⟩ (by simp) (by simp)
  | _ =>
    obtain rfl := Option.some.inj hstep
    exact .quiet ⟨rfl, rfl⟩ (by simp) (by simp)

end Life

end Fiona
