import Fiona.Stream.Flags
import Fiona.Stream.Timer

/-!
# Who watches a stream

A tick of the timer is what ends an idle receive or send. The timer is armed once, in the
constructor, and keeps itself going; `async_close` and the destructor of the last handle
end it, and nothing starts it again (`Fiona.Life.unwatched_step`). A client that is closed and
then connected a second time has no timer, so its receives and sends may be idle for ever.
-/

namespace Fiona

open Transition

namespace Life

variable (l : Life)

/-- A receive or a send is in flight. -/
def Busy : Prop := .recv ∈ l.inFlight ∨ .op .send ∈ l.inFlight

/-- What goes on on a connected stream has a timer, unless the stream is being closed. -/
def Supervised : Prop :=
  l.impl.connected = true → .op .close ∉ l.inFlight → l.Busy → l.impl.timeout.initiated = true

/-- A `co_await` that queues a receive or a send. -/
def starts : LifeOp → Bool
  | .await .recv _ _ _ => !l.impl.recv.awaitReady && l.impl.recv.ec.isNone &&
      !l.impl.recv.initiated && l.impl.recv.bufferGroupId.isSome
  | .await (.op .send) _ _ _ => !(l.impl.frame .send).initiated
  | _ => false

/-- The completion of a connect that succeeded. -/
def connects : LifeOp → Bool
  | .process (.op .connect) cqe _ _ _ => decide (0 ≤ cqe.res)
  | _ => false

/-- The completion of a timer that is over for good. -/
def stops : LifeOp → Bool
  | .process .timeout cqe _ _ _ => !StreamImpl.isTick cqe &&
      (decide (cqe.res ≠ -Errno.ECANCELED) || l.impl.timeout.cancelled)
  | _ => false

/-- On a connected stream that is not being closed a receive or a send is started only with a timer,
and a connect succeeds and the timer ends only with neither in flight or with a timer. -/
structure Watched (op : LifeOp) : Prop where
  starts : l.starts op = true → l.impl.connected = true → .op .close ∉ l.inFlight →
    l.impl.timeout.initiated = true
  connects : connects op = true → .op .close ∉ l.inFlight → l.Busy →
    l.impl.timeout.initiated = true
  stops : l.stops op = true → l.impl.connected = true → .op .close ∉ l.inFlight → ¬l.Busy

variable {l} {l' : Life} {op : LifeOp} {f : FrameId} {h : Coro}

/-! ### What a step queues -/

theorem connectAwaitSuspend_requests {s : StreamImpl} {slot : Option Nat}
    (hf : f ∈ requests (s.connectAwaitSuspend slot h).2) :
    f = .op .socket ∨ f = .op .connect := by
  rw [StreamImpl.connectAwaitSuspend, StreamImpl.connectSocket] at hf
  split_ifs at hf <;> simp at hf <;> tauto

theorem handleDestructor_requests {s : StreamImpl} (asClient : Bool) :
    requests (s.handleDestructor asClient).2 = [] := by
  rw [StreamImpl.handleDestructor, StreamImpl.queueTimerCancel]
  dsimp only
  split_ifs <;> simp [StreamImpl.cancelRecv_requests]

/-- A receive that is awaited is queued if there is none, no result waits and a group is set. -/
theorem awaitQueued_recv (slot : Option Nat) (now : Nat) :
    requests (l.awaitQueued h slot now .recv) =
      if l.starts (.await .recv h slot now) then [.recv] else [] := by
  have hsuspend : requests (l.impl.recvAwaitSuspend h now).2.2 =
      if l.impl.recv.ec.isNone && !l.impl.recv.initiated && l.impl.recv.bufferGroupId.isSome then
        [.recv] else [] := by
    rcases hec : l.impl.recv.ec with _ | ec <;> rcases hinit : l.impl.recv.initiated with _ | _ <;>
      rcases hgroup : l.impl.recv.bufferGroupId with _ | g <;>
      simp [StreamImpl.recvAwaitSuspend, RecvFrame.awaitSuspend, hec, hinit, hgroup]
  simp only [awaitQueued, starts]
  by_cases hready : l.impl.recv.awaitReady = true
  · simp [hready]
  · simpa [hready] using hsuspend

theorem awaitQueued_send (slot : Option Nat) (now : Nat) :
    requests (l.awaitQueued h slot now (.op .send)) =
      if l.starts (.await (.op .send) h slot now) then [.op .send] else [] := by
  simp only [awaitQueued, StreamImpl.sendAwaitSuspend, starts]
  by_cases hinit : (l.impl.frame .send).initiated = true <;> simp [hinit]

theorem process_requests {g : FrameId} {cqe : Cqe} {now p : Nat} {buf : RecvBuffer}
    (hstep : l.step (.process f cqe now p buf) = some l')
    (hg : g ∈ requests (l.queued (.process f cqe now p buf))) :
    g = .timeout ∨ g = .timeoutCancel := by
  obtain ⟨fd, hmem⟩ := mem_requests.mp hg
  obtain ⟨fd', heq | heq⟩ := process_queued hstep hmem
  · exact .inl (Sqe.request.inj heq).1
  · exact .inr (Sqe.request.inj heq).1

/-- Only what starts a receive or a send queues one. -/
theorem starts_of_mem (hstep : l.step op = some l') (hf : f = .recv ∨ f = .op .send)
    (hmem : f ∈ requests (l.queued op)) : l.starts op = true := by
  cases op with
  | destroyHandle asClient => simp [queued, handleDestructor_requests] at hmem
  | dropAwaitable g => simp [queued, StreamImpl.awaitableDestructor_requests] at hmem
  | await g h slot now =>
    change f ∈ requests (l.awaitQueued h slot now g) at hmem
    cases g with
    | op o =>
      cases o with
      | send =>
        rw [awaitQueued_send] at hmem
        split_ifs at hmem with hstarts
        · exact hstarts
        · simp at hmem
      | connect =>
        simp only [awaitQueued] at hmem
        split_ifs at hmem
        · simp at hmem
        · rcases connectAwaitSuspend_requests hmem with rfl | rfl <;> simp at hf
      | socket => simp [awaitQueued] at hmem
      | cancel =>
        obtain rfl := List.mem_singleton.mp hmem
        simp at hf
      | close =>
        rw [show requests (l.awaitQueued h slot now (.op .close)) = [.op .close] from
          StreamImpl.closeAwaitSuspend_starts.requests, List.mem_singleton] at hmem
        simp [hmem] at hf
      | shutdown =>
        obtain rfl := List.mem_singleton.mp hmem
        simp at hf
    | recv =>
      rw [awaitQueued_recv] at hmem
      split_ifs at hmem with hstarts
      · exact hstarts
      · simp at hmem
    | _ => simp [awaitQueued] at hmem
  | process g cqe now p buf =>
    rcases process_requests hstep hmem with rfl | rfl <;> simp at hf
  | _ => simp [queued, StreamImpl.setTimeout] at hmem

/-! ### What a step may change -/

theorem busy_of_step (hstep : l.step op = some l') (hbusy : l'.Busy) :
    l.Busy ∨ l.starts op = true := by
  have hcases : ∀ f, f = .recv ∨ f = .op .send → f ∈ l'.inFlight →
      f ∈ l.inFlight ∨ l.starts op = true := by
    intro f hf hmem
    rw [step_inFlight hstep, List.mem_append] at hmem
    exact hmem.imp (fun h => kept_subset op h) fun h => starts_of_mem hstep hf h
  rcases hbusy with hrecv | hsend
  · exact (hcases _ (.inl rfl) hrecv).imp_left .inl
  · exact (hcases _ (.inr rfl) hsend).imp_left .inr

/-- A close is in progress until its completion, which disconnects. -/
theorem close_of_step (hstep : l.step op = some l') (hclose : .op .close ∈ l.inFlight) :
    .op .close ∈ l'.inFlight ∨ l'.impl.connected = false := by
  by_cases hop : ∃ cqe now p buf, op = .process (.op .close) cqe now p buf
  · obtain ⟨cqe, now, p, buf, rfl⟩ := hop
    rcases flags_step hstep with ⟨-, -, hprocess⟩ | ⟨o, h, slot, now', -, heq, -⟩ |
      ⟨o, cqe', now', p', buf', heq, hconnected, -⟩
    · exact absurd rfl (hprocess _ _ _ _ _)
    · exact absurd heq (by simp)
    · obtain ⟨rfl, -⟩ : Op.close = o ∧ _ := by simpa using heq
      exact .inr hconnected
  · refine .inl ?_
    rw [step_inFlight hstep]
    refine List.mem_append_left _ ?_
    cases op with
    | process f cqe now p buf =>
      have hne : FrameId.op .close ≠ f := fun heq => hop ⟨cqe, now, p, buf, by rw [heq]⟩
      simp only [kept, completed]
      split_ifs
      · exact hclose
      · exact (List.mem_erase_of_ne hne).mpr hclose
    | _ => exact hclose

/-- Only the completion of an operation changes `connected_`. -/
theorem connected_keeps (hstep : l.step op = some l')
    (hop : ∀ o cqe now p buf, op ≠ .process (.op o) cqe now p buf) :
    l'.impl.connected = l.impl.connected := by
  rcases flags_step hstep with ⟨hsame, -⟩ | ⟨o, h, slot, now, -, -, hsame, -⟩ |
    ⟨o, cqe, now, p, buf, heq, -⟩
  · exact hsame.connected
  · exact hsame
  · exact absurd heq (hop o cqe now p buf)

theorem connected_of_step (hstep : l.step op = some l') (hconnected : l'.impl.connected = true) :
    l.impl.connected = true ∨ connects op = true := by
  rcases flags_step hstep with ⟨hsame, -⟩ | ⟨o, h, slot, now, -, -, hsame, -⟩ |
    ⟨o, cqe, now, p, buf, rfl, hafter, -⟩
  · exact .inl (hsame.connected.symm.trans hconnected)
  · exact .inl (hsame.symm.trans hconnected)
  · rw [hafter] at hconnected
    unfold StreamImpl.connectedAfter at hconnected
    split at hconnected
    · exact absurd hconnected (by simp)
    · split_ifs at hconnected
      exact .inl hconnected
    · split_ifs at hconnected with hres
      · exact .inl hconnected
      · exact .inr (by simpa [connects] using hres)
    · exact .inl hconnected

/-- The timer goes on until a completion that ends it for good. -/
theorem initiated_of_step (hstep : l.step op = some l')
    (hinit : l.impl.timeout.initiated = true) :
    l'.impl.timeout.initiated = !l.stops op := by
  have hother : (∀ cqe now p buf, op ≠ .process .timeout cqe now p buf) → l.stops op = false := by
    intro hop
    unfold stops
    split
    · exact absurd rfl (hop _ _ _ _)
    · rfl
  rcases timer_step hstep with ⟨hsame, -, -, hop⟩ | ⟨ts, rfl, -, hsame, -⟩ |
    ⟨-, -, hstop, -, -, hop⟩ | ⟨cqe, now, p, buf, rfl, hposts, -, htimeout, -⟩
  · rw [hother hop, hsame.timeout, hinit]
    rfl
  · rw [hsame, hinit]
    rfl
  · rw [hother hop, hstop]
    rfl
  · rw [htimeout]
    by_cases htick : StreamImpl.isTick cqe = true
    · rw [StreamImpl.timeoutAwaitProcessCqe_tick htick, (l.impl.tick_timer cqe now).2.1]
      split_ifs <;> simp [stops, htick, hinit]
    · by_cases hadjusted : cqe.res = -Errno.ECANCELED
      · by_cases hclosing : l.impl.timeout.cancelled = true <;>
          simp [StreamImpl.timeoutAwaitProcessCqe, stops, StreamImpl.armTimer, StreamImpl.addRef,
            htick, hadjusted, hclosing]
      · simp [StreamImpl.timeoutAwaitProcessCqe, stops, htick, hadjusted]

/-- **Nothing starts the timer again.** -/
theorem unwatched_step (hl : Counted 0 l) (hstep : l.step op = some l')
    (hdown : l.impl.timeout.initiated = false) : l'.impl.timeout.initiated = false := by
  rcases timer_step hstep with ⟨hsame, -⟩ | ⟨ts, -, -, hsame, -⟩ | ⟨hinit, -⟩ |
    ⟨cqe, now, p, buf, rfl, -⟩
  · rw [hsame.timeout, hdown]
  · rw [hsame, hdown]
  · exact absurd hinit (by simp [hdown])
  · have hup := (hl.flags.mem_iff (.inl rfl)).mp (mem_of_process hstep).1
    exact absurd (hdown.symm.trans hup) (by simp)

/-- The other requests are in flight as before. -/
theorem mem_step_process {g : FrameId} {cqe : Cqe} {now p : Nat} {buf : RecvBuffer}
    (hstep : l.step (.process f cqe now p buf) = some l') (hne : g ≠ f) (htimeout : g ≠ .timeout)
    (hcancel : g ≠ .timeoutCancel) : g ∈ l'.inFlight ↔ g ∈ l.inFlight := by
  have hqueued : g ∉ requests (l.queued (.process f cqe now p buf)) := fun hmem =>
    (process_requests hstep hmem).elim htimeout hcancel
  have hkept : g ∈ l.kept (.process f cqe now p buf) ↔ g ∈ l.inFlight := by
    simp only [kept, completed]
    split_ifs
    · exact Iff.rfl
    · exact List.mem_erase_of_ne hne
  rw [step_inFlight hstep, List.mem_append, hkept]
  simp [hqueued]

/-! ### The two directions -/

theorem excludes_of_starts (hstarts : l.starts op = true) :
    connects op = false ∧ l.stops op = false := by
  unfold starts at hstarts
  split at hstarts
  · exact ⟨rfl, rfl⟩
  · exact ⟨rfl, rfl⟩
  · exact absurd hstarts (by simp)

theorem excludes_of_stops (hstops : l.stops op = true) : connects op = false := by
  unfold stops at hstops
  split at hstops
  · rfl
  · exact absurd hstops (by simp)

theorem Supervised.step (hl : l.Supervised) (hwatched : l.Watched op)
    (hstep : l.step op = some l') : l'.Supervised := by
  intro hconnected hclose hbusy
  have hopen : .op .close ∉ l.inFlight := fun hmem =>
    (close_of_step hstep hmem).elim hclose (by simp [hconnected])
  have hbefore := connected_of_step hstep hconnected
  have hinit : l.impl.timeout.initiated = true := by
    rcases busy_of_step hstep hbusy with hbusy | hstarts
    · rcases hbefore with hconn | hconnects
      · exact hl hconn hopen hbusy
      · exact hwatched.connects hconnects hopen hbusy
    · have hconn := hbefore.resolve_right (by simp [(excludes_of_starts hstarts).1])
      exact hwatched.starts hstarts hconn hopen
  rw [initiated_of_step hstep hinit]
  by_contra hstops
  have hstops : l.stops op = true := by simpa using hstops
  have hconn := hbefore.resolve_right (by simp [excludes_of_stops hstops])
  refine hwatched.stops hstops hconn hopen ?_
  refine (busy_of_step hstep hbusy).resolve_right fun hstarts => ?_
  simp [(excludes_of_starts hstarts).2] at hstops

/-- What starts a receive or a send does so on the same connection. -/
theorem starts_step (hstarts : l.starts op = true) (hstep : l.step op = some l') :
    l'.impl.connected = l.impl.connected ∧ l'.Busy ∧
      (.op .close ∉ l.inFlight → .op .close ∉ l'.inFlight) := by
  have hstarts' := hstarts
  have hin := step_inFlight hstep
  unfold starts at hstarts'
  split at hstarts'
  · rename_i h slot now
    have hqueued : requests (l.queued (.await .recv h slot now)) = [.recv] := by
      rw [queued, awaitQueued_recv, if_pos hstarts]
    rw [hqueued] at hin
    refine ⟨connected_keeps hstep (by simp), .inl ?_, ?_⟩
    · simp [hin]
    · simp [hin, kept]
  · rename_i h slot now
    have hqueued : requests (l.queued (.await (.op .send) h slot now)) = [.op .send] := by
      rw [queued, awaitQueued_send, if_pos hstarts]
    rw [hqueued] at hin
    refine ⟨connected_keeps hstep (by simp), .inr ?_, ?_⟩
    · simp [hin]
    · simp [hin, kept]
  · exact absurd hstarts' (by simp)

theorem Supervised.watched (hl' : l'.Supervised) (hcount : Counted 0 l)
    (hstep : l.step op = some l') : l.Watched op := by
  have hback : l'.impl.timeout.initiated = true → l.impl.timeout.initiated = true := by
    intro hup
    by_contra hdown
    exact absurd (unwatched_step hcount hstep (by simpa using hdown)) (by simp [hup])
  refine ⟨fun hstarts hconn hopen => ?_, fun hconnects hopen hbusy => ?_,
    fun hstops hconn hopen hbusy => ?_⟩
  · obtain ⟨hsame, hbusy, hclose⟩ := starts_step hstarts hstep
    exact hback (hl' (hsame.trans hconn) (hclose hopen) hbusy)
  · unfold connects at hconnects
    split at hconnects
    · rename_i cqe now p buf
      have hmem : ∀ g, g ≠ .op .connect → g ≠ .timeout → g ≠ .timeoutCancel →
          (g ∈ l'.inFlight ↔ g ∈ l.inFlight) := fun g => mem_step_process hstep
      have hconn : l'.impl.connected = true := by
        rcases flags_step hstep with ⟨-, -, hprocess⟩ | ⟨o, h, slot, now', -, heq, -⟩ |
          ⟨o, cqe', now', p', buf', heq, hconn, -⟩
        · exact absurd rfl (hprocess _ _ _ _ _)
        · exact absurd heq (by simp)
        · obtain ⟨rfl, rfl, -⟩ : Op.connect = o ∧ cqe = cqe' ∧ _ := by simpa using heq
          have hres : ¬cqe.res < 0 := by simpa using hconnects
          rw [hconn, StreamImpl.connectedAfter, if_neg hres]
      refine hback (hl' hconn ?_ ?_)
      · rwa [hmem _ (by simp) (by simp) (by simp)]
      · rwa [Busy, hmem .recv (by simp) (by simp) (by simp), hmem (.op .send) (by simp) (by simp)
          (by simp)]
    · exact absurd hconnects (by simp)
  · unfold stops at hstops
    split at hstops
    · rename_i cqe now p buf
      have hmem : ∀ g, g ≠ .timeout → g ≠ .timeoutCancel →
          (g ∈ l'.inFlight ↔ g ∈ l.inFlight) := fun g hne => mem_step_process hstep hne hne
      have hup : l'.impl.timeout.initiated = true := by
        refine hl' ((connected_keeps hstep (by simp)).trans hconn) ?_ ?_
        · rwa [hmem _ (by simp) (by simp)]
        · rwa [Busy, hmem .recv (by simp) (by simp), hmem (.op .send) (by simp) (by simp)]
      rw [initiated_of_step hstep (hback hup)] at hup
      simp only [stops, hstops] at hup
      exact absurd hup (by simp)
    · exact absurd hstops (by simp)

end Life

open Life in
/-- **A connected stream is supervised in exactly those histories** in which no receive or send
goes on after the timer is over for good. -/
theorem life_supervised (o : Origin) (now : Nat) (ops : List LifeOp) :
    Along Life.step Supervised (Life.created o now) ops ↔
      StepsMeet Life.step Watched (Life.created o now) ops :=
  along_iff_stepsMeet (I := fun l => Supervised l ∧ Counted 0 l) (fun _ hl => hl.1)
    (fun _ _ _ hl hwatched hstep => ⟨hl.1.step hwatched hstep, hl.2.step hstep⟩)
    (fun _ _ _ hl hstep hl' => hl'.watched hl.2 hstep)
    ⟨fun _ _ hbusy => by cases o <;> simp [Busy, Life.created, Life.new] at hbusy,
      counted_created o now⟩

/-- **A second connection is not supervised**: the close of the first has ended the timer. Nor is
a multishot receive that goes on while the last handle goes. -/
theorem life_unsupervised :
    ¬Along Life.step Life.Supervised (Life.created .client 0)
        [.newAwaitable (.op .connect), .await (.op .connect) 1 (some 5) 0,
          .process (.op .socket) ⟨0, false, none⟩ 0 0 .defaulted,
          .process (.op .connect) ⟨0, false, none⟩ 0 0 .defaulted, .resume 1 (.op .connect),
          .newAwaitable (.op .close), .await (.op .close) 1 none 0,
          .process (.op .close) ⟨0, false, none⟩ 0 0 .defaulted,
          .process .timeout ⟨-125, false, none⟩ 0 0 .defaulted, .resume 1 (.op .close),
          .await (.op .connect) 1 (some 5) 0,
          .process (.op .socket) ⟨0, false, none⟩ 0 0 .defaulted,
          .process (.op .connect) ⟨0, false, none⟩ 0 0 .defaulted, .resume 1 (.op .connect),
          .setBufferGroup 1, .newAwaitable .recv, .await .recv 1 none 0] ∧
      ¬Along Life.step Life.Supervised (Life.created (.accepted 5) 0)
        [.setBufferGroup 1, .newAwaitable .recv, .await .recv 1 none 0,
          .process .recv ⟨5, true, some 0⟩ 0 0 (.alloc 0 8), .resume 1 .recv, .dropAwaitable .recv,
          .destroyHandle false, .process .timeout ⟨-125, false, none⟩ 0 0 .defaulted] := by
  constructor
  · intro h
    exact absurd ((h.last rfl) rfl (by decide) (.inl (by decide))) (by decide)
  · intro h
    exact absurd ((h.last rfl) rfl (by decide) (.inl (by decide))) (by decide)

end Fiona
