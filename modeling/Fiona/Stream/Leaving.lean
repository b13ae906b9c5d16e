import Fiona.Stream.Counting

/-!
# No stream outlives its users

The timer renews its own reference on every tick, and a multishot receive on every
completion, so an object whose user-side references are gone stays as long as these two
run. Their cancels are queued by the destructor of a handle that finds itself the last, and
by nothing else that a reference can go by. The object is let go of in exactly those
histories in which the last reference goes by such a destructor, or at a time when the
timer and the receive are over or about to be (`Fiona.Life.Settled`), and in which the
timer does not arm itself anew after that (`Fiona.Life.Parts`).
-/

namespace Fiona

open Transition

namespace Life

variable {l l' : Life} {h : Coro} {f : FrameId} {op : LifeOp} {ops : List LifeOp}

/-- The timer and the receive, as far as they are in flight, are about to end: their cancels
have been queued, and the timer will be taken for cancelled and not for adjusted. -/
structure Settled (l : Life) : Prop where
  timer : .timeout ∈ l.inFlight → l.timerRemoved = true ∧ l.impl.timeout.cancelled = true
  recv : .recv ∈ l.inFlight → l.recvCancelled = true

instance : Decidable (Settled l) :=
  decidable_of_iff ((.timeout ∈ l.inFlight → l.timerRemoved = true ∧
    l.impl.timeout.cancelled = true) ∧ (.recv ∈ l.inFlight → l.recvCancelled = true))
    ⟨fun h => ⟨h.1, h.2⟩, fun h => ⟨h.1, h.2⟩⟩

/-- The last completion of a request, which the timer owes to its removal. -/
def final : LifeOp → Option FrameId
  | .process f cqe _ _ _ =>
    if cqe.more = false ∧ (f = .timeout → cqe.res = -Errno.ECANCELED) then some f else none
  | _ => none

/-- The last completions of all requests in flight, in some order. -/
def Drains (l : Life) (ops : List LifeOp) : Prop := (ops.map final).Perm (l.inFlight.map some)

/-- **The object is let go of**: when its users are gone the cancels have been queued, and
once the last completions are processed it is destroyed, and its descriptor and no other has been
given back by them, once. -/
structure LetGo (l : Life) : Prop where
  settled : l.users = 0 → Settled l
  ends : l.users = 0 → ∀ ops, l.Drains ops →
    ∃ l', run Life.step l ops = some l' ∧ l'.impl.count = 0 ∧ l'.impl.fd < 0 ∧
      ∃ more, l'.released = l.released ++ more ∧ more.filter (0 ≤ ·) = [l.impl.fd].filter (0 ≤ ·)

/-- How the last reference may go: by the destructor of a handle that finds itself the last, or
when there is nothing left to cancel. Afterwards the timer, if it ticks at all, goes on. -/
def Parts (l : Life) : LifeOp → Prop
  | .assignOver | .dropAwaitable _ => l.users = 1 → Settled l
  | .destroyHandle asClient => l.users = 1 → l.impl.isLast asClient = true ∨ Settled l
  | .process .timeout cqe _ _ _ => l.users = 0 → StreamImpl.isTick cqe = true → cqe.more = true
  | _ => True

/-! ### Steps -/

/-- What holds of every object: it is counted, and a destroyed one has no descriptor. -/
structure Sound (l : Life) : Prop where
  counted : Counted 0 l
  gone : l.impl.count = 0 → l.impl.fd < 0

theorem sound_new (client : Bool) (fd : Int) (now : Nat) : Sound (new client fd now) :=
  ⟨counted_new client fd now, fun hzero => absurd hzero (by simp [new, StreamImpl.new])⟩

/-- The reference that goes last takes the descriptor along. -/
theorem release_fd_of_count : l.release.impl.count = 0 → l.release.impl.fd < 0 := by
  unfold Life.release StreamImpl.release StreamImpl.destructor
  dsimp only
  split_ifs with hzero hfd
  · simp
  · exact fun _ => by simpa using hfd
  · exact fun hcon => absurd hcon hzero

/-- A reference that goes takes the descriptor along or leaves it. -/
theorem release_slot :
    l.release.impl.fd = l.impl.fd ∧ l.release.released = l.released ∨
      l.release.impl.fd = -1 ∧ l.release.released = l.released ++ [l.impl.fd] := by
  unfold Life.release StreamImpl.release StreamImpl.destructor
  dsimp only
  split_ifs with hzero hfd <;> simp

theorem Settled.congr (hl : Settled l) (htimeout : l'.impl.timeout = l.impl.timeout)
    (hin : ∀ f ∈ renewing, f ∈ l'.inFlight → f ∈ l.inFlight)
    (htimer : l'.timerRemoved = l.timerRemoved) (hrecv : l'.recvCancelled = l.recvCancelled) :
    Settled l' :=
  ⟨fun hmem => by simpa [htimer, htimeout] using hl.timer (hin _ (.inl rfl) hmem),
    fun hmem => by simpa [hrecv] using hl.recv (hin _ (.inr rfl) hmem)⟩

theorem settled_release : Settled l.release ↔ Settled l := by
  have htimeout := l.impl.release_keeps.2.2.2.2
  exact ⟨fun hl => hl.congr htimeout.symm (fun _ _ => id) rfl rfl,
    fun hl => hl.congr htimeout (fun _ _ => id) rfl rfl⟩

/-- The destructor of an awaitable queues no cancel of the timer or the receive. -/
theorem settled_dropAwaitable :
    Settled ({ l with awaitables := l.awaitables.erase f }.queue (l.impl.awaitableDestructor f)) ↔
      Settled l := by
  have htimer : .timeoutRemove ∉ l.impl.awaitableDestructor f := by
    unfold StreamImpl.awaitableDestructor StreamImpl.sendAwaitableDestructor
      StreamImpl.connectAwaitableDestructor
    split <;> (try split_ifs) <;> simp
  have hrecv : .cancelOp .recv ∉ l.impl.awaitableDestructor f := by
    unfold StreamImpl.awaitableDestructor StreamImpl.sendAwaitableDestructor
      StreamImpl.connectAwaitableDestructor
    split <;> (try split_ifs) <;> simp
  have hreq := l.impl.awaitableDestructor_requests f
  constructor
  · exact fun hl => hl.congr rfl (by simp [queue, hreq]) (by simp [queue, hreq, htimer])
      (by simp [queue, hreq, hrecv])
  · exact fun hl => hl.congr rfl (by simp [queue, hreq]) (by simp [queue, hreq, htimer])
      (by simp [queue, hreq, hrecv])

/-- **The destructor of the last handle cancels the timer and the receive.** -/
theorem settled_destructor (hl : Counted 0 l) {asClient : Bool}
    (hlast : l.impl.isLast asClient = true) :
    Settled ({ l with handles := l.handles - 1 }.update (l.impl.handleDestructor asClient)) := by
  have hreq := (l.impl.handleDestructor_calls asClient).ops
  have htimer : .timeout ∈ l.inFlight ↔ l.impl.timeout.initiated = true :=
    hl.flags.mem_iff (.inl rfl)
  have hrecv : .recv ∈ l.inFlight ↔ l.impl.recv.initiated = true := hl.flags.mem_iff (.inr rfl)
  refine ⟨fun hmem => ?_, fun hmem => ?_⟩
  · have hin : .timeout ∈ l.inFlight := by
      simp only [Life.update, queue, List.mem_append] at hmem
      exact hmem.resolve_right fun hcon => by simpa using hreq _ hcon
    have hinit := htimer.mp hin
    simp [Life.update, queue, StreamImpl.handleDestructor, hlast,
      StreamImpl.queueTimerCancel, hinit]
  · have hin : .recv ∈ l.inFlight := by
      simp only [Life.update, queue, List.mem_append] at hmem
      exact hmem.resolve_right fun hcon => by simpa using hreq _ hcon
    have hinit := hrecv.mp hin
    have hsame : l.impl.queueTimerCancel.1.recv = l.impl.recv :=
      StreamImpl.queueTimerCancel_calls.recv
    simp [Life.update, queue, StreamImpl.handleDestructor, hlast, StreamImpl.cancelRecv,
      hsame, hinit]

/-- A destructor that does not find itself the last cancels nothing. -/
theorem settled_destructor_of_not {asClient : Bool} (hlast : l.impl.isLast asClient = false) :
    Settled ({ l with handles := l.handles - 1 }.update (l.impl.handleDestructor asClient)) ↔
    Settled l := by
  have hnone : l.impl.handleDestructor asClient = (l.impl, []) := by
    simp [StreamImpl.handleDestructor, hlast]
  rw [hnone]
  constructor
  · exact fun hl => hl.congr rfl (by simp [Life.update, queue]) (by simp [Life.update, queue])
      (by simp [Life.update, queue])
  · exact fun hl => hl.congr rfl (by simp [Life.update, queue]) (by simp [Life.update, queue])
      (by simp [Life.update, queue])

/-- Awaiting brings no reference of the user's side and takes none. -/
theorem await_users {slot : Option Nat} {now : Nat} (hstep : l.await h slot now f = some l') :
    l'.users = l.users := by
  unfold Life.await at hstep
  split at hstep
  case h_4 =>
    split at hstep <;> obtain rfl := Option.some.inj hstep <;> rfl
  case h_5 =>
    obtain rfl := Option.some.inj hstep
    unfold awaitConnect
    split_ifs <;> rfl
  case h_6 =>
    obtain rfl := Option.some.inj hstep
    unfold awaitRecv
    split_ifs
    · rfl
    · split <;> rfl
  all_goals first
    | (obtain rfl := Option.some.inj hstep; rfl)
    | exact absurd hstep (by simp)

/-- The steps by which a reference goes. -/
def releases : LifeOp → Bool
  | .assignOver | .destroyHandle _ | .dropAwaitable _ | .process .. => true
  | _ => false

/-- The others need a user, and the user stays. -/
theorem users_pos (hl : Sound l) (hstep : l.step op = some l') (hkeeps : releases op = false) :
    0 < l'.users := by
  unfold Life.step at hstep
  split_ifs at hstep with hop
  have hallows := hop.2
  cases op with
  | assignOver | destroyHandle _ | dropAwaitable _ | process => exact Bool.noConfusion hkeeps
  | copyHandle =>
    obtain rfl := Option.some.inj hstep
    simp only [users]
    omega
  | moveHandle =>
    obtain rfl := Option.some.inj hstep
    have hpos : 0 < l.handles := by simpa [allows] using hallows
    simp only [users]
    omega
  | newAwaitable f =>
    obtain rfl := Option.some.inj hstep
    simp only [users, List.length_cons]
    omega
  | await f h slot now =>
    simp only [allows, Bool.and_eq_true, decide_eq_true_eq] at hallows
    rw [await_users hstep, users]
    have := List.length_pos_of_mem hallows.1.1.1
    omega
  | resume h f =>
    simp only [allows, Bool.and_eq_true, decide_eq_true_eq] at hallows
    obtain rfl := Option.some.inj hstep
    -- a coroutine suspended in an awaitable keeps it there
    have hheld := hl.counted.held f
    have hpos : 0 < (l.suspended.map Prod.snd).count f :=
      List.count_pos_iff.mpr (List.mem_map_of_mem (f := Prod.snd) hallows.1)
    have hmem : f ∈ l.awaitables := List.count_pos_iff.mp (by omega)
    have := List.length_pos_of_mem hmem
    simp only [users]
    omega
  | setTimeout ts =>
    obtain rfl := Option.some.inj hstep
    have hpos : 0 < l.handles := by simpa [allows] using hallows
    simp only [users, Life.update, queue]
    omega
  | setBufferGroup g =>
    obtain rfl := perform_setBufferGroup hstep
    have hpos : 0 < l.handles := by simpa [allows] using hallows
    simp only [users]
    omega

/-- The object after a completion, before its reference goes, as a step sees it. -/
theorem process_cases {cqe : Cqe} {now p : Nat} {buf : RecvBuffer}
    (hstep : l.step (.process f cqe now p buf) = some l') :
    f ∈ l.inFlight ∧ posts f cqe = true ∧ ∃ s' x slot q,
      processCqe l.impl cqe now p buf f = some (s', x, slot, q) ∧
        l' = (l.processed f cqe s' x slot q).release := by
  unfold Life.step at hstep
  split_ifs at hstep with hop
  obtain ⟨-, hallows⟩ := hop
  simp only [allows, Bool.and_eq_true, decide_eq_true_eq] at hallows
  obtain ⟨s', x, slot, q, hp, rfl⟩ := perform_process hstep
  exact ⟨hallows.1, hallows.2, s', x, slot, q, hp, rfl⟩

/-- A tick over an object whose timer is to end leaves it to end, if the timer goes on. -/
theorem Settled.process {s' : StreamImpl} {cqe : Cqe} {now p : Nat} {buf : RecvBuffer}
    {x : Option Coro} {slot : Option Int} {q : List Sqe} (hl : Settled l) (hcount : Counted 0 l)
    (hin : f ∈ l.inFlight) (hposts : posts f cqe = true)
    (hgoes : f = .timeout → StreamImpl.isTick cqe = true → cqe.more = true)
    (hp : processCqe l.impl cqe now p buf f = some (s', x, slot, q)) :
    Settled (l.processed f cqe s' x slot q) := by
  have hsub : ∀ g ∈ l.completed f cqe, g ∈ l.inFlight := by
    intro g hg
    unfold completed at hg
    split_ifs at hg
    · exact hg
    · exact List.mem_of_mem_erase hg
  by_cases hf : f = .timeout
  · subst hf
    have hnew := hcount.process hin hposts hp
    have htick := posts_timeout hposts
    simp only [processCqe, Option.some.injEq, Prod.mk.injEq] at hp
    obtain ⟨rfl, -, -, rfl⟩ := hp
    rcases l.impl.timeoutAwaitProcessCqe_cases htick now with
      ⟨t, heq, hdown, -⟩ | ⟨-, hadjusted, -⟩ | ⟨heq, hisTick⟩
    · refine ⟨fun hmem => ?_, fun hmem => ?_⟩
      · have hup := (hnew.flags.mem_iff (.inl rfl)).mp hmem
        rw [heq] at hup
        exact absurd hdown (by simpa [processed, Life.update, queue, StreamImpl.isActive] using hup)
      · simp only [processed, Life.update, queue, heq] at hmem ⊢
        simpa using hl.recv (hsub _ (by simpa using hmem))
    · exact absurd hadjusted (by simp [(hl.timer hin).2])
    · have hmore := hgoes rfl hisTick
      obtain ⟨-, -, -, hkeeps⟩ := l.impl.tickCancel_keeps now
      have hreq : requests (l.impl.tickCancel now).2 = [] ∨
          requests (l.impl.tickCancel now).2 = [.timeoutCancel] := by
        rcases l.impl.tickCancel_cases now with hnone | ⟨-, hone, -⟩
        · exact .inl (by rw [hnone]; rfl)
        · exact .inr hone
      have hsqe : .timeoutRemove ∉ (l.impl.tickCancel now).2 ∧
          .cancelOp .recv ∉ (l.impl.tickCancel now).2 := by
        unfold StreamImpl.tickCancel
        split_ifs <;> simp
      refine hl.congr ?_ ?_ ?_ ?_
      · simpa [processed, Life.update, queue, heq, StreamImpl.tick, hmore] using hkeeps
      · rintro g (rfl | rfl) hg <;> refine hsub _ ?_ <;> rcases hreq with hreq | hreq <;>
          simpa [processed, Life.update, queue, heq, StreamImpl.tick, hmore, hreq] using hg
      · rcases hreq with hreq | hreq <;>
          simp [processed, Life.update, queue, heq, StreamImpl.tick, hmore, hreq, hsqe]
      · rcases hreq with hreq | hreq <;>
          simp [processed, Life.update, queue, heq, StreamImpl.tick, hmore, hreq, hsqe]
  · obtain ⟨hs', rfl⟩ := processCqe_completes hf hposts hp
    exact hl.congr hs'.timeout (fun g _ hg =>
      hsub g (by simpa [processed, Life.update, queue] using hg))
      (by simp [processed, Life.update, queue]) (by simp [processed, Life.update, queue])

/-! ### Draining -/

/-- What is given back is the descriptor, unless the object still has it. -/
def GivesBack (l l' : Life) : Prop :=
  ∃ more, l'.released = l.released ++ more ∧
    (more ++ [l'.impl.fd]).filter (0 ≤ ·) = [l.impl.fd].filter (0 ≤ ·)

theorem GivesBack.refl (l : Life) : GivesBack l l := ⟨[], (List.append_nil _).symm, rfl⟩

theorem GivesBack.trans {l'' : Life} (h : GivesBack l l') (h' : GivesBack l' l'') :
    GivesBack l l'' := by
  obtain ⟨more, hreleased, hfilter⟩ := h
  obtain ⟨more', hreleased', hfilter'⟩ := h'
  refine ⟨more ++ more', by rw [hreleased', hreleased, List.append_assoc], ?_⟩
  rw [List.append_assoc, List.filter_append, hfilter', ← List.filter_append, hfilter]

theorem GivesBack.process {s' : StreamImpl} {cqe : Cqe} {now p : Nat} {buf : RecvBuffer}
    {x : Option Coro} {slot : Option Int} {q : List Sqe} (hposts : posts f cqe = true)
    (hp : processCqe l.impl cqe now p buf f = some (s', x, slot, q)) :
    GivesBack l (l.processed f cqe s' x slot q) := by
  rcases processCqe_slot hposts hp with ⟨rfl, hfd⟩ | ⟨rfl, hfd⟩
  · exact ⟨[], rfl, by simp [processed, Life.update, queue, hfd]⟩
  · refine ⟨[l.impl.fd], rfl, ?_⟩
    have hnone : (processed l f cqe s' x (some l.impl.fd) q).impl.fd = -1 := hfd
    rw [hnone]
    rfl

theorem GivesBack.release (l : Life) : GivesBack l l.release := by
  rcases l.release_slot with ⟨hfd, hreleased⟩ | ⟨hfd, hreleased⟩
  · exact ⟨[], hreleased.trans (List.append_nil _).symm, by rw [hfd]; rfl⟩
  · exact ⟨[l.impl.fd], hreleased, by rw [hfd]; rfl⟩

/-- No completion that the kernel may post fails to be processed. -/
theorem processCqe_isSome (hl : Counted 0 l) (hin : f ∈ l.inFlight) (cqe : Cqe) (now p : Nat)
    (buf : RecvBuffer) : ∃ r, processCqe l.impl cqe now p buf f = some r := by
  cases f with
  | recv =>
    have hec : l.impl.recv.ec = none := hl.clear ((hl.flags.mem_iff (.inr rfl)).mp hin)
    have hrf :
        ∃ rf, l.impl.recv.awaitProcessCqe l.impl.streamCancelled cqe now p buf = some rf := by
      unfold RecvFrame.awaitProcessCqe
      split_ifs with hneg hcon
      · simp [hec] at hcon
      · exact ⟨_, rfl⟩
      · exact ⟨_, rfl⟩
      · exact ⟨_, rfl⟩
    obtain ⟨rf, hrf⟩ := hrf
    exact ⟨_, by simp [processCqe, StreamImpl.recvAwaitProcessCqe, hrf]; rfl⟩
  | _ => exact ⟨_, rfl⟩

/-- The last completion of one request, on an object whose users are gone. -/
theorem final_step (hl : Sound l) (husers : l.users = 0) (hsettled : Settled l)
    (hfinal : final op = some f) (hin : f ∈ l.inFlight) :
    ∃ l', l.step op = some l' ∧ Sound l' ∧ l'.users = 0 ∧ Settled l' ∧
      l'.inFlight = l.inFlight.erase f ∧ GivesBack l l' := by
  cases op with
  | process g cqe now p buf =>
    simp only [final] at hfinal
    split_ifs at hfinal with hlast
    obtain rfl := Option.some.inj hfinal
    obtain ⟨hmore, hcancelled⟩ := hlast
    have hposts : posts g cqe = true := by simp [posts, hmore]
    have hcount : l.impl.count ≠ 0 := by
      have := hl.counted.count
      have := List.length_pos_of_mem hin
      omega
    obtain ⟨⟨s', x, slot, q⟩, hp⟩ := processCqe_isSome hl.counted hin cqe now p buf
    have hstep :
        l.step (.process g cqe now p buf) = some (l.processed g cqe s' x slot q).release := by
      rw [Life.step, if_pos ⟨hcount, by simp [allows, hin, hposts]⟩]
      simp [perform, hp]
      rfl
    have hgoes : g = .timeout → StreamImpl.isTick cqe = true → cqe.more = true := by
      intro hg htick
      simp [StreamImpl.not_isTick_of_canceled (hcancelled hg)] at htick
    have hreq : requests q = [] := by
      by_cases hg : g = .timeout
      · subst hg
        have hres := hcancelled rfl
        simp only [processCqe, Option.some.injEq, Prod.mk.injEq] at hp
        obtain ⟨-, -, -, rfl⟩ := hp
        simp [StreamImpl.timeoutAwaitProcessCqe, hres, (hsettled.timer hin).2]
      · rw [(processCqe_completes hg hposts hp).2]
        rfl
    refine ⟨_, hstep, ⟨hl.counted.step hstep, release_fd_of_count⟩, husers,
      settled_release.mpr (hsettled.process hl.counted hin hposts hgoes hp), ?_,
      (GivesBack.process hposts hp).trans (.release _)⟩
    simp [Life.release, processed, Life.update, queue, hreq, completed, hmore]
  | _ => exact absurd hfinal (by simp [final])

/-- **The last completions destroy the object**, in whatever order they come. -/
theorem drains (hl : Sound l) (husers : l.users = 0) (hsettled : Settled l)
    (hdrains : l.Drains ops) : ∃ l', run Life.step l ops = some l' ∧ Sound l' ∧ l'.impl.count = 0 ∧
      GivesBack l l' := by
  induction ops generalizing l with
  | nil =>
    have hnone : l.inFlight = [] :=
      List.length_eq_zero_iff.mp (by simpa using hdrains.length_eq.symm)
    have hcount := hl.counted.count
    rw [husers, hnone] at hcount
    exact ⟨l, rfl, hl, hcount, .refl l⟩
  | cons op ops ih =>
    have hmem : final op ∈ l.inFlight.map some := hdrains.subset (by simp)
    obtain ⟨f, hin, hfinal⟩ := List.mem_map.mp hmem
    obtain ⟨l₁, hstep, hsound, husers₁, hsettled₁, herase, hback⟩ :=
      final_step hl husers hsettled hfinal.symm hin
    have hrest : l₁.Drains ops := by
      have hcons : (final op :: ops.map final).Perm (l.inFlight.map some) := hdrains
      have hsplit : (l.inFlight.map some).Perm (some f :: (l.inFlight.erase f).map some) :=
        (List.perm_cons_erase hin).map some
      rw [Drains, herase]
      exact (hfinal ▸ hcons.trans hsplit).cons_inv
    obtain ⟨l', hrun, hsound', hcount, hback'⟩ := ih hsound husers₁ hsettled₁ hrest
    exact ⟨l', run_cons_eq_some.mpr ⟨l₁, hstep, hrun⟩, hsound', hcount, hback.trans hback'⟩

/-! ### Histories -/

/-- What the condition keeps. -/
structure Leaving (l : Life) : Prop where
  sound : Sound l
  settled : l.users = 0 → Settled l

theorem Leaving.letGo (hl : Leaving l) : LetGo l := by
  refine ⟨hl.settled, fun husers ops hdrains => ?_⟩
  obtain ⟨l', hrun, hsound, hcount, more, hreleased, hmore⟩ :=
    drains hl.sound husers (hl.settled husers) hdrains
  have hgone := hsound.gone hcount
  refine ⟨l', hrun, hcount, hgone, more, hreleased, ?_⟩
  have hnone : [l'.impl.fd].filter (0 ≤ ·) = [] := by simpa using hgone
  rwa [List.filter_append, hnone, List.append_nil] at hmore

theorem Sound.step (hl : Sound l) (hstep : l.step op = some l') : Sound l' := by
  have hcount := hl.counted.step hstep
  refine ⟨hcount, fun hzero => ?_⟩
  cases hrel : releases op with
  | false =>
    have hpos := users_pos hl hstep hrel
    have := hcount.count
    omega
  | true =>
    unfold Life.step at hstep
    split_ifs at hstep with hop
    cases op with
    | assignOver | destroyHandle _ | dropAwaitable _ =>
      obtain rfl := Option.some.inj hstep
      exact release_fd_of_count hzero
    | process f cqe now p buf =>
      obtain ⟨s', x, slot, q, -, rfl⟩ := perform_process hstep
      exact release_fd_of_count hzero
    | _ => exact Bool.noConfusion hrel

/-- A reference of the user's side, or one of a request. -/
theorem users_of_releases (hstep : l.step op = some l') :
    (op = .assignOver → l.users = l'.users + 1) ∧
      (∀ c, op = .destroyHandle c → l.users = l'.users + 1) ∧
      (∀ f, op = .dropAwaitable f → l.users = l'.users + 1) := by
  unfold Life.step at hstep
  split_ifs at hstep with hop
  have hallows := hop.2
  refine ⟨?_, ?_, ?_⟩
  · rintro rfl
    have hpos : 0 < l.handles := by simpa [allows] using hallows
    obtain rfl := Option.some.inj hstep
    simp only [users, Life.release]
    omega
  · rintro c rfl
    simp only [allows, Bool.and_eq_true, decide_eq_true_eq] at hallows
    obtain rfl := Option.some.inj hstep
    simp only [users, Life.release, Life.update, queue]
    omega
  · rintro f rfl
    have hmem : f ∈ l.awaitables := by
      have hfree : (l.suspended.map Prod.snd).count f < l.awaitables.count f := by
        simpa [allows] using hallows
      exact List.count_pos_iff.mp (by omega)
    obtain rfl := Option.some.inj hstep
    have := List.length_erase_of_mem hmem
    have := List.length_pos_of_mem hmem
    simp only [users, Life.release, queue]
    omega

/-- What a step that takes a reference leaves of what is settled. -/
theorem settled_iff_parts (hl : Leaving l) (hstep : l.step op = some l') (hrel : releases op = true)
    (husers : l'.users = 0) : Settled l' ↔ l.Parts op := by
  have hcounted := hl.sound.counted
  obtain ⟨hassign, hdestroy, hdrop⟩ := users_of_releases hstep
  cases op with
  | assignOver =>
    have hone : l.users = 1 := by rw [hassign rfl, husers]
    unfold Life.step at hstep
    split_ifs at hstep with hop
    obtain rfl := Option.some.inj hstep
    rw [settled_release]
    exact ⟨fun h _ => h.congr rfl (fun _ _ => id) rfl rfl,
      fun h => (h hone).congr rfl (fun _ _ => id) rfl rfl⟩
  | destroyHandle asClient =>
    have hone : l.users = 1 := by rw [hdestroy _ rfl, husers]
    unfold Life.step at hstep
    split_ifs at hstep with hop
    obtain rfl := Option.some.inj hstep
    rw [settled_release]
    cases hlast : l.impl.isLast asClient with
    | true => exact ⟨fun _ _ => .inl hlast, fun _ => settled_destructor hcounted hlast⟩
    | false =>
      rw [settled_destructor_of_not hlast]
      exact ⟨fun h _ => .inr h, fun h => (h hone).resolve_left (by simp [hlast])⟩
  | dropAwaitable f =>
    have hone : l.users = 1 := by rw [hdrop _ rfl, husers]
    unfold Life.step at hstep
    split_ifs at hstep with hop
    obtain rfl := Option.some.inj hstep
    rw [settled_release, settled_dropAwaitable]
    exact ⟨fun h _ => h, fun h => h hone⟩
  | process f cqe now p buf =>
    obtain ⟨hin, hposts, s', x, slot, q, hp, rfl⟩ := process_cases hstep
    have hzero : l.users = 0 := husers
    rw [settled_release]
    constructor
    · intro hsettled
      cases f with
      | timeout =>
        intro _ htick
        by_contra hmore
        simp only [processCqe, StreamImpl.timeoutAwaitProcessCqe_tick htick, Option.some.injEq,
          Prod.mk.injEq] at hp
        obtain ⟨rfl, -, -, rfl⟩ := hp
        -- the timer is armed, and its removal belongs to the request before
        have harmed := hsettled.timer (by
          simp [processed, Life.update, queue, StreamImpl.tick, hmore])
        have hsqe : .timeoutRemove ∉ (l.impl.tickCancel now).2 := by
          unfold StreamImpl.tickCancel
          split_ifs <;> simp
        simp [processed, Life.update, queue, StreamImpl.tick, hmore, StreamImpl.armTimer,
          hsqe] at harmed
      | _ => trivial
    · intro hparts
      exact (hl.settled hzero).process hcounted hin hposts
        (fun hf => by subst hf; exact hparts hzero) hp
  | _ => exact Bool.noConfusion hrel

theorem Leaving.step (hl : Leaving l) (hparts : l.Parts op) (hstep : l.step op = some l') :
    Leaving l' := by
  refine ⟨hl.sound.step hstep, fun husers => ?_⟩
  cases hrel : releases op with
  | true => exact (settled_iff_parts hl hstep hrel husers).mpr hparts
  | false =>
    have hpos := users_pos hl.sound hstep hrel
    omega

/-- **An object that is let go of has parted as it should.** -/
theorem Leaving.parts (hl : Leaving l) (hstep : l.step op = some l') (hl' : LetGo l') :
    l.Parts op := by
  by_cases husers : l'.users = 0
  · cases hrel : releases op with
    | true => exact (settled_iff_parts hl hstep hrel husers).mp (hl'.settled husers)
    | false =>
      have hpos := users_pos hl.sound hstep hrel
      omega
  · -- a user stays, and nothing is asked
    obtain ⟨hassign, hdestroy, hdrop⟩ := users_of_releases hstep
    cases op with
    | assignOver =>
      have := hassign rfl
      exact fun hone => by omega
    | destroyHandle c =>
      have := hdestroy c rfl
      exact fun hone => by omega
    | dropAwaitable f =>
      have := hdrop f rfl
      exact fun hone => by omega
    | process f cqe now p buf =>
      obtain ⟨-, -, s', x, slot, q, -, rfl⟩ := process_cases hstep
      cases f with
      | timeout => exact fun hzero => absurd hzero husers
      | _ => trivial
    | _ => trivial

end Life

open Life in
/-- **A stream is let go of in exactly those histories** in which its last reference goes as it
should and its timer is not armed anew after that. -/
theorem life_letGo (client : Bool) (fd : Int) (now : Nat) (ops : List LifeOp) :
    Along Life.step LetGo (Life.new client fd now) ops ↔
      StepsMeet Life.step Parts (Life.new client fd now) ops :=
  along_iff_stepsMeet (I := Leaving) (fun _ hl => hl.letGo)
    (fun _ _ _ hl hparts hstep => hl.step hparts hstep)
    (fun _ _ _ hl hstep hl' => hl.parts hstep hl')
    ⟨sound_new client fd now, fun husers => absurd husers (by simp [Life.new, users])⟩

/-- **A stream outlives its users** when another client is assigned over its only handle, when
its handle is destroyed before an awaitable that was never awaited, and when the timer's
last tick comes after its removal was queued. -/
theorem life_outlives :
    ¬Along Life.step Life.LetGo (Life.new true 0 0) [.assignOver] ∧
      ¬Along Life.step Life.LetGo (Life.new false 5 0)
        [.newAwaitable .recv, .destroyHandle false, .dropAwaitable .recv] ∧
      ¬Along Life.step Life.LetGo (Life.new false 5 0)
        [.destroyHandle false, .process .timeout ⟨-62, false, none⟩ 3000000000 0 .defaulted] := by
  refine ⟨fun h => ?_, fun h => ?_, fun h => ?_⟩
  · exact absurd (((h.last rfl).settled rfl).timer (by decide)) (by decide)
  · exact absurd (((h.last rfl).settled rfl).timer (by decide)) (by decide)
  · exact absurd (((h.last rfl).settled rfl).timer (by decide)) (by decide)

end Fiona
