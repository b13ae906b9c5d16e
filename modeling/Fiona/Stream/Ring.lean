import Fiona.Stream.Counting

/-!
# A stream and its ring

The life of a stream (`Fiona.Life`) with the two queues it shares with the kernel. What a
call queues waits in the submission queue, in order, and the kernel takes the entries one
at a time: a timer that is taken reads `ts_` then, a removal ends the timer that is armed, and a
cancel ends the receive that is armed on its descriptor. The completions of the timer and
of the receive wait in the order they were posted in.

Of the other requests only this is kept: none is completed before it was taken. The
kernel may end a request by itself at any time, the timer with a tick that lacks
`IORING_CQE_F_MORE`.
-/

namespace Fiona

namespace Life

variable (l : Life)

/-- The requests that a `co_await` queues. -/
def awaitQueued (h : Coro) (slot : Option Nat) (now : Nat) : FrameId → List Sqe
  | .op .cancel => (l.impl.cancelAwaitSuspend h).2
  | .op .close => (l.impl.closeAwaitSuspend h).2
  | .op .shutdown => (l.impl.shutdownAwaitSuspend h).2
  | .op .send => ((l.impl.sendAwaitSuspend h now).map Prod.snd).getD []
  | .op .connect =>
    if l.impl.connectBusy || l.impl.connectRefused slot then []
    else (l.impl.connectAwaitSuspend slot h).2
  | .recv => if l.impl.recv.awaitReady then [] else (l.impl.recvAwaitSuspend h now).2.2
  | _ => []

/-- The requests that an operation queues, in order. -/
def queued : LifeOp → List Sqe
  | .destroyHandle asClient => (l.impl.handleDestructor asClient).2
  | .dropAwaitable f => l.impl.awaitableDestructor f
  | .await f h slot now => l.awaitQueued h slot now f
  | .process f cqe now p buf =>
    ((processCqe l.impl cqe now p buf f).map fun r => r.2.2.2).getD []
  | .setTimeout ts => (l.impl.setTimeout ts).2
  | _ => []

/-- The requests that are in flight after an operation, apart from those that it queues. -/
def kept : LifeOp → List FrameId
  | .process f cqe _ _ _ => l.completed f cqe
  | _ => l.inFlight

variable {l} {l' : Life}

@[simp] theorem release_inFlight : l.release.inFlight = l.inFlight := rfl

@[simp] theorem queue_inFlight (q : List Sqe) :
    (l.queue q).inFlight = l.inFlight ++ requests q := rfl

@[simp] theorem update_inFlight (r : StreamImpl × List Sqe) :
    (l.update r).inFlight = l.inFlight ++ requests r.2 := rfl

@[simp] theorem suspend_inFlight (h : Coro) (f : FrameId) (r : StreamImpl × List Sqe) :
    (l.suspend h f r).inFlight = l.inFlight ++ requests r.2 := rfl

theorem await_inFlight {h : Coro} {slot : Option Nat} {now : Nat} {f : FrameId}
    (hstep : l.await h slot now f = some l') :
    l'.inFlight = l.inFlight ++ requests (l.awaitQueued h slot now f) := by
  cases f with
  | op o =>
    cases o with
    | send =>
      simp only [Life.await] at hstep
      split at hstep <;> obtain rfl := Option.some.inj hstep <;> simp [awaitQueued, *]
    | socket => exact absurd hstep (by simp [Life.await])
    | connect =>
      obtain rfl := Option.some.inj hstep
      simp only [awaitConnect, awaitQueued]
      split_ifs <;> simp_all
    | _ =>
      obtain rfl := Option.some.inj hstep
      rfl
  | recv =>
    obtain rfl := Option.some.inj hstep
    simp only [awaitRecv, awaitQueued]
    split_ifs with hready
    · simp
    · rcases l.impl.recvAwaitSuspend_cases h now with
        ⟨w, rf, heq, hw, -, -⟩ | ⟨g, rf, fd, heq, -, -, -⟩
      · rw [heq]
        cases w with
        | arm g => exact absurd rfl (hw g)
        | _ => simp
      · rw [heq]
        simp
  | _ => exact absurd hstep (by simp [Life.await])

/-- **What is queued is in flight.** -/
theorem perform_inFlight {op : LifeOp} (hstep : l.perform op = some l') :
    l'.inFlight = l.kept op ++ requests (l.queued op) := by
  cases op with
  | await f h slot now => exact await_inFlight hstep
  | process f cqe now p buf =>
    obtain ⟨s, x, slot, q, hp, rfl⟩ := perform_process hstep
    simp [kept, queued, hp]
  | setBufferGroup g =>
    obtain rfl := perform_setBufferGroup hstep
    simp [kept, queued]
  | _ =>
    obtain rfl := Option.some.inj hstep
    simp [kept, queued]

theorem step_inFlight {op : LifeOp} (hstep : l.step op = some l') :
    l'.inFlight = l.kept op ++ requests (l.queued op) := by
  obtain ⟨-, hperform⟩ := Option.ite_none_right_eq_some.mp hstep
  exact perform_inFlight hperform

/-- A completion is one of a request in flight. -/
theorem mem_of_process {f : FrameId} {cqe : Cqe} {now p : Nat} {buf : RecvBuffer}
    (hstep : l.step (.process f cqe now p buf) = some l') :
    f ∈ l.inFlight ∧ posts f cqe = true := by
  obtain ⟨⟨-, hallows⟩, -⟩ := Option.ite_none_right_eq_some.mp hstep
  simpa [allows] using hallows

/-- A completion of the timer queues a cancel and a new timer at most. -/
theorem timer_queued {s : StreamImpl} {cqe : Cqe} {now : Nat} (hposts : posts .timeout cqe = true)
    {e : Sqe} (he : e ∈ (s.timeoutAwaitProcessCqe cqe now).2) :
    ∃ fd, e = .request .timeout fd ∨ e = .request .timeoutCancel fd := by
  have hcancel : e ∈ (s.tickCancel now).2 → e = .request .timeoutCancel s.fd := by
    rw [StreamImpl.tickCancel]
    split_ifs <;> simp
  rcases s.timeoutAwaitProcessCqe_cases (posts_timeout hposts) now with ⟨t, heq, -⟩ | ⟨heq, -⟩ |
    ⟨heq, -⟩
  · simp [heq] at he
  · exact ⟨s.fd, .inl (by simpa [heq, StreamImpl.armTimer] using he)⟩
  · rw [heq, StreamImpl.tick] at he
    rcases List.mem_append.mp he with htick | harm
    · exact ⟨s.fd, .inr (hcancel htick)⟩
    · cases hmore : cqe.more with
      | true => simp [hmore] at harm
      | false =>
        rw [hmore] at harm
        exact ⟨(s.tickCancel now).1.fd, .inl (List.mem_singleton.mp harm)⟩

/-- A completion queues a timer and a cancel of its own at most. -/
theorem process_queued {f : FrameId} {cqe : Cqe} {now p : Nat} {buf : RecvBuffer} {e : Sqe}
    (hstep : l.step (.process f cqe now p buf) = some l')
    (he : e ∈ l.queued (.process f cqe now p buf)) :
    ∃ fd, e = .request .timeout fd ∨ e = .request .timeoutCancel fd := by
  obtain ⟨-, hposts⟩ := mem_of_process hstep
  obtain ⟨-, hperform⟩ := Option.ite_none_right_eq_some.mp hstep
  obtain ⟨s', x, slot, q, hp, -⟩ := perform_process hperform
  rw [show l.queued (.process f cqe now p buf) = q by simp [queued, hp]] at he
  by_cases hf : f = .timeout
  · subst hf
    simp only [processCqe, Option.some.injEq, Prod.mk.injEq] at hp
    obtain ⟨-, -, -, rfl⟩ := hp
    exact timer_queued hposts he
  · simp [(processCqe_completes hf hposts hp).2] at he

theorem mem_requests {q : List Sqe} {f : FrameId} :
    f ∈ requests q ↔ ∃ fd, .request f fd ∈ q := by
  induction q with
  | nil => simp
  | cons e q ih => cases e <;> simp_all [exists_or]

theorem kept_subset (op : LifeOp) : l.kept op ⊆ l.inFlight := by
  cases op with
  | process f cqe now p buf =>
    simp only [kept, completed]
    split_ifs
    · exact List.Subset.refl _
    · exact List.erase_subset
  | _ => exact List.Subset.refl _

end Life

/-- How a stream comes about. -/
inductive Origin
  /-- `client_impl`. -/
  | client
  /-- `stream::stream` on a descriptor. -/
  | descriptor (fd : Int)
  /-- `accept_awaitable::await_resume`. -/
  | accepted (fd : Int)
  deriving DecidableEq, Repr

/-- A stream at the start of its life; one that was accepted is connected. -/
def Life.created (o : Origin) (now : Nat) : Life :=
  match o with
  | .client => .new true (-1) now
  | .descriptor fd => .new false fd now
  | .accepted fd =>
    let l := Life.new false fd now
    { l with impl := { l.impl with connected := true } }

theorem Life.counted_created (o : Origin) (now : Nat) : Life.Counted 0 (.created o now) := by
  have hnew : ∀ client fd, Life.Counted 0 (.new client fd now) := fun client fd =>
    Life.counted_new client fd now
  cases o with
  | client => exact hnew _ _
  | descriptor fd => exact hnew _ _
  | accepted fd =>
    exact ⟨(hnew false fd).count, (hnew false fd).flags, fun _ => rfl, (hnew false fd).held⟩

/-- Whose cancel ended a receive. -/
inductive Cause
  /-- The tick of the timer. -/
  | tick
  /-- `async_cancel`. -/
  | cancel
  /-- `async_close`. -/
  | close
  /-- The destructor of the last handle. -/
  | handle
  deriving DecidableEq, Repr

structure StreamRing where
  life : Life
  sq : List Sqe
  /-- The period of the timer, if it is armed. -/
  armed : Option Nat
  /-- The descriptor of the receive that is armed. -/
  receiving : Option Int
  timerCq : List Cqe
  /-- The completions of the receive, each with the cancel that ended it. -/
  recvCq : List (Cqe × Option Cause)

inductive RingOp
  | life (op : LifeOp)
  /-- The kernel takes an entry from the submission queue. -/
  | submit
  /-- The timer posts a completion. -/
  | postTimer (cqe : Cqe)
  /-- The receive posts a completion. -/
  | postRecv (cqe : Cqe)

namespace StreamRing

variable (r : StreamRing)

/-- A stream at the start of its life; its timer is queued. -/
def created (o : Origin) (now : Nat) : StreamRing where
  life := .created o now
  sq := [.request .timeout (Life.created o now).impl.fd]
  armed := none
  receiving := none
  timerCq := []
  recvCq := []

/-! ### The kernel -/

/-- The final completion of a request that is removed or cancelled. -/
def canceled : Cqe := ⟨-Errno.ECANCELED, false, none⟩

/-- Whether an entry ends the receive on the descriptor `fd`. -/
def endsRecv (fd : Int) : Sqe → Option Cause
  | .request .timeoutCancel fd' => if fd' = fd then some .tick else none
  | .request (.op .cancel) fd' => if fd' = fd then some .cancel else none
  | .cancelFd fd' => if fd' = fd then some .close else none
  | .cancelOp .recv => some .handle
  | _ => none

/-- What an entry that is taken does to the timer. -/
def takeTimer : Sqe → StreamRing
  | .request .timeout _ => { r with armed := some r.life.impl.ts }
  | .timeoutRemove =>
    if r.armed.isSome then { r with armed := none, timerCq := r.timerCq ++ [canceled] } else r
  | _ => r

/-- What an entry that is taken does to the receive. -/
def takeRecv (e : Sqe) : StreamRing :=
  match e with
  | .request .recv fd => { r with receiving := some fd }
  | e =>
    match r.receiving.bind fun fd => endsRecv fd e with
    | some c => { r with receiving := none, recvCq := r.recvCq ++ [(canceled, some c)] }
    | none => r

def submit : Option StreamRing :=
  match r.sq with
  | [] => none
  | e :: q => some ((({ r with sq := q }).takeTimer e).takeRecv e)

/-- The timer that is armed posts a completion. -/
def postTimer (cqe : Cqe) : Option StreamRing :=
  if r.armed.isSome ∧ Life.posts .timeout cqe then
    some { r with armed := if cqe.more then r.armed else none, timerCq := r.timerCq ++ [cqe] }
  else none

/-- The receive that is armed posts a completion. -/
def postRecv (cqe : Cqe) : Option StreamRing :=
  if r.receiving.isSome ∧ Life.posts .recv cqe then
    some { r with
      receiving := if cqe.more then r.receiving else none
      recvCq := r.recvCq ++ [(cqe, none)] }
  else none

/-! ### The program -/

/-- A completion is processed after it was posted, in the order of the completions. -/
def ready : LifeOp → Bool
  | .process .timeout cqe _ _ _ => decide (r.timerCq.head? = some cqe)
  | .process .recv cqe _ _ _ => decide (r.recvCq.head?.map Prod.fst = some cqe)
  | .process f _ _ _ _ => decide ((requests r.sq).count f < r.life.inFlight.count f)
  | _ => true

/-- The completion that is processed leaves its queue. -/
def pop : LifeOp → StreamRing
  | .process .timeout _ _ _ _ => { r with timerCq := r.timerCq.tail }
  | .process .recv _ _ _ _ => { r with recvCq := r.recvCq.tail }
  | _ => r

def perform (op : LifeOp) : Option StreamRing :=
  if r.ready op then
    (r.life.step op).map fun l => { r.pop op with life := l, sq := r.sq ++ r.life.queued op }
  else none

def step : RingOp → Option StreamRing
  | .life op => r.perform op
  | .submit => r.submit
  | .postTimer cqe => r.postTimer cqe
  | .postRecv cqe => r.postRecv cqe

/-! ### What a step leaves -/

variable {r} {r' : StreamRing} {cqe : Cqe}

@[simp] theorem takeTimer_keeps (e : Sqe) :
    (r.takeTimer e).life = r.life ∧ (r.takeTimer e).sq = r.sq ∧
      (r.takeTimer e).receiving = r.receiving ∧ (r.takeTimer e).recvCq = r.recvCq := by
  unfold takeTimer
  split
  · exact ⟨rfl, rfl, rfl, rfl⟩
  · split_ifs <;> exact ⟨rfl, rfl, rfl, rfl⟩
  · exact ⟨rfl, rfl, rfl, rfl⟩

@[simp] theorem takeRecv_keeps (e : Sqe) :
    (r.takeRecv e).life = r.life ∧ (r.takeRecv e).sq = r.sq ∧
      (r.takeRecv e).armed = r.armed ∧ (r.takeRecv e).timerCq = r.timerCq := by
  unfold takeRecv
  split
  · exact ⟨rfl, rfl, rfl, rfl⟩
  · split <;> exact ⟨rfl, rfl, rfl, rfl⟩

/-- An entry that is taken ends the receive or posts nothing for it. -/
theorem takeRecv_recvCq (e : Sqe) :
    (r.takeRecv e).recvCq = r.recvCq ∨ ∃ fd c, endsRecv fd e = some c ∧
      (r.takeRecv e).recvCq = r.recvCq ++ [(canceled, some c)] := by
  unfold takeRecv
  split
  · exact .inl rfl
  · split
    · rename_i c heq
      obtain ⟨fd, -, hends⟩ := Option.bind_eq_some_iff.mp heq
      exact .inr ⟨fd, c, hends, rfl⟩
    · exact .inl rfl

/-- The first entry is taken, and may end the receive. -/
theorem submit_recvCq (hstep : r.submit = some r') :
    ∃ e, r.sq = e :: r'.sq ∧ (r'.recvCq = r.recvCq ∨ ∃ fd c, endsRecv fd e = some c ∧
      r'.recvCq = r.recvCq ++ [(canceled, some c)]) := by
  rw [submit] at hstep
  split at hstep
  · exact absurd hstep (by simp)
  · rename_i e q hq
    obtain rfl := Option.some.inj hstep
    have hcq := (takeTimer { r with sq := q } e).takeRecv_recvCq e
    simp only [takeTimer_keeps] at hcq
    exact ⟨e, by simp [hq], hcq⟩

theorem submit_life (hstep : r.submit = some r') : r'.life = r.life := by
  rw [submit] at hstep
  split at hstep
  · exact absurd hstep (by simp)
  · obtain rfl := Option.some.inj hstep
    simp

theorem postTimer_life (hstep : r.postTimer cqe = some r') : r'.life = r.life := by
  obtain ⟨-, heq⟩ := Option.ite_none_right_eq_some.mp hstep
  exact Option.some.inj heq ▸ rfl

theorem postRecv_life (hstep : r.postRecv cqe = some r') : r'.life = r.life := by
  obtain ⟨-, heq⟩ := Option.ite_none_right_eq_some.mp hstep
  exact Option.some.inj heq ▸ rfl

/-- What the program does is a step in the life of the stream. -/
theorem perform_life {op : LifeOp} (hstep : r.perform op = some r') :
    r.ready op = true ∧ ∃ l, r.life.step op = some l ∧
      r' = { r.pop op with life := l, sq := r.sq ++ r.life.queued op } := by
  obtain ⟨hready, heq⟩ := Option.ite_none_right_eq_some.mp hstep
  obtain ⟨l, hl, rfl⟩ := Option.map_eq_some_iff.mp heq
  exact ⟨hready, l, hl, rfl⟩

end StreamRing

end Fiona
