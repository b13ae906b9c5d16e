import Fiona.Context.Setup
import Fiona.Lib.Reserving
import Fiona.Stream.Ring

/-!
# Entries of the submission queue

Every operation that queues requests takes entries of the submission queue for them, with
`io_uring_get_sqe`, which has none when the queue is full. `reserve_sqes` of
`include/fiona/detail/get_sqe.hpp` is called before, and submits what is queued if there are fewer
entries left than are wanted; it does not look whether there are enough afterwards. `get_sqe`
submits when it has got none, and is used without a reservation.

An operation is the list of what it does to the queue (`Fiona.SqOp.program`), where each branch
that takes fewer or more entries is a label of its own. The entries that carry
`IOSQE_IO_LINK` or `IOSQE_IO_HARDLINK` are linked to the next one.
-/

namespace Fiona

open Reserving Transition

/-- The `io_uring_prep_*` functions that the program uses. -/
inductive Prep
  | acceptDirect
  | cancel
  | cancelFd
  | closeDirect
  | connect
  | linkTimeout
  | openatDirect
  | read
  | readFixed
  | recvMultishot
  | send
  | shutdown
  | socketDirect
  | timeout
  | timeoutRemove
  | write
  | writeFixed
  deriving DecidableEq, Repr

/-- An entry of the queue, as it is prepared. -/
structure SqEntry where
  prep : Prep
  /-- `IOSQE_IO_LINK` or `IOSQE_IO_HARDLINK`. -/
  link : Bool
  deriving DecidableEq, Repr

/-- The operations that use the ring, each with what it branches on. -/
inductive SqOp
  /-- `acceptor_impl::~acceptor_impl` and `stream_impl::~stream_impl`, with a descriptor. -/
  | acceptorImplDestructor
  | streamImplDestructor
  /-- `accept_awaitable::~accept_awaitable`, while the accept is in flight. -/
  | acceptDestructor
  | acceptSuspend
  | acceptCancelSuspend
  | acceptCloseSuspend
  /-- `stream_impl::stream_impl`. -/
  | streamImplConstructor
  /-- `stream::timeout`. -/
  | timeout
  /-- `stream::cancel_timer`. -/
  | cancelTimer (initiated : Bool)
  /-- `stream::cancel_recv`, while a receive is in flight. -/
  | cancelRecv
  | closeSuspend (initiated : Bool)
  | cancelSuspend
  | shutdownSuspend
  /-- `send_awaitable::~send_awaitable`, while the send is in flight. -/
  | sendDestructor
  | sendSuspend
  /-- `recv_frame::schedule_recv`. -/
  | scheduleRecv
  /-- `connect_awaitable::~connect_awaitable`, with the flags of both frames. -/
  | connectDestructor (socketInitiated socketDone connectInitiated connectDone : Bool)
  /-- `connect_awaitable::await_suspend` with a descriptor, which may be connected already. -/
  | connectSuspend (connected : Bool)
  /-- `timeout_frame::await_process_cqe` of a stream, after an adjustment. -/
  | timerAdjusted
  /-- The same on a tick. -/
  | timerTick (shouldCancel more : Bool)
  /-- `timer_awaitable::~timer_awaitable`, while the timer is in flight. -/
  | timerDestructor
  | timerSuspend
  | timerCancelSuspend
  /-- `frame::schedule_recv`, the read of the pipe. -/
  | pipeScheduleRecv
  /-- `pipe_awaitable::cancel`. -/
  | pipeCancel
  /-- `file_impl::~file_impl`, with a descriptor. -/
  | fileImplDestructor
  /-- The destructors of the awaitables of a file, while the operation is in flight. -/
  | openDestructor
  | writeDestructor
  | readDestructor
  | openSuspend
  | writeSuspend (fixed : Bool)
  | readSuspend (fixed : Bool)
  /-- `io_uring_submit_and_wait` of the loop. -/
  | submitAndWait
  deriving DecidableEq, Repr

namespace SqOp

/-- `io_uring_get_sqe` and an `io_uring_prep_*` without a link. -/
def take (prep : Prep) : Action SqEntry := .put ⟨prep, false⟩

/-- The same with a link to the next entry. -/
def takeLinked (prep : Prep) : Action SqEntry := .put ⟨prep, true⟩

/-- An operation with one request. -/
def single (prep : Prep) : List (Action SqEntry) := [.reserve 1, take prep]

/-- An operation with one request, which is submitted at once. -/
def singleSubmitted (prep : Prep) : List (Action SqEntry) := single prep ++ [.submit]

/-- A request whose entry comes from `get_sqe`. -/
def getSqe (prep : Prep) : Action SqEntry := .putOrSubmit ⟨prep, false⟩

/-- `queue_timer_cancel`. -/
def queueTimerCancel (initiated : Bool) : List (Action SqEntry) :=
  if initiated then [take .timeoutRemove] else []

/-- What an operation does to the queue. -/
def program : SqOp → List (Action SqEntry)
  | acceptorImplDestructor => [getSqe .closeDirect, .submit]
  | streamImplDestructor => [getSqe .closeDirect, .submit]
  | acceptDestructor => singleSubmitted .cancel
  | acceptSuspend => single .acceptDirect
  | acceptCancelSuspend => single .cancelFd
  | acceptCloseSuspend => [.reserve 2, takeLinked .cancelFd, take .closeDirect]
  | streamImplConstructor => single .timeout
  | timeout => single .timeoutRemove
  | cancelTimer initiated => .reserve 1 :: queueTimerCancel initiated ++ [.submit]
  | cancelRecv => singleSubmitted .cancel
  | closeSuspend initiated =>
    [.reserve (2 + initiated.toNat), takeLinked .cancelFd, take .closeDirect] ++
      queueTimerCancel initiated
  | cancelSuspend => single .cancelFd
  | shutdownSuspend => single .shutdown
  | sendDestructor => singleSubmitted .cancel
  | sendSuspend => single .send
  | scheduleRecv => single .recvMultishot
  | connectDestructor socketInitiated socketDone connectInitiated connectDone =>
    .reserve (socketInitiated.toNat + connectInitiated.toNat) ::
      (if socketInitiated && !socketDone then [take .cancel] else []) ++
      (if connectInitiated && !connectDone then [take .cancel] else []) ++ [.submit]
  | connectSuspend connected =>
    (if connected then [.reserve 2] else [.reserve 3, takeLinked .socketDirect]) ++
      [takeLinked .connect, take .linkTimeout]
  | timerAdjusted => single .timeout
  | timerTick shouldCancel more =>
    (if shouldCancel then single .cancelFd else []) ++ (if !more then single .timeout else [])
  | timerDestructor => [getSqe .cancel, .submit]
  | timerSuspend => [getSqe .timeout]
  | timerCancelSuspend => [getSqe .cancel]
  | pipeScheduleRecv => single .read
  | pipeCancel => singleSubmitted .cancel
  | fileImplDestructor => [getSqe .closeDirect, .submit]
  | openDestructor => singleSubmitted .cancel
  | writeDestructor => singleSubmitted .cancel
  | readDestructor => singleSubmitted .cancel
  | openSuspend => single .openatDirect
  | writeSuspend fixed => [.reserve 1, getSqe (if fixed then .writeFixed else .write)]
  | readSuspend fixed => [.reserve 1, getSqe (if fixed then .readFixed else .read)]
  | submitAndWait => [.submit]

/-- **Every reservation covers what is taken after it**, on every branch. -/
theorem covered_program (op : SqOp) : covered 0 op.program = true := by
  cases op with
  | cancelTimer initiated => cases initiated <;> rfl
  | closeSuspend initiated => cases initiated <;> rfl
  | connectDestructor a b c d => cases a <;> cases b <;> cases c <;> cases d <;> rfl
  | connectSuspend connected => cases connected <;> rfl
  | timerTick shouldCancel more => cases shouldCancel <;> cases more <;> rfl
  | _ => rfl

/-- **No operation submits inside of a chain.** -/
theorem unbroken_program (op : SqOp) : unbroken SqEntry.link false op.program = true := by
  cases op with
  | cancelTimer initiated => cases initiated <;> rfl
  | closeSuspend initiated => cases initiated <;> rfl
  | connectDestructor a b c d => cases a <;> cases b <;> cases c <;> cases d <;> rfl
  | connectSuspend connected => cases connected <;> rfl
  | timerTick shouldCancel more => cases shouldCancel <;> cases more <;> rfl
  | _ => rfl

/-- The largest reservation is that of a connect. -/
theorem reserve_le {op : SqOp} {n : Nat} (hn : .reserve n ∈ op.program) : n ≤ 3 := by
  cases op with
  | cancelTimer initiated => cases initiated <;> simp_all [program, queueTimerCancel, take]
  | closeSuspend initiated =>
    cases initiated <;> simp_all [program, queueTimerCancel, take, takeLinked]
  | connectDestructor a b c d =>
    cases a <;> cases c <;> cases b <;> cases d <;> simp_all [program, take]
  | connectSuspend connected => cases connected <;> simp_all [program, take, takeLinked]
  | timerTick shouldCancel more =>
    cases shouldCancel <;> cases more <;> simp_all [program, single, take]
  | _ => simp_all [program, single, singleSubmitted, take, takeLinked, getSqe]

end SqOp

/-- The ring and the operations on it, with the chains that these have asked for. -/
structure SubmissionRing where
  size : Nat
  queue : Queue SqEntry
  asked : List (List SqEntry)
  /-- A null entry was used. -/
  fault : Bool
  deriving DecidableEq, Repr

namespace SubmissionRing

/-- The ring of a new context. -/
def start (f : IoContextFrame) : SubmissionRing := ⟨f.sqSize, .empty, [], false⟩

variable (s : SubmissionRing)

/-- An operation, on a ring without a fault. -/
def step (op : SqOp) : Option SubmissionRing :=
  if s.fault then none
  else
    match run (Queue.perform s.size) s.queue op.program with
    | none => some { s with fault := true }
    | some q =>
      some { s with queue := q, asked := s.asked ++ chains SqEntry.link (entries op.program) }

/-- **Every entry that was asked for was there**, and the chains that the kernel has been given or
will be given are those that the operations put. -/
structure Placed : Prop where
  fault : s.fault = false
  chains : s.queue.seen SqEntry.link = s.asked

/-- What is true of a ring without a fault. -/
structure Inv (n : Nat) : Prop where
  size : s.size = n
  length : s.queue.pending.length ≤ n
  whole : Whole SqEntry.link s.queue
  placed : s.Placed

variable {s} {s' : SubmissionRing} {op : SqOp} {f : IoContextFrame} {size : Nat}

theorem inv_start (f : IoContextFrame) : Inv (start f) f.sqSize where
  size := rfl
  length := Nat.zero_le _
  whole := whole_empty
  placed := ⟨rfl, rfl⟩

/-- **An operation** on a ring that has room for the longest chain. -/
theorem Inv.step (hs : Inv s size) (hsize : 3 ≤ size) (hstep : s.step op = some s') :
    Inv s' size := by
  obtain ⟨rfl, hlen, hwhole, hfault, hchains⟩ := hs
  rw [SubmissionRing.step, hfault] at hstep
  obtain ⟨q, hq⟩ := exists_run_of_covered op.covered_program (by omega)
    (fun n hn => Nat.le_trans (SqOp.reserve_le hn) hsize) hlen
  rw [hq] at hstep
  obtain rfl := Option.some.inj hstep
  obtain ⟨hwhole', hseen⟩ := seen_of_run op.unbroken_program hwhole hq
  refine ⟨rfl, ?_, hwhole', rfl, ?_⟩
  · exact run_invariant (I := fun q => q.pending.length ≤ s.size)
      (fun _ _ _ hq ha => length_of_perform hq ha) hlen hq
  · exact hseen.trans (congrArg (· ++ _) hchains)

/-- A connect takes three entries, which a smaller queue does not have. -/
theorem connect_faults (hsize : size < 3) :
    run (Queue.perform size) Queue.empty (SqOp.connectSuspend false).program = none := by
  obtain rfl | rfl | rfl : size = 0 ∨ size = 1 ∨ size = 2 := by omega
  all_goals rfl

/-- **The reservations suffice exactly** where at least three entries are asked for. -/
theorem reservations_suffice {params : IoContextParams} {answers : SetupAnswers}
    {f : IoContextFrame} (hnew : IoContextFrame.new params answers = some f) :
    (∀ ops, Along SubmissionRing.step Placed (start f) ops) ↔ 3 ≤ params.sqEntries := by
  obtain ⟨-, -, rfl⟩ := IoContextFrame.new_eq_some hnew
  have hround : 3 ≤ roundupPowOfTwo params.sqEntries ↔ 3 ≤ params.sqEntries :=
    pow_lt_roundupPowOfTwo (k := 1)
  rw [← hround]
  constructor
  · intro hall
    by_contra hsize
    have hfault := (hall [.connectSuspend false]).2 _ (by
      rw [SubmissionRing.step, if_neg (by simp [start])]
      simp only [start]
      rw [connect_faults (Nat.lt_of_not_le hsize)])
    exact absurd hfault.fault (by simp)
  · intro hsize ops
    refine Along.mono (fun _ hs => hs.placed) (along_of_stepsMeet (C := fun _ _ => True)
      (I := fun s => Inv s (roundupPowOfTwo params.sqEntries))
      (fun _ _ _ hs _ hstep => hs.step hsize hstep) (inv_start _) ?_)
    exact stepsMeet_of_invariant (I := fun _ => True) (fun _ _ _ _ _ => ⟨trivial, trivial⟩) trivial

/-- The sizes asked for are large enough. -/
theorem reservations_suffice_sample :
    ∃ f, IoContextFrame.new ⟨3, 8, 16⟩ .accepted = some f ∧
      ∀ ops, Along SubmissionRing.step Placed (start f) ops := by
  have hnew : IoContextFrame.new ⟨3, 8, 16⟩ .accepted =
      some ⟨⟨3, 8, 16⟩, 4, 8, Finset.range 16⟩ := rfl
  exact ⟨_, hnew, (reservations_suffice hnew).mpr (by decide)⟩

/-- **A reservation that cannot be met**: a connect on a queue of two entries uses a null one, and
so does the closing of a stream on a queue of one. -/
theorem reservations_fail :
    (∃ f, IoContextFrame.new ⟨2, 2, 16⟩ .accepted = some f ∧
        ¬Along SubmissionRing.step Placed (start f) [.connectSuspend false]) ∧
      ∃ f, IoContextFrame.new ⟨1, 1, 16⟩ .accepted = some f ∧
        ¬Along SubmissionRing.step Placed (start f) [.closeSuspend false] := by
  refine ⟨⟨_, rfl, fun h => ?_⟩, ⟨_, rfl, fun h => ?_⟩⟩
  · exact absurd (h.last rfl).fault (by decide)
  · exact absurd (h.last rfl).fault (by decide)

/-- A send that finds room takes one entry. -/
theorem step_sendSuspend (hfault : s.fault = false) (hroom : s.queue.pending.length < s.size) :
    ∃ s', s.step .sendSuspend = some s' ∧ s'.size = s.size ∧ s'.fault = false ∧
      s'.queue.pending.length = s.queue.pending.length + 1 := by
  have hleft : ¬s.size - s.queue.pending.length < 1 := by omega
  have hrun : run (Queue.perform s.size) s.queue (SqOp.program .sendSuspend) =
      some ⟨s.queue.pending ++ [⟨.send, false⟩], s.queue.submitted⟩ := by
    simp [SqOp.program, SqOp.single, SqOp.take, run_cons, Queue.perform, Queue.put, hleft, hroom]
  have hstep : s.step .sendSuspend = some
      ⟨s.size, ⟨s.queue.pending ++ [⟨.send, false⟩], s.queue.submitted⟩,
        s.asked ++ chains SqEntry.link (entries (SqOp.program .sendSuspend)), false⟩ := by
    rw [SubmissionRing.step, hfault, hrun]
    rfl
  exact ⟨_, hstep, rfl, rfl, by simp⟩

/-- **Every fill level is reached.** -/
theorem exists_filled (f : IoContextFrame) {n : Nat} (hn : n ≤ f.sqSize) :
    ∃ s, run SubmissionRing.step (start f) (List.replicate n .sendSuspend) = some s ∧
      s.fault = false ∧ s.queue.pending.length = n := by
  suffices h : ∀ (m : Nat) (s : SubmissionRing), s.size = f.sqSize → s.fault = false →
      s.queue.pending.length + m ≤ f.sqSize →
      ∃ s', run SubmissionRing.step s (List.replicate m .sendSuspend) = some s' ∧
        s'.fault = false ∧ s'.queue.pending.length = s.queue.pending.length + m by
    simpa [start, Queue.empty] using h n (start f) rfl rfl (by simpa [start, Queue.empty] using hn)
  intro m
  induction m with
  | zero => exact fun s _ hfault _ => ⟨s, rfl, hfault, rfl⟩
  | succ m ih =>
    intro s hsize hfault hlen
    obtain ⟨s₁, hstep, hsize₁, hfault₁, hlen₁⟩ := step_sendSuspend hfault (by omega)
    obtain ⟨s', hs', hfault', hlen'⟩ := ih s₁ (hsize₁.trans hsize) hfault₁ (by omega)
    refine ⟨s', ?_, hfault', by omega⟩
    rw [List.replicate_succ, run_cons, hstep]
    exact hs'

end SubmissionRing

/-! ### The requests of a stream -/

/-- The function that prepares a request. -/
def Sqe.prep : Sqe → Prep
  | .request (.op .cancel) _ | .request .timeoutCancel _ | .cancelFd _ => .cancelFd
  | .request (.op .close) _ => .closeDirect
  | .request (.op .shutdown) _ => .shutdown
  | .request (.op .send) _ => .send
  | .request (.op .socket) _ => .socketDirect
  | .request (.op .connect) _ => .connect
  | .request .recv _ => .recvMultishot
  | .request .timeout _ => .timeout
  | .cancelOp _ => .cancel
  | .timeoutRemove => .timeoutRemove
  | .linkTimeout => .linkTimeout

namespace Life

variable (l : Life)

/-- What a `co_await` does to the queue. -/
def awaitSqOps (h : Coro) (slot : Option Nat) (now : Nat) : FrameId → List SqOp
  | .op .cancel => [.cancelSuspend]
  | .op .close => [.closeSuspend l.impl.timeout.initiated]
  | .op .shutdown => [.shutdownSuspend]
  | .op .send => if (l.impl.frame .send).initiated then [] else [.sendSuspend]
  | .op .connect =>
    if l.impl.connectBusy || l.impl.connectRefused slot then []
    else [.connectSuspend (decide (0 ≤ l.impl.fd) && l.impl.connected)]
  | .recv =>
    if l.impl.recv.awaitReady then []
    else
      match l.impl.recv.awaitSuspend h now with
      | (.arm _, _) => [.scheduleRecv]
      | _ => []
  | _ => []

/-- What a completion of the timer does to the queue. -/
def timeoutSqOps (cqe : Cqe) (now : Nat) : List SqOp :=
  if cqe.res = -Errno.ECANCELED ∧ l.impl.timeout.cancelled then []
  else if cqe.res = -Errno.ECANCELED then [.timerAdjusted]
  else if ¬StreamImpl.isTick cqe then []
  else [.timerTick (l.impl.shouldCancel now) cqe.more]

/-- What an operation of a stream's life does to the queue. -/
def sqOps : LifeOp → List SqOp
  | .destroyHandle asClient =>
    if l.impl.isLast asClient then
      .cancelTimer l.impl.timeout.initiated ::
        (if l.impl.recv.initiated then [.cancelRecv] else [])
    else []
  | .dropAwaitable (.op .send) =>
    if (l.impl.frame .send).isActive then [.sendDestructor] else []
  | .dropAwaitable (.op .connect) =>
    [.connectDestructor (l.impl.frame .socket).initiated (l.impl.frame .socket).done
      (l.impl.frame .connect).initiated (l.impl.frame .connect).done]
  | .await f h slot now => l.awaitSqOps h slot now f
  | .process .timeout cqe now _ _ => l.timeoutSqOps cqe now
  | .setTimeout _ => [.timeout]
  | _ => []

theorem entries_awaitSqOps (h : Coro) (slot : Option Nat) (now : Nat) (f : FrameId) :
    (l.awaitSqOps h slot now f).flatMap (fun o => (entries o.program).map SqEntry.prep) =
      (l.awaitQueued h slot now f).map Sqe.prep := by
  cases f with
  | op o =>
    cases o with
    | close =>
      cases htimeout : l.impl.timeout.initiated <;>
        simp [awaitSqOps, awaitQueued, StreamImpl.closeAwaitSuspend, StreamImpl.queueTimerCancel,
          htimeout, SqOp.program, SqOp.queueTimerCancel, SqOp.take, SqOp.takeLinked, entries,
          Sqe.prep]
    | send =>
      cases hsend : (l.impl.frame .send).initiated <;>
        simp [awaitSqOps, awaitQueued, StreamImpl.sendAwaitSuspend, hsend, SqOp.program,
          SqOp.single, SqOp.take, entries, Sqe.prep]
    | connect =>
      rw [awaitSqOps, awaitQueued]
      split_ifs with hbusy
      · rfl
      · by_cases hconnected : 0 ≤ l.impl.fd ∧ l.impl.connected = true <;>
          simp [StreamImpl.connectAwaitSuspend, StreamImpl.connectSocket, hconnected, SqOp.program,
            SqOp.take, SqOp.takeLinked, entries, Sqe.prep]
    | _ => rfl
  | recv =>
    rw [awaitSqOps, awaitQueued, StreamImpl.recvAwaitSuspend]
    split_ifs with hready
    · rfl
    · rcases l.impl.recv.awaitSuspend h now with ⟨_ | _ | _ | _, rf⟩ <;> rfl
  | _ => rfl

theorem entries_timeoutSqOps (cqe : Cqe) (now : Nat) :
    (l.timeoutSqOps cqe now).flatMap (fun o => (entries o.program).map SqEntry.prep) =
      (l.impl.timeoutAwaitProcessCqe cqe now).2.map Sqe.prep := by
  rw [timeoutSqOps, StreamImpl.timeoutAwaitProcessCqe]
  split_ifs
  · rfl
  · rfl
  · rw [StreamImpl.tick, StreamImpl.tickCancel]
    cases l.impl.shouldCancel now <;> cases cqe.more <;>
      simp [StreamImpl.armTimer, SqOp.program, SqOp.single, SqOp.take, entries, Sqe.prep]
  · rfl

/-- **The entries are taken for the requests** that the operations of a stream queue, in their
order. -/
theorem entries_sqOps (op : LifeOp) :
    (l.sqOps op).flatMap (fun o => (entries o.program).map SqEntry.prep) =
      (l.queued op).map Sqe.prep := by
  cases op with
  | destroyHandle asClient =>
    rw [sqOps, queued, StreamImpl.handleDestructor]
    by_cases hlast : l.impl.isLast asClient
    · cases htimeout : l.impl.timeout.initiated <;> cases hrecv : l.impl.recv.initiated <;>
        simp [hlast, StreamImpl.queueTimerCancel, StreamImpl.cancelRecv, htimeout, hrecv,
          SqOp.program, SqOp.singleSubmitted, SqOp.single, SqOp.queueTimerCancel, SqOp.take,
          entries, Sqe.prep]
    · simp [hlast]
  | dropAwaitable f =>
    cases f with
    | op o =>
      cases o with
      | send =>
        cases hactive : (l.impl.frame .send).isActive <;>
          simp [sqOps, queued, StreamImpl.awaitableDestructor, StreamImpl.sendAwaitableDestructor,
            StreamImpl.isActive, hactive, SqOp.program, SqOp.singleSubmitted, SqOp.single,
            SqOp.take, entries, Sqe.prep]
      | connect =>
        cases hsocket : (l.impl.frame .socket).initiated <;>
          cases hsocket' : (l.impl.frame .socket).done <;>
          cases hconnect : (l.impl.frame .connect).initiated <;>
          cases hconnect' : (l.impl.frame .connect).done <;>
          simp [sqOps, queued, StreamImpl.awaitableDestructor,
            StreamImpl.connectAwaitableDestructor, StreamImpl.isActive, OpFrame.isActive, hsocket,
            hsocket', hconnect, hconnect', SqOp.program, SqOp.take, entries, Sqe.prep]
      | _ => rfl
    | _ => rfl
  | await f h slot now => exact l.entries_awaitSqOps h slot now f
  | process f cqe now p buf =>
    cases f with
    | timeout => exact l.entries_timeoutSqOps cqe now
    | recv =>
      show [] = List.map Sqe.prep _
      rw [queued, processCqe]
      cases l.impl.recvAwaitProcessCqe cqe now p buf <;> rfl
    | _ => rfl
  | setTimeout ts => rfl
  | _ => rfl

end Life

end Fiona
