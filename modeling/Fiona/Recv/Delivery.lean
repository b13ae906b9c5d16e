import Fiona.Lib.Run
import Fiona.Recv.Frame

/-!
# Delivery on one connection

One coroutine receives on a stream. Completions of its multishot receive are processed
in batches, and a coroutine whose handle a batch collected is resumed after the batch;
data can therefore arrive while nobody waits, while the coroutine is suspended, and
between the collection of its handle and its resumption.

The property is one equation (`Fiona.Delivery.Delivers`): what the coroutine was given,
followed by what the frame still holds – the queue, then the error – is what the
completions brought, in their order. The invariant behind it says which of the states
of the frame go with which of the states of the coroutine (`Fiona.Delivery.Ok`).
-/

namespace Fiona

open Transition

/-- What a completion brings: a buffer, an empty one at the end of the stream, or an
error. -/
inductive Arrival
  | buffer (b : RecvBuffer)
  | error (ec : Nat)
  deriving DecidableEq, Repr

/-- What a result of `await_resume` hands out. -/
def RecvFrame.Result.arrivals : RecvFrame.Result → List Arrival
  | .buffers bs => bs.map .buffer
  | .error ec => [.error ec]

/-- The connection and its receiver. A receive that the kernel has is counted in
`inFlight`; `waiter` is the receiver's handle while it is suspended, and `handles` the
handles collected and not yet resumed. The last two members record what the
completions brought and what `await_resume` returned. -/
structure Delivery where
  rf : RecvFrame
  streamCancelled : Bool
  inFlight : Nat
  batch : Bool
  waiter : Option Coro
  handles : List Coro
  arrived : List Arrival
  returned : List RecvFrame.Result
  deriving Repr

inductive DeliveryOp
  /-- `stream::set_buffer_group`. -/
  | setBufferGroup (g : Nat)
  /-- `async_cancel` or `async_close` is awaited. -/
  | setCancelled
  /-- The receiver runs into `co_await stream.async_recv()`. -/
  | awaitRecv (h : Coro) (now : Nat)
  | startBatch
  /-- A completion is processed; a buffer, if it names one, is `buf`, and `p` is the block
  of the buffer for the end of the stream. -/
  | recvCqe (cqe : Cqe) (buf : RecvBuffer) (now p : Nat)
  | endBatch
  /-- The next collected handle is resumed. -/
  | resume
  deriving DecidableEq, Repr

namespace Delivery

variable (s : Delivery)

def init : Delivery := ⟨.init 0, false, 0, false, none, [], [], []⟩

/-- `recv_awaitable::await_resume`, after which the receiver runs on. -/
def awaitResume : Option Delivery := do
  let (res, rf) ← s.rf.awaitResume
  some { s with rf := rf, waiter := none, returned := s.returned ++ [res] }

/-- What a completion brings to a frame. -/
def arrival (streamCancelled : Bool) (cqe : Cqe) (buf : RecvBuffer) (p : Nat) : Arrival :=
  if cqe.res < 0 then .error (RecvFrame.errorOf streamCancelled cqe.res)
  else if cqe.res = 0 then .buffer (.alloc p 0)
  else .buffer buf

/-- What the program does; `none` is a failed assertion, or the resumption of a coroutine
that is not suspended. -/
def perform : DeliveryOp → Option Delivery
  | .setBufferGroup g => do
    let rf ← s.rf.setBufferGroup g
    some { s with rf := rf }
  | .setCancelled => some { s with streamCancelled := true }
  | .awaitRecv h now =>
    if s.rf.awaitReady then s.awaitResume
    else
      match s.rf.awaitSuspend h now with
      | (.resume, rf) => awaitResume { s with rf := rf }
      | (.wait, rf) => some { s with rf := rf, waiter := some h }
      | (.arm _, rf) => some { s with rf := rf, waiter := some h, inFlight := s.inFlight + 1 }
      | (.throw _, rf) => some { s with rf := rf }
  | .startBatch => some { s with batch := true }
  | .recvCqe cqe buf now p => do
    let rf ← s.rf.awaitProcessCqe s.streamCancelled cqe now p buf
    let (h, rf) := rf.handle
    some { s with
      rf := rf
      handles := s.handles ++ h.toList
      inFlight := if cqe.more then s.inFlight else s.inFlight - 1
      arrived := s.arrived ++ [arrival s.streamCancelled cqe buf p] }
  | .endBatch => some { s with batch := false }
  | .resume =>
    match s.handles with
    | [] => none
    | h :: hs => if s.waiter = some h then awaitResume { s with handles := hs } else none

/-- When each of these happens: batches and resumptions alternate as in `run`, the
receiver awaits when it is not suspended, and the kernel posts completions only for a
receive it has – data in a buffer with capacity, and no flag `IORING_CQE_F_MORE` on an
error or an end of stream. -/
def allows : DeliveryOp → Bool
  | .setBufferGroup _ => !s.batch && !s.rf.initiated
  | .setCancelled => !s.batch
  | .awaitRecv _ _ => !s.batch && s.waiter.isNone
  | .startBatch => !s.batch && s.handles.isEmpty
  | .recvCqe cqe buf _ _ =>
    s.batch && decide (0 < s.inFlight) &&
      if cqe.res ≤ 0 then !cqe.more else decide (buf.size = cqe.res.toNat ∧ 0 < buf.capacity)
  | .endBatch => s.batch
  | .resume => !s.batch && !s.handles.isEmpty

def step (op : DeliveryOp) : Option Delivery := if s.allows op then s.perform op else none

/-- A buffer that is not the end of the stream. -/
def IsData (b : RecvBuffer) : Prop := b.empty = false ∧ 0 < b.capacity

/-- **Delivery in order**: what was returned, followed by the queue and the error, is what
arrived; the end of the stream is the last of what is returned together; and one receive
is under way at most, with no error waiting. -/
structure Delivers (s : Delivery) : Prop where
  order : s.returned.flatMap RecvFrame.Result.arrivals ++
    (s.rf.buffers.map Arrival.buffer ++ s.rf.ec.toList.map Arrival.error) = s.arrived
  last : ∀ bs, .buffers bs ∈ s.returned → bs ≠ [] ∧ ∀ b ∈ bs.dropLast, IsData b
  one : s.inFlight ≤ 1
  quiet : 0 < s.inFlight → s.rf.ec = none

/-- **The frame and its receiver are in step.** While a receive is under way the queue
holds data only and no error waits; a handle in the frame is that of the suspended
receiver; the receiver is suspended without a collected handle only while a receive
is under way and there is nothing to hand out. -/
structure Ok (s : Delivery) : Prop where
  order : s.returned.flatMap RecvFrame.Result.arrivals ++
    (s.rf.buffers.map Arrival.buffer ++ s.rf.ec.toList.map Arrival.error) = s.arrived
  returned : ∀ bs, .buffers bs ∈ s.returned → bs ≠ [] ∧ ∀ b ∈ bs.dropLast, IsData b
  queue : ∀ b ∈ s.rf.buffers.dropLast, IsData b
  busy : s.rf.initiated = true → s.inFlight = 1 ∧ s.rf.ec = none ∧ ∀ b ∈ s.rf.buffers, IsData b
  idle : s.rf.initiated = false → s.inFlight = 0
  running : s.waiter = none → s.handles = [] ∧ (s.rf.initiated = true → s.rf.h = none)
  collected : ∀ c, s.waiter = some c → s.handles ≠ [] →
    s.handles = [c] ∧ s.rf.h = none ∧ (s.rf.buffers ≠ [] ∨ s.rf.ec.isSome)
  waiting : ∀ c, s.waiter = some c → s.handles = [] →
    s.rf.h = some c ∧ s.rf.initiated = true ∧ s.rf.buffers = []

variable {s} {s' : Delivery} {op : DeliveryOp} {h : Coro} {now p : Nat} {cqe : Cqe}
  {buf : RecvBuffer}

theorem Ok.delivers (hs : Ok s) : Delivers s where
  order := hs.order
  last := hs.returned
  one := by
    cases hi : s.rf.initiated with
    | true => rw [(hs.busy hi).1]
    | false =>
      rw [hs.idle hi]
      exact Nat.zero_le 1
  quiet := by
    intro hpos
    cases hi : s.rf.initiated with
    | true => exact (hs.busy hi).2.1
    | false =>
      rw [hs.idle hi] at hpos
      exact absurd hpos (Nat.lt_irrefl 0)

theorem ok_init : Ok init where
  order := rfl
  returned := fun bs hbs => absurd hbs List.not_mem_nil
  queue := fun b hb => absurd hb List.not_mem_nil
  busy := fun hc => absurd hc (by decide)
  idle := fun _ => rfl
  running := fun _ => ⟨rfl, fun _ => rfl⟩
  collected := fun c hc => absurd hc (by simp [init])
  waiting := fun c hc => absurd hc (by simp [init])

/-! ### Handing out -/

/-- **`await_resume`** hands out the queue, or the error when there is none. No handle is
left to resume then, and the frame holds none either, or no receive is under way. -/
theorem Ok.awaitResume (hs : Ok s) (hne : s.rf.buffers ≠ [] ∨ s.rf.ec.isSome) {x : Option Coro}
    (hx : s.rf.initiated = true → x = none) :
    ∃ s', Delivery.awaitResume { s with rf := { s.rf with h := x }, handles := [] } = some s' ∧
      Ok s' := by
  by_cases hbuf : s.rf.buffers = []
  · obtain ⟨ec, hec⟩ := Option.isSome_iff_exists.mp (hne.resolve_left (by simpa using hbuf))
    have hidle : s.rf.initiated = false := by
      by_contra hc
      simp [(hs.busy (by simpa using hc)).2.1] at hec
    have hempty : s.rf.buffers.isEmpty = true := by simp [hbuf]
    refine ⟨{ s with
      rf := { s.rf with h := x, ec := none }, handles := [], waiter := none
      returned := s.returned ++ [.error ec] }, ?_, ?_⟩
    · rw [Delivery.awaitResume, RecvFrame.awaitResume, if_pos hempty, hec]
      rfl
    · refine ⟨?_, ?_, hs.queue, fun hc => ?_, hs.idle, fun _ => ⟨rfl, hx⟩, ?_, ?_⟩
      · have horder := hs.order
        simpa [hbuf, hec, RecvFrame.Result.arrivals] using horder
      · intro bs hbs
        exact hs.returned bs (by simpa using hbs)
      · exact absurd (hidle.symm.trans hc) (by simp)
      · exact fun c hc => absurd hc (by simp)
      · exact fun c hc => absurd hc (by simp)
  · have hfull : s.rf.buffers.isEmpty = false := by simpa using hbuf
    refine ⟨{ s with
      rf := { s.rf with h := x, buffers := [] }, handles := [], waiter := none
      returned := s.returned ++ [.buffers s.rf.buffers] }, ?_, ?_⟩
    · rw [Delivery.awaitResume, RecvFrame.awaitResume, hfull]
      rfl
    · refine ⟨?_, ?_, fun b hb => absurd hb (by simp), fun hc => ?_, hs.idle,
        fun _ => ⟨rfl, hx⟩, ?_, ?_⟩
      · have horder := hs.order
        simpa [RecvFrame.Result.arrivals] using horder
      · intro bs hbs
        rcases List.mem_append.mp hbs with hbs | hbs
        · exact hs.returned bs hbs
        · obtain rfl : bs = s.rf.buffers := by simpa using hbs
          exact ⟨hbuf, hs.queue⟩
      · exact ⟨(hs.busy hc).1, (hs.busy hc).2.1, fun b hb => absurd hb (by simp)⟩
      · exact fun c hc => absurd hc (by simp)
      · exact fun c hc => absurd hc (by simp)

/-- **`await_suspend`** on an empty queue. -/
theorem Ok.awaitSuspend (hs : Ok s) (hrun : s.waiter = none) (hbuf : s.rf.buffers = []) :
    ∃ s', (match s.rf.awaitSuspend h now with
      | (.resume, rf) => Delivery.awaitResume { s with rf := rf }
      | (.wait, rf) => some { s with rf := rf, waiter := some h }
      | (.arm _, rf) => some { s with rf := rf, waiter := some h, inFlight := s.inFlight + 1 }
      | (.throw _, rf) => some { s with rf := rf }) = some s' ∧ Ok s' := by
  obtain ⟨hhandles, hnone⟩ := hs.running hrun
  cases hec : s.rf.ec with
  | some ec =>
    -- an error waits: the coroutine goes on at once, and its handle stays in the frame
    have hidle : s.rf.initiated = false := by
      by_contra hc
      simp [(hs.busy (by simpa using hc)).2.1] at hec
    have heq : s.rf.awaitSuspend h now = (.resume, { s.rf with h := some h }) := by
      simp [RecvFrame.awaitSuspend, hec]
    obtain ⟨s', hs', hok⟩ := hs.awaitResume (x := some h) (Or.inr (by rw [hec]; rfl))
      fun hc => absurd (hidle.symm.trans hc) (by simp)
    rw [← hhandles] at hs'
    rw [heq]
    exact ⟨s', hs', hok⟩
  | none =>
    cases hi : s.rf.initiated with
    | true =>
      have heq : s.rf.awaitSuspend h now = (.wait, { s.rf with h := some h }) := by
        simp [RecvFrame.awaitSuspend, hec, hi]
      rw [heq]
      refine ⟨_, rfl, hs.order, hs.returned, hs.queue, hs.busy, hs.idle, ?_, ?_, ?_⟩
      · exact fun hc => absurd hc (by simp)
      · exact fun c _ hc => absurd hhandles hc
      · exact fun c hc _ => ⟨hc, hi, hbuf⟩
    | false =>
      cases hg : s.rf.bufferGroupId with
      | none =>
        have heq : s.rf.awaitSuspend h now = (.throw Errno.EINVAL, { s.rf with h := some h }) := by
          simp [RecvFrame.awaitSuspend, hec, hi, hg]
        rw [heq]
        refine ⟨_, rfl, hs.order, hs.returned, hs.queue, hs.busy, hs.idle, ?_, ?_, ?_⟩
        · exact fun _ => ⟨hhandles, fun hc => absurd (hi.symm.trans hc) (by simp)⟩
        · exact fun c hc => absurd (hrun.symm.trans hc) (by simp)
        · exact fun c hc => absurd (hrun.symm.trans hc) (by simp)
      | some g =>
        have heq : s.rf.awaitSuspend h now = (.arm g, { s.rf with
            h := some h, pBufRing := some g, initiated := true, lastRecv := now }) := by
          simp [RecvFrame.awaitSuspend, RecvFrame.scheduleRecv, hec, hi, hg]
        rw [heq]
        refine ⟨_, rfl, hs.order, hs.returned, hs.queue, ?_, ?_, ?_, ?_, ?_⟩
        · exact fun _ => ⟨by rw [hs.idle hi], hec, fun b hb => absurd hb (by simp [hbuf])⟩
        · exact fun hc => absurd hc (by simp)
        · exact fun hc => absurd hc (by simp)
        · exact fun c _ hc => absurd hhandles hc
        · exact fun c hc _ => ⟨hc, rfl, hbuf⟩

/-! ### Completions -/

/-- **A completion** adds what it brings behind what the frame holds, and collects the
handle of the receiver if it is suspended and not collected yet. -/
theorem Ok.recvCqe (hs : Ok s) (hfly : 0 < s.inFlight)
    (hcqe : if cqe.res ≤ 0 then cqe.more = false else buf.size = cqe.res.toNat ∧ 0 < buf.capacity) :
    ∃ s', s.perform (.recvCqe cqe buf now p) = some s' ∧ Ok s' := by
  have hbusy : s.rf.initiated = true := by
    by_contra hc
    rw [hs.idle (by simpa using hc)] at hfly
    exact absurd hfly (Nat.lt_irrefl 0)
  obtain ⟨hone, hec, hdata⟩ := hs.busy hbusy
  -- what the frame becomes, apart from the handle
  obtain ⟨buffers, ec, last, hproc, harr, hqueue, hmore, hnew⟩ : ∃ buffers ec last,
      s.rf.awaitProcessCqe s.streamCancelled cqe now p buf = some { s.rf with
        buffers := buffers, ec := ec, lastRecv := last, initiated := cqe.more } ∧
      buffers.map Arrival.buffer ++ ec.toList.map Arrival.error =
        s.rf.buffers.map Arrival.buffer ++ [arrival s.streamCancelled cqe buf p] ∧
      (∀ b ∈ buffers.dropLast, IsData b) ∧
      (cqe.more = true → ec = none ∧ ∀ b ∈ buffers, IsData b) ∧
      (buffers ≠ [] ∨ ec.isSome) := by
    have hdrop : ∀ b ∈ s.rf.buffers.dropLast, IsData b := fun b hb =>
      hdata b (List.dropLast_subset _ hb)
    rcases Int.lt_trichotomy cqe.res 0 with hneg | hzero | hpos
    · rw [if_pos (by omega)] at hcqe
      refine ⟨s.rf.buffers, some (RecvFrame.errorOf s.streamCancelled cqe.res),
        s.rf.lastRecv, ?_, ?_, hdrop, fun hc => absurd (hcqe.symm.trans hc) (by simp), Or.inr rfl⟩
      · rw [RecvFrame.awaitProcessCqe, if_pos hneg, hec]
        rfl
      · rw [arrival, if_pos hneg]
        rfl
    · rw [if_pos (by omega)] at hcqe
      refine ⟨s.rf.buffers ++ [.alloc p 0], none, s.rf.lastRecv, ?_, ?_, by simpa using hdata,
        fun hc => absurd (hcqe.symm.trans hc) (by simp), Or.inl (by simp)⟩
      · rw [RecvFrame.awaitProcessCqe, if_neg (by omega), if_pos hzero, hec]
      · rw [arrival, if_neg (by omega), if_pos hzero]
        simp
    · rw [if_neg (by omega)] at hcqe
      have hbuf : IsData buf := by
        refine ⟨?_, hcqe.2⟩
        simp only [RecvBuffer.empty, decide_eq_false_iff_not]
        omega
      have hall : ∀ b ∈ s.rf.buffers ++ [buf], IsData b := by
        intro b hb
        rcases List.mem_append.mp hb with hb | hb
        · exact hdata b hb
        · exact List.mem_singleton.mp hb ▸ hbuf
      refine ⟨s.rf.buffers ++ [buf], none, now, ?_, ?_, by simpa using hdata, fun _ => ⟨rfl, hall⟩,
        Or.inl (by simp)⟩
      · rw [RecvFrame.awaitProcessCqe, if_neg (by omega), if_neg (by omega), hec]
      · rw [arrival, if_neg (by omega), if_neg (by omega)]
        simp
  refine ⟨{ s with
    rf := { s.rf with
      h := none, buffers := buffers, ec := ec, lastRecv := last, initiated := cqe.more }
    handles := s.handles ++ s.rf.h.toList
    inFlight := if cqe.more then s.inFlight else s.inFlight - 1
    arrived := s.arrived ++ [arrival s.streamCancelled cqe buf p] }, ?_, ?_⟩
  · rw [perform, hproc]
    rfl
  · refine ⟨?_, hs.returned, hqueue, fun hc => ?_, fun hc => ?_, fun hrun => ?_, fun c hc hne => ?_,
      fun c hc hnil => ?_⟩
    · have horder := hs.order
      rw [hec] at horder
      change _ ++ (buffers.map _ ++ ec.toList.map _) = _
      rw [harr, ← horder]
      simp
    · have hm : cqe.more = true := hc
      exact ⟨by rw [if_pos hm]; exact hone, hmore hm⟩
    · have hm : cqe.more = false := hc
      simp [hm, hone]
    · obtain ⟨hnil, hh⟩ := hs.running hrun
      exact ⟨by simp [hnil, hh hbusy], fun _ => rfl⟩
    · by_cases hnil : s.handles = []
      · obtain ⟨hh, -, -⟩ := hs.waiting c hc hnil
        exact ⟨by simp [hnil, hh], rfl, hnew⟩
      · obtain ⟨hhc, hh, -⟩ := hs.collected c hc hnil
        exact ⟨by simp [hhc, hh], rfl, hnew⟩
    · obtain ⟨hnil', hhnil⟩ := List.append_eq_nil_iff.mp hnil
      obtain ⟨hh, -, -⟩ := hs.waiting c hc hnil'
      simp [hh] at hhnil

/-! ### Every step -/

/-- **No allowed step fails an assertion or resumes a coroutine that is not suspended**,
and each keeps the frame and the receiver in step. -/
theorem perform_ok (hs : Ok s) (hop : s.allows op) : ∃ s', s.perform op = some s' ∧ Ok s' := by
  cases op with
  | setBufferGroup g =>
    simp only [allows, Bool.and_eq_true, Bool.not_eq_true'] at hop
    refine ⟨{ s with rf := { s.rf with bufferGroupId := some g } }, ?_, hs.order, hs.returned,
      hs.queue, hs.busy, hs.idle, hs.running, hs.collected, hs.waiting⟩
    have hset : s.rf.setBufferGroup g = some { s.rf with bufferGroupId := some g } :=
      if_neg (by simp [hop.2])
    rw [perform, hset]
    rfl
  | setCancelled => exact ⟨_, rfl, hs.order, hs.returned, hs.queue, hs.busy, hs.idle, hs.running,
      hs.collected, hs.waiting⟩
  | awaitRecv h now =>
    simp only [allows, Bool.and_eq_true, Bool.not_eq_true', Option.isNone_iff_eq_none] at hop
    obtain ⟨hhandles, hnone⟩ := hs.running hop.2
    rw [perform]
    cases hready : s.rf.awaitReady with
    | true =>
      have hne : s.rf.buffers ≠ [] := by
        rintro hc
        simp [RecvFrame.awaitReady, hc] at hready
      have hres := hs.awaitResume (Or.inl hne) hnone
      rw [← hhandles] at hres
      simpa using hres
    | false =>
      rw [if_neg (by simp)]
      exact hs.awaitSuspend hop.2 (by simpa [RecvFrame.awaitReady] using hready)
  | startBatch => exact ⟨_, rfl, hs.order, hs.returned, hs.queue, hs.busy, hs.idle, hs.running,
      hs.collected, hs.waiting⟩
  | recvCqe cqe buf now p =>
    simp only [allows, Bool.and_eq_true, decide_eq_true_eq] at hop
    refine hs.recvCqe hop.1.2 ?_
    have hcqe := hop.2
    split_ifs at hcqe ⊢ <;> simpa using hcqe
  | endBatch => exact ⟨_, rfl, hs.order, hs.returned, hs.queue, hs.busy, hs.idle, hs.running,
      hs.collected, hs.waiting⟩
  | resume =>
    simp only [allows, Bool.and_eq_true, Bool.not_eq_true', List.isEmpty_eq_false_iff] at hop
    cases hw : s.waiter with
    | none => exact absurd (hs.running hw).1 hop.2
    | some c =>
      obtain ⟨hhandles, hh, hne⟩ := hs.collected c hw hop.2
      have hres := hs.awaitResume (x := none) hne fun _ => rfl
      rw [perform, hhandles]
      rw [← hh] at hres
      simpa [hw] using hres

theorem step_ok (hs : Ok s) (hstep : s.step op = some s') : Ok s' := by
  rw [step] at hstep
  split_ifs at hstep with hop
  obtain ⟨s'', hperform, hok⟩ := perform_ok hs hop
  exact Option.some.inj (hperform.symm.trans hstep) ▸ hok

end Delivery

/-- **Delivery on one connection**: over every sequence of completions, cut into batches in
any way, and every interleaving of awaits, what the receiver gets is what arrived, in
order – and no step of the program fails an assertion or resumes a coroutine that is
not suspended. -/
theorem delivery_inOrder (ops : List DeliveryOp) (s : Delivery)
    (hrun : run Delivery.step Delivery.init ops = some s) :
    s.Delivers ∧ ∀ op, s.allows op → (s.perform op).isSome := by
  have hs : s.Ok := run_invariant (fun _ _ _ => Delivery.step_ok) Delivery.ok_init hrun
  refine ⟨hs.delivers, fun op hop => ?_⟩
  obtain ⟨s', h, -⟩ := Delivery.perform_ok hs hop
  rw [h]
  rfl

/-- Data arrives while the receiver is suspended and once more before it is resumed, and
then, while it is away, the end of the stream; a second receive ends with a timeout. -/
theorem delivery_inOrder_sample : ∃ s, run Delivery.step Delivery.init
    [.setBufferGroup 7, .awaitRecv 0 0, .startBatch,
      .recvCqe ⟨5, true, some 0⟩ ⟨some 1, 64, 5, some 7⟩ 1 0,
      .recvCqe ⟨6, true, some 1⟩ ⟨some 2, 64, 6, some 7⟩ 1 0, .endBatch, .resume, .startBatch,
      .recvCqe ⟨0, false, none⟩ .defaulted 2 3, .endBatch, .awaitRecv 0 3, .awaitRecv 0 3,
      .startBatch, .recvCqe ⟨-125, false, none⟩ .defaulted 4 0, .endBatch, .resume] = some s ∧
    s.Delivers ∧ ∀ op, s.allows op → (s.perform op).isSome := by
  refine Exists.imp (fun s hrun => ⟨hrun, delivery_inOrder _ s hrun⟩) ?_
  exact ⟨_, rfl⟩

end Fiona
