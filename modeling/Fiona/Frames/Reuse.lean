import Fiona.Frames.Waiting

/-!
# A client that is connected again

A client can be closed and connected again, or connected anew after a send has failed. Its
`recv_frame` goes on as it is: neither `async_close` nor `async_connect` takes the queue, the
error or the multishot receive away. So what a receive of the earlier connection has left behind,
or is still to post, is handed out by the next `async_recv` (`Fiona.connections_mix`), unless
there is nothing of the kind when the later connect completes (`Fiona.connections_unmixed`).

The sockets that are asked for are numbered. Each buffer, each end of a stream, which is an empty
buffer, and each error is recorded with the number of the socket on which the receive that
produced it was armed.
-/

namespace Fiona

open Shared Transition

/-- A step of a client. -/
abbrev ClientOp := Shared.Op FrameId Coro ClientCall (Option Nat × Nat) ClientCqe ClientOther

/-- A client, and where its data comes from. -/
structure Reuse where
  state : State StreamImpl ClientArgs FrameId Coro ClientCall ClientRequest
  /-- The number of sockets that have been asked for. -/
  sockets : Nat
  /-- The socket of the connect that an awaitable has started last. -/
  socket : Nat → Nat
  /-- The socket of the connect that was last to complete without an error. -/
  connected : Nat
  /-- The socket on which the receive was armed last. -/
  armed : Nat
  /-- The sockets that the elements of `buffers_` come from, and that `ec_` comes from. -/
  buffers : List Nat
  ec : Option Nat
  /-- What `async_recv` has returned: the socket it comes from, and the one that was connected
  then. -/
  returned : List (Nat × Nat)

namespace Reuse

variable (r : Reuse)

def init (fd : Int) (now : Nat) : Reuse :=
  ⟨.init (.new fd now) .init, 0, fun _ => 0, 0, 0, [], none, []⟩

/-- `recv_awaitable::await_resume` hands out the queue, or else the error. -/
def handOut (rf : RecvFrame) : Reuse :=
  match rf.awaitResume with
  | some (.buffers _, _) =>
    { r with returned := r.returned ++ r.buffers.map fun k => (k, r.connected), buffers := [] }
  | some (.error _, _) =>
    { r with returned := r.returned ++ r.ec.toList.map fun k => (k, r.connected), ec := none }
  | none => r

/-- An awaitable of the call `x` has been awaited, when the receive frame was `rf`. -/
def recordAwait (a : Nat) (rf : RecvFrame) : ClientCall → Outcome StreamImpl FrameId → Reuse
  | .asyncRecv, .goesOn _ => r.handOut rf
  -- a receive that is in flight already stays on its socket
  | .asyncRecv, .suspends _ q => if .recv ∈ q then { r with armed := r.sockets } else r
  | .asyncConnect _, .suspends _ q =>
    -- a client that has a descriptor asks for no other socket
    let k := if .op .socket ∈ q then r.sockets + 1 else r.sockets
    { r with sockets := k, socket := Function.update r.socket a k }
  | _, _ => r

/-- A completion has been processed. -/
def recordComplete (a : Nat) (c : ClientCqe) : FrameId → Reuse
  | .recv =>
    if c.cqe.res < 0 then { r with ec := some r.armed }
      else { r with buffers := r.buffers ++ [r.armed] }
  | .op .connect => if 0 ≤ c.cqe.res then { r with connected := r.socket a } else r
  | _ => r

/-- What a step has to do with connections and data. -/
def record : ClientOp → Reuse
  | .await a h w =>
    match r.state.tickets a with
    | .live x => r.recordAwait a r.state.obj.recv x (r.state.obj.await h w.1 w.2 x)
    | _ => r
  | .complete i a c => r.recordComplete a c i
  | .resume h =>
    match r.state.waiter h with
    | some ⟨_, _, .recv⟩ => r.handOut r.state.obj.recv
    | _ => r
  | _ => r

/-- One step of the client. -/
def step (op : ClientOp) : Option Reuse :=
  (clientObject.step r.state op).map fun s => { r.record op with state := s }

/-- **What is asked of a client**: each element of the queue and the error have their origin
recorded, and nothing has been returned that comes from a socket before the one that was
connected. -/
structure Unmixed : Prop where
  buffers : r.buffers.length = r.state.obj.recv.buffers.length
  ec : r.ec.isSome = r.state.obj.recv.ec.isSome
  returned : ∀ p ∈ r.returned, p.2 ≤ p.1

/-- Nothing in the receive frame, and nothing that is to come into it, is from a socket before the
socket `k`. -/
structure Since (k : Nat) : Prop where
  buffers : ∀ j ∈ r.buffers, k ≤ j
  ec : ∀ j ∈ r.ec, k ≤ j
  armed : r.state.obj.recv.initiated = true → k ≤ r.armed

/-- The condition on a step: when a connect completes, the receive frame has nothing from an
earlier socket, and no receive of an earlier socket is in flight. -/
def Fresh : ClientOp → Prop
  | .complete i a c => i = .op .connect ∧ 0 ≤ c.cqe.res → r.Since (r.socket a)
  | _ => True

instance (k : Nat) : Decidable (r.Since k) :=
  decidable_of_iff ((∀ j ∈ r.buffers, k ≤ j) ∧ (∀ j ∈ r.ec, k ≤ j) ∧
    (r.state.obj.recv.initiated = true → k ≤ r.armed))
    ⟨fun ⟨hbuffers, hec, harmed⟩ => ⟨hbuffers, hec, harmed⟩, fun h => ⟨h.buffers, h.ec, h.armed⟩⟩

instance : (op : ClientOp) → Decidable (r.Fresh op)
  | .complete i a c =>
    inferInstanceAs (Decidable (i = .op .connect ∧ 0 ≤ c.cqe.res → r.Since (r.socket a)))
  | .create .. | .await .. | .submit | .resume _ | .destroy _ | .other _ => isTrue trivial

/-- What holds in a run whose steps all meet the condition. -/
structure Clean : Prop extends Unmixed r where
  sound : Sound clientObject StreamImpl.RecvInv r.state
  since : r.Since r.connected
  connected : r.connected ≤ r.sockets
  socket : ∀ a, r.socket a ≤ r.sockets

end Reuse

/-! ### What happens to the receive frame -/

namespace RecvFrame

/-- What matters of a receive frame. -/
def content (rf : RecvFrame) : List RecvBuffer × Option Nat × Bool :=
  (rf.buffers, rf.ec, rf.initiated)

theorem content_eq {rf rf' : RecvFrame} :
    rf.content = rf'.content ↔ rf.buffers = rf'.buffers ∧ rf.ec = rf'.ec ∧
    rf.initiated = rf'.initiated := by
  simp [content]

end RecvFrame

namespace StreamImpl

variable {s s' : StreamImpl} {h : Coro} {w : Option Nat × Nat} {x : ClientCall} {q : List FrameId}
  {f : FrameId}

/-- `await_resume` of an operation that is not the receive leaves the receive alone. -/
theorem awaitResume_content {k : FrameId} :
    (s.awaitResume k).recv.content =
      if k = .recv then ((s.recv.awaitResume.map Prod.snd).getD s.recv).content
      else s.recv.content := by
  cases k with
  | op o =>
    cases o <;> try rfl
    simp only [awaitResume, connectAwaitResume]
    split_ifs <;> first | rfl | simp_all
  | recv => rfl
  | _ => rfl

/-- A completion of an operation leaves the receive alone. -/
theorem opAwaitProcessCqe_recv (o : Op) (res : Int) :
    (s.opAwaitProcessCqe o res).1.recv = s.recv := by
  cases o with
  | send =>
    unfold opAwaitProcessCqe sendAwaitProcessCqe
    dsimp only
    split_ifs <;> rfl
  | socket =>
    unfold opAwaitProcessCqe socketAwaitProcessCqe
    dsimp only
    split_ifs <;> rfl
  | connect =>
    unfold opAwaitProcessCqe connectAwaitProcessCqe
    dsimp only
    split_ifs <;> rfl
  | cancel | close | shutdown => rfl

/-- An operation that is not the receive leaves the receive alone. -/
theorem await_content (hx : x ≠ .asyncRecv)
    (hawait : s.await h w.1 w.2 x = .goesOn s' ∨ s.await h w.1 w.2 x = .suspends s' q) :
    s'.recv.content = s.recv.content := by
  have hsusp : ∀ {r : StreamImpl × List Sqe}, r.1.recv = s.recv →
      (Outcome.suspends r.1 (requests r.2) = .goesOn s' ∨
        Outcome.suspends r.1 (requests r.2) = .suspends s' q) →
      s'.recv.content = s.recv.content := by
    rintro r hr (hgo | hsusp)
    · cases hgo
    · rw [← (Outcome.suspends.inj hsusp).1, hr]
  cases x with
  | asyncClose => exact hsusp closeAwaitSuspend_starts.recv hawait
  | asyncCancel => exact hsusp cancelAwaitSuspend_starts.recv hawait
  | asyncShutdown how => exact hsusp shutdownAwaitSuspend_starts.recv hawait
  | asyncSend buf =>
    cases hsend : s.sendAwaitSuspend h w.2 with
    | none => simp [await, hsend] at hawait
    | some r =>
      simp only [await, hsend, Option.elim_some] at hawait
      exact hsusp (sendAwaitSuspend_starts hsend).2.recv hawait
  | asyncConnect addr =>
    rcases s.awaitConnect_cases h w.1 with ⟨-, heq⟩ | ⟨-, heq⟩ | ⟨-, heq⟩
    · simp [await, heq] at hawait
    · simp only [await, heq, Outcome.goesOn.injEq, reduceCtorEq, or_false] at hawait
      subst hawait
      exact awaitResume_content
    · simp only [await, heq] at hawait
      exact hsusp (s.connectAwaitSuspend_calls w.1).recv hawait
  | asyncRecv => exact absurd rfl hx

/-- Awaiting the receive goes on with what `await_resume` leaves of it. -/
theorem awaitRecv_goesOn_content {now : Nat} (hawait : s.awaitRecv h now = .goesOn s') :
    s'.recv.content = ((s.recv.awaitResume.map Prod.snd).getD s.recv).content := by
  cases hready : s.recv.awaitReady with
  | true =>
    rw [awaitRecv, if_pos hready] at hawait
    obtain rfl := Outcome.goesOn.inj hawait
    rfl
  | false =>
    have hempty : s.recv.buffers.isEmpty = true := by simpa [RecvFrame.awaitReady] using hready
    cases hec : s.recv.ec with
    | some e =>
      simp [awaitRecv, hready, recvAwaitSuspend, RecvFrame.awaitSuspend, hec] at hawait
      subst hawait
      simp [awaitResume, recvAwaitResume, RecvFrame.awaitResume, hempty, hec, RecvFrame.content]
    | none =>
      cases hinit : s.recv.initiated with
      | true =>
        simp [awaitRecv, hready, recvAwaitSuspend, RecvFrame.awaitSuspend, hec, hinit] at hawait
      | false =>
        cases hg : s.recv.bufferGroupId with
        | none =>
          -- without a buffer group `await_suspend` throws, and there is nothing to hand out
          simp [awaitRecv, hready, recvAwaitSuspend, RecvFrame.awaitSuspend, hec, hinit,
            hg] at hawait
          subst hawait
          simp [RecvFrame.awaitResume, hempty, hec, hinit, RecvFrame.content]
        | some g =>
          simp [awaitRecv, hready, recvAwaitSuspend, RecvFrame.awaitSuspend, hec, hinit,
            hg] at hawait

/-- Awaiting the receive leaves its data, and may arm it. -/
theorem awaitRecv_suspends_content {now : Nat} (hawait : s.awaitRecv h now = .suspends s' q) :
    s'.recv.buffers = s.recv.buffers ∧ s'.recv.ec = s.recv.ec ∧
      (.recv ∉ q → s'.recv.initiated = s.recv.initiated) := by
  cases hready : s.recv.awaitReady with
  | true =>
    rw [awaitRecv, if_pos hready] at hawait
    cases hawait
  | false =>
    cases hec : s.recv.ec with
    | some e => simp [awaitRecv, hready, recvAwaitSuspend, RecvFrame.awaitSuspend, hec] at hawait
    | none =>
      cases hinit : s.recv.initiated with
      | true =>
        simp [awaitRecv, hready, recvAwaitSuspend, RecvFrame.awaitSuspend, hec, hinit] at hawait
        obtain ⟨rfl, rfl⟩ := hawait
        exact ⟨rfl, hec.symm ▸ rfl, fun _ => hinit.symm ▸ rfl⟩
      | false =>
        cases hg : s.recv.bufferGroupId with
        | none =>
          simp [awaitRecv, hready, recvAwaitSuspend, RecvFrame.awaitSuspend, hec, hinit,
            hg] at hawait
        | some g =>
          simp [awaitRecv, hready, recvAwaitSuspend, RecvFrame.awaitSuspend, hec, hinit,
            hg] at hawait
          obtain ⟨rfl, rfl⟩ := hawait
          exact ⟨rfl, hec.symm ▸ rfl, fun hnot => absurd List.mem_cons_self hnot⟩

/-- A completion of another operation leaves the receive alone. -/
theorem processCqe_content {c : ClientCqe} {found : Option Coro} {slot : Option Int} {q : List Sqe}
    (hf : f ≠ .recv) (hposts : Life.posts f c.cqe = true)
    (hprocess : Life.processCqe s c.cqe c.now c.p c.buf f = some (s', found, slot, q)) :
    s'.recv.content = s.recv.content := by
  cases f with
  | op o =>
    simp only [Life.processCqe, Option.some.injEq, Prod.mk.injEq] at hprocess
    obtain ⟨rfl, -, -, -⟩ := hprocess
    obtain ⟨-, -, -, hrecv, -⟩ := (s.opAwaitProcessCqe o c.cqe.res).1.opHandle_keeps o
    rw [hrecv, opAwaitProcessCqe_recv]
  | recv => exact absurd rfl hf
  | timeout =>
    obtain ⟨hrecv, -, -⟩ := s.timeoutAwaitProcessCqe_keeps (Life.posts_timeout hposts) c.now
    simp only [Life.processCqe, Option.some.injEq, Prod.mk.injEq] at hprocess
    obtain ⟨rfl, -, -, -⟩ := hprocess
    rw [hrecv]
  | timeoutCancel =>
    simp only [Life.processCqe, Option.some.injEq, Prod.mk.injEq] at hprocess
    obtain ⟨rfl, -, -, -⟩ := hprocess
    rfl

/-- A completion of the receive sets the error, or adds to the queue. -/
theorem processCqe_recv_content {c : ClientCqe} {found : Option Coro} {slot : Option Int}
    {q : List Sqe}
    (hprocess : Life.processCqe s c.cqe c.now c.p c.buf .recv = some (s', found, slot, q)) :
    if c.cqe.res < 0 then s'.recv.buffers = s.recv.buffers ∧ s'.recv.ec.isSome = true
    else s'.recv.buffers.length = s.recv.buffers.length + 1 ∧ s'.recv.ec = s.recv.ec := by
  simp only [Life.processCqe, recvAwaitProcessCqe, Option.bind_eq_bind, Option.bind_eq_some_iff]
    at hprocess
  obtain ⟨s₁, ⟨rf, hrf, heq⟩, hfound⟩ := hprocess
  have hs₁ : s₁.recv = rf := by
    obtain rfl := Option.some.inj heq
    cases c.cqe.more <;> rfl
  simp only [Option.some.injEq, Prod.mk.injEq] at hfound
  obtain ⟨rfl, -, -, -⟩ := hfound
  have hkept : s₁.recv.handle.2.buffers = rf.buffers ∧ s₁.recv.handle.2.ec = rf.ec := by
    rw [hs₁]
    exact ⟨rfl, rfl⟩
  simp only [hkept]
  unfold RecvFrame.awaitProcessCqe at hrf
  split_ifs at hrf ⊢ with hneg hec hzero <;> obtain rfl := Option.some.inj hrf
  · exact ⟨rfl, rfl⟩
  · exact ⟨by simp, rfl⟩
  · exact ⟨by simp, rfl⟩

theorem other_content {b : ClientOther} (hother : s.other b = some s') :
    s'.recv.content = s.recv.content := by
  cases b with
  | timeout cqe now =>
    simp only [StreamImpl.other, Option.ite_none_right_eq_some, Option.some.injEq] at hother
    obtain ⟨hposts, rfl⟩ := hother
    rw [(s.timeoutAwaitProcessCqe_keeps (Life.posts_timeout hposts) now).1]
  | timeoutCancel res =>
    obtain rfl := Option.some.inj hother
    rfl
  | setTimeout ts =>
    obtain rfl := Option.some.inj hother
    rfl
  | setBufferGroup g =>
    obtain ⟨rf, hrf, rfl⟩ := Option.map_eq_some_iff.mp hother
    unfold RecvFrame.setBufferGroup at hrf
    split_ifs at hrf with hinit
    obtain rfl := Option.some.inj hrf
    rfl

end StreamImpl

/-! ### What holds in every run that meets the condition -/

namespace Reuse

variable {r : Reuse}
  {s' : State StreamImpl ClientArgs FrameId Coro ClientCall ClientRequest}

theorem Clean.init (fd : Int) (now : Nat) : Clean (init fd now) where
  buffers := rfl
  ec := rfl
  returned := by simp [Reuse.init]
  sound := .init ⟨rfl, fun hup => Bool.noConfusion (hup : false = true)⟩
  since := ⟨by simp [Reuse.init], by simp [Reuse.init], fun _ => Nat.le_refl _⟩
  connected := Nat.le_refl _
  socket _ := Nat.le_refl _

/-- A step that has nothing to do with the receive. -/
theorem Clean.of_content (hr : r.Clean) (hsound : Sound clientObject StreamImpl.RecvInv s')
    (hcontent : s'.obj.recv.content = r.state.obj.recv.content) : Clean { r with state := s' } := by
  obtain ⟨hbuffers, hec, hinit⟩ := RecvFrame.content_eq.mp hcontent
  exact ⟨⟨hr.buffers.trans (congrArg List.length hbuffers).symm,
    hr.ec.trans (congrArg Option.isSome hec).symm, hr.returned⟩, hsound,
    ⟨hr.since.buffers, hr.since.ec, fun hup => hr.since.armed (hinit ▸ hup)⟩, hr.connected,
    hr.socket⟩

/-- What `async_recv` hands out is from the socket that is connected, or from a later one. -/
theorem Clean.handOut (hr : r.Clean) (hsound : Sound clientObject StreamImpl.RecvInv s')
    (hcontent : s'.obj.recv.content =
      ((r.state.obj.recv.awaitResume.map Prod.snd).getD r.state.obj.recv).content) :
    Clean { r.handOut r.state.obj.recv with state := s' } := by
  have hafter := RecvFrame.content_eq.mp hcontent
  unfold RecvFrame.awaitResume at hafter
  unfold Reuse.handOut RecvFrame.awaitResume
  split_ifs at hafter ⊢ with hempty
  · cases hec : r.state.obj.recv.ec with
    | none =>
      rw [hec] at hafter
      exact hr.of_content hsound (RecvFrame.content_eq.mpr hafter)
    | some e =>
      rw [hec] at hafter
      obtain ⟨hbuffers, hec', hinit⟩ := hafter
      refine ⟨⟨hr.buffers.trans (congrArg List.length hbuffers).symm,
        (congrArg Option.isSome hec').symm, fun p hp => ?_⟩, hsound,
        ⟨hr.since.buffers, by simp, fun hup => hr.since.armed (hinit ▸ hup)⟩, hr.connected,
        hr.socket⟩
      rcases List.mem_append.mp hp with hp | hp
      · exact hr.returned p hp
      · obtain ⟨k, hk, rfl⟩ := List.mem_map.mp hp
        exact hr.since.ec k (Option.mem_toList.mp hk)
  · obtain ⟨hbuffers, hec', hinit⟩ := hafter
    refine ⟨⟨(congrArg List.length hbuffers).symm, hr.ec.trans (congrArg Option.isSome hec').symm,
      fun p hp => ?_⟩, hsound, ⟨by simp, hr.since.ec, fun hup => hr.since.armed (hinit ▸ hup)⟩,
      hr.connected, hr.socket⟩
    rcases List.mem_append.mp hp with hp | hp
    · exact hr.returned p hp
    · obtain ⟨k, hk, rfl⟩ := List.mem_map.mp hp
      exact hr.since.buffers k hk

/-- An operation that is not the receive is awaited. -/
theorem Clean.await_op (hr : r.Clean) {a : Nat} {h : Coro} {w : Option Nat × Nat} {x : ClientCall}
    (hx : x ≠ .asyncRecv)
    (hsound : Sound clientObject StreamImpl.RecvInv
      (clientObject.awaited r.state a x h (r.state.obj.await h w.1 w.2 x))) :
    Clean { r.recordAwait a r.state.obj.recv x (r.state.obj.await h w.1 w.2 x) with
      state := clientObject.awaited r.state a x h (r.state.obj.await h w.1 w.2 x) } := by
  cases hawait : r.state.obj.await h w.1 w.2 x with
  | refuses =>
    rw [hawait] at hsound
    cases x <;> exact hr.of_content hsound rfl
  | goesOn o =>
    rw [hawait] at hsound
    have hcontent := StreamImpl.await_content (q := []) hx (.inl hawait)
    cases x <;> first | exact absurd rfl hx | exact hr.of_content hsound hcontent
  | suspends o q =>
    rw [hawait] at hsound
    have hcontent := StreamImpl.await_content hx (.inr hawait)
    cases x with
    | asyncConnect addr =>
      have hclean := hr.of_content hsound hcontent
      have hle : r.sockets ≤ if .op .socket ∈ q then r.sockets + 1 else r.sockets := by
        split <;> omega
      refine ⟨⟨hclean.buffers, hclean.ec, hr.returned⟩, hsound,
        ⟨hr.since.buffers, hr.since.ec, hclean.since.armed⟩, hr.connected.trans hle, fun b => ?_⟩
      rcases eq_or_ne b a with rfl | hne
      · simp [recordAwait]
      · simpa [recordAwait, hne] using (hr.socket b).trans hle
    | asyncRecv => exact absurd rfl hx
    | _ => exact hr.of_content hsound hcontent

/-- The receive is awaited. -/
theorem Clean.await_recv (hr : r.Clean) {a : Nat} {h : Coro} {w : Option Nat × Nat}
    (hsound : Sound clientObject StreamImpl.RecvInv
      (clientObject.awaited r.state a .asyncRecv h (r.state.obj.awaitRecv h w.2))) :
    Clean { r.recordAwait a r.state.obj.recv .asyncRecv (r.state.obj.awaitRecv h w.2) with
      state := clientObject.awaited r.state a .asyncRecv h (r.state.obj.awaitRecv h w.2) } := by
  cases hawait : r.state.obj.awaitRecv h w.2 with
  | refuses =>
    rw [hawait] at hsound
    exact hr.of_content hsound rfl
  | goesOn o =>
    rw [hawait] at hsound
    exact hr.handOut hsound (StreamImpl.awaitRecv_goesOn_content hawait)
  | suspends o q =>
    rw [hawait] at hsound
    obtain ⟨hbuffers, hec, hinit⟩ := StreamImpl.awaitRecv_suspends_content hawait
    by_cases hq : .recv ∈ q
    -- it is armed on the socket that was asked for last
    · simp only [recordAwait, if_pos hq]
      exact ⟨⟨hr.buffers.trans (congrArg List.length hbuffers).symm,
        hr.ec.trans (congrArg Option.isSome hec).symm, hr.returned⟩, hsound,
        ⟨hr.since.buffers, hr.since.ec, fun _ => hr.connected⟩, hr.connected, hr.socket⟩
    · simp only [recordAwait, if_neg hq]
      exact hr.of_content hsound (RecvFrame.content_eq.mpr ⟨hbuffers, hec, hinit hq⟩)

/-- A completion of the receive: it has been armed on the socket that is connected, or on a later
one. -/
theorem Clean.complete_recv (hr : r.Clean) {a : Nat} {c : ClientCqe} {o : StreamImpl}
    {found : Option Coro}
    (hsound : Sound clientObject StreamImpl.RecvInv
      (clientObject.completed r.state .recv a c o found))
    (hany : r.state.requests.any (Object.answers .recv a) = true)
    (hprocess : clientObject.process r.state.obj .recv c = some (o, found)) :
    Clean { r.recordComplete a c .recv with
      state := clientObject.completed r.state .recv a c o found } := by
  obtain ⟨⟨o', found', slot, q⟩, hp, heq⟩ := Option.map_eq_some_iff.mp hprocess
  obtain ⟨rfl, rfl⟩ := Prod.mk.inj heq
  have hcontent := StreamImpl.processCqe_recv_content hp
  -- a receive is in flight, or there would be no request to complete
  have hup : r.state.obj.recv.initiated = true := by
    have hpos := outstanding_pos hany
    rw [hr.sound.inv.1] at hpos
    cases hinit : r.state.obj.recv.initiated with
    | true => rfl
    | false => simp [hinit] at hpos
  have harmed : r.connected ≤ r.armed := hr.since.armed hup
  by_cases hneg : c.cqe.res < 0
  · obtain ⟨hbuffers, hec⟩ := (if_pos hneg).mp hcontent
    simp only [recordComplete, if_pos hneg]
    exact ⟨⟨hr.buffers.trans (congrArg List.length hbuffers).symm, hec.symm, hr.returned⟩, hsound,
      ⟨hr.since.buffers, by simpa using harmed, fun _ => harmed⟩, hr.connected, hr.socket⟩
  · obtain ⟨hbuffers, hec⟩ := (if_neg hneg).mp hcontent
    simp only [recordComplete, if_neg hneg]
    refine ⟨⟨?_, hr.ec.trans (congrArg Option.isSome hec).symm, hr.returned⟩, hsound,
      ⟨fun j hj => ?_, hr.since.ec, fun _ => harmed⟩, hr.connected, hr.socket⟩
    · rw [List.length_append, hr.buffers]
      exact hbuffers.symm
    · rcases List.mem_append.mp hj with hj | hj
      · exact hr.since.buffers j hj
      · exact List.mem_singleton.mp hj ▸ harmed

/-- A completion of another request, which may be that of a connect. -/
theorem Clean.complete_op (hr : r.Clean) {f : FrameId} {a : Nat} {c : ClientCqe} {o : StreamImpl}
    {found : Option Coro} (hf : f ≠ .recv) (hC : r.Fresh (.complete f a c))
    (hsound : Sound clientObject StreamImpl.RecvInv (clientObject.completed r.state f a c o found))
    (hposts : Life.posts f c.cqe = true)
    (hprocess : clientObject.process r.state.obj f c = some (o, found)) :
    Clean { r.recordComplete a c f with
      state := clientObject.completed r.state f a c o found } := by
  obtain ⟨⟨o', found', slot, q⟩, hp, heq⟩ := Option.map_eq_some_iff.mp hprocess
  obtain ⟨rfl, rfl⟩ := Prod.mk.inj heq
  have hcontent := StreamImpl.processCqe_content hf hposts hp
  by_cases hconnect : f = .op .connect
  · subst hconnect
    by_cases hres : 0 ≤ c.cqe.res
    · -- from here on the receive frame has to do with the new socket
      have hnew := hC ⟨rfl, hres⟩
      have hfresh : Clean { r with connected := r.socket a } :=
        ⟨⟨hr.buffers, hr.ec, hr.returned⟩, hr.sound, ⟨hnew.buffers, hnew.ec, hnew.armed⟩,
          hr.socket a, hr.socket⟩
      simpa only [recordComplete, if_pos hres] using hfresh.of_content hsound hcontent
    · simpa only [recordComplete, if_neg hres] using hr.of_content hsound hcontent
  · have hsame : r.recordComplete a c f = r := by
      cases f with
      | op o => cases o <;> first | exact absurd rfl hconnect | rfl
      | recv => exact absurd rfl hf
      | _ => rfl
    rw [hsame]
    exact hr.of_content hsound hcontent

/-- **A step that meets the condition keeps the connections apart.** -/
theorem Clean.step (hr : r.Clean) {op : ClientOp} {r' : Reuse} (hC : r.Fresh op)
    (hstep : r.step op = some r') : r'.Clean := by
  obtain ⟨s', hs', rfl⟩ := Option.map_eq_some_iff.mp hstep
  have hsound := hr.sound.step clientObject_parks hs'
  cases op with
  | create a x =>
    obtain ⟨-, rfl⟩ := Object.step_create hs'
    exact hr.of_content hsound rfl
  | await a h w =>
    obtain ⟨x, hx, -, -, rfl⟩ := Object.step_await hs'
    simp only [record, hx]
    by_cases hrecv : x = .asyncRecv
    · subst hrecv
      exact hr.await_recv hsound
    · exact hr.await_op hrecv hsound
  | submit =>
    cases hs'
    exact hr.of_content hsound rfl
  | complete i a c =>
    obtain ⟨o, found, hany, hposts, hprocess, rfl⟩ := Object.step_complete hs'
    rcases eq_or_ne i .recv with rfl | hne
    · exact hr.complete_recv hsound hany hprocess
    · exact hr.complete_op hne hC hsound hposts hprocess
  | resume h =>
    obtain ⟨w, hw, -, rfl⟩ := Object.step_resume hs'
    have hcontent : (clientObject.resumed r.state w).obj.recv.content = _ :=
      StreamImpl.awaitResume_content (s := r.state.obj) (k := w.kind)
    simp only [record, hw]
    rcases eq_or_ne w.kind .recv with hkind | hne
    · rw [if_pos hkind] at hcontent
      obtain ⟨thread, ticket, kind⟩ := w
      obtain rfl : kind = .recv := hkind
      exact hr.handOut hsound hcontent
    · rw [if_neg hne] at hcontent
      obtain ⟨thread, ticket, kind⟩ := w
      cases kind with
      | recv => exact absurd rfl hne
      | _ => exact hr.of_content hsound hcontent
  | destroy a =>
    obtain ⟨x, -, -, rfl⟩ := Object.step_destroy hs'
    exact hr.of_content hsound rfl
  | other b =>
    obtain ⟨o, ho, rfl⟩ := Object.step_other hs'
    exact hr.of_content hsound (StreamImpl.other_content ho)

end Reuse

/-- **As long as every connect that completes finds nothing of an earlier connection in the
receive frame, nothing of an earlier connection is returned by `async_recv`.** -/
theorem connections_unmixed (fd : Int) (now : Nat) (ops : List ClientOp)
    (hops : StepsMeet Reuse.step Reuse.Fresh (.init fd now) ops) :
    Along Reuse.step Reuse.Unmixed (.init fd now) ops :=
  (along_of_stepsMeet (fun _ _ _ hr hC hstep => Reuse.Clean.step hr hC hstep)
    (Reuse.Clean.init fd now) hops).mono fun _ hr => Reuse.Clean.toUnmixed hr

namespace Reuse

/-- The coroutine `h` awaits the call `x`, and the ring is submitted. -/
def issue (h a : Nat) (x : ClientCall) (slot : Option Nat) : List ClientOp :=
  [.create a x, .await a h (slot, 0), .submit]

/-- A completion, as to what is read of it here. -/
def posted (res : Int) (more : Bool) : ClientCqe := ⟨⟨res, more, none⟩, 0, 0, .defaulted⟩

/-- The coroutine 1 connects. -/
def connects (a slot : Nat) : List ClientOp :=
  issue 1 a (.asyncConnect ⟨true, 0⟩) (some slot) ++
    [.complete (.op .socket) a (posted 0 false), .complete (.op .connect) a (posted 0 false),
      .resume 1]

/-- A client is connected, it receives in the coroutine 2, and then something else happens. -/
def receives (ops : List ClientOp) : List ClientOp :=
  [.other (.setBufferGroup 0)] ++ connects 0 3 ++ issue 2 1 .asyncRecv none ++
    [.complete .recv 1 (posted 5 true), .resume 2] ++ ops

/-- It is closed by the coroutine 1, which cancels the receive that the ticket `a` has started. -/
def closes (a : Nat) (ops : List ClientOp) : List ClientOp :=
  issue 1 a .asyncClose none ++
    [.complete .recv 1 (posted (-Errno.ECANCELED) false)] ++ ops ++
    [.complete (.op .close) a (posted 0 false), .resume 1]

end Reuse

open Reuse

/-- A client whose receive is waited for when it is closed, and which is then connected again. -/
theorem connections_unmixed_sample :
    let ops := receives (issue 2 2 .asyncRecv none ++ closes 3 [.resume 2] ++ connects 4 5 ++
      issue 2 5 .asyncRecv none ++ [.complete .recv 5 (posted 7 true), .resume 2])
    (run Reuse.step (.init (-1) 0) ops).map Reuse.returned = some [(1, 1), (1, 1), (2, 2)] ∧
      Along Reuse.step Reuse.Unmixed (.init (-1) 0) ops :=
  ⟨rfl, connections_unmixed (-1) 0 _ (by decide)⟩

/-- What is received and not taken before the client is closed is returned by the next
connection. -/
theorem connections_mix :
    ¬∀ ops r, run Reuse.step (.init (-1) 0) ops = some r → r.Unmixed := by
  intro hall
  have hunmixed := hall (receives ([.complete .recv 1 (posted 5 true)] ++ closes 3 [] ++
    connects 4 5 ++ issue 2 5 .asyncRecv none)) _ rfl
  exact absurd (hunmixed.returned (1, 2) (List.mem_cons_of_mem _ List.mem_cons_self)) (by decide)

end Fiona
