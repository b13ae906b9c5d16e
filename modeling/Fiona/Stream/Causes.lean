import Fiona.Stream.Flags
import Fiona.Stream.Ring

/-!
# Timeouts and cancellations

A cancel ends a receive with `-ECANCELED`, whoever issued it. `recv_frame` reports a timeout
unless `stream_cancelled_` is set, which `async_cancel` and `async_close` set and nothing
resets. So after the first of these every timeout is reported as a cancellation.

The ring knows whose cancel ended a receive; beside it, this records whether `async_cancel`
or `async_close` was ever awaited, and what was reported for each receive that was cancelled.
-/

namespace Fiona

open Transition

structure Reporting where
  ring : StreamRing
  asked : Bool
  reported : List (Cause × Option Nat)

namespace Reporting

variable (s : Reporting)

def created (o : Origin) (now : Nat) : Reporting := ⟨.created o now, false, []⟩

/-- `async_cancel` or `async_close` is awaited. -/
def asks : RingOp → Bool
  | .life (.await (.op .cancel) _ _ _) | .life (.await (.op .close) _ _ _) => true
  | _ => false

/-- The cancel that ended the receive whose completion is processed. -/
def causeOf : RingOp → Option Cause
  | .life (.process .recv _ _ _ _) => s.ring.recvCq.head?.bind Prod.snd
  | _ => none

def step (op : RingOp) : Option Reporting :=
  (s.ring.step op).map fun r =>
    { ring := r
      asked := s.asked || asks op
      reported := s.reported ++ ((s.causeOf op).map fun c => (c, r.life.impl.recv.ec)).toList }

/-! ### What is asked for -/

/-- The error that is right for a receive that was cancelled. -/
def due : Cause → Option Nat
  | .tick => some Errno.ETIMEDOUT
  | .cancel | .close => some Errno.ECANCELED
  | .handle => none

/-- A tick is reported as a timeout, and `async_cancel` and `async_close` as a cancellation. -/
def ToldApart : Prop := ∀ c ec, (c, ec) ∈ s.reported → ∀ e, due c = some e → ec = some e

/-- The receive that a tick ended is reported before any `async_cancel` or `async_close`. -/
def Unasked (op : RingOp) : Prop := s.causeOf op = some .tick → s.asked = false

instance (op : RingOp) : Decidable (s.Unasked op) :=
  inferInstanceAs (Decidable (s.causeOf op = some .tick → s.asked = false))

/-! ### The invariant -/

/-- An entry that cancels on behalf of `async_cancel` or of `async_close`. -/
def isCancel : Sqe → Bool
  | .request (.op .cancel) _ | .cancelFd _ => true
  | _ => false

structure Inv (s : Reporting) : Prop where
  flag : s.ring.life.impl.streamCancelled = s.asked
  queued : ∀ e ∈ s.ring.sq, isCancel e = true → s.asked = true
  ended : ∀ cqe c, (cqe, some c) ∈ s.ring.recvCq →
    cqe = StreamRing.canceled ∧ (c = .cancel ∨ c = .close → s.asked = true)
  told : s.ToldApart

variable {s} {s' : Reporting} {l l' : Life} {op : LifeOp}

theorem handleDestructor_cancels {s : StreamImpl} (asClient : Bool) :
    (s.handleDestructor asClient).2.any isCancel = false := by
  unfold StreamImpl.handleDestructor StreamImpl.queueTimerCancel StreamImpl.cancelRecv
  dsimp only
  split_ifs <;> rfl

theorem awaitableDestructor_cancels {s : StreamImpl} (f : FrameId) :
    (s.awaitableDestructor f).any isCancel = false := by
  unfold StreamImpl.awaitableDestructor StreamImpl.sendAwaitableDestructor
    StreamImpl.connectAwaitableDestructor
  split <;> first | rfl | (split_ifs <;> rfl)

theorem awaitQueued_cancels {h : Coro} {slot : Option Nat} {now : Nat} {f : FrameId}
    (hf : asks (.life (.await f h slot now)) = false) :
    (l.awaitQueued h slot now f).any isCancel = false := by
  cases f with
  | op o =>
    cases o with
    | cancel => exact absurd hf (by simp [asks])
    | close => exact absurd hf (by simp [asks])
    | send =>
      simp only [Life.awaitQueued, StreamImpl.sendAwaitSuspend]
      split_ifs <;> rfl
    | connect =>
      simp only [Life.awaitQueued, StreamImpl.connectAwaitSuspend, StreamImpl.connectSocket]
      split_ifs <;> rfl
    | _ => rfl
  | recv =>
    simp only [Life.awaitQueued]
    split_ifs
    · rfl
    · rcases l.impl.recvAwaitSuspend_cases h now with ⟨w, rf, heq, -⟩ | ⟨g, rf, fd, heq, -⟩ <;>
        exact heq ▸ rfl
  | _ => rfl

/-- Only `async_cancel` and `async_close` queue such an entry. -/
theorem asks_of_queued (hstep : l.step op = some l') {e : Sqe} (he : e ∈ l.queued op)
    (hcancel : isCancel e = true) : asks (.life op) = true := by
  by_contra hasks
  have hasks : asks (.life op) = false := by simpa using hasks
  have hnone : (l.queued op).any isCancel = false := by
    cases op with
    | destroyHandle asClient => exact handleDestructor_cancels asClient
    | dropAwaitable f => exact awaitableDestructor_cancels f
    | await f h slot now => exact awaitQueued_cancels hasks
    | process f cqe now p buf =>
      refine List.any_eq_false.mpr fun e he => ?_
      obtain ⟨fd, rfl | rfl⟩ := Life.process_queued hstep he <;> simp [isCancel]
    | _ => rfl
  exact absurd hcancel (by simpa using List.any_eq_false.mp hnone e he)

/-- The flag says whether one of the two was ever awaited. -/
theorem Inv.flag_step (hs : Inv s) (hstep : s.ring.life.step op = some l) :
    l.impl.streamCancelled = (s.asked || asks (.life op)) := by
  rcases Life.flags_step hstep with ⟨hsame, hawait, -⟩ | ⟨o, h, slot, now, ho, rfl, -, hup⟩ |
    ⟨o, cqe, now, p, buf, rfl, -, hsame⟩
  · have hasks : asks (.life op) = false := by
      unfold asks
      split
      · rename_i heq
        exact absurd (RingOp.life.inj heq) (hawait _ _ _).1
      · rename_i heq
        exact absurd (RingOp.life.inj heq) (hawait _ _ _).2
      · rfl
    rw [hsame.streamCancelled, hs.flag, hasks, Bool.or_false]
  · rcases ho with rfl | rfl <;> simp [hup, asks]
  · rw [hsame, hs.flag]
    simp [asks]

/-- A receive that was cancelled is reported by the flag alone. -/
theorem reported_ec {cqe : Cqe} {now p : Nat} {buf : RecvBuffer}
    (hstep : l.step (.process .recv cqe now p buf) = some l') (hcqe : cqe = StreamRing.canceled) :
    l'.impl.recv.ec =
      some (if l.impl.streamCancelled then Errno.ECANCELED else Errno.ETIMEDOUT) := by
  obtain ⟨-, hperform⟩ := Option.ite_none_right_eq_some.mp hstep
  obtain ⟨s', x, slot, q, hp, rfl⟩ := Life.perform_process hperform
  simp only [Life.processCqe, StreamImpl.recvAwaitProcessCqe, Option.bind_eq_bind,
    Option.bind_eq_some_iff] at hp
  obtain ⟨s₁, ⟨rf, hrf, hs₁⟩, heq⟩ := hp
  obtain rfl := Option.some.inj hs₁
  simp only [Option.some.injEq, Prod.mk.injEq] at heq
  obtain ⟨rfl, -⟩ := heq
  subst hcqe
  have hec : rf.ec = some (RecvFrame.errorOf l.impl.streamCancelled (-Errno.ECANCELED)) := by
    rw [RecvFrame.awaitProcessCqe, if_pos (show StreamRing.canceled.res < 0 by decide)] at hrf
    split_ifs at hrf
    exact Option.some.inj hrf ▸ rfl
  change (StreamImpl.release _).1.recv.ec = _
  rw [StreamImpl.release_keeps.2.2.1]
  change rf.ec = _
  rw [hec]
  cases l.impl.streamCancelled <;> rfl

/-! ### Each step -/

theorem isCancel_of_endsRecv {fd : Int} {e : Sqe} {c : Cause}
    (hends : StreamRing.endsRecv fd e = some c) (hc : c = .cancel ∨ c = .close) :
    isCancel e = true := by
  rcases hc with rfl | rfl <;> unfold StreamRing.endsRecv at hends <;> split at hends <;>
    first | rfl | exact absurd hends (by simp)

/-- A step of the kernel. -/
theorem Inv.silent (hs : Inv s) {r : StreamRing} (hlife : r.life = s.ring.life)
    (hsq : r.sq ⊆ s.ring.sq)
    (hcq : ∀ cqe c, (cqe, some c) ∈ r.recvCq → (cqe, some c) ∈ s.ring.recvCq ∨
      cqe = StreamRing.canceled ∧ (c = .cancel ∨ c = .close → s.asked = true)) :
    Inv ⟨r, s.asked || false, s.reported ++ []⟩ := by
  rw [Bool.or_false, List.append_nil]
  exact ⟨hlife ▸ hs.flag, fun e he => hs.queued e (hsq he),
    fun cqe c hmem => (hcq cqe c hmem).elim (hs.ended cqe c) id, hs.told⟩

theorem Inv.submit (hs : Inv s) {r : StreamRing} (hstep : s.ring.submit = some r) :
    Inv ⟨r, s.asked || false, s.reported ++ []⟩ := by
  obtain ⟨e, hsq, hcq⟩ := StreamRing.submit_recvCq hstep
  refine hs.silent (StreamRing.submit_life hstep) (hsq ▸ List.subset_cons_self e r.sq)
    fun cqe c hmem => ?_
  rcases hcq with hsame | ⟨fd, c', hends, hnew⟩
  · exact .inl (hsame ▸ hmem)
  · rw [hnew, List.mem_append, List.mem_singleton] at hmem
    refine hmem.imp_right fun heq => ?_
    obtain ⟨rfl, hc⟩ := Prod.mk.inj heq
    obtain rfl := Option.some.inj hc
    exact ⟨rfl, fun hask =>
      hs.queued e (hsq ▸ List.mem_cons_self) (isCancel_of_endsRecv hends hask)⟩

/-- What is processed of a receive that was cancelled. -/
theorem causeOf_eq_some {c : Cause} (hcause : s.causeOf (.life op) = some c)
    (hready : s.ring.ready op = true) :
    ∃ cqe now p buf rest, op = .process .recv cqe now p buf ∧
      s.ring.recvCq = (cqe, some c) :: rest := by
  unfold causeOf at hcause
  split at hcause
  · rename_i cqe now p buf heq
    obtain rfl := RingOp.life.inj heq
    obtain ⟨⟨cqe', c'⟩, hhead, rfl⟩ := Option.bind_eq_some_iff.mp hcause
    obtain ⟨rest, hrest⟩ := List.head?_eq_some_iff.mp hhead
    have hcqe : cqe' = cqe := by simpa [StreamRing.ready, hrest] using hready
    exact ⟨cqe, now, p, buf, rest, rfl, hcqe ▸ hrest⟩
  · exact absurd hcause (by simp)

/-- What is reported for a receive that was cancelled. -/
theorem Inv.reported (hs : Inv s) {c : Cause} (hcause : s.causeOf (.life op) = some c)
    {r : StreamRing} (hstep : s.ring.perform op = some r) :
    (c = .cancel ∨ c = .close → s.asked = true) ∧
      r.life.impl.recv.ec = some (if s.asked then Errno.ECANCELED else Errno.ETIMEDOUT) := by
  obtain ⟨hready, l, hl, rfl⟩ := StreamRing.perform_life hstep
  obtain ⟨cqe, now, p, buf, rest, rfl, hrest⟩ := causeOf_eq_some hcause hready
  obtain ⟨hcqe, hask⟩ := hs.ended cqe c (hrest ▸ List.mem_cons_self)
  exact ⟨hask, hs.flag ▸ reported_ec hl hcqe⟩

theorem Inv.told_step (hs : Inv s) (hunasked : s.Unasked (.life op)) {r : StreamRing}
    (hstep : s.ring.perform op = some r) :
    ToldApart ⟨r, s.asked || asks (.life op),
      s.reported ++ ((s.causeOf (.life op)).map fun c => (c, r.life.impl.recv.ec)).toList⟩ := by
  intro c ec hmem e he
  rcases List.mem_append.mp hmem with hmem | hnew
  · exact hs.told c ec hmem e he
  obtain ⟨hcause, rfl⟩ : s.causeOf (.life op) = some c ∧ r.life.impl.recv.ec = ec := by
    obtain ⟨c', hc', heq⟩ := Option.map_eq_some_iff.mp (Option.mem_toList.mp hnew)
    obtain ⟨rfl, rfl⟩ := Prod.mk.inj heq
    exact ⟨hc', rfl⟩
  obtain ⟨hask, hec⟩ := hs.reported hcause hstep
  rw [hec, ← he]
  cases c with
  | tick => simp [due, hunasked hcause]
  | cancel => simp [due, hask]
  | close => simp [due, hask]
  | handle => exact absurd he (by simp [due])

theorem Inv.step (hs : Inv s) {op : RingOp} (hunasked : s.Unasked op)
    (hstep : s.step op = some s') : Inv s' := by
  obtain ⟨r, hr, rfl⟩ := Option.map_eq_some_iff.mp hstep
  cases op with
  | submit => exact hs.submit hr
  | postTimer cqe =>
    obtain ⟨-, heq⟩ := Option.ite_none_right_eq_some.mp hr
    obtain rfl := Option.some.inj heq
    exact hs.silent rfl (List.Subset.refl _) fun _ _ hmem => .inl hmem
  | postRecv cqe =>
    obtain ⟨-, heq⟩ := Option.ite_none_right_eq_some.mp hr
    obtain rfl := Option.some.inj heq
    exact hs.silent rfl (List.Subset.refl _) fun _ _ hmem => .inl (by simpa using hmem)
  | life op =>
    have htold := hs.told_step hunasked hr
    obtain ⟨-, l, hl, rfl⟩ := StreamRing.perform_life hr
    refine ⟨hs.flag_step hl, fun e he hcancel => ?_, fun cqe c hmem => ?_, htold⟩
    · rcases List.mem_append.mp he with he | he
      · simp [hs.queued e he hcancel]
      · simp [asks_of_queued hl he hcancel]
    · have hmem : (cqe, some c) ∈ s.ring.recvCq := by
        change (cqe, some c) ∈ (s.ring.pop op).recvCq at hmem
        unfold StreamRing.pop at hmem
        split at hmem
        · exact hmem
        · exact List.mem_of_mem_tail hmem
        · exact hmem
      obtain ⟨hcqe, hask⟩ := hs.ended cqe c hmem
      exact ⟨hcqe, fun hc => by simp [hask hc]⟩

/-- A tick is reported as a cancellation after the first `async_cancel` or `async_close`. -/
theorem Inv.unasked (hs : Inv s) {op : RingOp} (hstep : s.step op = some s')
    (hs' : ToldApart s') : s.Unasked op := by
  intro hcause
  obtain ⟨r, hr, rfl⟩ := Option.map_eq_some_iff.mp hstep
  cases op with
  | life op =>
    obtain ⟨-, hec⟩ := hs.reported hcause hr
    have htold := hs' .tick r.life.impl.recv.ec (by simp [hcause]) _ rfl
    rw [hec] at htold
    cases hasked : s.asked with
    | false => rfl
    | true => exact absurd htold (by simp [hasked, Errno.ECANCELED, Errno.ETIMEDOUT])
  | _ => exact absurd hcause (by simp [causeOf])

theorem inv_created (o : Origin) (now : Nat) : Inv (created o now) where
  flag := by cases o <;> rfl
  queued := by cases o <;> simp [created, StreamRing.created, isCancel]
  ended := by simp [created, StreamRing.created]
  told := by simp [ToldApart, created]

/-- **Timeouts and cancellations are told apart in exactly those runs** in which every receive that
a tick ended is reported before the first `async_cancel` or `async_close`. -/
theorem recv_toldApart (o : Origin) (now : Nat) (ops : List RingOp) :
    Along step ToldApart (created o now) ops ↔ StepsMeet step Unasked (created o now) ops :=
  along_iff_stepsMeet (fun _ hs => hs.told) (fun _ _ _ hs hunasked hstep => hs.step hunasked hstep)
    (fun _ _ _ hs hstep hs' => hs.unasked hstep hs') (inv_created o now)

/-- **A timeout is reported as a cancellation** once `async_cancel` was awaited, be it long before
the receive. -/
theorem recv_confused :
    ¬Along step ToldApart (created (.accepted 7) 0)
      [.submit, .life (.newAwaitable (.op .cancel)), .life (.await (.op .cancel) 1 none 0),
        .submit, .life (.process (.op .cancel) ⟨0, false, none⟩ 0 0 .defaulted),
        .life (.resume 1 (.op .cancel)), .life (.setBufferGroup 1), .life (.newAwaitable .recv),
        .life (.await .recv 1 none 0), .submit, .postTimer ⟨-62, true, none⟩,
        .life (.process .timeout ⟨-62, true, none⟩ 3000000000 0 .defaulted), .submit,
        .life (.process .recv StreamRing.canceled 3000000001 0 .defaulted)] := by
  intro h
  exact absurd ((h.last rfl) .tick (some Errno.ECANCELED) (by decide) _ rfl) (by decide)

end Reporting

end Fiona
