import Fiona.Stream.Timer

/-!
# The end of a stream's timer

`queue_timer_cancel` sets `cancelled_` and queues a removal. The completion handler takes the
timer to be over for good when a completion says `-ECANCELED` while `cancelled_` is set;
but the last completion of a multishot timer can be a tick, and on the last tick the
handler arms the timer without a look at `cancelled_`. The removal finds no timer then,
and the new one is left to run.

Beside the stream and its ring three facts are recorded here: whether `cancelled_` has been set,
whether a completion processed after that has armed the timer, and whether the timer's
last completion has been processed after that.
-/

namespace Fiona

open Transition

structure Stopping where
  ring : StreamRing
  stopped : Bool
  rearmed : Bool
  ended : Bool

namespace Stopping

variable (s : Stopping)

def created (o : Origin) (now : Nat) : Stopping := ⟨.created o now, false, false, false⟩

/-- A completion of the timer is processed that arms it. -/
def arms : RingOp → Bool
  | .life (.process .timeout cqe now _ _) =>
    decide (.arm ∈ (s.ring.life.impl.timeoutAwaitProcessCqe cqe now).2.filterMap
      StreamImpl.timerEntry)
  | _ => false

/-- The last completion of the timer is processed. -/
def ends : RingOp → Bool
  | .life (.process .timeout cqe _ _ _) => !cqe.more
  | _ => false

def step (op : RingOp) : Option Stopping :=
  (s.ring.step op).map fun r =>
    { ring := r
      stopped := s.stopped || r.life.impl.timeout.cancelled
      rearmed := s.rearmed || s.stopped && s.arms op
      ended := s.ended || s.stopped && ends op }

/-! ### What is asked for -/

/-- A timer that was cancelled is not armed again, and after its last completion it is no more:
the flag is down, and every reference is that of a user or of another request. -/
structure StaysStopped : Prop where
  rearmed : s.stopped = true → s.rearmed = false
  ended : s.stopped = true → s.ended = true →
    s.ring.life.impl.timeout.initiated = false ∧ .timeout ∉ s.ring.life.inFlight ∧
      s.ring.life.impl.count = s.ring.life.users + s.ring.life.inFlight.length

/-- No tick is the last while `cancelled_` is set. -/
def TicksOn : RingOp → Prop
  | .life (.process .timeout cqe _ _ _) => s.ring.life.impl.timeout.cancelled = true →
      StreamImpl.isTick cqe = true → cqe.more = true
  | _ => True

instance (op : RingOp) : Decidable (s.TicksOn op) := by
  unfold TicksOn
  split <;> infer_instance

/-! ### The invariant -/

variable {s} {s' : Stopping}

structure Inv (s : Stopping) : Prop where
  counted : Life.Counted 0 s.ring.life
  noted : s.ring.life.impl.timeout.cancelled = true → s.stopped = true
  kept : s.stopped = true →
    s.ring.life.impl.timeout.cancelled = true ∨ s.ring.life.impl.timeout.initiated = false
  rearmed : s.rearmed = false
  ended : s.ended = true → s.stopped = true ∧ s.ring.life.impl.timeout.initiated = false

theorem Inv.staysStopped (hs : Inv s) : StaysStopped s where
  rearmed _ := hs.rearmed
  ended _ hended := by
    have hdown := (hs.ended hended).2
    have hcount := hs.counted.count
    refine ⟨hdown, fun hmem => ?_, by omega⟩
    have hup := (hs.counted.flags.mem_iff (.inl rfl)).mp hmem
    exact absurd (hdown.symm.trans hup) (by simp)

theorem Inv.not_ended (hs : Inv s) (hinit : s.ring.life.impl.timeout.initiated = true) :
    s.ended = false := by
  cases hended : s.ended with
  | false => rfl
  | true => exact absurd ((hs.ended hended).2) (by simp [hinit])

/-- A step that leaves the timer as it was. -/
theorem Inv.same (hs : Inv s) {r : StreamRing} (hcounted : Life.Counted 0 r.life)
    (htimeout : r.life.impl.timeout = s.ring.life.impl.timeout) :
    Inv ⟨r, s.stopped || r.life.impl.timeout.cancelled, s.rearmed || s.stopped && false,
      s.ended || s.stopped && false⟩ := by
  have hstopped : (s.stopped || r.life.impl.timeout.cancelled) = s.stopped := by
    rw [htimeout]
    cases hc : s.ring.life.impl.timeout.cancelled with
    | false => simp
    | true => simp [hs.noted hc]
  rw [hstopped, Bool.and_false, Bool.or_false, Bool.or_false]
  exact ⟨hcounted, htimeout ▸ hs.noted, htimeout ▸ hs.kept, hs.rearmed, htimeout ▸ hs.ended⟩

/-- Only a completion of the timer arms it or ends it. -/
theorem arms_eq_false {op : LifeOp} (hop : ∀ cqe now p buf, op ≠ .process .timeout cqe now p buf) :
    s.arms (.life op) = false ∧ ends (.life op) = false := by
  constructor
  · unfold arms
    split
    · rename_i heq
      exact absurd (RingOp.life.inj heq) (hop _ _ _ _)
    · rfl
  · unfold ends
    split
    · rename_i heq
      exact absurd (RingOp.life.inj heq) (hop _ _ _ _)
    · rfl

/-- `queue_timer_cancel` on a timer that is there. -/
theorem Inv.stop (hs : Inv s) {r : StreamRing} (hcounted : Life.Counted 0 r.life)
    (hinit : s.ring.life.impl.timeout.initiated = true)
    (htimeout : r.life.impl.timeout = ⟨true, true⟩) :
    Inv ⟨r, s.stopped || r.life.impl.timeout.cancelled, s.rearmed || s.stopped && false,
      s.ended || s.stopped && false⟩ where
  counted := hcounted
  noted := by simp [htimeout]
  kept := by simp [htimeout]
  rearmed := by simp [hs.rearmed]
  ended := by simp [hs.not_ended hinit]

/-- A timer of which a completion is processed is there. -/
theorem Inv.initiated (hs : Inv s) {cqe : Cqe} {now p : Nat} {buf : RecvBuffer} {l : Life}
    (hstep : s.ring.life.step (.process .timeout cqe now p buf) = some l) :
    s.ring.life.impl.timeout.initiated = true := by
  rw [Life.step] at hstep
  split_ifs at hstep with hop
  simp only [Life.allows, Bool.and_eq_true, decide_eq_true_eq] at hop
  exact (hs.counted.flags.mem_iff (.inl rfl)).mp hop.2.1

/-- **A completion of the timer keeps the invariant** unless it is the last tick after
`cancelled_` was set. -/
theorem Inv.process (hs : Inv s) {cqe : Cqe} {now p : Nat} {buf : RecvBuffer} {r : StreamRing}
    (hcounted : Life.Counted 0 r.life) (hposts : Life.posts .timeout cqe = true)
    (hinit : s.ring.life.impl.timeout.initiated = true)
    (hticks : s.TicksOn (.life (.process .timeout cqe now p buf)))
    (htimeout : r.life.impl.timeout =
      (s.ring.life.impl.timeoutAwaitProcessCqe cqe now).1.timeout) :
    Inv ⟨r, s.stopped || r.life.impl.timeout.cancelled,
      s.rearmed || s.stopped && s.arms (.life (.process .timeout cqe now p buf)),
      s.ended || s.stopped && !cqe.more⟩ := by
  have hnoted : r.life.impl.timeout.cancelled = true →
      (s.stopped || r.life.impl.timeout.cancelled) = true := fun h => by simp [h]
  have hended : s.ended = false := hs.not_ended hinit
  cases hstopped : s.stopped with
  | false =>
    refine ⟨hcounted, hstopped ▸ hnoted, fun h => .inl (by simpa using h), ?_, fun h => ?_⟩
    · simp [hs.rearmed]
    · simp [hended] at h
  | true =>
    -- the timer is there, so `cancelled_` is still set
    have hcancelled : s.ring.life.impl.timeout.cancelled = true :=
      (hs.kept hstopped).resolve_right (by simp [hinit])
    rcases s.ring.life.impl.timeoutAwaitProcessCqe_cases (Life.posts_timeout hposts) now with
      ⟨t, heq, hdown, -⟩ | ⟨-, hnot, -⟩ | ⟨heq, htick⟩
    · have hinit' : r.life.impl.timeout.initiated = false := by
        rw [htimeout, heq]
        exact hdown
      refine ⟨hcounted, hstopped ▸ hnoted, fun _ => .inr hinit', ?_, fun _ => ⟨rfl, hinit'⟩⟩
      simp [hs.rearmed, arms, heq]
    · exact absurd hcancelled (by simp [hnot])
    · have hmore : cqe.more = true := hticks hcancelled htick
      obtain ⟨hsame, hq⟩ := (s.ring.life.impl.timeoutAwaitProcessCqe_timer
        (Life.posts_timeout hposts) now).2.1 hmore
      refine ⟨hcounted, hstopped ▸ hnoted, fun _ => .inl ?_, ?_, fun h => ?_⟩
      · rw [htimeout, hsame, hcancelled]
      · simp [hs.rearmed, arms, hq]
      · simp [hended, hmore] at h

theorem Inv.step (hs : Inv s) {op : RingOp} (hticks : s.TicksOn op)
    (hstep : s.step op = some s') : Inv s' := by
  obtain ⟨r, hr, rfl⟩ := Option.map_eq_some_iff.mp hstep
  have hquiet : r.life = s.ring.life → Inv ⟨r, s.stopped || r.life.impl.timeout.cancelled,
      s.rearmed || s.stopped && false, s.ended || s.stopped && false⟩ := fun hlife =>
    hs.same (hlife ▸ hs.counted) (by rw [hlife])
  cases op with
  | submit => exact hquiet (StreamRing.submit_life hr)
  | postTimer cqe => exact hquiet (StreamRing.postTimer_life hr)
  | postRecv cqe => exact hquiet (StreamRing.postRecv_life hr)
  | life op =>
    obtain ⟨-, l, hl, rfl⟩ := StreamRing.perform_life hr
    have hcounted : Life.Counted 0 l := hs.counted.step hl
    rcases Life.timer_step hl with ⟨⟨-, htimeout⟩, -, -, hop⟩ | ⟨ts, rfl, -, htimeout, -⟩ |
      ⟨hinit, -, htimeout, -, -, hop⟩ | ⟨cqe, now, p, buf, rfl, hposts, -, htimeout, -⟩
    · obtain ⟨harms, hends⟩ := s.arms_eq_false hop
      rw [harms, hends]
      exact hs.same hcounted htimeout
    · exact hs.same hcounted htimeout
    · obtain ⟨harms, hends⟩ := s.arms_eq_false hop
      rw [harms, hends]
      exact hs.stop hcounted hinit htimeout
    · exact hs.process hcounted hposts (hs.initiated hl) hticks htimeout

/-- The last tick after `cancelled_` was set arms the timer. -/
theorem Inv.ticksOn (hs : Inv s) {op : RingOp} (hstep : s.step op = some s')
    (hs' : StaysStopped s') : s.TicksOn op := by
  unfold TicksOn
  split
  · rename_i cqe now p buf
    intro hcancelled htick
    by_contra hmore
    have hmore : cqe.more = false := by simpa using hmore
    obtain ⟨r, hr, rfl⟩ := Option.map_eq_some_iff.mp hstep
    have hstopped : s.stopped = true := hs.noted hcancelled
    have harms : s.arms (.life (.process .timeout cqe now p buf)) = true := by
      obtain ⟨-, -, hq⟩ := s.ring.life.impl.tick_timer cqe now
      rw [hmore] at hq
      simp [arms, StreamImpl.timeoutAwaitProcessCqe_tick htick, hq]
    have hnot := hs'.rearmed (by simp [hstopped])
    simp [hstopped, harms] at hnot
  · trivial

theorem inv_created (o : Origin) (now : Nat) : Inv (created o now) where
  counted := Life.counted_created o now
  noted := by cases o <;> exact fun h => absurd h Bool.false_ne_true
  kept h := absurd h Bool.false_ne_true
  rearmed := rfl
  ended h := absurd h Bool.false_ne_true

/-- **A cancelled timer stays cancelled in exactly those runs** in which no completion that is
processed while `cancelled_` is set is a last tick. -/
theorem timer_staysStopped (o : Origin) (now : Nat) (ops : List RingOp) :
    Along step StaysStopped (created o now) ops ↔ StepsMeet step TicksOn (created o now) ops :=
  along_iff_stepsMeet (fun _ hs => hs.staysStopped)
    (fun _ _ _ hs hticks hstep => hs.step hticks hstep)
    (fun _ _ _ hs hstep hs' => hs.ticksOn hstep hs') (inv_created o now)

/-- **A cancelled timer runs on** when it has ended with a tick by the time its removal is
taken: the removal finds none, and the last tick arms it. -/
theorem timer_restarts :
    ¬Along step StaysStopped (created (.accepted 7) 0)
      [.submit, .life (.newAwaitable (.op .close)), .postTimer ⟨-62, false, none⟩,
        .life (.await (.op .close) 1 none 0), .submit, .submit, .submit,
        .life (.process .timeout ⟨-62, false, none⟩ 1 0 .defaulted)] := by
  intro h
  exact absurd ((h.last rfl).rearmed (by decide)) (by decide)

end Stopping

end Fiona
