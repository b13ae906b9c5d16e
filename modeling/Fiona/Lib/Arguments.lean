import Fiona.Lib.Shared

/-!
# Arguments that lie in shared frames

The arguments of a call are stored in the frame of its kind when the ticket is made, over those of
a ticket made before. Starting the operation writes some of them to the request and of others only
the address, which the kernel reads when the ring is submitted. So there are two windows: until
the ticket is awaited, the frame must keep what the call has stored, and as long as a request is
queued, what it points to must stay as it was. An operation runs with its own arguments exactly as
long as both are respected (`Shared.runsOwn_iff`).
-/

namespace Shared

open Transition

variable {σ μ ι θ α ρ ω χ β : Type} [DecidableEq ι] [DecidableEq θ]
  {O : Object σ μ ι θ α ρ ω χ β} {s s' : State σ μ ι θ α ρ}

/-- **What is asked**: the kernel is asked for what the call asked for, and a request that is
still queued would have it asked for this, were the ring submitted now. -/
structure RunsOwn (O : Object σ μ ι θ α ρ ω χ β) (s : State σ μ ι θ α ρ) : Prop where
  carried : ∀ p ∈ s.carried, p.2 = O.asked p.1
  queued : ∀ r ∈ s.requests, r.submitted = false → O.deref s.mem r.args = O.asked r.call

/-- The arguments that lie in the frames change, but nothing that a queued request points to. -/
def Respects (O : Object σ μ ι θ α ρ ω χ β) (s : State σ μ ι θ α ρ) (m : μ) : Prop :=
  ∀ r ∈ s.requests, r.submitted = false → O.deref m r.args = O.deref s.mem r.args

/-- The condition on a step: a ticket that is accepted finds its arguments in the frame, and
making a ticket, or going on, changes nothing that a queued request points to. -/
def Intact (O : Object σ μ ι θ α ρ ω χ β) (s : State σ μ ι θ α ρ) : Op ι θ α ω χ β → Prop
  | .create _ x => Respects O s (O.store s.mem x)
  | .await a h w => ∀ x, s.tickets a = .live x →
    match O.await s.obj x h w with
    | .refuses => True
    | .goesOn _ => Respects O s (O.clear s.mem (O.main x))
    | .suspends _ q => q ≠ [] → O.capture s.mem x = O.asked x
  | .resume h => ∀ w, s.waiter h = some w → Respects O s (O.clear s.mem w.kind)
  | _ => True

namespace RunsOwn

omit [DecidableEq ι] [DecidableEq θ] in
/-- The arguments in the frames change. -/
theorem respects (hs : RunsOwn O s) {m : μ} (hs' : ∀ r ∈ s.requests, r.submitted = false →
    O.deref m r.args = O.asked r.call) : Respects O s m :=
  fun r hr hqueued => (hs' r hr hqueued).trans (hs.queued r hr hqueued).symm

omit [DecidableEq ι] [DecidableEq θ] in
theorem change (hs : RunsOwn O s) {m : μ} (hm : Respects O s m) :
    ∀ r ∈ s.requests, r.submitted = false → O.deref m r.args = O.asked r.call :=
  fun r hr hqueued => (hm r hr hqueued).trans (hs.queued r hr hqueued)

omit [DecidableEq ι] [DecidableEq θ] in
theorem submitted (hs : RunsOwn O s) : RunsOwn O (O.submitted s) where
  carried p hp := by
    rcases List.mem_append.mp hp with hp | hp
    · exact hs.carried p hp
    · obtain ⟨r, hr, rfl⟩ := List.mem_map.mp hp
      obtain ⟨hmem, hqueued⟩ := List.mem_filter.mp hr
      exact hs.queued r hmem (by simpa using hqueued)
  queued r hr hqueued := by
    obtain ⟨r', -, rfl⟩ := List.mem_map.mp hr
    split at hqueued
    · rename_i hsubmitted
      simp [hsubmitted] at hqueued
    · simp at hqueued

theorem step (hread : ∀ m x, O.deref m (O.capture m x) = O.capture m x) {op : Op ι θ α ω χ β}
    (hs : RunsOwn O s) (hC : Intact O s op) (hstep : O.step s op = some s') : RunsOwn O s' := by
  cases op with
  | create a x =>
    obtain ⟨-, rfl⟩ := Object.step_create hstep
    exact ⟨hs.carried, hs.change hC⟩
  | await a h w =>
    obtain ⟨x, hx, -, -, rfl⟩ := Object.step_await hstep
    have hC := hC x hx
    cases hawait : O.await s.obj x h w with
    | refuses => exact hs
    | goesOn o =>
      rw [hawait] at hC
      exact ⟨hs.carried, hs.change hC⟩
    | suspends o q =>
      rw [hawait] at hC
      refine ⟨hs.carried, fun r hr hqueued => ?_⟩
      rcases List.mem_append.mp hr with hr | hr
      · exact hs.queued r hr hqueued
      -- what is captured just now would be read just so
      · obtain ⟨i, hi, rfl⟩ := List.mem_map.mp hr
        exact (hread _ _).trans (hC (List.ne_nil_of_mem hi))
  | submit =>
    cases hstep
    exact hs.submitted
  | complete i a c =>
    obtain ⟨o, found, -, -, -, rfl⟩ := Object.step_complete hstep
    refine ⟨hs.carried, fun r hr hqueued => hs.queued r ?_ hqueued⟩
    simp only [Object.completed] at hr
    split at hr
    · exact hr
    · exact List.mem_of_mem_eraseP hr
  | resume h =>
    obtain ⟨w, hw, -, rfl⟩ := Object.step_resume hstep
    exact ⟨hs.carried, hs.change (hC w hw)⟩
  | destroy a =>
    obtain ⟨x, -, -, rfl⟩ := Object.step_destroy hstep
    exact ⟨hs.carried, hs.queued⟩
  | other b =>
    obtain ⟨o, -, rfl⟩ := Object.step_other hstep
    exact ⟨hs.carried, hs.queued⟩

end RunsOwn

/-- A ticket accepted with the arguments of another, and a change under a queued request, would
show. -/
theorem intact_of_runsOwn (hread : ∀ m x, O.deref m (O.capture m x) = O.capture m x)
    {op : Op ι θ α ω χ β} (hs : RunsOwn O s) (hstep : O.step s op = some s') (hs' : RunsOwn O s') :
    Intact O s op := by
  cases op with
  | create a x =>
    obtain ⟨-, rfl⟩ := Object.step_create hstep
    exact hs.respects hs'.queued
  | await a h w =>
    intro x hx
    obtain ⟨y, hy, -, -, rfl⟩ := Object.step_await hstep
    obtain rfl : x = y := by
      rw [hx] at hy
      exact Ticket.live.inj hy
    cases hawait : O.await s.obj x h w with
    | refuses => trivial
    | goesOn o =>
      rw [hawait] at hs'
      exact hs.respects hs'.queued
    | suspends o q =>
      rw [hawait] at hs'
      intro hq
      obtain ⟨i, hi⟩ := List.exists_mem_of_ne_nil q hq
      have hnew : (⟨i, a, x, O.capture s.mem x, false⟩ : Request ι α ρ) ∈
          (O.awaited s a x h (.suspends o q)).requests :=
        List.mem_append_right _ (List.mem_map.mpr ⟨i, hi, rfl⟩)
      exact (hread _ _).symm.trans (hs'.queued _ hnew rfl)
  | resume h =>
    intro w hw
    obtain ⟨v, hv, -, rfl⟩ := Object.step_resume hstep
    obtain rfl : w = v := Option.some.inj (hw.symm.trans hv)
    exact hs.respects hs'.queued
  | _ => trivial

/-- **Operations run with their own arguments exactly when the frames are left alone.** -/
theorem runsOwn_iff (hread : ∀ m x, O.deref m (O.capture m x) = O.capture m x)
    {ops : List (Op ι θ α ω χ β)} (hs : RunsOwn O s) :
    Along O.step (RunsOwn O) s ops ↔ StepsMeet O.step (Intact O) s ops :=
  along_iff_stepsMeet (fun _ => id) (fun _ _ _ hs hC hstep => hs.step hread hC hstep)
    (fun _ _ _ hs hstep hs' => intact_of_runsOwn hread hs hstep hs') hs

end Shared
