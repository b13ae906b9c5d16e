import Fiona.Lib.Shared

/-!
# Tickets that cancel on destruction

The destructor of a ticket cancels what it finds active in the frames of its kind, and the frames
do not say which ticket a request is for. So a ticket cancels its own operation only exactly as
long as, whenever a ticket is destroyed, the active requests of its kind are its own
(`Shared.cancelsOwn_iff`).

As long as this is so, a ticket that has started nothing might as well never have been: without it
the run is the same, to the last request (`Shared.erase`).
-/

namespace Shared

open Transition

variable {σ μ ι θ α ρ ω χ β : Type} [DecidableEq ι] [DecidableEq θ]
  {O : Object σ μ ι θ α ρ ω χ β} {s s' t t' : State σ μ ι θ α ρ}

/-- **What is asked**: what a ticket has cancelled was its own. -/
def CancelsOwn (s : State σ μ ι θ α ρ) : Prop := ∀ p ∈ s.cancelled, p.1 = p.2

/-- The condition on a step: when a ticket is destroyed, the active requests of its kind are its
own. -/
def DropsOwn (O : Object σ μ ι θ α ρ ω χ β) (s : State σ μ ι θ α ρ) : Op ι θ α ω χ β → Prop
  | .destroy a => ∀ x, s.tickets a = .live x → ∀ r ∈ s.requests, r.frame ∈ O.drops (O.main x) →
      O.active s.obj r.frame = true → r.ticket = a
  | _ => True

omit [DecidableEq θ] in
theorem mem_hits {k : ι} {r : Request ι α ρ} :
    r ∈ O.hits s k ↔ r ∈ s.requests ∧ r.frame ∈ O.drops k ∧ O.active s.obj r.frame = true := by
  simp [Object.hits]

omit [DecidableEq ι] [DecidableEq θ] in
/-- Only the destructor of a ticket cancels. -/
theorem cancelled_awaited (a : Nat) (x : α) (h : θ) (r : Outcome σ ι) :
    (O.awaited s a x h r).cancelled = s.cancelled := by
  cases r <;> rfl

theorem cancelled_of_step {op : Op ι θ α ω χ β} (hstep : O.step s op = some s') :
    s'.cancelled = s.cancelled ∨ ∃ a x, op = .destroy a ∧ s.tickets a = .live x ∧
      s'.cancelled = s.cancelled ++ (O.hits s (O.main x)).map fun r => (a, r.ticket) := by
  cases op with
  | create a x =>
    obtain ⟨-, rfl⟩ := Object.step_create hstep
    exact .inl rfl
  | await a h w =>
    obtain ⟨x, -, -, -, rfl⟩ := Object.step_await hstep
    exact .inl (cancelled_awaited ..)
  | submit =>
    cases hstep
    exact .inl rfl
  | complete i a c =>
    obtain ⟨o, found, -, -, -, rfl⟩ := Object.step_complete hstep
    exact .inl rfl
  | resume h =>
    obtain ⟨w, -, -, rfl⟩ := Object.step_resume hstep
    exact .inl rfl
  | destroy a =>
    obtain ⟨x, hx, -, rfl⟩ := Object.step_destroy hstep
    exact .inr ⟨a, x, rfl, hx, rfl⟩
  | other b =>
    obtain ⟨o, -, rfl⟩ := Object.step_other hstep
    exact .inl rfl

theorem CancelsOwn.step {op : Op ι θ α ω χ β} (hs : CancelsOwn s) (hC : DropsOwn O s op)
    (hstep : O.step s op = some s') : CancelsOwn s' := by
  rcases cancelled_of_step hstep with hsame | ⟨a, x, rfl, hx, hmore⟩
  · rwa [CancelsOwn, hsame]
  · intro p hp
    rw [hmore] at hp
    rcases List.mem_append.mp hp with hp | hp
    · exact hs p hp
    · obtain ⟨r, hr, rfl⟩ := List.mem_map.mp hp
      obtain ⟨hr, hdrops, hactive⟩ := mem_hits.mp hr
      exact (hC x hx r hr hdrops hactive).symm

/-- A ticket that finds a request of another cancels it. -/
theorem dropsOwn_of_cancelsOwn {op : Op ι θ α ω χ β} (hstep : O.step s op = some s')
    (hs' : CancelsOwn s') : DropsOwn O s op := by
  cases op with
  | destroy a =>
    intro x hx r hr hdrops hactive
    obtain ⟨y, hy, -, rfl⟩ := Object.step_destroy hstep
    obtain rfl : x = y := by
      rw [hx] at hy
      exact Ticket.live.inj hy
    refine (hs' (a, r.ticket) (List.mem_append_right _ ?_)).symm
    exact List.mem_map.mpr ⟨r, mem_hits.mpr ⟨hr, hdrops, hactive⟩, rfl⟩
  | _ => trivial

/-- **Tickets cancel their own exactly when they are destroyed at the right time.** -/
theorem cancelsOwn_iff {ops : List (Op ι θ α ω χ β)} (hs : CancelsOwn s) :
    Along O.step CancelsOwn s ops ↔ StepsMeet O.step (DropsOwn O) s ops :=
  along_iff_stepsMeet (fun _ => id) (fun _ _ _ hs hC hstep => hs.step hC hstep)
    (fun _ _ _ _ hstep hs' => dropsOwn_of_cancelsOwn hstep hs') hs

/-! ### Tickets that start nothing -/

/-- The step is about the ticket `a`. -/
def Op.concerns (a : Nat) : Op ι θ α ω χ β → Bool
  | .create b _ | .await b _ _ | .destroy b => decide (b = a)
  | _ => false

/-- If the step awaits the ticket `a`, it is refused. -/
def Refused (O : Object σ μ ι θ α ρ ω χ β) (a : Nat) (s : State σ μ ι θ α ρ) : Op ι θ α ω χ β → Prop
  | .await b h w => b = a → ∀ x, s.tickets b = .live x → O.await s.obj x h w = .refuses
  | _ => True

/-- A request, apart from its arguments. -/
def Request.core (r : Request ι α ρ) : ι × Nat × Bool := (r.frame, r.ticket, r.submitted)

/-- Two states that differ in nothing but the ticket `a` and in the arguments, where `a` has not
started anything. -/
structure Alike (a : Nat) (s t : State σ μ ι θ α ρ) : Prop where
  obj : t.obj = s.obj
  tickets : ∀ b, b ≠ a → t.tickets b = s.tickets b
  waiting : t.waiting = s.waiting
  requests : t.requests.map Request.core = s.requests.map Request.core
  collected : t.collected = s.collected
  cancelled : t.cancelled = s.cancelled
  idle : ∀ r ∈ s.requests, r.ticket ≠ a

namespace Alike

variable {a b : Nat}

omit [DecidableEq ι] [DecidableEq θ] in
theorem refl (hs : ∀ r ∈ s.requests, r.ticket ≠ a) : Alike a s s :=
  ⟨rfl, fun _ _ => rfl, rfl, rfl, rfl, rfl, hs⟩

/-- What the ticket itself does changes nothing. -/
theorem stutter {op : Op ι θ α ω χ β} (h : Alike a s t) (hconcerns : op.concerns a = true)
    (hrefused : Refused O a s op) (hC : DropsOwn O s op) (hstep : O.step s op = some s') :
    Alike a s' t := by
  cases op with
  | create b x =>
    obtain rfl : b = a := by simpa [Op.concerns] using hconcerns
    obtain ⟨-, rfl⟩ := Object.step_create hstep
    exact ⟨h.obj, fun b hb => by simp [h.tickets b hb, hb], h.waiting, h.requests, h.collected,
      h.cancelled, h.idle⟩
  | await b th w =>
    obtain rfl : b = a := by simpa [Op.concerns] using hconcerns
    obtain ⟨x, hx, -, -, rfl⟩ := Object.step_await hstep
    rw [hrefused rfl x hx]
    exact h
  | destroy b =>
    obtain rfl : b = a := by simpa [Op.concerns] using hconcerns
    obtain ⟨x, hx, -, rfl⟩ := Object.step_destroy hstep
    -- what it would cancel would have to be its own, and it has started nothing
    have hnone : O.hits s (O.main x) = [] := by
      rw [List.eq_nil_iff_forall_not_mem]
      intro r hr
      obtain ⟨hmem, hdrops, hactive⟩ := mem_hits.mp hr
      exact h.idle r hmem (hC x hx r hmem hdrops hactive)
    refine ⟨h.obj, fun b hb => by simp [Object.destroyed, h.tickets b hb, hb], h.waiting,
      h.requests, h.collected, ?_, h.idle⟩
    simp [Object.destroyed, hnone, h.cancelled]
  | submit => simp [Op.concerns] at hconcerns
  | complete i c x => simp [Op.concerns] at hconcerns
  | resume th => simp [Op.concerns] at hconcerns
  | other x => simp [Op.concerns] at hconcerns

/-! #### Any other step is followed -/

omit [DecidableEq θ] in
theorem any_answers (h : Alike a s t) (i : ι) :
    t.requests.any (Object.answers i b) = s.requests.any (Object.answers i b) := by
  -- which request is answered does not depend on arguments
  have hcore : ∀ u : State σ μ ι θ α ρ, u.requests.any (Object.answers i b) =
      (u.requests.map Request.core).any
        fun c => decide (c.1 = i) && decide (c.2.1 = b) && c.2.2 := by
    intro u
    rw [List.any_map]
    rfl
  rw [hcore, hcore, h.requests]

omit [DecidableEq θ] in
theorem eraseP_answers (h : Alike a s t) (i : ι) :
    (t.requests.eraseP (Object.answers i b)).map Request.core =
      (s.requests.eraseP (Object.answers i b)).map Request.core := by
  have hcore : ∀ u : State σ μ ι θ α ρ, (u.requests.eraseP (Object.answers i b)).map Request.core =
      (u.requests.map Request.core).eraseP
        fun c => decide (c.1 = i) && decide (c.2.1 = b) && c.2.2 := by
    intro u
    rw [List.eraseP_map]
    rfl
  rw [hcore, hcore, h.requests]

omit [DecidableEq θ] in
theorem hits_tickets (h : Alike a s t) (k : ι) :
    (O.hits t k).map Request.ticket = (O.hits s k).map Request.ticket := by
  have hcore : ∀ u : State σ μ ι θ α ρ, (O.hits u k).map Request.ticket =
      ((u.requests.map Request.core).filter fun c =>
        decide (c.1 ∈ O.drops k) && O.active u.obj c.1).map
        fun c => c.2.1 := by
    intro u
    rw [List.filter_map, List.map_map]
    rfl
  rw [hcore, hcore, h.requests, h.obj]

omit [DecidableEq ι] [DecidableEq θ] in
theorem awaited (h : Alike a s t) (hb : b ≠ a) (x : α) (th : θ) (r : Outcome σ ι) :
    Alike a (O.awaited s b x th r) (O.awaited t b x th r) := by
  cases r with
  | refuses => exact h
  | goesOn o => exact ⟨rfl, h.tickets, h.waiting, h.requests, h.collected, h.cancelled, h.idle⟩
  | suspends o q =>
    refine ⟨rfl, h.tickets, congrArg (_ :: ·) h.waiting, ?_, h.collected, h.cancelled,
      fun r hr => ?_⟩
    · simp [Object.awaited, h.requests, Request.core]
    · rcases List.mem_append.mp hr with hr | hr
      · exact h.idle r hr
      · obtain ⟨i, -, rfl⟩ := List.mem_map.mp hr
        exact hb

omit [DecidableEq ι] [DecidableEq θ] in
theorem submitted (h : Alike a s t) : Alike a (O.submitted s) (O.submitted t) := by
  have hcore : ∀ u : State σ μ ι θ α ρ, (O.submitted u).requests.map Request.core =
      (u.requests.map Request.core).map fun c => (c.1, c.2.1, true) := by
    intro u
    simp only [Object.submitted, List.map_map]
    refine List.map_congr_left fun r _ => ?_
    cases hr : r.submitted <;> simp [Request.core, hr]
  refine ⟨h.obj, h.tickets, h.waiting, ?_, h.collected, h.cancelled, fun r hr => ?_⟩
  · rw [hcore, hcore, h.requests]
  · obtain ⟨r, hr', rfl⟩ := List.mem_map.mp hr
    split
    · exact h.idle r hr'
    · exact h.idle r hr'

omit [DecidableEq θ] in
theorem completed (h : Alike a s t) (i : ι) (c : χ) (o : σ) (found : Option θ) :
    Alike a (O.completed s i b c o found) (O.completed t i b c o found) := by
  refine ⟨rfl, h.tickets, h.waiting, ?_, congrArg (· ++ _) h.collected, h.cancelled, fun r hr => ?_⟩
  · simp only [Object.completed]
    split
    · exact h.requests
    · exact h.eraseP_answers i
  · simp only [Object.completed] at hr
    split at hr
    · exact h.idle r hr
    · exact h.idle r (List.mem_of_mem_eraseP hr)

omit [DecidableEq ι] in
theorem resumed (h : Alike a s t) (w : Waiter θ ι) : Alike a (O.resumed s w) (O.resumed t w) := by
  refine ⟨?_, h.tickets, ?_, h.requests, ?_, h.cancelled, h.idle⟩
  · simp [Object.resumed, h.obj]
  · simp [Object.resumed, h.waiting]
  · simp [Object.resumed, h.collected]

/-- Any other step is possible without the ticket as well. -/
theorem follow {op : Op ι θ α ω χ β} (h : Alike a s t) (hconcerns : op.concerns a = false)
    (hstep : O.step s op = some s') : ∃ t', O.step t op = some t' ∧ Alike a s' t' := by
  cases op with
  | create b x =>
    have hb : b ≠ a := by simpa [Op.concerns] using hconcerns
    obtain ⟨hunused, rfl⟩ := Object.step_create hstep
    refine ⟨{ t with mem := O.store t.mem x, tickets := Function.update t.tickets b (.live x) }, ?_,
      ?_⟩
    · simp [Object.step, h.tickets b hb, hunused]
    · refine ⟨h.obj, fun c hc => ?_, h.waiting, h.requests, h.collected, h.cancelled, h.idle⟩
      rcases eq_or_ne c b with rfl | hne
      · simp
      · simp [hne, h.tickets c hc]
  | await b th w =>
    have hb : b ≠ a := by simpa [Op.concerns] using hconcerns
    obtain ⟨x, hx, hth, hfree, rfl⟩ := Object.step_await hstep
    refine ⟨O.awaited t b x th (O.await s.obj x th w), ?_, h.awaited hb ..⟩
    simp only [Object.step, h.tickets b hb, hx, h.waiting, h.obj]
    exact if_pos ⟨hth, hfree⟩
  | submit =>
    cases hstep
    exact ⟨_, rfl, h.submitted⟩
  | complete i b c =>
    obtain ⟨o, found, hany, hposts, hprocess, rfl⟩ := Object.step_complete hstep
    refine ⟨O.completed t i b c o found, ?_, h.completed ..⟩
    simp [Object.step, h.any_answers, hany, hposts, h.obj, hprocess]
  | resume th =>
    obtain ⟨w, hw, hcollected, rfl⟩ := Object.step_resume hstep
    have hw' : t.waiter th = some w := by
      rw [State.waiter, h.waiting]
      exact hw
    refine ⟨O.resumed t w, ?_, h.resumed w⟩
    simp [Object.step, hw', h.collected, hcollected]
  | destroy b =>
    have hb : b ≠ a := by simpa [Op.concerns] using hconcerns
    obtain ⟨x, hx, hfree, rfl⟩ := Object.step_destroy hstep
    refine ⟨O.destroyed t b x, ?_, h.obj, fun c hc => ?_, h.waiting, h.requests, h.collected,
      ?_, h.idle⟩
    · simp only [Object.step, h.tickets b hb, hx, h.waiting]
      exact if_pos hfree
    · rcases eq_or_ne c b with rfl | hne
      · simp [Object.destroyed]
      · simp [Object.destroyed, hne, h.tickets c hc]
    · have hhits := congrArg (List.map (Prod.mk b)) (h.hits_tickets (O := O) (O.main x))
      simp only [List.map_map] at hhits
      exact congrArg₂ (· ++ ·) h.cancelled hhits
  | other x =>
    obtain ⟨o, ho, rfl⟩ := Object.step_other hstep
    refine ⟨{ t with obj := o }, by simp [Object.step, h.obj, ho], ?_⟩
    exact ⟨rfl, h.tickets, h.waiting, h.requests, h.collected, h.cancelled, h.idle⟩

end Alike

/-- **A ticket that is never accepted might as well never have been**: the run without its steps
is a run, and ends in a state that differs in nothing but the ticket and arguments. -/
theorem erase {a : Nat} {ops : List (Op ι θ α ω χ β)} (hst : Alike a s t)
    (hrefused : StepsMeet O.step (Refused O a) s ops) (hC : StepsMeet O.step (DropsOwn O) s ops)
    (hrun : run O.step s ops = some s') :
    ∃ t', run O.step t (ops.filter fun op => !op.concerns a) = some t' ∧ Alike a s' t' := by
  induction ops generalizing s t with
  | nil =>
    cases hrun
    exact ⟨t, rfl, hst⟩
  | cons op ops ih =>
    obtain ⟨u, hstep, hrest⟩ := run_cons_eq_some.mp hrun
    obtain ⟨hrefused, hrefused'⟩ := hrefused u hstep
    obtain ⟨hC, hC'⟩ := hC u hstep
    cases hconcerns : op.concerns a with
    -- a step of the ticket is left out, any other one is taken in both runs
    | true =>
      rw [List.filter_cons_of_neg (by simp [hconcerns])]
      exact ih (hst.stutter hconcerns hrefused hC hstep) hrefused' hC' hrest
    | false =>
      obtain ⟨v, hv, huv⟩ := hst.follow hconcerns hstep
      obtain ⟨t', hrun', hst'⟩ := ih huv hrefused' hC' hrest
      rw [List.filter_cons_of_pos (by simp [hconcerns])]
      exact ⟨t', run_cons_eq_some.mpr ⟨v, hv, hrun'⟩, hst'⟩

end Shared
