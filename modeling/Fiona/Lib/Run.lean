import Mathlib.Data.List.Basic
import Mathlib.Logic.Basic

/-!
# Runs of a partial step function

A system is given by one partial function `step : σ → α → Option σ`: in the
state `s` the label `a` either leads to one next state or is not possible there.
All nondeterminism sits in the labels – which message arrives, which address an
allocator picks, which party moves – so a *run* is a list of labels and ends in
at most one state.

What is proved about a system is proved by a few rules.

* `Transition.run_invariant`: what holds at the start and is kept by every step
  holds at the end of every run.
* `Transition.along_of_stepsMeet`: the same for the runs whose steps all meet a
  condition on the state before the step, and then at every state passed on the
  way.
* `Transition.along_iff_stepsMeet`: where the condition is moreover necessary at
  each step, a run passes through good states only *exactly* when its steps all
  meet the condition.
* `Transition.run_simulation`: a run of an abstract system is followed, step by
  step, by a system that simulates it; `Transition.run_rel`: two systems that follow each other
  have the same runs.
-/

namespace Transition

variable {σ τ α : Type*}

/-! ### Runs -/

/-- The state a list of labels leads to, if every label is possible in turn. -/
def run (step : σ → α → Option σ) : σ → List α → Option σ
  | s, [] => some s
  | s, a :: as => (step s a).bind fun s' => run step s' as

variable {step : σ → α → Option σ} {s s' : σ} {a : α} {as : List α}

@[simp] theorem run_nil : run step s [] = some s := rfl

theorem run_cons : run step s (a :: as) = (step s a).bind fun s' => run step s' as := rfl

/-- A nonempty run takes its first step and then runs on. -/
theorem run_cons_eq_some {t : σ} :
    run step s (a :: as) = some t ↔ ∃ s', step s a = some s' ∧ run step s' as = some t := by
  rw [run_cons, Option.bind_eq_some_iff]

theorem run_append (bs : List α) :
    run step s (as ++ bs) = (run step s as).bind fun s' => run step s' bs := by
  induction as generalizing s with
  | nil => rfl
  | cons a as ih =>
    rw [List.cons_append, run_cons, run_cons, Option.bind_assoc]
    exact congrArg _ (funext fun s' => ih)

/-- Runs that follow each other. -/
theorem run_append_of_run {t : σ} (hrun : run step s as = some t) (bs : List α) :
    run step s (as ++ bs) = run step t bs := by
  rw [run_append, hrun, Option.bind_some]

/-- A run that is possible has a last state, and it has what all such states have. -/
theorem exists_run {Q : σ → Prop} (hrun : (run step s as).isSome = true)
    (hQ : ∀ t, run step s as = some t → Q t) : ∃ t, run step s as = some t ∧ Q t := by
  obtain ⟨t, ht⟩ := Option.isSome_iff_exists.mp hrun
  exact ⟨t, ht, hQ t ht⟩

/-! ### Invariants -/

/-- **The invariant rule**: what every step keeps, every run keeps. -/
theorem run_invariant {I : σ → Prop} (hstep : ∀ s a s', I s → step s a = some s' → I s')
    {t : σ} (hs : I s) (hrun : run step s as = some t) : I t := by
  induction as generalizing s with
  | nil =>
    cases hrun
    exact hs
  | cons a as ih =>
    obtain ⟨s', h1, h2⟩ := run_cons_eq_some.mp hrun
    exact ih (hstep s a s' hs h1) h2

/-- Every step the run takes meets the condition `C` on the state it starts from. -/
def StepsMeet (step : σ → α → Option σ) (C : σ → α → Prop) : σ → List α → Prop
  | _, [] => True
  | s, a :: as => ∀ s', step s a = some s' → C s a ∧ StepsMeet step C s' as

instance decidableStepsMeet (step : σ → α → Option σ) (C : σ → α → Prop)
    [∀ s a, Decidable (C s a)] : (s : σ) → (as : List α) → Decidable (StepsMeet step C s as)
  | _, [] => isTrue trivial
  | s, a :: as =>
    match h : step s a with
    | none => isTrue fun s' hs' => absurd (h.symm.trans hs') (by simp)
    | some t =>
      have := decidableStepsMeet step C t as
      decidable_of_iff (C s a ∧ StepsMeet step C t as)
        ⟨fun hC s' hs' => Option.some.inj (h.symm.trans hs') ▸ hC, fun hC => hC t h⟩

/-- The property `P` holds at every state the run passes through, the first and
the last included. -/
def Along (step : σ → α → Option σ) (P : σ → Prop) : σ → List α → Prop
  | s, [] => P s
  | s, a :: as => P s ∧ ∀ s', step s a = some s' → Along step P s' as

theorem Along.head {P : σ → Prop} (h : Along step P s as) : P s := by
  cases as with
  | nil => exact h
  | cons a as => exact h.1

theorem Along.last {P : σ → Prop} {t : σ} (h : Along step P s as)
    (hrun : run step s as = some t) : P t := by
  induction as generalizing s with
  | nil =>
    cases hrun
    exact h
  | cons a as ih =>
    obtain ⟨s', h1, h2⟩ := run_cons_eq_some.mp hrun
    exact ih (h.2 s' h1) h2

theorem Along.mono {P Q : σ → Prop} (hPQ : ∀ s, P s → Q s) (h : Along step P s as) :
    Along step Q s as := by
  induction as generalizing s with
  | nil => exact hPQ s h
  | cons a as ih => exact ⟨hPQ s h.1, fun s' hs' => ih (h.2 s' hs')⟩

theorem Along.and {P Q : σ → Prop} (hP : Along step P s as) (hQ : Along step Q s as) :
    Along step (fun s => P s ∧ Q s) s as := by
  induction as generalizing s with
  | nil => exact ⟨hP, hQ⟩
  | cons a as ih => exact ⟨⟨hP.1, hQ.1⟩, fun s' hs' => ih (hP.2 s' hs') (hQ.2 s' hs')⟩

/-- **The conditional invariant rule**: what every step *that meets the
condition* keeps, holds all along a run whose steps all meet it. -/
theorem along_of_stepsMeet {I : σ → Prop} {C : σ → α → Prop}
    (hstep : ∀ s a s', I s → C s a → step s a = some s' → I s')
    (hs : I s) (hC : StepsMeet step C s as) : Along step I s as := by
  induction as generalizing s with
  | nil => exact hs
  | cons a as ih =>
    refine ⟨hs, fun s' hs' => ?_⟩
    obtain ⟨hCa, hCas⟩ := hC s' hs'
    exact ih (hstep s a s' hs hCa hs') hCas

/-- What every step keeps holds all along every run. -/
theorem along_of_invariant {I : σ → Prop} (hstep : ∀ s a s', I s → step s a = some s' → I s')
    (hs : I s) : Along step I s as := by
  induction as generalizing s with
  | nil => exact hs
  | cons a as ih => exact ⟨hs, fun s' hs' => ih (hstep s a s' hs hs')⟩

/-- A condition gives another one at every step, where an invariant of such runs says so. -/
theorem StepsMeet.of_invariant {I : σ → Prop} {C D : σ → α → Prop}
    (hstep : ∀ s a s', I s → C s a → step s a = some s' → I s' ∧ D s a) (hs : I s)
    (hC : StepsMeet step C s as) : StepsMeet step D s as := by
  induction as generalizing s with
  | nil => trivial
  | cons a as ih =>
    intro s' hs'
    obtain ⟨hCa, hCas⟩ := hC s' hs'
    obtain ⟨hI, hD⟩ := hstep s a s' hs hCa hs'
    exact ⟨hD, ih hI hCas⟩

/-- What an invariant says of every step that is taken, every step of a run meets. -/
theorem stepsMeet_of_invariant {I : σ → Prop} {D : σ → α → Prop}
    (hstep : ∀ s a s', I s → step s a = some s' → I s' ∧ D s a) (hs : I s) :
    StepsMeet step D s as := by
  induction as generalizing s with
  | nil => trivial
  | cons a as ih =>
    intro s' hs'
    obtain ⟨hI, hD⟩ := hstep s a s' hs hs'
    exact ⟨hD, ih hI⟩

/-- A run whose steps do not all meet the condition ends where the first other one led, if
what holds there is kept. -/
theorem stepsMeet_or_of_run {I D : σ → Prop} {C : σ → α → Prop}
    (hmeet : ∀ s a s', I s → C s a → step s a = some s' → I s')
    (hnot : ∀ s a s', I s → ¬C s a → step s a = some s' → D s')
    (hkeep : ∀ s a s', D s → step s a = some s' → D s')
    {t : σ} (hs : I s) (hrun : run step s as = some t) : StepsMeet step C s as ∨ D t := by
  induction as generalizing s with
  | nil => exact .inl trivial
  | cons a as ih =>
    obtain ⟨s₁, h1, h2⟩ := run_cons_eq_some.mp hrun
    by_cases hC : C s a
    · rcases ih (hmeet s a s₁ hs hC h1) h2 with hmeets | hD
      · refine .inl fun s' hs' => ?_
        obtain rfl := Option.some.inj (h1.symm.trans hs')
        exact ⟨hC, hmeets⟩
      · exact .inr hD
    · exact .inr (run_invariant hkeep (hnot s a s₁ hs hC h1) h2)

/-- **The exact rule**: where the invariant gives the property `P`, and a step from the
invariant into `P` has met the condition that keeps the invariant, a run stays in `P`
exactly when its steps all meet the condition. -/
theorem along_iff_stepsMeet {I P : σ → Prop} {C : σ → α → Prop} (hIP : ∀ s, I s → P s)
    (hstep : ∀ s a s', I s → C s a → step s a = some s' → I s')
    (hconv : ∀ s a s', I s → step s a = some s' → P s' → C s a)
    (hs : I s) : Along step P s as ↔ StepsMeet step C s as := by
  refine ⟨fun h => ?_, fun h => (along_of_stepsMeet hstep hs h).mono hIP⟩
  induction as generalizing s with
  | nil => trivial
  | cons a as ih =>
    intro s' hs'
    have hrest : Along step P s' as := h.2 s' hs'
    have hCa : C s a := hconv s a s' hs hs' hrest.head
    exact ⟨hCa, ih (hstep s a s' hs hCa hs') hrest⟩

/-- A run whose steps meet a demand, and that stays in `P`, meets the condition, if a step that
meets the demand and leads from the invariant into `P` has met it. -/
theorem stepsMeet_of_along {I P : σ → Prop} {C D : σ → α → Prop}
    (hstep : ∀ s a s', I s → C s a → step s a = some s' → I s')
    (hconv : ∀ s a s', I s → step s a = some s' → D s a → P s' → C s a) (hs : I s)
    (halong : Along step P s as) (hmeets : StepsMeet step D s as) : StepsMeet step C s as := by
  induction as generalizing s with
  | nil => trivial
  | cons a as ih =>
    intro s' hs'
    obtain ⟨hDa, hDas⟩ := hmeets s' hs'
    have hrest : Along step P s' as := halong.2 s' hs'
    have hCa : C s a := hconv s a s' hs hs' hDa hrest.head
    exact ⟨hCa, ih (hstep s a s' hs hCa hs') hrest hDas⟩

/-- A run that stays in `P` meets the condition, if a step from the invariant into `P` has met it
and keeps the invariant. -/
theorem stepsMeet_of_good {I P : σ → Prop} {C : σ → α → Prop}
    (hconv : ∀ s a s', I s → step s a = some s' → P s' → C s a ∧ I s') (hs : I s)
    (halong : Along step P s as) : StepsMeet step C s as := by
  induction as generalizing s with
  | nil => trivial
  | cons a as ih =>
    intro s' hs'
    have hrest : Along step P s' as := halong.2 s' hs'
    obtain ⟨hCa, hI⟩ := hconv s a s' hs hs' hrest.head
    exact ⟨hCa, ih hI hrest⟩

/-! ### Simulation -/

/-- **The simulation rule**, for a system that is given a number of rounds for its
loops: if every abstract step is matched by a concrete step under the same label
once the number is large enough, so is every abstract run. -/
theorem run_simulation (cstep : Nat → σ → α → Option σ) {astep : τ → α → Option τ}
    {R : σ → τ → Prop}
    (hstep : ∀ t a t', astep t a = some t' → ∃ N, ∀ fuel, N ≤ fuel → ∀ s, R s t →
      ∃ s', cstep fuel s a = some s' ∧ R s' t')
    {t t' : τ} (hrun : run astep t as = some t') :
    ∃ N, ∀ fuel, N ≤ fuel → ∀ s, R s t → ∃ s', run (cstep fuel) s as = some s' ∧ R s' t' := by
  induction as generalizing t with
  | nil =>
    cases hrun
    exact ⟨0, fun _ _ s hs => ⟨s, rfl, hs⟩⟩
  | cons a as ih =>
    obtain ⟨t₁, h1, h2⟩ := run_cons_eq_some.mp hrun
    obtain ⟨M, hM⟩ := hstep t a t₁ h1
    obtain ⟨N, hN⟩ := ih h2
    refine ⟨max M N, fun fuel hfuel s hs => ?_⟩
    obtain ⟨s₁, h3, h4⟩ := hM fuel (Nat.le_trans (Nat.le_max_left ..) hfuel) s hs
    obtain ⟨s', h5, h6⟩ := hN fuel (Nat.le_trans (Nat.le_max_right ..) hfuel) s₁ h4
    exact ⟨s', run_cons_eq_some.mpr ⟨s₁, h3, h5⟩, h6⟩

/-- Two computations that follow each other are continued by two that do. -/
theorem rel_bind {α' β β' : Type*} {R : α → β → Prop} {R' : α' → β' → Prop} {x : Option α}
    {y : Option β} {f : α → Option α'} {g : β → Option β'} (h : Option.Rel R x y)
    (hfg : ∀ a b, R a b → Option.Rel R' (f a) (g b)) : Option.Rel R' (x.bind f) (y.bind g) := by
  cases h with
  | none => exact .none
  | some hR => exact hfg _ _ hR

/-- What one of them comes to, the other comes to. -/
theorem exists_of_rel {β : Type*} {R : α → β → Prop} {x : Option α} {b : β}
    (h : Option.Rel R x (some b)) : ∃ a, x = some a ∧ R a b := by
  cases h with
  | some hR => exact ⟨_, rfl, hR⟩

/-- **The refinement rule**: two systems whose steps are possible under the same labels, and keep a
relation between their states, have the same runs. -/
theorem run_rel {astep : τ → α → Option τ} {R : σ → τ → Prop}
    (hstep : ∀ s t a, R s t → Option.Rel R (step s a) (astep t a)) {t : τ} (hR : R s t) :
    Option.Rel R (run step s as) (run astep t as) := by
  induction as generalizing s t with
  | nil => exact .some hR
  | cons a as ih =>
    rw [run_cons, run_cons]
    generalize hs : step s a = os, ht : astep t a = ot
    have hrel := hstep s t a hR
    rw [hs, ht] at hrel
    cases hrel with
    | none => exact .none
    | some hR' => exact ih hR'

end Transition
