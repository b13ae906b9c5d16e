import Fiona.Context.Continuation
import Fiona.Context.Loop

/-!
# Coroutines that are suspended in awaitables

A coroutine that awaits a receive, a timer or a name is suspended with its handle in the frame of
the awaitable, or in a `waker`. A completion gives the handle out, and `run` resumes the coroutine
after the batch.

The coroutine belongs to a task, `taskOf`, and is destroyed with the frame of this task. Its
destruction does not take the handle out of where it is stored: `~recv_awaitable` does nothing, and
the destructors that ask for a cancellation leave the handle in the frame until the completion
comes. So a handle may be stored whose coroutine is gone, and a completion will give it out.

That a handle is given out once is up to the awaitable, and so is what it is overwritten by. The
outer guard of `run` empties the ring and gives nothing out: the handles whose completions it finds
there are dropped.
-/

namespace Fiona

open Transition

/-- The handles that `run` has found and has not resumed yet. -/
def Phase.found : Phase → List Coro
  | .batch hs | .handles hs => hs
  | .resuming _ rest => rest
  | _ => []

/-- `run` has been called, and goes on. -/
def Phase.running : Phase → Bool
  | .idle | .unwinding _ | .returned _ => false
  | _ => true

theorem Phase.outside {p : Phase} (hp : p.next = .idle) :
    p.running = false ∧ p.resumes = false := by
  cases p <;> first | exact ⟨rfl, rfl⟩ | cases hp

/-- The handles that a step of `run` finds. -/
def LoopOp.finds : LoopOp → List Coro
  | .completion h => h.toList
  | _ => []

/-- A context and its loop, the coroutines that have been suspended in awaitables and not been
resumed, and the handles that a completion can give out. -/
structure Suspending where
  loop : Loop
  suspended : List Coro
  stored : List Coro

inductive SuspendingOp
  /-- A step in which no coroutine is suspended, and `run` is not left. -/
  | loop (op : LoopOp)
  /-- The coroutine is suspended in an awaitable, which stores its handle. -/
  | suspend (c : Coro)
  /-- Another handle takes the place of this one. -/
  | overwrite (c : Coro)
  /-- The scopes of `run` are left, with the handles that the outer guard drops. -/
  | leave (order : List TaskId) (dropped : List Coro)
  deriving DecidableEq, Repr

namespace Suspending

variable (taskOf : Coro → TaskId) (s : Suspending)

def init : Suspending := ⟨.init, [], []⟩

/-- No coroutine of the task is suspended in an awaitable. -/
def free (t : TaskId) : Bool := s.suspended.all fun c => decide (taskOf c ≠ t)

/-- A task awaits and ends where its own code runs, and the handles that are found have been
stored. -/
def permits : LoopOp → Bool
  | .act (.await _ c g) => decide (taskOf c = g) && s.free taskOf g
  | .act (.finish t) | .act (.fail t _) => s.free taskOf t
  | .completion (some c) => decide (c ∈ s.stored)
  | .leave _ => false
  | _ => true

/-- The coroutines that are suspended after a step of `run` that resumes one, perhaps. -/
def resume : LoopOp → List Coro
  | .advance =>
    match s.loop.phase with
    | .handles (c :: _) => s.suspended.erase c
    | _ => s.suspended
  | _ => s.suspended

/-- One step. -/
def step : SuspendingOp → Option Suspending
  | .loop op =>
    if s.permits taskOf op then
      (s.loop.step op).map fun loop => ⟨loop, s.resume op, s.stored.diff op.finds⟩
    else none
  | .suspend c =>
    if s.loop.phase.resumes && decide (taskOf c ∈ s.loop.started) &&
        s.loop.ctx.runs (taskOf c) && s.free taskOf (taskOf c) then
      some { s with suspended := c :: s.suspended, stored := c :: s.stored }
    else none
  | .overwrite c =>
    if s.loop.phase.resumes && decide (c ∈ s.stored) then
      some { s with stored := s.stored.erase c }
    else none
  | .leave order dropped =>
    (s.loop.leave order).map fun loop =>
      { s with loop := loop, stored := s.stored.filter (· ∉ dropped) }

/-- What there is to resume, as far as completions go: the handles that can be given out, and those
that `run` has found. -/
def handles : List Coro := s.stored ++ s.loop.phase.found

end Suspending

/-! ### What a step of `run` finds -/

namespace Loop

variable {s s' : Loop} {op : LoopOp}

theorem check_found (s : Loop) (p : Phase) : (s.check p).phase.found.Sublist p.found := by
  unfold check
  split
  · exact List.nil_sublist _
  · exact List.Sublist.refl _

theorem next_found (p : Phase) : p.next.found = p.found := by
  cases p <;> rfl

/-- From a loop head a handle is taken that has been found, or there is none left. -/
theorem advance_found (hadvance : s.advance = some s') :
    (∃ c, s.phase = .handles (c :: s'.phase.found)) ∨
      s'.phase.found = [] ∧ ∀ c rest, s.phase ≠ .handles (c :: rest) := by
  have hnil : ∀ p : Phase, p.found = [] → (s.check p).phase.found = [] := fun p hp =>
    List.sublist_nil.mp (hp ▸ check_found s p)
  unfold advance at hadvance
  split at hadvance
  · rename_i hphase
    obtain rfl := Option.some.inj hadvance
    exact .inr ⟨by split_ifs <;> exact hnil _ rfl, by simp [hphase]⟩
  · rename_i hphase
    split at hadvance
    · obtain rfl := Option.some.inj hadvance
      exact .inr ⟨rfl, by simp [hphase]⟩
    · obtain rfl := Option.some.inj hadvance
      refine .inr ⟨?_, by simp [hphase]⟩
      split_ifs
      · exact hnil _ rfl
      · rfl
  · rename_i c rest hphase
    obtain rfl := Option.some.inj hadvance
    exact .inl ⟨c, hphase⟩
  · rename_i hphase
    obtain rfl := Option.some.inj hadvance
    exact .inr ⟨rfl, by simp [hphase]⟩
  · simp at hadvance

/-- **What has been found** was found before, or has been found by this step. -/
theorem step_found (hstep : s.step op = some s') :
    s'.phase.found.Sublist (s.phase.found ++ op.finds) := by
  cases op with
  | run =>
    simp only [step] at hstep
    split at hstep
    · obtain rfl := Option.some.inj hstep
      exact List.nil_sublist _
    · obtain rfl := Option.some.inj hstep
      exact List.nil_sublist _
    · simp at hstep
  | act top =>
    obtain ⟨-, -, e, -, heq⟩ := act_cases hstep
    rw [heq]
    cases e with
    | some e => exact List.nil_sublist _
    | none =>
      rw [Option.map_none, Option.getD_none, next_found]
      exact List.sublist_append_left ..
  | advance =>
    rcases advance_found hstep with ⟨c, hphase⟩ | ⟨hnil, -⟩
    · rw [hphase]
      exact (List.sublist_cons_self ..).trans (List.sublist_append_left ..)
    · rw [hnil]
      exact List.nil_sublist _
  | yield =>
    simp only [step, yield] at hstep
    split at hstep
    · obtain rfl := Option.some.inj hstep
      exact (check_found ..).trans (List.nil_sublist _)
    · rename_i c rest hphase
      obtain rfl := Option.some.inj hstep
      rw [hphase]
      exact List.sublist_append_left ..
    · simp at hstep
  | ready =>
    simp only [step] at hstep
    split_ifs at hstep
    obtain rfl := Option.some.inj hstep
    exact List.nil_sublist _
  | completion h =>
    simp only [step] at hstep
    split at hstep
    · rename_i handles hphase
      obtain rfl := Option.some.inj hstep
      rw [hphase]
      exact check_found ..
    · simp at hstep
  | posted =>
    simp only [step] at hstep
    split at hstep
    · rename_i handles hphase
      obtain ⟨ctx, -, rfl⟩ := Option.map_eq_some_iff.mp hstep
      rw [hphase]
      exact (check_found ..).trans (List.sublist_append_left ..)
    · simp at hstep
  | throws e =>
    simp only [step] at hstep
    split at hstep
    · obtain rfl := Option.some.inj hstep
      exact List.nil_sublist _
    · simp at hstep
  | processed =>
    simp only [step] at hstep
    split at hstep
    · rename_i handles hphase
      obtain rfl := Option.some.inj hstep
      rw [hphase]
      exact List.sublist_append_left ..
    · simp at hstep
  | leave order =>
    obtain ⟨r, -, -, -, heq⟩ := leave_cases hstep
    rw [heq]
    exact List.nil_sublist _

theorem run_cases (hstep : s.step .run = some s') : s'.phase = .head ∧ s'.ctx = s.ctx := by
  simp only [step] at hstep
  split at hstep
  · obtain rfl := Option.some.inj hstep
    exact ⟨rfl, rfl⟩
  · obtain rfl := Option.some.inj hstep
    exact ⟨rfl, rfl⟩
  · simp at hstep

/-! ### The tasks that leave `tasks_` -/

/-- The tasks that a step takes out of `tasks_`. -/
def ends (s : Loop) : LoopOp → List TaskId
  | .act (.finish t) | .act (.fail t _) => [t]
  | .leave _ => s.ctx.tasks
  | _ => []

/-- **A task stays in `tasks_`** until it ends or is cleared. -/
theorem step_tasks (hl : Tasks.Linked s.ctx) (hstep : s.step op = some s') {t : TaskId}
    (ht : t ∈ s.ctx.tasks) (hends : t ∉ s.ends op) : t ∈ s'.ctx.tasks := by
  cases op with
  | act top =>
    obtain ⟨hpermits, hallows, e, hperform, -⟩ := act_cases hstep
    obtain ⟨ctx, e', hperform', heffect, -⟩ := hl.perform hallows
    obtain ⟨rfl, rfl⟩ := Prod.mk.inj (Option.some.inj (hperform.symm.trans hperform'))
    have hended : ∀ {x : TaskId} {ctx₀ : Tasks}, Tasks.Ended ctx₀ s'.ctx x →
        ctx₀.tasks = s.ctx.tasks → t ≠ x → t ∈ s'.ctx.tasks := by
      intro x ctx₀ he hsame hne
      rw [he.tasks, hsame]
      exact (List.mem_erase_of_ne hne).mpr ht
    generalize s'.ctx = ctx at heffect hended ⊢
    cases heffect with
    | spawned => exact List.mem_cons_of_mem _ ht
    | posted => exact List.mem_cons_of_mem _ ht
    | quiet hop hq htasks => exact htasks ▸ ht
    | awaited => exact (Tasks.await_keeps (s := s.ctx) ..).1 ▸ ht
    | finished he => exact hended he rfl (by simpa [ends] using hends)
    | failed hcount he => exact hended he rfl (by simpa [ends] using hends)
    | escaped => exact ht
    | cleared => simp [permits] at hpermits
  | leave order => exact absurd ht hends
  | posted =>
    obtain ⟨hmoves, -⟩ := step_moves hstep
    generalize s'.ctx = ctx at hmoves ⊢
    cases hmoves with
    | same => exact ht
    | posted hpost =>
      rw [Tasks.post_eq hl.sound] at hpost
      obtain rfl := Option.some.inj hpost
      exact List.mem_cons_of_mem _ ht
  | _ =>
    obtain ⟨hmoves, -⟩ := step_moves hstep
    generalize s'.ctx = ctx at hmoves ⊢
    cases hmoves <;> exact ht

end Loop

/-! ### What there is to resume -/

namespace Suspending

variable {taskOf : Coro → TaskId} {s s' : Suspending} {op : SuspendingOp}

/-- **What there is to resume is suspended**, once, and belongs to tasks that are in `tasks_`. -/
structure Held (taskOf : Coro → TaskId) (s : Suspending) : Prop where
  nodup : s.handles.Nodup
  suspended : ∀ c ∈ s.handles, c ∈ s.suspended
  registered : ∀ c ∈ s.handles, taskOf c ∈ s.loop.ctx.tasks

theorem held_of_nil (hnil : s.handles = []) : Held taskOf s := by
  refine ⟨?_, ?_, ?_⟩ <;> simp [hnil]

theorem ne_of_free {t : TaskId} (hfree : s.free taskOf t = true) {c : Coro} (hc : c ∈ s.suspended) :
    taskOf c ≠ t := by
  have hall := List.all_eq_true.mp hfree c hc
  exact of_decide_eq_true hall

theorem loop_cases {lop : LoopOp} (hstep : s.step taskOf (.loop lop) = some s') :
    s.permits taskOf lop = true ∧ s.loop.step lop = some s'.loop ∧
      s' = ⟨s'.loop, s.resume lop, s.stored.diff lop.finds⟩ := by
  obtain ⟨hpermits, hstep⟩ := Option.ite_none_right_eq_some.mp hstep
  obtain ⟨loop, hloop, rfl⟩ := Option.map_eq_some_iff.mp hstep
  exact ⟨hpermits, hloop, rfl⟩

/-- A handle that is found comes from where it was stored. -/
theorem diff_append_finds {lop : LoopOp} (hpermits : s.permits taskOf lop = true) :
    (s.stored.diff lop.finds ++ lop.finds).Perm s.stored := by
  cases lop with
  | completion h =>
    cases h with
    | some c =>
      have hc : c ∈ s.stored := of_decide_eq_true hpermits
      rw [LoopOp.finds, Option.toList_some, List.diff_cons, List.diff_nil]
      exact List.perm_append_comm.trans (List.perm_cons_erase hc).symm
    | none => simp [LoopOp.finds]
  | _ => simp [LoopOp.finds]

/-- Nothing comes to what there is to resume in a step of `run`. -/
theorem handles_subperm {lop : LoopOp} (hstep : s.step taskOf (.loop lop) = some s') :
    s'.handles.Subperm s.handles := by
  obtain ⟨hpermits, hloop, heq⟩ := loop_cases hstep
  have hfound := (Loop.step_found hloop).append_left (s.stored.diff lop.finds)
  have hperm : (s.stored.diff lop.finds ++ (s.loop.phase.found ++ lop.finds)).Perm s.handles := by
    refine (List.perm_append_comm.append_left _).trans ?_
    rw [← List.append_assoc]
    exact (diff_append_finds hpermits).append_right _
  have hhandles : s'.handles = s.stored.diff lop.finds ++ s'.loop.phase.found := by
    rw [handles, heq]
  rw [hhandles]
  exact hfound.subperm.trans hperm.subperm

/-- What is still to be resumed after a step of `run` is still suspended. -/
theorem Held.mem_resume (hh : Held taskOf s) {lop : LoopOp}
    (hstep : s.step taskOf (.loop lop) = some s') {c : Coro} (hc : c ∈ s'.handles) :
    c ∈ s.resume lop := by
  have hsuspended := hh.suspended c ((handles_subperm hstep).subset hc)
  obtain ⟨-, hloop, heq⟩ := loop_cases hstep
  cases lop with
  | advance =>
    rcases Loop.advance_found hloop with ⟨c₀, hphase⟩ | ⟨-, hno⟩
    · -- the handle that is taken is not among the others
      have hnodup := hh.nodup
      rw [handles, hphase] at hnodup
      have hne : c ≠ c₀ := by
        rintro rfl
        refine (List.nodup_cons.mp (List.perm_middle.nodup_iff.mp hnodup)).1 ?_
        rw [handles, heq] at hc
        exact hc
      simp only [resume, hphase]
      exact (List.mem_erase_of_ne hne).mpr hsuspended
    · unfold resume
      dsimp only
      split
      · rename_i c' rest hphase
        exact absurd hphase (hno c' rest)
      · exact hsuspended
  | _ => exact hsuspended

/-- **A step of `run` leaves what there is to resume in `tasks_`**: a task does not end while a
coroutine of it is suspended. -/
theorem Held.loop (hh : Held taskOf s) (hl : Tasks.Linked s.loop.ctx) {lop : LoopOp}
    (hstep : s.step taskOf (.loop lop) = some s') : Held taskOf s' := by
  have hsub := handles_subperm hstep
  obtain ⟨hpermits, hloop, heq⟩ := loop_cases hstep
  refine ⟨?_, fun c hc => ?_, fun c hc => ?_⟩
  · obtain ⟨l, hperm, hsublist⟩ := hsub
    exact hperm.nodup_iff.mp (hh.nodup.sublist hsublist)
  · rw [heq]
    exact hh.mem_resume hstep hc
  · have hc' := hsub.subset hc
    have hne : ∀ t, s.free taskOf t = true → taskOf c ∉ [t] := fun t hfree hmem =>
      ne_of_free hfree (hh.suspended c hc') (List.mem_singleton.mp hmem)
    refine Loop.step_tasks hl hloop (hh.registered c hc') ?_
    cases lop with
    | act top =>
      cases top with
      | finish t => exact hne t hpermits
      | fail t e => exact hne t hpermits
      | _ => exact List.not_mem_nil
    | leave order => simp [permits] at hpermits
    | _ => exact List.not_mem_nil

theorem suspend_cases {c : Coro} (hstep : s.step taskOf (.suspend c) = some s') :
    s.loop.phase.resumes = true ∧ taskOf c ∈ s.loop.ctx.tasks ∧ s.free taskOf (taskOf c) = true ∧
      s' = { s with suspended := c :: s.suspended, stored := c :: s.stored } := by
  obtain ⟨hop, hstep⟩ := Option.ite_none_right_eq_some.mp hstep
  simp only [Bool.and_eq_true] at hop
  exact ⟨hop.1.1.1, Tasks.mem_of_runs hop.1.2, hop.2, (Option.some.inj hstep).symm⟩

theorem Held.suspend (hh : Held taskOf s) {c : Coro}
    (hstep : s.step taskOf (.suspend c) = some s') : Held taskOf s' := by
  obtain ⟨-, ht, hfree, rfl⟩ := suspend_cases hstep
  have hc : c ∉ s.handles := fun hmem => ne_of_free hfree (hh.suspended c hmem) rfl
  refine ⟨List.nodup_cons.mpr ⟨hc, hh.nodup⟩, fun x hx => ?_, fun x hx => ?_⟩
  · rcases List.mem_cons.mp hx with rfl | hx
    · exact List.mem_cons_self
    · exact List.mem_cons_of_mem _ (hh.suspended x hx)
  · rcases List.mem_cons.mp hx with rfl | hx
    · exact ht
    · exact hh.registered x hx

theorem overwrite_cases {c : Coro} (hstep : s.step taskOf (.overwrite c) = some s') :
    s.loop.phase.resumes = true ∧ s' = { s with stored := s.stored.erase c } := by
  obtain ⟨hop, hstep⟩ := Option.ite_none_right_eq_some.mp hstep
  exact ⟨((Bool.and_eq_true _ _).mp hop).1, (Option.some.inj hstep).symm⟩

theorem Held.overwrite (hh : Held taskOf s) {c : Coro}
    (hstep : s.step taskOf (.overwrite c) = some s') : Held taskOf s' := by
  obtain ⟨-, rfl⟩ := overwrite_cases hstep
  have hsub : (s.stored.erase c ++ s.loop.phase.found).Sublist s.handles :=
    List.erase_sublist.append_right _
  exact ⟨hh.nodup.sublist hsub, fun x hx => hh.suspended x (hsub.subset hx),
    fun x hx => hh.registered x (hsub.subset hx)⟩

theorem leave_cases {order : List TaskId} {dropped : List Coro}
    (hstep : s.step taskOf (.leave order dropped) = some s') :
    s.loop.leave order = some s'.loop ∧
      s' = { s with loop := s'.loop, stored := s.stored.filter (· ∉ dropped) } := by
  obtain ⟨loop, hleave, rfl⟩ := Option.map_eq_some_iff.mp hstep
  exact ⟨hleave, rfl⟩

/-- `run` is over only when its scopes are left. -/
theorem returned_cases (hstep : s.step taskOf op = some s') :
    (∃ order dropped, op = .leave order dropped) ∨ ∀ r, s'.loop.phase ≠ .returned r := by
  cases op with
  | loop lop =>
    obtain ⟨hpermits, hloop, -⟩ := loop_cases hstep
    rcases (Loop.step_moves hloop).2.1 with ⟨-, hno⟩ | ⟨order, rfl⟩
    · exact .inr hno
    · simp [permits] at hpermits
  | suspend c =>
    obtain ⟨hresumes, -, -, heq⟩ := suspend_cases hstep
    have hphase : s'.loop.phase.resumes = true := by rw [heq]; exact hresumes
    exact .inr fun r hr => by simp [hr, Phase.resumes] at hphase
  | overwrite c =>
    obtain ⟨hresumes, heq⟩ := overwrite_cases hstep
    have hphase : s'.loop.phase.resumes = true := by rw [heq]; exact hresumes
    exact .inr fun r hr => by simp [hr, Phase.resumes] at hphase
  | leave order dropped => exact .inl ⟨order, dropped, rfl⟩

end Suspending

end Fiona
