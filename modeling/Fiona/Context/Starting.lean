import Mathlib.Data.List.Nodup
import Mathlib.Data.List.Range
import Fiona.Context.Continuation
import Fiona.Context.Loop

/-!
# Starting tasks

A task can be queued while another is being resumed from the front of the same queue, and a task
can end and leave `tasks_` while it is still at the front. As long as no exception leaves `run`
the queue holds exactly the tasks that have been made and not started, in this order, after the
one that is being started (`Fiona.Loop.Ordered`).

Tasks are numbered in the order in which they are made, and with each `push_back` comes a new
number; so what has been queued so far is `List.range next`.
-/

namespace Fiona

open Transition

namespace Loop

open Tasks (Linked Effect)

variable {s s' : Loop} {ctx : Tasks} {op : LoopOp} {top : TaskOp} {t : TaskId}

/-- What of the queue is still to be started. -/
def pendingOf : Phase → List TaskId → List TaskId
  | .starting _, queue => queue.tail
  | _, queue => queue

def pending (s : Loop) : List TaskId := pendingOf s.phase s.ctx.runQueue

theorem pending_eq {p : Phase} (hphase : s.phase = p) : s.pending = pendingOf p s.ctx.runQueue := by
  rw [pending, hphase]

/-- What holds until an exception leaves `run`. -/
structure Ordered (s : Loop) : Prop where
  linked : Linked s.ctx
  going : ∀ e, s.phase ≠ .unwinding e
  queued : s.started ++ s.pending = List.range s.ctx.next
  registered : ∀ t ∈ s.pending, t ∈ s.ctx.tasks
  running : ∀ t ∈ s.ctx.tasks, (s.ctx.promise t).done = false
  ended : (∀ r ∈ s.results, r = none) → ∀ t < s.ctx.next, t ∉ s.ctx.tasks →
    (s.ctx.promise t).done = true
  front : ∀ t, s.phase = .starting t → ∃ rest, s.ctx.runQueue = t :: rest
  waits : s.phase = .waiting → s.ctx.runQueue = [] ∧ s.ctx.tasks ≠ []
  returns : s.phase = .returning → s.ctx.runQueue = [] ∧ s.ctx.tasks = []

theorem ordered_init : Ordered init :=
  ⟨Tasks.linked_init, by simp [init], rfl, by simp [init, pending, pendingOf, Tasks.init],
    by simp [init, Tasks.init], by simp [init, Tasks.init], by simp [init], by simp [init],
    by simp [init]⟩

/-! ### The queue -/

theorem Ordered.nodup (ho : Ordered s) : (s.started ++ s.pending).Nodup := by
  rw [ho.queued]
  exact List.nodup_range

/-- A task that has been started is not to be started. -/
theorem Ordered.notMem_pending (ho : Ordered s) (ht : t ∈ s.started) : t ∉ s.pending := fun hmem =>
  (List.disjoint_of_nodup_append ho.nodup) ht hmem

theorem Ordered.lt_next (ho : Ordered s) (ht : t ∈ s.ctx.tasks) : t < s.ctx.next :=
  ho.linked.sound.lt_of_alive (ho.linked.sound.alive_of_registered ht)

/-- What is put at the end of the queue is still to be started. -/
theorem pendingOf_append {p : Phase} {queue : List TaskId}
    (hfront : ∀ t, p = .starting t → ∃ rest, queue = t :: rest) (t : TaskId) :
    pendingOf p (queue ++ [t]) = pendingOf p queue ++ [t] := by
  cases p with
  | starting t' =>
    obtain ⟨rest, rfl⟩ := hfront t' rfl
    rfl
  | _ => rfl

/-- Where the code of the callers runs, the phase does not matter for the queue. -/
theorem pendingOf_next (p : Phase) (queue : List TaskId) :
    pendingOf p.next queue = pendingOf p queue := by
  cases p <;> rfl

/-- `run` goes on in another place, with the same queue. -/
theorem Ordered.goto (ho : Ordered s) {p : Phase} (hgoing : ∀ e, p ≠ .unwinding e)
    (hp : pendingOf p s.ctx.runQueue = s.pending)
    (hfront : ∀ t, p = .starting t → ∃ rest, s.ctx.runQueue = t :: rest)
    (hwaits : p = .waiting → s.ctx.runQueue = [] ∧ s.ctx.tasks ≠ [])
    (hreturns : p = .returning → s.ctx.runQueue = [] ∧ s.ctx.tasks = []) :
    Ordered { s with phase := p } where
  linked := ho.linked
  going := hgoing
  queued := by
    rw [← ho.queued, ← hp]
    rfl
  registered := by
    intro t ht
    refine ho.registered t ?_
    rw [← hp]
    exact ht
  running := ho.running
  ended := ho.ended
  front := hfront
  waits := hwaits
  returns := hreturns

/-! ### Tasks change -/

/-- Tasks may end that have been started; otherwise handles and promises change. -/
theorem Ordered.keep (ho : Ordered s) (hcallers : s.phase.callers = true) (hl : Linked ctx)
    (hnext : ctx.next = s.ctx.next) (hqueue : ctx.runQueue = s.ctx.runQueue)
    (htasks : ∀ t ∈ ctx.tasks, t ∈ s.ctx.tasks ∧ (ctx.promise t).done = (s.ctx.promise t).done)
    (hended : ∀ t, t ∉ ctx.tasks → t ∈ s.ctx.tasks ∨ (s.ctx.promise t).done = true →
      (ctx.promise t).done = true)
    (hpending : ∀ t ∈ s.pending, t ∈ ctx.tasks) :
    Ordered { s with ctx := ctx, phase := s.phase.next } := by
  have hsame : pending { s with ctx := ctx, phase := s.phase.next } = s.pending := by
    rw [pending, pendingOf_next, hqueue, pending]
  obtain ⟨hgoing, hfront, hwaits, hreturns⟩ := Phase.next_of_callers hcallers
  refine ⟨hl, hgoing, ?_, ?_, fun t ht => ?_, fun hr t ht hnot => ?_, fun t ht => ?_,
    fun hp => absurd hp hwaits, fun hp => absurd hp hreturns⟩
  · rw [hsame, hnext]
    exact ho.queued
  · rw [hsame]
    exact hpending
  · obtain ⟨ht', hdone⟩ := htasks t ht
    exact hdone.trans (ho.running t ht')
  · rw [hnext] at ht
    exact hended t hnot (or_iff_not_imp_left.mpr (ho.ended hr t ht))
  · rw [hqueue]
    exact ho.front t (hfront t ht)

/-- A task is made and queued. -/
theorem Ordered.make (ho : Ordered s) {p : Phase} (hl : Linked ctx)
    (hnext : ctx.next = s.ctx.next + 1) (hqueue : ctx.runQueue = s.ctx.runQueue ++ [s.ctx.next])
    (htasks : ctx.tasks = s.ctx.next :: s.ctx.tasks)
    (hpromise : ctx.promise = Function.update s.ctx.promise s.ctx.next .init)
    (hp : ∀ queue, pendingOf p queue = pendingOf s.phase queue) (hgoing : ∀ e, p ≠ .unwinding e)
    (hfront : ∀ t, p = .starting t → s.phase = .starting t) (hwaits : p ≠ .waiting)
    (hreturns : p ≠ .returning) : Ordered { s with ctx := ctx, phase := p } := by
  have hpending : pending { s with ctx := ctx, phase := p } = s.pending ++ [s.ctx.next] := by
    rw [pending, hp, hqueue, pendingOf_append ho.front]
    rfl
  refine ⟨hl, hgoing, ?_, fun t ht => ?_, fun t ht => ?_, fun hr t ht hnot => ?_, fun t ht => ?_,
    fun h => absurd h hwaits, fun h => absurd h hreturns⟩
  · rw [hpending, ← List.append_assoc, ho.queued, hnext, List.range_succ]
  · rw [hpending] at ht
    rw [htasks]
    rcases List.mem_append.mp ht with ht | ht
    · exact List.mem_cons_of_mem _ (ho.registered t ht)
    · obtain rfl := List.mem_singleton.mp ht
      exact List.mem_cons_self
  · rw [htasks] at ht
    rw [hpromise]
    rcases List.mem_cons.mp ht with rfl | ht
    · simp [Promise.init]
    · rw [Function.update_of_ne (Nat.ne_of_lt (ho.lt_next ht))]
      exact ho.running t ht
  · rw [hnext] at ht
    rw [htasks, List.mem_cons, not_or] at hnot
    rw [hpromise, Function.update_of_ne hnot.1]
    exact ho.ended hr t (Nat.lt_of_le_of_ne (Nat.le_of_lt_succ ht) hnot.1) hnot.2
  · obtain ⟨rest, hrest⟩ := ho.front t (hfront t ht)
    refine ⟨rest ++ [s.ctx.next], ?_⟩
    rw [hqueue, hrest]
    rfl

/-! ### Steps -/

/-- The ways in which an exception leaves `run`. -/
inductive Exits (s : Loop) : LoopOp → Loop → Prop
  /-- Out of `resume`. -/
  | escaped {t : TaskId} {e : Exn} (hphase : s.phase.resumes = true) (ht : t ∈ s.ctx.tasks)
      (hcount : ¬1 < s.ctx.heap.count t) : Exits s (.act (.fail t e))
        { s with
          ctx := s.ctx.setPromise t { s.ctx.promise t with done := true }
          phase := .unwinding e }
  /-- Out of `await_process_cqe`. -/
  | thrown {e : Exn} {handles : List Coro} (hphase : s.phase = .batch handles) :
      Exits s (.throws e) { s with phase := .unwinding e }
  /-- From `exception_ptr_`. -/
  | rethrown {op : LoopOp} {s' : Loop} {e : Exn} (hep : s.ctx.exceptionPtr = some e)
      (hep' : s'.ctx.exceptionPtr = some e) (hphase : s'.phase = .unwinding e)
      (hstarted : s'.started = s.started) (hresults : s'.results = s.results)
      (hnext : s.ctx.next ≤ s'.ctx.next) (hl : Linked s'.ctx) : Exits s op s'

theorem Ordered.act (ho : Ordered s) (hact : s.act top = some s') :
    Ordered s' ∨ Exits s (.act top) s' := by
  obtain ⟨hpermits, hallows, e, hperform, heq⟩ := act_cases hact
  obtain ⟨ctx, e', hperform', heffect, hl⟩ := ho.linked.perform hallows
  obtain ⟨hctx, rfl⟩ := Prod.mk.inj (Option.some.inj (hperform.symm.trans hperform'))
  rw [hctx] at heq
  clear hact hperform hperform' hctx
  subst heq
  have hphase :
      ∀ {b : Bool}, (s.phase.resumes && b) = true → s.phase.callers = true ∧ b = true := by
    intro b hb
    obtain ⟨hresumes, hb⟩ := (Bool.and_eq_true _ _).mp hb
    exact ⟨Phase.callers_of_resumes hresumes, hb⟩
  -- a task that ends has been started
  have hend : ∀ {t : TaskId} {ctx₀ : Tasks}, s.phase.callers = true → t ∈ s.started →
      Tasks.Ended ctx₀ ctx t → ctx₀.next = s.ctx.next → ctx₀.runQueue = s.ctx.runQueue →
      ctx₀.tasks = s.ctx.tasks → (∀ x, (ctx₀.promise x).done = (s.ctx.promise x).done) →
      Ordered { s with ctx := ctx, phase := s.phase.next } := by
    intro t ctx₀ hcallers ht he hnext hqueue htasks hdone
    have hnodup := ho.linked.sound.nodup
    have hne : ∀ {x}, x ∈ ctx.tasks → x ≠ t := by
      rintro x hx rfl
      rw [he.tasks, htasks] at hx
      exact hnodup.not_mem_erase hx
    refine ho.keep hcallers hl (he.next.trans hnext) (he.runQueue.trans hqueue) (fun x hx => ?_)
      (fun x hx hor => ?_) fun x hx => ?_
    · have hx' := hx
      rw [he.tasks, htasks] at hx'
      refine ⟨List.mem_of_mem_erase hx', ?_⟩
      rw [he.promise, Function.update_of_ne (hne hx), hdone]
    · rcases eq_or_ne x t with rfl | hxt
      · rw [he.promise, Function.update_self]
      · rw [he.promise, Function.update_of_ne hxt, hdone]
        rw [he.tasks, htasks, List.mem_erase_of_ne hxt] at hx
        exact hor.resolve_left hx
    · rw [he.tasks, htasks]
      refine (List.mem_erase_of_ne ?_).mpr (ho.registered x hx)
      rintro rfl
      exact ho.notMem_pending ht hx
  cases heffect with
  | spawned howner =>
    obtain ⟨hgoing, hfront, hwaits, hreturns⟩ := Phase.next_of_callers (callers_of_permits hpermits)
    exact .inl (ho.make hl rfl rfl rfl rfl (pendingOf_next s.phase) hgoing hfront hwaits hreturns)
  -- tasks are made from records, and cleared, by `run` alone
  | posted => simp [permits] at hpermits
  | quiet hquiet hq htasks =>
    refine .inl (ho.keep (callers_of_permits hpermits) hl hq.next hq.runQueue (fun t ht => ?_)
      (fun t ht hor => ?_) fun t ht => ?_)
    · exact ⟨htasks ▸ ht, by rw [hq.promise]⟩
    · rw [hq.promise]
      exact hor.resolve_left (htasks ▸ ht)
    · exact htasks ▸ ho.registered t ht
  | awaited =>
    rename_i h c g
    obtain ⟨hcallers, -⟩ := hphase hpermits
    obtain ⟨htasks, -⟩ := Tasks.await_keeps (s := s.ctx) h c g
    have hdone : ∀ t, ((s.ctx.await h c g).promise t).done = (s.ctx.promise t).done := by
      intro t
      rw [(Tasks.await_keeps_offered s.ctx h c g).1]
      exact Tasks.offered_done s.ctx h c t
    obtain ⟨-, -, hnext, hqueue⟩ := Tasks.await_keeps_offered s.ctx h c g
    refine .inl (ho.keep hcallers hl hnext hqueue (fun t ht => ⟨htasks ▸ ht, hdone t⟩)
      (fun t ht hor => ?_) fun t ht => htasks ▸ ho.registered t ht)
    rw [hdone]
    exact hor.resolve_left (htasks ▸ ht)
  | finished he =>
    obtain ⟨hcallers, ht⟩ := hphase hpermits
    exact .inl (hend hcallers (of_decide_eq_true ht) he rfl rfl rfl fun _ => rfl)
  | failed hcount he =>
    obtain ⟨hcallers, ht⟩ := hphase hpermits
    refine .inl (hend hcallers (of_decide_eq_true ht) he rfl rfl rfl fun x => ?_)
    rename_i t e
    rcases eq_or_ne x t with rfl | hne
    · rw [Tasks.setPromise_self]
    · rw [Tasks.setPromise_of_ne _ hne]
  | escaped hcount =>
    exact .inr (.escaped ((Bool.and_eq_true _ _).mp hpermits).1 (Tasks.mem_of_runs hallows) hcount)
  | cleared hq htasks => simp [permits] at hpermits

/-- `run` goes on, or throws what is in `exception_ptr_`. -/
theorem Ordered.checked {p : Phase} (hep : ctx.exceptionPtr = s.ctx.exceptionPtr)
    (hnext : s.ctx.next ≤ ctx.next) (hnew : Ordered { s with ctx := ctx, phase := p }) :
    Ordered (check { s with ctx := ctx } p) ∨ Exits s op (check { s with ctx := ctx } p) := by
  cases hctx : ctx.exceptionPtr with
  | some e =>
    rw [check_of_some (s := { s with ctx := ctx }) hctx]
    exact .inr (.rethrown (hep ▸ hctx) hctx rfl rfl rfl hnext hnew.linked)
  | none =>
    rw [check_of_none (s := { s with ctx := ctx }) hctx]
    exact .inl hnew

/-- The loop over `tasks_` is left, or it goes on. -/
theorem Ordered.advance (ho : Ordered s) (hadvance : s.advance = some s') :
    Ordered s' ∨ Exits s .advance s' := by
  unfold Loop.advance at hadvance
  -- with no task in `tasks_` there is none in the queue
  have hempty : s.pending = s.ctx.runQueue → s.ctx.tasks = [] → s.ctx.runQueue = [] ∧
      s.ctx.tasks = [] := by
    intro hphase hnone
    refine ⟨List.eq_nil_iff_forall_not_mem.mpr fun t ht => ?_, hnone⟩
    have hmem := ho.registered t (hphase ▸ ht)
    rw [hnone] at hmem
    exact List.not_mem_nil hmem
  split at hadvance
  · rename_i hphase
    have hpending : s.pending = s.ctx.runQueue := pending_eq hphase
    obtain rfl := Option.some.inj hadvance
    split_ifs with hnone
    · refine Ordered.checked rfl (Nat.le_refl _)
        (ho.goto (by simp) hpending.symm (by simp) (by simp) fun _ => ?_)
      exact hempty hpending hnone
    · exact Ordered.checked rfl (Nat.le_refl _) (ho.goto (by simp) hpending.symm (by simp) (by simp)
        (by simp))
  · rename_i hphase
    have hpending : s.pending = s.ctx.runQueue := pending_eq hphase
    split at hadvance
    · rename_i t rest hqueue
      obtain rfl := Option.some.inj hadvance
      rw [hqueue] at hpending
      -- the front of the queue counts as started from now on, though it is still in the queue
      have hrest : ∀ x ∈ rest, x ∈ s.ctx.tasks := fun x hx =>
        ho.registered x (hpending ▸ List.mem_cons_of_mem _ hx)
      have hnew : pending { s with phase := .starting t, started := s.started ++ [t] } = rest := by
        simp [pending, pendingOf, hqueue]
      refine .inl ⟨ho.linked, by simp, ?_, ?_, ho.running, ho.ended, fun x hx => ?_,
        by simp, by simp⟩
      · rw [hnew, List.append_assoc, List.singleton_append, ← hpending]
        exact ho.queued
      · rw [hnew]
        exact hrest
      · obtain rfl : t = x := by simpa using hx
        exact ⟨rest, hqueue⟩
    · rename_i hqueue
      obtain rfl := Option.some.inj hadvance
      split_ifs with hnone
      · refine Ordered.checked rfl (Nat.le_refl _)
          (ho.goto (by simp) hpending.symm (by simp) (by simp) fun _ => ?_)
        exact ⟨hqueue, hnone⟩
      · exact .inl (ho.goto (by simp) hpending.symm (by simp) (fun _ => ⟨hqueue, hnone⟩) (by simp))
  · rename_i c rest hphase
    obtain rfl := Option.some.inj hadvance
    exact .inl (ho.goto (by simp) (pending_eq hphase).symm (by simp) (by simp) (by simp))
  · rename_i hphase
    obtain rfl := Option.some.inj hadvance
    exact .inl (ho.goto (by simp) (pending_eq hphase).symm (by simp) (by simp) (by simp))
  · simp at hadvance

/-- `resume` returns, and what was started is popped. -/
theorem Ordered.yield (ho : Ordered s) (hyield : s.yield = some s') :
    Ordered s' ∨ Exits s .yield s' := by
  unfold Loop.yield at hyield
  split at hyield
  · rename_i t hphase
    obtain rfl := Option.some.inj hyield
    have hpending : s.pending = s.ctx.runQueue.tail := pending_eq hphase
    -- what is popped has been counted as started; the task may be over by now, or suspended
    have hpopped : Ordered { s with
        ctx := { s.ctx with runQueue := s.ctx.runQueue.tail }
        phase := .queue } := by
      refine ⟨ho.linked.queue _, by simp, ?_, fun x hx => ho.registered x (hpending ▸ hx),
        ho.running, ho.ended, by simp, by simp, by simp⟩
      rw [← ho.queued, hpending]
      rfl
    exact Ordered.checked rfl (Nat.le_refl _) hpopped
  · rename_i c rest hphase
    obtain rfl := Option.some.inj hyield
    exact .inl (ho.goto (by simp) (pending_eq hphase).symm (by simp) (by simp) (by simp))
  · simp at hyield

theorem Ordered.leave (ho : Ordered s) {order : List TaskId} (hleave : s.leave order = some s') :
    Ordered s' := by
  unfold Loop.leave Loop.exit at hleave
  cases hphase : s.phase with
  | returning =>
    obtain ⟨hqueue, hnone⟩ := ho.returns hphase
    -- with `tasks_` empty there is nothing for the guard to clear
    simp only [hphase, hnone] at hleave
    split_ifs at hleave with horder
    obtain rfl := List.perm_nil.mp horder
    rw [Tasks.clear, if_pos hnone] at hleave
    obtain rfl := Option.some.inj hleave
    have hpending : s.pending = s.ctx.runQueue := pending_eq hphase
    have hqueued := ho.queued
    rw [hpending] at hqueued
    exact ⟨ho.linked, by simp, hqueued, fun x hx => ho.registered x (hpending ▸ hx), ho.running,
      fun hr => ho.ended fun r hr' => hr r (List.mem_append_left _ hr'), by simp, by simp, by simp⟩
  | unwinding e => exact absurd hphase (ho.going e)
  | _ => simp [hphase] at hleave

/-- **A step of a loop in order** leads to another one, unless an exception leaves `run`. -/
theorem Ordered.step (ho : Ordered s) (hstep : s.step op = some s') :
    Ordered s' ∨ Exits s op s' := by
  cases op with
  | run =>
    simp only [Loop.step] at hstep
    split at hstep
    · rename_i hidle
      obtain rfl := Option.some.inj hstep
      exact .inl (ho.goto (by simp) (pending_eq hidle).symm (by simp) (by simp) (by simp))
    · rename_i hidle
      obtain rfl := Option.some.inj hstep
      exact .inl (ho.goto (by simp) (pending_eq hidle).symm (by simp) (by simp) (by simp))
    · simp at hstep
  | act top => exact ho.act hstep
  | advance => exact ho.advance hstep
  | yield => exact ho.yield hstep
  | ready =>
    simp only [Loop.step] at hstep
    split_ifs at hstep with hwaiting
    obtain rfl := Option.some.inj hstep
    exact .inl (ho.goto (by simp) (pending_eq hwaiting).symm (by simp) (by simp) (by simp))
  | completion h =>
    simp only [Loop.step] at hstep
    split at hstep
    · rename_i handles hbatch
      obtain rfl := Option.some.inj hstep
      have hnew : Ordered { s with phase := .batch (handles ++ h.toList) } :=
        ho.goto (by simp) (pending_eq hbatch).symm (by simp) (by simp) (by simp)
      exact Ordered.checked rfl (Nat.le_refl _) hnew
    · simp at hstep
  | posted =>
    simp only [Loop.step] at hstep
    split at hstep
    · rename_i handles hbatch
      rw [Tasks.post_eq ho.linked.sound, Option.map_some] at hstep
      obtain rfl := Option.some.inj hstep
      have hposted : Ordered { s with ctx := s.ctx.posted, phase := .batch handles } :=
        ho.make ho.linked.posted rfl rfl rfl rfl (fun _ => by rw [hbatch]) (by simp) (by simp)
          (by simp) (by simp)
      exact Ordered.checked rfl (Nat.le_succ _) hposted
    · simp at hstep
  | throws e =>
    simp only [Loop.step] at hstep
    split at hstep
    · rename_i handles hbatch
      obtain rfl := Option.some.inj hstep
      exact .inr (.thrown hbatch)
    · simp at hstep
  | processed =>
    simp only [Loop.step] at hstep
    split at hstep
    · rename_i handles hbatch
      obtain rfl := Option.some.inj hstep
      exact .inl (ho.goto (by simp) (pending_eq hbatch).symm (by simp) (by simp) (by simp))
    · simp at hstep
  | leave order => exact .inl (ho.leave hstep)

/-! ### Runs -/

theorem Exits.phase (hexits : Exits s op s') : ∃ e, s'.phase = .unwinding e := by
  cases hexits with
  | escaped => exact ⟨_, rfl⟩
  | thrown => exact ⟨_, rfl⟩
  | rethrown _ _ hphase => exact ⟨_, hphase⟩

/-- **What is asked of starting**: the tasks are started once each, in the order in which they
were queued; at a loop head the queue holds tasks that are in `tasks_` and have not been started;
`run` waits only with an empty queue and some task left; and it returns normally only when all
tasks made so far have been started and have ended. -/
structure InOrder (s : Loop) : Prop where
  once : s.started <+: List.range s.ctx.next
  none_lost : (∀ e, s.phase ≠ .unwinding e) → s.started ++ s.pending = List.range s.ctx.next
  heads : s.phase.resumes = false → (∀ e, s.phase ≠ .unwinding e) →
    s.ctx.runQueue.Nodup ∧ ∀ t ∈ s.ctx.runQueue, t ∈ s.ctx.tasks ∧ t ∉ s.started
  waits : s.phase = .waiting → s.ctx.runQueue = [] ∧ s.ctx.tasks ≠ []
  returns : s.phase = .returning → s.ctx.runQueue = [] ∧ s.started = List.range s.ctx.next ∧
    ∀ t < s.ctx.next, (s.ctx.promise t).done = true

theorem Ordered.inOrder (ho : Ordered s) (hnormal : ∀ r ∈ s.results, r = none) : InOrder s where
  once := ⟨s.pending, ho.queued⟩
  none_lost := fun _ => ho.queued
  heads := by
    intro hphase _
    have hpending : s.pending = s.ctx.runQueue := by
      revert hphase
      unfold pending pendingOf
      cases s.phase <;> simp [Phase.resumes]
    rw [← hpending]
    exact ⟨ho.nodup.of_append_right,
      fun t ht => ⟨ho.registered t ht, fun hmem => ho.notMem_pending hmem ht⟩⟩
  waits := ho.waits
  returns := by
    intro hphase
    obtain ⟨hqueue, hnone⟩ := ho.returns hphase
    have hpending : s.pending = [] := by rw [pending, hphase, hqueue]; rfl
    have hqueued := ho.queued
    rw [hpending, List.append_nil] at hqueued
    exact ⟨hqueue, hqueued, fun t ht => ho.ended hnormal t ht (by simp [hnone])⟩

/-- An exception is on its way out of `run`. -/
structure Unwinding (s : Loop) : Prop where
  phase : ∃ e, s.phase = .unwinding e
  once : s.started <+: List.range s.ctx.next

theorem Ordered.unwinding (ho : Ordered s) (hexits : Exits s op s') : Unwinding s' := by
  refine ⟨hexits.phase, ?_⟩
  have honce : s.started <+: List.range s.ctx.next := ⟨s.pending, ho.queued⟩
  cases hexits with
  | escaped => exact honce
  | thrown => exact honce
  | rethrown hep hep' hphase hstarted hresults hnext hl =>
    rw [hstarted]
    exact honce.trans (List.prefix_iff_eq_take.mpr
      (by rw [List.take_range, Nat.min_eq_left (by simpa using hnext), List.length_range]))

theorem Unwinding.inOrder (hu : Unwinding s) : InOrder s := by
  obtain ⟨e, he⟩ := hu.phase
  exact ⟨hu.once, fun h => absurd he (h e), fun _ h => absurd he (h e), by simp [he], by simp [he]⟩

/-- As long as the calls of `run` have returned normally, the loop is in order, or an exception
leaves `run` for the first time. -/
theorem step_inOrder (hs : (∀ r ∈ s.results, r = none) → Ordered s ∨ Unwinding s)
    (hstep : s.step op = some s') (hnormal : ∀ r ∈ s'.results, r = none) :
    Ordered s' ∨ Unwinding s' := by
  rcases hs fun r hr => hnormal r (results_subset hstep hr) with ho | hu
  · rcases ho.step hstep with ho' | hexits
    · exact .inl ho'
    · exact .inr (ho.unwinding hexits)
  -- the only step from there makes the exception a result
  · obtain ⟨e, he⟩ := hu.phase
    exact absurd (hnormal _ (mem_results_of_unwinding he hstep)) (by simp)

theorem run_inOrder {ops : List LoopOp} (hrun : run step init ops = some s)
    (hnormal : ∀ r ∈ s.results, r = none) : Ordered s ∨ Unwinding s :=
  run_invariant (I := fun s => (∀ r ∈ s.results, r = none) → Ordered s ∨ Unwinding s)
    (fun _ _ _ hs hstep => step_inOrder hs hstep) (fun _ => .inl ordered_init) hrun hnormal

end Loop

/-- **Every task is started once, in the order in which it was queued**, whatever is spawned where
and whichever completions there are, in a context whose earlier calls of `run` returned
normally. -/
theorem loop_starts (ops : List LoopOp) (s : Loop) (hrun : run Loop.step Loop.init ops = some s)
    (hnormal : ∀ r ∈ s.results, r = none) : Loop.InOrder s := by
  rcases Loop.run_inOrder hrun hnormal with ho | hu
  · exact ho.inOrder hnormal
  · exact hu.inOrder

/-- A task spawns another and waits for it, a third is posted while `run` waits for completions,
and the handle that resumes the second one comes with the same batch. -/
theorem loop_starts_sample : ∃ s, run Loop.step Loop.init
    [.act (.spawn none), .run, .advance, .advance, .act (.spawn (some 0)),
      .act (.await ⟨1, .spawnAwaitable false, some 0⟩ 7 0), .yield, .advance, .yield, .advance,
      .ready, .posted, .completion (some 8), .completion none, .processed, .advance,
      .act (.finish 1), .act (.finish 0), .yield, .advance, .advance, .advance, .act (.finish 2),
      .yield, .advance] = some s ∧
    (∀ r ∈ s.results, r = none) ∧ s.phase = .returning ∧ Loop.InOrder s := by
  refine exists_run rfl fun s hrun => ?_
  have hresults : s.results = [] :=
    Option.some.inj ((congrArg (Option.map Loop.results) hrun).symm.trans rfl)
  have hphase : s.phase = .returning :=
    Option.some.inj ((congrArg (Option.map Loop.phase) hrun).symm.trans rfl)
  have hnormal : ∀ r ∈ s.results, r = none := by simp [hresults]
  exact ⟨hnormal, hphase, loop_starts _ s hrun hnormal⟩

end Fiona
