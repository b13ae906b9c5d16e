import Fiona.Context.Failing
import Fiona.Context.Starting
import Fiona.Context.Suspending

/-!
# An exception leaves `run`

On its way out `run` clears `tasks_` and empties the ring, and does nothing else: it neither empties
`run_queue_` nor resets `exception_ptr_`, and where awaitables have stored the handles of coroutines
that are destroyed with their tasks, these stay. So what is left behind is clean only if nothing of
the kind was there. This excludes an exception that comes out of a task while it is started (its
handle is still at the front of `run_queue_`), one that is rethrown from `exception_ptr_`, and each
coroutine that is suspended at that time and whose completion is still to come.

A task to which somebody has kept a handle is not destroyed by `clear`, but it is no longer in
`tasks_`: when it ends, `erase_task` will not find it. The condition on the next call of `run` is
that it does not find such a task to resume, and it is only about these.
-/

namespace Fiona

open RefCount Transition

namespace Tasks

variable {s s' : Tasks} {ext ext' : TaskId → Nat} {t : TaskId} {order : List TaskId}
  {h₀ : Heap TaskId Handle}

theorem release_cascade {ext₀ : TaskId → Nat} (hs : Sound ext s) (ht : 0 < ext t)
    (hext : ∀ x, ext x = ext' x + if x = t then 1 else 0)
    (hb₀ : Balanced Handle.task Handle.owner ext₀ [] h₀)
    (hc : Cascade Handle.task Handle.owner h₀ s.heap) (hrelease : s.release t = some s') :
    Cascade Handle.task Handle.owner h₀ s'.heap := by
  obtain ⟨heap, more, heq, hrefs, -, hb⟩ := hs.balanced.release ht hext
  rw [List.append_nil] at hb
  simp only [release, heq, Option.bind_eq_bind, Option.bind_some, destroyHandles] at hrelease
  obtain ⟨⟨heap', ep⟩, hdestroy, hrelease⟩ := Option.bind_eq_some_iff.mp hrelease
  obtain rfl := Option.some.inj hrelease
  exact (hc.release hb hrefs).destroyRefs hb₀ hb hdestroy

/-- **`clear` destroys no more than what is doomed**. -/
theorem clear_cascade {ext₀ : TaskId → Nat} (hs : Sound (registered s.tasks) s)
    (horder : order.Perm s.tasks) (hb₀ : Balanced Handle.task Handle.owner ext₀ [] h₀)
    (hc : Cascade Handle.task Handle.owner h₀ s.heap) (hclear : s.clear order = some s') :
    Cascade Handle.task Handle.owner h₀ s'.heap := by
  induction order generalizing s with
  | nil =>
    rw [clear, if_pos horder.nil_eq.symm] at hclear
    obtain rfl := Option.some.inj hclear
    exact hc
  | cons t order ih =>
    have ht : t ∈ s.tasks := horder.subset List.mem_cons_self
    obtain ⟨s₁, gone, heq, -, htasks, hs₁, -⟩ := eraseTask_spec hs ht
    have hrest : order.Perm s₁.tasks := by
      rw [htasks]
      exact (horder.trans (List.perm_cons_erase ht)).cons_inv
    rw [clear, heq, Option.bind_some] at hclear
    refine ih hs₁ hrest ?_ hclear
    rw [eraseTask, if_pos ht] at heq
    obtain ⟨s₂, hrelease, heq⟩ := Option.bind_eq_some_iff.mp heq
    obtain rfl := Option.some.inj heq
    have hpos : 0 < registered s.tasks t := by simp [registered, ht]
    have hheap : Cascade Handle.task Handle.owner h₀ s₂.heap :=
      release_cascade hs hpos (registered_erase hs.nodup ht) hb₀ hc hrelease
    exact hheap

/-- A handle that lies in a frame which `clear` destroys hands the exception over. -/
def HandsOver (s : Tasks) (e : Exn) : Prop :=
  ∃ h ∈ s.heap.refs, ∃ p, h.owner = some p ∧ Doomed Handle.task Handle.owner s.heap.refs p ∧
    unawaited s.promise h = some e

theorem destructors_of_some {promise : TaskId → Promise} {gone : List Handle} {e : Exn} :
    gone.foldl (fun ep h => handleDestructor promise h ep) (some e) = some e := by
  induction gone with
  | nil => rfl
  | cons x gone ih =>
    have hx : handleDestructor promise x (some e) = some e := by
      unfold handleDestructor unhandledException
      split <;> rfl
    rw [List.foldl_cons, hx]
    exact ih

/-- The first of the exceptions is kept that the destructors find, if none was there before. -/
theorem destructors_eq_some {promise : TaskId → Promise} {gone : List Handle} {ep : Option Exn}
    {e : Exn} (he : gone.foldl (fun ep h => handleDestructor promise h ep) ep = some e) :
    ep = some e ∨ ep = none ∧ ∃ h ∈ gone, unawaited promise h = some e := by
  cases ep with
  | some e' => exact .inl (destructors_of_some.symm.trans he)
  | none =>
    refine .inr ⟨rfl, ?_⟩
    induction gone with
    | nil => simp at he
    | cons x gone ih =>
      rw [List.foldl_cons] at he
      cases hx : unawaited promise x with
      | some e' =>
        have hfound : handleDestructor promise x none = some e' := by
          rw [handleDestructor, hx]
          rfl
        rw [hfound, destructors_of_some] at he
        exact ⟨x, List.mem_cons_self, hx.trans he⟩
      | none =>
        have hfound : handleDestructor promise x none = none := by rw [handleDestructor, hx]
        rw [hfound] at he
        obtain ⟨h, hh, hsome⟩ := ih he
        exact ⟨h, List.mem_cons_of_mem _ hh, hsome⟩

/-- **What `clear` leaves in `exception_ptr_`** was there before, or comes from a handle that it
destroys. -/
theorem clear_exceptionPtr (hs : Sound (registered s.tasks) s) (horder : order.Perm s.tasks)
    (hclear : s.clear order = some s') {e : Exn} (he : s'.exceptionPtr = some e) :
    s.exceptionPtr = some e ∨ s.exceptionPtr = none ∧ HandsOver s e := by
  obtain ⟨gone, hd, -⟩ := clear_destroyed hs horder hclear
  have hc := clear_cascade hs horder hs.balanced (.refl s.heap) hclear
  rw [hd.exceptionPtr] at he
  refine (destructors_eq_some he).imp_right (And.imp_right ?_)
  rintro ⟨h, hh, hsome⟩
  have hcount := hd.refs.count_eq h
  rw [List.count_append] at hcount
  have hpos := List.count_pos_iff.mpr hh
  obtain ⟨p, hp, hdoomed⟩ := hc.gone h (by omega)
  exact ⟨h, hd.refs.symm.subset (List.mem_append_left _ hh), p, hp, hdoomed, hsome⟩

theorem clear_keeps (hs : Sound (registered s.tasks) s) (horder : order.Perm s.tasks)
    (hclear : s.clear order = some s') {e : Exn} (he : s.exceptionPtr = some e) :
    s'.exceptionPtr = some e := by
  obtain ⟨gone, hd, -⟩ := clear_destroyed hs horder hclear
  rw [hd.exceptionPtr, he]
  exact destructors_of_some

/-- **What is left after `clear`** is what was not doomed. -/
theorem clear_alive (hs : Sound (registered s.tasks) s) (horder : order.Perm s.tasks)
    (hclear : s.clear order = some s') (t : TaskId) :
    s'.heap.alive t = true ↔ ¬Doomed Handle.task Handle.owner s.heap.refs t := by
  obtain ⟨gone, hd, hnone, hs', -⟩ := clear_destroyed hs horder hclear
  have hc := clear_cascade hs horder hs.balanced (.refl s.heap) hclear
  constructor
  · intro halive hdoomed
    have hb := hs'.balanced
    rw [hnone, registered_nil] at hb
    have hdead := hdoomed.dead hb fun r hr => hd.refs.symm.subset (List.mem_append_right _ hr)
    exact absurd (halive.symm.trans hdead) (by simp)
  · intro hnot
    by_contra hcon
    have hdead : s'.heap.alive t = false := by simpa using hcon
    cases halive : s.heap.alive t with
    | true => exact hnot (hc.dead t halive hdead)
    | false =>
      -- to a frame that has been destroyed before there are no handles
      refine hnot (doomed_of fun r hr hrt => ?_)
      have hstill := hs.balanced.alive_of_mem hr
      rw [hrt, halive] at hstill
      exact absurd hstill (by simp)

end Tasks

namespace Suspending

open Tasks (Linked HandsOver)
open Loop (Ordered Exits)

variable {taskOf : Coro → TaskId} {s s' : Suspending} {op : SuspendingOp}

/-- The tasks that a call of `run` can come to resume: those in `run_queue_`, and those with a
coroutine whose handle a completion can give out. -/
def toResume (taskOf : Coro → TaskId) (s : Suspending) : List TaskId :=
  s.loop.ctx.runQueue ++ s.stored.map taskOf

/-- **What is asked of an exception that leaves `run`**: `tasks_` is empty, `exception_ptr_` does
not hold the exception, and there is no handle of a destroyed coroutine in `run_queue_` or where a
completion could give it out. From then on, as before, `run` resumes only what is there: the tasks
in its queue are in `tasks_` and have not been started, the coroutines whose handles it finds or can
find belong to tasks in `tasks_`, and the continuation of a task lies in a frame that has not been
destroyed. -/
structure Clean (taskOf : Coro → TaskId) (s : Suspending) : Prop where
  exited : ∀ e, s.loop.phase = .returned (some e) →
    s.loop.ctx.tasks = [] ∧ s.loop.ctx.exceptionPtr ≠ some e ∧
      (∀ t ∈ s.loop.ctx.runQueue, s.loop.ctx.heap.alive t = true) ∧
      ∀ c ∈ s.stored, s.loop.ctx.heap.alive (taskOf c) = true
  queued : s.loop.phase.running = true → ∀ t ∈ s.loop.pending,
    t ∈ s.loop.ctx.tasks ∧ s.loop.ctx.heap.alive t = true ∧ t ∉ s.loop.started
  found : s.loop.phase.running = true → ∀ c ∈ s.handles,
    taskOf c ∈ s.loop.ctx.tasks ∧ s.loop.ctx.heap.alive (taskOf c) = true
  continued : ∀ t ∈ s.loop.ctx.tasks, (s.loop.ctx.promise t).done = false →
    ∀ c, (s.loop.ctx.promise t).continuation = some c →
      ∃ w ∈ s.loop.ctx.waiting, w.on = (c, t) ∧ s.loop.ctx.heap.alive w.task = true

/-- Before the outer guard does its work `exception_ptr_` does not hold the exception that is on its
way out, and no task is destroyed by the guard that is in `run_queue_`, or has a coroutine whose
completion the guard does not find in the ring. When `run` is called, the tasks that it can come to
resume are in `tasks_`: none of them is left from before such an exit. -/
def CleanExit (taskOf : Coro → TaskId) (s : Suspending) : SuspendingOp → Prop
  | .leave _ dropped => ∀ e, s.loop.phase = .unwinding e → s.loop.ctx.exceptionPtr ≠ some e ∧
      ∀ t ∈ { s with stored := s.stored.filter (· ∉ dropped) }.toResume taskOf,
        ¬RefCount.Doomed Handle.task Handle.owner s.loop.ctx.heap.refs t
  | .loop .run => ∀ t ∈ s.toResume taskOf, t ∈ s.loop.ctx.tasks
  | _ => True

/-- The exception that is on its way out is not handed over once more by a handle to another task
that has it, and that the outer guard destroys. -/
def Withheld (s : Suspending) : SuspendingOp → Prop
  | .leave _ _ => ∀ e, s.loop.phase = .unwinding e → s.loop.ctx.exceptionPtr = none →
      ¬HandsOver s.loop.ctx e
  | _ => True

/-- `run` goes on, or has left nothing behind. -/
structure Going (taskOf : Coro → TaskId) (s : Suspending) : Prop where
  ordered : Ordered s.loop
  held : Held taskOf s
  exited : ∀ e, s.loop.phase = .returned (some e) →
    s.loop.ctx.tasks = [] ∧ s.loop.ctx.exceptionPtr ≠ some e

/-- An exception is on its way out of `run`. If it leaves no queue behind, and was not rethrown,
then all tasks have been started. -/
structure Aborting (s : Loop) : Prop where
  phase : ∃ e, s.phase = .unwinding e ∧
    (s.ctx.exceptionPtr ≠ some e → s.ctx.runQueue = [] → s.started = List.range s.ctx.next)
  linked : Linked s.ctx

/-- `run` is not called again: there is something to resume that is not in `tasks_`. -/
structure Stranded (taskOf : Coro → TaskId) (s : Suspending) : Prop where
  outside : s.loop.phase.next = .idle
  linked : Linked s.loop.ctx
  exited : ∀ e, s.loop.phase = .returned (some e) →
    s.loop.ctx.tasks = [] ∧ s.loop.ctx.exceptionPtr ≠ some e ∧
      (∀ t ∈ s.loop.ctx.runQueue, s.loop.ctx.heap.alive t = true) ∧
      ∀ c ∈ s.stored, s.loop.ctx.heap.alive (taskOf c) = true
  left : ∃ t ∈ s.toResume taskOf, t ∉ s.loop.ctx.tasks ∧ t < s.loop.ctx.next

/-- What holds of every run that meets the condition. -/
inductive Sane (taskOf : Coro → TaskId) (s : Suspending) : Prop
  | going (hg : Going taskOf s)
  | aborting (ha : Aborting s.loop)
  | stranded (hs : Stranded taskOf s)

/-! ### The property -/

/-- The continuation of a task lies in a frame that is there. -/
theorem continuation_alive (hl : Linked s.loop.ctx) {t : TaskId} (ht : t ∈ s.loop.ctx.tasks)
    (hdone : (s.loop.ctx.promise t).done = false) {c : Coro}
    (hc : (s.loop.ctx.promise t).continuation = some c) :
    ∃ w ∈ s.loop.ctx.waiting, w.on = (c, t) ∧ s.loop.ctx.heap.alive w.task = true := by
  obtain ⟨w, hw, hon⟩ := hl.continued t ht hdone c hc
  have htask : w.handle.task = t := congrArg Prod.snd hon
  exact ⟨w, hw, hon, hl.sound.alive_of_registered (hl.inside w hw (htask ▸ ht))⟩

theorem Going.clean (hg : Going taskOf s) : Clean taskOf s where
  exited := by
    intro e he
    obtain ⟨hnone, hep⟩ := hg.exited e he
    refine ⟨hnone, hep, fun t ht => ?_, fun c hc => ?_⟩
    · have hmem := hg.ordered.registered t ((Loop.pending_eq he).symm ▸ ht)
      rw [hnone] at hmem
      exact absurd hmem List.not_mem_nil
    · have hmem := hg.held.registered c (List.mem_append_left _ hc)
      rw [hnone] at hmem
      exact absurd hmem List.not_mem_nil
  queued := by
    intro _ t ht
    have hmem := hg.ordered.registered t ht
    exact ⟨hmem, hg.ordered.linked.sound.alive_of_registered hmem,
      fun hstarted => hg.ordered.notMem_pending hstarted ht⟩
  found := by
    intro _ c hc
    have hmem := hg.held.registered c hc
    exact ⟨hmem, hg.ordered.linked.sound.alive_of_registered hmem⟩
  continued := fun _ ht hdone _ hc => continuation_alive hg.ordered.linked ht hdone hc

theorem Aborting.clean (ha : Aborting s.loop) : Clean taskOf s := by
  obtain ⟨e, he, -⟩ := ha.phase
  exact ⟨by simp [he], by simp [he, Phase.running], by simp [he, Phase.running],
    fun _ ht hdone _ hc => continuation_alive ha.linked ht hdone hc⟩

theorem Stranded.clean (hs : Stranded taskOf s) : Clean taskOf s := by
  have hnot : s.loop.phase.running ≠ true := by simp [(Phase.outside hs.outside).1]
  exact ⟨hs.exited, fun hrunning => absurd hrunning hnot, fun hrunning => absurd hrunning hnot,
    fun _ ht hdone _ hc => continuation_alive hs.linked ht hdone hc⟩

theorem Sane.clean (hs : Sane taskOf s) : Clean taskOf s := by
  cases hs with
  | going hg => exact hg.clean
  | aborting ha => exact ha.clean
  | stranded hs => exact hs.clean

theorem Sane.linked (hs : Sane taskOf s) : Linked s.loop.ctx := by
  cases hs with
  | going hg => exact hg.ordered.linked
  | aborting ha => exact ha.linked
  | stranded hs => exact hs.linked

/-! ### `run` goes on -/

theorem Aborting.of_exits {l l' : Loop} {lop : LoopOp} (ho : Ordered l) (hexits : Exits l lop l') :
    Aborting l' := by
  -- if nothing is still to be started then everything has been
  have hall : l.pending = [] → l.started = List.range l.ctx.next := by
    intro hpending
    have hqueued := ho.queued
    rwa [hpending, List.append_nil] at hqueued
  cases hexits with
  | escaped hphase ht hcount =>
    refine ⟨⟨_, rfl, fun _ hqueue => hall ?_⟩, ho.linked.setPromise rfl fun _ => rfl⟩
    have hnil : l.ctx.runQueue = [] := hqueue
    unfold Loop.pending Loop.pendingOf
    split <;> simp [hnil]
  | thrown hphase =>
    exact ⟨⟨_, rfl, fun _ hqueue => hall ((Loop.pending_eq hphase).trans hqueue)⟩, ho.linked⟩
  | rethrown hep hep' hphase hstarted hresults hnext hl =>
    exact ⟨⟨_, hphase, fun hne => absurd hep' hne⟩, hl⟩

theorem Going.loop (hg : Going taskOf s) {lop : LoopOp}
    (hstep : s.step taskOf (.loop lop) = some s') : Sane taskOf s' := by
  obtain ⟨-, hloop, -⟩ := loop_cases hstep
  rcases hg.ordered.step hloop with ho' | hexits
  · refine .going ⟨ho', hg.held.loop hg.ordered.linked hstep, fun e he => ?_⟩
    rcases returned_cases hstep with ⟨order, dropped, hop⟩ | hno
    · simp at hop
    · exact absurd he (hno _)
  · exact .aborting (.of_exits hg.ordered hexits)

/-- With `tasks_` empty nothing is left to resume when `run` returns. -/
theorem Going.leave (hg : Going taskOf s) {order : List TaskId} {dropped : List Coro}
    (hstep : s.step taskOf (.leave order dropped) = some s') : Going taskOf s' := by
  obtain ⟨hleave, heq⟩ := leave_cases hstep
  obtain ⟨r, hcases, -, -, hloop⟩ := Loop.leave_cases hleave
  rcases hcases with ⟨rfl, hphase⟩ | ⟨e, -, hphase⟩
  · have hnone := (hg.ordered.returns hphase).2
    have hstored : s.stored = [] := by
      refine List.eq_nil_iff_forall_not_mem.mpr fun c hc => ?_
      have hmem := hg.held.registered c (List.mem_append_left _ hc)
      rw [hnone] at hmem
      exact List.not_mem_nil hmem
    refine ⟨hg.ordered.leave hleave, held_of_nil ?_, by rw [hloop]; simp⟩
    rw [handles, heq, hloop, hstored]
    rfl
  · exact absurd hphase (hg.ordered.going e)

theorem Going.step (hg : Going taskOf s) (hstep : s.step taskOf op = some s') : Sane taskOf s' := by
  cases op with
  | loop lop => exact hg.loop hstep
  | suspend c =>
    have hheld := hg.held.suspend hstep
    obtain ⟨-, -, -, rfl⟩ := suspend_cases hstep
    exact .going ⟨hg.ordered, hheld, hg.exited⟩
  | overwrite c =>
    have hheld := hg.held.overwrite hstep
    obtain ⟨-, rfl⟩ := overwrite_cases hstep
    exact .going ⟨hg.ordered, hheld, hg.exited⟩
  | leave order dropped => exact .going (hg.leave hstep)

/-! ### An exception leaves `run` -/

/-- Only the way out leads from an exception that leaves `run`. -/
theorem leave_of_unwinding {e : Exn} (hphase : s.loop.phase = .unwinding e)
    (hstep : s.step taskOf op = some s') : ∃ order dropped, op = .leave order dropped := by
  cases op with
  | leave order dropped => exact ⟨order, dropped, rfl⟩
  | loop lop =>
    obtain ⟨hpermits, hloop, -⟩ := loop_cases hstep
    obtain ⟨order, rfl⟩ := Loop.leave_of_unwinding hphase hloop
    simp [permits] at hpermits
  | suspend c =>
    obtain ⟨hresumes, -⟩ := suspend_cases hstep
    simp [hphase, Phase.resumes] at hresumes
  | overwrite c =>
    obtain ⟨hresumes, -⟩ := overwrite_cases hstep
    simp [hphase, Phase.resumes] at hresumes

/-- **What is left is there** exactly if the guard does not destroy it. -/
theorem alive_of_leave (hl : Linked s.loop.ctx) {order : List TaskId} {dropped : List Coro}
    (hstep : s.step taskOf (.leave order dropped) = some s') :
    s'.loop.ctx.tasks = [] ∧ Linked s'.loop.ctx ∧ s'.loop.ctx.next = s.loop.ctx.next ∧
      s'.toResume taskOf = { s with stored := s.stored.filter (· ∉ dropped) }.toResume taskOf ∧
      ∀ t, s'.loop.ctx.heap.alive t = true ↔
        ¬RefCount.Doomed Handle.task Handle.owner s.loop.ctx.heap.refs t := by
  obtain ⟨hleave, heq⟩ := leave_cases hstep
  obtain ⟨r, -, horder, hclear, -⟩ := Loop.leave_cases hleave
  obtain ⟨gone, hd, hnone, -⟩ := Tasks.clear_destroyed hl.sound horder hclear
  refine ⟨hnone, hl.clear horder hclear, hd.next, ?_, Tasks.clear_alive hl.sound horder hclear⟩
  rw [toResume, toResume, hd.runQueue, heq]

/-- What the guard leaves behind is nothing, or it is there and is not in `tasks_`. -/
theorem Aborting.leave (ha : Aborting s.loop) {order : List TaskId} {dropped : List Coro}
    (hclean : CleanExit taskOf s (.leave order dropped))
    (hstep : s.step taskOf (.leave order dropped) = some s')
    (hep : ∀ e, s'.loop.phase = .returned (some e) → s'.loop.ctx.exceptionPtr ≠ some e) :
    Sane taskOf s' := by
  obtain ⟨e, he, hstarted⟩ := ha.phase
  obtain ⟨hnot, hdoomed⟩ := hclean e he
  obtain ⟨hnone, hl, hnext, hsame, halive⟩ := alive_of_leave ha.linked hstep
  obtain ⟨hleave, heq⟩ := leave_cases hstep
  obtain ⟨r, -, horder, hclear, hloop⟩ := Loop.leave_cases hleave
  obtain ⟨gone, hd, -⟩ := Tasks.clear_destroyed ha.linked.sound horder hclear
  have hloopstep : s.loop.step (.leave order) = some s'.loop := hleave
  have hresult := Loop.mem_results_of_unwinding he hloopstep
  have hphase : s'.loop.phase = .returned r := by rw [hloop]
  have hthere : ∀ t ∈ s'.toResume taskOf, s'.loop.ctx.heap.alive t = true := fun t ht =>
    (halive t).mpr (hdoomed t (hsame ▸ ht))
  rcases List.eq_nil_or_concat (s'.toResume taskOf) with hnil | ⟨l, t, hlast⟩
  · obtain ⟨hqueue, hstored⟩ := List.append_eq_nil_iff.mp hnil
    have hpending : s'.loop.pending = [] := (Loop.pending_eq hphase).trans hqueue
    refine .going ⟨⟨hl, by simp [hphase], ?_, by simp [hpending], by simp [hnone], fun hall => ?_,
      by simp [hphase], by simp [hphase], by simp [hphase]⟩, held_of_nil ?_,
      fun e' he' => ⟨hnone, hep e' he'⟩⟩
    · rw [hpending, List.append_nil, hnext, hloop]
      exact hstarted hnot (hd.runQueue.symm.trans hqueue)
    · exact absurd (hall _ hresult) (by simp)
    · rw [handles, List.map_eq_nil_iff.mp hstored, hphase]
      rfl
  · have ht : t ∈ s'.toResume taskOf := by
      rw [hlast, List.concat_eq_append]
      exact List.mem_concat_self
    refine .stranded ⟨by rw [hphase]; rfl, hl, fun e' he' => ⟨hnone, hep e' he', ?_, ?_⟩,
      ⟨t, ht, by simp [hnone], hl.sound.lt_of_alive (hthere t ht)⟩⟩
    · exact fun x hx => hthere x (List.mem_append_left _ hx)
    · exact fun c hc => hthere _ (List.mem_append_right _ (List.mem_map_of_mem hc))

/-! ### Nothing is resumed after an exit that left something -/

/-- Outside of `run` the callers call it, or do something else. -/
theorem outside_cases {l l' : Loop} {lop : LoopOp} (hout : l.phase.next = .idle)
    (hstep : l.step lop = some l') : lop = .run ∨ (∃ top, lop = .act top) := by
  cases lop with
  | run => exact .inl rfl
  | act top => exact .inr ⟨top, rfl⟩
  | _ =>
    cases hphase : l.phase <;>
      simp_all [Phase.next, Loop.step, Loop.advance, Loop.yield, Loop.leave]

/-- What the callers do outside of `run` takes nothing from the queue, and puts nothing into
`tasks_` that has been made before. -/
theorem Stranded.act (hs : Stranded taskOf s) {top : TaskOp} {l : Loop}
    (hact : s.loop.act top = some l) :
    l.phase = .idle ∧ Linked l.ctx ∧ s.loop.ctx.runQueue ⊆ l.ctx.runQueue ∧
      s.loop.ctx.next ≤ l.ctx.next ∧
      ∀ t < s.loop.ctx.next, t ∈ l.ctx.tasks → t ∈ s.loop.ctx.tasks := by
  obtain ⟨hpermits, hallows, e, hperform, heq⟩ := Loop.act_cases hact
  obtain ⟨ctx, e', hperform', heffect, hl⟩ := hs.linked.perform hallows
  obtain ⟨hctx, rfl⟩ := Prod.mk.inj (Option.some.inj (hperform.symm.trans hperform'))
  rw [← hctx] at heffect hl
  have hresumes := (Phase.outside hs.outside).2
  have hphase : e = none → l.phase = .idle := by
    rintro rfl
    rw [heq]
    exact hs.outside
  generalize l.ctx = ctx' at heffect hl ⊢
  cases heffect with
  | spawned =>
    refine ⟨hphase rfl, hl, List.subset_append_left .., Nat.le_succ _, fun t hlt ht => ?_⟩
    exact (List.mem_cons.mp ht).resolve_left (Nat.ne_of_lt hlt)
  | quiet hop hq htasks =>
    exact ⟨hphase rfl, hl, by rw [hq.runQueue]; exact fun _ => id, Nat.le_of_eq hq.next.symm,
      fun t _ ht => htasks ▸ ht⟩
  | posted => simp [Loop.permits] at hpermits
  | cleared => simp [Loop.permits] at hpermits
  | _ => exact absurd (((Bool.and_eq_true _ _).mp hpermits).1.symm.trans hresumes) (by simp)

theorem Stranded.step (hs : Stranded taskOf s) (hclean : CleanExit taskOf s op)
    (hstep : s.step taskOf op = some s') : Stranded taskOf s' := by
  have hout := hs.outside
  have hresumes := (Phase.outside hout).2
  cases op with
  | suspend c => exact absurd ((suspend_cases hstep).1.symm.trans hresumes) (by simp)
  | overwrite c => exact absurd ((overwrite_cases hstep).1.symm.trans hresumes) (by simp)
  | leave order dropped =>
    obtain ⟨r, hcases, -⟩ := Loop.leave_cases (leave_cases hstep).1
    rcases hcases with ⟨-, hphase⟩ | ⟨e, -, hphase⟩ <;> simp [hphase, Phase.next] at hout
  | loop lop =>
    obtain ⟨hpermits, hloop, heq⟩ := loop_cases hstep
    obtain ⟨t, ht, hnot, hlt⟩ := hs.left
    cases lop with
    | run => exact absurd (hclean t ht) hnot
    | act top =>
      obtain ⟨hphase, hl, hqueue, hnext, htasks⟩ := hs.act hloop
      refine ⟨by rw [hphase]; rfl, hl, by simp [hphase], t, ?_,
        fun hmem => hnot (htasks t hlt hmem), Nat.lt_of_lt_of_le hlt hnext⟩
      rw [toResume, heq]
      exact List.mem_append.mpr ((List.mem_append.mp ht).imp_left fun hmem => hqueue hmem)
    | leave order => simp [permits] at hpermits
    | _ => rcases outside_cases hout hloop with h | ⟨top, h⟩ <;> simp at h

/-! ### Runs -/

/-- **A step keeps what holds of such runs**, if the exception that leaves `run` does not come back
into `exception_ptr_`. -/
theorem Sane.step (hs : Sane taskOf s) (hclean : CleanExit taskOf s op)
    (hstep : s.step taskOf op = some s')
    (hep : ∀ e, s'.loop.phase = .returned (some e) → s'.loop.ctx.exceptionPtr ≠ some e) :
    Sane taskOf s' := by
  cases hs with
  | going hg => exact hg.step hstep
  | stranded hs => exact .stranded (hs.step hclean hstep)
  | aborting ha =>
    obtain ⟨e, he, -⟩ := ha.phase
    obtain ⟨order, dropped, rfl⟩ := leave_of_unwinding he hstep
    exact ha.leave hclean hstep hep

/-- An exit that meets the condition does not leave the exception in `exception_ptr_`. -/
theorem exceptionPtr_of_withheld (hs : Sane taskOf s) (hclean : CleanExit taskOf s op)
    (hwithheld : Withheld s op) (hstep : s.step taskOf op = some s') {e : Exn}
    (he : s'.loop.phase = .returned (some e)) : s'.loop.ctx.exceptionPtr ≠ some e := by
  rcases returned_cases hstep with ⟨order, dropped, rfl⟩ | hno
  · obtain ⟨hleave, -⟩ := leave_cases hstep
    obtain ⟨r, hcases, horder, hclear, hloop⟩ := Loop.leave_cases hleave
    obtain rfl : r = some e := by
      rw [hloop] at he
      exact Phase.returned.inj he
    rcases hcases with ⟨hr, -⟩ | ⟨e', hr, hphase⟩
    · simp at hr
    · obtain rfl := Option.some.inj hr
      obtain ⟨hnot, -⟩ := hclean e hphase
      intro hep
      rcases Tasks.clear_exceptionPtr hs.linked.sound horder hclear hep with h | ⟨h, hover⟩
      · exact hnot h
      · exact hwithheld e hphase h hover
  · exact absurd he (hno _)

/-- **The condition is enough**, at each step. -/
theorem step_sane (hs : Sane taskOf s) (hmeets : CleanExit taskOf s op ∧ Withheld s op)
    (hstep : s.step taskOf op = some s') : Sane taskOf s' :=
  hs.step hmeets.1 hstep fun _ he => exceptionPtr_of_withheld hs hmeets.1 hmeets.2 hstep he

/-- **And it is needed**, but for the handles that hand the exception over once more. -/
theorem cleanExit_of_clean (hs : Sane taskOf s) (hstep : s.step taskOf op = some s')
    (hc : Clean taskOf s') : CleanExit taskOf s op ∧ Sane taskOf s' := by
  have hclean : CleanExit taskOf s op := by
    cases op with
    | leave order dropped =>
      intro e he
      obtain ⟨hnone, -, -, hsame, halive⟩ := alive_of_leave hs.linked hstep
      obtain ⟨hleave, -⟩ := leave_cases hstep
      obtain ⟨r, hcases, horder, hclear, hloop⟩ := Loop.leave_cases hleave
      rcases hcases with ⟨-, hphase⟩ | ⟨e', rfl, hphase⟩
      · exact absurd (he.symm.trans hphase) (by simp)
      · obtain rfl := Phase.unwinding.inj (he.symm.trans hphase)
        obtain ⟨-, hep, hqueue, hstored⟩ := hc.exited e (by rw [hloop])
        refine ⟨fun hthere => hep (Tasks.clear_keeps hs.linked.sound horder hclear hthere),
          fun t ht => (halive t).mp ?_⟩
        rw [← hsame] at ht
        rcases List.mem_append.mp ht with ht | ht
        · exact hqueue t ht
        · obtain ⟨c, hc', rfl⟩ := List.mem_map.mp ht
          exact hstored c hc'
    | loop lop =>
      cases lop with
      | run =>
        obtain ⟨-, hloop, heq⟩ := loop_cases hstep
        obtain ⟨hphase, hctx⟩ := Loop.run_cases hloop
        intro t ht
        rcases List.mem_append.mp ht with ht | ht
        · have hpending : s'.loop.pending = s.loop.ctx.runQueue := by
            rw [Loop.pending_eq hphase, hctx]
            rfl
          exact hctx ▸ (hc.queued (by rw [hphase]; rfl) t (hpending ▸ ht)).1
        · obtain ⟨c, hc', rfl⟩ := List.mem_map.mp ht
          have hmem : c ∈ s'.handles := by
            rw [handles, heq]
            exact List.mem_append_left _ hc'
          exact hctx ▸ (hc.found (by rw [hphase]; rfl) c hmem).1
      | _ => trivial
    | _ => trivial
  exact ⟨hclean, hs.step hclean hstep fun e he => (hc.exited e he).2.1⟩

theorem sane_init : Sane taskOf init :=
  .going ⟨Loop.ordered_init, held_of_nil rfl, by simp [init, Loop.init]⟩

/-- What is enough for an exit to meet the condition: nothing is left to resume, nothing is in
`exception_ptr_`, and no handle is there that would hand an exception over. -/
def Tidy (taskOf : Coro → TaskId) (s : Suspending) : SuspendingOp → Prop
  | .leave _ dropped => s.loop.ctx.runQueue = [] ∧ (∀ c ∈ s.stored, c ∈ dropped) ∧
      s.loop.ctx.exceptionPtr = none ∧
      ∀ h ∈ s.loop.ctx.heap.refs, Tasks.unawaited s.loop.ctx.promise h = none
  | .loop .run => ∀ t ∈ s.toResume taskOf, t ∈ s.loop.ctx.tasks
  | _ => True

instance (taskOf : Coro → TaskId) (s : Suspending) : DecidablePred (Tidy taskOf s) := fun op => by
  unfold Tidy
  split <;> infer_instance

theorem Tidy.meets (htidy : Tidy taskOf s op) : CleanExit taskOf s op ∧ Withheld s op := by
  cases op with
  | leave order dropped =>
    obtain ⟨hqueue, hdropped, hep, hkept⟩ := htidy
    have hnone : s.stored.filter (· ∉ dropped) = [] := by simpa using hdropped
    have hresume : { s with stored := s.stored.filter (· ∉ dropped) }.toResume taskOf = [] := by
      rw [toResume, hqueue, hnone]
      rfl
    refine ⟨fun e _ => ⟨by simp [hep], ?_⟩, ?_⟩
    · rw [hresume]
      exact fun t ht => absurd ht List.not_mem_nil
    · rintro e - - ⟨h, hh, -, -, -, hsome⟩
      exact absurd ((hkept h hh).symm.trans hsome) (by simp)
  | loop lop =>
    cases lop with
    | run => exact ⟨htidy, trivial⟩
    | _ => exact ⟨trivial, trivial⟩
  | _ => exact ⟨trivial, trivial⟩

theorem stepsMeet_of_tidy {ops : List SuspendingOp}
    (htidy : StepsMeet (step taskOf) (Tidy taskOf) init ops) :
    StepsMeet (step taskOf) (fun s op => CleanExit taskOf s op ∧ Withheld s op) init ops :=
  htidy.of_invariant (I := fun _ => True) (fun _ _ _ _ htidy _ => ⟨trivial, htidy.meets⟩) trivial

/-- A task throws when it is started, and nobody has a handle to it: `run_queue_` still has it at
the front when its frame is gone. -/
def throwsAtStart : List SuspendingOp :=
  [.loop (.act (.spawn none)), .loop (.act (.destroyHandle ⟨0, .spawnAwaitable false, none⟩)),
    .loop .run, .loop .advance, .loop .advance, .loop (.act (.fail 0 3)), .leave [0] []]

/-- The handle of a task that has failed is destroyed by another one, and what is rethrown from
`exception_ptr_` stays there. -/
def rethrows : List SuspendingOp :=
  [.loop (.act (.spawn none)), .loop (.act (.spawn none)), .loop .run, .loop .advance,
    .loop .advance, .loop (.act (.fail 0 3)), .loop .yield, .loop .advance,
    .loop (.act (.destroyHandle ⟨0, .spawnAwaitable false, none⟩)), .loop .yield, .leave [1] []]

/-- A coroutine awaits a receive when an exception leaves `run`, and it is destroyed. -/
def suspends : List SuspendingOp :=
  [.loop (.act (.spawn none)), .loop (.act (.destroyHandle ⟨0, .spawnAwaitable false, none⟩)),
    .loop .run, .loop .advance, .loop .advance, .suspend 7, .loop .yield, .loop .advance,
    .loop .ready, .loop (.throws 3), .leave [0] []]

/-- Another task is spawned, and in the next call of `run` the completion of the receive comes. -/
def runsAgain : List SuspendingOp :=
  [.loop (.act (.spawn none)), .loop .run, .loop .advance, .loop .advance, .loop .yield,
    .loop .advance, .loop .ready, .loop (.completion (some 7)), .loop .processed, .loop .advance]

end Suspending

end Fiona
