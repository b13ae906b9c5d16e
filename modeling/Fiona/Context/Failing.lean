import Fiona.Context.Continuation
import Fiona.Context.Loop

/-!
# Tasks that end by an exception

The exception of a task takes one of three ways. If nothing but `tasks_` refers to the task it
leaves `resume`, and with it `run`. Otherwise it is kept in the promise, for a `co_await`; and a
handle that is destroyed without having been awaited hands it to `exception_ptr_`, which `run`
looks at before it returns. So an exception that is kept is not lost as long as a handle is left
that has not been awaited (`Fiona.Tasks.Kept`), and with such a handle `run` may return normally.

A handle that is *assigned over* is not destroyed: `internal_task::operator=` gives up its claim
to the task, and nobody looks at the exception.
-/

namespace Fiona

open RefCount Transition

namespace Tasks

variable {s s' : Tasks} {gone : List Handle} {h h' : Handle} {t g : TaskId} {c : Coro} {op : TaskOp}
  {e : Exn}

/-- A handle that has not been awaited. -/
def fresh (h : Handle) : Prop := h.kind = .spawnAwaitable false

/-- The exception of each task that has one has been rethrown by a `co_await`, or it is in
`exception_ptr_`, if no other one was there before, or there is still a handle that has not been
awaited. -/
structure Kept (s : Tasks) : Prop where
  unawaited : ∀ h ∈ s.heap.refs, h.task ∈ s.tasks → fresh h
  kept : ∀ t e, (s.promise t).error = some e →
    t ∈ s.rethrown ∨ s.exceptionPtr.isSome = true ∨ ∃ h ∈ s.heap.refs, h.task = t ∧ fresh h

/-- No exception is lost by an assignment. -/
def Spared (s : Tasks) : TaskOp → Prop
  | .assignHandle h _ => unawaited s.promise h = none
  | _ => True

instance : DecidablePred (Spared s) := fun op => by
  unfold Spared
  split <;> infer_instance

theorem unawaited_of_fresh (hfresh : fresh h) :
    unawaited s.promise h = (s.promise h.task).error := by
  rw [Tasks.unawaited, hfresh]

/-- Where the exception of a task is. -/
theorem Kept.found (hk : Kept s) (he : (s.promise t).error = some e) :
    t ∈ s.rethrown ∨ s.exceptionPtr.isSome = true ∨
      ∃ h ∈ s.heap.refs, h.task = t ∧ Tasks.unawaited s.promise h = some e := by
  refine (hk.kept t e he).imp_right (Or.imp_right ?_)
  rintro ⟨h, hh, rfl, hfresh⟩
  exact ⟨h, hh, rfl, (unawaited_of_fresh hfresh).trans he⟩

/-! ### Destructors -/

theorem isSome_handleDestructor {promise : TaskId → Promise} {ep : Option Exn}
    (hor : ep.isSome = true ∨ (unawaited promise h).isSome = true) :
    (handleDestructor promise h ep).isSome = true := by
  unfold handleDestructor
  split
  · unfold unhandledException
    split_ifs with hep
    · exact hep
    · rfl
  · rename_i hnone
    simpa [hnone] using hor

/-- One of the destructors has found an exception, or there was one before. -/
theorem isSome_destructors {promise : TaskId → Promise} {ep : Option Exn}
    (hor : ep.isSome = true ∨ ∃ h ∈ gone, (unawaited promise h).isSome = true) :
    (gone.foldl (fun ep h => handleDestructor promise h ep) ep).isSome = true := by
  induction gone generalizing ep with
  | nil => simpa using hor
  | cons x gone ih =>
    refine ih ?_
    rcases hor with hep | ⟨h, hh, hsome⟩
    · exact .inl (isSome_handleDestructor (.inl hep))
    · rcases List.mem_cons.mp hh with rfl | hh
      · exact .inl (isSome_handleDestructor (.inr hsome))
      · exact .inr ⟨h, hh, hsome⟩

/-- **What is destroyed hands its exception over.** -/
theorem Kept.destroyed (hk : Kept s) (hd : Destroyed s s' gone) (htasks : s'.tasks ⊆ s.tasks) :
    Kept s' where
  unawaited := fun h hh ht => hk.unawaited h (hd.refs.symm.subset (List.mem_append_right _ hh))
    (htasks ht)
  kept := by
    intro t e he
    rw [hd.promise] at he
    rw [hd.rethrown, hd.exceptionPtr]
    rcases hk.kept t e he with ht | hep | ⟨h, hh, htask, hfresh⟩
    · exact .inl ht
    · exact .inr (.inl (isSome_destructors (.inl hep)))
    · rcases List.mem_append.mp (hd.refs.subset hh) with hgone | hstays
      · refine .inr (.inl (isSome_destructors (.inr ⟨h, hgone, ?_⟩)))
        rw [unawaited_of_fresh hfresh, htask, he]
        rfl
      · exact .inr (.inr ⟨h, hstays, htask, hfresh⟩)

/-! ### Other steps -/

/-- A handle is awaited whose task has ended, and the exception is rethrown if there is one. -/
theorem Kept.awaitResume (hk : Kept s) (hnot : h.task ∉ s.tasks) : Kept (s.awaitResume h) := by
  have hrefs : ∀ x ∈ (s.replaceHandle h { h with kind := .spawnAwaitable true }).heap.refs,
      x.task ∈ s.tasks → fresh x := by
    intro x hx ht
    rcases List.mem_cons.mp hx with rfl | hx
    · exact absurd ht hnot
    · exact hk.unawaited x (List.mem_of_mem_erase hx) ht
  have hother : ∀ t, h.task ≠ t → (∃ x ∈ s.heap.refs, x.task = t ∧ fresh x) →
      ∃ x ∈ (s.replaceHandle h { h with kind := .spawnAwaitable true }).heap.refs, x.task = t ∧
      fresh x := by
    rintro t hne ⟨x, hx, rfl, hfresh⟩
    refine ⟨x, List.mem_cons_of_mem _ ((List.mem_erase_of_ne ?_).mpr hx), rfl, hfresh⟩
    rintro rfl
    exact hne rfl
  unfold Tasks.awaitResume
  split
  · refine ⟨hrefs, fun t e he => ?_⟩
    rcases eq_or_ne h.task t with rfl | hne
    · exact .inl List.mem_cons_self
    · rcases hk.kept t e he with ht | hep | hx
      · exact .inl (List.mem_cons_of_mem _ ht)
      · exact .inr (.inl hep)
      · exact .inr (.inr (hother t hne hx))
  · rename_i hnone
    refine ⟨hrefs, fun t e he => ?_⟩
    have hne : h.task ≠ t := by
      rintro rfl
      exact absurd (hnone.symm.trans he) (by simp)
    exact (hk.kept t e he).imp_right (Or.imp_right (hother t hne))

/-- The promises change, but for the exceptions. -/
theorem Kept.promise (hk : Kept s) {promise : TaskId → Promise}
    (herror : ∀ t, (promise t).error = (s.promise t).error) : Kept { s with promise := promise } :=
  ⟨hk.unawaited, fun t e he => hk.kept t e ((herror t).symm.trans he)⟩

theorem Kept.setPromise (hk : Kept s) {p : Promise} (hp : p.error = (s.promise t).error) :
    Kept (s.setPromise t p) := by
  refine hk.promise fun x => ?_
  rcases eq_or_ne x t with rfl | hne
  · rw [Function.update_self, hp]
  · rw [Function.update_of_ne hne]

/-- A handle is made like another one. -/
theorem Kept.attach (hk : Kept s) {count : TaskId → Int} (hh : h ∈ s.heap.refs)
    {owner : Option TaskId} :
    Kept { s with
      heap := { s.heap with count := count, refs := ⟨h.task, h.kind, owner⟩ :: s.heap.refs } } where
  unawaited := by
    intro x hx ht
    rcases List.mem_cons.mp hx with rfl | hx
    · exact hk.unawaited h hh ht
    · exact hk.unawaited x hx ht
  kept := by
    intro t e he
    refine (hk.kept t e he).imp_right (Or.imp_right ?_)
    rintro ⟨x, hx, htask⟩
    exact ⟨x, List.mem_cons_of_mem _ hx, htask⟩

/-- A task is made; it has no exception. -/
theorem Kept.made (hk : Kept s) (hs : Sound (registered s.tasks) s)
    (hpromise : s'.promise = Function.update s.promise s.next .init)
    (htasks : s'.tasks = s.next :: s.tasks) (hrethrown : s'.rethrown = s.rethrown)
    (hep : s'.exceptionPtr = s.exceptionPtr) (hold : ∀ h ∈ s.heap.refs, h ∈ s'.heap.refs)
    (hnew : ∀ h ∈ s'.heap.refs, fresh h ∨ h ∈ s.heap.refs) : Kept s' where
  unawaited := by
    intro h hh ht
    rcases hnew h hh with hfresh | hh
    · exact hfresh
    · refine hk.unawaited h hh ?_
      rw [htasks] at ht
      exact (List.mem_cons.mp ht).resolve_left
        (Nat.ne_of_lt (hs.lt_of_alive (hs.balanced.alive_of_mem hh)))
  kept := by
    intro t e he
    have hne : t ≠ s.next := by
      rintro rfl
      simp [hpromise, Promise.init] at he
    rw [hpromise, Function.update_of_ne hne] at he
    rw [hrethrown, hep]
    refine (hk.kept t e he).imp_right (Or.imp_right ?_)
    rintro ⟨x, hx, htask⟩
    exact ⟨x, hold x hx, htask⟩

/-- A task ends, and the continuation is resumed, if there is one. -/
theorem Kept.finalSuspend (hk : Kept s) (hl : Linked s) (hruns : s.runs t = true)
    (heq : s.finalSuspend t = some s') : Kept s' := by
  have ht := mem_of_runs hruns
  obtain ⟨s₁, gone, heq', hd, htasks, hs₁, -⟩ := finalSuspend_spec hl.sound ht
  obtain rfl := Option.some.inj (heq.symm.trans heq')
  have hmarked : Kept (s.setPromise t { s.promise t with done := true }) := hk.setPromise rfl
  have hk₁ : Kept s₁ := hmarked.destroyed hd (htasks ▸ List.erase_subset)
  cases hcont : (s.promise t).continuation with
  | none => exact hk₁
  | some c =>
    obtain ⟨w, hw, hon⟩ := hl.continued t ht (not_done_of_runs hruns) c hcont
    unfold Tasks.resumeContinuation
    dsimp only
    split
    · exact ⟨hk₁.unawaited, hk₁.kept⟩
    · rename_i x hx
      -- the coroutine that is resumed is the one that was suspended for this task
      have hmem : x ∈ s.waiting := by
        have hx' := List.mem_of_find?_eq_some hx
        rw [hd.waiting] at hx'
        exact List.mem_of_mem_filter hx'
      have hcoro : x.coro = w.coro := by
        rw [(Prod.mk.inj hon).1]
        simpa using List.find?_some hx
      obtain rfl := List.inj_on_of_nodup_map hl.coros hmem hw hcoro
      refine Kept.awaitResume ⟨hk₁.unawaited, hk₁.kept⟩ ?_
      have hxt : x.handle.task = t := (Prod.mk.inj hon).2
      rw [hxt]
      show t ∉ s₁.tasks
      rw [htasks]
      exact hl.sound.nodup.not_mem_erase

/-- The count tells whether there is a handle to a task that is in `tasks_`. -/
theorem Sound.one_lt_count (hs : Sound (registered s.tasks) s) (ht : t ∈ s.tasks) :
    1 < s.heap.count t ↔ ∃ h ∈ s.heap.refs, h.task = t := by
  have hbalance := hs.balanced.count t
  rw [registered, if_pos ht] at hbalance
  have hpos : 0 < s.heap.refs.countP (fun h => h.task = t) ↔ ∃ h ∈ s.heap.refs, h.task = t := by
    simp [List.countP_pos_iff]
  rw [← hpos]
  omega

/-- A task ends by an exception for which there is a handle. -/
theorem Kept.setError (hk : Kept s) (hs : Sound (registered s.tasks) s) (ht : t ∈ s.tasks)
    (hcount : 1 < s.heap.count t) (e : Exn) :
    Kept (s.setPromise t { s.promise t with error := some e }) := by
  obtain ⟨h, hh, htask⟩ := (hs.one_lt_count ht).mp hcount
  refine ⟨hk.unawaited, fun x e' he' => ?_⟩
  rcases eq_or_ne x t with rfl | hne
  · exact .inr (.inr ⟨h, hh, htask, hk.unawaited h hh (htask ▸ ht)⟩)
  · rw [setPromise_of_ne _ hne] at he'
    exact hk.kept x e' he'

/-- **No exception gets lost**, but by an assignment. -/
theorem Kept.perform (hk : Kept s) (hl : Linked s) (hop : s.allows op = true)
    (hspared : Spared s op) {e : Option Exn} (hperform : s.perform op = some (s', e)) :
    Kept s' := by
  have hs := hl.sound
  cases op with
  | spawn owner =>
    rw [Tasks.perform, spawn_eq hs] at hperform
    obtain ⟨rfl, -⟩ := Prod.mk.inj (Option.some.inj hperform)
    refine hk.made hs rfl rfl rfl rfl (fun _ => List.mem_cons_of_mem _) fun h hh => ?_
    rcases List.mem_cons.mp hh with rfl | hh
    · exact .inl rfl
    · exact .inr hh
  | post =>
    rw [Tasks.perform, post_eq hs] at hperform
    obtain ⟨rfl, -⟩ := Prod.mk.inj (Option.some.inj hperform)
    exact hk.made hs rfl rfl rfl rfl (fun _ => id) fun _ => .inr
  | copyHandle h owner =>
    simp only [allows, Bool.and_eq_true, decide_eq_true_eq] at hop
    obtain ⟨s₁, hcopy, hperform⟩ := Option.map_eq_some_iff.mp hperform
    obtain ⟨rfl, -⟩ := Prod.mk.inj hperform
    rw [copyHandle_eq hcopy]
    exact hk.attach hop.1
  | giveHandle h owner =>
    obtain ⟨rfl, -⟩ := Prod.mk.inj (Option.some.inj hperform)
    simp only [allows, Bool.and_eq_true] at hop
    have hh := idle_mem hop.1
    refine ⟨fun x hx ht => ?_, fun t e he => (hk.kept t e he).imp_right (Or.imp_right ?_)⟩
    · rcases List.mem_cons.mp hx with rfl | hx
      · exact hk.unawaited h hh ht
      · exact hk.unawaited x (List.mem_of_mem_erase hx) ht
    · rintro ⟨x, hx, htask, hfresh⟩
      rcases eq_or_ne x h with rfl | hne
      · exact ⟨_, List.mem_cons_self, htask, hfresh⟩
      · exact ⟨x, List.mem_cons_of_mem _ ((List.mem_erase_of_ne hne).mpr hx), htask, hfresh⟩
  | assignHandle h h' =>
    simp only [allows, Bool.and_eq_true, decide_eq_true_eq] at hop
    obtain ⟨⟨⟨hidle, hmem⟩, howner⟩, howner'⟩ := hop
    obtain ⟨s₁, gone, s₂, heq, hd, htasks, hstays, hcopy, -, -⟩ := hs.assignHandle hidle hmem
      (fun g hg => by simpa [hg] using howner) (fun g hg => by simpa [hg] using howner')
    rw [Tasks.perform, heq] at hperform
    obtain ⟨rfl, -⟩ := Prod.mk.inj (Option.some.inj hperform)
    -- the exception, if there is one, is not the one for which the handle was kept
    have hdetached : Kept { s with heap := s.heap.detach h } := by
      refine ⟨fun x hx => hk.unawaited x (List.mem_of_mem_erase hx), fun t e he => ?_⟩
      refine (hk.kept t e he).imp_right (Or.imp_right ?_)
      rintro ⟨x, hx, rfl, hfresh⟩
      refine ⟨x, (List.mem_erase_of_ne ?_).mpr hx, rfl, hfresh⟩
      rintro rfl
      exact absurd (he.symm.trans ((unawaited_of_fresh hfresh).symm.trans hspared)) (by simp)
    have hk₁ : Kept s₁ := hdetached.destroyed hd fun x hx => htasks ▸ hx
    rw [copyHandle_eq hcopy]
    exact hk₁.attach hstays
  | destroyHandle h =>
    obtain ⟨s₁, gone, heq, hd, htasks, -⟩ := destroyHandle_spec hs hop
    rw [Tasks.perform, heq] at hperform
    obtain ⟨rfl, -⟩ := Prod.mk.inj (Option.some.inj hperform)
    exact hk.destroyed hd fun x hx => htasks ▸ hx
  | await h c g =>
    obtain ⟨rfl, -⟩ := Prod.mk.inj (Option.some.inj hperform)
    obtain ⟨hidle, -⟩ := allows_await hop
    have hoffered : Kept (s.offered h c) := by
      have hset := hk.setPromise (t := h.task)
        (p := { s.promise h.task with continuation := some c }) rfl
      exact ⟨hset.unawaited, hset.kept⟩
    by_cases hcount : s.heap.count h.task < 2
    · rw [await_of_lt hcount]
      refine hoffered.awaitResume fun ht => ?_
      have htwo := hs.two_le (idle_mem hidle) ht
      omega
    · rw [await_of_not_lt hcount]
      exact ⟨hoffered.unawaited, hoffered.kept⟩
  | finish t =>
    obtain ⟨s₁, heq, hperform⟩ := Option.map_eq_some_iff.mp hperform
    obtain ⟨rfl, -⟩ := Prod.mk.inj hperform
    exact hk.finalSuspend hl hop heq
  | fail t e =>
    rw [Tasks.perform, Tasks.fail] at hperform
    split_ifs at hperform with hcount
    · obtain ⟨s₁, heq, hperform⟩ := Option.bind_eq_some_iff.mp hperform
      obtain ⟨rfl, -⟩ := Prod.mk.inj (Option.some.inj hperform)
      have hset := hl.setPromise (t := t) (p := { s.promise t with error := some e }) rfl id
      refine (hk.setError hs (mem_of_runs hop) hcount e).finalSuspend hset ?_ heq
      simp only [allows, runs, setPromise_self] at hop ⊢
      exact hop
    · obtain ⟨rfl, -⟩ := Prod.mk.inj (Option.some.inj hperform)
      exact hk.setPromise rfl
  | clear order =>
    obtain ⟨s₁, gone, heq, hd, hnone, -⟩ := clear_spec hs (by simpa [allows] using hop)
    rw [Tasks.perform, heq] at hperform
    obtain ⟨rfl, -⟩ := Prod.mk.inj (Option.some.inj hperform)
    exact hk.destroyed hd (by rw [hnone]; exact List.nil_subset _)

end Tasks

namespace Loop

open Tasks (Linked Kept)

variable {s s' : Loop} {op : LoopOp}

/-- No exception is lost by an assignment. -/
def Spared (s : Loop) : LoopOp → Prop
  | .act top => Tasks.Spared s.ctx top
  | _ => True

instance (s : Loop) : DecidablePred (Spared s) := fun op => by
  unfold Spared
  split <;> infer_instance

/-- What holds of exceptions in every run, after whatever exits. -/
structure Reported (s : Loop) : Prop where
  linked : Linked s.ctx
  kept : Kept s.ctx
  returns : s.phase = .returning → s.ctx.exceptionPtr = none ∧ s.ctx.tasks = []

theorem reported_init : Reported init where
  linked := Tasks.linked_init
  kept := ⟨by simp [init, Tasks.init], by simp [init, Tasks.init, Promise.init]⟩
  returns := by simp [init]

/-- **No step loses an exception**, but by an assignment. -/
theorem Reported.step (hr : Reported s) (hspared : Spared s op) (hstep : s.step op = some s') :
    Reported s' := by
  obtain ⟨hmoves, -, hreturns⟩ := step_moves hstep
  have hperform : ∀ (top : TaskOp) {ctx : Tasks} {e : Option Exn}, s.ctx.allows top = true →
      Tasks.Spared s.ctx top → s.ctx.perform top = some (ctx, e) → Linked ctx ∧ Kept ctx := by
    intro top ctx e hop hsp hperform
    obtain ⟨ctx', e', hperform', -, hl'⟩ := hr.linked.perform hop
    obtain ⟨rfl, -⟩ := Prod.mk.inj (Option.some.inj (hperform.symm.trans hperform'))
    exact ⟨hl', hr.kept.perform hr.linked hop hsp hperform⟩
  have hctx : Linked s'.ctx ∧ Kept s'.ctx := by
    revert hmoves
    generalize s'.ctx = ctx
    intro hmoves
    cases hmoves with
    | same => exact ⟨hr.linked, hr.kept⟩
    | popped => exact ⟨hr.linked.queue _, hr.kept.unawaited, hr.kept.kept⟩
    | acted hop hact => exact hperform _ hop hspared hact
    | posted hpost => exact hperform .post rfl trivial (by rw [Tasks.perform, hpost]; rfl)
    | cleared horder hclear =>
      exact hperform (.clear _) (decide_eq_true horder) trivial (by rw [Tasks.perform, hclear]; rfl)
  exact ⟨hctx.1, hctx.2, hreturns⟩

theorem run_reported {ops : List LoopOp} (hrun : run step init ops = some s)
    (hspared : StepsMeet step Spared init ops) : Reported s :=
  (along_of_stepsMeet (fun _ _ _ hr hC hstep => Reported.step hr hC hstep) reported_init
    hspared).last hrun

/-- A task ends by an exception. If there is no handle to it the exception is on its way out of
`run`; otherwise it is kept, and `run` goes on. -/
theorem Reported.fail (hr : Reported s) {t : TaskId} {e : Exn}
    (hstep : s.step (.act (.fail t e)) = some s') :
    ((∀ h ∈ s.ctx.heap.refs, h.task ≠ t) → s'.phase = .unwinding e) ∧
    ∀ h ∈ s.ctx.heap.refs, h.task = t →
      (s'.ctx.promise t).error = some e ∧ ∀ e', s'.phase ≠ .unwinding e' := by
  obtain ⟨hpermits, hallows, r, hperform, heq⟩ := act_cases hstep
  obtain ⟨ctx, r', hperform', heffect, -⟩ := hr.linked.perform hallows
  obtain ⟨rfl, rfl⟩ := Prod.mk.inj (Option.some.inj (hperform.symm.trans hperform'))
  have hrefs := hr.linked.sound.one_lt_count (Tasks.mem_of_runs hallows)
  generalize s'.ctx = ctx at heffect heq ⊢
  cases heffect with
  | quiet hop => simp [Tasks.onlyHandles] at hop
  | failed hcount he =>
    refine ⟨fun hno => ?_, fun h hh ht => ⟨by rw [he.promise]; simp, fun e' => ?_⟩⟩
    · obtain ⟨h, hh, ht⟩ := hrefs.mp hcount
      exact absurd ht (hno h hh)
    · rw [heq]
      exact (Phase.next_of_callers (callers_of_permits hpermits)).1 e'
  | escaped hcount =>
    refine ⟨fun _ => by rw [heq]; rfl, fun h hh ht => ?_⟩
    exact absurd (hrefs.mpr ⟨h, hh, ht⟩) hcount

/-- `run` returns normally. -/
theorem Reported.leave (hr : Reported s) {order : List TaskId}
    (hstep : s.step (.leave order) = some s') (hphase : s'.phase = .returned none) {t : TaskId}
    {e : Exn} (he : (s'.ctx.promise t).error = some e) :
    t ∈ s'.ctx.rethrown ∨ ∃ h ∈ s'.ctx.heap.refs, h.task = t ∧
      Tasks.unawaited s'.ctx.promise h = some e := by
  obtain ⟨r, hcases, horder, hclear, heq⟩ := leave_cases hstep
  obtain rfl : r = none := by rw [heq] at hphase; exact Phase.returned.inj hphase
  obtain ⟨-, hreturning⟩ : none = none ∧ s.phase = .returning := hcases.resolve_right (by simp)
  obtain ⟨hep, hnone⟩ := hr.returns hreturning
  -- there is nothing to clear
  rw [hnone] at horder
  obtain rfl := List.perm_nil.mp horder
  rw [Tasks.clear, if_pos hnone] at hclear
  obtain hctx : s.ctx = s'.ctx := Option.some.inj hclear
  rw [← hctx] at he ⊢
  rcases hr.kept.found he with ht | hsome | hfound
  · exact .inl ht
  · simp [hep] at hsome
  · exact .inr hfound

end Loop

/-- **What becomes of the exceptions**, as long as no handle to a task that has failed is assigned
over before it has been awaited. A task that ends by an exception has it thrown by `run` if there is
no handle to it, and keeps it otherwise; nothing but the end of `run` comes after an exception that
leaves it; an exception that is kept has been rethrown by a `co_await`, or some exception is in
`exception_ptr_` and `run` is not about to return, or there is a handle left that will hand it over;
and where `run` has returned normally one of the first and the last is the case. -/
theorem loop_reports (ops : List LoopOp) (s : Loop) (hrun : run Loop.step Loop.init ops = some s)
    (hspared : StepsMeet Loop.step Loop.Spared Loop.init ops) :
    (∀ t e s', s.step (.act (.fail t e)) = some s' →
      ((∀ h ∈ s.ctx.heap.refs, h.task ≠ t) → s'.phase = .unwinding e) ∧
      ∀ h ∈ s.ctx.heap.refs, h.task = t →
        (s'.ctx.promise t).error = some e ∧ ∀ e', s'.phase ≠ .unwinding e') ∧
    (∀ e op s', s.phase = .unwinding e → s.step op = some s' → s'.phase = .returned (some e)) ∧
    (∀ t e, (s.ctx.promise t).error = some e → t ∈ s.ctx.rethrown ∨
      (s.ctx.exceptionPtr.isSome = true ∧ s.phase ≠ .returning) ∨
      ∃ h ∈ s.ctx.heap.refs, h.task = t ∧ Tasks.unawaited s.ctx.promise h = some e) ∧
    ∀ order s', s.step (.leave order) = some s' → s'.phase = .returned none →
      ∀ t e, (s'.ctx.promise t).error = some e → t ∈ s'.ctx.rethrown ∨
        ∃ h ∈ s'.ctx.heap.refs, h.task = t ∧ Tasks.unawaited s'.ctx.promise h = some e := by
  have hr := Loop.run_reported hrun hspared
  refine ⟨fun t e s' => hr.fail, fun e op s' hphase hstep => ?_, fun t e he => ?_,
    fun order s' hstep hphase t e he => hr.leave hstep hphase he⟩
  · obtain ⟨order, rfl⟩ := Loop.leave_of_unwinding hphase hstep
    obtain ⟨r, hcases, -, -, heq⟩ := Loop.leave_cases hstep
    rcases hcases with ⟨-, hphase'⟩ | ⟨e', rfl, hphase'⟩
    · exact absurd (hphase.symm.trans hphase') (by simp)
    · obtain rfl : e = e' := by simpa using hphase.symm.trans hphase'
      rw [heq]
  · rcases hr.kept.found he with ht | hep | hfound
    · exact .inl ht
    · refine .inr (.inl ⟨hep, fun hphase => ?_⟩)
      simp [(hr.returns hphase).1] at hep
    · exact .inr (.inr hfound)

/-- A child fails while its parent keeps the handle in its frame; a second one is awaited. -/
theorem loop_reports_sample : ∃ s, run Loop.step Loop.init
    [.act (.spawn none), .run, .advance, .advance, .act (.spawn (some 0)),
      .act (.spawn (some 0)), .yield, .advance, .act (.fail 1 3), .yield, .advance,
      .act (.fail 2 4), .yield, .advance, .ready, .completion (some 7), .processed, .advance,
      .act (.await ⟨2, .spawnAwaitable false, some 0⟩ 7 0), .act (.finish 0)] = some s ∧
    (∀ t e s', s.step (.act (.fail t e)) = some s' →
      ((∀ h ∈ s.ctx.heap.refs, h.task ≠ t) → s'.phase = .unwinding e) ∧
      ∀ h ∈ s.ctx.heap.refs, h.task = t →
        (s'.ctx.promise t).error = some e ∧ ∀ e', s'.phase ≠ .unwinding e') ∧
    (∀ e op s', s.phase = .unwinding e → s.step op = some s' → s'.phase = .returned (some e)) ∧
    (∀ t e, (s.ctx.promise t).error = some e → t ∈ s.ctx.rethrown ∨
      (s.ctx.exceptionPtr.isSome = true ∧ s.phase ≠ .returning) ∨
      ∃ h ∈ s.ctx.heap.refs, h.task = t ∧ Tasks.unawaited s.ctx.promise h = some e) ∧
    ∀ order s', s.step (.leave order) = some s' → s'.phase = .returned none →
      ∀ t e, (s'.ctx.promise t).error = some e → t ∈ s'.ctx.rethrown ∨
        ∃ h ∈ s'.ctx.heap.refs, h.task = t ∧ Tasks.unawaited s'.ctx.promise h = some e :=
  exists_run rfl fun s hrun => loop_reports _ s hrun (by decide)

/-- The handle of a task that fails is kept outside of the coroutines, and `run` returns
normally. -/
theorem loop_reports_fails : ¬∀ ops s, run Loop.step Loop.init ops = some s →
    s.phase = .returned none → ∀ t e, (s.ctx.promise t).error = some e → t ∈ s.ctx.rethrown := by
  intro hall
  have hlost := hall [.act (.spawn none), .run, .advance, .advance, .act (.fail 0 3), .yield,
    .advance, .leave []] _ rfl rfl 0 3 rfl
  exact absurd hlost (by decide)

end Fiona
