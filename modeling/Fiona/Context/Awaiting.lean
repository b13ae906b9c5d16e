import Fiona.Context.Continuation

/-!
# Awaiting a spawned task

Whether the task has ended is not looked up by `spawn_awaitable::await_suspend`: it is read off
the counter of the promise, which has one claim less then. That is right as long as there is but
one handle to the ended task; with a copy beside it the counter is that of a task that runs. And
there is one `continuation_`, for all the coroutines that are suspended in handles to the task.

`Fiona.tasks_awaited` says that nothing else goes wrong. The argument follows the continuation
(`Fiona.Tasks.Linked`), and goes by cases on what a step of tasks can do (`Fiona.Tasks.Effect`).
-/

namespace Fiona

open RefCount Transition

namespace Tasks

variable {s s' : Tasks} {gone : List Handle} {h h' : Handle} {t g : TaskId} {c : Coro} {op : TaskOp}

/-- **What is asked of awaiting**: `await_suspend` has suspended where the task was in `tasks_`,
and there only; no coroutine is suspended for a task that has ended; and each that was suspended
is resumed once, after the end of its task, or still suspended, or it has been destroyed. -/
structure Awaited (s : Tasks) : Prop where
  verdicts : ∀ v ∈ s.verdicts, v.1 = v.2
  unfinished : ∀ w ∈ s.waiting, (s.promise w.handle.task).done = false
  accounted : s.suspended.Perm (s.resumed ++ (s.waiting.map Waiter.on ++ s.dropped))
  past : ∀ p ∈ s.resumed, (s.promise p.2).done = true

/-- A handle that is awaited after the end of its task is the only one, and no task ends for which
several coroutines are suspended. -/
def Lone (s : Tasks) : TaskOp → Prop
  | .await h _ _ => h.task ∈ s.tasks ∨ s.heap.count h.task < 2
  | .finish t | .fail t _ => s.awaiters t ≤ 1
  | _ => True

instance : DecidablePred (Lone s) := fun op => by
  unfold Lone
  split <;> infer_instance

/-- What holds as long as every step is `Lone`. -/
structure Fair (s : Tasks) : Prop where
  linked : Linked s
  verdicts : ∀ v ∈ s.verdicts, v.1 = v.2
  unfinished : ∀ w ∈ s.waiting, (s.promise w.handle.task).done = false
  /-- A task that has ended by an exception that nobody kept has no handle. -/
  closed : ∀ t ∈ s.tasks, (s.promise t).done = true → ∀ h ∈ s.heap.refs, h.task ≠ t

theorem Fair.awaited (hf : Fair s) : Awaited s :=
  ⟨hf.verdicts, hf.unfinished, hf.linked.accounted, fun p hp => (hf.linked.past p hp).2⟩

theorem fair_init : Fair init where
  linked := linked_init
  verdicts := by simp [init]
  unfinished := by simp [init]
  closed := by simp [init]

theorem Quiet.fair (hq : Quiet s s') (hf : Fair s) (hl' : Linked s') : Fair s' where
  linked := hl'
  verdicts := by
    rw [hq.verdicts]
    exact hf.verdicts
  unfinished := by
    intro w hw
    rw [hq.waiting] at hw
    rw [hq.promise]
    exact hf.unfinished w (List.mem_of_mem_filter hw)
  closed := by
    intro t ht hdone h hh
    rw [hq.promise] at hdone
    obtain ⟨h', hh', htask⟩ := hq.targets h hh
    rw [← htask]
    exact hf.closed t (hq.tasks ht) hdone h' hh'

/-- What is made of the handles and the promises of the other tasks when a task is made. -/
theorem Fair.made (hf : Fair s) (hl : Linked s') (hverdicts : s'.verdicts = s.verdicts)
    (hwaiting : s'.waiting = s.waiting) (htasks : s'.tasks = s.next :: s.tasks)
    (hpromise : s'.promise = Function.update s.promise s.next .init)
    (hrefs : ∀ h ∈ s'.heap.refs, h.task = s.next ∨ h ∈ s.heap.refs) : Fair s' := by
  have hs := hf.linked.sound
  refine ⟨hl, by rw [hverdicts]; exact hf.verdicts, fun w hw => ?_, fun t ht hdone h hh => ?_⟩
  · rw [hwaiting] at hw
    have hlt := hs.lt_of_alive (hs.balanced.alive_of_mem (hs.mem_refs hw))
    rw [hpromise, Function.update_of_ne (Nat.ne_of_lt hlt)]
    exact hf.unfinished w hw
  · rw [htasks] at ht
    rcases List.mem_cons.mp ht with rfl | ht
    · simp [hpromise, Promise.init] at hdone
    · have hne : t ≠ s.next := Nat.ne_of_lt (hs.lt_of_alive (hs.alive_of_registered ht))
      rw [hpromise, Function.update_of_ne hne] at hdone
      rcases hrefs h hh with htask | hh
      · rw [htask]
        exact hne.symm
      · exact hf.closed t ht hdone h hh

/-- What a run asks of the end of a task, and what it gets. -/
theorem Ended.fair (he : Ended s s' t) (hf : Fair s) (hone : s.awaiters t ≤ 1) : Fair s' where
  linked := he.linked
  verdicts := by
    rw [he.verdicts]
    exact hf.verdicts
  unfinished := by
    intro w hw
    -- the only coroutine that was suspended for the task has been resumed
    have hne : w.handle.task ≠ t := by
      intro htask
      have hpos : 0 < s'.awaiters t := List.countP_pos_iff.mpr ⟨w, hw, by simpa using htask⟩
      rw [he.awaiters] at hpos
      omega
    rw [he.promise, Function.update_of_ne hne]
    exact hf.unfinished w (he.waiting w hw)
  closed := by
    intro x hx hdone h hh
    rw [he.tasks] at hx
    have hne : x ≠ t := by
      rintro rfl
      exact hf.linked.sound.nodup.not_mem_erase hx
    rw [he.promise, Function.update_of_ne hne] at hdone
    obtain ⟨h', hh', htask⟩ := he.targets h hh
    rw [← htask]
    exact hf.closed x (List.mem_of_mem_erase hx) hdone h' hh'

/-- If nobody is left suspended for the task, at most one coroutine was. -/
theorem Ended.awaiters_le (he : Ended s s' t) (ha : Awaited s') : s.awaiters t ≤ 1 := by
  have hnone : s'.awaiters t = 0 := by
    refine List.countP_eq_zero.mpr fun w hw htask => ?_
    have hopen := ha.unfinished w hw
    obtain rfl : w.handle.task = t := by simpa using htask
    rw [he.promise, Function.update_self] at hopen
    simp at hopen
  have hcount := he.awaiters
  omega

theorem Fair.setError (hf : Fair s) (t : TaskId) (e : Exn) :
    Fair (s.setPromise t { s.promise t with error := some e }) := by
  have hdone : ∀ x, ((s.setPromise t { s.promise t with error := some e }).promise x).done =
      (s.promise x).done := by
    intro x
    rcases eq_or_ne x t with rfl | hne
    · rw [setPromise_self]
    · rw [setPromise_of_ne _ hne]
  refine ⟨hf.linked.setPromise rfl id, hf.verdicts, fun w hw => ?_, fun x hx hx' => ?_⟩
  · rw [hdone]
    exact hf.unfinished w hw
  · rw [hdone] at hx'
    exact hf.closed x hx hx'

/-- A task ends by an exception for which there is no handle: nobody is suspended for it. -/
theorem Fair.escaped (hf : Fair s) (hruns : s.runs t = true) (hcount : ¬1 < s.heap.count t) :
    Fair (s.setPromise t { s.promise t with done := true }) := by
  have hs := hf.linked.sound
  have hnone : ∀ h ∈ s.heap.refs, h.task ≠ t := by
    rintro h hh rfl
    have htwo := hs.two_le hh (mem_of_runs hruns)
    omega
  refine ⟨hf.linked.setPromise rfl fun _ => rfl, hf.verdicts, fun w hw => ?_,
    fun x hx hx' h hh => ?_⟩
  · rw [setPromise_of_ne _ (hnone _ (hs.mem_refs hw))]
    exact hf.unfinished w hw
  · rcases eq_or_ne x t with rfl | hne
    · exact hnone h hh
    · rw [setPromise_of_ne _ hne] at hx'
      exact hf.closed x hx hx' h hh

/-- Where the coroutine is suspended or not as it should be, the step keeps all in order. -/
theorem Fair.await (hf : Fair s) (hop : s.allows (.await h c g) = true)
    (hlone : h.task ∈ s.tasks ∨ s.heap.count h.task < 2) : Fair (s.await h c g) := by
  obtain ⟨hidle, -⟩ := allows_await hop
  have hmem := idle_mem hidle
  obtain ⟨hpromise, hverdicts, -⟩ := await_keeps_offered s h c g
  have hv : ∀ v ∈ (s.await h c g).verdicts, v.1 = v.2 := by
    rw [hverdicts]
    intro v hv
    rcases List.mem_append.mp hv with hv | hv
    · exact hf.verdicts v hv
    · obtain rfl := List.mem_singleton.mp hv
      -- the counter tells what `tasks_` would have told
      by_cases ht : h.task ∈ s.tasks
      · have htwo := hf.linked.sound.two_le hmem ht
        simp only [ht, decide_true, Bool.not_eq_true', decide_eq_false_iff_not]
        omega
      · simp [ht, hlone.resolve_left ht]
  have hdone : ∀ x, ((s.await h c g).promise x).done = (s.promise x).done := by
    intro x
    rw [hpromise]
    exact offered_done s h c x
  have htasks := (await_keeps (s := s) h c g).1
  have htargets : ∀ x ∈ (s.await h c g).heap.refs, ∃ y ∈ s.heap.refs, y.task = x.task := by
    by_cases hcount : s.heap.count h.task < 2
    · obtain ⟨rethrown, heq⟩ := awaitResume_eq (s := s.offered h c) h
      rw [await_of_lt hcount, heq]
      exact replaceHandle_targets (s := s) hmem rfl
    · rw [await_of_not_lt hcount]
      exact fun x hx => ⟨x, hx, rfl⟩
  have hclosed : ∀ x ∈ (s.await h c g).tasks, ((s.await h c g).promise x).done = true →
      ∀ y ∈ (s.await h c g).heap.refs, y.task ≠ x := by
    intro x hx hx' y hy
    rw [htasks] at hx
    rw [hdone] at hx'
    obtain ⟨z, hz, htask⟩ := htargets y hy
    rw [← htask]
    exact hf.closed x hx hx' z hz
  by_cases ht : h.task ∈ s.tasks
  · have htwo := hf.linked.sound.two_le hmem ht
    obtain ⟨hl, hwaiting⟩ := hf.linked.await_suspends hop (by omega)
    refine ⟨hl, hv, fun w hw => ?_, hclosed⟩
    rw [hdone]
    rw [hwaiting] at hw
    rcases List.mem_cons.mp hw with rfl | hw
    · by_contra hcon
      exact hf.closed h.task ht (by simpa using hcon) h hmem rfl
    · exact hf.unfinished w hw
  · obtain ⟨hl, hwaiting⟩ := hf.linked.await_ended hidle (hlone.resolve_left ht) c g
    refine ⟨hl, hv, fun w hw => ?_, hclosed⟩
    rw [hdone]
    rw [hwaiting] at hw
    exact hf.unfinished w hw

/-! ### Runs -/

/-- **A step that is `Lone` keeps all in order.** -/
theorem step_fair (hf : Fair s) (hlone : Lone s op) (hstep : s.step op = some s') : Fair s' := by
  obtain ⟨hop, e, heffect, hl'⟩ := step_effect hf.linked hstep
  cases heffect with
  | spawned howner =>
    refine hf.made hl' rfl rfl rfl rfl fun h hh => ?_
    rcases List.mem_cons.mp hh with rfl | hh
    · exact .inl rfl
    · exact .inr hh
  | posted => exact hf.made hl' rfl rfl rfl rfl fun h hh => .inr hh
  | quiet hquiet hq => exact hq.fair hf hl'
  | awaited => exact hf.await hop hlone
  | finished he => exact he.fair hf hlone
  | failed hcount he => exact he.fair (hf.setError _ _) hlone
  | escaped hcount => exact hf.escaped hop hcount
  | cleared hq => exact hq.fair hf hl'

/-- Where a step leaves all as it should be, it is `Lone`. -/
theorem lone_of_awaited (hf : Fair s) (hstep : s.step op = some s') (ha : Awaited s') :
    Lone s op := by
  obtain ⟨hop, e, heffect, -⟩ := step_effect hf.linked hstep
  cases heffect with
  | awaited =>
    rename_i h c g
    by_contra hcon
    obtain ⟨ht, hcount⟩ := not_or.mp hcon
    -- the coroutine is suspended though the task is not there
    have hlast : (!decide (s.heap.count h.task < 2)) = decide (h.task ∈ s.tasks) :=
      ha.verdicts (!decide (s.heap.count h.task < 2), decide (h.task ∈ s.tasks)) (by
        rw [(await_keeps_offered s h c g).2.1]
        exact List.mem_append_right _ List.mem_cons_self)
    simp [ht, hcount] at hlast
  | finished he => exact he.awaiters_le ha
  | failed hcount he => exact he.awaiters_le ha
  | escaped hcount =>
    rename_i t e
    have hnone : s.awaiters t = 0 := by
      refine List.countP_eq_zero.mpr fun w hw htask => ?_
      obtain rfl : w.handle.task = t := by simpa using htask
      have htwo := hf.linked.sound.two_le (hf.linked.sound.mem_refs hw) (mem_of_runs hop)
      omega
    exact Nat.le_of_lt (by rw [hnone]; exact Nat.one_pos)
  | quiet hquiet => cases op <;> trivial
  | _ => trivial

end Tasks

/-- **Awaiting a spawned task**: in exactly those runs in which a handle that is awaited after the
end of its task has no copy, and no task ends while several coroutines are suspended for it,
`await_suspend` suspends if and only if the task is in `tasks_`, nobody stays suspended for a task
that has ended, and each coroutine that was suspended is resumed once, when its task has ended,
unless it still waits or has been destroyed. -/
theorem tasks_awaited (ops : List TaskOp) :
    Along Tasks.step Tasks.Awaited Tasks.init ops ↔
      StepsMeet Tasks.step Tasks.Lone Tasks.init ops :=
  along_iff_stepsMeet (I := Tasks.Fair) (fun _ => Tasks.Fair.awaited) (fun _ _ _ => Tasks.step_fair)
    (fun _ _ _ => Tasks.lone_of_awaited) Tasks.fair_init

/-- A handle is copied whose task has ended: the counter is that of a task that runs, and the
coroutine of the second task is suspended for good. -/
theorem tasks_awaited_fails :
    ¬∀ ops s, run Tasks.step Tasks.init ops = some s → Tasks.Awaited s := by
  intro hall
  have ha := hall [.spawn none, .finish 0, .copyHandle ⟨0, .spawnAwaitable false, none⟩ none,
    .spawn none, .await ⟨0, .spawnAwaitable false, none⟩ 7 1] _ rfl
  exact absurd (ha.verdicts (true, false) (by decide)) (by decide)

/-- Two tasks await a third with a copy each; the continuation of the first is overwritten. -/
example : (run Tasks.step Tasks.init
    [.spawn none, .copyHandle ⟨0, .spawnAwaitable false, none⟩ none, .spawn none, .spawn none,
      .await ⟨0, .spawnAwaitable false, none⟩ 7 1,
      .await ⟨0, .spawnAwaitable false, none⟩ 8 2, .finish 0]).map
      (fun s => (s.waiting.map Waiter.coro, s.resumed)) = some ([7], [(8, 0)]) := rfl

end Fiona
