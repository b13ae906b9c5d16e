import Mathlib.Data.List.Nodup
import Fiona.Context.Ownership

/-!
# The continuation of a task

There is one `continuation_` in a promise, for all the coroutines that are suspended in handles to
the task. As long as the task is in `tasks_` and has not ended, it is one of these coroutines, and
there is none only if no coroutine is suspended for the task (`Fiona.Tasks.Linked`). A task that
is destroyed by `clear` never ends.

What a step of tasks does is said once, by `Fiona.Tasks.Effect`: what is proved about runs is
proved by cases on it.
-/

namespace Fiona

open RefCount Transition

namespace Tasks

variable {s s' : Tasks} {gone : List Handle} {h h' : Handle} {t g : TaskId} {c : Coro} {op : TaskOp}

/-- The number of coroutines that are suspended for the task. -/
def awaiters (s : Tasks) (t : TaskId) : Nat := s.waiting.countP fun w => w.handle.task = t

/-- The continuation of a task that runs is suspended for it, and is there if any coroutine is. -/
structure Linked (s : Tasks) : Prop where
  sound : Sound (registered s.tasks) s
  accounted : s.suspended.Perm (s.resumed ++ (s.waiting.map Waiter.on ++ s.dropped))
  past : ∀ p ∈ s.resumed, p.2 < s.next ∧ (s.promise p.2).done = true
  coros : (s.waiting.map Waiter.coro).Nodup
  inside : ∀ w ∈ s.waiting, w.handle.task ∈ s.tasks → w.task ∈ s.tasks
  awaited : ∀ w ∈ s.waiting, w.handle.task ∈ s.tasks →
    ∃ c, (s.promise w.handle.task).continuation = some c
  continued : ∀ t ∈ s.tasks, (s.promise t).done = false → ∀ c, (s.promise t).continuation = some c →
    ∃ w ∈ s.waiting, w.on = (c, t)

theorem linked_init : Linked init :=
  ⟨sound_init, .refl _, by simp [init], List.nodup_nil, by simp [init], by simp [init],
    by simp [init]⟩

/-! ### Steps that neither await nor end a task -/

/-- Handles are made, change or are destroyed, and nothing else happens than what this brings
about. -/
structure Quiet (s s' : Tasks) : Prop where
  promise : s'.promise = s.promise
  next : s'.next = s.next
  runQueue : s'.runQueue = s.runQueue
  verdicts : s'.verdicts = s.verdicts
  suspended : s'.suspended = s.suspended
  resumed : s'.resumed = s.resumed
  tasks : s'.tasks ⊆ s.tasks
  targets : ∀ h ∈ s'.heap.refs, ∃ h' ∈ s.heap.refs, h'.task = h.task
  waiting : s'.waiting = s.waiting.filter (remains s'.heap)
  kept : (s'.waiting.map Waiter.on ++ s'.dropped).Perm (s.waiting.map Waiter.on ++ s.dropped)

theorem Destroyed.quiet (hd : Destroyed s s' gone) (htasks : s'.tasks ⊆ s.tasks) : Quiet s s' where
  promise := hd.promise
  next := hd.next
  runQueue := hd.runQueue
  verdicts := hd.verdicts
  suspended := hd.suspended
  resumed := hd.resumed
  tasks := htasks
  targets := fun h hh => ⟨h, hd.refs.symm.subset (List.mem_append_right _ hh), rfl⟩
  waiting := hd.waiting
  kept := hd.kept

/-- The coroutines that are suspended for a task that goes on stay suspended. -/
theorem Quiet.linked (hq : Quiet s s') (hl : Linked s) (hs' : Sound (registered s'.tasks) s')
    (hstays : ∀ w ∈ s.waiting, w.handle.task ∈ s'.tasks → w.task ∈ s'.tasks) : Linked s' where
  sound := hs'
  accounted := by
    rw [hq.suspended, hq.resumed]
    exact hl.accounted.trans (hq.kept.symm.append_left _)
  past := by
    rw [hq.resumed, hq.promise, hq.next]
    exact hl.past
  coros := by
    rw [hq.waiting]
    exact hl.coros.sublist (List.filter_sublist.map _)
  inside := by
    intro w hw
    rw [hq.waiting] at hw
    exact hstays w (List.mem_of_mem_filter hw)
  awaited := by
    intro w hw hmem
    rw [hq.waiting] at hw
    rw [hq.promise]
    exact hl.awaited w (List.mem_of_mem_filter hw) (hq.tasks hmem)
  continued := by
    intro t ht hdone c hc
    rw [hq.promise] at hdone hc
    obtain ⟨w, hw, hon⟩ := hl.continued t (hq.tasks ht) hdone c hc
    refine ⟨w, ?_, hon⟩
    rw [hq.waiting]
    have htask : w.handle.task = t := congrArg Prod.snd hon
    exact List.mem_filter.mpr ⟨hw, hs'.alive_of_registered (hstays w hw (htask ▸ ht))⟩

/-- The tasks in `tasks_` stay there. -/
theorem Linked.stays (hl : Linked s) (htasks : s'.tasks = s.tasks) :
    ∀ w ∈ s.waiting, w.handle.task ∈ s'.tasks → w.task ∈ s'.tasks := by
  rw [htasks]
  exact hl.inside

/-- A handle is copied. -/
theorem copyHandle_quiet (hs : Sound (registered s.tasks) s) (hh : h ∈ s.heap.refs)
    {owner : Option TaskId} (howner : s.owns owner = true) :
    ∃ s', s.copyHandle h h.kind owner = some s' ∧ Quiet s s' ∧ s'.tasks = s.tasks ∧
      Sound (registered s'.tasks) s' := by
  obtain ⟨s', hcopy, heq, hs'⟩ := hs.copyHandle (hs.balanced.alive_of_mem hh) h.kind howner
  have htasks : s'.tasks = s.tasks := by rw [heq]
  refine ⟨s', hcopy, ?_, htasks, htasks ▸ hs'⟩
  rw [heq]
  refine ⟨rfl, rfl, rfl, rfl, rfl, rfl, fun _ => id, fun x hx => ?_,
    (hs.filter_remains fun _ => id).symm, .refl _⟩
  rcases List.mem_cons.mp hx with rfl | hx
  · exact ⟨h, hh, rfl⟩
  · exact ⟨x, hx, rfl⟩

theorem replaceHandle_targets (hh : h ∈ s.heap.refs) (htask : h'.task = h.task) :
    ∀ x ∈ (s.replaceHandle h h').heap.refs, ∃ y ∈ s.heap.refs, y.task = x.task := by
  intro x hx
  rcases List.mem_cons.mp hx with rfl | hx
  · exact ⟨h, hh, htask.symm⟩
  · exact ⟨x, List.mem_of_mem_erase hx, rfl⟩

/-! ### New tasks -/

theorem Linked.posted (hl : Linked s) : Linked s.posted := by
  have hne : ∀ {x}, x < s.next → x ≠ s.next := fun hx => Nat.ne_of_lt hx
  have hlt : ∀ w ∈ s.waiting, w.handle.task < s.next := fun w hw =>
    hl.sound.lt_of_alive (hl.sound.balanced.alive_of_mem (hl.sound.mem_refs hw))
  have hlt' : ∀ x ∈ s.tasks, x < s.next :=
    fun x hx => hl.sound.lt_of_alive (hl.sound.alive_of_registered hx)
  refine ⟨hl.sound.posted, hl.accounted, fun p hp => ?_, hl.coros, fun w hw hmem => ?_,
    fun w hw hmem => ?_, fun x hx hdone c hc => ?_⟩
  · obtain ⟨hp', hdone⟩ := hl.past p hp
    exact ⟨Nat.lt_succ_of_lt hp', by simpa [Tasks.posted, hne hp'] using hdone⟩
  · refine List.mem_cons_of_mem _ (hl.inside w hw ?_)
    exact (List.mem_cons.mp hmem).resolve_left (hne (hlt w hw))
  · have hmem' := (List.mem_cons.mp hmem).resolve_left (hne (hlt w hw))
    simpa [Tasks.posted, hne (hlt w hw)] using hl.awaited w hw hmem'
  · rcases List.mem_cons.mp hx with rfl | hx
    · simp [Tasks.posted, Promise.init] at hc
    · have hold := hne (hlt' x hx)
      simp only [Tasks.posted, Function.update_of_ne hold] at hdone hc
      exact hl.continued x hx hdone c hc

/-- A task that has just been made, and that no coroutine awaits yet, has its first handle. -/
theorem Linked.spawned (hl : Linked s) {owner : Option TaskId} (howner : s.owns owner = true) :
    Linked (s.spawned owner) := by
  have hp := hl.posted
  exact ⟨hl.sound.spawned howner, hp.accounted, hp.past, hp.coros, hp.inside, hp.awaited,
    hp.continued⟩

/-- The queue does not matter. -/
theorem Linked.queue (hl : Linked s) (queue : List TaskId) : Linked { s with runQueue := queue } :=
  ⟨⟨hl.sound.balanced, hl.sound.fresh, hl.sound.held, hl.sound.placed, hl.sound.nodup⟩,
    hl.accounted, hl.past, hl.coros, hl.inside, hl.awaited, hl.continued⟩

/-! ### Awaiting -/

/-- The promise of a task changes, but for the continuation; it does not get undone. -/
theorem Linked.setPromise (hl : Linked s) {p : Promise}
    (hp : p.continuation = (s.promise t).continuation)
    (hdone : (s.promise t).done = true → p.done = true) : Linked (s.setPromise t p) := by
  have hcont : ∀ x, ((s.setPromise t p).promise x).continuation = (s.promise x).continuation := by
    intro x
    rcases eq_or_ne x t with rfl | hne
    · simp [Tasks.setPromise, hp]
    · simp [Tasks.setPromise, hne]
  have hstill : ∀ x, (s.promise x).done = true → ((s.setPromise t p).promise x).done = true := by
    intro x hx
    rcases eq_or_ne x t with rfl | hne
    · simpa [Tasks.setPromise] using hdone hx
    · simpa [Tasks.setPromise, hne] using hx
  have hs := hl.sound
  refine ⟨⟨hs.balanced, hs.fresh, hs.held, hs.placed, hs.nodup⟩, hl.accounted, fun q hq => ?_,
    hl.coros, hl.inside, fun w hw hmem => ?_, fun x hx hx' c hc => ?_⟩
  · exact ⟨(hl.past q hq).1, hstill _ (hl.past q hq).2⟩
  · rw [hcont]
    exact hl.awaited w hw hmem
  · rw [hcont] at hc
    refine hl.continued x hx ?_ c hc
    by_contra hcon
    exact absurd (hx'.symm.trans (hstill x (by simpa using hcon))) (by simp)

/-- A handle is marked that has been awaited. -/
theorem Linked.awaitResume (hl : Linked s) (hidle : s.idle h = true) :
    Linked (s.awaitResume h) := by
  have hs := hl.sound.awaitResume hidle
  obtain ⟨rethrown, heq⟩ := awaitResume_eq (s := s) h
  rw [heq] at hs ⊢
  exact ⟨hs, hl.accounted, hl.past, hl.coros, hl.inside, hl.awaited, hl.continued⟩

theorem idle_mem (hidle : s.idle h = true) : h ∈ s.heap.refs := by
  have hlt : (s.waiting.map Waiter.handle).count h < s.heap.refs.count h := by
    simpa [idle] using hidle
  exact List.count_pos_iff.mp (by omega)

/-- A handle to a task in `tasks_` is not the only claim. -/
theorem Sound.two_le (hs : Sound (registered s.tasks) s) (hh : h ∈ s.heap.refs)
    (ht : h.task ∈ s.tasks) : 2 ≤ s.heap.count h.task := by
  have hcount := hs.balanced.count h.task
  have hpos : 0 < s.heap.refs.countP fun x => x.task = h.task :=
    List.countP_pos_iff.mpr ⟨h, hh, by simp⟩
  rw [registered, if_pos ht] at hcount
  omega

theorem allows_await (hop : s.allows (.await h c g) = true) :
    s.idle h = true ∧ s.runs g = true ∧ (∀ t, h.owner = some t → t = g) ∧
    c ∉ s.waiting.map Waiter.coro := by
  simp only [allows, Bool.and_eq_true, decide_eq_true_eq] at hop
  obtain ⟨⟨⟨⟨-, hidle⟩, hruns⟩, howner⟩, hc⟩ := hop
  exact ⟨hidle, hruns, fun t ht => by simpa [ht] using howner, hc⟩

theorem mem_of_runs (hruns : s.runs t = true) : t ∈ s.tasks := by
  simp only [runs, Bool.and_eq_true, decide_eq_true_eq] at hruns
  exact hruns.1.1

theorem not_done_of_runs (hruns : s.runs t = true) : (s.promise t).done = false := by
  simp only [runs, Bool.and_eq_true, Bool.not_eq_true'] at hruns
  exact hruns.1.2

theorem ne_of_runs (hruns : s.runs t = true) : ∀ w ∈ s.waiting, w.task ≠ t := by
  simp only [runs, Bool.and_eq_true, List.all_eq_true, decide_eq_true_eq] at hruns
  exact hruns.2

/-- What `await_suspend` does first: it stores the continuation. -/
def offered (s : Tasks) (h : Handle) (c : Coro) : Tasks :=
  { s.setPromise h.task { s.promise h.task with continuation := some c } with
    verdicts := s.verdicts ++ [(!decide (s.heap.count h.task < 2), decide (h.task ∈ s.tasks))] }

theorem await_of_lt (hcount : s.heap.count h.task < 2) (c : Coro) (g : TaskId) :
    s.await h c g = (s.offered h c).awaitResume h := if_pos (decide_eq_true hcount)

theorem await_of_not_lt (hcount : ¬s.heap.count h.task < 2) (c : Coro) (g : TaskId) :
    s.await h c g = { s.offered h c with
      waiting := ⟨c, h, g⟩ :: s.waiting
      suspended := (c, h.task) :: s.suspended } := if_neg fun hlt => hcount (of_decide_eq_true hlt)

theorem offered_done (s : Tasks) (h : Handle) (c : Coro) (t : TaskId) :
    ((s.offered h c).promise t).done = (s.promise t).done := by
  rcases eq_or_ne t h.task with rfl | hne
  · simp [offered, setPromise]
  · simp [offered, setPromise, hne]

theorem offered_of_ne (hne : t ≠ h.task) : (s.offered h c).promise t = s.promise t := by
  simp [offered, setPromise, hne]

theorem offered_continuation (s : Tasks) (h : Handle) (c : Coro) :
    ((s.offered h c).promise h.task).continuation = some c := by
  simp [offered, setPromise]

/-- What an await leaves as it is after the continuation has been offered. -/
theorem await_keeps_offered (s : Tasks) (h : Handle) (c : Coro) (g : TaskId) :
    (s.await h c g).promise = (s.offered h c).promise ∧
    (s.await h c g).verdicts = (s.offered h c).verdicts ∧
    (s.await h c g).next = s.next ∧ (s.await h c g).runQueue = s.runQueue := by
  by_cases hcount : s.heap.count h.task < 2
  · obtain ⟨rethrown, heq⟩ := awaitResume_eq (s := s.offered h c) h
    rw [await_of_lt hcount, heq]
    exact ⟨rfl, rfl, rfl, rfl⟩
  · rw [await_of_not_lt hcount]
    exact ⟨rfl, rfl, rfl, rfl⟩

/-- **A handle is awaited** that is the only one to a task that has ended. -/
theorem Linked.await_ended (hl : Linked s) (hidle : s.idle h = true)
    (hcount : s.heap.count h.task < 2) (c : Coro) (g : TaskId) :
    Linked (s.await h c g) ∧ (s.await h c g).waiting = s.waiting := by
  have hs := hl.sound
  -- this handle and `tasks_` would be two claims
  have hnot : h.task ∉ s.tasks := fun ht => absurd (hs.two_le (idle_mem hidle) ht) (by omega)
  have hne : ∀ {x}, x ∈ s.tasks → x ≠ h.task := by
    rintro x hx rfl
    exact hnot hx
  -- the continuation that is left there is of no consequence
  have hset : Linked (s.offered h c) := by
    refine ⟨⟨hs.balanced, hs.fresh, hs.held, hs.placed, hs.nodup⟩, hl.accounted, fun p hp => ?_,
      hl.coros, hl.inside, fun w hw hmem => ?_, fun x hx hx' d hd => ?_⟩
    · rw [offered_done]
      exact hl.past p hp
    · rw [offered_of_ne (hne hmem)]
      exact hl.awaited w hw hmem
    · rw [offered_of_ne (hne hx)] at hx' hd
      exact hl.continued x hx hx' d hd
  rw [await_of_lt hcount]
  refine ⟨hset.awaitResume hidle, ?_⟩
  obtain ⟨rethrown, hresume⟩ := awaitResume_eq (s := s.offered h c) h
  rw [hresume]
  rfl

/-- **A handle is awaited** that is not the only claim: the coroutine becomes the continuation. -/
theorem Linked.await_suspends (hl : Linked s) (hop : s.allows (.await h c g) = true)
    (hcount : ¬s.heap.count h.task < 2) :
    Linked (s.await h c g) ∧ (s.await h c g).waiting = ⟨c, h, g⟩ :: s.waiting := by
  obtain ⟨hidle, hruns, howner, hc⟩ := allows_await hop
  have hs := hl.sound
  have hgmem := mem_of_runs hruns
  have hsound := hs.await hidle (hs.alive_of_registered hgmem) howner c
  have htasks := (await_keeps (s := s) h c g).1
  rw [← htasks] at hsound
  rw [await_of_not_lt hcount] at hsound ⊢
  refine ⟨⟨hsound, ?_, fun p hp => ?_, List.nodup_cons.mpr ⟨hc, hl.coros⟩, fun w hw hmem => ?_,
    fun w hw hmem => ?_, fun x hx hx' d hd => ?_⟩, rfl⟩
  · exact (hl.accounted.cons _).trans List.perm_middle.symm
  · exact ⟨(hl.past p hp).1, (offered_done s h c p.2).trans (hl.past p hp).2⟩
  · rcases List.mem_cons.mp hw with rfl | hw
    · exact hgmem
    · exact hl.inside w hw hmem
  -- the continuation is overwritten, so there is one for all that wait for the task
  · rcases eq_or_ne w.handle.task h.task with hw' | hne
    · exact ⟨c, hw' ▸ offered_continuation s h c⟩
    · rcases List.mem_cons.mp hw with rfl | hw
      · exact absurd rfl hne
      · obtain ⟨d, hd⟩ := hl.awaited w hw hmem
        exact ⟨d, (congrArg Promise.continuation (offered_of_ne hne)).trans hd⟩
  · rcases eq_or_ne x h.task with rfl | hne
    · refine ⟨⟨c, h, g⟩, List.mem_cons_self, ?_⟩
      obtain rfl : c = d := Option.some.inj ((offered_continuation s h c).symm.trans hd)
      rfl
    · have hkeep : (s.offered h c).promise x = s.promise x := offered_of_ne hne
      obtain ⟨w, hw, hon⟩ := hl.continued x hx ((congrArg Promise.done hkeep).symm.trans hx') d
        ((congrArg Promise.continuation hkeep).symm.trans hd)
      exact ⟨w, List.mem_cons_of_mem _ hw, hon⟩

/-! ### The end of a task -/

/-- The coroutine is resumed that was suspended for the task. -/
theorem Linked.resumeContinuation (hl : Linked s) {w : Waiter} (hw : w ∈ s.waiting)
    (hon : w.on = (c, t)) (ht : t < s.next) (hdone : (s.promise t).done = true)
    (hnot : t ∉ s.tasks) : ∃ refs rethrown, s.resumeContinuation t (some c) = { s with
        resumed := (c, t) :: s.resumed
        waiting := s.waiting.erase w
        heap := { s.heap with refs := refs }
        rethrown := rethrown } ∧
      (∀ h ∈ refs, ∃ h' ∈ s.heap.refs, h'.task = h.task) ∧
      Linked (s.resumeContinuation t (some c)) := by
  obtain ⟨hcoro, htask⟩ := Prod.mk.inj hon
  -- no other coroutine has this name
  have hfind : s.waiting.find? (fun x => decide (x.coro = c)) = some w := by
    cases hfound : s.waiting.find? fun x => decide (x.coro = c) with
    | none =>
      exact absurd hcoro (by simpa using List.find?_eq_none.mp hfound w hw)
    | some x =>
      have hx : x.coro = c := by simpa using List.find?_some hfound
      rw [List.inj_on_of_nodup_map hl.coros (List.mem_of_find?_eq_some hfound) hw
        (hx.trans hcoro.symm)]
  have hsound := hl.sound.resumeContinuation t (some c)
  have htasks := (resumeContinuation_keeps (s := s) t (some c)).1
  rw [← htasks] at hsound
  obtain ⟨rethrown, hresume⟩ := awaitResume_eq
    (s := { s with resumed := (c, t) :: s.resumed, waiting := s.waiting.erase w }) w.handle
  have heq : s.resumeContinuation t (some c) = { s with
      resumed := (c, t) :: s.resumed
      waiting := s.waiting.erase w
      heap := (s.replaceHandle w.handle { w.handle with kind := .spawnAwaitable true }).heap
      rethrown := rethrown } := by
    rw [Tasks.resumeContinuation]
    simp only [hfind]
    rw [hresume]
    rfl
  refine ⟨_, rethrown, heq, replaceHandle_targets (hl.sound.mem_refs hw) rfl, ?_⟩
  have hother : ∀ x ∈ s.waiting, x.handle.task ≠ t → x ∈ s.waiting.erase w := by
    intro x hx hne
    refine (List.mem_erase_of_ne ?_).mpr hx
    rintro rfl
    exact hne htask
  rw [heq] at hsound ⊢
  refine ⟨hsound, ?_, fun p hp => ?_, hl.coros.sublist (List.erase_sublist.map _), fun x hx => ?_,
    fun x hx => ?_, fun x hx hx' d hd => ?_⟩
  · have hperm := (List.perm_cons_erase hw).map Waiter.on
    rw [List.map_cons, hon] at hperm
    exact hl.accounted.trans (((hperm.append_right _).append_left _).trans List.perm_middle)
  · rcases List.mem_cons.mp hp with rfl | hp
    · exact ⟨ht, hdone⟩
    · exact hl.past p hp
  · exact hl.inside x (List.mem_of_mem_erase hx)
  · exact hl.awaited x (List.mem_of_mem_erase hx)
  -- the coroutine that goes waited for a task that is not in `tasks_`
  · obtain ⟨y, hy, hyon⟩ := hl.continued x hx hx' d hd
    refine ⟨y, hother y hy ?_, hyon⟩
    rintro htask'
    have hxt : y.handle.task = x := congrArg Prod.snd hyon
    exact hnot ((hxt.symm.trans htask') ▸ hx)

/-- What the end of a task comes to for those who await it. -/
structure Ended (s s' : Tasks) (t : TaskId) : Prop where
  linked : Linked s'
  promise : s'.promise = Function.update s.promise t { s.promise t with done := true }
  next : s'.next = s.next
  runQueue : s'.runQueue = s.runQueue
  verdicts : s'.verdicts = s.verdicts
  tasks : s'.tasks = s.tasks.erase t
  targets : ∀ h ∈ s'.heap.refs, ∃ h' ∈ s.heap.refs, h'.task = h.task
  waiting : ∀ w ∈ s'.waiting, w ∈ s.waiting
  awaiters : s'.awaiters t = s.awaiters t - 1

/-- **A task ends**: one of the coroutines is resumed that are suspended for it, if there are
any. -/
theorem Linked.finalSuspend (hl : Linked s) (hruns : s.runs t = true) :
    ∃ s', s.finalSuspend t = some s' ∧ Ended s s' t := by
  have ht := mem_of_runs hruns
  have hmarked := hl.setPromise (t := t) (p := { s.promise t with done := true }) rfl fun _ => rfl
  obtain ⟨s₁, gone, heq, hd, htasks, hs₁, -⟩ := finalSuspend_spec hl.sound ht
  have hq : Quiet (s.setPromise t { s.promise t with done := true }) s₁ :=
    hd.quiet (htasks ▸ List.erase_subset)
  -- a task that ends has no coroutine that waits
  have hstays : ∀ w ∈ s.waiting, w.handle.task ∈ s₁.tasks → w.task ∈ s₁.tasks := by
    intro w hw hmem
    rw [htasks] at hmem ⊢
    exact (List.mem_erase_of_ne (ne_of_runs hruns w hw)).mpr
      (hl.inside w hw (List.mem_of_mem_erase hmem))
  have hl₁ : Linked s₁ := hq.linked hmarked hs₁ hstays
  have hnot : t ∉ s₁.tasks := by
    rw [htasks]
    exact hl.sound.nodup.not_mem_erase
  have hnext : s₁.next = s.next := hd.next
  have hdone : (s₁.promise t).done = true := by
    rw [hd.promise]
    simp [Tasks.setPromise]
  -- those that are suspended for the task belong to tasks that go on
  have hremain : ∀ w ∈ s.waiting, w.handle.task = t → w ∈ s₁.waiting := by
    intro w hw htask
    rw [hd.waiting]
    refine List.mem_filter.mpr ⟨hw, hs₁.alive_of_registered ?_⟩
    rw [htasks]
    exact (List.mem_erase_of_ne (ne_of_runs hruns w hw)).mpr (hl.inside w hw (htask ▸ ht))
  have hsame : s₁.awaiters t = s.awaiters t := by
    unfold awaiters
    rw [hd.waiting, List.countP_filter]
    refine List.countP_congr fun w hw => ?_
    simp only [Bool.and_eq_true, decide_eq_true_eq, and_iff_left_iff_imp]
    intro htask
    have hmem := hremain w hw htask
    rw [hd.waiting] at hmem
    exact (List.mem_filter.mp hmem).2
  have hold : ∀ w ∈ s₁.waiting, w ∈ s.waiting := by
    intro w hw
    rw [hd.waiting] at hw
    exact List.mem_of_mem_filter hw
  refine ⟨_, heq, ?_⟩
  cases hcont : (s.promise t).continuation with
  | none =>
    have hnobody : s.awaiters t = 0 := by
      refine List.countP_eq_zero.mpr fun w hw htask => ?_
      obtain rfl : w.handle.task = t := by simpa using htask
      obtain ⟨c, hc⟩ := hl.awaited w hw ht
      simp [hcont] at hc
    refine ⟨hl₁, hd.promise, hd.next, hd.runQueue, hd.verdicts, htasks, hq.targets, hold, ?_⟩
    rw [Tasks.resumeContinuation, hsame, hnobody]
  | some c =>
    obtain ⟨w, hw, hon⟩ := hl.continued t ht (not_done_of_runs hruns) c hcont
    have htask : w.handle.task = t := congrArg Prod.snd hon
    obtain ⟨refs, rethrown, hresume, htargets, hl'⟩ :=
      hl₁.resumeContinuation (hremain w hw htask) hon
      (hnext ▸ hl.sound.lt_of_alive (hl.sound.alive_of_registered ht)) hdone hnot
    have htargets' : ∀ h ∈ refs, ∃ h' ∈ s.heap.refs, h'.task = h.task := by
      intro h hh
      obtain ⟨h₁, hh₁, htask₁⟩ := htargets h hh
      obtain ⟨h₀, hh₀, htask₀⟩ := hq.targets h₁ hh₁
      exact ⟨h₀, hh₀, htask₀.trans htask₁⟩
    rw [hresume] at hl' ⊢
    refine ⟨hl', hd.promise, hd.next, hd.runQueue, hd.verdicts, htasks, htargets',
      fun x hx => ?_, ?_⟩
    · exact hold x (List.mem_of_mem_erase hx)
    · rw [← hsame]
      unfold awaiters
      rw [(List.perm_cons_erase (hremain w hw htask)).countP_eq,
        List.countP_cons_of_pos (by simpa using htask)]
      rfl

/-- The exception of a task is kept, and the task ends. -/
theorem Linked.fail (hl : Linked s) (hruns : s.runs t = true) {e : Exn}
    (hcount : 1 < s.heap.count t) : ∃ s', s.fail t e = some (s', none) ∧
      Ended (s.setPromise t { s.promise t with error := some e }) s' t := by
  have hset := hl.setPromise (t := t) (p := { s.promise t with error := some e }) rfl id
  have hruns' : (s.setPromise t { s.promise t with error := some e }).runs t = true := by
    simp only [runs, setPromise_self] at hruns ⊢
    exact hruns
  obtain ⟨s', heq, he⟩ := hset.finalSuspend hruns'
  refine ⟨s', ?_, he⟩
  rw [Tasks.fail, if_pos hcount, heq]
  rfl

/-! ### What a step does -/

/-- A handle is made, given away or destroyed, or two handles are assigned. -/
def onlyHandles : TaskOp → Bool
  | .copyHandle .. | .giveHandle .. | .assignHandle .. | .destroyHandle _ => true
  | _ => false

/-- What there is to say about a step to those who only follow the tasks and who awaits them. -/
inductive Effect (s : Tasks) : TaskOp → Tasks → Option Exn → Prop
  | spawned {owner : Option TaskId} (howner : s.owns owner = true) : Effect s (.spawn owner)
    (s.spawned owner) none
  | posted : Effect s .post s.posted none
  | quiet {op : TaskOp} {s' : Tasks} (hop : onlyHandles op = true) (hq : Quiet s s')
      (htasks : s'.tasks = s.tasks) : Effect s op s' none
  | awaited {h : Handle} {c : Coro} {g : TaskId} : Effect s (.await h c g) (s.await h c g) none
  | finished {t : TaskId} {s' : Tasks} (he : Ended s s' t) : Effect s (.finish t) s' none
  /-- The exception is kept for those who have a handle. -/
  | failed {t : TaskId} {e : Exn} {s' : Tasks} (hcount : 1 < s.heap.count t)
      (he : Ended (s.setPromise t { s.promise t with error := some e }) s' t) :
      Effect s (.fail t e) s' none
  /-- There is no handle, and the exception leaves `resume`. -/
  | escaped {t : TaskId} {e : Exn} (hcount : ¬1 < s.heap.count t) :
      Effect s (.fail t e) (s.setPromise t { s.promise t with done := true }) (some e)
  | cleared {order : List TaskId} {s' : Tasks} (hq : Quiet s s') (htasks : s'.tasks = []) :
      Effect s (.clear order) s' none

/-- **Each step has its effect**, and the continuations stay in order. -/
theorem Linked.perform (hl : Linked s) (hop : s.allows op = true) :
    ∃ s' e, s.perform op = some (s', e) ∧ Effect s op s' e ∧ Linked s' := by
  have hs := hl.sound
  cases op with
  | spawn owner =>
    refine ⟨_, none, ?_, .spawned hop, hl.spawned hop⟩
    rw [Tasks.perform, spawn_eq hs]
    rfl
  | post =>
    refine ⟨_, none, ?_, .posted, hl.posted⟩
    rw [Tasks.perform, post_eq hs]
    rfl
  | copyHandle h owner =>
    simp only [allows, Bool.and_eq_true, decide_eq_true_eq] at hop
    obtain ⟨s', hcopy, hq, htasks, hs'⟩ := copyHandle_quiet hs hop.1 hop.2
    refine ⟨s', none, ?_, .quiet rfl hq htasks, hq.linked hl hs' (hl.stays htasks)⟩
    rw [Tasks.perform, hcopy]
    rfl
  | giveHandle h owner =>
    simp only [allows, Bool.and_eq_true] at hop
    have hs' : Sound (registered s.tasks) (s.replaceHandle h { h with owner := owner }) := by
      refine hs.replaceHandle hop.1 rfl ?_
      rintro ⟨g, rfl, hdead⟩
      exact absurd (hop.2.symm.trans hdead) (by simp)
    have hq : Quiet s (s.replaceHandle h { h with owner := owner }) :=
      ⟨rfl, rfl, rfl, rfl, rfl, rfl, fun _ => id, replaceHandle_targets (idle_mem hop.1) rfl,
        (hs.filter_remains fun _ => id).symm, .refl _⟩
    exact ⟨_, none, rfl, .quiet rfl hq rfl, hq.linked hl hs' (hl.stays rfl)⟩
  | assignHandle h h' =>
    simp only [allows, Bool.and_eq_true, decide_eq_true_eq] at hop
    obtain ⟨⟨⟨hidle, hmem⟩, howner⟩, howner'⟩ := hop
    obtain ⟨s₁, gone, s', heq, hd, htasks, -, hcopy, htasks', hs'⟩ := hs.assignHandle hidle hmem
      (fun g hg => by simpa [hg] using howner) (fun g hg => by simpa [hg] using howner')
    have hq₁ := hd.quiet fun x hx => htasks ▸ hx
    have hq : Quiet s s' := by
      rw [copyHandle_eq hcopy]
      refine ⟨hq₁.promise, hq₁.next, hq₁.runQueue, hq₁.verdicts, hq₁.suspended, hq₁.resumed,
        hq₁.tasks, fun x hx => ?_, hq₁.waiting, hq₁.kept⟩
      rcases List.mem_cons.mp hx with rfl | hx
      · exact ⟨h', List.mem_of_mem_erase hmem, rfl⟩
      · obtain ⟨y, hy, htask⟩ := hq₁.targets x hx
        exact ⟨y, List.mem_of_mem_erase hy, htask⟩
    have hsame := htasks'.trans htasks
    refine ⟨s', none, ?_, .quiet rfl hq hsame, hq.linked hl hs' (hl.stays hsame)⟩
    rw [Tasks.perform, heq]
    rfl
  | destroyHandle h =>
    obtain ⟨s', gone, heq, hd, htasks, hs', -⟩ := destroyHandle_spec hs hop
    have hq : Quiet s s' := hd.quiet fun x hx => htasks ▸ hx
    rw [← htasks] at hs'
    refine ⟨s', none, ?_, .quiet rfl hq htasks, hq.linked hl hs' (hl.stays htasks)⟩
    rw [Tasks.perform, heq]
    rfl
  | await h c g =>
    refine ⟨_, none, rfl, .awaited, ?_⟩
    by_cases hcount : s.heap.count h.task < 2
    · exact (hl.await_ended (allows_await hop).1 hcount c g).1
    · exact (hl.await_suspends hop hcount).1
  | finish t =>
    obtain ⟨s', heq, he⟩ := hl.finalSuspend hop
    refine ⟨s', none, ?_, .finished he, he.linked⟩
    rw [Tasks.perform, heq]
    rfl
  | fail t e =>
    by_cases hcount : 1 < s.heap.count t
    · obtain ⟨s', heq, he⟩ := hl.fail hop hcount
      exact ⟨s', none, heq, .failed hcount he, he.linked⟩
    · refine ⟨_, some e, ?_, .escaped hcount, hl.setPromise rfl fun _ => rfl⟩
      rw [Tasks.perform, Tasks.fail, if_neg hcount]
  | clear order =>
    obtain ⟨s', gone, heq, hd, hnone, hs', -⟩ := clear_spec hs (by simpa [allows] using hop)
    have hq : Quiet s s' := hd.quiet (by rw [hnone]; exact List.nil_subset _)
    refine ⟨s', none, ?_, .cleared hq hnone, hq.linked hl hs' fun w _ hmem => ?_⟩
    · rw [Tasks.perform, heq]
      rfl
    · rw [hnone] at hmem
      exact absurd hmem List.not_mem_nil

theorem Linked.clear {order : List TaskId} (hl : Linked s) (horder : order.Perm s.tasks)
    (hclear : s.clear order = some s') : Linked s' := by
  have hop : s.allows (.clear order) = true := decide_eq_true horder
  obtain ⟨s'', e, hperform, -, hl'⟩ := hl.perform hop
  rw [Tasks.perform, hclear, Option.map_some] at hperform
  obtain ⟨rfl, -⟩ := Prod.mk.inj (Option.some.inj hperform)
  exact hl'

theorem step_effect (hl : Linked s) (hstep : s.step op = some s') :
    s.allows op = true ∧ ∃ e, Effect s op s' e ∧ Linked s' := by
  rw [step] at hstep
  split_ifs at hstep with hop
  obtain ⟨s'', e, hperform, heffect, hl'⟩ := hl.perform hop
  rw [hperform, Option.map_some, Option.some.injEq] at hstep
  exact ⟨hop, e, hstep ▸ heffect, hstep ▸ hl'⟩

end Tasks

end Fiona
