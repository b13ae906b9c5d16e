import Fiona.Context.Task

/-!
# Who owns the frames of tasks

The counter of a task is the number of handles that refer to it, and one more while the task is in
`tasks_` (`Fiona.Tasks.Sound`). All functions keep this, whatever the graph of handles looks like;
the argument about destructors that run other destructors is `RefCount.Balanced.destroyRefs`.
-/

namespace Fiona

open RefCount Transition

namespace Tasks

variable {s s' : Tasks} {ext ext' : TaskId → Nat} {gone : List Handle} {h h' : Handle} {t : TaskId}
  {op : TaskOp}

/-- The claims of `tasks_`. -/
def registered (tasks : List TaskId) (t : TaskId) : Nat := if t ∈ tasks then 1 else 0

theorem registered_nil : registered [] = fun _ => 0 := funext fun _ => if_neg List.not_mem_nil

theorem registered_erase {tasks : List TaskId} (hnodup : tasks.Nodup) (ht : t ∈ tasks)
    (x : TaskId) : registered tasks x = registered (tasks.erase t) x + if x = t then 1 else 0 := by
  unfold registered
  rcases eq_or_ne x t with rfl | hne
  · rw [if_pos ht, if_pos rfl, if_neg hnodup.not_mem_erase]
  · rw [if_neg hne, Nat.add_zero]
    exact if_congr (List.mem_erase_of_ne hne).symm rfl rfl

/-- What holds of the tasks of a context, with the claims `ext` to them beside the handles. -/
structure Sound (ext : TaskId → Nat) (s : Tasks) : Prop where
  balanced : Balanced Handle.task Handle.owner ext [] s.heap
  fresh : ∀ t, s.next ≤ t → s.heap.count t = 0
  held : ∀ h, (s.waiting.map Waiter.handle).count h ≤ s.heap.refs.count h
  placed : ∀ w ∈ s.waiting, s.heap.alive w.task = true ∧ ∀ g, w.handle.owner = some g → g = w.task
  nodup : s.tasks.Nodup

theorem sound_init : Sound (registered init.tasks) init where
  balanced := ⟨fun _ => rfl, by simp [init], by simp, by simp [init], by simp⟩
  fresh := by simp [init]
  held := by simp [init]
  placed := by simp [init]
  nodup := List.nodup_nil

theorem Sound.lt_of_alive (hs : Sound ext s) (ht : s.heap.alive t = true) : t < s.next := by
  by_contra hcon
  have hzero := hs.fresh t (Nat.not_lt.mp hcon)
  have hpos := (hs.balanced.alive t).mp ht
  omega

theorem Sound.alive_of_registered (hs : Sound (registered s.tasks) s) (ht : t ∈ s.tasks) :
    s.heap.alive t = true := by
  refine hs.balanced.alive_of_ext ?_
  rw [registered, if_pos ht]
  exact Nat.one_pos

/-! ### Destruction -/

/-- What a destruction leaves as it was, apart from `tasks_`, and what it changes: the handles in
`gone` have been destroyed, one after the other. -/
structure Destroyed (s s' : Tasks) (gone : List Handle) : Prop where
  promise : s'.promise = s.promise
  next : s'.next = s.next
  runQueue : s'.runQueue = s.runQueue
  verdicts : s'.verdicts = s.verdicts
  suspended : s'.suspended = s.suspended
  resumed : s'.resumed = s.resumed
  rethrown : s'.rethrown = s.rethrown
  exceptionPtr : s'.exceptionPtr =
    gone.foldl (fun ep h => handleDestructor s.promise h ep) s.exceptionPtr
  refs : s.heap.refs.Perm (gone ++ s'.heap.refs)
  waiting : s'.waiting = s.waiting.filter (remains s'.heap)
  kept : (s'.waiting.map Waiter.on ++ s'.dropped).Perm (s.waiting.map Waiter.on ++ s.dropped)
  alive : ∀ t, s'.heap.alive t = true → s.heap.alive t = true

/-- The coroutines that wait go on waiting, or are destroyed. -/
theorem perm_filter_remains (ws : List Waiter) (dropped : List (Coro × TaskId))
    (heap : Heap TaskId Handle) : ((ws.filter (remains heap)).map Waiter.on ++
      ((ws.filter fun w => !remains heap w).map Waiter.on ++ dropped)).Perm
      (ws.map Waiter.on ++ dropped) := by
  rw [← List.append_assoc, ← List.map_append]
  exact ((List.filter_append_perm (remains heap) ws).map _).append_right _

/-- No coroutine is left waiting in a handle that is gone. -/
theorem Destroyed.held (hd : Destroyed s s' gone)
    (hplaced : ∀ w ∈ s.waiting, ∀ g, w.handle.owner = some g → g = w.task)
    (hgone : ∀ h, ¬Orphan Handle.owner s'.heap h →
      (s.waiting.map Waiter.handle).count h + gone.count h ≤ s.heap.refs.count h) (h : Handle) :
    (s'.waiting.map Waiter.handle).count h ≤ s'.heap.refs.count h := by
  rw [hd.waiting]
  by_cases horphan : Orphan Handle.owner s'.heap h
  -- a coroutine in a handle whose frame is gone belonged to the same task, and is gone with it
  · have hnone : h ∉ (s.waiting.filter (remains s'.heap)).map Waiter.handle := by
      intro hmem
      obtain ⟨w, hw, rfl⟩ := List.mem_map.mp hmem
      obtain ⟨g, hg, hdead⟩ := horphan
      obtain ⟨hw, hremains⟩ := List.mem_filter.mp hw
      rw [hplaced w hw g hg] at hdead
      exact absurd (hremains.symm.trans hdead) (by simp)
    rw [List.count_eq_zero_of_not_mem hnone]
    exact Nat.zero_le _
  · have hsub : ((s.waiting.filter (remains s'.heap)).map Waiter.handle).Sublist
        (s.waiting.map Waiter.handle) :=
      List.filter_sublist.map _
    have hle := hsub.count_le h
    have hcount := hd.refs.count_eq h
    have hbefore := hgone h horphan
    rw [List.count_append] at hcount
    omega

theorem Destroyed.placed (hd : Destroyed s s' gone)
    (hplaced : ∀ w ∈ s.waiting, ∀ g, w.handle.owner = some g → g = w.task) :
    ∀ w ∈ s'.waiting, s'.heap.alive w.task = true ∧ ∀ g, w.handle.owner = some g → g = w.task := by
  intro w hw
  rw [hd.waiting] at hw
  obtain ⟨hw, hremains⟩ := List.mem_filter.mp hw
  exact ⟨hremains, hplaced w hw⟩

/-- A handle in which a coroutine is suspended is there. -/
theorem Sound.mem_refs (hs : Sound ext s) {w : Waiter} (hw : w ∈ s.waiting) :
    w.handle ∈ s.heap.refs := by
  have hheld := hs.held w.handle
  have hpos : 0 < (s.waiting.map Waiter.handle).count w.handle :=
    List.count_pos_iff.mpr (List.mem_map_of_mem hw)
  exact List.count_pos_iff.mp (by omega)

theorem Sound.filter_remains (hs : Sound ext s) {heap : Heap TaskId Handle}
    (halive : ∀ t, s.heap.alive t = true → heap.alive t = true) :
    s.waiting.filter (remains heap) = s.waiting := by
  exact List.filter_eq_self.mpr fun w hw => halive _ (hs.placed w hw).1

theorem Destroyed.refl (hs : Sound ext s) : Destroyed s s [] :=
  ⟨rfl, rfl, rfl, rfl, rfl, rfl, rfl, rfl, .refl _, (hs.filter_remains fun _ => id).symm, .refl _,
    fun _ => id⟩

theorem Destroyed.trans {s'' : Tasks} {gone' : List Handle} (hd : Destroyed s s' gone)
    (hd' : Destroyed s' s'' gone') : Destroyed s s'' (gone ++ gone') where
  promise := hd'.promise.trans hd.promise
  next := hd'.next.trans hd.next
  runQueue := hd'.runQueue.trans hd.runQueue
  verdicts := hd'.verdicts.trans hd.verdicts
  suspended := hd'.suspended.trans hd.suspended
  resumed := hd'.resumed.trans hd.resumed
  rethrown := hd'.rethrown.trans hd.rethrown
  exceptionPtr := by rw [hd'.exceptionPtr, hd.exceptionPtr, hd.promise, List.foldl_append]
  refs := by
    rw [List.append_assoc]
    exact hd.refs.trans (hd'.refs.append_left _)
  waiting := by
    -- what the second destruction spares, the first one has spared
    rw [hd'.waiting, hd.waiting, List.filter_filter]
    refine List.filter_congr fun w _ => ?_
    have hle : remains s''.heap w = true → remains s'.heap w = true := hd'.alive _
    revert hle
    cases remains s''.heap w <;> simp
  kept := hd'.kept.trans hd.kept
  alive := fun t ht => hd.alive t (hd'.alive t ht)

/-- Numbers that have not been given are not in use after a destruction. -/
theorem fresh_of_alive {pend pend' : List Handle} {heap heap' : Heap TaskId Handle} {n : Nat}
    (hb : Balanced Handle.task Handle.owner ext pend heap)
    (hb' : Balanced Handle.task Handle.owner ext' pend' heap')
    (halive : ∀ t, heap'.alive t = true → heap.alive t = true)
    (hfresh : ∀ t, n ≤ t → heap.count t = 0) : ∀ t, n ≤ t → heap'.count t = 0 := by
  intro t ht
  refine hb'.count_of_dead ?_
  by_contra hcon
  have hpos := (hb.alive t).mp (halive t (by simpa using hcon))
  have hzero := hfresh t ht
  omega

/-- Where handles are pending that lie in destroyed frames, their destruction ends well. -/
theorem destroyHandles_spec {pend : List Handle}
    (hb : Balanced Handle.task Handle.owner ext pend s.heap)
    (hfresh : ∀ t, s.next ≤ t → s.heap.count t = 0)
    (hheld : ∀ h, (s.waiting.map Waiter.handle).count h ≤ s.heap.refs.count h)
    (hplaced : ∀ w ∈ s.waiting, ∀ g, w.handle.owner = some g → g = w.task)
    (hnodup : s.tasks.Nodup) : ∃ s' gone, s.destroyHandles pend = some s' ∧ Destroyed s s' gone ∧
    s'.tasks = s.tasks ∧ Sound ext s' ∧
      ∀ h ∈ gone, Orphan Handle.owner s'.heap h := by
  obtain ⟨heap, gone, heq, hperm, halive, horphans, hb'⟩ :=
    hb.destroyRefs (handleDestructor s.promise) s.exceptionPtr (Nat.le_refl _)
  have hd : Destroyed s { s with
      heap := heap
      exceptionPtr := gone.foldl (fun ep h => handleDestructor s.promise h ep) s.exceptionPtr
      waiting := s.waiting.filter (remains heap)
      dropped := (s.waiting.filter fun w => !remains heap w).map Waiter.on ++ s.dropped } gone :=
    ⟨rfl, rfl, rfl, rfl, rfl, rfl, rfl, rfl, hperm, rfl, perm_filter_remains .., halive⟩
  refine ⟨_, gone, ?_, hd, rfl, ⟨hb', fresh_of_alive hb hb' halive hfresh,
    hd.held hplaced fun h horphan => ?_, hd.placed hplaced, hnodup⟩, horphans⟩
  · rw [destroyHandles, heq]
    rfl
  -- what is gone lay in destroyed frames
  · have hnot : h ∉ gone := fun hmem => horphan (horphans h hmem)
    rw [List.count_eq_zero_of_not_mem hnot]
    exact hheld h

/-- Destroying a handle. -/
theorem destroyHandle_spec (hs : Sound ext s) (hidle : s.idle h = true) :
    ∃ s' gone, s.destroyHandle h = some s' ∧ Destroyed s s' (h :: gone) ∧ s'.tasks = s.tasks ∧
      Sound ext s' ∧ ∀ h' ∈ gone, Orphan Handle.owner s'.heap h' := by
  have hlt : (s.waiting.map Waiter.handle).count h < s.heap.refs.count h := by
    simpa [idle] using hidle
  have hmem : h ∈ s.heap.refs := List.count_pos_iff.mp (by omega)
  obtain ⟨heap, gone, heq, hperm, halive, horphans, hb'⟩ :=
    hs.balanced.destroyRef (handleDestructor s.promise) s.exceptionPtr hmem
  have hd : Destroyed s { s with
      heap := heap
      exceptionPtr := (h :: gone).foldl (fun ep h => handleDestructor s.promise h ep) s.exceptionPtr
      waiting := s.waiting.filter (remains heap)
      dropped := (s.waiting.filter fun w => !remains heap w).map Waiter.on ++ s.dropped }
        (h :: gone) :=
    ⟨rfl, rfl, rfl, rfl, rfl, rfl, rfl, rfl, hperm, rfl, perm_filter_remains .., halive⟩
  have hplaced := fun w hw => (hs.placed w hw).2
  refine ⟨_, gone, ?_, hd, rfl, ⟨hb', fresh_of_alive hs.balanced hb' halive hs.fresh,
    hd.held hplaced fun x horphan => ?_, hd.placed hplaced, hs.nodup⟩, horphans⟩
  · rw [destroyHandle, if_pos hmem, destroyHandles, heq]
    rfl
  · have hnot : x ∉ gone := fun hmem => horphan (horphans x hmem)
    have hx := hs.held x
    rcases eq_or_ne x h with rfl | hne
    · rw [List.count_cons_self, List.count_eq_zero_of_not_mem hnot]
      omega
    · rw [List.count_cons_of_ne hne.symm, List.count_eq_zero_of_not_mem hnot]
      exact hx

/-- A claim to a task is given up. -/
theorem release_spec (hs : Sound ext s) (ht : 0 < ext t)
    (hext : ∀ x, ext x = ext' x + if x = t then 1 else 0) :
    ∃ s' gone, s.release t = some s' ∧ Destroyed s s' gone ∧ s'.tasks = s.tasks ∧ Sound ext' s' ∧
      ∀ h ∈ gone, Orphan Handle.owner s'.heap h := by
  obtain ⟨heap, more, hrelease, hrefs, halive, hb⟩ := hs.balanced.release ht hext
  rw [List.append_nil] at hb
  obtain ⟨s', gone, heq, hd, htasks, hs', horphans⟩ :=
    destroyHandles_spec (s := { s with heap := heap }) hb
    (fresh_of_alive hs.balanced hb halive hs.fresh) (by rw [hrefs]; exact hs.held)
    (fun w hw => (hs.placed w hw).2) hs.nodup
  refine ⟨s', gone, ?_, ⟨hd.promise, hd.next, hd.runQueue, hd.verdicts, hd.suspended, hd.resumed,
    hd.rethrown, hd.exceptionPtr, hrefs ▸ hd.refs, hd.waiting, hd.kept,
    fun x hx => halive x (hd.alive x hx)⟩, htasks, hs', horphans⟩
  rw [release, hrelease]
  exact heq

/-- `erase_task`, on a task that is there. -/
theorem eraseTask_spec (hs : Sound (registered s.tasks) s) (ht : t ∈ s.tasks) :
    ∃ s' gone, s.eraseTask t = some s' ∧ Destroyed s s' gone ∧ s'.tasks = s.tasks.erase t ∧
      Sound (registered s'.tasks) s' ∧ ∀ h ∈ gone, Orphan Handle.owner s'.heap h := by
  obtain ⟨s', gone, heq, hd, htasks, hs', horphans⟩ :=
    release_spec hs (by simp [registered, ht]) (registered_erase hs.nodup ht)
  refine ⟨{ s' with tasks := s'.tasks.erase t }, gone, ?_, ?_, ?_, ?_, horphans⟩
  · rw [eraseTask, if_pos ht, heq]
    rfl
  · exact ⟨hd.promise, hd.next, hd.runQueue, hd.verdicts, hd.suspended, hd.resumed, hd.rethrown,
      hd.exceptionPtr, hd.refs, hd.waiting, hd.kept, hd.alive⟩
  · rw [htasks]
  · rw [htasks]
    exact ⟨hs'.balanced, hs'.fresh, hs'.held, hs'.placed, hs.nodup.erase t⟩

/-- **`clear` destroys what it should**, in whatever order it finds the tasks. -/
theorem clear_spec {order : List TaskId} (hs : Sound (registered s.tasks) s)
    (horder : order.Perm s.tasks) :
    ∃ s' gone, s.clear order = some s' ∧ Destroyed s s' gone ∧ s'.tasks = [] ∧
      Sound (registered s'.tasks) s' ∧ ∀ h ∈ gone, Orphan Handle.owner s'.heap h := by
  induction order generalizing s with
  | nil =>
    have hnone : s.tasks = [] := horder.nil_eq.symm
    exact ⟨s, [], if_pos hnone, .refl hs, hnone, hs, by simp⟩
  | cons t order ih =>
    have ht : t ∈ s.tasks := horder.subset List.mem_cons_self
    obtain ⟨s₁, gone, heq, hd, htasks, hs₁, horphans⟩ := eraseTask_spec hs ht
    -- `tasks_` lists the tasks once, so none but `t` has left it, whatever else was destroyed
    have hrest : order.Perm s₁.tasks := by
      rw [htasks]
      exact (horder.trans (List.perm_cons_erase ht)).cons_inv
    obtain ⟨s', gone', heq', hd', htasks', hs', horphans'⟩ := ih hs₁ hrest
    refine ⟨s', gone ++ gone', ?_, hd.trans hd', htasks', hs', fun h hh => ?_⟩
    · rw [clear, heq]
      exact heq'
    · rcases List.mem_append.mp hh with hh | hh
      -- a frame that was destroyed on the way stays so to the end
      · obtain ⟨p, hp, hdead⟩ := horphans h hh
        exact ⟨p, hp, dead_of_dead hd'.alive hdead⟩
      · exact horphans' h hh

theorem clear_destroyed {order : List TaskId} (hs : Sound (registered s.tasks) s)
    (horder : order.Perm s.tasks) (hclear : s.clear order = some s') :
    ∃ gone, Destroyed s s' gone ∧ s'.tasks = [] ∧ Sound (registered s'.tasks) s' ∧
      ∀ h ∈ gone, Orphan Handle.owner s'.heap h := by
  obtain ⟨s₁, gone, heq, hspec⟩ := clear_spec hs horder
  obtain rfl := Option.some.inj (hclear.symm.trans heq)
  exact ⟨gone, hspec⟩

/-! ### New tasks -/

/-- What `spawn` comes to: a task that is registered and queued, with one handle. -/
def spawned (s : Tasks) (owner : Option TaskId) : Tasks :=
  { s with
    heap :=
      { count := Function.update s.heap.count s.next 2
        alive := Function.update s.heap.alive s.next true
        refs := ⟨s.next, .spawnAwaitable false, owner⟩ :: s.heap.refs }
    promise := Function.update s.promise s.next .init
    next := s.next + 1
    tasks := s.next :: s.tasks
    runQueue := s.runQueue ++ [s.next] }

/-- What processing the record of a posted task comes to. -/
def posted (s : Tasks) : Tasks :=
  { s with
    heap :=
      { count := Function.update s.heap.count s.next 1
        alive := Function.update s.heap.alive s.next true
        refs := s.heap.refs }
    promise := Function.update s.promise s.next .init
    next := s.next + 1
    tasks := s.next :: s.tasks
    runQueue := s.runQueue ++ [s.next] }

/-- An `internal_task` goes that is not the last claim to its task. -/
theorem destroyHandle_eq (hwaiting : ∀ w ∈ s.waiting, remains s.heap w = true)
    (hkind : h.kind = .internalTask) (hmem : h ∈ s.heap.refs) (halive : s.heap.alive h.task = true)
    (hcount : s.heap.count h.task ≠ 1) :
    s.destroyHandle h = some { s with heap := { s.heap with
      count := Function.update s.heap.count h.task (s.heap.count h.task - 1)
      refs := s.heap.refs.erase h } } := by
  obtain ⟨n, hn⟩ : ∃ n, s.heap.refs.length = n + 1 :=
    Nat.exists_eq_succ_of_ne_zero (Nat.ne_of_gt (List.length_pos_of_mem hmem))
  have hrelease : (s.heap.detach h).release Handle.owner h.task = some ({ s.heap with
      count := Function.update s.heap.count h.task (s.heap.count h.task - 1)
      refs := s.heap.refs.erase h }, []) := by
    have hne : s.heap.count h.task - 1 ≠ 0 := by omega
    simp [Heap.release, Heap.detach, halive, hne]
  have hhook : handleDestructor s.promise h s.exceptionPtr = s.exceptionPtr := by
    simp [handleDestructor, unawaited, hkind]
  have hnone : (s.waiting.filter fun w => !remains { s.heap with
      count := Function.update s.heap.count h.task (s.heap.count h.task - 1)
      refs := s.heap.refs.erase h } w) = [] :=
    List.filter_eq_nil_iff.mpr fun w hw => by simpa [remains] using hwaiting w hw
  have hstay : s.waiting.filter (remains { s.heap with
      count := Function.update s.heap.count h.task (s.heap.count h.task - 1)
      refs := s.heap.refs.erase h }) = s.waiting := List.filter_eq_self.mpr hwaiting
  rw [destroyHandle, if_pos hmem, destroyHandles, hn, Heap.destroyRefs, hrelease, hhook]
  cases n with
  | zero => simp [Heap.destroyRefs, hstay, hnone]
  | succ n => simp [Heap.destroyRefs, hstay, hnone]

/-- A coroutine that waits goes on waiting when a task is made. -/
theorem Sound.remains_update (hs : Sound ext s) {count : TaskId → Int} {refs : List Handle} :
    ∀ w ∈ s.waiting, remains ⟨count, Function.update s.heap.alive t true, refs⟩ w = true := by
  refine List.filter_eq_self.mp (hs.filter_remains fun t' ht' => ?_)
  rcases eq_or_ne t' t with rfl | hne
  · simp
  · simpa [hne] using ht'

theorem post_eq (hs : Sound ext s) : s.post = some s.posted := by
  simp only [post, scheduler, addTask, Heap.addRef, Heap.create, Function.update_self, if_true,
    Option.bind_eq_bind, Option.bind_some]
  rw [destroyHandle_eq hs.remains_update rfl List.mem_cons_self (Function.update_self ..)
    (by simp only [Function.update_self]; decide)]
  simp [posted]

theorem spawn_eq (hs : Sound ext s) (owner : Option TaskId) :
    s.spawn owner = some (s.spawned owner) := by
  simp only [spawn, scheduler, addTask, copyHandle, Heap.addRef, Heap.create,
    Function.update_self, if_true, Option.bind_eq_bind, Option.bind_some]
  rw [destroyHandle_eq hs.remains_update rfl (by simp) (Function.update_self ..)
    (by simp only [Function.update_self]; decide), Option.bind_some,
    destroyHandle_eq hs.remains_update rfl (by simp) (Function.update_self ..)
    (by simp only [Function.update_self]; decide)]
  simp [spawned]

/-- No frame in use has the number of the next task. -/
theorem Sound.next_not_alive (hs : Sound ext s) : s.heap.alive s.next = false := by
  by_contra hcon
  exact absurd (hs.lt_of_alive (by simpa using hcon)) (Nat.lt_irrefl _)

theorem Sound.next_notMem (hs : Sound (registered s.tasks) s) : s.next ∉ s.tasks := fun hmem =>
  absurd (hs.next_not_alive.symm.trans (hs.alive_of_registered hmem)) (by simp)

theorem Sound.posted (hs : Sound (registered s.tasks) s) :
    Sound (registered s.posted.tasks) s.posted where
  balanced := by
    refine hs.balanced.create (hs.fresh _ (Nat.le_refl _)) fun x => ?_
    unfold registered
    rcases eq_or_ne x s.next with rfl | hne
    · simp [Tasks.posted, hs.next_notMem]
    · simp [Tasks.posted, hne]
  fresh := by
    intro t ht
    have hne : t ≠ s.next := Nat.ne_of_gt ht
    simpa [Tasks.posted, hne] using hs.fresh t (Nat.le_of_lt ht)
  held := hs.held
  placed := fun w hw => ⟨hs.remains_update w hw, (hs.placed w hw).2⟩
  nodup := List.nodup_cons.mpr ⟨hs.next_notMem, hs.nodup⟩

theorem copyHandle_eq {kind : HandleKind} {owner : Option TaskId}
    (hcopy : s.copyHandle h kind owner = some s') : s' = { s with heap := { s.heap with
      count := Function.update s.heap.count h.task (s.heap.count h.task + 1)
      refs := ⟨h.task, kind, owner⟩ :: s.heap.refs } } := by
  simp only [copyHandle, Heap.addRef, Option.bind_eq_bind, Option.bind_eq_some_iff] at hcopy
  obtain ⟨heap, hheap, heq⟩ := hcopy
  split_ifs at hheap
  obtain rfl := Option.some.inj hheap
  exact (Option.some.inj heq).symm

/-- A handle is made, with a claim of its own. -/
theorem Sound.copyHandle (hs : Sound ext s) (hh : s.heap.alive h.task = true) (kind : HandleKind)
    {owner : Option TaskId} (howner : s.owns owner = true) :
    ∃ s', s.copyHandle h kind owner = some s' ∧
      s' = { s with heap := { s.heap with
        count := Function.update s.heap.count h.task (s.heap.count h.task + 1)
        refs := ⟨h.task, kind, owner⟩ :: s.heap.refs } } ∧ Sound ext s' := by
  have hlt := hs.lt_of_alive hh
  obtain ⟨heap, haddRef, -, -, hb⟩ := hs.balanced.addRef hh fun _ => rfl
  have hheap := haddRef
  rw [Heap.addRef, if_pos hh, Option.some.injEq] at hheap
  subst hheap
  have hnot : ¬Orphan Handle.owner s.heap ⟨h.task, kind, owner⟩ := by
    rintro ⟨p, rfl, hdead⟩
    exact absurd (howner.symm.trans hdead) (by simp)
  refine ⟨_, ?_, rfl, hb.attach hnot fun _ => rfl, fun t ht => ?_, fun x => ?_, hs.placed, hs.nodup⟩
  · rw [Tasks.copyHandle, haddRef]
    rfl
  · have hne : t ≠ h.task := Nat.ne_of_gt (Nat.lt_of_lt_of_le hlt ht)
    simpa [hne] using hs.fresh t ht
  · exact Nat.le_trans (hs.held x) List.count_le_count_cons

theorem Sound.spawned (hs : Sound (registered s.tasks) s) {owner : Option TaskId}
    (howner : s.owns owner = true) :
    Sound (registered (s.spawned owner).tasks) (s.spawned owner) := by
  have howner' : s.posted.owns owner = true := by
    cases owner with
    | none => rfl
    | some g =>
      rcases eq_or_ne g s.next with rfl | hne
      · simp [owns, Tasks.posted]
      · simpa [owns, Tasks.posted, hne] using howner
  obtain ⟨s', -, heq, hs'⟩ := hs.posted.copyHandle (h := ⟨s.next, .internalTask, none⟩)
    (by simp [Tasks.posted]) (.spawnAwaitable false) howner'
  have hspawned : s' = s.spawned owner := by
    rw [heq]
    simp [Tasks.posted, Tasks.spawned]
  rw [← hspawned]
  have htasks : s'.tasks = s.posted.tasks := by rw [heq]
  rw [htasks]
  exact hs'

/-- A handle in which no coroutine waits changes its kind or its owner. -/
theorem Sound.replaceHandle (hs : Sound ext s) (hidle : s.idle h = true) (htask : h'.task = h.task)
    (hnot : ¬Orphan Handle.owner s.heap h') : Sound ext (s.replaceHandle h h') := by
  have hlt : (s.waiting.map Waiter.handle).count h < s.heap.refs.count h := by
    simpa [idle] using hidle
  have hmem : h ∈ s.heap.refs := List.count_pos_iff.mp (by omega)
  have hdetach := hs.balanced.detach hmem fun _ => rfl
  refine ⟨hdetach.attach (r := h') hnot fun x => ?_, hs.fresh, fun x => ?_, hs.placed, hs.nodup⟩
  · rw [htask]
  · have hx := hs.held x
    have hcons : (s.heap.refs.erase h).count x ≤ (h' :: s.heap.refs.erase h).count x :=
      List.count_le_count_cons
    rcases eq_or_ne x h with rfl | hne
    · rw [List.count_erase_self] at hcons
      simp only [Tasks.replaceHandle]
      omega
    · rw [List.count_erase_of_ne hne] at hcons
      simp only [Tasks.replaceHandle]
      omega

theorem Sound.awaitResume (hs : Sound ext s) (hidle : s.idle h = true) :
    Sound ext (s.awaitResume h) := by
  let h' : Handle := { h with kind := .spawnAwaitable true }
  have hlt : (s.waiting.map Waiter.handle).count h < s.heap.refs.count h := by
    simpa [idle] using hidle
  have hmem : h ∈ s.heap.refs := List.count_pos_iff.mp (by omega)
  have hnew : Sound ext (s.replaceHandle h h') := hs.replaceHandle hidle rfl
    fun horphan => hs.balanced.not_orphan hmem horphan
  unfold Tasks.awaitResume
  split
  · exact ⟨hnew.balanced, hnew.fresh, hnew.held, hnew.placed, hnew.nodup⟩
  · exact hnew

theorem Sound.resumeContinuation (hs : Sound ext s) (t : TaskId) (c : Option Coro) :
    Sound ext (s.resumeContinuation t c) := by
  cases c with
  | none => exact hs
  | some c =>
    unfold Tasks.resumeContinuation
    dsimp only
    split
    · exact ⟨hs.balanced, hs.fresh, hs.held, hs.placed, hs.nodup⟩
    · rename_i w hw
      have hmem : w ∈ s.waiting := List.mem_of_find?_eq_some hw
      have hperm := (List.perm_cons_erase hmem).map Waiter.handle
      refine Sound.awaitResume ⟨hs.balanced, hs.fresh, fun x => ?_,
        fun w hw => hs.placed w (List.mem_of_mem_erase hw), hs.nodup⟩ ?_
      · have hsub : ((s.waiting.erase w).map Waiter.handle).Sublist (s.waiting.map Waiter.handle) :=
          List.erase_sublist.map _
        exact Nat.le_trans (hsub.count_le x) (hs.held x)
      · have hheld := hs.held w.handle
        rw [hperm.count_eq, List.map_cons, List.count_cons_self] at hheld
        simp only [idle, decide_eq_true_eq]
        omega

theorem Sound.await (hs : Sound ext s) (hidle : s.idle h = true) {g : TaskId}
    (hg : s.heap.alive g = true) (howner : ∀ t, h.owner = some t → t = g) (c : Coro) :
    Sound ext (s.await h c g) := by
  unfold Tasks.await
  dsimp only
  split_ifs with hended
  · exact Sound.awaitResume ⟨hs.balanced, hs.fresh, hs.held, hs.placed, hs.nodup⟩ hidle
  · refine ⟨hs.balanced, hs.fresh, fun x => ?_, List.forall_mem_cons.mpr ⟨⟨hg, howner⟩, hs.placed⟩,
      hs.nodup⟩
    have hlt : (s.waiting.map Waiter.handle).count h < s.heap.refs.count h := by
      simpa [idle] using hidle
    have hx := hs.held x
    rcases eq_or_ne x h with rfl | hne
    · simpa [setPromise] using Nat.succ_le_of_lt hlt
    · simpa [setPromise, List.count_cons_of_ne hne.symm] using hx

/-- A task reaches its final suspend point: it leaves `tasks_`, and its continuation is resumed. -/
theorem finalSuspend_spec (hs : Sound (registered s.tasks) s) (ht : t ∈ s.tasks) :
    ∃ s₁ gone, s.finalSuspend t = some (s₁.resumeContinuation t (s.promise t).continuation) ∧
      Destroyed (s.setPromise t { s.promise t with done := true }) s₁ gone ∧
      s₁.tasks = s.tasks.erase t ∧ Sound (registered s₁.tasks) s₁ ∧
      ∀ h ∈ gone, Orphan Handle.owner s₁.heap h := by
  obtain ⟨s₁, gone, heq, hd, htasks, hs₁, horphans⟩ :=
    eraseTask_spec (s := s.setPromise t { s.promise t with done := true })
      ⟨hs.balanced, hs.fresh, hs.held, hs.placed, hs.nodup⟩ ht
  refine ⟨s₁, gone, ?_, hd, htasks, hs₁, horphans⟩
  simp only [finalSuspend, heq, Option.bind_eq_bind, Option.bind_some]
  simp [setPromise]

/-- `await_resume` does no more than to mark the handle, and to note an exception that it
rethrows. -/
theorem awaitResume_eq (h : Handle) : ∃ rethrown, s.awaitResume h =
    { s.replaceHandle h { h with kind := .spawnAwaitable true } with rethrown := rethrown } := by
  unfold Tasks.awaitResume
  split <;> exact ⟨_, rfl⟩

theorem resumeContinuation_keeps (t : TaskId) (c : Option Coro) :
    (s.resumeContinuation t c).tasks = s.tasks ∧
      (s.resumeContinuation t c).heap.alive = s.heap.alive := by
  cases c with
  | none => exact ⟨rfl, rfl⟩
  | some c =>
    unfold Tasks.resumeContinuation
    dsimp only
    split
    · exact ⟨rfl, rfl⟩
    · obtain ⟨rethrown, heq⟩ := awaitResume_eq
        (s := { s with resumed := (c, t) :: s.resumed, waiting := s.waiting.erase _ }) _
      rw [heq]
      exact ⟨rfl, rfl⟩

theorem await_keeps (h : Handle) (c : Coro) (g : TaskId) :
    (s.await h c g).tasks = s.tasks ∧ (s.await h c g).heap.alive = s.heap.alive := by
  unfold Tasks.await
  dsimp only
  split_ifs
  · obtain ⟨rethrown, heq⟩ := awaitResume_eq (s := { s.setPromise h.task _ with verdicts := _ }) h
    rw [heq]
    exact ⟨rfl, rfl⟩
  · exact ⟨rfl, rfl⟩

theorem Sound.finalSuspend (hs : Sound (registered s.tasks) s) (ht : t ∈ s.tasks) :
    ∃ s', s.finalSuspend t = some s' ∧ Sound (registered s'.tasks) s' ∧
      ∀ x, s'.heap.alive x = true → s.heap.alive x = true := by
  obtain ⟨s₁, gone, heq, hd, -, hs₁, -⟩ := finalSuspend_spec hs ht
  obtain ⟨htasks, halive⟩ := resumeContinuation_keeps (s := s₁) t (s.promise t).continuation
  refine ⟨_, heq, ?_, fun x hx => hd.alive x (by rwa [halive] at hx)⟩
  rw [htasks]
  exact hs₁.resumeContinuation ..

/-- **A handle is assigned to another**: it gives up its claim, then claims the other task. -/
theorem Sound.assignHandle (hs : Sound (registered s.tasks) s) (hidle : s.idle h = true)
    (hmem : h' ∈ s.heap.refs.erase h) (howner : ∀ g, h.owner = some g → g ∈ s.tasks)
    (howner' : ∀ g, h'.owner = some g → g ∈ s.tasks) :
    ∃ s₁ gone s', s.assignHandle h h' = some s' ∧
      Destroyed { s with heap := s.heap.detach h } s₁ gone ∧ s₁.tasks = s.tasks ∧
      h' ∈ s₁.heap.refs ∧ s₁.copyHandle h' h'.kind h.owner = some s' ∧ s'.tasks = s₁.tasks ∧
      Sound (registered s'.tasks) s' := by
  have hlt : (s.waiting.map Waiter.handle).count h < s.heap.refs.count h := by
    simpa [idle] using hidle
  have hmem₀ : h ∈ s.heap.refs := List.count_pos_iff.mp (by omega)
  have hsound : Sound (fun x => registered s.tasks x + if x = h.task then 1 else 0)
      { s with heap := s.heap.detach h } := by
    refine ⟨hs.balanced.detach hmem₀ fun _ => rfl, hs.fresh, fun x => ?_, hs.placed, hs.nodup⟩
    have hx := hs.held x
    rcases eq_or_ne x h with rfl | hne
    · simp only [Heap.detach, List.count_erase_self]
      omega
    · simpa only [Heap.detach, List.count_erase_of_ne hne] using hx
  obtain ⟨s₁, gone, heq, hd, htasks, hs₁, horphans⟩ :=
    release_spec (t := h.task) hsound (by simp) fun _ => rfl
  -- the claim of `tasks_` keeps the frames in which the two handles lie
  have hregistered : ∀ g, g ∈ s.tasks → s₁.heap.alive g = true := by
    intro g hg
    refine hs₁.balanced.alive_of_ext ?_
    rw [registered, if_pos hg]
    exact Nat.one_pos
  have hstays : h' ∈ s₁.heap.refs := by
    rcases List.mem_append.mp (hd.refs.subset hmem) with hgone | hstays
    · obtain ⟨g, hg, hdead⟩ := horphans h' hgone
      simp [hregistered g (howner' g hg)] at hdead
    · exact hstays
  have howns : s₁.owns h.owner = true := by
    cases hg : h.owner with
    | none => rfl
    | some g => simpa [owns] using hregistered g (howner g hg)
  obtain ⟨s', hcopy, hs'eq, hs'⟩ := hs₁.copyHandle (hs₁.balanced.alive_of_mem hstays) h'.kind howns
  have htasks' : s'.tasks = s₁.tasks := by rw [hs'eq]
  refine ⟨s₁, gone, s', ?_, hd, htasks, hstays, hcopy, htasks', ?_⟩
  · rw [Tasks.assignHandle, heq]
    exact hcopy
  · rw [htasks', htasks]
    exact hs'

/-- **No allowed step touches a frame that is not there, and each keeps the counters right**; a
frame that has been destroyed stays so. -/
theorem perform_sound (hs : Sound (registered s.tasks) s) (hop : s.allows op = true) :
    ∃ s' e, s.perform op = some (s', e) ∧ Sound (registered s'.tasks) s' ∧
      ∀ x < s.next, s'.heap.alive x = true → s.heap.alive x = true := by
  cases op with
  | spawn owner =>
    refine ⟨_, none, ?_, hs.spawned hop, fun x hx halive => ?_⟩
    · rw [perform, spawn_eq hs]
      rfl
    · simpa [Tasks.spawned, Nat.ne_of_lt hx] using halive
  | post =>
    refine ⟨_, none, ?_, hs.posted, fun x hx halive => ?_⟩
    · rw [perform, post_eq hs]
      rfl
    · simpa [Tasks.posted, Nat.ne_of_lt hx] using halive
  | copyHandle h owner =>
    simp only [allows, Bool.and_eq_true, decide_eq_true_eq] at hop
    obtain ⟨s', hcopy, heq, hs'⟩ := hs.copyHandle (hs.balanced.alive_of_mem hop.1) h.kind hop.2
    have htasks : s'.tasks = s.tasks := by rw [heq]
    have halive : s'.heap.alive = s.heap.alive := by rw [heq]
    refine ⟨s', none, ?_, htasks ▸ hs', fun x _ hx => by rwa [halive] at hx⟩
    rw [perform, hcopy]
    rfl
  | giveHandle h owner =>
    simp only [allows, Bool.and_eq_true] at hop
    refine ⟨_, none, rfl, hs.replaceHandle hop.1 rfl ?_, fun _ _ => id⟩
    rintro ⟨g, rfl, hdead⟩
    exact absurd (hop.2.symm.trans hdead) (by simp)
  | assignHandle h h' =>
    simp only [allows, Bool.and_eq_true, decide_eq_true_eq] at hop
    obtain ⟨⟨⟨hidle, hmem⟩, howner⟩, howner'⟩ := hop
    obtain ⟨s₁, gone, s', heq, hd, -, -, hcopy, -, hs'⟩ := hs.assignHandle hidle hmem
      (fun g hg => by simpa [hg] using howner) (fun g hg => by simpa [hg] using howner')
    have halive : s'.heap.alive = s₁.heap.alive := by rw [copyHandle_eq hcopy]
    refine ⟨s', none, ?_, hs', fun x _ hx => hd.alive x (by rwa [halive] at hx)⟩
    rw [perform, heq]
    rfl
  | destroyHandle h =>
    obtain ⟨s', gone, heq, hd, htasks, hs', -⟩ := destroyHandle_spec hs hop
    refine ⟨s', none, ?_, htasks ▸ hs', fun x _ hx => hd.alive x hx⟩
    rw [perform, heq]
    rfl
  | await h c g =>
    simp only [allows, runs, Bool.and_eq_true, decide_eq_true_eq] at hop
    obtain ⟨⟨⟨⟨-, hidle⟩, ⟨hg, -⟩, -⟩, howner⟩, -⟩ := hop
    obtain ⟨htasks, halive⟩ := await_keeps (s := s) h c g
    refine ⟨_, none, rfl, ?_, fun x _ hx => by rwa [halive] at hx⟩
    rw [htasks]
    exact hs.await hidle (hs.alive_of_registered hg) (fun t ht => by simpa [ht] using howner) c
  | finish t =>
    simp only [allows, runs, Bool.and_eq_true, decide_eq_true_eq] at hop
    obtain ⟨s', heq, hs', halive⟩ := hs.finalSuspend hop.1.1
    refine ⟨s', none, ?_, hs', fun x _ hx => halive x hx⟩
    rw [perform, heq]
    rfl
  | fail t e =>
    simp only [allows, runs, Bool.and_eq_true, decide_eq_true_eq] at hop
    rw [perform, Tasks.fail]
    split_ifs with hcount
    · obtain ⟨s', heq, hs', halive⟩ :=
        Sound.finalSuspend (s := s.setPromise t { s.promise t with error := some e })
          ⟨hs.balanced, hs.fresh, hs.held, hs.placed, hs.nodup⟩ hop.1.1
      refine ⟨s', none, ?_, hs', fun x _ hx => halive x hx⟩
      rw [heq]
      rfl
    · exact ⟨_, some e, rfl, ⟨hs.balanced, hs.fresh, hs.held, hs.placed, hs.nodup⟩, fun _ _ => id⟩
  | clear order =>
    obtain ⟨s', gone, heq, hd, -, hs', -⟩ := clear_spec hs (by simpa [allows] using hop)
    refine ⟨s', none, ?_, hs', fun x _ hx => hd.alive x hx⟩
    rw [perform, heq]
    rfl

theorem step_sound (hs : Sound (registered s.tasks) s) (hstep : s.step op = some s') :
    Sound (registered s'.tasks) s' := by
  rw [step] at hstep
  split_ifs at hstep with hop
  obtain ⟨s'', e, heq, hs'', -⟩ := perform_sound hs hop
  rw [heq, Option.map_some, Option.some.injEq] at hstep
  exact hstep ▸ hs''

theorem run_sound {ops : List TaskOp} (hrun : run step init ops = some s) :
    Sound (registered s.tasks) s :=
  run_invariant (I := fun s => Sound (registered s.tasks) s)
  (fun _ _ _ => step_sound) sound_init hrun

end Tasks

/-- **Ownership of the frames of tasks**: after every run the counter of a task is the number of
its handles, and one more if it is in `tasks_`; its frame is there as long as the counter is
positive; no step that follows touches a frame that has been destroyed, or brings one back; and
once `clear` is over, in whatever order it went, the frames that are left have handles that lie in
such frames or outside of all. -/
theorem tasks_owned (ops : List TaskOp) (s : Tasks)
    (hrun : run Tasks.step Tasks.init ops = some s) :
    (∀ t, s.heap.count t =
        (if t ∈ s.tasks then 1 else 0) + s.heap.refs.countP fun h => h.task = t) ∧
      (∀ t, s.heap.alive t = true ↔ 0 < s.heap.count t) ∧
      (∀ op, s.allows op = true → ∃ s' e, s.perform op = some (s', e) ∧
        ∀ t < s.next, s'.heap.alive t = true → s.heap.alive t = true) ∧
      ∀ order : List TaskId, order.Perm s.tasks → ∃ s', s.clear order = some s' ∧ s'.tasks = [] ∧
        ∀ t, s'.heap.alive t = true → ∃ h ∈ s'.heap.refs, h.task = t ∧
          ∀ g, h.owner = some g → s'.heap.alive g = true := by
  have hs := Tasks.run_sound hrun
  refine ⟨fun t => ?_, hs.balanced.alive, fun op hop => ?_, fun order horder => ?_⟩
  · have hcount := hs.balanced.count t
    rw [Tasks.registered] at hcount
    split_ifs at hcount ⊢ <;> exact hcount
  · obtain ⟨s', e, heq, -, halive⟩ := Tasks.perform_sound hs hop
    exact ⟨s', e, heq, halive⟩
  · obtain ⟨s', gone, heq, -, hnone, hs', -⟩ := Tasks.clear_spec hs horder
    refine ⟨s', heq, hnone, fun t ht => ?_⟩
    have hpos := (hs'.balanced.alive t).mp ht
    rw [hs'.balanced.count t, hnone, Tasks.registered, if_neg (by simp)] at hpos
    obtain ⟨h, hmem, htask⟩ :=
      List.countP_pos_iff.mp (by omega : 0 < s'.heap.refs.countP fun h => h.task = t)
    refine ⟨h, hmem, by simpa using htask, fun g hg => ?_⟩
    by_contra hcon
    exact hs'.balanced.not_orphan hmem ⟨g, hg, by simpa using hcon⟩

/-- A parent awaits a child that fails, with a copy of the handle outside, and assigns over the
handle of a second child, which is destroyed when it returns. -/
theorem tasks_owned_sample : ∃ s, run Tasks.step Tasks.init
    [.spawn none, .spawn (some 0), .copyHandle ⟨1, .spawnAwaitable false, some 0⟩ none,
      .spawn (some 0), .await ⟨1, .spawnAwaitable false, some 0⟩ 7 0, .fail 1 3,
      .assignHandle ⟨2, .spawnAwaitable false, some 0⟩ ⟨1, .spawnAwaitable true, some 0⟩, .finish 2,
      .post, .clear [3, 0]] = some s ∧
    (∀ t, s.heap.count t =
        (if t ∈ s.tasks then 1 else 0) + s.heap.refs.countP fun h => h.task = t) ∧
      (∀ t, s.heap.alive t = true ↔ 0 < s.heap.count t) ∧
      (∀ op, s.allows op = true → ∃ s' e, s.perform op = some (s', e) ∧
        ∀ t < s.next, s'.heap.alive t = true → s.heap.alive t = true) ∧
      ∀ order : List TaskId, order.Perm s.tasks → ∃ s', s.clear order = some s' ∧ s'.tasks = [] ∧
        ∀ t, s'.heap.alive t = true → ∃ h ∈ s'.heap.refs, h.task = t ∧
          ∀ g, h.owner = some g → s'.heap.alive g = true := by
  refine Exists.imp (fun s hrun => ⟨hrun, tasks_owned _ s hrun⟩) ?_
  exact ⟨_, rfl⟩

end Fiona
