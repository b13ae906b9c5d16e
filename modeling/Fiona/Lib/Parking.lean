import Fiona.Lib.Shared
import Mathlib.Data.List.Nodup

/-!
# Threads that wait in shared frames

A thread that waits is stored in the frame of its kind, and the completion of that frame wakes it.
There is one place in a frame, so a second thread of the kind that waits there, or one that goes
on and resets the frame, can make the first one be forgotten; and an operation with two frames can
wake its thread twice. No thread is forgotten and none is woken twice exactly as long as this does
not happen (`Shared.kept_iff`).

What has to be known of an object is `Shared.Parks`: what each of its functions may do to the
threads stored. An invariant `Inv` of the object, with the number of requests of each frame, is
whatever the object needs for this to be true.
-/

namespace Shared

open Transition

variable {σ μ ι θ α ρ ω χ β : Type} [DecidableEq ι] [DecidableEq θ]
  {O : Object σ μ ι θ α ρ ω χ β} {s s' : State σ μ ι θ α ρ} {Inv : σ → (ι → Nat) → Prop}

/-- **What is asked**: a thread that waits has been woken and will go on, or it is stored in the
frame of its kind with a request out whose completion will wake it; and no thread is woken twice,
or without waiting. -/
structure Kept (O : Object σ μ ι θ α ρ ω χ β) (s : State σ μ ι θ α ρ) : Prop where
  held : ∀ w ∈ s.waiting, w.thread ∈ s.collected ∨
    O.stored s.obj w.kind = some w.thread ∧ 0 < s.outstanding w.kind
  once : s.collected.Nodup
  waits : ∀ h ∈ s.collected, h ∈ s.waiting.map Waiter.thread

/-- All threads that wait in an operation of this kind have been woken. -/
def AllWoken (s : State σ μ ι θ α ρ) (k : ι) : Prop :=
  ∀ w ∈ s.waiting, w.kind = k → w.thread ∈ s.collected

/-- The condition on a step: awaiting does not take a place where a thread still waits to be
woken, going on does not reset one, and a completion wakes nobody who has been woken. -/
def Undisturbed (O : Object σ μ ι θ α ρ ω χ β) (s : State σ μ ι θ α ρ) : Op ι θ α ω χ β → Prop
  | .await a _ w => ∀ x, s.tickets a = .live x → O.takes s.obj x w = true → AllWoken s (O.main x)
  | .complete i _ c => O.gives s.obj i c = true → ∀ h, O.stored s.obj i = some h → h ∉ s.collected
  | .resume h => ∀ w, s.waiter h = some w → O.resets w.kind = true → AllWoken s w.kind
  | _ => True

/-! ### What is known of an object -/

/-- A thread `h` that goes on at once may leave itself behind in a frame without a request, or
reset frames of its kind. -/
structure GoesOn (O : Object σ μ ι θ α ρ ω χ β) (Inv : σ → (ι → Nat) → Prop) (o : σ)
    (n : ι → Nat) (x : α) (h : θ) (w : ω) (o' : σ) : Prop where
  inv : Inv o' n
  keeps : ∀ i, O.stored o' i = O.stored o i ∨
    O.kind i = O.main x ∧ (O.stored o' i = none ∨ O.stored o' i = some h ∧ n i = 0)
  spares : O.takes o x w = false → O.stored o' (O.main x) = O.stored o (O.main x)
  takes : O.takes o x w = true → O.stored o' (O.main x) = none ∨ O.stored o' (O.main x) = some h

/-- A thread `h` that waits is stored in the frames that it has requests of. -/
structure Suspends (O : Object σ μ ι θ α ρ ω χ β) (Inv : σ → (ι → Nat) → Prop) (o : σ)
    (n : ι → Nat) (x : α) (h : θ) (w : ω) (o' : σ) (q : List ι) : Prop where
  takes : O.takes o x w = true
  inv : Inv o' fun i => n i + q.count i
  out : 0 < n (O.main x) + q.count (O.main x)
  main : O.stored o' (O.main x) = some h
  queued : ∀ i ∈ q, O.kind i = O.main x ∧ O.stored o' i = some h
  keeps : ∀ i, O.stored o' i = O.stored o i ∨ O.kind i = O.main x ∧ O.stored o' i = some h

/-- What the functions of an object do to the threads stored. -/
structure Parks (O : Object σ μ ι θ α ρ ω χ β) (Inv : σ → (ι → Nat) → Prop) : Prop where
  kind_main : ∀ x, O.kind (O.main x) = O.main x
  resets_of_ne : ∀ i, O.kind i ≠ i → O.resets (O.kind i) = true
  gives_self : ∀ o i c, O.kind i = i → O.gives o i c = true
  refuses : ∀ {o n x h w}, Inv o n → O.await o x h w = .refuses → O.takes o x w = false
  goesOn : ∀ {o n x h w o'}, Inv o n → O.await o x h w = .goesOn o' → GoesOn O Inv o n x h w o'
  suspends : ∀ {o n x h w o' q}, Inv o n → O.await o x h w = .suspends o' q →
    Suspends O Inv o n x h w o' q
  process : ∀ {o n i c o' found}, Inv o n → 0 < n i → O.posts i c = true →
    O.process o i c = some (o', found) →
    Inv o' (if O.more c then n else Function.update n i (n i - 1)) ∧
      found = (if O.gives o i c then O.stored o i else none) ∧
      ∀ j, O.stored o' j = if j = i ∧ O.gives o i c then none else O.stored o j
  resume : ∀ {o n k}, Inv o n → O.kind k = k → Inv (O.resume o k) n ∧
    ∀ i, O.stored (O.resume o k) i = if O.kind i = k ∧ O.resets k then none else O.stored o i
  other : ∀ {o n b o'}, Inv o n → O.other o b = some o' → Inv o' n ∧
    ∀ i, O.stored o' i = O.stored o i

/-- An object whose operations have one frame each, and which never lets a thread go on at once. -/
structure Plain (O : Object σ μ ι θ α ρ ω χ β) : Prop where
  kind : ∀ i, O.kind i = i
  gives : ∀ o i c, O.gives o i c = true
  await : ∀ o x h w, O.await o x h w = .refuses ∧ O.takes o x w = false ∨
    ∃ o', O.await o x h w = .suspends o' [O.main x] ∧ O.takes o x w = true ∧
      O.stored o' = Function.update (O.stored o) (O.main x) (some h)
  process : ∀ {o i c o' found}, O.process o i c = some (o', found) →
    found = O.stored o i ∧ O.stored o' = Function.update (O.stored o) i none
  resume : ∀ o k, O.stored (O.resume o k) =
    if O.resets k then Function.update (O.stored o) k none else O.stored o
  other : ∀ {o b o'}, O.other o b = some o' → O.stored o' = O.stored o

omit [DecidableEq θ] in
/-- Such an object needs no invariant. -/
theorem Plain.parks (hO : Plain O) : Parks O fun _ _ => True where
  kind_main x := hO.kind _
  resets_of_ne i hne := absurd (hO.kind i) hne
  gives_self o i c _ := hO.gives o i c
  refuses := by
    intro o n x h w _ hawait
    rcases hO.await o x h w with ⟨-, htakes⟩ | ⟨o', hsusp, -⟩
    · exact htakes
    · cases hawait.symm.trans hsusp
  goesOn := by
    intro o n x h w o' _ hawait
    rcases hO.await o x h w with ⟨hrefuses, -⟩ | ⟨o', hsusp, -⟩
    · cases hawait.symm.trans hrefuses
    · cases hawait.symm.trans hsusp
  suspends := by
    intro o n x h w o' q _ hawait
    rcases hO.await o x h w with ⟨hrefuses, -⟩ | ⟨o'', hsusp, htakes, hstored⟩
    · cases hawait.symm.trans hrefuses
    · obtain ⟨rfl, rfl⟩ := Outcome.suspends.inj (hawait.symm.trans hsusp)
      have hmain : O.stored o' (O.main x) = some h := by rw [hstored, Function.update_self]
      refine ⟨htakes, trivial, by simp, hmain, fun i hi => ?_, fun i => ?_⟩
      · obtain rfl := List.mem_singleton.mp hi
        exact ⟨hO.kind _, hmain⟩
      · rcases eq_or_ne i (O.main x) with rfl | hne
        · exact .inr ⟨hO.kind _, hmain⟩
        · exact .inl (by rw [hstored, Function.update_of_ne hne])
  process := by
    intro o n i c o' found _ _ _ hprocess
    obtain ⟨hfound, hstored⟩ := hO.process hprocess
    refine ⟨trivial, by rw [hfound, if_pos (hO.gives o i c)], fun j => ?_⟩
    rw [hstored, Function.update_apply]
    simp [hO.gives o i c]
  resume := by
    intro o n k _ _
    refine ⟨trivial, fun i => ?_⟩
    rw [hO.resume, hO.kind i]
    by_cases hreset : O.resets k = true
    · simp [hreset, Function.update_apply]
    · simp [hreset]
  other := by
    intro o n b o' _ hother
    exact ⟨trivial, fun i => congrFun (hO.other hother) i⟩

/-! ### The number of requests -/

section

variable {i j : ι} {a : Nat}

omit [DecidableEq θ] in
theorem outstanding_submitted : (O.submitted s).outstanding = s.outstanding := by
  have hmap : (O.submitted s).requests.map Request.frame = s.requests.map Request.frame := by
    simp only [Object.submitted, List.map_map]
    refine List.map_congr_left fun r _ => ?_
    cases hr : r.submitted <;> simp [hr]
  funext i
  rw [State.outstanding, hmap, State.outstanding]

omit [DecidableEq θ] in
theorem outstanding_suspends {x : α} {h : θ} {o : σ} {q : List ι} :
    (O.awaited s a x h (.suspends o q)).outstanding = fun i => s.outstanding i + q.count i := by
  funext i
  simp [State.outstanding, Object.awaited, Function.comp_def]

omit [DecidableEq θ] in
theorem outstanding_pos (hany : s.requests.any (Object.answers i a) = true) :
    0 < s.outstanding i := by
  obtain ⟨r, hr, hanswers⟩ := List.any_eq_true.mp hany
  have hframe : r.frame = i := by
    simp only [Object.answers, Bool.and_eq_true, decide_eq_true_eq] at hanswers
    exact hanswers.1.1
  exact List.count_pos_iff.mpr (List.mem_map.mpr ⟨r, hr, hframe⟩)

omit [DecidableEq θ] in
theorem outstanding_completed {c : χ} {o : σ} {found : Option θ}
    (hany : s.requests.any (Object.answers i a) = true) :
    (O.completed s i a c o found).outstanding =
      if O.more c then s.outstanding
      else Function.update s.outstanding i (s.outstanding i - 1) := by
  funext j
  cases hmore : O.more c with
  | true => simp [State.outstanding, Object.completed, hmore]
  | false =>
    obtain ⟨r, hr, hanswers⟩ := List.any_eq_true.mp hany
    obtain ⟨r, l₁, l₂, -, hanswers, hl, herase⟩ := List.exists_of_eraseP hr hanswers
    have hframe : r.frame = i := by
      simp only [Object.answers, Bool.and_eq_true, decide_eq_true_eq] at hanswers
      exact hanswers.1.1
    have hbefore : s.outstanding j =
        ((l₁ ++ l₂).map Request.frame).count j + if i = j then 1 else 0 := by
      simp [State.outstanding, hl, hframe, List.count_cons, Nat.add_assoc]
    have hafter : (O.completed s i a c o found).outstanding j =
        ((l₁ ++ l₂).map Request.frame).count j := by
      simp [State.outstanding, Object.completed, hmore, herase]
    rw [hafter, if_neg (by simp)]
    rcases eq_or_ne j i with rfl | hne
    · rw [Function.update_self, hbefore, if_pos rfl, Nat.add_sub_cancel]
    · rw [Function.update_of_ne hne, hbefore, if_neg hne.symm, Nat.add_zero]

end

/-! ### What holds in every run -/

/-- The object's own invariant holds, and a thread waits in one place, by the frame of a kind. -/
structure Sound (O : Object σ μ ι θ α ρ ω χ β) (Inv : σ → (ι → Nat) → Prop)
    (s : State σ μ ι θ α ρ) : Prop where
  inv : Inv s.obj s.outstanding
  distinct : (s.waiting.map Waiter.thread).Nodup
  main : ∀ w ∈ s.waiting, O.kind w.kind = w.kind

namespace Sound

omit [DecidableEq θ] in
theorem init {o : σ} {m : μ} (ho : Inv o fun _ => 0) :
    Sound O Inv (State.init o m : State σ μ ι θ α ρ) :=
  ⟨ho, by simp [State.init], by simp [State.init]⟩

omit [DecidableEq θ] in
/-- A thread is where it waits. -/
theorem eq_of_thread (hs : Sound O Inv s) {v w : Waiter θ ι} (hv : v ∈ s.waiting)
    (hw : w ∈ s.waiting) (heq : v.thread = w.thread) : v = w :=
  List.inj_on_of_nodup_map hs.distinct hv hw heq

omit [DecidableEq θ] in
theorem awaited (hO : Parks O Inv) (hs : Sound O Inv s) {h : θ}
    (hfree : h ∉ s.waiting.map Waiter.thread) (a : Nat) (x : α) (w : ω) :
    Sound O Inv (O.awaited s a x h (O.await s.obj x h w)) := by
  cases hawait : O.await s.obj x h w with
  | refuses => exact hs
  | goesOn o => exact ⟨(hO.goesOn hs.inv hawait).inv, hs.distinct, hs.main⟩
  | suspends o q =>
    refine ⟨?_, List.nodup_cons.mpr ⟨hfree, hs.distinct⟩, fun v hv => ?_⟩
    · rw [outstanding_suspends]
      exact (hO.suspends hs.inv hawait).inv
    · rcases List.mem_cons.mp hv with rfl | hv
      · exact hO.kind_main x
      · exact hs.main v hv

omit [DecidableEq θ] in
theorem submitted (hs : Sound O Inv s) : Sound O Inv (O.submitted s) := by
  refine ⟨?_, hs.distinct, hs.main⟩
  rw [outstanding_submitted]
  exact hs.inv

omit [DecidableEq θ] in
theorem completed (hO : Parks O Inv) (hs : Sound O Inv s) {i : ι} {a : Nat} {c : χ} {o : σ}
    {found : Option θ} (hany : s.requests.any (Object.answers i a) = true)
    (hposts : O.posts i c = true) (hprocess : O.process s.obj i c = some (o, found)) :
    Sound O Inv (O.completed s i a c o found) := by
  refine ⟨?_, hs.distinct, hs.main⟩
  rw [outstanding_completed hany]
  exact (hO.process hs.inv (outstanding_pos hany) hposts hprocess).1

theorem resumed (hO : Parks O Inv) (hs : Sound O Inv s) {w : Waiter θ ι} (hw : w ∈ s.waiting) :
    Sound O Inv (O.resumed s w) :=
  ⟨(hO.resume hs.inv (hs.main w hw)).1, hs.distinct.sublist (List.filter_sublist.map _),
    fun v hv => hs.main v (List.mem_of_mem_filter hv)⟩

theorem step (hO : Parks O Inv) {op : Op ι θ α ω χ β} (hs : Sound O Inv s)
    (hstep : O.step s op = some s') : Sound O Inv s' := by
  cases op with
  | create a x =>
    obtain ⟨-, rfl⟩ := Object.step_create hstep
    exact ⟨hs.inv, hs.distinct, hs.main⟩
  | await a h w =>
    obtain ⟨x, -, hfree, -, rfl⟩ := Object.step_await hstep
    exact hs.awaited hO hfree a x w
  | submit =>
    cases hstep
    exact hs.submitted
  | complete i a c =>
    obtain ⟨o, found, hany, hposts, hprocess, rfl⟩ := Object.step_complete hstep
    exact hs.completed hO hany hposts hprocess
  | resume h =>
    obtain ⟨w, hw, -, rfl⟩ := Object.step_resume hstep
    exact hs.resumed hO (State.mem_of_waiter hw)
  | destroy a =>
    obtain ⟨x, -, -, rfl⟩ := Object.step_destroy hstep
    exact ⟨hs.inv, hs.distinct, hs.main⟩
  | other b =>
    obtain ⟨o, ho, rfl⟩ := Object.step_other hstep
    exact ⟨(hO.other hs.inv ho).1, hs.distinct, hs.main⟩

end Sound

/-! ### What holds as long as no thread is disturbed -/

/-- What holds of every state of a run whose steps all meet the condition. -/
structure Parked (O : Object σ μ ι θ α ρ ω χ β) (Inv : σ → (ι → Nat) → Prop)
    (s : State σ μ ι θ α ρ) : Prop extends Sound O Inv s where
  kept : Kept O s
  /-- What a request would wake waits in its kind. -/
  stored : ∀ i h, 0 < s.outstanding i → O.stored s.obj i = some h →
    ∃ w ∈ s.waiting, w.thread = h ∧ w.kind = O.kind i
  /-- A thread that has been woken is still stored only where going on resets the frame. -/
  solo : ∀ w ∈ s.waiting, w.thread ∈ s.collected → O.stored s.obj w.kind = some w.thread →
    O.resets w.kind = true

namespace Parked

omit [DecidableEq θ] in
theorem init {o : σ} {m : μ} (ho : Inv o fun _ => 0) :
    Parked O Inv (State.init o m : State σ μ ι θ α ρ) where
  toSound := Sound.init ho
  kept := ⟨by simp [State.init], by simp [State.init], by simp [State.init]⟩
  stored := by simp [State.init, State.outstanding]
  solo := by simp [State.init]

omit [DecidableEq θ] in
/-- Frames change for one kind: no thread that waits to be woken is displaced, unless it was of
that kind. -/
theorem held_of_keeps (hs : Parked O Inv s) {o : σ} {k : ι}
    (hkeeps : ∀ i, O.stored o i = O.stored s.obj i ∨ O.kind i = k)
    (hmain : O.stored o k = O.stored s.obj k ∨ AllWoken s k) {v : Waiter θ ι} (hv : v ∈ s.waiting) :
    v.thread ∈ s.collected ∨ O.stored o v.kind = some v.thread ∧ 0 < s.outstanding v.kind := by
  rcases hs.kept.held v hv with hcollected | ⟨hstored, hout⟩
  · exact .inl hcollected
  · rcases hkeeps v.kind with hsame | hkind
    · exact .inr ⟨hsame.trans hstored, hout⟩
    · have hk : v.kind = k := (hs.main v hv).symm.trans hkind
      rcases hmain with hsame | hwoken
      · exact .inr ⟨hk ▸ hsame.trans (hk ▸ hstored), hout⟩
      · exact .inl (hwoken v hv hk)

omit [DecidableEq θ] in
/-- A thread goes on at once. -/
theorem goesOn (hO : Parks O Inv) (hs : Parked O Inv s) {a : Nat} {x : α} {h : θ} {w : ω} {o : σ}
    (hfree : h ∉ s.waiting.map Waiter.thread)
    (hC : O.takes s.obj x w = true → AllWoken s (O.main x))
    (hawait : O.await s.obj x h w = .goesOn o) : Parked O Inv (O.awaited s a x h (.goesOn o)) := by
  have hgo := hO.goesOn hs.inv hawait
  -- the thread that goes on waits nowhere
  have hother : ∀ v ∈ s.waiting, v.thread ≠ h :=
    fun v hv hvh => hfree (List.mem_map.mpr ⟨v, hv, hvh⟩)
  have hmain : O.stored o (O.main x) = O.stored s.obj (O.main x) ∨ AllWoken s (O.main x) := by
    cases htakes : O.takes s.obj x w with
    | true => exact .inr (hC htakes)
    | false => exact .inl (hgo.spares htakes)
  have hsound := hs.toSound.awaited hO hfree a x w
  rw [hawait] at hsound
  refine ⟨hsound, ⟨fun v hv => ?_, hs.kept.once, hs.kept.waits⟩, fun i h' hout hi => ?_,
    fun v hv hvc hstored => ?_⟩
  · exact hs.held_of_keeps (fun i => (hgo.keeps i).imp_right And.left) hmain hv
  · rcases hgo.keeps i with hsame | ⟨-, hnone | ⟨-, hzero⟩⟩
    · exact hs.stored i h' hout (hsame.symm.trans hi)
    · simp [Object.awaited, hnone] at hi
    · exact absurd hzero (Nat.ne_of_gt hout)
  · rcases hgo.keeps v.kind with hsame | ⟨-, hnone | ⟨hself, -⟩⟩
    · exact hs.solo v hv hvc (hsame.symm.trans hstored)
    · simp [Object.awaited, hnone] at hstored
    · simp only [Object.awaited, hself, Option.some.injEq] at hstored
      exact absurd hstored.symm (hother v hv)

omit [DecidableEq θ] in
/-- A thread begins to wait. -/
theorem suspends (hO : Parks O Inv) (hs : Parked O Inv s) {a : Nat} {x : α} {h : θ} {w : ω} {o : σ}
    {q : List ι} (hfree : h ∉ s.waiting.map Waiter.thread)
    (hC : O.takes s.obj x w = true → AllWoken s (O.main x))
    (hawait : O.await s.obj x h w = .suspends o q) :
    Parked O Inv (O.awaited s a x h (.suspends o q)) := by
  have hsusp := hO.suspends hs.inv hawait
  have hother : ∀ v ∈ s.waiting, v.thread ≠ h :=
    fun v hv hvh => hfree (List.mem_map.mpr ⟨v, hv, hvh⟩)
  have hnew : h ∉ s.collected := fun hmem => hfree (hs.kept.waits h hmem)
  have hsound := hs.toSound.awaited hO hfree a x w
  rw [hawait] at hsound
  refine ⟨hsound, ⟨fun v hv => ?_, hs.kept.once, fun h' hh' => ?_⟩, fun i h' hout hi => ?_,
    fun v hv hvc hstored => ?_⟩
  · rw [outstanding_suspends]
    rcases List.mem_cons.mp hv with rfl | hv
    · exact .inr ⟨hsusp.main, hsusp.out⟩
    · refine (hs.held_of_keeps (fun i => (hsusp.keeps i).imp_right And.left)
        (.inr (hC hsusp.takes)) hv).imp_right ?_
      exact fun hheld => ⟨hheld.1, Nat.lt_of_lt_of_le hheld.2 (Nat.le_add_right ..)⟩
  · exact List.mem_cons_of_mem _ (hs.kept.waits h' hh')
  · -- a request that is out has its thread waiting, and a new one has the new thread
    have hself : ∀ j, O.kind j = O.main x → O.stored o j = some h → j = i →
        ∃ v ∈ (O.awaited s a x h (.suspends o q)).waiting, v.thread = h' ∧ v.kind = O.kind i := by
      rintro j hj hstored rfl
      refine ⟨⟨h, a, O.main x⟩, List.mem_cons_self, ?_, hj.symm⟩
      exact Option.some.inj (hstored.symm.trans hi)
    rcases hsusp.keeps i with hsame | ⟨hkind, hstored⟩
    · by_cases hq : i ∈ q
      · exact hself i (hsusp.queued i hq).1 (hsusp.queued i hq).2 rfl
      · simp only [outstanding_suspends, List.count_eq_zero.mpr hq, Nat.add_zero] at hout
        obtain ⟨v, hv, hvh, hvk⟩ := hs.stored i h' hout (hsame.symm.trans hi)
        exact ⟨v, List.mem_cons_of_mem _ hv, hvh, hvk⟩
    · exact hself i hkind hstored rfl
  · rcases List.mem_cons.mp hv with rfl | hv
    · exact absurd hvc hnew
    · rcases hsusp.keeps v.kind with hsame | ⟨-, hself⟩
      · exact hs.solo v hv hvc (hsame.symm.trans hstored)
      · simp only [Object.awaited, hself, Option.some.injEq] at hstored
        exact absurd hstored.symm (hother v hv)

omit [DecidableEq θ] in
/-- A completion is processed. -/
theorem completed (hO : Parks O Inv) (hs : Parked O Inv s) {i : ι} {a : Nat} {c : χ} {o : σ}
    {found : Option θ} (hC : O.gives s.obj i c = true → ∀ h, O.stored s.obj i = some h →
      h ∉ s.collected)
    (hany : s.requests.any (Object.answers i a) = true) (hposts : O.posts i c = true)
    (hprocess : O.process s.obj i c = some (o, found)) :
    Parked O Inv (O.completed s i a c o found) := by
  obtain ⟨-, hfound, hkeeps⟩ := hO.process hs.inv (outstanding_pos hany) hposts hprocess
  have hout : (O.completed s i a c o found).outstanding =
      if O.more c then s.outstanding else Function.update s.outstanding i (s.outstanding i - 1) :=
    outstanding_completed hany
  have hless : ∀ j, (O.completed s i a c o found).outstanding j ≤ s.outstanding j := by
    intro j
    rw [hout]
    split
    · exact Nat.le_refl _
    · rcases eq_or_ne j i with rfl | hne
      · rw [Function.update_self]
        exact Nat.sub_le ..
      · exact Nat.le_of_eq (Function.update_of_ne hne ..)
  have hback : ∀ {j h'}, O.stored o j = some h' → O.stored s.obj j = some h' := by
    intro j h' hj
    rw [hkeeps] at hj
    split at hj
    · cases hj
    · exact hj
  -- whoever is found is stored, and so it waits and has not been woken
  have hwoken : ∀ h ∈ found, O.gives s.obj i c = true ∧ O.stored s.obj i = some h := by
    intro h hh
    rw [hfound] at hh
    split at hh
    · rename_i hgives
      exact ⟨hgives, hh⟩
    · cases hh
  have hcollected : ∀ h, h ∈ (O.completed s i a c o found).collected ↔ h ∈ s.collected ∨
      found = some h := by
    intro h
    simp [Object.completed]
  refine ⟨hs.toSound.completed hO hany hposts hprocess, ⟨fun v hv => ?_, ?_, fun h hh => ?_⟩,
    fun j h hj hstored => ?_, fun v hv hvc hstored => ?_⟩
  · rw [hcollected]
    rcases hs.kept.held v hv with hmem | ⟨hstored, hpos⟩
    · exact .inl (.inl hmem)
    · rcases eq_or_ne v.kind i with hvi | hne
      · -- the frame of its kind wakes it
        have hgives : O.gives s.obj i c = true := hO.gives_self _ _ _ (hvi ▸ hs.main v hv)
        refine .inl (.inr ?_)
        rw [hfound, if_pos hgives, ← hvi]
        exact hstored
      · refine .inr ⟨?_, ?_⟩
        · rw [show (O.completed s i a c o found).obj = o from rfl, hkeeps,
            if_neg fun hand => hne hand.1]
          exact hstored
        · rw [hout]
          split
          · exact hpos
          · rw [Function.update_of_ne hne]
            exact hpos
  · refine List.nodup_append.mpr ⟨hs.kept.once, ?_, fun h hh h' hh' => ?_⟩
    · cases found <;> simp
    · rintro rfl
      obtain ⟨hgives, hstored⟩ := hwoken h (by simpa using hh')
      exact hC hgives h hstored hh
  · rcases (hcollected h).mp hh with hh | hh
    · exact hs.kept.waits h hh
    · obtain ⟨-, hstored⟩ := hwoken h hh
      obtain ⟨v, hv, hvh, -⟩ := hs.stored i h (outstanding_pos hany) hstored
      exact List.mem_map.mpr ⟨v, hv, hvh⟩
  · exact hs.stored j h (Nat.lt_of_lt_of_le hj (hless j)) (hback hstored)
  · rcases (hcollected v.thread).mp hvc with hmem | hh
    · exact hs.solo v hv hmem (hback hstored)
    · obtain ⟨hgives, hi⟩ := hwoken _ hh
      obtain ⟨v', hv', hvv', hkind⟩ := hs.stored i _ (outstanding_pos hany) hi
      obtain rfl := hs.eq_of_thread hv' hv hvv'
      -- only the second frame of an operation wakes a thread and leaves it stored in the first
      have hne : O.kind i ≠ i := by
        intro hii
        have hnone : O.stored o v'.kind = none := by
          rw [hkeeps, if_pos ⟨hkind.trans hii, hgives⟩]
        cases hnone.symm.trans hstored
      exact hkind ▸ hO.resets_of_ne i hne

/-- A thread goes on that has been woken. -/
theorem resumed (hO : Parks O Inv) (hs : Parked O Inv s) {w : Waiter θ ι} (hw : w ∈ s.waiting)
    (hcollected : w.thread ∈ s.collected) (hC : O.resets w.kind = true → AllWoken s w.kind) :
    Parked O Inv (O.resumed s w) := by
  obtain ⟨-, hkeeps⟩ := hO.resume hs.inv (hs.main w hw)
  have hmem : ∀ {v}, v ∈ (O.resumed s w).waiting ↔ v ∈ s.waiting ∧ v.thread ≠ w.thread := by
    intro v
    simp [Object.resumed]
  have herase : ∀ {h}, h ∈ (O.resumed s w).collected ↔ h ≠ w.thread ∧ h ∈ s.collected :=
    hs.kept.once.mem_erase_iff
  have hback : ∀ {j h'}, O.stored (O.resume s.obj w.kind) j = some h' →
      O.stored s.obj j = some h' ∧ ¬(O.kind j = w.kind ∧ O.resets w.kind = true) := by
    intro j h' hj
    rw [hkeeps] at hj
    split at hj
    · cases hj
    · rename_i hnot
      exact ⟨hj, hnot⟩
  refine ⟨hs.toSound.resumed hO hw, ⟨fun v hv => ?_, ?_, fun h hh => ?_⟩,
    fun i h hout hstored => ?_, fun v hv hvc hstored => ?_⟩
  · obtain ⟨hv, hne⟩ := hmem.mp hv
    rw [herase]
    rcases hs.kept.held v hv with hvc | ⟨hstored, hpos⟩
    · exact .inl ⟨hne, hvc⟩
    · by_cases hreset : O.kind v.kind = w.kind ∧ O.resets w.kind = true
      · exact .inl ⟨hne, hC hreset.2 v hv ((hs.main v hv).symm.trans hreset.1)⟩
      · refine .inr ⟨?_, hpos⟩
        rw [show (O.resumed s w).obj = O.resume s.obj w.kind from rfl, hkeeps, if_neg hreset]
        exact hstored
  · exact hs.kept.once.erase _
  · obtain ⟨hne, hh⟩ := herase.mp hh
    obtain ⟨v, hv, rfl⟩ := List.mem_map.mp (hs.kept.waits h hh)
    exact List.mem_map.mpr ⟨v, hmem.mpr ⟨hv, hne⟩, rfl⟩
  · obtain ⟨hbefore, hreset⟩ := hback hstored
    obtain ⟨v, hv, rfl, hkind⟩ := hs.stored i h hout hbefore
    refine ⟨v, hmem.mpr ⟨hv, fun heq => ?_⟩, rfl, hkind⟩
    obtain rfl := hs.eq_of_thread hv hw heq
    -- it is still stored although it was woken, so going on resets the frame
    by_cases hi : O.kind i = i
    · exact hreset ⟨hkind.symm, hs.solo v hv hcollected ((hkind.trans hi).symm ▸ hbefore)⟩
    · exact hreset ⟨hkind.symm, hkind ▸ hO.resets_of_ne i hi⟩
  · exact hs.solo v (hmem.mp hv).1 (herase.mp hvc).2 (hback hstored).1

theorem step (hO : Parks O Inv) {op : Op ι θ α ω χ β} (hs : Parked O Inv s)
    (hC : Undisturbed O s op) (hstep : O.step s op = some s') : Parked O Inv s' := by
  have hsound := hs.toSound.step hO hstep
  cases op with
  | create a x =>
    obtain ⟨-, rfl⟩ := Object.step_create hstep
    exact ⟨hsound, ⟨hs.kept.held, hs.kept.once, hs.kept.waits⟩, hs.stored, hs.solo⟩
  | await a h w =>
    obtain ⟨x, hx, hfree, -, rfl⟩ := Object.step_await hstep
    cases hawait : O.await s.obj x h w with
    | refuses => exact hs
    | goesOn o => exact hs.goesOn hO hfree (hC x hx) hawait
    | suspends o q => exact hs.suspends hO hfree (hC x hx) hawait
  | submit =>
    cases hstep
    have hout := outstanding_submitted (O := O) (s := s)
    refine ⟨hsound, ⟨?_, hs.kept.once, hs.kept.waits⟩, ?_, hs.solo⟩
    · rw [hout]
      exact hs.kept.held
    · rw [hout]
      exact hs.stored
  | complete i a c =>
    obtain ⟨o, found, hany, hposts, hprocess, rfl⟩ := Object.step_complete hstep
    exact hs.completed hO hC hany hposts hprocess
  | resume h =>
    obtain ⟨w, hw, hcollected, rfl⟩ := Object.step_resume hstep
    exact hs.resumed hO (State.mem_of_waiter hw) (State.thread_of_waiter hw ▸ hcollected) (hC w hw)
  | destroy a =>
    obtain ⟨x, -, -, rfl⟩ := Object.step_destroy hstep
    exact ⟨hsound, ⟨hs.kept.held, hs.kept.once, hs.kept.waits⟩, hs.stored, hs.solo⟩
  | other b =>
    obtain ⟨o, ho, rfl⟩ := Object.step_other hstep
    obtain ⟨-, hsame⟩ := hO.other hs.inv ho
    refine ⟨hsound, ⟨fun v hv => ?_, hs.kept.once, hs.kept.waits⟩, fun i h hout hstored => ?_,
      fun v hv hvc hstored => ?_⟩
    · rw [hsame]
      exact hs.kept.held v hv
    · exact hs.stored i h hout ((hsame i).symm.trans hstored)
    · exact hs.solo v hv hvc ((hsame v.kind).symm.trans hstored)

end Parked

/-- A thread that is forgotten, or woken twice, shows. -/
theorem undisturbed_of_kept (hO : Parks O Inv) {op : Op ι θ α ω χ β} (hs : Parked O Inv s)
    (hstep : O.step s op = some s') (hs' : Kept O s') : Undisturbed O s op := by
  cases op with
  | await a h w =>
    intro x hx htakes
    obtain ⟨y, hy, hfree, -, rfl⟩ := Object.step_await hstep
    obtain rfl : x = y := by
      rw [hx] at hy
      exact Ticket.live.inj hy
    intro v hv hvk
    have hvh : v.thread ≠ h := fun hvh => hfree (List.mem_map.mpr ⟨v, hv, hvh⟩)
    by_contra hvc
    cases hawait : O.await s.obj x h w with
    | refuses => simp [hO.refuses hs.inv hawait] at htakes
    | goesOn o =>
      rw [hawait] at hs'
      obtain ⟨hstored, -⟩ := (hs'.held v hv).resolve_left hvc
      rw [show (O.awaited s a x h (.goesOn o)).obj = o from rfl, hvk] at hstored
      rcases (hO.goesOn hs.inv hawait).takes htakes with hnone | hself
      · cases hnone.symm.trans hstored
      · exact hvh (Option.some.inj (hstored.symm.trans hself))
    | suspends o q =>
      rw [hawait] at hs'
      obtain ⟨hstored, -⟩ := (hs'.held v (List.mem_cons_of_mem _ hv)).resolve_left hvc
      rw [show (O.awaited s a x h (.suspends o q)).obj = o from rfl, hvk] at hstored
      exact hvh (Option.some.inj (hstored.symm.trans (hO.suspends hs.inv hawait).main))
  | complete i a c =>
    obtain ⟨o, found, hany, hposts, hprocess, rfl⟩ := Object.step_complete hstep
    intro hgives h hstored hmem
    obtain ⟨-, hfound, -⟩ := hO.process hs.inv (outstanding_pos hany) hposts hprocess
    rw [if_pos hgives, hstored] at hfound
    have hcollected : (O.completed s i a c o found).collected = s.collected ++ [h] := by
      simp [Object.completed, hfound]
    have hnodup := hs'.once
    rw [hcollected] at hnodup
    exact (List.disjoint_of_nodup_append hnodup) hmem List.mem_cons_self
  | resume h =>
    intro w hw hreset v hv hvk
    obtain ⟨w', hw', hcollected, rfl⟩ := Object.step_resume hstep
    obtain rfl : w = w' := Option.some.inj (hw.symm.trans hw')
    by_contra hvc
    -- the thread that goes on has been woken, so another one of its kind is forgotten
    have hne : v.thread ≠ w.thread := by
      intro heq
      rw [heq, State.thread_of_waiter hw] at hvc
      exact hvc hcollected
    have hv' : v ∈ (O.resumed s w).waiting := by
      simp [Object.resumed, hv, hne]
    rcases hs'.held v hv' with hmem | ⟨hstored, -⟩
    · exact hvc (List.mem_of_mem_erase hmem)
    · have hnone : O.stored (O.resume s.obj w.kind) v.kind = none := by
        rw [(hO.resume hs.inv (hs.main w (State.mem_of_waiter hw))).2,
          if_pos ⟨(hs.main v hv).trans hvk, hreset⟩]
      cases hnone.symm.trans hstored
  | _ => trivial

/-- **No thread is forgotten and none is woken twice, exactly as long as none is disturbed.** -/
theorem kept_iff (hO : Parks O Inv) {ops : List (Op ι θ α ω χ β)} (hs : Parked O Inv s) :
    Along O.step (Kept O) s ops ↔ StepsMeet O.step (Undisturbed O) s ops :=
  along_iff_stepsMeet (fun _ hs => hs.kept) (fun _ _ _ hs hC hstep => hs.step hO hC hstep)
    (fun _ _ _ hs hstep hs' => undisturbed_of_kept hO hs hstep hs') hs

end Shared
