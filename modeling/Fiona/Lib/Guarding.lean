import Fiona.Lib.Parking

/-!
# Operations that are guarded

Threads that wait in shared frames can be forgotten, or woken twice (`Fiona.Lib.Parking`). Two
things are true of an object whatever its threads do.

* Where each operation has one frame, no thread is woken twice, and none is woken that does not wait
  (`Shared.along_wokenOnce`): a frame gives out the thread that it has stored and forgets it, and
  nobody else has it stored.
* Where an operation is *guarded* – awaiting it is refused while a flag is up, and the flag comes
  down only when the thread that waits goes on – no thread that waits in it is forgotten
  (`Shared.along_heldIn`), however many operations of other kinds are not guarded.

An object may be looked at as one that has fewer calls (`Shared.Object.restrict`).
-/

namespace Shared

open Transition

variable {σ μ ι θ α α' ρ ω χ β τ : Type}

/-- An object of which only some calls are made. -/
def Object.restrict (O : Object σ μ ι θ α ρ ω χ β) (f : α' → α) : Object σ μ ι θ α' ρ ω χ β :=
  { O with
    main := fun x => O.main (f x)
    asked := fun x => O.asked (f x)
    store := fun m x => O.store m (f x)
    capture := fun m x => O.capture m (f x)
    await := fun o x => O.await o (f x)
    takes := fun o x => O.takes o (f x) }

variable [DecidableEq ι] [DecidableEq θ] {O : Object σ μ ι θ α ρ ω χ β} {s s' : State σ μ ι θ α ρ}
  {Inv : σ → (ι → Nat) → Prop} {k : ι} {part : σ → τ} {busy : τ → Bool}

omit [DecidableEq θ] in
theorem Parks.restrict (hO : Parks O Inv) (f : α' → α) : Parks (O.restrict f) Inv where
  kind_main x := hO.kind_main (f x)
  resets_of_ne := hO.resets_of_ne
  gives_self := hO.gives_self
  refuses hinv hawait := hO.refuses hinv hawait
  goesOn hinv hawait := by
    obtain ⟨hinv', hkeeps, hspares, htakes⟩ := hO.goesOn hinv hawait
    exact ⟨hinv', hkeeps, hspares, htakes⟩
  suspends hinv hawait := by
    obtain ⟨htakes, hinv', hout, hmain, hqueued, hkeeps⟩ := hO.suspends hinv hawait
    exact ⟨htakes, hinv', hout, hmain, hqueued, hkeeps⟩
  process := hO.process
  resume := hO.resume
  other := hO.other

/-! ### No thread is woken twice -/

/-- No thread has been woken twice, or without waiting. -/
structure WokenOnce (s : State σ μ ι θ α ρ) : Prop where
  once : s.collected.Nodup
  waits : ∀ h ∈ s.collected, h ∈ s.waiting.map Waiter.thread

/-- Each operation has one frame. -/
def Single (O : Object σ μ ι θ α ρ ω χ β) (Inv : σ → (ι → Nat) → Prop) : Prop :=
  ∀ o n x h w o' q, Inv o n → O.await o x h w = .suspends o' q → ∀ i ∈ q, i = O.main x

omit [DecidableEq θ] in
theorem Plain.await_ne_goesOn (hO : Plain O) {o o' : σ} {x : α} {h : θ} {w : ω} :
    O.await o x h w ≠ .goesOn o' := by
  intro hawait
  rcases hO.await o x h w with ⟨hrefuses, -⟩ | ⟨o'', hsusp, -⟩
  · cases hawait.symm.trans hrefuses
  · cases hawait.symm.trans hsusp

omit [DecidableEq θ] in
theorem Plain.single (hO : Plain O) : Single O fun _ _ => True := by
  intro o n x h w o' q _ hawait i hi
  rcases hO.await o x h w with ⟨hrefuses, -⟩ | ⟨o'', hsusp, -⟩
  · cases hawait.symm.trans hrefuses
  · obtain ⟨-, rfl⟩ := Outcome.suspends.inj (hawait.symm.trans hsusp)
    exact List.mem_singleton.mp hi

/-- What a request would wake waits in its kind, and has not been woken. -/
structure Woken (O : Object σ μ ι θ α ρ ω χ β) (Inv : σ → (ι → Nat) → Prop)
    (s : State σ μ ι θ α ρ) : Prop extends Sound O Inv s, WokenOnce s where
  own : ∀ i, 0 < s.outstanding i → O.kind i = i
  stored : ∀ i h, 0 < s.outstanding i → O.stored s.obj i = some h →
    h ∉ s.collected ∧ ∃ v ∈ s.waiting, v.thread = h ∧ v.kind = i

namespace Woken

omit [DecidableEq θ] in
theorem init {o : σ} {m : μ} (ho : Inv o fun _ => 0) :
    Woken O Inv (State.init o m : State σ μ ι θ α ρ) where
  toSound := Sound.init ho
  once := by simp [State.init]
  waits := by simp [State.init]
  own := by simp [State.init, State.outstanding]
  stored := by simp [State.init, State.outstanding]

omit [DecidableEq θ] in
/-- A thread goes on at once. -/
theorem goesOn (hO : Parks O Inv) (hs : Woken O Inv s) {a : Nat} {x : α} {h : θ} {w : ω} {o : σ}
    (hfree : h ∉ s.waiting.map Waiter.thread) (hawait : O.await s.obj x h w = .goesOn o) :
    Woken O Inv (O.awaited s a x h (.goesOn o)) := by
  have hgo := hO.goesOn hs.inv hawait
  have hsound := hs.toSound.awaited hO hfree a x w
  rw [hawait] at hsound
  refine ⟨hsound, ⟨hs.once, hs.waits⟩, hs.own, fun i h' hout hi => ?_⟩
  rcases hgo.keeps i with hsame | ⟨-, hnone | ⟨-, hzero⟩⟩
  · exact hs.stored i h' hout (hsame.symm.trans hi)
  · cases hnone.symm.trans hi
  · exact absurd hzero (Nat.ne_of_gt hout)

omit [DecidableEq θ] in
/-- A thread begins to wait. -/
theorem suspends (hO : Parks O Inv) (hsingle : Single O Inv) (hs : Woken O Inv s) {a : Nat} {x : α}
    {h : θ} {w : ω} {o : σ} {q : List ι} (hfree : h ∉ s.waiting.map Waiter.thread)
    (hawait : O.await s.obj x h w = .suspends o q) :
    Woken O Inv (O.awaited s a x h (.suspends o q)) := by
  have hsusp := hO.suspends hs.inv hawait
  have hsound := hs.toSound.awaited hO hfree a x w
  rw [hawait] at hsound
  have hnew : h ∉ s.collected := fun hmem => hfree (hs.waits h hmem)
  -- a frame with a request is the only one of its kind
  have hown : ∀ i, 0 < (O.awaited s a x h (.suspends o q)).outstanding i → O.kind i = i := by
    intro i hout
    by_cases hi : i ∈ q
    · rw [hsingle _ _ _ _ _ _ _ hs.inv hawait i hi]
      exact hO.kind_main x
    · simp only [outstanding_suspends, List.count_eq_zero.mpr hi, Nat.add_zero] at hout
      exact hs.own i hout
  refine ⟨hsound, ⟨hs.once, fun h' hh' => List.mem_cons_of_mem _ (hs.waits h' hh')⟩, hown,
    fun i h' hout hi => ?_⟩
  by_cases hmain : i = O.main x
  · have hself : h = h' := by
      rw [hmain] at hi
      exact Option.some.inj (hsusp.main.symm.trans hi)
    exact ⟨hself ▸ hnew, _, List.mem_cons_self, hself, hmain.symm⟩
  · rcases hsusp.keeps i with hsame | ⟨hkind, -⟩
    · have hq : i ∉ q := fun hq => hmain (hsingle _ _ _ _ _ _ _ hs.inv hawait i hq)
      simp only [outstanding_suspends, List.count_eq_zero.mpr hq, Nat.add_zero] at hout
      obtain ⟨hnot, v, hv, hvh, hvk⟩ := hs.stored i h' hout (hsame.symm.trans hi)
      exact ⟨hnot, v, List.mem_cons_of_mem _ hv, hvh, hvk⟩
    · exact absurd ((hown i hout).symm.trans hkind) hmain

omit [DecidableEq θ] in
/-- A completion is processed. -/
theorem completed (hO : Parks O Inv) (hs : Woken O Inv s) {i : ι} {a : Nat} {c : χ} {o : σ}
    {found : Option θ} (hany : s.requests.any (Object.answers i a) = true)
    (hposts : O.posts i c = true) (hprocess : O.process s.obj i c = some (o, found)) :
    Woken O Inv (O.completed s i a c o found) := by
  have hpos := outstanding_pos hany
  obtain ⟨-, hfound, hkeeps⟩ := hO.process hs.inv hpos hposts hprocess
  rw [if_pos (hO.gives_self _ _ _ (hs.own i hpos))] at hfound
  have hless : ∀ j, 0 < (O.completed s i a c o found).outstanding j → 0 < s.outstanding j := by
    intro j hj
    rw [outstanding_completed hany] at hj
    split at hj
    · exact hj
    · rcases eq_or_ne j i with rfl | hne
      · exact hpos
      · rwa [Function.update_of_ne hne] at hj
  have hback : ∀ {j h}, O.stored o j = some h → j ≠ i ∧ O.stored s.obj j = some h := by
    intro j h hj
    rw [hkeeps] at hj
    split at hj
    · cases hj
    · rename_i hnot
      refine ⟨?_, hj⟩
      rintro rfl
      exact hnot ⟨rfl, hO.gives_self _ _ _ (hs.own j hpos)⟩
  have hcollected : ∀ h, h ∈ (O.completed s i a c o found).collected ↔
      h ∈ s.collected ∨ O.stored s.obj i = some h := by
    intro h
    simp [Object.completed, hfound]
  refine ⟨hs.toSound.completed hO hany hposts hprocess, ⟨?_, fun h hh => ?_⟩,
    fun j hj => hs.own j (hless j hj), fun j h hj hstored => ?_⟩
  · refine List.nodup_append.mpr ⟨hs.once, ?_, fun h hh h' hh' => ?_⟩
    · cases found <;> simp
    · rintro rfl
      have hstored : O.stored s.obj i = some h := hfound ▸ by simpa using hh'
      exact (hs.stored i h hpos hstored).1 hh
  · rcases (hcollected h).mp hh with hmem | hstored
    · exact hs.waits h hmem
    · obtain ⟨-, v, hv, hvh, -⟩ := hs.stored i h hpos hstored
      exact List.mem_map.mpr ⟨v, hv, hvh⟩
  · obtain ⟨hne, hbefore⟩ := hback hstored
    obtain ⟨hnot, v, hv, hvh, hvk⟩ := hs.stored j h (hless j hj) hbefore
    refine ⟨fun hmem => ?_, v, hv, hvh, hvk⟩
    rcases (hcollected h).mp hmem with hmem | hi
    · exact hnot hmem
    · -- a thread waits in one place
      obtain ⟨-, v', hv', hvh', hvk'⟩ := hs.stored i h hpos hi
      obtain rfl := hs.eq_of_thread hv hv' (hvh.trans hvh'.symm)
      exact hne (hvk.symm.trans hvk')

/-- A thread goes on that has been woken. -/
theorem resumed (hO : Parks O Inv) (hs : Woken O Inv s) {w : Waiter θ ι} (hw : w ∈ s.waiting)
    (hwoken : w.thread ∈ s.collected) : Woken O Inv (O.resumed s w) := by
  obtain ⟨-, hkeeps⟩ := hO.resume hs.inv (hs.main w hw)
  have hmem : ∀ {v}, v ∈ s.waiting → v.thread ≠ w.thread → v ∈ (O.resumed s w).waiting := by
    intro v hv hne
    simp [Object.resumed, hv, hne]
  have herase : ∀ {h}, h ∈ (O.resumed s w).collected ↔ h ≠ w.thread ∧ h ∈ s.collected :=
    hs.once.mem_erase_iff
  refine ⟨hs.toSound.resumed hO hw, ⟨hs.once.erase _, fun h hh => ?_⟩, hs.own,
    fun i h hout hstored => ?_⟩
  · obtain ⟨hne, hh⟩ := herase.mp hh
    obtain ⟨v, hv, rfl⟩ := List.mem_map.mp (hs.waits h hh)
    exact List.mem_map.mpr ⟨v, hmem hv hne, rfl⟩
  · have hbefore : O.stored s.obj i = some h := by
      rw [show (O.resumed s w).obj = O.resume s.obj w.kind from rfl, hkeeps] at hstored
      split at hstored
      · cases hstored
      · exact hstored
    obtain ⟨hnot, v, hv, rfl, hvk⟩ := hs.stored i h hout hbefore
    refine ⟨fun hcon => hnot (herase.mp hcon).2, v, hmem hv ?_, rfl, hvk⟩
    intro heq
    exact hnot (heq ▸ hwoken)

theorem step (hO : Parks O Inv) (hsingle : Single O Inv) {op : Op ι θ α ω χ β}
    (hs : Woken O Inv s) (hstep : O.step s op = some s') : Woken O Inv s' := by
  have hsound := hs.toSound.step hO hstep
  cases op with
  | create a x =>
    obtain ⟨-, rfl⟩ := Object.step_create hstep
    exact ⟨hsound, ⟨hs.once, hs.waits⟩, hs.own, hs.stored⟩
  | await a h w =>
    obtain ⟨x, -, hfree, -, rfl⟩ := Object.step_await hstep
    cases hawait : O.await s.obj x h w with
    | refuses => exact hs
    | goesOn o => exact hs.goesOn hO hfree hawait
    | suspends o q => exact hs.suspends hO hsingle hfree hawait
  | submit =>
    cases hstep
    have hout := outstanding_submitted (O := O) (s := s)
    refine ⟨hsound, ⟨hs.once, hs.waits⟩, ?_, ?_⟩
    · rw [hout]
      exact hs.own
    · rw [hout]
      exact hs.stored
  | complete i a c =>
    obtain ⟨o, found, hany, hposts, hprocess, rfl⟩ := Object.step_complete hstep
    exact hs.completed hO hany hposts hprocess
  | resume h =>
    obtain ⟨w, hw, hwoken, rfl⟩ := Object.step_resume hstep
    exact hs.resumed hO (State.mem_of_waiter hw) (State.thread_of_waiter hw ▸ hwoken)
  | destroy a =>
    obtain ⟨x, -, -, rfl⟩ := Object.step_destroy hstep
    exact ⟨hsound, ⟨hs.once, hs.waits⟩, hs.own, hs.stored⟩
  | other b =>
    obtain ⟨o, ho, rfl⟩ := Object.step_other hstep
    obtain ⟨-, hsame⟩ := hO.other hs.inv ho
    refine ⟨hsound, ⟨hs.once, hs.waits⟩, hs.own, fun i h hout hstored => ?_⟩
    exact hs.stored i h hout ((hsame i).symm.trans hstored)

end Woken

/-- **No thread is woken twice, or without waiting**, where each operation has one frame. -/
theorem along_wokenOnce (hO : Parks O Inv) (hsingle : Single O Inv) {o : σ} {m : μ}
    (ho : Inv o fun _ => 0) (ops : List (Op ι θ α ω χ β)) :
    Along O.step WokenOnce (State.init o m) ops :=
  (along_of_invariant (fun _ _ _ hs hstep => Woken.step hO hsingle hs hstep) (Woken.init ho)).mono
    fun _ hs => hs.toWokenOnce

/-! ### No thread is forgotten that waits in an operation that is guarded -/

/-- A thread that waits in an operation of the kind `k` has been woken and will go on, or it is
stored in the frame with a request out whose completion will wake it. -/
def HeldIn (O : Object σ μ ι θ α ρ ω χ β) (k : ι) (s : State σ μ ι θ α ρ) : Prop :=
  ∀ v ∈ s.waiting, v.kind = k →
    v.thread ∈ s.collected ∨ O.stored s.obj k = some v.thread ∧ 0 < s.outstanding k

/-- The data of the frame `k` are in `part`, which is left alone by all but the operation of this
kind. -/
structure Separate (O : Object σ μ ι θ α ρ ω χ β) (k : ι) (part : σ → τ) : Prop where
  kind : O.kind k = k
  goesOn : ∀ {o x h w o'}, O.await o x h w = .goesOn o' → O.main x ≠ k ∧ part o' = part o
  suspends : ∀ {o x h w o' q}, O.await o x h w = .suspends o' q → O.main x ≠ k → part o' = part o
  process : ∀ {o i c o' found}, i ≠ k → O.posts i c = true → O.process o i c = some (o', found) →
    part o' = part o
  resume : ∀ {o j}, O.kind j = j → j ≠ k → part (O.resume o j) = part o
  other : ∀ {o b o'}, O.other o b = some o' → part o' = part o

/-- **The flag `busy` guards the kind `k`**: awaiting is refused while it is up, it goes up with
a thread that begins to wait, and a completion does not bring it down. -/
structure Guards (O : Object σ μ ι θ α ρ ω χ β) (k : ι) (part : σ → τ) (busy : τ → Bool) : Prop
    extends Separate O k part where
  starts : ∀ {o x h w o' q}, O.await o x h w = .suspends o' q → O.main x = k →
    busy (part o) = false ∧ busy (part o') = true
  ends : ∀ {o c o' found}, O.posts k c = true → O.process o k c = some (o', found) →
    busy (part o') = busy (part o)

omit [DecidableEq ι] [DecidableEq θ] in
theorem Separate.restrict (h : Separate O k part) (f : α' → α) :
    Separate (O.restrict f) k part where
  kind := h.kind
  goesOn hawait := h.goesOn hawait
  suspends hawait := h.suspends hawait
  process := h.process
  resume := h.resume
  other := h.other

omit [DecidableEq ι] [DecidableEq θ] in
theorem Guards.restrict (h : Guards O k part busy) (f : α' → α) :
    Guards (O.restrict f) k part busy where
  toSeparate := h.toSeparate.restrict f
  starts hawait := h.starts hawait
  ends := h.ends

omit [DecidableEq ι] [DecidableEq θ] in
/-- The flag stays as it is when a request of any frame completes. -/
theorem Guards.busy_eq (h : Guards O k part busy) {o o' : σ} {i : ι} {c : χ} {found : Option θ}
    (hposts : O.posts i c = true) (hprocess : O.process o i c = some (o', found)) :
    busy (part o') = busy (part o) := by
  by_cases hik : i = k
  · subst hik
    exact h.ends hposts hprocess
  · rw [h.process hik hposts hprocess]

/-- At most one thread waits in the kind `k`, with the flag up, and it is not forgotten. -/
structure Guarded (O : Object σ μ ι θ α ρ ω χ β) (Inv : σ → (ι → Nat) → Prop) (k : ι)
    (part : σ → τ) (busy : τ → Bool) (s : State σ μ ι θ α ρ) : Prop extends Sound O Inv s where
  flag : ∀ v ∈ s.waiting, v.kind = k → busy (part s.obj) = true
  alone : ∀ v ∈ s.waiting, ∀ w ∈ s.waiting, v.kind = k → w.kind = k → v = w
  heldIn : HeldIn O k s

namespace Guarded

omit [DecidableEq θ] in
theorem init {o : σ} {m : μ} (ho : Inv o fun _ => 0) :
    Guarded O Inv k part busy (State.init o m : State σ μ ι θ α ρ) where
  toSound := Sound.init ho
  flag := by simp [State.init]
  alone := by simp [State.init]
  heldIn := by simp [HeldIn, State.init]

omit [DecidableEq θ] in
/-- Of those that waited, nobody is forgotten if the frame stays as it is. -/
theorem heldIn_of_eq (hs : Guarded O Inv k part busy s) {o : σ} (hstored : O.stored o k =
    O.stored s.obj k) {v : Waiter θ ι} (hv : v ∈ s.waiting) (hk : v.kind = k) :
    v.thread ∈ s.collected ∨ O.stored o k = some v.thread ∧ 0 < s.outstanding k := by
  rw [hstored]
  exact hs.heldIn v hv hk

omit [DecidableEq θ] in
theorem awaited (hO : Parks O Inv) (hguards : Guards O k part busy)
    (hs : Guarded O Inv k part busy s) {a : Nat} {x : α} {h : θ} {w : ω}
    (hfree : h ∉ s.waiting.map Waiter.thread) :
    Guarded O Inv k part busy (O.awaited s a x h (O.await s.obj x h w)) := by
  have hsound := hs.toSound.awaited hO hfree a x w
  cases hawait : O.await s.obj x h w with
  | refuses => exact hs
  | goesOn o =>
    rw [hawait] at hsound
    obtain ⟨hmain, hpart⟩ := hguards.goesOn hawait
    refine ⟨hsound, fun v hv hk => ?_, hs.alone, fun v hv hk => hs.heldIn_of_eq ?_ hv hk⟩
    · exact (congrArg busy hpart).trans (hs.flag v hv hk)
    · exact ((hO.goesOn hs.inv hawait).keeps k).resolve_right fun hkind =>
        hmain (hkind.1.symm.trans hguards.kind)
  | suspends o q =>
    rw [hawait] at hsound
    have hsusp := hO.suspends hs.inv hawait
    by_cases hmain : O.main x = k
    · -- nobody waited, as the flag was down
      obtain ⟨hidle, hbusy⟩ := hguards.starts hawait hmain
      have hnone : ∀ v ∈ s.waiting, v.kind ≠ k := by
        intro v hv hk
        cases hidle.symm.trans (hs.flag v hv hk)
      have honly : ∀ v ∈ (O.awaited s a x h (.suspends o q)).waiting, v.kind = k →
          v = ⟨h, a, O.main x⟩ := by
        intro v hv hk
        exact (List.mem_cons.mp hv).resolve_right fun hv => hnone v hv hk
      refine ⟨hsound, fun _ _ _ => hbusy, fun v hv w hw hvk hwk => ?_, fun v hv hk => .inr ?_⟩
      · exact (honly v hv hvk).trans (honly w hw hwk).symm
      · rw [honly v hv hk, outstanding_suspends, ← hmain]
        exact ⟨hsusp.main, hsusp.out⟩
    · have hbefore : ∀ v ∈ (O.awaited s a x h (.suspends o q)).waiting, v.kind = k →
          v ∈ s.waiting := by
        intro v hv hk
        refine (List.mem_cons.mp hv).resolve_left ?_
        rintro rfl
        exact hmain hk
      have hpart : part o = part s.obj := hguards.suspends hawait hmain
      refine ⟨hsound,
        fun v hv hk => (congrArg busy hpart).trans (hs.flag v (hbefore v hv hk) hk),
        fun v hv w hw hvk hwk => hs.alone v (hbefore v hv hvk) w (hbefore w hw hwk) hvk hwk,
        fun v hv hk => ?_⟩
      have hsame : O.stored o k = O.stored s.obj k :=
        (hsusp.keeps k).resolve_right fun hkind => hmain (hkind.1.symm.trans hguards.kind)
      rw [outstanding_suspends]
      exact (hs.heldIn_of_eq hsame (hbefore v hv hk) hk).imp_right fun hheld =>
        ⟨hheld.1, Nat.lt_of_lt_of_le hheld.2 (Nat.le_add_right ..)⟩

omit [DecidableEq θ] in
theorem completed (hO : Parks O Inv) (hguards : Guards O k part busy)
    (hs : Guarded O Inv k part busy s)
    {i : ι} {a : Nat} {c : χ} {o : σ} {found : Option θ}
    (hany : s.requests.any (Object.answers i a) = true) (hposts : O.posts i c = true)
    (hprocess : O.process s.obj i c = some (o, found)) :
    Guarded O Inv k part busy (O.completed s i a c o found) := by
  obtain ⟨-, hfound, hkeeps⟩ := hO.process hs.inv (outstanding_pos hany) hposts hprocess
  refine ⟨hs.toSound.completed hO hany hposts hprocess,
    fun v hv hk => (hguards.busy_eq hposts hprocess).trans (hs.flag v hv hk), hs.alone,
    fun v hv hk => ?_⟩
  have hcollected : v.thread ∈ (O.completed s i a c o found).collected ↔
      v.thread ∈ s.collected ∨ found = some v.thread := by
    simp [Object.completed]
  rw [hcollected]
  rcases hs.heldIn v hv hk with hmem | ⟨hstored, hpos⟩
  · exact .inl (.inl hmem)
  · rcases eq_or_ne k i with rfl | hne
    · refine .inl (.inr ?_)
      rw [hfound, if_pos (hO.gives_self _ _ _ hguards.kind)]
      exact hstored
    · refine .inr ⟨?_, ?_⟩
      · exact ((hkeeps k).trans (if_neg fun hand => hne hand.1)).trans hstored
      · rw [outstanding_completed hany]
        split
        · exact hpos
        · rwa [Function.update_of_ne hne]

theorem resumed (hO : Parks O Inv) (hguards : Guards O k part busy)
    (hs : Guarded O Inv k part busy s)
    {w : Waiter θ ι} (hw : w ∈ s.waiting) : Guarded O Inv k part busy (O.resumed s w) := by
  obtain ⟨-, hkeeps⟩ := hO.resume hs.inv (hs.main w hw)
  have hmem : ∀ {v}, v ∈ (O.resumed s w).waiting → v ∈ s.waiting ∧ v.thread ≠ w.thread := by
    intro v hv
    simpa [Object.resumed] using hv
  -- if the thread that goes on waited in the kind, it was the only one
  have hne : ∀ {v}, v ∈ (O.resumed s w).waiting → v.kind = k → w.kind ≠ k := by
    intro v hv hk hwk
    obtain ⟨hv, hthread⟩ := hmem hv
    exact hthread (congrArg Waiter.thread (hs.alone v hv w hw hk hwk))
  refine ⟨hs.toSound.resumed hO hw, fun v hv hk => ?_, fun v hv u hu => ?_, fun v hv hk => ?_⟩
  · rw [show (O.resumed s w).obj = O.resume s.obj w.kind from rfl,
      hguards.resume (hs.main w hw) (hne hv hk)]
    exact hs.flag v (hmem hv).1 hk
  · exact hs.alone v (hmem hv).1 u (hmem hu).1
  · obtain ⟨hbefore, hthread⟩ := hmem hv
    have hsame : O.stored (O.resume s.obj w.kind) k = O.stored s.obj k := by
      rw [hkeeps, if_neg]
      rintro ⟨hkind, -⟩
      exact hne hv hk (hkind.symm.trans hguards.kind)
    refine (hs.heldIn_of_eq hsame hbefore hk).imp_left fun hcollected => ?_
    exact (List.mem_erase_of_ne hthread).mpr hcollected

theorem step (hO : Parks O Inv) (hguards : Guards O k part busy) {op : Op ι θ α ω χ β}
    (hs : Guarded O Inv k part busy s) (hstep : O.step s op = some s') :
    Guarded O Inv k part busy s' := by
  have hsound := hs.toSound.step hO hstep
  cases op with
  | create a x =>
    obtain ⟨-, rfl⟩ := Object.step_create hstep
    exact ⟨hsound, hs.flag, hs.alone, hs.heldIn⟩
  | await a h w =>
    obtain ⟨x, -, hfree, -, rfl⟩ := Object.step_await hstep
    exact hs.awaited hO hguards hfree
  | submit =>
    cases hstep
    refine ⟨hsound, hs.flag, hs.alone, ?_⟩
    rw [HeldIn, outstanding_submitted]
    exact hs.heldIn
  | complete i a c =>
    obtain ⟨o, found, hany, hposts, hprocess, rfl⟩ := Object.step_complete hstep
    exact hs.completed hO hguards hany hposts hprocess
  | resume h =>
    obtain ⟨w, hw, -, rfl⟩ := Object.step_resume hstep
    exact hs.resumed hO hguards (State.mem_of_waiter hw)
  | destroy a =>
    obtain ⟨x, -, -, rfl⟩ := Object.step_destroy hstep
    exact ⟨hsound, hs.flag, hs.alone, hs.heldIn⟩
  | other b =>
    obtain ⟨o, ho, rfl⟩ := Object.step_other hstep
    obtain ⟨-, hsame⟩ := hO.other hs.inv ho
    exact ⟨hsound, fun v hv hk => (congrArg busy (hguards.other ho)).trans (hs.flag v hv hk),
      hs.alone, fun v hv hk => hs.heldIn_of_eq (hsame k) hv hk⟩

end Guarded

/-- **No thread is forgotten that waits in an operation that is guarded.** -/
theorem along_heldIn (hO : Parks O Inv) (hguards : Guards O k part busy) {o : σ} {m : μ}
    (ho : Inv o fun _ => 0) (ops : List (Op ι θ α ω χ β)) :
    Along O.step (HeldIn O k) (State.init o m) ops :=
  (along_of_invariant (fun _ _ _ hs hstep => Guarded.step hO hguards hs hstep)
    (Guarded.init ho)).mono fun _ hs => hs.heldIn

end Shared
