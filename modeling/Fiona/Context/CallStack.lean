import Fiona.Context.Coroutine

/-!
# The coroutines are a call stack

An abstract machine that says what the coroutines of `Fiona.Context.Coroutine` are for: a stack of
levels, one for each coroutine that waits for the one above it, and in the variables of each level
the tasks it has, which are trees: a coroutine that has not been started, with the tasks it was
given, or one that has ended, with its result. There are no handles, no promises and no frames; a
`co_await` pushes a level, the end of a body pops one.

The model is a refinement of this machine (`Fiona.Coroutine.Rep.step`, `Fiona.Coroutine.Rep.run`):
the frames of the waiting coroutines are chained by their continuations, from the one that has
control down to the scheduler, and the rest of the frames are the nodes of the forest that their
variables own.
-/

namespace Fiona
namespace Coroutine

open scoped List

variable {S V E A : Type}

/-! ### The abstract machine -/

/-- What is at a task: a coroutine at the start of its body, or its result. -/
inductive Cell (S V E : Type)
  | unstarted (s : S)
  | finished (r : Except E V)

abbrev Vars (S V E : Type) := List (Option (Forest.Tree (Cell S V E)))

/-- A coroutine that waits for the task in its variable `x`, which is empty meanwhile. -/
structure Level (S V E : Type) where
  vars : Vars S V E
  x : Nat
  leaves : V → V
  k : Except E V → S

inductive Conf (S V E A : Type)
  | created (s : S) (vars : Vars S V E)
  | running (s : S) (vars : Vars S V E) (levels : List (Level S V E))
  | outside (k : A → S) (vars : Vars S V E) (levels : List (Level S V E))
  | ended (r : Except E V) (vars : Vars S V E)
  | gone
  | fault

/-- A task that has ended, and from which a result was taken. -/
def taken (leaves : V → V) (r : Except E V) (us : Vars S V E) : Option (Forest.Tree (Cell S V E)) :=
  some (.node (.finished (r.map leaves)) us)

def Conf.ret (r : Except E V) (vars : Vars S V E) : List (Level S V E) → Conf S V E A
  | [] => .ended r vars
  | l :: levels => .running (l.k r) (l.vars.set l.x (taken l.leaves r vars)) levels

def Conf.await (vars : Vars S V E) (x : Nat) (leaves : V → V) (k : Except E V → S)
    (levels : List (Level S V E)) : Conf S V E A :=
  match vars.getD x none with
  | none => .fault
  | some (.node (.unstarted s) us) => .running s us (⟨vars.set x none, x, leaves, k⟩ :: levels)
  | some (.node (.finished r) us) => .running (k r) (vars.set x (taken leaves r us)) levels

def Conf.act (body : Body S V E A) (s : S) (vars : Vars S V E) (levels : List (Level S V E)) :
    Conf S V E A :=
  match body s with
  | .coReturn v => .ret (.ok v) vars levels
  | .throws e => .ret (.error e) vars levels
  | .calls callee args k =>
    let (us, vars) := moveArgs args vars
    .running k (vars ++ [some (.node (.unstarted callee) us)]) levels
  | .coAwait x leaves k => .await vars x leaves k levels
  | .suspends k => .outside k vars levels
  | .newTask k => .running k (vars ++ [none]) levels
  | .moveConstruct x k =>
    let (t, vars) := Coroutine.moveConstruct x vars
    .running k (vars ++ [t]) levels
  | .moveAssign x y k => .running k (Coroutine.moveAssign x y vars) levels
  | .destroys x k => .running k (vars.set x none) levels

def Conf.step (body : Body S V E A) (K : Conf S V E A) (op : Op A) : Option (Conf S V E A) :=
  match op, K with
  | .start, .created s vars => some (.running s vars [])
  | .go, .running s vars levels => some (.act body s vars levels)
  | .answer a, .outside k vars levels => some (.running (k a) vars levels)
  | .clear, .created .. => some .gone
  | .clear, .outside .. => some .gone
  | .clear, .ended .. => some .gone
  | _, _ => none

/-! ### What the frames are to the stack -/

/-- The frame of a task, as its owner sees it. -/
def Shows (f : Frame S V E A) : Cell S V E → Prop
  | .unstarted s => f.promise = .init ∧ f.point = .body s
  | .finished r => f.point = .final ∧ f.promise.result = .ofExcept r

/-- The coroutines that wait, from the one on the top down to the scheduler: each is the
continuation of the one above it, and owns it. -/
inductive Chain (h : CoroId → Option (Frame S V E A)) :
    CoroId → List (Level S V E) → List CoroId → Prop
  | scheduler {f} (found : h 0 = some f) (initial : f.promise = .init) : Chain h 0 [] [0]
  | level {c p f g l levels ns ms} (found : h c = some f) (ne : c ≠ 0)
      (promise : f.promise = ⟨some p, .uninit⟩) (waiting : h p = some g)
      (awaits : g.point = .awaiting c l.leaves l.k) (here : l.x < g.tasks.length)
      (owns : g.tasks.getD l.x none = some c)
      (holds : Forest.Holds Frame.tasks Shows h (g.tasks.set l.x none) (l.vars.set l.x none) ns)
      (rest : Chain h p levels ms) : Chain h c (l :: levels) (c :: (ns ++ ms))

/-- The frames are the coroutines `ns`, and with those that have been destroyed all that have been
made, each of them once. -/
structure Owns (s : Coroutines S V E A) (ns : List CoroId) : Prop where
  live : ∀ n, (s.frames n).isSome ↔ n ∈ ns
  made : (s.destroyed ++ ns).Perm (List.range s.next)

/-- The coroutine `c` is on the top, at `point`, with what it has in its variables. -/
def Top (s : Coroutines S V E A) (c : CoroId) (point : Point S V E A) (vars : Vars S V E)
    (levels : List (Level S V E)) : Prop :=
  ∃ f ms ns, s.frames c = some f ∧ f.point = point ∧ Chain s.frames c levels ms ∧
    Forest.Holds Frame.tasks Shows s.frames f.tasks vars ns ∧ Owns s (ms ++ ns)

/-- The coroutines represent a configuration of the abstract machine. -/
inductive Rep (s : Coroutines S V E A) : Conf S V E A → Prop
  | created {b vars} (control : s.control = .created) (top : Top s 0 (.body b) vars []) :
      Rep s (.created b vars)
  | running {c b vars levels} (control : s.control = .running c)
      (top : Top s c (.body b) vars levels) : Rep s (.running b vars levels)
  | outside {c k vars levels} (control : s.control = .outside c)
      (top : Top s c (.suspended k) vars levels) : Rep s (.outside k vars levels)
  | ended {f r vars ns} (control : s.control = .ended) (found : s.frames 0 = some f)
      (result : f.promise.result = .ofExcept r)
      (holds : Forest.Holds Frame.tasks Shows s.frames f.tasks vars ns) (owns : Owns s (0 :: ns)) :
      Rep s (.ended r vars)
  | gone (control : s.control = .gone) (owns : Owns s []) : Rep s .gone
  | fault (control : s.control = .fault) : Rep s .fault

/-! ### Variables -/

section Variables

variable {h : CoroId → Option (Frame S V E A)} {hs : List (Option CoroId)} {vars : Vars S V E}
  {ns : List CoroId}

theorem holds_moveArgs (args : List Nat) (hold : Forest.Holds Frame.tasks Shows h hs vars ns) :
    ∃ ks ns', Forest.Holds Frame.tasks Shows h (moveArgs args hs).1 (moveArgs args vars).1 ks ∧
      Forest.Holds Frame.tasks Shows h (moveArgs args hs).2 (moveArgs args vars).2 ns' ∧
      ns.Perm (ks ++ ns') := by
  induction args generalizing hs vars ns with
  | nil => exact ⟨[], ns, .nil, hold, .refl _⟩
  | cons x args ih =>
    obtain ⟨ms, ns₁, hone, hrest, hperm⟩ := hold.extract x
    obtain ⟨ks, ns', hargs, hleft, hperm'⟩ := ih hrest
    refine ⟨ms ++ ks, ns', hone.append hargs, hleft, hperm.trans ?_⟩
    rw [List.append_assoc]
    exact hperm'.append_left ms

theorem holds_moveAssign (x y : Nat) (hold : Forest.Holds Frame.tasks Shows h hs vars ns) :
    ∃ ns', Forest.Holds Frame.tasks Shows h (moveAssign x y hs) (moveAssign x y vars) ns' ∧
      ns'.Perm ns := by
  unfold moveAssign
  rw [← hold.length_eq]
  split
  · next hxy =>
    obtain ⟨hne, hx, hy⟩ := hxy
    exact hold.exchange hne hx hy
  · exact ⟨ns, hold, .refl _⟩

end Variables

theorem lt_length_of_getD {α : Type} {as : List (Option α)} {x : Nat} {a : α}
    (h : as.getD x none = some a) : x < as.length := by
  by_contra hx
  rw [List.getD_eq_getElem?_getD, List.getElem?_eq_none (Nat.not_lt.mp hx)] at h
  cases h

theorem set_getD {α : Type} {as : List (Option α)} {x : Nat} {a : α}
    (h : as.getD x none = some a) : as.set x (some a) = as := by
  rw [← h, List.getD_eq_getElem?_getD, List.getElem?_eq_getElem (lt_length_of_getD h),
    Option.getD_some, List.set_getElem_self]

/-! ### What is written beside the stack -/

section

variable {h h' : CoroId → Option (Frame S V E A)} {s s' : Coroutines S V E A} {c : CoroId}
  {f f' : Frame S V E A} {levels : List (Level S V E)} {vars vars' : Vars S V E}
  {ms ns ns' : List CoroId}

theorem Chain.mem (hchain : Chain h c levels ms) : c ∈ ms := by
  cases hchain with
  | scheduler => exact List.mem_singleton_self 0
  | level => exact List.mem_cons_self

theorem Chain.scheduler_mem (hchain : Chain h c levels ms) : 0 ∈ ms := by
  induction hchain with
  | scheduler => exact List.mem_singleton_self 0
  | level _ _ _ _ _ _ _ _ _ ih => exact List.mem_cons_of_mem _ (List.mem_append_right _ ih)

/-- The coroutine on the top may write its own frame, but for the promise. -/
theorem Chain.congr (hchain : Chain h c levels ms) (hnodup : ms.Nodup) (hf : h c = some f)
    (hf' : h' c = some f') (hpromise : f'.promise = f.promise)
    (hh : ∀ n ∈ ms, n ≠ c → h' n = h n) : Chain h' c levels ms := by
  induction hchain generalizing f f' with
  | scheduler found initial =>
    obtain rfl := Option.some.inj (found.symm.trans hf)
    exact .scheduler hf' (hpromise.trans initial)
  | @level c p _ g l levels ns ms found ne promise waiting awaits here owns holds rest ih =>
    obtain rfl := Option.some.inj (found.symm.trans hf)
    obtain ⟨hc, hnodup⟩ := List.nodup_cons.mp hnodup
    have hout : ∀ n ∈ ns ++ ms, h' n = h n := by
      intro n hn
      refine hh n (List.mem_cons_of_mem _ hn) ?_
      rintro rfl
      exact hc hn
    have hp : h' p = some g :=
      (hout p (List.mem_append_right _ rest.mem)).trans waiting
    refine .level hf' ne (hpromise.trans promise) hp awaits here owns
      (holds.congr fun n hn => hout n (List.mem_append_left _ hn)) ?_
    exact ih (List.nodup_append'.mp hnodup).2.1 waiting hp rfl
      fun n hn _ => hout n (List.mem_append_right _ hn)

theorem Owns.nodup (hown : Owns s ns) : ns.Nodup :=
  (List.nodup_append'.mp (hown.made.nodup_iff.mpr List.nodup_range)).2.1

theorem Owns.lt (hown : Owns s ns) {n : CoroId} (hn : n ∈ ns) : n < s.next :=
  List.mem_range.mp (hown.made.subset (List.mem_append_right _ hn))

theorem Owns.perm (hown : Owns s ns) (hperm : ns.Perm ns') : Owns s ns' where
  live n := (hown.live n).trans hperm.mem_iff
  made := (hperm.symm.append_left s.destroyed).trans hown.made

theorem Owns.setFrame (hown : Owns s ns) (hc : c ∈ ns) : Owns (s.setFrame c f) ns where
  live n := by
    by_cases hn : n = c
    · rw [hn, s.setFrame_self]
      exact iff_of_true rfl hc
    · rw [s.setFrame_of_ne hn]
      exact hown.live n
  made := hown.made

/-- A frame that is made. -/
theorem Owns.make (hown : Owns s ns) :
    Owns { s.setFrame s.next f with next := s.next + 1 } (s.next :: ns) where
  live n := by
    by_cases hn : n = s.next
    · simp [hn]
    · show ((s.setFrame s.next f).frames n).isSome ↔ _
      rw [s.setFrame_of_ne hn, List.mem_cons, or_iff_right hn]
      exact hown.live n
  made := by
    rw [List.range_succ]
    calc s.destroyed ++ s.next :: ns
      _ ~ s.next :: (s.destroyed ++ ns) := List.perm_middle
      _ ~ s.next :: List.range s.next := hown.made.cons _
      _ ~ List.range s.next ++ [s.next] := (List.perm_append_singleton _ _).symm

/-- Frames that are destroyed. -/
theorem Owns.destroy {L : Type} {Shows : Frame S V E A → L → Prop} {hs ks : List CoroId}
    {ts : List (Option (Forest.Tree L))} (hown : Owns s ns)
    (hold : Forest.Holds Frame.tasks Shows s.frames (hs.map some) ts ks)
    (hperm : ns.Perm (ks ++ ns')) :
    ∃ gone, s.destroy hs = some { s with
      frames := Forest.without s.frames ks, destroyed := gone ++ s.destroyed } ∧
      Owns { s with
        frames := Forest.without s.frames ks, destroyed := gone ++ s.destroyed } ns' := by
  have hown := hown.perm hperm
  obtain ⟨hks, -, hdisj⟩ := List.nodup_append'.mp hown.nodup
  have hlength : ks.length ≤ s.next := by
    have := hown.made.length_eq
    simp only [List.length_append, List.length_range] at this
    omega
  obtain ⟨gone, hgone, hgoneperm⟩ := hold.destroyed hks hlength
  refine ⟨gone, by rw [Coroutines.destroy, hgone, Option.map_some], ?_, ?_⟩
  · intro n
    by_cases hn : n ∈ ks
    · simp only [Forest.without, hn, if_true, Option.isSome_none, Bool.false_eq_true, false_iff]
      exact hdisj hn
    · simp only [Forest.without, hn, if_false]
      rw [hown.live, List.mem_append, or_iff_right hn]
  · calc gone ++ s.destroyed ++ ns'
      _ ~ s.destroyed ++ gone ++ ns' := List.perm_append_comm.append_right ns'
      _ ~ s.destroyed ++ (ks ++ ns') := by
        rw [List.append_assoc]
        exact (hgoneperm.append_right ns').append_left s.destroyed
      _ ~ List.range s.next := hown.made

/-- The coroutine on the top writes its own frame, and moves its tasks about. -/
theorem Top.setFrame (hf : s.frames c = some f) (hchain : Chain s.frames c levels ms)
    (hown : Owns s (ms ++ ns)) (hpromise : f'.promise = f.promise)
    (hold : Forest.Holds Frame.tasks Shows s.frames f'.tasks vars' ns') (hperm : ns'.Perm ns) :
    Top (s.setFrame c f') c f'.point vars' levels := by
  have hown := hown.perm (hperm.symm.append_left ms)
  obtain ⟨hnodup, -, hdisj⟩ := List.nodup_append'.mp hown.nodup
  refine ⟨f', ms, ns', s.setFrame_self .., rfl, ?_, ?_,
    hown.setFrame (List.mem_append_left _ hchain.mem)⟩
  · exact hchain.congr hnodup hf (s.setFrame_self ..) hpromise
      fun n _ hne => s.setFrame_of_ne hne _
  · refine hold.congr fun n hn => s.setFrame_of_ne ?_ _
    rintro rfl
    exact hdisj hchain.mem hn

/-- **The result of a task is taken**: the task that the variable `x` owns has ended, and the
coroutine that has the variable goes on with the result. -/
theorem Top.awaitResume {d x : Nat} {g : Frame S V E A} {r : Except E V} {us : Vars S V E}
    {ks : List CoroId} {leaves : V → V} {k : Except E V → S} (hf : s.frames c = some f)
    (hchain : Chain s.frames c levels ms) (hx : x < f.tasks.length)
    (howns : f.tasks.getD x none = some d) (hg : s.frames d = some g) (hfinal : g.point = .final)
    (hr : g.promise.result = .ofExcept r)
    (hbelow : Forest.Holds Frame.tasks Shows s.frames g.tasks us ks)
    (hrest : Forest.Holds Frame.tasks Shows s.frames (f.tasks.set x none) (vars.set x none) ns)
    (hown : Owns s (ms ++ (d :: ks ++ ns))) :
    ∃ s', s.awaitResume c d leaves k = { s' with control := .running c } ∧
      Top s' c (.body (k r)) (vars.set x (taken leaves r us)) levels := by
  obtain ⟨hms, hnodup, hdisj⟩ := List.nodup_append'.mp hown.nodup
  obtain ⟨hd, -⟩ := List.nodup_cons.mp hnodup
  have hne : ∀ n ∈ ms, n ≠ d := by
    rintro n hn rfl
    exact hdisj hn (List.mem_append_left _ List.mem_cons_self)
  let g' : Frame S V E A :=
    { g with promise := { g.promise with result := .ofExcept (r.map leaves) } }
  have hf' : (s.setFrame d g').frames c = some f :=
    (s.setFrame_of_ne (hne c hchain.mem) g').trans hf
  have hsame : ∀ n ∈ ks ++ ns, (s.setFrame d g').frames n = s.frames n := by
    intro n hn
    refine s.setFrame_of_ne ?_ g'
    rintro rfl
    exact hd hn
  have hone : Forest.Holds Frame.tasks Shows (s.setFrame d g').frames [some d]
      [taken leaves r us] (d :: ks) :=
    .singleton (s.setFrame_self d g') ⟨hfinal, rfl⟩
      (hbelow.congr fun n hn => hsame n (List.mem_append_left _ hn))
  obtain ⟨ns', hold, hperm⟩ :=
    (hrest.congr fun n hn => hsame n (List.mem_append_right _ hn)).put hx hone
  rw [set_getD howns] at hold
  refine ⟨(s.setFrame d g').setFrame c { f with point := .body (k r) }, ?_, ?_⟩
  · simp only [Coroutines.awaitResume, hg, hf, Promise.take_of_result hr, g']
  · have hchain' : Chain (s.setFrame d g').frames c levels ms :=
      hchain.congr hms hf hf' rfl fun n hn _ => s.setFrame_of_ne (hne n hn) g'
    have hown' : Owns (s.setFrame d g') (ms ++ (d :: ks ++ ns)) :=
      hown.setFrame (List.mem_append_right _ (List.mem_append_left _ List.mem_cons_self))
    exact Top.setFrame hf' hchain' hown' rfl hold hperm

/-! ### One thing a coroutine does -/

theorem Top.withControl {point : Point S V E A} (htop : Top s c point vars levels) (k : Control) :
    Top { s with control := k } c point vars levels := by
  obtain ⟨f, ms, ns, hf, hpoint, hchain, hold, hown⟩ := htop
  exact ⟨f, ms, ns, hf, hpoint, hchain, hold, hown.live, hown.made⟩

/-- **A body ends**: the result is stored, and control goes back to the level below, or to the event
loop. -/
theorem Rep.finalSuspend (r : Except E V) (hf : s.frames c = some f)
    (hchain : Chain s.frames c levels ms)
    (hold : Forest.Holds Frame.tasks Shows s.frames f.tasks vars ns) (hown : Owns s (ms ++ ns)) :
    Rep (s.finalSuspend c f r) (.ret r vars levels) := by
  obtain ⟨hms, -, hdisj⟩ := List.nodup_append'.mp hown.nodup
  have hmem : c ∈ ms := hchain.mem
  have hown' : Owns (s.setFrame c (f.finish r)) (ms ++ ns) :=
    hown.setFrame (List.mem_append_left _ hmem)
  have hold' :
      Forest.Holds Frame.tasks Shows (s.setFrame c (f.finish r)).frames f.tasks vars ns := by
    refine hold.congr fun n hn => s.setFrame_of_ne ?_ _
    rintro rfl
    exact hdisj hmem hn
  cases hchain with
  | scheduler found initial =>
    rw [s.finalSuspend_scheduler]
    exact .ended rfl (s.setFrame_self 0 (f.finish r)) rfl hold' ⟨hown'.live, hown'.made⟩
  | @level _ p f₀ g l levels ks ms found ne promise waiting awaits here owns holds rest =>
    obtain rfl := Option.some.inj (found.symm.trans hf)
    obtain ⟨hc, hms⟩ := List.nodup_cons.mp hms
    have hout : ∀ n ∈ ks ++ ms, (s.setFrame c (f₀.finish r)).frames n = s.frames n := by
      intro n hn
      refine s.setFrame_of_ne ?_ _
      rintro rfl
      exact hc hn
    have hp : (s.setFrame c (f₀.finish r)).frames p = some g :=
      (hout p (List.mem_append_right _ rest.mem)).trans waiting
    have hrest : Chain (s.setFrame c (f₀.finish r)).frames p levels ms :=
      rest.congr (List.nodup_append'.mp hms).2.1 waiting hp rfl
        fun n hn _ => hout n (List.mem_append_right _ hn)
    have hvars := holds.congr fun n hn => hout n (List.mem_append_left _ hn)
    have hperm : (c :: (ks ++ ms) ++ ns).Perm (ms ++ (c :: ns ++ ks)) :=
      calc c :: (ks ++ ms) ++ ns
        _ ~ c :: (ms ++ ks) ++ ns := (List.perm_append_comm.cons c).append_right ns
        _ ~ ms ++ (c :: (ks ++ ns)) := by simpa using List.perm_middle.symm
        _ ~ ms ++ (c :: ns ++ ks) := (List.perm_append_comm.cons c).append_left ms
    obtain ⟨s', hs', htop⟩ := Top.awaitResume hp hrest here owns (s.setFrame_self ..) rfl rfl hold'
      hvars (hown'.perm hperm)
    rw [s.finalSuspend_of_continuation ne (by rw [promise]) hp awaits, hs']
    exact .running rfl (htop.withControl _)

/-- **Control goes to a task** that has not been started, and whose owner waits from now on. -/
theorem Top.transfer {d x : Nat} {g : Frame S V E A} {b : S} {us : Vars S V E} {ks : List CoroId}
    {leaves : V → V} {k : Except E V → S} (hf : s.frames c = some f)
    (hchain : Chain s.frames c levels ms) (hd : f.tasks.getD x none = some d)
    (hg : s.frames d = some g) (hbody : g.point = .body b)
    (hbelow : Forest.Holds Frame.tasks Shows s.frames g.tasks us ks)
    (hrest : Forest.Holds Frame.tasks Shows s.frames (f.tasks.set x none) (vars.set x none) ns)
    (hown : Owns s (ms ++ (d :: ks ++ ns))) :
    Top ((s.setFrame c { f with point := .awaiting d leaves k }).setFrame d
      { g with promise := ⟨some c, .uninit⟩ }) d (.body b) us
      (⟨vars.set x none, x, leaves, k⟩ :: levels) := by
  obtain ⟨f', hf'⟩ : ∃ f' : Frame S V E A, f' = { f with point := .awaiting d leaves k } := ⟨_, rfl⟩
  obtain ⟨g', hg'⟩ : ∃ g' : Frame S V E A, g' = { g with promise := ⟨some c, .uninit⟩ } := ⟨_, rfl⟩
  obtain ⟨s', hs'⟩ : ∃ s', s' = (s.setFrame c f').setFrame d g' := ⟨_, rfl⟩
  rw [← hf', ← hg', ← hs']
  obtain ⟨hms, hnodup, hdisj⟩ := List.nodup_append'.mp hown.nodup
  obtain ⟨hdks, -⟩ := List.nodup_cons.mp hnodup
  have hmem : c ∈ ms := hchain.mem
  have hne : ∀ n ∈ ms, n ≠ d := by
    rintro n hn rfl
    exact hdisj hn (List.mem_append_left _ List.mem_cons_self)
  have hfd : s'.frames d = some g' := by
    rw [hs', Coroutines.setFrame_self]
  have hfc : s'.frames c = some f' := by
    rw [hs', Coroutines.setFrame_of_ne _ (hne c hmem), Coroutines.setFrame_self]
  have hout : ∀ n, n ≠ c → n ≠ d → s'.frames n = s.frames n := by
    intro n hnc hnd
    rw [hs', Coroutines.setFrame_of_ne _ hnd, Coroutines.setFrame_of_ne _ hnc]
  have hsame : ∀ n ∈ ks ++ ns, s'.frames n = s.frames n := by
    intro n hn
    refine hout n ?_ ?_
    · rintro rfl
      exact hdisj hmem (List.mem_cons_of_mem _ hn)
    · rintro rfl
      exact hdks hn
  have hchain' : Chain s'.frames c levels ms :=
    hchain.congr hms hf hfc (by rw [hf']) fun n hn hnc => hout n hnc (hne n hn)
  have hlevel : Chain s'.frames d (⟨vars.set x none, x, leaves, k⟩ :: levels)
      (d :: (ns ++ ms)) := by
    refine .level hfd (hne 0 hchain.scheduler_mem).symm (by rw [hg']) hfc (by rw [hf']) ?_ ?_ ?_
      hchain'
    · rw [hf']
      exact lt_length_of_getD hd
    · rw [hf']
      exact hd
    · rw [hf', List.set_set]
      exact hrest.congr fun n hn => hsame n (List.mem_append_right _ hn)
  have hown' : Owns s' (ms ++ (d :: ks ++ ns)) := by
    rw [hs']
    refine (hown.setFrame (List.mem_append_left _ hmem)).setFrame ?_
    exact List.mem_append_right _ (List.mem_append_left _ List.mem_cons_self)
  refine ⟨g', _, ks, hfd, by rw [hg']; exact hbody, hlevel, ?_, hown'.perm ?_⟩
  · rw [hg']
    exact hbelow.congr fun n hn => hsame n (List.mem_append_left _ hn)
  · calc ms ++ (d :: ks ++ ns)
      _ ~ (d :: ks ++ ns) ++ ms := List.perm_append_comm
      _ ~ d :: (ns ++ ks) ++ ms := (List.perm_append_comm.cons d).append_right ms
      _ ~ d :: (ns ++ ms) ++ ks := by
        rw [List.cons_append, List.cons_append, List.append_assoc, List.append_assoc]
        exact (List.perm_append_comm.append_left ns).cons d

/-- **A task is awaited**: control goes to the coroutine, which starts, or the result is taken. -/
theorem Rep.coAwait (x : Nat) (leaves : V → V) (k : Except E V → S) (hf : s.frames c = some f)
    (hchain : Chain s.frames c levels ms)
    (hold : Forest.Holds Frame.tasks Shows s.frames f.tasks vars ns) (hown : Owns s (ms ++ ns)) :
    Rep (s.coAwait c f x leaves k) (.await vars x leaves k levels) := by
  obtain ⟨ks, ns', hone, hrest, hperm⟩ := hold.extract x
  have hown := hown.perm (hperm.append_left ms)
  cases hd : f.tasks.getD x none with
  | none =>
    rw [hd] at hone
    rw [Coroutines.coAwait_of_empty hd, Conf.await, hone.none_inv.1]
    exact .fault rfl
  | some d =>
    rw [hd] at hone
    obtain ⟨g, l, us, ks, hg, hshows, ht, hbelow, rfl⟩ := hone.some_inv
    rw [Conf.await, ht]
    cases l with
    | finished r =>
      obtain ⟨hfinal, hr⟩ := hshows
      obtain ⟨s', hs', htop⟩ :=
        Top.awaitResume hf hchain (lt_length_of_getD hd) hd hg hfinal hr hbelow hrest hown
      rw [Coroutines.coAwait_of_done hd hg hfinal, hs']
      exact .running rfl (htop.withControl _)
    | unstarted b =>
      obtain ⟨hinit, hbody⟩ := hshows
      rw [Coroutines.coAwait_of_unstarted hd hg hinit hbody]
      exact .running rfl ((Top.transfer hf hchain hd hg hbody hbelow hrest hown).withControl _)

/-- **A coroutine function is called**: there is one more task. -/
theorem Top.call (callee : S) (args : List Nat) (k : S) (hf : s.frames c = some f)
    (hchain : Chain s.frames c levels ms)
    (hold : Forest.Holds Frame.tasks Shows s.frames f.tasks vars ns) (hown : Owns s (ms ++ ns)) :
    Top (s.call c f callee args k) c (.body k) ((moveArgs args vars).2 ++
      [some (.node (.unstarted callee) (moveArgs args vars).1)]) levels := by
  obtain ⟨ks, ns', hargs, hleft, hperm⟩ := holds_moveArgs args hold
  obtain ⟨g, hg⟩ : ∃ g : Frame S V E A, g = ⟨.init, .body callee, (moveArgs args f.tasks).1⟩ :=
    ⟨_, rfl⟩
  obtain ⟨s', hs'⟩ : ∃ s', s' = { s.setFrame s.next g with next := s.next + 1 } := ⟨_, rfl⟩
  have hout : ∀ n ∈ ms ++ ns, s'.frames n = s.frames n := by
    intro n hn
    rw [hs']
    exact s.setFrame_of_ne (Nat.ne_of_lt (hown.lt hn)) g
  have hf' : s'.frames c = some f := (hout c (List.mem_append_left _ hchain.mem)).trans hf
  have hchain' : Chain s'.frames c levels ms :=
    hchain.congr (List.nodup_append'.mp hown.nodup).1 hf hf' rfl
      fun n hn _ => hout n (List.mem_append_left _ hn)
  have hsame : ∀ n ∈ ks ++ ns', s'.frames n = s.frames n := fun n hn =>
    hout n (List.mem_append_right _ (hperm.symm.subset hn))
  have hone : Forest.Holds Frame.tasks Shows s'.frames [some s.next]
      [some (.node (.unstarted callee) (moveArgs args vars).1)] (s.next :: ks) := by
    refine .singleton (f := g) ?_ ?_ ?_
    · rw [hs']
      exact s.setFrame_self ..
    · rw [hg]
      exact ⟨rfl, rfl⟩
    · rw [hg]
      exact hargs.congr fun n hn => hsame n (List.mem_append_left _ hn)
  have hold' := (hleft.congr fun n hn => hsame n (List.mem_append_right _ hn)).append hone
  have hown' : Owns s' (ms ++ (s.next :: ns)) := by
    rw [hs']
    exact hown.make.perm List.perm_middle.symm
  have heq : s.call c f callee args k = s'.setFrame c
      { f with point := .body k, tasks := (moveArgs args f.tasks).2 ++ [some s.next] } := by
    rw [hs', hg]
    rfl
  rw [heq]
  refine Top.setFrame hf' hchain' hown' rfl hold' ?_
  calc ns' ++ s.next :: ks
    _ ~ s.next :: (ns' ++ ks) := List.perm_middle
    _ ~ s.next :: (ks ++ ns') := List.perm_append_comm.cons _
    _ ~ s.next :: ns := hperm.symm.cons _

/-- **A task goes out of scope**: its frame is destroyed, and with it those it owns. -/
theorem Top.destroyTask (x : Nat) (k : S) (hf : s.frames c = some f)
    (hchain : Chain s.frames c levels ms)
    (hold : Forest.Holds Frame.tasks Shows s.frames f.tasks vars ns) (hown : Owns s (ms ++ ns)) :
    Top (s.destroyTask c f x k) c (.body k) (vars.set x none) levels ∧
      (s.destroyTask c f x k).control = s.control := by
  obtain ⟨ks, ns', hone, hrest, hperm⟩ := hold.extract x
  have hperm : (ms ++ ns).Perm (ks ++ (ms ++ ns')) :=
    (hperm.append_left ms).trans (Forest.perm_past ms (.refl _))
  have hone := hone.reduceOption
  rw [show [f.tasks.getD x none].reduceOption = (f.tasks.getD x none).toList by
    cases f.tasks.getD x none <;> rfl] at hone
  obtain ⟨gone, hdestroy, hown'⟩ := hown.destroy hone hperm
  have hdisj : ∀ n ∈ ms ++ ns', n ∉ ks := fun n hn hk =>
    (List.nodup_append'.mp (hown.perm hperm).nodup).2.2 hk hn
  have hout : ∀ n ∈ ms ++ ns', Forest.without s.frames ks n = s.frames n := fun n hn =>
    if_neg (hdisj n hn)
  have hf' : Forest.without s.frames ks c = some f :=
    (hout c (List.mem_append_left _ hchain.mem)).trans hf
  have hsome : (Forest.without s.frames ks c).isSome = true := by rw [hf']; rfl
  have hms := (List.nodup_append'.mp hown.nodup).1
  rw [Coroutines.destroyTask, hdestroy]
  simp only [hsome, if_true]
  refine ⟨?_, rfl⟩
  have hchain' : Chain (Forest.without s.frames ks) c levels ms :=
    hchain.congr hms hf hf' rfl fun n hn _ => hout n (List.mem_append_left _ hn)
  have hrest' : Forest.Holds Frame.tasks Shows (Forest.without s.frames ks) (f.tasks.set x none)
      (vars.set x none) ns' := hrest.congr fun n hn => hout n (List.mem_append_right _ hn)
  exact Top.setFrame hf' hchain' hown' rfl hrest' (.refl _)

end

/-! ### The refinement -/

section

variable {body : Body S V E A} {s s' : Coroutines S V E A} {K K' : Conf S V E A} {op : Op A}
  {ops : List (Op A)}

theorem Rep.act {c : CoroId} {b : S} {vars : Vars S V E} {levels : List (Level S V E)}
    (hcontrol : s.control = .running c) (htop : Top s c (.body b) vars levels) :
    Rep (s.act body c) (.act body b vars levels) := by
  obtain ⟨f, ms, ns, hf, hpoint, hchain, hold, hown⟩ := htop
  rw [Coroutines.act, Conf.act]
  simp only [hf, hpoint]
  cases body b with
  | coReturn v => exact Rep.finalSuspend (.ok v) hf hchain hold hown
  | throws e => exact Rep.finalSuspend (.error e) hf hchain hold hown
  | calls callee args k => exact .running hcontrol (Top.call callee args k hf hchain hold hown)
  | coAwait x leaves k => exact Rep.coAwait x leaves k hf hchain hold hown
  | suspends k =>
    have htop : Top (s.setFrame c { f with point := .suspended k }) c (.suspended k) vars levels :=
      Top.setFrame hf hchain hown rfl hold (.refl _)
    exact .outside rfl (htop.withControl _)
  | newTask k =>
    have hold' := hold.append .nothing
    rw [List.append_nil] at hold'
    exact .running hcontrol (Top.setFrame hf hchain hown rfl hold' (.refl _))
  | moveConstruct x k =>
    obtain ⟨ks, ns', hone, hrest, hperm⟩ := hold.extract x
    exact .running hcontrol (Top.setFrame hf hchain hown rfl (hrest.append hone)
      (List.perm_append_comm.trans hperm.symm))
  | moveAssign x y k =>
    obtain ⟨ns', hold', hperm⟩ := holds_moveAssign x y hold
    exact .running hcontrol (Top.setFrame hf hchain hown rfl hold' hperm)
  | destroys x k =>
    obtain ⟨htop, hcontrol'⟩ := Top.destroyTask x k hf hchain hold hown
    exact .running (hcontrol'.trans hcontrol) htop

/-- What was suspended goes on with its answer. -/
theorem Rep.resume {c : CoroId} {k : A → S} {vars : Vars S V E} {levels : List (Level S V E)}
    (a : A) (htop : Top s c (.suspended k) vars levels) :
    Rep (s.resume c a) (.running (k a) vars levels) := by
  obtain ⟨f, ms, ns, hf, hpoint, hchain, hold, hown⟩ := htop
  have htop : Top (s.setFrame c { f with point := .body (k a) }) c (.body (k a)) vars levels :=
    Top.setFrame hf hchain hown rfl hold (.refl _)
  simp only [Coroutines.resume, hf, hpoint]
  exact .running rfl (htop.withControl _)

/-- Everything hangs from the scheduler. -/
theorem Chain.whole {h : CoroId → Option (Frame S V E A)} {c : CoroId} {f : Frame S V E A}
    {levels : List (Level S V E)} {ts : List (Option (Forest.Tree Unit))} {ms ns : List CoroId}
    (hchain : Chain h c levels ms) (hf : h c = some f)
    (hold : Forest.Holds Frame.tasks Forest.Any h f.tasks ts ns) :
    ∃ us ns', Forest.Holds Frame.tasks Forest.Any h [some 0] us ns' ∧ ns'.Perm (ms ++ ns) := by
  induction hchain generalizing f ts ns with
  | scheduler found initial =>
    obtain rfl := Option.some.inj (found.symm.trans hf)
    exact ⟨_, 0 :: ns, .singleton (l := ()) found trivial hold, .refl _⟩
  | @level c p _ g l levels ks ms found ne promise waiting awaits here owns holds rest ih =>
    obtain rfl := Option.some.inj (found.symm.trans hf)
    have hone : Forest.Holds Frame.tasks Forest.Any h [some c] [some (.node () ts)] (c :: ns) :=
      .singleton found trivial hold
    obtain ⟨us, hvars⟩ := holds.forget
    obtain ⟨ns₁, hvars, hperm₁⟩ := hvars.set_none
    obtain ⟨ns₂, hvars, hperm₂⟩ := hvars.put here hone
    rw [set_getD owns] at hvars
    obtain ⟨us, ns', hwhole, hperm⟩ := ih waiting hvars
    refine ⟨us, ns', hwhole, ?_⟩
    calc ns'
      _ ~ ms ++ ns₂ := hperm
      _ ~ ms ++ (c :: ns ++ ns₁) := hperm₂.append_left ms
      _ ~ ms ++ (c :: ns ++ ks) := (hperm₁.append_left _).append_left ms
      _ ~ c :: (ns ++ ks) ++ ms := List.perm_append_comm
      _ ~ c :: (ks ++ ns) ++ ms := (List.perm_append_comm.cons c).append_right ms
      _ ~ c :: (ks ++ ms) ++ ns := by
        rw [List.cons_append, List.cons_append, List.append_assoc, List.append_assoc]
        exact (List.perm_append_comm.append_left ks).cons c

theorem Top.whole {c : CoroId} {point : Point S V E A} {vars : Vars S V E}
    {levels : List (Level S V E)} (htop : Top s c point vars levels) :
    ∃ us ns, Forest.Holds Frame.tasks Forest.Any s.frames [some 0] us ns ∧ Owns s ns := by
  obtain ⟨f, ms, ns, hf, -, hchain, hold, hown⟩ := htop
  obtain ⟨ts, hold⟩ := hold.forget
  obtain ⟨us, ns', hwhole, hperm⟩ := hchain.whole hf hold
  exact ⟨us, ns', hwhole, hown.perm hperm.symm⟩

/-- As long as the scheduler is there, all the frames hang from it. -/
theorem Rep.whole (hrep : Rep s K) (hgone : s.control ≠ .gone) (hfault : s.control ≠ .fault) :
    ∃ us ns, Forest.Holds Frame.tasks Forest.Any s.frames [some 0] us ns ∧ Owns s ns := by
  cases hrep with
  | created control top => exact top.whole
  | running control top => exact top.whole
  | outside control top => exact top.whole
  | ended control found result holds owns =>
    obtain ⟨ts, hold⟩ := holds.forget
    exact ⟨_, _, .singleton (l := ()) found trivial hold, owns⟩
  | gone control owns => exact absurd control hgone
  | fault control => exact absurd control hfault

/-- **The scheduler is destroyed**, and with it all that is left. -/
theorem Rep.clear (hrep : Rep s K) (hgone : s.control ≠ .gone) (hfault : s.control ≠ .fault) :
    Rep s.clear .gone := by
  obtain ⟨us, ns, hold, hown⟩ := hrep.whole hgone hfault
  have hall : ns.Perm (ns ++ []) := by rw [List.append_nil]
  have hold : Forest.Holds Frame.tasks Forest.Any s.frames ([0].map some) us ns := hold
  obtain ⟨gone, hdestroy, hown'⟩ := hown.destroy hold hall
  rw [Coroutines.clear, hdestroy]
  exact .gone rfl ⟨hown'.live, hown'.made⟩

/-- **The refinement, for one step**: what can happen to the coroutines can happen to the stack, and
the other way round. -/
theorem Rep.step (hrep : Rep s K) (body : Body S V E A) (op : Op A) :
    Option.Rel Rep (Coroutine.step body s op) (K.step body op) := by
  have hclear := hrep.clear
  cases hrep with
  | created control top =>
    cases op <;> simp only [Coroutine.step, control, Conf.step]
    case start => exact .some (.running rfl (top.withControl _))
    case clear => exact .some (hclear (by simp [control]) (by simp [control]))
    all_goals exact .none
  | running control top =>
    cases op <;> simp only [Coroutine.step, control, Conf.step]
    case go => exact .some (Rep.act control top)
    all_goals exact .none
  | outside control top =>
    cases op <;> simp only [Coroutine.step, control, Conf.step]
    case answer a => exact .some (Rep.resume a top)
    case clear => exact .some (hclear (by simp [control]) (by simp [control]))
    all_goals exact .none
  | ended control found result holds owns =>
    cases op <;> simp only [Coroutine.step, control, Conf.step]
    case clear => exact .some (hclear (by simp [control]) (by simp [control]))
    all_goals exact .none
  | gone control owns =>
    cases op <;> simp only [Coroutine.step, control, Conf.step] <;> exact .none
  | fault control =>
    cases op <;> simp only [Coroutine.step, control, Conf.step] <;> exact .none

/-- The scheduler, with its task. -/
def Conf.init (b : S) : Conf (Loc S V E) V E A :=
  .created .scheduler [some (.node (.unstarted (.coro b)) [])]

theorem Rep.init (b : S) : Rep (Coroutines.init b) (Conf.init b : Conf (Loc S V E) V E A) := by
  refine .created rfl ⟨_, [0], [1], rfl, rfl, .scheduler rfl rfl, ?_, ?_, .refl _⟩
  · exact .singleton (f := ⟨.init, .body (.coro b), []⟩) rfl ⟨rfl, rfl⟩ .nil
  · intro n
    match n with
    | 0 => exact iff_of_true rfl (by decide)
    | 1 => exact iff_of_true rfl (by decide)
    | n + 2 => exact iff_of_false (by simp [Coroutines.init]) (by simp)

/-- **The refinement**: the runs of the coroutines are the runs of the stack. -/
theorem Rep.run (hrep : Rep s K) (body : Body S V E A) (ops : List (Op A)) :
    Option.Rel Rep (Transition.run (Coroutine.step body) s ops)
      (Transition.run (Conf.step body) K ops) :=
  Transition.run_rel (fun _ _ op hrep => hrep.step body op) hrep

end

end Coroutine
end Fiona
