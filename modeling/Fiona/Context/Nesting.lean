import Fiona.Context.CallStack

/-!
# Who owns a coroutine, and who waits for it

What the refinement of `Fiona.Context.CallStack` says of the frames, in terms of the model alone.

* Nothing goes wrong, unless an empty task is awaited (`Fiona.Coroutine.sound_iff_awaitsTask`): a
  frame that is there has one handle, and each frame that was made is there or has been destroyed
  once.
* When the scheduler is destroyed – while something under it is suspended, before it was started
  or after its end – everything is (`Fiona.Coroutine.exists_clear`).
* The coroutines that wait form one chain (`Fiona.Coroutine.nested_of_run`), from the one that has
  control to the scheduler, each suspended in the `co_await` of a task it owns; all others have not
  been started or have ended.
-/

namespace Fiona
namespace Coroutine

open scoped List

variable {S V E A : Type} {body : Body S V E A} {s s' t : Coroutines S V E A} {K : Conf S V E A}
  {op : Op A} {ops : List (Op A)}

namespace Coroutines

variable (s : Coroutines S V E A)

/-- The frames that are there. -/
def live : List CoroId := (List.range s.next).filter fun c => (s.frames c).isSome

/-- The handles in the frames that are there. -/
def handles : List CoroId := (List.range s.next).flatMap (Forest.held Frame.tasks s.frames)

/-- The coroutine, the one that waits for it, and so on. -/
def callers : Nat → CoroId → List CoroId
  | 0, _ => []
  | n + 1, c =>
    c :: match (s.frames c).bind fun f => f.promise.continuation with
      | none => []
      | some p => callers n p

end Coroutines

/-- What is reached represents a stack. -/
theorem exists_rep {moved : V → V} {body : Body S V E A} {b : S} {t : Coroutines (Loc S V E) V E A}
    (hrun : Transition.run (step (withScheduler moved body)) (.init b) ops = some t) :
    ∃ K, Rep t K := by
  have hrel := (Rep.init b).run (withScheduler moved body) ops
  rw [hrun] at hrel
  generalize Transition.run (Conf.step _) _ ops = oK at hrel
  cases hrel with
  | some hrep => exact ⟨_, hrep⟩

/-! ### Ownership -/

/-- Nothing has gone wrong: a frame has one handle – that of the scheduler is with the event loop –
and what has been made is there or has been destroyed, once. -/
structure Sound (s : Coroutines S V E A) : Prop where
  noFault : s.control ≠ .fault
  made : ∀ c, (s.frames c).isSome → c < s.next
  owned : s.control ≠ .gone → s.live.Perm (0 :: s.handles)
  accounted : (s.destroyed ++ s.live).Perm (List.range s.next)

/-- What is awaited is not an empty task. -/
def AwaitsTask (body : Body S V E A) (s : Coroutines S V E A) : Op A → Prop
  | .go => ∀ c f b x leaves k, s.control = .running c → s.frames c = some f → f.point = .body b →
      body b = .coAwait x leaves k → f.tasks.getD x none ≠ none
  | _ => True

theorem Owns.live_perm {ns : List CoroId} (hown : Owns s ns) : s.live.Perm ns := by
  refine (List.perm_ext_iff_of_nodup (List.nodup_range.filter _) hown.nodup).mpr fun c => ?_
  rw [List.mem_filter, List.mem_range, ← hown.live]
  exact and_iff_right_of_imp fun hc => hown.lt ((hown.live c).mp hc)

/-- The frames that have been destroyed have no handles. -/
theorem Owns.handles_perm {ns : List CoroId} (hown : Owns s ns) :
    s.handles.Perm (ns.flatMap (Forest.held Frame.tasks s.frames)) := by
  have hdestroyed : s.destroyed.flatMap (Forest.held Frame.tasks s.frames) = [] := by
    rw [List.flatMap_eq_nil_iff]
    intro c hc
    have hout : c ∉ ns := fun hn =>
      (List.nodup_append'.mp (hown.made.nodup_iff.mpr List.nodup_range)).2.2 hc hn
    rw [← hown.live, Bool.not_eq_true, Option.isSome_eq_false_iff,
      Option.isNone_iff_eq_none] at hout
    rw [Forest.held, hout, Option.elim_none]
  calc s.handles
    _ ~ (s.destroyed ++ ns).flatMap (Forest.held Frame.tasks s.frames) :=
      hown.made.symm.flatMap_right _
    _ ~ ns.flatMap (Forest.held Frame.tasks s.frames) := by
      rw [List.flatMap_append, hdestroyed, List.nil_append]

theorem Rep.sound (hrep : Rep s K) (hfault : s.control ≠ .fault) : Sound s := by
  by_cases hgone : s.control = .gone
  · cases hrep with
    | gone control owns =>
      exact ⟨hfault, fun c hc => owns.lt ((owns.live c).mp hc), absurd hgone,
        (owns.live_perm.append_left _).trans owns.made⟩
    | created control | running control | outside control | ended control | fault control =>
      rw [control] at hgone
      cases hgone
  · obtain ⟨us, ns, hold, hown⟩ := hrep.whole hgone hfault
    refine ⟨hfault, fun c hc => hown.lt ((hown.live c).mp hc), fun _ => ?_,
      (hown.live_perm.append_left _).trans hown.made⟩
    calc s.live
      _ ~ ns := hown.live_perm
      _ ~ 0 :: ns.flatMap (Forest.held Frame.tasks s.frames) := hold.perm_handles
      _ ~ 0 :: s.handles := hown.handles_perm.symm.cons 0

/-- The stack faults at the await of an empty task, and nowhere else. -/
theorem Conf.awaits_of_fault {b : S} {vars : Vars S V E} {levels : List (Level S V E)}
    (hfault : Conf.act body b vars levels = .fault) :
    ∃ x leaves k, body b = .coAwait x leaves k ∧ vars.getD x none = none := by
  have hret (r : Except E V) : (Conf.ret r vars levels : Conf S V E A) ≠ .fault := by
    cases levels <;> nofun
  rw [Conf.act] at hfault
  cases hb : body b with
  | coAwait x leaves k =>
    refine ⟨x, leaves, k, rfl, ?_⟩
    rw [hb] at hfault
    by_contra hne
    obtain ⟨⟨l, us⟩, ht⟩ := Option.ne_none_iff_exists'.mp hne
    simp only [Conf.await, ht] at hfault
    cases l <;> cases hfault
  | coReturn v =>
    rw [hb] at hfault
    exact absurd hfault (hret _)
  | throws e =>
    rw [hb] at hfault
    exact absurd hfault (hret _)
  | _ =>
    rw [hb] at hfault
    cases hfault

/-- A step that awaits no empty task does not fault. -/
theorem Rep.step_of_awaitsTask (hrep : Rep s K)
    (hawaits : AwaitsTask body s op) (hstep : Coroutine.step body s op = some s') :
    ∃ K', Rep s' K' ∧ s'.control ≠ .fault := by
  have hrel := hrep.step body op
  rw [hstep] at hrel
  generalize hK : K.step body op = oK at hrel
  cases hrel with
  | @some _ K' hrep' =>
    refine ⟨K', hrep', fun hfault' => ?_⟩
    obtain rfl : K' = .fault := by
      cases hrep' with
      | fault => rfl
      | created control | running control | outside control | ended control | gone control =>
        rw [control] at hfault'
        cases hfault'
    cases hrep with
    | running control top =>
      cases op <;> simp only [Conf.step, Option.some.injEq, reduceCtorEq] at hK
      obtain ⟨x, leaves, k, hb, hempty⟩ := Conf.awaits_of_fault hK
      obtain ⟨f, ms, ns, hf, hpoint, hchain, hold, hown⟩ := top
      obtain ⟨ks, ns', hone, -⟩ := hold.extract x
      rw [hempty] at hone
      exact hawaits _ f _ x leaves k control hf hpoint hb hone.eq_none
    | created | outside | ended | gone | fault =>
      cases op <;> simp only [Conf.step, Option.some.injEq, reduceCtorEq] at hK

/-- **Nothing goes wrong, unless an empty task is awaited**: all along a run of the coroutines under
a scheduler each frame has one owner and none is destroyed twice, used after its destruction or
lost, exactly when no step awaits an empty task. -/
theorem sound_iff_awaitsTask (moved : V → V) (body : Body S V E A) (b : S) (ops : List (Op A)) :
    Transition.Along (step (withScheduler moved body)) Sound (.init b) ops ↔
      Transition.StepsMeet (step (withScheduler moved body)) (AwaitsTask (withScheduler moved body))
        (.init b) ops := by
  refine Transition.along_iff_stepsMeet (I := fun s => ∃ K, Rep s K ∧ s.control ≠ .fault) ?_ ?_ ?_
    ⟨_, Rep.init b, by simp [Coroutines.init]⟩
  · rintro s ⟨K, hrep, hfault⟩
    exact hrep.sound hfault
  · rintro s op s' ⟨K, hrep, -⟩ hawaits hstep
    exact hrep.step_of_awaitsTask hawaits hstep
  · rintro s op s' - hstep hsound
    cases op with
    | go =>
      rintro c f b x leaves k hcontrol hf hpoint hb hempty
      simp only [step, hcontrol] at hstep
      obtain rfl := Option.some.inj hstep
      refine hsound.noFault ?_
      simp only [Coroutines.act, hf, hpoint, hb]
      rw [Coroutines.coAwait_of_empty hempty, Coroutines.fault]
    | start | answer | clear => trivial

/-! ### The end -/

/-- **Everything is destroyed with the scheduler**: whenever none of the coroutines has control, the
scheduler can be destroyed, and after it no frame is left, and each was destroyed once. -/
theorem exists_clear (moved : V → V) (body : Body S V E A) (b : S) (ops : List (Op A))
    {t : Coroutines (Loc S V E) V E A}
    (hrun : Transition.run (step (withScheduler moved body)) (.init b) ops = some t)
    (hcontrol : t.control = .created ∨ (∃ c, t.control = .outside c) ∨ t.control = .ended) :
    ∃ t', step (withScheduler moved body) t .clear = some t' ∧ t'.control = .gone ∧
      (∀ c, t'.frames c = none) ∧ t'.destroyed.Perm (List.range t'.next) := by
  obtain ⟨K, hrep⟩ := exists_rep hrun
  have hgone : t.control ≠ .gone ∧ t.control ≠ .fault := by
    rcases hcontrol with hcontrol | ⟨c, hcontrol⟩ | hcontrol <;> simp [hcontrol]
  have hclear := hrep.clear hgone.1 hgone.2
  refine ⟨t.clear, ?_, ?_⟩
  · rcases hcontrol with hcontrol | ⟨c, hcontrol⟩ | hcontrol <;>
      simp only [step, hcontrol]
  · cases hclear with
    | gone control owns =>
      refine ⟨control, fun c => ?_, ?_⟩
      · have hc := owns.live c
        rwa [iff_false_right List.not_mem_nil, Bool.not_eq_true, Option.isSome_eq_false_iff,
          Option.isNone_iff_eq_none] at hc
      · have hmade := owns.made
        rwa [List.append_nil] at hmade

/-- A coroutine that awaits another one, which waits for the outside world. -/
def waiter : Body Nat Nat Nat Nat
  | 0 => .calls 3 [] 1
  | 1 => .coAwait 0 id fun _ => 2
  | 3 => .suspends fun _ => 2
  | _ => .coReturn 7

theorem exists_clear_waiter : ∃ t, Transition.run (step (withScheduler id waiter)) (.init 0)
      [.start, .go, .go, .go, .go] = some t ∧ t.control = .outside 2 ∧
    ∃ t', step (withScheduler id waiter) t .clear = some t' ∧ t'.control = .gone ∧
      (∀ c, t'.frames c = none) ∧ t'.destroyed.Perm (List.range t'.next) :=
  ⟨_, rfl, rfl, exists_clear id waiter 0 [.start, .go, .go, .go, .go] rfl (.inr (.inl ⟨2, rfl⟩))⟩

/-! ### Nesting -/

/-- A coroutine that has not been started, or has ended and has a result. -/
def Frame.Idle (f : Frame S V E A) : Prop :=
  (f.promise = .init ∧ ∃ b, f.point = .body b) ∨
    (f.point = .final ∧ ∃ r, f.promise.result = .ofExcept r)

/-- The coroutine `p` is suspended in the `co_await` of a task it has, which is that of `c`. -/
def WaitsFor (s : Coroutines S V E A) (c p : CoroId) : Prop :=
  ∃ f x leaves k, s.frames p = some f ∧ f.point = .awaiting c leaves k ∧
    f.tasks.getD x none = some c

/-- The coroutines that wait for `c` form a chain that ends with the scheduler, and no others have
been started and not ended. -/
structure Nested (s : Coroutines S V E A) (c : CoroId) : Prop where
  nodup : (s.callers s.next c).Nodup
  bottom : (s.callers s.next c).getLast? = some 0
  waits : (s.callers s.next c).IsChain (WaitsFor s)
  idle : ∀ d f, s.frames d = some f → d ∉ s.callers s.next c → f.Idle

theorem idle_of_holds {hs : List (Option CoroId)} {vars : Vars S V E} {ns : List CoroId}
    (hold : Forest.Holds Frame.tasks Shows s.frames hs vars ns) {d : CoroId} {f : Frame S V E A}
    (hd : d ∈ ns) (hf : s.frames d = some f) : f.Idle := by
  obtain ⟨f', l, hf', hshows⟩ := hold.live hd
  obtain rfl := Option.some.inj (hf'.symm.trans hf)
  cases l with
  | unstarted b => exact .inl ⟨hshows.1, b, hshows.2⟩
  | finished r => exact .inr ⟨hshows.1, r, hshows.2⟩

/-- The chain of the stack is found from the continuations. -/
theorem Chain.callers {c : CoroId} {levels : List (Level S V E)} {ms : List CoroId}
    (hchain : Chain s.frames c levels ms) :
    ∃ cs, (∀ n, cs.length ≤ n → s.callers n c = cs) ∧ cs.Sublist ms ∧ cs.head? = some c ∧
      cs.getLast? = some 0 ∧ cs.IsChain (WaitsFor s) ∧
      ∀ d f, d ∈ ms → d ∉ cs → s.frames d = some f → f.Idle := by
  induction hchain with
  | scheduler found initial =>
    refine ⟨[0], fun n hn => ?_, .refl _, rfl, rfl, .singleton 0,
      fun d f hd hout => absurd hd hout⟩
    obtain ⟨m, rfl⟩ : ∃ m, n = m + 1 := ⟨n - 1, by simp at hn; omega⟩
    rw [Coroutines.callers, found, Option.bind_some, initial]
    rfl
  | @level c p f g l levels ns ms found ne promise waiting awaits here owns holds rest ih =>
    obtain ⟨cs, hcs, hsub, hhead, hlast, hwaits, hidle⟩ := ih
    obtain ⟨cs, rfl⟩ := List.head?_eq_some_iff.mp hhead
    refine ⟨c :: p :: cs, fun n hn => ?_, ?_, rfl, ?_, ?_, fun d f' hd hout hf' => ?_⟩
    · obtain ⟨m, rfl⟩ : ∃ m, n = m + 1 := ⟨n - 1, by simp at hn; omega⟩
      rw [Coroutines.callers, found, Option.bind_some, promise]
      exact congrArg (c :: ·) (hcs m (by simpa using hn))
    · exact (hsub.trans (List.sublist_append_right ..)).cons_cons c
    · rw [List.getLast?_cons_cons]
      exact hlast
    · exact .cons_cons ⟨g, l.x, l.leaves, l.k, waiting, awaits, owns⟩ hwaits
    · obtain ⟨hne, hout⟩ := not_or.mp (mt List.mem_cons.mpr hout)
      rcases List.mem_append.mp ((List.mem_cons.mp hd).resolve_left hne) with hd | hd
      · exact idle_of_holds holds hd hf'
      · exact hidle d f' hd hout hf'

theorem Top.nested {c : CoroId} {point : Point S V E A} {vars : Vars S V E}
    {levels : List (Level S V E)} (htop : Top s c point vars levels) : Nested s c := by
  obtain ⟨f, ms, ns, hf, hpoint, hchain, hold, hown⟩ := htop
  obtain ⟨cs, hcs, hsub, -, hlast, hwaits, hidle⟩ := hchain.callers
  have hlength : cs.length ≤ s.next := by
    have hmade := hown.made.length_eq
    have hle := hsub.length_le
    simp only [List.length_append, List.length_range] at hmade
    omega
  have heq := hcs s.next hlength
  refine ⟨?_, ?_, ?_, ?_⟩
  · rw [heq]
    exact hsub.nodup (List.nodup_append'.mp hown.nodup).1
  · rw [heq, hlast]
  · rw [heq]
    exact hwaits
  · intro d f' hf' hout
    rw [heq] at hout
    rcases List.mem_append.mp ((hown.live d).mp (by rw [hf']; rfl)) with hd | hd
    · exact hidle d f' hd hout hf'
    · exact idle_of_holds hold hd hf'

/-- **The coroutines that wait form one chain**: as long as one of them has control, or what it is
suspended in has not been answered, those that wait for it are chained by their continuations
down to the scheduler, each awaits a task it owns, and all others have not been started or have
ended. -/
theorem nested_of_run (moved : V → V) (body : Body S V E A) (b : S) (ops : List (Op A))
    {t : Coroutines (Loc S V E) V E A} {c : CoroId}
    (hrun : Transition.run (step (withScheduler moved body)) (.init b) ops = some t)
    (hcontrol : t.control = .running c ∨ t.control = .outside c) : Nested t c := by
  obtain ⟨K, hrep⟩ := exists_rep hrun
  cases hrep with
  | running control top =>
    rw [control] at hcontrol
    rcases hcontrol with hcontrol | hcontrol <;> cases hcontrol
    exact top.nested
  | outside control top =>
    rw [control] at hcontrol
    rcases hcontrol with hcontrol | hcontrol <;> cases hcontrol
    exact top.nested
  | created control | ended control | gone control | fault control =>
    rw [control] at hcontrol
    rcases hcontrol with hcontrol | hcontrol <;> cases hcontrol

theorem nested_waiter : ∃ t, Transition.run (step (withScheduler id waiter)) (.init 0)
      [.start, .go, .go, .go, .go] = some t ∧ t.control = .outside 2 ∧ Nested t 2 :=
  ⟨_, rfl, rfl, nested_of_run id waiter 0 [.start, .go, .go, .go, .go] rfl (.inr rfl)⟩

/-- A task in a task is awaited from within: the one that is suspended waits for nobody. -/
example : (Transition.run (step (withScheduler id waiter)) (.init 0)
    [.start, .go, .go, .go, .go]).map (fun t => t.callers t.next 2) = some [2, 1, 0] := rfl

end Coroutine
end Fiona
