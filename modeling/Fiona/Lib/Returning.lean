import Fiona.Lib.Guarding

/-!
# What operations return

A thread that goes on is given what it finds in the frame of its operation. Others may have used the
frame in the meantime, or a completion may still be to come, so this need not be what its own
request came to. Here a run is recorded: of each ticket with what it was awaited and how its request
was completed, and what the threads were given. Where an operation is guarded, and each operation
has one frame, a thread is given what the completion of its own request says
(`Shared.along_returnsOwn`).
-/

namespace Shared

open Transition

variable {σ μ ι θ α ρ ω χ β τ ε : Type}

/-- A ticket that is awaited: the call, what it is awaited with, and the completion of its
request. -/
structure Entry (α ω χ : Type) where
  call : α
  how : ω
  answer : Option χ

/-- A run that is recorded. -/
structure Recorded (σ μ ι θ α ρ ω χ ε : Type) where
  state : State σ μ ι θ α ρ
  entries : Nat → Option (Entry α ω χ)
  returned : List (Entry α ω χ × ε)

variable [DecidableEq ι] [DecidableEq θ]

namespace Recorded

omit [DecidableEq ι] [DecidableEq θ] in
def init (o : σ) (m : μ) : Recorded σ μ ι θ α ρ ω χ ε := ⟨.init o m, fun _ => none, []⟩

variable (O : Object σ μ ι θ α ρ ω χ β) (k : ι) (part : σ → τ) (returns : α → τ → ε)
  (s : Recorded σ μ ι θ α ρ ω χ ε)

/-- What is known of the tickets after a step. -/
def noted : Op ι θ α ω χ β → Nat → Option (Entry α ω χ)
  | .await a _ w =>
    match s.state.tickets a with
    | .live x => Function.update s.entries a (some ⟨x, w, none⟩)
    | _ => s.entries
  | .complete i a c =>
    if O.more c then s.entries
    else Function.update s.entries a <| (s.entries a).map fun e =>
      if O.main e.call = i then { e with answer := some c } else e
  | _ => s.entries

/-- What a thread is given that goes on, if it waited in the kind `k`. -/
def given : Op ι θ α ω χ β → List (Entry α ω χ × ε)
  | .resume h =>
    ((s.state.waiter h).bind fun w => if w.kind = k then s.entries w.ticket else none).toList.map
      fun e => (e, returns e.call (part s.state.obj))
  | _ => []

def step (op : Op ι θ α ω χ β) : Option (Recorded σ μ ι θ α ρ ω χ ε) :=
  (O.step s.state op).map fun t => ⟨t, s.noted O op, s.returned ++ s.given k part returns op⟩

variable {O s} {a : Nat} {x : α} {h : θ} {w : ω}

omit [DecidableEq θ] in
theorem noted_await (hx : s.state.tickets a = .live x) :
    s.noted O (.await a h w) a = some ⟨x, w, none⟩ := by
  simp only [noted, hx, Function.update_self]

omit [DecidableEq θ] in
theorem noted_await_of_ne (hx : s.state.tickets a = .live x) {b : Nat} (hne : b ≠ a) :
    s.noted O (.await a h w) b = s.entries b := by
  simp only [noted, hx, Function.update_of_ne hne]

end Recorded

/-- **What is asked**: who waits has its entry, and what was returned is what the completion of the
own request says. -/
structure ReturnsOwn (due : α → ω → χ → ε) (s : Recorded σ μ ι θ α ρ ω χ ε) : Prop where
  entry : ∀ v ∈ s.state.waiting, ∃ e, s.entries v.ticket = some e ∧
    s.state.tickets v.ticket = .live e.call
  returned : ∀ r ∈ s.returned, ∃ c, r.1.answer = some c ∧ r.2 = due r.1.call r.1.how c

variable {O : Object σ μ ι θ α ρ ω χ β} {Inv : σ → (ι → Nat) → Prop} {k : ι} {part : σ → τ}
  {busy : τ → Bool} {fresh : τ → Prop} {begun : α → ω → τ → Prop} {ended : α → ω → χ → τ → Prop}
  {returns : α → τ → ε} {due : α → ω → χ → ε}

/-- What is known of an operation: it has one request at a time, which takes its frame from `fresh`
to `begun` and on to `ended`, where what is due is found; going on makes the frame fresh again. -/
structure Answers (O : Object σ μ ι θ α ρ ω χ β) (k : ι) (part : σ → τ) (fresh : τ → Prop)
    (begun : α → ω → τ → Prop) (ended : α → ω → χ → τ → Prop) (returns : α → τ → ε)
    (due : α → ω → χ → ε) : Prop where
  starts : ∀ {o x h w o' q}, O.await o x h w = .suspends o' q → O.main x = k → fresh (part o) →
    q.count k = 1 ∧ begun x w (part o')
  ends : ∀ {o c o' found x w}, O.posts k c = true → O.process o k c = some (o', found) →
    O.main x = k → begun x w (part o) → O.more c = false ∧ ended x w c (part o')
  resumes : ∀ {o x w c}, O.main x = k → ended x w c (part o) → fresh (part (O.resume o k))
  reads : ∀ {x w c f}, O.main x = k → ended x w c f → returns x f = due x w c

/-- The request of a thread is out, and no other one of its frame. -/
structure Pending (O : Object σ μ ι θ α ρ ω χ β) (k : ι) (part : σ → τ)
    (begun : α → ω → τ → Prop) (s : State σ μ ι θ α ρ) (v : Waiter θ ι) (e : Entry α ω χ) :
    Prop where
  ticket : ∀ r ∈ s.requests, r.frame = k → r.ticket = v.ticket
  one : s.outstanding k = 1
  stored : O.stored s.obj k = some v.thread
  begun : begun e.call e.how (part s.obj)

/-- The request has been answered, and the answer is in the frame. -/
def Settled (k : ι) (part : σ → τ) (ended : α → ω → χ → τ → Prop) (s : State σ μ ι θ α ρ)
    (e : Entry α ω χ) : Prop :=
  s.outstanding k = 0 ∧ ∃ c, e.answer = some c ∧ ended e.call e.how c (part s.obj)

/-- Whoever waits in the kind `k` has its request out or answered, and while nobody waits the frame
is at rest. -/
structure Placed (O : Object σ μ ι θ α ρ ω χ β) (k : ι) (part : σ → τ) (fresh : τ → Prop)
    (begun : α → ω → τ → Prop) (ended : α → ω → χ → τ → Prop) (s : State σ μ ι θ α ρ)
    (entries : Nat → Option (Entry α ω χ)) : Prop where
  quiet : (∀ v ∈ s.waiting, v.kind ≠ k) → s.outstanding k = 0 ∧ fresh (part s.obj)
  place : ∀ v ∈ s.waiting, v.kind = k → ∀ e, entries v.ticket = some e →
    Pending O k part begun s v e ∨ Settled k part ended s e

omit [DecidableEq θ] in
/-- The frame, its requests and whoever waits for them are left alone. -/
theorem Placed.of_eq {s t : State σ μ ι θ α ρ} {entries entries' : Nat → Option (Entry α ω χ)}
    (hs : Placed O k part fresh begun ended s entries) (hpart : part t.obj = part s.obj)
    (hstored : O.stored t.obj k = O.stored s.obj k) (hout : t.outstanding k = s.outstanding k)
    (hrequests : ∀ r ∈ t.requests, r.frame = k →
      ∃ r' ∈ s.requests, r'.frame = k ∧ r'.ticket = r.ticket)
    (hwaiting : ∀ v, v.kind = k → (v ∈ t.waiting ↔ v ∈ s.waiting))
    (hentries : ∀ v ∈ s.waiting, v.kind = k → entries' v.ticket = entries v.ticket) :
    Placed O k part fresh begun ended t entries' where
  quiet := by
    intro hall
    rw [hout, hpart]
    exact hs.quiet fun v hv hk => hall v ((hwaiting v hk).mpr hv) hk
  place := by
    intro v hv hk e he
    have hv := (hwaiting v hk).mp hv
    rw [hentries v hv hk] at he
    rcases hs.place v hv hk e he with ⟨hticket, hone, hbefore, hbegun⟩ | ⟨hzero, hanswer⟩
    · refine .inl ⟨fun r hr hrk => ?_, hout.trans hone, hstored.trans hbefore, by rwa [hpart]⟩
      obtain ⟨r', hr', hrk', hsame⟩ := hrequests r hr hrk
      exact hsame.symm.trans (hticket r' hr' hrk')
    · exact .inr ⟨hout.trans hzero, by rwa [hpart]⟩

/-- What holds in every run. -/
structure Answered (O : Object σ μ ι θ α ρ ω χ β) (Inv : σ → (ι → Nat) → Prop) (k : ι)
    (part : σ → τ) (busy : τ → Bool) (fresh : τ → Prop) (begun : α → ω → τ → Prop)
    (ended : α → ω → χ → τ → Prop) (due : α → ω → χ → ε) (s : Recorded σ μ ι θ α ρ ω χ ε) :
    Prop extends Woken O Inv s.state, Guarded O Inv k part busy s.state,
    Placed O k part fresh begun ended s.state s.entries where
  noted : ∀ v ∈ s.state.waiting, ∃ e, s.entries v.ticket = some e ∧
    s.state.tickets v.ticket = .live e.call ∧ O.main e.call = v.kind
  returned : ∀ r ∈ s.returned, ∃ c, r.1.answer = some c ∧ r.2 = due r.1.call r.1.how c

namespace Answered

variable {s s' : Recorded σ μ ι θ α ρ ω χ ε} {t : State σ μ ι θ α ρ}

omit [DecidableEq θ] in
theorem returnsOwn (hs : Answered O Inv k part busy fresh begun ended due s) :
    ReturnsOwn due s where
  entry := by
    intro v hv
    obtain ⟨e, he, hlive, -⟩ := hs.noted v hv
    exact ⟨e, he, hlive⟩
  returned := hs.returned

omit [DecidableEq θ] in
theorem init {o : σ} {m : μ} (ho : Inv o fun _ => 0) (hfresh : fresh (part o)) :
    Answered O Inv k part busy fresh begun ended due
      (.init o m : Recorded σ μ ι θ α ρ ω χ ε) where
  toWoken := Woken.init ho
  flag := by simp [Recorded.init, State.init]
  alone := by simp [Recorded.init, State.init]
  heldIn := by simp [HeldIn, Recorded.init, State.init]
  quiet _ := ⟨rfl, hfresh⟩
  place := by simp [Recorded.init, State.init]
  noted := by simp [Recorded.init, State.init]
  returned := by simp [Recorded.init]

/-- Whoever waits after a step has its entry. -/
theorem noted_step (hs : Answered O Inv k part busy fresh begun ended due s)
    {op : Op ι θ α ω χ β} (hstep : O.step s.state op = some t) :
    ∀ v ∈ t.waiting, ∃ e, s.noted O op v.ticket = some e ∧ t.tickets v.ticket = .live e.call ∧
      O.main e.call = v.kind := by
  cases op with
  | create a x =>
    obtain ⟨hunused, rfl⟩ := Object.step_create hstep
    intro v hv
    obtain ⟨e, he, hlive, hmain⟩ := hs.noted v hv
    have hne : v.ticket ≠ a := by
      rintro rfl
      cases hunused.symm.trans hlive
    exact ⟨e, he, (Function.update_of_ne hne ..).trans hlive, hmain⟩
  | await a h w =>
    obtain ⟨x, hx, -, hticket, rfl⟩ := Object.step_await hstep
    have hold : ∀ v ∈ s.state.waiting, ∃ e, s.noted O (.await a h w) v.ticket = some e ∧
        s.state.tickets v.ticket = .live e.call ∧ O.main e.call = v.kind := by
      intro v hv
      rw [Recorded.noted_await_of_ne hx fun heq => hticket (heq ▸ List.mem_map_of_mem hv)]
      exact hs.noted v hv
    cases O.await s.state.obj x h w with
    | refuses | goesOn _ => exact hold
    | suspends o q =>
      intro v hv
      rcases List.mem_cons.mp hv with rfl | hv
      · exact ⟨_, Recorded.noted_await hx, hx, rfl⟩
      · exact hold v hv
  | submit =>
    cases hstep
    exact hs.noted
  | complete i a c =>
    obtain ⟨o, found, -, -, -, rfl⟩ := Object.step_complete hstep
    intro v hv
    obtain ⟨e, he, hlive, hmain⟩ := hs.noted v hv
    simp only [Recorded.noted]
    split_ifs
    · exact ⟨e, he, hlive, hmain⟩
    · rcases eq_or_ne v.ticket a with rfl | hne
      · -- the call stays as it is
        rw [Function.update_self, he]
        refine ⟨_, rfl, ?_⟩
        dsimp only
        split_ifs <;> exact ⟨hlive, hmain⟩
      · rw [Function.update_of_ne hne]
        exact ⟨e, he, hlive, hmain⟩
  | resume h =>
    obtain ⟨w, -, -, rfl⟩ := Object.step_resume hstep
    exact fun v hv => hs.noted v (List.mem_of_mem_filter hv)
  | destroy a =>
    obtain ⟨x, -, hfree, rfl⟩ := Object.step_destroy hstep
    intro v hv
    obtain ⟨e, he, hlive, hmain⟩ := hs.noted v hv
    have hne : v.ticket ≠ a := fun heq => hfree (heq ▸ List.mem_map_of_mem hv)
    exact ⟨e, he, (Function.update_of_ne hne ..).trans hlive, hmain⟩
  | other b =>
    obtain ⟨o, -, rfl⟩ := Object.step_other hstep
    exact hs.noted

omit [DecidableEq θ] in
/-- A ticket is awaited. -/
theorem awaited (hO : Parks O Inv) (hguards : Guards O k part busy)
    (hanswers : Answers O k part fresh begun ended returns due)
    (hs : Answered O Inv k part busy fresh begun ended due s) {a : Nat} {x : α} {h : θ} {w : ω}
    (hx : s.state.tickets a = .live x) (hticket : a ∉ s.state.waiting.map Waiter.ticket) :
    Placed O k part fresh begun ended (O.awaited s.state a x h (O.await s.state.obj x h w))
      (s.noted O (.await a h w)) := by
  have hentries : ∀ v ∈ s.state.waiting, v.kind = k →
      s.noted O (.await a h w) v.ticket = s.entries v.ticket := fun v hv _ =>
    Recorded.noted_await_of_ne hx fun heq => hticket (heq ▸ List.mem_map_of_mem hv)
  cases hawait : O.await s.state.obj x h w with
  | refuses =>
    exact hs.toPlaced.of_eq rfl rfl rfl (fun r hr hrk => ⟨r, hr, hrk, rfl⟩) (fun _ _ => .rfl)
      hentries
  | goesOn o =>
    obtain ⟨hmain, hpart⟩ := hguards.goesOn hawait
    have hstored : O.stored o k = O.stored s.state.obj k :=
      ((hO.goesOn hs.inv hawait).keeps k).resolve_right fun hkind =>
        hmain (hkind.1.symm.trans hguards.kind)
    exact hs.toPlaced.of_eq hpart hstored rfl (fun r hr hrk => ⟨r, hr, hrk, rfl⟩) (fun _ _ => .rfl)
      hentries
  | suspends o q =>
    have hsusp := hO.suspends hs.inv hawait
    have hout : (O.awaited s.state a x h (.suspends o q)).outstanding k =
        s.state.outstanding k + q.count k := congrFun outstanding_suspends k
    by_cases hmain : O.main x = k
    · -- nobody waited, so no request of the frame was out
      obtain ⟨hidle, -⟩ := hguards.starts hawait hmain
      have hnone : ∀ v ∈ s.state.waiting, v.kind ≠ k := by
        intro v hv hk
        cases hidle.symm.trans (hs.flag v hv hk)
      obtain ⟨hzero, hfresh⟩ := hs.quiet hnone
      obtain ⟨hcount, hbegun⟩ := hanswers.starts hawait hmain hfresh
      refine ⟨fun hall => absurd hmain (hall _ List.mem_cons_self), fun v hv hk e he => .inl ?_⟩
      obtain rfl : v = ⟨h, a, O.main x⟩ :=
        (List.mem_cons.mp hv).resolve_right fun hv => hnone v hv hk
      obtain rfl := Option.some.inj ((Recorded.noted_await hx).symm.trans he)
      refine ⟨fun r hr hrk => ?_, ?_, hmain ▸ hsusp.main, hbegun⟩
      · rcases List.mem_append.mp hr with hr | hr
        · have hmem : k ∈ s.state.requests.map Request.frame := List.mem_map.mpr ⟨r, hr, hrk⟩
          exact absurd hzero (Nat.ne_of_gt (List.count_pos_iff.mpr hmem))
        · obtain ⟨i, -, rfl⟩ := List.mem_map.mp hr
          rfl
      · rw [hout, hzero, hcount]
    · have hkind : O.kind k ≠ O.main x := fun heq => hmain (heq.symm.trans hguards.kind)
      have hq : k ∉ q := fun hmem => hkind (hsusp.queued k hmem).1
      have hstored : O.stored o k = O.stored s.state.obj k :=
        (hsusp.keeps k).resolve_right fun hown => hkind hown.1
      refine hs.toPlaced.of_eq (hguards.suspends hawait hmain) hstored ?_ (fun r hr hrk => ?_)
        (fun v hk => ?_) hentries
      · rw [hout, List.count_eq_zero.mpr hq, Nat.add_zero]
      · rcases List.mem_append.mp hr with hr | hr
        · exact ⟨r, hr, hrk, rfl⟩
        · obtain ⟨i, hi, rfl⟩ := List.mem_map.mp hr
          obtain rfl : i = k := hrk
          exact absurd hi hq
      · refine List.mem_cons.trans (or_iff_right ?_)
        rintro rfl
        exact hmain hk

omit [DecidableEq θ] in
/-- A completion is processed: one of the frame is for the thread that waits. -/
theorem completed (hO : Parks O Inv) (hguards : Guards O k part busy)
    (hanswers : Answers O k part fresh begun ended returns due)
    (hs : Answered O Inv k part busy fresh begun ended due s) {i : ι} {a : Nat} {c : χ} {o : σ}
    {found : Option θ} (hany : s.state.requests.any (Object.answers i a) = true)
    (hposts : O.posts i c = true) (hprocess : O.process s.state.obj i c = some (o, found)) :
    Placed O k part fresh begun ended (O.completed s.state i a c o found)
      (s.noted O (.complete i a c)) := by
  obtain ⟨-, -, hkeeps⟩ := hO.process hs.inv (outstanding_pos hany) hposts hprocess
  have hout : (O.completed s.state i a c o found).outstanding k = (if O.more c then
      s.state.outstanding else Function.update s.state.outstanding i
        (s.state.outstanding i - 1)) k := congrFun (outstanding_completed hany) k
  rcases eq_or_ne i k with rfl | hne
  · -- a request of the frame was out, so somebody waits, and it is for him
    obtain ⟨r, hr, hanswers'⟩ := List.any_eq_true.mp hany
    simp only [Object.answers, Bool.and_eq_true, decide_eq_true_eq] at hanswers'
    obtain ⟨⟨hrk, rfl⟩, -⟩ := hanswers'
    have hpos : s.state.outstanding i ≠ 0 := Nat.ne_of_gt (outstanding_pos hany)
    obtain ⟨v, hv, hk⟩ : ∃ v ∈ s.state.waiting, v.kind = i := by
      by_contra hnone
      exact hpos (hs.quiet fun v hv hk => hnone ⟨v, hv, hk⟩).1
    obtain ⟨e, he, -, hmain⟩ := hs.noted v hv
    have hp : Pending O i part begun s.state v e :=
      (hs.place v hv hk e he).resolve_right fun hsettled => hpos hsettled.1
    obtain ⟨hmore, hended⟩ := hanswers.ends hposts hprocess (hmain.trans hk) hp.begun
    refine ⟨fun hall => absurd hk (hall v hv), fun u hu huk e' he' => .inr ⟨?_, c, ?_⟩⟩
    · rw [hout, hmore, if_neg (by simp), Function.update_self, hp.one]
    · obtain rfl : u = v := hs.alone u hu v hv huk hk
      simp only [Recorded.noted, hmore, Bool.false_eq_true, if_false, hp.ticket r hr hrk,
        Function.update_self, he, Option.map_some, hmain.trans hk, if_true,
        Option.some.injEq] at he'
      subst he'
      exact ⟨rfl, hended⟩
  · refine hs.toPlaced.of_eq (hguards.process hne hposts hprocess)
      ((hkeeps k).trans (if_neg fun hand => hne hand.1.symm)) ?_ (fun r hr hrk => ⟨r, ?_, hrk, rfl⟩)
      (fun _ _ => .rfl) fun v hv hk => ?_
    · rw [hout]
      split
      · rfl
      · exact Function.update_of_ne hne.symm ..
    · simp only [Object.completed] at hr
      split at hr
      · exact hr
      · exact List.mem_of_mem_eraseP hr
    · -- what is noted is about another kind
      obtain ⟨e, he, -, hmain⟩ := hs.noted v hv
      simp only [Recorded.noted]
      split_ifs
      · rfl
      · rcases eq_or_ne v.ticket a with rfl | hva
        · rw [Function.update_self, he, Option.map_some,
            if_neg fun heq => hne (heq.symm.trans (hmain.trans hk))]
        · exact Function.update_of_ne hva ..

omit [DecidableEq θ] in
/-- Whoever has been woken has been answered. -/
theorem settled (hs : Answered O Inv k part busy fresh begun ended due s) {v : Waiter θ ι}
    (hv : v ∈ s.state.waiting) (hk : v.kind = k) {e : Entry α ω χ}
    (he : s.entries v.ticket = some e) (hwoken : v.thread ∈ s.state.collected) :
    Settled k part ended s.state e := by
  refine (hs.place v hv hk e he).resolve_left fun hp => ?_
  have hpos : 0 < s.state.outstanding k := by
    rw [hp.one]
    exact Nat.one_pos
  exact (hs.stored k _ hpos hp.stored).1 hwoken

/-- A thread goes on: if it waited in the kind, nobody does so now, and no request is out. -/
theorem resumed (hO : Parks O Inv) (hguards : Guards O k part busy)
    (hanswers : Answers O k part fresh begun ended returns due)
    (hs : Answered O Inv k part busy fresh begun ended due s) {w : Waiter θ ι}
    (hw : w ∈ s.state.waiting) (hwoken : w.thread ∈ s.state.collected) :
    Placed O k part fresh begun ended (O.resumed s.state w) s.entries := by
  obtain ⟨-, hkeeps⟩ := hO.resume hs.inv (hs.main w hw)
  have hmem : ∀ {v}, v ∈ (O.resumed s.state w).waiting ↔
      v ∈ s.state.waiting ∧ v.thread ≠ w.thread := by
    intro v
    simp [Object.resumed]
  by_cases hk : w.kind = k
  · obtain ⟨e, he, -, hmain⟩ := hs.noted w hw
    obtain ⟨hzero, c, -, hended⟩ := hs.settled hw hk he hwoken
    refine ⟨fun _ => ⟨hzero, ?_⟩, fun v hv hvk => ?_⟩
    · rw [show (O.resumed s.state w).obj = O.resume s.state.obj w.kind from rfl, hk]
      exact hanswers.resumes (hmain.trans hk) hended
    · obtain ⟨hv, hne⟩ := hmem.mp hv
      exact absurd (congrArg Waiter.thread (hs.alone v hv w hw hvk hk)) hne
  · refine hs.toPlaced.of_eq (hguards.resume (hs.main w hw) hk) ?_ rfl
      (fun r hr hrk => ⟨r, hr, hrk, rfl⟩) (fun v hvk => ?_) fun _ _ _ => rfl
    · exact (hkeeps k).trans (if_neg fun hown => hk (hown.1.symm.trans hguards.kind))
    · refine hmem.trans (and_iff_left_of_imp fun hv heq => ?_)
      exact hk (hs.eq_of_thread hv hw heq ▸ hvk)

/-- What a thread is given is what the completion of its own request says. -/
theorem given_own (hanswers : Answers O k part fresh begun ended returns due)
    (hs : Answered O Inv k part busy fresh begun ended due s) {op : Op ι θ α ω χ β}
    (hstep : O.step s.state op = some t) : ∀ r ∈ s.given k part returns op,
      ∃ c, r.1.answer = some c ∧ r.2 = due r.1.call r.1.how c := by
  cases op with
  | resume h =>
    obtain ⟨w, hw, hwoken, -⟩ := Object.step_resume hstep
    have hmem := State.mem_of_waiter hw
    intro r hr
    simp only [Recorded.given, hw, Option.bind_some, List.mem_map, Option.mem_toList] at hr
    obtain ⟨e, he, rfl⟩ := hr
    split_ifs at he with hk
    obtain ⟨e', he', -, hmain⟩ := hs.noted w hmem
    obtain rfl := Option.some.inj (he.symm.trans he')
    obtain ⟨-, c, hc, hended⟩ := hs.settled hmem hk he (State.thread_of_waiter hw ▸ hwoken)
    exact ⟨c, hc, hanswers.reads (hmain.trans hk) hended⟩
  | _ => simp [Recorded.given]

theorem step (hO : Parks O Inv) (hsingle : Single O Inv) (hguards : Guards O k part busy)
    (hanswers : Answers O k part fresh begun ended returns due) {op : Op ι θ α ω χ β}
    (hs : Answered O Inv k part busy fresh begun ended due s)
    (hstep : s.step O k part returns op = some s') :
    Answered O Inv k part busy fresh begun ended due s' := by
  obtain ⟨t, ht, rfl⟩ := Option.map_eq_some_iff.mp hstep
  have hwoken : Woken O Inv t := hs.toWoken.step hO hsingle ht
  have hguarded : Guarded O Inv k part busy t := hs.toGuarded.step hO hguards ht
  have hreturned : ∀ r ∈ s.returned ++ s.given k part returns op,
      ∃ c, r.1.answer = some c ∧ r.2 = due r.1.call r.1.how c := by
    intro r hr
    exact (List.mem_append.mp hr).elim (hs.returned r) (hs.given_own hanswers ht r)
  suffices hplaced : Placed O k part fresh begun ended t (s.noted O op) from
    ⟨hwoken, hguarded.flag, hguarded.alone, hguarded.heldIn, hplaced, hs.noted_step ht, hreturned⟩
  have hkept : ∀ r ∈ s.state.requests, r.frame = k →
      ∃ r' ∈ s.state.requests, r'.frame = k ∧ r'.ticket = r.ticket :=
    fun r hr hrk => ⟨r, hr, hrk, rfl⟩
  cases op with
  | create a x =>
    obtain ⟨-, rfl⟩ := Object.step_create ht
    exact hs.toPlaced.of_eq rfl rfl rfl hkept (fun _ _ => .rfl) fun _ _ _ => rfl
  | await a h w =>
    obtain ⟨x, hx, -, hticket, rfl⟩ := Object.step_await ht
    exact hs.awaited hO hguards hanswers hx hticket
  | submit =>
    cases ht
    refine hs.toPlaced.of_eq rfl rfl (congrFun outstanding_submitted k) (fun r hr hrk => ?_)
      (fun _ _ => .rfl) fun _ _ _ => rfl
    obtain ⟨r', hr', rfl⟩ := List.mem_map.mp hr
    split at hrk <;> rename_i hsubmitted
    · exact ⟨r', hr', hrk, by rw [if_pos hsubmitted]⟩
    · exact ⟨r', hr', hrk, by rw [if_neg hsubmitted]⟩
  | complete i a c =>
    obtain ⟨o, found, hany, hposts, hprocess, rfl⟩ := Object.step_complete ht
    exact hs.completed hO hguards hanswers hany hposts hprocess
  | resume h =>
    obtain ⟨w, hw, hcollected, rfl⟩ := Object.step_resume ht
    exact hs.resumed hO hguards hanswers (State.mem_of_waiter hw)
      (State.thread_of_waiter hw ▸ hcollected)
  | destroy a =>
    obtain ⟨x, -, -, rfl⟩ := Object.step_destroy ht
    exact hs.toPlaced.of_eq rfl rfl rfl hkept (fun _ _ => .rfl) fun _ _ _ => rfl
  | other b =>
    obtain ⟨o, ho, rfl⟩ := Object.step_other ht
    exact hs.toPlaced.of_eq (hguards.other ho) ((hO.other hs.inv ho).2 k) rfl hkept
      (fun _ _ => .rfl) fun _ _ _ => rfl

end Answered

/-- **A thread is given what its own request came to**, in an operation that is guarded. -/
theorem along_returnsOwn (hO : Parks O Inv) (hsingle : Single O Inv)
    (hguards : Guards O k part busy)
    (hanswers : Answers O k part fresh begun ended returns due) {o : σ} {m : μ}
    (ho : Inv o fun _ => 0) (hfresh : fresh (part o)) (ops : List (Op ι θ α ω χ β)) :
    Along (Recorded.step O k part returns) (ReturnsOwn due) (Recorded.init o m) ops :=
  (along_of_invariant
    (fun _ _ _ hs hstep => Answered.step hO hsingle hguards hanswers hs hstep)
    (Answered.init ho hfresh)).mono fun _ hs => hs.returnsOwn

end Shared
