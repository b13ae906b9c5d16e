import Fiona.Context.CallStack

/-!
# What the coroutines compute

A coroutine that awaits tasks is written as if it called functions. `Fiona.Coroutine.Evals` takes it
at its word: it evaluates the body of a coroutine from one point on, and where the body awaits a
task it evaluates the body of that task, to its result, before it goes on. There is no state, and
nothing is suspended; what the outside world answers is a list that is consumed from the front.

The coroutines end with a result exactly when this evaluation has it
(`Fiona.Coroutine.evals_iff_ended`): the transfers of control from frame to frame, each with a
continuation stored and taken up again, are calls and returns.
-/

namespace Fiona
namespace Coroutine

variable {S V E A : Type}

/-- From the point `b` on, with these tasks in its variables, a body that is given the answers `as`
has the result `r`, and at the end these tasks in its variables. -/
inductive Evals (body : Body S V E A) :
    S → Vars S V E → List A → Except E V → Vars S V E → Prop
  | coReturn {b vars v} (hb : body b = .coReturn v) : Evals body b vars [] (.ok v) vars
  | throws {b vars e} (hb : body b = .throws e) : Evals body b vars [] (.error e) vars
  | calls {b vars callee args k as r vs} (hb : body b = .calls callee args k)
      (next : Evals body k ((moveArgs args vars).2 ++
        [some (.node (.unstarted callee) (moveArgs args vars).1)]) as r vs) :
      Evals body b vars as r vs
  | awaitTask {b vars x leaves k c us as₁ r₁ us' as₂ r vs} (hb : body b = .coAwait x leaves k)
      (task : vars.getD x none = some (.node (.unstarted c) us))
      (call : Evals body c us as₁ r₁ us')
      (next : Evals body (k r₁) (vars.set x (taken leaves r₁ us')) as₂ r vs) :
      Evals body b vars (as₁ ++ as₂) r vs
  | awaitResult {b vars x leaves k r₁ us as r vs} (hb : body b = .coAwait x leaves k)
      (task : vars.getD x none = some (.node (.finished r₁) us))
      (next : Evals body (k r₁) (vars.set x (taken leaves r₁ us)) as r vs) :
      Evals body b vars as r vs
  | suspends {b vars k a as r vs} (hb : body b = .suspends k)
      (next : Evals body (k a) vars as r vs) : Evals body b vars (a :: as) r vs
  | newTask {b vars k as r vs} (hb : body b = .newTask k)
      (next : Evals body k (vars ++ [none]) as r vs) : Evals body b vars as r vs
  | moveConstruct {b vars x k as r vs} (hb : body b = .moveConstruct x k)
      (next : Evals body k (vars.set x none ++ [vars.getD x none]) as r vs) :
      Evals body b vars as r vs
  | moveAssign {b vars x y k as r vs} (hb : body b = .moveAssign x y k)
      (next : Evals body k (moveAssign x y vars) as r vs) : Evals body b vars as r vs
  | destroys {b vars x k as r vs} (hb : body b = .destroys x k)
      (next : Evals body k (vars.set x none) as r vs) : Evals body b vars as r vs

/-- The answers in a run. -/
def answers (ops : List (Op A)) : List A :=
  ops.filterMap fun
    | .answer a => some a
    | _ => none

variable {body : Body S V E A} {b : S} {vars vs : Vars S V E} {levels : List (Level S V E)}
  {as : List A} {r : Except E V}

/-! ### From the evaluation to a run -/

theorem run_go {ops : List (Op A)} {K : Conf S V E A}
    (hrun : Transition.run (Conf.step body) (.act body b vars levels) ops = some K) :
    Transition.run (Conf.step body) (.running b vars levels) (.go :: ops) = some K := by
  rw [Transition.run_cons, Conf.step, Option.bind_some, hrun]

/-- **The stack follows the evaluation**, on top of any levels. -/
theorem Evals.run (hev : Evals body b vars as r vs) (levels : List (Level S V E)) :
    ∃ ops, answers ops = as ∧
      Transition.run (Conf.step body) (.running b vars levels) ops = some (.ret r vs levels) := by
  induction hev generalizing levels with
  | coReturn hb => exact ⟨[.go], rfl, run_go (by rw [Conf.act, hb]; rfl)⟩
  | throws hb => exact ⟨[.go], rfl, run_go (by rw [Conf.act, hb]; rfl)⟩
  | calls hb _ ih =>
    obtain ⟨ops, hans, hrun⟩ := ih levels
    exact ⟨.go :: ops, hans, run_go (by rw [Conf.act, hb]; exact hrun)⟩
  | @awaitTask b vars x leaves k c us as₁ r₁ us' as₂ r vs hb task _ _ ih₁ ih₂ =>
    obtain ⟨ops₁, hans₁, hrun₁⟩ := ih₁ (⟨vars.set x none, x, leaves, k⟩ :: levels)
    obtain ⟨ops₂, hans₂, hrun₂⟩ := ih₂ levels
    refine ⟨.go :: (ops₁ ++ ops₂), ?_, run_go ?_⟩
    · rw [← hans₁, ← hans₂]
      exact List.filterMap_append
    · rw [Conf.act, hb]
      simp only [Conf.await, task]
      rw [Transition.run_append_of_run hrun₁, Conf.ret, List.set_set]
      exact hrun₂
  | awaitResult hb task _ ih =>
    obtain ⟨ops, hans, hrun⟩ := ih levels
    refine ⟨.go :: ops, hans, run_go ?_⟩
    rw [Conf.act, hb]
    simp only [Conf.await, task]
    exact hrun
  | @suspends b vars k a as r vs hb _ ih =>
    obtain ⟨ops, hans, hrun⟩ := ih levels
    refine ⟨.go :: .answer a :: ops, congrArg (a :: ·) hans, run_go ?_⟩
    rw [Conf.act, hb, Transition.run_cons]
    exact hrun
  | newTask hb _ ih =>
    obtain ⟨ops, hans, hrun⟩ := ih levels
    exact ⟨.go :: ops, hans, run_go (by rw [Conf.act, hb]; exact hrun)⟩
  | moveConstruct hb _ ih =>
    obtain ⟨ops, hans, hrun⟩ := ih levels
    exact ⟨.go :: ops, hans, run_go (by rw [Conf.act, hb]; exact hrun)⟩
  | moveAssign hb _ ih =>
    obtain ⟨ops, hans, hrun⟩ := ih levels
    exact ⟨.go :: ops, hans, run_go (by rw [Conf.act, hb]; exact hrun)⟩
  | destroys hb _ ih =>
    obtain ⟨ops, hans, hrun⟩ := ih levels
    exact ⟨.go :: ops, hans, run_go (by rw [Conf.act, hb]; exact hrun)⟩

/-! ### From a run to the evaluation -/

/-- The top is evaluated, and then each level with the result of the one above it. -/
def EvalsAt (body : Body S V E A) :
    S → Vars S V E → List (Level S V E) → List A → Except E V → Prop
  | b, vars, [], as, r => ∃ vs, Evals body b vars as r vs
  | b, vars, l :: levels, as, r => ∃ as₁ as₂ r₁ vs, as = as₁ ++ as₂ ∧ Evals body b vars as₁ r₁ vs ∧
      EvalsAt body (l.k r₁) (l.vars.set l.x (taken l.leaves r₁ vs)) levels as₂ r

/-- What is left to evaluate has the result `r`. -/
def Conf.Evals (body : Body S V E A) (K : Conf S V E A) (as : List A) (r : Except E V) : Prop :=
  match K with
  | .created b vars => EvalsAt body b vars [] as r
  | .running b vars levels => EvalsAt body b vars levels as r
  | .outside k vars levels => ∃ a as', as = a :: as' ∧ EvalsAt body (k a) vars levels as' r
  | .ended r' _ => as = [] ∧ r = r'
  | .gone => False
  | .fault => False

/-- A step of the top, which may use up some answers. -/
theorem EvalsAt.cons {b' : S} {vars' : Vars S V E} (as₁ : List A)
    (hstep : ∀ as r vs, Coroutine.Evals body b' vars' as r vs →
      Coroutine.Evals body b vars (as₁ ++ as) r vs)
    (hev : EvalsAt body b' vars' levels as r) : EvalsAt body b vars levels (as₁ ++ as) r := by
  cases levels with
  | nil =>
    obtain ⟨vs, hev⟩ := hev
    exact ⟨vs, hstep _ _ _ hev⟩
  | cons l levels =>
    obtain ⟨as₂, as₃, r₁, vs, rfl, hev, hrest⟩ := hev
    exact ⟨as₁ ++ as₂, as₃, r₁, vs, (List.append_assoc ..).symm, hstep _ _ _ hev, hrest⟩

theorem EvalsAt.ret {r₁ : Except E V} (hend : Coroutine.Evals body b vars [] r₁ vars)
    (hev : (Conf.ret r₁ vars levels).Evals body as r) : EvalsAt body b vars levels as r := by
  cases levels with
  | nil =>
    obtain ⟨rfl, rfl⟩ := hev
    exact ⟨vars, hend⟩
  | cons l levels => exact ⟨[], as, r₁, vars, rfl, hend, hev⟩

theorem EvalsAt.await {x : Nat} {leaves : V → V} {k : Except E V → S}
    (hb : body b = .coAwait x leaves k)
    (hev : (Conf.await vars x leaves k levels).Evals body as r) :
    EvalsAt body b vars levels as r := by
  cases ht : vars.getD x none with
  | none =>
    rw [Conf.await, ht] at hev
    exact hev.elim
  | some t =>
    obtain ⟨l, us⟩ := t
    cases l with
    | unstarted c =>
      rw [Conf.await, ht] at hev
      obtain ⟨as₁, as₂, r₁, us', rfl, hcall, hrest⟩ := hev
      rw [List.set_set] at hrest
      exact hrest.cons as₁ fun _ _ _ hnext => .awaitTask hb ht hcall hnext
    | finished r₁ =>
      rw [Conf.await, ht] at hev
      exact EvalsAt.cons [] (fun _ _ _ hnext => .awaitResult hb ht hnext) hev

/-- **One thing the top does**, and what is left to evaluate after it. -/
theorem Conf.Evals.act (hev : (Conf.act body b vars levels).Evals body as r) :
    EvalsAt body b vars levels as r := by
  rw [Conf.act] at hev
  cases hb : body b with
  | coReturn v =>
    rw [hb] at hev
    exact .ret (.coReturn hb) hev
  | throws e =>
    rw [hb] at hev
    exact .ret (.throws hb) hev
  | calls callee args k =>
    rw [hb] at hev
    exact EvalsAt.cons [] (fun _ _ _ hnext => .calls hb hnext) hev
  | coAwait x leaves k =>
    rw [hb] at hev
    exact .await hb hev
  | suspends k =>
    rw [hb] at hev
    obtain ⟨a, as', rfl, hev⟩ := hev
    exact EvalsAt.cons [a] (fun _ _ _ hnext => .suspends hb hnext) hev
  | newTask k =>
    rw [hb] at hev
    exact EvalsAt.cons [] (fun _ _ _ hnext => .newTask hb hnext) hev
  | moveConstruct x k =>
    rw [hb] at hev
    exact EvalsAt.cons [] (fun _ _ _ hnext => .moveConstruct hb hnext) hev
  | moveAssign x y k =>
    rw [hb] at hev
    exact EvalsAt.cons [] (fun _ _ _ hnext => .moveAssign hb hnext) hev
  | destroys x k =>
    rw [hb] at hev
    exact EvalsAt.cons [] (fun _ _ _ hnext => .destroys hb hnext) hev

/-- **A step backwards**: before the step there were the answers of the step, too. -/
theorem Conf.Evals.step {K K' : Conf S V E A} {op : Op A} (hstep : K.step body op = some K')
    (hev : K'.Evals body as r) : K.Evals body (answers [op] ++ as) r := by
  cases op <;> cases K <;> simp only [Conf.step, Option.some.injEq, reduceCtorEq] at hstep
  all_goals obtain rfl := hstep
  case start.created => exact hev
  case go.running => exact hev.act
  case answer.outside a k vars levels => exact ⟨a, as, rfl, hev⟩
  all_goals exact hev.elim

theorem Conf.Evals.run {K K' : Conf S V E A} {ops : List (Op A)}
    (hrun : Transition.run (Conf.step body) K ops = some K') (hev : K'.Evals body as r) :
    K.Evals body (answers ops ++ as) r := by
  induction ops generalizing K with
  | nil =>
    cases hrun
    exact hev
  | cons op ops ih =>
    obtain ⟨K₁, hstep, hrun⟩ := Transition.run_cons_eq_some.mp hrun
    have hev := (ih hrun).step hstep
    rw [← List.append_assoc] at hev
    rwa [show answers (op :: ops) = answers [op] ++ answers ops from
      List.filterMap_append (l := [op])]

/-! ### Under the scheduler -/

section Scheduler

variable {moved : V → V} {body : Body S V E A} {b : S} {vars : Vars (Loc S V E) V E} {as : List A}
  {r : Except E V}

theorem evals_scheduled {vs : Vars (Loc S V E) V E} {r₁ : Except E V} :
    Evals (withScheduler moved body) (.scheduled r₁) vars as r vs ↔
      as = [] ∧ r = r₁ ∧ vs = vars := by
  constructor
  · intro hev
    cases r₁ with
    | ok v =>
      cases hev
      case coReturn v hb =>
        cases hb
        exact ⟨rfl, rfl, rfl⟩
      all_goals cases ‹withScheduler moved body (.scheduled (.ok v)) = _›
    | error e =>
      cases hev
      case throws e hb =>
        cases hb
        exact ⟨rfl, rfl, rfl⟩
      all_goals cases ‹withScheduler moved body (.scheduled (.error e)) = _›
  · rintro ⟨rfl, rfl, rfl⟩
    cases r with
    | ok v => exact .coReturn rfl
    | error e => exact .throws rfl

/-- The scheduler has the result of its task. -/
theorem evals_scheduler :
    (∃ vs, Evals (withScheduler moved body) .scheduler
      [some (.node (.unstarted (.coro b)) vars)] as r vs) ↔
      ∃ vs, Evals (withScheduler moved body) (.coro b) vars as r vs := by
  constructor
  · rintro ⟨vs, hev⟩
    cases hev
    case awaitTask call hb task next =>
      cases hb
      cases task
      obtain ⟨rfl, rfl, -⟩ := evals_scheduled.mp next
      rw [List.append_nil]
      exact ⟨_, call⟩
    case awaitResult hb task next =>
      cases hb
      cases task
    all_goals cases ‹withScheduler moved body .scheduler = _›
  · rintro ⟨us, hev⟩
    have hend : Evals (withScheduler moved body) (.scheduled r) [taken moved r us] [] r _ :=
      evals_scheduled.mpr ⟨rfl, rfl, rfl⟩
    rw [← List.append_nil as]
    exact ⟨_, .awaitTask rfl rfl hev hend⟩

/-- **The coroutines compute what their bodies say**: whatever is answered, the coroutines under a
scheduler end with a result exactly when the body that `spawn` was given has it, evaluated with
calls in place of transfers. -/
theorem ended_iff_evals (moved : V → V) (body : Body S V E A) (b : S) (as : List A)
    (r : Except E V) :
    (∃ ops t, Transition.run (step (withScheduler moved body)) (.init b) ops = some t ∧
      t.control = .ended ∧ answers ops = as ∧ t.result = some (.ofExcept r)) ↔
      ∃ vs, Evals (withScheduler moved body) (.coro b) [] as r vs := by
  rw [← evals_scheduler]
  constructor
  · rintro ⟨ops, t, hrun, hended, rfl, hresult⟩
    have hrel := (Rep.init b).run (withScheduler moved body) ops
    rw [hrun] at hrel
    generalize hK : Transition.run (Conf.step _) _ ops = oK at hrel
    cases hrel with
    | some hrep =>
      cases hrep with
      | ended control found result holds owns =>
        rw [Coroutines.result, found, Option.map_some, result] at hresult
        obtain rfl := Result.ofExcept_injective (Option.some.inj hresult)
        have hev := Conf.Evals.run hK ⟨rfl, rfl⟩
        rw [List.append_nil] at hev
        exact hev
      | created control | running control | outside control | gone control | fault control =>
        rw [control] at hended
        cases hended
  · rintro ⟨vs, hev⟩
    obtain ⟨ops, hans, hrun⟩ := hev.run []
    have hrun : Transition.run (Conf.step (withScheduler moved body)) (.init b) (.start :: ops) =
        some (.ended r vs) := hrun
    have hrel := (Rep.init b).run (withScheduler moved body) (.start :: ops)
    rw [hrun] at hrel
    generalize ht : Transition.run (step _) _ _ = ot at hrel
    cases hrel with
    | some hrep =>
      cases hrep with
      | ended control found result holds owns =>
        refine ⟨_, _, ht, control, hans, ?_⟩
        rw [Coroutines.result, found, Option.map_some, result]

end Scheduler

end Coroutine
end Fiona
