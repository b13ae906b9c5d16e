import Fiona.Context.Task

/-!
# The loop of an `io_context`

`io_context::run` as the source has it: the loop over `tasks_`, the loop over `run_queue_` in it,
the batch of completions, the loop over the handles that were collected from them, the places
where `exception_ptr_` is looked at, and the way out. Each step of `run` is one label; which
completions there are and what they bring is up to the labels, and so is what a coroutine does
while it is resumed.

An exception that leaves `resume` or `await_process_cqe` unwinds `run` from where it is: the front
of `run_queue_` has not been popped then, and the handles that were collected are gone. On every
way out the outer guard calls `clear`, in the order in which the map has its tasks. What becomes
of the completions on the way out is not followed here.
-/

namespace Fiona

/-- Where `run` is, or its caller. -/
inductive Phase
  | idle
  /-- At the head of the loop over `tasks_`. -/
  | head
  /-- At the head of the loop over `run_queue_`. -/
  | queue
  /-- In `resume` for the front of `run_queue_`. -/
  | starting (t : TaskId)
  /-- In `io_uring_submit_and_wait`. -/
  | waiting
  /-- In the loop over the completions, with the handles found so far. -/
  | batch (handles : List Coro)
  /-- At the head of the loop over the handles, with those to come. -/
  | handles (rest : List Coro)
  /-- In `resume` for one of the handles. -/
  | resuming (c : Coro) (rest : List Coro)
  | returning
  | unwinding (e : Exn)
  /-- `run` has just returned, or thrown. -/
  | returned (result : Option Exn)
  deriving DecidableEq, Repr

namespace Phase

/-- A coroutine is being resumed. -/
def resumes : Phase → Bool
  | starting _ | resuming .. => true
  | _ => false

/-- The code of the callers runs, in a coroutine or outside of `run`. -/
def callers : Phase → Bool
  | idle | returned _ | starting _ | resuming .. => true
  | _ => false

/-- The callers go on. -/
def next : Phase → Phase
  | returned _ => idle
  | p => p

theorem callers_of_resumes {p : Phase} (hp : p.resumes = true) : p.callers = true := by
  cases p <;> first | rfl | cases hp

/-- Where the code of the callers runs, it goes on in the same place, or outside of `run`. -/
theorem next_of_callers {p : Phase} (hp : p.callers = true) :
    (∀ e, p.next ≠ unwinding e) ∧ (∀ t, p.next = starting t → p = starting t) ∧ p.next ≠ waiting ∧
      p.next ≠ returning := by
  cases p <;> simp_all [next, callers]

end Phase

/-- A context and its loop, with the tasks that have been started from `run_queue_`, in this
order, and the results of the calls of `run`. -/
structure Loop where
  ctx : Tasks
  phase : Phase
  started : List TaskId
  results : List (Option Exn)

inductive LoopOp
  /-- The callers call `run`. -/
  | run
  /-- The callers do something with tasks and handles. -/
  | act (op : TaskOp)
  /-- `run` goes on from the head of one of its loops. -/
  | advance
  /-- The coroutine that was resumed is suspended again or has ended. -/
  | yield
  /-- `io_uring_submit_and_wait` returns. -/
  | ready
  /-- A completion has been processed, and a handle may have been found. -/
  | completion (h : Option Coro)
  /-- The record of a posted task has been processed. -/
  | posted
  /-- Processing a completion throws. -/
  | throws (e : Exn)
  /-- The batch is over. -/
  | processed
  /-- The scopes of `run` are left; the outer guard clears `tasks_` in this order. -/
  | leave (order : List TaskId)
  deriving DecidableEq, Repr

namespace Loop

def init : Loop := ⟨.init, .idle, [], []⟩

variable (s : Loop)

/-- `exception_ptr_` is rethrown, or `run` goes on. -/
def check (p : Phase) : Loop :=
  match s.ctx.exceptionPtr with
  | some e => { s with phase := .unwinding e }
  | none => { s with phase := p }

variable {s} in
theorem check_of_some {e : Exn} (hep : s.ctx.exceptionPtr = some e) (p : Phase) :
    s.check p = { s with phase := .unwinding e } := by
  rw [check, hep]

variable {s} in
theorem check_of_none (hep : s.ctx.exceptionPtr = none) (p : Phase) :
    s.check p = { s with phase := p } := by
  rw [check, hep]

/-- Only a coroutine that has been started awaits or ends, while it is resumed. -/
def permits : TaskOp → Bool
  | .post | .clear _ => false
  | .finish t | .fail t _ | .await _ _ t => s.phase.resumes && decide (t ∈ s.started)
  | _ => s.phase.callers

/-- Code of the callers: an exception that leaves `resume` unwinds `run`. -/
def act (op : TaskOp) : Option Loop := do
  if s.permits op && s.ctx.allows op then
    let (ctx, e) ← s.ctx.perform op
    match e with
    | some e => some { s with ctx := ctx, phase := .unwinding e }
    | none => some { s with ctx := ctx, phase := s.phase.next }
  else none

/-- From the head of a loop. -/
def advance : Option Loop :=
  match s.phase with
  | .head => some (if s.ctx.tasks = [] then s.check .returning else s.check .queue)
  | .queue =>
    match s.ctx.runQueue with
    | t :: _ => some { s with phase := .starting t, started := s.started ++ [t] }
    | [] => some (if s.ctx.tasks = [] then s.check .returning else { s with phase := .waiting })
  | .handles (c :: rest) => some { s with phase := .resuming c rest }
  -- `exception_ptr_` is not looked at before the head of the outer loop
  | .handles [] => some { s with phase := .head }
  | _ => none

/-- `resume` returns. -/
def yield : Option Loop :=
  match s.phase with
  | .starting _ =>
    -- `pop_front`, with whatever has been queued behind the task meanwhile
    some ({ s with ctx := { s.ctx with runQueue := s.ctx.runQueue.tail } }.check .queue)
  | .resuming _ rest => some { s with phase := .handles rest }
  | _ => none

/-- The outer guard, and what `run` does last. -/
def exit (order : List TaskId) (result : Option Exn) : Option Loop :=
  if order.Perm s.ctx.tasks then
    (s.ctx.clear order).map fun ctx =>
      { s with ctx := ctx, phase := .returned result, results := s.results ++ [result] }
  else none

def leave (order : List TaskId) : Option Loop :=
  match s.phase with
  | .returning => s.exit order none
  | .unwinding e => s.exit order (some e)
  | _ => none

/-- One step. -/
def step : LoopOp → Option Loop
  | .run =>
    match s.phase with
    | .idle | .returned _ => some { s with phase := .head }
    | _ => none
  | .act op => s.act op
  | .advance => s.advance
  | .yield => s.yield
  | .ready => if s.phase = .waiting then some { s with phase := .batch [] } else none
  | .completion h =>
    match s.phase with
    | .batch handles => some (s.check (.batch (handles ++ h.toList)))
    | _ => none
  | .posted =>
    match s.phase with
    | .batch handles => s.ctx.post.map fun ctx => { s with ctx := ctx }.check (.batch handles)
    | _ => none
  | .throws e =>
    match s.phase with
    | .batch _ => some { s with phase := .unwinding e }
    | _ => none
  | .processed =>
    match s.phase with
    | .batch handles => some { s with phase := .handles handles }
    | _ => none
  | .leave order => s.leave order

/-! ### What a step does -/

variable {s} {s' : Loop} {op : LoopOp}

@[simp] theorem check_ctx (s : Loop) (p : Phase) : (s.check p).ctx = s.ctx := by
  unfold check
  split <;> rfl

@[simp] theorem check_results (s : Loop) (p : Phase) : (s.check p).results = s.results := by
  unfold check
  split <;> rfl

/-- `run` is about to return only where `tasks_` is empty and `exception_ptr_` has been found to be
null. -/
theorem check_returns {p : Phase} (hp : p = .returning → s.ctx.tasks = [])
    (hphase : (s.check p).phase = .returning) :
    s.ctx.exceptionPtr = none ∧ s.ctx.tasks = [] := by
  cases hep : s.ctx.exceptionPtr with
  | some e => simp [check_of_some hep] at hphase
  | none =>
    rw [check_of_none hep] at hphase
    exact ⟨rfl, hp hphase⟩

theorem check_going {p : Phase} (hp : ∀ r, p ≠ .returned r) (r : Option Exn) :
    (s.check p).phase ≠ .returned r := by
  unfold check
  split
  · simp
  · exact hp r

theorem callers_of_permits {top : TaskOp} (hpermits : s.permits top = true) :
    s.phase.callers = true := by
  unfold permits at hpermits
  split at hpermits
  · cases hpermits
  · cases hpermits
  · exact Phase.callers_of_resumes ((Bool.and_eq_true _ _).mp hpermits).1
  · exact Phase.callers_of_resumes ((Bool.and_eq_true _ _).mp hpermits).1
  · exact Phase.callers_of_resumes ((Bool.and_eq_true _ _).mp hpermits).1
  · exact hpermits

/-- What a step does to the tasks. -/
inductive Moves (ctx : Tasks) : LoopOp → Tasks → Prop
  | same {op : LoopOp} : Moves ctx op ctx
  | popped {queue : List TaskId} : Moves ctx .yield { ctx with runQueue := queue }
  | acted {top : TaskOp} {ctx' : Tasks} {e : Option Exn} (hop : ctx.allows top = true)
      (hperform : ctx.perform top = some (ctx', e)) : Moves ctx (.act top) ctx'
  | posted {ctx' : Tasks} (hpost : ctx.post = some ctx') : Moves ctx .posted ctx'
  | cleared {order : List TaskId} {ctx' : Tasks} (horder : order.Perm ctx.tasks)
      (hclear : ctx.clear order = some ctx') : Moves ctx (.leave order) ctx'

theorem act_cases {top : TaskOp} (hact : s.act top = some s') :
    s.permits top = true ∧ s.ctx.allows top = true ∧ ∃ e, s.ctx.perform top = some (s'.ctx, e) ∧
      s' = { s with ctx := s'.ctx, phase := (e.map Phase.unwinding).getD s.phase.next } := by
  unfold act at hact
  split_ifs at hact with hop
  obtain ⟨hpermits, hallows⟩ := (Bool.and_eq_true _ _).mp hop
  obtain ⟨⟨ctx, e⟩, hperform, hact⟩ := Option.bind_eq_some_iff.mp hact
  cases e with
  | some e =>
    obtain rfl := Option.some.inj hact
    exact ⟨hpermits, hallows, some e, hperform, rfl⟩
  | none =>
    obtain rfl := Option.some.inj hact
    exact ⟨hpermits, hallows, none, hperform, rfl⟩

theorem leave_cases {order : List TaskId} (hleave : s.leave order = some s') :
    ∃ r, (r = none ∧ s.phase = .returning ∨ ∃ e, r = some e ∧ s.phase = .unwinding e) ∧
      order.Perm s.ctx.tasks ∧ s.ctx.clear order = some s'.ctx ∧
      s' = { s with ctx := s'.ctx, phase := .returned r, results := s.results ++ [r] } := by
  have hexit : ∀ {r : Option Exn}, s.exit order r = some s' → order.Perm s.ctx.tasks ∧
      s.ctx.clear order = some s'.ctx ∧
      s' = { s with ctx := s'.ctx, phase := .returned r, results := s.results ++ [r] } := by
    intro r hexit
    unfold exit at hexit
    split_ifs at hexit with horder
    obtain ⟨ctx, hclear, rfl⟩ := Option.map_eq_some_iff.mp hexit
    exact ⟨horder, hclear, rfl⟩
  unfold leave at hleave
  split at hleave
  · rename_i hphase
    exact ⟨none, .inl ⟨rfl, hphase⟩, hexit hleave⟩
  · rename_i e hphase
    exact ⟨some e, .inr ⟨e, rfl, hphase⟩, hexit hleave⟩
  · simp at hleave

/-- `run` goes on from a loop head, and nothing happens to the tasks. -/
theorem advance_keeps (hadvance : s.advance = some s') : s'.ctx = s.ctx ∧
    (s'.results = s.results ∧ ∀ r, s'.phase ≠ .returned r) ∧
    (s'.phase = .returning → s.ctx.exceptionPtr = none ∧ s.ctx.tasks = []) := by
  unfold advance at hadvance
  split at hadvance
  · obtain rfl := Option.some.inj hadvance
    split_ifs with htasks
    · exact ⟨check_ctx .., ⟨check_results .., check_going (by simp)⟩,
        check_returns fun _ => htasks⟩
    · exact ⟨check_ctx .., ⟨check_results .., check_going (by simp)⟩, check_returns (by simp)⟩
  · split at hadvance
    · obtain rfl := Option.some.inj hadvance
      exact ⟨rfl, ⟨rfl, by simp⟩, by simp⟩
    · obtain rfl := Option.some.inj hadvance
      split_ifs with htasks
      · exact ⟨check_ctx .., ⟨check_results .., check_going (by simp)⟩,
          check_returns fun _ => htasks⟩
      · exact ⟨rfl, ⟨rfl, by simp⟩, by simp⟩
  · obtain rfl := Option.some.inj hadvance
    exact ⟨rfl, ⟨rfl, by simp⟩, by simp⟩
  · obtain rfl := Option.some.inj hadvance
    exact ⟨rfl, ⟨rfl, by simp⟩, by simp⟩
  · simp at hadvance

theorem yield_keeps (hyield : s.yield = some s') :
    (s'.ctx = s.ctx ∨ s'.ctx = { s.ctx with runQueue := s.ctx.runQueue.tail }) ∧
      (s'.results = s.results ∧ ∀ r, s'.phase ≠ .returned r) ∧
      s'.phase ≠ .returning := by
  unfold yield at hyield
  split at hyield
  · obtain rfl := Option.some.inj hyield
    refine ⟨.inr (check_ctx ..), ⟨check_results .., check_going (by simp)⟩, ?_⟩
    unfold check
    split <;> simp
  · obtain rfl := Option.some.inj hyield
    exact ⟨.inl rfl, ⟨rfl, by simp⟩, by simp⟩
  · simp at hyield

/-- **Each step does one thing to the tasks**; it leaves the results, and `run` is not over after
it, unless it is the last one of a call of `run`; and where `run` is about to return,
`exception_ptr_` is null and `tasks_` is empty. -/
theorem step_moves (hstep : s.step op = some s') :
    Moves s.ctx op s'.ctx ∧
      ((s'.results = s.results ∧ ∀ r, s'.phase ≠ .returned r) ∨ ∃ order, op = .leave order) ∧
      (s'.phase = .returning → s'.ctx.exceptionPtr = none ∧ s'.ctx.tasks = []) := by
  cases op with
  | run =>
    simp only [step] at hstep
    split at hstep
    · obtain rfl := Option.some.inj hstep
      exact ⟨.same, .inl ⟨rfl, by simp⟩, by simp⟩
    · obtain rfl := Option.some.inj hstep
      exact ⟨.same, .inl ⟨rfl, by simp⟩, by simp⟩
    · simp at hstep
  | act top =>
    obtain ⟨hpermits, hallows, e, hperform, heq⟩ := act_cases hstep
    refine ⟨.acted hallows hperform, .inl ⟨by rw [heq], fun r => ?_⟩, fun hphase => ?_⟩
    · rw [heq]
      cases e with
      | some e => simp
      | none => cases s.phase <;> simp [Phase.next]
    have hreturns := (Phase.next_of_callers (callers_of_permits hpermits)).2.2.2
    rw [heq] at hphase
    cases e with
    | some e => simp at hphase
    | none => exact absurd hphase hreturns
  | advance =>
    obtain ⟨hctx, hresults, hreturns⟩ := advance_keeps hstep
    rw [hctx]
    exact ⟨.same, .inl hresults, hreturns⟩
  | yield =>
    obtain ⟨hctx, hresults, hreturns⟩ := yield_keeps hstep
    rcases hctx with hctx | hctx
    · rw [hctx]
      exact ⟨.same, .inl hresults, fun hphase => absurd hphase hreturns⟩
    · rw [hctx]
      exact ⟨.popped, .inl hresults, fun hphase => absurd hphase hreturns⟩
  | ready =>
    simp only [step] at hstep
    split_ifs at hstep
    obtain rfl := Option.some.inj hstep
    exact ⟨.same, .inl ⟨rfl, by simp⟩, by simp⟩
  | completion h =>
    simp only [step] at hstep
    split at hstep
    · obtain rfl := Option.some.inj hstep
      rw [check_ctx]
      exact ⟨.same, .inl ⟨check_results .., check_going (by simp)⟩, check_returns (by simp)⟩
    · simp at hstep
  | posted =>
    simp only [step] at hstep
    split at hstep
    · obtain ⟨ctx, hpost, rfl⟩ := Option.map_eq_some_iff.mp hstep
      rw [check_ctx]
      exact ⟨.posted hpost, .inl ⟨check_results .., check_going (by simp)⟩,
        check_returns (by simp)⟩
    · simp at hstep
  | throws e =>
    simp only [step] at hstep
    split at hstep
    · obtain rfl := Option.some.inj hstep
      exact ⟨.same, .inl ⟨rfl, by simp⟩, by simp⟩
    · simp at hstep
  | processed =>
    simp only [step] at hstep
    split at hstep
    · obtain rfl := Option.some.inj hstep
      exact ⟨.same, .inl ⟨rfl, by simp⟩, by simp⟩
    · simp at hstep
  | leave order =>
    obtain ⟨r, -, horder, hclear, heq⟩ := leave_cases hstep
    exact ⟨.cleared horder hclear, .inr ⟨order, rfl⟩, by rw [heq]; simp⟩

/-- Only the way out leads from an exception that leaves `run`. -/
theorem leave_of_unwinding {e : Exn} (hphase : s.phase = .unwinding e)
    (hstep : s.step op = some s') : ∃ order, op = .leave order := by
  cases op with
  | leave order => exact ⟨order, rfl⟩
  | act top =>
    -- no code of the callers runs while the stack of `run` is unwound
    have hno : s.permits top = false := by
      unfold permits
      rw [hphase]
      cases top <;> rfl
    simp [step, act, hno] at hstep
  | _ => simp [step, advance, yield, hphase] at hstep

/-- What calls of `run` have resulted in stays. -/
theorem results_subset (hstep : s.step op = some s') : s.results ⊆ s'.results := by
  rcases (step_moves hstep).2.1 with ⟨heq, -⟩ | ⟨order, rfl⟩
  · rw [heq]
    exact List.Subset.refl _
  · obtain ⟨r, -, -, -, heq⟩ := leave_cases hstep
    rw [heq]
    exact List.subset_append_left ..

/-- An exception that leaves `run` is its result. -/
theorem mem_results_of_unwinding {e : Exn} (hphase : s.phase = .unwinding e)
    (hstep : s.step op = some s') :
    some e ∈ s'.results := by
  obtain ⟨order, rfl⟩ := leave_of_unwinding hphase hstep
  obtain ⟨r, hcases, -, -, heq⟩ := leave_cases hstep
  rcases hcases with ⟨-, hreturning⟩ | ⟨e', rfl, he'⟩
  · exact absurd (hphase.symm.trans hreturning) (by simp)
  · obtain rfl := Phase.unwinding.inj (hphase.symm.trans he')
    rw [heq]
    exact List.mem_append_right _ List.mem_cons_self

end Loop

end Fiona
