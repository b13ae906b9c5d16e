import Fiona.Lib.Forest
import Fiona.Lib.Run

/-!
# Coroutines that await tasks

What `task.hpp` does with a coroutine that is called by another: the handle `task`, which owns the
frame of the coroutine, the promise in the frame, the awaiter that `co_await` makes of a task, and
the transfer of control from the awaiting coroutine to the awaited one and back. At the bottom is
`detail::scheduler`, the coroutine that `spawn` makes to await the task it is given.

The body of a coroutine is any function from a point of execution, with what the coroutine has in
its variables other than tasks, to what it does there. The tasks it has lie in numbered variables,
its parameters first; a variable whose handle is null, after a move or at the end of its scope, is
`none`. A program names only variables it has.

Coroutines are numbered in the order in which they are made, the scheduler first. What the source
asserts, or what would be undefined, leads to the control state `fault`: a `co_await` of an empty
task, a handle to a frame that has been destroyed, a second continuation, a result that is not
there, a coroutine that is resumed where it is not suspended.
-/

namespace Fiona
namespace Coroutine

abbrev CoroId := Nat

variable {S S' V E A α : Type}

/-! ### Bodies -/

/-- What a coroutine does at a point of its body. `coAwait` says what is left of the value in the
promise when the awaiting coroutine has taken it; `suspends` is a `co_await` of anything that is not
a task, which is answered from outside. -/
inductive Action (S V E A : Type)
  | coReturn (v : V)
  | throws (e : E)
  | calls (callee : S) (args : List Nat) (k : S)
  | coAwait (x : Nat) (leaves : V → V) (k : Except E V → S)
  | suspends (k : A → S)
  | newTask (k : S)
  | moveConstruct (x : Nat) (k : S)
  | moveAssign (x y : Nat) (k : S)
  | destroys (x : Nat) (k : S)

abbrev Body (S V E A : Type) := S → Action S V E A

def Action.map (f : S → S') : Action S V E A → Action S' V E A
  | .coReturn v => .coReturn v
  | .throws e => .throws e
  | .calls callee args k => .calls (f callee) args (f k)
  | .coAwait x leaves k => .coAwait x leaves fun r => f (k r)
  | .suspends k => .suspends fun a => f (k a)
  | .newTask k => .newTask (f k)
  | .moveConstruct x k => .moveConstruct x (f k)
  | .moveAssign x y k => .moveAssign x y (f k)
  | .destroys x k => .destroys x (f k)

/-- The points of `detail::scheduler`, and those of the coroutines of a program. -/
inductive Loc (S V E : Type)
  | scheduler
  | scheduled (r : Except E V)
  | coro (s : S)

/-- `detail::scheduler`: `co_return co_await t`. -/
def withScheduler (moved : V → V) (body : Body S V E A) : Body (Loc S V E) V E A
  | .scheduler => .coAwait 0 moved .scheduled
  | .scheduled (.ok v) => .coReturn v
  | .scheduled (.error e) => .throws e
  | .coro s => (body s).map .coro

/-! ### The variables of a coroutine -/

/-- `task( task&& rhs )`: the handle, and what it leaves. -/
def moveConstruct (x : Nat) (vars : List (Option α)) : Option α × List (Option α) :=
  (vars.getD x none, vars.set x none)

/-- The parameters of a coroutine are move-constructed one after another. -/
def moveArgs : List Nat → List (Option α) → List (Option α) × List (Option α)
  | [], vars => ([], vars)
  | x :: args, vars =>
    let (h, vars) := moveConstruct x vars
    let (hs, vars) := moveArgs args vars
    (h :: hs, vars)

/-- `operator=( task&& rhs )`: the handles change places. -/
def moveAssign (x y : Nat) (vars : List (Option α)) : List (Option α) :=
  if x ≠ y ∧ x < vars.length ∧ y < vars.length then
    (vars.set x (vars.getD y none)).set y (vars.getD x none)
  else
    vars

/-! ### Promises and frames -/

/-- `result_type`, with the value or the exception of the union. -/
inductive Result (V E : Type)
  | uninit
  | ok (v : V)
  | err (e : E)

def Result.ofExcept : Except E V → Result V E
  | .ok v => .ok v
  | .error e => .err e

theorem Result.ofExcept_injective {r r' : Except E V} (h : Result.ofExcept r = .ofExcept r') :
    r = r' := by
  cases r <;> cases r' <;> cases h <;> rfl

structure Promise (V E : Type) where
  continuation : Option CoroId
  result : Result V E

def Promise.init : Promise V E := ⟨none, .uninit⟩

/-- `set_continuation`, which asserts that there is none. -/
def Promise.setContinuation (p : Promise V E) (c : CoroId) : Option (Promise V E) :=
  if p.continuation.isSome then none else some { p with continuation := some c }

/-- `return_value` and `unhandled_exception`. -/
def Promise.setResult (p : Promise V E) (r : Except E V) : Promise V E :=
  { p with result := .ofExcept r }

/-- `result() &&`: the exception is rethrown, the value is moved out. -/
def Promise.take (p : Promise V E) (leaves : V → V) : Option (Except E V × Promise V E) :=
  match p.result with
  | .uninit => none
  | .ok v => some (.ok v, { p with result := .ok (leaves v) })
  | .err e => some (.error e, p)

theorem Promise.take_of_result {p : Promise V E} {r : Except E V}
    (hr : p.result = .ofExcept r) (leaves : V → V) :
    p.take leaves = some (r, { p with result := .ofExcept (r.map leaves) }) := by
  obtain ⟨continuation, result⟩ := p
  obtain rfl : result = .ofExcept r := hr
  cases r with
  | ok v => rfl
  | error e => rfl

/-- Where a coroutine is: in its body – at the start, or running –, suspended in the `co_await` of a
task, whose handle the awaiter has, or of something else, or at the final suspend point. -/
inductive Point (S V E A : Type)
  | body (s : S)
  | awaiting (h : CoroId) (leaves : V → V) (k : Except E V → S)
  | suspended (k : A → S)
  | final

/-- `coroutine_handle::done`. -/
def Point.done : Point S V E A → Bool
  | .final => true
  | _ => false

structure Frame (S V E A : Type) where
  promise : Promise V E
  point : Point S V E A
  tasks : List (Option CoroId)

/-- A frame at the final suspend point. -/
def Frame.finish (f : Frame S V E A) (r : Except E V) : Frame S V E A :=
  { f with promise := f.promise.setResult r, point := .final }

/-! ### Control -/

/-- Who has control: no one yet, a coroutine, the world outside for the coroutine that is suspended,
and after that the event loop. -/
inductive Control
  | created
  | running (c : CoroId)
  | outside (c : CoroId)
  | ended
  | gone
  | fault
  deriving DecidableEq

/-- The coroutines under one scheduler. A reader keeps track of those that have been destroyed. -/
structure Coroutines (S V E A : Type) where
  frames : CoroId → Option (Frame S V E A)
  next : CoroId
  control : Control
  destroyed : List CoroId

/-- The task that is given to `spawn`, and the scheduler that has it as its parameter. -/
def Coroutines.init (s : S) : Coroutines (Loc S V E) V E A where
  frames := fun
    | 0 => some ⟨.init, .body .scheduler, [some 1]⟩
    | 1 => some ⟨.init, .body (.coro s), []⟩
    | _ => none
  next := 2
  control := .created
  destroyed := []

namespace Coroutines

variable (s : Coroutines S V E A)

def setFrame (c : CoroId) (f : Frame S V E A) : Coroutines S V E A :=
  { s with frames := Function.update s.frames c (some f) }

@[simp] theorem setFrame_self (c : CoroId) (f : Frame S V E A) :
    (s.setFrame c f).frames c = some f := Function.update_self ..

theorem setFrame_of_ne {c n : CoroId} (hne : n ≠ c) (f : Frame S V E A) :
    (s.setFrame c f).frames n = s.frames n := Function.update_of_ne hne ..

def fault : Coroutines S V E A := { s with control := .fault }

/-- `task<T>::awaitable::await_resume`, and the coroutine goes on. -/
def awaitResume (c h : CoroId) (leaves : V → V) (k : Except E V → S) : Coroutines S V E A :=
  match s.frames h, s.frames c with
  | some g, some f =>
    match g.promise.take leaves with
    | none => s.fault
    | some (r, p) =>
      { (s.setFrame h { g with promise := p }).setFrame c { f with point := .body (k r) } with
        control := .running c }
  | _, _ => s.fault

/-- `co_await` of a task: `await_ready`, and if the task is not done `await_suspend`, which
transfers control to it. -/
def coAwait (c : CoroId) (f : Frame S V E A) (x : Nat) (leaves : V → V) (k : Except E V → S) :
    Coroutines S V E A :=
  match f.tasks.getD x none with
  | none => s.fault
  | some h =>
    match s.frames h with
    | none => s.fault
    | some g =>
      if g.point.done then
        s.awaitResume c h leaves k
      else
        match g.promise.setContinuation c with
        | none => s.fault
        | some p =>
          { (s.setFrame c { f with point := .awaiting h leaves k }).setFrame h
              { g with promise := p } with control := .running h }

section

variable {s} {c d : CoroId} {f g : Frame S V E A} {x : Nat} {leaves : V → V} {k : Except E V → S}

theorem coAwait_of_empty (hd : f.tasks.getD x none = none) :
    s.coAwait c f x leaves k = s.fault := by
  rw [coAwait, hd]

theorem coAwait_of_done (hd : f.tasks.getD x none = some d) (hg : s.frames d = some g)
    (hdone : g.point = .final) : s.coAwait c f x leaves k = s.awaitResume c d leaves k := by
  simp only [coAwait, hd, hg, hdone, Point.done, if_true]

theorem coAwait_of_unstarted {b : S} (hd : f.tasks.getD x none = some d)
    (hg : s.frames d = some g) (hinit : g.promise = .init) (hbody : g.point = .body b) :
    s.coAwait c f x leaves k =
      { (s.setFrame c { f with point := .awaiting d leaves k }).setFrame d
          { g with promise := ⟨some c, .uninit⟩ } with control := .running d } := by
  simp only [coAwait, hd, hg, hbody, Point.done, Bool.false_eq_true, if_false, hinit,
    Promise.setContinuation, Promise.init, Option.isSome_none]

end

/-- The end of a body: the result is stored, and `final_suspend` transfers control to the
continuation. The scheduler has none; its end leads back to the event loop. -/
def finalSuspend (c : CoroId) (f : Frame S V E A) (r : Except E V) : Coroutines S V E A :=
  let s := s.setFrame c (f.finish r)
  if c = 0 then
    { s with control := .ended }
  else
    match f.promise.continuation with
    | none => s.fault
    | some p =>
      match (s.frames p).map Frame.point with
      | some (.awaiting h leaves k) => s.awaitResume p h leaves k
      | _ => s.fault

theorem finalSuspend_scheduler (f : Frame S V E A) (r : Except E V) :
    s.finalSuspend 0 f r = { s.setFrame 0 (f.finish r) with control := .ended } := by
  simp [finalSuspend]

theorem finalSuspend_of_continuation {c p : CoroId} {f g : Frame S V E A} {r : Except E V}
    {h : CoroId} {leaves : V → V} {k : Except E V → S} (hc : c ≠ 0)
    (hcont : f.promise.continuation = some p) (hp : (s.setFrame c (f.finish r)).frames p = some g)
    (hpoint : g.point = .awaiting h leaves k) :
    s.finalSuspend c f r = (s.setFrame c (f.finish r)).awaitResume p h leaves k := by
  simp only [finalSuspend, if_neg hc, hcont, hp, Option.map_some, hpoint]

/-- A coroutine function is called: the frame is made, its parameters are moved into it, and
`get_return_object` makes the task, which is a new variable. -/
def call (c : CoroId) (f : Frame S V E A) (callee : S) (args : List Nat) (k : S) :
    Coroutines S V E A :=
  let (params, tasks) := moveArgs args f.tasks
  { (s.setFrame s.next ⟨.init, .body callee, params⟩).setFrame c
      { f with point := .body k, tasks := tasks ++ [some s.next] } with next := s.next + 1 }

/-- `coroutine_handle::destroy`, on each of the handles: no more frames can be destroyed than have
been made. -/
def destroy (hs : List CoroId) : Option (Coroutines S V E A) :=
  (Forest.destroy Frame.tasks s.next s.frames hs).map fun (frames, gone) =>
    { s with frames := frames, destroyed := gone ++ s.destroyed }

/-- `~task`, at the end of the scope of a variable. -/
def destroyTask (c : CoroId) (f : Frame S V E A) (x : Nat) (k : S) : Coroutines S V E A :=
  match s.destroy (f.tasks.getD x none).toList with
  | none => s.fault
  | some s' =>
    if (s'.frames c).isSome then
      s'.setFrame c { f with point := .body k, tasks := f.tasks.set x none }
    else
      s.fault

/-- The coroutine that has control does one thing. -/
def act (body : Body S V E A) (c : CoroId) : Coroutines S V E A :=
  match s.frames c with
  | none => s.fault
  | some f =>
    match f.point with
    | .body b =>
      match body b with
      | .coReturn v => s.finalSuspend c f (.ok v)
      | .throws e => s.finalSuspend c f (.error e)
      | .calls callee args k => s.call c f callee args k
      | .coAwait x leaves k => s.coAwait c f x leaves k
      | .suspends k => { s.setFrame c { f with point := .suspended k } with control := .outside c }
      | .newTask k => s.setFrame c { f with point := .body k, tasks := f.tasks ++ [none] }
      | .moveConstruct x k =>
        let (h, tasks) := Coroutine.moveConstruct x f.tasks
        s.setFrame c { f with point := .body k, tasks := tasks ++ [h] }
      | .moveAssign x y k =>
        s.setFrame c { f with point := .body k, tasks := Coroutine.moveAssign x y f.tasks }
      | .destroys x k => s.destroyTask c f x k
    | _ => s.fault

/-- What is suspended in the outside world is resumed there. -/
def resume (c : CoroId) (a : A) : Coroutines S V E A :=
  match s.frames c with
  | none => s.fault
  | some f =>
    match f.point with
    | .suspended k => { s.setFrame c { f with point := .body (k a) } with control := .running c }
    | _ => s.fault

/-- The result that the scheduler has for whoever awaits what `spawn` has given. -/
def result : Option (Result V E) := (s.frames 0).map fun f => f.promise.result

/-- The scheduler is destroyed. -/
def clear : Coroutines S V E A :=
  match s.destroy [0] with
  | none => s.fault
  | some s' => { s' with control := .gone }

end Coroutines

/-- What can happen: the event loop starts the scheduler, the coroutine that has control goes on,
the outside world answers, the scheduler is destroyed – at its end, with the context before it
has been started, or while something under it is suspended. -/
inductive Op (A : Type)
  | start
  | go
  | answer (a : A)
  | clear

def step (body : Body S V E A) (s : Coroutines S V E A) (op : Op A) :
    Option (Coroutines S V E A) :=
  match op, s.control with
  | .start, .created => some { s with control := .running 0 }
  | .go, .running c => some (s.act body c)
  | .answer a, .outside c => some (s.resume c a)
  | .clear, .created => some s.clear
  | .clear, .outside _ => some s.clear
  | .clear, .ended => some s.clear
  | _, _ => none

end Coroutine
end Fiona
