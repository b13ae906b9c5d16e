import Fiona.Lib.RefCount
import Fiona.Lib.Run
import Fiona.Ring

/-!
# Tasks

What `executor.hpp` and `detail/common.hpp` do with the coroutines that `spawn` and `post` make:
the promise of such a coroutine, the handles that refer to it (`internal_task` and, for the
callers, `spawn_awaitable`), the map `tasks_` of those that have not ended, the queue of those
that have not been started, and the exception that is kept for `run`.

The counter of a promise is kept by hand. It lies, with the handles, in a `RefCount.Heap`: the
objects are the coroutine frames, and a handle may lie in the frame of another task. Destroying a
frame destroys the handles in it, and a handle's destructor may destroy the next frame. A frame
that is read or written after its destruction is a fault, `none`. Tasks are numbered in the order
in which they are made; a number is not used again, unlike an address.
-/

namespace Fiona

open RefCount (Heap)

abbrev TaskId := Nat

/-- An exception; the null `exception_ptr` is `none`. -/
abbrev Exn := Nat

inductive HandleKind
  | internalTask
  | spawnAwaitable (wasAwaited : Bool)
  deriving DecidableEq, Repr

/-- A handle: the task it refers to, and the task in whose frame it lies, if it does in one. -/
structure Handle where
  task : TaskId
  kind : HandleKind
  owner : Option TaskId
  deriving DecidableEq, Repr

/-- `internal_promise_base`, apart from `count_`; `done` is true at the final suspend point. -/
structure Promise where
  continuation : Option Coro
  error : Option Exn
  done : Bool
  deriving DecidableEq, Repr

def Promise.init : Promise := ⟨none, none, false⟩

/-- A coroutine that is suspended in a `spawn_awaitable`, and the task to which it belongs: it is
destroyed with the frame of this task. -/
structure Waiter where
  coro : Coro
  handle : Handle
  task : TaskId
  deriving DecidableEq, Repr

/-- The coroutine, and the task for whose end it waits. -/
def Waiter.on (w : Waiter) : Coro × TaskId := (w.coro, w.handle.task)

/-- The tasks of a context. The last six members are what the callers and a reader keep track of:
the coroutines suspended in a `spawn_awaitable`, whether each `await_suspend` so far suspended and
whether it found its task in `tasks_`, the suspensions, the resumptions, the coroutines that have
been destroyed while they were suspended, and the tasks whose exception an `await_resume` has
rethrown. -/
structure Tasks where
  heap : Heap TaskId Handle
  promise : TaskId → Promise
  next : TaskId
  tasks : List TaskId
  runQueue : List TaskId
  exceptionPtr : Option Exn
  waiting : List Waiter
  verdicts : List (Bool × Bool)
  suspended : List (Coro × TaskId)
  resumed : List (Coro × TaskId)
  dropped : List (Coro × TaskId)
  rethrown : List TaskId

namespace Tasks

def init : Tasks where
  heap := ⟨fun _ => 0, fun _ => false, []⟩
  promise := fun _ => .init
  next := 0
  tasks := []
  runQueue := []
  exceptionPtr := none
  waiting := []
  verdicts := []
  suspended := []
  resumed := []
  dropped := []
  rethrown := []

variable (s : Tasks)

def setPromise (t : TaskId) (p : Promise) : Tasks :=
  { s with promise := Function.update s.promise t p }

@[simp] theorem setPromise_self (t : TaskId) (p : Promise) : (s.setPromise t p).promise t = p :=
  Function.update_self ..

theorem setPromise_of_ne {t t' : TaskId} (hne : t' ≠ t) (p : Promise) :
    (s.setPromise t p).promise t' = s.promise t' := Function.update_of_ne hne ..

/-! ### Handles -/

/-- `executor_access_policy::unhandled_exception`: the first exception is kept. -/
def unhandledException (e : Exn) (ep : Option Exn) : Option Exn := if ep.isSome then ep else some e

/-- The exception that `~spawn_awaitable` finds: the task has one, and it was not awaited through
this handle. -/
def unawaited (promise : TaskId → Promise) (h : Handle) : Option Exn :=
  match h.kind with
  | .spawnAwaitable false => (promise h.task).error
  | _ => none

/-- What the destructor of a handle does beside giving up its claim. -/
def handleDestructor (promise : TaskId → Promise) (h : Handle) (ep : Option Exn) : Option Exn :=
  match unawaited promise h with
  | some e => unhandledException e ep
  | none => ep

/-- A coroutine is destroyed with the frame of its task. -/
def remains (heap : Heap TaskId Handle) (w : Waiter) : Bool := heap.alive w.task

/-- Handles are destroyed, each with what its destruction brings about. -/
def destroyHandles (hs : List Handle) : Option Tasks := do
  let (heap, ep) ← s.heap.destroyRefs Handle.task Handle.owner (handleDestructor s.promise)
    s.heap.refs.length s.exceptionPtr hs
  some { s with
    heap := heap
    exceptionPtr := ep
    waiting := s.waiting.filter (remains heap)
    dropped := (s.waiting.filter fun w => !remains heap w).map Waiter.on ++ s.dropped }

/-- `~spawn_awaitable` and `~internal_task`. -/
def destroyHandle (h : Handle) : Option Tasks :=
  -- a handle that is not there would be destroyed a second time
  if h ∈ s.heap.refs then s.destroyHandles [h] else none

/-- A handle is copy-constructed from `h`, in the frame of the task `owner`. -/
def copyHandle (h : Handle) (kind : HandleKind) (owner : Option TaskId) : Option Tasks := do
  let heap ← s.heap.addRef h.task
  some { s with heap := { heap with refs := ⟨h.task, kind, owner⟩ :: heap.refs } }

/-- A handle changes: it is handed over, or it has been awaited. -/
def replaceHandle (h h' : Handle) : Tasks :=
  { s with heap := { s.heap with refs := h' :: s.heap.refs.erase h } }

/-- `--count_ == 0`, and the destruction of the frame. -/
def release (t : TaskId) : Option Tasks := do
  let (heap, more) ← s.heap.release Handle.owner t
  { s with heap := heap }.destroyHandles more

/-- `internal_task::operator=`, and with it that of `spawn_awaitable`: the handle `h` now refers
to the task of `h'`. The exception of the task before is not looked at. -/
def assignHandle (h h' : Handle) : Option Tasks := do
  let s ← { s with heap := s.heap.detach h }.release h.task
  s.copyHandle h' h'.kind h.owner

/-! ### The map of tasks -/

/-- `task_map::add_task`. -/
def addTask (t : TaskId) : Option Tasks := do
  let heap ← s.heap.addRef t
  some { s with heap := heap, tasks := t :: s.tasks }

/-- `task_map::erase_task`. -/
def eraseTask (t : TaskId) : Option Tasks :=
  if t ∈ s.tasks then do
    let s ← s.release t
    some { s with tasks := s.tasks.erase t }
  else none

/-- `task_map::clear`, with the order in which `begin` finds the tasks. -/
def clear : Tasks → List TaskId → Option Tasks
  | s, [] => if s.tasks = [] then some s else none
  | s, t :: order => (s.eraseTask t).bind fun s' => s'.clear order

/-! ### Spawning -/

/-- `scheduler`: a new coroutine, and the `internal_task` that refers to it. -/
def scheduler : Handle × Tasks :=
  let h : Handle := ⟨s.next, .internalTask, none⟩
  let heap := s.heap.create s.next
  (h, { s with
    heap := { heap with refs := h :: heap.refs }
    promise := Function.update s.promise s.next .init
    next := s.next + 1 })

/-- `executor::spawn`; the `spawn_awaitable` that it returns lies in the frame of the task
`owner`. -/
def spawn (owner : Option TaskId) : Option Tasks := do
  let (h, s) := s.scheduler
  let s ← s.addTask h.task
  let s := { s with runQueue := s.runQueue ++ [h.task] }
  -- the parameter of the constructor, and its member
  let s ← s.copyHandle h .internalTask none
  let s ← s.copyHandle h (.spawnAwaitable false) owner
  let s ← s.destroyHandle h
  s.destroyHandle h

/-- The branch of `frame::await_process_cqe` for a task that was posted. -/
def post : Option Tasks := do
  let (h, s) := s.scheduler
  let s ← s.addTask h.task
  let s := { s with runQueue := s.runQueue ++ [h.task] }
  s.destroyHandle h

/-! ### Awaiting and ending -/

/-- `spawn_awaitable::await_resume`. -/
def awaitResume (h : Handle) : Tasks :=
  let s' := s.replaceHandle h { h with kind := .spawnAwaitable true }
  match (s.promise h.task).error with
  | some _ => { s' with rethrown := h.task :: s.rethrown }
  | none => s'

/-- `spawn_awaitable::await_suspend` in a coroutine of the task `g`, and `await_resume` where it
does not suspend. -/
def await (h : Handle) (c : Coro) (g : TaskId) : Tasks :=
  let s := s.setPromise h.task { s.promise h.task with continuation := some c }
  -- the map has a claim of its own to a task that goes on
  let taskEnded := decide (s.heap.count h.task < 2)
  let s := { s with verdicts := s.verdicts ++ [(!taskEnded, decide (h.task ∈ s.tasks))] }
  if taskEnded then s.awaitResume h
  else { s with waiting := ⟨c, h, g⟩ :: s.waiting, suspended := (c, h.task) :: s.suspended }

/-- The coroutine is resumed that the task `t` has as its continuation. -/
def resumeContinuation (t : TaskId) : Option Coro → Tasks
  | none => s
  | some c =>
    let s := { s with resumed := (c, t) :: s.resumed }
    match s.waiting.find? fun w => w.coro = c with
    | none => s
    | some w => { s with waiting := s.waiting.erase w }.awaitResume w.handle

/-- `final_awaitable::await_suspend`, at the final suspend point. -/
def finalSuspend (t : TaskId) : Option Tasks := do
  let s := s.setPromise t { s.promise t with done := true }
  -- read before `erase_task`, which may destroy the frame
  let continuation := (s.promise t).continuation
  let s ← s.eraseTask t
  some (s.resumeContinuation t continuation)

/-- `internal_promise_base::unhandled_exception`: the exception is kept for an awaiter and the task
ends, or it leaves `resume`, and the coroutine is at its final suspend point, too. -/
def fail (t : TaskId) (e : Exn) : Option (Tasks × Option Exn) :=
  if 1 < s.heap.count t then do
    let s ← (s.setPromise t { s.promise t with error := some e }).finalSuspend t
    some (s, none)
  -- `erase_task` is not reached: the task stays in `tasks_` until it is cleared
  else some (s.setPromise t { s.promise t with done := true }, some e)

/-! ### Steps -/

/-- The handle, or one like it, has no coroutine suspended in it. -/
def idle (h : Handle) : Bool := decide ((s.waiting.map Waiter.handle).count h < s.heap.refs.count h)

/-- The task has not ended, and no coroutine of it is suspended in a handle. -/
def runs (t : TaskId) : Bool :=
  decide (t ∈ s.tasks) && !(s.promise t).done && s.waiting.all fun w => decide (w.task ≠ t)

end Tasks

/-- What the callers do with tasks and handles, and what `run` does with tasks. -/
inductive TaskOp
  | spawn (owner : Option TaskId)
  /-- The record of a posted task is processed. -/
  | post
  /-- A handle is copied. -/
  | copyHandle (h : Handle) (owner : Option TaskId)
  /-- A handle gets another owner. -/
  | giveHandle (h : Handle) (owner : Option TaskId)
  /-- `h = h'`, for two handles. -/
  | assignHandle (h h' : Handle)
  | destroyHandle (h : Handle)
  /-- The coroutine `c` of the task `g` awaits the handle. -/
  | await (h : Handle) (c : Coro) (g : TaskId)
  /-- The task returns. -/
  | finish (t : TaskId)
  /-- The task ends by an exception. -/
  | fail (t : TaskId) (e : Exn)
  /-- `task_map::clear`. -/
  | clear (order : List TaskId)
  deriving DecidableEq, Repr

namespace Tasks

variable (s : Tasks)

/-- What a step does, with the exception that leaves `resume`; `none` is a fault. -/
def perform : TaskOp → Option (Tasks × Option Exn)
  | .spawn owner => (s.spawn owner).map fun s => (s, none)
  | .post => s.post.map fun s => (s, none)
  | .copyHandle h owner => (s.copyHandle h h.kind owner).map fun s => (s, none)
  | .giveHandle h owner => some (s.replaceHandle h { h with owner := owner }, none)
  | .assignHandle h h' => (s.assignHandle h h').map fun s => (s, none)
  | .destroyHandle h => (s.destroyHandle h).map fun s => (s, none)
  | .await h c g => some (s.await h c g, none)
  | .finish t => (s.finalSuspend t).map fun s => (s, none)
  | .fail t e => s.fail t e
  | .clear order => (s.clear order).map fun s => (s, none)

/-- The owner of a handle to be made is there. -/
def owns (owner : Option TaskId) : Bool := owner.all s.heap.alive

/-- What the callers are held to: the handles and the frames that they use are there, a handle
stays as long as a coroutine is suspended in it (it lies in the frame of the task that awaits it,
or in none), and the two sides of an assignment do not lie in frames of tasks that have ended; a
task awaits and ends where its own code runs; and `clear` visits each task once, in any order. -/
def allows : TaskOp → Bool
  | .spawn owner => s.owns owner
  | .post => true
  | .copyHandle h owner => decide (h ∈ s.heap.refs) && s.owns owner
  | .giveHandle h owner => s.idle h && s.owns owner
  | .assignHandle h h' => s.idle h && decide (h' ∈ s.heap.refs.erase h) &&
      (h.owner.all fun t => decide (t ∈ s.tasks)) && h'.owner.all fun t => decide (t ∈ s.tasks)
  | .destroyHandle h => s.idle h
  | .await h c g => decide (h.kind ≠ .internalTask) && s.idle h && s.runs g &&
      (h.owner.all fun t => decide (t = g)) && decide (c ∉ s.waiting.map Waiter.coro)
  | .finish t | .fail t _ => s.runs t
  | .clear order => decide (order.Perm s.tasks)

/-- One allowed step. -/
def step (op : TaskOp) : Option Tasks :=
  if s.allows op then (s.perform op).map Prod.fst else none

end Tasks

end Fiona
