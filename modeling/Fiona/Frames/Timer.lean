import Fiona.Lib.Shared
import Fiona.Ring

/-!
# The frames of a timer

`timer_impl` of `src/time.cpp` and its two awaitables. The period of a wait is stored in
`timeout_frame::ts_` by the constructor of the awaitable, and the request carries its address.
-/

namespace Fiona

/-- `__kernel_timespec`. -/
structure Timespec where
  tvSec : Int
  tvNsec : Int
  deriving DecidableEq, Repr

/-- `timeout_frame` but for `ts_`, and `cancel_frame`. -/
structure TimerFrame where
  h : Option Coro
  ec : Option Int
  initiated : Bool
  done : Bool
  deriving DecidableEq, Repr

inductive TimerFrameId
  | timeout
  | cancel
  deriving DecidableEq, Repr

/-- `timer_impl`. -/
structure TimerImpl where
  timeout : TimerFrame
  cancel : TimerFrame
  deriving DecidableEq, Repr

/-- The calls that make an awaitable. -/
inductive TimerCall
  | asyncWait (ts : Timespec)
  | asyncCancel
  deriving DecidableEq, Repr

/-- What is asked of the kernel. -/
inductive TimerRequest
  /-- `io_uring_prep_timeout`, with what lies at the address it is given. -/
  | timeout (ts : Timespec)
  /-- `io_uring_prep_cancel` of the timeout. -/
  | cancel
  deriving DecidableEq, Repr

namespace TimerImpl

variable (s : TimerImpl)

def idle : TimerFrame := ⟨none, none, false, false⟩

def new : TimerImpl := ⟨idle, idle⟩

/-- `timeout_frame::await_process_cqe`. -/
def timeoutAwaitProcessCqe (res : Int) : TimerImpl :=
  let e := -res
  let f := { s.timeout with done := true }
  { s with timeout := if e ≠ 0 ∧ e ≠ Errno.ETIME then { f with ec := some e } else f }

/-- `cancel_frame::await_process_cqe`. -/
def cancelAwaitProcessCqe (res : Int) : TimerImpl :=
  let f := { s.cancel with done := true }
  { s with cancel := if res < 0 then { f with ec := some (-res) } else f }

/-- `timeout_frame::handle` and `cancel_frame::handle`. -/
def handle : TimerFrameId → Option Coro × TimerImpl
  | .timeout => (s.timeout.h, { s with timeout := { s.timeout with h := none } })
  | .cancel => (s.cancel.h, { s with cancel := { s.cancel with h := none } })

/-- The `await_process_cqe` of a frame. -/
def awaitProcessCqe (res : Int) : TimerFrameId → TimerImpl
  | .timeout => s.timeoutAwaitProcessCqe res
  | .cancel => s.cancelAwaitProcessCqe res

/-- `timer_awaitable::await_ready` and `await_suspend`; `none` is `EBUSY`. -/
def waitAwaitSuspend (h : Coro) : Option TimerImpl :=
  if s.timeout.initiated then none
  else some { s with timeout := { s.timeout with h := some h, initiated := true } }

/-- `timer_cancel_awaitable::await_ready` and `await_suspend`; `none` is `EBUSY`. -/
def cancelAwaitSuspend (h : Coro) : Option TimerImpl :=
  if s.cancel.initiated then none
  else some { s with cancel := { s.cancel with h := some h, initiated := true } }

/-- `timer_awaitable::await_resume`: `timeout_frame::reset`, but for `ts_`. -/
def waitAwaitResume : TimerImpl := { s with timeout := idle }

/-- `timer_cancel_awaitable::await_resume`: `cancel_frame::reset`, which leaves `h_`, unless it
throws. -/
def cancelAwaitResume : TimerImpl :=
  if s.cancel.initiated && s.cancel.done then
    { s with cancel := { s.cancel with initiated := false, done := false, ec := none } }
  else s

/-- The test of `timer_awaitable::~timer_awaitable`. -/
def isActive : TimerFrameId → Bool
  | .timeout => s.timeout.initiated && !s.timeout.done
  | .cancel => s.cancel.initiated && !s.cancel.done

end TimerImpl

open Shared in
/-- A timer, as an object whose awaitables share its frames. -/
def timerObject : Object TimerImpl Timespec TimerFrameId Coro TimerCall TimerRequest Unit Int
    Empty where
  main
    | .asyncWait _ => .timeout
    | .asyncCancel => .cancel
  kind := id
  asked
    | .asyncWait ts => .timeout ts
    | .asyncCancel => .cancel
  -- `timer_awaitable::timer_awaitable`
  store m
    | .asyncWait ts => ts
    | .asyncCancel => m
  capture m
    | .asyncWait _ => .timeout m
    | .asyncCancel => .cancel
  deref m
    | .timeout _ => .timeout m
    | .cancel => .cancel
  clear m
    | .timeout => ⟨0, 0⟩
    | .cancel => m
  await s x h _ :=
    match x with
    | .asyncWait _ => (s.waitAwaitSuspend h).elim .refuses fun s => .suspends s [.timeout]
    | .asyncCancel => (s.cancelAwaitSuspend h).elim .refuses fun s => .suspends s [.cancel]
  process s f res :=
    let (h, s) := (s.awaitProcessCqe res f).handle f
    some (s, h)
  more _ := false
  posts _ _ := true
  resume s
    | .timeout => s.waitAwaitResume
    | .cancel => s.cancelAwaitResume
  drops
    | .timeout => [.timeout]
    | .cancel => []
  active := TimerImpl.isActive
  other _ b := nomatch b
  stored s
    | .timeout => s.timeout.h
    | .cancel => s.cancel.h
  takes s x _ :=
    match x with
    | .asyncWait _ => !s.timeout.initiated
    | .asyncCancel => !s.cancel.initiated
  gives _ _ _ := true
  resets
    | .timeout => true
    | .cancel => false

end Fiona
