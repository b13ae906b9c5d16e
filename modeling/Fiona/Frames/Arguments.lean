import Fiona.Frames.Client
import Fiona.Frames.Timer
import Fiona.Lib.Arguments

/-!
# Arguments in the frames

`async_connect`, `async_shutdown`, `async_wait` and the calls of a file store their arguments in
the frame, before anything asks whether an operation is in flight, and `await_resume` resets most
of them. They are read when the awaitable is awaited; the address of a connect, the period of a
wait and the path of an open are read only when the ring is submitted. What has to stay as it is
until then is all there is to it (`Fiona.operations_run`).

A plain write does not reset the index that `async_write_fixed` has stored, so it needs no other
coroutine to go wrong: dropping the awaitable of a fixed write is enough.
-/

namespace Fiona

open Shared Transition

theorem clientObject_deref (m : ClientArgs) (x : ClientCall) :
    clientObject.deref m (clientObject.capture m x) = clientObject.capture m x := by
  cases x <;> rfl

theorem timerObject_deref (m : Timespec) (x : TimerCall) :
    timerObject.deref m (timerObject.capture m x) = timerObject.capture m x := by
  cases x <;> rfl

theorem fileObject_deref (m : FileArgs) (x : FileCall) :
    fileObject.deref m (fileObject.capture m x) = fileObject.capture m x := by
  have hframe : ∀ f : FileFrame, m.deref (m.capture f) = m.capture f := by
    intro f
    cases f with
    | «open» => simp [FileArgs.capture, FileArgs.deref]
    | write | read =>
      simp only [FileArgs.capture]
      split_ifs <;> rfl
  exact hframe _

end Fiona
