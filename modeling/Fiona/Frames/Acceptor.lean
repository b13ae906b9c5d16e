import Fiona.Lib.Shared
import Fiona.Slots.Acceptor

/-!
# The frames of an acceptor

An acceptor, as an object whose awaitables share its frames. References and descriptor slots are
looked at in `Fiona.Slots.Acceptor`; here an accept is refused when the frame is busy or when
there is no slot.
-/

namespace Fiona

open Shared

namespace AcceptorImpl

variable (s : AcceptorImpl)

/-- The frame that an awaitable works on. -/
def frameOf : AcceptorAwait → AcceptorFrame
  | .accept | .acceptRaw => .accept
  | .cancel => .cancel
  | .close => .close

/-- An awaitable that works on a frame. -/
def awaitOf : AcceptorFrame → AcceptorAwait
  | .accept => .accept
  | .cancel => .cancel
  | .close => .close

/-- The handle that a frame has. -/
def stored : AcceptorFrame → Option Coro
  | .accept => s.accept.h
  | .cancel => s.cancel.h
  | .close => s.close.h

/-- A request of the frame is in flight. -/
def isActive : AcceptorFrame → Bool
  | .accept => s.accept.initiated && !s.accept.done
  | .cancel => s.cancel.isActive
  | .close => s.close.isActive

/-- `await_suspend` does not throw. -/
def accepts (slot : Option Nat) : AcceptorFrame → Bool
  | .accept => !s.accept.initiated && slot.isSome
  | .cancel => true
  | .close => decide (0 ≤ s.fd)

end AcceptorImpl

/-- The calls of an acceptor have no arguments. -/
def acceptorObject :
    Object AcceptorImpl Unit AcceptorFrame Coro AcceptorAwait Unit (Option Nat) Int Empty where
  main := AcceptorImpl.frameOf
  kind := id
  asked _ := ()
  store _ _ := ()
  capture _ _ := ()
  deref _ _ := ()
  clear _ _ := ()
  await s x h slot :=
    match s.awaitSuspend h slot x with
    | .error _ => .refuses
    | .ok (s, q) => .suspends s (q.filterMap AcceptorSqe.frame)
  process s f res :=
    let (h, s) := (s.awaitProcessCqe res f).1.handle f
    some (s, h)
  more _ := false
  posts _ _ := true
  resume s f := s.awaitResume (AcceptorImpl.awaitOf f)
  drops
    | .accept => [.accept]
    | .cancel | .close => []
  active := AcceptorImpl.isActive
  other _ b := nomatch b
  stored := AcceptorImpl.stored
  takes s x slot := s.accepts slot (AcceptorImpl.frameOf x)
  gives _ _ _ := true
  resets _ := true

end Fiona
