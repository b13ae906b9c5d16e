import Fiona.Frames.Acceptor
import Fiona.Frames.Client
import Fiona.Frames.Timer
import Fiona.Lib.Cancelling

/-!
# Cancelling on destruction

The destructors of the awaitables of `send`, `accept`, `connect`, of a wait of a timer, and of the
operations of a file cancel what `initiated_ && !done_` of the shared frame says is in flight,
whoever started it. An awaitable that has been refused with `EBUSY`, or that was never awaited,
therefore cancels the operation of another coroutine (`Fiona.awaitables_cancel_fails`). Where no
awaitable is destroyed while the frame has a request of another, it leaves no trace
(`Fiona.awaitables_cancel`).
-/

namespace Fiona

open Shared Transition

variable {σ μ ι θ α ρ ω χ β : Type} [DecidableEq ι] [DecidableEq θ]

/-- **What is shown of the awaitables of an object**, from its initial state on. -/
structure CancelsAlone (O : Object σ μ ι θ α ρ ω χ β) (o : σ) (m : μ) : Prop where
  /-- Each awaitable cancels its own operation only, exactly in the runs in which, whenever an
  awaitable is destroyed, the requests that its destructor finds in flight are its own. -/
  own : ∀ ops, Along O.step CancelsOwn (.init o m) ops ↔
    StepsMeet O.step (DropsOwn O) (.init o m) ops
  /-- In such a run, take away all that is done with an awaitable that is refused whenever it is
  awaited: what is left is a run, in which the other operations go the same way, to the same
  completions and results. -/
  alone : ∀ a ops t, StepsMeet O.step (Refused O a) (.init o m) ops →
    StepsMeet O.step (DropsOwn O) (.init o m) ops → run O.step (.init o m) ops = some t →
    ∃ t', run O.step (.init o m) (ops.filter fun op => !op.concerns a) = some t' ∧ Alike a t t'

theorem cancelsAlone (O : Object σ μ ι θ α ρ ω χ β) (o : σ) (m : μ) : CancelsAlone O o m where
  own ops := cancelsOwn_iff (by simp [CancelsOwn, State.init])
  alone a ops t hrefused hC hrun := erase (Alike.refl (by simp [State.init])) hrefused hC hrun

/-- **An awaitable cancels only its own operation, exactly as long as none is destroyed at the
wrong time.** -/
theorem awaitables_cancel (fd : Int) (now off : Nat) :
    CancelsAlone clientObject (StreamImpl.new fd now) .init ∧
    CancelsAlone acceptorObject (AcceptorImpl.new off) () ∧
      CancelsAlone timerObject TimerImpl.new ⟨0, 0⟩ ∧ CancelsAlone fileObject FileImpl.new .init :=
  ⟨cancelsAlone .., cancelsAlone .., cancelsAlone .., cancelsAlone ..⟩

/-- A coroutine sends; the send of another is refused, and its awaitable, going, cancels the first
one. -/
theorem awaitables_cancel_fails :
    ¬∀ ops t, run clientObject.step (.init (StreamImpl.new 0 0) .init) ops = some t →
    CancelsOwn t := by
  intro hall
  have hown := hall [.create 0 (.asyncSend ⟨0, 1⟩), .create 1 (.asyncSend ⟨0, 1⟩),
    .await 0 1 (none, 0), .await 1 2 (none, 0), .destroy 1] _ rfl
  exact absurd (hown (1, 0) List.mem_cons_self) (by decide)

end Fiona
