import Fiona.Slots.System
import Mathlib.Data.Finset.Card

/-!
# The making of an acceptor

`acceptor_impl::acceptor_impl` of `src/tcp.cpp` acquires two things: a descriptor of the process,
from `socket`, and a slot of the table of registered descriptors (`Fiona.Slots`). When it has
succeeded the socket is in the slot and the descriptor is closed. It may throw in six places, and
closes nothing and gives nothing back in any of them; the destructor does not run for an
object whose constructor threw.

The calls to the kernel are answered by the label of the step. Everything else that happens to
the table goes on in between.
-/

namespace Fiona

open Transition

/-- The answers that the constructor gets. -/
structure AcceptorAnswers where
  socket : Int
  bind : Int
  listen : Int
  getsockname : Int
  /-- That of `get_available_fd`. -/
  off : Option Nat
  registerFilesUpdate : Int
  errno : Nat
  deriving DecidableEq, Repr

/-- A context and the open descriptors of its process. -/
structure Listening where
  slots : Slots
  opened : Finset Nat

inductive ListeningOp
  /-- An acceptor is constructed. -/
  | construct (i : Nat) (a : AcceptorAnswers)
  /-- Something else happens to the table. -/
  | other (op : SlotsOp)

/-- A step that constructs an acceptor. -/
def SlotsOp.constructs : SlotsOp → Bool
  | .newAcceptor .. => true
  | _ => false

namespace Listening

/-- A new context, with what the process has open. -/
def init (numFiles : Nat) (opened : Finset Nat) : Listening := ⟨.init numFiles, opened⟩

variable (s : Listening)

/-- `acceptor_impl::acceptor_impl`, with the error that is thrown. -/
def acceptorImpl (i : Nat) (a : AcceptorAnswers) : Option (Listening × Option Nat) :=
  if a.socket = -1 then some (s, some a.errno)
  else
    let fd := a.socket.toNat
    let s := { s with opened := insert fd s.opened }
    if a.bind = -1 then some (s, some a.errno)
    else if a.listen = -1 then some (s, some a.errno)
    else if a.getsockname = -1 then some (s, some a.errno)
    else
      match a.off with
      | none => some (s, some Errno.ENFILE)
      | some off => do
        let σ ← s.slots.getAvailableFd (some (some off))
        let s := { s with slots := σ }
        if a.registerFilesUpdate < 0 then some (s, some (-a.registerFilesUpdate).toNat)
        else
          let s := { s with slots := s.slots.setAcceptor i (.new off) }
          -- `close( fd )`
          some ({ s with opened := s.opened.erase fd }, none)

/-- The answers of the kernel and of `get_available_fd` are possible, and the object is new. -/
def answers (i : Nat) (a : AcceptorAnswers) : Bool :=
  (s.slots.acceptors i).isNone &&
    (decide (a.socket = -1) || decide (0 ≤ a.socket ∧ a.socket.toNat ∉ s.opened)) &&
    s.slots.answers (some a.off)

def step : ListeningOp → Option Listening
  | .construct i a => if s.answers i a then (s.acceptorImpl i a).map Prod.fst else none
  | .other op =>
    if op.constructs then none else (s.slots.step op).map fun σ => { s with slots := σ }

/-- Every call after `socket` succeeds. -/
def Succeeds (a : AcceptorAnswers) : Prop :=
  a.bind ≠ -1 ∧ a.listen ≠ -1 ∧ a.getsockname ≠ -1 ∧ a.off.isSome ∧ 0 ≤ a.registerFilesUpdate

instance (a : AcceptorAnswers) : Decidable (Succeeds a) :=
  inferInstanceAs (Decidable (_ ∧ _ ∧ _ ∧ _ ∧ _))

/-- A construction fails after `socket`. -/
def failsLater : ListeningOp → Bool
  | .construct _ a => decide (a.socket ≠ -1 ∧ ¬Succeeds a)
  | .other _ => false

/-- **A construction that fails leaves nothing behind.** -/
def LeavesNothing : ListeningOp → Prop
  | .construct i a => ∀ s' e, s.acceptorImpl i a = some (s', some e) →
      s'.slots.fds = s.slots.fds ∧ s'.opened = s.opened
  | .other _ => True

/-- A construction fails in `socket`, or not at all. -/
def FailsInSocket : ListeningOp → Prop
  | .construct _ a => a.socket = -1 ∨ Succeeds a
  | .other _ => True

variable {s} {s' : Listening} {i : Nat} {a : AcceptorAnswers} {op : ListeningOp}

/-- **What the constructor does**: it fails in `socket`, it fails later and leaves the descriptor
open, or it succeeds as in `Fiona.Slots.perform`. -/
inductive Constructs (s : Listening) (i : Nat) (a : AcceptorAnswers) :
    Listening → Option Nat → Prop
  | socket (hsocket : a.socket = -1) : Constructs s i a s (some a.errno)
  | later (e : Nat) (σ : Slots) (hsocket : a.socket ≠ -1) (hfails : ¬Succeeds a) :
      Constructs s i a ⟨σ, insert a.socket.toNat s.opened⟩ (some e)
  | succeeds (off : Nat) (σ : Slots) (hsocket : a.socket ≠ -1) (hsucceeds : Succeeds a)
      (hoff : a.off = some off) (hσ : s.slots.perform (.newAcceptor i off) = some σ) :
      Constructs s i a ⟨σ, (insert a.socket.toNat s.opened).erase a.socket.toNat⟩ none

/-- A failure after `socket`, whatever has become of the table. -/
private theorem Constructs.of_fails {σ : Slots} {e : Nat} {e' : Option Nat}
    (hsocket : a.socket ≠ -1) (hfails : ¬Succeeds a)
    (h : some (⟨σ, insert a.socket.toNat s.opened⟩, some e) = some (s', e')) :
    Constructs s i a s' e' := by
  simp only [Option.some.injEq, Prod.mk.injEq] at h
  obtain ⟨rfl, rfl⟩ := h
  exact .later e σ hsocket hfails

theorem constructs_of_acceptorImpl {e : Option Nat} (h : s.acceptorImpl i a = some (s', e)) :
    Constructs s i a s' e := by
  rw [acceptorImpl] at h
  by_cases hsocket : a.socket = -1
  · rw [if_pos hsocket] at h
    simp only [Option.some.injEq, Prod.mk.injEq] at h
    obtain ⟨rfl, rfl⟩ := h
    exact .socket hsocket
  by_cases hbind : a.bind = -1
  · rw [if_neg hsocket, if_pos hbind] at h
    exact .of_fails hsocket (fun hs => hs.1 hbind) h
  by_cases hlisten : a.listen = -1
  · rw [if_neg hsocket, if_neg hbind, if_pos hlisten] at h
    exact .of_fails hsocket (fun hs => hs.2.1 hlisten) h
  by_cases hname : a.getsockname = -1
  · rw [if_neg hsocket, if_neg hbind, if_neg hlisten, if_pos hname] at h
    exact .of_fails hsocket (fun hs => hs.2.2.1 hname) h
  rw [if_neg hsocket, if_neg hbind, if_neg hlisten, if_neg hname] at h
  cases hoff : a.off with
  | none =>
    rw [hoff] at h
    exact .of_fails hsocket (fun hs => by simpa [hoff] using hs.2.2.2.1) h
  | some off =>
    rw [hoff] at h
    obtain ⟨σ, hσ, h⟩ := Option.bind_eq_some_iff.mp h
    by_cases hregister : a.registerFilesUpdate < 0
    · rw [if_pos hregister] at h
      exact .of_fails hsocket (fun hs => absurd hs.2.2.2.2 (by omega)) h
    · rw [if_neg hregister] at h
      simp only [Option.some.injEq, Prod.mk.injEq] at h
      obtain ⟨rfl, rfl⟩ := h
      have hsucceeds : Succeeds a := ⟨hbind, hlisten, hname, by simp [hoff], by omega⟩
      refine .succeeds off _ hsocket hsucceeds hoff ?_
      rw [Slots.perform, hσ]
      rfl

/-- What a step of a construction has been allowed by. -/
theorem step_construct (hstep : s.step (.construct i a) = some s') :
    (a.socket = -1 ∨ 0 ≤ a.socket ∧ a.socket.toNat ∉ s.opened) ∧
      ∃ e, s.acceptorImpl i a = some (s', e) := by
  obtain ⟨hanswers, hmap⟩ := Option.ite_none_right_eq_some.mp hstep
  obtain ⟨⟨t, e⟩, himpl, rfl⟩ := Option.map_eq_some_iff.mp hmap
  simp only [answers, Bool.and_eq_true, Bool.or_eq_true, decide_eq_true_eq] at hanswers
  exact ⟨hanswers.1.2, e, himpl⟩

/-- **Nothing is left behind exactly** by what fails in `socket`. -/
theorem leavesNothing_iff (hstep : s.step op = some s') :
    s.LeavesNothing op ↔ FailsInSocket op := by
  cases op with
  | other op => exact Iff.rfl
  | construct i a =>
    obtain ⟨hsocket, e, himpl⟩ := step_construct hstep
    cases constructs_of_acceptorImpl himpl with
    | socket hfail =>
      refine iff_of_true (fun t e' ht => ?_) (.inl hfail)
      obtain ⟨rfl, -⟩ := Prod.mk.inj (Option.some.inj (himpl.symm.trans ht))
      exact ⟨rfl, rfl⟩
    | later e σ hopen hfails =>
      refine iff_of_false (fun hleaves => ?_) (by simp [FailsInSocket, hopen, hfails])
      obtain ⟨-, hfresh⟩ := hsocket.resolve_left hopen
      exact hfresh (Finset.insert_eq_self.mp (hleaves _ _ himpl).2)
    | succeeds off σ hopen hsucceeds hoff hσ =>
      refine iff_of_true (fun t e' ht => ?_) (.inr hsucceeds)
      exact absurd (Prod.mk.inj (Option.some.inj (himpl.symm.trans ht))).2 (by simp)

/-- **No construction that fails leaves anything behind in exactly those runs** in which every
construction that fails does so in `socket`. -/
theorem constructions_clean (numFiles : Nat) (opened : Finset Nat) (ops : List ListeningOp) :
    StepsMeet step LeavesNothing (init numFiles opened) ops ↔
      StepsMeet step (fun _ op => FailsInSocket op) (init numFiles opened) ops := by
  constructor
  · refine StepsMeet.of_invariant (I := fun _ => True) ?_ trivial
    exact fun s op s' _ hleaves hstep => ⟨trivial, (leavesNothing_iff hstep).mp hleaves⟩
  · refine StepsMeet.of_invariant (I := fun _ => True) ?_ trivial
    exact fun s op s' _ hfails hstep => ⟨trivial, (leavesNothing_iff hstep).mpr hfails⟩

/-! ### What is left behind -/

/-- **A descriptor that was left open stays open**, whatever happens after. -/
theorem subset_of_step (hstep : s.step op = some s') : s.opened ⊆ s'.opened := by
  cases op with
  | other op =>
    rw [step] at hstep
    split_ifs at hstep
    obtain ⟨σ, -, rfl⟩ := Option.map_eq_some_iff.mp hstep
    exact Finset.Subset.refl _
  | construct i a =>
    obtain ⟨hsocket, e, himpl⟩ := step_construct hstep
    cases constructs_of_acceptorImpl himpl with
    | socket hfail => exact Finset.Subset.refl _
    | later e σ hopen hfails => exact Finset.subset_insert _ _
    | succeeds off σ hopen hsucceeds hoff hσ =>
      rw [Finset.erase_insert (hsocket.resolve_left hopen).2]

/-- **Each failure after `socket` costs the process a descriptor.** -/
theorem card_of_run {ops : List ListeningOp} (hrun : run step s ops = some s') :
    s'.opened.card = s.opened.card + ops.countP failsLater := by
  induction ops generalizing s with
  | nil =>
    cases hrun
    rfl
  | cons op ops ih =>
    obtain ⟨t, hstep, hrest⟩ := run_cons_eq_some.mp hrun
    rw [ih hrest, List.countP_cons]
    suffices h : t.opened.card = s.opened.card + if failsLater op then 1 else 0 by
      omega
    cases op with
    | other op =>
      rw [step] at hstep
      split_ifs at hstep
      obtain ⟨σ, -, rfl⟩ := Option.map_eq_some_iff.mp hstep
      rfl
    | construct i a =>
      obtain ⟨hsocket, e, himpl⟩ := step_construct hstep
      cases constructs_of_acceptorImpl himpl with
      | socket hfail => simp [failsLater, hfail]
      | later e σ hopen hfails =>
        rw [Finset.card_insert_of_notMem (hsocket.resolve_left hopen).2]
        simp [failsLater, hopen, hfails]
      | succeeds off σ hopen hsucceeds hoff hσ =>
        rw [Finset.erase_insert (hsocket.resolve_left hopen).2]
        simp [failsLater, hsucceeds]

/-- **A failure after `socket` leaves the descriptor open**, and a failure of the last call keeps
the slot as well. -/
theorem constructions_leak :
    ¬StepsMeet step LeavesNothing (init 1 ∅) [.construct 0 ⟨3, -1, 0, 0, some 0, 0, 98⟩] ∧
      ¬StepsMeet step LeavesNothing (init 1 ∅) [.construct 0 ⟨3, 0, 0, 0, some 0, -9, 0⟩] := by
  constructor
  · intro h
    exact absurd ((h _ rfl).1 _ _ rfl).2 (by decide)
  · intro h
    exact absurd ((h _ rfl).1 _ _ rfl).1 (by decide)

end Listening

end Fiona
