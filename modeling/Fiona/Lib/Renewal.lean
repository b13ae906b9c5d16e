import Mathlib.Data.Bool.Count
import Mathlib.Data.Option.Basic

/-!
# A standing request that is renewed

A component has one *standing request* with a server, which goes on posting completions
until the last. The request has a parameter, of which the server takes a copy when it
takes the request from the queue. The parameter of a request that stands cannot be
changed, so a component that wants another one overwrites the place the parameter is read
from and queues a *removal*; the removal ends the request with a last completion, and on the
last completion the component queues the request again.

Removals may outnumber requests, a request may end by itself with a removal still queued,
and the parameter may be overwritten again at any moment. All the same

* there is at most one request, and exactly one while the component's flag is up
  (`Renewal.Inv.outstanding`);
* a request that stands with an old parameter is about to be removed
  (`Renewal.Inv.fresh`), so that with nothing queued it stands with the current one
  (`Renewal.Inv.current_of_drained`).
-/

namespace Renewal

variable {π : Type*}

/-- What the component queues. -/
inductive Entry
  | arm
  | remove
  deriving DecidableEq, Repr

structure State (π : Type*) where
  /-- What a request that is taken from the queue reads. -/
  current : π
  /-- The component's flag. -/
  active : Bool
  queue : List Entry
  /-- The parameter of the request that stands. -/
  armed : Option π
  /-- The completions posted, each with whether the request goes on. -/
  posted : List Bool

inductive Label (π : Type*)
  /-- The parameter is overwritten, and a removal queued. -/
  | set (p : π)
  /-- A removal is queued. -/
  | remove
  /-- The server takes an entry from the queue. -/
  | submit
  /-- The request that stands posts a completion. -/
  | post (more : Bool)
  /-- The component processes a completion, and queues the request again if it was the last
  and is not to be the last request. -/
  | handle (renew : Bool)

/-- The server takes the first entry from the queue; a removal without a request fails. -/
def State.submit (s : State π) : Option (State π) :=
  match s.queue with
  | [] => none
  | .arm :: q => some { s with queue := q, armed := some s.current }
  | .remove :: q =>
    if s.armed.isSome then
      some { s with queue := q, armed := none, posted := s.posted ++ [false] }
    else some { s with queue := q }

def State.handle (s : State π) (renew : Bool) : Option (State π) :=
  match s.posted with
  | [] => none
  | true :: c => some { s with posted := c }
  | false :: c =>
    some { s with
      posted := c
      active := renew
      queue := s.queue ++ if renew then [.arm] else [] }

def step (s : State π) : Label π → Option (State π)
  | .set p => some { s with current := p, queue := s.queue ++ [.remove] }
  | .remove => some { s with queue := s.queue ++ [.remove] }
  | .submit => s.submit
  | .post more =>
    if s.armed.isSome then
      some { s with armed := if more then s.armed else none, posted := s.posted ++ [more] }
    else none
  | .handle renew => s.handle renew

/-- The requests that are queued, that stand, or that are over with their last completion not yet
processed. -/
def State.outstanding (s : State π) : Nat :=
  s.queue.count .arm + s.armed.toList.length + s.posted.count false

structure Inv (s : State π) : Prop where
  outstanding : s.outstanding = s.active.toNat
  fresh : ∀ p, s.armed = some p → p = s.current ∨ .remove ∈ s.queue

variable {s s' : State π} {l : Label π}

/-- The component starts with its request queued. -/
theorem inv_start (p : π) : Inv (⟨p, true, [.arm], none, []⟩ : State π) where
  outstanding := rfl
  fresh := by simp

/-! ### Each step -/

theorem Inv.remove (hs : Inv s) : Inv { s with queue := s.queue ++ [.remove] } where
  outstanding := by simpa [State.outstanding] using hs.outstanding
  fresh := by simp

theorem Inv.set (hs : Inv s) (p : π) :
    Inv { s with current := p, queue := s.queue ++ [.remove] } where
  outstanding := by simpa [State.outstanding] using hs.outstanding
  fresh := by simp

/-- A request that is taken reads the current parameter, and there was none that stood. -/
theorem Inv.submit (hs : Inv s) (hstep : s.submit = some s') : Inv s' := by
  have hout := hs.outstanding
  have hone : s.active.toNat ≤ 1 := Bool.toNat_le _
  rw [State.submit] at hstep
  split at hstep
  · exact absurd hstep (by simp)
  · rename_i q hq
    obtain rfl := Option.some.inj hstep
    have hnone : s.armed = none := by
      rw [State.outstanding, hq] at hout
      cases harmed : s.armed with
      | none => rfl
      | some p =>
        simp only [harmed, List.count_cons_self, Option.toList_some, List.length_singleton] at hout
        omega
    constructor
    · simp only [State.outstanding, hq, hnone, List.count_cons_self, Option.toList_none,
        List.length_nil, Option.toList_some, List.length_singleton] at hout ⊢
      omega
    · intro p hp
      exact .inl (Option.some.inj hp).symm
  · rename_i q hq
    split_ifs at hstep with harmed
    · obtain rfl := Option.some.inj hstep
      obtain ⟨p, hp⟩ := Option.isSome_iff_exists.mp harmed
      constructor
      · simp only [State.outstanding, hq, hp, Option.toList_some, List.length_singleton,
          Option.toList_none, List.length_nil, List.count_append, List.count_singleton_self,
          List.count_cons_of_ne (show Entry.remove ≠ .arm by decide)] at hout ⊢
        omega
      · simp
    · obtain rfl := Option.some.inj hstep
      constructor
      · simpa [State.outstanding, hq] using hout
      · intro p hp
        exact absurd (Option.isSome_iff_exists.mpr ⟨p, hp⟩) harmed

theorem Inv.post (hs : Inv s) (harmed : s.armed.isSome = true) (more : Bool) :
    Inv { s with armed := if more then s.armed else none, posted := s.posted ++ [more] } := by
  obtain ⟨p, hp⟩ := Option.isSome_iff_exists.mp harmed
  have hout := hs.outstanding
  cases more with
  | true => exact ⟨by simpa [State.outstanding] using hout, hs.fresh⟩
  | false =>
    constructor
    · simp only [State.outstanding, hp, Option.toList_some, List.length_singleton] at hout
      simp only [State.outstanding, Bool.false_eq_true, if_false, Option.toList_none,
        List.length_nil, List.count_append, List.count_singleton_self]
      omega
    · simp

/-- The last completion was all that was outstanding, so that the request queued again is the
only one. -/
theorem Inv.handle (hs : Inv s) {renew : Bool} (hstep : s.handle renew = some s') : Inv s' := by
  have hout := hs.outstanding
  have hone : s.active.toNat ≤ 1 := Bool.toNat_le _
  rw [State.handle] at hstep
  split at hstep
  · exact absurd hstep (by simp)
  · rename_i c hc
    obtain rfl := Option.some.inj hstep
    exact ⟨by simpa [State.outstanding, hc] using hout, hs.fresh⟩
  · rename_i c hc
    obtain rfl := Option.some.inj hstep
    have hrest : s.queue.count .arm + s.armed.toList.length + c.count false = 0 := by
      rw [State.outstanding, hc, List.count_cons_self] at hout
      omega
    constructor
    · cases renew <;>
        simp only [State.outstanding, List.count_append, Bool.false_eq_true, if_false, if_true,
          List.count_singleton_self, List.count_nil, Bool.toNat_true, Bool.toNat_false] <;>
        omega
    · intro p hp
      exact (hs.fresh p hp).imp_right fun hmem => List.mem_append_left _ hmem

/-- **One request at most, and one that is up to date or on its way out**, in every step. -/
theorem Inv.step (hs : Inv s) (hstep : step s l = some s') : Inv s' := by
  cases l with
  | set p =>
    obtain rfl := Option.some.inj hstep
    exact hs.set p
  | remove =>
    obtain rfl := Option.some.inj hstep
    exact hs.remove
  | submit => exact hs.submit hstep
  | post more =>
    obtain ⟨harmed, heq⟩ := Option.ite_none_right_eq_some.mp hstep
    obtain rfl := Option.some.inj heq
    exact hs.post harmed more
  | handle renew => exact hs.handle hstep

/-- With nothing queued the request stands with the current parameter. -/
theorem Inv.current_of_drained (hs : Inv s) (hqueue : s.queue = []) {p : π}
    (hp : s.armed = some p) : p = s.current := by
  rcases hs.fresh p hp with heq | hmem
  · exact heq
  · simp [hqueue] at hmem

/-- With nothing queued and nothing to process the flag says whether the request stands. -/
theorem Inv.armed_of_drained (hs : Inv s) (hqueue : s.queue = []) (hposted : s.posted = []) :
    s.armed = if s.active then some s.current else none := by
  have hout := hs.outstanding
  rw [State.outstanding, hqueue, hposted] at hout
  cases harmed : s.armed with
  | none =>
    have hdown : s.active = false := by simpa [harmed] using hout.symm
    simp [hdown]
  | some p =>
    have hup : s.active = true := by simpa [harmed] using hout.symm
    rw [hup, hs.current_of_drained hqueue harmed, if_pos rfl]

end Renewal
