import Fiona.Lib.Pool
import Fiona.Slots.Holding

/-!
# No descriptor slot is lost or held twice

The context and its objects are a pool and its holders (`Fiona.Slots.pool`): what a step does to
the slots of its object is a use of the pool, so every slot of the table is in one place in
every state that is reached (`Fiona.slots_conserved`), and what is passed to `release_fd` is a
slot of the table that is not free.
-/

namespace Fiona

open Transition

namespace Slots

variable {σ σ' : Slots} {i j r : Nat} {op : SlotsOp}

/-! ### The pool -/

/-- What has which slot. -/
def held (σ : Slots) : Holder → Option Nat
  | .acceptor i => (σ.acceptors i).bind fun l => slotOf l.impl.fd
  | .accepting i => (σ.acceptors i).bind fun l => slotOf l.impl.accept.peerFd
  | .stream j => (σ.streams j).bind fun l => slotOf l.impl.fd
  | .raw r => σ.raw r

/-- The slots as a pool. -/
def pool (σ : Slots) : ResourcePool Holder Nat := ⟨σ.fds, σ.held⟩

theorem held_setAcceptor (l : AcceptorLife) :
    (σ.setAcceptor i l).held = Function.update (Function.update σ.held (.accepting i)
      (slotOf l.impl.accept.peerFd)) (.acceptor i) (slotOf l.impl.fd) := by
  funext p
  cases p with
  | acceptor k => rcases eq_or_ne k i with rfl | hne <;> simp [held, setAcceptor, *]
  | accepting k => rcases eq_or_ne k i with rfl | hne <;> simp [held, setAcceptor, *]
  | stream k => rfl
  | raw k => rfl

theorem held_setStream (l : Life) :
    (σ.setStream j l).held = Function.update σ.held (.stream j) (slotOf l.impl.fd) := by
  funext p
  cases p with
  | stream k => rcases eq_or_ne k j with rfl | hne <;> simp [held, setStream, *]
  | acceptor k => rfl
  | accepting k => rfl
  | raw k => rfl

theorem held_setRaw (o : Option Nat) :
    (σ.setRaw r o).held = Function.update σ.held (.raw r) o := by
  funext p
  cases p with
  | raw k => rcases eq_or_ne k r with rfl | hne <;> simp [held, setRaw, *]
  | acceptor k => rfl
  | accepting k => rfl
  | stream k => rfl

/-- Each slot of the table is in one place, and the objects are sound. -/
structure Inv (σ : Slots) : Prop where
  conserved : σ.pool.Conserved (· < σ.numFiles)
  acceptors : ∀ i l, σ.acceptors i = some l → AcceptorLife.Sound 0 l ∧ l.released = []
  streams : ∀ j l, σ.streams j = some l → Life.Sound l ∧ l.released = []

theorem inv_init (numFiles : Nat) : Inv (init numFiles) where
  conserved := by
    have hfree : (init numFiles).pool.Conserved (· ∈ Finset.range numFiles) :=
      ResourcePool.conserved_of_held_none fun p => by cases p <;> rfl
    exact Ownership.ExactlyOne.congr hfree (fun _ _ => Iff.rfl) fun n => Finset.mem_range.symm
  acceptors := by simp [init]
  streams := by simp [init]

/-- A place has a slot in the pool just if it has in the context: what is destroyed has none. -/
theorem Inv.holds_iff (hσ : Inv σ) {p : Option Holder} {n : Nat} :
    σ.Holds p n ↔ σ.pool.Holds p n := by
  cases p with
  | none => exact Iff.rfl
  | some p =>
    cases p with
    | raw r => exact Iff.rfl
    | acceptor i =>
      simp only [Holds, ResourcePool.Holds, pool, held, Option.bind_eq_some_iff, slotOf_eq_some]
      refine exists_congr fun l => and_congr_right fun hi =>
        and_iff_right_of_imp fun hfd hzero => ?_
      have hgone := (hσ.acceptors i l hi).1.gone hzero
      omega
    | accepting i =>
      simp only [Holds, ResourcePool.Holds, pool, held, Option.bind_eq_some_iff, slotOf_eq_some]
      refine exists_congr fun l => and_congr_right fun hi => ?_
      have hl := (hσ.acceptors i l hi).1
      refine ⟨fun h => h.2.2, fun hpeer => ?_⟩
      have hinit := hl.peer (by omega)
      refine ⟨fun hzero => ?_, hinit, hpeer⟩
      -- the coroutine that waits has an awaitable
      obtain ⟨q, hq, -⟩ := hl.waiting hinit
      have hheld := hl.held q.2
      have hpos : 0 < (l.suspended.map Prod.snd).count q.2 :=
        List.count_pos_iff.mpr (List.mem_map_of_mem hq)
      have hmem : q.2 ∈ l.awaitables := List.count_pos_iff.mp (by omega)
      have hlen := List.length_pos_of_mem hmem
      have hcount := hl.count
      simp only [AcceptorLife.users] at hcount
      omega
    | stream j =>
      simp only [Holds, ResourcePool.Holds, pool, held, Option.bind_eq_some_iff, slotOf_eq_some]
      refine exists_congr fun l => and_congr_right fun hj =>
        and_iff_right_of_imp fun hfd hzero => ?_
      have hgone := (hσ.streams j l hj).1.gone hzero
      omega

/-- No member that can have a slot names a free one. -/
theorem Inv.ne_of_held (hσ : Inv σ) {p : Holder} {fd : Int} (hp : σ.held p = slotOf fd) {n : Nat}
    (hn : n ∈ σ.fds) : fd ≠ n := by
  rintro rfl
  rw [slotOf_natCast] at hp
  exact hσ.conserved.notMem_free hp hn

/-! ### Taking slots and giving them back -/

theorem getAvailableFd_eq (hσ : Inv σ) {n : Nat} (hn : n ∈ σ.fds) :
    σ.getAvailableFd (some (some n)) = some { σ with fds := σ.fds.erase n } :=
  if_pos (hσ.conserved.live_of_mem hn)

/-- **`release_fd` does not fail** on distinct slots of the table that are not free. -/
theorem releaseFds_eq {fds : List Int} {given : List Nat} (hgiven : fds.filterMap slotOf = given)
    (hnodup : given.Nodup) (hin : ∀ n ∈ given, n < σ.numFiles ∧ n ∉ σ.fds) :
    σ.releaseFds fds = some { σ with fds := σ.fds ∪ given.toFinset } := by
  induction fds generalizing σ given with
  | nil =>
    obtain rfl : [] = given := hgiven
    simp [releaseFds]
  | cons fd fds ih =>
    rcases lt_or_ge fd 0 with hneg | hfd
    · have hskip : fds.filterMap slotOf = given := by
        rwa [List.filterMap_cons_none (slotOf_of_neg hneg)] at hgiven
      rw [releaseFds, releaseFd, if_pos hneg]
      exact ih hskip hnodup hin
    · have hslot : slotOf fd = some fd.toNat := if_pos hfd
      rw [List.filterMap_cons_some hslot] at hgiven
      subst hgiven
      obtain ⟨hnot, hrest⟩ := List.nodup_cons.mp hnodup
      have hfirst := hin fd.toNat List.mem_cons_self
      rw [releaseFds, releaseFd, if_neg (by omega), if_pos hfirst, Option.bind_some, ih rfl hrest]
      · congr 2
        ext n
        simp
      · intro n hn
        refine ⟨(hin n (List.mem_cons_of_mem _ hn)).1, fun hcon => ?_⟩
        rcases Finset.mem_insert.mp hcon with rfl | hfree
        · exact hnot hn
        · exact (hin n (List.mem_cons_of_mem _ hn)).2 hfree

/-! ### Objects -/

theorem forall_setAcceptor {l : AcceptorLife} (hσ : Inv σ) (hl : AcceptorLife.Sound 0 l) :
    ∀ k m, (σ.setAcceptor i l).acceptors k = some m → AcceptorLife.Sound 0 m ∧ m.released = [] := by
  intro k m hm
  rcases eq_or_ne k i with rfl | hne
  · simp only [setAcceptor, Function.update_self, Option.some.injEq] at hm
    subst hm
    exact ⟨⟨hl.count, hl.held, hl.waiting, hl.peer, hl.gone⟩, rfl⟩
  · simp only [setAcceptor, Function.update_of_ne hne] at hm
    exact hσ.acceptors k m hm

theorem forall_setStream {l : Life} (hσ : Inv σ) (hl : Life.Sound l) :
    ∀ k m, (σ.setStream j l).streams k = some m → Life.Sound m ∧ m.released = [] := by
  intro k m hm
  rcases eq_or_ne k j with rfl | hne
  · simp only [setStream, Function.update_self, Option.some.injEq] at hm
    subst hm
    obtain ⟨⟨hcount, hflags, hclear, hheld⟩, hgone⟩ := hl
    exact ⟨⟨⟨hcount, hflags, hclear, hheld⟩, hgone⟩, rfl⟩
  · simp only [setStream, Function.update_of_ne hne] at hm
    exact hσ.streams k m hm

/-! ### Calls -/

/-- A new object without a slot. -/
theorem inv_newClient (hσ : Inv σ) (hj : σ.streams j = none) (now : Nat) :
    Inv (σ.setStream j (.new true (-1) now)) := by
  refine ⟨?_, hσ.acceptors, forall_setStream hσ (Life.sound_new ..)⟩
  have hnone : σ.held (.stream j) = slotOf (Life.new true (-1) now).impl.fd := by
    rw [held, hj]
    rfl
  have hpool : (σ.setStream j (.new true (-1) now)).pool = σ.pool := by
    rw [pool, held_setStream, ← hnone, Function.update_eq_self]
    rfl
  rw [hpool]
  exact hσ.conserved

/-- A stream that adopts a raw descriptor. -/
theorem inv_newStream (hσ : Inv σ) (hj : σ.streams j = none) {n : Nat} (hr : σ.raw r = some n)
    (now : Nat) : Inv ((σ.setRaw r none).setStream j (.new false n now)) := by
  refine ⟨?_, hσ.acceptors, ?_⟩
  · have hnone : σ.held (.stream j) = none := by
      rw [held, hj]
      rfl
    have hpool : ((σ.setRaw r none).setStream j (.new false n now)).pool =
        σ.pool.pass (.raw r) (.stream j) := by
      have hslot : slotOf (Life.new false n now).impl.fd = σ.held (.raw r) :=
        (slotOf_natCast n).trans hr.symm
      rw [pool, held_setStream, held_setRaw, hslot]
      rfl
    rw [hpool]
    exact hσ.conserved.pass (by simp) hnone
  · intro k m hm
    exact forall_setStream (j := j) (l := .new false n now) hσ (Life.sound_new ..) k m hm

/-- A new acceptor. -/
theorem inv_newAcceptor (hσ : Inv σ) (hi : σ.acceptors i = none) {n : Nat} (hn : n ∈ σ.fds) :
    Inv ({ σ with fds := σ.fds.erase n }.setAcceptor i (.new n)) := by
  refine ⟨?_, ?_, hσ.streams⟩
  · have hnone : σ.held (.acceptor i) = none := by
      rw [held, hi]
      rfl
    have hnone' : σ.held (.accepting i) = slotOf (AcceptorLife.new n).impl.accept.peerFd := by
      rw [held, hi]
      rfl
    have hpool : ({ σ with fds := σ.fds.erase n }.setAcceptor i (.new n)).pool =
        σ.pool.take (.acceptor i) n := by
      have hheld : ({ σ with fds := σ.fds.erase n } : Slots).held = σ.held := rfl
      have hslot : slotOf (AcceptorLife.new n).impl.fd = some n := slotOf_natCast n
      rw [pool, held_setAcceptor, hheld, ← hnone', Function.update_eq_self, hslot]
      rfl
    rw [hpool]
    exact hσ.conserved.take hn hnone
  · intro k m hm
    exact forall_setAcceptor (i := i) (l := .new n) hσ (AcceptorLife.sound_new n) k m hm

/-- The end of a step of a stream: it asks for a slot and gives slots back. -/
def finishStream (σ : Slots) (j : Nat) (l' : Life) (ask : Option (Option Nat)) : Option Slots := do
  let σ ← σ.getAvailableFd ask
  let σ ← σ.releaseFds l'.released
  some (σ.setStream j l')

theorem finishStream_inv (hσ : Inv σ) {l l' : Life} {ask : Option (Option Nat)}
    (hj : σ.streams j = some l) (heffect : Life.SlotEffect l l' ask) (hl' : Life.Sound l')
    (hanswer : σ.answers ask = true) : ∃ σ', σ.finishStream j l' ask = some σ' ∧ Inv σ' := by
  have hheld : σ.pool.held (.stream j) = slotOf l.impl.fd := by simp [pool, held, hj]
  have hstreams (fds : Finset Nat) : ∀ k m,
      ({ σ with fds := fds }.setStream j l').streams k = some m → Life.Sound m ∧ m.released = [] :=
    fun k m hm => forall_setStream hσ hl' k m hm
  cases heffect with
  | returns hfd =>
    rw [← hheld] at hfd
    obtain ⟨hconserved, hnodup, hgiven⟩ := hσ.conserved.returns (p := .stream j) hfd
    refine ⟨{ σ with fds := σ.fds ∪ (l'.released.filterMap slotOf).toFinset }.setStream j
      l', ?_, ?_, hσ.acceptors, hstreams _⟩
    · simp only [finishStream, getAvailableFd, Option.bind_eq_bind, Option.bind_some]
      rw [releaseFds_eq rfl hnodup hgiven]
      rfl
    · rw [pool, held_setStream]
      exact hconserved
  | takes slot hnone hfd hreleased =>
    rw [← hheld] at hnone
    cases slot with
    | none =>
      refine ⟨{ σ with fds := σ.fds }.setStream j l', ?_, ?_, hσ.acceptors, hstreams _⟩
      · simp [finishStream, getAvailableFd, hreleased, releaseFds]
      · have hsame : Function.update σ.pool.held (.stream j) none = σ.pool.held := by
          rw [← hnone, Function.update_eq_self]
        have hpool : ({ σ with fds := σ.fds }.setStream j l').pool = σ.pool := by
          rw [pool, held_setStream, hfd]
          exact congrArg (ResourcePool.mk σ.fds) hsame
        rw [hpool]
        exact hσ.conserved
    | some n =>
      have hn : n ∈ σ.fds := by simpa [answers] using hanswer
      refine ⟨{ σ with fds := σ.fds.erase n }.setStream j l', ?_, ?_, hσ.acceptors, hstreams _⟩
      · simp only [finishStream, getAvailableFd_eq hσ hn, hreleased, releaseFds,
          Option.bind_eq_bind, Option.bind_some]
      · rw [pool, held_setStream, hfd]
        exact hσ.conserved.take hn hnone

/-- An acceptor whose descriptor stays. -/
theorem held_setAcceptor_of_fd {l l' : AcceptorLife} (hi : σ.acceptors i = some l)
    (hfd : l'.impl.fd = l.impl.fd) (fds : Finset Nat) :
    ({ σ with fds := fds }.setAcceptor i l').held =
      Function.update σ.held (.accepting i) (slotOf l'.impl.accept.peerFd) := by
  have hheld : ({ σ with fds := fds } : Slots).held = σ.held := rfl
  rw [held_setAcceptor, hheld, Function.update_eq_self_iff]
  simp [held, hi, hfd]

/-- The end of a step of an acceptor: it asks for a slot, gives slots back, and hands one on. -/
def finishAcceptor (σ : Slots) (i : Nat) (l' : AcceptorLife) (j now : Nat)
    (ask : Option (Option Nat)) (x : Accepted) : Option Slots := do
  let σ ← σ.getAvailableFd ask
  let σ ← σ.releaseFds l'.released
  some ((σ.setAcceptor i l').accept j now x)

theorem finishAcceptor_inv (hσ : Inv σ) {l l' : AcceptorLife} {ask : Option (Option Nat)}
    {x : Accepted} (hi : σ.acceptors i = some l) (heffect : AcceptorLife.SlotEffect l l' ask x)
    (hl' : AcceptorLife.Sound 0 l') (hanswer : σ.answers ask = true) (hj : σ.streams j = none)
    (hr : σ.raw j = none) (now : Nat) :
    ∃ σ', σ.finishAcceptor i l' j now ask x = some σ' ∧ Inv σ' := by
  have hpeer₀ : σ.pool.held (.accepting i) = slotOf l.impl.accept.peerFd := by simp [pool, held, hi]
  have hfd₀ : σ.pool.held (.acceptor i) = slotOf l.impl.fd := by simp [pool, held, hi]
  have hacceptors (fds : Finset Nat) :
      ∀ k m, ({ σ with fds := fds }.setAcceptor i l').acceptors k = some m →
        AcceptorLife.Sound 0 m ∧ m.released = [] := fun k m hm => forall_setAcceptor hσ hl' k m hm
  cases heffect with
  | returns given given' hreleased hpeer hfd =>
    rw [← hpeer₀] at hpeer
    rw [← hfd₀] at hfd
    obtain ⟨hconserved, hnodup, hgiven⟩ := hσ.conserved.returns (p := .accepting i) hpeer
    obtain ⟨hconserved', hnodup', hgiven'⟩ := hconserved.returns (p := .acceptor i)
      (by simpa using hfd)
    refine ⟨{ σ with fds := σ.fds ∪ (given ++ given').toFinset }.setAcceptor i l', ?_, ?_,
      hacceptors _, hσ.streams⟩
    · simp only [finishAcceptor, getAvailableFd, Option.bind_eq_bind, Option.bind_some]
      rw [releaseFds_eq hreleased]
      · rfl
      · refine List.nodup_append'.mpr ⟨hnodup, hnodup', fun n hn hn' => ?_⟩
        exact (hgiven' n hn').2 (Finset.mem_union_right _ (List.mem_toFinset.mpr hn))
      · intro n hn
        rcases List.mem_append.mp hn with hn | hn
        · exact hgiven n hn
        · exact ⟨(hgiven' n hn).1, fun hcon => (hgiven' n hn).2 (Finset.mem_union_left _ hcon)⟩
    · rw [pool, held_setAcceptor]
      rw [Finset.union_assoc, ← List.toFinset_append] at hconserved'
      exact hconserved'
  | refused hsame =>
    subst hsame
    have hreleased : l'.released = [] := (hσ.acceptors i l' hi).2
    refine ⟨{ σ with fds := σ.fds }.setAcceptor i l', ?_, ?_, hacceptors _, hσ.streams⟩
    · simp [finishAcceptor, getAvailableFd, hreleased, releaseFds, accept]
    · have hpool : ({ σ with fds := σ.fds }.setAcceptor i l').pool = σ.pool := by
        rw [pool, held_setAcceptor_of_fd hi rfl σ.fds, ← hpeer₀]
        exact congrArg (ResourcePool.mk σ.fds) (Function.update_eq_self ..)
      rw [hpool]
      exact hσ.conserved
  | takes n hnone hpeer hfd hreleased =>
    rw [← hpeer₀] at hnone
    have hn : n ∈ σ.fds := by simpa [answers] using hanswer
    refine ⟨{ σ with fds := σ.fds.erase n }.setAcceptor i l', ?_, ?_, hacceptors _, hσ.streams⟩
    · simp only [finishAcceptor, getAvailableFd_eq hσ hn, hreleased, releaseFds,
        Option.bind_eq_bind, Option.bind_some, accept]
    · rw [pool, held_setAcceptor_of_fd hi hfd, hpeer]
      exact hσ.conserved.take hn hnone
  | hands x hx hsome hpeer hfd hreleased =>
    have hheld : (σ.setAcceptor i l').held = Function.update σ.held (.accepting i) none :=
      (held_setAcceptor_of_fd hi hfd σ.fds).trans (by rw [hpeer])
    have hfinish : σ.finishAcceptor i l' j now none x =
        some ((σ.setAcceptor i l').accept j now x) := by
      simp [finishAcceptor, getAvailableFd, hreleased, releaseFds]
    refine ⟨_, hfinish, ?_⟩
    rcases hx with rfl | rfl
    · refine ⟨?_, hacceptors _, ?_⟩
      · have hnone : σ.pool.held (.stream j) = none := by simp [pool, held, hj]
        have hpass := hσ.conserved.pass (p := .accepting i) (q := .stream j) (by simp) hnone
        rw [ResourcePool.pass, hpeer₀] at hpass
        rw [pool, accept, held_setStream, hheld]
        exact hpass
      · intro k m hm
        obtain ⟨⟨hcount, hflags, hclear, hheld⟩, hgone⟩ :=
          Life.sound_new false l.impl.accept.peerFd now
        exact forall_setStream (l := { Life.new false l.impl.accept.peerFd now with
          impl := { (Life.new false l.impl.accept.peerFd now).impl with connected := true } }) hσ
          ⟨⟨hcount, hflags, hclear, hheld⟩, hgone⟩ k m hm
    · refine ⟨?_, hacceptors _, hσ.streams⟩
      have hnone : σ.pool.held (.raw j) = none := by simp [pool, held, hr]
      have hpass := hσ.conserved.pass (p := .accepting i) (q := .raw j) (by simp) hnone
      have hslot : slotOf l.impl.accept.peerFd = some l.impl.accept.peerFd.toNat := if_pos hsome
      rw [ResourcePool.pass, hpeer₀, hslot] at hpass
      rw [pool, accept, held_setRaw, hheld]
      exact hpass

/-- **No allowed call faults, and each keeps the invariant.** -/
theorem perform_inv (hσ : Inv σ) (hop : σ.allows op) : ∃ σ', σ.perform op = some σ' ∧ Inv σ' := by
  cases op with
  | newAcceptor i slot =>
    simp only [allows, answers, Bool.and_eq_true, Option.isNone_iff_eq_none,
      decide_eq_true_eq] at hop
    refine ⟨_, ?_, inv_newAcceptor hσ hop.1 hop.2⟩
    simp only [perform, getAvailableFd_eq hσ hop.2, Option.bind_eq_bind, Option.bind_some]
  | newClient j now =>
    exact ⟨_, rfl, inv_newClient hσ (by simpa [allows] using hop) now⟩
  | newStream j r now =>
    simp only [allows, Bool.and_eq_true, Option.isNone_iff_eq_none, Option.isSome_iff_exists] at hop
    obtain ⟨hj, n, hr⟩ := hop
    refine ⟨_, ?_, inv_newStream hσ hj hr now⟩
    simp only [perform, hr, Option.bind_eq_bind, Option.bind_some]
  | onAcceptor i op j now =>
    simp only [allows, Bool.and_eq_true, Option.isNone_iff_eq_none, Option.any_eq_true,
      Option.isSome_iff_exists] at hop
    obtain ⟨⟨hj, hr⟩, l, hi, ⟨l', hstep⟩, hanswer⟩ := hop
    obtain ⟨hl, hrel⟩ := hσ.acceptors i l hi
    obtain ⟨σ', hσ', hinv⟩ := finishAcceptor_inv hσ hi (AcceptorLife.step_slots hl hrel hstep)
      (hl.step hstep) hanswer hj hr now
    refine ⟨σ', ?_, hinv⟩
    simpa [perform, hi, hstep, finishAcceptor] using hσ'
  | onStream j op =>
    simp only [allows, Bool.and_eq_true, Option.any_eq_true, Option.isSome_iff_exists] at hop
    obtain ⟨l, hj, ⟨l', hstep⟩, hanswer⟩ := hop
    obtain ⟨hl, hrel⟩ := hσ.streams j l hj
    obtain ⟨σ', hσ', hinv⟩ := finishStream_inv hσ hj (Life.step_slots hrel hstep)
      (hl.step hstep) hanswer
    refine ⟨σ', ?_, hinv⟩
    simpa [perform, hj, hstep, finishStream] using hσ'

theorem releaseFds_numFiles {fds : List Int} (h : σ.releaseFds fds = some σ') :
    σ'.numFiles = σ.numFiles := by
  induction fds generalizing σ with
  | nil =>
    obtain rfl := Option.some.inj h
    rfl
  | cons fd fds ih =>
    obtain ⟨τ, hfirst, hrest⟩ := Option.bind_eq_some_iff.mp h
    rw [ih hrest]
    unfold releaseFd at hfirst
    split_ifs at hfirst <;> obtain rfl := Option.some.inj hfirst <;> rfl

theorem getAvailableFd_numFiles {ask : Option (Option Nat)} (h : σ.getAvailableFd ask = some σ') :
    σ'.numFiles = σ.numFiles := by
  unfold getAvailableFd at h
  split at h
  · obtain rfl := Option.some.inj h
    rfl
  · obtain rfl := Option.some.inj h
    rfl
  · split_ifs at h
    obtain rfl := Option.some.inj h
    rfl

/-- The table keeps its size. -/
theorem perform_numFiles (h : σ.perform op = some σ') : σ'.numFiles = σ.numFiles := by
  cases op with
  | newAcceptor i slot =>
    obtain ⟨τ, htake, heq⟩ := Option.bind_eq_some_iff.mp h
    obtain rfl := Option.some.inj heq
    exact (getAvailableFd_numFiles htake :)
  | newClient j now =>
    obtain rfl := Option.some.inj h
    rfl
  | newStream j r now =>
    obtain ⟨fd, -, heq⟩ := Option.bind_eq_some_iff.mp h
    obtain rfl := Option.some.inj heq
    rfl
  | onAcceptor i op j now =>
    simp only [perform, Option.bind_eq_bind, Option.bind_eq_some_iff] at h
    obtain ⟨l, -, l', -, τ, htake, τ', hgive, heq⟩ := h
    obtain rfl := Option.some.inj heq
    have hhand : ((τ'.setAcceptor i l').accept j now (l.accepted op)).numFiles = τ'.numFiles := by
      cases l.accepted op <;> rfl
    rw [hhand, releaseFds_numFiles hgive, getAvailableFd_numFiles htake]
  | onStream j op =>
    simp only [perform, Option.bind_eq_bind, Option.bind_eq_some_iff] at h
    obtain ⟨l, -, l', -, τ, htake, τ', hgive, heq⟩ := h
    obtain rfl := Option.some.inj heq
    exact (releaseFds_numFiles hgive).trans (getAvailableFd_numFiles htake)

theorem step_inv (hσ : Inv σ) (hstep : σ.step op = some σ') :
    Inv σ' ∧ σ'.numFiles = σ.numFiles := by
  rw [step] at hstep
  split_ifs at hstep with hop
  obtain ⟨σ'', hperform, hinv⟩ := perform_inv hσ hop
  obtain rfl := Option.some.inj (hperform.symm.trans hstep)
  exact ⟨hinv, perform_numFiles hperform⟩

/-- The invariant holds after every run. -/
theorem run_inv {numFiles : Nat} {ops : List SlotsOp}
    (hrun : run step (init numFiles) ops = some σ) : Inv σ ∧ σ.numFiles = numFiles := by
  refine run_invariant (I := fun σ => Inv σ ∧ σ.numFiles = numFiles) (fun τ op τ' hτ hstep => ?_)
    ⟨inv_init numFiles, rfl⟩ hrun
  obtain ⟨hinv, hsame⟩ := step_inv hτ.1 hstep
  exact ⟨hinv, hsame.trans hτ.2⟩

end Slots

/-- **Conservation of the descriptor slots**: in every state that any number of acceptors,
streams and clients reach, each slot of the table is free or with exactly one of those that can
have it, nothing else is in either place, no call that is made passes a slot to `release_fd` that is
free or outside of the table, and no free slot is the `fd_` or the `peer_fd_` of any object.

The places are those members. A request names the slot that was its target when it was submitted,
and one that is in flight may still name a slot that a close has given back meanwhile. -/
theorem slots_conserved (numFiles : Nat) (ops : List SlotsOp) (σ : Slots)
    (hrun : run Slots.step (Slots.init numFiles) ops = some σ) :
    (∀ n < numFiles, ∃! p, σ.Holds p n) ∧ (∀ p n, σ.Holds p n → n < numFiles) ∧
      (∀ op, σ.allows op → (σ.perform op).isSome) ∧
      ∀ n ∈ σ.fds, (∀ i l, σ.acceptors i = some l → l.impl.fd ≠ n ∧ l.impl.accept.peerFd ≠ n) ∧
        ∀ j l, σ.streams j = some l → l.impl.fd ≠ n := by
  obtain ⟨hσ, rfl⟩ := Slots.run_inv hrun
  refine ⟨fun n hn => ?_, fun p n hp => ?_, fun op hop => ?_, fun n hn => ⟨fun i l hi => ?_, ?_⟩⟩
  · simp only [hσ.holds_iff]
    exact Ownership.ExactlyOne.existsUnique hσ.conserved hn
  · exact Ownership.ExactlyOne.live_of_held hσ.conserved (hσ.holds_iff.mp hp)
  · obtain ⟨σ', h, -⟩ := Slots.perform_inv hσ hop
    rw [h]
    rfl
  · exact ⟨hσ.ne_of_held (p := .acceptor i) (by simp [Slots.held, hi]) hn,
      hσ.ne_of_held (p := .accepting i) (by simp [Slots.held, hi]) hn⟩
  · intro j l hj
    exact hσ.ne_of_held (p := .stream j) (by simp [Slots.held, hj]) hn

/-- An acceptor and a client on a table of three slots: a connection is accepted, the socket of the
client fails, and so does a second accept, into the slot that the client has given back. -/
theorem slots_conserved_sample : ∃ σ, run Slots.step (Slots.init 3)
    [.newAcceptor 0 2, .newClient 0 0,
      .onAcceptor 0 (.newAwaitable .accept) 1 0, .onAcceptor 0 (.await .accept 5 (some 0)) 1 0,
      .onStream 0 (.newAwaitable (.op .connect)), .onStream 0 (.await (.op .connect) 6 (some 1) 0),
      .onStream 0 (.process (.op .socket) ⟨-24, false, none⟩ 0 0 .defaulted),
      .onAcceptor 0 (.process .accept 0) 1 0, .onAcceptor 0 (.resume 5 .accept) 1 0,
      .onAcceptor 0 (.await .accept 5 (some 1)) 2 0, .onAcceptor 0 (.process .accept (-103)) 2 0]
      = some σ ∧
    (∀ n < 3, ∃! p, σ.Holds p n) ∧ (∀ p n, σ.Holds p n → n < 3) ∧
      (∀ op, σ.allows op → (σ.perform op).isSome) ∧
      ∀ n ∈ σ.fds, (∀ i l, σ.acceptors i = some l → l.impl.fd ≠ n ∧ l.impl.accept.peerFd ≠ n) ∧
        ∀ j l, σ.streams j = some l → l.impl.fd ≠ n := by
  refine Exists.imp (fun σ hrun => ⟨hrun, slots_conserved 3 _ σ hrun⟩) ?_
  exact ⟨_, rfl⟩

end Fiona
