import Fiona.Slots.Files

/-!
# One table for sockets and files

A context has one table: `get_available_fd` and `release_fd` serve the acceptors, streams and
clients and the files of the context alike, in whatever order they come. What the files have is, to
a socket, a set of slots that nobody gives out, and the other way round
(`Fiona.Slots.Beside`, `Fiona.Files.Beside`). So a step of one side does to the shared table
what it does to a table of its own, and what is known of each side on its own can be used for
both: sockets put no slot of a file in danger, and a slot is lost only where a file loses it
(`Fiona.descriptors_conserved`).
-/

namespace Fiona

open Transition

/-! ### The shared table -/

/-- A step of what can have a slot. -/
inductive TableOp
  | socket (op : SlotsOp)
  | file (op : FilesOp)

namespace Table

/-- What can have a slot of the shared table. -/
abbrev Holder : Type := Slots.Holder ⊕ Files.Holder

/-- One step of a socket or a file, up to the first assertion that fails. -/
def step (s : Files) : TableOp → Option Files
  | .socket op =>
    if s.fault || !s.slots.allows op then none
    else some (((s.slots.perform op).map fun σ => { s with slots := σ }).getD
      { s with fault := true })
  | .file op => s.step op

/-- The slot `n` is in a place: in `fds_`, which is `none`, or with a socket or a file. -/
def Holds (s : Files) : Option Holder → Nat → Prop
  | none, n => n ∈ s.slots.fds
  | some (.inl p), n => s.slots.Holds (some p) n
  | some (.inr p), n => s.Holds (some p) n

/-- **The slots are conserved**: no assertion of `get_available_fd`, `release_fd` or
`open_frame::await_process_cqe` has failed, each slot is in one place, and all of them are in `fds_`
when whatever could have one is gone. -/
structure Conserved (s : Files) : Prop where
  noFault : s.fault = false
  place : ∀ n < s.slots.numFiles, ∃! p, Holds s p n
  slot : ∀ p n, Holds s p n → n < s.slots.numFiles
  idle : (∀ i l, s.slots.acceptors i = some l → l.impl.count = 0) →
    (∀ j l, s.slots.streams j = some l → l.impl.count = 0) → (∀ r, s.slots.raw r = none) →
    (∀ i, s.files i = none) → s.slots.fds = Finset.range s.slots.numFiles

/-- An open of a file that finds no slot is refused. -/
def Refuses (s : Files) : TableOp → Prop
  | .socket _ => True
  | .file op => s.Refuses op

/-- What a file is held to; a socket is held to nothing. -/
def Orderly (s : Files) : TableOp → Prop
  | .socket _ => True
  | .file op => s.Orderly op

end Table

/-! ### What a step has to do with slots -/

/-- What a step of a stream gives back, the stream had. -/
theorem Life.SlotEffect.had {l l' : Life} {ask : Option (Option Nat)}
    (h : Life.SlotEffect l l' ask) {n : Nat} (hn : n ∈ l'.released.filterMap slotOf) :
    slotOf l.impl.fd = some n := by
  cases h with
  | returns hfd => exact hfd.mem hn
  | takes slot hnone hfd hreleased =>
    rw [hreleased] at hn
    exact absurd hn (by simp)

/-- What a step of an acceptor gives back, the acceptor or its accept had. -/
theorem AcceptorLife.SlotEffect.had {l l' : AcceptorLife} {ask : Option (Option Nat)}
    {x : Accepted} (h : AcceptorLife.SlotEffect l l' ask x) (hrel : l.released = []) {n : Nat}
    (hn : n ∈ l'.released.filterMap slotOf) :
    slotOf l.impl.accept.peerFd = some n ∨ slotOf l.impl.fd = some n := by
  cases h with
  | returns given given' hgiven hpeer hfd =>
    rw [hgiven] at hn
    rcases List.mem_append.mp hn with hn | hn
    · exact .inl (hpeer.mem hn)
    · exact .inr (hfd.mem hn)
  | refused hsame =>
    rw [hsame, hrel] at hn
    exact absurd hn (by simp)
  | takes _ _ _ _ hreleased | hands _ _ _ _ _ hreleased =>
    rw [hreleased] at hn
    exact absurd hn (by simp)

/-- An answer that there is no slot changes nothing. -/
theorem Life.SlotEffect.of_refused {l l' : Life} (h : Life.SlotEffect l l' (some none)) :
    Life.SlotEffect l l' none := by
  cases h with
  | takes _ hnone hfd hreleased =>
    refine .returns ?_
    rw [hnone, hfd, hreleased]
    exact .keep _

theorem AcceptorLife.SlotEffect.of_refused {l l' : AcceptorLife} {x : Accepted}
    (hrel : l.released = []) (h : AcceptorLife.SlotEffect l l' (some none) x) :
    AcceptorLife.SlotEffect l l' none x := by
  cases h with
  | refused hsame =>
    subst hsame
    exact .keep hrel rfl rfl rfl

/-! ### A table with more free slots -/

namespace Slots

variable {σ τ σ' τ' : Slots} {K : Finset Nat} {fd : Int} {fds : List Int} {i j r : Nat}
  {ask : Option (Option Nat)} {op : SlotsOp}

/-- `τ` is `σ` with the slots in `K` free as well. -/
structure Beside (K : Finset Nat) (σ τ : Slots) : Prop where
  eq : τ = { σ with fds := σ.fds ∪ K }
  disjoint : Disjoint σ.fds K

theorem Beside.setAcceptor (h : Beside K σ τ) (l : AcceptorLife) :
    Beside K (σ.setAcceptor i l) (τ.setAcceptor i l) :=
  ⟨by rw [h.eq]; rfl, h.disjoint⟩

theorem Beside.setStream (h : Beside K σ τ) (l : Life) :
    Beside K (σ.setStream j l) (τ.setStream j l) :=
  ⟨by rw [h.eq]; rfl, h.disjoint⟩

theorem Beside.setRaw (h : Beside K σ τ) (o : Option Nat) :
    Beside K (σ.setRaw r o) (τ.setRaw r o) :=
  ⟨by rw [h.eq]; rfl, h.disjoint⟩

theorem Beside.accept (h : Beside K σ τ) (now : Nat) (x : Accepted) :
    Beside K (σ.accept j now x) (τ.accept j now x) := by
  cases x with
  | nothing => exact h
  | connection fd => exact h.setStream _
  | raw fd => exact h.setRaw _

/-- `get_available_fd` answers alike, given a slot that is free in both. -/
theorem Beside.getAvailableFd (h : Beside K σ τ) (hask : ∀ n, ask = some (some n) → n ∈ σ.fds) :
    Option.Rel (Beside K) (σ.getAvailableFd ask) (τ.getAvailableFd ask) := by
  obtain ⟨rfl, hdisjoint⟩ := h
  rcases ask with _ | _ | n
  · exact .some ⟨rfl, hdisjoint⟩
  · exact .some ⟨rfl, hdisjoint⟩
  · have hn : n ∉ K := Finset.disjoint_left.mp hdisjoint (hask n rfl)
    by_cases hlt : n < σ.numFiles
    · simp only [Slots.getAvailableFd, if_pos hlt]
      refine .some ⟨?_, hdisjoint.mono_left (Finset.erase_subset ..)⟩
      rw [Finset.erase_union_distrib, Finset.erase_eq_of_notMem hn]
    · simp only [Slots.getAvailableFd, if_neg hlt]
      exact .none

/-- `release_fd` fails alike, on what is not in `K`. -/
theorem Beside.releaseFd (h : Beside K σ τ) (hfd : ∀ n, slotOf fd = some n → n ∉ K) :
    Option.Rel (Beside K) (σ.releaseFd fd) (τ.releaseFd fd) := by
  obtain ⟨rfl, hdisjoint⟩ := h
  unfold Slots.releaseFd
  by_cases hneg : fd < 0
  · rw [if_pos hneg, if_pos hneg]
    exact .some ⟨rfl, hdisjoint⟩
  have hn : fd.toNat ∉ K := hfd _ (if_pos (by omega))
  have hiff : fd.toNat ∉ σ.fds ∪ K ↔ fd.toNat ∉ σ.fds := by simp [hn]
  rw [if_neg hneg, if_neg hneg]
  simp only [hiff]
  split_ifs
  · refine .some ⟨by rw [Finset.insert_union], ?_⟩
    exact Finset.disjoint_insert_left.mpr ⟨hn, hdisjoint⟩
  · exact .none

theorem Beside.releaseFds (h : Beside K σ τ) (hfds : ∀ n ∈ fds.filterMap slotOf, n ∉ K) :
    Option.Rel (Beside K) (σ.releaseFds fds) (τ.releaseFds fds) := by
  induction fds generalizing σ τ with
  | nil => exact .some h
  | cons fd fds ih =>
    refine rel_bind (h.releaseFd fun n hn => hfds n ?_) fun σ' τ' h' => ih h' fun n hn => hfds n ?_
    · exact List.mem_filterMap.mpr ⟨fd, List.mem_cons_self, hn⟩
    · obtain ⟨fd', hfd', hslot⟩ := List.mem_filterMap.mp hn
      exact List.mem_filterMap.mpr ⟨fd', List.mem_cons_of_mem _ hfd', hslot⟩

/-- The objects are the same. -/
theorem Beside.held (h : Beside K σ τ) : τ.held = σ.held := by rw [h.eq]; rfl

theorem Beside.acceptors (h : Beside K σ τ) : τ.acceptors = σ.acceptors := by rw [h.eq]

theorem Beside.streams (h : Beside K σ τ) : τ.streams = σ.streams := by rw [h.eq]

theorem Beside.raw (h : Beside K σ τ) : τ.raw = σ.raw := by rw [h.eq]

theorem Beside.mem_fds (h : Beside K σ τ) {n : Nat} : n ∈ τ.fds ↔ n ∈ σ.fds ∨ n ∈ K := by
  rw [h.eq]
  exact Finset.mem_union

/-- What an object has is not in `K`. -/
theorem Beside.notMem (h : Beside K σ τ) (hτ : Inv τ) {p : Holder} {n : Nat}
    (hp : σ.held p = some n) : n ∉ K := by
  intro hn
  have hheld : τ.pool.held p = some n := (congrFun h.held p).trans hp
  exact hτ.conserved.notMem_free hheld (h.mem_fds.mpr (.inr hn))

/-- A free slot of the smaller table is one of the larger. -/
theorem answers_mem (h : σ.answers ask = true) {n : Nat} (hask : ask = some (some n)) :
    n ∈ σ.fds := by
  subst hask
  simpa [answers] using h

/-- **A socket does beside the others what it does on its own.** -/
theorem Beside.perform (h : Beside K σ τ) (hτ : Inv τ) (hop : σ.allows op = true) :
    Option.Rel (Beside K) (σ.perform op) (τ.perform op) := by
  cases op with
  | newAcceptor i slot =>
    refine rel_bind (h.getAvailableFd fun n hn => answers_mem (Bool.and_eq_true_iff.mp hop).2 hn)
      fun σ' τ' h' => .some (h'.setAcceptor _)
  | newClient j now => exact .some (h.setStream _)
  | newStream j r now =>
    simp only [Slots.perform, h.raw]
    refine rel_bind (R := Eq) ?_ fun fd fd' hfd => .some ?_
    · cases σ.raw r with
      | none => exact .none
      | some fd => exact .some rfl
    · subst hfd
      exact (h.setRaw none).setStream _
  | onAcceptor i op j now =>
    simp only [allows, Bool.and_eq_true, Option.any_eq_true, Option.isSome_iff_exists] at hop
    obtain ⟨-, l, hi, ⟨l', hstep⟩, hanswer⟩ := hop
    obtain ⟨hl, hrel⟩ := hτ.acceptors i l (h.acceptors ▸ hi)
    have heffect := AcceptorLife.step_slots hl hrel hstep
    simp only [Slots.perform, h.acceptors, hi, hstep, Option.bind_eq_bind, Option.bind_some]
    refine rel_bind (h.getAvailableFd fun n hn => answers_mem hanswer hn) fun σ₁ τ₁ h₁ => ?_
    refine rel_bind (h₁.releaseFds fun n hn => ?_) fun σ₂ τ₂ h₂ => ?_
    · rcases heffect.had hrel hn with hpeer | hfd
      · exact h.notMem hτ (p := .accepting i) (by simp [Slots.held, hi, hpeer])
      · exact h.notMem hτ (p := .acceptor i) (by simp [Slots.held, hi, hfd])
    · exact .some ((h₂.setAcceptor _).accept ..)
  | onStream j op =>
    simp only [allows, Option.any_eq_true, Bool.and_eq_true, Option.isSome_iff_exists] at hop
    obtain ⟨l, hj, ⟨l', hstep⟩, hanswer⟩ := hop
    obtain ⟨-, hrel⟩ := hτ.streams j l (h.streams ▸ hj)
    have heffect := Life.step_slots hrel hstep
    simp only [Slots.perform, h.streams, hj, hstep, Option.bind_eq_bind, Option.bind_some]
    refine rel_bind (h.getAvailableFd fun n hn => answers_mem hanswer hn) fun σ₁ τ₁ h₁ => ?_
    refine rel_bind (h₁.releaseFds fun n hn => ?_) fun σ₂ τ₂ h₂ => .some (h₂.setStream _)
    exact h.notMem hτ (p := .stream j) (by simp [Slots.held, hj, heffect.had hn])

/-- **No call of a socket fails beside the others.** -/
theorem Beside.perform_inv (h : Beside K σ τ) (hτ : Inv τ) (hop : σ.allows op = true) :
    ∃ τ', τ.perform op = some τ' ∧ Inv τ' := by
  have hanswers (ask : Option (Option Nat)) (hask : σ.answers ask = true) :
      τ.answers ask = true ∨ ask = some none := by
    rcases ask with _ | _ | n
    · exact .inl rfl
    · exact .inr rfl
    · exact .inl (by simpa [answers, h.mem_fds] using Or.inl (answers_mem hask rfl))
  cases op with
  | newAcceptor i slot =>
    obtain ⟨hi, hanswer⟩ := Bool.and_eq_true_iff.mp hop
    refine Slots.perform_inv hτ ?_
    rcases hanswers _ hanswer with hanswer' | hnone
    · simp only [allows, h.acceptors, hi, hanswer', Bool.and_self]
    · exact absurd hnone (by simp)
  | newClient j now => exact Slots.perform_inv hτ (by rwa [allows, h.streams])
  | newStream j r now => exact Slots.perform_inv hτ (by rwa [allows, h.streams, h.raw])
  | onAcceptor i op j now =>
    simp only [allows, Bool.and_eq_true, Option.isNone_iff_eq_none, Option.any_eq_true,
      Option.isSome_iff_exists] at hop
    obtain ⟨⟨hj, hr⟩, l, hi, ⟨l', hstep⟩, hanswer⟩ := hop
    rw [← h.streams] at hj
    rw [← h.raw] at hr
    rw [← h.acceptors] at hi
    obtain ⟨hl, hrel⟩ := hτ.acceptors i l hi
    have heffect := AcceptorLife.step_slots hl hrel hstep
    have hfinish : τ.perform (.onAcceptor i op j now) =
        τ.finishAcceptor i l' j now (l.asks op) (l.accepted op) := by
      simp [Slots.perform, hi, hstep, finishAcceptor]
    rw [hfinish]
    rcases hanswers _ hanswer with hanswer' | hnone
    · exact finishAcceptor_inv hτ hi heffect (hl.step hstep) hanswer' hj hr now
    · rw [hnone] at heffect ⊢
      have hrefused : τ.finishAcceptor i l' j now (some none) (l.accepted op) =
          τ.finishAcceptor i l' j now none (l.accepted op) := rfl
      rw [hrefused]
      exact finishAcceptor_inv hτ hi (heffect.of_refused hrel) (hl.step hstep) rfl hj hr now
  | onStream j op =>
    simp only [allows, Option.any_eq_true, Bool.and_eq_true, Option.isSome_iff_exists] at hop
    obtain ⟨l, hj, ⟨l', hstep⟩, hanswer⟩ := hop
    rw [← h.streams] at hj
    obtain ⟨hl, hrel⟩ := hτ.streams j l hj
    have heffect := Life.step_slots hrel hstep
    have hfinish : τ.perform (.onStream j op) = τ.finishStream j l' (l.asks op) := by
      simp [Slots.perform, hj, hstep, finishStream]
    rw [hfinish]
    rcases hanswers _ hanswer with hanswer' | hnone
    · exact finishStream_inv hτ hj heffect (hl.step hstep) hanswer'
    · rw [hnone] at heffect ⊢
      have hrefused : τ.finishStream j l' (some none) = τ.finishStream j l' none := rfl
      rw [hrefused]
      exact finishStream_inv hτ hj heffect.of_refused (hl.step hstep) rfl

end Slots

namespace Files

variable {s t s' : Files} {K : Finset Nat} {i : Nat} {l : FileLife} {fd : Int} {op : FilesOp}

/-- `t` is `s` with the slots in `K` free as well. -/
structure Beside (K : Finset Nat) (s t : Files) : Prop where
  slots : Slots.Beside K s.slots t.slots
  files : t.files = s.files
  fault : t.fault = s.fault

theorem Beside.setFile (h : Beside K s t) (o : Option FileLife) :
    Beside K (s.setFile i o) (t.setFile i o) :=
  ⟨h.slots, by rw [Files.setFile, Files.setFile, h.files], h.fault⟩

theorem Beside.releaseFd (h : Beside K s t) (hfd : ∀ n, slotOf fd = some n → n ∉ K) :
    Option.Rel (Beside K) (s.releaseFd fd) (t.releaseFd fd) := by
  rw [Files.releaseFd, Files.releaseFd, Option.map_eq_bind, Option.map_eq_bind]
  exact rel_bind (h.slots.releaseFd hfd) fun σ τ hστ => .some ⟨hστ, h.files, h.fault⟩

theorem Beside.settle (h : Beside K s t) (hfd : ∀ n, slotOf l.impl.fd = some n → n ∉ K) :
    Option.Rel (Beside K) (s.settle i l) (t.settle i l) := by
  unfold Files.settle
  split_ifs
  · exact (h.setFile none).releaseFd hfd
  · exact .some (h.setFile _)

/-- **A file does beside the others what it does on its own**, if the others have nothing that it
has. -/
theorem Beside.perform (h : Beside K s t) (hheld : ∀ p n, s.held p = some n → n ∉ K)
    (hop : s.allows op = true) : Option.Rel (Beside K) (s.perform op) (t.perform op) := by
  have hfile {i : Nat} {l : FileLife} (hi : s.files i = some l) (n : Nat)
      (hn : slotOf l.impl.fd = some n) : n ∉ K := hheld (.file i) n (by simp [Files.held, hi, hn])
  have hopening {i : Nat} {l : FileLife} (hi : s.files i = some l) (n : Nat)
      (hn : slotOf l.impl.tempFd = some n) : n ∉ K :=
    hheld (.opening i) n (by simp [Files.held, hi, hn])
  cases op with
  | newFile i => exact .some (h.setFile _)
  | copy i =>
    obtain ⟨l, hi, -⟩ := (Option.any_eq_true ..).mp hop
    simp only [Files.perform, h.files, hi, Option.bind_eq_bind, Option.bind_some]
    exact .some (h.setFile _)
  | drop i =>
    obtain ⟨l, hi, -⟩ := (Option.any_eq_true ..).mp hop
    simp only [Files.perform, h.files, hi, Option.bind_eq_bind, Option.bind_some]
    have hfd : ∀ n, slotOf l.impl.fd = some n → n ∉ K := hfile hi
    exact h.settle hfd
  | «open» i h' slot =>
    obtain ⟨hany, hanswer⟩ := Bool.and_eq_true_iff.mp hop
    obtain ⟨l, hi, -⟩ := (Option.any_eq_true ..).mp hany
    simp only [Files.perform, asyncOpen, h.files, hi, Option.bind_eq_bind, Option.bind_some,
      Option.map_bind]
    refine rel_bind (h.slots.getAvailableFd fun n hn => Slots.answers_mem hanswer hn)
      fun σ τ hστ => .some ?_
    have hslots : Beside K { s with slots := σ } { t with slots := τ } := ⟨hστ, h.files, h.fault⟩
    exact h.files ▸ hslots.setFile _
  | complete i res =>
    obtain ⟨l, hi, -⟩ := (Option.any_eq_true ..).mp hop
    simp only [Files.perform, h.files, hi, Option.bind_eq_bind, Option.bind_some]
    by_cases hres : 0 ≤ res
    · obtain ⟨hback, hfd, -⟩ := FileLife.process_of_nonneg (l := l) hres
      rw [hback]
      exact h.settle (hfd ▸ hopening hi)
    · obtain ⟨hback, hfd, -⟩ := FileLife.process_of_neg (l := l) hres
      rw [hback]
      by_cases hneg : l.impl.tempFd < 0
      · simp only [if_pos hneg]
        exact .none
      · simp only [if_neg hneg]
        exact rel_bind (h.releaseFd (hopening hi)) fun s₁ t₁ h₁ => h₁.settle (hfd ▸ hfile hi)
  | resume i =>
    obtain ⟨l, hi, -⟩ := (Option.any_eq_true ..).mp hop
    simp only [Files.perform, h.files, hi, Option.bind_eq_bind, Option.bind_some]
    exact .some (h.setFile _)

theorem Beside.orderly_iff (h : Beside K s t) : t.Orderly op ↔ s.Orderly op := by
  cases op <;> simp only [Orderly, h.files]

/-- What a file may do alone, it may do beside the others, unless it is told that there is no
slot. -/
theorem Beside.allows (h : Beside K s t) (hop : s.allows op = true)
    (hslot : ∀ i h', op ≠ .open i h' none) : t.allows op = true := by
  cases op with
  | «open» i h' slot =>
    obtain ⟨hany, hanswer⟩ := Bool.and_eq_true_iff.mp hop
    cases slot with
    | none => exact absurd rfl (hslot i h')
    | some n =>
      have hn : n ∈ t.slots.fds := h.slots.mem_fds.mpr (.inl (Slots.answers_mem hanswer rfl))
      simp only [Files.allows, h.files, hany, Slots.answers, hn, decide_true, Bool.and_self]
  | _ => simpa only [Files.allows, h.files] using hop

theorem releaseFd_slots (h : s.releaseFd fd = some s') :
    ∃ fds, s'.slots = { s.slots with fds := fds } := by
  obtain ⟨σ, hσ, rfl⟩ := Option.map_eq_some_iff.mp h
  unfold Slots.releaseFd at hσ
  split_ifs at hσ <;> obtain rfl := Option.some.inj hσ
  · exact ⟨_, rfl⟩
  · exact ⟨_, rfl⟩

theorem settle_slots (h : s.settle i l = some s') :
    ∃ fds, s'.slots = { s.slots with fds := fds } := by
  unfold settle at h
  split_ifs at h
  · exact (releaseFd_slots h :)
  · obtain rfl := Option.some.inj h
    exact ⟨_, rfl⟩

/-- **A file leaves the sockets alone.** -/
theorem perform_slots (h : s.perform op = some s') :
    ∃ fds, s'.slots = { s.slots with fds := fds } := by
  cases op with
  | newFile i =>
    obtain rfl := Option.some.inj h
    exact ⟨_, rfl⟩
  | copy i | resume i =>
    obtain ⟨l, -, heq⟩ := Option.bind_eq_some_iff.mp h
    obtain rfl := Option.some.inj heq
    exact ⟨_, rfl⟩
  | drop i =>
    obtain ⟨l, -, hsettle⟩ := Option.bind_eq_some_iff.mp h
    exact settle_slots hsettle
  | «open» i h' slot =>
    obtain ⟨⟨s₁, e⟩, hopen, rfl⟩ := Option.map_eq_some_iff.mp h
    simp only [asyncOpen, Option.bind_eq_bind, Option.bind_eq_some_iff, Option.some.injEq,
      Prod.mk.injEq] at hopen
    obtain ⟨l, -, σ, hσ, rfl, -⟩ := hopen
    rcases slot with _ | n
    · obtain rfl := Option.some.inj hσ
      exact ⟨_, rfl⟩
    · simp only [Slots.getAvailableFd] at hσ
      split_ifs at hσ
      obtain rfl := Option.some.inj hσ
      exact ⟨_, rfl⟩
  | complete i res =>
    obtain ⟨l, -, heq⟩ := Option.bind_eq_some_iff.mp h
    generalize l.process res = p at heq
    obtain ⟨l', _ | fd⟩ := p
    · exact settle_slots heq
    · obtain ⟨-, heq⟩ := Option.ite_none_left_eq_some.mp heq
      obtain ⟨s₁, hrelease, hsettle⟩ := Option.bind_eq_some_iff.mp heq
      obtain ⟨fds, hfds⟩ := releaseFd_slots hrelease
      obtain ⟨fds', hfds'⟩ := settle_slots hsettle
      exact ⟨fds', by rw [hfds', hfds]⟩

end Files

/-! ### Sockets and files -/

namespace Table

variable {s s' : Files} {K : Finset Nat} {op : TableOp}

/-- The slots as a pool. -/
def pool (s : Files) : ResourcePool Holder Nat := ⟨s.slots.fds, Sum.elim s.slots.held s.held⟩

/-- Each slot is in one place, and the sockets and the files are sound. -/
structure Inv (s : Files) : Prop where
  noFault : s.fault = false
  conserved : (pool s).Conserved (· < s.slots.numFiles)
  acceptors : ∀ i l, s.slots.acceptors i = some l → AcceptorLife.Sound 0 l ∧ l.released = []
  streams : ∀ j l, s.slots.streams j = some l → Life.Sound l ∧ l.released = []
  files : ∀ i l, s.files i = some l → l.Sound

theorem inv_init (numFiles : Nat) : Inv (.init numFiles) where
  noFault := rfl
  conserved := by
    have hfree : (pool (.init numFiles)).Conserved (· ∈ Finset.range numFiles) :=
      ResourcePool.conserved_of_held_none fun p => by
        rcases p with (_ | _ | _ | _) | (_ | _) <;> rfl
    exact Ownership.ExactlyOne.congr hfree (fun _ _ => Iff.rfl) fun n => Finset.mem_range.symm
  acceptors := (Slots.inv_init numFiles).acceptors
  streams := (Slots.inv_init numFiles).streams
  files := (Files.inv_init numFiles).files

/-- The slots that some of the holders have. -/
theorem exists_held {P : Type*} {g : P → Option Nat} {numFiles : Nat}
    (h : ∀ p n, g p = some n → n < numFiles) :
    ∃ K : Finset Nat, ∀ n, n ∈ K ↔ ∃ p, g p = some n := by
  classical
  refine ⟨(Finset.range numFiles).filter fun n => ∃ p, g p = some n, fun n => ?_⟩
  rw [Finset.mem_filter, Finset.mem_range]
  refine and_iff_right_of_imp ?_
  rintro ⟨p, hp⟩
  exact h p n hp

/-- **What a socket sees**: the slots of files are free. -/
theorem Inv.sockets (hs : Inv s) : ∃ K τ, (∀ n, n ∈ K ↔ ∃ p, s.held p = some n) ∧
    Slots.Beside K s.slots τ ∧ Slots.Inv τ := by
  obtain ⟨K, hK⟩ := exists_held (g := s.held)
    fun p n hp => hs.conserved.live_of_held (p := Sum.inr p) hp
  obtain ⟨hconserved, hdisjoint⟩ := ResourcePool.Conserved.beside hs.conserved hK
  exact ⟨K, { s.slots with fds := s.slots.fds ∪ K }, hK, ⟨rfl, hdisjoint⟩,
    hconserved, hs.acceptors, hs.streams⟩

/-- **What a file sees**: the slots of sockets are free. -/
theorem Inv.filesAlone (hs : Inv s) : ∃ K t, (∀ n, n ∈ K ↔ ∃ p, s.slots.held p = some n) ∧
    Files.Beside K s t ∧ Files.Inv t := by
  obtain ⟨K, hK⟩ := exists_held (g := s.slots.held)
    fun p n hp => hs.conserved.live_of_held (p := Sum.inl p) hp
  obtain ⟨hconserved, hdisjoint⟩ :=
    ResourcePool.Conserved.beside (ResourcePool.Conserved.swap hs.conserved) hK
  exact ⟨K, { s with slots := { s.slots with fds := s.slots.fds ∪ K } }, hK,
    ⟨⟨rfl, hdisjoint⟩, rfl, rfl⟩, hs.noFault, hconserved, hs.files⟩

/-- **A socket keeps the invariant**, and fails no assertion. -/
theorem Inv.socket {op : SlotsOp} (hs : Inv s) (hop : s.slots.allows op = true) :
    ∃ σ, s.slots.perform op = some σ ∧ Inv { s with slots := σ } := by
  obtain ⟨K, τ, hK, hbeside, hτ⟩ := hs.sockets
  obtain ⟨τ', hτ', hinv⟩ := hbeside.perform_inv hτ hop
  obtain ⟨σ, hσ, rfl, hdisjoint⟩ := exists_of_rel (hτ' ▸ hbeside.perform hτ hop)
  have hsize : σ.numFiles = s.slots.numFiles := Slots.perform_numFiles hσ
  refine ⟨σ, hσ, hs.noFault, ?_, hinv.acceptors, hinv.streams, hs.files⟩
  have hconserved : ResourcePool.Conserved ⟨σ.fds ∪ K, σ.held⟩ (· < s.slots.numFiles) :=
    hsize ▸ hinv.conserved
  show (pool { s with slots := σ }).Conserved (· < σ.numFiles)
  rw [hsize]
  exact ResourcePool.Conserved.of_beside hs.conserved hK hconserved hdisjoint

/-- What a file has is not in the set of what sockets have. -/
theorem Inv.notMem (hs : Inv s) (hK : ∀ n, n ∈ K ↔ ∃ p, s.slots.held p = some n)
    {p : Files.Holder} {n : Nat} (hp : s.held p = some n) : n ∉ K := by
  intro hn
  obtain ⟨q, hq⟩ := (hK n).mp hn
  exact absurd (hs.conserved.eq_of_held (p := Sum.inl q) (q := Sum.inr p) hq hp) (by simp)

/-- **A file that is orderly keeps the invariant**, and fails no assertion. -/
theorem Inv.file {op : FilesOp} (hs : Inv s) (horderly : s.Orderly op)
    (hop : s.allows op = true) : ∃ s', s.perform op = some s' ∧ Inv s' := by
  obtain ⟨K, t, hK, hbeside, ht⟩ := hs.filesAlone
  have hslot : ∀ i h, op ≠ .open i h none := by
    rintro i h rfl
    exact absurd horderly.1 (by simp)
  obtain ⟨t', ht', hinv⟩ := ht.perform (hbeside.orderly_iff.mpr horderly)
    (hbeside.allows hop hslot)
  obtain ⟨s', hs', hslots, hfiles, hfault⟩ :=
    exists_of_rel (ht' ▸ hbeside.perform (fun p n hp => hs.notMem hK hp) hop)
  obtain ⟨fds, hfds⟩ := Files.perform_slots hs'
  have hsize : t'.slots.numFiles = s.slots.numFiles := by rw [hslots.eq, hfds]
  refine ⟨s', hs', hfault ▸ hinv.noFault, ?_, ?_, ?_, hfiles ▸ hinv.files⟩
  · have hheld : t'.held = s'.held := by
      funext p
      cases p <;> simp only [Files.held, hfiles]
    have hpool : t'.pool = ⟨s'.slots.fds ∪ K, s'.held⟩ := by rw [Files.pool, hslots.eq, hheld]
    have hconserved := hinv.conserved
    rw [hpool, hsize] at hconserved
    have hshared := ResourcePool.Conserved.of_beside
      (ResourcePool.Conserved.swap hs.conserved) hK hconserved hslots.disjoint
    have hsockets : s'.slots.held = s.slots.held := by rw [hfds]; rfl
    rw [pool, hsockets, hfds]
    rw [hfds] at hshared
    exact ResourcePool.Conserved.swap hshared
  · rw [hfds]
    exact hs.acceptors
  · rw [hfds]
    exact hs.streams

/-- A place has a slot in the pool just if it has in the context. -/
theorem Inv.holds_iff (hs : Inv s) {p : Option Holder} {n : Nat} :
    Holds s p n ↔ (pool s).Holds p n := by
  rcases p with _ | p | p
  · exact Iff.rfl
  · obtain ⟨K, τ, -, ⟨rfl, -⟩, hτ⟩ := hs.sockets
    have hiff := hτ.holds_iff (p := some p) (n := n)
    cases p <;> exact hiff
  · obtain ⟨K, t, -, ⟨-, hfiles, -⟩, ht⟩ := hs.filesAlone
    have hiff := ht.holds_iff (p := some p) (n := n)
    cases p <;>
      simpa only [Holds, pool, ResourcePool.Holds, Sum.elim_inr, Files.Holds, Files.pool,
        Files.held, hfiles] using hiff

theorem Inv.exactlyOne (hs : Inv s) : Ownership.ExactlyOne (Holds s) (· < s.slots.numFiles) :=
  Ownership.ExactlyOne.congr hs.conserved (fun _ _ => hs.holds_iff) fun _ => Iff.rfl

theorem Inv.conserves (hs : Inv s) : Conserved s where
  noFault := hs.noFault
  place n hn := hs.exactlyOne.existsUnique hn
  slot p n hp := hs.exactlyOne.live_of_held hp
  idle hacceptors hstreams hraw hfiles := by
    ext n
    rw [Finset.mem_range, hs.exactlyOne.live_iff]
    refine ⟨fun hn => ⟨none, hn⟩, ?_⟩
    rintro ⟨_ | (i | i | j | r) | (i | i), hp⟩
    · exact hp
    · obtain ⟨l, hl, hcount, -⟩ := hp
      exact absurd (hacceptors i l hl) hcount
    · obtain ⟨l, hl, hcount, -⟩ := hp
      exact absurd (hacceptors i l hl) hcount
    · obtain ⟨l, hl, hcount, -⟩ := hp
      exact absurd (hstreams j l hl) hcount
    · exact absurd ((hraw r).symm.trans hp) (by simp)
    · obtain ⟨l, hl, -⟩ := hp
      exact absurd ((hfiles i).symm.trans hl) (by simp)
    · obtain ⟨l, hl, -⟩ := hp
      exact absurd ((hfiles i).symm.trans hl) (by simp)

/-! ### Steps -/

theorem Inv.step (hs : Inv s) (horderly : Orderly s op) (hstep : Table.step s op = some s') :
    Inv s' := by
  cases op with
  | socket op =>
    obtain ⟨hallows, heq⟩ := Option.ite_none_left_eq_some.mp hstep
    simp only [hs.noFault, Bool.false_or, Bool.not_eq_true', Bool.not_eq_false] at hallows
    obtain ⟨σ, hσ, hinv⟩ := hs.socket hallows
    rw [hσ] at heq
    exact Option.some.inj heq ▸ hinv
  | file op =>
    obtain ⟨hallows, heq⟩ := Option.ite_none_left_eq_some.mp hstep
    simp only [hs.noFault, Bool.false_or, Bool.not_eq_true', Bool.not_eq_false] at hallows
    obtain ⟨t, ht, hinv⟩ := hs.file horderly hallows
    rw [ht] at heq
    exact Option.some.inj heq ▸ hinv

/-- What is conserved in the shared table is conserved in the eyes of a file. -/
theorem Conserved.alone {t : Files} (hs : Conserved s)
    (hK : ∀ n, n ∈ K ↔ ∃ p, s.slots.Holds (some p) n) (hbeside : Files.Beside K s t) :
    t.Conserved := by
  obtain ⟨hslots, hfiles, hfault⟩ := hbeside
  have hsize : t.slots.numFiles = s.slots.numFiles := by rw [hslots.eq]
  have hone : Ownership.ExactlyOne (Holds s) (· < s.slots.numFiles) := by
    constructor
    · intro n o o' ho ho'
      exact (hs.place n (hs.slot o n ho)).unique ho ho'
    · intro n
      exact ⟨fun hn => (hs.place n hn).exists, fun ⟨o, ho⟩ => hs.slot o n ho⟩
  have halone : Ownership.ExactlyOne t.Holds (· < t.slots.numFiles) := by
    refine Ownership.ExactlyOne.congr hone.swap.beside (fun o n => ?_) fun n => by rw [hsize]
    cases o with
    | none => exact hslots.mem_fds.trans (or_congr_right (hK n))
    | some p =>
      cases p <;> simp only [Files.Holds, hfiles] <;> exact Iff.rfl
  refine ⟨hfault.trans hs.noFault, fun n hn => halone.existsUnique hn,
    fun p n hp => halone.live_of_held hp, fun hnone => ?_⟩
  ext n
  rw [Finset.mem_range, halone.live_iff]
  refine ⟨fun hn => ⟨none, hn⟩, ?_⟩
  rintro ⟨_ | _ | _, hp⟩
  · exact hp
  · obtain ⟨l, hl, -⟩ := hp
    exact absurd (hl.symm.trans (hnone _)) (by simp)
  · obtain ⟨l, hl, -⟩ := hp
    exact absurd (hl.symm.trans (hnone _)) (by simp)

theorem Orderly.refuses (h : Orderly s op) : Refuses s op := by
  cases op with
  | socket op => trivial
  | file op => exact Files.Orderly.refuses h

/-- **A step after which all is well** was an orderly one. -/
theorem Inv.orderly (hs : Inv s) (hstep : Table.step s op = some s') (hrefuses : Refuses s op)
    (hs' : Conserved s') : Orderly s op := by
  cases op with
  | socket op => trivial
  | file op =>
    obtain ⟨K, t, hK, hbeside, ht⟩ := hs.filesAlone
    have hslot : ∀ i h, op ≠ .open i h none := by
      rintro i h rfl
      exact absurd (Files.asyncOpen_error hrefuses) (by simp)
    obtain ⟨hallows, heq⟩ := Option.ite_none_left_eq_some.mp hstep
    simp only [hs.noFault, Bool.false_or, Bool.not_eq_true', Bool.not_eq_false] at hallows
    have hrel := hbeside.perform (fun p n hp => hs.notMem hK hp) hallows
    have hallows' := hbeside.allows hallows hslot
    cases hperform : s.perform op with
    | none =>
      rw [hperform] at heq
      obtain rfl := Option.some.inj heq
      exact absurd hs'.noFault (by simp)
    | some s₁ =>
      rw [hperform] at heq hrel
      obtain rfl : s₁ = s' := Option.some.inj heq
      obtain ⟨fds, hfds⟩ := Files.perform_slots hperform
      generalize ht' : t.perform op = o at hrel
      cases hrel with
      | some hbeside' =>
        rename_i t'
        have hsame : t.step op = some t' := by
          simp only [Files.step, ht.noFault, hallows', ht', Bool.not_true, Bool.or_self,
            Bool.false_eq_true, if_false, Option.getD_some]
        have hrefuses' : t.Refuses op := by
          cases op with
          | «open» i h slot =>
            cases slot with
            | none => exact absurd rfl (hslot i h)
            | some n => trivial
          | _ => trivial
        have hheld : ∀ n, n ∈ K ↔ ∃ p, s₁.slots.Holds (some p) n := by
          intro n
          rw [hK]
          refine exists_congr fun p => ?_
          have hiff := hs.holds_iff (p := some (.inl p)) (n := n)
          rw [hfds]
          cases p <;> exact hiff.symm
        exact hbeside.orderly_iff.mp (ht.orderly hsame hrefuses' (hs'.alone hheld hbeside'))

end Table

/-- **The slots of a table that sockets and files share are conserved, and an open without a slot is
refused, in exactly those runs** in which every file is orderly: whatever the acceptors, the streams
and the clients do in between. -/
theorem descriptors_conserved (numFiles : Nat) (ops : List TableOp) :
    Along Table.step Table.Conserved (.init numFiles) ops ∧
        StepsMeet Table.step Table.Refuses (.init numFiles) ops ↔
      StepsMeet Table.step Table.Orderly (.init numFiles) ops := by
  have hkeep (s : Files) (op : TableOp) (s' : Files) (hs : Table.Inv s)
      (horderly : Table.Orderly s op) (hstep : Table.step s op = some s') : Table.Inv s' :=
    hs.step horderly hstep
  constructor
  · rintro ⟨hconserved, hrefuses⟩
    exact stepsMeet_of_along hkeep
      (fun _ _ _ hs hstep hrefuses hs' => hs.orderly hstep hrefuses hs')
      (Table.inv_init numFiles) hconserved hrefuses
  · intro h
    have hinv := along_of_stepsMeet hkeep (Table.inv_init numFiles) h
    refine ⟨hinv.mono fun _ hs => hs.conserves, ?_⟩
    exact StepsMeet.of_invariant (fun s op s' hs horderly hstep =>
      ⟨hkeep s op s' hs horderly hstep, horderly.refuses⟩) (Table.inv_init numFiles) h

/-- An acceptor, a file and a client on a table of two slots: the client gets the slot of the open
that failed. -/
example : (run Table.step (.init 2) [.socket (.newAcceptor 0 1), .file (.newFile 0),
    .file (.open 0 7 (some 0)), .socket (.newClient 0 0), .file (.complete 0 (-2)),
    .socket (.onStream 0 (.newAwaitable (.op .connect))),
    .socket (.onStream 0 (.await (.op .connect) 8 (some 0) 0))]).any (fun s =>
      s.slots.held (.stream 0) == some 0 && s.slots.fds == ∅ && !s.fault) = true := by
  decide

end Fiona
