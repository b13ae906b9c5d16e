import Fiona.Recv.System

/-!
# Buffer ids have one owner

The invariant of the receive system (`Fiona.RecvSystem.Inv`): every ring is split between
its stack and the kernel, and the frame of every stream is in step with the receive the
kernel has for it – the ring that `p_buf_ring_` points to is the one the receive was armed
with, because the group of a stream cannot be changed and no second receive can be armed
while one is under way.

For each call there is one lemma that says which ring and which frame it changes, and
that it does not fault. `Fiona.recvSystem_owned` puts them together.
-/

namespace Fiona

open Transition

namespace RecvSystem

variable {σ σ' : RecvSystem} {s s₀ : RecvStream} {r r' : BufRing} {rf : RecvFrame}
  {i j g id now p : Nat} {h : Coro} {alloc : Nat → Nat} {cqe : Cqe} {op : RecvOp}

/-! ### Reading back -/

theorem lt_of_stream (hi : σ.stream i = some s) : i < σ.streams.length := by
  by_contra hc
  rw [stream, List.getElem?_eq_none (by omega)] at hi
  cases hi

theorem stream_setStream_ne (hne : j ≠ i) : (σ.setStream i s).stream j = σ.stream j := by
  rw [stream, setStream, List.getElem?_set_ne hne.symm]
  rfl

theorem setGroup_setGroup : (σ.setGroup g r).setGroup g r' = σ.setGroup g r' := by
  rw [setGroup, setGroup, setGroup]
  simp only [Function.update_idem]

theorem groups_setGroup_self : (σ.setGroup g r).groups g = some r := Function.update_self ..

theorem groups_setGroup_ne (hne : j ≠ g) : (σ.setGroup g r).groups j = σ.groups j :=
  Function.update_of_ne hne ..

/-! ### The invariant -/

/-- **The frame of a stream is in step with the kernel**: while a receive is under way it
is the only one, it was armed with the ring the frame points to, and no error is
waiting; groups that are named are registered; and a queue has been received from
some group. -/
structure StreamOk (groups : Nat → Option BufRing) (s : RecvStream) : Prop where
  idle : s.rf.initiated = false → s.inFlight = []
  busy : s.rf.initiated = true → s.rf.ec = none ∧ s.rf.bufferGroupId.isSome ∧
    ∃ g, s.rf.pBufRing = some g ∧ s.inFlight = [g] ∧ (groups g).isSome
  group : ∀ g, s.rf.bufferGroupId = some g → (groups g).isSome
  queue : s.rf.buffers ≠ [] → s.rf.bufferGroupId.isSome

/-- **The invariant of the receive system.** -/
structure Inv (σ : RecvSystem) : Prop where
  owned : ∀ g r, σ.groups g = some r → r.Owned r.published
  ok : ∀ i s, σ.stream i = some s → StreamOk σ.groups s

theorem inv_init : Inv init where
  owned := fun g r h => by simp [init] at h
  ok := fun i s h => by simp [init, stream] at h

theorem StreamOk.mono {groups groups' : Nat → Option BufRing} (hs : StreamOk groups s)
    (hg : ∀ g, (groups g).isSome → (groups' g).isSome) : StreamOk groups' s where
  idle := hs.idle
  busy := by
    intro hb
    obtain ⟨hec, hgid, g, hp, hfly, hsome⟩ := hs.busy hb
    exact ⟨hec, hgid, g, hp, hfly, hg g hsome⟩
  group := fun g hgid => hg g (hs.group g hgid)
  queue := hs.queue

/-- What holds of every stream and of the new one holds after a change of one stream. -/
theorem forall_setStream {P : RecvStream → Prop} (hP : ∀ j t, σ.stream j = some t → P t)
    (hs : P s) : ∀ j t, (σ.setStream i s).stream j = some t → P t := by
  intro j t hj
  rcases eq_or_ne j i with rfl | hne
  · have hlt : j < (σ.setStream j s).streams.length := lt_of_stream hj
    rw [setStream, List.length_set] at hlt
    have hjs : (σ.setStream j s).stream j = some s := by
      rw [stream, setStream, List.getElem?_set_self hlt]
      rfl
    exact Option.some.inj (hjs.symm.trans hj) ▸ hs
  · rw [stream_setStream_ne hne] at hj
    exact hP j t hj

theorem forall_newStream {P : RecvStream → Prop} (hP : ∀ j t, σ.stream j = some t → P t)
    (hs : P s) : ∀ j t, stream { σ with streams := σ.streams ++ [some s] } j = some t → P t := by
  intro j t hj
  rcases lt_trichotomy j σ.streams.length with hlt | rfl | hlt
  · refine hP j t ?_
    rwa [stream, List.getElem?_append_left hlt] at hj
  · obtain rfl : s = t := by simpa [stream] using hj
    exact hs
  · have hout : σ.streams.length + 1 ≤ j := hlt
    rw [stream, List.getElem?_eq_none (by simpa using hout)] at hj
    cases hj

theorem forall_destroyStream {P : RecvStream → Prop} (hP : ∀ j t, σ.stream j = some t → P t) :
    ∀ j t, stream { σ with streams := σ.streams.set i none } j = some t → P t := by
  intro j t hj
  rcases eq_or_ne j i with rfl | hne
  · have hnone : stream { σ with streams := σ.streams.set j none } j = none := by
      rcases Nat.lt_or_ge j σ.streams.length with hlt | hge
      · rw [stream, List.getElem?_set_self hlt]
        rfl
      · rw [stream, List.getElem?_eq_none (by simpa using hge)]
        rfl
    cases hnone.symm.trans hj
  · refine hP j t ?_
    rwa [stream, List.getElem?_set_ne hne.symm] at hj

theorem forall_setGroup {P : Nat → BufRing → Prop} (hP : ∀ k t, σ.groups k = some t → P k t)
    (hr : P g r) : ∀ k t, (σ.setGroup g r).groups k = some t → P k t := by
  intro k t hk
  rcases eq_or_ne k g with rfl | hne
  · rw [groups_setGroup_self] at hk
    exact Option.some.inj hk ▸ hr
  · rw [groups_setGroup_ne hne] at hk
    exact hP k t hk

theorem isSome_setGroup {k : Nat} (hk : (σ.groups k).isSome) :
    ((σ.setGroup g r).groups k).isSome := by
  rcases eq_or_ne k g with rfl | hne
  · rw [groups_setGroup_self]
    rfl
  · rwa [groups_setGroup_ne hne]

theorem Inv.setStream (hσ : Inv σ) (hs : StreamOk σ.groups s) : Inv (σ.setStream i s) :=
  ⟨hσ.owned, forall_setStream hσ.ok hs⟩

theorem Inv.setGroup (hσ : Inv σ) (hr : r.Owned r.published) : Inv (σ.setGroup g r) where
  owned := forall_setGroup (P := fun _ r => r.Owned r.published) hσ.owned hr
  ok := fun j t hj => (hσ.ok j t hj).mono fun _ => isSome_setGroup

/-! ### Handing out what was received -/

section

variable (hσ : Inv σ) (hs : StreamOk σ.groups s)

include hs

theorem StreamOk.clearQueue : StreamOk σ.groups { s with rf := { s.rf with buffers := [] } } where
  idle := hs.idle
  busy := hs.busy
  group := hs.group
  queue := fun hc => absurd rfl hc

theorem StreamOk.clearError : StreamOk σ.groups { s with rf := { s.rf with ec := none } } where
  idle := hs.idle
  busy := fun hb => ⟨rfl, (hs.busy hb).2⟩
  group := hs.group
  queue := hs.queue

theorem StreamOk.setHandle {x : Option Coro} :
    StreamOk σ.groups { s with rf := { s.rf with h := x } } where
  idle := hs.idle
  busy := hs.busy
  group := hs.group
  queue := hs.queue

/-- **`await_resume` with a queue** hands it out and refills the ring of the current
group. -/
theorem awaitResume_buffers (i : Nat) (alloc : Nat → Nat) (hσ : Inv σ) (hne : s.rf.buffers ≠ []) :
    ∃ g r r', s.rf.bufferGroupId = some g ∧ σ.groups g = some r ∧
      r.refill alloc s.rf.buffers = some r' ∧ r'.Owned r'.published ∧
      r'.bufIdPos = r.bufIdPos - (s.rf.buffers.takeWhile fun b => !b.empty).length ∧
      σ.awaitResume i s alloc =
        some ((σ.setGroup g r').setStream i { s with rf := { s.rf with buffers := [] } }) := by
  obtain ⟨g, hg⟩ := Option.isSome_iff_exists.mp (hs.queue hne)
  obtain ⟨r, hr⟩ := Option.isSome_iff_exists.mp (hs.group g hg)
  obtain ⟨r', hrefill, hpos, hr'⟩ := (hσ.owned g r hr).refill alloc s.rf.buffers
  have hfull : s.rf.buffers.isEmpty = false := by simpa using hne
  refine ⟨g, r, r', hg, hr, hrefill, hr', hpos, ?_⟩
  rw [awaitResume, RecvFrame.awaitResume, hfull]
  simp only [Bool.false_eq_true, if_false, Option.bind_eq_bind, Option.bind_some, hg, hr, hrefill]

omit hs in
/-- **`await_resume` without a queue** hands out the error. -/
theorem awaitResume_error {e : Nat} (hbuf : s.rf.buffers = []) (hec : s.rf.ec = some e) :
    σ.awaitResume i s alloc = some (σ.setStream i { s with rf := { s.rf with ec := none } }) := by
  have hempty : s.rf.buffers.isEmpty = true := by simp [hbuf]
  rw [awaitResume, RecvFrame.awaitResume, hempty]
  simp only [if_true, hec, Option.map_some, Option.bind_eq_bind, Option.bind_some]

theorem awaitResume_inv (hσ : Inv σ) (hne : s.rf.buffers ≠ [] ∨ s.rf.ec.isSome) :
    ∃ σ', σ.awaitResume i s alloc = some σ' ∧ Inv σ' := by
  by_cases hbuf : s.rf.buffers = []
  · obtain ⟨e, he⟩ := Option.isSome_iff_exists.mp (hne.resolve_left (by simpa using hbuf))
    exact ⟨_, awaitResume_error hbuf he, hσ.setStream hs.clearError⟩
  · obtain ⟨g, r, r', -, -, -, hr', -, heq⟩ :=
      awaitResume_buffers hs i alloc hσ hbuf
    refine ⟨_, heq, (hσ.setGroup hr').setStream ?_⟩
    exact hs.clearQueue.mono fun _ => isSome_setGroup

/-- **Arming a receive.** -/
theorem StreamOk.arm (hec : s.rf.ec = none) (hidle : s.rf.initiated = false)
    (hg : s.rf.bufferGroupId = some g) :
    StreamOk σ.groups { s with
      rf := { s.rf with h := some h, pBufRing := some g, initiated := true, lastRecv := now }
      inFlight := g :: s.inFlight } where
  idle := fun hc => absurd hc (by simp)
  busy := fun _ => ⟨hec, by rw [hg]; rfl, g, rfl, by rw [hs.idle hidle], hs.group g hg⟩
  group := hs.group
  queue := hs.queue

/-- **`await_suspend`** on an empty queue. -/
theorem awaitSuspend_inv (hσ : Inv σ) :
    ∃ σ', σ.awaitSuspend i s h now alloc = some σ' ∧ Inv σ' := by
  have hh : StreamOk σ.groups { s with rf := { s.rf with h := some h } } := hs.setHandle
  by_cases hec : s.rf.ec.isSome
  · have heq : s.rf.awaitSuspend h now = (.resume, { s.rf with h := some h }) := by
      rw [RecvFrame.awaitSuspend]
      exact if_pos hec
    rw [awaitSuspend, heq]
    exact awaitResume_inv hh hσ (Or.inr hec)
  · have hec' : s.rf.ec = none := by simpa using hec
    cases hinit : s.rf.initiated with
    | true =>
      have heq : s.rf.awaitSuspend h now = (.wait, { s.rf with h := some h }) := by
        simp [RecvFrame.awaitSuspend, hec', hinit]
      rw [awaitSuspend, heq]
      exact ⟨_, rfl, hσ.setStream hh⟩
    | false =>
      cases hg : s.rf.bufferGroupId with
      | none =>
        have heq : s.rf.awaitSuspend h now = (.throw Errno.EINVAL, { s.rf with h := some h }) := by
          simp [RecvFrame.awaitSuspend, hec', hinit, hg]
        rw [awaitSuspend, heq]
        exact ⟨_, rfl, hσ.setStream hh⟩
      | some g =>
        have heq : s.rf.awaitSuspend h now = (.arm g, { s.rf with
            h := some h, pBufRing := some g, initiated := true, lastRecv := now }) := by
          simp [RecvFrame.awaitSuspend, RecvFrame.scheduleRecv, hec', hinit, hg]
        rw [awaitSuspend, heq]
        exact ⟨_, rfl, hσ.setStream (hs.arm hec' hinit hg)⟩

/-! ### Completions -/

/-- **A completion with data**: a buffer of the ring the receive was armed with goes to
the end of the queue, and its id on the stack of that ring. -/
theorem recvCqe_data (i now p : Nat) (hσ : Inv σ) (hg : g ∈ s.inFlight) (hr : σ.groups g = some r)
    (hres : 0 < cqe.res) (hid : cqe.buffer = some id) (hpub : id ∈ r.published.map BufEntry.bid) :
    ∃ buf r', buf.empty = false ∧ buf.group = some g ∧ r'.free = r.free ++ [id] ∧
      r'.Owned r'.published ∧
      σ.recvCqe i g s cqe now p = some ((σ.setGroup g r').setStream i { s with
        rf := { s.rf with
          lastRecv := now, buffers := s.rf.buffers ++ [buf], initiated := cqe.more }
        inFlight := if cqe.more then s.inFlight else s.inFlight.erase g }) := by
  have hbusy : s.rf.initiated = true := by
    by_contra hc
    simp [hs.idle (by simpa using hc)] at hg
  obtain ⟨-, -, g', hp, hfly, -⟩ := hs.busy hbusy
  obtain rfl : g = g' := by simpa [hfly] using hg
  have howned := hσ.owned g r hr
  have hconsumed : (r.consume id).Owned r.published :=
    ⟨howned.size, howned.ids, howned.pos, howned.bufSize, howned.tail, howned.split, howned.empty,
      howned.owns⟩
  obtain ⟨buf, r', htake, hsize, hgroup, hfree, hpub', -, hr'⟩ :=
    hconsumed.takeBuf g cqe.res.toNat hpub
  refine ⟨buf, r', ?_, hgroup, hfree, hpub' ▸ hr', ?_⟩
  · simp only [RecvBuffer.empty, hsize, decide_eq_false_iff_not]
    omega
  · have hproc : s.rf.awaitProcessCqe s.streamCancelled cqe now p buf = some { s.rf with
        lastRecv := now, buffers := s.rf.buffers ++ [buf], initiated := cqe.more } := by
      rw [RecvFrame.awaitProcessCqe, if_neg (by omega), if_neg (by omega)]
    have hcons : (σ.setGroup g (r.consume id)).groups g = some (r.consume id) :=
      groups_setGroup_self
    rw [recvCqe, hid]
    simp only [hr, hp, hcons, htake, hproc, setGroup_setGroup, Option.bind_eq_bind,
      Option.bind_some]

/-- **A completion without data** ends the receive: it queues the end of the stream or
stores an error, and the rings stay as they are. -/
theorem recvCqe_end (i now p : Nat) (hg : g ∈ s.inFlight) (hres : cqe.res ≤ 0)
    (hmore : cqe.more = false) (hbuf : cqe.buffer = none) :
    ∃ buffers ec, (buffers = s.rf.buffers ∨ buffers = s.rf.buffers ++ [.alloc p 0]) ∧
      σ.recvCqe i g s cqe now p = some (σ.setStream i { s with
        rf := { s.rf with buffers := buffers, ec := ec, initiated := false }
        inFlight := [] }) := by
  have hbusy : s.rf.initiated = true := by
    by_contra hc
    simp [hs.idle (by simpa using hc)] at hg
  obtain ⟨hec, -, g', hp, hfly, -⟩ := hs.busy hbusy
  obtain rfl : g = g' := by simpa [hfly] using hg
  have hnone : s.inFlight.erase g = [] := by simp [hfly]
  rcases lt_or_eq_of_le hres with hneg | hzero
  · refine ⟨s.rf.buffers, some (RecvFrame.errorOf s.streamCancelled cqe.res), Or.inl rfl, ?_⟩
    rw [recvCqe, hbuf]
    simp only [RecvFrame.awaitProcessCqe, if_pos hneg, hec, hmore, Option.isSome_none, hnone,
      Bool.false_eq_true, if_false, Option.bind_eq_bind, Option.bind_some]
  · refine ⟨s.rf.buffers ++ [.alloc p 0], s.rf.ec, Or.inr rfl, ?_⟩
    rw [recvCqe, hbuf]
    simp only [RecvFrame.awaitProcessCqe, hzero, lt_irrefl, hmore, hnone, Bool.false_eq_true,
      if_false, if_true, Option.bind_eq_bind, Option.bind_some]

theorem recvCqe_inv (hσ : Inv σ) (hg : g ∈ s.inFlight) (hr : σ.groups g = some r)
    (hposts : posts r cqe) : ∃ σ', σ.recvCqe i g s cqe now p = some σ' ∧ Inv σ' := by
  have hbusy : s.rf.initiated = true := by
    by_contra hc
    simp [hs.idle (by simpa using hc)] at hg
  obtain ⟨hec, hgid, g', hp, hfly, hsome⟩ := hs.busy hbusy
  obtain rfl : g = g' := by simpa [hfly] using hg
  rw [posts] at hposts
  split_ifs at hposts with hres
  · simp only [Bool.and_eq_true, Bool.not_eq_true', Option.isNone_iff_eq_none] at hposts
    obtain ⟨buffers, ec, -, heq⟩ := recvCqe_end hs i now p hg hres
      hposts.1 hposts.2
    refine ⟨_, heq, hσ.setStream ⟨fun _ => rfl, fun hc => absurd hc (by simp), hs.group, ?_⟩⟩
    exact fun _ => hgid
  · obtain ⟨id, hid, hmem⟩ := (Option.any_eq_true ..).mp hposts
    obtain ⟨buf, r', -, -, -, hr', heq⟩ := recvCqe_data hs i now p hσ hg hr (by omega)
      hid (by simpa using hmem)
    refine ⟨_, heq, (hσ.setGroup hr').setStream ?_⟩
    refine StreamOk.mono ?_ fun _ => isSome_setGroup
    refine ⟨fun hc => ?_, fun _ => ⟨hec, hgid, g, hp, ?_, hsome⟩, hs.group, fun _ => hgid⟩
    · have hmore : cqe.more = false := hc
      simp [hmore, hfly]
    · simp_all

end

/-! ### All calls -/

/-- **No allowed call faults, and each keeps the invariant.** -/
theorem perform_inv (hσ : Inv σ) (hop : σ.allows op) : ∃ σ', σ.perform op = some σ' ∧ Inv σ' := by
  cases op with
  | registerGroup g numBufs bufSize alloc =>
    simp only [allows, Bool.and_eq_true, decide_eq_true_eq] at hop
    obtain ⟨⟨-, hk⟩, hsize⟩ := hop
    obtain ⟨r, hr⟩ : ∃ r, BufRing.new numBufs bufSize alloc = some r := by
      rw [BufRing.new, if_pos hk, if_neg hsize]
      exact ⟨_, rfl⟩
    refine ⟨σ.setGroup g r, ?_, hσ.setGroup (BufRing.new_owned hr).1⟩
    rw [perform, hr]
    rfl
  | newStream now =>
    refine ⟨_, rfl, hσ.owned, forall_newStream hσ.ok ?_⟩
    exact ⟨fun _ => rfl, fun hc => absurd hc (by simp [RecvFrame.init]),
      fun g hg => absurd hg (by simp [RecvFrame.init]), fun hc => absurd rfl hc⟩
  | destroyStream i => exact ⟨_, rfl, hσ.owned, forall_destroyStream hσ.ok⟩
  | setBufferGroup i g =>
    simp only [allows, Bool.and_eq_true, Option.any_eq_true, Bool.not_eq_true'] at hop
    obtain ⟨⟨s, hi, hidle⟩, hg⟩ := hop
    have hs := hσ.ok i s hi
    refine ⟨σ.setStream i { s with rf := { s.rf with bufferGroupId := some g } }, ?_,
      hσ.setStream ?_⟩
    · rw [perform, hi]
      simp only [Option.bind_eq_bind, Option.bind_some, RecvFrame.setBufferGroup, hidle,
        Bool.false_eq_true, if_false]
    · refine ⟨hs.idle, fun hb => absurd (hidle.symm.trans hb) (by simp), fun k hk => ?_,
        fun _ => rfl⟩
      exact Option.some.inj hk ▸ hg
  | setCancelled i =>
    obtain ⟨s, hi⟩ := Option.isSome_iff_exists.mp hop
    have hs := hσ.ok i s hi
    refine ⟨σ.setStream i { s with streamCancelled := true }, ?_,
      hσ.setStream ⟨hs.idle, hs.busy, hs.group, hs.queue⟩⟩
    rw [perform, hi]
    rfl
  | awaitRecv i h now alloc =>
    obtain ⟨s, hi⟩ := Option.isSome_iff_exists.mp hop
    rw [perform, hi]
    simp only [Option.bind_eq_bind, Option.bind_some]
    cases hready : s.rf.awaitReady with
    | true =>
      rw [if_pos rfl]
      refine awaitResume_inv (hσ.ok i s hi) hσ (Or.inl ?_)
      rintro hc
      simp [RecvFrame.awaitReady, hc] at hready
    | false =>
      rw [if_neg (by simp)]
      exact awaitSuspend_inv (hσ.ok i s hi) hσ
  | recvCqe i g cqe now p =>
    simp only [allows, Bool.and_eq_true, Option.any_eq_true, decide_eq_true_eq] at hop
    obtain ⟨⟨s, hi, hg⟩, r, hr, hposts⟩ := hop
    rw [perform, hi]
    exact recvCqe_inv (hσ.ok i s hi) hσ hg hr hposts
  | resume i alloc =>
    simp only [allows, Option.any_eq_true, Bool.or_eq_true, Bool.not_eq_true',
      List.isEmpty_eq_false_iff] at hop
    obtain ⟨s, hi, hne⟩ := hop
    rw [perform, hi]
    exact awaitResume_inv (hσ.ok i s hi) hσ hne
  | recycle g buf =>
    simp only [allows, Bool.and_eq_true, decide_eq_true_eq] at hop
    obtain ⟨hg, hbuf⟩ := hop
    obtain ⟨r, hr⟩ := Option.isSome_iff_exists.mp hg
    obtain ⟨r', hrec, -, hr'⟩ := (hσ.owned g r hr).recycleBuffer hbuf
    refine ⟨σ.setGroup g r', ?_, hσ.setGroup hr'⟩
    rw [perform, hr]
    simp only [Option.bind_eq_bind, Option.bind_some, hrec]

theorem step_inv (hσ : Inv σ) (hstep : σ.step op = some σ') : Inv σ' := by
  rw [step] at hstep
  split_ifs at hstep with hop
  obtain ⟨σ'', hperform, hinv⟩ := perform_inv hσ hop
  exact Option.some.inj (hperform.symm.trans hstep) ▸ hinv

/-- The invariant holds after every run. -/
theorem run_inv {ops : List RecvOp} (hrun : run step init ops = some σ) : Inv σ :=
  run_invariant (fun _ _ _ => step_inv) inv_init hrun

end RecvSystem

/-! ### The ids of a ring -/

/-- **Who owns the ids of a ring**: those on the stack are distinct, and they are the ids
of the slots without memory and the ids that the kernel does not have; what the kernel
has it has once, and it is the memory of the slot. -/
structure BufRing.IdsOwned (r : BufRing) : Prop where
  pos : r.bufIdPos ≤ r.numBufs
  distinct : r.free.Nodup
  capacity : ∀ id, id < r.numBufs →
    (id ∈ r.free ↔ ∃ b, r.bufs[id]? = some b ∧ b.capacity = 0)
  unpublished : ∀ id, id < r.numBufs → (id ∈ r.free ↔ id ∉ r.published.map BufEntry.bid)
  range : ∀ id, id ∈ r.free ∨ id ∈ r.published.map BufEntry.bid → id < r.numBufs
  once : (r.published.map BufEntry.bid).Nodup
  memory : ∀ e ∈ r.published, ∃ b, r.bufs[e.bid]? = some b ∧ 0 < b.capacity ∧ b.data = e.addr ∧
    b.capacity % 2 ^ 32 = e.len

theorem BufRing.Owned.idsOwned {r : BufRing} (h : r.Owned r.published) : r.IdsOwned where
  pos := h.pos
  distinct := h.split.nodup_stock
  capacity := by
    intro id hlt
    refine ⟨h.empty id, ?_⟩
    rintro ⟨b, hb, hcap⟩
    refine (h.split.mem_stock_iff hlt).mpr fun hout => ?_
    obtain ⟨e, he, rfl⟩ := List.mem_map.mp hout
    obtain ⟨b', hb', hcap', -⟩ := h.owns e he
    rw [hb] at hb'
    rw [Option.some.inj hb'] at hcap
    omega
  unpublished := fun id hlt => h.split.mem_stock_iff hlt
  range := fun id hid => hid.elim h.split.lt_of_mem_stock h.split.lt_of_mem_out
  once := h.split.nodup_out
  memory := h.owns

/-- **The ids of a buffer ring have one owner**: in every state that any number of streams
and callers reach, in every registered group – and none of their calls runs off the
stack, finds a slot in a state it does not expect, or fails an assertion. -/
theorem recvSystem_owned (ops : List RecvOp) (σ : RecvSystem)
    (hrun : run RecvSystem.step RecvSystem.init ops = some σ) :
    (∀ g r, σ.groups g = some r → r.IdsOwned) ∧
      ∀ op, σ.allows op → (σ.perform op).isSome := by
  have hσ := RecvSystem.run_inv hrun
  refine ⟨fun g r hr => (hσ.owned g r hr).idsOwned, fun op hop => ?_⟩
  obtain ⟨σ', h, -⟩ := RecvSystem.perform_inv hσ hop
  rw [h]
  rfl

/-- Two streams share a group of two buffers; both buffers are received, one by each, one
queue is handed out and one buffer of another capacity is recycled. -/
theorem recvSystem_owned_sample : ∃ σ, run RecvSystem.step RecvSystem.init
    [.registerGroup 7 2 64 (fun i => i), .newStream 0, .newStream 0, .setBufferGroup 0 7,
      .setBufferGroup 1 7, .awaitRecv 0 0 1 (fun i => 10 + i), .awaitRecv 1 1 1 (fun i => 20 + i),
      .recvCqe 0 7 ⟨5, true, some 1⟩ 2 30, .recvCqe 1 7 ⟨6, true, some 0⟩ 2 31,
      .resume 1 (fun i => 40 + i), .recycle 7 ⟨some 50, 128, 0, none⟩] = some σ ∧
    (∀ g r, σ.groups g = some r → r.IdsOwned) ∧ ∀ op, σ.allows op → (σ.perform op).isSome := by
  refine Exists.imp (fun σ hrun => ⟨hrun, recvSystem_owned _ σ hrun⟩) ?_
  exact ⟨_, rfl⟩

end Fiona
