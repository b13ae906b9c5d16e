import Fiona.Recv.Ownership
import Mathlib.Algebra.BigOperators.Group.List.Basic
import Mathlib.Data.List.TakeWhile

/-!
# What a ring is owed

Every buffer received from a group leaves an id on its stack, and `await_resume` takes
as many ids off the stack of the *current* group of the stream as it hands out
buffers. So the ids on the stack of a group are covered by the buffers of the group
that are still queued on some stream – as long as the group of a stream is not changed
while buffers of the old one are queued, and no stream is destroyed with a queue. In
both of these cases the ids stay on the stack for good
(`Fiona.recvSystem_starves`).
-/

namespace Fiona

open Transition

/-- The non-empty buffers of the group in the queue of a stream. -/
def RecvStream.undelivered (g : Nat) (s : RecvStream) : Nat :=
  s.rf.buffers.countP fun b => !b.empty && decide (b.group = some g)

namespace RecvSystem

/-- The non-empty buffers received from the group that are still queued on a live stream. -/
def undelivered (σ : RecvSystem) (g : Nat) : Nat :=
  (σ.streams.map fun s => (s.map (RecvStream.undelivered g)).getD 0).sum

/-- **No group is starved**: the ids on its stack are covered by undelivered buffers, so
that with none of these its ring is fully stocked. -/
structure Stocked (σ : RecvSystem) : Prop where
  covered : ∀ g r, σ.groups g = some r → r.free.length ≤ σ.undelivered g
  full : ∀ g r, σ.groups g = some r → σ.undelivered g = 0 → r.published.length = r.numBufs

/-- A queue is handed out while the group it was received from is still the group of its
stream, and a stream is destroyed with no data in its queue. -/
def Settles (σ : RecvSystem) : RecvOp → Prop
  | .awaitRecv i _ _ _ | .resume i _ =>
    ∀ s ∈ σ.stream i, ∀ b ∈ s.rf.buffers, b.empty = false → b.group = s.rf.bufferGroupId
  | .destroyStream i => ∀ s ∈ σ.stream i, ∀ b ∈ s.rf.buffers, b.empty = true
  | _ => True

instance (σ : RecvSystem) : DecidablePred σ.Settles
  | .awaitRecv i _ _ _ | .resume i _ => inferInstanceAs (Decidable (∀ s ∈ σ.stream i,
      ∀ b ∈ s.rf.buffers, b.empty = false → b.group = s.rf.bufferGroupId))
  | .destroyStream i => inferInstanceAs (Decidable (∀ s ∈ σ.stream i,
      ∀ b ∈ s.rf.buffers, b.empty = true))
  | .registerGroup .. | .newStream .. | .setBufferGroup .. | .setCancelled .. | .recvCqe ..
  | .recycle .. => .isTrue trivial

variable {σ σ' : RecvSystem} {s s' s₀ : RecvStream} {r r' : BufRing} {i j g k now p : Nat}
  {h : Coro} {alloc : Nat → Nat} {cqe : Cqe} {op : RecvOp}

/-! ### Counting -/

theorem sum_map_set {α : Type} (f : α → Nat) {l : List α} {a : α} (b : α) (hi : l[i]? = some a) :
    ((l.set i b).map f).sum + f a = (l.map f).sum + f b := by
  induction l generalizing i with
  | nil => simp at hi
  | cons c l ih =>
    cases i with
    | zero =>
      obtain rfl : c = a := by simpa using hi
      simp only [List.set_cons_zero, List.map_cons, List.sum_cons]
      omega
    | succ i =>
      have := ih (i := i) (by simpa using hi)
      simp only [List.set_cons_succ, List.map_cons, List.sum_cons]
      omega

theorem getElem?_of_stream (hi : σ.stream i = some s) : σ.streams[i]? = some (some s) := by
  rw [stream] at hi
  exact Option.join_eq_some_iff.mp hi

theorem undelivered_setStream (s' : RecvStream) (g : Nat) (hi : σ.stream i = some s) :
    (σ.setStream i s').undelivered g + s.undelivered g = σ.undelivered g + s'.undelivered g :=
  sum_map_set (fun s => (s.map (RecvStream.undelivered g)).getD 0) (some s') (getElem?_of_stream hi)

theorem undelivered_destroy (g : Nat) (hi : σ.stream i = some s) :
    undelivered { σ with streams := σ.streams.set i none } g + s.undelivered g =
      σ.undelivered g :=
  sum_map_set (fun s => (s.map (RecvStream.undelivered g)).getD 0) none (getElem?_of_stream hi)

/-! ### The queue of a stream -/

/-- **Only the last buffer of a queue is empty**, and none is while a receive is under
way. -/
structure QueueOk (s : RecvStream) : Prop where
  data : s.rf.initiated = true → ∀ b ∈ s.rf.buffers, b.empty = false
  last : (s.rf.buffers.takeWhile fun b => !b.empty) = s.rf.buffers.filter fun b => !b.empty

theorem QueueOk.of_nil (hbuf : s.rf.buffers = []) : QueueOk s where
  data := fun _ => by simp [hbuf]
  last := by simp [hbuf]

theorem takeWhile_eq_filter {bs : List RecvBuffer} (hbs : ∀ b ∈ bs, b.empty = false) :
    (bs.takeWhile fun b => !b.empty) = bs.filter fun b => !b.empty := by
  rw [List.takeWhile_eq_self_iff.mpr (by simpa using hbs),
    List.filter_eq_self.mpr (by simpa using hbs)]

/-- The end of the stream may follow data. -/
theorem takeWhile_concat {bs : List RecvBuffer} {b : RecvBuffer} (hbs : ∀ b ∈ bs, b.empty = false)
    (hb : b.empty = true) : ((bs ++ [b]).takeWhile fun b => !b.empty) =
      (bs ++ [b]).filter fun b => !b.empty := by
  rw [List.takeWhile_append_of_pos (by simpa using hbs), List.filter_append,
    List.filter_eq_self.mpr (by simpa using hbs)]
  simp [hb]

/-- A queue received from one group counts for that group. -/
theorem undelivered_self (hgroup : ∀ b ∈ s.rf.buffers, b.empty = false → b.group = some g) :
    s.undelivered g = (s.rf.buffers.filter fun b => !b.empty).length := by
  rw [RecvStream.undelivered, ← List.countP_eq_length_filter]
  refine List.countP_congr fun b hb => ?_
  cases hempty : b.empty with
  | true => simp
  | false => simp [hgroup b hb hempty]

/-- A queue received from one group does not count for another. -/
theorem undelivered_other (hgroup : ∀ b ∈ s.rf.buffers, b.empty = false → b.group = some g)
    (hne : k ≠ g) : s.undelivered k = 0 := by
  rw [RecvStream.undelivered, List.countP_eq_zero]
  intro b hb hc
  simp only [Bool.and_eq_true, Bool.not_eq_true', decide_eq_true_eq] at hc
  rw [hgroup b hb hc.1] at hc
  exact hne (Option.some.inj hc.2).symm

theorem undelivered_of_empty (hempty : ∀ b ∈ s.rf.buffers, b.empty = true) :
    s.undelivered k = 0 := by
  rw [RecvStream.undelivered, List.countP_eq_zero]
  intro b hb
  simp [hempty b hb]

theorem undelivered_nil (hbuf : s.rf.buffers = []) : s.undelivered k = 0 :=
  undelivered_of_empty fun b hb => by simp [hbuf] at hb

/-! ### Every call -/

/-- What is carried along a run: the ids have owners, only the end of a queue is empty,
and the ids on the stacks are covered. -/
structure Covered (σ : RecvSystem) : Prop where
  inv : Inv σ
  queue : ∀ i s, σ.stream i = some s → QueueOk s
  le : ∀ g r, σ.groups g = some r → r.free.length ≤ σ.undelivered g

theorem covered_init : Covered init where
  inv := inv_init
  queue := fun i s hi => by simp [init, stream] at hi
  le := fun g r hr => by simp [init] at hr

theorem Covered.stocked (hσ : Covered σ) : Stocked σ where
  covered := hσ.le
  full := by
    intro g r hr hzero
    have hle := hσ.le g r hr
    have hlen := (hσ.inv.owned g r hr).split.length_add
    rw [List.length_map] at hlen
    omega

/-- A call that leaves the queues and the rings alone. -/
theorem Covered.setStream (hσ : Covered σ) (hi : σ.stream i = some s)
    (hinv : Inv (σ.setStream i s')) (hq : QueueOk s')
    (hsame : ∀ g, s'.undelivered g = s.undelivered g) : Covered (σ.setStream i s') where
  inv := hinv
  queue := forall_setStream hσ.queue hq
  le := by
    intro g r hr
    have hsum := undelivered_setStream s' g hi
    have hle := hσ.le g r hr
    have := hsame g
    omega

/-- **Handing out a queue** that was received from the group of its stream. -/
theorem Covered.deliver (hσ : Covered σ) (hi : σ.stream i = some s) (hr : σ.groups g = some r)
    (hgroup : ∀ b ∈ s.rf.buffers, b.empty = false → b.group = some g)
    (hpos : r'.bufIdPos = r.bufIdPos - (s.rf.buffers.takeWhile fun b => !b.empty).length)
    (hr' : r'.Owned r'.published) (hs' : s'.rf.buffers = [])
    (hinv : Inv ((σ.setGroup g r').setStream i s')) :
    Covered ((σ.setGroup g r').setStream i s') where
  inv := hinv
  queue := forall_setStream (σ := σ.setGroup g r') hσ.queue (QueueOk.of_nil hs')
  le := by
    have hzero : ∀ k, s'.undelivered k = 0 := fun k => undelivered_nil hs'
    intro k t hk
    have hsum := undelivered_setStream (σ := σ.setGroup g r') s' k hi
    have hrest : undelivered (σ.setGroup g r') k = σ.undelivered k := rfl
    have hzero := hzero k
    rcases eq_or_ne k g with rfl | hne
    · -- the ring that is refilled: as many ids leave the stack as buffers leave the queue
      have ht : r' = t := Option.some.inj (groups_setGroup_self.symm.trans hk)
      have hle := hσ.le k r hr
      have hr₀ := hσ.inv.owned k r hr
      have hcount := undelivered_self hgroup
      rw [BufRing.free_length (hr₀.ids ▸ hr₀.pos)] at hle
      rw [(hσ.queue i s hi).last] at hpos
      rw [← ht, BufRing.free_length (hr'.ids ▸ hr'.pos)]
      omega
    · -- any other ring: no buffer of it is in the queue
      have hk' : σ.groups k = some t := (groups_setGroup_ne hne).symm.trans hk
      have hle := hσ.le k t hk'
      have hcount := undelivered_other hgroup hne
      omega

/-- **Data arrives**: one id more on the stack, one buffer more in the queue. -/
theorem Covered.receive {buf : RecvBuffer} {id : Nat} (hσ : Covered σ) (hi : σ.stream i = some s)
    (hr : σ.groups g = some r) (hbuf : buf.empty = false) (hgroup : buf.group = some g)
    (hfree : r'.free = r.free ++ [id]) (hs' : s'.rf.buffers = s.rf.buffers ++ [buf])
    (hdata : ∀ b ∈ s.rf.buffers, b.empty = false)
    (hinv : Inv ((σ.setGroup g r').setStream i s')) :
    Covered ((σ.setGroup g r').setStream i s') where
  inv := hinv
  queue := by
    have hall : ∀ b ∈ s'.rf.buffers, b.empty = false := by
      intro b hb
      rw [hs'] at hb
      rcases List.mem_append.mp hb with hb | hb
      · exact hdata b hb
      · exact List.mem_singleton.mp hb ▸ hbuf
    exact forall_setStream (σ := σ.setGroup g r') hσ.queue ⟨fun _ => hall, takeWhile_eq_filter hall⟩
  le := by
    intro k t hk
    have hsum := undelivered_setStream (σ := σ.setGroup g r') s' k hi
    have hrest : undelivered (σ.setGroup g r') k = σ.undelivered k := rfl
    have hcount : s'.undelivered k = s.undelivered k + if k = g then 1 else 0 := by
      rw [RecvStream.undelivered, hs', List.countP_append]
      by_cases hkg : k = g
      · simp [RecvStream.undelivered, hbuf, hgroup, hkg]
      · simp [RecvStream.undelivered, hbuf, hgroup, hkg, Ne.symm hkg]
    rcases eq_or_ne k g with rfl | hne
    · have ht : r' = t := Option.some.inj (groups_setGroup_self.symm.trans hk)
      have hle := hσ.le k r hr
      rw [← ht, hfree, List.length_append, List.length_singleton]
      rw [if_pos rfl] at hcount
      omega
    · have hle := hσ.le k t ((groups_setGroup_ne hne).symm.trans hk)
      rw [if_neg hne] at hcount
      omega

/-! Which of these a call is. -/

/-- Without a queue, `await_resume` hands out the error. -/
theorem awaitResume_nil (hbuf : s.rf.buffers = []) (heq : σ.awaitResume i s alloc = some σ') :
    ∃ s', s'.rf.buffers = [] ∧ σ' = σ.setStream i s' := by
  have hempty : s.rf.buffers.isEmpty = true := by simp [hbuf]
  simp only [awaitResume, RecvFrame.awaitResume, hempty, if_true, Option.bind_eq_bind,
    Option.bind_eq_some_iff, Option.map_eq_some_iff] at heq
  obtain ⟨_, ⟨ec, -, rfl⟩, heq⟩ := heq
  exact ⟨{ s with rf := { s.rf with ec := none } }, hbuf, (Option.some.inj heq).symm⟩

theorem awaitSuspend_nil (hbuf : s.rf.buffers = [])
    (heq : σ.awaitSuspend i s h now alloc = some σ') :
    ∃ s', s'.rf.buffers = [] ∧ σ' = σ.setStream i s' := by
  have hsame := s.rf.awaitSuspend_buffers h now
  rw [awaitSuspend] at heq
  split at heq
  all_goals
    next hsus =>
      rw [hsus, hbuf] at hsame
      first
        | exact awaitResume_nil (s := { s with rf := _ }) hsame heq
        | exact ⟨_, hsame, (Option.some.inj heq).symm⟩

/-- **Every call that settles keeps the ids covered.** -/
theorem step_covered (hσ : Covered σ) (hC : σ.Settles op) (hstep : σ.step op = some σ') :
    Covered σ' := by
  have hinv : Inv σ' := step_inv hσ.inv hstep
  rw [step] at hstep
  split_ifs at hstep with hop
  -- the two ways a call hands out what was received
  have hresume : ∀ i s alloc, σ.stream i = some s →
      (∀ b ∈ s.rf.buffers, b.empty = false → b.group = s.rf.bufferGroupId) →
      σ.awaitResume i s alloc = some σ' → Covered σ' := by
    intro i s alloc hi hgroup heq
    by_cases hbuf : s.rf.buffers = []
    · obtain ⟨s', hs', rfl⟩ := awaitResume_nil hbuf heq
      refine hσ.setStream hi hinv (.of_nil hs') fun g => ?_
      rw [undelivered_nil hbuf, undelivered_nil hs']
    · obtain ⟨g, r, r', hg, hr, -, hr', hpos, hsome⟩ :=
        awaitResume_buffers (hσ.inv.ok i s hi) i alloc hσ.inv hbuf
      obtain rfl := Option.some.inj (heq.symm.trans hsome)
      exact hσ.deliver hi hr (by rwa [hg] at hgroup) hpos hr' rfl hinv
  cases op with
  | registerGroup g numBufs bufSize alloc =>
    simp only [perform, Option.bind_eq_bind, Option.bind_eq_some_iff] at hstep
    obtain ⟨r, hr, heq⟩ := hstep
    obtain rfl := Option.some.inj heq
    refine ⟨hinv, hσ.queue, forall_setGroup (P := fun g r => r.free.length ≤ σ.undelivered g)
      hσ.le ?_⟩
    have hfree : r.free = [] := by
      rw [BufRing.free, (BufRing.new_owned hr).2, List.take_zero]
    simp [hfree]
  | newStream now =>
    obtain rfl := Option.some.inj hstep
    refine ⟨hinv, forall_newStream hσ.queue (.of_nil rfl), fun g r hr => ?_⟩
    have hsum : undelivered { σ with streams := σ.streams ++ [some ⟨.init now, false, []⟩] } g =
        σ.undelivered g := by
      simp [undelivered, RecvStream.undelivered, RecvFrame.init]
    rw [hsum]
    exact hσ.le g r hr
  | destroyStream i =>
    obtain rfl := Option.some.inj hstep
    obtain ⟨s, hi, -⟩ := (Option.any_eq_true ..).mp hop
    refine ⟨hinv, forall_destroyStream hσ.queue, fun g r hr => ?_⟩
    have hsum := undelivered_destroy g hi
    have hzero := undelivered_of_empty (k := g) (hC s hi)
    have hle := hσ.le g r hr
    omega
  | setBufferGroup i g =>
    simp only [perform, Option.bind_eq_bind, Option.bind_eq_some_iff,
      RecvFrame.setBufferGroup] at hstep
    obtain ⟨s, hi, rf, hrf, heq⟩ := hstep
    split_ifs at hrf with hidle
    obtain rfl := Option.some.inj hrf
    obtain rfl := Option.some.inj heq
    exact hσ.setStream hi hinv ⟨(hσ.queue i s hi).data, (hσ.queue i s hi).last⟩ fun _ => rfl
  | setCancelled i =>
    simp only [perform, Option.bind_eq_bind, Option.bind_eq_some_iff] at hstep
    obtain ⟨s, hi, heq⟩ := hstep
    obtain rfl := Option.some.inj heq
    exact hσ.setStream hi hinv ⟨(hσ.queue i s hi).data, (hσ.queue i s hi).last⟩ fun _ => rfl
  | awaitRecv i h now alloc =>
    simp only [perform, Option.bind_eq_bind, Option.bind_eq_some_iff] at hstep
    obtain ⟨s, hi, heq⟩ := hstep
    split_ifs at heq with hready
    · exact hresume i s alloc hi (hC s hi) heq
    · have hbuf : s.rf.buffers = [] := by simpa [RecvFrame.awaitReady] using hready
      obtain ⟨s', hs', rfl⟩ := awaitSuspend_nil hbuf heq
      refine hσ.setStream hi hinv (.of_nil hs') fun g => ?_
      rw [undelivered_nil hbuf, undelivered_nil hs']
  | recvCqe i g cqe now p =>
    simp only [allows, Bool.and_eq_true, Option.any_eq_true, decide_eq_true_eq] at hop
    obtain ⟨⟨s, hi, hg⟩, r, hr, hposts⟩ := hop
    simp only [perform, hi, Option.bind_eq_bind, Option.bind_some] at hstep
    have hs := hσ.inv.ok i s hi
    have hdata := (hσ.queue i s hi).data (by
      by_contra hc
      simp [hs.idle (by simpa using hc)] at hg)
    rw [posts] at hposts
    split_ifs at hposts with hres
    · simp only [Bool.and_eq_true, Bool.not_eq_true', Option.isNone_iff_eq_none] at hposts
      obtain ⟨buffers, ec, hbuffers, heq⟩ := recvCqe_end hs i now p hg hres hposts.1 hposts.2
      obtain rfl := Option.some.inj (hstep.symm.trans heq)
      rcases hbuffers with rfl | rfl
      · exact hσ.setStream hi hinv ⟨fun hc => absurd hc (by simp), takeWhile_eq_filter hdata⟩
          fun _ => rfl
      · refine hσ.setStream hi hinv ⟨fun hc => absurd hc (by simp), takeWhile_concat hdata rfl⟩
          fun k => ?_
        simp [RecvStream.undelivered, RecvBuffer.alloc]
    · obtain ⟨id, hid, hmem⟩ := (Option.any_eq_true ..).mp hposts
      obtain ⟨buf, r', hbuf, hgroup, hfree, -, heq⟩ := recvCqe_data hs i now p hσ.inv hg hr
        (by omega) hid (by simpa using hmem)
      obtain rfl := Option.some.inj (hstep.symm.trans heq)
      exact hσ.receive hi hr hbuf hgroup hfree rfl hdata hinv
  | resume i alloc =>
    simp only [perform, Option.bind_eq_bind, Option.bind_eq_some_iff] at hstep
    obtain ⟨s, hi, heq⟩ := hstep
    exact hresume i s alloc hi (hC s hi) heq
  | recycle g buf =>
    simp only [allows, Bool.and_eq_true, decide_eq_true_eq] at hop
    simp only [perform, Option.bind_eq_bind, Option.bind_eq_some_iff] at hstep
    obtain ⟨r, hr, r', hrec, heq⟩ := hstep
    obtain rfl := Option.some.inj heq
    obtain ⟨r'', hrec', hfree, -⟩ := (hσ.inv.owned g r hr).recycleBuffer hop.2
    obtain rfl := Option.some.inj (hrec.symm.trans hrec')
    refine ⟨hinv, hσ.queue, forall_setGroup (P := fun g r => r.free.length ≤ σ.undelivered g)
      hσ.le ?_⟩
    have hle := hσ.le g r hr
    rw [hfree, List.length_dropLast]
    omega

end RecvSystem

open RecvSystem in
/-- **No group is starved** along a run in which queues are handed out to the group they
came from and streams are destroyed empty. -/
theorem recvSystem_stocked (ops : List RecvOp)
    (hsettles : StepsMeet RecvSystem.step Settles RecvSystem.init ops) :
    Along RecvSystem.step Stocked RecvSystem.init ops :=
  (along_of_stepsMeet (fun _ _ _ hσ hC hstep => step_covered hσ hC hstep) covered_init
    hsettles).mono fun _ hσ => hσ.stocked

/-- A group is switched with an empty queue, and a stream destroyed with the end of its
stream in the queue. -/
theorem recvSystem_stocked_sample : Along RecvSystem.step RecvSystem.Stocked RecvSystem.init
    [.registerGroup 1 1 64 (fun i => i), .registerGroup 2 1 64 (fun i => 10 + i), .newStream 0,
      .setBufferGroup 0 1, .awaitRecv 0 0 0 (fun i => 20 + i), .recvCqe 0 1 ⟨5, false, some 0⟩ 1 0,
      .resume 0 (fun i => 30 + i), .setBufferGroup 0 2, .awaitRecv 0 0 0 (fun i => 40 + i),
      .recvCqe 0 2 ⟨0, false, none⟩ 1 50, .destroyStream 0] :=
  recvSystem_stocked _ (by decide)

/-- **A group is starved**, by a stream that is switched to another group while a buffer
of the old one is queued, and by a stream that is destroyed with a buffer in its queue:
the receive was armed with the group `1`, its only buffer was filled by the last
completion of the receive, and the id of that buffer stays on the stack for good. -/
theorem recvSystem_starves :
    ¬Along RecvSystem.step RecvSystem.Stocked RecvSystem.init
        [.registerGroup 1 1 64 (fun i => i), .registerGroup 2 1 64 (fun i => 10 + i), .newStream 0,
          .setBufferGroup 0 1, .awaitRecv 0 0 0 (fun i => 20 + i),
          .recvCqe 0 1 ⟨5, false, some 0⟩ 1 0, .setBufferGroup 0 2, .resume 0 (fun i => 30 + i)] ∧
      ¬Along RecvSystem.step RecvSystem.Stocked RecvSystem.init
        [.registerGroup 1 1 64 (fun i => i), .newStream 0, .setBufferGroup 0 1,
          .awaitRecv 0 0 0 (fun i => 20 + i), .recvCqe 0 1 ⟨5, false, some 0⟩ 1 0,
          .destroyStream 0] := by
  constructor
  · intro h
    exact absurd ((h.last rfl).covered 1 _ rfl) (by decide)
  · intro h
    exact absurd ((h.last rfl).covered 1 _ rfl) (by decide)

end Fiona
