import Fiona.Lib.Run
import Fiona.Lib.Stock
import Mathlib.Data.List.Nodup

/-!
# Fixed buffers

The pool of registered buffers of `include/fiona/detail/common.hpp`, `fixed_buffers`. The ids of the
buffers are on a stack, `buf_ids_` below the pointer `avail_buf_ids_`, as those of a
`buf_ring` are (`Fiona.BufRing`); but the one that pushes an id is the destructor of
`fixed_buffer`, and the pointer it pushes through is a member of the buffer, a copy of
the pool's that was made when the id was popped. So an id is written to where it was popped
from, and the pool's own pointer only ever moves down.

Pointers into `buf_ids_` are offsets. A pop from the empty stack, a write outside `buf_ids_`
and an index outside `bufs_` give `none`.
-/

namespace Fiona

open Transition

/-- `fixed_buffer`. -/
structure FixedBuffer where
  bufIndex : Nat
  /-- The buffer's own pointer into `buf_ids_`. -/
  availBufIds : Nat
  deriving DecidableEq, Repr

/-- `fixed_buffers`, with the length of `bufs_`. -/
structure FixedBuffers where
  numBufs : Nat
  bufIds : List Nat
  availBufIds : Nat
  deriving DecidableEq, Repr

namespace FixedBuffers

/-- `fixed_buffers::fixed_buffers`. -/
def new (numBufs : Nat) : FixedBuffers := ⟨numBufs, List.range numBufs, numBufs⟩

variable (r : FixedBuffers)

/-- The ids on the stack. -/
def free : List Nat := r.bufIds.take r.availBufIds

/-- `fixed_buffers::get_avail_buf`. -/
def getAvailBuf : Option (FixedBuffer × FixedBuffers) :=
  if r.availBufIds = 0 then none
  else do
    let r := { r with availBufIds := r.availBufIds - 1 }
    let bufIndex ← r.bufIds[r.availBufIds]?
    if bufIndex < r.numBufs then some (⟨bufIndex, r.availBufIds⟩, r) else none

/-- `fixed_buffer::~fixed_buffer`; the pointer it increments goes with the buffer. -/
def destroy (b : FixedBuffer) : Option FixedBuffers :=
  if b.availBufIds < r.bufIds.length then
    some { r with bufIds := r.bufIds.set b.availBufIds b.bufIndex }
  else none

end FixedBuffers

/-- A pool and the buffers that are live. -/
structure FixedSystem where
  pool : FixedBuffers
  live : List FixedBuffer
  deriving DecidableEq, Repr

inductive FixedOp
  | getAvailBuf
  /-- The live buffer at this place is destroyed. -/
  | destroy (i : Nat)
  deriving DecidableEq, Repr

namespace FixedSystem

open FixedBuffers

/-- A pool that was just registered. -/
def init (numBufs : Nat) : FixedSystem := ⟨.new numBufs, []⟩

variable (s : FixedSystem)

def step : FixedOp → Option FixedSystem
  | .getAvailBuf => s.pool.getAvailBuf.map fun (b, r) => ⟨r, s.live ++ [b]⟩
  | .destroy i => do
    let b ← s.live[i]?
    let r ← s.pool.destroy b
    some ⟨r, s.live.eraseIdx i⟩

/-- The ids in use. -/
def inUse : List Nat := s.live.map FixedBuffer.bufIndex

/-- **Conservation**: the ids on the stack and those in use are all there are, each once. A buffer
that is handed out was not in use, and there is one unless all are. -/
structure Pooled : Prop where
  split : Stock.Split s.pool.numBufs s.pool.free s.inUse
  fresh : ∀ b r, s.pool.getAvailBuf = some (b, r) → b.bufIndex ∉ s.inUse
  served : s.live.length < s.pool.numBufs → s.pool.getAvailBuf.isSome = true

/-- What is true of every pool: `buf_ids_` is what the constructor made it, and the live buffers are
some of those popped, each with its pointer where it was popped from. -/
structure Inv : Prop where
  bufIds : s.pool.bufIds = List.range s.pool.numBufs
  avail : s.pool.availBufIds ≤ s.pool.numBufs
  place : ∀ b ∈ s.live, b.availBufIds = b.bufIndex
  popped : ∀ i ∈ s.inUse, s.pool.availBufIds ≤ i ∧ i < s.pool.numBufs
  nodup : s.inUse.Nodup

variable {s} {s' : FixedSystem} {op : FixedOp} {ops : List FixedOp} {numBufs : Nat}

theorem inv_init (numBufs : Nat) : Inv (init numBufs) where
  bufIds := rfl
  avail := Nat.le_refl _
  place := by simp [init]
  popped := by simp [init, inUse]
  nodup := List.nodup_nil

section

variable (hs : Inv s)

include hs

theorem Inv.free_eq : s.pool.free = List.range s.pool.availBufIds := by
  rw [FixedBuffers.free, hs.bufIds, List.take_range, Nat.min_eq_left hs.avail]

/-- **A pop** yields the id below the pointer, and moves the pointer down to it. -/
theorem Inv.getAvailBuf_eq : s.pool.getAvailBuf =
    if s.pool.availBufIds = 0 then none
    else some (⟨s.pool.availBufIds - 1, s.pool.availBufIds - 1⟩,
      { s.pool with availBufIds := s.pool.availBufIds - 1 }) := by
  rw [getAvailBuf]
  split_ifs with hempty
  · rfl
  · have havail := hs.avail
    have hlt : s.pool.availBufIds - 1 < s.pool.numBufs := by omega
    simp [hs.bufIds, hlt]

/-- **A destructor changes nothing** in the pool. -/
theorem Inv.destroy_eq {b : FixedBuffer} (hb : b ∈ s.live) : s.pool.destroy b = some s.pool := by
  have hmem : b.bufIndex ∈ s.inUse := List.mem_map_of_mem hb
  obtain ⟨-, hlt⟩ := hs.popped _ hmem
  have hbound : b.bufIndex < s.pool.bufIds.length := by simpa [hs.bufIds] using hlt
  have hset : s.pool.bufIds.set b.bufIndex b.bufIndex = s.pool.bufIds := by
    have hget : s.pool.bufIds[b.bufIndex] = b.bufIndex := by simp [hs.bufIds]
    exact (congrArg _ hget.symm).trans (List.set_getElem_self hbound)
  rw [destroy, hs.place b hb, if_pos hbound, hset]

/-- **The steps.** -/
theorem Inv.step_cases (hstep : s.step op = some s') :
    (op = .getAvailBuf ∧ 0 < s.pool.availBufIds ∧
      s' = ⟨{ s.pool with availBufIds := s.pool.availBufIds - 1 },
        s.live ++ [⟨s.pool.availBufIds - 1, s.pool.availBufIds - 1⟩]⟩) ∨
    ∃ i, op = .destroy i ∧ i < s.live.length ∧ s' = ⟨s.pool, s.live.eraseIdx i⟩ := by
  cases op with
  | getAvailBuf =>
    obtain ⟨⟨b, r⟩, hget, rfl⟩ := Option.map_eq_some_iff.mp hstep
    rw [hs.getAvailBuf_eq] at hget
    split_ifs at hget with hempty
    simp only [Option.some.injEq, Prod.mk.injEq] at hget
    obtain ⟨rfl, rfl⟩ := hget
    exact .inl ⟨rfl, Nat.pos_of_ne_zero hempty, rfl⟩
  | destroy i =>
    obtain ⟨b, hb, hrest⟩ := Option.bind_eq_some_iff.mp hstep
    rw [hs.destroy_eq (List.mem_of_getElem? hb)] at hrest
    exact .inr ⟨i, rfl, (List.getElem?_eq_some_iff.mp hb).1, (Option.some.inj hrest).symm⟩

theorem Inv.step (hstep : s.step op = some s') : Inv s' := by
  rcases hs.step_cases hstep with ⟨rfl, hpos, rfl⟩ | ⟨i, rfl, -, rfl⟩
  · have havail := hs.avail
    refine ⟨hs.bufIds, by simp only; omega, ?_, ?_, ?_⟩
    · intro b hb
      rcases List.mem_append.mp hb with hold | hnew
      · exact hs.place b hold
      · rw [List.mem_singleton.mp hnew]
    · intro i hi
      simp only [inUse, List.map_append, List.map_cons, List.map_nil, List.mem_append,
        List.mem_singleton] at hi
      rcases hi with hold | rfl
      · have := hs.popped i hold
        simp only
        omega
      · simp only
        omega
    · have hnew : s.pool.availBufIds - 1 ∉ s.inUse := fun hmem => by
        have := hs.popped _ hmem
        omega
      simpa [inUse] using List.nodup_append.mpr
        ⟨hs.nodup, List.nodup_singleton _, by
          rintro a ha b hb rfl
          exact hnew (List.mem_singleton.mp hb ▸ ha)⟩
  · have hsub : (s.live.eraseIdx i).Sublist s.live := List.eraseIdx_sublist ..
    exact ⟨hs.bufIds, hs.avail, fun b hb => hs.place b (hsub.subset hb),
      fun j hj => hs.popped j ((hsub.map _).subset hj), (hsub.map _).nodup hs.nodup⟩

/-- **A buffer that is handed out was not in use**, whatever was destroyed before. -/
theorem Inv.fresh {b : FixedBuffer} {r : FixedBuffers} (hget : s.pool.getAvailBuf = some (b, r)) :
    b.bufIndex ∉ s.inUse := by
  rw [hs.getAvailBuf_eq] at hget
  split_ifs at hget with hempty
  simp only [Option.some.injEq, Prod.mk.injEq] at hget
  obtain ⟨rfl, rfl⟩ := hget
  intro hmem
  have := hs.popped _ hmem
  simp only at this
  omega

/-- The ids are conserved when as many are in use as were popped. -/
theorem Inv.split_iff : Stock.Split s.pool.numBufs s.pool.free s.inUse ↔
    s.pool.availBufIds + s.live.length = s.pool.numBufs := by
  rw [hs.free_eq]
  constructor
  · intro hsplit
    have hlen := hsplit.length_add
    simpa [inUse] using hlen
  · intro hlen
    have hnodup : (List.range s.pool.availBufIds ++ s.inUse).Nodup := by
      refine List.nodup_append.mpr ⟨List.nodup_range, hs.nodup, ?_⟩
      rintro a ha b hb rfl
      have := List.mem_range.mp ha
      have := hs.popped a hb
      omega
    have hsub : List.range s.pool.availBufIds ++ s.inUse ⊆ List.range s.pool.numBufs := by
      intro a ha
      have havail := hs.avail
      rcases List.mem_append.mp ha with hfree | hused
      · exact List.mem_range.mpr (Nat.lt_of_lt_of_le (List.mem_range.mp hfree) havail)
      · exact List.mem_range.mpr (hs.popped a hused).2
    have hsubperm := List.subperm_of_subset hnodup hsub
    refine hsubperm.perm_of_length_le ?_
    simp [inUse, hlen]

theorem Inv.pooled (hsplit : Stock.Split s.pool.numBufs s.pool.free s.inUse) : s.Pooled where
  split := hsplit
  fresh _ _ hget := hs.fresh hget
  served hlive := by
    have hlen := hs.split_iff.mp hsplit
    have hpos : s.pool.availBufIds ≠ 0 := by omega
    rw [hs.getAvailBuf_eq, if_neg hpos]
    rfl

/-- A step of a pool whose ids are conserved conserves them if it is not a destruction. -/
theorem Inv.split_step_iff (hsplit : Stock.Split s.pool.numBufs s.pool.free s.inUse)
    (hstep : s.step op = some s') :
    Stock.Split s'.pool.numBufs s'.pool.free s'.inUse ↔ op = .getAvailBuf := by
  have hlen := hs.split_iff.mp hsplit
  rw [(hs.step hstep).split_iff]
  rcases hs.step_cases hstep with ⟨rfl, hpos, rfl⟩ | ⟨i, rfl, hi, rfl⟩
  · refine iff_of_true ?_ rfl
    simp only [List.length_append, List.length_singleton]
    omega
  · refine iff_of_false ?_ (by simp)
    simp only [List.length_eraseIdx, if_pos hi]
    omega

end

/-- **The pool serves as many requests as it has buffers**, and then none. -/
theorem count_add_avail (hrun : run step (init numBufs) ops = some s) :
    ops.count .getAvailBuf + s.pool.availBufIds = numBufs := by
  suffices h : ∀ (t : FixedSystem), Inv t → run step t ops = some s →
      ops.count .getAvailBuf + s.pool.availBufIds = t.pool.availBufIds from
    h _ (inv_init numBufs) hrun
  clear hrun
  intro t ht hrun
  induction ops generalizing t with
  | nil =>
    cases hrun
    simp
  | cons op ops ih =>
    obtain ⟨t', h1, h2⟩ := run_cons_eq_some.mp hrun
    have hcount := ih t' (ht.step h1) h2
    rcases ht.step_cases h1 with ⟨rfl, hpos, rfl⟩ | ⟨i, rfl, -, rfl⟩
    · rw [List.count_cons_self]
      simp only at hcount
      omega
    · simpa using hcount

/-- **The ids are conserved in exactly those runs** in which no buffer is destroyed. -/
theorem fixedBuffers_pooled (numBufs : Nat) (ops : List FixedOp) :
    Along step Pooled (init numBufs) ops ↔
      StepsMeet step (fun _ op => op = .getAvailBuf) (init numBufs) ops := by
  have hinit : Stock.Split numBufs (init numBufs).pool.free (init numBufs).inUse :=
    (inv_init numBufs).split_iff.mpr (by simp [init, FixedBuffers.new])
  refine along_iff_stepsMeet (I := fun s => Inv s ∧ s.Pooled) (fun _ hs => hs.2) ?_ ?_
    ⟨inv_init numBufs, (inv_init numBufs).pooled hinit⟩
  · rintro s op s' ⟨hs, hpooled⟩ hop hstep
    have hsplit := (hs.split_step_iff hpooled.split hstep).mpr hop
    exact ⟨hs.step hstep, (hs.step hstep).pooled hsplit⟩
  · rintro s op s' ⟨hs, hpooled⟩ hstep hs'
    exact (hs.split_step_iff hpooled.split hstep).mp hs'.split

/-- **The only buffer is not handed out again** after it was destroyed. -/
theorem fixedBuffers_exhausted :
    ¬Along step Pooled (init 1) [.getAvailBuf, .destroy 0] := by
  intro h
  have hlast : Pooled ⟨⟨1, [0], 0⟩, []⟩ := h.last rfl
  exact absurd (hlast.served (by decide)) (by decide)

end FixedSystem

end Fiona
