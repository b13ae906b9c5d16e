import Fiona.Buffer.Sequence
import Fiona.Lib.Ownership
import Fiona.Lib.Run
import Fiona.Lib.Threaded
import Mathlib.Data.List.Nodup
import Mathlib.Tactic.Common

/-!
# Lists of blocks, and the pool that represents them

What `Fiona.Pool` is for, stated without pointers: a `recv_buffer_sequence` is a list
of block addresses, a `recv_buffer` is one block or none, and every operation moves
blocks between them (`Fiona.Lists`, `Fiona.Lists.step`). Appending appends, taking the
first takes the first, a move empties its source, a concatenation empties its
argument – and an object moved or concatenated onto itself is left alone.

`Fiona.Rep` is the simulation relation. The members of a sequence object are a
*function* of its list (`Fiona.seqOf`), and the links in the memory thread the list
through the sentry (`Threaded.Threads`). Two sequences share no block, because every
block has exactly one owner (`Ownership.ExactlyOne`).
-/

namespace Fiona

open Ownership Threaded Transition

/-! ### Lists of blocks -/

/-- The abstract pool: which blocks each sequence holds, which block each buffer
holds if any, and what a view of each allocated block reports. -/
structure Lists where
  seqs : Nat → Option (List Nat)
  bufs : Nat → Option (Option Nat)
  view : Nat → Option (Nat × Nat)
  allocs : Nat → Nat
  frees : Nat → Nat

namespace Lists

variable (a : Lists)

def init : Lists := ⟨fun _ => none, fun _ => none, fun _ => none, fun _ => 0, fun _ => 0⟩

def setSeq (s : Nat) (l : List Nat) : Lists := { a with seqs := Function.update a.seqs s (some l) }

def dropSeq (s : Nat) : Lists := { a with seqs := Function.update a.seqs s none }

def setBuf (b : Nat) (x : Option Nat) : Lists :=
  { a with bufs := Function.update a.bufs b (some x) }

def dropBuf (b : Nat) : Lists := { a with bufs := Function.update a.bufs b none }

/-- The blocks `l` are given back to the allocator. -/
def free (l : List Nat) : Lists :=
  { a with
    view := fun n => if n ∈ l then none else a.view n
    frees := fun n => if n ∈ l then a.frees n + 1 else a.frees n }

/-- What each operation does to the lists. -/
def step : BufferOp → Option Lists
  | .newBuffer b n capacity =>
    if (a.bufs b).isSome ∨ (a.view n).isSome then none
    else some { a.setBuf b (some n) with
      view := Function.update a.view n (some (0, capacity))
      allocs := Function.update a.allocs n (a.allocs n + 1) }
  | .defaultBuffer b => if (a.bufs b).isSome then none else some (a.setBuf b none)
  | .moveBuffer b c =>
    if (a.bufs b).isSome then none
    else do
      let x ← a.bufs c
      some ((a.setBuf b x).setBuf c none)
  | .assignBuffer b c => do
    let x ← a.bufs b
    let y ← a.bufs c
    if b = c then some a else some (((a.free x.toList).setBuf b y).setBuf c none)
  | .destroyBuffer b => do
    let x ← a.bufs b
    some ((a.free x.toList).dropBuf b)
  | .setLen n size => do
    let v ← a.view n
    some { a with view := Function.update a.view n (some (size, v.2)) }
  | .newSequence s => if (a.seqs s).isSome then none else some (a.setSeq s [])
  | .moveSequence s rhs =>
    if (a.seqs s).isSome then none
    else do
      let m ← a.seqs rhs
      some ((a.setSeq s m).setSeq rhs [])
  | .assignSequence s rhs => do
    let l ← a.seqs s
    let m ← a.seqs rhs
    if s = rhs then some a else some (((a.free l).setSeq s m).setSeq rhs [])
  | .destroySequence s => do
    let l ← a.seqs s
    some ((a.free l).dropSeq s)
  | .pushBack s b => do
    let x ← a.bufs b
    let n ← x
    let l ← a.seqs s
    some ((a.setBuf b none).setSeq s (l ++ [n]))
  | .popFront s b => do
    let l ← a.seqs s
    if (a.bufs b).isSome then none
    else do
      let n ← l.head?
      some ((a.setBuf b (some n)).setSeq s l.tail)
  | .concat s t param => do
    let l ← a.seqs s
    let m ← a.seqs t
    if (a.seqs param).isSome then none
    else if s = t then some a
    else some ((a.setSeq s (l ++ m)).setSeq t [])

/-- The owners of blocks. -/
inductive Owner
  | sequence (s : Nat)
  | buffer (b : Nat)
  deriving DecidableEq

/-- The owner holds the block. -/
def Holds : Owner → Nat → Prop
  | .sequence s, n => ∃ l, a.seqs s = some l ∧ n ∈ l
  | .buffer b, n => a.bufs b = some (some n)

/-- The block is allocated. -/
def Allocated (n : Nat) : Prop := (a.view n).isSome

section

variable {a c : Lists} {s b k : Nat} {l : List Nat} {x : Option Nat} {o : Owner}

/-- Who holds what depends on the objects only. -/
theorem holds_congr (hs : c.seqs = a.seqs) (hb : c.bufs = a.bufs) :
    c.Holds o k ↔ a.Holds o k := by
  cases o with
  | sequence s => rw [Holds, Holds, hs]
  | buffer b => rw [Holds, Holds, hb]

theorem holds_sequence (hs : a.seqs s = some l) : a.Holds (.sequence s) k ↔ k ∈ l := by
  simp [Holds, hs]

/-- A sequence that is there is replaced. -/
theorem isSome_seqs_setSeq {m : List Nat} (hs : a.seqs s = some l) (s' : Nat) :
    ((a.setSeq s m).seqs s').isSome = (a.seqs s').isSome := by
  rcases eq_or_ne s' s with rfl | hne
  · simp [setSeq, hs]
  · simp [setSeq, hne]

theorem holds_setSeq :
    (a.setSeq s l).Holds o k ↔ (o = .sequence s ∧ k ∈ l) ∨ (o ≠ .sequence s ∧ a.Holds o k) := by
  cases o with
  | sequence s' =>
    rcases eq_or_ne s' s with rfl | hne
    · simp [Holds, setSeq]
    · simp [Holds, setSeq, hne]
  | buffer b' => simp [Holds, setSeq]

theorem holds_setBuf :
    (a.setBuf b x).Holds o k ↔ (o = .buffer b ∧ x = some k) ∨ (o ≠ .buffer b ∧ a.Holds o k) := by
  cases o with
  | sequence s' => simp [Holds, setBuf]
  | buffer b' =>
    rcases eq_or_ne b' b with rfl | hne
    · simp [Holds, setBuf]
    · simp [Holds, setBuf, hne]

theorem holds_dropSeq : (a.dropSeq s).Holds o k ↔ o ≠ .sequence s ∧ a.Holds o k := by
  cases o with
  | sequence s' =>
    rcases eq_or_ne s' s with rfl | hne
    · simp [Holds, dropSeq]
    · simp [Holds, dropSeq, hne]
  | buffer b' => simp [Holds, dropSeq]

theorem holds_dropBuf : (a.dropBuf b).Holds o k ↔ o ≠ .buffer b ∧ a.Holds o k := by
  cases o with
  | sequence s' => simp [Holds, dropBuf]
  | buffer b' =>
    rcases eq_or_ne b' b with rfl | hne
    · simp [Holds, dropBuf]
    · simp [Holds, dropBuf, hne]

@[simp] theorem holds_free : (a.free l).Holds o k ↔ a.Holds o k :=
  holds_congr rfl rfl

end

end Lists

/-! ### The simulation relation -/

/-- The members of a sequence object that represents the list `l`. -/
def seqOf (s : Nat) (l : List Nat) : RecvBufferSequence where
  pSentry := .sentry s
  head := l.head?.map Addr.node
  tail := l.getLast?.map Addr.node
  numBufs := l.length

/-- The `p_` of a buffer that holds the block `x`, if any. -/
def bufOf : Option Nat → Addr
  | none => .defaultHeader
  | some n => .node n

/-- **The pool represents the lists**: the members of the objects are functions of
what they hold, the links thread each sequence through its sentry, a block outside
every sequence points back to nothing, and every allocated block has exactly one
owner and one allocation more than it has frees. -/
structure Rep (σ : Pool) (a : Lists) : Prop where
  seqs : ∀ s, σ.seqs s = (a.seqs s).map (seqOf s)
  bufs : ∀ b, σ.bufs b = (a.bufs b).map bufOf
  sentry : ∀ s, (σ.mem (.sentry s)).isSome = (a.seqs s).isSome
  view : ∀ n, σ.mem.view (.node n) = a.view n
  threads : ∀ s l, a.seqs s = some l → Threads σ.mem.next σ.mem.prev (.sentry s)
    (l.head?.map Addr.node) (l.getLast?.map Addr.node) (l.map Addr.node)
  loose : ∀ b n, a.bufs b = some (some n) → σ.mem.prev (.node n) = none
  allocs : σ.allocs = a.allocs
  frees : σ.frees = a.frees
  owned : ExactlyOne a.Holds a.Allocated
  balance : ∀ n, a.allocs n = a.frees n + if (a.view n).isSome then 1 else 0

theorem node_injective : Function.Injective Addr.node := fun _ _ h => Addr.node.inj h

theorem node_mem_map {n : Nat} {l : List Nat} : Addr.node n ∈ l.map Addr.node ↔ n ∈ l :=
  List.mem_map_of_injective node_injective

/-- Objects that are functions of what they hold stay so when one of them is replaced. -/
theorem map_update {α β : Type} {f : Nat → Option β} {g : Nat → Option α} {F : Nat → α → β}
    (h : ∀ i, f i = (g i).map (F i)) (i : Nat) (x : Option α) (j : Nat) :
    Function.update f i (x.map (F i)) j = (Function.update g i x j).map (F j) := by
  rcases eq_or_ne j i with rfl | hne
  · simp
  · simp [hne, h]

theorem sentry_notMem_map (s : Nat) (l : List Nat) : Addr.sentry s ∉ l.map Addr.node := by
  simp

theorem rep_init : Rep Pool.init Lists.init where
  seqs := fun _ => rfl
  bufs := fun _ => rfl
  sentry := fun s => by simp [Pool.init, Lists.init]
  view := fun n => by simp [Pool.init, Lists.init, Mem.view]
  threads := fun s l h => by simp [Lists.init] at h
  loose := fun b n h => by simp [Lists.init] at h
  allocs := rfl
  frees := rfl
  owned := by
    refine ⟨fun {n o o'} h => ?_,
      fun n => ⟨fun h => by simp [Lists.Allocated, Lists.init] at h, ?_⟩⟩
    · cases o <;> simp [Lists.Holds, Lists.init] at h
    · rintro ⟨o, h⟩
      cases o <;> simp [Lists.Holds, Lists.init] at h
  balance := fun n => by simp [Lists.init]

section

variable {σ : Pool} {a : Lists} (h : Rep σ a) {s s' b b' n : Nat} {l l' : List Nat}

include h

theorem Rep.live_of_mem (hs : a.seqs s = some l) (hn : n ∈ l) : (σ.mem (.node n)).isSome := by
  rw [← Mem.isSome_view, h.view]
  exact h.owned.live_of_held (o := .sequence s) ⟨l, hs, hn⟩

theorem Rep.live_of_buf (hb : a.bufs b = some (some n)) : (σ.mem (.node n)).isSome := by
  rw [← Mem.isSome_view, h.view]
  exact h.owned.live_of_held (o := .buffer b) hb

theorem Rep.live_sentry (hs : a.seqs s = some l) : (σ.mem (.sentry s)).isSome := by
  rw [h.sentry, hs]
  rfl

theorem Rep.nodup (hs : a.seqs s = some l) : l.Nodup :=
  (h.threads s l hs).nodup.of_map _

/-- Two sequences share no block. -/
theorem Rep.disjoint (hs : a.seqs s = some l) (hs' : a.seqs s' = some l') (hne : s' ≠ s)
    (hn : n ∈ l') : n ∉ l := by
  intro hc
  have := h.owned.unique ((Lists.holds_sequence hs).mpr hc) ((Lists.holds_sequence hs').mpr hn)
  exact hne (Lists.Owner.sequence.inj this).symm

/-- A sequence and a buffer share no block. -/
theorem Rep.buf_notMem (hb : a.bufs b = some (some n)) (hs : a.seqs s = some l) : n ∉ l := by
  intro hc
  have := h.owned.unique (o := .buffer b) hb ((Lists.holds_sequence hs).mpr hc)
  exact Lists.Owner.noConfusion this

/-- Two buffers share no block. -/
theorem Rep.buf_unique (hb : a.bufs b = some (some n)) (hb' : a.bufs b' = some (some n)) :
    b = b' :=
  Lists.Owner.buffer.inj (h.owned.unique (show a.Holds (.buffer b) n from hb)
    (show a.Holds (.buffer b') n from hb'))

end

end Fiona
