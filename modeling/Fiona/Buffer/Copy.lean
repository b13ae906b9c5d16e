import Fiona.Buffer.Refinement
import Fiona.Lib.Overwrite

/-!
# Copying out of a sequence

`buffer_size` and `buffer_copy` of `src/buffer.cpp`, and what is made of them, `to_string` and
`to_bytes`. Both traverse a sequence with its iterators; the second fills a span, which gets
shorter from buffer to buffer, and it skips a buffer that is empty and stops in one that does not
fit or that fills the span to its end.

A copy writes into an array that nobody checks (`Overwrite.write`). What it writes is a prefix of
the bytes of the sequence, one buffer after the other, and it is one write
(`Fiona.Mem.bufferCopyLoop_eq`): the writes of its rounds continue each other.
-/

namespace Fiona

open Overwrite Threaded Transition

/-- What is stored behind the headers: the byte at `data() + i` of each block. -/
abbrev Contents := Addr → Nat → UInt8

/-- The first bytes from `data()` on. -/
def Contents.read (data : Contents) (p : Addr) (n : Nat) : List UInt8 := (List.range n).map (data p)

/-- A `std::span<unsigned char>`: where in an array it starts, and its size. -/
structure ByteSpan where
  data : Nat
  size : Nat
  deriving DecidableEq, Repr

namespace ByteSpan

variable (dst : ByteSpan)

def empty : Bool := dst.size = 0

def subspan (m : Nat) : ByteSpan := ⟨dst.data + m, dst.size - m⟩

end ByteSpan

namespace Mem

variable (m : Mem) (data : Contents)

/-- The loop of `buffer_size`, from the iterator `pos` to the iterator `e`. -/
def bufferSizeLoop (e : Ptr) : Nat → Ptr → Nat → Option Nat
  | 0, _, _ => none
  | fuel + 1, pos, n =>
    if pos = e then some n
    else do
      let bufView ← pos.bind m
      let n := n + bufView.size
      let pos ← m.getNext pos
      bufferSizeLoop e fuel pos n

/-- `buffer_size`. -/
def bufferSize (fuel : Nat) (bufs : RecvBufferSequence) : Option Nat :=
  m.bufferSizeLoop bufs.endIter fuel bufs.beginIter 0

/-- The loop of `buffer_copy`. The array that the span is a part of goes along. -/
def bufferCopyLoop (e : Ptr) : Nat → Ptr → Nat → ByteSpan → List UInt8 → Option (Nat × List UInt8)
  | 0, _, _, _, _ => none
  | fuel + 1, pos, n, dst, out =>
    if pos = e then some (n, out)
    else do
      let p ← pos
      let bufView ← m p
      if bufView.size = 0 then
        let pos ← m.getNext pos
        bufferCopyLoop e fuel pos n dst out
      else
        let k := min dst.size bufView.size
        let out ← write out dst.data (data.read p k)
        let n := n + k
        if k < bufView.size then some (n, out)
        else
          let dst := dst.subspan k
          if dst.empty then some (n, out)
          else
            let pos ← m.getNext pos
            bufferCopyLoop e fuel pos n dst out

/-- `buffer_copy`. -/
def bufferCopy (fuel : Nat) (dst : ByteSpan) (out : List UInt8) (bufs : RecvBufferSequence) :
    Option (Nat × List UInt8) :=
  m.bufferCopyLoop data bufs.endIter fuel bufs.beginIter 0 dst out

/-- `recv_buffer_sequence_view::to_string`. A character is the byte that the cast makes of it. -/
def toString (fuel : Nat) (bufs : RecvBufferSequence) : Option (List UInt8) := do
  let n ← m.bufferSize fuel bufs
  let s := List.replicate n 0
  let (_, s) ← m.bufferCopy data fuel ⟨0, s.length⟩ s bufs
  some s

/-- `recv_buffer_sequence_view::to_bytes`. -/
def toBytes (fuel : Nat) (bufs : RecvBufferSequence) : Option (List UInt8) := do
  let n ← m.bufferSize fuel bufs
  let s := List.replicate n 0x00
  let (_, s) ← m.bufferCopy data fuel ⟨0, s.length⟩ s bufs
  some s

/-! ### The two loops -/

/-- The size that a view of the header reports. -/
def size (a : Addr) : Nat := (m a).elim 0 BufHeader.size

/-- The readable bytes of the blocks, one after the other. -/
def bytes (l : List Addr) : List UInt8 := l.flatMap fun a => data.read a (m.size a)

end Mem

section

variable {m : Mem} {data : Contents} {fuel n k i : Nat} {p : Ptr} {a e : Addr} {l : List Addr}
  {dst : ByteSpan} {out : List UInt8}

@[simp] theorem Contents.length_read : (data.read a n).length = n := by simp [Contents.read]

theorem Contents.take_read : (data.read a n).take k = data.read a (min k n) := by
  rw [Contents.read, Contents.read, ← List.map_take, List.take_range]

namespace Mem

@[simp] theorem bytes_nil : m.bytes data [] = [] := rfl

theorem bytes_cons : m.bytes data (a :: l) = data.read a (m.size a) ++ m.bytes data l := rfl

/-- **The size is that of the readable bytes.** -/
theorem bufferSizeLoop_eq (hw : Walk m.next p l (some e)) (he : e ∉ l)
    (hlive : ∀ a ∈ l, (m a).isSome) (hfuel : l.length < fuel) :
    m.bufferSizeLoop (some e) fuel p n = some (n + (m.bytes data l).length) := by
  induction l generalizing p n fuel with
  | nil =>
    obtain ⟨fuel, rfl⟩ := Nat.exists_eq_add_one_of_ne_zero (Nat.ne_of_gt hfuel)
    exact if_pos hw
  | cons a l ih =>
    obtain ⟨fuel, rfl⟩ := Nat.exists_eq_add_one_of_ne_zero (Nat.ne_of_gt (Nat.zero_lt_of_lt hfuel))
    obtain ⟨rfl, hwalk⟩ := walk_cons.mp hw
    obtain ⟨hea, he⟩ : e ≠ a ∧ e ∉ l := not_or.mp (List.mem_cons.not.mp he)
    have ha := hlive a (List.mem_cons_self ..)
    obtain ⟨h, hh⟩ := Option.isSome_iff_exists.mp ha
    have hsize : m.size a = h.size := by simp [size, hh]
    rw [bufferSizeLoop, if_neg (by simpa using Ne.symm hea), getNext_some ha]
    simp only [Option.bind_eq_bind, Option.bind_some, hh]
    rw [ih hwalk he (fun b hb => hlive b (List.mem_cons_of_mem _ hb)) (by simpa using hfuel),
      bytes_cons, List.length_append, Contents.length_read, hsize, Nat.add_assoc]

/-- **A copy is one write**, of as much as the span has room for. -/
theorem bufferCopyLoop_eq (hw : Walk m.next p l (some e)) (he : e ∉ l)
    (hlive : ∀ a ∈ l, (m a).isSome) (hfuel : l.length < fuel)
    (hdst : dst.data + dst.size ≤ out.length) :
    m.bufferCopyLoop data (some e) fuel p n dst out =
      (write out dst.data ((m.bytes data l).take dst.size)).map fun out' =>
        (n + min dst.size (m.bytes data l).length, out') := by
  induction l generalizing p n fuel dst out with
  | nil =>
    obtain ⟨fuel, rfl⟩ := Nat.exists_eq_add_one_of_ne_zero (Nat.ne_of_gt hfuel)
    have hp : p = some e := hw
    rw [bufferCopyLoop, if_pos hp, bytes_nil, List.take_nil, write_nil (by omega)]
    simp
  | cons a l ih =>
    obtain ⟨fuel, rfl⟩ := Nat.exists_eq_add_one_of_ne_zero (Nat.ne_of_gt (Nat.zero_lt_of_lt hfuel))
    obtain ⟨rfl, hwalk⟩ := walk_cons.mp hw
    obtain ⟨hea, he⟩ : e ≠ a ∧ e ∉ l := not_or.mp (List.mem_cons.not.mp he)
    have ha := hlive a (List.mem_cons_self ..)
    obtain ⟨h, hh⟩ := Option.isSome_iff_exists.mp ha
    have hsize : m.size a = h.size := by simp [size, hh]
    have hrest := fun b hb => hlive b (List.mem_cons_of_mem _ hb)
    have hfuel : l.length < fuel := by simpa using hfuel
    rw [bufferCopyLoop, if_neg (by simpa using Ne.symm hea), getNext_some ha, bytes_cons, hsize]
    simp only [Option.bind_eq_bind, Option.bind_some, hh]
    by_cases hempty : h.size = 0
    · rw [if_pos hempty, ih hwalk he hrest hfuel hdst, hempty]
      rfl
    rw [if_neg hempty]
    by_cases hpart : min dst.size h.size < h.size
    · -- the buffer does not fit: nothing of the rest is copied
      have hmin : min dst.size h.size = dst.size := by omega
      rw [hmin, List.take_append_of_le_length (by simp; omega), Contents.take_read, hmin]
      simp only [if_pos (hmin ▸ hpart)]
      have hlen : min dst.size (data.read a h.size ++ m.bytes data l).length = dst.size := by
        rw [List.length_append, Contents.length_read]
        omega
      rw [hlen, Option.map_eq_bind]
      rfl
    · -- the buffer is copied whole, and the rest goes where it ends
      have hle : h.size ≤ dst.size := by omega
      have hmin : min dst.size h.size = h.size := by omega
      simp only [hmin, if_neg (Nat.lt_irrefl h.size)]
      rw [List.take_append, Contents.length_read, List.take_of_length_le (by simpa using hle),
        ← write_bind_write, Contents.length_read, Option.map_bind]
      refine Option.bind_congr fun out' hout' => ?_
      have hlen := length_of_write hout'
      rw [Function.comp_apply]
      have htotal : min dst.size (data.read a h.size ++ m.bytes data l).length =
          h.size + min (dst.size - h.size) (m.bytes data l).length := by
        rw [List.length_append, Contents.length_read]
        omega
      by_cases hfull : dst.size - h.size = 0
      · rw [if_pos (by simp [ByteSpan.empty, ByteSpan.subspan, hfull]), hfull, List.take_zero,
          write_nil (by omega), htotal, hfull]
        simp
      · rw [if_neg (by simp [ByteSpan.empty, ByteSpan.subspan, hfull]),
          ih hwalk he hrest hfuel (by simp only [ByteSpan.subspan]; omega), htotal]
        simp only [ByteSpan.subspan, Nat.add_assoc]

end Mem

end

/-! ### Sequences -/

/-- The readable bytes of the blocks `l`, one after the other. -/
def Lists.bytes (a : Lists) (data : Contents) (l : List Nat) : List UInt8 :=
  l.flatMap fun n => data.read (.node n) ((a.view n).elim 0 Prod.fst)

section

variable {σ : Pool} {a : Lists} {data : Contents} {fuel s t param : Nat} {l m : List Nat}
  {dst : ByteSpan} {out : List UInt8}

theorem Lists.bytes_append : a.bytes data (l ++ m) = a.bytes data l ++ a.bytes data m :=
  List.flatMap_append

/-- A block has the same size in the memory and in the lists. -/
theorem Rep.bytes_eq (h : Rep σ a) : σ.mem.bytes data (l.map Addr.node) = a.bytes data l := by
  rw [Mem.bytes, Lists.bytes, List.flatMap_map]
  congr 1
  funext n
  rw [← h.view, Mem.view, Mem.size]
  cases σ.mem (.node n) <;> rfl

/-- The iterators of a sequence visit its blocks. -/
theorem Rep.walk (h : Rep σ a) (hs : a.seqs s = some l) :
    Walk σ.mem.next (seqOf s l).beginIter (l.map Addr.node) (some (.sentry s)) :=
  (h.represents hs).forward

theorem Rep.live_of_mem_map (h : Rep σ a) (hs : a.seqs s = some l) :
    ∀ c ∈ l.map Addr.node, (σ.mem c).isSome := by
  intro c hc
  obtain ⟨n, hn, rfl⟩ := List.mem_map.mp hc
  exact h.live_of_mem hs hn

theorem Rep.bufferSize_eq (h : Rep σ a) (hs : a.seqs s = some l) (data : Contents)
    (hfuel : l.length < fuel) :
    σ.mem.bufferSize fuel (seqOf s l) = some (a.bytes data l).length := by
  rw [← h.bytes_eq, ← Nat.zero_add (σ.mem.bytes data (l.map Addr.node)).length]
  exact Mem.bufferSizeLoop_eq (h.walk hs) (sentry_notMem_map s l) (h.live_of_mem_map hs)
    (by simpa using hfuel)

theorem Rep.bufferCopy_eq (h : Rep σ a) (hs : a.seqs s = some l) (hfuel : l.length < fuel)
    (hdst : dst.data + dst.size ≤ out.length) :
    σ.mem.bufferCopy data fuel dst out (seqOf s l) =
      (write out dst.data ((a.bytes data l).take dst.size)).map fun out' =>
        (min dst.size (a.bytes data l).length, out') := by
  rw [← h.bytes_eq, ← Nat.zero_add (min dst.size _)]
  exact Mem.bufferCopyLoop_eq (h.walk hs) (sentry_notMem_map s l) (h.live_of_mem_map hs)
    (by simpa using hfuel) hdst

/-- **The bytes of a sequence** are those of its blocks: the size that is asked for first is the
size of what is copied then. -/
theorem Rep.toBytes_eq (h : Rep σ a) (hs : a.seqs s = some l) (hfuel : l.length < fuel) :
    σ.mem.toBytes data fuel (seqOf s l) = some (a.bytes data l) := by
  rw [Mem.toBytes, h.bufferSize_eq hs data hfuel]
  simp only [Option.bind_eq_bind, Option.bind_some]
  rw [h.bufferCopy_eq hs hfuel (by simp), List.take_of_length_le (by simp),
    write_all (by simp)]
  rfl

theorem Rep.toString_eq (h : Rep σ a) (hs : a.seqs s = some l) (hfuel : l.length < fuel) :
    σ.mem.toString data fuel (seqOf s l) = some (a.bytes data l) :=
  h.toBytes_eq hs hfuel

/-- **The bytes of a concatenation** are those of the two sequences. What is concatenated onto
itself has been emptied by then. -/
theorem Rep.toBytes_concat (h : Rep σ a) (hs : a.seqs s = some l) (ht : a.seqs t = some m)
    (hp : a.seqs param = none) (hfuel : l.length + m.length < fuel) :
    ∃ σ' q, σ.step fuel (.concat s t param) = some σ' ∧ σ'.seqs s = some q ∧
      σ'.mem.toBytes data fuel q =
        some ((if s = t then [] else a.bytes data l) ++ a.bytes data m) := by
  obtain ⟨σ', hσ', h'⟩ := rep_concat h hs ht hp (by omega : 1 ≤ fuel)
  by_cases hst : s = t
  · obtain rfl : l = m := Option.some.inj (hs.symm.trans (hst ▸ ht))
    rw [if_pos hst] at h' ⊢
    refine ⟨σ', seqOf s l, hσ', by rw [h'.seqs, hs]; rfl, ?_⟩
    exact h'.toBytes_eq hs (by omega)
  · rw [if_neg hst] at h' ⊢
    have hs' : ((a.setSeq s (l ++ m)).setSeq t []).seqs s = some (l ++ m) := by
      simp [Lists.setSeq, hst]
    refine ⟨σ', seqOf s (l ++ m), hσ', by rw [h'.seqs, hs']; rfl, ?_⟩
    rw [h'.toBytes_eq hs' (by simpa using hfuel), ← Lists.bytes_append]
    rfl

end

/-- **Copying out of a sequence is exact**: whatever a program has made of its sequences, and
whatever they hold, a copy from one of them writes a prefix of its bytes, as long as the span has
room for, and nothing else; `to_string` and `to_bytes` give all of them, and after a concatenation
they give those of the two sequences. -/
theorem bufferCopy_exact (ops : List BufferOp) (a : Lists)
    (hrun : run Lists.step Lists.init ops = some a) (s t : Nat) (l m : List Nat)
    (hs : a.seqs s = some l) (ht : a.seqs t = some m) :
    ∃ N, ∀ fuel, N ≤ fuel → ∃ σ q, run (Pool.step fuel) Pool.init ops = some σ ∧
      σ.seqs s = some q ∧ ∀ data : Contents,
        (∀ (dst : ByteSpan) (out : List UInt8), dst.data + dst.size ≤ out.length →
          σ.mem.bufferCopy data fuel dst out q =
            some (min dst.size (a.bytes data l).length,
              out.take dst.data ++ (a.bytes data l).take dst.size ++
                out.drop (dst.data + min dst.size (a.bytes data l).length))) ∧
        σ.mem.toString data fuel q = some (a.bytes data l) ∧
        σ.mem.toBytes data fuel q = some (a.bytes data l) ∧
        ∀ param, a.seqs param = none →
          ∃ σ' q', σ.step fuel (.concat s t param) = some σ' ∧ σ'.seqs s = some q' ∧
            σ'.mem.toBytes data fuel q' =
              some ((if s = t then [] else a.bytes data l) ++ a.bytes data m) := by
  obtain ⟨N, hN⟩ := run_simulation Pool.step (R := Rep) (fun _ _ _ => rep_step) hrun
  refine ⟨max N (l.length + m.length + 1), fun fuel hfuel => ?_⟩
  obtain ⟨σ, hσ, h⟩ := hN fuel (by omega) Pool.init rep_init
  refine ⟨σ, seqOf s l, hσ, by rw [h.seqs, hs]; rfl, fun data => ⟨fun dst out hdst => ?_,
    h.toString_eq hs (by omega), h.toBytes_eq hs (by omega),
    fun param hp => h.toBytes_concat hs ht hp (by omega)⟩⟩
  rw [h.bufferCopy_eq hs (by omega) hdst, write_of_le, List.length_take]
  · rfl
  · rw [List.length_take]
    omega

/-- A sequence of a buffer of two bytes, an empty one and one of three bytes is copied to four
places in the middle of an array of six. -/
theorem bufferCopy_exact_sample :
    ∃ N, ∀ fuel, N ≤ fuel → ∃ σ q, run (Pool.step fuel) Pool.init
        [.newSequence 0, .newBuffer 0 10 64, .setLen 10 2, .pushBack 0 0, .newBuffer 1 11 64,
          .pushBack 0 1, .newBuffer 2 12 64, .setLen 12 3, .pushBack 0 2] = some σ ∧
      σ.seqs 0 = some q ∧
      σ.mem.bufferCopy (fun _ i => i.toUInt8) fuel ⟨1, 4⟩ [9, 9, 9, 9, 9, 9] q =
        some (4, [9, 0, 1, 0, 1, 9]) ∧
      σ.mem.toBytes (fun _ i => i.toUInt8) fuel q = some [0, 1, 0, 1, 2] := by
  obtain ⟨N, hN⟩ := bufferCopy_exact
    [.newSequence 0, .newBuffer 0 10 64, .setLen 10 2, .pushBack 0 0, .newBuffer 1 11 64,
      .pushBack 0 1, .newBuffer 2 12 64, .setLen 12 3, .pushBack 0 2] _ rfl 0 0 [10, 11, 12]
    [10, 11, 12] rfl rfl
  refine ⟨N, fun fuel hfuel => ?_⟩
  obtain ⟨σ, q, hσ, hq, hdata⟩ := hN fuel hfuel
  obtain ⟨hcopy, -, hbytes, -⟩ := hdata fun _ i => i.toUInt8
  exact ⟨σ, q, hσ, hq, hcopy ⟨1, 4⟩ [9, 9, 9, 9, 9, 9] (by decide), hbytes⟩

end Fiona
