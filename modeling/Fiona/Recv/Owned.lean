import Fiona.Recv.BufRing
import Mathlib.Data.Int.ModEq
import Mathlib.Tactic.Ring

/-!
# Who owns the memory of a buffer ring

The ids of a group are split between the stack and the kernel (`Stock.Split`): this and
what the slots hold on either side is `Fiona.BufRing.Owned`, and this file shows that
every operation on the ring keeps it.

An operation that publishes goes through states in which entries have been added and
the tail has not moved. They count as handed out already: `Owned r out` is said of the
list `out` of entries that are published *or* added, and the operations are followed
with the entries added so far at the end of that list.
-/

namespace Fiona

open Stock

namespace BufRing

variable {r r' : BufRing} {b buf : RecvBuffer} {out : List BufEntry} {id k len n : Nat}

/-! ### The stack of ids -/

theorem free_pushId (id : Nat) (hpos : r.bufIdPos < r.bufIds.length) :
    r.pushId id = some { r with bufIds := r.bufIds.set r.bufIdPos id, bufIdPos := r.bufIdPos + 1 } ∧
      BufRing.free { r with bufIds := r.bufIds.set r.bufIdPos id, bufIdPos := r.bufIdPos + 1 } =
        r.free ++ [id] := by
  refine ⟨if_pos hpos, ?_⟩
  simp [free, List.take_add_one, List.take_set_of_le, hpos]

theorem popId_eq (hpos : r.bufIdPos ≠ 0) (hle : r.bufIdPos ≤ r.bufIds.length) :
    ∃ id, r.popId = some (id, { r with bufIdPos := r.bufIdPos - 1 }) ∧
      r.free = BufRing.free { r with bufIdPos := r.bufIdPos - 1 } ++ [id] := by
  obtain ⟨p, hp⟩ := Nat.exists_eq_succ_of_ne_zero hpos
  have hlt : p < r.bufIds.length := by omega
  refine ⟨r.bufIds[p], ?_, ?_⟩
  · rw [popId, if_neg hpos, hp, Nat.succ_sub_one, List.getElem?_eq_getElem hlt]
    rfl
  · rw [free, free, hp, Nat.succ_eq_add_one, List.take_add_one, List.getElem?_eq_getElem hlt]
    rfl

theorem free_length (hle : r.bufIdPos ≤ r.bufIds.length) : r.free.length = r.bufIdPos := by
  simp [free, hle]

/-! ### Adding and reading back -/

/-- Different offsets within the ring are different slots. -/
theorem slotAt_injOn (hk : r.numBufs = 2 ^ k) {i j : Nat} (hi : i < r.numBufs) (hj : j < r.numBufs)
    (h : r.slotAt i = r.slotAt j) : i = j := by
  rw [slotAt, slotAt, hk, Nat.and_two_pow_sub_one_eq_mod, Nat.and_two_pow_sub_one_eq_mod] at h
  have hmod : i ≡ j [MOD 2 ^ k] := Nat.ModEq.add_left_cancel' r.tail h
  rw [hk] at hi hj
  exact Nat.ModEq.eq_of_lt_of_lt hmod hi hj

/-- **What is added is read back**: an entry added after `len` others is the last of
`len + 1`, and the others are still there. -/
theorem reading_add (hk : r.numBufs = 2 ^ k) (hlen : len < r.numBufs) :
    (r.add b id len).reading (len + 1) = r.reading len ++ [entry b id] := by
  have hslot : ∀ j, (r.add b id len).slotAt j = r.slotAt j := fun _ => rfl
  rw [reading, List.range_succ, List.map_append, reading]
  congr 1
  · refine List.map_congr_left fun j hj => ?_
    have hjlen := List.mem_range.mp hj
    rw [hslot]
    refine Function.update_of_ne (fun hc => ?_) ..
    have := slotAt_injOn hk (by omega) hlen hc
    omega
  · rw [List.map_singleton, hslot]
    exact congrArg (fun e => [e]) (Function.update_self ..)

@[simp] theorem reading_zero : r.reading 0 = [] := rfl

/-! ### The invariant -/

/-- **The ids of a group are split between the stack and the entries `out`**; a slot
whose id is on the stack has no memory, and a slot whose id is out owns the memory
that its entry names. -/
structure Owned (r : BufRing) (out : List BufEntry) : Prop where
  size : ∃ k < 16, r.numBufs = 2 ^ k
  ids : r.bufIds.length = r.numBufs
  pos : r.bufIdPos ≤ r.numBufs
  bufSize : 0 < r.bufSize
  tail : r.tail < 2 ^ 16
  split : Split r.numBufs r.free (out.map BufEntry.bid)
  empty : ∀ id ∈ r.free, ∃ b, r.bufs[id]? = some b ∧ b.capacity = 0
  owns : ∀ e ∈ out, ∃ b, r.bufs[e.bid]? = some b ∧ 0 < b.capacity ∧ b.data = e.addr ∧
    b.capacity % 2 ^ 32 = e.len

section

variable (h : Owned r out)

include h

theorem Owned.id_lt (hid : id ∈ r.free) : id < 2 ^ 16 := by
  obtain ⟨k, hk, hn⟩ := h.size
  have hlt := h.split.lt_of_mem_stock hid
  have hpow : 2 ^ k ≤ 2 ^ 15 := Nat.pow_le_pow_right (by omega) (by omega)
  omega

/-- **The kernel consumes an id and the program takes its buffer**: the id goes from
the ring to the stack. -/
theorem Owned.takeBuf (group size : Nat) (hid : id ∈ out.map BufEntry.bid) :
    ∃ buf r', r.takeBuf group id size = some (buf, r') ∧ buf.size = size ∧ buf.group = some group ∧
      r'.free = r.free ++ [id] ∧ r'.published = r.published ∧ r'.bufSize = r.bufSize ∧
      Owned r' (out.eraseP fun e => e.bid = id) := by
  obtain ⟨e, he, rfl⟩ := List.mem_map.mp hid
  obtain ⟨b, hb, hcap, -⟩ := h.owns e he
  have hlt : e.bid < r.numBufs := h.split.lt_of_mem_out hid
  have hout : (out.eraseP fun e' => e'.bid = e.bid).map BufEntry.bid =
      (out.map BufEntry.bid).erase e.bid := by
    rw [List.erase_eq_eraseP', List.eraseP_map]
    rfl
  have hpos : r.bufIdPos < r.bufIds.length := by
    have hle : r.bufIdPos ≤ r.bufIds.length := h.ids ▸ h.pos
    have hsum := h.split.length_add
    have hout := List.length_pos_of_mem hid
    rw [free_length hle] at hsum
    rw [h.ids]
    omega
  obtain ⟨hpush, hfree⟩ := free_pushId (r := r.setBuf e.bid .defaulted) e.bid hpos
  refine ⟨b.setLen size group, _, ?_, rfl, rfl, hfree, rfl, rfl, ?_⟩
  · rw [BufRing.takeBuf, getBuf, hb]
    simp only [Option.bind_eq_bind, Option.bind_some, hcap, if_true, hpush]
  · refine ⟨?_, ?_, ?_, h.bufSize, h.tail, ?_, ?_, ?_⟩
    · simpa [numBufs, setBuf] using h.size
    · simpa [numBufs, setBuf] using h.ids
    · rw [h.ids] at hpos
      simpa [numBufs, setBuf] using Nat.succ_le_of_lt hpos
    · have hsplit := h.split.back hid
      rw [← hout] at hsplit
      rw [hfree, numBufs, setBuf, List.length_set]
      exact hsplit
    · intro id' hid'
      rw [hfree] at hid'
      rcases eq_or_ne id' e.bid with rfl | hne
      · exact ⟨.defaulted, List.getElem?_set_self hlt, rfl⟩
      · have hmem : id' ∈ r.free :=
          (List.mem_append.mp hid').resolve_right fun hc => hne (List.mem_singleton.mp hc)
        obtain ⟨b', hb', hcap'⟩ := h.empty id' hmem
        exact ⟨b', by simpa [setBuf, hne.symm] using hb', hcap'⟩
    · intro e' he'
      have hne : e'.bid ≠ e.bid := by
        have hmem : e'.bid ∈ (out.map BufEntry.bid).erase e.bid := by
          rw [← hout]
          exact List.mem_map_of_mem he'
        exact (h.split.nodup_out.mem_erase_iff.mp hmem).1
      obtain ⟨b', hb', hrest⟩ := h.owns e' (List.mem_of_mem_eraseP he')
      exact ⟨b', by simpa [setBuf, hne.symm] using hb', hrest⟩

/-- **A slot gets new memory and its entry is added**: the last id of the stack goes to
the entries handed out. -/
theorem Owned.fill (hpos : r.bufIdPos ≠ 0) :
    ∃ id, r.popId = some (id, { r with bufIdPos := r.bufIdPos - 1 }) ∧
      r.free = BufRing.free { r with bufIdPos := r.bufIdPos - 1 } ++ [id] ∧
      (∃ b, r.bufs[id]? = some b ∧ b.capacity = 0) ∧ out.length < r.numBufs ∧
      ∀ buf, 0 < buf.capacity → ∀ slots,
        Owned { r with
          bufs := r.bufs.set id buf
          bufIdPos := r.bufIdPos - 1
          slots := slots } (out ++ [entry buf id]) := by
  obtain ⟨id, hpop, hfree⟩ := popId_eq hpos (h.ids ▸ h.pos)
  have hid : id ∈ r.free := by
    rw [hfree]
    simp
  obtain ⟨b, hb, hcap⟩ := h.empty id hid
  have hlt := h.split.lt_of_mem_stock hid
  have hbid : id % 2 ^ 16 = id := Nat.mod_eq_of_lt (h.id_lt hid)
  refine ⟨id, hpop, hfree, ⟨b, hb, hcap⟩, by simpa using h.split.length_out_lt hid, ?_⟩
  intro buf hbuf slots
  refine ⟨?_, ?_, ?_, h.bufSize, h.tail, ?_, ?_, ?_⟩
  · simpa [numBufs] using h.size
  · simpa [numBufs] using h.ids
  · have hp : r.bufIdPos - 1 ≤ r.numBufs := le_trans (Nat.sub_le _ _) h.pos
    simpa [numBufs] using hp
  · have hsplit := h.split
    rw [hfree] at hsplit
    have hhand := hsplit.hand
    rw [numBufs, List.length_set, List.map_append, List.map_singleton, entry, hbid]
    exact hhand
  · intro id' hid'
    have hsplit := h.split.nodup_stock
    rw [hfree, List.nodup_append] at hsplit
    have hne : id' ≠ id := hsplit.2.2 id' hid' id (by simp)
    obtain ⟨b', hb', hcap'⟩ := h.empty id' (by rw [hfree]; exact List.mem_append_left _ hid')
    exact ⟨b', by simpa [hne.symm] using hb', hcap'⟩
  · intro e he
    rcases List.mem_append.mp he with he | he
    · have hne : e.bid ≠ id := fun hc =>
        h.split.notMem_out hid (hc ▸ List.mem_map_of_mem he)
      obtain ⟨b', hb', hrest⟩ := h.owns e he
      exact ⟨b', by simpa [hne.symm] using hb', hrest⟩
    · obtain rfl := List.mem_singleton.mp he
      refine ⟨buf, ?_, hbuf, rfl, rfl⟩
      rw [entry, hbid]
      exact List.getElem?_set_self hlt

end

/-- The kernel sees the entries that were added. -/
theorem Owned.advance (h : Owned r (r.published ++ r.reading n)) :
    Owned (r.advance n) (r.advance n).published where
  size := h.size
  ids := h.ids
  pos := h.pos
  bufSize := h.bufSize
  tail := Nat.mod_lt _ (by decide)
  split := h.split
  empty := h.empty
  owns := h.owns

/-! ### The operations -/

theorem Owned.recycleBuffer (h : Owned r r.published) (hbuf : 0 < buf.capacity) :
    ∃ r', r.recycleBuffer buf = some r' ∧ r'.free = r.free.dropLast ∧ Owned r' r'.published := by
  by_cases hpos : r.bufIdPos = 0
  · refine ⟨r, if_pos hpos, ?_, h⟩
    simp [BufRing.free, hpos]
  · obtain ⟨k, -, hk⟩ := h.size
    obtain ⟨id, hpop, hfree, ⟨b, hb, hcap⟩, hlen, hfill⟩ := h.fill hpos
    obtain ⟨r₁, hr₁⟩ : ∃ r₁ : BufRing, r₁ = { r with bufIdPos := r.bufIdPos - 1 } := ⟨_, rfl⟩
    refine ⟨((r₁.add buf id 0).advance 1).setBuf id buf, ?_, ?_, ?_⟩
    · rw [BufRing.recycleBuffer, if_neg hpos, hpop]
      simp only [Option.bind_eq_bind, Option.bind_some, getBuf, hb, hcap, hbuf, and_self, if_true,
        hr₁]
    · rw [hfree, List.dropLast_concat, hr₁]
      rfl
    · have hread : (r₁.add buf id 0).reading 1 = [entry buf id] :=
        reading_add (by rw [hr₁]; exact hk) (by rw [hr₁]; exact Nat.zero_lt_of_lt hlen)
      subst hr₁
      have howned := hfill buf hbuf
        (BufRing.add { r with bufIdPos := r.bufIdPos - 1 } buf id 0).slots
      rw [← hread] at howned
      exact ⟨howned.size, howned.ids, howned.pos, howned.bufSize, Nat.mod_lt _ (by decide),
        howned.split, howned.empty, howned.owns⟩

/-- **The refilling loop** takes one id off the stack for each received buffer, up to
the first empty one and as long as there are ids, and adds one entry for each. -/
theorem Owned.replenish (alloc : Nat → Nat) (bs : List RecvBuffer)
    (h : Owned r (r.published ++ r.reading len)) :
    ∃ len' r', r.replenish alloc bs len = some (len', r') ∧ len ≤ len' ∧
      r'.bufIdPos = r.bufIdPos - (bs.takeWhile fun b => !b.empty).length ∧
      Owned r' (r'.published ++ r'.reading len') := by
  induction bs generalizing r len with
  | nil => exact ⟨len, r, rfl, le_refl _, rfl, h⟩
  | cons buffer bs ih =>
    by_cases hempty : buffer.empty
    · exact ⟨len, r, by rw [BufRing.replenish, if_pos hempty], le_refl _, by simp [hempty], h⟩
    · by_cases hpos : r.bufIdPos = 0
      · exact ⟨len, r, by rw [BufRing.replenish, if_neg hempty, if_pos hpos], le_refl _,
          by simp [hpos], h⟩
      · obtain ⟨k, -, hk⟩ := h.size
        obtain ⟨id, hpop, -, ⟨b, hb, hcap⟩, hlen, hfill⟩ := h.fill hpos
        have hlen : len < r.numBufs := by
          have hread : (r.reading len).length = len := by simp [reading]
          rw [List.length_append] at hlen
          omega
        obtain ⟨new, hnew⟩ : ∃ new, new = RecvBuffer.alloc (alloc len) r.bufSize := ⟨_, rfl⟩
        obtain ⟨r₁, hr₁⟩ : ∃ r₁, r₁ = BufRing.setBuf { r with bufIdPos := r.bufIdPos - 1 } id new :=
          ⟨_, rfl⟩
        have hnum : r₁.numBufs = r.numBufs := by simp [hr₁, numBufs, setBuf]
        have hread : (r₁.add new id len).reading (len + 1) = r.reading len ++ [entry new id] := by
          have hslots : ∀ j, r₁.slots (r₁.slotAt j) = r.slots (r.slotAt j) := by
            intro j
            rw [slotAt, hnum, slotAt, hr₁]
            rfl
          rw [reading_add (hnum.trans hk) (hnum ▸ hlen), reading]
          simp only [hslots]
          rfl
        have howned : Owned (r₁.add new id len)
            ((r₁.add new id len).published ++ (r₁.add new id len).reading (len + 1)) := by
          rw [hread, ← List.append_assoc]
          have := hfill new (by rw [hnew]; exact h.bufSize) (r₁.add new id len).slots
          subst hr₁
          exact this
        obtain ⟨len', r', hrep, hle, hpos', h'⟩ := ih howned
        refine ⟨len', r', ?_, Nat.le_of_succ_le hle, ?_, h'⟩
        · rw [BufRing.replenish, if_neg hempty, if_neg hpos, hpop]
          simp only [Option.bind_eq_bind, Option.bind_some, getBuf, hb, hcap, h.bufSize, and_self,
            if_true, ← hnew, ← hr₁, hrep]
        · have hdown : (r₁.add new id len).bufIdPos = r.bufIdPos - 1 := by
            rw [hr₁]
            rfl
          rw [hpos', hdown, List.takeWhile_cons_of_pos (by simpa using hempty), List.length_cons]
          omega

/-- **Refilling the ring** for a list of received buffers. -/
theorem Owned.refill (alloc : Nat → Nat) (bs : List RecvBuffer) (h : Owned r r.published) :
    ∃ r', r.refill alloc bs = some r' ∧
      r'.bufIdPos = r.bufIdPos - (bs.takeWhile fun b => !b.empty).length ∧
      Owned r' r'.published := by
  have h₀ : Owned r (r.published ++ r.reading 0) := by simpa using h
  obtain ⟨len, r', hrep, -, hpos, h'⟩ := h₀.replenish alloc bs
  rcases Nat.eq_zero_or_pos len with rfl | hlen
  · refine ⟨r', ?_, hpos, by simpa using h'⟩
    rw [BufRing.refill, hrep]
    rfl
  · refine ⟨r'.advance len, ?_, hpos, h'.advance⟩
    rw [BufRing.refill, hrep]
    exact if_pos hlen

/-! ### A new ring -/

theorem reading_addAll (bs : List RecvBuffer) (hk : r.numBufs = 2 ^ k)
    (hlen : n + bs.length ≤ r.numBufs) :
    (r.addAll bs n).reading (n + bs.length) =
      r.reading n ++ (bs.zipIdx n).map fun p => entry p.1 p.2 := by
  induction bs generalizing r n with
  | nil => simp [addAll]
  | cons b bs ih =>
    rw [List.length_cons] at hlen ⊢
    have hn : n + (bs.length + 1) = n + 1 + bs.length := by omega
    have hrest := ih (r := r.add b n n) (n := n + 1) hk (hn ▸ hlen)
    rw [addAll, hn, hrest, reading_add hk (by omega)]
    simp

/-- Adding entries changes the slots of the ring only. -/
theorem addAll_eq (bs : List RecvBuffer) : ∃ slots, r.addAll bs n = { r with slots := slots } := by
  induction bs generalizing r n with
  | nil => exact ⟨_, rfl⟩
  | cons b bs ih =>
    obtain ⟨slots, h⟩ := ih (r := r.add b n n) (n := n + 1)
    exact ⟨slots, h⟩

/-- **A registered group**: every id is published, and each slot owns the memory it was
published with. -/
theorem new_owned {numBufs bufSize : Nat} {alloc : Nat → Nat}
    (h : BufRing.new numBufs bufSize alloc = some r) :
    Owned r r.published ∧ r.bufIdPos = 0 := by
  rw [BufRing.new] at h
  split_ifs at h with hk hsize
  obtain ⟨k, hk16, hk⟩ := hk
  obtain ⟨bufs, hbufs⟩ : ∃ bufs, bufs =
      (List.range numBufs).map fun i => RecvBuffer.alloc (alloc i) bufSize := ⟨_, rfl⟩
  have hlen : bufs.length = numBufs := by simp [hbufs]
  obtain ⟨r₀, hr₀⟩ : ∃ r₀ : BufRing, r₀ = {
    bufs := bufs
    bufIds := List.replicate numBufs 0
    bufIdPos := 0
    bufSize := bufSize
    slots := fun _ => ⟨none, 0, 0⟩
    tail := 0
    published := [] } := ⟨_, rfl⟩
  have hr : (r₀.addAll bufs 0).advance numBufs = r := by
    rw [hr₀, hbufs]
    exact Option.some.inj h
  have hr₀bufs : r₀.bufs = bufs := by rw [hr₀]
  have hnum : r₀.numBufs = numBufs := by rw [BufRing.numBufs, hr₀bufs, hlen]
  have hread : (r₀.addAll bufs 0).reading numBufs =
      (List.range numBufs).map fun i => entry (RecvBuffer.alloc (alloc i) bufSize) i := by
    have hall := reading_addAll (r := r₀) (n := 0) bufs (hnum.trans hk) (by omega)
    rw [Nat.zero_add, hlen] at hall
    rw [hall, reading_zero, List.nil_append]
    refine List.ext_getElem? fun i => ?_
    by_cases hi : i < numBufs
    · simp [hbufs, hi]
    · simp [hbufs, hi]
  obtain ⟨slots, hadd⟩ := addAll_eq (r := r₀) (n := 0) bufs
  have hpub : r.published =
      (List.range numBufs).map fun i => entry (RecvBuffer.alloc (alloc i) bufSize) i := by
    have : r.published = r₀.published ++ (r₀.addAll bufs 0).reading numBufs := by
      rw [← hr, hadd]
      rfl
    rw [this, hread, hr₀]
    rfl
  have hpow : 2 ^ k ≤ 2 ^ 15 := Nat.pow_le_pow_right (by omega) (by omega)
  have hbids : r.published.map BufEntry.bid = List.range numBufs := by
    rw [hpub, List.map_map]
    refine List.ext_getElem? fun i => ?_
    by_cases hi : i < numBufs
    · have hmod : i % 65536 = i := Nat.mod_eq_of_lt (by omega)
      simp [entry, hi, hmod]
    · simp [hi]
  have hrbufs : r.bufs = bufs := by
    rw [← hr, hadd, hr₀]
    rfl
  have hfree : r.free = [] := by
    rw [← hr, hadd, hr₀]
    rfl
  have hrnum : r.numBufs = numBufs := by rw [BufRing.numBufs, hrbufs, hlen]
  refine ⟨⟨⟨k, hk16, hrnum.trans hk⟩, ?_, ?_, ?_, ?_, ?_, ?_, ?_⟩, ?_⟩
  · rw [hrnum, ← hr, hadd, hr₀]
    exact List.length_replicate
  · rw [← hr, hadd, hr₀]
    exact Nat.zero_le _
  · rw [← hr, hadd, hr₀]
    exact Nat.pos_of_ne_zero hsize
  · rw [← hr]
    exact Nat.mod_lt _ (by decide)
  · rw [hfree, hbids, hrnum]
    exact split_range numBufs
  · simp [hfree]
  · intro e he
    rw [hpub] at he
    obtain ⟨i, hi, rfl⟩ := List.mem_map.mp he
    have hi := List.mem_range.mp hi
    have hmod : i % 2 ^ 16 = i := Nat.mod_eq_of_lt (by omega)
    refine ⟨RecvBuffer.alloc (alloc i) bufSize, ?_, Nat.pos_of_ne_zero hsize, rfl, rfl⟩
    rw [entry, hmod, hrbufs, hbufs]
    simp [hi]
  · rw [← hr, hadd, hr₀]
    rfl

end BufRing

end Fiona
