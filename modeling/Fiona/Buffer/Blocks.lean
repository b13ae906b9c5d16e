import Fiona.Buffer.Lists

/-!
# The operations that allocate, free and drop

What is left of the interface besides the relinking operations: `free_list`, which
walks a sequence and deallocates each block behind it, the ways a `recv_buffer` gets
and loses its block, and the construction and destruction of a sequence object. None of
them changes a link of a block that stays allocated.
-/

namespace Fiona

open Ownership Threaded Transition

variable {σ : Pool} {a : Lists} {s t b c n fuel : Nat} {l m : List Nat} {x y : Option Nat}

/-! ### Freeing a list -/

/-- The blocks `l` are given back. -/
def Pool.freed (σ : Pool) (l : List Nat) : Pool :=
  { σ with
    mem := fun c => if c ∈ l.map Addr.node then none else σ.mem c
    frees := fun n => if n ∈ l then σ.frees n + 1 else σ.frees n }

theorem Pool.alignedDelete_eq (hn : (σ.mem (.node n)).isSome) :
    σ.alignedDelete (.node n) = some (σ.freed [n]) := by
  have hmem : Function.update σ.mem (.node n) none =
      fun c => if c ∈ [n].map Addr.node then none else σ.mem c := by
    funext c
    simp [Function.update_apply]
  have hfrees : Function.update σ.frees n (σ.frees n + 1) =
      fun k => if k ∈ [n] then σ.frees k + 1 else σ.frees k := by
    funext k
    rcases eq_or_ne k n with rfl | hne
    · simp
    · simp [hne]
  simp [Pool.alignedDelete, hn, Pool.freed, hmem, hfrees]

theorem Pool.freed_cons (hn : n ∉ l) : (σ.freed [n]).freed l = σ.freed (n :: l) := by
  have hmem : ((σ.freed [n]).freed l).mem = (σ.freed (n :: l)).mem := by
    funext c
    by_cases hc : c ∈ l.map Addr.node
    · simp only [Pool.freed, List.map_cons, List.mem_cons, hc, or_true, if_true]
    · simp only [Pool.freed, List.map_cons, List.mem_cons, hc, List.map_nil, List.not_mem_nil,
        if_false]
  have hfrees : ((σ.freed [n]).freed l).frees = (σ.freed (n :: l)).frees := by
    funext k
    by_cases hk : k ∈ l
    · have hkn : k ≠ n := fun he => hn (he ▸ hk)
      simp [Pool.freed, hk, hkn]
    · simp [Pool.freed, hk]
  exact congrArg₂ (fun m f => Pool.mk m σ.seqs σ.bufs σ.allocs f) hmem hfrees

theorem next_freed {k : Addr} (hk : k ∉ l.map Addr.node) :
    (σ.freed l).mem.next k = σ.mem.next k := by
  simp only [Pool.freed, Mem.next, if_neg hk]

theorem prev_freed {k : Addr} (hk : k ∉ l.map Addr.node) :
    (σ.freed l).mem.prev k = σ.mem.prev k := by
  simp only [Pool.freed, Mem.prev, if_neg hk]

theorem view_freed :
    (σ.freed l).mem.view (.node n) = if n ∈ l then none else σ.mem.view (.node n) := by
  by_cases hn : n ∈ l
  · simp [Pool.freed, Mem.view, hn]
  · simp [Pool.freed, Mem.view, hn]

/-- **`free_list` frees the blocks of the list**, each once, and stops at the sentry:
the link of a block is read before the block is freed. -/
theorem freeLoop_eq {e : Addr} {p : Ptr} (hw : Walk σ.mem.next p (l.map Addr.node) (some e))
    (he : e ∉ l.map Addr.node) (hnd : l.Nodup) (hlive : ∀ k ∈ l, (σ.mem (.node k)).isSome)
    (hfuel : l.length < fuel) : Pool.freeLoop e fuel σ p = some (σ.freed l) := by
  induction l generalizing σ p fuel with
  | nil =>
    obtain ⟨fuel, rfl⟩ := Nat.exists_eq_add_one_of_ne_zero (Nat.ne_of_gt hfuel)
    have hp : p = some e := hw
    simp [Pool.freeLoop, hp, Pool.freed]
  | cons n l ih =>
    obtain ⟨fuel, rfl⟩ := Nat.exists_eq_add_one_of_ne_zero (Nat.ne_of_gt (Nat.zero_lt_of_lt hfuel))
    obtain ⟨rfl, hw'⟩ := walk_cons.mp hw
    obtain ⟨hnl, hnd⟩ := List.nodup_cons.mp hnd
    have hn := hlive n (List.mem_cons_self ..)
    have hne : some (Addr.node n) ≠ some e := by
      intro hc
      exact he (by simp [← Option.some.inj hc])
    have hout : ∀ k ∈ l, Addr.node k ∉ [n].map Addr.node := by
      intro k hk hc
      have hkn : k = n := by simpa using hc
      exact hnl (hkn ▸ hk)
    have hrest : Pool.freeLoop e fuel (σ.freed [n]) (σ.mem.next (.node n)) =
        some ((σ.freed [n]).freed l) := by
      refine ih ?_ ?_ hnd ?_ ?_
      · refine hw'.congr fun c hc => ?_
        obtain ⟨k, hk, rfl⟩ := List.mem_map.mp hc
        exact next_freed (hout k hk)
      · exact fun hc => he (List.mem_cons_of_mem _ hc)
      · intro k hk
        simp only [Pool.freed, if_neg (hout k hk)]
        exact hlive k (List.mem_cons_of_mem _ hk)
      · simpa using hfuel
    rw [Pool.freeLoop, if_neg hne, Mem.getNext_some hn]
    simp only [Option.bind_eq_bind, Option.bind_some, Pool.alignedDelete_eq hn, hrest,
      Pool.freed_cons hnl]

theorem Lists.free_nil : a.free [] = a := by
  simp [Lists.free]

theorem Lists.allocated_free : (a.free l).Allocated n ↔ a.Allocated n ∧ n ∉ l := by
  by_cases hn : n ∈ l <;> simp [Lists.Allocated, Lists.free, hn]

/-- What is freed was allocated once more than it was freed before. -/
theorem Rep.balance_free (h : Rep σ a) (hl : ∀ k ∈ l, a.Allocated k) (n : Nat) :
    a.allocs n = (a.free l).frees n + if ((a.free l).view n).isSome then 1 else 0 := by
  by_cases hn : n ∈ l
  · simpa [Lists.free, hn, show (a.view n).isSome from hl n hn] using h.balance n
  · simpa [Lists.free, hn] using h.balance n

theorem rep_freeList (h : Rep σ a) (hs : a.seqs s = some l) (hfuel : l.length < fuel) :
    ∃ σ', σ.freeList fuel s = some σ' ∧ Rep σ' ((a.free l).setSeq s []) := by
  have he := h.live_sentry hs
  have hq : σ.seqs s = some (seqOf s l) := by
    rw [h.seqs s, hs]
    rfl
  rcases eq_or_ne l [] with rfl | hl
  · refine ⟨σ, ?_, ?_⟩
    · rw [Pool.freeList, hq]
      rfl
    · have hsame : (a.free []).setSeq s [] = a := by
        rw [Lists.free_nil, Lists.setSeq, ← hs, Function.update_eq_self]
      rwa [hsame]
  have hth := h.threads s l hs
  have hhead : (seqOf s l).head ≠ none := fun hc => hl (by simpa [seqOf] using hc)
  have hloop : Pool.freeLoop (.sentry s) fuel σ (seqOf s l).head = some (σ.freed l) :=
    freeLoop_eq (hth.forward (by simpa using hl)) (sentry_notMem_map s l) (h.nodup hs)
      (fun k hk => h.live_of_mem hs hk) hfuel
  have he' : ((σ.freed l).mem (.sentry s)).isSome := by
    simpa [Pool.freed] using he
  obtain ⟨m, hm⟩ : ∃ m, m = ((σ.freed l).mem.putNext (.sentry s) none).putPrev (.sentry s) none :=
    ⟨_, rfl⟩
  have hnext : m.next = Function.update (σ.freed l).mem.next (.sentry s) none := by
    rw [hm, Mem.next_putPrev, Mem.next_putNext he']
  have hprev : m.prev = Function.update (σ.freed l).mem.prev (.sentry s) none := by
    rw [hm, Mem.prev_putPrev (by simpa using he'), Mem.prev_putNext]
  refine ⟨{ (σ.freed l).setSeq s (seqOf s []) with mem := m }, ?_, ?_⟩
  · have hempty : seqOf s [] = { seqOf s l with head := none, tail := none, numBufs := 0 } := rfl
    rw [Pool.freeList, hq]
    simp only [Option.bind_eq_bind, Option.bind_some, if_neg hhead, hloop, Pool.setSeq,
      Mem.setNext_some he', Mem.setPrev_some, Mem.isSome_putNext, he', ← hm, hempty]
  · refine ⟨?_, h.bufs, ?_, ?_, ?_, ?_, h.allocs, ?_, ?_, ?_⟩
    · exact map_update h.seqs s (some [])
    · intro s'
      have hsome : (m (.sentry s')).isSome = (σ.mem (.sentry s')).isSome := by
        simp [hm, Pool.freed]
      rcases eq_or_ne s' s with rfl | hne
      · simpa [Lists.setSeq, hsome] using he
      · simpa [Lists.setSeq, Lists.free, hne, hsome] using h.sentry s'
    · intro k
      change m.view (.node k) = _
      rw [hm, Mem.view_putPrev, Mem.view_putNext, view_freed, h.view]
      rfl
    · intro s' l' hs'
      change Threads m.next m.prev _ _ _ _
      rcases eq_or_ne s' s with rfl | hne
      · obtain rfl : [] = l' := by simpa [Lists.setSeq] using hs'
        refine Threads.empty ?_
        rw [hprev, Function.update_self]
      · have hs'' : a.seqs s' = some l' := by simpa [Lists.setSeq, Lists.free, hne] using hs'
        have hout : ∀ c ∈ l'.map Addr.node, c ∉ l.map Addr.node ∧ c ≠ .sentry s := by
          intro c hc
          obtain ⟨k, hk, rfl⟩ := List.mem_map.mp hc
          exact ⟨fun hc => h.disjoint hs hs'' hne hk (node_mem_map.mp hc), by simp⟩
        refine (h.threads s' l' hs'').frame ?_ ?_ ?_
        · intro c hc
          rw [hnext, Function.update_of_ne (hout c hc).2, next_freed (hout c hc).1]
        · intro c hc
          rw [hprev, Function.update_of_ne (hout c hc).2, prev_freed (hout c hc).1]
        · rw [hprev, Function.update_of_ne (by simpa using hne),
            prev_freed (sentry_notMem_map s' l)]
    · intro b k hb
      have hk : Addr.node k ∉ l.map Addr.node := fun hc =>
        h.buf_notMem hb hs (node_mem_map.mp hc)
      change m.prev (.node k) = none
      rw [hprev, Function.update_of_ne (by simp), prev_freed hk]
      exact h.loose b k hb
    · change (fun n => if n ∈ l then σ.frees n + 1 else σ.frees n) = _
      rw [h.frees]
      rfl
    · refine h.owned.release (o := .sequence s) (fun o k => ?_) fun k => ?_
      · rw [Lists.holds_setSeq, Lists.holds_free]
        simp
      · exact Lists.allocated_free.trans (and_congr_right fun _ =>
          not_congr (Lists.holds_sequence hs).symm)
    · exact h.balance_free fun k hk => h.owned.live_of_held (o := .sequence s) ⟨l, hs, hk⟩

/-! ### Blocks of a buffer -/

/-- A buffer without a block is set, or constructed, to hold none. -/
theorem rep_setBuf_none (h : Rep σ a) (hb : ∀ k, a.bufs b ≠ some (some k)) :
    Rep (σ.setBuf b .defaultHeader) (a.setBuf b none) where
  seqs := h.seqs
  bufs := map_update h.bufs b (some none)
  sentry := h.sentry
  view := h.view
  threads := h.threads
  loose := by
    intro b' k hb'
    rcases eq_or_ne b' b with rfl | hne
    · simp [Lists.setBuf] at hb'
    · exact h.loose b' k (by simpa [Lists.setBuf, hne] using hb')
  allocs := h.allocs
  frees := h.frees
  owned := by
    refine h.owned.congr (fun o k => ?_) fun k => Iff.rfl
    rw [Lists.holds_setBuf]
    constructor
    · rintro (⟨-, hk⟩ | ⟨-, hk⟩)
      · exact absurd hk (by simp)
      · exact hk
    · intro hk
      refine Or.inr ⟨?_, hk⟩
      rintro rfl
      exact hb k hk
  balance := h.balance

/-- **A block changes hands** between two buffers. -/
theorem rep_moveBlock (h : Rep σ a) (hb : ∀ k, a.bufs b ≠ some (some k)) (hc : a.bufs c = some y)
    (hne : b ≠ c) :
    Rep ((σ.setBuf b (bufOf y)).setBuf c .defaultHeader) ((a.setBuf b y).setBuf c none) where
  seqs := h.seqs
  bufs := map_update (map_update h.bufs b (some y)) c (some none)
  sentry := h.sentry
  view := h.view
  threads := h.threads
  loose := by
    intro b' k hb'
    rcases eq_or_ne b' c with rfl | hbc
    · simp [Lists.setBuf] at hb'
    · rcases eq_or_ne b' b with rfl | hbb
      · obtain rfl : y = some k := by simpa [Lists.setBuf, hbc] using hb'
        exact h.loose c k hc
      · exact h.loose b' k (by simpa [Lists.setBuf, hbc, hbb] using hb')
  allocs := h.allocs
  frees := h.frees
  owned := by
    refine h.owned.move (fun _ o => some (if o = .buffer c then .buffer b else o)) ?_ ?_
    · intro o k
      rw [Lists.holds_setBuf, Lists.holds_setBuf]
      constructor
      · rintro (⟨-, hk⟩ | ⟨hoc, ⟨rfl, rfl⟩ | ⟨-, hk⟩⟩)
        · exact absurd hk (by simp)
        · exact ⟨.buffer c, hc, by simp⟩
        · exact ⟨o, hk, by simp [hoc]⟩
      · rintro ⟨o₀, hk, ho⟩
        rcases eq_or_ne o₀ (.buffer c) with rfl | hoc
        · obtain rfl : Lists.Owner.buffer b = o := by simpa using ho
          have hy : y = some k := Option.some.inj (hc.symm.trans hk)
          exact Or.inr ⟨by simpa using hne, Or.inl ⟨rfl, hy⟩⟩
        · obtain rfl : o₀ = o := by simpa [hoc] using ho
          refine Or.inr ⟨hoc, Or.inr ⟨?_, hk⟩⟩
          rintro rfl
          exact hb k hk
    · intro k
      exact (h.owned.live_iff k).trans (by simp)
  balance := h.balance

/-- **Deallocating what a buffer holds.** -/
theorem rep_deleteBuffer (h : Rep σ a) (hb : a.bufs b = some x) :
    ∃ σ', σ.deleteBuffer (bufOf x) = some σ' ∧ σ'.bufs = σ.bufs ∧
      Rep (σ'.setBuf b .defaultHeader) ((a.free x.toList).setBuf b none) := by
  cases x with
  | none =>
    refine ⟨σ, rfl, rfl, ?_⟩
    rw [Option.toList_none, Lists.free_nil]
    exact rep_setBuf_none h (by simp [hb])
  | some n =>
    have hn := h.live_of_buf hb
    refine ⟨σ.freed [n], ?_, rfl, ?_⟩
    · rw [bufOf, Pool.deleteBuffer, if_neg (by simp), Pool.alignedDelete_eq hn]
    · refine ⟨h.seqs, map_update h.bufs b (some none), ?_, ?_, ?_, ?_, h.allocs, ?_, ?_, ?_⟩
      · intro s'
        simpa [Pool.setBuf, Pool.freed, Lists.setBuf, Lists.free] using h.sentry s'
      · intro k
        exact view_freed.trans (if_congr Iff.rfl rfl (h.view k))
      · intro s' l' hs'
        have hnl : ∀ c ∈ l'.map Addr.node, c ∉ [n].map Addr.node := by
          intro c hc hcn
          obtain rfl : c = .node n := by simpa using hcn
          exact h.buf_notMem hb hs' (node_mem_map.mp hc)
        refine (h.threads s' l' hs').frame ?_ ?_ ?_
        · exact fun c hc => next_freed (hnl c hc)
        · exact fun c hc => prev_freed (hnl c hc)
        · exact prev_freed (sentry_notMem_map s' [n])
      · intro b' k hb'
        rcases eq_or_ne b' b with rfl | hne
        · simp [Lists.setBuf] at hb'
        · have hb'' : a.bufs b' = some (some k) := by
            simpa [Lists.setBuf, Lists.free, hne] using hb'
          have hk : Addr.node k ∉ [n].map Addr.node := by
            intro hc
            obtain rfl : k = n := by simpa using hc
            exact hne (h.buf_unique hb'' hb)
          exact (prev_freed hk).trans (h.loose b' k hb'')
      · change (fun k => if k ∈ [n] then σ.frees k + 1 else σ.frees k) = _
        rw [h.frees]
        rfl
      · refine h.owned.release (o := .buffer b) (fun o k => ?_) fun k => ?_
        · rw [Lists.holds_setBuf, Lists.holds_free]
          simp
        · refine Lists.allocated_free.trans (and_congr_right fun _ => not_congr ?_)
          simp [Lists.Holds, hb, eq_comm]
      · refine h.balance_free fun k hk => ?_
        obtain rfl : n = k := by simpa [eq_comm] using hk
        exact h.owned.live_of_held (o := .buffer b) hb

/-- A buffer object that holds nothing goes away. -/
theorem rep_dropBuf (h : Rep σ a) (hb : a.bufs b = some none) :
    Rep { σ with bufs := Function.update σ.bufs b none } (a.dropBuf b) where
  seqs := h.seqs
  bufs := map_update h.bufs b none
  sentry := h.sentry
  view := h.view
  threads := h.threads
  loose := by
    intro b' k hb'
    rcases eq_or_ne b' b with rfl | hne
    · simp [Lists.dropBuf] at hb'
    · exact h.loose b' k (by simpa [Lists.dropBuf, hne] using hb')
  allocs := h.allocs
  frees := h.frees
  owned := by
    refine h.owned.congr (fun o k => ?_) fun k => Iff.rfl
    rw [Lists.holds_dropBuf, and_iff_right_iff_imp]
    rintro hk rfl
    simp [Lists.Holds, hb] at hk
  balance := h.balance

/-- **Allocating a block** for a new buffer. -/
theorem rep_newBuffer {capacity : Nat} (h : Rep σ a) (hb : a.bufs b = none) (hn : a.view n = none) :
    ∃ σ', σ.newBuffer b n capacity = some σ' ∧ Rep σ' { a.setBuf b (some n) with
      view := Function.update a.view n (some (0, capacity))
      allocs := Function.update a.allocs n (a.allocs n + 1) } := by
  have hfree : (σ.mem (.node n)).isSome = false := by
    rw [← Mem.isSome_view, h.view, hn]
    rfl
  have hnl : ∀ {s' l'}, a.seqs s' = some l' → n ∉ l' := by
    intro s' l' hs' hc
    rw [h.live_of_mem hs' hc] at hfree
    exact absurd hfree (by simp)
  have hbn : σ.bufs b = none := by
    rw [h.bufs, hb]
    rfl
  refine ⟨{ σ.setBuf b (.node n) with
    mem := Function.update σ.mem (.node n) (some (BufHeader.init capacity))
    allocs := Function.update σ.allocs n (σ.allocs n + 1) }, ?_, ?_⟩
  · rw [Pool.newBuffer, Pool.alignedAlloc, hbn, hfree]
    rfl
  · refine ⟨h.seqs, map_update h.bufs b (some (some n)), ?_, ?_, ?_, ?_, ?_, h.frees, ?_, ?_⟩
    · intro s'
      simpa [Pool.setBuf, Lists.setBuf] using h.sentry s'
    · intro k
      change Mem.view (Function.update σ.mem _ _) _ = Function.update a.view n _ k
      rw [Mem.view_update]
      rcases eq_or_ne k n with rfl | hne
      · simp [BufHeader.init]
      · simp [hne, h.view]
    · intro s' l' hs'
      have hout : ∀ c ∈ l'.map Addr.node, c ≠ .node n := by
        rintro c hc rfl
        exact hnl hs' (node_mem_map.mp hc)
      change Threads (Mem.next (Function.update σ.mem _ _))
        (Mem.prev (Function.update σ.mem _ _)) _ _ _ _
      rw [Mem.next_update, Mem.prev_update]
      refine (h.threads s' l' hs').frame ?_ ?_ ?_
      · exact fun c hc => Function.update_of_ne (hout c hc) ..
      · exact fun c hc => Function.update_of_ne (hout c hc) ..
      · exact Function.update_of_ne (by simp) ..
    · intro b' k hb'
      change Mem.prev (Function.update σ.mem _ _) _ = none
      rw [Mem.prev_update, Function.update_apply]
      split_ifs with hkn
      · rfl
      · rcases eq_or_ne b' b with rfl | hne
        · exact absurd (show n = k by simpa [Lists.setBuf] using hb').symm (by simpa using hkn)
        · exact h.loose b' k (by simpa [Lists.setBuf, hne] using hb')
    · change Function.update σ.allocs n _ = _
      rw [h.allocs]
    · refine h.owned.acquire (o := .buffer b) (k := n) (by simp [Lists.Allocated, hn]) ?_ ?_
      · intro o k
        refine (Lists.holds_congr (a := a.setBuf b (some n)) rfl rfl).trans ?_
        rw [Lists.holds_setBuf]
        have hno : ¬a.Holds (.buffer b) k := by simp [Lists.Holds, hb]
        constructor
        · rintro (⟨rfl, hk⟩ | ⟨-, hk⟩)
          · exact Or.inr ⟨rfl, (Option.some.inj hk).symm⟩
          · exact Or.inl hk
        · rintro (hk | ⟨rfl, rfl⟩)
          · exact Or.inr ⟨fun hc => hno (hc ▸ hk), hk⟩
          · exact Or.inl ⟨rfl, rfl⟩
      · intro k
        rcases eq_or_ne k n with rfl | hne
        · simp [Lists.Allocated]
        · simp [Lists.Allocated, hne]
    · intro k
      rcases eq_or_ne k n with rfl | hne
      · simp [Lists.setBuf, h.balance k, hn]
      · simpa [Lists.setBuf, hne] using h.balance k

/-- **Writing through a view** changes what views of that block report. -/
theorem rep_setLen {size : Nat} {v : Nat × Nat} (h : Rep σ a) (hn : a.view n = some v) :
    ∃ σ', σ.setLen n size = some σ' ∧
      Rep σ' { a with view := Function.update a.view n (some (size, v.2)) } := by
  have hlive : (σ.mem (.node n)).isSome := by
    rw [← Mem.isSome_view, h.view, hn]
    rfl
  have hsome : ∀ k, (Function.update a.view n (some (size, v.2)) k).isSome = (a.view k).isSome := by
    intro k
    rcases eq_or_ne k n with rfl | hne
    · simp [hn]
    · simp [hne]
  refine ⟨{ σ with mem := σ.mem.putSize (.node n) size }, by simp [Pool.setLen, hlive], ?_⟩
  refine ⟨h.seqs, h.bufs, ?_, ?_, ?_, ?_, h.allocs, h.frees, ?_, ?_⟩
  · intro s'
    simpa using h.sentry s'
  · intro k
    change Mem.view (Function.update σ.mem _ _) _ = Function.update a.view n _ k
    rw [Mem.view_update]
    rcases eq_or_ne k n with rfl | hne
    · obtain ⟨x, hx⟩ := Option.isSome_iff_exists.mp hlive
      have hv : (x.size, x.capacity) = v := by
        have := (h.view k).trans hn
        simpa [Mem.view, hx] using this
      simp [hx, ← hv]
    · simp [hne, h.view]
  · intro s' l' hs'
    simpa using h.threads s' l' hs'
  · intro b' k hb'
    simpa using h.loose b' k hb'
  · refine h.owned.congr (fun o k => Lists.holds_congr rfl rfl) fun k => ?_
    rw [Lists.Allocated, hsome]
    rfl
  · intro k
    change a.allocs k = a.frees k + if (Function.update a.view n _ k).isSome then 1 else 0
    rw [hsome]
    exact h.balance k

/-! ### Sequence objects -/

/-- A sequence does not pass through the sentry of another one. -/
theorem Rep.threads_update_sentry (h : Rep σ a) {s s' : Nat} {l : List Nat}
    (hs' : a.seqs s' = some l) (hne : s' ≠ s) {p q : Ptr} :
    Threads (Function.update σ.mem.next (.sentry s) p) (Function.update σ.mem.prev (.sentry s) q)
      (.sentry s') (l.head?.map Addr.node) (l.getLast?.map Addr.node) (l.map Addr.node) := by
  have hout : ∀ c ∈ l.map Addr.node, c ≠ .sentry s := by
    rintro c hc rfl
    exact sentry_notMem_map s l hc
  refine (h.threads s' l hs').frame ?_ ?_ ?_
  · exact fun c hc => Function.update_of_ne (hout c hc) ..
  · exact fun c hc => Function.update_of_ne (hout c hc) ..
  · exact Function.update_of_ne (by simpa using hne) ..

theorem rep_newSequence (h : Rep σ a) (hs : a.seqs s = none) :
    ∃ σ', σ.newSequence s = some σ' ∧ Rep σ' (a.setSeq s []) := by
  have hq : σ.seqs s = none := by
    rw [h.seqs s, hs]
    rfl
  refine ⟨_, by rw [Pool.newSequence, hq]; rfl, ?_⟩
  refine ⟨map_update h.seqs s (some []), h.bufs, ?_, ?_, ?_, ?_, h.allocs, h.frees, ?_, h.balance⟩
  · intro s'
    rcases eq_or_ne s' s with rfl | hne
    · simp [Lists.setSeq]
    · simpa [Lists.setSeq, hne] using h.sentry s'
  · intro k
    change Mem.view (Function.update σ.mem _ _) _ = a.view k
    rw [Mem.view_update, Function.update_of_ne (by simp), h.view]
  · intro s' l' hs'
    change Threads (Mem.next (Function.update σ.mem _ _)) (Mem.prev (Function.update σ.mem _ _)) _ _
      _ _
    rw [Mem.next_update, Mem.prev_update]
    rcases eq_or_ne s' s with rfl | hne
    · obtain rfl : [] = l' := by simpa [Lists.setSeq] using hs'
      exact Threads.empty (Function.update_self ..)
    · exact h.threads_update_sentry (by simpa [Lists.setSeq, hne] using hs') hne
  · intro b k hb
    change Mem.prev (Function.update σ.mem _ _) _ = none
    rw [Mem.prev_update, Function.update_of_ne (by simp)]
    exact h.loose b k hb
  · refine h.owned.congr (fun o k => ?_) fun k => Iff.rfl
    rw [Lists.holds_setSeq]
    constructor
    · rintro (⟨-, hk⟩ | ⟨-, hk⟩)
      · exact absurd hk List.not_mem_nil
      · exact hk
    · intro hk
      refine Or.inr ⟨?_, hk⟩
      rintro rfl
      simp [Lists.Holds, hs] at hk

/-- An empty sequence object goes away, and its sentry with it. -/
theorem rep_dropSeq (h : Rep σ a) (hs : a.seqs s = some []) :
    Rep { σ with seqs := Function.update σ.seqs s none
                 mem := Function.update σ.mem (.sentry s) none } (a.dropSeq s) := by
  refine ⟨map_update h.seqs s none, h.bufs, ?_, ?_, ?_, ?_, h.allocs, h.frees, ?_, h.balance⟩
  · intro s'
    rcases eq_or_ne s' s with rfl | hne
    · simp [Lists.dropSeq]
    · simpa [Lists.dropSeq, hne] using h.sentry s'
  · intro k
    change Mem.view (Function.update σ.mem _ _) _ = a.view k
    rw [Mem.view_update, Function.update_of_ne (by simp), h.view]
  · intro s' l' hs'
    change Threads (Mem.next (Function.update σ.mem _ _)) (Mem.prev (Function.update σ.mem _ _)) _ _
      _ _
    rw [Mem.next_update, Mem.prev_update]
    rcases eq_or_ne s' s with rfl | hne
    · simp [Lists.dropSeq] at hs'
    · exact h.threads_update_sentry (by simpa [Lists.dropSeq, hne] using hs') hne
  · intro b k hb
    change Mem.prev (Function.update σ.mem _ _) _ = none
    rw [Mem.prev_update, Function.update_of_ne (by simp)]
    exact h.loose b k hb
  · refine h.owned.congr (fun o k => ?_) fun k => Iff.rfl
    rw [Lists.holds_dropSeq, and_iff_right_iff_imp]
    rintro hk rfl
    simp [Lists.Holds, hs] at hk

end Fiona
