import Fiona.Buffer.Lists

/-!
# The operations that relink blocks

`push_back`, `pop_front`, the statements that move construction and move assignment
share, and the part of `concat` that splices: each of them assigns a few links, and
for each of them this file shows which lists the new links thread. The argument is
always the same one. The links of the sequence the operation is about are put
together by a rule of `Threaded`; every other sequence shares no block with it, so
the frame rule applies; and the blocks that change hands are moved by
`Ownership.ExactlyOne.move`.
-/

namespace Fiona

open Ownership Threaded Transition

variable {σ : Pool} {a : Lists} {s t b c n : Nat} {l m : List Nat} {x : Option Nat}

/-! ### Appending and taking the first -/

/-- **What `push_back` does to the links**, once the last block points to the new one
and the new one points back to it – or there is no last block. -/
theorem rep_push {m : Mem} (h : Rep σ a) (hb : a.bufs b = some (some n)) (hs : a.seqs s = some l)
    (hsome : ∀ c, (m c).isSome = (σ.mem c).isSome) (hview : m.view = σ.mem.view)
    (hnext : ∀ c, m.next c = if c = .node n then some (.sentry s)
      else if l.getLast?.map Addr.node = some c then some (.node n) else σ.mem.next c)
    (hprev : ∀ c, m.prev c = if c = .sentry s then some (.node n)
      else if c = .node n then l.getLast?.map Addr.node else σ.mem.prev c) :
    Rep { (σ.setBuf b .defaultHeader).setSeq s (seqOf s (l ++ [n])) with mem := m }
      ((a.setBuf b none).setSeq s (l ++ [n])) where
  seqs := map_update h.seqs s (some (l ++ [n]))
  bufs := map_update h.bufs b (some none)
  sentry := by
    intro s'
    rcases eq_or_ne s' s with rfl | hne
    · simpa [Lists.setSeq, hsome] using h.live_sentry hs
    · simpa [Lists.setSeq, Lists.setBuf, hne, hsome] using h.sentry s'
  view := by
    intro k
    rw [hview]
    exact h.view k
  threads := by
    intro s' l' hs'
    have hnl := h.buf_notMem hb hs
    rcases eq_or_ne s' s with rfl | hne
    · obtain rfl : l ++ [n] = l' := by simpa [Lists.setSeq] using hs'
      have hpush := (h.threads s' l hs).push m.next m.prev (a := .node n)
        (by simpa using hnl) (by simp) ?_ ?_ ?_ ?_ ?_
      · have hhead : (l ++ [n]).head?.map Addr.node = if l.head?.map Addr.node = none
            then some (.node n) else l.head?.map Addr.node := by cases l <;> simp
        rw [hhead, List.getLast?_concat, List.map_append]
        exact hpush
      · intro c hc
        rw [hnext, if_neg]
        rintro rfl
        exact hnl (by simpa using hc)
      · rw [hnext, if_pos rfl]
      · intro c hc
        rw [hprev, if_neg, if_neg]
        · rintro rfl
          exact hnl (by simpa using hc)
        · rintro rfl
          exact sentry_notMem_map _ _ hc
      · rw [hprev, if_neg (by simp), if_pos rfl]
      · rw [hprev, if_pos rfl]
    · have hs'' : a.seqs s' = some l' := by simpa [Lists.setSeq, Lists.setBuf, hne] using hs'
      have hnl' := h.buf_notMem hb hs''
      refine (h.threads s' l' hs'').frame ?_ ?_ ?_
      · intro c hc
        obtain ⟨k, hk, rfl⟩ := List.mem_map.mp hc
        have hkl := h.disjoint hs hs'' hne hk
        rw [hnext, if_neg, if_neg]
        · intro hcon
          obtain ⟨k', hk', he⟩ := Option.map_eq_some_iff.mp hcon
          exact hkl (Addr.node.inj he ▸ List.mem_of_getLast? hk')
        · rintro he
          exact hnl' (Addr.node.inj he ▸ hk)
      · intro c hc
        obtain ⟨k, hk, rfl⟩ := List.mem_map.mp hc
        rw [hprev, if_neg (by simp), if_neg]
        rintro he
        exact hnl' (Addr.node.inj he ▸ hk)
      · rw [hprev, if_neg (by simpa using hne), if_neg (by simp)]
  loose := by
    intro b' k hb'
    rcases eq_or_ne b' b with rfl | hne
    · simp [Lists.setSeq, Lists.setBuf] at hb'
    · have hb'' : a.bufs b' = some (some k) := by simpa [Lists.setSeq, Lists.setBuf, hne] using hb'
      have hkn : k ≠ n := by
        rintro rfl
        exact hne (h.buf_unique hb'' hb)
      rw [hprev, if_neg (by simp), if_neg (by simpa using hkn)]
      exact h.loose b' k hb''
  allocs := h.allocs
  frees := h.frees
  owned := by
    refine h.owned.move (fun _ o => some (if o = .buffer b then .sequence s else o)) ?_ ?_
    · intro o k
      rw [Lists.holds_setSeq, Lists.holds_setBuf]
      constructor
      · rintro (⟨rfl, hk⟩ | ⟨hos, hk⟩)
        · rcases List.mem_append.mp hk with hk | hk
          · exact ⟨.sequence s, (Lists.holds_sequence hs).mpr hk, by simp⟩
          · exact ⟨.buffer b, by rw [List.mem_singleton.mp hk]; exact hb, by simp⟩
        · obtain ⟨hob, hk⟩ := hk.resolve_left (by simp)
          exact ⟨o, hk, by simp [hob]⟩
      · rintro ⟨o₀, hk, he⟩
        rcases eq_or_ne o₀ (.buffer b) with rfl | hob
        · obtain rfl : n = k := by simpa [Lists.Holds, hb] using hk
          exact Or.inl ⟨by simpa using he.symm, by simp⟩
        · obtain rfl : o₀ = o := by simpa [hob] using he
          rcases eq_or_ne o₀ (.sequence s) with rfl | hos
          · exact Or.inl ⟨rfl, List.mem_append_left _ ((Lists.holds_sequence hs).mp hk)⟩
          · exact Or.inr ⟨hos, Or.inr ⟨hob, hk⟩⟩
    · intro k
      exact (h.owned.live_iff k).trans (by simp)
  balance := h.balance

theorem rep_pushBack (h : Rep σ a) (hb : a.bufs b = some (some n)) (hs : a.seqs s = some l) :
    ∃ σ', σ.pushBack s b = some σ' ∧ Rep σ' ((a.setBuf b none).setSeq s (l ++ [n])) := by
  have hn := h.live_of_buf hb
  have he := h.live_sentry hs
  have hnl := h.buf_notMem hb hs
  have hq : (σ.setBuf b .defaultHeader).seqs s = some (seqOf s l) := by
    rw [Pool.setBuf, h.seqs s, hs]
    rfl
  have hp : σ.bufs b = some (.node n) := by
    rw [h.bufs b, hb]
    rfl
  have hmems : (⟨(seqOf s l).pSentry, if (seqOf s l).head = none then some (.node n)
      else (seqOf s l).head, some (.node n), (seqOf s l).numBufs + 1⟩ : RecvBufferSequence) =
      seqOf s (l ++ [n]) := by
    cases l <;> simp [seqOf, List.getLast?_cons]
  rcases List.eq_nil_or_concat l with rfl | ⟨l, k, rfl⟩
  · refine ⟨_, ?_, rep_push (m := (σ.mem.putNext (.node n) (some (.sentry s))).putPrev (.sentry s)
      (some (.node n))) h hb hs ?_ ?_ ?_ ?_⟩
    · rw [Pool.pushBack, hp]
      have htail : (seqOf s []).tail = none := rfl
      simp only [Option.bind_eq_bind, Option.bind_some, hq, htail, hmems, reduceCtorEq, reduceIte]
      simp only [Pool.setBuf, Mem.setNext_some hn, Mem.setPrev_some, he, Mem.isSome_putNext,
        Option.bind_some]
    · simp
    · simp
    · intro c
      simp [Mem.next_putNext hn, Function.update_apply]
    · intro c
      rw [Mem.prev_putPrev (by simpa using he)]
      rcases eq_or_ne c (.node n) with rfl | hc
      · simp [h.loose b n hb]
      · simp [Function.update_apply, hc]
  · rw [List.concat_eq_append] at *
    have hk : (σ.mem (.node k)).isSome := h.live_of_mem hs (by simp)
    have hkn : Addr.node k ≠ Addr.node n := by
      rintro he
      exact hnl (by simp [Addr.node.inj he])
    refine ⟨_, ?_, rep_push (m := (((σ.mem.putNext (.node k) (some (.node n))).putPrev (.node n)
      (some (.node k))).putNext (.node n) (some (.sentry s))).putPrev (.sentry s)
      (some (.node n))) h hb hs ?_ ?_ ?_ ?_⟩
    · rw [Pool.pushBack, hp]
      have htail : (seqOf s (l ++ [k])).tail = some (.node k) := by simp [seqOf]
      simp only [Option.bind_eq_bind, Option.bind_some, hq, htail, hmems, reduceCtorEq, reduceIte]
      simp only [Pool.setBuf, Mem.setNext_some, Mem.setPrev_some, hk, hn, he, Mem.isSome_putNext,
        Mem.isSome_putPrev, Option.bind_some]
    · simp
    · simp
    · intro c
      rw [Mem.next_putPrev, Mem.next_putNext (by simpa using hn), Mem.next_putPrev,
        Mem.next_putNext hk]
      simp [Function.update_apply, eq_comm]
    · intro c
      rw [Mem.prev_putPrev (by simpa using he), Mem.prev_putNext,
        Mem.prev_putPrev (by simpa using hn), Mem.prev_putNext]
      simp [Function.update_apply]

theorem rep_popFront (h : Rep σ a) (hs : a.seqs s = some (n :: l)) (hb : a.bufs b = none) :
    ∃ σ', σ.popFront s b = some σ' ∧ Rep σ' ((a.setBuf b (some n)).setSeq s l) := by
  have hn : (σ.mem (.node n)).isSome := h.live_of_mem hs (by simp)
  have hnl : n ∉ l := (List.nodup_cons.mp (h.nodup hs)).1
  obtain ⟨e, he⟩ : ∃ e, e = (l.head?.map Addr.node).getD (.sentry s) := ⟨_, rfl⟩
  have helive : (σ.mem e).isSome := by
    cases l with
    | nil => simpa [he] using h.live_sentry hs
    | cons k l => simpa [he] using h.live_of_mem hs (show k ∈ n :: k :: l by simp)
  have hnext : σ.mem.next (.node n) = some e := by
    have := (h.threads s _ hs).next_head
    rw [he, this, List.head?_map]
  have hq : σ.seqs s = some (seqOf s (n :: l)) := by
    rw [h.seqs s, hs]
    rfl
  have hbn : (σ.bufs b).isSome = false := by
    rw [h.bufs b, hb]
    rfl
  -- the two links the operation clears in the block it takes, and the one in its successor
  obtain ⟨m, hm⟩ :
      ∃ m, m = ((σ.mem.putNext (.node n) none).putPrev (.node n) none).putPrev e none :=
    ⟨_, rfl⟩
  have hmnext : m.next = Function.update σ.mem.next (.node n) none := by
    rw [hm, Mem.next_putPrev, Mem.next_putPrev, Mem.next_putNext hn]
  have hmprev : m.prev = Function.update (Function.update σ.mem.prev (.node n) none) e none := by
    rw [hm, Mem.prev_putPrev (by simpa using helive), Mem.prev_putPrev (by simpa using hn),
      Mem.prev_putNext]
  refine ⟨{ (σ.setBuf b (.node n)).setSeq s (seqOf s l) with mem := m }, ?_, ?_⟩
  · have hhead : (seqOf s (n :: l)).head = some (.node n) := rfl
    have hempty : (seqOf s (n :: l)).empty = false := by simp [seqOf, RecvBufferSequence.empty]
    have htail : some (Addr.node n) = (seqOf s (n :: l)).tail ↔ l = [] := by
      constructor
      · intro hc
        by_contra hl
        obtain ⟨k, hk⟩ := Option.ne_none_iff_exists'.mp
          (fun hc => hl (List.getLast?_eq_none_iff.mp hc) : l.getLast? ≠ none)
        have : n = k := by simpa [seqOf, List.getLast?_cons, hk] using hc
        exact hnl (this ▸ List.mem_of_getLast? hk)
      · rintro rfl
        rfl
    rw [Pool.popFront, hq]
    simp only [Option.bind_eq_bind, Option.bind_some, hempty, hbn, hhead,
      Mem.getNext_some hn, hnext, Mem.setNext_some hn, Mem.setPrev_some, hn, helive,
      Mem.isSome_putNext, Mem.isSome_putPrev, Bool.false_eq_true, or_self, reduceIte, ← hm]
    rcases eq_or_ne l [] with rfl | hl
    · rw [if_pos (htail.mpr rfl)]
      rfl
    · rw [if_neg (fun hc => hl (htail.mp hc))]
      obtain ⟨k, l, rfl⟩ := List.exists_cons_of_ne_nil hl
      simp [seqOf, Pool.setSeq, Pool.setBuf, he]
  · refine ⟨map_update h.seqs s (some l), map_update h.bufs b (some (some n)), ?_, ?_, ?_, ?_,
      h.allocs, h.frees, ?_, h.balance⟩
    · intro s'
      have hsome : (m (.sentry s')).isSome = (σ.mem (.sentry s')).isSome := by simp [hm]
      rcases eq_or_ne s' s with rfl | hne
      · simpa [Lists.setSeq, hsome] using h.live_sentry hs
      · simpa [Lists.setSeq, Lists.setBuf, hne, hsome] using h.sentry s'
    · intro k
      change m.view (.node k) = a.view k
      rw [hm, Mem.view_putPrev, Mem.view_putPrev, Mem.view_putNext, h.view]
    · intro s' l' hs'
      rcases eq_or_ne s' s with rfl | hne
      · obtain rfl : l = l' := by simpa [Lists.setSeq] using hs'
        have hpop := (h.threads s' _ hs).pop m.next m.prev ?_ ?_
        · have htail : (if l.map Addr.node = [] then none else (n :: l).getLast?.map Addr.node)
              = l.getLast?.map Addr.node := by
            rcases eq_or_ne l [] with rfl | hl
            · simp
            · obtain ⟨k, l, rfl⟩ := List.exists_cons_of_ne_nil hl
              simp
          rw [List.head?_map, htail] at hpop
          exact hpop
        · intro c hc
          rw [hmnext, Function.update_of_ne]
          rintro rfl
          exact hnl (node_mem_map.mp hc)
        · intro c hc
          rw [List.head?_map, ← he, hmprev, Function.update_apply]
          refine if_congr Iff.rfl rfl (Function.update_of_ne ?_ _ _)
          rintro rfl
          exact hc.elim (fun hc => hnl (node_mem_map.mp hc)) (by simp)
      · have hs'' : a.seqs s' = some l' := by simpa [Lists.setSeq, Lists.setBuf, hne] using hs'
        have hdisj : ∀ k ∈ l', k ∉ n :: l := fun k hk => h.disjoint hs hs'' hne hk
        have hel : e ∉ l'.map Addr.node ∧ e ≠ .sentry s' := by
          cases l with
          | nil => simp [he, hne.symm]
          | cons k l =>
            refine ⟨fun hc => ?_, by simp [he]⟩
            rw [he] at hc
            exact hdisj k (node_mem_map.mp hc) (by simp)
        have hnl' : Addr.node n ∉ l'.map Addr.node := fun hc =>
          hdisj n (node_mem_map.mp hc) (by simp)
        refine (h.threads s' l' hs'').frame ?_ ?_ ?_
        · intro c hc
          rw [hmnext, Function.update_of_ne (by rintro rfl; exact hnl' hc)]
        · intro c hc
          rw [hmprev, Function.update_of_ne (by rintro rfl; exact hel.1 hc),
            Function.update_of_ne (by rintro rfl; exact hnl' hc)]
        · rw [hmprev, Function.update_of_ne hel.2.symm, Function.update_of_ne (by simp)]
    · intro b' k hb'
      change m.prev (.node k) = none
      rw [hmprev, Function.update_apply, Function.update_apply]
      split_ifs with h1 h2
      · rfl
      · rfl
      · have hkn : k ≠ n := fun hc => h2 (by rw [hc])
        rcases eq_or_ne b' b with rfl | hne
        · exact absurd (show n = k by simpa [Lists.setSeq, Lists.setBuf] using hb').symm hkn
        · exact h.loose b' k (by simpa [Lists.setSeq, Lists.setBuf, hne] using hb')
    · refine h.owned.move (fun k o => some (if k = n then .buffer b else o)) ?_ ?_
      · intro o k
        rw [Lists.holds_setSeq, Lists.holds_setBuf]
        have hnb : ¬a.Holds (.buffer b) k := by simp [Lists.Holds, hb]
        constructor
        · rintro (⟨rfl, hk⟩ | ⟨hos, ⟨rfl, hk⟩ | ⟨hob, hk⟩⟩)
          · have hkn : k ≠ n := fun hc => hnl (hc ▸ hk)
            exact ⟨.sequence s, (Lists.holds_sequence hs).mpr (List.mem_cons_of_mem _ hk),
              by simp [hkn]⟩
          · obtain rfl := Option.some.inj hk
            exact ⟨.sequence s, (Lists.holds_sequence hs).mpr (by simp), by simp⟩
          · refine ⟨o, hk, ?_⟩
            have hkn : k ≠ n := by
              rintro rfl
              exact hos (h.owned.unique hk ((Lists.holds_sequence hs).mpr (by simp)))
            simp [hkn]
        · rintro ⟨o₀, hk, ho⟩
          rcases eq_or_ne k n with rfl | hkn
          · obtain rfl : Lists.Owner.buffer b = o := by simpa using ho
            exact Or.inr ⟨by simp, Or.inl ⟨rfl, rfl⟩⟩
          · obtain rfl : o₀ = o := by simpa [hkn] using ho
            rcases eq_or_ne o₀ (.sequence s) with rfl | hos
            · have := (Lists.holds_sequence hs).mp hk
              exact Or.inl ⟨rfl, (List.mem_cons.mp this).resolve_left hkn⟩
            · exact Or.inr ⟨hos, Or.inr ⟨fun hc => hnb (hc ▸ hk), hk⟩⟩
      · intro k
        exact (h.owned.live_iff k).trans (by simp)

/-! ### Another sentry, another list -/

/-- **The shared part of the moves**: an empty sequence takes over the list of
another one, whose last block is made to point to the new sentry. -/
theorem rep_takeOver (h : Rep σ a) (hs : a.seqs s = some []) (ht : a.seqs t = some m)
    (hne : s ≠ t) :
    ∃ σ', σ.takeOver s t = some σ' ∧ Rep σ' ((a.setSeq s m).setSeq t []) := by
  have hels := h.live_sentry hs
  have helt := h.live_sentry ht
  have hqs : σ.seqs s = some (seqOf s []) := by
    rw [h.seqs s, hs]
    rfl
  have hqt : σ.seqs t = some (seqOf t m) := by
    rw [h.seqs t, ht]
    rfl
  obtain ⟨m₁, hm₁⟩ : ∃ m₁, m₁ = (σ.mem.putPrev (.sentry t) none).putPrev (.sentry s)
      (m.getLast?.map Addr.node) := ⟨_, rfl⟩
  have hprev₁ : m₁.prev = Function.update (Function.update σ.mem.prev (.sentry t) none) (.sentry s)
      (m.getLast?.map Addr.node) := by
    rw [hm₁, Mem.prev_putPrev (by simpa using hels), Mem.prev_putPrev helt]
  have hnext₁ : m₁.next = σ.mem.next := by rw [hm₁, Mem.next_putPrev, Mem.next_putPrev]
  have hsome₁ : ∀ c, (m₁ c).isSome = (σ.mem c).isSome := by simp [hm₁]
  -- the last link of the list, if there is one
  obtain ⟨m₂, hm₂, hprev, hnext, hsome, hview⟩ : ∃ m₂,
      (if (seqOf t m).tail = none then some m₁
        else m₁.setNext (seqOf t m).tail (some (.sentry s))) = some m₂ ∧ m₂.prev = m₁.prev ∧
      (∀ c, m₂.next c = if m.getLast?.map Addr.node = some c then some (.sentry s)
        else σ.mem.next c) ∧
      (∀ c, (m₂ c).isSome = (σ.mem c).isSome) ∧ m₂.view = σ.mem.view := by
    have hview₁ : m₁.view = σ.mem.view := by rw [hm₁, Mem.view_putPrev, Mem.view_putPrev]
    rcases List.eq_nil_or_concat m with rfl | ⟨l, k, rfl⟩
    · exact ⟨m₁, rfl, rfl, fun c => by simp [hnext₁], hsome₁, hview₁⟩
    · rw [List.concat_eq_append] at *
      have hk : (m₁ (.node k)).isSome := by
        rw [hsome₁]
        exact h.live_of_mem ht (by simp)
      have htail : (seqOf t (l ++ [k])).tail = some (.node k) := by simp [seqOf]
      refine ⟨m₁.putNext (.node k) (some (.sentry s)), ?_, by simp, fun c => ?_, ?_, ?_⟩
      · rw [htail, if_neg (by simp), Mem.setNext_some hk]
      · rw [Mem.next_putNext hk, hnext₁]
        simp [Function.update_apply, eq_comm]
      · simpa using hsome₁
      · rw [Mem.view_putNext, hview₁]
  refine ⟨{ (σ.setSeq s (seqOf s m)).setSeq t (seqOf t []) with mem := m₂ }, ?_, ?_⟩
  · have htail : (seqOf t m).tail = m.getLast?.map Addr.node := rfl
    rw [Pool.takeOver, hqs, hqt]
    simp only [Option.bind_eq_bind, Option.bind_some, Pool.setSeq, Mem.setPrev_some, hels, helt,
      Mem.isSome_putPrev]
    rw [htail] at hm₂ ⊢
    rw [← hm₁]
    by_cases hnone : m.getLast?.map Addr.node = none
    · rw [if_pos hnone] at hm₂ ⊢
      rw [Option.some.inj hm₂]
      rfl
    · rw [if_neg hnone] at hm₂ ⊢
      rw [hm₂]
      rfl
  · refine ⟨?_, h.bufs, ?_, ?_, ?_, ?_, h.allocs, h.frees, ?_, h.balance⟩
    · exact map_update (map_update h.seqs s (some m)) t (some [])
    · intro s'
      change (m₂ (.sentry s')).isSome = _
      have ht' : ∀ m', (a.setSeq s m').seqs t = some m := by simp [Lists.setSeq, hne.symm, ht]
      rw [hsome, h.sentry, Lists.isSome_seqs_setSeq (ht' _), Lists.isSome_seqs_setSeq hs]
    · intro k
      change m₂.view (.node k) = a.view k
      rw [hview, h.view]
    · intro s' l' hs'
      change Threads m₂.next m₂.prev _ _ _ _
      rw [hprev, hprev₁]
      rcases eq_or_ne s' t with rfl | hst
      · obtain rfl : [] = l' := by simpa [Lists.setSeq] using hs'
        refine Threads.empty ?_
        rw [Function.update_of_ne (by simpa using hne.symm), Function.update_self]
      · rcases eq_or_ne s' s with rfl | hss
        · obtain rfl : m = l' := by simpa [Lists.setSeq, hst] using hs'
          refine (h.threads t m ht).rehome (by simp) (fun c _ => hnext c) ?_
            (Function.update_self ..)
          intro c hc
          obtain ⟨k, -, rfl⟩ := List.mem_map.mp hc
          rw [Function.update_of_ne (by simp), Function.update_of_ne (by simp)]
        · have hs'' : a.seqs s' = some l' := by simpa [Lists.setSeq, hst, hss] using hs'
          refine (h.threads s' l' hs'').frame ?_ ?_ ?_
          · intro c hc
            obtain ⟨k, hk, rfl⟩ := List.mem_map.mp hc
            rw [hnext, if_neg]
            intro hcon
            obtain ⟨k', hk', he⟩ := Option.map_eq_some_iff.mp hcon
            exact h.disjoint ht hs'' hst hk (Addr.node.inj he ▸ List.mem_of_getLast? hk')
          · intro c hc
            obtain ⟨k, -, rfl⟩ := List.mem_map.mp hc
            rw [Function.update_of_ne (by simp), Function.update_of_ne (by simp)]
          · rw [Function.update_of_ne (by simpa using hss),
              Function.update_of_ne (by simpa using hst)]
    · intro b k hb
      change m₂.prev (.node k) = none
      rw [hprev, hprev₁, Function.update_of_ne (by simp), Function.update_of_ne (by simp)]
      exact h.loose b k hb
    · refine h.owned.move (fun _ o => some (if o = .sequence t then .sequence s else o)) ?_ ?_
      · intro o k
        rw [Lists.holds_setSeq, Lists.holds_setSeq]
        constructor
        · rintro (⟨-, hk⟩ | ⟨hot, ⟨rfl, hk⟩ | ⟨-, hk⟩⟩)
          · simp at hk
          · exact ⟨.sequence t, (Lists.holds_sequence ht).mpr hk, by simp⟩
          · exact ⟨o, hk, by simp [hot]⟩
        · rintro ⟨o₀, hk, ho⟩
          rcases eq_or_ne o₀ (.sequence t) with rfl | hot
          · obtain rfl : Lists.Owner.sequence s = o := by simpa using ho
            exact Or.inr ⟨by simpa using hne, Or.inl ⟨rfl, (Lists.holds_sequence ht).mp hk⟩⟩
          · obtain rfl : o₀ = o := by simpa [hot] using ho
            refine Or.inr ⟨hot, Or.inr ⟨?_, hk⟩⟩
            rintro rfl
            exact absurd ((Lists.holds_sequence hs).mp hk) List.not_mem_nil
      · intro k
        exact (h.owned.live_iff k).trans (by simp)

/-- **The splicing part of `concat`**, on two nonempty sequences. -/
theorem rep_splice {fuel : Nat} (h : Rep σ a) (hs : a.seqs s = some l) (ht : a.seqs t = some m)
    (hne : s ≠ t) (hl : l ≠ []) (hm : m ≠ []) :
    ∃ σ', σ.concatBody fuel s t = some σ' ∧ Rep σ' ((a.setSeq s (l ++ m)).setSeq t []) := by
  have hels := h.live_sentry hs
  have helt := h.live_sentry ht
  have hqs : σ.seqs s = some (seqOf s l) := by
    rw [h.seqs s, hs]
    rfl
  have hqt : σ.seqs t = some (seqOf t m) := by
    rw [h.seqs t, ht]
    rfl
  obtain ⟨x, hx⟩ : ∃ x, l.getLast? = some x := Option.ne_none_iff_exists'.mp (by simpa using hl)
  obtain ⟨y, hy⟩ : ∃ y, m.head? = some y := Option.ne_none_iff_exists'.mp (by simpa using hm)
  obtain ⟨z, hz⟩ : ∃ z, m.getLast? = some z := Option.ne_none_iff_exists'.mp (by simpa using hm)
  have hxl := List.mem_of_getLast? hx
  have hym := List.mem_of_head? hy
  have hzm := List.mem_of_getLast? hz
  have hdisj : ∀ k ∈ l, k ∉ m := fun k hk => h.disjoint ht hs hne hk
  have hxm : x ∉ m := hdisj x hxl
  have hlx := h.live_of_mem hs hxl
  have hly := h.live_of_mem ht hym
  have hlz := h.live_of_mem ht hzm
  obtain ⟨m', hm'⟩ : ∃ m', m' = ((((σ.mem.putNext (.node x) (some (.node y))).putPrev (.node y)
      (some (.node x))).putNext (.node z) (some (.sentry s))).putPrev (.sentry s)
      (some (.node z))).putPrev (.sentry t) none := ⟨_, rfl⟩
  have hnext : m'.next = Function.update (Function.update σ.mem.next (.node x) (some (.node y)))
      (.node z) (some (.sentry s)) := by
    rw [hm', Mem.next_putPrev, Mem.next_putPrev, Mem.next_putNext (by simpa using hlz),
      Mem.next_putPrev, Mem.next_putNext hlx]
  have hprev : m'.prev = Function.update (Function.update (Function.update σ.mem.prev (.node y)
      (some (.node x))) (.sentry s) (some (.node z))) (.sentry t) none := by
    rw [hm', Mem.prev_putPrev (by simpa using helt), Mem.prev_putPrev (by simpa using hels),
      Mem.prev_putNext, Mem.prev_putPrev (by simpa using hly), Mem.prev_putNext]
  have hsome : ∀ c, (m' c).isSome = (σ.mem c).isSome := by simp [hm']
  refine ⟨{ (σ.setSeq s (seqOf s (l ++ m))).setSeq t (seqOf t []) with mem := m' }, ?_, ?_⟩
  · have hes : (seqOf s l).empty = false := by simpa [seqOf, RecvBufferSequence.empty] using hl
    have het : (seqOf t m).empty = false := by simpa [seqOf, RecvBufferSequence.empty] using hm
    have hseq : seqOf s (l ++ m) = { seqOf s l with
        tail := some (.node z), numBufs := (seqOf s l).numBufs + (seqOf t m).numBufs } := by
      simp [seqOf, List.getLast?_append, hz, List.head?_append_of_ne_nil _ hl]
    have hempty : seqOf t [] = { seqOf t m with head := none, tail := none, numBufs := 0 } := rfl
    have htail : (seqOf s l).tail = some (.node x) := by simp [seqOf, hx]
    have hhead' : (seqOf t m).head = some (.node y) := by simp [seqOf, hy]
    have htail' : (seqOf t m).tail = some (.node z) := by simp [seqOf, hz]
    rw [Pool.concatBody, hqs, hqt]
    simp only [Option.bind_eq_bind, Option.bind_some, hes, het, htail, hhead', htail',
      Bool.false_eq_true, reduceIte, Mem.setNext_some, Mem.setPrev_some, hlx, hly, hlz, hels, helt,
      Mem.isSome_putNext, Mem.isSome_putPrev, ← hm']
    rw [hseq, hempty]
    rfl
  · refine ⟨?_, h.bufs, ?_, ?_, ?_, ?_, h.allocs, h.frees, ?_, h.balance⟩
    · exact map_update (map_update h.seqs s (some (l ++ m))) t (some [])
    · intro s'
      change (m' (.sentry s')).isSome = _
      have ht' : ∀ m', (a.setSeq s m').seqs t = some m := by simp [Lists.setSeq, hne.symm, ht]
      rw [hsome, h.sentry, Lists.isSome_seqs_setSeq (ht' _), Lists.isSome_seqs_setSeq hs]
    · intro k
      change m'.view (.node k) = a.view k
      rw [hm', Mem.view_putPrev, Mem.view_putPrev, Mem.view_putNext, Mem.view_putPrev,
        Mem.view_putNext, h.view]
    · intro s' l' hs'
      change Threads m'.next m'.prev _ _ _ _
      rcases eq_or_ne s' t with rfl | hst
      · obtain rfl : [] = l' := by simpa [Lists.setSeq] using hs'
        refine Threads.empty ?_
        rw [hprev, Function.update_self]
      · rcases eq_or_ne s' s with rfl | hss
        · obtain rfl : l ++ m = l' := by simpa [Lists.setSeq, hst] using hs'
          have hsplice := (h.threads s' l hs).splice m'.next m'.prev (h.threads t m ht)
            (by simpa using hl) (by simpa using hm) ?_ (by simp) ?_ ?_ ?_ ?_ ?_
          · rw [List.map_append, List.head?_append_of_ne_nil _ hl,
              List.getLast?_append_of_ne_nil _ hm]
            exact hsplice
          · rintro c hc hcm
            obtain ⟨k, hk, rfl⟩ := List.mem_map.mp hc
            exact hdisj k hk (node_mem_map.mp hcm)
          · intro c hc
            obtain ⟨k, hk, rfl⟩ := List.mem_map.mp hc
            have hkz : k ≠ z := by
              rintro rfl
              exact hdisj k hk hzm
            rw [hnext, Function.update_of_ne (by simpa using hkz), Function.update_apply, hx, hy]
            simp [eq_comm]
          · intro c hc
            obtain ⟨k, hk, rfl⟩ := List.mem_map.mp hc
            have hkx : k ≠ x := by
              rintro rfl
              exact hxm hk
            rw [hnext, Function.update_apply, Function.update_of_ne (by simpa using hkx), hz]
            simp [eq_comm]
          · intro c hc
            obtain ⟨k, hk, rfl⟩ := List.mem_map.mp hc
            have hky : k ≠ y := by
              rintro rfl
              exact hdisj k hk hym
            rw [hprev, Function.update_of_ne (by simp), Function.update_of_ne (by simp),
              Function.update_of_ne (by simpa using hky)]
          · intro c hc
            obtain ⟨k, hk, rfl⟩ := List.mem_map.mp hc
            rw [hprev, Function.update_of_ne (by simp), Function.update_of_ne (by simp),
              Function.update_apply, hx, hy]
            simp [eq_comm]
          · rw [hprev, Function.update_of_ne (by simpa using hst), Function.update_self, hz]
            rfl
        · have hs'' : a.seqs s' = some l' := by simpa [Lists.setSeq, hst, hss] using hs'
          refine (h.threads s' l' hs'').frame ?_ ?_ ?_
          · intro c hc
            obtain ⟨k, hk, rfl⟩ := List.mem_map.mp hc
            have hkx : k ≠ x := by
              rintro rfl
              exact h.disjoint hs hs'' hss hk hxl
            have hkz : k ≠ z := by
              rintro rfl
              exact h.disjoint ht hs'' hst hk hzm
            rw [hnext, Function.update_of_ne (by simpa using hkz),
              Function.update_of_ne (by simpa using hkx)]
          · intro c hc
            obtain ⟨k, hk, rfl⟩ := List.mem_map.mp hc
            have hky : k ≠ y := by
              rintro rfl
              exact h.disjoint ht hs'' hst hk hym
            rw [hprev, Function.update_of_ne (by simp), Function.update_of_ne (by simp),
              Function.update_of_ne (by simpa using hky)]
          · rw [hprev, Function.update_of_ne (by simpa using hst),
              Function.update_of_ne (by simpa using hss), Function.update_of_ne (by simp)]
    · intro b k hb
      change m'.prev (.node k) = none
      have hky : k ≠ y := by
        rintro rfl
        exact h.buf_notMem hb ht hym
      rw [hprev, Function.update_of_ne (by simp), Function.update_of_ne (by simp),
        Function.update_of_ne (by simpa using hky)]
      exact h.loose b k hb
    · refine h.owned.move (fun _ o => some (if o = .sequence t then .sequence s else o)) ?_ ?_
      · intro o k
        rw [Lists.holds_setSeq, Lists.holds_setSeq, List.mem_append]
        constructor
        · rintro (⟨-, hk⟩ | ⟨hot, ⟨rfl, hk | hk⟩ | ⟨-, hk⟩⟩)
          · simp at hk
          · exact ⟨.sequence s, (Lists.holds_sequence hs).mpr hk, by simp [hne]⟩
          · exact ⟨.sequence t, (Lists.holds_sequence ht).mpr hk, by simp⟩
          · exact ⟨o, hk, by simp [hot]⟩
        · rintro ⟨o₀, hk, ho⟩
          rcases eq_or_ne o₀ (.sequence t) with rfl | hot
          · obtain rfl : Lists.Owner.sequence s = o := by simpa using ho
            exact Or.inr ⟨by simpa using hne,
              Or.inl ⟨rfl, Or.inr ((Lists.holds_sequence ht).mp hk)⟩⟩
          · obtain rfl : o₀ = o := by simpa [hot] using ho
            refine Or.inr ⟨hot, ?_⟩
            rcases eq_or_ne o₀ (.sequence s) with rfl | hos
            · exact Or.inl ⟨rfl, Or.inl ((Lists.holds_sequence hs).mp hk)⟩
            · exact Or.inr ⟨hos, hk⟩
      · intro k
        exact (h.owned.live_iff k).trans (by simp)

end Fiona
