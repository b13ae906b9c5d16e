import Fiona.Buffer.Blocks
import Fiona.Buffer.Links

/-!
# The pool of buffers refines lists of blocks

The relinking operations of `Fiona.Buffer.Links` and the allocating ones of
`Fiona.Buffer.Blocks` make up the whole interface. An operation of several steps –
`concat` constructs a parameter object, runs its body and destroys the parameter – is
their composition, and so the pool simulates the lists (`Fiona.rep_step`).

`Fiona.Refines` says what that means for a user of the interface, who has iterators,
counts and views but no lists, and `Fiona.recvBufferSequence_refines` says it of every
program.
-/

namespace Fiona

open Ownership Threaded Transition

variable {σ : Pool} {a a' : Lists} {s t b c n fuel : Nat} {l m : List Nat} {x y : Option Nat}

/-! ### Operations of several steps -/

theorem rep_moveBuffer (h : Rep σ a) (hb : a.bufs b = none) (hc : a.bufs c = some y) :
    ∃ σ', σ.moveBuffer b c = some σ' ∧ Rep σ' ((a.setBuf b y).setBuf c none) := by
  have hne : b ≠ c := by
    rintro rfl
    simp [hb] at hc
  refine ⟨_, ?_, rep_moveBlock h (by simp [hb]) hc hne⟩
  rw [Pool.moveBuffer, h.bufs, h.bufs, hb, hc]
  rfl

theorem rep_assignBuffer (h : Rep σ a) (hb : a.bufs b = some x) (hc : a.bufs c = some y)
    (hne : b ≠ c) :
    ∃ σ', σ.assignBuffer b c = some σ' ∧
      Rep σ' (((a.free x.toList).setBuf b y).setBuf c none) := by
  obtain ⟨σ₁, hdel, hbufs, h₁⟩ := rep_deleteBuffer h hb
  have hc₁ : ((a.free x.toList).setBuf b none).bufs c = some y := by
    simpa [Lists.setBuf, Lists.free, hne.symm] using hc
  refine ⟨(σ₁.setBuf b (bufOf y)).setBuf c .defaultHeader, ?_, ?_⟩
  · rw [Pool.assignBuffer, h.bufs, h.bufs, hb, hc]
    simp only [Option.map_some, Option.bind_eq_bind, Option.bind_some, if_neg hne, hdel]
  · -- the buffer holds nothing once its block is freed, and takes the other block over
    have h₂ := rep_moveBlock h₁ (b := b) (by simp [Lists.setBuf]) hc₁ hne
    simpa only [Pool.setBuf, Lists.setBuf, Function.update_idem] using h₂

theorem rep_destroyBuffer (h : Rep σ a) (hb : a.bufs b = some x) :
    ∃ σ', σ.destroyBuffer b = some σ' ∧ Rep σ' ((a.free x.toList).dropBuf b) := by
  obtain ⟨σ₁, hdel, -, h₁⟩ := rep_deleteBuffer h hb
  refine ⟨{ σ₁ with bufs := Function.update σ₁.bufs b none }, ?_, ?_⟩
  · rw [Pool.destroyBuffer, h.bufs, hb]
    simp only [Option.map_some, Option.bind_eq_bind, Option.bind_some, hdel]
  · have h₂ := rep_dropBuf h₁ (b := b) (by simp [Lists.setBuf])
    simpa only [Pool.setBuf, Lists.setBuf, Lists.dropBuf, Function.update_idem] using h₂

theorem rep_moveSequence (h : Rep σ a) (hs : a.seqs s = none) (ht : a.seqs t = some m) :
    ∃ σ', σ.moveSequence s t = some σ' ∧ Rep σ' ((a.setSeq s m).setSeq t []) := by
  have hne : s ≠ t := by
    rintro rfl
    simp [hs] at ht
  obtain ⟨σ₁, hnew, h₁⟩ := rep_newSequence h hs
  obtain ⟨σ₂, htake, h₂⟩ := rep_takeOver h₁ (t := t) (m := m) (by simp [Lists.setSeq])
    (by simpa [Lists.setSeq, hne.symm] using ht) hne
  refine ⟨σ₂, ?_, ?_⟩
  · rw [Pool.moveSequence, hnew]
    exact htake
  · simpa only [Lists.setSeq, Function.update_idem] using h₂

theorem rep_assignSequence (h : Rep σ a) (hs : a.seqs s = some l) (ht : a.seqs t = some m)
    (hne : s ≠ t) (hfuel : l.length < fuel) :
    ∃ σ', σ.assignSequence fuel s t = some σ' ∧
      Rep σ' (((a.free l).setSeq s m).setSeq t []) := by
  obtain ⟨σ₁, hfree, h₁⟩ := rep_freeList h hs hfuel
  obtain ⟨σ₂, htake, h₂⟩ := rep_takeOver h₁ (t := t) (m := m) (by simp [Lists.setSeq])
    (by simpa [Lists.setSeq, Lists.free, hne.symm] using ht) hne
  refine ⟨σ₂, ?_, ?_⟩
  · rw [Pool.assignSequence, h.seqs, hs]
    simp only [Option.map_some, Option.bind_eq_bind, Option.bind_some, if_neg hne]
    -- `free_list` of an empty sequence does nothing, so it may as well be called
    by_cases hl : (seqOf s l).empty
    · have hl' : l = [] := by simpa [seqOf, RecvBufferSequence.empty] using hl
      subst hl'
      have hsame : σ₁ = σ := by
        rw [Pool.freeList, h.seqs, hs] at hfree
        exact (Option.some.inj hfree).symm
      rw [if_pos hl, ← hsame]
      exact htake
    · rw [if_neg hl, hfree]
      exact htake
  · simpa only [Lists.setSeq, Function.update_idem] using h₂

theorem rep_concatBody (h : Rep σ a) (hs : a.seqs s = some l) (ht : a.seqs t = some m)
    (hne : s ≠ t) (hfuel : 0 < fuel) :
    ∃ σ', σ.concatBody fuel s t = some σ' ∧ Rep σ' ((a.setSeq s (l ++ m)).setSeq t []) := by
  rcases eq_or_ne m [] with rfl | hm
  · refine ⟨σ, ?_, ?_⟩
    · rw [Pool.concatBody, h.seqs, ht]
      rfl
    · have hsame : (a.setSeq s (l ++ [])).setSeq t [] = a := by
        rw [List.append_nil, Lists.setSeq, Lists.setSeq, ← hs, Function.update_eq_self, ← ht,
          Function.update_eq_self]
      rwa [hsame]
  · rcases eq_or_ne l [] with rfl | hl
    · obtain ⟨σ', hassign, h'⟩ := rep_assignSequence h hs ht hne hfuel
      refine ⟨σ', ?_, ?_⟩
      · have het : (seqOf t m).empty = false := by simpa [seqOf, RecvBufferSequence.empty] using hm
        rw [Pool.concatBody, h.seqs, h.seqs, hs, ht]
        simpa [het, hm, seqOf, RecvBufferSequence.empty] using hassign
      · rwa [Lists.free_nil] at h'
    · exact rep_splice h hs ht hne hl hm

theorem rep_destroySequence (h : Rep σ a) (hs : a.seqs s = some l) (hfuel : l.length < fuel) :
    ∃ σ', σ.destroySequence fuel s = some σ' ∧ Rep σ' ((a.free l).dropSeq s) := by
  obtain ⟨σ₁, hfree, h₁⟩ := rep_freeList h hs hfuel
  refine ⟨{ σ₁ with
    seqs := Function.update σ₁.seqs s none
    mem := Function.update σ₁.mem (.sentry s) none }, ?_, ?_⟩
  · rw [Pool.destroySequence, hfree]
    rfl
  · have h₂ := rep_dropSeq h₁ (s := s) (by simp [Lists.setSeq])
    simpa only [Lists.setSeq, Lists.dropSeq, Function.update_idem] using h₂

/-- **`concat`**, the argument being moved into a parameter object first. A sequence
concatenated onto itself is found empty by the body and gets its list back. -/
theorem rep_concat {param : Nat} (h : Rep σ a) (hs : a.seqs s = some l) (ht : a.seqs t = some m)
    (hp : a.seqs param = none) (hfuel : 0 < fuel) :
    ∃ σ', σ.concat fuel s t param = some σ' ∧
      Rep σ' (if s = t then a else (a.setSeq s (l ++ m)).setSeq t []) := by
  have hps : param ≠ s := by
    rintro rfl
    simp [hp] at hs
  have hpt : param ≠ t := by
    rintro rfl
    simp [hp] at ht
  obtain ⟨σ₁, hmove, h₁⟩ := rep_moveSequence h hp ht
  obtain ⟨l', hl'⟩ : ∃ l', l' = if s = t then [] else l := ⟨_, rfl⟩
  have hs₁ : ((a.setSeq param m).setSeq t []).seqs s = some l' := by
    by_cases hst : s = t
    · simp [Lists.setSeq, hst, hl']
    · simpa [Lists.setSeq, hst, hps.symm, hl'] using hs
  obtain ⟨σ₂, hbody, h₂⟩ := rep_concatBody h₁ (m := m) hs₁
    (by simp [Lists.setSeq, hpt]) hps.symm hfuel
  obtain ⟨σ₃, hdestroy, h₃⟩ := rep_destroySequence h₂ (s := param) (l := [])
    (by simp [Lists.setSeq]) hfuel
  refine ⟨σ₃, ?_, ?_⟩
  · rw [Pool.concat, hmove]
    simp only [Option.bind_eq_bind, Option.bind_some, hbody, hdestroy]
  · rw [Lists.free_nil] at h₃
    convert h₃ using 1
    have hseqs : (if s = t then a else (a.setSeq s (l ++ m)).setSeq t []).seqs =
        (((((a.setSeq param m).setSeq t []).setSeq s (l' ++ m)).setSeq param []).dropSeq param).seqs
        := by
      funext i
      simp only [Lists.setSeq, Lists.dropSeq, Function.update_idem, Function.update_apply]
      by_cases hst : s = t
      · have hlm : l = m := Option.some.inj (hs.symm.trans (hst ▸ ht))
        rw [if_pos hst, hl', if_pos hst, List.nil_append]
        split_ifs with h1 h2 h3
        · rw [h1, hp]
        · rw [h2, hs, hlm]
        · exact absurd (h3.trans hst.symm) h2
        · rfl
      · rw [if_neg hst, hl', if_neg hst]
        simp only [Function.update_apply]
        split_ifs with h1 h2 h3 h4 h5
        all_goals simp_all
    split_ifs at hseqs ⊢ with hst
    · exact congrArg (fun q => Lists.mk q a.bufs a.view a.allocs a.frees) hseqs
    · exact congrArg (fun q => Lists.mk q a.bufs a.view a.allocs a.frees) hseqs

/-! ### The simulation -/

/-- **Every operation of the pool does to the lists what it should**, given rounds
enough for the loop that frees a list. -/
theorem rep_step {op : BufferOp} (hstep : a.step op = some a') :
    ∃ N, ∀ fuel, N ≤ fuel → ∀ σ, Rep σ a → ∃ σ', σ.step fuel op = some σ' ∧ Rep σ' a' := by
  cases op with
  | newBuffer b n capacity =>
    refine ⟨0, fun fuel _ σ h => ?_⟩
    simp only [Lists.step, ite_eq_iff, reduceCtorEq, and_false, false_or, not_or,
      Bool.not_eq_true, Option.isSome_eq_false_iff, Option.isNone_iff_eq_none] at hstep
    obtain ⟨⟨hb, hn⟩, hstep⟩ := hstep
    rw [← Option.some.inj hstep]
    exact rep_newBuffer h hb hn
  | defaultBuffer b =>
    refine ⟨0, fun fuel _ σ h => ?_⟩
    cases hb : a.bufs b with
    | some x => simp [Lists.step, hb] at hstep
    | none =>
      simp only [Lists.step, hb, Option.isSome_none, Bool.false_eq_true, if_false] at hstep
      rw [← Option.some.inj hstep]
      refine ⟨_, ?_, rep_setBuf_none h (by simp [hb])⟩
      rw [Pool.step, Pool.defaultBuffer, h.bufs, hb]
      rfl
  | moveBuffer b c =>
    refine ⟨0, fun fuel _ σ h => ?_⟩
    cases hb : a.bufs b with
    | some x => simp [Lists.step, hb] at hstep
    | none =>
      simp only [Lists.step, hb, Option.isSome_none, Bool.false_eq_true, if_false,
        Option.bind_eq_bind, Option.bind_eq_some_iff] at hstep
      obtain ⟨y, hc, hstep⟩ := hstep
      rw [← Option.some.inj hstep]
      exact rep_moveBuffer h hb hc
  | assignBuffer b c =>
    refine ⟨0, fun fuel _ σ h => ?_⟩
    simp only [Lists.step, Option.bind_eq_bind, Option.bind_eq_some_iff] at hstep
    obtain ⟨x, hb, y, hc, hstep⟩ := hstep
    by_cases hne : b = c
    · rw [if_pos hne] at hstep
      rw [← Option.some.inj hstep]
      refine ⟨σ, ?_, h⟩
      rw [Pool.step, Pool.assignBuffer, h.bufs, h.bufs, hb, hc]
      exact if_pos hne
    · rw [if_neg hne] at hstep
      rw [← Option.some.inj hstep]
      exact rep_assignBuffer h hb hc hne
  | destroyBuffer b =>
    refine ⟨0, fun fuel _ σ h => ?_⟩
    simp only [Lists.step, Option.bind_eq_bind, Option.bind_eq_some_iff] at hstep
    obtain ⟨x, hb, hstep⟩ := hstep
    rw [← Option.some.inj hstep]
    exact rep_destroyBuffer h hb
  | setLen n size =>
    refine ⟨0, fun fuel _ σ h => ?_⟩
    simp only [Lists.step, Option.bind_eq_bind, Option.bind_eq_some_iff] at hstep
    obtain ⟨v, hn, hstep⟩ := hstep
    rw [← Option.some.inj hstep]
    exact rep_setLen h hn
  | newSequence s =>
    refine ⟨0, fun fuel _ σ h => ?_⟩
    cases hs : a.seqs s with
    | some l => simp [Lists.step, hs] at hstep
    | none =>
      simp only [Lists.step, hs, Option.isSome_none, Bool.false_eq_true, if_false] at hstep
      rw [← Option.some.inj hstep]
      exact rep_newSequence h hs
  | moveSequence s rhs =>
    refine ⟨0, fun fuel _ σ h => ?_⟩
    cases hs : a.seqs s with
    | some l => simp [Lists.step, hs] at hstep
    | none =>
      simp only [Lists.step, hs, Option.isSome_none, Bool.false_eq_true, if_false,
        Option.bind_eq_bind, Option.bind_eq_some_iff] at hstep
      obtain ⟨m, ht, hstep⟩ := hstep
      rw [← Option.some.inj hstep]
      exact rep_moveSequence h hs ht
  | assignSequence s rhs =>
    simp only [Lists.step, Option.bind_eq_bind, Option.bind_eq_some_iff] at hstep
    obtain ⟨l, hs, m, ht, hstep⟩ := hstep
    refine ⟨l.length + 1, fun fuel hfuel σ h => ?_⟩
    by_cases hne : s = rhs
    · rw [if_pos hne] at hstep
      rw [← Option.some.inj hstep]
      refine ⟨σ, ?_, h⟩
      rw [Pool.step, Pool.assignSequence, h.seqs, hs]
      exact if_pos hne
    · rw [if_neg hne] at hstep
      rw [← Option.some.inj hstep]
      exact rep_assignSequence h hs ht hne hfuel
  | destroySequence s =>
    simp only [Lists.step, Option.bind_eq_bind, Option.bind_eq_some_iff] at hstep
    obtain ⟨l, hs, hstep⟩ := hstep
    refine ⟨l.length + 1, fun fuel hfuel σ h => ?_⟩
    rw [← Option.some.inj hstep]
    exact rep_destroySequence h hs hfuel
  | pushBack s b =>
    refine ⟨0, fun fuel _ σ h => ?_⟩
    simp only [Lists.step, Option.bind_eq_bind, Option.bind_eq_some_iff] at hstep
    obtain ⟨x, hb, n, rfl, l, hs, hstep⟩ := hstep
    rw [← Option.some.inj hstep]
    exact rep_pushBack h hb hs
  | popFront s b =>
    refine ⟨0, fun fuel _ σ h => ?_⟩
    simp only [Lists.step, Option.bind_eq_bind, Option.bind_eq_some_iff] at hstep
    obtain ⟨l, hs, hstep⟩ := hstep
    cases hb : a.bufs b with
    | some x => simp [hb] at hstep
    | none =>
      cases l with
      | nil => simp [hb] at hstep
      | cons n l =>
        have hstep : (a.setBuf b (some n)).setSeq s l = a' := by simpa [hb] using hstep
        rw [← hstep]
        exact rep_popFront h hs hb
  | concat s t param =>
    refine ⟨1, fun fuel hfuel σ h => ?_⟩
    simp only [Lists.step, Option.bind_eq_bind, Option.bind_eq_some_iff] at hstep
    obtain ⟨l, hs, m, ht, hstep⟩ := hstep
    cases hp : a.seqs param with
    | some l' => simp [hp] at hstep
    | none =>
      have hstep : (if s = t then a else (a.setSeq s (l ++ m)).setSeq t []) = a' := by
        simp only [hp, Option.isSome_none, Bool.false_eq_true, if_false, ← apply_ite some] at hstep
        exact Option.some.inj hstep
      rw [← hstep]
      exact rep_concat h hs ht hp hfuel

/-! ### What a user sees -/

/-- **The object `q` is the list `l`** to a user: it counts the blocks of the list, its
iterators visit exactly them in either direction, and an iterator to any block of the
list goes on from there. -/
structure Represents (m : Mem) (s : Nat) (q : RecvBufferSequence) (l : List Nat) : Prop where
  nodup : l.Nodup
  numBufs : q.numBufs = l.length
  head : q.head = l.head?.map Addr.node
  tail : q.tail = l.getLast?.map Addr.node
  endIter : q.endIter = some (.sentry s)
  forward : Walk m.next q.beginIter (l.map Addr.node) q.endIter
  backward : Walk m.prev (m.prev (.sentry s)) (l.reverse.map Addr.node) none
  iterator : ∀ pre n post, l = pre ++ n :: post →
    Walk m.next (some (.node n)) ((n :: post).map Addr.node) q.endIter ∧
      Walk m.prev (some (.node n)) ((n :: pre.reverse).map Addr.node) none

/-- **The pool refines the lists.** -/
structure Refines (σ : Pool) (a : Lists) : Prop where
  live : ∀ s, (σ.seqs s).isSome = (a.seqs s).isSome
  sequence : ∀ s l, a.seqs s = some l → ∃ q, σ.seqs s = some q ∧ Represents σ.mem s q l
  buffer : ∀ b, σ.bufs b = (a.bufs b).map bufOf
  view : ∀ n, σ.mem.view (.node n) = a.view n
  owner : ∀ n, (σ.mem (.node n)).isSome → ∃! o, a.Holds o n
  allocated : ∀ o n, a.Holds o n → (σ.mem (.node n)).isSome
  balance : ∀ n, σ.allocs n = σ.frees n + if (σ.mem (.node n)).isSome then 1 else 0

theorem Rep.represents (h : Rep σ a) (hs : a.seqs s = some l) :
    Represents σ.mem s (seqOf s l) l := by
  have hth := h.threads s l hs
  have hforward : Walk σ.mem.next (seqOf s l).beginIter (l.map Addr.node) (some (.sentry s)) := by
    rcases eq_or_ne l [] with rfl | hl
    · rfl
    · have hempty : (seqOf s l).empty = false := by simpa [seqOf, RecvBufferSequence.empty] using hl
      rw [RecvBufferSequence.beginIter, hempty]
      exact hth.forward (by simpa using hl)
  have hbackward : Walk σ.mem.prev (σ.mem.prev (.sentry s)) (l.reverse.map Addr.node) none := by
    rw [hth.back, List.map_reverse]
    exact hth.backward
  refine ⟨h.nodup hs, rfl, rfl, rfl, rfl, hforward, hbackward, ?_⟩
  rintro pre n post rfl
  constructor
  · rw [List.map_append] at hforward
    exact hforward.from_mem
  · rw [List.reverse_append, List.reverse_cons, List.append_assoc, List.map_append] at hbackward
    exact hbackward.from_mem

theorem Rep.refines (h : Rep σ a) : Refines σ a where
  live := fun s => by rw [h.seqs, Option.isSome_map]
  sequence := fun s l hs => ⟨seqOf s l, by rw [h.seqs, hs]; rfl, h.represents hs⟩
  buffer := h.bufs
  view := h.view
  owner := fun n hn => h.owned.existsUnique (by rwa [Lists.Allocated, ← h.view, Mem.isSome_view])
  allocated := fun o n ho => by
    rw [← Mem.isSome_view, h.view]
    exact h.owned.live_of_held ho
  balance := fun n => by
    rw [← Mem.isSome_view, h.view, h.allocs, h.frees]
    exact h.balance n

/-- **A pool of sequences refines lists of blocks**: what a program does to the lists,
it does to the pool, without a fault. -/
theorem recvBufferSequence_refines (ops : List BufferOp) (a : Lists)
    (hrun : run Lists.step Lists.init ops = some a) :
    ∃ N, ∀ fuel, N ≤ fuel →
      ∃ σ, run (Pool.step fuel) Pool.init ops = some σ ∧ Refines σ a := by
  obtain ⟨N, hN⟩ := run_simulation Pool.step (R := Rep) (fun _ _ _ => rep_step) hrun
  refine ⟨N, fun fuel hfuel => ?_⟩
  obtain ⟨σ, hσ, h⟩ := hN fuel hfuel Pool.init rep_init
  exact ⟨σ, hσ, h.refines⟩

/-- Two buffers are appended to a sequence, which is concatenated onto itself and then
moved; the first buffer is taken back and destroyed. -/
theorem recvBufferSequence_refines_sample :
    ∃ a, run Lists.step Lists.init
        [.newSequence 0, .newBuffer 0 10 64, .pushBack 0 0, .newBuffer 1 11 64, .pushBack 0 1,
          .concat 0 0 7, .moveSequence 1 0, .popFront 1 2, .destroyBuffer 2] = some a ∧
      a.seqs 0 = some [] ∧ a.seqs 1 = some [11] ∧ a.bufs 1 = some none ∧ a.bufs 2 = none ∧
      ∃ N, ∀ fuel, N ≤ fuel → ∃ σ, run (Pool.step fuel) Pool.init
        [.newSequence 0, .newBuffer 0 10 64, .pushBack 0 0, .newBuffer 1 11 64, .pushBack 0 1,
          .concat 0 0 7, .moveSequence 1 0, .popFront 1 2, .destroyBuffer 2] = some σ ∧
        Refines σ a :=
  ⟨_, rfl, rfl, rfl, rfl, rfl, recvBufferSequence_refines _ _ rfl⟩

end Fiona
