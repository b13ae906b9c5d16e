import Mathlib.Data.List.Basic
import Mathlib.Data.List.Nodup
import Mathlib.Logic.Function.Basic

/-!
# Lists threaded through a sentry

A doubly linked list whose nodes live in a memory is described here by two link
functions, `next` and `prev`, that give for each address the pointer stored
there – `none` is the null pointer. The list ends in a **sentry**: the last node
points forward to it, and it points back to the last node, so that the past-the-end
position is an address like any other and can be walked back from.

`Threaded.Walk` says what following one link function from a pointer visits and
where it stops. `Threaded.Threads` puts the two directions together with the
head and tail pointers of the list. Nothing here knows how the links are stored:
an operation on a list is described by what it changes of the two functions,
and each of the results below says which list the new functions thread.

| operation | theorem |
|---|---|
| a node is appended | `Threaded.Threads.push` |
| the first node is unlinked | `Threaded.Threads.pop` |
| the list moves to another sentry | `Threaded.Threads.rehome` |
| another list is spliced on | `Threaded.Threads.splice` |
| something else changes | `Threaded.Threads.frame` |
-/

namespace Threaded

variable {A : Type*}

/-! ### Walks -/

/-- Following `f` from the pointer `p` visits exactly the nodes `l`, in order, and
stops at the pointer `q`. -/
def Walk (f : A → Option A) : Option A → List A → Option A → Prop
  | p, [], q => p = q
  | p, a :: l, q => p = some a ∧ Walk f (f a) l q

variable {f g : A → Option A} {p q r : Option A} {l m : List A} {a b : A}

@[simp] theorem walk_nil : Walk f p [] q ↔ p = q := Iff.rfl

@[simp] theorem walk_cons : Walk f p (a :: l) q ↔ p = some a ∧ Walk f (f a) l q := Iff.rfl

/-- A walk along two lists is a walk along the first followed by a walk along the
second. -/
theorem walk_append : Walk f p (l ++ m) q ↔ ∃ r, Walk f p l r ∧ Walk f r m q := by
  induction l generalizing p with
  | nil => simp
  | cons a l ih =>
    simp only [List.cons_append, walk_cons, ih]
    constructor
    · rintro ⟨h, r, h1, h2⟩
      exact ⟨r, ⟨h, h1⟩, h2⟩
    · rintro ⟨r, ⟨h, h1⟩, h2⟩
      exact ⟨h, r, h1, h2⟩

/-- The last step of a walk. -/
theorem walk_concat : Walk f p (l ++ [a]) q ↔ Walk f p l (some a) ∧ f a = q := by
  rw [walk_append]
  constructor
  · rintro ⟨r, h, rfl, h'⟩
    exact ⟨h, h'⟩
  · rintro ⟨h, h'⟩
    exact ⟨some a, h, rfl, h'⟩

/-- A walk only reads the links of the nodes it visits. -/
theorem Walk.congr (h : Walk f p l q) (hfg : ∀ a ∈ l, g a = f a) : Walk g p l q := by
  induction l generalizing p with
  | nil => exact h
  | cons a l ih =>
    refine ⟨h.1, ?_⟩
    rw [hfg a (List.mem_cons_self ..)]
    exact ih h.2 fun b hb => hfg b (List.mem_cons_of_mem _ hb)

/-- A walk that visits a node starts, from there on, at that node. -/
theorem Walk.from_mem (h : Walk f p (l ++ a :: m) q) : Walk f (some a) (a :: m) q := by
  obtain ⟨r, -, hr⟩ := walk_append.mp h
  obtain ⟨rfl, h'⟩ := walk_cons.mp hr
  exact ⟨rfl, h'⟩

/-- **Relinking the last node**: a walk whose last node is made to point
elsewhere stops elsewhere. -/
theorem Walk.relink (h : Walk f p (l ++ [a]) q) (hfg : ∀ b ∈ l, g b = f b) (hga : g a = r) :
    Walk g p (l ++ [a]) r := by
  rw [walk_concat] at h ⊢
  exact ⟨h.1.congr hfg, hga⟩

/-! ### Threaded lists -/

/-- **The nodes `l` are threaded between `head` and the sentry `e`**: walking
`next` from the head visits them and stops at the sentry, walking `prev` from the
tail visits them backwards and stops at the null pointer, and the sentry points
back to the tail. The head and the tail of an empty list are null. -/
structure Threads (next prev : A → Option A) (e : A) (head tail : Option A) (l : List A) :
    Prop where
  nodup : l.Nodup
  sentry_notMem : e ∉ l
  forward : l ≠ [] → Walk next head l (some e)
  backward : Walk prev tail l.reverse none
  head_eq : head = l.head?
  back : prev e = tail

variable {next prev next' prev' : A → Option A} {e e' : A} {head tail head' tail' : Option A}

/-- A fresh sentry threads the empty list. -/
theorem Threads.empty (h : prev e = none) : Threads next prev e none none [] where
  nodup := List.nodup_nil
  sentry_notMem := List.not_mem_nil
  forward := fun h => absurd rfl h
  backward := rfl
  head_eq := rfl
  back := h

section

variable (h : Threads next prev e head tail l)

include h

/-- The tail pointer is the last node of the list. -/
theorem Threads.tail_eq : tail = l.getLast? := by
  have hb := h.backward
  rcases List.eq_nil_or_concat l with rfl | ⟨l, a, rfl⟩
  · simpa using hb
  · rw [List.concat_eq_append, List.reverse_append] at hb
    rw [List.concat_eq_append, List.getLast?_append]
    simpa using hb.1

theorem Threads.head_eq_none_iff : head = none ↔ l = [] := by
  rw [h.head_eq, List.head?_eq_none_iff]

/-- **The frame rule**: links that no node of the list and not the sentry holds
may change. -/
theorem Threads.frame (hn : ∀ a ∈ l, next' a = next a) (hp : ∀ a ∈ l, prev' a = prev a)
    (he : prev' e = prev e) : Threads next' prev' e head tail l where
  nodup := h.nodup
  sentry_notMem := h.sentry_notMem
  forward := fun hl => (h.forward hl).congr hn
  backward := h.backward.congr fun a ha => hp a (List.mem_reverse.mp ha)
  head_eq := h.head_eq
  back := he.trans h.back

variable [DecidableEq A]

/-- Making the last node of a nonempty list point forward to `q` makes the forward
walk stop at `q`. -/
theorem Threads.forward_relink (hl : l ≠ [])
    (hn : ∀ b ∈ l, next' b = if tail = some b then q else next b) : Walk next' head l q := by
  rcases List.eq_nil_or_concat l with rfl | ⟨l, b, rfl⟩
  · exact absurd rfl hl
  · rw [List.concat_eq_append] at *
    have htail : tail = some b := by
      rw [h.tail_eq]
      simp
    have hnd := h.nodup
    rw [List.nodup_append] at hnd
    refine (h.forward hl).relink (fun c hc => ?_) ?_
    · rw [hn c (List.mem_append_left _ hc), if_neg]
      rw [htail]
      intro hcon
      exact hnd.2.2 c hc b (List.mem_singleton_self b) (Option.some.inj hcon).symm
    · rw [hn b (List.mem_append_right _ (List.mem_singleton_self b)), if_pos htail]

variable (next' prev') in
/-- **Appending a node**: the old last node points forward to it, it points back to
the old tail and forward to the sentry, and the sentry points back to it. -/
theorem Threads.push (hal : a ∉ l) (hae : a ≠ e)
    (hn : ∀ b ∈ l, next' b = if tail = some b then some a else next b)
    (hna : next' a = some e) (hp : ∀ b ∈ l, prev' b = prev b) (hpa : prev' a = tail)
    (hpe : prev' e = some a) :
    Threads next' prev' e (if head = none then some a else head) (some a) (l ++ [a]) where
  nodup := by
    rw [List.nodup_append]
    exact ⟨h.nodup, List.nodup_singleton a, fun b hb c hc => by
      rw [List.mem_singleton.mp hc]
      rintro rfl
      exact hal hb⟩
  sentry_notMem := by
    rw [List.mem_append, List.mem_singleton]
    rintro (hc | rfl)
    · exact h.sentry_notMem hc
    · exact hae rfl
  forward := by
    intro _
    rw [walk_concat]
    refine ⟨?_, hna⟩
    rcases eq_or_ne l [] with rfl | hl
    · rw [if_pos (h.head_eq_none_iff.mpr rfl)]
      rfl
    · rw [if_neg fun hc => hl (h.head_eq_none_iff.mp hc)]
      exact h.forward_relink hl hn
  backward := by
    rw [List.reverse_append]
    refine ⟨rfl, ?_⟩
    rw [hpa]
    exact h.backward.congr fun b hb => hp b (List.mem_reverse.mp hb)
  head_eq := by
    rw [h.head_eq]
    cases l <;> simp
  back := hpe

/-- **Moving to another sentry**: the last node is made to point forward to the
new sentry, which points back to the tail. -/
theorem Threads.rehome (he' : e' ∉ l)
    (hn : ∀ b ∈ l, next' b = if tail = some b then some e' else next b)
    (hp : ∀ b ∈ l, prev' b = prev b) (hpe : prev' e' = tail) :
    Threads next' prev' e' head tail l where
  nodup := h.nodup
  sentry_notMem := he'
  forward := fun hl => h.forward_relink hl hn
  backward := h.backward.congr fun b hb => hp b (List.mem_reverse.mp hb)
  head_eq := h.head_eq
  back := hpe

end

/-- The head of a nonempty list points forward to the next node, or to the sentry
if there is none. -/
theorem Threads.next_head (h : Threads next prev e head tail (a :: l)) :
    next a = some (l.head?.getD e) := by
  have hw := (h.forward (by simp)).2
  cases l with
  | nil => exact hw
  | cons b l => exact hw.1

section

variable [DecidableEq A]

variable (next' prev') in
/-- **Unlinking the first node**: its successor – the sentry, if it was the only
one – is made to point back to nothing. -/
theorem Threads.pop (h : Threads next prev e head tail (a :: l))
    (hn : ∀ b ∈ l, next' b = next b)
    (hp : ∀ b, b ∈ l ∨ b = e → prev' b = if b = l.head?.getD e then none else prev b) :
    Threads next' prev' e l.head? (if l = [] then none else tail) l where
  nodup := (List.nodup_cons.mp h.nodup).2
  sentry_notMem := fun hc => h.sentry_notMem (List.mem_cons_of_mem _ hc)
  forward := by
    intro hl
    have hw := (h.forward (by simp)).2
    obtain ⟨b, l, rfl⟩ := List.exists_cons_of_ne_nil hl
    exact Walk.congr ⟨rfl, hw.2⟩ hn
  backward := by
    cases l with
    | nil => rfl
    | cons b l =>
      rw [if_neg (by simp)]
      have hb := h.backward
      rw [List.reverse_cons, walk_concat, List.reverse_cons, walk_concat] at hb
      rw [List.reverse_cons]
      have hnd := (List.nodup_cons.mp h.nodup).2
      refine walk_concat.mpr ⟨hb.1.1.congr fun c hc => ?_, ?_⟩
      · have hcl : c ∈ l := List.mem_reverse.mp hc
        rw [hp c (Or.inl (List.mem_cons_of_mem _ hcl)), if_neg]
        rintro rfl
        exact (List.nodup_cons.mp hnd).1 hcl
      · rw [hp b (Or.inl (List.mem_cons_self ..))]
        simp
  head_eq := rfl
  back := by
    cases l with
    | nil =>
      rw [hp e (Or.inr rfl)]
      simp
    | cons b l =>
      rw [if_neg (by simp), hp e (Or.inr rfl), if_neg, h.back]
      rintro rfl
      exact h.sentry_notMem (by simp)

variable (next' prev') in
/-- **Splicing**: the last node of the first list is made to point forward to the
head of the second, which points back to it; the last node of the second list
points forward to the first sentry, which points back to it. -/
theorem Threads.splice (h : Threads next prev e head tail l)
    (h' : Threads next prev e' head' tail' m) (hl : l ≠ []) (hm : m ≠ [])
    (hdisj : ∀ a ∈ l, a ∉ m) (hem : e ∉ m)
    (hnl : ∀ b ∈ l, next' b = if tail = some b then head' else next b)
    (hnm : ∀ b ∈ m, next' b = if tail' = some b then some e else next b)
    (hpl : ∀ b ∈ l, prev' b = prev b)
    (hpm : ∀ b ∈ m, prev' b = if head' = some b then tail else prev b)
    (hpe : prev' e = tail') :
    Threads next' prev' e head tail' (l ++ m) where
  nodup := by
    rw [List.nodup_append]
    refine ⟨h.nodup, h'.nodup, fun a ha b hb => ?_⟩
    rintro rfl
    exact hdisj a ha hb
  sentry_notMem := by
    rw [List.mem_append]
    rintro (hc | hc)
    · exact h.sentry_notMem hc
    · exact hem hc
  forward := by
    intro _
    rw [walk_append]
    exact ⟨head', h.forward_relink hl hnl, h'.forward_relink hm hnm⟩
  backward := by
    have hbl : Walk prev' tail l.reverse none :=
      h.backward.congr fun b hb => hpl b (List.mem_reverse.mp hb)
    rw [List.reverse_append, walk_append]
    refine ⟨tail, ?_, hbl⟩
    obtain ⟨b, m, rfl⟩ := List.exists_cons_of_ne_nil hm
    have hhead : head' = some b := h'.head_eq
    have hb := h'.backward
    rw [List.reverse_cons] at hb ⊢
    have hnd := List.nodup_cons.mp h'.nodup
    refine hb.relink (fun c hc => ?_) ?_
    · have hcm : c ∈ m := List.mem_reverse.mp hc
      rw [hpm c (List.mem_cons_of_mem _ hcm), if_neg]
      rw [hhead]
      intro hcon
      exact hnd.1 (Option.some.inj hcon ▸ hcm)
    · rw [hpm b (List.mem_cons_self ..), if_pos hhead]
  head_eq := by
    rw [h.head_eq]
    obtain ⟨b, l, rfl⟩ := List.exists_cons_of_ne_nil hl
    rfl
  back := hpe

end

end Threaded
