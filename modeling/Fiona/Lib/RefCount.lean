import Mathlib.Data.List.Count
import Mathlib.Data.List.Perm.Basic
import Mathlib.Logic.Function.Basic

/-!
# Objects counted by references that objects own

An object is destroyed when its counter reaches zero, and a reference can lie inside
an object: destroying that object destroys the reference, which may destroy the object
it refers to, and so on. The shape of the graph is arbitrary, cycles included.

The references that are there are the list `refs` – two references that agree in everything
are interchangeable, so a list with repetitions is all that is needed. References that are not in
it, and other claims to an object such as its place in a table, are accounted for by
`ext`. While a destruction is going on, the references that lie in destroyed objects are
*pending*. `RefCount.Balanced` says that all is well in between: counters are right, an object is
there exactly as long as its counter is positive, and what is pending is exactly what lies in
destroyed objects. A destruction carried to its end (`RefCount.Heap.destroyRefs`) leaves nothing
pending and touches no object that is not there (`RefCount.Balanced.destroyRefs`).

What is destroyed along with an object is what nothing else leads to: `RefCount.Doomed`.
-/

namespace RefCount

variable {O R σ : Type*}

/-- Counters, the objects that are there, and the references. -/
structure Heap (O R : Type*) where
  count : O → Int
  alive : O → Bool
  refs : List R

variable [DecidableEq O] [DecidableEq R] (target : R → O) (owner : R → Option O)

namespace Heap

variable (h : Heap O R)

/-- A new object, with one claim to it. -/
def create (o : O) : Heap O R :=
  { h with count := Function.update h.count o 1, alive := Function.update h.alive o true }

/-- One more claim to an object; `none` if it is not there. -/
def addRef (o : O) : Option (Heap O R) :=
  if h.alive o then some { h with count := Function.update h.count o (h.count o + 1) } else none

/-- A claim goes. If it was the last the object is destroyed, and the references that lie
in it are to be destroyed next. -/
def release (o : O) : Option (Heap O R × List R) :=
  if h.alive o then
    let h' := { h with count := Function.update h.count o (h.count o - 1) }
    if h'.count o = 0 then
      some ({ h' with alive := Function.update h.alive o false },
        h.refs.filter fun r => owner r = some o)
    else some (h', [])
  else none

/-- A reference goes from the list. -/
def detach (r : R) : Heap O R := { h with refs := h.refs.erase r }

/-- References are destroyed, each with what its destruction brings about; `hook` is what
the destructor of a reference does beside. The number bounds the rounds. -/
def destroyRefs (hook : R → σ → σ) : Nat → Heap O R → σ → List R → Option (Heap O R × σ)
  | _, h, s, [] => some (h, s)
  | 0, _, _, _ :: _ => none
  | n + 1, h, s, r :: rest =>
    ((h.detach r).release owner (target r)).bind fun (h', more) =>
      destroyRefs hook n h' (hook r s) (more ++ rest)

end Heap

/-! ### The balance -/

/-- The reference lies in an object that is not there. -/
def Orphan (h : Heap O R) (r : R) : Prop := ∃ o, owner r = some o ∧ h.alive o = false

omit [DecidableEq O] [DecidableEq R] in
theorem dead_of_dead {h h' : Heap O R} (hle : ∀ x, h'.alive x = true → h.alive x = true) {x : O}
    (hx : h.alive x = false) : h'.alive x = false := by
  by_contra hcon
  exact absurd (hle x (by simpa using hcon)) (by simp [hx])

/-- **All is well**, but for the references that are pending. -/
structure Balanced (ext : O → Nat) (pend : List R) (h : Heap O R) : Prop where
  count : ∀ o, h.count o = ext o + (h.refs.countP fun r => target r = o)
  alive : ∀ o, h.alive o = true ↔ 0 < h.count o
  pend_le : ∀ r, pend.count r ≤ h.refs.count r
  pend_of_orphan : ∀ r, Orphan owner h r → pend.count r = h.refs.count r
  orphan_of_pend : ∀ r ∈ pend, Orphan owner h r

variable {target owner} {ext ext' : O → Nat} {pend : List R} {h h' : Heap O R} {o : O} {r : R}

namespace Balanced

/-- A reference that is about to go is there. -/
theorem mem_of_pend {rest : List R} (hb : Balanced target owner ext (r :: rest) h) :
    r ∈ h.refs := by
  have hle := hb.pend_le r
  rw [List.count_cons_self] at hle
  exact List.count_pos_iff.mp (by omega)

theorem alive_of_ext (hb : Balanced target owner ext pend h) (ho : 0 < ext o) :
    h.alive o = true := by
  have hcount := hb.count o
  rw [hb.alive]
  omega

theorem alive_of_mem (hb : Balanced target owner ext pend h) (hr : r ∈ h.refs) :
    h.alive (target r) = true := by
  have hcount := hb.count (target r)
  have hpos : 0 < h.refs.countP fun r' => target r' = target r :=
    List.countP_pos_iff.mpr ⟨r, hr, by simp⟩
  rw [hb.alive]
  omega

theorem count_of_dead (hb : Balanced target owner ext pend h) (ho : h.alive o = false) :
    h.count o = 0 := by
  have hcount := hb.count o
  have hnot : ¬0 < h.count o := fun hpos => by simp [(hb.alive o).mpr hpos] at ho
  omega

/-- Nothing is pending: every reference lies in an object that is there, or in none. -/
theorem not_orphan (hb : Balanced target owner ext [] h) (hr : r ∈ h.refs) : ¬Orphan owner h r := by
  intro horphan
  have hcount := hb.pend_of_orphan r horphan
  have hpos := List.count_pos_iff.mpr hr
  simp only [List.count_nil] at hcount
  omega

theorem create (hb : Balanced target owner ext [] h) (ho : h.count o = 0)
    (hext : ∀ x, ext' x = ext x + if x = o then 1 else 0) :
    Balanced target owner ext' [] (h.create o) where
  count := by
    intro x
    have hx := hb.count x
    rw [hext]
    rcases eq_or_ne x o with rfl | hne
    · simp only [Heap.create, Function.update_self, if_true]
      omega
    · simp only [Heap.create, Function.update_of_ne hne, hne, if_false]
      omega
  alive := by
    intro x
    rcases eq_or_ne x o with rfl | hne
    · simp [Heap.create]
    · simpa [Heap.create, hne] using hb.alive x
  pend_le := by simp
  pend_of_orphan := by
    rintro r ⟨p, hp, hdead⟩
    refine hb.pend_of_orphan r ⟨p, hp, ?_⟩
    rcases eq_or_ne p o with rfl | hne
    · simp [Heap.create] at hdead
    · simpa [Heap.create, hne] using hdead
  orphan_of_pend := by simp

/-- One more claim. -/
theorem addRef (hb : Balanced target owner ext pend h) (ho : h.alive o = true)
    (hext : ∀ x, ext' x = ext x + if x = o then 1 else 0) :
    ∃ h', h.addRef o = some h' ∧ h'.refs = h.refs ∧ h'.alive = h.alive ∧
      Balanced target owner ext' pend h' := by
  refine ⟨_, if_pos ho, rfl, rfl, fun x => ?_, fun x => ?_, hb.pend_le, hb.pend_of_orphan,
    hb.orphan_of_pend⟩
  · have hx := hb.count x
    rw [hext]
    rcases eq_or_ne x o with rfl | hne
    · simp only [Function.update_self, if_true]
      omega
    · simp only [Function.update_of_ne hne, hne, if_false]
      omega
  · rcases eq_or_ne x o with rfl | hne
    · have hpos := (hb.alive x).mp ho
      simp only [Function.update_self, ho, true_iff]
      omega
    · simpa only [Function.update_of_ne hne] using hb.alive x

/-- A claim becomes a reference. -/
theorem attach (hb : Balanced target owner ext pend h) (hr : ¬Orphan owner h r)
    (hext : ∀ x, ext x = ext' x + if x = target r then 1 else 0) :
    Balanced target owner ext' pend { h with refs := r :: h.refs } where
  count := by
    intro x
    have hx := hb.count x
    rw [hext] at hx
    rcases eq_or_ne x (target r) with rfl | hne
    · simp only [if_true, List.countP_cons, decide_true] at hx ⊢
      omega
    · simp only [hne, if_false, List.countP_cons, hne.symm, decide_false] at hx ⊢
      simpa using hx
  alive := hb.alive
  pend_le := fun r' => Nat.le_trans (hb.pend_le r') List.count_le_count_cons
  pend_of_orphan := by
    intro r' horphan
    have hne : r ≠ r' := by
      rintro rfl
      exact hr horphan
    rw [List.count_cons_of_ne hne]
    exact hb.pend_of_orphan r' horphan
  orphan_of_pend := hb.orphan_of_pend

/-- A reference becomes a claim; if it was pending it is so no more. -/
theorem detach (hb : Balanced target owner ext pend h) (hmem : r ∈ h.refs)
    (hext : ∀ x, ext' x = ext x + if x = target r then 1 else 0) :
    Balanced target owner ext' (pend.erase r) (h.detach r) where
  count := by
    intro x
    have hx := hb.count x
    have hperm := (List.perm_cons_erase hmem).countP_eq fun r' => decide (target r' = x)
    rw [hext]
    simp only [Heap.detach, List.countP_cons, decide_eq_true_eq, eq_comm (a := target r)] at hperm ⊢
    omega
  alive := hb.alive
  pend_le := by
    intro r'
    rw [Heap.detach, List.count_erase, List.count_erase]
    exact Nat.sub_le_sub_right (hb.pend_le r') _
  pend_of_orphan := by
    intro r' horphan
    rw [Heap.detach, List.count_erase, List.count_erase, hb.pend_of_orphan r' horphan]
  orphan_of_pend := fun r' hr' => hb.orphan_of_pend r' (List.mem_of_mem_erase hr')

/-- **A claim goes**, and what lies in an object that is destroyed with it is pending. -/
theorem release (hb : Balanced target owner ext pend h) (ho : 0 < ext o)
    (hext : ∀ x, ext x = ext' x + if x = o then 1 else 0) :
    ∃ h' more, h.release owner o = some (h', more) ∧ h'.refs = h.refs ∧
      (∀ x, h'.alive x = true → h.alive x = true) ∧
      Balanced target owner ext' (more ++ pend) h' := by
  have hcounts : ∀ x, Function.update h.count o (h.count o - 1) x =
      ext' x + (h.refs.countP fun r => target r = x) := by
    intro x
    have hx := hb.count x
    rw [hext] at hx
    rcases eq_or_ne x o with rfl | hne
    · simp only [Function.update_self, if_true] at hx ⊢
      omega
    · simp only [Function.update_of_ne hne, hne, if_false] at hx ⊢
      omega
  have halive := hb.alive_of_ext ho
  have hpos := (hb.alive o).mp halive
  unfold Heap.release
  rw [if_pos halive]
  simp only [Function.update_self]
  split_ifs with hzero
  · -- the object is destroyed, and nothing that lies in it was pending
    have hdead : ∀ x, Function.update h.alive o false x = true ↔ x ≠ o ∧ h.alive x = true := by
      intro x
      rcases eq_or_ne x o with rfl | hne
      · simp
      · simp [hne]
    have hmore : ∀ r, (h.refs.filter fun r => owner r = some o).count r + pend.count r =
        if owner r = some o then h.refs.count r else pend.count r := by
      intro r
      split_ifs with hr
      · have hnot : r ∉ pend := by
          intro hmem
          obtain ⟨p, hp, hdead'⟩ := hb.orphan_of_pend r hmem
          obtain rfl := Option.some.inj (hp.symm.trans hr)
          simp [halive] at hdead'
        rw [List.count_filter (by simpa using hr), List.count_eq_zero_of_not_mem hnot, Nat.add_zero]
      · have hnot : r ∉ h.refs.filter fun r => owner r = some o := by simp [hr]
        rw [List.count_eq_zero_of_not_mem hnot, Nat.zero_add]
    refine ⟨_, _, rfl, rfl, fun x hx => ((hdead x).mp hx).2, hcounts, fun x => ?_, fun r => ?_,
      fun r horphan => ?_, fun r hr => ?_⟩
    · rw [hdead]
      rcases eq_or_ne x o with rfl | hne
      · simp only [Function.update_self, ne_eq, not_true, false_and, false_iff]
        omega
      · simpa only [Function.update_of_ne hne, hne, ne_eq, not_false_iff, true_and] using hb.alive x
    · rw [List.count_append, hmore]
      split_ifs with hr
      · exact Nat.le_refl _
      · exact hb.pend_le r
    · rw [List.count_append, hmore]
      split_ifs with hr
      · rfl
      · obtain ⟨p, hp, hgone⟩ := horphan
        have hne : p ≠ o := by
          rintro rfl
          exact hr hp
        exact hb.pend_of_orphan r ⟨p, hp, by simpa [hne] using hgone⟩
    · rcases List.mem_append.mp hr with hr | hr
      · exact ⟨o, by simpa using (List.mem_filter.mp hr).2, by simp⟩
      · obtain ⟨p, hp, hgone⟩ := hb.orphan_of_pend r hr
        have hne : p ≠ o := by
          rintro rfl
          simp [halive] at hgone
        exact ⟨p, hp, by simpa [hne] using hgone⟩
  -- other claims are left, and the object stays
  · refine ⟨_, [], rfl, rfl, fun _ => id, hcounts, fun x => ?_, hb.pend_le, hb.pend_of_orphan,
      hb.orphan_of_pend⟩
    rcases eq_or_ne x o with rfl | hne
    · simp only [Function.update_self, halive, true_iff]
      omega
    · simpa only [Function.update_of_ne hne] using hb.alive x

/-- **A destruction comes to its end**, within as many rounds as there are references: it touches no
object that is not there, and nothing stays pending. The references that go, which all lie in
destroyed objects, are destroyed one after the other. -/
theorem destroyRefs (hook : R → σ → σ) {n : Nat} (s : σ) (hb : Balanced target owner ext pend h)
    (hn : h.refs.length ≤ n) :
    ∃ h' gone, h.destroyRefs target owner hook n s pend =
        some (h', gone.foldl (fun s r => hook r s) s) ∧
      h.refs.Perm (gone ++ h'.refs) ∧ (∀ x, h'.alive x = true → h.alive x = true) ∧
      (∀ r ∈ gone, Orphan owner h' r) ∧ Balanced target owner ext [] h' := by
  induction n generalizing h s pend with
  | zero =>
    have hrefs : h.refs = [] := List.length_eq_zero_iff.mp (by omega)
    have hpend : pend = [] := by
      refine List.eq_nil_iff_forall_not_mem.mpr fun r hr => ?_
      have hle := hb.pend_le r
      have hpos := List.count_pos_iff.mpr hr
      rw [hrefs, List.count_nil] at hle
      omega
    subst hpend
    exact ⟨h, [], rfl, .refl _, fun _ => id, by simp, hb⟩
  | succ n ih =>
    cases pend with
    | nil => exact ⟨h, [], rfl, .refl _, fun _ => id, by simp, hb⟩
    | cons r rest =>
      have hmem : r ∈ h.refs := hb.mem_of_pend
      have hdetach := hb.detach hmem fun _ => rfl
      rw [List.erase_cons_head] at hdetach
      obtain ⟨h₁, more, hrelease, hrefs, halive, hb₁⟩ := hdetach.release (o := target r)
        (by simp) fun _ => rfl
      -- a round takes a reference from the list, whatever it makes pending
      have hlen : h₁.refs.length ≤ n := by
        have herase := List.length_erase_of_mem hmem
        simp only [hrefs, Heap.detach, herase]
        omega
      obtain ⟨h', gone, heq, hperm, halive', horphans, hb'⟩ := ih (hook r s) hb₁ hlen
      have horphan : Orphan owner h' r := by
        obtain ⟨p, hp, hdead⟩ := hb.orphan_of_pend r List.mem_cons_self
        exact ⟨p, hp, dead_of_dead (fun x hx => halive x (halive' x hx)) hdead⟩
      refine ⟨h', r :: gone, ?_, ?_, fun x hx => halive x (halive' x hx),
        List.forall_mem_cons.mpr ⟨horphan, horphans⟩, hb'⟩
      · rw [Heap.destroyRefs, hrelease]
        exact heq
      · rw [hrefs] at hperm
        exact (List.perm_cons_erase hmem).trans (hperm.cons r)

/-- **A reference is destroyed**, with all that this brings about. -/
theorem destroyRef (hook : R → σ → σ) (s : σ) (hb : Balanced target owner ext [] h)
    (hmem : r ∈ h.refs) : ∃ h' gone, h.destroyRefs target owner hook h.refs.length s [r] =
        some (h', gone.foldl (fun s r => hook r s) (hook r s)) ∧
      h.refs.Perm (r :: gone ++ h'.refs) ∧ (∀ x, h'.alive x = true → h.alive x = true) ∧
      (∀ r ∈ gone, Orphan owner h' r) ∧ Balanced target owner ext [] h' := by
  have hdetach := hb.detach hmem fun _ => rfl
  obtain ⟨h₁, more, hrelease, hrefs, halive, hb₁⟩ :=
    hdetach.release (o := target r) (by simp) fun _ => rfl
  obtain ⟨n, hn⟩ : ∃ n, h.refs.length = n + 1 :=
    Nat.exists_eq_succ_of_ne_zero (Nat.ne_of_gt (List.length_pos_of_mem hmem))
  have hlen : h₁.refs.length ≤ n := by
    have herase := List.length_erase_of_mem hmem
    simp only [hrefs, Heap.detach, herase]
    omega
  obtain ⟨h', gone, heq, hperm, halive', horphans, hb'⟩ := hb₁.destroyRefs hook (hook r s) hlen
  refine ⟨h', gone, ?_, ?_, fun x hx => halive x (halive' x hx), horphans, by simpa using hb'⟩
  · rw [hn, Heap.destroyRefs, hrelease]
    simpa using heq
  · rw [hrefs] at hperm
    exact (List.perm_cons_erase hmem).trans (hperm.cons r)

end Balanced

/-! ### What goes along -/

/-- Nothing leads to the object but references that lie in objects of the same kind. -/
inductive Doomed (target : R → O) (owner : R → Option O) (refs : List R) : O → Prop
  | intro (o : O) (inside : ∀ r ∈ refs, target r = o → (owner r).isSome = true)
    (within : ∀ r ∈ refs, ∀ p, target r = o → owner r = some p → Doomed target owner refs p) :
    Doomed target owner refs o

omit [DecidableEq O] [DecidableEq R] in
theorem doomed_of {refs : List R}
    (h : ∀ r ∈ refs, target r = o → ∃ p, owner r = some p ∧ Doomed target owner refs p) :
    Doomed target owner refs o := by
  refine .intro o (fun r hr hro => ?_) fun r hr p hro hp => ?_
  · obtain ⟨p, hp, -⟩ := h r hr hro
    rw [hp]
    rfl
  · obtain ⟨p', hp', hdoomed⟩ := h r hr hro
    obtain rfl := Option.some.inj (hp.symm.trans hp')
    exact hdoomed

/-- Where nothing but references is left to keep objects, what is doomed is destroyed. -/
theorem Doomed.dead {refs : List R} (hd : Doomed target owner refs o)
    (hb : Balanced target owner (fun _ => 0) [] h) (hrefs : ∀ r ∈ h.refs, r ∈ refs) :
    h.alive o = false := by
  induction hd with
  | intro o inside within ih =>
    by_contra hcon
    have hcount := (hb.alive o).mp (by simpa using hcon)
    rw [hb.count o] at hcount
    -- something still refers to it, from an object that is doomed, and so destroyed
    have hpos : 0 < h.refs.countP fun r => target r = o := by omega
    obtain ⟨r, hr, hro⟩ := List.countP_pos_iff.mp hpos
    have htarget : target r = o := by simpa using hro
    obtain ⟨p, hp⟩ := Option.isSome_iff_exists.mp (inside r (hrefs r hr) htarget)
    exact hb.not_orphan hr ⟨p, hp, ih r (hrefs r hr) p htarget hp⟩

/-- Since the heap was `h₀`, only references in doomed objects have gone, and only doomed
objects have been destroyed. -/
structure Cascade (target : R → O) (owner : R → Option O) (h₀ h : Heap O R) : Prop where
  le : ∀ r, h.refs.count r ≤ h₀.refs.count r
  gone : ∀ r, h.refs.count r < h₀.refs.count r →
    ∃ p, owner r = some p ∧ Doomed target owner h₀.refs p
  dead : ∀ x, h₀.alive x = true → h.alive x = false → Doomed target owner h₀.refs x

namespace Cascade

variable {h₀ : Heap O R}

omit [DecidableEq O] in
theorem refl (h : Heap O R) : Cascade target owner h h :=
  ⟨fun _ => Nat.le_refl _, fun _ hlt => absurd hlt (Nat.lt_irrefl _),
    fun _ hx hx' => absurd (hx.symm.trans hx') (by simp)⟩

/-- A claim goes. -/
theorem release (hc : Cascade target owner h₀ h) (hb : Balanced target owner ext pend h')
    (hrefs : h'.refs = h.refs) :
    Cascade target owner h₀ h' where
  le := by
    rw [hrefs]
    exact hc.le
  gone := by
    rw [hrefs]
    exact hc.gone
  dead := by
    intro x hx hx'
    cases halive : h.alive x with
    | false => exact hc.dead x hx halive
    | true =>
      -- nothing leads to it any more
      refine doomed_of fun r hr hrx => hc.gone r ?_
      have hnone : r ∉ h'.refs := by
        intro hmem
        have hstill := hb.alive_of_mem hmem
        rw [hrx] at hstill
        exact absurd (hstill.symm.trans hx') (by simp)
      rw [← hrefs, List.count_eq_zero_of_not_mem hnone]
      exact List.count_pos_iff.mpr hr

/-- A reference goes that is pending. -/
theorem detach (hc : Cascade target owner h₀ h) (hb₀ : Balanced target owner ext [] h₀)
    (hr : Orphan owner h r) (hmem : r ∈ h.refs) : Cascade target owner h₀ (h.detach r) where
  le := by
    intro r'
    have hle := hc.le r'
    rw [Heap.detach, List.count_erase]
    omega
  gone := by
    intro r' hlt
    rcases eq_or_ne r' r with rfl | hne
    · obtain ⟨p, hp, hdead⟩ := hr
      refine ⟨p, hp, hc.dead p ?_ hdead⟩
      -- it did not lie in a destroyed object at first
      have hmem₀ : r' ∈ h₀.refs :=
        List.count_pos_iff.mp (Nat.lt_of_lt_of_le (List.count_pos_iff.mpr hmem) (hc.le r'))
      cases halive : h₀.alive p with
      | true => rfl
      | false => exact absurd ⟨p, hp, halive⟩ (hb₀.not_orphan hmem₀)
    · rw [Heap.detach, List.count_erase_of_ne hne] at hlt
      exact hc.gone r' hlt
  dead := hc.dead

/-- **A destruction goes no further** than to what is doomed. -/
theorem destroyRefs {hook : R → σ → σ} {ext₀ : O → Nat} {n : Nat} {s s' : σ}
    (hc : Cascade target owner h₀ h) (hb₀ : Balanced target owner ext₀ [] h₀)
    (hb : Balanced target owner ext pend h)
    (hrun : h.destroyRefs target owner hook n s pend = some (h', s')) :
    Cascade target owner h₀ h' := by
  induction n generalizing h s pend with
  | zero =>
    cases pend with
    | nil =>
      obtain ⟨rfl, -⟩ := Prod.mk.inj (Option.some.inj hrun)
      exact hc
    | cons r rest => exact absurd hrun (by simp [Heap.destroyRefs])
  | succ n ih =>
    cases pend with
    | nil =>
      obtain ⟨rfl, -⟩ := Prod.mk.inj (Option.some.inj hrun)
      exact hc
    | cons r rest =>
      have hmem : r ∈ h.refs := hb.mem_of_pend
      have hdetach := hb.detach hmem fun _ => rfl
      rw [List.erase_cons_head] at hdetach
      obtain ⟨h₁, more, hrelease, hrefs, -, hb₁⟩ := hdetach.release (o := target r)
        (by simp) fun _ => rfl
      rw [Heap.destroyRefs, hrelease] at hrun
      have hc₁ := (hc.detach hb₀ (hb.orphan_of_pend r List.mem_cons_self) hmem).release hb₁ hrefs
      exact ih hc₁ hb₁ hrun

end Cascade

end RefCount
