import Fiona.Lib.Ownership
import Mathlib.Data.Finset.Option
import Mathlib.Data.Finset.Union

/-!
# A pool and its holders

A pool gives out its resources one at a time: a holder has at most one, and what no
holder has is free. The places where a resource can be are the free set and the holders;
here they are the values of `Option P`, with `none` for the free set.

A resource is taken by a holder that has none (`ResourcePool.take`), goes back
(`ResourcePool.give`), or is handed on to a holder that has none (`ResourcePool.pass`). None of
these loses a resource or duplicates one (`ResourcePool.Conserved.take`,
`ResourcePool.Conserved.give`, `ResourcePool.Conserved.pass`), and what goes back was not free
before (`ResourcePool.Conserved.returns`). A resource that is new goes to a holder that has none
(`ResourcePool.Conserved.acquire`).

Holders of two kinds can share a pool: what the others have is then as good as free
(`ResourcePool.Conserved.beside`, `ResourcePool.Conserved.of_beside`).
-/

/-- The free resources, and what each holder has. -/
structure ResourcePool (P N : Type*) where
  free : Finset N
  held : P → Option N

namespace ResourcePool

variable {P N : Type*}

/-- The place `o` has the resource `n`. -/
def Holds (s : ResourcePool P N) : Option P → N → Prop
  | none, n => n ∈ s.free
  | some p, n => s.held p = some n

/-- **Every live resource is in exactly one place**, and nothing else is in any. -/
def Conserved (s : ResourcePool P N) (live : N → Prop) : Prop := Ownership.ExactlyOne s.Holds live

variable {s : ResourcePool P N} {live : N → Prop} {p q : P} {n : N}

theorem Conserved.notMem_free (h : s.Conserved live) (hp : s.held p = some n) : n ∉ s.free := by
  intro hn
  have hfree : s.Holds none n := hn
  have hheld : s.Holds (some p) n := hp
  cases h.unique hfree hheld

theorem Conserved.live_of_held (h : s.Conserved live) (hp : s.held p = some n) : live n :=
  Ownership.ExactlyOne.live_of_held h (o := some p) hp

theorem Conserved.live_of_mem (h : s.Conserved live) (hn : n ∈ s.free) : live n :=
  Ownership.ExactlyOne.live_of_held h (o := none) hn

/-- A resource has one holder. -/
theorem Conserved.eq_of_held (h : s.Conserved live) (hp : s.held p = some n)
    (hq : s.held q = some n) : p = q := by
  have hheld : s.Holds (some p) n := hp
  have hheld' : s.Holds (some q) n := hq
  exact Option.some.inj (h.unique hheld hheld')

/-- Where nobody holds anything, the free resources are conserved. -/
theorem conserved_of_held_none (hs : ∀ p, s.held p = none) : s.Conserved (· ∈ s.free) where
  unique := by
    rintro n (_ | p) (_ | p') ho ho'
    · rfl
    · exact absurd ((hs p').symm.trans ho') (by simp)
    · exact absurd ((hs p).symm.trans ho) (by simp)
    · exact absurd ((hs p).symm.trans ho) (by simp)
  live_iff := by
    intro n
    refine ⟨fun hn => ⟨none, hn⟩, ?_⟩
    rintro ⟨_ | p, ho⟩
    · exact ho
    · exact absurd ((hs p).symm.trans ho) (by simp)

variable [DecidableEq P] [DecidableEq N]

/-- The holder `p` takes the resource `n`. -/
def take (s : ResourcePool P N) (p : P) (n : N) : ResourcePool P N :=
  ⟨s.free.erase n, Function.update s.held p (some n)⟩

/-- What the holder `p` has goes back. -/
def give (s : ResourcePool P N) (p : P) : ResourcePool P N :=
  ⟨s.free ∪ (s.held p).toFinset, Function.update s.held p none⟩

/-- What the holder `p` has is handed on to the holder `q`. -/
def pass (s : ResourcePool P N) (p q : P) : ResourcePool P N :=
  ⟨s.free, Function.update (Function.update s.held p none) q (s.held p)⟩

theorem Conserved.take (h : s.Conserved live) (hn : n ∈ s.free) (hp : s.held p = none) :
    (s.take p n).Conserved live := by
  refine Ownership.ExactlyOne.transfer h (p := none) (q := some p) (k := n) hn fun o m => ?_
  cases o with
  | none => simp [ResourcePool.take, Holds]
  | some o =>
    rcases eq_or_ne o p with rfl | hne
    · simp [ResourcePool.take, Holds, hp, eq_comm]
    · have hother : s.held o = some m → m ≠ n := by
        rintro ho rfl
        exact h.notMem_free ho hn
      simpa [ResourcePool.take, Holds, hne] using hother

theorem Conserved.give (h : s.Conserved live) : (s.give p).Conserved live := by
  cases hp : s.held p with
  | none =>
    have hsame : s.give p = s := by
      simp only [ResourcePool.give, hp, Option.toFinset_none, Finset.union_empty]
      rw [← hp, Function.update_eq_self]
    rwa [hsame]
  | some n =>
    refine Ownership.ExactlyOne.transfer h (p := some p) (q := none) (k := n) hp fun o m => ?_
    cases o with
    | none =>
      have hfree : n ∉ s.free := h.notMem_free hp
      rcases eq_or_ne m n with rfl | hne <;> simp_all [ResourcePool.give, Holds]
    | some o =>
      rcases eq_or_ne o p with rfl | hne
      · simp [ResourcePool.give, Holds, hp, eq_comm]
      · have hother : s.held o = some m → m ≠ n := by
          rintro ho rfl
          exact hne (h.eq_of_held ho hp)
        simpa [ResourcePool.give, Holds, hne] using hother

omit [DecidableEq N] in
/-- The holder `p` has a new resource. -/
theorem Conserved.acquire {live' : N → Prop} (h : s.Conserved live) (hn : ¬live n)
    (hp : s.held p = none) (hlive : ∀ m, live' m ↔ live m ∨ m = n) :
    Conserved ⟨s.free, Function.update s.held p (some n)⟩ live' := by
  refine Ownership.ExactlyOne.acquire h (o := some p) hn (fun o m => ?_) hlive
  cases o with
  | none => simp [Holds]
  | some o =>
    rcases eq_or_ne o p with rfl | hne
    · simp [Holds, hp, eq_comm]
    · simp [Holds, hne]

/-- What was held is held still, or is given back. -/
def Returns (o o' : Option N) (given : List N) : Prop :=
  o' = o ∧ given = [] ∨ o' = none ∧ given = o.toList

omit [DecidableEq N] in
theorem Returns.keep (o : Option N) : Returns o o [] := .inl ⟨rfl, rfl⟩

omit [DecidableEq N] in
/-- Giving back in two steps. -/
theorem Returns.trans {o o' o'' : Option N} {g g' : List N} (h : Returns o o' g)
    (h' : Returns o' o'' g') : Returns o o'' (g ++ g') := by
  rcases h with ⟨rfl, rfl⟩ | ⟨rfl, rfl⟩
  · simpa using h'
  · rcases h' with ⟨rfl, rfl⟩ | ⟨rfl, rfl⟩
    · exact .inr ⟨rfl, by simp⟩
    · exact .inr ⟨rfl, by simp⟩

omit [DecidableEq N] in
/-- What is given back was held. -/
theorem Returns.mem {o o' : Option N} {given : List N} (h : Returns o o' given)
    (hn : n ∈ given) : o = some n := by
  rcases h with ⟨-, rfl⟩ | ⟨-, rfl⟩
  · exact absurd hn (List.not_mem_nil)
  · simpa using hn

/-- **What is given back was not free**, and is free afterwards. -/
theorem Conserved.returns {o' : Option N} {given : List N} (h : s.Conserved live)
    (hgiven : Returns (s.held p) o' given) :
    Conserved ⟨s.free ∪ given.toFinset, Function.update s.held p o'⟩ live ∧ given.Nodup ∧
      ∀ n ∈ given, live n ∧ n ∉ s.free := by
  rcases hgiven with ⟨rfl, rfl⟩ | ⟨rfl, rfl⟩
  · exact ⟨by simpa using h, List.nodup_nil, by simp⟩
  · have hfinset : (s.held p).toList.toFinset = (s.held p).toFinset := by
      cases s.held p <;> simp
    refine ⟨hfinset ▸ h.give, ?_, fun n hn => ?_⟩
    · cases s.held p <;> simp
    · have hp : s.held p = some n := by simpa using hn
      exact ⟨h.live_of_held hp, h.notMem_free hp⟩

omit [DecidableEq N] in
theorem Conserved.pass (h : s.Conserved live) (hpq : p ≠ q) (hq : s.held q = none) :
    (s.pass p q).Conserved live := by
  cases hp : s.held p with
  | none =>
    have hsame : s.pass p q = s := by
      simp only [ResourcePool.pass, hp]
      rw [← hp, Function.update_eq_self, hp, ← hq, Function.update_eq_self]
    rwa [hsame]
  | some n =>
    refine Ownership.ExactlyOne.transfer h (p := some p) (q := some q) (k := n) hp fun o m => ?_
    cases o with
    | none =>
      have hother : m ∈ s.free → m ≠ n := by
        rintro hm rfl
        exact h.notMem_free hp hm
      simpa [ResourcePool.pass, Holds] using hother
    | some o =>
      rcases eq_or_ne o q with rfl | hne
      · simp [ResourcePool.pass, Holds, hp, hq, eq_comm]
      rcases eq_or_ne o p with rfl | hne'
      · simpa [ResourcePool.pass, Holds, hp, hpq] using Ne.symm
      · have hother : s.held o = some m → m ≠ n := by
          rintro ho rfl
          exact hne' (h.eq_of_held ho hp)
        simpa [ResourcePool.pass, Holds, hne, hne'] using hother

/-! ### Holders of two kinds -/

section Beside

variable {A B : Type*} {free free' K : Finset N} {f f' : A → Option N} {g : B → Option N}

omit [DecidableEq N] in
theorem Conserved.swap (h : Conserved ⟨free, Sum.elim f g⟩ live) :
    Conserved ⟨free, Sum.elim g f⟩ live := by
  refine Ownership.ExactlyOne.congr (Ownership.ExactlyOne.swap h) ?_ fun _ => Iff.rfl
  rintro (_ | _ | _) n <;> exact Iff.rfl

/-- To holders of one kind, what the others have is free. -/
theorem holds_beside (hK : ∀ n, n ∈ K ↔ ∃ q, g q = some n) (o : Option A) (n : N) :
    Holds ⟨free ∪ K, f⟩ o n ↔ Ownership.beside (Holds ⟨free, Sum.elim f g⟩) o n := by
  cases o with
  | none => exact Finset.mem_union.trans (or_congr_right (hK n))
  | some p => exact Iff.rfl

/-- **A pool that is shared is conserved in the eyes of each kind.** -/
theorem Conserved.beside (h : Conserved ⟨free, Sum.elim f g⟩ live)
    (hK : ∀ n, n ∈ K ↔ ∃ q, g q = some n) : Conserved ⟨free ∪ K, f⟩ live ∧ Disjoint free K := by
  refine ⟨Ownership.ExactlyOne.congr (Ownership.ExactlyOne.beside h) (holds_beside hK) fun _ =>
    Iff.rfl, Finset.disjoint_left.mpr fun n hn hmem => ?_⟩
  obtain ⟨q, hq⟩ := (hK n).mp hmem
  exact h.notMem_free (p := Sum.inr q) hq hn

/-- **What one kind does on its own** conserves the pool, if what the others have does not become
free. -/
theorem Conserved.of_beside (h : Conserved ⟨free, Sum.elim f g⟩ live)
    (hK : ∀ n, n ∈ K ↔ ∃ q, g q = some n) (h' : Conserved ⟨free' ∪ K, f'⟩ live)
    (hdisjoint : Disjoint free' K) : Conserved ⟨free', Sum.elim f' g⟩ live := by
  refine Ownership.ExactlyOne.of_beside h (Ownership.ExactlyOne.congr h'
    (fun o n => (holds_beside hK o n).symm) fun _ => Iff.rfl) (fun _ _ => Iff.rfl)
    fun q n hn hq => ?_
  exact Finset.disjoint_left.mp hdisjoint hn ((hK n).mpr ⟨q, hq⟩)

end Beside

end ResourcePool
