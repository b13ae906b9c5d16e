import Mathlib.Data.List.Nodup
import Mathlib.Data.Set.Insert
import Mathlib.Logic.Function.Basic

/-!
# One flag for each kind of request

A component sends requests of several *kinds* and keeps one flag for each kind: the flag
is up while a request of that kind is outstanding. As long as at most one request of a
kind is outstanding at a time the flags say it all – the outstanding requests are the
kinds whose flag is up, each once – and counting flags counts requests
(`Flags.Synced.countP_eq_length`). Whether this is so is asked kind by kind: the flags
may be right about some kinds (`Flags.Synced K`) and wrong about others.

A flag is no counter. A second request of a kind whose flag is up, and a flag taken down
while its request is outstanding, both leave fewer flags than requests
(`Flags.Synced.countP_lt_of_more`, `Flags.Synced.countP_lt_of_lowered`).
-/

namespace Flags

variable {ι : Type*} [DecidableEq ι] {K : Set ι} {p q : ι → Bool} {out out' kinds : List ι} {i : ι}

/-- A kind among `K` is outstanding once if its flag is up, and not at all otherwise. -/
def Synced (K : Set ι) (p : ι → Bool) (out : List ι) : Prop :=
  ∀ i ∈ K, out.count i = (p i).toNat

theorem Synced.mem_iff (h : Synced K p out) (hi : i ∈ K) : i ∈ out ↔ p i = true := by
  rw [← List.count_pos_iff, h i hi]
  cases p i <;> simp

/-! ### Sending and completing -/

/-- Requests of other kinds change nothing. -/
theorem Synced.append (h : Synced K p out) (hq : ∀ i ∈ K, q i = p i) (hout : ∀ i ∈ K, i ∉ out') :
    Synced K q (out ++ out') := by
  intro i hi
  rw [List.count_append, h i hi, List.count_eq_zero.mpr (hout i hi), hq i hi, Nat.add_zero]

/-- A request of a kind whose flag is down is sent, and the flag goes up. -/
theorem Synced.raise (h : Synced K p out) (hi : i ∈ K → p i = false) :
    Synced K (Function.update p i true) (out ++ [i]) := by
  intro j hj
  have hcount : out.count j = (p j).toNat := h j hj
  rcases eq_or_ne j i with rfl | hne
  · simp [hcount, hi hj]
  · simp [hcount, hne, hne.symm]

/-- A request completes, and its flag goes down. -/
theorem Synced.lower (h : Synced K p out) : Synced K (Function.update p i false) (out.erase i) := by
  intro j hj
  have hcount : out.count j = (p j).toNat := h j hj
  rcases eq_or_ne j i with rfl | hne
  · rw [List.count_erase_self, hcount, Function.update_self]
    cases p j <;> rfl
  · rw [List.count_erase_of_ne hne, hcount, Function.update_of_ne hne]

/-! ### Counting flags -/

/-- **Counting flags counts requests**, where all kinds are looked at. -/
theorem Synced.countP_eq_length (h : Synced Set.univ p out) (hnodup : kinds.Nodup)
    (hall : ∀ i, p i = true → i ∈ kinds) : kinds.countP p = out.length := by
  have hperm : (kinds.filter p).Perm out := by
    refine List.perm_iff_count.mpr fun j => ?_
    rw [h j trivial]
    cases hj : p j with
    | false => exact List.count_eq_zero.mpr fun hmem => by simp [hj] at hmem
    | true =>
      rw [List.count_filter hj]
      exact List.count_eq_one_of_mem hnodup (hall j hj)
  rw [List.countP_eq_length_filter, hperm.length_eq]

/-- With no flag up that was down before, one request more is one too many. -/
theorem Synced.countP_lt_of_more (h : Synced Set.univ p out) (hnodup : kinds.Nodup)
    (hall : ∀ i, p i = true → i ∈ kinds) (hle : ∀ i, q i = true → p i = true)
    (hmore : out.length < out'.length) : kinds.countP q < out'.length := by
  have hmono : kinds.countP q ≤ kinds.countP p := List.countP_mono_left fun i _ => hle i
  rw [h.countP_eq_length hnodup hall] at hmono
  omega

/-- A flag that is taken down while its request is outstanding is missed. -/
theorem Synced.countP_lt_of_lowered (h : Synced Set.univ p out) (hnodup : kinds.Nodup)
    (hall : ∀ i, p i = true → i ∈ kinds) (hle : ∀ i, q i = true → p i = true)
    (hi : p i = true) (hlow : q i = false) : kinds.countP q < out.length := by
  have hperm : kinds.Perm (i :: kinds.erase i) := List.perm_cons_erase (hall i hi)
  have hrest : (kinds.erase i).countP q ≤ (kinds.erase i).countP p :=
    List.countP_mono_left fun j _ => hle j
  have hp := h.countP_eq_length hnodup hall
  rw [hperm.countP_eq, List.countP_cons_of_pos hi] at hp
  rw [hperm.countP_eq, List.countP_cons_of_neg (by simp [hlow])]
  omega

end Flags
