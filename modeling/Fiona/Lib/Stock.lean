import Mathlib.Data.List.Perm.Basic
import Mathlib.Data.List.Range

/-!
# A stock of numbered things

The numbers below `n` are split between a *stock* of those at hand and the list of
those handed out. All that has to be remembered about a split is one permutation:
that no number occurs twice, that no number is on both sides and that none is
missing all follow from it.

Two moves keep a split: handing out the last number of the stock
(`Stock.Split.hand`) and taking any number back onto its end (`Stock.Split.back`).
-/

namespace Stock

/-- The numbers below `n` are those in `stock` and those in `out`, each once. -/
def Split (n : Nat) (stock out : List Nat) : Prop := (stock ++ out).Perm (List.range n)

variable {n i : Nat} {stock out : List Nat}

section

variable (h : Split n stock out)

include h

theorem Split.nodup_append : (stock ++ out).Nodup := h.symm.nodup List.nodup_range

theorem Split.nodup_stock : stock.Nodup := (List.nodup_append.mp h.nodup_append).1

theorem Split.nodup_out : out.Nodup := (List.nodup_append.mp h.nodup_append).2.1

theorem Split.notMem_out (hi : i ∈ stock) : i ∉ out := fun ho =>
  (List.nodup_append.mp h.nodup_append).2.2 i hi i ho rfl

theorem Split.lt_of_mem_stock (hi : i ∈ stock) : i < n :=
  List.mem_range.mp (h.subset (List.mem_append_left _ hi))

theorem Split.lt_of_mem_out (hi : i ∈ out) : i < n :=
  List.mem_range.mp (h.subset (List.mem_append_right _ hi))

/-- What is at hand is what is not handed out. -/
theorem Split.mem_stock_iff (hi : i < n) : i ∈ stock ↔ i ∉ out := by
  refine ⟨h.notMem_out, fun ho => ?_⟩
  have hmem : i ∈ stock ++ out := h.symm.subset (List.mem_range.mpr hi)
  exact (List.mem_append.mp hmem).resolve_right ho

theorem Split.length_add : stock.length + out.length = n := by
  rw [← List.length_append, h.length_eq, List.length_range]

/-- A number of the stock leaves room among those handed out. -/
theorem Split.length_out_lt (hi : i ∈ stock) : out.length < n := by
  have hpos := List.length_pos_of_mem hi
  have := h.length_add
  omega

/-- **Taking back** a number that was handed out. -/
theorem Split.back (hi : i ∈ out) : Split n (stock ++ [i]) (out.erase i) := by
  refine List.Perm.trans ?_ h
  rw [List.append_assoc, List.singleton_append]
  exact (List.perm_cons_erase hi).symm.append_left stock

end

/-- **Handing out** the last number of the stock. -/
theorem Split.hand (h : Split n (stock ++ [i]) out) : Split n stock (out ++ [i]) := by
  refine List.Perm.trans ?_ h
  rw [List.append_assoc]
  exact List.perm_append_comm.append_left stock

theorem split_range (n : Nat) : Split n [] (List.range n) := List.Perm.refl _

end Stock
