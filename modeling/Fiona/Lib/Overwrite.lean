import Mathlib.Data.List.Basic
import Mathlib.Tactic.Common

/-!
# Writing in place

An array of fixed length is written through a pointer that nobody checks: a write of some values
from an index on replaces as many as it writes, and goes wrong when they do not all lie inside of
the array. `Overwrite.write` is one such write, `none` where it goes wrong.

Writes that continue each other are one write (`Overwrite.write_bind_write`), and that is
all a loop that fills an array has to know: whatever pieces it writes, and whether it writes them
one value at a time, it has written their concatenation from where it began.
-/

namespace Overwrite

variable {α : Type*}

/-- The values `xs` are written to the array `v` from the index `i` on. -/
def write (v : List α) (i : Nat) (xs : List α) : Option (List α) :=
  if i + xs.length ≤ v.length then some (v.take i ++ xs ++ v.drop (i + xs.length)) else none

variable {v w xs ys : List α} {i j : Nat}

theorem write_of_le (h : i + xs.length ≤ v.length) :
    write v i xs = some (v.take i ++ xs ++ v.drop (i + xs.length)) := if_pos h

/-- A write goes wrong exactly when it leaves the array. -/
theorem isSome_write : (write v i xs).isSome = true ↔ i + xs.length ≤ v.length := by
  rw [write]
  split_ifs with h <;> simp [h]

theorem write_nil (h : i ≤ v.length) : write v i [] = some v := by
  rw [write_of_le (by simpa using h)]
  simp

/-- An array keeps its length. -/
theorem length_of_write (h : write v i xs = some w) : w.length = v.length := by
  rw [write] at h
  split_ifs at h with hle
  rw [← Option.some.inj h]
  simp only [List.length_append, List.length_take, List.length_drop]
  omega

/-- **What a write leaves alone**, and what it writes. -/
theorem write_eq_some_iff : write v i xs = some w ↔
    i + xs.length ≤ v.length ∧ w.take i = v.take i ∧ (w.drop i).take xs.length = xs ∧
      w.drop (i + xs.length) = v.drop (i + xs.length) := by
  constructor
  · intro h
    rw [write] at h
    split_ifs at h with hle
    have hlen : (v.take i).length = i := by simp; omega
    obtain rfl := Option.some.inj h
    refine ⟨hle, ?_, ?_, ?_⟩
    · rw [List.append_assoc, List.take_left' hlen]
    · rw [List.append_assoc, List.drop_left' hlen, List.take_left]
    · rw [List.drop_left' (by rw [List.length_append, hlen])]
  · rintro ⟨hle, htake, hmid, hdrop⟩
    rw [write_of_le hle, ← htake, ← hdrop, ← List.drop_drop]
    conv_lhs => rw [← hmid]
    simp only [List.length_take, List.append_assoc]
    have hlen : min xs.length (w.drop i).length = xs.length := by
      rw [← List.length_take, hmid]
    rw [hlen, List.take_append_drop, List.take_append_drop]

/-- **Writes that continue each other** are one write. -/
theorem write_bind_write (v xs ys : List α) (i : Nat) :
    ((write v i xs).bind fun w => write w (i + xs.length) ys) = write v i (xs ++ ys) := by
  by_cases hxs : i + xs.length ≤ v.length
  · have hlen : (v.take i ++ xs).length = i + xs.length := by simp; omega
    have hlen' : (v.take i ++ xs ++ v.drop (i + xs.length)).length =
        i + xs.length + (v.length - (i + xs.length)) := by
      rw [List.length_append, hlen, List.length_drop]
    rw [write_of_le hxs, Option.bind_some, write, write, hlen', List.length_append]
    have hiff : i + xs.length + ys.length ≤ i + xs.length + (v.length - (i + xs.length)) ↔
        i + (xs.length + ys.length) ≤ v.length := by omega
    simp only [hiff]
    split_ifs with hys
    · rw [List.take_left' hlen, ← List.drop_drop, List.drop_left' hlen, List.drop_drop]
      simp only [List.append_assoc, Nat.add_assoc]
    · rfl
  · rw [write, if_neg hxs, Option.bind_none, write, if_neg]
    rw [List.length_append]
    omega

/-- The whole of an array is written. -/
theorem write_all (h : xs.length = v.length) : write v 0 xs = some xs := by
  rw [write_of_le (by omega)]
  simp [h]

end Overwrite
