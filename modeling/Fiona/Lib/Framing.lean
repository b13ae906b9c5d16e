import Mathlib.Data.List.Basic

/-!
# Records in a stream

A framing says how the records of a stream are written one after the other, where the writing of
one may depend on how many there were before it, and it finds the first record in what has
come of a stream as soon as that is there as a whole.

Whoever reads the stream gets it in pieces of any size and is told nothing of where they end. What
has been read is a number of records and a rest (`Framing.Reads`); a record that is found in any
front of that rest is the next one of the stream (`Framing.Reads.record`), and where no more is to
come and nothing is left, all of them have been read (`Framing.Reads.eq_of_nil`).
-/

/-- The `n`-th record of a stream is written as `write n r`; `parse n` is the first record, and how
long it is, of what has come from where it begins. -/
structure Framing (R α : Type*) where
  write : Nat → R → List α
  parse : Nat → List α → Option (R × Nat)
  write_ne_nil : ∀ n r, write n r ≠ []
  parse_write : ∀ n r rest, parse n (write n r ++ rest) = some (r, (write n r).length)
  parse_short : ∀ n r bs, bs <+: write n r → bs.length < (write n r).length → parse n bs = none

namespace Framing

variable {R α : Type*} {f : Framing R α}

/-- Some records, of which the first is the `n`-th. -/
def encode (f : Framing R α) : Nat → List R → List α
  | _, [] => []
  | n, r :: rs => f.write n r ++ f.encode (n + 1) rs

variable {n k : Nat} {r : R} {rs rs' opened : List R} {bs seen pending : List α}

@[simp] theorem encode_nil : f.encode n [] = [] := rfl

@[simp] theorem encode_cons : f.encode n (r :: rs) = f.write n r ++ f.encode (n + 1) rs := rfl

theorem encode_append : f.encode n (rs ++ rs') = f.encode n rs ++ f.encode (n + rs.length) rs' := by
  induction rs generalizing n with
  | nil => rfl
  | cons r rs ih =>
    rw [List.cons_append, encode_cons, encode_cons, ih, List.append_assoc, List.length_cons,
      Nat.add_right_comm, Nat.add_assoc n]

/-- Only no records are written as nothing. -/
theorem eq_nil_of_encode (h : f.encode n rs = []) : rs = [] := by
  cases rs with
  | nil => rfl
  | cons r rs => exact absurd (List.append_eq_nil_iff.mp h).1 (f.write_ne_nil n r)

/-- **What is found in a front of a stream** is its first record. -/
theorem parse_of_prefix (hbs : bs <+: f.encode n rs) (hparse : f.parse n bs = some (r, k)) :
    ∃ rs' rest, rs = r :: rs' ∧ k = (f.write n r).length ∧ bs = f.write n r ++ rest := by
  cases rs with
  | nil =>
    obtain rfl : bs = [] := List.prefix_nil.mp hbs
    have hpos := List.length_pos_iff.mpr (f.write_ne_nil n r)
    cases hparse.symm.trans (f.parse_short n r [] List.nil_prefix hpos)
  | cons r' rs' =>
    have hwrite : f.write n r' <+: f.encode n (r' :: rs') := List.prefix_append ..
    rcases Nat.lt_or_ge bs.length (f.write n r').length with hlt | hge
    · -- the record is not there as a whole
      have hshort := List.prefix_of_prefix_length_le hbs hwrite (Nat.le_of_lt hlt)
      cases hparse.symm.trans (f.parse_short n r' bs hshort hlt)
    · obtain ⟨rest, rfl⟩ := List.prefix_of_prefix_length_le hwrite hbs hge
      rw [f.parse_write, Option.some.injEq, Prod.mk.injEq] at hparse
      obtain ⟨rfl, rfl⟩ := hparse
      exact ⟨rs', rest, rfl, rfl, rfl⟩

/-! ### Reading on -/

/-- **A reader of the records `rs`** has read those in `opened`, and has been given the symbols
`pending` of what comes after them. -/
structure Reads (f : Framing R α) (rs opened : List R) (pending : List α) : Prop where
  isPrefix : opened <+: rs
  stream : f.encode 0 opened ++ pending <+: f.encode 0 rs

/-- What comes next are the records that have not been read. -/
theorem Reads.rest (h : f.Reads rs opened pending) :
    ∃ rs', rs = opened ++ rs' ∧ pending <+: f.encode opened.length rs' := by
  obtain ⟨rs', rfl⟩ := h.isPrefix
  refine ⟨rs', rfl, ?_⟩
  have hstream := h.stream
  rwa [encode_append, Nat.zero_add, List.prefix_append_right_inj] at hstream

/-- **The next record**, found in what was looked at of the symbols, is the next one that was
written. -/
theorem Reads.record (h : f.Reads rs opened pending) (hseen : seen <+: pending)
    (hparse : f.parse opened.length seen = some (r, k)) :
    k ≤ seen.length ∧ f.encode 0 opened ++ pending = f.encode 0 (opened ++ [r]) ++ pending.drop k ∧
      f.Reads rs (opened ++ [r]) (pending.drop k) := by
  obtain ⟨rs', rfl, hpending⟩ := h.rest
  obtain ⟨rs'', rest, rfl, hk, rfl⟩ := parse_of_prefix (hseen.trans hpending) hparse
  obtain ⟨more, rfl⟩ := hseen
  have hdrop : (f.write opened.length r ++ rest ++ more).drop k = rest ++ more := by
    rw [hk, List.append_assoc, List.drop_left]
  have heq : f.encode 0 opened ++ (f.write opened.length r ++ rest ++ more) =
      f.encode 0 (opened ++ [r]) ++ (rest ++ more) := by
    rw [encode_append, Nat.zero_add, encode_cons, encode_nil, List.append_nil]
    simp only [List.append_assoc]
  rw [hdrop]
  refine ⟨by simp [hk], heq, ⟨rs'', (List.append_cons ..).symm⟩, ?_⟩
  rw [← heq]
  exact h.stream

/-- Where everything that was written has been read, so has every record. -/
theorem Reads.eq_of_nil (h : f.Reads rs opened []) (hall : f.encode 0 opened = f.encode 0 rs) :
    opened = rs := by
  obtain ⟨rs', rfl⟩ := h.isPrefix
  rw [encode_append, Nat.zero_add, List.self_eq_append_right] at hall
  rw [eq_nil_of_encode hall, List.append_nil]

end Framing
