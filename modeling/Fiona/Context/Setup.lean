import Mathlib.Algebra.Group.Nat.Defs
import Mathlib.Data.Finset.Range
import Mathlib.Data.Nat.Log

/-!
# The making of a context

`io_context_params` and the constructor of `io_context_frame` (`src/io_context.cpp`), as far as the
sizes go. The sizes that are asked for are not the sizes there are: the kernel rounds both
queues up to powers of two, and the program keeps what it asked for, `params_`.
-/

namespace Fiona

/-- `io_context_params`. -/
structure IoContextParams where
  sqEntries : Nat := 4096
  cqEntries : Nat := 4096
  numFiles : Nat := 1024
  deriving DecidableEq, Repr

/-- The least power of two that is not below `n`. -/
def roundupPowOfTwo (n : Nat) : Nat := 2 ^ Nat.clog 2 n

/-- The sizes of the queues that `io_uring_queue_init_params` sets up with `IORING_SETUP_CQSIZE`, or
`none` where it refuses. -/
def queueInit (sqEntries cqEntries : Nat) : Option (Nat × Nat) :=
  if 0 < sqEntries ∧ sqEntries ≤ 2 ^ 15 ∧ 0 < cqEntries ∧ cqEntries ≤ 2 ^ 16 ∧
      roundupPowOfTwo sqEntries ≤ roundupPowOfTwo cqEntries then
    some (roundupPowOfTwo sqEntries, roundupPowOfTwo cqEntries)
  else none

/-- The answers to the other calls of the constructor. -/
structure SetupAnswers where
  pipe : Int
  registerRingFd : Int
  registerFilesSparse : Int
  deriving DecidableEq, Repr

/-- Where all of them succeed. -/
def SetupAnswers.accepted : SetupAnswers := ⟨0, 1, 0⟩

/-- `io_context_frame`, with the sizes of its ring. -/
structure IoContextFrame where
  params : IoContextParams
  sqSize : Nat
  cqSize : Nat
  fds : Finset Nat
  deriving DecidableEq

/-- `io_context_frame::io_context_frame`; `none` is an exception. -/
def IoContextFrame.new (params : IoContextParams) (answers : SetupAnswers) :
    Option IoContextFrame :=
  if answers.pipe = -1 then none
  else do
    let sizes ← queueInit params.sqEntries params.cqEntries
    if answers.registerRingFd ≠ 1 then none
    else if answers.registerFilesSparse ≠ 0 then none
    else some ⟨params, sizes.1, sizes.2, Finset.range params.numFiles⟩

theorem le_roundupPowOfTwo (n : Nat) : n ≤ roundupPowOfTwo n := Nat.le_pow_clog (by decide) n

/-- Rounding does not go beyond a power of two. -/
theorem pow_lt_roundupPowOfTwo {k n : Nat} : 2 ^ k < roundupPowOfTwo n ↔ 2 ^ k < n := by
  rw [roundupPowOfTwo, Nat.pow_lt_pow_iff_right (by decide), Nat.lt_clog_iff_pow_lt (by decide)]

theorem roundupPowOfTwo_two_pow (k : Nat) : roundupPowOfTwo (2 ^ k) = 2 ^ k := by
  rw [roundupPowOfTwo, Nat.clog_pow 2 k (by decide)]

/-- Rounding leaves the powers of two alone, and nothing else. -/
theorem roundupPowOfTwo_le_iff {n : Nat} : roundupPowOfTwo n ≤ n ↔ ∃ k, n = 2 ^ k := by
  constructor
  · intro hle
    exact ⟨Nat.clog 2 n, (le_roundupPowOfTwo n).antisymm hle⟩
  · rintro ⟨k, rfl⟩
    exact (roundupPowOfTwo_two_pow k).le

/-- **What a context that was made is like.** -/
theorem IoContextFrame.new_eq_some {params : IoContextParams} {answers : SetupAnswers}
    {f : IoContextFrame} (hnew : IoContextFrame.new params answers = some f) :
    0 < params.sqEntries ∧ 0 < params.cqEntries ∧
      f = ⟨params, roundupPowOfTwo params.sqEntries, roundupPowOfTwo params.cqEntries,
        Finset.range params.numFiles⟩ := by
  obtain ⟨-, hnew⟩ := Option.ite_none_left_eq_some.mp hnew
  obtain ⟨sizes, hinit, hrest⟩ := Option.bind_eq_some_iff.mp hnew
  obtain ⟨-, hrest⟩ := Option.ite_none_left_eq_some.mp hrest
  obtain ⟨-, hrest⟩ := Option.ite_none_left_eq_some.mp hrest
  obtain ⟨⟨hsq, -, hcq, -, -⟩, hsizes⟩ := Option.ite_none_right_eq_some.mp hinit
  obtain rfl := Option.some.inj hsizes
  exact ⟨hsq, hcq, (Option.some.inj hrest).symm⟩

end Fiona
