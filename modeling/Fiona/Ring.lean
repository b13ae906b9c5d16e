import Mathlib.Data.Nat.Notation

/-!
# Completions

What the kernel posts for a request, and the error numbers the program looks for.
-/

namespace Fiona

/-- A coroutine handle; the null handle is `none`. -/
abbrev Coro := Nat

/-- `io_uring_cqe`: the result, the flag `IORING_CQE_F_MORE`, and the buffer id, if
`IORING_CQE_F_BUFFER` is set. -/
structure Cqe where
  res : Int
  more : Bool
  buffer : Option Nat
  deriving DecidableEq, Repr

namespace Errno

def EBUSY : Nat := 16
def EINVAL : Nat := 22
def ENFILE : Nat := 23
def ETIME : Nat := 62
def EBADFD : Nat := 77
def EISCONN : Nat := 106
def ETIMEDOUT : Nat := 110
def ECANCELED : Nat := 125

end Errno

end Fiona
