import Mathlib.Algebra.BigOperators.Group.List.Basic
import Mathlib.Algebra.GroupWithZero.Nat
import Mathlib.Data.List.Basic
import Mathlib.Data.List.Perm.Basic

/-!
# Packing items into bins

A stream of items is put into *bins* of given capacities, one after the other: into the last bin in
use while it has room, and into the next one after that. Each bin has a name, so that it
can be followed while it moves between lists.

What matters about a list of bins is its `Packing.contents` and that each bin `Packing.Bin.Fits`.
Only the last bin in use may have room left (`Packing.lastRoom`), and the bins that follow hold
what they have capacity for (`Packing.capacities`): so where an item goes is a matter of how
many there were before it.
-/

namespace Packing

variable {ι α : Type*}

/-- A bin, with the items in it. -/
structure Bin (ι α : Type*) where
  id : ι
  capacity : Nat
  items : List α
  deriving DecidableEq, Repr

namespace Bin

variable (b : Bin ι α)

def size : Nat := b.items.length

/-- The items that still fit. -/
def room : Nat := b.capacity - b.size

def Fits : Prop := b.size ≤ b.capacity

/-- Items are added. -/
def put (xs : List α) : Bin ι α := { b with items := b.items ++ xs }

/-- The bin is emptied, and items put in. -/
def refill (xs : List α) : Bin ι α := { b with items := xs }

variable {b} {xs : List α}

@[simp] theorem put_id : (b.put xs).id = b.id := rfl

@[simp] theorem put_capacity : (b.put xs).capacity = b.capacity := rfl

@[simp] theorem put_size : (b.put xs).size = b.size + xs.length := List.length_append

@[simp] theorem refill_id : (b.refill xs).id = b.id := rfl

@[simp] theorem refill_capacity : (b.refill xs).capacity = b.capacity := rfl

@[simp] theorem refill_size : (b.refill xs).size = xs.length := rfl

theorem Fits.put (h : b.Fits) (hxs : xs.length ≤ b.room) : (b.put xs).Fits := by
  simp only [Fits, room, put_size, put_capacity] at *
  omega

end Bin

/-! ### Lists of bins -/

/-- The items in the bins, in order. -/
def contents (bs : List (Bin ι α)) : List α := bs.flatMap Bin.items

@[simp] theorem contents_nil : contents ([] : List (Bin ι α)) = [] := rfl

@[simp] theorem contents_append (bs bs' : List (Bin ι α)) :
    contents (bs ++ bs') = contents bs ++ contents bs' := List.flatMap_append

@[simp] theorem contents_singleton (b : Bin ι α) : contents [b] = b.items := by
  simp [contents]

/-- The room in the last bin. -/
def lastRoom (bs : List (Bin ι α)) : Nat := (bs.getLast?.map Bin.room).getD 0

/-- What fits into the bins while they are empty. -/
def capacities (bs : List (Bin ι α)) : Nat := (bs.map Bin.capacity).sum

@[simp] theorem capacities_nil : capacities ([] : List (Bin ι α)) = 0 := rfl

@[simp] theorem capacities_cons (b : Bin ι α) (bs : List (Bin ι α)) :
    capacities (b :: bs) = b.capacity + capacities bs := by
  simp [capacities]

@[simp] theorem lastRoom_append_singleton (bs : List (Bin ι α)) (b : Bin ι α) :
    lastRoom (bs ++ [b]) = b.room := by
  simp [lastRoom]

variable {bs : List (Bin ι α)} {b : Bin ι α}

/-- A list with a last bin, taken apart. -/
theorem eq_dropLast_append (h : bs.getLast? = some b) : bs = bs.dropLast ++ [b] :=
  (List.dropLast_append_getLast? b (h ▸ rfl)).symm

end Packing
