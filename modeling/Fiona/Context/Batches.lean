import Fiona.Context.Setup
import Fiona.Lib.Overwrite
import Fiona.Lib.Run
import Fiona.Ring

/-!
# The arrays of a batch

`io_context::run` has two vectors that are as long as `params_.cq_entries` says. In each round of
its loop `io_uring_peek_batch_cqe` writes to the one as many completions as the ring holds, and the
loop over them writes to the other, through an iterator that is compared with nothing,
the handles that it finds. The ring may hold as many completions as the kernel made it for.

A write outside of a vector, and a read of a pointer that was not written, gives `none`.
-/

namespace Fiona

open Overwrite Transition

/-- What processing a completion with an awaitable comes to. -/
structure Completion where
  /-- `await_process_cqe` throws. -/
  throws : Bool
  handle : Option Coro
  /-- There is an exception in `exception_ptr_` by then. -/
  aborts : Bool
  deriving DecidableEq, Repr

/-- The vectors of `run`, and how it went in the last round. -/
structure BatchLoop where
  params : IoContextParams
  cqSize : Nat
  /-- The null pointer is `none`; a completion without user data is `some none`. -/
  cqes : List (Option (Option Completion))
  handles : List (Option Coro)
  /-- What `io_uring_cq_ready` answered. -/
  fetched : Nat
  /-- The handles written to `handles`. -/
  collected : Nat
  /-- An exception has left `run`. -/
  left : Bool
  /-- There was a write or a read out of bounds. -/
  overrun : Bool
  deriving DecidableEq, Repr

/-- `*phandles++ = h`, for the handle that there may be. -/
def putHandle (handles : List (Option Coro)) (pos : Nat) :
    Option Coro → Option (List (Option Coro) × Nat)
  | none => some (handles, pos)
  | some h => (write handles pos [some h]).map (·, pos + 1)

/-- The loop over the completions, with `k` to come from number `i` on and the iterator at `pos`;
the result has the iterator, and whether an exception left the loop. -/
def collect (cqes : List (Option (Option Completion))) :
    Nat → Nat → List (Option Coro) → Nat → Option (List (Option Coro) × Nat × Bool)
  | 0, _, handles, pos => some (handles, pos, false)
  | k + 1, i, handles, pos => do
    let cqe ← cqes[i]?
    let p ← cqe
    match p with
    | none => collect cqes k (i + 1) handles pos
    | some c =>
      if c.throws then some (handles, pos, true)
      else do
        let (handles, pos) ← putHandle handles pos c.handle
        if c.aborts then some (handles, pos, true) else collect cqes k (i + 1) handles pos

namespace BatchLoop

/-- The vectors are made. -/
def start (f : IoContextFrame) : BatchLoop where
  params := f.params
  cqSize := f.cqSize
  cqes := List.replicate f.params.cqEntries none
  handles := List.replicate f.params.cqEntries none
  fetched := 0
  collected := 0
  left := false
  overrun := false

variable (s : BatchLoop)

/-- A round of the loop, with what the ring holds. -/
def iterate (ready : List (Option Completion)) : Option BatchLoop := do
  let numReady := ready.length
  let cqes ← write s.cqes 0 (ready.map some)
  let (handles, pos, left) ← collect cqes numReady 0 s.handles 0
  some { s with
    cqes := cqes
    handles := handles
    fetched := numReady
    collected := pos
    left := left }

/-- A round, where the ring may hold that much. -/
def step (ready : List (Option Completion)) : Option BatchLoop :=
  if s.left || s.overrun || decide (s.cqSize < ready.length) then none
  else some ((s.iterate ready).getD { s with fetched := ready.length, overrun := true })

/-- **The batch arrays hold a round.** -/
structure InBounds : Prop where
  fetched : s.fetched ≤ s.params.cqEntries
  collected : s.collected ≤ s.params.cqEntries
  overrun : s.overrun = false

/-- The vectors are as long as they were made. -/
structure Inv (f : IoContextFrame) : Prop where
  params : s.params = f.params
  cqSize : s.cqSize = f.cqSize
  cqes : s.cqes.length = f.params.cqEntries
  handles : s.handles.length = f.params.cqEntries
  inBounds : s.InBounds

variable {s} {s' : BatchLoop} {f : IoContextFrame} {ready : List (Option Completion)}

theorem inv_start (f : IoContextFrame) : Inv (start f) f where
  params := rfl
  cqSize := rfl
  cqes := List.length_replicate
  handles := List.length_replicate
  inBounds := ⟨Nat.zero_le _, Nat.zero_le _, rfl⟩

end BatchLoop

theorem putHandle_spec {handles : List (Option Coro)} {pos : Nat} (h : Option Coro)
    (hpos : pos < handles.length) :
    ∃ handles' pos', putHandle handles pos h = some (handles', pos') ∧
      handles'.length = handles.length ∧ pos' ≤ pos + 1 := by
  cases h with
  | none => exact ⟨handles, pos, rfl, rfl, Nat.le_succ _⟩
  | some h =>
    have hwrite := write_of_le (show pos + [some h].length ≤ handles.length from hpos)
    exact ⟨_, pos + 1, by rw [putHandle, hwrite]; rfl, length_of_write hwrite, Nat.le_refl _⟩

/-- **The loop over the completions** stays in bounds where they have been fetched and there is
room for a handle from each. -/
theorem collect_spec {cqes : List (Option (Option Completion))} {ready : List (Option Completion)}
    (hcqes : ∀ (j : Nat) c, ready[j]? = some c → cqes[j]? = some (some c)) {k i pos : Nat}
    {handles : List (Option Coro)} (hk : i + k ≤ ready.length) (hpos : pos + k ≤ handles.length) :
    ∃ handles' pos' left, collect cqes k i handles pos = some (handles', pos', left) ∧
      handles'.length = handles.length ∧ pos' ≤ pos + k := by
  induction k generalizing i pos handles with
  | zero => exact ⟨handles, pos, false, rfl, rfl, Nat.le_refl _⟩
  | succ k ih =>
    have hi : i < ready.length := by omega
    obtain ⟨p, hp⟩ : ∃ p, ready[i]? = some p := ⟨_, List.getElem?_eq_getElem hi⟩
    rw [collect, hcqes i p hp]
    cases p with
    | none =>
      obtain ⟨handles', pos', left, heq, hlen, hle⟩ :=
        ih (show i + 1 + k ≤ ready.length by omega) (show pos + k ≤ handles.length by omega)
      exact ⟨handles', pos', left, heq, hlen, by omega⟩
    | some c =>
      obtain ⟨handles₁, pos₁, hput, hlen₁, hle₁⟩ := putHandle_spec c.handle
        (show pos < handles.length by omega)
      obtain ⟨handles', pos', left, heq, hlen, hle⟩ :=
        ih (show i + 1 + k ≤ ready.length by omega) (show pos₁ + k ≤ handles₁.length by omega)
      simp only [Option.bind_eq_bind, Option.bind_some, hput, heq]
      split_ifs
      · exact ⟨handles, pos, true, rfl, rfl, by omega⟩
      · exact ⟨handles₁, pos₁, true, rfl, hlen₁, by omega⟩
      · exact ⟨handles', pos', left, rfl, hlen.trans hlen₁, by omega⟩

namespace BatchLoop

variable {s s' : BatchLoop} {f : IoContextFrame} {ready : List (Option Completion)}

/-- **A round** goes well if the vectors are long enough for it. -/
theorem Inv.iterate (hs : Inv s f) (hready : ready.length ≤ f.params.cqEntries) :
    ∃ s', s.iterate ready = some s' ∧ Inv s' f := by
  have hle : 0 + (ready.map some).length ≤ s.cqes.length := by
    rw [List.length_map, hs.cqes, Nat.zero_add]
    exact hready
  obtain ⟨cqes, hwrite⟩ := Option.isSome_iff_exists.mp (isSome_write.mpr hle)
  obtain ⟨-, -, hmid, -⟩ := write_eq_some_iff.mp hwrite
  have hcqes : ∀ (j : Nat) c, ready[j]? = some c → cqes[j]? = some (some c) := by
    intro j c hj
    have hlt : j < ready.length := (List.getElem?_eq_some_iff.mp hj).1
    rw [List.drop_zero, List.length_map] at hmid
    rw [← List.getElem?_take_of_lt hlt, hmid, List.getElem?_map, hj]
    rfl
  have hroom : 0 + ready.length ≤ s.handles.length := by
    rw [hs.handles]
    omega
  obtain ⟨handles, pos, left, hcollect, hlen, hpos⟩ :=
    collect_spec hcqes (show 0 + ready.length ≤ ready.length by omega) hroom
  have hiter : s.iterate ready = some
      { s with
        cqes := cqes
        handles := handles
        fetched := ready.length
        collected := pos
        left := left } := by
    rw [BatchLoop.iterate, hwrite, Option.bind_eq_bind, Option.bind_some, hcollect]
    rfl
  refine ⟨_, hiter, hs.params, hs.cqSize, (length_of_write hwrite).trans hs.cqes,
    hlen.trans hs.handles, ?_, ?_, hs.inBounds.overrun⟩
  · show ready.length ≤ s.params.cqEntries
    rw [hs.params]
    exact hready
  · show pos ≤ s.params.cqEntries
    rw [hs.params]
    omega

/-- A round that the vectors are too short for is out of bounds. -/
theorem Inv.iterate_eq_none (hs : Inv s f) (hready : f.params.cqEntries < ready.length) :
    s.iterate ready = none := by
  have hwrite : write s.cqes 0 (ready.map some) = none := by
    rw [write, if_neg]
    rw [List.length_map, hs.cqes]
    omega
  rw [BatchLoop.iterate, hwrite]
  rfl

theorem Inv.step (hs : Inv s f) (hready : ready.length ≤ f.params.cqEntries)
    (hstep : s.step ready = some s') : Inv s' f := by
  rw [BatchLoop.step] at hstep
  split_ifs at hstep
  obtain ⟨t, ht, hinv⟩ := hs.iterate hready
  rw [ht] at hstep
  exact Option.some.inj hstep ▸ hinv

theorem Inv.length_le (hs : Inv s f) (hstep : s.step ready = some s') (hs' : s'.InBounds) :
    ready.length ≤ f.params.cqEntries := by
  by_contra hlt
  rw [BatchLoop.step] at hstep
  split_ifs at hstep
  rw [hs.iterate_eq_none (Nat.lt_of_not_le hlt)] at hstep
  have hover : s'.overrun = true := by rw [← Option.some.inj hstep]; rfl
  exact absurd hs'.overrun (by simp [hover])

/-- The ring keeps its size, and no round brings more than fits in it. -/
theorem cqSize_of_step (hstep : s.step ready = some s') :
    ready.length ≤ s.cqSize ∧ s'.cqSize = s.cqSize := by
  rw [BatchLoop.step] at hstep
  split_ifs at hstep with hguard
  simp only [Bool.or_eq_true, decide_eq_true_eq, not_or, Nat.not_lt] at hguard
  refine ⟨hguard.2, ?_⟩
  obtain rfl := Option.some.inj hstep
  cases hiter : s.iterate ready with
  | none => rfl
  | some t =>
    obtain ⟨cqes, -, hcollect⟩ := Option.bind_eq_some_iff.mp hiter
    obtain ⟨r, -, ht⟩ := Option.bind_eq_some_iff.mp hcollect
    exact Option.some.inj ht ▸ rfl

/-- A run stays in bounds exactly when no round brings more than was asked for. -/
theorem along_inBounds_iff (f : IoContextFrame) (batches : List (List (Option Completion))) :
    Along BatchLoop.step InBounds (start f) batches ↔
      StepsMeet BatchLoop.step (fun _ ready => ready.length ≤ f.params.cqEntries) (start f)
        batches :=
  along_iff_stepsMeet (I := fun s => Inv s f) (fun _ hs => hs.inBounds)
    (fun _ _ _ hs hready hstep => hs.step hready hstep)
    (fun _ _ _ hs hstep hs' => hs.length_le hstep hs') (inv_start f)

/-- **The batch arrays are never overrun exactly** where the size asked for is a power of two. -/
theorem batches_inBounds {params : IoContextParams} {answers : SetupAnswers} {f : IoContextFrame}
    (hnew : IoContextFrame.new params answers = some f) :
    (∀ batches, Along BatchLoop.step InBounds (start f) batches) ↔
      ∃ k, params.cqEntries = 2 ^ k := by
  obtain ⟨-, -, rfl⟩ := IoContextFrame.new_eq_some hnew
  rw [← roundupPowOfTwo_le_iff]
  simp only [along_inBounds_iff]
  constructor
  · intro hall
    -- a ring that is full of completions without user data
    have hfull := hall [List.replicate (roundupPowOfTwo params.cqEntries) none] _
      (by simp [BatchLoop.step, start]; rfl)
    simpa using hfull.1
  · intro hle batches
    refine stepsMeet_of_invariant (I := fun s => s.cqSize = roundupPowOfTwo params.cqEntries) ?_ rfl
    intro s ready s' hsize hstep
    obtain ⟨hready, hkeep⟩ := cqSize_of_step hstep
    exact ⟨hkeep.trans hsize, Nat.le_trans (hsize ▸ hready) hle⟩

/-- The size asked for is a power of two. -/
theorem batches_inBounds_sample :
    ∃ f, IoContextFrame.new ⟨4, 8, 16⟩ .accepted = some f ∧
      ∀ batches, Along BatchLoop.step InBounds (start f) batches := by
  have hnew : IoContextFrame.new ⟨4, 8, 16⟩ .accepted =
      some ⟨⟨4, 8, 16⟩, 4, 8, Finset.range 16⟩ := rfl
  exact ⟨_, hnew, (batches_inBounds hnew).mpr ⟨3, rfl⟩⟩

/-- **The batch arrays are overrun**: the ring has room for four completions where three were asked
for, and is full. -/
theorem batches_overrun :
    ∃ f, IoContextFrame.new ⟨2, 3, 16⟩ .accepted = some f ∧
      ¬Along BatchLoop.step InBounds (start f) [List.replicate 4 none] := by
  refine ⟨_, rfl, fun h => ?_⟩
  have hlast := h.last rfl
  exact absurd hlast.overrun (by decide)

end BatchLoop

end Fiona
