import Fiona.Frames.File
import Fiona.Slots.Conservation

/-!
# The slots of files

A file opens into a slot of the table: `open_awaitable::await_suspend` takes it from `fds_` and
keeps it in `temp_fd_`, and the completion moves it to `fd_` or gives it back. There is one
`temp_fd_` and one `fd_` to a file, and nobody asks whether they are in use; nor is it
asked whether `get_available_fd` had a slot to give.

So a slot is lost when a file is opened while another open of it is in progress, when one is
resumed while another is in progress, and when an open of an open file succeeds. Apart
from these every slot is in one place at all times (`Fiona.files_conserved`).
-/

namespace Fiona

open Transition

/-- A file with the references to it: the file objects and the awaitables, and the opens in flight.
The coroutines of opens that are over have been posted, and will be resumed. -/
structure FileLife where
  impl : FileImpl
  handles : Nat
  inFlight : Nat
  posted : Nat

namespace FileLife

variable (l : FileLife)

/-- `file::file`. -/
def new : FileLife := ⟨.new, 1, 0, 0⟩

/-- `open_awaitable::await_suspend`, in the slot that `get_available_fd` answers. -/
def awaitSuspend (h : Coro) (slot : Option Nat) : FileLife :=
  { l with impl := l.impl.openAwaitSuspend h slot, inFlight := l.inFlight + 1 }

/-- A completion of an open, up to the end of its reference, with what it passes to `release_fd`. -/
def process (res : Int) : FileLife × Option Int :=
  let (impl, back) := l.impl.openAwaitProcessCqe res
  let (h, impl) := impl.handle .open
  ({ l with impl := impl, inFlight := l.inFlight - 1, posted := l.posted + h.toList.length }, back)

/-- `open_awaitable::await_resume`. -/
def resume : FileLife := { l with impl := l.impl.awaitResume .open, posted := l.posted - 1 }

end FileLife

/-- A context whose slots only files use. What is absent has not been made or has been destroyed. -/
structure Files where
  slots : Slots
  files : Nat → Option FileLife
  /-- An assertion has failed. -/
  fault : Bool

inductive FilesOp
  /-- A file is constructed. -/
  | newFile (i : Nat)
  /-- A file object is copied, or an awaitable is made. -/
  | copy (i : Nat)
  /-- A file object or an awaitable is destroyed. -/
  | drop (i : Nat)
  /-- `co_await` of an open, with the answer of `get_available_fd`. -/
  | open (i : Nat) (h : Coro) (slot : Option Nat)
  | complete (i : Nat) (res : Int)
  | resume (i : Nat)

namespace Files

variable (s : Files)

def init (numFiles : Nat) : Files := ⟨.init numFiles, fun _ => none, false⟩

def setFile (i : Nat) (l : Option FileLife) : Files :=
  { s with files := Function.update s.files i l }

/-- `release_fd`. -/
def releaseFd (fd : Int) : Option Files := (s.slots.releaseFd fd).map fun σ => { s with slots := σ }

/-- The file, or the end of it: `file_impl::~file_impl` runs with the last reference. -/
def settle (i : Nat) (l : FileLife) : Option Files :=
  if l.handles = 0 ∧ l.inFlight = 0 then (s.setFile i none).releaseFd l.impl.fd
  else some (s.setFile i (some l))

/-- `open_awaitable::await_suspend`, with the error that it throws. -/
def asyncOpen (i : Nat) (h : Coro) (slot : Option Nat) : Option (Files × Option Nat) := do
  let l ← s.files i
  let σ ← s.slots.getAvailableFd (some slot)
  some (({ s with slots := σ }).setFile i (some (l.awaitSuspend h slot)), none)

/-- What a call or a completion does; `none` is a failed assertion. -/
def perform : FilesOp → Option Files
  | .newFile i => some (s.setFile i (some .new))
  | .copy i => do
    let l ← s.files i
    some (s.setFile i (some { l with handles := l.handles + 1 }))
  | .drop i => do
    let l ← s.files i
    s.settle i { l with handles := l.handles - 1 }
  | .open i h slot => (s.asyncOpen i h slot).map Prod.fst
  | .complete i res => do
    let l ← s.files i
    let (l', back) := l.process res
    match back with
    | none => s.settle i l'
    | some fd =>
      -- `BOOST_ASSERT( temp_fd_ >= 0 )`
      if fd < 0 then none
      else do
        let s ← s.releaseFd fd
        s.settle i l'
  | .resume i => do
    let l ← s.files i
    some (s.setFile i (some l.resume))

/-- What the callers and the kernel are held to. -/
def allows : FilesOp → Bool
  | .newFile i => (s.files i).isNone
  | .copy i | .drop i => (s.files i).any fun l => decide (0 < l.handles)
  | .open i _ slot =>
    (s.files i).any (fun l => decide (0 < l.handles)) && s.slots.answers (some slot)
  | .complete i _ => (s.files i).any fun l => decide (0 < l.inFlight)
  | .resume i => (s.files i).any fun l => decide (0 < l.handles) && decide (0 < l.posted)

/-- One step, up to the first assertion that fails. -/
def step (op : FilesOp) : Option Files :=
  if s.fault || !s.allows op then none else some ((s.perform op).getD { s with fault := true })

/-! ### The places of a slot -/

/-- What can have a slot. -/
inductive Holder
  | file (i : Nat)
  /-- The open of a file that is in progress. -/
  | opening (i : Nat)
  deriving DecidableEq, Repr

/-- The slot `n` is in a place: in `fds_`, which is `none`, or with one that has it. -/
def Holds : Option Holder → Nat → Prop
  | none, n => n ∈ s.slots.fds
  | some (.file i), n => ∃ l, s.files i = some l ∧ l.impl.fd = n
  | some (.opening i), n => ∃ l, s.files i = some l ∧ 0 < l.inFlight ∧ l.impl.tempFd = n

/-- **The slots are conserved**: no assertion has failed, each slot is in one place, and all of them
are in `fds_` when there are no files. -/
structure Conserved : Prop where
  noFault : s.fault = false
  place : ∀ n < s.slots.numFiles, ∃! p, s.Holds p n
  slot : ∀ p n, s.Holds p n → n < s.slots.numFiles
  idle : (∀ i, s.files i = none) → s.slots.fds = Finset.range s.slots.numFiles

/-- **An open that finds no slot is refused**, and changes nothing. -/
def Refuses : FilesOp → Prop
  | .open i h none => s.asyncOpen i h none = some (s, some Errno.ENFILE)
  | _ => True

/-- A file is opened where there is a slot and while no open of it is in progress, no open is
resumed while another one of its file is in progress, and no open of an open file succeeds. -/
def Orderly : FilesOp → Prop
  | .open i _ slot => slot.isSome ∧ ∀ l, s.files i = some l → l.inFlight = 0
  | .resume i => ∀ l, s.files i = some l → l.inFlight = 0
  | .complete i res => 0 ≤ res → ∀ l, s.files i = some l → l.impl.fd < 0
  | _ => True

end Files

/-! ### Files on their own -/

namespace FileLife

/-- `temp_fd_` is in use while one open is in progress, and no more than one is. -/
def Sound (l : FileLife) : Prop :=
  l.inFlight = 0 ∧ l.impl.tempFd = -1 ∨ l.inFlight = 1 ∧ 0 ≤ l.impl.tempFd

variable {l : FileLife} {res : Int}

theorem Sound.tempFd_of_zero (hl : l.Sound) (h : l.inFlight = 0) : l.impl.tempFd = -1 := by
  rcases hl with ⟨-, htemp⟩ | ⟨hone, -⟩
  · exact htemp
  · omega

theorem Sound.tempFd_nonneg (hl : l.Sound) (h : 0 < l.inFlight) : 0 ≤ l.impl.tempFd := by
  rcases hl with ⟨hzero, -⟩ | ⟨-, htemp⟩
  · omega
  · exact htemp

/-- A completion leaves no slot in `temp_fd_`. -/
theorem process_sound (hl : l.Sound) (h : 0 < l.inFlight) : (l.process res).1.Sound := by
  have hone : l.inFlight = 1 := by
    rcases hl with ⟨hzero, -⟩ | ⟨hone, -⟩
    · omega
    · exact hone
  refine .inl ⟨by simp [process, hone], ?_⟩
  simp only [process, FileImpl.openAwaitProcessCqe]
  split_ifs <;> rfl

/-- An open that succeeds moves its slot to `fd_`. -/
theorem process_of_nonneg (hres : 0 ≤ res) : (l.process res).2 = none ∧
    (l.process res).1.impl.fd = l.impl.tempFd ∧ (l.process res).1.impl.tempFd = -1 := by
  simp only [process, FileImpl.openAwaitProcessCqe, if_pos hres, true_and]
  exact ⟨rfl, rfl⟩

/-- An open that fails gives its slot back. -/
theorem process_of_neg (hres : ¬0 ≤ res) : (l.process res).2 = some l.impl.tempFd ∧
    (l.process res).1.impl.fd = l.impl.fd ∧ (l.process res).1.impl.tempFd = -1 := by
  simp only [process, FileImpl.openAwaitProcessCqe, if_neg hres, true_and]
  exact ⟨rfl, rfl⟩

end FileLife

namespace Slots

/-- **`release_fd`**, of what is a slot of the table that is not free, or no slot at all. -/
theorem releaseFd_eq {σ : Slots} {fd : Int}
    (h : ∀ n, slotOf fd = some n → n < σ.numFiles ∧ n ∉ σ.fds) :
    σ.releaseFd fd = some { σ with fds := σ.fds ∪ (slotOf fd).toFinset } := by
  rw [releaseFd]
  rcases lt_or_ge fd 0 with hneg | hfd
  · rw [if_pos hneg, slotOf_of_neg hneg]
    simp
  · have hslot : slotOf fd = some fd.toNat := if_pos hfd
    rw [if_neg (by omega), if_pos (h _ hslot), hslot]
    congr 2
    ext n
    simp

end Slots

/-! ### The pool -/

namespace Files

variable {s s' : Files} {i : Nat} {l l' : FileLife} {o : Option FileLife} {op : FilesOp}

/-- What has which slot. -/
def held (s : Files) : Holder → Option Nat
  | .file i => (s.files i).bind fun l => slotOf l.impl.fd
  | .opening i => (s.files i).bind fun l => slotOf l.impl.tempFd

/-- The slots as a pool. -/
def pool (s : Files) : ResourcePool Holder Nat := ⟨s.slots.fds, s.held⟩

theorem setFile_setFile {fds : Finset Nat} {o' : Option FileLife} :
    ({ s.setFile i o with slots := { s.slots with fds := fds } } : Files).setFile i o' =
      { s with slots := { s.slots with fds := fds } }.setFile i o' := by
  simp [setFile]

theorem held_setFile : (s.setFile i o).held =
    Function.update (Function.update s.held (.opening i) (o.bind fun l => slotOf l.impl.tempFd))
      (.file i) (o.bind fun l => slotOf l.impl.fd) := by
  funext p
  cases p with
  | file j => rcases eq_or_ne j i with rfl | hne <;> simp [held, setFile, *]
  | opening j => rcases eq_or_ne j i with rfl | hne <;> simp [held, setFile, *]

/-- Each slot is in one place, and the files are sound. -/
structure Inv (s : Files) : Prop where
  noFault : s.fault = false
  conserved : s.pool.Conserved (· < s.slots.numFiles)
  files : ∀ i l, s.files i = some l → l.Sound

theorem inv_init (numFiles : Nat) : Inv (init numFiles) where
  noFault := rfl
  conserved := by
    have hfree : (init numFiles).pool.Conserved (· ∈ Finset.range numFiles) :=
      ResourcePool.conserved_of_held_none fun p => by cases p <;> rfl
    exact Ownership.ExactlyOne.congr hfree (fun _ _ => Iff.rfl) fun n => Finset.mem_range.symm
  files := by simp [init]

/-- A place has a slot in the pool just if it has in the context. -/
theorem Inv.holds_iff (hs : Inv s) {p : Option Holder} {n : Nat} :
    s.Holds p n ↔ s.pool.Holds p n := by
  cases p with
  | none => exact Iff.rfl
  | some p =>
    cases p with
    | file i => simp only [Holds, ResourcePool.Holds, pool, held, Option.bind_eq_some_iff,
        slotOf_eq_some]
    | opening i =>
      simp only [Holds, ResourcePool.Holds, pool, held, Option.bind_eq_some_iff, slotOf_eq_some]
      refine exists_congr fun l => and_congr_right fun hi => and_iff_right_of_imp fun htemp => ?_
      by_contra hzero
      have := (hs.files i l hi).tempFd_of_zero (by omega)
      omega

theorem Inv.exactlyOne (hs : Inv s) :
    Ownership.ExactlyOne s.Holds (· < s.slots.numFiles) :=
  Ownership.ExactlyOne.congr hs.conserved (fun _ _ => hs.holds_iff) fun _ => Iff.rfl

theorem Inv.conserves (hs : Inv s) : s.Conserved where
  noFault := hs.noFault
  place n hn := hs.exactlyOne.existsUnique hn
  slot p n hp := hs.exactlyOne.live_of_held hp
  idle hnone := by
    ext n
    rw [Finset.mem_range, hs.exactlyOne.live_iff]
    refine ⟨fun hn => ⟨none, hn⟩, ?_⟩
    rintro ⟨_ | _ | _, hp⟩
    · exact hp
    · obtain ⟨l, hl, -⟩ := hp
      exact absurd (hl.symm.trans (hnone _)) (by simp)
    · obtain ⟨l, hl, -⟩ := hp
      exact absurd (hl.symm.trans (hnone _)) (by simp)

/-- A file is replaced, and the free slots with it. -/
theorem Inv.replace (hs : Inv s) {fds : Finset Nat} (ho : ∀ l, o = some l → l.Sound)
    (hpool : ResourcePool.Conserved ⟨fds, Function.update
      (Function.update s.held (.opening i) (o.bind fun l => slotOf l.impl.tempFd))
      (.file i) (o.bind fun l => slotOf l.impl.fd)⟩ (· < s.slots.numFiles)) :
    Inv ({ s with slots := { s.slots with fds := fds } }.setFile i o) where
  noFault := hs.noFault
  conserved := by
    rw [pool, held_setFile]
    exact hpool
  files := by
    intro j m hm
    rcases eq_or_ne j i with rfl | hne
    · exact ho m (by simpa [setFile] using hm)
    · exact hs.files j m (by simpa [setFile, hne] using hm)

/-- A file that keeps its `fd_`. -/
theorem update_file {x y : Option Nat} (hx : x = s.held (.file i)) :
    Function.update (Function.update s.held (.opening i) y) (.file i) x =
      Function.update s.held (.opening i) y := by
  rw [Function.update_eq_self_iff]
  simpa using hx

/-- A file that keeps its slots. -/
theorem Inv.keep (hs : Inv s) (ho : ∀ l, o = some l → l.Sound)
    (hfd : (o.bind fun l => slotOf l.impl.fd) = s.held (.file i))
    (htemp : (o.bind fun l => slotOf l.impl.tempFd) = s.held (.opening i)) :
    Inv (s.setFile i o) := by
  show Inv ({ s with slots := { s.slots with fds := s.slots.fds } }.setFile i o)
  refine hs.replace ho ?_
  rw [htemp, hfd, Function.update_eq_self, Function.update_eq_self]
  exact hs.conserved

/-- What has a slot can release it. -/
theorem Inv.releaseFd_eq (hs : Inv s) {p : Holder} {fd : Int}
    (hp : s.pool.held p = slotOf fd) : s.slots.releaseFd fd =
      some { s.slots with fds := s.slots.fds ∪ (slotOf fd).toFinset } := by
  refine Slots.releaseFd_eq fun n hn => ?_
  exact ⟨hs.conserved.live_of_held (hp.trans hn), hs.conserved.notMem_free (hp.trans hn)⟩

/-- **The end of a file** gives its slot back. -/
theorem Inv.settle (hs : Inv (s.setFile i (some l))) :
    ∃ s', s.settle i l = some s' ∧ Inv s' := by
  rw [Files.settle]
  split_ifs with hlast
  · have hfd : (s.setFile i (some l)).pool.held (.file i) = slotOf l.impl.fd := by
      simp [pool, held, setFile]
    have htemp : (s.setFile i (some l)).held (.opening i) = none := by
      have hl : l.Sound := hs.files i l (by simp [setFile])
      simp [held, setFile, hl.tempFd_of_zero hlast.2, slotOf]
    refine ⟨_, congrArg _ (hs.releaseFd_eq hfd), ?_⟩
    rw [← setFile_setFile (o := some l)]
    refine hs.replace (by simp) ?_
    have hgive := hs.conserved.give (p := .file i)
    rw [ResourcePool.give, hfd] at hgive
    rw [Option.bind_none, Option.bind_none, ← htemp, Function.update_eq_self, htemp]
    exact hgive
  · exact ⟨_, rfl, hs⟩

/-! ### Steps -/

/-- A completion moves the slot to an `fd_` that is free, or gives it back. -/
theorem Inv.complete (hs : Inv s) (hi : s.files i = some l) (hpos : 0 < l.inFlight) {res : Int}
    (hfree : 0 ≤ res → l.impl.fd < 0) : ∃ s', s.perform (.complete i res) = some s' ∧ Inv s' := by
  have hl := hs.files i l hi
  have hsound : ∀ m, some (l.process res).1 = some m → m.Sound := by
    rintro m ⟨⟩
    exact FileLife.process_sound hl hpos
  have htemp : s.pool.held (.opening i) = slotOf l.impl.tempFd := by simp [pool, held, hi]
  have hfd : s.pool.held (.file i) = slotOf l.impl.fd := by simp [pool, held, hi]
  by_cases hres : 0 ≤ res
  · obtain ⟨hback, hfd', htemp'⟩ := FileLife.process_of_nonneg (l := l) hres
    have hpass := hs.conserved.pass (p := .opening i) (q := .file i) (by simp)
      (hfd.trans (slotOf_of_neg (hfree hres)))
    rw [ResourcePool.pass, htemp] at hpass
    have hinv : Inv (s.setFile i (some (l.process res).1)) := by
      show Inv ({ s with slots := { s.slots with fds := s.slots.fds } }.setFile i _)
      refine hs.replace hsound ?_
      rw [Option.bind_some, Option.bind_some, hfd', htemp']
      exact hpass
    obtain ⟨s', hs', hinv'⟩ := hinv.settle
    refine ⟨s', ?_, hinv'⟩
    rw [Files.perform, hi]
    simpa [hback] using hs'
  · obtain ⟨hback, hfd', htemp'⟩ := FileLife.process_of_neg (l := l) hres
    have hgive := hs.conserved.give (p := .opening i)
    rw [ResourcePool.give, htemp] at hgive
    obtain ⟨t, ht⟩ : ∃ t : Files, t = { s with
        slots := { s.slots with fds := s.slots.fds ∪ (slotOf l.impl.tempFd).toFinset } } := ⟨_, rfl⟩
    have hinv : Inv (t.setFile i (some (l.process res).1)) := by
      rw [ht]
      refine hs.replace hsound ?_
      rw [update_file (by rw [Option.bind_some, hfd']; exact hfd.symm), Option.bind_some, htemp']
      exact hgive
    obtain ⟨s', hs', hinv'⟩ := hinv.settle
    refine ⟨s', ?_, hinv'⟩
    have hback' : s.releaseFd l.impl.tempFd = some t := by
      rw [releaseFd, hs.releaseFd_eq htemp, ht]
      rfl
    have hassert : ¬l.impl.tempFd < 0 := by
      have := hl.tempFd_nonneg hpos
      omega
    rw [Files.perform, hi]
    simp [hback, hassert, hback', hs']

/-- A step does what its operation does, or an assertion fails. -/
theorem Inv.step_cases (hs : Inv s) (hstep : s.step op = some s') : s.allows op = true ∧
    (s.perform op = some s' ∨ s.perform op = none ∧ s'.fault = true) := by
  obtain ⟨hallows, heq⟩ := Option.ite_none_left_eq_some.mp hstep
  simp only [hs.noFault, Bool.false_or, Bool.not_eq_true', Bool.not_eq_false] at hallows
  refine ⟨hallows, ?_⟩
  cases h : s.perform op with
  | none =>
    rw [h, Option.getD_none] at heq
    obtain rfl := Option.some.inj heq
    exact .inr ⟨rfl, rfl⟩
  | some t =>
    rw [h, Option.getD_some] at heq
    exact .inl heq

/-- **A step that meets the condition** leads from the invariant to the invariant. -/
theorem Inv.perform (hs : Inv s) (horderly : s.Orderly op) (hallows : s.allows op = true) :
    ∃ s', s.perform op = some s' ∧ Inv s' := by
  cases op with
  | newFile i =>
    have hnone : s.files i = none := by simpa [allows] using hallows
    refine ⟨_, rfl, hs.keep ?_ ?_ ?_⟩
    · rintro l ⟨⟩
      exact .inl ⟨rfl, rfl⟩
    · simp [held, hnone, FileLife.new, FileImpl.new, slotOf]
    · simp [held, hnone, FileLife.new, FileImpl.new, slotOf]
  | copy i =>
    obtain ⟨l, hi, -⟩ := (Option.any_eq_true ..).mp hallows
    refine ⟨_, by rw [Files.perform, hi]; rfl, hs.keep ?_ ?_ ?_⟩
    · rintro m ⟨⟩
      exact hs.files i l hi
    · simp [held, hi]
    · simp [held, hi]
  | drop i =>
    obtain ⟨l, hi, -⟩ := (Option.any_eq_true ..).mp hallows
    have hkeep : Inv (s.setFile i (some { l with handles := l.handles - 1 })) := by
      refine hs.keep ?_ (by simp [held, hi]) (by simp [held, hi])
      rintro m ⟨⟩
      exact hs.files i l hi
    obtain ⟨s', hs', hinv⟩ := hkeep.settle
    exact ⟨s', by rw [Files.perform, hi]; exact hs', hinv⟩
  | «open» i h slot =>
    obtain ⟨hsome, hidle⟩ := horderly
    obtain ⟨n, rfl⟩ := Option.isSome_iff_exists.mp hsome
    obtain ⟨hfile, hn⟩ := Bool.and_eq_true_iff.mp hallows
    obtain ⟨l, hi, -⟩ := (Option.any_eq_true ..).mp hfile
    have hn : n ∈ s.slots.fds := by simpa [Slots.answers] using hn
    have hzero : l.inFlight = 0 := hidle l hi
    have hfree : s.pool.held (.opening i) = none := by
      simp [pool, held, hi, (hs.files i l hi).tempFd_of_zero hzero, slotOf]
    have htake : s.slots.getAvailableFd (some (some n)) =
        some { s.slots with fds := s.slots.fds.erase n } := if_pos (hs.conserved.live_of_mem hn)
    refine ⟨_, by rw [Files.perform, asyncOpen, hi]; simp [htake]; rfl, hs.replace ?_ ?_⟩
    · rintro m ⟨⟩
      exact .inr ⟨by simp [FileLife.awaitSuspend, hzero], Int.natCast_nonneg n⟩
    · rw [update_file (by simp [held, hi]; rfl)]
      exact hs.conserved.take hn hfree
  | complete i res =>
    obtain ⟨l, hi, hpos⟩ := (Option.any_eq_true ..).mp hallows
    exact hs.complete hi (by simpa using hpos) fun hres => horderly hres l hi
  | resume i =>
    obtain ⟨l, hi, -⟩ := (Option.any_eq_true ..).mp hallows
    have hzero : l.inFlight = 0 := horderly l hi
    have htemp : l.impl.tempFd = -1 := (hs.files i l hi).tempFd_of_zero hzero
    refine ⟨_, by rw [Files.perform, hi]; rfl, hs.keep ?_ ?_ ?_⟩
    · rintro m ⟨⟩
      exact .inl ⟨hzero, rfl⟩
    · simp [held, hi, FileLife.resume, FileImpl.awaitResume, FileImpl.setFrame]
    · simp [held, hi, FileLife.resume, FileImpl.awaitResume, htemp]

/-! ### What goes wrong -/

/-- The places of a slot after a file has been replaced: it has the slot, or nothing has changed. -/
theorem holds_of_update {t : Files} (ht : t.files = Function.update s.files i o) {p : Holder}
    {n : Nat} (hp : t.Holds (some p) n) :
    (∃ l, o = some l ∧ (p = .file i ∧ l.impl.fd = n ∨ p = .opening i ∧ l.impl.tempFd = n)) ∨
      p ≠ .file i ∧ p ≠ .opening i ∧ s.Holds (some p) n := by
  cases p with
  | file j =>
    obtain ⟨l, hl, hfd⟩ := hp
    rw [ht] at hl
    rcases eq_or_ne j i with rfl | hne
    · exact .inl ⟨l, by simpa using hl, .inl ⟨rfl, hfd⟩⟩
    · rw [Function.update_of_ne hne] at hl
      exact .inr ⟨by simpa using hne, by simp, l, hl, hfd⟩
  | opening j =>
    obtain ⟨l, hl, hpos, htemp⟩ := hp
    rw [ht] at hl
    rcases eq_or_ne j i with rfl | hne
    · exact .inl ⟨l, by simpa using hl, .inr ⟨rfl, htemp⟩⟩
    · rw [Function.update_of_ne hne] at hl
      exact .inr ⟨by simp, by simpa using hne, l, hl, hpos, htemp⟩

/-- **A slot is lost** if it has left the place that it had, and come to no other. -/
theorem Inv.lost (hs : Inv s) {q : Option Holder} {n : Nat} (hq : s.Holds q n)
    (hnum : s'.slots.numFiles = s.slots.numFiles)
    (hlost : ∀ p, s'.Holds p n → p ≠ q ∧ s.Holds p n) : ¬s'.Conserved := by
  intro hconserved
  refine hs.exactlyOne.unheld hq hlost ?_
  exact (hconserved.place n (hnum ▸ hs.exactlyOne.live_of_held hq)).exists

/-- What `settle` leaves of a file, and what it adds to the free slots. -/
theorem settle_cases (h : s.settle i l = some s') :
    ∃ o, s'.files = Function.update s.files i o ∧ (∀ m, o = some m → m = l) ∧
      s'.slots.numFiles = s.slots.numFiles ∧
      ∀ n ∈ s'.slots.fds, n ∈ s.slots.fds ∨ l.impl.fd = n := by
  rw [settle] at h
  split_ifs at h
  · obtain ⟨σ, hσ, rfl⟩ := Option.map_eq_some_iff.mp h
    refine ⟨none, rfl, by simp, ?_⟩
    unfold Slots.releaseFd at hσ
    split_ifs at hσ with hneg hin
    · obtain rfl := Option.some.inj hσ
      exact ⟨rfl, fun n hn => .inl hn⟩
    · obtain rfl := Option.some.inj hσ
      refine ⟨rfl, fun n hn => ?_⟩
      rcases Finset.mem_insert.mp hn with rfl | hn
      · exact .inr (by omega)
      · exact .inl hn
  · obtain rfl := Option.some.inj h
    exact ⟨some l, rfl, fun m hm => (Option.some.inj hm).symm, rfl, fun n hn => .inl hn⟩

/-- **An open throws nothing**, whatever it finds. -/
theorem asyncOpen_error {h : Coro} {slot e : Option Nat}
    (hopen : s.asyncOpen i h slot = some (s', e)) : e = none := by
  simp only [asyncOpen, Option.bind_eq_bind, Option.bind_eq_some_iff, Option.some.injEq,
    Prod.mk.injEq] at hopen
  obtain ⟨-, -, -, -, -, rfl⟩ := hopen
  rfl

/-- A second open of a file overwrites `temp_fd_`. -/
theorem Inv.lost_open (hs : Inv s) (hi : s.files i = some l) (hpos : 0 < l.inFlight) {h : Coro}
    {n : Nat} (hn : n ∈ s.slots.fds)
    (hperform : s.perform (.open i h (some n)) = some s') : ¬s'.Conserved := by
  have htemp := (hs.files i l hi).tempFd_nonneg hpos
  have hopening : s.Holds (some (.opening i)) l.impl.tempFd.toNat := ⟨l, hi, hpos, by omega⟩
  rw [Files.perform, asyncOpen, hi] at hperform
  simp only [Slots.getAvailableFd, if_pos (hs.conserved.live_of_mem hn), Option.bind_eq_bind,
    Option.bind_some, Option.map_some, Option.some.injEq] at hperform
  subst hperform
  refine hs.lost hopening rfl fun p hp => ?_
  cases p with
  | none => exact ⟨by simp, Finset.mem_of_mem_erase hp⟩
  | some p =>
    rcases holds_of_update (s := s) rfl hp with ⟨m, hm, ⟨rfl, hfd⟩ | ⟨rfl, hnew⟩⟩ | ⟨-, hne, hold⟩
    · obtain rfl := Option.some.inj hm
      exact ⟨by simp, l, hi, hfd⟩
    · obtain rfl := Option.some.inj hm
      have heq : n = l.impl.tempFd.toNat := Int.ofNat.inj hnew
      exact absurd (hs.exactlyOne.unique hopening (heq ▸ hn : s.Holds none _)) (by simp)
    · exact ⟨by simpa using hne, hold⟩

/-- An open that is resumed while another one is in progress clears `temp_fd_`. -/
theorem Inv.lost_resume (hs : Inv s) (hi : s.files i = some l) (hpos : 0 < l.inFlight)
    (hperform : s.perform (.resume i) = some s') : ¬s'.Conserved := by
  have htemp := (hs.files i l hi).tempFd_nonneg hpos
  have hopening : s.Holds (some (.opening i)) l.impl.tempFd.toNat := ⟨l, hi, hpos, by omega⟩
  rw [Files.perform, hi] at hperform
  obtain rfl := Option.some.inj hperform
  refine hs.lost hopening rfl fun p hp => ?_
  cases p with
  | none => exact ⟨by simp, hp⟩
  | some p =>
    rcases holds_of_update (s := s) rfl hp with ⟨m, hm, ⟨rfl, hfd⟩ | ⟨rfl, hnew⟩⟩ | ⟨-, hne, hold⟩
    · obtain rfl := Option.some.inj hm
      exact ⟨by simp, l, hi, hfd⟩
    · obtain rfl := Option.some.inj hm
      exact absurd (show (-1 : Int) = _ from hnew) (by omega)
    · exact ⟨by simpa using hne, hold⟩

/-- An open of an open file that succeeds overwrites `fd_`. -/
theorem Inv.lost_complete (hs : Inv s) (hi : s.files i = some l) (hpos : 0 < l.inFlight)
    {res : Int} (hres : 0 ≤ res) (hfd : 0 ≤ l.impl.fd)
    (hperform : s.perform (.complete i res) = some s') : ¬s'.Conserved := by
  have htemp := (hs.files i l hi).tempFd_nonneg hpos
  have hopening : s.Holds (some (.opening i)) l.impl.tempFd.toNat := ⟨l, hi, hpos, by omega⟩
  have hfile : s.Holds (some (.file i)) l.impl.fd.toNat := ⟨l, hi, by omega⟩
  have hother : l.impl.tempFd ≠ l.impl.fd.toNat := by
    intro heq
    have hopening' : s.Holds (some (.opening i)) l.impl.fd.toNat := ⟨l, hi, hpos, heq⟩
    exact absurd (hs.exactlyOne.unique hfile hopening') (by simp)
  obtain ⟨hback, hfd', htemp'⟩ := FileLife.process_of_nonneg (l := l) hres
  rw [Files.perform, hi] at hperform
  simp only [Option.bind_eq_bind, Option.bind_some, hback] at hperform
  obtain ⟨o, hfiles, ho, hnum, hfree⟩ := settle_cases hperform
  refine hs.lost hfile hnum fun p hp => ?_
  cases p with
  | none =>
    rcases hfree _ hp with hp | hp
    · exact ⟨by simp, hp⟩
    · exact absurd (hfd'.symm.trans hp) hother
  | some p =>
    rcases holds_of_update hfiles hp with ⟨m, hm, ⟨rfl, hnew⟩ | ⟨rfl, hnew⟩⟩ | ⟨hne, -, hold⟩
    · rw [ho m hm] at hnew
      exact absurd (hfd'.symm.trans hnew) hother
    · rw [ho m hm, htemp'] at hnew
      omega
    · exact ⟨by simpa using hne, hold⟩

/-- **A step after which all is well** has met the condition. -/
theorem Inv.orderly (hs : Inv s) (hstep : s.step op = some s') (hrefuses : s.Refuses op)
    (hs' : s'.Conserved) : s.Orderly op := by
  obtain ⟨hallows, hperform | ⟨-, hfault⟩⟩ := hs.step_cases hstep
  swap
  · exact absurd (hs'.noFault.symm.trans hfault) (by simp)
  cases op with
  | newFile i => trivial
  | copy i => trivial
  | drop i => trivial
  | «open» i h slot =>
    obtain ⟨hfile, hanswers⟩ := Bool.and_eq_true_iff.mp hallows
    obtain ⟨l, hi, -⟩ := (Option.any_eq_true ..).mp hfile
    cases slot with
    | none =>
      exact absurd (asyncOpen_error hrefuses) (by simp)
    | some n =>
      refine ⟨rfl, fun m hm => Nat.eq_zero_of_not_pos fun hpos => ?_⟩
      exact hs.lost_open hm hpos (by simpa [Slots.answers] using hanswers) hperform hs'
  | complete i res =>
    intro hres m hm
    obtain ⟨l, hi, hpos⟩ := (Option.any_eq_true ..).mp hallows
    obtain rfl := Option.some.inj (hi.symm.trans hm)
    by_contra hfd
    exact hs.lost_complete hi (by simpa using hpos) hres (by omega) hperform hs'
  | resume i =>
    exact fun m hm => Nat.eq_zero_of_not_pos fun hpos => hs.lost_resume hm hpos hperform hs'

theorem Orderly.refuses (horderly : s.Orderly op) : s.Refuses op := by
  cases op with
  | «open» i h slot =>
    cases slot with
    | none => exact absurd horderly.1 (by simp)
    | some n => trivial
  | _ => trivial

theorem Inv.step (hs : Inv s) (horderly : s.Orderly op) (hstep : s.step op = some s') :
    Inv s' := by
  obtain ⟨hallows, hcases⟩ := hs.step_cases hstep
  obtain ⟨t, ht, hinv⟩ := hs.perform horderly hallows
  rw [ht] at hcases
  simp only [Option.some.injEq, reduceCtorEq, false_and, or_false] at hcases
  exact hcases ▸ hinv

/-- A run that conserves the slots is orderly. -/
theorem orderly_of_conserved {numFiles : Nat} {ops : List FilesOp}
    (hconserved : Along Files.step Conserved (init numFiles) ops)
    (hrefuses : StepsMeet Files.step Refuses (init numFiles) ops) :
    StepsMeet Files.step Orderly (init numFiles) ops :=
  stepsMeet_of_along (fun _ _ _ hs horderly hstep => hs.step horderly hstep)
    (fun _ _ _ hs hstep hrefuses hs' => hs.orderly hstep hrefuses hs') (inv_init numFiles)
    hconserved hrefuses

/-- An orderly run conserves the slots. -/
theorem conserved_of_orderly {numFiles : Nat} {ops : List FilesOp}
    (h : StepsMeet Files.step Orderly (init numFiles) ops) :
    Along Files.step Conserved (init numFiles) ops :=
  (along_of_stepsMeet (fun _ _ _ hs horderly hstep => hs.step horderly hstep) (inv_init numFiles)
    h).mono fun _ hs => hs.conserves

end Files

/-- **The slots of files are conserved, and an open without a slot is refused, in exactly those
runs** in which every open is asked for where there is a slot and while no open of its file is in
progress, no open is resumed while another one of its file is in progress, and no open of an open
file succeeds. -/
theorem files_conserved (numFiles : Nat) (ops : List FilesOp) :
    Along Files.step Files.Conserved (.init numFiles) ops ∧
        StepsMeet Files.step Files.Refuses (.init numFiles) ops ↔
      StepsMeet Files.step Files.Orderly (.init numFiles) ops := by
  refine ⟨fun h => Files.orderly_of_conserved h.1 h.2,
    fun h => ⟨Files.conserved_of_orderly h, ?_⟩⟩
  exact StepsMeet.of_invariant (fun _ _ _ hs horderly hstep =>
    ⟨hs.step horderly hstep, horderly.refuses⟩) (Files.inv_init numFiles) h

/-- **A slot is lost** when a second open of a file overtakes the first, when an open file is opened
again, and when a coroutine resumes after another one has begun to open the same file; and
an open that finds no slot is not refused. -/
theorem files_leak :
    ¬(Along Files.step Files.Conserved (.init 2) [.newFile 0, .open 0 7 (some 0),
        .open 0 8 (some 1)] ∧
      StepsMeet Files.step Files.Refuses (.init 2) [.newFile 0, .open 0 7 (some 0),
        .open 0 8 (some 1)]) ∧
    ¬(Along Files.step Files.Conserved (.init 2) [.newFile 0, .open 0 7 (some 0), .complete 0 0,
        .resume 0, .open 0 7 (some 1), .complete 0 0] ∧
      StepsMeet Files.step Files.Refuses (.init 2) [.newFile 0, .open 0 7 (some 0),
        .complete 0 0, .resume 0, .open 0 7 (some 1), .complete 0 0]) ∧
    ¬(Along Files.step Files.Conserved (.init 2) [.newFile 0, .open 0 7 (some 0),
        .complete 0 (-2), .open 0 8 (some 1), .resume 0] ∧
      StepsMeet Files.step Files.Refuses (.init 2) [.newFile 0, .open 0 7 (some 0),
        .complete 0 (-2), .open 0 8 (some 1), .resume 0]) ∧
    ¬StepsMeet Files.step Files.Refuses (.init 0) [.newFile 0, .open 0 7 none] := by
  refine ⟨fun h => ?_, fun h => ?_, fun h => ?_, fun h => ?_⟩
  · have h := Files.orderly_of_conserved h.1 h.2
    exact absurd ((((h _ rfl).2 _ rfl).2 _ rfl).1.2 _ rfl) (by decide)
  · have h := Files.orderly_of_conserved h.1 h.2
    exact absurd (((((((h _ rfl).2 _ rfl).2 _ rfl).2 _ rfl).2 _ rfl).2 _ rfl).1 (by decide) _ rfl)
      (by decide)
  · have h := Files.orderly_of_conserved h.1 h.2
    exact absurd ((((((h _ rfl).2 _ rfl).2 _ rfl).2 _ rfl).2 _ rfl).1 _ rfl) (by decide)
  · exact absurd (Files.asyncOpen_error ((h _ rfl).2 _ rfl).1) (by simp)

end Fiona
