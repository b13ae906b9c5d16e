import Fiona.Lib.Pool
import Fiona.Lib.Run

/-!
# The results of a resolver

`dns_awaitable::await_suspend` starts a thread that calls `getaddrinfo` and puts the answer into the
frame that all copies of the resolver share. `await_resume` joins the thread and wraps the list in a
`dns_entry_list`, whose destructor frees it. A `dns_entry_list` is moved, and the move assignment
does not look at what its target has.

So a list is lost when one is assigned to an object that has another one, and when the coroutine
that waits for it is destroyed. Nor is a list freed any more after `std::terminate`, which a second
`co_await` and the end of a frame lead to while the thread has not been joined. Apart from these
every list has one owner or has been freed once (`Fiona.results_owned`).
-/

namespace Fiona

open Transition

/-- What `getaddrinfo` answers: a list just if it succeeds. -/
structure Answer where
  res : Int
  addrlist : Option Nat
  isSome_iff : addrlist.isSome ↔ res = 0

/-- The answer with the result `res`, where the next list that is produced is `n`. -/
def Answer.ofRes (res : Int) (n : Nat) : Answer :=
  ⟨res, if res = 0 then some n else none, by split_ifs <;> simp [*]⟩

/-- The thread of a frame, `t_`. -/
inductive Worker
  /-- There is no thread, or it has been joined. -/
  | idle
  /-- In `getaddrinfo`. -/
  | resolving
  /-- With the answer, which is not in the frame yet. -/
  | resolved (a : Answer)
  /-- The answer is in the frame. -/
  | stored
  /-- The thread has let go of the frame, and waits to be joined. -/
  | finished

namespace Worker

/-- `std::thread::joinable`. -/
def joinable : Worker → Bool
  | idle => false
  | _ => true

/-- The thread has a reference to the frame. -/
def running : Worker → Bool
  | idle | finished => false
  | _ => true

/-- The list that the thread has. -/
def addrlist : Worker → Option Nat
  | resolved a => a.addrlist
  | _ => none

end Worker

/-- `dns_entry_list`. -/
structure DnsEntryList where
  head : Option Nat

namespace DnsEntryList

/-- The move constructor: the new object, and what is left of `rhs`. -/
def moveConstruct (rhs : DnsEntryList) : DnsEntryList × DnsEntryList := (⟨rhs.head⟩, ⟨none⟩)

/-- The move assignment from another object, with what is left of that. -/
def moveAssign (_l rhs : DnsEntryList) : DnsEntryList × DnsEntryList := (⟨rhs.head⟩, ⟨none⟩)

/-- What `~dns_entry_list` passes to `freeaddrinfo`. -/
def destroy (l : DnsEntryList) : List Nat := l.head.toList

end DnsEntryList

/-- `dns_frame` with the references to it: the resolvers and awaitables, and the awaitable of the
coroutine that waits. -/
structure DnsFrame where
  worker : Worker
  answer : Answer
  handles : Nat
  awaiting : Bool

namespace DnsFrame

variable (l : DnsFrame)

/-- `dns_resolver::dns_resolver`. -/
def new : DnsFrame := ⟨.idle, ⟨-1, none, by simp⟩, 1, false⟩

/-- `dns_awaitable::await_suspend`; `none` is `std::terminate`, in the assignment to `t_`. -/
def awaitSuspend : Option DnsFrame :=
  if l.worker.joinable then none
  else some { l with worker := .resolving, handles := l.handles - 1, awaiting := true }

/-- `dns_awaitable::await_resume`. -/
def awaitResume : DnsFrame × Except Int DnsEntryList :=
  ({ l with worker := .idle, handles := l.handles + 1, awaiting := false },
    if l.answer.res ≠ 0 then .error l.answer.res
    else .ok (DnsEntryList.moveConstruct ⟨l.answer.addrlist⟩).1)

/-- The answer is in the frame, for the coroutine that waits. -/
def delivers : Bool :=
  l.awaiting && match l.worker with
    | .stored | .finished => true
    | _ => false

/-- The list that the frame has. -/
def addrlist : Option Nat := if l.delivers then l.answer.addrlist else none

/-- There is no reference to the frame. -/
def unreferenced : Bool := l.handles == 0 && !l.awaiting && !l.worker.running

end DnsFrame

/-- The resolvers of a process, by their frames, and its `dns_entry_list` objects. What is absent
has not been made or has been destroyed. -/
structure Dns where
  frames : Nat → Option DnsFrame
  lists : Nat → Option DnsEntryList
  /-- The lists that `getaddrinfo` has produced are those below. -/
  produced : Nat
  /-- What has been passed to `freeaddrinfo`. -/
  freed : List Nat
  terminated : Bool

inductive DnsOp
  /-- A resolver is constructed. -/
  | newResolver (f : Nat)
  /-- A resolver or an awaitable is copied, or `async_resolve` makes an awaitable. -/
  | copy (f : Nat)
  /-- A resolver or an awaitable is destroyed. -/
  | drop (f : Nat)
  /-- `co_await`. -/
  | suspend (f : Nat)
  /-- `getaddrinfo` returns `res`. -/
  | getaddrinfo (f : Nat) (res : Int)
  | store (f : Nat)
  | finish (f : Nat)
  /-- The coroutine goes on, with the result in the object `x`. -/
  | resume (f x : Nat)
  /-- The coroutine is destroyed while it waits. -/
  | abandon (f : Nat)
  | newList (x : Nat)
  /-- `x` is constructed from `y`. -/
  | moveConstruct (x y : Nat)
  /-- `y` is assigned to `x`. -/
  | moveAssign (x y : Nat)
  | destroyList (x : Nat)

namespace Dns

variable (s : Dns)

def init : Dns := ⟨fun _ => none, fun _ => none, 0, [], false⟩

def setFrame (f : Nat) (l : Option DnsFrame) : Dns :=
  { s with frames := Function.update s.frames f l }

def setList (x : Nat) (l : Option DnsEntryList) : Dns :=
  { s with lists := Function.update s.lists x l }

/-- `std::terminate`. -/
def terminate : Dns :=
  { s with frames := fun _ => none, lists := fun _ => none, terminated := true }

/-- The frame, or the end of it: `~thread` runs with the last reference. -/
def settle (f : Nat) (l : DnsFrame) : Option Dns :=
  if !l.unreferenced then some (s.setFrame f (some l))
  else if l.worker.joinable then none
  else some (s.setFrame f none)

/-- What an operation does; `none` is `std::terminate`. -/
def perform : DnsOp → Option Dns
  | .newResolver f => some (s.setFrame f (some .new))
  | .copy f => do
    let l ← s.frames f
    some (s.setFrame f (some { l with handles := l.handles + 1 }))
  | .drop f => do
    let l ← s.frames f
    s.settle f { l with handles := l.handles - 1 }
  | .suspend f => do
    let l ← s.frames f
    let l' ← l.awaitSuspend
    some (s.setFrame f (some l'))
  | .getaddrinfo f res => do
    let l ← s.frames f
    let a := Answer.ofRes res s.produced
    some { s.setFrame f (some { l with worker := .resolved a }) with
      produced := s.produced + a.addrlist.toList.length }
  | .store f => do
    let l ← s.frames f
    match l.worker with
    | .resolved a => some (s.setFrame f (some { l with worker := .stored, answer := a }))
    | _ => none
  | .finish f => do
    let l ← s.frames f
    s.settle f { l with worker := .finished }
  | .resume f x => do
    let l ← s.frames f
    match l.awaitResume with
    | (l', .ok r) => some ((s.setFrame f (some l')).setList x (some r))
    | (l', .error _) => some (s.setFrame f (some l'))
  | .abandon f => do
    let l ← s.frames f
    s.settle f { l with awaiting := false }
  | .newList x => some (s.setList x (some ⟨none⟩))
  | .moveConstruct x y => do
    let rhs ← s.lists y
    let (l, rhs) := rhs.moveConstruct
    some ((s.setList y (some rhs)).setList x (some l))
  | .moveAssign x y =>
    -- `this != &rhs`
    if x = y then some s
    else do
      let l ← s.lists x
      let rhs ← s.lists y
      let (l, rhs) := l.moveAssign rhs
      some ((s.setList y (some rhs)).setList x (some l))
  | .destroyList x => do
    let l ← s.lists x
    some { s.setList x none with freed := s.freed ++ l.destroy }

/-- What the callers, the coroutines and the threads are held to. -/
def allows : DnsOp → Bool
  | .newResolver f => (s.frames f).isNone
  | .copy f => (s.frames f).any fun l => decide (0 < l.handles) || l.awaiting
  | .drop f | .suspend f => (s.frames f).any fun l => decide (0 < l.handles)
  | .getaddrinfo f _ => (s.frames f).any fun l => (l.worker matches .resolving)
  | .store f => (s.frames f).any fun l => (l.worker matches .resolved _)
  | .finish f => (s.frames f).any fun l => (l.worker matches .stored)
  | .resume f x =>
    (s.frames f).any (fun l => l.awaiting && (l.worker matches .finished)) && (s.lists x).isNone
  | .abandon f => (s.frames f).any fun l => l.awaiting
  | .newList x => (s.lists x).isNone
  | .moveConstruct x y => (s.lists x).isNone && (s.lists y).isSome
  | .moveAssign x y => (s.lists x).isSome && (s.lists y).isSome
  | .destroyList x => (s.lists x).isSome

/-- One step, up to `std::terminate`. -/
def step (op : DnsOp) : Option Dns :=
  if s.terminated || !s.allows op then none else some ((s.perform op).getD s.terminate)

/-! ### The owners of a list -/

/-- What can have a list. -/
inductive Holder
  /-- The thread of a frame. -/
  | worker (f : Nat)
  /-- A frame, for the coroutine that waits. -/
  | frame (f : Nat)
  /-- A `dns_entry_list`. -/
  | object (x : Nat)
  deriving DecidableEq, Repr

/-- What has which list. -/
def held : Holder → Option Nat
  | .worker f => (s.frames f).bind fun l => l.worker.addrlist
  | .frame f => (s.frames f).bind DnsFrame.addrlist
  | .object x => (s.lists x).bind DnsEntryList.head

/-- **The lists are owned**: each that has been produced has one owner and has not been freed, or
has none and has been freed once. -/
def Owned : Prop :=
  ∀ n < s.produced, (∃! p, s.held p = some n) ∧ s.freed.count n = 0 ∨
    (¬∃ p, s.held p = some n) ∧ s.freed.count n = 1

/-- An object that is assigned to has no list, the coroutine that waits is not destroyed once the
frame has a list for it, and there is a coroutine that waits when a list is stored. -/
def Keeps : DnsOp → Prop
  | .moveAssign x y => x = y ∨ s.held (.object x) = none
  | .abandon f => s.held (.frame f) = none
  | .store f => ∀ l, s.frames f = some l → l.awaiting ∨ s.held (.worker f) = none
  | _ => True

/-- A `co_await` where the thread has not been joined, and the end of the last reference to a frame
where it has not. -/
def Terminates : DnsOp → Prop
  | .suspend f => ∃ l, s.frames f = some l ∧ l.worker.joinable
  | .drop f => ∃ l, s.frames f = some l ∧ l.handles = 1 ∧ ¬l.awaiting ∧ l.worker = .finished
  | .abandon f => ∃ l, s.frames f = some l ∧ l.handles = 0 ∧ l.worker = .finished
  | .finish f => ∃ l, s.frames f = some l ∧ l.handles = 0 ∧ ¬l.awaiting
  | _ => False

/-- No list is dropped, and all have been freed before `std::terminate`. -/
def Careful (op : DnsOp) : Prop :=
  s.Keeps op ∧ (s.Terminates op → ∀ n < s.produced, n ∈ s.freed)

end Dns

/-! ### Frames on their own -/

namespace DnsFrame

variable {l : DnsFrame}

/-- A frame without references has no list. -/
theorem addrlist_of_unreferenced (h : l.unreferenced = true) :
    l.worker.addrlist = none ∧ l.addrlist = none := by
  simp only [unreferenced, Bool.and_eq_true, Bool.not_eq_true'] at h
  obtain ⟨⟨-, hawaiting⟩, hrunning⟩ := h
  refine ⟨?_, by simp [addrlist, delivers, hawaiting]⟩
  cases hworker : l.worker with
  | resolved a =>
    rw [hworker] at hrunning
    exact absurd hrunning (by simp [Worker.running])
  | _ => rfl

/-- A frame whose thread can be joined and that nobody refers to is one whose thread has
finished. -/
theorem unreferenced_and_joinable : l.unreferenced = true ∧ l.worker.joinable = true ↔
    l.handles = 0 ∧ ¬l.awaiting ∧ l.worker = .finished := by
  cases hworker : l.worker <;>
    simp [unreferenced, Worker.joinable, Worker.running, hworker]

end DnsFrame

/-! ### The pool -/

namespace Dns

variable {s s' : Dns} {f x y : Nat} {l : DnsFrame} {o : Option DnsFrame} {op : DnsOp}

/-- The lists as a pool, into which those go that are freed. -/
def pool (s : Dns) : ResourcePool Holder Nat := ⟨s.freed.toFinset, s.held⟩

theorem held_setFrame : (s.setFrame f o).held =
    Function.update (Function.update s.held (.worker f) (o.bind fun l => l.worker.addrlist))
      (.frame f) (o.bind DnsFrame.addrlist) := by
  funext p
  cases p with
  | worker g => rcases eq_or_ne g f with rfl | hne <;> simp [held, setFrame, *]
  | frame g => rcases eq_or_ne g f with rfl | hne <;> simp [held, setFrame, *]
  | object z => simp [held, setFrame]

/-- A frame that keeps its list. -/
theorem held_setFrame_of_eq (hframe : o.bind DnsFrame.addrlist = s.held (.frame f)) :
    (s.setFrame f o).held =
      Function.update s.held (.worker f) (o.bind fun l => l.worker.addrlist) := by
  rw [held_setFrame, Function.update_eq_self_iff, hframe]
  exact (Function.update_of_ne (by simp) ..).symm

theorem held_setList {o : Option DnsEntryList} : (s.setList x o).held =
    Function.update s.held (.object x) (o.bind DnsEntryList.head) := by
  funext p
  cases p with
  | object z => rcases eq_or_ne z x with rfl | hne <;> simp [held, setList, *]
  | _ => simp [held, setList]

/-- Each list is in one place, and none has been freed twice. -/
structure Inv (s : Dns) : Prop where
  conserved : s.pool.Conserved (· < s.produced)
  nodup : s.freed.Nodup

theorem inv_init : Inv init where
  conserved := by
    have hfree : init.pool.Conserved (· ∈ (∅ : Finset Nat)) :=
      ResourcePool.conserved_of_held_none fun p => by cases p <;> rfl
    exact Ownership.ExactlyOne.congr hfree (fun _ _ => Iff.rfl) fun n => by simp [init]
  nodup := List.nodup_nil

theorem Inv.owned (hs : Inv s) : s.Owned := by
  intro n hn
  obtain ⟨p, hp, hunique⟩ := Ownership.ExactlyOne.existsUnique hs.conserved hn
  cases p with
  | none =>
    refine .inr ⟨?_, List.count_eq_one_of_mem hs.nodup (List.mem_toFinset.mp hp)⟩
    rintro ⟨q, hq⟩
    exact absurd (hunique (some q) hq) (by simp)
  | some p =>
    refine .inl ⟨⟨p, hp, fun q hq => Option.some.inj (hunique (some q) hq)⟩, ?_⟩
    exact List.count_eq_zero.mpr fun hfreed =>
      hs.conserved.notMem_free hp (List.mem_toFinset.mpr hfreed)

/-- A list that is owned or has been freed is somewhere. -/
theorem Owned.exists_place (hs : s.Owned) {n : Nat} (hn : n < s.produced) :
    ∃ p, s.pool.Holds p n := by
  rcases hs n hn with ⟨⟨p, hp, -⟩, -⟩ | ⟨-, hcount⟩
  · exact ⟨some p, hp⟩
  · exact ⟨none, List.mem_toFinset.mpr (List.count_pos_iff.mp (by omega))⟩

/-- A frame that keeps its lists. -/
theorem Inv.keep (hs : Inv s) (hworker : (o.bind fun l => l.worker.addrlist) = s.held (.worker f))
    (hframe : o.bind DnsFrame.addrlist = s.held (.frame f)) : Inv (s.setFrame f o) where
  conserved := by
    rw [pool, held_setFrame_of_eq hframe, hworker, Function.update_eq_self]
    exact hs.conserved
  nodup := hs.nodup

/-- The end of a frame. -/
theorem Inv.settle (hs : Inv s) (hworker : l.worker.addrlist = s.held (.worker f))
    (hframe : l.addrlist = s.held (.frame f)) (h : s.settle f l = some s') : Inv s' := by
  rw [Dns.settle] at h
  split_ifs at h with hreferenced
  · obtain rfl := Option.some.inj h
    exact hs.keep hworker hframe
  · obtain rfl := Option.some.inj h
    have hgone : l.unreferenced = true := by simpa using hreferenced
    obtain ⟨hnone, hnone'⟩ := DnsFrame.addrlist_of_unreferenced hgone
    exact hs.keep (hnone.symm.trans hworker) (hnone'.symm.trans hframe)

/-- `std::terminate`, where all lists have been freed. -/
theorem Inv.terminate (hs : Inv s) (hfreed : ∀ n < s.produced, n ∈ s.freed) : Inv s.terminate where
  conserved := by
    have hfree : s.terminate.pool.Conserved (· ∈ s.freed.toFinset) :=
      ResourcePool.conserved_of_held_none fun p => by cases p <;> rfl
    refine Ownership.ExactlyOne.congr hfree (fun _ _ => Iff.rfl) fun n => ?_
    refine ⟨fun hn => List.mem_toFinset.mpr (hfreed n hn), fun hn => ?_⟩
    exact hs.conserved.live_of_mem (n := n) hn
  nodup := hs.nodup

/-! ### Steps -/

theorem settle_eq_none_iff : s.settle f l = none ↔
    l.handles = 0 ∧ ¬l.awaiting ∧ l.worker = .finished := by
  rw [← DnsFrame.unreferenced_and_joinable, settle]
  split_ifs <;> simp_all

/-- What `settle` leaves of a frame. -/
theorem settle_cases (h : s.settle f l = some s') :
    ∃ o, s.setFrame f o = s' ∧ ∀ m, o = some m → m = l := by
  rw [settle] at h
  split_ifs at h
  · exact ⟨some l, Option.some.inj h, fun m hm => (Option.some.inj hm).symm⟩
  · exact ⟨none, Option.some.inj h, by simp⟩

/-- **`std::terminate`** is called where it is said to be. -/
theorem perform_eq_none_iff (hallows : s.allows op = true) :
    s.perform op = none ↔ s.Terminates op := by
  cases op with
  | newResolver f => simp [perform, Terminates]
  | copy f =>
    obtain ⟨l, hf, -⟩ := (Option.any_eq_true ..).mp hallows
    simp [perform, Terminates, hf]
  | drop f =>
    obtain ⟨l, hf, hpos⟩ := (Option.any_eq_true ..).mp hallows
    have hpos : 0 < l.handles := by simpa using hpos
    have hone : l.handles - 1 = 0 ↔ l.handles = 1 := by omega
    simp [perform, Terminates, hf, settle_eq_none_iff, hone]
  | suspend f =>
    obtain ⟨l, hf, -⟩ := (Option.any_eq_true ..).mp hallows
    simp [perform, Terminates, hf, DnsFrame.awaitSuspend]
  | getaddrinfo f res =>
    obtain ⟨l, hf, -⟩ := (Option.any_eq_true ..).mp hallows
    simp [perform, Terminates, hf]
  | store f =>
    obtain ⟨l, hf, hworker⟩ := (Option.any_eq_true ..).mp hallows
    cases hl : l.worker <;> simp_all [perform, Terminates]
  | finish f =>
    obtain ⟨l, hf, -⟩ := (Option.any_eq_true ..).mp hallows
    simp [perform, Terminates, hf, settle_eq_none_iff]
  | resume f x =>
    obtain ⟨hframe, -⟩ := Bool.and_eq_true_iff.mp hallows
    obtain ⟨l, hf, -⟩ := (Option.any_eq_true ..).mp hframe
    by_cases hres : l.answer.res = 0 <;> simp [perform, Terminates, hf, DnsFrame.awaitResume, hres]
  | abandon f =>
    obtain ⟨l, hf, -⟩ := (Option.any_eq_true ..).mp hallows
    simp [perform, Terminates, hf, settle_eq_none_iff]
  | newList x => simp [perform, Terminates]
  | moveConstruct x y =>
    obtain ⟨-, hy⟩ := Bool.and_eq_true_iff.mp hallows
    obtain ⟨rhs, hy⟩ := Option.isSome_iff_exists.mp hy
    simp [perform, Terminates, hy]
  | moveAssign x y =>
    obtain ⟨hx, hy⟩ := Bool.and_eq_true_iff.mp hallows
    obtain ⟨lhs, hx⟩ := Option.isSome_iff_exists.mp hx
    obtain ⟨rhs, hy⟩ := Option.isSome_iff_exists.mp hy
    by_cases hxy : x = y <;> simp [perform, Terminates, hx, hy, hxy]
  | destroyList x =>
    obtain ⟨l, hx⟩ := Option.isSome_iff_exists.mp hallows
    simp [perform, Terminates, hx]

/-- A step does what its operation does, or ends the process. -/
theorem step_cases (hstep : s.step op = some s') : s.allows op = true ∧
    (s.perform op = some s' ∧ ¬s.Terminates op ∨ s.Terminates op ∧ s.terminate = s') := by
  obtain ⟨hallows, heq⟩ := Option.ite_none_left_eq_some.mp hstep
  simp only [Bool.or_eq_true, Bool.not_eq_true', not_or, Bool.not_eq_false] at hallows
  refine ⟨hallows.2, ?_⟩
  rw [← perform_eq_none_iff hallows.2]
  cases h : s.perform op with
  | none =>
    rw [h, Option.getD_none] at heq
    exact .inr ⟨rfl, Option.some.inj heq⟩
  | some t =>
    rw [h, Option.getD_some] at heq
    exact .inl ⟨heq, by simp⟩

/-- What `getaddrinfo` has produced is the thread's. -/
theorem Inv.getaddrinfo (hs : Inv s) (hf : s.frames f = some l) (hworker : l.worker = .resolving)
    {res : Int} {a : Answer} (ha : a = .ofRes res s.produced) :
    Inv { s.setFrame f (some { l with worker := .resolved a }) with
      produced := s.produced + a.addrlist.toList.length } := by
  have hthread : s.pool.held (.worker f) = none := by
    simp [pool, held, hf, hworker, Worker.addrlist]
  have hframe : (some { l with worker := .resolved a }).bind DnsFrame.addrlist =
      s.held (.frame f) := by
    simp [held, hf, hworker, DnsFrame.addrlist, DnsFrame.delivers]
  refine ⟨?_, hs.nodup⟩
  show ResourcePool.Conserved ⟨s.freed.toFinset, (s.setFrame f _).held⟩
    (· < s.produced + a.addrlist.toList.length)
  have haddrlist : a.addrlist = if res = 0 then some s.produced else none := ha ▸ rfl
  rw [held_setFrame_of_eq hframe, Option.bind_some, Worker.addrlist, haddrlist]
  split_ifs with hres
  · exact hs.conserved.acquire (lt_irrefl _) hthread fun m => Nat.lt_succ_iff_lt_or_eq
  · rw [Function.update_eq_self_iff.mpr hthread.symm]
    exact hs.conserved

/-- The thread hands its list to the frame, for the coroutine that waits. -/
theorem Inv.store (hs : Inv s) (hf : s.frames f = some l) {a : Answer}
    (hworker : l.worker = .resolved a) (hkeeps : l.awaiting ∨ s.held (.worker f) = none) :
    Inv (s.setFrame f (some { l with worker := .stored, answer := a })) := by
  have hthread : s.held (.worker f) = a.addrlist := by simp [held, hf, hworker, Worker.addrlist]
  have hframe : s.held (.frame f) = none := by
    simp [held, hf, hworker, DnsFrame.addrlist, DnsFrame.delivers]
  rw [hthread] at hkeeps
  have hframe' : DnsFrame.addrlist { l with worker := .stored, answer := a } = a.addrlist := by
    rcases hkeeps with hawaiting | hnone <;> simp [DnsFrame.addrlist, DnsFrame.delivers, *]
  have hpass : (s.pool.pass (.worker f) (.frame f)).Conserved (· < s.produced) :=
    hs.conserved.pass (by simp) hframe
  refine ⟨?_, hs.nodup⟩
  rw [pool, held_setFrame, Option.bind_some, Option.bind_some, hframe', ← hthread]
  exact hpass

/-- The coroutine takes the list from the frame. -/
theorem Inv.resume (hs : Inv s) (hf : s.frames f = some l) (hawaiting : l.awaiting = true)
    (hworker : l.worker = .finished) (hx : s.lists x = none)
    (h : s.perform (.resume f x) = some s') : Inv s' := by
  have hthread : s.held (.worker f) = none := by simp [held, hf, hworker, Worker.addrlist]
  have hframe : s.held (.frame f) = l.answer.addrlist := by
    simp [held, hf, hworker, DnsFrame.addrlist, DnsFrame.delivers, hawaiting]
  have hobject : s.held (.object x) = none := by simp [held, hx]
  have hframe' : l.awaitResume.1.addrlist = none := by
    simp [DnsFrame.awaitResume, DnsFrame.addrlist, DnsFrame.delivers]
  rw [Dns.perform, hf] at h
  by_cases hres : l.answer.res = 0
  · obtain rfl :
        (s.setFrame f (some l.awaitResume.1)).setList x (some ⟨l.answer.addrlist⟩) = s' := by
      simpa [DnsFrame.awaitResume, hres, DnsEntryList.moveConstruct] using h
    have hpass : (s.pool.pass (.frame f) (.object x)).Conserved (· < s.produced) :=
      hs.conserved.pass (by simp) hobject
    have hthread' : l.awaitResume.1.worker.addrlist = s.held (.worker f) := hthread.symm
    refine ⟨?_, hs.nodup⟩
    rw [pool, held_setList, held_setFrame, Option.bind_some, Option.bind_some, Option.bind_some,
      hframe', ← hframe, hthread', Function.update_eq_self]
    exact hpass
  · obtain rfl : s.setFrame f (some l.awaitResume.1) = s' := by
      simpa [DnsFrame.awaitResume, hres] using h
    have hnone : l.answer.addrlist = none := by
      rw [← Option.not_isSome_iff_eq_none, l.answer.isSome_iff]
      exact hres
    exact hs.keep hthread.symm (hframe'.trans (hframe.trans hnone).symm)

/-- **An object is filled from another one**, when it has no list. -/
theorem Inv.move (hs : Inv s) (hxy : x ≠ y) (hx : s.held (.object x) = none) {rhs : DnsEntryList}
    (hy : s.lists y = some rhs) :
    Inv ((s.setList y (some rhs.moveConstruct.2)).setList x (some rhs.moveConstruct.1)) where
  conserved := by
    have hrhs : s.held (.object y) = rhs.head := by simp [held, hy]
    have hpass : (s.pool.pass (.object y) (.object x)).Conserved (· < s.produced) :=
      hs.conserved.pass (by simpa using hxy.symm) hx
    rw [pool, held_setList, held_setList, DnsEntryList.moveConstruct, Option.bind_some,
      Option.bind_some, ← hrhs]
    exact hpass
  nodup := hs.nodup

/-- **An object frees its list** when it is destroyed. -/
theorem Inv.destroyList (hs : Inv s) {l : DnsEntryList} (hx : s.lists x = some l) :
    Inv { s.setList x none with freed := s.freed ++ l.destroy } := by
  have hreturns : ResourcePool.Returns (s.pool.held (.object x)) none l.destroy :=
    .inr ⟨rfl, by simp [pool, held, hx, DnsEntryList.destroy]⟩
  obtain ⟨hconserved, hnodup, hnew⟩ := hs.conserved.returns hreturns
  constructor
  · show ResourcePool.Conserved ⟨(s.freed ++ l.destroy).toFinset, (s.setList x none).held⟩ _
    rw [List.toFinset_append, held_setList]
    exact hconserved
  · refine List.nodup_append.mpr ⟨hs.nodup, hnodup, fun n hn m hm => ?_⟩
    rintro rfl
    exact (hnew n hm).2 (List.mem_toFinset.mpr hn)

/-- **A step that meets the condition** leads from the invariant to the invariant. -/
theorem Inv.perform (hs : Inv s) (hkeeps : s.Keeps op) (hallows : s.allows op = true)
    (h : s.perform op = some s') : Inv s' := by
  cases op with
  | newResolver f =>
    have hnone : s.frames f = none := by simpa [allows] using hallows
    obtain rfl := Option.some.inj h
    refine hs.keep ?_ ?_
    · simp [held, hnone, DnsFrame.new, Worker.addrlist]
    · simp [held, hnone, DnsFrame.new, DnsFrame.addrlist, DnsFrame.delivers]
  | copy f =>
    obtain ⟨l, hf, -⟩ := (Option.any_eq_true ..).mp hallows
    rw [Dns.perform, hf] at h
    obtain rfl := Option.some.inj h
    exact hs.keep (by simp [held, hf]) (by simp [held, hf, DnsFrame.addrlist, DnsFrame.delivers])
  | drop f =>
    obtain ⟨l, hf, -⟩ := (Option.any_eq_true ..).mp hallows
    rw [Dns.perform, hf] at h
    refine hs.settle ?_ ?_ h
    · simp [held, hf]
    · simp [held, hf, DnsFrame.addrlist, DnsFrame.delivers]
  | suspend f =>
    obtain ⟨l, hf, -⟩ := (Option.any_eq_true ..).mp hallows
    rw [Dns.perform, hf, Option.bind_eq_bind, Option.bind_some] at h
    obtain ⟨l', hl', h⟩ := Option.bind_eq_some_iff.mp h
    obtain ⟨hjoinable, hl'⟩ := Option.ite_none_left_eq_some.mp hl'
    obtain rfl := Option.some.inj h
    obtain rfl := Option.some.inj hl'
    cases hworker : l.worker <;> simp [hworker, Worker.joinable] at hjoinable
    refine hs.keep ?_ ?_
    · simp [held, hf, hworker, Worker.addrlist]
    · simp [held, hf, hworker, DnsFrame.addrlist, DnsFrame.delivers]
  | getaddrinfo f res =>
    obtain ⟨l, hf, hworker⟩ := (Option.any_eq_true ..).mp hallows
    rw [Dns.perform, hf] at h
    obtain rfl := Option.some.inj h
    exact hs.getaddrinfo hf (by cases hl : l.worker <;> simp_all) rfl
  | store f =>
    obtain ⟨l, hf, hworker⟩ := (Option.any_eq_true ..).mp hallows
    obtain ⟨a, hl⟩ : ∃ a, l.worker = .resolved a := by cases hl : l.worker <;> simp_all
    rw [Dns.perform, hf, Option.bind_eq_bind, Option.bind_some, hl] at h
    obtain rfl := Option.some.inj h
    exact hs.store hf hl (hkeeps l hf)
  | finish f =>
    obtain ⟨l, hf, hworker⟩ := (Option.any_eq_true ..).mp hallows
    rw [Dns.perform, hf] at h
    have hl : l.worker = .stored := by cases hl : l.worker <;> simp_all
    refine hs.settle ?_ ?_ h
    · simp [held, hf, hl, Worker.addrlist]
    · simp [held, hf, hl, DnsFrame.addrlist, DnsFrame.delivers]
  | resume f x =>
    obtain ⟨hframe, hx⟩ := Bool.and_eq_true_iff.mp hallows
    obtain ⟨l, hf, hl⟩ := (Option.any_eq_true ..).mp hframe
    obtain ⟨hawaiting, hworker⟩ := Bool.and_eq_true_iff.mp hl
    exact hs.resume hf hawaiting (by cases hl : l.worker <;> simp_all) (by simpa using hx) h
  | abandon f =>
    obtain ⟨l, hf, -⟩ := (Option.any_eq_true ..).mp hallows
    rw [Dns.perform, hf] at h
    refine hs.settle ?_ ?_ h
    · simp [held, hf]
    · have hnone : s.held (.frame f) = none := hkeeps
      rw [hnone]
      simp [DnsFrame.addrlist, DnsFrame.delivers]
  | newList x =>
    have hnone : s.lists x = none := by simpa [allows] using hallows
    obtain rfl := Option.some.inj h
    refine ⟨?_, hs.nodup⟩
    rw [pool, held_setList, Function.update_eq_self_iff.mpr (by simp [held, hnone])]
    exact hs.conserved
  | moveConstruct x y =>
    obtain ⟨hx, hy⟩ := Bool.and_eq_true_iff.mp hallows
    have hx : s.lists x = none := by simpa using hx
    obtain ⟨rhs, hy⟩ := Option.isSome_iff_exists.mp hy
    have hxy : x ≠ y := by
      rintro rfl
      exact absurd (hx.symm.trans hy) (by simp)
    rw [Dns.perform, hy] at h
    obtain rfl := Option.some.inj h
    exact hs.move hxy (by simp [held, hx]) hy
  | moveAssign x y =>
    obtain ⟨hx, hy⟩ := Bool.and_eq_true_iff.mp hallows
    obtain ⟨lhs, hx⟩ := Option.isSome_iff_exists.mp hx
    obtain ⟨rhs, hy⟩ := Option.isSome_iff_exists.mp hy
    rw [Dns.perform, hx, hy] at h
    split_ifs at h with hxy
    · obtain rfl := Option.some.inj h
      exact hs
    · obtain rfl := Option.some.inj h
      exact hs.move hxy (hkeeps.resolve_left hxy) hy
  | destroyList x =>
    obtain ⟨l, hx⟩ := Option.isSome_iff_exists.mp hallows
    rw [Dns.perform, hx] at h
    obtain rfl := Option.some.inj h
    exact hs.destroyList hx

theorem Inv.step (hs : Inv s) (hcareful : s.Careful op) (hstep : s.step op = some s') :
    Inv s' := by
  obtain ⟨hallows, ⟨hperform, -⟩ | ⟨hterminates, rfl⟩⟩ := step_cases hstep
  · exact hs.perform hcareful.1 hallows hperform
  · exact hs.terminate (hcareful.2 hterminates)

/-! ### What goes wrong -/

/-- **A list is lost** if its owner has it no more, and nobody else has come to have it. -/
theorem Inv.lost (hs : Inv s) {p : Holder} {n : Nat} (hp : s.held p = some n)
    (hproduced : s'.produced = s.produced) (hfreed : s'.freed = s.freed)
    (hlost : ∀ q, s'.held q = some n → q ≠ p ∧ s.held q = some n) : ¬s'.Owned := by
  intro howned
  have hpool : s.pool.Holds (some p) n := hp
  have hunheld : ¬∃ q, s'.pool.Holds q n := by
    refine Ownership.ExactlyOne.unheld hs.conserved hpool fun q hq => ?_
    cases q with
    | none => exact ⟨by simp, (hfreed ▸ hq : n ∈ s.freed.toFinset)⟩
    | some q =>
      obtain ⟨hne, hold⟩ := hlost q hq
      exact ⟨by simpa using hne, hold⟩
  exact hunheld (howned.exists_place (hproduced ▸ hs.conserved.live_of_held hp))

/-- Where all lists have been freed, nobody has one. -/
theorem Inv.held_eq_none (hs : Inv s) (hfreed : ∀ n < s.produced, n ∈ s.freed) (p : Holder) :
    s.held p = none := by
  refine Option.eq_none_iff_forall_ne_some.mpr fun n hp => hs.conserved.notMem_free hp ?_
  exact List.mem_toFinset.mpr (hfreed n (hs.conserved.live_of_held hp))

theorem keeps_of_held_none (h : ∀ p, s.held p = none) : s.Keeps op := by
  cases op with
  | moveAssign x y => exact .inr (h _)
  | abandon f => exact h _
  | store f => exact fun _ _ => .inr (h _)
  | _ => trivial

/-- After `std::terminate` the lists are owned only if all have been freed. -/
theorem Owned.freed_of_terminate (h : s.terminate.Owned) : ∀ n < s.produced, n ∈ s.freed := by
  intro n hn
  obtain ⟨p, hp⟩ := h.exists_place hn
  rcases p with _ | _ | _ | _
  · exact List.mem_toFinset.mp hp
  all_goals exact absurd hp (by simp [ResourcePool.Holds, pool, held, terminate])

/-- What a frame has that is replaced. -/
theorem held_of_setFrame {p : Holder} {n : Nat} (hp : (s.setFrame f o).held p = some n) :
    (∃ l, o = some l ∧ (p = .worker f ∧ l.worker.addrlist = some n ∨
      p = .frame f ∧ l.addrlist = some n)) ∨
      p ≠ .worker f ∧ p ≠ .frame f ∧ s.held p = some n := by
  rw [held_setFrame] at hp
  rcases eq_or_ne p (.frame f) with rfl | hframe
  · obtain ⟨l, hl, hn⟩ := Option.bind_eq_some_iff.mp (by simpa using hp)
    exact .inl ⟨l, hl, .inr ⟨rfl, hn⟩⟩
  rw [Function.update_of_ne hframe] at hp
  rcases eq_or_ne p (.worker f) with rfl | hworker
  · obtain ⟨l, hl, hn⟩ := Option.bind_eq_some_iff.mp (by simpa using hp)
    exact .inl ⟨l, hl, .inl ⟨rfl, hn⟩⟩
  · rw [Function.update_of_ne hworker] at hp
    exact .inr ⟨hworker, hframe, hp⟩

/-- A move assignment to an object that has a list. -/
theorem Inv.lost_moveAssign (hs : Inv s) (hxy : x ≠ y) {n : Nat} (hx : s.held (.object x) = some n)
    (h : s.perform (.moveAssign x y) = some s') : ¬s'.Owned := by
  rw [Dns.perform, if_neg hxy] at h
  obtain ⟨l, -, h⟩ := Option.bind_eq_some_iff.mp h
  obtain ⟨rhs, hy, h⟩ := Option.bind_eq_some_iff.mp h
  obtain rfl := Option.some.inj h
  refine hs.lost hx rfl rfl fun q hq => ?_
  rw [held_setList, held_setList] at hq
  rcases eq_or_ne q (.object x) with rfl | hne
  · have hx' : s.pool.held (.object x) = some n := hx
    have hy' : s.pool.held (.object y) = some n := by simpa [pool, held, hy] using hq
    exact absurd (hs.conserved.eq_of_held hx' hy') (by simpa using hxy)
  rw [Function.update_of_ne hne] at hq
  rcases eq_or_ne q (.object y) with rfl | hne'
  · exact absurd hq (by simp)
  · rw [Function.update_of_ne hne'] at hq
    exact ⟨hne, hq⟩

/-- The coroutine that waits is destroyed when the frame has its list. -/
theorem Inv.lost_abandon (hs : Inv s) {n : Nat} (hn : s.held (.frame f) = some n)
    (h : s.perform (.abandon f) = some s') : ¬s'.Owned := by
  obtain ⟨l, hf, h⟩ := Option.bind_eq_some_iff.mp h
  obtain ⟨o, rfl, ho⟩ := settle_cases h
  refine hs.lost hn rfl rfl fun q hq => ?_
  rcases held_of_setFrame hq with ⟨m, hm, ⟨rfl, hm'⟩ | ⟨rfl, hm'⟩⟩ | ⟨-, hne, hold⟩
  · rw [ho m hm] at hm'
    exact ⟨by simp, by simpa [held, hf] using hm'⟩
  · rw [ho m hm] at hm'
    exact absurd hm' (by simp [DnsFrame.addrlist, DnsFrame.delivers])
  · exact ⟨hne, hold⟩

/-- A list is stored for a coroutine that has been destroyed. -/
theorem Inv.lost_store (hs : Inv s) (hf : s.frames f = some l) (hawaiting : ¬l.awaiting) {n : Nat}
    (hn : s.held (.worker f) = some n) (h : s.perform (.store f) = some s') : ¬s'.Owned := by
  obtain ⟨a, hworker⟩ : ∃ a, l.worker = .resolved a := by
    cases hl : l.worker <;> simp_all [held, Worker.addrlist]
  rw [Dns.perform, hf, Option.bind_eq_bind, Option.bind_some, hworker] at h
  obtain rfl := Option.some.inj h
  refine hs.lost hn rfl rfl fun q hq => ?_
  rcases held_of_setFrame hq with ⟨m, hm, ⟨rfl, hm'⟩ | ⟨rfl, hm'⟩⟩ | ⟨hne, -, hold⟩
  · obtain rfl := Option.some.inj hm
    exact absurd hm' (by simp [Worker.addrlist])
  · obtain rfl := Option.some.inj hm
    exact absurd hm' (by simp [DnsFrame.addrlist, DnsFrame.delivers, hawaiting])
  · exact ⟨hne, hold⟩

/-- A step that keeps the lists has not dropped one. -/
theorem Inv.keeps (hs : Inv s) (h : s.perform op = some s') (howned : s'.Owned) : s.Keeps op := by
  cases op with
  | moveAssign x y =>
    refine or_iff_not_imp_left.mpr fun hxy => Option.eq_none_iff_forall_ne_some.mpr fun n hx => ?_
    exact hs.lost_moveAssign hxy hx h howned
  | abandon f =>
    refine Option.eq_none_iff_forall_ne_some.mpr fun n hf => ?_
    exact hs.lost_abandon hf h howned
  | store f =>
    intro l hf
    refine or_iff_not_imp_left.mpr fun hawaiting =>
      Option.eq_none_iff_forall_ne_some.mpr fun n hworker => ?_
    exact hs.lost_store hf hawaiting hworker h howned
  | _ => trivial

/-- **A step after which the lists are owned** has met the condition. -/
theorem Inv.careful (hs : Inv s) (hstep : s.step op = some s') (howned : s'.Owned) :
    s.Careful op := by
  obtain ⟨-, ⟨hperform, hnot⟩ | ⟨-, rfl⟩⟩ := step_cases hstep
  · exact ⟨hs.keeps hperform howned, fun hterminates => absurd hterminates hnot⟩
  · have hfreed := howned.freed_of_terminate
    exact ⟨keeps_of_held_none (hs.held_eq_none hfreed), fun _ => hfreed⟩

/-- A run in which the lists are owned is careful. -/
theorem careful_of_owned {ops : List DnsOp} (h : Along Dns.step Owned init ops) :
    StepsMeet Dns.step Careful init ops :=
  (along_iff_stepsMeet (fun _ hs => hs.owned)
    (fun _ _ _ hs hcareful hstep => hs.step hcareful hstep)
    (fun _ _ _ hs hstep howned => hs.careful hstep howned) inv_init).mp h

end Dns

/-- **Each list has one owner or has been freed once, in exactly those runs** in which no object
that has a list is assigned to, no coroutine is destroyed that waits for a list, and all
lists have been freed before `std::terminate`. -/
theorem results_owned (ops : List DnsOp) :
    Along Dns.step Dns.Owned .init ops ↔ StepsMeet Dns.step Dns.Careful .init ops := by
  refine ⟨Dns.careful_of_owned, fun h => ?_⟩
  have hinv : Along Dns.step Dns.Inv .init ops :=
    along_of_stepsMeet (fun _ _ _ hs hcareful hstep => hs.step hcareful hstep) Dns.inv_init h
  exact hinv.mono fun _ hs => hs.owned

/-- **A list is lost** by a move assignment to an object that has one, and by the end of a coroutine
before it resumes, be it after `getaddrinfo` has returned or before. A second `co_await` while
the first is in progress ends the process with the lists that there are. -/
theorem results_lost :
    ¬Along Dns.step Dns.Owned .init [.newResolver 0, .copy 0, .suspend 0, .getaddrinfo 0 0,
      .store 0, .finish 0, .resume 0 0, .newList 1, .moveAssign 0 1] ∧
    ¬Along Dns.step Dns.Owned .init [.newResolver 0, .copy 0, .suspend 0, .getaddrinfo 0 0,
      .store 0, .finish 0, .abandon 0] ∧
    ¬Along Dns.step Dns.Owned .init [.newResolver 0, .copy 0, .suspend 0, .abandon 0,
      .getaddrinfo 0 0, .store 0] ∧
    ¬Along Dns.step Dns.Owned .init [.newResolver 0, .copy 0, .suspend 0, .getaddrinfo 0 0,
      .suspend 0] := by
  refine ⟨fun h => ?_, fun h => ?_, fun h => ?_, fun h => ?_⟩
  · obtain ⟨hkeeps, -⟩ := ((((((((((Dns.careful_of_owned h) _ rfl).2 _ rfl).2 _ rfl).2 _ rfl).2 _
      rfl).2 _ rfl).2 _ rfl).2 _ rfl).2 _ rfl).1
    exact Or.elim hkeeps (by decide) (by decide)
  · obtain ⟨hkeeps, -⟩ := ((((((((Dns.careful_of_owned h) _ rfl).2 _ rfl).2 _ rfl).2 _ rfl).2 _
      rfl).2 _ rfl).2 _ rfl).1
    exact absurd (Option.eq_none_iff_forall_ne_some.mp hkeeps 0) (by decide)
  · obtain ⟨hkeeps, -⟩ := (((((((Dns.careful_of_owned h) _ rfl).2 _ rfl).2 _ rfl).2 _ rfl).2 _
      rfl).2 _ rfl).1
    exact Or.elim (hkeeps _ rfl) (by decide) (by decide)
  · obtain ⟨-, hfreed⟩ := ((((((Dns.careful_of_owned h) _ rfl).2 _ rfl).2 _ rfl).2 _ rfl).2 _
      rfl).1
    exact absurd (hfreed ⟨_, rfl, rfl⟩ 0 (by decide)) (by decide)

end Fiona
