import Mathlib.Data.List.Count
import Mathlib.Data.List.Nodup
import Mathlib.Logic.Function.Basic
import Fiona.Lib.Run

/-!
# The references of operations in flight

An operation holds a reference to its awaitable until it is over. The batch in `io_context::run`
adopts the reference of each completion and gives it up when the completion has been processed;
the completions that `run` leaves in the ring are drained by `guard::~guard`, which releases a
reference for each *different* awaitable that it finds, and knows nothing of what has been
released before.

Two things go wrong. When processing a completion exits by an exception, its reference is given up
in the unwinding, but the completion has not been counted yet: it stays in the ring for the drain,
always (`Fiona.batch_unaccounted`). And a drain does not ask whether a completion is the last one
of its operation: what it releases is released again by the next drain if there is more to come,
and that alone is what goes wrong over several drains (`Fiona.drains_release`).
-/

namespace Fiona

open Transition

variable {α : Type} [DecidableEq α]

/-- What the guard does about a completion, given the awaitables on its blacklist: the awaitable
of which it releases a reference, and the blacklist after it. -/
def sift (blacklist : List α) : Option α → Option α × List α
  | none => (none, blacklist)
  | some p => if p ∈ blacklist then (none, blacklist) else (some p, p :: blacklist)

/-- `intrusive_ptr_release`, as far as the counts go. -/
def intrusivePtrRelease (count : α → Int) (p : α) : α → Int := Function.update count p (count p - 1)

/-! ### One batch -/

/-- The reference counts, and which completions of the batch (from 0 on) had their references
released by `run` and by the drain. -/
structure Books (α : Type) where
  count : α → Int
  byRun : List Nat
  byDrain : List Nat

namespace Books

/-- `intrusive_ptr_release`. -/
def release (b : Books α) (p : α) : Books α := { b with count := intrusivePtrRelease b.count p }

end Books

/-- The loop over the completions from number `i` on: what processing a completion does to the
counts is up to `work`, and `exits` says whether an exception leaves it, thrown by
`await_process_cqe` or found in `exception_ptr_`. The result has the counter of the
`advance_guard`, and whether there was an exception. -/
def processBatch (work : Nat → (α → Int) → (α → Int)) (exits : Nat → Bool) :
    Nat → List (Option α) → Books α → Nat × Books α × Bool
  | i, [], b => (i, b, false)
  | i, none :: rest, b => processBatch work exits (i + 1) rest b
  | i, some p :: rest, b =>
    -- the adopted pointer is destroyed before the counter is incremented
    let b := { { b with count := work i b.count }.release p with byRun := b.byRun ++ [i] }
    if exits i then (i, b, true) else processBatch work exits (i + 1) rest b

/-- The loop of `guard::~guard` over what the ring holds, from completion number `j` on. -/
def drainRing : Nat → List α → List (Option α) → Books α → Books α
  | _, _, [], b => b
  | j, blacklist, c :: rest, b =>
    match sift blacklist c with
    | (some p, blacklist) =>
      drainRing (j + 1) blacklist rest { b.release p with byDrain := b.byDrain ++ [j] }
    | (none, blacklist) => drainRing (j + 1) blacklist rest b

/-- A batch is left by an exception: `io_uring_cq_advance`, then what the scopes in between
release (the reference of the `pipe_awaitable`, and those of what is destroyed with the tasks),
then the drain, which finds completions that have been posted meanwhile, too. -/
def leaveBatch (work : Nat → (α → Int) → (α → Int)) (exits : Nat → Bool) (between : List α)
    (late batch : List (Option α)) (count : α → Int) : Option (Nat × Books α) :=
  match processBatch work exits 0 batch ⟨count, [], []⟩ with
  | (n, b, true) => some (n, drainRing n [] (batch.drop n ++ late) (between.foldl Books.release b))
  | (_, _, false) => none

/-- **What is asked of the batch**: each completion has been processed, released by `run` and
advanced past, or it is left in the ring for the drain, and `run` has not released it. -/
def Accounted (batch : List (Option α)) (advanced : Nat) (b : Books α) : Prop :=
  ∀ j p, batch[j]? = some (some p) →
    (j ∈ b.byRun ∧ j < advanced ∧ j ∉ b.byDrain) ∨ (j ∉ b.byRun ∧ advanced ≤ j)

/-- The exception comes from a completion that is there; all before it have been released and
advanced past, and it has been released too. -/
theorem processBatch_exits {work : Nat → (α → Int) → (α → Int)} {exits : Nat → Bool}
    {batch : List (Option α)} {i n : Nat} {b b' : Books α}
    (hexits : processBatch work exits i batch b = (n, b', true)) :
    i ≤ n ∧ (∃ p, batch[n - i]? = some (some p)) ∧ n ∈ b'.byRun := by
  induction batch generalizing i b with
  | nil => simp [processBatch] at hexits
  | cons c batch ih =>
    have hnext : ∀ {b : Books α}, processBatch work exits (i + 1) batch b = (n, b', true) →
        i ≤ n ∧ (∃ p, (c :: batch)[n - i]? = some (some p)) ∧ n ∈ b'.byRun := by
      intro b hrest
      obtain ⟨hle, ⟨p, hp⟩, hmem⟩ := ih hrest
      refine ⟨by omega, ⟨p, ?_⟩, hmem⟩
      rw [show n - i = n - (i + 1) + 1 by omega, List.getElem?_cons_succ]
      exact hp
    cases c with
    | none => exact hnext hexits
    | some p =>
      rw [processBatch] at hexits
      split_ifs at hexits with hexit
      · obtain ⟨rfl, hrest⟩ := Prod.mk.inj hexits
        obtain ⟨hb, -⟩ := Prod.mk.inj hrest
        refine ⟨Nat.le_refl _, ⟨p, by simp⟩, ?_⟩
        rw [← hb]
        exact List.mem_append_right _ List.mem_cons_self
      · exact hnext hexits

theorem drainRing_keeps (j : Nat) (blacklist : List α) (ring : List (Option α)) (b : Books α) :
    (drainRing j blacklist ring b).byRun = b.byRun ∧
    ∀ k ∈ b.byDrain, k ∈ (drainRing j blacklist ring b).byDrain := by
  induction ring generalizing j blacklist b with
  | nil => exact ⟨rfl, fun _ => id⟩
  | cons c ring ih =>
    rw [drainRing]
    split
    · rename_i p blacklist' _
      obtain ⟨hrun, hdrain⟩ :=
        ih (j + 1) blacklist' { b.release p with byDrain := b.byDrain ++ [j] }
      exact ⟨hrun, fun k hk => hdrain k (List.mem_append_left _ hk)⟩
    · exact ih _ _ _

/-- The first completion that the drain finds is released, if it has an awaitable. -/
theorem mem_drainRing {n : Nat} {p : α} {ring : List (Option α)} (b : Books α) :
    n ∈ (drainRing n [] (some p :: ring) b).byDrain := by
  have hfirst : drainRing n [] (some p :: ring) b =
      drainRing (n + 1) [p] ring { b.release p with byDrain := b.byDrain ++ [n] } := rfl
  rw [hfirst]
  exact (drainRing_keeps ..).2 n (List.mem_append_right _ List.mem_cons_self)

theorem byRun_foldl_release (between : List α) (b : Books α) :
    (between.foldl Books.release b).byRun = b.byRun := by
  induction between generalizing b with
  | nil => rfl
  | cons p between ih => exact ih _

/-- **A batch that is left by an exception is never accounted for**: the completion from which the
exception came has been released by `run`, is still in the ring, and is released by the drain. -/
theorem batch_unaccounted (work : Nat → (α → Int) → (α → Int)) (exits : Nat → Bool)
    (between : List α) (late batch : List (Option α)) (count : α → Int) (n : Nat) (b : Books α)
    (hleave : leaveBatch work exits between late batch count = some (n, b)) :
    (∃ p, batch[n]? = some (some p)) ∧ n ∈ b.byRun ∧ n ∈ b.byDrain ∧ ¬Accounted batch n b := by
  unfold leaveBatch at hleave
  split at hleave
  · rename_i m b' hbatch
    obtain ⟨rfl, rfl⟩ := Prod.mk.inj (Option.some.inj hleave)
    obtain ⟨-, ⟨p, hp⟩, hrun⟩ := processBatch_exits hbatch
    rw [Nat.sub_zero] at hp
    -- the completion at which the batch was left is the first that the drain finds
    have hdrop : batch.drop m = some p :: batch.drop (m + 1) := by
      obtain ⟨hlt, hget⟩ := List.getElem?_eq_some_iff.mp hp
      rw [List.drop_eq_getElem_cons hlt, hget]
    have hrun' : m ∈ (drainRing m [] (batch.drop m ++ late)
        (between.foldl Books.release b')).byRun := by
      rw [(drainRing_keeps ..).1, byRun_foldl_release]
      exact hrun
    have hdrain : m ∈ (drainRing m [] (batch.drop m ++ late)
        (between.foldl Books.release b')).byDrain := by
      rw [hdrop]
      exact mem_drainRing _
    refine ⟨⟨p, hp⟩, hrun', hdrain, fun haccounted => ?_⟩
    rcases haccounted m p hp with ⟨-, -, hnot⟩ | ⟨hnot, -⟩
    · exact hnot hdrain
    · exact hnot hrun'
  · simp at hleave

/-- The pipe read of the loop (awaitable 0) is the only completion, and it has failed: `run`
releases its reference, the `pipe_awaitable` gives up its own, and the drain releases that of the
read again. -/
theorem batch_unaccounted_sample :
    ∃ b, leaveBatch (fun _ count => count) (fun i => i = 0) [0] [] [some 0] (fun _ => 2) =
        some (0, b) ∧
      b.count 0 = -1 ∧ 0 ∈ b.byRun ∧ 0 ∈ b.byDrain ∧ ¬Accounted [some 0] 0 b := by
  refine ⟨_, rfl, rfl, ?_⟩
  exact (batch_unaccounted (fun _ count => count) (fun i => i = 0) [0] [] [some 0]
    (fun _ => 2) 0 _ rfl).2

/-- **Not every batch is accounted for.** -/
theorem batch_accounted_fails :
    ¬∀ (work : Nat → (Nat → Int) → (Nat → Int)) (exits : Nat → Bool) (between : List Nat)
        (late batch : List (Option Nat)) (count : Nat → Int) (n : Nat) (b : Books Nat),
      leaveBatch work exits between late batch count = some (n, b) → Accounted batch n b := by
  intro hall
  have haccounted := hall (fun _ count => count) (fun i => i = 0) [0] [] [some 0]
    (fun _ => 2) 0 _ rfl
  rcases haccounted 0 0 rfl with ⟨-, hlt, -⟩ | ⟨hnot, -⟩
  · exact absurd hlt (by decide)
  · exact hnot List.mem_cons_self

/-! ### Several drains -/

/-- The operations of a ring while drains go over it: which have been started and which are still
in flight, what lies in the completion queue (with `IORING_CQE_F_MORE`), the blacklist of the
guard if one is draining, the operations whose references have been released, and the reference
counts. -/
structure Draining (ι α : Type) where
  started : List ι
  inFlight : List ι
  cq : List (ι × Bool)
  blacklist : Option (List α)
  released : List ι
  count : α → Int

/-- What happens to a ring that is drained. -/
inductive DrainOp (ι α : Type) where
  /-- An operation is submitted; it takes a reference to its awaitable. -/
  | start (o : ι)
  /-- The kernel posts a completion, with `IORING_CQE_F_MORE` or not. -/
  | post (o : ι) (more : Bool)
  /-- A user takes a reference, or gives one up (with the tasks, say). -/
  | hold (p : α)
  | letGo (p : α)
  /-- A guard begins to drain the ring. -/
  | drain
  /-- The guard takes the next completion. -/
  | next
  /-- The guard finds the ring empty. -/
  | finish

namespace Draining

variable {ι : Type} [DecidableEq ι]

def init : Draining ι α := ⟨[], [], [], none, [], fun _ => 0⟩

/-- The guard takes the completion `(o, more)` from the front of the ring: it does not look at
`more`. -/
def takeNext (data : ι → Option α) (s : Draining ι α) (o : ι) (rest : List (ι × Bool))
    (blacklist : List α) : Draining ι α :=
  match sift blacklist (data o) with
  | (some p, blacklist) =>
    { s with
      cq := rest
      blacklist := some blacklist
      released := s.released ++ [o]
      count := intrusivePtrRelease s.count p }
  | (none, blacklist) => { s with cq := rest, blacklist := some blacklist }

/-- One step, where `data` is the awaitable of an operation (none for a cancel request) and
`multishot` says which operations may have completions before the last one. -/
def step (data : ι → Option α) (multishot : ι → Bool) (s : Draining ι α) :
    DrainOp ι α → Option (Draining ι α)
  | .start o =>
    if o ∈ s.started then none
    else some { s with
      started := o :: s.started
      inFlight := o :: s.inFlight
      count := (data o).elim s.count fun p => Function.update s.count p (s.count p + 1) }
  | .post o more =>
    if o ∈ s.inFlight ∧ (more = true → multishot o = true) then
      some { s with
        inFlight := if more then s.inFlight else s.inFlight.filter (· ≠ o)
        cq := s.cq ++ [(o, more)] }
    else none
  | .hold p => some { s with count := Function.update s.count p (s.count p + 1) }
  | .letGo p => some { s with count := intrusivePtrRelease s.count p }
  | .drain => if s.blacklist = none then some { s with blacklist := some [] } else none
  | .next =>
    match s.blacklist, s.cq with
    | some blacklist, (o, _) :: rest => some (takeNext data s o rest blacklist)
    | _, _ => none
  | .finish => if s.blacklist ≠ none ∧ s.cq = [] then some { s with blacklist := none } else none

/-- **What is asked of the drains**: the reference of an operation is released at most once, and
not before its last completion. -/
def ReleasedOnce (s : Draining ι α) : Prop :=
  ∀ o, s.released.count o ≤ 1 ∧ (o ∈ s.released → o ∉ s.inFlight)

/-- The condition on a step: when a drain comes to the first completion that it finds of an
awaitable, the last completion of the operation has been posted. -/
def LastPosted (data : ι → Option α) (s : Draining ι α) : DrainOp ι α → Prop
  | .next => ∀ blacklist o more rest p, s.blacklist = some blacklist → s.cq = (o, more) :: rest →
      data o = some p → p ∉ blacklist → o ∉ s.inFlight
  | _ => True

/-- What a released operation still has in the ring is on the blacklist. -/
structure Drained (data : ι → Option α) (s : Draining ι α) : Prop where
  started : ∀ o ∈ s.inFlight, o ∈ s.started
  posted : ∀ c ∈ s.cq, c.1 ∈ s.started
  once : ∀ o, s.released.count o ≤ 1
  ended : ∀ o ∈ s.released, o ∈ s.started ∧ o ∉ s.inFlight
  listed : ∀ o ∈ s.released, ∀ more, (o, more) ∈ s.cq →
    ∃ blacklist p, s.blacklist = some blacklist ∧ data o = some p ∧ p ∈ blacklist

variable {data : ι → Option α} {multishot : ι → Bool} {s s' : Draining ι α}

omit [DecidableEq α] in
theorem drained_init : Drained data (init : Draining ι α) :=
  ⟨by simp [init], by simp [init], by simp [init], by simp [init], by simp [init]⟩

omit [DecidableEq α] in
/-- A completion starts no operation. -/
theorem mem_of_post {o x : ι} {more : Bool}
    (hx : x ∈ if more then s.inFlight else s.inFlight.filter (· ≠ o)) : x ∈ s.inFlight := by
  split at hx
  · exact hx
  · exact (List.mem_filter.mp hx).1

theorem step_next (hstep : Draining.step data multishot s .next = some s') :
    ∃ blacklist o more rest, s.blacklist = some blacklist ∧ s.cq = (o, more) :: rest ∧
      s' = takeNext data s o rest blacklist := by
  simp only [Draining.step] at hstep
  split at hstep
  · rename_i blacklist o more rest hlist hcq
    exact ⟨blacklist, o, more, rest, hlist, hcq, (Option.some.inj hstep).symm⟩
  · cases hstep

omit [DecidableEq ι] in
/-- What is taken from the ring is released, or it has no awaitable, or its awaitable is on the
blacklist. -/
theorem takeNext_cases (data : ι → Option α) (s : Draining ι α) (o : ι) (rest : List (ι × Bool))
    (blacklist : List α) :
    (∃ p, data o = some p ∧ p ∉ blacklist ∧ takeNext data s o rest blacklist =
      { s with
        cq := rest
        blacklist := some (p :: blacklist)
        released := s.released ++ [o]
        count := intrusivePtrRelease s.count p }) ∨
    ((∀ p, data o = some p → p ∈ blacklist) ∧
      takeNext data s o rest blacklist = { s with cq := rest, blacklist := some blacklist }) := by
  unfold takeNext sift
  rcases data o with - | p
  · exact .inr ⟨by simp, rfl⟩
  · by_cases hp : p ∈ blacklist
    · exact .inr ⟨by simpa using hp, by simp [hp]⟩
    · exact .inl ⟨p, rfl, hp, by simp [hp]⟩

theorem Drained.takeNext {o : ι} {more : Bool} {rest : List (ι × Bool)} {blacklist : List α}
    (hd : Drained data s) (hlist : s.blacklist = some blacklist) (hcq : s.cq = (o, more) :: rest)
    (hlast : ∀ p, data o = some p → p ∉ blacklist → o ∉ s.inFlight) :
    Drained data (takeNext data s o rest blacklist) := by
  have hrest : ∀ {c}, c ∈ rest → c ∈ s.cq := fun hc => hcq ▸ List.mem_cons_of_mem _ hc
  rcases takeNext_cases data s o rest blacklist with ⟨p, hp, hnot, heq⟩ | ⟨-, heq⟩
  -- had it been released by this drain, its awaitable would be on the blacklist
  · have hfresh : o ∉ s.released := by
      intro hrel
      obtain ⟨blacklist', p', hlist', hp', hmem⟩ := hd.listed o hrel more (hcq ▸ List.mem_cons_self)
      cases hlist.symm.trans hlist'
      cases hp.symm.trans hp'
      exact hnot hmem
    rw [heq]
    refine ⟨hd.started, fun c hc => hd.posted c (hrest hc), fun x => ?_, fun x hx => ?_,
      fun x hx more' hc => ?_⟩
    · rw [List.count_append, List.count_singleton]
      by_cases hxo : o = x
      · subst hxo
        simp [List.count_eq_zero_of_not_mem hfresh]
      · simpa [hxo] using hd.once x
    · rcases List.mem_append.mp hx with hx | hx
      · exact hd.ended x hx
      · cases List.mem_singleton.mp hx
        exact ⟨hd.posted (o, more) (hcq ▸ List.mem_cons_self), hlast p hp hnot⟩
    · rcases List.mem_append.mp hx with hx | hx
      · obtain ⟨blacklist', p', hlist', hp', hmem⟩ := hd.listed x hx more' (hrest hc)
        cases hlist.symm.trans hlist'
        exact ⟨_, p', rfl, hp', List.mem_cons_of_mem _ hmem⟩
      · cases List.mem_singleton.mp hx
        exact ⟨_, p, rfl, hp, List.mem_cons_self⟩
  · rw [heq]
    refine ⟨hd.started, fun c hc => hd.posted c (hrest hc), hd.once, hd.ended,
      fun x hx more' hc => ?_⟩
    obtain ⟨blacklist', p', hlist', hp', hmem⟩ := hd.listed x hx more' (hrest hc)
    cases hlist.symm.trans hlist'
    exact ⟨_, p', rfl, hp', hmem⟩

theorem Drained.step {a : DrainOp ι α} (hd : Drained data s) (hlast : LastPosted data s a)
    (hstep : Draining.step data multishot s a = some s') : Drained data s' := by
  cases a with
  | start o =>
    simp only [Draining.step, Option.ite_none_left_eq_some, Option.some.injEq] at hstep
    obtain ⟨hnew, rfl⟩ := hstep
    refine ⟨fun x hx => ?_, fun c hc => List.mem_cons_of_mem _ (hd.posted c hc), hd.once,
      fun x hx => ?_, hd.listed⟩
    · rcases List.mem_cons.mp hx with rfl | hx
      · exact List.mem_cons_self
      · exact List.mem_cons_of_mem _ (hd.started x hx)
    · obtain ⟨hstarted, hover⟩ := hd.ended x hx
      refine ⟨List.mem_cons_of_mem _ hstarted, fun hmem => ?_⟩
      rcases List.mem_cons.mp hmem with rfl | hmem
      · exact hnew hstarted
      · exact hover hmem
  | post o more =>
    simp only [Draining.step, Option.ite_none_right_eq_some, Option.some.injEq] at hstep
    obtain ⟨⟨hmem, -⟩, rfl⟩ := hstep
    refine ⟨fun x hx => hd.started x (mem_of_post hx), fun c hc => ?_, hd.once, fun x hx => ?_,
      fun x hx more' hc => ?_⟩
    · rcases List.mem_append.mp hc with hc | hc
      · exact hd.posted c hc
      · cases List.mem_singleton.mp hc
        exact hd.started o hmem
    · exact ⟨(hd.ended x hx).1, fun hx' => (hd.ended x hx).2 (mem_of_post hx')⟩
    · rcases List.mem_append.mp hc with hc | hc
      · exact hd.listed x hx more' hc
      · -- an operation that has been released posts nothing more
        cases List.mem_singleton.mp hc
        exact absurd hmem (hd.ended o hx).2
  | hold p =>
    cases hstep
    exact ⟨hd.started, hd.posted, hd.once, hd.ended, hd.listed⟩
  | letGo p =>
    cases hstep
    exact ⟨hd.started, hd.posted, hd.once, hd.ended, hd.listed⟩
  | drain =>
    simp only [Draining.step, Option.ite_none_right_eq_some, Option.some.injEq] at hstep
    obtain ⟨hnone, rfl⟩ := hstep
    refine ⟨hd.started, hd.posted, hd.once, hd.ended, fun x hx more hc => ?_⟩
    -- between two drains nothing of a released operation is in the ring
    obtain ⟨blacklist, -, hsome, -⟩ := hd.listed x hx more hc
    simp [hnone] at hsome
  | next =>
    obtain ⟨blacklist, o, more, rest, hlist, hcq, rfl⟩ := step_next hstep
    exact hd.takeNext hlist hcq fun p hp hnot => hlast _ _ _ _ _ hlist hcq hp hnot
  | finish =>
    simp only [Draining.step, Option.ite_none_right_eq_some, Option.some.injEq] at hstep
    obtain ⟨⟨-, hempty⟩, rfl⟩ := hstep
    refine ⟨hd.started, hd.posted, hd.once, hd.ended, fun x hx more hc => ?_⟩
    simp [hempty] at hc

omit [DecidableEq α] in
theorem Drained.releasedOnce (hd : Drained data s) : ReleasedOnce s :=
  fun o => ⟨hd.once o, fun ho => (hd.ended o ho).2⟩

/-- A reference that has been released before the last completion shows. -/
theorem lastPosted_of_releasedOnce {a : DrainOp ι α}
    (hstep : Draining.step data multishot s a = some s') (hs' : ReleasedOnce s') :
    LastPosted data s a := by
  cases a with
  | next =>
    intro blacklist o more rest p hlist hcq hp hnot
    simp only [Draining.step, hlist, hcq, Option.some.injEq] at hstep
    rcases takeNext_cases data s o rest blacklist with ⟨q, -, -, heq⟩ | ⟨hin, -⟩
    · rw [heq] at hstep
      subst hstep
      exact (hs' o).2 (List.mem_append_right _ List.mem_cons_self)
    · exact absurd (hin p hp) hnot
  | _ => trivial

/-- A single-shot operation is over with its first completion. -/
def SingleShots (multishot : ι → Bool) (s : Draining ι α) : Prop :=
  (∀ o ∈ s.inFlight, o ∈ s.started) ∧
    ∀ c ∈ s.cq, c.1 ∈ s.started ∧ (multishot c.1 = false → c.1 ∉ s.inFlight)

theorem SingleShots.step {a : DrainOp ι α} (hs : SingleShots multishot s)
    (hstep : Draining.step data multishot s a = some s') : SingleShots multishot s' := by
  obtain ⟨hflight, hcq⟩ := hs
  cases a with
  | start o =>
    simp only [Draining.step, Option.ite_none_left_eq_some, Option.some.injEq] at hstep
    obtain ⟨hnew, rfl⟩ := hstep
    refine ⟨fun x hx => ?_, fun c hc => ⟨List.mem_cons_of_mem _ (hcq c hc).1, fun hc' hmem => ?_⟩⟩
    · rcases List.mem_cons.mp hx with rfl | hx
      · exact List.mem_cons_self
      · exact List.mem_cons_of_mem _ (hflight x hx)
    · rcases List.mem_cons.mp hmem with heq | hmem
      · exact hnew (heq ▸ (hcq c hc).1)
      · exact (hcq c hc).2 hc' hmem
  | post o more =>
    simp only [Draining.step, Option.ite_none_right_eq_some, Option.some.injEq] at hstep
    obtain ⟨⟨hmem, hmulti⟩, rfl⟩ := hstep
    refine ⟨fun x hx => hflight x (mem_of_post hx), fun c hc => ?_⟩
    rcases List.mem_append.mp hc with hc | hc
    · exact ⟨(hcq c hc).1, fun hc' hx => (hcq c hc).2 hc' (mem_of_post hx)⟩
    · cases List.mem_singleton.mp hc
      refine ⟨hflight o hmem, fun hsingle => ?_⟩
      cases more with
      | true => exact absurd (hmulti rfl) (by simp [hsingle])
      | false => simp
  | next =>
    obtain ⟨blacklist, o, more, rest, -, hcq', rfl⟩ := step_next hstep
    have hrest : ∀ c ∈ rest, c.1 ∈ s.started ∧ (multishot c.1 = false → c.1 ∉ s.inFlight) :=
      fun c hc => hcq c (hcq' ▸ List.mem_cons_of_mem _ hc)
    rcases takeNext_cases data s o rest blacklist with ⟨p, -, -, heq⟩ | ⟨-, heq⟩
    · rw [heq]
      exact ⟨hflight, hrest⟩
    · rw [heq]
      exact ⟨hflight, hrest⟩
  | hold p =>
    cases hstep
    exact ⟨hflight, hcq⟩
  | letGo p =>
    cases hstep
    exact ⟨hflight, hcq⟩
  | drain =>
    simp only [Draining.step, Option.ite_none_right_eq_some, Option.some.injEq] at hstep
    obtain ⟨-, rfl⟩ := hstep
    exact ⟨hflight, hcq⟩
  | finish =>
    simp only [Draining.step, Option.ite_none_right_eq_some, Option.some.injEq] at hstep
    obtain ⟨-, rfl⟩ := hstep
    exact ⟨hflight, hcq⟩

/-- Single-shot operations are always released once. -/
theorem releasedOnce_of_singleShot (hsingle : ∀ o, multishot o = false) {as : List (DrainOp ι α)}
    {t : Draining ι α} (hrun : run (Draining.step data multishot) init as = some t) :
    ReleasedOnce t := by
  suffices hinv : Drained data t ∧ SingleShots multishot t from hinv.1.releasedOnce
  have hinit : Drained data (init : Draining ι α) ∧ SingleShots multishot (init : Draining ι α) :=
    ⟨drained_init, by simp [init], by simp [init]⟩
  refine run_invariant (I := fun s => Drained data s ∧ SingleShots multishot s)
    (fun s a s' hinv hstep => ?_) hinit hrun
  obtain ⟨hd, hs⟩ := hinv
  refine ⟨hd.step ?_ hstep, hs.step hstep⟩
  cases a with
  | next =>
    intro blacklist o more rest p hlist hcq hp hnot
    exact (hs.2 (o, more) (hcq ▸ List.mem_cons_self)).2 (hsingle o)
  | _ => trivial

end Draining

open Draining in
/-- **The drains release each operation once exactly when nothing is released too early**: a run
passes through good states only if and only if, whenever a drain releases a reference, the last
completion of its operation has been posted. -/
theorem drains_release {ι : Type} [DecidableEq ι] (data : ι → Option α) (multishot : ι → Bool)
    (as : List (DrainOp ι α)) :
    Along (Draining.step data multishot) ReleasedOnce init as ↔
      StepsMeet (Draining.step data multishot) (LastPosted data) init as :=
  along_iff_stepsMeet (fun _ hd => hd.releasedOnce) (fun _ _ _ hd hC hstep => hd.step hC hstep)
    (fun _ _ _ _ hstep hs' => lastPosted_of_releasedOnce hstep hs') drained_init

open Draining in
/-- The timer of a stream that the user still holds: a tick is drained at the end of `run`, the
timer goes on, and its last completion is drained with the context. -/
theorem drains_release_fails :
    ¬∀ as t, run (Draining.step (fun _ : Nat => some 0) fun _ => true)
      (init : Draining Nat Nat) as = some t → ReleasedOnce t := by
  intro hall
  have htwice := hall [.hold 0, .start 0, .post 0 true, .drain, .next, .finish, .post 0 false,
    .drain, .next] _ rfl 0
  exact absurd htwice.1 (by decide)

end Fiona
