import Fiona.Lib.Run
import Mathlib.Tactic.Common

/-!
# A queue in which room is reserved

Entries are put into a queue of fixed size, which is submitted as a whole and is empty then. Who
wants to put several of them reserves room first: if there is less, the queue is submitted
(`Reserving.Action.reserve`). What is put afterwards is put without a look at the room that is left.

An entry may be *linked* to the one behind it. Linked entries form a chain, and a chain
that is cut by a submission is no longer one: the two parts are seen as two chains.

Two conditions on a program, which do not look at any queue, say that it is safe. It is
*covered* if it never puts more than it has reserved (`Reserving.covered`), and then it runs on
every queue that is as large as the largest reservation (`Reserving.exists_run_of_covered`). It
is *unbroken* if nothing that may submit stands inside of a chain (`Reserving.unbroken`), and then
the chains that are seen are the chains that were put (`Reserving.seen_of_run`).
-/

namespace Reserving

open Transition

variable {ε : Type*}

/-! ### Chains -/

/-- The chains of a list of entries. -/
def chains (linked : ε → Bool) : List ε → List (List ε)
  | [] => []
  | e :: es =>
    if linked e then
      match chains linked es with
      | [] => [[e]]
      | c :: cs => (e :: c) :: cs
    else [e] :: chains linked es

/-- The last entry is not linked to one that would come behind it. -/
def Closed (linked : ε → Bool) (es : List ε) : Prop := ∀ e, es.getLast? = some e → linked e = false

variable {linked : ε → Bool} {xs ys : List ε} {e : ε}

theorem closed_nil : Closed linked [] := by simp [Closed]

theorem closed_concat : Closed linked (xs ++ [e]) ↔ linked e = false := by
  simp [Closed, List.getLast?_append]

theorem Closed.append (hxs : Closed linked xs) (hys : Closed linked ys) :
    Closed linked (xs ++ ys) := by
  intro e he
  rw [List.getLast?_append] at he
  cases hlast : ys.getLast? with
  | none => exact hxs e (by simpa [hlast] using he)
  | some e' =>
    obtain rfl : e' = e := by simpa [hlast] using he
    exact hys e' hlast

theorem closed_flatten {ls : List (List ε)} (h : ∀ l ∈ ls, Closed linked l) :
    Closed linked ls.flatten := by
  induction ls with
  | nil => exact closed_nil
  | cons l ls ih =>
    rw [List.flatten_cons]
    exact (h l List.mem_cons_self).append (ih fun l' hl' => h l' (List.mem_cons_of_mem _ hl'))

theorem chains_ne_nil (hxs : xs ≠ []) : chains linked xs ≠ [] := by
  cases xs with
  | nil => exact absurd rfl hxs
  | cons e es =>
    rw [chains]
    split_ifs
    · split <;> simp
    · simp

/-- **No chain goes on** beyond the end of a closed list. -/
theorem chains_append (hxs : Closed linked xs) :
    chains linked (xs ++ ys) = chains linked xs ++ chains linked ys := by
  induction xs with
  | nil => rfl
  | cons e es ih =>
    rcases eq_or_ne es [] with rfl | hne
    · have hlink : linked e = false := hxs e rfl
      simp [chains, hlink]
    · have hes : Closed linked es := by
        intro e' he'
        refine hxs e' ?_
        rwa [List.getLast?_cons_of_ne_nil hne]
      rw [List.cons_append, chains, chains, ih hes]
      split_ifs
      · have hsome : chains linked es ≠ [] := chains_ne_nil hne
        obtain ⟨c, cs, hchains⟩ := List.exists_cons_of_ne_nil hsome
        rw [hchains]
        rfl
      · rfl

theorem flatMap_chains {ls : List (List ε)} (h : ∀ l ∈ ls, Closed linked l) :
    ls.flatMap (chains linked) = chains linked ls.flatten := by
  induction ls with
  | nil => rfl
  | cons l ls ih =>
    rw [List.flatMap_cons, List.flatten_cons, chains_append (h l List.mem_cons_self),
      ih fun l' hl' => h l' (List.mem_cons_of_mem _ hl')]

/-! ### The queue -/

/-- What was put into the queue, and what has been submitted from it, in the batches it was
submitted in. -/
structure Queue (ε : Type*) where
  pending : List ε
  submitted : List (List ε)
  deriving DecidableEq, Repr

inductive Action (ε : Type*)
  /-- The queue is submitted unless it has room for so many. -/
  | reserve (n : Nat)
  /-- An entry is put, in the belief that there is room. -/
  | put (e : ε)
  /-- An entry is put, after a submission if there is no room. -/
  | putOrSubmit (e : ε)
  | submit
  deriving DecidableEq, Repr

namespace Queue

def empty : Queue ε := ⟨[], []⟩

variable (size : Nat) (q : Queue ε)

/-- A submission empties the queue. -/
def submit : Queue ε := ⟨[], q.submitted ++ [q.pending]⟩

/-- An entry is put, if there is room. -/
def put (e : ε) : Option (Queue ε) :=
  if q.pending.length < size then some { q with pending := q.pending ++ [e] } else none

/-- An action; `none` is an entry put where there is no room. -/
def perform : Action ε → Option (Queue ε)
  | .reserve n => some (if size - q.pending.length < n then q.submit else q)
  | .put e => q.put size e
  | .putOrSubmit e => if q.pending.length < size then q.put size e else q.submit.put size e
  | .submit => some q.submit

/-- All entries, in the order they were put in. -/
def stream : List ε := q.submitted.flatten ++ q.pending

/-- The chains that are seen, each batch being looked at for itself. -/
def seen (linked : ε → Bool) : List (List ε) :=
  (q.submitted ++ [q.pending]).flatMap (chains linked)

end Queue

variable {size : Nat} {q q' : Queue ε} {prog : List (Action ε)}

theorem stream_submit (q : Queue ε) : q.submit.stream = q.stream := by
  simp [Queue.submit, Queue.stream]

theorem put_eq_some (h : q.put size e = some q') :
    q.pending.length < size ∧ q' = ⟨q.pending ++ [e], q.submitted⟩ := by
  obtain ⟨hlt, heq⟩ := Option.ite_none_right_eq_some.mp h
  exact ⟨hlt, (Option.some.inj heq).symm⟩

theorem stream_of_put (h : q.put size e = some q') : q'.stream = q.stream ++ [e] := by
  obtain ⟨-, rfl⟩ := put_eq_some h
  simp [Queue.stream]

/-- A queue is never longer than its size. -/
theorem length_of_perform {a : Action ε} (hq : q.pending.length ≤ size)
    (ha : q.perform size a = some q') : q'.pending.length ≤ size := by
  have hput : ∀ {q : Queue ε} {e : ε}, q.put size e = some q' → q'.pending.length ≤ size := by
    intro q e h
    obtain ⟨hlt, rfl⟩ := put_eq_some h
    rw [List.length_append, List.length_singleton]
    exact hlt
  cases a with
  | reserve n =>
    obtain rfl := Option.some.inj ha
    split_ifs
    · exact Nat.zero_le _
    · exact hq
  | put e => exact hput ha
  | putOrSubmit e =>
    rw [Queue.perform] at ha
    split_ifs at ha
    · exact hput ha
    · exact hput ha
  | submit =>
    obtain rfl := Option.some.inj ha
    exact Nat.zero_le _

/-! ### Programs that reserve what they put -/

/-- The program puts no more than it has reserved, with room for `c` entries at first. -/
def covered : Nat → List (Action ε) → Bool
  | _, [] => true
  | c, .reserve n :: as => covered (max c n) as
  | 0, .put _ :: _ => false
  | c + 1, .put _ :: as => covered c as
  | c, .putOrSubmit _ :: as => covered (c - 1) as
  | c, .submit :: as => covered c as

/-- **A covered program runs** on a queue that is as large as the largest reservation. -/
theorem exists_run_of_covered {c : Nat} (hcovered : covered c prog = true) (hsize : 0 < size)
    (hdemand : ∀ n, .reserve n ∈ prog → n ≤ size) (hroom : q.pending.length + c ≤ size) :
    ∃ q', run (Queue.perform size) q prog = some q' := by
  induction prog generalizing c q with
  | nil => exact ⟨q, rfl⟩
  | cons a as ih =>
    have hrest : ∀ n, Action.reserve n ∈ as → n ≤ size := fun n hn =>
      hdemand n (List.mem_cons_of_mem _ hn)
    cases a with
    | reserve n =>
      have hn := hdemand n List.mem_cons_self
      rw [run_cons, Queue.perform, Option.bind_some]
      refine ih (c := max c n) (by simpa [covered] using hcovered) hrest ?_
      split_ifs
      · simp only [Queue.submit, List.length_nil]
        omega
      · omega
    | put e =>
      cases c with
      | zero => exact absurd hcovered (by simp [covered])
      | succ c =>
        have hlt : q.pending.length < size := by omega
        rw [run_cons, Queue.perform, Queue.put, if_pos hlt, Option.bind_some]
        refine ih (c := c) (by simpa [covered] using hcovered) hrest ?_
        simp only [List.length_append, List.length_singleton]
        omega
    | putOrSubmit e =>
      rw [run_cons, Queue.perform]
      have hcovered' : covered (c - 1) as = true := by
        cases c <;> simpa [covered] using hcovered
      split_ifs with hlt
      · rw [Queue.put, if_pos hlt, Option.bind_some]
        refine ih hcovered' hrest ?_
        simp only [List.length_append, List.length_singleton]
        omega
      · rw [Queue.put, if_pos (by simpa [Queue.submit] using hsize), Option.bind_some]
        refine ih hcovered' hrest ?_
        simp only [Queue.submit, List.nil_append, List.length_singleton]
        omega
    | submit =>
      rw [run_cons, Queue.perform, Option.bind_some]
      refine ih (c := c) (by cases c <;> simpa [covered] using hcovered) hrest ?_
      simp only [Queue.submit, List.length_nil]
      omega

/-! ### Programs that do not cut their chains -/

/-- The entries that a program puts. -/
def entries : List (Action ε) → List ε
  | [] => []
  | .put e :: as | .putOrSubmit e :: as => e :: entries as
  | .reserve _ :: as | .submit :: as => entries as

/-- Nothing that may submit stands inside of a chain, and no chain is left open; `inside` says
whether the entry before the program is linked to it. -/
def unbroken (linked : ε → Bool) : Bool → List (Action ε) → Bool
  | inside, [] => !inside
  | _, .put e :: as => unbroken linked (linked e) as
  | inside, .putOrSubmit e :: as => !inside && unbroken linked (linked e) as
  | inside, .reserve _ :: as | inside, .submit :: as => !inside && unbroken linked false as

/-- Whatever a program does, it puts its entries in order. -/
theorem stream_of_run (hrun : run (Queue.perform size) q prog = some q') :
    q'.stream = q.stream ++ entries prog := by
  induction prog generalizing q with
  | nil =>
    cases hrun
    simp [entries]
  | cons a as ih =>
    obtain ⟨q₁, h1, h2⟩ := run_cons_eq_some.mp hrun
    rw [ih h2]
    cases a with
    | reserve n =>
      obtain rfl := Option.some.inj h1
      split_ifs
      · rw [stream_submit, entries]
      · rw [entries]
    | put e => rw [stream_of_put h1, entries, List.append_assoc, List.singleton_append]
    | putOrSubmit e =>
      rw [Queue.perform] at h1
      split_ifs at h1
      · rw [stream_of_put h1, entries, List.append_assoc, List.singleton_append]
      · rw [stream_of_put h1, stream_submit, entries, List.append_assoc, List.singleton_append]
    | submit =>
      obtain rfl := Option.some.inj h1
      rw [stream_submit, entries]

/-- No chain has been cut, and none is open. -/
def Whole (linked : ε → Bool) (q : Queue ε) : Prop :=
  (∀ b ∈ q.submitted, Closed linked b) ∧ Closed linked q.pending

theorem whole_empty : Whole linked (Queue.empty : Queue ε) := ⟨by simp [Queue.empty], closed_nil⟩

theorem Whole.submit (h : Whole linked q) : Whole linked q.submit := by
  refine ⟨fun b hb => ?_, closed_nil⟩
  rcases List.mem_append.mp hb with hold | hnew
  · exact h.1 b hold
  · exact List.mem_singleton.mp hnew ▸ h.2

/-- The chains that are seen are those of all entries, if none was cut. -/
theorem Whole.seen_eq (h : Whole linked q) : q.seen linked = chains linked q.stream := by
  rw [Queue.seen, flatMap_chains]
  · simp [Queue.stream]
  · intro b hb
    rcases List.mem_append.mp hb with hold | hnew
    · exact h.1 b hold
    · exact List.mem_singleton.mp hnew ▸ h.2

theorem Whole.closed_stream (h : Whole linked q) : Closed linked q.stream :=
  (closed_flatten h.1).append h.2

/-- **An unbroken program cuts no chain.** -/
theorem whole_of_run {inside : Bool} (hunbroken : unbroken linked inside prog = true)
    (hsubmitted : ∀ b ∈ q.submitted, Closed linked b)
    (hinside : inside = false → Closed linked q.pending)
    (hrun : run (Queue.perform size) q prog = some q') : Whole linked q' := by
  induction prog generalizing q inside with
  | nil =>
    cases hrun
    exact ⟨hsubmitted, hinside (by simpa [unbroken] using hunbroken)⟩
  | cons a as ih =>
    obtain ⟨q₁, h1, h2⟩ := run_cons_eq_some.mp hrun
    cases a with
    | put e =>
      obtain ⟨-, rfl⟩ := put_eq_some h1
      exact ih (q := ⟨q.pending ++ [e], q.submitted⟩) (by simpa [unbroken] using hunbroken)
        hsubmitted (fun hlink => closed_concat.mpr hlink) h2
    | reserve n =>
      simp only [unbroken, Bool.and_eq_true, Bool.not_eq_true'] at hunbroken
      have hq : Whole linked q := ⟨hsubmitted, hinside hunbroken.1⟩
      obtain rfl := Option.some.inj h1
      split_ifs at h2
      · exact ih hunbroken.2 hq.submit.1 (fun _ => hq.submit.2) h2
      · exact ih hunbroken.2 hq.1 (fun _ => hq.2) h2
    | putOrSubmit e =>
      simp only [unbroken, Bool.and_eq_true, Bool.not_eq_true'] at hunbroken
      have hq : Whole linked q := ⟨hsubmitted, hinside hunbroken.1⟩
      rw [Queue.perform] at h1
      split_ifs at h1
      · obtain ⟨-, rfl⟩ := put_eq_some h1
        exact ih (q := ⟨q.pending ++ [e], q.submitted⟩) hunbroken.2 hq.1
          (fun hlink => closed_concat.mpr hlink) h2
      · obtain ⟨-, rfl⟩ := put_eq_some h1
        exact ih (q := ⟨q.submit.pending ++ [e], q.submit.submitted⟩) hunbroken.2 hq.submit.1
          (fun hlink => closed_concat.mpr hlink) h2
    | submit =>
      simp only [unbroken, Bool.and_eq_true, Bool.not_eq_true'] at hunbroken
      have hq : Whole linked q := ⟨hsubmitted, hinside hunbroken.1⟩
      obtain rfl := Option.some.inj h1
      exact ih hunbroken.2 hq.submit.1 (fun _ => hq.submit.2) h2

/-- **The chains that are seen** after an unbroken program are those seen before it, and its
own. -/
theorem seen_of_run (hunbroken : unbroken linked false prog = true) (hq : Whole linked q)
    (hrun : run (Queue.perform size) q prog = some q') :
    Whole linked q' ∧ q'.seen linked = q.seen linked ++ chains linked (entries prog) := by
  have hq' : Whole linked q' := whole_of_run hunbroken hq.1 (fun _ => hq.2) hrun
  refine ⟨hq', ?_⟩
  rw [hq'.seen_eq, hq.seen_eq, stream_of_run hrun, chains_append hq.closed_stream]

end Reserving
