import Fiona.Lib.Run
import Mathlib.Data.List.Count
import Mathlib.Logic.Function.Basic

/-!
# Objects whose operations share frames

An object offers *calls*. A call makes a *ticket*; a thread that awaits the ticket starts the
operation of the call, or is refused, or goes on at once. What the operation needs lies in the
*frames* of the object, of which there is one for each kind of request, whatever the number of
tickets: the thread to be woken, whether a request is out, and also the arguments of the call,
which are stored there when the ticket is made. The operation reads some arguments when it starts,
and others only when its requests are submitted.

So a ticket can be in the way of another. This module is the machine; what can be asked of it is
asked in `Fiona.Lib.Cancelling` (a ticket that is destroyed cancels its own operation only), in
`Fiona.Lib.Arguments` (an operation runs with its own arguments) and in `Fiona.Lib.Parking` (no
thread is forgotten).
-/

namespace Shared

variable {σ μ ι θ α ρ ω χ β : Type}

/-- What awaiting comes to: it is refused and nothing changes, or the thread goes on at once, or
it waits, and requests of the frames `q` are queued. -/
inductive Outcome (σ ι : Type) where
  | refuses
  | goesOn (o : σ)
  | suspends (o : σ) (q : List ι)

/-- An object with frames `ι`. Its state is in two parts: `σ` has all that decides what happens,
and `μ` the arguments that lie in the frames. -/
structure Object (σ μ ι θ α ρ ω χ β : Type) where
  /-- The frame whose completion wakes the thread. -/
  main : α → ι
  /-- A frame may belong to the operation of another. -/
  kind : ι → ι
  /-- What the kernel is to be asked for. -/
  asked : α → ρ
  /-- The arguments are stored when the call is made. -/
  store : μ → α → μ
  /-- What is written to the requests when the operation starts. -/
  capture : μ → α → ρ
  /-- What the kernel reads when a request is submitted: some of what was written are addresses. -/
  deref : μ → ρ → ρ
  /-- The arguments are reset when the thread goes on. -/
  clear : μ → ι → μ
  await : σ → α → θ → ω → Outcome σ ι
  /-- A completion, with the thread it wakes. -/
  process : σ → ι → χ → Option (σ × Option θ)
  /-- The request goes on after this completion. -/
  more : χ → Bool
  /-- The kernel can post this. -/
  posts : ι → χ → Bool
  resume : σ → ι → σ
  /-- The frames that the destructor of a ticket looks at. -/
  drops : ι → List ι
  /-- The frame has a request that is to be cancelled. -/
  active : σ → ι → Bool
  /-- Anything else. -/
  other : σ → β → Option σ
  /-- The thread that a frame has stored. -/
  stored : σ → ι → Option θ
  /-- Awaiting will store the thread, or reset what is stored. -/
  takes : σ → α → ω → Bool
  /-- A completion wakes the thread that is stored. -/
  gives : σ → ι → χ → Bool
  /-- Going on resets what is stored. -/
  resets : ι → Bool

inductive Ticket (α : Type) where
  | unused
  | live (x : α)
  | gone

/-- A thread that waits, the ticket it awaits, and its kind. -/
structure Waiter (θ ι : Type) where
  thread : θ
  ticket : Nat
  kind : ι

/-- A request, queued or submitted, with the ticket and the call that it is for. -/
structure Request (ι α ρ : Type) where
  frame : ι
  ticket : Nat
  call : α
  args : ρ
  submitted : Bool

structure State (σ μ ι θ α ρ : Type) where
  obj : σ
  mem : μ
  tickets : Nat → Ticket α
  waiting : List (Waiter θ ι)
  requests : List (Request ι α ρ)
  /-- The threads that have been woken and have not gone on yet. -/
  collected : List θ
  /-- The calls with what the kernel was asked for. -/
  carried : List (α × ρ)
  /-- The tickets that cancelled a request, with the ticket that it was for. -/
  cancelled : List (Nat × Nat)

inductive Op (ι θ α ω χ β : Type) where
  | create (a : Nat) (x : α)
  | await (a : Nat) (h : θ) (w : ω)
  | submit
  | complete (i : ι) (a : Nat) (c : χ)
  | resume (h : θ)
  | destroy (a : Nat)
  | other (b : β)

namespace State

variable (s : State σ μ ι θ α ρ)

def init (o : σ) (m : μ) : State σ μ ι θ α ρ := ⟨o, m, fun _ => .unused, [], [], [], [], []⟩

/-- The number of requests of a frame. -/
def outstanding [DecidableEq ι] (i : ι) : Nat := (s.requests.map Request.frame).count i

/-- Where a thread waits. -/
def waiter [DecidableEq θ] (h : θ) : Option (Waiter θ ι) := s.waiting.find? fun w => w.thread = h

variable {s} [DecidableEq θ] {h : θ} {w : Waiter θ ι}

theorem mem_of_waiter (hw : s.waiter h = some w) : w ∈ s.waiting := List.mem_of_find?_eq_some hw

theorem thread_of_waiter (hw : s.waiter h = some w) : w.thread = h := by
  simpa using List.find?_some hw

end State

namespace Object

variable [DecidableEq ι] [DecidableEq θ] (O : Object σ μ ι θ α ρ ω χ β) (s : State σ μ ι θ α ρ)

/-- The ticket `a` of the call `x` is awaited by the thread `h`. -/
def awaited (a : Nat) (x : α) (h : θ) : Outcome σ ι → State σ μ ι θ α ρ
  | .refuses => s
  | .goesOn o => { s with obj := o, mem := O.clear s.mem (O.main x) }
  | .suspends o q =>
    { s with
      obj := o
      waiting := ⟨h, a, O.main x⟩ :: s.waiting
      requests := s.requests ++ q.map fun i => ⟨i, a, x, O.capture s.mem x, false⟩ }

/-- The ring is submitted. -/
def submitted : State σ μ ι θ α ρ :=
  { s with
    requests := s.requests.map fun r =>
      if r.submitted then r else { r with args := O.deref s.mem r.args, submitted := true }
    carried := s.carried ++
      (s.requests.filter fun r => !r.submitted).map fun r => (r.call, O.deref s.mem r.args) }

/-- The request that a completion is for. -/
def answers (i : ι) (a : Nat) (r : Request ι α ρ) : Bool :=
  decide (r.frame = i) && decide (r.ticket = a) && r.submitted

/-- A completion of a request of frame `i` is processed. -/
def completed (i : ι) (a : Nat) (c : χ) (o : σ) (found : Option θ) : State σ μ ι θ α ρ :=
  { s with
    obj := o
    requests := if O.more c then s.requests else s.requests.eraseP (answers i a)
    collected := s.collected ++ found.toList }

/-- A thread goes on. -/
def resumed (w : Waiter θ ι) : State σ μ ι θ α ρ :=
  { s with
    obj := O.resume s.obj w.kind
    mem := O.clear s.mem w.kind
    waiting := s.waiting.filter fun v => v.thread ≠ w.thread
    collected := s.collected.erase w.thread }

/-- The requests that the destructor of a ticket of this kind cancels. -/
def hits (k : ι) : List (Request ι α ρ) :=
  s.requests.filter fun r => decide (r.frame ∈ O.drops k) && O.active s.obj r.frame

/-- A ticket is destroyed. -/
def destroyed (a : Nat) (x : α) : State σ μ ι θ α ρ :=
  { s with
    tickets := Function.update s.tickets a .gone
    cancelled := s.cancelled ++ (O.hits s (O.main x)).map fun r => (a, r.ticket) }

/-- One step. A ticket is awaited by one thread at a time, and a thread waits in one place. -/
def step : Op ι θ α ω χ β → Option (State σ μ ι θ α ρ)
  | .create a x =>
    match s.tickets a with
    | .unused =>
      some { s with mem := O.store s.mem x, tickets := Function.update s.tickets a (.live x) }
    | _ => none
  | .await a h w =>
    match s.tickets a with
    | .live x =>
      if h ∉ s.waiting.map Waiter.thread ∧ a ∉ s.waiting.map Waiter.ticket then
        some (O.awaited s a x h (O.await s.obj x h w))
      else none
    | _ => none
  | .submit => some (O.submitted s)
  | .complete i a c =>
    if s.requests.any (answers i a) ∧ O.posts i c then
      (O.process s.obj i c).map fun r => O.completed s i a c r.1 r.2
    else none
  | .resume h =>
    match s.waiter h with
    | some w => if h ∈ s.collected then some (O.resumed s w) else none
    | none => none
  | .destroy a =>
    match s.tickets a with
    | .live x => if a ∉ s.waiting.map Waiter.ticket then some (O.destroyed s a x) else none
    | _ => none
  | .other b => (O.other s.obj b).map fun o => { s with obj := o }

variable {O s} {s' : State σ μ ι θ α ρ}

/-! ### What a step does -/

theorem step_create {a : Nat} {x : α} (hstep : O.step s (.create a x) = some s') :
    s.tickets a = .unused ∧
      s' = { s with mem := O.store s.mem x, tickets := Function.update s.tickets a (.live x) } := by
  rw [step] at hstep
  split at hstep
  · exact ⟨by assumption, (Option.some.inj hstep).symm⟩
  · cases hstep

theorem step_await {a : Nat} {h : θ} {w : ω} (hstep : O.step s (.await a h w) = some s') :
    ∃ x, s.tickets a = .live x ∧ h ∉ s.waiting.map Waiter.thread ∧ a ∉ s.waiting.map Waiter.ticket ∧
      s' = O.awaited s a x h (O.await s.obj x h w) := by
  rw [step] at hstep
  split at hstep
  · rename_i x hx
    split_ifs at hstep with hfree
    exact ⟨x, hx, hfree.1, hfree.2, (Option.some.inj hstep).symm⟩
  · cases hstep

theorem step_complete {i : ι} {a : Nat} {c : χ} (hstep : O.step s (.complete i a c) = some s') :
    ∃ o found, s.requests.any (answers i a) = true ∧ O.posts i c = true ∧
      O.process s.obj i c = some (o, found) ∧ s' = O.completed s i a c o found := by
  rw [step] at hstep
  split_ifs at hstep with hposts
  obtain ⟨⟨o, found⟩, hprocess, rfl⟩ := Option.map_eq_some_iff.mp hstep
  exact ⟨o, found, hposts.1, hposts.2, hprocess, rfl⟩

theorem step_resume {h : θ} (hstep : O.step s (.resume h) = some s') :
    ∃ w, s.waiter h = some w ∧ h ∈ s.collected ∧ s' = O.resumed s w := by
  rw [step] at hstep
  split at hstep
  · rename_i w hw
    split_ifs at hstep with hcollected
    exact ⟨w, hw, hcollected, (Option.some.inj hstep).symm⟩
  · cases hstep

theorem step_destroy {a : Nat} (hstep : O.step s (.destroy a) = some s') :
    ∃ x, s.tickets a = .live x ∧ a ∉ s.waiting.map Waiter.ticket ∧ s' = O.destroyed s a x := by
  rw [step] at hstep
  split at hstep
  · rename_i x hx
    split_ifs at hstep with hfree
    exact ⟨x, hx, hfree, (Option.some.inj hstep).symm⟩
  · cases hstep

theorem step_other {b : β} (hstep : O.step s (.other b) = some s') :
    ∃ o, O.other s.obj b = some o ∧ s' = { s with obj := o } := by
  obtain ⟨o, ho, rfl⟩ := Option.map_eq_some_iff.mp hstep
  exact ⟨o, ho, rfl⟩

end Object

end Shared
