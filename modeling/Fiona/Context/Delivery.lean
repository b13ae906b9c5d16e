import Fiona.Context.Pipe
import Fiona.Context.Starting

/-!
# What comes through the pipe

A record is in the pipe, or it has been taken by a read whose completion is waiting, or it has
been processed. Nothing else happens to it but where `run` is left: the guard drops the
completions it finds, and with them the records that reads have taken. A call of `run` that ends
because there is no task left can so lose what other threads have written meanwhile; it does not
exactly if no read has taken a record that was not processed.

What has been processed is in good hands: a posted task is made with the next number, and is
started in turn (`Fiona.Loop.Ordered`), and the handles that were found are resumed one after the
other.
-/

namespace Fiona

open Transition

namespace Tasks

variable {s s' : Tasks} {op : TaskOp} {e : Option Exn}

/-- Numbers are not given back. -/
theorem Effect.next_le (h : Effect s op s' e) : s.next ≤ s'.next := by
  cases h with
  | spawned => exact Nat.le_succ _
  | posted => exact Nat.le_succ _
  | quiet hop hq => exact Nat.le_of_eq hq.next.symm
  | awaited => exact Nat.le_of_eq (await_keeps_offered s _ _ _).2.2.1.symm
  | finished he => exact Nat.le_of_eq he.next.symm
  | failed hcount he => exact Nat.le_of_eq he.next.symm
  | escaped => exact Nat.le_refl _
  | cleared hq => exact Nat.le_of_eq hq.next.symm

end Tasks

namespace Loop

variable {s s' : Loop} {op : LoopOp}

theorem Ordered.next_le (ho : Ordered s) (hstep : s.step op = some s') :
    s.ctx.next ≤ s'.ctx.next := by
  have hmoves := (step_moves hstep).1
  revert hmoves
  generalize s'.ctx = ctx
  intro hmoves
  cases hmoves with
  | same => exact Nat.le_refl _
  | popped => exact Nat.le_refl _
  | acted hop hact =>
    obtain ⟨ctx', e, hperform, heffect, -⟩ := ho.linked.perform hop
    obtain ⟨rfl, -⟩ := Prod.mk.inj (Option.some.inj (hact.symm.trans hperform))
    exact heffect.next_le
  | posted hpost =>
    rw [Tasks.post_eq ho.linked.sound] at hpost
    obtain rfl := Option.some.inj hpost
    exact Nat.le_succ _
  | cleared horder hclear =>
    obtain ⟨gone, hd, -⟩ := Tasks.clear_destroyed ho.linked.sound horder hclear
    exact Nat.le_of_eq hd.next.symm

/-- A posted task gets the next number. -/
theorem Ordered.next_posted (ho : Ordered s) (hstep : s.step .posted = some s') :
    s'.ctx.next = s.ctx.next + 1 := by
  simp only [Loop.step] at hstep
  split at hstep
  · rw [Tasks.post_eq ho.linked.sound, Option.map_some] at hstep
    obtain rfl := Option.some.inj hstep
    rw [check_ctx]
    rfl
  · simp at hstep

/-- The calls of `run` have returned normally, and no exception is on its way. -/
structure Normal (s : Loop) : Prop where
  results : ∀ r ∈ s.results, r = none
  going : ∀ e, s.phase ≠ .unwinding e

/-- As long as all is normal, the loop is in order. -/
theorem Normal.back (hn : Normal s') (hstep : s.step op = some s') (hs : Normal s → Ordered s) :
    Normal s ∧ Ordered s ∧ Ordered s' := by
  have hnormal : Normal s := by
    refine ⟨fun r hr => hn.results r (results_subset hstep hr), fun e he => ?_⟩
    exact absurd (hn.results _ (mem_results_of_unwinding he hstep)) (by simp)
  refine ⟨hnormal, hs hnormal, ?_⟩
  rcases (hs hnormal).step hstep with ho | hexits
  · exact ho
  · obtain ⟨e, he⟩ := hexits.phase
    exact absurd he (hn.going e)

/-- The handles that are still to be resumed. -/
def remaining : Phase → List Coro
  | .batch handles => handles
  | .handles rest | .resuming _ rest => rest
  | _ => []

theorem phase_check {p : Phase} (hgoing : ∀ e, (s.check p).phase ≠ .unwinding e) :
    (s.check p).phase = p := by
  cases hep : s.ctx.exceptionPtr with
  | some e => exact absurd (by rw [check_of_some hep]) (hgoing e)
  | none => rw [check_of_none hep]

/-- **The handles that are found are resumed in turn**, unless an exception leaves `run`. -/
theorem remaining_of_step (hstep : s.step op = some s') (hgoing : ∀ e, s'.phase ≠ .unwinding e) :
    Piped.resumedBy s op ++ remaining s'.phase = remaining s.phase ++ Piped.foundBy op := by
  cases op with
  | run =>
    simp only [step] at hstep
    split at hstep
    · rename_i hphase
      obtain rfl := Option.some.inj hstep
      rw [hphase]
      rfl
    · rename_i hphase
      obtain rfl := Option.some.inj hstep
      rw [hphase]
      rfl
    · simp at hstep
  | act top =>
    obtain ⟨-, -, e, -, heq⟩ := act_cases hstep
    rw [heq] at hgoing ⊢
    cases e with
    | some e => exact absurd rfl (hgoing e)
    | none =>
      simp only [Piped.resumedBy, Piped.foundBy, List.nil_append, List.append_nil]
      cases s.phase <;> rfl
  | advance =>
    simp only [step, advance] at hstep
    split at hstep
    · rename_i hphase
      obtain rfl := Option.some.inj hstep
      rw [Piped.resumedBy, hphase]
      split_ifs at hgoing ⊢ <;> (rw [phase_check hgoing]; rfl)
    · rename_i hphase
      rw [Piped.resumedBy, hphase]
      split at hstep
      · obtain rfl := Option.some.inj hstep
        rfl
      · obtain rfl := Option.some.inj hstep
        split_ifs at hgoing ⊢
        · rw [phase_check hgoing]
          rfl
        · rfl
    · rename_i hphase
      obtain rfl := Option.some.inj hstep
      rw [Piped.resumedBy, hphase]
      exact (List.append_nil _).symm
    · rename_i hphase
      obtain rfl := Option.some.inj hstep
      rw [Piped.resumedBy, hphase]
      rfl
    · simp at hstep
  | yield =>
    simp only [step, yield] at hstep
    split at hstep
    · rename_i hphase
      obtain rfl := Option.some.inj hstep
      rw [phase_check hgoing, hphase]
      rfl
    · rename_i hphase
      obtain rfl := Option.some.inj hstep
      rw [hphase]
      exact (List.append_nil _).symm
    · simp at hstep
  | ready =>
    simp only [step] at hstep
    split_ifs at hstep with hphase
    obtain rfl := Option.some.inj hstep
    rw [hphase]
    rfl
  | completion h =>
    simp only [step] at hstep
    split at hstep
    · rename_i hphase
      obtain rfl := Option.some.inj hstep
      rw [phase_check hgoing, hphase]
      rfl
    · simp at hstep
  | posted =>
    simp only [step] at hstep
    split at hstep
    · rename_i hphase
      obtain ⟨ctx, -, rfl⟩ := Option.map_eq_some_iff.mp hstep
      rw [phase_check hgoing, hphase]
      exact (List.append_nil _).symm
    · simp at hstep
  | throws e =>
    simp only [step] at hstep
    split at hstep
    · obtain rfl := Option.some.inj hstep
      exact absurd rfl (hgoing e)
    · simp at hstep
  | processed =>
    simp only [step] at hstep
    split at hstep
    · rename_i hphase
      obtain rfl := Option.some.inj hstep
      rw [hphase]
      exact (List.append_nil _).symm
    · simp at hstep
  | leave order =>
    obtain ⟨r, hcases, -, -, heq⟩ := leave_cases hstep
    rw [heq]
    rcases hcases with ⟨-, hphase⟩ | ⟨e, -, hphase⟩
    · rw [hphase]
      rfl
    · rw [hphase]
      rfl

end Loop

namespace Piped

open Loop (Normal Ordered remaining)

variable {s s' : Piped} {op : PipeOp} {lop : LoopOp}

/-- The record that a read has taken. -/
def taken (c : Nat × Option Word) : Option Record := c.2.bind Record.decode

/-- What was written has been processed, in this order, or it has been taken by a read whose
completion is waiting, or it is in the pipe; each posted task that was processed is one of the
tasks made, in this order; and the handle of each wake record is among those found, which are
resumed in turn. -/
structure Conserved (s : Piped) : Prop where
  written : s.written = s.processed ++ (s.ring.filterMap taken ++ s.pipe.filterMap Record.decode)
  posts : s.posted.map Prod.fst = s.processed.filterMap Record.post?
  increasing : (s.posted.map Prod.snd).Pairwise (· < ·)
  made : ∀ t ∈ s.posted.map Prod.snd, t < s.loop.ctx.next
  wakes : (s.found.filter Prod.snd).map Prod.fst = s.processed.filterMap Record.wake?
  resumed : s.found.map Prod.fst = s.resumed ++ remaining s.loop.phase

/-- **What is asked of the pipe**: no record is dropped or processed twice, and what was processed
has its effect once, in this order: the tasks made are started in turn, all of them before `run`
returns, and the handles found are resumed in turn. -/
structure Delivered (s : Piped) : Prop extends Conserved s where
  started : s.loop.started ++ s.loop.pending = List.range s.loop.ctx.next
  returns : s.loop.phase = .returning → s.loop.pending = []

/-- Where a call of `run` returns normally, no completion is left of a read that took a record. -/
def Untaken (s : Piped) : PipeOp → Prop
  | .loop (.leave _) => Normal s.loop → ∀ c ∈ s.ring, taken c = none
  | _ => True

/-- What holds as long as all is normal. -/
structure Flows (s : Piped) : Prop where
  ordered : Ordered s.loop
  conserved : Conserved s

theorem Flows.delivered (hf : Flows s) : Delivered s where
  toConserved := hf.conserved
  started := hf.ordered.queued
  returns := by
    intro hphase
    rw [Loop.pending, hphase]
    exact (hf.ordered.returns hphase).1

theorem flows_init : Flows init :=
  ⟨Loop.ordered_init, rfl, rfl, .nil, by simp [init], rfl, rfl⟩

/-! ### Steps of others -/

theorem Conserved.write (hc : Conserved s) {r : Record} (hr : Aligned r.ptr) :
    Conserved { s with pipe := s.pipe ++ [r.encode], written := s.written ++ [r] } := by
  refine ⟨?_, hc.posts, hc.increasing, hc.made, hc.wakes, hc.resumed⟩
  have hone : [r.encode].filterMap Record.decode = [r] := by
    rw [List.filterMap_cons, Record.decode_encode r hr]
    rfl
  simp only [List.filterMap_append, hone, hc.written, List.append_assoc]

theorem Conserved.take (hc : Conserved s) {f : Nat} {data : Word} {pipe : List Word}
    (hpipe : s.pipe = data :: pipe) :
    Conserved { s with
      pipe := pipe
      reads := s.reads.erase f
      ring := s.ring ++ [(f, some data)] } := by
  refine ⟨?_, hc.posts, hc.increasing, hc.made, hc.wakes, hc.resumed⟩
  have hone : [(f, some data)].filterMap taken = [data].filterMap Record.decode := by
    simp only [List.filterMap_cons, taken, Option.bind_some, List.filterMap_nil]
  have hsplit : s.pipe.filterMap Record.decode = [data].filterMap Record.decode ++
      pipe.filterMap Record.decode := by
    rw [hpipe, ← List.filterMap_append]
    rfl
  simp only [List.filterMap_append, hone, hc.written, hsplit, List.append_assoc]

theorem Conserved.lapse (hc : Conserved s) (f : Nat) :
    Conserved { s with reads := s.reads.erase f, ring := s.ring ++ [(f, none)] } := by
  refine ⟨?_, hc.posts, hc.increasing, hc.made, hc.wakes, hc.resumed⟩
  have hnone : [((f, none) : Nat × Option Word)].filterMap taken = [] := rfl
  simp only [List.filterMap_append, hnone, List.append_nil, hc.written]

/-! ### Steps of the loop -/

/-- The completion at the front of the ring brings the record that comes next. -/
theorem Conserved.front (hc : Conserved s) {f : Nat} {data : Word} {rest : List (Nat × Option Word)}
    (hring : s.ring = (f, some data) :: rest) :
    s.written = s.processed ++ (Record.decode data).toList ++
      (rest.filterMap taken ++ s.pipe.filterMap Record.decode) := by
  have hsplit : s.ring.filterMap taken = (Record.decode data).toList ++ rest.filterMap taken := by
    rw [hring, List.filterMap_cons]
    simp only [taken, Option.bind_some]
    cases Record.decode data <;> rfl
  simp only [hc.written, hsplit, List.append_assoc]

/-- A record is processed, and the read is scheduled again. -/
theorem Flows.process (hf : Normal s.loop → Flows s) {f n : Nat} {data : Word}
    {rest : List (Nat × Option Word)} (hring : s.ring = (f, some data) :: rest)
    (hprocess : s.process f rest n data = some s') (hn : Normal s'.loop) : Flows s' := by
  unfold Piped.process at hprocess
  dsimp only at hprocess
  split at hprocess
  · rename_i h hdata
    obtain ⟨loop, hloop, hprocess⟩ := Option.bind_eq_some_iff.mp hprocess
    obtain rfl := Option.some.inj hprocess
    obtain ⟨hnormal, ho, ho'⟩ := hn.back hloop fun hs => (hf hs).ordered
    have hremaining : remaining loop.phase = remaining s.loop.phase ++ [h.toNat] :=
      Loop.remaining_of_step hloop hn.going
    have hc := (hf hnormal).conserved
    have hwritten := hc.front hring
    rw [hdata] at hwritten
    refine ⟨ho', hwritten, ?_, hc.increasing, fun t ht => ?_, ?_, ?_⟩
    · simp [hc.posts, Record.post?]
    · exact Nat.lt_of_lt_of_le (hc.made t ht) (ho.next_le hloop)
    · simp [hc.wakes, Record.wake?]
    · simp [hc.resumed, hremaining]
  · rename_i task hdata
    obtain ⟨loop, hloop, hprocess⟩ := Option.bind_eq_some_iff.mp hprocess
    obtain rfl := Option.some.inj hprocess
    obtain ⟨hnormal, ho, ho'⟩ := hn.back hloop fun hs => (hf hs).ordered
    have hremaining : remaining loop.phase = remaining s.loop.phase :=
      (Loop.remaining_of_step hloop hn.going).trans (List.append_nil _)
    have hnext : loop.ctx.next = s.loop.ctx.next + 1 := ho.next_posted hloop
    have hc := (hf hnormal).conserved
    have hwritten := hc.front hring
    rw [hdata] at hwritten
    refine ⟨ho', hwritten, ?_, ?_, fun t ht => ?_, ?_, ?_⟩
    · simp [hc.posts, Record.post?]
    · -- the number of the new task is greater than those before
      simp only [List.map_append, List.pairwise_append]
      refine ⟨hc.increasing, List.pairwise_singleton _ _, fun t ht x hx => ?_⟩
      obtain rfl : x = s.loop.ctx.next := by simpa using hx
      exact hc.made t ht
    · rw [hnext]
      rw [List.map_append] at ht
      rcases List.mem_append.mp ht with ht | ht
      · exact Nat.lt_succ_of_lt (hc.made t ht)
      · obtain rfl : t = s.loop.ctx.next := by simpa using ht
        exact Nat.lt_succ_self _
    · simp [hc.wakes, Record.wake?]
    · simp [hc.resumed, hremaining]
  · rename_i hdata
    obtain ⟨loop, hloop, hprocess⟩ := Option.bind_eq_some_iff.mp hprocess
    obtain rfl := Option.some.inj hprocess
    obtain ⟨hnormal, ho, ho'⟩ := hn.back hloop fun hs => (hf hs).ordered
    have hremaining : remaining loop.phase = remaining s.loop.phase :=
      (Loop.remaining_of_step hloop hn.going).trans (List.append_nil _)
    have hc := (hf hnormal).conserved
    have hwritten := hc.front hring
    rw [hdata] at hwritten
    refine ⟨ho', ?_, hc.posts, hc.increasing, fun t ht => ?_, hc.wakes, ?_⟩
    · simpa using hwritten
    · exact Nat.lt_of_lt_of_le (hc.made t ht) (ho.next_le hloop)
    · simp [hc.resumed, hremaining]

/-- What a step of the loop comes to that is not about records. -/
theorem follow_cases (hfollow : s.follow lop = some s') :
    ∃ loop, s.loop.step lop = some loop ∧ s'.loop = loop ∧ s'.written = s.written ∧
    s'.processed = s.processed ∧ s'.posted = s.posted ∧ s'.pipe = s.pipe ∧
    s'.found = s.found ++ (foundBy lop).map (fun c => (c, false)) ∧
    s'.resumed = s.resumed ++ resumedBy s.loop lop ∧
    (s'.ring = s.ring ∨ s'.ring = [] ∧ ∃ order, lop = .leave order) := by
  unfold follow at hfollow
  obtain ⟨loop, hloop, hfollow⟩ := Option.bind_eq_some_iff.mp hfollow
  refine ⟨loop, hloop, ?_⟩
  cases lop with
  | posted => simp at hfollow
  | processed =>
    dsimp only at hfollow
    split_ifs at hfollow
    obtain rfl := Option.some.inj hfollow
    exact ⟨rfl, rfl, rfl, rfl, rfl, rfl, rfl, .inl rfl⟩
  | leave order =>
    obtain rfl := Option.some.inj hfollow
    exact ⟨rfl, rfl, rfl, rfl, rfl, rfl, rfl, .inr ⟨rfl, order, rfl⟩⟩
  | _ =>
    obtain rfl := Option.some.inj hfollow
    exact ⟨rfl, rfl, rfl, rfl, rfl, rfl, rfl, .inl rfl⟩

theorem Flows.follow (hf : Normal s.loop → Flows s) (huntaken : Untaken s (.loop lop))
    (hfollow : s.follow lop = some s') (hn : Normal s'.loop) : Flows s' := by
  obtain ⟨loop, hloop, hl, hwritten, hprocessed, hposted, hpipe, hfound, hresumed, hring⟩ :=
    follow_cases hfollow
  rw [← hl] at hloop
  obtain ⟨hnormal, ho, ho'⟩ := hn.back hloop fun hs => (hf hs).ordered
  have hremaining := Loop.remaining_of_step hloop hn.going
  have hc := (hf hnormal).conserved
  have hmarked : ∀ l : List Coro, (l.map fun c => (c, false)).filter Prod.snd = [] := by
    intro l
    induction l with
    | nil => rfl
    | cons c l ih => exact ih
  refine ⟨ho', ?_, ?_, ?_, fun t ht => ?_, ?_, ?_⟩
  · rw [hwritten, hprocessed, hpipe]
    -- the guard drops what is in the ring
    rcases hring with hring | ⟨hring, order, rfl⟩
    · rw [hring]
      exact hc.written
    · have hnone : s.ring.filterMap taken = [] := List.filterMap_eq_nil_iff.mpr (huntaken hnormal)
      rw [hring, hc.written, hnone]
      rfl
  · rw [hposted, hprocessed]
    exact hc.posts
  · rw [hposted]
    exact hc.increasing
  · rw [hposted] at ht
    exact Nat.lt_of_lt_of_le (hc.made t ht) (ho.next_le hloop)
  · rw [hfound, hprocessed, List.filter_append, hmarked, List.append_nil]
    exact hc.wakes
  · rw [hfound, hresumed, List.map_append, hc.resumed, List.append_assoc, List.append_assoc,
      hremaining]
    congr 2
    rw [List.map_map]
    exact List.map_id _

/-! ### Runs -/

theorem step_flows (hf : Normal s.loop → Flows s) (huntaken : Untaken s op)
    (hstep : s.step op = some s') (hn : Normal s'.loop) : Flows s' := by
  cases op with
  | write r =>
    simp only [step] at hstep
    split_ifs at hstep with hr
    obtain rfl := Option.some.inj hstep
    exact ⟨(hf hn).ordered, (hf hn).conserved.write hr.1⟩
  | take f =>
    simp only [step] at hstep
    split at hstep
    · rename_i data pipe hpipe
      split_ifs at hstep
      obtain rfl := Option.some.inj hstep
      exact ⟨(hf hn).ordered, (hf hn).conserved.take hpipe⟩
    · simp at hstep
  | lapse f =>
    simp only [step] at hstep
    split_ifs at hstep
    obtain rfl := Option.some.inj hstep
    exact ⟨(hf hn).ordered, (hf hn).conserved.lapse f⟩
  | record e =>
    simp only [step] at hstep
    split at hstep
    · rename_i hring
      exact Flows.process hf hring hstep hn
    · -- a read that has failed makes `run` throw
      obtain ⟨loop, hloop, rfl⟩ := Option.map_eq_some_iff.mp hstep
      simp only [Loop.step] at hloop
      split at hloop
      · obtain rfl := Option.some.inj hloop
        exact absurd rfl (hn.going e)
      · simp at hloop
    · simp at hstep
  | loop lop => exact Flows.follow hf huntaken hstep hn

/-- Where a call of `run` returns normally and nothing is lost, no read has taken a record in
vain. -/
theorem untaken_of_delivered (hf : Normal s.loop → Flows s) (hstep : s.step op = some s')
    (hd : Normal s'.loop → Delivered s') : Untaken s op := by
  cases op with
  | loop lop =>
    cases lop with
    | leave order =>
      intro hn
      obtain ⟨loop, hloop, hstep⟩ := Option.bind_eq_some_iff.mp hstep
      obtain rfl := Option.some.inj hstep
      have hn' : Normal loop := by
        obtain ⟨r, hcases, -, -, heq⟩ := Loop.leave_cases hloop
        rcases hcases with ⟨rfl, -⟩ | ⟨e, -, he⟩
        · rw [heq]
          refine ⟨fun r hr => ?_, by simp⟩
          rcases List.mem_append.mp hr with hr | hr
          · exact hn.results r hr
          · exact List.mem_singleton.mp hr
        · exact absurd he (hn.going e)
      -- the same has been written and processed as before, and the pipe is the same
      have hafter : s.written = s.processed ++ ([] ++ s.pipe.filterMap Record.decode) :=
        (hd hn').written
      rw [(hf hn).conserved.written] at hafter
      exact List.filterMap_eq_nil_iff.mp (List.append_cancel_right (List.append_cancel_left hafter))
    | _ => trivial
  | _ => trivial

end Piped

/-- **The pipe loses nothing** in exactly those runs in which no call of `run` returns normally
while there is a completion of a read that has taken a record. -/
theorem pipe_delivers (ops : List PipeOp) :
    Along Piped.step (fun s => Loop.Normal s.loop → Piped.Delivered s) Piped.init ops ↔
      StepsMeet Piped.step Piped.Untaken Piped.init ops :=
  along_iff_stepsMeet (I := fun s => Loop.Normal s.loop → Piped.Flows s)
    (fun _ hf hn => (hf hn).delivered) (fun _ _ _ => Piped.step_flows)
    (fun _ _ _ => Piped.untaken_of_delivered) (fun _ => Piped.flows_init)

/-- The only task ends while another thread posts one; the read takes the record when the ring is
submitted with the request that cancels it. -/
theorem pipe_delivers_fails : ¬∀ ops s, run Piped.step Piped.init ops = some s →
    Loop.Normal s.loop → Piped.Delivered s := by
  intro hall
  have hd := hall [.loop (.act (.spawn none)), .loop .run, .loop .advance, .loop .advance,
    .loop (.act (.finish 0)), .write (.post 4), .loop .yield, .loop .advance, .take 0,
    .loop (.leave [])] _ rfl ⟨by decide, by simp⟩
  exact absurd hd.written (by decide)

end Fiona
