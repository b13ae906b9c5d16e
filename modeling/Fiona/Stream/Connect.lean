import Fiona.Stream.Counting

/-!
# Connecting

A connect is two requests, for a socket and, linked behind it, for the connection, and the handle
of one coroutine is kept in the frames of both. The attempts on a client are numbered. What the
kernel answers is recorded for each, with `ENFILE` for an attempt that finds no slot, and
what `await_resume` returns is compared with the attempt's own answers.

When the socket fails the coroutine is resumed at once, and the connect request posts
`ECANCELED` in its own time, into a frame that nobody waits in any more or, worse, somebody
does. An attempt is served as it should be if that answer comes between the resumption and the
next attempt, and no connection is made with the answer still lying there.
-/

namespace Fiona

open Transition

/-- A client and the attempts to connect it. -/
structure Connecting where
  impl : StreamImpl
  /-- The number of attempts so far. -/
  attempts : Nat
  /-- The coroutines suspended in `connect_awaitable`, each with its attempt. -/
  waiting : List (Coro × Nat)
  /-- The handles that `run` has collected. -/
  collected : List Coro
  inFlight : List (Op × Nat)
  answer : Op → Nat → Option Int
  /-- What `await_resume` returned. -/
  results : List (Nat × Option Nat)
  /-- The coroutines that were resumed although they were not suspended in a connect. -/
  strays : List Coro

inductive ConnectOp
  /-- `co_await client.async_connect( addr )`, with what `get_available_fd` answers. -/
  | connect (h : Coro) (slot : Option Nat)
  /-- A completion of an attempt is processed. -/
  | process (o : Op) (k : Nat) (res : Int)
  /-- The next of the collected handles is resumed. -/
  | resume
  /-- A completion of another operation on the client. -/
  | other (o : Op) (res : Int)

namespace Connecting

variable (c : Connecting)

def init (now : Nat) : Connecting where
  impl := (StreamImpl.new (-1) now).addRef
  attempts := 0
  waiting := []
  collected := []
  inFlight := []
  answer := fun _ _ => none
  results := []
  strays := []

def setAnswer (o : Op) (k : Nat) (res : Int) : Op → Nat → Option Int :=
  Function.update c.answer o (Function.update (c.answer o) k (some res))

/-- The socket of an attempt failed. -/
def failed (k : Nat) : Bool := (c.answer .socket k).any fun res => decide (res < 0)

/-- The error of a result, if it is one. -/
def errorOf (res : Int) : Option Nat := if res < 0 then some (-res).toNat else none

/-- What an attempt has come to, by its own answers: the error of its socket, or else what
became of the connection. -/
def verdict (k : Nat) : Option (Option Nat) :=
  if c.failed k then (c.answer .socket k).map errorOf else (c.answer .connect k).map errorOf

/-- The requests of an attempt. -/
def requestsOf (k : Nat) (q : List Sqe) : List (Op × Nat) :=
  (requests q).filterMap fun
    | .op o => some (o, k)
    | _ => none

/-- `connect_awaitable::await_ready` and `await_suspend`; an attempt that is refused goes on to
`await_resume`, and one that finds the client busy throws. -/
def connect (h : Coro) (slot : Option Nat) : Connecting :=
  if c.impl.connectBusy then c
  else if c.impl.connectRefused slot then
    let (e, s) := c.impl.connectRefuse.connectAwaitResume
    { c with
      impl := s
      attempts := c.attempts + 1
      answer := c.setAnswer .socket c.attempts (-Errno.ENFILE)
      results := c.results ++ [(c.attempts, e)] }
  else
    let (s, q) := c.impl.connectAwaitSuspend slot h
    { c with
      impl := s
      attempts := c.attempts + 1
      waiting := c.waiting ++ [(h, c.attempts)]
      inFlight := c.inFlight ++ requestsOf c.attempts q }

/-- `await_process_cqe` and `handle`. -/
def process (o : Op) (k : Nat) (res : Int) : Connecting :=
  let (h, s) := (c.impl.opAwaitProcessCqe o res).1.opHandle o
  { c with
    impl := s
    collected := c.collected ++ h.toList
    inFlight := c.inFlight.erase (o, k)
    answer := c.setAnswer o k res }

/-- A coroutine is resumed, in `connect_awaitable::await_resume` if that is where it waits. -/
def resume : Option Connecting :=
  match c.collected with
  | [] => none
  | h :: rest =>
    match c.waiting.find? fun w => w.1 = h with
    | none => some { c with collected := rest, strays := c.strays ++ [h] }
    | some w =>
      let (e, s) := c.impl.connectAwaitResume
      some { c with
        impl := s
        collected := rest
        waiting := c.waiting.erase w
        results := c.results ++ [(w.2, e)] }

def perform : ConnectOp → Option Connecting
  | .connect h slot => some (c.connect h slot)
  | .process o k res => some (c.process o k res)
  | .resume => c.resume
  | .other o res => some { c with impl := (c.impl.opAwaitProcessCqe o res).1 }

/-- What callers and kernel are held to: a coroutine that is suspended awaits nothing, and a
connect is answered after the socket it is linked to, and with `ECANCELED` if that failed. -/
def allows : ConnectOp → Bool
  | .connect h _ => decide (h ∉ c.waiting.map Prod.fst)
  | .process o k res => decide ((o, k) ∈ c.inFlight) && (decide (o = .socket) ||
      decide ((.socket, k) ∉ c.inFlight) && (!c.failed k || decide (res = -Errno.ECANCELED)))
  | .resume => true
  | .other o _ => decide (o ≠ .socket) && decide (o ≠ .connect)

def step (op : ConnectOp) : Option Connecting := if c.allows op then c.perform op else none

/-- **Every attempt is served**: each of them waits or has been resumed, once, with a result
that is its own; nobody else is resumed; and when nothing is left to come nobody waits. -/
structure Served (c : Connecting) : Prop where
  once : (c.waiting.map Prod.snd ++ c.results.map Prod.fst).Perm (List.range c.attempts)
  strays : c.strays = []
  own : ∀ r ∈ c.results, c.verdict r.1 = some r.2
  all : c.inFlight = [] → c.collected = [] → c.waiting = []

/-- Attempts do not meet: none is started while the frame of the connection is in use, the
late answer to a connect whose socket failed comes when its coroutine has been resumed and
nobody else waits, and no connection is made while the result of such an answer is in the frame. -/
def Apart (c : Connecting) : ConnectOp → Prop
  | .connect _ _ => c.impl.connectBusy = true ∨ (c.impl.frame .connect).initiated = false
  | .process .connect k res =>
    (c.failed k = true → (c.impl.frame .connect).initiated = false) ∧
      (0 ≤ res → 0 ≤ (c.impl.frame .connect).res)
  | _ => True

instance : DecidablePred c.Apart
  | .connect _ _ => inferInstanceAs (Decidable (_ ∨ _))
  | .process .connect k _ => inferInstanceAs (Decidable ((c.failed k = true → _) ∧ (_ → _)))
  | .process .cancel _ _ | .process .close _ _ | .process .shutdown _ _ | .process .send _ _
  | .process .socket _ _ | .resume | .other _ _ => inferInstanceAs (Decidable True)

/-! ### What the frames hold -/

/-- Where the attempt in progress is, if there is one: its requests are in flight, or its socket
has failed, or its connection has been answered. -/
inductive Phase (c : Connecting) : Prop
  | idle (waiting : c.waiting = []) (collected : c.collected = [])
      (socket : c.impl.frame .socket = .idle)
      (initiated : (c.impl.frame .connect).initiated = false)
      (handle : (c.impl.frame .connect).h = none)
  | asked (h : Coro) (k : Nat) (waiting : c.waiting = [(h, k)]) (collected : c.collected = [])
      (socket : c.impl.frame .socket = ⟨some h, 0, true, false⟩)
      (initiated : (c.impl.frame .connect).initiated = true)
      (handle : (c.impl.frame .connect).h = some h)
      (inFlight : (.socket, k) ∈ c.inFlight ∧ (.connect, k) ∈ c.inFlight)
      (fresh : c.answer .socket k = none ∧ c.answer .connect k = none)
  | made (h : Coro) (k : Nat) (waiting : c.waiting = [(h, k)]) (collected : c.collected = [])
      (socket : (c.impl.frame .socket).res = 0 ∧ c.failed k = false ∧ (.socket, k) ∉ c.inFlight)
      (initiated : (c.impl.frame .connect).initiated = true)
      (handle : (c.impl.frame .connect).h = some h)
      (inFlight : (.connect, k) ∈ c.inFlight) (fresh : c.answer .connect k = none)
  | refused (h : Coro) (k : Nat) (waiting : c.waiting = [(h, k)]) (collected : c.collected = [h])
      (socket : c.answer .socket k = some (c.impl.frame .socket).res ∧
        (c.impl.frame .socket).res < 0)
      (initiated : (c.impl.frame .connect).initiated = true)
      (inFlight : (.socket, k) ∉ c.inFlight)
  | answered (h : Coro) (k : Nat) (res : Int) (waiting : c.waiting = [(h, k)])
      (collected : c.collected = [h])
      (socket : (c.impl.frame .socket).res = 0 ∧ c.failed k = false ∧ (.socket, k) ∉ c.inFlight)
      (initiated : (c.impl.frame .connect).initiated = true)
      (connect : c.answer .connect k = some res ∧ errorOf (c.impl.frame .connect).res = errorOf res)
      (inFlight : (.connect, k) ∉ c.inFlight)

/-- What holds of a client whose attempts do not meet. -/
structure Inv (c : Connecting) : Prop where
  phase : Phase c
  nodup : c.inFlight.Nodup
  ops : ∀ o k, (o, k) ∈ c.inFlight → o = .socket ∨ o = .connect
  /-- What is in flight for nobody is the connect of an attempt whose socket failed. -/
  late : ∀ o k, (o, k) ∈ c.inFlight → k ∉ c.waiting.map Prod.snd → o = .connect ∧ c.failed k = true
  fresh : ∀ o k, c.attempts ≤ k → c.answer o k = none ∧ (o, k) ∉ c.inFlight
  once : (c.waiting.map Prod.snd ++ c.results.map Prod.fst).Perm (List.range c.attempts)
  strays : c.strays = []
  own : ∀ r ∈ c.results, c.verdict r.1 = some r.2

variable {c : Connecting} {c' : Connecting} {h : Coro}

theorem Inv.served (hc : Inv c) : Served c := by
  refine ⟨hc.once, hc.strays, hc.own, fun hin hcollected => ?_⟩
  cases hc.phase with
  | idle hwaiting => exact hwaiting
  | asked h k _ _ _ _ _ hmem => exact absurd hmem.1 (by simp [hin])
  | made h k _ _ _ _ _ hmem => exact absurd hmem (by simp [hin])
  | refused h k _ hone => exact absurd hcollected (by simp [hone])
  | answered h k res _ hone => exact absurd hcollected (by simp [hone])

theorem inv_init (now : Nat) : Inv (init now) where
  phase := .idle rfl rfl rfl rfl rfl
  nodup := List.nodup_nil
  ops := fun o k hmem => absurd hmem (by simp [init])
  late := fun o k hmem => absurd hmem (by simp [init])
  fresh := fun o k _ => ⟨rfl, by simp [init]⟩
  once := by simp [init]
  strays := rfl
  own := by simp [init]

/-! ### What the frames are left with -/

theorem process_connect (k : Nat) (res : Int) :
    (c.process .connect k res).impl.frame .connect =
        ⟨none, if res < 0 then res else (c.impl.frame .connect).res,
          (c.impl.frame .connect).initiated, true⟩ ∧
      (c.process .connect k res).impl.frame .socket = c.impl.frame .socket ∧
      (c.process .connect k res).collected = c.collected ++ (c.impl.frame .connect).h.toList := by
  unfold process StreamImpl.opAwaitProcessCqe StreamImpl.connectAwaitProcessCqe
  dsimp only
  split_ifs with hneg hconn <;>
    simp [StreamImpl.opHandle, StreamImpl.setFrame, OpFrame.exchange]

theorem process_socket_ok {res : Int} (k : Nat) (hres : ¬res < 0)
    (hsocket : (c.impl.frame .socket).res = 0) :
    (c.process .socket k res).impl.frame .connect = c.impl.frame .connect ∧
      ((c.process .socket k res).impl.frame .socket).res = 0 ∧
      (c.process .socket k res).collected = c.collected := by
  unfold process StreamImpl.opAwaitProcessCqe StreamImpl.socketAwaitProcessCqe
  simp [hres, hsocket, StreamImpl.opHandle, StreamImpl.setFrame]

theorem process_socket_failed {res : Int} (k : Nat) (hres : res < 0) :
    (c.process .socket k res).impl.frame .connect = c.impl.frame .connect ∧
      ((c.process .socket k res).impl.frame .socket).res = res ∧
      (c.process .socket k res).collected = c.collected ++ (c.impl.frame .socket).h.toList := by
  unfold process StreamImpl.opAwaitProcessCqe StreamImpl.socketAwaitProcessCqe
  simp [hres, StreamImpl.opHandle, StreamImpl.setFrame, OpFrame.exchange]

/-- `await_resume` resets both frames. -/
theorem connectAwaitResume_eq (s : StreamImpl) :
    s.connectAwaitResume.1 =
        (if (s.frame .socket).res < 0 then errorOf (s.frame .socket).res
          else errorOf (s.frame .connect).res) ∧
      s.connectAwaitResume.2.frame .socket = .idle ∧
      s.connectAwaitResume.2.frame .connect = .idle := by
  unfold StreamImpl.connectAwaitResume errorOf
  dsimp only
  split_ifs <;> simp [StreamImpl.setFrame, OpFrame.reset]

theorem connectRefuse_res (s : StreamImpl) :
    (s.connectRefuse.frame .socket).res = -Errno.ENFILE := by
  simp [StreamImpl.connectRefuse, StreamImpl.setFrame]

/-- What an attempt queues, and the frames it starts. -/
theorem connectAwaitSuspend_cases (s : StreamImpl) (slot : Option Nat) (h : Coro) (k : Nat) :
    (s.connectAwaitSuspend slot h).1.frame .connect = (s.frame .connect).start h ∧
      ((s.connectAwaitSuspend slot h).1.frame .socket = (s.frame .socket).start h ∧
          requestsOf k (s.connectAwaitSuspend slot h).2 = [(.socket, k), (.connect, k)] ∨
        (s.connectAwaitSuspend slot h).1.frame .socket = s.frame .socket ∧
          requestsOf k (s.connectAwaitSuspend slot h).2 = [(.connect, k)]) := by
  unfold StreamImpl.connectAwaitSuspend StreamImpl.connectSocket
  split_ifs with hconn
  · exact ⟨by simp [StreamImpl.setFrame], .inr ⟨by simp [StreamImpl.setFrame], rfl⟩⟩
  · exact ⟨by simp [StreamImpl.setFrame], .inl ⟨by simp [StreamImpl.setFrame], rfl⟩⟩

/-- A completion of another operation leaves the frames of a connect alone. -/
theorem other_frame (s : StreamImpl) {o : Op} (res : Int) (hsocket : o ≠ .socket)
    (hconnect : o ≠ .connect) : (s.opAwaitProcessCqe o res).1.frame .socket = s.frame .socket ∧
      (s.opAwaitProcessCqe o res).1.frame .connect = s.frame .connect := by
  cases o with
  | socket => exact absurd rfl hsocket
  | connect => exact absurd rfl hconnect
  | send =>
    unfold StreamImpl.opAwaitProcessCqe StreamImpl.sendAwaitProcessCqe
    dsimp only
    split_ifs <;> simp [StreamImpl.setFrame]
  | _ =>
    simp [StreamImpl.opAwaitProcessCqe, StreamImpl.cancelAwaitProcessCqe,
      StreamImpl.closeAwaitProcessCqe, StreamImpl.shutdownAwaitProcessCqe, StreamImpl.setFrame]

/-! ### Answers -/

theorem setAnswer_self (o : Op) (k : Nat) (res : Int) : c.setAnswer o k res o k = some res := by
  simp [setAnswer]

theorem setAnswer_of_ne {o o' : Op} {k k' : Nat} (res : Int) (hne : (o', k') ≠ (o, k)) :
    c.setAnswer o k res o' k' = c.answer o' k' := by
  rcases eq_or_ne o' o with rfl | ho
  · have hk : k' ≠ k := fun heq => hne (by rw [heq])
    simp [setAnswer, hk]
  · simp [setAnswer, ho]

theorem process_answer_self (o : Op) (k : Nat) (res : Int) :
    (c.process o k res).answer o k = some res :=
  setAnswer_self ..

theorem process_answer_of_ne {o o' : Op} {k k' : Nat} (res : Int) (hne : (o', k') ≠ (o, k)) :
    (c.process o k res).answer o' k' = c.answer o' k' :=
  setAnswer_of_ne res hne

theorem verdict_congr {k : Nat} (hanswer : ∀ o, c'.answer o k = c.answer o k) :
    c'.verdict k = c.verdict k := by
  rw [verdict, verdict, failed, failed, hanswer, hanswer]

theorem failed_congr {k : Nat} (hanswer : c'.answer .socket k = c.answer .socket k) :
    c'.failed k = c.failed k := by
  rw [failed, failed, hanswer]

/-! ### Steps that keep attempts apart -/

/-- Nobody is connecting while the frame of the connection is not in use. -/
theorem Phase.idle_of (hc : Phase c) (hidle : (c.impl.frame .connect).initiated = false) :
    c.waiting = [] ∧ c.collected = [] ∧ c.impl.frame .socket = .idle ∧
      (c.impl.frame .connect).h = none := by
  cases hc with
  | idle hwaiting hcollected hsocket _ hhandle => exact ⟨hwaiting, hcollected, hsocket, hhandle⟩
  | asked h k _ _ _ hinit => exact absurd hinit (by simp [hidle])
  | made h k _ _ _ hinit => exact absurd hinit (by simp [hidle])
  | refused h k _ _ _ hinit => exact absurd hinit (by simp [hidle])
  | answered h k res _ _ _ hinit => exact absurd hinit (by simp [hidle])

/-- Attempts that wait and attempts that have been resumed are among those made, and differ. -/
theorem Inv.lt_of_result (hc : Inv c) {r : Nat × Option Nat} (hr : r ∈ c.results) :
    r.1 < c.attempts :=
  List.mem_range.mp (hc.once.subset
    (List.mem_append_right _ (List.mem_map_of_mem (f := Prod.fst) hr)))

theorem Inv.ne_of_waiting (hc : Inv c) {r : Nat × Option Nat} (hr : r ∈ c.results) {k : Nat}
    (hk : k ∈ c.waiting.map Prod.snd) : r.1 ≠ k := by
  rintro rfl
  have hnodup := hc.once.nodup_iff.mpr List.nodup_range
  exact (List.nodup_append.mp hnodup).2.2 _ hk _ (List.mem_map_of_mem (f := Prod.fst) hr) rfl

theorem Inv.lt_of_inFlight (hc : Inv c) {o : Op} {k : Nat} (hin : (o, k) ∈ c.inFlight) :
    k < c.attempts := by
  by_contra hge
  exact (hc.fresh o k (by omega)).2 hin

/-- An attempt that is refused comes to nothing but its result. -/
theorem Inv.refuse (hc : Inv c) (hidle : (c.impl.frame .connect).initiated = false) :
    Inv { c with
      impl := c.impl.connectRefuse.connectAwaitResume.2
      attempts := c.attempts + 1
      answer := c.setAnswer .socket c.attempts (-Errno.ENFILE)
      results := c.results ++ [(c.attempts, c.impl.connectRefuse.connectAwaitResume.1)] } := by
  obtain ⟨hwaiting, hcollected, -, -⟩ := hc.phase.idle_of hidle
  obtain ⟨he, hsocket, hconnect⟩ := connectAwaitResume_eq c.impl.connectRefuse
  have hold : ∀ o k, k < c.attempts →
      c.setAnswer .socket c.attempts (-Errno.ENFILE) o k = c.answer o k := fun o k hk =>
    setAnswer_of_ne _ (by simp only [ne_eq, Prod.mk.injEq, not_and]; omega)
  refine ⟨.idle hwaiting hcollected hsocket (by simp [hconnect, OpFrame.idle])
    (by simp [hconnect, OpFrame.idle]), hc.nodup, hc.ops, fun o k hin hk => ?_,
    fun o k hk => ?_, ?_, hc.strays, fun r hr => ?_⟩
  · obtain ⟨rfl, hfailed⟩ := hc.late o k hin hk
    exact ⟨rfl, (failed_congr (hold .socket k (hc.lt_of_inFlight hin) :)).trans hfailed⟩
  · have hlt : c.attempts + 1 ≤ k := hk
    have hfresh := hc.fresh o k (Nat.le_of_succ_le hlt)
    refine ⟨?_, hfresh.2⟩
    rw [← hfresh.1]
    exact setAnswer_of_ne _ (by simp only [ne_eq, Prod.mk.injEq, not_and]; omega)
  · have honce := hc.once
    simp only [hwaiting, List.map_nil, List.nil_append] at honce
    simpa [hwaiting, List.range_succ] using honce.append_right [c.attempts]
  · rcases List.mem_append.mp hr with hr | hr
    · rw [← hc.own r hr]
      exact verdict_congr fun o => hold o _ (hc.lt_of_result hr)
    · obtain rfl := List.mem_singleton.mp hr
      simp [verdict, failed, setAnswer_self, he, connectRefuse_res, Errno.ENFILE]

/-- An attempt that is made waits for its answers. -/
theorem Inv.submit (hc : Inv c) (hidle : (c.impl.frame .connect).initiated = false)
    (slot : Option Nat) : Inv { c with
      impl := (c.impl.connectAwaitSuspend slot h).1
      attempts := c.attempts + 1
      waiting := c.waiting ++ [(h, c.attempts)]
      inFlight := c.inFlight ++ requestsOf c.attempts (c.impl.connectAwaitSuspend slot h).2 } := by
  obtain ⟨hwaiting, hcollected, hsocket, -⟩ := hc.phase.idle_of hidle
  obtain ⟨hframe, hcases⟩ := connectAwaitSuspend_cases c.impl slot h c.attempts
  have hnew : ∀ o, (o, c.attempts) ∉ c.inFlight := fun o => (hc.fresh o _ (Nat.le_refl _)).2
  have hanswer : ∀ o, c.answer o c.attempts = none := fun o => (hc.fresh o _ (Nat.le_refl _)).1
  have honce : (c.results.map Prod.fst).Perm (List.range c.attempts) := by
    simpa [hwaiting] using hc.once
  have hreq : ∀ r ∈ requestsOf c.attempts (c.impl.connectAwaitSuspend slot h).2,
      r = (.socket, c.attempts) ∨ r = (.connect, c.attempts) := by
    rcases hcases with ⟨-, heq⟩ | ⟨-, heq⟩ <;> simp [heq]
  refine ⟨?_, ?_, fun o k hin => ?_, fun o k hin hk => ?_, fun o k hk => ?_, ?_, hc.strays, hc.own⟩
  · rcases hcases with ⟨hstart, heq⟩ | ⟨hsame, heq⟩
    · refine .asked h c.attempts (by simp [hwaiting]) hcollected ?_ ?_ ?_ ?_ ⟨hanswer _, hanswer _⟩
      · exact hstart.trans (by rw [hsocket]; rfl)
      · exact (congrArg OpFrame.initiated hframe).trans rfl
      · exact (congrArg OpFrame.h hframe).trans rfl
      · simp [heq]
    · refine .made h c.attempts (by simp [hwaiting]) hcollected ⟨?_, ?_, ?_⟩ ?_ ?_ ?_ (hanswer _)
      · exact (congrArg OpFrame.res (hsame.trans hsocket)).trans rfl
      · simp [failed, hanswer]
      · simp [heq, hnew]
      · exact (congrArg OpFrame.initiated hframe).trans rfl
      · exact (congrArg OpFrame.h hframe).trans rfl
      · simp [heq]
  · refine List.nodup_append.mpr ⟨hc.nodup, ?_, fun r hr r' hr' heq => ?_⟩
    · rcases hcases with ⟨-, heq⟩ | ⟨-, heq⟩ <;> simp [heq]
    · subst heq
      rcases hreq r hr' with rfl | rfl <;> exact hnew _ hr
  · rcases List.mem_append.mp hin with hin | hin
    · exact hc.ops o k hin
    · rcases hreq _ hin with heq | heq
      · exact .inl (congrArg Prod.fst heq)
      · exact .inr (congrArg Prod.fst heq)
  · simp only [hwaiting, List.nil_append, List.map_cons, List.map_nil, List.mem_singleton] at hk
    rcases List.mem_append.mp hin with hin | hin
    · exact hc.late o k hin (by simp [hwaiting])
    · rcases hreq _ hin with heq | heq <;> exact absurd (congrArg Prod.snd heq) hk
  · have hlt : c.attempts + 1 ≤ k := hk
    obtain ⟨hnone, hold⟩ := hc.fresh o k (Nat.le_of_succ_le hlt)
    refine ⟨hnone, fun hin => ?_⟩
    rcases List.mem_append.mp hin with hin | hin
    · exact hold hin
    · have hsnd : k = c.attempts := by
        rcases hreq _ hin with heq | heq <;> exact congrArg Prod.snd heq
      omega
  · simp only [hwaiting, List.nil_append, List.map_cons, List.map_nil, List.singleton_append,
      List.range_succ]
    exact (honce.cons _).trans (List.perm_append_singleton _ _).symm

theorem Inv.connect (hc : Inv c) (slot : Option Nat) (hapart : c.Apart (.connect h slot)) :
    Inv (c.connect h slot) := by
  unfold Connecting.connect
  split_ifs with hbusy hrefused
  · exact hc
  · exact hc.refuse (hapart.resolve_left hbusy)
  · exact hc.submit (hapart.resolve_left hbusy) slot

theorem Inv.notMem_erase (hc : Inv c) (o : Op) (k : Nat) : (o, k) ∉ c.inFlight.erase (o, k) :=
  fun hmem => ((List.Nodup.mem_erase_iff hc.nodup).mp hmem).1 rfl

/-- An answer changes what is known of its attempt, and of no other. -/
theorem Inv.answer {o : Op} {k : Nat} {res : Int} (hc : Inv c) (hin : (o, k) ∈ c.inFlight)
    (hphase : Phase (c.process o k res))
    (hlast : k ∈ c.waiting.map Prod.snd ∨ o = .connect ∧ c.failed k = true) :
    Inv (c.process o k res) := by
  have hk := hc.lt_of_inFlight hin
  have hother : ∀ o' k', k' ≠ k → (c.process o k res).answer o' k' = c.answer o' k' :=
    fun o' k' hne =>
    process_answer_of_ne res (by simp [hne])
  have hfailed : ∀ k', c.failed k' = true → k' ∉ c.waiting.map Prod.snd →
      (c.process o k res).failed k' = true := by
    intro k' hf hwait
    rcases eq_or_ne k' k with rfl | hne
    · obtain ⟨rfl, -⟩ := hlast.resolve_left hwait
      rw [failed_congr (process_answer_of_ne res (by simp)), hf]
    · rw [failed_congr (hother .socket k' hne), hf]
  refine ⟨hphase, hc.nodup.erase _, fun o' k' hmem => hc.ops o' k' (List.mem_of_mem_erase hmem),
    fun o' k' hmem hwait => ?_, fun o' k' hge => ?_, hc.once, hc.strays, fun r hr => ?_⟩
  · obtain ⟨rfl, hf⟩ := hc.late o' k' (List.mem_of_mem_erase hmem) hwait
    exact ⟨rfl, hfailed k' hf hwait⟩
  · have hle : c.attempts ≤ k' := hge
    obtain ⟨hnone, hnot⟩ := hc.fresh o' k' hle
    exact ⟨(hother o' k' (by omega)).trans hnone, fun hmem => hnot (List.mem_of_mem_erase hmem)⟩
  · rw [← hc.own r hr]
    rcases eq_or_ne r.1 k with heq | hne
    · -- the late answer to an attempt that its socket has decided
      have hwait : k ∉ c.waiting.map Prod.snd := fun hmem => hc.ne_of_waiting hr hmem heq
      obtain ⟨rfl, hf⟩ := hlast.resolve_left hwait
      have hsocket : (c.process .connect k res).answer .socket k = c.answer .socket k :=
        process_answer_of_ne res (by simp)
      rw [verdict, verdict, heq, if_pos hf, if_pos (hfailed k hf hwait), hsocket]
    · exact verdict_congr fun o' => hother o' r.1 hne

theorem Inv.processSocket (hc : Inv c) {k : Nat} {res : Int} (hin : (.socket, k) ∈ c.inFlight) :
    Inv (c.process .socket k res) := by
  have hwait : k ∈ c.waiting.map Prod.snd := by
    by_contra hnot
    exact absurd (hc.late _ _ hin hnot).1 (by simp)
  refine hc.answer hin ?_ (.inl hwait)
  cases hc.phase with
  | idle hnone => exact absurd hwait (by simp [hnone])
  | made h k' hone _ hs =>
    obtain rfl : k = k' := by simpa [hone] using hwait
    exact absurd hin hs.2.2
  | refused h k' hone _ _ _ hs =>
    obtain rfl : k = k' := by simpa [hone] using hwait
    exact absurd hin hs
  | answered h k' res' hone _ hs =>
    obtain rfl : k = k' := by simpa [hone] using hwait
    exact absurd hin hs.2.2
  | asked h k' hone hcollected hs hinit hhandle hmem hfresh =>
    obtain rfl : k = k' := by simpa [hone] using hwait
    by_cases hres : res < 0
    · obtain ⟨hconnect, hsres, hcoll⟩ := process_socket_failed (c := c) k hres
      refine .refused h k hone ?_ ⟨?_, ?_⟩ ?_ (hc.notMem_erase _ _)
      · rw [hcoll, hcollected, hs]
        rfl
      · rw [hsres]
        exact process_answer_self ..
      · rwa [hsres]
      · rwa [hconnect]
    · obtain ⟨hconnect, hsres, hcoll⟩ := process_socket_ok (c := c) k hres (by rw [hs])
      refine .made h k hone ?_ ⟨hsres, ?_, hc.notMem_erase _ _⟩ ?_ ?_ ?_ ?_
      · rw [hcoll, hcollected]
      · simp [failed, process_answer_self, hres]
      · rwa [hconnect]
      · rwa [hconnect]
      · exact (List.mem_erase_of_ne (by simp)).mpr hmem.2
      · rw [process_answer_of_ne res (by simp), hfresh.2]

theorem Inv.processConnect (hc : Inv c) {k : Nat} {res : Int} (hin : (.connect, k) ∈ c.inFlight)
    (hsocket : (.socket, k) ∉ c.inFlight) (hapart : c.Apart (.process .connect k res)) :
    Inv (c.process .connect k res) := by
  obtain ⟨hlate, hgood⟩ := hapart
  obtain ⟨hconnect, hsame, hcoll⟩ := process_connect (c := c) k res
  by_cases hwait : k ∈ c.waiting.map Prod.snd
  · refine hc.answer hin ?_ (.inl hwait)
    cases hc.phase with
    | idle hnone => exact absurd hwait (by simp [hnone])
    | asked h k' hone _ _ _ _ hmem =>
      obtain rfl : k = k' := by simpa [hone] using hwait
      exact absurd hmem.1 hsocket
    | refused h k' hone _ hs hinit =>
      obtain rfl : k = k' := by simpa [hone] using hwait
      have hf : c.failed k = true := by simp [failed, hs.1, hs.2]
      exact absurd hinit (by simp [hlate hf])
    | answered h k' res' hone _ _ _ _ hmem =>
      obtain rfl : k = k' := by simpa [hone] using hwait
      exact absurd hin hmem
    | made h k' hone hcollected hs hinit hhandle =>
      obtain rfl : k = k' := by simpa [hone] using hwait
      refine .answered h k res hone ?_ ⟨?_, ?_, ?_⟩ ?_ ⟨process_answer_self .., ?_⟩
        (hc.notMem_erase _ _)
      · rw [hcoll, hcollected, hhandle]
        rfl
      · rw [hsame, hs.1]
      · rw [failed_congr (process_answer_of_ne res (by simp)), hs.2.1]
      · exact fun hmem => hsocket (List.mem_of_mem_erase hmem)
      · rwa [hconnect]
      · -- a success leaves the result as it was
        rw [hconnect]
        dsimp only
        split_ifs with hres
        · rfl
        · have := hgood (by omega)
          rw [errorOf, errorOf, if_neg (by omega), if_neg hres]
  · have hf := (hc.late _ _ hin hwait).2
    refine hc.answer hin ?_ (.inr ⟨rfl, hf⟩)
    obtain ⟨hnone, hcollected, hs, hhandle⟩ := hc.phase.idle_of (hlate hf)
    refine .idle hnone ?_ (hsame.trans hs) ?_ ?_
    · rw [hcoll, hcollected, hhandle]
      rfl
    · rw [hconnect]
      exact hlate hf
    · rw [hconnect]

/-- The coroutine of the attempt in progress goes on with a result that is its own. -/
theorem Inv.goOn (hc : Inv c) {k : Nat} (hone : c.waiting = [(h, k)])
    (hmine : c.verdict k = some c.impl.connectAwaitResume.1)
    (hlate : ∀ o, (o, k) ∈ c.inFlight → o = .connect ∧ c.failed k = true) :
    Inv { c with
      impl := c.impl.connectAwaitResume.2
      collected := []
      waiting := []
      results := c.results ++ [(k, c.impl.connectAwaitResume.1)] } := by
  obtain ⟨-, hsocket, hconnect⟩ := connectAwaitResume_eq c.impl
  refine ⟨.idle rfl rfl hsocket (by simp [hconnect, OpFrame.idle])
    (by simp [hconnect, OpFrame.idle]), hc.nodup, hc.ops, fun o k' hin _ => ?_, hc.fresh, ?_,
    hc.strays, fun r hr => ?_⟩
  · rcases eq_or_ne k' k with rfl | hne
    · exact hlate o hin
    · exact hc.late o k' hin (by simp [hone, hne])
  · have honce := hc.once
    rw [hone] at honce
    simp only [List.map_nil, List.nil_append, List.map_append, List.map_cons, List.singleton_append]
      at honce ⊢
    exact (List.perm_append_singleton _ _).trans honce
  · rcases List.mem_append.mp hr with hr | hr
    · exact hc.own r hr
    · obtain rfl := List.mem_singleton.mp hr
      exact hmine

theorem Inv.resume (hc : Inv c) (hstep : c.resume = some c') : Inv c' := by
  unfold Connecting.resume at hstep
  cases hc.phase with
  | idle _ hnone => simp [hnone] at hstep
  | asked _ _ _ hnone => simp [hnone] at hstep
  | made _ _ _ hnone => simp [hnone] at hstep
  | refused h k hone hcoll hs hinit hsocket =>
    simp only [hcoll, hone, List.find?_cons_of_pos, decide_true, Option.some.injEq] at hstep
    obtain rfl := hstep
    have hf : c.failed k = true := by simp [failed, hs.1, hs.2]
    have hmine : c.verdict k = some c.impl.connectAwaitResume.1 := by
      simp [verdict, hf, hs.1, (connectAwaitResume_eq c.impl).1, hs.2]
    simpa using hc.goOn hone hmine fun o hin => by
      rcases hc.ops o k hin with rfl | rfl
      · exact absurd hin hsocket
      · exact ⟨rfl, hf⟩
  | answered h k res hone hcoll hs hinit hconnect hin' =>
    simp only [hcoll, hone, List.find?_cons_of_pos, decide_true, Option.some.injEq] at hstep
    obtain rfl := hstep
    have hmine : c.verdict k = some c.impl.connectAwaitResume.1 := by
      simp [verdict, hs.2.1, hconnect.1, (connectAwaitResume_eq c.impl).1, hs.1, hconnect.2]
    simpa using hc.goOn hone hmine fun o hin => by
      rcases hc.ops o k hin with rfl | rfl
      · exact absurd hin hs.2.2
      · exact absurd hin hin'

theorem Inv.other (hc : Inv c) {o : Op} (res : Int) (hsocket : o ≠ .socket)
    (hconnect : o ≠ .connect) : Inv { c with impl := (c.impl.opAwaitProcessCqe o res).1 } := by
  obtain ⟨hs, hn⟩ := other_frame c.impl res hsocket hconnect
  refine ⟨?_, hc.nodup, hc.ops, hc.late, hc.fresh, hc.once, hc.strays, hc.own⟩
  cases hc.phase with
  | idle h1 h2 h3 h4 h5 => exact .idle h1 h2 (hs.trans h3) (by rwa [hn]) (by rwa [hn])
  | asked h k h1 h2 h3 h4 h5 h6 h7 =>
    exact .asked h k h1 h2 (hs.trans h3) (by rwa [hn]) (by rwa [hn]) h6 h7
  | made h k h1 h2 h3 h4 h5 h6 h7 =>
    exact .made h k h1 h2 (by rwa [hs]) (by rwa [hn]) (by rwa [hn]) h6 h7
  | refused h k h1 h2 h3 h4 h5 => exact .refused h k h1 h2 (by rwa [hs]) (by rwa [hn]) h5
  | answered h k r h1 h2 h3 h4 h5 h6 =>
    exact .answered h k r h1 h2 (by rwa [hs]) (by rwa [hn]) (by rwa [hn]) h6

theorem Inv.step (hc : Inv c) {op : ConnectOp} (hapart : c.Apart op) (hstep : c.step op = some c') :
    Inv c' := by
  unfold Connecting.step at hstep
  split_ifs at hstep with hallows
  cases op with
  | connect h slot =>
    obtain rfl := Option.some.inj hstep
    exact hc.connect slot hapart
  | process o k res =>
    obtain rfl := Option.some.inj hstep
    simp only [allows, Bool.and_eq_true, Bool.or_eq_true, decide_eq_true_eq] at hallows
    obtain ⟨hin, hlink⟩ := hallows
    rcases hc.ops o k hin with rfl | rfl
    · exact hc.processSocket hin
    · exact hc.processConnect hin (hlink.resolve_left (by simp)).1 hapart
  | resume => exact hc.resume hstep
  | other o res =>
    obtain rfl := Option.some.inj hstep
    simp only [allows, Bool.and_eq_true, decide_eq_true_eq] at hallows
    exact hc.other res hallows.1 hallows.2

end Connecting

open Connecting in
/-- **Every attempt is served** along a run in which attempts do not meet. -/
theorem connecting_served (now : Nat) (ops : List ConnectOp)
    (hapart : StepsMeet Connecting.step Connecting.Apart (Connecting.init now) ops) :
    Along Connecting.step Connecting.Served (Connecting.init now) ops :=
  (along_of_stepsMeet (fun _ _ _ hc hap hstep => hc.step hap hstep) (inv_init now) hapart).mono
    fun _ hc => hc.served

/-- A socket fails, its coroutine tries again when the connect has been answered, and the second
attempt is refused by the peer. -/
theorem connecting_served_sample : Along Connecting.step Connecting.Served (Connecting.init 0)
    [.connect 1 (some 5), .process .socket 0 (-24), .resume, .process .connect 0 (-125),
      .connect 1 (some 5), .process .socket 1 0, .process .connect 1 (-111), .resume] :=
  connecting_served 0 _ (by decide)

/-- **An attempt is not served** when its socket fails. If the answer to the connect comes in the
same batch the coroutine is resumed twice; if it comes later, before the coroutine tries
again, the next connection that is made is reported as cancelled. -/
theorem connecting_fails :
    ¬Along Connecting.step Connecting.Served (Connecting.init 0)
        [.connect 1 (some 5), .process .socket 0 (-24), .process .connect 0 (-125), .resume,
          .resume] ∧
      ¬Along Connecting.step Connecting.Served (Connecting.init 0)
        [.connect 1 (some 5), .process .socket 0 (-24), .resume, .process .connect 0 (-125),
          .connect 1 (some 5), .process .socket 1 0, .process .connect 1 0, .resume] := by
  constructor
  · intro h
    exact absurd (h.last rfl).strays (by decide)
  · intro h
    exact absurd ((h.last rfl).own (1, some 125) (by decide)) (by decide)

end Fiona
