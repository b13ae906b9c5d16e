import Fiona.Lib.Pool
import Fiona.Slots.System
import Fiona.Stream.Leaving

/-!
# What a step does to the slots of its object

A stream has at most one slot, its `fd_`; an acceptor has at most two, its `fd_` and the
`peer_fd_` of the accept in progress. Seen from the slots, a step of an object keeps what it has,
gives back what it has, takes a slot where it has none, or – an accept that is resumed – hands its
slot on (`Fiona.Life.SlotEffect`, `Fiona.AcceptorLife.SlotEffect`). That an accept asks for a slot
only while it has none, and that a destroyed acceptor has none, rests on what holds of every
acceptor (`Fiona.AcceptorLife.Sound`): its references are counted, and an accept in progress has
a coroutine waiting for it.
-/

namespace Fiona

open ResourcePool (Returns)

/-- The slot that a descriptor names. -/
def slotOf (fd : Int) : Option Nat := if 0 ≤ fd then some fd.toNat else none

@[simp] theorem slotOf_natCast (n : Nat) : slotOf n = some n := by simp [slotOf]

theorem slotOf_of_neg {fd : Int} (hfd : fd < 0) : slotOf fd = none := if_neg (by omega)

theorem slotOf_eq_some {fd : Int} {n : Nat} : slotOf fd = some n ↔ fd = n := by
  unfold slotOf
  split_ifs with hfd
  · rw [Option.some.injEq]
    omega
  · constructor
    · intro hcon
      exact absurd hcon (by simp)
    · omega

/-- `release_fd` has been passed the descriptor, which is now void. -/
theorem returns_releaseFd (fd : Int) : Returns (slotOf fd) (slotOf (-1)) ([fd].filterMap slotOf) :=
  .inr ⟨rfl, by cases h : slotOf fd <;> simp [h]⟩

/-! ### Streams -/

namespace Life

variable {l l' : Life} {h : Coro} {f : FrameId} {op : LifeOp}

/-- What a step does to the slot of a stream, given the answer of `get_available_fd` if it asks. -/
inductive SlotEffect (l l' : Life) : Option (Option Nat) → Prop
  | returns (hfd : Returns (slotOf l.impl.fd) (slotOf l'.impl.fd) (l'.released.filterMap slotOf)) :
    SlotEffect l l' none
  | takes (slot : Option Nat) (hnone : slotOf l.impl.fd = none) (hfd : slotOf l'.impl.fd = slot)
      (hreleased : l'.released = []) : SlotEffect l l' (some slot)

/-- A step that neither gives a slot back nor asks for one. -/
theorem SlotEffect.keep (hrel : l.released = []) (hfd : l'.impl.fd = l.impl.fd)
    (hreleased : l'.released = l.released) : SlotEffect l l' none :=
  .returns (by rw [hreleased, hrel, hfd]; exact .keep _)

/-- A reference that goes may take the slot along. -/
theorem returns_release {o : Option Nat}
    (hl : Returns o (slotOf l.impl.fd) (l.released.filterMap slotOf)) :
    Returns o (slotOf l.release.impl.fd) (l.release.released.filterMap slotOf) := by
  rcases l.release_slot with ⟨hfd, hreleased⟩ | ⟨hfd, hreleased⟩
  · rwa [hfd, hreleased]
  · rw [hfd, hreleased, List.filterMap_append]
    exact hl.trans (returns_releaseFd _)

/-- A completion keeps the slot or gives it back. -/
theorem returns_processed {s' : StreamImpl} {cqe : Cqe} {now p : Nat} {buf : RecvBuffer}
    {x : Option Coro} {slot : Option Int} {q : List Sqe} (hrel : l.released = [])
    (hposts : posts f cqe = true) (hp : processCqe l.impl cqe now p buf f = some (s', x, slot, q)) :
    Returns (slotOf l.impl.fd) (slotOf (l.processed f cqe s' x slot q).impl.fd)
      ((l.processed f cqe s' x slot q).released.filterMap slotOf) := by
  simp only [processed, Life.update, queue, hrel, List.nil_append]
  rcases processCqe_slot hposts hp with ⟨rfl, hfd⟩ | ⟨rfl, hfd⟩
  · rw [hfd]
    exact .keep _
  · rw [hfd]
    exact returns_releaseFd _

/-- A connect asks for a slot if it has no descriptor, and takes it. -/
theorem awaitConnect_slots {slot : Option Nat} {now : Nat} (hrel : l.released = []) :
    SlotEffect l (l.awaitConnect h slot) (l.asks (.await (.op .connect) h slot now)) := by
  unfold awaitConnect
  by_cases hbusy : l.impl.connectBusy = true
  · have hasks : l.asks (.await (.op .connect) h slot now) = none := by simp [asks, hbusy]
    rw [if_pos hbusy, hasks]
    exact .keep hrel rfl rfl
  rw [if_neg hbusy]
  have hsuspend : (l.impl.connectAwaitSuspend slot h).1.fd =
      if 0 ≤ l.impl.fd ∧ l.impl.connected = true then l.impl.fd else l.impl.connectFd slot := by
    simp only [StreamImpl.connectAwaitSuspend, StreamImpl.connectSocket]
    split_ifs <;> rfl
  rcases eq_or_ne l.impl.fd (-1) with hnone | hsome
  · have hasks : l.asks (.await (.op .connect) h slot now) = some slot := by
      simp [asks, hbusy, hnone]
    have hconnectFd : l.impl.connectFd slot = (slot.map Int.ofNat).getD (-1) := if_pos hnone
    rw [hasks]
    cases slot with
    | none =>
      -- the coroutine goes on with an error
      have hrefused : l.impl.connectRefused none = true := by
        simp [StreamImpl.connectRefused, hconnectFd, hnone]
      have hfd : (l.impl.connectRefuse.awaitResume (.op .connect)).fd = l.impl.fd :=
        (l.impl.connectRefuse.awaitResume_keeps _).2.1
      rw [if_pos hrefused]
      exact .takes none (by rw [hnone]; rfl) (by rw [hfd, hnone]; rfl) hrel
    | some n =>
      have hgoes : ¬l.impl.connectRefused (some n) = true := by
        simp [StreamImpl.connectRefused, hconnectFd]
      rw [if_neg hgoes]
      refine .takes (some n) (by rw [hnone]; rfl) ?_ hrel
      simp [suspend, Life.update, queue, hsuspend, hnone, hconnectFd]
  · have hasks : l.asks (.await (.op .connect) h slot now) = none := by simp [asks, hsome]
    have hconnectFd : l.impl.connectFd slot = l.impl.fd := if_neg hsome
    rw [hasks]
    split_ifs with hrefused
    · exact .keep hrel (l.impl.connectRefuse.awaitResume_keeps _).2.1 rfl
    · exact .keep hrel (by simp [suspend, Life.update, queue, hsuspend, hconnectFd]) rfl

/-- `co_await`: nothing but a connect asks for a slot, and nothing gives one back. -/
theorem await_slots {slot : Option Nat} {now : Nat} (hrel : l.released = [])
    (hstep : l.await h slot now f = some l') : SlotEffect l l' (l.asks (.await f h slot now)) := by
  unfold Life.await at hstep
  split at hstep
  case h_2 =>
    obtain rfl := Option.some.inj hstep
    refine .keep hrel ?_ rfl
    simp only [suspend, Life.update, queue, StreamImpl.closeAwaitSuspend,
      StreamImpl.queueTimerCancel]
    split_ifs <;> rfl
  case h_4 =>
    split at hstep
    · obtain rfl := Option.some.inj hstep
      exact .keep hrel rfl rfl
    · rename_i r hr
      obtain rfl := Option.some.inj hstep
      unfold StreamImpl.sendAwaitSuspend at hr
      split_ifs at hr with hbusy
      obtain rfl := Option.some.inj hr
      exact .keep hrel rfl rfl
  case h_5 =>
    obtain rfl := Option.some.inj hstep
    exact awaitConnect_slots hrel
  case h_6 =>
    obtain rfl := Option.some.inj hstep
    unfold awaitRecv
    split_ifs with hready
    · exact .keep hrel (l.impl.awaitResume_keeps _).2.1 rfl
    rcases l.impl.recvAwaitSuspend_cases h now with
      ⟨w, rf, heq, hw, -⟩ | ⟨g, rf, fd, heq, -⟩
    · rw [heq]
      cases w with
      | resume => exact .keep hrel (StreamImpl.awaitResume_keeps _).2.1 rfl
      | arm g => exact absurd rfl (hw g)
      | wait => exact .keep hrel rfl rfl
      | throw e => exact .keep hrel rfl rfl
    · rw [heq]
      exact .keep hrel rfl rfl
  all_goals first
    | (obtain rfl := Option.some.inj hstep; exact .keep hrel rfl rfl)
    | exact absurd hstep (by simp)

/-- **What a step does to the slot of a stream.** -/
theorem step_slots (hrel : l.released = []) (hstep : l.step op = some l') :
    SlotEffect l l' (l.asks op) := by
  cases op with
  | process f cqe now p buf =>
    obtain ⟨-, hposts, s', x, slot, q, hp, rfl⟩ := process_cases hstep
    exact .returns (returns_release (returns_processed hrel hposts hp))
  | await f h slot now =>
    unfold Life.step at hstep
    split_ifs at hstep with hop
    exact await_slots hrel hstep
  | copyHandle | moveHandle | newAwaitable =>
    unfold Life.step at hstep
    split_ifs at hstep with hop
    obtain rfl := Option.some.inj hstep
    exact .keep hrel rfl rfl
  | assignOver =>
    unfold Life.step at hstep
    split_ifs at hstep with hop
    obtain rfl := Option.some.inj hstep
    exact .returns (returns_release (by rw [hrel]; exact .keep _))
  | destroyHandle asClient =>
    unfold Life.step at hstep
    split_ifs at hstep with hop
    obtain rfl := Option.some.inj hstep
    have hfd : (l.impl.handleDestructor asClient).1.fd = l.impl.fd := by
      unfold StreamImpl.handleDestructor StreamImpl.queueTimerCancel
      dsimp only
      split_ifs <;> rfl
    refine .returns (returns_release ?_)
    simp only [Life.update, queue, hrel, hfd]
    exact .keep _
  | dropAwaitable f =>
    unfold Life.step at hstep
    split_ifs at hstep with hop
    obtain rfl := Option.some.inj hstep
    exact .returns (returns_release (by simp only [queue, hrel]; exact .keep _))
  | resume h f =>
    unfold Life.step at hstep
    split_ifs at hstep with hop
    obtain rfl := Option.some.inj hstep
    exact .keep hrel (l.impl.awaitResume_keeps f).2.1 rfl
  | setTimeout ts =>
    unfold Life.step at hstep
    split_ifs at hstep with hop
    obtain rfl := Option.some.inj hstep
    exact .keep hrel rfl rfl
  | setBufferGroup g =>
    unfold Life.step at hstep
    split_ifs at hstep with hop
    simp only [perform, Option.bind_eq_bind, Option.bind_eq_some_iff] at hstep
    obtain ⟨rf, -, heq⟩ := hstep
    obtain rfl := Option.some.inj heq
    exact .keep hrel rfl rfl

end Life

/-! ### Acceptors -/

namespace AcceptorLife

variable {l l' : AcceptorLife} {h : Coro} {a : AcceptorAwait} {f : AcceptorFrame} {op : AcceptorOp}
  {n : Nat}

/-- What holds of every acceptor, when `n` references are about to go. -/
structure Sound (n : Nat) (l : AcceptorLife) : Prop where
  count : l.impl.count = l.users + l.inFlight.length + n
  held : ∀ a, (l.suspended.map Prod.snd).count a ≤ l.awaitables.count a
  /-- Somebody waits for the accept in progress. -/
  waiting : l.impl.accept.initiated = true → ∃ p ∈ l.suspended, p.2.accepts = true
  peer : 0 ≤ l.impl.accept.peerFd → l.impl.accept.initiated = true
  gone : l.impl.count = 0 → l.impl.fd < 0

theorem sound_new (off : Nat) : Sound 0 (new off) where
  count := rfl
  held := by simp [new]
  waiting := by simp [new, AcceptorImpl.new, AcceptorImpl.addRef, AcceptFrame.idle]
  peer := by simp [new, AcceptorImpl.new, AcceptorImpl.addRef, AcceptFrame.idle]
  gone := by simp [new, AcceptorImpl.new, AcceptorImpl.addRef]

/-- What a step does to the slots of an acceptor, given the answer of `get_available_fd` if it asks
and what it hands to a coroutine. -/
inductive SlotEffect (l l' : AcceptorLife) : Option (Option Nat) → Accepted → Prop
  | returns (given given' : List Nat) (hgiven : l'.released.filterMap slotOf = given ++ given')
    (hpeer : Returns (slotOf l.impl.accept.peerFd) (slotOf l'.impl.accept.peerFd) given)
    (hfd : Returns (slotOf l.impl.fd) (slotOf l'.impl.fd) given') : SlotEffect l l' none .nothing
  | refused (hsame : l' = l) : SlotEffect l l' (some none) .nothing
  | takes (n : Nat) (hnone : slotOf l.impl.accept.peerFd = none)
    (hpeer : slotOf l'.impl.accept.peerFd = some n) (hfd : l'.impl.fd = l.impl.fd)
    (hreleased : l'.released = []) : SlotEffect l l' (some (some n)) .nothing
  | hands (x : Accepted) (hx : x = .connection l.impl.accept.peerFd ∨ x = .raw l.impl.accept.peerFd)
    (hsome : 0 ≤ l.impl.accept.peerFd) (hpeer : slotOf l'.impl.accept.peerFd = none)
    (hfd : l'.impl.fd = l.impl.fd) (hreleased : l'.released = []) : SlotEffect l l' none x

/-- A step that has nothing to do with slots. -/
theorem SlotEffect.keep (hrel : l.released = [])
    (hpeer : l'.impl.accept.peerFd = l.impl.accept.peerFd) (hfd : l'.impl.fd = l.impl.fd)
    (hreleased : l'.released = l.released) : SlotEffect l l' none .nothing := by
  refine .returns [] [] (by rw [hreleased, hrel]; rfl) ?_ ?_
  · rw [hpeer]
    exact .keep _
  · rw [hfd]
    exact .keep _

/-- A reference that goes takes the descriptor along or leaves it. -/
theorem release_slot :
    l.release.impl.accept = l.impl.accept ∧
      (l.release.impl.fd = l.impl.fd ∧ l.release.released = l.released ∨
        l.release.impl.fd = -1 ∧ l.release.released = l.released ++ [l.impl.fd]) := by
  unfold AcceptorLife.release AcceptorImpl.release AcceptorImpl.destructor
  dsimp only
  split_ifs with hzero hfd <;> simp

theorem Sound.release (hl : Sound (n + 1) l) : Sound n l.release := by
  have hcount : l.release.impl.count = l.impl.count - 1 := by
    unfold AcceptorLife.release AcceptorImpl.release AcceptorImpl.destructor
    dsimp only
    split_ifs <;> rfl
  obtain ⟨haccept, -⟩ := l.release_slot
  refine ⟨?_, hl.held, ?_, ?_, ?_⟩
  · have hbefore := hl.count
    rw [hcount, hbefore]
    simp only [AcceptorLife.release, users]
    omega
  · rw [haccept]
    exact hl.waiting
  · rw [haccept]
    exact hl.peer
  · unfold AcceptorLife.release AcceptorImpl.release AcceptorImpl.destructor
    dsimp only
    split_ifs with hzero hfd
    · simp
    · exact fun _ => by simpa using hfd
    · exact fun hcon => absurd hcon hzero

/-- A reference that goes may take the descriptor along. -/
theorem SlotEffect.release {x : AcceptorLife} {given given' : List Nat}
    (hgiven : x.released.filterMap slotOf = given ++ given')
    (hpeer : Returns (slotOf l.impl.accept.peerFd) (slotOf x.impl.accept.peerFd) given)
    (hfd : Returns (slotOf l.impl.fd) (slotOf x.impl.fd) given') :
    SlotEffect l x.release none .nothing := by
  obtain ⟨haccept, hslot⟩ := x.release_slot
  rcases hslot with ⟨hsame, hreleased⟩ | ⟨hnone, hreleased⟩
  · exact .returns given given' (by rw [hreleased, hgiven]) (by rwa [haccept]) (by rwa [hsame])
  · refine .returns given (given' ++ [x.impl.fd].filterMap slotOf) ?_ (by rwa [haccept]) ?_
    · rw [hreleased, List.filterMap_append, hgiven, List.append_assoc]
    · rw [hnone]
      exact hfd.trans (returns_releaseFd _)

/-- A completion gives back the slot of an accept that failed, or the descriptor that is closed. -/
theorem processed_slots (hrel : l.released = []) (f : AcceptorFrame) (res : Int) :
    ∃ given given', (l.processed f res).released.filterMap slotOf = given ++ given' ∧
      Returns (slotOf l.impl.accept.peerFd) (slotOf (l.processed f res).impl.accept.peerFd) given ∧
      Returns (slotOf l.impl.fd) (slotOf (l.processed f res).impl.fd) given' := by
  cases f with
  | accept =>
    rcases lt_or_ge res 0 with hres | hres
    · refine ⟨[l.impl.accept.peerFd].filterMap slotOf, [], ?_, ?_, ?_⟩
      · simp [processed, AcceptorImpl.awaitProcessCqe, AcceptorImpl.acceptAwaitProcessCqe,
          hres, hrel]
      · have hnone : slotOf (l.processed .accept res).impl.accept.peerFd = slotOf (-1) := by
          simp [processed, AcceptorImpl.awaitProcessCqe, AcceptorImpl.acceptAwaitProcessCqe,
            AcceptorImpl.handle, hres, slotOf_of_neg]
        rw [hnone]
        exact returns_releaseFd _
      · have hsame : (l.processed .accept res).impl.fd = l.impl.fd := by
          simp [processed, AcceptorImpl.awaitProcessCqe, AcceptorImpl.acceptAwaitProcessCqe,
            AcceptorImpl.handle, hres]
        rw [hsame]
        exact .keep _
    · have hdone : l.impl.awaitProcessCqe res .accept =
          ({ l.impl with accept := { l.impl.accept with done := true } }, none) := by
        simp [AcceptorImpl.awaitProcessCqe, AcceptorImpl.acceptAwaitProcessCqe, not_lt.mpr hres]
      refine ⟨[], [], ?_, ?_, ?_⟩
      · simp [processed, hdone, hrel]
      · simpa [processed, hdone, AcceptorImpl.handle] using Returns.keep _
      · simpa [processed, hdone, AcceptorImpl.handle] using Returns.keep _
  | cancel =>
    exact ⟨[], [], by simp [processed, AcceptorImpl.awaitProcessCqe, hrel], .keep _, .keep _⟩
  | close =>
    refine ⟨[], [l.impl.fd].filterMap slotOf, ?_, .keep _, returns_releaseFd _⟩
    simp [processed, AcceptorImpl.awaitProcessCqe, AcceptorImpl.closeAwaitProcessCqe, hrel]

/-- `co_await`: an accept asks for a slot, and takes it while it has none. -/
theorem await_slots (hl : Sound 0 l) (hrel : l.released = []) (slot : Option Nat) :
    SlotEffect l (l.await a h slot) (l.asks (.await a h slot)) .nothing := by
  cases ha : a.accepts with
  | false =>
    have hasks : l.asks (.await a h slot) = none := by simp [asks, ha]
    rw [hasks]
    cases a with
    | accept | acceptRaw => exact absurd ha (by decide)
    | cancel => exact .keep hrel rfl rfl rfl
    | close =>
      unfold await AcceptorImpl.awaitSuspend AcceptorImpl.closeAwaitSuspend
      by_cases hfd : l.impl.fd < 0
      · simpa only [hfd, if_true] using SlotEffect.keep hrel rfl rfl rfl
      · simp only [hfd, if_false]
        exact .keep hrel rfl rfl rfl
  | true =>
    have hsuspend : l.impl.awaitSuspend h slot a = l.impl.acceptAwaitSuspend h slot := by
      cases a with
      | accept | acceptRaw => rfl
      | cancel | close => exact absurd ha (by decide)
    cases hbusy : l.impl.accept.initiated with
    | true =>
      have hasks : l.asks (.await a h slot) = none := by simp [asks, hbusy]
      have hsame : l.await a h slot = l := by
        simp [await, hsuspend, AcceptorImpl.acceptAwaitSuspend, hbusy]
      rw [hasks, hsame]
      exact .keep hrel rfl rfl rfl
    | false =>
      have hasks : l.asks (.await a h slot) = some slot := by simp [asks, ha, hbusy]
      rw [hasks]
      cases slot with
      | none =>
        exact .refused (by simp [await, hsuspend, AcceptorImpl.acceptAwaitSuspend, hbusy])
      | some n =>
        have hpeer : l.impl.accept.peerFd < 0 := by
          by_contra hcon
          exact absurd (hl.peer (by omega)) (by simp [hbusy])
        refine .takes n (slotOf_of_neg hpeer) ?_ ?_ ?_ <;>
          simp [await, hsuspend, AcceptorImpl.acceptAwaitSuspend, hbusy, AcceptorImpl.addRef,
            queue, hrel]

/-- A coroutine that is resumed is handed the slot of its accept, if that has one still. -/
theorem resume_slots (hrel : l.released = []) (h : Coro) (a : AcceptorAwait) :
    SlotEffect l (l.perform (.resume h a)) none (l.accepted (.resume h a)) := by
  have hnone {l' : AcceptorLife} (hpeer : ¬0 ≤ l.impl.accept.peerFd)
      (haccept : l'.impl.accept = .idle) (hfd : l'.impl.fd = l.impl.fd)
      (hreleased : l'.released = []) : SlotEffect l l' none .nothing := by
    refine .returns [] [] (by rw [hreleased]; rfl) ?_ ?_
    · rw [haccept, slotOf_of_neg (by omega)]
      exact .keep _
    · rw [hfd]
      exact .keep _
  cases a with
  | cancel | close => exact .keep hrel rfl rfl rfl
  | accept =>
    unfold accepted
    split_ifs with hpeer
    · exact .hands _ (.inl rfl) hpeer rfl rfl hrel
    · exact hnone hpeer rfl rfl hrel
  | acceptRaw =>
    unfold accepted
    split_ifs with hpeer
    · exact .hands _ (.inr rfl) hpeer rfl rfl hrel
    · exact hnone hpeer rfl rfl hrel

/-- **What a step does to the slots of an acceptor.** -/
theorem step_slots (hl : Sound 0 l) (hrel : l.released = []) (hstep : l.step op = some l') :
    SlotEffect l l' (l.asks op) (l.accepted op) := by
  unfold AcceptorLife.step at hstep
  split_ifs at hstep with hop
  obtain rfl := Option.some.inj hstep
  have hnothing : l.released.filterMap slotOf = [] ++ [] := by rw [hrel]; rfl
  cases op with
  | copyHandle | newAwaitable _ => exact .keep hrel rfl rfl rfl
  | dropHandle | dropAwaitable _ => exact .release hnothing (.keep _) (.keep _)
  | await a h slot => exact await_slots hl hrel slot
  | process f res =>
    obtain ⟨given, given', hgiven, hpeer, hfd⟩ := processed_slots hrel f res
    exact .release hgiven hpeer hfd
  | resume h a => exact resume_slots hrel h a

/-! ### What holds of every acceptor -/

/-- A completion leaves the accept as it was, apart from a slot that is given back. -/
theorem Sound.processed (hl : Sound 0 l) (hin : f ∈ l.inFlight) (res : Int) :
    Sound 1 (l.processed f res) := by
  have hlen := List.length_erase_of_mem hin
  have hpos := List.length_pos_of_mem hin
  have hcount := hl.count
  simp only [users] at hcount
  have hcount' : (l.processed f res).impl.count = l.impl.count := by
    cases f <;> simp only [AcceptorLife.processed, AcceptorImpl.awaitProcessCqe,
      AcceptorImpl.acceptAwaitProcessCqe] <;> (try split_ifs) <;> rfl
  have hinit : (l.processed f res).impl.accept.initiated = l.impl.accept.initiated := by
    cases f <;> simp only [AcceptorLife.processed, AcceptorImpl.awaitProcessCqe,
      AcceptorImpl.acceptAwaitProcessCqe] <;> (try split_ifs) <;> rfl
  have hpeer : (l.processed f res).impl.accept.peerFd = l.impl.accept.peerFd ∨
      (l.processed f res).impl.accept.peerFd < 0 := by
    cases f with
    | cancel | close => exact .inl rfl
    | accept =>
      rcases lt_or_ge res 0 with hres | hres
      · refine .inr ?_
        simp [AcceptorLife.processed, AcceptorImpl.awaitProcessCqe,
          AcceptorImpl.acceptAwaitProcessCqe, AcceptorImpl.handle, hres]
      · refine .inl ?_
        simp [AcceptorLife.processed, AcceptorImpl.awaitProcessCqe,
          AcceptorImpl.acceptAwaitProcessCqe, AcceptorImpl.handle, not_lt.mpr hres]
  refine ⟨?_, hl.held, fun h => hl.waiting (hinit ▸ h), fun h => ?_, fun hzero => ?_⟩
  · rw [hcount']
    simp only [AcceptorLife.processed, users, hlen]
    omega
  · rw [hinit]
    exact hl.peer (by omega)
  · rw [hcount'] at hzero
    omega

/-- An `await_suspend` throws, or queues one request that will be completed; an accept is then
in progress, and the others leave it alone. -/
theorem awaitSuspend_cases (s : AcceptorImpl) (h : Coro) (slot : Option Nat) (a : AcceptorAwait) :
    (∃ e, s.awaitSuspend h slot a = .error e) ∨
      ∃ s' q, s.awaitSuspend h slot a = .ok (s', q) ∧ s'.count = s.count + 1 ∧
        (q.filterMap AcceptorSqe.frame).length = 1 ∧
        (s'.accept = s.accept ∨ a.accepts = true ∧ s'.accept.initiated = true) := by
  have haccept : (∃ e, s.acceptAwaitSuspend h slot = .error e) ∨
      ∃ s' q, s.acceptAwaitSuspend h slot = .ok (s', q) ∧ s'.count = s.count + 1 ∧
        (q.filterMap AcceptorSqe.frame).length = 1 ∧ s'.accept.initiated = true := by
    unfold AcceptorImpl.acceptAwaitSuspend
    split_ifs with hbusy
    · exact .inl ⟨_, rfl⟩
    · cases slot with
      | none => exact .inl ⟨_, rfl⟩
      | some n => exact .inr ⟨_, _, rfl, rfl, rfl, rfl⟩
  cases a with
  | accept | acceptRaw =>
    rcases haccept with herror | ⟨s', q, hok, hcount, hlen, hinit⟩
    · exact .inl herror
    · exact .inr ⟨s', q, hok, hcount, hlen, .inr ⟨rfl, hinit⟩⟩
  | cancel => exact .inr ⟨_, _, rfl, rfl, rfl, .inl rfl⟩
  | close =>
    unfold AcceptorImpl.awaitSuspend AcceptorImpl.closeAwaitSuspend
    by_cases hfd : s.fd < 0
    · exact .inl ⟨Errno.EBADFD, by simp [hfd]⟩
    · exact .inr ⟨_, _, if_neg hfd, rfl, rfl, .inl rfl⟩

theorem Sound.await (hl : Sound 0 l) (slot : Option Nat)
    (hfree : (l.suspended.map Prod.snd).count a < l.awaitables.count a) :
    Sound 0 (l.await a h slot) := by
  rcases awaitSuspend_cases l.impl h slot a with ⟨e, herror⟩ | ⟨s', q, hok, hcount, hlen, haccept⟩
  · have hsame : l.await a h slot = l := by simp [AcceptorLife.await, herror]
    rwa [hsame]
  have hnew : l.await a h slot =
      { l with impl := s', suspended := (h, a) :: l.suspended }.queue q := by
    simp [AcceptorLife.await, hok]
  have hbefore := hl.count
  simp only [users] at hbefore
  rw [hnew]
  refine ⟨?_, fun b => ?_, fun hinit => ?_, fun hpeer => ?_, fun hcon => ?_⟩
  · simp only [queue, users, List.length_append, hlen, hcount]
    omega
  · have hb := hl.held b
    rcases eq_or_ne b a with rfl | hne
    · simpa [queue] using Nat.succ_le_of_lt hfree
    · simpa [queue, List.count_cons_of_ne hne.symm] using hb
  · rcases haccept with hsame | ⟨haccepts, -⟩
    · obtain ⟨p, hp, hwaits⟩ := hl.waiting (hsame ▸ hinit)
      exact ⟨p, List.mem_cons_of_mem _ hp, hwaits⟩
    · exact ⟨(h, a), List.mem_cons_self, haccepts⟩
  · rcases haccept with hsame | ⟨-, hinit⟩
    · simp only [queue, hsame] at hpeer ⊢
      exact hl.peer hpeer
    · exact hinit
  · simp only [queue, hcount] at hcon
    omega

theorem Sound.resume (hl : Sound 0 l) (hzero : l.impl.count ≠ 0) (h : Coro) (a : AcceptorAwait) :
    Sound 0 (l.perform (.resume h a)) := by
  have hcount : (l.impl.awaitResume a).count = l.impl.count := by cases a <;> rfl
  have haccept : (l.impl.awaitResume a).accept = l.impl.accept ∧ a.accepts = false ∨
      (l.impl.awaitResume a).accept = .idle := by
    cases a with
    | accept | acceptRaw => exact .inr rfl
    | cancel | close => exact .inl ⟨rfl, rfl⟩
  refine ⟨hcount.trans hl.count, fun b => ?_, fun hinit => ?_, fun hpeer => ?_, fun hcon => ?_⟩
  · have hsub : ((l.suspended.erase (h, a)).map Prod.snd).Sublist (l.suspended.map Prod.snd) :=
      List.erase_sublist.map _
    exact (hsub.count_le b).trans (hl.held b)
  · rcases haccept with ⟨hsame, hother⟩ | hidle
    · obtain ⟨p, hp, hwaits⟩ := hl.waiting (hsame ▸ hinit)
      refine ⟨p, (List.mem_erase_of_ne ?_).mpr hp, hwaits⟩
      rintro rfl
      simp [hother] at hwaits
    · simp [perform, hidle, AcceptFrame.idle] at hinit
  · rcases haccept with ⟨hsame, -⟩ | hidle
    · simp only [perform, hsame] at hpeer ⊢
      exact hl.peer hpeer
    · simp [perform, hidle, AcceptFrame.idle] at hpeer
  · exact absurd (hcount.symm.trans hcon) hzero

/-- **What holds of every acceptor** is kept by every step. -/
theorem Sound.step (hl : Sound 0 l) (hstep : l.step op = some l') : Sound 0 l' := by
  unfold AcceptorLife.step at hstep
  split_ifs at hstep with hop
  obtain rfl := Option.some.inj hstep
  obtain ⟨hzero, hallows⟩ := hop
  have hcount := hl.count
  simp only [users] at hcount
  cases op with
  | copyHandle =>
    refine ⟨?_, hl.held, hl.waiting, hl.peer, fun hcon => ?_⟩
    · simp only [perform, AcceptorImpl.addRef, users]
      omega
    · simp only [perform, AcceptorImpl.addRef] at hcon
      omega
  | dropHandle =>
    have hpos : 0 < l.handles := by simpa [allows] using hallows
    refine Sound.release ⟨?_, hl.held, hl.waiting, hl.peer, hl.gone⟩
    simp only [users]
    omega
  | newAwaitable a =>
    refine ⟨?_, fun b => ?_, hl.waiting, hl.peer, fun hcon => ?_⟩
    · simp only [perform, AcceptorImpl.addRef, users, List.length_cons]
      omega
    · have hb := hl.held b
      have hcons := List.count_le_count_cons (a := b) (b := a) (l := l.awaitables)
      exact hb.trans hcons
    · simp only [perform, AcceptorImpl.addRef] at hcon
      omega
  | dropAwaitable a =>
    have hfree : (l.suspended.map Prod.snd).count a < l.awaitables.count a := by
      simpa [allows] using hallows
    have hmem : a ∈ l.awaitables := List.count_pos_iff.mp (by omega)
    have hqueue : (l.impl.awaitableDestructor a).filterMap AcceptorSqe.frame = [] := by
      unfold AcceptorImpl.awaitableDestructor AcceptorImpl.acceptAwaitableDestructor
      split <;> (try split_ifs) <;> rfl
    refine Sound.release ⟨?_, fun b => ?_, hl.waiting, hl.peer, hl.gone⟩
    · have hlen := List.length_erase_of_mem hmem
      have hpos := List.length_pos_of_mem hmem
      simp only [queue, hqueue, List.append_nil, users, hlen]
      omega
    · have hb := hl.held b
      rcases eq_or_ne b a with rfl | hne
      · simp only [queue, List.count_erase_self]
        omega
      · simpa only [queue, List.count_erase_of_ne hne] using hb
  | await a h slot =>
    simp only [allows, Bool.and_eq_true, decide_eq_true_eq] at hallows
    exact hl.await slot hallows.2
  | process f res => exact (hl.processed (by simpa [allows] using hallows) res).release
  | resume h a => exact hl.resume hzero h a

end AcceptorLife

end Fiona
