import Fiona.Stream.Counting

/-!
# Reference accounting

The destructors of the handles decide whether they are the last by subtracting from the
counter one for each frame that is active. That is right as long as the flags of all nine
frames say what the kernel has (`Fiona.Life.Regular`), and it is so in just those
histories in which nobody starts an operation whose frame is in use, and no frame is
reset that a completion is still to come for (`Fiona.Life.Alone`): a second request in one
frame has a reference, but no flag of its own.
-/

namespace Fiona

open Transition

namespace StreamImpl

theorem mem_clientFrames (f : FrameId) : f ∈ clientFrames := by
  rcases f with (_ | _ | _ | _ | _ | _) | _ | _ | _ <;> decide

theorem mem_streamFrames {f : FrameId} (hsocket : f ≠ .op .socket) (hconnect : f ≠ .op .connect) :
    f ∈ streamFrames := by
  have hmem := mem_clientFrames f
  simpa [clientFrames, hsocket, hconnect] using hmem

/-- The two tests differ by the frames of a connect. -/
theorem useCount_streamFrames (s : StreamImpl) :
    s.useCount streamFrames = s.useCount clientFrames + (s.isActive (.op .socket)).toNat +
      (s.isActive (.op .connect)).toNat := by
  simp only [useCount, clientFrames, List.countP_append, List.countP_cons, List.countP_nil]
  cases s.isActive (.op .socket) <;> cases s.isActive (.op .connect) <;> simp <;> omega

/-- The frames that an `await_resume` resets. -/
def resets : FrameId → List FrameId
  | .op .connect => [.op .socket, .op .connect]
  | .op o => [.op o]
  | _ => []

theorem awaitResume_frame (s : StreamImpl) (f : FrameId) (o : Op) :
    (s.awaitResume f).frame o = if .op o ∈ resets f then .idle else s.frame o := by
  cases f with
  | op o' =>
    cases o' <;> try simp [awaitResume, resets, setFrame, OpFrame.reset, Function.update_apply]
    unfold connectAwaitResume
    dsimp only
    by_cases hconnect : o = .connect <;> by_cases hsocket : o = .socket <;> split_ifs <;>
      simp_all [setFrame, OpFrame.reset]
  | recv => simp [awaitResume, recvAwaitResume, resets]
  | _ => simp [awaitResume, resets]

/-- A frame that is reset is not active any more. -/
theorem awaitResume_isActive (s : StreamImpl) (f g : FrameId) :
    (s.awaitResume f).isActive g = (s.isActive g && !decide (g ∈ resets f)) := by
  obtain ⟨-, -, htimeout, hcancel, hrecv, -⟩ := s.awaitResume_keeps f
  have hop : ∀ g, (∀ o, g ≠ .op o) → g ∉ resets f := by
    intro g hg hmem
    unfold resets at hmem
    split at hmem <;> simp_all
  cases g with
  | op o =>
    simp only [isActive, awaitResume_frame]
    by_cases hmem : .op o ∈ resets f <;> simp [hmem, OpFrame.idle, OpFrame.isActive]
  | recv => simpa [isActive, hop .recv, RecvFrame.isActive] using hrecv
  | timeout => simp [isActive, htimeout, hop .timeout]
  | timeoutCancel => simp [isActive, hcancel, hop .timeoutCancel]

/-- A connect that is refused leaves the frames as if there had been an answer. -/
theorem connectRefuse_awaitResume (s : StreamImpl) :
    (s.connectRefuse.awaitResume (.op .connect)).frame = (s.awaitResume (.op .connect)).frame ∧
      (s.connectRefuse.awaitResume (.op .connect)).isActive =
        (s.awaitResume (.op .connect)).isActive := by
  have hactive : s.connectRefuse.isActive = s.isActive :=
    (isActive_setFrame ..).trans (Function.update_eq_self ..)
  constructor
  · funext o
    rw [awaitResume_frame, awaitResume_frame]
    split_ifs with hmem
    · rfl
    · have hne : o ≠ .socket := fun heq => hmem (by simp [resets, heq])
      simp [connectRefuse, setFrame, hne]
  · funext g
    rw [awaitResume_isActive, awaitResume_isActive, hactive]

/-- The cancels that a destructor queues leave the flags alone. -/
theorem handleDestructor_keeps (s : StreamImpl) (client : Bool) :
    (s.handleDestructor client).1.frame = s.frame ∧
      (s.handleDestructor client).1.isActive = s.isActive ∧
      requests (s.handleDestructor client).2 = [] := by
  unfold handleDestructor queueTimerCancel
  split_ifs with hlast hinit
  · refine ⟨rfl, ?_, by simp [cancelRecv_requests]⟩
    exact (isActive_timeout (s := s) _).trans (Function.update_eq_self ..)
  · exact ⟨rfl, rfl, by simp [cancelRecv_requests]⟩
  · exact ⟨rfl, rfl, rfl⟩

end StreamImpl

namespace Life

open StreamImpl (resets)

variable {l l' : Life} {h : Coro} {f : FrameId} {o : Op}

/-- **The accounting of a handle's destructor**: the use count is the number of references of
the user's side, the test for the last one is right, and what is asserted holds. -/
structure Accounted (l : Life) : Prop where
  useCount : l.impl.useCount l.frames = l.users
  last : 0 < l.handles → ∀ asClient : Bool, (asClient = true → l.client = true) →
    (l.impl.isLast asClient = true ↔ l.users = 1)
  positive : 0 < l.handles → 0 < l.impl.useCount StreamImpl.streamFrames ∧
    (l.client = true → 0 < l.impl.useCount StreamImpl.clientFrames)

/-- An operation is not started in a frame that is in use; a connect that is refused resets
its frames at once. -/
def Free (l : Life) (slot : Option Nat) : FrameId → Prop
  | .op .connect => l.impl.connectBusy = true ∨
      if l.impl.connectRefused slot then l.impl.isActive (.op .connect) = false
      else (l.impl.frame .connect).initiated = false
  | .op .send => True
  | .op o => (l.impl.frame o).initiated = false
  | _ => True

/-- The frame of an operation is left alone while a completion of it is still to come or to be
taken note of. -/
def Alone (l : Life) : LifeOp → Prop
  | .await f _ slot _ => l.Free slot f
  | .process .timeout cqe now _ _ =>
    l.impl.tickCancels cqe now = true → l.impl.timeoutCancel.initiated = false
  | .resume _ f => ∀ g ∈ resets f, l.impl.isActive g = false
  | _ => True

instance (l : Life) (slot : Option Nat) : DecidablePred (l.Free slot)
  | .op .connect => inferInstanceAs (Decidable (_ ∨ ite _ _ _))
  | .op .cancel | .op .close | .op .shutdown | .op .socket =>
    inferInstanceAs (Decidable (_ = false))
  | .op .send | .recv | .timeout | .timeoutCancel => inferInstanceAs (Decidable True)

instance (l : Life) : DecidablePred l.Alone
  | .await f _ slot _ => inferInstanceAs (Decidable (l.Free slot f))
  | .process .timeout _ _ _ _ => inferInstanceAs (Decidable (_ → _))
  | .resume _ f => inferInstanceAs (Decidable (∀ g ∈ resets f, l.impl.isActive g = false))
  | .copyHandle | .moveHandle | .assignOver | .destroyHandle _ | .newAwaitable _ | .dropAwaitable _
  | .process (.op _) _ _ _ _ | .process .recv _ _ _ _ | .process .timeoutCancel _ _ _ _
  | .setTimeout _ | .setBufferGroup _ => inferInstanceAs (Decidable True)

/-! ### The flags say what the kernel has -/

/-- Every flag is right. Only a client connects, and while it does its coroutine waits. -/
structure Regular (l : Life) : Prop where
  flags : Flags.Synced Set.univ l.impl.isActive l.inFlight
  clean : ∀ o, (l.impl.frame o).initiated = false → (l.impl.frame o).done = false
  stream : l.client = false → (l.impl.frame .socket).initiated = false ∧
    (l.impl.frame .connect).initiated = false
  waits : l.impl.isActive (.op .socket) = true ∨ l.impl.isActive (.op .connect) = true →
    ∃ h, (h, .op .connect) ∈ l.suspended

theorem regular_new (client : Bool) (fd : Int) (now : Nat) : Regular (new client fd now) := by
  refine ⟨fun i _ => ?_, fun _ _ => rfl, fun _ => ⟨rfl, rfl⟩, ?_⟩
  · cases i <;> rfl
  · rintro (hactive | hactive) <;> exact Bool.noConfusion hactive

theorem nodup_frames : l.frames.Nodup := by
  unfold frames
  split_ifs <;> decide

theorem Regular.mem_frames (hl : Regular l) (hf : l.impl.isActive f = true) : f ∈ l.frames := by
  unfold frames
  split_ifs with hclient
  · exact StreamImpl.mem_clientFrames f
  · obtain ⟨hsocket, hconnect⟩ := hl.stream (by simpa using hclient)
    refine StreamImpl.mem_streamFrames ?_ ?_
    · rintro rfl
      simp [StreamImpl.isActive, OpFrame.isActive, hsocket] at hf
    · rintro rfl
      simp [StreamImpl.isActive, OpFrame.isActive, hconnect] at hf

/-- **Right flags make the accounting right.** -/
theorem Regular.accounted (hl : Regular l) (hcount : Counted 0 l) : Accounted l := by
  have huse : l.impl.useCount l.frames = l.users := by
    have := hl.flags.countP_eq_length nodup_frames fun _ hf => hl.mem_frames hf
    have := hcount.count
    simp only [StreamImpl.useCount] at *
    omega
  have hboth := l.impl.useCount_streamFrames
  -- both tests look at the same number unless a connect is on its way
  have hclient : l.impl.useCount StreamImpl.clientFrames = l.users := by
    cases hc : l.client with
    | true => simpa [frames, hc] using huse
    | false =>
      obtain ⟨hsocket, hconnect⟩ := hl.stream hc
      simp only [frames, hc, StreamImpl.isActive, OpFrame.isActive, hsocket, hconnect] at huse hboth
      simpa [hboth] using huse
  have hone : 0 < l.handles → l.users = 1 → l.impl.useCount StreamImpl.streamFrames = 1 := by
    intro hpos husers
    have hidle :
        ¬(l.impl.isActive (.op .socket) = true ∨ l.impl.isActive (.op .connect) = true) := by
      intro hactive
      obtain ⟨h, hmem⟩ := hl.waits hactive
      have hheld := hcount.held (.op .connect)
      have : 0 < (l.suspended.map Prod.snd).count (.op .connect) :=
        List.count_pos_iff.mpr (List.mem_map_of_mem (f := Prod.snd) hmem)
      have hawait : .op .connect ∈ l.awaitables := List.count_pos_iff.mp (by omega)
      have := List.length_pos_of_mem hawait
      simp only [users] at husers
      omega
    simp only [not_or, Bool.not_eq_true] at hidle
    rw [hboth, hidle.1, hidle.2, hclient, husers]
    rfl
  refine ⟨huse, fun hpos asClient _ => ⟨fun hlast => ?_, fun husers => ?_⟩,
    fun hpos => ⟨?_, fun _ => ?_⟩⟩
  · simp only [StreamImpl.isLast, Bool.or_eq_true, Bool.and_eq_true, decide_eq_true_eq] at hlast
    simp only [users] at *
    omega
  · simp [StreamImpl.isLast, hone hpos husers]
  · simp only [users] at *
    omega
  · simp only [users] at *
    omega

/-! ### Calls that meet the condition -/

/-- What happens outside the object, and what leaves its flags alone. -/
theorem Regular.congr (hl : Regular l) (hframe : l'.impl.frame = l.impl.frame)
    (hactive : l'.impl.isActive = l.impl.isActive) (hout : l'.inFlight = l.inFlight)
    (hclient : l'.client = l.client)
    (hsuspended : ∀ h, (h, .op .connect) ∈ l.suspended → (h, .op .connect) ∈ l'.suspended) :
    Regular l' := by
  refine ⟨?_, ?_, ?_, ?_⟩
  · rw [hactive, hout]
    exact hl.flags
  · rw [hframe]
    exact hl.clean
  · rw [hclient, hframe]
    exact hl.stream
  · rw [hactive]
    intro hconnect
    obtain ⟨h, hmem⟩ := hl.waits hconnect
    exact ⟨h, hsuspended h hmem⟩

theorem Regular.wait (hl : Regular l) : Regular { l with suspended := (h, f) :: l.suspended } :=
  hl.congr rfl rfl rfl rfl fun _ hmem => List.mem_cons_of_mem _ hmem

theorem Regular.release (hl : Regular l) : Regular l.release := by
  obtain ⟨-, hactive, -, hframe, -⟩ := l.impl.release_keeps
  exact hl.congr hframe hactive rfl rfl fun _ => id

/-- An operation whose frame is not in use is started; only a client asks for a socket and
connects, and then a coroutine waits. -/
theorem Regular.start {r : StreamImpl × List Sqe} (hl : Regular l) (hr : l.impl.Starts o h r)
    (hidle : (l.impl.frame o).initiated = false)
    (hconnect : o = .socket ∨ o = .connect →
      l.client = true ∧ ∃ h, (h, .op .connect) ∈ l.suspended) : Regular (l.update r) := by
  have hactive : r.1.isActive = Function.update l.impl.isActive (.op o) true := by
    rw [hr.isActive, hl.clean o hidle]
    rfl
  have hframe : (l.update r).impl.frame = _ := hr.frame
  refine ⟨?_, fun o' => ?_, fun hclient => ?_, fun hup => ?_⟩
  · have hraise := hl.flags.raise (i := .op o) fun _ => by
      simp [StreamImpl.isActive, OpFrame.isActive, hidle]
    simpa only [Life.update, queue, hactive, hr.requests] using hraise
  · rw [hframe]
    rcases eq_or_ne o' o with rfl | hne
    · simp [OpFrame.start]
    · simpa [hne] using hl.clean o'
  · rw [hframe]
    have hstream : l.client = false := hclient
    obtain ⟨hsocket, hconn⟩ := hl.stream hstream
    have hne : ¬(o = .socket ∨ o = .connect) := fun hcon => by simpa [hstream] using hconnect hcon
    simp only [not_or] at hne
    rw [Function.update_of_ne (Ne.symm hne.1), Function.update_of_ne (Ne.symm hne.2)]
    exact ⟨hsocket, hconn⟩
  · by_cases hcon : o = .socket ∨ o = .connect
    · exact (hconnect hcon).2
    · simp only [not_or] at hcon
      refine hl.waits ?_
      simpa [Life.update, queue, hactive, Function.update_of_ne, Ne.symm hcon.1,
        Ne.symm hcon.2] using hup

/-- `await_resume`, where none of the frames it resets is active. -/
theorem Regular.awaitResume (hl : Regular l) (hidle : ∀ g ∈ resets f, l.impl.isActive g = false) :
    Regular { l with impl := l.impl.awaitResume f } := by
  have hactive : (l.impl.awaitResume f).isActive = l.impl.isActive := by
    funext g
    rw [StreamImpl.awaitResume_isActive]
    by_cases hmem : g ∈ resets f <;> simp [hmem, hidle]
  have hreset : ∀ o, (l.impl.frame o).initiated = false →
      ((l.impl.awaitResume f).frame o).initiated = false := by
    intro o hinit
    rw [StreamImpl.awaitResume_frame]
    split_ifs
    · rfl
    · exact hinit
  refine ⟨?_, fun o => ?_, fun hclient => ?_, fun hup => hl.waits (hactive ▸ hup)⟩
  · simpa only [hactive] using hl.flags
  · simp only [StreamImpl.awaitResume_frame]
    split_ifs
    · exact fun _ => rfl
    · exact hl.clean o
  · exact ⟨hreset _ (hl.stream hclient).1, hreset _ (hl.stream hclient).2⟩

theorem Regular.awaitConnect (hl : Regular l) {slot : Option Nat} (hclient : l.client = true)
    (hfree : l.Free slot (.op .connect)) : Regular (l.awaitConnect h slot) := by
  unfold Life.awaitConnect
  split_ifs with hbusy hrefused
  · exact hl
  · have hidle := hfree.resolve_left hbusy
    rw [if_pos hrefused] at hidle
    have hsocket : l.impl.isActive (.op .socket) = false := by
      have hinit : (l.impl.frame .socket).initiated = false := by
        simpa [StreamImpl.connectBusy] using hbusy
      simp [StreamImpl.isActive, OpFrame.isActive, hinit]
    obtain ⟨hframe, hactive⟩ := l.impl.connectRefuse_awaitResume
    have hresume : Regular { l with impl := l.impl.awaitResume (.op .connect) } :=
      hl.awaitResume (by simp [resets, hidle, hsocket])
    exact hresume.congr hframe hactive rfl rfl fun _ => id
  · have hidle := hfree.resolve_left hbusy
    rw [if_neg hrefused] at hidle
    have hwait : Regular { l with suspended := (h, .op .connect) :: l.suspended } := hl.wait
    have hwaits : ∃ h', (h', FrameId.op .connect) ∈ (h, FrameId.op .connect) :: l.suspended :=
      ⟨h, List.mem_cons_self⟩
    have hsocket : Regular
        ({ l with suspended := (h, .op .connect) :: l.suspended }.update
          (l.impl.connectSocket slot h)) ∧
        ((l.impl.connectSocket slot h).1.frame .connect).initiated = false := by
      rcases l.impl.connectSocket_starts (h := h) slot with heq | hstarts
      · rw [heq]
        exact ⟨hwait.congr rfl rfl (by simp [Life.update, queue]) rfl fun _ => id, hidle⟩
      · refine ⟨hwait.start hstarts (by simpa [StreamImpl.connectBusy] using hbusy)
          fun _ => ⟨hclient, hwaits⟩, ?_⟩
        rw [hstarts.frame]
        simpa using hidle
    obtain ⟨r, heq, hconnect⟩ := l.impl.connectAwaitSuspend_starts (h := h) slot
    have hboth := hsocket.1.start hconnect hsocket.2 fun _ => ⟨hclient, hwaits⟩
    rw [suspend, heq]
    exact hboth.congr rfl rfl (by simp [Life.update, queue]) rfl fun _ => id

theorem Regular.awaitRecv (hl : Regular l) (now : Nat) : Regular (l.awaitRecv h now) := by
  unfold Life.awaitRecv
  split_ifs with hready
  · exact hl.awaitResume (by simp [resets])
  rcases l.impl.recvAwaitSuspend_cases h now with
    ⟨w, rf, heq, hw, hinit, -⟩ | ⟨g, rf, fd, heq, hidle, hinit, -⟩
  · have hrf : Regular { l with impl := { l.impl with recv := rf } } := by
      refine hl.congr rfl ?_ rfl rfl fun _ => id
      rw [StreamImpl.isActive_recv, hinit]
      exact Function.update_eq_self ..
    rw [heq]
    cases w with
    | resume => exact hrf.awaitResume (by simp [resets])
    | throw errno => exact hrf
    | wait =>
      exact (hrf.wait (h := h) (f := .recv)).congr rfl rfl (by simp [suspend, Life.update, queue])
        rfl fun _ => id
    | arm g => exact absurd rfl (hw g)
  · rw [heq]
    have hwait : Regular { l with suspended := (h, .recv) :: l.suspended } := hl.wait
    refine ⟨?_, hwait.clean, hwait.stream, hwait.waits⟩
    simp only [suspend, Life.update, queue, StreamImpl.addRef_isActive, StreamImpl.isActive_recv,
      hinit, requests_request, requests_nil]
    exact hl.flags.raise fun _ => hidle

theorem Regular.await (hl : Regular l) {slot : Option Nat} {now : Nat} (hf : l.awaitable f = true)
    (hfree : l.Free slot f) (hstep : l.await h slot now f = some l') : Regular l' := by
  cases f with
  | op o =>
    cases o with
    | cancel =>
      obtain rfl := Option.some.inj hstep
      exact hl.wait.start l.impl.cancelAwaitSuspend_starts hfree (by simp)
    | close =>
      obtain rfl := Option.some.inj hstep
      exact hl.wait.start l.impl.closeAwaitSuspend_starts hfree (by simp)
    | shutdown =>
      obtain rfl := Option.some.inj hstep
      exact hl.wait.start l.impl.shutdownAwaitSuspend_starts hfree (by simp)
    | send =>
      simp only [Life.await] at hstep
      split at hstep
      · obtain rfl := Option.some.inj hstep
        exact hl
      · rename_i r hr
        obtain rfl := Option.some.inj hstep
        obtain ⟨hidle, hstarts⟩ := StreamImpl.sendAwaitSuspend_starts hr
        exact hl.wait.start hstarts hidle (by simp)
    | socket => exact absurd hstep (by simp [Life.await])
    | connect =>
      obtain rfl := Option.some.inj hstep
      exact hl.awaitConnect hf hfree
  | recv =>
    obtain rfl := Option.some.inj hstep
    exact hl.awaitRecv now
  | _ => exact absurd hstep (by simp [Life.await])

/-! ### Completions -/

theorem Regular.process {s' : StreamImpl} {cqe : Cqe} {now p : Nat} {buf : RecvBuffer}
    {x : Option Coro} {slot : Option Int} {q : List Sqe} (hl : Regular l) (hin : f ∈ l.inFlight)
    (hposts : posts f cqe = true) (halone : l.Alone (.process f cqe now p buf))
    (hp : processCqe l.impl cqe now p buf f = some (s', x, slot, q)) :
    Regular (l.processed f cqe s' x slot q) := by
  have hup : l.impl.isActive f = true := (hl.flags.mem_iff trivial).mp hin
  by_cases hf : f = .timeout
  · subst hf
    have htick := posts_timeout hposts
    obtain ⟨-, -, hframe⟩ := l.impl.timeoutAwaitProcessCqe_keeps htick now
    have hsync := StreamImpl.timeoutAwaitProcessCqe_synced now hl.flags trivial hin htick
      fun _ => halone
    simp only [processCqe, Option.some.injEq, Prod.mk.injEq] at hp
    obtain ⟨rfl, -, -, rfl⟩ := hp
    have hop : ∀ o, (l.impl.timeoutAwaitProcessCqe cqe now).1.isActive (.op o) =
        l.impl.isActive (.op o) :=
      fun o => by simp [StreamImpl.isActive, hframe]
    refine ⟨hsync, ?_, ?_, ?_⟩
    · simpa only [processed, Life.update, queue, hframe] using hl.clean
    · simpa only [processed, Life.update, queue, hframe] using hl.stream
    · simpa only [processed, Life.update, queue, hop] using hl.waits
  · obtain ⟨hs', rfl⟩ := processCqe_completes hf hposts hp
    have hsync := completes_synced hl.flags (.inl trivial) hin hs'
    refine ⟨?_, fun o hinit => ?_, fun hclient => ?_, fun hconnect => ?_⟩
    · simpa only [processed, Life.update, queue, requests_nil, List.append_nil] using hsync
    · have hidle : (l.impl.frame o).initiated = false := (hs'.frame o).1.symm.trans hinit
      rcases (hs'.frame o).2 with rfl | hdone
      · simp [StreamImpl.isActive, OpFrame.isActive, hidle] at hup
      · exact hdone.trans (hl.clean o hidle)
    · exact ⟨(hs'.frame _).1.trans (hl.stream hclient).1,
        (hs'.frame _).1.trans (hl.stream hclient).2⟩
    · have hle : ∀ g, s'.isActive g = true → l.impl.isActive g = true := by
        intro g hg
        rw [hs'.isActive] at hg
        rcases eq_or_ne g f with rfl | hne
        · exact hup
        · rwa [Function.update_of_ne hne] at hg
      exact hl.waits (hconnect.imp (hle _) (hle _))

/-- **The flags stay right over every step that meets the condition.** -/
theorem Regular.step (hl : Regular l) {op : LifeOp} (halone : l.Alone op)
    (hstep : l.step op = some l') : Regular l' := by
  unfold Life.step at hstep
  split_ifs at hstep with hop
  have hallows := hop.2
  cases op with
  | copyHandle =>
    obtain rfl := Option.some.inj hstep
    exact hl.congr rfl rfl rfl rfl fun _ => id
  | moveHandle =>
    obtain rfl := Option.some.inj hstep
    exact hl
  | assignOver =>
    obtain rfl := Option.some.inj hstep
    exact Regular.release (hl.congr rfl rfl rfl rfl fun _ => id)
  | destroyHandle asClient =>
    obtain rfl := Option.some.inj hstep
    obtain ⟨hframe, hactive, hreq⟩ := l.impl.handleDestructor_keeps asClient
    exact Regular.release (hl.congr hframe hactive (by simp [Life.update, queue, hreq]) rfl
      fun _ => id)
  | newAwaitable f =>
    obtain rfl := Option.some.inj hstep
    exact hl.congr rfl rfl rfl rfl fun _ => id
  | dropAwaitable f =>
    obtain rfl := Option.some.inj hstep
    exact Regular.release (hl.congr rfl rfl
      (by simp [queue, StreamImpl.awaitableDestructor_requests]) rfl fun _ => id)
  | await f h slot now =>
    simp only [allows, Bool.and_eq_true, decide_eq_true_eq] at hallows
    exact hl.await hallows.1.1.2 halone hstep
  | process f cqe now p buf =>
    simp only [allows, Bool.and_eq_true, decide_eq_true_eq] at hallows
    obtain ⟨s', x, slot, q, hp, rfl⟩ := perform_process hstep
    exact (hl.process hallows.1 hallows.2 halone hp).release
  | resume h f =>
    obtain rfl := Option.some.inj hstep
    have hresume := hl.awaitResume halone
    refine ⟨hresume.flags, hresume.clean, hresume.stream, fun hup => ?_⟩
    obtain ⟨h', hmem⟩ := hresume.waits hup
    -- the coroutine that goes on was waiting for something else
    have hne : f ≠ .op .connect := by
      rintro rfl
      simp [StreamImpl.awaitResume_isActive, resets] at hup
    exact ⟨h', (List.mem_erase_of_ne (by simp [hne.symm])).mpr hmem⟩
  | setTimeout ts =>
    obtain rfl := Option.some.inj hstep
    exact hl.congr rfl rfl (by simp [Life.update, queue, StreamImpl.setTimeout]) rfl fun _ => id
  | setBufferGroup g =>
    obtain rfl := perform_setBufferGroup hstep
    refine hl.congr rfl ?_ rfl rfl fun _ => id
    exact (StreamImpl.isActive_recv (s := l.impl) _).trans (Function.update_eq_self ..)

/-! ### Steps that do not meet the condition -/

/-- Where the accounting is right there are as many active frames as requests. -/
theorem Accounted.countP (hl : Accounted l) (hcount : Counted 0 l) :
    l.frames.countP l.impl.isActive = l.inFlight.length := by
  have huse := hl.useCount
  have := hcount.count
  simp only [StreamImpl.useCount] at huse
  omega

/-- A second request in a frame has no flag of its own. -/
theorem Regular.second {r : StreamImpl × List Sqe} (hl : Regular l) (hr : l.impl.Starts o h r)
    (hbusy : (l.impl.frame o).initiated = true) :
    l.frames.countP r.1.isActive < (l.inFlight ++ requests r.2).length := by
  refine hl.flags.countP_lt_of_more nodup_frames (fun _ hf => hl.mem_frames hf) (fun g hg => ?_)
    (by simp [hr.requests])
  rw [hr.isActive] at hg
  rcases eq_or_ne g (.op o) with rfl | hne
  · simpa [StreamImpl.isActive, OpFrame.isActive, hbusy] using hg
  · rwa [Function.update_of_ne hne] at hg

/-- A frame that is reset while it is active is missed. -/
theorem Regular.missed (hl : Regular l) {g : FrameId} (hg : g ∈ resets f)
    (hactive : l.impl.isActive g = true) :
    l.frames.countP (l.impl.awaitResume f).isActive < l.inFlight.length := by
  refine hl.flags.countP_lt_of_lowered (i := g) nodup_frames (fun _ hf => hl.mem_frames hf)
    (fun i hi => ?_) hactive ?_
  · rw [StreamImpl.awaitResume_isActive, Bool.and_eq_true] at hi
    exact hi.1
  · simp [StreamImpl.awaitResume_isActive, hg]

theorem Regular.connectSecond (hl : Regular l) {slot : Option Nat} (hclient : l.client = true)
    (hbusy : l.impl.connectBusy = false) (hsecond : (l.impl.frame .connect).initiated = true) :
    l.frames.countP (l.impl.connectAwaitSuspend slot h).1.isActive <
      (l.inFlight ++ requests (l.impl.connectAwaitSuspend slot h).2).length := by
  obtain ⟨r, heq, hconnect⟩ := l.impl.connectAwaitSuspend_starts (h := h) slot
  have hwait : Regular { l with suspended := (h, .op .connect) :: l.suspended } := hl.wait
  have hsocket : Regular
      ({ l with suspended := (h, .op .connect) :: l.suspended }.update
        (l.impl.connectSocket slot h)) ∧
      ((l.impl.connectSocket slot h).1.frame .connect).initiated = true := by
    rcases l.impl.connectSocket_starts (h := h) slot with heq | hstarts
    · rw [heq]
      exact ⟨hwait.congr rfl rfl (by simp [Life.update, queue]) rfl fun _ => id, hsecond⟩
    · refine ⟨hwait.start hstarts hbusy fun _ => ⟨hclient, h, List.mem_cons_self⟩, ?_⟩
      rw [hstarts.frame]
      simpa using hsecond
  have hlt : l.frames.countP r.1.isActive <
      (l.inFlight ++ requests (l.impl.connectSocket slot h).2 ++ requests r.2).length :=
    hsocket.1.second hconnect hsocket.2
  rw [heq]
  simpa using hlt

/-- A tick that issues a cancel while an earlier one is in flight. -/
theorem Regular.tickSecond {cqe : Cqe} {now : Nat} (hl : Regular l) (hin : .timeout ∈ l.inFlight)
    (htick : l.impl.tickCancels cqe now = true) (hbusy : l.impl.timeoutCancel.initiated = true) :
    l.frames.countP (l.impl.timeoutAwaitProcessCqe cqe now).1.isActive <
      (l.completed .timeout cqe ++ requests (l.impl.timeoutAwaitProcessCqe cqe now).2).length := by
  have hup : l.impl.isActive .timeout = true := (hl.flags.mem_iff trivial).mp hin
  have hlen : (l.completed .timeout cqe).length + 1 = l.inFlight.length + cqe.more.toNat :=
    length_completed hin
  rw [StreamImpl.tickCancels, Bool.and_eq_true] at htick
  obtain ⟨htick, hidle⟩ := htick
  have hflag : (l.impl.tickCancel now).1.isActive = l.impl.isActive := by
    rw [StreamImpl.tickCancel, if_pos hidle, StreamImpl.addRef_isActive,
      StreamImpl.isActive_timeoutCancel, ← hbusy]
    exact Function.update_eq_self ..
  have hreq : requests (l.impl.tickCancel now).2 = [.timeoutCancel] := by
    rw [StreamImpl.tickCancel, if_pos hidle]
    rfl
  rw [StreamImpl.timeoutAwaitProcessCqe_tick htick, StreamImpl.tick]
  -- whether or not it goes on, the timer is armed afterwards
  refine hl.flags.countP_lt_of_more nodup_frames (fun _ hf => hl.mem_frames hf) (fun g hg => ?_) ?_
  · cases hmore : cqe.more with
    | true => simpa [hmore, hflag] using hg
    | false =>
      rcases eq_or_ne g .timeout with rfl | hne
      · exact hup
      · simpa [hmore, StreamImpl.armTimer_isActive, hne, hflag] using hg
  · cases hmore : cqe.more <;> simp [hmore, hreq] at hlen ⊢ <;> omega

/-- **Right accounting after a step means that the step met the condition.** -/
theorem Regular.alone (hl : Regular l) (hcount : Counted 0 l) {op : LifeOp}
    (hstep : l.step op = some l') (hl' : Accounted l') : l.Alone op := by
  have hnone := hl'.countP (hcount.step hstep)
  unfold Life.step at hstep
  split_ifs at hstep with hop
  have hallows := hop.2
  cases op with
  | await f h slot now =>
    simp only [allows, Bool.and_eq_true, decide_eq_true_eq] at hallows
    show l.Free slot f
    cases f with
    | op o =>
      cases o with
      | cancel =>
        obtain rfl := Option.some.inj hstep
        by_contra hbusy
        exact absurd hnone (hl.second l.impl.cancelAwaitSuspend_starts
          (by simpa [Free] using hbusy)).ne
      | close =>
        obtain rfl := Option.some.inj hstep
        by_contra hbusy
        exact absurd hnone (hl.second l.impl.closeAwaitSuspend_starts
          (by simpa [Free] using hbusy)).ne
      | shutdown =>
        obtain rfl := Option.some.inj hstep
        by_contra hbusy
        exact absurd hnone (hl.second l.impl.shutdownAwaitSuspend_starts
          (by simpa [Free] using hbusy)).ne
      | send => trivial
      | socket => exact absurd hstep (by simp [perform, Life.await])
      | connect =>
        obtain rfl := Option.some.inj hstep
        rw [Free]
        by_contra hbusy
        rw [not_or] at hbusy
        simp only [Life.awaitConnect, if_neg hbusy.1] at hnone
        split_ifs at hnone hbusy with hrefused
        · rw [l.impl.connectRefuse_awaitResume.2] at hnone
          exact absurd hnone (hl.missed (g := .op .connect) (by simp [resets])
            (by simpa using hbusy.2)).ne
        · exact absurd hnone (hl.connectSecond hallows.1.1.2 (by simpa using hbusy.1)
            (by simpa using hbusy.2)).ne
    | _ => trivial
  | process f cqe now p buf =>
    simp only [allows, Bool.and_eq_true, decide_eq_true_eq] at hallows
    cases f with
    | timeout =>
      simp only [perform, processCqe, Option.bind_eq_bind, Option.bind_some] at hstep
      obtain rfl := Option.some.inj hstep
      intro htick
      by_contra hbusy
      have hlt := hl.tickSecond hallows.1 htick (by simpa using hbusy)
      have hsame := (l.processed .timeout cqe (l.impl.timeoutAwaitProcessCqe cqe now).1 none none
        (l.impl.timeoutAwaitProcessCqe cqe now).2).impl.release_keeps.2.1
      refine absurd hnone (ne_of_lt (lt_of_eq_of_lt ?_ hlt))
      exact congrArg (fun p => l.frames.countP p) hsame
    | _ => trivial
  | resume h f =>
    obtain rfl := Option.some.inj hstep
    intro g hg
    by_contra hactive
    exact absurd hnone (hl.missed hg (by simpa using hactive)).ne
  | _ => trivial

end Life

open Life in
/-- **The accounting is right in exactly those histories** in which every frame is left alone
while it is in use. -/
theorem life_accounted (client : Bool) (fd : Int) (now : Nat) (ops : List LifeOp) :
    Along Life.step Life.Accounted (Life.new client fd now) ops ↔
      StepsMeet Life.step Life.Alone (Life.new client fd now) ops :=
  along_iff_stepsMeet (I := fun l => Regular l ∧ Counted 0 l) (fun _ hl => hl.1.accounted hl.2)
    (fun _ _ _ hl halone hstep => ⟨hl.1.step halone hstep, hl.2.step hstep⟩)
    (fun _ _ _ hl hstep hl' => hl.1.alone hl.2 hstep hl')
    ⟨regular_new client fd now, counted_new client fd now⟩

/-- **The accounting goes wrong** when `async_cancel` is awaited twice on a stream, when a
connect whose socket fails is resumed before its own completion has come, and when the timer
ticks over an idle receive while the cancel of the tick before is in flight. -/
theorem life_miscounted :
    ¬Along Life.step Life.Accounted (Life.new false 5 0)
        [.newAwaitable (.op .cancel), .newAwaitable (.op .cancel), .await (.op .cancel) 1 none 0,
          .await (.op .cancel) 2 none 0] ∧
      ¬Along Life.step Life.Accounted (Life.new true 0 0)
        [.newAwaitable (.op .connect), .await (.op .connect) 1 (some 5) 0,
          .process (.op .socket) ⟨-24, false, none⟩ 0 0 .defaulted, .resume 1 (.op .connect)] ∧
      ¬Along Life.step Life.Accounted (Life.new false 5 0)
        [.setBufferGroup 1, .newAwaitable .recv, .await .recv 1 none 0,
          .process .timeout ⟨-62, true, none⟩ 3000000000 0 .defaulted,
          .process .timeout ⟨-62, true, none⟩ 6000000000 0 .defaulted] := by
  refine ⟨fun h => ?_, fun h => ?_, fun h => ?_⟩
  · exact absurd ((h.last rfl).useCount) (by decide)
  · exact absurd ((h.last rfl).useCount) (by decide)
  · exact absurd ((h.last rfl).useCount) (by decide)

end Fiona
