import Fiona.Tls.Receiving

/-!
# Plaintext over ciphertext

`async_recv_impl` moves a buffer into `output_sequence_` and then has the channel read it. The
plaintext of a record that ends in it may be packed into the very buffer, over what was read, so
it must not get further than the channel has.

Plaintext goes first where there is room in front of the buffer: into the last buffer of
`input_sequence_` and into the ciphertext buffers received before (`ahead`). So what decides is
how much plaintext was packed since the channel began to read (`packed`), against that room
and what it has read (`Fiona.Tls.clobbers_iff`). Within one buffer no plaintext is longer than its
record. But a record that began in buffers before has the length of what the channel kept of
it, and those buffers may be with the user by now.
-/

namespace Fiona

namespace Tls

open Packing Transition

variable {β : Type*}

/-- Whether a `memcpy` hits a byte of a block that was not consumed. -/
def Write.hits (w : Write) (block : Block) (size consumed : Nat) : Bool :=
  decide (w.block = block ∧ max w.offset consumed < min (w.offset + w.length) size)

theorem Write.hits_iff {w : Write} {block : Block} {size consumed : Nat} :
    w.hits block size consumed = true ↔
      w.block = block ∧ max w.offset consumed < min (w.offset + w.length) size := by
  simp [Write.hits]

/-- An established stream with its channel. -/
structure Channel (β : Type*) where
  session : Session β
  /-- The length of the incomplete record of which the channel keeps a copy. -/
  kept : Nat
  /-- The room there was in front of the buffer that is read. -/
  ahead : Nat
  /-- The plaintext since the channel began to read it. -/
  packed : Nat
  /-- A byte was written that was not consumed yet. -/
  clobbered : Bool
  deriving DecidableEq, Repr

inductive ChannelOp (β : Type*)
  /-- Anything but what the channel reads. -/
  | tls (op : TlsOp β)
  /-- The channel consumes bytes up to the end of a record, and delivers its plaintext. -/
  | record (n : Nat) (plaintext : List β)
  /-- The channel consumes bytes up to the end of a record that is not application data. -/
  | skip (n : Nat)
  /-- The channel keeps the rest, of an incomplete record, and returns. -/
  | finish

/-- A label that tells what the channel reads. -/
def TlsOp.reads : TlsOp β → Bool
  | .consume _ => true
  | .callback (.recordReceived _) => true
  | .finish => true
  | _ => false

/-- A record received now writes to what the channel has not consumed. -/
def Session.clobbers (s : Session β) (plaintext : List β) : Bool :=
  match s.receiver, s.cb.tlsRecordReceived plaintext with
  | .reading block size consumed _, .ok (_, ws) => ws.any fun w => w.hits block size consumed
  | _, _ => false

/-- The room in both sequences. -/
def Callbacks.room (cb : Callbacks β) : Nat :=
  lastRoom cb.inputSequence + capacities cb.outputSequence

namespace Channel

variable (s : Channel β)

/-- An established stream, whose handshake may also leave the beginning of a record. -/
def established (sendBuf : List β) (receivedRecord : Bool) (kept : Nat) : Channel β :=
  ⟨.established sendBuf receivedRecord, kept, 0, 0, false⟩

/-- What is noted when a buffer is taken. -/
def note : TlsOp β → Channel β
  | .next => { s with ahead := s.session.cb.room, packed := 0 }
  | _ => s

def perform : ChannelOp β → Option (Channel β)
  | .tls op =>
    if op.reads then none else (s.session.step op).map fun t => { s.note op with session := t }
  | .record n plaintext =>
    if 0 < n ∧ plaintext.length ≤ s.kept + n then
      (s.session.step (.consume n)).bind fun t =>
        (t.step (.callback (.recordReceived plaintext))).map fun u =>
          { s with
            session := u
            kept := 0
            packed := s.packed + plaintext.length
            clobbered := s.clobbered || t.clobbers plaintext }
    else none
  | .skip n =>
    if 0 < n then (s.session.step (.consume n)).map fun t => { s with session := t, kept := 0 }
    else none
  | .finish =>
    match s.session.receiver with
    | .reading _ size consumed _ =>
      (s.session.step .finish).map fun t =>
        { s with session := t, kept := s.kept + (size - consumed) }
    | _ => none

/-- No byte was written that was not consumed. -/
def Unclobbered : Prop := s.clobbered = false

/-- A record that ends in front of unread bytes brings no more plaintext than there was room ahead
of the buffer and was read of it. -/
def Trails : ChannelOp β → Prop
  | .record n plaintext =>
    match s.session.receiver with
    | .reading _ size consumed _ =>
      consumed + n < size → s.packed + plaintext.length ≤ s.ahead + (consumed + n)
    | _ => True
  | _ => True

/-- When a buffer is taken, there is room in front of it for what the channel has kept. -/
def KeptFits : ChannelOp β → Prop
  | .tls .next =>
    match s.session.receiver with
    | .looping (_ :: _) => s.kept ≤ s.session.cb.room
    | _ => True
  | _ => True

end Channel

/-! ### Where the buffer is that is read -/

/-- **Where the buffer is** that the channel reads, and how much plaintext is in it: it is the last
one in `output_sequence_`, then the last one in `input_sequence_`, and then full. -/
inductive Place (block : Block) (size ahead packed : Nat) (cb : Callbacks β) : Prop
  | waiting (init : List (RecvBuffer β)) (b : RecvBuffer β)
      (hout : cb.outputSequence = init ++ [b]) (hid : b.id = block) (hsize : size ≤ b.capacity)
      (hpacked : packed + (lastRoom cb.inputSequence + capacities init) = ahead)
  | filling (init : List (RecvBuffer β)) (b : RecvBuffer β)
      (hout : cb.outputSequence = []) (hin : cb.inputSequence = init ++ [b]) (hid : b.id = block)
      (hsize : size ≤ b.capacity) (hpacked : packed = ahead + b.size)
  | full (hout : cb.outputSequence = []) (hpacked : ahead + size ≤ packed)

section

variable {block : Block} {size ahead packed arrived : Nat} {cb cb' : Callbacks β}
  {ret : List (RecvBuffer β)} {plain p p' : List β} {w : Write} {ws : List Write}

theorem Place.congr (h : Place block size ahead packed cb)
    (hin : cb'.inputSequence = cb.inputSequence) (hout : cb'.outputSequence = cb.outputSequence) :
    Place block size ahead packed cb' := by
  cases h with
  | waiting init b hout' hid hsize hpacked =>
    exact .waiting init b (hout.trans hout') hid hsize (hin ▸ hpacked)
  | filling init b hout' hin' hid hsize hpacked =>
    exact .filling init b (hout.trans hout') (hin.trans hin') hid hsize hpacked
  | full hout' hpacked => exact .full (hout.trans hout') hpacked

theorem Callbacks.Packs.length_eq (h : Callbacks.Packs cb p cb' p' w) :
    p'.length + w.length = p.length := by
  cases h with
  | extend back n hback hroom hn =>
    show (p.drop n).length + n = p.length
    rw [List.length_drop]
    omega
  | recycle buf out n hfull hout hcap hn =>
    show (p.drop n).length + n = p.length
    rw [List.length_drop]
    omega
  | allocate front n hfull hout hfront hcap hn =>
    show (p.drop n).length + n = p.length
    rw [List.length_drop]
    omega

/-- Buffers in different sequences have different blocks. -/
theorem Holding.ne_of_mem (h : Holding ret arrived plain cb) {b b' : RecvBuffer β}
    (hb : b ∈ cb.inputSequence) (hb' : b' ∈ cb.outputSequence) : b.id ≠ b'.id := by
  have hnodup := h.ids.nodup_iff.mpr (blocks_nodup ..)
  rw [List.map_append, List.nodup_append] at hnodup
  have hmem : b.id ∈ (ret ++ cb.inputSequence).map Bin.id :=
    List.mem_map_of_mem (List.mem_append_right _ hb)
  exact hnodup.2.2 _ hmem _ (List.mem_map_of_mem hb')

/-- The first buffer in `output_sequence_` is another one than those behind it. -/
theorem Holding.head_ne (h : Holding ret arrived plain cb) {b b' : RecvBuffer β}
    {bs : List (RecvBuffer β)} (hout : cb.outputSequence = b :: bs) (hb' : b' ∈ bs) :
    b.id ≠ b'.id := by
  have hnodup := h.ids.nodup_iff.mpr (blocks_nodup ..)
  rw [List.map_append, List.nodup_append, hout, List.map_cons, List.nodup_cons] at hnodup
  intro heq
  exact hnodup.2.1.1 (heq ▸ List.mem_map_of_mem hb')

/-- A `memcpy` into another block, while the plaintext has not reached the block. -/
theorem hits_elsewhere {consumed : Nat} (hne : w.block ≠ block)
    (hle : packed + w.length ≤ ahead) :
    ahead + consumed < packed ∨ w.hits block size consumed = true ↔
      ahead + consumed < packed + w.length := by
  rw [Write.hits_iff]
  constructor
  · rintro (hlt | ⟨heq, -⟩)
    · omega
    · exact absurd heq hne
  · omega

/-- A `memcpy` into the block, at what is packed. -/
theorem hits_inside {consumed : Nat} (heq : w.block = block) (hpacked : packed = ahead + w.offset)
    (hlt : consumed < size) :
    ahead + consumed < packed ∨ w.hits block size consumed = true ↔
      ahead + consumed < packed + w.length := by
  rw [Write.hits_iff, and_iff_right heq]
  omega

/-- **A round moves on by what it packs**, and hits what was not consumed when it gets there. -/
theorem Place.packs (h : Place block size ahead packed cb) (hholding : Holding ret arrived plain cb)
    (hround : Callbacks.Packs cb p cb' p' w) :
    Place block size ahead (packed + w.length) cb' ∧ ∀ consumed, consumed < size →
      (ahead + consumed < packed ∨ w.hits block size consumed = true ↔
        ahead + consumed < packed + w.length) := by
  cases h with
  | waiting init b hout hid hsize hpacked =>
    cases hround with
    | extend back n hback hroom hn =>
      have hne : back.id ≠ block := by
        rw [← hid]
        exact hholding.ne_of_mem (List.mem_of_getLast? hback) (by simp [hout])
      have hlast : lastRoom cb.inputSequence = back.room := by simp [lastRoom, hback]
      have hput : (back.put (p.take n)).room + n = back.room := by
        simp only [Bin.room, Bin.put_capacity, Bin.put_size, List.length_take] at *
        omega
      refine ⟨.waiting init b hout hid hsize ?_, fun consumed hlt => ?_⟩
      · show packed + n + (lastRoom (_ ++ [back.put (p.take n)]) + capacities init) = ahead
        rw [lastRoom_append_singleton]
        omega
      · exact hits_elsewhere hne (show packed + n ≤ ahead by omega)
    | recycle buf out n hfull hout' hcap hn =>
      have hrefill : (buf.refill (p.take n)).room + n = buf.capacity := by
        simp only [Bin.room, Bin.refill_capacity, Bin.refill_size, List.length_take]
        omega
      cases init with
      | nil =>
        -- the buffer itself is next
        obtain ⟨rfl, rfl⟩ : buf = b ∧ out = [] := by simpa [hout] using hout'.symm
        rw [hfull, capacities_nil] at hpacked
        refine ⟨.filling _ _ rfl rfl hid hsize ?_, fun consumed hlt => ?_⟩
        · show packed + n = ahead + (p.take n).length
          rw [List.length_take]
          omega
        · exact hits_inside hid hpacked hlt
      | cons b₀ init =>
        obtain ⟨rfl, rfl⟩ : buf = b₀ ∧ out = init ++ [b] := by simpa [hout] using hout'.symm
        have hne : buf.id ≠ block := by
          rw [← hid]
          exact hholding.head_ne hout' (by simp)
        rw [hfull, capacities_cons] at hpacked
        refine ⟨.waiting init b rfl hid hsize ?_, fun consumed hlt => ?_⟩
        · show packed + n + (lastRoom (_ ++ [buf.refill (p.take n)]) + capacities init) = ahead
          rw [lastRoom_append_singleton]
          omega
        · exact hits_elsewhere hne (show packed + n ≤ ahead by omega)
    | allocate front n hfull hout' hfront hcap hn =>
      rw [hout] at hout'
      exact absurd hout' (by simp)
  | filling init b hout hin hid hsize hpacked =>
    cases hround with
    | extend back n hback hroom hn =>
      obtain rfl : b = back := by simpa [hin] using hback
      refine ⟨.filling init (b.put (p.take n)) hout ?_ hid hsize ?_, fun consumed hlt => ?_⟩
      · show cb.inputSequence.dropLast ++ [b.put (p.take n)] = _
        rw [hin, List.dropLast_concat]
      · show packed + n = ahead + (b.put (p.take n)).size
        rw [Bin.put_size, List.length_take]
        omega
      · exact hits_inside hid hpacked hlt
    | recycle buf out n hfull hout' hcap hn =>
      rw [hout] at hout'
      exact absurd hout' (by simp)
    | allocate front n hfull hout' hfront hcap hn =>
      -- the buffer is full, so everything in it was written
      have hsize' : size ≤ b.size := by
        rw [hin, lastRoom_append_singleton] at hfull
        have hroom : b.capacity - b.size = 0 := hfull
        omega
      refine ⟨.full hout (by omega), fun consumed hlt => ?_⟩
      exact iff_of_true (.inl (by omega)) (by omega)
  | full hout hpacked =>
    refine ⟨.full ?_ (by omega), fun consumed hlt => iff_of_true (.inl (by omega)) (by omega)⟩
    cases hround with
    | recycle buf out n hfull hout' hcap hn =>
      rw [hout] at hout'
      exact absurd hout' (by simp)
    | _ => exact hout

/-- **A record hits what was not consumed** exactly when its plaintext gets further than the room
ahead and what was consumed. -/
theorem Place.record (h : Place block size ahead packed cb)
    (hholding : Holding ret arrived plain cb) (hcall : cb.tlsRecordReceived p = .ok (cb', ws)) :
    Place block size ahead (packed + p.length) cb' ∧ ∀ consumed, consumed < size →
      packed ≤ ahead + consumed →
        ((ws.any fun w => w.hits block size consumed) = true ↔
          ahead + consumed < packed + p.length) := by
  let I : Callbacks β → List β → List Write → Prop := fun cb q ws =>
    (∃ done, Holding ret arrived done cb) ∧ ∃ packed', packed' + q.length = packed + p.length ∧
      Place block size ahead packed' cb ∧ ∀ consumed, consumed < size → packed ≤ ahead + consumed →
        ((ws.any fun w => w.hits block size consumed) = true ↔ ahead + consumed < packed')
  have hround : ∀ cb q ws cb' q' w, q ≠ [] → I cb q ws → Callbacks.Packs cb q cb' q' w →
      I cb' q' (ws ++ [w]) := by
    rintro cb q ws cb' q' w - ⟨⟨done, hdone⟩, packed', hlen, hplace, hhits⟩ hpacks
    obtain ⟨n, -, hdone'⟩ := hdone.packs hpacks
    obtain ⟨hplace', hhits'⟩ := hplace.packs hdone hpacks
    have hlength := hpacks.length_eq
    refine ⟨⟨_, hdone'⟩, packed' + w.length, by omega, hplace', fun consumed hlt hle => ?_⟩
    rw [List.any_append, Bool.or_eq_true, hhits consumed hlt hle, List.any_cons, List.any_nil,
      Bool.or_false]
    exact hhits' consumed hlt
  have hstart : I { cb with receivedRecord := true } p [] := by
    refine ⟨⟨plain, hholding.order, hholding.fits, hholding.ids⟩, packed, rfl, h.congr rfl rfl,
      fun consumed hlt hle => ?_⟩
    exact iff_of_false (by simp) (by omega)
  obtain ⟨-, packed', hlen, hplace, hhits⟩ := Callbacks.pack_invariant hround hcall hstart
  obtain rfl : packed' = packed + p.length := hlen
  exact ⟨hplace, hhits⟩

end

/-! ### The runs -/

namespace Channel

/-- **The steps**, each with how far the channel has read then. -/
inductive Steps (s : Channel β) : ChannelOp β → Channel β → Prop
  | tls (op : TlsOp β) (t : Session β) (hreads : op.reads = false)
      (ht : s.session.step op = some t) : Steps s (.tls op) { s.note op with session := t }
  | record (n : Nat) (plaintext : List β) (block : Block) (size consumed : Nat)
      (bufs : List (Nat × List β)) (u : Session β)
      (hread : s.session.receiver = .reading block size consumed bufs)
      (ht : s.session.step (.consume n) =
        some (s.session.setReceiver (.reading block size (consumed + n) bufs)))
      (hu : (s.session.setReceiver (.reading block size (consumed + n) bufs)).step
        (.callback (.recordReceived plaintext)) = some u)
      (hlen : plaintext.length ≤ s.kept + n) :
      Steps s (.record n plaintext)
        { s with
          session := u
          kept := 0
          packed := s.packed + plaintext.length
          clobbered := s.clobbered || (s.session.setReceiver
            (.reading block size (consumed + n) bufs)).clobbers plaintext }
  | skip (n : Nat) (block : Block) (size consumed : Nat) (bufs : List (Nat × List β))
      (hread : s.session.receiver = .reading block size consumed bufs)
      (ht : s.session.step (.consume n) =
        some (s.session.setReceiver (.reading block size (consumed + n) bufs))) :
      Steps s (.skip n)
        { s with
          session := s.session.setReceiver (.reading block size (consumed + n) bufs)
          kept := 0 }
  | finish (block : Block) (size consumed : Nat) (bufs : List (Nat × List β))
      (hread : s.session.receiver = .reading block size consumed bufs)
      (ht : s.session.step .finish = some (s.session.setReceiver (.looping bufs))) :
      Steps s .finish
        { s with
          session := s.session.setReceiver (.looping bufs)
          kept := s.kept + (size - consumed) }

variable {s s' : Channel β} {op : ChannelOp β}

theorem steps_of_perform (hstep : s.perform op = some s') : Steps s op s' := by
  cases op with
  | tls op =>
    simp only [perform, Option.ite_none_left_eq_some, Option.map_eq_some_iff] at hstep
    obtain ⟨hreads, t, ht, rfl⟩ := hstep
    exact .tls op t (by simpa using hreads) ht
  | record n plaintext =>
    simp only [perform, Option.ite_none_right_eq_some, Option.bind_eq_some_iff,
      Option.map_eq_some_iff] at hstep
    obtain ⟨⟨-, hlen⟩, t, ht, u, hu, rfl⟩ := hstep
    obtain ⟨-, hsteps⟩ := Session.steps_of_step ht
    cases hsteps with
    | consume n block size consumed bufs hread hle =>
      exact .record n plaintext block size consumed bufs u hread ht hu hlen
  | skip n =>
    simp only [perform, Option.ite_none_right_eq_some, Option.map_eq_some_iff] at hstep
    obtain ⟨-, t, ht, rfl⟩ := hstep
    obtain ⟨-, hsteps⟩ := Session.steps_of_step ht
    cases hsteps with
    | consume n block size consumed bufs hread hle =>
      exact .skip n block size consumed bufs hread ht
  | finish =>
    cases hread : s.session.receiver with
    | reading block size consumed bufs =>
      simp only [perform, hread] at hstep
      obtain ⟨t, ht, rfl⟩ := Option.map_eq_some_iff.mp hstep
      obtain ⟨-, hsteps⟩ := Session.steps_of_step ht
      cases hsteps with
      | finish block' size' consumed' bufs' hread' =>
        obtain ⟨rfl, rfl, rfl, rfl⟩ := Receiver.reading.inj (hread.symm.trans hread')
        exact .finish block size consumed bufs hread ht
    | _ => exact absurd hstep (by simp [perform, hread])

/-- The plaintext packed trails what is read. -/
structure ReuseInv (s : Channel β) : Prop where
  recv : s.session.RecvInv
  unclobbered : s.Unclobbered
  place : ∀ block size consumed bufs, s.session.receiver = .reading block size consumed bufs →
    Place block size s.ahead s.packed s.session.cb ∧
      (consumed < size → s.packed ≤ s.ahead + consumed)

theorem reuseInv_established (sendBuf : List β) (receivedRecord : Bool) (kept : Nat) :
    ReuseInv (established sendBuf receivedRecord kept) where
  recv := Session.recvInv_established ..
  unclobbered := rfl
  place := by simp [established, Session.established]

/-- The channel does not read, or reads no more. -/
theorem ReuseInv.of_receiver {s' : Channel β} (hs : ReuseInv s) (hrecv : s'.session.RecvInv)
    (hclobbered : s'.clobbered = s.clobbered)
    (hread : ∀ block size consumed bufs, s'.session.receiver ≠ .reading block size consumed bufs) :
    ReuseInv s' where
  recv := hrecv
  unclobbered := hclobbered.trans hs.unclobbered
  place block size consumed bufs h := absurd h (hread block size consumed bufs)

/-- A step that leaves the sequences and the receiver alone. -/
theorem ReuseInv.congr {s' : Channel β} (hs : ReuseInv s) (hrecv : s'.session.RecvInv)
    (hclobbered : s'.clobbered = s.clobbered) (hreceiver : s'.session.receiver = s.session.receiver)
    (hin : s'.session.cb.inputSequence = s.session.cb.inputSequence)
    (hout : s'.session.cb.outputSequence = s.session.cb.outputSequence)
    (hahead : s'.ahead = s.ahead) (hpacked : s'.packed = s.packed) : ReuseInv s' where
  recv := hrecv
  unclobbered := hclobbered.trans hs.unclobbered
  place block size consumed bufs h := by
    obtain ⟨hplace, hle⟩ := hs.place block size consumed bufs (hreceiver.symm.trans h)
    rw [hahead, hpacked]
    exact ⟨hplace.congr hin hout, hle⟩

/-- **A buffer that is taken** is behind all the others. -/
theorem ReuseInv.take (hs : ReuseInv s) {capacity : Nat} {bytes : List β}
    {bufs : List (Nat × List β)}
    (hloop : s.session.receiver = .looping ((capacity, bytes) :: bufs)) :
    ReuseInv { s.note .next with session := s.session.takeBuf capacity bytes bufs } where
  recv := hs.recv.takeBuf hloop
  unclobbered := hs.unclobbered
  place block size consumed bufs' hread := by
    obtain ⟨hlen, -⟩ := hs.recv.taken hloop
    dsimp only at hread ⊢
    rcases s.session.takeBuf_cases capacity bytes bufs with ⟨-, heq⟩ | ⟨-, heq⟩ <;>
      rw [heq] at hread ⊢
    · exact absurd hread (by simp)
    · obtain ⟨rfl, rfl, rfl, rfl⟩ := Receiver.reading.inj hread
      refine ⟨.waiting s.session.cb.outputSequence _ rfl rfl hlen ?_, fun _ => Nat.zero_le _⟩
      exact Nat.zero_add _

theorem ReuseInv.tls (hs : ReuseInv s) {op : TlsOp β} (hreads : op.reads = false)
    {t : Session β} (hstep : s.session.step op = some t) :
    ReuseInv { s.note op with session := t } := by
  have hrecv := hs.recv.step hstep
  obtain ⟨-, hsteps⟩ := Session.steps_of_step hstep
  cases hsteps with
  | send data => exact hs.congr hrecv rfl rfl rfl rfl rfl rfl
  | sent res data hsending => exact hs.congr hrecv rfl rfl rfl rfl rfl rfl
  | recv hidle => exact hs.of_receiver hrecv rfl s.session.again_receiver_ne
  | ended hover => exact hs.of_receiver hrecv rfl s.session.again_receiver_ne
  | take capacity bytes bufs hloop => exact hs.take hloop
  | callback c block size consumed bufs hread =>
    have hnil : c.plaintext = [] := by
      cases c with
      | recordReceived plaintext => exact absurd hreads (by simp [TlsOp.reads])
      | _ => rfl
    obtain ⟨cb, hcall, hin, hout, -⟩ := Callbacks.call_of_plaintext_nil s.session.cb hnil
    rcases s.session.callback_cases c with ⟨f, hcall', -⟩ | ⟨cb', ws, hcall', heq⟩
    · exact absurd (hcall.symm.trans hcall') (by simp)
    · obtain ⟨rfl, -⟩ : cb = cb' ∧ [] = ws := by simpa using hcall.symm.trans hcall'
      rw [heq] at hrecv ⊢
      exact hs.congr hrecv rfl rfl hin hout rfl rfl
  | consume n block size consumed bufs hread hle => exact absurd hreads (by simp [TlsOp.reads])
  | finish block size consumed bufs hread => exact absurd hreads (by simp [TlsOp.reads])
  | _ => exact hs.of_receiver hrecv rfl (by simp [Session.setReceiver])

/-- The channel has read on, and the plaintext with it. -/
theorem ReuseInv.consume (hs : ReuseInv s) {n : Nat} {t : Session β}
    (hstep : s.session.step (.consume n) = some t) : ReuseInv { s with session := t } := by
  have hrecv := hs.recv.step hstep
  obtain ⟨-, hsteps⟩ := Session.steps_of_step hstep
  cases hsteps with
  | consume n block size consumed bufs hread hle =>
    refine ⟨hrecv, hs.unclobbered, fun block' size' consumed' bufs' hread' => ?_⟩
    obtain ⟨rfl, rfl, rfl, rfl⟩ := Receiver.reading.inj hread'
    obtain ⟨hplace, htrails⟩ := hs.place _ _ _ _ hread
    exact ⟨hplace, fun hlt => by have := htrails (by omega); dsimp only; omega⟩

/-- What a record does, to a buffer of which so much is consumed then. -/
theorem ReuseInv.record (hs : ReuseInv s) {block : Block} {size consumed : Nat}
    {bufs : List (Nat × List β)} (hread : s.session.receiver = .reading block size consumed bufs)
    {plaintext : List β} {u : Session β}
    (hstep : s.session.step (.callback (.recordReceived plaintext)) = some u) :
    u.receiver = .reading block size consumed bufs ∧
      Place block size s.ahead (s.packed + plaintext.length) u.cb ∧
      (s.session.clobbers plaintext = true ↔
        consumed < size ∧ s.ahead + consumed < s.packed + plaintext.length) := by
  have hrecv := hs.recv.step hstep
  obtain ⟨hplace, htrails⟩ := hs.place _ _ _ _ hread
  obtain ⟨-, hsteps⟩ := Session.steps_of_step hstep
  cases hsteps with
  | callback c block' size' consumed' bufs' hread' =>
    rcases s.session.callback_cases (.recordReceived plaintext) with
      ⟨f, -, heq⟩ | ⟨cb, ws, hcall, heq⟩
    · exact absurd hrecv.fault (by simp [heq])
    · obtain ⟨hplace', hhits⟩ := hplace.record hs.recv.holding hcall
      rw [heq]
      refine ⟨hread, hplace', ?_⟩
      have hclobbers : s.session.clobbers plaintext =
          ws.any fun w => w.hits block size consumed := by
        rw [Session.clobbers]
        rw [hread, show s.session.cb.tlsRecordReceived plaintext = .ok (cb, ws) from hcall]
      rw [hclobbers]
      constructor
      · intro hany
        obtain ⟨w, -, hw⟩ := List.any_eq_true.mp hany
        have hlt : consumed < size := by
          have := (Write.hits_iff.mp hw).2
          omega
        exact ⟨hlt, (hhits consumed hlt (htrails hlt)).mp hany⟩
      · rintro ⟨hlt, hgt⟩
        exact (hhits consumed hlt (htrails hlt)).mpr hgt

/-- **A step**: a record that trails what is read, and only such a record, writes nothing that was
not consumed. -/
theorem ReuseInv.step (hs : ReuseInv s) (hstep : s.perform op = some s') :
    (s.Trails op → ReuseInv s') ∧ (s'.Unclobbered → s.Trails op) := by
  cases steps_of_perform hstep with
  | tls op t hreads ht => exact ⟨fun _ => hs.tls hreads ht, fun _ => trivial⟩
  | skip n block size consumed bufs hread ht =>
    have ht' := hs.consume ht
    exact ⟨fun _ => ⟨ht'.recv, ht'.unclobbered, ht'.place⟩, fun _ => trivial⟩
  | finish block size consumed bufs hread ht =>
    have hrecv := hs.recv.step ht
    exact ⟨fun _ => hs.of_receiver hrecv rfl (by simp [Session.setReceiver]), fun _ => trivial⟩
  | record n plaintext block size consumed bufs u hread ht hu hlen =>
    have ht' := hs.consume ht
    have hrecv := ht'.recv.step hu
    obtain ⟨hreceiver, hplace, hclobbers⟩ := ht'.record rfl hu
    have hold : s.clobbered = false := hs.unclobbered
    have hiff : s.Trails (.record n plaintext) ↔
        (s.clobbered || (s.session.setReceiver
          (.reading block size (consumed + n) bufs)).clobbers plaintext) = false := by
      simp only [Trails, hread, hold, Bool.false_or, ← Bool.not_eq_true, hclobbers]
      omega
    refine ⟨fun htrails => ⟨hrecv, hiff.mp htrails, ?_⟩, hiff.mpr⟩
    intro block' size' consumed' bufs' hread'
    obtain ⟨rfl, rfl, rfl, rfl⟩ := Receiver.reading.inj (hreceiver.symm.trans hread')
    refine ⟨hplace, ?_⟩
    simp only [Trails, hread] at htrails
    exact htrails

/-- **No byte is written that was not consumed in exactly those runs** in which every record that
ends in front of unread bytes trails what is read. -/
theorem reuse_safe (sendBuf : List β) (receivedRecord : Bool) (kept : Nat)
    (ops : List (ChannelOp β)) :
    Along perform Unclobbered (established sendBuf receivedRecord kept) ops ↔
      StepsMeet perform Trails (established sendBuf receivedRecord kept) ops :=
  along_iff_stepsMeet (fun _ hs => hs.unclobbered)
    (fun _ _ _ hs htrails hstep => (hs.step hstep).1 htrails)
    (fun _ _ _ hs hstep hs' => (hs.step hstep).2 hs') (reuseInv_established ..)

/-- While the channel reads, there is room enough for what it has kept, and has read since. -/
def KeptInv (s : Channel β) : Prop :=
  ∀ block size consumed bufs, s.session.receiver = .reading block size consumed bufs →
    s.packed + s.kept ≤ s.ahead + consumed

theorem KeptInv.tls (hs : KeptInv s) {op : TlsOp β} (hfits : s.KeptFits (.tls op))
    {t : Session β} (hstep : s.session.step op = some t) (hreads : op.reads = false) :
    KeptInv { s.note op with session := t } := by
  intro block size consumed bufs hread
  dsimp only at hread ⊢
  obtain ⟨-, hsteps⟩ := Session.steps_of_step hstep
  cases hsteps with
  | send data => exact hs block size consumed bufs hread
  | sent res data hsending => exact hs block size consumed bufs hread
  | take capacity bytes bufs' hloop =>
    rcases s.session.takeBuf_cases capacity bytes bufs' with ⟨-, heq⟩ | ⟨-, heq⟩ <;>
      rw [heq] at hread
    · exact absurd hread (by simp)
    · obtain ⟨rfl, rfl, rfl, rfl⟩ := Receiver.reading.inj hread
      simp only [KeptFits, hloop] at hfits
      simpa [note] using hfits
  | callback c block' size' consumed' bufs' hread' =>
    exact hs block size consumed bufs ((s.session.callback_receiver c).symm.trans hread)
  | consume n block' size' consumed' bufs' hread' hle =>
    exact absurd hreads (by simp [TlsOp.reads])
  | recv hidle => exact absurd hread (s.session.again_receiver_ne _ _ _ _)
  | ended hover => exact absurd hread (s.session.again_receiver_ne _ _ _ _)
  | _ => exact absurd hread (by simp [Session.setReceiver])

theorem KeptInv.step (hs : KeptInv s) (hfits : s.KeptFits op) (hstep : s.perform op = some s') :
    KeptInv s' ∧ s.Trails op := by
  cases steps_of_perform hstep with
  | tls op t hreads ht => exact ⟨hs.tls hfits ht hreads, trivial⟩
  | skip n block size consumed bufs hread ht =>
    have hle := hs _ _ _ _ hread
    refine ⟨fun block' size' consumed' bufs' hread' => ?_, trivial⟩
    obtain ⟨rfl, rfl, rfl, rfl⟩ := Receiver.reading.inj hread'
    show s.packed + 0 ≤ s.ahead + (consumed + n)
    omega
  | finish block size consumed bufs hread ht =>
    exact ⟨fun _ _ _ _ hread' => absurd hread' (by simp [Session.setReceiver]), trivial⟩
  | record n plaintext block size consumed bufs u hread ht hu hlen =>
    have hle := hs _ _ _ _ hread
    refine ⟨fun block' size' consumed' bufs' hread' => ?_, ?_⟩
    · have hreceiver : u.receiver = .reading block size (consumed + n) bufs := by
        obtain ⟨-, hsteps⟩ := Session.steps_of_step hu
        cases hsteps with
        | callback c _ _ _ _ _ => exact Session.callback_receiver ..
      obtain ⟨rfl, rfl, rfl, rfl⟩ := Receiver.reading.inj (hreceiver.symm.trans hread')
      show s.packed + plaintext.length + 0 ≤ s.ahead + (consumed + n)
      omega
    · simp only [Trails, hread]
      omega

/-- **A record that begins in one buffer and ends in another** does no harm if what the channel has
kept of it had room in front of the other one. -/
theorem unclobbered_of_keptFits (sendBuf : List β) (receivedRecord : Bool) (kept : Nat)
    (ops : List (ChannelOp β))
    (hfits : StepsMeet perform KeptFits (established sendBuf receivedRecord kept) ops) :
    Along perform Unclobbered (established sendBuf receivedRecord kept) ops := by
  have hkept : KeptInv (established sendBuf receivedRecord kept : Channel β) := by
    simp [KeptInv, established, Session.established]
  have htrails : StepsMeet perform Trails (established sendBuf receivedRecord kept) ops :=
    hfits.of_invariant (fun _ _ _ hs hfits hstep => hs.step hfits hstep) hkept
  have hinv : Along perform ReuseInv (established sendBuf receivedRecord kept) ops :=
    along_of_stepsMeet (fun _ _ _ hs htrails hstep => (hs.step hstep).1 htrails)
      (reuseInv_established ..) htrails
  exact hinv.mono fun _ hs => hs.unclobbered

/-- **Unread ciphertext is overwritten** by a record of seven bytes, of which six came with a buffer
that was since returned. -/
theorem reuse_clobbers :
    ¬Along perform Unclobbered (established ([] : List Nat) false 0)
      [.tls .recv, .tls (.resume [(8, [1, 2, 3, 4, 5, 6, 7, 8])]), .tls .next, .record 2 [70],
        .finish, .tls .next, .tls .recv, .tls (.resume [(8, [9, 10, 11, 12, 13, 14, 15, 16])]),
        .tls .next, .record 1 [71, 72, 73, 74]] := by
  intro h
  exact absurd (h.last rfl) (by unfold Unclobbered; decide)

end Channel

end Tls

end Fiona
