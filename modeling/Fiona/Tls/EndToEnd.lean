import Fiona.Tls.Connection

/-!
# What is sent is what is received

At one end, the bytes that were received are the records that were read and what is pending
(`Fiona.Tls.End.Ok`), and the bytes transmitted are records too. So the next record that
a channel finds is the next one that the other channel has written, and the plaintext of those is
what the program gets.
-/

namespace Fiona

namespace Tls

open Packing Transition

variable {β : Type*}

/-! ### The stream and its channel -/

namespace Channel

variable {s s' : Channel β} {op : ChannelOp β}

/-- The invariants of sending, of receiving and of the buffers that are used again. -/
structure Sound (s : Channel β) : Prop where
  send : s.session.SendInv
  reuse : s.ReuseInv
  fits : s.KeptInv

theorem sound_established (receivedRecord : Bool) :
    Sound (established ([] : List β) receivedRecord 0) where
  send := Session.sendInv_established ..
  reuse := reuseInv_established ..
  fits := by simp [KeptInv, established, Session.established]

theorem Sound.perform (h : Sound s) (hfits : s.KeptFits op)
    (huntouched : ∀ res, op = .tls (.sent res) → s.session.Untouched (.sent res))
    (hstep : s.perform op = some s') : Sound s' := by
  obtain ⟨hkept, htrails⟩ := h.fits.step hfits hstep
  refine ⟨?_, (h.reuse.step hstep).1 htrails, hkept⟩
  cases steps_of_perform hstep with
  | tls op t hreads ht =>
    refine h.send.step ?_ ht
    cases op with
    | sent res => exact huntouched res rfl
    | _ => trivial
  | record n plaintext block size consumed bufs u hread ht hu hlen =>
    have hconsume : s.session.Untouched (.consume n) := trivial
    have hrecord : (s.session.setReceiver (.reading block size (consumed + n) bufs)).Untouched
        (.callback (.recordReceived plaintext)) := trivial
    exact (h.send.step hconsume ht).step hrecord hu
  | skip n block size consumed bufs hread ht =>
    have hconsume : s.session.Untouched (.consume n) := trivial
    exact h.send.step hconsume ht
  | finish block size consumed bufs hread ht =>
    have hfinish : s.session.Untouched .finish := trivial
    exact h.send.step hfinish ht

/-- A label other than the end of a send and the taking of a buffer has no condition. -/
theorem Sound.tls (h : Sound s) {op : TlsOp β} (hnext : op ≠ .next) (hsent : ∀ res, op ≠ .sent res)
    (hstep : s.perform (.tls op) = some s') : Sound s' := by
  refine h.perform ?_ (fun res heq => ?_) hstep
  · cases op with
    | next => exact absurd rfl hnext
    | _ => trivial
  · cases op with
    | sent res' => exact absurd rfl (hsent res')
    | _ => cases heq

theorem step_of_tls {op : TlsOp β} (hstep : s.perform (.tls op) = some s') :
    ∃ t, Session.Steps s.session op t ∧ s' = { s.note op with session := t } := by
  cases steps_of_perform hstep with
  | tls _ t hreads ht => exact ⟨t, (Session.steps_of_step ht).2, rfl⟩

end Channel

/-- How much of the buffer that is read has not been consumed. -/
def Receiver.left : Receiver β → Nat
  | .reading _ size consumed _ => size - consumed
  | _ => 0

/-- A record that causes no fault is delivered. -/
theorem Session.callback_recordReceived {s : Session β} {plaintext : List β}
    (hfault : (s.callback (.recordReceived plaintext)).fault = none) :
    (s.callback (.recordReceived plaintext)).emitted = s.emitted ∧
      (s.callback (.recordReceived plaintext)).handed = s.handed ∧
      (s.callback (.recordReceived plaintext)).delivered = s.delivered ++ plaintext := by
  rcases s.callback_cases (.recordReceived plaintext) with ⟨fault, -, heq⟩ | ⟨cb, ws, -, heq⟩
  · rw [heq] at hfault
    cases hfault
  · rw [heq]
    exact ⟨List.append_nil _, rfl, rfl⟩

/-- **What reading a record does**: it is consumed, and its plaintext delivered. -/
structure Channel.Consumes (s : Channel β) (n : Nat) (record : Record β) (s' : Channel β) :
    Prop where
  pos : 0 < n
  reads : ∃ block size consumed bufs, s.session.receiver = .reading block size consumed bufs ∧
    consumed + n ≤ size ∧ s'.session.receiver = .reading block size (consumed + n) bufs
  emitted : s'.session.emitted = s.session.emitted
  handed : s'.session.handed = s.session.handed
  delivered : s'.session.delivered = s.session.delivered ++ record.plaintext
  kept : s'.kept = 0

/-! ### One end -/

namespace End

variable {f : Framing (Record β) β} {e e' : End β} {op : EndOp β} {incoming : List β}

/-- **The invariant of one end**: it emits the records that its channel has written, and what it has
received are the records that its channel has read, and what is pending. -/
structure Ok (f : Framing (Record β) β) (e : End β) : Prop where
  sound : e.channel.Sound
  emitted : e.channel.session.emitted = f.encode 0 e.written
  transmitted : e.transmitted = e.channel.session.handed
  kept : e.kept.length = e.channel.kept
  unread : e.unread.length = e.channel.session.receiver.left
  received : e.received = f.encode 0 e.opened ++ e.pending
  delivered : e.channel.session.delivered = e.opened.flatMap Record.plaintext
  eof : ∀ buf ∈ e.channel.session.receiver.rest.dropLast, buf.1 ≠ 0

theorem ok_established (receivedRecord : Bool) : Ok f (established receivedRecord) where
  sound := Channel.sound_established receivedRecord
  emitted := rfl
  transmitted := rfl
  kept := rfl
  unread := rfl
  received := rfl
  delivered := rfl
  eof := by simp [established, Channel.established, Session.established, Receiver.rest]

/-- **What a step of an end does** to the streams, where the other end has written the records `rs`
and transmitted `incoming`. -/
structure Moves (rs : List (Record β)) (incoming : List β) (op : EndOp β) (e e' : End β) :
    Prop where
  written : ∃ records, e'.written = e.written ++ records ∧
    records.flatMap Record.plaintext = op.plaintext
  transmitted : e.transmitted <+: e'.transmitted
  received : e.received <+: incoming → e'.received <+: incoming
  opened : e'.opened <+: rs

/-- The program sends data. -/
theorem Ok.send (h : Ok f e) {data : List (List β)}
    (hstep : e.write f (data.map .data) .send = some e') : Ok f e' := by
  obtain ⟨s', hperform, rfl⟩ := Option.map_eq_some_iff.mp hstep
  have hsound := h.sound.tls (by simp) (by simp) hperform
  obtain ⟨t, hsteps, rfl⟩ := Channel.step_of_tls hperform
  cases hsteps with
  | send bytes =>
    refine ⟨hsound, ?_, h.transmitted, h.kept, h.unread, h.received, h.delivered, h.eof⟩
    rw [Framing.encode_append, Nat.zero_add, ← h.emitted]
    rfl

/-- The channel answers. -/
theorem Ok.reply (h : Ok f e) {contents : List (List β)}
    (hstep : e.write f (contents.map .control) (fun bytes => .callback (.emitData bytes)) =
      some e') : Ok f e' := by
  obtain ⟨s', hperform, rfl⟩ := Option.map_eq_some_iff.mp hstep
  have hsound := h.sound.tls (by simp) (by simp) hperform
  obtain ⟨t, hsteps, rfl⟩ := Channel.step_of_tls hperform
  cases hsteps with
  | callback c block size consumed bufs hread =>
    refine ⟨hsound, ?_, h.transmitted, h.kept, h.unread, h.received, ?_, h.eof⟩
    · rw [Framing.encode_append, Nat.zero_add, ← h.emitted]
      rfl
    · exact (List.append_nil _).trans h.delivered

/-- The receiver goes on, and what it has got stays what it is. -/
theorem Ok.moved (h : Ok f e) {s' : Channel β} {unread : List β} (hsound : s'.Sound)
    (hemitted : s'.session.emitted = e.channel.session.emitted)
    (hhanded : s'.session.handed = e.channel.session.handed)
    (hdelivered : s'.session.delivered = e.channel.session.delivered)
    (hkept : s'.kept = e.channel.kept) (hleft : unread.length = s'.session.receiver.left)
    (hbytes : e.unread ++ bytesOf e.channel.session.receiver.rest =
      unread ++ bytesOf s'.session.receiver.rest)
    (heof : ∀ buf ∈ s'.session.receiver.rest.dropLast, buf.1 ≠ 0) :
    Ok f { e with channel := s', unread := unread } where
  sound := hsound
  emitted := hemitted.trans h.emitted
  transmitted := h.transmitted.trans hhanded.symm
  kept := h.kept.trans hkept.symm
  unread := hleft
  received := by
    rw [h.received, pending, pending, List.append_assoc, hbytes, List.append_assoc]
  delivered := hdelivered.trans h.delivered
  eof := heof

/-- Where the receiver is not in a buffer, nothing is unread. -/
theorem Ok.unread_nil (h : Ok f e) (hleft : e.channel.session.receiver.left = 0) :
    e.unread = [] := List.eq_nil_of_length_eq_zero (h.unread.trans hleft)

/-- The test of the outer loop, where nothing is left of what was received. -/
theorem Ok.again (h : Ok f e) {s' : Channel β} (hsound : s'.Sound)
    (hsession : s'.session = e.channel.session.again) (hkept : s'.kept = e.channel.kept)
    (hleft : e.channel.session.receiver.left = 0) (hrest : e.channel.session.receiver.rest = []) :
    Ok f { e with channel := s', unread := [] } := by
  have hunread := h.unread_nil hleft
  rcases e.channel.session.again_cases with ⟨-, heq⟩ | ⟨-, heq⟩ <;> rw [heq] at hsession
  · refine h.moved hsound ?_ ?_ ?_ hkept ?_ ?_ ?_ <;> rw [hsession]
    · rfl
    · rfl
    · rfl
    · rfl
    · rw [hunread, hrest]
      rfl
    · simp [Session.handOff, Receiver.rest]
  · refine h.moved hsound ?_ ?_ ?_ hkept ?_ ?_ ?_ <;> rw [hsession]
    · rfl
    · rfl
    · rfl
    · rfl
    · rw [hunread, hrest]
      rfl
    · simp [Session.setReceiver, Receiver.rest]

/-- A receive is begun. -/
theorem Ok.recv (h : Ok f e) (hstep : e.perform (.tls .recv) = some e') : Ok f e' := by
  obtain ⟨s', hperform, rfl⟩ := Option.map_eq_some_iff.mp hstep
  have hsound := h.sound.tls (by simp) (by simp) hperform
  obtain ⟨t, hsteps, rfl⟩ := Channel.step_of_tls hperform
  cases hsteps with
  | recv hidle =>
    have hleft : e.channel.session.receiver.left = 0 := by rw [hidle]; rfl
    have hrest : e.channel.session.receiver.rest = [] := by rw [hidle]; rfl
    have hagain := h.again hsound rfl rfl hleft hrest
    rwa [← h.unread_nil hleft] at hagain

/-- Buffers are received. -/
theorem Ok.resume (h : Ok f e) {bufs : List (Nat × List β)}
    (heof : ∀ buf ∈ bufs.dropLast, buf.1 ≠ 0)
    (hstep : ({ e with received := e.received ++ bytesOf bufs }).perform (.tls (.resume bufs)) =
      some e') : Ok f e' := by
  obtain ⟨s', hperform, rfl⟩ := Option.map_eq_some_iff.mp hstep
  have hsound := h.sound.tls (by simp) (by simp) hperform
  obtain ⟨t, hsteps, rfl⟩ := Channel.step_of_tls hperform
  cases hsteps with
  | resume _ hwait hbufs =>
    have hunread := h.unread
    have hreceived := h.received
    rw [hwait] at hunread
    rw [pending, hwait] at hreceived
    refine ⟨hsound, h.emitted, h.transmitted, h.kept, hunread, ?_, h.delivered, heof⟩
    have hrest : bytesOf (Receiver.waiting : Receiver β).rest = [] := rfl
    rw [hrest, List.append_nil] at hreceived
    show e.received ++ bytesOf bufs = _ ++ (e.kept ++ e.unread ++ bytesOf bufs)
    rw [hreceived]
    simp only [List.append_assoc]

theorem Ok.fail (h : Ok f e) (hstep : e.perform (.tls .fail) = some e') : Ok f e' := by
  obtain ⟨s', hperform, rfl⟩ := Option.map_eq_some_iff.mp hstep
  have hsound := h.sound.tls (by simp) (by simp) hperform
  obtain ⟨t, hsteps, rfl⟩ := Channel.step_of_tls hperform
  cases hsteps with
  | fail hwait =>
    have hleft : e.channel.session.receiver.left = 0 := by rw [hwait]; rfl
    refine h.moved hsound rfl rfl rfl rfl (h.unread.trans hleft) ?_ ?_
    · rw [hwait]
      rfl
    · simp [Session.setReceiver, Receiver.rest]

theorem Ok.closeNotify (h : Ok f e) (hstep : e.perform (.tls (.callback .closeNotify)) = some e') :
    Ok f e' := by
  obtain ⟨s', hperform, rfl⟩ := Option.map_eq_some_iff.mp hstep
  have hsound := h.sound.tls (by simp) (by simp) hperform
  obtain ⟨t, hsteps, rfl⟩ := Channel.step_of_tls hperform
  cases hsteps with
  | callback c block size consumed bufs hread =>
    refine ⟨hsound, ?_, h.transmitted, h.kept, h.unread, h.received, ?_, h.eof⟩
    · exact (List.append_nil _).trans h.emitted
    · exact (List.append_nil _).trans h.delivered

/-- **A send is over**, and has transmitted all of `send_buf_`. -/
theorem Ok.sent (h : Ok f e) {res : Int} {bytes : List β}
    (hsending : e.channel.session.sending = some bytes)
    (huntouched : e.channel.session.Untouched (.sent res))
    (hwhole : 0 ≤ res → res = e.channel.session.cb.sendBuf.length)
    (hstep : ({ e with transmitted := e.transmitted ++ bytes.take res.toNat }).perform
      (.tls (.sent res)) = some e') : Ok f e' := by
  obtain ⟨s', hperform, rfl⟩ := Option.map_eq_some_iff.mp hstep
  have hfits : e.channel.KeptFits (.tls (.sent res)) := trivial
  have hsound := h.sound.perform hfits (fun res' heq => by cases heq; exact huntouched) hperform
  obtain ⟨t, hsteps, rfl⟩ := Channel.step_of_tls hperform
  cases hsteps with
  | sent _ data hdata =>
    obtain rfl : bytes = data := Option.some.inj (hsending.symm.trans hdata)
    refine ⟨hsound, h.emitted, ?_, h.kept, h.unread, h.received, h.delivered, h.eof⟩
    rw [Session.Untouched] at huntouched
    simp only [Session.sent]
    split_ifs at huntouched ⊢ with hres
    · rw [Int.toNat_of_nonpos (by omega), List.take_zero, List.append_nil, h.transmitted]
    · obtain rfl := Option.some.inj (hsending.symm.trans huntouched)
      rw [hwhole (by omega), Int.toNat_natCast, List.take_length, h.transmitted]

/-- **A buffer is taken.** -/
theorem Ok.next (h : Ok f e) (hfits : e.channel.KeptFits (.tls .next))
    (hstep : ({ e with unread := e.nextBytes }).perform (.tls .next) = some e') : Ok f e' := by
  obtain ⟨s', hperform, rfl⟩ := Option.map_eq_some_iff.mp hstep
  have hsound := h.sound.perform hfits (by simp) hperform
  obtain ⟨t, hsteps, rfl⟩ := Channel.step_of_tls hperform
  cases hsteps with
  | ended hover =>
    have hnil : e.nextBytes = [] := by rw [nextBytes, hover]
    rw [hnil]
    exact h.again hsound rfl rfl (by rw [hover]; rfl) (by rw [hover]; rfl)
  | take capacity bytes bufs hloop =>
    have hnext : e.nextBytes = bytes := by rw [nextBytes, hloop]
    have hunread := h.unread_nil (by rw [hloop]; rfl)
    obtain ⟨hlen, -⟩ := h.sound.reuse.recv.taken hloop
    have heof := h.eof
    rw [hloop] at heof
    rcases e.channel.session.takeBuf_cases capacity bytes bufs with ⟨hcap, heq⟩ | ⟨hcap, heq⟩
    · -- the end of the stream is the last buffer
      have hbufs : bufs = [] := by
        cases bufs with
        | nil => rfl
        | cons buf bufs => exact absurd hcap (heof (capacity, bytes) List.mem_cons_self)
      have hbytes : bytes = [] := List.eq_nil_of_length_eq_zero (by omega)
      refine h.moved hsound ?_ ?_ ?_ rfl ?_ ?_ ?_ <;> dsimp only <;> rw [heq]
      · rw [hnext, hbytes]
        rfl
      · rw [hunread, hnext, hloop, hbufs, hbytes]
        rfl
      · simp [Receiver.rest]
    · refine h.moved hsound ?_ ?_ ?_ rfl ?_ ?_ ?_ <;> dsimp only <;> rw [heq]
      · rw [hnext]
        rfl
      · rw [hunread, hnext, hloop]
        rfl
      · intro buf hbuf
        refine heof buf ?_
        cases bufs with
        | nil => cases hbuf
        | cons b bufs => exact List.mem_cons_of_mem _ hbuf

theorem recordOp_consumes {s s' : Channel β} {n : Nat} {record : Record β} (hsound : s'.Sound)
    (hstep : s.perform (recordOp n record) = some s') : s.Consumes n record s' := by
  have hconsume {block : Block} {size consumed : Nat} {bufs : List (Nat × List β)}
      (hread : s.session.receiver = .reading block size consumed bufs) {t : Session β}
      (ht : s.session.step (.consume n) = some t) : consumed + n ≤ size := by
    obtain ⟨-, hsteps⟩ := Session.steps_of_step ht
    cases hsteps with
    | consume _ block' size' consumed' bufs' hread' hle =>
      obtain ⟨rfl, rfl, rfl, rfl⟩ := Receiver.reading.inj (hread.symm.trans hread')
      exact hle
  cases record with
  | control content =>
    have hpos := (Option.ite_none_right_eq_some.mp hstep).1
    cases Channel.steps_of_perform hstep with
    | skip _ block size consumed bufs hread ht =>
      exact ⟨hpos, ⟨block, size, consumed, bufs, hread, hconsume hread ht, rfl⟩, rfl, rfl,
        (List.append_nil _).symm, rfl⟩
  | data plaintext =>
    have hpos := (Option.ite_none_right_eq_some.mp hstep).1.1
    cases Channel.steps_of_perform hstep with
    | record _ _ block size consumed bufs u hread ht hu hlen =>
      obtain ⟨-, hsteps⟩ := Session.steps_of_step hu
      cases hsteps with
      | callback c _ _ _ _ hread' =>
        obtain ⟨hemitted, hhanded, hdelivered⟩ :=
          Session.callback_recordReceived hsound.reuse.recv.fault
        exact ⟨hpos, ⟨block, size, consumed, bufs, hread, hconsume hread ht,
          Session.callback_receiver ..⟩, hemitted, hhanded, hdelivered, rfl⟩

/-- **The channel reads the next record.** -/
theorem Ok.read (h : Ok f e) {rs : List (Record β)} (hreads : f.Reads rs e.opened e.pending)
    {record : Record β} {length : Nat}
    (hparse : f.parse e.opened.length (e.kept ++ e.unread) = some (record, length))
    (hstep : ({ e with
      opened := e.opened ++ [record]
      kept := []
      unread := e.unread.drop (length - e.kept.length) }).perform
        (recordOp (length - e.kept.length) record) = some e') : Ok f e' := by
  obtain ⟨s', hperform, rfl⟩ := Option.map_eq_some_iff.mp hstep
  have hsound : s'.Sound := by
    refine h.sound.perform ?_ (fun res heq => ?_) hperform
    · cases record <;> trivial
    · cases record <;> cases heq
  obtain ⟨hpos, ⟨block, size, consumed, bufs, hread, hle, hread'⟩, hemitted, hhanded, hdelivered,
    hkept⟩ := recordOp_consumes hsound hperform
  obtain ⟨hlength, heq, -⟩ := hreads.record (List.prefix_append ..) hparse
  have hunread := h.unread
  refine ⟨hsound, hemitted.trans h.emitted, h.transmitted.trans hhanded.symm, hkept.symm, ?_, ?_,
    ?_, ?_⟩
  · rw [hread, Receiver.left] at hunread
    rw [hread', Receiver.left, List.length_drop]
    omega
  · have hdrop : e.pending.drop length =
        e.unread.drop (length - e.kept.length) ++ bytesOf bufs := by
      have hlen : length = e.kept.length + (length - e.kept.length) := by omega
      rw [List.length_append] at hlength
      have hunread : length - e.kept.length ≤ e.unread.length := by omega
      rw [hlen, pending, List.append_assoc, List.drop_length_add_append, Nat.add_sub_cancel_left,
        List.drop_append_of_le_length hunread, hread]
      rfl
    rw [h.received, heq, hdrop]
    simp only [pending, hread', List.nil_append]
    rfl
  · rw [hdelivered, h.delivered, List.flatMap_append, List.flatMap_singleton]
  · have heof := h.eof
    rw [hread] at heof
    rw [hread']
    exact heof

theorem Ok.finish (h : Ok f e)
    (hstep : ({ e with kept := e.kept ++ e.unread, unread := [] }).perform .finish = some e') :
    Ok f e' := by
  obtain ⟨s', hperform, rfl⟩ := Option.map_eq_some_iff.mp hstep
  have hfits : e.channel.KeptFits .finish := trivial
  have hsound := h.sound.perform hfits nofun hperform
  cases Channel.steps_of_perform hperform with
  | finish block size consumed bufs hread ht =>
    have hunread := h.unread
    rw [hread, Receiver.left] at hunread
    refine ⟨hsound, h.emitted, h.transmitted, ?_, rfl, ?_, h.delivered, ?_⟩
    · rw [List.length_append, h.kept, hunread]
    · rw [h.received, pending, pending, hread, List.append_nil]
      rfl
    · have heof := h.eof
      rw [hread] at heof
      exact heof

variable {rs : List (Record β)}

/-- The channel goes on in an end that has moved so far. -/
theorem Moves.of_perform {e₁ : End β} {cop : ChannelOp β} (hstep : e₁.perform cop = some e')
    (hwritten : ∃ records, e₁.written = e.written ++ records ∧
      records.flatMap Record.plaintext = op.plaintext)
    (htransmitted : e.transmitted <+: e₁.transmitted)
    (hreceived : e.received <+: incoming → e₁.received <+: incoming) (hopened : e₁.opened <+: rs) :
    Moves rs incoming op e e' := by
  obtain ⟨s', -, rfl⟩ := Option.map_eq_some_iff.mp hstep
  exact ⟨hwritten, htransmitted, hreceived, hopened⟩

/-- The streams stay what they are. -/
theorem Moves.of_same {cop : ChannelOp β} (hstep : e.perform cop = some e')
    (hplaintext : op.plaintext = []) (hopened : e.opened <+: rs) : Moves rs incoming op e e' :=
  .of_perform hstep ⟨[], (List.append_nil _).symm, hplaintext.symm⟩ (List.prefix_refl _) id hopened

theorem plaintext_data (data : List (List β)) :
    (data.map Record.data).flatMap Record.plaintext = data.flatten := by
  rw [List.flatMap_map]
  exact List.flatMap_id

theorem plaintext_control (contents : List (List β)) :
    (contents.map Record.control).flatMap Record.plaintext = [] := by
  rw [List.flatMap_map]
  exact List.flatMap_eq_nil_iff.mpr fun _ _ => rfl

/-- **A step of one end.** -/
theorem Ok.step [DecidableEq β] (h : Ok f e) (hreads : f.Reads rs e.opened e.pending)
    (horderly : e.Orderly op) (hstep : e.step f incoming op = some e') :
    Ok f e' ∧ Moves rs incoming op e e' := by
  have hnone : ∃ records, e.written = e.written ++ records ∧
      records.flatMap Record.plaintext = [] := ⟨[], (List.append_nil _).symm, rfl⟩
  cases op with
  | send data =>
    exact ⟨h.send hstep, .of_perform hstep ⟨_, rfl, plaintext_data data⟩ (List.prefix_refl _) id
      hreads.isPrefix⟩
  | reply contents =>
    exact ⟨h.reply hstep, .of_perform hstep ⟨_, rfl, plaintext_control contents⟩
      (List.prefix_refl _) id hreads.isPrefix⟩
  | sent res =>
    obtain ⟨bytes, hsending, hstep⟩ := Option.bind_eq_some_iff.mp hstep
    obtain ⟨-, hstep⟩ := Option.ite_none_right_eq_some.mp hstep
    exact ⟨h.sent hsending horderly.1 horderly.2 hstep,
      .of_perform hstep hnone (List.prefix_append ..) id hreads.isPrefix⟩
  | recv => exact ⟨h.recv hstep, .of_same hstep rfl hreads.isPrefix⟩
  | resume bufs =>
    obtain ⟨⟨hincoming, heof⟩, hstep⟩ := Option.ite_none_right_eq_some.mp hstep
    exact ⟨h.resume heof hstep,
      .of_perform hstep hnone (List.prefix_refl _) (fun _ => hincoming) hreads.isPrefix⟩
  | fail => exact ⟨h.fail hstep, .of_same hstep rfl hreads.isPrefix⟩
  | next =>
    exact ⟨h.next horderly hstep,
      .of_perform hstep hnone (List.prefix_refl _) id hreads.isPrefix⟩
  | read =>
    obtain ⟨-, hstep⟩ := Option.ite_none_left_eq_some.mp hstep
    obtain ⟨⟨record, length⟩, hparse, hstep⟩ := Option.bind_eq_some_iff.mp hstep
    obtain ⟨-, -, hreads'⟩ := hreads.record (List.prefix_append ..) hparse
    exact ⟨h.read hreads hparse hstep,
      .of_perform hstep hnone (List.prefix_refl _) id hreads'.isPrefix⟩
  | closeNotify => exact ⟨h.closeNotify hstep, .of_same hstep rfl hreads.isPrefix⟩
  | finish =>
    obtain ⟨-, hstep⟩ := Option.ite_none_left_eq_some.mp hstep
    exact ⟨h.finish hstep, .of_perform hstep hnone (List.prefix_refl _) id hreads.isPrefix⟩
  | misread op =>
    -- no byte was overwritten
    obtain ⟨hclobbered, -⟩ := Option.ite_none_right_eq_some.mp hstep
    have hunclobbered : e.channel.clobbered = false := h.sound.reuse.unclobbered
    rw [hunclobbered] at hclobbered
    cases hclobbered

end End

/-! ### Both ends -/

namespace Connection

variable {f : Framing (Record β) β} {l l' : Connection β} {op : Bool × EndOp β} {x : Bool}

/-- **The invariant**: each end has received some of what the other one transmitted, and read some
of the records that the other one has written. -/
structure Ok (f : Framing (Record β) β) (l : Connection β) : Prop where
  ends : ∀ x, (l x).Ok f
  received : ∀ x, (l x).received <+: (l !x).transmitted
  opened : ∀ x, (l x).opened <+: (l !x).written

theorem ok_established (receivedRecord : Bool → Bool) : Ok f (established receivedRecord) where
  ends x := End.ok_established (receivedRecord x)
  received _ := List.prefix_refl _
  opened _ := List.prefix_refl _

/-- What is transmitted are the records written, up to what is in `send_buf_`. -/
theorem Ok.transmitted (h : Ok f l) (x : Bool) :
    (l x).transmitted ++ (l x).channel.session.cb.sendBuf = f.encode 0 (l x).written := by
  rw [(h.ends x).transmitted, ← (h.ends x).emitted]
  exact (h.ends x).sound.send.lossless

/-- **Each end reads the records of the other one.** -/
theorem Ok.reads (h : Ok f l) (x : Bool) : f.Reads (l !x).written (l x).opened (l x).pending where
  isPrefix := h.opened x
  stream := by
    rw [← (h.ends x).received, ← h.transmitted]
    exact (h.received x).trans (List.prefix_append ..)

variable [DecidableEq β]

theorem forall_end {P : Bool → Prop} (y : Bool) (hself : P y) (hother : P !y) : ∀ x, P x := by
  intro x
  rcases eq_or_ne x y with rfl | hne
  · exact hself
  · exact Bool.eq_not.mpr hne ▸ hother

/-- **A step of one end**, with the other one as it is. -/
theorem Ok.step (h : Ok f l) (horderly : l.Orderly op) (hstep : l.step f op = some l') :
    Ok f l' ∧ ∀ x, (l' x).written.flatMap Record.plaintext =
      (l x).written.flatMap Record.plaintext ++ sentBy x [op] := by
  obtain ⟨y, op⟩ := op
  obtain ⟨e, he, rfl⟩ := Option.map_eq_some_iff.mp hstep
  obtain ⟨hok, ⟨records, hwritten, hplaintext⟩, htransmitted, hreceived, hopened⟩ :=
    (h.ends y).step (h.reads y) horderly he
  have hself : Function.update l y e y = e := Function.update_self ..
  have hother : Function.update l y e (!y) = l !y := Function.update_of_ne (by simp) ..
  have hreceived' : (l !y).received <+: (l y).transmitted := by simpa using h.received !y
  have hopened' : (l !y).opened <+: (l y).written := by simpa using h.opened !y
  refine ⟨⟨forall_end y ?_ ?_, forall_end y ?_ ?_, forall_end y ?_ ?_⟩, forall_end y ?_ ?_⟩
  · rwa [hself]
  · rw [hother]
    exact h.ends !y
  · rw [hself, hother]
    exact hreceived (h.received y)
  · rw [hother, Bool.not_not, hself]
    exact hreceived'.trans htransmitted
  · rwa [hself, hother]
  · rw [hother, Bool.not_not, hself, hwritten]
    exact hopened'.trans (List.prefix_append ..)
  · rw [hself, hwritten, List.flatMap_append, hplaintext]
    simp [sentBy]
  · rw [hother]
    simp [sentBy]

/-- **The plaintext that the records have** is what was passed to `async_send`. -/
theorem Ok.run {ops : List (Bool × EndOp β)} (h : Ok f l)
    (horderly : StepsMeet (Connection.step f) Orderly l ops)
    (hrun : Transition.run (Connection.step f) l ops = some l') :
    Ok f l' ∧ ∀ x, (l' x).written.flatMap Record.plaintext =
      (l x).written.flatMap Record.plaintext ++ sentBy x ops := by
  induction ops generalizing l with
  | nil =>
    obtain rfl := Option.some.inj hrun
    exact ⟨h, fun x => (List.append_nil _).symm⟩
  | cons op ops ih =>
    obtain ⟨l₁, hstep, hrest⟩ := run_cons_eq_some.mp hrun
    obtain ⟨hop, hops⟩ := horderly l₁ hstep
    obtain ⟨h₁, hsent⟩ := h.step hop hstep
    obtain ⟨h', hsent'⟩ := ih h₁ hops hrest
    refine ⟨h', fun x => ?_⟩
    rw [hsent' x, hsent x, List.append_assoc, sentBy, sentBy, sentBy, List.flatMap_singleton,
      List.flatMap_cons]

/-- **What one end sends is what the other one receives**, in both directions at once, however the
bytes are cut into buffers and the records lie in them, and in whatever order the coroutines at
both ends go on: what the program got of the plaintext, and will get next, is a prefix of what was
passed to `async_send` at the other end, and it is all of that where nothing is under way. -/
theorem plaintext_delivered (f : Framing (Record β) β) (receivedRecord : Bool → Bool)
    (ops : List (Bool × EndOp β)) (l : Connection β)
    (hrun : Transition.run (Connection.step f) (established receivedRecord) ops = some l)
    (horderly : StepsMeet (Connection.step f) Orderly (established receivedRecord) ops)
    (x : Bool) :
    (l x).plaintext <+: sentBy (!x) ops ∧ (l.Settled x → (l x).plaintext = sentBy (!x) ops) := by
  obtain ⟨h, hsent⟩ := (ok_established receivedRecord).run horderly hrun
  have hwritten : (l !x).written.flatMap Record.plaintext = sentBy (!x) ops := hsent !x
  have hplaintext : (l x).plaintext = (l x).opened.flatMap Record.plaintext :=
    (h.ends x).sound.reuse.recv.holding.order.trans (h.ends x).delivered
  have hreads := h.reads x
  rw [hplaintext, ← hwritten]
  constructor
  · obtain ⟨rest, hrest⟩ := hreads.isPrefix
    rw [← hrest, List.flatMap_append]
    exact List.prefix_append ..
  · rintro ⟨hbuf, hreceived, hpending⟩
    have hall : f.encode 0 (l x).opened = f.encode 0 (l !x).written := by
      rw [← h.transmitted, hbuf, List.append_nil, ← hreceived, (h.ends x).received, hpending,
        List.append_nil]
    rw [hpending] at hreads
    rw [hreads.eq_of_nil hall]

/-! ### A run -/

instance (e : End β) : (op : EndOp β) → Decidable (e.Orderly op)
  | .sent res => inferInstanceAs (Decidable ((if res < 0 then e.channel.session.cb.sendBuf = [] else
      e.channel.session.sending = some e.channel.session.cb.sendBuf) ∧ (0 ≤ res → _)))
  | .next =>
    match h : e.channel.session.receiver with
    | .looping (_ :: _) => decidable_of_iff (e.channel.kept ≤ e.channel.session.cb.room)
        (by simp [End.Orderly, Channel.KeptFits, h])
    | .looping [] | .idle | .waiting | .reading .. =>
      isTrue (by simp [End.Orderly, Channel.KeptFits, h])
  | .send _ | .recv | .resume _ | .fail | .read | .reply _ | .closeNotify | .finish | .misread _ =>
    isTrue trivial

instance (l : Connection β) (op : Bool × EndOp β) : Decidable (l.Orderly op) :=
  inferInstanceAs (Decidable ((l op.1).Orderly op.2))

instance (l : Connection β) (x : Bool) : Decidable (l.Settled x) :=
  inferInstanceAs (Decidable ((l !x).channel.session.cb.sendBuf = [] ∧
    (l x).received = (l !x).transmitted ∧ (l x).pending = []))

/-- The kind of a record, and what is in it. -/
def parts : Record Nat → Nat × List Nat
  | .data plaintext => (0, plaintext)
  | .control content => (1, content)

/-- Records as their number, their kind, their length and what is in them. -/
def plain : Framing (Record Nat) Nat where
  write n r := n :: (parts r).1 :: (parts r).2.length :: (parts r).2
  parse n
    | m :: kind :: length :: rest =>
      if m = n ∧ length ≤ rest.length then
        let content := rest.take length
        some (if kind = 0 then .data content else .control content, length + 3)
      else none
    | _ => none
  write_ne_nil n r := by simp
  parse_write n r rest := by cases r <;> simp [parts]
  parse_short n r bs hbs hlt := by
    match bs with
    | [] | [_] | [_, _] => rfl
    | m :: kind :: length :: rest =>
      simp only [List.cons_prefix_cons] at hbs
      obtain ⟨-, -, rfl, -⟩ := hbs
      simp only [List.length_cons] at hlt
      exact if_neg (by omega)

/-- One end sends two records, which arrive in two pieces; the other one answers, sends a record in
turn, and both are read. -/
def exchange : List (Bool × EndOp Nat) :=
  [(false, .send [[1, 2, 3], [4]]), (false, .sent 10), (true, .recv),
    (true, .resume [(8, [0, 0, 3, 1]), (8, [2, 3, 1, 0, 1, 4])]), (true, .next), (true, .finish),
    (true, .next), (true, .read), (true, .reply [[7]]), (true, .read), (true, .finish),
    (true, .next), (true, .send [[9]]), (true, .sent 8), (false, .recv),
    (false, .resume [(16, [0, 1, 1, 7, 1, 0, 1, 9])]), (false, .next), (false, .read),
    (false, .read), (false, .finish), (false, .next)]

theorem plaintext_delivered_exchange :
    ∃ l, Transition.run (Connection.step plain) (established fun _ => false) exchange = some l ∧
      (l true).plaintext = [1, 2, 3, 4] ∧ (l false).plaintext = [9] := by
  have horderly : StepsMeet (Connection.step plain) Orderly (established fun _ => false)
      exchange := by decide
  refine exists_run (by decide) fun l hrun => ?_
  have hsettled (x : Bool) : l.Settled x := by
    have hall : (Transition.run (Connection.step plain) (established fun _ => false) exchange).all
        (fun l => decide (l.Settled x)) = true := by cases x <;> decide
    rw [hrun] at hall
    exact of_decide_eq_true hall
  exact ⟨(plaintext_delivered plain _ _ l hrun horderly true).2 (hsettled true),
    (plaintext_delivered plain _ _ l hrun horderly false).2 (hsettled false)⟩

end Connection

end Tls

end Fiona
