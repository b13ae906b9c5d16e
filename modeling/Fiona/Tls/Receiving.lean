import Fiona.Lib.Run
import Fiona.Tls.Session
import Mathlib.Data.List.Nodup

/-!
# The plaintext that is delivered

A record is packed into what room the last plaintext buffer has, then into buffers whose
ciphertext was read, then into new ones, and records, buffers and calls need not line up.
Two facts carry the proof that all the same the user gets every byte in order and no buffer
is lost or in two places: what the loop of `tls_record_received` has packed, with what it
has still to pack, is what it was given (`Fiona.Tls.Holding.packs`), and the buffers
in the sequences, with those that were returned, are all that ever arrived or were allocated.
-/

namespace Fiona

namespace Tls

open Packing Transition

variable {β : Type*}

/-- The blocks of all buffers that arrived, and of all that were allocated. -/
def blocks (arrived allocated : Nat) : List Block :=
  (List.range arrived).map .received ++ (List.range allocated).map .allocated

theorem blocks_nodup (arrived allocated : Nat) : (blocks arrived allocated).Nodup := by
  refine List.Nodup.append ?_ ?_ ?_
  · exact List.nodup_range.map fun _ _ h => Block.received.inj h
  · exact List.nodup_range.map fun _ _ h => Block.allocated.inj h
  · intro b hb hb'
    obtain ⟨m, -, rfl⟩ := List.mem_map.mp hb
    obtain ⟨n, -, heq⟩ := List.mem_map.mp hb'
    exact absurd heq (by simp)

theorem blocks_received (arrived allocated : Nat) :
    (blocks (arrived + 1) allocated).Perm (.received arrived :: blocks arrived allocated) := by
  simp only [blocks, List.range_succ, List.map_append, List.map_cons, List.map_nil,
    List.append_assoc]
  exact List.perm_middle

theorem blocks_allocated (arrived allocated : Nat) :
    (blocks arrived (allocated + 1)).Perm (.allocated allocated :: blocks arrived allocated) := by
  simp only [blocks, List.range_succ, List.map_append, List.map_cons, List.map_nil,
    ← List.append_assoc]
  exact List.perm_append_singleton ..

/-- One more block among others. -/
theorem perm_insert {l l₁ l₂ : List Block} {b : Block} (h : (l₁ ++ l₂).Perm l) :
    (l₁ ++ b :: l₂).Perm (b :: l) := List.perm_middle.trans (h.cons b)

/-- What the sequences hold, together with the buffers `ret` that were returned: the plaintext in
order, and every buffer once. -/
structure Holding (ret : List (RecvBuffer β)) (arrived : Nat) (plain : List β)
    (cb : Callbacks β) : Prop where
  order : contents ret ++ contents cb.inputSequence = plain
  fits : ∀ b ∈ ret ++ cb.inputSequence ++ cb.outputSequence, b.Fits
  ids : ((ret ++ cb.inputSequence ++ cb.outputSequence).map Bin.id).Perm
    (blocks arrived cb.allocated)

section

variable {ret : List (RecvBuffer β)} {arrived : Nat} {plain p p' : List β} {cb cb' : Callbacks β}
  {w : Write}

/-- **A round packs what it takes.** -/
theorem Holding.packs (h : Holding ret arrived plain cb) (hround : Callbacks.Packs cb p cb' p' w) :
    ∃ n, p' = p.drop n ∧ Holding ret arrived (plain ++ p.take n) cb' := by
  obtain ⟨horder, hfits, hids⟩ := h
  have hall := hfits
  simp only [List.forall_mem_append] at hall
  obtain ⟨⟨hret, hin⟩, hout⟩ := hall
  cases hround with
  | extend back n hback hroom hn =>
    obtain ⟨init, hinit⟩ : ∃ init, cb.inputSequence = init ++ [back] :=
      ⟨_, eq_dropLast_append hback⟩
    have hlen : (p.take n).length ≤ back.room := by
      rw [List.length_take]
      omega
    have hput : (back.put (p.take n)).Fits := (hin back (by simp [hinit])).put hlen
    refine ⟨n, rfl, ?_, ?_, ?_⟩
    · rw [← horder]
      simp [hinit, Bin.put]
    · simp only [hinit, List.dropLast_concat, List.forall_mem_append, List.forall_mem_singleton]
      exact ⟨⟨hret, fun b hb => hin b (by simp [hinit, hb]), hput⟩, hout⟩
    · simpa [hinit] using hids
  | recycle buf out n hfull hout' hcap hn =>
    have hrefill : (buf.refill (p.take n)).Fits := by
      simp only [Bin.Fits, Bin.refill_size, Bin.refill_capacity, List.length_take]
      omega
    refine ⟨n, rfl, ?_, ?_, ?_⟩
    · rw [← horder]
      simp [Bin.refill]
    · simp only [List.forall_mem_append, List.forall_mem_singleton]
      exact ⟨⟨hret, hin, hrefill⟩, fun b hb => hout b (by simp [hout', hb])⟩
    · simpa [hout'] using hids
  | allocate front n hfull hout' hfront hcap hn =>
    have hnew : (⟨.allocated cb.allocated, front.capacity, p.take n⟩ : RecvBuffer β).Fits := by
      simp only [Bin.Fits, Bin.size, List.length_take]
      omega
    refine ⟨n, rfl, ?_, ?_, ?_⟩
    · rw [← horder]
      simp
    · simp only [List.forall_mem_append, List.forall_mem_singleton]
      exact ⟨⟨hret, hin, hnew⟩, hout⟩
    · rw [List.map_append] at hids
      simpa using (perm_insert hids).trans (blocks_allocated ..).symm

/-- What a callback needs: every buffer has capacity, and there is one. -/
structure Supplied (cb : Callbacks β) : Prop where
  sized : cb.Sized
  stocked : cb.Stocked

theorem Supplied.call_ok (h : Supplied cb) (c : Callback β) : ∃ r, cb.call c = .ok r := by
  cases c with
  | emitData data => exact ⟨_, rfl⟩
  | recordReceived plaintext => exact Callbacks.pack_of_stocked h.sized h.stocked (Nat.le_refl _)
  | closeNotify => exact ⟨_, rfl⟩

/-- **A callback packs the plaintext**, and leaves no less to draw on. -/
theorem Holding.call (h : Holding ret arrived plain cb) (hsupplied : Supplied cb) {c : Callback β}
    {ws : List Write} (hcall : cb.call c = .ok (cb', ws)) :
    Holding ret arrived (plain ++ c.plaintext) cb' ∧ Supplied cb' := by
  cases c with
  | emitData data =>
    simp only [Callbacks.call, Except.ok.injEq, Prod.mk.injEq] at hcall
    obtain ⟨rfl, -⟩ := hcall
    show Holding ret arrived (plain ++ []) _ ∧ _
    rw [List.append_nil]
    exact ⟨⟨h.order, h.fits, h.ids⟩, hsupplied.sized, hsupplied.stocked⟩
  | closeNotify =>
    simp only [Callbacks.call, Except.ok.injEq, Prod.mk.injEq] at hcall
    obtain ⟨rfl, -⟩ := hcall
    show Holding ret arrived (plain ++ []) _ ∧ _
    rw [List.append_nil]
    exact ⟨⟨h.order, h.fits, h.ids⟩, hsupplied.sized, hsupplied.stocked⟩
  | recordReceived plaintext =>
    -- what is packed and what is left to pack is the plaintext
    let I : Callbacks β → List β → List Write → Prop := fun cb p _ =>
      (∃ done, done ++ p = plain ++ plaintext ∧ Holding ret arrived done cb) ∧ Supplied cb
    have hround : ∀ cb p ws cb' p' w, p ≠ [] → I cb p ws → Callbacks.Packs cb p cb' p' w →
        I cb' p' (ws ++ [w]) := by
      rintro cb p ws cb' p' w - ⟨⟨done, hdone, hholding⟩, hsup⟩ hpacks
      obtain ⟨n, rfl, hholding'⟩ := hholding.packs hpacks
      refine ⟨⟨done ++ p.take n, ?_, hholding'⟩, hpacks.sized hsup.sized, hpacks.stocked⟩
      rw [List.append_assoc, List.take_append_drop, hdone]
    have hstart : I { cb with receivedRecord := true } plaintext [] :=
      ⟨⟨plain, rfl, h.order, h.fits, h.ids⟩, hsupplied.sized, hsupplied.stocked⟩
    obtain ⟨⟨done, hdone, hholding⟩, hsup⟩ := Callbacks.pack_invariant hround hcall hstart
    rw [List.append_nil] at hdone
    exact ⟨hdone ▸ hholding, hsup⟩

end

/-- The buffers received that were not yet taken. -/
def Receiver.rest : Receiver β → List (Nat × List β)
  | .looping bufs => bufs
  | .reading _ _ _ bufs => bufs
  | _ => []

/-- What a label delivers. -/
def TlsOp.plaintext : TlsOp β → List β
  | .callback c => c.plaintext
  | _ => []

namespace Session

variable {s s' : Session β} {op : TlsOp β}

/-- A buffer without capacity is in `input_sequence_` at most on its way to the user. -/
structure RecvInv (s : Session β) : Prop where
  fault : s.fault = none
  holding : Holding s.returned s.arrived s.delivered s.cb
  rest : wellFormed s.receiver.rest = true
  output : ∀ b ∈ s.cb.outputSequence, b.capacity ≠ 0
  input : (∀ b ∈ s.cb.inputSequence, b.capacity ≠ 0) ∨
    s.receiver = .looping [] ∧ s.cb.receivedRecord = true
  reading : ∀ block size consumed bufs, s.receiver = .reading block size consumed bufs →
    s.cb.Stocked

theorem recvInv_established (sendBuf : List β) (receivedRecord : Bool) :
    RecvInv (established sendBuf receivedRecord) where
  fault := rfl
  holding := ⟨rfl, by simp [established, Callbacks.init], .refl _⟩
  rest := rfl
  output := by simp [established, Callbacks.init]
  input := .inl (by simp [established, Callbacks.init])
  reading := by simp [established]

/-- While the receiver is anywhere else, `input_sequence_` has only buffers with capacity. -/
theorem RecvInv.sized (hs : RecvInv s) (hreceiver : s.receiver ≠ .looping []) : s.cb.Sized := by
  intro b hb
  rcases List.mem_append.mp hb with hb | hb
  · rcases hs.input with hinput | ⟨hover, -⟩
    · exact hinput b hb
    · exact absurd hover hreceiver
  · exact hs.output b hb

/-- The next buffer is as it was received, and so are the others. -/
theorem RecvInv.taken (hs : RecvInv s) {capacity : Nat} {bytes : List β}
    {bufs : List (Nat × List β)} (hloop : s.receiver = .looping ((capacity, bytes) :: bufs)) :
    bytes.length ≤ capacity ∧ wellFormed bufs = true := by
  have hwell : wellFormed ((capacity, bytes) :: bufs) = true := by
    have hrest := hs.rest
    rwa [hloop] at hrest
  simp only [wellFormed, List.all_cons, Bool.and_eq_true, decide_eq_true_eq] at hwell
  exact ⟨hwell.1.1, hwell.2⟩

/-- The receiver moves to where it does not read. -/
theorem RecvInv.setReceiver (hs : RecvInv s) {r : Receiver β} (hrest : wellFormed r.rest = true)
    (hinput : ∀ b ∈ s.cb.inputSequence, b.capacity ≠ 0)
    (hread : ∀ block size consumed bufs, r = .reading block size consumed bufs → s.cb.Stocked) :
    RecvInv (s.setReceiver r) where
  fault := hs.fault
  holding := hs.holding
  rest := hrest
  output := hs.output
  input := .inl hinput
  reading := hread

/-- **The sequence is handed out**: the buffers move from it to those returned. -/
theorem RecvInv.handOff (hs : RecvInv s) : RecvInv s.handOff where
  fault := hs.fault
  holding := by
    obtain ⟨horder, hfits, hids⟩ := hs.holding
    refine ⟨?_, ?_, ?_⟩
    · simpa [Session.handOff] using horder
    · simpa [Session.handOff] using hfits
    · simpa [Session.handOff] using hids
  rest := rfl
  output := hs.output
  input := .inl (by simp [Session.handOff])
  reading := by simp [Session.handOff]

theorem RecvInv.again (hs : RecvInv s) : RecvInv s.again := by
  rcases s.again_cases with ⟨-, heq⟩ | ⟨hrecord, heq⟩ <;> rw [heq]
  · exact hs.handOff
  · refine hs.setReceiver rfl ?_ (by simp)
    rcases hs.input with hinput | ⟨-, hrecord'⟩
    · exact hinput
    · exact absurd (hrecord.symm.trans hrecord') (by simp)

/-- **A buffer that arrived** goes into one of the sequences. -/
theorem RecvInv.takeBuf (hs : RecvInv s) {capacity : Nat} {bytes : List β}
    {bufs : List (Nat × List β)} (hloop : s.receiver = .looping ((capacity, bytes) :: bufs)) :
    RecvInv (s.takeBuf capacity bytes bufs) := by
  have hsized := hs.sized (by simp [hloop])
  obtain ⟨hlen, hbufs⟩ := hs.taken hloop
  have hfits : (⟨.received s.arrived, capacity, bytes⟩ : RecvBuffer β).Fits := hlen
  obtain ⟨horder, hall, hids⟩ := hs.holding
  simp only [List.forall_mem_append] at hall
  obtain ⟨⟨hret, hin⟩, hout⟩ := hall
  rcases s.takeBuf_cases capacity bytes bufs with ⟨hcap, heq⟩ | ⟨hcap, heq⟩ <;> rw [heq]
  · -- the end of the stream: the buffer without capacity is handed out next
    subst hcap
    obtain rfl := List.length_eq_zero_iff.mp (Nat.le_zero.mp hlen)
    exact {
      fault := hs.fault
      holding := by
        refine ⟨by simpa using horder, ?_, ?_⟩
        · simp only [List.forall_mem_append, List.forall_mem_singleton]
          exact ⟨⟨hret, hin, hfits⟩, hout⟩
        · rw [List.map_append] at hids
          simpa using (perm_insert hids).trans (blocks_received ..).symm
      rest := rfl
      output := hs.output
      input := .inr ⟨rfl, rfl⟩
      reading := by simp }
  · exact {
      fault := hs.fault
      holding := by
        refine ⟨horder, ?_, ?_⟩
        · simp only [List.forall_mem_append, List.forall_mem_singleton]
          exact ⟨⟨hret, hin⟩, hout, hfits⟩
        · rw [← List.append_nil (List.map _ _)] at hids
          simpa using (perm_insert hids).trans (blocks_received ..).symm
      rest := hbufs
      output := by
        simp only [List.forall_mem_append, List.forall_mem_singleton]
        exact ⟨hs.output, hcap⟩
      input := .inl fun b hb => hsized b (List.mem_append_left _ hb)
      reading := fun _ _ _ _ _ => .inr (by simp) }

/-- A step that leaves the sequences alone. -/
theorem RecvInv.congr (hs : RecvInv s) (hfault : s'.fault = s.fault)
    (hreceiver : s'.receiver = s.receiver) (hin : s'.cb.inputSequence = s.cb.inputSequence)
    (hout : s'.cb.outputSequence = s.cb.outputSequence)
    (hallocated : s'.cb.allocated = s.cb.allocated)
    (hrecord : s'.cb.receivedRecord = s.cb.receivedRecord ∨ s.receiver ≠ .looping [])
    (harrived : s'.arrived = s.arrived) (hdelivered : s'.delivered = s.delivered)
    (hreturned : s'.returned = s.returned) : RecvInv s' where
  fault := hfault.trans hs.fault
  holding := by
    obtain ⟨horder, hfits, hids⟩ := hs.holding
    refine ⟨?_, ?_, ?_⟩
    · rw [hreturned, hin, hdelivered, horder]
    · rw [hreturned, hin, hout]
      exact hfits
    · rw [hreturned, hin, hout, harrived, hallocated]
      exact hids
  rest := hreceiver ▸ hs.rest
  output := by rw [hout]; exact hs.output
  input := by
    rw [hin, hreceiver]
    rcases hrecord with hrecord | hreceiver
    · rw [hrecord]
      exact hs.input
    · exact .inl fun b hb => hs.sized hreceiver b (List.mem_append_left _ hb)
  reading := by
    rw [Callbacks.Stocked]
    rw [hreceiver, hin, hout]
    exact hs.reading

/-- **A callback that finds a buffer to draw on** if it needs one. -/
theorem RecvInv.callback (hs : RecvInv s) (c : Callback β) (hreceiver : s.receiver ≠ .looping [])
    (hstocked : c.plaintext ≠ [] → s.cb.Stocked) : RecvInv (s.callback c) := by
  have hok : ∀ cb ws, s.cb.call c = .ok (cb, ws) → s.callback c = { s with
      cb := cb
      emitted := s.emitted ++ c.emits
      delivered := s.delivered ++ c.plaintext } := by
    intro cb ws hcall
    simp [Session.callback, hcall]
  by_cases hnil : c.plaintext = []
  · obtain ⟨cb, hcall, hin, hout, hallocated⟩ := Callbacks.call_of_plaintext_nil s.cb hnil
    rw [hok cb [] hcall, hnil]
    exact hs.congr rfl rfl hin hout hallocated (.inr hreceiver) rfl (List.append_nil _) rfl
  · have hsupplied : Supplied s.cb := ⟨hs.sized hreceiver, hstocked hnil⟩
    obtain ⟨⟨cb, ws⟩, hcall⟩ := hsupplied.call_ok c
    obtain ⟨hholding, hsupplied'⟩ := hs.holding.call hsupplied hcall
    rw [hok cb ws hcall]
    exact {
      fault := hs.fault
      holding := hholding
      rest := hs.rest
      output := fun b hb => hsupplied'.sized b (List.mem_append_right _ hb)
      input := .inl fun b hb => hsupplied'.sized b (List.mem_append_left _ hb)
      reading := fun _ _ _ _ _ => hsupplied'.stocked }

theorem RecvInv.step (hs : RecvInv s) (hstep : s.step op = some s') : RecvInv s' := by
  obtain ⟨-, hsteps⟩ := steps_of_step hstep
  have hinput : s.receiver ≠ .looping [] → ∀ b ∈ s.cb.inputSequence, b.capacity ≠ 0 :=
    fun hreceiver b hb => hs.sized hreceiver b (List.mem_append_left _ hb)
  cases hsteps with
  | send data => exact hs.congr rfl rfl rfl rfl rfl (.inl rfl) rfl rfl rfl
  | sent res data hsending => exact hs.congr rfl rfl rfl rfl rfl (.inl rfl) rfl rfl rfl
  | recv hidle => exact hs.again
  | resume bufs hwait hbufs => exact hs.setReceiver hbufs (hinput (by simp [hwait])) (by simp)
  | fail hwait => exact hs.setReceiver rfl (hinput (by simp [hwait])) (by simp)
  | ended hover => exact hs.again
  | take capacity bytes bufs hloop => exact hs.takeBuf hloop
  | consume n block size consumed bufs hread hle =>
    have hrest : wellFormed s.receiver.rest = true := hs.rest
    rw [hread] at hrest
    exact hs.setReceiver hrest (hinput (by simp [hread])) fun _ _ _ _ _ => hs.reading _ _ _ _ hread
  | callback c block size consumed bufs hread =>
    exact hs.callback c (by simp [hread]) fun _ => hs.reading _ _ _ _ hread
  | finish block size consumed bufs hread =>
    have hrest : wellFormed s.receiver.rest = true := hs.rest
    rw [hread] at hrest
    exact hs.setReceiver hrest (hinput (by simp [hread])) (by simp)
  | throws block size consumed bufs hread =>
    exact hs.setReceiver rfl (hinput (by simp [hread])) (by simp)

theorem step_delivered (hs : RecvInv s) (hstep : s.step op = some s') :
    s'.delivered = s.delivered ++ op.plaintext := by
  have hs' := hs.step hstep
  obtain ⟨-, hsteps⟩ := steps_of_step hstep
  have hagain : s.again.delivered = s.delivered := by
    rcases s.again_cases with ⟨-, heq⟩ | ⟨-, heq⟩ <;> rw [heq] <;> rfl
  cases hsteps with
  | callback c block size consumed bufs hread =>
    rcases s.callback_cases c with ⟨f, -, heq⟩ | ⟨cb, ws, hcall, heq⟩
    · exact absurd hs'.fault (by simp [heq])
    · rw [heq]
      rfl
  | recv hidle => exact hagain.trans (List.append_nil _).symm
  | ended hover => exact hagain.trans (List.append_nil _).symm
  | take capacity bytes bufs hloop =>
    rcases s.takeBuf_cases capacity bytes bufs with ⟨-, heq⟩ | ⟨-, heq⟩ <;> rw [heq] <;>
      exact (List.append_nil _).symm
  | _ => exact (List.append_nil _).symm

/-- What the run delivers is what its callbacks deliver. -/
theorem run_delivered (hs : RecvInv s) {ops : List (TlsOp β)} (hrun : run step s ops = some s') :
    s'.delivered = s.delivered ++ ops.flatMap TlsOp.plaintext := by
  induction ops generalizing s with
  | nil =>
    cases hrun
    simp
  | cons op ops ih =>
    obtain ⟨s₁, hstep, hrest⟩ := run_cons_eq_some.mp hrun
    rw [ih (hs.step hstep) hrest, step_delivered hs hstep, List.flatMap_cons, List.append_assoc]

/-- **The plaintext is delivered**, each buffer is in one place, and the loop that packs it ends. -/
theorem recv_delivers (sendBuf : List β) (receivedRecord : Bool) (ops : List (TlsOp β))
    (hrun : run step (established sendBuf receivedRecord) ops = some s) :
    s.fault = none ∧
      contents s.returned ++ contents s.cb.inputSequence = ops.flatMap TlsOp.plaintext ∧
      (∀ b ∈ s.returned ++ s.cb.inputSequence ++ s.cb.outputSequence, b.size ≤ b.capacity) ∧
      ((s.returned ++ s.cb.inputSequence ++ s.cb.outputSequence).map Bin.id).Nodup ∧
      ((s.returned ++ s.cb.inputSequence ++ s.cb.outputSequence).map Bin.id).Perm
        (blocks s.arrived s.cb.allocated) ∧
      ∀ plaintext : List β, s.cb.tlsRecordReceived plaintext ≠ .error .rounds ∧
        ∀ cb' rest w, s.cb.packStep plaintext = .ok (cb', rest, w) → plaintext ≠ [] →
          rest.length < plaintext.length := by
  have hinv := recvInv_established sendBuf receivedRecord
  have hs : RecvInv s := run_invariant (fun _ _ _ hs hstep => hs.step hstep) hinv hrun
  have hdelivered : s.delivered = ops.flatMap TlsOp.plaintext := run_delivered hinv hrun
  refine ⟨hs.fault, hdelivered ▸ hs.holding.order, hs.holding.fits, ?_, hs.holding.ids,
    fun plaintext => ⟨Callbacks.pack_rounds (Nat.le_refl _), fun cb' rest w hround hne => ?_⟩⟩
  · exact hs.holding.ids.nodup_iff.mpr (blocks_nodup ..)
  · exact (Callbacks.packStep_packs hround).length_lt hne

/-- Two records in two segments, the second of which is packed into both buffers. -/
theorem recv_delivers_sample :
    ∃ t, run step (established ([] : List Nat) false)
        [.recv, .resume [(4, [1, 2, 3]), (4, [4, 5])], .next, .consume 3,
          .callback (.recordReceived [10, 11]), .finish, .next, .consume 2,
          .callback (.recordReceived [12, 13, 14]), .finish, .next] = some t ∧
      contents t.returned ++ contents t.cb.inputSequence = [10, 11, 12, 13, 14] := by
  refine exists_run (by decide) fun t ht => ?_
  obtain ⟨-, horder, -⟩ := recv_delivers _ _ _ ht
  exact horder

end Session

end Tls

end Fiona
