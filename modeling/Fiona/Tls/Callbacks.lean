import Fiona.Lib.Packing
import Mathlib.Logic.Basic

/-!
# What Botan calls back

`tls_callbacks` of `src/tls/tls.cpp`: what the channel emits is appended to `send_buf_`, and the
plaintext of a record is packed into buffers, which move from `output_sequence_`, where
the ciphertext is read, to `input_sequence_`, from where the user gets them. Sequences
are lists of buffers (`Fiona.Lists`); a buffer is a bin (`Packing.Bin`) named by its
block, and the items in it are its readable bytes, of an arbitrary type.

The channel itself is not under `src/`. What it does is told by the callbacks it makes.
-/

namespace Fiona

namespace Tls

open Packing

/-- The block of a buffer: the `n`-th that was received, or the `n`-th that the callback allocated
itself. -/
inductive Block
  | received (n : Nat)
  | allocated (n : Nat)
  deriving DecidableEq, Repr

/-- `recv_buffer`, with what it holds. -/
abbrev RecvBuffer (β : Type*) := Bin Block β

/-- `tls_callbacks`. -/
structure Callbacks (β : Type*) where
  sendBuf : List β
  inputSequence : List (RecvBuffer β)
  outputSequence : List (RecvBuffer β)
  receivedRecord : Bool
  closeNotifyReceived : Bool
  /-- The number of buffers allocated so far. -/
  allocated : Nat
  deriving DecidableEq, Repr

/-- What must not happen in `tls_record_received`. -/
inductive Fault
  /-- `input_sequence_.front()` of an empty sequence. -/
  | emptyFront
  /-- `BOOST_ASSERT( buf.capacity() > 0 )`. -/
  | noCapacity
  /-- The loop is not over after its rounds. -/
  | rounds
  deriving DecidableEq, Repr

/-- A `memcpy` into a block. -/
structure Write where
  block : Block
  offset : Nat
  length : Nat
  deriving DecidableEq, Repr

/-- A callback that a channel makes. -/
inductive Callback (β : Type*)
  | emitData (data : List β)
  | recordReceived (plaintext : List β)
  /-- `tls_alert` with a close notification. -/
  | closeNotify
  deriving DecidableEq, Repr

section

variable {β : Type*}

/-- What a callback emits. -/
def Callback.emits : Callback β → List β
  | .emitData data => data
  | _ => []

/-- What a callback delivers. -/
def Callback.plaintext : Callback β → List β
  | .recordReceived plaintext => plaintext
  | _ => []

end

namespace Callbacks

variable {β : Type*} (cb : Callbacks β)

/-- The members of a new connection. -/
def init : Callbacks β := ⟨[], [], [], false, false, 0⟩

/-- `tls_emit_data`. -/
def tlsEmitData (data : List β) : Callbacks β := { cb with sendBuf := cb.sendBuf ++ data }

/-- The buffer that the loop of `tls_record_received` takes next. -/
def takeBuffer : Except Fault (RecvBuffer β × Callbacks β) :=
  match cb.outputSequence with
  | buf :: out => .ok (buf, { cb with outputSequence := out })
  | [] =>
    match cb.inputSequence with
    | [] => .error .emptyFront
    | front :: _ =>
      .ok (⟨.allocated cb.allocated, front.capacity, []⟩, { cb with allocated := cb.allocated + 1 })

/-- A buffer is emptied, filled and appended to `input_sequence_`. -/
def fill (buf : RecvBuffer β) (plaintext : List β) :
    Except Fault (Callbacks β × List β × Write) :=
  if buf.capacity = 0 then .error .noCapacity
  else
    let n := min buf.capacity plaintext.length
    .ok ({ cb with inputSequence := cb.inputSequence ++ [buf.refill (plaintext.take n)] },
      plaintext.drop n, ⟨buf.id, 0, n⟩)

/-- A round of the loop with another buffer. -/
def packFresh (plaintext : List β) : Except Fault (Callbacks β × List β × Write) := do
  let (buf, cb) ← cb.takeBuffer
  cb.fill buf plaintext

/-- A round of the loop of `tls_record_received`, with the bytes it leaves and its `memcpy`. -/
def packStep (plaintext : List β) : Except Fault (Callbacks β × List β × Write) :=
  match cb.inputSequence.getLast? with
  | some back =>
    if 0 < back.room then
      let n := min back.room plaintext.length
      let input := cb.inputSequence.dropLast ++ [back.put (plaintext.take n)]
      .ok ({ cb with inputSequence := input }, plaintext.drop n, ⟨back.id, back.size, n⟩)
    else cb.packFresh plaintext
  | none => cb.packFresh plaintext

/-- The loop of `tls_record_received`, in at most `k` rounds. -/
def pack : Nat → Callbacks β → List β → Except Fault (Callbacks β × List Write)
  | _, cb, [] => .ok (cb, [])
  | 0, _, _ :: _ => .error .rounds
  | k + 1, cb, b :: bs => do
    let (cb, rest, w) ← cb.packStep (b :: bs)
    let (cb, ws) ← pack k cb rest
    .ok (cb, w :: ws)

/-- `tls_record_received`; a round for each byte is enough (`Fiona.Tls.Callbacks.pack_rounds`). -/
def tlsRecordReceived (plaintext : List β) : Except Fault (Callbacks β × List Write) :=
  pack plaintext.length { cb with receivedRecord := true } plaintext

/-- A callback, with what it writes. -/
def call : Callback β → Except Fault (Callbacks β × List Write)
  | .emitData data => .ok (cb.tlsEmitData data, [])
  | .recordReceived plaintext => cb.tlsRecordReceived plaintext
  | .closeNotify => .ok ({ cb with closeNotifyReceived := true }, [])

/-! ### A round of the loop -/

/-- **What a round does**: it goes on filling the last buffer, or another one, from
`output_sequence_` or a new one. -/
inductive Packs (cb : Callbacks β) (p : List β) : Callbacks β → List β → Write → Prop
  | extend (back : RecvBuffer β) (n : Nat) (hback : cb.inputSequence.getLast? = some back)
      (hroom : 0 < back.room) (hn : n = min back.room p.length) :
      Packs cb p { cb with
        inputSequence := cb.inputSequence.dropLast ++ [back.put (p.take n)] }
        (p.drop n) ⟨back.id, back.size, n⟩
  | recycle (buf : RecvBuffer β) (out : List (RecvBuffer β)) (n : Nat)
      (hfull : lastRoom cb.inputSequence = 0) (hout : cb.outputSequence = buf :: out)
      (hcap : buf.capacity ≠ 0) (hn : n = min buf.capacity p.length) :
      Packs cb p { cb with
        outputSequence := out
        inputSequence := cb.inputSequence ++ [buf.refill (p.take n)] }
        (p.drop n) ⟨buf.id, 0, n⟩
  | allocate (front : RecvBuffer β) (n : Nat) (hfull : lastRoom cb.inputSequence = 0)
      (hout : cb.outputSequence = []) (hfront : cb.inputSequence.head? = some front)
      (hcap : front.capacity ≠ 0) (hn : n = min front.capacity p.length) :
      Packs cb p { cb with
        allocated := cb.allocated + 1
        inputSequence := cb.inputSequence ++ [⟨.allocated cb.allocated, front.capacity, p.take n⟩] }
        (p.drop n) ⟨.allocated cb.allocated, 0, n⟩

variable {cb} {cb' : Callbacks β} {p p' : List β} {w : Write}

theorem takeBuffer_cases {buf : RecvBuffer β} (h : cb.takeBuffer = .ok (buf, cb')) :
    (∃ out, cb.outputSequence = buf :: out ∧ cb' = { cb with outputSequence := out }) ∨
      cb.outputSequence = [] ∧ ∃ front, cb.inputSequence.head? = some front ∧
        buf = ⟨.allocated cb.allocated, front.capacity, []⟩ ∧
        cb' = { cb with allocated := cb.allocated + 1 } := by
  rw [takeBuffer] at h
  split at h
  · rename_i buf' out hout
    simp only [Except.ok.injEq, Prod.mk.injEq] at h
    obtain ⟨rfl, rfl⟩ := h
    exact .inl ⟨out, hout, rfl⟩
  · rename_i hout
    split at h
    · exact absurd h (by simp)
    · rename_i front rest hin
      simp only [Except.ok.injEq, Prod.mk.injEq] at h
      obtain ⟨rfl, rfl⟩ := h
      exact .inr ⟨hout, front, by rw [hin]; rfl, rfl, rfl⟩

theorem packFresh_packs (hfull : lastRoom cb.inputSequence = 0)
    (h : cb.packFresh p = .ok (cb', p', w)) : Packs cb p cb' p' w := by
  rw [packFresh] at h
  cases htake : cb.takeBuffer with
  | error e => simp [htake, bind, Except.bind] at h
  | ok r =>
    obtain ⟨buf, cb₁⟩ := r
    simp only [htake, bind, Except.bind, fill] at h
    split_ifs at h with hcap
    simp only [Except.ok.injEq, Prod.mk.injEq] at h
    obtain ⟨rfl, rfl, rfl⟩ := h
    rcases takeBuffer_cases htake with ⟨out, hout, rfl⟩ | ⟨hout, front, hfront, rfl, rfl⟩
    · exact .recycle buf out _ hfull hout hcap rfl
    · exact .allocate front _ hfull hout hfront hcap rfl

theorem packStep_packs (h : cb.packStep p = .ok (cb', p', w)) : Packs cb p cb' p' w := by
  rw [packStep] at h
  split at h
  · rename_i back hback
    split_ifs at h with hroom
    · simp only [Except.ok.injEq, Prod.mk.injEq] at h
      obtain ⟨rfl, rfl, rfl⟩ := h
      exact .extend back _ hback hroom rfl
    · exact packFresh_packs (by simpa [lastRoom, hback] using hroom) h
  · rename_i hnone
    exact packFresh_packs (by simp [lastRoom, hnone]) h

/-- **A round consumes at least one byte.** -/
theorem Packs.length_lt (h : Packs cb p cb' p' w) (hp : p ≠ []) : p'.length < p.length := by
  have hpos : 0 < p.length := List.length_pos_iff.mpr hp
  cases h with
  | extend back n hback hroom hn =>
    rw [List.length_drop]
    omega
  | recycle buf out n hfull hout hcap hn =>
    rw [List.length_drop]
    omega
  | allocate front n hfull hout hfront hcap hn =>
    rw [List.length_drop]
    omega

/-! ### The loop -/

/-- What every round keeps, the loop keeps, from any point of it on. -/
theorem pack_invariant_from {I : Callbacks β → List β → List Write → Prop}
    (hround : ∀ cb p ws cb' p' w, p ≠ [] → I cb p ws → Packs cb p cb' p' w → I cb' p' (ws ++ [w]))
    {k : Nat} {ws ws' : List Write} (h : pack k cb p = .ok (cb', ws')) (hI : I cb p ws) :
    I cb' [] (ws ++ ws') := by
  induction k generalizing cb p ws ws' with
  | zero =>
    cases p with
    | nil =>
      simp only [pack, Except.ok.injEq, Prod.mk.injEq] at h
      obtain ⟨rfl, rfl⟩ := h
      rwa [List.append_nil]
    | cons b bs => exact absurd h (by simp [pack])
  | succ k ih =>
    cases p with
    | nil =>
      simp only [pack, Except.ok.injEq, Prod.mk.injEq] at h
      obtain ⟨rfl, rfl⟩ := h
      rwa [List.append_nil]
    | cons b bs =>
      simp only [pack, bind, Except.bind] at h
      cases hstep : cb.packStep (b :: bs) with
      | error e => simp [hstep] at h
      | ok r =>
        obtain ⟨cb₁, rest, w⟩ := r
        have hI₁ := hround _ _ _ _ _ _ (by simp) hI (packStep_packs hstep)
        cases hrest : pack k cb₁ rest with
        | error e => simp [hstep, hrest] at h
        | ok r =>
          obtain ⟨cb₂, ws₂⟩ := r
          simp only [hstep, hrest, Except.ok.injEq, Prod.mk.injEq] at h
          obtain ⟨rfl, rfl⟩ := h
          simpa using ih hrest hI₁

/-- **The rule for the loop**: what every round keeps, of the members, of the plaintext that is left
and of the `memcpy`s so far, the loop keeps. -/
theorem pack_invariant {I : Callbacks β → List β → List Write → Prop}
    (hround : ∀ cb p ws cb' p' w, p ≠ [] → I cb p ws → Packs cb p cb' p' w → I cb' p' (ws ++ [w]))
    {k : Nat} {ws : List Write} (h : pack k cb p = .ok (cb', ws)) (hI : I cb p []) :
    I cb' [] ws := pack_invariant_from hround h hI

/-- Every buffer has capacity. -/
def Sized (cb : Callbacks β) : Prop :=
  ∀ b ∈ cb.inputSequence ++ cb.outputSequence, b.capacity ≠ 0

/-- There is a buffer to draw on. -/
def Stocked (cb : Callbacks β) : Prop := cb.inputSequence ≠ [] ∨ cb.outputSequence ≠ []

instance : Decidable cb.Stocked :=
  inferInstanceAs (Decidable (cb.inputSequence ≠ [] ∨ cb.outputSequence ≠ []))

theorem Packs.sized (h : Packs cb p cb' p' w) (hcb : cb.Sized) : cb'.Sized := by
  intro b hb
  cases h with
  | extend back n hback hroom hn =>
    have hmem : back ∈ cb.inputSequence := List.mem_of_getLast? hback
    simp only [List.append_assoc, List.mem_append, List.mem_singleton] at hb
    rcases hb with hb | rfl | hb
    · exact hcb b (List.mem_append_left _ (List.dropLast_subset _ hb))
    · exact hcb back (List.mem_append_left _ hmem)
    · exact hcb b (List.mem_append_right _ hb)
  | recycle buf out n hfull hout hcap hn =>
    simp only [List.append_assoc, List.mem_append, List.mem_singleton] at hb
    rcases hb with hb | rfl | hb
    · exact hcb b (List.mem_append_left _ hb)
    · exact hcap
    · exact hcb b (List.mem_append_right _ (hout ▸ List.mem_cons_of_mem _ hb))
  | allocate front n hfull hout hfront hcap hn =>
    simp only [List.append_assoc, List.mem_append, List.mem_singleton] at hb
    rcases hb with hb | rfl | hb
    · exact hcb b (List.mem_append_left _ hb)
    · exact hcap
    · exact hcb b (List.mem_append_right _ hb)

/-- A round leaves plaintext in `input_sequence_`. -/
theorem Packs.stocked (h : Packs cb p cb' p' w) : cb'.Stocked := by
  cases h <;> exact .inl (by simp)

/-- A round goes through if and only if there is a buffer to draw on. -/
theorem packStep_of_stocked (hsized : cb.Sized) (hstocked : cb.Stocked) (p : List β) :
    ∃ r, cb.packStep p = .ok r := by
  have hfresh : ∃ r, cb.packFresh p = .ok r := by
    rw [packFresh, takeBuffer]
    cases hout : cb.outputSequence with
    | cons buf out =>
      have hcap : buf.capacity ≠ 0 := hsized buf (by simp [hout])
      simp [fill, hcap, bind, Except.bind]
    | nil =>
      cases hin : cb.inputSequence with
      | nil => exact absurd hstocked (by simp [Stocked, hin, hout])
      | cons front rest =>
        have hcap : front.capacity ≠ 0 := hsized front (by simp [hin])
        simp [fill, hcap, bind, Except.bind]
  rw [packStep]
  split
  · split_ifs
    · exact ⟨_, rfl⟩
    · exact hfresh
  · exact hfresh

theorem packStep_of_not_stocked (hnot : ¬cb.Stocked) (p : List β) :
    cb.packStep p = .error .emptyFront := by
  obtain ⟨hin, hout⟩ : cb.inputSequence = [] ∧ cb.outputSequence = [] := by
    simpa [Stocked] using hnot
  simp [packStep, packFresh, takeBuffer, hin, hout, bind, Except.bind]

/-- **The loop is over after a round for each byte**, at the latest. -/
theorem pack_of_stocked {k : Nat} (hsized : cb.Sized) (hstocked : cb.Stocked)
    (hk : p.length ≤ k) : ∃ r, pack k cb p = .ok r := by
  induction k generalizing cb p with
  | zero =>
    obtain rfl := List.length_eq_zero_iff.mp (Nat.le_zero.mp hk)
    exact ⟨_, rfl⟩
  | succ k ih =>
    cases p with
    | nil => exact ⟨_, rfl⟩
    | cons b bs =>
      obtain ⟨⟨cb₁, rest, w⟩, hstep⟩ := packStep_of_stocked hsized hstocked (b :: bs)
      have hround := packStep_packs hstep
      have hlt := hround.length_lt (by simp)
      have hk : rest.length ≤ k := by
        simp only [List.length_cons] at hk hlt
        omega
      obtain ⟨⟨cb₂, ws⟩, hrest⟩ := ih (hround.sized hsized) hround.stocked hk
      exact ⟨(cb₂, w :: ws), by simp [pack, hstep, hrest, bind, Except.bind]⟩

theorem packStep_ne_rounds (p : List β) : cb.packStep p ≠ .error .rounds := by
  have hfresh : cb.packFresh p ≠ .error .rounds := by
    unfold packFresh takeBuffer fill
    cases cb.outputSequence with
    | cons buf out =>
      simp only [bind, Except.bind]
      split_ifs <;> simp
    | nil =>
      cases cb.inputSequence with
      | nil => simp [bind, Except.bind]
      | cons front rest =>
        simp only [bind, Except.bind]
        split_ifs <;> simp
  rw [packStep]
  split
  · split_ifs
    · simp
    · exact hfresh
  · exact hfresh

theorem pack_rounds {k : Nat} (hk : p.length ≤ k) : pack k cb p ≠ .error .rounds := by
  induction k generalizing cb p with
  | zero =>
    obtain rfl := List.length_eq_zero_iff.mp (Nat.le_zero.mp hk)
    simp [pack]
  | succ k ih =>
    cases p with
    | nil => simp [pack]
    | cons b bs =>
      intro h
      simp only [pack, bind, Except.bind] at h
      cases hstep : cb.packStep (b :: bs) with
      | error e =>
        simp only [hstep, Except.error.injEq] at h
        exact packStep_ne_rounds _ (h ▸ hstep)
      | ok r =>
        obtain ⟨cb₁, rest, w⟩ := r
        have hlt := (packStep_packs hstep).length_lt (by simp)
        cases hrest : pack k cb₁ rest with
        | error e =>
          simp only [hstep, hrest, Except.error.injEq] at h
          exact ih (by omega) (h ▸ hrest)
        | ok r => simp [hstep, hrest] at h

/-- What no round of the loop touches. -/
theorem Packs.keeps (h : Packs cb p cb' p' w) :
    cb'.sendBuf = cb.sendBuf ∧ cb'.receivedRecord = cb.receivedRecord ∧
      cb'.closeNotifyReceived = cb.closeNotifyReceived := by
  cases h <;> exact ⟨rfl, rfl, rfl⟩

/-- Nor does the loop. -/
theorem pack_keeps {k : Nat} {ws : List Write} (h : pack k cb p = .ok (cb', ws)) :
    cb'.sendBuf = cb.sendBuf ∧ cb'.receivedRecord = cb.receivedRecord ∧
      cb'.closeNotifyReceived = cb.closeNotifyReceived := by
  refine pack_invariant (I := fun cb' _ _ => cb'.sendBuf = cb.sendBuf ∧
    cb'.receivedRecord = cb.receivedRecord ∧ cb'.closeNotifyReceived = cb.closeNotifyReceived)
    ?_ h ⟨rfl, rfl, rfl⟩
  rintro cb₁ p₁ ws₁ cb₂ p₂ w - ⟨hbuf, hrecord, hnotify⟩ hround
  obtain ⟨hbuf', hrecord', hnotify'⟩ := hround.keeps
  exact ⟨hbuf'.trans hbuf, hrecord'.trans hrecord, hnotify'.trans hnotify⟩

/-- Only `tls_emit_data` touches `send_buf_`, and it appends. -/
theorem call_sendBuf {c : Callback β} {ws : List Write} (h : cb.call c = .ok (cb', ws)) :
    cb'.sendBuf = cb.sendBuf ++ c.emits := by
  cases c with
  | emitData data =>
    simp only [call, Except.ok.injEq, Prod.mk.injEq] at h
    exact h.1 ▸ rfl
  | recordReceived plaintext =>
    simpa [Callback.emits] using (pack_keeps h).1
  | closeNotify =>
    simp only [call, Except.ok.injEq, Prod.mk.injEq] at h
    simp [← h.1, Callback.emits]

/-- A callback without plaintext leaves the sequences alone. -/
theorem call_of_plaintext_nil (cb : Callbacks β) {c : Callback β} (h : c.plaintext = []) :
    ∃ cb', cb.call c = .ok (cb', []) ∧ cb'.inputSequence = cb.inputSequence ∧
      cb'.outputSequence = cb.outputSequence ∧ cb'.allocated = cb.allocated := by
  cases c with
  | recordReceived plaintext =>
    obtain rfl : plaintext = [] := h
    exact ⟨_, rfl, rfl, rfl, rfl⟩
  | _ => exact ⟨_, rfl, rfl, rfl, rfl⟩

/-- **Plaintext for which there is no buffer** is where `front()` is called of an empty sequence. -/
theorem call_of_not_stocked {c : Callback β} (hnot : ¬cb.Stocked) (h : c.plaintext ≠ []) :
    cb.call c = .error .emptyFront := by
  cases c with
  | recordReceived plaintext =>
    obtain ⟨b, bs, rfl⟩ := List.exists_cons_of_ne_nil h
    have hnot' : ¬({ cb with receivedRecord := true } : Callbacks β).Stocked := hnot
    simp [call, tlsRecordReceived, pack, packStep_of_not_stocked hnot', bind, Except.bind]
  | _ => exact absurd rfl h

end Callbacks

end Tls

end Fiona
