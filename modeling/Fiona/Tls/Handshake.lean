import Fiona.Lib.Rounds

/-!
# The handshakes

`client::async_handshake` and `server::async_handshake` of `src/tls/tls.cpp`. Both receive until the
channel says that the handshake is complete. At the end of the stream a receive yields a buffer
without capacity, and does so each time. The client looks for it among the buffers; the
server passes the bytes of all buffers to the channel at once, and there are none in it.

The channel is not under `src/`; it is given by the functions that the handshakes call.
-/

namespace Fiona

namespace Tls

open Rounds

/-- `Botan::TLS::Channel`. -/
structure TlsChannel (χ β : Type*) where
  isActive : χ → Bool
  isClosed : χ → Bool
  isHandshakeComplete : χ → Bool
  /-- With what is emitted; `none` where it throws. -/
  receivedData : χ → List β → Option (χ × List β)

/-- How a handshake ends. -/
inductive Ending
  | completed
  /-- `EINVAL` is returned. -/
  | einval
  /-- An exception of `received_data` leaves the handshake. -/
  | threw
  deriving DecidableEq, Repr

/-- What a receive yields at the end of the stream. -/
def endOfStream {β : Type*} : List (Nat × List β) := [(0, [])]

def toBytes {β : Type*} (bufs : List (Nat × List β)) : List β := bufs.flatMap Prod.snd

namespace TlsChannel

variable {χ β : Type*} (X : TlsChannel χ β)

/-- The test of both loops. -/
def test (s : χ × List β) : Option Ending :=
  if X.isHandshakeComplete s.1 then some .completed else none

/-- `send_buf_` is sent and cleared, if there is something in it. -/
def flush (s : χ × List β) : χ × List β := (s.1, [])

/-- The client's loop over the buffers of one receive. -/
def clientBufs : χ × List β → List (Nat × List β) → Except Ending (χ × List β)
  | s, [] => .ok s
  | s, (capacity, bytes) :: bufs =>
    if capacity = 0 then .error .einval
    else
      match X.receivedData s.1 bytes with
      | none => .error .threw
      | some (c, emitted) => clientBufs (c, s.2 ++ emitted) bufs

def clientRound (s : χ × List β) (bufs : List (Nat × List β)) : Except Ending (χ × List β) :=
  (X.clientBufs s bufs).map flush

def serverRound (s : χ × List β) (bufs : List (Nat × List β)) : Except Ending (χ × List β) :=
  match X.receivedData s.1 (toBytes bufs) with
  | none => .error .threw
  | some (c, emitted) => .ok (flush (c, s.2 ++ emitted))

/-- `client::async_handshake`, with at most `k` receives; the channel emitted `sendBuf` when it was
made. -/
def clientHandshake (k : Nat) (batches : List (List (Nat × List β))) (c : χ) (sendBuf : List β) :
    Option Ending :=
  if X.isActive c || X.isClosed c then some .einval
  else if sendBuf.isEmpty then some .einval
  else rounds X.test X.clientRound endOfStream k batches (flush (c, sendBuf))

/-- `server::async_handshake`, with at most `k` receives. -/
def serverHandshake (k : Nat) (batches : List (List (Nat × List β))) (c : χ) (sendBuf : List β) :
    Option Ending :=
  if X.isActive c || X.isClosed c then some .einval
  else rounds X.test X.serverRound endOfStream k batches (c, sendBuf)

/-- The channel is given bytes in these pieces. -/
def feed : χ → List (List β) → Option χ
  | c, [] => some c
  | c, piece :: pieces => (X.receivedData c piece).bind fun r => feed r.1 pieces

/-- The handshake is not complete after any part of these bytes, in whatever pieces. -/
def Incomplete (c : χ) (bytes : List β) : Prop :=
  ∀ pieces c', pieces.flatten <+: bytes → X.feed c pieces = some c' →
    X.isHandshakeComplete c' = false

/-- `received_data` on empty input changes nothing and emits nothing. -/
def IgnoresEmpty : Prop := ∀ c, X.receivedData c [] = some (c, [])

/-- `received_data` throws, of the buffers in front of the end of the stream one after the other. -/
def throwsOn : χ → List (Nat × List β) → Bool
  | _, [] => false
  | c, (capacity, bytes) :: bufs =>
    if capacity = 0 then false
    else
      match X.receivedData c bytes with
      | none => true
      | some (c', _) => throwsOn c' bufs

/-- `received_data` throws, of the batches one after the other. -/
def throwsOnBatches : χ → List (List (Nat × List β)) → Bool
  | _, [] => false
  | c, bufs :: batches =>
    match X.receivedData c (toBytes bufs) with
    | none => true
    | some (c', _) => throwsOnBatches c' batches

variable {X} {c c' : χ} {sendBuf emitted : List β} {bytes bytes' : List β}
  {bufs : List (Nat × List β)} {batches : List (List (Nat × List β))} {k : Nat}

theorem Incomplete.test (h : X.Incomplete c bytes) : X.test (c, sendBuf) = none := by
  have hfalse := h [] c (List.nil_prefix) rfl
  simp [TlsChannel.test, hfalse]

theorem Incomplete.step (h : X.Incomplete c (bytes ++ bytes'))
    (hstep : X.receivedData c bytes = some (c', emitted)) : X.Incomplete c' bytes' := by
  intro pieces c'' hprefix hfeed
  refine h (bytes :: pieces) c'' ?_ ?_
  · rw [List.flatten_cons]
    exact List.prefix_append_right_inj bytes |>.mpr hprefix
  · simp [feed, hstep, hfeed]

/-- What the client does with the buffers of one receive, and with what follows them. -/
theorem clientBufs_cases (X : TlsChannel χ β) (c : χ) (sendBuf : List β)
    (bufs : List (Nat × List β)) :
    (X.clientBufs (c, sendBuf) bufs = .error .threw ∧
        ∀ rest, X.throwsOn c (bufs ++ rest) = true) ∨
      (X.clientBufs (c, sendBuf) bufs = .error .einval ∧
        ∀ rest, X.throwsOn c (bufs ++ rest) = false) ∨
      ∃ s, X.clientBufs (c, sendBuf) bufs = .ok s ∧
        (∀ rest, X.throwsOn c (bufs ++ rest) = X.throwsOn s.1 rest) ∧
        ∀ bytes, X.Incomplete c (toBytes bufs ++ bytes) → X.Incomplete s.1 bytes := by
  induction bufs generalizing c sendBuf with
  | nil => exact .inr (.inr ⟨_, rfl, fun _ => rfl, fun _ h => h⟩)
  | cons b bufs ih =>
    obtain ⟨capacity, data⟩ := b
    by_cases hcap : capacity = 0
    · exact .inr (.inl ⟨by simp [clientBufs, hcap], fun rest => by simp [throwsOn, hcap]⟩)
    · cases hread : X.receivedData c data with
      | none =>
        exact .inl ⟨by simp [clientBufs, hcap, hread], fun rest => by simp [throwsOn, hcap, hread]⟩
      | some r =>
        obtain ⟨c₁, emitted⟩ := r
        have hbufs : X.clientBufs (c, sendBuf) ((capacity, data) :: bufs) =
            X.clientBufs (c₁, sendBuf ++ emitted) bufs := by simp [clientBufs, hcap, hread]
        have hthrows : ∀ rest, X.throwsOn c ((capacity, data) :: bufs ++ rest) =
            X.throwsOn c₁ (bufs ++ rest) := by
          intro rest
          simp [throwsOn, hcap, hread]
        simp only [hbufs, hthrows]
        rcases ih c₁ (sendBuf ++ emitted) with h | h | ⟨s, hs, hrest, hincomplete⟩
        · exact .inl h
        · exact .inr (.inl h)
        · refine .inr (.inr ⟨s, hs, hrest, fun bytes h => hincomplete bytes ?_⟩)
          have hcons : toBytes ((capacity, data) :: bufs) ++ bytes =
              data ++ (toBytes bufs ++ bytes) := by simp [toBytes]
          exact (hcons ▸ h).step hread

/-- **The client's loop returns an error** unless the channel throws. -/
theorem client_ends_iff (h : X.Incomplete c (toBytes batches.flatten)) :
    Ends X.test X.clientRound endOfStream batches (c, sendBuf) .einval ↔
      X.throwsOn c batches.flatten = false := by
  induction batches generalizing c sendBuf with
  | nil =>
    refine iff_of_true ?_ rfl
    exact ends_iff.mpr (.inr ⟨h.test, .inl rfl⟩)
  | cons bufs batches ih =>
    rw [ends_iff, h.test]
    simp only [reduceCtorEq, false_or, true_and, List.headD_cons, List.tail_cons,
      List.flatten_cons]
    rcases clientBufs_cases X c sendBuf bufs with ⟨hread, hthrows⟩ | ⟨hread, hthrows⟩ |
      ⟨s, hread, hthrows, hincomplete⟩
    · rw [hthrows]
      simp [clientRound, hread, Except.map]
    · rw [hthrows]
      simp [clientRound, hread, Except.map]
    · have hround : X.clientRound (c, sendBuf) bufs = .ok (flush s) := by
        simp [clientRound, hread, Except.map]
      rw [hthrows, hround]
      have hrest : X.Incomplete s.1 (toBytes batches.flatten) := by
        refine hincomplete _ ?_
        simpa [toBytes] using h
      simp only [flush, Except.ok.injEq, reduceCtorEq, exists_eq_left', false_or]
      exact ih hrest

/-- **The server's loop never returns an error**, whatever it receives. -/
theorem server_ne_einval {s : χ × List β} :
    rounds X.test X.serverRound endOfStream k batches s ≠ some .einval := by
  intro h
  obtain ⟨s, htest | ⟨bufs, hread⟩⟩ := exists_of_rounds h
  · rw [TlsChannel.test] at htest
    split_ifs at htest
    exact absurd htest (by simp)
  · rw [serverRound] at hread
    split at hread <;> exact absurd hread (by simp)

/-- **The server receives forever** if the channel does not throw. -/
theorem serverHandshake_eq_none (hactive : X.isActive c = false) (hclosed : X.isClosed c = false)
    (hempty : X.IgnoresEmpty) (hincomplete : X.Incomplete c (toBytes batches.flatten))
    (hthrows : X.throwsOnBatches c batches = false) :
    X.serverHandshake k batches c sendBuf = none := by
  let I : List (List (Nat × List β)) → χ × List β → Prop := fun batches s =>
    X.Incomplete s.1 (toBytes batches.flatten) ∧ X.throwsOnBatches s.1 batches = false
  have hround : ∀ batches s, I batches s → X.test s = none ∧
      ∃ s', X.serverRound s (batches.headD endOfStream) = .ok s' ∧ I batches.tail s' := by
    rintro batches ⟨c, sendBuf⟩ ⟨hincomplete, hthrows⟩
    refine ⟨hincomplete.test, ?_⟩
    cases batches with
    | nil =>
      -- the bytes at the end of the stream are none
      have hread : X.receivedData c (toBytes endOfStream) = some (c, []) := hempty c
      exact ⟨flush (c, sendBuf ++ []), by simp [serverRound, hread], hincomplete, hthrows⟩
    | cons bufs batches =>
      cases hread : X.receivedData c (toBytes bufs) with
      | none => exact absurd hthrows (by simp [throwsOnBatches, hread])
      | some r =>
        obtain ⟨c', emitted⟩ := r
        refine ⟨flush (c', sendBuf ++ emitted), by simp [serverRound, hread], ?_, ?_⟩
        · have hbytes : X.Incomplete c (toBytes bufs ++ toBytes batches.flatten) := by
            simpa [toBytes] using hincomplete
          exact hbytes.step hread
        · simpa [throwsOnBatches, hread, flush] using hthrows
  have hnone : rounds X.test X.serverRound endOfStream k batches (c, sendBuf) = none :=
    rounds_eq_none hround ⟨hincomplete, hthrows⟩
  simpa [serverHandshake, hactive, hclosed] using hnone

end TlsChannel

open TlsChannel

/-- A channel whose handshake is complete after four bytes. -/
def fourBytes : TlsChannel Nat Nat where
  isActive count := decide (4 ≤ count)
  isClosed _ := false
  isHandshakeComplete count := decide (4 ≤ count)
  receivedData count bytes := some (count + bytes.length, [])

theorem fourBytes_feed (count : Nat) (pieces : List (List Nat)) :
    fourBytes.feed count pieces = some (count + pieces.flatten.length) := by
  induction pieces generalizing count with
  | nil => rfl
  | cons piece pieces ih =>
    have hstep : fourBytes.feed count (piece :: pieces) =
        fourBytes.feed (count + piece.length) pieces := rfl
    rw [hstep, ih, List.flatten_cons, List.length_append, Nat.add_assoc]

theorem fourBytes_incomplete : fourBytes.Incomplete 0 [1, 2] := by
  intro pieces count hprefix hfeed
  have hlen : pieces.flatten.length ≤ 2 := hprefix.length_le
  rw [fourBytes_feed, Option.some.injEq] at hfeed
  show decide (4 ≤ count) = false
  rw [decide_eq_false_iff_not]
  omega

section

variable {χ χ' β : Type*} (X : TlsChannel χ β) (Y : TlsChannel χ' β) (c : χ) (c' : χ')
  (hello : List β) (batches batches' : List (List (Nat × List β)))

theorem client_returns_iff (hincomplete : X.Incomplete c (toBytes batches.flatten)) :
    (∃ k, X.clientHandshake k batches c hello = some .einval) ↔
      (X.isActive c || X.isClosed c) = true ∨ hello = [] ∨
        X.throwsOn c batches.flatten = false := by
  unfold clientHandshake
  by_cases hentry : (X.isActive c || X.isClosed c) = true
  · simp [hentry]
  · by_cases hhello : hello = []
    · simp [hhello]
    · have hempty : ¬hello.isEmpty = true := by simpa using hhello
      simp only [if_neg hentry, if_neg hempty]
      refine (client_ends_iff hincomplete).trans ?_
      rw [or_iff_right hentry, or_iff_right hhello]

theorem server_returns_iff (batches : List (List (Nat × List β))) :
    (∃ k, X.serverHandshake k batches c hello = some .einval) ↔
      (X.isActive c || X.isClosed c) = true := by
  unfold serverHandshake
  by_cases hentry : (X.isActive c || X.isClosed c) = true
  · simp [hentry]
  · simp only [if_neg hentry]
    exact iff_of_false (fun ⟨k, hk⟩ => server_ne_einval hk) hentry

/-- **Both handshakes return an error on a connection that is closed exactly** when the server's
channel was active or closed before, and the client was refused or its channel does not throw. -/
theorem handshakes_end (hincomplete : X.Incomplete c (toBytes batches.flatten)) :
    ((∃ k, X.clientHandshake k batches c hello = some .einval) ∧
        ∃ k, Y.serverHandshake k batches' c' [] = some .einval) ↔
      (Y.isActive c' || Y.isClosed c') = true ∧
        ((X.isActive c || X.isClosed c) = true ∨ hello = [] ∨
          X.throwsOn c batches.flatten = false) := by
  rw [client_returns_iff X c hello batches hincomplete, server_returns_iff]
  exact and_comm

end

/-- A server whose handshake is over refuses, and the client comes to the end of the stream. -/
theorem handshakes_end_sample :
    (∃ k, fourBytes.clientHandshake k [[(8, [1, 2])]] 0 [9] = some .einval) ∧
      ∃ k, fourBytes.serverHandshake k [[(8, [1, 2])]] 4 [] = some .einval :=
  (handshakes_end fourBytes fourBytes 0 4 [9] [[(8, [1, 2])]] [[(8, [1, 2])]]
    fourBytes_incomplete).mpr (by decide)

/-- **The server's handshake does not end** where the peer disconnects after two bytes. -/
theorem serverHandshake_hangs :
    fourBytes.IgnoresEmpty ∧ fourBytes.Incomplete 0 [1, 2] ∧
      (∀ k, fourBytes.serverHandshake k [[(8, [1, 2])]] 0 [] = none) ∧
      ¬((∃ k, fourBytes.clientHandshake k [[(8, [1, 2])]] 0 [9] = some .einval) ∧
        ∃ k, fourBytes.serverHandshake k [[(8, [1, 2])]] 0 [] = some .einval) := by
  have hempty : fourBytes.IgnoresEmpty := fun _ => rfl
  have hnone : ∀ k, fourBytes.serverHandshake k [[(8, [1, 2])]] 0 [] = none := fun k =>
    serverHandshake_eq_none rfl rfl hempty fourBytes_incomplete rfl
  refine ⟨hempty, fourBytes_incomplete, hnone, ?_⟩
  rintro ⟨-, k, hk⟩
  rw [hnone] at hk
  exact absurd hk (by simp)

end Tls

end Fiona
