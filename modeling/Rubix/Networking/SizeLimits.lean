/-
# `Rubix.Networking.SizeLimits` — the limits on one path

A message passes four limits, each set in a crate of its own:

    message content      65536      what the domain admits
    transport message    1048576    what `Transport::encrypt` admits
    Noise message        65535      what the library writes, with its 16-byte tag
    frame                65600      what `encode` asserts

The Noise limit is below the frame's, so the assertion never fires; but it is
below the content's as well, by seventeen bytes of plaintext, and far below
the transport's.  What is sent arrives, or is refused for its size, exactly
outside of the band between them (`limitsAgree_iff`).
-/
import Rubix.Domain.Basic
import Rubix.Networking.ConnectionTask
import Rubix.Networking.FrameStream
import Rubix.Security.Transport

namespace Rubix.Networking

open Effect (Prog)
open Security (SnowTransport Session Transport.encrypt Transport.decrypt maxTransportMsgSize
  aeadTagSize noiseMaxMessage)

variable {T : Type}

namespace EncryptedConnection

/-- `EncryptedConnection::recv`, on a stream that is all there. -/
def recv {W : Type} (link : Link W) (ending : IoError) (bytes : List UInt8) :
    Net W (List UInt8 × List UInt8) := do
  let encrypted ← Prog.orFail id (decode ending bytes).1
  let plaintext ← decryptFrame link encrypted
  pure (plaintext, (decode ending bytes).2)

end EncryptedConnection

open EncryptedConnection

/-- One end of a connection: its transport, and the bytes written to the
stream. -/
structure End (T : Type) where
  transport : T
  written : List UInt8

/-- The link of an end, on a stream that takes every byte. -/
def End.link (snow : SnowTransport T) (peer : Fingerprint) : Link (End T) where
  peerFingerprint := peer
  encrypt data w :=
    let r := Transport.encrypt snow data w.transport
    (r.1, { w with transport := r.2 })
  decrypt data w :=
    let r := Transport.decrypt snow data w.transport
    (r.1, { w with transport := r.2 })
  writeAll bytes w := (.ok (), { w with written := w.written ++ bytes })
  handOver _ w := (true, w)

/-- Sent by the end in state `a`, received by the end in state `b`, whatever
follows it on the stream. -/
def Arrives (snow : SnowTransport T) (alice bob : Fingerprint) (a b : T)
    (plaintext : List UInt8) : Prop :=
  (send (End.link snow bob) plaintext ⟨a, []⟩).outcome = .ok () ∧
    ∀ rest, (recv (End.link snow alice) .unexpectedEof
      ((send (End.link snow bob) plaintext ⟨a, []⟩).world.written ++ rest) ⟨b, []⟩).outcome
        = .ok (plaintext, rest)

/-- A plaintext within the transport's limit arrives, and a larger one is
refused for its size. -/
def LimitsAgree (snow : SnowTransport T) (alice bob : Fingerprint) (a b : T)
    (plaintext : List UInt8) : Prop :=
  (plaintext.length ≤ maxTransportMsgSize → Arrives snow alice bob a b plaintext) ∧
    (maxTransportMsgSize < plaintext.length →
      (send (End.link snow bob) plaintext ⟨a, []⟩).outcome
        = .err (.messageTooLarge plaintext.length maxTransportMsgSize))

section
variable {snow : SnowTransport T} {InSync : T → T → Prop} {alice bob : Fingerprint} {a b : T}
  {plaintext : List UInt8}

theorem send_tooLarge (h : maxTransportMsgSize < plaintext.length) :
    (send (End.link snow bob) plaintext ⟨a, []⟩).outcome
      = .err (.messageTooLarge plaintext.length maxTransportMsgSize) := by
  simp only [send, End.link, Prog.silent_bind, Transport.encrypt, if_pos h]
  rfl

/-- What fits a Noise message fits a frame. -/
theorem encodable_of_fits {ciphertext : List UInt8}
    (hfits : plaintext.length + aeadTagSize ≤ noiseMaxMessage)
    (hlength : ciphertext.length = plaintext.length + aeadTagSize) : Encodable ciphertext := by
  rw [Encodable, hlength]
  exact Nat.le_trans hfits (by decide)

theorem arrives_of_fits (h : Session snow InSync) (hsync : InSync a b)
    (hfits : plaintext.length + aeadTagSize ≤ noiseMaxMessage) :
    Arrives snow alice bob a b plaintext := by
  obtain ⟨ciphertext, a', b', hencrypt, hlength, hdecrypt⟩ := h.roundTrip hsync hfits
  have hframe := encodable_of_fits hfits hlength
  have hsend : send (End.link snow bob) plaintext ⟨a, []⟩
      = ⟨.ok (), ⟨a', encode ciphertext⟩, []⟩ := by
    simp only [send, End.link, Prog.silent_bind, hencrypt, Prog.orFail_ok, Prog.pure_bind_run,
      if_pos hframe, List.nil_append]
    rfl
  refine ⟨by rw [hsend], fun rest => ?_⟩
  rw [hsend]
  simp only [recv, decode_encode hframe, Prog.orFail_ok, Prog.pure_bind_run]
  have hplain : decryptFrame (End.link snow alice) ciphertext ⟨b, []⟩
      = ⟨.ok plaintext, ⟨b', []⟩, []⟩ := by
    simp only [decryptFrame, End.link, Prog.silent_bind, hdecrypt, Prog.orFail_ok]
    rfl
  rw [Prog.bind_of_ok (congrArg _ hplain)]
  rfl

/-- Between the limits the library refuses to write the message. -/
theorem send_refused (h : Session snow InSync)
    (hnoise : noiseMaxMessage < plaintext.length + aeadTagSize)
    (hlimit : plaintext.length ≤ maxTransportMsgSize) :
    (send (End.link snow bob) plaintext ⟨a, []⟩).outcome
      = .err (.encryptionFailed "encryption failed") := by
  obtain ⟨a', hencrypt⟩ := h.encrypt_refused hnoise hlimit a
  simp only [send, End.link, Prog.silent_bind, hencrypt]
  rfl

/-- The limits agree on a plaintext exactly if a Noise message has room for
it and its tag, or it is over the transport's limit. -/
theorem limitsAgree_iff (h : Session snow InSync) (hsync : InSync a b) (alice bob : Fingerprint)
    (plaintext : List UInt8) :
    LimitsAgree snow alice bob a b plaintext ↔
      plaintext.length ≤ 65519 ∨ 1048576 < plaintext.length := by
  constructor
  · intro hagree
    apply Decidable.byContradiction
    intro hband
    have hlimit : plaintext.length ≤ maxTransportMsgSize := by
      rw [maxTransportMsgSize]
      omega
    have hnoise : noiseMaxMessage < plaintext.length + aeadTagSize := by
      rw [noiseMaxMessage, aeadTagSize]
      omega
    have hsent := (hagree.1 hlimit).1
    rw [send_refused h hnoise hlimit] at hsent
    cases hsent
  · intro hlength
    constructor
    · intro hlimit
      apply arrives_of_fits h hsync
      rw [maxTransportMsgSize] at hlimit
      rw [noiseMaxMessage, aeadTagSize]
      omega
    · exact send_tooLarge

end

/-! ## A message of the largest content -/

/-- A session whose messages are the payload and a tag that counts them. -/
def countingSnow : SnowTransport Nat where
  writeMessage n payload capacity :=
    if noiseMaxMessage < payload.length + aeadTagSize ∨ capacity < payload.length + aeadTagSize then
      (.error "input error", n)
    else (.ok (payload ++ List.replicate aeadTagSize (UInt8.ofNat n)), n + 1)
  readMessage n message capacity :=
    if noiseMaxMessage < message.length ∨ message.length < aeadTagSize ∨
        capacity < message.length - aeadTagSize then (.error "input error", n)
    else if message.drop (message.length - aeadTagSize)
        ≠ List.replicate aeadTagSize (UInt8.ofNat n) then (.error "decrypt error", n)
    else (.ok (message.take (message.length - aeadTagSize)), n + 1)

theorem countingSnow_session : Session countingSnow Eq where
  delivers {a b payload} hsync hfits := by
    subst hsync
    have hwrite : ¬ (noiseMaxMessage < payload.length + aeadTagSize ∨
        payload.length + aeadTagSize < payload.length + aeadTagSize) := by omega
    have hlength : (payload ++ List.replicate aeadTagSize (UInt8.ofNat a)).length
        = payload.length + aeadTagSize := by
      rw [List.length_append, List.length_replicate]
    refine ⟨payload ++ List.replicate aeadTagSize (UInt8.ofNat a), a + 1, if_neg hwrite, hlength,
      a + 1, ?_, rfl⟩
    have hread : ¬ (noiseMaxMessage < payload.length + aeadTagSize ∨
        payload.length + aeadTagSize < aeadTagSize ∨
        payload.length + aeadTagSize < payload.length + aeadTagSize - aeadTagSize) := by omega
    simp only [countingSnow, hlength, Nat.add_sub_cancel]
    rw [if_neg (by omega), List.drop_left' rfl, if_neg (fun h => h rfl), List.take_left' rfl]
  refuses {a payload} h := ⟨"input error", a, if_pos (.inl h)⟩

/-- The longest plaintext of which a Noise message takes the whole. -/
theorem limitsAgree_longest :
    LimitsAgree countingSnow ⟨Vector.replicate 20 1⟩ ⟨Vector.replicate 20 2⟩ 0 0
        (List.replicate 65519 0) ↔
      (List.replicate 65519 (0 : UInt8)).length ≤ 65519 ∨
        1048576 < (List.replicate 65519 (0 : UInt8)).length :=
  limitsAgree_iff countingSnow_session rfl _ _ _

/-- A message of 65536 bytes is a content the domain admits, and cannot be
sent. -/
theorem largest_content_refused :
    validateMessageContent (List.replicate 65536 0) = .ok () ∧
      ¬ LimitsAgree countingSnow ⟨Vector.replicate 20 1⟩ ⟨Vector.replicate 20 2⟩ 0 0
        (List.replicate 65536 0) := by
  have hlength : (List.replicate 65536 (0 : UInt8)).length = 65536 := List.length_replicate
  constructor
  · rw [validateMessageContent_ok_iff, hlength]
    decide
  · intro hagree
    have hlimit : (List.replicate 65536 (0 : UInt8)).length ≤ maxTransportMsgSize := by
      rw [hlength]
      decide
    have hnoise : noiseMaxMessage < (List.replicate 65536 (0 : UInt8)).length + aeadTagSize := by
      rw [hlength]
      decide
    have hsent := (hagree.1 hlimit).1
    rw [send_refused countingSnow_session hnoise hlimit] at hsent
    exact nomatch hsent

end Rubix.Networking
