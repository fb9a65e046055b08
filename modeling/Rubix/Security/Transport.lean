/-
# `Rubix.Security.Transport` — the encrypted transport after the handshake

`encrypt` and `decrypt` bound the length, hand the text to the Noise library
with a buffer for the result, and hide its errors.

    plaintext          encrypt
    over 1 MiB         MessageTooLarge
    otherwise          what the library makes of it, or EncryptionFailed

The library is third-party code and a parameter.  It has a limit of its own,
65535 bytes to a message, tag included; `Session` is what it documents of two
transport states in sync.
-/
import Rubix.Security.Keys

namespace Rubix.Security

variable {T : Type}

/-- What the transport uses of the Noise library: `write_message` and
`read_message` into a buffer of so many bytes. -/
structure SnowTransport (T : Type) where
  writeMessage : T → (payload : List UInt8) → (capacity : Nat) → Except String (List UInt8) × T
  readMessage : T → (message : List UInt8) → (capacity : Nat) → Except String (List UInt8) × T

/-- Maximum plaintext message size (1 MiB). -/
def maxTransportMsgSize : Nat := 1048576

/-- AEAD authentication tag size for ChaCha20Poly1305. -/
def aeadTagSize : Nat := 16

/-- Maximum ciphertext frame size (plaintext + AEAD tag). -/
def maxTransportFrameSize : Nat := maxTransportMsgSize + aeadTagSize

namespace Transport

/-- `Transport::encrypt`; its mutex is never poisoned. -/
def encrypt (snow : SnowTransport T) (plaintext : List UInt8) (t : T) :
    SecurityResult (List UInt8) × T :=
  if maxTransportMsgSize < plaintext.length then
    (.error (.messageTooLarge plaintext.length maxTransportMsgSize), t)
  else
    match snow.writeMessage t plaintext (plaintext.length + aeadTagSize) with
    | (.error _, t) => (.error .encryptionFailed, t)
    | (.ok output, t) => (.ok output, t)

/-- `Transport::decrypt` -/
def decrypt (snow : SnowTransport T) (ciphertext : List UInt8) (t : T) :
    SecurityResult (List UInt8) × T :=
  if maxTransportFrameSize < ciphertext.length then
    (.error (.messageTooLarge ciphertext.length maxTransportFrameSize), t)
  else
    match snow.readMessage t ciphertext ciphertext.length with
    | (.error _, t) => (.error .decryptionFailed, t)
    | (.ok output, t) => (.ok output, t)

end Transport

/-! ## What the library documents -/

/-- The longest Noise message. -/
def noiseMaxMessage : Nat := 65535

/-- Two transport states that are in sync: a message of the one, which is a
tag longer than its payload, is read back by the other, and they stay in sync;
a message that would be too long is refused. -/
structure Session (snow : SnowTransport T) (InSync : T → T → Prop) : Prop where
  delivers : ∀ {a b : T} {payload : List UInt8}, InSync a b →
    payload.length + aeadTagSize ≤ noiseMaxMessage →
      ∃ message a', snow.writeMessage a payload (payload.length + aeadTagSize) = (.ok message, a') ∧
        message.length = payload.length + aeadTagSize ∧
        ∃ b', snow.readMessage b message message.length = (.ok payload, b') ∧ InSync a' b'
  refuses : ∀ {a : T} {payload : List UInt8}, noiseMaxMessage < payload.length + aeadTagSize →
    ∃ e a', snow.writeMessage a payload (payload.length + aeadTagSize) = (.error e, a')

section
variable {snow : SnowTransport T} {InSync : T → T → Prop} {a b : T} {plaintext : List UInt8}

/-- A plaintext that fits a Noise message goes through. -/
theorem Session.roundTrip (h : Session snow InSync) (hsync : InSync a b)
    (hfits : plaintext.length + aeadTagSize ≤ noiseMaxMessage) :
    ∃ ciphertext a' b', Transport.encrypt snow plaintext a = (.ok ciphertext, a') ∧
      ciphertext.length = plaintext.length + aeadTagSize ∧
      Transport.decrypt snow ciphertext b = (.ok plaintext, b') := by
  obtain ⟨ciphertext, a', hwrite, hlength, b', hread, -⟩ := h.delivers hsync hfits
  have hsmall : plaintext.length + 16 ≤ 65535 := hfits
  have hplain : ¬ maxTransportMsgSize < plaintext.length := by
    rw [maxTransportMsgSize]
    omega
  have hcipher : ¬ maxTransportFrameSize < ciphertext.length := by
    rw [hlength, maxTransportFrameSize, maxTransportMsgSize, aeadTagSize]
    omega
  refine ⟨ciphertext, a', b', ?_, hlength, ?_⟩
  · rw [Transport.encrypt, if_neg hplain, hwrite]
  · rw [Transport.decrypt, if_neg hcipher, hread]

/-- A plaintext between the two limits is not encrypted. -/
theorem Session.encrypt_refused (h : Session snow InSync)
    (hnoise : noiseMaxMessage < plaintext.length + aeadTagSize)
    (hlimit : plaintext.length ≤ maxTransportMsgSize) (a : T) :
    ∃ a', Transport.encrypt snow plaintext a = (.error .encryptionFailed, a') := by
  obtain ⟨e, a', hwrite⟩ := h.refuses (a := a) hnoise
  refine ⟨a', ?_⟩
  rw [Transport.encrypt, if_neg (Nat.not_lt.mpr hlimit), hwrite]

end

end Rubix.Security
