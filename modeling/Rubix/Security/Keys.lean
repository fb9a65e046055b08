/-
# `Rubix.Security.Keys` — errors, keys and fingerprints of the security crate

The primitives are third-party code and stay parameters (`Crypto`): nothing is
assumed about them here.  Keys and signatures are fixed-size arrays, so the
length checks of their constructors cannot fail on what this crate passes
them, and have no counterpart.
-/
import Rubix.Domain.Fingerprint

namespace Rubix.Security

/-! ## Errors -/

inductive SecurityError where
  | keyGeneration
  | invalidPublicKey (reason : String)
  | invalidSignature
  | fingerprintMismatch
  | handshakeFailed (reason : String)
  | handshakeTimeout (secs : Nat)
  | handshakeCancelled
  | identityBindingFailed (reason : String)
  | replayDetected (reason : String)
  | decryptionFailed
  | encryptionFailed
  | storage (reason : String)
  | invalidPassphrase
  | serialization (reason : String)
  | randomnessFailed
  | messageTooLarge (size max : Nat)
  | transportClosed
  | internal (reason : String)
  deriving DecidableEq

/-- The `Display` text. -/
def SecurityError.toString : SecurityError → String
  | .keyGeneration => "key generation failed"
  | .invalidPublicKey r => "invalid public key: " ++ r
  | .invalidSignature => "invalid signature"
  | .fingerprintMismatch => "fingerprint mismatch"
  | .handshakeFailed r => "handshake failed: " ++ r
  | .handshakeTimeout s => "handshake timed out after " ++ Nat.repr s ++ "s"
  | .handshakeCancelled => "handshake cancelled"
  | .identityBindingFailed r => "identity binding failed: " ++ r
  | .replayDetected r => "replay detected: " ++ r
  | .decryptionFailed => "decryption failed"
  | .encryptionFailed => "encryption failed"
  | .storage r => "storage error: " ++ r
  | .invalidPassphrase => "invalid passphrase"
  | .serialization r => "serialization error: " ++ r
  | .randomnessFailed => "randomness generation failed"
  | .messageTooLarge size max =>
      "message too large: " ++ Nat.repr size ++ " bytes, max " ++ Nat.repr max
  | .transportClosed => "transport closed"
  | .internal r => "internal invariant violated: " ++ r

abbrev SecurityResult (α : Type) := Except SecurityError α

/-! ## Keys -/

abbrev Ed25519PublicKey := Vector UInt8 32
abbrev X25519PublicKey := Vector UInt8 32
abbrev Ed25519Signature := Vector UInt8 64

/-- The primitives the crate builds on. -/
structure Crypto where
  /-- `SigningKey::sign`, from the stored secret -/
  ed25519Sign : Vector UInt8 32 → List UInt8 → Ed25519Signature
  /-- `VerifyingKey::from_bytes` and `verify`: is it a signature under the key? -/
  ed25519Verify : Ed25519PublicKey → List UInt8 → Ed25519Signature → Bool
  /-- `blake3::Hasher` over the concatenated updates -/
  blake3 : List UInt8 → Vector UInt8 32

structure Ed25519Keypair where
  pub : Ed25519PublicKey
  secret : Vector UInt8 32

/-- Ed25519 verifies, under the public key of a pair, what it signed with the
secret one. -/
def Crypto.Signs (crypto : Crypto) (keys : Ed25519Keypair) : Prop :=
  ∀ bytes, crypto.ed25519Verify keys.pub bytes (crypto.ed25519Sign keys.secret bytes) = true

structure X25519Keypair where
  pub : X25519PublicKey
  secret : Vector UInt8 32

/-- Combined identity keys. -/
structure IdentityKeys where
  ed25519 : Ed25519Keypair
  x25519 : X25519Keypair

/-- `derive_fingerprint`: the first twenty bytes of the hash of both keys. -/
def deriveFingerprint (crypto : Crypto) (ed : Ed25519PublicKey) (x : X25519PublicKey) :
    Fingerprint :=
  ⟨Vector.ofFn fun i => (crypto.blake3 (ed.toList ++ x.toList)).get (i.castLE (by decide))⟩

/-- `IdentityKeys::fingerprint` -/
def IdentityKeys.fingerprint (crypto : Crypto) (keys : IdentityKeys) : Fingerprint :=
  deriveFingerprint crypto keys.ed25519.pub keys.x25519.pub

end Rubix.Security
