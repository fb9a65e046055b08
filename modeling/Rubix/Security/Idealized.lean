/-
# `Rubix.Security.Idealized` — a Noise library and primitives that can be run

Small stand-ins that behave as the real ones are trusted to:

    a public key is the bitwise complement of its secret
    a session's messages open only under the secret that both ends compute
    a signature is made with the signer's secret, and verifies under its key

The world of a run is the bytes the other side has sent; both clocks stand at
the epoch.
-/
import Rubix.Security.Handshake

namespace Rubix.Security
namespace Idealized

def publicOf (secret : Vector UInt8 32) : Vector UInt8 32 := secret.map (255 - ·)

/-- A hash of `n` equal bytes; modulo a prime, that it may tell keys of equal
bytes apart. -/
def hash (n : Nat) (bytes : List UInt8) : Vector UInt8 n :=
  Vector.replicate n (UInt8.ofNat (bytes.foldl (fun acc b => (31 * acc + b.toNat) % 251) 0))

/-- A signature: the signer's secret, and a hash of what is signed. -/
def sign (secret : Vector UInt8 32) (bytes : List UInt8) : Vector UInt8 64 :=
  secret ++ hash 32 bytes

def crypto : Crypto where
  ed25519Sign := sign
  ed25519Verify pub bytes signature := decide (signature = sign (publicOf pub) bytes)
  blake3 := hash 32

/-- A session: the secret of both ends, and the messages so far. -/
structure Session where
  shared : List UInt8
  messages : Nat

/-- The own secret and the other's public key differ in the same bits at both
ends. -/
def build (localPrivate remotePublic : Vector UInt8 32) : Except String Session :=
  .ok ⟨(Vector.zipWith (· ^^^ ·) localPrivate remotePublic).toList, 0⟩

def snow : Snow Session Unit where
  buildInitiator := build
  buildResponder := build
  readMessage s input :=
    if input.take 32 = s.shared then .ok (input.drop 32, { s with messages := s.messages + 1 })
    else .error "decrypt error"
  writeMessage s payload := .ok (s.shared ++ payload, { s with messages := s.messages + 1 })
  isHandshakeFinished s := decide (s.messages = 2)
  intoTransportMode _ := .ok ()

def env : Env (List UInt8) Session Unit where
  crypto := crypto
  snow := snow
  clock := { utcNow := fun w => (0, w), instantNow := fun w => (0, w) }
  stream :=
    { readExact := fun n w =>
        if h : (w.take n).length = n then (.ok ⟨(w.take n).toArray, by simpa using h⟩, w.drop n)
        else (.error "early eof", w)
      writeAll := fun _ w => (.ok (), w)
      flush := fun w => (.ok (), w) }
  fillBytes w := (Vector.replicate 12 7, w)

/-- The keys of three peers. -/
def keysOf (n : UInt8) : IdentityKeys where
  ed25519 := ⟨publicOf (Vector.replicate 32 n), Vector.replicate 32 n⟩
  x25519 := ⟨publicOf (Vector.replicate 32 (n + 1)), Vector.replicate 32 (n + 1)⟩

def alice : IdentityKeys := keysOf 10
def bob : IdentityKeys := keysOf 20
def charlie : IdentityKeys := keysOf 30

theorem signs_of_publicOf {keys : Ed25519Keypair} (h : publicOf keys.pub = keys.secret) :
    crypto.Signs keys := by
  intro bytes
  simp only [crypto]
  rw [h, decide_eq_true_eq]

theorem signs_alice : crypto.Signs alice.ed25519 := signs_of_publicOf (by decide +kernel)

def fingerprintOf (keys : IdentityKeys) : Fingerprint :=
  deriveFingerprint crypto keys.ed25519.pub keys.x25519.pub

/-- Each of the three has a fingerprint of its own. -/
example : [alice, bob, charlie].Pairwise fun p q => fingerprintOf p ≠ fingerprintOf q := by
  decide +kernel

/-- The payload a peer creates for a handshake of its own. -/
def payloadOf (keys : IdentityKeys) (timestamp : Int64) : List UInt8 :=
  (IdentityBindPayload.create crypto keys.ed25519 keys.x25519.pub timestamp
    (Vector.replicate 12 7)).toBytes

/-- What the holder of `keys` puts on the wire for a session with the owner of
`remotePublic`, with any payload. -/
def wire (keys : IdentityKeys) (remotePublic : X25519PublicKey) (payload : List UInt8) :
    Except String (List UInt8) := do
  let session ← snow.buildResponder keys.x25519.secret remotePublic
  let (msg, _) ← snow.writeMessage session payload
  return Bytes.toBe 4 msg.length ++ msg

theorem calendar_second (s : UInt8) :
    -8796093022208 ≤ DateTime.timestamp (seconds s.toNat) ∧
      DateTime.timestamp (seconds s.toNat) ≤ 8796093022208 := by
  rw [DateTime.timestamp, seconds, Int.mul_ediv_cancel _ (by decide)]
  have hs := s.toNat_lt
  omega

/-- A second of the first minutes. -/
def second (s : UInt8) : UtcReading := ⟨seconds s.toNat, calendar_second s⟩

/-- A node that has seen no nonce, with these bytes to read. -/
def node (incoming : List UInt8) : Node (List UInt8) := ⟨.new 65536, incoming⟩

end Idealized
end Rubix.Security
