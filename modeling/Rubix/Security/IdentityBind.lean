/-
# `Rubix.Security.IdentityBind` — the identity payload of the handshake

149 bytes: version, both public keys, a timestamp, a nonce, and an Ed25519
signature over everything before it under a domain separator.

    0        version
    1..33    Ed25519 public key
    33..65   X25519 public key
    65..73   timestamp, i64 little endian
    73..85   nonce
    85..149  signature

`verify` accepts a payload whose signature is good, whose timestamp is within
`timestampSkewSecs` of the clock's second, and whose two keys hash to the
expected fingerprint (`verify_ok`).
-/
import Rubix.Lib.Bytes
import Rubix.Security.Keys

namespace Rubix.Security

/-- Identity binding payload exchanged inside Noise handshake messages. -/
structure IdentityBindPayload where
  version : UInt8
  ed25519Public : Vector UInt8 32
  x25519Public : Vector UInt8 32
  timestamp : Int64
  nonce : Vector UInt8 12
  signature : Ed25519Signature
  deriving DecidableEq

/-- Verified identity extracted from a payload. -/
structure VerifiedIdentity where
  ed25519Public : Ed25519PublicKey
  x25519Public : X25519PublicKey
  fingerprint : Fingerprint
  timestamp : Int64
  nonce : Vector UInt8 12
  deriving DecidableEq

/-- Allowed clock skew for identity payload timestamps, in seconds. -/
def timestampSkewSecs : Int := 30

/-- `b"rubix-identity-bind-v1"` -/
def domainSeparator : List UInt8 :=
  [0x72, 0x75, 0x62, 0x69, 0x78, 0x2d, 0x69, 0x64, 0x65, 0x6e, 0x74, 0x69, 0x74, 0x79, 0x2d, 0x62,
    0x69, 0x6e, 0x64, 0x2d, 0x76, 0x31]

/-- The largest and the smallest `i64`. -/
def i64Max : Int := 9223372036854775807
def i64Min : Int := -9223372036854775808

namespace IdentityBindPayload

/-- `i64::to_le_bytes` -/
def timestampBytes (t : Int64) : List UInt8 := Bytes.toLe 8 t.toBitVec.toNat

/-- `i64::from_le_bytes` -/
def timestampOfBytes (bs : List UInt8) : Int64 := .ofBitVec (BitVec.ofNat 64 (Bytes.ofLe bs))

/-- `signature_payload`: the canonical bytes that are signed. -/
def signaturePayload (p : IdentityBindPayload) : List UInt8 :=
  domainSeparator ++ p.version :: (p.ed25519Public.toList ++ p.x25519Public.toList ++
    timestampBytes p.timestamp ++ p.nonce.toList)

/-- `to_bytes` -/
def toBytes (p : IdentityBindPayload) : List UInt8 :=
  p.version :: (p.ed25519Public.toList ++ p.x25519Public.toList ++ timestampBytes p.timestamp ++
    p.nonce.toList ++ p.signature.toList)

/-- `arr.copy_from_slice(&bytes[start..start + n])`, on a slice long enough. -/
def field (n start : Nat) (bytes : List UInt8) : Vector UInt8 n :=
  Vector.ofFn fun i => bytes.getD (start + i) 0

/-- `from_bytes` -/
def fromBytes (bytes : List UInt8) : SecurityResult IdentityBindPayload :=
  if bytes.length ≠ 149 then
    .error (.identityBindingFailed s!"invalid payload size: expected 149, got {bytes.length}")
  else .ok
    { version := bytes.getD 0 0
      ed25519Public := field 32 1 bytes
      x25519Public := field 32 33 bytes
      timestamp := timestampOfBytes (field 8 65 bytes).toList
      nonce := field 12 73 bytes
      signature := field 64 85 bytes }

/-- `IdentityBindPayload::create`, on the clock's second and the nonce drawn. -/
def create (crypto : Crypto) (ed25519 : Ed25519Keypair) (x25519Public : X25519PublicKey)
    (timestamp : Int64) (nonce : Vector UInt8 12) : IdentityBindPayload :=
  let payload : IdentityBindPayload :=
    { version := 1
      ed25519Public := ed25519.pub
      x25519Public
      timestamp
      nonce
      signature := Vector.replicate 64 0 }
  { payload with signature := crypto.ed25519Sign ed25519.secret payload.signaturePayload }

/-- `verify_signature_and_freshness`, at the clock's second `now`. -/
def verifySignatureAndFreshness (crypto : Crypto) (p : IdentityBindPayload) (now : Int64) :
    SecurityResult Unit :=
  if p.version ≠ 1 then
    .error (.identityBindingFailed s!"unsupported version {p.version.toNat}")
  else if i64Max < now.toInt + timestampSkewSecs then
    .error (.internal "timestamp overflow")
  else if now.toInt - timestampSkewSecs < i64Min then
    .error (.internal "timestamp underflow")
  else if now.toInt + timestampSkewSecs < p.timestamp.toInt then
    .error (.replayDetected "timestamp in future")
  else if p.timestamp.toInt < now.toInt - timestampSkewSecs then
    .error (.replayDetected "timestamp too old")
  else if crypto.ed25519Verify p.ed25519Public p.signaturePayload p.signature = false then
    .error (.identityBindingFailed "signature verification failed")
  else .ok ()

/-- `verify`, against the fingerprint the caller expects. -/
def verify (crypto : Crypto) (p : IdentityBindPayload) (now : Int64) (expectedFp : Fingerprint) :
    SecurityResult VerifiedIdentity :=
  match verifySignatureAndFreshness crypto p now with
  | .error e => .error e
  | .ok () =>
      if deriveFingerprint crypto p.ed25519Public p.x25519Public ≠ expectedFp then
        .error .fingerprintMismatch
      else .ok
        { ed25519Public := p.ed25519Public
          x25519Public := p.x25519Public
          fingerprint := deriveFingerprint crypto p.ed25519Public p.x25519Public
          timestamp := p.timestamp
          nonce := p.nonce }

/-! ## Payloads as bytes -/

theorem timestampOfBytes_timestampBytes (t : Int64) : timestampOfBytes (timestampBytes t) = t := by
  have hsmall : t.toBitVec.toNat % Nat.pow 256 8 = t.toBitVec.toNat :=
    Nat.mod_eq_of_lt t.toBitVec.isLt
  rw [timestampOfBytes, timestampBytes, Bytes.ofLe_toLe, hsmall, BitVec.ofNat_toNat,
    BitVec.setWidth_eq, Int64.ofBitVec_toBitVec]

/-- A field is what stands behind the bytes before its start. -/
theorem toList_field {n start : Nat} {bytes mid : List UInt8} (front back : List UInt8)
    (h : bytes = front ++ (mid ++ back)) (hfront : front.length = start) (hmid : mid.length = n) :
    (field n start bytes).toList = mid := by
  subst h hfront hmid
  refine List.ext_getElem Vector.length_toList ?_
  intro i hi hi'
  simp [field, List.getElem?_append_right, List.getElem?_append_left hi',
    List.getElem?_eq_getElem hi']

/-- A field that holds an array. -/
theorem field_eq {n start : Nat} {bytes : List UInt8} {v : Vector UInt8 n}
    (front back : List UInt8) (h : bytes = front ++ (v.toList ++ back))
    (hfront : front.length = start) : field n start bytes = v :=
  Vector.toList_inj.mp (toList_field front back h hfront Vector.length_toList)

/-- Bytes that reach far enough start with the field there. -/
theorem drop_eq_field {n start : Nat} {bytes : List UInt8} (h : start + n ≤ bytes.length) :
    bytes.drop start = (field n start bytes).toList ++ bytes.drop (start + n) := by
  have hfield : (field n start bytes).toList = (bytes.drop start).take n := by
    refine toList_field (bytes.take start) (bytes.drop (start + n)) ?_ ?_ ?_
    · rw [← List.drop_drop, List.take_append_drop, List.take_append_drop]
    · exact List.length_take_of_le (by omega)
    · exact List.length_take_of_le (by rw [List.length_drop]; omega)
  rw [hfield, ← List.drop_drop, List.take_append_drop]

theorem length_toBytes (p : IdentityBindPayload) : p.toBytes.length = 149 := by
  simp [toBytes, timestampBytes]

/-- A payload survives its encoding. -/
theorem fromBytes_toBytes (p : IdentityBindPayload) : fromBytes p.toBytes = .ok p := by
  obtain ⟨version, ed, x, timestamp, nonce, signature⟩ := p
  have h8 : (timestampBytes timestamp).length = 8 := Bytes.length_toLe 8 _
  have hed : field 32 1 (toBytes ⟨version, ed, x, timestamp, nonce, signature⟩) = ed := by
    refine field_eq [version] (x.toList ++ timestampBytes timestamp ++ nonce.toList ++
      signature.toList) ?_ rfl
    simp [toBytes]
  have hx : field 32 33 (toBytes ⟨version, ed, x, timestamp, nonce, signature⟩) = x := by
    refine field_eq (version :: ed.toList) (timestampBytes timestamp ++ nonce.toList ++
      signature.toList) ?_ (by simp)
    simp [toBytes]
  have ht : (field 8 65 (toBytes ⟨version, ed, x, timestamp, nonce, signature⟩)).toList
      = timestampBytes timestamp := by
    refine toList_field (version :: (ed.toList ++ x.toList)) (nonce.toList ++ signature.toList)
      ?_ (by simp) h8
    simp [toBytes]
  have hn : field 12 73 (toBytes ⟨version, ed, x, timestamp, nonce, signature⟩) = nonce := by
    refine field_eq (version :: (ed.toList ++ x.toList ++ timestampBytes timestamp))
      signature.toList ?_ (by simp [h8])
    simp [toBytes]
  have hs : field 64 85 (toBytes ⟨version, ed, x, timestamp, nonce, signature⟩) = signature := by
    refine field_eq (version :: (ed.toList ++ x.toList ++ timestampBytes timestamp ++
      nonce.toList)) [] ?_ (by simp [h8])
    simp [toBytes]
  rw [fromBytes, if_neg (not_not_intro (length_toBytes _)), hed, hx, ht, hn, hs,
    timestampOfBytes_timestampBytes]
  rfl

/-! ## What verification accepts -/

/-- The timestamp is off the clock by more than the skew that is allowed. -/
def OutOfWindow (p : IdentityBindPayload) (now : Int64) : Prop :=
  now.toInt + timestampSkewSecs < p.timestamp.toInt ∨
    p.timestamp.toInt < now.toInt - timestampSkewSecs

/-- What a payload of this version has to be for its timestamp alone to
decide. -/
structure WellSigned (crypto : Crypto) (p : IdentityBindPayload) : Prop where
  version : p.version = 1
  signed : crypto.ed25519Verify p.ed25519Public p.signaturePayload p.signature = true

theorem verifySignatureAndFreshness_ok {crypto : Crypto} {p : IdentityBindPayload} {now : Int64}
    (h : verifySignatureAndFreshness crypto p now = .ok ()) :
    WellSigned crypto p ∧ ¬ OutOfWindow p now := by
  rw [verifySignatureAndFreshness] at h
  split at h
  · exact nomatch h
  · next hversion =>
      split at h
      · exact nomatch h
      · split at h
        · exact nomatch h
        · split at h
          · exact nomatch h
          · next hfuture =>
              split at h
              · exact nomatch h
              · next hpast =>
                  split at h
                  · exact nomatch h
                  · next hsigned =>
                      refine ⟨⟨Decidable.not_not.mp hversion, Bool.not_eq_false _ ▸ hsigned⟩, ?_⟩
                      intro hout
                      exact hout.elim hfuture hpast

theorem create_wellSigned {crypto : Crypto} {keys : Ed25519Keypair} (h : crypto.Signs keys)
    (x25519Public : X25519PublicKey) (timestamp : Int64) (nonce : Vector UInt8 12) :
    (create crypto keys x25519Public timestamp nonce).WellSigned crypto :=
  ⟨rfl, h _⟩

/-- On a clock away from the ends of `i64`. -/
theorem WellSigned.verify {crypto : Crypto} {p : IdentityBindPayload} (h : WellSigned crypto p)
    {now : Int64} (hmax : now.toInt + timestampSkewSecs ≤ i64Max)
    (hmin : i64Min ≤ now.toInt - timestampSkewSecs) :
    verifySignatureAndFreshness crypto p now =
      if now.toInt + timestampSkewSecs < p.timestamp.toInt then
        .error (.replayDetected "timestamp in future")
      else if p.timestamp.toInt < now.toInt - timestampSkewSecs then
        .error (.replayDetected "timestamp too old")
      else .ok () := by
  have hversion : ¬ p.version ≠ 1 := fun hne => hne h.version
  rw [verifySignatureAndFreshness, if_neg hversion, if_neg (Int.not_lt.mpr hmax),
    if_neg (Int.not_lt.mpr hmin), h.signed, if_neg Bool.false_ne_true.symm]

/-- A verified identity is the payload's, and the fingerprint derived from its
keys is the expected one. -/
theorem verify_ok {crypto : Crypto} {p : IdentityBindPayload} {now : Int64} {fp : Fingerprint}
    {v : VerifiedIdentity} (h : verify crypto p now fp = .ok v) :
    verifySignatureAndFreshness crypto p now = .ok () ∧
      deriveFingerprint crypto p.ed25519Public p.x25519Public = fp ∧
      v = { ed25519Public := p.ed25519Public
            x25519Public := p.x25519Public
            fingerprint := fp
            timestamp := p.timestamp
            nonce := p.nonce } := by
  rw [verify] at h
  split at h
  · exact nomatch h
  · next hfresh =>
      split at h
      · exact nomatch h
      · next hfp =>
          cases h
          have hderived := Decidable.not_not.mp hfp
          exact ⟨hfresh, hderived, by rw [hderived]⟩

/-- The identity is the one that signed the payload, under the fingerprint that
is derived from the payload's keys. -/
def Signs (crypto : Crypto) (p : IdentityBindPayload) (v : VerifiedIdentity) : Prop :=
  v.ed25519Public = p.ed25519Public ∧ v.x25519Public = p.x25519Public ∧
    v.fingerprint = deriveFingerprint crypto p.ed25519Public p.x25519Public ∧
      crypto.ed25519Verify p.ed25519Public p.signaturePayload p.signature = true

theorem verify_signs {crypto : Crypto} {p : IdentityBindPayload} {now : Int64} {fp : Fingerprint}
    {v : VerifiedIdentity} (h : verify crypto p now fp = .ok v) : Signs crypto p v := by
  obtain ⟨hfresh, hderived, rfl⟩ := verify_ok h
  exact ⟨rfl, rfl, hderived.symm, (verifySignatureAndFreshness_ok hfresh).1.signed⟩

end IdentityBindPayload
end Rubix.Security
