/-
# `Rubix.Networking.Beacon` — the signed discovery beacon

A beacon carries its keys, its fingerprint and its signature as text.  What is
signed is the concatenation of all other fields, with nothing between them:

    version · display_name · ed25519_public · x25519_public · fingerprint · tcp_port · timestamp
       2          any              64               64           any           2          8

Of the four texts in the middle two have any length.  Still the bytes determine
the fields (`signaturePayload_injective`): the keys are 128 hex digits that end
where the fingerprint begins, and the fingerprint has forty of them, wherever
they are among its other characters.
-/
import Rubix.Domain.FingerprintText
import Rubix.Lib.Json
import Rubix.Security.Idealized

namespace Rubix.Networking

open Security (Crypto Ed25519Keypair X25519PublicKey deriveFingerprint)
open Security.IdentityBindPayload (field)

/-- The seconds since the epoch of a `SystemTime`, which counts them in an
`i64`; the sums below stay far from the end of `u64`. -/
structure UnixSeconds where
  secs : Nat
  lt : secs < 9223372036854775808

/-- UDP discovery beacon. -/
structure DiscoveryBeacon where
  version : UInt16
  displayName : String
  ed25519Public : String
  x25519Public : String
  fingerprint : String
  tcpPort : UInt16
  timestamp : UInt64
  signature : String
  deriving DecidableEq

/-- Maximum age of a beacon before it is considered stale. -/
def beaconMaxAgeSecs : Nat := 60

namespace DiscoveryBeacon

/-- `as_bytes` of a text. -/
def bytesOf (s : String) : List UInt8 := Utf8.encode s.toList

/-- `hex::encode` -/
def hex (bytes : List UInt8) : String := String.ofList (Hex.encode bytes)

/-- `signature_payload`: the data that is signed. -/
def signaturePayload (b : DiscoveryBeacon) : List UInt8 :=
  Bytes.toLe 2 b.version.toNat ++ bytesOf b.displayName ++ bytesOf b.ed25519Public ++
    bytesOf b.x25519Public ++ bytesOf b.fingerprint ++ Bytes.toLe 2 b.tcpPort.toNat ++
    Bytes.toLe 8 b.timestamp.toNat

/-- `DiscoveryBeacon::create`, at a reading of the clock. -/
def create (crypto : Crypto) (identity : Ed25519Keypair) (x25519Public : X25519PublicKey)
    (tcpPort : UInt16) (displayName : String) (now : UnixSeconds) : DiscoveryBeacon :=
  let beacon : DiscoveryBeacon :=
    { version := 1
      displayName
      ed25519Public := hex identity.pub.toList
      x25519Public := hex x25519Public.toList
      fingerprint := (deriveFingerprint crypto identity.pub x25519Public).toFormattedString
      tcpPort
      timestamp := UInt64.ofNat now.secs
      signature := "" }
  { beacon with
    signature := hex (crypto.ed25519Sign identity.secret beacon.signaturePayload).toList }

/-- `ok_or(e)?` -/
def orErr {α : Type} (o : Option α) (e : String) : Except String α :=
  match o with
  | some a => .ok a
  | none => .error e

/-- `from_bytes` of a public key or signature of `n` bytes. -/
def arrayFromSlice (n : Nat) (bytes : List UInt8) : Option (Vector UInt8 n) :=
  if bytes.length = n then some (field n 0 bytes) else none

/-- `verify`: freshness, then the fingerprint of the keys, then the signature. -/
def verify (crypto : Crypto) (b : DiscoveryBeacon) (now : UnixSeconds) : Except String Unit :=
  if now.secs + beaconMaxAgeSecs < b.timestamp.toNat then
    .error "beacon timestamp in future"
  else if b.timestamp.toNat + beaconMaxAgeSecs < now.secs then
    .error "beacon too old"
  else do
    let ed25519Bytes ← orErr (Hex.decode b.ed25519Public.toList) "invalid ed25519 hex"
    let x25519Bytes ← orErr (Hex.decode b.x25519Public.toList) "invalid x25519 hex"
    let ed25519 ← orErr (arrayFromSlice 32 ed25519Bytes) "invalid ed25519 key"
    let x25519 ← orErr (arrayFromSlice 32 x25519Bytes) "invalid x25519 key"
    let claimed ← orErr (Fingerprint.fromHex b.fingerprint).toOption "invalid fingerprint"
    if deriveFingerprint crypto ed25519 x25519 ≠ claimed then
      .error "fingerprint mismatch"
    else do
      let sigBytes ← orErr (Hex.decode b.signature.toList) "invalid signature hex"
      let signature ← orErr (arrayFromSlice 64 sigBytes) "invalid signature length"
      if crypto.ed25519Verify ed25519 b.signaturePayload signature then .ok ()
      else .error "signature verification failed"

/-- The JSON text of a beacon, its fields in the order of their declaration. -/
def toJson (b : DiscoveryBeacon) : List Char := Json.object
  [("version", Json.number b.version.toNat),
    ("display_name", Json.string b.displayName),
    ("ed25519_public", Json.string b.ed25519Public),
    ("x25519_public", Json.string b.x25519Public),
    ("fingerprint", Json.string b.fingerprint),
    ("tcp_port", Json.number b.tcpPort.toNat),
    ("timestamp", Json.number b.timestamp.toNat),
    ("signature", Json.string b.signature)]

/-- `to_bytes` -/
def toBytes (b : DiscoveryBeacon) : List UInt8 := Utf8.encode b.toJson

/-! ## What is signed -/

/-- The structural checks of `verify`. -/
structure WellFormed (b : DiscoveryBeacon) : Prop where
  ed25519 : ∃ bytes, Hex.decode b.ed25519Public.toList = some bytes ∧ bytes.length = 32
  x25519 : ∃ bytes, Hex.decode b.x25519Public.toList = some bytes ∧ bytes.length = 32
  fingerprint : ∃ fp, Fingerprint.fromHex b.fingerprint = .ok fp

/-- The four texts, one behind the other. -/
def texts (b : DiscoveryBeacon) : List Char :=
  b.displayName.toList ++ b.ed25519Public.toList ++ b.x25519Public.toList ++ b.fingerprint.toList

theorem signaturePayload_eq (b : DiscoveryBeacon) :
    b.signaturePayload = Bytes.toLe 2 b.version.toNat ++ (Utf8.encode b.texts ++
      (Bytes.toLe 2 b.tcpPort.toNat ++ Bytes.toLe 8 b.timestamp.toNat)) := by
  simp only [signaturePayload, texts, bytesOf, Utf8.encode_append, List.append_assoc]

/-- A key that decodes to 32 bytes is 64 digits. -/
theorem key_digits {key : String}
    (h : ∃ bytes, Hex.decode key.toList = some bytes ∧ bytes.length = 32) :
    key.toList.length = 64 ∧ ∀ c ∈ key.toList, Hex.isDigit c = true := by
  obtain ⟨bytes, hdecode, hlen⟩ := h
  obtain ⟨hlength, hdigits⟩ := Hex.of_decode hdecode
  exact ⟨by omega, hdigits⟩

/-- Before the fingerprint stands a digit, the last of the keys. -/
theorem WellFormed.keys_end {b : DiscoveryBeacon} (h : b.WellFormed) :
    ∃ front c, b.displayName.toList ++ b.ed25519Public.toList ++ b.x25519Public.toList
      = front ++ [c] ∧ Hex.isDigit c = true := by
  obtain ⟨hlen, hdigits⟩ := key_digits h.x25519
  rcases List.eq_nil_or_concat b.x25519Public.toList with hnil | ⟨front, c, hkey⟩
  · rw [hnil] at hlen
    cases hlen
  · rw [List.concat_eq_append] at hkey
    refine ⟨b.displayName.toList ++ b.ed25519Public.toList ++ front, c, ?_, ?_⟩
    · rw [hkey, List.append_assoc _ front]
    · exact hdigits c (hkey ▸ List.mem_append_right _ List.mem_cons_self)

variable {a b : DiscoveryBeacon}

/-- The texts of two beacons cannot be divided differently. -/
theorem texts_injective (ha : a.WellFormed) (hb : b.WellFormed) (h : a.texts = b.texts) :
    a.displayName = b.displayName ∧ a.ed25519Public = b.ed25519Public ∧
      a.x25519Public = b.x25519Public ∧ a.fingerprint = b.fingerprint := by
  obtain ⟨fpa, hfpa⟩ := ha.fingerprint
  obtain ⟨fpb, hfpb⟩ := hb.fingerprint
  have hcount : a.fingerprint.toList.countP Hex.isDigit = b.fingerprint.toList.countP Hex.isDigit :=
    (Fingerprint.fromHex_ok_iff_count.mp ⟨fpa, hfpa⟩).trans
      (Fingerprint.fromHex_ok_iff_count.mp ⟨fpb, hfpb⟩).symm
  obtain ⟨hfront, hfp⟩ := Hex.append_inj_of_countP ha.keys_end hb.keys_end h hcount
  have hxlen : a.x25519Public.toList.length = b.x25519Public.toList.length :=
    (key_digits ha.x25519).1.trans (key_digits hb.x25519).1.symm
  have hedlen : a.ed25519Public.toList.length = b.ed25519Public.toList.length :=
    (key_digits ha.ed25519).1.trans (key_digits hb.ed25519).1.symm
  obtain ⟨hfront, hx⟩ := List.append_inj' hfront hxlen
  obtain ⟨hname, hed⟩ := List.append_inj' hfront hedlen
  exact ⟨String.toList_inj.mp hname, String.toList_inj.mp hed, String.toList_inj.mp hx,
    String.toList_inj.mp hfp⟩

/-- The bytes that are signed determine the fields. -/
theorem signaturePayload_injective (ha : a.WellFormed) (hb : b.WellFormed)
    (h : a.signaturePayload = b.signaturePayload) :
    a.version = b.version ∧ a.displayName = b.displayName ∧ a.ed25519Public = b.ed25519Public ∧
      a.x25519Public = b.x25519Public ∧ a.fingerprint = b.fingerprint ∧ a.tcpPort = b.tcpPort ∧
      a.timestamp = b.timestamp := by
  rw [signaturePayload_eq, signaturePayload_eq] at h
  obtain ⟨hversion, hrest⟩ := List.append_inj h (by rw [Bytes.length_toLe, Bytes.length_toLe])
  obtain ⟨hmiddle, htail⟩ := List.append_inj' hrest (by
    simp only [List.length_append, Bytes.length_toLe])
  obtain ⟨hport, htime⟩ := List.append_inj htail (by rw [Bytes.length_toLe, Bytes.length_toLe])
  have htexts : a.texts = b.texts := by
    rw [← Utf8.lossy_encode a.texts, hmiddle, Utf8.lossy_encode]
  obtain ⟨hname, hed, hx, hfp⟩ := texts_injective ha hb htexts
  have h16 : ∀ n : UInt16, n.toNat < Nat.pow 256 2 := fun n => n.toNat_lt
  have h64 : ∀ n : UInt64, n.toNat < Nat.pow 256 8 := fun n => n.toNat_lt
  refine ⟨?_, hname, hed, hx, hfp, ?_, ?_⟩
  · exact UInt16.toNat_inj.mp (Bytes.toLe_injective (h16 _) (h16 _) hversion)
  · exact UInt16.toNat_inj.mp (Bytes.toLe_injective (h16 _) (h16 _) hport)
  · exact UInt64.toNat_inj.mp (Bytes.toLe_injective (h64 _) (h64 _) htime)

/-! ## What `create` makes -/

section
variable {crypto : Crypto} {identity : Ed25519Keypair} {x25519 : X25519PublicKey}
  {tcpPort : UInt16} {displayName : String} {now : UnixSeconds}

theorem decode_hex (bytes : List UInt8) : Hex.decode (hex bytes).toList = some bytes := by
  rw [hex, String.toList_ofList, Hex.decode_encode]

theorem create_wellFormed :
    (create crypto identity x25519 tcpPort displayName now).WellFormed where
  ed25519 := ⟨identity.pub.toList, decode_hex _, identity.pub.length_toList⟩
  x25519 := ⟨x25519.toList, decode_hex _, x25519.length_toList⟩
  fingerprint := ⟨_, Fingerprint.fromHex_toFormattedString _⟩

end

theorem instant_lt : 1700000000 < 9223372036854775808 := by decide

/-- A second of November 2023. -/
def instant : UnixSeconds := ⟨1700000000, instant_lt⟩

/-- A beacon of Alice's, with a name that looks like the beginning of a key. -/
def sample : DiscoveryBeacon :=
  create Security.Idealized.crypto Security.Idealized.alice.ed25519
    Security.Idealized.alice.x25519.pub 7878 "f00d" instant

theorem sample_unambiguous :
    let unsigned : DiscoveryBeacon := { sample with signature := "" }
    sample.version = unsigned.version ∧ sample.displayName = unsigned.displayName ∧
      sample.ed25519Public = unsigned.ed25519Public ∧
      sample.x25519Public = unsigned.x25519Public ∧ sample.fingerprint = unsigned.fingerprint ∧
      sample.tcpPort = unsigned.tcpPort ∧ sample.timestamp = unsigned.timestamp := by
  have hsample : sample.WellFormed := create_wellFormed
  exact signaturePayload_injective hsample ⟨hsample.ed25519, hsample.x25519, hsample.fingerprint⟩
    rfl

end DiscoveryBeacon
end Rubix.Networking
