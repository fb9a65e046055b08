/-
# `Rubix.Security.IdentityFile` — the identity file, encrypted under a passphrase

Two layouts, one inside the other.  The plaintext is 128 bytes,

    0..32    Ed25519 secret        32..64    Ed25519 public key
    64..96   X25519 secret         96..128   X25519 public key

and the file is

    0        version
    1..33    salt of the key derivation
    33..45   nonce
    45..49   length of the ciphertext, u32 big endian
    49..     ciphertext

Reading the plaintext insists on its size.  Reading the file does not: what
stands behind the ciphertext is ignored, and no check is made of it
(`EncryptedBlob.fromBytes_ok`).
-/
import Rubix.Lib.Effect
import Rubix.Lib.Utf8
import Rubix.Security.Idealized
import Rubix.Security.IdentityBind

namespace Rubix.Security

open IdentityBindPayload (field toList_field field_eq drop_eq_field)

/-- The primitives the store builds on; the key derivation's parameters are
a type of that library. -/
structure Primitives (P : Type) where
  /-- `SigningKey::from_bytes` and `verifying_key` -/
  ed25519Public : Vector UInt8 32 → Ed25519PublicKey
  /-- `DalekPublic::from` -/
  x25519Public : Vector UInt8 32 → X25519PublicKey
  /-- `argon2::Params::new`: memory, iterations, parallelism, output length -/
  argon2Params : Nat → Nat → Nat → Option Nat → Except String P
  /-- `hash_password_into` a key of 32 bytes: passphrase and salt -/
  argon2Hash : P → List UInt8 → List UInt8 → Except String (Vector UInt8 32)
  /-- `ChaCha20Poly1305`: key, nonce and plaintext, or ciphertext -/
  aeadEncrypt : Vector UInt8 32 → Vector UInt8 12 → List UInt8 → Option (List UInt8)
  aeadDecrypt : Vector UInt8 32 → Vector UInt8 12 → List UInt8 → Option (List UInt8)

variable {P : Type}

/-! ## Key pairs -/

/-- What both `from_parts` check of a pair: the public key is the one derived
from the secret. -/
def matchingParts {α : Type} (derived pub : Vector UInt8 32) (keys : α) : SecurityResult α :=
  if derived ≠ pub then .error (.invalidPublicKey "public key mismatch") else .ok keys

theorem matchingParts_ok {α : Type} {derived pub : Vector UInt8 32} {keys made : α} :
    matchingParts derived pub keys = .ok made ↔ made = keys ∧ pub = derived := by
  unfold matchingParts
  split <;> rename_i h
  · simp [Ne.symm h]
  · simp [Decidable.of_not_not h, eq_comm]

/-- `Ed25519Keypair::generate`, on the secret drawn. -/
def Ed25519Keypair.generate (prims : Primitives P) (secret : Vector UInt8 32) : Ed25519Keypair :=
  ⟨prims.ed25519Public secret, secret⟩

/-- `Ed25519Keypair::from_parts` -/
def Ed25519Keypair.fromParts (prims : Primitives P) (secret : Vector UInt8 32)
    (pub : Ed25519PublicKey) : SecurityResult Ed25519Keypair :=
  matchingParts (prims.ed25519Public secret) pub ⟨pub, secret⟩

/-- `X25519Keypair::generate`, on the secret drawn. -/
def X25519Keypair.generate (prims : Primitives P) (secret : Vector UInt8 32) : X25519Keypair :=
  ⟨prims.x25519Public secret, secret⟩

/-- `X25519Keypair::from_parts` -/
def X25519Keypair.fromParts (prims : Primitives P) (secret : Vector UInt8 32)
    (pub : X25519PublicKey) : SecurityResult X25519Keypair :=
  matchingParts (prims.x25519Public secret) pub ⟨pub, secret⟩

namespace IdentityKeys

/-- `IdentityKeys::generate`, on the two secrets drawn. -/
def generate (prims : Primitives P) (edSecret xSecret : Vector UInt8 32) : IdentityKeys :=
  ⟨.generate prims edSecret, .generate prims xSecret⟩

/-- `IdentityKeys::from_parts`: a fingerprint can be derived from any two
public keys, so it only bundles them. -/
def fromParts (ed25519 : Ed25519Keypair) (x25519 : X25519Keypair) : SecurityResult IdentityKeys :=
  .ok ⟨ed25519, x25519⟩

end IdentityKeys

/-- The pairs that a caller can have made. -/
inductive Ed25519Keypair.Made (prims : Primitives P) : Ed25519Keypair → Prop where
  | generate (secret : Vector UInt8 32) : Made prims (.generate prims secret)
  | fromParts {secret pub keys} (h : Ed25519Keypair.fromParts prims secret pub = .ok keys) :
      Made prims keys

inductive X25519Keypair.Made (prims : Primitives P) : X25519Keypair → Prop where
  | generate (secret : Vector UInt8 32) : Made prims (.generate prims secret)
  | fromParts {secret pub keys} (h : X25519Keypair.fromParts prims secret pub = .ok keys) :
      Made prims keys

/-- The identity keys that a caller can have made. -/
inductive IdentityKeys.Made (prims : Primitives P) : IdentityKeys → Prop where
  | generate (edSecret xSecret : Vector UInt8 32) : Made prims (.generate prims edSecret xSecret)
  | fromParts {ed25519 x25519 keys} (hed : ed25519.Made prims) (hx : x25519.Made prims)
      (h : IdentityKeys.fromParts ed25519 x25519 = .ok keys) : Made prims keys

/-- Both public keys are those of the secrets. -/
structure IdentityKeys.Consistent (prims : Primitives P) (keys : IdentityKeys) : Prop where
  ed25519 : keys.ed25519.pub = prims.ed25519Public keys.ed25519.secret
  x25519 : keys.x25519.pub = prims.x25519Public keys.x25519.secret

section
variable {prims : Primitives P}

theorem Ed25519Keypair.Made.consistent {keys : Ed25519Keypair} (h : keys.Made prims) :
    keys.pub = prims.ed25519Public keys.secret := by
  cases h with
  | generate secret => rfl
  | fromParts h =>
      obtain ⟨rfl, hpub⟩ := matchingParts_ok.mp h
      exact hpub

theorem X25519Keypair.Made.consistent {keys : X25519Keypair} (h : keys.Made prims) :
    keys.pub = prims.x25519Public keys.secret := by
  cases h with
  | generate secret => rfl
  | fromParts h =>
      obtain ⟨rfl, hpub⟩ := matchingParts_ok.mp h
      exact hpub

theorem IdentityKeys.Made.consistent {keys : IdentityKeys} (h : keys.Made prims) :
    keys.Consistent prims := by
  cases h with
  | generate edSecret xSecret => exact ⟨rfl, rfl⟩
  | fromParts hed hx h =>
      cases h
      exact ⟨hed.consistent, hx.consistent⟩

end

/-! ## The plaintext -/

/-- Serializable representation of the identity keys (only for storage). -/
structure SerializableIdentity where
  ed25519Secret : Vector UInt8 32
  ed25519Public : Vector UInt8 32
  x25519Secret : Vector UInt8 32
  x25519Public : Vector UInt8 32

namespace SerializableIdentity

/-- `to_bytes` -/
def toBytes (s : SerializableIdentity) : List UInt8 :=
  s.ed25519Secret.toList ++ s.ed25519Public.toList ++ s.x25519Secret.toList ++ s.x25519Public.toList

/-- `from_bytes` -/
def fromBytes (bytes : List UInt8) : SecurityResult SerializableIdentity :=
  if bytes.length ≠ 128 then
    .error (.storage s!"invalid identity size: expected 128, got {bytes.length}")
  else .ok
    { ed25519Secret := field 32 0 bytes
      ed25519Public := field 32 32 bytes
      x25519Secret := field 32 64 bytes
      x25519Public := field 32 96 bytes }

/-- `From<&IdentityKeys>` -/
def ofKeys (keys : IdentityKeys) : SerializableIdentity where
  ed25519Secret := keys.ed25519.secret
  ed25519Public := keys.ed25519.pub
  x25519Secret := keys.x25519.secret
  x25519Public := keys.x25519.pub

/-- `TryFrom<SerializableIdentity>` for the keys. -/
def toKeys (prims : Primitives P) (s : SerializableIdentity) : SecurityResult IdentityKeys := do
  let edKeypair ← Ed25519Keypair.fromParts prims s.ed25519Secret s.ed25519Public
  let xKeypair ← X25519Keypair.fromParts prims s.x25519Secret s.x25519Public
  IdentityKeys.fromParts edKeypair xKeypair

theorem length_toBytes (s : SerializableIdentity) : s.toBytes.length = 128 := by
  simp [toBytes]

/-- What is read back is what was written, and nothing else is read. -/
theorem fromBytes_ok {bytes : List UInt8} {s : SerializableIdentity} :
    fromBytes bytes = .ok s ↔ bytes = s.toBytes := by
  constructor
  · intro h
    unfold fromBytes at h
    split at h
    · cases h
    · rename_i hlen
      obtain rfl := Except.ok.inj h
      have h0 : bytes.drop 0 = (field 32 0 bytes).toList ++ bytes.drop 32 :=
        drop_eq_field (by omega)
      have h32 : bytes.drop 32 = (field 32 32 bytes).toList ++ bytes.drop 64 :=
        drop_eq_field (by omega)
      have h64 : bytes.drop 64 = (field 32 64 bytes).toList ++ bytes.drop 96 :=
        drop_eq_field (by omega)
      have h96 : bytes.drop 96 = (field 32 96 bytes).toList ++ bytes.drop 128 :=
        drop_eq_field (by omega)
      have hend : bytes.drop 128 = [] := List.drop_of_length_le (by omega)
      rw [hend, List.append_nil] at h96
      rw [List.drop_zero, h32, h64, h96, ← List.append_assoc, ← List.append_assoc] at h0
      exact h0
  · rintro rfl
    obtain ⟨edSecret, edPublic, xSecret, xPublic⟩ := s
    have h0 : field 32 0 (toBytes ⟨edSecret, edPublic, xSecret, xPublic⟩) = edSecret :=
      field_eq [] (edPublic.toList ++ xSecret.toList ++ xPublic.toList) (by simp [toBytes]) rfl
    have h32 : field 32 32 (toBytes ⟨edSecret, edPublic, xSecret, xPublic⟩) = edPublic :=
      field_eq edSecret.toList (xSecret.toList ++ xPublic.toList) (by simp [toBytes]) (by simp)
    have h64 : field 32 64 (toBytes ⟨edSecret, edPublic, xSecret, xPublic⟩) = xSecret :=
      field_eq (edSecret.toList ++ edPublic.toList) xPublic.toList (by simp [toBytes]) (by simp)
    have h96 : field 32 96 (toBytes ⟨edSecret, edPublic, xSecret, xPublic⟩) = xPublic :=
      field_eq (edSecret.toList ++ edPublic.toList ++ xSecret.toList) [] (by simp [toBytes])
        (by simp)
    rw [fromBytes, if_neg (not_not_intro (length_toBytes _)), h0, h32, h64, h96]

/-- Keys are read off their own bytes, and off no other plaintext; they are
those of a pair each. -/
theorem toKeys_ok {prims : Primitives P} {s : SerializableIdentity} {keys : IdentityKeys} :
    s.toKeys prims = .ok keys ↔ s = ofKeys keys ∧ keys.Consistent prims := by
  constructor
  · intro h
    obtain ⟨ed, hed, h⟩ := Effect.bind_eq_ok.mp h
    obtain ⟨x, hx, h⟩ := Effect.bind_eq_ok.mp h
    obtain rfl := Except.ok.inj h
    obtain ⟨rfl, hedPublic⟩ := matchingParts_ok.mp hed
    obtain ⟨rfl, hxPublic⟩ := matchingParts_ok.mp hx
    exact ⟨rfl, hedPublic, hxPublic⟩
  · rintro ⟨rfl, hed, hx⟩
    have hedParts : Ed25519Keypair.fromParts prims keys.ed25519.secret keys.ed25519.pub
        = .ok keys.ed25519 := matchingParts_ok.mpr ⟨rfl, hed⟩
    have hxParts : X25519Keypair.fromParts prims keys.x25519.secret keys.x25519.pub
        = .ok keys.x25519 := matchingParts_ok.mpr ⟨rfl, hx⟩
    unfold toKeys ofKeys
    rw [hedParts, hxParts]
    rfl

end SerializableIdentity

/-! ## The file -/

/-- Maximum allowed encrypted blob size (64 KB). -/
def maxStoreSize : Nat := 65536

/-- Encrypted blob format. -/
structure EncryptedBlob where
  version : UInt8
  salt : Vector UInt8 32
  nonce : Vector UInt8 12
  ciphertext : List UInt8

namespace EncryptedBlob

/-- `to_bytes`; the length goes through `as u32`. -/
def toBytes (b : EncryptedBlob) : List UInt8 :=
  b.version :: (b.salt.toList ++ b.nonce.toList ++ Bytes.toBe 4 b.ciphertext.length ++ b.ciphertext)

/-- `from_bytes` -/
def fromBytes (bytes : List UInt8) : SecurityResult EncryptedBlob :=
  if bytes.length < 49 then .error (.storage "blob too small")
  else
    let ctLen := Bytes.ofBe (field 4 45 bytes).toList
    if bytes.length < 49 + ctLen then .error (.storage "blob truncated")
    else .ok
      { version := bytes.getD 0 0
        salt := field 32 1 bytes
        nonce := field 12 33 bytes
        ciphertext := (bytes.drop 49).take ctLen }

theorem length_toBytes (b : EncryptedBlob) : b.toBytes.length = 49 + b.ciphertext.length := by
  simp [toBytes]
  omega

/-- The fields at their offsets make up the front of the file. -/
theorem header {bytes : List UInt8} (h : 49 ≤ bytes.length) :
    bytes = bytes.getD 0 0 :: ((field 32 1 bytes).toList ++ ((field 12 33 bytes).toList ++
      ((field 4 45 bytes).toList ++ bytes.drop 49))) := by
  have h1 : bytes.drop 1 = (field 32 1 bytes).toList ++ bytes.drop 33 := drop_eq_field (by omega)
  have h33 : bytes.drop 33 = (field 12 33 bytes).toList ++ bytes.drop 45 :=
    drop_eq_field (by omega)
  have h45 : bytes.drop 45 = (field 4 45 bytes).toList ++ bytes.drop 49 := drop_eq_field (by omega)
  rw [← h45, ← h33, ← h1]
  cases bytes with
  | nil => simp at h
  | cons first rest => rfl

/-- What a blob is read off are its own bytes, with anything behind them. -/
theorem eq_append_of_fromBytes {bytes : List UInt8} {b : EncryptedBlob}
    (h : fromBytes bytes = .ok b) :
    b.ciphertext.length < Nat.pow 256 4 ∧ ∃ extra, bytes = b.toBytes ++ extra := by
  unfold fromBytes at h
  split at h
  · cases h
  · rename_i hsize
    dsimp only at h
    split at h
    · cases h
    · rename_i hlong
      obtain rfl := Except.ok.inj h
      have hct : ((bytes.drop 49).take (Bytes.ofBe (field 4 45 bytes).toList)).length
          = Bytes.ofBe (field 4 45 bytes).toList :=
        List.length_take_of_le (by rw [List.length_drop]; omega)
      have hlt := Bytes.ofBe_lt (field 4 45 bytes).toList
      have hread := Bytes.toBe_ofBe (field 4 45 bytes).toList
      rw [Vector.length_toList] at hlt hread
      constructor
      · rw [hct]
        exact hlt
      · refine ⟨(bytes.drop 49).drop (Bytes.ofBe (field 4 45 bytes).toList), ?_⟩
        dsimp only [toBytes]
        rw [hct, hread, List.cons_append, List.append_assoc, List.append_assoc, List.append_assoc,
          List.take_append_drop]
        exact header (by omega)

theorem fromBytes_toBytes_append {b : EncryptedBlob}
    (hsmall : b.ciphertext.length < Nat.pow 256 4) (extra : List UInt8) :
    fromBytes (b.toBytes ++ extra) = .ok b := by
  obtain ⟨version, salt, nonce, ct⟩ := b
  have hbytes : toBytes ⟨version, salt, nonce, ct⟩ ++ extra = version :: (salt.toList ++
      (nonce.toList ++ (Bytes.toBe 4 ct.length ++ (ct ++ extra)))) := by
    simp [toBytes]
  have hsalt : field 32 1 (toBytes ⟨version, salt, nonce, ct⟩ ++ extra) = salt :=
    field_eq [version] _ hbytes rfl
  have hnonce : field 12 33 (toBytes ⟨version, salt, nonce, ct⟩ ++ extra) = nonce :=
    field_eq (version :: salt.toList) (Bytes.toBe 4 ct.length ++ (ct ++ extra))
      (by rw [hbytes, List.cons_append]) (by simp)
  have hlen : Bytes.ofBe (field 4 45 (toBytes ⟨version, salt, nonce, ct⟩ ++ extra)).toList
      = ct.length := by
    rw [toList_field (version :: (salt.toList ++ nonce.toList)) (ct ++ extra)
      (by rw [hbytes, List.cons_append, List.append_assoc]) (by simp) (Bytes.length_toBe 4 _)]
    exact Bytes.ofBe_toBe_of_lt hsmall
  have hdrop : (toBytes ⟨version, salt, nonce, ct⟩ ++ extra).drop 49 = ct ++ extra := by
    have hfront : toBytes ⟨version, salt, nonce, ct⟩ ++ extra
        = (version :: (salt.toList ++ nonce.toList ++ Bytes.toBe 4 ct.length)) ++ (ct ++ extra) := by
      rw [hbytes, List.cons_append, List.append_assoc, List.append_assoc]
    rw [hfront]
    exact List.drop_left' (by simp)
  have hsize := length_toBytes ⟨version, salt, nonce, ct⟩
  dsimp only at hsize
  rw [fromBytes, if_neg (by rw [List.length_append, hsize]; omega)]
  dsimp only
  rw [hlen, if_neg (by rw [List.length_append, hsize]; omega), hsalt, hnonce, hdrop,
    List.take_left' rfl]
  rfl

/-- A blob is read off its own bytes with anything behind them, and off no
other bytes. -/
theorem fromBytes_ok {bytes : List UInt8} {b : EncryptedBlob} :
    fromBytes bytes = .ok b ↔
      b.ciphertext.length < Nat.pow 256 4 ∧ ∃ extra, bytes = b.toBytes ++ extra := by
  constructor
  · intro h
    exact eq_append_of_fromBytes h
  · rintro ⟨hsmall, extra, rfl⟩
    exact fromBytes_toBytes_append hsmall extra

end EncryptedBlob

namespace SecureStore

/-- `derive_key`: Argon2id with 64 MB, three iterations and four lanes. -/
def deriveKey (prims : Primitives P) (passphrase : String) (salt : Vector UInt8 32) :
    SecurityResult (Vector UInt8 32) :=
  match prims.argon2Params 65536 3 4 (some 32) with
  | .error e => .error (.storage ("argon2 params: " ++ e))
  | .ok params =>
      match prims.argon2Hash params (Utf8.encode passphrase.toList) salt.toList with
      | .error e => .error (.storage ("argon2 hash: " ++ e))
      | .ok key => .ok key

/-- `encrypt`, on the salt and the nonce drawn. -/
def encrypt (prims : Primitives P) (keys : IdentityKeys) (passphrase : String)
    (salt : Vector UInt8 32) (nonce : Vector UInt8 12) : SecurityResult (List UInt8) := do
  let serialized := (SerializableIdentity.ofKeys keys).toBytes
  let key ← deriveKey prims passphrase salt
  match prims.aeadEncrypt key nonce serialized with
  | none => .error (.storage "encryption failed")
  | some ciphertext =>
      let blob : EncryptedBlob := { version := 1, salt, nonce, ciphertext }
      .ok blob.toBytes

/-- `decrypt` -/
def decrypt (prims : Primitives P) (data : List UInt8) (passphrase : String) :
    SecurityResult IdentityKeys := do
  if maxStoreSize < data.length then .error (.storage "blob too large")
  else
    let blob ← EncryptedBlob.fromBytes data
    if blob.version ≠ 1 then .error (.storage s!"unsupported version: {blob.version.toNat}")
    else
      let key ← deriveKey prims passphrase blob.salt
      match prims.aeadDecrypt key blob.nonce blob.ciphertext with
      | none => .error .invalidPassphrase
      | some plaintext =>
          let serializable ← SerializableIdentity.fromBytes plaintext
          serializable.toKeys prims

section
variable {prims : Primitives P} {keys : IdentityKeys} {passphrase : String}

theorem encrypt_ok {salt : Vector UInt8 32} {nonce : Vector UInt8 12} {f : List UInt8} :
    encrypt prims keys passphrase salt nonce = .ok f ↔
      ∃ key ct, deriveKey prims passphrase salt = .ok key ∧
        prims.aeadEncrypt key nonce (SerializableIdentity.ofKeys keys).toBytes = some ct ∧
        f = EncryptedBlob.toBytes ⟨1, salt, nonce, ct⟩ := by
  constructor
  · intro h
    obtain ⟨key, hkey, h⟩ := Effect.bind_eq_ok.mp h
    split at h
    · cases h
    · rename_i ct hct
      exact ⟨key, ct, hkey, hct, (Except.ok.inj h).symm⟩
  · rintro ⟨key, ct, hkey, hct, rfl⟩
    refine Effect.bind_eq_ok.mpr ⟨key, hkey, ?_⟩
    rw [hct]

/-- What it takes for bytes to be decrypted to `keys`. -/
theorem decrypt_ok {data : List UInt8} :
    decrypt prims data passphrase = .ok keys ↔
      data.length ≤ maxStoreSize ∧ keys.Consistent prims ∧
        ∃ salt nonce ct key extra, data = EncryptedBlob.toBytes ⟨1, salt, nonce, ct⟩ ++ extra ∧
          deriveKey prims passphrase salt = .ok key ∧
          prims.aeadDecrypt key nonce ct = some (SerializableIdentity.ofKeys keys).toBytes := by
  constructor
  · intro h
    unfold decrypt at h
    split at h
    · cases h
    · rename_i hsize
      obtain ⟨⟨version, salt, nonce, ct⟩, hblob, h⟩ := Effect.bind_eq_ok.mp h
      split at h
      · cases h
      · rename_i hversion
        obtain ⟨key, hkey, h⟩ := Effect.bind_eq_ok.mp h
        split at h
        · cases h
        · rename_i plaintext hopen
          obtain ⟨s, hs, h⟩ := Effect.bind_eq_ok.mp h
          obtain ⟨rfl, hkeys⟩ := SerializableIdentity.toKeys_ok.mp h
          obtain rfl := SerializableIdentity.fromBytes_ok.mp hs
          obtain ⟨-, extra, hdata⟩ := EncryptedBlob.fromBytes_ok.mp hblob
          obtain rfl : version = 1 := Decidable.of_not_not hversion
          exact ⟨Nat.le_of_not_lt hsize, hkeys, salt, nonce, ct, key, extra, hdata, hkey, hopen⟩
  · rintro ⟨hsize, hkeys, salt, nonce, ct, key, extra, rfl, hkey, hopen⟩
    have hct : ct.length < Nat.pow 256 4 := by
      have hlen := EncryptedBlob.length_toBytes ⟨1, salt, nonce, ct⟩
      rw [List.length_append, hlen, maxStoreSize] at hsize
      dsimp only at hsize
      have hpow : 65536 < Nat.pow 256 4 := by decide
      omega
    have hblob : EncryptedBlob.fromBytes (EncryptedBlob.toBytes ⟨1, salt, nonce, ct⟩ ++ extra)
        = .ok ⟨1, salt, nonce, ct⟩ := EncryptedBlob.fromBytes_ok.mpr ⟨hct, extra, rfl⟩
    rw [decrypt, if_neg (Nat.not_lt.mpr hsize)]
    refine Effect.bind_eq_ok.mpr ⟨_, hblob, ?_⟩
    rw [if_neg (not_not_intro rfl)]
    refine Effect.bind_eq_ok.mpr ⟨key, hkey, ?_⟩
    rw [hopen]
    exact Effect.bind_eq_ok.mpr ⟨_, SerializableIdentity.fromBytes_ok.mpr rfl,
      SerializableIdentity.toKeys_ok.mpr ⟨rfl, hkeys⟩⟩

end

end SecureStore

/-! ## Recovery -/

/-- What the encryption is documented to do: it takes plaintexts of up to
256 GB, adds a tag of 16 bytes, and is undone under the same key and nonce. -/
structure Primitives.Lawful (prims : Primitives P) : Prop where
  seals : ∀ key nonce plaintext, plaintext.length ≤ 274877906880 →
    ∃ ct, prims.aeadEncrypt key nonce plaintext = some ct
  tag : ∀ {key nonce plaintext ct}, prims.aeadEncrypt key nonce plaintext = some ct →
    ct.length = plaintext.length + 16
  opens : ∀ {key nonce plaintext ct}, prims.aeadEncrypt key nonce plaintext = some ct →
    prims.aeadDecrypt key nonce ct = some plaintext

/-- A call of `encrypt`, with the salt and the nonce it draws. -/
structure EncryptCall where
  keys : IdentityKeys
  passphrase : String
  salt : Vector UInt8 32
  nonce : Vector UInt8 12

namespace EncryptCall

/-- What the call encrypts, and what it returns. -/
def plaintext (call : EncryptCall) : List UInt8 := (SerializableIdentity.ofKeys call.keys).toBytes

def file (prims : Primitives P) (call : EncryptCall) : SecurityResult (List UInt8) :=
  SecureStore.encrypt prims call.keys call.passphrase call.salt call.nonce

end EncryptCall

namespace SecureStore

section
variable {prims : Primitives P} {call : EncryptCall} {f : List UInt8}

/-- Every file has the same size. -/
theorem length_of_file
    (htag : ∀ {key nonce plaintext ct}, prims.aeadEncrypt key nonce plaintext = some ct →
      ct.length = plaintext.length + 16)
    (hf : call.file prims = .ok f) : f.length = 193 := by
  obtain ⟨key, ct, -, hct, rfl⟩ := encrypt_ok.mp hf
  rw [EncryptedBlob.length_toBytes]
  show 49 + ct.length = 193
  rw [htag hct, SerializableIdentity.length_toBytes]

/-- A file is decrypted, also with more bytes behind it. -/
theorem decrypt_file_append {extra : List UInt8} (hkeys : call.keys.Consistent prims)
    (hopens : ∀ key ct, deriveKey prims call.passphrase call.salt = .ok key →
      prims.aeadEncrypt key call.nonce call.plaintext = some ct →
      prims.aeadDecrypt key call.nonce ct = some call.plaintext)
    (hf : call.file prims = .ok f) (hsize : (f ++ extra).length ≤ maxStoreSize) :
    decrypt prims (f ++ extra) call.passphrase = .ok call.keys := by
  obtain ⟨key, ct, hkey, hct, rfl⟩ := encrypt_ok.mp hf
  exact decrypt_ok.mpr
    ⟨hsize, hkeys, call.salt, call.nonce, ct, key, extra, rfl, hkey, hopens key ct hkey hct⟩

/-- The plaintext is short, so only the key derivation can fail. -/
theorem deriveKey_of_encrypt_error (lawful : prims.Lawful) {keys : IdentityKeys}
    {passphrase : String} {salt : Vector UInt8 32} {nonce : Vector UInt8 12} {e : SecurityError}
    (h : encrypt prims keys passphrase salt nonce = .error e) :
    deriveKey prims passphrase salt = .error e := by
  cases hkey : deriveKey prims passphrase salt with
  | error e' =>
      rw [encrypt, hkey] at h
      cases h
      rfl
  | ok key =>
      have hlen := SerializableIdentity.length_toBytes (SerializableIdentity.ofKeys keys)
      obtain ⟨ct, hct⟩ := lawful.seals key nonce _ (Nat.le_trans (Nat.le_of_eq hlen) (by decide))
      have hok := encrypt_ok.mpr ⟨key, ct, hkey, hct, rfl⟩
      rw [h] at hok
      cases hok

/-- Every file is decrypted to the keys it was made of. -/
theorem decrypt_file (lawful : prims.Lawful) (hkeys : call.keys.Consistent prims)
    (hf : call.file prims = .ok f) : decrypt prims f call.passphrase = .ok call.keys := by
  have hsize : (f ++ []).length ≤ maxStoreSize := by
    rw [List.append_nil, length_of_file lawful.tag hf]
    decide
  have happend := decrypt_file_append hkeys (fun _ _ _ hct => lawful.opens hct) hf hsize
  rwa [List.append_nil] at happend

end

end SecureStore

namespace Idealized

/-- The tag of a sealed plaintext: a hash of it under the key and the nonce. -/
def storeTag (key : Vector UInt8 32) (nonce : Vector UInt8 12) (plaintext : List UInt8) :
    List UInt8 :=
  (hash 16 (key.toList ++ nonce.toList ++ plaintext)).toList

/-- Sealing puts the tag behind the plaintext, opening checks it. -/
def prims : Primitives Unit where
  ed25519Public := publicOf
  x25519Public := publicOf
  argon2Params _ _ _ _ := .ok ()
  argon2Hash _ passphrase salt := .ok (hash 32 (passphrase ++ salt))
  aeadEncrypt key nonce plaintext :=
    if plaintext.length ≤ 274877906880 then some (plaintext ++ storeTag key nonce plaintext)
    else none
  aeadDecrypt key nonce ct :=
    let plaintext := ct.take (ct.length - 16)
    if ct = plaintext ++ storeTag key nonce plaintext then some plaintext else none

theorem prims_lawful : prims.Lawful where
  seals key nonce plaintext h := ⟨_, if_pos h⟩
  tag {key nonce plaintext ct} h := by
    obtain ⟨-, hct⟩ := Option.ite_none_right_eq_some.mp h
    cases hct
    simp [storeTag]
  opens {key nonce plaintext ct} h := by
    obtain ⟨-, hct⟩ := Option.ite_none_right_eq_some.mp h
    cases hct
    have htake : (plaintext ++ storeTag key nonce plaintext).take
        ((plaintext ++ storeTag key nonce plaintext).length - 16) = plaintext :=
      List.take_left' (by simp [storeTag])
    simp only [prims, htake, if_pos]

theorem alice_made : alice.Made prims :=
  .generate (Vector.replicate 32 10) (Vector.replicate 32 11)

/-- The file of Alice's keys. -/
def aliceCall : EncryptCall := ⟨alice, "pass", Vector.replicate 32 1, Vector.replicate 12 7⟩

end Idealized

namespace SecureStore

/-- The identity file is recoverable: `encrypt` fails only where the key
derivation does, what it returns is small enough to be loaded and decrypts to
the same keys (secrets and public keys, and so the same fingerprint), and the
keys that are decrypted from any bytes are consistent. -/
theorem recoverable {prims : Primitives P} (lawful : prims.Lawful) :
    (∀ keys : IdentityKeys, keys.Made prims → ∀ passphrase salt nonce,
      (∀ e, encrypt prims keys passphrase salt nonce = .error e →
        deriveKey prims passphrase salt = .error e) ∧
      ∀ f, encrypt prims keys passphrase salt nonce = .ok f →
        f.length ≤ maxStoreSize ∧ decrypt prims f passphrase = .ok keys) ∧
    ∀ data passphrase keys, decrypt prims data passphrase = .ok keys → keys.Consistent prims := by
  constructor
  · intro keys hkeys passphrase salt nonce
    constructor
    · intro e he
      exact deriveKey_of_encrypt_error lawful he
    · intro f hf
      let call : EncryptCall := ⟨keys, passphrase, salt, nonce⟩
      have hfile : call.file prims = .ok f := hf
      have hlen : f.length = 193 := length_of_file lawful.tag hfile
      have hdecrypt := decrypt_file lawful hkeys.consistent hfile
      exact ⟨Nat.le_trans (Nat.le_of_eq hlen) (by decide), hdecrypt⟩
  · intro data passphrase keys h
    obtain ⟨-, hconsistent, -⟩ := decrypt_ok.mp h
    exact hconsistent

open Idealized in
/-- Alice's keys come back from their file. -/
theorem alice_recovered :
    ∃ f, aliceCall.file prims = .ok f ∧ f.length ≤ maxStoreSize ∧
      decrypt prims f "pass" = .ok alice := by
  cases hf : aliceCall.file prims with
  | error e =>
      obtain ⟨herror, -⟩ := (recoverable prims_lawful).1 alice alice_made "pass"
        (Vector.replicate 32 1) (Vector.replicate 12 7)
      cases herror e hf
  | ok f =>
      obtain ⟨-, hok⟩ := (recoverable prims_lawful).1 alice alice_made "pass"
        (Vector.replicate 32 1) (Vector.replicate 12 7)
      exact ⟨f, rfl, hok f hf⟩

end SecureStore

end Rubix.Security
