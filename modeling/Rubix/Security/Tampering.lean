/-
# `Rubix.Security.Tampering` — which changes of an identity file are noticed

The header of the file is not authenticated, but each of its fields is caught
by something: another version is refused, another salt derives another key,
another nonce does not open the ciphertext, and another length cuts it short
or runs over its end.  Bytes that are added behind the ciphertext are the
exception.  Nothing reads them, so such a file is decrypted like the original
(`SecureStore.tamperEvident_iff`).
-/
import Rubix.Security.IdentityFile

namespace Rubix.Security

variable {P : Type}

/-- Encryption and key derivation idealized for the calls that were made: no
ciphertext opens but theirs, under their own keys and nonces, and nothing else
derives the key of one. -/
structure Primitives.Ideal (prims : Primitives P) (made : EncryptCall → Prop) : Prop where
  tag : ∀ {key nonce plaintext ct}, prims.aeadEncrypt key nonce plaintext = some ct →
    ct.length = plaintext.length + 16
  opens : ∀ {call}, made call → ∀ key ct,
    SecureStore.deriveKey prims call.passphrase call.salt = .ok key →
    prims.aeadEncrypt key call.nonce call.plaintext = some ct →
    prims.aeadDecrypt key call.nonce ct = some call.plaintext
  only : ∀ {key nonce ct plaintext}, prims.aeadDecrypt key nonce ct = some plaintext →
    ∃ call, made call ∧ SecureStore.deriveKey prims call.passphrase call.salt = .ok key ∧
      call.nonce = nonce ∧ prims.aeadEncrypt key nonce call.plaintext = some ct
  distinct : ∀ {call}, made call → ∀ {key passphrase salt},
    SecureStore.deriveKey prims call.passphrase call.salt = .ok key →
    SecureStore.deriveKey prims passphrase salt = .ok key →
    passphrase = call.passphrase ∧ salt = call.salt

namespace SecureStore

/-- A file that one of the calls returned under the passphrase. -/
def FileOf (prims : Primitives P) (made : EncryptCall → Prop) (passphrase : String)
    (data : List UInt8) : Prop :=
  ∃ call, made call ∧ call.passphrase = passphrase ∧ call.file prims = .ok data

/-- Only files are decrypted: any other bytes, such as a file that was edited,
cut or extended, are refused. -/
def TamperEvident (prims : Primitives P) (made : EncryptCall → Prop) (passphrase : String)
    (data : List UInt8) : Prop :=
  ∀ keys, decrypt prims data passphrase = .ok keys → FileOf prims made passphrase data

/-- A file with more bytes behind it, within the size limit. -/
def Extended (prims : Primitives P) (made : EncryptCall → Prop) (passphrase : String)
    (data : List UInt8) : Prop :=
  ∃ f extra, FileOf prims made passphrase f ∧ extra ≠ [] ∧ data = f ++ extra ∧
    data.length ≤ maxStoreSize

section
variable {prims : Primitives P} {made : EncryptCall → Prop} {passphrase : String}
  {data : List UInt8}

/-- Bytes that are decrypted start with a file made under the passphrase.
The salt and the nonce were those of a call, since they led to its key. -/
theorem starts_with_file {keys : IdentityKeys} (ideal : prims.Ideal made)
    (h : decrypt prims data passphrase = .ok keys) :
    ∃ f extra, FileOf prims made passphrase f ∧ data = f ++ extra := by
  obtain ⟨-, -, salt, nonce, ct, key, extra, hdata, hkey, hopen⟩ := decrypt_ok.mp h
  obtain ⟨call, hcall, hcallKey, rfl, hct⟩ := ideal.only hopen
  obtain ⟨rfl, rfl⟩ := ideal.distinct hcall hcallKey hkey
  have hfile : call.file prims = .ok (EncryptedBlob.toBytes ⟨1, call.salt, call.nonce, ct⟩) :=
    encrypt_ok.mpr ⟨key, ct, hkey, hct, rfl⟩
  exact ⟨_, extra, ⟨call, hcall, rfl, hfile⟩, hdata⟩

/-- More bytes behind a file are not noticed. -/
theorem not_tamperEvident_of_extended (ideal : prims.Ideal made)
    (hmade : ∀ call, made call → call.keys.Made prims)
    (h : Extended prims made passphrase data) : ¬ TamperEvident prims made passphrase data := by
  obtain ⟨f, extra, ⟨call, hcall, rfl, hf⟩, hextra, rfl, hsize⟩ := h
  intro htamper
  have hdecrypt := decrypt_file_append (hmade call hcall).consistent (ideal.opens hcall) hf hsize
  obtain ⟨call', -, -, hf'⟩ := htamper _ hdecrypt
  have hlen := length_of_file ideal.tag hf
  have hlen' := length_of_file ideal.tag hf'
  rw [List.length_append, hlen] at hlen'
  exact hextra (List.length_eq_zero_iff.mp (by omega))

end

end SecureStore

namespace Idealized

/-- Primitives on record: the key of one call is derived from its passphrase
and salt alone, and its ciphertext is the only one that opens. -/
def recorded : Primitives Unit :=
  { prims with
    argon2Hash := fun _ passphrase salt =>
      if passphrase = Utf8.encode aliceCall.passphrase.toList ∧ salt = aliceCall.salt.toList then
        .ok (Vector.replicate 32 1)
      else .ok (Vector.replicate 32 0)
    aeadDecrypt := fun key nonce ct =>
      if key = Vector.replicate 32 1 ∧ nonce = aliceCall.nonce ∧
          prims.aeadEncrypt key nonce aliceCall.plaintext = some ct then
        some aliceCall.plaintext
      else none }

theorem recorded_deriveKey (passphrase : String) (salt : Vector UInt8 32) :
    SecureStore.deriveKey recorded passphrase salt =
      if passphrase = aliceCall.passphrase ∧ salt = aliceCall.salt then .ok (Vector.replicate 32 1)
      else .ok (Vector.replicate 32 0) := by
  have hencode : Utf8.encode passphrase.toList = Utf8.encode aliceCall.passphrase.toList ↔
      passphrase = aliceCall.passphrase := by
    constructor
    · intro h
      have hread := congrArg Utf8.lossy h
      rw [Utf8.lossy_encode, Utf8.lossy_encode] at hread
      exact String.toList_inj.mp hread
    · intro h
      rw [h]
  simp only [SecureStore.deriveKey, recorded, prims, hencode, Vector.toList_inj]
  by_cases hsame : passphrase = aliceCall.passphrase ∧ salt = aliceCall.salt
  · rw [if_pos hsame, if_pos hsame]
  · rw [if_neg hsame, if_neg hsame]

theorem recorded_ideal : recorded.Ideal (· = aliceCall) where
  tag := prims_lawful.tag
  opens {call} hcall key ct hkey hct := by
    cases hcall
    rw [recorded_deriveKey, if_pos ⟨rfl, rfl⟩] at hkey
    obtain rfl := Except.ok.inj hkey
    exact if_pos ⟨rfl, rfl, hct⟩
  only {key nonce ct plaintext} h := by
    have hkey := recorded_deriveKey aliceCall.passphrase aliceCall.salt
    rw [if_pos ⟨rfl, rfl⟩] at hkey
    obtain ⟨⟨rfl, rfl, hct⟩, -⟩ := Option.ite_none_right_eq_some.mp h
    exact ⟨aliceCall, rfl, hkey, rfl, hct⟩
  distinct {call} hcall {key passphrase salt} hcallKey hkey := by
    cases hcall
    rw [recorded_deriveKey, if_pos ⟨rfl, rfl⟩] at hcallKey
    obtain rfl := Except.ok.inj hcallKey
    rw [recorded_deriveKey] at hkey
    split at hkey
    · rename_i hsame
      exact hsame
    · have hzero : Vector.replicate 32 (0 : UInt8) ≠ Vector.replicate 32 1 := by decide
      exact absurd (Except.ok.inj hkey) hzero

theorem alice_made_recorded : ∀ call, call = aliceCall → call.keys.Made recorded := by
  rintro call rfl
  exact .generate (Vector.replicate 32 10) (Vector.replicate 32 11)

/-- What the call on record returned. -/
def aliceFile : List UInt8 :=
  EncryptedBlob.toBytes
    { version := 1
      salt := aliceCall.salt
      nonce := aliceCall.nonce
      ciphertext := aliceCall.plaintext ++
        storeTag (Vector.replicate 32 1) aliceCall.nonce aliceCall.plaintext }

theorem aliceFile_made :
    SecureStore.FileOf recorded (· = aliceCall) "pass" aliceFile := by
  have hkey := recorded_deriveKey aliceCall.passphrase aliceCall.salt
  rw [if_pos ⟨rfl, rfl⟩] at hkey
  have hlen : aliceCall.plaintext.length ≤ 274877906880 := by
    rw [EncryptCall.plaintext, SerializableIdentity.length_toBytes]
    decide
  exact ⟨aliceCall, rfl, rfl, SecureStore.encrypt_ok.mpr ⟨_, _, hkey, if_pos hlen, rfl⟩⟩

/-- Alice's file with a zero byte behind it. -/
theorem aliceFile_extended :
    SecureStore.Extended recorded (· = aliceCall) "pass" (aliceFile ++ [0]) := by
  refine ⟨aliceFile, [0], aliceFile_made, List.cons_ne_nil _ _, rfl, ?_⟩
  obtain ⟨call, -, -, hf⟩ := aliceFile_made
  rw [List.length_append, SecureStore.length_of_file recorded_ideal.tag hf]
  decide

end Idealized

namespace SecureStore

/-- A change of a file is noticed unless all it does is to add bytes behind it,
within the size limit. -/
theorem tamperEvident_iff {prims : Primitives P} {made : EncryptCall → Prop}
    (ideal : prims.Ideal made)
    (hmade : ∀ call, made call → call.keys.Made prims) (passphrase : String)
    (data : List UInt8) :
    TamperEvident prims made passphrase data ↔ ¬ Extended prims made passphrase data := by
  constructor
  · intro htamper hextended
    exact not_tamperEvident_of_extended ideal hmade hextended htamper
  · intro hnot keys h
    obtain ⟨f, extra, hf, hdata⟩ := starts_with_file ideal h
    cases extra with
    | nil =>
        rw [hdata, List.append_nil]
        exact hf
    | cons b bs =>
        have hsize := (decrypt_ok.mp h).1
        exact absurd ⟨f, b :: bs, hf, List.cons_ne_nil _ _, hdata, hsize⟩ hnot

open Idealized in
/-- On record, the byte behind Alice's file is the change that is missed. -/
theorem aliceFile_evident_iff :
    TamperEvident recorded (· = aliceCall) "pass" (aliceFile ++ [0]) ↔
      ¬ Extended recorded (· = aliceCall) "pass" (aliceFile ++ [0]) :=
  tamperEvident_iff recorded_ideal alice_made_recorded "pass" (aliceFile ++ [0])

open Idealized in
/-- Ideal primitives do not make every change evident. -/
theorem aliceFile_tampered :
    recorded.Ideal (· = aliceCall) ∧ FileOf recorded (· = aliceCall) "pass" aliceFile ∧
      ¬ TamperEvident recorded (· = aliceCall) "pass" (aliceFile ++ [0]) :=
  ⟨recorded_ideal, aliceFile_made,
    not_tamperEvident_of_extended recorded_ideal alice_made_recorded aliceFile_extended⟩

end SecureStore

end Rubix.Security
