/-
# `Rubix.Security.IdentityFormat` — the identity payload byte for byte

The source lays the payload out twice by hand, as the 149 bytes that go over
the wire and as the bytes that are signed:

    wire      version · ed25519 · x25519 · timestamp · nonce · signature
    signed    "rubix-identity-bind-v1" · version · ed25519 · x25519 · timestamp · nonce

The wire form is written into a zeroed buffer at fixed offsets (`writeBytes`).
Each write lands where the one before it ended (`writeBytes_eq`), so the
layouts agree field for field: what is signed is the domain separator and the
first 85 bytes of the wire form (`signaturePayload_eq_take`), and the signature
is all that stands behind them.
-/
import Rubix.Security.IdentityBind

namespace Rubix.Security.IdentityBindPayload

/-- `out[start..start + src.len()].copy_from_slice(src)`, on a buffer long
enough. -/
def writeAt (start : Nat) (src out : List UInt8) : List UInt8 :=
  out.take start ++ src ++ out.drop (start + src.length)

/-- `to_bytes`, as the source writes it: a zeroed buffer, filled at offsets. -/
def writeBytes (p : IdentityBindPayload) : List UInt8 :=
  let out := List.replicate 149 0
  let out := out.set 0 p.version
  let out := writeAt 1 p.ed25519Public.toList out
  let out := writeAt 33 p.x25519Public.toList out
  let out := writeAt 65 (timestampBytes p.timestamp) out
  let out := writeAt 73 p.nonce.toList out
  writeAt 85 p.signature.toList out

/-! ## One write after the other -/

/-- A write right behind what has been written so far. -/
theorem writeAt_zeroed {start room : Nat} {src done : List UInt8} (hstart : done.length = start) :
    writeAt start src (done ++ List.replicate room 0)
      = (done ++ src) ++ List.replicate (room - src.length) 0 := by
  subst hstart
  have htake : (done ++ List.replicate room 0).take done.length = done := List.take_left
  have hdrop : (done ++ List.replicate room (0 : UInt8)).drop (done.length + src.length)
      = List.replicate (room - src.length) 0 := by
    rw [List.drop_append, List.drop_of_length_le (Nat.le_add_right _ _), List.nil_append,
      Nat.add_sub_cancel_left, List.drop_replicate]
  rw [writeAt, htake, hdrop]

@[simp] theorem length_timestampBytes (t : Int64) : (timestampBytes t).length = 8 :=
  Bytes.length_toLe 8 _

/-- The writes leave no gap and overlap nowhere. -/
theorem writeBytes_eq (p : IdentityBindPayload) : p.writeBytes = p.toBytes := by
  have hversion : (List.replicate 149 (0 : UInt8)).set 0 p.version
      = [p.version] ++ List.replicate 148 0 := rfl
  rw [writeBytes, hversion, writeAt_zeroed, writeAt_zeroed, writeAt_zeroed, writeAt_zeroed,
    writeAt_zeroed]
  · simp [toBytes]
  -- where each write starts
  all_goals simp

/-! ## Both directions -/

theorem timestampBytes_timestampOfBytes {bs : List UInt8} (h : bs.length = 8) :
    timestampBytes (timestampOfBytes bs) = bs := by
  have hsmall : Bytes.ofLe bs < Nat.pow 256 8 := h ▸ Bytes.ofLe_lt bs
  have hread : (timestampOfBytes bs).toBitVec.toNat = Bytes.ofLe bs := by
    show (BitVec.ofNat 64 (Bytes.ofLe bs)).toNat = Bytes.ofLe bs
    rw [BitVec.toNat_ofNat]
    exact Nat.mod_eq_of_lt hsmall
  rw [timestampBytes, hread, ← h, Bytes.toLe_ofLe]

/-- Every string of 149 bytes is the encoding of a payload. -/
theorem toBytes_fromBytes {bytes : List UInt8} (h : bytes.length = 149) :
    ∃ p, fromBytes bytes = .ok p ∧ p.toBytes = bytes := by
  refine ⟨_, if_neg (not_not_intro h), ?_⟩
  have htimestamp : timestampBytes (timestampOfBytes (field 8 65 bytes).toList)
      = (field 8 65 bytes).toList := timestampBytes_timestampOfBytes Vector.length_toList
  -- the fields, from the last one to the first
  have hsignature : bytes.drop 85 = (field 64 85 bytes).toList := by
    rw [drop_eq_field (n := 64) (by omega), List.drop_of_length_le (by omega), List.append_nil]
  have hnonce : bytes.drop 73 = (field 12 73 bytes).toList ++ bytes.drop 85 :=
    drop_eq_field (by omega)
  have htime : bytes.drop 65 = (field 8 65 bytes).toList ++ bytes.drop 73 :=
    drop_eq_field (by omega)
  have hx : bytes.drop 33 = (field 32 33 bytes).toList ++ bytes.drop 65 :=
    drop_eq_field (by omega)
  have hed : bytes.drop 1 = (field 32 1 bytes).toList ++ bytes.drop 33 :=
    drop_eq_field (by omega)
  have hfields : bytes.drop 1 = (field 32 1 bytes).toList ++ (field 32 33 bytes).toList ++
      (field 8 65 bytes).toList ++ (field 12 73 bytes).toList ++ (field 64 85 bytes).toList := by
    rw [hed, hx, htime, hnonce, hsignature]
    simp only [List.append_assoc]
  cases bytes with
  | nil => exact absurd h (by decide)
  | cons version rest =>
      rw [List.drop_one, List.tail_cons] at hfields
      rw [toBytes, htimestamp, ← hfields]
      rfl

/-! ## What is signed -/

/-- The signed bytes are the wire form up to the signature, under the domain
separator. -/
theorem signaturePayload_eq_take (p : IdentityBindPayload) :
    p.signaturePayload = domainSeparator ++ p.toBytes.take 85 := by
  have hwire : p.toBytes = (p.version :: (p.ed25519Public.toList ++ p.x25519Public.toList ++
      timestampBytes p.timestamp ++ p.nonce.toList)) ++ p.signature.toList := rfl
  rw [signaturePayload, hwire, List.take_left' (by simp)]

theorem length_signaturePayload (p : IdentityBindPayload) : p.signaturePayload.length = 107 := by
  have hseparator : domainSeparator.length = 22 := rfl
  rw [signaturePayload_eq_take, List.length_append, List.length_take, length_toBytes, hseparator]
  rfl

theorem signaturePayload_eq_iff {p q : IdentityBindPayload} :
    p.signaturePayload = q.signaturePayload ↔ p.toBytes.take 85 = q.toBytes.take 85 := by
  rw [signaturePayload_eq_take, signaturePayload_eq_take, List.append_right_inj]

/-- A byte in front of the signature cannot change unsigned. -/
theorem signaturePayload_ne {p q : IdentityBindPayload} {i : Nat} (hi : i < 85)
    (h : p.toBytes[i]? ≠ q.toBytes[i]?) : p.signaturePayload ≠ q.signaturePayload := by
  intro hsigned
  have htake : (p.toBytes.take 85)[i]? = (q.toBytes.take 85)[i]? := by
    rw [signaturePayload_eq_iff.mp hsigned]
  rw [List.getElem?_take_of_lt hi, List.getElem?_take_of_lt hi] at htake
  exact h htake

/-- The format is exact, in both directions, and all of it but the signature is
signed. -/
theorem wire_form_exact :
    (∀ p : IdentityBindPayload, p.writeBytes.length = 149 ∧ fromBytes p.writeBytes = .ok p) ∧
      (∀ bytes : List UInt8, bytes.length = 149 →
        ∃ p, fromBytes bytes = .ok p ∧ p.writeBytes = bytes) ∧
      (∀ bytes : List UInt8, bytes.length ≠ 149 → ∃ e, fromBytes bytes = .error e) ∧
      (∀ p q : IdentityBindPayload, p.signaturePayload = q.signaturePayload ↔
        p.writeBytes.take 85 = q.writeBytes.take 85) ∧
      (∀ (p q : IdentityBindPayload) (i : Nat), i < 85 → p.writeBytes[i]? ≠ q.writeBytes[i]? →
        p.signaturePayload ≠ q.signaturePayload) := by
  simp only [writeBytes_eq]
  refine ⟨?_, ?_, ?_, ?_, ?_⟩
  · intro p
    exact ⟨length_toBytes p, fromBytes_toBytes p⟩
  · intro bytes hlen
    exact toBytes_fromBytes hlen
  · intro bytes hlen
    exact ⟨_, if_pos hlen⟩
  · intro p q
    exact signaturePayload_eq_iff
  · intro p q i hi hbyte
    exact signaturePayload_ne hi hbyte

end Rubix.Security.IdentityBindPayload
