/-
# `Rubix.Security.BlobParser` — every step from bytes to an encrypted blob

`from_bytes` again, with the operations in it that could panic: it indexes and
slices a buffer of any size, and adds a length that stands in the buffer to its
offsets, on a `usize` of 64 bits.

    0..49     read after the check that there are 49 bytes; the last four of
              them, 45..49, are the length
    49 + len  does not overflow, as len < 2^32
    49..49 + len   sliced after the check that there are so many bytes

So the steps come to what `fromBytes` says, whatever the bytes
(`fromBytesSteps_eq`).  The length stands in front of what it counts: no
encoding is the front of another one (`toBytes_prefix_free`), and none can be
cut short.
-/
import Rubix.Lib.Checked
import Rubix.Security.IdentityFile

namespace Rubix.Security.EncryptedBlob

open Checked (Stop Steps NoPanic addU64 index slice copyFromSlice orPanic refuseIf)
open IdentityBindPayload (field)

/-! ## The steps -/

/-- `arr.copy_from_slice(&bytes[start..stop])` -/
def copyRange (n : Nat) (bytes : List UInt8) (start stop : Nat) :
    Except Checked.Panic (Vector UInt8 n) := do
  let part ← slice bytes start stop
  copyFromSlice n part

/-- `ct_start` -/
def ctStart : UInt64 := 45

/-- `u32::from_be_bytes([bytes[ct_start], ..]) as usize` -/
def ctLenSteps (bytes : List UInt8) : Except Checked.Panic UInt64 := do
  let b0 ← index bytes ctStart.toNat
  let i1 ← addU64 ctStart 1
  let b1 ← index bytes i1.toNat
  let i2 ← addU64 ctStart 2
  let b2 ← index bytes i2.toNat
  let i3 ← addU64 ctStart 3
  let b3 ← index bytes i3.toNat
  .ok (UInt32.ofNat (Bytes.ofBe [b0, b1, b2, b3])).toUInt64

/-- `ct_start + 4 + ct_len` -/
def ctEnd (ctLen : UInt64) : Except Checked.Panic UInt64 := do
  let start ← addU64 ctStart 4
  addU64 start ctLen

/-- `from_bytes` -/
def fromBytesSteps (bytes : List UInt8) : Steps SecurityError EncryptedBlob := do
  refuseIf (bytes.length < 49) (.storage "blob too small")
  let version ← orPanic (index bytes 0)
  let salt ← orPanic (copyRange 32 bytes 1 33)
  let nonce ← orPanic (copyRange 12 bytes 33 45)
  let ctLen ← orPanic (ctLenSteps bytes)
  let needed ← orPanic (ctEnd ctLen)
  refuseIf (bytes.length < needed.toNat) (.storage "blob truncated")
  let start ← orPanic (addU64 ctStart 4)
  let stop ← orPanic (ctEnd ctLen)
  let ciphertext ← orPanic (slice bytes start.toNat stop.toNat)
  .ok { version, salt, nonce, ciphertext }

/-! ## What each of them comes to -/

variable {bytes : List UInt8}

theorem copyRange_eq {n start : Nat} (h : start + n ≤ bytes.length) :
    copyRange n bytes start (start + n) = .ok (field n start bytes) := by
  have hlen : ((bytes.drop start).take (start + n - start)).length = n := by
    rw [List.length_take, List.length_drop]
    omega
  rw [copyRange, Checked.slice_of_le (Nat.le_add_right start n) h]
  show copyFromSlice n _ = _
  rw [Checked.copyFromSlice_of_length hlen, field]
  congr 2
  funext i
  have hi : (i : Nat) < start + n - start := by omega
  rw [List.getD_eq_getElem?_getD, List.getD_eq_getElem?_getD, List.getElem?_take_of_lt hi,
    List.getElem?_drop]

/-- The four bytes lie within the 49 that are there, and what they say fits. -/
theorem ctLenSteps_eq (h : 49 ≤ bytes.length) :
    ∃ ctLen, ctLenSteps bytes = .ok ctLen ∧
      ctLen.toNat = Bytes.ofBe (field 4 45 bytes).toList ∧ ctLen.toNat < 4294967296 := by
  have hbytes : (field 4 45 bytes).toList
      = [bytes.getD 45 0, bytes.getD 46 0, bytes.getD 47 0, bytes.getD 48 0] := rfl
  have hlt : Bytes.ofBe (field 4 45 bytes).toList < 4294967296 := by
    have hpow : Nat.pow 256 4 = 4294967296 := by decide
    have hfield := Bytes.ofBe_lt (field 4 45 bytes).toList
    rwa [Vector.length_toList, hpow] at hfield
  have h0 := Checked.index_of_lt (show 45 < bytes.length by omega) 0
  have h1 := Checked.index_of_lt (show 46 < bytes.length by omega) 0
  have h2 := Checked.index_of_lt (show 47 < bytes.length by omega) 0
  have h3 := Checked.index_of_lt (show 48 < bytes.length by omega) 0
  refine ⟨(UInt32.ofNat (Bytes.ofBe (field 4 45 bytes).toList)).toUInt64, ?_, ?_⟩
  · show (do
      let b0 ← index bytes 45
      let b1 ← index bytes 46
      let b2 ← index bytes 47
      let b3 ← index bytes 48
      .ok (UInt32.ofNat (Bytes.ofBe [b0, b1, b2, b3])).toUInt64) = _
    rw [h0, h1, h2, h3, hbytes]
    rfl
  · have hread : (UInt32.ofNat (Bytes.ofBe (field 4 45 bytes).toList)).toUInt64.toNat
        = Bytes.ofBe (field 4 45 bytes).toList := by
      rw [UInt32.toNat_toUInt64, UInt32.toNat_ofNat_of_lt' hlt]
    rw [hread]
    exact ⟨rfl, hlt⟩

/-- No length of 32 bits takes the offset past 64. -/
theorem ctEnd_eq {ctLen : UInt64} (h : ctLen.toNat < 4294967296) :
    ∃ stop, ctEnd ctLen = .ok stop ∧ stop.toNat = 49 + ctLen.toNat := by
  have hstart : (ctStart + 4).toNat = 49 := rfl
  obtain ⟨stop, hstop, hsum⟩ : ∃ sum, addU64 (ctStart + 4) ctLen = .ok sum ∧
      sum.toNat = (ctStart + 4).toNat + ctLen.toNat := Checked.addU64_of_lt (by omega)
  refine ⟨stop, hstop, ?_⟩
  rw [hsum, hstart]

/-- No step panics, and they come to what `fromBytes` says. -/
theorem fromBytesSteps_eq (bytes : List UInt8) :
    fromBytesSteps bytes = (fromBytes bytes).mapError Stop.err := by
  rw [fromBytesSteps, Checked.refuseIf_bind, fromBytes]
  by_cases hsize : bytes.length < 49
  · rw [if_pos hsize, if_pos hsize]
    rfl
  · rw [if_neg hsize, if_neg hsize]
    have hversion := Checked.index_of_lt (show 0 < bytes.length by omega) 0
    have hsalt : copyRange 32 bytes 1 33 = .ok (field 32 1 bytes) := copyRange_eq (by omega)
    have hnonce : copyRange 12 bytes 33 45 = .ok (field 12 33 bytes) := copyRange_eq (by omega)
    obtain ⟨ctLen, hlen, hread, hsmall⟩ := ctLenSteps_eq (Nat.le_of_not_lt hsize)
    obtain ⟨stop, hstop, hend⟩ := ctEnd_eq hsmall
    have hstart : addU64 ctStart 4 = .ok 49 := rfl
    rw [Checked.orPanic_bind hversion, Checked.orPanic_bind hsalt, Checked.orPanic_bind hnonce,
      Checked.orPanic_bind hlen, Checked.orPanic_bind hstop, Checked.refuseIf_bind, hend, ← hread]
    dsimp only
    by_cases hlong : bytes.length < 49 + ctLen.toNat
    · rw [if_pos hlong, if_pos hlong]
      rfl
    · rw [if_neg hlong, if_neg hlong]
      have hslice : slice bytes (49 : UInt64).toNat stop.toNat
          = .ok ((bytes.drop 49).take ctLen.toNat) := by
        rw [hend, show (49 : UInt64).toNat = 49 from rfl,
          Checked.slice_of_le (Nat.le_add_right ..) (Nat.le_of_not_lt hlong),
          Nat.add_sub_cancel_left]
      rw [Checked.orPanic_bind hstart, Checked.orPanic_bind hstop, Checked.orPanic_bind hslice]
      rfl

/-! ## Encodings and their fronts -/

variable {b b' : EncryptedBlob}

/-- A blob is read back exactly if its length fits into the field. -/
theorem fromBytes_toBytes_iff : fromBytes b.toBytes = .ok b ↔
    b.ciphertext.length < Nat.pow 256 4 := by
  rw [fromBytes_ok, and_iff_left_iff_imp]
  intro _
  exact ⟨[], (List.append_nil _).symm⟩

/-- No encoding is the front of another one. -/
theorem toBytes_prefix_free (h : b.ciphertext.length < Nat.pow 256 4)
    (h' : b'.ciphertext.length < Nat.pow 256 4) (hfront : b'.toBytes <+: b.toBytes) : b' = b := by
  obtain ⟨rest, hrest⟩ := hfront
  have hread : fromBytes b.toBytes = .ok b' := fromBytes_ok.mpr ⟨h', rest, hrest.symm⟩
  rw [fromBytes_toBytes_iff.mpr h] at hread
  exact (Except.ok.inj hread).symm

/-- What is read off the front of an encoding is the blob encoded, and that
takes the whole of it. -/
theorem error_of_strict_prefix {p : List UInt8} (h : b.ciphertext.length < Nat.pow 256 4)
    (hfront : p <+: b.toBytes) (hne : p ≠ b.toBytes) : ∃ e, fromBytes p = .error e := by
  cases hread : fromBytes p with
  | error e => exact ⟨e, rfl⟩
  | ok b' =>
      obtain ⟨h', extra, hp⟩ := fromBytes_ok.mp hread
      have hencoded : b'.toBytes <+: p := ⟨extra, hp.symm⟩
      obtain rfl := toBytes_prefix_free h h' (hencoded.trans hfront)
      exact absurd (hfront.eq_of_length_le hencoded.length_le) hne

/-- The parser inverts the writer on every blob with a ciphertext of less than
4 GB, refuses every strict prefix of its encoding, and neither overflows an
offset nor indexes or slices past the end, on any bytes. -/
theorem parser_total_and_inverse :
    (∀ b : EncryptedBlob, b.ciphertext.length < 4294967296 →
      fromBytesSteps b.toBytes = .ok b ∧
        ∀ p, p <+: b.toBytes → p ≠ b.toBytes → ∃ e, fromBytesSteps p = .error (.err e)) ∧
    ∀ bytes, NoPanic (fromBytesSteps bytes) := by
  constructor
  · intro b hsmall
    have hsmall' : b.ciphertext.length < Nat.pow 256 4 := hsmall
    constructor
    · rw [fromBytesSteps_eq, fromBytes_toBytes_iff.mpr hsmall']
      rfl
    · intro p hfront hne
      obtain ⟨e, he⟩ := error_of_strict_prefix hsmall' hfront hne
      refine ⟨e, ?_⟩
      rw [fromBytesSteps_eq, he]
      rfl
  · intro bytes
    rw [fromBytesSteps_eq]
    exact NoPanic.of_mapError (fromBytes bytes)

end Rubix.Security.EncryptedBlob
