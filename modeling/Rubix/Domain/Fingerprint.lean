/-
# `Rubix.Domain.Fingerprint` — identity fingerprints and their text forms

Twenty bytes, written as ten dash-separated groups of four upper-case hex
digits and read back by a parser that first throws away every character that
is not a hex digit.  The results the other modules use:

    fromHex fp.toFormattedString = ok fp          (`fromHex_toFormattedString`)
    toFormattedString is injective                (`toFormattedString_injective`)
    constantTimeEq compares as `=` does           (`constantTimeEq_iff`)
-/
import Rubix.Domain.Basic

namespace Rubix

def fingerprintBytes : Nat := 20

/-- A fingerprint derived from public key material. -/
structure Fingerprint where
  bytes : Vector UInt8 20
  deriving DecidableEq

namespace Fingerprint

/-- `u8::from_str_radix(s, 16)`: an optional plus sign, then digits, and no
value above 255. -/
def u8FromStrRadix16 (s : List Char) : Option UInt8 :=
  let digits := match s with
    | '+' :: rest => rest
    | _ => s
  if digits.isEmpty then none
  else (digits.foldlM (fun acc c => (Hex.val? c).bind fun v =>
    if 16 * acc + v < 256 then some (16 * acc + v) else none) 0).map UInt8.ofNat

/-- The parsing loop of `from_hex`: each chunk of two characters as a byte. -/
def fromHexLoop : List (List Char) → DomainResult (List UInt8)
  | [] => .ok []
  | chunk :: rest =>
      match u8FromStrRadix16 chunk with
      | none => .error (.validation "fingerprint" "invalid hex digit")
      | some b =>
          match fromHexLoop rest with
          | .ok bs => .ok (b :: bs)
          | .error e => .error e

/-- `Fingerprint::from_hex`: keep the hex digits, require forty of them, read
them two by two into a zeroed array.  The array writes `bytes[i]` become the
positions of the parsed list.  A chunk of ASCII digits is always UTF-8, so the
first error branch of the source's loop has no counterpart. -/
def fromHex (hex : String) : DomainResult Fingerprint :=
  let cleaned := hex.toList.filter Hex.isDigit
  if cleaned.length ≠ fingerprintBytes * 2 then
    .error (.validation "fingerprint"
      s!"expected {fingerprintBytes * 2} hex chars, got {cleaned.length}")
  else
    match fromHexLoop (Hex.chunks 2 cleaned) with
    | .error e => .error e
    | .ok bs => .ok ⟨Vector.ofFn fun i => bs.getD i 0⟩

/-- `Fingerprint::to_formatted_string`, also the `Display` form. -/
def toFormattedString (fp : Fingerprint) : String :=
  String.ofList (['-'].intercalate (Hex.chunks 4 (Hex.encodeUpper fp.bytes.toList)))

/-- The byte order `sort_by(|a, b| a.as_bytes().cmp(b.as_bytes()))` compares with. -/
def le (a b : Fingerprint) : Prop := a.bytes.toList ≤ b.bytes.toList

instance : DecidableRel le := fun a b =>
  inferInstanceAs (Decidable (a.bytes.toList ≤ b.bytes.toList))

/-- `ct_eq` of two slices: the lengths, and then every byte, also those behind
the first that differs. -/
def ctEq (xs ys : List UInt8) : Bool :=
  if xs.length ≠ ys.length then false
  else (xs.zip ys).foldl (fun same p => same && p.1 == p.2) true

/-- `Fingerprint::constant_time_eq` -/
def constantTimeEq (a b : Fingerprint) : Bool := ctEq a.bytes.toList b.bytes.toList

/-! ## Comparing in constant time -/

theorem foldl_same_iff {xs ys : List UInt8} (h : xs.length = ys.length) (same : Bool) :
    (xs.zip ys).foldl (fun same p => same && p.1 == p.2) same = true ↔
      same = true ∧ xs = ys := by
  induction xs generalizing ys same with
  | nil =>
      cases ys with
      | nil => simp
      | cons y ys => cases h
  | cons x xs ih =>
      cases ys with
      | nil => cases h
      | cons y ys =>
          rw [List.zip_cons_cons, List.foldl_cons, ih (Nat.succ.inj h), Bool.and_eq_true,
            beq_iff_eq, List.cons.injEq, and_assoc]

/-- Nothing is lost by comparing without an early exit. -/
theorem constantTimeEq_iff {a b : Fingerprint} : a.constantTimeEq b = true ↔ a = b := by
  obtain ⟨bytes⟩ := a
  obtain ⟨bytes'⟩ := b
  have hlen : bytes.toList.length = bytes'.toList.length := by
    rw [Vector.length_toList, Vector.length_toList]
  rw [constantTimeEq, ctEq, if_neg (not_not_intro hlen), foldl_same_iff hlen, Vector.toList_inj,
    Fingerprint.mk.injEq]
  exact and_iff_right rfl

/-! ## Reading back what was written -/

theorem filter_toFormattedString (fp : Fingerprint) :
    fp.toFormattedString.toList.filter Hex.isDigit = Hex.encodeUpper fp.bytes.toList := by
  rw [toFormattedString, String.toList_ofList]
  exact Hex.filter_intercalate_chunks (by omega) (by decide) Hex.isDigit_of_mem_encodeUpper

theorem mem_toFormattedString {fp : Fingerprint} {c : Char}
    (h : c ∈ fp.toFormattedString.toList) : c = '-' ∨ Hex.isDigit c = true := by
  rw [toFormattedString, String.toList_ofList] at h
  rcases Hex.mem_intercalate_chunks (by omega) h with h | h
  · exact .inl h
  · exact .inr (Hex.isDigit_of_mem_encodeUpper c h)

/-- Two digits are a byte. -/
theorem u8FromStrRadix16_digits {a b : Char} {hi lo : Nat} (ha : Hex.val? a = some hi)
    (hb : Hex.val? b = some lo) (hhi : hi < 16) (hlo : lo < 16) :
    u8FromStrRadix16 [a, b] = some (UInt8.ofNat (16 * hi + lo)) := by
  have hplus : a ≠ '+' := by
    rintro rfl
    exact nomatch ha
  have hdigits : (match [a, b] with
      | '+' :: rest => rest
      | _ => [a, b]) = [a, b] := by
    split
    · next h => exact absurd (List.cons.inj h).1 hplus
    · rfl
  have hfirst : 16 * 0 + hi < 256 := by omega
  have hboth : 16 * hi + lo < 256 := by omega
  have hshift : 16 * (16 * 0 + hi) + lo = 16 * hi + lo := by omega
  simp only [u8FromStrRadix16, hdigits, List.isEmpty_cons, Bool.false_eq_true, if_false,
    List.foldlM_cons, List.foldlM_nil, ha, hb, Option.bind_some, if_pos hfirst, hshift,
    if_pos hboth, Option.bind_eq_bind, Option.pure_def, Option.map_some]

theorem u8FromStrRadix16_upper (b : UInt8) :
    u8FromStrRadix16 [(Hex.digit (b.toNat / 16)).toUpper, (Hex.digit (b.toNat % 16)).toUpper]
      = some b := by
  obtain ⟨hhi, hlo⟩ := Hex.half_lt b
  rw [u8FromStrRadix16_digits (Hex.val?_toUpper_digit hhi) (Hex.val?_toUpper_digit hlo) hhi hlo,
    Hex.ofNat_halves]

theorem fromHexLoop_encodeUpper (bs : List UInt8) :
    fromHexLoop (Hex.chunks 2 (Hex.encodeUpper bs)) = .ok bs := by
  induction bs with
  | nil => rfl
  | cons b bs ih =>
      show fromHexLoop (Hex.chunks 2 (_ :: _ :: Hex.encodeUpper bs)) = _
      rw [Hex.chunks_two]
      simp only [fromHexLoop, u8FromStrRadix16_upper, ih]

/-- Reading a formatted fingerprint gives the fingerprint back. -/
theorem fromHex_toFormattedString (fp : Fingerprint) : fromHex fp.toFormattedString = .ok fp := by
  have hlen : (Hex.encodeUpper fp.bytes.toList).length = fingerprintBytes * 2 := by
    rw [Hex.length_encodeUpper, Vector.length_toList, fingerprintBytes]
  have hfn : (Vector.ofFn fun i : Fin 20 => fp.bytes.toList.getD i 0) = fp.bytes := by
    apply Vector.ext
    intro i hi
    simp [List.getD_eq_getElem?_getD]
  simp only [fromHex, filter_toFormattedString, hlen, ne_eq, not_true_eq_false, if_false,
    fromHexLoop_encodeUpper, hfn]

theorem toFormattedString_injective {a b : Fingerprint}
    (h : a.toFormattedString = b.toFormattedString) : a = b := by
  have ha := fromHex_toFormattedString a
  rw [h, fromHex_toFormattedString b] at ha
  exact (Except.ok.inj ha).symm

theorem toFormattedString_inj {a b : Fingerprint} :
    a.toFormattedString = b.toFormattedString ↔ a = b :=
  ⟨toFormattedString_injective, congrArg toFormattedString⟩

end Fingerprint
end Rubix
