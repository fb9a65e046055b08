/-
# `Rubix.Domain.FingerprintText` — what `from_hex` reads, and what it accepts

The parser keeps the hex digits of a text, whatever else is in it, and wants
forty.  Which fingerprint it returns is then a matter of these digits alone:

    fromHex s = ok fp   ↔   the digits of s, in upper case, are those of fp

(`fromHex_eq_ok_iff`).  Every text form of a fingerprint has its digits in
their order and so is read back, and a text is accepted exactly if it has forty
digits (`fromHex_accepts`).

`fromHexSteps` is the parser with its loop as the source has it, over bytes,
with an array that is written by index; none of the loop's ways out is ever
taken (`fromHexSteps_eq`).
-/
import Rubix.Domain.Fingerprint
import Rubix.Lib.Checked
import Rubix.Lib.Utf8

namespace Rubix.Fingerprint

open Checked (setIndex)

/-- The string that `serde::Serialize` writes. -/
def serialize (fp : Fingerprint) : String := String.ofList (Hex.encode fp.bytes.toList)

/-- `serde::Deserialize`, on the string it finds. -/
def deserialize (hexStr : String) : DomainResult Fingerprint := fromHex hexStr

/-- The loop of `from_hex`, from the chunk numbered `i` on. -/
def fromHexWrites (i : Nat) (bytes : Vector UInt8 20) :
    List (List UInt8) → Except Checked.Panic (DomainResult Fingerprint)
  | [] => .ok (.ok ⟨bytes⟩)
  | chunk :: rest =>
      match Utf8.fromUtf8 chunk with
      | none => .ok (.error (.validation "fingerprint" "invalid hex encoding"))
      | some hexStr =>
          match u8FromStrRadix16 hexStr with
          | none => .ok (.error (.validation "fingerprint" "invalid hex digit"))
          | some b =>
              match setIndex bytes i b with
              | .error p => .error p
              | .ok bytes => fromHexWrites (i + 1) bytes rest

/-- `from_hex` step by step: `cleaned.as_bytes().chunks(2).enumerate()`, each
chunk through `from_utf8` and `from_str_radix` into `bytes[i]`. -/
def fromHexSteps (hex : String) : Except Checked.Panic (DomainResult Fingerprint) :=
  let cleaned := hex.toList.filter Hex.isDigit
  let cleanedBytes := Utf8.encode cleaned
  if cleanedBytes.length ≠ fingerprintBytes * 2 then
    .ok (.error (.validation "fingerprint"
      s!"expected {fingerprintBytes * 2} hex chars, got {cleanedBytes.length}"))
  else fromHexWrites 0 (Vector.replicate 20 0) (Hex.chunks 2 cleanedBytes)

/-! ## Digits as bytes -/

/-- Digits two by two are bytes, the ones whose digits they are. -/
theorem fromHexLoop_digits {n : Nat} {cs : List Char} (hlen : cs.length = 2 * n)
    (hdigits : ∀ c ∈ cs, Hex.isDigit c = true) :
    ∃ bs, bs.length = n ∧ fromHexLoop (Hex.chunks 2 cs) = .ok bs ∧
      Hex.encodeUpper bs = cs.map Char.toUpper := by
  induction n generalizing cs with
  | zero =>
      have hnil : cs = [] := List.length_eq_zero_iff.mp hlen
      subst hnil
      exact ⟨[], rfl, rfl, rfl⟩
  | succ n ih =>
      match cs, hlen, hdigits with
      | [], hlen, _ => exact absurd hlen (by simp)
      | [_], hlen, _ =>
          rw [List.length_singleton] at hlen
          omega
      | a :: b :: cs, hlen, hdigits =>
          have hrest : cs.length = 2 * n := by
            simp only [List.length_cons] at hlen
            omega
          obtain ⟨bs, hn, hloop, hupper⟩ := ih hrest fun c hc =>
            hdigits c (List.mem_cons_of_mem _ (List.mem_cons_of_mem _ hc))
          obtain ⟨hi, ha, hhi, hupa⟩ := Hex.of_isDigit (hdigits a List.mem_cons_self)
          obtain ⟨lo, hb, hlo, hupb⟩ :=
            Hex.of_isDigit (hdigits b (List.mem_cons_of_mem _ List.mem_cons_self))
          have hbyte : (UInt8.ofNat (16 * hi + lo)).toNat = 16 * hi + lo :=
            Utf8.toNat_ofNat (by omega)
          have hdiv : (16 * hi + lo) / 16 = hi := by omega
          have hmod : (16 * hi + lo) % 16 = lo := by omega
          refine ⟨UInt8.ofNat (16 * hi + lo) :: bs, congrArg (· + 1) hn, ?_, ?_⟩
          · rw [Hex.chunks_two, fromHexLoop, u8FromStrRadix16_digits ha hb hhi hlo, hloop]
          · rw [Hex.encodeUpper, Hex.encode, hbyte, hdiv, hmod, List.map_cons, List.map_cons,
              hupa, hupb, ← Hex.encodeUpper, hupper, List.map_cons, List.map_cons]

theorem toList_ofFn_getD {n : Nat} {bs : List UInt8} (h : bs.length = n) :
    (Vector.ofFn fun i : Fin n => bs.getD i 0).toList = bs := by
  subst h
  refine List.ext_getElem (by simp) ?_
  intro i _ _
  simp [List.getD_eq_getElem?_getD]

theorem eq_of_toList {a b : Fingerprint} (h : a.bytes.toList = b.bytes.toList) : a = b := by
  obtain ⟨a⟩ := a
  obtain ⟨b⟩ := b
  exact congrArg mk (Vector.toList_inj.mp h)

/-- Forty digits are read. -/
theorem fromHex_of_forty {s : String} (h : (s.toList.filter Hex.isDigit).length = 40) :
    ∃ fp, fromHex s = .ok fp ∧
      Hex.encodeUpper fp.bytes.toList = (s.toList.filter Hex.isDigit).map Char.toUpper := by
  obtain ⟨bs, hn, hloop, hupper⟩ := fromHexLoop_digits (n := 20) h fun c hc =>
    (List.mem_filter.mp hc).2
  have hforty : ¬ (s.toList.filter Hex.isDigit).length ≠ fingerprintBytes * 2 := not_not_intro h
  refine ⟨⟨Vector.ofFn fun i => bs.getD i 0⟩, ?_, ?_⟩
  · rw [fromHex, if_neg hforty, hloop]
  · rw [toList_ofFn_getD hn, hupper]

theorem encodeUpper_injective {as bs : List UInt8} (h : Hex.encodeUpper as = Hex.encodeUpper bs) :
    as = bs := by
  have hread := fromHexLoop_encodeUpper as
  rw [h, fromHexLoop_encodeUpper] at hread
  exact (Except.ok.inj hread).symm

/-- The digits of a text decide, in either case. -/
theorem fromHex_eq_ok_iff {s : String} {fp : Fingerprint} :
    fromHex s = .ok fp ↔
      Hex.encodeUpper fp.bytes.toList = (s.toList.filter Hex.isDigit).map Char.toUpper := by
  by_cases hlen : (s.toList.filter Hex.isDigit).length = 40
  · obtain ⟨fp', hread, hdigits⟩ := fromHex_of_forty hlen
    rw [hread, ← hdigits]
    constructor
    · intro h
      rw [Except.ok.inj h]
    · intro h
      rw [eq_of_toList (encodeUpper_injective h)]
  · refine iff_of_false ?_ ?_
    · intro h
      have hother : (s.toList.filter Hex.isDigit).length ≠ fingerprintBytes * 2 := hlen
      rw [fromHex, if_pos hother] at h
      cases h
    · intro h
      have hcount := congrArg List.length h
      rw [List.length_map, Hex.length_encodeUpper, Vector.length_toList] at hcount
      exact hlen hcount.symm

/-- The count of digits alone decides whether a text is read at all. -/
theorem fromHex_ok_iff_count {s : String} :
    (∃ fp, fromHex s = .ok fp) ↔ s.toList.countP Hex.isDigit = 40 := by
  rw [List.countP_eq_length_filter]
  constructor
  · rintro ⟨fp, h⟩
    have hcount := congrArg List.length (fromHex_eq_ok_iff.mp h)
    rw [List.length_map, Hex.length_encodeUpper, Vector.length_toList] at hcount
    exact hcount.symm
  · intro h
    obtain ⟨fp, hread, -⟩ := fromHex_of_forty h
    exact ⟨fp, hread⟩

/-! ## The loop of the source -/

/-- Digits are a byte each, so bytes and digits are cut in the same places. -/
theorem chunks_encode {a b : Char} (ha : Hex.isDigit a = true) (hb : Hex.isDigit b = true)
    (cs : List Char) :
    Hex.chunks 2 (Utf8.encode (a :: b :: cs))
      = Utf8.encode [a, b] :: Hex.chunks 2 (Utf8.encode cs) := by
  have hone : ∀ {c : Char}, Hex.isDigit c = true → ∃ byte, Utf8.encode [c] = [byte] := by
    intro c hc
    refine List.length_eq_one_iff.mp ?_
    rw [Utf8.length_encode, Utf8.byteLen_of_ascii, List.length_singleton]
    intro d hd
    rw [List.mem_singleton.mp hd]
    exact Hex.ascii_of_isDigit hc
  obtain ⟨byteA, hbyteA⟩ := hone ha
  obtain ⟨byteB, hbyteB⟩ := hone hb
  have hpair : Utf8.encode [a, b] = [byteA, byteB] := by
    rw [← List.singleton_append, Utf8.encode_append, hbyteA, hbyteB, List.singleton_append]
  have hall : Utf8.encode (a :: b :: cs) = byteA :: byteB :: Utf8.encode cs := by
    have hsplit : a :: b :: cs = [a, b] ++ cs := rfl
    rw [hsplit, Utf8.encode_append, hpair]
    rfl
  rw [hall, hpair, Hex.chunks_two]

/-- The loop fills the array from the left, and leaves it by its end only. -/
theorem fromHexWrites_digits {n : Nat} {cs : List Char} {done bs : List UInt8}
    {arr : Vector UInt8 20} (hlen : cs.length = 2 * n) (hdigits : ∀ c ∈ cs, Hex.isDigit c = true)
    (hroom : done.length + n = 20) (harr : arr.toList = done ++ List.replicate n 0)
    (hloop : fromHexLoop (Hex.chunks 2 cs) = .ok bs) :
    ∃ fp : Fingerprint,
      fromHexWrites done.length arr (Hex.chunks 2 (Utf8.encode cs)) = .ok (.ok fp) ∧
        fp.bytes.toList = done ++ bs := by
  induction n generalizing cs done bs arr with
  | zero =>
      have hnil : cs = [] := List.length_eq_zero_iff.mp hlen
      subst hnil
      cases Except.ok.inj hloop
      exact ⟨⟨arr⟩, rfl, harr⟩
  | succ n ih =>
      match cs, hlen, hdigits, hloop with
      | [], hlen, _, _ => exact absurd hlen (by simp)
      | [_], hlen, _, _ =>
          rw [List.length_singleton] at hlen
          omega
      | a :: b :: cs, hlen, hdigits, hloop =>
          have hrest : cs.length = 2 * n := by
            simp only [List.length_cons] at hlen
            omega
          have hdigits' : ∀ c ∈ cs, Hex.isDigit c = true := fun c hc =>
            hdigits c (List.mem_cons_of_mem _ (List.mem_cons_of_mem _ hc))
          have hda := hdigits a List.mem_cons_self
          have hdb := hdigits b (List.mem_cons_of_mem _ List.mem_cons_self)
          obtain ⟨hi, ha, hhi, -⟩ := Hex.of_isDigit hda
          obtain ⟨lo, hb, hlo, -⟩ := Hex.of_isDigit hdb
          have hbyte := u8FromStrRadix16_digits ha hb hhi hlo
          generalize UInt8.ofNat (16 * hi + lo) = byte at hbyte
          obtain ⟨bs', -, hloop', -⟩ := fromHexLoop_digits hrest hdigits'
          rw [Hex.chunks_two, fromHexLoop, hbyte, hloop'] at hloop
          cases Except.ok.inj hloop
          -- the write of this chunk
          have hindex : done.length < 20 := by omega
          obtain ⟨arr', hset, harr'⟩ : ∃ arr', setIndex arr done.length byte = .ok arr' ∧
              arr'.toList = arr.toList.set done.length byte := Checked.setIndex_of_lt hindex
          have hwritten : arr'.toList = (done ++ [byte]) ++ List.replicate n 0 := by
            rw [harr', harr, List.replicate_succ, List.set_append_right _ _ (Nat.le_refl _),
              Nat.sub_self, List.set_cons_zero, List.append_assoc, List.singleton_append]
          have hdone : (done ++ [byte]).length = done.length + 1 := by
            rw [List.length_append, List.length_singleton]
          obtain ⟨fp, hwrites, hfp⟩ := ih hrest hdigits' (by omega) hwritten hloop'
          rw [hdone] at hwrites
          refine ⟨fp, ?_, ?_⟩
          · rw [chunks_encode hda hdb, fromHexWrites, Utf8.fromUtf8_encode]
            simp only [hbyte, hset]
            exact hwrites
          · rw [hfp, List.append_assoc, List.singleton_append]

/-- No step of the parser panics, and it returns what `fromHex` does: the
errors inside its loop are never reached. -/
theorem fromHexSteps_eq (s : String) : fromHexSteps s = .ok (fromHex s) := by
  have hdigits : ∀ c ∈ s.toList.filter Hex.isDigit, Hex.isDigit c = true :=
    fun c hc => (List.mem_filter.mp hc).2
  have hbytes : (Utf8.encode (s.toList.filter Hex.isDigit)).length
      = (s.toList.filter Hex.isDigit).length := by
    rw [Utf8.length_encode, Utf8.byteLen_of_ascii]
    intro c hc
    exact Hex.ascii_of_isDigit (hdigits c hc)
  rw [fromHexSteps, fromHex]
  simp only [hbytes]
  split
  · rfl
  · next hlen =>
      have hforty : (s.toList.filter Hex.isDigit).length = 2 * 20 := Decidable.not_not.mp hlen
      obtain ⟨bs, hn, hloop, -⟩ := fromHexLoop_digits hforty hdigits
      have hzeros : (Vector.replicate 20 (0 : UInt8)).toList = [] ++ List.replicate 20 0 := by
        rw [Vector.toList_replicate, List.nil_append]
      have hroom : ([] : List UInt8).length + 20 = 20 := rfl
      obtain ⟨fp, hwrites, hfp⟩ := fromHexWrites_digits hforty hdigits hroom hzeros hloop
      have hsame : fp = ⟨Vector.ofFn fun i => bs.getD i 0⟩ :=
        eq_of_toList (hfp.trans (toList_ofFn_getD hn).symm)
      rw [hsame] at hwrites
      rw [hloop]
      exact hwrites

/-- The errors of the parser are about the number of digits. -/
theorem fromHexSteps_error {s : String} {e : DomainError} (h : fromHexSteps s = .ok (.error e)) :
    s.toList.countP Hex.isDigit ≠ 40 ∧
      e = .validation "fingerprint" s!"expected 40 hex chars, got {s.toList.countP Hex.isDigit}" := by
  rw [fromHexSteps_eq] at h
  rw [List.countP_eq_length_filter]
  by_cases hlen : (s.toList.filter Hex.isDigit).length = 40
  · obtain ⟨fp, hread, -⟩ := fromHex_of_forty hlen
    rw [hread] at h
    exact nomatch Except.ok.inj h
  · have hother : (s.toList.filter Hex.isDigit).length ≠ fingerprintBytes * 2 := hlen
    rw [fromHex, if_pos hother] at h
    exact ⟨hlen, (Except.error.inj (Except.ok.inj h)).symm⟩

/-! ## What is written -/

/-- The groups of four of a formatted fingerprint. -/
def groups (fp : Fingerprint) : List (List Char) :=
  Hex.chunks 4 (Hex.encodeUpper fp.bytes.toList)

theorem toList_toFormattedString (fp : Fingerprint) :
    fp.toFormattedString.toList = ['-'].intercalate fp.groups := by
  rw [toFormattedString, String.toList_ofList, groups]

/-- Ten groups of four upper-case digits. -/
theorem groups_spec (fp : Fingerprint) :
    fp.groups.length = 10 ∧
      ∀ group ∈ fp.groups, group.length = 4 ∧
        ∀ c ∈ group, Hex.isDigit c = true ∧ c.toUpper = c := by
  have hlen : (Hex.encodeUpper fp.bytes.toList).length = 4 * 10 := by
    rw [Hex.length_encodeUpper, Vector.length_toList]
  obtain ⟨hcount, hchunks⟩ := Hex.chunks_of_length (by decide) hlen
  refine ⟨hcount, ?_⟩
  intro group hgroup
  refine ⟨hchunks group hgroup, ?_⟩
  intro c hc
  have hflat : fp.groups.flatten = Hex.encodeUpper fp.bytes.toList :=
    Hex.flatten_chunks (by decide) _ _ (Nat.le_refl _)
  have hmem : c ∈ Hex.encodeUpper fp.bytes.toList := by
    rw [← hflat]
    exact List.mem_flatten.mpr ⟨group, hgroup, hc⟩
  refine ⟨Hex.isDigit_of_mem_encodeUpper c hmem, ?_⟩
  obtain ⟨d, -, rfl⟩ := List.mem_map.mp hmem
  exact Hex.toUpper_toUpper d

theorem length_toFormattedString (fp : Fingerprint) : fp.toFormattedString.length = 49 := by
  obtain ⟨hcount, hgroups⟩ := fp.groups_spec
  have hne : fp.groups ≠ [] := by
    rw [← List.length_pos_iff, hcount]
    decide
  have hlen := Hex.length_intercalate '-' (fun group hgroup => (hgroups group hgroup).1) hne
  rw [hcount, ← toList_toFormattedString, String.length_toList] at hlen
  omega

/-- What was read is written as the digits of the text, in upper case and
grouped. -/
theorem toFormattedString_of_fromHex {s : String} {fp : Fingerprint} (h : fromHex s = .ok fp) :
    fp.toFormattedString.toList
      = ['-'].intercalate (Hex.chunks 4 ((s.toList.filter Hex.isDigit).map Char.toUpper)) := by
  rw [toList_toFormattedString, groups, fromHex_eq_ok_iff.mp h]

/-- The lower-case form is read back. -/
theorem deserialize_serialize (fp : Fingerprint) : deserialize fp.serialize = .ok fp := by
  rw [deserialize, serialize, fromHex_eq_ok_iff, String.toList_ofList,
    List.filter_eq_self.mpr Hex.isDigit_of_mem_encode]
  rfl

/-! ## Letter case -/

/-- Texts that differ in the case of their letters are read alike. -/
theorem fromHex_of_toLower {s t : String} {fp : Fingerprint}
    (h : t.toList.map Char.toLower = s.toList.map Char.toLower) (hs : fromHex s = .ok fp) :
    fromHex t = .ok fp := by
  have hupper : t.toList.map Char.toUpper = s.toList.map Char.toUpper := by
    have hboth := congrArg (List.map Char.toUpper) h
    simpa only [List.map_map, Function.comp_def, Hex.toUpper_toLower] using hboth
  rw [fromHex_eq_ok_iff, Hex.map_toUpper_filter] at hs ⊢
  rw [hs, hupper]

/-- What is not a digit is ignored. -/
theorem fromHex_filter (s : String) :
    fromHex (String.ofList (s.toList.filter Hex.isDigit)) = fromHex s := by
  rw [fromHex, String.toList_ofList, List.filter_filter]
  simp only [Bool.and_self]
  rfl

/-! ## What is accepted -/

/-- The documented formats: forty hex digits, or ten groups of four joined by
dashes. -/
def Documented (s : String) : Prop :=
  (s.toList.length = 40 ∧ ∀ c ∈ s.toList, Hex.isDigit c = true) ∨
    ∃ groups : List (List Char), groups.length = 10 ∧
      (∀ group ∈ groups, group.length = 4 ∧ ∀ c ∈ group, Hex.isDigit c = true) ∧
        s.toList = ['-'].intercalate groups

theorem Documented.mem {s : String} (h : Documented s) {c : Char} (hc : c ∈ s.toList) :
    c = '-' ∨ Hex.isDigit c = true := by
  rcases h with ⟨-, hdigits⟩ | ⟨groups, -, hgroups, hs⟩
  · exact .inr (hdigits c hc)
  · rw [hs] at hc
    rcases Hex.mem_intercalate hc with hdash | ⟨group, hgroup, hmem⟩
    · exact .inl hdash
    · exact .inr ((hgroups group hgroup).2 c hmem)

theorem length_flatten_uniform {α : Type} {n : Nat} {L : List (List α)}
    (h : ∀ l ∈ L, l.length = n) : L.flatten.length = n * L.length := by
  induction L with
  | nil => rfl
  | cons l L ih =>
      rw [List.flatten_cons, List.length_append, h l List.mem_cons_self,
        ih fun m hm => h m (List.mem_cons_of_mem l hm), List.length_cons, Nat.mul_succ, Nat.add_comm]

theorem Documented.accepted {s : String} (h : Documented s) : ∃ fp, fromHex s = .ok fp := by
  rw [fromHex_ok_iff_count]
  rcases h with ⟨hlen, hdigits⟩ | ⟨groups, hcount, hgroups, hs⟩
  · rw [List.countP_eq_length.mpr hdigits, hlen]
  · have hflat : ∀ c ∈ groups.flatten, Hex.isDigit c = true := by
      intro c hc
      obtain ⟨group, hgroup, hmem⟩ := List.mem_flatten.mp hc
      exact (hgroups group hgroup).2 c hmem
    rw [List.countP_eq_length_filter, hs, Hex.filter_intercalate (by decide) hflat,
      length_flatten_uniform fun group hgroup => (hgroups group hgroup).1, hcount]

/-- A Greek capital alpha for an A, blanks for dashes, and a full stop: forty
digits among them. -/
def lookalike : String := "\u0391 A1B2 C3D4 E5F6 7890 1234 5678 9ABC DEF0 1122 3344."

theorem lookalike_not_documented : ¬ ∀ s, (∃ fp, fromHex s = .ok fp) ↔ Documented s := by
  intro h
  have haccepted : ∃ fp, fromHex lookalike = .ok fp := fromHex_ok_iff_count.mpr (by decide)
  have hblank : ' ' ∈ lookalike.toList := by decide
  rcases ((h lookalike).mp haccepted).mem hblank with hdash | hdigit
  · exact absurd hdash (by decide)
  · exact absurd hdigit (by decide)

/-- A text is accepted exactly if forty of its characters are hex digits; the
others are ignored wherever they are, and the documented formats are accepted. -/
theorem fromHex_accepts :
    (∀ s, (∃ fp, fromHex s = .ok fp) ↔ s.toList.countP Hex.isDigit = 40) ∧
      (∀ s, fromHex (String.ofList (s.toList.filter Hex.isDigit)) = fromHex s) ∧
      (∀ s, Documented s → ∃ fp, fromHex s = .ok fp) := by
  refine ⟨?_, ?_, ?_⟩
  · intro s
    exact fromHex_ok_iff_count
  · intro s
    exact fromHex_filter s
  · intro s h
    exact h.accepted

end Rubix.Fingerprint
