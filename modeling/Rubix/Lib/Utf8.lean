/-
# `Rubix.Lib.Utf8` — byte lengths, byte slices and lossy decoding of text

A text is a list of characters; its bytes are the concatenation of the
characters' encodings.  `sliceTo?` is slicing at a byte offset, which has no
answer inside a character (`isSome_sliceTo?_iff`).  `lossy` decodes any byte
string, replacing each maximal ill-formed piece by U+FFFD; what `encode` gives
has none, and is read back (`lossy_encode`).
-/

namespace Utf8

/-- The bytes of a text. -/
def encode (cs : List Char) : List UInt8 := cs.flatMap String.utf8EncodeChar

/-- The number of bytes of a text. -/
def byteLen : List Char → Nat
  | [] => 0
  | c :: cs => c.utf8Size + byteLen cs

/-- The prefix of exactly `n` bytes, if `n` is a character boundary. -/
def sliceTo? : Nat → List Char → Option (List Char)
  | 0, _ => some []
  | _ + 1, [] => none
  | n + 1, c :: cs =>
      if c.utf8Size ≤ n + 1 then (sliceTo? (n + 1 - c.utf8Size) cs).map (c :: ·) else none

/-! ## Lossy decoding -/

/-- A continuation byte, and its six bits. -/
def cont? (b : UInt8) : Option Nat :=
  if 0x80 ≤ b.toNat ∧ b.toNat ≤ 0xBF then some (b.toNat - 0x80) else none

/-- The number of continuation bytes a lead byte asks for, its own bits, and
the range its first continuation byte is restricted to. -/
def lead? (b : UInt8) : Option (Nat × Nat × Nat × Nat) :=
  let n := b.toNat
  if 0xC2 ≤ n ∧ n ≤ 0xDF then some (1, n - 0xC0, 0x80, 0xBF)
  else if n = 0xE0 then some (2, 0, 0xA0, 0xBF)
  else if n = 0xED then some (2, 0xD, 0x80, 0x9F)
  else if 0xE1 ≤ n ∧ n ≤ 0xEF then some (2, n - 0xE0, 0x80, 0xBF)
  else if n = 0xF0 then some (3, 0, 0x90, 0xBF)
  else if 0xF1 ≤ n ∧ n ≤ 0xF3 then some (3, n - 0xF0, 0x80, 0xBF)
  else if n = 0xF4 then some (3, 4, 0x80, 0x8F)
  else none

/-- Read `k` continuation bytes onto the bits `acc`: the code point, or how
many bytes were well formed before the first that was not. -/
def conts (acc : Nat) : Nat → List UInt8 → Nat ⊕ Nat
  | 0, _ => .inl acc
  | _ + 1, [] => .inr 0
  | k + 1, b :: bs =>
      match cont? b with
      | none => .inr 0
      | some v =>
          match conts (acc * 64 + v) k bs with
          | .inl c => .inl c
          | .inr m => .inr (m + 1)

/-- The first character of a byte string and the bytes it takes; `none` for
an ill-formed piece. -/
def decodeHead : List UInt8 → Option Char × Nat
  | [] => (none, 1)
  | b :: bs =>
      if b.toNat < 0x80 then (some (Char.ofNat b.toNat), 1)
      else match lead? b with
        | none => (none, 1)
        | some (k, bits, lo, hi) =>
            match bs with
            | [] => (none, 1)
            | b1 :: _ =>
                if lo ≤ b1.toNat ∧ b1.toNat ≤ hi then
                  match conts bits k bs with
                  | .inl c => (some (Char.ofNat c), k + 1)
                  | .inr m => (none, m + 1)
                else (none, 1)

def lossyFuel : Nat → List UInt8 → List Char
  | 0, _ => []
  | _ + 1, [] => []
  | fuel + 1, b :: bs =>
      ((decodeHead (b :: bs)).1.getD (Char.ofNat 0xFFFD)) ::
        lossyFuel fuel ((b :: bs).drop (decodeHead (b :: bs)).2)

/-- `String::from_utf8_lossy`; every step takes at least a byte, so the
length is fuel enough. -/
def lossy (bs : List UInt8) : List Char := lossyFuel bs.length bs

example : lossy [0x68, 0xC3, 0xA9, 0xFF, 0xE2, 0x82] = ['h', 'é', '\uFFFD', '\uFFFD'] := by decide

/-! ## What was encoded is decoded -/

theorem toNat_ofNat {n : Nat} (h : n < 256) : (UInt8.ofNat n).toNat = n := by
  rw [UInt8.toNat_ofNat']
  omega

theorem cont?_ofNat (n : Nat) : cont? (UInt8.ofNat (n % 64 + 0x80)) = some (n % 64) := by
  have hn : (UInt8.ofNat (n % 64 + 0x80)).toNat = n % 64 + 0x80 := toNat_ofNat (by omega)
  rw [cont?, hn, if_pos (by omega), Nat.add_sub_cancel]

/-- A code point is not a surrogate. -/
theorem scalar (c : Char) : c.val.toNat < 0xD800 ∨ (0xDFFF < c.val.toNat ∧ c.val.toNat < 0x110000) :=
  c.valid

/-- The lead byte of a two-byte character. -/
theorem lead?_two {v : Nat} (h : 0x80 ≤ v) (h' : v ≤ 0x7FF) :
    lead? (UInt8.ofNat (v / 64 % 32 + 0xC0)) = some (1, v / 64, 0x80, 0xBF) := by
  have hn : (UInt8.ofNat (v / 64 % 32 + 0xC0)).toNat = v / 64 + 0xC0 := by
    rw [toNat_ofNat (by omega)]
    omega
  rw [lead?, hn, if_pos (by omega), Nat.add_sub_cancel]

/-- The lead byte of a three-byte character, and the range of the byte after it. -/
theorem lead?_three {v : Nat} (h : 0x800 ≤ v) (h' : v ≤ 0xFFFF)
    (hscalar : v < 0xD800 ∨ 0xDFFF < v) :
    ∃ lo hi, lead? (UInt8.ofNat (v / 4096 % 16 + 0xE0)) = some (2, v / 4096, lo, hi) ∧
      lo ≤ v / 64 % 64 + 0x80 ∧ v / 64 % 64 + 0x80 ≤ hi := by
  have hn : (UInt8.ofNat (v / 4096 % 16 + 0xE0)).toNat = v / 4096 + 0xE0 := by
    rw [toNat_ofNat (by omega)]
    omega
  rw [lead?, hn, if_neg (by omega)]
  by_cases h0 : v / 4096 = 0
  · rw [if_pos (by omega), h0]
    exact ⟨_, _, rfl, by omega, by omega⟩
  · rw [if_neg (by omega)]
    by_cases hD : v / 4096 = 0xD
    · rw [if_pos (by omega), hD]
      exact ⟨_, _, rfl, by omega, by omega⟩
    · rw [if_neg (by omega), if_pos (by omega), Nat.add_sub_cancel]
      exact ⟨_, _, rfl, by omega, by omega⟩

theorem lead?_four {v : Nat} (h : 0x10000 ≤ v) (h' : v < 0x110000) :
    ∃ lo hi, lead? (UInt8.ofNat (v / 262144 % 8 + 0xF0)) = some (3, v / 262144, lo, hi) ∧
      lo ≤ v / 4096 % 64 + 0x80 ∧ v / 4096 % 64 + 0x80 ≤ hi := by
  have hn : (UInt8.ofNat (v / 262144 % 8 + 0xF0)).toNat = v / 262144 + 0xF0 := by
    rw [toNat_ofNat (by omega)]
    omega
  rw [lead?, hn, if_neg (by omega), if_neg (by omega), if_neg (by omega), if_neg (by omega)]
  by_cases h0 : v / 262144 = 0
  · rw [if_pos (by omega), h0]
    exact ⟨_, _, rfl, by omega, by omega⟩
  · rw [if_neg (by omega)]
    by_cases h4 : v / 262144 = 4
    · rw [if_neg (by omega), if_pos (by omega), h4]
      exact ⟨_, _, rfl, by omega, by omega⟩
    · rw [if_pos (by omega), Nat.add_sub_cancel]
      exact ⟨_, _, rfl, by omega, by omega⟩

/-- The first character of an encoded text is read back. -/
theorem decodeHead_encode (c : Char) (rest : List UInt8) :
    decodeHead (String.utf8EncodeChar c ++ rest) = (some c, c.utf8Size) := by
  have hscalar := scalar c
  have hc : Char.ofNat c.val.toNat = c := Char.ofNat_toNat c
  have hsize : c.utf8Size = (String.utf8EncodeChar c).length := (String.length_utf8EncodeChar c).symm
  rw [hsize, String.utf8EncodeChar]
  generalize c.val.toNat = v at *
  split
  · have hv : (UInt8.ofNat v).toNat = v := toNat_ofNat (by omega)
    rw [List.cons_append, decodeHead, hv, if_pos (by omega), hc]
    rfl
  · split
    · have hb : (UInt8.ofNat (v / 64 % 32 + 0xC0)).toNat = v / 64 % 32 + 0xC0 := toNat_ofNat (by omega)
      have hb1 : (UInt8.ofNat (v % 64 + 0x80)).toNat = v % 64 + 0x80 := toNat_ofNat (by omega)
      have hv : v / 64 * 64 + v % 64 = v := by omega
      rw [List.cons_append, decodeHead, hb, if_neg (by omega), lead?_two (by omega) (by omega)]
      simp only [List.cons_append, hb1, conts, cont?_ofNat, hv, hc]
      rw [if_pos (by omega)]
      rfl
    · split
      · obtain ⟨lo, hi, hlead, hlo, hhi⟩ := lead?_three (v := v) (by omega) (by omega) (by omega)
        have hb : (UInt8.ofNat (v / 4096 % 16 + 0xE0)).toNat = v / 4096 % 16 + 0xE0 :=
          toNat_ofNat (by omega)
        have hb1 : (UInt8.ofNat (v / 64 % 64 + 0x80)).toNat = v / 64 % 64 + 0x80 :=
          toNat_ofNat (by omega)
        have hv : (v / 4096 * 64 + v / 64 % 64) * 64 + v % 64 = v := by omega
        rw [List.cons_append, decodeHead, hb, if_neg (by omega), hlead]
        simp only [List.cons_append, hb1, conts, cont?_ofNat, hv, hc]
        rw [if_pos ⟨hlo, hhi⟩]
        rfl
      · obtain ⟨lo, hi, hlead, hlo, hhi⟩ := lead?_four (v := v) (by omega) (by omega)
        have hb : (UInt8.ofNat (v / 262144 % 8 + 0xF0)).toNat = v / 262144 % 8 + 0xF0 :=
          toNat_ofNat (by omega)
        have hb1 : (UInt8.ofNat (v / 4096 % 64 + 0x80)).toNat = v / 4096 % 64 + 0x80 :=
          toNat_ofNat (by omega)
        have hv : ((v / 262144 * 64 + v / 4096 % 64) * 64 + v / 64 % 64) * 64 + v % 64 = v := by
          omega
        rw [List.cons_append, decodeHead, hb, if_neg (by omega), hlead]
        simp only [List.cons_append, hb1, conts, cont?_ofNat, hv, hc]
        rw [if_pos ⟨hlo, hhi⟩]
        rfl

theorem encode_cons (c : Char) (cs : List Char) :
    encode (c :: cs) = String.utf8EncodeChar c ++ encode cs := List.flatMap_cons

theorem encode_append (cs ds : List Char) : encode (cs ++ ds) = encode cs ++ encode ds :=
  List.flatMap_append

theorem length_encode (cs : List Char) : (encode cs).length = byteLen cs := by
  induction cs with
  | nil => rfl
  | cons c cs ih =>
      rw [encode_cons, List.length_append, String.length_utf8EncodeChar, ih, byteLen]

theorem byteLen_append (cs ds : List Char) : byteLen (cs ++ ds) = byteLen cs + byteLen ds := by
  rw [← length_encode, encode_append, List.length_append, length_encode, length_encode]

theorem byteLen_replicate (n : Nat) (c : Char) :
    byteLen (List.replicate n c) = n * c.utf8Size := by
  induction n with
  | zero => exact (Nat.zero_mul _).symm
  | succ n ih => rw [List.replicate_succ, byteLen, ih, Nat.succ_mul, Nat.add_comm]

theorem utf8Size_of_ascii {c : Char} (h : c.toNat < 128) : c.utf8Size = 1 := by
  refine Char.utf8Size_eq_one_iff.mpr ?_
  rw [UInt32.le_iff_toNat_le]
  exact Nat.le_of_lt_succ h

theorem byteLen_of_ascii {cs : List Char} (h : ∀ c ∈ cs, c.toNat < 128) :
    byteLen cs = cs.length := by
  induction cs with
  | nil => rfl
  | cons c cs ih =>
      rw [byteLen, utf8Size_of_ascii (h c List.mem_cons_self),
        ih fun d hd => h d (List.mem_cons_of_mem c hd), List.length_cons, Nat.add_comm]

/-- The size of a string is that of its characters. -/
theorem utf8ByteSize_eq (s : String) : s.utf8ByteSize = byteLen s.toList := by
  rw [← length_encode, ← String.size_toByteArray, ← String.utf8Encode_toList, List.utf8Encode,
    List.size_toByteArray, encode]

/-- Lossy decoding loses nothing of a text. -/
theorem lossyFuel_encode (cs : List Char) :
    ∀ fuel, (encode cs).length ≤ fuel → lossyFuel fuel (encode cs) = cs := by
  induction cs with
  | nil =>
      intro fuel _
      cases fuel with
      | zero => rfl
      | succ fuel => rfl
  | cons c cs ih =>
      intro fuel hfuel
      have hhead := decodeHead_encode c (encode cs)
      have hpos := c.utf8Size_pos
      rw [encode_cons, List.length_append, String.length_utf8EncodeChar] at hfuel
      have hdrop : (String.utf8EncodeChar c ++ encode cs).drop c.utf8Size = encode cs :=
        List.drop_left' (String.length_utf8EncodeChar c)
      rw [encode_cons]
      cases hbytes : String.utf8EncodeChar c ++ encode cs with
      | nil => exact absurd (List.append_eq_nil_iff.mp hbytes).1 String.utf8EncodeChar_ne_nil
      | cons b bs =>
          cases fuel with
          | zero => omega
          | succ fuel =>
              rw [hbytes] at hhead hdrop
              rw [lossyFuel, hhead, hdrop, ih fuel (by omega)]
              rfl

theorem lossy_encode (cs : List Char) : lossy (encode cs) = cs :=
  lossyFuel_encode cs _ (Nat.le_refl _)

/-- `str::from_utf8`: the text with these bytes, if there is one. -/
def fromUtf8 (bs : List UInt8) : Option (List Char) :=
  if encode (lossy bs) = bs then some (lossy bs) else none

theorem fromUtf8_encode (cs : List Char) : fromUtf8 (encode cs) = some cs := by
  rw [fromUtf8, lossy_encode, if_pos rfl]

/-! ## Character boundaries -/

/-- Some prefix of the text has exactly `n` bytes. -/
def IsBoundary (n : Nat) (cs : List Char) : Prop := ∃ front, front <+: cs ∧ byteLen front = n

theorem sliceTo?_eq_some_iff {n : Nat} {cs front : List Char} :
    sliceTo? n cs = some front ↔ front <+: cs ∧ byteLen front = n := by
  induction cs generalizing n front with
  | nil =>
      cases n with
      | zero =>
          rw [sliceTo?, Option.some_inj, List.prefix_nil]
          constructor
          · rintro rfl
            exact ⟨rfl, rfl⟩
          · rintro ⟨rfl, -⟩
            rfl
      | succ n =>
          rw [sliceTo?, List.prefix_nil]
          constructor
          · intro h
            cases h
          · rintro ⟨rfl, h⟩
            cases h
  | cons c cs ih =>
      have hpos := c.utf8Size_pos
      cases front with
      | nil =>
          cases n with
          | zero => exact iff_of_true rfl ⟨List.nil_prefix, rfl⟩
          | succ n =>
              refine iff_of_false ?_ ?_
              · rw [sliceTo?]
                split
                · simp
                · simp
              · rintro ⟨-, h⟩
                cases h
      | cons d front =>
          cases n with
          | zero =>
              refine iff_of_false ?_ ?_
              · rw [sliceTo?]
                simp
              · rintro ⟨h, hlen⟩
                rw [byteLen] at hlen
                have hd := d.utf8Size_pos
                omega
          | succ n =>
              rw [sliceTo?, List.cons_prefix_cons, byteLen]
              split
              · next hle =>
                  rw [Option.map_eq_some_iff]
                  constructor
                  · rintro ⟨tail, htail, hcons⟩
                    cases hcons
                    obtain ⟨hfronts, hlen⟩ := ih.mp htail
                    exact ⟨⟨rfl, hfronts⟩, by omega⟩
                  · rintro ⟨⟨rfl, hfronts⟩, hlen⟩
                    exact ⟨front, ih.mpr ⟨hfronts, by omega⟩, rfl⟩
              · next hlt =>
                  refine iff_of_false (by simp) ?_
                  rintro ⟨⟨rfl, -⟩, hlen⟩
                  omega

theorem isSome_sliceTo?_iff {n : Nat} {cs : List Char} :
    (sliceTo? n cs).isSome ↔ IsBoundary n cs := by
  rw [Option.isSome_iff_exists]
  exact exists_congr fun _ => sliceTo?_eq_some_iff

instance (n : Nat) (cs : List Char) : Decidable (IsBoundary n cs) :=
  decidable_of_iff _ isSome_sliceTo?_iff

end Utf8
