/-
# `Rubix.Lib.Hex` — hexadecimal text of byte strings

Two lower-case digits a byte, high half first; reading accepts either case.
Grouping a text into chunks and joining the chunks with a separator that is
not a digit loses nothing: filtering the digits back out undoes it
(`filter_intercalate_chunks`), which is what a parser that ignores
separators relies on.
-/

namespace Hex

/-- The digit of a value below sixteen, lower case. -/
def digit (n : Nat) : Char :=
  if n < 10 then Char.ofNat ('0'.toNat + n) else Char.ofNat ('a'.toNat + (n - 10))

/-- The value of a digit in either case. -/
def val? (c : Char) : Option Nat :=
  if '0'.toNat ≤ c.toNat ∧ c.toNat ≤ '9'.toNat then some (c.toNat - '0'.toNat)
  else if 'a'.toNat ≤ c.toNat ∧ c.toNat ≤ 'f'.toNat then some (c.toNat - 'a'.toNat + 10)
  else if 'A'.toNat ≤ c.toNat ∧ c.toNat ≤ 'F'.toNat then some (c.toNat - 'A'.toNat + 10)
  else none

/-- Is the character an ASCII hex digit? -/
def isDigit (c : Char) : Bool := (val? c).isSome

/-- The text of a byte string, lower case. -/
def encode : List UInt8 → List Char
  | [] => []
  | b :: bs => digit (b.toNat / 16) :: digit (b.toNat % 16) :: encode bs

/-- The text of a byte string, upper case. -/
def encodeUpper (bs : List UInt8) : List Char := (encode bs).map Char.toUpper

/-- Reading a text two digits a byte; an odd digit and anything else is refused. -/
def decode : List Char → Option (List UInt8)
  | [] => some []
  | [_] => none
  | a :: b :: cs =>
      match val? a, val? b, decode cs with
      | some hi, some lo, some bs => some (UInt8.ofNat (16 * hi + lo) :: bs)
      | _, _, _ => none

/-! ## Digits -/

theorem val?_digit {n : Nat} (h : n < 16) : val? (digit n) = some n := by
  have key : ∀ m : Fin 16, val? (digit m) = some m.val := by decide
  exact key ⟨n, h⟩

theorem val?_toUpper_digit {n : Nat} (h : n < 16) : val? (digit n).toUpper = some n := by
  have key : ∀ m : Fin 16, val? (digit m).toUpper = some m.val := by decide
  exact key ⟨n, h⟩

theorem half_lt (b : UInt8) : b.toNat / 16 < 16 ∧ b.toNat % 16 < 16 := by
  have := b.toNat_lt
  omega

theorem ofNat_halves (b : UInt8) :
    UInt8.ofNat (16 * (b.toNat / 16) + b.toNat % 16) = b := by
  rw [Nat.div_add_mod]
  exact UInt8.ofNat_toNat

/-! ## Whole texts -/

theorem length_encode (bs : List UInt8) : (encode bs).length = 2 * bs.length := by
  induction bs with
  | nil => rfl
  | cons b bs ih =>
      simp only [encode, List.length_cons, ih]
      omega

theorem length_encodeUpper (bs : List UInt8) : (encodeUpper bs).length = 2 * bs.length := by
  rw [encodeUpper, List.length_map, length_encode]

theorem isDigit_of_mem_encodeUpper {bs : List UInt8} :
    ∀ c ∈ encodeUpper bs, isDigit c = true := by
  induction bs with
  | nil => exact fun c h => absurd h List.not_mem_nil
  | cons b bs ih =>
      intro c hc
      simp only [encodeUpper, encode, List.map_cons, List.mem_cons] at hc
      rcases hc with rfl | rfl | hc
      · simp [isDigit, val?_toUpper_digit (half_lt b).1]
      · simp [isDigit, val?_toUpper_digit (half_lt b).2]
      · exact ih c hc

theorem isDigit_of_mem_encode {bs : List UInt8} : ∀ c ∈ encode bs, isDigit c = true := by
  induction bs with
  | nil => exact fun c h => absurd h List.not_mem_nil
  | cons b bs ih =>
      intro c hc
      simp only [encode, List.mem_cons] at hc
      rcases hc with rfl | rfl | hc
      · simp [isDigit, val?_digit (half_lt b).1]
      · simp [isDigit, val?_digit (half_lt b).2]
      · exact ih c hc

theorem digit_injective {m n : Nat} (hm : m < 16) (hn : n < 16) (h : digit m = digit n) :
    m = n := by
  have hv := val?_digit hm
  rw [h, val?_digit hn] at hv
  exact (Option.some.inj hv).symm

theorem encode_injective : ∀ {as bs : List UInt8}, encode as = encode bs → as = bs
  | [], [], _ => rfl
  | [], _ :: _, h => by simp [encode] at h
  | _ :: _, [], h => by simp [encode] at h
  | a :: as, b :: bs, h => by
      simp only [encode, List.cons.injEq] at h
      obtain ⟨hhi, hlo, ht⟩ := h
      have h1 := digit_injective (half_lt a).1 (half_lt b).1 hhi
      have h2 := digit_injective (half_lt a).2 (half_lt b).2 hlo
      have hab : a = b := by rw [← ofNat_halves a, h1, h2, ofNat_halves]
      rw [hab, encode_injective ht]

theorem decode_encode (bs : List UInt8) : decode (encode bs) = some bs := by
  induction bs with
  | nil => rfl
  | cons b bs ih =>
      rw [encode, decode, val?_digit (half_lt b).1, val?_digit (half_lt b).2, ih]
      dsimp only
      rw [ofNat_halves]

/-- A text that can be read is twice as long as what it spells, and has digits
only. -/
theorem of_decode : ∀ {cs : List Char} {bs : List UInt8}, decode cs = some bs →
    cs.length = 2 * bs.length ∧ ∀ c ∈ cs, isDigit c = true
  | [], bs, h => by
      cases h
      exact ⟨rfl, fun c hc => absurd hc List.not_mem_nil⟩
  | [_], _, h => by cases h
  | a :: b :: cs, bs, h => by
      rw [decode] at h
      split at h
      · next hi lo rest ha hb hrest =>
          cases h
          obtain ⟨hlen, hdigits⟩ := of_decode hrest
          refine ⟨?_, ?_⟩
          · simp only [List.length_cons]
            omega
          · intro c hc
            rcases List.mem_cons.mp hc with rfl | hc
            · rw [isDigit, ha, Option.isSome_some]
            · rcases List.mem_cons.mp hc with rfl | hc
              · rw [isDigit, hb, Option.isSome_some]
              · exact hdigits c hc
      · cases h

/-- Digits are ASCII. -/
theorem ascii_of_isDigit {c : Char} (h : isDigit c = true) : c.toNat < 128 := by
  have hf : 'f'.toNat = 102 := by decide
  have hF : 'F'.toNat = 70 := by decide
  have h9 : '9'.toNat = 57 := by decide
  rw [isDigit, val?] at h
  split at h
  · omega
  · split at h
    · omega
    · split at h
      · omega
      · cases h

/-! ## Letter case -/

/-- What holds of the 128 ASCII characters holds of each. -/
theorem of_ascii {p : Char → Prop} (h : ∀ n : Fin 128, p (Char.ofNat n)) {c : Char}
    (hc : c.toNat < 128) : p c := by
  have hnth : p (Char.ofNat c.toNat) := h ⟨c.toNat, hc⟩
  rwa [Char.ofNat_toNat] at hnth

/-- Only ASCII letters have another case. -/
theorem toUpper_of_not_ascii {c : Char} (hc : ¬ c.toNat < 128) : c.toUpper = c := by
  have hletter : ¬ ('a'.val ≤ c.val ∧ c.val ≤ 'z'.val) := by
    rintro ⟨-, hle⟩
    have hle' : c.toNat ≤ 122 := hle
    omega
  exact dif_neg hletter

theorem toLower_of_not_ascii {c : Char} (hc : ¬ c.toNat < 128) : c.toLower = c := by
  have hletter : ¬ (c.val ≥ 'A'.val ∧ c.val ≤ 'Z'.val) := by
    rintro ⟨-, hle⟩
    have hle' : c.toNat ≤ 90 := hle
    omega
  exact dif_neg hletter

/-- A digit is one in either case. -/
theorem isDigit_toUpper (c : Char) : isDigit c.toUpper = isDigit c := by
  by_cases hc : c.toNat < 128
  · exact of_ascii (p := fun c => isDigit c.toUpper = isDigit c) (by decide) hc
  · rw [toUpper_of_not_ascii hc]

theorem toUpper_toLower (c : Char) : c.toLower.toUpper = c.toUpper := by
  by_cases hc : c.toNat < 128
  · exact of_ascii (p := fun c => c.toLower.toUpper = c.toUpper) (by decide) hc
  · rw [toLower_of_not_ascii hc]

theorem toUpper_toUpper (c : Char) : c.toUpper.toUpper = c.toUpper := by
  by_cases hc : c.toNat < 128
  · exact of_ascii (p := fun c => c.toUpper.toUpper = c.toUpper) (by decide) hc
  · rw [toUpper_of_not_ascii hc, toUpper_of_not_ascii hc]

/-- A digit has a value below sixteen, and is one of the two that are written
for it. -/
theorem of_isDigit {c : Char} (h : isDigit c = true) :
    ∃ v, val? c = some v ∧ v < 16 ∧ (digit v).toUpper = c.toUpper := by
  obtain ⟨v, hv⟩ := Option.isSome_iff_exists.mp h
  have hdigits : ∀ n : Fin 128, ∀ v ∈ val? (Char.ofNat n),
      v < 16 ∧ (digit v).toUpper = (Char.ofNat n).toUpper := by decide
  exact ⟨v, hv, of_ascii (p := fun c => ∀ v ∈ val? c, v < 16 ∧ (digit v).toUpper = c.toUpper)
    hdigits (ascii_of_isDigit h) v hv⟩

/-- Filtering the digits and writing them in upper case can be done in either
order. -/
theorem map_toUpper_filter (cs : List Char) :
    (cs.filter isDigit).map Char.toUpper = (cs.map Char.toUpper).filter isDigit := by
  rw [List.filter_map]
  congr 1
  refine List.filter_congr ?_
  intro c _
  exact (isDigit_toUpper c).symm

/-! ## Chunks

`chunksFuel` recurses on a bound for the length, so that it computes. -/

section Chunks
variable {α : Type}

def chunksFuel (n : Nat) : Nat → List α → List (List α)
  | 0, _ => []
  | _ + 1, [] => []
  | fuel + 1, a :: l => (a :: l).take n :: chunksFuel n fuel ((a :: l).drop n)

/-- Consecutive chunks of `n` elements, the last one possibly shorter. -/
def chunks (n : Nat) (l : List α) : List (List α) := chunksFuel n l.length l

theorem chunksFuel_eq {n : Nat} (hn : 0 < n) :
    ∀ {k m : Nat} {l : List α}, l.length ≤ k → l.length ≤ m →
      chunksFuel n k l = chunksFuel n m l
  | 0, 0, _, _, _ => rfl
  | 0, k' + 1, [], _, _ => rfl
  | k + 1, 0, [], _, _ => rfl
  | k + 1, k' + 1, [], _, _ => rfl
  | k + 1, k' + 1, a :: l, h, h' => by
      have hd : ((a :: l).drop n).length ≤ l.length := by
        simp only [List.length_drop, List.length_cons]
        omega
      simp only [List.length_cons] at h h'
      simp only [chunksFuel]
      rw [chunksFuel_eq hn (k := k) (m := k') (by omega) (by omega)]

theorem chunks_cons {n : Nat} (hn : 0 < n) (a : α) (l : List α) :
    chunks n (a :: l) = (a :: l).take n :: chunks n ((a :: l).drop n) := by
  have hd : ((a :: l).drop n).length ≤ l.length := by
    simp only [List.length_drop, List.length_cons]
    omega
  show chunksFuel n (l.length + 1) (a :: l) = _
  simp only [chunksFuel, chunks]
  rw [chunksFuel_eq hn hd (Nat.le_refl _)]

/-- Two by two, a text of pairs is the list of its pairs. -/
theorem chunks_two (a b : α) (l : List α) : chunks 2 (a :: b :: l) = [a, b] :: chunks 2 l :=
  chunks_cons (by omega) a (b :: l)

theorem flatten_chunks {n : Nat} (hn : 0 < n) :
    ∀ (k : Nat) (l : List α), l.length ≤ k → (chunks n l).flatten = l
  | _, [], _ => rfl
  | 0, _ :: _, h => absurd h (by simp)
  | k + 1, a :: l, h => by
      have hd : ((a :: l).drop n).length ≤ k := by
        simp only [List.length_drop, List.length_cons] at h ⊢
        omega
      rw [chunks_cons hn, List.flatten_cons, flatten_chunks hn k _ hd, List.take_append_drop]

/-- A text of `k` whole chunks has `k` of them, each of its full length. -/
theorem chunks_of_length {n k : Nat} (hn : 0 < n) {l : List α} (h : l.length = n * k) :
    (chunks n l).length = k ∧ ∀ chunk ∈ chunks n l, chunk.length = n := by
  induction k generalizing l with
  | zero =>
      have hnil : l = [] := List.length_eq_zero_iff.mp h
      subst hnil
      exact ⟨rfl, fun _ hchunk => absurd hchunk List.not_mem_nil⟩
  | succ k ih =>
      rw [Nat.mul_succ] at h
      cases l with
      | nil =>
          rw [List.length_nil] at h
          omega
      | cons a l =>
          have hrest : ((a :: l).drop n).length = n * k := by
            rw [List.length_drop]
            omega
          obtain ⟨hcount, hchunks⟩ := ih hrest
          rw [chunks_cons hn, List.length_cons, hcount]
          refine ⟨rfl, ?_⟩
          intro chunk hchunk
          rcases List.mem_cons.mp hchunk with rfl | hchunk
          · exact List.length_take_of_le (by omega)
          · exact hchunks chunk hchunk

theorem length_chunks_le (n : Nat) (l : List α) : (chunks n l).length ≤ l.length := by
  have hfuel : ∀ (fuel : Nat) (l : List α), (chunksFuel n fuel l).length ≤ fuel := by
    intro fuel
    induction fuel with
    | zero =>
        intro l
        exact Nat.le_refl 0
    | succ fuel ih =>
        intro l
        cases l with
        | nil => exact Nat.zero_le _
        | cons a l => exact Nat.succ_le_succ (ih _)
  exact hfuel l.length l

end Chunks

/-- Filtering a joined text drops separators the filter rejects. -/
theorem filter_intercalate {α : Type} {p : α → Bool} {sep : α} (hsep : p sep = false) :
    ∀ {L : List (List α)}, (∀ c ∈ L.flatten, p c = true) →
      ([sep].intercalate L).filter p = L.flatten
  | [], _ => rfl
  | [l], h => by
      simp only [List.intercalate, List.intersperse, List.flatten_cons, List.flatten_nil,
        List.append_nil] at h ⊢
      exact List.filter_eq_self.mpr h
  | l :: l' :: ls, h => by
      have hl : l.filter p = l :=
        List.filter_eq_self.mpr fun c hc => h c (List.mem_append_left _ hc)
      have ih := filter_intercalate hsep (L := l' :: ls)
        fun c hc => h c (List.mem_append_right _ hc)
      rw [List.intercalate] at ih ⊢
      simp only [List.intersperse, List.flatten_cons, List.filter_append] at ih ⊢
      rw [hl, ih]
      simp [List.filter, hsep]

theorem filter_intercalate_chunks {n : Nat} (hn : 0 < n) {sep : Char}
    (hsep : isDigit sep = false) {l : List Char} (hl : ∀ c ∈ l, isDigit c = true) :
    ([sep].intercalate (chunks n l)).filter isDigit = l := by
  have hf := flatten_chunks hn l.length l (Nat.le_refl _)
  rw [filter_intercalate hsep (by rw [hf]; exact hl), hf]

theorem mem_intercalate {α : Type} {a sep : α} :
    ∀ {ls : List (List α)}, a ∈ [sep].intercalate ls → a = sep ∨ ∃ l ∈ ls, a ∈ l
  | [], h => absurd h List.not_mem_nil
  | [l], h => by
      rw [List.intercalate_singleton] at h
      exact .inr ⟨l, List.mem_singleton_self l, h⟩
  | l :: l' :: ls, h => by
      rw [List.intercalate_cons_cons, List.append_assoc, List.mem_append, List.mem_append] at h
      rcases h with h | h | h
      · exact .inr ⟨l, List.mem_cons_self, h⟩
      · exact .inl (List.mem_singleton.mp h)
      · rcases mem_intercalate h with h | ⟨m, hm, ha⟩
        · exact .inl h
        · exact .inr ⟨m, List.mem_cons_of_mem l hm, ha⟩

/-- Grouping a text adds separators to it, and nothing else. -/
theorem mem_intercalate_chunks {α : Type} {n : Nat} (hn : 0 < n) {a sep : α} {l : List α}
    (h : a ∈ [sep].intercalate (chunks n l)) : a = sep ∨ a ∈ l := by
  rcases mem_intercalate h with h | ⟨m, hm, ha⟩
  · exact .inl h
  · right
    rw [← flatten_chunks hn l.length l (Nat.le_refl _)]
    exact List.mem_flatten.mpr ⟨m, hm, ha⟩

theorem length_intercalate_le {α : Type} (sep : α) :
    ∀ L : List (List α), ([sep].intercalate L).length ≤ L.flatten.length + L.length
  | [] => Nat.le_refl 0
  | [l] => by
      rw [List.intercalate_singleton, List.flatten_singleton]
      exact Nat.le_add_right _ _
  | l :: l' :: ls => by
      have ih := length_intercalate_le sep (l' :: ls)
      have hcount : (l :: l' :: ls).length = (l' :: ls).length + 1 := rfl
      rw [List.intercalate_cons_cons, List.length_append, List.length_append, List.flatten_cons,
        List.length_append, hcount, List.length_singleton]
      omega

/-- The length of a joined text, one separator between any two of its parts. -/
theorem length_intercalate {α : Type} (sep : α) {n : Nat} :
    ∀ {L : List (List α)}, (∀ l ∈ L, l.length = n) → L ≠ [] →
      ([sep].intercalate L).length + 1 = (n + 1) * L.length
  | [], _, hne => absurd rfl hne
  | [l], hlen, _ => by
      rw [List.intercalate_singleton, hlen l List.mem_cons_self, List.length_singleton, Nat.mul_one]
  | l :: l' :: ls, hlen, _ => by
      have ih := length_intercalate sep (L := l' :: ls)
        (fun m hm => hlen m (List.mem_cons_of_mem l hm)) (List.cons_ne_nil _ _)
      have hcount : (l :: l' :: ls).length = (l' :: ls).length + 1 := rfl
      rw [List.intercalate_cons_cons, List.length_append, List.length_append,
        hlen l List.mem_cons_self, List.length_singleton, hcount, Nat.mul_succ, ← ih]
      omega

theorem length_intercalate_chunks_le {α : Type} {n : Nat} (hn : 0 < n) (sep : α) (l : List α) :
    ([sep].intercalate (chunks n l)).length ≤ 2 * l.length := by
  have hjoin := length_intercalate_le sep (chunks n l)
  have hcount := length_chunks_le n l
  rw [flatten_chunks hn l.length l (Nat.le_refl _)] at hjoin
  omega

/-! ## Where a text of digits ends

A text that ends in a digit, followed by one with a known number of digits,
ends where that one begins, however many other characters it has. -/

section Boundary
variable {α : Type} {p : α → Bool} {u u' v v' : List α}

/-- What ends in an element of `p` is not followed by more of it. -/
theorem not_shorter_of_countP (hu : ∃ front a, u = front ++ [a] ∧ p a = true)
    (h : u ++ v = u' ++ v') (hcount : v.countP p = v'.countP p) : ¬ v.length < v'.length := by
  intro hlt
  obtain ⟨front, a, rfl, ha⟩ := hu
  have hsuffix : [a] ++ v <:+ v' := by
    have hbehind : [a] ++ v <:+ u' ++ v' := by
      rw [← h, List.append_assoc]
      exact List.suffix_append _ _
    refine List.suffix_of_suffix_length_le hbehind (List.suffix_append _ _) ?_
    rw [List.singleton_append, List.length_cons]
    exact hlt
  have hle : ([a] ++ v).countP p ≤ v'.countP p := hsuffix.sublist.countP_le
  rw [List.singleton_append, List.countP_cons_of_pos ha] at hle
  omega

theorem append_inj_of_countP (hu : ∃ front a, u = front ++ [a] ∧ p a = true)
    (hu' : ∃ front a, u' = front ++ [a] ∧ p a = true) (h : u ++ v = u' ++ v')
    (hcount : v.countP p = v'.countP p) : u = u' ∧ v = v' := by
  have h₁ := not_shorter_of_countP hu h hcount
  have h₂ := not_shorter_of_countP hu' h.symm hcount.symm
  exact List.append_inj' h (by omega)

end Boundary

end Hex
