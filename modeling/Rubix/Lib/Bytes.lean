/-
# `Rubix.Lib.Bytes` — fixed-width integers as bytes

Little-endian and big-endian texts of a natural number in `k` bytes; big
endian is little endian reversed.  Writing reduces modulo `256 ^ k`, and
reading inverts it:

    ofLe (toLe k n) = n % 256 ^ k        toLe bs.length (ofLe bs) = bs
-/

namespace Bytes

def toLe : Nat → Nat → List UInt8
  | 0, _ => []
  | k + 1, n => UInt8.ofNat (n % 256) :: toLe k (n / 256)

def ofLe : List UInt8 → Nat
  | [] => 0
  | b :: bs => b.toNat + 256 * ofLe bs

def toBe (k n : Nat) : List UInt8 := (toLe k n).reverse

def ofBe (bs : List UInt8) : Nat := ofLe bs.reverse

@[simp] theorem length_toLe (k n : Nat) : (toLe k n).length = k := by
  induction k generalizing n with
  | zero => rfl
  | succ k ih => simp [toLe, ih]

@[simp] theorem length_toBe (k n : Nat) : (toBe k n).length = k := by
  rw [toBe, List.length_reverse, length_toLe]

theorem ofLe_toLe (k n : Nat) : ofLe (toLe k n) = n % Nat.pow 256 k := by
  induction k generalizing n with
  | zero => exact (Nat.mod_one n).symm
  | succ k ih =>
      have hbyte : (UInt8.ofNat (n % 256)).toNat = n % 256 := by
        rw [UInt8.toNat_ofNat']
        exact Nat.mod_mod n 256
      rw [toLe, ofLe, hbyte, ih]
      show n % 256 + 256 * (n / 256 % Nat.pow 256 k) = n % (Nat.pow 256 k * 256)
      rw [Nat.mul_comm (Nat.pow 256 k) 256, Nat.mod_mul]

theorem ofBe_toBe (k n : Nat) : ofBe (toBe k n) = n % Nat.pow 256 k := by
  rw [ofBe, toBe, List.reverse_reverse, ofLe_toLe]

theorem ofBe_toBe_of_lt {k n : Nat} (h : n < Nat.pow 256 k) : ofBe (toBe k n) = n := by
  rw [ofBe_toBe, Nat.mod_eq_of_lt h]

/-- Numbers that fit are told apart by their bytes. -/
theorem toLe_injective {k m n : Nat} (hm : m < Nat.pow 256 k) (hn : n < Nat.pow 256 k)
    (h : toLe k m = toLe k n) : m = n := by
  have hm' := ofLe_toLe k m
  rw [h, ofLe_toLe, Nat.mod_eq_of_lt hn, Nat.mod_eq_of_lt hm] at hm'
  exact hm'.symm

theorem toLe_ofLe (bs : List UInt8) : toLe bs.length (ofLe bs) = bs := by
  induction bs with
  | nil => rfl
  | cons b bs ih =>
      have hb := b.toNat_lt
      have hmod : (b.toNat + 256 * ofLe bs) % 256 = b.toNat := by omega
      have hdiv : (b.toNat + 256 * ofLe bs) / 256 = ofLe bs := by omega
      rw [List.length_cons, ofLe, toLe, hmod, hdiv, UInt8.ofNat_toNat, ih]

theorem ofLe_lt (bs : List UInt8) : ofLe bs < Nat.pow 256 bs.length := by
  have hread := ofLe_toLe bs.length (ofLe bs)
  rw [toLe_ofLe] at hread
  rw [hread]
  exact Nat.mod_lt _ (Nat.pow_pos (by decide))

theorem ofBe_lt (bs : List UInt8) : ofBe bs < Nat.pow 256 bs.length := by
  rw [ofBe, ← List.length_reverse]
  exact ofLe_lt bs.reverse

theorem toBe_ofBe (bs : List UInt8) : toBe bs.length (ofBe bs) = bs := by
  rw [toBe, ofBe, ← List.length_reverse, toLe_ofLe, List.reverse_reverse]

end Bytes
