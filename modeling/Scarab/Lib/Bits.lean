import Mathlib.Algebra.Group.Nat.Defs

/-! # Masks as arithmetic

Masking the low or the high bits of a word is a remainder or a rounding of its value. -/

namespace Scarab.Bits

variable {w : ℕ}

theorem toNat_and_low (x : BitVec w) (n : ℕ) (hn : n ≤ w) :
    (x &&& BitVec.ofNat w (2 ^ n - 1)).toNat = x.toNat % 2 ^ n := by
  have hlt : 2 ^ n - 1 < 2 ^ w := by
    have hle : 2 ^ n ≤ 2 ^ w := Nat.pow_le_pow_right (by decide) hn
    have hpos := Nat.two_pow_pos n
    omega
  rw [BitVec.toNat_and, BitVec.toNat_ofNat, Nat.mod_eq_of_lt hlt, Nat.and_two_pow_sub_one_eq_mod]

/-- The high bits are what a shift back and forth leaves. -/
theorem and_high_eq (x : BitVec w) (n : ℕ) :
    x &&& ~~~(BitVec.ofNat w (2 ^ n - 1)) = (x >>> n) <<< n := by
  apply BitVec.eq_of_getLsbD_eq
  intro i hi
  simp only [BitVec.getLsbD_and, BitVec.getLsbD_not, BitVec.getLsbD_ofNat,
    Nat.testBit_two_pow_sub_one, BitVec.getLsbD_shiftLeft, BitVec.getLsbD_ushiftRight, hi,
    decide_true, Bool.true_and]
  by_cases hlow : i < n
  · simp [hlow]
  · simp [hlow, Nat.add_sub_cancel' (Nat.le_of_not_lt hlow)]

theorem toNat_and_high (x : BitVec w) (n : ℕ) :
    (x &&& ~~~(BitVec.ofNat w (2 ^ n - 1))).toNat = x.toNat / 2 ^ n * 2 ^ n := by
  have hle : x.toNat / 2 ^ n * 2 ^ n ≤ x.toNat := Nat.div_mul_le_self _ _
  rw [and_high_eq, BitVec.toNat_shiftLeft, BitVec.toNat_ushiftRight, Nat.shiftRight_eq_div_pow,
    Nat.shiftLeft_eq, Nat.mod_eq_of_lt (Nat.lt_of_le_of_lt hle x.isLt)]

/-- An increment under the mask of a size wraps at the largest power of two that divides the size. -/
theorem succ_and_pred {v odd x : ℕ} (hodd : odd % 2 = 1) (hx : x < 2 ^ v) :
    (x + 1) &&& (2 ^ v * odd - 1) = (x + 1) % 2 ^ v := by
  obtain ⟨half, rfl⟩ : ∃ half, odd = 2 * half + 1 := ⟨odd / 2, by omega⟩
  have hpos := Nat.two_pow_pos v
  have hmask : 2 ^ v * (2 * half + 1) - 1 = 2 ^ v * (2 * half) + (2 ^ v - 1) := by
    rw [Nat.mul_add, Nat.mul_one]
    omega
  rw [hmask]
  apply Nat.eq_of_testBit_eq
  intro j
  rw [Nat.testBit_and, Nat.testBit_two_pow_mul_add _ (by omega), Nat.testBit_mod_two_pow, Nat.testBit_two_pow_sub_one]
  by_cases hj : j < v
  · simp [hj]
  · rw [if_neg hj]
    by_cases hlast : x + 1 = 2 ^ v
    · -- the carry reaches the first bit that the mask lacks
      rw [hlast, Nat.testBit_two_pow]
      by_cases hjv : v = j
      · simp [hjv]
      · simp [hjv]
    · rw [Nat.testBit_lt_two_pow (Nat.lt_of_lt_of_le (by omega : x + 1 < 2 ^ v) (Nat.pow_le_pow_right (by decide) (by omega)))]
      simp

/-- A multiple of a power of two and a value below the power have no bit in common. -/
theorem mul_or_eq_add {a b n : ℕ} (hb : b < 2 ^ n) : a * 2 ^ n ||| b = a * 2 ^ n + b := by
  rw [Nat.mul_comm, Nat.two_pow_add_eq_or_of_lt hb]

/-- A power of two less one, as the mask that the code computes. -/
theorem one_shiftLeft_sub_one (n : ℕ) : ((1 : BitVec w) <<< n) - 1 = BitVec.ofNat w (2 ^ n - 1) := by
  have hpow : (1 : BitVec w) <<< n = BitVec.ofNat w (2 ^ n) := by
    apply BitVec.eq_of_toNat_eq
    have hone : (1 : BitVec w).toNat = 1 % 2 ^ w := BitVec.toNat_ofNat 1 w
    rw [BitVec.toNat_shiftLeft, hone, BitVec.toNat_ofNat, Nat.shiftLeft_eq, Nat.mul_mod, Nat.mod_mod, ← Nat.mul_mod,
      Nat.one_mul]
  cases w with
  | zero => exact Subsingleton.elim _ _
  | succ w =>
      rw [hpow]
      exact BitVec.ofNat_sub_ofNat_of_le _ 1 (Nat.one_lt_two_pow (Nat.succ_ne_zero w)) Nat.one_le_two_pow

/-- The parts of a word inside and outside a mask determine it. -/
theorem and_and_not_inj {x y m : BitVec w} (hin : x &&& m = y &&& m) (hout : x &&& ~~~m = y &&& ~~~m) : x = y := by
  have hsplit (z : BitVec w) : z = (z &&& m) ||| (z &&& ~~~m) := by
    apply BitVec.eq_of_getLsbD_eq
    intro i hi
    simp only [BitVec.getLsbD_or, BitVec.getLsbD_and, BitVec.getLsbD_not, hi, decide_true, Bool.true_and]
    cases z.getLsbD i <;> cases m.getLsbD i <;> rfl
  rw [hsplit x, hsplit y, hin, hout]

/-- The high bits of two words agree exactly when their shifts do. -/
theorem and_high_inj {x y : BitVec w} (n : ℕ) :
    x &&& ~~~(BitVec.ofNat w (2 ^ n - 1)) = y &&& ~~~(BitVec.ofNat w (2 ^ n - 1)) ↔ x >>> n = y >>> n := by
  have hback (z : BitVec w) : ((z >>> n) <<< n) >>> n = z >>> n := by
    apply BitVec.eq_of_getLsbD_eq
    intro i hi
    simp only [BitVec.getLsbD_ushiftRight, BitVec.getLsbD_shiftLeft]
    by_cases h : n + i < w
    · simp [h, Nat.add_sub_cancel_left]
    · simp [h, BitVec.getLsbD_of_ge _ _ (Nat.le_of_not_lt h)]
  rw [and_high_eq, and_high_eq]
  constructor
  · intro h
    rw [← hback x, h, hback]
  · intro h
    rw [h]

end Scarab.Bits
