import Scarab.Bp.Tagescl.State

/-! # Folded histories

A bit that is shifted into a folded history is shifted out of it again by the reverse step. -/

namespace Scarab.Bp.Tagescl

namespace FoldedHistory

variable {f : FoldedHistory} (first last : Bool)

/-- The value fits the compressed length, and so does the place where the last bit leaves. -/
structure Fits (f : FoldedHistory) : Prop where
  value : f.currentValue < 2 ^ f.compressedLength
  compressedLength : 0 < f.compressedLength
  outpoint : f.outpoint < f.compressedLength

theorem Fits.testBit (h : f.Fits) {i : ℕ} (hi : f.compressedLength ≤ i) : f.currentValue.testBit i = false :=
  Nat.testBit_lt_two_pow (Nat.lt_of_lt_of_le h.value (Nat.pow_le_pow_right (by decide) hi))

theorem shiftIn_fits (h : f.Fits) : (f.shiftIn first last).Fits :=
  ⟨Nat.and_lt_two_pow _ (Nat.sub_lt (Nat.two_pow_pos _) Nat.one_pos), h.compressedLength, h.outpoint⟩

/-- A single bit at a place. -/
theorem testBit_bool_shiftLeft (b : Bool) (i j : ℕ) : (b.toNat <<< i).testBit j = (decide (j = i) && b) := by
  rw [Nat.testBit_shiftLeft, Nat.testBit_bool_toNat]
  by_cases hj : j = i
  · simp [hj]
  · by_cases hge : i ≤ j
    · have hpos : j - i ≠ 0 := by omega
      simp [hj, hpos]
    · simp [hj, hge]

/-- The bits of the new value: those of the old one moved up, the highest one to the lowest
place, and the two bits of the history put in. -/
theorem testBit_shiftIn (h : f.Fits) (i : ℕ) (hi : i < f.compressedLength) :
    (f.shiftIn first last).currentValue.testBit i =
      ((if i = 0 then f.currentValue.testBit (f.compressedLength - 1) ^^ first else f.currentValue.testBit (i - 1)) ^^
        (decide (i = f.outpoint) && last)) := by
  have hc := h.compressedLength
  have ho := h.outpoint
  simp only [shiftIn, Nat.testBit_and, Nat.testBit_xor, Nat.testBit_shiftRight, Nat.testBit_two_pow_sub_one,
    testBit_bool_shiftLeft]
  simp only [Nat.testBit_shiftLeft, Nat.testBit_bool_toNat]
  have hfirst : decide (i + f.compressedLength = 0) = false := decide_eq_false (by omega)
  have hhigh : decide (i + f.compressedLength = f.outpoint) = false := decide_eq_false (by omega)
  have hpos : decide (i + f.compressedLength ≥ 1) = true := decide_eq_true (by omega)
  simp only [Nat.add_comm f.compressedLength i, hfirst, hhigh, hpos, decide_eq_true hi]
  by_cases hzero : i = 0
  · subst hzero
    simp only [Nat.zero_add, if_pos]
    cases first <;> cases f.currentValue.testBit (f.compressedLength - 1) <;> simp
  · have hout : f.currentValue.testBit (i + f.compressedLength - 1) = false := h.testBit (by omega)
    have hge : decide (i ≥ 1) = true := decide_eq_true (by omega)
    simp [hzero, hout, hge]

/-- Shifting out what has been shifted in. -/
theorem shiftOut_shiftIn (h : f.Fits) : (f.shiftIn first last).shiftOut first last = f := by
  have hc := h.compressedLength
  have ho := h.outpoint
  let value := (f.shiftIn first last).currentValue ^^^ first.toNat ^^^ (last.toNat <<< f.outpoint)
  have hbit : ∀ i, value.testBit i = ((f.shiftIn first last).currentValue.testBit i ^^
      (decide (i = 0) && first) ^^ (decide (i = f.outpoint) && last)) := by
    intro i
    rw [Nat.testBit_xor, Nat.testBit_xor, Nat.testBit_bool_toNat, testBit_bool_shiftLeft]
  have hlow : value.testBit 0 = f.currentValue.testBit (f.compressedLength - 1) := by
    rw [hbit, testBit_shiftIn first last h 0 hc, if_pos rfl]
    generalize (decide (0 = f.outpoint) && last) = o
    cases first <;> cases f.currentValue.testBit (f.compressedLength - 1) <;> cases o <;> rfl
  have hmid : ∀ i, i + 1 < f.compressedLength → value.testBit (i + 1) = f.currentValue.testBit i := by
    intro i hi
    rw [hbit, testBit_shiftIn first last h (i + 1) hi]
    simp
  have hin : (f.shiftIn first last).currentValue.testBit f.compressedLength = false :=
    (shiftIn_fits first last h).testBit (Nat.le_refl _)
  have hhigh : value.testBit f.compressedLength = false := by
    rw [hbit, hin, decide_eq_false (by omega : ¬f.compressedLength = 0),
      decide_eq_false (by omega : ¬f.compressedLength = f.outpoint)]
    rfl
  have hvalue : ((f.shiftIn first last).shiftOut first last).currentValue = f.currentValue := by
    apply Nat.eq_of_testBit_eq
    intro i
    have hout : ((f.shiftIn first last).shiftOut first last).currentValue =
        (((value &&& 1) <<< (f.compressedLength - 1)) ||| (value >>> 1)) &&& (2 ^ f.compressedLength - 1) := rfl
    have hlowest : value &&& 1 = (value.testBit 0).toNat := by
      rw [Nat.and_one_is_mod, Nat.toNat_testBit, Nat.pow_zero, Nat.div_one]
    rw [hout, Nat.testBit_and, Nat.testBit_or, Nat.testBit_two_pow_sub_one, Nat.testBit_shiftRight, hlowest,
      testBit_bool_shiftLeft, hlow, Nat.add_comm 1 i]
    by_cases hi : i < f.compressedLength
    · rw [decide_eq_true hi, Bool.and_true]
      by_cases hlast : i = f.compressedLength - 1
      · have htop : i + 1 = f.compressedLength := by omega
        rw [htop, hhigh, hlast]
        simp
      · rw [hmid i (by omega), decide_eq_false hlast]
        simp
    · rw [decide_eq_false hi, Bool.and_false, h.testBit (by omega)]
  cases f
  exact congrArg (fun v => FoldedHistory.mk v _ _ _) hvalue

end FoldedHistory

end Scarab.Bp.Tagescl
