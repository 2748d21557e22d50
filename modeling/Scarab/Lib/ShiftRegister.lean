import Mathlib.Algebra.Group.Nat.Defs

/-! # Shift registers

A register is shifted, mixed with an input and masked at each step. Every step moves what it held before out of
the mask by the shift, whatever the inputs put over it, so that it remembers only its last inputs. -/

namespace Scarab.ShiftRegister

variable {w k n shift : ℕ} {mask s s' : BitVec w}

/-- Shift the register, mix the input in, and mask the result. -/
def mix (shift : ℕ) (mask s x : BitVec w) : BitVec w := ((s <<< shift) ^^^ x) &&& mask

/-- The register holds nothing outside of the mask. -/
def Masked (mask s : BitVec w) : Prop := s &&& mask = s

/-- Two registers hold the same below bit `k`. -/
def AgreeBelow (k : ℕ) (s s' : BitVec w) : Prop := ∀ i < k, s.getLsbD i = s'.getLsbD i

/-! ## One input -/

theorem mix_masked (shift : ℕ) (mask s x : BitVec w) : Masked mask (mix shift mask s x) := by
  unfold Masked mix
  rw [BitVec.and_assoc, BitVec.and_self]

theorem AgreeBelow.mix (h : AgreeBelow k s s') (shift : ℕ) (mask x : BitVec w) :
    AgreeBelow (k + shift) (mix shift mask s x) (mix shift mask s' x) := by
  intro i hi
  have hshifted : (s <<< shift).getLsbD i = (s' <<< shift).getLsbD i := by
    rw [BitVec.getLsbD_shiftLeft, BitVec.getLsbD_shiftLeft]
    by_cases hlow : i < shift
    · simp [hlow]
    · rw [h (i - shift) (by omega)]
  unfold ShiftRegister.mix
  rw [BitVec.getLsbD_and, BitVec.getLsbD_and, BitVec.getLsbD_xor, BitVec.getLsbD_xor, hshifted]

/-! ## Many inputs -/

theorem foldl_masked (hs : Masked mask s) (shift : ℕ) (xs : List (BitVec w)) : Masked mask (xs.foldl (mix shift mask) s) := by
  induction xs generalizing s with
  | nil => exact hs
  | cons x xs ih => exact ih (mix_masked shift mask s x)

theorem AgreeBelow.foldl (h : AgreeBelow k s s') (shift : ℕ) (mask : BitVec w) (xs : List (BitVec w)) :
    AgreeBelow (k + xs.length * shift) (xs.foldl (ShiftRegister.mix shift mask) s)
      (xs.foldl (ShiftRegister.mix shift mask) s') := by
  induction xs generalizing k s s' with
  | nil => simpa using h
  | cons x xs ih =>
      have hrest := ih (h.mix shift mask x)
      rwa [Nat.add_assoc, Nat.add_comm shift, ← Nat.succ_mul] at hrest

theorem AgreeBelow.eq (h : AgreeBelow k s s') (hmask : ∀ i, k ≤ i → mask.getLsbD i = false) (hs : Masked mask s)
    (hs' : Masked mask s') : s = s' := by
  apply BitVec.eq_of_getLsbD_eq
  intro i _
  by_cases hlow : i < k
  · exact h i hlow
  · have hout : mask.getLsbD i = false := hmask i (Nat.le_of_not_lt hlow)
    rw [← hs, ← hs', BitVec.getLsbD_and, BitVec.getLsbD_and, hout, Bool.and_false, Bool.and_false]

/-- Enough inputs leave nothing of what the register held before. -/
theorem foldl_forget (hmask : ∀ i, n ≤ i → mask.getLsbD i = false) (hs : Masked mask s) (hs' : Masked mask s')
    {xs : List (BitVec w)} (hlen : n ≤ xs.length * shift) :
    xs.foldl (mix shift mask) s = xs.foldl (mix shift mask) s' := by
  have hagree : AgreeBelow 0 s s' := fun i hi => absurd hi (Nat.not_lt_zero i)
  have hfold := hagree.foldl shift mask xs
  rw [Nat.zero_add] at hfold
  exact hfold.eq (fun i hi => hmask i (Nat.le_trans hlen hi)) (foldl_masked hs shift xs) (foldl_masked hs' shift xs)

end Scarab.ShiftRegister
