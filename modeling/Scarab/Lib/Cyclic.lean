import Mathlib.Data.Nat.Notation

/-! # Positions on a ring

How far one position of a ring of `n` lies behind another, and what a step of either
position does to the distance. -/

namespace Scarab.Cyclic

/-- The number of steps from `a` to `b` around a ring of `n` positions. -/
def distance (n a b : ℕ) : ℕ := if a ≤ b then b - a else b + n - a

variable {n a b c : ℕ}

theorem distance_lt (ha : a < n) (hb : b < n) : distance n a b < n := by
  unfold distance
  split <;> omega

@[simp] theorem distance_self : distance n a a = 0 := by
  simp [distance]

theorem distance_eq_zero (ha : a < n) : distance n a b = 0 ↔ b = a := by
  unfold distance
  split <;> omega

theorem distance_inj (ha : a < n) (hb : b < n) (hc : c < n)
    (h : distance n a b = distance n a c) : b = c := by
  unfold distance at h
  split at h <;> split at h <;> omega

theorem succ_mod (ha : a < n) : (a + 1) % n = if a + 1 = n then 0 else a + 1 := by
  split
  · rename_i h
    rw [h, Nat.mod_self]
  · exact Nat.mod_eq_of_lt (by omega)

theorem succ_mod_lt (ha : a < n) : (a + 1) % n < n := Nat.mod_lt _ (by omega)

/-- A step of the near end puts its old position last. -/
theorem distance_succ_self (ha : a < n) : distance n ((a + 1) % n) a = n - 1 := by
  rw [succ_mod ha]
  unfold distance
  split <;> split <;> omega

/-- A step of the near end brings every other position one step nearer. -/
theorem distance_succ_of_ne (ha : a < n) (hb : b < n) (h : b ≠ a) :
    distance n ((a + 1) % n) b + 1 = distance n a b := by
  rw [succ_mod ha]
  unfold distance
  split <;> split <;> split <;> omega

/-- A step of the far end takes it one step away, unless it comes around to the near end. -/
theorem distance_succ_right (ha : a < n) (hb : b < n) :
    distance n a ((b + 1) % n) = if (b + 1) % n = a then 0 else distance n a b + 1 := by
  rw [succ_mod hb]
  unfold distance
  split <;> split <;> split <;> (try split) <;> omega

/-- Counters less than a round apart are in different slots. -/
theorem mod_ne_of_lt (hlt : a < b) (hn : b - a < n) : a % n ≠ b % n := by
  intro heq
  have hdvd := Nat.dvd_of_mod_eq_zero (Nat.sub_mod_eq_zero_of_mod_eq heq.symm)
  have hle := Nat.le_of_dvd (by omega) hdvd
  omega

end Scarab.Cyclic
