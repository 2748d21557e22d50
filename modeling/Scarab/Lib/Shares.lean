import Mathlib.Algebra.BigOperators.Group.Finset.Basic
import Mathlib.Algebra.BigOperators.Group.Finset.Piecewise
import Mathlib.Algebra.GroupWithZero.Nat
import Mathlib.Algebra.Order.BigOperators.Group.Finset

/-! # Shares of a resource

Owners hold units of a resource, each next to a quota. Where the quotas fit, an owner below its
quota has a counterpart above it, and a unit that moves between them brings both closer. -/

namespace Scarab.Shares

variable {ι : Type*} {owners : Finset ι} {held held' quota : ι → ℕ} {loser winner : ι}

/-- How far the holdings are from the quotas. -/
def imbalance (owners : Finset ι) (held quota : ι → ℕ) : ℕ := ∑ i ∈ owners, ((held i : ℤ) - quota i).natAbs

/-- One unit changes its owner. -/
def Moves [DecidableEq ι] (loser winner : ι) (held held' : ι → ℕ) : Prop :=
  ∀ i, held' i + (if loser = i then 1 else 0) = held i + (if winner = i then 1 else 0)

/-- If the quotas fit into what is held, then someone is above the quota when someone is below. -/
theorem exists_above (hfit : ∑ i ∈ owners, quota i ≤ ∑ i ∈ owners, held i) (hwinner : winner ∈ owners)
    (hbelow : held winner < quota winner) : ∃ i ∈ owners, quota i < held i := by
  by_contra hnone
  have hle : ∀ i ∈ owners, held i ≤ quota i := by
    intro i hi
    by_contra hlt
    exact hnone ⟨i, hi, Nat.lt_of_not_le hlt⟩
  have hsum : ∑ i ∈ owners, held i < ∑ i ∈ owners, quota i := Finset.sum_lt_sum hle ⟨winner, hwinner, hbelow⟩
  omega

variable [DecidableEq ι]

/-- The imbalance with two owners taken out. -/
theorem imbalance_split (hloser : loser ∈ owners) (hwinner : winner ∈ owners) (hne : loser ≠ winner) :
    imbalance owners held quota = ((held loser : ℤ) - quota loser).natAbs + (((held winner : ℤ) - quota winner).natAbs +
      ∑ i ∈ (owners.erase loser).erase winner, ((held i : ℤ) - quota i).natAbs) := by
  unfold imbalance
  rw [← Finset.add_sum_erase owners _ hloser,
    ← Finset.add_sum_erase (owners.erase loser) _ (Finset.mem_erase.mpr ⟨hne.symm, hwinner⟩)]

theorem Moves.self (h : Moves winner winner held held') : held' = held := by
  funext i
  have hi := h i
  omega

/-- Between two owners only these two change. -/
theorem Moves.imbalance (h : Moves loser winner held held') (hloser : loser ∈ owners) (hwinner : winner ∈ owners)
    (hne : loser ≠ winner) (habove : quota loser < held loser) :
    imbalance owners held' quota + 1 + ((held winner : ℤ) - quota winner).natAbs =
      imbalance owners held quota + ((held winner : ℤ) + 1 - quota winner).natAbs := by
  have hothers : ∑ i ∈ (owners.erase loser).erase winner, ((held' i : ℤ) - quota i).natAbs =
      ∑ i ∈ (owners.erase loser).erase winner, ((held i : ℤ) - quota i).natAbs := by
    refine Finset.sum_congr rfl fun i hi => ?_
    obtain ⟨hiwinner, hi⟩ := Finset.mem_erase.mp hi
    have hi' := h i
    rw [if_neg (Finset.ne_of_mem_erase hi).symm, if_neg hiwinner.symm] at hi'
    rw [show held' i = held i by omega]
  have hl := h loser
  have hw := h winner
  rw [if_pos rfl, if_neg hne.symm] at hl
  rw [if_neg hne, if_pos rfl] at hw
  rw [imbalance_split hloser hwinner hne, imbalance_split hloser hwinner hne, hothers]
  omega

/-- A unit taken from an owner above its quota brings nobody further from the quotas in total. -/
theorem Moves.imbalance_le (h : Moves loser winner held held') (hloser : loser ∈ owners) (hwinner : winner ∈ owners)
    (hne : loser ≠ winner) (habove : quota loser < held loser) :
    Shares.imbalance owners held' quota ≤ Shares.imbalance owners held quota := by
  have hmove := h.imbalance hloser hwinner hne habove
  omega

/-- Given to an owner below its quota it brings both one closer. -/
theorem Moves.imbalance_two (h : Moves loser winner held held') (hloser : loser ∈ owners) (hwinner : winner ∈ owners)
    (hne : loser ≠ winner) (habove : quota loser < held loser) (hbelow : held winner < quota winner) :
    Shares.imbalance owners held' quota + 2 = Shares.imbalance owners held quota := by
  have hmove := h.imbalance hloser hwinner hne habove
  omega

/-! ## Holdings as counts -/

variable {units : Finset ℕ} {owner owner' : ℕ → ι}

/-- How many of the units an owner has. -/
def count (units : Finset ℕ) (owner : ℕ → ι) (i : ι) : ℕ := ∑ u ∈ units, if owner u = i then 1 else 0

theorem sum_count (h : ∀ u ∈ units, owner u ∈ owners) : ∑ i ∈ owners, count units owner i = units.card := by
  unfold count
  rw [Finset.sum_comm, Finset.card_eq_sum_ones]
  refine Finset.sum_congr rfl fun u hu => ?_
  rw [Finset.sum_ite_eq, if_pos (h u hu)]

/-- A unit that gets another owner moves. -/
theorem moves_count {u : ℕ} (hu : u ∈ units) (hothers : ∀ v, v ≠ u → owner' v = owner v) :
    Moves (owner u) (owner' u) (count units owner) (count units owner') := by
  intro i
  have hrest : ∑ v ∈ units.erase u, (if owner' v = i then 1 else 0) = ∑ v ∈ units.erase u, if owner v = i then 1 else 0 := by
    refine Finset.sum_congr rfl fun v hv => ?_
    rw [hothers v (Finset.ne_of_mem_erase hv)]
  unfold count
  rw [← Finset.add_sum_erase units _ hu, ← Finset.add_sum_erase units (fun v => if owner v = i then 1 else 0) hu, hrest]
  omega

theorem count_pos {i : ι} (h : 0 < count units owner i) : ∃ u ∈ units, owner u = i := by
  by_contra hnone
  have hzero : count units owner i = 0 := by
    refine Finset.sum_eq_zero fun u hu => ?_
    rw [if_neg fun hi => hnone ⟨u, hu, hi⟩]
  omega

end Scarab.Shares
