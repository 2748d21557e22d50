import Mathlib.Order.Basic
import Mathlib.Data.Nat.Notation

/-! # First position of a smallest key

The loop that replacement policies share: walk an array, keeping the best position
and its key, and take a later position only when its key is strictly smaller. -/

namespace Scarab.Argmin

variable {α : Type*} (key : α → ℕ)

/-- Continue the scan at position `i` with the best position and key so far. -/
def scan : List α → (i best least : ℕ) → ℕ
  | [], _, best, _ => best
  | x :: xs, i, best, least =>
      if key x < least then scan xs (i + 1) i (key x) else scan xs (i + 1) best least

/-- The first position of a smallest key; position 0 of an empty list. -/
def first : List α → ℕ
  | [] => 0
  | x :: xs => scan key xs 1 0 (key x)

/-- `x` is the first entry of smallest key in `before ++ x :: after`. -/
structure Leftmost (before : List α) (x : α) (after : List α) : Prop where
  before_gt : ∀ y ∈ before, key x < key y
  after_ge : ∀ y ∈ after, key x ≤ key y

/-- A scan keeps the best position it was given, or it ends at the first entry of
smallest key. -/
theorem scan_spec (xs : List α) (i best least : ℕ) :
    (scan key xs i best least = best ∧ ∀ x ∈ xs, least ≤ key x) ∨
      ∃ before x after, xs = before ++ x :: after ∧
        scan key xs i best least = i + before.length ∧ key x < least ∧
          Leftmost key before x after := by
  induction xs generalizing i best least with
  | nil => exact .inl ⟨rfl, by simp⟩
  | cons x xs ih =>
      by_cases hx : key x < least
      · right
        rw [scan, if_pos hx]
        rcases ih (i + 1) i (key x) with ⟨hscan, hge⟩ | ⟨before, z, after, rfl, hscan, hz, hleft⟩
        · exact ⟨[], x, xs, rfl, hscan, hx, by simp, hge⟩
        · refine ⟨x :: before, z, after, rfl, ?_, Nat.lt_trans hz hx, ?_, hleft.after_ge⟩
          · rw [hscan, List.length_cons]
            omega
          · intro y hy
            rcases List.mem_cons.mp hy with rfl | hy
            · exact hz
            · exact hleft.before_gt y hy
      · rw [scan, if_neg hx]
        rcases ih (i + 1) best least with ⟨hscan, hge⟩ | ⟨before, z, after, rfl, hscan, hz, hleft⟩
        · left
          refine ⟨hscan, ?_⟩
          intro y hy
          rcases List.mem_cons.mp hy with rfl | hy
          · exact Nat.le_of_not_lt hx
          · exact hge y hy
        · right
          refine ⟨x :: before, z, after, rfl, ?_, hz, ?_, hleft.after_ge⟩
          · rw [hscan, List.length_cons]
            omega
          · intro y hy
            rcases List.mem_cons.mp hy with rfl | hy
            · exact Nat.lt_of_lt_of_le hz (Nat.le_of_not_lt hx)
            · exact hleft.before_gt y hy

theorem first_spec {xs : List α} (h : xs ≠ []) :
    ∃ before x after, xs = before ++ x :: after ∧ first key xs = before.length ∧
      Leftmost key before x after := by
  cases xs with
  | nil => exact absurd rfl h
  | cons x xs =>
      rw [first]
      rcases scan_spec key xs 1 0 (key x) with
        ⟨hscan, hge⟩ | ⟨before, z, after, rfl, hscan, hz, hleft⟩
      · exact ⟨[], x, xs, rfl, hscan, by simp, hge⟩
      · refine ⟨x :: before, z, after, rfl, ?_, ?_, hleft.after_ge⟩
        · rw [hscan, List.length_cons, Nat.add_comm]
        · intro y hy
          rcases List.mem_cons.mp hy with rfl | hy
          · exact hz
          · exact hleft.before_gt y hy

/-! ## Keys of a preorder -/

section

variable {D : Type*} [Preorder D] [DecidableLT D] (rate : α → D)

/-- Keep the best entry so far with its key, or take the next one. -/
def keep (best : α × D) (x : α) : α × D := if rate x < best.2 then (x, rate x) else best

/-- The best entry of a list is the one at the start, or the first one that no other is below. -/
theorem foldl_keep_spec (xs : List α) (best : α × D) :
    (xs.foldl (keep rate) best = best ∧ ∀ x ∈ xs, ¬ rate x < best.2) ∨
      ∃ before x after, xs = before ++ x :: after ∧ xs.foldl (keep rate) best = (x, rate x) ∧ rate x < best.2 ∧
        (∀ y ∈ before, ¬ rate y ≤ rate x) ∧ ∀ y ∈ after, ¬ rate y < rate x := by
  induction xs generalizing best with
  | nil => exact .inl ⟨rfl, by simp⟩
  | cons x xs ih =>
      rw [List.foldl_cons, keep]
      by_cases hx : rate x < best.2
      · right
        rw [if_pos hx]
        rcases ih (x, rate x) with ⟨hfold, hnone⟩ | ⟨before, z, after, rfl, hfold, hz, hbefore, hafter⟩
        · exact ⟨[], x, xs, rfl, hfold, hx, by simp, hnone⟩
        · refine ⟨x :: before, z, after, rfl, hfold, lt_trans hz hx, ?_, hafter⟩
          intro y hy
          rcases List.mem_cons.mp hy with rfl | hy
          · exact not_le_of_gt hz
          · exact hbefore y hy
      · rw [if_neg hx]
        rcases ih best with ⟨hfold, hnone⟩ | ⟨before, z, after, rfl, hfold, hz, hbefore, hafter⟩
        · refine .inl ⟨hfold, fun y hy => ?_⟩
          rcases List.mem_cons.mp hy with rfl | hy
          · exact hx
          · exact hnone y hy
        · refine .inr ⟨x :: before, z, after, rfl, hfold, hz, ?_, hafter⟩
          intro y hy
          rcases List.mem_cons.mp hy with rfl | hy
          · exact fun hle => hx (lt_of_le_of_lt hle hz)
          · exact hbefore y hy

end

end Scarab.Argmin
