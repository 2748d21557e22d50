import Mathlib.Data.List.Basic

/-! # Rows of a table

A row is a list of entries, and an operation on it touches one position. The rules
split the row at that position, so that what is left is about two lists and an entry. -/

namespace Scarab.Row

variable {α : Type*}

/-- A search splits the row at the first entry it accepts. -/
theorem split_of_findIdx? {row : List α} {q : α → Bool} {i : ℕ} (h : row.findIdx? q = some i) :
    ∃ before x after, row = before ++ x :: after ∧ before.length = i ∧ q x = true ∧
      ∀ y ∈ before, q y = false := by
  induction row generalizing i with
  | nil => simp at h
  | cons y row ih =>
      rw [List.findIdx?_cons] at h
      cases hy : q y with
      | true =>
          obtain rfl : 0 = i := by simpa [hy] using h
          exact ⟨[], y, row, rfl, rfl, hy, by simp⟩
      | false =>
          obtain ⟨j, hj, rfl⟩ : ∃ j, row.findIdx? q = some j ∧ j + 1 = i := by simpa [hy] using h
          obtain ⟨before, x, after, rfl, rfl, hx, hbefore⟩ := ih hj
          exact ⟨y :: before, x, after, rfl, rfl, hx, by simpa [hy] using hbefore⟩

variable (before after : List α) (x : α)

@[simp] theorem modify_middle (f : α → α) :
    (before ++ x :: after).modify before.length f = before ++ f x :: after := by
  induction before with
  | nil => rfl
  | cons z before ih => simp [ih]

/-- The first entry that a search accepts. -/
theorem findIdx?_middle {q : α → Bool} (hbefore : ∀ y ∈ before, q y = false) (hx : q x = true) :
    (before ++ x :: after).findIdx? q = some before.length := by
  induction before with
  | nil => simp [List.findIdx?_cons, hx]
  | cons z before ih =>
      have hrest := ih fun y hy => hbefore y (List.mem_cons_of_mem z hy)
      rw [List.cons_append, List.findIdx?_cons, hbefore z (List.mem_cons_self ..), hrest]
      rfl

end Scarab.Row
