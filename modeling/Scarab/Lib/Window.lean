import Mathlib.Logic.Function.Basic
import Scarab.Lib.Cyclic

/-! # A stack on a ring

The newest entries of a stack, kept on a ring of `n` slots: the entry at position `pos` is in slot
`pos % n`. -/

namespace Scarab

universe u

variable {α : Type u} {n pos : ℕ}

/-- The entries below a position are read from the ring, the newest first. -/
def Window (read : ℕ → α) (n : ℕ) : ℕ → List α → Prop
  | _, [] => True
  | pos, a :: as => 0 < pos ∧ read ((pos - 1) % n) = a ∧ Window read n (pos - 1) as

namespace Window

variable {read read' : ℕ → α} {a : α} {as : List α}

theorem length_le (h : Window read n pos as) : as.length ≤ pos := by
  induction as generalizing pos with
  | nil => exact Nat.zero_le _
  | cons a as ih =>
      obtain ⟨hpos, _, hrest⟩ := h
      have hle := ih hrest
      rw [List.length_cons]
      omega

theorem tail (h : Window read n pos as) (hne : as ≠ []) : Window read n (pos - 1) as.tail := by
  cases as with
  | nil => exact (hne rfl).elim
  | cons a as => exact h.2.2

theorem head (h : Window read n pos as) (hne : as ≠ []) : as.head? = some (read ((pos - 1) % n)) := by
  cases as with
  | nil => exact (hne rfl).elim
  | cons a as => rw [h.2.1, List.head?_cons]

theorem take (h : Window read n pos as) (m : ℕ) : Window read n pos (as.take m) := by
  induction as generalizing pos m with
  | nil =>
      rw [List.take_nil]
      trivial
  | cons a as ih =>
      cases m with
      | zero => trivial
      | succ m => exact ⟨h.1, h.2.1, ih h.2.2 m⟩

theorem congr (hn : 0 < n) (hread : ∀ slot < n, read slot = read' slot) (h : Window read n pos as) :
    Window read' n pos as := by
  induction as generalizing pos with
  | nil => trivial
  | cons a as ih =>
      refine ⟨h.1, ?_, ih h.2.2⟩
      rw [← hread _ (Nat.mod_lt _ hn)]
      exact h.2.1

/-- A slot ahead of the window that has not come round to it. -/
theorem update {q : ℕ} (h : Window read n pos as) (hle : pos ≤ q) (hn : q - pos + as.length < n) (b : α) :
    Window (Function.update read (q % n) b) n pos as := by
  induction as generalizing pos with
  | nil => trivial
  | cons a as ih =>
      obtain ⟨hpos, hread, hrest⟩ := h
      rw [List.length_cons] at hn
      refine ⟨hpos, ?_, ih hrest (by omega) (by omega)⟩
      rw [Function.update_of_ne (Cyclic.mod_ne_of_lt (by omega) (by omega))]
      exact hread

/-- A push drops the oldest entry of a full ring. -/
theorem push (h : Window read n pos as) (hn : 0 < n) (b : α) :
    Window (Function.update read (pos % n) b) n (pos + 1) ((b :: as).take n) := by
  cases n with
  | zero => omega
  | succ m =>
      rw [List.take_succ_cons]
      refine ⟨Nat.succ_pos pos, ?_, ?_⟩
      · rw [Nat.add_sub_cancel, Function.update_self]
      · rw [Nat.add_sub_cancel]
        have hlen := List.length_take_le m as
        exact (h.take m).update (Nat.le_refl pos) (by omega) b

end Window

end Scarab
