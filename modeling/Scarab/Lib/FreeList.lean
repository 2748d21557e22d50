import Mathlib.Data.List.Range
import Scarab.Lib.Linked

/-! # A free list over a growing pool

The elements of a pool are numbered in the order in which they were created. Each of them is
either on the free list or in use. -/

namespace Scarab.Linked

variable {next next' : ℕ → Option ℕ} {head : Option ℕ} {created p : ℕ} {free used : List ℕ}

/-- The free list is linked, and with the elements in use it is the whole pool. -/
structure FreeList (next : ℕ → Option ℕ) (head : Option ℕ) (created : ℕ) (free used : List ℕ) : Prop where
  chain : Chain next head free
  perm : (free ++ used).Perm (List.range created)

theorem FreeList.nil : FreeList next none 0 [] [] := ⟨rfl, .refl _⟩

theorem FreeList.nodup (h : FreeList next head created free used) : (free ++ used).Nodup :=
  h.perm.nodup_iff.mpr List.nodup_range

theorem FreeList.used_nodup (h : FreeList next head created free used) : used.Nodup :=
  (List.nodup_append.mp h.nodup).2.1

theorem FreeList.mem_iff (h : FreeList next head created free used) : p ∈ free ∨ p ∈ used ↔ p < created := by
  rw [← List.mem_append, h.perm.mem_iff, List.mem_range]

theorem FreeList.not_used (h : FreeList next head created free used) (hp : p ∈ free) : p ∉ used :=
  fun hused => (List.nodup_append.mp h.nodup).2.2 p hp p hused rfl

theorem FreeList.length (h : FreeList next head created free used) :
    free.length + used.length = created := by
  simpa using h.perm.length_eq

theorem FreeList.perm_used {used' : List ℕ} (h : FreeList next head created free used) (hused : used.Perm used') :
    FreeList next head created free used' :=
  ⟨h.chain, (hused.append_left free).symm.trans h.perm⟩

/-- The successors of elements in use do not matter. -/
theorem FreeList.congr (h : FreeList next head created free used) (hsame : ∀ q, q ∉ used → next' q = next q) :
    FreeList next' head created free used :=
  ⟨h.chain.congr fun q hq => hsame q (h.not_used hq), h.perm⟩

/-- The head comes into use. -/
theorem FreeList.take (h : FreeList next (some p) created free used) :
    p ∉ used ∧ ∃ free', free = p :: free' ∧ FreeList next (next p) created free' (p :: used) := by
  cases free with
  | nil => cases h.chain
  | cons q free =>
      obtain ⟨hq, hrest⟩ := h.chain
      cases hq
      refine ⟨h.not_used (List.mem_cons_self ..), free, rfl, hrest, ?_⟩
      exact List.perm_middle.trans h.perm

/-- An element goes back to the front. -/
theorem FreeList.give (h : FreeList next head created free used) (hp : p ∈ used) :
    FreeList (Function.update next p head) (some p) created (p :: free) (used.erase p) := by
  have hfree : p ∉ free := fun hmem => h.not_used hmem hp
  refine ⟨⟨rfl, ?_⟩, ?_⟩
  · rw [Function.update_self]
    exact h.chain.update hfree head
  · have hback : used.Perm (p :: used.erase p) := List.perm_cons_erase hp
    exact (List.perm_middle.symm.trans (hback.append_left free).symm).trans h.perm

/-- New elements in a row come in front. -/
theorem FreeList.grow {n : ℕ} (h : FreeList next head created free used)
    (hold : ∀ q < created, next' q = next q)
    (hrow : ∀ q, created ≤ q → q + 1 < created + (n + 1) → next' q = some (q + 1))
    (hlast : next' (created + n) = head) :
    FreeList next' (some created) (created + (n + 1)) (List.range' created (n + 1) ++ free) used := by
  refine ⟨Chain.range' created n hrow ?_, ?_⟩
  · rw [hlast]
    exact h.chain.congr fun q hq => hold q (h.mem_iff.mp (.inl hq))
  · have hrange : List.range (created + (n + 1)) = List.range created ++ List.range' created (n + 1) := by
      rw [List.range_eq_range', List.range_eq_range', ← List.range'_append_1 (s := 0) (m := created), Nat.zero_add]
    rw [List.append_assoc, hrange]
    exact (h.perm.append_left _).trans List.perm_append_comm

end Scarab.Linked
