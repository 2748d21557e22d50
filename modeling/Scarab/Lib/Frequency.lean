import Mathlib.Data.List.Basic
import Mathlib.Data.List.Perm.Basic
import Mathlib.Data.List.TakeWhile

/-! # Lists by rank

A list of entries whose ranks do not grow. An entry whose rank has grown is placed behind the entries
that still rank at least as high. -/

namespace Scarab.Frequency

variable {α : Type*} (rank : α → ℕ)

/-- The ranks do not grow along the list. -/
def Ordered (l : List α) : Prop := l.Pairwise fun x y => rank y ≤ rank x

/-- Put an entry behind those that rank at least as high. -/
def place (x : α) (l : List α) : List α :=
  l.takeWhile (fun y => decide (rank x ≤ rank y)) ++ x :: l.dropWhile (fun y => decide (rank x ≤ rank y))

variable {rank} {x y : α} {l before after : List α}

theorem perm_place (x : α) (l : List α) : (place rank x l).Perm (x :: l) := by
  rw [place]
  refine List.perm_middle.trans ?_
  rw [List.takeWhile_append_dropWhile]

theorem Ordered.place (h : Ordered rank l) : Ordered rank (place rank x l) := by
  induction l with
  | nil => simp [Frequency.place, Ordered]
  | cons y l ih =>
      obtain ⟨hy, hl⟩ := List.pairwise_cons.mp h
      by_cases hrank : rank x ≤ rank y
      · have hplace : Frequency.place rank x (y :: l) = y :: Frequency.place rank x l := by
          simp [Frequency.place, hrank]
        rw [hplace]
        refine List.pairwise_cons.mpr ⟨?_, ih hl⟩
        intro z hz
        rcases List.mem_cons.mp ((perm_place x l).subset hz) with rfl | hmem
        · exact hrank
        · exact hy z hmem
      · have hplace : Frequency.place rank x (y :: l) = x :: y :: l := by
          simp [Frequency.place, hrank]
        rw [hplace]
        refine List.pairwise_cons.mpr ⟨?_, h⟩
        intro z hz
        have hlow : rank z ≤ rank y := by
          rcases List.mem_cons.mp hz with rfl | hmem
          · exact Nat.le_refl _
          · exact hy z hmem
        omega

/-- Entries that rank lower at the end of the list stay behind. -/
theorem place_append (h : ∀ y ∈ after, rank y < rank x) : place rank x (before ++ after) = place rank x before ++ after := by
  induction before with
  | nil =>
      cases after with
      | nil => rfl
      | cons y after =>
          have hlow : ¬ rank x ≤ rank y := Nat.not_le.mpr (h y (List.mem_cons_self ..))
          simp [place, hlow]
  | cons z before ih =>
      by_cases hrank : rank x ≤ rank z
      · have hhead : ∀ l : List α, place rank x (z :: l) = z :: place rank x l := fun l => by simp [place, hrank]
        rw [List.cons_append, hhead, hhead, ih, List.cons_append]
      · simp [place, hrank]

/-- An entry that ranks at most as high as the last one comes last. -/
theorem place_last (h : ∀ y ∈ before, rank x ≤ rank y) : place rank x before = before ++ [x] := by
  have htake : before.takeWhile (fun y => decide (rank x ≤ rank y)) = before :=
    List.takeWhile_eq_self_iff.mpr fun y hy => by simpa using h y hy
  have hdrop : before.dropWhile (fun y => decide (rank x ≤ rank y)) = [] :=
    List.dropWhile_eq_nil_iff.mpr fun y hy => by simpa using h y hy
  rw [place, htake, hdrop]

theorem Ordered.le_last (h : Ordered rank (before ++ [y])) : ∀ z ∈ before ++ [y], rank y ≤ rank z := by
  intro z hz
  rcases List.mem_append.mp hz with hmem | hlast
  · exact (List.pairwise_append.mp h).2.2 z hmem y (List.mem_singleton_self y)
  · rw [List.mem_singleton.mp hlast]

end Scarab.Frequency
