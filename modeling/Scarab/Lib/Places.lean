import Mathlib.Data.List.Perm.Basic

/-! # Things in places

Every thing is in one place at most, and each place has a list of the things in it. What moves a
thing changes the lists of two places. -/

namespace Scarab

variable {π ι : Type*} {held held' : π → List ι} {place place' : ι → Option π} {i : ι} {p q : π}

/-- A thing is in the list of its place once, and in no other list. -/
structure Places (held : π → List ι) (place : ι → Option π) : Prop where
  nodup : ∀ p, (held p).Nodup
  mem : ∀ p i, i ∈ held p ↔ place i = some p

namespace Places

theorem of_perm (h : Places held place) (hheld : ∀ p, (held' p).Perm (held p)) (hplace : ∀ i, place' i = place i) :
    Places held' place' :=
  ⟨fun p => (hheld p).nodup_iff.mpr (h.nodup p), fun p i => by rw [(hheld p).mem_iff, h.mem, hplace]⟩

/-- Two places have nothing in common. -/
theorem eq_of_mem (h : Places held place) (hp : i ∈ held p) (hq : i ∈ held q) : p = q := by
  rw [h.mem] at hp hq
  exact Option.some.inj (hp.symm.trans hq)

/-- A thing leaves its place for nowhere. -/
theorem leave (h : Places held place) (hheld : (held p).Perm (i :: held' p))
    (hother : ∀ q, q ≠ p → (held' q).Perm (held q)) (hplace : place' i = none)
    (hsame : ∀ j, j ≠ i → place' j = place j) : Places held' place' := by
  have hnodup : (i :: held' p).Nodup := hheld.nodup_iff.mp (h.nodup p)
  have hi : place i = some p := (h.mem p i).mp (hheld.mem_iff.mpr List.mem_cons_self)
  refine ⟨fun q => ?_, fun q j => ?_⟩
  · by_cases hq : q = p
    · rw [hq]
      exact (List.nodup_cons.mp hnodup).2
    · exact (hother q hq).nodup_iff.mpr (h.nodup q)
  · by_cases hj : j = i
    · subst hj
      rw [hplace]
      refine iff_of_false (fun hmem => ?_) (by simp)
      by_cases hq : q = p
      · subst hq
        exact (List.nodup_cons.mp hnodup).1 hmem
      · rw [(hother q hq).mem_iff, h.mem, hi] at hmem
        exact hq (Option.some.inj hmem).symm
    · rw [hsame j hj, ← h.mem]
      by_cases hq : q = p
      · rw [hq, hheld.mem_iff, List.mem_cons]
        exact ⟨.inr, fun hmem => hmem.resolve_left hj⟩
      · exact (hother q hq).mem_iff

/-- A thing comes to a place from nowhere. -/
theorem enter (h : Places held place) (hfrom : place i = none) (hheld : (held' p).Perm (i :: held p))
    (hother : ∀ q, q ≠ p → (held' q).Perm (held q)) (hplace : place' i = some p)
    (hsame : ∀ j, j ≠ i → place' j = place j) : Places held' place' := by
  have hnot (q : π) : i ∉ held q := by
    rw [h.mem, hfrom]
    simp
  refine ⟨fun q => ?_, fun q j => ?_⟩
  · by_cases hq : q = p
    · rw [hq, hheld.nodup_iff]
      exact List.nodup_cons.mpr ⟨hnot p, h.nodup p⟩
    · exact (hother q hq).nodup_iff.mpr (h.nodup q)
  · by_cases hj : j = i
    · subst hj
      rw [hplace]
      by_cases hq : q = p
      · subst hq
        exact iff_of_true (hheld.mem_iff.mpr List.mem_cons_self) rfl
      · refine iff_of_false (fun hmem => hnot q ((hother q hq).mem_iff.mp hmem)) fun heq => hq ?_
        exact (Option.some.inj heq).symm
    · rw [hsame j hj, ← h.mem]
      by_cases hq : q = p
      · rw [hq, hheld.mem_iff, List.mem_cons]
        exact ⟨fun hmem => hmem.resolve_left hj, .inr⟩
      · exact (hother q hq).mem_iff

/-- A thing goes from one place to another. -/
theorem move [DecidableEq π] [DecidableEq ι] (h : Places held place) (hne : q ≠ p) (hfrom : (held p).Perm (i :: held' p))
    (hto : (held' q).Perm (i :: held q)) (hother : ∀ r, r ≠ p → r ≠ q → (held' r).Perm (held r))
    (hplace : place' i = some q) (hsame : ∀ j, j ≠ i → place' j = place j) : Places held' place' := by
  have hleft : Places (fun r => if r = p then held' p else held r) fun j => if j = i then none else place j := by
    have hp : (held p).Perm (i :: if p = p then held' p else held p) := by rwa [if_pos rfl]
    have hi : (if i = i then none else place i) = none := if_pos rfl
    exact h.leave hp (fun r hr => by rw [if_neg hr]) hi fun j hj => if_neg hj
  have hi : (if i = i then none else place i) = none := if_pos rfl
  have hq : (held' q).Perm (i :: if q = p then held' p else held q) := by rwa [if_neg hne]
  refine hleft.enter hi hq (fun r hr => ?_) hplace fun j hj => (hsame j hj).trans (if_neg hj).symm
  by_cases hp : r = p
  · rw [if_pos hp, hp]
  · rw [if_neg hp]
    exact hother r hp hr

end Places

/-! ## What a sorted list is cut to -/

/-- If what is to be kept comes first, what is cut off is the rest. -/
theorem take_eq_filter {α : Type*} {keep : α → Bool} {l : List α}
    (h : l.Pairwise fun a b => keep b = true → keep a = true) :
    l.take (l.length - l.countP fun a => !keep a) = l.filter keep := by
  induction l with
  | nil => rfl
  | cons a l ih =>
      obtain ⟨ha, hl⟩ := List.pairwise_cons.mp h
      have hle : (l.countP fun a => !keep a) ≤ l.length := List.countP_le_length
      by_cases hkeep : keep a = true
      · rw [List.countP_cons_of_neg (by simp [hkeep]), List.length_cons, Nat.succ_sub hle, List.take_succ_cons, ih hl,
          List.filter_cons_of_pos hkeep]
      · have hnone (b : α) (hb : b ∈ l) : ¬ keep b = true := fun hkept => hkeep (ha b hb hkept)
        have hall : (l.countP fun a => !keep a) = l.length := by
          rw [List.countP_eq_length]
          intro b hb
          simpa using hnone b hb
        rw [List.countP_cons_of_pos (by simp [hkeep]), hall, List.length_cons, Nat.sub_self, List.take_zero,
          List.filter_cons_of_neg hkeep, List.filter_eq_nil_iff.mpr hnone]

end Scarab
