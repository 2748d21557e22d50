import Mathlib.Data.List.Nodup
import Mathlib.Data.List.Perm.Basic
import Mathlib.Logic.Function.Basic

/-! # Chains of keys and values

Association lists as hash tables keep them in a bucket: found by walking from the head, extended at
the tail, unlinked in the middle. -/

namespace Scarab.Chain

variable {κ β ι : Type*} {chain chain' : List (κ × β)} {k k' : κ} {b : β} {e : κ × β}

/-- Every key has one entry. -/
def Keys (chain : List (κ × β)) : Prop := (chain.map Prod.fst).Nodup

theorem keys_cons : Keys (e :: chain) ↔ (∀ b, (e.1, b) ∉ chain) ∧ Keys chain := by
  simp [Keys]

theorem keys_perm (h : chain.Perm chain') : Keys chain ↔ Keys chain' := (h.map Prod.fst).nodup_iff

/-! ## Walks -/

section

variable [DecidableEq κ]

/-- The value of the first entry of a key. -/
def find : List (κ × β) → κ → Option β
  | [], _ => none
  | e :: chain, k => if e.1 = k then some e.2 else find chain k

/-- The value of a key is replaced, or a new entry goes to the tail. -/
def set : List (κ × β) → κ → β → List (κ × β)
  | [], k, b => [(k, b)]
  | e :: chain, k, b => if e.1 = k then (e.1, b) :: chain else e :: set chain k b

/-- The first entry of a key is unlinked. -/
def unlink : List (κ × β) → κ → List (κ × β)
  | [], _ => []
  | e :: chain, k => if e.1 = k then chain else e :: unlink chain k

theorem find_eq_none : find chain k = none ↔ ∀ b, (k, b) ∉ chain := by
  induction chain with
  | nil => simp [find]
  | cons e chain ih =>
      by_cases h : e.1 = k
      · simp only [find, h, if_true, reduceCtorEq, false_iff, not_forall, not_not]
        exact ⟨e.2, by simp [← h]⟩
      · have hne (b : β) : (k, b) ≠ e := by
          rintro rfl
          exact h rfl
        simp [find, h, ih, hne]

theorem find_eq_some (h : Keys chain) : find chain k = some b ↔ (k, b) ∈ chain := by
  induction chain with
  | nil => simp [find]
  | cons e chain ih =>
      obtain ⟨hnew, hkeys⟩ := keys_cons.mp h
      by_cases hk : e.1 = k
      · subst hk
        have hout : (e.1, b) ∉ chain := hnew b
        simp [find, hout, Prod.ext_iff, eq_comm]
      · have hne : (k, b) ≠ e := by
          rintro rfl
          exact hk rfl
        simp [find, hk, ih hkeys, hne]

/-- What is found does not depend on the order. -/
theorem find_perm (h : chain.Perm chain') (hkeys : Keys chain) : find chain k = find chain' k := by
  ext b
  rw [find_eq_some hkeys, find_eq_some ((keys_perm h).mp hkeys), h.mem_iff]

/-- A new entry goes to the tail. -/
theorem set_of_none (h : find chain k = none) : set chain k b = chain ++ [(k, b)] := by
  induction chain with
  | nil => rfl
  | cons e chain ih =>
      by_cases hk : e.1 = k
      · simp [find, hk] at h
      · simp only [find, hk, if_false] at h
        simp [set, hk, ih h]

theorem map_fst_set {b' : β} (h : find chain k = some b') : (set chain k b).map Prod.fst = chain.map Prod.fst := by
  induction chain with
  | nil => cases h
  | cons e chain ih =>
      by_cases hk : e.1 = k
      · simp [set, hk]
      · simp only [find, hk, if_false] at h
        simp [set, hk, ih h]

theorem find_set : find (set chain k b) k' = if k' = k then some b else find chain k' := by
  induction chain with
  | nil => simp [set, find, eq_comm]
  | cons e chain ih =>
      by_cases hk : e.1 = k
      · by_cases hk' : k' = k
        · simp [set, find, hk, hk']
        · have hne : k ≠ k' := fun h => hk' h.symm
          simp [set, find, hk, hk', hne]
      · by_cases hk' : e.1 = k'
        · have hne : k' ≠ k := fun h => hk (hk'.trans h)
          simp [set, find, hk', hne]
        · simp [set, find, hk, hk', ih]

/-- An entry is replaced where it is. -/
theorem mem_set (h : e ∈ set chain k b) : e.1 = k ∨ e ∈ chain := by
  induction chain with
  | nil =>
      obtain rfl : e = (k, b) := by simpa [set] using h
      exact .inl rfl
  | cons e' chain ih =>
      by_cases hk : e'.1 = k
      · simp only [set, hk, if_true, List.mem_cons] at h
        cases h with
        | inl hhead =>
            rw [hhead]
            exact .inl rfl
        | inr htail => exact .inr (List.mem_cons_of_mem _ htail)
      · simp only [set, hk, if_false, List.mem_cons] at h
        cases h with
        | inl hhead => exact .inr (hhead ▸ List.mem_cons_self)
        | inr htail => exact (ih htail).imp_right (List.mem_cons_of_mem _)

theorem unlink_of_none (h : find chain k = none) : unlink chain k = chain := by
  induction chain with
  | nil => rfl
  | cons e chain ih =>
      by_cases hk : e.1 = k
      · simp [find, hk] at h
      · simp only [find, hk, if_false] at h
        simp [unlink, hk, ih h]

/-- Unlinking takes one entry away. -/
theorem unlink_perm (h : find chain k = some b) : chain.Perm ((k, b) :: unlink chain k) := by
  induction chain with
  | nil => cases h
  | cons e chain ih =>
      by_cases hk : e.1 = k
      · simp only [find, hk, if_true, Option.some.injEq] at h
        simp only [unlink, hk, if_true]
        rw [← hk, ← h]
      · simp only [find, hk, if_false] at h
        simp only [unlink, hk, if_false]
        exact ((ih h).cons e).trans (.swap _ _ _)

theorem find_unlink (hkeys : Keys chain) : find (unlink chain k) k' = if k' = k then none else find chain k' := by
  cases h : find chain k with
  | none =>
      rw [unlink_of_none h]
      split
      · next hk => rw [hk, h]
      · rfl
  | some b =>
      have hperm := unlink_perm h
      have hrest := keys_cons.mp ((keys_perm hperm).mp hkeys)
      split
      · next hk =>
        rw [hk]
        exact find_eq_none.mpr hrest.1
      · next hk =>
        have hne : k ≠ k' := fun h => hk h.symm
        rw [find_perm hperm hkeys]
        simp [find, hne]

end

/-! ## Rows of chains -/

/-- One chain of a row grows. -/
theorem flatMap_grow {row row' : ι → List β} {is : List ι} {i : ι} {more : List β} (his : is.Nodup) (hi : i ∈ is)
    (hgrow : (row' i).Perm (more ++ row i)) (hother : ∀ j ≠ i, row' j = row j) :
    (is.flatMap row').Perm (more ++ is.flatMap row) := by
  induction is with
  | nil => cases hi
  | cons j is ih =>
      obtain ⟨hj, his⟩ := List.nodup_cons.mp his
      rw [List.flatMap_cons, List.flatMap_cons]
      by_cases hij : j = i
      · subst hij
        have hsame : is.flatMap row' = is.flatMap row :=
          List.flatMap_congr fun i' hi' => hother i' fun h => hj (h ▸ hi')
        rw [hsame, ← List.append_assoc]
        exact hgrow.append_right _
      · have hrest := ih his ((List.mem_cons.mp hi).resolve_left fun h => hij h.symm)
        rw [hother j hij]
        refine (hrest.append_left _).trans ?_
        rw [← List.append_assoc, ← List.append_assoc]
        exact List.perm_append_comm.append_right _

end Scarab.Chain
