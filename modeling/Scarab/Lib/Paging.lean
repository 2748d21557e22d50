import Mathlib.Data.Finset.Card
import Mathlib.Data.Finset.Max

/-! # Offline paging

The furthest-in-future policy: a set of at most `k` pages is driven by a known sequence of accesses, and
where a page has to go, it is one whose next access is as late as possible. -/

namespace Scarab.Paging

variable {κ : Type*} [DecidableEq κ]

/-- The number of hits of the policy from some pages over some accesses. A page that is not accessed again has
the length of the sequence as the time of its next access. Ties are broken in any way. -/
inductive Belady (k : ℕ) : Finset κ → List κ → ℕ → Prop where
  | nil (pages : Finset κ) : Belady k pages [] 0
  | hit {pages : Finset κ} {x : κ} {rest : List κ} {n : ℕ} (hmem : x ∈ pages) (h : Belady k pages rest n) :
      Belady k pages (x :: rest) (n + 1)
  | fill {pages : Finset κ} {x : κ} {rest : List κ} {n : ℕ} (hmem : x ∉ pages) (hcard : pages.card < k)
      (h : Belady k (insert x pages) rest n) : Belady k pages (x :: rest) n
  | evict {pages : Finset κ} {x z : κ} {rest : List κ} {n : ℕ} (hmem : x ∉ pages) (hcard : pages.card = k)
      (hz : z ∈ pages) (hlatest : ∀ y ∈ pages, rest.idxOf y ≤ rest.idxOf z)
      (h : Belady k (insert x (pages.erase z)) rest n) : Belady k pages (x :: rest) n

variable {k : ℕ} {pages : Finset κ}

/-- The policy always goes through. -/
theorem Belady.exists (hk : 0 < k) (hcard : pages.card ≤ k) (accesses : List κ) : ∃ n, Belady k pages accesses n := by
  induction accesses generalizing pages with
  | nil => exact ⟨0, .nil pages⟩
  | cons x rest ih =>
      by_cases hmem : x ∈ pages
      · obtain ⟨n, h⟩ := ih hcard
        exact ⟨n + 1, .hit hmem h⟩
      · rcases Nat.lt_or_eq_of_le hcard with hlt | heq
        · have hcard' : (insert x pages).card ≤ k := by
            rw [Finset.card_insert_of_notMem hmem]
            exact hlt
          obtain ⟨n, h⟩ := ih hcard'
          exact ⟨n, .fill hmem hlt h⟩
        · have hne : pages.Nonempty := Finset.card_pos.mp (heq ▸ hk)
          obtain ⟨z, hz, hlatest⟩ := pages.exists_max_image rest.idxOf hne
          have hcard' : (insert x (pages.erase z)).card ≤ k := by
            rw [Finset.card_insert_of_notMem fun h => hmem (Finset.mem_of_mem_erase h), Finset.card_erase_of_mem hz, heq]
            omega
          obtain ⟨n, h⟩ := ih hcard'
          exact ⟨n, .evict hmem heq hz hlatest h⟩

/-- Over accesses that are all different only pages of the start are hit. -/
theorem Belady.le_countP {accesses : List κ} {n : ℕ} (h : Belady k pages accesses n) (hnodup : accesses.Nodup) :
    n ≤ accesses.countP (· ∈ pages) := by
  induction h with
  | nil pages => exact Nat.le_refl 0
  | hit hmem _ ih =>
      simp only [List.countP_cons, hmem, decide_true, ↓reduceIte]
      exact Nat.succ_le_succ (ih (List.nodup_cons.mp hnodup).2)
  | fill hmem _ _ ih =>
      obtain ⟨hfresh, hnodup⟩ := List.nodup_cons.mp hnodup
      refine (ih hnodup).trans ?_
      simp only [List.countP_cons, hmem, decide_false, Bool.false_eq_true, ↓reduceIte, Nat.add_zero]
      refine List.countP_mono_left fun y hy hyp => decide_eq_true ?_
      exact (Finset.mem_insert.mp (of_decide_eq_true hyp)).resolve_left fun heq => hfresh (heq ▸ hy)
  | evict hmem _ _ _ _ ih =>
      obtain ⟨hfresh, hnodup⟩ := List.nodup_cons.mp hnodup
      refine (ih hnodup).trans ?_
      simp only [List.countP_cons, hmem, decide_false, Bool.false_eq_true, ↓reduceIte, Nat.add_zero]
      refine List.countP_mono_left fun y hy hyp => decide_eq_true ?_
      have hold := (Finset.mem_insert.mp (of_decide_eq_true hyp)).resolve_left fun heq => hfresh (heq ▸ hy)
      exact Finset.mem_of_mem_erase hold

/-! ## Lines that are kept for sure -/

/-- What is known of the pages of the policy without the future: they contain the sure ones, the others come from the
unsure ones, and among these the policy has those that are accessed first. -/
structure Tracks (k : ℕ) (sure unsure pages : Finset κ) (future : List κ) : Prop where
  sure_subset : sure ⊆ pages
  subset : pages ⊆ sure ∪ unsure
  card : unsure.Nonempty → pages.card = k
  card_le : sure.card ≤ k
  disjoint : Disjoint sure unsure
  earlier : ∀ y ∈ pages, y ∈ unsure → ∀ z ∈ unsure, z ∉ pages → future.idxOf y ≤ future.idxOf z

variable {sure unsure : Finset κ} {x y z : κ} {rest : List κ}

theorem idxOf_cons_le_iff (hy : y ≠ x) (hz : z ≠ x) :
    (x :: rest).idxOf y ≤ (x :: rest).idxOf z ↔ rest.idxOf y ≤ rest.idxOf z := by
  rw [List.idxOf_cons_ne _ hy.symm, List.idxOf_cons_ne _ hz.symm]
  omega

/-- Without unsure pages everything is known. -/
theorem Tracks.eq_of_empty (h : Tracks k sure ∅ pages rest) : pages = sure := by
  refine Finset.Subset.antisymm (fun y hy => ?_) h.sure_subset
  simpa using h.subset hy

theorem Tracks.start : Tracks k (∅ : Finset κ) ∅ ∅ rest :=
  ⟨Finset.Subset.refl _, Finset.empty_subset _, fun h => absurd h Finset.not_nonempty_empty, Nat.zero_le _,
    Finset.disjoint_empty_left _, fun _ h => absurd h (Finset.notMem_empty _)⟩

/-- An access to a sure page. -/
theorem Tracks.hit_sure (h : Tracks k sure unsure pages (x :: rest)) (hx : x ∈ sure) :
    x ∈ pages ∧ Tracks k sure unsure pages rest := by
  refine ⟨h.sure_subset hx, h.sure_subset, h.subset, h.card, h.card_le, h.disjoint, fun y hy hyu z hz hzp => ?_⟩
  have hne : ∀ w ∈ unsure, w ≠ x := by
    rintro w hw rfl
    exact Finset.disjoint_left.mp h.disjoint hx hw
  exact (idxOf_cons_le_iff (hne y hyu) (hne z hz)).mp (h.earlier y hy hyu z hz hzp)

/-- An access to an unsure page, as long as not all pages are sure: the policy has it, and it becomes sure. -/
theorem Tracks.hit_unsure (h : Tracks k sure unsure pages (x :: rest)) (hx : x ∈ unsure) (hlt : sure.card < k) :
    x ∈ pages ∧ Tracks k (insert x sure) (if sure.card + 1 = k then ∅ else unsure.erase x) pages rest := by
  have hnot : x ∉ sure := fun hs => Finset.disjoint_left.mp h.disjoint hs hx
  have hcard := h.card ⟨x, hx⟩
  have hmem : x ∈ pages := by
    by_contra hout
    -- a page that is accessed now comes before all others, so the policy would have sure pages only
    have hsub : pages ⊆ sure := by
      intro y hy
      rcases Finset.mem_union.mp (h.subset hy) with hs | hu
      · exact hs
      · have hle := h.earlier y hy hu x hx hout
        rw [List.idxOf_cons_self, Nat.le_zero, List.idxOf_cons] at hle
        by_cases hxy : x = y
        · exact absurd (hxy ▸ hy) hout
        · rw [cond_eq_ite, if_neg (by simpa using hxy)] at hle
          omega
    have hle := Finset.card_le_card hsub
    omega
  have hsure : insert x sure ⊆ pages := Finset.insert_subset hmem h.sure_subset
  have hcard' : (insert x sure).card = sure.card + 1 := Finset.card_insert_of_notMem hnot
  refine ⟨hmem, ?_⟩
  by_cases hfull : sure.card + 1 = k
  · rw [if_pos hfull]
    have heq : insert x sure = pages := Finset.eq_of_subset_of_card_le hsure (by omega)
    exact ⟨hsure, by rw [heq, Finset.union_empty], fun hne => absurd hne Finset.not_nonempty_empty, by omega,
      Finset.disjoint_empty_right _, fun _ _ hu => absurd hu (Finset.notMem_empty _)⟩
  · rw [if_neg hfull]
    refine ⟨hsure, fun y hy => ?_, fun _ => hcard, by omega, ?_, fun y hy hyu z hz hzp => ?_⟩
    · rcases Finset.mem_union.mp (h.subset hy) with hs | hu
      · exact Finset.mem_union_left _ (Finset.mem_insert_of_mem hs)
      · by_cases hyx : y = x
        · rw [hyx]
          exact Finset.mem_union_left _ (Finset.mem_insert_self _ _)
        · exact Finset.mem_union_right _ (Finset.mem_erase.mpr ⟨hyx, hu⟩)
    · rw [Finset.disjoint_insert_left]
      exact ⟨Finset.notMem_erase _ _, h.disjoint.mono_right (Finset.erase_subset _ _)⟩
    · obtain ⟨hyx, hyu⟩ := Finset.mem_erase.mp hyu
      obtain ⟨hzx, hz⟩ := Finset.mem_erase.mp hz
      exact (idxOf_cons_le_iff hyx hzx).mp (h.earlier y hy hyu z hz hzp)

/-- A new page while there is room. -/
theorem Tracks.fill (h : Tracks k sure ∅ pages (x :: rest)) (hx : x ∉ sure) (hlt : sure.card < k) :
    x ∉ pages ∧ pages.card < k ∧ Tracks k (insert x sure) ∅ (insert x pages) rest := by
  obtain rfl := h.eq_of_empty
  refine ⟨hx, hlt, Finset.Subset.refl _, by rw [Finset.union_empty], fun hne => absurd hne Finset.not_nonempty_empty, ?_,
    Finset.disjoint_empty_right _, fun _ _ hu => absurd hu (Finset.notMem_empty _)⟩
  rw [Finset.card_insert_of_notMem hx]
  exact hlt

/-- A new page when one has to go, which may be any other one if at most one page was sure, or if all were. -/
theorem Tracks.evict (h : Tracks k sure unsure pages (x :: rest)) (hx : x ∉ sure) (hxu : x ∉ unsure) (hk : 0 < k)
    (hcard : pages.card = k) (hsure : unsure = ∅ ∨ sure.card ≤ 1) (hz : z ∈ pages)
    (hlatest : ∀ y ∈ pages, rest.idxOf y ≤ rest.idxOf z) :
    Tracks k {x} (unsure ∪ sure) (insert x (pages.erase z)) rest := by
  have hxp : x ∉ pages := fun hp => (Finset.mem_union.mp (h.subset hp)).elim hx hxu
  have hne : ∀ w ∈ unsure ∪ sure, w ≠ x := by
    rintro w hw rfl
    exact (Finset.mem_union.mp hw).elim hxu hx
  refine ⟨Finset.singleton_subset_iff.mpr (Finset.mem_insert_self _ _), fun y hy => ?_, fun _ => ?_, by rw [Finset.card_singleton]; exact hk, ?_,
    fun y hy hyu w hw hwp => ?_⟩
  · rcases Finset.mem_insert.mp hy with rfl | hy
    · exact Finset.mem_union_left _ (Finset.mem_singleton_self _)
    · refine Finset.mem_union_right _ ?_
      rw [Finset.union_comm]
      exact h.subset (Finset.mem_of_mem_erase hy)
  · rw [Finset.card_insert_of_notMem fun hp => hxp (Finset.mem_of_mem_erase hp), Finset.card_erase_of_mem hz, hcard]
    omega
  · rw [Finset.disjoint_singleton_left]
    exact fun hmem => hne x hmem rfl
  · have hyp : y ∈ pages ∧ y ≠ z := by
      rcases Finset.mem_insert.mp hy with rfl | hy
      · exact absurd rfl (hne y hyu)
      · exact ⟨Finset.mem_of_mem_erase hy, Finset.ne_of_mem_erase hy⟩
    by_cases hwz : w = z
    · rw [hwz]
      exact hlatest y hyp.1
    · -- the page `w` was not there before, so it is an unsure one
      have hwp' : w ∉ pages := fun hp => hwp (Finset.mem_insert_of_mem (Finset.mem_erase.mpr ⟨hwz, hp⟩))
      have hwu : w ∈ unsure := (Finset.mem_union.mp hw).resolve_right fun hs => hwp' (h.sure_subset hs)
      have hold : ∀ v ∈ pages, v ∈ unsure → rest.idxOf v ≤ rest.idxOf w := fun v hv hvu =>
        (idxOf_cons_le_iff (hne v (Finset.mem_union_left _ hvu)) (hne w hw)).mp (h.earlier v hv hvu w hwu hwp')
      rcases Finset.mem_union.mp hyu with hu | hs
      · exact hold y hyp.1 hu
      · -- the sure page goes no later than `z`, which is then an unsure one
        have hone := hsure.resolve_left fun hempty => by
          rw [hempty] at hwu
          exact Finset.notMem_empty _ hwu
        have hzu : z ∈ unsure := by
          refine (Finset.mem_union.mp (h.subset hz)).resolve_left fun hzs => hyp.2 ?_
          exact Finset.card_le_one.mp hone y hs z hzs
        exact (hlatest y hyp.1).trans (hold z hz hzu)

end Scarab.Paging
