import Mathlib.Algebra.Order.Field.Rat
import Mathlib.Tactic.NormNum
import Mathlib.Tactic.Positivity
import Scarab.Memory.CachePart.Search

/-! # Correctness of the search for a partition

Both searches end, and what they leave gives every core a way and gives out all ways. -/

namespace Scarab.Memory

open Loop

variable {D : Type} [Double D] {cores assoc : ℕ} {metric : (Fin cores → ℕ) → D} {p q : ℕ → ℕ}

/-- A partition that gives every core a way and gives out all ways. -/
structure IsPartition (cores assoc : ℕ) (p : ℕ → ℕ) : Prop where
  pos : ∀ i < cores, 1 ≤ p i
  total : ∑ i ∈ Finset.range cores, p i = assoc

/-- The ways given out after more of them for one core. -/
theorem sum_update (p : ℕ → ℕ) {i : ℕ} (n : ℕ) (hi : i < cores) :
    ∑ k ∈ Finset.range cores, Function.update p i n k + p i = ∑ k ∈ Finset.range cores, p k + n := by
  have hmem := Finset.mem_range.mpr hi
  have hrest : ∑ k ∈ (Finset.range cores).erase i, Function.update p i n k = ∑ k ∈ (Finset.range cores).erase i, p k :=
    Finset.sum_congr rfl fun k hk => Function.update_of_ne (Finset.ne_of_mem_erase hk) _ _
  rw [← Finset.add_sum_erase _ _ hmem, ← Finset.add_sum_erase _ p hmem, hrest, Function.update_self]
  omega

/-- One core has its own ways and at least one is left for each of the others. -/
theorem le_sum (p : ℕ → ℕ) {i : ℕ} (hi : i < cores) : p i ≤ ∑ k ∈ Finset.range cores, p k :=
  Finset.single_le_sum (fun _ _ => Nat.zero_le _) (Finset.mem_range.mpr hi)

theorem sum_map_range : ((List.range cores).map p).sum = ∑ k ∈ Finset.range cores, p k := rfl

/-! ## Lookahead -/

theorem bestUtility_spec (metric : (Fin cores → ℕ) → D) (p : ℕ → ℕ) (procId : ℕ) (ways : List ℕ) (mu : D) (best : ℕ) :
    ((bestUtility metric p procId ways mu best).1 = mu ∨ (bestUtility metric p procId ways mu best).1 < mu) ∧
      ((bestUtility metric p procId ways mu best).2 = best ∨ (bestUtility metric p procId ways mu best).2 ∈ ways) := by
  induction ways generalizing mu best with
  | nil => exact ⟨.inl rfl, .inl rfl⟩
  | cons way ways ih =>
      rw [bestUtility]
      split
      · rename_i hlt
        obtain ⟨hmu, hways⟩ := ih _ way
        refine ⟨.inr ?_, .inr ?_⟩
        · rcases hmu with hmu | hmu
          · rw [hmu]
            exact hlt
          · exact hmu.trans hlt
        · rcases hways with hways | hways
          · rw [hways]
            exact List.mem_cons_self
          · exact List.mem_cons_of_mem _ hways
      · obtain ⟨hmu, hways⟩ := ih mu best
        exact ⟨hmu, hways.imp id (List.mem_cons_of_mem _)⟩

/-- Within the budget the search for one core asserts nothing false: it finds a utility below the initial one and
at most as many ways as are left. -/
theorem getBestMarginalUtility_ok (metric : (Fin cores → ℕ) → D) {procId balance : ℕ} (h : p procId + balance ≤ assoc) :
    ∃ mu extra, getBestMarginalUtility metric assoc p procId balance = .ok (mu, extra) ∧
      mu < Double.huge ∧ extra ≤ balance := by
  unfold getBestMarginalUtility
  dsimp only
  rw [if_neg (Nat.not_lt.mpr h)]
  obtain ⟨hmu, hways⟩ := bestUtility_spec metric p procId
    (List.range' (p procId + 1) balance) Double.zero (p procId)
  refine ⟨_, _, rfl, ?_, ?_⟩
  · rcases hmu with hmu | hmu
    · rw [hmu]
      exact Double.zero_lt_huge
    · exact hmu.trans Double.zero_lt_huge
  · rcases hways with hways | hways
    · rw [hways]
      omega
    · rw [List.mem_range'_1] at hways
      omega

/-- The loop over the cores finds a core, unless there is none. -/
theorem bestCore_ok (metric : (Fin cores → ℕ) → D) {balance : ℕ} (procs : List ℕ) (best : BestCore D)
    (hbudget : ∀ procId ∈ procs, p procId + balance ≤ assoc)
    (hbest : best.mu = Double.huge ∧ best.extraWays = 0 ∨
      best.mu < Double.huge ∧ best.procId < cores ∧ best.extraWays ≤ balance)
    (hprocs : ∀ procId ∈ procs, procId < cores) :
    ∃ best', bestCore metric assoc p balance procs best = .ok best' ∧
      (procs = [] ∧ best' = best ∨
        best'.mu < Double.huge ∧ best'.procId < cores ∧ best'.extraWays ≤ balance) := by
  induction procs generalizing best with
  | nil => exact ⟨best, rfl, .inl ⟨rfl, rfl⟩⟩
  | cons procId procs ih =>
      obtain ⟨mu, extra, hutility, hmu, hextra⟩ :=
        getBestMarginalUtility_ok metric (hbudget procId List.mem_cons_self)
      have hnext : ∀ next : BestCore D, next = (if mu < best.mu then ⟨mu, procId, extra⟩ else best) →
          next.mu < Double.huge ∧ next.procId < cores ∧ next.extraWays ≤ balance := by
        rintro next rfl
        by_cases hlt : mu < best.mu
        · rw [if_pos hlt]
          exact ⟨hmu, hprocs procId List.mem_cons_self, hextra⟩
        · rw [if_neg hlt]
          rcases hbest with ⟨hhuge, -⟩ | hbest
          · exact absurd (hhuge ▸ hmu) hlt
          · exact hbest
      obtain ⟨best', hrun, hbest'⟩ := ih (if mu < best.mu then ⟨mu, procId, extra⟩ else best)
        (fun procId hmem => hbudget procId (List.mem_cons_of_mem _ hmem)) (.inr (hnext _ rfl))
        fun procId hmem => hprocs procId (List.mem_cons_of_mem _ hmem)
      refine ⟨best', ?_, .inr ?_⟩
      · unfold bestCore at hrun ⊢
        rw [List.foldlM_cons, hutility]
        exact hrun
      · rcases hbest' with ⟨-, rfl⟩ | hbest'
        · exact hnext _ rfl
        · exact hbest'

/-- Between the turns every core has a way and the count of ways is right. -/
structure Lookahead.Budget (assoc : ℕ) (s : Lookahead cores) : Prop where
  pos : ∀ i < cores, 1 ≤ s.partition i
  total : ∑ i ∈ Finset.range cores, s.partition i = s.totalWaysAllocated
  le : s.totalWaysAllocated ≤ assoc

/-- A turn gives out at least one of the ways that are left. -/
theorem Lookahead.Budget.turn {s : Lookahead cores} (metric : (Fin cores → ℕ) → D) (h : s.Budget assoc) (hlt : s.totalWaysAllocated < assoc) :
    ∃ t, lookaheadTurn metric assoc s = .ok (.inl t) ∧ t.Budget assoc ∧ s.totalWaysAllocated < t.totalWaysAllocated := by
  have hcores : 0 < cores := Nat.zero_lt_of_lt s.tieBreakerProcId.isLt
  have hbudget : ∀ procId ∈ List.range cores, s.partition procId + (assoc - s.totalWaysAllocated) ≤ assoc := by
    intro procId hprocId
    have hle := le_sum s.partition (List.mem_range.mp hprocId)
    rw [h.total] at hle
    omega
  obtain ⟨best, hbest, hfound⟩ := bestCore_ok metric (List.range cores) ⟨Double.huge, cores, 0⟩
    hbudget (.inl ⟨rfl, rfl⟩) fun _ => List.mem_range.mp
  rcases hfound with ⟨hnil, -⟩ | ⟨hmu, hprocId, hextra⟩
  · rw [List.range_eq_nil] at hnil
    omega
  -- the ways that are given out, whoever gets them
  have hgive (procId extra : ℕ) (tie : Fin cores) (hprocId : procId < cores) (hpos : 1 ≤ extra)
      (hle : extra ≤ assoc - s.totalWaysAllocated) :
      Lookahead.Budget assoc ⟨Function.update s.partition procId (s.partition procId + extra),
        s.totalWaysAllocated + extra, tie⟩ := by
    refine ⟨?_, ?_, ?_⟩
    · intro i hi
      by_cases hsame : i = procId
      · subst hsame
        simp only [Function.update_self]
        omega
      · simp only [Function.update_of_ne hsame]
        exact h.pos i hi
    · have hsum := sum_update s.partition (s.partition procId + extra) hprocId
      rw [h.total] at hsum
      dsimp only
      omega
    · dsimp only
      omega
  unfold lookaheadTurn
  rw [if_pos hlt, hbest]
  simp only [bind, Except.bind, pure, Except.pure]
  rw [if_neg hmu.ne]
  by_cases hzero : best.extraWays = 0
  · rw [if_pos hzero]
    dsimp only
    rw [if_neg (Nat.ne_of_lt s.tieBreakerProcId.isLt)]
    exact ⟨_, rfl, hgive _ 1 _ s.tieBreakerProcId.isLt (Nat.le_refl 1) (by omega), Nat.lt_succ_self _⟩
  · rw [if_neg hzero]
    dsimp only
    rw [if_neg (Nat.ne_of_lt hprocId)]
    exact ⟨_, rfl, hgive _ _ _ hprocId (Nat.pos_of_ne_zero hzero) hextra, by dsimp only; omega⟩

/-- Lookahead ends with a partition, whatever the metric. -/
theorem searchLookahead_returns (metric : (Fin cores → ℕ) → D) (hle : cores ≤ assoc) (s : Partitions cores) :
    ∃ t, Returns (fun fuel => searchLookahead metric assoc fuel s) t ∧ IsPartition cores assoc t.newPartition ∧
      t.ways = s.ways := by
  have hstart : Lookahead.Budget assoc ⟨fun _ => 1, cores, s.tieBreakerProcId⟩ := ⟨fun _ _ => Nat.le_refl 1, by simp, hle⟩
  have hstep : ∀ t : Lookahead cores, t.Budget assoc →
      (∃ t', lookaheadTurn metric assoc t = .ok (.inl t') ∧ t'.Budget assoc ∧
        assoc - t'.totalWaysAllocated < assoc - t.totalWaysAllocated) ∨
      ∃ t', lookaheadTurn metric assoc t = .ok (.inr t') ∧ IsPartition cores assoc t'.partition := by
    intro t ht
    by_cases hlt : t.totalWaysAllocated < assoc
    · obtain ⟨t', hturn, ht', hmore⟩ := ht.turn metric hlt
      exact .inl ⟨t', hturn, ht', by omega⟩
    · refine .inr ⟨t, ?_, ht.pos, ?_⟩
      · unfold lookaheadTurn
        rw [if_neg hlt]
        rfl
      · have hle := ht.le
        rw [ht.total]
        omega
  obtain ⟨t, hpartition, enough, hreturns⟩ := returns_of_wellFounded
    (measure fun t : Lookahead cores => assoc - t.totalWaysAllocated).wf hstep hstart
  refine ⟨{ s with newPartition := t.partition, tieBreakerProcId := t.tieBreakerProcId }, ⟨enough, fun fuel hfuel => ?_⟩,
    hpartition, rfl⟩
  have hloop := hreturns fuel hfuel
  dsimp only at hloop ⊢
  unfold searchLookahead
  rw [hloop]
  rfl

/-! ## The order of the brute force -/

/-- The first entry that differs is larger. -/
def Ahead (cores : ℕ) (p q : ℕ → ℕ) : Prop := ∃ i < cores, (∀ k < i, p k = q k) ∧ p i < q i

theorem same_or_ahead (cores : ℕ) (p q : ℕ → ℕ) : (∀ i < cores, p i = q i) ∨ Ahead cores p q ∨ Ahead cores q p := by
  induction cores with
  | zero => exact .inl fun _ h => absurd h (Nat.not_lt_zero _)
  | succ n ih =>
      rcases ih with hsame | ⟨i, hi, hbefore, hlt⟩ | ⟨i, hi, hbefore, hlt⟩
      · rcases Nat.lt_trichotomy (p n) (q n) with hlt | heq | hlt
        · exact .inr (.inl ⟨n, Nat.lt_succ_self n, hsame, hlt⟩)
        · refine .inl fun i hi => ?_
          rcases Nat.lt_succ_iff_lt_or_eq.mp hi with hi | rfl
          · exact hsame i hi
          · exact heq
        · exact .inr (.inr ⟨n, Nat.lt_succ_self n, fun k hk => (hsame k hk).symm, hlt⟩)
      · exact .inr (.inl ⟨i, Nat.lt_succ_of_lt hi, hbefore, hlt⟩)
      · exact .inr (.inr ⟨i, Nat.lt_succ_of_lt hi, hbefore, hlt⟩)

/-- The entries as digits of a number. -/
def rank (assoc : ℕ) (p : ℕ → ℕ) : ℕ → ℕ
  | 0 => 0
  | n + 1 => rank assoc p n * (assoc + 1) + p n

theorem rank_lt_pow (h : ∀ i < cores, p i ≤ assoc) : rank assoc p cores < (assoc + 1) ^ cores := by
  induction cores with
  | zero => simp [rank]
  | succ n ih =>
      have hn := ih fun i hi => h i (Nat.lt_succ_of_lt hi)
      have hlast := h n (Nat.lt_succ_self n)
      calc rank assoc p n * (assoc + 1) + p n
          < rank assoc p n * (assoc + 1) + (assoc + 1) := by omega
        _ = (rank assoc p n + 1) * (assoc + 1) := by rw [Nat.add_mul, Nat.one_mul]
        _ ≤ (assoc + 1) ^ n * (assoc + 1) := Nat.mul_le_mul_right _ hn
        _ = (assoc + 1) ^ (n + 1) := (Nat.pow_succ ..).symm

theorem rank_congr (h : ∀ i < cores, p i = q i) : rank assoc p cores = rank assoc q cores := by
  induction cores with
  | zero => rfl
  | succ n ih =>
      rw [rank, rank, ih fun i hi => h i (Nat.lt_succ_of_lt hi), h n (Nat.lt_succ_self n)]

theorem Ahead.rank_lt (h : Ahead cores p q) (hp : ∀ i < cores, p i ≤ assoc) :
    rank assoc p cores < rank assoc q cores := by
  obtain ⟨i, hi, hbefore, hlt⟩ := h
  induction cores with
  | zero => exact absurd hi (Nat.not_lt_zero _)
  | succ n ih =>
      rw [rank, rank]
      rcases Nat.lt_succ_iff_lt_or_eq.mp hi with hi | rfl
      · have hn := ih (fun i hi => hp i (Nat.lt_succ_of_lt hi)) hi
        have hlast := hp n (Nat.lt_succ_self n)
        calc rank assoc p n * (assoc + 1) + p n
            < (rank assoc p n + 1) * (assoc + 1) := by
              rw [Nat.add_mul, Nat.one_mul]
              omega
          _ ≤ rank assoc q n * (assoc + 1) := Nat.mul_le_mul_right _ hn
          _ ≤ rank assoc q n * (assoc + 1) + q n := Nat.le_add_right _ _
      · rw [rank_congr hbefore]
        omega

theorem IsPartition.le (h : IsPartition cores assoc p) {i : ℕ} (hi : i < cores) : p i ≤ assoc :=
  h.total ▸ le_sum p hi

/-- No partition has all entries at least as large as another one and one of them larger. -/
theorem IsPartition.not_above (hp : IsPartition cores assoc p) (hq : IsPartition cores assoc q) {i : ℕ} (hi : i < cores)
    (hlt : p i < q i) (hle : ∀ k < cores, p k ≤ q k) : False := by
  have hsum : ∑ k ∈ Finset.range cores, p k < ∑ k ∈ Finset.range cores, q k :=
    Finset.sum_lt_sum (fun k hk => hle k (Finset.mem_range.mp hk)) ⟨i, Finset.mem_range.mpr hi, hlt⟩
  rw [hp.total, hq.total] at hsum
  omega

theorem lastAboveOne_spec (p : ℕ → ℕ) (n : ℕ) : lastAboveOne p n ≤ n ∧
    (∀ k, lastAboveOne p n < k → k ≤ n → p k = 1) ∧ (lastAboveOne p n ≠ 0 → p (lastAboveOne p n) ≠ 1) := by
  induction n with
  | zero => exact ⟨Nat.le_refl 0, fun k hk hle => absurd hk (Nat.not_lt.mpr hle), fun h => absurd rfl h⟩
  | succ n ih =>
      rw [lastAboveOne]
      by_cases hone : p (n + 1) = 1
      · rw [if_neg (not_not.mpr hone)]
        obtain ⟨hle, hall, hne⟩ := ih
        refine ⟨Nat.le_succ_of_le hle, ?_, hne⟩
        intro k hk hkn
        rcases Nat.lt_succ_iff_lt_or_eq.mp (Nat.lt_succ_of_le hkn) with hkn | rfl
        · exact hall k hk (Nat.le_of_lt_succ hkn)
        · exact hone
      · rw [if_pos hone]
        exact ⟨Nat.le_refl _, fun k hk hle => absurd hk (Nat.not_lt.mpr hle), fun _ => hone⟩

/-- The ways that are left go to the last core. -/
def fill (cores assoc : ℕ) (p : ℕ → ℕ) : ℕ → ℕ :=
  Function.update p (cores - 1) (p (cores - 1) + (assoc - ∑ i ∈ Finset.range cores, p i))

/-- Each core has a way, and they fit. -/
structure IsPartial (cores assoc : ℕ) (p : ℕ → ℕ) : Prop where
  pos : ∀ i < cores, 1 ≤ p i
  total : ∑ i ∈ Finset.range cores, p i ≤ assoc

theorem IsPartial.fill (h : IsPartial cores assoc p) (hcores : 0 < cores) : IsPartition cores assoc (fill cores assoc p) := by
  have hlast : cores - 1 < cores := by omega
  refine ⟨?_, ?_⟩
  · intro i hi
    unfold Memory.fill
    by_cases hsame : i = cores - 1
    · subst hsame
      have hpos := h.pos _ hlast
      rw [Function.update_self]
      omega
    · rw [Function.update_of_ne hsame]
      exact h.pos i hi
  · have hsum := sum_update p (p (cores - 1) + (assoc - ∑ i ∈ Finset.range cores, p i)) hlast
    have hle := h.total
    unfold Memory.fill
    omega

/-- The next partition: the last core with more than one way falls back to one and the core before gets one more. -/
def advance (p : ℕ → ℕ) (j : ℕ) : ℕ → ℕ := Function.update (Function.update p (j + 1) 1) j (p j + 1)

/-- The core that falls back is the last one with more than one way. -/
structure LastAboveOne (cores : ℕ) (p : ℕ → ℕ) (j : ℕ) : Prop where
  lt : j < cores
  ne : p j ≠ 1
  after : ∀ k, j < k → k < cores → p k = 1

theorem IsPartition.advance (h : IsPartition cores assoc p) {j : ℕ} (hj : LastAboveOne cores p (j + 1)) :
    IsPartial cores assoc (advance p j) := by
  have hlt := hj.lt
  have hpos := h.pos (j + 1) hj.lt
  have hne := hj.ne
  refine ⟨?_, ?_⟩
  · intro i hi
    unfold Memory.advance
    by_cases hij : i = j
    · rw [hij, Function.update_self]
      omega
    · rw [Function.update_of_ne hij]
      by_cases hij' : i = j + 1
      · rw [hij', Function.update_self]
      · rw [Function.update_of_ne hij']
        exact h.pos i hi
  · have hfirst := sum_update p 1 hj.lt
    have hsecond := sum_update (Function.update p (j + 1) 1) (p j + 1) (show j < cores by omega)
    rw [Function.update_of_ne (Nat.ne_of_lt (Nat.lt_succ_self j))] at hsecond
    rw [h.total] at hfirst
    unfold Memory.advance
    omega

section

variable {j : ℕ}

theorem fill_advance_before (hj : LastAboveOne cores p (j + 1)) {k : ℕ} (hk : k < j) :
    fill cores assoc (advance p j) k = p k := by
  have hlt := hj.lt
  unfold fill advance
  rw [Function.update_of_ne (by omega), Function.update_of_ne (by omega), Function.update_of_ne (by omega)]

theorem fill_advance_at (hj : LastAboveOne cores p (j + 1)) : fill cores assoc (advance p j) j = p j + 1 := by
  have hlt := hj.lt
  unfold fill advance
  rw [Function.update_of_ne (by omega), Function.update_self]

theorem fill_advance_after (hj : LastAboveOne cores p (j + 1)) {k : ℕ} (hk : j < k) (hlast : k < cores - 1) :
    fill cores assoc (advance p j) k = 1 := by
  unfold fill advance
  rw [Function.update_of_ne (by omega), Function.update_of_ne (by omega)]
  by_cases hsame : k = j + 1
  · rw [hsame, Function.update_self]
  · rw [Function.update_of_ne hsame]
    exact hj.after k (by omega) (by omega)

theorem ahead_fill_advance (hj : LastAboveOne cores p (j + 1)) : Ahead cores p (fill cores assoc (advance p j)) := by
  have hlt := hj.lt
  refine ⟨j, by omega, fun k hk => (fill_advance_before hj hk).symm, ?_⟩
  rw [fill_advance_at hj]
  omega

/-- Between a partition and the next one there is no other. -/
theorem IsPartition.not_between (hp : IsPartition cores assoc p) (hj : LastAboveOne cores p (j + 1))
    (hq : IsPartition cores assoc q) (hpq : Ahead cores p q) (hqn : Ahead cores q (Memory.fill cores assoc (Memory.advance p j))) :
    False := by
  obtain ⟨i, hi, hbefore, hlt⟩ := hpq
  obtain ⟨m, hm, hbefore', hlt'⟩ := hqn
  have hcores : 0 < cores := by omega
  have hnext := (hp.advance hj).fill hcores
  -- a first difference behind `j` would make the ways more in total
  have hij : i ≤ j := by
    by_contra hgt
    refine hp.not_above hq hi hlt fun k hk => ?_
    rcases Nat.lt_trichotomy k i with hki | rfl | hki
    · exact Nat.le_of_eq (hbefore k hki)
    · exact Nat.le_of_lt hlt
    · rw [hj.after k (by omega) hk]
      exact hq.pos k hk
  rcases Nat.lt_trichotomy m i with hmi | rfl | hmi
  · rw [fill_advance_before hj (by omega), hbefore m hmi] at hlt'
    omega
  · rcases Nat.lt_or_eq_of_le hij with hlast | rfl
    · rw [fill_advance_before hj hlast] at hlt'
      omega
    · rw [fill_advance_at hj] at hlt'
      omega
  · have heq := hbefore' i hmi
    rcases Nat.lt_or_eq_of_le hij with hlast | rfl
    · rw [fill_advance_before hj hlast] at heq
      omega
    · by_cases hlast : m = cores - 1
      · refine hq.not_above hnext hm hlt' fun k hk => ?_
        rcases Nat.lt_trichotomy k m with hkm | rfl | hkm
        · exact Nat.le_of_eq (hbefore' k hkm)
        · exact Nat.le_of_lt hlt'
        · omega
      · rw [fill_advance_after hj hmi (by omega)] at hlt'
        have hpos := hq.pos m hm
        omega

end

/-! ## Brute force -/

theorem cells_congr (h : ∀ i < cores, p i = q i) : cells cores p = cells cores q := funext fun i => h i i.isLt

/-- The best partition so far: none yet, or one of its metric. -/
def Bruteforce.Best (metric : (Fin cores → ℕ) → D) (assoc : ℕ) (s : Bruteforce D) : Prop :=
  s.bestMetric = Double.huge ∨
    IsPartition cores assoc s.bestPartition ∧ metric (cells cores s.bestPartition) = s.bestMetric ∧
      s.bestMetric < Double.huge

/-- At the start of a turn the partitions before the next one have been tried. -/
structure Bruteforce.Searched (metric : (Fin cores → ℕ) → D) (assoc : ℕ) (s : Bruteforce D) : Prop where
  part : IsPartial cores assoc s.partition
  seen : ∀ q, IsPartition cores assoc q → Ahead cores q (fill cores assoc s.partition) →
    ¬ metric (cells cores q) < s.bestMetric
  best : s.Best metric assoc

/-- At the end all partitions have been tried. -/
structure Bruteforce.Finished (metric : (Fin cores → ℕ) → D) (assoc : ℕ) (s : Bruteforce D) : Prop where
  seen : ∀ q, IsPartition cores assoc q → ¬ metric (cells cores q) < s.bestMetric
  best : s.Best metric assoc

/-- The trial of one partition. -/
def Bruteforce.trial (metric : (Fin cores → ℕ) → D) (s : Bruteforce D) (p : ℕ → ℕ) : Bruteforce D :=
  if metric (cells cores p) < s.bestMetric then ⟨p, p, metric (cells cores p)⟩ else { s with partition := p }

theorem Bruteforce.trial_best {s : Bruteforce D} (h : s.Best metric assoc) (hp : IsPartition cores assoc p) :
    (s.trial metric p).Best metric assoc := by
  unfold Bruteforce.trial
  by_cases hlt : metric (cells cores p) < s.bestMetric
  · rw [if_pos hlt]
    refine .inr ⟨hp, rfl, ?_⟩
    rcases h with hhuge | ⟨-, -, hhuge⟩
    · exact hhuge ▸ hlt
    · exact hlt.trans hhuge
  · rw [if_neg hlt]
    exact h

/-- What was not better before is not better now, and neither is the partition that was tried. -/
theorem Bruteforce.trial_seen {s : Bruteforce D} {m : D} (h : ¬ m < s.bestMetric ∨ m = metric (cells cores p)) :
    ¬ m < (s.trial metric p).bestMetric := by
  unfold Bruteforce.trial
  by_cases hlt : metric (cells cores p) < s.bestMetric
  · rw [if_pos hlt]
    rintro hm
    rcases h with h | rfl
    · exact h (hm.trans hlt)
    · exact lt_irrefl _ hm
  · rw [if_neg hlt]
    rcases h with h | rfl
    · exact h
    · exact hlt

theorem bruteforceTurn_eq {s : Bruteforce D} (h : IsPartial cores assoc s.partition) :
    bruteforceTurn metric assoc s = match lastAboveOne (fill cores assoc s.partition) (cores - 1) with
      | 0 => .ok (.inr (s.trial metric (fill cores assoc s.partition)))
      | j + 1 => .ok (.inl { s.trial metric (fill cores assoc s.partition) with
          partition := advance (fill cores assoc s.partition) j }) := by
  unfold bruteforceTurn
  dsimp only
  rw [if_neg (by rw [sum_map_range]; exact Nat.not_lt.mpr h.total)]
  rfl

/-- Without a core above one way nothing is ahead. -/
theorem IsPartition.not_ahead (hp : IsPartition cores assoc p) (hone : ∀ k, 0 < k → k < cores → p k = 1)
    (hq : IsPartition cores assoc q) : ¬ Ahead cores p q := by
  rintro ⟨i, hi, hbefore, hlt⟩
  refine hp.not_above hq hi hlt fun k hk => ?_
  rcases Nat.lt_trichotomy k i with hki | rfl | hki
  · exact Nat.le_of_eq (hbefore k hki)
  · exact Nat.le_of_lt hlt
  · rw [hone k (by omega) hk]
    exact hq.pos k hk

/-- One turn tries the next partition. -/
theorem Bruteforce.Searched.turn {s : Bruteforce D} (h : s.Searched metric assoc) (hcores : 0 < cores) :
    (∃ t, bruteforceTurn metric assoc s = .ok (.inl t) ∧ t.Searched metric assoc ∧
      (assoc + 1) ^ cores - rank assoc (fill cores assoc t.partition) cores <
        (assoc + 1) ^ cores - rank assoc (fill cores assoc s.partition) cores) ∨
      ∃ t, bruteforceTurn metric assoc s = .ok (.inr t) ∧ t.Finished metric assoc := by
  have hfill := h.part.fill hcores
  have hbest := Bruteforce.trial_best h.best hfill
  obtain ⟨hle, hafter, hne⟩ := lastAboveOne_spec (fill cores assoc s.partition) (cores - 1)
  rw [bruteforceTurn_eq h.part]
  cases hlast : lastAboveOne (fill cores assoc s.partition) (cores - 1) with
  | zero =>
      rw [hlast] at hafter
      refine .inr ⟨_, rfl, fun q hq => Bruteforce.trial_seen ?_, hbest⟩
      rcases same_or_ahead cores q (fill cores assoc s.partition) with hsame | hbefore | hahead
      · exact .inr (by rw [cells_congr hsame])
      · exact .inl (h.seen q hq hbefore)
      · exact absurd hahead (hfill.not_ahead (fun k hpos hk => hafter k hpos (by omega)) hq)
  | succ j =>
      rw [hlast] at hafter hne hle
      have hj : LastAboveOne cores (fill cores assoc s.partition) (j + 1) :=
        ⟨by omega, hne (Nat.succ_ne_zero j), fun k hk hlt => hafter k hk (by omega)⟩
      have hnext := (hfill.advance hj).fill hcores
      have hpow : rank assoc (fill cores assoc (advance (fill cores assoc s.partition) j)) cores < _ :=
        rank_lt_pow fun i hi => hnext.le hi
      refine .inl ⟨_, rfl, ⟨hfill.advance hj, fun q hq hbefore => Bruteforce.trial_seen ?_, hbest⟩, ?_⟩
      · rcases same_or_ahead cores q (fill cores assoc s.partition) with hsame | hbefore' | hahead
        · exact .inr (by rw [cells_congr hsame])
        · exact .inl (h.seen q hq hbefore')
        · exact (hfill.not_between hj hq hahead hbefore).elim
      · have hlt : rank assoc (fill cores assoc s.partition) cores <
            rank assoc (fill cores assoc (advance (fill cores assoc s.partition) j)) cores :=
          (ahead_fill_advance hj).rank_lt fun i hi => hfill.le hi
        dsimp only
        omega

/-- The search starts with the first partition. -/
theorem IsPartition.not_ahead_start {q : ℕ → ℕ} (hq : IsPartition cores assoc q) (hcores : 0 < cores) (hle : cores ≤ assoc) :
    ¬ Ahead cores q (fill cores assoc fun _ => 1) := by
  have hpart : IsPartial cores assoc fun _ => 1 := ⟨fun _ _ => Nat.le_refl 1, by simpa using hle⟩
  rintro ⟨i, hi, hbefore, hlt⟩
  by_cases hlast : i = cores - 1
  · refine hq.not_above (hpart.fill hcores) hi hlt fun k hk => ?_
    rcases Nat.lt_trichotomy k i with hki | rfl | hki
    · exact Nat.le_of_eq (hbefore k hki)
    · exact Nat.le_of_lt hlt
    · omega
  · have hpos := hq.pos i hi
    unfold fill at hlt
    rw [Function.update_of_ne hlast] at hlt
    omega

/-- The search starts before every partition. -/
theorem Bruteforce.searched_start (hcores : 0 < cores) (hle : cores ≤ assoc) (temp : ℕ → ℕ) :
    (⟨fun _ => 1, temp, Double.huge⟩ : Bruteforce D).Searched metric assoc :=
  ⟨⟨fun _ _ => Nat.le_refl 1, by simpa using hle⟩, fun _ hq hbefore => absurd hbefore (hq.not_ahead_start hcores hle), .inl rfl⟩

/-- Brute force ends: with a partition whose metric no other one is below, or, if no partition has a metric below
the initial one, with a failed assertion. -/
theorem searchBruteforce_returns (metric : (Fin cores → ℕ) → D) (hcores : 0 < cores) (hle : cores ≤ assoc) (s : Partitions cores) :
    (∃ t, Returns (fun fuel => searchBruteforce metric assoc fuel s) t ∧ IsPartition cores assoc t.newPartition ∧
      t.ways = s.ways ∧ (cores = assoc ∨ ∃ q, IsPartition cores assoc q ∧ metric (cells cores q) < Double.huge)) ∨
    Fails (fun fuel => searchBruteforce metric assoc fuel s) "best_metric != 1.0e99" ∧ cores ≠ assoc ∧
      ∀ q, IsPartition cores assoc q → ¬ metric (cells cores q) < Double.huge := by
  unfold searchBruteforce
  by_cases hall : cores = assoc
  · refine .inl ⟨{ s with newPartition := fun _ => 1 }, ⟨0, fun fuel _ => ?_⟩, ⟨fun _ _ => Nat.le_refl 1, ?_⟩, rfl, .inl hall⟩
    · dsimp only
      rw [if_pos hall]
      rfl
    · simpa using hall
  · obtain ⟨t, hdone, enough, hreturns⟩ := returns_of_wellFounded
      (measure fun t : Bruteforce D => (assoc + 1) ^ cores - rank assoc (fill cores assoc t.partition) cores).wf
      (fun t (ht : t.Searched metric assoc) => ht.turn hcores)
      (Bruteforce.searched_start hcores hle s.tempPartition)
    dsimp only at hreturns
    by_cases hhuge : t.bestMetric = Double.huge
    · refine .inr ⟨⟨enough, fun fuel hfuel => ?_⟩, hall, fun q hq => hhuge ▸ hdone.seen q hq⟩
      dsimp only
      rw [if_neg hall, hreturns fuel hfuel]
      simp only [bind, Except.bind]
      rw [if_pos hhuge]
    · obtain ⟨hpartition, hmetric, hlt⟩ := hdone.best.resolve_left hhuge
      refine .inl ⟨{ s with newPartition := t.bestPartition, tempPartition := t.bestPartition },
        ⟨enough, fun fuel hfuel => ?_⟩, hpartition, rfl, .inr ⟨t.bestPartition, hpartition, by rw [hmetric]; exact hlt⟩⟩
      dsimp only
      rw [if_neg hall, hreturns fuel hfuel]
      simp only [bind, Except.bind]
      rw [if_neg hhuge]
      rfl

/-! ## The partition that is set -/

theorem IsPartition.setUp_fits {s : Partitions cores} (h : IsPartition cores assoc s.newPartition) :
    s.setUp.ways.Fits cores assoc := by
  unfold Partitions.setUp
  refine ⟨fun i hi => ?_, Nat.le_of_eq (Eq.trans (Finset.sum_congr rfl fun i hi => ?_) h.total)⟩
  · dsimp only
    rw [if_pos hi]
    exact h.pos i hi
  · exact if_pos (Finset.mem_range.mp hi)

theorem setPartition_of_returns (search : CachePartSearch) {s t : Partitions cores}
    (h : Returns (fun fuel => searchFunc metric assoc search fuel s) t) :
    Returns (fun fuel => setPartition metric assoc search fuel s) t.setUp := by
  obtain ⟨enough, hreturns⟩ := h
  refine ⟨enough, fun fuel hfuel => ?_⟩
  have hsearch := hreturns fuel hfuel
  dsimp only at hsearch ⊢
  rw [setPartition, hsearch]
  rfl

theorem setPartition_of_fails (search : CachePartSearch) {s : Partitions cores} {e : String}
    (h : Fails (fun fuel => searchFunc metric assoc search fuel s) e) :
    Fails (fun fuel => setPartition metric assoc search fuel s) e := by
  obtain ⟨enough, hfails⟩ := h
  refine ⟨enough, fun fuel hfuel => ?_⟩
  have hsearch := hfails fuel hfuel
  dsimp only at hsearch ⊢
  rw [setPartition, hsearch]
  rfl

/-- What a search needs: lookahead nothing, brute force a partition with a metric below the initial `best_metric`
unless there is only one partition. -/
def CachePartSearch.Finds (search : CachePartSearch) (metric : (Fin cores → ℕ) → D) (assoc : ℕ) : Prop :=
  search = .lookahead ∨ cores = assoc ∨ ∃ q, IsPartition cores assoc q ∧ metric (cells cores q) < Double.huge

/-- For every metric the searches end: with a partition, or, where brute force finds none, with the assertion on
`best_metric`, and no other assertion fails. -/
theorem setPartition_law (metric : (Fin cores → ℕ) → D) (search : CachePartSearch) (s : Partitions cores)
    (hle : cores ≤ assoc) :
    (search.Finds metric assoc → ∃ t, Returns (fun fuel => setPartition metric assoc search fuel s) t ∧
      IsPartition cores assoc t.newPartition ∧ t.ways.Fits cores assoc) ∧
    (¬ search.Finds metric assoc →
      Fails (fun fuel => setPartition metric assoc search fuel s) "best_metric != 1.0e99") := by
  have hcores : 0 < cores := Nat.zero_lt_of_lt s.tieBreakerProcId.isLt
  cases search with
  | lookahead =>
      obtain ⟨t, hreturns, hpartition, -⟩ := searchLookahead_returns metric hle s
      refine ⟨fun _ => ⟨t.setUp, ?_, hpartition, hpartition.setUp_fits⟩, fun hnone => absurd (.inl rfl) hnone⟩
      exact setPartition_of_returns .lookahead hreturns
  | bruteForce =>
      rcases searchBruteforce_returns metric hcores hle s with
        ⟨t, hreturns, hpartition, -, hsome⟩ | ⟨hfails, hall, hnone⟩
      · refine ⟨fun _ => ⟨t.setUp, ?_, hpartition, hpartition.setUp_fits⟩, fun hnone => absurd (.inr hsome) hnone⟩
        exact setPartition_of_returns .bruteForce hreturns
      · refine ⟨?_, fun _ => setPartition_of_fails .bruteForce hfails⟩
        rintro (h | h | ⟨q, hq, hlt⟩)
        · cases h
        · exact absurd h hall
        · exact absurd hlt (hnone q hq)

/-- Exact values. -/
instance : Double ℚ where
  decidableLT := inferInstance
  decidableEq := inferInstance
  zero := 0
  huge := 10 ^ 99
  zero_lt_huge := by positivity
  slope new cur ways := (new - cur) / ways

/-- Two cores that share four ways, where the first uses whatever it gets. -/
theorem setPartition_law_two :
    ∃ t : Partitions 2, Returns (fun fuel => setPartition (fun p => -(p 0 : ℚ)) 4 .bruteForce fuel
        ⟨fun _ => 2, fun _ => 0, 0, ⟨fun _ => 2, fun _ => 0, fun _ => 0, fun _ => 0⟩⟩) t ∧
      IsPartition 2 4 t.newPartition ∧ t.ways.Fits 2 4 :=
  (setPartition_law _ .bruteForce _ (by decide)).1
    (.inr (.inr ⟨fun _ => 2, ⟨fun _ _ => by decide, by decide⟩, by
      show (-2 : ℚ) < 10 ^ 99
      norm_num⟩))

/-- Brute force fails where every partition has a metric of at least the initial `best_metric`. -/
theorem setPartition_huge_metric :
    ¬ ∃ t : Partitions 2, Returns (fun fuel => setPartition (fun _ => (10 ^ 99 : ℚ)) 4 .bruteForce fuel
      ⟨fun _ => 2, fun _ => 0, 0, ⟨fun _ => 2, fun _ => 0, fun _ => 0, fun _ => 0⟩⟩) t := by
  rintro ⟨t, n, hreturns⟩
  have hle : 2 ≤ 4 := by decide
  rcases searchBruteforce_returns (fun _ : Fin 2 → ℕ => (10 ^ 99 : ℚ)) (by decide) hle
    ⟨fun _ => 2, fun _ => 0, 0, ⟨fun _ => 2, fun _ => 0, fun _ => 0, fun _ => 0⟩⟩ with
    ⟨-, -, -, -, hall | ⟨q, -, hlt⟩⟩ | ⟨hfails, -, -⟩
  · exact absurd hall (by decide)
  · exact lt_irrefl (10 ^ 99 : ℚ) hlt
  · obtain ⟨m, hfails⟩ := setPartition_of_fails .bruteForce hfails
    have hdone := hreturns (max n m) (Nat.le_max_left n m)
    have hfail := hfails (max n m) (Nat.le_max_right n m)
    dsimp only at hdone hfail
    rw [hdone] at hfail
    cases hfail

end Scarab.Memory
