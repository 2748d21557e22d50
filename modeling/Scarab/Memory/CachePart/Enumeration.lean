import Mathlib.Algebra.BigOperators.Fin
import Scarab.Memory.CachePart.SearchCorrectness

/-! # What the brute force tries

`search_bruteforce` tries each way of splitting the L1 once, in the order of the first entry that differs, and keeps the
first one of the least metric. -/

namespace Scarab.Memory

open Loop

variable {D : Type} [Double D] {cores assoc : ℕ} {metric : (Fin cores → ℕ) → D} {p q r : ℕ → ℕ} {s t : Bruteforce D}

/-- A way of splitting the L1 into positive parts. -/
structure IsSplit (assoc : ℕ) (v : Fin cores → ℕ) : Prop where
  pos : ∀ i, 0 < v i
  total : ∑ i, v i = assoc

theorem isSplit_cells_iff : IsSplit assoc (cells cores p) ↔ IsPartition cores assoc p := by
  have htotal : ∑ i, cells cores p i = ∑ i ∈ Finset.range cores, p i := Fin.sum_univ_eq_sum_range p cores
  refine ⟨fun h => ⟨fun i hi => h.pos ⟨i, hi⟩, htotal ▸ h.total⟩, fun h => ⟨fun i => h.pos i i.isLt, htotal ▸ h.total⟩⟩

/-- Every vector is that of the cells of a partition. -/
theorem exists_cells (v : Fin cores → ℕ) : ∃ p, cells cores p = v :=
  ⟨fun i => if h : i < cores then v ⟨i, h⟩ else 0, funext fun i => dif_pos i.isLt⟩

/-- The partitions that the turns check. -/
def examined (cores assoc : ℕ) (turns : List (Bruteforce D)) : List (Fin cores → ℕ) :=
  turns.map fun s => cells cores (fill cores assoc s.partition)

/-! ## The order -/

theorem Ahead.trans (h : Ahead cores p q) (h' : Ahead cores q r) : Ahead cores p r := by
  obtain ⟨i, hi, hbefore, hlt⟩ := h
  obtain ⟨m, hm, hbefore', hlt'⟩ := h'
  rcases Nat.lt_trichotomy i m with him | rfl | him
  · exact ⟨i, hi, fun k hk => (hbefore k hk).trans (hbefore' k (by omega)), hbefore' i him ▸ hlt⟩
  · exact ⟨i, hi, fun k hk => (hbefore k hk).trans (hbefore' k hk), hlt.trans hlt'⟩
  · exact ⟨m, hm, fun k hk => (hbefore k (by omega)).trans (hbefore' k hk), (hbefore m him).symm ▸ hlt'⟩

theorem Ahead.cells_ne (h : Ahead cores p q) : cells cores p ≠ cells cores q := by
  obtain ⟨i, hi, -, hlt⟩ := h
  intro hsame
  exact Nat.ne_of_lt hlt (congrFun hsame ⟨i, hi⟩)

/-! ## The turns -/

/-- The turns from a state on, and the state after them. -/
structure Bruteforce.Enumerates (metric : (Fin cores → ℕ) → D) (assoc : ℕ) (s : Bruteforce D) (turns : List (Bruteforce D))
    (t : Bruteforce D) : Prop where
  run : Turns (bruteforceTurn metric assoc) s turns t
  parts : ∀ u ∈ turns, IsPartition cores assoc (fill cores assoc u.partition)
  sorted : (turns.map fun u => fill cores assoc u.partition).Pairwise (Ahead cores)
  complete : ∀ q, IsPartition cores assoc q → ¬ Ahead cores q (fill cores assoc s.partition) → cells cores q ∈ examined cores assoc turns
  best : (cells cores t.bestPartition, t.bestMetric) =
    (examined cores assoc turns).foldl (Argmin.keep metric) (cells cores s.bestPartition, s.bestMetric)

theorem Bruteforce.trial_best_eq : (cells cores (s.trial metric p).bestPartition, (s.trial metric p).bestMetric) =
    Argmin.keep metric (cells cores s.bestPartition, s.bestMetric) (cells cores p) := by
  unfold Bruteforce.trial Argmin.keep
  by_cases hlt : metric (cells cores p) < s.bestMetric
  · rw [if_pos hlt, if_pos hlt]
  · rw [if_neg hlt, if_neg hlt]

/-- From any state on, the turns go through the partitions that are left. -/
theorem Bruteforce.enumerates (metric : (Fin cores → ℕ) → D) (hcores : 0 < cores) (s : Bruteforce D)
    (hpart : IsPartial cores assoc s.partition) : ∃ turns t, s.Enumerates metric assoc turns t := by
  -- the rank of the partition goes up
  induction s using (measure fun s : Bruteforce D =>
    (assoc + 1) ^ cores - rank assoc (fill cores assoc s.partition) cores).wf.induction with
  | _ s ih =>
      have hfill := hpart.fill hcores
      obtain ⟨hle, hafter, hne⟩ := lastAboveOne_spec (fill cores assoc s.partition) (cores - 1)
      have hturn : bruteforceTurn metric assoc s = _ := bruteforceTurn_eq hpart
      cases hlast : lastAboveOne (fill cores assoc s.partition) (cores - 1) with
      | zero =>
          rw [hlast] at hturn hafter
          refine ⟨[s], _, .last hturn, ?_, ?_, ?_, ?_⟩
          · simpa using hfill
          · simp
          · intro q hq hbefore
            rcases same_or_ahead cores q (fill cores assoc s.partition) with hsame | hahead | hahead
            · exact List.mem_singleton.mpr (cells_congr hsame)
            · exact absurd hahead hbefore
            · exact absurd hahead (hfill.not_ahead (fun k hpos hk => hafter k hpos (by omega)) hq)
          · exact Bruteforce.trial_best_eq
      | succ j =>
          rw [hlast] at hturn hafter hne hle
          have hj : LastAboveOne cores (fill cores assoc s.partition) (j + 1) :=
            ⟨by omega, hne (Nat.succ_ne_zero j), fun k hk hlt => hafter k hk (by omega)⟩
          have hahead : Ahead cores (fill cores assoc s.partition) (fill cores assoc (advance (fill cores assoc s.partition) j)) :=
            ahead_fill_advance hj
          have hrank := hahead.rank_lt fun i hi => hfill.le hi
          have hnext := (hfill.advance hj).fill hcores
          have hpow : rank assoc (fill cores assoc (advance (fill cores assoc s.partition) j)) cores < _ :=
            rank_lt_pow fun i hi => hnext.le hi
          have hless : (assoc + 1) ^ cores - rank assoc (fill cores assoc (advance (fill cores assoc s.partition) j)) cores <
              (assoc + 1) ^ cores - rank assoc (fill cores assoc s.partition) cores := by omega
          obtain ⟨turns, t, h⟩ := ih { s.trial metric (fill cores assoc s.partition) with
            partition := advance (fill cores assoc s.partition) j } hless (hfill.advance hj)
          obtain ⟨later, rfl⟩ := h.run.head
          refine ⟨_, t, .next hturn h.run, ?_, ?_, ?_, ?_⟩
          · exact List.forall_mem_cons.mpr ⟨hfill, h.parts⟩
          · rw [List.map_cons]
            refine List.pairwise_cons.mpr ⟨fun q hq => ?_, h.sorted⟩
            rcases List.mem_cons.mp hq with rfl | hq
            · exact hahead
            · exact hahead.trans ((List.pairwise_cons.mp h.sorted).1 q hq)
          · intro q hq hbefore
            rcases same_or_ahead cores q (fill cores assoc s.partition) with hsame | hahead' | hahead'
            · exact List.mem_cons.mpr (.inl (cells_congr hsame))
            · exact absurd hahead' hbefore
            · refine List.mem_cons_of_mem _ (h.complete q hq fun hbetween => ?_)
              exact hfill.not_between hj hq hahead' hbetween
          · rw [h.best]
            dsimp only
            rw [Bruteforce.trial_best_eq]
            rfl

/-! ## The search -/

/-- The first vector of the least metric in a list, where no two metrics need to compare. -/
def IsFirstLeast (metric : (Fin cores → ℕ) → D) (tried : List (Fin cores → ℕ)) (v : Fin cores → ℕ) : Prop :=
  ∃ before after, tried = before ++ v :: after ∧ (∀ w ∈ before, ¬ metric w ≤ metric v) ∧ ∀ w ∈ after, ¬ metric w < metric v

theorem Bruteforce.Enumerates.nodup {turns : List (Bruteforce D)} (h : s.Enumerates metric assoc turns t) :
    (examined cores assoc turns).Nodup := by
  have hmap : examined cores assoc turns = (turns.map fun u => fill cores assoc u.partition).map (cells cores) := by
    unfold examined
    rw [List.map_map]
    rfl
  rw [hmap]
  exact List.pairwise_map.mpr (h.sorted.imp fun hahead => hahead.cells_ne)

theorem Bruteforce.Enumerates.mem_iff {turns : List (Bruteforce D)} (h : s.Enumerates metric assoc turns t)
    (hfirst : ∀ q, IsPartition cores assoc q → ¬ Ahead cores q (fill cores assoc s.partition)) (v : Fin cores → ℕ) :
    v ∈ examined cores assoc turns ↔ IsSplit assoc v := by
  constructor
  · intro hv
    obtain ⟨u, hu, rfl⟩ := List.mem_map.mp hv
    exact isSplit_cells_iff.mpr (h.parts u hu)
  · intro hv
    obtain ⟨q, rfl⟩ := exists_cells v
    have hq := isSplit_cells_iff.mp hv
    exact h.complete q hq (hfirst q hq)

/-- With fewer cores than ways, brute force tries each way of splitting the L1 into positive parts once, and no other
vector. It returns the first of the least metric among them, if there is one below the initial `best_metric`,
and otherwise its last assertion fails. -/
theorem searchBruteforce_enumerates (metric : (Fin cores → ℕ) → D) (hlt : cores < assoc) (s : Partitions cores) :
    ∃ turns t, Turns (bruteforceTurn metric assoc) ⟨fun _ => 1, s.tempPartition, Double.huge⟩ turns t ∧
      (examined cores assoc turns).Nodup ∧ (∀ v : Fin cores → ℕ, v ∈ examined cores assoc turns ↔ IsSplit assoc v) ∧
      ((∃ p, IsFirstLeast metric (examined cores assoc turns) (cells cores p) ∧
          Returns (fun fuel => searchBruteforce metric assoc fuel s) { s with newPartition := p, tempPartition := p }) ∨
        (∀ v, IsSplit assoc v → ¬ metric v < Double.huge) ∧
          Fails (fun fuel => searchBruteforce metric assoc fuel s) "best_metric != 1.0e99") := by
  have hcores : 0 < cores := Nat.zero_lt_of_lt s.tieBreakerProcId.isLt
  obtain ⟨turns, t, h⟩ := Bruteforce.enumerates metric hcores (⟨fun _ => 1, s.tempPartition, Double.huge⟩ : Bruteforce D)
    (show IsPartial cores assoc fun _ => 1 from ⟨fun _ _ => Nat.le_refl 1, by simpa using Nat.le_of_lt hlt⟩)
  have hmem := h.mem_iff fun q hq => hq.not_ahead_start hcores (Nat.le_of_lt hlt)
  refine ⟨turns, t, h.run, h.nodup, hmem, ?_⟩
  obtain ⟨enough, hreturns⟩ := h.run.returns
  have hbest := h.best
  dsimp only at hbest hreturns
  rcases Argmin.foldl_keep_spec metric (examined cores assoc turns) (cells cores s.tempPartition, Double.huge) with
    ⟨hfold, hnone⟩ | ⟨before, v, after, hsplit, hfold, hv, hbefore, hafter⟩
  · rw [hfold] at hbest
    refine .inr ⟨fun v hv => hnone v ((hmem v).mpr hv), enough, fun fuel hfuel => ?_⟩
    unfold searchBruteforce
    dsimp only
    rw [if_neg (Nat.ne_of_lt hlt), hreturns fuel hfuel]
    simp only [bind, Except.bind]
    rw [if_pos (Prod.mk.inj hbest).2]
  · rw [hfold] at hbest
    obtain ⟨hcells, hmetric⟩ := Prod.mk.inj hbest
    refine .inl ⟨t.bestPartition, ⟨before, after, hcells ▸ hsplit, ?_, ?_⟩, enough, fun fuel hfuel => ?_⟩
    · rw [hcells]
      exact hbefore
    · rw [hcells]
      exact hafter
    · unfold searchBruteforce
      dsimp only
      rw [if_neg (Nat.ne_of_lt hlt), hreturns fuel hfuel]
      simp only [bind, Except.bind]
      rw [if_neg (by rw [hmetric]; exact ne_of_lt hv)]
      rfl

/-- Two cores that share four ways. -/
theorem searchBruteforce_enumerates_two :
    ∃ turns t, Turns (bruteforceTurn (fun p : Fin 2 → ℕ => -(p 0 : ℚ)) 4) ⟨fun _ => 1, fun _ => 0, Double.huge⟩ turns t ∧
      (examined 2 4 turns).Nodup ∧ ∀ v : Fin 2 → ℕ, v ∈ examined 2 4 turns ↔ IsSplit 4 v := by
  obtain ⟨turns, t, hturns, hnodup, hmem, -⟩ := searchBruteforce_enumerates (fun p : Fin 2 → ℕ => -(p 0 : ℚ)) (by decide : 2 < 4)
    ⟨fun _ => 2, fun _ => 0, 0, ⟨fun _ => 2, fun _ => 0, fun _ => 0, fun _ => 0⟩⟩
  exact ⟨turns, t, hturns, hnodup, hmem⟩

end Scarab.Memory
