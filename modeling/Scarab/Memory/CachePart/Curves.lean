import Mathlib.Algebra.BigOperators.Group.Finset.Basic
import Mathlib.Algebra.BigOperators.Group.Finset.Piecewise
import Mathlib.Algebra.Order.Field.Rat

/-! # Miss curves

`measure_miss_curves` and the partition metrics of `memory/cache_part.c`. A `double` is an exact
rational number, and every read of `miss_rates` is logged with the number of ways it is for. -/

namespace Scarab.Memory

/-! ## Measurement -/

/-- The counts of the stat monitor for a core. A shadow hit is a shadow access. -/
structure ShadowCounts where
  shadowAccesses : ℕ
  /-- The shadow hits by LRU position. -/
  wayHits : ℕ → ℕ
  /-- `RET_BLOCKED_L1_MISS`. -/
  blocked : ℕ
  /-- `NODE_CYCLE`. -/
  cycles : ℕ
  hits_le : ∀ n, ∑ k ∈ Finset.range n, wayHits k ≤ shadowAccesses

/-- `miss_rates`, where `none` is a cell that `calloc` has zeroed and nobody has written. -/
abbrev MissRates := List (Option ℚ)

/-- The loop of `measure_miss_curves` over the positions. -/
def measureLoop (counts : ShadowCounts) : List ℕ → ℕ → MissRates → MissRates
  | [], _, rates => rates
  | ii :: rest, shadowMissesSum, rates =>
      let shadowMissesSum := shadowMissesSum - counts.wayHits ii
      measureLoop counts rest shadowMissesSum (rates.set ii (some (shadowMissesSum / counts.shadowAccesses)))

/-- `measure_miss_curves` for one core. -/
def measureMissCurves (assoc : ℕ) (rates : MissRates) (counts : ShadowCounts) : MissRates :=
  measureLoop counts (List.range (assoc - 1)) counts.shadowAccesses rates

/-- `miss_rates` after some measurements. -/
def missRates (assoc : ℕ) (measured : List ShadowCounts) : MissRates :=
  measured.foldl (measureMissCurves assoc) (List.replicate assoc none)

/-! ## Metrics -/

/-- A read of `miss_rates[ways]` of a core; `none` is a cell outside the array. -/
structure RateRead where
  procId : ℕ
  ways : ℕ
  cell : Option (Option ℚ)
  deriving DecidableEq

/-- A computation with the reads on its way. It has no value after a read outside an array. -/
structure Reading (α : Type) where
  value : Option α
  reads : List RateRead

instance : Monad Reading where
  pure a := ⟨some a, []⟩
  bind x f := match x.value with
    | none => ⟨none, x.reads⟩
    | some a => ⟨(f a).value, x.reads ++ (f a).reads⟩

/-- `miss_rates[ways]`. -/
def readMissRate (infos : ℕ → MissRates) (procId ways : ℕ) : Reading ℚ :=
  ⟨(infos procId)[ways]?.map (·.getD 0), [⟨procId, ways, (infos procId)[ways]?⟩]⟩

section

variable (counts : ℕ → ShadowCounts) (infos : ℕ → MissRates) (cores : ℕ) (currentPartition partition : ℕ → ℕ)

/-- `get_global_miss_rate`. -/
def getGlobalMissRate : Reading ℚ :=
  (List.range cores).foldlM (fun sum procId => do
    return sum + (← readMissRate infos procId (partition procId)) * (counts procId).shadowAccesses) 0

/-- `get_miss_rate_sum`. -/
def getMissRateSum : Reading ℚ :=
  (List.range cores).foldlM (fun sum procId => do return sum + (← readMissRate infos procId (partition procId))) 0

/-- `get_gmean_perf`. -/
def getGmeanPerf : Reading ℚ := do
  let product ← (List.range cores).foldlM (fun product procId => do
    let stallFrac : ℚ := (counts procId).blocked / (counts procId).cycles
    let missRate0 ← readMissRate infos procId (currentPartition procId)
    let missRate ← readMissRate infos procId (partition procId)
    let predPerf : ℚ :=
      if missRate0 = 0 ∨ stallFrac = 0 then if partition procId = 1 then 1 else 0
      else 1 / (1 + (missRate / missRate0 - 1) * stallFrac)
    return product * predPerf) 1
  return -product

/-- `Cache_Part_Metric`. -/
inductive CachePartMetric where
  | globalMissRate
  | missRateSum
  | gmeanPerf
  deriving DecidableEq, Repr

/-- `metric_func`. -/
def metricFunc (metric : CachePartMetric) : Reading ℚ :=
  match metric with
  | .globalMissRate => getGlobalMissRate counts infos cores partition
  | .missRateSum => getMissRateSum infos cores partition
  | .gmeanPerf => getGmeanPerf counts infos cores currentPartition partition

end

/-! ## The curve -/

/-- The miss rate of a core with some ways. -/
def ShadowCounts.missRate (counts : ShadowCounts) (ways : ℕ) : ℚ :=
  ((counts.shadowAccesses - ∑ k ∈ Finset.range ways, counts.wayHits k : ℕ) : ℚ) / counts.shadowAccesses

variable {counts : ShadowCounts} {rates : MissRates} {assoc i n : ℕ}

/-- The loop writes the rate for one way more than the index. -/
theorem measureLoop_getElem? (counts : ShadowCounts) (rates : MissRates) (i start n : ℕ) :
    (measureLoop counts (List.range' start n) (counts.shadowAccesses - ∑ k ∈ Finset.range start, counts.wayHits k) rates)[i]? =
      if start ≤ i ∧ i < start + n ∧ i < rates.length then some (some (counts.missRate (i + 1))) else rates[i]? := by
  induction n generalizing start rates with
  | zero =>
      rw [if_neg (by omega)]
      rfl
  | succ n ih =>
      have hsum : counts.shadowAccesses - ∑ k ∈ Finset.range start, counts.wayHits k - counts.wayHits start =
          counts.shadowAccesses - ∑ k ∈ Finset.range (start + 1), counts.wayHits k := by
        rw [Finset.sum_range_succ]
        omega
      rw [List.range'_succ, measureLoop, hsum, ih, List.length_set]
      by_cases hi : start = i
      · subst hi
        rw [if_neg (by omega), List.getElem?_set_self']
        by_cases hlen : start < rates.length
        · rw [if_pos ⟨Nat.le_refl _, by omega, hlen⟩, List.getElem?_eq_getElem hlen]
          rfl
        · rw [if_neg (fun h => hlen h.2.2), List.getElem?_eq_none (Nat.le_of_not_lt hlen)]
          rfl
      · rw [List.getElem?_set_ne hi]
        by_cases hin : start + 1 ≤ i ∧ i < start + 1 + n ∧ i < rates.length
        · rw [if_pos hin, if_pos (by omega)]
        · rw [if_neg hin, if_neg (by omega)]

theorem measureMissCurves_getElem? : (measureMissCurves assoc rates counts)[i]? =
    if i < assoc - 1 ∧ i < rates.length then some (some (counts.missRate (i + 1))) else rates[i]? := by
  have h := measureLoop_getElem? counts rates i 0 (assoc - 1)
  simpa [measureMissCurves, List.range_eq_range'] using h

theorem measureLoop_length (positions : List ℕ) (sum : ℕ) :
    (measureLoop counts positions sum rates).length = rates.length := by
  induction positions generalizing sum rates with
  | nil => rfl
  | cons ii positions ih => rw [measureLoop, ih, List.length_set]

/-- The array keeps its length, and its last cell is never written. -/
theorem missRates_shape (assoc : ℕ) (measured : List ShadowCounts) :
    (missRates assoc measured).length = assoc ∧ ∀ i, assoc - 1 ≤ i → i < assoc → (missRates assoc measured)[i]? = some none := by
  unfold missRates
  induction measured using List.reverseRecOn with
  | nil =>
      refine ⟨List.length_replicate, fun i _ hi => ?_⟩
      simp [hi]
  | append_singleton measured counts ih =>
      rw [List.foldl_append, List.foldl_cons, List.foldl_nil]
      refine ⟨?_, fun i hlast hi => ?_⟩
      · unfold measureMissCurves
        rw [measureLoop_length]
        exact ih.1
      · rw [measureMissCurves_getElem?, if_neg (by omega)]
        exact ih.2 i hlast hi

/-- The cells after a measurement. -/
theorem missRates_getElem? (past : List ShadowCounts) (counts : ShadowCounts) (i : ℕ) :
    (missRates assoc (past ++ [counts]))[i]? =
      if i + 1 < assoc then some (some (counts.missRate (i + 1))) else if i < assoc then some none else none := by
  have hlength := (missRates_shape assoc past).1
  have hshape := missRates_shape assoc (past ++ [counts])
  by_cases hi : i + 1 < assoc
  · rw [if_pos hi]
    unfold missRates at hlength ⊢
    rw [List.foldl_append, List.foldl_cons, List.foldl_nil, measureMissCurves_getElem?, if_pos (by omega)]
  · rw [if_neg hi]
    by_cases hlast : i < assoc
    · rw [if_pos hlast]
      exact hshape.2 i (by omega) hlast
    · rw [if_neg hlast]
      exact List.getElem?_eq_none (by omega)

/-- One way more changes the rate exactly when it has hits. -/
theorem ShadowCounts.missRate_succ_eq_iff (counts : ShadowCounts) (ways : ℕ) :
    counts.missRate (ways + 1) = counts.missRate ways ↔ counts.wayHits ways = 0 := by
  have hle := counts.hits_le (ways + 1)
  unfold ShadowCounts.missRate
  rw [Finset.sum_range_succ] at hle ⊢
  by_cases hzero : counts.shadowAccesses = 0
  · rw [hzero]
    simp only [Nat.cast_zero, div_zero, true_iff]
    omega
  · rw [div_left_inj' (Nat.cast_ne_zero.mpr hzero), Nat.cast_inj]
    omega

/-! ## What the metrics read -/

/-- The read is of a cell that the measurement has written. -/
def RateRead.Measured (r : RateRead) : Prop := ∃ rate, r.cell = some (some rate)

/-- Every read satisfies a condition. -/
def Reading.All (P : RateRead → Prop) {α : Type} (x : Reading α) : Prop := ∀ r ∈ x.reads, P r

section

variable {α β : Type} {P : RateRead → Prop}

@[simp] theorem Reading.all_pure (a : α) : Reading.All P (pure a : Reading α) := by
  intro r hr
  cases hr

theorem Reading.bind_some {x : Reading α} {f : α → Reading β} {a : α} (h : x.value = some a) :
    x >>= f = ⟨(f a).value, x.reads ++ (f a).reads⟩ := by
  simp only [bind, h]

theorem Reading.bind_none {x : Reading α} {f : α → Reading β} (h : x.value = none) : x >>= f = ⟨none, x.reads⟩ := by
  simp only [bind, h]

/-- If good reads give a value, the reads of a sequence are good when those of both parts are. -/
theorem Reading.all_bind {x : Reading α} {f : α → Reading β} {C : Prop} (hsome : x.All P → x.value.isSome = true)
    (hf : ∀ a, (f a).All P ↔ C) : (x >>= f).All P ↔ x.All P ∧ C := by
  cases hx : x.value with
  | none =>
      rw [Reading.bind_none hx]
      refine ⟨fun h => ?_, fun h => h.1⟩
      have hfalse := hsome h
      rw [hx] at hfalse
      cases hfalse
  | some a =>
      rw [Reading.bind_some hx, ← hf a]
      unfold Reading.All
      simp only [List.mem_append]
      exact ⟨fun h => ⟨fun r hr => h r (.inl hr), fun r hr => h r (.inr hr)⟩, fun h r hr => hr.elim (h.1 r) (h.2 r)⟩

/-- Good reads let a sequence go through. -/
theorem Reading.bind_isSome {x : Reading α} {f : α → Reading β} (hsome : x.All P → x.value.isSome = true)
    (hf : ∀ a, (f a).All P → (f a).value.isSome = true) (h : (x >>= f).All P) : (x >>= f).value.isSome = true := by
  cases hx : x.value with
  | none =>
      rw [Reading.bind_none hx] at h ⊢
      have hfalse := hsome h
      rw [hx] at hfalse
      exact hfalse
  | some a =>
      rw [Reading.bind_some hx] at h ⊢
      exact hf a fun r hr => h r (List.mem_append_right _ hr)

theorem Reading.all_foldlM {f : β → ℕ → Reading β} {C : ℕ → Prop} (hsome : ∀ b p, (f b p).All P → (f b p).value.isSome = true)
    (hf : ∀ b p, (f b p).All P ↔ C p) (procs : List ℕ) (b : β) :
    (procs.foldlM f b).All P ↔ ∀ p ∈ procs, C p := by
  induction procs generalizing b with
  | nil => simp
  | cons p procs ih =>
      rw [List.foldlM_cons, Reading.all_bind (hsome b p) (fun b => ih b), hf, List.forall_mem_cons]

theorem Reading.foldlM_isSome {f : β → ℕ → Reading β} (hsome : ∀ b p, (f b p).All P → (f b p).value.isSome = true)
    (procs : List ℕ) (b : β) (h : (procs.foldlM f b).All P) : (procs.foldlM f b).value.isSome = true := by
  induction procs generalizing b with
  | nil => rfl
  | cons p procs ih =>
      rw [List.foldlM_cons] at h ⊢
      exact Reading.bind_isSome (hsome b p) ih h

/-- A condition under which the cells that are read exist. -/
def InRange (P : RateRead → Prop) : Prop := ∀ r, P r → r.cell.isSome = true

variable {infos : ℕ → MissRates} {procId ways : ℕ}

theorem readMissRate_all : (readMissRate infos procId ways).All P ↔ P ⟨procId, ways, (infos procId)[ways]?⟩ := by
  simp [Reading.All, readMissRate]

theorem readMissRate_isSome (hP : InRange P) (h : (readMissRate infos procId ways).All P) :
    (readMissRate infos procId ways).value.isSome = true := by
  have hcell := hP _ (readMissRate_all.mp h)
  simpa [readMissRate] using hcell

variable {counts : ℕ → ShadowCounts} {cores : ℕ} {current partition : ℕ → ℕ}

/-- The read of a metric at one core. -/
theorem readMissRate_map_all (hP : InRange P) (f : ℚ → α) :
    (readMissRate infos procId ways >>= fun rate => pure (f rate)).All P ↔ P ⟨procId, ways, (infos procId)[ways]?⟩ := by
  rw [Reading.all_bind (readMissRate_isSome hP) (C := True) (by simp), readMissRate_all, and_true]

theorem readMissRate_map_isSome (hP : InRange P) (f : ℚ → α)
    (h : (readMissRate infos procId ways >>= fun rate => pure (f rate)).All P) :
    (readMissRate infos procId ways >>= fun rate => pure (f rate)).value.isSome = true :=
  Reading.bind_isSome (readMissRate_isSome hP) (fun _ _ => rfl) h

/-- A metric that reads one rate of each core. -/
theorem foldlM_readMissRate_all (hP : InRange P) (f : ℕ → ℚ → ℚ → ℚ) (b : ℚ) :
    ((List.range cores).foldlM (fun b p => readMissRate infos p (partition p) >>= fun rate => pure (f p b rate)) b).All P ↔
      ∀ p < cores, P ⟨p, partition p, (infos p)[partition p]?⟩ := by
  rw [Reading.all_foldlM (C := fun p => P ⟨p, partition p, (infos p)[partition p]?⟩)
    (fun b p => readMissRate_map_isSome hP (f p b)) fun b p => readMissRate_map_all hP (f p b)]
  simp

/-- The reads of two rates. -/
def readTwo (infos : ℕ → MissRates) (procId ways ways' : ℕ) (f : ℚ → ℚ → ℚ) : Reading ℚ :=
  readMissRate infos procId ways >>= fun rate0 => readMissRate infos procId ways' >>= fun rate => pure (f rate0 rate)

theorem readTwo_all {ways' : ℕ} (hP : InRange P) (f : ℚ → ℚ → ℚ) : (readTwo infos procId ways ways' f).All P ↔
    P ⟨procId, ways, (infos procId)[ways]?⟩ ∧ P ⟨procId, ways', (infos procId)[ways']?⟩ := by
  unfold readTwo
  rw [Reading.all_bind (readMissRate_isSome hP) fun rate0 => readMissRate_map_all hP (f rate0), readMissRate_all]

theorem readTwo_isSome (infos : ℕ → MissRates) (procId ways ways' : ℕ) (hP : InRange P) (f : ℚ → ℚ → ℚ) (h : (readTwo infos procId ways ways' f).All P) :
    (readTwo infos procId ways ways' f).value.isSome = true :=
  Reading.bind_isSome (readMissRate_isSome hP) (fun rate0 => readMissRate_map_isSome hP (f rate0)) h

/-- A metric that reads two rates of each core. -/
theorem foldlM_readTwo_all (hP : InRange P) (f : ℕ → ℚ → ℚ → ℚ → ℚ) (b : ℚ) :
    ((List.range cores).foldlM (fun b p => readTwo infos p (current p) (partition p) (f p b)) b >>= fun product =>
      pure (-product)).All P ↔
        ∀ p < cores, P ⟨p, current p, (infos p)[current p]?⟩ ∧ P ⟨p, partition p, (infos p)[partition p]?⟩ := by
  have hall := Reading.all_foldlM
    (C := fun p => P ⟨p, current p, (infos p)[current p]?⟩ ∧ P ⟨p, partition p, (infos p)[partition p]?⟩)
    (fun b p => readTwo_isSome infos p (current p) (partition p) hP (f p b)) (fun b p => readTwo_all hP (f p b))
    (List.range cores) b
  rw [Reading.all_bind (C := True) (Reading.foldlM_isSome (fun b p => readTwo_isSome _ _ _ _ hP (f p b)) _ _) (by simp), hall,
    and_true]
  simp

/-- The reads of a metric: the rates for the partition, and before each of them the one for the current partition
where it is the performance. -/
theorem metricFunc_all (hP : InRange P) (metric : CachePartMetric) :
    (metricFunc counts infos cores current partition metric).All P ↔
      (∀ p < cores, P ⟨p, partition p, (infos p)[partition p]?⟩) ∧
        (metric = .gmeanPerf → ∀ p < cores, P ⟨p, current p, (infos p)[current p]?⟩) := by
  cases metric with
  | globalMissRate =>
      refine (foldlM_readMissRate_all hP (fun p sum rate => sum + rate * (counts p).shadowAccesses) 0).trans ?_
      simp
  | missRateSum =>
      refine (foldlM_readMissRate_all hP (fun _ sum rate => sum + rate) 0).trans ?_
      simp
  | gmeanPerf =>
      refine (foldlM_readTwo_all hP (fun p product missRate0 missRate => product *
        if missRate0 = 0 ∨ ((counts p).blocked / (counts p).cycles : ℚ) = 0 then if partition p = 1 then 1 else 0
        else 1 / (1 + (missRate / missRate0 - 1) * ((counts p).blocked / (counts p).cycles))) 1).trans ?_
      simp only [forall_and, forall_const]
      exact and_comm

end

/-! ## The law of the metrics -/

/-- A read gives a measured rate, and for the candidate partition the rate of the number of ways that it asks for. -/
def RateRead.Right (counts : ℕ → ShadowCounts) (partition : ℕ → ℕ) (r : RateRead) : Prop :=
  r.Measured ∧ (r.ways = partition r.procId → r.cell = some (some ((counts r.procId).missRate r.ways)))

/-- Every metric reads, for each core, the rate for one way more than the core would get. It reads only measured cells,
and rates that are those of the partition, exactly when the way that comes on top has no hits, and lies with
all cells that are read inside the measured ones. -/
theorem metricFunc_right_iff (metric : CachePartMetric) (assoc cores : ℕ) (past : ℕ → List ShadowCounts)
    (counts : ℕ → ShadowCounts) (current partition : ℕ → ℕ) :
    (metricFunc counts (fun p => missRates assoc (past p ++ [counts p])) cores current partition metric).All
        (RateRead.Right counts partition) ↔
      (∀ p < cores, partition p + 1 < assoc ∧ (counts p).wayHits (partition p) = 0) ∧
        (metric = .gmeanPerf → ∀ p < cores, current p + 1 < assoc) := by
  have hrange : InRange (RateRead.Right counts partition) := by
    rintro r ⟨⟨rate, hrate⟩, -⟩
    rw [hrate]
    rfl
  have hmeasured (p ways : ℕ) : RateRead.Measured ⟨p, ways, (missRates assoc (past p ++ [counts p]))[ways]?⟩ ↔
      ways + 1 < assoc := by
    unfold RateRead.Measured
    rw [missRates_getElem?]
    by_cases hin : ways + 1 < assoc
    · simp [hin]
    · rw [if_neg hin]
      split
      · simp [hin]
      · simp [hin]
  have hcandidate (p : ℕ) : RateRead.Right counts partition
      ⟨p, partition p, (missRates assoc (past p ++ [counts p]))[partition p]?⟩ ↔
        partition p + 1 < assoc ∧ (counts p).wayHits (partition p) = 0 := by
    unfold RateRead.Right
    rw [hmeasured]
    refine and_congr_right fun hin => ?_
    rw [missRates_getElem?, if_pos hin]
    simp only [forall_const, Option.some.injEq]
    exact (counts p).missRate_succ_eq_iff (partition p)
  rw [metricFunc_all hrange]
  simp only [hcandidate]
  refine and_congr_right fun hright => imp_congr_right fun _ => forall₂_congr fun p hp => ?_
  constructor
  · intro h
    exact (hmeasured p (current p)).mp h.1
  · intro hin
    refine ⟨(hmeasured p (current p)).mpr hin, ?_⟩
    intro hsame
    dsimp only at hsame ⊢
    rw [hsame]
    exact ((hcandidate p).mpr (hright p hp)).2 rfl

/-- Ten accesses with one hit, at position 2. -/
def oneHit : ShadowCounts where
  shadowAccesses := 10
  wayHits k := if k = 2 then 1 else 0
  blocked := 5
  cycles := 10
  hits_le n := by
    rw [Finset.sum_ite_eq']
    split
    · decide
    · decide

/-- Two of four ways for each of two cores: the sum of the miss rates is that of three ways each. -/
theorem metricFunc_three_ways :
    ¬ (metricFunc (fun _ => oneHit) (fun _ => missRates 4 [oneHit]) 2 (fun _ => 2) (fun _ => 2) .missRateSum).All
      (RateRead.Right (fun _ => oneHit) fun _ => 2) := by
  intro h
  have hread : (⟨0, 2, some (some (9 / 10))⟩ : RateRead) ∈
      (metricFunc (fun _ => oneHit) (fun _ => missRates 4 [oneHit]) 2 (fun _ => 2) (fun _ => 2) .missRateSum).reads := by
    decide +kernel
  have hrate : (some (some (9 / 10)) : Option (Option ℚ)) = some (some (oneHit.missRate 2)) := (h _ hread).2 rfl
  revert hrate
  decide +kernel

end Scarab.Memory
