import Scarab.Prefetcher.Spp.Operate

/-! # The prefetch filter as a machine of its own

The filter and the two accuracy counters form a state that only demands and the
candidates of a demand's own page change. The machine below runs on the history of
the prefetcher; `sppFilterCheck` and the counting code are its steps. -/

namespace Scarab.Spp

structure FilterState where
  slot : ℕ → SppFilterEntry
  useful : ℕ
  issued : ℕ

namespace FilterState

variable (p : Params) (F : FilterState)

def empty : FilterState := ⟨fun _ => ⟨false, false, 0⟩, 0, 0⟩

/-- A candidate line is suppressed. -/
def rejects (addr : Addr) : Bool :=
  p.filterOn && (F.slot (quotient p addr)).blocks (remainder p addr)

/-- A demand finds its tag in its slot, not used so far. -/
def hitBy (addr : Addr) : Bool :=
  p.filterOn && ((F.slot (quotient p addr)).remainderTag == remainder p addr &&
    !(F.slot (quotient p addr)).useful)

/-- Take the slot of a line for a high-confidence prefetch of it. -/
def record (addr : Addr) : FilterState :=
  if p.filterOn then
    { F with slot := Function.update F.slot (quotient p addr) ⟨true, false, remainder p addr⟩ }
  else F

def markUseful (addr : Addr) : FilterState :=
  { F with
    slot := Function.update F.slot (quotient p addr)
      { F.slot (quotient p addr) with useful := true } }

def countUseful : FilterState :=
  if F.useful + 1 > p.globalCounterMax then
    { F with useful := (F.useful + 1) >>> 1, issued := F.issued >>> 1 }
  else { F with useful := F.useful + 1 }

def countIssued : FilterState :=
  if F.issued + 1 > p.globalCounterMax then
    { F with issued := (F.issued + 1) >>> 1, useful := F.useful >>> 1 }
  else { F with issued := F.issued + 1 }

/-- A demand for a line. -/
def use (addr : Addr) : FilterState :=
  if F.hitBy p addr then
    if (F.slot (quotient p addr)).valid then (F.markUseful p addr).countUseful p
    else F.markUseful p addr
  else F

/-- What an event does to the filter. -/
def apply : SppEvent → FilterState
  | .demand addr => F.use p addr
  | .candidate .l2Prefetch addr .refused => F.record p addr
  | .candidate .l2Prefetch addr .queued => (F.record p addr).countIssued p
  | _ => F

/-- The state after a history. -/
def replay (h : List SppEvent) : FilterState := h.foldl (apply p) empty

@[simp] theorem replay_nil : replay p [] = empty := rfl

@[simp] theorem replay_concat (h : List SppEvent) (e : SppEvent) :
    replay p (h ++ [e]) = (replay p h).apply p e := by
  simp [replay]

end FilterState

/-! ## The filter of the prefetcher -/

namespace PrefSpp

def filterState (spp : PrefSpp) : FilterState := ⟨spp.filter, spp.pfUseful, spp.pfIssued⟩

def withFilter (spp : PrefSpp) (F : FilterState) : PrefSpp :=
  { spp with filter := F.slot, pfUseful := F.useful, pfIssued := F.issued }

variable (spp : PrefSpp) (F : FilterState)

@[simp] theorem filterState_withFilter : (spp.withFilter F).filterState = F := rfl
@[simp] theorem withFilter_st : (spp.withFilter F).st = spp.st := rfl
@[simp] theorem withFilter_pt : (spp.withFilter F).pt = spp.pt := rfl
@[simp] theorem withFilter_ghr : (spp.withFilter F).ghr = spp.ghr := rfl
@[simp] theorem withFilter_hwpId : (spp.withFilter F).hwpId = spp.hwpId := rfl
@[simp] theorem withFilter_globalAccuracyPct :
    (spp.withFilter F).globalAccuracyPct = spp.globalAccuracyPct := rfl
@[simp] theorem withFilter_withFilter (G : FilterState) :
    (spp.withFilter F).withFilter G = spp.withFilter G := rfl
@[simp] theorem withFilter_filterState : spp.withFilter spp.filterState = spp := rfl

end PrefSpp

variable {p : Params}

theorem countUseful_eq (spp : PrefSpp) :
    countUseful p spp = spp.withFilter (spp.filterState.countUseful p) := by
  by_cases h : spp.pfUseful + 1 > p.globalCounterMax
  · simp [countUseful, FilterState.countUseful, PrefSpp.filterState, PrefSpp.withFilter, h]
  · simp [countUseful, FilterState.countUseful, PrefSpp.filterState, PrefSpp.withFilter, h]

theorem countIssued_eq (spp : PrefSpp) :
    countIssued p spp = spp.withFilter (spp.filterState.countIssued p) := by
  by_cases h : spp.pfIssued + 1 > p.globalCounterMax
  · simp [countIssued, FilterState.countIssued, PrefSpp.filterState, PrefSpp.withFilter, h]
  · simp [countIssued, FilterState.countIssued, PrefSpp.filterState, PrefSpp.withFilter, h]

theorem sppFilterCheck_demand (spp : PrefSpp) (addr : Addr) :
    sppFilterCheck p spp addr .demand = (true, spp.withFilter (spp.filterState.use p addr)) := by
  unfold sppFilterCheck FilterState.use FilterState.hitBy
  cases hf : p.filterOn with
  | false => simp
  | true =>
      simp only [Bool.not_true, Bool.false_eq_true, ite_false, Bool.true_and]
      by_cases hm : ((spp.filter (quotient p addr)).remainderTag == remainder p addr &&
          !(spp.filter (quotient p addr)).useful) = true
      · cases hv : (spp.filter (quotient p addr)).valid with
        | true =>
            simp only [PrefSpp.filterState, hm, hv, ite_true, countUseful_eq]
            simp [FilterState.markUseful, PrefSpp.withFilter, hv]
        | false =>
            simp only [PrefSpp.filterState, hm, hv, ite_true, Bool.false_eq_true, ite_false]
            simp [FilterState.markUseful, PrefSpp.withFilter, hv]
      · simp only [PrefSpp.filterState, hm]
        rfl

theorem sppFilterCheck_l2Prefetch (spp : PrefSpp) (addr : Addr) :
    sppFilterCheck p spp addr .l2Prefetch =
      if spp.filterState.rejects p addr then (false, spp)
      else (true, spp.withFilter (spp.filterState.record p addr)) := by
  unfold sppFilterCheck FilterState.rejects FilterState.record
  cases hf : p.filterOn with
  | false => simp
  | true => rfl

theorem sppFilterCheck_llcPrefetch (spp : PrefSpp) (addr : Addr) :
    sppFilterCheck p spp addr .llcPrefetch = (!spp.filterState.rejects p addr, spp) := by
  unfold sppFilterCheck FilterState.rejects
  cases hf : p.filterOn with
  | false => simp
  | true => rfl

theorem grade_eq (conf : ℕ) :
    (grade p conf = .l2Prefetch ∧ p.fillThreshold ≤ conf) ∨
      (grade p conf = .llcPrefetch ∧ conf < p.fillThreshold) := by
  unfold grade
  by_cases h : p.fillThreshold ≤ conf
  · simp [h]
  · simp [h, Nat.lt_of_not_le h]

end Scarab.Spp
