import Mathlib.Logic.Function.Basic
import Scarab.Prefetcher.Request

/-! # The 2-delta correlation prefetcher

`pref_2dc.c`, over an arbitrary cache of deltas. Its requests carry a literal 0 for the
core, and a line is the sum of the demand's line and of deltas from the cache, which any
core may have put there. -/

namespace Scarab.TwoDc

/-- The knobs of `pref_2dc.param.def`, and the line size. -/
structure Params where
  degree : ℕ
  zoneShift : ℕ
  tagSize : ℕ
  regionHash : ℕ
  /-- `LOG2(PREF_2DC_CACHE_SIZE / 4)`. -/
  cacheIndexBits : ℕ
  log2Line : ℕ

/-- The default of every parameter. -/
def Params.default : Params := ⟨16, 10, 16, 61, 8, 6⟩

/-- `cache_lib` with a `Pref_2DC_Cache_Data` in every line. -/
structure DeltaCache (γ : Type) where
  /-- `cache_access`: the delta of the line, if there is one. -/
  access : Addr → γ → Option CInt × γ
  /-- `cache_insert` of a line that is not there. -/
  insert : Addr → γ → γ
  /-- `data->delta = delta`, in a line that is there. -/
  write : Addr → CInt → γ → γ

structure Region where
  deltaA : CInt
  deltaB : CInt
  deltaC : CInt
  deriving DecidableEq, Repr

/-- The single instance of the prefetcher; all cores share it. -/
structure Pref2dc (γ : Type) where
  /-- `hwp_info->id`. -/
  hwpId : Uns8
  cache : γ
  lastAccess : Addr
  lastLoadPC : Addr
  regions : ℕ → Region

variable {γ : Type} (p : Params) (cache : DeltaCache γ)

/-- `pref_2dc_init`, with the cache that `init_cache` makes. -/
def pref2dcInit (hwpId : Uns8) (c : γ) : Pref2dc γ := ⟨hwpId, c, 0, 0, fun _ => ⟨0, 0, 0⟩⟩

/-- `N_BIT_MASK`. -/
def nBitMask (n : ℕ) : Addr := 1#64 <<< n - 1#64

/-- `pref_2dc_hash`. The tag bits and the shift of them are 32 bits wide. -/
def pref2dcHash (lineIndex : Addr) (deltaA deltaB : CInt) : Addr :=
  let bitsA := p.cacheIndexBits / 2
  let bitsB := p.cacheIndexBits - bitsA
  let tagbits : Uns :=
    ((((deltaA.sshiftRight bitsA ^^^ deltaB.sshiftRight bitsB).signExtend 64) ^^^
      lineIndex >>> p.zoneShift) &&& nBitMask p.tagSize).setWidth 32
  (deltaA.signExtend 64 &&& nBitMask bitsA) |||
    ((deltaB.signExtend 64 &&& nBitMask bitsB) <<< bitsA) |||
    (tagbits <<< p.cacheIndexBits).setWidth 64

/-- The region of a line. -/
def regionOf (lineIndex : Addr) : ℕ := (lineIndex >>> p.zoneShift).toNat % p.regionHash

/-! ## Training -/

/-- The two last deltas of the region predict the new one; whether the call goes on. -/
def Pref2dc.correlate (s : Pref2dc γ) (region : Region) (delta : CInt) (ul1Hit : Bool) :
    Bool × Pref2dc γ :=
  if region.deltaA ≠ 0 ∧ region.deltaB ≠ 0 ∧
      ¬ (region.deltaA = region.deltaB ∧ region.deltaB = delta) then
    let hash := pref2dcHash p s.lastAccess region.deltaA region.deltaB
    match cache.access hash s.cache with
    | (some _, c) => (true, { s with cache := cache.write hash delta c })
    | (none, c) =>
        -- inserted only on a miss
        if ul1Hit then (false, { s with cache := c })
        else (true, { s with cache := cache.write hash delta (cache.insert hash c) })
  else (true, s)

/-- `pref_2dc_ul1_train` up to the prefetches; whether the call goes on. -/
def Pref2dc.learn (s : Pref2dc γ) (lineIndex loadPC : Addr) (ul1Hit : Bool) : Bool × Pref2dc γ :=
  let region := s.regions (regionOf p lineIndex)
  if s.lastAccess ≠ 0 then
    let delta := (lineIndex - s.lastAccess).setWidth 32
    if delta = 0 then (false, s)
    else
      match s.correlate p cache region delta ul1Hit with
      | (false, s) => (false, s)
      | (true, s) =>
          (true, { s with
            regions := Function.update s.regions (regionOf p lineIndex)
              ⟨delta, region.deltaA, region.deltaB⟩
            lastAccess := lineIndex, lastLoadPC := loadPC })
  else (true, { s with lastAccess := lineIndex, lastLoadPC := loadPC })

/-! ## Sending -/

/-- A position in the walk along the predicted deltas. -/
structure Walk where
  lineIndex : Addr
  delta1 : CInt
  delta2 : CInt

/-- The next position, if the cache has a delta for the last two. -/
def Walk.next (w : Walk) (c : γ) : Option Walk × γ :=
  match cache.access (pref2dcHash p w.lineIndex w.delta1 w.delta2) c with
  | (some delta, c) => (some ⟨w.lineIndex + delta.signExtend 64, w.delta2, delta⟩, c)
  | (none, c) => (none, c)

/-- The strides of a strided access. -/
def Walk.stride (w : Walk) : Walk := { w with lineIndex := w.lineIndex + w.delta2.signExtend 64 }

section

variable {κ : Type} (addto : Ul1Queue κ)

/-- The request for a line. -/
def request (hwpId : Uns8) (lineIndex loadPC : Addr) : Ul1Request :=
  ⟨0, lineIndex, hwpId, 0, loadPC, 0, false⟩

/-- The loop for a strided access. -/
def strideLoop (hwpId : Uns8) (loadPC : Addr) : ℕ → Walk → κ → κ
  | 0, _, k => k
  | n + 1, w, k =>
      strideLoop hwpId loadPC n w.stride (addto (request hwpId w.stride.lineIndex loadPC) k).2

/-- The loop that follows the cache. -/
def walkLoop (hwpId : Uns8) (loadPC : Addr) : ℕ → Walk → γ → κ → γ × κ
  | 0, _, c, k => (c, k)
  | n + 1, w, c, k =>
      match w.next p cache c with
      | (some w, c) => walkLoop hwpId loadPC n w c (addto (request hwpId w.lineIndex loadPC) k).2
      | (none, c) => (c, k)

/-- `pref_2dc_ul1_train`. -/
def pref2dcUl1Train (s : Pref2dc γ) (lineAddr loadPC : Addr) (ul1Hit : Bool) (k : κ) :
    Pref2dc γ × κ :=
  let lineIndex := lineAddr >>> p.log2Line
  match s.learn p cache lineIndex loadPC ul1Hit with
  | (false, s) => (s, k)
  | (true, s) =>
      let region := s.regions (regionOf p lineIndex)
      if region.deltaA = 0 ∨ region.deltaB = 0 then (s, k)
      else if region.deltaA = region.deltaB ∧ region.deltaB = region.deltaC then
        (s, strideLoop addto s.hwpId loadPC p.degree ⟨lineIndex, region.deltaB, region.deltaA⟩ k)
      else
        let (c, k) :=
          walkLoop p cache addto s.hwpId loadPC p.degree ⟨lineIndex, region.deltaB, region.deltaA⟩
            s.cache k
        ({ s with cache := c }, k)

/-- `pref_2dc_ul1_miss`. -/
def pref2dcUl1Miss (_procId : Uns8) (s : Pref2dc γ) (lineAddr loadPC : Addr) (k : κ) :
    Pref2dc γ × κ :=
  pref2dcUl1Train p cache addto s lineAddr loadPC false k

/-- `pref_2dc_ul1_prefhit`. -/
def pref2dcUl1Prefhit (_procId : Uns8) (s : Pref2dc γ) (lineAddr loadPC : Addr) (k : κ) :
    Pref2dc γ × κ :=
  pref2dcUl1Train p cache addto s lineAddr loadPC true k

end

/-! ## What is asked for -/

/-- The lines of a strided access. -/
def strideLines : ℕ → Walk → List Addr
  | 0, _ => []
  | n + 1, w => w.stride.lineIndex :: strideLines n w.stride

/-- The lines that the cache leads to. -/
def walkLines : ℕ → Walk → γ → List Addr
  | 0, _, _ => []
  | n + 1, w, c =>
      match w.next p cache c with
      | (some w, c) => w.lineIndex :: walkLines n w c
      | (none, _) => []

/-- The lines that come up for an address, given what has been learned from it. -/
def Pref2dc.upcoming (s : Pref2dc γ) (lineIndex : Addr) : List Addr :=
  let region := s.regions (regionOf p lineIndex)
  if region.deltaA = 0 ∨ region.deltaB = 0 then []
  else if region.deltaA = region.deltaB ∧ region.deltaB = region.deltaC then
    strideLines p.degree ⟨lineIndex, region.deltaB, region.deltaA⟩
  else walkLines p cache p.degree ⟨lineIndex, region.deltaB, region.deltaA⟩ s.cache

/-- Nothing comes up for an address, or it is core 0's and so is all that comes up. -/
def Pref2dc.StaysInCore (s : Pref2dc γ) (procId : Uns8) (lineAddr loadPC : Addr) (ul1Hit : Bool) :
    Prop :=
  ∀ s', s.learn p cache (lineAddr >>> p.log2Line) loadPC ul1Hit = (true, s') →
    ∀ line ∈ s'.upcoming p cache (lineAddr >>> p.log2Line),
      procId = 0 ∧ LineOf p.log2Line 0 line

variable {p cache} {κ : Type} {addto : Ul1Queue κ} {procId : Uns8}

theorem request_onBehalfOf {hwpId : Uns8} {lineIndex loadPC : Addr}
    (h : procId = 0 ∧ LineOf p.log2Line 0 lineIndex) :
    (request hwpId lineIndex loadPC).OnBehalfOf p.log2Line procId := by
  obtain ⟨rfl, hline⟩ := h
  exact ⟨rfl, hline⟩

theorem strideLoop_asks {hwpId : Uns8} {loadPC : Addr} {n : ℕ} {w : Walk} {k : κ}
    (h : ∀ line ∈ strideLines n w, procId = 0 ∧ LineOf p.log2Line 0 line) :
    AsksOnly addto (·.OnBehalfOf p.log2Line procId) k (strideLoop addto hwpId loadPC n w k) := by
  induction n generalizing w k with
  | zero => exact .refl k
  | succ n ih =>
      simp only [strideLines, List.mem_cons, forall_eq_or_imp] at h
      exact AsksOnly.head (request_onBehalfOf h.1) (ih h.2)

theorem walkLoop_asks {hwpId : Uns8} {loadPC : Addr} {n : ℕ} {w : Walk} {c : γ} {k : κ}
    (h : ∀ line ∈ walkLines p cache n w c, procId = 0 ∧ LineOf p.log2Line 0 line) :
    AsksOnly addto (·.OnBehalfOf p.log2Line procId) k
      (walkLoop p cache addto hwpId loadPC n w c k).2 := by
  induction n generalizing w c k with
  | zero => exact .refl k
  | succ n ih =>
      unfold walkLoop
      cases hn : w.next p cache c with
      | mk w' c' =>
          cases w' with
          | none => exact .refl k
          | some w' =>
              simp only [walkLines, hn, List.mem_cons, forall_eq_or_imp] at h
              exact AsksOnly.head (request_onBehalfOf h.1) (ih h.2)

/-- Training asks only for the demand's core, as long as the deltas stay in core 0. -/
theorem train_asks {s : Pref2dc γ} {lineAddr loadPC : Addr} {ul1Hit : Bool} {k : κ}
    (h : s.StaysInCore p cache procId lineAddr loadPC ul1Hit) :
    AsksOnly addto (·.OnBehalfOf p.log2Line procId) k
      (pref2dcUl1Train p cache addto s lineAddr loadPC ul1Hit k).2 := by
  cases hl : s.learn p cache (lineAddr >>> p.log2Line) loadPC ul1Hit with
  | mk goesOn s' =>
      cases goesOn with
      | false =>
          simp only [pref2dcUl1Train, hl]
          exact .refl k
      | true =>
          have hlines := h s' hl
          simp only [Pref2dc.upcoming] at hlines
          simp only [pref2dcUl1Train, hl]
          split
          · exact .refl k
          · rename_i hdeltas
            rw [if_neg hdeltas] at hlines
            split
            · rename_i hstride
              rw [if_pos hstride] at hlines
              exact strideLoop_asks hlines
            · rename_i hstride
              rw [if_neg hstride] at hlines
              exact walkLoop_asks hlines

end Scarab.TwoDc
