import Mathlib.Algebra.Group.Nat.Defs
import Mathlib.Logic.Function.Basic
import Scarab.Prefetcher.Types

/-! # Parameters and tables of the signature path prefetcher

`pref_spp.param.def` and `pref_spp.h`. Signatures, tags, hashes and addresses keep
their machine width. Counters and positions are `ℕ` wherever the code keeps them
below the width, and are reduced explicitly in the places where it does not. -/

namespace Scarab.Spp

/-- The knobs of `pref_spp.param.def`, with the two sizes of `memory.param.def` and
the two knobs of `pref.param.def` that the prefetcher reads. The proofs say that
the tables exist (the code divides by the set counts and reads way 0) and that no
shift amount reaches the width of its operand. -/
structure Params where
  lookaheadOn : Bool
  filterOn : Bool
  ghrOn : Bool
  maxDepth : ℕ
  pfThreshold : ℕ
  issueThreshold : ℕ
  fillThreshold : ℕ
  stSet : ℕ
  stWay : ℕ
  stTagBit : ℕ
  sigShift : ℕ
  sigBit : ℕ
  sigDeltaBit : ℕ
  ptSet : ℕ
  ptWay : ℕ
  cSigBit : ℕ
  cDeltaBit : ℕ
  quotientBit : ℕ
  remainderBit : ℕ
  ghrEntries : ℕ
  globalCtrBit : ℕ
  prefReportPrefMatchAsHit : Bool
  prefReportPrefMatchAsMiss : Bool
  /-- `LOG2(DCACHE_LINE_SIZE)`; the size is a power of two. -/
  log2Line : ℕ
  /-- `LOG2(VA_PAGE_SIZE_BYTES)`; the size is a power of two. -/
  log2Page : ℕ
  stSet_pos : 0 < stSet
  stWay_pos : 0 < stWay
  ptSet_pos : 0 < ptSet
  ptWay_pos : 0 < ptWay
  stTagBit_lt : stTagBit < 32
  sigShift_lt : sigShift < 32
  sigBit_lt : sigBit < 32
  sigDeltaBit_pos : 0 < sigDeltaBit
  sigDeltaBit_le : sigDeltaBit ≤ 32
  cSigBit_lt : cSigBit < 32
  cDeltaBit_lt : cDeltaBit < 32
  quotientBit_lt : quotientBit < 32
  remainderBit_lt : remainderBit < 64
  globalCtrBit_lt : globalCtrBit < 32
  line_le_page : log2Line ≤ log2Page
  page_lt : log2Page < 32

/-- The default of every parameter. -/
def Params.default : Params where
  lookaheadOn := true
  filterOn := true
  ghrOn := true
  maxDepth := 16
  pfThreshold := 25
  issueThreshold := 0
  fillThreshold := 90
  stSet := 1
  stWay := 256
  stTagBit := 16
  sigShift := 3
  sigBit := 12
  sigDeltaBit := 7
  ptSet := 512
  ptWay := 4
  cSigBit := 4
  cDeltaBit := 4
  quotientBit := 10
  remainderBit := 6
  ghrEntries := 8
  globalCtrBit := 10
  prefReportPrefMatchAsHit := true
  prefReportPrefMatchAsMiss := false
  log2Line := 6
  log2Page := 12
  stSet_pos := by decide
  stWay_pos := by decide
  ptSet_pos := by decide
  ptWay_pos := by decide
  stTagBit_lt := by decide
  sigShift_lt := by decide
  sigBit_lt := by decide
  sigDeltaBit_pos := by decide
  sigDeltaBit_le := by decide
  cSigBit_lt := by decide
  cDeltaBit_lt := by decide
  quotientBit_lt := by decide
  remainderBit_lt := by decide
  globalCtrBit_lt := by decide
  line_le_page := by decide
  page_lt := by decide

namespace Params

variable (p : Params)

/-- `DCACHE_LINE_SIZE`. -/
def dcacheLineSize : ℕ := 2 ^ p.log2Line

/-- `VA_PAGE_SIZE_BYTES`. -/
def vaPageSizeBytes : ℕ := 2 ^ p.log2Page

def linesPerPage : ℕ := p.vaPageSizeBytes / p.dcacheLineSize

/-! ## Constants derived in `pref_spp_init` -/

def sigMask : Uns := 1#32 <<< p.sigBit - 1#32

def sigDeltaSignBit : Uns := 1#32 <<< (p.sigDeltaBit - 1)

def stTagMask : Uns := 1#32 <<< p.stTagBit - 1#32

def filterSet : ℕ := 2 ^ p.quotientBit

def globalCounterMax : ℕ := 2 ^ p.globalCtrBit - 1

/-! ## Constants derived where they are used -/

/-- `c_sig_max` in `spp_pt_update_pattern`. -/
def cSigMax : ℕ := 2 ^ p.cSigBit - 1

/-- The bound a way's counter saturates at. -/
def cDeltaMax : ℕ := 2 ^ p.cDeltaBit - 1

/-- `offs_mask` in `spp_operate`. -/
def offsMask : Addr := BitVec.ofNat 64 (p.linesPerPage - 1)

/-- `addr & ~((Addr)(DCACHE_LINE_SIZE - 1))`. -/
def lineBase (addr : Addr) : Addr := addr &&& ~~~(BitVec.ofNat 64 (p.dcacheLineSize - 1))

/-- `addr & ~((Addr)(VA_PAGE_SIZE_BYTES - 1))`. -/
def pageBase (addr : Addr) : Addr := addr &&& ~~~(BitVec.ofNat 64 (p.vaPageSizeBytes - 1))

/-- `(uns)((addr >> log2_line) & offs_mask)`. -/
def pageOffset (addr : Addr) : ℕ := ((addr >>> p.log2Line) &&& p.offsMask).toNat

/-- `(Addr)((int64)delta << log2_line)`. -/
def deltaBytes (delta : ℤ) : Addr := BitVec.ofInt 64 delta <<< p.log2Line

/-- `issue_cutoff`: a threshold of 0 means "use PF_THRESHOLD". -/
def issueCutoff : ℕ := if p.issueThreshold = 0 then p.pfThreshold else p.issueThreshold

end Params

/-! ## Tables -/

/-- Filter request types. -/
inductive SppFilterReq where
  | l2Prefetch
  | llcPrefetch
  | demand
  | evict
  deriving DecidableEq, Repr

/-- Signature Table: per-page recent access trail compressed into a signature. -/
structure SppStEntry where
  valid : Bool
  tag : Uns
  sig : Uns
  lastOffset : ℕ
  lru : ℕ
  deriving DecidableEq, Repr

/-- Pattern Table way: a delta and its saturating confidence counter. -/
structure SppPtWay where
  delta : ℤ
  cDelta : ℕ
  deriving DecidableEq, Repr

/-- Pattern Table set: `cSig` normalises the counters of the ways. -/
structure SppPtSet where
  ways : List SppPtWay
  cSig : ℕ
  deriving DecidableEq, Repr

structure SppFilterEntry where
  valid : Bool
  useful : Bool
  remainderTag : Uns
  deriving DecidableEq, Repr

/-- Global History Register: an outstanding prefetch across a page boundary. -/
structure SppGhrEntry where
  valid : Bool
  sig : Uns
  confidence : ℕ
  offset : ℕ
  delta : ℤ
  deriving DecidableEq, Repr

/-- The single prefetcher instance. The arrays indexed by a hash are total functions
of the index; a row, and the GHR, is a list of its entries. -/
structure PrefSpp where
  /-- `hwp_info->id`. -/
  hwpId : Uns8
  st : ℕ → List SppStEntry
  pt : ℕ → SppPtSet
  filter : ℕ → SppFilterEntry
  ghr : List SppGhrEntry
  pfUseful : ℕ
  pfIssued : ℕ
  globalAccuracyPct : ℕ

/-- `pref_spp_init`, with the parameter `PREF_SPP_ON` set. -/
def prefSppInit (p : Params) (hwpId : Uns8) : Except String PrefSpp :=
  if p.prefReportPrefMatchAsHit ∨ p.prefReportPrefMatchAsMiss then
    .ok
      { hwpId
        st := fun _ => (List.range p.stWay).map fun w => ⟨false, 0, 0, 0, w⟩
        pt := fun _ => ⟨List.replicate p.ptWay ⟨0, 0⟩, 0⟩
        filter := fun _ => ⟨false, false, 0⟩
        ghr := List.replicate p.ghrEntries ⟨false, 0, 0, 0, 0⟩
        pfUseful := 0
        pfIssued := 0
        globalAccuracyPct := 0 }
  else .error "SPP must train on demands that match outstanding prefetches\n"

end Scarab.Spp
