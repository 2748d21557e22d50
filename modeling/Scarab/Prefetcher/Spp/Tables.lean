import Scarab.Prefetcher.Spp.State
import Scarab.Lib.Argmin

/-! # The table operations of `pref_spp.c`

Each operation is stated on the row or table it touches and then on the whole
prefetcher. A failed `ASSERTM` is the error carrying its message. -/

namespace Scarab.Spp

/-- `spp_hash64`. -/
def sppHash64 (key : Uns64) : Uns64 :=
  let key := key + (key <<< 12)
  let key := key ^^^ (key >>> 22)
  let key := key + (key <<< 4)
  let key := key ^^^ (key >>> 9)
  let key := key + (key <<< 10)
  let key := key ^^^ (key >>> 2)
  let key := key + (key <<< 7)
  let key := key ^^^ (key >>> 12)
  (key >>> 3) * 2654435761#64

/-- `spp_encode_sig_delta`: sign and magnitude. -/
def sppEncodeSigDelta (p : Params) (delta : ℤ) : Uns :=
  if delta < 0 then BitVec.ofInt 32 (-delta) + p.sigDeltaSignBit else BitVec.ofInt 32 delta

/-! ## Signature Table -/

/-- What `spp_st_read_and_update` hands back through its pointers. -/
structure SppStOut where
  lastSig : Uns
  currSig : Uns
  delta : ℤ
  deriving DecidableEq, Repr

/-- The set of a page and the tag it is stored under. -/
def stSetOf (p : Params) (page : Addr) : ℕ := (sppHash64 page).toNat % p.stSet

def partialPage (p : Params) (page : Addr) : Uns := (page &&& p.stTagMask.setWidth 64).setWidth 32

def stMatch (row : List SppStEntry) (tag : Uns) : Option ℕ :=
  row.findIdx? fun e => e.valid && e.tag == tag

/-- Case 1: the entry of a page that is present, and the outputs. A repeated offset
leaves the entry alone and reports no previous signature. -/
def stHit (p : Params) (e : SppStEntry) (pageOffset : ℕ) : SppStEntry × SppStOut :=
  let delta := (pageOffset : ℤ) - e.lastOffset
  if delta ≠ 0 then
    let sigDelta := sppEncodeSigDelta p delta
    let sig := ((e.sig <<< p.sigShift) ^^^ sigDelta) &&& p.sigMask
    ({ e with sig, lastOffset := pageOffset }, ⟨e.sig, sig, delta⟩)
  else (e, ⟨0, 0, delta⟩)

/-- Cases 2 and 3: the way a page that is absent is installed in. -/
def stVictim (p : Params) (row : List SppStEntry) : Except String ℕ :=
  match row.findIdx? fun e => !e.valid with
  | some w => .ok w
  | none =>
      match row.findIdx? fun e => e.lru == p.stWay - 1 with
      | some w => .ok w
      | none => .error "[SPP-ST] LRU victim not found\n"

/-- The GHR fall-back: among the entries that predicted this landing offset, the
first of the highest confidence, if that is positive. -/
def ghrBest (ghr : List SppGhrEntry) (pageOffset : ℕ) : Option SppGhrEntry :=
  ghr.foldl
    (fun best g =>
      if g.valid ∧ g.offset = pageOffset ∧ (best.elim 0 (·.confidence)) < g.confidence then some g
      else best)
    none

/-- The signature a fresh entry starts from. -/
def ghrBoot (p : Params) (ghr : List SppGhrEntry) (pageOffset : ℕ) : Uns :=
  if p.ghrOn then
    match ghrBest ghr pageOffset with
    | some g => ((g.sig <<< p.sigShift) ^^^ sppEncodeSigDelta p g.delta) &&& p.sigMask
    | none => 0
  else 0

/-- Update LRU: promote way `w` to MRU. -/
def stPromote (p : Params) (row : List SppStEntry) (w : ℕ) : Except String (List SppStEntry) :=
  let matchedLru := (row[w]?.map (·.lru)).getD 0
  if ∀ e ∈ row, e.lru < matchedLru → e.lru + 1 < p.stWay then
    .ok ((row.map fun e => if e.lru < matchedLru then { e with lru := e.lru + 1 } else e).modify w
      fun e => { e with lru := 0 })
  else .error "[SPP-ST] LRU overflow\n"

/-- `spp_st_read_and_update` on the row of the page's set. -/
def stRow (p : Params) (ghr : List SppGhrEntry) (row : List SppStEntry) (tag : Uns)
    (pageOffset : ℕ) : Except String (List SppStEntry × SppStOut) :=
  match stMatch row tag with
  | some w => do
      let e := row[w]?.getD ⟨false, 0, 0, 0, 0⟩
      let (e', out) := stHit p e pageOffset
      let row ← stPromote p (row.set w e') w
      return (row, out)
  | none => do
      let w ← stVictim p row
      let sig := ghrBoot p ghr pageOffset
      let row ← stPromote p
        (row.modify w fun e => { e with valid := true, tag, sig, lastOffset := pageOffset }) w
      return (row, ⟨0, sig, 0⟩)

/-- `spp_st_read_and_update`. -/
def sppStReadAndUpdate (p : Params) (spp : PrefSpp) (page : Addr) (pageOffset : ℕ) :
    Except String (PrefSpp × SppStOut) := do
  let set := stSetOf p page
  let (row, out) ← stRow p spp.ghr (spp.st set) (partialPage p page) pageOffset
  return ({ spp with st := Function.update spp.st set row }, out)

/-! ## Pattern Table -/

def ptSetOf (p : Params) (sig : Uns) : ℕ := (sppHash64 (sig.setWidth 64)).toNat % p.ptSet

/-- Count an occurrence of the signature; on overflow halve every counter of the set. -/
def ptCount (p : Params) (row : SppPtSet) : SppPtSet :=
  if row.cSig + 1 > p.cSigMax then
    { ways := row.ways.map fun w => { w with cDelta := w.cDelta >>> 1 }
      cSig := (row.cSig + 1) >>> 1 }
  else { row with cSig := row.cSig + 1 }

/-- `spp_pt_update_pattern` on the set of the signature: bump the way holding the
delta, or install it in the first way of smallest counter. -/
def ptUpdate (p : Params) (row : SppPtSet) (currDelta : ℤ) : SppPtSet :=
  match row.ways.findIdx? fun w => w.delta == currDelta with
  | some w =>
      ptCount p
        { row with
          ways := row.ways.modify w fun x =>
            if x.cDelta < p.cDeltaMax then { x with cDelta := x.cDelta + 1 } else x }
  | none =>
      ptCount p { row with ways := row.ways.set (Argmin.first (·.cDelta) row.ways) ⟨currDelta, 0⟩ }

/-- `spp_pt_update_pattern`. -/
def sppPtUpdatePattern (p : Params) (spp : PrefSpp) (lastSig : Uns) (currDelta : ℤ) : PrefSpp :=
  let set := ptSetOf p lastSig
  { spp with pt := Function.update spp.pt set (ptUpdate p (spp.pt set) currDelta) }

/-- What `spp_pt_read_pattern` leaves in `conf_q` and `delta_q` up to `pf_q_tail`, and
the next hop it selects. -/
structure SppPtRead where
  queue : List (ℕ × ℤ)
  lookaheadWay : ℕ
  lookaheadConf : ℕ
  deriving DecidableEq, Repr

/-- The confidence of a way at the first hop. -/
def localConf (row : SppPtSet) (w : SppPtWay) : ℕ := 100 * w.cDelta / row.cSig % 2 ^ 32

/-- The confidence of a way: its local confidence at the first hop, weighted by the
global accuracy and the confidence of the path at every later one. -/
def pathConf (row : SppPtSet) (globalAccuracyPct lookaheadConf depth : ℕ) (w : SppPtWay) : ℕ :=
  if depth = 0 then localConf row w
  else
    globalAccuracyPct * w.cDelta % 2 ^ 64 / row.cSig * lookaheadConf % 2 ^ 64 / 100 % 2 ^ 32

/-- The loop over the ways, from way `w` on with the highest confidence so far. -/
def ptScan (p : Params) (conf : SppPtWay → ℕ) :
    List SppPtWay → (w lookaheadWay maxConf : ℕ) → SppPtRead
  | [], _, lookaheadWay, maxConf => ⟨[], lookaheadWay, maxConf⟩
  | way :: ways, w, lookaheadWay, maxConf =>
      if p.pfThreshold ≤ conf way then
        let rest :=
          if maxConf < conf way then ptScan p conf ways (w + 1) w (conf way)
          else ptScan p conf ways (w + 1) lookaheadWay maxConf
        { rest with queue := (conf way, way.delta) :: rest.queue }
      else ptScan p conf ways (w + 1) lookaheadWay maxConf

/-- `spp_pt_read_pattern`. -/
def sppPtReadPattern (p : Params) (spp : PrefSpp) (currSig : Uns) (lookaheadConf depth : ℕ) :
    SppPtRead :=
  let row := spp.pt (ptSetOf p currSig)
  if row.cSig = 0 then ⟨[], p.ptWay, lookaheadConf⟩
  else
    ptScan p (pathConf row spp.globalAccuracyPct lookaheadConf depth) row.ways 0 p.ptWay 0

/-! ## Prefetch Filter -/

/-- The hash of the line of an address. -/
def filterHash (p : Params) (addr : Addr) : Uns64 := sppHash64 (addr >>> p.log2Line)

/-- `quotient`: the filter slot of an address. -/
def quotient (p : Params) (addr : Addr) : ℕ :=
  ((filterHash p addr >>> p.remainderBit &&& (1#64 <<< p.quotientBit - 1#64)).setWidth 32).toNat

/-- `remainder`: the tag of an address in its slot. -/
def remainder (p : Params) (addr : Addr) : Uns :=
  (filterHash p addr &&& (1#64 <<< p.remainderBit - 1#64)).setWidth 32

/-- A slot holds the tag, as a recorded prefetch or as a used line. -/
def SppFilterEntry.blocks (e : SppFilterEntry) (tag : Uns) : Bool :=
  (e.valid || e.useful) && e.remainderTag == tag

/-- Count a used prefetch; on overflow halve both counters. -/
def countUseful (p : Params) (spp : PrefSpp) : PrefSpp :=
  if spp.pfUseful + 1 > p.globalCounterMax then
    { spp with pfUseful := (spp.pfUseful + 1) >>> 1, pfIssued := spp.pfIssued >>> 1 }
  else { spp with pfUseful := spp.pfUseful + 1 }

/-- Count an issued prefetch; on overflow halve both counters. -/
def countIssued (p : Params) (spp : PrefSpp) : PrefSpp :=
  if spp.pfIssued + 1 > p.globalCounterMax then
    { spp with pfIssued := (spp.pfIssued + 1) >>> 1, pfUseful := spp.pfUseful >>> 1 }
  else { spp with pfIssued := spp.pfIssued + 1 }

/-- `spp_filter_check`: whether the caller should issue the prefetch. -/
def sppFilterCheck (p : Params) (spp : PrefSpp) (addr : Addr) (req : SppFilterReq) :
    Bool × PrefSpp :=
  if !p.filterOn then (true, spp)
  else
    let slot := quotient p addr
    let tag := remainder p addr
    let e := spp.filter slot
    match req with
    | .l2Prefetch =>
        if e.blocks tag then (false, spp)
        else (true, { spp with filter := Function.update spp.filter slot ⟨true, false, tag⟩ })
    | .llcPrefetch => (!e.blocks tag, spp)
    | .demand =>
        if e.remainderTag == tag && !e.useful then
          let spp := { spp with filter := Function.update spp.filter slot { e with useful := true } }
          (true, if e.valid then countUseful p spp else spp)
        else (true, spp)
    | .evict =>
        let spp :=
          if e.valid && !e.useful && spp.pfUseful != 0 then
            { spp with pfUseful := spp.pfUseful - 1 }
          else spp
        (true, { spp with filter := Function.update spp.filter slot ⟨false, false, 0⟩ })

/-! ## Global History Register -/

/-- `spp_ghr_update`: refresh the entry of the offset, or replace the first entry of
lowest confidence. -/
def sppGhrUpdate (p : Params) (ghr : List SppGhrEntry) (pfSig : Uns) (pfConf pfOffset : ℕ)
    (pfDelta : ℤ) : Except String (List SppGhrEntry) :=
  if !p.ghrOn then .ok ghr
  else
    match ghr.findIdx? fun g => g.valid && g.offset == pfOffset with
    | some i =>
        .ok (ghr.modify i fun g => { g with sig := pfSig, confidence := pfConf, delta := pfDelta })
    | none =>
        let victim := Argmin.scan (·.confidence) ghr 0 p.ghrEntries (2 ^ 32 - 1)
        if victim < p.ghrEntries then .ok (ghr.set victim ⟨true, pfSig, pfConf, pfOffset, pfDelta⟩)
        else .error "[SPP-GHR] no victim\n"

end Scarab.Spp
