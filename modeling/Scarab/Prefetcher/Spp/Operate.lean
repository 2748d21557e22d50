import Scarab.Prefetcher.Spp.Tables
import Scarab.Lib.Execution

/-! # The prefetch driver and its callbacks

`spp_operate` and the HWP callbacks, over an arbitrary request queue: a type `σ` of
queue states and the function `addto` standing for `pref_addto_ul1req_queue`. The
world also keeps a history of what the prefetcher did, which no operation reads. -/

namespace Scarab.Spp

/-- What became of a candidate of the page of the demand. -/
inductive Outcome where
  /-- `spp_filter_check` returned FALSE. -/
  | filtered
  /-- It returned TRUE and `pref_addto_ul1req_queue` returned FALSE. -/
  | refused
  /-- Both returned TRUE. -/
  | queued
  deriving DecidableEq, Repr

inductive SppEvent where
  /-- `spp_filter_check(addr, SPP_FILTER_DEMAND)`. -/
  | demand (addr : Addr)
  /-- A candidate line and the grade it was checked with. -/
  | candidate (req : SppFilterReq) (addr : Addr) (outcome : Outcome)
  /-- A page-crossing candidate recorded by `spp_ghr_update`. -/
  | crossed (sig : Uns) (conf offset : ℕ) (delta : ℤ)
  /-- The UL1 was filled with a line. -/
  | filled (addr : Addr)
  /-- The UL1 evicted a line. -/
  | evicted (addr : Addr)
  deriving DecidableEq, Repr

/-- `pref_addto_ul1req_queue`: the core, the line index and the prefetcher's id. -/
abbrev AddTo (σ : Type) := Uns8 → Addr → Uns8 → σ → Bool × σ

structure World (σ : Type) where
  spp : PrefSpp
  queue : σ
  /-- `pref.num_ul1_evicted`. -/
  numUl1Evicted : ℕ
  /-- Oldest first. -/
  history : List SppEvent

variable {σ : Type} (p : Params) (addto : AddTo σ)

def World.log (w : World σ) (e : SppEvent) : World σ := { w with history := w.history ++ [e] }

/-- The accuracy `spp_operate` computes at its start. -/
def globalAccuracy (spp : PrefSpp) : ℕ :=
  if spp.pfIssued = 0 then 0 else 100 * spp.pfUseful / spp.pfIssued % 2 ^ 32

/-! ## Stages 1 and 2 -/

/-- The variables the lookahead loop carries from hop to hop. -/
structure Hop where
  currSig : Uns
  baseAddr : Addr
  lookaheadConf : ℕ
  depth : ℕ
  deriving DecidableEq, Repr

/-- `spp_operate` up to the lookahead loop: the accuracy, the Signature Table, the use
of any recorded prefetch of the line, and the training of the Pattern Table. -/
def sppTrain (w : World σ) (lineAddr : Addr) : Except String (World σ × Hop) := do
  let addr := p.lineBase lineAddr
  let page := addr >>> p.log2Page
  let spp := { w.spp with globalAccuracyPct := globalAccuracy w.spp }
  let (spp, out) ← sppStReadAndUpdate p spp page (p.pageOffset addr)
  let spp := (sppFilterCheck p spp addr .demand).2
  let spp := if out.lastSig ≠ 0 then sppPtUpdatePattern p spp out.lastSig out.delta else spp
  return (World.log { w with spp } (.demand addr), ⟨out.currSig, addr, 100, 0⟩)

/-! ## Stage 3: the lookahead loop -/

/-- The grade of a candidate. -/
def grade (conf : ℕ) : SppFilterReq :=
  if p.fillThreshold ≤ conf then .l2Prefetch else .llcPrefetch

/-- A candidate of the demand's own page: filter it, enqueue it, count it. -/
def sppIssue (procId : Uns8) (w : World σ) (pfAddr : Addr) (conf : ℕ) : World σ :=
  let req := grade p conf
  let (pass, spp) := sppFilterCheck p w.spp pfAddr req
  if pass then
    let (ok, queue) := addto procId (pfAddr >>> p.log2Line) spp.hwpId w.queue
    if ok then
      let spp := if req = .l2Prefetch then countIssued p spp else spp
      World.log { w with spp, queue } (.candidate req pfAddr .queued)
    else World.log { w with spp, queue } (.candidate req pfAddr .refused)
  else World.log { w with spp } (.candidate req pfAddr .filtered)

/-- One turn of the loop over the candidates of a hop. -/
def sppCandidate (procId : Uns8) (addr : Addr) (hop : Hop) (w : World σ) (c : ℕ × ℤ) :
    Except String (World σ) :=
  let (conf, delta) := c
  if conf < p.issueCutoff then .ok w
  else
    let pfAddr := p.lineBase hop.baseAddr + p.deltaBytes delta
    if p.pageBase addr = p.pageBase pfAddr then .ok (sppIssue p addto procId w pfAddr conf)
    else if p.ghrOn then do
      let pfOffset := p.pageOffset pfAddr
      let ghr ← sppGhrUpdate p w.spp.ghr hop.currSig conf pfOffset delta
      return World.log { w with spp := { w.spp with ghr } } (.crossed hop.currSig conf pfOffset delta)
    else .ok w

/-- "Drive the next hop": follow the selected way, if there is one. -/
def nextHop (spp : PrefSpp) (hop : Hop) (read : SppPtRead) : Option Hop :=
  if read.lookaheadWay < p.ptWay then
    let row := spp.pt (ptSetOf p hop.currSig)
    let chosenDelta := (row.ways[read.lookaheadWay]?.map (·.delta)).getD 0
    let sigDelta := sppEncodeSigDelta p chosenDelta
    some
      { currSig := ((hop.currSig <<< p.sigShift) ^^^ sigDelta) &&& p.sigMask
        baseAddr := hop.baseAddr + p.deltaBytes chosenDelta
        lookaheadConf := read.lookaheadConf
        depth := if p.pfThreshold ≤ read.lookaheadConf then hop.depth + 1 else hop.depth }
  else none

/-- The body of the do-while loop: the next hop, if the body leaves `do_lookahead` set. -/
def sppHop (procId : Uns8) (addr : Addr) (w : World σ) (hop : Hop) :
    Except String (World σ × Option Hop) := do
  let read := sppPtReadPattern p w.spp hop.currSig hop.lookaheadConf hop.depth
  let w ← Execution.run (sppCandidate p addto procId addr hop) w read.queue
  -- `do_lookahead` is set by every candidate, issued or not
  return (w, if read.queue = [] then none else nextHop p w.spp hop read)

/-- The do-while loop. Every hop but the last increments `depth`, so `MAX_DEPTH` turns
are enough. -/
def sppLookahead (procId : Uns8) (addr : Addr) :
    ℕ → World σ → Hop → Except String (World σ)
  | 0, w, _ => .ok w
  | fuel + 1, w, hop => do
      let (w, next) ← sppHop p addto procId addr w hop
      match next with
      | some hop =>
          if hop.depth < p.maxDepth ∧ p.lookaheadOn then sppLookahead procId addr fuel w hop
          else return w
      | none => return w

/-- `spp_operate`. -/
def sppOperate (procId : Uns8) (w : World σ) (lineAddr : Addr) : Except String (World σ) := do
  let (w, hop) ← sppTrain p w lineAddr
  if p.maxDepth = 0 then return w
  else sppLookahead p addto procId (p.lineBase lineAddr) p.maxDepth w hop

/-! ## HWP framework callbacks -/

/-- `pref_spp_ul1_miss`. -/
def prefSppUl1Miss (procId : Uns8) (w : World σ) (lineAddr : Addr) : Except String (World σ) :=
  sppOperate p addto procId w lineAddr

/-- `pref_spp_ul1_hit`. -/
def prefSppUl1Hit (procId : Uns8) (w : World σ) (lineAddr : Addr) : Except String (World σ) :=
  if p.prefReportPrefMatchAsHit then sppOperate p addto procId w lineAddr else .ok w

/-- `pref_spp_ul1_pref_hit`. -/
def prefSppUl1PrefHit (w : World σ) (lineAddr : Addr) : World σ :=
  let addr := p.lineBase lineAddr
  World.log { w with spp := (sppFilterCheck p w.spp addr .demand).2 } (.demand addr)

end Scarab.Spp
