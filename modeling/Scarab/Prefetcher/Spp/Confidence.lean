import Mathlib.Algebra.Order.Group.Nat
import Scarab.Prefetcher.Spp.Hops
import Scarab.Prefetcher.Spp.PatternTable

/-! # Bounds of the lookahead loop

`delta_q` and `conf_q` have an entry more than a set has ways, so that no hop writes past them. Confidences
only fall along the hops, as long as the counters of a set and the accuracy are what they stand for. -/

namespace Scarab.Spp

variable {σ : Type} {p : Params} {spp : PrefSpp} {hop next : Hop} {row : SppPtSet}

/-! ## The queues of a hop -/

/-- `delta_q` and `conf_q`, with `pf_q_tail`. -/
structure PfQueue where
  deltaQ : List ℤ
  confQ : List ℕ
  tail : ℕ
  deriving DecidableEq, Repr

namespace PfQueue

/-- `QLEN` entries, all of them zero. -/
def init (p : Params) : PfQueue := ⟨List.replicate (p.ptWay + 1) 0, List.replicate (p.ptWay + 1) 0, 0⟩

/-- The entries up to `pf_q_tail`. -/
def entries (q : PfQueue) : List (ℕ × ℤ) := (q.confQ.zip q.deltaQ).take q.tail

/-- The assignments at `pf_q_tail`. -/
def push (q : PfQueue) (conf : ℕ) (delta : ℤ) : Except String PfQueue :=
  if q.tail < q.confQ.length ∧ q.tail < q.deltaQ.length then
    .ok ⟨q.deltaQ.set q.tail delta, q.confQ.set q.tail conf, q.tail + 1⟩
  else .error "index out of range"

end PfQueue

/-- The loop over the ways, with the queues. -/
def ptScanQ (p : Params) (conf : SppPtWay → ℕ) :
    List SppPtWay → (w lookaheadWay maxConf : ℕ) → PfQueue → Except String (PfQueue × ℕ × ℕ)
  | [], _, lookaheadWay, maxConf, q => .ok (q, lookaheadWay, maxConf)
  | way :: ways, w, lookaheadWay, maxConf, q =>
      if p.pfThreshold ≤ conf way then do
        let q ← q.push (conf way) way.delta
        if maxConf < conf way then ptScanQ p conf ways (w + 1) w (conf way) q
        else ptScanQ p conf ways (w + 1) lookaheadWay maxConf q
      else ptScanQ p conf ways (w + 1) lookaheadWay maxConf q

/-- `spp_pt_read_pattern`, with the queues of the hop. -/
def Hop.readQ (p : Params) (spp : PrefSpp) (hop : Hop) : Except String (PfQueue × ℕ × ℕ) :=
  let row := spp.pt (ptSetOf p hop.currSig)
  let q := PfQueue.init p
  if row.cSig = 0 then
    if q.tail < q.confQ.length then .ok ({ q with confQ := q.confQ.set q.tail 0 }, p.ptWay, hop.lookaheadConf)
    else .error "index out of range"
  else ptScanQ p (pathConf row spp.globalAccuracyPct hop.lookaheadConf hop.depth) row.ways 0 p.ptWay 0 q

theorem PfQueue.push_ok {q : PfQueue} {n : ℕ} (conf : ℕ) (delta : ℤ) (hconf : q.confQ.length = n + 1)
    (hdelta : q.deltaQ.length = n + 1) (htail : q.tail < n + 1) :
    ∃ q', q.push conf delta = .ok q' ∧ q'.confQ.length = n + 1 ∧ q'.deltaQ.length = n + 1 ∧
      q'.tail = q.tail + 1 ∧ q'.entries = q.entries ++ [(conf, delta)] := by
  refine ⟨_, if_pos ⟨by omega, by omega⟩, by simpa using hconf, by simpa using hdelta, rfl, ?_⟩
  have hget : ((q.confQ.set q.tail conf).zip (q.deltaQ.set q.tail delta))[q.tail]? = some (conf, delta) := by
    rw [List.getElem?_zip_eq_some]
    exact ⟨List.getElem?_set_self (by omega), List.getElem?_set_self (by omega)⟩
  unfold PfQueue.entries
  rw [List.take_add_one, hget]
  refine congrArg (· ++ [(conf, delta)]) ?_
  simp only [List.zip_eq_zipWith, List.take_zipWith, List.take_set_of_le (Nat.le_refl _)]

/-- The queues take what the scan returns, one entry for each way at most. -/
theorem ptScanQ_ok (conf : SppPtWay → ℕ) (ways : List SppPtWay) (w way maxConf : ℕ) {n : ℕ} {q : PfQueue}
    (hconf : q.confQ.length = n + 1) (hdelta : q.deltaQ.length = n + 1) (htail : q.tail + ways.length ≤ n) :
    ∃ q', ptScanQ p conf ways w way maxConf q = .ok (q', (ptScan p conf ways w way maxConf).lookaheadWay,
        (ptScan p conf ways w way maxConf).lookaheadConf) ∧
      q'.confQ.length = n + 1 ∧ q'.deltaQ.length = n + 1 ∧ q'.tail ≤ n ∧
        q'.entries = q.entries ++ (ptScan p conf ways w way maxConf).queue := by
  induction ways generalizing w way maxConf q with
  | nil => exact ⟨q, rfl, hconf, hdelta, by simpa using htail, by simp [ptScan]⟩
  | cons x ways ih =>
      rw [List.length_cons] at htail
      unfold ptScanQ ptScan
      by_cases hpf : p.pfThreshold ≤ conf x
      · obtain ⟨q', hpush, hconf', hdelta', htail', hentries⟩ :=
          PfQueue.push_ok (conf x) x.delta hconf hdelta (by omega)
        simp only [if_pos hpf, hpush, bind, Except.bind]
        split
        · obtain ⟨q'', hscan, hc, hd, ht, he⟩ := ih (w + 1) w (conf x) hconf' hdelta' (by omega)
          exact ⟨q'', hscan, hc, hd, ht, by rw [he, hentries, List.append_assoc]; rfl⟩
        · obtain ⟨q'', hscan, hc, hd, ht, he⟩ := ih (w + 1) way maxConf hconf' hdelta' (by omega)
          exact ⟨q'', hscan, hc, hd, ht, by rw [he, hentries, List.append_assoc]; rfl⟩
      · simp only [if_neg hpf]
        exact ih (w + 1) way maxConf hconf hdelta (by omega)

/-- No hop writes past its queues. -/
theorem Hop.readQ_ok (hways : ∀ set, (spp.pt set).ways.length = p.ptWay) (hop : Hop) :
    ∃ q, hop.readQ p spp = .ok (q, (hop.read p spp).lookaheadWay, (hop.read p spp).lookaheadConf) ∧
      q.confQ.length = p.ptWay + 1 ∧ q.deltaQ.length = p.ptWay + 1 ∧ q.tail ≤ p.ptWay ∧
        q.entries = (hop.read p spp).queue := by
  unfold Hop.readQ Hop.read sppPtReadPattern
  dsimp only
  split
  · refine ⟨_, if_pos (by simp [PfQueue.init]), by simp [PfQueue.init], by simp [PfQueue.init], ?_, ?_⟩
    · exact Nat.zero_le _
    · simp [PfQueue.entries, PfQueue.init]
  · obtain ⟨q, hscan, hc, hd, ht, he⟩ := ptScanQ_ok (p := p)
      (pathConf (spp.pt (ptSetOf p hop.currSig)) spp.globalAccuracyPct hop.lookaheadConf hop.depth)
      (spp.pt (ptSetOf p hop.currSig)).ways 0 p.ptWay 0 (n := p.ptWay) (q := PfQueue.init p) (by simp [PfQueue.init]) (by simp [PfQueue.init]) (by simp [PfQueue.init, hways])
    exact ⟨q, hscan, hc, hd, ht, by rw [he]; simp [PfQueue.entries, PfQueue.init]⟩

theorem Hop.queue_length (hways : ∀ set, (spp.pt set).ways.length = p.ptWay) (hop : Hop) :
    (hop.read p spp).queue.length ≤ p.ptWay := by
  obtain ⟨q, -, -, -, htail, hentries⟩ := hop.readQ_ok hways
  rw [← hentries]
  exact (List.length_take_le _ _).trans htail

theorem candidates_length (hways : ∀ set, (spp.pt set).ways.length = p.ptWay) (hs : List Hop) :
    (candidates p spp hs).length ≤ hs.length * p.ptWay := by
  unfold candidates
  induction hs with
  | nil => exact Nat.zero_le _
  | cons hop hs ih =>
      have hqueue := hop.queue_length hways
      rw [List.flatMap_cons, List.length_append, List.length_map, List.length_cons, Nat.succ_mul]
      omega

/-! ## What training leaves of the Pattern Table -/

theorem ptCount_length (row : SppPtSet) : (ptCount p row).ways.length = row.ways.length := by
  unfold ptCount
  split
  · exact List.length_map _
  · rfl

theorem ptUpdate_length (row : SppPtSet) (delta : ℤ) : (ptUpdate p row delta).ways.length = row.ways.length := by
  unfold ptUpdate
  split
  · rw [ptCount_length]
    exact List.length_modify _ _ _
  · rw [ptCount_length]
    exact List.length_set

/-- What holds of all sets, and of a set that was trained, holds after training. -/
theorem sppTrain_sets {I : SppPtSet → Prop} {w m : World σ} {lineAddr : Addr}
    (hupdate : ∀ row delta, I row → I (ptUpdate p row delta)) (hsets : ∀ set, I (w.spp.pt set))
    (h : sppTrain p w lineAddr = .ok (m, hop)) (set : ℕ) : I (m.spp.pt set) := by
  obtain ⟨row, out, hs⟩ := sppTrain_spec h
  rw [hs.pt]
  split
  · rw [Function.update_apply]
    split
    · exact hupdate _ _ (hsets _)
    · exact hsets set
  · exact hsets set

theorem sppTrain_hop {w m : World σ} {lineAddr : Addr} (h : sppTrain p w lineAddr = .ok (m, hop)) :
    hop.depth = 0 ∧ hop.lookaheadConf = 100 ∧ m.spp.globalAccuracyPct = globalAccuracy w.spp := by
  obtain ⟨row, out, hs⟩ := sppTrain_spec h
  rw [hs.hop_eq]
  exact ⟨rfl, rfl, hs.accuracy⟩

/-! ## The bounds of a demand -/

/-- The loop of a demand ends after at most `MAX_DEPTH` hops. No hop writes past its queues, and at most
`MAX_DEPTH * PT_WAY` candidates are examined. -/
theorem sppOperate_bounded (addto : AddTo σ) {w m : World σ} {lineAddr : Addr} (hways : ∀ set, (w.spp.pt set).ways.length = p.ptWay)
    (htrain : sppTrain p w lineAddr = .ok (m, hop)) :
    (∀ procId, sppOperate p addto procId w lineAddr =
        Execution.run (sppHopCandidate p addto procId (p.lineBase lineAddr)) m
          (candidates p m.spp (demandHops p m.spp hop))) ∧
      (p.maxDepth ≠ 0 → Loop p m.spp hop (demandHops p m.spp hop)) ∧
      (demandHops p m.spp hop).length ≤ max 1 p.maxDepth ∧
      (∀ hop' ∈ demandHops p m.spp hop, ∃ q,
        hop'.readQ p m.spp = .ok (q, (hop'.read p m.spp).lookaheadWay, (hop'.read p m.spp).lookaheadConf) ∧
          q.confQ.length = p.ptWay + 1 ∧ q.deltaQ.length = p.ptWay + 1 ∧ q.tail ≤ p.ptWay ∧
            q.entries = (hop'.read p m.spp).queue) ∧
      (candidates p m.spp (demandHops p m.spp hop)).length ≤ p.maxDepth * p.ptWay := by
  have hways' : ∀ set, (m.spp.pt set).ways.length = p.ptWay :=
    sppTrain_sets (I := fun row => row.ways.length = p.ptWay) (fun row delta hrow => (ptUpdate_length row delta).trans hrow)
      hways htrain
  have hlength : (demandHops p m.spp hop).length ≤ p.maxDepth := hops_length p.maxDepth hop
  refine ⟨fun procId => ?_, fun hpos => ?_, hlength.trans (Nat.le_max_right _ _), fun hop' _ => hop'.readQ_ok hways', ?_⟩
  · rw [sppOperate_eq, htrain]
    rfl
  · have hdepth := (sppTrain_hop htrain).1
    exact loop_hops (Nat.pos_of_ne_zero hpos) (by omega)
  · exact (candidates_length hways' _).trans (Nat.mul_le_mul_right _ hlength)

/-- The tables at the start, but that every signature is followed by the next line. -/
def nextLineOnly {κ : Type} (queue : κ) : World κ where
  spp :=
    { hwpId := 0
      st := fun _ => (List.range 2).map fun w => ⟨false, 0, 0, 0, w⟩
      pt := fun _ => ⟨[⟨1, 8⟩, ⟨0, 0⟩, ⟨0, 0⟩, ⟨0, 0⟩], 8⟩
      filter := fun _ => ⟨false, false, 0⟩
      ghr := List.replicate 8 ⟨false, 0, 0, 0, 0⟩
      pfUseful := 1
      pfIssued := 1
      globalAccuracyPct := 0 }
  queue
  numUl1Evicted := 0
  history := []

/-- There the loop goes on as long as `MAX_DEPTH` lets it. -/
theorem nextLineOnly_train : ∃ m hop, sppTrain (.small 4 (by decide)) (nextLineOnly ()) 0x1000 = .ok (m, hop) ∧
    (demandHops (.small 4 (by decide)) m.spp hop).map (·.lookaheadConf) = List.replicate 16 100 := by
  obtain ⟨⟨m, hop⟩, htrain, hhops⟩ := Execution.map_eq_ok.mp (show
    (fun out : World Unit × Hop => (demandHops (.small 4 (by decide)) out.1.spp out.2).map (·.lookaheadConf)) <$>
      sppTrain (.small 4 (by decide)) (nextLineOnly ()) 0x1000 = .ok (List.replicate 16 100) by decide +kernel)
  exact ⟨m, hop, htrain, hhops⟩

theorem sppOperate_bounded_next_line : ∃ m hop, sppTrain (.small 4 (by decide)) (nextLineOnly ()) 0x1000 = .ok (m, hop) ∧
    (demandHops (.small 4 (by decide)) m.spp hop).length = 16 ∧
      (candidates (.small 4 (by decide)) m.spp (demandHops (.small 4 (by decide)) m.spp hop)).length ≤ 64 := by
  obtain ⟨m, hop, htrain, hhops⟩ := nextLineOnly_train
  obtain ⟨-, -, -, -, hle⟩ := sppOperate_bounded acceptAll (fun _ => rfl) htrain
  refine ⟨m, hop, htrain, ?_, hle⟩
  rw [← List.length_map (·.lookaheadConf), hhops, List.length_replicate]

/-! ## Confidences -/

/-- The confidence of a way without the reductions to the width of its types. -/
def exactConf (row : SppPtSet) (globalAccuracyPct lookaheadConf depth : ℕ) (w : SppPtWay) : ℕ :=
  if depth = 0 then 100 * w.cDelta / row.cSig else globalAccuracyPct * w.cDelta / row.cSig * lookaheadConf / 100

/-- The counters of a set are those of a distribution, and fit an `uns`. -/
structure SppPtSet.Counts (row : SppPtSet) : Prop where
  mass_le : row.mass ≤ row.cSig
  fits : row.cSig < 2 ^ 32

theorem SppPtSet.Counts.cDelta_le (h : row.Counts) {w : SppPtWay} (hw : w ∈ row.ways) : w.cDelta ≤ row.cSig :=
  (List.le_sum_of_mem (List.mem_map_of_mem hw)).trans h.mass_le

theorem SppPtSet.Counts.ptCount {row : SppPtSet} (hmass : row.mass ≤ row.cSig + 1) (hfits : row.cSig < 2 ^ 32) :
    (ptCount p row).Counts := by
  have hmax : p.cSigMax ≤ 2 ^ 32 - 1 := by
    have hpow := Nat.pow_lt_pow_right (a := 2) (by omega) p.cSigBit_lt
    unfold Params.cSigMax
    omega
  exact ⟨mass_ptCount_le hmass, Nat.lt_of_le_pred (Nat.two_pow_pos 32) (cSig_ptCount_le hmax (Nat.le_pred_of_lt hfits))⟩

theorem sum_modify_le {f : SppPtWay → SppPtWay} (hf : ∀ w, (f w).cDelta ≤ w.cDelta + 1) (ways : List SppPtWay) (i : ℕ) :
    ((ways.modify i f).map (·.cDelta)).sum ≤ (ways.map (·.cDelta)).sum + 1 := by
  induction ways generalizing i with
  | nil => simp
  | cons w ways ih =>
      cases i with
      | zero =>
          have hw := hf w
          simp only [List.modify_zero_cons, List.map_cons, List.sum_cons]
          omega
      | succ i =>
          have hrest := ih i
          simp only [List.modify_succ_cons, List.map_cons, List.sum_cons]
          omega

theorem sum_set_le (ways : List SppPtWay) (i : ℕ) (delta : ℤ) :
    ((ways.set i ⟨delta, 0⟩).map (·.cDelta)).sum ≤ (ways.map (·.cDelta)).sum := by
  induction ways generalizing i with
  | nil => simp
  | cons w ways ih =>
      cases i with
      | zero => simp
      | succ i =>
          have hrest := ih i
          simp only [List.set_cons_succ, List.map_cons, List.sum_cons]
          omega

/-- Training keeps the counters of a set those of a distribution. -/
theorem SppPtSet.Counts.ptUpdate {row : SppPtSet} (h : row.Counts) (delta : ℤ) : (ptUpdate p row delta).Counts := by
  have hmass : (row.ways.map (·.cDelta)).sum ≤ row.cSig := h.mass_le
  unfold Spp.ptUpdate
  split
  · refine SppPtSet.Counts.ptCount ((sum_modify_le (fun w => ?_) _ _).trans (Nat.succ_le_succ hmass)) h.fits
    split
    · exact Nat.le_refl _
    · exact Nat.le_succ _
  · exact SppPtSet.Counts.ptCount ((sum_set_le _ _ _).trans (Nat.le_succ_of_le hmass)) h.fits

/-- No weight of a way exceeds 100. -/
theorem weight_le {acc cDelta cSig : ℕ} (hacc : acc ≤ 100) (hle : cDelta ≤ cSig) : acc * cDelta / cSig ≤ 100 := by
  apply Nat.div_le_of_le_mul
  rw [Nat.mul_comm cSig]
  exact Nat.mul_le_mul hacc hle

/-- The confidence of a way is not cut, and at most that of the path to it. -/
theorem SppPtSet.Counts.pathConf (h : row.Counts) {acc conf depth : ℕ} (hacc : acc ≤ 100) (hconf : conf ≤ 100)
    (hfirst : depth = 0 → conf = 100) {w : SppPtWay} (hw : w ∈ row.ways) :
    Spp.pathConf row acc conf depth w = exactConf row acc conf depth w ∧ exactConf row acc conf depth w ≤ conf ∧
      acc * w.cDelta < 2 ^ 64 ∧ acc * w.cDelta / row.cSig * conf < 2 ^ 64 := by
  have hle := h.cDelta_le hw
  have hfits := h.fits
  have hweight : acc * w.cDelta / row.cSig ≤ 100 := weight_le hacc hle
  have hlocal : 100 * w.cDelta / row.cSig ≤ 100 := weight_le (Nat.le_refl 100) hle
  have hproduct : acc * w.cDelta / row.cSig * conf ≤ 100 * conf := Nat.mul_le_mul_right conf hweight
  have hwide : acc * w.cDelta ≤ 100 * row.cSig := Nat.mul_le_mul hacc hle
  have hpath : acc * w.cDelta / row.cSig * conf / 100 ≤ conf :=
    Nat.div_le_of_le_mul (by omega)
  unfold Spp.pathConf exactConf localConf
  by_cases hzero : depth = 0
  · rw [if_pos hzero, if_pos hzero, hfirst hzero]
    exact ⟨Nat.mod_eq_of_lt (by omega), hlocal, by omega, by omega⟩
  · rw [if_neg hzero, if_neg hzero, Nat.mod_eq_of_lt (show acc * w.cDelta < 2 ^ 64 by omega),
      Nat.mod_eq_of_lt (show acc * w.cDelta / row.cSig * conf < 2 ^ 64 by omega),
      Nat.mod_eq_of_lt (show acc * w.cDelta / row.cSig * conf / 100 < 2 ^ 32 by omega)]
    exact ⟨rfl, hpath, by omega, by omega⟩

/-- What a scan returns is bounded by what the ways have. -/
theorem ptScan_le {conf : SppPtWay → ℕ} {ways : List SppPtWay} {w way maxConf n : ℕ} (hmax : maxConf ≤ n)
    (hconf : ∀ x ∈ ways, conf x ≤ n) :
    (ptScan p conf ways w way maxConf).lookaheadConf ≤ n ∧
      ∀ c ∈ (ptScan p conf ways w way maxConf).queue, c.1 ≤ n := by
  induction ways generalizing w way maxConf with
  | nil => exact ⟨hmax, nofun⟩
  | cons x ways ih =>
      have hx := hconf x List.mem_cons_self
      have hways : ∀ y ∈ ways, conf y ≤ n := fun y hy => hconf y (List.mem_cons_of_mem x hy)
      unfold ptScan
      split
      · have hrest : (if maxConf < conf x then ptScan p conf ways (w + 1) w (conf x)
            else ptScan p conf ways (w + 1) way maxConf).lookaheadConf ≤ n ∧
            ∀ c ∈ (if maxConf < conf x then ptScan p conf ways (w + 1) w (conf x)
              else ptScan p conf ways (w + 1) way maxConf).queue, c.1 ≤ n := by
          split
          · exact ih hx hways
          · exact ih hmax hways
        refine ⟨hrest.1, fun c hc => ?_⟩
        cases List.mem_cons.mp hc with
        | inl hself =>
            rw [hself]
            exact hx
        | inr hlater => exact hrest.2 c hlater
      · exact ih hmax hways

/-- A hop whose candidates are at most as sure as the path to it. -/
structure Hop.Falls (p : Params) (spp : PrefSpp) (hop : Hop) : Prop where
  conf_le : hop.lookaheadConf ≤ 100
  first : hop.depth = 0 → hop.lookaheadConf = 100
  lookahead : (hop.read p spp).lookaheadConf ≤ hop.lookaheadConf
  queue : ∀ c ∈ (hop.read p spp).queue, c.1 ≤ hop.lookaheadConf
  exact : (spp.pt (ptSetOf p hop.currSig)).cSig ≠ 0 → ∀ w ∈ (spp.pt (ptSetOf p hop.currSig)).ways,
    pathConf (spp.pt (ptSetOf p hop.currSig)) spp.globalAccuracyPct hop.lookaheadConf hop.depth w =
      exactConf (spp.pt (ptSetOf p hop.currSig)) spp.globalAccuracyPct hop.lookaheadConf hop.depth w ∧
    spp.globalAccuracyPct * w.cDelta < 2 ^ 64 ∧
    spp.globalAccuracyPct * w.cDelta / (spp.pt (ptSetOf p hop.currSig)).cSig * hop.lookaheadConf < 2 ^ 64

theorem Hop.falls (hpt : ∀ set, (spp.pt set).Counts) (hacc : spp.globalAccuracyPct ≤ 100) (hconf : hop.lookaheadConf ≤ 100)
    (hfirst : hop.depth = 0 → hop.lookaheadConf = 100) : hop.Falls p spp := by
  have hways (w : SppPtWay) (hw : w ∈ (spp.pt (ptSetOf p hop.currSig)).ways) :=
    (hpt (ptSetOf p hop.currSig)).pathConf hacc hconf hfirst hw
  have hread : (hop.read p spp).lookaheadConf ≤ hop.lookaheadConf ∧
      ∀ c ∈ (hop.read p spp).queue, c.1 ≤ hop.lookaheadConf := by
    unfold Hop.read sppPtReadPattern
    dsimp only
    split
    · exact ⟨Nat.le_refl _, nofun⟩
    · refine ptScan_le (Nat.zero_le _) fun w hw => ?_
      rw [(hways w hw).1]
      exact (hways w hw).2.1
  exact ⟨hconf, hfirst, hread.1, hread.2, fun _ w hw => ⟨(hways w hw).1, (hways w hw).2.2⟩⟩

/-- Along the hops the confidence of the path only falls. -/
theorem hops_fall (hpt : ∀ set, (spp.pt set).Counts) (hacc : spp.globalAccuracyPct ≤ 100) (fuel : ℕ)
    (hop : Hop) (hconf : hop.lookaheadConf ≤ 100) (hfirst : hop.depth = 0 → hop.lookaheadConf = 100) :
    (∀ hop' ∈ hops p spp fuel hop, hop'.Falls p spp) ∧
      (hops p spp fuel hop).IsChain fun hop next => next.lookaheadConf = (hop.read p spp).lookaheadConf := by
  induction fuel generalizing hop with
  | zero => exact ⟨nofun, .nil⟩
  | succ fuel ih =>
      have hfalls : hop.Falls p spp := Hop.falls hpt hacc hconf hfirst
      rw [hops]
      cases hnext : hop.next? p spp with
      | none =>
          refine ⟨fun hop' hmem => ?_, .singleton hop⟩
          rw [List.mem_singleton.mp hmem]
          exact hfalls
      | some next =>
          have hdepth := Hop.next?_depth hnext
          obtain ⟨-, hnextHop⟩ := nextHop_spec (Hop.next?_spec hnext).2.1
          have hsame : next.lookaheadConf = (hop.read p spp).lookaheadConf := by rw [hnextHop]
          obtain ⟨hall, hchain⟩ := ih next (by rw [hsame]; exact hfalls.lookahead.trans hconf) (by omega)
          refine ⟨fun hop' hmem => ?_, ?_⟩
          · cases List.mem_cons.mp hmem with
            | inl hself =>
                rw [hself]
                exact hfalls
            | inr hlater => exact hall hop' hlater
          · rw [Option.elim_some]
            cases fuel with
            | zero => exact .singleton hop
            | succ fuel => exact .cons_cons hsame hchain

/-- Along a demand no candidate is surer than the path to it, and no confidence is cut to its width. -/
theorem sppOperate_falls (addto : AddTo σ) {w m : World σ} {lineAddr : Addr} (hpt : ∀ set, (w.spp.pt set).Counts)
    (hacc : globalAccuracy w.spp ≤ 100) (htrain : sppTrain p w lineAddr = .ok (m, hop)) :
    (∀ procId, sppOperate p addto procId w lineAddr =
        Execution.run (sppHopCandidate p addto procId (p.lineBase lineAddr)) m
          (candidates p m.spp (demandHops p m.spp hop))) ∧
      (∀ hop' ∈ demandHops p m.spp hop, hop'.Falls p m.spp) ∧
      (demandHops p m.spp hop).IsChain fun hop next => next.lookaheadConf = (hop.read p m.spp).lookaheadConf := by
  obtain ⟨hdepth, hconf, haccuracy⟩ := sppTrain_hop htrain
  refine ⟨fun procId => ?_, ?_⟩
  · rw [sppOperate_eq, htrain]
    rfl
  · exact hops_fall (sppTrain_sets (fun row delta hrow => hrow.ptUpdate delta) hpt htrain) (by rw [haccuracy]; exact hacc) _ hop
      (Nat.le_of_eq hconf) fun _ => hconf

theorem sppOperate_falls_next_line : ∃ m hop, sppTrain (.small 4 (by decide)) (nextLineOnly ()) 0x1000 = .ok (m, hop) ∧
    (demandHops (.small 4 (by decide)) m.spp hop).length = 16 ∧
      ∀ hop' ∈ demandHops (.small 4 (by decide)) m.spp hop, hop'.Falls (.small 4 (by decide)) m.spp := by
  obtain ⟨m, hop, htrain, hhops⟩ := nextLineOnly_train
  obtain ⟨-, hfalls, -⟩ := sppOperate_falls acceptAll
    (fun _ => (⟨by decide, by decide⟩ : SppPtSet.Counts ⟨[⟨1, 8⟩, ⟨0, 0⟩, ⟨0, 0⟩, ⟨0, 0⟩], 8⟩)) (by decide) htrain
  refine ⟨m, hop, htrain, ?_, hfalls⟩
  rw [← List.length_map (·.lookaheadConf), hhops, List.length_replicate]

end Scarab.Spp
