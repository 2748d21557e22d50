import Scarab.Prefetcher.Spp.Confidence

/-! # Two demands under different parameters

A demand that writes down its hops and candidates on its way shows what the cutoff and the depth can change. -/

namespace Scarab.Spp

variable {σ : Type} {p : Params} {addto : AddTo σ} {procId : Uns8} {addr lineAddr : Addr} {spp : PrefSpp} {hop : Hop}

/-! ## What a demand goes through -/

/-- The hops of the lookahead loop, the candidates of `delta_q` and `conf_q`, those that pass the cutoff, and
`depth`. -/
structure Walk where
  hops : List Hop
  examined : List (Hop × ℕ × ℤ)
  reached : List (Hop × ℕ × ℤ)
  depth : ℕ
  deriving DecidableEq, Repr

def Walk.empty : Walk := ⟨[], [], [], 0⟩

/-- The rest of a turn, after the cutoff: the page test and what follows it. -/
def sppPageTest (p : Params) (addto : AddTo σ) (procId : Uns8) (addr : Addr) (hop : Hop) (w : World σ) (c : ℕ × ℤ) :
    Except String (World σ) :=
  let (conf, delta) := c
  let pfAddr := p.lineBase hop.baseAddr + p.deltaBytes delta
  if p.pageBase addr = p.pageBase pfAddr then .ok (sppIssue p addto procId w pfAddr conf)
  else if p.ghrOn then do
    let pfOffset := p.pageOffset pfAddr
    let ghr ← sppGhrUpdate p w.spp.ghr hop.currSig conf pfOffset delta
    return World.log { w with spp := { w.spp with ghr } } (.crossed hop.currSig conf pfOffset delta)
  else .ok w

/-- `sppCandidate`, written down. -/
def walkCandidate (p : Params) (addto : AddTo σ) (procId : Uns8) (addr : Addr) (hop : Hop) (s : World σ × Walk)
    (c : ℕ × ℤ) : Except String (World σ × Walk) :=
  let walk := { s.2 with examined := s.2.examined ++ [(hop, c)] }
  if c.1 < p.issueCutoff then .ok (s.1, walk)
  else do
    let w ← sppPageTest p addto procId addr hop s.1 c
    return (w, { walk with reached := walk.reached ++ [(hop, c)] })

/-- `sppHop`, written down. -/
def walkHop (p : Params) (addto : AddTo σ) (procId : Uns8) (addr : Addr) (s : World σ × Walk) (hop : Hop) :
    Except String ((World σ × Walk) × Option Hop) := do
  let read := sppPtReadPattern p s.1.spp hop.currSig hop.lookaheadConf hop.depth
  let (w, walk) ← Execution.run (walkCandidate p addto procId addr hop)
    (s.1, { s.2 with hops := s.2.hops ++ [hop] }) read.queue
  let next := nextHop p w.spp hop read
  return ((w, { walk with depth := next.elim hop.depth Hop.depth }), if read.queue = [] then none else next)

/-- `sppLookahead`, written down. -/
def walkLookahead (p : Params) (addto : AddTo σ) (procId : Uns8) (addr : Addr) :
    ℕ → World σ × Walk → Hop → Except String (World σ × Walk)
  | 0, s, _ => .ok s
  | fuel + 1, s, hop => do
      let (s, next) ← walkHop p addto procId addr s hop
      match next with
      | some hop =>
          if hop.depth < p.maxDepth ∧ p.lookaheadOn then walkLookahead p addto procId addr fuel s hop
          else return s
      | none => return s

/-- `spp_operate`, written down. -/
def walkOperate (p : Params) (addto : AddTo σ) (procId : Uns8) (w : World σ) (lineAddr : Addr) :
    Except String (World σ × Walk) := do
  let (w, hop) ← sppTrain p w lineAddr
  if p.maxDepth = 0 then return (w, .empty)
  else walkLookahead p addto procId (p.lineBase lineAddr) p.maxDepth (w, .empty) hop

/-- A walk that goes on with these hops. -/
def Walk.along (p : Params) (spp : PrefSpp) (walk : Walk) (hs : List Hop) : Walk where
  hops := walk.hops ++ hs
  examined := walk.examined ++ candidates p spp hs
  reached := walk.reached ++ (candidates p spp hs).filter fun c => decide (p.issueCutoff ≤ c.2.1)
  depth := hs.getLast?.elim walk.depth (Hop.depthAfter p spp)

/-! ## Writing down changes nothing -/

theorem sppCandidate_eq (w : World σ) (c : ℕ × ℤ) :
    sppCandidate p addto procId addr hop w c =
      if c.1 < p.issueCutoff then .ok w else sppPageTest p addto procId addr hop w c := rfl

theorem run_walkCandidate (w : World σ) (walk : Walk) (cs : List (ℕ × ℤ)) :
    Execution.run (walkCandidate p addto procId addr hop) (w, walk) cs =
      (fun t => (t, { walk with
        examined := walk.examined ++ cs.map (fun c => (hop, c))
        reached := walk.reached ++ (cs.map fun c => (hop, c)).filter fun c => decide (p.issueCutoff ≤ c.2.1) })) <$>
        Execution.run (sppCandidate p addto procId addr hop) w cs := by
  induction cs generalizing w walk with
  | nil => simp [Functor.map, Except.map]
  | cons c cs ih =>
      rw [Execution.run, Execution.run, sppCandidate_eq, walkCandidate]
      by_cases hcut : c.1 < p.issueCutoff
      · have hmuted : ¬ p.issueCutoff ≤ c.1 := Nat.not_le_of_lt hcut
        simp only [hcut, if_true]
        refine (ih w _).trans ?_
        simp [hmuted, List.append_assoc, bind, Except.bind]
      · have hissued : p.issueCutoff ≤ c.1 := Nat.le_of_not_lt hcut
        simp only [hcut, if_false]
        cases sppPageTest p addto procId addr hop w c with
        | error e => rfl
        | ok t =>
            refine (ih t _).trans ?_
            simp [hissued, List.append_assoc, bind, Except.bind]

theorem Walk.along_cons (walk : Walk) (hop : Hop) (hs : List Hop) :
    walk.along p spp (hop :: hs) = (walk.along p spp [hop]).along p spp hs := by
  unfold Walk.along candidates
  simp only [List.flatMap_cons, List.flatMap_nil, List.append_nil, List.filter_append, List.append_assoc,
    List.singleton_append, List.getLast?_singleton, Option.elim_some]
  cases hs with
  | nil => rfl
  | cons next rest => rw [List.getLast?_cons_cons, List.getLast?_cons]; rfl

/-- A written turn writes down its hop, and otherwise it is the turn. -/
theorem walkLookahead_succ (fuel : ℕ) {w : World σ} (walk : Walk) (hpt : w.spp.pt = spp.pt)
    (hacc : w.spp.globalAccuracyPct = spp.globalAccuracyPct) (hop : Hop) :
    walkLookahead p addto procId addr (fuel + 1) (w, walk) hop =
      Execution.run (sppCandidate p addto procId addr hop) w (hop.read p spp).queue >>= fun m =>
        (hop.next? p spp).elim (.ok (m, walk.along p spp [hop]))
          (walkLookahead p addto procId addr fuel (m, walk.along p spp [hop])) := by
  have hread : sppPtReadPattern p w.spp hop.currSig hop.lookaheadConf hop.depth = hop.read p spp :=
    Hop.read_congr hpt hacc hop
  rw [walkLookahead]
  unfold walkHop
  rw [hread]
  dsimp only
  rw [run_walkCandidate]
  cases hrun : Execution.run (sppCandidate p addto procId addr hop) w (hop.read p spp).queue with
  | error e => rfl
  | ok m =>
      have hnext := nextHop_congr (p := p) ((candidates_tables hrun).1.trans hpt) hop (hop.read p spp)
      have hwalk : ({ walk with
          hops := walk.hops ++ [hop]
          examined := walk.examined ++ (hop.read p spp).queue.map (fun c => (hop, c))
          reached := walk.reached ++ ((hop.read p spp).queue.map fun c => (hop, c)).filter
            fun c => decide (p.issueCutoff ≤ c.2.1)
          depth := (nextHop p spp hop (hop.read p spp)).elim hop.depth Hop.depth } : Walk) =
            walk.along p spp [hop] := by
        simp [Walk.along, candidates, Hop.depthAfter]
      simp only [bind, Except.bind, pure, Except.pure, Functor.map, Except.map]
      rw [hnext, hwalk]
      exact goesOn_eq_elim _ _ _

/-- The written loop is the loop, and what it writes down are its hops. -/
theorem walkLookahead_eq (fuel : ℕ) {w : World σ} (walk : Walk) (hpt : w.spp.pt = spp.pt)
    (hacc : w.spp.globalAccuracyPct = spp.globalAccuracyPct) (hop : Hop) :
    walkLookahead p addto procId addr fuel (w, walk) hop =
      (fun t => (t, walk.along p spp (hops p spp fuel hop))) <$> sppLookahead p addto procId addr fuel w hop := by
  induction fuel generalizing w walk hop with
  | zero => simp [walkLookahead, sppLookahead, hops, Walk.along, candidates, Functor.map, Except.map]
  | succ fuel ih =>
      rw [walkLookahead_succ fuel walk hpt hacc, sppLookahead_succ procId addr fuel hpt hacc, hops,
        Walk.along_cons walk hop ((hop.next? p spp).elim [] (hops p spp fuel))]
      cases hrun : Execution.run (sppCandidate p addto procId addr hop) w (hop.read p spp).queue with
      | error e => rfl
      | ok m =>
          obtain ⟨hpt', hacc'⟩ := candidates_tables hrun
          cases hop.next? p spp with
          | none => simp [Walk.along, candidates, bind, Except.bind, Functor.map, Except.map]
          | some next => exact ih _ (hpt'.trans hpt) (hacc'.trans hacc) next

/-- The written demand is the demand, and what it writes down are its hops. -/
theorem walkOperate_eq (w : World σ) (lineAddr : Addr) :
    walkOperate p addto procId w lineAddr = sppTrain p w lineAddr >>= fun out =>
      (fun t => (t, Walk.empty.along p out.1.spp (demandHops p out.1.spp out.2))) <$>
        Execution.run (sppHopCandidate p addto procId (p.lineBase lineAddr)) out.1
          (candidates p out.1.spp (demandHops p out.1.spp out.2)) := by
  unfold walkOperate
  congr 1
  funext out
  obtain ⟨m, hop⟩ := out
  by_cases hzero : p.maxDepth = 0
  · simp only [hzero, if_true, demandHops]
    rfl
  · simp only [hzero, if_false, demandHops]
    rw [walkLookahead_eq p.maxDepth .empty rfl rfl hop, sppLookahead_eq procId (p.lineBase lineAddr) p.maxDepth rfl rfl hop]

theorem walkOperate_erase (w : World σ) (lineAddr : Addr) :
    Prod.fst <$> walkOperate p addto procId w lineAddr = sppOperate p addto procId w lineAddr := by
  rw [walkOperate_eq, sppOperate_eq]
  cases sppTrain p w lineAddr with
  | error e => rfl
  | ok out =>
      simp only [bind, Except.bind]
      cases Execution.run (sppHopCandidate p addto procId (p.lineBase lineAddr)) out.1
        (candidates p out.1.spp (demandHops p out.1.spp out.2)) <;> rfl

theorem walkOperate_spec {w w' : World σ} {walk : Walk} (h : walkOperate p addto procId w lineAddr = .ok (w', walk)) :
    sppOperate p addto procId w lineAddr = .ok w' ∧ ∃ m hop, sppTrain p w lineAddr = .ok (m, hop) ∧
      walk = Walk.empty.along p m.spp (demandHops p m.spp hop) := by
  refine ⟨by rw [← walkOperate_erase, h]; rfl, ?_⟩
  rw [walkOperate_eq] at h
  obtain ⟨⟨m, hop⟩, htrain, hrun⟩ := Execution.bind_eq_ok.mp h
  obtain ⟨t, -, hout⟩ := Execution.map_eq_ok.mp hrun
  exact ⟨m, hop, htrain, (Prod.mk.inj hout).2.symm⟩

/-! ## The cutoff -/

/-- No candidate has a confidence below `PREF_SPP_PF_THRESHOLD`. -/
theorem ptScan_threshold (conf : SppPtWay → ℕ) (ways : List SppPtWay) (w way maxConf : ℕ) :
    ∀ c ∈ (ptScan p conf ways w way maxConf).queue, p.pfThreshold ≤ c.1 := by
  induction ways generalizing w way maxConf with
  | nil => exact nofun
  | cons x ways ih =>
      intro c hc
      rw [ptScan] at hc
      by_cases hpf : p.pfThreshold ≤ conf x
      · simp only [hpf, if_true] at hc
        rcases List.mem_cons.mp hc with rfl | hc
        · exact hpf
        · split at hc
          · exact ih _ _ _ c hc
          · exact ih _ _ _ c hc
      · simp only [hpf, if_false] at hc
        exact ih _ _ _ c hc

theorem candidates_threshold {hs : List Hop} {c : Hop × ℕ × ℤ} (hc : c ∈ candidates p spp hs) :
    p.pfThreshold ≤ c.2.1 := by
  obtain ⟨hop, -, hmem⟩ := List.mem_flatMap.mp hc
  obtain ⟨d, hd, rfl⟩ := List.mem_map.mp hmem
  unfold Hop.read sppPtReadPattern at hd
  dsimp only at hd
  split at hd
  · cases hd
  · exact ptScan_threshold _ _ _ _ _ d hd

/-! ## The three parameters that no table reads -/

section

variable (b : Bool) (d t : ℕ)

theorem ptScan_congr {q : Params} (hthreshold : q.pfThreshold = p.pfThreshold) (conf : SppPtWay → ℕ)
    (ways : List SppPtWay) (w way maxConf : ℕ) : ptScan q conf ways w way maxConf = ptScan p conf ways w way maxConf := by
  induction ways generalizing w way maxConf with
  | nil => rfl
  | cons x ways ih => rw [ptScan, ptScan, hthreshold, ih, ih]

theorem Hop.read_knobs (hop : Hop) :
    hop.read { p with lookaheadOn := b, maxDepth := d, issueThreshold := t } spp = hop.read p spp := by
  have hscan := ptScan_congr (p := p) (q := { p with lookaheadOn := b, maxDepth := d, issueThreshold := t }) rfl
  unfold Hop.read sppPtReadPattern
  simp only [hscan]
  rfl

theorem Hop.next?_knobs (hop : Hop) :
    hop.next? { p with lookaheadOn := b, maxDepth := d, issueThreshold := t } spp =
      (if (hop.read p spp).queue = [] then none else nextHop p spp hop (hop.read p spp)).filter fun next =>
        decide (next.depth < d) && b := by
  unfold Hop.next?
  rw [Hop.read_knobs]
  rfl

theorem Hop.depthAfter_knobs (hop : Hop) :
    hop.depthAfter { p with lookaheadOn := b, maxDepth := d, issueThreshold := t } spp = hop.depthAfter p spp := by
  unfold Hop.depthAfter
  rw [Hop.read_knobs]
  rfl

theorem candidates_knobs (hs : List Hop) :
    candidates { p with lookaheadOn := b, maxDepth := d, issueThreshold := t } spp hs = candidates p spp hs := by
  unfold candidates
  simp only [Hop.read_knobs]

theorem sppTrain_knobs (w : World σ) (lineAddr : Addr) :
    sppTrain { p with lookaheadOn := b, maxDepth := d, issueThreshold := t } w lineAddr = sppTrain p w lineAddr := rfl

end

theorem hops_issueThreshold (t fuel : ℕ) (hop : Hop) :
    hops { p with issueThreshold := t } spp fuel hop = hops p spp fuel hop := by
  induction fuel generalizing hop with
  | zero => rfl
  | succ fuel ih =>
      have hnext : hop.next? { p with issueThreshold := t } spp = hop.next? p spp :=
        Hop.next?_knobs p.lookaheadOn p.maxDepth t hop
      rw [hops, hops, hnext, funext ih]

theorem candidates_issueThreshold (t : ℕ) (hs : List Hop) :
    candidates { p with issueThreshold := t } spp hs = candidates p spp hs :=
  candidates_knobs p.lookaheadOn p.maxDepth t hs

/-- Where the cutoff is at most `PREF_SPP_PF_THRESHOLD`, every candidate passes it. -/
theorem run_hopCandidates_unmuted {t : ℕ} (ht : t ≤ p.pfThreshold) (w : World σ) (hs : List Hop) :
    Execution.run (sppHopCandidate { p with issueThreshold := t } addto procId addr) w (candidates p spp hs) =
      Execution.run (fun m c => sppPageTest p addto procId addr c.1 m c.2) w (candidates p spp hs) := by
  refine Execution.run_congr fun m c hc => ?_
  have hconf := candidates_threshold hc
  have hcut : ¬ c.2.1 < ({ p with issueThreshold := t } : Params).issueCutoff := by
    unfold Params.issueCutoff
    dsimp only
    split <;> omega
  unfold sppHopCandidate
  rw [sppCandidate_eq, if_neg hcut]
  rfl

theorem sppOperate_unmuted {t : ℕ} (ht : t ≤ p.pfThreshold) (w : World σ) (lineAddr : Addr) :
    sppOperate { p with issueThreshold := t } addto procId w lineAddr = sppTrain p w lineAddr >>= fun out =>
      Execution.run (fun m c => sppPageTest p addto procId (p.lineBase lineAddr) c.1 m c.2) out.1
        (candidates p out.1.spp (demandHops p out.1.spp out.2)) := by
  rw [sppOperate_eq, sppTrain_knobs p.lookaheadOn p.maxDepth t]
  refine congrArg _ (funext fun out => ?_)
  unfold demandHops
  rw [hops_issueThreshold, candidates_issueThreshold]
  exact run_hopCandidates_unmuted ht _ _

/-- What two demands that differ in the cutoff have in common. -/
structure Mutes (p : Params) (t u : ℕ) (walk walk' : Walk) : Prop where
  hops : walk.hops = walk'.hops
  examined : walk.examined = walk'.examined
  depth : walk.depth = walk'.depth
  reached : ({ p with issueThreshold := u } : Params).issueCutoff = p.pfThreshold →
    walk.reached = walk'.reached.filter fun c => decide (({ p with issueThreshold := t } : Params).issueCutoff ≤ c.2.1)

theorem walkOperate_mutes {t u : ℕ} {w w₁ w₂ : World σ} {walk walk' : Walk}
    (h : walkOperate { p with issueThreshold := t } addto procId w lineAddr = .ok (w₁, walk))
    (h' : walkOperate { p with issueThreshold := u } addto procId w lineAddr = .ok (w₂, walk')) :
    Mutes p t u walk walk' := by
  obtain ⟨-, m, hop, htrain, rfl⟩ := walkOperate_spec h
  obtain ⟨-, m', hop', htrain', rfl⟩ := walkOperate_spec h'
  obtain ⟨rfl, rfl⟩ : m = m' ∧ hop = hop' := by
    rw [sppTrain_knobs p.lookaheadOn p.maxDepth t] at htrain
    rw [sppTrain_knobs p.lookaheadOn p.maxDepth u, htrain] at htrain'
    exact Prod.mk.inj (Except.ok.inj htrain')
  have hhops (v : ℕ) : demandHops { p with issueThreshold := v } m.spp hop = demandHops p m.spp hop :=
    hops_issueThreshold v p.maxDepth hop
  rw [hhops t, hhops u]
  refine ⟨rfl, ?_, ?_, fun hu => ?_⟩
  · simp only [Walk.along, candidates_issueThreshold]
  · have hafter (v : ℕ) : Hop.depthAfter { p with issueThreshold := v } m.spp = Hop.depthAfter p m.spp :=
      funext (Hop.depthAfter_knobs p.lookaheadOn p.maxDepth v)
    simp only [Walk.along, hafter]
  · simp only [Walk.along, Walk.empty, candidates_issueThreshold, List.nil_append, hu]
    have hall : (candidates p m.spp (demandHops p m.spp hop)).filter (fun c => decide (p.pfThreshold ≤ c.2.1)) =
        candidates p m.spp (demandHops p m.spp hop) :=
      List.filter_eq_self.mpr fun c hc => decide_eq_true (candidates_threshold hc)
    rw [hall]

/-- `PREF_SPP_ISSUE_THRESHOLD` only mutes. -/
theorem sppOperate_issueThreshold (t u : ℕ) (w : World σ) (lineAddr : Addr) :
    (∀ w₁ w₂ walk walk', walkOperate { p with issueThreshold := t } addto procId w lineAddr = .ok (w₁, walk) →
      walkOperate { p with issueThreshold := u } addto procId w lineAddr = .ok (w₂, walk') → Mutes p t u walk walk') ∧
    (t ≤ p.pfThreshold → u ≤ p.pfThreshold → sppOperate { p with issueThreshold := t } addto procId w lineAddr =
      sppOperate { p with issueThreshold := u } addto procId w lineAddr) :=
  ⟨fun _ _ _ _ h h' => walkOperate_mutes h h',
    fun ht hu => (sppOperate_unmuted ht w lineAddr).trans (sppOperate_unmuted hu w lineAddr).symm⟩

/-- The next line follows three times out of four, and the one after it else. -/
def fadingLine : World Unit :=
  { nextLineOnly () with
    spp := { (nextLineOnly ()).spp with pt := fun _ => ⟨[⟨1, 6⟩, ⟨2, 2⟩, ⟨0, 0⟩, ⟨0, 0⟩], 8⟩ } }

theorem sppOperate_issueThreshold_fading : ∃ w₁ w₂ walk walk',
    walkOperate { Params.small 4 (by decide) with issueThreshold := 50 } acceptAll 0 fadingLine 0x1000 = .ok (w₁, walk) ∧
      walkOperate { Params.small 4 (by decide) with issueThreshold := 0 } acceptAll 0 fadingLine 0x1000 = .ok (w₂, walk') ∧
        walk.reached.map (·.2.1) = [75, 56] ∧ walk'.reached.map (·.2.1) = [75, 25, 56, 42, 31] ∧
          Mutes (.small 4 (by decide)) 50 0 walk walk' := by
  obtain ⟨⟨w₁, walk⟩, h, hreached⟩ := Execution.map_eq_ok.mp (show
    (fun out : World Unit × Walk => out.2.reached.map (·.2.1)) <$>
      walkOperate { Params.small 4 (by decide) with issueThreshold := 50 } acceptAll 0 fadingLine 0x1000 =
        .ok [75, 56] by decide +kernel)
  obtain ⟨⟨w₂, walk'⟩, h', hreached'⟩ := Execution.map_eq_ok.mp (show
    (fun out : World Unit × Walk => out.2.reached.map (·.2.1)) <$>
      walkOperate { Params.small 4 (by decide) with issueThreshold := 0 } acceptAll 0 fadingLine 0x1000 =
        .ok [75, 25, 56, 42, 31] by decide +kernel)
  exact ⟨w₁, w₂, walk, walk', h, h', hreached, hreached',
    (sppOperate_issueThreshold 50 0 fadingLine 0x1000).1 w₁ w₂ walk walk' h h'⟩

/-! ## The depth -/

/-- A loop that may go deeper begins with the same hops. -/
theorem hops_maxDepth {d e fuel more : ℕ} (hd : d ≤ e) (hop : Hop) :
    hops { p with maxDepth := d } spp fuel hop <+: hops { p with maxDepth := e } spp (fuel + more) hop := by
  induction fuel generalizing hop with
  | zero => exact List.nil_prefix
  | succ fuel ih =>
      rw [Nat.add_right_comm, hops, hops, Hop.next?_knobs p.lookaheadOn d p.issueThreshold hop,
        Hop.next?_knobs p.lookaheadOn e p.issueThreshold hop]
      refine (List.prefix_cons_inj hop).mpr ?_
      cases (if (hop.read p spp).queue = [] then none else nextHop p spp hop (hop.read p spp)) with
      | none => exact List.nil_prefix
      | some next =>
          by_cases hgoes : (decide (next.depth < d) && p.lookaheadOn) = true
          · have hdeeper : (decide (next.depth < e) && p.lookaheadOn) = true := by
              simp only [Bool.and_eq_true, decide_eq_true_eq] at hgoes ⊢
              exact ⟨Nat.lt_of_lt_of_le hgoes.1 hd, hgoes.2⟩
            simp only [Option.filter_some, hgoes, hdeeper, if_true, Option.elim_some]
            exact ih next
          · simp only [Option.filter_some, if_neg hgoes]
            exact List.nil_prefix

theorem candidates_append (first rest : List Hop) :
    candidates p spp (first ++ rest) = candidates p spp first ++ candidates p spp rest := List.flatMap_append

theorem candidates_isPrefix {hs hs' : List Hop} (h : hs <+: hs') : candidates p spp hs <+: candidates p spp hs' := by
  obtain ⟨rest, rfl⟩ := h
  exact ⟨candidates p spp rest, (candidates_append hs rest).symm⟩

/-- One hop, whether the loop may not look ahead or may not go deeper. -/
theorem demandHops_once {d : ℕ} (hd : 1 ≤ d) (hop : Hop) :
    demandHops { p with lookaheadOn := false, maxDepth := d } spp hop = [hop] ∧
      demandHops { p with maxDepth := 1 } spp hop = [hop] := by
  refine ⟨?_, ?_⟩
  · obtain ⟨fuel, rfl⟩ := Nat.exists_eq_succ_of_ne_zero (Nat.ne_of_gt hd)
    have hnext : hop.next? { p with lookaheadOn := false, maxDepth := fuel + 1 } spp = none := by
      rw [Hop.next?_knobs false (fuel + 1) p.issueThreshold hop]
      simp
    unfold demandHops
    rw [hops, hnext]
    rfl
  · unfold demandHops
    rw [hops]
    cases hop.next? { p with maxDepth := 1 } spp <;> rfl

/-- A demand as it runs when these are its hops. -/
theorem walkOperate_knobs (b : Bool) (d : ℕ) (w : World σ) (lineAddr : Addr) :
    walkOperate { p with lookaheadOn := b, maxDepth := d } addto procId w lineAddr =
      sppTrain p w lineAddr >>= fun out =>
        (fun t => (t, Walk.empty.along p out.1.spp
          (demandHops { p with lookaheadOn := b, maxDepth := d } out.1.spp out.2))) <$>
          Execution.run (sppHopCandidate p addto procId (p.lineBase lineAddr)) out.1
            (candidates p out.1.spp (demandHops { p with lookaheadOn := b, maxDepth := d } out.1.spp out.2)) := by
  rw [walkOperate_eq, sppTrain_knobs b d p.issueThreshold]
  refine congrArg _ (funext fun out => ?_)
  have hcandidates (hs : List Hop) :
      candidates { p with lookaheadOn := b, maxDepth := d } out.1.spp hs = candidates p out.1.spp hs :=
    candidates_knobs b d p.issueThreshold hs
  have hafter : Hop.depthAfter { p with lookaheadOn := b, maxDepth := d } out.1.spp = Hop.depthAfter p out.1.spp :=
    funext (Hop.depthAfter_knobs b d p.issueThreshold)
  simp only [Walk.along, hcandidates, hafter]
  rfl

/-- A deeper demand begins as a shallower one does. -/
theorem walkOperate_deeper {d : ℕ} {w w' : World σ} {walk' : Walk}
    (h : walkOperate { p with maxDepth := d + 1 } addto procId w lineAddr = .ok (w', walk')) :
    ∃ t walk, walkOperate { p with maxDepth := d } addto procId w lineAddr = .ok (t, walk) ∧
      walk.hops <+: walk'.hops ∧ walk.examined <+: walk'.examined := by
  rw [walkOperate_knobs p.lookaheadOn (d + 1)] at h
  obtain ⟨⟨m, hop⟩, htrain, hout⟩ := Execution.bind_eq_ok.mp h
  obtain ⟨t', hrun, hout⟩ := Execution.map_eq_ok.mp hout
  obtain ⟨-, rfl⟩ := Prod.mk.inj hout
  have hprefix : demandHops { p with maxDepth := d } m.spp hop <+: demandHops { p with maxDepth := d + 1 } m.spp hop :=
    hops_maxDepth (Nat.le_succ d) hop
  obtain ⟨rest, hrest⟩ := hprefix
  rw [← hrest, candidates_append, Execution.run_append_eq_ok] at hrun
  obtain ⟨t, hfirst, -⟩ := hrun
  have hexamined : candidates p m.spp (demandHops { p with maxDepth := d } m.spp hop) <+:
      candidates p m.spp (demandHops { p with maxDepth := d + 1 } m.spp hop) := candidates_isPrefix ⟨rest, hrest⟩
  refine ⟨t, Walk.empty.along p m.spp (demandHops { p with maxDepth := d } m.spp hop), ?_, ⟨rest, hrest⟩, hexamined⟩
  rw [walkOperate_knobs p.lookaheadOn d]
  exact Execution.bind_eq_ok.mpr ⟨(m, hop), htrain, Execution.map_eq_ok.mpr ⟨t, hfirst, rfl⟩⟩

/-- A deeper demand examines the candidates of a shallower one first, and one that does not look ahead those of
the first hop. -/
theorem sppOperate_maxDepth (d : ℕ) (w : World σ) (lineAddr : Addr) :
    (∀ w' walk', walkOperate { p with maxDepth := d + 1 } addto procId w lineAddr = .ok (w', walk') →
      ∃ t walk, walkOperate { p with maxDepth := d } addto procId w lineAddr = .ok (t, walk) ∧
        walk.hops <+: walk'.hops ∧ walk.examined <+: walk'.examined) ∧
    (1 ≤ d → walkOperate { p with lookaheadOn := false, maxDepth := d } addto procId w lineAddr =
      walkOperate { p with maxDepth := 1 } addto procId w lineAddr) := by
  refine ⟨fun _ _ h => walkOperate_deeper h, fun hd => ?_⟩
  rw [walkOperate_knobs false d, walkOperate_knobs p.lookaheadOn 1]
  refine congrArg _ (funext fun out => ?_)
  rw [(demandHops_once hd out.2).1, (demandHops_once hd out.2).2]

theorem sppOperate_maxDepth_fading : ∃ t w walk walk',
    walkOperate { Params.small 4 (by decide) with maxDepth := 2 } acceptAll 0 fadingLine 0x1000 = .ok (t, walk) ∧
      walkOperate { Params.small 4 (by decide) with maxDepth := 3 } acceptAll 0 fadingLine 0x1000 = .ok (w, walk') ∧
        walk'.examined.map (·.2.1) = [75, 25, 56, 42] ∧ walk.examined <+: walk'.examined := by
  obtain ⟨⟨w, walk'⟩, h', hexamined⟩ := Execution.map_eq_ok.mp (show
    (fun out : World Unit × Walk => out.2.examined.map (·.2.1)) <$>
      walkOperate { Params.small 4 (by decide) with maxDepth := 3 } acceptAll 0 fadingLine 0x1000 =
        .ok [75, 25, 56, 42] by decide +kernel)
  obtain ⟨t, walk, h, -, hprefix⟩ := (sppOperate_maxDepth 2 fadingLine 0x1000).1 w walk' h'
  exact ⟨t, w, walk, walk', h, h', hexamined, hprefix⟩

end Scarab.Spp
