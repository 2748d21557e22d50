import Scarab.Prefetcher.Spp.Lookahead
import Scarab.Prefetcher.Spp.Equations

/-! # The hops of the lookahead loop

Candidates change neither the Pattern Table nor the accuracy. So the hops of a demand, and the
candidates of each, are a function of the tables at its start, and the loop only goes through them. -/

namespace Scarab.Spp

variable {σ : Type} {p : Params} {addto : AddTo σ} {spp spp' : PrefSpp} {hop next : Hop}

/-! ## The hops -/

/-- What `spp_pt_read_pattern` returns to a hop. -/
def Hop.read (p : Params) (spp : PrefSpp) (hop : Hop) : SppPtRead :=
  sppPtReadPattern p spp hop.currSig hop.lookaheadConf hop.depth

/-- The hop that the loop goes on with. -/
def Hop.next? (p : Params) (spp : PrefSpp) (hop : Hop) : Option Hop :=
  (if (hop.read p spp).queue = [] then none else nextHop p spp hop (hop.read p spp)).filter fun next =>
    decide (next.depth < p.maxDepth) && p.lookaheadOn

/-- The hops of the do-while loop from a hop on. -/
inductive Loop (p : Params) (spp : PrefSpp) : Hop → List Hop → Prop where
  | last {hop : Hop} (h : hop.next? p spp = none) : Loop p spp hop [hop]
  | more {hop next : Hop} {rest : List Hop} (h : hop.next? p spp = some next) (hrest : Loop p spp next rest) :
      Loop p spp hop (hop :: rest)

/-- The first hops of the loop. -/
def hops (p : Params) (spp : PrefSpp) : ℕ → Hop → List Hop
  | 0, _ => []
  | fuel + 1, hop => hop :: (hop.next? p spp).elim [] (hops p spp fuel)

/-- The hops of a demand. -/
def demandHops (p : Params) (spp : PrefSpp) (hop : Hop) : List Hop := hops p spp p.maxDepth hop

/-- The candidates of hops, each with its hop. -/
def candidates (p : Params) (spp : PrefSpp) (hs : List Hop) : List (Hop × ℕ × ℤ) :=
  hs.flatMap fun hop => (hop.read p spp).queue.map fun c => (hop, c)

/-- `depth` at the end of a hop. -/
def Hop.depthAfter (p : Params) (spp : PrefSpp) (hop : Hop) : ℕ :=
  (nextHop p spp hop (hop.read p spp)).elim hop.depth Hop.depth

/-! ## Going through the hops -/

theorem Hop.read_congr (hpt : spp'.pt = spp.pt) (hacc : spp'.globalAccuracyPct = spp.globalAccuracyPct) (hop : Hop) :
    hop.read p spp' = hop.read p spp := by
  unfold Hop.read sppPtReadPattern
  rw [hpt, hacc]

theorem nextHop_congr (hpt : spp'.pt = spp.pt) (hop : Hop) (read : SppPtRead) :
    nextHop p spp' hop read = nextHop p spp hop read := by
  unfold nextHop
  rw [hpt]

/-- The tests for another turn are those of `Hop.next?`. -/
theorem goesOn_eq_elim {β : Type} (next : Option Hop) (go : Hop → β) (stop : β) :
    (match next with
      | some hop => if hop.depth < p.maxDepth ∧ p.lookaheadOn then go hop else stop
      | none => stop) =
      (next.filter fun hop => decide (hop.depth < p.maxDepth) && p.lookaheadOn).elim stop go := by
  cases next with
  | none => rfl
  | some next =>
      by_cases hgoes : next.depth < p.maxDepth ∧ p.lookaheadOn = true
      · have hkeep : (decide (next.depth < p.maxDepth) && p.lookaheadOn) = true := by simp [hgoes.1, hgoes.2]
        simp only [Option.filter_some, hkeep, if_true, Option.elim_some, if_pos hgoes]
      · have hdrop : (decide (next.depth < p.maxDepth) && p.lookaheadOn) = false := by
          simpa using fun hdepth hon => hgoes ⟨hdepth, hon⟩
        simp only [Option.filter_some, hdrop, if_neg hgoes, Bool.false_eq_true, if_false, Option.elim_none]

theorem candidates_tables {procId : Uns8} {addr : Addr} {w w' : World σ} {cs : List (ℕ × ℤ)}
    (h : Execution.run (sppCandidate p addto procId addr hop) w cs = .ok w') :
    w'.spp.pt = w.spp.pt ∧ w'.spp.globalAccuracyPct = w.spp.globalAccuracyPct := by
  refine Execution.run_invariant (I := fun m : World σ => m.spp.pt = w.spp.pt ∧
    m.spp.globalAccuracyPct = w.spp.globalAccuracyPct) ?_ ⟨rfl, rfl⟩ h
  rintro m c t ⟨hpt, hacc⟩ hc
  obtain ⟨-, hpt', hacc'⟩ := sppCandidate_tables hc
  exact ⟨hpt'.trans hpt, hacc'.trans hacc⟩

/-- A turn of the loop over the candidates, with the hop of each. -/
def sppHopCandidate (p : Params) (addto : AddTo σ) (procId : Uns8) (addr : Addr) (w : World σ) (c : Hop × ℕ × ℤ) :
    Except String (World σ) :=
  sppCandidate p addto procId addr c.1 w c.2

theorem run_hopCandidates (procId : Uns8) (addr : Addr) (w : World σ) (cs : List (ℕ × ℤ)) :
    Execution.run (sppHopCandidate p addto procId addr) w (cs.map fun c => (hop, c)) =
      Execution.run (sppCandidate p addto procId addr hop) w cs := by
  induction cs generalizing w with
  | nil => rfl
  | cons c cs ih =>
      rw [List.map_cons, Execution.run, Execution.run]
      exact congrArg _ (funext ih)

/-- A turn goes through the candidates of its hop, and another turn follows if the tables say so. -/
theorem sppLookahead_succ (procId : Uns8) (addr : Addr) (fuel : ℕ) {w : World σ} (hpt : w.spp.pt = spp.pt)
    (hacc : w.spp.globalAccuracyPct = spp.globalAccuracyPct) (hop : Hop) :
    sppLookahead p addto procId addr (fuel + 1) w hop =
      Execution.run (sppCandidate p addto procId addr hop) w (hop.read p spp).queue >>= fun m =>
        (hop.next? p spp).elim (.ok m) (sppLookahead p addto procId addr fuel m) := by
  have hread : sppPtReadPattern p w.spp hop.currSig hop.lookaheadConf hop.depth = hop.read p spp :=
    Hop.read_congr hpt hacc hop
  rw [sppLookahead]
  unfold sppHop
  rw [hread]
  dsimp only
  cases hrun : Execution.run (sppCandidate p addto procId addr hop) w (hop.read p spp).queue with
  | error e => rfl
  | ok m =>
      have hnext := nextHop_congr (p := p) ((candidates_tables hrun).1.trans hpt) hop (hop.read p spp)
      simp only [bind, Except.bind, pure, Except.pure]
      rw [hnext]
      exact goesOn_eq_elim _ _ _

/-- The loop goes through the candidates of its hops. -/
theorem sppLookahead_eq (procId : Uns8) (addr : Addr) (fuel : ℕ) {w : World σ} (hpt : w.spp.pt = spp.pt)
    (hacc : w.spp.globalAccuracyPct = spp.globalAccuracyPct) (hop : Hop) :
    sppLookahead p addto procId addr fuel w hop =
      Execution.run (sppHopCandidate p addto procId addr) w (candidates p spp (hops p spp fuel hop)) := by
  induction fuel generalizing w hop with
  | zero => rfl
  | succ fuel ih =>
      rw [sppLookahead_succ procId addr fuel hpt hacc, hops, candidates, List.flatMap_cons, Execution.run_append,
        run_hopCandidates]
      cases hrun : Execution.run (sppCandidate p addto procId addr hop) w (hop.read p spp).queue with
      | error e => rfl
      | ok m =>
          obtain ⟨hpt', hacc'⟩ := candidates_tables hrun
          cases hop.next? p spp with
          | none => rfl
          | some next => exact ih (hpt'.trans hpt) (hacc'.trans hacc) next

/-- `spp_operate` trains, and goes through the candidates of the hops of the demand. -/
theorem sppOperate_eq (procId : Uns8) (w : World σ) (lineAddr : Addr) :
    sppOperate p addto procId w lineAddr = sppTrain p w lineAddr >>= fun out =>
      Execution.run (sppHopCandidate p addto procId (p.lineBase lineAddr)) out.1
        (candidates p out.1.spp (demandHops p out.1.spp out.2)) := by
  unfold sppOperate
  congr 1
  funext out
  obtain ⟨m, hop⟩ := out
  by_cases hzero : p.maxDepth = 0
  · simp only [hzero, if_true, demandHops]
    rfl
  · simp only [hzero, if_false]
    exact sppLookahead_eq procId (p.lineBase lineAddr) p.maxDepth rfl rfl hop

/-! ## Their number -/

theorem Hop.next?_spec (h : hop.next? p spp = some next) :
    (hop.read p spp).queue ≠ [] ∧ nextHop p spp hop (hop.read p spp) = some next ∧ next.depth < p.maxDepth ∧
      p.lookaheadOn = true := by
  unfold Hop.next? at h
  obtain ⟨hsome, hgoes⟩ := Option.filter_eq_some_iff.mp h
  split at hsome
  · cases hsome
  · next hqueue => exact ⟨hqueue, hsome, by simpa using hgoes⟩

/-- The next hop, in terms of the way that was selected. -/
theorem nextHop_spec {read : SppPtRead} (h : nextHop p spp hop read = some next) :
    read.lookaheadWay < p.ptWay ∧ next =
      { currSig := ((hop.currSig <<< p.sigShift) ^^^ sppEncodeSigDelta p
          (((spp.pt (ptSetOf p hop.currSig)).ways[read.lookaheadWay]?.map (·.delta)).getD 0)) &&& p.sigMask
        baseAddr := hop.baseAddr + p.deltaBytes
          (((spp.pt (ptSetOf p hop.currSig)).ways[read.lookaheadWay]?.map (·.delta)).getD 0)
        lookaheadConf := read.lookaheadConf
        depth := if p.pfThreshold ≤ read.lookaheadConf then hop.depth + 1 else hop.depth } := by
  unfold nextHop at h
  split at h
  · next hway => exact ⟨hway, (Option.some.inj h).symm⟩
  · cases h

/-- A hop that is followed by another one increments `depth`. -/
theorem Hop.next?_depth (h : hop.next? p spp = some next) : next.depth = hop.depth + 1 := by
  obtain ⟨hway, rfl⟩ := nextHop_spec (Hop.next?_spec h).2.1
  exact if_pos (sppPtReadPattern_lookahead hway)

/-- The loop ends by itself, after its first `MAX_DEPTH` hops at the latest. -/
theorem loop_hops {fuel : ℕ} (hpos : 0 < fuel) (hfuel : p.maxDepth ≤ hop.depth + fuel) :
    Loop p spp hop (hops p spp fuel hop) := by
  induction fuel generalizing hop with
  | zero => exact absurd hpos (Nat.lt_irrefl 0)
  | succ fuel ih =>
      rw [hops]
      cases hnext : hop.next? p spp with
      | none => exact .last hnext
      | some next =>
          have hdepth := Hop.next?_depth hnext
          have hlt := (Hop.next?_spec hnext).2.2.1
          exact .more hnext (ih (by omega) (by omega))

theorem Loop.unique {hs hs' : List Hop} (h : Loop p spp hop hs) (h' : Loop p spp hop hs') : hs = hs' := by
  induction h generalizing hs' with
  | last hnone =>
      cases h' with
      | last => rfl
      | more hsome => cases hnone.symm.trans hsome
  | more hsome _ ih =>
      cases h' with
      | last hnone => cases hnone.symm.trans hsome
      | more hsome' hrest =>
          obtain rfl := Option.some.inj (hsome.symm.trans hsome')
          rw [ih hrest]

theorem hops_length (fuel : ℕ) (hop : Hop) : (hops p spp fuel hop).length ≤ fuel := by
  induction fuel generalizing hop with
  | zero => exact Nat.le_refl 0
  | succ fuel ih =>
      rw [hops, List.length_cons]
      cases hop.next? p spp with
      | none => exact Nat.succ_le_succ (Nat.zero_le fuel)
      | some next => exact Nat.succ_le_succ (ih next)

end Scarab.Spp
