import Scarab.Prefetcher.Spp.Semantics

/-! # The lookahead loop terminates by itself

A hop is followed by another only if it selected a way, and then `depth` grew. -/

namespace Scarab.Spp

variable {σ : Type} {p : Params} {addto : AddTo σ}

/-- A scan that selects a way leaves a confidence at or above the threshold. -/
theorem ptScan_lookahead (conf : SppPtWay → ℕ) (ways : List SppPtWay) (w way maxConf : ℕ) :
    ((ptScan p conf ways w way maxConf).lookaheadWay = way ∧
        (ptScan p conf ways w way maxConf).lookaheadConf = maxConf) ∨
      p.pfThreshold ≤ (ptScan p conf ways w way maxConf).lookaheadConf := by
  induction ways generalizing w way maxConf with
  | nil => exact .inl ⟨rfl, rfl⟩
  | cons x ways ih =>
      by_cases hpf : p.pfThreshold ≤ conf x
      · by_cases hmax : maxConf < conf x
        · right
          simp only [ptScan, hpf, hmax, ite_true]
          rcases ih (w + 1) w (conf x) with ⟨_, hconf⟩ | hconf
          · rw [hconf]
            exact hpf
          · exact hconf
        · simpa only [ptScan, hpf, hmax, ite_true, ite_false] using ih (w + 1) way maxConf
      · simpa only [ptScan, hpf, ite_false] using ih (w + 1) way maxConf

/-- The way selected for the next hop carries at least the threshold. -/
theorem sppPtReadPattern_lookahead {spp : PrefSpp} {sig : Uns} {conf depth : ℕ}
    (h : (sppPtReadPattern p spp sig conf depth).lookaheadWay < p.ptWay) :
    p.pfThreshold ≤ (sppPtReadPattern p spp sig conf depth).lookaheadConf := by
  unfold sppPtReadPattern at h ⊢
  simp only at h ⊢
  split at h
  · exact absurd h (Nat.lt_irrefl _)
  · rename_i hc
    simp only [hc, ite_false]
    rcases ptScan_lookahead (p := p) (pathConf _ spp.globalAccuracyPct conf depth) _ 0 p.ptWay 0 with
      ⟨hway, _⟩ | hconf
    · rw [hway] at h
      exact absurd h (Nat.lt_irrefl _)
    · exact hconf

/-- Every hop that is followed by another increments `depth`. -/
theorem sppHop_depth {procId : Uns8} {addr : Addr} {w w' : World σ} {hop next : Hop}
    (h : sppHop p addto procId addr w hop = .ok (w', some next)) : next.depth = hop.depth + 1 := by
  obtain ⟨m, _, hret⟩ := Execution.bind_eq_ok.mp h
  have hnext := congrArg Prod.snd (Except.ok.inj hret)
  simp only at hnext
  split at hnext
  · cases hnext
  · unfold nextHop at hnext
    split at hnext
    · rename_i hway
      obtain rfl := Option.some.inj hnext
      simp only [sppPtReadPattern_lookahead hway, ite_true]
    · cases hnext

/-- From depth `d`, `MAX_DEPTH - d` turns are enough: more fuel changes nothing. -/
theorem sppLookahead_fuel (procId : Uns8) (addr : Addr) (fuel more : ℕ) (w : World σ) (hop : Hop)
    (hpos : 0 < fuel) (hfuel : p.maxDepth ≤ hop.depth + fuel) :
    sppLookahead p addto procId addr (fuel + more) w hop =
      sppLookahead p addto procId addr fuel w hop := by
  induction fuel generalizing w hop with
  | zero => exact absurd hpos (Nat.lt_irrefl _)
  | succ fuel ih =>
      rw [Nat.add_right_comm, sppLookahead, sppLookahead]
      cases hhop : sppHop p addto procId addr w hop with
      | error e => rfl
      | ok out =>
          obtain ⟨m, next⟩ := out
          cases next with
          | none => rfl
          | some next =>
              have hdepth := sppHop_depth hhop
              by_cases hd : next.depth < p.maxDepth
              · simp only [bind, Except.bind, hd, true_and]
                rw [ih m next (by omega) (by omega)]
              · simp [bind, Except.bind, hd]

end Scarab.Spp
