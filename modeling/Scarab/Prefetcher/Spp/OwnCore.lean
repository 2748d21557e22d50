import Scarab.Prefetcher.Request
import Scarab.Prefetcher.Spp.Equations

/-! # The core of the requested lines

Candidates stay on the page of the demand, and a page belongs to one core. So whatever
the tables hold, a demand asks for lines of its own core. -/

namespace Scarab.Spp

variable {κ : Type} {p : Params} {addto : Ul1Queue κ}

/-- `pref_addto_ul1req_queue`, for a queue that takes whole requests. -/
def plainRequests (addto : Ul1Queue κ) : AddTo κ :=
  fun procId lineIndex prefetcherId k => addto (.plain procId lineIndex prefetcherId) k

/-- Masking low bits away keeps the core. -/
theorem core_of_masked {n : ℕ} (hn : n ≤ 58) (x : Addr) :
    (x &&& ~~~(BitVec.ofNat 64 (2 ^ n - 1))) >>> 58 = x >>> 58 := by
  apply BitVec.eq_of_getLsbD_eq
  intro i hi
  have hbig : ¬ 58 + i < n := by omega
  simp only [BitVec.getLsbD_ushiftRight, BitVec.getLsbD_and, BitVec.getLsbD_not,
    BitVec.getLsbD_ofNat, Nat.testBit_two_pow_sub_one, hbig, decide_false, Bool.and_false,
    Bool.not_false, Bool.and_true]
  by_cases h64 : 58 + i < 64
  · simp [h64]
  · simp [h64, BitVec.getLsbD_of_ge _ _ (Nat.le_of_not_lt h64)]

theorem core_of_lineBase (x : Addr) : p.lineBase x >>> 58 = x >>> 58 :=
  core_of_masked (by have := p.line_le_page; have := p.page_lt; omega) x

theorem core_of_page {x y : Addr} (h : p.pageBase x = p.pageBase y) : x >>> 58 = y >>> 58 := by
  have hx : p.pageBase x >>> 58 = x >>> 58 := core_of_masked (by have := p.page_lt; omega) x
  have hy : p.pageBase y >>> 58 = y >>> 58 := core_of_masked (by have := p.page_lt; omega) y
  rw [← hx, h, hy]

/-- A line has the core of its addresses. -/
theorem core_of_line (x : Addr) : ((x >>> p.log2Line) <<< p.log2Line) >>> 58 = x >>> 58 := by
  have hn : p.log2Line ≤ 58 := by
    have := p.line_le_page
    have := p.page_lt
    omega
  apply BitVec.eq_of_getLsbD_eq
  intro i hi
  have hbig : ¬ 58 + i < p.log2Line := by omega
  simp only [BitVec.getLsbD_ushiftRight, BitVec.getLsbD_shiftLeft, hbig, decide_false, Bool.not_false,
    Bool.and_true]
  rw [show p.log2Line + (58 + i - p.log2Line) = 58 + i by omega]
  by_cases h64 : 58 + i < 64
  · simp [h64]
  · simp [h64, BitVec.getLsbD_of_ge _ _ (Nat.le_of_not_lt h64)]

/-! ## What is asked for -/

variable {procId : Uns8} {addr : Addr}

/-- The line of a candidate that is checked belongs to the core of the demand. -/
theorem candidate_onBehalfOf {pfAddr : Addr} {hwpId : Uns8}
    (hcore : procId.setWidth 64 = addr >>> 58) (hpage : p.pageBase addr = p.pageBase pfAddr) :
    (Ul1Request.plain procId (pfAddr >>> p.log2Line) hwpId).OnBehalfOf p.log2Line procId := by
  refine ⟨rfl, ?_⟩
  calc procId.setWidth 64
      = addr >>> 58 := hcore
    _ = pfAddr >>> 58 := core_of_page hpage
    _ = _ := (core_of_line pfAddr).symm

theorem sppCandidate_asks {hop : Hop} {w w' : World κ} {c : ℕ × ℤ}
    (hcore : procId.setWidth 64 = addr >>> 58)
    (h : sppCandidate p (plainRequests addto) procId addr hop w c = .ok w') :
    AsksOnly addto (·.OnBehalfOf p.log2Line procId) w.queue w'.queue := by
  obtain ⟨conf, delta⟩ := c
  cases sppCandidate_spec h with
  | muted => exact .refl _
  | issued _ hpage =>
      obtain ⟨o, hs⟩ := sppIssue_spec (p := p) (plainRequests addto) procId w
        (candidateAddr p hop delta) conf
      by_cases ho : o = .filtered
      · rw [hs.unasked ho]
        exact .refl _
      · have hqueue := congrArg Prod.snd (hs.answer ho)
        simp only [plainRequests] at hqueue
        rw [← hqueue]
        exact .head (candidate_onBehalfOf hcore hpage) (.refl _)
  | crossed => exact .refl _
  | dropped => exact .refl _

theorem candidates_ask {hop : Hop} {w w' : World κ} {cs : List (ℕ × ℤ)}
    (hcore : procId.setWidth 64 = addr >>> 58)
    (h : Execution.run (sppCandidate p (plainRequests addto) procId addr hop) w cs = .ok w') :
    AsksOnly addto (·.OnBehalfOf p.log2Line procId) w.queue w'.queue :=
  Execution.run_invariant
    (I := fun m : World κ => AsksOnly addto (·.OnBehalfOf p.log2Line procId) w.queue m.queue)
    (fun _ _ _ hm hc => hm.trans (sppCandidate_asks hcore hc)) (.refl _) h

theorem sppHop_asks {hop : Hop} {w w' : World κ} {next : Option Hop}
    (hcore : procId.setWidth 64 = addr >>> 58)
    (h : sppHop p (plainRequests addto) procId addr w hop = .ok (w', next)) :
    AsksOnly addto (·.OnBehalfOf p.log2Line procId) w.queue w'.queue := by
  obtain ⟨m, hm, hret⟩ := Execution.bind_eq_ok.mp h
  cases hret
  exact candidates_ask hcore hm

theorem sppLookahead_asks {fuel : ℕ} {w w' : World κ} {hop : Hop}
    (hcore : procId.setWidth 64 = addr >>> 58)
    (h : sppLookahead p (plainRequests addto) procId addr fuel w hop = .ok w') :
    AsksOnly addto (·.OnBehalfOf p.log2Line procId) w.queue w'.queue := by
  induction fuel generalizing w hop with
  | zero =>
      cases h
      exact .refl _
  | succ fuel ih =>
      obtain ⟨⟨m, next⟩, hm, hrest⟩ := Execution.bind_eq_ok.mp h
      apply (sppHop_asks hcore hm).trans
      cases next with
      | none =>
          cases hrest
          exact .refl _
      | some hop' =>
          simp only at hrest
          split at hrest
          · exact ih hrest
          · cases hrest
            exact .refl _

/-- A demand asks only for its own core; nothing has to be assumed of the tables. -/
theorem sppOperate_asks {w w' : World κ} {lineAddr : Addr}
    (hcore : procId.setWidth 64 = lineAddr >>> 58)
    (h : sppOperate p (plainRequests addto) procId w lineAddr = .ok w') :
    AsksOnly addto (·.OnBehalfOf p.log2Line procId) w.queue w'.queue := by
  obtain ⟨⟨m, hop⟩, hm, hrest⟩ := Execution.bind_eq_ok.mp h
  obtain ⟨row, out, htrain⟩ := sppTrain_spec hm
  rw [← htrain.queue]
  simp only at hrest
  split at hrest
  · cases hrest
    exact .refl _
  · apply sppLookahead_asks _ hrest
    rw [core_of_lineBase]
    exact hcore

end Scarab.Spp
