import Scarab.Lib.Bits
import Scarab.Prefetcher.Spp.Confidence
import Scarab.Prefetcher.Spp.OwnCore

/-! # The page of the requested lines

However far the hops walk, and however often their addresses wrap around, a demand asks only for lines of its
own page, and records only offsets in a page. -/

namespace Scarab.Spp

variable {κ : Type} {p : Params} {addto : Ul1Queue κ} {procId : Uns8} {addr lineAddr : Addr} {hop : Hop}

/-! ## Lines and pages -/

/-- Masking low bits away does not depend on lower ones. -/
theorem masked_of_line {l n : ℕ} (hl : l ≤ n) (x : Addr) :
    ((x >>> l) <<< l) &&& ~~~(BitVec.ofNat 64 (2 ^ n - 1)) = x &&& ~~~(BitVec.ofNat 64 (2 ^ n - 1)) := by
  apply BitVec.eq_of_getLsbD_eq
  intro i hi
  simp only [BitVec.getLsbD_and, BitVec.getLsbD_not, BitVec.getLsbD_ofNat, Nat.testBit_two_pow_sub_one,
    BitVec.getLsbD_shiftLeft, BitVec.getLsbD_ushiftRight, hi, decide_true, Bool.true_and]
  by_cases hlow : i < n
  · simp [hlow]
  · have hline : ¬ i < l := by omega
    rw [show l + (i - l) = i by omega]
    simp [hline]

theorem pageBase_line (x : Addr) : p.pageBase ((x >>> p.log2Line) <<< p.log2Line) = p.pageBase x :=
  masked_of_line p.line_le_page x

theorem pageBase_lineBase (x : Addr) : p.pageBase (p.lineBase x) = p.pageBase x := by
  have hline : p.lineBase x = (x >>> p.log2Line) <<< p.log2Line := Bits.and_high_eq x p.log2Line
  rw [hline]
  exact pageBase_line x

theorem linesPerPage_pos : 0 < p.linesPerPage :=
  Nat.div_pos (Nat.pow_le_pow_right (by omega) p.line_le_page) (Nat.pow_pos (by omega))

/-! ## What a candidate does -/

/-- A request for a line of the page of the demand, for its core. -/
def Ul1Request.InPageOf (p : Params) (procId : Uns8) (lineAddr : Addr) (req : Ul1Request) : Prop :=
  req.procId = procId ∧ p.pageBase (req.lineIndex <<< p.log2Line) = p.pageBase lineAddr

/-- Lines of a page belong to its core. -/
theorem Ul1Request.InPageOf.core {req : Ul1Request} (h : Ul1Request.InPageOf p procId lineAddr req) :
    (req.lineIndex <<< p.log2Line) >>> 58 = lineAddr >>> 58 ∧
      (procId.setWidth 64 = lineAddr >>> 58 → req.OnBehalfOf p.log2Line procId) := by
  have hcore := core_of_page h.2
  exact ⟨hcore, fun hproc => ⟨h.1, hproc.trans hcore.symm⟩⟩

/-- What a demand leaves: it asked for lines of its page, and what is new in the GHR has an offset in a page. -/
structure StaysInPage (p : Params) (addto : Ul1Queue κ) (procId : Uns8) (lineAddr : Addr) (w w' : World κ) : Prop where
  asks : AsksOnly addto (Ul1Request.InPageOf p procId lineAddr) w.queue w'.queue
  ghr : ∀ g ∈ w'.spp.ghr, g ∈ w.spp.ghr ∨ g.offset < p.linesPerPage
  crossed : ∃ new, w'.history = w.history ++ new ∧
    ∀ sig conf offset delta, .crossed sig conf offset delta ∈ new → offset < p.linesPerPage

theorem StaysInPage.trans {w m t : World κ} (h : StaysInPage p addto procId lineAddr w m)
    (h' : StaysInPage p addto procId lineAddr m t) : StaysInPage p addto procId lineAddr w t := by
  obtain ⟨new, hnew, hoffsets⟩ := h.crossed
  obtain ⟨new', hnew', hoffsets'⟩ := h'.crossed
  refine ⟨h.asks.trans h'.asks, fun g hg => ?_, new ++ new', ?_, fun sig conf offset delta hmem => ?_⟩
  · cases h'.ghr g hg with
    | inl hold => exact h.ghr g hold
    | inr hlt => exact .inr hlt
  · rw [hnew', hnew, List.append_assoc]
  · cases List.mem_append.mp hmem with
    | inl hfirst => exact hoffsets sig conf offset delta hfirst
    | inr hsecond => exact hoffsets' sig conf offset delta hsecond

/-- Recording leaves an entry alone, or gives it the recorded offset. -/
theorem sppGhrUpdate_offset {ghr ghr' : List SppGhrEntry} {sig : Uns} {conf offset : ℕ} {delta : ℤ}
    (h : sppGhrUpdate p ghr sig conf offset delta = .ok ghr') {g : SppGhrEntry} (hg : g ∈ ghr') :
    g ∈ ghr ∨ g.offset = offset := by
  unfold sppGhrUpdate at h
  split at h
  · cases h
    exact .inl hg
  · split at h
    · next i hfind =>
      rw [← Except.ok.inj h] at hg
      obtain ⟨j, hj, rfl⟩ := List.mem_iff_getElem.mp hg
      rw [List.getElem_modify]
      split
      · next heq =>
        subst heq
        obtain ⟨hlt, hmatch, -⟩ := List.findIdx?_eq_some_iff_getElem.mp hfind
        right
        simpa using (Bool.and_eq_true_iff.mp hmatch).2
      · exact .inl (List.getElem_mem _)
    · dsimp only at h
      obtain ⟨-, h⟩ := Execution.ite_error_eq_ok.mp h
      rw [← Except.ok.inj h] at hg
      cases List.mem_or_eq_of_mem_set hg with
      | inl hold => exact .inl hold
      | inr hnew =>
          right
          rw [hnew]

theorem sppCandidate_staysInPage {w w' : World κ} {c : ℕ × ℤ}
    (h : sppCandidate p (plainRequests addto) procId (p.lineBase lineAddr) hop w c = .ok w') :
    StaysInPage p addto procId lineAddr w w' := by
  obtain ⟨conf, delta⟩ := c
  have hidle : StaysInPage p addto procId lineAddr w w :=
    ⟨.refl _, fun g hg => .inl hg, [], (List.append_nil _).symm, nofun⟩
  cases sppCandidate_spec h with
  | muted => exact hidle
  | dropped => exact hidle
  | issued _ hpage =>
      rw [pageBase_lineBase] at hpage
      obtain ⟨o, hs⟩ := sppIssue_spec (plainRequests addto) procId w (candidateAddr p hop delta) conf
      generalize sppIssue p (plainRequests addto) procId w (candidateAddr p hop delta) conf = t at hs
      refine ⟨?_, fun g hg => ?_, [.candidate (grade p conf) (candidateAddr p hop delta) o], ?_, ?_⟩
      · by_cases ho : o = .filtered
        · rw [hs.unasked ho]
          exact .refl _
        · have hqueue := congrArg Prod.snd (hs.answer ho)
          simp only [plainRequests] at hqueue
          rw [← hqueue]
          have hreq (id : Uns8) : Ul1Request.InPageOf p procId lineAddr
              (.plain procId (candidateAddr p hop delta >>> p.log2Line) id) :=
            ⟨rfl, (pageBase_line (candidateAddr p hop delta)).trans hpage.symm⟩
          exact .head (hreq _) (.refl _)
      · rw [hs.world_eq] at hg
        exact .inl hg
      · rw [hs.world_eq]
        rfl
      · rintro sig conf' offset delta' hmem
        cases List.mem_singleton.mp hmem
  | crossed _ hpage hon hghr =>
      have hlt : p.pageOffset (candidateAddr p hop delta) < p.linesPerPage := by
        have hle := pageOffset_le (p := p) (candidateAddr p hop delta)
        have hpos := linesPerPage_pos (p := p)
        omega
      refine ⟨.refl _, fun g hg => ?_, _, rfl, ?_⟩
      · cases sppGhrUpdate_offset hghr hg with
        | inl hold => exact .inl hold
        | inr hoffset =>
            right
            rw [hoffset]
            exact hlt
      · rintro sig conf' offset delta' hmem
        cases List.mem_singleton.mp hmem
        exact hlt

/-! ## A demand -/

theorem sppOperate_staysInPage {w w' : World κ} (h : sppOperate p (plainRequests addto) procId w lineAddr = .ok w') :
    StaysInPage p addto procId lineAddr w w' := by
  rw [sppOperate_eq] at h
  obtain ⟨⟨m, hop⟩, htrain, hrun⟩ := Execution.bind_eq_ok.mp h
  obtain ⟨row, out, hs⟩ := sppTrain_spec htrain
  have hm : StaysInPage p addto procId lineAddr w m := by
    refine ⟨?_, fun g hg => ?_, _, hs.history, ?_⟩
    · rw [hs.queue]
      exact .refl _
    · rw [hs.ghr] at hg
      exact .inl hg
    · rintro sig conf offset delta hmem
      cases List.mem_singleton.mp hmem
  exact Execution.run_invariant (fun _ _ _ hw hc => hw.trans (sppCandidate_staysInPage hc)) hm hrun

/-- Whatever the tables hold, a demand asks only for lines of its page, which are lines of its core, and records
only offsets in a page. -/
theorem sppOperate_samePage {w w' : World κ} (h : sppOperate p (plainRequests addto) procId w lineAddr = .ok w') :
    StaysInPage p addto procId lineAddr w w' ∧ ∀ req, Ul1Request.InPageOf p procId lineAddr req →
      (req.lineIndex <<< p.log2Line) >>> 58 = lineAddr >>> 58 ∧
        (procId.setWidth 64 = lineAddr >>> 58 → req.OnBehalfOf p.log2Line procId) :=
  ⟨sppOperate_staysInPage h, fun _ hreq => hreq.core⟩

/-- A demand of the last line but one of a page: the last line is asked for, and what follows is recorded. -/
theorem sppOperate_samePage_crossing :
    let addto : Ul1Queue (List Ul1Request) := fun req reqs => (true, reqs ++ [req])
    ∃ w', sppOperate (.small 4 (by decide)) (plainRequests addto) 0 (nextLineOnly []) 0x1F80 = .ok w' ∧
      w'.queue.map (·.lineIndex) = [0x7F] ∧ (w'.spp.ghr.filter (·.valid)).map (·.offset) = [14, 1, 2, 3, 4, 5, 6, 7] ∧
        StaysInPage (.small 4 (by decide)) addto 0 0x1F80 (nextLineOnly []) w' := by
  intro addto
  obtain ⟨w', hrun, hw'⟩ := Execution.map_eq_ok.mp (show
    (fun w : World (List Ul1Request) => (w.queue.map (·.lineIndex), (w.spp.ghr.filter (·.valid)).map (·.offset))) <$>
      sppOperate (.small 4 (by decide)) (plainRequests addto) 0 (nextLineOnly []) 0x1F80 =
        .ok ([0x7F], [14, 1, 2, 3, 4, 5, 6, 7]) by decide +kernel)
  obtain ⟨hqueue, hghr⟩ := Prod.mk.inj hw'
  exact ⟨w', hrun, hqueue, hghr, (sppOperate_samePage hrun).1⟩

end Scarab.Spp
