import Mathlib.Algebra.GroupWithZero.Nat
import Mathlib.Algebra.Order.BigOperators.Group.List
import Scarab.Lib.Row
import Scarab.Prefetcher.Spp.Equations

/-! # The Pattern Table as a distribution of deltas

The counters of a set never add up to more than its signature counter, whatever the
counters saturate at. Zero deltas are never trained, because the Signature Table
reports a previous signature only when the page offset has moved. -/

namespace Scarab.Spp

variable {σ : Type} {p : Params} {addto : AddTo σ}

/-- A delta between two lines of one page that are not the same. -/
def IsStride (p : Params) (delta : ℤ) : Prop :=
  delta ≠ 0 ∧ delta.natAbs ≤ p.linesPerPage - 1

namespace SppPtSet

/-- The sum of the counters of the ways. -/
def mass (row : SppPtSet) : ℕ := (row.ways.map (·.cDelta)).sum

structure Ok (p : Params) (row : SppPtSet) : Prop where
  mass_le : row.mass ≤ row.cSig
  cSig_le : row.cSig ≤ p.cSigMax
  distinct : row.ways.Pairwise fun a b => a.delta ≠ 0 → a.delta ≠ b.delta
  stride : ∀ w ∈ row.ways, w.delta = 0 ∧ w.cDelta = 0 ∨ IsStride p w.delta

end SppPtSet

/-! ## Counting an occurrence -/

/-- Rounding down every counter loses at least what rounding down their sum does. -/
theorem sum_map_half_le (ways : List SppPtWay) :
    (ways.map fun w => w.cDelta >>> 1).sum ≤ (ways.map (·.cDelta)).sum / 2 := by
  induction ways with
  | nil => simp
  | cons w ways ih =>
      simp only [List.map_cons, List.sum_cons, Nat.shiftRight_one] at ih ⊢
      omega

/-- The counters of a set stay below its signature counter, with one unit of slack for the way just bumped. -/
theorem mass_ptCount_le {row : SppPtSet} (hmass : row.mass ≤ row.cSig + 1) :
    (ptCount p row).mass ≤ (ptCount p row).cSig := by
  unfold ptCount
  split
  · have hhalf := sum_map_half_le row.ways
    simp only [SppPtSet.mass, List.map_map, Function.comp_def, Nat.shiftRight_one] at hmass hhalf ⊢
    omega
  · exact hmass

theorem cSig_ptCount_le {row : SppPtSet} {n : ℕ} (hmax : p.cSigMax ≤ n) (hle : row.cSig ≤ n) :
    (ptCount p row).cSig ≤ n := by
  unfold ptCount
  split
  · simp only [Nat.shiftRight_one]
    omega
  · rename_i hover
    simp only
    omega

/-- Counting keeps the invariant. -/
theorem ptCount_ok {row : SppPtSet} (hmass : row.mass ≤ row.cSig + 1) (hle : row.cSig ≤ p.cSigMax)
    (hdistinct : row.ways.Pairwise fun a b => a.delta ≠ 0 → a.delta ≠ b.delta)
    (hstride : ∀ w ∈ row.ways, w.delta = 0 ∧ w.cDelta = 0 ∨ IsStride p w.delta) :
    (ptCount p row).Ok p := by
  refine ⟨mass_ptCount_le hmass, cSig_ptCount_le (Nat.le_refl _) hle, ?_, ?_⟩
  · unfold ptCount
    split
    · rw [List.pairwise_map]
      exact hdistinct
    · exact hdistinct
  · unfold ptCount
    split
    · intro w hw
      obtain ⟨v, hv, rfl⟩ := List.mem_map.mp hw
      rcases hstride v hv with ⟨hd, hc⟩ | hs
      · exact .inl ⟨hd, by simp [hc]⟩
      · exact .inr hs
    · exact hstride

/-! ## Training -/

theorem ptUpdate_ok {row : SppPtSet} {delta : ℤ} (h : row.Ok p) (hd : IsStride p delta) :
    (ptUpdate p row delta).Ok p := by
  obtain ⟨hmass, hle, hdistinct, hstride⟩ := h
  unfold ptUpdate
  split
  · -- the way holding the delta is bumped
    rename_i i hi
    obtain ⟨before, way, after, hways, rfl, hway, _⟩ := Row.split_of_findIdx? hi
    have hdelta : way.delta = delta := by simpa using hway
    rw [hways, Row.modify_middle]
    rw [hways] at hdistinct hstride
    generalize hbumped : (if way.cDelta < p.cDeltaMax then { way with cDelta := way.cDelta + 1 }
      else way) = bumped
    have hsame : bumped.delta = way.delta := by
      rw [← hbumped]
      split <;> rfl
    have hcount : bumped.cDelta ≤ way.cDelta + 1 := by
      rw [← hbumped]
      split <;> simp
    refine ptCount_ok ?_ hle ?_ ?_
    · simp only [SppPtSet.mass, hways, List.map_append, List.map_cons, List.sum_append,
        List.sum_cons] at hmass ⊢
      omega
    · simp only [List.pairwise_append, List.pairwise_cons, List.mem_cons, hsame] at hdistinct ⊢
      refine ⟨hdistinct.1, hdistinct.2.1, ?_⟩
      rintro a ha b (rfl | hb)
      · rw [hsame]
        exact hdistinct.2.2 a ha way (.inl rfl)
      · exact hdistinct.2.2 a ha b (.inr hb)
    · intro w hw
      simp only [List.mem_append, List.mem_cons] at hw
      rcases hw with hw | rfl | hw
      · exact hstride w (by simp [hw])
      · right
        rw [hsame, hdelta]
        exact hd
      · exact hstride w (by simp [hw])
  · -- the delta takes a way of smallest counter
    rename_i hnone
    have hnew : ∀ w ∈ row.ways, w.delta ≠ delta := by
      intro w hw heq
      have hmiss := List.findIdx?_eq_none_iff.mp hnone w hw
      simp [heq] at hmiss
    by_cases hempty : row.ways = []
    · rw [hempty, List.set_nil, ← hempty]
      exact ptCount_ok (Nat.le_succ_of_le hmass) hle hdistinct hstride
    · obtain ⟨before, way, after, hways, hfirst, _⟩ := Argmin.first_spec (·.cDelta) hempty
      have hset : row.ways.set (Argmin.first (·.cDelta) row.ways) ⟨delta, 0⟩ =
          before ++ ⟨delta, 0⟩ :: after := by
        rw [hfirst, hways]
        simp
      rw [hset]
      rw [hways] at hdistinct hstride hnew
      refine ptCount_ok ?_ hle ?_ ?_
      · simp only [SppPtSet.mass, hways, List.map_append, List.map_cons, List.sum_append,
          List.sum_cons] at hmass ⊢
        omega
      · simp only [List.pairwise_append, List.pairwise_cons, List.mem_cons] at hdistinct ⊢
        refine ⟨hdistinct.1, ⟨?_, hdistinct.2.1.2⟩, ?_⟩
        · intro b hb _
          exact (hnew b (by simp [hb])).symm
        · rintro a ha b (rfl | hb) h0
          · exact hnew a (by simp [ha])
          · exact hdistinct.2.2 a ha b (.inr hb) h0
      · intro w hw
        simp only [List.mem_append, List.mem_cons] at hw
        rcases hw with hw | rfl | hw
        · exact hstride w (by simp [hw])
        · exact .inr hd
        · exact hstride w (by simp [hw])

/-! ## The delta the Signature Table reports -/

theorem pageOffset_le (addr : Addr) : p.pageOffset addr ≤ p.linesPerPage - 1 := by
  unfold Params.pageOffset Params.offsMask
  rw [BitVec.toNat_and]
  refine Nat.and_le_right.trans ?_
  rw [BitVec.toNat_ofNat]
  exact Nat.mod_le _ _

/-- Every entry of the row was last touched inside the page. -/
def InPage (p : Params) (row : List SppStEntry) : Prop :=
  ∀ e ∈ row, e.lastOffset ≤ p.linesPerPage - 1

theorem stPromote_inPage {row row' : List SppStEntry} {w : ℕ} (h : InPage p row)
    (hp : stPromote p row w = .ok row') : InPage p row' := by
  obtain ⟨_, hrow⟩ := Execution.ite_error_eq_ok.mp hp
  cases hrow
  intro e he
  obtain ⟨i, hi, rfl⟩ := List.mem_iff_getElem.mp he
  have hlen : i < row.length := by simpa using hi
  have hold := h row[i] (List.getElem_mem hlen)
  simp only [List.getElem_modify, List.getElem_map]
  split <;> split <;> exact hold

theorem InPage.set {row : List SppStEntry} (h : InPage p row) (w : ℕ) {e : SppStEntry}
    (he : e.lastOffset ≤ p.linesPerPage - 1) : InPage p (row.set w e) := by
  intro x hx
  rcases List.mem_or_eq_of_mem_set hx with hx | rfl
  · exact h x hx
  · exact he

theorem InPage.modify {row : List SppStEntry} (h : InPage p row) (w : ℕ)
    {f : SppStEntry → SppStEntry} (hf : ∀ e, (f e).lastOffset ≤ p.linesPerPage - 1) :
    InPage p (row.modify w f) := by
  intro x hx
  obtain ⟨i, hi, rfl⟩ := List.mem_iff_getElem.mp hx
  rw [List.getElem_modify]
  split
  · exact hf _
  · exact h _ (List.getElem_mem _)

/-- A page offset that moved gives a stride; one that did not gives no signature. -/
theorem stHit_stride {e : SppStEntry} {pageOffset : ℕ} (he : e.lastOffset ≤ p.linesPerPage - 1)
    (ho : pageOffset ≤ p.linesPerPage - 1) :
    (stHit p e pageOffset).1.lastOffset ≤ p.linesPerPage - 1 ∧
      ((stHit p e pageOffset).2.lastSig ≠ 0 → IsStride p (stHit p e pageOffset).2.delta) := by
  unfold stHit
  simp only
  split
  · rename_i hdelta
    refine ⟨ho, fun _ => ⟨hdelta, ?_⟩⟩
    simp only
    omega
  · exact ⟨he, fun hsig => absurd rfl hsig⟩

theorem stRow_inPage {ghr : List SppGhrEntry} {row row' : List SppStEntry} {tag : Uns}
    {pageOffset : ℕ} {out : SppStOut} (h : InPage p row) (ho : pageOffset ≤ p.linesPerPage - 1)
    (hr : stRow p ghr row tag pageOffset = .ok (row', out)) :
    InPage p row' ∧ (out.lastSig ≠ 0 → IsStride p out.delta) := by
  unfold stRow at hr
  split at hr
  · rename_i w hw
    obtain ⟨promoted, hp, hret⟩ := Execution.bind_eq_ok.mp hr
    cases hret
    obtain ⟨before, e, after, hsplit, rfl, _⟩ := Row.split_of_findIdx? hw
    have hget : row[before.length]?.getD ⟨false, 0, 0, 0, 0⟩ = e := by simp [hsplit]
    have he := h e (by simp [hsplit])
    rw [hget] at hp ⊢
    obtain ⟨hoff, hstride⟩ := stHit_stride he ho
    exact ⟨stPromote_inPage (h.set _ hoff) hp, hstride⟩
  · obtain ⟨w, _, hrest⟩ := Execution.bind_eq_ok.mp hr
    obtain ⟨promoted, hp, hret⟩ := Execution.bind_eq_ok.mp hrest
    cases hret
    have hinst := h.modify w
      (f := fun e => { e with valid := true, tag, sig := ghrBoot p ghr pageOffset, lastOffset := pageOffset })
      fun _ => ho
    exact ⟨stPromote_inPage hinst hp, fun hsig => absurd rfl hsig⟩

/-! ## Runs -/

/-- Both tables are well formed. -/
structure TablesOk (p : Params) (spp : PrefSpp) : Prop where
  st : ∀ set, InPage p (spp.st set)
  pt : ∀ set, (spp.pt set).Ok p

theorem Initial.tablesOk {w : World σ} (h : Initial p w) : TablesOk p w.spp := by
  obtain ⟨queue, hi⟩ := h
  unfold prefSppInit at hi
  split at hi
  · cases hi
    refine ⟨?_, ?_⟩
    · intro set e he
      obtain ⟨w, _, rfl⟩ := List.mem_map.mp he
      exact Nat.zero_le _
    · intro set
      refine ⟨by simp [SppPtSet.mass], Nat.zero_le _, ?_, ?_⟩
      · simp [List.pairwise_replicate]
      · intro w hw
        obtain rfl := List.eq_of_mem_replicate hw
        exact .inl ⟨rfl, rfl⟩
  · cases hi

theorem Step.tablesOk {w w' : World σ} (hok : TablesOk p w.spp) (h : Step p addto w w') :
    TablesOk p w'.spp := by
  obtain ⟨hst, hpt⟩ := hok
  cases h with
  | @train _ lineAddr hop h =>
      obtain ⟨row, out, hs⟩ := sppTrain_spec h
      obtain ⟨hrow, hstride⟩ := stRow_inPage (hst _) (pageOffset_le _) hs.row_eq
      refine ⟨?_, ?_⟩
      · rw [hs.st]
        intro set
        by_cases hset : set = stSetOf p (p.lineBase lineAddr >>> p.log2Page)
        · subst hset
          simpa using hrow
        · simpa [Function.update_of_ne hset] using hst set
      · rw [hs.pt]
        intro set
        split
        · rename_i hsig
          by_cases hset : set = ptSetOf p out.lastSig
          · subst hset
            simpa using ptUpdate_ok (hpt _) (hstride hsig)
          · simpa [Function.update_of_ne hset] using hpt set
        · exact hpt set
  | candidate h =>
      obtain ⟨hst', hpt', _⟩ := sppCandidate_tables h
      exact ⟨by rw [hst']; exact hst, by rw [hpt']; exact hpt⟩
  | ul1PrefHit lineAddr =>
      have hspp : (prefSppUl1PrefHit p w lineAddr).spp =
          w.spp.withFilter (w.spp.filterState.use p (p.lineBase lineAddr)) := by
        simp [prefSppUl1PrefHit, sppFilterCheck_demand]
      rw [hspp]
      exact ⟨hst, hpt⟩
  | fill addr => exact ⟨hst, hpt⟩
  | evict procId addr => exact ⟨hst, hpt⟩
  | others queue => exact ⟨hst, hpt⟩

theorem Visited.tablesOk {w : World σ} (h : Visited p addto w) : TablesOk p w.spp :=
  h.invariant (I := fun w => TablesOk p w.spp) (fun _ => Initial.tablesOk)
    fun _ _ hok hs => hs.tablesOk hok

/-! ## Confidences -/

theorem sum_map_localConf_le (row : SppPtSet) (ways : List SppPtWay) :
    (ways.map (localConf row)).sum * row.cSig ≤ 100 * (ways.map (·.cDelta)).sum := by
  induction ways with
  | nil => simp
  | cons w ways ih =>
      have hw : localConf row w * row.cSig ≤ 100 * w.cDelta := by
        unfold localConf
        exact (Nat.mul_le_mul_right _ (Nat.mod_le _ _)).trans (Nat.div_mul_le_self _ _)
      simp only [List.map_cons, List.sum_cons, Nat.add_mul, Nat.mul_add]
      omega

theorem SppPtSet.Ok.confidence_le {row : SppPtSet} (h : row.Ok p) :
    (row.ways.map (localConf row)).sum ≤ 100 := by
  rcases Nat.eq_zero_or_pos row.cSig with hzero | hpos
  · -- the code does not read a set that was never counted; here it divides by zero
    have hconf : ∀ w ∈ row.ways, localConf row w = 0 := by
      intro w _
      simp [localConf, hzero]
    rw [List.map_congr_left hconf]
    simp
  · have hsum := sum_map_localConf_le row row.ways
    have hmass : 100 * row.mass ≤ 100 * row.cSig := Nat.mul_le_mul_left 100 h.mass_le
    exact Nat.le_of_mul_le_mul_right (hsum.trans hmass) hpos

/-- In every state of every run the Pattern Table counts no delta more often than its
signature, stores each stride once and trains only strides. So the confidences of the
first hop are percentages of one whole. -/
theorem patternTable_distribution {w : World σ} (h : Visited p addto w) :
    (∀ set,
        ((w.spp.pt set).ways.map (·.cDelta)).sum ≤ (w.spp.pt set).cSig ∧
        (w.spp.pt set).cSig ≤ 2 ^ p.cSigBit - 1 ∧
        ((w.spp.pt set).ways.Pairwise fun a b => a.delta ≠ 0 → a.delta ≠ b.delta) ∧
        ∀ way ∈ (w.spp.pt set).ways, 0 < way.cDelta →
          way.delta ≠ 0 ∧ way.delta.natAbs ≤ p.linesPerPage - 1) ∧
      ∀ sig, ((w.spp.pt (ptSetOf p sig)).ways.map (localConf (w.spp.pt (ptSetOf p sig)))).sum ≤ 100 := by
  have hok := h.tablesOk
  refine ⟨?_, fun sig => (hok.pt _).confidence_le⟩
  intro set
  obtain ⟨hmass, hle, hdistinct, hstride⟩ := hok.pt set
  refine ⟨hmass, hle, hdistinct, ?_⟩
  intro way hway hpos
  rcases hstride way hway with ⟨_, hc⟩ | hs
  · omega
  · exact hs

/-- After seven misses the stride of the page has been counted. -/
theorem patternTable_distribution_applies :
    ∃ w : World Unit, Reachable Params.default acceptAll w ∧
      ((w.spp.pt (ptSetOf Params.default 0x249)).ways.map (·.cDelta)) = [1, 0, 0, 0] ∧
      ∀ sig, ((w.spp.pt (ptSetOf Params.default sig)).ways.map
        (localConf (w.spp.pt (ptSetOf Params.default sig)))).sum ≤ 100 := by
  have hrun : ((afterCallbacks Params.default acceptAll 0 ()
      (ul1Misses 0x100000 (List.range 7))).toOption.map
      fun w => (w.spp.pt (ptSetOf Params.default 0x249)).ways.map (·.cDelta)) =
      some [1, 0, 0, 0] := by decide +kernel
  obtain ⟨w, hw, hobs⟩ := exists_reachable hrun
  exact ⟨w, hw, hobs, (patternTable_distribution hw.visited).2⟩

end Scarab.Spp
