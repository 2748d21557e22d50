import Mathlib.Algebra.BigOperators.Ring.Finset
import Scarab.Prefetcher.Spp.Suppression

/-! # Useful and issued prefetches

A slot that is recorded and not used yet may still be counted as useful. The ledger
weighs the useful prefetches and these outstanding slots against the issued ones. -/

namespace Scarab.Spp

open Finset

variable {σ : Type} {p : Params} {addto : AddTo σ}

theorem quotient_lt (addr : Addr) : quotient p addr < p.filterSet := by
  have hmask : (1#64 <<< p.quotientBit - 1#64).toNat = 2 ^ p.quotientBit - 1 := by
    have hq := p.quotientBit_lt
    have hpow : 2 ^ p.quotientBit < 2 ^ 64 := Nat.pow_lt_pow_right (by omega) (by omega)
    have hone : 1 ≤ 2 ^ p.quotientBit := Nat.one_le_two_pow
    rw [BitVec.toNat_sub, BitVec.toNat_shiftLeft]
    simp only [BitVec.toNat_ofNat, Nat.shiftLeft_eq]
    omega
  have hle : quotient p addr ≤ 2 ^ p.quotientBit - 1 := by
    unfold quotient
    rw [BitVec.toNat_setWidth, BitVec.toNat_and, hmask]
    exact (Nat.mod_le _ _).trans Nat.and_le_right
  have hpos : 0 < 2 ^ p.quotientBit := Nat.two_pow_pos _
  unfold Params.filterSet
  omega

/-! ## Outstanding slots -/

/-- 1 for a slot that was recorded and has not been used. -/
def SppFilterEntry.pending (e : SppFilterEntry) : ℕ := if e.valid && !e.useful then 1 else 0

theorem SppFilterEntry.pending_le (e : SppFilterEntry) : e.pending ≤ 1 := by
  unfold pending
  split <;> omega

namespace FilterState

variable (p) (F : FilterState)

def outstanding : ℕ := ∑ q ∈ range p.filterSet, (F.slot q).pending

/-- The slots that recording a line adds to the outstanding ones. -/
def opened (addr : Addr) : ℕ := if p.filterOn then 1 - (F.slot (quotient p addr)).pending else 0

/-- Every prefetch counted as useful, now or later, has been counted as issued. -/
def Ledger : Prop := F.useful + F.outstanding p ≤ F.issued

variable {p}

theorem outstanding_update {G : FilterState} {addr : Addr} {e : SppFilterEntry}
    (h : G.slot = Function.update F.slot (quotient p addr) e) :
    G.outstanding p + (F.slot (quotient p addr)).pending = F.outstanding p + e.pending := by
  have hmem : quotient p addr ∈ range p.filterSet := mem_range.mpr (quotient_lt addr)
  have hpend : ∀ q, (G.slot q).pending =
      Function.update (fun q => (F.slot q).pending) (quotient p addr) e.pending q := by
    intro q
    rw [h]
    by_cases hq : q = quotient p addr
    · subst hq
      simp
    · simp [Function.update_of_ne hq]
  unfold outstanding
  rw [sum_congr rfl fun q _ => hpend q, sum_update_of_mem hmem,
    ← add_sum_erase _ (fun q => (F.slot q).pending) hmem, sdiff_singleton_eq_erase]
  omega

theorem outstanding_congr {G : FilterState} (h : G.slot = F.slot) :
    G.outstanding p = F.outstanding p := by
  simp only [outstanding, h]

theorem outstanding_record (addr : Addr) :
    (F.record p addr).outstanding p = F.outstanding p + F.opened p addr := by
  cases hon : p.filterOn with
  | false => simp [record, opened, hon]
  | true =>
      have hupd : (F.record p addr).slot =
          Function.update F.slot (quotient p addr) ⟨true, false, remainder p addr⟩ := by
        simp [record, hon]
      have hsum := F.outstanding_update hupd
      have hnew : (SppFilterEntry.mk true false (remainder p addr)).pending = 1 := rfl
      have hle := (F.slot (quotient p addr)).pending_le
      simp only [opened, hon, ite_true]
      omega

theorem outstanding_markUseful {addr : Addr} (hhit : F.hitBy p addr = true) :
    (F.markUseful p addr).outstanding p + (if (F.slot (quotient p addr)).valid then 1 else 0) =
      F.outstanding p := by
  have hsum := F.outstanding_update (G := F.markUseful p addr) rfl
  have hused : (F.slot (quotient p addr)).useful = false := by
    simp only [hitBy, Bool.and_eq_true, Bool.not_eq_true'] at hhit
    exact hhit.2.2
  have hnew : ({ F.slot (quotient p addr) with useful := true } : SppFilterEntry).pending = 0 := by
    simp [SppFilterEntry.pending]
  have hold : (F.slot (quotient p addr)).pending =
      if (F.slot (quotient p addr)).valid then 1 else 0 := by
    simp [SppFilterEntry.pending, hused]
  omega

/-! ## One event -/

@[simp] theorem record_useful (addr : Addr) : (F.record p addr).useful = F.useful := by
  unfold record
  split <;> rfl

@[simp] theorem record_issued (addr : Addr) : (F.record p addr).issued = F.issued := by
  unfold record
  split <;> rfl

@[simp] theorem markUseful_useful (addr : Addr) : (F.markUseful p addr).useful = F.useful := rfl

@[simp] theorem markUseful_issued (addr : Addr) : (F.markUseful p addr).issued = F.issued := rfl

/-- The event leaves room for the outstanding slots: a refused L2-grade candidate does
not open a slot the issued prefetches do not pay for, and when a counter overflows the
halved counters still do. -/
def Covered (p : Params) (F : FilterState) : SppEvent → Prop
  | .candidate .l2Prefetch addr .refused =>
      F.useful + F.outstanding p + F.opened p addr ≤ F.issued
  | .candidate .l2Prefetch addr .queued =>
      p.globalCounterMax < F.issued + 1 →
        F.useful >>> 1 + F.outstanding p + F.opened p addr ≤ (F.issued + 1) >>> 1
  | .demand addr =>
      F.hitBy p addr = true → (F.slot (quotient p addr)).valid = true →
        p.globalCounterMax < F.useful + 1 →
          (F.useful + 1) >>> 1 + F.outstanding p ≤ F.issued >>> 1 + 1
  | _ => True

instance (F : FilterState) : (e : SppEvent) → Decidable (Covered p F e)
  | .demand _ => inferInstanceAs (Decidable (_ → _ → _ → _))
  | .candidate .l2Prefetch _ .filtered => .isTrue trivial
  | .candidate .l2Prefetch _ .refused => inferInstanceAs (Decidable (_ ≤ _))
  | .candidate .l2Prefetch _ .queued => inferInstanceAs (Decidable (_ → _ ≤ _))
  | .candidate .llcPrefetch _ _ => .isTrue trivial
  | .candidate .demand _ _ => .isTrue trivial
  | .candidate .evict _ _ => .isTrue trivial
  | .crossed _ _ _ _ => .isTrue trivial
  | .filled _ => .isTrue trivial
  | .evicted _ => .isTrue trivial

theorem opened_le (addr : Addr) : F.opened p addr ≤ 1 := by
  unfold opened
  split <;> omega

theorem ledger_countIssued {G : FilterState} :
    (G.countIssued p).Ledger p ↔
      if p.globalCounterMax < G.issued + 1 then
        G.useful >>> 1 + G.outstanding p ≤ (G.issued + 1) >>> 1
      else G.useful + G.outstanding p ≤ G.issued + 1 := by
  unfold Ledger
  rw [outstanding_congr G (countIssued_slot G)]
  unfold countIssued
  split <;> rfl

theorem ledger_countUseful {G : FilterState} :
    (G.countUseful p).Ledger p ↔
      if p.globalCounterMax < G.useful + 1 then
        (G.useful + 1) >>> 1 + G.outstanding p ≤ G.issued >>> 1
      else G.useful + 1 + G.outstanding p ≤ G.issued := by
  unfold Ledger
  rw [outstanding_congr G (countUseful_slot G)]
  unfold countUseful
  split <;> rfl

/-- The ledger survives an event exactly if the event is covered. -/
theorem Ledger.apply_iff {F : FilterState} (hF : F.Ledger p) (e : SppEvent) :
    (F.apply p e).Ledger p ↔ Covered p F e := by
  have hrest : ∀ G, G = F → (G.Ledger p ↔ True) := by
    rintro G rfl
    exact iff_true_intro hF
  cases e with
  | demand addr =>
      simp only [apply, use, Covered]
      by_cases hhit : F.hitBy p addr = true
      · have hout := F.outstanding_markUseful hhit
        cases hv : (F.slot (quotient p addr)).valid with
        | true =>
            simp only [hhit, hv, ite_true, ledger_countUseful, true_implies] at hout ⊢
            unfold Ledger at hF
            rw [markUseful_useful, markUseful_issued]
            split <;> omega
        | false =>
            simp only [hhit, hv, ite_true, Bool.false_eq_true, ite_false, false_implies,
              implies_true, iff_true] at hout ⊢
            unfold Ledger at hF ⊢
            rw [markUseful_useful, markUseful_issued]
            omega
      · simpa [hhit] using hF
  | candidate req addr o =>
      have hopened := F.opened_le (p := p) addr
      have hout := F.outstanding_record (p := p) addr
      cases req with
      | l2Prefetch =>
          cases o with
          | filtered => exact hrest _ rfl
          | refused =>
              simp only [apply, Covered, Ledger, record_useful, record_issued]
              omega
          | queued =>
              simp only [apply, Covered, ledger_countIssued]
              unfold Ledger at hF
              rw [record_useful, record_issued]
              split <;> omega
      | llcPrefetch => exact hrest _ rfl
      | demand => exact hrest _ rfl
      | evict => exact hrest _ rfl
  | crossed sig conf offset delta => exact hrest _ rfl
  | filled addr => exact hrest _ rfl
  | evicted addr => exact hrest _ rfl

theorem ledger_empty : (empty : FilterState).Ledger p := by
  simp [Ledger, empty, outstanding, SppFilterEntry.pending]

/-- A history of covered events keeps the ledger. -/
theorem ledger_replay {h : List SppEvent}
    (hc : History.Always (fun pre e => Covered p (replay p pre) e) h) : (replay p h).Ledger p := by
  refine hc.induction (I := fun h => (replay p h).Ledger p) ledger_empty ?_
  intro pre e hpre he
  rw [replay_concat]
  exact (hpre.apply_iff e).mpr he

end FilterState

/-! ## Runs -/

theorem globalAccuracy_le {spp : PrefSpp} (h : spp.pfUseful ≤ spp.pfIssued) :
    globalAccuracy spp ≤ 100 := by
  unfold globalAccuracy
  split
  · omega
  · rename_i hpos
    refine (Nat.mod_le _ _).trans ?_
    rw [Nat.div_le_iff_le_mul_add_pred (Nat.pos_of_ne_zero hpos)]
    have hmul := Nat.mul_le_mul_left 100 h
    omega

/-- In a run of covered events no more prefetches were useful than issued, and the
accuracy is a percentage. -/
theorem useful_le_issued_of_covered {w : World σ} (h : Visited p addto w)
    (hc : History.Always (fun pre e => FilterState.Covered p (FilterState.replay p pre) e) w.history) :
    w.spp.pfUseful ≤ w.spp.pfIssued ∧ globalAccuracy w.spp ≤ 100 := by
  obtain ⟨hF, _⟩ := h.replay
  have hledger := FilterState.ledger_replay hc
  rw [← hF] at hledger
  have hle : w.spp.pfUseful ≤ w.spp.pfIssued := (Nat.le_add_right _ _).trans hledger
  exact ⟨hle, globalAccuracy_le hle⟩

theorem useful_le_issued_of_covered_applies :
    ∃ p : Params, ∃ w : World Unit, Reachable p acceptAll w ∧
      w.spp.pfUseful ≤ w.spp.pfIssued ∧ globalAccuracy w.spp ≤ 100 := by
  have hrun : ((afterCallbacks (Params.small 2 (by decide)) acceptAll 0 ()
      (ul1Misses 0x100000 (List.range 8))).toOption.map
      fun w => decide (History.Always (fun pre e => FilterState.Covered (Params.small 2 (by decide))
        (FilterState.replay (Params.small 2 (by decide)) pre) e) w.history)) =
      some true := by decide +kernel
  obtain ⟨w, hw, hobs⟩ := exists_reachable hrun
  exact ⟨_, w, hw, useful_le_issued_of_covered hw.visited (of_decide_eq_true hobs)⟩

/-- The queue takes the first nine requests only. The tenth line is refused, and its
use makes two useful prefetches of one issued. -/
theorem useful_exceeds_issued :
    ∃ w : World ℕ, Reachable Params.default acceptFirst w ∧ w.spp.pfUseful = 2 ∧
      w.spp.pfIssued = 1 ∧ globalAccuracy w.spp = 200 := by
  have hrun : ((afterCallbacks Params.default acceptFirst 0 9
      (ul1Misses 0x100000 (List.range 17))).toOption.map
      fun w => (w.spp.pfUseful, w.spp.pfIssued, globalAccuracy w.spp)) = some (2, 1, 200) := by
    decide +kernel
  obtain ⟨w, hw, hobs⟩ := exists_reachable hrun
  simp only [Prod.mk.injEq] at hobs
  exact ⟨w, hw, hobs⟩

/-! ## The condition is sharp -/

namespace FilterState

/-- The counters stay below the value they are halved at. -/
def Bounded (p : Params) (F : FilterState) : Prop :=
  F.useful ≤ p.globalCounterMax ∧ F.issued ≤ p.globalCounterMax

variable {F : FilterState}

theorem Bounded.countUseful (h : F.Bounded p) : (F.countUseful p).Bounded p := by
  obtain ⟨hU, hI⟩ := h
  unfold FilterState.countUseful
  split
  · constructor <;> simp only [Nat.shiftRight_one] <;> omega
  · constructor <;> simp only <;> omega

theorem Bounded.countIssued (h : F.Bounded p) : (F.countIssued p).Bounded p := by
  obtain ⟨hU, hI⟩ := h
  unfold FilterState.countIssued
  split
  · constructor <;> simp only [Nat.shiftRight_one] <;> omega
  · constructor <;> simp only <;> omega

theorem Bounded.use (h : F.Bounded p) (addr : Addr) : (F.use p addr).Bounded p := by
  have hmark : (F.markUseful p addr).Bounded p := h
  unfold FilterState.use
  split
  · split
    · exact hmark.countUseful
    · exact hmark
  · exact h

theorem Bounded.record (h : F.Bounded p) (addr : Addr) : (F.record p addr).Bounded p := by
  simpa [Bounded] using h

theorem bounded_replay (h : List SppEvent) : (replay p h).Bounded p := by
  induction h using List.reverseRecOn with
  | nil => exact ⟨Nat.zero_le _, Nat.zero_le _⟩
  | append_singleton h e ih =>
      rw [replay_concat]
      unfold apply
      split
      · exact ih.use _
      · exact ih.record _
      · exact (ih.record _).countIssued
      · exact ih

end FilterState

/-- The line of an address is the line of its base. -/
theorem filterHash_lineBase (addr : Addr) : filterHash p (p.lineBase addr) = filterHash p addr := by
  have hline : p.lineBase addr >>> p.log2Line = addr >>> p.log2Line := by
    have hl := p.line_le_page
    have hp := p.page_lt
    apply BitVec.eq_of_getLsbD_eq
    intro i hi
    simp only [Params.lineBase, Params.dcacheLineSize, BitVec.getLsbD_ushiftRight,
      BitVec.getLsbD_and, BitVec.getLsbD_not, BitVec.getLsbD_ofNat, Nat.testBit_two_pow_sub_one]
    have hge : ¬ (p.log2Line + i < p.log2Line) := by omega
    by_cases hlt : p.log2Line + i < 64
    · simp [hge, hlt]
    · have hout : addr.getLsbD (p.log2Line + i) = false := BitVec.getLsbD_of_ge _ _ (by omega)
      simp [hout]
  rw [filterHash, filterHash, hline]

/-- A slot in use was recorded for some line. -/
theorem Visited.exists_recorded {w : World σ} (h : Visited p addto w) (hon : p.filterOn = true)
    {q : ℕ} (hv : (w.spp.filter q).valid = true) :
    ∃ addr, quotient p addr = q ∧ remainder p addr = (w.spp.filter q).remainderTag := by
  obtain ⟨hF, hfit⟩ := h.replay
  have hslot : (FilterState.replay p w.history).slot q = w.spp.filter q :=
    congrArg (fun F => F.slot q) hF.symm
  have hs := FilterState.slotSays_replay hon q _ hfit
  rw [hslot] at hs
  cases hl : History.latest (recordAt p q) w.history with
  | some tag =>
      obtain ⟨_, e, _, _, he, _⟩ := History.exists_of_latest hl
      obtain ⟨addr, o, _, _, hq, ht⟩ := recordAt_eq_some.mp he
      exact ⟨addr, hq, ht.trans (hs.recorded tag hl).2.symm⟩
  | none => simp [(hs.fresh hl).1] at hv

/-- The use of an outstanding slot moves it to the useful prefetches, or the counters
overflow and are halved. -/
theorem FilterState.use_of_pending {F : FilterState} {addr : Addr} (hhit : F.hitBy p addr = true)
    (hv : (F.slot (quotient p addr)).valid = true) :
    (F.use p addr).outstanding p + 1 = F.outstanding p ∧
      if p.globalCounterMax < F.useful + 1 then
        (F.use p addr).useful = (F.useful + 1) / 2 ∧ (F.use p addr).issued = F.issued / 2
      else (F.use p addr).useful = F.useful + 1 ∧ (F.use p addr).issued = F.issued := by
  have hout := F.outstanding_markUseful hhit
  have huse : F.use p addr = (F.markUseful p addr).countUseful p := by simp [use, hhit, hv]
  rw [huse, outstanding_congr _ (countUseful_slot _)]
  refine ⟨by simpa [hv] using hout, ?_⟩
  unfold countUseful
  split
  · rename_i hover
    simp [hover, Nat.shiftRight_one]
  · rename_i hover
    simp [hover]

/-- Once the ledger is broken, uses of the outstanding slots make more prefetches
useful than were issued. -/
theorem overshoots_of_not_ledger (hon : p.filterOn = true) (hbit : 0 < p.globalCtrBit)
    {w : World σ} (h : Visited p addto w) (hb : ¬ w.spp.filterState.Ledger p) :
    ∃ (lines : List Addr) (w' : World σ),
      Execution.run (callback p addto) w (lines.map .ul1PrefHit) = .ok w' ∧
        w'.spp.pfIssued < w'.spp.pfUseful := by
  induction hn : w.spp.filterState.outstanding p generalizing w with
  | zero =>
      refine ⟨[], w, rfl, ?_⟩
      rw [FilterState.Ledger, hn] at hb
      exact Nat.lt_of_not_le hb
  | succ n ih =>
      by_cases hdone : w.spp.pfIssued < w.spp.pfUseful
      · exact ⟨[], w, rfl, hdone⟩
      · obtain ⟨q, _, hpend⟩ : ∃ q ∈ range p.filterSet, (w.spp.filter q).pending ≠ 0 := by
          by_contra hnone
          push Not at hnone
          have hzero : w.spp.filterState.outstanding p = 0 := sum_eq_zero hnone
          omega
        obtain ⟨hv, hu⟩ : (w.spp.filter q).valid = true ∧ (w.spp.filter q).useful = false := by
          simpa [SppFilterEntry.pending] using hpend
        obtain ⟨addr, rfl, hrem⟩ := h.exists_recorded hon hv
        have hq : quotient p (p.lineBase addr) = quotient p addr := by
          rw [quotient, quotient, filterHash_lineBase]
        have hr : remainder p (p.lineBase addr) = remainder p addr := by
          rw [remainder, remainder, filterHash_lineBase]
        have hhit : w.spp.filterState.hitBy p (p.lineBase addr) = true := by
          simp [FilterState.hitBy, PrefSpp.filterState, hon, hq, hr, hrem, hu]
        obtain ⟨hout, hcount⟩ :=
          FilterState.use_of_pending hhit (by rw [hq]; exact hv)
        have hstep := h.step (.ul1PrefHit w addr)
        have hF : (prefSppUl1PrefHit p w addr).spp.filterState =
            w.spp.filterState.use p (p.lineBase addr) := by
          simp [prefSppUl1PrefHit, sppFilterCheck_demand]
        rw [← hF] at hout hcount
        have hbound := FilterState.bounded_replay (p := p) w.history
        rw [← h.replay.1] at hbound
        obtain ⟨hUmax, hImax⟩ := hbound
        split at hcount
        · -- both counters are at their maximum, which is odd
          rename_i hover
          have hmax : p.globalCounterMax = 2 * 2 ^ (p.globalCtrBit - 1) - 1 := by
            rw [Params.globalCounterMax, ← Nat.pow_succ']
            congr 2
            omega
          have hpos : 0 < 2 ^ (p.globalCtrBit - 1) := Nat.two_pow_pos _
          refine ⟨[addr], prefSppUl1PrefHit p w addr, rfl, ?_⟩
          have hU : (prefSppUl1PrefHit p w addr).spp.pfUseful = (w.spp.pfUseful + 1) / 2 := hcount.1
          have hI : (prefSppUl1PrefHit p w addr).spp.pfIssued = w.spp.pfIssued / 2 := hcount.2
          have hover' : p.globalCounterMax < w.spp.pfUseful + 1 := hover
          have hImax' : w.spp.pfIssued ≤ p.globalCounterMax := hImax
          omega
        · have hbroken : ¬ (prefSppUl1PrefHit p w addr).spp.filterState.Ledger p := by
            unfold FilterState.Ledger at hb ⊢
            omega
          obtain ⟨lines, w', hrun, hlt⟩ := ih hstep hbroken (by omega)
          exact ⟨addr :: lines, w', hrun, hlt⟩

end Scarab.Spp
