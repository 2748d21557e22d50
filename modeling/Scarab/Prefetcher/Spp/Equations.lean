import Scarab.Prefetcher.Spp.Filter
import Scarab.Lib.History
import Scarab.Prefetcher.Spp.Semantics

/-! # What the atomic steps do

Each step is inverted once: the fields it changes, the event it logs, and the guard
under which it does so. Later invariants use these rules and never unfold the driver. -/

namespace Scarab.Spp

variable {σ : Type} {p : Params} {addto : AddTo σ}

@[simp] theorem log_spp (w : World σ) (e : SppEvent) : (w.log e).spp = w.spp := rfl
@[simp] theorem log_queue (w : World σ) (e : SppEvent) : (w.log e).queue = w.queue := rfl
@[simp] theorem log_history (w : World σ) (e : SppEvent) :
    (w.log e).history = w.history ++ [e] := rfl

/-! ## Training -/

structure TrainSpec (p : Params) (lineAddr : Addr) (w w' : World σ) (hop : Hop)
    (row : List SppStEntry) (out : SppStOut) : Prop where
  row_eq : stRow p w.spp.ghr (w.spp.st (stSetOf p (p.lineBase lineAddr >>> p.log2Page)))
    (partialPage p (p.lineBase lineAddr >>> p.log2Page)) (p.pageOffset (p.lineBase lineAddr)) =
      .ok (row, out)
  st : w'.spp.st = Function.update w.spp.st (stSetOf p (p.lineBase lineAddr >>> p.log2Page)) row
  pt : w'.spp.pt =
    if out.lastSig ≠ 0 then
      Function.update w.spp.pt (ptSetOf p out.lastSig)
        (ptUpdate p (w.spp.pt (ptSetOf p out.lastSig)) out.delta)
    else w.spp.pt
  ghr : w'.spp.ghr = w.spp.ghr
  filter : w'.spp.filterState = w.spp.filterState.use p (p.lineBase lineAddr)
  accuracy : w'.spp.globalAccuracyPct = globalAccuracy w.spp
  queue : w'.queue = w.queue
  history : w'.history = w.history ++ [.demand (p.lineBase lineAddr)]
  hop_eq : hop = ⟨out.currSig, p.lineBase lineAddr, 100, 0⟩

theorem sppTrain_spec {w w' : World σ} {lineAddr : Addr} {hop : Hop}
    (h : sppTrain p w lineAddr = .ok (w', hop)) :
    ∃ row out, TrainSpec p lineAddr w w' hop row out := by
  obtain ⟨⟨spp, out⟩, hst, hret⟩ := Execution.bind_eq_ok.mp h
  obtain ⟨⟨row, out'⟩, hrow, hspp⟩ := Execution.bind_eq_ok.mp hst
  obtain ⟨rfl, rfl⟩ := Prod.mk.inj (Except.ok.inj hspp)
  obtain ⟨rfl, rfl⟩ := Prod.mk.inj (Except.ok.inj hret)
  refine ⟨row, out', hrow, ?_, ?_, ?_, ?_, ?_, rfl, rfl, rfl⟩
  all_goals simp only [sppFilterCheck_demand, log_spp]
  all_goals by_cases hs : out'.lastSig = 0#32
  all_goals simp [hs, sppPtUpdatePattern, PrefSpp.filterState, PrefSpp.withFilter]

/-! ## Candidates -/

/-- The line a candidate names. -/
def candidateAddr (p : Params) (hop : Hop) (delta : ℤ) : Addr :=
  p.lineBase hop.baseAddr + p.deltaBytes delta

inductive CandidateSpec (p : Params) (addto : AddTo σ) (procId : Uns8) (addr : Addr) (hop : Hop)
    (conf : ℕ) (delta : ℤ) (w : World σ) : World σ → Prop where
  | muted (hcut : conf < p.issueCutoff) : CandidateSpec p addto procId addr hop conf delta w w
  | issued (hcut : p.issueCutoff ≤ conf)
      (hpage : p.pageBase addr = p.pageBase (candidateAddr p hop delta)) :
      CandidateSpec p addto procId addr hop conf delta w
        (sppIssue p addto procId w (candidateAddr p hop delta) conf)
  | crossed {ghr} (hcut : p.issueCutoff ≤ conf)
      (hpage : p.pageBase addr ≠ p.pageBase (candidateAddr p hop delta)) (hon : p.ghrOn = true)
      (hghr : sppGhrUpdate p w.spp.ghr hop.currSig conf
        (p.pageOffset (candidateAddr p hop delta)) delta = .ok ghr) :
      CandidateSpec p addto procId addr hop conf delta w
        (World.log { w with spp := { w.spp with ghr } }
          (.crossed hop.currSig conf (p.pageOffset (candidateAddr p hop delta)) delta))
  | dropped (hcut : p.issueCutoff ≤ conf)
      (hpage : p.pageBase addr ≠ p.pageBase (candidateAddr p hop delta)) (hoff : p.ghrOn = false) :
      CandidateSpec p addto procId addr hop conf delta w w

theorem sppCandidate_spec {procId : Uns8} {addr : Addr} {hop : Hop} {w w' : World σ} {conf : ℕ}
    {delta : ℤ} (h : sppCandidate p addto procId addr hop w (conf, delta) = .ok w') :
    CandidateSpec p addto procId addr hop conf delta w w' := by
  unfold sppCandidate at h
  simp only at h
  split at h
  · rename_i hcut
    cases h
    exact .muted hcut
  · rename_i hcut
    have hcut := Nat.le_of_not_lt hcut
    split at h
    · rename_i hpage
      cases h
      exact .issued hcut hpage
    · rename_i hpage
      split at h
      · rename_i hon
        obtain ⟨ghr, hghr, hret⟩ := Execution.bind_eq_ok.mp h
        cases hret
        exact .crossed hcut hpage hon hghr
      · rename_i hoff
        cases h
        exact .dropped hcut hpage (by simpa using hoff)

/-- The event of a candidate of the demand's page decides what happens to the filter;
the queue is asked exactly when the filter lets the line through. -/
structure IssueSpec (p : Params) (addto : AddTo σ) (procId : Uns8) (pfAddr : Addr) (conf : ℕ)
    (w w' : World σ) (o : Outcome) : Prop where
  filtered_iff : o = .filtered ↔ w.spp.filterState.rejects p pfAddr = true
  answer : o ≠ .filtered →
    addto procId (pfAddr >>> p.log2Line) w.spp.hwpId w.queue = (decide (o = .queued), w'.queue)
  unasked : o = .filtered → w'.queue = w.queue
  world_eq : w' =
    World.log
      { w with
        spp := w.spp.withFilter (w.spp.filterState.apply p (.candidate (grade p conf) pfAddr o))
        queue := w'.queue }
      (.candidate (grade p conf) pfAddr o)

theorem sppIssue_spec (addto : AddTo σ) (procId : Uns8) (w : World σ) (pfAddr : Addr) (conf : ℕ) :
    ∃ o, IssueSpec p addto procId pfAddr conf w (sppIssue p addto procId w pfAddr conf) o := by
  cases hq : addto procId (pfAddr >>> p.log2Line) w.spp.hwpId w.queue with
  | mk ok queue =>
      rcases grade_eq (p := p) conf with ⟨hg, _⟩ | ⟨hg, _⟩ <;>
        cases hr : w.spp.filterState.rejects p pfAddr
      · cases ok
        · refine ⟨.refused, by simp [hr], ?_, by simp, ?_⟩ <;>
            simp [sppIssue, hg, sppFilterCheck_l2Prefetch, hr, hq, FilterState.apply]
        · refine ⟨.queued, by simp [hr], ?_, by simp, ?_⟩ <;>
            simp [sppIssue, hg, sppFilterCheck_l2Prefetch, hr, hq, FilterState.apply, countIssued_eq]
      · refine ⟨.filtered, by simp [hr], by simp, ?_, ?_⟩ <;>
          simp [sppIssue, hg, sppFilterCheck_l2Prefetch, hr, FilterState.apply, World.log]
      · cases ok
        · refine ⟨.refused, by simp [hr], ?_, by simp, ?_⟩ <;>
            simp [sppIssue, hg, sppFilterCheck_llcPrefetch, hr, hq, FilterState.apply]
        · refine ⟨.queued, by simp [hr], ?_, by simp, ?_⟩ <;>
            simp [sppIssue, hg, sppFilterCheck_llcPrefetch, hr, hq, FilterState.apply]
      · refine ⟨.filtered, by simp [hr], by simp, ?_, ?_⟩ <;>
          simp [sppIssue, hg, sppFilterCheck_llcPrefetch, hr, FilterState.apply, World.log]

/-- A candidate leaves the Signature and Pattern Tables alone. -/
theorem sppCandidate_tables {procId : Uns8} {addr : Addr} {hop : Hop} {w w' : World σ} {c : ℕ × ℤ}
    (h : sppCandidate p addto procId addr hop w c = .ok w') :
    w'.spp.st = w.spp.st ∧ w'.spp.pt = w.spp.pt ∧
      w'.spp.globalAccuracyPct = w.spp.globalAccuracyPct := by
  cases sppCandidate_spec h with
  | muted => simp
  | dropped => simp
  | crossed => simp
  | issued =>
      obtain ⟨o, hs⟩ := sppIssue_spec addto procId w (candidateAddr p hop c.2) c.1
      rw [hs.world_eq]
      simp

/-! ## The event of a step -/

/-- An event fits the filter it happens in: a candidate is filtered exactly when the
filter rejects it, and candidates come in two grades. -/
def Fits (p : Params) (F : FilterState) : SppEvent → Prop
  | .candidate req addr o =>
      (o = .filtered ↔ F.rejects p addr = true) ∧ (req = .l2Prefetch ∨ req = .llcPrefetch)
  | _ => True

theorem Step.event {w w' : World σ} (h : Step p addto w w') :
    (w'.history = w.history ∧ w'.spp.filterState = w.spp.filterState) ∨
      ∃ e, w'.history = w.history ++ [e] ∧
        w'.spp.filterState = w.spp.filterState.apply p e ∧ Fits p w.spp.filterState e := by
  cases h with
  | train h =>
      obtain ⟨row, out, hs⟩ := sppTrain_spec h
      exact .inr ⟨_, hs.history, hs.filter, trivial⟩
  | @candidate _ procId addr hop c h =>
      cases sppCandidate_spec h with
      | muted => exact .inl ⟨rfl, rfl⟩
      | dropped => exact .inl ⟨rfl, rfl⟩
      | crossed => exact .inr ⟨_, rfl, rfl, trivial⟩
      | issued =>
          obtain ⟨o, hs⟩ := sppIssue_spec addto procId w (candidateAddr p hop c.2) c.1
          rw [hs.world_eq]
          refine .inr ⟨_, rfl, rfl, hs.filtered_iff, ?_⟩
          rcases grade_eq (p := p) c.1 with ⟨hg, _⟩ | ⟨hg, _⟩
          · exact .inl hg
          · exact .inr hg
  | ul1PrefHit lineAddr =>
      refine .inr ⟨_, rfl, ?_, trivial⟩
      simp [prefSppUl1PrefHit, sppFilterCheck_demand, FilterState.apply]
  | fill addr => exact .inr ⟨_, rfl, rfl, trivial⟩
  | evict procId addr => exact .inr ⟨_, rfl, rfl, trivial⟩
  | others queue => exact .inl ⟨rfl, rfl⟩

/-- The filter of a visited world is the replay of its history, and every event fitted
the filter it happened in. -/
theorem Visited.replay {w : World σ} (h : Visited p addto w) :
    w.spp.filterState = FilterState.replay p w.history ∧
      History.Always (fun pre e => Fits p (FilterState.replay p pre) e) w.history := by
  refine h.invariant (I := fun w => w.spp.filterState = FilterState.replay p w.history ∧
    History.Always (fun pre e => Fits p (FilterState.replay p pre) e) w.history) ?_ ?_
  · intro w hw
    obtain ⟨queue, hi⟩ := hw
    unfold prefSppInit at hi
    split at hi
    · cases hi
      exact ⟨rfl, History.always_nil⟩
    · cases hi
  · intro w w' hw hs
    obtain ⟨hF, hA⟩ := hw
    rcases hs.event with ⟨hh, hf⟩ | ⟨e, hh, hf, hfit⟩
    · rw [hh, hf]
      exact ⟨hF, hA⟩
    · rw [hh, hf, FilterState.replay_concat, History.always_concat, ← hF]
      exact ⟨rfl, hA, hfit⟩

end Scarab.Spp
