import Scarab.Lib.History
import Scarab.Prefetcher.Common.Equations

/-! # What an answer of a request queue means

The add filters look at the line of a slot and not at its valid bit, and the DL0 loop
moves past a request without clearing the bit. -/

namespace Scarab.Common

variable {τ : Type} {p : PrefParams} {env : Env τ}

/-! ## A request that was answered TRUE -/

/-- Only slots that are not valid any more carry the line. -/
def ReqQueue.Stale (qp : QueueParams) (q : ReqQueue) (lineIndex : Addr) : Prop :=
  q.Matches qp lineIndex ∧ ¬ q.Pending qp lineIndex

theorem ReqQueue.insert_pending (qp : QueueParams) (q : ReqQueue) {newReq : PrefMemReq}
    (hvalid : newReq.valid = true) : (q.insert qp newReq).Pending qp newReq.lineIndex :=
  ⟨q.nextReqPos qp, nextReqPos_lt qp q, by simp [insert, hvalid], by simp [insert]⟩

/-- TRUE means that the line is pending, unless the add filter matched a stale slot. -/
theorem addTo_pending_iff (qp : QueueParams) (q : ReqQueue) {newReq : PrefMemReq}
    (hline : newReq.lineIndex ≠ 0) (hvalid : newReq.valid = true) :
    ((addTo qp q newReq).1.flag = true → (addTo qp q newReq).2.Pending qp newReq.lineIndex) ↔
      ¬ (qp.addFilterOn = true ∧ q.Stale qp newReq.lineIndex) := by
  rcases addTo_cases qp q newReq with
    ⟨_, hzero⟩ | ⟨h, _, hon, hmatch⟩ | ⟨_, hno, ⟨h, _⟩ | ⟨h, _⟩⟩
  · exact absurd hzero hline
  · rw [h]
    simp [AddOutcome.flag, ReqQueue.Stale, hon, hmatch]
  · rw [h]
    simp only [AddOutcome.flag, Bool.false_eq_true, false_implies, true_iff]
    rintro ⟨hon, hmatch, _⟩
    exact hno ⟨hon, hmatch⟩
  · rw [h]
    have hpend := q.insert_pending qp hvalid
    simp only [AddOutcome.flag, hpend, implies_true, true_iff]
    rintro ⟨hon, hmatch, _⟩
    exact hno ⟨hon, hmatch⟩

theorem addToQueue_fst (s : PrefState τ) (id : QueueId) (newReq : PrefMemReq) :
    (addToQueue p s id newReq).1 = (addTo (p.queue id) (s.queue id) newReq).1.flag := rfl

theorem addToQueue_queue (s : PrefState τ) (id : QueueId) (newReq : PrefMemReq) :
    (addToQueue p s id newReq).2.queue id = (addTo (p.queue id) (s.queue id) newReq).2 := by
  rcases addTo_cases (p.queue id) (s.queue id) newReq with
    ⟨h, _⟩ | ⟨h, _⟩ | ⟨_, _, ⟨h, _⟩ | ⟨h, _⟩⟩
  all_goals simp [addToQueue, h]

theorem addToQueue_pending_iff (s : PrefState τ) (id : QueueId) {newReq : PrefMemReq}
    (hline : newReq.lineIndex ≠ 0) (hvalid : newReq.valid = true) :
    ((addToQueue p s id newReq).1 = true →
        ((addToQueue p s id newReq).2.queue id).Pending (p.queue id) newReq.lineIndex) ↔
      ¬ ((p.queue id).addFilterOn = true ∧ (s.queue id).Stale (p.queue id) newReq.lineIndex) := by
  rw [addToQueue_fst, addToQueue_queue]
  exact addTo_pending_iff (p.queue id) (s.queue id) hline hvalid

/-- For each of the three queues, in every state: a line that was answered TRUE is pending
in the queue exactly if the add filter is off or did not match a stale slot. -/
theorem answered_true_pending_iff (s : PrefState τ) (procId : Uns8) {lineIndex : Addr}
    (hline : lineIndex ≠ 0) (prefetcherId : Uns8) (distance : Uns) (loadPC : Addr) (globalHist : Uns)
    (bw : Bool) :
    (((prefAddtoDl0reqQueue p s procId lineIndex prefetcherId).1 = true →
        ((prefAddtoDl0reqQueue p s procId lineIndex prefetcherId).2.queue .dl0req).Pending
          (p.queue .dl0req) lineIndex) ↔
      ¬ ((p.queue .dl0req).addFilterOn = true ∧
        (s.queue .dl0req).Stale (p.queue .dl0req) lineIndex)) ∧
    (((prefAddtoUmlcReqQueue p s procId lineIndex prefetcherId).1 = true →
        ((prefAddtoUmlcReqQueue p s procId lineIndex prefetcherId).2.queue .umlcReq).Pending
          (p.queue .umlcReq) lineIndex) ↔
      ¬ ((p.queue .umlcReq).addFilterOn = true ∧
        (s.queue .umlcReq).Stale (p.queue .umlcReq) lineIndex)) ∧
    (((prefAddtoUl1reqQueueSet p s procId lineIndex prefetcherId distance loadPC globalHist bw).1 =
          true →
        ((prefAddtoUl1reqQueueSet p s procId lineIndex prefetcherId distance loadPC globalHist
          bw).2.queue .ul1req).Pending (p.queue .ul1req) lineIndex) ↔
      ¬ ((p.queue .ul1req).addFilterOn = true ∧
        (s.queue .ul1req).Stale (p.queue .ul1req) lineIndex)) :=
  ⟨addToQueue_pending_iff s .dl0req hline rfl, addToQueue_pending_iff s .umlcReq hline rfl,
    addToQueue_pending_iff s .ul1req hline rfl⟩

/-- A line is prefetched and sent; the next request for it is answered TRUE and lost. -/
theorem sent_line_run :
    ∃ s : PrefState Unit, Reachable PrefParams.default (idle false) s ∧
      (s.queue .ul1req).Stale (PrefParams.default.queue .ul1req) 0x4000 ∧
      (prefAddtoUl1reqQueueSet PrefParams.default s 0 0x4000 1 0 0 0 false).1 = true ∧
      ¬ ((prefAddtoUl1reqQueueSet PrefParams.default s 0 0x4000 1 0 0 0 false).2.queue
        .ul1req).Pending (PrefParams.default.queue .ul1req) 0x4000 := by
  have hrun : ((afterOperations PrefParams.default (idle false) ()
      [.addUl1 0 0x4000 1 0 0 0 false, .updateCore 0]).toOption.map
      fun s => (decide ((s.queue .ul1req).Matches (PrefParams.default.queue .ul1req) 0x4000),
        decide ((s.queue .ul1req).Pending (PrefParams.default.queue .ul1req) 0x4000),
        (prefAddtoUl1reqQueueSet PrefParams.default s 0 0x4000 1 0 0 0 false).1,
        decide (((prefAddtoUl1reqQueueSet PrefParams.default s 0 0x4000 1 0 0 0 false).2.queue
          .ul1req).Pending (PrefParams.default.queue .ul1req) 0x4000))) =
      some (true, false, true, false) := by decide +kernel
  obtain ⟨s, hs, hobs⟩ := exists_reachable hrun
  simp only [Prod.mk.injEq, decide_eq_true_eq, decide_eq_false_iff_not] at hobs
  obtain ⟨hmatch, hno, hflag, hlost⟩ := hobs
  exact ⟨s, hs, ⟨hmatch, hno⟩, hflag, hlost⟩

theorem answered_true_pending_iff_applies :
    ∃ s : PrefState Unit, Reachable PrefParams.default (idle false) s ∧
      (((prefAddtoUl1reqQueueSet PrefParams.default s 0 0x4000 1 0 0 0 false).1 = true →
          ((prefAddtoUl1reqQueueSet PrefParams.default s 0 0x4000 1 0 0 0 false).2.queue
            .ul1req).Pending (PrefParams.default.queue .ul1req) 0x4000) ↔
        ¬ ((PrefParams.default.queue .ul1req).addFilterOn = true ∧
          (s.queue .ul1req).Stale (PrefParams.default.queue .ul1req) 0x4000)) := by
  obtain ⟨s, hs, _⟩ := sent_line_run
  exact ⟨s, hs, (answered_true_pending_iff s 0 (by decide) 1 0 0 0 false).2.2⟩

/-- An answer TRUE after which the line is not pending. -/
theorem answered_true_not_pending :
    ∃ s : PrefState Unit, Reachable PrefParams.default (idle false) s ∧
      (prefAddtoUl1reqQueueSet PrefParams.default s 0 0x4000 1 0 0 0 false).1 = true ∧
      ¬ ((prefAddtoUl1reqQueueSet PrefParams.default s 0 0x4000 1 0 0 0 false).2.queue
        .ul1req).Pending (PrefParams.default.queue .ul1req) 0x4000 := by
  obtain ⟨s, hs, _, hflag, hlost⟩ := sent_line_run
  exact ⟨s, hs, hflag, hlost⟩

end Scarab.Common
