import Scarab.Prefetcher.Common.QueueCorrectness
import Scarab.Prefetcher.Spp.Equations

/-! # The prefetcher on the UL1 request queue

The driver is stated over any request queue. Here the queue is the ring of
`pref_common.c`. -/

namespace Scarab.Spp

variable {τ : Type} {p : Params} {q : Common.PrefParams} {env : Common.Env τ}

/-- `pref_addto_ul1req_queue`, as `spp_operate` calls it. -/
def ul1Requests (q : Common.PrefParams) : AddTo (Common.PrefState τ) :=
  fun procId lineIndex prefetcherId s =>
    Common.prefAddtoUl1reqQueue q s procId lineIndex prefetcherId

/-! ## What the answer of the ring is worth -/

/-- A candidate that counts as issued is pending in the ring, unless the add filter
matched a slot that had been sent or cancelled. -/
theorem IssueSpec.pending_iff {procId : Uns8} {X : Addr} {conf : ℕ}
    {w w' : World (Common.PrefState τ)}
    (hs : IssueSpec p (ul1Requests q) procId X conf w w' .queued) (hline : X >>> p.log2Line ≠ 0) :
    (w'.queue.queue .ul1req).Pending (q.queue .ul1req) (X >>> p.log2Line) ↔
      ¬ ((q.queue .ul1req).addFilterOn = true ∧
        (w.queue.queue .ul1req).Stale (q.queue .ul1req) (X >>> p.log2Line)) := by
  have hanswer := hs.answer (by decide)
  have hflag := congrArg Prod.fst hanswer
  have hqueue := congrArg Prod.snd hanswer
  have hiff : ((ul1Requests q procId (X >>> p.log2Line) w.spp.hwpId w.queue).1 = true →
      ((ul1Requests q procId (X >>> p.log2Line) w.spp.hwpId w.queue).2.queue .ul1req).Pending
        (q.queue .ul1req) (X >>> p.log2Line)) ↔
      ¬ ((q.queue .ul1req).addFilterOn = true ∧
        (w.queue.queue .ul1req).Stale (q.queue .ul1req) (X >>> p.log2Line)) :=
    Common.addToQueue_pending_iff w.queue .ul1req hline rfl
  rw [← hiff, hqueue, hflag]
  simp

end Scarab.Spp
