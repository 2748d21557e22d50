import Scarab.Lib.History
import Scarab.Prefetcher.PhaseReplay
import Scarab.Prefetcher.Stride

/-! # The accesses of a region

What `pref_stride_ul1_train` does with an access depends on nothing but the entry of the region. The
entry is followed here through all accesses of its region, with the lines that the queue took. -/

namespace Scarab.Stride

open Phase (logged logged_takes logged_refuses)

variable {p : Params} {κ : Type} {addto : Ul1Queue κ} {hwpId : Uns8}

/-! ## The entry of a region -/

/-- The part of `pref_stride_ul1_train` behind the search for the region. -/
def IndexTableEntry.access (p : Params) (addto : Ul1Queue κ) (hwpId : Uns8) (e : IndexTableEntry) (lineIndex : Addr)
    (k : κ) : IndexTableEntry × κ :=
  let (e, stride) := e.advance lineIndex
  if e.trained then
    match e.follow stride with
    | (e, none) => (e, k)
    | (e, some pat) => sendLoop p addto hwpId pat p.degree e k
  else ((e.observe p stride).settle p, k)

/-! ## Runs -/

/-- An access to the region, and the queue as the access finds it. -/
structure Access (κ : Type) where
  lineIndex : Addr
  queue : κ

/-- The entry, and the lines that the queue took. -/
structure Streaming where
  entry : IndexTableEntry
  accepted : List Addr

def Streaming.step (p : Params) (addto : Ul1Queue κ) (hwpId : Uns8) (s : Streaming) (a : Access κ) : Streaming where
  entry := (s.entry.access p (logged addto) hwpId a.lineIndex (a.queue, s.accepted)).1
  accepted := (s.entry.access p (logged addto) hwpId a.lineIndex (a.queue, s.accepted)).2.2

def Streaming.run (p : Params) (addto : Ul1Queue κ) (hwpId : Uns8) (s : Streaming) (accesses : List (Access κ)) :
    Streaming :=
  accesses.foldl (Streaming.step p addto hwpId) s

/-- A new entry, in the place of an old one. -/
def Streaming.init (old : IndexTableEntry) (lineIndex : Addr) : Streaming := ⟨old.renew lineIndex, []⟩

theorem Streaming.run_concat (s : Streaming) (accesses : List (Access κ)) (a : Access κ) :
    s.run p addto hwpId (accesses ++ [a]) = (s.run p addto hwpId accesses).step p addto hwpId a := by
  simp [Streaming.run, List.foldl_append]

/-! ## Sending -/

/-- The next lines of a pattern. -/
def Pattern.lines (pat : Pattern) : ℕ → IndexTableEntry → List Addr
  | 0, _ => []
  | m + 1, e => pat.next e :: pat.lines m (pat.sent e)

/-- The loop sends the next lines of the pattern, as many as the limits and the queue let it. -/
theorem sendLoop_logged (p : Params) (addto : Ul1Queue κ) (hwpId : Uns8) (pat : Pattern) (n : ℕ)
    (e : IndexTableEntry) (k : κ) (log : List Addr) :
    ∃ m, (sendLoop p (logged addto) hwpId pat n e (k, log)).1 = pat.sent^[m] e ∧
      (sendLoop p (logged addto) hwpId pat n e (k, log)).2.2 = log ++ pat.lines m e := by
  induction n generalizing e k log with
  | zero => exact ⟨0, rfl, (List.append_nil log).symm⟩
  | succ n ih =>
      rw [sendLoop]
      by_cases hsent : e.prefSent < p.distance
      · simp only [if_pos hsent]
        cases hok : (addto (.plain 0 (pat.next e) hwpId) k).1 with
        | true =>
            obtain ⟨m, hentry, hlines⟩ :=
              ih (pat.sent e) (addto (.plain 0 (pat.next e) hwpId) k).2 (log ++ [pat.next e])
            have hlog : logged addto (.plain 0 (pat.next e) hwpId) (k, log) =
                (true, (addto (.plain 0 (pat.next e) hwpId) k).2, log ++ [pat.next e]) := logged_takes hok log
            rw [hlog]
            refine ⟨m + 1, hentry, ?_⟩
            simpa [Pattern.lines] using hlines
        | false =>
            rw [logged_refuses hok]
            exact ⟨0, rfl, (List.append_nil log).symm⟩
      · rw [if_neg hsent]
        exact ⟨0, rfl, (List.append_nil log).symm⟩

/-- What an access does to a trained entry: it is given up, or the pattern goes on. -/
theorem Streaming.step_trained (p : Params) (addto : Ul1Queue κ) (hwpId : Uns8) {s : Streaming} (a : Access κ)
    (h : s.entry.trained = true) :
    match (s.entry.advance a.lineIndex).1.follow (s.entry.advance a.lineIndex).2 with
    | (e, none) => s.step p addto hwpId a = ⟨e, s.accepted⟩
    | (e, some pat) => ∃ m, s.step p addto hwpId a = ⟨pat.sent^[m] e, s.accepted ++ pat.lines m e⟩ := by
  rw [Streaming.step, IndexTableEntry.access]
  have htrained : (s.entry.advance a.lineIndex).1.trained = true := h
  cases hfollow : (s.entry.advance a.lineIndex).1.follow (s.entry.advance a.lineIndex).2 with
  | mk e pat =>
      simp only [htrained, if_true, hfollow]
      cases pat with
      | none => rfl
      | some pat =>
          obtain ⟨m, hentry, hlines⟩ := sendLoop_logged p addto hwpId pat p.degree e a.queue s.accepted
          exact ⟨m, congrArg₂ Streaming.mk hentry hlines⟩

theorem Streaming.step_untrained {s : Streaming} {a : Access κ} (h : s.entry.trained = false) :
    s.step p addto hwpId a =
      ⟨((s.entry.advance a.lineIndex).1.observe p (s.entry.advance a.lineIndex).2).settle p, s.accepted⟩ := by
  have htrained : (s.entry.advance a.lineIndex).1.trained = false := h
  rw [Streaming.step, IndexTableEntry.access]
  simp only [htrained, Bool.false_eq_true, if_false]

end Scarab.Stride
