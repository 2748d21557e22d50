import Scarab.Core.Map.Sources

/-! # Recovery undoes a wrong path

A thread that fetched a wrong path and recovered from it is compared with one that never
fetched it. Until the recovery the first is ahead of the second by the ops of the wrong
path; from then on the two mirror each other, and so they find the same sources. -/

namespace Scarab.Map

variable {p : Params}

/-! ## Leaving out a wrong path -/

/-- The ops that are fetched. -/
def fetched (events : List Event) : List Op :=
  events.filterMap fun e =>
    match e with
    | .fetch op _ => some op
    | _ => none

/-- What can happen on a wrong path after an op: of the recoveries, only those to its own ops. -/
def Event.Wrong (r : ℕ) : Event → Prop
  | .recover opNum _ => r < opNum
  | _ => True

/-- The event fetches an op, or recovers to one. -/
def Event.isFetch : Event → Bool
  | .fetch _ _ => true
  | .recover _ _ => true
  | _ => false

/-- The event frees one of the ops. -/
def Event.isFreeOf (ops : List Op) : Event → Bool
  | .free op => op ∈ ops
  | _ => false

/-- The events of a wrong path that also happen without it. -/
def withoutWrongPath (events : List Event) : List Event :=
  events.filter fun e => !e.isFetch && !e.isFreeOf (fetched events)

/-- The events that also happen if the ops were never there. -/
def withoutOps (ops : List Op) (events : List Event) : List Event :=
  events.filter fun e => !e.isFreeOf ops

theorem mem_fetched {op : Op} {mispred : Bool} {events : List Event}
    (h : .fetch op mispred ∈ events) : op ∈ fetched events :=
  List.mem_filterMap.mpr ⟨_, h, rfl⟩

/-! ## Unique numbers -/

variable {s t t' u : Thread}

theorem uniqueCount_step {e : Event} (h : t.step p e = .ok t') :
    t.uniqueCount ≤ t'.uniqueCount ∧
      ∀ op mispred, e = .fetch op mispred →
        t.uniqueCount ≤ op.uniqueNum ∧ op.uniqueNum < t'.uniqueCount := by
  cases step_spec h with
  | @fetch op mispred _ _ hnext _ _ =>
      refine ⟨Nat.le_succ_of_le hnext.2.1, ?_⟩
      intro op' mispred' heq
      cases heq
      exact ⟨hnext.2.1, Nat.lt_succ_self _⟩
  | retire _ _ => exact ⟨Nat.le_refl _, fun _ _ heq => by cases heq⟩
  | recover _ _ => exact ⟨Nat.le_refl _, fun _ _ heq => by cases heq⟩
  | free _ => exact ⟨Nat.le_refl _, fun _ _ heq => by cases heq⟩

/-- The ops that a run fetches are numbered from the count before it to the count after it. -/
theorem uniqueCount_run {events : List Event} (h : Execution.run (Thread.step p) t events = .ok t') :
    t.uniqueCount ≤ t'.uniqueCount ∧
      ∀ op ∈ fetched events, t.uniqueCount ≤ op.uniqueNum ∧ op.uniqueNum < t'.uniqueCount := by
  induction events generalizing t with
  | nil =>
      obtain rfl : t = t' := by simpa using h
      exact ⟨Nat.le_refl _, fun op hop => by simp [fetched] at hop⟩
  | cons e events ih =>
      obtain ⟨m, hm, hrest⟩ := Execution.run_cons_eq_ok.mp h
      obtain ⟨hle, hnew⟩ := uniqueCount_step hm
      obtain ⟨hle', hlater⟩ := ih hrest
      refine ⟨hle.trans hle', fun op hop => ?_⟩
      obtain ⟨e', he', heq⟩ := List.mem_filterMap.mp hop
      cases List.mem_cons.mp he' with
      | inl hfirst =>
          subst hfirst
          cases e' with
          | fetch op' mispred =>
              cases heq
              obtain ⟨hge, hlt⟩ := hnew _ _ rfl
              exact ⟨hge, hlt.trans_le hle'⟩
          | retire => cases heq
          | recover _ _ => cases heq
          | free _ => cases heq
      | inr hmem =>
          obtain ⟨hge, hlt⟩ := hlater op (List.mem_filterMap.mpr ⟨e', hmem, heq⟩)
          exact ⟨hle.trans hge, hlt⟩

/-! ## On the wrong path -/

/-- The first thread is on the wrong path after `r`, the second waits at `r`. -/
structure Ahead (gone : List Op) (r : ℕ) (t u : Thread) : Prop where
  retired : t.retired = u.retired
  seq : ∃ extra, t.seqOpList = u.seqOpList ++ extra ∧
    ∀ op ∈ extra, r < op.opNum ∧ op.offPath = true ∧ op ∈ gone
  old : ∀ op ∈ u.path, op.opNum ≤ r ∧ op ∉ gone
  flushed : u.flushed = t.flushed.filter (· ∉ gone)
  count : u.opCount = r + 1
  newer : r < t.opCount
  offPath : t.offPath = true
  offPath' : u.offPath = true
  numbers : u.uniqueCount ≤ t.uniqueCount

variable {gone : List Op} {r : ℕ}

/-- The op that a later op of the wrong path recovers to is off the path. -/
theorem Ahead.forced (h : Ahead gone r t u) (ho : Ordered t) {r' : ℕ} {force : Bool} (hlt : r < r')
    (hrec : t.Recovers r' force) : force = true := by
  obtain ⟨op, hop, hnum⟩ := ho.exists_op (by omega) hrec.fetched
  obtain ⟨extra, hseq, hextra⟩ := h.seq
  rw [Thread.path, hseq, h.retired, ← List.append_assoc] at hop
  cases List.mem_append.mp hop with
  | inl hold =>
      have := (h.old op hold).1
      omega
  | inr hnew =>
      refine hrec.forced op ?_ hnum (hextra op hnew).2.1
      rw [Thread.path, hseq]
      exact List.mem_append_right _ (List.mem_append_right _ hnew)

/-- A recovery up to some op, of a list whose first part is old. -/
theorem filter_append_le {ops : List Op} (extra : List Op) {r' : ℕ} (hle : ∀ op ∈ ops, op.opNum ≤ r') :
    (ops ++ extra).filter (·.opNum ≤ r') = ops ++ extra.filter (·.opNum ≤ r') ∧
      (ops ++ extra).filter (r' < ·.opNum) = extra.filter (r' < ·.opNum) := by
  have hkeep : ops.filter (·.opNum ≤ r') = ops := by
    simpa only [List.filter_eq_self, decide_eq_true_eq] using hle
  have hdrop : ops.filter (r' < ·.opNum) = [] := by
    simp only [List.filter_eq_nil_iff, decide_eq_true_eq]
    intro op hop
    have := hle op hop
    omega
  simp [List.filter_append, hkeep, hdrop]

theorem filter_gone_eq_nil {ops : List Op} (h : ∀ op ∈ ops, op ∈ gone) : ops.filter (· ∉ gone) = [] := by
  simp only [List.filter_eq_nil_iff, decide_eq_true_eq, not_not]
  exact h

/-- The frees of the two threads. -/
theorem flushed_erase {flushed : List Op} (op : Op) :
    (flushed.erase op).filter (· ∉ gone) = (flushed.filter (· ∉ gone)).erase op :=
  List.erase_filter.symm

theorem Ahead.step (h : Ahead gone r t u) (ho : Ordered t) {e : Event} (hwrong : e.Wrong r)
    (hgone : ∀ op mispred, e = .fetch op mispred → op ∈ gone) (hs : t.step p e = .ok t') :
    ∃ u', Execution.run (Thread.step p) u ([e].filter fun e => !e.isFetch && !e.isFreeOf gone) =
      .ok u' ∧ Ahead gone r t' u' := by
  obtain ⟨extra, hseq, hextra⟩ := h.seq
  cases step_spec hs with
  | @fetch op mispred _ _ hnext _ _ =>
      refine ⟨u, rfl, { h with seq := ?_, newer := ?_, offPath := ?_, numbers := ?_ }⟩
      · refine ⟨extra ++ [op], by simp [hseq], ?_⟩
        intro o hmem
        cases List.mem_append.mp hmem with
        | inl hold => exact hextra o hold
        | inr hnew =>
            obtain rfl := List.mem_singleton.mp hnew
            exact ⟨hnext.1 ▸ h.newer, hnext.2.2.trans h.offPath, hgone _ _ rfl⟩
      · have := h.newer
        have := hnext.1
        simp only
        omega
      · simp [h.offPath]
      · exact h.numbers.trans (Nat.le_succ_of_le hnext.2.1)
  | @retire op rest hhead hon =>
      -- the oldest op is on the path, so it is not one of the wrong path
      cases hu : u.seqOpList with
      | nil =>
          rw [hu, List.nil_append] at hseq
          have hoff := (hextra op (by simp [← hseq, hhead])).2.1
          rw [hon] at hoff
          cases hoff
      | cons op' rest' =>
          have hparts : op = op' ∧ rest = rest' ++ extra := by
            rw [hhead, hu] at hseq
            simpa using hseq
          obtain ⟨rfl, hrest⟩ := hparts
          refine ⟨{ u with map := freeOp u.map op, seqOpList := rest', retired := u.retired ++ [op] },
            ?_, ?_⟩
          · have hstep : u.step p .retire = .ok { u with
                map := freeOp u.map op, seqOpList := rest', retired := u.retired ++ [op] } := by
              simp [Thread.step, hu, hon]
            exact Execution.run_cons_eq_ok.mpr ⟨_, hstep, rfl⟩
          · refine { h with retired := ?_, seq := ⟨extra, hrest, hextra⟩, old := ?_ }
            · simp [h.retired]
            · have hpath : u.retired ++ [op] ++ rest' = u.path := by simp [Thread.path, hu]
              simpa only [Thread.path, hpath] using h.old
  | @recover r' force kept hrec hkept =>
      have hold : ∀ op ∈ u.seqOpList, op.opNum ≤ r' := by
        intro op hop
        have := (h.old op (List.mem_append_right _ hop)).1
        have : r < r' := hwrong
        omega
      obtain ⟨hkeep, hdrop⟩ := filter_append_le extra hold
      rw [← hseq] at hkeep hdrop
      refine ⟨u, rfl, { h with seq := ?_, flushed := ?_, newer := ?_, offPath := ?_ }⟩
      · refine ⟨extra.filter (·.opNum ≤ r'), ?_, ?_⟩
        · rw [← hkeep]
          exact recoverSeqOpList_eq ho.seq_pairwise hkept
        · intro op hop
          exact hextra op (List.mem_of_mem_filter hop)
      · simp only
        rw [hdrop, List.filter_append,
          filter_gone_eq_nil fun op hop => (hextra op (List.mem_of_mem_filter hop)).2.2,
          List.append_nil]
        exact h.flushed
      · have : r < r' := hwrong
        simp only
        omega
      · exact h.forced ho hwrong hrec
  | @free op hop =>
      by_cases hmem : op ∈ gone
      · refine ⟨u, ?_, { h with flushed := ?_ }⟩
        · simp [Event.isFreeOf, hmem]
        · simp only
          rw [flushed_erase, ← h.flushed, List.erase_of_not_mem]
          rw [h.flushed]
          simp [hmem]
      · have hop' : op ∈ u.flushed := by
          rw [h.flushed]
          simp [hop, hmem]
        refine ⟨{ u with map := freeOp u.map op, flushed := u.flushed.erase op }, ?_,
          { h with flushed := ?_ }⟩
        · have hkeep : ([.free op].filter fun e : Event => !e.isFetch && !e.isFreeOf gone) =
              [.free op] := by
            simp [Event.isFetch, Event.isFreeOf, hmem]
          rw [hkeep]
          exact Execution.run_cons_eq_ok.mpr ⟨_, if_pos hop', rfl⟩
        · simp only
          rw [flushed_erase, ← h.flushed]

/-! ## After the recovery -/

/-- The second thread is like the first, without ops that are gone. -/
structure Mirrors (gone : List Op) (t u : Thread) : Prop where
  retired : t.retired = u.retired
  seq : t.seqOpList = u.seqOpList
  flushed : u.flushed = t.flushed.filter (· ∉ gone)
  count : t.opCount = u.opCount
  offPath : t.offPath = u.offPath
  numbers : u.uniqueCount ≤ t.uniqueCount
  apart : ∀ op ∈ t.path, op ∉ gone
  past : ∀ op ∈ gone, op.uniqueNum < t.uniqueCount

theorem Mirrors.path (h : Mirrors gone t u) : t.path = u.path := by
  rw [Thread.path, Thread.path, h.retired, h.seq]

/-- The recovery to `r` drops what the first thread is ahead by. -/
theorem Ahead.recover (h : Ahead gone r t u) (ho : Ordered t) {force : Bool}
    (hpast : ∀ op ∈ gone, op.uniqueNum < t.uniqueCount) (hs : t.step p (.recover r force) = .ok t') :
    ∃ u', u.step p (.recover r force) = .ok u' ∧ Mirrors gone t' u' := by
  obtain ⟨extra, hseq, hextra⟩ := h.seq
  have hold : ∀ op ∈ u.seqOpList, op.opNum ≤ r :=
    fun op hop => (h.old op (List.mem_append_right _ hop)).1
  obtain ⟨hkeep, hdrop⟩ := filter_append_le extra hold
  rw [← hseq] at hkeep hdrop
  have hnone : extra.filter (·.opNum ≤ r) = [] := by
    simp only [List.filter_eq_nil_iff, decide_eq_true_eq]
    intro op hop
    have := (hextra op hop).1
    omega
  rw [hnone, List.append_nil] at hkeep
  have hpairs := ho.seq_pairwise
  rw [hseq] at hpairs
  cases step_spec hs with
  | @recover _ _ kept hrec hkept =>
      have hrec' : u.Recovers r force := by
        refine ⟨by rw [h.count]; omega, ?_, ?_⟩
        · intro op hop hlt
          have := (h.old op hop).1
          omega
        · intro op hop
          refine hrec.forced op ?_
          rw [Thread.path, h.retired, hseq, ← List.append_assoc]
          exact List.mem_append_left _ hop
      have hkept' := recoverSeqOpList_all (List.pairwise_append.mp hpairs).1 hold
      have hsame : kept = u.seqOpList := (recoverSeqOpList_eq ho.seq_pairwise hkept).trans hkeep
      have hlater : u.seqOpList.filter (r < ·.opNum) = [] := by
        simp only [List.filter_eq_nil_iff, decide_eq_true_eq]
        intro op hop
        have := hold op hop
        omega
      refine ⟨{ u with
          map := recoverMap u.map u.seqOpList, seqOpList := u.seqOpList
          flushed := u.flushed ++ u.seqOpList.filter (r < ·.opNum), opCount := r + 1
          offPath := force }, ?_, ?_⟩
      · simp only [Thread.step, if_pos hrec', hkept']
        rfl
      · refine ⟨h.retired, hsame, ?_, rfl, rfl, h.numbers, ?_, hpast⟩
        · simp only
          rw [hdrop, hlater, List.append_nil, List.filter_append,
            filter_gone_eq_nil fun op hop => (hextra op (List.mem_of_mem_filter hop)).2.2,
            List.append_nil]
          exact h.flushed
        · rw [Thread.path]
          simp only [hsame, h.retired]
          exact fun op hop => (h.old op hop).2

/-- Both threads keep the invariants of the map. -/
structure Mirrored (p : Params) (gone : List Op) (t u : Thread) : Prop where
  mirrors : Mirrors gone t u
  ordered : Ordered t
  tracked : Tracked p t
  ordered' : Ordered u
  tracked' : Tracked p u

theorem Mirrored.sameReads (h : Mirrored p gone t u) : SameReads p t.map u.map :=
  sameReads_of_path h.ordered h.tracked h.ordered' h.tracked' h.mirrors.path h.mirrors.seq

theorem Mirrors.step (h : Mirrors gone t u) (ho : Ordered t) (hsame : SameReads p t.map u.map)
    {e : Event} (hs : t.step p e = .ok t') :
    ∃ u', Execution.run (Thread.step p) u ([e].filter fun e => !e.isFreeOf gone) = .ok u' ∧
      Mirrors gone t' u' := by
  cases step_spec hs with
  | @fetch op mispred srcs m hnext hroom hmap =>
      obtain ⟨m', hmap'⟩ := hsame.threadMap_ok hmap
      have hnext' : u.Next op :=
        ⟨hnext.1.trans h.count, h.numbers.trans hnext.2.1, hnext.2.2.trans h.offPath⟩
      refine ⟨{ u with
          map := m', seqOpList := u.seqOpList ++ [op], opCount := op.opNum + 1
          uniqueCount := op.uniqueNum + 1, offPath := u.offPath || mispred }, ?_, ?_⟩
      · refine Execution.run_cons_eq_ok.mpr ⟨_, ?_, rfl⟩
        rw [h.seq] at hroom
        simp only [Thread.step, if_pos hnext', if_pos hroom, hmap']
        rfl
      · have hfresh : op ∉ gone := by
          intro hmem
          have := h.past op hmem
          have := hnext.2.1
          omega
        refine ⟨h.retired, by simp [h.seq], h.flushed, rfl, by simp [h.offPath], Nat.le_refl _, ?_, ?_⟩
        · intro o ho
          rw [Thread.path, ← List.append_assoc] at ho
          cases List.mem_append.mp ho with
          | inl hold => exact h.apart o hold
          | inr hnew => exact List.mem_singleton.mp hnew ▸ hfresh
        · intro o ho
          exact (h.past o ho).trans_le (Nat.le_succ_of_le hnext.2.1)
  | @retire op rest hhead hon =>
      refine ⟨{ u with map := freeOp u.map op, seqOpList := rest, retired := u.retired ++ [op] }, ?_, ?_⟩
      · refine Execution.run_cons_eq_ok.mpr ⟨_, ?_, rfl⟩
        rw [h.seq] at hhead
        simp [Thread.step, hhead, hon]
      · refine { h with retired := by simp [h.retired], seq := rfl, apart := ?_ }
        have hpath : t.retired ++ [op] ++ rest = t.path := by simp [Thread.path, hhead]
        simpa only [Thread.path, hpath] using h.apart
  | @recover r force kept hrec hkept =>
      have hrec' : u.Recovers r force :=
        ⟨h.count ▸ hrec.fetched, h.path ▸ hrec.wrongPath, h.path ▸ hrec.forced⟩
      have hkept' : recoverSeqOpList u.seqOpList r = .ok kept := h.seq ▸ hkept
      have hstay : ∀ op ∈ t.seqOpList.filter (r < ·.opNum), op ∉ gone := fun op hop =>
        h.apart op (List.mem_append_right _ (List.mem_of_mem_filter hop))
      refine ⟨{ u with
          map := recoverMap u.map kept, seqOpList := kept
          flushed := u.flushed ++ u.seqOpList.filter (r < ·.opNum), opCount := r + 1
          offPath := force }, ?_, ?_⟩
      · refine Execution.run_cons_eq_ok.mpr ⟨_, ?_, rfl⟩
        simp only [Thread.step, if_pos hrec', hkept']
        rfl
      · refine ⟨h.retired, rfl, ?_, rfl, rfl, h.numbers, ?_, h.past⟩
        · have hall : (t.seqOpList.filter (r < ·.opNum)).filter (· ∉ gone) =
              t.seqOpList.filter (r < ·.opNum) := by
            simp only [List.filter_eq_self, decide_eq_true_eq]
            exact hstay
          simp only
          rw [List.filter_append, ← h.flushed, hall, h.seq]
        · intro op hop
          refine h.apart op ?_
          have hpath := ho.path_recover hrec hkept
          simp only [Thread.path, hpath] at hop
          exact List.mem_of_mem_filter hop
  | @free op hop =>
      by_cases hmem : op ∈ gone
      · refine ⟨u, by simp [Event.isFreeOf, hmem], { h with flushed := ?_ }⟩
        simp only
        rw [flushed_erase, ← h.flushed, List.erase_of_not_mem]
        rw [h.flushed]
        simp [hmem]
      · have hop' : op ∈ u.flushed := by
          rw [h.flushed]
          simp [hop, hmem]
        refine ⟨{ u with map := freeOp u.map op, flushed := u.flushed.erase op }, ?_,
          { h with flushed := ?_ }⟩
        · have hkeep : ([.free op].filter fun e : Event => !e.isFreeOf gone) = [.free op] := by
            simp [Event.isFreeOf, hmem]
          rw [hkeep]
          exact Execution.run_cons_eq_ok.mpr ⟨_, if_pos hop', rfl⟩
        · simp only
          rw [flushed_erase, ← h.flushed]

theorem Mirrored.step (h : Mirrored p gone t u) {e : Event} (hs : t.step p e = .ok t') :
    ∃ u', Execution.run (Thread.step p) u ([e].filter fun e => !e.isFreeOf gone) = .ok u' ∧
      Mirrored p gone t' u' := by
  obtain ⟨u', hu, hmirrors⟩ := h.mirrors.step h.ordered h.sameReads hs
  obtain ⟨ho', ht'⟩ := run_invariant h.ordered' h.tracked' hu
  exact ⟨u', hu, hmirrors, h.ordered.step hs, h.tracked.step h.ordered hs, ho', ht'⟩

/-! ## The whole run -/

/-- A thread that has just fetched the op `r` and is off the path, and the events of the wrong path. -/
theorem ahead_run {wrong : List Event} (ho : Ordered s) (hcount : s.opCount = r + 1)
    (hoff : s.offPath = true) (hwrong : ∀ e ∈ wrong, e.Wrong r)
    (hrun : Execution.run (Thread.step p) s wrong = .ok t) :
    ∃ u, Execution.run (Thread.step p) s (withoutWrongPath wrong) = .ok u ∧
      Ahead (fetched wrong) r t u := by
  have hnums := (uniqueCount_run hrun).2
  have hfresh : ∀ op ∈ s.path ++ s.flushed, op ∉ fetched wrong := by
    intro op hop hmem
    have := ho.bound op hop
    have := (hnums op hmem).1
    omega
  have hstart : Ahead (fetched wrong) r s s := by
    refine ⟨rfl, ⟨[], by simp, by simp⟩, ?_, ?_, hcount, by omega, hoff, hoff, Nat.le_refl _⟩
    · intro op hop
      have := ho.opNum_lt hop
      exact ⟨by omega, hfresh op (List.mem_append_left _ hop)⟩
    · symm
      simp only [List.filter_eq_self, decide_eq_true_eq]
      exact fun op hop => hfresh op (List.mem_append_right _ hop)
  have hfollow := Execution.run_filter
    (fun e => !e.isFetch && !e.isFreeOf (fetched wrong))
    (R := fun t u => Ordered t ∧ Ahead (fetched wrong) r t u)
    (P := fun e => e.Wrong r ∧ ∀ op mispred, e = .fetch op mispred → op ∈ fetched wrong)
    (fun s u e t hR hP hs => by
      obtain ⟨u', hu, hahead⟩ := hR.2.step hR.1 hP.1 hP.2 hs
      exact ⟨u', hu, hR.1.step hs, hahead⟩)
    (u := s) ⟨ho, hstart⟩
    (fun e he => ⟨hwrong e he, fun op mispred heq => mem_fetched (heq ▸ he)⟩) hrun
  obtain ⟨u, hu, _, hahead⟩ := hfollow
  exact ⟨u, hu, hahead⟩

/-- A thread is off the path after the op `r`, fetches a wrong path, with recoveries inside it,
recovers to `r` and goes on. The same run without the wrong path leads to a thread with the
same ops, where every op finds the same sources. -/
theorem recovery_transparent {wrong later : List Event} {force : Bool} (hs : Reachable p s)
    (hcount : s.opCount = r + 1) (hoff : s.offPath = true) (hwrong : ∀ e ∈ wrong, e.Wrong r)
    (hrun : Execution.run (Thread.step p) s (wrong ++ .recover r force :: later) = .ok t) :
    ∃ u, Execution.run (Thread.step p) s
        (withoutWrongPath wrong ++ .recover r force :: withoutOps (fetched wrong) later) = .ok u ∧
      u.path = t.path ∧ u.seqOpList = t.seqOpList ∧ SameReads p t.map u.map ∧
      ∀ op, t.map.sources p op = u.map.sources p op := by
  have ho := hs.ordered
  have ht := hs.tracked
  obtain ⟨t₁, hrun₁, hrest⟩ := Execution.run_append_eq_ok.mp hrun
  obtain ⟨t₂, hrec, hlater⟩ := Execution.run_cons_eq_ok.mp hrest
  obtain ⟨ho₁, ht₁⟩ := run_invariant ho ht hrun₁
  obtain ⟨u₁, hu₁, hahead⟩ := ahead_run ho hcount hoff hwrong hrun₁
  obtain ⟨u₂, hu₂, hmirrors⟩ :=
    hahead.recover ho₁ (fun op hop => ((uniqueCount_run hrun₁).2 op hop).2) hrec
  obtain ⟨ho'₁, ht'₁⟩ := run_invariant ho ht hu₁
  have hmirrored : Mirrored p (fetched wrong) t₂ u₂ :=
    ⟨hmirrors, ho₁.step hrec, ht₁.step ho₁ hrec, ho'₁.step hu₂, ht'₁.step ho'₁ hu₂⟩
  obtain ⟨u, hu, hend⟩ := Execution.run_filter (fun e => !e.isFreeOf (fetched wrong))
    (R := Mirrored p (fetched wrong)) (P := fun _ => True)
    (fun _ _ _ _ hR _ hstep => hR.step hstep) hmirrored (fun _ _ => trivial) hlater
  refine ⟨u, ?_, hend.mirrors.path.symm, hend.mirrors.seq.symm, hend.sameReads,
    hend.sameReads.sources_eq⟩
  exact Execution.run_append_eq_ok.mpr ⟨u₁, hu₁, Execution.run_cons_eq_ok.mpr ⟨u₂, hu₂, hu⟩⟩

/-- A store and a branch. -/
def nestedBefore : List Event :=
  [.fetch ⟨1, 0, false, [], [1], .st, 0x1000, 8⟩ false,
    .fetch ⟨2, 1, false, [1], [], .notMem, 0, 0⟩ true]

/-- A wrong path with a branch of its own, which is recovered first. Its stores overlap the store. -/
def nestedWrong : List Event :=
  [.fetch ⟨3, 2, true, [1], [1], .st, 0x1004, 8⟩ true,
    .fetch ⟨4, 3, true, [], [2], .st, 0x1002, 4⟩ false, .recover 3 true,
    .fetch ⟨4, 4, true, [], [1], .st, 0x1001, 2⟩ false]

/-- An op of the wrong path is freed, and a load is fetched. -/
def nestedLater : List Event :=
  [.free ⟨4, 3, true, [], [2], .st, 0x1002, 4⟩,
    .fetch ⟨3, 5, false, [1], [2], .ld, 0x1000, 8⟩ false]

theorem recovery_transparent_nested :
    ∃ s t u, Execution.run (Thread.step .default) .init nestedBefore = .ok s ∧
      Execution.run (Thread.step .default) s
        (nestedWrong ++ .recover 2 false :: nestedLater) = .ok t ∧
      Execution.run (Thread.step .default) s (withoutWrongPath nestedWrong ++ .recover 2 false ::
        withoutOps (fetched nestedWrong) nestedLater) = .ok u ∧
      SameReads .default t.map u.map := by
  have hok : (Execution.run (Thread.step .default) .init
      (nestedBefore ++ (nestedWrong ++ .recover 2 false :: nestedLater))).isOk = true := by
    decide +kernel
  obtain ⟨t, hall⟩ := Execution.exists_ok hok
  obtain ⟨s, hs, hrun⟩ := Execution.run_append_eq_ok.mp hall
  have hfront : (fun s : Thread => (s.opCount, s.offPath)) <$>
      Execution.run (Thread.step .default) .init nestedBefore = .ok (3, true) := by
    decide +kernel
  rw [hs] at hfront
  have hcount : (s.opCount, s.offPath) = (3, true) := Except.ok.inj hfront
  obtain ⟨u, hu, _, _, hsame, _⟩ := recovery_transparent ⟨_, hs⟩ (congrArg Prod.fst hcount)
    (congrArg Prod.snd hcount) (by simp [nestedWrong, Event.Wrong]) hrun
  exact ⟨s, t, u, hs, hrun, hu, hsame⟩

end Scarab.Map
