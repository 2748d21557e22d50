import Scarab.Prefetcher.StrideRuns

/-! # One stride

An entry whose count of a stride reaches `PREF_STRIDE_SINGLE_THRESH` is to follow that stride. The
training resets the state before it copies the stride, so that it is always that of state 0. -/

namespace Scarab.Stride

open Phase (logged)

variable {p : Params} {κ : Type} {addto : Ul1Queue κ} {hwpId : Uns8}

/-! ## Training -/

/-- The entry as an access finds it, when it has taken note of the stride. -/
def IndexTableEntry.observed (p : Params) (e : IndexTableEntry) (lineIndex : Addr) : IndexTableEntry :=
  (e.advance lineIndex).1.observe p (e.advance lineIndex).2

/-- The count of the present stride has reached the threshold. -/
def IndexTableEntry.Reaches (p : Params) (e : IndexTableEntry) : Prop := p.singleThresh ≤ e.sCnt e.currState

instance (p : Params) (e : IndexTableEntry) : Decidable (e.Reaches p) :=
  inferInstanceAs (Decidable (p.singleThresh ≤ e.sCnt e.currState))

/-- What is known of an entry that is not trained. -/
structure IndexTableEntry.Untrained (p : Params) (e : IndexTableEntry) : Prop where
  trained : e.trained = false
  counts : ∀ c, e.sCnt c < p.singleThresh ∨ e.sCnt c = 0
  captured : ∀ c, e.stride c ≠ 0 → 1 ≤ e.sCnt c
  count : e.trainCountMode = false → e.count = 0
  begun : e.currState = 1 ∨ e.trainCountMode = true → e.stride 0 ≠ 0
  fresh : e.trainCountMode = false → e.currState = 0 → e.sCnt 1 = 0

theorem IndexTableEntry.renew_untrained (e : IndexTableEntry) (lineIndex : Addr) : (e.renew lineIndex).Untrained p where
  trained := rfl
  counts := fun _ => .inr rfl
  captured := fun _ h => absurd rfl h
  count := fun _ => rfl
  begun := by simp [renew]
  fresh := fun _ _ => rfl

theorem IndexTableEntry.Untrained.thresh {e : IndexTableEntry} (h : e.Untrained p) (hstride : e.stride 0 ≠ 0) :
    1 < p.singleThresh := by
  have hone := h.captured 0 hstride
  rcases h.counts 0 with hlt | hzero
  · omega
  · omega

theorem fin2_cases (c : Fin 2) : c = 0 ∨ c = 1 := by
  revert c
  decide

/-- What noting a stride comes to, branch by branch. -/
theorem IndexTableEntry.observe_cases (p : Params) (e : IndexTableEntry) (stride : CInt) :
    (e.trainCountMode = true ∧
      ((∃ recnt count c, e.observe p stride = { e with recnt, count, currState := c }) ∨
        e.observe p stride = e.renew e.lastIndex)) ∨
    (e.trainCountMode = false ∧ e.stride e.currState ≠ 0 ∧ e.stride e.currState = stride ∧
      e.observe p stride = { e with sCnt := Function.update e.sCnt e.currState (e.sCnt e.currState + 1) }) ∨
    (e.trainCountMode = false ∧ (e.stride e.currState = 0 ∨ p.singleStrideMode = true) ∧
      e.observe p stride = { e with
        stride := Function.update e.stride e.currState stride, sCnt := Function.update e.sCnt e.currState 1 }) ∨
    (e.trainCountMode = false ∧ e.stride e.currState ≠ 0 ∧ e.currState = 0 ∧
      ∃ strans numStates, e.observe p stride = { e with strans, numStates, currState := 1 }) ∨
    (e.trainCountMode = false ∧ e.currState = 1 ∧
      ∃ strans numStates, e.observe p stride =
        { e with strans, numStates, currState := 0, trainCountMode := true, count := 0, recnt := 0 }) := by
  rw [observe]
  by_cases hmode : e.trainCountMode = true
  · left
    refine ⟨hmode, ?_⟩
    simp only [hmode, if_true]
    split
    · exact .inl ⟨_, _, e.currState, rfl⟩
    · split
      · exact .inl ⟨_, _, _, rfl⟩
      · exact .inr rfl
  · have hmode' : e.trainCountMode = false := Bool.eq_false_iff.mpr hmode
    right
    simp only [hmode', Bool.false_eq_true, if_false]
    by_cases hzero : e.stride e.currState = 0
    · rw [if_pos hzero]
      exact .inr (.inl ⟨trivial, .inl hzero, rfl⟩)
    · by_cases hsame : e.stride e.currState = stride
      · rw [if_neg hzero, if_pos hsame]
        exact .inl ⟨trivial, hzero, hsame, rfl⟩
      · by_cases hsingle : p.singleStrideMode = true
        · rw [if_neg hzero, if_neg hsame, if_pos hsingle]
          exact .inr (.inl ⟨trivial, .inr hsingle, rfl⟩)
        · rw [if_neg hzero, if_neg hsame, if_neg hsingle]
          right
          right
          rcases fin2_cases e.currState with hc | hc
          · left
            refine ⟨trivial, hzero, hc, Function.update e.strans e.currState stride, if e.numStates = 1 then 2 else e.numStates,
              ?_⟩
            rw [hc]
            rfl
          · right
            refine ⟨trivial, hc, Function.update e.strans e.currState stride, if e.numStates = 1 then 2 else e.numStates, ?_⟩
            rw [hc]
            rfl

/-- A new count of the present stride that is below the threshold. -/
theorem IndexTableEntry.Untrained.counts_update {e : IndexTableEntry} (h : e.Untrained p) {count : ℕ}
    (hcount : count < p.singleThresh) (c : Fin 2) :
    Function.update e.sCnt e.currState count c < p.singleThresh ∨ Function.update e.sCnt e.currState count c = 0 := by
  by_cases hc : c = e.currState
  · subst hc
    exact .inl (by simpa using hcount)
  · simpa [hc] using h.counts c

theorem IndexTableEntry.Untrained.fresh_update {e : IndexTableEntry} (h : e.Untrained p) (count : ℕ)
    (hmode : e.trainCountMode = false) (hcurr : e.currState = 0) : Function.update e.sCnt e.currState count 1 = 0 := by
  simpa [hcurr] using h.fresh hmode hcurr

/-- Noting a stride keeps what is known, unless the count has reached the threshold. -/
theorem IndexTableEntry.Untrained.observe {e : IndexTableEntry} (h : e.Untrained p) (stride : CInt)
    (hreach : ¬ (e.observe p stride).Reaches p) : (e.observe p stride).Untrained p := by
  rw [Reaches] at hreach
  rcases observe_cases p e stride with ⟨hmode, ⟨recnt, count, c, ho⟩ | ho⟩ | ⟨hmode, hzero, -, ho⟩ |
    ⟨hmode, -, ho⟩ | ⟨hmode, hzero, hc, strans, numStates, ho⟩ | ⟨hmode, hc, strans, numStates, ho⟩
  · rw [ho]
    exact ⟨h.trained, h.counts, h.captured, fun hm => absurd hmode (by simpa using hm), fun _ => h.begun (.inr hmode),
      fun hm => absurd hmode (by simpa using hm)⟩
  · rw [ho]
    exact e.renew_untrained _
  · rw [ho] at hreach ⊢
    simp only [Function.update_self, Nat.not_le] at hreach
    refine ⟨h.trained, ?_, ?_, h.count, h.begun, ?_⟩
    · exact h.counts_update hreach
    · intro c hstride
      by_cases hc : c = e.currState
      · subst hc
        simp
      · simpa [hc] using h.captured c hstride
    · exact h.fresh_update _
  · rw [ho] at hreach ⊢
    simp only [Function.update_self, Nat.not_le] at hreach
    refine ⟨h.trained, ?_, ?_, h.count, ?_, ?_⟩
    · exact h.counts_update hreach
    · intro c hstride
      by_cases hc : c = e.currState
      · subst hc
        simp
      · simp only [Function.update_of_ne hc] at hstride ⊢
        exact h.captured c hstride
    · intro hbegun
      have hcurr : e.currState = 1 := by simpa [hmode] using hbegun
      simpa [hcurr] using h.begun (.inl hcurr)
    · exact h.fresh_update _
  · rw [ho]
    refine ⟨h.trained, h.counts, h.captured, h.count, fun _ => ?_, fun _ hcurr => absurd hcurr (by simp)⟩
    rw [hc] at hzero
    exact hzero
  · rw [ho]
    exact ⟨h.trained, h.counts, h.captured, by simp, fun _ => h.begun (.inl hc), by simp⟩

/-- The count reaches the threshold in the state in which the access finds the entry, with the
stride of the access. -/
structure IndexTableEntry.Reached (e o : IndexTableEntry) (stride : CInt) : Prop where
  currState : o.currState = e.currState
  reached : o.stride o.currState = stride
  kept : e.currState = 1 → o.stride = e.stride
  count : o.count = 0
  positive : 1 ≤ o.sCnt 0

theorem IndexTableEntry.Untrained.reached {e : IndexTableEntry} (h : e.Untrained p) (stride : CInt)
    (hreach : (e.observe p stride).Reaches p) : e.Reached (e.observe p stride) stride := by
  rw [Reaches] at hreach
  have hbelow : e.stride 0 ≠ 0 → ∀ c, ¬ p.singleThresh ≤ e.sCnt c := by
    intro hstride c hle
    have hthresh := h.thresh hstride
    rcases h.counts c with hlt | hzero
    · omega
    · omega
  rcases observe_cases p e stride with ⟨hmode, ⟨recnt, count, c, ho⟩ | ho⟩ | ⟨hmode, hzero, hsame, ho⟩ |
    ⟨hmode, hor, ho⟩ | ⟨hmode, hzero, hc, strans, numStates, ho⟩ | ⟨hmode, hc, strans, numStates, ho⟩
  · rw [ho] at hreach
    exact absurd hreach (hbelow (h.begun (.inr hmode)) c)
  · rw [ho] at hreach
    have hthresh := h.thresh (h.begun (.inr hmode))
    simp only [renew] at hreach
    omega
  · rw [ho]
    refine ⟨rfl, hsame, fun _ => rfl, h.count hmode, ?_⟩
    rcases fin2_cases e.currState with hc | hc
    · simp [hc]
    · simpa [hc] using h.captured 0 (h.begun (.inl hc))
  · rw [ho] at hreach ⊢
    rcases fin2_cases e.currState with hc | hc
    · exact ⟨rfl, by simp, fun hone => absurd (hc.symm.trans hone) (by decide), h.count hmode, by simp [hc]⟩
    · have hthresh := h.thresh (h.begun (.inl hc))
      simp only [Function.update_self] at hreach
      omega
  · rw [ho] at hreach
    rw [hc] at hzero
    exact absurd hreach (hbelow hzero 1)
  · rw [ho] at hreach
    exact absurd hreach (hbelow (h.begun (.inl hc)) 0)

/-- Moving on along a pattern changes only where its next line is. -/
structure IndexTableEntry.KeepsTraining (e e' : IndexTableEntry) : Prop where
  trained : e'.trained = e.trained
  numStates : e'.numStates = e.numStates
  currState : e'.currState = e.currState
  count : e'.count = e.count
  stride : e'.stride = e.stride
  sCnt : e'.sCnt = e.sCnt
  strans : e'.strans = e.strans
  lastIndex : e'.lastIndex = e.lastIndex

theorem IndexTableEntry.KeepsTraining.refl (e : IndexTableEntry) : e.KeepsTraining e :=
  ⟨rfl, rfl, rfl, rfl, rfl, rfl, rfl, rfl⟩

theorem Pattern.move_keeps (pat : Pattern) (e : IndexTableEntry) : e.KeepsTraining (pat.move e) := by
  cases pat with
  | single => exact ⟨rfl, rfl, rfl, rfl, rfl, rfl, rfl, rfl⟩
  | multi =>
      rw [Pattern.move]
      by_cases hlast : e.prefCount = e.sCnt e.prefCurrState
      · rw [if_pos hlast]
        exact ⟨rfl, rfl, rfl, rfl, rfl, rfl, rfl, rfl⟩
      · rw [if_neg hlast]
        exact ⟨rfl, rfl, rfl, rfl, rfl, rfl, rfl, rfl⟩

theorem IndexTableEntry.KeepsTraining.iterate {f : IndexTableEntry → IndexTableEntry}
    (hf : ∀ e : IndexTableEntry, e.KeepsTraining (f e))
    (n : ℕ) (e : IndexTableEntry) : e.KeepsTraining (f^[n] e) := by
  induction n generalizing e with
  | zero => exact .refl e
  | succ n ih =>
      have hfirst := hf e
      have hrest := ih (f e)
      exact ⟨hrest.trained.trans hfirst.trained, hrest.numStates.trans hfirst.numStates,
        hrest.currState.trans hfirst.currState, hrest.count.trans hfirst.count, hrest.stride.trans hfirst.stride,
        hrest.sCnt.trans hfirst.sCnt, hrest.strans.trans hfirst.strans, hrest.lastIndex.trans hfirst.lastIndex⟩

/-- The entry that is trained when its count has reached the threshold: state 0, whatever it was. -/
theorem settle_reached {o : IndexTableEntry} (h : o.Reaches p) :
    (o.settle p).trained = true ∧ (o.settle p).numStates = 1 ∧ (o.settle p).currState = 0 ∧
      (o.settle p).count = o.count ∧ (o.settle p).stride = o.stride ∧ (o.settle p).sCnt = o.sCnt := by
  rw [IndexTableEntry.Reaches] at h
  rw [IndexTableEntry.settle]
  simp only [if_pos h]
  by_cases hmulti : p.multiThresh ≤ o.recnt
  · rw [if_pos hmulti]
    have hkeeps := IndexTableEntry.KeepsTraining.iterate (Pattern.move_keeps .multi) p.startDistance.toNat
      { o with
        trained := true, numStates := 1, prefCount := o.count, currState := 0, prefCurrState := 0
        prefLastIndex := o.lastIndex }
    exact ⟨hkeeps.trained, hkeeps.numStates, hkeeps.currState, hkeeps.count, hkeeps.stride, hkeeps.sCnt⟩
  · rw [if_neg hmulti]
    exact ⟨rfl, rfl, rfl, rfl, rfl, rfl⟩

/-- An entry whose count has not reached the threshold stays as it is, or is trained all the same. -/
theorem settle_unreached {o : IndexTableEntry} (h : ¬ o.Reaches p) : o.settle p = o ∨ (o.settle p).trained = true := by
  rw [IndexTableEntry.Reaches] at h
  rw [IndexTableEntry.settle]
  simp only [if_neg h]
  by_cases hmulti : p.multiThresh ≤ o.recnt
  · rw [if_pos hmulti]
    right
    exact (IndexTableEntry.KeepsTraining.iterate (Pattern.move_keeps .multi) p.startDistance.toNat _).trained
  · rw [if_neg hmulti]
    exact .inl rfl

/-! ## What is known in every run -/

theorem advance_untrained {e : IndexTableEntry} (h : e.Untrained p) (lineIndex : Addr) :
    (e.advance lineIndex).1.Untrained p :=
  ⟨h.trained, h.counts, h.captured, h.count, h.begun, h.fresh⟩

/-- As long as it is not trained, the entry is as training leaves it. -/
def Streaming.Ok (p : Params) (s : Streaming) : Prop := s.entry.trained = false → s.entry.Untrained p

theorem follow_none {e : IndexTableEntry} {stride : CInt} {e' : IndexTableEntry} (h : e.follow stride = (e', none)) :
    ∃ old : IndexTableEntry, e' = old.renew old.lastIndex := by
  rw [IndexTableEntry.follow] at h
  simp only at h
  split at h
  · cases h
  · split at h
    · split at h <;> cases h
    · cases h
      exact ⟨_, rfl⟩

theorem follow_some_trained {e : IndexTableEntry} {stride : CInt} {e' : IndexTableEntry} {pat : Pattern}
    (h : e.follow stride = (e', some pat)) : e'.trained = e.trained := by
  rw [IndexTableEntry.follow] at h
  simp only at h
  split at h
  · cases h
    rfl
  · split at h
    · split at h <;> cases h <;> rfl
    · cases h

theorem Pattern.sent_keeps (pat : Pattern) (e : IndexTableEntry) : e.KeepsTraining (pat.sent e) := by
  have hmove := pat.move_keeps e
  exact ⟨hmove.trained, hmove.numStates, hmove.currState, hmove.count, hmove.stride, hmove.sCnt, hmove.strans,
    hmove.lastIndex⟩

theorem Streaming.Ok.step {s : Streaming} (h : s.Ok p) (a : Access κ) : (s.step p addto hwpId a).Ok p := by
  cases htrained : s.entry.trained with
  | false =>
      rw [Streaming.step_untrained htrained]
      intro hstill
      have hunt := advance_untrained (h htrained) a.lineIndex
      by_cases hreach : ((s.entry.advance a.lineIndex).1.observe p (s.entry.advance a.lineIndex).2).Reaches p
      · rw [(settle_reached hreach).1] at hstill
        cases hstill
      · cases settle_unreached hreach with
        | inl hsame =>
            simp only [hsame]
            exact hunt.observe _ hreach
        | inr hdone =>
            rw [hdone] at hstill
            cases hstill
  | true =>
      have hstep := Streaming.step_trained p addto hwpId a htrained
      cases hfollow : (s.entry.advance a.lineIndex).1.follow (s.entry.advance a.lineIndex).2 with
      | mk e pat =>
          rw [hfollow] at hstep
          cases pat with
          | none =>
              rw [hstep]
              obtain ⟨old, rfl⟩ := follow_none hfollow
              exact fun _ => old.renew_untrained _
          | some pat =>
              obtain ⟨m, hm⟩ := hstep
              rw [hm]
              intro hstill
              have hkeeps := IndexTableEntry.KeepsTraining.iterate pat.sent_keeps m e
              have hon : (pat.sent^[m] e).trained = true :=
                (hkeeps.trained.trans (follow_some_trained hfollow)).trans htrained
              rw [hon] at hstill
              cases hstill

theorem Streaming.init_ok (old : IndexTableEntry) (lineIndex : Addr) : (Streaming.init old lineIndex).Ok p :=
  fun _ => old.renew_untrained lineIndex

theorem Streaming.Ok.run {s : Streaming} (h : s.Ok p) (accesses : List (Access κ)) :
    (s.run p addto hwpId accesses).Ok p := by
  induction accesses generalizing s with
  | nil => exact h
  | cons a accesses ih => exact ih (h.step a)

/-! ## Following one stride -/

/-- The next lines of a stride behind a start. -/
def strideLines (start : Addr) (stride : CInt) (first count : ℕ) : List Addr :=
  (List.range' first count).map fun i => start + BitVec.ofNat 64 i * stride.signExtend 64

/-- The entry follows one stride, and has come so many lines behind the start. -/
structure IndexTableEntry.Streams (e : IndexTableEntry) (start : Addr) (delta : CInt) (done : ℕ) : Prop where
  trained : e.trained = true
  numStates : e.numStates = 1
  currState : e.currState = 0
  count : e.count = 0
  positive : 1 ≤ e.sCnt 0
  stride : e.stride 0 = delta
  prefLastIndex : e.prefLastIndex = start + BitVec.ofNat 64 done * delta.signExtend 64

section

variable {start : Addr} {delta : CInt} {done : ℕ} {e : IndexTableEntry}

theorem next_line (start : Addr) (delta : CInt) (done : ℕ) :
    start + BitVec.ofNat 64 done * delta.signExtend 64 + delta.signExtend 64 =
      start + BitVec.ofNat 64 (done + 1) * delta.signExtend 64 := by
  rw [BitVec.ofNat_add, BitVec.add_mul, BitVec.one_mul, BitVec.add_assoc]

theorem IndexTableEntry.Streams.next (h : e.Streams start delta done) :
    Pattern.single.next e = start + BitVec.ofNat 64 (done + 1) * delta.signExtend 64 := by
  rw [Pattern.next, h.prefLastIndex, h.stride, next_line]

theorem IndexTableEntry.Streams.sent (h : e.Streams start delta done) :
    (Pattern.single.sent e).Streams start delta (done + 1) :=
  ⟨h.trained, h.numStates, h.currState, h.count, h.positive, h.stride, h.next⟩

theorem IndexTableEntry.Streams.lines (h : e.Streams start delta done) (m : ℕ) :
    (Pattern.single.sent^[m] e).Streams start delta (done + m) ∧
      Pattern.single.lines m e = strideLines start delta (done + 1) m := by
  induction m generalizing e done with
  | zero => exact ⟨h, rfl⟩
  | succ m ih =>
      obtain ⟨hlater, hlines⟩ := ih h.sent
      refine ⟨?_, ?_⟩
      · rw [Function.iterate_succ_apply, show done + (m + 1) = done + 1 + m by omega]
        exact hlater
      · rw [Pattern.lines, hlines, h.next, strideLines, strideLines, List.range'_succ, List.map_cons]

/-- A stride that the entry does not follow ends its training. -/
theorem IndexTableEntry.Streams.follow (h : e.Streams start delta done) (new : CInt) :
    (∃ e', e.follow new = (e', none) ∧ e'.trained = false) ∨
      ∃ e', e.follow new = (e', some .single) ∧ e'.Streams start delta done := by
  rw [IndexTableEntry.follow]
  by_cases hsame : new = e.stride 0
  · right
    refine ⟨_, if_pos ⟨h.numStates, hsame⟩, ?_⟩
    exact ⟨h.trained, h.numStates, h.currState, h.count, h.positive, h.stride, h.prefLastIndex⟩
  · left
    have hnot : ¬(e.numStates = 1 ∧ new = e.stride 0) := fun hboth => hsame hboth.2
    have hpos := h.positive
    have hother : ¬(new = e.stride e.currState ∧ e.count < e.sCnt e.currState ∨
        new = e.strans e.currState ∧ e.count = e.sCnt e.currState) := by
      rw [h.currState, h.count]
      rintro (⟨heq, -⟩ | ⟨-, heq⟩)
      · exact hsame heq
      · omega
    simp only [if_neg hnot, if_neg hother]
    exact ⟨_, rfl, rfl⟩

end

/-- The entry stays trained through the accesses. -/
def Streaming.StaysTrained (p : Params) (addto : Ul1Queue κ) (hwpId : Uns8) (s : Streaming)
    (accesses : List (Access κ)) : Prop :=
  ∀ before after, accesses = before ++ after → (s.run p addto hwpId before).entry.trained = true

/-- While it stays trained the queue takes the lines of the stride, one after the other. -/
theorem Streaming.streams_run {s : Streaming} {start : Addr} {delta : CInt} {done : ℕ}
    (h : s.entry.Streams start delta done) {accesses : List (Access κ)}
    (htrained : s.StaysTrained p addto hwpId accesses) :
    ∃ m, (s.run p addto hwpId accesses).accepted = s.accepted ++ strideLines start delta (done + 1) m := by
  induction accesses generalizing s done with
  | nil => exact ⟨0, (List.append_nil _).symm⟩
  | cons a accesses ih =>
      have hstep := Streaming.step_trained p addto hwpId a h.trained
      have hadvance : (s.entry.advance a.lineIndex).1.Streams start delta done :=
        ⟨h.trained, h.numStates, h.currState, h.count, h.positive, h.stride, h.prefLastIndex⟩
      have hlater : (s.step p addto hwpId a).StaysTrained p addto hwpId accesses :=
        fun before after hsplit => htrained (a :: before) after (congrArg (a :: ·) hsplit)
      have hnext : (s.step p addto hwpId a).entry.trained = true := htrained [a] accesses rfl
      rcases hadvance.follow (s.entry.advance a.lineIndex).2 with ⟨e, hfollow, hlost⟩ | ⟨e, hfollow, hstreams⟩
      · rw [hfollow] at hstep
        rw [hstep, hlost] at hnext
        cases hnext
      · rw [hfollow] at hstep
        obtain ⟨m, hm⟩ := hstep
        obtain ⟨hsent, hlines⟩ := hstreams.lines m
        rw [hm] at hlater
        obtain ⟨m', hm'⟩ := ih (s := ⟨Pattern.single.sent^[m] e, s.accepted ++ Pattern.single.lines m e⟩) hsent hlater
        refine ⟨m + m', ?_⟩
        show ((s.step p addto hwpId a).run p addto hwpId accesses).accepted = _
        rw [hm, hm', hlines, List.append_assoc, strideLines, strideLines, strideLines, ← List.map_append]
        have hrange : List.range' (done + 1) m ++ List.range' (done + m + 1) m' = List.range' (done + 1) (m + m') := by
          rw [show done + m + 1 = done + 1 + m by omega, List.range'_append_1]
        rw [hrange]

/-! ## Which stride is followed -/

/-- The access trains the entry by the count of its stride. -/
def IndexTableEntry.TrainedSingle (p : Params) (e : IndexTableEntry) (lineIndex : Addr) : Prop :=
  e.trained = false ∧ (e.observed p lineIndex).Reaches p

/-- The access trains the entry to follow the stride whose count has reached the threshold, and the
lines that the queue takes from then on are the next ones of that stride. -/
structure Streaming.FollowsCounted (p : Params) (addto : Ul1Queue κ) (hwpId : Uns8) (s : Streaming) (a : Access κ) :
    Prop where
  trained : (s.step p addto hwpId a).entry.trained = true
  stride : (s.step p addto hwpId a).entry.stride 0 =
    (s.entry.observed p a.lineIndex).stride (s.entry.observed p a.lineIndex).currState
  lines : ∀ accesses : List (Access κ), (s.step p addto hwpId a).StaysTrained p addto hwpId accesses →
    ∃ m, ((s.step p addto hwpId a).run p addto hwpId accesses).accepted =
      (s.step p addto hwpId a).accepted ++ strideLines (s.step p addto hwpId a).entry.prefLastIndex
        ((s.entry.observed p a.lineIndex).stride (s.entry.observed p a.lineIndex).currState) 1 m

/-- The strides of both states are the same, or state 0 is the present one. -/
inductive IndexTableEntry.CountsFirst (e : IndexTableEntry) : Prop where
  | first : e.currState = 0 → e.CountsFirst
  | same : e.stride 0 = e.stride 1 → e.CountsFirst

theorem followsCounted_iff {s : Streaming} (h : s.Ok p) {a : Access κ} (htrains : s.entry.TrainedSingle p a.lineIndex) :
    s.FollowsCounted p addto hwpId a ↔ s.entry.CountsFirst := by
  obtain ⟨htrained, hreach⟩ := htrains
  have hreached := (advance_untrained (h htrained) a.lineIndex).reached _ hreach
  obtain ⟨htrue, hstates, hcurr, hcount, hstride, hcnt⟩ := settle_reached hreach
  have hstep : s.step p addto hwpId a = ⟨(s.entry.observed p a.lineIndex).settle p, s.accepted⟩ :=
    Streaming.step_untrained htrained
  have hiff : (s.step p addto hwpId a).entry.stride 0 =
      (s.entry.observed p a.lineIndex).stride (s.entry.observed p a.lineIndex).currState ↔ s.entry.CountsFirst := by
    rw [hstep]
    show ((s.entry.observed p a.lineIndex).settle p).stride 0 = _ ↔ _
    unfold IndexTableEntry.observed at *
    rw [hstride, hreached.currState]
    rcases fin2_cases s.entry.currState with hzero | hone
    · exact iff_of_true (congrArg _ hzero.symm) (.first hzero)
    · have hkept : ((s.entry.advance a.lineIndex).1.observe p (s.entry.advance a.lineIndex).2).stride = s.entry.stride :=
        hreached.kept hone
      rw [hkept]
      show s.entry.stride 0 = s.entry.stride s.entry.currState ↔ _
      rw [hone]
      refine ⟨.same, fun hfirst => ?_⟩
      cases hfirst with
      | first hzero => exact absurd (hzero.symm.trans hone) (by decide)
      | same hsame => exact hsame
  refine ⟨fun hfollows => hiff.mp hfollows.stride, fun hfirst => ?_⟩
  have hsame := hiff.mpr hfirst
  refine ⟨?_, hsame, ?_⟩
  · rw [hstep]
    exact htrue
  · intro accesses hstays
    have hstreams : (s.step p addto hwpId a).entry.Streams (s.step p addto hwpId a).entry.prefLastIndex
        ((s.entry.observed p a.lineIndex).stride (s.entry.observed p a.lineIndex).currState) 0 := by
      refine ⟨?_, ?_, ?_, ?_, ?_, hsame, ?_⟩
      · rw [hstep]
        exact htrue
      · rw [hstep]
        exact hstates
      · rw [hstep]
        exact hcurr
      · rw [hstep]
        exact hcount.trans hreached.count
      · rw [hstep]
        show 1 ≤ ((s.entry.observed p a.lineIndex).settle p).sCnt 0
        rw [hcnt]
        exact hreached.positive
      · simp
    exact Streaming.streams_run hstreams hstays

/-- In every run on a region, an entry that its count trains follows the stride that was counted, and
sends its lines in order, exactly when the count was that of state 0 or both states have the stride. -/
theorem strideSingle_followsCounted_iff (p : Params) (addto : Ul1Queue κ) (hwpId : Uns8) (old : IndexTableEntry)
    (lineIndex : Addr) (accesses : List (Access κ)) :
    History.Always (fun before a =>
        ((Streaming.init old lineIndex).run p addto hwpId before).entry.TrainedSingle p a.lineIndex →
          ((Streaming.init old lineIndex).run p addto hwpId before).FollowsCounted p addto hwpId a) accesses ↔
      History.Always (fun before a =>
        ((Streaming.init old lineIndex).run p addto hwpId before).entry.TrainedSingle p a.lineIndex →
          ((Streaming.init old lineIndex).run p addto hwpId before).entry.CountsFirst) accesses := by
  have hok : ∀ before, ((Streaming.init old lineIndex).run p addto hwpId before).Ok p :=
    (Streaming.init_ok old lineIndex).run
  constructor
  · intro h before a after hsplit htrains
    exact (followsCounted_iff (hok before) htrains).mp (h before a after hsplit htrains)
  · intro h before a after hsplit htrains
    exact (followsCounted_iff (hok before) htrains).mpr (h before a after hsplit htrains)

/-- By default, six strides of 2 that come after a stride of 1 and a jump train the entry to follow 1. -/
theorem strideSingle_follows_first :
    ¬ ∀ (p : Params) (addto : Ul1Queue Unit) (hwpId : Uns8) (old : IndexTableEntry) (lineIndex : Addr)
        (accesses : List (Access Unit)),
      History.Always (fun before a =>
        ((Streaming.init old lineIndex).run p addto hwpId before).entry.TrainedSingle p a.lineIndex →
          ((Streaming.init old lineIndex).run p addto hwpId before).FollowsCounted p addto hwpId a) accesses := by
  intro h
  let visit : Addr → Access Unit := fun line => ⟨line, ()⟩
  have htrains : ((Streaming.init ((prefStrideInit 0).indexTable 0) 0).run .default (fun _ queue => (true, queue)) 0
      ([1, 6, 8, 10, 12, 14, 16].map visit)).entry.TrainedSingle .default 18 := by
    constructor <;> decide +kernel
  have hfollows := h .default (fun _ queue => (true, queue)) 0 ((prefStrideInit 0).indexTable 0) 0
    ([1, 6, 8, 10, 12, 14, 16, 18].map visit) ([1, 6, 8, 10, 12, 14, 16].map visit) (visit 18) [] rfl htrains
  exact absurd hfollows.stride (by decide +kernel)

end Scarab.Stride
