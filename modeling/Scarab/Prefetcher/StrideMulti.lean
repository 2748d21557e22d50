import Mathlib.Data.List.GetD
import Scarab.Lib.Cyclic
import Scarab.Prefetcher.StrideSingle

/-! # Two strides

The strides of a region repeat `a^n b c^m d`. The training learns the runs and the strides between them,
checks every access against them, and starts a second position for the prefetches. Both positions move
by the same rule, so that one lemma about a position keeps them on the stream. -/

namespace Scarab.Stride

variable {p : Params} {κ : Type} {addto : Ul1Queue κ} {hwpId : Uns8}

/-! ## The stream -/

/-- A run of `n` strides `a`, then `b`, a run of `m` strides `c`, then `d`. -/
structure TwoRuns where
  a : CInt
  n : ℕ
  b : CInt
  c : CInt
  m : ℕ
  d : CInt

namespace TwoRuns

def period (w : TwoRuns) : ℕ := w.n + w.m + 2

def word (w : TwoRuns) : List CInt := List.replicate w.n w.a ++ w.b :: (List.replicate w.m w.c ++ [w.d])

/-- The strides, repeated forever. -/
def delta (w : TwoRuns) (i : ℕ) : CInt := w.word.getD (i % w.word.length) 0

/-- The lines that the strides lead to. -/
def line (w : TwoRuns) (start : Addr) : ℕ → Addr
  | 0 => start
  | i + 1 => w.line start i + (w.delta i).signExtend 64

/-- Neither run is long enough to be taken for a single stride, and each ends with another stride. -/
structure Alternates (p : Params) (w : TwoRuns) : Prop where
  firstShort : w.n < p.singleThresh
  secondShort : w.m < p.singleThresh
  a_ne_zero : w.a ≠ 0
  b_ne_zero : w.b ≠ 0
  c_ne_zero : w.c ≠ 0
  d_ne_zero : w.d ≠ 0
  b_ne_a : w.b ≠ w.a
  d_ne_c : w.d ≠ w.c

/-- Both runs are there. -/
structure Proper (p : Params) (w : TwoRuns) : Prop extends Alternates p w where
  first : 1 ≤ w.n
  second : 1 ≤ w.m

variable {w : TwoRuns} {i k : ℕ}

theorem word_length (w : TwoRuns) : w.word.length = w.period := by
  simp [word, period]
  omega

theorem delta_first (h : i % w.period = k) (hk : k < w.n) : w.delta i = w.a := by
  rw [delta, word_length, h, word, List.getD_append _ _ _ _ (by simpa using hk), List.getD_replicate _ hk]

theorem delta_firstEnd (h : i % w.period = w.n) : w.delta i = w.b := by
  rw [delta, word_length, h, word, List.getD_append_right _ _ _ _ (by simp)]
  simp

theorem delta_second (h : i % w.period = w.n + 1 + k) (hk : k < w.m) : w.delta i = w.c := by
  rw [delta, word_length, h, word, List.getD_append_right _ _ _ _ (by simp; omega), List.length_replicate,
    show w.n + 1 + k - w.n = k + 1 by omega, List.getD_cons_succ,
    List.getD_append _ _ _ _ (by simpa using hk), List.getD_replicate _ hk]

theorem delta_secondEnd (h : i % w.period = w.n + 1 + w.m) : w.delta i = w.d := by
  rw [delta, word_length, h, word, List.getD_append_right _ _ _ _ (by simp; omega), List.length_replicate,
    show w.n + 1 + w.m - w.n = w.m + 1 by omega, List.getD_cons_succ,
    List.getD_append_right _ _ _ _ (by simp)]
  simp

theorem succ_mod_period (w : TwoRuns) (i : ℕ) :
    (i + 1) % w.period = if i % w.period + 1 = w.period then 0 else i % w.period + 1 := by
  rw [← Nat.mod_add_mod]
  exact Cyclic.succ_mod (Nat.mod_lt _ (by rw [period]; omega))

/-! ## A position on the stream -/

/-- The place `i` of the stream lies behind `k` strides of the run of the state. -/
inductive At (w : TwoRuns) (i : ℕ) : Fin 2 → ℕ → Prop where
  | first {k : ℕ} : k ≤ w.n → i % w.period = k → w.At i 0 k
  | second {k : ℕ} : k ≤ w.m → i % w.period = w.n + 1 + k → w.At i 1 k

/-- The strides and the runs that the entry has learnt are those of the stream. -/
structure Known (w : TwoRuns) (e : IndexTableEntry) : Prop where
  stride0 : e.stride 0 = w.a
  sCnt0 : e.sCnt 0 = w.n
  strans0 : e.strans 0 = w.b
  stride1 : e.stride 1 = w.c
  sCnt1 : e.sCnt 1 = w.m
  strans1 : e.strans 1 = w.d

theorem Known.congr {e e' : IndexTableEntry} (h : w.Known e) (hstride : e'.stride = e.stride) (hsCnt : e'.sCnt = e.sCnt)
    (hstrans : e'.strans = e.strans) : w.Known e' := by
  constructor
  · rw [hstride, h.stride0]
  · rw [hsCnt, h.sCnt0]
  · rw [hstrans, h.strans0]
  · rw [hstride, h.stride1]
  · rw [hsCnt, h.sCnt1]
  · rw [hstrans, h.strans1]

/-- What comes at a position: the stride behind a run that is over, or the stride of the run. -/
theorem At.next {e : IndexTableEntry} {s : Fin 2} (h : w.At i s k) (hknown : w.Known e) :
    (k = e.sCnt s ∧ w.delta i = e.strans s ∧ w.At (i + 1) (1 - s) 0) ∨
      (k < e.sCnt s ∧ w.delta i = e.stride s ∧ w.At (i + 1) s (k + 1)) := by
  have hsucc := w.succ_mod_period i
  have hperiod : w.period = w.n + w.m + 2 := rfl
  cases h with
  | first hk hplace =>
      rw [hknown.sCnt0, hknown.strans0, hknown.stride0]
      rcases Nat.lt_or_eq_of_le hk with hlt | heq
      · right
        rw [if_neg (by omega)] at hsucc
        exact ⟨hlt, delta_first hplace hlt, .first hlt (by omega)⟩
      · left
        rw [if_neg (by omega)] at hsucc
        exact ⟨heq, delta_firstEnd (hplace.trans heq), .second (Nat.zero_le _) (by omega)⟩
  | second hk hplace =>
      rw [hknown.sCnt1, hknown.strans1, hknown.stride1]
      rcases Nat.lt_or_eq_of_le hk with hlt | heq
      · right
        rw [if_neg (by omega)] at hsucc
        exact ⟨hlt, delta_second hplace hlt, .second hlt (by omega)⟩
      · left
        rw [if_pos (by omega)] at hsucc
        exact ⟨heq, delta_secondEnd (hplace.trans (by rw [heq])), .first (Nat.zero_le _) hsucc⟩

/-- An access to the next line shows the next stride. -/
theorem advance_line {e : IndexTableEntry} {start : Addr} (h : e.lastIndex = w.line start i) :
    e.advance (w.line start (i + 1)) = ({ e with lastIndex := w.line start (i + 1) }, w.delta i) := by
  have hstride : (w.line start (i + 1) - e.lastIndex).setWidth 32 = w.delta i := by
    rw [h, line, BitVec.add_comm, BitVec.add_sub_cancel]
    ext j hj
    rw [BitVec.getElem_setWidth, BitVec.getLsbD_signExtend, if_pos hj]
    simp [hj]
    omega
  rw [IndexTableEntry.advance, hstride]

/-! ## Learning -/

/-- The first run has come so many strides far. -/
structure LearnsFirst (w : TwoRuns) (start : Addr) (e : IndexTableEntry) (i : ℕ) : Prop where
  trained : e.trained = false
  trainCountMode : e.trainCountMode = false
  numStates : e.numStates = 1
  currState : e.currState = 0
  recnt : e.recnt = 0
  lastIndex : e.lastIndex = w.line start i
  stride0 : e.stride 0 = if i = 0 then 0 else w.a
  sCnt0 : e.sCnt 0 = i
  stride1 : e.stride 1 = 0
  sCnt1 : e.sCnt 1 = 0

/-- The first run is known, and the second has come so many strides far. -/
structure LearnsSecond (w : TwoRuns) (start : Addr) (e : IndexTableEntry) (j : ℕ) : Prop where
  trained : e.trained = false
  trainCountMode : e.trainCountMode = false
  numStates : e.numStates = 2
  currState : e.currState = 1
  recnt : e.recnt = 0
  lastIndex : e.lastIndex = w.line start (w.n + 1 + j)
  stride0 : e.stride 0 = w.a
  sCnt0 : e.sCnt 0 = w.n
  strans0 : e.strans 0 = w.b
  stride1 : e.stride 1 = if j = 0 then 0 else w.c
  sCnt1 : e.sCnt 1 = j

/-- Both runs are known, and every stride since has been as they say. -/
structure Verifies (w : TwoRuns) (start : Addr) (e : IndexTableEntry) (i : ℕ) : Prop where
  trained : e.trained = false
  trainCountMode : e.trainCountMode = true
  numStates : e.numStates = 2
  lastIndex : e.lastIndex = w.line start i
  recnt : w.period + e.recnt = i
  known : w.Known e
  place : w.At i e.currState e.count

section

variable {e : IndexTableEntry} {start : Addr} {j : ℕ}

theorem learnsFirst_renew (w : TwoRuns) (old : IndexTableEntry) (start : Addr) :
    w.LearnsFirst start (old.renew start) 0 :=
  ⟨rfl, rfl, rfl, rfl, rfl, rfl, rfl, rfl, rfl, rfl⟩

theorem mod_period (h : i ≤ w.n + w.m + 1) : i % w.period = i := Nat.mod_eq_of_lt (by rw [period]; omega)

/-- The first run goes on. -/
theorem LearnsFirst.goesOn (h : w.LearnsFirst start e i) (hi : i < w.n) (ha : w.a ≠ 0) :
    w.LearnsFirst start (e.observed p (w.line start (i + 1))) (i + 1) := by
  have hdelta : w.delta i = w.a := delta_first (mod_period (by omega)) hi
  rw [IndexTableEntry.observed, advance_line h.lastIndex, IndexTableEntry.observe]
  simp only [h.trainCountMode, h.currState, h.stride0, hdelta, Bool.false_eq_true, if_false]
  by_cases hzero : i = 0
  · subst hzero
    simp only [if_true]
    exact ⟨h.trained, rfl, h.numStates, rfl, h.recnt, rfl, by simp, by simp, h.stride1, h.sCnt1⟩
  · simp only [if_neg hzero, if_neg ha, if_true]
    refine ⟨h.trained, rfl, h.numStates, rfl, h.recnt, rfl, ?_, by simp [h.sCnt0], h.stride1,
      by simpa using h.sCnt1⟩
    simp [h.stride0, hzero]

/-- The first run is over. -/
theorem LearnsFirst.ends (h : w.LearnsFirst start e w.n) (hw : w.Proper p) (hmulti : p.singleStrideMode = false) :
    w.LearnsSecond start (e.observed p (w.line start (w.n + 1))) 0 := by
  have hdelta : w.delta w.n = w.b := delta_firstEnd (mod_period (by omega))
  have hfirst := hw.first
  have hstride0 : e.stride 0 = w.a := by rw [h.stride0, if_neg (by omega)]
  rw [IndexTableEntry.observed, advance_line h.lastIndex, IndexTableEntry.observe]
  simp only [h.trainCountMode, h.currState, hstride0, hdelta, hmulti, Bool.false_eq_true, if_false, if_neg hw.a_ne_zero,
    if_neg hw.b_ne_a.symm]
  rw [if_neg (by decide)]
  refine ⟨h.trained, rfl, ?_, rfl, h.recnt, rfl, hstride0, h.sCnt0, by simp, h.stride1, h.sCnt1⟩
  simp [h.numStates]

/-- The second run goes on. -/
theorem LearnsSecond.goesOn (h : w.LearnsSecond start e j) (hj : j < w.m) (hc : w.c ≠ 0) :
    w.LearnsSecond start (e.observed p (w.line start (w.n + 1 + j + 1))) (j + 1) := by
  have hdelta : w.delta (w.n + 1 + j) = w.c := delta_second (mod_period (by omega)) hj
  rw [IndexTableEntry.observed, advance_line h.lastIndex, IndexTableEntry.observe]
  simp only [h.trainCountMode, h.currState, h.stride1, hdelta, Bool.false_eq_true, if_false]
  by_cases hzero : j = 0
  · subst hzero
    simp only [if_true]
    exact ⟨h.trained, rfl, h.numStates, rfl, h.recnt, rfl, h.stride0, h.sCnt0, h.strans0, by simp,
      by simp⟩
  · simp only [if_neg hzero, if_neg hc, if_true]
    refine ⟨h.trained, rfl, h.numStates, rfl, h.recnt, rfl, h.stride0, by simpa using h.sCnt0,
      h.strans0, ?_, by simp [h.sCnt1]⟩
    simp [h.stride1, hzero]

/-- The second run is over, and from here on the runs are verified. -/
theorem LearnsSecond.ends (h : w.LearnsSecond start e w.m) (hw : w.Proper p) (hmulti : p.singleStrideMode = false) :
    w.Verifies start (e.observed p (w.line start (w.n + 1 + w.m + 1))) (w.n + 1 + w.m + 1) := by
  have hdelta : w.delta (w.n + 1 + w.m) = w.d := delta_secondEnd (mod_period (by omega))
  have hperiod : w.period = w.n + w.m + 2 := rfl
  have hsecond := hw.second
  have hstride1 : e.stride 1 = w.c := by rw [h.stride1, if_neg (by omega)]
  rw [IndexTableEntry.observed, advance_line h.lastIndex, IndexTableEntry.observe]
  simp only [h.trainCountMode, h.currState, hstride1, hdelta, hmulti, Bool.false_eq_true, if_false, if_neg hw.c_ne_zero,
    if_neg hw.d_ne_c.symm]
  rw [if_pos (by decide)]
  refine ⟨h.trained, rfl, ?_, rfl, ?_, ?_, ?_⟩
  · simp [h.numStates]
  · simp only
    omega
  · exact ⟨h.stride0, h.sCnt0, by simpa using h.strans0, hstride1, h.sCnt1, by simp⟩
  · refine .first (Nat.zero_le _) ?_
    rw [show w.n + 1 + w.m + 1 = w.period by omega, Nat.mod_self]

/-- Every stride of the stream is as the runs say. -/
theorem Verifies.goesOn (h : w.Verifies start e i) :
    w.Verifies start (e.observed p (w.line start (i + 1))) (i + 1) := by
  have hrecnt := h.recnt
  rw [IndexTableEntry.observed, advance_line h.lastIndex, IndexTableEntry.observe]
  simp only [h.trainCountMode, if_true]
  rcases h.place.next h.known with ⟨hcount, hdelta, hplace⟩ | ⟨hcount, hdelta, hplace⟩
  · rw [if_neg (by omega), if_pos ⟨hdelta, hcount⟩]
    refine ⟨h.trained, rfl, h.numStates, rfl, ?_, h.known.congr rfl rfl rfl, hplace⟩
    simp only
    omega
  · rw [if_pos ⟨hdelta, hcount⟩]
    refine ⟨h.trained, rfl, h.numStates, rfl, ?_, h.known.congr rfl rfl rfl, hplace⟩
    simp only
    omega

end

/-! ## Following -/

/-- The entry is trained, and its training side is at the place. -/
structure Follows (w : TwoRuns) (start : Addr) (e : IndexTableEntry) (i : ℕ) : Prop where
  trained : e.trained = true
  numStates : e.numStates = 2
  lastIndex : e.lastIndex = w.line start i
  known : w.Known e
  place : w.At i e.currState e.count

/-- The prefetch side is at the place. -/
structure Points (w : TwoRuns) (start : Addr) (e : IndexTableEntry) (q : ℕ) : Prop where
  place : w.At q e.prefCurrState e.prefCount
  prefLastIndex : e.prefLastIndex = w.line start q

section

variable {e e' : IndexTableEntry} {start : Addr} {q : ℕ}

theorem Known.keeps (h : w.Known e) (hkeeps : e.KeepsTraining e') : w.Known e' :=
  h.congr hkeeps.stride hkeeps.sCnt hkeeps.strans

theorem Follows.keeps (h : w.Follows start e i) (hkeeps : e.KeepsTraining e') : w.Follows start e' i where
  trained := hkeeps.trained.trans h.trained
  numStates := hkeeps.numStates.trans h.numStates
  lastIndex := hkeeps.lastIndex.trans h.lastIndex
  known := h.known.keeps hkeeps
  place := by
    rw [hkeeps.currState, hkeeps.count]
    exact h.place

theorem Points.move (h : w.Points start e q) (hknown : w.Known e) :
    Pattern.multi.next e = w.line start (q + 1) ∧ w.Points start (Pattern.multi.move e) (q + 1) := by
  rcases h.place.next hknown with ⟨hcount, hdelta, hplace⟩ | ⟨hcount, hdelta, hplace⟩
  · have hnext : Pattern.multi.next e = w.line start (q + 1) := by
      rw [Pattern.next, if_pos hcount, h.prefLastIndex, line, hdelta]
    rw [Pattern.move, if_pos hcount]
    exact ⟨hnext, hplace, hnext⟩
  · have hnext : Pattern.multi.next e = w.line start (q + 1) := by
      rw [Pattern.next, if_neg (by omega), h.prefLastIndex, line, hdelta]
    rw [Pattern.move, if_neg (by omega)]
    exact ⟨hnext, hplace, hnext⟩

/-- The way of the prefetch side over the start distance. -/
theorem Points.walk (h : w.Points start e q) (hknown : w.Known e) (k : ℕ) :
    w.Points start (Pattern.multi.move^[k] e) (q + k) := by
  induction k generalizing e q with
  | zero => exact h
  | succ k ih =>
      rw [Function.iterate_succ_apply, show q + (k + 1) = q + 1 + k by omega]
      exact ih (h.move hknown).2 (hknown.keeps (Pattern.multi.move_keeps e))

/-- The lines that are sent are the next ones. -/
theorem Points.send (h : w.Points start e q) (hknown : w.Known e) (k : ℕ) :
    w.Points start (Pattern.multi.sent^[k] e) (q + k) ∧
      Pattern.multi.lines k e = (List.range' (q + 1) k).map (w.line start) := by
  induction k generalizing e q with
  | zero => exact ⟨h, rfl⟩
  | succ k ih =>
      obtain ⟨hnext, hmove⟩ := h.move hknown
      have hsent : w.Points start (Pattern.multi.sent e) (q + 1) := ⟨hmove.place, hmove.prefLastIndex⟩
      obtain ⟨hlater, hlines⟩ := ih hsent (hknown.keeps (Pattern.multi.sent_keeps e))
      constructor
      · rw [Function.iterate_succ_apply, show q + (k + 1) = q + 1 + k by omega]
        exact hlater
      · rw [Pattern.lines, hlines, hnext, List.range'_succ, List.map_cons]

/-- The next stride of the stream is always followed, and leaves the prefetch side where it is. -/
theorem Follows.follow (h : w.Follows start e i) :
    ∃ e', (e.advance (w.line start (i + 1))).1.follow (e.advance (w.line start (i + 1))).2 = (e', some .multi) ∧
      w.Follows start e' (i + 1) ∧ (w.Points start e q → w.Points start e' q) := by
  have htwo : ¬ (e.numStates = 1 ∧ w.delta i = e.stride 0) := by
    rintro ⟨hone, -⟩
    rw [h.numStates] at hone
    cases hone
  have hknown := h.known
  rw [advance_line h.lastIndex, IndexTableEntry.follow]
  simp only [if_neg htwo]
  rcases h.place.next hknown with ⟨hcount, hdelta, hplace⟩ | ⟨hcount, hdelta, hplace⟩
  · rw [if_pos (.inr ⟨hdelta, hcount⟩), if_pos hcount]
    exact ⟨_, rfl, ⟨h.trained, h.numStates, rfl, hknown.congr rfl rfl rfl, hplace⟩,
      fun hpoints => ⟨hpoints.place, hpoints.prefLastIndex⟩⟩
  · rw [if_pos (.inl ⟨hdelta, hcount⟩), if_neg (by omega)]
    exact ⟨_, rfl, ⟨h.trained, h.numStates, rfl, hknown.congr rfl rfl rfl, hplace⟩,
      fun hpoints => ⟨hpoints.place, hpoints.prefLastIndex⟩⟩

end

/-! ## When the training is over -/

/-- An entry that neither count makes sure of stays as it is. -/
theorem settle_waits {o : IndexTableEntry} (hsingle : o.sCnt o.currState < p.singleThresh)
    (hmulti : o.recnt < p.multiThresh) : o.settle p = o := by
  rw [IndexTableEntry.settle]
  simp only [if_neg (Nat.not_le.mpr hsingle), if_neg (Nat.not_le.mpr hmulti)]

theorem Known.short {e : IndexTableEntry} (h : w.Known e) (hw : w.Proper p) : e.sCnt e.currState < p.singleThresh := by
  rcases fin2_cases e.currState with hzero | hone
  · rw [hzero, h.sCnt0]
    exact hw.firstShort
  · rw [hone, h.sCnt1]
    exact hw.secondShort

/-- Enough strides are verified: both sides start from the present place, and the prefetch side goes
ahead by the start distance. -/
theorem Verifies.settle {o : IndexTableEntry} {start : Addr} (h : w.Verifies start o i) (hw : w.Proper p)
    (hreached : p.multiThresh ≤ o.recnt) :
    w.Follows start (o.settle p) i ∧ w.Points start (o.settle p) (i + p.startDistance.toNat) := by
  have hknown := h.known
  rw [IndexTableEntry.settle]
  simp only [if_neg (Nat.not_le.mpr (hknown.short hw)), if_pos hreached]
  have hbegin : w.Follows start
      { o with trained := true, prefCount := o.count, prefCurrState := o.currState, prefLastIndex := o.lastIndex } i :=
    ⟨rfl, h.numStates, h.lastIndex, hknown.congr rfl rfl rfl, h.place⟩
  constructor
  · exact hbegin.keeps (.iterate (Pattern.move_keeps .multi) _ _)
  · exact Points.walk ⟨h.place, h.lastIndex⟩ hbegin.known _

/-! ## The run -/

/-- The accesses to the stream behind the one that made the entry, each with the queue it finds. -/
def visits (w : TwoRuns) (start : Addr) (queues : List κ) : List (Access κ) :=
  queues.mapIdx fun i queue => ⟨w.line start (i + 1), queue⟩

/-- The accesses that it takes to be sure of the runs: each once, and those that are verified. -/
def trainedAt (w : TwoRuns) (p : Params) : ℕ := w.period + p.multiThresh

/-- How far an entry is behind so many strides of the stream, and the lines that were sent for it. -/
inductive Stage (w : TwoRuns) (p : Params) (start : Addr) (s : Streaming) (i : ℕ) : Prop where
  | first : i ≤ w.n → w.LearnsFirst start s.entry i → s.accepted = [] → w.Stage p start s i
  | second {j : ℕ} : i = w.n + 1 + j → j ≤ w.m → w.LearnsSecond start s.entry j → s.accepted = [] → w.Stage p start s i
  | verifies : i < w.trainedAt p → w.Verifies start s.entry i → s.accepted = [] → w.Stage p start s i
  | follows {k : ℕ} : w.trainedAt p ≤ i → w.Follows start s.entry i →
      w.Points start s.entry (w.trainedAt p + p.startDistance.toNat + k) →
      s.accepted = (List.range' (w.trainedAt p + p.startDistance.toNat + 1) k).map (w.line start) → w.Stage p start s i

section

variable {w : TwoRuns} {start : Addr} {s : Streaming} {i : ℕ}

theorem step_observed {lineIndex : Addr} {queue : κ} (h : s.entry.trained = false) :
    s.step p addto hwpId ⟨lineIndex, queue⟩ = ⟨(s.entry.observed p lineIndex).settle p, s.accepted⟩ :=
  Streaming.step_untrained h

/-- An access behind which the entry still waits. -/
theorem step_waits {lineIndex : Addr} {queue : κ} (h : s.entry.trained = false)
    (hsingle : (s.entry.observed p lineIndex).sCnt (s.entry.observed p lineIndex).currState < p.singleThresh)
    (hmulti : (s.entry.observed p lineIndex).recnt < p.multiThresh) :
    s.step p addto hwpId ⟨lineIndex, queue⟩ = ⟨s.entry.observed p lineIndex, s.accepted⟩ := by
  rw [step_observed h, settle_waits hsingle hmulti]

theorem LearnsFirst.step (h : w.LearnsFirst start s.entry i) (hi : i ≤ w.n) (haccepted : s.accepted = [])
    (hw : w.Proper p) (hmulti : p.singleStrideMode = false) (hthresh : 1 ≤ p.multiThresh) (queue : κ) :
    w.Stage p start (s.step p addto hwpId ⟨w.line start (i + 1), queue⟩) (i + 1) := by
  have hshort := hw.firstShort
  rcases Nat.lt_or_eq_of_le hi with hlt | heq
  · have hnext := h.goesOn (p := p) hlt hw.a_ne_zero
    have hsingle : (s.entry.observed p (w.line start (i + 1))).sCnt
        (s.entry.observed p (w.line start (i + 1))).currState < p.singleThresh := by
      rw [hnext.currState, hnext.sCnt0]
      omega
    rw [step_waits h.trained hsingle (by rw [hnext.recnt]; exact hthresh)]
    exact .first hlt hnext haccepted
  · subst heq
    have hnext := h.ends hw hmulti
    have hsingle : (s.entry.observed p (w.line start (w.n + 1))).sCnt
        (s.entry.observed p (w.line start (w.n + 1))).currState < p.singleThresh := by
      rw [hnext.currState, hnext.sCnt1]
      omega
    rw [step_waits h.trained hsingle (by rw [hnext.recnt]; exact hthresh)]
    exact .second rfl (Nat.zero_le _) hnext haccepted

theorem LearnsSecond.step {j : ℕ} (h : w.LearnsSecond start s.entry j) (hj : j ≤ w.m) (haccepted : s.accepted = [])
    (hw : w.Proper p) (hmulti : p.singleStrideMode = false) (hthresh : 1 ≤ p.multiThresh) (queue : κ) :
    w.Stage p start (s.step p addto hwpId ⟨w.line start (w.n + 1 + j + 1), queue⟩) (w.n + 1 + j + 1) := by
  have hshort := hw.secondShort
  have hperiod : w.period = w.n + w.m + 2 := rfl
  have htrainedAt : w.trainedAt p = w.period + p.multiThresh := rfl
  rcases Nat.lt_or_eq_of_le hj with hlt | heq
  · have hnext := h.goesOn (p := p) hlt hw.c_ne_zero
    have hsingle : (s.entry.observed p (w.line start (w.n + 1 + j + 1))).sCnt
        (s.entry.observed p (w.line start (w.n + 1 + j + 1))).currState < p.singleThresh := by
      rw [hnext.currState, hnext.sCnt1]
      omega
    rw [step_waits h.trained hsingle (by rw [hnext.recnt]; exact hthresh)]
    exact .second rfl hlt hnext haccepted
  · subst heq
    have hnext := h.ends hw hmulti
    have hrecnt : (s.entry.observed p (w.line start (w.n + 1 + w.m + 1))).recnt < p.multiThresh := by
      have hsum := hnext.recnt
      omega
    rw [step_waits h.trained (hnext.known.short hw) hrecnt]
    exact .verifies (by omega) hnext haccepted

theorem Verifies.step (h : w.Verifies start s.entry i) (hi : i < w.trainedAt p) (haccepted : s.accepted = [])
    (hw : w.Proper p) (queue : κ) :
    w.Stage p start (s.step p addto hwpId ⟨w.line start (i + 1), queue⟩) (i + 1) := by
  have htrainedAt : w.trainedAt p = w.period + p.multiThresh := rfl
  have hnext := h.goesOn (p := p)
  have hrecnt := hnext.recnt
  by_cases hwaits : i + 1 < w.trainedAt p
  · have hbelow : (s.entry.observed p (w.line start (i + 1))).recnt < p.multiThresh := by omega
    rw [step_waits h.trained (hnext.known.short hw) hbelow]
    exact .verifies hwaits hnext haccepted
  · have hnow : i + 1 = w.trainedAt p := by omega
    have hreached : p.multiThresh ≤ (s.entry.observed p (w.line start (i + 1))).recnt := by omega
    obtain ⟨hfollows, hpoints⟩ := hnext.settle hw hreached
    rw [step_observed h.trained]
    refine .follows (k := 0) (Nat.le_of_eq hnow.symm) hfollows ?_ haccepted
    rw [← hnow]
    exact hpoints

theorem Follows.step {k : ℕ} (h : w.Follows start s.entry i) (hi : w.trainedAt p ≤ i)
    (hpoints : w.Points start s.entry (w.trainedAt p + p.startDistance.toNat + k))
    (haccepted : s.accepted =
      (List.range' (w.trainedAt p + p.startDistance.toNat + 1) k).map (w.line start)) (queue : κ) :
    w.Stage p start (s.step p addto hwpId ⟨w.line start (i + 1), queue⟩) (i + 1) := by
  obtain ⟨e, hfollow, hnext, hkept⟩ := h.follow (q := w.trainedAt p + p.startDistance.toNat + k)
  have hstep := Streaming.step_trained p addto hwpId (⟨w.line start (i + 1), queue⟩ : Access κ) h.trained
  rw [hfollow] at hstep
  obtain ⟨sent, hsent⟩ := hstep
  obtain ⟨hahead, hlines⟩ := (hkept hpoints).send hnext.known sent
  rw [hsent]
  refine .follows (k := k + sent) (by omega) (hnext.keeps (.iterate (Pattern.sent_keeps .multi) _ _)) ?_ ?_
  · rw [← Nat.add_assoc]
    exact hahead
  · rw [haccepted, hlines, ← List.range'_append_1, List.map_append, Nat.add_right_comm _ 1 k]

/-- The next access of the stream keeps the entry in step with it, whatever the queue takes. -/
theorem Stage.step (h : w.Stage p start s i) (hw : w.Proper p) (hmulti : p.singleStrideMode = false)
    (hthresh : 1 ≤ p.multiThresh) (queue : κ) :
    w.Stage p start (s.step p addto hwpId ⟨w.line start (i + 1), queue⟩) (i + 1) := by
  cases h with
  | first hi hlearns haccepted => exact hlearns.step hi haccepted hw hmulti hthresh queue
  | second hi hj hlearns haccepted =>
      subst hi
      exact hlearns.step hj haccepted hw hmulti hthresh queue
  | verifies hi hverifies haccepted => exact hverifies.step hi haccepted hw queue
  | follows hi hfollows hpoints haccepted => exact hfollows.step hi hpoints haccepted queue

/-- Every run over the stream keeps the entry in step with it. -/
theorem run_stage (hw : w.Proper p) (hmulti : p.singleStrideMode = false) (hthresh : 1 ≤ p.multiThresh)
    (old : IndexTableEntry) (queues : List κ) :
    w.Stage p start ((Streaming.init old start).run p addto hwpId (w.visits start queues)) queues.length := by
  induction queues using List.reverseRecOn with
  | nil => exact .first (Nat.zero_le _) (w.learnsFirst_renew old start) rfl
  | append_singleton queues queue ih =>
      have hvisits : w.visits start (queues ++ [queue]) =
          w.visits start queues ++ [⟨w.line start (queues.length + 1), queue⟩] := by
        rw [visits, visits, List.mapIdx_concat]
      rw [hvisits, Streaming.run_concat, List.length_append, List.length_singleton]
      exact ih.step hw hmulti hthresh queue

end

/-- A stream that comes back to its start after one period goes through the same lines ever after. -/
theorem line_mod_period (hclosed : w.line start w.period = start) (i : ℕ) :
    w.line start i = w.line start (i % w.period) := by
  have hround : ∀ i, w.line start (i + w.period) = w.line start i := by
    intro i
    induction i with
    | zero => rw [Nat.zero_add, hclosed, line]
    | succ i ih =>
        have hdelta : w.delta (i + w.period) = w.delta i := by
          rw [delta, delta, word_length, Nat.add_mod_right]
        rw [Nat.add_right_comm, line, ih, hdelta, line]
  induction i using Nat.strongRecOn with
  | ind i ih =>
      by_cases hi : i < w.period
      · rw [Nat.mod_eq_of_lt hi]
      · have hpos : 0 < w.period := by rw [period]; omega
        calc
          w.line start i = w.line start (i - w.period + w.period) := by rw [Nat.sub_add_cancel (Nat.le_of_not_lt hi)]
          _ = w.line start (i - w.period) := hround _
          _ = w.line start ((i - w.period) % w.period) := ih _ (by omega)
          _ = w.line start (i % w.period) := by rw [← Nat.mod_eq_sub_mod (Nat.le_of_not_lt hi)]

/-- The accesses of a region repeat `a^n b c^m d` with runs that are not empty. The entry is trained once
every stride is seen and `PREF_STRIDE_MULTI_THRESH` more are verified, and stays so. The lines that are
accepted are those of the stream behind the start distance, one after the other, whatever the queue refuses. -/
theorem strideMulti_accepted (p : Params) (addto : Ul1Queue κ) (hwpId : Uns8) (old : IndexTableEntry) (start : Addr)
    (w : TwoRuns) (hw : w.Proper p) (hmulti : p.singleStrideMode = false) (hthresh : 1 ≤ p.multiThresh)
    (queues : List κ) :
    (((Streaming.init old start).run p addto hwpId (w.visits start queues)).entry.trained = true ↔
        w.trainedAt p ≤ queues.length) ∧
      ∃ k, ((Streaming.init old start).run p addto hwpId (w.visits start queues)).accepted =
        (List.range' (w.trainedAt p + p.startDistance.toNat + 1) k).map (w.line start) := by
  have hperiod : w.period = w.n + w.m + 2 := rfl
  have htrainedAt : w.trainedAt p = w.period + p.multiThresh := rfl
  have hstage : w.Stage p start ((Streaming.init old start).run p addto hwpId (w.visits start queues)) queues.length :=
    run_stage hw hmulti hthresh old queues
  cases hstage with
  | first hi hlearns haccepted =>
      rw [hlearns.trained]
      exact ⟨iff_of_false Bool.false_ne_true (by omega), 0, haccepted⟩
  | second hi hj hlearns haccepted =>
      rw [hlearns.trained]
      exact ⟨iff_of_false Bool.false_ne_true (by omega), 0, haccepted⟩
  | verifies hi hverifies haccepted =>
      rw [hverifies.trained]
      exact ⟨iff_of_false Bool.false_ne_true (by omega), 0, haccepted⟩
  | follows hi hfollows hpoints haccepted => exact ⟨iff_of_true hfollows.trained hi, _, haccepted⟩

/-- Two strides of 1 and one of 2, in turns: trained behind 12 accesses, by default, and the queue is full
at every other one. -/
theorem strideMulti_accepted_full :
    ((Streaming.init ((prefStrideInit 0).indexTable 0) 0).run .default (fun _ free => (free, free)) 0
        ((TwoRuns.mk 1 2 2 1 2 2).visits 0 (List.replicate 12 true ++ [true, false, true]))).accepted =
      [18, 20, 21, 22, 24, 25, 26, 28] ∧
      ∃ k, ((Streaming.init ((prefStrideInit 0).indexTable 0) 0).run .default (fun _ free => (free, free)) 0
          ((TwoRuns.mk 1 2 2 1 2 2).visits 0 (List.replicate 12 true ++ [true, false, true]))).accepted =
        (List.range' 14 k).map ((TwoRuns.mk 1 2 2 1 2 2).line 0) := by
  refine ⟨by decide +kernel, ?_⟩
  refine (strideMulti_accepted .default _ 0 _ 0 (TwoRuns.mk 1 2 2 1 2 2) ?_ rfl (by decide) _).2
  constructor
  · constructor <;> decide
  · decide
  · decide

/-- Lines that are lines of the stream. -/
def OnStream (w : TwoRuns) (start : Addr) (lines : List Addr) : Prop := ∀ line ∈ lines, ∃ i, line = w.line start i

/-- A run may not be empty, and a threshold of 0 trains the entry before it has seen the runs: in both cases a
line is sent that the stream never comes to. -/
theorem strideMulti_leaves_stream :
    (¬ ∀ (p : Params) (addto : Ul1Queue Bool) (hwpId : Uns8) (old : IndexTableEntry) (start : Addr) (w : TwoRuns),
        w.Alternates p → p.singleStrideMode = false → 1 ≤ p.multiThresh → ∀ queues : List Bool,
          w.OnStream start ((Streaming.init old start).run p addto hwpId (w.visits start queues)).accepted) ∧
      ¬ ∀ (p : Params) (addto : Ul1Queue Bool) (hwpId : Uns8) (old : IndexTableEntry) (start : Addr) (w : TwoRuns),
        w.Proper p → p.singleStrideMode = false → ∀ queues : List Bool,
          w.OnStream start ((Streaming.init old start).run p addto hwpId (w.visits start queues)).accepted := by
  constructor
  · intro h
    let w : TwoRuns := ⟨1, 4, -2, 1, 0, -2⟩
    have hon := h { Params.default with multiThresh := 2 } (fun _ free => (free, free)) 0
      ((prefStrideInit 0).indexTable 0) 0 w (by constructor <;> decide) rfl (by decide) (List.replicate 10 true)
    obtain ⟨i, hi⟩ := hon 5 (by decide +kernel)
    rw [line_mod_period (by decide +kernel)] at hi
    have hnever : ∀ r < 6, 5 ≠ w.line 0 r := by decide +kernel
    exact hnever _ (Nat.mod_lt _ (by decide)) hi
  · intro h
    let w : TwoRuns := ⟨1, 2, -1, 1, 1, -2⟩
    have hon := h { Params.default with multiThresh := 0 } (fun _ free => (free, free)) 0
      ((prefStrideInit 0).indexTable 0) 0 w ⟨by constructor <;> decide, by decide, by decide⟩ rfl (List.replicate 2 true)
    obtain ⟨i, hi⟩ := hon 3 (by decide +kernel)
    rw [line_mod_period (by decide +kernel)] at hi
    have hnever : ∀ r < 5, 3 ≠ w.line 0 r := by decide +kernel
    exact hnever _ (Nat.mod_lt _ (by decide)) hi

end TwoRuns

end Scarab.Stride
