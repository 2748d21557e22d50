import Mathlib.Data.List.Induction
import Scarab.Prefetcher.StreamWindow

/-! # Streams from their training on

From its training on a stream asks for the lines behind its end, one after the other. Its pointers
stay in order and within the distance, as long as their difference fits into the `int` that holds it. -/

namespace Scarab.Stream

open Phase (logged)

variable {p : Params} {κ : Type} {addto : Ul1Queue κ} {st : StreamBuffer} {w : ℕ} {t : Training} {most sent : ℕ}
  {maxdistance : Uns}

/-! ## Runs -/

/-- The buffer that a call has to do with. -/
def PrefStream.hitIndex (p : Params) (s : PrefStream) (c : Call κ) : Option ℕ :=
  if s.filtered p (c.lineAddr >>> p.log2Line.val) then none else (s.findBuffer p c).2

/-- The prefetcher, and the lines that the queue took from one of its streams. -/
structure Tracked where
  prefetcher : PrefStream
  accepted : List Addr

def Tracked.step (p : Params) (addto : Ul1Queue κ) (i : ℕ) (t : Tracked) (c : Call κ) : Tracked where
  prefetcher := (prefStreamTrain p (logged addto) t.prefetcher c (c.queue, [])).1
  accepted := t.accepted ++
    if t.prefetcher.hitIndex p c = some i then (prefStreamTrain p (logged addto) t.prefetcher c (c.queue, [])).2.2 else []

def Tracked.run (p : Params) (addto : Ul1Queue κ) (i : ℕ) (t : Tracked) (calls : List (Call κ)) : Tracked :=
  calls.foldl (Tracked.step p addto i) t

theorem Tracked.run_concat (i : ℕ) (tr : Tracked) (calls : List (Call κ)) (c : Call κ) :
    tr.run p addto i (calls ++ [c]) = (tr.run p addto i calls).step p addto i c := by
  simp [run, List.foldl_append]

/-- The stream is neither replaced nor invalidated before the last of the calls. -/
def Tracked.Stays (p : Params) (addto : Ul1Queue κ) (i : ℕ) (tr : Tracked) (calls : List (Call κ)) : Prop :=
  ∀ before c after, calls = before ++ c :: after → ((tr.run p addto i before).prefetcher.stream i).Alive

/-- What a call makes of a stream that has come so far. -/
theorem Tracked.step_follows (addto : Ul1Queue κ) (hfilter : p.hfilterOn = false) (hmost : most ≤ 2 ^ 34)
    (hmoves : Moves t.dir maxdistance (most + 1)) {i : ℕ} {tr : Tracked} (c : Call κ)
    (hdistance : (if p.accPerStream then t.length else c.distance) = maxdistance)
    (halive : (tr.prefetcher.stream i).Alive) (h : (tr.prefetcher.stream i).Follows t most sent) :
    ∃ m, (tr.step p addto i c).accepted = tr.accepted ++ t.lines (sent + 1) m ∧
      (((tr.step p addto i c).prefetcher.stream i).Alive →
        ((tr.step p addto i c).prefetcher.stream i).Follows t most (sent + m)) := by
  rw [step, prefStreamTrain, PrefStream.hitIndex]
  by_cases hfiltered : tr.prefetcher.filtered p (c.lineAddr >>> p.log2Line.val) = true
  · simp only [hfiltered, if_true]
    exact ⟨0, rfl, fun _ => h⟩
  · simp only [hfiltered, Bool.false_eq_true, if_false]
    obtain ⟨hkept, hcases⟩ := findBuffer_cases p tr.prefetcher c halive
    cases hfound : tr.prefetcher.findBuffer p c with
    | mk s hit =>
        rw [hfound] at hkept hcases
        rcases hcases with ⟨hhit, hcovers, trainHit, hstream⟩ | ⟨hhit, huntrained⟩ | ⟨hhit, hstream⟩
        · obtain rfl : hit = some i := hhit
          have hstart : (s.stream i).Follows t most sent := by
            rw [hstream]
            exact ⟨h.trained, h.dir, h.length, h.ep, h.spans⟩
          have hdistance' : s.maxdistance p (s.stream i) = maxdistance := by
            rw [PrefStream.maxdistance, hstart.length, hkept, hdistance]
          have hnear : (s.stream i).Near (c.lineAddr >>> p.log2Line.val) 0 := by
            rw [hstream]
            exact StreamBuffer.near_of_covers hcovers
          obtain ⟨m, hlog, hfollows⟩ := burst_follows addto hfilter hmost hmoves c i c.queue hdistance' hstart hnear
          exact ⟨m, by simp only [if_true]; rw [hlog], fun _ => hfollows⟩
        · obtain rfl : hit = some i := hhit
          obtain ⟨hlog, hstream⟩ := burst_untrained p (logged addto) s c huntrained (c.queue, [])
          refine ⟨0, ?_, ?_⟩
          · simp only [if_true]
            rw [hlog]
            rfl
          · intro hstill
            simp only [hstream] at hstill
            rw [hstill.2] at huntrained
            cases huntrained
        · refine ⟨0, ?_, ?_⟩
          · rw [if_neg hhit]
            rfl
          · intro _
            have hstart : (s.stream i).Follows t most sent := by
              rw [hstream]
              exact h
            cases hit with
            | none => exact hstart
            | some j =>
                have hij : i ≠ j := fun heq => hhit (heq ▸ rfl)
                obtain ⟨valid, hvalid⟩ := burst_other p (logged addto) s c hij (c.queue, [])
                simp only [hvalid]
                exact ⟨hstart.trained, hstart.dir, hstart.length, hstart.ep, hstart.spans⟩

/-! ## Training -/

/-- The call trains the stream. -/
structure PrefStream.Trains (p : Params) (s : PrefStream) (c : Call κ) (i : ℕ) : Prop where
  filtered : s.filtered p (c.lineAddr >>> p.log2Line.val) = false
  hit : (s.findBuffer p c).2 = some i
  before : (s.stream i).trained = false
  after : ((s.findBuffer p c).1.stream i).trained = true

/-- A buffer that has had enough hits is trained. -/
theorem StreamBuffer.train_eq {trainNum : Uns} {procId : Uns8} {lineIndex : Addr} (hbefore : st.trained = false)
    (hafter : (st.train p trainNum procId lineIndex).trained = true)
    (hvalid : (st.train p trainNum procId lineIndex).valid = true) :
    procIdOfLine p (st.train p trainNum procId lineIndex).ep = procId.setWidth 64 ∧
      (st.train p trainNum procId lineIndex).sp = st.sp ∧
      ((st.train p trainNum procId lineIndex).dir = -1 ∧ lineIndex < st.sp ∧
          (st.train p trainNum procId lineIndex).ep = lineIndex - p.streamStartDis.setWidth 64 ∨
        (st.train p trainNum procId lineIndex).dir = 1 ∧ st.sp ≤ lineIndex ∧
          (st.train p trainNum procId lineIndex).ep = lineIndex + p.streamStartDis.setWidth 64) := by
  rw [train] at hafter hvalid ⊢
  by_cases henough : trainNum < st.trainHit + 1
  · simp only [if_pos henough] at hafter hvalid ⊢
    by_cases hdown : lineIndex < st.sp
    · have hnot : ¬ (0 : ℤ) < -1 := by decide
      simp only [if_pos hdown, if_neg hnot] at hafter hvalid ⊢
      by_cases hproc : procIdOfLine p (lineIndex - p.streamStartDis.setWidth 64) ≠ procId.setWidth 64
      · simp only [if_pos hproc] at hvalid
        cases hvalid
      · simp only [if_neg hproc]
        exact ⟨not_not.mp hproc, trivial, .inl ⟨trivial, hdown, trivial⟩⟩
    · have hup : (0 : ℤ) < 1 := by decide
      simp only [if_neg hdown, if_pos hup] at hafter hvalid ⊢
      by_cases hproc : procIdOfLine p (lineIndex + p.streamStartDis.setWidth 64) ≠ procId.setWidth 64
      · simp only [if_pos hproc] at hvalid
        cases hvalid
      · simp only [if_neg hproc]
        refine ⟨not_not.mp hproc, trivial, .inr ⟨trivial, ?_, trivial⟩⟩
        rw [BitVec.lt_def] at hdown
        rw [BitVec.le_def]
        omega
  · simp only [if_neg henough] at hafter
    rw [hbefore] at hafter
    cases hafter

/-- Where the training finds a buffer. -/
theorem PrefStream.Trains.eq {s : PrefStream} {c : Call κ} {i : ℕ} (h : s.Trains p c i) :
    (s.findBuffer p c).1.stream i = (s.stream i).train p s.trainNum c.procId (c.lineAddr >>> p.log2Line.val) ∧
      (s.findBuffer p c).1.distance = c.distance ∧ ((s.findBuffer p c).1.stream i).valid = true ∧
      (s.stream i).sp ≤ c.lineAddr >>> p.log2Line.val + p.streamTrainLength.setWidth 64 ∧
      c.lineAddr >>> p.log2Line.val - p.streamTrainLength.setWidth 64 ≤ (s.stream i).sp := by
  obtain ⟨-, hhit, hbefore, hafter⟩ := h
  rw [findBuffer, prefStreamTrainCreateStreamBuffer] at hhit hafter ⊢
  cases htrained : PrefStream.findTrained p { s with distance := c.distance, numTosend := c.numTosend }
      (c.lineAddr >>> p.log2Line.val) 0 with
  | some ii =>
      simp only [htrained, if_true] at hhit
      obtain rfl : ii = i := Option.some.inj hhit
      have hfound := List.find?_some htrained
      simp [hbefore] at hfound
  | none =>
      simp only [htrained, Bool.true_or, if_true] at hhit hafter ⊢
      cases htraining : PrefStream.findTraining p { s with distance := c.distance, numTosend := c.numTosend }
          (c.lineAddr >>> p.log2Line.val) with
      | some ii =>
          simp only [htraining] at hhit hafter ⊢
          have hvalid : ((s.stream ii).train p s.trainNum c.procId (c.lineAddr >>> p.log2Line.val)).valid = true := by
            split at hhit
            case isTrue hvalid => exact hvalid
            case isFalse hvalid => cases hhit
          rw [if_pos hvalid] at hhit
          obtain rfl : ii = i := Option.some.inj hhit
          have hfound := List.find?_some htraining
          simp only [Bool.and_eq_true, decide_eq_true_eq] at hfound
          exact ⟨Function.update_self .., trivial, by rw [Function.update_self]; exact hvalid, hfound.1.2, hfound.2⟩
      | none =>
          simp only [htraining] at hhit hafter
          by_cases hcreate : c.create = true
          · rw [if_pos hcreate] at hhit hafter
            obtain rfl := Option.some.inj hhit
            simp [StreamBuffer.create] at hafter
          · rw [if_neg hcreate] at hhit
            cases hhit

theorem procIdOfLine_toNat (p : Params) (lineIndex : Addr) :
    (procIdOfLine p lineIndex).toNat = lineIndex.toNat * 2 ^ p.log2Line.val % 2 ^ 64 / 2 ^ 58 := by
  rw [procIdOfLine, BitVec.toNat_ushiftRight, BitVec.toNat_shiftLeft, Nat.shiftLeft_eq, Nat.shiftRight_eq_div_pow]

/-- An end above the line does not wrap round into the space of the core. -/
theorem up_no_wrap (c : Call κ) {dis : Uns}
    (hproc : procIdOfLine p (c.lineAddr >>> p.log2Line.val + dis.setWidth 64) = c.procId.setWidth 64) :
    (c.lineAddr >>> p.log2Line.val + dis.setWidth 64).toNat = (c.lineAddr >>> p.log2Line.val).toNat + dis.toNat := by
  obtain ⟨hown, hfew⟩ := c.proc
  have hdis := dis.isLt
  have haddr := c.lineAddr.isLt
  have hsum : (c.lineAddr >>> p.log2Line.val + dis.setWidth 64).toNat =
      ((c.lineAddr >>> p.log2Line.val).toNat + dis.toNat) % 2 ^ 64 := by
    rw [BitVec.toNat_add, BitVec.toNat_setWidth, Nat.mod_eq_of_lt (show dis.toNat < 2 ^ 64 by omega)]
  have hline : (c.lineAddr >>> p.log2Line.val).toNat = c.lineAddr.toNat / 2 ^ p.log2Line.val := by
    rw [BitVec.toNat_ushiftRight, Nat.shiftRight_eq_div_pow]
  rw [hsum]
  refine Nat.mod_eq_of_lt (Classical.byContradiction fun hwrap => ?_)
  -- only with lines of a byte is there a line so high
  have hone : p.log2Line.val = 0 := by
    refine Classical.byContradiction fun hpos => ?_
    have htwo : 2 ^ 1 ≤ 2 ^ p.log2Line.val := Nat.pow_le_pow_right (by decide) (by omega)
    have hhalf : c.lineAddr.toNat / 2 ^ p.log2Line.val ≤ c.lineAddr.toNat / 2 ^ 1 :=
      Nat.div_le_div_left htwo (by decide)
    omega
  have hproc' := congrArg BitVec.toNat hproc
  rw [procIdOfLine_toNat, BitVec.toNat_setWidth, Nat.mod_eq_of_lt (show c.procId.toNat < 2 ^ 64 by omega), hsum, hone]
    at hproc'
  rw [hone] at hline
  simp only [Nat.pow_zero, Nat.div_one, Nat.mul_one] at hline hproc'
  have hsame : (c.lineAddr >>> p.log2Line.val).toNat = c.lineAddr.toNat := by
    rw [hone]
    exact hline
  omega

/-- Nor does an end below it. -/
theorem down_no_wrap (c : Call κ) {dis : Uns}
    (hproc : procIdOfLine p (c.lineAddr >>> p.log2Line.val - dis.setWidth 64) = c.procId.setWidth 64) :
    (c.lineAddr >>> p.log2Line.val - dis.setWidth 64).toNat + dis.toNat = (c.lineAddr >>> p.log2Line.val).toNat := by
  obtain ⟨hown, hfew⟩ := c.proc
  have hdis := dis.isLt
  have haddr := c.lineAddr.isLt
  have hsub : (c.lineAddr >>> p.log2Line.val - dis.setWidth 64).toNat =
      (2 ^ 64 - dis.toNat + (c.lineAddr >>> p.log2Line.val).toNat) % 2 ^ 64 := by
    rw [BitVec.toNat_sub, BitVec.toNat_setWidth, Nat.mod_eq_of_lt (show dis.toNat < 2 ^ 64 by omega)]
  have hline : (c.lineAddr >>> p.log2Line.val).toNat = c.lineAddr.toNat / 2 ^ p.log2Line.val := by
    rw [BitVec.toNat_ushiftRight, Nat.shiftRight_eq_div_pow]
  refine Classical.byContradiction fun hwrap => ?_
  generalize hindex : (c.lineAddr >>> p.log2Line.val).toNat = lineIndex at hsub hline hwrap
  have hlow : lineIndex < dis.toNat := by omega
  have hend : (c.lineAddr >>> p.log2Line.val - dis.setWidth 64).toNat = 2 ^ 64 - (dis.toNat - lineIndex) := by
    rw [hsub]
    omega
  have hproc' := congrArg BitVec.toNat hproc
  rw [procIdOfLine_toNat, BitVec.toNat_setWidth, Nat.mod_eq_of_lt (show c.procId.toNat < 2 ^ 64 by omega), hend] at hproc'
  -- the line is one of the lower half of the address space, the end is in the upper one
  have hpow : 2 ^ p.log2Line.val ≤ 2 ^ 31 := Nat.pow_le_pow_right (by decide) (by omega)
  have hpos : 1 ≤ 2 ^ p.log2Line.val := Nat.one_le_two_pow
  generalize 2 ^ p.log2Line.val = size at hline hproc' hpow hpos
  have hbelow : c.lineAddr.toNat < 2 ^ 63 := by
    have hdiv := Nat.lt_mul_div_succ c.lineAddr.toNat (show 0 < size by omega)
    rw [← hline] at hdiv
    have hmul : size * (lineIndex + 1) ≤ 2 ^ 31 * 2 ^ 32 := Nat.mul_le_mul hpow (by omega)
    omega
  have hgap : (dis.toNat - lineIndex) * size ≤ 2 ^ 32 * 2 ^ 31 := Nat.mul_le_mul (by omega) hpow
  have hgap' : 1 ≤ (dis.toNat - lineIndex) * size := Nat.mul_pos (by omega) (by omega)
  have hproduct : (2 ^ 64 - (dis.toNat - lineIndex)) * size % 2 ^ 64 = 2 ^ 64 - (dis.toNat - lineIndex) * size := by
    have hexpand : (2 ^ 64 - (dis.toNat - lineIndex)) * size =
        (2 ^ 64 - (dis.toNat - lineIndex) * size) + 2 ^ 64 * (size - 1) := by
      rw [Nat.sub_mul, Nat.mul_sub, Nat.mul_one]
      have hbig : 2 ^ 64 * 1 ≤ 2 ^ 64 * size := Nat.mul_le_mul_left _ hpos
      omega
    rw [hexpand, Nat.add_mul_mod_self_left, Nat.mod_eq_of_lt (by omega)]
  rw [hproduct] at hproc'
  omega

/-- A stream starts in order, near the line that trained it, with a window that the training allows. -/
theorem PrefStream.Trains.spans {s : PrefStream} {c : Call κ} {i : ℕ} (h : s.Trains p c i) :
    ∃ w ≤ 2 ^ 33, ((s.findBuffer p c).1.stream i).Spans w ∧
      ((s.findBuffer p c).1.stream i).Near (c.lineAddr >>> p.log2Line.val) 0 := by
  obtain ⟨heq, -, hvalid, hhigh, hlow⟩ := h.eq
  have hafter := h.after
  rw [heq] at hafter hvalid ⊢
  obtain ⟨hproc, hsp, hcases⟩ := StreamBuffer.train_eq h.before hafter hvalid
  have hstart := p.streamStartDis.isLt
  have hlength := p.streamTrainLength.isLt
  have hline := (c.lineAddr >>> p.log2Line.val).isLt
  rw [BitVec.le_def, BitVec.toNat_add, BitVec.toNat_setWidth] at hhigh
  rw [BitVec.le_def, BitVec.toNat_sub, BitVec.toNat_setWidth] at hlow
  rcases hcases with ⟨hdir, hbelow, hep⟩ | ⟨hdir, habove, hep⟩
  · rw [hep] at hproc
    have hend := down_no_wrap c hproc
    rw [← hep] at hend
    rw [BitVec.lt_def] at hbelow
    refine ⟨(s.stream i).sp.toNat - (c.lineAddr >>> p.log2Line.val).toNat + p.streamStartDis.toNat, by omega,
      .inr ⟨hdir, ?_⟩, fun hup => absurd (hdir.symm.trans hup) (by decide), fun _ => ?_⟩
    · rw [hsp]
      omega
    · rw [hsp]
      omega
  · rw [hep] at hproc
    have hend := up_no_wrap c hproc
    rw [← hep] at hend
    rw [BitVec.le_def] at habove
    refine ⟨(c.lineAddr >>> p.log2Line.val).toNat - (s.stream i).sp.toNat + p.streamStartDis.toNat, by omega,
      .inl ⟨hdir, ?_⟩, fun _ => ?_, fun hdown => absurd (hdir.symm.trans hdown) (by decide)⟩
    · rw [hsp]
      omega
    · rw [hsp]
      omega

/-- The stream as its training leaves it. -/
def PrefStream.trainedStream (p : Params) (s : PrefStream) (c : Call κ) (i : ℕ) : StreamBuffer :=
  (s.findBuffer p c).1.stream i

def StreamBuffer.training (st : StreamBuffer) : Training := ⟨st.ep, st.dir, st.length, st.window⟩

/-- The distance that a stream is compared with. -/
def StreamBuffer.bound (p : Params) (st : StreamBuffer) (distance : Uns) : Uns :=
  if p.accPerStream then st.length else distance

/-- The lines that were taken are the ones behind the end, in order; the pointers are in order, and the window
is no longer than the distance, or than it was. -/
structure Tracked.Streams (i : ℕ) (tr : Tracked) (st : StreamBuffer) (maxdistance : Uns) : Prop where
  lines : ∃ m, tr.accepted = st.training.lines 1 m
  inOrder : (tr.prefetcher.stream i).Alive → (tr.prefetcher.stream i).InOrder
  window : (tr.prefetcher.stream i).Alive → (tr.prefetcher.stream i).window ≤ max maxdistance.toNat st.window

/-- From the window at training to its bound there is a length that the comparison lets not grow. -/
def StreamBuffer.KeepsBound (st : StreamBuffer) (maxdistance : Uns) : Prop :=
  ∃ lines, st.window ≤ lines ∧ lines ≤ max maxdistance.toNat st.window ∧ Moves st.dir maxdistance (lines + 1)

/-- A distance and a window that stay clear of the largest `int` keep the bound. -/
theorem StreamBuffer.Spans.keepsBound (h : st.Spans w) (hdistance : maxdistance.toNat < 2 ^ 31 - 1) (hw : w < 2 ^ 31 - 1) :
    st.KeepsBound maxdistance := by
  have hwindow := h.window
  refine ⟨max maxdistance.toNat w, by omega, by omega, ?_⟩
  have hlow : maxdistance.toNat < max maxdistance.toNat w + 1 := by omega
  have hhigh : max maxdistance.toNat w + 1 < 2 ^ 31 := by omega
  generalize max maxdistance.toNat w + 1 = lines at hlow hhigh
  have hlines : (BitVec.ofNat 32 lines).toInt = lines := by
    have hnat : (BitVec.ofNat 32 lines).toNat = lines := by
      rw [BitVec.toNat_ofNat, Nat.mod_eq_of_lt (by omega)]
    rw [BitVec.toInt_eq_toNat_of_lt (by omega), hnat]
  have hmax : maxdistance.toInt = maxdistance.toNat := BitVec.toInt_eq_toNat_of_lt (by omega)
  rcases h with ⟨hdir, -⟩ | ⟨hdir, -⟩
  · left
    refine ⟨hdir, ?_⟩
    rw [BitVec.slt_iff_toInt_lt, hlines, hmax]
    omega
  · right
    refine ⟨hdir, ?_⟩
    rw [BitVec.slt_iff_toInt_lt, BitVec.toInt_neg, BitVec.toInt_neg, hlines, hmax, Int.bmod_eq_of_le (by omega) (by omega),
      Int.bmod_eq_of_le (by omega) (by omega)]
    omega

theorem Tracked.Stays.tail {i : ℕ} {tr : Tracked} {calls : List (Call κ)} {c : Call κ}
    (h : tr.Stays p addto i (calls ++ [c])) : tr.Stays p addto i calls ∧
      ((tr.run p addto i calls).prefetcher.stream i).Alive :=
  ⟨fun before c' after hsplit => h before c' (after ++ [c]) (by rw [hsplit]; simp), h calls c [] rfl⟩

/-- What later calls make of a stream that has come so far. -/
theorem Tracked.run_follows (hfilter : p.hfilterOn = false) (hmost : most ≤ 2 ^ 34)
    (hmoves : Moves t.dir maxdistance (most + 1)) {i : ℕ} {tr : Tracked} {calls : List (Call κ)}
    (hdistance : ∀ c ∈ calls, (if p.accPerStream then t.length else c.distance) = maxdistance)
    (hstays : tr.Stays p addto i calls)
    (h : (tr.prefetcher.stream i).Alive → (tr.prefetcher.stream i).Follows t most sent) :
    ∃ m, (tr.run p addto i calls).accepted = tr.accepted ++ t.lines (sent + 1) m ∧
      (((tr.run p addto i calls).prefetcher.stream i).Alive →
        ((tr.run p addto i calls).prefetcher.stream i).Follows t most (sent + m)) := by
  induction calls using List.reverseRecOn with
  | nil => exact ⟨0, (List.append_nil _).symm, h⟩
  | append_singleton calls c ih =>
      obtain ⟨hbefore, halive⟩ := hstays.tail
      obtain ⟨m, hlog, hfollows⟩ := ih (fun c' hc' => hdistance c' (List.mem_append_left _ hc')) hbefore
      rw [run_concat]
      obtain ⟨m', hlog', hfollows'⟩ := step_follows addto hfilter hmost hmoves c
        (hdistance c (List.mem_append_right _ (List.mem_singleton_self c))) halive (hfollows halive)
      refine ⟨m + m', ?_, ?_⟩
      · rw [hlog', hlog, List.append_assoc, show sent + m + 1 = sent + 1 + m by omega, t.lines_append]
      · rw [← Nat.add_assoc]
        exact hfollows'

/-- The call that trains the stream sends its first lines. -/
theorem PrefStream.Trains.step {s : PrefStream} {c : Call κ} {i : ℕ} (h : s.Trains p c i) (addto : Ul1Queue κ)
    (hfilter : p.hfilterOn = false) (hmost : most ≤ 2 ^ 34) (hmoves : Moves (s.trainedStream p c i).dir maxdistance (most + 1))
    (hleast : (s.trainedStream p c i).window ≤ most)
    (hdistance : (s.trainedStream p c i).bound p c.distance = maxdistance) :
    ∃ m, ((⟨s, []⟩ : Tracked).step p addto i c).accepted = (s.trainedStream p c i).training.lines 1 m ∧
      (((⟨s, []⟩ : Tracked).step p addto i c).prefetcher.stream i).Follows (s.trainedStream p c i).training most m := by
  obtain ⟨w, hw, hspans, hnear⟩ := h.spans
  have hwindow : (s.trainedStream p c i).window = w := hspans.window
  have hstart : ((s.findBuffer p c).1.stream i).Follows (s.trainedStream p c i).training most 0 := by
    refine ⟨h.after, rfl, rfl, ?_, w, hspans, ?_, ?_⟩
    · simp [StreamBuffer.training, trainedStream]
    · exact Nat.le_of_eq hwindow
    · rwa [← hwindow]
  have hdistance' : (s.findBuffer p c).1.maxdistance p ((s.findBuffer p c).1.stream i) = maxdistance := by
    rw [PrefStream.maxdistance, h.eq.2.1]
    exact hdistance
  obtain ⟨m, hlog, hfollows⟩ := burst_follows addto hfilter hmost hmoves c i c.queue hdistance' hstart hnear
  rw [Tracked.step, prefStreamTrain, hitIndex]
  simp only [h.filtered, Bool.false_eq_true, if_false]
  have hhit := h.hit
  cases hfound : s.findBuffer p c with
  | mk s' hit =>
      rw [hfound] at hhit hlog hfollows
      obtain rfl : hit = some i := hhit
      simp only [if_true, List.nil_append]
      refine ⟨m, ?_, ?_⟩
      · rw [hlog, Nat.zero_add]
      · rwa [Nat.zero_add] at hfollows

/-- From its training until it is replaced or invalidated a stream sends the lines behind its end, each once, with
its pointers in order and its window within the bound, if the comparison keeps the bound. -/
theorem stream_streams (p : Params) (addto : Ul1Queue κ) (s : PrefStream) (c : Call κ) (i : ℕ) (calls : List (Call κ))
    (distance : Uns) (hfilter : p.hfilterOn = false) (htrains : s.Trains p c i)
    (hconst : ∀ c' ∈ c :: calls, c'.distance = distance)
    (hkeeps : (s.trainedStream p c i).KeepsBound ((s.trainedStream p c i).bound p distance))
    (hstays : ((⟨s, []⟩ : Tracked).step p addto i c).Stays p addto i calls) :
    (((⟨s, []⟩ : Tracked).step p addto i c).run p addto i calls).Streams i (s.trainedStream p c i)
      ((s.trainedStream p c i).bound p distance) := by
  obtain ⟨most, hleast, hbound, hmoves⟩ := hkeeps
  have hmost : most ≤ 2 ^ 34 := by
    obtain ⟨w, hw, hspans, -⟩ := htrains.spans
    have hwindow : (s.trainedStream p c i).window = w := hspans.window
    have hdistance := ((s.trainedStream p c i).bound p distance).isLt
    omega
  have hfirst : (s.trainedStream p c i).bound p c.distance = (s.trainedStream p c i).bound p distance := by
    rw [hconst c (List.mem_cons_self ..)]
  obtain ⟨m, hlog, hfollows⟩ := htrains.step addto hfilter hmost hmoves hleast hfirst
  have hlater : ∀ c' ∈ calls, (if p.accPerStream then (s.trainedStream p c i).training.length else c'.distance) =
      (s.trainedStream p c i).bound p distance := by
    intro c' hc'
    rw [hconst c' (List.mem_cons_of_mem c hc')]
    rfl
  obtain ⟨m', hlog', hfollows'⟩ := Tracked.run_follows hfilter hmost hmoves hlater hstays fun _ => hfollows
  refine ⟨⟨m + m', ?_⟩, fun halive => ?_, fun halive => ?_⟩
  · rw [hlog', hlog, Nat.add_comm m 1, Training.lines_append]
  · obtain ⟨w, hspans, -, -⟩ := (hfollows' halive).spans
    exact hspans.inOrder
  · obtain ⟨w, hspans, -, hw⟩ := (hfollows' halive).spans
    rw [hspans.window]
    omega

/-- A miss of core 0 that may make a stream, with the distance and the burst of the default parameters. -/
def miss (lineAddr : Addr) (own : lineAddr >>> 58 = 0) : Call Unit where
  procId := 0
  lineAddr
  loadPC := 0
  globalHist := 0
  create := true
  cycleCount := 1
  distance := 16
  numTosend := 2
  useless _ := false
  queue := ()
  own

theorem stream_streams_threeMisses :
    ∃ s : PrefStream, (((⟨s, []⟩ : Tracked).step .default (fun _ queue => (true, queue)) 0
        (miss 0x400040 rfl)).run .default (fun _ queue => (true, queue)) 0 [miss 0x400080 rfl]).Streams 0
      (s.trainedStream .default (miss 0x400040 rfl) 0)
      ((s.trainedStream .default (miss 0x400040 rfl) 0).bound .default 16) := by
  refine ⟨(prefStreamTrain .default (fun _ queue => (true, queue)) (prefStreamInit .default 0 1 2)
    (miss 0x400000 rfl) ()).1, ?_⟩
  refine stream_streams .default (fun _ queue => (true, queue)) _ (miss 0x400040 rfl) 0 [miss 0x400080 rfl] 16 rfl
    ⟨by decide +kernel, by decide +kernel, by decide +kernel, by decide +kernel⟩ ?_
    ⟨16, by decide +kernel, by decide +kernel, by decide +kernel⟩ ?_
  · intro c' hc'
    rcases List.mem_cons.mp hc' with rfl | hc'
    · rfl
    · rw [List.mem_singleton.mp hc']
      rfl
  · intro before c' after hsplit
    cases before with
    | nil => decide +kernel
    | cons c'' before =>
        have hlength := congrArg List.length hsplit
        simp only [List.length_cons, List.length_nil, List.length_append] at hlength
        omega

/-- With a stream that starts `0x7fffffff` lines ahead the difference does not fit into an `int`, and the window
grows. -/
theorem stream_window_grows :
    ¬ ∀ (p : Params) (addto : Ul1Queue Unit) (s : PrefStream) (c : Call Unit) (i : ℕ) (calls : List (Call Unit))
        (distance : Uns), p.hfilterOn = false → s.Trains p c i → (∀ c' ∈ c :: calls, c'.distance = distance) →
      ((⟨s, []⟩ : Tracked).step p addto i c).Stays p addto i calls →
      (((⟨s, []⟩ : Tracked).step p addto i c).run p addto i calls).Streams i (s.trainedStream p c i)
        ((s.trainedStream p c i).bound p distance) := by
  intro h
  let p : Params := { Params.default with streamStartDis := 0x7fffffff }
  let s := (prefStreamTrain p (fun _ queue => (true, queue)) (prefStreamInit p 0 1 2) (miss 0x400000 rfl) ()).1
  have hstreams := h p (fun _ queue => (true, queue)) s (miss 0x400040 rfl) 0 [] 16 rfl
    ⟨by decide +kernel, by decide +kernel, by decide +kernel, by decide +kernel⟩
    (by simp [miss]) (by intro before c' after hsplit; simp at hsplit)
  have hwindow := hstreams.window (by decide +kernel)
  exact absurd hwindow (by decide +kernel)

end Scarab.Stream
