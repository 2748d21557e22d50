import Scarab.Prefetcher.PhaseReplay
import Scarab.Prefetcher.Stream

/-! # The window of a stream

What a turn of the loop, a burst and a call do to the pointers of a trained stream, and to the lines that
the queue took. -/

namespace Scarab.Stream

open Phase (logged logged_takes logged_refuses)

variable {p : Params} {κ : Type} {addto : Ul1Queue κ}

/-! ## The window -/

/-- The start has not passed the end. -/
def StreamBuffer.InOrder (st : StreamBuffer) : Prop := if st.dir = 1 then st.sp ≤ st.ep else st.ep ≤ st.sp

instance (st : StreamBuffer) : Decidable st.InOrder := 
  inferInstanceAs (Decidable (if st.dir = 1 then st.sp ≤ st.ep else st.ep ≤ st.sp))

/-- The lines from the start to the end. -/
def StreamBuffer.window (st : StreamBuffer) : ℕ :=
  if st.dir = 1 then st.ep.toNat - st.sp.toNat else st.sp.toNat - st.ep.toNat

/-- The direction is decided, and the pointers are so many lines apart in it. -/
def StreamBuffer.Spans (st : StreamBuffer) (lines : ℕ) : Prop :=
  st.dir = 1 ∧ st.ep.toNat = st.sp.toNat + lines ∨ st.dir = -1 ∧ st.sp.toNat = st.ep.toNat + lines

/-- The comparison with the distance, for a window of so many lines. -/
def Moves (dir : ℤ) (maxdistance : Uns) (lines : ℕ) : Prop :=
  dir = 1 ∧ maxdistance.slt (BitVec.ofNat 32 lines) ∨ dir = -1 ∧ (-BitVec.ofNat 32 lines).slt (-maxdistance)

instance (dir : ℤ) (maxdistance : Uns) (lines : ℕ) : Decidable (Moves dir maxdistance lines) :=
  inferInstanceAs (Decidable (_ ∨ _))

variable {st : StreamBuffer} {w : ℕ}

theorem StreamBuffer.Spans.inOrder (h : st.Spans w) : st.InOrder := by
  rcases h with ⟨hdir, hep⟩ | ⟨hdir, hsp⟩
  · rw [InOrder, if_pos hdir, BitVec.le_def]
    omega
  · rw [InOrder, if_neg (by omega), BitVec.le_def]
    omega

theorem StreamBuffer.Spans.window (h : st.Spans w) : st.window = w := by
  rcases h with ⟨hdir, hep⟩ | ⟨hdir, hsp⟩
  · rw [StreamBuffer.window, if_pos hdir]
    omega
  · rw [StreamBuffer.window, if_neg (by omega)]
    omega

/-- There is a line behind the end. -/
def StreamBuffer.HasNext (st : StreamBuffer) : Prop :=
  (st.dir = 1 → st.ep.toNat + 1 < 2 ^ 64) ∧ (st.dir = -1 → 1 ≤ st.ep.toNat)

theorem up_toNat {x : Addr} (h : x.toNat + 1 < 2 ^ 64) : (x + BitVec.ofInt 64 1).toNat = x.toNat + 1 := by
  have hone : (BitVec.ofInt 64 1).toNat = 1 := rfl
  rw [BitVec.toNat_add, hone, Nat.mod_eq_of_lt h]

theorem down_toNat {x : Addr} (h : 1 ≤ x.toNat) : (x + BitVec.ofInt 64 (-1)).toNat = x.toNat - 1 := by
  have hminus : (BitVec.ofInt 64 (-1)).toNat = 2 ^ 64 - 1 := rfl
  have hlt := x.isLt
  rw [BitVec.toNat_add, hminus]
  omega

theorem StreamBuffer.next_up (hdir : st.dir = 1) (hnext : st.HasNext) : st.next.toNat = st.ep.toNat + 1 := by
  rw [next, hdir]
  exact up_toNat (hnext.1 hdir)

theorem StreamBuffer.next_down (hdir : st.dir = -1) (hnext : st.HasNext) : st.next.toNat = st.ep.toNat - 1 := by
  rw [next, hdir]
  exact down_toNat (hnext.2 hdir)

/-- The test of the code, when the end has moved on. -/
theorem StreamBuffer.Spans.exceeds_iff (h : st.Spans w) (hnext : st.HasNext) (maxdistance : Uns) :
    ({ st with ep := st.next } : StreamBuffer).exceeds maxdistance ↔ Moves st.dir maxdistance (w + 1) := by
  have hlt := st.ep.isLt
  have hsp := st.sp.isLt
  rw [exceeds, Moves]
  simp only
  rcases h with ⟨hdir, hep⟩ | ⟨hdir, hep⟩
  · have hdis : (st.next - st.sp).setWidth 32 = BitVec.ofNat 32 (w + 1) := by
      apply BitVec.eq_of_toNat_eq
      rw [BitVec.toNat_setWidth, BitVec.toNat_sub, BitVec.toNat_ofNat, next_up hdir hnext]
      omega
    rw [hdis, hdir]
    simp
  · have hdis : (st.next - st.sp).setWidth 32 = -BitVec.ofNat 32 (w + 1) := by
      apply BitVec.eq_of_toNat_eq
      rw [BitVec.toNat_setWidth, BitVec.toNat_sub, BitVec.toNat_neg, BitVec.toNat_ofNat, next_down hdir hnext]
      have hroom := hnext.2 hdir
      omega
    rw [hdis, hdir]
    simp

/-- What an advance leaves as it is. -/
theorem StreamBuffer.advance_keeps (st : StreamBuffer) (maxdistance : Uns) :
    (st.advance maxdistance).ep = st.next ∧ (st.advance maxdistance).dir = st.dir ∧
      (st.advance maxdistance).trained = st.trained ∧ (st.advance maxdistance).length = st.length := by
  rw [advance]
  simp only
  split
  · exact ⟨rfl, rfl, rfl, rfl⟩
  · exact ⟨rfl, rfl, rfl, rfl⟩

/-- The window grows by a line, or moves on. -/
theorem StreamBuffer.Spans.advance (h : st.Spans w) (hnext : st.HasNext) (maxdistance : Uns) :
    (st.advance maxdistance).Spans (if Moves st.dir maxdistance (w + 1) then w else w + 1) := by
  rw [StreamBuffer.advance]
  simp only [h.exceeds_iff hnext maxdistance]
  by_cases hmoves : Moves st.dir maxdistance (w + 1)
  · rw [if_pos hmoves, if_pos hmoves]
    rcases h with ⟨hdir, hep⟩ | ⟨hdir, hep⟩
    · have hroom := hnext.1 hdir
      refine .inl ⟨hdir, ?_⟩
      show st.next.toNat = (st.sp + BitVec.ofInt 64 st.dir).toNat + w
      rw [next_up hdir hnext, hdir, up_toNat (by omega)]
      omega
    · have hroom := hnext.2 hdir
      refine .inr ⟨hdir, ?_⟩
      show (st.sp + BitVec.ofInt 64 st.dir).toNat = st.next.toNat + w
      rw [next_down hdir hnext, hdir, down_toNat (by omega)]
      omega
  · rw [if_neg hmoves, if_neg hmoves]
    rcases h with ⟨hdir, hep⟩ | ⟨hdir, hep⟩
    · refine .inl ⟨hdir, ?_⟩
      show st.next.toNat = st.sp.toNat + (w + 1)
      rw [next_up hdir hnext]
      omega
    · have hroom := hnext.2 hdir
      refine .inr ⟨hdir, ?_⟩
      show st.sp.toNat = st.next.toNat + (w + 1)
      rw [next_down hdir hnext]
      omega

/-! ## A trained stream -/

/-- What is settled when a stream is trained: where it ends, its direction, and the length of its window. -/
structure Training where
  ep : Addr
  dir : ℤ
  length : Uns
  least : ℕ

/-- The next lines behind the end. -/
def Training.lines (t : Training) (first count : ℕ) : List Addr :=
  (List.range' first count).map fun j => t.ep + BitVec.ofNat 64 j * BitVec.ofInt 64 t.dir

theorem Training.lines_append (t : Training) (first m n : ℕ) :
    t.lines first m ++ t.lines (first + m) n = t.lines first (m + n) := by
  rw [lines, lines, lines, ← List.map_append, List.range'_append_1]

/-- The stream has come so many lines behind its training, with a window up to a limit. -/
structure StreamBuffer.Follows (t : Training) (most sent : ℕ) (st : StreamBuffer) : Prop where
  trained : st.trained = true
  dir : st.dir = t.dir
  length : st.length = t.length
  ep : st.ep = t.ep + BitVec.ofNat 64 sent * BitVec.ofInt 64 t.dir
  spans : ∃ w, st.Spans w ∧ t.least ≤ w ∧ w ≤ most

variable {t : Training} {most sent : ℕ} {maxdistance : Uns}

theorem StreamBuffer.Follows.next (h : st.Follows t most sent) :
    st.next = t.ep + BitVec.ofNat 64 (sent + 1) * BitVec.ofInt 64 t.dir := by
  rw [StreamBuffer.next, h.ep, h.dir, BitVec.ofNat_add, BitVec.add_mul, BitVec.one_mul, BitVec.add_assoc]

/-- A line more. The comparison holds before the window is longer than the limit. -/
theorem StreamBuffer.Follows.advance (h : st.Follows t most sent) (hnext : st.HasNext)
    (hmoves : Moves t.dir maxdistance (most + 1)) : (st.advance maxdistance).Follows t most (sent + 1) := by
  obtain ⟨hep, hdir, htrained, hlength⟩ := st.advance_keeps maxdistance
  obtain ⟨w, hspans, hleast, hmost⟩ := h.spans
  refine ⟨htrained.trans h.trained, hdir.trans h.dir, hlength.trans h.length, hep.trans h.next, ?_⟩
  refine ⟨_, hspans.advance hnext maxdistance, ?_, ?_⟩
  · split <;> omega
  · rcases Nat.lt_or_eq_of_le hmost with hlt | rfl
    · split <;> omega
    · exact Nat.le_of_eq (if_pos (h.dir ▸ hmoves))

/-- The start is not far behind a line that the stream covered. -/
def StreamBuffer.Near (st : StreamBuffer) (lineIndex : Addr) (turns : ℕ) : Prop :=
  (st.dir = 1 → st.sp.toNat ≤ lineIndex.toNat + turns) ∧ (st.dir = -1 → lineIndex.toNat ≤ st.sp.toNat + turns)

theorem StreamBuffer.Near.advance {lineIndex : Addr} {turns : ℕ} (h : st.Near lineIndex turns) (hspans : st.Spans w)
    (hnext : st.HasNext) : (st.advance maxdistance).Near lineIndex (turns + 1) := by
  obtain ⟨hep', hdir', -, -⟩ := st.advance_keeps maxdistance
  have hafter := hspans.advance hnext maxdistance
  rw [StreamBuffer.Spans, hep', hdir'] at hafter
  rw [StreamBuffer.Near, hdir']
  rcases hspans with ⟨hdir, hep⟩ | ⟨hdir, hep⟩
  · refine ⟨fun _ => ?_, fun hdown => absurd (hdir.symm.trans hdown) (by decide)⟩
    have hnear := h.1 hdir
    have hnext' := next_up hdir hnext
    rcases hafter with ⟨-, hafter⟩ | ⟨hdown, -⟩
    · split at hafter <;> omega
    · exact absurd (hdir.symm.trans hdown) (by decide)
  · refine ⟨fun hup => absurd (hdir.symm.trans hup) (by decide), fun _ => ?_⟩
    have hnear := h.2 hdir
    have hroom := hnext.2 hdir
    have hnext' := next_down hdir hnext
    rcases hafter with ⟨hup, -⟩ | ⟨-, hafter⟩
    · exact absurd (hdir.symm.trans hup) (by decide)
    · split at hafter <;> omega

/-- The core of an address. -/
theorem Call.proc (c : Call κ) : c.lineAddr.toNat / 2 ^ 58 = c.procId.toNat ∧ c.procId.toNat ≤ 63 := by
  have hown := congrArg BitVec.toNat c.own
  rw [BitVec.toNat_ushiftRight, Nat.shiftRight_eq_div_pow, BitVec.toNat_setWidth] at hown
  have hproc := c.procId.isLt
  have hlt := c.lineAddr.isLt
  rw [Nat.mod_eq_of_lt (by omega)] at hown
  exact ⟨hown, by omega⟩

/-- The check of the address space leaves room for the next line. -/
theorem StreamBuffer.Spans.hasNext (h : st.Spans w) (hw : w ≤ 2 ^ 34) (c : Call κ) {turns : ℕ}
    (hnear : st.Near (c.lineAddr >>> p.log2Line.val) turns) (hturns : turns ≤ 2 ^ 32)
    (hproc : c.procId.setWidth 64 = st.next >>> (58 - p.log2Line.val)) : st.HasNext := by
  obtain ⟨hown, hfew⟩ := c.proc
  have hline : (c.lineAddr >>> p.log2Line.val).toNat = c.lineAddr.toNat / 2 ^ p.log2Line.val := by
    rw [BitVec.toNat_ushiftRight, Nat.shiftRight_eq_div_pow]
  have hlow : (c.lineAddr >>> p.log2Line.val).toNat ≤ c.lineAddr.toNat := hline ▸ Nat.div_le_self ..
  have hproc' := congrArg BitVec.toNat hproc
  rw [BitVec.toNat_ushiftRight, Nat.shiftRight_eq_div_pow, BitVec.toNat_setWidth, Nat.mod_eq_of_lt (by omega)] at hproc'
  rcases h with ⟨hdir, hep⟩ | ⟨hdir, hep⟩
  · refine ⟨fun _ => Classical.byContradiction fun hwrap => ?_, fun hdown => absurd (hdir.symm.trans hdown) (by decide)⟩
    have hlt := st.ep.isLt
    have hzero : st.next.toNat = 0 := by
      have hone : (BitVec.ofInt 64 1).toNat = 1 := rfl
      rw [next, hdir, BitVec.toNat_add, hone]
      omega
    rw [hzero, Nat.zero_div] at hproc'
    have hsp := hnear.1 hdir
    omega
  · refine ⟨fun hup => absurd (hdir.symm.trans hup) (by decide), fun _ => Classical.byContradiction fun hwrap => ?_⟩
    have htop : st.next.toNat = 2 ^ 64 - 1 := by
      have hminus : (BitVec.ofInt 64 (-1)).toNat = 2 ^ 64 - 1 := rfl
      rw [next, hdir, BitVec.toNat_add, hminus]
      omega
    rw [htop] at hproc'
    have hsp := hnear.2 hdir
    rcases Nat.eq_zero_or_pos p.log2Line.val with hk | hk
    · have hsame : (c.lineAddr >>> p.log2Line.val).toNat = c.lineAddr.toNat := by
        rw [hline, hk, Nat.pow_zero, Nat.div_one]
      rw [hk] at hproc'
      simp only [Nat.sub_zero] at hproc'
      omega
    · have hpow : 2 ^ (58 - p.log2Line.val) ≤ 2 ^ 57 := Nat.pow_le_pow_right (by decide) (by omega)
      have hbig : (2 ^ 64 - 1) / 2 ^ 57 ≤ (2 ^ 64 - 1) / 2 ^ (58 - p.log2Line.val) :=
        Nat.div_le_div_left hpow (Nat.pow_pos (by decide))
      have hvalue : (2 ^ 64 - 1) / 2 ^ 57 = 127 := by decide
      omega

/-! ## The loop -/

theorem PrefStream.maxdistance_congr {s s' : PrefStream} {st' : StreamBuffer} (hdistance : s'.distance = s.distance)
    (hlength : st'.length = st.length) : s'.maxdistance p st' = s.maxdistance p st := by
  rw [maxdistance, maxdistance, hdistance, hlength]

theorem advance_stream (p : Params) (s : PrefStream) (i : ℕ) :
    (s.advance p i).stream i = (s.stream i).advance (s.maxdistance p (s.stream i)) ∧
      (s.advance p i).distance = s.distance := by
  rw [PrefStream.advance]
  by_cases hremove : p.removeRedundantStream = true
  · rw [if_pos hremove, prefStreamRemoveRedundantStream]
    simp
  · rw [if_neg hremove]
    simp

/-- The loop asks for the next lines, and the stream has come as far as the queue has taken them. -/
theorem sendLoop_follows (hfilter : p.hfilterOn = false) (hmost : most ≤ 2 ^ 34)
    (hmoves : Moves t.dir maxdistance (most + 1)) (c : Call κ) (i : ℕ) {n turns : ℕ} {s : PrefStream} {k : κ}
    {log : List Addr} (hdistance : s.maxdistance p (s.stream i) = maxdistance) (h : (s.stream i).Follows t most sent)
    (hnear : (s.stream i).Near (c.lineAddr >>> p.log2Line.val) turns) (hturns : n + turns ≤ 2 ^ 32) :
    ∃ m, (sendLoop p (logged addto) c i n s (k, log)).2.2 = log ++ t.lines (sent + 1) m ∧
      ((sendLoop p (logged addto) c i n s (k, log)).1.stream i).Follows t most (sent + m) := by
  induction n generalizing s k log sent turns with
  | zero => exact ⟨0, (List.append_nil log).symm, h⟩
  | succ n ih =>
      rw [sendLoop]
      by_cases hpause : (s.stream i).sp = c.lineAddr >>> p.log2Line.val ∧ (s.stream i).bufferFull = true
      · rw [if_pos hpause]
        refine ⟨0, (List.append_nil log).symm, ?_⟩
        simp only [Function.update_self]
        exact ⟨h.trained, h.dir, h.length, h.ep, h.spans⟩
      · rw [if_neg hpause]
        by_cases hproc : c.procId.setWidth 64 ≠ (s.stream i).next >>> (58 - p.log2Line.val)
        · rw [if_pos hproc]
          refine ⟨0, (List.append_nil log).symm, ?_⟩
          simp only [Function.update_self]
          exact ⟨h.trained, h.dir, h.length, h.ep, h.spans⟩
        · rw [if_neg hproc, hfilter]
          simp only [Bool.false_and, Bool.false_eq_true, if_false]
          obtain ⟨w, hspans, hleast, hw⟩ := h.spans
          have hnext : (s.stream i).HasNext :=
            hspans.hasNext (by omega) c hnear (by omega) (not_not.mp hproc)
          cases hasked : (addto (s.request c (s.stream i)) k).1 with
          | false =>
              simp only [logged_refuses hasked, Bool.false_eq_true, if_false]
              exact ⟨0, (List.append_nil log).symm, h⟩
          | true =>
              simp only [logged_takes hasked, if_true]
              obtain ⟨hstream, hkept⟩ := advance_stream p s i
              have hafter : ((s.advance p i).stream i).Follows t most (sent + 1) := by
                rw [hstream, hdistance]
                exact h.advance hnext hmoves
              have hnear' : ((s.advance p i).stream i).Near (c.lineAddr >>> p.log2Line.val) (turns + 1) := by
                rw [hstream]
                exact hnear.advance hspans hnext
              have hdistance' : (s.advance p i).maxdistance p ((s.advance p i).stream i) = maxdistance :=
                (PrefStream.maxdistance_congr hkept (hafter.length.trans h.length.symm)).trans hdistance
              obtain ⟨m, hlog, hfollows⟩ := ih hdistance' hafter hnear' (by omega)
              refine ⟨m + 1, ?_, ?_⟩
              · rw [hlog, PrefStream.request, h.next, List.append_assoc, Nat.add_comm m 1, ← t.lines_append]
                rfl
              · rw [show sent + (m + 1) = sent + 1 + m by omega]
                exact hfollows

/-- Another stream may be given up as redundant, and is left as it is otherwise. -/
theorem advance_other (p : Params) (s : PrefStream) {i j : ℕ} (hij : i ≠ j) :
    ∃ valid, (s.advance p j).stream i = { s.stream i with valid } := by
  rw [PrefStream.advance]
  by_cases hremove : p.removeRedundantStream = true
  · rw [if_pos hremove, prefStreamRemoveRedundantStream]
    simp only [Function.update_of_ne hij]
    split
    · exact ⟨false, rfl⟩
    · exact ⟨(s.stream i).valid, rfl⟩
  · rw [if_neg hremove]
    simp only [Function.update_of_ne hij]
    exact ⟨(s.stream i).valid, rfl⟩

theorem sendLoop_other {κ' : Type} (p : Params) (addto : Ul1Queue κ') (c : Call κ) {i j : ℕ} (hij : i ≠ j) (n : ℕ)
    (s : PrefStream) (k : κ') : ∃ valid, (sendLoop p addto c j n s k).1.stream i = { s.stream i with valid } := by
  induction n generalizing s k with
  | zero => exact ⟨(s.stream i).valid, rfl⟩
  | succ n ih =>
      rw [sendLoop]
      by_cases hpause : (s.stream j).sp = c.lineAddr >>> p.log2Line.val ∧ (s.stream j).bufferFull = true
      · rw [if_pos hpause]
        simp only [Function.update_of_ne hij]
        exact ⟨(s.stream i).valid, rfl⟩
      · rw [if_neg hpause]
        by_cases hproc : c.procId.setWidth 64 ≠ (s.stream j).next >>> (58 - p.log2Line.val)
        · rw [if_pos hproc]
          simp only [Function.update_of_ne hij]
          exact ⟨(s.stream i).valid, rfl⟩
        · rw [if_neg hproc]
          have hgoes : ∀ k, ∃ valid, (sendLoop p addto c j n (s.advance p j) k).1.stream i =
              { s.stream i with valid } := by
            intro k
            obtain ⟨valid, hvalid⟩ := ih (s.advance p j) k
            obtain ⟨valid', hvalid'⟩ := advance_other p s hij
            exact ⟨valid, by rw [hvalid, hvalid']⟩
          by_cases huseless : (p.hfilterOn && c.useless (s.stream j).next) = true
          · rw [if_pos huseless]
            exact hgoes k
          · rw [if_neg huseless]
            cases addto (s.request c (s.stream j)) k with
            | mk ok k =>
                cases ok with
                | false => exact ⟨(s.stream i).valid, rfl⟩
                | true => exact hgoes k

/-! ## A call -/

/-- The stream takes part in a call as one of those that are trained and valid. -/
def StreamBuffer.Alive (st : StreamBuffer) : Prop := st.valid = true ∧ st.trained = true

instance (st : StreamBuffer) : Decidable st.Alive := inferInstanceAs (Decidable (st.valid = true ∧ st.trained = true))

theorem StreamBuffer.near_of_covers {lineIndex : Addr} (h : st.covers lineIndex 0 = true) : st.Near lineIndex 0 := by
  rw [covers, Bool.or_eq_true, Bool.and_eq_true, Bool.and_eq_true, Bool.and_eq_true, Bool.and_eq_true] at h
  simp only [decide_eq_true_eq, BitVec.le_def] at h
  rcases h with ⟨⟨hsp, -⟩, hdir⟩ | ⟨⟨hsp, -⟩, hdir⟩
  · exact ⟨fun _ => hsp, fun hdown => absurd (hdir.symm.trans hdown) (by decide)⟩
  · exact ⟨fun hup => absurd (hdir.symm.trans hup) (by decide), fun _ => hsp⟩

/-- What finding a buffer does to a stream that is trained: it is hit, replaced, or left alone. -/
theorem findBuffer_cases (p : Params) (s : PrefStream) (c : Call κ) {i : ℕ} (h : (s.stream i).Alive) :
    (s.findBuffer p c).1.distance = c.distance ∧
    (((s.findBuffer p c).2 = some i ∧ (s.stream i).covers (c.lineAddr >>> p.log2Line.val) 0 = true ∧
        ∃ trainHit, (s.findBuffer p c).1.stream i = { s.stream i with trainHit }) ∨
      ((s.findBuffer p c).2 = some i ∧ ((s.findBuffer p c).1.stream i).trained = false) ∨
      ((s.findBuffer p c).2 ≠ some i ∧ (s.findBuffer p c).1.stream i = s.stream i)) := by
  rw [PrefStream.findBuffer, prefStreamTrainCreateStreamBuffer]
  cases htrained : PrefStream.findTrained p { s with distance := c.distance, numTosend := c.numTosend }
      (c.lineAddr >>> p.log2Line.val) 0 with
  | some ii =>
      simp only [if_true]
      refine ⟨trivial, ?_⟩
      by_cases hsame : ii = i
      · subst hsame
        have hcovers := List.find?_some htrained
        simp only [Bool.and_eq_true] at hcovers
        exact .inl ⟨rfl, hcovers.2, _, Function.update_self ..⟩
      · refine .inr (.inr ⟨fun heq => hsame (Option.some.inj heq), ?_⟩)
        exact Function.update_of_ne (Ne.symm hsame) ..
  | none =>
      simp only [Bool.true_or, if_true]
      cases htraining : PrefStream.findTraining p { s with distance := c.distance, numTosend := c.numTosend }
          (c.lineAddr >>> p.log2Line.val) with
      | some ii =>
          have hfound := List.find?_some htraining
          have hne : i ≠ ii := by
            rintro rfl
            simp [h.2] at hfound
          simp only
          refine ⟨trivial, .inr (.inr ⟨?_, Function.update_of_ne hne ..⟩)⟩
          split
          · exact fun heq => hne (Option.some.inj heq).symm
          · exact fun heq => by cases heq
      | none =>
          simp only
          by_cases hcreate : c.create = true
          · rw [if_pos hcreate]
            refine ⟨rfl, ?_⟩
            generalize PrefStream.victim p { s with distance := c.distance, numTosend := c.numTosend } = lruIndex
            by_cases hsame : lruIndex = i
            · subst hsame
              refine .inr (.inl ⟨rfl, ?_⟩)
              simp [StreamBuffer.create]
            · refine .inr (.inr ⟨fun heq => hsame (Option.some.inj heq), ?_⟩)
              exact Function.update_of_ne (Ne.symm hsame) ..
          · rw [if_neg hcreate]
            exact ⟨rfl, .inr (.inr ⟨(fun heq => by cases heq), rfl⟩)⟩

/-- A burst of the stream itself. -/
theorem burst_follows (addto : Ul1Queue κ) (hfilter : p.hfilterOn = false) (hmost : most ≤ 2 ^ 34)
    (hmoves : Moves t.dir maxdistance (most + 1))
    (c : Call κ) (i : ℕ) {s : PrefStream} (k : κ) (hdistance : s.maxdistance p (s.stream i) = maxdistance)
    (h : (s.stream i).Follows t most sent) (hnear : (s.stream i).Near (c.lineAddr >>> p.log2Line.val) 0) :
    ∃ m, (s.burst p (logged addto) c i (k, [])).2.2 = t.lines (sent + 1) m ∧
      ((s.burst p (logged addto) c i (k, [])).1.stream i).Follows t most (sent + m) := by
  rw [PrefStream.burst]
  generalize hfiltered : s.addtoFilter p (c.lineAddr >>> p.log2Line.val) = s'
  have hstream : s'.stream = s.stream := hfiltered ▸ rfl
  have hkept : s'.distance = s.distance := hfiltered ▸ rfl
  have htouched : ((s'.stream i).touch c.cycleCount).Follows t most sent := by
    rw [hstream]
    exact ⟨h.trained, h.dir, h.length, h.ep, h.spans⟩
  have htrained : (s'.stream i).trained = true := by
    rw [hstream]
    exact h.trained
  simp only [htrained, if_true]
  by_cases hpaused : 0 < ((s'.stream i).touch c.cycleCount).pause
  · rw [if_pos hpaused]
    refine ⟨0, rfl, ?_⟩
    simpa only [Function.update_self, Nat.add_zero] using htouched
  · rw [if_neg hpaused]
    generalize hnum : (if ((s'.stream i).touch c.cycleCount).bufferFull = true then
      max p.streamFullN.toNat s'.numTosend.toNat else s'.numTosend.toNat) = n
    have hn : n + 0 ≤ 2 ^ 32 := by
      have hfull := p.streamFullN.isLt
      have hsend := s'.numTosend.isLt
      rw [← hnum]
      split <;> omega
    generalize hburst : ({ s' with stream := Function.update s'.stream i ((s'.stream i).touch c.cycleCount) } :
      PrefStream) = s''
    have hupdated : s''.stream i = (s'.stream i).touch c.cycleCount := hburst ▸ Function.update_self ..
    have hdistance' : s''.maxdistance p (s''.stream i) = maxdistance := by
      rw [← hdistance, hupdated]
      exact PrefStream.maxdistance_congr ((hburst ▸ rfl : s''.distance = s'.distance).trans hkept)
        (htouched.length.trans h.length.symm)
    have hnear' : (s''.stream i).Near (c.lineAddr >>> p.log2Line.val) 0 := by
      rw [hupdated, hstream]
      exact hnear
    obtain ⟨m, hlog, hfollows⟩ := sendLoop_follows hfilter hmost hmoves c i hdistance' (hupdated ▸ htouched) hnear' hn
    exact ⟨m, hlog, hfollows⟩

/-- A burst of another stream. -/
theorem burst_other {κ' : Type} (p : Params) (addto : Ul1Queue κ') (s : PrefStream) (c : Call κ) {i j : ℕ} (hij : i ≠ j)
    (k : κ') : ∃ valid, (s.burst p addto c j k).1.stream i = { s.stream i with valid } := by
  rw [PrefStream.burst]
  generalize hfiltered : s.addtoFilter p (c.lineAddr >>> p.log2Line.val) = s'
  have hstream : s'.stream = s.stream := hfiltered ▸ rfl
  rw [← hstream]
  by_cases htrained : (s'.stream j).trained = true
  · simp only [htrained, if_true]
    split
    · exact ⟨(s'.stream i).valid, Function.update_of_ne hij ..⟩
    · obtain ⟨valid, hvalid⟩ := sendLoop_other p addto c hij
        (if ((s'.stream j).touch c.cycleCount).bufferFull = true then max p.streamFullN.toNat s'.numTosend.toNat
          else s'.numTosend.toNat)
        { s' with stream := Function.update s'.stream j ((s'.stream j).touch c.cycleCount) } k
      simp only [Function.update_of_ne hij] at hvalid
      exact ⟨valid, hvalid⟩
  · simp only [htrained, if_false, Bool.false_eq_true]
    exact ⟨(s'.stream i).valid, rfl⟩

/-- A buffer that is not trained asks for nothing. -/
theorem burst_untrained {κ' : Type} (p : Params) (addto : Ul1Queue κ') (s : PrefStream) (c : Call κ) {i : ℕ}
    (h : (s.stream i).trained = false) (k : κ') :
    (s.burst p addto c i k).2 = k ∧ (s.burst p addto c i k).1.stream = s.stream := by
  rw [PrefStream.burst]
  have htrained : ((s.addtoFilter p (c.lineAddr >>> p.log2Line.val)).stream i).trained = false := h
  simp only [htrained, Bool.false_eq_true, if_false]
  exact ⟨trivial, rfl⟩

end Scarab.Stream
