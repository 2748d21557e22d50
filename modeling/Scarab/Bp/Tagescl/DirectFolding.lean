import Scarab.Bp.Tagescl.Histories

/-! # Folding a history directly

A folded history is brought up to date bit by bit. Its value is the history cut into pieces of the
compressed length that are put over each other, whatever the two lengths are. -/

namespace Scarab.Bp.Tagescl

/-- The `originalLength` most recent bits, each at its place modulo the compressed length. -/
def directFold (originalLength compressedLength : ℕ) (bits : List Bool) : ℕ :=
  (List.range originalLength).foldl
    (fun value i => value ^^^ ((bits.getD i false).toNat <<< (i % compressedLength))) 0

variable {L c j : ℕ} {bits : List Bool}

theorem directFold_succ (L c : ℕ) (bits : List Bool) :
    directFold (L + 1) c bits = directFold L c bits ^^^ ((bits.getD L false).toNat <<< (L % c)) := by
  simp [directFold, List.range_succ, List.foldl_append]

theorem directFold_nil (L c : ℕ) : directFold L c [] = 0 := by
  induction L with
  | zero => rfl
  | succ L ih => rw [directFold_succ, ih]; simp

theorem testBit_directFold_succ (L c : ℕ) (bits : List Bool) (j : ℕ) :
    (directFold (L + 1) c bits).testBit j =
      ((directFold L c bits).testBit j ^^ (decide (j = L % c) && bits.getD L false)) := by
  rw [directFold_succ, Nat.testBit_xor, FoldedHistory.testBit_bool_shiftLeft]

theorem testBit_directFold_ge (hc : 0 < c) (hj : c ≤ j) : (directFold L c bits).testBit j = false := by
  induction L with
  | zero => simp [directFold]
  | succ L ih =>
      have hne : j ≠ L % c := by
        have := Nat.mod_lt L hc
        omega
      rw [testBit_directFold_succ, ih, decide_eq_false hne]
      rfl

/-- The place before `j`, around the compressed length. -/
def before (c j : ℕ) : ℕ := if j = 0 then c - 1 else j - 1

theorem before_eq_iff (hc : 0 < c) (hj : j < c) (L : ℕ) : before c j = L % c ↔ j = (L + 1) % c := by
  have hlt := Nat.mod_lt L hc
  rw [Nat.add_mod, before]
  by_cases hlast : L % c + 1 = c
  · have hone : (L % c + 1 % c) % c = 0 := by
      by_cases hc1 : c = 1
      · subst hc1
        exact Nat.mod_one _
      · rw [Nat.mod_eq_of_lt (show 1 < c by omega), hlast, Nat.mod_self]
    rw [hone]
    by_cases hzero : j = 0
    · simp [hzero]
      omega
    · rw [if_neg hzero]
      omega
  · have hone : (L % c + 1 % c) % c = L % c + 1 := by
      rw [Nat.mod_eq_of_lt (show 1 < c by omega), Nat.mod_eq_of_lt (show L % c + 1 < c by omega)]
    rw [hone]
    by_cases hzero : j = 0
    · simp [hzero]
      omega
    · rw [if_neg hzero]
      omega

/-- A new bit moves all others on by one place. The bit that was last falls out of the history. -/
theorem testBit_directFold_cons (hc : 0 < c) (hj : j < c) (L : ℕ) (bit : Bool) (bits : List Bool) :
    (directFold L c (bit :: bits)).testBit j =
      (((directFold L c bits).testBit (before c j) ^^ (decide (j = 0) && bit)) ^^
        (decide (j = L % c) && (bit :: bits).getD L false)) := by
  induction L with
  | zero =>
      simp only [directFold, List.range_zero, List.foldl_nil, Nat.zero_testBit, Nat.zero_mod, List.getD_cons_zero]
      by_cases hzero : j = 0 <;> cases bit <;> simp [hzero]
  | succ L ih =>
      rw [testBit_directFold_succ, testBit_directFold_succ, ih, List.getD_cons_succ,
        decide_eq_decide.mpr (before_eq_iff hc hj L)]
      generalize (directFold L c bits).testBit (before c j) = a
      generalize (decide (j = 0) && bit) = b
      generalize (decide (j = L % c) && (bit :: bits).getD L false) = d
      generalize (decide (j = (L + 1) % c) && bits.getD L false) = e
      cases a <;> cases b <;> cases d <;> cases e <;> rfl

theorem folded_lengths (L c : ℕ) (bits : List Bool) :
    (folded (L, c) bits).compressedLength = c ∧ (folded (L, c) bits).outpoint = L % c := by
  induction bits with
  | nil => exact ⟨rfl, rfl⟩
  | cons bit bits ih => exact ih

/-- The folded history of any bits is their direct fold. -/
theorem folded_eq_directFold (hc : 0 < c) (L : ℕ) (bits : List Bool) :
    (folded (L, c) bits).currentValue = directFold L c bits := by
  induction bits with
  | nil => rw [directFold_nil]; rfl
  | cons bit bits ih =>
      have hfits : (folded (L, c) bits).Fits := folded_fits hc bits
      have hnext : (folded (L, c) (bit :: bits)).Fits := folded_fits hc (bit :: bits)
      obtain ⟨hcomp, hout⟩ := folded_lengths L c bits
      apply Nat.eq_of_testBit_eq
      intro j
      by_cases hj : j < c
      · rw [folded, FoldedHistory.testBit_shiftIn _ _ hfits j (hcomp.symm ▸ hj), testBit_directFold_cons hc hj, hcomp,
          hout, ih, before]
        by_cases hzero : j = 0
        · simp [hzero]
        · simp [hzero]
      · rw [testBit_directFold_ge hc (Nat.le_of_not_lt hj), hnext.testBit]
        rw [(folded_lengths L c (bit :: bits)).1]
        exact Nat.le_of_not_lt hj

/-! ## A register and a history that is folded of it -/

/-- The register, the folded history, and the bits that have been pushed and not rewound, the last
one first. -/
structure FoldedRun where
  register : LongHistoryRegister
  folded : FoldedHistory
  bits : List Bool

/-- What is done with the two; the folded history follows each bit in and out. -/
inductive HistoryOp where
  | push (bit : Bool)
  | rewind
  | retire (numRetireBits : ℕ)
  deriving DecidableEq, Repr

def FoldedRun.init (historySize maxInFlightBranches originalLength compressedLength : ℕ) : FoldedRun :=
  ⟨.init historySize maxInFlightBranches, .init originalLength compressedLength, []⟩

def FoldedRun.step (s : FoldedRun) : HistoryOp → Except String FoldedRun
  | .push bit => do
      let register ← s.register.pushBit bit
      return ⟨register, .update register s.folded, bit :: s.bits⟩
  | .rewind => do
      let folded := FoldedHistory.updateReverse s.register s.folded
      let register ← s.register.rewind 1
      return ⟨register, folded, s.bits.tail⟩
  | .retire numRetireBits => do
      let register ← s.register.retire numRetireBits
      return { s with register }

/-- The register holds the most recent bits, one more than the original length. -/
def HoldsRecent (L : ℕ) (register : LongHistoryRegister) (bits : List Bool) : Prop :=
  ∀ i ≤ L, register.bit i = bits.getD i false

/-- Where the folded history reads the register, it holds the most recent bits. -/
def FoldedRun.HoldsRecentAt (L : ℕ) (s : FoldedRun) : HistoryOp → Prop
  | .push bit => ∀ register, s.register.pushBit bit = .ok register → HoldsRecent L register (bit :: s.bits)
  | .rewind => ∀ register, s.register.rewind 1 = .ok register → HoldsRecent L s.register s.bits
  | .retire _ => True

/-- The folded history is that of the bits, of which at least the speculative ones have been pushed. -/
structure FoldedRun.Follows (L c : ℕ) (s : FoldedRun) : Prop where
  folded : s.folded = Tagescl.folded (L, c) s.bits
  speculative : s.register.numSpeculativeBits ≤ s.bits.length

theorem LongHistoryRegister.pushBit_spec {r r' : LongHistoryRegister} {bit : Bool} (h : r.pushBit bit = .ok r') :
    r'.numSpeculativeBits = r.numSpeculativeBits + 1 := by
  rw [LongHistoryRegister.pushBit] at h
  obtain ⟨-, h⟩ := Execution.ite_error_eq_ok.mp h
  cases h
  rfl

theorem LongHistoryRegister.rewind_spec {r r' : LongHistoryRegister} {n : ℕ} (h : r.rewind n = .ok r') :
    (0 < n ∧ n ≤ r.numSpeculativeBits) ∧ r'.numSpeculativeBits = r.numSpeculativeBits - n := by
  rw [LongHistoryRegister.rewind] at h
  obtain ⟨hn, h⟩ := Execution.ite_error_eq_ok.mp h
  cases h
  exact ⟨hn, rfl⟩

theorem LongHistoryRegister.retire_spec {r r' : LongHistoryRegister} {n : ℕ} (h : r.retire n = .ok r') :
    r'.numSpeculativeBits ≤ r.numSpeculativeBits := by
  rw [LongHistoryRegister.retire] at h
  obtain ⟨-, h⟩ := Execution.ite_error_eq_ok.mp h
  cases h
  exact Nat.sub_le _ _

theorem FoldedRun.Follows.step {s t : FoldedRun} {op : HistoryOp} (hc : 0 < c) (h : s.Follows L c)
    (hheld : s.HoldsRecentAt L op) (hstep : s.step op = .ok t) : t.Follows L c := by
  cases op with
  | push bit =>
      obtain ⟨r, hr, hok⟩ := Execution.bind_eq_ok.mp hstep
      cases hok
      have hrecent := hheld r hr
      refine ⟨?_, ?_⟩
      · show FoldedHistory.update r s.folded = Tagescl.folded (L, c) (bit :: s.bits)
        rw [h.folded, FoldedHistory.update, folded_originalLength, hrecent 0 (Nat.zero_le L), hrecent L (Nat.le_refl L)]
        rfl
      · have hspec := LongHistoryRegister.pushBit_spec hr
        have hbefore := h.speculative
        simp only [List.length_cons]
        omega
  | rewind =>
      obtain ⟨r, hr, hok⟩ := Execution.bind_eq_ok.mp hstep
      cases hok
      obtain ⟨⟨-, hspec⟩, hafter⟩ := LongHistoryRegister.rewind_spec hr
      have hbefore := h.speculative
      obtain ⟨bit, bits, hbits⟩ : ∃ bit bits, s.bits = bit :: bits :=
        List.exists_cons_of_length_pos (by omega)
      refine ⟨?_, ?_⟩
      · show FoldedHistory.updateReverse s.register s.folded = Tagescl.folded (L, c) s.bits.tail
        have hrecent : HoldsRecent L s.register s.bits := hheld r hr
        rw [hbits] at hrecent
        rw [h.folded, hbits, FoldedHistory.updateReverse, folded_originalLength, hrecent 0 (Nat.zero_le L),
          hrecent L (Nat.le_refl L)]
        exact FoldedHistory.shiftOut_shiftIn _ _ (folded_fits hc bits)
      · simp only [List.length_tail]
        omega
  | retire n =>
      obtain ⟨r, hr, hok⟩ := Execution.bind_eq_ok.mp hstep
      cases hok
      exact ⟨h.folded, Nat.le_trans (LongHistoryRegister.retire_spec hr) h.speculative⟩

/-- Pushing a bit and rewinding it brings the folded history back. -/
theorem FoldedRun.Follows.rewind_push {s t : FoldedRun} {bit : Bool} (hc : 0 < c) (h : s.Follows L c)
    (hpush : s.step (.push bit) = .ok t) :
    ∃ u, t.step .rewind = .ok u ∧ u.folded = s.folded ∧ u.bits = s.bits := by
  obtain ⟨r, hr, hok⟩ := Execution.bind_eq_ok.mp hpush
  cases hok
  have hspec := LongHistoryRegister.pushBit_spec hr
  have hrewind : ∃ r', r.rewind 1 = .ok r' := ⟨_, if_pos ⟨Nat.one_pos, by omega⟩⟩
  obtain ⟨r', hr'⟩ := hrewind
  refine ⟨_, Execution.bind_eq_ok.mpr ⟨r', hr', rfl⟩, ?_, rfl⟩
  have hfits : s.folded.Fits := by
    rw [h.folded]
    exact folded_fits hc s.bits
  exact FoldedHistory.shiftOut_shiftIn _ _ hfits

/-- A push leaves the register with the bit in front. -/
theorem LongHistoryRegister.Holds.of_pushBit {r r' : LongHistoryRegister} {historySize : ℕ} {bit : Bool}
    (h : r.Holds historySize bits) (hpush : r.pushBit bit = .ok r') : r'.Holds historySize (bit :: bits) := by
  have hroom : r.numSpeculativeBits < r.maxNumSpeculativeBits := (Execution.ite_error_eq_ok.mp hpush).1
  obtain ⟨r'', hr'', hholds, -, -⟩ := h.pushBit bit hroom
  cases hpush.symm.trans hr''
  exact hholds

/-- In a run that keeps to its history size, the register holds the most recent bits wherever the
folded history reads it. -/
theorem FoldedRun.along_holdsRecentAt {historySize : ℕ} (hle : L ≤ historySize) (ops : List HistoryOp) {s : FoldedRun}
    (h : s.register.Holds historySize s.bits) (hspec : s.register.numSpeculativeBits ≤ s.bits.length) :
    Execution.Along FoldedRun.step (FoldedRun.HoldsRecentAt L) s ops := by
  induction ops generalizing s with
  | nil => trivial
  | cons op ops ih =>
      cases op with
      | push bit =>
          rw [Execution.Along]
          refine ⟨?_, ?_⟩
          · intro r hr i hi
            have hpushed := LongHistoryRegister.pushBit_spec hr
            exact (h.of_pushBit hr).bit i (by omega)
          · cases hr : s.register.pushBit bit with
            | error e => simp [FoldedRun.step, hr, Except.bind, bind]
            | ok r =>
                have hpushed := LongHistoryRegister.pushBit_spec hr
                have hstep : s.step (.push bit) = .ok ⟨r, .update r s.folded, bit :: s.bits⟩ :=
                  Execution.bind_eq_ok.mpr ⟨r, hr, rfl⟩
                rw [hstep]
                exact ih (h.of_pushBit hr) (by simp only [List.length_cons]; omega)
      | rewind =>
          rw [Execution.Along]
          refine ⟨?_, ?_⟩
          · intro r hr i hi
            obtain ⟨⟨-, hpos⟩, -⟩ := LongHistoryRegister.rewind_spec hr
            exact h.bit i (by omega)
          · cases hr : s.register.rewind 1 with
            | error e => simp [FoldedRun.step, hr, Except.bind, bind]
            | ok r =>
                obtain ⟨⟨-, hpos⟩, hafter⟩ := LongHistoryRegister.rewind_spec hr
                have hstep : s.step .rewind = .ok ⟨r, .updateReverse s.register s.folded, s.bits.tail⟩ :=
                  Execution.bind_eq_ok.mpr ⟨r, hr, rfl⟩
                obtain ⟨bit, bits, hbits⟩ : ∃ bit bits, s.bits = bit :: bits :=
                  List.exists_cons_of_length_pos (by omega)
                rw [hstep]
                rw [hbits] at h hspec
                obtain ⟨r', hr', hholds, -, -⟩ := h.rewind (by omega)
                cases hr.symm.trans hr'
                refine ih ?_ ?_
                · simp only [hbits, List.tail_cons]
                  exact hholds
                · simp only [hbits, List.tail_cons, List.length_cons] at hspec ⊢
                  omega
      | retire n =>
          rw [Execution.Along]
          refine ⟨trivial, ?_⟩
          cases hr : s.register.retire n with
          | error e => simp [FoldedRun.step, hr, Except.bind, bind]
          | ok r =>
              have hn : 0 < n ∧ n ≤ s.register.numSpeculativeBits := (Execution.ite_error_eq_ok.mp hr).1
              have hstep : s.step (.retire n) = .ok { s with register := r } :=
                Execution.bind_eq_ok.mpr ⟨r, hr, rfl⟩
              rw [hstep]
              obtain ⟨r', hr', hholds, hfewer, -⟩ := h.retire hn.1 hn.2
              cases hr.symm.trans hr'
              exact ih hholds (by simp only; omega)

/-- As long as the register holds one more than the bits that are folded, the folded history is
their direct fold, and rewinding the newest bit restores it. Up to a compressed length of 30 all
values are those of an `int`. -/
theorem foldedHistory_eq_directFold (historySize maxInFlightBranches L c : ℕ) (hc : 1 ≤ c) (ops : List HistoryOp) (s : FoldedRun)
    (hrun : Execution.run FoldedRun.step (.init historySize maxInFlightBranches L c) ops = .ok s)
    (hheld : Execution.Along FoldedRun.step (FoldedRun.HoldsRecentAt L) (.init historySize maxInFlightBranches L c) ops) :
    s.folded.currentValue = directFold L c s.bits ∧ s.folded.currentValue < 2 ^ c ∧
      ∀ bit t, s.step (.push bit) = .ok t →
        ∃ u, t.step .rewind = .ok u ∧ u.folded.currentValue = s.folded.currentValue ∧ u.bits = s.bits := by
  have hinit : (FoldedRun.init historySize maxInFlightBranches L c).Follows L c := ⟨rfl, Nat.le_refl 0⟩
  have hfollows : s.Follows L c :=
    Execution.run_invariant_along (fun _ _ _ h hheld hstep => h.step hc hheld hstep) hinit hheld hrun
  refine ⟨?_, ?_, ?_⟩
  · rw [hfollows.folded]
    exact folded_eq_directFold hc L s.bits
  · have hfits : (folded (L, c) s.bits).Fits := folded_fits (show 0 < c from hc) s.bits
    have hvalue := hfits.value
    rw [(folded_lengths L c s.bits).1] at hvalue
    rw [hfollows.folded]
    exact hvalue
  · intro bit t hpush
    obtain ⟨u, hu, hfolded, hbits⟩ := hfollows.rewind_push hc hpush
    exact ⟨u, hu, congrArg FoldedHistory.currentValue hfolded, hbits⟩

theorem foldedHistory_eq_directFold_five_bits :
    ∃ s, Execution.run FoldedRun.step (.init 5 2 5 3) [.push true, .push false, .retire 1, .push true, .rewind] = .ok s ∧
      s.folded.currentValue = directFold 5 3 s.bits ∧ s.folded.currentValue < 2 ^ 3 ∧
        ∀ bit t, s.step (.push bit) = .ok t →
          ∃ u, t.step .rewind = .ok u ∧ u.folded.currentValue = s.folded.currentValue ∧ u.bits = s.bits :=
  ⟨_, rfl, foldedHistory_eq_directFold 5 2 5 3 (by decide) [.push true, .push false, .retire 1, .push true, .rewind] _ rfl
    (FoldedRun.along_holdsRecentAt (Nat.le_refl 5) _ (LongHistoryRegister.holds_init 5 2) (Nat.le_refl 0))⟩

end Scarab.Bp.Tagescl
