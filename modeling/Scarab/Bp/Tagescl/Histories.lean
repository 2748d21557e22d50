import Mathlib.Algebra.Order.Group.Int
import Mathlib.Data.List.Basic
import Scarab.Bp.Tagescl.Folding

/-! # The histories as functions of the inserted bits

The register holds what has been inserted last, as long as its speculative bits fit into what the
buffer has beyond the history; and every folded history is the one of the bits before it. -/

namespace Scarab.Bp.Tagescl

variable {cfg : Config} {bits extra : List Bool} {bit : Bool} {historySize n : ℕ}

/-! ## The register -/

/-- The register holds the bits, the last one first, in front of zeros. The speculative bits and a
whole history behind them have not been overwritten. -/
structure LongHistoryRegister.Holds (r : LongHistoryRegister) (historySize : ℕ) (bits : List Bool) : Prop where
  bit : ∀ i < historySize + r.numSpeculativeBits, r.bit i = bits.getD i false
  head : r.head = -(bits.length : ℤ)
  room : r.numSpeculativeBits ≤ r.maxNumSpeculativeBits
  size : r.maxNumSpeculativeBits + historySize = r.bufferSize

section Register

variable {r r' : LongHistoryRegister}

theorem le_two_pow_getMinNumBits (x : ℕ) : x ≤ 2 ^ getMinNumBitsToRepresent x := by
  have hloop : ∀ fuel numBits, x ≤ 2 ^ (numBits + fuel) → x ≤ 2 ^ minNumBits x fuel numBits := by
    intro fuel
    induction fuel with
    | zero =>
        intro numBits hx
        exact hx
    | succ fuel ih =>
        intro numBits hx
        rw [minNumBits]
        by_cases hle : x ≤ 2 ^ numBits
        · rw [if_pos hle]
          exact hle
        · rw [if_neg hle]
          apply ih
          rw [Nat.add_assoc, Nat.add_comm 1 fuel]
          exact hx
  apply hloop
  exact Nat.le_trans (Nat.le_of_lt Nat.lt_two_pow_self) (Nat.pow_le_pow_right (by decide) (Nat.le_add_left x 1))

theorem LongHistoryRegister.holds_init (historySize maxInFlightBranches : ℕ) :
    (LongHistoryRegister.init historySize maxInFlightBranches).Holds historySize [] where
  bit := fun _ _ => rfl
  head := rfl
  room := Nat.zero_le _
  size := by
    have hle := le_two_pow_getMinNumBits (historySize + maxInFlightBranches)
    simp only [LongHistoryRegister.init]
    omega

/-- Two places of the buffer that are less than its size apart. -/
theorem slot_ne (size : ℕ) (head : ℤ) {i : ℕ} (hpos : 0 < i) (hi : i < size) :
    ((head + i) % size).toNat ≠ (head % size).toNat := by
  have hsize : (0 : ℤ) < size := by omega
  intro heq
  have hmod : (head + i) % (size : ℤ) = head % size := by
    have h1 := Int.emod_nonneg (head + i) hsize.ne'
    have h2 := Int.emod_nonneg head hsize.ne'
    omega
  have hdvd : (size : ℤ) ∣ i := by
    have hzero := Int.emod_eq_emod_iff_emod_sub_eq_zero.mp hmod
    rw [show head + (i : ℤ) - head = i by omega] at hzero
    exact Int.dvd_of_emod_eq_zero hzero
  have hle := Int.le_of_dvd (by omega) hdvd
  omega

theorem LongHistoryRegister.Holds.pushBit (h : r.Holds historySize bits) (bit : Bool)
    (hroom : r.numSpeculativeBits < r.maxNumSpeculativeBits) :
    ∃ r', r.pushBit bit = .ok r' ∧ r'.Holds historySize (bit :: bits) ∧
      r'.numSpeculativeBits = r.numSpeculativeBits + 1 ∧ r'.maxNumSpeculativeBits = r.maxNumSpeculativeBits := by
  refine ⟨_, if_pos hroom, ⟨fun i hi => ?_, ?_, hroom, h.size⟩, rfl, rfl⟩
  · simp only [LongHistoryRegister.bit] at hi ⊢
    have hsize := h.size
    cases i with
    | zero => simp
    | succ i =>
        have hne : ((r.head - 1 + (i + 1 : ℕ)) % r.bufferSize).toNat ≠ ((r.head - 1) % r.bufferSize).toNat :=
          slot_ne _ _ (Nat.succ_pos i) (by omega)
        rw [Function.update_of_ne hne, List.getD_cons_succ, ← h.bit i (by omega)]
        simp only [LongHistoryRegister.bit]
        congr 3
        push_cast
        omega
  · show r.head - 1 = _
    rw [h.head, List.length_cons]
    push_cast
    omega

theorem LongHistoryRegister.Holds.rewind (h : r.Holds historySize (bit :: bits)) (hspec : 0 < r.numSpeculativeBits) :
    ∃ r', r.rewind 1 = .ok r' ∧ r'.Holds historySize bits ∧ r'.numSpeculativeBits + 1 = r.numSpeculativeBits ∧
      r'.maxNumSpeculativeBits = r.maxNumSpeculativeBits := by
  have hroom := h.room
  refine ⟨_, if_pos ⟨Nat.one_pos, hspec⟩, ⟨fun i hi => ?_, ?_, ?_, h.size⟩, ?_, rfl⟩
  · simp only at hi
    have hbit := h.bit (i + 1) (by omega)
    rw [List.getD_cons_succ] at hbit
    rw [← hbit]
    simp only [LongHistoryRegister.bit]
    congr 3
    push_cast
    omega
  · have hhead := h.head
    rw [List.length_cons] at hhead
    push_cast at hhead
    show r.head + ((1 : ℕ) : ℤ) = _
    push_cast
    omega
  · show r.numSpeculativeBits - 1 ≤ r.maxNumSpeculativeBits
    omega
  · show r.numSpeculativeBits - 1 + 1 = _
    omega

theorem LongHistoryRegister.Holds.retire (h : r.Holds historySize bits) (hpos : 0 < n) (hn : n ≤ r.numSpeculativeBits) :
    ∃ r', r.retire n = .ok r' ∧ r'.Holds historySize bits ∧ r'.numSpeculativeBits + n = r.numSpeculativeBits ∧
      r'.maxNumSpeculativeBits = r.maxNumSpeculativeBits := by
  have hroom := h.room
  refine ⟨_, if_pos ⟨hpos, hn⟩, ⟨fun i hi => ?_, h.head, ?_, h.size⟩, ?_, rfl⟩
  · simp only at hi
    exact h.bit i (by omega)
  · show r.numSpeculativeBits - n ≤ r.maxNumSpeculativeBits
    omega
  · show r.numSpeculativeBits - n + n = _
    omega

end Register

/-! ## The folded histories -/

/-- The folded history of the bits, the last one first. -/
def folded (length : ℕ × ℕ) : List Bool → FoldedHistory
  | [] => .init length.1 length.2
  | bit :: bits => (folded length bits).shiftIn bit ((bit :: bits).getD length.1 false)

section Folded

variable {length : ℕ × ℕ}

theorem folded_originalLength (length : ℕ × ℕ) (bits : List Bool) : (folded length bits).originalLength = length.1 := by
  induction bits with
  | nil => rfl
  | cons bit bits ih => exact ih

theorem folded_fits (hpos : 0 < length.2) (bits : List Bool) : (folded length bits).Fits := by
  induction bits with
  | nil => exact ⟨Nat.two_pow_pos _, hpos, Nat.mod_lt _ hpos⟩
  | cons bit bits ih => exact FoldedHistory.shiftIn_fits _ _ ih

/-- Folding in the bit that has just been pushed. -/
theorem folded_update {r : LongHistoryRegister} (h : r.Holds historySize (bit :: bits)) (hspec : 0 < r.numSpeculativeBits)
    (hlen : length.1 ≤ historySize) : FoldedHistory.update r (folded length bits) = folded length (bit :: bits) := by
  rw [FoldedHistory.update, folded_originalLength, h.bit 0 (by omega), h.bit length.1 (by omega)]
  rfl

/-- Folding out the bit that will be rewound. -/
theorem folded_updateReverse {r : LongHistoryRegister} (h : r.Holds historySize (bit :: bits))
    (hspec : 0 < r.numSpeculativeBits) (hlen : length.1 ≤ historySize) (hpos : 0 < length.2) :
    FoldedHistory.updateReverse r (folded length (bit :: bits)) = folded length bits := by
  rw [FoldedHistory.updateReverse, folded_originalLength, h.bit 0 (by omega), h.bit length.1 (by omega)]
  exact FoldedHistory.shiftOut_shiftIn _ _ (folded_fits hpos bits)

end Folded

/-! ## The histories of TAGE -/

/-- The lengths of the folded histories of one family. -/
def FoldedLengths (cfg : Config) (lengths : List (ℕ × ℕ)) : Prop :=
  ∀ length ∈ lengths, length.1 ≤ cfg.maxHistorySize ∧ 0 < length.2

theorem Config.foldedLengths {compressed : ℕ → ℕ} (hpos : ∀ i, 0 < compressed i) :
    FoldedLengths cfg (cfg.lengths compressed) := by
  intro length hmem
  obtain ⟨i, hi, rfl⟩ := List.mem_mapIdx.mp hmem
  exact ⟨cfg.historySizes_le _ (List.getElem_mem hi), hpos i⟩

theorem Config.tagBits_gt (cfg : Config) (i : ℕ) : 1 < cfg.tagBits i := by
  rw [Config.tagBits]
  by_cases h : 2 * i + 1 < cfg.firstLongHistoryTable
  · rw [if_pos h]
    exact cfg.shortHistoryTagBits_gt
  · rw [if_neg h]
    exact cfg.longHistoryTagBits_gt

theorem Config.indexLengths_folded (cfg : Config) : FoldedLengths cfg cfg.indexLengths :=
  cfg.foldedLengths fun _ => cfg.logEntriesPerBank_pos

theorem Config.tag0Lengths_folded (cfg : Config) : FoldedLengths cfg cfg.tag0Lengths :=
  cfg.foldedLengths fun i => Nat.lt_of_succ_lt (cfg.tagBits_gt i)

theorem Config.tag1Lengths_folded (cfg : Config) : FoldedLengths cfg cfg.tag1Lengths :=
  cfg.foldedLengths fun i => Nat.sub_pos_of_lt (cfg.tagBits_gt i)

/-- The register and what is folded of it hold the bits. -/
structure TageHistories.Holds (cfg : Config) (t : TageHistories) (bits : List Bool) : Prop where
  register : t.historyRegister.Holds cfg.maxHistorySize bits
  indices : t.foldedHistoriesForIndices = cfg.indexLengths.map (folded · bits)
  tags0 : t.foldedHistoriesForTags0 = cfg.tag0Lengths.map (folded · bits)
  tags1 : t.foldedHistoriesForTags1 = cfg.tag1Lengths.map (folded · bits)

/-- The bits in flight. -/
def TageHistories.speculative (t : TageHistories) : ℕ := t.historyRegister.numSpeculativeBits

/-- The bits that can be in flight. -/
def TageHistories.capacity (t : TageHistories) : ℕ := t.historyRegister.maxNumSpeculativeBits

variable {t t' : TageHistories}

theorem TageHistories.holds_init (cfg : Config) (maxInFlightBranches : ℕ) :
    (TageHistories.init cfg maxInFlightBranches).Holds cfg [] :=
  ⟨LongHistoryRegister.holds_init .., rfl, rfl, rfl⟩

theorem map_update {r : LongHistoryRegister} {lengths : List (ℕ × ℕ)} (hlengths : FoldedLengths cfg lengths)
    (h : r.Holds cfg.maxHistorySize (bit :: bits)) (hspec : 0 < r.numSpeculativeBits) :
    (lengths.map (folded · bits)).map (.update r) = lengths.map (folded · (bit :: bits)) := by
  rw [List.map_map]
  apply List.map_congr_left
  exact fun length hmem => folded_update h hspec (hlengths length hmem).1

theorem map_updateReverse {r : LongHistoryRegister} {lengths : List (ℕ × ℕ)} (hlengths : FoldedLengths cfg lengths)
    (h : r.Holds cfg.maxHistorySize (bit :: bits)) (hspec : 0 < r.numSpeculativeBits) :
    (lengths.map (folded · (bit :: bits))).map (.updateReverse r) = lengths.map (folded · bits) := by
  rw [List.map_map]
  apply List.map_congr_left
  exact fun length hmem => folded_updateReverse h hspec (hlengths length hmem).1 (hlengths length hmem).2

theorem TageHistories.Holds.pushBit (h : t.Holds cfg bits) (bit : Bool) (hroom : t.speculative < t.capacity) :
    ∃ t', t.pushBit bit = .ok t' ∧ t'.Holds cfg (bit :: bits) ∧ t'.speculative = t.speculative + 1 ∧
      t'.capacity = t.capacity := by
  obtain ⟨r, hpush, hr, hspec, hmax⟩ := h.register.pushBit bit hroom
  have hpos : 0 < r.numSpeculativeBits := by omega
  refine ⟨_, Execution.bind_eq_ok.mpr ⟨r, hpush, rfl⟩, ⟨hr, ?_, ?_, ?_⟩, hspec, hmax⟩
  · simp only [h.indices]
    exact map_update cfg.indexLengths_folded hr hpos
  · simp only [h.tags0]
    exact map_update cfg.tag0Lengths_folded hr hpos
  · simp only [h.tags1]
    exact map_update cfg.tag1Lengths_folded hr hpos

theorem TageHistories.Holds.pushBits (h : t.Holds cfg bits) (new : List Bool)
    (hroom : t.speculative + new.length ≤ t.capacity) :
    ∃ t', t.pushBits new = .ok t' ∧ t'.Holds cfg (new.reverse ++ bits) ∧ t'.speculative = t.speculative + new.length ∧
      t'.capacity = t.capacity := by
  induction new generalizing t bits with
  | nil => exact ⟨t, rfl, h, rfl, rfl⟩
  | cons bit new ih =>
      rw [List.length_cons] at hroom
      obtain ⟨t₁, hpush, ht₁, hspec, hcap⟩ := h.pushBit bit (by omega)
      obtain ⟨t₂, hrest, ht₂, hspec', hcap'⟩ := ih ht₁ (by omega)
      refine ⟨t₂, ?_, ?_, ?_, hcap'.trans hcap⟩
      · exact Execution.bind_eq_ok.mpr ⟨t₁, hpush, hrest⟩
      · rw [List.reverse_cons, List.append_assoc]
        exact ht₂
      · rw [List.length_cons]
        omega

/-- A bit is only pushed where there is room for it. -/
theorem TageHistories.pushBit_room (hpush : t.pushBit bit = .ok t') :
    t'.speculative = t.speculative + 1 ∧ t'.capacity = t.capacity ∧ t'.speculative ≤ t'.capacity := by
  obtain ⟨r, hr, heq⟩ := Execution.bind_eq_ok.mp hpush
  cases heq
  obtain ⟨hle, heq⟩ := Execution.ite_error_eq_ok.mp hr
  cases heq
  exact ⟨rfl, rfl, hle⟩

theorem TageHistories.pushBits_room (new : List Bool) (hroom : t.speculative ≤ t.capacity)
    (hpush : t.pushBits new = .ok t') : t.speculative + new.length ≤ t.capacity := by
  induction new generalizing t with
  | nil => exact hroom
  | cons bit new ih =>
      obtain ⟨t₁, hbit, hrest⟩ := Execution.bind_eq_ok.mp hpush
      obtain ⟨hspec, hcap, hle⟩ := TageHistories.pushBit_room hbit
      have hrec := ih hle hrest
      rw [List.length_cons]
      omega

theorem TageHistories.Holds.rewindBits (h : t.Holds cfg (extra ++ bits)) (hspec : extra.length ≤ t.speculative) :
    ∃ t', TageHistories.rewindBits extra.length t = .ok t' ∧ t'.Holds cfg bits ∧
      t'.speculative + extra.length = t.speculative ∧ t'.capacity = t.capacity := by
  induction extra generalizing t with
  | nil => exact ⟨t, rfl, h, rfl, rfl⟩
  | cons bit extra ih =>
      rw [List.length_cons] at hspec ⊢
      have hpos : 0 < t.historyRegister.numSpeculativeBits := Nat.lt_of_lt_of_le (Nat.succ_pos _) hspec
      obtain ⟨r, hrewind, hr, hspec', hmax⟩ := h.register.rewind hpos
      let t₁ : TageHistories := { t with
        historyRegister := r
        foldedHistoriesForIndices := t.foldedHistoriesForIndices.map (.updateReverse t.historyRegister)
        foldedHistoriesForTags0 := t.foldedHistoriesForTags0.map (.updateReverse t.historyRegister)
        foldedHistoriesForTags1 := t.foldedHistoriesForTags1.map (.updateReverse t.historyRegister) }
      have ht₁ : t₁.Holds cfg (extra ++ bits) := by
        refine ⟨hr, ?_, ?_, ?_⟩
        · simp only [t₁, h.indices]
          exact map_updateReverse cfg.indexLengths_folded h.register hpos
        · simp only [t₁, h.tags0]
          exact map_updateReverse cfg.tag0Lengths_folded h.register hpos
        · simp only [t₁, h.tags1]
          exact map_updateReverse cfg.tag1Lengths_folded h.register hpos
      have hspec₁ : t₁.speculative + 1 = t.speculative := hspec'
      obtain ⟨t₂, hrest, ht₂, hspec₂, hcap⟩ := ih ht₁ (by omega)
      exact ⟨t₂, Execution.bind_eq_ok.mpr ⟨r, hrewind, hrest⟩, ht₂, by omega, hcap.trans hmax⟩

end Scarab.Bp.Tagescl
