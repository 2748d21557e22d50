import Scarab.Lib.Bits
import Scarab.Prefetcher.TwoDc

/-! # The keys of the 2-delta correlation

Training hashes the newer delta of a zone first, the walk along the predicted deltas the older
one. -/

namespace Scarab.TwoDc

variable {γ : Type} (p : Params) (cache : DeltaCache γ)

/-- What a call of the training puts into the table: the deltas `delta1` and `delta2` up to the last
access were followed by `delta3`. -/
structure Record where
  lastAccess : Addr
  delta1 : CInt
  delta2 : CInt
  delta3 : CInt
  deriving DecidableEq, Repr

/-- The key that `pref_2dc_ul1_train` writes. -/
def Record.key (r : Record) : Addr := pref2dcHash p r.lastAccess r.delta2 r.delta1

/-- The key that the walk looks up. -/
def Walk.key (w : Walk) : Addr := pref2dcHash p w.lineIndex w.delta1 w.delta2

/-- The record of a call. -/
def Pref2dc.recorded (s : Pref2dc γ) (lineIndex : Addr) (ul1Hit : Bool) : Option Record :=
  let region := s.regions (regionOf p lineIndex)
  let delta := (lineIndex - s.lastAccess).setWidth 32
  let r : Record := ⟨s.lastAccess, region.deltaB, region.deltaA, delta⟩
  if s.lastAccess ≠ 0 ∧ delta ≠ 0 ∧ (region.deltaA ≠ 0 ∧ region.deltaB ≠ 0 ∧
      ¬ (region.deltaA = region.deltaB ∧ region.deltaB = delta)) ∧
      ((cache.access (r.key p) s.cache).1.isSome ∨ ul1Hit = false) then some r
  else none

/-- The bits of a delta that the first place of the hash takes. -/
def Params.bitsA (p : Params) : ℕ := p.cacheIndexBits / 2

/-- The bits of a delta that the second place of the hash takes. -/
def Params.bitsB (p : Params) : ℕ := p.cacheIndexBits - p.bitsA

/-- The high bits of two deltas, and the zone. -/
def tagOf (zone : Addr) (deltaA deltaB : CInt) : Addr :=
  (deltaA.sshiftRight p.bitsA ^^^ deltaB.sshiftRight p.bitsB).signExtend 64 ^^^ zone

/-- The low bits of the two deltas are the same, and so are the bits of the tags that fit into a word. -/
def KeysAgree (zone zone' : Addr) (delta1 delta2 : CInt) : Prop :=
  (∀ i < p.bitsB, delta1.getLsbD i = delta2.getLsbD i) ∧
    ∀ i < p.tagSize, i + p.cacheIndexBits < 32 →
      (tagOf p zone delta2 delta1).getLsbD i = (tagOf p zone' delta1 delta2).getLsbD i

/-! ## The bits of a key -/

variable {p cache} {w : Walk} {r : Record} {s s' : Pref2dc γ} {lineIndex loadPC : Addr} {ul1Hit : Bool}

theorem getLsbD_nBitMask {n i : ℕ} (hi : i < 64) : (nBitMask n).getLsbD i = decide (i < n) := by
  unfold nBitMask
  have hmask := Bits.one_shiftLeft_sub_one (w := 64) n
  change ((1#64) <<< n - 1#64) = _ at hmask
  rw [hmask, BitVec.getLsbD_ofNat, Nat.testBit_two_pow_sub_one]
  simp [hi]

theorem getLsbD_signExtend_low (x : CInt) {i : ℕ} (hi : i < 32) : (x.signExtend 64).getLsbD i = x.getLsbD i := by
  have hi' : i < 64 := by omega
  simp only [BitVec.getLsbD_signExtend, hi, hi', decide_true, Bool.true_and, if_true]

theorem pref2dcHash_eq (line : Addr) (deltaA deltaB : CInt) :
    pref2dcHash p line deltaA deltaB = (deltaA.signExtend 64 &&& nBitMask p.bitsA) |||
      ((deltaB.signExtend 64 &&& nBitMask p.bitsB) <<< p.bitsA) |||
      (((tagOf p (line >>> p.zoneShift) deltaA deltaB &&& nBitMask p.tagSize).setWidth 32) <<< p.cacheIndexBits).setWidth 64 :=
  rfl

/-- Where each bit of a key comes from. -/
theorem getLsbD_pref2dcHash (hbits : p.cacheIndexBits ≤ 29) (line : Addr) (deltaA deltaB : CInt) {i : ℕ} (hi : i < 64) :
    (pref2dcHash p line deltaA deltaB).getLsbD i =
      if i < p.bitsA then deltaA.getLsbD i
      else if i < p.cacheIndexBits then deltaB.getLsbD (i - p.bitsA)
      else decide (i < 32) && decide (i - p.cacheIndexBits < p.tagSize) &&
        (tagOf p (line >>> p.zoneShift) deltaA deltaB).getLsbD (i - p.cacheIndexBits) := by
  have hA : p.bitsA = p.cacheIndexBits / 2 := rfl
  have hB : p.bitsB = p.cacheIndexBits - p.bitsA := rfl
  rw [pref2dcHash_eq]
  generalize tagOf p (line >>> p.zoneShift) deltaA deltaB = tag
  simp only [BitVec.getLsbD_or, BitVec.getLsbD_and, BitVec.getLsbD_shiftLeft, BitVec.getLsbD_setWidth, hi,
    getLsbD_nBitMask hi, decide_true, Bool.true_and]
  by_cases hlowA : i < p.bitsA
  · have hlow : i < p.cacheIndexBits := by omega
    simp only [hlowA, hlow, getLsbD_signExtend_low deltaA (by omega : i < 32), decide_true, Bool.not_true, Bool.false_and,
      Bool.and_false, Bool.or_false, Bool.and_true, if_true]
  · by_cases hlow : i < p.cacheIndexBits
    · have hlowB : i - p.bitsA < p.bitsB := by omega
      simp only [hlowA, hlow, getLsbD_signExtend_low deltaB (by omega : i - p.bitsA < 32),
        getLsbD_nBitMask (by omega : i - p.bitsA < 64), hlowB, decide_true, decide_false, Bool.not_true, Bool.not_false,
        Bool.false_and, Bool.and_false, Bool.true_and, Bool.and_true, Bool.or_false, Bool.false_or, if_true, if_false]
    · have hlowB : ¬ i - p.bitsA < p.bitsB := by omega
      by_cases hword : i < 32
      · simp only [hlowA, hlow, getLsbD_nBitMask (by omega : i - p.bitsA < 64), hlowB, hword,
          getLsbD_nBitMask (by omega : i - p.cacheIndexBits < 64), (by omega : i - p.cacheIndexBits < 32), decide_true,
          decide_false, Bool.not_false, Bool.and_false, Bool.true_and, Bool.false_or, if_false]
        exact Bool.and_comm _ _
      · simp only [hlowA, hlow, getLsbD_nBitMask (by omega : i - p.bitsA < 64), hlowB, hword, decide_false, Bool.and_false,
          Bool.false_and, Bool.or_false, if_false]

/-- The keys are the same exactly when the bits that each place takes agree. -/
theorem pref2dcHash_swap_iff (hbits : p.cacheIndexBits ≤ 29) (line line' : Addr) (delta1 delta2 : CInt) :
    pref2dcHash p line' delta1 delta2 = pref2dcHash p line delta2 delta1 ↔
      KeysAgree p (line >>> p.zoneShift) (line' >>> p.zoneShift) delta1 delta2 := by
  have hA : p.bitsA = p.cacheIndexBits / 2 := rfl
  have hB : p.bitsB = p.cacheIndexBits - p.bitsA := rfl
  constructor
  · intro heq
    have hbit (i : ℕ) (hi : i < 64) := congrArg (fun key => key.getLsbD i) heq
    constructor
    · intro i hi
      have hat := hbit (i + p.bitsA) (by omega)
      rw [getLsbD_pref2dcHash hbits _ _ _ (by omega), getLsbD_pref2dcHash hbits _ _ _ (by omega),
        if_neg (by omega), if_pos (by omega), if_neg (by omega), if_pos (by omega), Nat.add_sub_cancel] at hat
      exact hat.symm
    · intro i hi hword
      have hat := hbit (i + p.cacheIndexBits) (by omega)
      rw [getLsbD_pref2dcHash hbits _ _ _ (by omega), getLsbD_pref2dcHash hbits _ _ _ (by omega),
        if_neg (by omega), if_neg (by omega), if_neg (by omega), if_neg (by omega), Nat.add_sub_cancel] at hat
      simpa [hi, hword] using hat.symm
  · rintro ⟨hlow, htag⟩
    apply BitVec.eq_of_getLsbD_eq
    intro i hi
    rw [getLsbD_pref2dcHash hbits _ _ _ hi, getLsbD_pref2dcHash hbits _ _ _ hi]
    by_cases hfirst : i < p.bitsA
    · rw [if_pos hfirst, if_pos hfirst]
      exact hlow i (by omega)
    · rw [if_neg hfirst, if_neg hfirst]
      by_cases hsecond : i < p.cacheIndexBits
      · rw [if_pos hsecond, if_pos hsecond]
        exact (hlow _ (by omega)).symm
      · rw [if_neg hsecond, if_neg hsecond]
        by_cases hkept : i < 32 ∧ i - p.cacheIndexBits < p.tagSize
        · rw [htag _ hkept.2 (by omega)]
        · cases not_and_or.mp hkept with
          | inl hword => simp [hword]
          | inr hsize => simp [hsize]

/-! ## Training and walk -/

/-- A record goes into the table under its key. -/
theorem learn_recorded (hrec : s.recorded p cache lineIndex ul1Hit = some r) :
    ∃ c s', s.learn p cache lineIndex loadPC ul1Hit = (true, s') ∧ s'.cache = cache.write (r.key p) r.delta3 c := by
  unfold Pref2dc.recorded at hrec
  dsimp only at hrec
  split at hrec
  · rename_i hwrites
    obtain ⟨hlast, hdelta, hdeltas, hmay⟩ := hwrites
    obtain rfl := Option.some.inj hrec
    unfold Pref2dc.learn Pref2dc.correlate
    simp only [if_pos hlast, if_neg hdelta, if_pos hdeltas]
    cases haccess : cache.access (pref2dcHash p s.lastAccess (s.regions (regionOf p lineIndex)).deltaA
        (s.regions (regionOf p lineIndex)).deltaB) s.cache with
    | mk found c =>
        cases found with
        | some delta => exact ⟨c, _, rfl, rfl⟩
        | none =>
            have hmiss : ul1Hit = false := by
              cases hmay with
              | inl hfound =>
                  unfold Record.key at hfound
                  rw [haccess] at hfound
                  exact absurd hfound (by simp)
              | inr hmiss => exact hmiss
            subst hmiss
            exact ⟨cache.insert _ c, _, rfl, rfl⟩
  · cases hrec

/-- A table without replacement. -/
def table : DeltaCache (Addr → Option CInt) where
  access a c := (c a, c)
  insert a c := Function.update c a (some 0)
  write a delta c := Function.update c a (some delta)

/-- The state after misses to lines, and the lines that were asked for. -/
def misses (lines : List Addr) : Pref2dc (Addr → Option CInt) × List Addr :=
  lines.foldl (fun (state : Pref2dc (Addr → Option CInt) × List Addr) (line : Addr) =>
    pref2dcUl1Miss .default table (fun req k => (true, k ++ [req.lineIndex])) 0 state.1 (line <<< 6) 0 state.2)
    (pref2dcInit 0 fun _ => none, [])

end Scarab.TwoDc
