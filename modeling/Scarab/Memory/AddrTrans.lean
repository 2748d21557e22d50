import Mathlib.Algebra.Group.Nat.Defs
import Mathlib.Data.List.Basic
import Scarab.Lib.Bits
import Scarab.Lib.Execution
import Scarab.Prefetcher.Types

/-! # Address translation

`addr_translate` of `addr_trans.c` scrambles the bits above the page offset, and keeps the bits that it scrambles in
place of the sign extension. A shift takes its count modulo the width of the word, as on x86-64. -/

namespace Scarab.AddrTrans

/-- `Addr_Translation`. -/
inductive AddrTranslation where
  | none
  | flip
  | random
  | preserveBlp
  | preserveStream
  deriving DecidableEq, Repr

/-- The knobs. -/
structure Config where
  addrTranslation : AddrTranslation
  vaPageSizeBytes : ℕ
  numAddrNonSignExtendBits : ℕ
  deriving DecidableEq, Repr

/-! ## Words -/

/-- `N_BIT_MASK`. -/
def nBitMask (n : ℕ) : Addr := (1 : Addr) <<< (n % 64) - 1

/-- `CMP_ADDR_MASK`. -/
def cmpAddrMask : Addr := (-1 : Addr) <<< 58

/-- `get_proc_id_from_cmp_addr`. -/
def getProcIdFromCmpAddr (addr : Addr) : Addr := addr >>> 58

/-- `convert_to_cmp_addr`. -/
def convertToCmpAddr (procId addr : Addr) : Addr :=
  (if addr &&& cmpAddrMask ≠ 0 then addr &&& ~~~cmpAddrMask else addr) ||| procId <<< 58

/-- `check_and_remove_addr_sign_extended_bits`. -/
def checkAndRemoveAddrSignExtendedBits (virtAddr : Addr) (numNonSignExtendedBits : ℕ) (verifyBitsMaskedOut : Bool) :
    Except String Addr :=
  let mask := cmpAddrMask ||| nBitMask numNonSignExtendedBits
  let bitsMaskedOut := virtAddr &&& ~~~mask
  if verifyBitsMaskedOut ∧ ¬ (bitsMaskedOut = 0 ∨ mask = ~~~bitsMaskedOut) then .error "all_0s_or_1s"
  else .ok (virtAddr &&& mask)

/-! ## The hash -/

/-- `get16bits`, of two bytes. -/
def get16bits (low high : Uns8) : Uns := high.setWidth 32 <<< 8 + low.setWidth 32

/-- The main loop of `hsieh_hash` and its end cases. -/
def hsiehMix : List Uns8 → Uns → Uns
  | a :: b :: c :: d :: data, hash =>
      let hash := hash + get16bits a b
      let tmp := get16bits c d <<< 11 ^^^ hash
      let hash := hash <<< 16 ^^^ tmp
      hsiehMix data (hash + hash >>> 11)
  | [a, b, c], hash =>
      let hash := hash + get16bits a b
      let hash := hash ^^^ hash <<< 16
      let hash := hash ^^^ c.signExtend 32 <<< 18
      hash + hash >>> 11
  | [a, b], hash =>
      let hash := hash + get16bits a b
      let hash := hash ^^^ hash <<< 11
      hash + hash >>> 17
  | [a], hash =>
      let hash := hash + a.signExtend 32
      let hash := hash ^^^ hash <<< 10
      hash + hash >>> 1
  | [], hash => hash

/-- `hsieh_hash`. -/
def hsiehHash (data : List Uns8) : Uns :=
  if data = [] then 0
  else
    let hash := hsiehMix data (BitVec.ofNat 32 data.length)
    let hash := hash ^^^ hash <<< 3
    let hash := hash + hash >>> 5
    let hash := hash ^^^ hash <<< 4
    let hash := hash + hash >>> 17
    let hash := hash ^^^ hash <<< 25
    hash + hash >>> 6

/-- The bytes of a word in memory. -/
def bytes (x : Addr) : List Uns8 := (List.range 8).map fun i => (x >>> (8 * i)).setWidth 8

/-! ## The translation -/

namespace Config

variable (cfg : Config)

/-- `num_page_offset_bits`. -/
def numPageOffsetBits : ℕ := Nat.log2 cfg.vaPageSizeBytes

/-- `num_bits_to_scramble`. -/
def numBitsToScramble : ℕ := 58 - cfg.numAddrNonSignExtendBits

def pageIndex (virtAddr : Addr) : Addr := virtAddr >>> cfg.numPageOffsetBits

def origBits (virtAddr : Addr) : Uns := (cfg.pageIndex virtAddr &&& nBitMask cfg.numBitsToScramble).setWidth 32

def hash (virtAddr : Addr) : Uns :=
  let pageIndex := cfg.pageIndex virtAddr
  match cfg.addrTranslation with
  | .flip => (pageIndex ^^^ nBitMask cfg.numBitsToScramble).setWidth 32
  | .none | .random => hsiehHash (bytes pageIndex)
  | .preserveBlp | .preserveStream => hsiehHash (bytes (pageIndex >>> cfg.numBitsToScramble))

/-- `scrambled_bits`. Of no bits at all the last one has the number that `uns` wraps to. -/
def scrambledBits (virtAddr : Addr) : Uns :=
  let scrambled := ((cfg.hash virtAddr).setWidth 64 &&& nBitMask cfg.numBitsToScramble).setWidth 32
  match cfg.addrTranslation with
  | .none | .flip | .random => scrambled
  | .preserveBlp => scrambled ^^^ cfg.origBits virtAddr
  | .preserveStream =>
      let last := (cfg.numBitsToScramble + (2 ^ 32 - 1)) % 2 ^ 32
      let topOrigBit := cfg.pageIndex virtAddr >>> (last % 64) &&& 1
      let cleared := (scrambled ^^^ cfg.origBits virtAddr) &&& ~~~((1 : Uns) <<< (last % 32))
      (cleared.setWidth 64 ||| topOrigBit <<< (last % 64)).setWidth 32

/-- `masked_page_index_with_scrambled_bits`. -/
def maskedPageIndexWithScrambledBits (virtAddr maskedVirtAddr : Addr) : Addr :=
  let origMaskedPageIndex := convertToCmpAddr 0 maskedVirtAddr >>> cfg.numPageOffsetBits
  (origMaskedPageIndex &&& ~~~nBitMask cfg.numBitsToScramble) ||| (cfg.scrambledBits virtAddr).setWidth 64

/-- `addr_translate`. -/
def addrTranslate (virtAddr : Addr) : Except String Addr :=
  if cfg.addrTranslation = .none then .ok virtAddr
  else do
    let procId := getProcIdFromCmpAddr virtAddr
    let pageOffset := virtAddr &&& nBitMask cfg.numPageOffsetBits
    let maskedVirtAddr ← checkAndRemoveAddrSignExtendedBits virtAddr cfg.numAddrNonSignExtendBits false
    let pageIndex := cfg.maskedPageIndexWithScrambledBits virtAddr maskedVirtAddr
    if pageIndex &&& ~~~nBitMask cfg.numAddrNonSignExtendBits ≠ 0 then
      .error "0 == (masked_page_index_with_scrambled_bits & ~N_BIT_MASK(NUM_ADDR_NON_SIGN_EXTEND_BITS))"
    else
      let newPhysAddr := (cfg.origBits virtAddr).setWidth 64 <<< cfg.numAddrNonSignExtendBits |||
        pageIndex <<< cfg.numPageOffsetBits ||| pageOffset
      return convertToCmpAddr procId newPhysAddr

/-- What `init_memory` checks, for pages of a power of two in an `uns`. -/
structure Accepted : Prop where
  vaPageSizeBytes_eq : cfg.vaPageSizeBytes = 2 ^ cfg.numPageOffsetBits
  vaPageSizeBytes_lt : cfg.vaPageSizeBytes < 2 ^ 32
  nonSignExtend_le : cfg.numAddrNonSignExtendBits ≤ 58
  numPageOffsetBits_le : cfg.numPageOffsetBits ≤ cfg.numAddrNonSignExtendBits

/-- The bits from the last one that counts up to the core id are the same. -/
def SignExtended (addr : Addr) : Prop := ∀ i, cfg.numAddrNonSignExtendBits - 1 ≤ i → i < 58 → addr.getLsbD i = addr.getLsbD 57

/-- The translation is one to one, and keeps the core id and the page offset. -/
structure Faithful : Prop where
  total : ∀ a, cfg.SignExtended a → ∃ p, cfg.addrTranslate a = .ok p ∧ p >>> 58 = a >>> 58 ∧
    p &&& nBitMask cfg.numPageOffsetBits = a &&& nBitMask cfg.numPageOffsetBits
  injective : ∀ a b, cfg.SignExtended a → cfg.SignExtended b → cfg.addrTranslate a = cfg.addrTranslate b → a = b

/-- The scrambled bits fit; and a hash of all the bits does not meet those that are kept, or there is nothing but the
sign to hide. -/
def Fits : Prop :=
  match cfg.addrTranslation with
  | .none => True
  | .flip | .preserveBlp | .preserveStream => 29 ≤ cfg.numAddrNonSignExtendBits
  | .random => 29 ≤ cfg.numAddrNonSignExtendBits ∧
      (58 + cfg.numPageOffsetBits ≤ 2 * cfg.numAddrNonSignExtendBits ∨
        cfg.numAddrNonSignExtendBits ≤ cfg.numPageOffsetBits + 1)

/-! ## Bits -/

variable {cfg} {a b : Addr} {i j : ℕ}

theorem getLsbD_nBitMask {n : ℕ} (hn : n < 64) (hi : i < 64) : (nBitMask n).getLsbD i = decide (i < n) := by
  rw [nBitMask, Nat.mod_eq_of_lt hn, Bits.one_shiftLeft_sub_one, BitVec.getLsbD_ofNat, Nat.testBit_two_pow_sub_one]
  simp only [hi, decide_true, Bool.true_and]

theorem getLsbD_cmpAddrMask (hi : i < 64) : cmpAddrMask.getLsbD i = decide (58 ≤ i) := by
  have hall : ∀ i < 64, cmpAddrMask.getLsbD i = decide (58 ≤ i) := by decide +kernel
  exact hall i hi

/-- The bits below the core id stay. -/
theorem getLsbD_convertToCmpAddr (procId addr : Addr) (hi : i < 64) :
    (convertToCmpAddr procId addr).getLsbD i = if i < 58 then addr.getLsbD i else procId.getLsbD (i - 58) := by
  have hmasked : (if addr &&& cmpAddrMask ≠ 0 then addr &&& ~~~cmpAddrMask else addr).getLsbD i =
      (addr.getLsbD i && decide (i < 58)) := by
    by_cases hlow : i < 58
    · have hnot : ¬ 58 ≤ i := by omega
      split
      · simp only [BitVec.getLsbD_and, BitVec.getLsbD_not, getLsbD_cmpAddrMask hi, hi, hlow, hnot, decide_true,
          decide_false, Bool.not_false, Bool.and_true]
      · simp only [hlow, decide_true, Bool.and_true]
    · have hhigh : 58 ≤ i := by omega
      split
      · simp only [BitVec.getLsbD_and, BitVec.getLsbD_not, getLsbD_cmpAddrMask hi, hi, hlow, hhigh, decide_true,
          decide_false, Bool.not_true, Bool.and_false]
      · next hzero =>
          have hbit := congrArg (BitVec.getLsbD · i) (Classical.not_not.mp hzero)
          simp only [BitVec.getLsbD_and, getLsbD_cmpAddrMask hi, hhigh, decide_true, Bool.and_true] at hbit
          simp only [hlow, decide_false, Bool.and_false, hbit]
          exact BitVec.getLsbD_zero
  rw [convertToCmpAddr, BitVec.getLsbD_or, hmasked, BitVec.getLsbD_shiftLeft]
  by_cases hlow : i < 58
  · simp only [hlow, hi, decide_true, Bool.and_true, Bool.not_true, Bool.and_false, Bool.false_and, Bool.or_false, if_true]
  · simp only [hlow, hi, decide_true, decide_false, Bool.and_false, Bool.not_false, Bool.true_and, Bool.false_or, if_false]

theorem getLsbD_pageIndex : (cfg.pageIndex a).getLsbD j = a.getLsbD (cfg.numPageOffsetBits + j) := by
  rw [pageIndex, BitVec.getLsbD_ushiftRight]

/-- The masks of an accepted configuration with at least 29 bits to keep: the scrambled bits fit in an `uns32`. -/
theorem scramble_le (hN : 29 ≤ cfg.numAddrNonSignExtendBits) : cfg.numBitsToScramble ≤ 29 := by
  rw [numBitsToScramble]
  omega

theorem getLsbD_origBits (hN : 29 ≤ cfg.numAddrNonSignExtendBits) :
    (cfg.origBits a).getLsbD j = (decide (j < cfg.numBitsToScramble) && a.getLsbD (cfg.numPageOffsetBits + j)) := by
  have hs := scramble_le hN
  rw [origBits, BitVec.getLsbD_setWidth, BitVec.getLsbD_and, getLsbD_pageIndex]
  by_cases hj : j < cfg.numBitsToScramble
  · rw [getLsbD_nBitMask (by omega) (by omega)]
    simp only [hj, (by omega : j < 32), decide_true, Bool.and_true, Bool.true_and]
  · by_cases hword : j < 32
    · rw [getLsbD_nBitMask (by omega) (by omega)]
      simp only [hj, decide_false, Bool.and_false, Bool.false_and]
    · simp only [hj, hword, decide_false, Bool.false_and]

/-- The masked hash. -/
theorem getLsbD_masked (hN : 29 ≤ cfg.numAddrNonSignExtendBits) (x : Uns) :
    ((x.setWidth 64 &&& nBitMask cfg.numBitsToScramble).setWidth 32).getLsbD j =
      (decide (j < cfg.numBitsToScramble) && x.getLsbD j) := by
  have hs := scramble_le hN
  rw [BitVec.getLsbD_setWidth, BitVec.getLsbD_and, BitVec.getLsbD_setWidth]
  by_cases hj : j < cfg.numBitsToScramble
  · rw [getLsbD_nBitMask (by omega) (by omega)]
    simp only [hj, (by omega : j < 32), (by omega : j < 64), decide_true, Bool.and_true, Bool.true_and]
  · by_cases hword : j < 32
    · rw [getLsbD_nBitMask (by omega) (by omega)]
      simp only [hj, decide_false, Bool.and_false, Bool.false_and]
    · simp only [hj, hword, decide_false, Bool.false_and]

theorem getLsbD_one_shiftLeft {w n : ℕ} (hn : n < w) : ((1 : BitVec w) <<< n).getLsbD j = decide (j = n) := by
  rw [BitVec.getLsbD_shiftLeft]
  change (decide (j < w) && !decide (j < n) && (1#w).getLsbD (j - n)) = _
  rw [BitVec.getLsbD_one]
  by_cases hj : j = n
  · subst hj
    simp [hn, Nat.zero_lt_of_lt hn]
  · by_cases hlow : j < n
    · simp [hj, hlow]
    · have hsub : ¬ j - n = 0 := by omega
      simp only [hj, hsub, decide_false, Bool.and_false]

/-- A bit that is cleared, and set to that of another word. -/
theorem getLsbD_replace (x : Uns) (y : Addr) {last : ℕ} (hlast : last < 32) :
    ((((x &&& ~~~((1 : Uns) <<< last)).setWidth 64 ||| (y >>> last &&& 1) <<< last).setWidth 32).getLsbD j) =
      if j = last then y.getLsbD j else x.getLsbD j := by
  have htop : ((y >>> last &&& 1) <<< last).getLsbD j = (decide (j = last) && y.getLsbD j) := by
    rw [BitVec.getLsbD_shiftLeft, BitVec.getLsbD_and, BitVec.getLsbD_ushiftRight]
    change (decide (j < 64) && !decide (j < last) && (y.getLsbD (last + (j - last)) && (1#64).getLsbD (j - last))) = _
    rw [BitVec.getLsbD_one]
    by_cases hj : j = last
    · subst hj
      simp [(by omega : j < 64)]
    · by_cases hlow : j < last
      · simp [hj, hlow]
      · have hsub : ¬ j - last = 0 := by omega
        simp only [hj, hsub, decide_false, Bool.and_false, Bool.false_and]
  rw [BitVec.getLsbD_setWidth, BitVec.getLsbD_or, htop, BitVec.getLsbD_setWidth, BitVec.getLsbD_and, BitVec.getLsbD_not,
    getLsbD_one_shiftLeft hlast]
  by_cases hword : j < 32
  · by_cases hj : j = last
    · simp [hj, hlast]
    · simp [hj, hword, (by omega : j < 64)]
  · have hne : ¬ j = last := by omega
    simp only [hword, if_neg hne, BitVec.getLsbD_of_ge x j (by omega), decide_false, Bool.false_and]

/-- A top bit that goes beyond the word. -/
theorem getLsbD_clear_high (x mask : Uns) {y : Addr} (hx : x.getLsbD j = false) :
    ((((x &&& mask).setWidth 64 ||| y <<< 63).setWidth 32).getLsbD j) = false := by
  rw [BitVec.getLsbD_setWidth, BitVec.getLsbD_or, BitVec.getLsbD_setWidth, BitVec.getLsbD_and, hx, BitVec.getLsbD_shiftLeft]
  by_cases hword : j < 32
  · simp [(by omega : j < 63)]
  · simp [hword]

/-- The scrambled bits of each translation. -/
def scrambledBit (cfg : Config) (addr : Addr) (j : ℕ) : Bool :=
  match cfg.addrTranslation with
  | .none | .random => (cfg.hash addr).getLsbD j
  | .flip => !addr.getLsbD (cfg.numPageOffsetBits + j)
  | .preserveBlp => (cfg.hash addr).getLsbD j ^^ addr.getLsbD (cfg.numPageOffsetBits + j)
  | .preserveStream =>
      if j + 1 = cfg.numBitsToScramble then addr.getLsbD (cfg.numPageOffsetBits + j)
      else (cfg.hash addr).getLsbD j ^^ addr.getLsbD (cfg.numPageOffsetBits + j)

theorem getLsbD_scrambledBits (hN : 29 ≤ cfg.numAddrNonSignExtendBits) :
    (cfg.scrambledBits a).getLsbD j = (decide (j < cfg.numBitsToScramble) && cfg.scrambledBit a j) := by
  have hs := scramble_le hN
  rw [scrambledBits, scrambledBit]
  cases hmode : cfg.addrTranslation with
  | none => exact getLsbD_masked hN _
  | random => exact getLsbD_masked hN _
  | flip =>
      refine (getLsbD_masked hN _).trans ?_
      by_cases hj : j < cfg.numBitsToScramble
      · rw [hash, hmode]
        simp only [BitVec.getLsbD_setWidth, BitVec.getLsbD_xor, getLsbD_pageIndex,
          getLsbD_nBitMask (by omega : cfg.numBitsToScramble < 64) (by omega : j < 64), hj, (by omega : j < 32), decide_true,
          Bool.true_and, Bool.xor_true]
      · simp only [hj, decide_false, Bool.false_and]
  | preserveBlp =>
      simp only [BitVec.getLsbD_xor, getLsbD_masked hN, getLsbD_origBits hN]
      cases decide (j < cfg.numBitsToScramble) <;> rfl
  | preserveStream =>
      have hbase : ((((cfg.hash a).setWidth 64 &&& nBitMask cfg.numBitsToScramble).setWidth 32 ^^^
          cfg.origBits a).getLsbD j) = (decide (j < cfg.numBitsToScramble) &&
            ((cfg.hash a).getLsbD j ^^ a.getLsbD (cfg.numPageOffsetBits + j))) := by
        rw [BitVec.getLsbD_xor, getLsbD_masked hN, getLsbD_origBits hN]
        cases decide (j < cfg.numBitsToScramble) <;> rfl
      rcases Nat.eq_zero_or_pos cfg.numBitsToScramble with hzero | hpos
      · have hlast : (cfg.numBitsToScramble + (2 ^ 32 - 1)) % 2 ^ 32 % 64 = 63 := by
          rw [hzero]
          decide
        have hnone : ¬ j < cfg.numBitsToScramble := by omega
        simp only [hnone, decide_false, Bool.false_and] at hbase
        simp only [hlast, hnone, decide_false, Bool.false_and]
        exact getLsbD_clear_high _ _ hbase
      · have hlast : (cfg.numBitsToScramble + (2 ^ 32 - 1)) % 2 ^ 32 = cfg.numBitsToScramble - 1 := by omega
        simp only [hlast, Nat.mod_eq_of_lt (by omega : cfg.numBitsToScramble - 1 < 64),
          Nat.mod_eq_of_lt (by omega : cfg.numBitsToScramble - 1 < 32)]
        rw [getLsbD_replace _ _ (by omega), hbase, getLsbD_pageIndex]
        by_cases htop : j = cfg.numBitsToScramble - 1
        · have hlt : j < cfg.numBitsToScramble := by omega
          have hsucc : j + 1 = cfg.numBitsToScramble := by omega
          simp only [if_pos htop, hlt, if_pos hsucc, decide_true, Bool.true_and]
        · have hsucc : ¬ j + 1 = cfg.numBitsToScramble := by omega
          simp only [if_neg htop, if_neg hsucc]

/-! ## The physical address -/

theorem getLsbD_maskedPageIndex (hacc : cfg.Accepted) (hN : 29 ≤ cfg.numAddrNonSignExtendBits) (hj : j < 64) :
    (cfg.maskedPageIndexWithScrambledBits a (a &&& (cmpAddrMask ||| nBitMask cfg.numAddrNonSignExtendBits))).getLsbD j =
      if j < cfg.numBitsToScramble then cfg.scrambledBit a j
      else decide (cfg.numPageOffsetBits + j < cfg.numAddrNonSignExtendBits) && a.getLsbD (cfg.numPageOffsetBits + j) := by
  have hs := scramble_le hN
  have hle := hacc.nonSignExtend_le
  simp only [maskedPageIndexWithScrambledBits, BitVec.getLsbD_or, BitVec.getLsbD_and, BitVec.getLsbD_not,
    BitVec.getLsbD_ushiftRight, BitVec.getLsbD_setWidth, getLsbD_scrambledBits hN,
    getLsbD_nBitMask (by omega : cfg.numBitsToScramble < 64) hj, hj, decide_true, Bool.true_and]
  by_cases hlow : j < cfg.numBitsToScramble
  · simp only [hlow, decide_true, Bool.not_true, Bool.and_false, Bool.false_or, Bool.true_and, if_true]
  · simp only [hlow, decide_false, Bool.not_false, Bool.and_true, Bool.false_and, Bool.or_false, if_false]
    by_cases hword : cfg.numPageOffsetBits + j < 64
    · rw [getLsbD_convertToCmpAddr _ _ hword]
      by_cases hcore : cfg.numPageOffsetBits + j < 58
      · rw [if_pos hcore, BitVec.getLsbD_and, BitVec.getLsbD_or, getLsbD_cmpAddrMask hword, getLsbD_nBitMask (by omega) hword]
        have hbelow : ¬ 58 ≤ cfg.numPageOffsetBits + j := by omega
        rw [decide_eq_false hbelow, Bool.false_or, Bool.and_comm]
      · have hout : ¬ cfg.numPageOffsetBits + j < cfg.numAddrNonSignExtendBits := by omega
        rw [if_neg hcore, decide_eq_false hout, Bool.false_and]
        exact BitVec.getLsbD_zero
    · rw [BitVec.getLsbD_of_ge _ _ (by omega), BitVec.getLsbD_of_ge a _ (by omega), Bool.and_false]

/-- The physical address. -/
def physAddr (cfg : Config) (virtAddr : Addr) : Addr :=
  convertToCmpAddr (getProcIdFromCmpAddr virtAddr) ((cfg.origBits virtAddr).setWidth 64 <<< cfg.numAddrNonSignExtendBits |||
    cfg.maskedPageIndexWithScrambledBits virtAddr
      (virtAddr &&& (cmpAddrMask ||| nBitMask cfg.numAddrNonSignExtendBits)) <<< cfg.numPageOffsetBits |||
    virtAddr &&& nBitMask cfg.numPageOffsetBits)

/-- With at least 29 bits to keep, the assertion holds. -/
theorem addrTranslate_eq (hacc : cfg.Accepted) (hN : 29 ≤ cfg.numAddrNonSignExtendBits)
    (hmode : cfg.addrTranslation ≠ .none) (a : Addr) : cfg.addrTranslate a = .ok (cfg.physAddr a) := by
  have hle := hacc.nonSignExtend_le
  have hs := scramble_le hN
  have hfits : cfg.maskedPageIndexWithScrambledBits a (a &&& (cmpAddrMask ||| nBitMask cfg.numAddrNonSignExtendBits)) &&&
      ~~~nBitMask cfg.numAddrNonSignExtendBits = 0 := by
    apply BitVec.eq_of_getLsbD_eq
    intro j hj
    rw [BitVec.getLsbD_and, BitVec.getLsbD_not, getLsbD_nBitMask (by omega) hj, getLsbD_maskedPageIndex hacc hN hj]
    by_cases hbit : j < cfg.numAddrNonSignExtendBits
    · simp [hbit]
    · have hhigh : ¬ j < cfg.numBitsToScramble := by omega
      have hout : ¬ cfg.numPageOffsetBits + j < cfg.numAddrNonSignExtendBits := by omega
      simp [hhigh, hout]
  rw [addrTranslate, if_neg hmode]
  simp only [checkAndRemoveAddrSignExtendedBits, Bool.false_eq_true, false_and, if_false, bind, Except.bind, hfits, ne_eq,
    not_true_eq_false]
  rfl

/-- Where each bit of a physical address comes from. -/
theorem getLsbD_physAddr (hacc : cfg.Accepted) (hN : 29 ≤ cfg.numAddrNonSignExtendBits) (hi : i < 64) :
    (cfg.physAddr a).getLsbD i =
      if i < cfg.numPageOffsetBits ∨ 58 ≤ i then a.getLsbD i
      else decide (cfg.numAddrNonSignExtendBits ≤ i) &&
          a.getLsbD (cfg.numPageOffsetBits + (i - cfg.numAddrNonSignExtendBits)) ||
        (if i - cfg.numPageOffsetBits < cfg.numBitsToScramble then cfg.scrambledBit a (i - cfg.numPageOffsetBits)
        else decide (i < cfg.numAddrNonSignExtendBits) && a.getLsbD i) := by
  have hle := hacc.nonSignExtend_le
  have hoffset := hacc.numPageOffsetBits_le
  have hs : cfg.numBitsToScramble = 58 - cfg.numAddrNonSignExtendBits := rfl
  rw [physAddr, getLsbD_convertToCmpAddr _ _ hi]
  by_cases hcore : i < 58
  · rw [if_pos hcore, BitVec.getLsbD_or, BitVec.getLsbD_or, BitVec.getLsbD_shiftLeft, BitVec.getLsbD_shiftLeft,
      BitVec.getLsbD_and, getLsbD_nBitMask (by omega) hi, BitVec.getLsbD_setWidth, getLsbD_origBits hN,
      getLsbD_maskedPageIndex hacc hN (by omega)]
    by_cases hlow : i < cfg.numPageOffsetBits
    · have hkept : i < cfg.numAddrNonSignExtendBits := by omega
      rw [if_pos (show i < cfg.numPageOffsetBits ∨ 58 ≤ i from .inl hlow)]
      simp [hlow, hkept]
    · rw [if_neg (show ¬ (i < cfg.numPageOffsetBits ∨ 58 ≤ i) by omega)]
      by_cases hkept : i < cfg.numAddrNonSignExtendBits
      · have hback : cfg.numPageOffsetBits + (i - cfg.numPageOffsetBits) = i := by omega
        have hnot : decide (cfg.numAddrNonSignExtendBits ≤ i) = false := decide_eq_false (by omega)
        simp [hlow, hkept, hi, hback, hnot]
      · have hback : cfg.numPageOffsetBits + (i - cfg.numPageOffsetBits) = i := by omega
        have hbit : i - cfg.numAddrNonSignExtendBits < cfg.numBitsToScramble := by omega
        simp [hlow, hkept, hi, hback, hbit, (by omega : cfg.numAddrNonSignExtendBits ≤ i),
          (by omega : i - cfg.numAddrNonSignExtendBits < 64)]
  · rw [if_neg hcore, if_pos (show i < cfg.numPageOffsetBits ∨ 58 ≤ i by omega), getProcIdFromCmpAddr, BitVec.getLsbD_ushiftRight]
    congr 1
    omega

/-! ## What a physical address gives back -/

theorem toNat_shift_eq {p q : Addr} (h : ∀ i, 58 ≤ i → i < 64 → p.getLsbD i = q.getLsbD i) : p >>> 58 = q >>> 58 := by
  apply BitVec.eq_of_getLsbD_eq
  intro j hj
  rw [BitVec.getLsbD_ushiftRight, BitVec.getLsbD_ushiftRight]
  by_cases hin : 58 + j < 64
  · exact h _ (by omega) hin
  · rw [BitVec.getLsbD_of_ge _ _ (by omega), BitVec.getLsbD_of_ge q _ (by omega)]

theorem Accepted.offset_lt (hacc : cfg.Accepted) : cfg.numPageOffsetBits < 32 := by
  have hlt := hacc.vaPageSizeBytes_lt
  rw [hacc.vaPageSizeBytes_eq] at hlt
  exact (Nat.pow_lt_pow_iff_right (by decide)).mp hlt

theorem physAddr_keeps (hacc : cfg.Accepted) (hN : 29 ≤ cfg.numAddrNonSignExtendBits) (a : Addr) :
    cfg.physAddr a >>> 58 = a >>> 58 ∧
      cfg.physAddr a &&& nBitMask cfg.numPageOffsetBits = a &&& nBitMask cfg.numPageOffsetBits := by
  constructor
  · refine toNat_shift_eq fun i hcore hi => ?_
    rw [getLsbD_physAddr hacc hN hi, if_pos (.inr hcore)]
  · apply BitVec.eq_of_getLsbD_eq
    intro i hi
    have hoffset := hacc.offset_lt
    rw [BitVec.getLsbD_and, BitVec.getLsbD_and, getLsbD_nBitMask (by omega) hi, getLsbD_physAddr hacc hN hi]
    by_cases hlow : i < cfg.numPageOffsetBits
    · rw [if_pos (.inl hlow)]
    · rw [decide_eq_false hlow, Bool.and_false, Bool.and_false]

/-- Two addresses with the same page offset, core and bits up to the sign. -/
theorem eq_of_bits (ha : cfg.SignExtended a) (hb : cfg.SignExtended b)
    (hkept : ∀ i < cfg.numAddrNonSignExtendBits, i < 58 → a.getLsbD i = b.getLsbD i)
    (hcore : ∀ i, 58 ≤ i → i < 64 → a.getLsbD i = b.getLsbD i) (hN : 29 ≤ cfg.numAddrNonSignExtendBits)
    (hle : cfg.numAddrNonSignExtendBits ≤ 58) : a = b := by
  apply BitVec.eq_of_getLsbD_eq
  intro i hi
  by_cases hhigh : 58 ≤ i
  · exact hcore i hhigh hi
  · by_cases hlow : i < cfg.numAddrNonSignExtendBits
    · exact hkept i hlow (by omega)
    · -- the sign is the last bit that counts
      rw [ha i (by omega) (by omega), hb i (by omega) (by omega), ← ha (cfg.numAddrNonSignExtendBits - 1) (by omega) (by omega),
        ← hb (cfg.numAddrNonSignExtendBits - 1) (by omega) (by omega)]
      exact hkept _ (by omega) (by omega)

section

variable (hacc : cfg.Accepted) (hN : 29 ≤ cfg.numAddrNonSignExtendBits) (ha : cfg.SignExtended a) (hb : cfg.SignExtended b)
  (h : cfg.physAddr a = cfg.physAddr b)

include hacc hN h

/-- The page offset and the core. -/
theorem outer_eq (hi : i < 64) (houter : i < cfg.numPageOffsetBits ∨ 58 ≤ i) : a.getLsbD i = b.getLsbD i := by
  have hbit := congrArg (BitVec.getLsbD · i) h
  simp only [getLsbD_physAddr hacc hN hi, if_pos houter] at hbit
  exact hbit

/-- A bit between the page offset and the bits that are kept elsewhere. -/
theorem inner_eq (hlow : cfg.numPageOffsetBits ≤ i) (hkept : i < cfg.numAddrNonSignExtendBits) :
    (if i - cfg.numPageOffsetBits < cfg.numBitsToScramble then cfg.scrambledBit a (i - cfg.numPageOffsetBits)
      else a.getLsbD i) =
    if i - cfg.numPageOffsetBits < cfg.numBitsToScramble then cfg.scrambledBit b (i - cfg.numPageOffsetBits)
      else b.getLsbD i := by
  have hle := hacc.nonSignExtend_le
  have hbit := congrArg (BitVec.getLsbD · i) h
  have hinner : ¬ (i < cfg.numPageOffsetBits ∨ 58 ≤ i) := by omega
  have hnot : decide (cfg.numAddrNonSignExtendBits ≤ i) = false := decide_eq_false (by omega)
  simpa only [getLsbD_physAddr hacc hN (by omega : i < 64), if_neg hinner, hnot, Bool.false_and, Bool.false_or, hkept,
    decide_true, Bool.true_and] using hbit

/-- A bit that is kept in place of the sign extension, where no scrambled bit meets it. -/
theorem kept_eq (hlow : cfg.numPageOffsetBits ≤ i) (hscrambled : i < cfg.numPageOffsetBits + cfg.numBitsToScramble)
    (hclear : 58 + 2 * cfg.numPageOffsetBits ≤ 2 * cfg.numAddrNonSignExtendBits + i) : a.getLsbD i = b.getLsbD i := by
  have hle := hacc.nonSignExtend_le
  have hoffset := hacc.numPageOffsetBits_le
  have hs : cfg.numBitsToScramble = 58 - cfg.numAddrNonSignExtendBits := rfl
  have hbit := congrArg (BitVec.getLsbD · (cfg.numAddrNonSignExtendBits + (i - cfg.numPageOffsetBits))) h
  have hinner : ¬ (cfg.numAddrNonSignExtendBits + (i - cfg.numPageOffsetBits) < cfg.numPageOffsetBits ∨
      58 ≤ cfg.numAddrNonSignExtendBits + (i - cfg.numPageOffsetBits)) := by omega
  have hplain : ¬ cfg.numAddrNonSignExtendBits + (i - cfg.numPageOffsetBits) - cfg.numPageOffsetBits <
      cfg.numBitsToScramble := by omega
  have hnot : ¬ cfg.numAddrNonSignExtendBits + (i - cfg.numPageOffsetBits) < cfg.numAddrNonSignExtendBits := by omega
  have hback : cfg.numPageOffsetBits + (i - cfg.numPageOffsetBits) = i := by omega
  simpa only [getLsbD_physAddr hacc hN
      (by omega : cfg.numAddrNonSignExtendBits + (i - cfg.numPageOffsetBits) < 64), if_neg hinner, if_neg hplain,
    decide_eq_false hnot, Nat.le_add_right, decide_true, Bool.true_and, Bool.false_and, Bool.or_false,
    Nat.add_sub_cancel_left, hback] using hbit

include ha hb

/-- Where the scrambled bits do not reach those that are kept, all bits come back. -/
theorem eq_of_apart (hapart : 58 + cfg.numPageOffsetBits ≤ 2 * cfg.numAddrNonSignExtendBits) : a = b := by
  refine eq_of_bits ha hb (fun i hkept hi => ?_) (fun i hcore hi => outer_eq hacc hN h hi (.inr hcore)) hN hacc.nonSignExtend_le
  by_cases hlow : i < cfg.numPageOffsetBits
  · exact outer_eq hacc hN h (by omega) (.inl hlow)
  · by_cases hscrambled : i < cfg.numPageOffsetBits + cfg.numBitsToScramble
    · exact kept_eq hacc hN h (Nat.le_of_not_lt hlow) hscrambled (by omega)
    · have hplain : ¬ i - cfg.numPageOffsetBits < cfg.numBitsToScramble := by omega
      have hinner := inner_eq hacc hN h (Nat.le_of_not_lt hlow) hkept
      rwa [if_neg hplain, if_neg hplain] at hinner

/-- Where they do, the sign still comes back, if it is not part of the page offset. -/
theorem sign_eq (hmeet : 2 * cfg.numAddrNonSignExtendBits < 58 + cfg.numPageOffsetBits)
    (hbits : cfg.numPageOffsetBits < cfg.numAddrNonSignExtendBits) (hsign : cfg.numAddrNonSignExtendBits - 1 ≤ i) (hi : i < 58) :
    a.getLsbD i = b.getLsbD i := by
  have hle := hacc.nonSignExtend_le
  have hs : cfg.numBitsToScramble = 58 - cfg.numAddrNonSignExtendBits := rfl
  have hlast : cfg.numAddrNonSignExtendBits - 1 ≤ cfg.numPageOffsetBits + cfg.numBitsToScramble - 1 := by omega
  have hin : cfg.numPageOffsetBits + cfg.numBitsToScramble - 1 < 58 := by omega
  have hkept : a.getLsbD (cfg.numPageOffsetBits + cfg.numBitsToScramble - 1) =
      b.getLsbD (cfg.numPageOffsetBits + cfg.numBitsToScramble - 1) :=
    kept_eq hacc hN h (by omega) (by omega) (by omega)
  rw [ha i hsign hi, hb i hsign hi, ← ha _ hlast hin, ← hb _ hlast hin, hkept]

/-- Then the other bits come back if the scrambled ones determine them. -/
theorem eq_of_scrambled (hmeet : 2 * cfg.numAddrNonSignExtendBits < 58 + cfg.numPageOffsetBits)
    (hscrambled : ∀ i, cfg.numPageOffsetBits ≤ i → i + 1 < cfg.numAddrNonSignExtendBits →
      cfg.scrambledBit a (i - cfg.numPageOffsetBits) = cfg.scrambledBit b (i - cfg.numPageOffsetBits) →
        a.getLsbD i = b.getLsbD i) : a = b := by
  have hle := hacc.nonSignExtend_le
  have hs : cfg.numBitsToScramble = 58 - cfg.numAddrNonSignExtendBits := rfl
  refine eq_of_bits ha hb (fun i hkept hi => ?_) (fun i hcore hi => outer_eq hacc hN h hi (.inr hcore)) hN hle
  by_cases hlow : i < cfg.numPageOffsetBits
  · exact outer_eq hacc hN h (by omega) (.inl hlow)
  · by_cases hlast : i + 1 = cfg.numAddrNonSignExtendBits
    · exact sign_eq hacc hN ha hb h hmeet (by omega) (by omega) hi
    · have hin : i - cfg.numPageOffsetBits < cfg.numBitsToScramble := by omega
      have hinner := inner_eq hacc hN h (Nat.le_of_not_lt hlow) hkept
      rw [if_pos hin, if_pos hin] at hinner
      exact hscrambled i (Nat.le_of_not_lt hlow) (by omega) hinner

/-- The two hashes that leave out the original bits see the same. -/
theorem pageIndex_shift_eq (hmeet : 2 * cfg.numAddrNonSignExtendBits < 58 + cfg.numPageOffsetBits)
    (hbits : cfg.numPageOffsetBits < cfg.numAddrNonSignExtendBits) :
    cfg.pageIndex a >>> cfg.numBitsToScramble = cfg.pageIndex b >>> cfg.numBitsToScramble := by
  have hle := hacc.nonSignExtend_le
  have hs : cfg.numBitsToScramble = 58 - cfg.numAddrNonSignExtendBits := rfl
  apply BitVec.eq_of_getLsbD_eq
  intro j hj
  rw [BitVec.getLsbD_ushiftRight, BitVec.getLsbD_ushiftRight, getLsbD_pageIndex, getLsbD_pageIndex]
  by_cases hcore : cfg.numPageOffsetBits + (cfg.numBitsToScramble + j) < 58
  · exact sign_eq hacc hN ha hb h hmeet hbits (by omega) hcore
  · by_cases hin : cfg.numPageOffsetBits + (cfg.numBitsToScramble + j) < 64
    · exact outer_eq hacc hN h hin (.inr (by omega))
    · rw [BitVec.getLsbD_of_ge _ _ (by omega), BitVec.getLsbD_of_ge b _ (by omega)]

end

theorem Fits.kept_ge (hfits : cfg.Fits) (hmode : cfg.addrTranslation ≠ .none) : 29 ≤ cfg.numAddrNonSignExtendBits := by
  rw [Fits] at hfits
  cases hcase : cfg.addrTranslation with
  | none => exact absurd hcase hmode
  | flip =>
      rw [hcase] at hfits
      exact hfits
  | random =>
      rw [hcase] at hfits
      exact hfits.1
  | preserveBlp =>
      rw [hcase] at hfits
      exact hfits
  | preserveStream =>
      rw [hcase] at hfits
      exact hfits

/-- Where the configuration fits, no two addresses get the same physical address. -/
theorem physAddr_injective (hacc : cfg.Accepted) (hmode : cfg.addrTranslation ≠ .none) (hfits : cfg.Fits)
    (ha : cfg.SignExtended a) (hb : cfg.SignExtended b) (h : cfg.physAddr a = cfg.physAddr b) : a = b := by
  have hN := hfits.kept_ge hmode
  by_cases hapart : 58 + cfg.numPageOffsetBits ≤ 2 * cfg.numAddrNonSignExtendBits
  · exact eq_of_apart hacc hN ha hb h hapart
  · have hmeet : 2 * cfg.numAddrNonSignExtendBits < 58 + cfg.numPageOffsetBits := Nat.lt_of_not_le hapart
    refine eq_of_scrambled hacc hN ha hb h hmeet fun i hlow hkept hscrambled => ?_
    have hback : cfg.numPageOffsetBits + (i - cfg.numPageOffsetBits) = i := by omega
    have hindex := pageIndex_shift_eq hacc hN ha hb h hmeet (by omega)
    simp only [scrambledBit, hash, hback] at hscrambled
    cases hcase : cfg.addrTranslation with
    | none => exact absurd hcase hmode
    | flip =>
        simp only [hcase, Bool.not_inj_iff] at hscrambled
        exact hscrambled
    | random =>
        rw [Fits, hcase] at hfits
        omega
    | preserveBlp =>
        simp only [hcase, hindex, Bool.bne_right_inj] at hscrambled
        exact hscrambled
    | preserveStream =>
        simp only [hcase, hindex] at hscrambled
        split at hscrambled
        · exact hscrambled
        · simpa using hscrambled

end Config

end Scarab.AddrTrans
