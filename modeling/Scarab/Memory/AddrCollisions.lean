import Scarab.Memory.AddrTrans

/-! # Where the translation is one to one

With fewer than 29 bits to keep the scrambled bits do not fit. With more they may meet the original bits that are kept;
then `RANDOM`, whose hash says nothing about these, maps pages to one frame. -/

namespace Scarab.AddrTrans

namespace Config

variable {cfg : Config} {a : Addr} {j : ℕ}

/-- The address of a page: the core, and the bits between page offset and sign extension. -/
def pageAddr (pageBits kept core page : ℕ) : Addr :=
  (BitVec.ofNat 6 core ++ (BitVec.ofNat kept (page * 2 ^ pageBits)).signExtend 58 : BitVec (6 + 58))

/-- For each number of kept bits from 29 on, and each page size with which the hash meets them, two pages of a core that
get the same frame. -/
def collisions : List (List (ℕ × ℕ × ℕ)) := [
  [(10, 22561612, 22561613), (2, 78566577, 78566579), (1, 29779088, 29779090), (0, 22647116, 22647119),
   (1, 7845366, 7845367), (0, 1432629, 1432630), (0, 346511, 346555), (0, 200501, 200687), (0, 568395, 568775),
   (0, 136401, 137119), (0, 62527, 62911), (0, 5113, 6067), (0, 2549, 6376), (0, 3279, 11375), (0, 755, 5089),
   (0, 6425, 6452), (0, 2194, 3610), (0, 1268, 1956), (1, 630, 694), (0, 290, 441), (1, 164, 173), (0, 112, 114),
   (0, 39, 51), (2, 23, 27), (5, 11, 14), (0, 6, 7), (1, 2, 3)],
  [(4, 122066078, 122066079), (2, 29779088, 29779090), (0, 1432629, 1432630), (2, 7845366, 7845367),
   (0, 1432629, 1432630), (0, 346511, 346555), (0, 939943, 940019), (0, 308346, 308427), (0, 238406, 238431),
   (0, 27056, 27608), (0, 5113, 6067), (0, 3921, 4092), (0, 498, 6262), (0, 755, 5089), (0, 4879, 5099),
   (0, 3642, 3759), (0, 1348, 1391), (0, 557, 620), (0, 358, 436), (0, 153, 241), (0, 92, 112), (1, 39, 51),
   (2, 16, 26), (4, 12, 15), (1, 6, 7), (3, 2, 3)],
  [(1, 7845366, 7845367), (0, 1432629, 1432630), (3, 11067861, 11067862), (0, 1432629, 1432630), (0, 2268118, 2268125),
   (1, 598239, 598261), (0, 41295, 41326), (0, 238406, 238431), (0, 62527, 62911), (0, 19895, 20254), (0, 3921, 4092),
   (0, 8980, 10127), (0, 3239, 3495), (0, 4815, 7839), (0, 2292, 3046), (0, 1467, 1983), (0, 582, 694), (0, 335, 507),
   (0, 219, 227), (0, 67, 77), (2, 33, 51), (5, 16, 26), (4, 12, 13), (3, 6, 7), (7, 2, 3)],
  [(1, 32567272, 32567273), (3, 8864250, 8864251), (0, 1432629, 1432630), (0, 911041, 911049), (0, 1475229, 1475231),
   (0, 41295, 41326), (0, 153869, 153935), (0, 179828, 179836), (0, 29750, 29990), (0, 805, 949), (0, 8980, 10127),
   (0, 1275, 1449), (0, 6384, 7001), (0, 2617, 2843), (0, 1208, 1322), (0, 921, 929), (0, 431, 488), (0, 232, 249),
   (0, 92, 126), (4, 47, 51), (2, 17, 25), (2, 10, 11), (2, 5, 7), (15, 2, 3)],
  [(3, 1993996, 1993997), (0, 1432629, 1432630), (0, 1432629, 1432630), (0, 1859198, 1859199), (1, 556567, 556568),
   (0, 238406, 238431), (0, 133305, 133335), (0, 7836, 7903), (0, 805, 949), (0, 16878, 17388), (0, 1275, 1449),
   (0, 559, 3891), (0, 3882, 3883), (0, 1469, 1578), (0, 833, 875), (0, 299, 302), (0, 217, 220), (1, 92, 126),
   (0, 59, 63), (5, 17, 25), (5, 10, 11), (5, 5, 7), (20, 2, 3)],
  [(2, 8102128, 8102129), (0, 1432629, 1432630), (1, 742507, 742509), (2, 672677, 672687), (0, 238406, 238431),
   (1, 29448, 29456), (0, 7836, 7903), (0, 805, 949), (0, 17438, 17727), (0, 805, 949), (0, 5663, 6061),
   (0, 275, 1429), (0, 1127, 1663), (1, 312, 495), (0, 353, 366), (1, 217, 220), (0, 123, 127), (1, 59, 63),
   (11, 17, 25), (0, 11, 15), (2, 5, 7)],
  [(1, 2789570, 2789571), (1, 617668, 617671), (1, 12657, 12662), (0, 120992, 120997), (0, 256929, 256933),
   (1, 13405, 13411), (1, 20652, 20700), (0, 7355, 7423), (0, 805, 949), (0, 4955, 5061), (0, 275, 1429),
   (0, 1130, 1733), (0, 713, 755), (0, 303, 338), (0, 251, 255), (1, 123, 127), (0, 49, 60), (4, 22, 30), (1, 11, 15)],
  [(7, 1859198, 1859199), (2, 269081, 269082), (0, 120992, 120997), (1, 256929, 256933), (3, 24932, 24948),
   (0, 38977, 39020), (0, 7355, 7423), (0, 805, 949), (0, 7855, 8163), (0, 1118, 1967), (0, 1134, 1639), (0, 754, 959),
   (1, 303, 338), (1, 251, 255), (0, 106, 109), (1, 49, 60), (0, 26, 29)],
  [(9, 934046, 934047), (0, 420584, 420587), (3, 256929, 256933), (0, 71435, 71439), (0, 54729, 54735),
   (0, 16812, 16823), (0, 7355, 7423), (0, 77, 214), (0, 2292, 2420), (0, 805, 949), (0, 747, 829), (0, 393, 477),
   (2, 206, 250), (0, 100, 101), (3, 49, 60)],
  [(5, 104202, 104203), (1, 56832, 56835), (1, 43836, 43837), (0, 61339, 61343), (1, 598, 604), (0, 9135, 9151),
   (0, 6553, 6563), (0, 1220, 1254), (0, 303, 443), (0, 669, 1019), (0, 361, 490), (2, 164, 172), (0, 89, 93)],
  [(1, 105408, 105409), (1, 13505, 13507), (0, 38144, 38146), (2, 598, 604), (0, 11404, 11410), (0, 4494, 4518),
   (0, 1220, 1254), (0, 101, 181), (0, 306, 358), (0, 342, 486), (0, 167, 243)],
  [(4, 43836, 43837), (0, 36826, 36827), (1, 8321, 8322), (1, 6770, 6772), (0, 2439, 2445), (0, 1220, 1254),
   (0, 1926, 2022), (0, 306, 358), (0, 276, 438)],
  [(1, 36826, 36827), (0, 32029, 32031), (1, 2889, 2895), (0, 2439, 2445), (0, 1298, 1310), (1, 701, 703), (0, 53, 95)],
  [(6, 2068, 2069), (3, 7392, 7394), (0, 754, 758), (0, 1298, 1310), (1, 610, 611)],
  [(0, 8374, 8375), (0, 7853, 7855), (0, 754, 758)],
  [(2, 6896, 6897)]
]

/-- The pages of the table. -/
def collision (pageBits kept : ℕ) : ℕ × ℕ × ℕ :=
  (collisions.getD (kept - 29) []).getD (pageBits - (2 * kept - 57)) (0, 0, 0)

/-- The two pages have one frame. -/
def Collides (pageBits kept : ℕ) : Prop :=
  let (core, first, second) := collision pageBits kept
  let cfg : Config := ⟨.random, 2 ^ pageBits, kept⟩
  pageAddr pageBits kept core first ≠ pageAddr pageBits kept core second ∧
    cfg.physAddr (pageAddr pageBits kept core first) = cfg.physAddr (pageAddr pageBits kept core second)

instance (pageBits kept : ℕ) : Decidable (Collides pageBits kept) :=
  inferInstanceAs (Decidable (_ ∧ _))

theorem collides_of_meet : ∀ kept < 58, 29 ≤ kept → ∀ pageBits < 32, 2 * kept < 58 + pageBits → pageBits + 2 ≤ kept →
    Collides pageBits kept := by
  decide +kernel

theorem pageAddr_signExtended {kept : ℕ} (hpos : 0 < kept) (mode : AddrTranslation) (pageSize pageBits core page : ℕ) :
    Config.SignExtended ⟨mode, pageSize, kept⟩ (pageAddr pageBits kept core page) := by
  have hbit : ∀ i, kept - 1 ≤ i → i < 58 → (pageAddr pageBits kept core page).getLsbD i =
      (BitVec.ofNat kept (page * 2 ^ pageBits)).msb := by
    intro i hsign hi
    rw [pageAddr, BitVec.getLsbD_append, if_pos hi, BitVec.getLsbD_signExtend, decide_eq_true hi, Bool.true_and]
    by_cases hlast : i < kept
    · rw [if_pos hlast, BitVec.msb_eq_getLsbD_last]
      congr 1
      omega
    · rw [if_neg hlast]
  intro i hsign hi
  have hsign : kept - 1 ≤ i := hsign
  by_cases hkept : kept - 1 ≤ 57
  · rw [hbit i hsign hi, hbit 57 hkept (by decide)]
  · omega

/-! ## Where the scrambled bits do not fit -/

/-- A scrambled bit beyond those that are kept stops the simulation. -/
theorem addrTranslate_error (hmode : cfg.addrTranslation ≠ .none) (hkept : cfg.numAddrNonSignExtendBits ≤ j) (hword : j < 32)
    (hbit : (cfg.scrambledBits a).getLsbD j = true) : ∃ message, cfg.addrTranslate a = .error message := by
  have hout : cfg.maskedPageIndexWithScrambledBits a (a &&& (cmpAddrMask ||| nBitMask cfg.numAddrNonSignExtendBits)) &&&
      ~~~nBitMask cfg.numAddrNonSignExtendBits ≠ 0 := by
    intro hzero
    have hnot := congrArg (BitVec.getLsbD · j) hzero
    have hbeyond : decide (j < cfg.numAddrNonSignExtendBits) = false := decide_eq_false (by omega)
    simp only [maskedPageIndexWithScrambledBits, BitVec.getLsbD_and, BitVec.getLsbD_or, BitVec.getLsbD_not,
      BitVec.getLsbD_setWidth, hbit, getLsbD_nBitMask (by omega : cfg.numAddrNonSignExtendBits < 64) (by omega : j < 64),
      (by omega : j < 64), hbeyond, decide_true, Bool.not_false, Bool.and_true, Bool.or_true] at hnot
    simp at hnot
  refine ⟨"0 == (masked_page_index_with_scrambled_bits & ~N_BIT_MASK(NUM_ADDR_NON_SIGN_EXTEND_BITS))", ?_⟩
  rw [addrTranslate, if_neg hmode]
  simp only [checkAndRemoveAddrSignExtendedBits, Bool.false_eq_true, false_and, if_false, bind, Except.bind]
  exact if_pos hout

theorem hash_zero_bit : (hsiehHash (bytes 0)).getLsbD 29 = true := by decide +kernel

theorem pageIndex_zero : cfg.pageIndex 0 = 0 := BitVec.zero_ushiftRight

theorem signExtended_zero : cfg.SignExtended 0 := fun i _ _ => by
  have hzero : ∀ k, (0 : Addr).getLsbD k = false := fun k => BitVec.getLsbD_zero
  rw [hzero, hzero]

/-- Of the address 0 the scrambled bit 29 is set, but for the translation that keeps the top one. -/
theorem scrambledBits_zero (hmode : cfg.addrTranslation ≠ .none) (hN : cfg.numAddrNonSignExtendBits < 29)
    (htop : cfg.addrTranslation = .preserveStream → cfg.numAddrNonSignExtendBits ≠ 28) :
    (cfg.scrambledBits 0).getLsbD 29 = true := by
  have hs : cfg.numBitsToScramble = 58 - cfg.numAddrNonSignExtendBits := rfl
  have hmask : (nBitMask cfg.numBitsToScramble).getLsbD 29 = true := by
    rw [getLsbD_nBitMask (by omega) (by decide)]
    exact decide_eq_true (by omega)
  have horig : (cfg.origBits 0).getLsbD 29 = false := by
    rw [origBits, pageIndex_zero, BitVec.getLsbD_setWidth, BitVec.getLsbD_and]
    simp
  have hshifted : (0 : Addr) >>> cfg.numBitsToScramble = 0 := BitVec.zero_ushiftRight
  have hmasked : ∀ x : Uns, x.getLsbD 29 = true →
      ((x.setWidth 64 &&& nBitMask cfg.numBitsToScramble).setWidth 32).getLsbD 29 = true := by
    intro x hx
    simp [hx, hmask]
  cases hcase : cfg.addrTranslation with
  | none => exact absurd hcase hmode
  | flip =>
      simp only [scrambledBits, hcase]
      refine hmasked _ ?_
      simp only [hash, hcase, pageIndex_zero]
      rw [BitVec.getLsbD_setWidth, BitVec.getLsbD_xor, hmask]
      rfl
  | random =>
      simp only [scrambledBits, hcase]
      refine hmasked _ ?_
      simp only [hash, hcase, pageIndex_zero]
      exact hash_zero_bit
  | preserveBlp =>
      simp only [scrambledBits, hcase]
      rw [BitVec.getLsbD_xor, horig, Bool.xor_false]
      refine hmasked _ ?_
      simp only [hash, hcase, pageIndex_zero, hshifted]
      exact hash_zero_bit
  | preserveStream =>
      have hne := htop hcase
      have hhash : (cfg.hash 0).getLsbD 29 = true := by
        simp only [hash, hcase, pageIndex_zero, hshifted]
        exact hash_zero_bit
      have hclear : (cfg.numBitsToScramble + (2 ^ 32 - 1)) % 2 ^ 32 % 32 ≠ 29 := by omega
      have hlt : (cfg.numBitsToScramble + (2 ^ 32 - 1)) % 2 ^ 32 % 32 < 32 := Nat.mod_lt _ (by decide)
      simp only [scrambledBits, hcase]
      rw [BitVec.getLsbD_setWidth, BitVec.getLsbD_or, BitVec.getLsbD_setWidth, BitVec.getLsbD_and, BitVec.getLsbD_xor,
        hmasked _ hhash, horig, BitVec.getLsbD_not, getLsbD_one_shiftLeft hlt, decide_eq_false (Ne.symm hclear)]
      rfl

/-- Of an address with all bits set the one that is kept is beyond the 28 bits. -/
theorem scrambledBits_ones (hacc : cfg.Accepted) (hmode : cfg.addrTranslation = .preserveStream)
    (hN : cfg.numAddrNonSignExtendBits = 28) : (cfg.scrambledBits (BitVec.ofNat 64 (2 ^ 58 - 1))).getLsbD 29 = true := by
  have hs : cfg.numBitsToScramble = 30 := by rw [numBitsToScramble, hN]
  have hoffset := hacc.numPageOffsetBits_le
  simp only [scrambledBits, hmode, hs]
  refine (getLsbD_replace _ _ (by decide : 29 < 32)).trans ?_
  rw [if_pos rfl, getLsbD_pageIndex, BitVec.getLsbD_ofNat, Nat.testBit_two_pow_sub_one]
  simp only [(by omega : cfg.numPageOffsetBits + 29 < 64), (by omega : cfg.numPageOffsetBits + 29 < 58), decide_true,
    Bool.and_self]

theorem signExtended_ones : cfg.SignExtended (BitVec.ofNat 64 (2 ^ 58 - 1)) := by
  have hbit : ∀ i < 58, (BitVec.ofNat 64 (2 ^ 58 - 1)).getLsbD i = true := by
    intro i hi
    rw [BitVec.getLsbD_ofNat, Nat.testBit_two_pow_sub_one]
    simp only [(by omega : i < 64), hi, decide_true, Bool.and_self]
  intro i _ hi
  rw [hbit i hi, hbit 57 (by decide)]

/-- A translation that is one to one has at least 29 bits to keep. -/
theorem Faithful.kept_ge (h : cfg.Faithful) (hacc : cfg.Accepted) (hmode : cfg.addrTranslation ≠ .none) :
    29 ≤ cfg.numAddrNonSignExtendBits := by
  refine Nat.le_of_not_lt fun hN => ?_
  by_cases htop : cfg.addrTranslation = .preserveStream ∧ cfg.numAddrNonSignExtendBits = 28
  · obtain ⟨message, hstop⟩ := addrTranslate_error hmode (by omega) (by decide) (scrambledBits_ones hacc htop.1 htop.2)
    obtain ⟨p, hp, -⟩ := h.total _ signExtended_ones
    rw [hstop] at hp
    cases hp
  · have hzero := scrambledBits_zero hmode hN fun hstream hkept => htop ⟨hstream, hkept⟩
    obtain ⟨message, hstop⟩ := addrTranslate_error hmode (by omega) (by decide) hzero
    obtain ⟨p, hp, -⟩ := h.total _ signExtended_zero
    rw [hstop] at hp
    cases hp

/-- The hash of all the bits keeps pages apart only where it does not meet the bits that are kept. -/
theorem Faithful.random_apart (h : cfg.Faithful) (hacc : cfg.Accepted) (hmode : cfg.addrTranslation = .random)
    (hN : 29 ≤ cfg.numAddrNonSignExtendBits) : 58 + cfg.numPageOffsetBits ≤ 2 * cfg.numAddrNonSignExtendBits ∨
      cfg.numAddrNonSignExtendBits ≤ cfg.numPageOffsetBits + 1 := by
  refine Decidable.byContradiction fun hmeet => ?_
  have hoffset := hacc.offset_lt
  obtain ⟨hne, hsame⟩ := collides_of_meet cfg.numAddrNonSignExtendBits (by omega) hN cfg.numPageOffsetBits hoffset
    (by omega) (by omega)
  have hcfg : (⟨.random, 2 ^ cfg.numPageOffsetBits, cfg.numAddrNonSignExtendBits⟩ : Config) = cfg := by
    rw [← hacc.vaPageSizeBytes_eq, ← hmode]
  rw [hcfg] at hsame
  have hnone : cfg.addrTranslation ≠ .none := by
    rw [hmode]
    decide
  have hsign : ∀ page, cfg.SignExtended (pageAddr cfg.numPageOffsetBits cfg.numAddrNonSignExtendBits
      (collision cfg.numPageOffsetBits cfg.numAddrNonSignExtendBits).1 page) := fun page =>
    pageAddr_signExtended (by omega) cfg.addrTranslation cfg.vaPageSizeBytes _ _ page
  refine hne (h.injective _ _ (hsign _) (hsign _) ?_)
  rw [addrTranslate_eq hacc hN hnone, addrTranslate_eq hacc hN hnone, hsame]

/-- The translation is one to one, and keeps core and offset, exactly where the configuration fits. -/
theorem faithful_iff (hacc : cfg.Accepted) : cfg.Faithful ↔ cfg.Fits := by
  by_cases hmode : cfg.addrTranslation = .none
  · have hsame : ∀ a, cfg.addrTranslate a = .ok a := fun a => if_pos hmode
    rw [Fits, hmode]
    refine ⟨fun _ => trivial, fun _ => ⟨fun a _ => ⟨a, hsame a, rfl, rfl⟩, fun a b _ _ h => ?_⟩⟩
    rw [hsame, hsame] at h
    exact Except.ok.inj h
  · constructor
    · intro h
      have hN := h.kept_ge hacc hmode
      rw [Fits]
      cases hcase : cfg.addrTranslation with
      | none => exact trivial
      | flip => exact hN
      | random => exact ⟨hN, h.random_apart hacc hcase hN⟩
      | preserveBlp => exact hN
      | preserveStream => exact hN
    · intro hfits
      have hN := hfits.kept_ge hmode
      refine ⟨fun a _ => ⟨_, addrTranslate_eq hacc hN hmode a, physAddr_keeps hacc hN a⟩, fun a b ha hb h => ?_⟩
      rw [addrTranslate_eq hacc hN hmode, addrTranslate_eq hacc hN hmode] at h
      exact physAddr_injective hacc hmode hfits ha hb (Except.ok.inj h)

/-- The default: 48 bits, and pages of 4 kB. -/
theorem faithful_iff_default : (⟨.random, 4096, 48⟩ : Config).Faithful := by
  have hacc : (⟨.random, 4096, 48⟩ : Config).Accepted := ⟨by decide +kernel, by decide, by decide, by decide +kernel⟩
  exact (faithful_iff hacc).mpr ⟨by decide, .inl (by decide +kernel)⟩

/-- With 34 bits two pages get one frame. -/
theorem not_faithful_34 :
    let cfg : Config := ⟨.random, 4096, 34⟩
    cfg.Accepted ∧ cfg.SignExtended 0x15dc35000 ∧ cfg.SignExtended 0x15dc36000 ∧
      cfg.addrTranslate 0x15dc35000 = cfg.addrTranslate 0x15dc36000 ∧ ¬ cfg.Faithful := by
  intro cfg
  have hacc : cfg.Accepted := ⟨by decide +kernel, by decide, by decide, by decide +kernel⟩
  have hfirst : cfg.SignExtended 0x15dc35000 := by
    have hall : ∀ i < 58, 33 ≤ i → (0x15dc35000 : Addr).getLsbD i = (0x15dc35000 : Addr).getLsbD 57 := by decide +kernel
    exact fun i hsign hi => hall i hi hsign
  have hsecond : cfg.SignExtended 0x15dc36000 := by
    have hall : ∀ i < 58, 33 ≤ i → (0x15dc36000 : Addr).getLsbD i = (0x15dc36000 : Addr).getLsbD 57 := by decide +kernel
    exact fun i hsign hi => hall i hi hsign
  have hsame : cfg.addrTranslate 0x15dc35000 = cfg.addrTranslate 0x15dc36000 := by decide +kernel
  exact ⟨hacc, hfirst, hsecond, hsame, fun h => absurd (h.injective _ _ hfirst hsecond hsame) (by decide)⟩

/-- With 28 bits the assertion fails on the address 0. -/
example : (⟨.random, 4096, 28⟩ : Config).addrTranslate 0 =
    .error "0 == (masked_page_index_with_scrambled_bits & ~N_BIT_MASK(NUM_ADDR_NON_SIGN_EXTEND_BITS))" := by
  decide +kernel

end Config

end Scarab.AddrTrans
