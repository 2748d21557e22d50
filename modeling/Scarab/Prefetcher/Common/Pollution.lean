import Mathlib.Algebra.GroupWithZero.Nat
import Scarab.Lib.Bits
import Scarab.Lib.Execution
import Scarab.Prefetcher.Types

/-! # The pollution vectors

Each core marks the lines that its prefetches evict, at an index that is folded from the line's. A later miss of the
owner at a marked index counts as pollution. -/

namespace Scarab.Pollution

/-- The knobs. -/
structure Params where
  prefPolbvOn : Bool
  prefPolbvSize : ℕ
  dcacheLineSize : ℕ
  numCores : ℕ
  /-- It is an `uns`. -/
  dcacheLineSize_lt : dcacheLineSize < 2 ^ 32

/-- `Pref_Polbv_Info`. -/
structure PolbvInfo where
  procId : Uns8
  pollution : Bool
  deriving DecidableEq, Repr

/-- What `pref_polbv_*` use of a core. -/
structure Core where
  prefPolbvInfo : List PolbvInfo
  currPfpol : Uns
  deriving DecidableEq, Repr

/-- The element at `index`, of an array that has one there. -/
def Core.at (core : Core) (index : ℕ) : Except String PolbvInfo :=
  match core.prefPolbvInfo[index]? with
  | some info => .ok info
  | none => .error "an access outside pref_polbv_info"

namespace Params

variable (p : Params)

/-- `line_index`. -/
def lineIndex (addr : Addr) : Addr := addr >>> Nat.log2 p.dcacheLineSize

/-- `index`, as the three functions compute it. -/
def index (addr : Addr) : ℕ :=
  let lineIndex := p.lineIndex addr
  let size := Nat.log2 p.prefPolbvSize
  (((lineIndex >>> size ^^^ lineIndex) &&& BitVec.ofNat 64 size).setWidth 32).toNat

/-- The arrays as `pref_init` allocates them. -/
def initCores : List Core := .replicate p.numCores ⟨.replicate p.prefPolbvSize ⟨0, false⟩, 0⟩

/-- `pref_polbv_update_on_evict`. -/
def updateOnEvict (prefProcId evictedProcId : Uns8) (evictedAddr : Addr) (cores : List Core) :
    Except String (List Core) :=
  if !p.prefPolbvOn then .error "PREF_POLBV_ON"
  else
    let index := p.index evictedAddr
    match cores[prefProcId.toNat]? with
    | none => .error "an access outside pref.cores"
    | some core => do
        let _ ← core.at index
        return cores.set prefProcId.toNat
          { core with prefPolbvInfo := core.prefPolbvInfo.set index ⟨evictedProcId, true⟩ }

/-- `pref_polbv_lookup_on_miss`. -/
def lookupOnMiss (procId : Uns8) (addr : Addr) (cores : List Core) : Except String (List Core) :=
  if !p.prefPolbvOn then .error "PREF_POLBV_ON"
  else
    let index := p.index addr
    cores.mapM fun core => do
      let info ← core.at index
      return if info.procId = procId ∧ info.pollution then
        ⟨core.prefPolbvInfo.set index { info with pollution := false }, core.currPfpol + 1⟩
      else core

/-- `pref_polbv_update_on_repref`. -/
def updateOnRepref (procId : Uns8) (addr : Addr) (cores : List Core) : Except String (List Core) :=
  if !p.prefPolbvOn then .error "PREF_POLBV_ON"
  else
    let index := p.index addr
    cores.mapM fun core => do
      let info ← core.at index
      return if info.procId = procId then
        { core with prefPolbvInfo := core.prefPolbvInfo.set index { info with pollution := false } }
      else core

/-- The places that call the three functions. -/
inductive Call where
  | evict (prefProcId evictedProcId : Uns8) (evictedAddr : Addr)
  | miss (procId : Uns8) (addr : Addr)
  | repref (procId : Uns8) (addr : Addr)

def call (cores : List Core) : Call → Except String (List Core)
  | .evict prefProcId evictedProcId evictedAddr => p.updateOnEvict prefProcId evictedProcId evictedAddr cores
  | .miss procId addr => p.lookupOnMiss procId addr cores
  | .repref procId addr => p.updateOnRepref procId addr cores

/-! ## The index -/

/-- The xor of the two lowest fields of the line index, each as wide as an index. -/
def foldedIndex (addr : Addr) : ℕ :=
  (p.lineIndex addr).toNat / p.prefPolbvSize % p.prefPolbvSize ^^^ (p.lineIndex addr).toNat % p.prefPolbvSize

/-- Every index is legal, every legal index has an address, and an index is folded from the two fields. -/
structure Folds : Prop where
  lt : ∀ addr, p.index addr < p.prefPolbvSize
  onto : ∀ i < p.prefPolbvSize, ∃ addr, p.index addr = i
  eq : ∀ addr, p.index addr = p.foldedIndex addr

variable {p}

theorem index_eq {k : ℕ} (hk : k < 32) (hsize : p.prefPolbvSize = 2 ^ k) (addr : Addr) :
    p.index addr = ((p.lineIndex addr).toNat / 2 ^ k ^^^ (p.lineIndex addr).toNat) &&& k := by
  have hmask : (BitVec.ofNat 64 k).toNat = k := by
    rw [BitVec.toNat_ofNat]
    exact Nat.mod_eq_of_lt (by omega)
  simp only [index, hsize, Nat.log2_two_pow, BitVec.toNat_setWidth, BitVec.toNat_and, BitVec.toNat_xor,
    BitVec.toNat_ushiftRight, hmask, Nat.shiftRight_eq_div_pow]
  refine Nat.mod_eq_of_lt (Nat.lt_of_le_of_lt Nat.and_le_right (by omega))

/-- The mask is the number of bits, so an index has no bit that this number lacks. -/
theorem index_le {k : ℕ} (hk : k < 32) (hsize : p.prefPolbvSize = 2 ^ k) (addr : Addr) : p.index addr ≤ k := by
  rw [index_eq hk hsize]
  exact Nat.and_le_right

/-- Small lines have addresses. -/
theorem lineIndex_shiftLeft (p : Params) {i : ℕ} (hi : i < 2 ^ 32) :
    (p.lineIndex (BitVec.ofNat 64 i <<< Nat.log2 p.dcacheLineSize)).toNat = i := by
  have hlog : Nat.log2 p.dcacheLineSize < 32 := by
    by_cases h0 : p.dcacheLineSize = 0
    · rw [h0]
      decide
    · exact (Nat.log2_lt h0).mpr p.dcacheLineSize_lt
  have hshift : i * 2 ^ Nat.log2 p.dcacheLineSize < 2 ^ 64 :=
    calc i * 2 ^ Nat.log2 p.dcacheLineSize < 2 ^ 32 * 2 ^ Nat.log2 p.dcacheLineSize :=
          Nat.mul_lt_mul_of_pos_right hi (Nat.two_pow_pos _)
      _ ≤ 2 ^ 32 * 2 ^ 32 := Nat.mul_le_mul_left _ (Nat.pow_le_pow_right (by decide) (by omega))
      _ = 2 ^ 64 := rfl
  rw [lineIndex, BitVec.toNat_ushiftRight, BitVec.toNat_shiftLeft, BitVec.toNat_ofNat,
    Nat.mod_eq_of_lt (by omega : i < 2 ^ 64), Nat.shiftLeft_eq, Nat.mod_eq_of_lt hshift, Nat.shiftRight_eq_div_pow,
    Nat.mul_div_cancel _ (Nat.two_pow_pos _)]

/-- The folding reaches the whole table exactly in a table of one or two entries. -/
theorem folds_iff {k : ℕ} (hk : k < 32) (hsize : p.prefPolbvSize = 2 ^ k) : p.Folds ↔ p.prefPolbvSize ≤ 2 := by
  constructor
  · intro h
    refine Nat.le_of_not_lt fun hlarge => ?_
    have htwo : 2 ≤ k := Nat.le_of_not_lt fun hsmall => by
      have hle : 2 ^ k ≤ 2 ^ 1 := Nat.pow_le_pow_right (by decide) (by omega)
      omega
    -- the last entry has all the bits
    obtain ⟨addr, haddr⟩ := h.onto (2 ^ k - 1) (by rw [hsize]; exact Nat.sub_lt (Nat.two_pow_pos k) Nat.one_pos)
    have hle := index_le hk hsize addr
    have hlt : k < 2 ^ k - 1 := by
      obtain ⟨j, rfl⟩ := Nat.exists_eq_add_of_le' htwo
      have hj := Nat.lt_two_pow_self (n := j)
      rw [Nat.pow_add]
      omega
    omega
  · intro hsmall
    have hmask : k = 2 ^ k - 1 := by
      have hone : k ≤ 1 := Nat.le_of_not_lt fun hlarge => by
        have hle : 2 ^ 2 ≤ 2 ^ k := Nat.pow_le_pow_right (by decide) (by omega)
        omega
      rcases Nat.le_one_iff_eq_zero_or_eq_one.mp hone with rfl | rfl <;> rfl
    have hand : ∀ x, x &&& k = x % 2 ^ k := fun x => by rw [← Nat.and_two_pow_sub_one_eq_mod, ← hmask]
    have hfold : ∀ addr, p.index addr = p.foldedIndex addr := by
      intro addr
      rw [index_eq hk hsize, foldedIndex, hsize, hand, Nat.xor_mod_two_pow]
    refine ⟨fun addr => ?_, fun i hi => ?_, hfold⟩
    · rw [hsize]
      have hle := index_le hk hsize addr
      have hpos := Nat.two_pow_pos k
      omega
    · have hi' : i < 2 ^ k := by rw [← hsize]; exact hi
      have hbig : 2 ^ k ≤ 2 ^ 32 := Nat.pow_le_pow_right (by decide) (by omega)
      refine ⟨BitVec.ofNat 64 i <<< Nat.log2 p.dcacheLineSize, ?_⟩
      rw [hfold, foldedIndex, lineIndex_shiftLeft p (by omega), hsize, Nat.div_eq_of_lt hi', Nat.zero_mod,
        Nat.mod_eq_of_lt hi', Nat.zero_xor]

/-- A table of two entries. -/
theorem folds_iff_two : (⟨true, 2, 64, 1, by decide⟩ : Params).Folds := by
  have hsize : (⟨true, 2, 64, 1, by decide⟩ : Params).prefPolbvSize = 2 ^ 1 := rfl
  exact (folds_iff (by decide) hsize).mpr (by decide)

/-- The table of the size that is set by default has an entry that no address reaches. -/
theorem not_folds_default :
    ¬ (⟨true, 1024, 64, 1, by decide⟩ : Params).Folds := by
  intro h
  obtain ⟨addr, haddr⟩ := h.onto 1023 (by decide)
  have hsize : (⟨true, 1024, 64, 1, by decide⟩ : Params).prefPolbvSize = 2 ^ 10 := rfl
  have hle := index_le (by decide) hsize addr
  omega

/-! ## Runs -/

/-- The arrays are there, and what is marked in them is at an index of some address. -/
structure Marked (p : Params) (cores : List Core) : Prop where
  length_eq : cores.length = p.numCores
  size_eq : ∀ core ∈ cores, core.prefPolbvInfo.length = p.prefPolbvSize
  reached : ∀ core ∈ cores, ∀ i info, core.prefPolbvInfo[i]? = some info → info.pollution = true →
    ∃ addr, p.index addr = i

theorem marked_initCores (p : Params) : Marked p p.initCores where
  length_eq := List.length_replicate
  size_eq core hcore := by
    rw [List.eq_of_mem_replicate hcore]
    exact List.length_replicate
  reached core hcore i info hinfo hmark := by
    rw [List.eq_of_mem_replicate hcore] at hinfo
    rw [List.eq_of_mem_replicate (List.mem_of_getElem? hinfo)] at hmark
    cases hmark

theorem Marked.at_index {k : ℕ} {cores : List Core} (h : Marked p cores) (hk : k < 32) (hsize : p.prefPolbvSize = 2 ^ k)
    {core : Core} (hcore : core ∈ cores) (addr : Addr) : ∃ info, core.at (p.index addr) = .ok info := by
  have hlt : p.index addr < core.prefPolbvInfo.length := by
    rw [h.size_eq core hcore, hsize]
    exact Nat.lt_of_le_of_lt (index_le hk hsize addr) Nat.lt_two_pow_self
  exact ⟨core.prefPolbvInfo[p.index addr], by rw [Core.at, List.getElem?_eq_getElem hlt]⟩

/-- An array keeps its marks where addresses reach if only the entry at the index of an address is written. -/
theorem Marked.set_reached {cores : List Core} (h : Marked p cores) {core : Core} (hcore : core ∈ cores) (addr : Addr)
    (written : PolbvInfo) : (core.prefPolbvInfo.set (p.index addr) written).length = p.prefPolbvSize ∧
      ∀ i info, (core.prefPolbvInfo.set (p.index addr) written)[i]? = some info → info.pollution = true →
        ∃ addr, p.index addr = i := by
  refine ⟨by rw [List.length_set, h.size_eq core hcore], fun i info hinfo hmark => ?_⟩
  by_cases hi : p.index addr = i
  · exact ⟨addr, hi⟩
  · rw [List.getElem?_set_ne hi] at hinfo
    exact h.reached core hcore i info hinfo hmark

theorem mapM_eq_ok_map {α β : Type} {f : α → Except String β} {g : α → β} {xs : List α} (h : ∀ x ∈ xs, f x = .ok (g x)) :
    xs.mapM f = .ok (xs.map g) := by
  induction xs with
  | nil => rfl
  | cons x xs ih =>
      obtain ⟨hx, hxs⟩ := List.forall_mem_cons.mp h
      rw [List.mapM_cons, hx, ih hxs]
      rfl

/-- The cores that a call may name. -/
def Call.Names (p : Params) : Call → Prop
  | .evict prefProcId _ _ => prefProcId.toNat < p.numCores
  | .miss _ _ => True
  | .repref _ _ => True

/-- The two functions that go through all cores write at most the entry at the index. -/
theorem Marked.of_each {k : ℕ} {cores : List Core} (h : Marked p cores) (hk : k < 32) (hsize : p.prefPolbvSize = 2 ^ k)
    (addr : Addr) {f : Core → PolbvInfo → Core} (hf : ∀ core info, f core info = core ∨
      ∃ written, (f core info).prefPolbvInfo = core.prefPolbvInfo.set (p.index addr) written) :
    ∃ cores', (cores.mapM fun core => do return f core (← core.at (p.index addr))) = .ok cores' ∧ Marked p cores' := by
  let visit : Core → Core := fun core => match core.at (p.index addr) with
    | .ok info => f core info
    | .error _ => core
  have hvisit : ∀ core ∈ cores, (do return f core (← core.at (p.index addr)) : Except String Core) = .ok (visit core) := by
    intro core hcore
    obtain ⟨info, hinfo⟩ := h.at_index hk hsize hcore addr
    simp only [visit, hinfo]
    rfl
  have hone : ∀ core ∈ cores, visit core = core ∨
      ∃ written, (visit core).prefPolbvInfo = core.prefPolbvInfo.set (p.index addr) written := by
    intro core hcore
    obtain ⟨info, hinfo⟩ := h.at_index hk hsize hcore addr
    simp only [visit, hinfo]
    exact hf core info
  refine ⟨cores.map visit, mapM_eq_ok_map hvisit, ⟨by rw [List.length_map, h.length_eq], ?_, ?_⟩⟩
  · intro core' hcore'
    obtain ⟨core, hcore, rfl⟩ := List.mem_map.mp hcore'
    rcases hone core hcore with hsame | ⟨written, hwritten⟩
    · rw [hsame]
      exact h.size_eq core hcore
    · rw [hwritten]
      exact (h.set_reached hcore addr written).1
  · intro core' hcore'
    obtain ⟨core, hcore, rfl⟩ := List.mem_map.mp hcore'
    rcases hone core hcore with hsame | ⟨written, hwritten⟩
    · rw [hsame]
      exact h.reached core hcore
    · rw [hwritten]
      exact (h.set_reached hcore addr written).2

/-- No call goes outside an array, and none marks an entry that addresses do not reach. -/
theorem Marked.after_call {k : ℕ} {cores : List Core} (h : Marked p cores) (hon : p.prefPolbvOn = true) (hk : k < 32)
    (hsize : p.prefPolbvSize = 2 ^ k) {c : Call} (hc : c.Names p) : ∃ cores', p.call cores c = .ok cores' ∧ Marked p cores' := by
  cases c with
  | evict prefProcId evictedProcId evictedAddr =>
      have hlt : prefProcId.toNat < cores.length := by
        rw [h.length_eq]
        exact hc
      have hmem := List.getElem_mem hlt
      obtain ⟨info, hinfo⟩ := h.at_index hk hsize hmem evictedAddr
      obtain ⟨hlength, hreached⟩ := h.set_reached hmem evictedAddr ⟨evictedProcId, true⟩
      simp only [call, updateOnEvict, hon, Bool.not_true, Bool.false_eq_true, if_false, List.getElem?_eq_getElem hlt, hinfo]
      refine ⟨_, rfl, ⟨by rw [List.length_set, h.length_eq], fun core hcore => ?_, fun core hcore => ?_⟩⟩
      · rcases List.mem_or_eq_of_mem_set hcore with hcore | rfl
        · exact h.size_eq core hcore
        · exact hlength
      · rcases List.mem_or_eq_of_mem_set hcore with hcore | rfl
        · exact h.reached core hcore
        · exact hreached
  | miss procId addr =>
      simp only [call, lookupOnMiss, hon, Bool.not_true, Bool.false_eq_true, if_false]
      refine h.of_each hk hsize addr fun core info => ?_
      split
      · exact .inr ⟨_, rfl⟩
      · exact .inl rfl
  | repref procId addr =>
      simp only [call, updateOnRepref, hon, Bool.not_true, Bool.false_eq_true, if_false]
      refine h.of_each hk hsize addr fun core info => ?_
      split
      · exact .inr ⟨_, rfl⟩
      · exact .inl rfl

end Params

end Scarab.Pollution
