import Mathlib.Data.List.Basic
import Mathlib.Data.Fintype.Basic
import Scarab.Lib.Bits
import Scarab.Prefetcher.Types

/-! # The bytes of a memory access

The memory map has an entry for every eight aligned bytes. An access is traversed entry by
entry, and inside an entry byte by byte; the addresses wrap around at 48 bits and keep
the bits above. -/

namespace Scarab.Map

/-- `ADDR_PLUS_OFFSET`. -/
def addrPlusOffset (addr offset : Addr) : Addr :=
  (addr &&& 0xFFFF000000000000) ||| ((addr + offset) &&& 0x0000FFFFFFFFFFFF)

/-- `MEM_MAP_ENTRY_ADDR`. -/
def entryAddr (va : Addr) : Addr := va &&& ~~~7

/-- `MEM_MAP_BYTE_IN_ENTRY`. -/
def byteInEntry (va : Addr) : Fin 8 := ⟨va.toNat % 8, by omega⟩

/-- `MEM_MAP_KEY`. -/
def mapKey (va : Addr) : Addr := va >>> 3

/-- The last byte of an access. -/
def lastVa (va : Addr) (size : Uns) : Addr := addrPlusOffset va ((size - 1).setWidth 64)

/-- The entry after one. -/
def nextEntry (entry : Addr) : Addr := addrPlusOffset entry 8

/-- The entries from one on, up to the last; `mem_map_entry_traversal_done` ends it. -/
def entriesFrom (last : Addr) : ℕ → Addr → List Addr
  | 0, _ => []
  | n + 1, entry =>
      if entry = nextEntry last then [] else entry :: entriesFrom last n (nextEntry entry)

/-- The entries that an access touches. There are no more of them than bytes; an access of
no bytes is not traversed. -/
def entries (va : Addr) (size : Uns) : List Addr :=
  entriesFrom (entryAddr (lastVa va size)) size.toNat (entryAddr va)

/-- The bytes of an entry that an access touches. -/
def bytesIn (va : Addr) (size : Uns) (entry : Addr) : List (Fin 8) :=
  let first := if entry = entryAddr va then byteInEntry va else 0
  let last := if entry = entryAddr (lastVa va size) then byteInEntry (lastVa va size) else 7
  (List.finRange 8).filter fun byte => first ≤ byte ∧ byte ≤ last

/-- A byte of the memory map: the key of its entry, and its place there. -/
structure Loc where
  key : Addr
  byte : Fin 8
  deriving DecidableEq

/-- Where an address is kept. -/
def Loc.of (va : Addr) : Loc := ⟨mapKey va, byteInEntry va⟩

/-- The bytes that an access touches, in the order of the traversal. -/
def accessLocs (va : Addr) (size : Uns) : List Loc :=
  (entries va size).flatMap fun entry => (bytesIn va size entry).map fun byte => ⟨mapKey entry, byte⟩

/-- The address of a byte of an access. -/
def byteAddr (va : Addr) (i : ℕ) : Addr := addrPlusOffset va (BitVec.ofNat 64 i)

/-! ## Addresses as numbers -/

theorem toNat_addrPlusOffset (addr offset : Addr) :
    (addrPlusOffset addr offset).toNat =
      addr.toNat / 2 ^ 48 * 2 ^ 48 + (addr.toNat + offset.toNat) % 2 ^ 48 := by
  have hhigh : (addr &&& 0xFFFF000000000000).toNat = addr.toNat / 2 ^ 48 * 2 ^ 48 :=
    Bits.toNat_and_high addr 48
  have hlow : ((addr + offset) &&& 0x0000FFFFFFFFFFFF).toNat = (addr + offset).toNat % 2 ^ 48 :=
    Bits.toNat_and_low (addr + offset) 48 (by decide)
  unfold addrPlusOffset
  rw [BitVec.toNat_or, hhigh, hlow, Bits.mul_or_eq_add (Nat.mod_lt _ (by decide)), BitVec.toNat_add]
  omega

theorem toNat_entryAddr (va : Addr) : (entryAddr va).toNat = va.toNat / 8 * 8 :=
  Bits.toNat_and_high va 3

theorem toNat_byteAddr (va : Addr) (i : ℕ) :
    (byteAddr va i).toNat = va.toNat / 2 ^ 48 * 2 ^ 48 + (va.toNat + i) % 2 ^ 48 := by
  unfold byteAddr
  rw [toNat_addrPlusOffset, BitVec.toNat_ofNat]
  omega

/-- Different addresses are kept in different places. -/
theorem Loc.of_inj {a b : Addr} (h : Loc.of a = Loc.of b) : a = b := by
  have hkey := congrArg (fun l => l.key.toNat) h
  have hbyte := congrArg (fun l => l.byte.val) h
  simp only [Loc.of, mapKey, byteInEntry, BitVec.toNat_ushiftRight,
    Nat.shiftRight_eq_div_pow] at hkey hbyte
  apply BitVec.eq_of_toNat_eq
  omega

/-! ## The traversal -/

/-- The `k`-th entry of an access. -/
def entryAt (va : Addr) (k : ℕ) : Addr := byteAddr (entryAddr va) (8 * k)

/-- The number of the last entry of an access. -/
def lastEntry (va : Addr) (size : Uns) : ℕ := (va.toNat % 8 + size.toNat - 1) / 8

theorem toNat_entryAt (va : Addr) (k : ℕ) :
    (entryAt va k).toNat =
      va.toNat / 2 ^ 48 * 2 ^ 48 + (va.toNat / 8 * 8 + 8 * k) % 2 ^ 48 := by
  unfold entryAt
  rw [toNat_byteAddr, toNat_entryAddr]
  omega

theorem entryAddr_eq_entryAt (va : Addr) : entryAddr va = entryAt va 0 := by
  apply BitVec.eq_of_toNat_eq
  rw [toNat_entryAddr, toNat_entryAt]
  omega

theorem nextEntry_entryAt (va : Addr) (k : ℕ) :
    nextEntry (entryAt va k) = entryAt va (k + 1) := by
  apply BitVec.eq_of_toNat_eq
  unfold nextEntry
  rw [toNat_addrPlusOffset, toNat_entryAt, toNat_entryAt, show (8 : Addr).toNat = 8 from rfl]
  omega

theorem entryAt_inj {va : Addr} {j k : ℕ} (hj : 8 * j < 2 ^ 48) (hk : 8 * k < 2 ^ 48)
    (h : entryAt va j = entryAt va k) : j = k := by
  have hnat := congrArg BitVec.toNat h
  rw [toNat_entryAt, toNat_entryAt] at hnat
  omega

theorem entryAddr_lastVa (va : Addr) {size : Uns} (hsize : 0 < size.toNat) :
    entryAddr (lastVa va size) = entryAt va (lastEntry va size) := by
  have hlt := size.isLt
  apply BitVec.eq_of_toNat_eq
  unfold lastVa lastEntry
  rw [toNat_entryAddr, toNat_addrPlusOffset, toNat_entryAt, BitVec.toNat_setWidth,
    BitVec.toNat_sub, show (1 : Uns).toNat = 1 from rfl]
  omega

/-- From the `k`-th entry on, the traversal runs to the last one. -/
theorem entriesFrom_eq (va : Addr) {size : Uns} (hsize : 0 < size.toNat) (m : ℕ) :
    ∀ n k, k + m = lastEntry va size + 1 → m ≤ n →
      entriesFrom (entryAt va (lastEntry va size)) n (entryAt va k) =
        (List.range m).map fun j => entryAt va (k + j) := by
  have hlast : lastEntry va size + 1 < 2 ^ 33 := by
    have := size.isLt
    unfold lastEntry
    omega
  induction m with
  | zero =>
      intro n k hk _
      cases n with
      | zero => rfl
      | succ n =>
          have hend : entryAt va k = nextEntry (entryAt va (lastEntry va size)) := by
            rw [nextEntry_entryAt, ← hk, Nat.add_zero]
          rw [entriesFrom, if_pos hend]
          rfl
  | succ m ih =>
      intro n k hk hn
      obtain ⟨n, rfl⟩ : ∃ n', n = n' + 1 := ⟨n - 1, by omega⟩
      have hgo : entryAt va k ≠ nextEntry (entryAt va (lastEntry va size)) := by
        intro heq
        rw [nextEntry_entryAt] at heq
        have := entryAt_inj (by omega) (by omega) heq
        omega
      rw [entriesFrom, if_neg hgo, nextEntry_entryAt, ih n (k + 1) (by omega) (by omega),
        List.range_succ_eq_map, List.map_cons, List.map_map]
      congr 1
      apply List.map_congr_left
      intro j _
      exact congrArg (entryAt va) (by omega)

/-- An access touches its entries from the first to the last. -/
theorem entries_eq (va : Addr) {size : Uns} (hsize : 0 < size.toNat) :
    entries va size = (List.range (lastEntry va size + 1)).map (entryAt va) := by
  unfold entries
  rw [entryAddr_lastVa va hsize, entryAddr_eq_entryAt,
    entriesFrom_eq va hsize (lastEntry va size + 1) size.toNat 0 (by omega)
      (by unfold lastEntry; omega)]
  simp

theorem entries_zero (va : Addr) {size : Uns} (hsize : size.toNat = 0) : entries va size = [] := by
  unfold entries
  rw [hsize]
  rfl

theorem byteInEntry_lastVa (va : Addr) {size : Uns} (hsize : 0 < size.toNat) :
    (byteInEntry (lastVa va size)).val = (va.toNat % 8 + size.toNat - 1) % 8 := by
  have hlt := size.isLt
  unfold byteInEntry lastVa
  simp only [toNat_addrPlusOffset, BitVec.toNat_setWidth, BitVec.toNat_sub,
    show (1 : Uns).toNat = 1 from rfl]
  omega

/-- A byte of the `k`-th entry is touched if its offset is one of the access. -/
theorem mem_bytesIn (va : Addr) {size : Uns} (hsize : 0 < size.toNat) {k : ℕ}
    (hk : k ≤ lastEntry va size) (byte : Fin 8) :
    byte ∈ bytesIn va size (entryAt va k) ↔
      va.toNat % 8 ≤ 8 * k + byte ∧ 8 * k + byte < va.toNat % 8 + size.toNat := by
  have hlt := size.isLt
  have hbyte := byte.isLt
  have hbound : lastEntry va size < 2 ^ 33 := by
    unfold lastEntry
    omega
  have hfirst : entryAt va k = entryAddr va ↔ k = 0 := by
    rw [entryAddr_eq_entryAt]
    exact ⟨fun h => entryAt_inj (by omega) (by omega) h, fun h => by rw [h]⟩
  have hlast : entryAt va k = entryAddr (lastVa va size) ↔ k = lastEntry va size := by
    rw [entryAddr_lastVa va hsize]
    exact ⟨fun h => entryAt_inj (by omega) (by omega) h, fun h => by rw [h]⟩
  have hlow : (if entryAt va k = entryAddr va then byteInEntry va else 0) ≤ byte ↔
      va.toNat % 8 ≤ 8 * k + byte := by
    by_cases h0 : k = 0
    · rw [if_pos (hfirst.mpr h0), h0, Fin.le_def, byteInEntry]
      simp
    · rw [if_neg (mt hfirst.mp h0), Fin.le_def]
      simp
      omega
  have hhigh : byte ≤ (if entryAt va k = entryAddr (lastVa va size) then
        byteInEntry (lastVa va size) else 7) ↔
      8 * k + byte < va.toNat % 8 + size.toNat := by
    by_cases hl : k = lastEntry va size
    · rw [if_pos (hlast.mpr hl), Fin.le_def, byteInEntry_lastVa va hsize, hl]
      unfold lastEntry
      omega
    · rw [if_neg (mt hlast.mp hl), Fin.le_def, show (7 : Fin 8).val = 7 from rfl]
      unfold lastEntry at hk hl
      omega
  unfold bytesIn
  simp only [List.mem_filter, List.mem_finRange, true_and, decide_eq_true_eq, hlow, hhigh]

/-- The place of the byte at an offset into an entry. -/
theorem loc_of_byteAddr (va : Addr) {i k : ℕ} {byte : Fin 8}
    (h : va.toNat % 8 + i = 8 * k + byte) : Loc.of (byteAddr va i) = ⟨mapKey (entryAt va k), byte⟩ := by
  have hbyte := byte.isLt
  have hkey : mapKey (byteAddr va i) = mapKey (entryAt va k) := by
    apply BitVec.eq_of_toNat_eq
    simp only [mapKey, BitVec.toNat_ushiftRight, Nat.shiftRight_eq_div_pow, toNat_byteAddr,
      toNat_entryAt]
    omega
  have hplace : byteInEntry (byteAddr va i) = byte := by
    apply Fin.ext
    show (byteAddr va i).toNat % 8 = byte.val
    rw [toNat_byteAddr]
    omega
  rw [Loc.of, hkey, hplace]

/-- The traversal touches exactly the bytes of the access. -/
theorem mem_accessLocs (va : Addr) (size : Uns) (l : Loc) :
    l ∈ accessLocs va size ↔ ∃ i < size.toNat, l = Loc.of (byteAddr va i) := by
  have hlt := size.isLt
  by_cases hsize : size.toNat = 0
  · simp [accessLocs, entries_zero va hsize, hsize]
  · have hsize : 0 < size.toNat := Nat.pos_of_ne_zero hsize
    simp only [accessLocs, entries_eq va hsize, List.mem_flatMap, List.mem_map, List.mem_range,
      exists_exists_and_eq_and]
    constructor
    · rintro ⟨k, hk, byte, hbyte, rfl⟩
      obtain ⟨hge, hle⟩ := (mem_bytesIn va hsize (by omega) byte).mp hbyte
      refine ⟨8 * k + byte - va.toNat % 8, by omega, ?_⟩
      exact (loc_of_byteAddr va (by omega)).symm
    · rintro ⟨i, hi, rfl⟩
      have hk : (va.toNat % 8 + i) / 8 ≤ lastEntry va size := by
        unfold lastEntry
        omega
      refine ⟨(va.toNat % 8 + i) / 8, by omega, ⟨(va.toNat % 8 + i) % 8, by omega⟩, ?_, ?_⟩
      · apply (mem_bytesIn va hsize hk _).mpr
        constructor <;> simp only <;> omega
      · exact (loc_of_byteAddr va (by simp only; omega)).symm

end Scarab.Map
