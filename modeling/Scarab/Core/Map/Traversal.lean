import Mathlib.Data.List.Range
import Scarab.Core.Map.Bytes
import Scarab.Lib.Loop

/-! # The traversal of the bytes of an access

The loops over the entries of the memory map and over the bytes of an entry, as `add_store_deps`, `update_store_hash` and
`delete_store_hash_entry` run them. -/

namespace Scarab.Map

open Loop

/-- `Mem_Map_Traversal`. -/
structure MemMapTraversal where
  entryAddr : Addr
  firstEntryAddr : Addr
  lastEntryAddr : Addr
  byte : Uns
  lastByte : Uns
  firstEntryFirstByte : Uns
  lastEntryLastByte : Uns

/-- `mem_map_entry_traversal_done`. -/
def MemMapTraversal.entryDone (t : MemMapTraversal) : Bool := t.entryAddr == addrPlusOffset t.lastEntryAddr 8

/-- `mem_map_entry_traversal_init`; the bytes are not set yet. -/
def MemMapTraversal.entryInit (t : MemMapTraversal) (va : Addr) (size : Uns) : Except String MemMapTraversal :=
  let last := addrPlusOffset va ((size - 1).setWidth 64)
  let t := { t with
    firstEntryAddr := Map.entryAddr va
    lastEntryAddr := Map.entryAddr last
    entryAddr := Map.entryAddr va
    firstEntryFirstByte := (va &&& 7).setWidth 32
    lastEntryLastByte := (last &&& 7).setWidth 32 }
  if size = 0 then
    let t := { t with entryAddr := addrPlusOffset t.lastEntryAddr 8 }
    if t.entryDone then .ok t else .error "mem_map_entry_traversal_done(traversal)"
  else .ok t

/-- `mem_map_entry_traversal_next`. -/
def MemMapTraversal.entryNext (t : MemMapTraversal) : MemMapTraversal := { t with entryAddr := addrPlusOffset t.entryAddr 8 }

/-- `mem_map_byte_traversal_init`. -/
def MemMapTraversal.byteInit (t : MemMapTraversal) : Except String MemMapTraversal :=
  let t := { t with
    byte := if t.entryAddr = t.firstEntryAddr then t.firstEntryFirstByte else 0
    lastByte := if t.entryAddr = t.lastEntryAddr then t.lastEntryLastByte else 8 - 1 }
  if t.byte ≤ t.lastByte then .ok t else .error "traversal->byte <= traversal->last_byte"

/-- `mem_map_byte_traversal_done`. -/
def MemMapTraversal.byteDone (t : MemMapTraversal) : Bool := t.lastByte < t.byte

/-- `mem_map_byte_traversal_next`. -/
def MemMapTraversal.byteNext (t : MemMapTraversal) : MemMapTraversal := { t with byte := t.byte + 1 }

/-- The traversal in one of its two loops, and the bytes that it has visited: the keys of their entries and their places
in them. -/
structure Traversing where
  t : MemMapTraversal
  inEntry : Bool
  visited : List (Addr × Uns)

/-- One test of a loop, with what follows it. The entries that are not in the memory map are passed over. -/
def traverseTurn (mapped : Addr → Bool) (s : Traversing) : Except String (Traversing ⊕ List (Addr × Uns)) :=
  if s.inEntry then
    if s.t.byteDone then .ok (.inl { s with t := s.t.entryNext, inEntry := false })
    else .ok (.inl { s with t := s.t.byteNext, visited := s.visited ++ [(mapKey s.t.entryAddr, s.t.byte)] })
  else if s.t.entryDone then .ok (.inr s.visited)
  else if mapped (mapKey s.t.entryAddr) then do
    let t ← s.t.byteInit
    return .inl { s with t, inEntry := true }
  else .ok (.inl { s with t := s.t.entryNext })

/-- The traversal of an access. -/
def traverse (mapped : Addr → Bool) (fuel : ℕ) (t : MemMapTraversal) (va : Addr) (size : Uns) :
    Except String (Option (List (Addr × Uns))) := do
  let t ← t.entryInit va size
  loop (traverseTurn mapped) fuel ⟨t, false, []⟩

/-- A byte as the traversal names it. -/
def Loc.visit (l : Loc) : Addr × Uns := (l.key, BitVec.ofNat 32 l.byte)

/-! ## Positions

A position counts the bytes from the start of the first entry on: the access has the positions from that of its first
byte on. -/

variable {mapped : Addr → Bool} {va : Addr} {size : Uns} {k p : ℕ} {t : MemMapTraversal}

/-- The byte at a position. -/
def locAt (va : Addr) (p : ℕ) : Loc := ⟨mapKey (entryAt va (p / 8)), ⟨p % 8, Nat.mod_lt p (by decide)⟩⟩

theorem locAt_eq (va : Addr) (i : ℕ) : locAt va (va.toNat % 8 + i) = Loc.of (byteAddr va i) :=
  (loc_of_byteAddr va (by dsimp only; omega)).symm

/-- The bytes of an access before a position. -/
def locsBefore (va : Addr) (p : ℕ) : List Loc := (List.range' (va.toNat % 8) (p - va.toNat % 8)).map (locAt va)

theorem locsBefore_succ (h : va.toNat % 8 ≤ p) : locsBefore va (p + 1) = locsBefore va p ++ [locAt va p] := by
  have hlast : va.toNat % 8 + 1 * (p - va.toNat % 8) = p := by omega
  rw [locsBefore]
  rw [show p + 1 - va.toNat % 8 = p - va.toNat % 8 + 1 by omega, List.range'_concat, List.map_append, hlast]
  rfl

theorem locsBefore_access (va : Addr) (size : Uns) :
    locsBefore va (va.toNat % 8 + size.toNat) = (List.range size.toNat).map fun i => Loc.of (byteAddr va i) := by
  rw [locsBefore]
  rw [Nat.add_sub_cancel_left, List.range'_eq_map_range, List.map_map]
  exact List.map_congr_left fun i _ => locAt_eq va i

/-- Where the traversal is when it comes to an entry. -/
def start (va : Addr) (size : Uns) (k : ℕ) : ℕ := max (va.toNat % 8) (min (8 * k) (va.toNat % 8 + size.toNat))

/-- The bytes before a position that are in entries of the memory map. -/
def visitedBefore (mapped : Addr → Bool) (va : Addr) (p : ℕ) : List (Addr × Uns) :=
  ((locsBefore va p).filter fun l => mapped l.key).map Loc.visit

/-- A visit of a byte. -/
theorem visitedBefore_visit (h : va.toNat % 8 ≤ p) (hmapped : mapped (mapKey (entryAt va (p / 8))) = true) :
    visitedBefore mapped va (p + 1) = visitedBefore mapped va p ++ [(locAt va p).visit] := by
  have hkept : [locAt va p].filter (fun l => mapped l.key) = [locAt va p] :=
    List.filter_eq_self.mpr fun l hl => List.mem_singleton.mp hl ▸ hmapped
  rw [visitedBefore]
  rw [locsBefore_succ h, List.filter_append, hkept, List.map_append]
  rfl

/-- An entry that is passed over. -/
theorem visitedBefore_pass (h : va.toNat % 8 ≤ p) (hunmapped : mapped (mapKey (entryAt va k)) = false) (n : ℕ)
    (hp : 8 * k ≤ p) (hn : p + n ≤ 8 * k + 8) : visitedBefore mapped va (p + n) = visitedBefore mapped va p := by
  induction n with
  | zero => rfl
  | succ n ih =>
      have hk : (p + n) / 8 = k := by omega
      have hnone : [locAt va (p + n)].filter (fun l => mapped l.key) = [] := by
        refine List.filter_eq_nil_iff.mpr fun l hl => ?_
        rw [List.mem_singleton.mp hl, locAt, hk, hunmapped]
        decide
      rw [visitedBefore] at ih ⊢
      rw [← Nat.add_assoc, locsBefore_succ (by omega), List.filter_append, hnone, List.append_nil]
      exact ih (by omega)

/-! ## The loops -/

/-- The traversal of an access at its `k`-th entry. -/
structure MemMapTraversal.At (t : MemMapTraversal) (va : Addr) (size : Uns) (k : ℕ) : Prop where
  entry : t.entryAddr = entryAt va k
  first : t.firstEntryAddr = entryAt va 0
  last : t.lastEntryAddr = entryAt va (lastEntry va size)
  firstByte : t.firstEntryFirstByte.toNat = va.toNat % 8
  lastByte : t.lastEntryLastByte.toNat = (va.toNat % 8 + size.toNat - 1) % 8

theorem MemMapTraversal.At.next (h : t.At va size k) : t.entryNext.At va size (k + 1) := by
  refine ⟨?_, h.first, h.last, h.firstByte, h.lastByte⟩
  rw [MemMapTraversal.entryNext]
  rw [h.entry]
  exact nextEntry_entryAt va k

theorem lastEntry_lt (va : Addr) (size : Uns) : 8 * lastEntry va size < 2 ^ 33 := by
  have hlt := size.isLt
  rw [lastEntry]
  omega

/-- The traversal is done behind the last entry. -/
theorem MemMapTraversal.At.done_iff (h : t.At va size k) (hk : k ≤ lastEntry va size + 1) :
    t.entryDone = true ↔ k = lastEntry va size + 1 := by
  have hlt := lastEntry_lt va size
  rw [MemMapTraversal.entryDone]
  rw [beq_iff_eq, h.entry, h.last, show addrPlusOffset (entryAt va (lastEntry va size)) 8 = _ from nextEntry_entryAt va _]
  exact ⟨fun hsame => entryAt_inj (by omega) (by omega) hsame, fun hsame => by rw [hsame]⟩

/-- The bytes of an entry: the assertion holds, and they are those of the access. -/
theorem MemMapTraversal.At.byteInit (h : t.At va size k) (hsize : 0 < size.toNat) (hk : k ≤ lastEntry va size) :
    ∃ t', t.byteInit = .ok t' ∧ t'.At va size k ∧ 8 * k + t'.byte.toNat = start va size k ∧
      8 * k + t'.lastByte.toNat + 1 = start va size (k + 1) ∧ t'.byte.toNat ≤ t'.lastByte.toNat ∧ t'.lastByte.toNat < 8 := by
  have hbound := lastEntry_lt va size
  have hfirst : t.entryAddr = t.firstEntryAddr ↔ k = 0 := by
    rw [h.entry, h.first]
    exact ⟨fun hsame => entryAt_inj (by omega) (by omega) hsame, fun hsame => by rw [hsame]⟩
  have hlast : t.entryAddr = t.lastEntryAddr ↔ k = lastEntry va size := by
    rw [h.entry, h.last]
    exact ⟨fun hsame => entryAt_inj (by omega) (by omega) hsame, fun hsame => by rw [hsame]⟩
  have hbyte : (if t.entryAddr = t.firstEntryAddr then t.firstEntryFirstByte else 0).toNat = if k = 0 then va.toNat % 8 else 0 := by
    by_cases hzero : k = 0
    · rw [if_pos (hfirst.mpr hzero), if_pos hzero, h.firstByte]
    · rw [if_neg (mt hfirst.mp hzero), if_neg hzero]
      rfl
  have hend : (if t.entryAddr = t.lastEntryAddr then t.lastEntryLastByte else 8 - 1).toNat =
      if k = lastEntry va size then (va.toNat % 8 + size.toNat - 1) % 8 else 7 := by
    by_cases hsame : k = lastEntry va size
    · rw [if_pos (hlast.mpr hsame), if_pos hsame, h.lastByte]
    · rw [if_neg (mt hlast.mp hsame), if_neg hsame]
      rfl
  have hlimits : 8 * k + (if k = 0 then va.toNat % 8 else 0) = start va size k ∧
      8 * k + (if k = lastEntry va size then (va.toNat % 8 + size.toNat - 1) % 8 else 7) + 1 = start va size (k + 1) ∧
      (if k = 0 then va.toNat % 8 else 0) ≤ (if k = lastEntry va size then (va.toNat % 8 + size.toNat - 1) % 8 else 7) ∧
      (if k = lastEntry va size then (va.toNat % 8 + size.toNat - 1) % 8 else 7) < 8 := by
    unfold start
    rw [lastEntry] at hk ⊢
    refine ⟨?_, ?_, ?_, ?_⟩
    · split
      · omega
      · omega
    · split
      · omega
      · omega
    · split
      · split
        · omega
        · omega
      · omega
    · split
      · omega
      · omega
  rw [← hbyte, ← hend] at hlimits
  rw [MemMapTraversal.byteInit]
  dsimp only
  rw [if_pos (BitVec.le_def.mpr hlimits.2.2.1)]
  exact ⟨_, rfl, ⟨h.entry, h.first, h.last, h.firstByte, h.lastByte⟩, hlimits⟩

/-- The loop over the bytes of an entry, if what follows it returns. -/
theorem bytes_return {visited : List (Addr × Uns)} (hmapped : mapped (mapKey (entryAt va k)) = true)
    (hnext : ∀ t : MemMapTraversal, t.At va size (k + 1) →
      Returns (fun fuel => loop (traverseTurn mapped) fuel ⟨t, false, visitedBefore mapped va (start va size (k + 1))⟩) visited)
    (n : ℕ) (t : MemMapTraversal) (h : t.At va size k) (hfirst : va.toNat % 8 ≤ 8 * k + t.byte.toNat)
    (hend : 8 * k + t.lastByte.toNat + 1 = start va size (k + 1)) (hlt : t.lastByte.toNat < 8)
    (hn : t.byte.toNat + n = t.lastByte.toNat + 1) :
    Returns (fun fuel => loop (traverseTurn mapped) fuel ⟨t, true, visitedBefore mapped va (8 * k + t.byte.toNat)⟩) visited := by
  induction n generalizing t with
  | zero =>
      refine returns_of_turn ?_ (hnext t.entryNext h.next)
      have hdone : t.byteDone = true := decide_eq_true (BitVec.lt_def.mpr (by omega))
      have hp : 8 * k + t.byte.toNat = start va size (k + 1) := by omega
      rw [traverseTurn]
      rw [if_pos rfl, if_pos hdone, hp]
  | succ n ih =>
      have hdone : ¬ t.byteDone = true := by
        rw [MemMapTraversal.byteDone]
        rw [decide_eq_true_eq, BitVec.lt_def]
        omega
      have hbyte : t.byteNext.byte.toNat = t.byte.toNat + 1 := by
        rw [MemMapTraversal.byteNext]
        rw [BitVec.toNat_add, show (1 : Uns).toNat = 1 from rfl, Nat.mod_eq_of_lt (by omega)]
      have hvisit : visitedBefore mapped va (8 * k + t.byte.toNat) ++ [(mapKey t.entryAddr, t.byte)] =
          visitedBefore mapped va (8 * k + t.byteNext.byte.toNat) := by
        have hk : (8 * k + t.byte.toNat) / 8 = k := by omega
        have hplace : (8 * k + t.byte.toNat) % 8 = t.byte.toNat := by omega
        rw [hbyte, ← Nat.add_assoc, visitedBefore_visit hfirst (hk.symm ▸ hmapped), h.entry]
        rw [Loc.visit, locAt]
        dsimp only
        rw [hk, hplace, BitVec.ofNat_toNat, BitVec.setWidth_eq]
      refine returns_of_turn ?_ (ih t.byteNext ⟨h.entry, h.first, h.last, h.firstByte, h.lastByte⟩ (by omega) hend hlt
        (by show t.byteNext.byte.toNat + n = t.lastByte.toNat + 1; omega))
      rw [traverseTurn]
      rw [if_pos rfl, if_neg hdone]
      dsimp only
      rw [hvisit]

/-- The loop over the entries, from the `k`-th one on. -/
theorem entries_return (mapped : Addr → Bool) (hsize : 0 < size.toNat) (m : ℕ) (k : ℕ) (t : MemMapTraversal) (h : t.At va size k)
    (hm : k + m = lastEntry va size + 1) :
    Returns (fun fuel => loop (traverseTurn mapped) fuel ⟨t, false, visitedBefore mapped va (start va size k)⟩)
      (visitedBefore mapped va (va.toNat % 8 + size.toNat)) := by
  induction m generalizing k t with
  | zero =>
      have hend : start va size k = va.toNat % 8 + size.toNat := by
        rw [start]
        rw [lastEntry] at hm
        omega
      refine returns_of_end ?_
      rw [traverseTurn]
      rw [if_neg Bool.false_ne_true, if_pos ((h.done_iff (by omega)).mpr hm), hend]
  | succ m ih =>
      have hdone : ¬ t.entryDone = true := by
        rw [h.done_iff (by omega)]
        omega
      by_cases hmapped : mapped (mapKey t.entryAddr) = true
      · obtain ⟨t', hinit, hat, hbyte, hend, hle, hlt⟩ := h.byteInit hsize (by omega)
        have hfirst : va.toNat % 8 ≤ 8 * k + t'.byte.toNat := by
          rw [hbyte]
          exact Nat.le_max_left _ _
        refine returns_of_turn ?_ (bytes_return (h.entry ▸ hmapped) (fun t ht => ih (k + 1) t ht (by omega))
          (t'.lastByte.toNat + 1 - t'.byte.toNat) t' hat hfirst hend hlt (by omega))
        rw [traverseTurn]
        rw [if_neg Bool.false_ne_true, if_neg hdone, if_pos hmapped, hinit, hbyte]
        rfl
      · -- no byte of the entry is visited
        have hunmapped : mapped (mapKey (entryAt va k)) = false := by
          rw [← h.entry]
          simpa using hmapped
        have hpass : visitedBefore mapped va (start va size (k + 1)) = visitedBefore mapped va (start va size k) := by
          have hstart : start va size (k + 1) = start va size k + (start va size (k + 1) - start va size k) := by
            unfold start
            omega
          rw [hstart]
          have hbounds : 8 * k ≤ start va size k ∧ start va size k + (start va size (k + 1) - start va size k) ≤ 8 * k + 8 := by
            unfold start
            rw [lastEntry] at hm
            omega
          exact visitedBefore_pass (Nat.le_max_left _ _) hunmapped _ hbounds.1 hbounds.2
        refine returns_of_turn ?_ (ih (k + 1) t.entryNext h.next (by omega))
        rw [traverseTurn]
        rw [if_neg Bool.false_ne_true, if_neg hdone, if_neg hmapped, hpass]

/-- The positions of an access, entry by entry. -/
theorem range_eight_mul (n : ℕ) : List.range (8 * n) = (List.range n).flatMap fun k => (List.range 8).map (8 * k + ·) := by
  induction n with
  | zero => rfl
  | succ n ih =>
      rw [Nat.mul_succ, List.range_add, ih, show List.range (n + 1) = List.range n ++ [n] from List.range_succ,
        List.flatMap_append, List.flatMap_singleton]

/-- The positions of an access among those of its entries. -/
theorem filter_range_eq_range' {first count n : ℕ} (h : first + count ≤ n) :
    (List.range n).filter (fun p => first ≤ p ∧ p < first + count) = List.range' first count := by
  have hsplit : List.range n = List.range' 0 first ++ List.range' first count ++ List.range' (first + count) (n - (first + count)) := by
    have hfront := List.range'_append_1 (s := 0) (m := first) (n := count)
    have hall := List.range'_append_1 (s := 0) (m := first + count) (n := n - (first + count))
    rw [Nat.zero_add] at hfront hall
    rw [hfront, hall, Nat.add_sub_cancel' h, List.range_eq_range']
  rw [hsplit, List.filter_append, List.filter_append, List.filter_eq_nil_iff.mpr, List.filter_eq_self.mpr,
    List.filter_eq_nil_iff.mpr, List.nil_append, List.append_nil]
  · intro p hp
    rw [List.mem_range'_1] at hp
    simp only [decide_eq_true_eq]
    omega
  · intro p hp
    rw [List.mem_range'_1] at hp
    simp only [decide_eq_true_eq]
    omega
  · intro p hp
    rw [List.mem_range'_1] at hp
    simp only [decide_eq_true_eq]
    omega

/-- The bytes of an access stand in order. -/
theorem accessLocs_eq (va : Addr) (size : Uns) :
    accessLocs va size = (List.range size.toNat).map fun i => Loc.of (byteAddr va i) := by
  by_cases hzero : size.toNat = 0
  · rw [accessLocs]
    rw [entries_zero va hzero, hzero]
    rfl
  have hsize : 0 < size.toNat := Nat.pos_of_ne_zero hzero
  have hentry (k : ℕ) (hk : k ≤ lastEntry va size) :
      (bytesIn va size (entryAt va k)).map (fun byte => (⟨mapKey (entryAt va k), byte⟩ : Loc)) =
        (((List.range 8).map (8 * k + ·)).filter
          fun p => va.toNat % 8 ≤ p ∧ p < va.toNat % 8 + size.toNat).map (locAt va) := by
    have hbytes : bytesIn va size (entryAt va k) =
        (List.finRange 8).filter fun byte => va.toNat % 8 ≤ 8 * k + byte.val ∧ 8 * k + byte.val < va.toNat % 8 + size.toNat := by
      rw [bytesIn]
      refine List.filter_congr fun byte _ => ?_
      have hmem := mem_bytesIn va hsize hk byte
      rw [bytesIn] at hmem
      rw [List.mem_filter, and_iff_right (List.mem_finRange byte)] at hmem
      rw [Bool.eq_iff_iff, hmem, decide_eq_true_eq]
    rw [hbytes, ← List.map_coe_finRange_eq_range, List.map_map, List.filter_map, List.map_map]
    refine List.map_congr_left fun byte _ => ?_
    have hlt := byte.isLt
    have hk : (8 * k + byte.val) / 8 = k := by omega
    have hplace : (8 * k + byte.val) % 8 = byte.val := by omega
    simp only [Function.comp_apply, locAt, hk, hplace]
  rw [accessLocs]
  rw [entries_eq va hsize, List.flatMap_map, ← locsBefore_access]
  rw [locsBefore]
  rw [Nat.add_sub_cancel_left, ← filter_range_eq_range' (show va.toNat % 8 + size.toNat ≤ 8 * (lastEntry va size + 1) by unfold lastEntry; omega),
    range_eight_mul, List.filter_flatMap, List.map_flatMap]
  refine List.flatMap_congr fun k hk => hentry k ?_
  have := List.mem_range.mp hk
  omega

/-- The bytes of an access are different ones. -/
theorem accessLocs_nodup (va : Addr) (size : Uns) : (accessLocs va size).Nodup := by
  have hlt := size.isLt
  rw [accessLocs_eq]
  refine List.Nodup.map_on (fun i hi j hj hsame => ?_) List.nodup_range
  have hi := List.mem_range.mp hi
  have hj := List.mem_range.mp hj
  have haddr := congrArg BitVec.toNat (Loc.of_inj hsame)
  rw [toNat_byteAddr, toNat_byteAddr] at haddr
  omega

theorem Loc.visit_inj {l l' : Loc} (h : l.visit = l'.visit) : l = l' := by
  obtain ⟨key, byte⟩ := l
  obtain ⟨key', byte'⟩ := l'
  obtain ⟨hkey, hbyte⟩ := Prod.mk.inj h
  have hvalue := congrArg BitVec.toNat hbyte
  rw [BitVec.toNat_ofNat, BitVec.toNat_ofNat, Nat.mod_eq_of_lt (by omega), Nat.mod_eq_of_lt (by omega)] at hvalue
  congr 1
  exact Fin.ext hvalue

/-- The start of a traversal. -/
theorem MemMapTraversal.entryInit_at (t : MemMapTraversal) (va : Addr) (hsize : 0 < size.toNat) :
    ∃ t', t.entryInit va size = .ok t' ∧ t'.At va size 0 := by
  have hne : size ≠ 0 := by
    rintro rfl
    exact absurd hsize (by decide)
  have hlow (a : Addr) : ((a &&& 7).setWidth 32).toNat = a.toNat % 8 := by
    have hvalue : (a &&& 7).toNat = a.toNat % 2 ^ 3 := Bits.toNat_and_low a 3 (by decide)
    rw [BitVec.toNat_setWidth, hvalue]
    omega
  rw [MemMapTraversal.entryInit]
  dsimp only
  rw [if_neg hne]
  refine ⟨_, rfl, entryAddr_eq_entryAt va, entryAddr_eq_entryAt va, entryAddr_lastVa va hsize, hlow va, ?_⟩
  rw [hlow]
  exact byteInEntry_lastVa va hsize

/-- The traversal of an access ends for every address and size, also where the addresses wrap around, and none of its assertions
fails. It visits the bytes of the access in their order, each once and in the entry of its address, but for the entries
that are not in the memory map. -/
theorem traverse_returns (mapped : Addr → Bool) (t : MemMapTraversal) (va : Addr) (size : Uns) :
    Returns (fun fuel => traverse mapped fuel t va size) (((accessLocs va size).filter fun l => mapped l.key).map Loc.visit) ∧
      accessLocs va size = ((List.range size.toNat).map fun i => Loc.of (byteAddr va i)) ∧
      ((accessLocs va size).map Loc.visit).Nodup := by
  refine ⟨?_, accessLocs_eq va size, (accessLocs_nodup va size).map fun _ _ => Loc.visit_inj⟩
  rw [accessLocs_eq, ← locsBefore_access]
  by_cases hzero : size = 0
  · -- no byte, and the traversal is done at once
    subst hzero
    have hnone : ((locsBefore va (va.toNat % 8 + (0 : Uns).toNat)).filter fun l => mapped l.key).map Loc.visit = [] := by
      rw [locsBefore_access]
      rfl
    obtain ⟨t', hinit, hdone⟩ : ∃ t', t.entryInit va 0 = .ok t' ∧ t'.entryDone = true := by
      rw [MemMapTraversal.entryInit]
      dsimp only
      rw [if_pos rfl]
      exact ⟨_, if_pos (beq_self_eq_true _), beq_self_eq_true _⟩
    unfold traverse
    rw [hinit, hnone]
    refine returns_of_end ?_
    rw [traverseTurn]
    rw [if_neg Bool.false_ne_true, if_pos hdone]
  · have hsize : 0 < size.toNat := by
      rw [Nat.pos_iff_ne_zero]
      exact fun h => hzero (BitVec.eq_of_toNat_eq h)
    obtain ⟨t', hinit, hat⟩ := t.entryInit_at va hsize
    have hstart : visitedBefore mapped va (start va size 0) = [] := by
      have hfirst : start va size 0 = va.toNat % 8 := by
        rw [start]
        omega
      rw [visitedBefore, locsBefore]
      rw [hfirst, Nat.sub_self]
      rfl
    have hreturns := entries_return mapped hsize (lastEntry va size + 1) 0 t' hat (by omega)
    rw [hstart] at hreturns
    unfold traverse
    rw [hinit]
    exact hreturns

end Scarab.Map
