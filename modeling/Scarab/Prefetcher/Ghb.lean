import Mathlib.Logic.Function.Basic
import Scarab.Lib.Execution
import Scarab.Prefetcher.Request

/-! # The global history buffer prefetcher

`pref_ghb.c`, one instance per core. Before every request it asserts that the line is one
of the core; a failed assertion ends the simulation. -/

namespace Scarab.Ghb

/-- The knobs of `pref_ghb.param.def`, and the line size. -/
structure Params where
  bufferN : ℕ
  indexN : ℕ
  czoneBits : ℕ
  degree : ℕ
  maxDegree : ℕ
  log2Line : ℕ
  log2Line_lt : log2Line < 58

/-- The default of every parameter. -/
def Params.default : Params := ⟨1024, 128, 12, 16, 32, 6, by decide⟩

structure IndexTableEntry where
  czoneTag : Addr
  valid : Bool
  /-- The last entry in the buffer with the same zone. -/
  ghbPtr : ℤ
  lastAccess : Uns
  deriving DecidableEq, Repr

/-- An entry of the buffer; -1 is no pointer. -/
structure GhbEntry where
  missIndex : Addr
  ghbPtr : ℤ
  ghbReversePtr : ℤ
  idxReversePtr : ℤ
  deriving DecidableEq, Repr

structure PrefGhb where
  /-- `hwp_info->id`. -/
  hwpId : Uns8
  indexTable : ℕ → IndexTableEntry
  ghbBuffer : ℕ → GhbEntry
  ghbTail : ℤ
  ghbHead : ℤ
  deltabSize : ℕ
  deltaBuffer : ℕ → CInt
  prefDegree : ℕ

variable (p : Params)

/-- `pref_ghb_init`, for one core. The tags, the zone pointers and the miss indices are left
as `malloc` made them. -/
def prefGhbInit (hwpId : Uns8) (czoneTag : ℕ → Addr) (ghbPtr : ℕ → ℤ) (missIndex : ℕ → Addr) :
    PrefGhb where
  hwpId
  indexTable ii := ⟨czoneTag ii, false, ghbPtr ii, 0⟩
  ghbBuffer ii := ⟨missIndex ii, -1, -1, -1⟩
  ghbTail := -1
  ghbHead := -1
  deltabSize := p.maxDegree + 2
  deltaBuffer _ := 0
  prefDegree := p.degree

namespace PrefGhb

/-- The entry of the buffer at a pointer. -/
def entry (s : PrefGhb) (ptr : ℤ) : GhbEntry := s.ghbBuffer ptr.toNat

def setEntry (s : PrefGhb) (ptr : ℤ) (e : GhbEntry) : PrefGhb :=
  { s with ghbBuffer := Function.update s.ghbBuffer ptr.toNat e }

def setIndex (s : PrefGhb) (idx : ℕ) (e : IndexTableEntry) : PrefGhb :=
  { s with indexTable := Function.update s.indexTable idx e }

/-- A word of the delta buffer, or of the memory around it. -/
def delta (s : PrefGhb) (stray : ℤ → CInt) (i : ℤ) : CInt :=
  if 0 ≤ i ∧ i < s.deltabSize then s.deltaBuffer i.toNat else stray i

end PrefGhb

/-! ## A new entry -/

/-- The tail moves on, and pushes the head. -/
def PrefGhb.moveTail (s : PrefGhb) : PrefGhb :=
  let tail := (s.ghbTail + 1) % p.bufferN
  { s with
    ghbTail := tail
    ghbHead :=
      if s.ghbHead = -1 then 0
      else if tail = s.ghbHead then (s.ghbHead + 1) % p.bufferN else s.ghbHead }

/-- Cut the pointers to the entry that the tail overwrites. -/
def PrefGhb.cutTail (s : PrefGhb) (idx : ℕ) : PrefGhb :=
  let revPtr := (s.entry s.ghbTail).ghbReversePtr
  let revIdxPtr := (s.entry s.ghbTail).idxReversePtr
  let s := if revPtr ≠ -1 then s.setEntry revPtr { s.entry revPtr with ghbPtr := -1 } else s
  if revIdxPtr ≠ -1 ∧ (s.indexTable revIdxPtr.toNat).ghbPtr = s.ghbTail ∧ revIdxPtr ≠ idx then
    s.setIndex revIdxPtr.toNat { s.indexTable revIdxPtr.toNat with ghbPtr := -1, valid := false }
  else s

/-- `pref_ghb_create_newentry`. -/
def prefGhbCreateNewentry (s : PrefGhb) (idx : ℕ) (lineAddr czoneTag : Addr) (oldPtr : ℤ)
    (cycleCount : Uns) : PrefGhb :=
  let s := s.setIndex idx ⟨czoneTag, true, (s.indexTable idx).ghbPtr, cycleCount⟩
  let s := s.moveTail p
  -- takes care of some bad corner cases
  let oldPtr := if s.ghbTail = oldPtr then -1 else oldPtr
  let s := s.cutTail idx
  let s := s.setEntry s.ghbTail ⟨lineAddr >>> p.log2Line, oldPtr, -1, idx⟩
  let s :=
    if oldPtr ≠ -1 then s.setEntry oldPtr { s.entry oldPtr with ghbReversePtr := s.ghbTail } else s
  s.setIndex idx { s.indexTable idx with ghbPtr := s.ghbTail }

/-! ## Sending -/

/-- The variables of the search for two deltas that were seen before. -/
structure Search where
  ghbIdx : ℤ
  lineIndex : Addr
  currLineIndex : Addr
  delta1 : CInt
  delta2 : CInt
  numPrefSent : ℕ
  deltabHead : ℤ
  currDeltabSize : ℤ

section

variable {κ : Type} (addto : Ul1Queue κ)

/-- The assertion, and the request. -/
def ask (hwpId procId : Uns8) (lineIndex loadPC : Addr) (k : κ) : Except String κ :=
  if procId.setWidth 64 = lineIndex >>> (58 - p.log2Line) then
    .ok (addto ⟨procId, lineIndex, hwpId, 0, loadPC, 0, false⟩ k).2
  else .error "proc_id == (lineIndex >> (58 - LOG2(DCACHE_LINE_SIZE)))"

/-- The loop for two equal deltas. -/
def strideLoop (hwpId procId : Uns8) (loadPC : Addr) (delta1 : CInt) :
    ℕ → Addr → κ → Except String (Addr × κ)
  | 0, lineIndex, k => .ok (lineIndex, k)
  | n + 1, lineIndex, k => do
      let lineIndex := lineIndex + delta1.signExtend 64
      let k ← ask p addto hwpId procId lineIndex loadPC k
      strideLoop hwpId procId loadPC delta1 n lineIndex k

/-- `CIRC_DEC`. -/
def circDec (val num : ℤ) : ℤ := if val = 0 then num - 1 else val - 1

/-- The walk through the delta buffer after a match. -/
def walkLoop (s : PrefGhb) (stray : ℤ → CInt) (procId : Uns8) (loadPC : Addr)
    (start currDeltabSize : ℤ) : ℕ → ℤ → Addr → κ → Except String κ
  | 0, _, _, k => .ok k
  | n + 1, deltabIdx, lineIndex, k => do
      let lineIndex := lineIndex + (s.delta stray deltabIdx).signExtend 64
      let k ← ask p addto s.hwpId procId lineIndex loadPC k
      let next := circDec deltabIdx s.deltabSize
      walkLoop s stray procId loadPC start currDeltabSize n
        (if currDeltabSize < next then start else next) lineIndex k

/-- Put a delta into the buffer. -/
def Search.push (v : Search) (s : PrefGhb) (delta : CInt) : Search × PrefGhb :=
  let head := (v.deltabHead + 1).tmod s.deltabSize
  ({ v with deltabHead := head, currDeltabSize := v.currDeltabSize + 1 },
    { s with deltaBuffer := Function.update s.deltaBuffer head.toNat delta })

/-- On to the entry before. -/
def Search.back (v : Search) (s : PrefGhb) : Search :=
  { v with currLineIndex := (s.entry v.ghbIdx).missIndex, ghbIdx := (s.entry v.ghbIdx).ghbPtr }

/-- The body of the search loop; no search is left after a `break`. -/
def searchTurn (stray : ℤ → CInt) (procId : Uns8) (loadPC : Addr) (v : Search) (s : PrefGhb) (k : κ) :
    Except String (Option Search × PrefGhb × κ) :=
  let delta : CInt := (v.currLineIndex - (s.entry v.ghbIdx).missIndex).setWidth 32
  if 100 < delta.toInt ∨ delta.toInt < -100 then .ok (none, s, k)
  else
    let (v, s) := v.push s delta
    if v.delta1 = 0 then .ok (some ({ v with delta1 := delta }.back s), s, k)
    else if v.delta2 = 0 then .ok (some ({ v with delta2 := delta }.back s), s, k)
    else if v.delta1 = v.delta2 then do
      let (lineIndex, k) ←
        strideLoop p addto s.hwpId procId loadPC v.delta1 (s.prefDegree - v.numPrefSent) v.lineIndex k
      return (some ({ v with lineIndex, numPrefSent := s.prefDegree }.back s), s, k)
    else if v.delta1 = s.delta stray ((v.deltabHead - 1).tmod s.deltabSize) ∧
        v.delta2 = s.delta stray v.deltabHead then do
      let start := (v.deltabHead - 2).tmod s.deltabSize
      let k ← walkLoop p addto s stray procId loadPC start v.currDeltabSize
        (s.prefDegree - v.numPrefSent) start v.lineIndex k
      return (none, s, k)
    else .ok (some (v.back s), s, k)

/-- The search loop, followed for a number of turns. -/
def search (stray : ℤ → CInt) (procId : Uns8) (loadPC : Addr) :
    ℕ → Search → PrefGhb → κ → Except String (PrefGhb × κ)
  | 0, _, s, k => .ok (s, k)
  | fuel + 1, v, s, k =>
      if v.ghbIdx ≠ -1 ∧ v.numPrefSent < s.prefDegree then do
        let (next, s, k) ← searchTurn p addto stray procId loadPC v s k
        match next with
        | some v => search stray procId loadPC fuel v s k
        | none => return (s, k)
      else .ok (s, k)

/-- The zone of the address, if it is in the table. -/
def PrefGhb.lookup (s : PrefGhb) (lineAddr : Addr) : Option ℕ :=
  (List.range p.indexN).find? fun ii =>
    lineAddr >>> p.czoneBits == (s.indexTable ii).czoneTag && (s.indexTable ii).valid

/-- The index table entry for the address, with the old pointer of its zone; a hit makes
no new zone. -/
def PrefGhb.czone (s : PrefGhb) (lineAddr : Addr) (ul1Hit : Bool) : Option (ℕ × ℤ) :=
  match s.lookup p lineAddr with
  | some ii => some (ii, (s.indexTable ii).ghbPtr)
  | none =>
      if ul1Hit then none
      else
        (victim p.indexN (fun ii => (s.indexTable ii).valid)
          (fun ii => (s.indexTable ii).lastAccess)).map (·, -1)

/-- `pref_ghb_ul1_train`. `throttled` is the degree that a throttle sets, if one is on. -/
def prefGhbUl1Train (procId : Uns8) (s : PrefGhb) (lineAddr loadPC : Addr) (ul1Hit : Bool)
    (cycleCount : Uns) (throttled : Option ℕ) (stray : ℤ → CInt) (turns : ℕ) (k : κ) :
    Except String (PrefGhb × κ) :=
  let lineIndex := lineAddr >>> p.log2Line
  match s.czone p lineAddr ul1Hit with
  | none => .ok (s, k)
  | some (czoneIdx, oldPtr) =>
      if oldPtr ≠ -1 ∧ (s.entry oldPtr).missIndex = lineIndex then .ok (s, k)
      else
        let s := { s with prefDegree := throttled.getD s.prefDegree }
        let s := prefGhbCreateNewentry p s czoneIdx lineAddr (lineAddr >>> p.czoneBits) oldPtr
          cycleCount
        let s := { s with deltaBuffer := fun _ => 0 }
        search p addto stray procId loadPC turns
          ⟨(s.entry s.ghbTail).ghbPtr, lineIndex, lineIndex, 0, 0, 0, -1, 0⟩ s k

end

/-! ## What is asked for -/

variable {p} {κ : Type} {addto : Ul1Queue κ} {procId : Uns8}

/-- The assertion is what makes the line one of the core. -/
theorem lineOf_of_assert {lineIndex : Addr} (hproc : procId.toNat < 64)
    (h : procId.setWidth 64 = lineIndex >>> (58 - p.log2Line)) :
    LineOf p.log2Line procId lineIndex := by
  have hl := p.log2Line_lt
  have hquot : procId.toNat = lineIndex.toNat / 2 ^ (58 - p.log2Line) := by
    have hnat := congrArg BitVec.toNat h
    rwa [BitVec.toNat_setWidth, BitVec.toNat_ushiftRight, Nat.shiftRight_eq_div_pow,
      Nat.mod_eq_of_lt (by omega)] at hnat
  have hpow : 2 ^ (58 - p.log2Line) * 2 ^ p.log2Line = 2 ^ 58 := by
    rw [← Nat.pow_add, Nat.sub_add_cancel (by omega)]
  -- the index is too small for the shift to lose bits
  have hlt : lineIndex.toNat * 2 ^ p.log2Line < 2 ^ 64 := by
    have hsmall : lineIndex.toNat < 64 * 2 ^ (58 - p.log2Line) :=
      (Nat.div_lt_iff_lt_mul (Nat.two_pow_pos _)).mp (by omega)
    calc lineIndex.toNat * 2 ^ p.log2Line
        < 64 * 2 ^ (58 - p.log2Line) * 2 ^ p.log2Line :=
          Nat.mul_lt_mul_of_pos_right hsmall (Nat.two_pow_pos _)
      _ = 64 * 2 ^ 58 := by rw [Nat.mul_assoc, hpow]
      _ = 2 ^ 64 := by decide
  apply BitVec.eq_of_toNat_eq
  rw [BitVec.toNat_setWidth, Nat.mod_eq_of_lt (by omega), BitVec.toNat_ushiftRight,
    BitVec.toNat_shiftLeft, Nat.shiftLeft_eq, Nat.mod_eq_of_lt hlt, Nat.shiftRight_eq_div_pow, hquot,
    ← hpow, Nat.mul_div_mul_right _ _ (Nat.two_pow_pos _)]

theorem ask_asks {hwpId : Uns8} {lineIndex loadPC : Addr} {k k' : κ} (hproc : procId.toNat < 64)
    (h : ask p addto hwpId procId lineIndex loadPC k = .ok k') :
    AsksOnly addto (·.OnBehalfOf p.log2Line procId) k k' := by
  obtain ⟨hassert, hk⟩ := Execution.ite_error_eq_ok.mp h
  cases hk
  exact .head ⟨rfl, lineOf_of_assert hproc hassert⟩ (.refl _)

theorem strideLoop_asks {hwpId : Uns8} {loadPC : Addr} {delta1 : CInt} {n : ℕ} {lineIndex : Addr}
    {k : κ} {out : Addr × κ} (hproc : procId.toNat < 64)
    (h : strideLoop p addto hwpId procId loadPC delta1 n lineIndex k = .ok out) :
    AsksOnly addto (·.OnBehalfOf p.log2Line procId) k out.2 := by
  induction n generalizing lineIndex k with
  | zero =>
      cases h
      exact .refl k
  | succ n ih =>
      obtain ⟨m, hask, hrest⟩ := Execution.bind_eq_ok.mp h
      exact (ask_asks hproc hask).trans (ih hrest)

theorem walkLoop_asks {s : PrefGhb} {stray : ℤ → CInt} {loadPC : Addr} {start size : ℤ} {n : ℕ}
    {deltabIdx : ℤ} {lineIndex : Addr} {k k' : κ} (hproc : procId.toNat < 64)
    (h : walkLoop p addto s stray procId loadPC start size n deltabIdx lineIndex k = .ok k') :
    AsksOnly addto (·.OnBehalfOf p.log2Line procId) k k' := by
  induction n generalizing deltabIdx lineIndex k with
  | zero =>
      cases h
      exact .refl _
  | succ n ih =>
      obtain ⟨m, hask, hrest⟩ := Execution.bind_eq_ok.mp h
      exact (ask_asks hproc hask).trans (ih hrest)

theorem searchTurn_asks {stray : ℤ → CInt} {loadPC : Addr} {v : Search} {s : PrefGhb} {k : κ}
    {out : Option Search × PrefGhb × κ} (hproc : procId.toNat < 64)
    (h : searchTurn p addto stray procId loadPC v s k = .ok out) :
    AsksOnly addto (·.OnBehalfOf p.log2Line procId) k out.2.2 := by
  unfold searchTurn at h
  simp only at h
  split at h
  · cases h
    exact .refl k
  · split at h
    · cases h
      exact .refl k
    · split at h
      · cases h
        exact .refl k
      · split at h
        · obtain ⟨m, hstride, hret⟩ := Execution.bind_eq_ok.mp h
          cases hret
          exact strideLoop_asks hproc hstride
        · split at h
          · obtain ⟨m, hwalk, hret⟩ := Execution.bind_eq_ok.mp h
            cases hret
            exact walkLoop_asks hproc hwalk
          · cases h
            exact .refl k

theorem search_asks {stray : ℤ → CInt} {loadPC : Addr} {turns : ℕ} {v : Search} {s : PrefGhb} {k : κ}
    {out : PrefGhb × κ} (hproc : procId.toNat < 64)
    (h : search p addto stray procId loadPC turns v s k = .ok out) :
    AsksOnly addto (·.OnBehalfOf p.log2Line procId) k out.2 := by
  induction turns generalizing v s k with
  | zero =>
      cases h
      exact .refl k
  | succ turns ih =>
      unfold search at h
      split at h
      · obtain ⟨⟨next, s', k'⟩, hturn, hrest⟩ := Execution.bind_eq_ok.mp h
        have hasks := searchTurn_asks hproc hturn
        cases next with
        | some v' => exact hasks.trans (ih hrest)
        | none =>
            cases hrest
            exact hasks
      · cases h
        exact .refl k

/-- Training asks only for the demand's core; nothing has to be assumed. -/
theorem train_asks {s : PrefGhb} {lineAddr loadPC : Addr} {ul1Hit : Bool} {cycleCount : Uns}
    {throttled : Option ℕ} {stray : ℤ → CInt} {turns : ℕ} {k : κ} {out : PrefGhb × κ}
    (hproc : procId.toNat < 64)
    (h : prefGhbUl1Train p addto procId s lineAddr loadPC ul1Hit cycleCount throttled stray turns k =
      .ok out) :
    AsksOnly addto (·.OnBehalfOf p.log2Line procId) k out.2 := by
  unfold prefGhbUl1Train at h
  simp only at h
  split at h
  · cases h
    exact .refl k
  · split at h
    · cases h
      exact .refl k
    · exact search_asks hproc h

end Scarab.Ghb
