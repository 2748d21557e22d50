import Mathlib.Logic.Function.Iterate
import Scarab.Prefetcher.Request

/-! # The stride prefetcher

`pref_stride.c`. Its requests carry a literal 0 for the core, and the lines are sums of a
last line and strides that nothing keeps inside a region. -/

namespace Scarab.Stride

/-- The knobs of `pref_stride.param.def`, and the line size. -/
structure Params where
  tableN : ℕ
  regionBits : ℕ
  degree : ℕ
  distance : ℕ
  startDistance : Uns
  singleThresh : ℕ
  multiThresh : ℕ
  singleStrideMode : Bool
  log2Line : ℕ

/-- The default of every parameter. -/
def Params.default : Params := ⟨1024, 16, 4, 16, 1, 6, 6, false, 6⟩

structure RegionTableEntry where
  tag : Addr
  valid : Bool
  /-- For LRU. -/
  lastAccess : Uns
  deriving DecidableEq, Repr

structure IndexTableEntry where
  trained : Bool
  /-- In this mode strides are only verified. -/
  trainCountMode : Bool
  numStates : ℕ
  currState : Fin 2
  lastIndex : Addr
  stride : Fin 2 → CInt
  sCnt : Fin 2 → ℕ
  /-- `stride12` and `stride21`. -/
  strans : Fin 2 → CInt
  recnt : ℕ
  count : ℕ
  prefCount : ℕ
  prefCurrState : Fin 2
  prefLastIndex : Addr
  prefSent : ℕ

/-- The single instance of the prefetcher; all cores share it. -/
structure PrefStride where
  /-- `hwp_info->id`. -/
  hwpId : Uns8
  regionTable : ℕ → RegionTableEntry
  indexTable : ℕ → IndexTableEntry

/-- `pref_stride_init`: the tables come from `calloc`. -/
def prefStrideInit (hwpId : Uns8) : PrefStride where
  hwpId
  regionTable _ := ⟨0, false, 0⟩
  indexTable _ :=
    ⟨false, false, 0, 0, 0, fun _ => 0, fun _ => 0, fun _ => 0, 0, 0, 0, 0, 0, 0⟩

variable (p : Params)

/-! ## Training -/

/-- The fields of an entry that `pref_stride_create_newentry` sets. -/
def IndexTableEntry.renew (e : IndexTableEntry) (lineIndex : Addr) : IndexTableEntry :=
  { e with
    trained := false, trainCountMode := false, numStates := 1, currState := 0
    lastIndex := lineIndex, stride := fun _ => 0, sCnt := fun _ => 0, strans := fun _ => 0
    recnt := 0, count := 0, prefSent := 0 }

/-- `pref_stride_create_newentry`. -/
def prefStrideCreateNewentry (s : PrefStride) (idx : ℕ) (lineAddr regionTag : Addr)
    (cycleCount : Uns) : PrefStride :=
  { s with
    regionTable := Function.update s.regionTable idx ⟨regionTag, true, cycleCount⟩
    indexTable :=
      Function.update s.indexTable idx ((s.indexTable idx).renew (lineAddr >>> p.log2Line)) }

/-- The first half of the training of an entry: what the new stride is taken for. -/
def IndexTableEntry.observe (e : IndexTableEntry) (stride : CInt) : IndexTableEntry :=
  let c := e.currState
  if e.trainCountMode then
    if stride = e.stride c ∧ e.count < e.sCnt c then
      { e with recnt := e.recnt + 1, count := e.count + 1 }
    else if stride = e.strans c ∧ e.count = e.sCnt c then
      { e with recnt := e.recnt + 1, count := 0, currState := 1 - c }
    else e.renew e.lastIndex
  else if e.stride c = 0 then
    { e with stride := Function.update e.stride c stride, sCnt := Function.update e.sCnt c 1 }
  else if e.stride c = stride then
    { e with sCnt := Function.update e.sCnt c (e.sCnt c + 1) }
  else if p.singleStrideMode then
    { e with stride := Function.update e.stride c stride, sCnt := Function.update e.sCnt c 1 }
  else
    -- perhaps a transition; back at state 0 both are known, and are verified from here on
    let e := { e with
      strans := Function.update e.strans c stride
      numStates := if e.numStates = 1 then 2 else e.numStates
      currState := 1 - c }
    if e.currState = 0 then { e with trainCountMode := true, count := 0, recnt := 0 } else e

/-! ## The patterns that are followed -/

/-- One stride, or two strides that alternate. -/
inductive Pattern where
  | single
  | multi
  deriving DecidableEq, Repr

namespace Pattern

/-- `pref_index`, the next line of the pattern. -/
def next : Pattern → IndexTableEntry → Addr
  | single, e => e.prefLastIndex + (e.stride 0).signExtend 64
  | multi, e =>
      if e.prefCount = e.sCnt e.prefCurrState then
        e.prefLastIndex + (e.strans e.prefCurrState).signExtend 64
      else e.prefLastIndex + (e.stride e.prefCurrState).signExtend 64

/-- Move on to the next line. -/
def move : Pattern → IndexTableEntry → IndexTableEntry
  | single, e => { e with prefLastIndex := single.next e }
  | multi, e =>
      if e.prefCount = e.sCnt e.prefCurrState then
        { e with
          prefCount := 0, prefCurrState := 1 - e.prefCurrState, prefLastIndex := multi.next e }
      else { e with prefCount := e.prefCount + 1, prefLastIndex := multi.next e }

/-- Move on, for a line that was sent. -/
def sent (pat : Pattern) (e : IndexTableEntry) : IndexTableEntry :=
  { pat.move e with prefSent := e.prefSent + 1 }

end Pattern

/-- The second half of the training: an entry that is sure of its strides is trained. The
product with `STARTDISTANCE` is unsigned. -/
def IndexTableEntry.settle (e : IndexTableEntry) : IndexTableEntry :=
  let e :=
    if p.singleThresh ≤ e.sCnt e.currState then
      { e with
        trained := true, numStates := 1, currState := 0
        prefLastIndex := e.lastIndex + (e.stride 0 * p.startDistance).setWidth 64 }
    else e
  if p.multiThresh ≤ e.recnt then
    Pattern.multi.move^[p.startDistance.toNat]
      { e with
        trained := true, prefCount := e.count, prefCurrState := e.currState
        prefLastIndex := e.lastIndex }
  else e

/-- A trained entry meets a stride: the entry, and the pattern the stride agrees with. -/
def IndexTableEntry.follow (e : IndexTableEntry) (stride : CInt) : IndexTableEntry × Option Pattern :=
  let e := { e with prefSent := e.prefSent - 1 }
  let c := e.currState
  if e.numStates = 1 ∧ stride = e.stride 0 then (e, some .single)
  else if stride = e.stride c ∧ e.count < e.sCnt c ∨ stride = e.strans c ∧ e.count = e.sCnt c then
    if e.count = e.sCnt c then ({ e with count := 0, currState := 1 - c }, some .multi)
    else ({ e with count := e.count + 1 }, some .multi)
  else (e.renew e.lastIndex, none)

/-! ## Sending -/

section

variable {κ : Type} (addto : Ul1Queue κ)

/-- Ask for lines of the pattern until one is refused or enough are on their way. -/
def sendLoop (hwpId : Uns8) (pat : Pattern) : ℕ → IndexTableEntry → κ → IndexTableEntry × κ
  | 0, e, k => (e, k)
  | n + 1, e, k =>
      if e.prefSent < p.distance then
        let (ok, k) := addto (.plain 0 (pat.next e) hwpId) k
        if ok then sendLoop hwpId pat n (pat.sent e) k else (e, k)
      else (e, k)

/-- The region of the address, if it is in the table. -/
def PrefStride.lookup (s : PrefStride) (lineAddr : Addr) : Option ℕ :=
  (List.range p.tableN).find? fun ii =>
    lineAddr >>> p.regionBits == (s.regionTable ii).tag && (s.regionTable ii).valid

/-- The entry with the new line noted, and the stride to it. -/
def IndexTableEntry.advance (e : IndexTableEntry) (lineIndex : Addr) : IndexTableEntry × CInt :=
  ({ e with lastIndex := lineIndex }, (lineIndex - e.lastIndex).setWidth 32)

/-- `pref_stride_ul1_train`. -/
def prefStrideUl1Train (s : PrefStride) (lineAddr : Addr) (ul1Hit : Bool) (cycleCount : Uns) (k : κ) :
    PrefStride × κ :=
  match s.lookup p lineAddr with
  | none =>
      if ul1Hit then (s, k)
      else
        match victim p.tableN (fun ii => (s.regionTable ii).valid)
            (fun ii => (s.regionTable ii).lastAccess) with
        | some idx =>
            (prefStrideCreateNewentry p s idx lineAddr (lineAddr >>> p.regionBits) cycleCount, k)
        | none => (s, k)
  | some ii =>
      let (e, stride) := (s.indexTable ii).advance (lineAddr >>> p.log2Line)
      let s := { s with
        regionTable := Function.update s.regionTable ii
          { s.regionTable ii with lastAccess := cycleCount } }
      if e.trained then
        match e.follow stride with
        | (e, none) => ({ s with indexTable := Function.update s.indexTable ii e }, k)
        | (e, some pat) =>
            let (e, k) := sendLoop p addto s.hwpId pat p.degree e k
            ({ s with indexTable := Function.update s.indexTable ii e }, k)
      else
        let e := (e.observe p stride).settle p
        ({ s with indexTable := Function.update s.indexTable ii e }, k)

/-- `pref_stride_ul1_miss`. -/
def prefStrideUl1Miss (_procId : Uns8) (s : PrefStride) (lineAddr : Addr) (cycleCount : Uns) (k : κ) :
    PrefStride × κ :=
  prefStrideUl1Train p addto s lineAddr false cycleCount k

/-- `pref_stride_ul1_hit`. -/
def prefStrideUl1Hit (_procId : Uns8) (s : PrefStride) (lineAddr : Addr) (cycleCount : Uns) (k : κ) :
    PrefStride × κ :=
  prefStrideUl1Train p addto s lineAddr true cycleCount k

end

/-! ## What is asked for -/

/-- The lines of a pattern that come up in one call, as far as the limits let it go. -/
def upcoming (pat : Pattern) : ℕ → IndexTableEntry → List Addr
  | 0, _ => []
  | n + 1, e =>
      if e.prefSent < p.distance then pat.next e :: upcoming pat n (pat.sent e) else []

/-- The pattern that an address continues, with the entry it is continued from. -/
def PrefStride.continues (s : PrefStride) (lineAddr : Addr) : Option (IndexTableEntry × Pattern) :=
  match s.lookup p lineAddr with
  | none => none
  | some ii =>
      let (e, stride) := (s.indexTable ii).advance (lineAddr >>> p.log2Line)
      if e.trained then (e.follow stride).2.map ((e.follow stride).1, ·) else none

/-- An address continues no pattern, or it is core 0's and so is all that comes up. -/
def PrefStride.StaysInCore (s : PrefStride) (procId : Uns8) (lineAddr : Addr) : Prop :=
  ∀ e pat, s.continues p lineAddr = some (e, pat) →
    procId = 0 ∧ ∀ line ∈ upcoming p pat p.degree e, LineOf p.log2Line 0 line

variable {p} {κ : Type} {addto : Ul1Queue κ}

/-- At the start no region is known. -/
theorem init_continues (hwpId : Uns8) (lineAddr : Addr) :
    (prefStrideInit hwpId).continues p lineAddr = none := by
  have hlookup : (prefStrideInit hwpId).lookup p lineAddr = none := by
    simp [PrefStride.lookup, prefStrideInit]
  simp [PrefStride.continues, hlookup]

/-- The loop asks for a part of what comes up. -/
theorem sendLoop_asks {hwpId : Uns8} {pat : Pattern} {n : ℕ} {e : IndexTableEntry} {k : κ}
    (h : ∀ line ∈ upcoming p pat n e, LineOf p.log2Line 0 line) :
    AsksOnly addto (·.OnBehalfOf p.log2Line 0) k (sendLoop p addto hwpId pat n e k).2 := by
  induction n generalizing e k with
  | zero => exact .refl k
  | succ n ih =>
      unfold sendLoop
      by_cases hsent : e.prefSent < p.distance
      · simp only [upcoming, if_pos hsent, List.mem_cons, forall_eq_or_imp] at h
        rw [if_pos hsent]
        have hgood : (Ul1Request.plain 0 (pat.next e) hwpId).OnBehalfOf p.log2Line 0 := ⟨rfl, h.1⟩
        apply AsksOnly.head hgood
        cases addto (.plain 0 (pat.next e) hwpId) k with
        | mk ok k' =>
            cases ok with
            | true => exact ih h.2
            | false => exact .refl k'
      · rw [if_neg hsent]
        exact .refl k

/-- Training asks only for the demand's core, as long as the pattern stays in core 0. -/
theorem train_asks {s : PrefStride} {procId : Uns8} {lineAddr : Addr} {ul1Hit : Bool}
    {cycleCount : Uns} {k : κ} (h : s.StaysInCore p procId lineAddr) :
    AsksOnly addto (·.OnBehalfOf p.log2Line procId) k
      (prefStrideUl1Train p addto s lineAddr ul1Hit cycleCount k).2 := by
  unfold prefStrideUl1Train
  cases hl : s.lookup p lineAddr with
  | none =>
      cases ul1Hit with
      | true => exact .refl k
      | false =>
          simp only
          cases victim p.tableN (fun ii => (s.regionTable ii).valid)
            (fun ii => (s.regionTable ii).lastAccess) <;> exact .refl k
  | some ii =>
      simp only
      cases ha : (s.indexTable ii).advance (lineAddr >>> p.log2Line) with
      | mk e stride =>
          by_cases ht : e.trained = true
          · cases hf : e.follow stride with
            | mk e' pat =>
                simp only [ht, if_true]
                cases pat with
                | none => exact .refl k
                | some pat =>
                    have hcont : s.continues p lineAddr = some (e', pat) := by
                      simp [PrefStride.continues, hl, ha, ht, hf]
                    obtain ⟨rfl, hlines⟩ := h e' pat hcont
                    exact sendLoop_asks hlines
          · simp only [ht]
            exact .refl k

end Scarab.Stride
