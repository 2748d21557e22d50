import Mathlib.Algebra.Group.Nat.Defs
import Mathlib.Logic.Function.Basic
import Scarab.Prefetcher.Request

/-! # The phase prefetcher

`pref_phase.c`. Its requests carry a literal 0 for the core. The lines come from the
regions that earlier demands of any core marked; the page of a region is taken from a line
index as if it were an address, so these lines are low ones. -/

namespace Scarab.Phase

/-- The knobs of `pref_phase.param.def`, and the line size. The proofs say that a region is
no smaller than a line, and that the tables exist. -/
structure Params where
  primeHash : ℕ
  infosize : ℕ
  log2RegionSize : ℕ
  regionEntries : ℕ
  trackedRegions : ℕ
  interval : Uns
  tableSize : ℕ
  maxdiffThresh : ℕ
  minMisses : ℕ
  /-- `missper < PREF_PHASE_MISSPER`, of `diffnum` and `missnum`. -/
  fewDiffer : ℕ → ℕ → Bool
  log2Line : ℕ
  line_le_region : log2Line ≤ log2RegionSize
  trackedRegions_pos : 0 < trackedRegions
  tableSize_pos : 0 < tableSize

/-- The default of every parameter; `MISSPER` is 0.4. -/
def Params.default : Params where
  primeHash := 16381
  infosize := 16384
  log2RegionSize := 12
  regionEntries := 64
  trackedRegions := 32
  interval := 100000
  tableSize := 64
  maxdiffThresh := 64
  minMisses := 64
  fewDiffer diffnum missnum := 10 * diffnum < 4 * missnum
  log2Line := 6
  line_le_region := Nat.le_add_right 6 6
  trackedRegions_pos := Nat.succ_pos 31
  tableSize_pos := Nat.succ_pos 63

/-- A region being targeted, and its access pattern. -/
structure PhaseRegion where
  pageNumber : Addr
  regionMemAccess : ℕ → Bool
  lastAccess : Uns64
  valid : Bool

structure PhaseInfoEntry where
  memAccess : ℕ → Bool
  mappedRegions : ℕ → PhaseRegion
  lastAccess : Uns64
  valid : Bool

/-- The single instance of the prefetcher; all cores share it. -/
structure PrefPhase where
  /-- `hwp_info->id`. -/
  hwpId : Uns8
  phaseTable : ℕ → PhaseInfoEntry
  intervalStart : Uns64
  currPhaseid : ℕ
  memAccess : ℕ → Bool
  mappedRegions : ℕ → PhaseRegion
  currsentRegid : ℕ
  currsentRegidOffset : ℕ
  numMisses : ℕ

/-- A region as `calloc` and `memset` leave it. -/
def PhaseRegion.zero : PhaseRegion := ⟨0, fun _ => false, 0, false⟩

/-- `pref_phase_init`. It leaves the position of the send loop as `malloc` made it. -/
def prefPhaseInit (hwpId : Uns8) (regid offset : ℕ) : PrefPhase where
  hwpId
  phaseTable _ := ⟨fun _ => false, fun _ => .zero, 0, false⟩
  intervalStart := 0
  currPhaseid := 0
  memAccess _ := false
  mappedRegions _ := .zero
  currsentRegid := regid
  currsentRegidOffset := offset
  numMisses := 0

variable (p : Params)

/-- `PAGENUM`. -/
def pagenum (lineAddr : Addr) : Addr := lineAddr >>> p.log2RegionSize

/-- `region_offset`. -/
def regionOffset (lineAddr : Addr) : ℕ :=
  (lineAddr >>> p.log2Line).toNat % 2 ^ (p.log2RegionSize - p.log2Line)

/-- The line at an offset of a region. -/
def PhaseRegion.line (region : PhaseRegion) (offset : ℕ) : Addr :=
  region.pageNumber <<< (p.log2RegionSize - p.log2Line) + BitVec.ofNat 64 offset

/-! ## Training -/

/-- The loop of `pref_phase_updateregioninfo`: the region of the page, or the one to give up. -/
def chooseRegion (regions : ℕ → PhaseRegion) (page : Addr) : List ℕ → Option ℕ → Option ℕ
  | [], id => id
  | ii :: rest, id =>
      if (regions ii).valid = true ∧ (regions ii).pageNumber = page then some ii
      else
        match id with
        | none => chooseRegion regions page rest (some ii)
        | some b =>
            if (regions ii).valid = false ∨
                (regions b).valid = true ∧ (regions ii).lastAccess < (regions b).lastAccess then
              chooseRegion regions page rest (some ii)
            else chooseRegion regions page rest (some b)

/-- The chosen region notes an access. -/
def PhaseRegion.mark (region : PhaseRegion) (page : Addr) (offset : ℕ) (cycleCount : Uns64) :
    PhaseRegion :=
  let kept :=
    if region.valid = false ∨ region.pageNumber ≠ page then
      fun ii => if ii < p.regionEntries then false else region.regionMemAccess ii
    else region.regionMemAccess
  ⟨page, Function.update kept offset true, cycleCount, true⟩

/-- `pref_phase_updateregioninfo`. -/
def prefPhaseUpdateregioninfo (regions : ℕ → PhaseRegion) (lineAddr : Addr) (cycleCount : Uns64) :
    ℕ → PhaseRegion :=
  match chooseRegion regions (pagenum p lineAddr) (List.range p.trackedRegions) none with
  | some id =>
      Function.update regions id
        ((regions id).mark p (pagenum p lineAddr) (regionOffset p lineAddr) cycleCount)
  | none => regions

/-- The pattern of the interval is close to that of a phase. -/
def PrefPhase.resembles (s : PrefPhase) (ii : ℕ) : Bool :=
  let diffnum := (List.range p.infosize).countP fun jj =>
    s.memAccess jj != (s.phaseTable ii).memAccess jj
  let missnum := (List.range p.infosize).countP fun jj => s.memAccess jj
  decide (diffnum < p.maxdiffThresh) && p.fewDiffer diffnum missnum

/-- The loop of `pref_phase_computenextphase`: a phase like the interval, or the one to
give up. -/
def PrefPhase.choosePhase (s : PrefPhase) : List ℕ → Option ℕ → Bool × Option ℕ
  | [], id => (false, id)
  | ii :: rest, id =>
      if (s.phaseTable ii).valid && s.resembles p ii then (true, some ii)
      else
        match id with
        | none => s.choosePhase rest (some ii)
        | some b =>
            if (s.phaseTable ii).valid = false ∨ (s.phaseTable b).valid = true ∧
                (s.phaseTable ii).lastAccess < (s.phaseTable b).lastAccess then
              s.choosePhase rest (some ii)
            else s.choosePhase rest (some b)

/-- Change one entry of the phase table. -/
def PrefPhase.setPhase (s : PrefPhase) (ii : ℕ) (f : PhaseInfoEntry → PhaseInfoEntry) : PrefPhase :=
  { s with phaseTable := Function.update s.phaseTable ii (f (s.phaseTable ii)) }

/-- `pref_phase_computenextphase`. -/
def prefPhaseComputenextphase (s : PrefPhase) : ℕ × PrefPhase :=
  match s.choosePhase p (List.range p.tableSize) none with
  | (true, id) => (id.getD 0, s)
  | (false, id) => (id.getD 0, s.setPhase (id.getD 0) fun e => { e with valid := false })

/-- `memset` of an array of regions. -/
def clearRegions (regions : ℕ → PhaseRegion) : ℕ → PhaseRegion := fun ii =>
  if ii < p.trackedRegions then .zero else regions ii

/-- The arrays of the interval that ends change places with arrays of the phase table, and
are cleared. -/
def PrefPhase.swap (s : PrefPhase) (next : ℕ) : PrefPhase :=
  let oldRegions := (s.phaseTable s.currPhaseid).mappedRegions
  { (s.setPhase next fun e => { e with memAccess := s.memAccess }).setPhase s.currPhaseid
      fun e => { e with mappedRegions := s.mappedRegions } with
    memAccess := fun _ => false, mappedRegions := clearRegions p oldRegions }

/-- A phase that is new starts with no regions. -/
def PrefPhase.makeValid (s : PrefPhase) (next : ℕ) : PrefPhase :=
  if (s.phaseTable next).valid then s
  else s.setPhase next fun e =>
    { e with valid := true, mappedRegions := clearRegions p e.mappedRegions }

/-- The start of the next phase. -/
def PrefPhase.enter (s : PrefPhase) (next : ℕ) (cycleCount : Uns64) : PrefPhase :=
  { ((s.swap p next).makeValid p next).setPhase next fun e => { e with lastAccess := cycleCount } with
    currPhaseid := next, currsentRegid := 0, currsentRegidOffset := 0 }

/-- `pref_phase_ul1_train` up to the prefetches. -/
def PrefPhase.learn (s : PrefPhase) (lineIndex : Addr) (instCount cycleCount : Uns64) : PrefPhase :=
  let s := { s with
    memAccess := Function.update s.memAccess (lineIndex.toNat % p.primeHash) true
    mappedRegions := prefPhaseUpdateregioninfo p s.mappedRegions lineIndex cycleCount
    numMisses := s.numMisses + 1 }
  if p.interval.setWidth 64 < instCount - s.intervalStart then
    let s := { s with intervalStart := instCount }
    if p.minMisses < s.numMisses then
      let (next, s) := prefPhaseComputenextphase p { s with numMisses := 0 }
      s.enter p next cycleCount
    else s
  else s

/-! ## Sending -/

/-- A region of the current phase. The loop runs to `REGIONENTRIES`, not to the number of
regions; behind these it reads whatever the memory holds. -/
def PrefPhase.region (s : PrefPhase) (stray : ℕ → PhaseRegion) (regid : ℕ) : PhaseRegion :=
  if regid < p.trackedRegions then (s.phaseTable s.currPhaseid).mappedRegions regid
  else stray regid

section

variable {κ : Type} (addto : Ul1Queue κ)

/-- The loop over the offsets of a region; `qFull`, and where it ended. -/
def sendRegion (hwpId : Uns8) (region : PhaseRegion) : ℕ → ℕ → κ → Bool × ℕ × κ
  | 0, offset, k => (false, offset, k)
  | n + 1, offset, k =>
      if region.regionMemAccess offset then
        let (ok, k) := addto (.plain 0 (region.line p offset) hwpId) k
        if ok then sendRegion hwpId region n (offset + 1) k else (true, offset, k)
      else sendRegion hwpId region n (offset + 1) k

/-- On to the next region. -/
def PrefPhase.nextRegion (s : PrefPhase) : PrefPhase :=
  { s with currsentRegid := s.currsentRegid + 1, currsentRegidOffset := 0 }

/-- The loop over the regions. -/
def sendRegions (stray : ℕ → PhaseRegion) : ℕ → PrefPhase → κ → PrefPhase × κ
  | 0, s, k => (s, k)
  | n + 1, s, k =>
      let region := s.region p stray s.currsentRegid
      if region.valid then
        match sendRegion p addto s.hwpId region (p.regionEntries - s.currsentRegidOffset)
            s.currsentRegidOffset k with
        | (true, offset, k) => ({ s with currsentRegidOffset := offset }, k)
        | (false, _, k) => sendRegions stray n s.nextRegion k
      else sendRegions stray n s.nextRegion k

/-- `pref_phase_ul1_train`, with the instructions of core 0 so far. -/
def prefPhaseUl1Train (s : PrefPhase) (lineAddr : Addr) (instCount cycleCount : Uns64)
    (stray : ℕ → PhaseRegion) (k : κ) : PrefPhase × κ :=
  let s := s.learn p (lineAddr >>> p.log2Line) instCount cycleCount
  sendRegions p addto stray (p.regionEntries - s.currsentRegid) s k

/-- `pref_phase_ul1_miss`. -/
def prefPhaseUl1Miss (_procId : Uns8) (s : PrefPhase) (lineAddr : Addr)
    (instCount cycleCount : Uns64) (stray : ℕ → PhaseRegion) (k : κ) : PrefPhase × κ :=
  prefPhaseUl1Train p addto s lineAddr instCount cycleCount stray k

/-- `pref_phase_ul1_prefhit`. -/
def prefPhaseUl1Prefhit (_procId : Uns8) (s : PrefPhase) (lineAddr : Addr)
    (instCount cycleCount : Uns64) (stray : ℕ → PhaseRegion) (k : κ) : PrefPhase × κ :=
  prefPhaseUl1Train p addto s lineAddr instCount cycleCount stray k

end

/-! ## What the regions hold -/

/-- Every access that a region would repeat is a line of core 0. -/
def PhaseRegion.InCore (region : PhaseRegion) : Prop :=
  region.valid = true → ∀ offset < p.regionEntries, region.regionMemAccess offset = true →
    LineOf p.log2Line 0 (region.line p offset)

/-- So it is for every region, of the interval and of the phases. -/
structure PrefPhase.Tracked (s : PrefPhase) : Prop where
  mapped : ∀ ii, (s.mappedRegions ii).InCore p
  phases : ∀ ph ii, ((s.phaseTable ph).mappedRegions ii).InCore p

/-- An access that the send loop comes to if the queue takes everything. -/
structure PrefPhase.Due (s : PrefPhase) (stray : ℕ → PhaseRegion) (regid offset : ℕ) : Prop where
  regid_ge : s.currsentRegid ≤ regid
  regid_lt : regid < p.regionEntries
  offset_ge : regid = s.currsentRegid → s.currsentRegidOffset ≤ offset
  offset_lt : offset < p.regionEntries
  valid : (s.region p stray regid).valid = true
  marked : (s.region p stray regid).regionMemAccess offset = true

/-- The index of the line, taken for an address, is in core 0; and only demands of core 0
send, and nothing that was read behind the regions leads out of it. -/
structure PrefPhase.StaysInCore (s : PrefPhase) (procId : Uns8) (lineAddr : Addr)
    (instCount cycleCount : Uns64) (stray : ℕ → PhaseRegion) : Prop where
  index : LineOf p.log2Line 0 (lineAddr >>> p.log2Line >>> p.log2Line)
  due : ∀ regid offset,
    (s.learn p (lineAddr >>> p.log2Line) instCount cycleCount).Due p stray regid offset →
      procId = 0 ∧ (p.trackedRegions ≤ regid → LineOf p.log2Line 0 ((stray regid).line p offset))

variable {p}

theorem PhaseRegion.zero_inCore : PhaseRegion.zero.InCore p := by
  intro hvalid
  cases hvalid

/-- A page and an offset of it make up the line index they were taken from. -/
theorem line_of_index (lineIndex : Addr) {region : PhaseRegion}
    (h : region.pageNumber = pagenum p lineIndex) :
    region.line p (regionOffset p lineIndex) = lineIndex >>> p.log2Line := by
  have hsplit : p.log2RegionSize = p.log2Line + (p.log2RegionSize - p.log2Line) := by
    have := p.line_le_region
    omega
  have hx : lineIndex.toNat / 2 ^ p.log2Line < 2 ^ 64 :=
    Nat.lt_of_le_of_lt (Nat.div_le_self _ _) lineIndex.isLt
  have hdiv := Nat.div_add_mod (lineIndex.toNat / 2 ^ p.log2Line)
    (2 ^ (p.log2RegionSize - p.log2Line))
  apply BitVec.eq_of_toNat_eq
  unfold PhaseRegion.line regionOffset
  rw [h, pagenum]
  simp only [BitVec.toNat_add, BitVec.toNat_shiftLeft, BitVec.toNat_ushiftRight, BitVec.toNat_ofNat,
    Nat.shiftRight_eq_div_pow, Nat.shiftLeft_eq, Nat.mod_add_mod, Nat.add_mod_mod]
  rw [show lineIndex.toNat / 2 ^ p.log2RegionSize =
      lineIndex.toNat / 2 ^ p.log2Line / 2 ^ (p.log2RegionSize - p.log2Line) by
    rw [Nat.div_div_eq_div_mul, ← Nat.pow_add, ← hsplit], Nat.mul_comm, hdiv, Nat.mod_eq_of_lt hx]

theorem PhaseRegion.mark_inCore {region : PhaseRegion} {lineIndex : Addr} {cycleCount : Uns64}
    (h : region.InCore p) (hindex : LineOf p.log2Line 0 (lineIndex >>> p.log2Line)) :
    (region.mark p (pagenum p lineIndex) (regionOffset p lineIndex) cycleCount).InCore p := by
  intro _ offset hlt hmarked
  by_cases ho : offset = regionOffset p lineIndex
  · rw [ho, line_of_index lineIndex rfl]
    exact hindex
  · simp only [mark, Function.update_of_ne ho] at hmarked
    by_cases hnew : region.valid = false ∨ region.pageNumber ≠ pagenum p lineIndex
    · simp [hnew, hlt] at hmarked
    · rw [if_neg hnew] at hmarked
      obtain ⟨hvalid, hpage⟩ := not_or.mp hnew
      have hline := h (by simpa using hvalid) offset hlt hmarked
      simpa [PhaseRegion.line, mark, Decidable.not_not.mp hpage] using hline

theorem updateregioninfo_inCore {regions : ℕ → PhaseRegion} {lineIndex : Addr} {cycleCount : Uns64}
    (h : ∀ ii, (regions ii).InCore p) (hindex : LineOf p.log2Line 0 (lineIndex >>> p.log2Line))
    (ii : ℕ) : (prefPhaseUpdateregioninfo p regions lineIndex cycleCount ii).InCore p := by
  unfold prefPhaseUpdateregioninfo
  cases chooseRegion regions (pagenum p lineIndex) (List.range p.trackedRegions) none with
  | none => exact h ii
  | some id =>
      by_cases hid : ii = id
      · subst hid
        simpa using PhaseRegion.mark_inCore (h ii) hindex
      · simpa [Function.update_of_ne hid] using h ii

theorem clearRegions_inCore {regions : ℕ → PhaseRegion} (h : ∀ ii, (regions ii).InCore p) (ii : ℕ) :
    (clearRegions p regions ii).InCore p := by
  unfold clearRegions
  split
  · exact PhaseRegion.zero_inCore
  · exact h ii

/-- A change of one phase keeps what is tracked if the regions of the phase do. -/
theorem PrefPhase.Tracked.setPhase {s : PrefPhase} (h : s.Tracked p) {ph : ℕ}
    {f : PhaseInfoEntry → PhaseInfoEntry}
    (hf : ∀ ii, ((f (s.phaseTable ph)).mappedRegions ii).InCore p) : (s.setPhase ph f).Tracked p := by
  refine ⟨h.mapped, ?_⟩
  intro ph' ii
  by_cases hph : ph' = ph
  · subst hph
    simpa [PrefPhase.setPhase] using hf ii
  · simpa [PrefPhase.setPhase, Function.update_of_ne hph] using h.phases ph' ii

theorem PrefPhase.Tracked.swap {s : PrefPhase} (h : s.Tracked p) (next : ℕ) :
    (s.swap p next).Tracked p := by
  have htable : ((s.setPhase next fun e => { e with memAccess := s.memAccess }).setPhase s.currPhaseid
      fun e => { e with mappedRegions := s.mappedRegions }).Tracked p :=
    (h.setPhase (h.phases next)).setPhase h.mapped
  exact ⟨clearRegions_inCore (h.phases s.currPhaseid), htable.phases⟩

theorem PrefPhase.Tracked.makeValid {s : PrefPhase} (h : s.Tracked p) (next : ℕ) :
    (s.makeValid p next).Tracked p := by
  unfold PrefPhase.makeValid
  split
  · exact h
  · exact h.setPhase (clearRegions_inCore (h.phases next))

/-- A change of phase only moves and clears arrays of regions. -/
theorem PrefPhase.Tracked.enter {s : PrefPhase} (h : s.Tracked p) (next : ℕ) (cycleCount : Uns64) :
    (s.enter p next cycleCount).Tracked p := by
  have hnew := (h.swap next).makeValid next
  have hlast : (((s.swap p next).makeValid p next).setPhase next
      fun e => { e with lastAccess := cycleCount }).Tracked p := hnew.setPhase (hnew.phases next)
  exact ⟨hlast.mapped, hlast.phases⟩

theorem PrefPhase.Tracked.computenextphase {s : PrefPhase} (h : s.Tracked p) :
    (prefPhaseComputenextphase p s).2.Tracked p := by
  unfold prefPhaseComputenextphase
  split
  · exact h
  · rename_i id _
    have hdrop : (s.setPhase (id.getD 0) fun e => { e with valid := false }).Tracked p :=
      h.setPhase (h.phases (id.getD 0))
    exact hdrop

theorem PrefPhase.Tracked.learn {s : PrefPhase} (h : s.Tracked p) {lineIndex : Addr}
    {instCount cycleCount : Uns64} (hindex : LineOf p.log2Line 0 (lineIndex >>> p.log2Line)) :
    (s.learn p lineIndex instCount cycleCount).Tracked p := by
  have hmapped : ∀ ii,
      (prefPhaseUpdateregioninfo p s.mappedRegions lineIndex cycleCount ii).InCore p :=
    updateregioninfo_inCore h.mapped hindex
  unfold PrefPhase.learn
  simp only
  split
  · split
    · apply PrefPhase.Tracked.enter
      apply PrefPhase.Tracked.computenextphase
      exact ⟨hmapped, h.phases⟩
    · exact ⟨hmapped, h.phases⟩
  · exact ⟨hmapped, h.phases⟩

theorem prefPhaseInit_tracked (hwpId : Uns8) (regid offset : ℕ) :
    (prefPhaseInit hwpId regid offset).Tracked p :=
  ⟨fun _ => PhaseRegion.zero_inCore, fun _ _ => PhaseRegion.zero_inCore⟩

/-! ## What is asked for -/

variable {κ : Type} {addto : Ul1Queue κ} {procId : Uns8} {stray : ℕ → PhaseRegion}

theorem sendRegion_asks {hwpId : Uns8} {region : PhaseRegion} {n offset : ℕ} {k : κ}
    (h : ∀ off, offset ≤ off → off < offset + n → region.regionMemAccess off = true →
      procId = 0 ∧ LineOf p.log2Line 0 (region.line p off)) :
    AsksOnly addto (·.OnBehalfOf p.log2Line procId) k
      (sendRegion p addto hwpId region n offset k).2.2 := by
  induction n generalizing offset k with
  | zero => exact .refl k
  | succ n ih =>
      unfold sendRegion
      by_cases hm : region.regionMemAccess offset = true
      · rw [if_pos hm]
        obtain ⟨rfl, hline⟩ := h offset (by omega) (by omega) hm
        have hgood : (Ul1Request.plain 0 (region.line p offset) hwpId).OnBehalfOf p.log2Line 0 :=
          ⟨rfl, hline⟩
        apply AsksOnly.head hgood
        cases addto (.plain 0 (region.line p offset) hwpId) k with
        | mk ok k' =>
            cases ok with
            | true => exact ih fun off hle hlt hmark => h off (by omega) (by omega) hmark
            | false => exact .refl k'
      · rw [if_neg hm]
        exact ih fun off hle hlt hmark => h off (by omega) (by omega) hmark

/-- What is due at the next region was due before. -/
theorem PrefPhase.Due.of_nextRegion {s : PrefPhase} {regid offset : ℕ}
    (h : s.nextRegion.Due p stray regid offset) : s.Due p stray regid offset := by
  have hge : s.currsentRegid + 1 ≤ regid := h.regid_ge
  exact ⟨by omega, h.regid_lt, by omega, h.offset_lt, h.valid, h.marked⟩

theorem sendRegions_asks {n : ℕ} {s : PrefPhase} {k : κ}
    (hn : s.currsentRegid + n ≤ p.regionEntries)
    (h : ∀ regid offset, s.Due p stray regid offset →
      procId = 0 ∧ LineOf p.log2Line 0 ((s.region p stray regid).line p offset)) :
    AsksOnly addto (·.OnBehalfOf p.log2Line procId) k (sendRegions p addto stray n s k).2 := by
  induction n generalizing s k with
  | zero => exact .refl k
  | succ n ih =>
      have hnext : ∀ k, AsksOnly addto (·.OnBehalfOf p.log2Line procId) k
          (sendRegions p addto stray n s.nextRegion k).2 := by
        intro k
        apply ih
        · show s.currsentRegid + 1 + n ≤ p.regionEntries
          omega
        · intro regid offset hdue
          exact h regid offset hdue.of_nextRegion
      unfold sendRegions
      simp only
      by_cases hv : (s.region p stray s.currsentRegid).valid = true
      · rw [if_pos hv]
        have hsend : AsksOnly addto (·.OnBehalfOf p.log2Line procId) k
            (sendRegion p addto s.hwpId (s.region p stray s.currsentRegid)
              (p.regionEntries - s.currsentRegidOffset) s.currsentRegidOffset k).2.2 :=
          sendRegion_asks fun off hle hlt hmark => h s.currsentRegid off
            ⟨Nat.le_refl _, by omega, fun _ => hle, by omega, hv, hmark⟩
        cases hr : sendRegion p addto s.hwpId (s.region p stray s.currsentRegid)
            (p.regionEntries - s.currsentRegidOffset) s.currsentRegidOffset k with
        | mk qFull rest =>
            rw [hr] at hsend
            cases qFull with
            | true => exact hsend
            | false => exact hsend.trans (hnext rest.2)
      · rw [if_neg hv]
        exact hnext k

theorem sendRegions_tracked {n : ℕ} {s : PrefPhase} {k : κ} (h : s.Tracked p) :
    (sendRegions p addto stray n s k).1.Tracked p := by
  induction n generalizing s k with
  | zero => exact h
  | succ n ih =>
      have hnext : s.nextRegion.Tracked p := ⟨h.mapped, h.phases⟩
      unfold sendRegions
      simp only
      split
      · split
        · exact ⟨h.mapped, h.phases⟩
        · exact ih hnext
      · exact ih hnext

/-- Training asks only for the demand's core, as long as core 0 is the one that asks and
no line is read out of stray memory. -/
theorem train_asks {s : PrefPhase} (htracked : s.Tracked p) {lineAddr : Addr}
    {instCount cycleCount : Uns64} {k : κ}
    (h : s.StaysInCore p procId lineAddr instCount cycleCount stray) :
    AsksOnly addto (·.OnBehalfOf p.log2Line procId) k
      (prefPhaseUl1Train p addto s lineAddr instCount cycleCount stray k).2 := by
  have hlearn : (s.learn p (lineAddr >>> p.log2Line) instCount cycleCount).Tracked p :=
    htracked.learn h.index
  unfold prefPhaseUl1Train
  simp only
  by_cases hle : (s.learn p (lineAddr >>> p.log2Line) instCount cycleCount).currsentRegid ≤
      p.regionEntries
  · apply sendRegions_asks (by omega)
    intro regid offset hdue
    obtain ⟨hcore, hstray⟩ := h.due regid offset hdue
    refine ⟨hcore, ?_⟩
    by_cases hreg : regid < p.trackedRegions
    · have hvalid := hdue.valid
      have hmarked := hdue.marked
      simp only [PrefPhase.region, if_pos hreg] at hvalid hmarked ⊢
      exact hlearn.phases _ regid hvalid offset hdue.offset_lt hmarked
    · simp only [PrefPhase.region, if_neg hreg]
      exact hstray (by omega)
  · rw [Nat.sub_eq_zero_of_le (by omega)]
    exact .refl k

/-- Training keeps every region in core 0. -/
theorem train_tracked {s : PrefPhase} (htracked : s.Tracked p) {lineAddr : Addr}
    {instCount cycleCount : Uns64} {k : κ}
    (hindex : LineOf p.log2Line 0 (lineAddr >>> p.log2Line >>> p.log2Line)) :
    (prefPhaseUl1Train p addto s lineAddr instCount cycleCount stray k).1.Tracked p :=
  sendRegions_tracked (htracked.learn hindex)

end Scarab.Phase
