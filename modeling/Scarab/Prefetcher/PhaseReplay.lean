import Scarab.Prefetcher.Phase

/-! # Record and replay

What the phase prefetcher records of an interval, it sends when the phase of the interval recurs. Beside its tables
run the line indices themselves: those that each region recorded since it was given to its page. The recorder
takes a line index for an address, so that what is sent is the recorded index less the bits of a line. -/

namespace Scarab.Phase

variable {p : Params} {κ : Type} {addto : Ul1Queue κ}

/-! ## Recorded lines -/

/-- The line indices recorded in each region of an array. -/
abbrev Lines := ℕ → List Addr

/-- The line indices of the regions of the interval, and of those of each phase. -/
structure Recorded where
  mapped : Lines
  phases : ℕ → Lines

/-- `pref_phase_updateregioninfo`: a page that takes a region displaces the lines of another. -/
def recordLine (p : Params) (regions : ℕ → PhaseRegion) (lines : Lines) (lineIndex : Addr) : Lines :=
  match chooseRegion regions (pagenum p lineIndex) (List.range p.trackedRegions) none with
  | some id =>
      Function.update lines id
        (if (regions id).valid = false ∨ (regions id).pageNumber ≠ pagenum p lineIndex then [lineIndex]
          else lines id ++ [lineIndex])
  | none => lines

/-- The state after the line has been recorded, before the end of the interval is tested. -/
def PrefPhase.noted (p : Params) (s : PrefPhase) (lineIndex : Addr) (cycleCount : Uns64) : PrefPhase :=
  { s with
    memAccess := Function.update s.memAccess (lineIndex.toNat % p.primeHash) true
    mappedRegions := prefPhaseUpdateregioninfo p s.mappedRegions lineIndex cycleCount
    numMisses := s.numMisses + 1 }

/-- The interval ends with enough misses for a phase. -/
def PrefPhase.Enters (p : Params) (s : PrefPhase) (instCount : Uns64) : Prop :=
  p.interval.setWidth 64 < instCount - s.intervalStart ∧ p.minMisses < s.numMisses + 1

instance (s : PrefPhase) (instCount : Uns64) : Decidable (s.Enters p instCount) :=
  inferInstanceAs (Decidable (_ ∧ _))

/-- The phase that follows the interval, and the state after the search for it. -/
def PrefPhase.next (p : Params) (s : PrefPhase) (lineIndex : Addr) (instCount cycleCount : Uns64) : ℕ × PrefPhase :=
  prefPhaseComputenextphase p { s.noted p lineIndex cycleCount with intervalStart := instCount, numMisses := 0 }

theorem PrefPhase.learn_eq (s : PrefPhase) (lineIndex : Addr) (instCount cycleCount : Uns64) :
    s.learn p lineIndex instCount cycleCount =
      if s.Enters p instCount then
        (s.next p lineIndex instCount cycleCount).2.enter p (s.next p lineIndex instCount cycleCount).1 cycleCount
      else if p.interval.setWidth 64 < instCount - s.intervalStart then
        { s.noted p lineIndex cycleCount with intervalStart := instCount }
      else s.noted p lineIndex cycleCount := by
  unfold learn Enters
  by_cases hlong : p.interval.setWidth 64 < instCount - s.intervalStart
  · by_cases hmisses : p.minMisses < s.numMisses + 1
    · simp only [hlong, hmisses, and_self, if_true]
      rfl
    · simp only [hlong, hmisses, and_false, if_true, if_false]
      rfl
  · simp only [hlong, false_and, if_false]
    rfl

/-- The lines beside `PrefPhase.learn`: the regions of the interval become those of the phase that ends, and a
phase that is new starts with none. -/
def Recorded.learn (p : Params) (s : PrefPhase) (r : Recorded) (lineIndex : Addr) (instCount cycleCount : Uns64) :
    Recorded :=
  let mapped := recordLine p s.mappedRegions r.mapped lineIndex
  if s.Enters p instCount then
    let (next, t) := s.next p lineIndex instCount cycleCount
    let phases := Function.update r.phases s.currPhaseid mapped
    ⟨fun _ => [], if (t.phaseTable next).valid then phases else Function.update phases next fun _ => []⟩
  else { r with mapped }

/-! ## Regions and their lines -/

/-- The region repeats the lines: its page is theirs, and what it marks are their offsets. -/
structure PhaseRegion.Replays (p : Params) (region : PhaseRegion) (lines : List Addr) : Prop where
  page : ∀ x ∈ lines, pagenum p x = region.pageNumber
  marks : region.valid = true → ∀ offset < p.regionEntries,
    (region.regionMemAccess offset = true ↔ ∃ x ∈ lines, regionOffset p x = offset)
  unused : region.valid = false → lines = []

theorem PhaseRegion.zero_replays : PhaseRegion.zero.Replays p [] := ⟨nofun, nofun, fun _ => rfl⟩

theorem PhaseRegion.Replays.mark {region : PhaseRegion} {lines : List Addr} (h : region.Replays p lines)
    (lineIndex : Addr) (cycleCount : Uns64) :
    (region.mark p (pagenum p lineIndex) (regionOffset p lineIndex) cycleCount).Replays p
      (if region.valid = false ∨ region.pageNumber ≠ pagenum p lineIndex then [lineIndex] else lines ++ [lineIndex]) := by
  by_cases hnew : region.valid = false ∨ region.pageNumber ≠ pagenum p lineIndex
  · rw [if_pos hnew]
    refine ⟨fun x hx => ?_, fun _ offset hlt => ?_, nofun⟩
    · rw [List.mem_singleton.mp hx]
      rfl
    · simp only [PhaseRegion.mark, if_pos hnew, List.mem_singleton, exists_eq_left]
      by_cases ho : offset = regionOffset p lineIndex
      · simp [ho]
      · rw [Function.update_of_ne ho, if_pos hlt]
        simpa using fun h => ho h.symm
  · obtain ⟨hvalid, hpage⟩ := not_or.mp hnew
    rw [Bool.not_eq_false] at hvalid
    rw [not_not] at hpage
    rw [if_neg hnew]
    refine ⟨fun x hx => ?_, fun _ offset hlt => ?_, nofun⟩
    · rcases List.mem_append.mp hx with hx | hx
      · exact (h.page x hx).trans hpage
      · rw [List.mem_singleton.mp hx]
        rfl
    · simp only [PhaseRegion.mark, if_neg hnew, List.mem_append, List.mem_singleton]
      by_cases ho : offset = regionOffset p lineIndex
      · rw [ho, Function.update_self]
        exact iff_of_true rfl ⟨lineIndex, .inr rfl, rfl⟩
      · rw [Function.update_of_ne ho, h.marks hvalid offset hlt]
        constructor
        · rintro ⟨x, hx, hoffset⟩
          exact ⟨x, .inl hx, hoffset⟩
        · rintro ⟨x, hx | rfl, hoffset⟩
          · exact ⟨x, hx, hoffset⟩
          · exact absurd hoffset.symm ho

/-- The regions of an array repeat its lines. -/
def Replay (p : Params) (regions : ℕ → PhaseRegion) (lines : Lines) : Prop :=
  ∀ ii < p.trackedRegions, (regions ii).Replays p (lines ii)

theorem Replay.record {regions : ℕ → PhaseRegion} {lines : Lines} (h : Replay p regions lines) (lineIndex : Addr)
    (cycleCount : Uns64) :
    Replay p (prefPhaseUpdateregioninfo p regions lineIndex cycleCount) (recordLine p regions lines lineIndex) := by
  intro ii hii
  unfold prefPhaseUpdateregioninfo recordLine
  cases chooseRegion regions (pagenum p lineIndex) (List.range p.trackedRegions) none with
  | none => exact h ii hii
  | some id =>
      dsimp only
      by_cases hid : ii = id
      · subst hid
        rw [Function.update_self, Function.update_self]
        exact (h ii hii).mark lineIndex cycleCount
      · rw [Function.update_of_ne hid, Function.update_of_ne hid]
        exact h ii hii

theorem clearRegions_replay (regions : ℕ → PhaseRegion) : Replay p (clearRegions p regions) fun _ => [] := by
  intro ii hii
  unfold clearRegions
  rw [if_pos hii]
  exact PhaseRegion.zero_replays

/-- All arrays repeat their lines. -/
structure PrefPhase.Keeps (p : Params) (s : PrefPhase) (r : Recorded) : Prop where
  mapped : Replay p s.mappedRegions r.mapped
  phases : ∀ ph, Replay p (s.phaseTable ph).mappedRegions (r.phases ph)

/-! ## Learning -/

theorem next_frame (s : PrefPhase) (lineIndex : Addr) (instCount cycleCount : Uns64) :
    (s.next p lineIndex instCount cycleCount).2.mappedRegions = (s.noted p lineIndex cycleCount).mappedRegions ∧
      (s.next p lineIndex instCount cycleCount).2.currPhaseid = s.currPhaseid ∧
      ∀ ph, ((s.next p lineIndex instCount cycleCount).2.phaseTable ph).mappedRegions =
        (s.phaseTable ph).mappedRegions := by
  unfold PrefPhase.next prefPhaseComputenextphase
  split
  · exact ⟨rfl, rfl, fun _ => rfl⟩
  · refine ⟨rfl, rfl, fun ph => ?_⟩
    unfold PrefPhase.setPhase
    dsimp only
    by_cases hph : ph = ‹Option ℕ›.getD 0
    · rw [hph, Function.update_self]
      rfl
    · rw [Function.update_of_ne hph]
      rfl

theorem swap_regions (s : PrefPhase) (next ph : ℕ) :
    ((s.swap p next).phaseTable ph).mappedRegions =
        (if ph = s.currPhaseid then s.mappedRegions else (s.phaseTable ph).mappedRegions) ∧
      ((s.swap p next).phaseTable ph).valid = (s.phaseTable ph).valid := by
  unfold PrefPhase.swap PrefPhase.setPhase
  dsimp only
  by_cases hcurr : ph = s.currPhaseid
  · subst hcurr
    rw [Function.update_self, if_pos rfl]
    refine ⟨rfl, ?_⟩
    by_cases hnext : s.currPhaseid = next
    · rw [hnext, Function.update_self]
    · rw [Function.update_of_ne hnext]
  · rw [Function.update_of_ne hcurr, if_neg hcurr]
    by_cases hnext : ph = next
    · rw [hnext, Function.update_self]
      exact ⟨rfl, rfl⟩
    · rw [Function.update_of_ne hnext]
      exact ⟨rfl, rfl⟩

theorem enter_regions (s : PrefPhase) (next : ℕ) (cycleCount : Uns64) (ph : ℕ) :
    ((s.enter p next cycleCount).phaseTable ph).mappedRegions =
      if ph = next ∧ (s.phaseTable next).valid = false then
        clearRegions p (if ph = s.currPhaseid then s.mappedRegions else (s.phaseTable ph).mappedRegions)
      else if ph = s.currPhaseid then s.mappedRegions else (s.phaseTable ph).mappedRegions := by
  obtain ⟨hregions, -⟩ := swap_regions (p := p) s next ph
  obtain ⟨hnextRegions, hvalid⟩ := swap_regions (p := p) s next next
  unfold PrefPhase.enter PrefPhase.makeValid
  dsimp only
  rw [hvalid]
  by_cases hph : ph = next
  · subst hph
    cases hv : (s.phaseTable ph).valid with
    | true => simpa [PrefPhase.setPhase] using hregions
    | false => simpa [PrefPhase.setPhase] using congrArg (clearRegions p) hregions
  · cases hv : (s.phaseTable next).valid with
    | true => simpa [PrefPhase.setPhase, hph] using hregions
    | false => simpa [PrefPhase.setPhase, hph] using hregions

theorem enter_mapped (s : PrefPhase) (next : ℕ) (cycleCount : Uns64) :
    (s.enter p next cycleCount).mappedRegions = clearRegions p (s.phaseTable s.currPhaseid).mappedRegions := by
  unfold PrefPhase.enter PrefPhase.makeValid
  dsimp only
  split <;> rfl

theorem PrefPhase.Keeps.learn {s : PrefPhase} {r : Recorded} (h : s.Keeps p r) (lineIndex : Addr)
    (instCount cycleCount : Uns64) :
    (s.learn p lineIndex instCount cycleCount).Keeps p (r.learn p s lineIndex instCount cycleCount) := by
  have hmapped : Replay p (s.noted p lineIndex cycleCount).mappedRegions (recordLine p s.mappedRegions r.mapped lineIndex) :=
    h.mapped.record lineIndex cycleCount
  rw [PrefPhase.learn_eq]
  unfold Recorded.learn
  by_cases henters : s.Enters p instCount
  · simp only [if_pos henters]
    obtain ⟨hnoted, hcurr, htables⟩ := next_frame (p := p) s lineIndex instCount cycleCount
    generalize hnext : (s.next p lineIndex instCount cycleCount).1 = next
    generalize ht : (s.next p lineIndex instCount cycleCount).2 = t at hnoted hcurr htables
    have hswapped (ph : ℕ) : Replay p (if ph = t.currPhaseid then t.mappedRegions else (t.phaseTable ph).mappedRegions)
        (Function.update r.phases s.currPhaseid (recordLine p s.mappedRegions r.mapped lineIndex) ph) := by
      by_cases hph : ph = s.currPhaseid
      · rw [hcurr, if_pos hph, hnoted, hph, Function.update_self]
        exact hmapped
      · rw [hcurr, if_neg hph, htables, Function.update_of_ne hph]
        exact h.phases ph
    refine ⟨by rw [enter_mapped]; exact clearRegions_replay _, fun ph => ?_⟩
    rw [enter_regions]
    cases hv : (t.phaseTable next).valid with
    | true => simpa using hswapped ph
    | false =>
        by_cases hph : ph = next
        · rw [if_pos ⟨hph, rfl⟩]
          simp only [hph, Bool.false_eq_true, if_false, Function.update_self]
          exact clearRegions_replay _
        · simp only [hph, false_and, Bool.false_eq_true, if_false]
          rw [Function.update_of_ne hph]
          exact hswapped ph
  · simp only [if_neg henters]
    split
    · exact ⟨hmapped, h.phases⟩
    · exact ⟨hmapped, h.phases⟩

/-! ## Sending -/

/-- A queue that also writes down the lines it takes. -/
def logged (addto : Ul1Queue κ) : Ul1Queue (κ × List Addr) := fun req k =>
  ((addto req k.1).1, (addto req k.1).2, if (addto req k.1).1 then k.2 ++ [req.lineIndex] else k.2)

theorem logged_takes {addto : Ul1Queue κ} {req : Ul1Request} {k : κ} (h : (addto req k).1 = true) (log : List Addr) :
    logged addto req (k, log) = (true, (addto req k).2, log ++ [req.lineIndex]) := by
  simp only [logged, h, if_true]

theorem logged_refuses {addto : Ul1Queue κ} {req : Ul1Request} {k : κ} (h : (addto req k).1 = false) (log : List Addr) :
    logged addto req (k, log) = (false, (addto req k).2, log) := by
  simp only [logged, h, Bool.false_eq_true, if_false]

/-- The lines of the next `n` offsets of a region. -/
def PhaseRegion.marked (p : Params) (region : PhaseRegion) (n offset : ℕ) : List Addr :=
  ((List.range' offset n).filter region.regionMemAccess).map (region.line p)

/-- What the loop over the next `n` regions has to send. -/
def PrefPhase.pending (p : Params) (stray : ℕ → PhaseRegion) : ℕ → PrefPhase → List Addr
  | 0, _ => []
  | n + 1, s =>
      (if (s.region p stray s.currsentRegid).valid then
        (s.region p stray s.currsentRegid).marked p (p.regionEntries - s.currsentRegidOffset) s.currsentRegidOffset
      else []) ++ pending p stray n s.nextRegion

/-- What is left to send of the phase. -/
def PrefPhase.left (p : Params) (stray : ℕ → PhaseRegion) (s : PrefPhase) : List Addr :=
  s.pending p stray (p.regionEntries - s.currsentRegid)

theorem marked_succ (region : PhaseRegion) (n offset : ℕ) :
    region.marked p (n + 1) offset =
      (if region.regionMemAccess offset then [region.line p offset] else []) ++ region.marked p n (offset + 1) := by
  unfold PhaseRegion.marked
  rw [List.range'_succ, List.filter_cons]
  split <;> rfl

/-- The loop over the offsets sends the lines in order, up to the one that the queue has no room for. -/
theorem sendRegion_logged (addto : Ul1Queue κ) (hwpId : Uns8) (region : PhaseRegion) (n offset : ℕ) (k : κ) (log : List Addr) :
    ∃ qFull offset' k' sent, sendRegion p (logged addto) hwpId region n offset (k, log) =
        (qFull, offset', k', log ++ sent) ∧
      (qFull = false → region.marked p n offset = sent) ∧
      (qFull = true → 0 < n ∧ region.marked p n offset = sent ++ region.marked p (offset + n - offset') offset') := by
  induction n generalizing offset k log with
  | zero => exact ⟨false, offset, k, [], by simp [sendRegion], fun _ => rfl, nofun⟩
  | succ n ih =>
      have hcount : offset + 1 + n = offset + (n + 1) := by omega
      rw [sendRegion, marked_succ]
      by_cases hmark : region.regionMemAccess offset = true
      · simp only [hmark, if_true]
        cases hok : (addto (.plain 0 (region.line p offset) hwpId) k).1 with
        | true =>
            obtain ⟨qFull, offset', k', sent, hrun, hdone, hfull⟩ := ih (offset + 1)
              (addto (.plain 0 (region.line p offset) hwpId) k).2 (log ++ [region.line p offset])
            rw [hcount] at hfull
            refine ⟨qFull, offset', k', region.line p offset :: sent, ?_, fun h => ?_, fun h => ?_⟩
            · have hlog : logged addto (.plain 0 (region.line p offset) hwpId) (k, log) =
                  (true, (addto (.plain 0 (region.line p offset) hwpId) k).2, log ++ [region.line p offset]) :=
                logged_takes hok log
              rw [hlog]
              simpa using hrun
            · rw [hdone h]
              rfl
            · rw [(hfull h).2]
              exact ⟨Nat.succ_pos n, rfl⟩
        | false =>
            refine ⟨true, offset, (addto (.plain 0 (region.line p offset) hwpId) k).2, [], ?_, nofun, fun _ => ?_⟩
            · rw [logged_refuses hok, List.append_nil]
              rfl
            · have hleft : offset + (n + 1) - offset = n + 1 := by omega
              rw [hleft, marked_succ, if_pos hmark]
              exact ⟨Nat.succ_pos n, rfl⟩
      · obtain ⟨qFull, offset', k', sent, hrun, hdone, hfull⟩ := ih (offset + 1) k log
        rw [hcount] at hfull
        simp only [hmark, if_false, Bool.false_eq_true, List.nil_append]
        exact ⟨qFull, offset', k', sent, hrun, hdone, fun h => ⟨Nat.succ_pos n, (hfull h).2⟩⟩

/-- Sending moves the position in the lines of the phase, and changes nothing else. -/
structure Sends (s s' : PrefPhase) : Prop where
  phaseTable : s'.phaseTable = s.phaseTable
  mappedRegions : s'.mappedRegions = s.mappedRegions
  currPhaseid : s'.currPhaseid = s.currPhaseid

theorem sendRegions_logged (addto : Ul1Queue κ) (stray : ℕ → PhaseRegion) {n : ℕ} {s : PrefPhase} (hn : n = p.regionEntries - s.currsentRegid)
    (k : κ) (log : List Addr) :
    ∃ s' k' sent, sendRegions p (logged addto) stray n s (k, log) = (s', k', log ++ sent) ∧ Sends s s' ∧
      s.pending p stray n = sent ++ s'.left p stray := by
  induction n generalizing s k log with
  | zero =>
      refine ⟨s, k, [], by simp [sendRegions], ⟨rfl, rfl, rfl⟩, ?_⟩
      unfold PrefPhase.left
      rw [← hn]
      rfl
  | succ n ih =>
      have hlater : n = p.regionEntries - s.nextRegion.currsentRegid := by
        have hregid : s.nextRegion.currsentRegid = s.currsentRegid + 1 := rfl
        omega
      rw [sendRegions, PrefPhase.pending]
      by_cases hvalid : (s.region p stray s.currsentRegid).valid = true
      · rw [if_pos hvalid, if_pos hvalid]
        obtain ⟨qFull, offset', k₁, sent, hrun, hdone, hfull⟩ := sendRegion_logged (p := p) addto s.hwpId
          (s.region p stray s.currsentRegid) (p.regionEntries - s.currsentRegidOffset) s.currsentRegidOffset k log
        rw [hrun]
        cases qFull with
        | true =>
            obtain ⟨hpos, hsplit⟩ := hfull rfl
            have hcount : s.currsentRegidOffset + (p.regionEntries - s.currsentRegidOffset) - offset' =
                p.regionEntries - offset' := by omega
            have hleft : ({ s with currsentRegidOffset := offset' } : PrefPhase).left p stray =
                (s.region p stray s.currsentRegid).marked p (p.regionEntries - offset') offset' ++
                  s.nextRegion.pending p stray n := by
              unfold PrefPhase.left
              dsimp only
              rw [← hn, PrefPhase.pending]
              exact congrArg (· ++ _) (if_pos hvalid)
            refine ⟨{ s with currsentRegidOffset := offset' }, k₁, sent, rfl, ⟨rfl, rfl, rfl⟩, ?_⟩
            rw [hleft, hsplit, hcount, List.append_assoc]
        | false =>
            obtain ⟨s', k', later, hnext, hsends, hpending⟩ := ih hlater k₁ (log ++ sent)
            refine ⟨s', k', sent ++ later, ?_, ⟨hsends.phaseTable, hsends.mappedRegions, hsends.currPhaseid⟩, ?_⟩
            · simpa [List.append_assoc] using hnext
            · rw [hdone rfl, hpending, List.append_assoc]
      · rw [if_neg hvalid, if_neg hvalid, List.nil_append]
        obtain ⟨s', k', later, hnext, hsends, hpending⟩ := ih hlater k log
        exact ⟨s', k', later, hnext, ⟨hsends.phaseTable, hsends.mappedRegions, hsends.currPhaseid⟩, hpending⟩

/-! ## What a phase has to send -/

/-- Nothing behind the tracked regions reads as a valid region. -/
def NothingStray (p : Params) (stray : ℕ → PhaseRegion) : Prop :=
  ∀ regid, p.trackedRegions ≤ regid → (stray regid).valid = false

/-- Memory that is clear. -/
def noStray : ℕ → PhaseRegion := fun _ => .zero

/-- All that there is to send of the current phase. -/
def PrefPhase.due (p : Params) (s : PrefPhase) : List Addr :=
  ({ s with currsentRegid := 0, currsentRegidOffset := 0 } : PrefPhase).left p noStray

theorem pending_congr {stray stray' : ℕ → PhaseRegion} (h : NothingStray p stray) (h' : NothingStray p stray') (n : ℕ)
    {s s' : PrefPhase} (htable : s'.phaseTable = s.phaseTable) (hcurr : s'.currPhaseid = s.currPhaseid)
    (hregid : s'.currsentRegid = s.currsentRegid) (hoffset : s'.currsentRegidOffset = s.currsentRegidOffset) :
    s'.pending p stray' n = s.pending p stray n := by
  induction n generalizing s s' with
  | zero => rfl
  | succ n ih =>
      rw [PrefPhase.pending, PrefPhase.pending, hregid, hoffset]
      have hlater : s'.nextRegion.pending p stray' n = s.nextRegion.pending p stray n :=
        ih htable hcurr (congrArg (· + 1) hregid) rfl
      rw [hlater]
      refine congrArg (· ++ _) ?_
      unfold PrefPhase.region
      rw [htable, hcurr]
      by_cases hlt : s.currsentRegid < p.trackedRegions
      · simp only [if_pos hlt]
      · simp only [if_neg hlt, h _ (Nat.le_of_not_lt hlt), h' _ (Nat.le_of_not_lt hlt)]
        rfl

theorem mem_marked {region : PhaseRegion} {y : Addr} :
    y ∈ region.marked p (p.regionEntries - 0) 0 ↔
      ∃ offset < p.regionEntries, region.regionMemAccess offset = true ∧ region.line p offset = y := by
  unfold PhaseRegion.marked
  rw [Nat.sub_zero, ← List.range_eq_range', List.mem_map]
  constructor
  · rintro ⟨offset, hoffset, hline⟩
    obtain ⟨hlt, hmark⟩ := List.mem_filter.mp hoffset
    exact ⟨offset, List.mem_range.mp hlt, hmark, hline⟩
  · rintro ⟨offset, hlt, hmark, hline⟩
    exact ⟨offset, List.mem_filter.mpr ⟨List.mem_range.mpr hlt, hmark⟩, hline⟩

theorem PhaseRegion.Replays.mem_iff {region : PhaseRegion} {lines : List Addr} (h : region.Replays p lines) {y : Addr} :
    y ∈ (if region.valid then region.marked p (p.regionEntries - 0) 0 else []) ↔
      ∃ x ∈ lines, regionOffset p x < p.regionEntries ∧ x >>> p.log2Line = y := by
  cases hvalid : region.valid with
  | false =>
      rw [h.unused hvalid]
      simp
  | true =>
      rw [if_pos rfl, mem_marked]
      constructor
      · rintro ⟨offset, hlt, hmark, rfl⟩
        obtain ⟨x, hx, rfl⟩ := (h.marks hvalid offset hlt).mp hmark
        exact ⟨x, hx, hlt, (line_of_index x (h.page x hx).symm).symm⟩
      · rintro ⟨x, hx, hlt, rfl⟩
        exact ⟨regionOffset p x, hlt, (h.marks hvalid _ hlt).mpr ⟨x, hx, rfl⟩, line_of_index x (h.page x hx).symm⟩

theorem mem_pending {n : ℕ} {s : PrefPhase} (hoffset : s.currsentRegidOffset = 0) {y : Addr} :
    y ∈ s.pending p noStray n ↔ ∃ regid, s.currsentRegid ≤ regid ∧ regid < s.currsentRegid + n ∧
      y ∈ (if (s.region p noStray regid).valid then (s.region p noStray regid).marked p (p.regionEntries - 0) 0 else []) := by
  induction n generalizing s with
  | zero =>
      simp only [PrefPhase.pending, List.not_mem_nil, false_iff]
      rintro ⟨regid, hge, hlt, -⟩
      omega
  | succ n ih =>
      rw [PrefPhase.pending, List.mem_append, hoffset, ih rfl]
      have hnext (regid : ℕ) : s.nextRegion.region p noStray regid = s.region p noStray regid := rfl
      have hregid : s.nextRegion.currsentRegid = s.currsentRegid + 1 := rfl
      rw [hregid]
      constructor
      · rintro (hy | ⟨regid, hge, hlt, hy⟩)
        · exact ⟨s.currsentRegid, Nat.le_refl _, by omega, hy⟩
        · exact ⟨regid, by omega, by omega, hy⟩
      · rintro ⟨regid, hge, hlt, hy⟩
        by_cases hfirst : regid = s.currsentRegid
        · subst hfirst
          exact .inl hy
        · exact .inr ⟨regid, by omega, by omega, hy⟩

/-- The send loop comes to the mark that a recorded line left. -/
def Recorded.Reaches (p : Params) (r : Recorded) (ph : ℕ) (x : Addr) : Prop :=
  regionOffset p x < p.regionEntries ∧ ∃ regid < p.trackedRegions, regid < p.regionEntries ∧ x ∈ r.phases ph regid

/-- What there is to send of a phase are its recorded line indices, each without the bits of a line. -/
theorem PrefPhase.Keeps.mem_due {s : PrefPhase} {r : Recorded} (h : s.Keeps p r) {y : Addr} :
    y ∈ s.due p ↔ ∃ x, r.Reaches p s.currPhaseid x ∧ x >>> p.log2Line = y := by
  have hzero : PhaseRegion.zero.valid = false := rfl
  unfold PrefPhase.due PrefPhase.left
  rw [mem_pending rfl]
  constructor
  · rintro ⟨regid, -, hlt, hy⟩
    have hregid : regid < p.regionEntries := by simpa using hlt
    unfold PrefPhase.region at hy
    dsimp only at hy
    by_cases htracked : regid < p.trackedRegions
    · simp only [if_pos htracked] at hy
      obtain ⟨x, hx, hoffset, hline⟩ := (h.phases s.currPhaseid regid htracked).mem_iff.mp hy
      exact ⟨x, ⟨hoffset, regid, htracked, hregid, hx⟩, hline⟩
    · simp only [if_neg htracked, noStray, hzero, Bool.false_eq_true, if_false, List.not_mem_nil] at hy
  · rintro ⟨x, ⟨hoffset, regid, htracked, hregid, hx⟩, hline⟩
    refine ⟨regid, Nat.zero_le _, by simpa using hregid, ?_⟩
    unfold PrefPhase.region
    dsimp only
    simp only [if_pos htracked]
    exact (h.phases s.currPhaseid regid htracked).mem_iff.mpr ⟨x, hx, hoffset, hline⟩

/-! ## Runs -/

/-- A call of `pref_phase_ul1_train`. -/
structure Train where
  lineAddr : Addr
  instCount : Uns64
  cycleCount : Uns64
  stray : ℕ → PhaseRegion

/-- The prefetcher with the lines that it recorded, and those that the queue took since the phase was entered. -/
structure Replaying (κ : Type) where
  phase : PrefPhase
  recorded : Recorded
  queue : κ
  sent : List Addr

/-- A call, with the lines. -/
def Replaying.train (p : Params) (addto : Ul1Queue κ) (c : Replaying κ) (t : Train) : Replaying κ :=
  let lineIndex := t.lineAddr >>> p.log2Line
  let log := if c.phase.Enters p t.instCount then [] else c.sent
  let (phase, queue, sent) :=
    prefPhaseUl1Train p (logged addto) c.phase t.lineAddr t.instCount t.cycleCount t.stray (c.queue, log)
  ⟨phase, c.recorded.learn p c.phase lineIndex t.instCount t.cycleCount, queue, sent⟩

/-- After `pref_phase_init`. -/
def Replaying.init (hwpId : Uns8) (regid offset : ℕ) (queue : κ) : Replaying κ :=
  ⟨prefPhaseInit hwpId regid offset, ⟨fun _ => [], fun _ _ => []⟩, queue, []⟩

/-- The arrays repeat their lines, and what was sent of the phase and what is left make up what there was to send. -/
structure Replaying.Ok (p : Params) (c : Replaying κ) : Prop where
  keeps : c.phase.Keeps p c.recorded
  sends : c.sent ++ c.phase.left p noStray = c.phase.due p

theorem Replaying.init_ok (hwpId : Uns8) (regid offset : ℕ) (queue : κ) : (Replaying.init hwpId regid offset queue).Ok p := by
  have hnothing (n : ℕ) (s : PrefPhase) (h : ∀ ph ii, ((s.phaseTable ph).mappedRegions ii).valid = false) :
      s.pending p noStray n = [] := by
    induction n generalizing s with
    | zero => rfl
    | succ n ih =>
        have hregion : (s.region p noStray s.currsentRegid).valid = false := by
          unfold PrefPhase.region
          split
          · exact h _ _
          · rfl
        rw [PrefPhase.pending, hregion, ih s.nextRegion h]
        rfl
  refine ⟨⟨fun ii _ => PhaseRegion.zero_replays, fun _ ii _ => PhaseRegion.zero_replays⟩, ?_⟩
  unfold PrefPhase.due PrefPhase.left
  rw [hnothing _ _ fun _ _ => rfl, hnothing _ _ fun _ _ => rfl]
  rfl

theorem noStray_nothing : NothingStray p noStray := fun _ _ => rfl

theorem due_congr {s s' : PrefPhase} (htable : s'.phaseTable = s.phaseTable) (hcurr : s'.currPhaseid = s.currPhaseid) :
    s'.due p = s.due p :=
  pending_congr noStray_nothing noStray_nothing _ htable hcurr rfl rfl

/-- Learning enters a phase with nothing sent, or leaves what is left to send. -/
theorem learn_left (s : PrefPhase) (lineIndex : Addr) (instCount cycleCount : Uns64) :
    (s.Enters p instCount → (s.learn p lineIndex instCount cycleCount).left p noStray =
        (s.learn p lineIndex instCount cycleCount).due p) ∧
      (¬ s.Enters p instCount → (s.learn p lineIndex instCount cycleCount).left p noStray = s.left p noStray ∧
        (s.learn p lineIndex instCount cycleCount).due p = s.due p) := by
  rw [PrefPhase.learn_eq]
  refine ⟨fun henters => ?_, fun henters => ?_⟩
  · simp only [if_pos henters]
    rfl
  · simp only [if_neg henters]
    split
    · exact ⟨pending_congr noStray_nothing noStray_nothing _ rfl rfl rfl rfl, due_congr rfl rfl⟩
    · exact ⟨pending_congr noStray_nothing noStray_nothing _ rfl rfl rfl rfl, due_congr rfl rfl⟩

theorem Replaying.Ok.train {c : Replaying κ} {t : Train} (h : c.Ok p) (hstray : NothingStray p t.stray) :
    (c.train p addto t).Ok p := by
  have hlearn := h.keeps.learn (t.lineAddr >>> p.log2Line) t.instCount t.cycleCount
  obtain ⟨henter, hstay⟩ := learn_left (p := p) c.phase (t.lineAddr >>> p.log2Line) t.instCount t.cycleCount
  generalize hs : c.phase.learn p (t.lineAddr >>> p.log2Line) t.instCount t.cycleCount = s at hlearn henter hstay
  generalize hlog : (if c.phase.Enters p t.instCount then [] else c.sent) = log
  obtain ⟨s', k', sent, hrun, hsends, hpending⟩ :=
    sendRegions_logged (p := p) addto t.stray (s := s) rfl c.queue log
  have htrain : c.train p addto t =
      ⟨s', c.recorded.learn p c.phase (t.lineAddr >>> p.log2Line) t.instCount t.cycleCount, k', log ++ sent⟩ := by
    unfold Replaying.train prefPhaseUl1Train
    simp only [hs, hlog, hrun]
  rw [htrain]
  have hkeeps : s'.Keeps p (c.recorded.learn p c.phase (t.lineAddr >>> p.log2Line) t.instCount t.cycleCount) := by
    refine ⟨by rw [hsends.mappedRegions]; exact hlearn.mapped, fun ph => ?_⟩
    rw [hsends.phaseTable]
    exact hlearn.phases ph
  refine ⟨hkeeps, ?_⟩
  -- nothing that was sent came out of stray memory
  have hleft : s.left p noStray = sent ++ s'.left p noStray := by
    have hbefore : s.pending p t.stray (p.regionEntries - s.currsentRegid) = s.left p noStray :=
      pending_congr noStray_nothing hstray _ rfl rfl rfl rfl
    have hafter : s'.left p t.stray = s'.left p noStray :=
      pending_congr noStray_nothing hstray _ rfl rfl rfl rfl
    rw [← hbefore, hpending, hafter]
  have hdue : s'.due p = s.due p := due_congr hsends.phaseTable hsends.currPhaseid
  rw [hdue, List.append_assoc, ← hleft, ← hlog]
  by_cases henters : c.phase.Enters p t.instCount
  · rw [if_pos henters, List.nil_append]
    exact henter henters
  · obtain ⟨hsame, hdueSame⟩ := hstay henters
    rw [if_neg henters, hsame, hdueSame]
    exact h.sends

theorem run_ok {trains : List Train} {c : Replaying κ} (h : c.Ok p) (hstray : ∀ t ∈ trains, NothingStray p t.stray) :
    (trains.foldl (Replaying.train p addto) c).Ok p := by
  induction trains generalizing c with
  | nil => exact h
  | cons t trains ih =>
      obtain ⟨ht, hlater⟩ := List.forall_mem_cons.mp hstray
      exact ih (h.train ht) hlater

/-! ## Lines that are their own -/

/-- A line recorded in a region of a phase. -/
def Recorded.Holds (p : Params) (r : Recorded) (ph : ℕ) (x : Addr) : Prop :=
  ∃ regid < p.trackedRegions, x ∈ r.phases ph regid

/-- If every element is a shift of another one, they are all zero. -/
theorem eq_zero_of_shifts {S : Addr → Prop} {l : ℕ} (hl : 0 < l) (h : ∀ x, S x → ∃ y, S y ∧ y >>> l = x) {x : Addr}
    (hx : S x) : x = 0 := by
  have hgrow : ∀ k, ∀ x, S x → ∃ y, S y ∧ x.toNat * 2 ^ k ≤ y.toNat := by
    intro k
    induction k with
    | zero => exact fun x hx => ⟨x, hx, by omega⟩
    | succ k ih =>
        intro x hx
        obtain ⟨y, hy, rfl⟩ := h x hx
        obtain ⟨z, hz, hle⟩ := ih y hy
        refine ⟨z, hz, Nat.le_trans ?_ hle⟩
        have htwo : 2 ≤ 2 ^ l := Nat.le_self_pow (Nat.ne_of_gt hl) 2
        have hdiv : (y >>> l).toNat * 2 ^ l ≤ y.toNat := by
          rw [BitVec.toNat_ushiftRight, Nat.shiftRight_eq_div_pow]
          exact Nat.div_mul_le_self _ _
        have hdouble : (y >>> l).toNat * 2 ^ (k + 1) = (y >>> l).toNat * 2 * 2 ^ k := by
          rw [Nat.pow_succ, Nat.mul_comm (2 ^ k), Nat.mul_assoc]
        calc (y >>> l).toNat * 2 ^ (k + 1) = (y >>> l).toNat * 2 * 2 ^ k := hdouble
          _ ≤ (y >>> l).toNat * 2 ^ l * 2 ^ k := Nat.mul_le_mul_right _ (Nat.mul_le_mul_left _ htwo)
          _ ≤ y.toNat * 2 ^ k := Nat.mul_le_mul_right _ hdiv
  obtain ⟨y, -, hle⟩ := hgrow 64 x hx
  have hlt := y.isLt
  apply BitVec.eq_of_toNat_eq
  have hzero : x.toNat = 0 := by omega
  simpa using hzero

instance (r : Recorded) (ph : ℕ) (x : Addr) : Decidable (r.Holds p ph x) :=
  inferInstanceAs (Decidable (∃ regid < p.trackedRegions, x ∈ r.phases ph regid))

/-- One phase, an interval for every miss, and as many regions as a region has lines. -/
def Params.onePhase : Params :=
  { Params.default with
    primeHash := 1
    infosize := 1
    log2RegionSize := 7
    regionEntries := 2
    trackedRegions := 2
    interval := 0
    tableSize := 1
    minMisses := 0
    line_le_region := Nat.le_add_right 6 1
    trackedRegions_pos := Nat.succ_pos 1
    tableSize_pos := Nat.succ_pos 0 }

/-- Misses on one line in two intervals; the second one finds the phase of the first. -/
def twoIntervals (lineAddr : Addr) : List Train :=
  [1, 2].map fun instCount => ⟨lineAddr, instCount, instCount, noStray⟩

theorem twoIntervals_nothingStray (lineAddr : Addr) : ∀ t ∈ twoIntervals lineAddr, NothingStray p t.stray := by
  intro t ht
  obtain ⟨instCount, -, rfl⟩ := List.mem_map.mp ht
  exact noStray_nothing

def replayTwice (lineAddr : Addr) : Replaying Unit :=
  (twoIntervals lineAddr).foldl (Replaying.train .onePhase fun _ queue => (true, queue)) (Replaying.init 0 0 0 ())

theorem onePhase_zero {r : Recorded} {ph : ℕ} (hfirst : r.phases ph 0 = []) (hsecond : r.phases ph 1 = [0]) {x : Addr}
    (hx : r.Holds .onePhase ph x) : (Params.onePhase.log2Line = 0 ∨ x = 0) ∧ r.Reaches .onePhase ph x := by
  obtain ⟨regid, htracked, hmem⟩ := hx
  have hlt : regid < 2 := htracked
  obtain rfl | rfl : regid = 0 ∨ regid = 1 := by omega
  · rw [hfirst] at hmem
    cases hmem
  · have hzero : x = 0 := by
      rw [hsecond] at hmem
      exact List.mem_singleton.mp hmem
    subst hzero
    exact ⟨.inr rfl, by decide, 1, htracked, hlt, hmem⟩

end Scarab.Phase
