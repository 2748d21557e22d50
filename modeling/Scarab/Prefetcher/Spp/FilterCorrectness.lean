import Scarab.Prefetcher.Spp.Suppression

/-! # What the prefetch filter guarantees

The filter records a line before the queue is asked and is never told about an
eviction. The results say exactly which guarantees survive that. -/

namespace Scarab.Spp

variable {σ : Type} {p : Params} {addto : AddTo σ}

/-! ## Candidates of a run -/

/-- A candidate of a run was filtered exactly when the filter had it. -/
theorem Visited.filtered_iff {w : World σ} (h : Visited p addto w) (hon : p.filterOn = true)
    {pre post : List SppEvent} {req : SppFilterReq} {X : Addr} {o : Outcome}
    (hh : w.history = pre ++ .candidate req X o :: post) :
    o = .filtered ↔
      HeldByPrefetch p X pre ∨
        (NeverRecorded p (quotient p X) pre ∧ remainder p X = 0 ∧
          DemandedZero p (quotient p X) pre) := by
  obtain ⟨_, hfit⟩ := h.replay
  have hpre : History.Always (fun pre e => Fits p (FilterState.replay p pre) e) pre := by
    rw [hh] at hfit
    exact hfit.of_append
  have hcand := hfit pre _ post hh
  rw [hcand.1, FilterState.rejects_replay_iff hon X pre hpre, latest_recordAt_eq_some,
    latest_recordAt_eq_none]

/-- With the filter off no candidate is filtered. -/
theorem Visited.not_filtered_of_off {w : World σ} (h : Visited p addto w)
    (hoff : p.filterOn = false) {pre post : List SppEvent} {req : SppFilterReq} {X : Addr}
    {o : Outcome} (hh : w.history = pre ++ .candidate req X o :: post) : o ≠ .filtered := by
  obtain ⟨_, hfit⟩ := h.replay
  have hcand := hfit pre _ post hh
  intro ho
  have hr := hcand.1.mp ho
  simp [FilterState.rejects, hoff] at hr

/-- An accepted L2-grade check in the slot of `X` for another tag. -/
def Displaced (p : Params) (X : Addr) (h : List SppEvent) : Prop :=
  ∃ Z o, .candidate .l2Prefetch Z o ∈ h ∧ o ≠ .filtered ∧ quotient p Z = quotient p X ∧
    remainder p Z ≠ remainder p X

/-- An accepted L2-grade check in the slot of `X` for its own tag. -/
def Renewed (p : Params) (X : Addr) (h : List SppEvent) : Prop :=
  ∃ Z o, .candidate .l2Prefetch Z o ∈ h ∧ o ≠ .filtered ∧ quotient p Z = quotient p X ∧
    remainder p Z = remainder p X

theorem HeldByPrefetch.keep {X : Addr} {h rest : List SppEvent} (hheld : HeldByPrefetch p X h)
    (hrest : ¬ Displaced p X rest) : HeldByPrefetch p X (h ++ rest) := by
  rw [← latest_recordAt_eq_some] at hheld ⊢
  refine History.latest_append_of_forall hheld ?_
  intro e he tag htag
  obtain ⟨Z, o, rfl, ho, hq, ht⟩ := recordAt_eq_some.mp htag
  by_contra hne
  exact hrest ⟨Z, o, he, ho, hq, by rw [ht]; exact hne⟩

/-- A tag the slot holds after `rest` was renewed in `rest`, or it was held before and
not displaced. -/
theorem HeldByPrefetch.of_append {X : Addr} {h rest : List SppEvent}
    (hheld : HeldByPrefetch p X (h ++ rest)) :
    Renewed p X rest ∨ (HeldByPrefetch p X h ∧ ¬ Displaced p X rest) := by
  have hlatest := latest_recordAt_eq_some.mpr hheld
  rw [History.latest_append] at hlatest
  cases hr : History.latest (recordAt p (quotient p X)) rest with
  | some tag =>
      left
      obtain rfl : tag = remainder p X := by simpa [hr] using hlatest
      obtain ⟨pre, e, post, rfl, he, _⟩ := History.exists_of_latest hr
      obtain ⟨Z, o, rfl, ho, hq, ht⟩ := recordAt_eq_some.mp he
      exact ⟨Z, o, by simp, ho, hq, ht⟩
  | none =>
      right
      refine ⟨latest_recordAt_eq_some.mp (by simpa [hr] using hlatest), ?_⟩
      rintro ⟨Z, o, hZ, ho, hq, _⟩
      exact ho (latest_recordAt_eq_none.mp hr Z o hZ hq)

/-- A tag that a slot holds and that is not displaced is never accepted again. -/
theorem Visited.not_renewed {w : World σ} (h : Visited p addto w) (hon : p.filterOn = true)
    {X : Addr} {pre mid post : List SppEvent} (hh : w.history = pre ++ mid ++ post)
    (hheld : HeldByPrefetch p X pre) (hmid : ¬ Displaced p X mid) : ¬ Renewed p X mid := by
  rintro ⟨Z, o, hZ, ho, hq, ht⟩
  obtain ⟨first, rest, rfl⟩ := List.append_of_mem hZ
  have hfirst : ¬ Displaced p X first := by
    rintro ⟨Y, oY, hY, hrest⟩
    exact hmid ⟨Y, oY, by simp [hY], hrest⟩
  have hlatest := latest_recordAt_eq_some.mpr (hheld.keep hfirst)
  rw [← hq, ← ht] at hlatest
  have hZheld := latest_recordAt_eq_some.mp hlatest
  exact ho ((h.filtered_iff hon (by simpa using hh)).mpr (.inl hZheld))

/-! ## A refused candidate -/

/-- The prefetcher is as if the line had not been examined: it may be issued again, and
a demand for it is not counted. -/
structure Undone (p : Params) (X : Addr) (before after : PrefSpp) : Prop where
  filter : after.filter = before.filter
  pfIssued : after.pfIssued = before.pfIssued
  pfUseful : after.pfUseful = before.pfUseful
  reissuable : ∀ req, req = .l2Prefetch ∨ req = .llcPrefetch → (sppFilterCheck p after X req).1 = true
  uncounted : (sppFilterCheck p after X .demand).2.pfUseful = before.pfUseful

theorem sppFilterCheck_fst {spp : PrefSpp} {X : Addr} {req : SppFilterReq}
    (hreq : req = .l2Prefetch ∨ req = .llcPrefetch) :
    (sppFilterCheck p spp X req).1 = !spp.filterState.rejects p X := by
  rcases hreq with rfl | rfl
  · rw [sppFilterCheck_l2Prefetch]
    cases spp.filterState.rejects p X <;> rfl
  · rw [sppFilterCheck_llcPrefetch]

/-- A demand for a line the filter does not hold is not counted. -/
theorem FilterState.use_useful_of_not_rejects {F : FilterState} {X : Addr}
    (h : F.rejects p X = false) : (F.use p X).useful = F.useful := by
  unfold use
  split
  · rename_i hhit
    simp only [hitBy, Bool.and_eq_true, beq_iff_eq] at hhit
    have hv : (F.slot (quotient p X)).valid = false ∧ (F.slot (quotient p X)).useful = false := by
      simpa [rejects, SppFilterEntry.blocks, hhit] using h
    simp [hv.1, markUseful]
  · rfl

/-- Taking a slot for a line it did not hold changes it. -/
theorem FilterState.record_ne {F : FilterState} {X : Addr} (hon : p.filterOn = true)
    (h : F.rejects p X = false) : (F.record p X).slot ≠ F.slot := by
  intro heq
  have hslot := congrFun heq (quotient p X)
  rw [F.record_slot hon, if_pos rfl] at hslot
  simp [rejects, hon, ← hslot, SppFilterEntry.blocks] at h

theorem undone_self {spp : PrefSpp} {X : Addr} (h : spp.filterState.rejects p X = false) :
    Undone p X spp spp := by
  refine ⟨rfl, rfl, rfl, ?_, ?_⟩
  · intro req hreq
    rw [sppFilterCheck_fst hreq, h]
    rfl
  · rw [sppFilterCheck_demand]
    exact FilterState.use_useful_of_not_rejects h

/-- When the queue refuses a candidate, it leaves no trace exactly if it took no slot:
the filter is off, or the candidate is of LLC grade. -/
theorem refused_candidate_undone_iff (procId : Uns8) (w : World σ) (X : Addr) (conf : ℕ)
    (hpass : (sppFilterCheck p w.spp X (grade p conf)).1 = true)
    (hfull : (addto procId (X >>> p.log2Line) w.spp.hwpId w.queue).1 = false) :
    Undone p X w.spp (sppIssue p addto procId w X conf).spp ↔
      p.filterOn = false ∨ conf < p.fillThreshold := by
  obtain ⟨o, hs⟩ := sppIssue_spec (p := p) addto procId w X conf
  have hgrade : grade p conf = .l2Prefetch ∨ grade p conf = .llcPrefetch :=
    (grade_eq (p := p) conf).imp And.left And.left
  have hrej : w.spp.filterState.rejects p X = false := by
    simpa [sppFilterCheck_fst hgrade] using hpass
  have ho : o = .refused := by
    cases o with
    | filtered => simp [hs.filtered_iff.mp rfl] at hrej
    | refused => rfl
    | queued => simp [hs.answer (by simp)] at hfull
  subst ho
  have hspp := congrArg World.spp hs.world_eq
  simp only [log_spp] at hspp
  rw [hspp]
  rcases grade_eq (p := p) conf with ⟨hg, hconf⟩ | ⟨hg, hconf⟩
  · rw [hg]
    cases hon : p.filterOn with
    | false =>
        have hrec : w.spp.filterState.record p X = w.spp.filterState := by
          simp [FilterState.record, hon]
        simpa [FilterState.apply, hrec] using undone_self hrej
    | true =>
        constructor
        · intro hu
          exact absurd hu.filter (FilterState.record_ne hon hrej)
        · intro hor
          rcases hor with hoff | hlt
          · cases hoff
          · omega
  · rw [hg]
    simpa [FilterState.apply, hconf] using undone_self hrej

theorem refused_candidate_undone_iff_applies :
    ∃ w : World Unit, Reachable Params.default refuseAll w ∧
      (Undone Params.default 0x1001c0 w.spp
          (sppIssue Params.default refuseAll 0 w 0x1001c0 95).spp ↔
        Params.default.filterOn = false ∨ 95 < Params.default.fillThreshold) := by
  have hrun : ((afterCallbacks Params.default refuseAll 0 () (ul1Misses 0x100000 (List.range 2))).toOption.map
      fun w => (sppFilterCheck Params.default w.spp 0x1001c0 (grade Params.default 95)).1) =
      some true := by decide +kernel
  obtain ⟨w, hw, hpass⟩ := exists_reachable hrun
  exact ⟨w, hw, refused_candidate_undone_iff 0 w 0x1001c0 95 hpass rfl⟩

/-- With a full queue: the line 0x1001c0 is refused and keeps its slot. In a longer run
the line 0x1003c0 is refused, then suppressed without ever having been issued, and a
demand for it counts as a useful prefetch. -/
theorem refused_candidate_suppressed_and_counted :
    (∃ w : World Unit, Reachable Params.default refuseAll w ∧
      (sppFilterCheck Params.default w.spp 0x1001c0 (grade Params.default 95)).1 = true ∧
      ¬ Undone Params.default 0x1001c0 w.spp
        (sppIssue Params.default refuseAll 0 w 0x1001c0 95).spp) ∧
    ∃ w : World Unit, Reachable Params.default refuseAll w ∧
      .candidate .l2Prefetch 0x1003c0 .refused ∈ w.history ∧
      .candidate .llcPrefetch 0x1003c0 .filtered ∈ w.history ∧
      w.spp.pfUseful = 1 ∧ w.spp.pfIssued = 0 := by
  constructor
  · have hrun : ((afterCallbacks Params.default refuseAll 0 ()
        (ul1Misses 0x100000 (List.range 2))).toOption.map
        fun w => ((sppFilterCheck Params.default w.spp 0x1001c0 (grade Params.default 95)).1,
          (w.spp.filter (quotient Params.default 0x1001c0)).valid,
          ((sppIssue Params.default refuseAll 0 w 0x1001c0 95).spp.filter
            (quotient Params.default 0x1001c0)).valid)) = some (true, false, true) := by
      decide +kernel
    obtain ⟨w, hw, hobs⟩ := exists_reachable hrun
    simp only [Prod.mk.injEq] at hobs
    obtain ⟨hpass, hbefore, hafter⟩ := hobs
    refine ⟨w, hw, hpass, ?_⟩
    intro hu
    rw [hu.filter, hbefore] at hafter
    cases hafter
  · have hrun : ((afterCallbacks Params.default refuseAll 0 ()
        (ul1Misses 0x100000 (List.range 15) ++ ul1Misses 0x100000 [10, 11, 12, 13, 14] ++
          [.ul1PrefHit 0x1003c0])).toOption.map
        fun w => (decide (.candidate .l2Prefetch 0x1003c0 .refused ∈ w.history),
          decide (.candidate .llcPrefetch 0x1003c0 .filtered ∈ w.history),
          w.spp.pfUseful, w.spp.pfIssued)) = some (true, true, 1, 0) := by decide +kernel
    obtain ⟨w, hw, hobs⟩ := exists_reachable hrun
    simp only [Prod.mk.injEq, decide_eq_true_eq] at hobs
    exact ⟨w, hw, hobs.1, hobs.2.1, hobs.2.2.1, hobs.2.2.2⟩

/-! ## What a rejected candidate says -/

/-- A rejection means that a prefetch holds the slot, unless nothing was ever recorded
in the slot, its resting tag 0 is the tag of the line, and a demand has hit that tag. -/
theorem rejected_only_if_held_iff {w : World σ} (h : Visited p addto w) (X : Addr)
    {req : SppFilterReq} (hreq : req = .l2Prefetch ∨ req = .llcPrefetch) :
    ((sppFilterCheck p w.spp X req).1 = false → HeldByPrefetch p X w.history) ↔
      ¬ (p.filterOn = true ∧ NeverRecorded p (quotient p X) w.history ∧ remainder p X = 0 ∧
        DemandedZero p (quotient p X) w.history) := by
  rw [sppFilterCheck_fst hreq, Bool.not_eq_false']
  cases hon : p.filterOn with
  | false => simp [FilterState.rejects, hon]
  | true =>
      rw [h.rejects_iff hon X]
      constructor
      · rintro hheld ⟨_, hnever, hzero⟩
        exact (hheld (.inr ⟨hnever, hzero⟩)).not_neverRecorded hnever
      · intro hno hrej
        rcases hrej with hheld | ⟨hnever, hzero⟩
        · exact hheld
        · exact absurd ⟨rfl, hnever, hzero⟩ hno

/-- A demand for 0x1240 hits the resting tag of its slot. Seven misses in another page
then predict the line 0x2f311c0, whose slot and tag are the same. -/
theorem resting_tag_run :
    ∃ w : World Unit, Reachable Params.default acceptAll w ∧
      .candidate .llcPrefetch 0x2f311c0 .filtered ∈ w.history ∧
      (sppFilterCheck Params.default w.spp 0x2f311c0 .llcPrefetch).1 = false ∧
      NeverRecorded Params.default (quotient Params.default 0x2f311c0) w.history := by
  have hrun : ((afterCallbacks Params.default acceptAll 0 ()
      (.ul1Miss 0 0x1240 :: ul1Misses 0x2f31000 (List.range 7))).toOption.map
      fun w => (decide (.candidate .llcPrefetch 0x2f311c0 .filtered ∈ w.history),
        (sppFilterCheck Params.default w.spp 0x2f311c0 .llcPrefetch).1,
        decide (History.latest (recordAt Params.default (quotient Params.default 0x2f311c0))
          w.history = none))) = some (true, false, true) := by decide +kernel
  obtain ⟨w, hw, hobs⟩ := exists_reachable hrun
  simp only [Prod.mk.injEq, decide_eq_true_eq] at hobs
  exact ⟨w, hw, hobs.1, hobs.2.1, latest_recordAt_eq_none.mp hobs.2.2⟩

theorem rejected_only_if_held_iff_applies :
    ∃ w : World Unit, Reachable Params.default acceptAll w ∧
      (((sppFilterCheck Params.default w.spp 0x2f311c0 .llcPrefetch).1 = false →
          HeldByPrefetch Params.default 0x2f311c0 w.history) ↔
        ¬ (Params.default.filterOn = true ∧
          NeverRecorded Params.default (quotient Params.default 0x2f311c0) w.history ∧
          remainder Params.default 0x2f311c0 = 0 ∧
          DemandedZero Params.default (quotient Params.default 0x2f311c0) w.history)) := by
  obtain ⟨w, hw, _⟩ := resting_tag_run
  exact ⟨w, hw, rejected_only_if_held_iff hw.visited 0x2f311c0 (.inr rfl)⟩

/-- A candidate was suppressed although no prefetch was ever recorded in its slot. -/
theorem unwritten_slot_suppresses :
    ∃ w : World Unit, Reachable Params.default acceptAll w ∧
      .candidate .llcPrefetch 0x2f311c0 .filtered ∈ w.history ∧
      (sppFilterCheck Params.default w.spp 0x2f311c0 .llcPrefetch).1 = false ∧
      ¬ HeldByPrefetch Params.default 0x2f311c0 w.history := by
  obtain ⟨w, hw, hcand, hcheck, hnever⟩ := resting_tag_run
  exact ⟨w, hw, hcand, hcheck, fun hheld => hheld.not_neverRecorded hnever⟩

/-! ## No line twice -/

/-- Between two accepted L2-grade checks of a line, another line took the slot. -/
theorem accepted_twice_displaced {w : World σ} (h : Visited p addto w) (hon : p.filterOn = true)
    {pre mid post : List SppEvent} {X Y : Addr} {o o' : Outcome}
    (hh : w.history = pre ++ .candidate .l2Prefetch X o :: mid ++ .candidate .l2Prefetch Y o' :: post)
    (hline : X >>> p.log2Line = Y >>> p.log2Line) (ho : o ≠ .filtered) (ho' : o' ≠ .filtered) :
    ∃ Z oZ, .candidate .l2Prefetch Z oZ ∈ mid ∧ oZ ≠ .filtered ∧ quotient p Z = quotient p X ∧
      remainder p Z ≠ remainder p X := by
  have hhash : filterHash p Y = filterHash p X := by rw [filterHash, filterHash, hline]
  by_contra hmid
  have hX : HeldByPrefetch p X (pre ++ [.candidate .l2Prefetch X o]) :=
    ⟨pre, X, o, [], rfl, ho, rfl, rfl, by simp⟩
  have hlatest := latest_recordAt_eq_some.mpr (hX.keep hmid)
  have hY : HeldByPrefetch p Y (pre ++ .candidate .l2Prefetch X o :: mid) := by
    rw [← latest_recordAt_eq_some]
    simpa [quotient, remainder, hhash] using hlatest
  exact ho' ((h.filtered_iff hon (by simpa using hh)).mpr (.inl hY))

/-- One slot for all lines: the line 0x1001c0 is prefetched, then 0x100200, then it again. -/
theorem accepted_twice_displaced_applies :
    ∃ p : Params, ∃ mid : List SppEvent, ∃ Z oZ, .candidate .l2Prefetch Z oZ ∈ mid ∧
      oZ ≠ .filtered ∧ quotient p Z = quotient p 0x1001c0 ∧ remainder p Z ≠ remainder p 0x1001c0 := by
  have hrun : ((afterCallbacks (Params.small 0 (by decide)) acceptAll 0 ()
      (ul1Misses 0x100000 (List.range 8) ++ ul1Misses 0x100000 [2, 3, 4, 5, 6])).toOption.map
      fun w => w.history) = some
        (([0x100000, 0x100040, 0x100080, 0x1000c0, 0x100100, 0x100140, 0x100180].map .demand) ++
          .candidate .l2Prefetch 0x1001c0 .queued ::
            ([.demand 0x1001c0, .candidate .l2Prefetch 0x100200 .queued] ++
              [0x100080, 0x1000c0, 0x100100, 0x100140, 0x100180].map .demand) ++
          [.candidate .l2Prefetch 0x1001c0 .queued]) := by decide +kernel
  obtain ⟨w, hw, hobs⟩ := exists_reachable hrun
  exact ⟨_, _, accepted_twice_displaced hw.visited rfl hobs rfl (by decide) (by decide)⟩

/-! ## A line that was evicted -/

/-- After a prefetched line was filled and evicted, a later L2-grade prediction of it is
suppressed only on account of a newer prefetch exactly if the filter is off, the slot
no longer held its tag at the eviction, or another line has taken the slot since. -/
theorem evicted_line_not_suppressed_iff {w : World σ} (h : Visited p addto w)
    {pre fill before after post : List SppEvent} {X : Addr} {o : Outcome}
    (hh : w.history =
      (pre ++ .candidate .l2Prefetch X .queued :: fill ++ .filled X :: before) ++
        .evicted X :: after ++ .candidate .l2Prefetch X o :: post) :
    (o = .filtered → Renewed p X after) ↔
      p.filterOn = false ∨
        ¬ HeldByPrefetch p X
          (pre ++ .candidate .l2Prefetch X .queued :: fill ++ .filled X :: before) ∨
        Displaced p X after := by
  generalize hpast : pre ++ .candidate .l2Prefetch X .queued :: fill ++ .filled X :: before = past
    at hh ⊢
  have hsplit : w.history = (past ++ [.evicted X]) ++ after ++ .candidate .l2Prefetch X o :: post := by
    simpa using hh
  have hevict : HeldByPrefetch p X (past ++ [.evicted X]) ↔ HeldByPrefetch p X past := by
    rw [← latest_recordAt_eq_some, ← latest_recordAt_eq_some, History.latest_concat_of_none rfl]
  cases hon : p.filterOn with
  | false => simp [h.not_filtered_of_off hon hh]
  | true =>
      have hverdict := h.filtered_iff hon hsplit
      have hnotNever : ¬ NeverRecorded p (quotient p X) ((past ++ [.evicted X]) ++ after) := by
        intro hnever
        have hq := hnever X .queued (by simp [← hpast]) rfl
        cases hq
      constructor
      · intro hclaim
        by_contra hcond
        simp only [Bool.true_eq_false, false_or, not_or, not_not] at hcond
        have hheld := hevict.mpr hcond.1
        have hsup := hverdict.mpr (.inl (hheld.keep hcond.2))
        exact h.not_renewed hon hsplit hheld hcond.2 (hclaim hsup)
      · intro hcond hsup
        rcases hverdict.mp hsup with hheld | ⟨hnever, _⟩
        · rcases hheld.of_append with hren | ⟨hpastHeld, hnodisp⟩
          · exact hren
          · rcases hcond with hoff | hfree | hdisp
            · cases hoff
            · exact absurd (hevict.mp hpastHeld) hfree
            · exact absurd hdisp hnodisp
        · exact absurd hnever hnotNever

/-- The line 0x1003c0 is prefetched, filled and evicted. Misses in another page then
raise the confidence of the stride again, and the miss on 0x100380 predicts the line. -/
theorem evicted_line_run :
    ∃ w : World Unit, ∃ pre after, Reachable Params.default acceptAll w ∧
      w.history =
        (pre ++ .candidate .l2Prefetch 0x1003c0 .queued :: [] ++ .filled 0x1003c0 :: []) ++
          .evicted 0x1003c0 :: after ++ .candidate .l2Prefetch 0x1003c0 .filtered :: [] ∧
      NeverRecorded Params.default (quotient Params.default 0x1003c0) after := by
  have hrun : ((afterCallbacks Params.default acceptAll 0 ()
      (ul1Misses 0x100000 (List.range 15) ++ [.fill 0x1003c0, .evict 0 0x1003c0] ++
        ul1Misses 0x100000 [10, 11, 12, 13] ++ ul1Misses 0x200000 (List.range 12) ++
        ul1Misses 0x100000 [14])).toOption.map
      fun w => ((w.history.drop 23).take 3, (w.history.drop 26).getLast?,
        decide (History.latest (recordAt Params.default (quotient Params.default 0x1003c0))
          (w.history.drop 26).dropLast = none))) =
      some ([.candidate .l2Prefetch 0x1003c0 .queued, .filled 0x1003c0, .evicted 0x1003c0],
        some (.candidate .l2Prefetch 0x1003c0 .filtered), true) := by decide +kernel
  obtain ⟨w, hw, hobs⟩ := exists_reachable hrun
  simp only [Prod.mk.injEq, decide_eq_true_eq] at hobs
  obtain ⟨hmid, hlast, hnone⟩ := hobs
  refine ⟨w, w.history.take 23, (w.history.drop 26).dropLast, hw, ?_,
    latest_recordAt_eq_none.mp hnone⟩
  calc w.history
      = w.history.take 23 ++ ((w.history.drop 23).take 3 ++ w.history.drop 26) := by
        have hdrop : w.history.drop 26 = (w.history.drop 23).drop 3 := by simp
        rw [hdrop, List.take_append_drop, List.take_append_drop]
    _ = _ := by
        rw [hmid, ← List.dropLast_append_getLast? _ hlast]
        simp

theorem evicted_line_not_suppressed_iff_applies :
    ∃ w : World Unit, ∃ pre after, Reachable Params.default acceptAll w ∧
      ((.filtered = Outcome.filtered → Renewed Params.default 0x1003c0 after) ↔
        Params.default.filterOn = false ∨
          ¬ HeldByPrefetch Params.default 0x1003c0
            (pre ++ .candidate .l2Prefetch 0x1003c0 .queued :: [] ++ .filled 0x1003c0 :: []) ∨
          Displaced Params.default 0x1003c0 after) := by
  obtain ⟨w, pre, after, hw, hh, _⟩ := evicted_line_run
  exact ⟨w, pre, after, hw, evicted_line_not_suppressed_iff hw.visited hh⟩

/-- A prefetch that was evicted still suppresses: nothing was recorded in the slot since. -/
theorem evicted_line_suppresses :
    ∃ w : World Unit, ∃ pre after, Reachable Params.default acceptAll w ∧
      w.history =
        (pre ++ .candidate .l2Prefetch 0x1003c0 .queued :: [] ++ .filled 0x1003c0 :: []) ++
          .evicted 0x1003c0 :: after ++ .candidate .l2Prefetch 0x1003c0 .filtered :: [] ∧
      ¬ Renewed Params.default 0x1003c0 after := by
  obtain ⟨w, pre, after, hw, hh, hnever⟩ := evicted_line_run
  refine ⟨w, pre, after, hw, hh, ?_⟩
  rintro ⟨Z, o, hZ, ho, hq, _⟩
  exact ho (hnever Z o hZ hq)

end Scarab.Spp
