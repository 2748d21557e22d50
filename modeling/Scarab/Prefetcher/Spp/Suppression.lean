import Scarab.Prefetcher.Spp.Equations

/-! # Why the prefetch filter suppresses a line

Every slot remembers the last L2-grade check it accepted. A slot that never accepted
one still carries the tag 0 it was allocated with, and a demand can mark it used. -/

namespace Scarab.Spp

variable {σ : Type} {p : Params} {addto : AddTo σ}

/-! ## What a history leaves in a slot -/

/-- The tag an event records in slot `q`: that of an L2-grade check the filter accepted,
whatever the queue answered. -/
def recordAt (p : Params) (q : ℕ) : SppEvent → Option Uns
  | .candidate .l2Prefetch addr o =>
      if o ≠ .filtered ∧ quotient p addr = q then some (remainder p addr) else none
  | _ => none

/-- A demand has hit the tag 0 of slot `q`. -/
def DemandedZero (p : Params) (q : ℕ) (h : List SppEvent) : Prop :=
  ∃ addr, .demand addr ∈ h ∧ quotient p addr = q ∧ remainder p addr = 0

theorem recordAt_eq_some {q : ℕ} {e : SppEvent} {tag : Uns} :
    recordAt p q e = some tag ↔
      ∃ addr o, e = .candidate .l2Prefetch addr o ∧ o ≠ .filtered ∧ quotient p addr = q ∧
        remainder p addr = tag := by
  constructor
  · intro h
    unfold recordAt at h
    split at h
    · split at h
      · rename_i addr o hc
        exact ⟨addr, o, rfl, hc.1, hc.2, Option.some.inj h⟩
      · cases h
    · cases h
  · rintro ⟨addr, o, rfl, ho, hq, ht⟩
    simp [recordAt, ho, hq, ht]

namespace FilterState

variable (F : FilterState)

@[simp] theorem countUseful_slot : (F.countUseful p).slot = F.slot := by
  unfold countUseful
  split <;> rfl

@[simp] theorem countIssued_slot : (F.countIssued p).slot = F.slot := by
  unfold countIssued
  split <;> rfl

theorem record_slot (hon : p.filterOn = true) (addr : Addr) (q : ℕ) :
    (F.record p addr).slot q =
      if quotient p addr = q then ⟨true, false, remainder p addr⟩ else F.slot q := by
  by_cases h : quotient p addr = q
  · subst h
    simp [record, hon]
  · simp [record, hon, h, Function.update_of_ne (Ne.symm h)]

/-- A demand changes at most the use bit of its own slot. -/
theorem use_slot (hon : p.filterOn = true) (addr : Addr) (q : ℕ) :
    (F.use p addr).slot q =
      if quotient p addr = q ∧ (F.slot q).remainderTag = remainder p addr then
        { F.slot q with useful := true }
      else F.slot q := by
  have hmark : (F.use p addr).slot = if F.hitBy p addr then (F.markUseful p addr).slot else F.slot := by
    unfold use
    split
    · split <;> simp
    · rfl
  rw [hmark]
  by_cases hq : quotient p addr = q
  · subst hq
    by_cases ht : (F.slot (quotient p addr)).remainderTag = remainder p addr
    · cases hu : (F.slot (quotient p addr)).useful with
      | false => simp [hitBy, hon, ht, hu, markUseful]
      | true =>
          have hself : { F.slot (quotient p addr) with useful := true } =
              F.slot (quotient p addr) := by rw [← hu]
          have hmiss : F.hitBy p addr = false := by simp [hitBy, hu]
          rw [hmiss, hself, ite_self]
          rfl
    · simp [hitBy, ht]
  · cases hm : F.hitBy p addr with
    | false => simp [hq]
    | true => simp [hq, markUseful, Function.update_of_ne (Ne.symm hq)]

/-- What slot `q` holds after a history. -/
structure SlotSays (p : Params) (q : ℕ) (h : List SppEvent) (e : SppFilterEntry) : Prop where
  recorded : ∀ tag, History.latest (recordAt p q) h = some tag → e.valid = true ∧ e.remainderTag = tag
  fresh : History.latest (recordAt p q) h = none →
    e.valid = false ∧ e.remainderTag = 0 ∧ (e.useful = true ↔ DemandedZero p q h)

theorem SlotSays.record {q : ℕ} {h : List SppEvent} {c : SppEvent} {tag : Uns}
    (hc : recordAt p q c = some tag) : SlotSays p q (h ++ [c]) ⟨true, false, tag⟩ := by
  refine ⟨?_, ?_⟩
  · intro t ht
    rw [History.latest_concat_of_some hc] at ht
    exact ⟨rfl, Option.some.inj ht⟩
  · intro hn
    rw [History.latest_concat_of_some hc] at hn
    cases hn

theorem SlotSays.keep {q : ℕ} {h : List SppEvent} {c : SppEvent} {e : SppFilterEntry}
    (hs : SlotSays p q h e) (hc : recordAt p q c = none)
    (hd : ∀ addr, c = .demand addr → ¬ (quotient p addr = q ∧ e.remainderTag = remainder p addr)) :
    SlotSays p q (h ++ [c]) e := by
  refine ⟨?_, ?_⟩
  · intro tag ht
    rw [History.latest_concat_of_none hc] at ht
    exact hs.recorded tag ht
  · intro hn
    rw [History.latest_concat_of_none hc] at hn
    obtain ⟨hv, ht, hu⟩ := hs.fresh hn
    refine ⟨hv, ht, hu.trans ?_⟩
    constructor
    · rintro ⟨addr, ha, hq⟩
      exact ⟨addr, by simp [ha], hq⟩
    · rintro ⟨addr, ha, hq, hr⟩
      rcases List.mem_append.mp ha with ha | ha
      · exact ⟨addr, ha, hq, hr⟩
      · have hca := (List.mem_singleton.mp ha).symm
        exact absurd ⟨hq, ht.trans hr.symm⟩ (hd addr hca)

theorem SlotSays.use {q : ℕ} {h : List SppEvent} {addr : Addr} {e : SppFilterEntry}
    (hs : SlotSays p q h e) (hq : quotient p addr = q) (ht : e.remainderTag = remainder p addr) :
    SlotSays p q (h ++ [.demand addr]) { e with useful := true } := by
  have hc : recordAt p q (.demand addr) = none := rfl
  refine ⟨?_, ?_⟩
  · intro tag hl
    rw [History.latest_concat_of_none hc] at hl
    exact hs.recorded tag hl
  · intro hn
    rw [History.latest_concat_of_none hc] at hn
    obtain ⟨hv, h0, _⟩ := hs.fresh hn
    refine ⟨hv, h0, ?_⟩
    simp only [true_iff]
    exact ⟨addr, by simp, hq, ht.symm.trans h0⟩

/-- With the filter on, a slot holds what the history says. -/
theorem slotSays_replay (hon : p.filterOn = true) (q : ℕ) (h : List SppEvent)
    (hfit : History.Always (fun pre e => Fits p (replay p pre) e) h) :
    SlotSays p q h ((replay p h).slot q) := by
  refine hfit.induction (I := fun h => SlotSays p q h ((replay p h).slot q)) ?_ ?_
  · refine ⟨by simp, ?_⟩
    intro _
    simp [empty, DemandedZero]
  · intro pre c hs hc
    rw [replay_concat]
    cases c with
    | demand addr =>
        simp only [apply, use_slot _ hon]
        split
        · rename_i hq
          exact hs.use hq.1 hq.2
        · rename_i hq
          refine hs.keep rfl ?_
          rintro a ha
          obtain rfl := SppEvent.demand.inj ha
          exact hq
    | candidate req addr o =>
        cases req with
        | l2Prefetch =>
            cases o with
            | filtered => exact hs.keep (by simp [recordAt]) (by simp)
            | refused =>
                simp only [apply, record_slot _ hon]
                split
                · rename_i hq
                  exact SlotSays.record (by simp [recordAt, hq])
                · rename_i hq
                  exact hs.keep (by simp [recordAt, hq]) (by simp)
            | queued =>
                simp only [apply, countIssued_slot, record_slot _ hon]
                split
                · rename_i hq
                  exact SlotSays.record (by simp [recordAt, hq])
                · rename_i hq
                  exact hs.keep (by simp [recordAt, hq]) (by simp)
        | llcPrefetch => exact hs.keep rfl (by simp)
        | demand => exact hs.keep rfl (by simp)
        | evict => exact hs.keep rfl (by simp)
    | crossed sig conf offset delta => exact hs.keep rfl (by simp)
    | filled addr => exact hs.keep rfl (by simp)
    | evicted addr => exact hs.keep rfl (by simp)

/-- A line is rejected because its tag was the last one recorded in its slot, or because
the slot was never written and a demand has hit its resting tag. -/
theorem rejects_replay_iff (hon : p.filterOn = true) (addr : Addr) (h : List SppEvent)
    (hfit : History.Always (fun pre e => Fits p (replay p pre) e) h) :
    (replay p h).rejects p addr = true ↔
      History.latest (recordAt p (quotient p addr)) h = some (remainder p addr) ∨
        (History.latest (recordAt p (quotient p addr)) h = none ∧ remainder p addr = 0 ∧
          DemandedZero p (quotient p addr) h) := by
  have hs := slotSays_replay hon (quotient p addr) h hfit
  cases hl : History.latest (recordAt p (quotient p addr)) h with
  | some tag =>
      obtain ⟨hv, ht⟩ := hs.recorded tag hl
      simp [rejects, SppFilterEntry.blocks, hon, hv, ht]
  | none =>
      obtain ⟨hv, ht, hu⟩ := hs.fresh hl
      simp only [rejects, SppFilterEntry.blocks, hon, hv, ht, Bool.true_and, Bool.false_or,
        Bool.and_eq_true, beq_iff_eq, hu, reduceCtorEq, false_or, true_and]
      rw [and_comm, eq_comm]

end FilterState

/-! ## The two readings of a slot -/

/-- The last L2-grade check accepted in the slot of `X` was for the tag of `X`. -/
def HeldByPrefetch (p : Params) (X : Addr) (h : List SppEvent) : Prop :=
  ∃ pre Z o post, h = pre ++ .candidate .l2Prefetch Z o :: post ∧ o ≠ .filtered ∧
    quotient p Z = quotient p X ∧ remainder p Z = remainder p X ∧
    ∀ Y o', .candidate .l2Prefetch Y o' ∈ post → o' ≠ .filtered → quotient p Y = quotient p X →
      remainder p Y = remainder p X

/-- No L2-grade check was ever accepted in slot `q`. -/
def NeverRecorded (p : Params) (q : ℕ) (h : List SppEvent) : Prop :=
  ∀ Z o, .candidate .l2Prefetch Z o ∈ h → quotient p Z = q → o = .filtered

theorem latest_recordAt_eq_some {X : Addr} {h : List SppEvent} :
    History.latest (recordAt p (quotient p X)) h = some (remainder p X) ↔ HeldByPrefetch p X h := by
  rw [History.latest_eq_some_iff]
  constructor
  · rintro ⟨pre, e, post, rfl, he, hpost⟩
    obtain ⟨Z, o, rfl, ho, hq, ht⟩ := recordAt_eq_some.mp he
    refine ⟨pre, Z, o, post, rfl, ho, hq, ht, ?_⟩
    intro Y o' hY ho' hqY
    exact hpost _ hY _ (recordAt_eq_some.mpr ⟨Y, o', rfl, ho', hqY, rfl⟩)
  · rintro ⟨pre, Z, o, post, rfl, ho, hq, ht, hpost⟩
    refine ⟨pre, _, post, rfl, recordAt_eq_some.mpr ⟨Z, o, rfl, ho, hq, ht⟩, ?_⟩
    intro c hc tag htag
    obtain ⟨Y, o', rfl, ho', hqY, htY⟩ := recordAt_eq_some.mp htag
    rw [← htY]
    exact hpost Y o' hc ho' hqY

theorem latest_recordAt_eq_none {q : ℕ} {h : List SppEvent} :
    History.latest (recordAt p q) h = none ↔ NeverRecorded p q h := by
  rw [History.latest_eq_none]
  constructor
  · intro hall Z o hZ hq
    by_contra ho
    have hrec := recordAt_eq_some.mpr ⟨Z, o, rfl, ho, hq, rfl⟩
    rw [hall _ hZ] at hrec
    cases hrec
  · intro hnever e he
    cases hr : recordAt p q e with
    | none => rfl
    | some tag =>
        obtain ⟨Z, o, rfl, ho, hq, _⟩ := recordAt_eq_some.mp hr
        exact absurd (hnever Z o he hq) ho

theorem HeldByPrefetch.not_neverRecorded {X : Addr} {h : List SppEvent}
    (hheld : HeldByPrefetch p X h) : ¬ NeverRecorded p (quotient p X) h := by
  intro hnever
  have hsome := latest_recordAt_eq_some.mpr hheld
  rw [latest_recordAt_eq_none.mpr hnever] at hsome
  cases hsome

/-- What the filter of a visited world rejects. -/
theorem Visited.rejects_iff {w : World σ} (h : Visited p addto w) (hon : p.filterOn = true)
    (X : Addr) :
    w.spp.filterState.rejects p X = true ↔
      HeldByPrefetch p X w.history ∨
        (NeverRecorded p (quotient p X) w.history ∧ remainder p X = 0 ∧
          DemandedZero p (quotient p X) w.history) := by
  obtain ⟨hF, hfit⟩ := h.replay
  rw [hF, FilterState.rejects_replay_iff hon X _ hfit, latest_recordAt_eq_some,
    latest_recordAt_eq_none]

end Scarab.Spp
