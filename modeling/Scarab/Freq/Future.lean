import Scarab.Freq

/-! # Times and cycles to come

`freq.c`. A cycle of a domain begins at a multiple of its cycle time after the last reset. -/

namespace Scarab.Freq

/-! ## The code -/

/-- `freq_future_time`. -/
def freqFutureTime (s : State) (id cycles : ℕ) : Except String ℕ :=
  match s.domains[id]? with
  | none => .error "id < num_domains"
  | some domain =>
      if domain.cycles ≤ cycles then .ok (s.curTime + (cycles - domain.cycles) * domain.cycleTime)
      else .error "domains[id].cycles <= cycles"

/-- The part of `freq_convert_future_cycle` that finds a cycle of `dst` for a time. -/
def DomainInfo.firstCycleFrom (dst : DomainInfo) (curTime futureTime : ℕ) : ℕ :=
  let dstCycleReadyNow := dst.timeUntilNextCycle = 0
  -- either this cycle or next cycle
  let immediate := dst.cycles + if dstCycleReadyNow then 0 else 1
  if futureTime ≤ curTime + dst.timeUntilNextCycle then immediate
  else
    let timeRemaining := futureTime - curTime - dst.timeUntilNextCycle
    -- a boundary of both domains adds no extra cycle
    immediate + ((timeRemaining - 1) / dst.cycleTime + 1)

/-- The time at which the current cycle began. -/
def DomainInfo.lastCycleTime (src : DomainInfo) (curTime : ℕ) : ℕ :=
  curTime + src.timeUntilNextCycle - if src.timeUntilNextCycle = 0 then 0 else src.cycleTime

/-- `freq_convert_future_cycle`. The identifiers are not checked by the code. -/
def freqConvertFutureCycle (s : State) (src srcCycleCount dst : ℕ) : Except String ℕ :=
  match s.domains[src]?, s.domains[dst]? with
  | some src, some dst =>
      if src.cycles ≤ srcCycleCount then
        let futureTime := src.lastCycleTime s.curTime + (srcCycleCount - src.cycles) * src.cycleTime
        .ok (dst.firstCycleFrom s.curTime futureTime)
      else .error "src_cycle_count >= domains[src].cycles"
  | _, _ => .error "no such domain"

/-! ## Cycles and times -/

variable {c c' : Clock} {cycleTimes : List ℕ} {cycleTime id count time : ℕ}

/-- The time at which a cycle begins. -/
def Clock.startTime (c : Clock) (cycleTime count : ℕ) : ℕ := c.origin + count * cycleTime

theorem Clock.Sound.curTime (h : c.Sound cycleTimes) : c.state.curTime = c.origin + c.time := by
  have horigin := h.origin
  unfold Clock.time
  omega

theorem Clock.Sound.domain (h : c.Sound cycleTimes) (hid : cycleTimes[id]? = some cycleTime) :
    c.state.domains[id]? = some (DomainInfo.at c.time cycleTime) := by
  rw [h.domains, List.getElem?_map, hid]
  rfl

theorem Clock.Sound.cycleCount (h : c.Sound cycleTimes) (hid : cycleTimes[id]? = some cycleTime) :
    freqCycleCount c.state id = .ok (c.time / cycleTime) := by
  unfold freqCycleCount
  rw [h.domain hid]
  rfl

/-- The next cycle that begins now or later. -/
theorem DomainInfo.at_next (time : ℕ) (hpos : 0 < cycleTime) :
    time + (DomainInfo.at time cycleTime).timeUntilNextCycle =
        (time / cycleTime + if (DomainInfo.at time cycleTime).timeUntilNextCycle = 0 then 0 else 1) * cycleTime ∧
      (DomainInfo.at time cycleTime).timeUntilNextCycle < cycleTime := by
  have hlt := Nat.mod_lt time hpos
  have htime := Nat.div_add_mod' time cycleTime
  unfold DomainInfo.at
  refine ⟨?_, Nat.mod_lt _ hpos⟩
  by_cases hzero : time % cycleTime = 0
  · simp only [hzero, Nat.sub_zero, Nat.mod_self, if_true, Nat.add_zero]
    omega
  · have hleft : (cycleTime - time % cycleTime) % cycleTime = cycleTime - time % cycleTime := Nat.mod_eq_of_lt (by omega)
    simp only [hleft]
    rw [if_neg (by omega), Nat.succ_mul]
    omega

theorem DomainInfo.at_lastCycleTime (origin time : ℕ) (hpos : 0 < cycleTime) :
    (DomainInfo.at time cycleTime).lastCycleTime (origin + time) = origin + time / cycleTime * cycleTime := by
  obtain ⟨hnext, -⟩ := DomainInfo.at_next time hpos
  have hcycle : (DomainInfo.at time cycleTime).cycleTime = cycleTime := rfl
  unfold DomainInfo.lastCycleTime
  rw [hcycle, Nat.add_assoc, hnext]
  by_cases hready : (DomainInfo.at time cycleTime).timeUntilNextCycle = 0
  · rw [if_pos hready, if_pos hready, Nat.add_zero, Nat.sub_zero]
  · rw [if_neg hready, if_neg hready, Nat.succ_mul]
    omega

/-- The first cycle that begins neither before the future time nor in the past. -/
theorem DomainInfo.at_firstCycleFrom (origin time futureTime : ℕ) (hpos : 0 < cycleTime) :
    IsLeast {n | futureTime ≤ origin + n * cycleTime ∧ origin + time ≤ origin + n * cycleTime}
      ((DomainInfo.at time cycleTime).firstCycleFrom (origin + time) futureTime) := by
  obtain ⟨hnext, hless⟩ := DomainInfo.at_next time hpos
  unfold DomainInfo.firstCycleFrom
  have hcycles : (DomainInfo.at time cycleTime).cycles = time / cycleTime := rfl
  have hcycle : (DomainInfo.at time cycleTime).cycleTime = cycleTime := rfl
  simp only [hcycles, hcycle]
  generalize (DomainInfo.at time cycleTime).timeUntilNextCycle = left at *
  generalize (time / cycleTime + if left = 0 then 0 else 1) = immediate at *
  by_cases hnow : futureTime ≤ origin + time + left
  · rw [if_pos hnow]
    refine ⟨⟨by omega, by omega⟩, fun n hn => ?_⟩
    by_contra hearlier
    have hmul : (n + 1) * cycleTime ≤ immediate * cycleTime := Nat.mul_le_mul_right cycleTime (by omega)
    rw [Nat.succ_mul] at hmul
    have htime := hn.2
    omega
  · rw [if_neg hnow]
    have hdiv := Nat.div_add_mod' (futureTime - (origin + time) - left - 1) cycleTime
    have hmod := Nat.mod_lt (futureTime - (origin + time) - left - 1) hpos
    generalize (futureTime - (origin + time) - left - 1) / cycleTime = remaining at *
    have hsum : (immediate + (remaining + 1)) * cycleTime = immediate * cycleTime + (remaining * cycleTime + cycleTime) := by
      rw [Nat.add_mul, Nat.succ_mul]
    refine ⟨⟨?_, ?_⟩, fun n hn => ?_⟩
    · rw [hsum]
      omega
    · rw [hsum]
      omega
    · by_contra hearlier
      have hmul : n * cycleTime ≤ (immediate + remaining) * cycleTime := Nat.mul_le_mul_right cycleTime (by omega)
      rw [Nat.add_mul] at hmul
      have hfuture := hn.1
      omega

/-- In every state of a run the conversion gives the first cycle of the destination that begins
neither before the source cycle nor before the current time. -/
theorem freqConvertFutureCycle_isLeast {p : Params} {s : State} (hinit : freqInit p = .ok s) (calls : List Call) :
    ∃ c, (Clock.start s).run calls = .ok c ∧
      ∀ src dst srcCycleTime dstCycleTime, p.cycleTimes[src]? = some srcCycleTime → p.cycleTimes[dst]? = some dstCycleTime →
        ∀ srcCycleCount, (∃ now, freqCycleCount c.state src = .ok now ∧ now ≤ srcCycleCount) →
          ∃ dstCycle, freqConvertFutureCycle c.state src srcCycleCount dst = .ok dstCycle ∧
            IsLeast {n | c.startTime srcCycleTime srcCycleCount ≤ c.startTime dstCycleTime n ∧
              c.state.curTime ≤ c.startTime dstCycleTime n} dstCycle := by
  obtain ⟨hstart, hpos⟩ := Clock.Sound.init hinit
  obtain ⟨c, hrun, hsound⟩ := hstart.run p.cycleTimes_ne_nil hpos calls
  refine ⟨c, hrun, ?_⟩
  rintro src dst srcCycleTime dstCycleTime hsrc hdst srcCycleCount ⟨now, hnow, hle⟩
  obtain rfl : c.time / srcCycleTime = now := Except.ok.inj ((hsound.cycleCount hsrc).symm.trans hnow)
  have hfuture : (DomainInfo.at c.time srcCycleTime).lastCycleTime c.state.curTime +
      (srcCycleCount - c.time / srcCycleTime) * srcCycleTime = c.startTime srcCycleTime srcCycleCount := by
    rw [hsound.curTime, DomainInfo.at_lastCycleTime c.origin c.time (hpos _ (List.mem_of_getElem? hsrc)),
      Nat.add_assoc, ← Nat.add_mul, Nat.add_sub_cancel' hle]
    rfl
  refine ⟨(DomainInfo.at c.time dstCycleTime).firstCycleFrom c.state.curTime (c.startTime srcCycleTime srcCycleCount), ?_, ?_⟩
  · unfold freqConvertFutureCycle
    rw [hsound.domain hsrc, hsound.domain hdst, ← hfuture]
    exact if_pos hle
  · rw [hsound.curTime]
    exact DomainInfo.at_firstCycleFrom c.origin c.time _ (hpos _ (List.mem_of_getElem? hdst))

/-- At the time 9 both the core, with a cycle time of 2, and the memory, with 5, are between two of
their cycles. -/
theorem freqConvertFutureCycle_isLeast_memory :
    ∃ s c dstCycle, freqInit ⟨1, fun _ => 2, 3, 5, 0⟩ = .ok s ∧
      (Clock.start s).run (List.replicate 7 .advanceTime) = .ok c ∧
      freqConvertFutureCycle c.state 0 7 2 = .ok dstCycle ∧
      IsLeast {n | c.startTime 2 7 ≤ c.startTime 5 n ∧ c.state.curTime ≤ c.startTime 5 n} dstCycle := by
  have hinit : freqInit ⟨1, fun _ => 2, 3, 5, 0⟩ = .ok ⟨0, [⟨0, 2, 0⟩, ⟨0, 3, 0⟩, ⟨0, 5, 0⟩]⟩ := rfl
  obtain ⟨c, hrun, hall⟩ := freqConvertFutureCycle_isLeast hinit (List.replicate 7 .advanceTime)
  have hcore : freqCycleCount <$> (Clock.state <$> (Clock.start ⟨0, [⟨0, 2, 0⟩, ⟨0, 3, 0⟩, ⟨0, 5, 0⟩]⟩).run
      (List.replicate 7 .advanceTime)) <*> .ok 0 = .ok (.ok 4) := by decide
  rw [hrun] at hcore
  obtain ⟨dstCycle, hdst, hleast⟩ := hall 0 2 2 5 rfl rfl 7 ⟨4, Except.ok.inj hcore, by decide⟩
  exact ⟨_, c, dstCycle, hinit, hrun, hdst, hleast⟩

/-! ## When a counter reaches a count -/

/-- The time at which `freq_advance_time`, called again and again, first brings the counter of a
domain to a count. -/
def Clock.FirstReaches (c : Clock) (id count time : ℕ) : Prop :=
  ∃ k c', c.run (List.replicate k .advanceTime) = .ok c' ∧ c'.state.curTime = time ∧
    freqCycleCount c'.state id = .ok count ∧
    ∀ j < k, ∀ mid, c.run (List.replicate j .advanceTime) = .ok mid → freqCycleCount mid.state id ≠ .ok count

theorem Clock.FirstReaches.unique {time' : ℕ} (h : c.FirstReaches id count time) (h' : c.FirstReaches id count time') :
    time = time' := by
  obtain ⟨k, mid, hmid, htime, hcount, hbefore⟩ := h
  obtain ⟨k', mid', hmid', htime', hcount', hbefore'⟩ := h'
  rcases Nat.lt_trichotomy k k' with hlt | rfl | hlt
  · exact (hbefore' k hlt mid hmid hcount).elim
  · obtain rfl : mid = mid' := Except.ok.inj (hmid.symm.trans hmid')
    exact htime.symm.trans htime'
  · exact (hbefore k' hlt mid' hmid' hcount').elim

theorem Clock.step_advanceTime_origin (h : c.step .advanceTime = .ok c') : c'.origin = c.origin := by
  obtain ⟨s, -, hs⟩ := Execution.bind_eq_ok.mp h
  cases hs
  rfl

/-- The counter reaches a count at the start of the cycle, if that is not over. -/
theorem Clock.Sound.firstReaches (h : c.Sound cycleTimes) (hpos : ∀ cycleTime ∈ cycleTimes, 0 < cycleTime)
    (hid : cycleTimes[id]? = some cycleTime) (hle : c.time / cycleTime ≤ count) :
    c.FirstReaches id count (max c.state.curTime (c.startTime cycleTime count)) := by
  have hmem := List.mem_of_getElem? hid
  have hcycle := hpos cycleTime hmem
  have hne : cycleTimes ≠ [] := List.ne_nil_of_mem hmem
  induction hleft : count * cycleTime - c.time using Nat.strong_induction_on generalizing c with
  | _ left ih =>
  by_cases hnow : c.time / cycleTime = count
  · have hmul := Nat.div_mul_le_self c.time cycleTime
    have hcur := h.curTime
    refine ⟨0, c, rfl, ?_, by rw [h.cycleCount hid, hnow], fun j hj => absurd hj (Nat.not_lt_zero j)⟩
    unfold Clock.startTime
    rw [← hnow]
    omega
  · -- the start of the cycle is a boundary to come, and time does not jump over it
    have hafter : c.time < count * cycleTime := (Nat.div_lt_iff_lt_mul hcycle).mp (by omega)
    obtain ⟨mid, hstep, hsound, htime⟩ := h.advance hne hpos
    have hleast := timeDelta_isLeast hne hpos c.time
    have hreach : mid.time ≤ count * cycleTime := by
      rw [htime]
      exact hleast.2 ⟨hafter, cycleTime, hmem, Nat.dvd_mul_left cycleTime count⟩
    have hlater : c.time < mid.time := by
      rw [htime]
      exact hleast.1.1
    obtain ⟨k, c', hrun, hcur, hcount, hbefore⟩ :=
      ih _ (by omega) hsound (Nat.div_le_of_le_mul (by rwa [Nat.mul_comm] at hreach)) rfl
    refine ⟨k + 1, c', Execution.run_cons_eq_ok.mpr ⟨mid, hstep, hrun⟩, ?_, hcount, fun j hj => ?_⟩
    · have horigin := step_advanceTime_origin hstep
      have hmidtime := hsound.curTime
      have hnowtime := h.curTime
      unfold Clock.startTime at hcur ⊢
      omega
    · cases j with
      | zero =>
          rintro other hother
          cases hother
          rw [h.cycleCount hid]
          exact fun heq => hnow (Except.ok.inj heq)
      | succ j =>
          intro other hother
          obtain ⟨first, hfirst, hrest⟩ := Execution.run_cons_eq_ok.mp hother
          obtain rfl : mid = first := Except.ok.inj (hstep.symm.trans hfirst)
          exact hbefore j (by omega) other hrest

theorem DomainInfo.at_ready_iff (time : ℕ) (hpos : 0 < cycleTime) :
    (DomainInfo.at time cycleTime).timeUntilNextCycle = 0 ↔ time / cycleTime * cycleTime = time := by
  have hlt := Nat.mod_lt time hpos
  have htime := Nat.div_add_mod' time cycleTime
  change (cycleTime - time % cycleTime) % cycleTime = 0 ↔ _
  by_cases hzero : time % cycleTime = 0
  · rw [hzero, Nat.sub_zero, Nat.mod_self]
    omega
  · rw [Nat.mod_eq_of_lt (by omega)]
    omega

/-- The future time of a count, from now and from the start of the current cycle. -/
theorem Clock.Sound.freqFutureTime_eq (h : c.Sound cycleTimes) (hid : cycleTimes[id]? = some cycleTime)
    (hle : c.time / cycleTime ≤ count) :
    freqFutureTime c.state id count = .ok (c.state.curTime + (count - c.time / cycleTime) * cycleTime) ∧
      (count - c.time / cycleTime) * cycleTime + c.time / cycleTime * cycleTime = count * cycleTime := by
  constructor
  · unfold freqFutureTime
    rw [h.domain hid]
    exact if_pos hle
  · rw [← Nat.add_mul, Nat.sub_add_cancel hle]

/-- `freq_future_time` is the time at which the counter reaches the count exactly if the domain is
ready now or the count is the current one. -/
theorem freqFutureTime_reaches_iff {p : Params} {s : State} (hinit : freqInit p = .ok s) (calls : List Call) :
    ∃ c, (Clock.start s).run calls = .ok c ∧
      ∀ id < p.cycleTimes.length, ∀ cycles, (∃ now, freqCycleCount c.state id = .ok now ∧ now ≤ cycles) →
        ((∃ time, freqFutureTime c.state id cycles = .ok time ∧ c.FirstReaches id cycles time) ↔
          freqIsReady c.state id = .ok true ∨ freqCycleCount c.state id = .ok cycles) := by
  obtain ⟨hstart, hpos⟩ := Clock.Sound.init hinit
  obtain ⟨c, hrun, hsound⟩ := hstart.run p.cycleTimes_ne_nil hpos calls
  refine ⟨c, hrun, ?_⟩
  rintro id hid cycles ⟨now, hnow, hle⟩
  have hcycle := List.getElem?_eq_getElem hid
  generalize p.cycleTimes[id] = cycleTime at hcycle
  have hcyclePos := hpos cycleTime (List.mem_of_getElem? hcycle)
  obtain rfl : c.time / cycleTime = now := Except.ok.inj ((hsound.cycleCount hcycle).symm.trans hnow)
  obtain ⟨hfuture, hsum⟩ := hsound.freqFutureTime_eq hcycle hle
  have hreaches := hsound.firstReaches hpos hcycle hle
  have hready : freqIsReady c.state id = .ok true ↔ c.time / cycleTime * cycleTime = c.time := by
    unfold freqIsReady
    rw [hsound.domain hcycle, ← DomainInfo.at_ready_iff c.time hcyclePos]
    simp
  have hcount : freqCycleCount c.state id = .ok cycles ↔ c.time / cycleTime = cycles := by
    rw [hsound.cycleCount hcycle]
    exact ⟨Except.ok.inj, congrArg Except.ok⟩
  have hcur := hsound.curTime
  have hmul := Nat.div_mul_le_self c.time cycleTime
  rw [hready, hcount]
  unfold Clock.startTime at hreaches
  constructor
  · rintro ⟨time, htime, hfirst⟩
    have heq := hfirst.unique hreaches
    obtain rfl := Except.ok.inj (hfuture.symm.trans htime)
    by_contra hneither
    rw [not_or] at hneither
    have hsome : cycleTime ≤ (cycles - c.time / cycleTime) * cycleTime := Nat.le_mul_of_pos_left _ (by omega)
    omega
  · intro heither
    refine ⟨_, hfuture, ?_⟩
    have heq : c.state.curTime + (cycles - c.time / cycleTime) * cycleTime =
        max c.state.curTime (c.origin + cycles * cycleTime) := by
      cases heither with
      | inl hnow => omega
      | inr hsame =>
          rw [hsame] at hmul ⊢
          rw [Nat.sub_self, Nat.zero_mul]
          omega
    rw [heq]
    exact hreaches

/-- At the time 6 the core of a cycle time of 2 is ready, and it reaches its cycle 5 at the time 10. -/
theorem freqFutureTime_reaches_iff_ready :
    ∃ s c time, freqInit ⟨1, fun _ => 2, 3, 5, 0⟩ = .ok s ∧
      (Clock.start s).run (List.replicate 5 .advanceTime) = .ok c ∧
      freqFutureTime c.state 0 5 = .ok time ∧ c.FirstReaches 0 5 time := by
  have hinit : freqInit ⟨1, fun _ => 2, 3, 5, 0⟩ = .ok ⟨0, [⟨0, 2, 0⟩, ⟨0, 3, 0⟩, ⟨0, 5, 0⟩]⟩ := rfl
  obtain ⟨c, hrun, hall⟩ := freqFutureTime_reaches_iff hinit (List.replicate 5 .advanceTime)
  have hcore : (fun c : Clock => (freqCycleCount c.state 0, freqIsReady c.state 0)) <$>
      (Clock.start ⟨0, [⟨0, 2, 0⟩, ⟨0, 3, 0⟩, ⟨0, 5, 0⟩]⟩).run (List.replicate 5 .advanceTime) =
        .ok (.ok 3, .ok true) := by
    decide
  rw [hrun] at hcore
  obtain ⟨hcount, hready⟩ := Prod.mk.inj (Except.ok.inj hcore)
  obtain ⟨time, hfuture, hreaches⟩ := (hall 0 (by decide) 5 ⟨3, hcount, by decide⟩).mpr (.inl hready)
  exact ⟨_, c, time, hinit, hrun, hfuture, hreaches⟩

/-- At the time 3 a core of a cycle time of 2 is in its cycle 1. It reaches its cycle 2 at the time 4
and not at the time 5. -/
theorem freqFutureTime_between_cycles :
    ∃ s c, freqInit ⟨1, fun _ => 2, 3, 5, 0⟩ = .ok s ∧
      (Clock.start s).run [.advanceTime, .advanceTime] = .ok c ∧
      freqFutureTime c.state 0 2 = .ok 5 ∧ c.FirstReaches 0 2 4 ∧ ¬ c.FirstReaches 0 2 5 := by
  have hinit : freqInit ⟨1, fun _ => 2, 3, 5, 0⟩ = .ok ⟨0, [⟨0, 2, 0⟩, ⟨0, 3, 0⟩, ⟨0, 5, 0⟩]⟩ := rfl
  obtain ⟨hstart, hpos⟩ := Clock.Sound.init hinit
  obtain ⟨c, hrun, hsound⟩ := hstart.run (by decide) hpos [.advanceTime, .advanceTime]
  have hreaches : c.time / 2 ≤ 2 → c.FirstReaches 0 2 (max c.state.curTime (c.startTime 2 2)) :=
    hsound.firstReaches hpos rfl
  have hobs : (fun c : Clock => (c.time, c.state.curTime, c.origin, freqFutureTime c.state 0 2)) <$>
      (Clock.start ⟨0, [⟨0, 2, 0⟩, ⟨0, 3, 0⟩, ⟨0, 5, 0⟩]⟩).run [.advanceTime, .advanceTime] =
        .ok (3, 3, 0, .ok 5) := by
    decide
  rw [hrun] at hobs
  obtain ⟨htime, hrest⟩ := Prod.mk.inj (Except.ok.inj hobs)
  obtain ⟨hcur, horigin, hfuture⟩ : c.state.curTime = 3 ∧ c.origin = 0 ∧ freqFutureTime c.state 0 2 = .ok 5 := by
    simpa using hrest
  unfold Clock.startTime at hreaches
  rw [htime, hcur, horigin] at hreaches
  have hfour := hreaches (by decide)
  refine ⟨_, c, hinit, hrun, hfuture, hfour, fun hfive => ?_⟩
  have heq := hfive.unique hfour
  exact absurd heq (by decide)

end Scarab.Freq
