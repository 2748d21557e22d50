import Mathlib.Algebra.Order.Group.Nat
import Mathlib.Order.Bounds.Defs
import Scarab.Lib.Execution

/-! # Frequency domains

`freq.c`. Time is kept as what is left of the current cycle of each domain. The cycle times are
constant here: `freq_set_cycle_time` is not among the calls. -/

namespace Scarab.Freq

/-! ## The code -/

/-- The cycle times of the parameters. -/
structure Params where
  numCores : ℕ
  coreCycleTime : ℕ → ℕ
  l1CycleTime : ℕ
  ramulatorTck : ℕ
  /-- If it is set, it overrides the cycle times of the cores and the L1. -/
  chipCycleTime : ℕ

/-- `Domain_Info`. -/
structure DomainInfo where
  cycles : ℕ
  cycleTime : ℕ
  timeUntilNextCycle : ℕ
  deriving DecidableEq, Repr

structure State where
  curTime : ℕ
  domains : List DomainInfo
  deriving DecidableEq, Repr

def maxFreqDomains : ℕ := 100

/-- `freq_domain_create`. -/
def freqDomainCreate (s : State) (cycleTime : ℕ) : Except String State :=
  if maxFreqDomains ≤ s.domains.length then .error "num_domains < MAX_FREQ_DOMAINS"
  else if cycleTime = 0 then .error "cycle_time > 0"
  else .ok { s with domains := s.domains ++ [⟨0, cycleTime, 0⟩] }

/-- The cycle times of the domains that `freq_init` creates. -/
def Params.cycleTimes (p : Params) : List ℕ :=
  (List.range p.numCores).map (fun procId => if p.chipCycleTime ≠ 0 then p.chipCycleTime else p.coreCycleTime procId) ++
    [if p.chipCycleTime ≠ 0 then p.chipCycleTime else p.l1CycleTime, p.ramulatorTck]

/-- `freq_init`. -/
def freqInit (p : Params) : Except String State := p.cycleTimes.foldlM freqDomainCreate ⟨0, []⟩

/-- `freq_is_ready`. -/
def freqIsReady (s : State) (id : ℕ) : Except String Bool :=
  match s.domains[id]? with
  | none => .error "id < num_domains"
  | some domain => .ok (domain.timeUntilNextCycle = 0)

/-- `freq_cycle_count`. -/
def freqCycleCount (s : State) (id : ℕ) : Except String ℕ :=
  match s.domains[id]? with
  | none => .error "id < num_domains"
  | some domain => .ok domain.cycles

/-- A domain that is ready waits for its next cycle. -/
def DomainInfo.wait (domain : DomainInfo) : DomainInfo :=
  if domain.timeUntilNextCycle = 0 then { domain with timeUntilNextCycle := domain.cycleTime } else domain

/-- The time until the next cycle of any domain. -/
def minTimeUntilNextCycle : List DomainInfo → ℕ
  | [] => 0
  | first :: domains =>
      domains.foldl (fun min domain => if domain.timeUntilNextCycle < min then domain.timeUntilNextCycle else min)
        first.timeUntilNextCycle

/-- Time passes for a domain, and its next cycle may begin. -/
def DomainInfo.elapse (timeDelta : ℕ) (domain : DomainInfo) : DomainInfo :=
  { domain with
    timeUntilNextCycle := domain.timeUntilNextCycle - timeDelta
    cycles := if domain.timeUntilNextCycle - timeDelta = 0 then domain.cycles + 1 else domain.cycles }

/-- `freq_advance_time`. -/
def freqAdvanceTime (s : State) : Except String State :=
  let domains := s.domains.map DomainInfo.wait
  let timeDelta := minTimeUntilNextCycle domains
  if timeDelta = 0 then .error "time_delta > 0"
  else .ok ⟨s.curTime + timeDelta, domains.map (DomainInfo.elapse timeDelta)⟩

/-- `freq_reset_cycle_counts`. -/
def freqResetCycleCounts (s : State) : State :=
  { s with domains := s.domains.map fun domain => { domain with cycles := 0, timeUntilNextCycle := 0 } }

/-! ## Runs -/

inductive Call where
  | advanceTime
  | resetCycleCounts
  deriving DecidableEq, Repr

/-- The domains, the time of the last reset, and the times since then at which a cycle began. -/
structure Clock where
  state : State
  origin : ℕ
  visited : List ℕ
  deriving DecidableEq, Repr

namespace Clock

def start (s : State) : Clock := ⟨s, s.curTime, []⟩

/-- The time since the last reset. -/
def time (c : Clock) : ℕ := c.state.curTime - c.origin

def step (c : Clock) : Call → Except String Clock
  | .advanceTime => do
      let s ← freqAdvanceTime c.state
      return ⟨s, c.origin, c.visited ++ [s.curTime - c.origin]⟩
  | .resetCycleCounts => .ok ⟨freqResetCycleCounts c.state, c.state.curTime, []⟩

abbrev run : Clock → List Call → Except String Clock := Execution.run step

end Clock

/-- A cycle of some domain begins. -/
def Boundary (cycleTimes : List ℕ) (time : ℕ) : Prop := ∃ cycleTime ∈ cycleTimes, cycleTime ∣ time

instance (cycleTimes : List ℕ) (time : ℕ) : Decidable (Boundary cycleTimes time) :=
  inferInstanceAs (Decidable (∃ cycleTime ∈ cycleTimes, cycleTime ∣ time))

/-- What the domains say of the time, in terms of divisibility. -/
structure Clock.KeepsTime (c : Clock) (cycleTimes : List ℕ) : Prop where
  /-- No boundary is skipped, and none comes twice. -/
  visited : c.visited = (List.range' 1 c.time).filter fun time => Boundary cycleTimes time
  ready : ∀ id cycleTime, cycleTimes[id]? = some cycleTime →
    freqIsReady c.state id = .ok (decide (cycleTime ∣ c.time))
  counts : ∀ id cycleTime, cycleTimes[id]? = some cycleTime → freqCycleCount c.state id = .ok (c.time / cycleTime)
  /-- A domain is ready at each multiple of its cycle time once. -/
  delivered : ∀ cycleTime ∈ cycleTimes, (c.visited.filter fun time => cycleTime ∣ time) =
    (List.range (c.time / cycleTime)).map fun n => (n + 1) * cycleTime

/-! ## One domain -/

/-- A domain at a time. -/
def DomainInfo.at (time cycleTime : ℕ) : DomainInfo := ⟨time / cycleTime, cycleTime, (cycleTime - time % cycleTime) % cycleTime⟩

theorem DomainInfo.at_wait {cycleTime : ℕ} (time : ℕ) (hpos : 0 < cycleTime) :
    (DomainInfo.at time cycleTime).wait = ⟨time / cycleTime, cycleTime, cycleTime - time % cycleTime⟩ := by
  have hlt := Nat.mod_lt time hpos
  unfold DomainInfo.wait DomainInfo.at
  by_cases hzero : time % cycleTime = 0
  · simp [hzero]
  · rw [if_neg]
    · rw [Nat.mod_eq_of_lt (by omega)]
    · simp only
      rw [Nat.mod_eq_of_lt (by omega)]
      omega

/-- Time does not pass the next cycle of a domain. -/
theorem DomainInfo.at_elapse {cycleTime timeDelta : ℕ} (time : ℕ) (hpos : 0 < cycleTime) (hdelta : 0 < timeDelta)
    (hle : timeDelta ≤ cycleTime - time % cycleTime) :
    DomainInfo.elapse timeDelta ⟨time / cycleTime, cycleTime, cycleTime - time % cycleTime⟩ =
      DomainInfo.at (time + timeDelta) cycleTime := by
  have hlt := Nat.mod_lt time hpos
  have htime := Nat.div_add_mod time cycleTime
  unfold DomainInfo.elapse DomainInfo.at
  by_cases hend : timeDelta = cycleTime - time % cycleTime
  · have hnext : time + timeDelta = cycleTime * (time / cycleTime + 1) := by
      rw [Nat.mul_succ]
      omega
    rw [hnext, Nat.mul_mod_right, Nat.mul_div_cancel_left _ hpos]
    simp [hend]
  · have hnext : time + timeDelta = time % cycleTime + timeDelta + cycleTime * (time / cycleTime) := by omega
    have hsmall : time % cycleTime + timeDelta < cycleTime := by omega
    rw [hnext, Nat.add_mul_mod_self_left, Nat.add_mul_div_left _ _ hpos, Nat.mod_eq_of_lt hsmall,
      Nat.div_eq_of_lt hsmall, Nat.zero_add]
    have hleft : cycleTime - time % cycleTime - timeDelta ≠ 0 := by omega
    have hwaits : (cycleTime - (time % cycleTime + timeDelta)) % cycleTime = cycleTime - time % cycleTime - timeDelta := by
      rw [← Nat.sub_sub]
      exact Nat.mod_eq_of_lt (by omega)
    rw [if_neg hleft, hwaits]

/-! ## The time until the next cycle -/

theorem foldl_min_spec (domains : List DomainInfo) (least : ℕ) :
    let min := domains.foldl
      (fun min domain => if domain.timeUntilNextCycle < min then domain.timeUntilNextCycle else min) least
    (min = least ∨ ∃ domain ∈ domains, min = domain.timeUntilNextCycle) ∧ min ≤ least ∧
      ∀ domain ∈ domains, min ≤ domain.timeUntilNextCycle := by
  induction domains generalizing least with
  | nil => simp
  | cons first domains ih =>
      dsimp only
      rw [List.foldl_cons]
      obtain ⟨hfrom, hle, hall⟩ := ih (if first.timeUntilNextCycle < least then first.timeUntilNextCycle else least)
      by_cases hlt : first.timeUntilNextCycle < least
      · rw [if_pos hlt] at hfrom hle hall ⊢
        refine ⟨.inr ?_, by omega, ?_⟩
        · cases hfrom with
          | inl hfirst => exact ⟨first, List.mem_cons_self, hfirst⟩
          | inr hrest =>
              obtain ⟨domain, hmem, heq⟩ := hrest
              exact ⟨domain, List.mem_cons_of_mem _ hmem, heq⟩
        · exact List.forall_mem_cons.mpr ⟨hle, hall⟩
      · rw [if_neg hlt] at hfrom hle hall ⊢
        refine ⟨?_, hle, List.forall_mem_cons.mpr ⟨by omega, hall⟩⟩
        cases hfrom with
        | inl hleast => exact .inl hleast
        | inr hrest =>
            obtain ⟨domain, hmem, heq⟩ := hrest
            exact .inr ⟨domain, List.mem_cons_of_mem _ hmem, heq⟩

theorem minTimeUntilNextCycle_spec {domains : List DomainInfo} (hne : domains ≠ []) :
    (∃ domain ∈ domains, minTimeUntilNextCycle domains = domain.timeUntilNextCycle) ∧
      ∀ domain ∈ domains, minTimeUntilNextCycle domains ≤ domain.timeUntilNextCycle := by
  cases domains with
  | nil => exact (hne rfl).elim
  | cons first domains =>
      obtain ⟨hfrom, hle, hall⟩ := foldl_min_spec domains first.timeUntilNextCycle
      refine ⟨?_, List.forall_mem_cons.mpr ⟨hle, hall⟩⟩
      cases hfrom with
      | inl hfirst => exact ⟨first, List.mem_cons_self, hfirst⟩
      | inr hrest =>
          obtain ⟨domain, hmem, heq⟩ := hrest
          exact ⟨domain, List.mem_cons_of_mem _ hmem, heq⟩

/-! ## All domains -/

/-- The domains are at the time since the last reset. -/
structure Clock.Sound (c : Clock) (cycleTimes : List ℕ) : Prop where
  origin : c.origin ≤ c.state.curTime
  domains : c.state.domains = cycleTimes.map (DomainInfo.at c.time)
  visited : c.visited = (List.range' 1 c.time).filter fun time => Boundary cycleTimes time

variable {c c' : Clock} {cycleTimes : List ℕ}

/-- The time until the next boundary. -/
def timeDelta (cycleTimes : List ℕ) (time : ℕ) : ℕ :=
  minTimeUntilNextCycle (cycleTimes.map fun cycleTime => ⟨time / cycleTime, cycleTime, cycleTime - time % cycleTime⟩)

theorem timeDelta_spec (hne : cycleTimes ≠ []) (time : ℕ) :
    (∃ cycleTime ∈ cycleTimes, timeDelta cycleTimes time = cycleTime - time % cycleTime) ∧
      ∀ cycleTime ∈ cycleTimes, timeDelta cycleTimes time ≤ cycleTime - time % cycleTime := by
  have hmap : (cycleTimes.map fun cycleTime =>
      (⟨time / cycleTime, cycleTime, cycleTime - time % cycleTime⟩ : DomainInfo)) ≠ [] := by simpa using hne
  obtain ⟨⟨domain, hmem, heq⟩, hall⟩ := minTimeUntilNextCycle_spec hmap
  obtain ⟨cycleTime, hcycle, rfl⟩ := List.mem_map.mp hmem
  exact ⟨⟨cycleTime, hcycle, heq⟩, fun other hother => hall _ (List.mem_map_of_mem hother)⟩

/-- The next boundary is at the end of the time delta. -/
theorem timeDelta_isLeast (hne : cycleTimes ≠ []) (hpos : ∀ cycleTime ∈ cycleTimes, 0 < cycleTime) (time : ℕ) :
    IsLeast {next | time < next ∧ Boundary cycleTimes next} (time + timeDelta cycleTimes time) := by
  obtain ⟨⟨cycleTime, hmem, heq⟩, hall⟩ := timeDelta_spec hne time
  refine ⟨⟨?_, cycleTime, hmem, ?_⟩, ?_⟩
  · have hlt := Nat.mod_lt time (hpos cycleTime hmem)
    omega
  · have hlt := Nat.mod_lt time (hpos cycleTime hmem)
    have htime := Nat.div_add_mod time cycleTime
    refine ⟨time / cycleTime + 1, ?_⟩
    rw [Nat.mul_succ]
    omega
  · rintro next ⟨hafter, other, hother, n, rfl⟩
    have hle := hall other hother
    have hlt := Nat.mod_lt time (hpos other hother)
    have htime := Nat.div_add_mod time other
    -- a multiple beyond the time is at least the next one
    have hn : time / other + 1 ≤ n := by
      by_contra hless
      have hmul : other * n ≤ other * (time / other) := Nat.mul_le_mul_left other (by omega)
      omega
    have hmul : other * (time / other + 1) ≤ other * n := Nat.mul_le_mul_left other hn
    rw [Nat.mul_succ] at hmul
    omega

theorem Clock.Sound.advance_eq (h : c.Sound cycleTimes) (hne : cycleTimes ≠ [])
    (hpos : ∀ cycleTime ∈ cycleTimes, 0 < cycleTime) :
    freqAdvanceTime c.state = .ok ⟨c.state.curTime + timeDelta cycleTimes c.time,
      cycleTimes.map (DomainInfo.at (c.time + timeDelta cycleTimes c.time))⟩ := by
  have hwait : c.state.domains.map DomainInfo.wait = cycleTimes.map fun cycleTime =>
      ⟨c.time / cycleTime, cycleTime, cycleTime - c.time % cycleTime⟩ := by
    rw [h.domains, List.map_map]
    exact List.map_congr_left fun cycleTime hmem => DomainInfo.at_wait c.time (hpos cycleTime hmem)
  have hdelta : 0 < timeDelta cycleTimes c.time := by
    have hafter := (timeDelta_isLeast hne hpos c.time).1.1
    omega
  unfold freqAdvanceTime
  rw [hwait]
  change (if timeDelta cycleTimes c.time = 0 then _ else _) = _
  rw [if_neg (by omega)]
  change Except.ok (State.mk _ (List.map (DomainInfo.elapse (timeDelta cycleTimes c.time)) _)) = _
  rw [List.map_map]
  refine congrArg (fun domains => Except.ok (State.mk _ domains)) (List.map_congr_left fun cycleTime hmem => ?_)
  exact DomainInfo.at_elapse c.time (hpos cycleTime hmem) hdelta ((timeDelta_spec hne c.time).2 cycleTime hmem)

/-- One call of `freq_advance_time`. -/
theorem Clock.Sound.advance (h : c.Sound cycleTimes) (hne : cycleTimes ≠ [])
    (hpos : ∀ cycleTime ∈ cycleTimes, 0 < cycleTime) :
    ∃ c', c.step .advanceTime = .ok c' ∧ c'.Sound cycleTimes ∧ c'.time = c.time + timeDelta cycleTimes c.time := by
  have horigin := h.origin
  obtain ⟨⟨hafter, hbound⟩, hleast⟩ := timeDelta_isLeast hne hpos c.time
  have htime : c.state.curTime + timeDelta cycleTimes c.time - c.origin = c.time + timeDelta cycleTimes c.time := by
    unfold Clock.time
    omega
  refine ⟨⟨⟨_, cycleTimes.map (DomainInfo.at (c.time + timeDelta cycleTimes c.time))⟩, c.origin, c.visited ++ [c.state.curTime + timeDelta cycleTimes c.time - c.origin]⟩, ?_,
    ⟨horigin.trans (Nat.le_add_right _ _), ?_, ?_⟩, htime⟩
  · unfold Clock.step
    rw [h.advance_eq hne hpos]
    rfl
  · change _ = cycleTimes.map (DomainInfo.at (c.state.curTime + timeDelta cycleTimes c.time - c.origin))
    rw [htime]
  · -- between the two times there is no boundary
    obtain ⟨n, hn⟩ := Nat.exists_eq_add_of_le' (show 1 ≤ timeDelta cycleTimes c.time by omega)
    have hnone : ((List.range' (1 + c.time) n).filter fun time => Boundary cycleTimes time) = [] := by
      rw [List.filter_eq_nil_iff]
      intro time hmem hyes
      rw [List.mem_range'_1] at hmem
      have hge := hleast (show time ∈ _ from ⟨by omega, by simpa using hyes⟩)
      omega
    have hlast : c.time + (n + 1) = 1 + (c.time + n) := by omega
    change c.visited ++ [_] = (List.range' 1 (c.state.curTime + timeDelta cycleTimes c.time - c.origin)).filter _
    have hyes : decide (Boundary cycleTimes (1 + (c.time + n))) = true := by
      rw [decide_eq_true_eq, ← hlast, ← hn]
      exact hbound
    rw [htime, hn, ← Nat.add_assoc, List.range'_concat, Nat.one_mul, ← List.range'_append_1,
      List.filter_append, List.filter_append, hnone, List.append_nil, ← h.visited,
      show List.filter (fun time => decide (Boundary cycleTimes time)) [1 + (c.time + n)] = [1 + (c.time + n)] from
        List.filter_cons_of_pos hyes, Nat.add_assoc, hlast]

theorem Clock.Sound.reset (h : c.Sound cycleTimes) :
    ∃ c', c.step .resetCycleCounts = .ok c' ∧ c'.Sound cycleTimes := by
  refine ⟨_, rfl, ⟨Nat.le_refl _, ?_, ?_⟩⟩
  · unfold Clock.time freqResetCycleCounts
    rw [h.domains, List.map_map, Nat.sub_self]
    refine List.map_congr_left fun cycleTime _ => ?_
    simp [DomainInfo.at]
  · unfold Clock.time freqResetCycleCounts
    rw [Nat.sub_self]
    rfl

/-! ## Every run -/

/-- The domains created so far. -/
theorem freqDomainCreate_foldlM {s s' : State} (h : cycleTimes.foldlM freqDomainCreate s = .ok s') :
    s' = { s with domains := s.domains ++ cycleTimes.map fun cycleTime => ⟨0, cycleTime, 0⟩ } ∧
      ∀ cycleTime ∈ cycleTimes, 0 < cycleTime := by
  induction cycleTimes generalizing s with
  | nil =>
      cases h
      simp
  | cons cycleTime cycleTimes ih =>
      rw [List.foldlM_cons] at h
      obtain ⟨mid, hfirst, hrest⟩ := Execution.bind_eq_ok.mp h
      unfold freqDomainCreate at hfirst
      split at hfirst
      · cases hfirst
      · split at hfirst
        · cases hfirst
        · cases hfirst
          obtain ⟨rfl, hpos⟩ := ih hrest
          refine ⟨?_, List.forall_mem_cons.mpr ⟨by omega, hpos⟩⟩
          rw [List.map_cons, List.append_assoc, List.singleton_append]

theorem Params.cycleTimes_ne_nil (p : Params) : p.cycleTimes ≠ [] := by
  unfold Params.cycleTimes
  simp

theorem Clock.Sound.init {p : Params} {s : State} (h : freqInit p = .ok s) :
    (Clock.start s).Sound p.cycleTimes ∧ ∀ cycleTime ∈ p.cycleTimes, 0 < cycleTime := by
  obtain ⟨rfl, hpos⟩ := freqDomainCreate_foldlM h
  refine ⟨⟨Nat.le_refl _, ?_, ?_⟩, hpos⟩
  · rw [List.nil_append]
    refine List.map_congr_left fun cycleTime _ => ?_
    simp [DomainInfo.at, Clock.time, Clock.start]
  · unfold Clock.time Clock.start
    rw [Nat.sub_self]
    rfl

theorem Clock.Sound.step (h : c.Sound cycleTimes) (hne : cycleTimes ≠ [])
    (hpos : ∀ cycleTime ∈ cycleTimes, 0 < cycleTime) (call : Call) :
    ∃ c', c.step call = .ok c' ∧ c'.Sound cycleTimes := by
  cases call with
  | advanceTime =>
      obtain ⟨c', hstep, hsound, _⟩ := h.advance hne hpos
      exact ⟨c', hstep, hsound⟩
  | resetCycleCounts => exact h.reset

theorem Clock.Sound.run (h : c.Sound cycleTimes) (hne : cycleTimes ≠ [])
    (hpos : ∀ cycleTime ∈ cycleTimes, 0 < cycleTime) (calls : List Call) :
    ∃ c', c.run calls = .ok c' ∧ c'.Sound cycleTimes := by
  induction calls generalizing c with
  | nil => exact ⟨c, rfl, h⟩
  | cons call calls ih =>
      obtain ⟨mid, hmid, hsound⟩ := h.step hne hpos call
      obtain ⟨c', hrun, hend⟩ := ih hsound
      exact ⟨c', Execution.run_cons_eq_ok.mpr ⟨mid, hmid, hrun⟩, hend⟩

/-- The multiples of a number, in order. -/
theorem filter_dvd_range' (cycleTime time : ℕ) :
    ((List.range' 1 time).filter fun t => cycleTime ∣ t) =
      (List.range (time / cycleTime)).map fun n => (n + 1) * cycleTime := by
  induction time with
  | zero => simp
  | succ time ih =>
      rw [List.range'_concat, List.filter_append, ih, Nat.succ_div, Nat.one_mul, Nat.add_comm 1 time]
      by_cases hdvd : cycleTime ∣ time + 1
      · have hdiv := Nat.succ_div_of_dvd hdvd
        have hlast : (time / cycleTime + 1) * cycleTime = time + 1 := by
          rw [← hdiv]
          exact Nat.div_mul_cancel hdvd
        simp [hdvd, List.range_succ, hlast]
      · simp [hdvd]

theorem Clock.Sound.keepsTime (h : c.Sound cycleTimes) (hpos : ∀ cycleTime ∈ cycleTimes, 0 < cycleTime) :
    c.KeepsTime cycleTimes where
  visited := h.visited
  ready := by
    intro id cycleTime hid
    have hcycle := hpos cycleTime (List.mem_of_getElem? hid)
    have hlt := Nat.mod_lt c.time hcycle
    unfold freqIsReady
    rw [h.domains, List.getElem?_map, hid]
    refine congrArg Except.ok (decide_eq_decide.mpr ?_)
    rw [Nat.dvd_iff_mod_eq_zero]
    unfold DomainInfo.at
    constructor
    · intro hnone
      by_contra hsome
      change (cycleTime - c.time % cycleTime) % cycleTime = 0 at hnone
      rw [Nat.mod_eq_of_lt (show cycleTime - c.time % cycleTime < cycleTime by omega)] at hnone
      omega
    · intro hnone
      rw [hnone, Nat.sub_zero, Nat.mod_self]
  counts := by
    intro id cycleTime hid
    unfold freqCycleCount
    rw [h.domains, List.getElem?_map, hid]
    rfl
  delivered := by
    intro cycleTime hmem
    rw [h.visited, List.filter_filter, ← filter_dvd_range' cycleTime]
    refine List.filter_congr fun time _ => ?_
    by_cases hdvd : cycleTime ∣ time
    · simp [hdvd, show Boundary cycleTimes time from ⟨cycleTime, hmem, hdvd⟩]
    · simp [hdvd]

/-- No call fails, and the time goes from each boundary to the next. -/
theorem Clock.run_keeps_time {p : Params} {s : State} (hinit : freqInit p = .ok s) (calls : List Call) :
    ∃ c, (Clock.start s).run calls = .ok c ∧ c.KeepsTime p.cycleTimes ∧
      ∃ c', c.step .advanceTime = .ok c' ∧
        IsLeast {time | c.time < time ∧ Boundary p.cycleTimes time} c'.time := by
  obtain ⟨hstart, hpos⟩ := Clock.Sound.init hinit
  have hne := p.cycleTimes_ne_nil
  obtain ⟨c, hrun, hsound⟩ := hstart.run hne hpos calls
  obtain ⟨c', hstep, _, htime⟩ := hsound.advance hne hpos
  refine ⟨c, hrun, hsound.keepsTime hpos, c', hstep, ?_⟩
  rw [htime]
  exact timeDelta_isLeast hne hpos c.time

/-- Two cores, one of them slower, and the L1. -/
theorem Clock.run_keeps_time_two_cores :
    ∃ s c, freqInit ⟨2, fun procId => procId + 2, 3, 5, 0⟩ = .ok s ∧
      (Clock.start s).run [.advanceTime, .advanceTime, .resetCycleCounts, .advanceTime] = .ok c ∧
      c.KeepsTime [2, 3, 3, 5] :=
  have ⟨c, hrun, hkeeps, _⟩ := Clock.run_keeps_time
    (show freqInit ⟨2, fun procId => procId + 2, 3, 5, 0⟩ = .ok ⟨0, [⟨0, 2, 0⟩, ⟨0, 3, 0⟩, ⟨0, 3, 0⟩, ⟨0, 5, 0⟩]⟩ by rfl)
    [.advanceTime, .advanceTime, .resetCycleCounts, .advanceTime]
  ⟨_, c, rfl, hrun, hkeeps⟩

end Scarab.Freq
