import Mathlib.Logic.Function.Basic
import Scarab.Lib.Execution
import Scarab.Lib.History
import Scarab.Prefetcher.Types

/-! # Feedback counts

Each prefetcher counts, core by core, the requests that it has sent and what became of them. The
counts are added to by `pref_ul1sent` and by hits, started anew by the DHAL throttle and at the end
of an interval, and `pref_req_drop_process` takes a dropped request out again. -/

namespace Scarab.Feedback

/-- The arrays of `HWP_Info`, by core. -/
structure HwpInfo where
  usefulCore : ℕ → Uns64
  sentCore : ℕ → Uns64
  lateCore : ℕ → Uns64
  currUsefulCore : ℕ → Uns64
  currSentCore : ℕ → Uns64
  currLateCore : ℕ → Uns64
  dynDegreeCore : ℕ → Uns

/-- The knobs. -/
structure Params where
  prefFrameworkOn : Bool
  prefUpdateInterval : Uns64
  prefDhal : Bool
  prefDhalSentthresh : Uns
  prefDhalUsethreshMax : Uns
  prefDhalUsethreshMin2 : Uns
  prefDhalUsethreshMin1 : Uns
  prefDhalMaxdeg : Uns
  numCores : ℕ
  /-- `(0.5 * old) + (0.5 * curr)`, computed in floating point. -/
  average : Uns64 → Uns64 → Uns64

inductive Kind where
  | increment
  | decrement
  | reset
  deriving DecidableEq, Repr

/-- An assignment to an element of `curr_sent_core`. -/
structure Write where
  prefetcherId : Uns8
  procId : ℕ
  kind : Kind
  old : Uns64
  new : Uns64
  deriving DecidableEq, Repr

structure State where
  hwpInfo : Uns8 → HwpInfo
  numUl1Evicted : Uns64
  prevNumUl1Evicted : Uns64
  /-- What has been assigned to the elements of `curr_sent_core`, oldest first. -/
  log : List Write

/-- An element of `curr_sent_core`. -/
def State.sent (s : State) (prefetcherId : Uns8) (procId : ℕ) : Uns64 := (s.hwpInfo prefetcherId).currSentCore procId

def State.modify (s : State) (prefetcherId : Uns8) (f : HwpInfo → HwpInfo) : State :=
  { s with hwpInfo := Function.update s.hwpInfo prefetcherId (f (s.hwpInfo prefetcherId)) }

def State.writeSent (s : State) (prefetcherId : Uns8) (procId : ℕ) (kind : Kind) (value : Uns64) : State :=
  { s.modify prefetcherId (fun info => { info with currSentCore := Function.update info.currSentCore procId value }) with
    log := s.log ++ [⟨prefetcherId, procId, kind, s.sent prefetcherId procId, value⟩] }

/-! ## The functions -/

/-- How `pref_ul1sent` throttles. -/
def HwpInfo.throttle (p : Params) (info : HwpInfo) (procId : ℕ) : HwpInfo :=
  let useful := info.currUsefulCore procId
  let degree := info.dynDegreeCore procId
  let degree :=
    if p.prefDhalUsethreshMax.setWidth 64 < useful then
      if degree < p.prefDhalMaxdeg then degree + 1 else degree
    else if useful < p.prefDhalUsethreshMin2.setWidth 64 then
      if useful < p.prefDhalUsethreshMin1.setWidth 64 then
        if 8 < degree then degree / 2 else 4
      else if 4 < degree then degree - 1 else degree
    else degree
  { info with dynDegreeCore := Function.update info.dynDegreeCore procId degree }

def HwpInfo.clearUseful (info : HwpInfo) (procId : ℕ) : HwpInfo :=
  { info with currUsefulCore := Function.update info.currUsefulCore procId 0 }

/-- `pref_ul1sent`. -/
def prefUl1sent (p : Params) (s : State) (procId : ℕ) (prefetcherId : Uns8) : State :=
  if p.prefFrameworkOn = false then s
  else if prefetcherId = 0 then s
  else
    let s := s.writeSent prefetcherId procId .increment (s.sent prefetcherId procId + 1)
    if s.sent prefetcherId procId = p.prefDhalSentthresh.setWidth 64 ∧ p.prefDhal = true then
      let s := s.modify prefetcherId fun info => info.throttle p procId
      let s := s.writeSent prefetcherId procId .reset 0
      s.modify prefetcherId fun info => info.clearUseful procId
    else s

/-- `pref_ul1_pref_hit` and `pref_umlc_pref_hit`. -/
def prefHit (p : Params) (s : State) (procId : ℕ) (prefetcherId : Uns8) : State :=
  if prefetcherId = 0 then s
  else if p.prefFrameworkOn = false then s
  else
    s.modify prefetcherId fun info =>
      { info with currUsefulCore := Function.update info.currUsefulCore procId (info.currUsefulCore procId + 1) }

/-- `pref_ul1_pref_hit_late` and `pref_umlc_pref_hit_late`. -/
def prefHitLate (p : Params) (s : State) (procId : ℕ) (prefetcherId : Uns8) : State :=
  if p.prefFrameworkOn = false then s
  else if prefetcherId = 0 then s
  else
    let s := s.modify prefetcherId fun info =>
      { info with currLateCore := Function.update info.currLateCore procId (info.currLateCore procId + 1) }
    prefHit p s procId prefetcherId

/-- `pref_ul1evict`. -/
def prefUl1evict (p : Params) (s : State) : State :=
  if p.prefFrameworkOn = false then s else { s with numUl1Evicted := s.numUl1Evicted + 1 }

/-- The turn of the loop of `pref_feed_back_info_update` for one core. -/
def updateCore (p : Params) (prefetcherId : Uns8) (s : State) (procId : ℕ) : State :=
  if s.sent prefetcherId procId ≠ 0 then
    let s := s.modify prefetcherId fun info =>
      { info.clearUseful procId with
        usefulCore := Function.update info.usefulCore procId
          (p.average (info.usefulCore procId) (info.currUsefulCore procId))
        sentCore := Function.update info.sentCore procId
          (p.average (info.sentCore procId) (info.currSentCore procId)) }
    let s := s.writeSent prefetcherId procId .reset 0
    s.modify prefetcherId fun info =>
      { info with
        lateCore := Function.update info.lateCore procId (p.average (info.lateCore procId) (info.currLateCore procId))
        currLateCore := Function.update info.currLateCore procId 0 }
  else s

/-- `pref_feed_back_info_update`. -/
def prefFeedBackInfoUpdate (p : Params) (s : State) (prefetcherId : Uns8) : State :=
  if p.prefUpdateInterval ≠ 0 ∧ p.prefUpdateInterval ≤ s.numUl1Evicted - s.prevNumUl1Evicted then
    (List.range p.numCores).foldl (updateCore p prefetcherId) { s with prevNumUl1Evicted := s.numUl1Evicted }
  else s

/-- `pref_req_drop_process`. What it tests is the array, which is there, and not its element. -/
def prefReqDropProcess (p : Params) (s : State) (procId : ℕ) (prefetcherId : Uns8) : Except String State :=
  if p.prefFrameworkOn = false then .error "PREF_FRAMEWORK_ON"
  else if prefetcherId = 0 then .error "prefetcher_id"
  else .ok (s.writeSent prefetcherId procId .decrement (s.sent prefetcherId procId - 1))

/-! ## Runs -/

inductive Event where
  | sent (procId : ℕ) (prefetcherId : Uns8)
  | hit (procId : ℕ) (prefetcherId : Uns8)
  | hitLate (procId : ℕ) (prefetcherId : Uns8)
  | evicted
  | update (prefetcherId : Uns8)
  | dropped (procId : ℕ) (prefetcherId : Uns8)
  deriving DecidableEq, Repr

def step (p : Params) (s : State) : Event → Except String State
  | .sent procId prefetcherId => .ok (prefUl1sent p s procId prefetcherId)
  | .hit procId prefetcherId => .ok (prefHit p s procId prefetcherId)
  | .hitLate procId prefetcherId => .ok (prefHitLate p s procId prefetcherId)
  | .evicted => .ok (prefUl1evict p s)
  | .update prefetcherId => .ok (prefFeedBackInfoUpdate p s prefetcherId)
  | .dropped procId prefetcherId => prefReqDropProcess p s procId prefetcherId

/-- After `pref_init`. -/
def State.init : State where
  hwpInfo _ := ⟨fun _ => 0, fun _ => 0, fun _ => 0, fun _ => 0, fun _ => 0, fun _ => 0, fun _ => 2⟩
  numUl1Evicted := 0
  prevNumUl1Evicted := 0
  log := []

/-- The increments and the decrements of an element since it was last reset. -/
def tally (prefetcherId : Uns8) (procId : ℕ) (log : List Write) : ℕ × ℕ :=
  log.foldl (fun count w =>
    if w.prefetcherId = prefetcherId ∧ w.procId = procId then
      match w.kind with
      | .increment => (count.1 + 1, count.2)
      | .decrement => (count.1, count.2 + 1)
      | .reset => (0, 0)
    else count) (0, 0)

/-- No decrement wraps below zero, and each one is matched by an earlier increment of the same
element since its last reset, which no earlier decrement is matched by. -/
def Accounted (log : List Write) : Prop :=
  History.Always (fun before w => w.kind = .decrement →
    w.new.toNat + 1 = w.old.toNat ∧
      (tally w.prefetcherId w.procId before).2 < (tally w.prefetcherId w.procId before).1) log

/-- Where a dropped request is taken out, the count is not zero. -/
def CountsDropped (s : State) : Event → Prop
  | .dropped procId prefetcherId => s.sent prefetcherId procId ≠ 0
  | _ => True

/-! ## Assignments -/

variable {p : Params} {s t : State} {prefetcherId pf : Uns8} {procId core : ℕ}

@[simp] theorem State.modify_log (f : HwpInfo → HwpInfo) : (s.modify prefetcherId f).log = s.log := rfl

theorem State.modify_sent {f : HwpInfo → HwpInfo} (hf : ∀ info, (f info).currSentCore = info.currSentCore) :
    (s.modify prefetcherId f).sent pf core = s.sent pf core := by
  by_cases hpf : pf = prefetcherId
  · subst hpf
    simp [State.modify, State.sent, hf]
  · simp [State.modify, State.sent, hpf]

@[simp] theorem State.writeSent_log (kind : Kind) (value : Uns64) :
    (s.writeSent prefetcherId procId kind value).log =
      s.log ++ [⟨prefetcherId, procId, kind, s.sent prefetcherId procId, value⟩] := rfl

theorem State.writeSent_sent (kind : Kind) (value : Uns64) :
    (s.writeSent prefetcherId procId kind value).sent pf core =
      if prefetcherId = pf ∧ procId = core then value else s.sent pf core := by
  by_cases hpf : prefetcherId = pf
  · subst hpf
    by_cases hcore : procId = core
    · subst hcore
      simp [State.writeSent, State.modify, State.sent]
    · simp [State.writeSent, State.modify, State.sent, hcore, Ne.symm hcore]
  · simp [State.writeSent, State.modify, State.sent, hpf, Ne.symm hpf]

theorem tally_concat (log : List Write) (w : Write) :
    tally pf core (log ++ [w]) =
      if w.prefetcherId = pf ∧ w.procId = core then
        match w.kind with
        | .increment => ((tally pf core log).1 + 1, (tally pf core log).2)
        | .decrement => ((tally pf core log).1, (tally pf core log).2 + 1)
        | .reset => (0, 0)
      else tally pf core log := by
  simp [tally, List.foldl_append]

/-! ## The counts and the log -/

/-- An element holds the difference of its increments and decrements, modulo 2^64. -/
def State.Tallied (s : State) : Prop :=
  ∀ pf core, s.sent pf core = BitVec.ofNat 64 (tally pf core s.log).1 - BitVec.ofNat 64 (tally pf core s.log).2

theorem State.init_tallied : State.init.Tallied := by
  intro pf core
  simp [State.sent, State.init, tally]

/-- As long as all decrements so far are matched, there are no more of them than increments. -/
theorem Accounted.tally_le {log : List Write} (h : Accounted log) (pf : Uns8) (core : ℕ) :
    (tally pf core log).2 ≤ (tally pf core log).1 := by
  induction log using List.reverseRecOn with
  | nil => exact Nat.le_refl 0
  | append_singleton log w ih =>
      obtain ⟨hbefore, hw⟩ := History.always_concat.mp h
      have hle := ih hbefore
      rw [tally_concat]
      by_cases hself : w.prefetcherId = pf ∧ w.procId = core
      · rw [if_pos hself]
        cases hkind : w.kind with
        | increment => exact Nat.le_succ_of_le hle
        | decrement =>
            obtain ⟨rfl, rfl⟩ := hself
            exact (hw hkind).2
        | reset => exact Nat.le_refl 0
      · rw [if_neg hself]
        exact hle

/-- The value that is assigned. -/
def Kind.value (kind : Kind) (old : Uns64) : Uns64 :=
  match kind with
  | .increment => old + 1
  | .decrement => old - 1
  | .reset => 0

/-- An assignment changes an element and its tally alike. -/
theorem State.Tallied.writeSent (h : s.Tallied) (prefetcherId : Uns8) (procId : ℕ) (kind : Kind) :
    (s.writeSent prefetcherId procId kind (kind.value (s.sent prefetcherId procId))).Tallied := by
  intro pf core
  rw [State.writeSent_sent, State.writeSent_log, tally_concat]
  by_cases hself : prefetcherId = pf ∧ procId = core
  · obtain ⟨rfl, rfl⟩ := hself
    rw [if_pos ⟨rfl, rfl⟩, if_pos ⟨rfl, rfl⟩, h prefetcherId procId]
    cases kind with
    | increment =>
        simp only [Kind.value, BitVec.ofNat_add]
        bv_omega
    | decrement =>
        simp only [Kind.value, BitVec.ofNat_add]
        bv_omega
    | reset => simp [Kind.value]
  · rw [if_neg hself, if_neg hself]
    exact h pf core

/-- A change that takes nothing out. -/
structure Quiet (s t : State) : Prop where
  tallied : s.Tallied → t.Tallied
  accounted : Accounted t.log ↔ Accounted s.log

theorem Quiet.refl (s : State) : Quiet s s := ⟨id, Iff.rfl⟩

theorem Quiet.trans {u : State} (h : Quiet s t) (h' : Quiet t u) : Quiet s u :=
  ⟨h'.tallied ∘ h.tallied, h'.accounted.trans h.accounted⟩

theorem Quiet.modify {f : HwpInfo → HwpInfo} (hf : ∀ info, (f info).currSentCore = info.currSentCore) :
    Quiet s (s.modify prefetcherId f) := by
  refine ⟨?_, Iff.rfl⟩
  intro h pf core
  rw [State.modify_sent hf]
  exact h pf core

theorem Quiet.writeSent (kind : Kind) (hkind : kind ≠ .decrement) :
    Quiet s (s.writeSent prefetcherId procId kind (kind.value (s.sent prefetcherId procId))) := by
  refine ⟨fun h => h.writeSent prefetcherId procId kind, ?_⟩
  rw [State.writeSent_log, Accounted, History.always_concat, ← Accounted]
  exact and_iff_left fun hdec => absurd hdec hkind

theorem Quiet.increment : Quiet s (s.writeSent prefetcherId procId .increment (s.sent prefetcherId procId + 1)) :=
  .writeSent .increment (by decide)

theorem Quiet.reset : Quiet s (s.writeSent prefetcherId procId .reset 0) :=
  .writeSent .reset (by decide)

/-! ## The events -/

theorem prefUl1sent_quiet : Quiet s (prefUl1sent p s procId prefetcherId) := by
  rw [prefUl1sent]
  by_cases hoff : p.prefFrameworkOn = false
  · rw [if_pos hoff]
    exact .refl s
  · by_cases hid : prefetcherId = 0
    · rw [if_neg hoff, if_pos hid]
      exact .refl s
    · rw [if_neg hoff, if_neg hid]
      have hadd : Quiet s (s.writeSent prefetcherId procId .increment (s.sent prefetcherId procId + 1)) :=
        .increment
      refine hadd.trans ?_
      generalize s.writeSent prefetcherId procId .increment (s.sent prefetcherId procId + 1) = s₁
      dsimp only
      by_cases hfull : s₁.sent prefetcherId procId = p.prefDhalSentthresh.setWidth 64 ∧ p.prefDhal = true
      · rw [if_pos hfull]
        have hthrottle : Quiet s₁ (s₁.modify prefetcherId fun info => info.throttle p procId) := .modify fun _ => rfl
        exact (hthrottle.trans .reset).trans (.modify fun _ => rfl)
      · rw [if_neg hfull]
        exact .refl s₁

theorem prefHit_quiet : Quiet s (prefHit p s procId prefetcherId) := by
  rw [prefHit]
  by_cases hid : prefetcherId = 0
  · rw [if_pos hid]
    exact .refl s
  · by_cases hoff : p.prefFrameworkOn = false
    · rw [if_neg hid, if_pos hoff]
      exact .refl s
    · rw [if_neg hid, if_neg hoff]
      exact .modify fun _ => rfl

theorem prefHitLate_quiet : Quiet s (prefHitLate p s procId prefetcherId) := by
  rw [prefHitLate]
  by_cases hoff : p.prefFrameworkOn = false
  · rw [if_pos hoff]
    exact .refl s
  · by_cases hid : prefetcherId = 0
    · rw [if_neg hoff, if_pos hid]
      exact .refl s
    · rw [if_neg hoff, if_neg hid]
      refine Quiet.trans ?_ prefHit_quiet
      exact .modify fun _ => rfl

theorem prefUl1evict_quiet : Quiet s (prefUl1evict p s) := by
  rw [prefUl1evict]
  by_cases hoff : p.prefFrameworkOn = false
  · rw [if_pos hoff]
    exact .refl s
  · rw [if_neg hoff]
    exact ⟨id, Iff.rfl⟩

theorem updateCore_quiet : Quiet s (updateCore p prefetcherId s procId) := by
  rw [updateCore]
  by_cases hsent : s.sent prefetcherId procId ≠ 0
  · rw [if_pos hsent]
    refine Quiet.trans (Quiet.trans ?_ .reset) (.modify fun _ => rfl)
    exact .modify fun _ => rfl
  · rw [if_neg hsent]
    exact .refl s

theorem prefFeedBackInfoUpdate_quiet : Quiet s (prefFeedBackInfoUpdate p s prefetcherId) := by
  rw [prefFeedBackInfoUpdate]
  by_cases hdue : p.prefUpdateInterval ≠ 0 ∧ p.prefUpdateInterval ≤ s.numUl1Evicted - s.prevNumUl1Evicted
  · rw [if_pos hdue]
    have hstart : Quiet s { s with prevNumUl1Evicted := s.numUl1Evicted } := ⟨id, Iff.rfl⟩
    refine hstart.trans ?_
    generalize { s with prevNumUl1Evicted := s.numUl1Evicted } = s₁
    induction List.range p.numCores generalizing s₁ with
    | nil => exact .refl s₁
    | cons procId procIds ih => exact updateCore_quiet.trans (ih _)
  · rw [if_neg hdue]
    exact .refl s

/-- A drop is accounted for when the count is not zero. -/
theorem dropped_accounted (h : s.Tallied) (hlog : Accounted s.log) :
    Accounted (s.writeSent prefetcherId procId .decrement (s.sent prefetcherId procId - 1)).log ↔
      s.sent prefetcherId procId ≠ 0 := by
  rw [State.writeSent_log, Accounted, History.always_concat, ← Accounted]
  constructor
  · rintro ⟨-, hw⟩ hzero
    obtain ⟨hwrap, -⟩ := hw rfl
    simp only [hzero] at hwrap
    exact absurd hwrap (by decide)
  · intro hne
    refine ⟨hlog, fun _ => ⟨?_, ?_⟩⟩
    · show (s.sent prefetcherId procId - 1).toNat + 1 = (s.sent prefetcherId procId).toNat
      bv_omega
    · refine Nat.lt_of_le_of_ne (hlog.tally_le prefetcherId procId) ?_
      intro heq
      refine hne ?_
      rw [h prefetcherId procId]
      show BitVec.ofNat 64 (tally prefetcherId procId s.log).1 - BitVec.ofNat 64 (tally prefetcherId procId s.log).2 = 0
      rw [show (tally prefetcherId procId s.log).2 = (tally prefetcherId procId s.log).1 from heq]
      exact BitVec.sub_self _

theorem step_quiet_or_dropped {e : Event} (h : step p s e = .ok t) :
    Quiet s t ∧ (∀ s, CountsDropped s e) ∨
      ∃ procId prefetcherId, e = .dropped procId prefetcherId ∧
        t = s.writeSent prefetcherId procId .decrement (s.sent prefetcherId procId - 1) := by
  cases e with
  | sent procId prefetcherId =>
      cases h
      exact .inl ⟨prefUl1sent_quiet, fun _ => trivial⟩
  | hit procId prefetcherId =>
      cases h
      exact .inl ⟨prefHit_quiet, fun _ => trivial⟩
  | hitLate procId prefetcherId =>
      cases h
      exact .inl ⟨prefHitLate_quiet, fun _ => trivial⟩
  | evicted =>
      cases h
      exact .inl ⟨prefUl1evict_quiet, fun _ => trivial⟩
  | update prefetcherId =>
      cases h
      exact .inl ⟨prefFeedBackInfoUpdate_quiet, fun _ => trivial⟩
  | dropped procId prefetcherId =>
      right
      refine ⟨procId, prefetcherId, rfl, ?_⟩
      simp only [step, prefReqDropProcess] at h
      by_cases hoff : p.prefFrameworkOn = false
      · rw [if_pos hoff] at h
        cases h
      · by_cases hid : prefetcherId = 0
        · rw [if_neg hoff, if_pos hid] at h
          cases h
        · rw [if_neg hoff, if_neg hid] at h
          cases h
          rfl

/-- One event keeps the counts, and the log stays accounted for exactly when the event does not drop
a request at a count of zero. -/
theorem step_accounted {e : Event} (hs : s.Tallied) (h : step p s e = .ok t) :
    t.Tallied ∧ (Accounted t.log ↔ Accounted s.log ∧ CountsDropped s e) := by
  obtain ⟨hquiet, hcounts⟩ | ⟨procId, prefetcherId, rfl, rfl⟩ := step_quiet_or_dropped h
  · exact ⟨hquiet.tallied hs, hquiet.accounted.trans (and_iff_left (hcounts s)).symm⟩
  · refine ⟨hs.writeSent prefetcherId procId .decrement, ?_⟩
    constructor
    · intro hacc
      have hbefore : Accounted s.log := by
        rw [State.writeSent_log, Accounted, History.always_concat, ← Accounted] at hacc
        exact hacc.1
      exact ⟨hbefore, (dropped_accounted hs hbefore).mp hacc⟩
    · rintro ⟨hbefore, hne⟩
      exact (dropped_accounted hs hbefore).mpr hne

theorem run_accounted {events : List Event} (hs : s.Tallied) (h : Execution.run (step p) s events = .ok t) :
    Accounted t.log ↔ Accounted s.log ∧ Execution.Along (step p) CountsDropped s events := by
  induction events generalizing s with
  | nil =>
      obtain rfl : s = t := by simpa using h
      exact (and_iff_left trivial).symm
  | cons e events ih =>
      obtain ⟨m, hm, ht⟩ := Execution.run_cons_eq_ok.mp h
      obtain ⟨hm', hacc⟩ := step_accounted hs hm
      rw [ih hm' ht, hacc, Execution.along_cons hm, and_assoc]

/-- An interval of one eviction, and no throttling. -/
def Params.everyEviction : Params where
  prefFrameworkOn := true
  prefUpdateInterval := 1
  prefDhal := false
  prefDhalSentthresh := 16
  prefDhalUsethreshMax := 12
  prefDhalUsethreshMin2 := 8
  prefDhalUsethreshMin1 := 4
  prefDhalMaxdeg := 64
  numCores := 1
  average old curr := (old + curr) / 2

end Scarab.Feedback
