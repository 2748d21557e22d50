import Scarab.Lib.History
import Scarab.Prefetcher.PhaseReplay

/-! # What the send loop of the phase prefetcher touches

The loop runs over `PREF_PHASE_REGIONENTRIES` regions, but a phase has an array of
`PREF_PHASE_TRACKEDREGIONS`. Where the two differ, the loop leaves the array or leaves regions out,
unless the queue stops it or there is nothing to leave out. -/

namespace Scarab.Phase

variable {p : Params} {κ : Type} {addto : Ul1Queue κ} {stray : ℕ → PhaseRegion}

/-! ## Touched elements -/

/-- An element that the send loop reads: of `mapped_regions`, or of `RegionMemAccess`. -/
inductive Touch where
  | region (regid : ℕ)
  | access (regid offset : ℕ)
  deriving DecidableEq, Repr

/-- What the loop over the offsets of a region reads. -/
def regionTouches (p : Params) (addto : Ul1Queue κ) (hwpId : Uns8) (region : PhaseRegion) (regid : ℕ) :
    ℕ → ℕ → κ → List Touch
  | 0, _, _ => []
  | n + 1, offset, k =>
      .access regid offset ::
        if region.regionMemAccess offset then
          let (ok, k) := addto (.plain 0 (region.line p offset) hwpId) k
          if ok then regionTouches p addto hwpId region regid n (offset + 1) k else []
        else regionTouches p addto hwpId region regid n (offset + 1) k

/-- What the loop over the regions reads. -/
def sendTouches (p : Params) (addto : Ul1Queue κ) (stray : ℕ → PhaseRegion) : ℕ → PrefPhase → κ → List Touch
  | 0, _, _ => []
  | n + 1, s, k =>
      let region := s.region p stray s.currsentRegid
      .region s.currsentRegid ::
        if region.valid then
          regionTouches p addto s.hwpId region s.currsentRegid (p.regionEntries - s.currsentRegidOffset)
              s.currsentRegidOffset k ++
            match sendRegion p addto s.hwpId region (p.regionEntries - s.currsentRegidOffset)
                s.currsentRegidOffset k with
            | (true, _, _) => []
            | (false, _, k) => sendTouches p addto stray n s.nextRegion k
        else sendTouches p addto stray n s.nextRegion k

theorem mem_regionTouches {hwpId : Uns8} {region : PhaseRegion} {regid n offset : ℕ} {k : κ} {touch : Touch}
    (h : touch ∈ regionTouches p addto hwpId region regid n offset k) :
    ∃ off, touch = .access regid off ∧ offset ≤ off ∧ off < offset + n := by
  induction n generalizing offset k with
  | zero => cases h
  | succ n ih =>
      have hlater : ∀ k, touch ∈ regionTouches p addto hwpId region regid n (offset + 1) k →
          ∃ off, touch = .access regid off ∧ offset ≤ off ∧ off < offset + (n + 1) := by
        intro k hk
        obtain ⟨off, htouch, hle, hlt⟩ := ih hk
        exact ⟨off, htouch, by omega, by omega⟩
      rw [regionTouches] at h
      cases List.mem_cons.mp h with
      | inl hfirst => exact ⟨offset, hfirst, by omega, by omega⟩
      | inr hrest =>
          by_cases hmark : region.regionMemAccess offset = true
          · rw [if_pos hmark] at hrest
            revert hrest
            cases addto (.plain 0 (region.line p offset) hwpId) k with
            | mk ok k' =>
                cases ok with
                | true => exact hlater k'
                | false => simp
          · rw [if_neg hmark] at hrest
            exact hlater k hrest

/-! ## Offering lines to the queue -/

/-- Offer lines in order, up to one that the queue refuses; whether it takes them all. -/
def offer (addto : Ul1Queue κ) (hwpId : Uns8) : List Addr → κ → Bool × κ
  | [], k => (true, k)
  | line :: lines, k =>
      let (ok, k) := addto (.plain 0 line hwpId) k
      if ok then offer addto hwpId lines k else (false, k)

theorem offer_append (addto : Ul1Queue κ) (hwpId : Uns8) (first rest : List Addr) (k : κ) :
    offer addto hwpId (first ++ rest) k =
      if (offer addto hwpId first k).1 then offer addto hwpId rest (offer addto hwpId first k).2
      else offer addto hwpId first k := by
  induction first generalizing k with
  | nil => rfl
  | cons line first ih =>
      rw [List.cons_append, offer, offer]
      by_cases hok : (addto (.plain 0 line hwpId) k).1 = true
      · simp only [hok, if_true]
        exact ih _
      · simp only [hok, Bool.false_eq_true, if_false]

/-- The loop over the offsets offers the marked lines. -/
theorem sendRegion_offer (addto : Ul1Queue κ) (hwpId : Uns8) (region : PhaseRegion) (n offset : ℕ) (k : κ) :
    (sendRegion p addto hwpId region n offset k).1 = !(offer addto hwpId (region.marked p n offset) k).1 ∧
      (sendRegion p addto hwpId region n offset k).2.2 = (offer addto hwpId (region.marked p n offset) k).2 := by
  induction n generalizing offset k with
  | zero => exact ⟨rfl, rfl⟩
  | succ n ih =>
      rw [sendRegion, marked_succ]
      by_cases hmark : region.regionMemAccess offset = true
      · simp only [hmark, if_true, List.cons_append, List.nil_append, offer]
        cases addto (.plain 0 (region.line p offset) hwpId) k with
        | mk ok k' =>
            cases ok with
            | true => exact ih (offset + 1) k'
            | false => exact ⟨rfl, rfl⟩
      · simp only [hmark, Bool.false_eq_true, if_false, List.nil_append]
        exact ih (offset + 1) k

/-- The lines that are due in the region at the position. -/
def PrefPhase.here (p : Params) (stray : ℕ → PhaseRegion) (s : PrefPhase) : List Addr :=
  if (s.region p stray s.currsentRegid).valid then
    (s.region p stray s.currsentRegid).marked p (p.regionEntries - s.currsentRegidOffset) s.currsentRegidOffset
  else []

theorem pending_succ (s : PrefPhase) (n : ℕ) :
    s.pending p stray (n + 1) = s.here p stray ++ s.nextRegion.pending p stray n := rfl

/-- What the queue takes of more regions, it takes of fewer. -/
theorem offer_pending_mono {s : PrefPhase} {hwpId : Uns8} {i j : ℕ} {k : κ} (hij : i ≤ j)
    (h : (offer addto hwpId (s.pending p stray j) k).1 = true) : (offer addto hwpId (s.pending p stray i) k).1 = true := by
  induction i generalizing s j k with
  | zero => rfl
  | succ i ih =>
      obtain ⟨j, rfl⟩ : ∃ j', j = j' + 1 := ⟨j - 1, by omega⟩
      rw [pending_succ, offer_append] at h ⊢
      by_cases hhere : (offer addto hwpId (s.here p stray) k).1 = true
      · rw [if_pos hhere] at h ⊢
        exact ih (by omega) h
      · rw [if_neg hhere] at h ⊢
        exact h

/-! ## How far the loop comes -/

/-- The loop over the regions, by its first turn. -/
theorem sendRegions_succ (p : Params) (addto : Ul1Queue κ) (stray : ℕ → PhaseRegion) (s : PrefPhase) (n : ℕ) (k : κ) :
    ((offer addto s.hwpId (s.here p stray) k).1 = true →
      (sendRegions p addto stray (n + 1) s k).1 =
          (sendRegions p addto stray n s.nextRegion (offer addto s.hwpId (s.here p stray) k).2).1 ∧
        ∃ offsets, (∀ touch ∈ offsets, ∃ off, touch = .access s.currsentRegid off ∧ off < p.regionEntries) ∧
          sendTouches p addto stray (n + 1) s k = .region s.currsentRegid :: (offsets ++
            sendTouches p addto stray n s.nextRegion (offer addto s.hwpId (s.here p stray) k).2)) ∧
    ((offer addto s.hwpId (s.here p stray) k).1 = false →
      (sendRegions p addto stray (n + 1) s k).1.currsentRegid = s.currsentRegid ∧
        ∃ offsets, (∀ touch ∈ offsets, ∃ off, touch = .access s.currsentRegid off ∧ off < p.regionEntries) ∧
          sendTouches p addto stray (n + 1) s k = .region s.currsentRegid :: offsets) := by
  have htouches : ∀ touch ∈ regionTouches p addto s.hwpId (s.region p stray s.currsentRegid) s.currsentRegid
      (p.regionEntries - s.currsentRegidOffset) s.currsentRegidOffset k,
        ∃ off, touch = .access s.currsentRegid off ∧ off < p.regionEntries := by
    intro touch htouch
    obtain ⟨off, heq, hle, hlt⟩ := mem_regionTouches htouch
    exact ⟨off, heq, by omega⟩
  rw [PrefPhase.here]
  rw [sendRegions, sendTouches]
  by_cases hvalid : (s.region p stray s.currsentRegid).valid = true
  · simp only [hvalid, if_true]
    obtain ⟨hfull, hqueue⟩ := sendRegion_offer (p := p) addto s.hwpId (s.region p stray s.currsentRegid)
      (p.regionEntries - s.currsentRegidOffset) s.currsentRegidOffset k
    rw [← hqueue]
    generalize sendRegion p addto s.hwpId (s.region p stray s.currsentRegid)
      (p.regionEntries - s.currsentRegidOffset) s.currsentRegidOffset k = sent at hfull
    obtain ⟨qFull, offset, k'⟩ := sent
    simp only at hfull
    refine ⟨fun htakes => ?_, fun hrefuses => ?_⟩
    · rw [htakes] at hfull
      subst hfull
      exact ⟨rfl, _, htouches, rfl⟩
    · rw [hrefuses] at hfull
      subst hfull
      exact ⟨rfl, _, htouches, congrArg _ (List.append_nil _)⟩
  · simp only [hvalid, Bool.false_eq_true, if_false]
    exact ⟨fun _ => ⟨rfl, [], by simp, rfl⟩, fun hrefuses => by cases hrefuses⟩

/-- The elements that the loop reads: regions from its own on, and offsets that a region has. -/
theorem touches_within {n : ℕ} {s : PrefPhase} {k : κ} {t : Touch} (h : t ∈ sendTouches p addto stray n s k) :
    (∃ regid, s.currsentRegid ≤ regid ∧ t = .region regid) ∨
      ∃ regid offset, offset < p.regionEntries ∧ t = .access regid offset := by
  induction n generalizing s k with
  | zero => cases h
  | succ n ih =>
      obtain ⟨htakes, hrefuses⟩ := sendRegions_succ p addto stray s n k
      cases hoffer : (offer addto s.hwpId (s.here p stray) k).1 with
      | true =>
          obtain ⟨-, offsets, hoffsets, htouches⟩ := htakes hoffer
          rw [htouches] at h
          rcases List.mem_cons.mp h with hfirst | hrest
          · exact .inl ⟨_, Nat.le_refl _, hfirst⟩
          · rcases List.mem_append.mp hrest with hoff | hlater
            · obtain ⟨off, heq, hlt⟩ := hoffsets _ hoff
              exact .inr ⟨_, off, hlt, heq⟩
            · rcases ih hlater with ⟨regid, hge, heq⟩ | haccess
              · exact .inl ⟨regid, Nat.le_of_succ_le hge, heq⟩
              · exact .inr haccess
      | false =>
          obtain ⟨-, offsets, hoffsets, htouches⟩ := hrefuses hoffer
          rw [htouches] at h
          rcases List.mem_cons.mp h with hfirst | hoff
          · exact .inl ⟨_, Nat.le_refl _, hfirst⟩
          · obtain ⟨off, heq, hlt⟩ := hoffsets _ hoff
            exact .inr ⟨_, off, hlt, heq⟩

theorem region_ge_of_mem {n : ℕ} {s : PrefPhase} {k : κ} {regid : ℕ}
    (h : .region regid ∈ sendTouches p addto stray n s k) : s.currsentRegid ≤ regid := by
  rcases touches_within h with ⟨_, hge, heq⟩ | ⟨_, _, -, heq⟩
  · cases heq
    exact hge
  · cases heq

theorem access_lt_of_mem {n : ℕ} {s : PrefPhase} {k : κ} {regid offset : ℕ}
    (h : .access regid offset ∈ sendTouches p addto stray n s k) : offset < p.regionEntries := by
  rcases touches_within h with ⟨_, -, heq⟩ | ⟨_, _, hlt, heq⟩
  · cases heq
  · cases heq
    exact hlt

/-- A region is touched if the queue takes what is due in the regions before it. -/
theorem region_mem_iff {n : ℕ} {s : PrefPhase} {k : κ} {i : ℕ} :
    .region (s.currsentRegid + i) ∈ sendTouches p addto stray n s k ↔
      i < n ∧ (offer addto s.hwpId (s.pending p stray i) k).1 = true := by
  induction n generalizing s k i with
  | zero => simp [sendTouches]
  | succ n ih =>
      obtain ⟨htakes, hrefuses⟩ := sendRegions_succ p addto stray s n k
      cases i with
      | zero =>
          refine iff_of_true ?_ ⟨Nat.succ_pos n, rfl⟩
          cases hoffer : (offer addto s.hwpId (s.here p stray) k).1 with
          | true =>
              obtain ⟨-, offsets, -, htouches⟩ := htakes hoffer
              rw [htouches]
              exact List.mem_cons_self
          | false =>
              obtain ⟨-, offsets, -, htouches⟩ := hrefuses hoffer
              rw [htouches]
              exact List.mem_cons_self
      | succ i =>
          have hlater : s.currsentRegid + (i + 1) = s.nextRegion.currsentRegid + i := by
            show s.currsentRegid + (i + 1) = s.currsentRegid + 1 + i
            omega
          have hfirst : Touch.region (s.nextRegion.currsentRegid + i) ≠ .region s.currsentRegid := by
            intro heq
            injection heq with heq
            omega
          rw [hlater, pending_succ, offer_append, Nat.succ_lt_succ_iff]
          cases hoffer : (offer addto s.hwpId (s.here p stray) k).1 with
          | true =>
              obtain ⟨-, offsets, hoffsets, htouches⟩ := htakes hoffer
              have hno : .region (s.nextRegion.currsentRegid + i) ∉ offsets := by
                intro hmem
                obtain ⟨off, heq, -⟩ := hoffsets _ hmem
                cases heq
              rw [htouches, List.mem_cons, List.mem_append, or_iff_right hfirst, or_iff_right hno]
              exact ih
          | false =>
              obtain ⟨-, offsets, hoffsets, htouches⟩ := hrefuses hoffer
              have hno : .region (s.nextRegion.currsentRegid + i) ∉ offsets := by
                intro hmem
                obtain ⟨off, heq, -⟩ := hoffsets _ hmem
                cases heq
              rw [htouches, List.mem_cons, or_iff_right hfirst]
              simp [hno, hoffer]

theorem regid_le_sendRegions {n : ℕ} {s : PrefPhase} {k : κ} :
    s.currsentRegid ≤ (sendRegions p addto stray n s k).1.currsentRegid := by
  induction n generalizing s k with
  | zero => exact Nat.le_refl _
  | succ n ih =>
      obtain ⟨htakes, hrefuses⟩ := sendRegions_succ p addto stray s n k
      cases hoffer : (offer addto s.hwpId (s.here p stray) k).1 with
      | true =>
          rw [(htakes hoffer).1]
          exact Nat.le_of_succ_le (ih (s := s.nextRegion))
      | false => exact Nat.le_of_eq (hrefuses hoffer).1.symm

/-- A region is left behind if the queue takes what is due up to its end. -/
theorem lt_regid_iff {n : ℕ} {s : PrefPhase} {k : κ} {i : ℕ} :
    s.currsentRegid + i < (sendRegions p addto stray n s k).1.currsentRegid ↔
      i < n ∧ (offer addto s.hwpId (s.pending p stray (i + 1)) k).1 = true := by
  induction n generalizing s k i with
  | zero => simp [sendRegions]
  | succ n ih =>
      obtain ⟨htakes, hrefuses⟩ := sendRegions_succ p addto stray s n k
      have hge : ∀ k, s.currsentRegid < (sendRegions p addto stray n s.nextRegion k).1.currsentRegid := by
        intro k
        exact Nat.lt_of_succ_le (regid_le_sendRegions (s := s.nextRegion))
      rw [pending_succ, offer_append]
      cases hoffer : (offer addto s.hwpId (s.here p stray) k).1 with
      | true =>
          rw [(htakes hoffer).1]
          cases i with
          | zero => exact iff_of_true (hge _) ⟨Nat.succ_pos n, rfl⟩
          | succ i =>
              have hlater : s.currsentRegid + (i + 1) = s.nextRegion.currsentRegid + i := by
                show s.currsentRegid + (i + 1) = s.currsentRegid + 1 + i
                omega
              rw [hlater, Nat.succ_lt_succ_iff]
              exact ih
      | false =>
          rw [(hrefuses hoffer).1]
          simp [hoffer]

/-- Sending changes nothing but the position. -/
theorem sendRegions_sends {n : ℕ} {s : PrefPhase} {k : κ} : Sends s (sendRegions p addto stray n s k).1 := by
  induction n generalizing s k with
  | zero => exact ⟨rfl, rfl, rfl⟩
  | succ n ih =>
      have hnext : ∀ k, Sends s (sendRegions p addto stray n s.nextRegion k).1 :=
        fun k => ⟨ih.phaseTable, ih.mappedRegions, ih.currPhaseid⟩
      rw [sendRegions]
      by_cases hvalid : (s.region p stray s.currsentRegid).valid = true
      · simp only [hvalid, if_true]
        split
        · exact ⟨rfl, rfl, rfl⟩
        · exact hnext _
      · simp only [hvalid, Bool.false_eq_true, if_false]
        exact hnext _

/-! ## Runs -/

/-- A call of `pref_phase_ul1_train`, and the queue as the call finds it. -/
structure Call (κ : Type) where
  train : Train
  queue : κ

/-- The prefetcher, and what the send loop has touched since the phase began. -/
structure Visiting where
  phase : PrefPhase
  touched : List Touch

/-- The state in which a call begins to send. -/
def Visiting.learned (p : Params) (v : Visiting) (c : Call κ) : PrefPhase :=
  v.phase.learn p (c.train.lineAddr >>> p.log2Line) c.train.instCount c.train.cycleCount

/-- What the send loop of a call touches. -/
def Visiting.touches (p : Params) (addto : Ul1Queue κ) (v : Visiting) (c : Call κ) : List Touch :=
  sendTouches p addto c.train.stray (p.regionEntries - (v.learned p c).currsentRegid) (v.learned p c) c.queue

def Visiting.step (p : Params) (addto : Ul1Queue κ) (v : Visiting) (c : Call κ) : Visiting where
  phase := (prefPhaseUl1Train p addto v.phase c.train.lineAddr c.train.instCount c.train.cycleCount c.train.stray
    c.queue).1
  touched := (if v.phase.Enters p c.train.instCount then [] else v.touched) ++ v.touches p addto c

/-- After `pref_phase_init`, which leaves the position of the loop as it is. -/
def Visiting.init (hwpId : Uns8) (regid offset : ℕ) : Visiting := ⟨prefPhaseInit hwpId regid offset, []⟩

def Visiting.run (p : Params) (addto : Ul1Queue κ) (v : Visiting) (calls : List (Call κ)) : Visiting :=
  calls.foldl (Visiting.step p addto) v

/-- A region of the current phase is valid. -/
def PrefPhase.ValidRegion (s : PrefPhase) (regid : ℕ) : Prop :=
  ((s.phaseTable s.currPhaseid).mappedRegions regid).valid = true

/-- The send loop of a call stays within the arrays, and when it has come to its end it has visited
all valid tracked regions since the phase began. -/
structure Visiting.StaysWithin (p : Params) (addto : Ul1Queue κ) (v : Visiting) (c : Call κ) : Prop where
  regions : ∀ regid, .region regid ∈ v.touches p addto c → regid < p.trackedRegions
  accesses : ∀ regid offset, .access regid offset ∈ v.touches p addto c → offset < p.regionEntries ∧ offset < 64
  visits : p.regionEntries ≤ (v.step p addto c).phase.currsentRegid →
    ∀ regid < p.trackedRegions, (v.step p addto c).phase.ValidRegion regid →
      .region regid ∈ (v.step p addto c).touched

/-- The loop does not go on behind the tracked regions, as the queue refuses a line of one of them;
and it leaves no valid region out when it comes to its end. -/
structure Visiting.Stops (p : Params) (addto : Ul1Queue κ) (v : Visiting) (c : Call κ) : Prop where
  refused : p.trackedRegions < p.regionEntries → (v.learned p c).currsentRegid < p.regionEntries →
    (offer addto (v.learned p c).hwpId
      ((v.learned p c).pending p c.train.stray (p.trackedRegions - (v.learned p c).currsentRegid)) c.queue).1 = false
  complete : (offer addto (v.learned p c).hwpId
      ((v.learned p c).pending p c.train.stray (p.regionEntries - (v.learned p c).currsentRegid)) c.queue).1 = true →
    ∀ regid, p.regionEntries ≤ regid → regid < p.trackedRegions → ¬ (v.learned p c).ValidRegion regid

/-- What is left behind has been touched, or is not valid. -/
structure PrefPhase.Passed (p : Params) (s : PrefPhase) (touched : List Touch) : Prop where
  visited : ∀ regid < s.currsentRegid, regid < p.trackedRegions → s.ValidRegion regid → .region regid ∈ touched
  below : ∀ regid, .region regid ∈ touched → regid < p.regionEntries

theorem learn_enters {s : PrefPhase} {lineIndex : Addr} {instCount cycleCount : Uns64} (h : s.Enters p instCount) :
    (s.learn p lineIndex instCount cycleCount).currsentRegid = 0 := by
  rw [PrefPhase.learn_eq, if_pos h]
  rfl

/-- Within a phase, learning changes neither its regions nor the position. -/
theorem learn_stays {s : PrefPhase} (lineIndex : Addr) {instCount : Uns64} (cycleCount : Uns64)
    (h : ¬ s.Enters p instCount) :
    (s.learn p lineIndex instCount cycleCount).currsentRegid = s.currsentRegid ∧
      (s.learn p lineIndex instCount cycleCount).phaseTable = s.phaseTable ∧
      (s.learn p lineIndex instCount cycleCount).currPhaseid = s.currPhaseid := by
  rw [PrefPhase.learn_eq, if_neg h]
  split <;> exact ⟨rfl, rfl, rfl⟩

theorem PrefPhase.Passed.learned {v : Visiting} (h : v.phase.Passed p v.touched) (c : Call κ) :
    (v.learned p c).Passed p (if v.phase.Enters p c.train.instCount then [] else v.touched) := by
  rw [Visiting.learned]
  by_cases henters : v.phase.Enters p c.train.instCount
  · rw [if_pos henters]
    refine ⟨?_, by simp⟩
    intro regid hregid
    rw [learn_enters henters] at hregid
    exact absurd hregid (Nat.not_lt_zero regid)
  · rw [if_neg henters]
    obtain ⟨hregid, htable, hcurr⟩ := learn_stays (c.train.lineAddr >>> p.log2Line) c.train.cycleCount henters
    refine ⟨?_, h.below⟩
    intro regid hlt htracked hvalid
    rw [ValidRegion] at hvalid
    rw [htable, hcurr] at hvalid
    exact h.visited regid (hregid ▸ hlt) htracked hvalid

variable {v : Visiting} {c : Call κ}

theorem step_phase : (v.step p addto c).phase =
    (sendRegions p addto c.train.stray (p.regionEntries - (v.learned p c).currsentRegid) (v.learned p c) c.queue).1 := rfl

theorem step_validRegion {regid : ℕ} :
    (v.step p addto c).phase.ValidRegion regid ↔ (v.learned p c).ValidRegion regid := by
  have hsends : Sends (v.learned p c) (v.step p addto c).phase := sendRegions_sends
  unfold PrefPhase.ValidRegion
  rw [hsends.phaseTable, hsends.currPhaseid]

theorem region_lt_of_touches {regid : ℕ} (h : .region regid ∈ v.touches p addto c) : regid < p.regionEntries := by
  have hge := region_ge_of_mem h
  obtain ⟨i, rfl⟩ := Nat.exists_eq_add_of_le hge
  obtain ⟨hi, -⟩ := region_mem_iff.mp h
  omega

/-- A call keeps what is left behind touched. -/
theorem PrefPhase.Passed.step (h : v.phase.Passed p v.touched) (c : Call κ) :
    (v.step p addto c).phase.Passed p (v.step p addto c).touched := by
  have hlearned := h.learned c
  refine ⟨?_, ?_⟩
  · intro regid hregid htracked hvalid
    rw [step_validRegion] at hvalid
    by_cases hbefore : regid < (v.learned p c).currsentRegid
    · exact List.mem_append_left _ (hlearned.visited regid hbefore htracked hvalid)
    · obtain ⟨i, rfl⟩ := Nat.exists_eq_add_of_le (Nat.le_of_not_lt hbefore)
      obtain ⟨hi, htakes⟩ := lt_regid_iff.mp hregid
      refine List.mem_append_right _ (region_mem_iff.mpr ⟨hi, ?_⟩)
      exact offer_pending_mono (Nat.le_succ i) htakes
  · intro regid hmem
    cases List.mem_append.mp hmem with
    | inl hold => exact hlearned.below regid hold
    | inr hnew => exact region_lt_of_touches hnew

/-- The loop has come to its end if the queue takes all that is due in its regions. -/
theorem regionEntries_le_iff : p.regionEntries ≤ (v.step p addto c).phase.currsentRegid ↔
    (offer addto (v.learned p c).hwpId ((v.learned p c).pending p c.train.stray
      (p.regionEntries - (v.learned p c).currsentRegid)) c.queue).1 = true := by
  rw [step_phase]
  cases hn : p.regionEntries - (v.learned p c).currsentRegid with
  | zero =>
      refine iff_of_true ?_ rfl
      exact Nat.le_trans (Nat.sub_eq_zero_iff_le.mp hn) regid_le_sendRegions
  | succ n =>
      have hlast : (v.learned p c).currsentRegid + n <
            (sendRegions p addto c.train.stray (n + 1) (v.learned p c) c.queue).1.currsentRegid ↔
          n < n + 1 ∧ (offer addto (v.learned p c).hwpId ((v.learned p c).pending p c.train.stray (n + 1)) c.queue).1 = true :=
        lt_regid_iff
      rw [show p.regionEntries = (v.learned p c).currsentRegid + n + 1 by omega, Nat.succ_le_iff, hlast]
      exact and_iff_right (Nat.lt_succ_self n)

/-- A call stays within the arrays and leaves no region out exactly when it stops where it should. -/
theorem staysWithin_iff (hentries : p.regionEntries ≤ 64) (h : v.phase.Passed p v.touched) :
    v.StaysWithin p addto c ↔ v.Stops p addto c := by
  have hlearned := h.learned c
  constructor
  · intro hstays
    refine ⟨?_, ?_⟩
    · intro hfewer hregid
      refine Bool.eq_false_iff.mpr ?_
      intro htakes
      have htouched : .region ((v.learned p c).currsentRegid + (p.trackedRegions - (v.learned p c).currsentRegid)) ∈
          v.touches p addto c := region_mem_iff.mpr ⟨by omega, htakes⟩
      have := hstays.regions _ htouched
      omega
    · intro htakes regid hge htracked hvalid
      have hmem := hstays.visits (regionEntries_le_iff.mpr htakes) regid htracked (step_validRegion.mpr hvalid)
      exact absurd ((h.step c).below regid hmem) (Nat.not_lt.mpr hge)
  · intro hstops
    refine ⟨?_, ?_, ?_⟩
    · intro regid hmem
      have hlt := region_lt_of_touches hmem
      obtain ⟨i, rfl⟩ := Nat.exists_eq_add_of_le (region_ge_of_mem hmem)
      obtain ⟨hi, htakes⟩ := region_mem_iff.mp hmem
      refine Classical.byContradiction fun hout => ?_
      have hrefused := hstops.refused (by omega) (by omega)
      rw [offer_pending_mono (by omega) htakes] at hrefused
      cases hrefused
    · intro regid offset hmem
      have hlt := access_lt_of_mem hmem
      exact ⟨hlt, Nat.lt_of_lt_of_le hlt hentries⟩
    · intro hend regid htracked hvalid
      by_cases hbelow : regid < p.regionEntries
      · exact (h.step c).visited regid (Nat.lt_of_lt_of_le hbelow hend) htracked hvalid
      · have hnone := hstops.complete (regionEntries_le_iff.mp hend) regid (Nat.le_of_not_lt hbelow) htracked
        exact absurd (step_validRegion.mp hvalid) hnone

theorem init_passed (hwpId : Uns8) (regid offset : ℕ) :
    (Visiting.init hwpId regid offset).phase.Passed p (Visiting.init hwpId regid offset).touched := by
  refine ⟨?_, by simp [Visiting.init]⟩
  intro _ _ _ hvalid
  cases hvalid

theorem run_passed (h : v.phase.Passed p v.touched) (calls : List (Call κ)) :
    (v.run p addto calls).phase.Passed p (v.run p addto calls).touched := by
  induction calls generalizing v with
  | nil => exact h
  | cons c calls ih => exact ih (h.step c)

/-- In every run, each call stays within the arrays and leaves no region out exactly when it stops
where it should. -/
theorem phase_staysWithin_iff (p : Params) (addto : Ul1Queue κ) (hwpId : Uns8) (regid offset : ℕ)
    (calls : List (Call κ)) (hentries : p.regionEntries ≤ 64) :
    History.Always (fun before c => ((Visiting.init hwpId regid offset).run p addto before).StaysWithin p addto c) calls ↔
      History.Always (fun before c => ((Visiting.init hwpId regid offset).run p addto before).Stops p addto c) calls := by
  constructor
  · intro h before c after hcalls
    exact (staysWithin_iff hentries (run_passed (init_passed hwpId regid offset) before)).mp (h before c after hcalls)
  · intro h before c after hcalls
    exact (staysWithin_iff hentries (run_passed (init_passed hwpId regid offset) before)).mpr (h before c after hcalls)

theorem phase_staysWithin_iff_onePhase :
    History.Always
        (fun before c => ((Visiting.init 0 0 0).run .onePhase (fun _ queue => (true, queue)) before).StaysWithin .onePhase
          (fun _ queue => (true, queue)) c) ((twoIntervals 0).map fun t => ⟨t, ()⟩) ↔
      History.Always
        (fun before c => ((Visiting.init 0 0 0).run .onePhase (fun _ queue => (true, queue)) before).Stops .onePhase
          (fun _ queue => (true, queue)) c) ((twoIntervals 0).map fun t => ⟨t, ()⟩) :=
  phase_staysWithin_iff .onePhase (fun _ queue => (true, queue)) 0 0 0 _ (by decide)

/-- With the default parameters the first call already reads behind the 32 tracked regions. -/
theorem default_reads_behind :
    ¬ ∀ (p : Params) (addto : Ul1Queue Unit) (hwpId : Uns8) (regid offset : ℕ) (calls : List (Call Unit)),
      p.regionEntries ≤ 64 →
        History.Always (fun before c => ((Visiting.init hwpId regid offset).run p addto before).StaysWithin p addto c)
          calls := by
  intro h
  have hstays := h .default (fun _ queue => (true, queue)) 0 0 0 [⟨⟨0x1000, 1, 1, noStray⟩, ()⟩] (by decide)
    [] ⟨⟨0x1000, 1, 1, noStray⟩, ()⟩ [] rfl
  have hread := hstays.regions 32 (by decide)
  exact absurd hread (by decide)

end Scarab.Phase
