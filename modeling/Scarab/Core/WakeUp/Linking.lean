import Scarab.Core.WakeUp.Firing

/-! # Linking one source

What `add_to_wake_up_lists` does for one source of an op: it appends an entry to the list of
the producer, if there is one, and clears the bit if there is none or if it has fired. -/

namespace Scarab.WakeUp

open Map (DepType)

variable {obeyRegDep : Bool} {s s' : State} {p q : OpPtr} {src : SrcInfo} {ii : ℕ}

theorem producer_eq_some (h : s.producer obeyRegDep src = some q) :
    src.op = some q ∧ (s.ops q).valid = true ∧ (s.ops q).uniqueNum = src.uniqueNum := by
  unfold State.producer at h
  split at h
  · obtain ⟨hop, hq⟩ := Option.filter_eq_some_iff.mp h
    simp only [Bool.and_eq_true, beq_iff_eq] at hq
    exact ⟨hop, hq⟩
  · cases h

/-- The source is ready at once: its producer is gone, or has fired. -/
def State.srcReady (s : State) (type : DepType) : Option OpPtr → Bool
  | none => true
  | some q => (s.ops q).wakeUpSignaled type

/-- The producer that wakes the source at once. -/
def State.lateWaker (s : State) (type : DepType) : Option OpPtr → List ℕ
  | none => []
  | some q => if (s.ops q).wakeUpSignaled type = true then [(s.ops q).uniqueNum] else []

/-- What one source has changed. -/
structure Linked (p : OpPtr) (src : SrcInfo) (ii : ℕ) (producer : Option OpPtr) (s s' : State) :
    Prop where
  uniqueCount : s'.uniqueCount = s.uniqueCount
  ops : ∀ d, s'.ops d = { s.ops d with
    srcInfo := if d = p ∧ producer = none then (s.ops d).srcInfo.set ii src.gone
      else (s.ops d).srcInfo
    srcsNotRdyVector := if d = p ∧ s.srcReady src.type producer = true then
      (s.ops d).srcsNotRdyVector &&& ~~~(1#32 <<< ii) else (s.ops d).srcsNotRdyVector
    wakeUpList := (s.ops d).wakeUpList ++
      if producer = some d then [⟨p, (s.ops p).uniqueNum, src.type, ii⟩] else []
    linked := if d = p then ii + 1 else (s.ops d).linked }
  log : s'.log = s.log ++ if s.srcReady src.type producer = true then
      .cleared (s.ops p).uniqueNum ii ::
        (s.lateWaker src.type producer).map fun v => .woken v (s.ops p).uniqueNum ii
    else []

theorem linkSource_spec (h : s.linkSource obeyRegDep p (src, ii) = .ok s') :
    Linked p src ii (s.producer obeyRegDep src) s s' := by
  unfold State.linkSource at h
  cases hprod : s.producer obeyRegDep src with
  | none =>
      simp only [hprod] at h
      obtain ⟨s₁, hclear, hret⟩ := Execution.bind_eq_ok.mp h
      obtain ⟨_, hclear⟩ := Execution.ite_error_eq_ok.mp hclear
      cases hclear
      cases hret
      refine ⟨rfl, fun d => ?_, ?_⟩
      · by_cases hd : d = p
        · subst hd
          simp [State.srcReady]
        · simp [ops_setOp_of_ne _ hd, hd]
      · simp [State.srcReady, State.lateWaker]
  | some q =>
      simp only [hprod] at h
      by_cases hsig : (s.ops q).wakeUpSignaled src.type = true
      · rw [if_pos hsig] at h
        obtain ⟨s₁, hclear, hret⟩ := Execution.bind_eq_ok.mp h
        obtain ⟨_, hclear⟩ := Execution.ite_error_eq_ok.mp hclear
        cases hclear
        cases hret
        refine ⟨rfl, fun d => ?_, ?_⟩
        · by_cases hd : d = p
          · subst hd
            by_cases hq : q = d
            · subst hq
              simp [State.srcReady, State.wakeAction, hsig]
            · have hq' : d ≠ q := fun heq => hq heq.symm
              simp [State.srcReady, State.wakeAction, hsig, hq, ops_setOp_of_ne _ hq']
          · by_cases hq : q = d
            · subst hq
              simp [State.wakeAction, ops_setOp_of_ne _ hd, hd]
            · have hq' : d ≠ q := fun heq => hq heq.symm
              simp [State.wakeAction, ops_setOp_of_ne _ hd, ops_setOp_of_ne _ hq', hd, hq]
        · by_cases hq : q = p
          · subst hq
            simp [State.srcReady, State.lateWaker, State.wakeAction, hsig]
          · have hq' : p ≠ q := fun heq => hq heq.symm
            simp [State.srcReady, State.lateWaker, State.wakeAction, hsig, ops_setOp_of_ne _ hq,
              ops_setOp_of_ne _ hq']
      · rw [if_neg hsig] at h
        cases h
        refine ⟨rfl, fun d => ?_, ?_⟩
        · by_cases hd : d = p
          · subst hd
            by_cases hq : q = d
            · subst hq
              simp [State.srcReady, hsig]
            · have hq' : d ≠ q := fun heq => hq heq.symm
              simp [State.srcReady, hsig, hq, ops_setOp_of_ne _ hq']
          · by_cases hq : q = d
            · subst hq
              simp [ops_setOp_of_ne _ hd, hd]
            · have hq' : d ≠ q := fun heq => hq heq.symm
              simp [ops_setOp_of_ne _ hd, ops_setOp_of_ne _ hq', hd, hq]
        · simp [State.srcReady, hsig]

/-- The history of the source, and of every other one. -/
theorem Linked.history {producer : Option OpPtr} (h : Linked p src ii producer s s') :
    (∀ u type, s'.Fired u type ↔ s.Fired u type) ∧
      (∀ u i, ¬ (u = (s.ops p).uniqueNum ∧ i = ii) →
        s'.clears u i = s.clears u i ∧ s'.wakers u i = s.wakers u i) ∧
      s'.clears (s.ops p).uniqueNum ii = s.clears (s.ops p).uniqueNum ii +
        (if s.srcReady src.type producer = true then 1 else 0) ∧
      s'.wakers (s.ops p).uniqueNum ii =
        s.wakers (s.ops p).uniqueNum ii ++ s.lateWaker src.type producer := by
  have hlog := h.log
  cases hprod : producer with
  | none =>
      rw [hprod] at hlog
      obtain ⟨hfired, hclears, hwakers⟩ := history_cleared (v := (s.ops p).uniqueNum) (b := ii) hlog
      refine ⟨hfired, fun u i hne => ?_, ?_, ?_⟩
      · rw [hclears, hwakers, if_neg hne]
        simp
      · rw [hclears]
        simp [State.srcReady]
      · rw [hwakers]
        simp [State.lateWaker]
  | some q =>
      rw [hprod] at hlog
      by_cases hsig : (s.ops q).wakeUpSignaled src.type = true
      · simp only [State.srcReady, State.lateWaker, hsig, if_true, List.map_cons, List.map_nil] at hlog
        obtain ⟨hfired, hclears, hwakers⟩ := history_woken hlog
        refine ⟨hfired, fun u i hne => ?_, ?_, ?_⟩
        · rw [hclears, hwakers, if_neg hne, if_neg hne]
          simp
        · rw [hclears]
          simp [State.srcReady, hsig]
        · rw [hwakers]
          simp [State.lateWaker, hsig]
      · have hnot : s.srcReady src.type (some q) = false := by simpa [State.srcReady] using hsig
        simp only [hnot, Bool.false_eq_true, if_false, List.append_nil] at hlog
        obtain ⟨hfired, hclears, hwakers⟩ := history_congr hlog
        refine ⟨hfired, fun u i _ => ⟨hclears u i, hwakers u i⟩, ?_, ?_⟩
        · rw [hclears]
          simp [State.srcReady, hsig]
        · rw [hwakers]
          simp [State.lateWaker, hsig]

namespace Linked

variable {producer : Option OpPtr} {d : OpPtr} {i : ℕ}

theorem valid (h : Linked p src ii producer s s') (d : OpPtr) : (s'.ops d).valid = (s.ops d).valid := by
  rw [h.ops]

theorem uniqueNum (h : Linked p src ii producer s s') (d : OpPtr) :
    (s'.ops d).uniqueNum = (s.ops d).uniqueNum := by
  rw [h.ops]

theorem current (h : Linked p src ii producer s s') (e : WakeUpEntry) : s'.Current e ↔ s.Current e := by
  rw [State.Current, State.Current, h.uniqueNum, h.valid]

/-- The bit of the source is cleared if the source is ready. -/
theorem notRdy (h : Linked p src ii producer s s') (d : OpPtr) (i : ℕ) :
    s'.notRdy d i = (s.notRdy d i && !decide (d = p ∧ s.srcReady src.type producer = true ∧ i = ii)) := by
  simp only [State.notRdy, h.ops]
  by_cases hready : d = p ∧ s.srcReady src.type producer = true
  · rw [if_pos hready, getLsbD_clear]
    simp [hready.1, hready.2]
  · rw [if_neg hready, decide_eq_false fun hall => hready ⟨hall.1, hall.2.1⟩]
    simp

/-- The sources of before are the same, except the one that is linked now. -/
theorem srcInfo_other (h : Linked p src ii producer s s') (hne : ¬ (d = p ∧ i = ii)) :
    (s'.ops d).srcInfo[i]? = (s.ops d).srcInfo[i]? := by
  rw [h.ops]
  by_cases hset : d = p ∧ producer = none
  · have hi : ii ≠ i := fun heq => hne ⟨hset.1, heq.symm⟩
    simp [hset, List.getElem?_set_ne hi]
  · simp [hset]

theorem srcInfo_self (h : Linked p src ii producer s s') (hat : (s.ops p).srcInfo[ii]? = some src) :
    (s'.ops p).srcInfo[ii]? = some (if producer = none then src.gone else src) := by
  have hlen : ii < (s.ops p).srcInfo.length := (List.getElem?_eq_some_iff.mp hat).1
  rw [h.ops]
  by_cases hnone : producer = none
  · simp [hnone, List.getElem?_set_self hlen]
  · simp [hnone, hat]

theorem length_srcInfo (h : Linked p src ii producer s s') (d : OpPtr) :
    (s'.ops d).srcInfo.length = (s.ops d).srcInfo.length := by
  rw [h.ops]
  by_cases hset : d = p ∧ producer = none
  · simp [hset]
  · simp [hset]

theorem linked_self (h : Linked p src ii producer s s') : (s'.ops p).linked = ii + 1 := by
  rw [h.ops]
  simp

theorem linked_other (h : Linked p src ii producer s s') (hd : d ≠ p) : (s'.ops d).linked = (s.ops d).linked := by
  rw [h.ops]
  simp [hd]

theorem lt_linked (h : Linked p src ii producer s s') (hii : (s.ops p).linked = ii) (hne : ¬ (d = p ∧ i = ii)) :
    i < (s'.ops d).linked ↔ i < (s.ops d).linked := by
  by_cases hd : d = p
  · subst hd
    have hi : i ≠ ii := fun heq => hne ⟨rfl, heq⟩
    rw [h.linked_self]
    omega
  · rw [h.linked_other hd]

theorem mem_wakeUpList (h : Linked p src ii producer s s') (q : OpPtr) (e : WakeUpEntry) :
    e ∈ (s'.ops q).wakeUpList ↔ e ∈ (s.ops q).wakeUpList ∨
      producer = some q ∧ e = ⟨p, (s.ops p).uniqueNum, src.type, ii⟩ := by
  rw [h.ops]
  by_cases hq : producer = some q <;> simp [hq]

end Linked

end Scarab.WakeUp
