import Scarab.Prefetcher.Common.UpdateCore

/-! # What the atomic steps do to the queues

Every step is inverted once. The rules say which fields change, and what is logged. -/

namespace Scarab.Common

variable {τ : Type} {p : PrefParams} {env : Env τ}

@[simp] theorem log_queue (s : PrefState τ) (e : QueueEvent) : (s.log e).queue = s.queue := rfl
@[simp] theorem log_history (s : PrefState τ) (e : QueueEvent) :
    (s.log e).history = s.history ++ [e] := rfl
@[simp] theorem setQueue_self (s : PrefState τ) (id : QueueId) (q : ReqQueue) :
    (s.setQueue id q).queue id = q := by
  simp [PrefState.setQueue]
@[simp] theorem setQueue_ne (s : PrefState τ) {id id' : QueueId} (q : ReqQueue) (h : id' ≠ id) :
    (s.setQueue id q).queue id' = s.queue id' := by
  simp [PrefState.setQueue, Function.update_of_ne h]
@[simp] theorem advance_history (s : PrefState τ) (id : QueueId) :
    (s.advance p id).history = s.history := rfl
@[simp] theorem advance_slots (s : PrefState τ) (id id' : QueueId) :
    ((s.advance p id).queue id').slots = (s.queue id').slots := by
  by_cases h : id' = id
  · subst h
    simp [PrefState.advance, ReqQueue.advance]
  · simp [PrefState.advance, h]

theorem nextReqPos_lt (qp : QueueParams) (q : ReqQueue) : q.nextReqPos qp < qp.size := by
  have hpos := qp.size_pos
  have hlt := Int.emod_lt_of_pos (q.reqPos + 1) (b := qp.size) (by omega)
  unfold ReqQueue.nextReqPos
  omega

/-! ## What a slot holds -/

/-- The pending request of a slot. -/
def ReqQueue.holds (q : ReqQueue) (slot : ℕ) : Option PrefMemReq :=
  if (q.slots slot).valid then some (q.slots slot) else none

theorem ReqQueue.holds_of_valid {q : ReqQueue} {slot : ℕ} (h : (q.slots slot).valid = true) :
    q.holds slot = some (q.slots slot) := if_pos h

theorem ReqQueue.holds_insert (qp : QueueParams) (q : ReqQueue) {newReq : PrefMemReq}
    (hvalid : newReq.valid = true) (slot : ℕ) :
    (q.insert qp newReq).holds slot =
      if q.nextReqPos qp = slot then some newReq else q.holds slot := by
  by_cases hs : q.nextReqPos qp = slot
  · subst hs
    simp [holds, insert, hvalid]
  · simp [holds, insert, hs, Function.update_of_ne (Ne.symm hs)]

theorem ReqQueue.holds_invalidate (q : ReqQueue) (ii slot : ℕ) :
    (q.invalidate ii).holds slot = if ii = slot then none else q.holds slot := by
  by_cases hs : ii = slot
  · subst hs
    simp [holds, invalidate]
  · simp [holds, invalidate, hs, Function.update_of_ne (Ne.symm hs)]

/-! ## Adding and cancelling -/

/-- The three ways through an add. -/
theorem addTo_cases (qp : QueueParams) (q : ReqQueue) (newReq : PrefMemReq) :
    (addTo qp q newReq = (.zeroLine, q) ∧ newReq.lineIndex = 0) ∨
      (addTo qp q newReq = (.matched, q) ∧ newReq.lineIndex ≠ 0 ∧ qp.addFilterOn = true ∧
        q.Matches qp newReq.lineIndex) ∨
      (newReq.lineIndex ≠ 0 ∧ ¬ (qp.addFilterOn = true ∧ q.Matches qp newReq.lineIndex) ∧
        ((addTo qp q newReq = (.full, q) ∧ (q.slots (q.nextReqPos qp)).valid = true ∧
            qp.overwriteOnFull = false) ∨
          (addTo qp q newReq = (.inserted, q.insert qp newReq) ∧
            ((q.slots (q.nextReqPos qp)).valid = false ∨ qp.overwriteOnFull = true)))) := by
  unfold addTo
  by_cases hzero : newReq.lineIndex = 0
  · exact .inl ⟨by rw [if_pos hzero], hzero⟩
  · right
    by_cases hmatch : qp.addFilterOn = true ∧ q.Matches qp newReq.lineIndex
    · exact .inl ⟨by rw [if_neg hzero, if_pos hmatch], hzero, hmatch⟩
    · right
      refine ⟨hzero, hmatch, ?_⟩
      rw [if_neg hzero, if_neg hmatch]
      by_cases hfull : (q.slots (q.nextReqPos qp)).valid = true ∧ qp.overwriteOnFull = false
      · exact .inl ⟨by rw [if_pos hfull], hfull⟩
      · refine .inr ⟨by rw [if_neg hfull], ?_⟩
        cases hv : (q.slots (q.nextReqPos qp)).valid with
        | false => exact .inl rfl
        | true => exact .inr (by simpa [hv] using hfull)

/-- An add changes nothing, or it inserts the request. -/
theorem addToQueue_spec (s : PrefState τ) (id : QueueId) (newReq : PrefMemReq) :
    (addToQueue p s id newReq).2 = s ∨
      (addToQueue p s id newReq = (true,
        (s.setQueue id ((s.queue id).insert (p.queue id) newReq)).log
          (.inserted id ((s.queue id).nextReqPos (p.queue id)) newReq))) := by
  rcases addTo_cases (p.queue id) (s.queue id) newReq with
    ⟨h, _⟩ | ⟨h, _⟩ | ⟨_, _, ⟨h, _⟩ | ⟨h, _⟩⟩
  · exact .inl (by simp [addToQueue, h])
  · exact .inl (by simp [addToQueue, h])
  · exact .inl (by simp [addToQueue, h])
  · exact .inr (by simp [addToQueue, h, AddOutcome.flag])

theorem addToQueue_history (s : PrefState τ) (id : QueueId) (newReq : PrefMemReq) :
    ∃ mid, (addToQueue p s id newReq).2.history = s.history ++ mid := by
  rcases addToQueue_spec (p := p) s id newReq with hsame | hins
  · exact ⟨[], by simp [hsame]⟩
  · exact ⟨_, by rw [hins]; rfl⟩

/-- An add that answers FALSE found the ring full, and changes nothing. -/
theorem addToQueue_of_false {s : PrefState τ} {id : QueueId} {newReq : PrefMemReq}
    (h : (addToQueue p s id newReq).1 = false) :
    ((s.queue id).slots ((s.queue id).nextReqPos (p.queue id))).valid = true ∧
      (p.queue id).overwriteOnFull = false ∧ (addToQueue p s id newReq).2 = s := by
  rcases addTo_cases (p.queue id) (s.queue id) newReq with
    ⟨hadd, _⟩ | ⟨hadd, _⟩ | ⟨_, _, ⟨hadd, hvalid, hover⟩ | ⟨hadd, _⟩⟩
  · simp [addToQueue, hadd, AddOutcome.flag] at h
  · simp [addToQueue, hadd, AddOutcome.flag] at h
  · exact ⟨hvalid, hover, by simp [addToQueue, hadd]⟩
  · simp [addToQueue, hadd, AddOutcome.flag] at h

/-- A demand filter changes nothing, or it cancels a valid request. -/
theorem queueFilter_spec (s : PrefState τ) (id : QueueId) (lineAddr : Addr) :
    (queueFilter p s id lineAddr).2 = s ∨
      ∃ ii < (p.queue id).size, ((s.queue id).slots ii).valid = true ∧
        queueFilter p s id lineAddr = (true,
          (s.setQueue id ((s.queue id).invalidate ii)).log (.cancelled id ii ((s.queue id).slots ii))) := by
  unfold queueFilter
  simp only
  split
  · cases hf : filterSlot p (p.queue id) (s.queue id) lineAddr with
    | none => exact .inl rfl
    | some ii =>
        right
        have hmem := List.mem_of_find?_eq_some hf
        have hsat := List.find?_some hf
        simp only [Bool.and_eq_true] at hsat
        exact ⟨ii, by simpa using hmem, hsat.1, rfl⟩
  · exact .inl rfl

/-! ## Sending -/

/-- One turn of the DL0 loop. -/
inductive Dl0Spec (p : PrefParams) (env : Env τ) (procId : Uns8) (s : PrefState τ) :
    PrefState τ → Prop where
  | skipped (hvalid : ((s.queue .dl0req).slots (s.queue .dl0req).sendPos).valid = false) :
      Dl0Spec p env procId s (s.advance p .dl0req)
  | stalled (e : τ) : Dl0Spec p env procId s { s with env := e }
  | hit (e : τ) (hvalid : ((s.queue .dl0req).slots (s.queue .dl0req).sendPos).valid = true) :
      Dl0Spec p env procId s
        ((PrefState.log { s with env := e } (.dl0 (s.queue .dl0req).sendPos
          ((s.queue .dl0req).slots (s.queue .dl0req).sendPos) .hit)).advance p .dl0req)
  | forwarded (e : τ) (newReq : PrefMemReq) (hnew : newReq.valid = true)
      (hvalid : ((s.queue .dl0req).slots (s.queue .dl0req).sendPos).valid = true)
      (hok : (addToQueue p { s with env := e } .ul1req newReq).1 = true) :
      Dl0Spec p env procId s
        (((addToQueue p { s with env := e } .ul1req newReq).2.log (.dl0 (s.queue .dl0req).sendPos
          ((s.queue .dl0req).slots (s.queue .dl0req).sendPos) .forwarded)).advance p .dl0req)
  | refused (e : τ) (newReq : PrefMemReq) (hnew : newReq.valid = true)
      (hvalid : ((s.queue .dl0req).slots (s.queue .dl0req).sendPos).valid = true)
      (hok : (addToQueue p { s with env := e } .ul1req newReq).1 = false) :
      Dl0Spec p env procId s
        ((addToQueue p { s with env := e } .ul1req newReq).2.log (.dl0 (s.queue .dl0req).sendPos
          ((s.queue .dl0req).slots (s.queue .dl0req).sendPos) .refused))

theorem dl0Turn_spec {procId : Uns8} {s s' : PrefState τ} (h : dl0Turn p env procId s = .ok s') :
    Dl0Spec p env procId s s' := by
  unfold dl0Turn at h
  simp only at h
  split at h
  · rename_i hvalid
    split at h
    · split at h
      · split at h
        · cases h
          exact .hit _ hvalid
        · split at h
          · rename_i hok
            cases h
            exact .forwarded _ _ rfl hvalid hok
          · rename_i hok
            cases h
            exact .refused _ _ rfl hvalid (eq_false_of_ne_true hok)
      · cases h
        exact .stalled _
    · cases h
  · rename_i hvalid
    cases h
    exact .skipped (by simpa using hvalid)

/-- One turn of the UMLC or the UL1 loop. -/
inductive SendSpec (p : PrefParams) (env : Env τ) (id : QueueId) (s : PrefState τ) :
    PrefState τ → Prop where
  | skipped (hvalid : ((s.queue id).slots (s.queue id).sendPos).valid = false) :
      SendSpec p env id s (s.advance p id)
  | stalled (e : τ) : SendSpec p env id s { s with env := e }
  | dropped (hvalid : ((s.queue id).slots (s.queue id).sendPos).valid = true) :
      SendSpec p env id s
        ((s.setQueue id ((s.queue id).invalidate (s.queue id).sendPos)).log
          (.dropped id (s.queue id).sendPos ((s.queue id).slots (s.queue id).sendPos)))
  | sent (e : τ) (hvalid : ((s.queue id).slots (s.queue id).sendPos).valid = true) :
      SendSpec p env id s
        (((PrefState.setQueue { s with env := e } id
            ((s.queue id).invalidate (s.queue id).sendPos)).log
          (.sent id (s.queue id).sendPos ((s.queue id).slots (s.queue id).sendPos))).advance p id)

theorem sendTurn_spec {id : QueueId} {s s' : PrefState τ} {stop : Bool}
    (h : sendTurn p env id s = .ok (s', stop)) : SendSpec p env id s s' := by
  unfold sendTurn at h
  simp only at h
  split at h
  · rename_i hvalid
    split at h
    · split at h
      · split at h
        · cases h
          exact .dropped hvalid
        · cases h
          exact .stalled s.env
      · split at h
        · split at h
          · cases h
            exact .sent _ hvalid
          · cases h
            exact .stalled _
        · -- without a memory model nothing is sent
          cases h
          exact .stalled s.env
    · cases h
  · rename_i hvalid
    cases h
    exact .skipped (by simpa using hvalid)

end Scarab.Common
