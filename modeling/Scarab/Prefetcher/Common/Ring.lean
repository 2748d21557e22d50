import Scarab.Lib.Cyclic
import Scarab.Lib.History
import Scarab.Prefetcher.Common.Equations

/-! # One ring

The UMLC and the UL1 queue, each seen alone: the ring together with its part of the
history, and the five things that the steps of the core do to it. -/

namespace Scarab.Common

/-- Whether an event is about a queue. -/
def QueueEvent.on (id : QueueId) : QueueEvent → Bool
  | .inserted id' _ _ => id' = id
  | .cancelled id' _ _ => id' = id
  | .dl0 _ _ _ => id = .dl0req
  | .sent id' _ _ => id' = id
  | .dropped id' _ _ => id' = id

/-- A ring and what happened to it, oldest first. -/
structure Ring where
  q : ReqQueue
  trail : List QueueEvent

variable {τ : Type}

def PrefState.ring (s : PrefState τ) (id : QueueId) : Ring :=
  ⟨s.queue id, s.history.filter (·.on id)⟩

/-- The steps of a ring whose requests go to the memory. -/
inductive RingStep (qp : QueueParams) (id : QueueId) (r : Ring) : Ring → Prop where
  | insert (newReq : PrefMemReq) (hvalid : newReq.valid = true)
      (hnew : ¬ (qp.addFilterOn = true ∧ r.q.Matches qp newReq.lineIndex))
      (hfree : (r.q.slots (r.q.nextReqPos qp)).valid = false ∨ qp.overwriteOnFull = true) :
      RingStep qp id r
        ⟨r.q.insert qp newReq, r.trail ++ [.inserted id (r.q.nextReqPos qp) newReq]⟩
  | cancel (ii : ℕ) (hlt : ii < qp.size) (hvalid : (r.q.slots ii).valid = true) :
      RingStep qp id r ⟨r.q.invalidate ii, r.trail ++ [.cancelled id ii (r.q.slots ii)]⟩
  | skip (hvalid : (r.q.slots r.q.sendPos).valid = false) :
      RingStep qp id r ⟨r.q.advance qp, r.trail⟩
  | drop (hvalid : (r.q.slots r.q.sendPos).valid = true) :
      RingStep qp id r
        ⟨r.q.invalidate r.q.sendPos, r.trail ++ [.dropped id r.q.sendPos (r.q.slots r.q.sendPos)]⟩
  | send (hvalid : (r.q.slots r.q.sendPos).valid = true) :
      RingStep qp id r
        ⟨(r.q.invalidate r.q.sendPos).advance qp,
          r.trail ++ [.sent id r.q.sendPos (r.q.slots r.q.sendPos)]⟩

variable {p : PrefParams} {env : Env τ} {id : QueueId}

/-! ## The steps of the core -/

/-- Logging an event of another queue does not show. -/
theorem ring_log_other (s : PrefState τ) {e : QueueEvent} (he : e.on id = false) :
    (s.log e).ring id = s.ring id := by
  simp [PrefState.ring, List.filter_append, he]

theorem ring_setQueue_log (s : PrefState τ) (q : ReqQueue) {e : QueueEvent} (he : e.on id = true) :
    ((s.setQueue id q).log e).ring id = ⟨q, (s.ring id).trail ++ [e]⟩ := by
  simp [PrefState.ring, PrefState.setQueue, List.filter_append, he]

theorem ring_setQueue_log_other (s : PrefState τ) {id' : QueueId} (hne : id ≠ id') (q : ReqQueue)
    {e : QueueEvent} (he : e.on id = false) : ((s.setQueue id' q).log e).ring id = s.ring id := by
  rw [ring_log_other _ he]
  simp [PrefState.ring, PrefState.setQueue, Function.update_of_ne hne]

theorem ring_advance (s : PrefState τ) :
    (s.advance p id).ring id = ⟨(s.queue id).advance (p.queue id), (s.ring id).trail⟩ := by
  simp [PrefState.ring, PrefState.advance, PrefState.setQueue]

theorem ring_advance_other (s : PrefState τ) {id' : QueueId} (hne : id ≠ id') :
    (s.advance p id').ring id = s.ring id := by
  simp [PrefState.ring, PrefState.advance, PrefState.setQueue, Function.update_of_ne hne]

/-- An add does nothing to a ring, or it inserts the request. -/
theorem ring_addToQueue_spec (s : PrefState τ) (id' : QueueId) (newReq : PrefMemReq) :
    (addToQueue p s id' newReq).2.ring id = s.ring id ∨
      (¬ ((p.queue id).addFilterOn = true ∧
          (s.queue id).Matches (p.queue id) newReq.lineIndex) ∧
        (((s.queue id).slots ((s.queue id).nextReqPos (p.queue id))).valid = false ∨
          (p.queue id).overwriteOnFull = true) ∧
        (addToQueue p s id' newReq).2.ring id =
          ⟨(s.queue id).insert (p.queue id) newReq, (s.ring id).trail ++
            [.inserted id ((s.queue id).nextReqPos (p.queue id)) newReq]⟩) := by
  rcases addTo_cases (p.queue id') (s.queue id') newReq with
    ⟨h, _⟩ | ⟨h, _⟩ | ⟨_, hnew, ⟨h, _⟩ | ⟨h, hfree⟩⟩
  · exact .inl (by simp [addToQueue, h])
  · exact .inl (by simp [addToQueue, h])
  · exact .inl (by simp [addToQueue, h])
  · have hadd : (addToQueue p s id' newReq).2 =
        (s.setQueue id' ((s.queue id').insert (p.queue id') newReq)).log
          (.inserted id' ((s.queue id').nextReqPos (p.queue id')) newReq) := by
      simp [addToQueue, h]
    rw [hadd]
    by_cases hid : id' = id
    · subst hid
      exact .inr ⟨hnew, hfree, ring_setQueue_log _ _ (by simp [QueueEvent.on])⟩
    · exact .inl (ring_setQueue_log_other s (Ne.symm hid) _ (by simp [QueueEvent.on, hid]))

theorem ring_addToQueue (s : PrefState τ) (id' : QueueId) {newReq : PrefMemReq}
    (hvalid : newReq.valid = true) :
    (addToQueue p s id' newReq).2.ring id = s.ring id ∨
      RingStep (p.queue id) id (s.ring id) ((addToQueue p s id' newReq).2.ring id) := by
  rcases @ring_addToQueue_spec _ p id s id' newReq with hsame | ⟨hnew, hfree, hins⟩
  · exact .inl hsame
  · rw [hins]
    exact .inr (.insert newReq hvalid hnew hfree)

/-- Each step of the core does at most one thing to a ring. -/
theorem Step.ring (hid : id ≠ .dl0req) {s s' : PrefState τ} (h : Step p env s s') :
    s'.ring id = s.ring id ∨ RingStep (p.queue id) id (s.ring id) (s'.ring id) := by
  have hdl0 : ∀ slot req result, (QueueEvent.dl0 slot req result).on id = false := by
    intro slot req result
    simp [QueueEvent.on, hid]
  cases h with
  | add id' newReq hvalid => exact ring_addToQueue s id' hvalid
  | cancel id' lineAddr =>
      rcases queueFilter_spec (p := p) s id' lineAddr with hsame | ⟨ii, hlt, hvalid, hcan⟩
      · exact .inl (by rw [hsame])
      · rw [hcan]
        by_cases hne : id' = id
        · subst hne
          rw [ring_setQueue_log _ _ (by simp [QueueEvent.on])]
          exact .inr (.cancel ii hlt hvalid)
        · exact .inl (ring_setQueue_log_other s (Ne.symm hne) _ (by simp [QueueEvent.on, hne]))
  | dl0 hturn =>
      cases dl0Turn_spec hturn with
      | skipped hvalid => exact .inl (ring_advance_other s hid)
      | stalled e => exact .inl rfl
      | hit e hvalid =>
          left
          rw [ring_advance_other _ hid, ring_log_other _ (hdl0 _ _ _)]
          rfl
      | forwarded e newReq hnew hvalid hok =>
          rw [ring_advance_other _ hid, ring_log_other _ (hdl0 _ _ _)]
          exact ring_addToQueue { s with env := e } .ul1req hnew
      | refused e newReq hnew hvalid hok =>
          rw [ring_log_other _ (hdl0 _ _ _)]
          exact ring_addToQueue { s with env := e } .ul1req hnew
  | @send _ id' stop _ hturn =>
      by_cases hne : id' = id
      · subst hne
        cases sendTurn_spec hturn with
        | skipped hvalid => exact .inr (by rw [ring_advance]; exact .skip hvalid)
        | stalled e => exact .inl rfl
        | dropped hvalid =>
            rw [ring_setQueue_log _ _ (by simp [QueueEvent.on])]
            exact .inr (.drop hvalid)
        | sent e hvalid =>
            rw [ring_advance, ring_setQueue_log _ _ (by simp [QueueEvent.on])]
            simp only [log_queue, setQueue_self]
            exact .inr (.send hvalid)
      · have hne' : id ≠ id' := Ne.symm hne
        left
        cases sendTurn_spec hturn with
        | skipped hvalid => exact ring_advance_other s hne'
        | stalled e => rfl
        | dropped hvalid =>
            exact ring_setQueue_log_other s hne' _ (by simp [QueueEvent.on, hne])
        | sent e hvalid =>
            rw [ring_advance_other _ hne',
              ring_setQueue_log_other _ hne' _ (by simp [QueueEvent.on, hne])]
            rfl
  | others e => exact .inl rfl

/-- The ring after `pref_core_init`. -/
def Ring.init : Ring := ⟨.init, []⟩

theorem Initial.ring {s : PrefState τ} (h : Initial s) : s.ring id = .init := by
  simp [PrefState.ring, Ring.init, h.1, h.2]

/-- What holds of a new ring, and is kept by the steps that `C` allows, holds of the ring
of a core in every run all of whose steps `C` allows. -/
theorem ring_invariant (hid : id ≠ .dl0req) {C : PrefState τ → PrefState τ → Prop} {I : Ring → Prop}
    (hinit : I .init)
    (hstep : ∀ s s' : PrefState τ, I (s.ring id) → C s s' →
      RingStep (p.queue id) id (s.ring id) (s'.ring id) → I (s'.ring id))
    {s : PrefState τ}
    (h : Execution.Visited Initial (fun s s' => Step p env s s' ∧ C s s') s) : I (s.ring id) := by
  refine Execution.Visited.invariant (I := fun s => I (s.ring id)) ?_ ?_ h
  · intro s hs
    rw [hs.ring]
    exact hinit
  · rintro s s' hi ⟨hs, hc⟩
    rcases hs.ring hid with hsame | hring
    · rw [hsame]
      exact hi
    · exact hstep s s' hi hc hring

/-! ## The slots -/

section

variable (qp : QueueParams) (q : ReqQueue)

@[simp] theorem insert_sendPos (newReq : PrefMemReq) :
    (q.insert qp newReq).sendPos = q.sendPos := rfl
@[simp] theorem invalidate_sendPos (ii : ℕ) : (q.invalidate ii).sendPos = q.sendPos := rfl
@[simp] theorem advance_sendPos : (q.advance qp).sendPos = (q.sendPos + 1) % qp.size := rfl
@[simp] theorem slots_advance : (q.advance qp).slots = q.slots := rfl

@[simp] theorem nextReqPos_invalidate (ii : ℕ) :
    (q.invalidate ii).nextReqPos qp = q.nextReqPos qp := rfl
@[simp] theorem nextReqPos_advance : (q.advance qp).nextReqPos qp = q.nextReqPos qp := rfl
@[simp] theorem nextReqPos_insert (newReq : PrefMemReq) :
    (q.insert qp newReq).nextReqPos qp = (q.nextReqPos qp + 1) % qp.size := by
  have hcast : ((q.nextReqPos qp : ℤ) + 1) % qp.size = ((q.nextReqPos qp + 1) % qp.size : ℕ) := by
    push_cast
    rfl
  change (((q.nextReqPos qp : ℤ) + 1) % qp.size).toNat = _
  rw [hcast, Int.toNat_natCast]

@[simp] theorem slots_insert_self (newReq : PrefMemReq) :
    (q.insert qp newReq).slots (q.nextReqPos qp) = newReq := by
  simp [ReqQueue.insert]
theorem slots_insert_of_ne (newReq : PrefMemReq) {ii : ℕ} (h : ii ≠ q.nextReqPos qp) :
    (q.insert qp newReq).slots ii = q.slots ii := by
  simp [ReqQueue.insert, h]

@[simp] theorem valid_invalidate_self (ii : ℕ) : ((q.invalidate ii).slots ii).valid = false := by
  simp [ReqQueue.invalidate]
theorem slots_invalidate_of_ne {ii jj : ℕ} (h : jj ≠ ii) :
    (q.invalidate ii).slots jj = q.slots jj := by
  simp [ReqQueue.invalidate, h]
@[simp] theorem lineIndex_invalidate (ii jj : ℕ) :
    ((q.invalidate ii).slots jj).lineIndex = (q.slots jj).lineIndex := by
  by_cases h : jj = ii
  · subst h
    simp [ReqQueue.invalidate]
  · rw [slots_invalidate_of_ne q h]

/-- What is valid after a cancellation was valid before, in another slot. -/
theorem valid_invalidate {ii jj : ℕ} (h : ((q.invalidate ii).slots jj).valid = true) :
    jj ≠ ii ∧ (q.slots jj).valid = true := by
  by_cases hjj : jj = ii
  · subst hjj
    simp at h
  · rw [slots_invalidate_of_ne q hjj] at h
    exact ⟨hjj, h⟩

end

/-- The send position stays on the ring. -/
theorem RingStep.sendPos_lt {qp : QueueParams} {r r' : Ring} (hs : RingStep qp id r r')
    (h : r.q.sendPos < qp.size) : r'.q.sendPos < qp.size := by
  cases hs with
  | insert newReq hvalid hnew hfree => exact h
  | cancel ii hlt hvalid => exact h
  | skip hvalid => exact Cyclic.succ_mod_lt h
  | drop hvalid => exact h
  | send hvalid => exact Cyclic.succ_mod_lt h

end Scarab.Common
