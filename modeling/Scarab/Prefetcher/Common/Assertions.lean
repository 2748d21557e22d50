import Scarab.Prefetcher.Common.Ring

/-! # The assertions of `pref_update_core`

Every request is asserted to carry its core in the top bits of its line. If the requests
of the UMLC and the UL1 queue do, and none waits for the data cache, an update goes through,
and leaves it so. -/

namespace Scarab.Common

variable {τ : Type} {p : PrefParams} {env : Env τ}

/-- Nothing waits for the data cache, and what waits for the memory carries its core. -/
structure Passes (s : PrefState τ) : Prop where
  dl0 : ∀ slot, ((s.queue .dl0req).slots slot).valid = false
  own : ∀ id slot, ((s.queue id).slots slot).valid = true →
    OfCore ((s.queue id).slots slot).procId ((s.queue id).slots slot).lineAddr

theorem Initial.passes {s : PrefState τ} (h : Initial s) : Passes s := by
  constructor
  · intro slot
    rw [h.1]
    rfl
  · intro id slot hvalid
    rw [h.1] at hvalid
    cases hvalid

/-- Slots that stay as they are or lose their request still pass. -/
theorem Passes.of_slots {s s' : PrefState τ} (h : Passes s)
    (hslots : ∀ id slot, (s'.queue id).slots slot = (s.queue id).slots slot ∨
      ((s'.queue id).slots slot).valid = false) : Passes s' := by
  constructor
  · intro slot
    cases hslots .dl0req slot with
    | inl hsame =>
        rw [hsame]
        exact h.dl0 slot
    | inr hempty => exact hempty
  · intro id slot hvalid
    cases hslots id slot with
    | inl hsame =>
        rw [hsame] at hvalid ⊢
        exact h.own id slot hvalid
    | inr hempty =>
        rw [hempty] at hvalid
        cases hvalid

theorem Passes.advance {s : PrefState τ} (h : Passes s) (id : QueueId) : Passes (s.advance p id) :=
  h.of_slots fun _ _ => .inl (by rw [advance_slots])

theorem Passes.invalidate {s : PrefState τ} (h : Passes s) (id : QueueId) (ii : ℕ) :
    Passes (s.setQueue id ((s.queue id).invalidate ii)) := by
  apply h.of_slots
  intro id' slot
  by_cases hid : id' = id
  · subst hid
    by_cases hs : slot = ii
    · subst hs
      exact .inr (by simp)
    · exact .inl (by simp [slots_invalidate_of_ne _ hs])
  · exact .inl (by simp [hid])

/-- A request for the UL1 queue that carries its core may come in. -/
theorem Passes.add {s : PrefState τ} (h : Passes s) {newReq : PrefMemReq}
    (hcore : OfCore newReq.procId newReq.lineAddr) : Passes (addToQueue p s .ul1req newReq).2 := by
  cases addToQueue_spec (p := p) s .ul1req newReq with
  | inl hsame => rwa [hsame]
  | inr hins =>
      rw [hins]
      constructor
      · intro slot
        simpa using h.dl0 slot
      · intro id slot hvalid
        by_cases hid : id = .ul1req
        · subst hid
          by_cases hs : slot = (s.queue .ul1req).nextReqPos (p.queue .ul1req)
          · subst hs
            simpa using hcore
          · simp only [log_queue, setQueue_self, slots_insert_of_ne _ _ _ hs] at hvalid ⊢
            exact h.own .ul1req slot hvalid
        · simp only [log_queue, setQueue_ne _ _ hid] at hvalid ⊢
          exact h.own id slot hvalid

theorem Passes.filter {s : PrefState τ} (h : Passes s) (id : QueueId) (lineAddr : Addr) :
    Passes (queueFilter p s id lineAddr).2 := by
  cases queueFilter_spec (p := p) s id lineAddr with
  | inl hsame => rwa [hsame]
  | inr hcancel =>
      obtain ⟨ii, _, _, heq⟩ := hcancel
      rw [heq]
      exact (h.invalidate id ii).of_slots fun _ _ => .inl rfl

/-! ## Updates -/

variable (p env)

theorem Passes.dl0Loop {s : PrefState τ} (h : Passes s) (procId : Uns8) (n : ℕ) :
    ∃ s', dl0Loop p env procId n s = .ok s' ∧ Passes s' := by
  induction n generalizing s with
  | zero => exact ⟨s, rfl, h⟩
  | succ n ih =>
      have hturn : dl0Turn p env procId s = .ok (s.advance p .dl0req) := by
        unfold dl0Turn
        simp only [h.dl0]
        rfl
      obtain ⟨s', hloop, hs'⟩ := ih (h.advance .dl0req)
      refine ⟨s', ?_, hs'⟩
      rw [Common.dl0Loop, hturn]
      exact hloop

/-- The assertion holds, so a turn goes through. -/
theorem Passes.sendTurn_ok {s : PrefState τ} (h : Passes s) (id : QueueId) :
    ∃ out, sendTurn p env id s = .ok out := by
  unfold sendTurn
  simp only
  split
  · rename_i hvalid
    rw [if_pos (h.own id _ hvalid)]
    split
    · split <;> exact ⟨_, rfl⟩
    · split <;> split <;> exact ⟨_, rfl⟩
  · exact ⟨_, rfl⟩

theorem Passes.sendTurn {s s' : PrefState τ} {stop : Bool} {id : QueueId} (h : Passes s)
    (hturn : sendTurn p env id s = .ok (s', stop)) : Passes s' := by
  cases sendTurn_spec hturn with
  | skipped => exact h.advance id
  | stalled e => exact h.of_slots fun _ _ => .inl rfl
  | dropped => exact (h.invalidate id (s.queue id).sendPos).of_slots fun _ _ => .inl rfl
  | sent e =>
      apply Passes.advance
      exact (h.invalidate id (s.queue id).sendPos).of_slots fun _ _ => .inl rfl

theorem Passes.sendLoop {s : PrefState τ} (h : Passes s) (id : QueueId) (n : ℕ) :
    ∃ s', sendLoop p env id n s = .ok s' ∧ Passes s' := by
  induction n generalizing s with
  | zero => exact ⟨s, rfl, h⟩
  | succ n ih =>
      obtain ⟨⟨m, stop⟩, hturn⟩ := h.sendTurn_ok p env id
      have hm := h.sendTurn p env hturn
      cases stop with
      | true => exact ⟨m, by rw [Common.sendLoop, hturn]; rfl, hm⟩
      | false =>
          obtain ⟨s', hloop, hs'⟩ := ih hm
          exact ⟨s', by rw [Common.sendLoop, hturn]; exact hloop, hs'⟩

/-- An update goes through. -/
theorem Passes.update {s : PrefState τ} (h : Passes s) (procId : Uns8) :
    ∃ s', prefUpdateCore p env procId s = .ok s' ∧ Passes s' := by
  obtain ⟨s₁, h₁, hs₁⟩ := h.dl0Loop p env procId (p.queue .dl0req).scheduleNum
  obtain ⟨s₂, h₂, hs₂⟩ := hs₁.sendLoop p env .umlcReq (p.queue .umlcReq).scheduleNum
  obtain ⟨s₃, h₃, hs₃⟩ := hs₂.sendLoop p env .ul1req (p.queue .ul1req).scheduleNum
  refine ⟨s₃, ?_, hs₃⟩
  unfold prefUpdateCore
  rw [h₁]
  show Common.sendLoop p env .umlcReq _ s₁ >>= _ = _
  rw [h₂]
  exact h₃

end Scarab.Common
