import Scarab.Memory.Joining

/-! # What quiet moves leave

A request that is in use goes through quiet moves as the same request. -/

namespace Scarab.Memory

variable {cfg : Config} {s t : State} {id id' : ℕ} {k : QueueId} {overtakes loop : Prop} {req req' req'' : MemReq}

/-- What quiet moves leave of a request in use, in a loop or between the loops. -/
structure MemReq.Follows (cfg : Config) (loop : Prop) (req req' : MemReq) : Prop where
  state : req'.state = req.state ∨ req.state = .mlcNew ∧ req'.state = .mlcWait ∨ req.state = .l1New ∧ req'.state = .l1Wait
  queue : req'.queue = req.queue
  addr : req'.addr = req.addr
  procId : req'.procId = req.procId
  serial : req'.serial = req.serial
  doneFunc : req.doneFunc.isSome = true → req'.doneFunc.isSome = true
  isWb : req'.type.isWb = true → req.type.isWb = true
  writeback : cfg.allowTypeMatches = false ∨ cfg.hierMshrOn = true ∨ loop → req'.type.isWb = req.type.isWb ∧
    (req.type.isWb = true → req'.type = req.type ∧ req'.doneFunc = req.doneFunc ∧
      req'.wbRequestedBack = req.wbRequestedBack)
  priority : req'.priority = req.priority ∨ req'.priority.type < 15
  ops : loop → req'.opPtrs = req.opPtrs ∧ (req.delivered = true → req'.delivered = true)
  physAddr : req'.physAddr = req.physAddr
  isInst : cfg.allowTypeMatches = false ∨ cfg.hierMshrOn = true ∨ loop → req'.type.isInst = req.type.isInst

theorem MemReq.Follows.refl (req : MemReq) : req.Follows cfg loop req :=
  ⟨.inl rfl, rfl, rfl, rfl, rfl, id, id, fun _ => ⟨rfl, fun _ => ⟨rfl, rfl, rfl⟩⟩, .inl rfl, fun _ => ⟨rfl, id⟩,
    rfl, fun _ => rfl⟩

theorem MemReq.Follows.trans (h : req.Follows cfg loop req') (h' : req'.Follows cfg loop req'') :
    req.Follows cfg loop req'' := by
  refine ⟨?_, h'.queue.trans h.queue, h'.addr.trans h.addr, h'.procId.trans h.procId, h'.serial.trans h.serial,
    fun hdone => h'.doneFunc (h.doneFunc hdone), fun hwb => h.isWb (h'.isWb hwb), fun hcfg => ⟨?_, fun hwb => ?_⟩, ?_,
    fun hloop => ⟨(h'.ops hloop).1.trans (h.ops hloop).1, fun hdone => (h'.ops hloop).2 ((h.ops hloop).2 hdone)⟩,
    h'.physAddr.trans h.physAddr, fun hcfg => (h'.isInst hcfg).trans (h.isInst hcfg)⟩
  · have := h.state
    have := h'.state
    grind
  · exact (h'.writeback hcfg).1.trans (h.writeback hcfg).1
  · have hback := (h.writeback hcfg).2 hwb
    have hback' := (h'.writeback hcfg).2 ((h.writeback hcfg).1.trans hwb)
    exact ⟨hback'.1.trans hback.1, hback'.2.1.trans hback.2.1, hback'.2.2.trans hback.2.2⟩
  · cases h'.priority with
    | inl hsame =>
        rw [hsame]
        exact h.priority
    | inr hlow => exact .inr hlow

/-- A request in use stays in use, and waits in the same queue. -/
theorem MemReq.Follows.state_eq {state : MemReqState} (h : req.Follows cfg loop req') (hstate : req.state = state)
    (hmlc : state ≠ .mlcNew) (hl1 : state ≠ .l1New) : req'.state = state := by
  have := h.state
  grind

theorem MemReq.Follows.live (h : req.Follows cfg loop req') (hlive : req.state ≠ .inv) : req'.state ≠ .inv := by
  have := h.state
  grind

theorem MemReq.Adjusts.follows {ops : List OpPtr} (h : req.Adjusts cfg loop ops req') (hops : loop → ops = []) :
    req.Follows cfg loop req' := by
  refine ⟨.inl h.state, h.queue, h.addr, h.procId, h.serial, h.doneFunc, h.isWb, h.writeback, h.priority, fun hloop => ?_,
    h.physAddr, h.isInst⟩
  rw [h.opPtrs, h.delivered, hops hloop]
  simp

/-- The change of a single request. -/
theorem State.setReq_follows (h : (s.reqBuffer id').Follows cfg loop req) :
    (s.reqBuffer id).Follows cfg loop ((s.setReq id' req).reqBuffer id) := by
  by_cases hid : id = id'
  · rw [hid, State.setReq_self]
    exact h
  · rw [State.setReq_other hid]
    exact .refl _

theorem State.insertEntry_pass_map {α : Type} {f : Pass → α} (hf : ∀ pass inserted, f { pass with inserted } = f pass)
    (s : State) (k : QueueId) (id : ℕ) (priority : Priority) :
    (s.insertEntry k id priority).pass.map f = s.pass.map f := by
  cases hpass : s.pass with
  | none => simp [State.insertEntry, hpass]
  | some pass =>
      simp only [State.insertEntry, hpass, Option.map_some]
      split
      · rw [hf]
      · rfl

/-- Quiet moves go on within a loop, and only add to what was inserted. -/
theorem Quiet.pass_map {α : Type} {f : Pass → α} (hf : ∀ pass inserted, f { pass with inserted } = f pass)
    (h : Quiet cfg overtakes s t) : t.pass.map f = s.pass.map f := by
  cases h with
  | fresh id free k ops req priority calls =>
      exact State.insertEntry_pass_map hf ((s.takeReq free req.procId).setReq id req) k id priority
  | _ => rfl

theorem QuietRun.pass_map {α : Type} {f : Pass → α} (hf : ∀ pass inserted, f { pass with inserted } = f pass)
    (h : QuietRun cfg overtakes s t) : t.pass.map f = s.pass.map f := by
  induction h with
  | refl => rfl
  | tail hrun hmove ih => exact (hmove.pass_map hf).trans ih

theorem QuietRun.pass (h : QuietRun cfg overtakes s t) : t.pass = none ↔ s.pass = none := by
  have hmap := h.pass_map (f := fun _ => ()) fun _ _ => rfl
  rw [← Option.map_eq_none_iff (f := fun _ => ()), hmap, Option.map_eq_none_iff]

theorem Quiet.follows (h : Quiet cfg overtakes s t) (hlive : (s.reqBuffer id).state ≠ .inv) :
    (s.reqBuffer id).Follows cfg (s.pass ≠ none) (t.reqBuffer id) := by
  have hsame (req : MemReq) : req.Follows cfg (s.pass ≠ none) req := .refl req
  cases h with
  | idle => exact hsame _
  | lines => exact hsame _
  | note id' =>
      exact State.setReq_follows ⟨.inl rfl, rfl, rfl, rfl, rfl, fun h => h, fun h => h, fun _ => ⟨rfl, fun _ => ⟨rfl, rfl, rfl⟩⟩,
        .inl rfl, fun _ => ⟨rfl, fun h => h⟩, rfl, fun _ => rfl⟩
  | start id' state rdyCycle h =>
      exact State.setReq_follows ⟨.inr h, rfl, rfl, rfl, rfl, fun h => h, fun h => h, fun _ => ⟨rfl, fun _ => ⟨rfl, rfl, rfl⟩⟩,
        .inl rfl, fun _ => ⟨rfl, fun h => h⟩, rfl, fun _ => rfl⟩
  | deliver id' =>
      exact State.setReq_follows ⟨.inl rfl, rfl, rfl, rfl, rfl, fun h => h, fun h => h, fun _ => ⟨rfl, fun _ => ⟨rfl, rfl, rfl⟩⟩,
        .inl rfl, fun _ => ⟨rfl, fun _ => rfl⟩, rfl, fun _ => rfl⟩
  | call => exact hsame _
  | join id' ops req _ hops h => exact State.setReq_follows (h.toAdjusts.follows fun hloop => hops.resolve_left hloop)
  | reserve id' ops req hpass _ h => exact State.setReq_follows (h.toAdjusts.follows fun hloop => (hloop hpass).elim)
  | rerank => exact hsame _
  | fresh id' free k ops req priority calls hfree hinv =>
      have hid : id ≠ id' := by
        rintro rfl
        exact hlive hinv
      have hreq : (s.setReq id' req).reqBuffer id = s.reqBuffer id := State.setReq_other hid
      exact hreq ▸ hsame _
  | writtenBack id' free req hfree hinv =>
      have hid : id ≠ id' := by
        rintro rfl
        exact hlive hinv
      have hreq : (s.setReq id' req).reqBuffer id = s.reqBuffer id := State.setReq_other hid
      exact hreq ▸ hsame _

theorem QuietRun.follows (h : QuietRun cfg overtakes s t) (hlive : (s.reqBuffer id).state ≠ .inv) :
    (s.reqBuffer id).Follows cfg (s.pass ≠ none) (t.reqBuffer id) := by
  induction h with
  | refl => exact .refl _
  | tail hrun hmove ih =>
      have hstep := hmove.follows (ih.live hlive)
      rw [Ne, QuietRun.pass hrun] at hstep
      exact ih.trans hstep

end Scarab.Memory
