import Scarab.Memory.Following

/-! # The fills as moves

`done_func`, `l1_fill_line` and `mlc_fill_line`: all is quiet but the insertion of a line into the
L1. -/

namespace Scarab.Memory

variable {cfg : Config} {env : Env} {s t : State} {id : ℕ} {overtakes : Prop} {done filled : Bool}

/-- A writeback of the dcache joins no request of the L1 queue in a loop over that queue. -/
def State.Undisturbed (cfg : Config) (env : Env) (s : State) (overtakes : Prop) : Prop :=
  ∀ victim, env.victim = some victim → s.Yields cfg overtakes victim [some .l1fill, some .l1]

theorem State.yields_of_pass {addr : Addr} {ks : List (Option QueueId)}
    (h : ∀ pass, s.pass = some pass → pass.queue ≠ .l1) : s.Yields cfg overtakes addr ks := fun _ _ _ _ _ => .inl h

/-- `done_func` is quiet, and the request knows when it was delivered. -/
theorem State.doneFunc_quiet (hvictim : s.Undisturbed cfg env overtakes) (h : s.doneFunc cfg env id = .ok (done, t)) :
    QuietRun cfg overtakes s t ∧ (done = true → (t.reqBuffer id).delivered = true) ∧
      (s.reqBuffer id).doneFunc.isSome = true := by
  have hdelivered (m : State) : ((m.deliver id).reqBuffer id).delivered = true := by
    unfold State.deliver
    rw [State.setReq_self]
  unfold State.doneFunc at h
  cases hdone : (s.reqBuffer id).doneFunc with
  | none => simp [hdone] at h
  | some doneFunc =>
      rw [hdone] at h
      cases doneFunc with
      | icacheFillLine =>
          obtain ⟨-, rfl⟩ := Prod.mk.inj (Except.ok.inj h)
          exact ⟨.single (.deliver s id), fun _ => hdelivered s, rfl⟩
      | dcacheFillLine =>
          dsimp only at h
          by_cases hport : env.dcachePort = false
          · rw [if_pos hport] at h
            obtain ⟨rfl, rfl⟩ := Prod.mk.inj (Except.ok.inj h)
            exact ⟨.refl, fun hdone => (by cases hdone), rfl⟩
          · rw [if_neg hport] at h
            cases hv : env.victim with
            | none =>
                rw [hv] at h
                obtain ⟨-, rfl⟩ := Prod.mk.inj (Except.ok.inj h)
                exact ⟨.single (.deliver s id), fun _ => hdelivered s, rfl⟩
            | some victim =>
                rw [hv] at h
                obtain ⟨⟨taken, m⟩, hm, h⟩ := Execution.bind_eq_ok.mp h
                obtain ⟨rfl, rfl⟩ := Prod.mk.inj (Except.ok.inj h)
                have hrun : QuietRun cfg overtakes s m := State.newMemDcWbReq_quiet (hvictim victim hv) hm
                cases taken with
                | true => exact ⟨hrun.tail (.deliver m id), fun _ => hdelivered m, rfl⟩
                | false => exact ⟨hrun, fun hdone => (by cases hdone), rfl⟩

theorem State.tryDoneFunc_quiet (hvictim : s.Undisturbed cfg env overtakes)
    (h : s.tryDoneFunc cfg env id = .ok (done, t)) :
    QuietRun cfg overtakes s t ∧
      (done = true → t = s ∧ (s.reqBuffer id).doneFunc = none ∨ (t.reqBuffer id).delivered = true) := by
  unfold State.tryDoneFunc at h
  by_cases hnone : (s.reqBuffer id).doneFunc = none
  · rw [if_pos hnone] at h
    obtain ⟨-, rfl⟩ := Prod.mk.inj (Except.ok.inj h)
    exact ⟨.refl, fun _ => .inl ⟨rfl, hnone⟩⟩
  · rw [if_neg hnone] at h
    have hdone := State.doneFunc_quiet hvictim h
    exact ⟨hdone.1, fun hyes => .inr (hdone.2.1 hyes)⟩

/-- The state after a line was inserted into the L1. -/
def State.InsertsL1 (cfg : Config) (m : State) (id : ℕ) (t : State) : Prop :=
  ∃ c way, (m.l1 (cfg.l1Of (m.reqBuffer id).procId)).Inserts cfg.l1 (m.reqBuffer id).addr way c ∧
    t = (m.setL1 (cfg.l1Of (m.reqBuffer id).procId) c).setReq id { m.reqBuffer id with l1MissCycle := none }

theorem State.insertL1Line_inserts (h : s.insertL1Line cfg env id = .ok t) : s.InsertsL1 cfg id t := by
  unfold State.insertL1Line at h
  dsimp only at h
  by_cases hmiss : ((s.reqBuffer id).type = .dfetch ∨ (s.reqBuffer id).type = .dstore) ∧
      (s.reqBuffer id).l1MissCycle = none
  · rw [if_pos hmiss] at h
    cases h
  · rw [if_neg hmiss] at h
    rw [Cache.insertFor_fst] at h
    exact ⟨_, _, Cache.insertFor_inserts.setData, (Except.ok.inj h).symm⟩

/-- `l1_fill_line`: what comes before the insertion is quiet. -/
theorem State.l1FillLine_quiet (overtakes : Prop) (h : s.l1FillLine cfg env id = .ok (filled, t)) :
    filled = false ∧ QuietRun cfg overtakes s t ∨
      filled = true ∧ ∃ m, QuietRun cfg overtakes s m ∧ m.InsertsL1 cfg id t := by
  have hinsert {m : State} (hrun : QuietRun cfg overtakes s m)
      (hm : (do return (true, ← m.insertL1Line cfg env id)) = Except.ok (filled, t)) :
      filled = false ∧ QuietRun cfg overtakes s t ∨
        filled = true ∧ ∃ m, QuietRun cfg overtakes s m ∧ m.InsertsL1 cfg id t := by
    obtain ⟨n, hn, hm⟩ := Execution.bind_eq_ok.mp hm
    obtain ⟨rfl, rfl⟩ := Prod.mk.inj (Except.ok.inj hm)
    exact .inr ⟨rfl, m, hrun, State.insertL1Line_inserts hn⟩
  unfold State.l1FillLine at h
  dsimp only at h
  split at h
  · obtain ⟨⟨taken, m⟩, hm, h⟩ := Execution.bind_eq_ok.mp h
    have hrun : QuietRun cfg overtakes s m := State.newMemL1WbReq_quiet hm
    cases taken with
    | true => exact hinsert hrun h
    | false =>
        obtain ⟨rfl, rfl⟩ := Prod.mk.inj (Except.ok.inj h)
        exact .inl ⟨rfl, hrun⟩
  · exact hinsert .refl h

/-- `mlc_fill_line` is quiet. -/
theorem State.mlcFillLine_quiet (hpass : ∀ pass, s.pass = some pass → pass.queue ≠ .l1)
    (h : s.mlcFillLine cfg env id = .ok (filled, t)) : QuietRun cfg overtakes s t := by
  have hset {m : State} {way : ℕ} (hrun : QuietRun cfg overtakes s m)
      (hm : (do return (true, ← m.setMlcLine cfg id way)) = Except.ok (filled, t)) : QuietRun cfg overtakes s t := by
    obtain ⟨n, hn, hm⟩ := Execution.bind_eq_ok.mp hm
    obtain ⟨-, rfl⟩ := Prod.mk.inj (Except.ok.inj hm)
    unfold State.setMlcLine at hn
    dsimp only at hn
    by_cases hcycle : (m.reqBuffer id).mlcMissCycle = none
    · rw [if_pos hcycle] at hn
      cases hn
    · rw [if_neg hcycle] at hn
      by_cases hmiss : (m.reqBuffer id).mlcMiss = false
      · rw [if_pos hmiss] at hn
        cases hn
      · rw [if_neg hmiss] at hn
        rw [← Except.ok.inj hn]
        refine (hrun.tail (.idle m m.l1SeqNum m.mlcSeqNum m.l1fillSeqNum m.mlcFillSeqNum m.coreFillSeqNum
          m.cycleL1qInsertCount m.cycleMlcqInsertCount _ m.mlcWritebacks m.l1Writebacks)).tail
          (.note _ id (m.reqBuffer id).rdyCycle (m.reqBuffer id).mlcMiss none (m.reqBuffer id).l1Miss
            (m.reqBuffer id).l1MissCycle)
  have hidle (mlc : Cache LineData) : QuietRun cfg overtakes s { s with mlc } :=
    .single (.idle s s.l1SeqNum s.mlcSeqNum s.l1fillSeqNum s.mlcFillSeqNum s.coreFillSeqNum s.cycleL1qInsertCount
      s.cycleMlcqInsertCount mlc s.mlcWritebacks s.l1Writebacks)
  unfold State.mlcFillLine at h
  dsimp only at h
  generalize (s.mlc.insertFor cfg.mlc s.simTime (s.reqBuffer id)
    (cfg.prefReplpos env false (s.reqBuffer id).type)).2 = mlc at h
  split at h
  · obtain ⟨⟨taken, m⟩, hm, h⟩ := Execution.bind_eq_ok.mp h
    have hrun : QuietRun cfg overtakes { s with mlc } m :=
      State.newMemMlcWbReq_quiet (State.yields_of_pass hpass) hm
    cases taken with
    | true => exact hset ((hidle mlc).trans hrun) h
    | false =>
        obtain ⟨-, rfl⟩ := Prod.mk.inj (Except.ok.inj h)
        exact (hidle mlc).trans hrun
  · exact hset (hidle mlc) h

end Scarab.Memory
