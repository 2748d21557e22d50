import Scarab.Memory.Filling

/-! # The loops as moves

Each body of a loop is a derivation: quiet moves, at most one progress of the request of the entry,
and quiet moves again. -/

namespace Scarab.Memory

variable {cfg : Config} {env : Env} {base s t : State} {id ii : ℕ} {k : QueueId} {done : Bool}
  {priority : Priority}

theorem EntryStep.before {m : State} (h : QuietRun cfg (base.Overtakes cfg env) s m)
    (hstep : EntryStep cfg env base k id ii m done t) : EntryStep cfg env base k id ii s done t := by
  cases hstep with
  | quiet hrun => exact .quiet (h.trans hrun)
  | progress hrun hprogress hrest => exact .progress (h.trans hrun) hprogress hrest

theorem Rest.quiet {overtakes : Prop} (h : Rest s t) : Quiet cfg overtakes s t := by
  cases h with
  | seqNums l1SeqNum l1fillSeqNum mlcFillSeqNum coreFillSeqNum =>
      exact .idle s l1SeqNum s.mlcSeqNum l1fillSeqNum mlcFillSeqNum coreFillSeqNum s.cycleL1qInsertCount
        s.cycleMlcqInsertCount s.mlc s.mlcWritebacks s.l1Writebacks
  | call id call hquiet => exact .call s id call hquiet

theorem EntryStep.after {m : State} (hstep : EntryStep cfg env base k id ii s done m) (h : Rest m t) :
    EntryStep cfg env base k id ii s done t := by
  cases hstep with
  | quiet hrun => exact .quiet (hrun.tail h.quiet)
  | progress hrun hprogress hrest => exact .progress hrun hprogress (hrest.tail h)

theorem Progress.congr {m : State} (h : Progress cfg env base k id ii s done m) (heq : m = t) :
    Progress cfg env base k id ii s done t := heq ▸ h

theorem Progress.step (h : Progress cfg env base k id ii s done t) : EntryStep cfg env base k id ii s done t :=
  .progress .refl h .refl

/-! ## Sequence numbers -/

section

variable {overtakes : Prop} (s : State)

theorem State.l1SeqNum_quiet (l1SeqNum : ℕ) : Quiet cfg overtakes s { s with l1SeqNum } :=
  .idle s l1SeqNum s.mlcSeqNum s.l1fillSeqNum s.mlcFillSeqNum s.coreFillSeqNum s.cycleL1qInsertCount
    s.cycleMlcqInsertCount s.mlc s.mlcWritebacks s.l1Writebacks

theorem State.l1fillSeqNum_quiet (l1fillSeqNum : ℕ) : Quiet cfg overtakes s { s with l1fillSeqNum } :=
  .idle s s.l1SeqNum s.mlcSeqNum l1fillSeqNum s.mlcFillSeqNum s.coreFillSeqNum s.cycleL1qInsertCount
    s.cycleMlcqInsertCount s.mlc s.mlcWritebacks s.l1Writebacks

theorem State.mlcFillSeqNum_rest (mlcFillSeqNum : ℕ) : Rest s { s with mlcFillSeqNum } :=
  .seqNums s s.l1SeqNum s.l1fillSeqNum mlcFillSeqNum s.coreFillSeqNum

theorem State.coreFillSeqNum_rest (coreFillSeqNum : ℕ → ℕ) : Rest s { s with coreFillSeqNum } :=
  .seqNums s s.l1SeqNum s.l1fillSeqNum s.mlcFillSeqNum coreFillSeqNum

theorem State.mlc_quiet (mlc : Cache LineData) : Quiet cfg overtakes s { s with mlc } :=
  .idle s s.l1SeqNum s.mlcSeqNum s.l1fillSeqNum s.mlcFillSeqNum s.coreFillSeqNum s.cycleL1qInsertCount
    s.cycleMlcqInsertCount mlc s.mlcWritebacks s.l1Writebacks

end

/-! ## The steps of a request from queue to queue -/

/-- The priority of an entry in a queue of fills. -/
theorem State.insertFill_eq {seqNum : ℕ} (h : s.insertFill cfg id k seqNum priority = .ok t) :
    ∃ priority', (priority'.type < 15 ∨ priority' = priority ∨ priority' = (s.reqBuffer id).priority) ∧
      t = (s.setReq id { s.reqBuffer id with queue := some k }).insertEntry k id priority' := by
  rw [State.insertFill] at h
  obtain ⟨-, rfl⟩ := State.memInsertReqIntoQueue_eq h
  refine ⟨_, ?_, rfl⟩
  rw [State.setReq_self]
  by_cases hzero : Priority.zero.lt (cfg.fifoPriority seqNum (if cfg.orderBeyondBus then .zero else priority)) = true
  · rw [if_pos hzero]
    rw [Config.fifoPriority]
    split
    · exact .inl (Nat.zero_lt_succ 14)
    · split
      · exact .inl (Nat.zero_lt_succ 14)
      · exact .inr (.inl rfl)
  · rw [if_neg hzero]
    exact .inr (.inr rfl)

theorem State.insertMlcFill_eq (h : s.insertMlcFill cfg id priority = .ok t) :
    ∃ priority' mlcFillSeqNum,
      (priority'.type < 15 ∨ priority' = priority ∨ priority' = (s.reqBuffer id).priority) ∧
        t = { (s.setReq id { s.reqBuffer id with queue := some .mlcFill }).insertEntry .mlcFill id priority' with
          mlcFillSeqNum } := by
  rw [State.insertMlcFill] at h
  obtain ⟨m, hm, h⟩ := Execution.bind_eq_ok.mp h
  obtain ⟨priority', hpriority, rfl⟩ := State.insertFill_eq hm
  exact ⟨priority', _, hpriority, (Except.ok.inj h).symm⟩

theorem State.insertCoreFill_eq (h : s.insertCoreFill cfg id priority = .ok t) :
    ∃ priority' coreFillSeqNum,
      (priority'.type < 15 ∨ priority' = priority ∨ priority' = (s.reqBuffer id).priority) ∧
        t = { (s.setReq id { s.reqBuffer id with queue := some (.coreFill (s.reqBuffer id).procId) }).insertEntry
          (.coreFill (s.reqBuffer id).procId) id priority' with coreFillSeqNum } := by
  rw [State.insertCoreFill] at h
  obtain ⟨m, hm, h⟩ := Execution.bind_eq_ok.mp h
  obtain ⟨priority', hpriority, rfl⟩ := State.insertFill_eq hm
  exact ⟨priority', _, hpriority, (Except.ok.inj h).symm⟩

theorem State.memCompleteBusInAccess_eq (h : s.memCompleteBusInAccess cfg id priority = .ok t) :
    ∃ priority' l1fillSeqNum,
      (priority'.type < 15 ∨ priority' = priority ∨ priority' = (s.reqBuffer id).priority) ∧
        t = { (s.setReq id { s.reqBuffer id with
          state := .fillL1
          rdyCycle := s.l1CycleCount + 1
          queue := some .l1fill }).insertEntry .l1fill id priority' with l1fillSeqNum } := by
  rw [State.memCompleteBusInAccess] at h
  obtain ⟨m, hm, h⟩ := Execution.bind_eq_ok.mp h
  obtain ⟨priority', hpriority, rfl⟩ := State.insertFill_eq hm
  rw [State.setReq_self, State.setReq_setReq] at *
  exact ⟨priority', _, hpriority, (Except.ok.inj h).symm⟩

theorem State.insertL1_eq (h : s.insertL1 cfg id = .ok t) :
    ∃ priority' l1SeqNum, (priority'.type < 15 ∨ priority' = (s.reqBuffer id).priority) ∧
      t = { (s.setReq id { s.reqBuffer id with queue := some .l1 }).insertEntry .l1 id priority' with
        l1SeqNum }.count fun pass => { pass with insertionCount := pass.insertionCount + 1 } := by
  rw [State.insertL1] at h
  obtain ⟨m, hm, h⟩ := Execution.bind_eq_ok.mp h
  obtain ⟨-, rfl⟩ := State.memInsertReqIntoQueue_eq hm
  refine ⟨_, _, ?_, (Except.ok.inj h).symm⟩
  rw [State.setReq_self]
  by_cases hzero : Priority.zero.lt (cfg.fifoPriority s.l1SeqNum .zero) = true
  · rw [if_pos hzero]
    exact .inl (Config.fifoPriority_lt _ (Nat.zero_lt_succ 14))
  · rw [if_neg hzero]
    exact .inr rfl

theorem State.insertL1_type (h : s.insertL1 cfg id = .ok t) : (t.reqBuffer id).type = (s.reqBuffer id).type := by
  obtain ⟨priority', l1SeqNum, -, rfl⟩ := State.insertL1_eq h
  change ((s.setReq id { s.reqBuffer id with queue := some .l1 }).reqBuffer id).type = _
  rw [State.setReq_self]

/-- A request gives back as many entries as it holds at one. -/
theorem State.unreserve_eq (s : State) (cfg : Config) (id : ℕ) :
    s.unreserve cfg id = s.setReq id { s.reqBuffer id with
      reservedEntryCount := (s.reqBuffer id).reservedEntryCount - if cfg.hierMshrOn then 1 else 0 } := by
  rw [State.unreserve]
  by_cases hhier : cfg.hierMshrOn = true
  · rw [if_pos hhier, if_pos hhier]
  · rw [if_neg hhier, if_neg hhier, Int.sub_zero, State.setReq_same]

theorem State.reserve_wb (hwb : (s.reqBuffer id).type.isWb = true) : s.reserve cfg id = s := by
  rw [State.reserve]
  rw [if_neg (by simp [hwb])]

/-- The state of a request does not matter when it is freed. -/
theorem State.freeReq_state (s : State) (id : ℕ) (req : MemReq) (state : MemReqState) :
    (s.setReq id { req with state }).freeReq id = (s.setReq id req).freeReq id := by
  simp only [State.freeReq, State.setReq_self, State.setReq_setReq]
  rfl

/-- A request that is freed and set again. -/
theorem State.freeReq_setReq (s : State) (id : ℕ) (req req' : MemReq) :
    ((s.setReq id req).freeReq id).setReq id req' =
      { s.setReq id req' with
        numReqBuffersPerCore := fun procId =>
          if procId = req.procId then s.numReqBuffersPerCore procId - 1 else s.numReqBuffersPerCore procId
        reqCount := s.reqCount - 1
        reqBufferFreeList := s.reqBufferFreeList ++ [id]
        freed := s.freed ++ [(req.opPtrs, req.delivered)] } := by
  have hset := s.setReq_setReq id { req with state := .inv, opPtrs := [] } req'
  have hset' := s.setReq_setReq id req { req with state := .inv, opPtrs := [] }
  simp only [State.freeReq, State.setReq_self, hset']
  exact congrArg (fun m : State => { m with
    numReqBuffersPerCore := fun procId =>
      if procId = req.procId then s.numReqBuffersPerCore procId - 1 else s.numReqBuffersPerCore procId
    reqCount := s.reqCount - 1
    reqBufferFreeList := s.reqBufferFreeList ++ [id]
    freed := s.freed ++ [(req.opPtrs, req.delivered)] }) hset

theorem State.freeReq_self (s : State) (id : ℕ) :
    (s.freeReq id).reqBuffer id = { s.reqBuffer id with state := .inv, opPtrs := [] } := s.setReq_self id _

/-- A request that is freed, whatever state it was given before. -/
theorem Progress.freed {back : ℤ} (state : MemReqState) (rdyCycle : ℕ) (hends : (s.reqBuffer id).Ends cfg k back)
    (h : (s.setReq id { s.reqBuffer id with
      state, rdyCycle, reservedEntryCount := (s.reqBuffer id).reservedEntryCount - back }).memFreeReqbuf id = .ok t) :
    Progress cfg env base k id ii s true (t.markEntry k ii) := by
  obtain ⟨hcore, hback, hcount, rfl⟩ := State.memFreeReqbuf_eq h
  rw [State.setReq_self] at hcore hback
  dsimp only at hback
  rw [hback, State.freeReq_state s id { s.reqBuffer id with rdyCycle, reservedEntryCount := 0 } state]
  exact .release s rdyCycle back hends (by omega) hcore hcount

/-! ## The L1 -/

theorem State.hitL1Line_quiet {overtakes : Prop} (s : State) (id way : ℕ) :
    QuietRun cfg overtakes s (s.hitL1Line cfg id way) ∧ (s.hitL1Line cfg id way).reqBuffer = s.reqBuffer := by
  have hlines (data : LineData) : Quiet cfg overtakes s (s.setL1 (cfg.l1Of (s.reqBuffer id).procId)
      ((s.l1 (cfg.l1Of (s.reqBuffer id).procId)).setData (cfg.l1.set (s.reqBuffer id).addr) way data)) :=
    .lines s _ _ Cache.setData_sameLines
  unfold State.hitL1Line
  dsimp only
  split
  · exact ⟨(Relation.ReflTransGen.single (hlines _)).tail (.call _ _ _ rfl), rfl⟩
  · exact ⟨.single (hlines _), rfl⟩

theorem State.memProcessL1HitAccess_step {way : Option ℕ} (hstate : (s.reqBuffer id).state = .l1Wait)
    (h : s.memProcessL1HitAccess cfg id ii way = .ok t) : EntryStep cfg env base .l1 id ii s true t := by
  have hhit : QuietRun cfg (base.Overtakes cfg env) s (way.elim s fun way => s.hitL1Line cfg id way) ∧
      (way.elim s fun way => s.hitL1Line cfg id way).reqBuffer = s.reqBuffer := by
    cases way with
    | none => exact ⟨.refl, rfl⟩
    | some way => exact s.hitL1Line_quiet id way
  rw [State.memProcessL1HitAccess] at h
  generalize (way.elim s fun way => s.hitL1Line cfg id way) = m at h hhit
  dsimp only at h
  obtain ⟨hrun, hreq⟩ := hhit
  rw [← hreq] at hstate
  refine EntryStep.before hrun ?_
  by_cases hthrough : (cfg.l1WriteThrough && (m.reqBuffer id).type = .wb) = true
  · rw [if_pos hthrough] at h
    obtain ⟨n, hn, h⟩ := Execution.bind_eq_ok.mp h
    rw [← Except.ok.inj h, ← Except.ok.inj hn]
    simp only [Bool.and_eq_true, decide_eq_true_eq] at hthrough
    exact (Progress.lost m _ rfl hstate hthrough.2 hthrough.1).step
  · rw [if_neg hthrough] at h
    by_cases hmlc : (cfg.mlcPresent && (m.reqBuffer id).destination != .l1 && !(m.reqBuffer id).type.isWb) = true
    · rw [if_pos hmlc] at h
      obtain ⟨n, hn, h⟩ := Execution.bind_eq_ok.mp h
      rw [← Except.ok.inj h]
      obtain ⟨priority', mlcFillSeqNum, hpriority, rfl⟩ := State.insertMlcFill_eq hn
      simp only [Bool.and_eq_true, bne_iff_ne, ne_eq, Bool.not_eq_true'] at hmlc
      rw [State.setReq_self, State.setReq_setReq] at *
      have hgo : (m.reqBuffer id).GoesOn cfg .l1 .mlcFill .fillMlc 0 := .l1Mlc hstate hmlc.1.1 hmlc.1.2 hmlc.2
      have hprogress : Progress cfg env base .l1 id ii m true _ := .toFill m _ _
        (m.l1CycleCount + 1) _ priority' hgo hpriority
      rw [Int.sub_zero] at hprogress
      exact hprogress.step.after (State.mlcFillSeqNum_rest _ mlcFillSeqNum)
    · rw [if_neg hmlc] at h
      by_cases hdone : (m.reqBuffer id).doneFunc.isSome = true
      · rw [if_pos hdone] at h
        obtain ⟨n, hn, h⟩ := Execution.bind_eq_ok.mp h
        rw [← Except.ok.inj h]
        obtain ⟨priority', coreFillSeqNum, hpriority, rfl⟩ := State.insertCoreFill_eq hn
        rw [State.setReq_self, State.setReq_setReq] at *
        have hgo : (m.reqBuffer id).GoesOn cfg .l1 (.coreFill (m.reqBuffer id).procId) .l1HitDone 0 := by
          refine .l1Core hstate hdone fun hmlcPresent hread => ?_
          simpa [hmlcPresent, hread] using hmlc
        have hprogress : Progress cfg env base .l1 id ii m true _ := .toFill m _ _
          (m.coreCycleCount (m.reqBuffer id).procId) _ priority' hgo hpriority
        rw [Int.sub_zero] at hprogress
        exact hprogress.step.after (State.coreFillSeqNum_rest _ coreFillSeqNum)
      · rw [if_neg hdone] at h
        obtain ⟨n, hn, h⟩ := Execution.bind_eq_ok.mp h
        rw [← Except.ok.inj h]
        have hends : (m.reqBuffer id).Ends cfg .l1 0 := .l1 hstate (.inl (by simpa using hdone))
        refine (Progress.freed .l1HitDone (m.reqBuffer id).rdyCycle hends ?_).step
        rwa [Int.sub_zero]

theorem State.completeL1Hit_step {way : Option ℕ} (hstate : (s.reqBuffer id).state = .l1Wait)
    (h : s.completeL1Hit cfg id ii way = .ok (done, t)) : EntryStep cfg env base .l1 id ii s done t := by
  rw [State.completeL1Hit] at h
  obtain ⟨m, hm, h⟩ := Execution.bind_eq_ok.mp h
  have hstep : EntryStep cfg env base .l1 id ii s true m := State.memProcessL1HitAccess_step hstate hm
  dsimp only at h
  split at h
  · cases h
  · split at h
    · cases h
    · obtain ⟨rfl, rfl⟩ := Prod.mk.inj (Except.ok.inj h)
      split
      · exact hstep.after (.call m id _ rfl)
      · exact hstep

/-- A writeback that missed has filled the L1: its buffer is free, or it is to be written through. -/
inductive State.FillsWb (cfg : Config) (env : Env) (base : State) (id ii : ℕ) : State → Prop where
  | freed (s : State) (c : Cache LineData) (way rdyCycle : ℕ) (hquiet : QuietRun cfg (base.Overtakes cfg env) base s)
      (hc : (s.l1 (cfg.l1Of (s.reqBuffer id).procId)).Inserts cfg.l1 (s.reqBuffer id).addr way c)
      (hback : (s.reqBuffer id).reservedEntryCount = 0)
      (hcore : s.numReqBuffersPerCore (s.reqBuffer id).procId ≠ 0) (hcount : s.reqCount ≠ 0) :
      State.FillsWb cfg env base id ii ((((s.setL1 (cfg.l1Of (s.reqBuffer id).procId) c).setReq id
        { s.reqBuffer id with rdyCycle, l1MissCycle := none }).freeReq id).markEntry .l1 ii)
  | kept (s : State) (c : Cache LineData) (way rdyCycle : ℕ) (hquiet : QuietRun cfg (base.Overtakes cfg env) base s)
      (hthrough : cfg.l1WriteThrough = true) (hwb : (base.reqBuffer id).type = .wb)
      (hc : (s.l1 (cfg.l1Of (s.reqBuffer id).procId)).Inserts cfg.l1 (s.reqBuffer id).addr way c) :
      State.FillsWb cfg env base id ii (((s.setL1 (cfg.l1Of (s.reqBuffer id).procId) c).setReq id
        { s.reqBuffer id with state := .busNew, rdyCycle, l1MissCycle := none }).markEntry .l1 ii)

theorem State.FillsWb.ofFreed {m n : State} (hquiet : QuietRun cfg (base.Overtakes cfg env) base s)
    (hm : s.InsertsL1 cfg id m) (hn : m.finishReq id .l1HitDone = .ok n) :
    State.FillsWb cfg env base id ii (n.markEntry .l1 ii) := by
  obtain ⟨c, way, hc, rfl⟩ := hm
  rw [State.finishReq] at hn
  obtain ⟨hcore, hback, hcount, rfl⟩ := State.memFreeReqbuf_eq hn
  rw [State.setReq_self, State.setReq_self] at hcore hback
  rw [State.setReq_self, State.setReq_setReq]
  have hfreed : State.FillsWb cfg env base id ii _ := .freed s c way (s.l1CycleCount + 1) hquiet hc hback hcore hcount
  rw [← State.freeReq_state _ id _ .l1HitDone] at hfreed
  exact hfreed

/-- A writeback that misses fills the L1 or waits. -/
theorem State.processL1WbMiss_fills (hquiet : QuietRun cfg (base.Overtakes cfg env) base s)
    (hreq : (s.reqBuffer id).type = (base.reqBuffer id).type)
    (hvictim : cfg.allowTypeMatches = true → s.Undisturbed cfg env (base.Overtakes cfg env))
    (h : s.processL1WbMiss cfg env id ii = .ok (done, t)) :
    done = false ∧ QuietRun cfg (base.Overtakes cfg env) base t ∨ done = true ∧ State.FillsWb cfg env base id ii t := by
  have hwait {m : State} (hrun : QuietRun cfg (base.Overtakes cfg env) base m)
      (ht : Except.ok (ε := String) (false, m.waitCycle id) = .ok (done, t)) :
      done = false ∧ QuietRun cfg (base.Overtakes cfg env) base t ∨ done = true ∧ State.FillsWb cfg env base id ii t := by
    obtain ⟨rfl, rfl⟩ := Prod.mk.inj (Except.ok.inj ht)
    exact .inl ⟨rfl, hrun.tail (.note m id _ _ _ _ _)⟩
  rw [State.processL1WbMiss] at h
  dsimp only at h
  by_cases hdone : (s.reqBuffer id).doneFunc.isSome = true
  · rw [if_pos hdone] at h
    by_cases hallow : cfg.allowTypeMatches = false
    · rw [if_pos hallow] at h
      cases h
    · rw [if_neg hallow] at h
      split at h
      · cases h
      · obtain ⟨⟨delivered, m⟩, hm, h⟩ := Execution.bind_eq_ok.mp h
        have hrun := (State.doneFunc_quiet (hvictim (by simpa using hallow)) hm).1
        cases delivered with
        | false => exact hwait (hquiet.trans hrun) h
        | true =>
            obtain ⟨⟨filled, n⟩, hn, h⟩ := Execution.bind_eq_ok.mp h
            have hfill : _ ∨ _ := State.l1FillLine_quiet (base.Overtakes cfg env) hn
            cases hfill with
            | inl hno =>
                obtain ⟨rfl, hrest⟩ := hno
                exact hwait ((hquiet.trans hrun).trans hrest) h
            | inr hyes =>
                obtain ⟨rfl, o, ho, hinserts⟩ := hyes
                obtain ⟨p, hp, h⟩ := Execution.bind_eq_ok.mp h
                obtain ⟨rfl, rfl⟩ := Prod.mk.inj (Except.ok.inj h)
                exact .inr ⟨rfl, .ofFreed ((hquiet.trans hrun).trans ho) hinserts hp⟩
  · rw [if_neg hdone] at h
    obtain ⟨⟨filled, n⟩, hn, h⟩ := Execution.bind_eq_ok.mp h
    have hfill : _ ∨ _ := State.l1FillLine_quiet (base.Overtakes cfg env) hn
    cases hfill with
    | inl hno =>
        obtain ⟨rfl, hrest⟩ := hno
        exact hwait (hquiet.trans hrest) h
    | inr hyes =>
        obtain ⟨rfl, o, ho, hinserts⟩ := hyes
        by_cases hthrough : (cfg.l1WriteThrough && (s.reqBuffer id).type = .wb) = true
        · rw [if_pos rfl, if_pos hthrough] at h
          obtain ⟨rfl, rfl⟩ := Prod.mk.inj (Except.ok.inj h)
          simp only [Bool.and_eq_true, decide_eq_true_eq] at hthrough
          obtain ⟨c, way, hc, rfl⟩ := hinserts
          rw [State.setReq_self, State.setReq_setReq]
          exact .inr ⟨rfl, .kept o c way _ (hquiet.trans ho) hthrough.1 (hreq ▸ hthrough.2) hc⟩
        · rw [if_pos rfl, if_neg hthrough] at h
          obtain ⟨p, hp, h⟩ := Execution.bind_eq_ok.mp h
          obtain ⟨rfl, rfl⟩ := Prod.mk.inj (Except.ok.inj h)
          exact .inr ⟨rfl, .ofFreed (hquiet.trans ho) hinserts hp⟩

/-- The writeback is done, or lost for the memory. -/
theorem State.FillsWb.step (h : State.FillsWb cfg env base id ii t) (hmiss : base.AtMiss cfg id)
    (hwb : (base.reqBuffer id).type.isWb = true) : EntryStep cfg env base .l1 id ii base true t := by
  cases h with
  | freed s c way rdyCycle hquiet hc hback hcore hcount =>
      exact .progress hquiet (.fillWb s c way rdyCycle rfl hmiss hquiet hwb hc hback hcore hcount) .refl
  | kept s c way rdyCycle hquiet hthrough hwb hc =>
      exact .progress hquiet (.fillLost s c way rdyCycle rfl hmiss hquiet hwb hthrough hc) .refl

/-- The read comes to the one that has its address. -/
theorem inflight_modify {before after : List (Addr × List ℕ)} {physAddr : Addr} {ids : List ℕ}
    (hfirst : ∀ reqs ∈ before, reqs.1 ≠ physAddr) (f : Addr × List ℕ → Addr × List ℕ) :
    (before ++ (physAddr, ids) :: after).modify
      ((before ++ (physAddr, ids) :: after).findIdx fun reqs => reqs.1 == physAddr) f =
        before ++ f (physAddr, ids) :: after := by
  induction before with
  | nil =>
      rw [List.nil_append, List.findIdx_cons, beq_self_eq_true]
      rfl
  | cons first before ih =>
      have hne : (first.1 == physAddr) = false := by
        simpa using hfirst first List.mem_cons_self
      rw [List.cons_append, List.findIdx_cons, hne]
      simp only [cond_false, List.modify_succ_cons, List.cons_append]
      rw [ih fun reqs hreqs => hfirst reqs (List.mem_cons_of_mem _ hreqs)]

theorem Registers.perm {physAddr : Addr} {inflight inflight' : List (Addr × List ℕ)}
    (h : Registers physAddr id inflight inflight') :
    (inflight'.flatMap Prod.snd).Perm (id :: inflight.flatMap Prod.snd) := by
  cases h with
  | joins before after ids =>
      simp only [List.flatMap_append, List.flatMap_cons, List.append_assoc, List.singleton_append]
      refine List.Perm.trans ?_ List.perm_middle
      exact List.perm_middle.append_left _
  | opens =>
      rw [List.flatMap_append]
      exact List.perm_append_comm

/-- What Ramulator answers to a read. -/
theorem State.ramulatorSend_read {sent : Bool} (hread : (s.reqBuffer id).type.isWb = false)
    (h : s.ramulatorSend env id = .ok (sent, t)) :
    sent = false ∧ t = s ∧ env.sent = false ∧ (∀ reqs ∈ s.inflightReadReqs, reqs.1 ≠ (s.reqBuffer id).physAddr) ∨
      sent = true ∧ (env.sent = true ∨ ∃ reqs ∈ s.inflightReadReqs, reqs.1 = (s.reqBuffer id).physAddr) ∧
        ∃ inflightReadReqs, t = { s with inflightReadReqs } ∧
          Registers (s.reqBuffer id).physAddr id s.inflightReadReqs inflightReadReqs := by
  rw [State.ramulatorSend] at h
  dsimp only at h
  split at h
  · cases h
  · split at h
    · cases h
    · have hnot : (s.reqBuffer id).type ≠ .wb := by
        intro hwb
        rw [hwb] at hread
        cases hread
      rw [if_neg hnot] at h
      split at h
      next reqs hfind =>
        split at h
        · next hle =>
          obtain ⟨rfl, rfl⟩ := Prod.mk.inj (Except.ok.inj h)
          obtain ⟨hkey, before, after, heq, hfirst⟩ := List.find?_eq_some_iff_append.mp hfind
          obtain ⟨key, ids⟩ := reqs
          obtain rfl : key = (s.reqBuffer id).physAddr := by simpa using hkey
          have hfirst (reqs : Addr × List ℕ) (hreqs : reqs ∈ before) : reqs.1 ≠ (s.reqBuffer id).physAddr := by
            simpa using hfirst reqs hreqs
          refine .inr ⟨rfl, .inr ⟨((s.reqBuffer id).physAddr, ids), by simp [heq], rfl⟩, _, rfl, ?_⟩
          rw [heq, inflight_modify hfirst]
          exact .joins before after ids hfirst hle
        · cases h
      next hfind =>
        by_cases hsent : env.sent = true
        · rw [if_pos hsent] at h
          obtain ⟨rfl, rfl⟩ := Prod.mk.inj (Except.ok.inj h)
          exact .inr ⟨rfl, .inl hsent, _, rfl, .opens _ (by simpa using hfind)⟩
        · rw [if_neg hsent] at h
          obtain ⟨rfl, rfl⟩ := Prod.mk.inj (Except.ok.inj h)
          exact .inl ⟨rfl, rfl, by simpa using hsent, by simpa using hfind⟩

/-- The change of a request that goes straight to the fill queue of the L1, in one. -/
theorem State.handedOver_eq {m : State} (rdyCycle : ℕ) (h : s.memCompleteBusInAccess cfg id priority = .ok m) :
    ∃ priority' l1fillSeqNum,
      m.setReq id { m.reqBuffer id with rdyCycle } =
        { (s.setReq id { s.reqBuffer id with state := .fillL1, rdyCycle, queue := some .l1fill }).insertEntry
          .l1fill id priority' with l1fillSeqNum } := by
  obtain ⟨priority', l1fillSeqNum, -, rfl⟩ := State.memCompleteBusInAccess_eq h
  refine ⟨priority', l1fillSeqNum, ?_⟩
  have hself : (s.setReq id { s.reqBuffer id with
      state := .fillL1, rdyCycle := s.l1CycleCount + 1, queue := some .l1fill }).reqBuffer id = _ := s.setReq_self id _
  dsimp only [State.insertEntry, State.setQueue]
  rw [hself]
  exact congrArg (fun m : State => { m.insertEntry .l1fill id priority' with l1fillSeqNum }) (s.setReq_setReq id _ _)

/-- A miss that is sent, refused or handed over. -/
theorem State.handOverL1Miss_step (hsend : base.AtSend cfg id) (hquiet : QuietRun cfg (base.Overtakes cfg env) base s)
    (hread : (s.reqBuffer id).type.isWb = false) (hinflight : s.inflightReadReqs = base.inflightReadReqs)
    (hreq : ∃ l1MissCycle, s.reqBuffer id = { base.reqBuffer id with l1Miss := true, l1MissCycle })
    (h : s.handOverL1Miss cfg env id ii = .ok (done, t)) : EntryStep cfg env base .l1 id ii base done t := by
  have hstate : (s.reqBuffer id).state = .l1Wait := by
    have hlive : (base.reqBuffer id).state ≠ .inv := by
      rw [hsend.state]
      decide
    exact (hquiet.follows hlive).state_eq hsend.state (by decide) (by decide)
  rw [State.handOverL1Miss] at h
  by_cases hconstant : cfg.constantMemoryLatency = true
  · rw [if_pos hconstant] at h
    obtain ⟨n, hn, h⟩ := Execution.bind_eq_ok.mp h
    obtain ⟨rfl, rfl⟩ := Prod.mk.inj (Except.ok.inj h)
    obtain ⟨priority', l1fillSeqNum, heq⟩ := State.handedOver_eq (n.l1CycleCount + cfg.memoryCycles) hn
    rw [heq]
    have hrun := hquiet.tail (s.l1fillSeqNum_quiet l1fillSeqNum)
    exact .progress hrun (.handOver { s with l1fillSeqNum } (n.l1CycleCount + cfg.memoryCycles) priority' rfl hsend
      hconstant hrun hstate hread) .refl
  · rw [if_neg hconstant] at h
    obtain ⟨⟨done', m⟩, hm, h⟩ := Execution.bind_eq_ok.mp h
    obtain ⟨rfl, rfl⟩ := Prod.mk.inj (Except.ok.inj h)
    rw [State.sendL1Miss] at hm
    rw [if_neg (not_not.mpr hstate)] at hm
    obtain ⟨⟨sent, n⟩, hn, hm⟩ := Execution.bind_eq_ok.mp hm
    obtain ⟨rfl, rfl⟩ := Prod.mk.inj (Except.ok.inj hm)
    have hphys : (s.reqBuffer id).physAddr = (base.reqBuffer id).physAddr := by
      obtain ⟨l1MissCycle, heq⟩ := hreq
      rw [heq]
    have hanswer := State.ramulatorSend_read (by rw [State.setReq_self]; exact hread) hn
    cases hanswer with
    | inl hno =>
        obtain ⟨rfl, rfl, hfull, halone⟩ := hno
        rw [if_neg (by simp), State.setReq_self, State.setReq_setReq]
        have hback : s.setReq id { s.reqBuffer id with state := .l1Wait } = s := by
          rw [← hstate, State.setReq_same]
        rw [hback]
        rw [State.setReq_self] at halone
        exact .progress hquiet (.reject s rfl ⟨hsend, by simpa using hconstant, hfull,
          fun reqs hreqs => hphys ▸ halone reqs (hinflight ▸ hreqs)⟩ hquiet hstate hread hreq) .refl
    | inr hyes =>
        obtain ⟨rfl, htaken, inflightReadReqs, rfl, hregisters⟩ := hyes
        rw [State.setReq_self] at htaken hregisters
        have hnot : ¬ base.Rejects cfg env id := by
          intro hrejects
          rcases htaken with hsent | ⟨reqs, hmem, hsame⟩
          · cases hrejects.full.symm.trans hsent
          · exact hrejects.alone reqs (hinflight ▸ hmem) (hsame.trans hphys)
        have hprogress : Progress cfg env base .l1 id ii s true _ :=
          .send s inflightReadReqs rfl hsend hnot hquiet hstate hread (by simpa using hconstant) hregisters
        refine .progress hquiet (hprogress.congr ?_) .refl
        have hself : (s.setReq id { s.reqBuffer id with state := .memNew }).reqBuffer id = _ := s.setReq_self id _
        rw [if_pos rfl]
        dsimp only
        rw [hself]
        exact congrArg (fun m : State => ((({ m with inflightReadReqs }.markEntry .l1 ii).reserve cfg id).trainMiss cfg id))
          (s.setReq_setReq id _ _).symm

theorem State.FillsWb.handOver (h : State.FillsWb cfg env base id ii s) (hmiss : base.AtMiss cfg id)
    (hwb : (base.reqBuffer id).type = .wb) (hthrough : cfg.l1WriteThrough = true)
    (ht : s.handOverL1Miss cfg env id ii = .ok (done, t)) : EntryStep cfg env base .l1 id ii base done t := by
  have hnot {m : State} (hstate : (m.reqBuffer id).state ≠ .l1Wait) {out : Bool × State} :
      m.sendL1Miss cfg env id ii ≠ .ok out := by
    rw [State.sendL1Miss]
    rw [if_pos hstate]
    exact fun h => by cases h
  rw [State.handOverL1Miss] at ht
  by_cases hconstant : cfg.constantMemoryLatency = true
  · rw [if_pos hconstant] at ht
    obtain ⟨n, hn, ht⟩ := Execution.bind_eq_ok.mp ht
    obtain ⟨rfl, rfl⟩ := Prod.mk.inj (Except.ok.inj ht)
    obtain ⟨priority', l1fillSeqNum, heq⟩ := State.handedOver_eq (n.l1CycleCount + cfg.memoryCycles) hn
    rw [heq]
    cases h with
    | freed s c way rdyCycle hquiet hc hback hcore hcount =>
        have hrun := hquiet.tail (s.l1fillSeqNum_quiet l1fillSeqNum)
        have hprogress : Progress cfg env base .l1 id ii { s with l1fillSeqNum } true _ :=
          .revive _ c way (n.l1CycleCount + cfg.memoryCycles) priority' rfl hmiss hrun hwb hthrough hconstant hc
        refine .progress hrun (hprogress.congr ?_) .refl
        have hself : (((((s.setL1 (cfg.l1Of (s.reqBuffer id).procId) c).setReq id
            { s.reqBuffer id with rdyCycle, l1MissCycle := none }).freeReq id).markEntry .l1 ii).reqBuffer id) = _ :=
          State.freeReq_self _ id
        rw [hself, State.setReq_self]
        refine congrArg (State.trainMiss cfg · id) ?_
        have hleft := (s.setL1 (cfg.l1Of (s.reqBuffer id).procId) c).freeReq_setReq id
          { s.reqBuffer id with l1MissCycle := none } { s.reqBuffer id with
            state := .fillL1
            rdyCycle := n.l1CycleCount + cfg.memoryCycles
            queue := some .l1fill
            opPtrs := []
            l1MissCycle := none }
        have hright := (s.setL1 (cfg.l1Of (s.reqBuffer id).procId) c).freeReq_setReq id
          { s.reqBuffer id with rdyCycle, l1MissCycle := none } { s.reqBuffer id with
            state := .fillL1
            rdyCycle := n.l1CycleCount + cfg.memoryCycles
            queue := some .l1fill
            opPtrs := []
            l1MissCycle := none }
        exact congrArg (fun m : State => { (m.markEntry .l1 ii).insertEntry .l1fill id priority' with l1fillSeqNum })
          (hleft.trans hright.symm)
    | kept s c way rdyCycle hquiet hthrough hwb hc =>
        have hrun := hquiet.tail (s.l1fillSeqNum_quiet l1fillSeqNum)
        have hprogress : Progress cfg env base .l1 id ii { s with l1fillSeqNum } true _ :=
          .fillOver _ c way (n.l1CycleCount + cfg.memoryCycles) priority' rfl hmiss hrun hwb hthrough hconstant hc
        refine .progress hrun (hprogress.congr ?_) .refl
        have hself : ((((s.setL1 (cfg.l1Of (s.reqBuffer id).procId) c).setReq id { s.reqBuffer id with
            state := .busNew, rdyCycle, l1MissCycle := none }).markEntry .l1 ii).reqBuffer id) = _ :=
          (s.setL1 (cfg.l1Of (s.reqBuffer id).procId) c).setReq_self id _
        rw [hself]
        refine congrArg (State.trainMiss cfg · id) ?_
        exact congrArg (fun m : State => { (m.markEntry .l1 ii).insertEntry .l1fill id priority' with l1fillSeqNum })
          ((s.setL1 (cfg.l1Of (s.reqBuffer id).procId) c).setReq_setReq id _ _).symm
  · rw [if_neg hconstant] at ht
    obtain ⟨out, hout, -⟩ := Execution.bind_eq_ok.mp ht
    refine (hnot ?_ hout).elim
    cases h with
    | freed s c way rdyCycle =>
        have hself : (((((s.setL1 (cfg.l1Of (s.reqBuffer id).procId) c).setReq id
            { s.reqBuffer id with rdyCycle, l1MissCycle := none }).freeReq id).markEntry .l1 ii).reqBuffer id) = _ :=
          State.freeReq_self _ id
        rw [hself]
        intro hwait
        cases hwait
    | kept s c way rdyCycle =>
        have hself : ((((s.setL1 (cfg.l1Of (s.reqBuffer id).procId) c).setReq id { s.reqBuffer id with
            state := .busNew, rdyCycle, l1MissCycle := none }).markEntry .l1 ii).reqBuffer id) = _ :=
          (s.setL1 (cfg.l1Of (s.reqBuffer id).procId) c).setReq_self id _
        rw [hself]
        intro hwait
        cases hwait

theorem State.memProcessL1MissAccess_wb (hwb : (s.reqBuffer id).type.isWb = true) :
    s.memProcessL1MissAccess cfg env id ii = s.processL1WbMiss cfg env id ii := by
  rw [State.memProcessL1MissAccess]
  exact if_pos hwb

/-- A read that misses is noted, or dropped if it stalls nobody. -/
theorem State.memProcessL1MissAccess_read (hread : (s.reqBuffer id).type.isWb = false)
    (h : s.memProcessL1MissAccess cfg env id ii = .ok (done, t)) :
    (cfg.stallMemReqsOnly && !cfg.isStalling (s.reqBuffer id).type) = true ∧ done = true ∧
        (∃ m, s.finishReq id .inv = .ok m ∧ t = m.markEntry .l1 ii) ∨
      (cfg.stallMemReqsOnly && !cfg.isStalling (s.reqBuffer id).type) = false ∧
        t = s.setReq id { s.reqBuffer id with l1Miss := true, l1MissCycle := some s.l1CycleCount } := by
  rw [State.memProcessL1MissAccess] at h
  dsimp only at h
  rw [if_neg (by simp [hread])] at h
  by_cases hstall : (cfg.stallMemReqsOnly && !cfg.isStalling (s.reqBuffer id).type) = true
  · rw [if_pos hstall] at h
    obtain ⟨m, hm, h⟩ := Execution.bind_eq_ok.mp h
    obtain ⟨rfl, rfl⟩ := Prod.mk.inj (Except.ok.inj h)
    exact .inl ⟨hstall, rfl, m, hm, rfl⟩
  · rw [if_neg hstall] at h
    refine .inr ⟨by simpa using hstall, ?_⟩
    by_cases hconstant : cfg.constantMemoryLatency = true
    · rw [if_pos hconstant] at h
      obtain ⟨full, -, h⟩ := Execution.bind_eq_ok.mp h
      exact (Prod.mk.inj (Except.ok.inj h)).2.symm
    · rw [if_neg hconstant] at h
      exact (Prod.mk.inj (Except.ok.inj h)).2.symm

/-- What follows a miss. -/
theorem State.completeL1Miss_step {taken : Bool} {m : State} (hmiss : base.AtMiss cfg id)
    (hquiet : QuietRun cfg (base.Overtakes cfg env) base s) (hreq : s.reqBuffer = base.reqBuffer)
    (hinflight : s.inflightReadReqs = base.inflightReadReqs)
    (hvictim : cfg.allowTypeMatches = true → s.Undisturbed cfg env (base.Overtakes cfg env))
    (hm : s.memProcessL1MissAccess cfg env id ii = .ok (taken, m))
    (h : (if taken && ((cfg.l1WriteThrough && (base.reqBuffer id).type = .wb || !(base.reqBuffer id).type.isWb) &&
        !(cfg.stallMemReqsOnly && !cfg.isStalling (base.reqBuffer id).type)) then m.handOverL1Miss cfg env id ii
      else .ok (taken, m)) = .ok (done, t)) : EntryStep cfg env base .l1 id ii base done t := by
  by_cases hwb : (base.reqBuffer id).type.isWb = true
  · rw [State.memProcessL1MissAccess_wb (by rw [hreq]; exact hwb)] at hm
    have hfills : taken = false ∧ QuietRun cfg (base.Overtakes cfg env) base m ∨
        taken = true ∧ State.FillsWb cfg env base id ii m :=
      State.processL1WbMiss_fills hquiet (by rw [hreq]) hvictim hm
    cases hfills with
    | inl hwait =>
        obtain ⟨rfl, hrun⟩ := hwait
        obtain ⟨rfl, rfl⟩ := Prod.mk.inj (Except.ok.inj h)
        exact .quiet hrun
    | inr hfills =>
        obtain ⟨rfl, hfills⟩ := hfills
        by_cases hthrough : (true && ((cfg.l1WriteThrough && (base.reqBuffer id).type = .wb ||
            !(base.reqBuffer id).type.isWb) && !(cfg.stallMemReqsOnly && !cfg.isStalling (base.reqBuffer id).type))) = true
        · rw [if_pos hthrough] at h
          simp only [hwb, Bool.true_and, Bool.not_true, Bool.or_false, Bool.and_eq_true, decide_eq_true_eq] at hthrough
          exact hfills.handOver hmiss hthrough.1.2 hthrough.1.1 h
        · rw [if_neg hthrough] at h
          obtain ⟨rfl, rfl⟩ := Prod.mk.inj (Except.ok.inj h)
          exact hfills.step hmiss hwb
  · have hread : (base.reqBuffer id).type.isWb = false := by simpa using hwb
    have hdone : _ ∨ _ := State.memProcessL1MissAccess_read (by rw [hreq]; exact hread) hm
    rw [hreq] at hdone
    cases hdone with
    | inl hstall =>
        obtain ⟨hstall, rfl, n, hn, rfl⟩ := hstall
        rw [hstall, if_neg (by simp)] at h
        obtain ⟨rfl, rfl⟩ := Prod.mk.inj (Except.ok.inj h)
        have hends : (s.reqBuffer id).Ends cfg .l1 0 := by
          rw [hreq]
          exact .l1 hmiss.state (.inr (by simp_all))
        refine EntryStep.before hquiet (Progress.freed .inv (s.l1CycleCount + 1) hends ?_).step
        rw [Int.sub_zero]
        exact hn
    | inr hnote =>
        obtain ⟨hstall, rfl⟩ := hnote
        have hsend : base.AtSend cfg id := ⟨hmiss, hread, fun hon => by simpa [hon] using hstall⟩
        have hrun := hquiet.tail (.note s id (s.reqBuffer id).rdyCycle (s.reqBuffer id).mlcMiss
          (s.reqBuffer id).mlcMissCycle true (some s.l1CycleCount))
        rw [hreq] at hrun
        cases taken with
        | false =>
            obtain ⟨rfl, rfl⟩ := Prod.mk.inj (Except.ok.inj h)
            exact .quiet hrun
        | true =>
            rw [if_pos (by simp [hread, hstall])] at h
            refine State.handOverL1Miss_step hsend hrun ?_ hinflight ?_ h
            · rw [State.setReq_self]
              exact hread
            · exact ⟨_, State.setReq_self ..⟩

theorem State.memCompleteL1Access_step
    (hloop : ∃ pass, s.pass = some pass ∧ pass.queue = .l1 ∧ s.EntryAt .l1 pass.ii id)
    (hstate : (s.reqBuffer id).state = .l1Wait) (hready : (s.reqBuffer id).rdyCycle ≤ s.l1CycleCount)
    (h : s.memCompleteL1Access cfg env id ii = .ok (done, t)) : EntryStep cfg env s .l1 id ii s done t := by
  rw [State.memCompleteL1Access, State.accessL1] at h
  dsimp only at h
  rw [Cache.access_fst] at h
  have hlines : ((s.l1 (cfg.l1Of (s.reqBuffer id).procId)).access cfg.l1 s.simTime (s.reqBuffer id).addr
      (cfg.prefetchUpdateLruL1 || !(s.reqBuffer id).type.isPrefetch)).2.SameLines _ := Cache.access_sameLines
  generalize ((s.l1 (cfg.l1Of (s.reqBuffer id).procId)).access cfg.l1 s.simTime (s.reqBuffer id).addr
      (cfg.prefetchUpdateLruL1 || !(s.reqBuffer id).type.isPrefetch)).2 = c at h hlines
  have hquiet : QuietRun cfg (s.Overtakes cfg env) s (s.setL1 (cfg.l1Of (s.reqBuffer id).procId) c) :=
    .single (.lines s _ c hlines)
  generalize hway : (if cfg.forceL1Miss = true then none
    else (s.l1 (cfg.l1Of (s.reqBuffer id).procId)).lookup cfg.l1 (s.reqBuffer id).addr) = way at h
  by_cases hhit : (way.isSome || cfg.perfectL1) = true
  · rw [if_pos hhit] at h
    refine EntryStep.before hquiet (State.completeL1Hit_step ?_ h)
    exact hstate
  · rw [if_neg hhit] at h
    simp only [Bool.or_eq_true, not_or, Bool.not_eq_true, Option.isSome_eq_false_iff, Option.isNone_iff_eq_none] at hhit
    have hmiss : s.AtMiss cfg id := by
      refine ⟨hloop, hstate, hready, ?_, hhit.2⟩
      by_cases hforce : cfg.forceL1Miss = true
      · exact .inl hforce
      · rw [if_neg hforce, hhit.1] at hway
        exact .inr (Cache.lookup_eq_none_iff.mp hway)
    have hvictim (hallow : cfg.allowTypeMatches = true) :
        (s.setL1 (cfg.l1Of (s.reqBuffer id).procId) c).Undisturbed cfg env (s.Overtakes cfg env) := by
      obtain ⟨pass, hpass, hk, -⟩ := hloop
      exact fun victim hvictim found ii hsearch hplace hlt =>
        .inr ⟨hallow, pass, victim, found, hpass, hk, hvictim, hsearch, ⟨ii, hplace⟩, hlt⟩
    obtain ⟨⟨taken, m⟩, hm, h⟩ := Execution.bind_eq_ok.mp h
    exact State.completeL1Miss_step hmiss hquiet rfl rfl hvictim hm h

/-! ## The MLC -/

/-- The number of entries that a request to the L1 reserves in the MLC queue. -/
theorem State.reserve_eq (s : State) (cfg : Config) (id : ℕ) :
    ∃ n : ℕ, (n = if cfg.hierMshrOn = true ∧ (s.reqBuffer id).type.isWb = false then 1 else 0) ∧
      s.reserve cfg id =
        (s.count fun pass => { pass with reserveEntryCount := pass.reserveEntryCount + n }).setReq id
          { s.reqBuffer id with reservedEntryCount := (s.reqBuffer id).reservedEntryCount + n } := by
  rw [State.reserve]
  by_cases h : (cfg.hierMshrOn && !(s.reqBuffer id).type.isWb) = true
  · rw [if_pos h]
    simp only [Bool.and_eq_true, Bool.not_eq_true'] at h
    exact ⟨1, (if_pos h).symm, rfl⟩
  · rw [if_neg h]
    refine ⟨0, ?_, ?_⟩
    · rw [if_neg]
      simpa using h
    · simp [State.count]
      exact (State.setReq_same s id).symm

theorem State.count_count (s : State) (f g : Pass → Pass) : (s.count f).count g = s.count fun pass => g (f pass) := by
  simp [State.count, Function.comp_def]

/-- A request goes on from the MLC queue to the L1 queue, with its entry marked. -/
theorem State.insertL1_step {rdyCycle : ℕ} (hstate : (s.reqBuffer id).state = .mlcWait)
    (hwb : cfg.mlcWriteThrough = true ∨ (s.reqBuffer id).type.isWb = false)
    (h : ((s.setReq id { s.reqBuffer id with state := .l1New, rdyCycle }).markEntry .mlc ii).insertL1 cfg id = .ok t) :
    EntryStep cfg env base .mlc id ii s true (t.reserve cfg id) := by
  obtain ⟨priority', l1SeqNum, hpriority, ht⟩ := State.insertL1_eq h
  have hself : ((s.setReq id { s.reqBuffer id with state := .l1New, rdyCycle }).markEntry .mlc ii).reqBuffer id = _ :=
    s.setReq_self id _
  rw [hself] at ht hpriority
  have ht' : t = ((({ s with l1SeqNum }.setReq id { s.reqBuffer id with
      state := .l1New, rdyCycle, queue := some .l1 }).markEntry .mlc ii).insertEntry .l1 id priority').count
        fun pass => { pass with insertionCount := pass.insertionCount + 1 } := by
    rw [ht]
    exact congrArg (fun m : State => ({ (m.markEntry .mlc ii).insertEntry .l1 id priority' with l1SeqNum }.count
      fun pass => { pass with insertionCount := pass.insertionCount + 1 })) (s.setReq_setReq id _ _)
  have hreq : t.reqBuffer id = { s.reqBuffer id with state := .l1New, rdyCycle, queue := some .l1 } := by
    rw [ht']
    exact s.setReq_self id _
  obtain ⟨n, hn, heq⟩ := t.reserve_eq cfg id
  rw [hreq] at hn
  have hprogress : Progress cfg env base .mlc id ii { s with l1SeqNum } true _ :=
    .toL1 _ rdyCycle n priority' rfl hstate hwb hn hpriority
  refine EntryStep.before (.single (s.l1SeqNum_quiet l1SeqNum)) (hprogress.congr ?_).step
  rw [heq, hreq, ht', State.count_count]
  exact congrArg (fun m : State => ((m.markEntry .mlc ii).insertEntry .l1 id priority').count fun pass => { pass with
    insertionCount := pass.insertionCount + 1, reserveEntryCount := pass.reserveEntryCount + n })
      ({ s with l1SeqNum }.setReq_setReq id _ _).symm

theorem State.finishReq_step {back : ℤ} {state : MemReqState} {m : State} (hends : (s.reqBuffer id).Ends cfg k back)
    (hback : back = 0) (h : s.finishReq id state = .ok m) :
    Progress cfg env base k id ii s true (m.markEntry k ii) := by
  subst hback
  refine Progress.freed state (s.l1CycleCount + 1) hends ?_
  rw [Int.sub_zero]
  exact h

theorem Config.not_trains_wb : cfg.trains .wb = false := by simp [Config.trains]

/-- A request that hits in the MLC is delivered and done with there, or waits. -/
theorem State.memProcessMlcHitAccess_finishes (overtakes : Prop) {way : Option ℕ}
    (hpass : ∀ pass, s.pass = some pass → pass.queue ≠ .l1) (hstate : (s.reqBuffer id).state = .mlcWait)
    (h : s.memProcessMlcHitAccess cfg env id ii way = .ok (done, t)) :
    done = false ∧ QuietRun cfg overtakes s t ∨
      done = true ∧ ∃ m n, QuietRun cfg overtakes s m ∧ (m.reqBuffer id).state = .mlcWait ∧
        ((m.reqBuffer id).doneFunc = none ∨ (m.reqBuffer id).delivered = true) ∧
          m.finishMlc cfg id = .ok n ∧ t = n.markEntry .mlc ii := by
  rw [State.memProcessMlcHitAccess] at h
  obtain ⟨⟨delivered, m⟩, hm, h⟩ := Execution.bind_eq_ok.mp h
  obtain ⟨hrun, hdelivered⟩ : QuietRun cfg overtakes s m ∧ _ :=
    State.tryDoneFunc_quiet (fun _ _ => State.yields_of_pass hpass) hm
  cases delivered with
  | false =>
      obtain ⟨rfl, rfl⟩ := Prod.mk.inj (Except.ok.inj h)
      exact .inl ⟨rfl, hrun⟩
  | true =>
      have hlive : (s.reqBuffer id).state ≠ .inv := by
        rw [hstate]
        decide
      have hdone : (m.reqBuffer id).doneFunc = none ∨ (m.reqBuffer id).delivered = true := by
        cases hdelivered rfl with
        | inl hnone =>
            rw [hnone.1]
            exact .inl hnone.2
        | inr hyes => exact .inr hyes
      have hlines (f : ℕ → Cache LineData) : ∃ mlc, (way.elim m fun way => { m with mlc := f way }) = { m with mlc } := by
        cases way with
        | none => exact ⟨m.mlc, rfl⟩
        | some way => exact ⟨f way, rfl⟩
      obtain ⟨mlc, hlines⟩ := hlines fun way => m.mlc.setData (cfg.mlc.set (s.reqBuffer id).addr) way
        ((m.mlc.entries (cfg.mlc.set (s.reqBuffer id).addr) way).data.hit (s.reqBuffer id).type)
      dsimp only at h
      rw [if_pos rfl, hlines] at h
      obtain ⟨n, hn, h⟩ := Execution.bind_eq_ok.mp h
      obtain ⟨rfl, rfl⟩ := Prod.mk.inj (Except.ok.inj h)
      exact .inr ⟨rfl, _, n, hrun.tail (m.mlc_quiet mlc), (hrun.follows hlive).state_eq hstate (by decide) (by decide),
        hdone, hn, rfl⟩

/-- A writeback that goes on to the L1, or a request that is done. -/
theorem State.finishMlc_cases {m : State} (h : s.finishMlc cfg id = .ok m) :
    (cfg.mlcWriteThrough = true ∧ (s.reqBuffer id).type = .wb) ∧
        m = s.setReq id { s.reqBuffer id with
          state := .l1New, rdyCycle := s.l1CycleCount + cfg.mlcqToL1qTransferLatency } ∨
      ¬ (cfg.mlcWriteThrough = true ∧ (s.reqBuffer id).type = .wb) ∧ s.finishReq id .mlcHitDone = .ok m := by
  rw [State.finishMlc] at h
  by_cases hthrough : (cfg.mlcWriteThrough && (s.reqBuffer id).type = .wb) = true
  · rw [if_pos hthrough] at h
    exact .inl ⟨by simpa using hthrough, (Except.ok.inj h).symm⟩
  · rw [if_neg hthrough] at h
    exact .inr ⟨by simpa using hthrough, h⟩

theorem State.finishReq_type {m : State} {state : MemReqState} (h : s.finishReq id state = .ok m) :
    (m.reqBuffer id).type = (s.reqBuffer id).type := by
  rw [State.finishReq] at h
  obtain ⟨-, -, -, rfl⟩ := State.memFreeReqbuf_eq h
  rw [State.freeReq_self, State.setReq_self]

/-- A request that hits in the MLC. -/
theorem State.completeMlcHit_step {way : Option ℕ} (hpass : ∀ pass, s.pass = some pass → pass.queue ≠ .l1)
    (hstate : (s.reqBuffer id).state = .mlcWait) (h : s.completeMlcHit cfg env id ii way = .ok (done, t)) :
    EntryStep cfg env base .mlc id ii s done t := by
  rw [State.completeMlcHit] at h
  obtain ⟨⟨hit, m⟩, hm, h⟩ := Execution.bind_eq_ok.mp h
  cases State.memProcessMlcHitAccess_finishes (base.Overtakes cfg env) hpass hstate hm with
  | inl hno =>
      obtain ⟨rfl, hrun⟩ := hno
      obtain ⟨rfl, rfl⟩ := Prod.mk.inj (Except.ok.inj h)
      exact .quiet hrun
  | inr hyes =>
      obtain ⟨rfl, n, o, hrun, hn, hdone, ho, rfl⟩ := hyes
      refine EntryStep.before hrun ?_
      dsimp only at h
      rw [if_pos rfl] at h
      split at h
      · cases h
      · cases State.finishMlc_cases ho with
        | inl hthrough =>
            obtain ⟨hthrough, rfl⟩ := hthrough
            have htype : (((n.setReq id { n.reqBuffer id with
                state := .l1New, rdyCycle := n.l1CycleCount + cfg.mlcqToL1qTransferLatency }).markEntry .mlc ii).reqBuffer
                  id).type = .wb := by
              change ((n.setReq id { n.reqBuffer id with
                state := .l1New, rdyCycle := n.l1CycleCount + cfg.mlcqToL1qTransferLatency }).reqBuffer id).type = _
              rw [State.setReq_self]
              exact hthrough.2
            simp only [htype, hthrough.1, Config.not_trains_wb, Bool.and_false, Bool.false_eq_true, if_false,
              decide_true, Bool.and_self, if_true] at h
            obtain ⟨p, hp, h⟩ := Execution.bind_eq_ok.mp h
            obtain ⟨rfl, rfl⟩ := Prod.mk.inj (Except.ok.inj h)
            have hstep : EntryStep cfg env base .mlc id ii n true _ := State.insertL1_step hn (.inl hthrough.1) hp
            have hwb : (p.reqBuffer id).type.isWb = true := by
              rw [State.insertL1_type hp, htype]
              rfl
            rwa [State.reserve_wb hwb] at hstep
        | inr hfinish =>
            obtain ⟨hnot, hfinish⟩ := hfinish
            have hfree := State.finishReq_type hfinish
            have htype : ((o.markEntry .mlc ii).reqBuffer id).type = (n.reqBuffer id).type := hfree
            rw [htype, if_neg (by simpa using hnot)] at h
            obtain ⟨rfl, rfl⟩ := Prod.mk.inj (Except.ok.inj h)
            have hends : (n.reqBuffer id).Ends cfg .mlc 0 := .mlc hn (by grind)
            have hstep : EntryStep cfg env base .mlc id ii n true (o.markEntry .mlc ii) :=
              (State.finishReq_step hends rfl hfinish).step
            split
            · exact hstep.after (.call _ id _ rfl)
            · exact hstep

/-- A request that misses in the MLC: a writeback fills it and is done, or the request is for the L1. -/
inductive State.MissesMlc (cfg : Config) (overtakes : Prop) (s : State) (id ii : ℕ) : State → Prop where
  | finished {m n : State} (hrun : QuietRun cfg overtakes s m) (hwb : (s.reqBuffer id).type.isWb = true)
      (hdone : (s.reqBuffer id).doneFunc.isSome = true ∨ ¬ (cfg.mlcWriteThrough = true ∧ (s.reqBuffer id).type = .wb))
      (hn : m.finishReq id .mlcHitDone = .ok n) : s.MissesMlc cfg overtakes id ii (n.markEntry .mlc ii)
  | forL1 {m : State} (rdyCycle : ℕ) (hrun : QuietRun cfg overtakes s m)
      (hwb : cfg.mlcWriteThrough = true ∧ (s.reqBuffer id).type = .wb ∨ (s.reqBuffer id).type.isWb = false) :
      s.MissesMlc cfg overtakes id ii
        ((m.setReq id { m.reqBuffer id with state := .l1New, rdyCycle }).markEntry .mlc ii)

theorem State.memProcessMlcMissAccess_misses (overtakes : Prop)
    (hpass : ∃ pass, s.pass = some pass ∧ pass.queue ≠ .l1) (hstate : (s.reqBuffer id).state = .mlcWait)
    (h : s.memProcessMlcMissAccess cfg env id ii = .ok (done, t)) :
    done = false ∧ QuietRun cfg overtakes s t ∨ done = true ∧ s.MissesMlc cfg overtakes id ii t := by
  rw [State.memProcessMlcMissAccess] at h
  dsimp only at h
  have hnote : QuietRun cfg overtakes s _ := .single (.note s id (s.reqBuffer id).rdyCycle true (some s.l1CycleCount)
    (s.reqBuffer id).l1Miss (s.reqBuffer id).l1MissCycle)
  have hself := s.setReq_self id { s.reqBuffer id with mlcMiss := true, mlcMissCycle := some s.l1CycleCount }
  generalize s.setReq id { s.reqBuffer id with mlcMiss := true, mlcMissCycle := some s.l1CycleCount } = m at h hnote hself
  have hlive : (s.reqBuffer id).state ≠ .inv := by
    rw [hstate]
    decide
  have hpass' {n : State} (hrun : QuietRun cfg overtakes s n) (pass : Pass) (hn : n.pass = some pass) :
      pass.queue ≠ .l1 := by
    have hmap := hrun.pass_map (f := Pass.queue) fun _ _ => rfl
    obtain ⟨pass', hs, hne⟩ := hpass
    rw [hn, hs] at hmap
    rw [Option.some.inj hmap]
    exact hne
  have hfinish {m n : State} (hrun : QuietRun cfg overtakes s m) (hn : m.finishReq id .mlcHitDone = .ok n)
      (hwb : (s.reqBuffer id).type.isWb = true)
      (hdone : (s.reqBuffer id).doneFunc.isSome = true ∨ ¬ (cfg.mlcWriteThrough = true ∧ (s.reqBuffer id).type = .wb))
      (ht : Except.ok (ε := String) (true, n.markEntry .mlc ii) = .ok (done, t)) :
      done = false ∧ QuietRun cfg overtakes s t ∨ done = true ∧ s.MissesMlc cfg overtakes id ii t := by
    obtain ⟨rfl, rfl⟩ := Prod.mk.inj (Except.ok.inj ht)
    exact .inr ⟨rfl, .finished hrun hwb hdone hn⟩
  by_cases hwb : (s.reqBuffer id).type.isWb = true
  · rw [hself, if_pos hwb] at h
    by_cases hdone : (s.reqBuffer id).doneFunc.isSome = true
    · rw [if_pos hdone] at h
      split at h
      · cases h
      · split at h
        · cases h
        · obtain ⟨⟨delivered, n⟩, hn, h⟩ := Execution.bind_eq_ok.mp h
          have hrun : QuietRun cfg overtakes m n :=
            (State.doneFunc_quiet (fun _ _ => State.yields_of_pass (hpass' hnote)) hn).1
          cases delivered with
          | false =>
              obtain ⟨rfl, rfl⟩ := Prod.mk.inj (Except.ok.inj h)
              exact .inl ⟨rfl, (hnote.trans hrun).tail (.note n id _ _ _ _ _)⟩
          | true =>
              obtain ⟨⟨filled, o⟩, ho, h⟩ := Execution.bind_eq_ok.mp h
              obtain ⟨p, hp, h⟩ := Execution.bind_eq_ok.mp h
              have hfill : QuietRun cfg overtakes n o := State.mlcFillLine_quiet (hpass' (hnote.trans hrun)) ho
              exact hfinish ((hnote.trans hrun).trans hfill) hp hwb (.inl hdone) h
    · rw [if_neg hdone] at h
      obtain ⟨⟨filled, o⟩, ho, h⟩ := Execution.bind_eq_ok.mp h
      obtain ⟨p, hp, h⟩ := Execution.bind_eq_ok.mp h
      have hrun : QuietRun cfg overtakes s o := hnote.trans (State.mlcFillLine_quiet (hpass' hnote) ho)
      have hloop : s.pass ≠ none := by
        obtain ⟨pass, hs, -⟩ := hpass
        rw [hs]
        simp
      have htype := (((hrun.follows hlive).writeback (.inr (.inr hloop))).2 hwb).1
      cases State.finishMlc_cases hp with
      | inl hthrough =>
          obtain ⟨hthrough, rfl⟩ := hthrough
          obtain ⟨rfl, rfl⟩ := Prod.mk.inj (Except.ok.inj h)
          rw [htype] at hthrough
          exact .inr ⟨rfl, .forL1 _ hrun (.inl hthrough)⟩
      | inr hfinished =>
          rw [htype] at hfinished
          exact hfinish hrun hfinished.2 hwb (.inr hfinished.1) h
  · rw [hself, if_neg hwb] at h
    obtain ⟨full, hfull, h⟩ := Execution.bind_eq_ok.mp h
    cases full with
    | true =>
        obtain ⟨rfl, rfl⟩ := Prod.mk.inj (Except.ok.inj h)
        exact .inl ⟨rfl, hnote⟩
    | false =>
        obtain ⟨rfl, rfl⟩ := Prod.mk.inj (Except.ok.inj h)
        have hforL1 : s.MissesMlc cfg overtakes id ii _ :=
          .forL1 (m.l1CycleCount + cfg.mlcqToL1qTransferLatency) hnote (.inr (by simpa using hwb))
        rw [hself] at hforL1
        exact .inr ⟨rfl, hforL1⟩

/-- A writeback that is requested back is free when it goes on to the L1. -/
theorem State.reviveL1_step {state : MemReqState} {m n : State} (hstate : (s.reqBuffer id).state = .mlcWait)
    (hwb : (s.reqBuffer id).type = .wb) (hthrough : cfg.mlcWriteThrough = true)
    (hdone : (s.reqBuffer id).doneFunc.isSome = true) (hbase : base.AtRevival cfg id) (hm : s.finishReq id state = .ok m)
    (hn : (m.markEntry .mlc ii).insertL1 cfg id = .ok n) : EntryStep cfg env base .mlc id ii s true (n.reserve cfg id) := by
  have hreserve : n.reserve cfg id = n := by
    refine State.reserve_wb ?_
    have htype := State.finishReq_type hm
    have htype' : ((m.markEntry .mlc ii).reqBuffer id).type = (s.reqBuffer id).type := htype
    rw [State.insertL1_type hn, htype', hwb]
    rfl
  rw [hreserve]
  rw [State.finishReq] at hm
  obtain ⟨-, -, -, rfl⟩ := State.memFreeReqbuf_eq hm
  rw [State.freeReq_state s id { s.reqBuffer id with rdyCycle := s.l1CycleCount + 1 }] at hn
  obtain ⟨priority', l1SeqNum, hpriority, rfl⟩ := State.insertL1_eq hn
  have hself : (((s.setReq id { s.reqBuffer id with rdyCycle := s.l1CycleCount + 1 }).freeReq id).markEntry .mlc
      ii).reqBuffer id = _ := State.freeReq_self _ id
  rw [State.setReq_self] at hself
  rw [hself] at hpriority ⊢
  have hprogress : Progress cfg env base .mlc id ii { s with l1SeqNum } true _ :=
    .reviveL1 _ (s.l1CycleCount + 1) priority' rfl hstate hwb hthrough hdone hpriority hbase
  exact EntryStep.before (.single (s.l1SeqNum_quiet l1SeqNum)) hprogress.step

theorem State.completeMlcMiss_step {taken : Bool} {m : State} (hpass : ∃ pass, s.pass = some pass ∧ pass.queue ≠ .l1)
    (hstate : (s.reqBuffer id).state = .mlcWait)
    (hbase : (s.reqBuffer id).type = .wb → cfg.mlcWriteThrough = true → (s.reqBuffer id).doneFunc.isSome = true →
      base.AtRevival cfg id) (hm : s.memProcessMlcMissAccess cfg env id ii = .ok (taken, m))
    (h : (if taken && (cfg.mlcWriteThrough && (s.reqBuffer id).type = .wb || !(s.reqBuffer id).type.isWb) then do
        let m := (← m.insertL1 cfg id).reserve cfg id
        let req := m.reqBuffer id
        return (true, if !cfg.prefOracleTrainOn && cfg.trains req.type then
            m.call id (.umlcMiss req.procId req.addr req.loadPC req.globalHist)
          else m)
      else .ok (taken, m)) = .ok (done, t)) : EntryStep cfg env base .mlc id ii s done t := by
  have hlive : (s.reqBuffer id).state ≠ .inv := by
    rw [hstate]
    decide
  have hloop : s.pass ≠ none := by
    obtain ⟨pass, hs, -⟩ := hpass
    rw [hs]
    simp
  have hcall {p : State} (hp : EntryStep cfg env base .mlc id ii s true p)
      (ht : Except.ok (ε := String) (true, if (!cfg.prefOracleTrainOn && cfg.trains (p.reqBuffer id).type) = true then
          p.call id (.umlcMiss (p.reqBuffer id).procId (p.reqBuffer id).addr (p.reqBuffer id).loadPC
            (p.reqBuffer id).globalHist) else p) = .ok (done, t)) : EntryStep cfg env base .mlc id ii s done t := by
    obtain ⟨rfl, rfl⟩ := Prod.mk.inj (Except.ok.inj ht)
    split
    · exact hp.after (.call p id _ rfl)
    · exact hp
  cases State.memProcessMlcMissAccess_misses (base.Overtakes cfg env) hpass hstate hm with
  | inl hno =>
      obtain ⟨rfl, hrun⟩ := hno
      obtain ⟨rfl, rfl⟩ := Prod.mk.inj (Except.ok.inj h)
      exact .quiet hrun
  | inr hyes =>
      obtain ⟨rfl, hmisses⟩ := hyes
      cases hmisses with
      | @finished o n hrun hwb hdone hn =>
          have hfollows := hrun.follows hlive
          have ho : (o.reqBuffer id).state = .mlcWait := hfollows.state_eq hstate (by decide) (by decide)
          have hkeep := hfollows.writeback (.inr (.inr hloop))
          by_cases hsends : (true && (cfg.mlcWriteThrough && (s.reqBuffer id).type = .wb ||
              !(s.reqBuffer id).type.isWb)) = true
          · rw [if_pos hsends] at h
            simp only [hwb, Bool.true_and, Bool.not_true, Bool.or_false, Bool.and_eq_true, decide_eq_true_eq] at hsends
            obtain ⟨p, hp, h⟩ := Execution.bind_eq_ok.mp h
            refine hcall ?_ h
            have hback : (s.reqBuffer id).doneFunc.isSome = true := hdone.resolve_right fun hnot => hnot hsends
            have hsome : (o.reqBuffer id).doneFunc.isSome = true := by
              rw [(hkeep.2 hwb).2.1]
              exact hback
            exact (State.reviveL1_step ho ((hkeep.2 hwb).1.trans hsends.2) hsends.1 hsome (hbase hsends.2 hsends.1 hback) hn
              hp).before hrun
          · rw [if_neg hsends] at h
            obtain ⟨rfl, rfl⟩ := Prod.mk.inj (Except.ok.inj h)
            have hends : (o.reqBuffer id).Ends cfg .mlc 0 := .mlc ho (.inr (.inr (hkeep.1.trans hwb)))
            exact .progress hrun (State.finishReq_step hends rfl hn) .refl
      | @forL1 o rdyCycle hrun hwb =>
          have hfollows := hrun.follows hlive
          have ho : (o.reqBuffer id).state = .mlcWait := hfollows.state_eq hstate (by decide) (by decide)
          have hread : cfg.mlcWriteThrough = true ∨ (o.reqBuffer id).type.isWb = false := by
            cases hwb with
            | inl hthrough => exact .inl hthrough.1
            | inr hread => exact .inr ((hfollows.writeback (.inr (.inr hloop))).1.trans hread)
          rw [if_pos (by
            cases hwb with
            | inl hthrough => simp [hthrough.1, hthrough.2]
            | inr hread => simp [hread])] at h
          obtain ⟨p, hp, h⟩ := Execution.bind_eq_ok.mp h
          exact hcall ((State.insertL1_step ho hread hp).before hrun) h

theorem State.memCompleteMlcAccess_step (hpass : ∃ pass, s.pass = some pass ∧ pass.queue ≠ .l1)
    (hstate : (s.reqBuffer id).state = .mlcWait)
    (hbase : s.mlc.lookup cfg.mlc (s.reqBuffer id).addr = none → cfg.perfectMlc = false → (s.reqBuffer id).type = .wb →
      cfg.mlcWriteThrough = true → (s.reqBuffer id).doneFunc.isSome = true → base.AtRevival cfg id) (h : s.memCompleteMlcAccess cfg env id ii = .ok (done, t)) :
    EntryStep cfg env base .mlc id ii s done t := by
  rw [State.memCompleteMlcAccess] at h
  dsimp only at h
  have hway : (s.mlc.access cfg.mlc s.simTime (s.reqBuffer id).addr
    (cfg.prefetchUpdateLruMlc || !(s.reqBuffer id).type.isPrefetch)).1 = s.mlc.lookup cfg.mlc (s.reqBuffer id).addr :=
      Cache.access_fst
  generalize (s.mlc.access cfg.mlc s.simTime (s.reqBuffer id).addr
    (cfg.prefetchUpdateLruMlc || !(s.reqBuffer id).type.isPrefetch)) = access at h hway
  refine EntryStep.before (.single (s.mlc_quiet access.2)) ?_
  by_cases hhit : (access.1.isSome || cfg.perfectMlc) = true
  · rw [if_pos hhit] at h
    refine State.completeMlcHit_step ?_ ?_ h
    · obtain ⟨pass, hs, hne⟩ := hpass
      intro pass' hpass'
      obtain rfl := Option.some.inj (hs.symm.trans hpass')
      exact hne
    · exact hstate
  · rw [if_neg hhit] at h
    simp only [Bool.or_eq_true, not_or, Bool.not_eq_true, Option.isSome_eq_false_iff, Option.isNone_iff_eq_none] at hhit
    obtain ⟨⟨taken, m⟩, hm, h⟩ := Execution.bind_eq_ok.mp h
    exact State.completeMlcMiss_step hpass hstate (hbase (hway ▸ hhit.1) hhit.2) hm h

/-! ## The bodies of the loops -/

theorem State.memProcessL1Entry_step
    (hloop : ∃ pass, s.pass = some pass ∧ pass.queue = .l1 ∧ s.EntryAt .l1 pass.ii id)
    (h : s.memProcessL1Entry cfg env id ii = .ok t) :
    ∃ done m, EntryStep cfg env s .l1 id ii s done m ∧ t = m.countIf done id := by
  rw [State.memProcessL1Entry] at h
  dsimp only at h
  by_cases hinv : (s.reqBuffer id).state = .inv
  · rw [if_pos hinv] at h
    cases h
  · rw [if_neg hinv] at h
    by_cases hready : s.l1CycleCount < (s.reqBuffer id).rdyCycle
    · rw [if_pos hready] at h
      exact ⟨false, s, .quiet .refl, (Except.ok.inj h).symm⟩
    · rw [if_neg hready] at h
      by_cases hnew : (s.reqBuffer id).state = .l1New
      · rw [if_pos hnew] at h
        refine ⟨false, t, .quiet ?_, rfl⟩
        rw [← Except.ok.inj h]
        rw [State.memStartL1Access]
        split
        · exact .single (.start s id .l1Wait _ (.inr ⟨hnew, rfl⟩))
        · exact .refl
      · rw [if_neg hnew] at h
        by_cases hwait : (s.reqBuffer id).state = .l1Wait
        · rw [if_neg (not_not.mpr hwait)] at h
          obtain ⟨⟨done, m⟩, hm, h⟩ := Execution.bind_eq_ok.mp h
          exact ⟨done, m, State.memCompleteL1Access_step hloop hwait (Nat.le_of_not_lt hready) hm,
            (Except.ok.inj h).symm⟩
        · rw [if_pos hwait] at h
          cases h

theorem State.memProcessMlcEntry_step
    (hloop : ∃ pass, s.pass = some pass ∧ pass.queue = .mlc ∧ s.EntryAt .mlc pass.ii id)
    (h : s.memProcessMlcEntry cfg env id ii = .ok t) :
    ∃ done m, EntryStep cfg env s .mlc id ii s done m ∧ t = m.countIf done id := by
  have hpass : ∃ pass, s.pass = some pass ∧ pass.queue ≠ .l1 := by
    obtain ⟨pass, hs, hk, -⟩ := hloop
    exact ⟨pass, hs, by simp [hk]⟩
  rw [State.memProcessMlcEntry] at h
  dsimp only at h
  by_cases hinv : (s.reqBuffer id).state = .inv
  · rw [if_pos hinv] at h
    cases h
  · rw [if_neg hinv] at h
    by_cases hready : s.l1CycleCount < (s.reqBuffer id).rdyCycle
    · rw [if_pos hready] at h
      exact ⟨false, s, .quiet .refl, (Except.ok.inj h).symm⟩
    · rw [if_neg hready] at h
      by_cases hnew : (s.reqBuffer id).state = .mlcNew
      · rw [if_pos hnew] at h
        refine ⟨false, t, .quiet ?_, rfl⟩
        rw [← Except.ok.inj h]
        rw [State.memStartMlcAccess]
        split
        · exact .single (.start s id .mlcWait _ (.inl ⟨hnew, rfl⟩))
        · exact .refl
      · rw [if_neg hnew] at h
        by_cases hwait : (s.reqBuffer id).state = .mlcWait
        · rw [if_neg (not_not.mpr hwait)] at h
          obtain ⟨⟨done, m⟩, hm, h⟩ := Execution.bind_eq_ok.mp h
          have hbase (hmissed : s.mlc.lookup cfg.mlc (s.reqBuffer id).addr = none) (hreal : cfg.perfectMlc = false)
              (hwb : (s.reqBuffer id).type = .wb) (hthrough : cfg.mlcWriteThrough = true)
              (hback : (s.reqBuffer id).doneFunc.isSome = true) : s.AtRevival cfg id :=
            ⟨hloop, hwait, Nat.le_of_not_lt hready, hwb, hthrough, hback, hmissed, hreal⟩
          exact ⟨done, m, State.memCompleteMlcAccess_step hpass hwait hbase hm, (Except.ok.inj h).symm⟩
        · rw [if_pos hwait] at h
          cases h

/-- The assertion of the fill loops. -/
theorem MemReq.fillOk_eq {req : MemReq} (h : req.fillOk = true) :
    req.state ≠ .inv ∧ (req.type ≠ .wb ∨ req.wbRequestedBack = true) ∧ req.type ≠ .wbNodirty := by
  rw [MemReq.fillOk] at h
  simp only [Bool.and_eq_true, Bool.or_eq_true, bne_iff_ne] at h
  exact ⟨h.1.1, h.1.2, h.2⟩

theorem State.fillL1Entry_step (hstate : (s.reqBuffer id).state = .fillL1) (h : s.fillL1Entry cfg env id = .ok t) :
    EntryStep cfg env base .l1fill id ii s false t := by
  have hlive : (s.reqBuffer id).state ≠ .inv := by
    rw [hstate]
    decide
  rw [State.fillL1Entry] at h
  obtain ⟨⟨filled, m⟩, hm, h⟩ := Execution.bind_eq_ok.mp h
  cases State.l1FillLine_quiet (base.Overtakes cfg env) hm with
  | inl hno =>
      obtain ⟨rfl, hrun⟩ := hno
      obtain rfl := Except.ok.inj h
      exact .quiet hrun
  | inr hyes =>
      obtain ⟨rfl, n, hrun, c, way, hc, rfl⟩ := hyes
      have hn : (n.reqBuffer id).state = .fillL1 := (hrun.follows hlive).state_eq hstate (by decide) (by decide)
      dsimp only at h
      rw [if_neg (by simp), State.setReq_self] at h
      split at h
      · cases h
      · next hread =>
        obtain rfl := Except.ok.inj h
        have hprogress : Progress cfg env base .l1fill id ii n false _ :=
          .fill n c way (n.l1CycleCount + 1) rfl hn (by simpa using hread) hc
        refine EntryStep.before hrun (hprogress.congr ?_).step
        rw [State.setReq_setReq]
        rfl

theorem State.setReq_state {req : MemReq} {state : MemReqState} (h : req.state ≠ state) :
    ((s.setReq id req).reqBuffer id).state ≠ state := by
  rwa [State.setReq_self]

theorem State.memProcessL1FillEntry_step (h : s.memProcessL1FillEntry cfg env id ii = .ok t) :
    ∃ done m, EntryStep cfg env base .l1fill id ii s done m ∧
      (t = m.countIf done id ∧ (done = true → (m.reqBuffer id).state ≠ .inv) ∨
        done = true ∧ (m.countRemoval id).removeFromL1FillQueue cfg = .ok t) := by
  unfold State.memProcessL1FillEntry at h
  dsimp only at h
  by_cases hok : (s.reqBuffer id).fillOk = false
  · rw [if_pos hok] at h
    cases h
  · rw [if_neg hok] at h
    obtain ⟨hlive, hwb, -⟩ := MemReq.fillOk_eq (by simpa using hok)
    by_cases hready : s.l1CycleCount < (s.reqBuffer id).rdyCycle
    · rw [if_pos hready] at h
      exact ⟨false, s, .quiet .refl, .inl ⟨(Except.ok.inj h).symm, nofun⟩⟩
    · rw [if_neg hready] at h
      by_cases hfill : (s.reqBuffer id).state = .fillL1
      · rw [if_pos hfill] at h
        exact ⟨false, t, State.fillL1Entry_step hfill h, .inl ⟨rfl, nofun⟩⟩
      · rw [if_neg hfill] at h
        by_cases hmlc : (s.reqBuffer id).state = .fillMlc
        · rw [if_pos hmlc] at h
          by_cases hpresent : cfg.mlcPresent = false
          · rw [if_pos hpresent] at h
            cases h
          · rw [if_neg hpresent] at h
            obtain ⟨m, hm, h⟩ := Execution.bind_eq_ok.mp h
            obtain rfl := Except.ok.inj h
            obtain ⟨priority', mlcFillSeqNum, hpriority, rfl⟩ := State.insertMlcFill_eq hm
            have hgo : (s.reqBuffer id).GoesOn cfg .l1fill .mlcFill .fillMlc (if cfg.hierMshrOn then 1 else 0) :=
              .fillMlc hmlc (by simpa using hpresent) hwb
            have hprogress : Progress cfg env base .l1fill id ii s true _ :=
              .toFill s _ _ (s.reqBuffer id).rdyCycle _ priority' hgo hpriority
            refine ⟨true, _, hprogress.step.after (State.mlcFillSeqNum_rest _ mlcFillSeqNum), .inl ⟨?_, fun _ => ?_⟩⟩
            rotate_left
            · exact State.setReq_state nofun
            have hself := s.setReq_self id { s.reqBuffer id with queue := some .mlcFill }
            rw [State.unreserve_eq]
            dsimp only [State.insertEntry, State.setQueue]
            rw [hself, ← hmlc]
            exact congrArg (fun m : State => ({ m.insertEntry .mlcFill id priority' with mlcFillSeqNum }.markEntry .l1fill
              ii).countRemoval id) (s.setReq_setReq id _ _)
        · rw [if_neg hmlc] at h
          by_cases hdone : (s.reqBuffer id).state = .fillDone
          · rw [if_neg (not_not.mpr hdone)] at h
            by_cases hnone : (s.reqBuffer id).doneFunc = none
            · rw [if_pos hnone] at h
              obtain ⟨m, hm, h⟩ := Execution.bind_eq_ok.mp h
              have hends : (s.reqBuffer id).Ends cfg .l1fill (if cfg.hierMshrOn then 1 else 0) := .l1fill hdone hnone
              rw [State.unreserve_eq] at hm
              exact ⟨true, m.markEntry .l1fill ii,
                (Progress.freed (s.reqBuffer id).state (s.reqBuffer id).rdyCycle hends hm).step, .inr ⟨rfl, h⟩⟩
            · rw [if_neg hnone] at h
              obtain ⟨m, hm, h⟩ := Execution.bind_eq_ok.mp h
              obtain rfl := Except.ok.inj h
              obtain ⟨priority', coreFillSeqNum, hpriority, rfl⟩ := State.insertCoreFill_eq hm
              rw [State.setReq_self, State.setReq_setReq] at *
              have hgo : (s.reqBuffer id).GoesOn cfg .l1fill (.coreFill (s.reqBuffer id).procId) .fillDone 0 :=
                .fillCore hdone (by simpa [Option.isSome_iff_ne_none] using hnone) hwb
              have hprogress : Progress cfg env base .l1fill id ii s true _ :=
                .toFill s _ _ (s.coreCycleCount (s.reqBuffer id).procId) _ priority' hgo hpriority
              rw [Int.sub_zero] at hprogress
              refine ⟨true, _, hprogress.step.after (State.coreFillSeqNum_rest _ coreFillSeqNum), .inl ⟨?_, fun _ => ?_⟩⟩
              rotate_left
              · exact State.setReq_state nofun
              rw [← hdone]
              rfl
          · rw [if_pos hdone] at h
            cases h

theorem State.memProcessMlcFillEntry_step (hpass : ∃ pass, s.pass = some pass ∧ pass.queue ≠ .l1)
    (h : s.memProcessMlcFillEntry cfg env id ii = .ok t) :
    ∃ done m, EntryStep cfg env base .mlcFill id ii s done m ∧ t = m.countIf done id := by
  have hpass' (pass : Pass) (hs : s.pass = some pass) : pass.queue ≠ .l1 := by
    obtain ⟨pass', hs', hne⟩ := hpass
    obtain rfl := Option.some.inj (hs.symm.trans hs')
    exact hne
  rw [State.memProcessMlcFillEntry] at h
  dsimp only at h
  by_cases hok : (s.reqBuffer id).fillOk = false
  · rw [if_pos hok] at h
    cases h
  · rw [if_neg hok] at h
    obtain ⟨hlive, -, -⟩ := MemReq.fillOk_eq (by simpa using hok)
    split at h
    · cases h
    · by_cases hready : s.l1CycleCount < (s.reqBuffer id).rdyCycle
      · rw [if_pos hready] at h
        exact ⟨false, s, .quiet .refl, (Except.ok.inj h).symm⟩
      · rw [if_neg hready] at h
        by_cases hfill : (s.reqBuffer id).state = .fillMlc
        · rw [if_pos hfill] at h
          obtain ⟨⟨filled, m⟩, hm, h⟩ := Execution.bind_eq_ok.mp h
          have hrun : QuietRun cfg (base.Overtakes cfg env) s m := State.mlcFillLine_quiet hpass' hm
          refine ⟨false, t, ?_, rfl⟩
          rw [← Except.ok.inj h]
          have hstate := (hrun.follows hlive).state_eq hfill (by decide) (by decide)
          cases filled with
          | false => exact .quiet hrun
          | true => exact EntryStep.before hrun (Progress.filled m (m.l1CycleCount + 1) rfl hstate).step
        · rw [if_neg hfill] at h
          by_cases hdone : (s.reqBuffer id).state = .fillDone
          · rw [if_neg (not_not.mpr hdone)] at h
            obtain ⟨⟨delivered, m⟩, hm, h⟩ := Execution.bind_eq_ok.mp h
            obtain ⟨hrun, hdelivered⟩ : QuietRun cfg (base.Overtakes cfg env) s m ∧ _ :=
              State.tryDoneFunc_quiet (fun _ _ => State.yields_of_pass hpass') hm
            have hstate := (hrun.follows hlive).state_eq hdone (by decide) (by decide)
            cases delivered with
            | false => exact ⟨false, t, by rw [← Except.ok.inj h]; exact .quiet hrun, rfl⟩
            | true =>
                obtain ⟨n, hn, h⟩ := Execution.bind_eq_ok.mp h
                have hends : (m.reqBuffer id).Ends cfg .mlcFill (if cfg.hierMshrOn then 1 else 0) := by
                  refine .mlcFill hstate ?_
                  cases hdelivered rfl with
                  | inl hnone =>
                      rw [hnone.1]
                      exact .inl hnone.2
                  | inr hyes => exact .inr hyes
                rw [State.unreserve_eq] at hn
                exact ⟨true, n.markEntry .mlcFill ii, EntryStep.before hrun
                  (Progress.freed (m.reqBuffer id).state (m.reqBuffer id).rdyCycle hends hn).step,
                  (Except.ok.inj h).symm⟩
          · rw [if_pos hdone] at h
            cases h

theorem State.memProcessCoreFillEntry_step {procId : ℕ} (hpass : ∃ pass, s.pass = some pass ∧ pass.queue ≠ .l1)
    (h : s.memProcessCoreFillEntry cfg env procId id ii = .ok t) :
    ∃ done m, EntryStep cfg env base (.coreFill procId) id ii s done m ∧ t = m.countIf done id := by
  have hpass' (pass : Pass) (hs : s.pass = some pass) : pass.queue ≠ .l1 := by
    obtain ⟨pass', hs', hne⟩ := hpass
    obtain rfl := Option.some.inj (hs.symm.trans hs')
    exact hne
  rw [State.memProcessCoreFillEntry] at h
  dsimp only at h
  by_cases hproc : (s.reqBuffer id).procId ≠ procId
  · rw [if_pos hproc] at h
    cases h
  · rw [if_neg hproc] at h
    split at h
    · cases h
    · split at h
      · cases h
      · by_cases hstate : (s.reqBuffer id).state ≠ .l1HitDone ∧ (s.reqBuffer id).state ≠ .fillDone
        · rw [if_pos hstate] at h
          cases h
        · rw [if_neg hstate] at h
          have hdone : (s.reqBuffer id).state = .l1HitDone ∨ (s.reqBuffer id).state = .fillDone := by grind
          have hlive : (s.reqBuffer id).state ≠ .inv := by
            rintro hinv
            simp [hinv] at hdone
          obtain ⟨⟨delivered, m⟩, hm, h⟩ := Execution.bind_eq_ok.mp h
          obtain ⟨hrun, hdelivered, -⟩ : QuietRun cfg (base.Overtakes cfg env) s m ∧ _ :=
            State.doneFunc_quiet (fun _ _ => State.yields_of_pass hpass') hm
          have hfollows := hrun.follows hlive
          cases delivered with
          | false => exact ⟨false, t, by rw [← Except.ok.inj h]; exact .quiet hrun, rfl⟩
          | true =>
              obtain ⟨n, hn, h⟩ := Execution.bind_eq_ok.mp h
              have hends : (m.reqBuffer id).Ends cfg (.coreFill (m.reqBuffer id).procId) 0 := by
                refine .core ?_ (hdelivered rfl)
                cases hdone with
                | inl hhit => exact .inl (hfollows.state_eq hhit (by decide) (by decide))
                | inr hfill => exact .inr (hfollows.state_eq hfill (by decide) (by decide))
              rw [hfollows.procId, not_not.mp hproc] at hends
              refine ⟨true, n.markEntry (.coreFill procId) ii, EntryStep.before hrun
                (Progress.freed (m.reqBuffer id).state (m.reqBuffer id).rdyCycle hends ?_).step, (Except.ok.inj h).symm⟩
              rw [Int.sub_zero, State.setReq_same]
              exact hn

/-- The body of a loop is derived from quiet moves and the progress of its request. Only the fill
queue of the L1 is cut within its loop. -/
theorem State.memProcessEntry_step {pass : Pass} (hpass : s.pass = some pass) (hentry : s.EntryAt pass.queue pass.ii id)
    (h : s.memProcessEntry cfg env pass.queue id pass.ii = .ok t) :
    ∃ done m, EntryStep cfg env s pass.queue id pass.ii s done m ∧
      (t = m.countIf done id ∧ (pass.queue = .l1fill → done = true → (m.reqBuffer id).state ≠ .inv) ∨
        pass.queue = .l1fill ∧ done = true ∧ (m.countRemoval id).removeFromL1FillQueue cfg = .ok t) := by
  have hother (hne : pass.queue ≠ .l1) : ∃ pass, s.pass = some pass ∧ pass.queue ≠ .l1 := ⟨pass, hpass, hne⟩
  unfold State.memProcessEntry at h
  cases hk : pass.queue with
  | mlc =>
      rw [hk] at h hentry
      obtain ⟨done, m, hstep, ht⟩ := State.memProcessMlcEntry_step ⟨pass, hpass, hk, hentry⟩ h
      exact ⟨done, m, hstep, .inl ⟨ht, nofun⟩⟩
  | mlcFill =>
      rw [hk] at h hother
      obtain ⟨done, m, hstep, ht⟩ := State.memProcessMlcFillEntry_step (hother (by decide)) h
      exact ⟨done, m, hstep, .inl ⟨ht, nofun⟩⟩
  | l1 =>
      rw [hk] at h hentry
      obtain ⟨done, m, hstep, ht⟩ := State.memProcessL1Entry_step ⟨pass, hpass, hk, hentry⟩ h
      exact ⟨done, m, hstep, .inl ⟨ht, nofun⟩⟩
  | l1fill =>
      rw [hk] at h
      obtain ⟨done, m, hstep, ht⟩ := State.memProcessL1FillEntry_step h
      exact ⟨done, m, hstep, ht.imp (fun hcount => ⟨hcount.1, fun _ => hcount.2⟩) fun hcut => ⟨rfl, hcut⟩⟩
  | coreFill procId =>
      rw [hk] at h hother
      obtain ⟨done, m, hstep, ht⟩ := State.memProcessCoreFillEntry_step (hother (by simp)) h
      exact ⟨done, m, hstep, .inl ⟨ht, nofun⟩⟩

end Scarab.Memory
