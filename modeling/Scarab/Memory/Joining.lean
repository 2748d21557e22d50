import Scarab.Memory.Moves

/-! # Joining and making requests are quiet moves

`mem_adjust_matching_request`, `new_mem_req` and the entry points for writebacks, each as a run of
quiet moves. -/

namespace Scarab.Memory

variable {cfg : Config} {env : Env} {s t : State} {found : Match} {req req' : MemReq} {type : MemReqType}
  {destination : Destination} {op : Option MemOp} {doneFunc : Option DoneFunc} {newPriority : Priority}
  {id : ℕ} {k : QueueId} {overtakes loop : Prop}

/-! ## The state after a basic operation -/

@[simp] theorem State.setReq_self (s : State) (id : ℕ) (req : MemReq) : (s.setReq id req).reqBuffer id = req := by
  simp [State.setReq]

theorem State.setReq_other {id' : ℕ} (h : id' ≠ id) : (s.setReq id req).reqBuffer id' = s.reqBuffer id' := by
  simp [State.setReq, h]

@[simp] theorem State.setReq_setReq (s : State) (id : ℕ) (req req' : MemReq) :
    (s.setReq id req).setReq id req' = s.setReq id req' := by
  unfold State.setReq
  congr 1
  funext id'
  by_cases h : id' = id
  · simp [h]
  · simp [h]

@[simp] theorem State.setReq_same (s : State) (id : ℕ) : s.setReq id (s.reqBuffer id) = s := by
  have h : (fun id' => if id' = id then s.reqBuffer id else s.reqBuffer id') = s.reqBuffer := by
    funext id'
    by_cases h : id' = id
    · simp [h]
    · simp [h]
  rw [State.setReq]
  rw [h]

theorem State.memInsertReqIntoQueue_eq {priority : Priority} (h : s.memInsertReqIntoQueue cfg id k priority = .ok t) :
    ((s.queue k).length : ℤ) < cfg.size k - s.reserved k ∧
      t = s.insertEntry k id (if Priority.zero.lt priority then priority else (s.reqBuffer id).priority) := by
  rw [State.memInsertReqIntoQueue] at h
  obtain ⟨hroom, h⟩ := Execution.ite_error_eq_ok.mp h
  exact ⟨hroom, (Except.ok.inj h).symm⟩

theorem State.memFreeReqbuf_eq (h : s.memFreeReqbuf id = .ok t) :
    s.numReqBuffersPerCore (s.reqBuffer id).procId ≠ 0 ∧ (s.reqBuffer id).reservedEntryCount = 0 ∧
      s.reqCount ≠ 0 ∧ t = s.freeReq id := by
  rw [State.memFreeReqbuf] at h
  by_cases hcore : s.numReqBuffersPerCore (s.reqBuffer id).procId = 0
  · rw [if_pos hcore] at h
    cases h
  · rw [if_neg hcore] at h
    by_cases hreserved : (s.reqBuffer id).reservedEntryCount ≠ 0
    · rw [if_pos hreserved] at h
      cases h
    · rw [if_neg hreserved] at h
      by_cases hcount : s.reqCount = 0
      · rw [if_pos hcount] at h
        cases h
      · rw [if_neg hcount] at h
        exact ⟨hcore, not_not.mp hreserved, hcount, (Except.ok.inj h).symm⟩

theorem State.memAllocateReqBuffer_none {procId : ℕ} {forL1Writeback : Bool}
    (h : s.memAllocateReqBuffer cfg procId type forL1Writeback = .ok (none, t)) : t = s := by
  rw [State.memAllocateReqBuffer] at h
  by_cases hcore : cfg.numCores ≤ procId
  · rw [if_pos hcore] at h
    cases h
  · rw [if_neg hcore] at h
    by_cases hcan : s.memCanAllocateReqBuffer cfg procId type forL1Writeback = true
    · rw [if_pos hcan] at h
      cases hfree : s.reqBufferFreeList with
      | nil => simp [hfree] at h
      | cons id free =>
          simp only [hfree] at h
          by_cases hinv : (s.reqBuffer id).state ≠ .inv
          · rw [if_pos hinv] at h
            cases h
          · rw [if_neg hinv] at h
            cases h
    · rw [if_neg hcan] at h
      exact (Prod.mk.inj (Except.ok.inj h)).2.symm

theorem State.memAllocateReqBuffer_some {procId : ℕ} {forL1Writeback : Bool}
    (h : s.memAllocateReqBuffer cfg procId type forL1Writeback = .ok (some id, t)) :
    procId < cfg.numCores ∧ (s.reqBuffer id).state = .inv ∧
      ∃ free, s.reqBufferFreeList = id :: free ∧ t = s.takeReq free procId := by
  rw [State.memAllocateReqBuffer] at h
  by_cases hcore : cfg.numCores ≤ procId
  · rw [if_pos hcore] at h
    cases h
  · rw [if_neg hcore] at h
    by_cases hcan : s.memCanAllocateReqBuffer cfg procId type forL1Writeback = true
    · rw [if_pos hcan] at h
      cases hfree : s.reqBufferFreeList with
      | nil => simp [hfree] at h
      | cons id' free =>
          simp only [hfree] at h
          by_cases hinv : (s.reqBuffer id').state ≠ .inv
          · rw [if_pos hinv] at h
            cases h
          · rw [if_neg hinv] at h
            obtain ⟨hid, ht⟩ := Prod.mk.inj (Except.ok.inj h)
            obtain rfl := Option.some.inj hid
            exact ⟨Nat.lt_of_not_le hcore, not_not.mp hinv, free, rfl, ht.symm⟩
    · rw [if_neg hcan] at h
      cases (Prod.mk.inj (Except.ok.inj h)).1

/-! ## Joining a request -/

theorem Destination.min2_ne_mem {a b : Destination} (h : a ≠ .mem) : a.min2 b ≠ .mem := by
  cases a <;> cases b <;> simp_all [Destination.min2, Destination.toNat]

theorem Destination.min2_eq_l1 {a b : Destination} (hne : a ≠ .mem) (hab : a = .l1 → b = .l1) :
    a.min2 b = .l1 ↔ a = .l1 := by
  cases a <;> cases b <;> simp_all [Destination.min2, Destination.toNat]

theorem Destination.l1_min2_ne_l1 {b : Destination} (hl1 : b ≠ .l1) (hmem : b ≠ .mem) : Destination.l1.min2 b ≠ .l1 := by
  cases b <;> simp_all [Destination.min2, Destination.toNat]

theorem Priority.not_lt_zero (a : Priority) : a.lt .zero = false := by simp [Priority.lt, Priority.zero]

/-- The entry that was found gets the new priority, or nothing is sorted. -/
inductive State.Resorts (s : State) (found : Match) (newPriority : Priority) : State → Prop where
  | same : s.Resorts found newPriority s
  | rerank (k sorted : QueueId) (ii : ℕ) (hplace : found.place = some (k, ii))
      (hqueue : (s.reqBuffer found.id).queue = some sorted) (hlt : newPriority.lt (s.oldPriority found) = true) :
      s.Resorts found newPriority
        ((s.setQueue k ((s.queue k).modify ii fun entry => { entry with priority := newPriority })).sortQueue sorted)

theorem State.adjustPriority_resorts
    (h : s.adjustPriority cfg found req type destination doneFunc newPriority = .ok t) :
    ∃ req', (req' = req.joined destination doneFunc ∨
      req' = (req.promote cfg type newPriority).joined destination doneFunc) ∧
        (s.setReq found.id req').Resorts found newPriority t := by
  rw [State.adjustPriority] at h
  by_cases hhigher : (newPriority.lt (s.oldPriority found) && !cfg.allFifoQueues) = true
  · rw [if_pos hhigher] at h
    have hlt : newPriority.lt (s.oldPriority found) = true := (Bool.and_eq_true _ _ ▸ hhigher).1
    cases hq : req.queue with
    | none => simp [hq] at h
    | some sorted =>
        simp only [hq] at h
        by_cases hsort : sorted = .mlc ∨ sorted = .l1 ∨ cfg.orderBeyondBus = true
        · rw [if_pos hsort] at h
          refine ⟨_, .inr rfl, ?_⟩
          cases hplace : found.place with
          | none =>
              rw [State.oldPriority, hplace, Priority.not_lt_zero] at hlt
              cases hlt
          | some place =>
              rw [hplace] at h
              obtain ⟨k, ii⟩ := place
              rw [← Except.ok.inj h]
              refine .rerank k sorted ii hplace ?_ hlt
              rw [State.setReq_self]
              exact hq
        · rw [if_neg hsort] at h
          exact ⟨_, .inl rfl, Except.ok.inj h ▸ .same⟩
  · rw [if_neg hhigher] at h
    exact ⟨_, .inl rfl, Except.ok.inj h ▸ .same⟩

/-- What a writeback that is requested back keeps. -/
theorem MemReq.requestBack_eq (h : req.requestBack doneFunc = .ok (some req')) :
    (req.doneFunc.isSome = true → req'.doneFunc.isSome = true) ∧
      req' = { req with doneFunc := req'.doneFunc, wbRequestedBack := req'.wbRequestedBack } := by
  rw [MemReq.requestBack] at h
  by_cases hback : req.wbRequestedBack = false
  · rw [if_pos hback] at h
    by_cases hdone : req.doneFunc.isSome = true
    · rw [if_pos hdone] at h
      cases h
    · rw [if_neg hdone] at h
      obtain rfl := Option.some.inj (Except.ok.inj h)
      exact ⟨fun hsome => (hdone hsome).elim, rfl⟩
  · rw [if_neg hback] at h
    by_cases hnone : req.doneFunc = none
    · rw [if_pos hnone] at h
      obtain rfl := Option.some.inj (Except.ok.inj h)
      refine ⟨fun hsome => ?_, rfl⟩
      rw [hnone] at hsome
      cases hsome
    · rw [if_neg hnone] at h
      by_cases hsame : req.doneFunc = doneFunc
      · rw [if_pos hsame] at h
        obtain rfl := Option.some.inj (Except.ok.inj h)
        exact ⟨id, rfl⟩
      · rw [if_neg hsame] at h
        cases Except.ok.inj h

/-- The types of a request and of one that joins it. -/
structure MemReqType.Match (cfg : Config) (reqType type : MemReqType) (found : Match) : Prop where
  alike : reqType.Alike type ∨ cfg.allowTypeMatches = true ∧ cfg.hierMshrOn = false ∧ reqType.isWb = true
  hitPrefetch : found.demandHitPrefetch = true → reqType.isWb = false ∧ type.isWb = false ∧ reqType.isInst = type.isInst
  hitWriteback : found.demandHitWriteback = true → reqType.isWb = true ∧ type.isWb = false

/-- The last changes of a request that is joined. -/
theorem MemReq.joined_adjusts {ops : List OpPtr} {req₁ : MemReq} (h : req.Adjusts cfg loop ops req₁)
    (hwb : cfg.allowTypeMatches = false ∨ cfg.hierMshrOn = true ∨ loop → req.type.Alike type)
    (htype : type.isWb = true → req.type.isWb = true) (hpriority : newPriority.type < 15)
    (hreq : req' = req₁.joined destination doneFunc ∨
      req' = (req₁.promote cfg type newPriority).joined destination doneFunc) : req.Adjusts cfg loop ops req' := by
  have hinst {type : MemReqType} (hwb : type.isWb = true) : type.isInst = false := by
    cases type <;> simp_all [MemReqType.isWb, MemReqType.isInst]
  cases hreq with
  | inl hreq =>
      subst hreq
      refine ⟨h.state, h.queue, h.addr, h.procId, h.serial, h.opPtrs, h.delivered, fun hsome => ?_, fun hops => ?_,
        h.isWb, fun hcfg => ⟨(h.writeback hcfg).1,
          fun hreqWb => ⟨((h.writeback hcfg).2 hreqWb).1, ?_, ((h.writeback hcfg).2 hreqWb).2.2⟩⟩, h.priority,
        h.physAddr, h.isInst⟩
      · have := h.doneFunc hsome
        simp [MemReq.joined, this]
      · have := h.ops hops
        simp [MemReq.joined, this.1, this.2]
      · have hnot := hinst ((h.writeback hcfg).1.trans hreqWb)
        simp [MemReq.joined, hnot, ((h.writeback hcfg).2 hreqWb).2.1]
  | inr hreq =>
      subst hreq
      refine ⟨h.state, h.queue, h.addr, h.procId, h.serial, h.opPtrs, h.delivered, fun hsome => ?_, fun hops => ?_,
        fun hnew => ?_, fun hcfg => ⟨?_,
          fun hreqWb => ⟨?_, ?_, ((h.writeback hcfg).2 hreqWb).2.2⟩⟩, .inr hpriority, h.physAddr, fun hcfg => ?_⟩
      · have := h.doneFunc hsome
        simp [MemReq.joined, MemReq.promote, this]
      · have := h.ops hops
        simp [MemReq.joined, MemReq.promote, this.1, this.2]
      · by_cases hpromote : cfg.promoteToHigherPriorityMemReqType = true ∧ cfg.memPriority type < cfg.memPriority req₁.type
        · simp only [MemReq.joined, MemReq.promote, hpromote, and_self, ↓reduceIte] at hnew
          exact htype hnew
        · simp only [MemReq.joined, MemReq.promote, hpromote, ↓reduceIte] at hnew
          exact h.isWb hnew
      · by_cases hpromote : cfg.promoteToHigherPriorityMemReqType = true ∧ cfg.memPriority type < cfg.memPriority req₁.type
        · simp only [MemReq.joined, MemReq.promote, hpromote, and_self, ↓reduceIte]
          exact (hwb hcfg).isWb.symm
        · simp only [MemReq.joined, MemReq.promote, hpromote, ↓reduceIte]
          exact (h.writeback hcfg).1
      · have hsame : type = req.type := by
          cases hwb hcfg with
          | inl hsame => exact hsame.symm
          | inr hread =>
              rw [hread.1] at hreqWb
              cases hreqWb
        simp only [MemReq.joined, MemReq.promote, hsame, ((h.writeback hcfg).2 hreqWb).1, ite_self]
      · have hnot : (if cfg.promoteToHigherPriorityMemReqType = true ∧ cfg.memPriority type < cfg.memPriority req₁.type
            then type else req₁.type).isInst = false := by
          split
          · exact hinst ((hwb hcfg).isWb.symm.trans hreqWb)
          · exact hinst ((h.writeback hcfg).1.trans hreqWb)
        simp [MemReq.joined, MemReq.promote, hnot, ((h.writeback hcfg).2 hreqWb).2.1]
      · by_cases hpromote : cfg.promoteToHigherPriorityMemReqType = true ∧ cfg.memPriority type < cfg.memPriority req₁.type
        · simp only [MemReq.joined, MemReq.promote, hpromote, and_self, ↓reduceIte]
          exact (hwb hcfg).isInst.symm
        · simp only [MemReq.joined, MemReq.promote, hpromote, ↓reduceIte]
          exact h.isInst hcfg

/-- An op that joins a request. -/
theorem MemReq.addOp_adjusts {req₁ : MemReq} (op : MemOp) {hit : Bool} (h : req.Adjusts cfg loop [] req₁)
    (hread : req.type.isWb = false) (hsome : doneFunc.isSome = true)
    (hhit : hit = true → req.type.isWb = false ∧ type.isWb = false ∧ req.type.isInst = type.isInst) :
    req.Adjusts cfg loop [op.uniqueNum] (req₁.addOp type op doneFunc hit) := by
  have hread₁ : req₁.type.isWb = false := by
    by_contra hwb
    rw [h.isWb (by simpa using hwb)] at hread
    cases hread
  have hdone : (if req₁.doneFunc.isSome then req₁.doneFunc else doneFunc).isSome = true := by
    split
    · assumption
    · exact hsome
  have hops : req₁.opPtrs ++ [op.uniqueNum] = req.opPtrs ++ [op.uniqueNum] := by rw [h.opPtrs, List.append_nil]
  rw [MemReq.addOp]
  dsimp only
  by_cases hpromote : (hit && !type.isPrefetch) = true
  · rw [if_pos hpromote]
    obtain ⟨-, hnew, hclass⟩ := hhit (Bool.and_eq_true _ _ ▸ hpromote).1
    refine ⟨h.state, h.queue, h.addr, h.procId, h.serial, hops, (by simp), fun _ => hsome,
      fun _ => ⟨hsome, hread⟩, fun hwb => ?_, fun _ => ⟨hnew.trans hread.symm, fun hwb => ?_⟩, h.priority, h.physAddr,
      fun _ => hclass.symm⟩
    · rw [hnew] at hwb
      cases hwb
    · rw [hread] at hwb
      cases hwb
  · rw [if_neg hpromote]
    refine ⟨h.state, h.queue, h.addr, h.procId, h.serial, hops, (by simp), fun _ => hdone,
      fun _ => ⟨hdone, hread⟩, h.isWb, fun _ => ⟨hread₁.trans hread.symm, fun hwb => ?_⟩, h.priority, h.physAddr,
      h.isInst⟩
    rw [hread] at hwb
    cases hwb

/-- A writeback that a demand wants back is not joined where the types have to match. -/
theorem MemReq.hitBack_eq {loops : Prop} (hmatch : MemReqType.Match cfg req.type type found)
    (hwb : cfg.allowTypeMatches = false ∨ cfg.hierMshrOn = true ∨ loops → req.type.Alike type)
    (h : req.hitBack cfg found doneFunc = .ok (some req')) :
    (req.doneFunc.isSome = true → req'.doneFunc.isSome = true) ∧
      req' = { req with doneFunc := req'.doneFunc, wbRequestedBack := req'.wbRequestedBack } ∧
      (cfg.allowTypeMatches = false ∨ cfg.hierMshrOn = true ∨ loops → req' = req) := by
  rw [MemReq.hitBack] at h
  by_cases hhit : (cfg.allowTypeMatches && found.demandHitWriteback) = true
  · rw [if_pos hhit] at h
    rw [Bool.and_eq_true] at hhit
    obtain ⟨hdone, heq⟩ := MemReq.requestBack_eq h
    refine ⟨hdone, heq, fun hcfg => ?_⟩
    obtain ⟨hold, hnew⟩ := hmatch.hitWriteback hhit.2
    have hsame := (hwb hcfg).isWb
    rw [hold, hnew] at hsame
    cases hsame
  · rw [if_neg hhit] at h
    obtain rfl := Option.some.inj (Except.ok.inj h)
    exact ⟨id, rfl, fun _ => rfl⟩

theorem MemReq.hitBack_adjusts {loops : Prop} (hmatch : MemReqType.Match cfg req.type type found)
    (hwb : cfg.allowTypeMatches = false ∨ cfg.hierMshrOn = true ∨ loops → req.type.Alike type)
    (h : req.hitBack cfg found doneFunc = .ok (some req')) : req.Adjusts cfg loops [] req' := by
  obtain ⟨hdone, heq, hsame⟩ := MemReq.hitBack_eq hmatch hwb h
  refine ⟨?_, ?_, ?_, ?_, ?_, ?_, ?_, hdone, ?_, ?_, fun hcfg => ?_, ?_, ?_, ?_⟩
  · rw [heq]
  · rw [heq]
  · rw [heq]
  · rw [heq]
  · rw [heq]
  · rw [heq]
    simp
  · rw [heq]
    simp
  · intro hops
    cases hops rfl
  · rw [heq]
    exact id
  · rw [hsame hcfg]
    exact ⟨rfl, fun _ => ⟨rfl, rfl, rfl⟩⟩
  · rw [heq]
    exact .inl rfl
  · rw [heq]
  · rw [heq]
    exact fun _ => rfl

/-- The request and the state after it was joined. -/
structure State.Adjusted (cfg : Config) (s : State) (found : Match) (ops : List OpPtr) (destination : Destination)
    (newPriority : Priority) (called : State) (req : MemReq) (t : State) : Prop where
  calls : called = s ∨ ∃ call, PrefCall.isQuiet call = true ∧ called = s.call found.id call
  adjusts : (s.reqBuffer found.id).Adjusts cfg (s.pass ≠ none) ops req
  destination : req.destination = (s.reqBuffer found.id).destination.min2 destination
  reserved : req.reservedEntryCount = (s.reqBuffer found.id).reservedEntryCount
  resorts : (called.setReq found.id req).Resorts found newPriority t

/-- What `mem_adjust_matching_request` does when it returns `TRUE`. -/
theorem State.memAdjustMatchingRequest_adjusted (hmatch : MemReqType.Match cfg (s.reqBuffer found.id).type type found)
    (hwb : cfg.allowTypeMatches = false ∨ cfg.hierMshrOn = true ∨ s.pass ≠ none →
      (s.reqBuffer found.id).type.Alike type)
    (hlegal : op.isSome = true → doneFunc.isSome = true) (hpriority : newPriority.type < 15) {taken : Bool}
    (h : s.memAdjustMatchingRequest cfg found type destination op doneFunc newPriority = .ok (taken, t)) :
    taken = false ∧ t = s ∧ cfg.allowTypeMatches = true ∧ found.demandHitWriteback = true ∨
      taken = true ∧ ∃ called req,
      s.Adjusted cfg found (op.map MemOp.uniqueNum).toList destination newPriority called req t := by
  have htype : type.isWb = true → (s.reqBuffer found.id).type.isWb = true := by
    intro hnew
    cases hmatch.alike with
    | inl hsame => exact hsame.isWb.trans hnew
    | inr hallow => exact hallow.2.2
  rw [State.memAdjustMatchingRequest] at h
  dsimp only at h
  obtain ⟨back, hback, h⟩ := Execution.bind_eq_ok.mp h
  cases back with
  | none =>
      obtain ⟨rfl, rfl⟩ := Prod.mk.inj (Except.ok.inj h)
      rw [MemReq.hitBack] at hback
      by_cases hhit : (cfg.allowTypeMatches && found.demandHitWriteback) = true
      · rw [Bool.and_eq_true] at hhit
        exact .inl ⟨rfl, rfl, hhit.1, hhit.2⟩
      · rw [if_neg hhit] at hback
        cases Except.ok.inj hback
  | some req₁ =>
      have heq := (MemReq.hitBack_eq hmatch hwb hback).2.1
      have hadjusts := MemReq.hitBack_adjusts hmatch hwb hback
      cases op with
      | none =>
          obtain ⟨m, hm, h⟩ := Execution.bind_eq_ok.mp h
          obtain ⟨rfl, rfl⟩ := Prod.mk.inj (Except.ok.inj h)
          obtain ⟨req', hreq', hresorts⟩ := State.adjustPriority_resorts hm
          refine .inr ⟨rfl, s, req', .inl rfl, MemReq.joined_adjusts hadjusts hwb htype hpriority hreq', ?_, ?_, hresorts⟩
          all_goals
            rw [heq] at hreq'
            cases hreq' with
            | inl hreq' => rw [hreq']; rfl
            | inr hreq' => rw [hreq']; rfl
      | some op =>
          dsimp only at h
          by_cases hwb₁ : req₁.type.isWb = true
          · rw [if_pos hwb₁] at h
            cases h
          · rw [if_neg hwb₁] at h
            obtain ⟨m, hm, h⟩ := Execution.bind_eq_ok.mp h
            obtain ⟨rfl, rfl⟩ := Prod.mk.inj (Except.ok.inj h)
            obtain ⟨req', hreq', hresorts⟩ := State.adjustPriority_resorts hm
            have hread : (s.reqBuffer found.id).type.isWb = false := by
              rw [heq] at hwb₁
              simpa using hwb₁
            have hop := MemReq.addOp_adjusts op hadjusts hread (hlegal rfl) hmatch.hitPrefetch
            refine .inr ⟨rfl, _, req', ?_, MemReq.joined_adjusts hop hwb htype hpriority hreq', ?_, ?_, hresorts⟩
            · by_cases hhit : (found.demandHitPrefetch && !type.isPrefetch) = true
              · rw [if_pos hhit]
                exact .inr ⟨_, rfl, rfl⟩
              · rw [if_neg hhit]
                exact .inl rfl
            all_goals
              have hkeep : (req₁.addOp type op doneFunc found.demandHitPrefetch).destination =
                  (s.reqBuffer found.id).destination ∧
                    (req₁.addOp type op doneFunc found.demandHitPrefetch).reservedEntryCount =
                      (s.reqBuffer found.id).reservedEntryCount := by
                rw [MemReq.addOp]
                rw [heq]
                dsimp only
                split
                · exact ⟨rfl, rfl⟩
                · exact ⟨rfl, rfl⟩
              cases hreq' with
              | inl hreq' => rw [hreq']; simp [MemReq.joined, hkeep.1, hkeep.2]
              | inr hreq' => rw [hreq']; simp [MemReq.joined, MemReq.promote, hkeep.1, hkeep.2]

theorem Config.matchType_hitPrefetch {reqType : MemReqType} {hit : Bool × Bool}
    (h : cfg.matchType reqType type = some hit) (hhit : hit.1 = true) :
    reqType.isWb = false ∧ type.isWb = false ∧ reqType.isInst = type.isInst := by
  unfold Config.matchType at h
  cases reqType <;> cases type <;> simp_all [MemReqType.isWb, MemReqType.isInst] <;> grind

theorem State.FoundIn.match {addr : Addr} {ii : ℕ} (h : s.FoundIn cfg addr type k ii found)
    (hhier : cfg.hierMshrOn = true → (s.reqBuffer found.id).type.isWb = false ∨ type = .wb) :
    MemReqType.Match cfg (s.reqBuffer found.id).type type found := by
  refine ⟨?_, Config.matchType_hitPrefetch h.type, fun hhit => ?_⟩
  · cases Config.matchType_alike h.type with
    | inl hsame => exact .inl hsame
    | inr hallow =>
        cases hhierOn : cfg.hierMshrOn with
        | false => exact .inr ⟨hallow.1, rfl, hallow.2.1⟩
        | true =>
            cases hhier hhierOn with
            | inl hread =>
                rw [hread] at hallow
                cases hallow.2.1
            | inr hwb =>
                subst hwb
                exact .inl (.inl (Config.matchType_wb h.type).1)
  · have := Config.matchType_hitWriteback h.type hhit
    exact ⟨this.1, this.2.2⟩

theorem State.FoundInRamulator.match (h : s.FoundInRamulator type found) :
    MemReqType.Match cfg (s.reqBuffer found.id).type type found := by
  have hread : (s.reqBuffer found.id).type.isWb = false ∧ type.isWb = false ∧
      (s.reqBuffer found.id).type.isInst = type.isInst := by
    cases h.type with
    | inl hinst =>
        exact ⟨MemReqType.isWb_of_isInst hinst.1, MemReqType.isWb_of_isInst hinst.2, hinst.1.trans hinst.2.symm⟩
    | inr hdata =>
        have hnot (type : MemReqType) (hd : type.isData = true) : type.isInst = false := by
          cases type <;> simp_all [MemReqType.isData, MemReqType.isInst]
        exact ⟨MemReqType.isWb_of_isData hdata.1, MemReqType.isWb_of_isData hdata.2,
          (hnot _ hdata.1).trans (hnot _ hdata.2).symm⟩
  refine ⟨.inl (.inr hread), fun _ => hread, fun hhit => ?_⟩
  rw [h.writeback] at hhit
  cases hhit

/-- What is known of a request that is joined. -/
structure State.Joinable (s : State) (overtakes : Prop) (found : Match) (newPriority : Priority) : Prop where
  live : (s.reqBuffer found.id).state ≠ .inv ∨ found.id ∈ s.ramulatorIds
  place : ∀ k ii, found.place = some (k, ii) → newPriority.lt (s.oldPriority found) = true →
    s.EntryAt k ii found.id ∧ (s.reqBuffer found.id).state ≠ .inv ∧ s.Reranks overtakes k found.id

theorem State.FoundIn.joinable {addr : Addr} {ii : ℕ} (h : s.FoundIn cfg addr type k ii found)
    (hpass : newPriority.lt (s.oldPriority found) = true → s.Reranks overtakes k found.id) :
    s.Joinable overtakes found newPriority := by
  refine ⟨.inl h.live, fun k' ii' hplace hlt => ?_⟩
  rw [h.place] at hplace
  obtain ⟨rfl, rfl⟩ := Prod.mk.inj (Option.some.inj hplace)
  exact ⟨h.entry, h.live, hpass hlt⟩

theorem State.FoundInRamulator.joinable (h : s.FoundInRamulator type found) :
    s.Joinable overtakes found newPriority := by
  refine ⟨.inr h.mem, fun k ii hplace _ => ?_⟩
  rw [h.place] at hplace
  cases hplace

variable {ops : List OpPtr} {called : State}

/-- Between the loops, what joins a writeback is another one, but for `ALLOW_TYPE_MATCHES`. -/
theorem State.match_keeps {reqType : MemReqType} (h : MemReqType.Match cfg reqType type found) (hpass : s.pass = none)
    (hcfg : cfg.allowTypeMatches = false ∨ cfg.hierMshrOn = true ∨ s.pass ≠ none) : reqType.Alike type := by
  cases h.alike with
  | inl hsame => exact hsame
  | inr hallow => simp_all

/-- The call of the prefetchers and the sort come before the request itself changes, and before an
entry is reserved for it. -/
theorem State.Adjusted.before {m : State} {req₀ : MemReq} {reserved : QueueId → ℤ}
    (h : m.Adjusted cfg found ops destination newPriority called req t)
    (hm : m = { s.setReq found.id req₀ with reserved }) (hqueue : req₀.queue = (s.reqBuffer found.id).queue)
    (hserial : req₀.serial = (s.reqBuffer found.id).serial) (hfound : s.Joinable overtakes found newPriority)
    (hpriority : newPriority.type < 15) :
    ∃ n, QuietRun cfg overtakes s n ∧ t = { n.setReq found.id req with reserved } ∧ n.reqBuffer = s.reqBuffer ∧
      n.accepted = s.accepted ∧ n.pass = s.pass ∧ n.ramulatorIds = s.ramulatorIds ∧ n.reserved = s.reserved := by
  have hcalled : ∃ n, QuietRun cfg overtakes s n ∧ called.setReq found.id req = { n.setReq found.id req with reserved } ∧
      n.reqBuffer = s.reqBuffer ∧ n.queue = s.queue ∧ n.accepted = s.accepted ∧ n.pass = s.pass ∧
        n.ramulatorIds = s.ramulatorIds ∧ n.reserved = s.reserved := by
    cases h.calls with
    | inl hsame =>
        refine ⟨s, .refl, ?_, rfl, rfl, rfl, rfl, rfl, rfl⟩
        rw [hsame, hm, ← State.setReq_setReq s found.id req₀ req]
        rfl
    | inr hcall =>
        obtain ⟨call, hquiet, rfl⟩ := hcall
        refine ⟨s.call found.id call, .single (.call s found.id call hquiet), ?_, rfl, rfl, rfl, rfl, rfl, rfl⟩
        have hself : (m.reqBuffer found.id).serial = (s.reqBuffer found.id).serial := by
          rw [hm]
          exact (congrArg MemReq.serial (s.setReq_self found.id req₀)).trans hserial
        have hcall : m.call found.id call = { (s.call found.id call).setReq found.id req₀ with reserved } := by
          rw [State.call]
          rw [hself, hm]
          rfl
        rw [hcall, ← State.setReq_setReq (s.call found.id call) found.id req₀ req]
        rfl
  obtain ⟨n, hrun, hn, hreq, hqueues, haccepted, hpass, hram, hreserved⟩ := hcalled
  have hresorts := h.resorts
  rw [hn] at hresorts
  cases hresorts with
  | same => exact ⟨n, hrun, rfl, hreq, haccepted, hpass, hram, hreserved⟩
  | rerank k sorted ii hplace hsorted hlt =>
      have hlt' : newPriority.lt (s.oldPriority found) = true := by
        simp only [State.oldPriority] at hlt ⊢
        rwa [← hqueues]
      obtain ⟨hentry, hlive, hreranks⟩ := hfound.place k ii hplace hlt'
      refine ⟨_, hrun.tail (.rerank n found.id k sorted ii newPriority ?_ ?_ ?_ hpriority ?_), rfl, hreq,
        haccepted, hpass, hram, hreserved⟩
      · rwa [State.EntryAt, hqueues]
      · rwa [hreq]
      · have hself : req.queue = some sorted := (congrArg MemReq.queue (n.setReq_self found.id req)).symm.trans hsorted
        have hkeep := h.adjusts.queue
        rw [hm] at hkeep
        rw [hreq, ← hqueue]
        exact ((congrArg MemReq.queue (s.setReq_self found.id req₀)).symm.trans hkeep.symm).trans hself
      · rwa [State.Reranks, hpass, hreq]

/-- A request that is joined without a reservation. -/
theorem State.Adjusted.join (h : s.Adjusted cfg found ops destination newPriority called req t)
    (hfound : s.Joinable overtakes found newPriority) (hpriority : newPriority.type < 15)
    (hops : s.pass = none ∨ ops = [])
    (hdest : cfg.hierMshrOn = true → cfg.mlcPresent = true → (s.reqBuffer found.id).type.isWb = false →
      (s.reqBuffer found.id).destination = .l1 → destination = .l1) :
    QuietRun cfg overtakes s { t with accepted := s.accepted ++ ops } ∧ t.accepted = s.accepted := by
  obtain ⟨n, hrun, ht, hreq, haccepted, hpass, hram, hreserved⟩ :=
    h.before (s.setReq_same found.id).symm rfl rfl hfound hpriority
  rw [← hreserved] at ht
  subst ht
  have hjoins : (n.reqBuffer found.id).Joins cfg (n.pass ≠ none) ops 0 req := by
    rw [hreq, hpass]
    refine ⟨h.adjusts, fun hmem => h.destination ▸ Destination.min2_ne_mem hmem, ?_, fun hhier hmlc hread hmem => ?_,
      fun hne => (hne rfl).elim⟩
    · rw [h.reserved, Int.add_zero]
    · rw [h.destination, Destination.min2_eq_l1 hmem (hdest hhier hmlc hread)]
      simp
  refine ⟨?_, haccepted⟩
  rw [← haccepted]
  exact hrun.tail (.join n found.id ops req (by rw [hreq, hram]; exact hfound.live) (hpass ▸ hops) hjoins)

/-! ## Making a request -/

theorem State.newPriority_lt (s : State) (cfg : Config) (type : MemReqType) : (s.newPriority cfg type).type < 15 :=
  (cfg.memPriority type).isLt

theorem Config.fifoPriority_lt (seqNum : ℕ) {priority : Priority} (h : priority.type < 15) :
    (cfg.fifoPriority seqNum priority).type < 15 := by
  rw [Config.fifoPriority]
  split
  · exact Nat.zero_lt_succ 14
  · exact h

/-- The priority of an entry that goes into a queue. -/
theorem insertPriority_lt {a b : Priority} (ha : a.type < 15) (hb : b.type < 15) :
    (if Priority.zero.lt a then a else b).type < 15 := by
  split
  · exact ha
  · exact hb

variable {toMlc : Bool} {procId : ℕ} {addr : Addr} {delay : ℕ} {prefInfo : Option PrefReqInfo}

/-- A new request is in the queue that it is for. -/
theorem State.insertNewReq_eq (hprocId : procId < cfg.numCores) (hlegal : op.isSome = true → doneFunc.isSome = true)
    (hmem : prefInfo.map PrefReqInfo.dest ≠ some .mem) (hwb : type.isWb = true → op = none ∧ doneFunc = none)
    (hdest : cfg.mlcPresent = true → type.isWb = false →
      (toMlc = true ↔ (prefInfo.map PrefReqInfo.dest).getD .none ≠ .l1))
    (h : s.insertNewReq cfg id toMlc type procId addr delay op doneFunc prefInfo = .ok t) :
    ∃ k req priority l1SeqNum mlcSeqNum cycleL1qInsertCount cycleMlcqInsertCount,
      MemReq.Starts cfg s id k (op.map MemOp.uniqueNum).toList req ∧ req.procId = procId ∧ req.type = type ∧
        req.addr = addr ∧ priority.type < 15 ∧
          t = { (s.setReq id req).insertEntry k id priority with
            reqCount := s.reqCount + 1, serials := s.serials + 1, l1SeqNum, mlcSeqNum, cycleL1qInsertCount
            cycleMlcqInsertCount } := by
  have hnotMem : (prefInfo.map PrefReqInfo.dest).getD .none ≠ .mem := by
    cases prefInfo with
    | none => simp
    | some info => simpa using hmem
  have hops : (op.map MemOp.uniqueNum).toList ≠ [] → doneFunc.isSome = true ∧ type.isWb = false := by
    intro hne
    cases op with
    | none => simp at hne
    | some op =>
        refine ⟨hlegal rfl, ?_⟩
        by_contra hisWb
        cases (hwb (by simpa using hisWb)).1
  have hnewPriority : (s.newPriority cfg type).type < 15 := s.newPriority_lt cfg type
  rw [State.insertNewReq] at h
  cases toMlc with
  | true =>
      rw [if_pos rfl] at h
      rw [State.insertNewReqIntoMlcQueue] at h
      obtain ⟨m, hm, h⟩ := Execution.bind_eq_ok.mp h
      obtain ⟨-, rfl⟩ := State.memInsertReqIntoQueue_eq hm
      refine ⟨.mlc, _, _, s.l1SeqNum, s.mlcSeqNum + 1, s.cycleL1qInsertCount, s.cycleMlcqInsertCount + 1, ?_, ?_, ?_, ?_,
        ?_, (Except.ok.inj h).symm⟩
      · refine ⟨.inl ⟨rfl, rfl⟩, rfl, rfl, hprocId, rfl, rfl, hops, fun hisWb => (hwb hisWb).2, rfl, hnewPriority,
          hnotMem, rfl, fun hmlc hread => ?_, rfl⟩
        have := hdest hmlc hread
        simpa [State.initReq] using this
      · rfl
      · rfl
      · rfl
      · refine insertPriority_lt (Config.fifoPriority_lt _ (Nat.zero_lt_succ 14)) ?_
        simp only [State.memInitNewReq, State.setReq_self]
        exact hnewPriority
  | false =>
      rw [if_neg (by simp)] at h
      rw [State.insertNewReqIntoL1Queue] at h
      obtain ⟨m, hm, h⟩ := Execution.bind_eq_ok.mp h
      obtain ⟨-, rfl⟩ := State.memInsertReqIntoQueue_eq hm
      refine ⟨.l1, _, _, s.l1SeqNum + 1, s.mlcSeqNum, s.cycleL1qInsertCount + 1, s.cycleMlcqInsertCount, ?_, ?_, ?_, ?_,
        ?_, (Except.ok.inj h).symm⟩
      · refine ⟨.inr ⟨rfl, rfl⟩, rfl, rfl, hprocId, rfl, rfl, hops, fun hisWb => (hwb hisWb).2, rfl, hnewPriority,
          hnotMem, rfl, fun hmlc hread => ?_, rfl⟩
        have := hdest hmlc hread
        simpa [State.initReq] using this
      · rfl
      · rfl
      · rfl
      · refine insertPriority_lt (Config.fifoPriority_lt _ (Nat.zero_lt_succ 14)) ?_
        simp only [State.memInitNewReq, State.setReq_self]
        exact hnewPriority

/-- What the oracle trains on when a request is made. -/
theorem State.oracleTrain_eq (s : State) (cfg : Config) (id : ℕ) (toMlc : Bool) (args : ReqArgs) :
    ∃ calls, (calls.all PrefCall.isQuiet = true ∨ cfg.prefOracleTrainOn = true ∧
        ∃ procId addr loadPC globalHist, calls = [.ul1Miss procId addr loadPC globalHist]) ∧
      s.oracleTrain cfg id toMlc args =
        { s with calls := s.calls ++ calls.map fun call => ((s.reqBuffer id).serial, call) } := by
  unfold State.oracleTrain
  dsimp only
  by_cases htrain : (cfg.prefOracleTrainOn && cfg.trains args.type) = true
  · rw [if_pos htrain]
    cases toMlc with
    | true =>
        rw [if_pos rfl]
        by_cases hhit : (s.mlc.lookup cfg.mlc args.addr).isSome = true
        · rw [if_pos hhit]
          exact ⟨[_], .inl rfl, rfl⟩
        · rw [if_neg hhit]
          exact ⟨[_], .inl rfl, rfl⟩
    | false =>
        rw [if_neg (by simp)]
        by_cases hhit : ((s.l1 (cfg.l1Of args.procId)).lookup cfg.l1 args.addr).isSome = true
        · rw [if_pos hhit]
          exact ⟨[_], .inl rfl, rfl⟩
        · rw [if_neg hhit]
          exact ⟨[_], .inr ⟨(Bool.and_eq_true _ _ ▸ htrain).1, _, _, _, _, rfl⟩, rfl⟩
  · rw [if_neg htrain]
    exact ⟨[], .inl rfl, by simp⟩

/-- A new request that is allocated and goes into a queue. -/
theorem State.fresh_quiet {free : List ℕ} {m : State} {calls : List PrefCall} {priority : Priority} {ops : List OpPtr}
    {l1SeqNum mlcSeqNum cycleL1qInsertCount cycleMlcqInsertCount : ℕ}
    (hfree : s.reqBufferFreeList = id :: free) (hinv : (s.reqBuffer id).state = .inv)
    (hpass : s.pass = none ∨ req.type.isWb = true)
    (hstarts : MemReq.Starts cfg (s.takeReq free req.procId) id k ops req) (hpriority : priority.type < 15)
    (hm : m = { ((s.takeReq free req.procId).setReq id req).insertEntry k id priority with
      reqCount := s.reqCount + 1, serials := s.serials + 1, l1SeqNum, mlcSeqNum, cycleL1qInsertCount
      cycleMlcqInsertCount })
    (hcalls : calls.all PrefCall.isQuiet = true ∨
      cfg.prefOracleTrainOn = true ∧ ∃ procId addr loadPC globalHist, calls = [.ul1Miss procId addr loadPC globalHist])
    (hnew : cfg.allowTypeMatches = true ∨ req.type.isWb = true ∨
      s.memSearchReqbuf cfg req.addr req.type searchedByNewReq = .ok none) :
    QuietRun cfg overtakes s
      { m with calls := m.calls ++ calls.map fun call => (s.serials, call), accepted := s.accepted ++ ops } := by
  subst hm
  have hidle : Quiet cfg overtakes s { s with l1SeqNum, mlcSeqNum, cycleL1qInsertCount, cycleMlcqInsertCount } :=
    .idle s l1SeqNum mlcSeqNum s.l1fillSeqNum s.mlcFillSeqNum s.coreFillSeqNum cycleL1qInsertCount
      cycleMlcqInsertCount s.mlc s.mlcWritebacks s.l1Writebacks
  refine .head hidle (.single (.fresh _ id free k ops req priority calls hfree hinv hpass ?_ hpriority hcalls hnew))
  exact ⟨hstarts.place, hstarts.queue, hstarts.serial, hstarts.procId, hstarts.opPtrs, hstarts.delivered, hstarts.ops,
    hstarts.writeback, hstarts.requestedBack, hstarts.priority, hstarts.notMem, hstarts.reserved, hstarts.destination,
    hstarts.physAddr⟩

/-- Nothing new is on the list of a request. -/
theorem State.accepted_nil (t : State) : { t with accepted := t.accepted ++ [] } = t := by rw [List.append_nil]

/-- `new_mem_req` with the search done, for a request that was found. -/
theorem State.found_quiet {ks : List (Option QueueId)} {args : ReqArgs} (hpass : s.pass = none)
    (hsearch : s.memSearchReqbuf cfg args.addr args.type ks = .ok (some found)) :
    (∀ newPriority, s.Joinable overtakes found newPriority) ∧
      ((cfg.hierMshrOn = true → (s.reqBuffer found.id).type.isWb = false) → MemReqType.Match cfg (s.reqBuffer found.id).type args.type found) := by
  cases State.memSearchReqbuf_found hsearch with
  | inl hqueue =>
      obtain ⟨k, ii, -, hfound⟩ := hqueue
      exact ⟨fun _ => hfound.joinable fun _ => .inl hpass, fun hhier => hfound.match fun hon => .inl (hhier hon)⟩
  | inr hram => exact ⟨fun _ => hram.2.2.joinable, fun _ => hram.2.2.match⟩

theorem ReqArgs.legal_wb {args : ReqArgs} (h : args.legal = true) (hwb : args.type.isWb = true) :
    args.op = none ∧ args.doneFunc = none := by
  simp only [ReqArgs.legal, hwb, if_true, Bool.and_eq_true, Option.isNone_iff_eq_none] at h
  exact h.1

theorem ReqArgs.legal_op {args : ReqArgs} (h : args.legal = true) : args.op.isSome = true → args.doneFunc.isSome = true := by
  intro hop
  by_cases hwb : args.type.isWb = true
  · rw [(ReqArgs.legal_wb h hwb).1] at hop
    cases hop
  · simp only [ReqArgs.legal, hwb, Bool.and_eq_true] at h
    have hsome := h.1
    simp only [Bool.false_eq_true, ↓reduceIte, Bool.or_eq_true, Option.isNone_iff_eq_none] at hsome
    cases hsome with
    | inl hnone =>
        rw [hnone] at hop
        cases hop
    | inr hsome => exact hsome

theorem ReqArgs.legal_mem {args : ReqArgs} (h : args.legal = true) : args.prefInfo.map PrefReqInfo.dest ≠ some .mem := by
  simp only [ReqArgs.legal, Bool.and_eq_true, bne_iff_ne] at h
  exact h.2

theorem ReqArgs.legal_dest {args : ReqArgs} (h : args.legal = true) :
    (args.prefInfo.map PrefReqInfo.dest).getD .none ≠ .mem := by
  have hmem := args.legal_mem h
  cases hinfo : args.prefInfo.map PrefReqInfo.dest with
  | none => simp
  | some dest =>
      rw [hinfo] at hmem
      simpa using hmem

/-- The request joins one to the L1 and reserves an entry of the MLC queue for it. -/
theorem State.reserveMlc_hier {args : ReqArgs} {m : State} {taken : Bool} (hlegal : args.legal = true)
    (hpass : s.pass = none) (hfound : s.Joinable overtakes found (m.newPriority cfg args.type))
    (hmatch : MemReqType.Match cfg (s.reqBuffer found.id).type args.type found)
    (hhier : cfg.hierMshrOn = true) (hread : (s.reqBuffer found.id).type.isWb = false) (hmlc : cfg.mlcPresent = true)
    (hl1 : (s.reqBuffer found.id).destination = .l1) (hdest : destination ≠ .l1) (hnotMem : destination ≠ .mem)
    (hallow : ¬ cfg.allowTypeMatches = true)
    (hm : m = { s.setReq found.id { s.reqBuffer found.id with
      reservedEntryCount := (s.reqBuffer found.id).reservedEntryCount + 1
      mlcMiss := true
      mlcMissCycle := some s.l1CycleCount } with
      reserved := (s.setReserved .mlc (s.reserved .mlc + 1)).reserved })
    (h : m.memAdjustMatchingRequest cfg found args.type destination args.op args.doneFunc (m.newPriority cfg args.type) =
      .ok (taken, t)) :
    QuietRun cfg overtakes s { t with
      accepted := s.accepted ++ if taken then (args.op.map MemOp.uniqueNum).toList else [] } := by
  have hpriority := m.newPriority_lt cfg args.type
  have hreq : m.reqBuffer found.id = { s.reqBuffer found.id with
      reservedEntryCount := (s.reqBuffer found.id).reservedEntryCount + 1
      mlcMiss := true
      mlcMissCycle := some s.l1CycleCount } := by
    rw [hm]
    exact s.setReq_self found.id _
  have hkeeps : cfg.allowTypeMatches = false ∨ cfg.hierMshrOn = true ∨ m.pass ≠ none →
      (m.reqBuffer found.id).type.Alike args.type := by
    rw [hreq]
    exact fun _ => State.match_keeps hmatch hpass (.inr (.inl hhier))
  cases State.memAdjustMatchingRequest_adjusted (by rw [hreq]; exact hmatch) hkeeps (ReqArgs.legal_op hlegal)
    hpriority h with
  | inl hno => exact (hallow hno.2.2.1).elim
  | inr hyes =>
      obtain ⟨rfl, called, req, hadjusted⟩ := hyes
      obtain ⟨n, hrun, rfl, hreqs, haccepted, hpasses, hram, hreserved⟩ :=
        hadjusted.before hm rfl rfl hfound hpriority
      have hadjusts := hadjusted.adjusts
      rw [hreq] at hadjusts
      have hloop : (m.pass ≠ none) = (n.pass ≠ none) := by
        rw [hpasses, hm]
        rfl
      have hjoins : (n.reqBuffer found.id).Joins cfg (n.pass ≠ none) (args.op.map MemOp.uniqueNum).toList 1 req := by
        rw [hreqs, ← hloop]
        refine ⟨⟨hadjusts.state, hadjusts.queue, hadjusts.addr, hadjusts.procId, hadjusts.serial,
          hadjusts.opPtrs, hadjusts.delivered, hadjusts.doneFunc, hadjusts.ops, hadjusts.isWb,
          hadjusts.writeback, hadjusts.priority, hadjusts.physAddr, hadjusts.isInst⟩, fun hmem => ?_, ?_, fun _ _ _ _ => ?_,
          fun _ => ⟨rfl, hhier, hmlc, hread, hl1⟩⟩
        · rw [hadjusted.destination, hreq]
          exact Destination.min2_ne_mem hmem
        · rw [hadjusted.reserved, hreq]
        · rw [hadjusted.destination, hreq]
          simp only [hl1, Int.reduceEq, and_false, iff_false]
          exact Destination.l1_min2_ne_l1 hdest hnotMem
      refine hrun.tail ?_
      have hmove : Quiet cfg overtakes n _ := .reserve n found.id (args.op.map MemOp.uniqueNum).toList req
        (hpasses.trans hpass) (by rw [hreqs, hram]; exact hfound.live) hjoins
      rw [haccepted] at hmove
      have hsame : (s.setReserved .mlc (s.reserved .mlc + 1)).reserved =
          (n.setReserved .mlc (n.reserved .mlc + 1)).reserved := by
        simp only [State.setReserved, hreserved]
      rw [hsame]
      exact hmove

/-- The request joins one to the L1 and leaves a note of its miss. -/
theorem State.reserveMlc_noted {args : ReqArgs} {m : State} {taken : Bool} (hlegal : args.legal = true)
    (hpass : s.pass = none) (hfound : s.Joinable overtakes found (m.newPriority cfg args.type))
    (hmatch : MemReqType.Match cfg (s.reqBuffer found.id).type args.type found)
    (hhier : ¬ cfg.hierMshrOn = true)
    (hm : m = s.setReq found.id { s.reqBuffer found.id with
      mlcMiss := true
      mlcMissCycle := some s.l1CycleCount })
    (h : m.memAdjustMatchingRequest cfg found args.type destination args.op args.doneFunc (m.newPriority cfg args.type) =
      .ok (taken, t)) :
    QuietRun cfg overtakes s { t with
      accepted := s.accepted ++ if taken then (args.op.map MemOp.uniqueNum).toList else [] } := by
  have hpriority := m.newPriority_lt cfg args.type
  have hreq : m.reqBuffer found.id = { s.reqBuffer found.id with
      mlcMiss := true
      mlcMissCycle := some s.l1CycleCount } := by
    rw [hm]
    exact s.setReq_self found.id _
  have hnote : QuietRun cfg overtakes s m := by
    rw [hm]
    exact .single (.note s found.id (s.reqBuffer found.id).rdyCycle true (some s.l1CycleCount)
      (s.reqBuffer found.id).l1Miss (s.reqBuffer found.id).l1MissCycle)
  have haccepted : m.accepted = s.accepted := by
    rw [hm]
    rfl
  have hkeeps : cfg.allowTypeMatches = false ∨ cfg.hierMshrOn = true ∨ m.pass ≠ none →
      (m.reqBuffer found.id).type.Alike args.type := by
    rw [hreq, hm]
    exact State.match_keeps hmatch hpass
  cases State.memAdjustMatchingRequest_adjusted (by rw [hreq]; exact hmatch) hkeeps (ReqArgs.legal_op hlegal)
    hpriority h with
  | inl hno =>
      obtain ⟨rfl, rfl, -⟩ := hno
      rw [← haccepted]
      rwa [if_neg (by simp), State.accepted_nil]
  | inr hyes =>
      obtain ⟨rfl, called, req, hadjusted⟩ := hyes
      have hfound' : m.Joinable overtakes found (m.newPriority cfg args.type) := by
        refine ⟨?_, fun k ii hplace hlt => ?_⟩
        · rw [hreq, hm]
          exact hfound.live
        · rw [hm] at hlt
          obtain ⟨hentry, hlive, hreranks⟩ := hfound.place k ii hplace (by rw [hm]; exact hlt)
          refine ⟨?_, ?_, .inl ?_⟩
          · rw [hm]
            exact hentry
          · rw [hreq]
            exact hlive
          · rw [hm]
            exact hpass
      rw [← haccepted]
      exact hnote.trans (hadjusted.join hfound' hpriority (by rw [hm]; exact .inl hpass) fun hon => (hhier hon).elim).1

/-- A request to the MLC that joins one to the L1. -/
theorem State.reserveMlc_quiet {args : ReqArgs} {m : State} {taken : Bool} (hlegal : args.legal = true)
    (hpass : s.pass = none) (hfound : s.Joinable overtakes found (m.newPriority cfg args.type))
    (hmatch : MemReqType.Match cfg (s.reqBuffer found.id).type args.type found)
    (hread : cfg.hierMshrOn = true → (s.reqBuffer found.id).type.isWb = false) (hmlc : cfg.mlcPresent = true)
    (hl1 : (s.reqBuffer found.id).destination = .l1) (hdest : destination ≠ .l1) (hnotMem : destination ≠ .mem)
    (hm : s.reserveMlc cfg found.id = .ok (some m))
    (h : m.memAdjustMatchingRequest cfg found args.type destination args.op args.doneFunc (m.newPriority cfg args.type) =
      .ok (taken, t)) :
    QuietRun cfg overtakes s { t with
      accepted := s.accepted ++ if taken then (args.op.map MemOp.uniqueNum).toList else [] } := by
  rw [State.reserveMlc] at hm
  dsimp only at hm
  by_cases hhier : cfg.hierMshrOn = true
  · rw [if_pos hhier] at hm
    by_cases hallow : cfg.allowTypeMatches = true
    · rw [if_pos hallow] at hm
      cases hm
    · rw [if_neg hallow] at hm
      obtain ⟨full, hfull, hm⟩ := Execution.bind_eq_ok.mp hm
      cases full with
      | true => cases hm
      | false =>
          refine State.reserveMlc_hier hlegal hpass hfound hmatch hhier (hread hhier) hmlc hl1 hdest hnotMem hallow ?_ h
          rw [← Option.some.inj (Except.ok.inj hm), State.setReq_self, State.setReq_setReq]
          rfl
  · rw [if_neg hhier] at hm
    exact State.reserveMlc_noted hlegal hpass hfound hmatch hhier (Option.some.inj (Except.ok.inj hm)).symm h

/-- A request is made when the search finds nothing, or a writeback that it may not join. -/
theorem State.search_none {args : ReqArgs} {result : Option Match}
    (hsearch : s.memSearchReqbuf cfg args.addr args.type searchedByNewReq = .ok result)
    (hfilter : (result.filter fun found => !(cfg.hierMshrOn && (s.reqBuffer found.id).type.isWb)) = none) :
    cfg.allowTypeMatches = true ∨ args.type.isWb = true ∨
      s.memSearchReqbuf cfg args.addr args.type searchedByNewReq = .ok none := by
  cases result with
  | none => exact .inr (.inr hsearch)
  | some found =>
      have hwb : (s.reqBuffer found.id).type.isWb = true := by
        rw [Option.filter_eq_none_iff] at hfilter
        have := hfilter found rfl
        simp_all
      cases State.memSearchReqbuf_found hsearch with
      | inl hqueue =>
          obtain ⟨k, ii, -, hfound⟩ := hqueue
          cases Config.matchType_alike hfound.type with
          | inl hsame => exact .inr (.inl (hsame.isWb.symm.trans hwb))
          | inr hallow => exact .inl hallow.1
      | inr hram =>
          obtain ⟨-, -, hfound⟩ := hram
          have hread : (s.reqBuffer found.id).type.isWb = false := by
            cases hfound.type with
            | inl hinst => exact MemReqType.isWb_of_isInst hinst.1
            | inr hdata => exact MemReqType.isWb_of_isData hdata.1
          rw [hread] at hwb
          cases hwb

/-- `new_mem_req` is a quiet run, and its op counts as accepted if it returns `TRUE`. -/
theorem State.newReq_quiet {args : ReqArgs} {taken : Bool} (hlegal : args.legal = true) (hpass : s.pass = none)
    (h : s.newReq cfg args = .ok (taken, t)) :
    QuietRun cfg overtakes s { t with
      accepted := s.accepted ++ if taken then (args.op.map MemOp.uniqueNum).toList else [] } := by
  have hpriority := s.newPriority_lt cfg args.type
  have hsame : QuietRun cfg overtakes s { s with
      accepted := s.accepted ++ if false then (args.op.map MemOp.uniqueNum).toList else [] } := by
    rw [if_neg (by simp), State.accepted_nil]
  rw [State.newReq] at h
  obtain ⟨result, hsearch, h⟩ := Execution.bind_eq_ok.mp h
  cases hfilter : result.filter fun found => !(cfg.hierMshrOn && (s.reqBuffer found.id).type.isWb) with
  | some found =>
      rw [hfilter] at h
      dsimp only at h
      obtain ⟨hresult, hread⟩ := Option.filter_eq_some_iff.mp hfilter
      subst hresult
      obtain ⟨hfound, hmatch⟩ : (∀ newPriority, s.Joinable overtakes found newPriority) ∧ _ :=
        State.found_quiet hpass hsearch
      have hread : cfg.hierMshrOn = true → (s.reqBuffer found.id).type.isWb = false := by
        intro hhier
        simpa [hhier] using hread
      by_cases hreserve : (cfg.mlcPresent && (args.prefInfo.map PrefReqInfo.dest).getD .none != .l1 &&
          (s.reqBuffer found.id).destination == .l1) = true
      · rw [if_pos hreserve] at h
        obtain ⟨m, hm, h⟩ := Execution.bind_eq_ok.mp h
        simp only [Bool.and_eq_true, bne_iff_ne, beq_iff_eq] at hreserve
        cases m with
        | none =>
            obtain ⟨rfl, rfl⟩ := Prod.mk.inj (Except.ok.inj h)
            exact hsame
        | some m =>
            exact State.reserveMlc_quiet hlegal hpass (hfound _) (hmatch hread) hread hreserve.1.1 hreserve.2 hreserve.1.2
              (ReqArgs.legal_dest hlegal) hm h
      · rw [if_neg hreserve] at h
        cases State.memAdjustMatchingRequest_adjusted (hmatch hread) (State.match_keeps (hmatch hread) hpass)
          (ReqArgs.legal_op hlegal) hpriority h with
        | inl hno =>
            obtain ⟨rfl, rfl, -⟩ := hno
            exact hsame
        | inr hyes =>
            obtain ⟨rfl, called, req, hadjusted⟩ := hyes
            refine (hadjusted.join (hfound _) hpriority (.inl hpass) fun _ hmlc _ hl1 => ?_).1
            simp only [hmlc, hl1, Bool.true_and, beq_self_eq_true, Bool.and_true, bne_iff_ne, not_not] at hreserve
            exact hreserve
  | none =>
      rw [hfilter] at h
      dsimp only at h
      obtain ⟨full, hfull, h⟩ := Execution.bind_eq_ok.mp h
      cases full with
      | true =>
          obtain ⟨rfl, rfl⟩ := Prod.mk.inj (Except.ok.inj h)
          exact hsame
      | false =>
          rw [if_neg (by simp)] at h
          obtain ⟨⟨allocated, m⟩, hm, h⟩ := Execution.bind_eq_ok.mp h
          cases allocated with
          | none =>
              obtain ⟨rfl, rfl⟩ := Prod.mk.inj (Except.ok.inj h)
              rw [State.memAllocateReqBuffer_none hm]
              exact hsame
          | some id =>
              obtain ⟨hprocId, hinv, free, hfree, rfl⟩ := State.memAllocateReqBuffer_some hm
              obtain ⟨n, hn, h⟩ := Execution.bind_eq_ok.mp h
              obtain ⟨rfl, rfl⟩ := Prod.mk.inj (Except.ok.inj h)
              obtain ⟨k, req, priority, l1SeqNum, mlcSeqNum, l1Count, mlcCount, hstarts, hreqId, hreqType, hreqAddr, hreqPriority,
                  hn⟩ :=
                State.insertNewReq_eq hprocId (ReqArgs.legal_op hlegal) (ReqArgs.legal_mem hlegal)
                  (ReqArgs.legal_wb hlegal) (fun hmlc _ => by simp [hmlc]) hn
              obtain ⟨calls, hcalls, htrain⟩ := n.oracleTrain_eq cfg id
                (cfg.mlcPresent && (args.prefInfo.map PrefReqInfo.dest).getD .none != .l1) args
              have hserial : (n.reqBuffer id).serial = s.serials := by
                rw [hn]
                exact (congrArg MemReq.serial ((s.takeReq free args.procId).setReq_self id req)).trans hstarts.serial
              rw [htrain, hserial, if_pos rfl]
              rw [← hreqId] at hn hstarts
              refine State.fresh_quiet hfree hinv (.inl hpass) hstarts hreqPriority hn hcalls ?_
              rw [hreqType, hreqAddr]
              exact State.search_none hsearch hfilter

theorem State.newMemReq_quiet {args : ReqArgs} {taken : Bool} (hlegal : args.legal = true) (hpass : s.pass = none)
    (h : s.newMemReq cfg args = .ok (taken, t)) : QuietRun cfg overtakes s t := by
  rw [State.newMemReq] at h
  by_cases hprocId : args.procId ≠ getProcIdFromCmpAddr args.addr
  · rw [if_pos hprocId] at h
    cases h
  · rw [if_neg hprocId] at h
    obtain ⟨⟨taken', m⟩, hm, h⟩ := Execution.bind_eq_ok.mp h
    obtain ⟨rfl, rfl⟩ := Prod.mk.inj (Except.ok.inj h)
    exact State.newReq_quiet hlegal hpass hm

/-! ## Writebacks -/

/-- A writeback joins no request of the L1 queue while the loop is over that queue, but for
`overtakes`. -/
def State.Yields (cfg : Config) (s : State) (overtakes : Prop) (addr : Addr) (ks : List (Option QueueId)) : Prop :=
  ∀ found ii, s.memSearchReqbuf cfg addr .wb ks = .ok (some found) → found.place = some (.l1, ii) →
    (s.newPriority cfg .wb).lt (s.oldPriority found) = true →
      (∀ pass, s.pass = some pass → pass.queue ≠ .l1) ∨ overtakes

/-- A writeback that finds another one in the L1 queue or its fill queue. -/
theorem State.writeback_joins {ks : List (Option QueueId)} {taken : Bool}
    (hks : ∀ k ∈ ks, k = some .l1fill ∨ k = some .l1) (hyields : s.Yields cfg overtakes addr ks)
    (hsearch : s.memSearchReqbuf cfg addr .wb ks = .ok (some found))
    (h : s.memAdjustMatchingRequest cfg found .wb destination none none (s.newPriority cfg .wb) = .ok (taken, t)) :
    taken = true ∧ QuietRun cfg overtakes s t := by
  cases State.memSearchReqbuf_found hsearch with
  | inr hram =>
      cases hram.2.1
  | inl hqueue =>
      obtain ⟨k, ii, hk, hfound⟩ := hqueue
      have hmatch := hfound.match fun _ => .inr rfl
      have hwb := Config.matchType_wb hfound.type
      have hjoinable : s.Joinable overtakes found (s.newPriority cfg .wb) := by
        refine hfound.joinable fun hlt => .inr ⟨hwb.1, ?_⟩
        cases hks _ hk with
        | inl hfill => exact .inl (Option.some.inj hfill)
        | inr hl1 =>
            obtain rfl := Option.some.inj hl1
            exact .inr ⟨rfl, hyields found ii hsearch hfound.place hlt⟩
      cases State.memAdjustMatchingRequest_adjusted hmatch (fun _ => .inl hwb.1) (fun hop => by cases hop)
        (s.newPriority_lt cfg .wb) h with
      | inl hno =>
          have hmiss : found.demandHitWriteback = false := congrArg Prod.snd hwb.2
          rw [hno.2.2.2] at hmiss
          cases hmiss
      | inr hyes =>
          obtain ⟨htaken, called, req, hadjusted⟩ := hyes
          refine ⟨htaken, ?_⟩
          have hread : (s.reqBuffer found.id).type.isWb = true := by
            rw [hwb.1]
            rfl
          obtain ⟨hrun, haccepted⟩ := hadjusted.join hjoinable (s.newPriority_lt cfg .wb) (.inr rfl) fun _ _ hnot => by
            rw [hread] at hnot
            cases hnot
          rw [← haccepted] at hrun
          rwa [Option.map_none, Option.toList_none, State.accepted_nil] at hrun

/-- `new_mem_dc_wb_req` and `new_mem_mlc_wb_req`. -/
theorem State.newMemWbReq_quiet {taken : Bool} (hyields : s.Yields cfg overtakes addr [some .l1fill, some .l1])
    (h : s.newMemWbReq cfg toMlc destination procId addr = .ok (taken, t)) : QuietRun cfg overtakes s t := by
  rw [State.newMemWbReq] at h
  by_cases hprocId : procId ≠ getProcIdFromCmpAddr addr
  · rw [if_pos hprocId] at h
    cases h
  · rw [if_neg hprocId] at h
    obtain ⟨result, hsearch, h⟩ := Execution.bind_eq_ok.mp h
    cases result with
    | some found => exact (State.writeback_joins (by simp) hyields hsearch h).2
    | none =>
        obtain ⟨full, hfull, h⟩ := Execution.bind_eq_ok.mp h
        cases full with
        | true =>
            obtain ⟨-, rfl⟩ := Prod.mk.inj (Except.ok.inj h)
            exact .refl
        | false =>
            rw [if_neg (by simp)] at h
            obtain ⟨⟨allocated, m⟩, hm, h⟩ := Execution.bind_eq_ok.mp h
            cases allocated with
            | none =>
                obtain ⟨-, rfl⟩ := Prod.mk.inj (Except.ok.inj h)
                rw [State.memAllocateReqBuffer_none hm]
            | some id =>
                obtain ⟨hprocId, hinv, free, hfree, rfl⟩ := State.memAllocateReqBuffer_some hm
                obtain ⟨n, hn, h⟩ := Execution.bind_eq_ok.mp h
                obtain ⟨-, rfl⟩ := Prod.mk.inj (Except.ok.inj h)
                obtain ⟨k, req, priority, l1SeqNum, mlcSeqNum, l1Count, mlcCount, hstarts, hreqId, htype, -, hreqPriority, hn⟩ :=
                  State.insertNewReq_eq hprocId (fun hop => by cases hop) (by simp) (fun _ => ⟨rfl, rfl⟩)
                    (fun _ hread => by cases hread) hn
                rw [← hreqId] at hn hstarts
                have hwb : req.type.isWb = true := by
                  rw [htype]
                  rfl
                have hrun : QuietRun cfg overtakes s _ :=
                  State.fresh_quiet hfree hinv (.inr hwb) hstarts hreqPriority hn (.inl (@List.all_nil _ PrefCall.isQuiet))
                    (.inr (.inl hwb))
                have haccepted : n.accepted = s.accepted := by
                  rw [hn]
                  rfl
                rw [← haccepted] at hrun
                rwa [Option.map_none, Option.toList_none, List.map_nil, List.append_nil, List.append_nil] at hrun

theorem State.newMemDcWbReq_quiet {taken : Bool} (hyields : s.Yields cfg overtakes addr [some .l1fill, some .l1])
    (h : s.newMemDcWbReq cfg procId addr = .ok (taken, t)) : QuietRun cfg overtakes s t :=
  State.newMemWbReq_quiet hyields h

/-- The log of the writebacks of the MLC. -/
theorem State.logMlc_quiet (s : State) (mlcWritebacks : List Addr) :
    Quiet cfg overtakes s { s with mlcWritebacks } :=
  .idle s s.l1SeqNum s.mlcSeqNum s.l1fillSeqNum s.mlcFillSeqNum s.coreFillSeqNum s.cycleL1qInsertCount
    s.cycleMlcqInsertCount s.mlc mlcWritebacks s.l1Writebacks

theorem State.logL1_quiet (s : State) (l1Writebacks : List Addr) : Quiet cfg overtakes s { s with l1Writebacks } :=
  .idle s s.l1SeqNum s.mlcSeqNum s.l1fillSeqNum s.mlcFillSeqNum s.coreFillSeqNum s.cycleL1qInsertCount
    s.cycleMlcqInsertCount s.mlc s.mlcWritebacks l1Writebacks

theorem State.newMemMlcWbReq_quiet {taken : Bool} (hyields : s.Yields cfg overtakes addr [some .l1fill, some .l1])
    (h : s.newMemMlcWbReq cfg procId addr = .ok (taken, t)) : QuietRun cfg overtakes s t := by
  rw [State.newMemMlcWbReq] at h
  obtain ⟨⟨taken', m⟩, hm, h⟩ := Execution.bind_eq_ok.mp h
  obtain ⟨-, rfl⟩ := Prod.mk.inj (Except.ok.inj h)
  have hrun := State.newMemWbReq_quiet hyields hm
  cases taken' with
  | true => exact hrun.tail (m.logMlc_quiet (m.mlcWritebacks ++ [addr]))
  | false => exact hrun

theorem State.ramulatorSend_wb {sent : Bool} (hwb : (s.reqBuffer id).type = .wb)
    (h : s.ramulatorSend env id = .ok (sent, t)) : t = s := by
  rw [State.ramulatorSend] at h
  by_cases hstate : (s.reqBuffer id).state ≠ .memNew
  · rw [if_pos hstate] at h
    cases h
  · rw [if_neg hstate, if_neg (by simp [hwb]), if_pos hwb] at h
    exact (Prod.mk.inj (Except.ok.inj h)).2.symm

/-- A request that is made and freed at once. -/
theorem State.freeReq_made (s : State) (free : List ℕ) (serials : ℕ) (req : MemReq) :
    { (s.takeReq free req.procId).setReq id req with reqCount := s.reqCount + 1, serials }.freeReq id =
      { s.setReq id { req with state := .inv, opPtrs := [] } with
        reqBufferFreeList := free ++ [id]
        serials
        freed := s.freed ++ [(req.opPtrs, req.delivered)] } := by
  have hcore : (fun procId => if procId = req.procId then
      (if procId = req.procId then s.numReqBuffersPerCore procId + 1 else s.numReqBuffersPerCore procId) - 1
      else if procId = req.procId then s.numReqBuffersPerCore procId + 1 else s.numReqBuffersPerCore procId) =
        s.numReqBuffersPerCore := by
    funext procId
    by_cases h : procId = req.procId
    · rw [if_pos h, if_pos h, Nat.add_sub_cancel]
    · rw [if_neg h, if_neg h]
  have hreq : (fun id' => if id' = id then { req with state := .inv, opPtrs := [] } else
      if id' = id then req else s.reqBuffer id') =
        fun id' => if id' = id then { req with state := .inv, opPtrs := [] } else s.reqBuffer id' := by
    funext id'
    by_cases h : id' = id
    · rw [if_pos h, if_pos h]
    · rw [if_neg h, if_neg h, if_neg h]
  simp only [State.freeReq, State.setReq, State.takeReq, if_true, Nat.add_sub_cancel, hcore, hreq]

/-- The request of a writeback to the memory is free again. -/
theorem State.sendL1Wb_quiet {taken : Bool} (h : s.sendL1Wb cfg env procId addr = .ok (taken, t)) :
    QuietRun cfg overtakes s t := by
  rw [State.sendL1Wb] at h
  obtain ⟨⟨allocated, m⟩, hm, h⟩ := Execution.bind_eq_ok.mp h
  cases allocated with
  | none =>
      obtain ⟨-, rfl⟩ := Prod.mk.inj (Except.ok.inj h)
      rw [State.memAllocateReqBuffer_none hm]
  | some id =>
      obtain ⟨hprocId, hinv, free, hfree, rfl⟩ := State.memAllocateReqBuffer_some hm
      obtain ⟨⟨sent, n⟩, hn, h⟩ := Execution.bind_eq_ok.mp h
      obtain ⟨o, ho, h⟩ := Execution.bind_eq_ok.mp h
      obtain ⟨-, rfl⟩ := Prod.mk.inj (Except.ok.inj h)
      obtain ⟨-, -, -, rfl⟩ := State.memFreeReqbuf_eq ho
      generalize hreq : (s.takeReq free procId).initReq cfg id .wb .memNew none procId addr 0 none none
        ((s.takeReq free procId).newPriority cfg .wb) none = req at hn ⊢
      have hprocId' : req.procId = procId := by rw [← hreq]; rfl
      have hself : ((s.takeReq free procId).memInitNewReq id req).reqBuffer id = req :=
        (s.takeReq free procId).setReq_self id req
      obtain rfl := State.ramulatorSend_wb (by rw [hself, ← hreq]; rfl) hn
      subst hprocId'
      have hmove : Quiet cfg overtakes s _ := .writtenBack s id free { req with state := .inv, opPtrs := [] } hfree hinv
        rfl rfl (by rw [← hreq]; exact s.newPriority_lt cfg .wb)
      have hfreed : (req.opPtrs, req.delivered) = ((s.reqBuffer id).opPtrs, false) := by
        rw [← hreq]
        simp [State.initReq, State.takeReq]
      rw [← hfreed, ← State.freeReq_made s free (s.serials + 1) req] at hmove
      exact .single hmove

/-- A search of the fill queue of the L1 finds nothing in the L1 queue. -/
theorem State.yields_l1fill : s.Yields cfg overtakes addr [some .l1fill] := by
  intro found ii hsearch hplace _
  cases State.memSearchReqbuf_found hsearch with
  | inl hqueue =>
      obtain ⟨k, ii', hk, hfound⟩ := hqueue
      rw [hfound.place] at hplace
      cases (Prod.mk.inj (Option.some.inj hplace)).1
      simp at hk
  | inr hram => simp at hram

theorem State.newMemL1WbReq_quiet {taken : Bool} (h : s.newMemL1WbReq cfg env procId addr = .ok (taken, t)) :
    QuietRun cfg overtakes s t := by
  rw [State.newMemL1WbReq] at h
  by_cases hprocId : procId ≠ getProcIdFromCmpAddr addr
  · rw [if_pos hprocId] at h
    cases h
  · rw [if_neg hprocId] at h
    have hlog {m : State} {taken' : Bool} (hrun : QuietRun cfg overtakes s m)
        (ht : Except.ok (ε := String) (taken', if taken' then { m with l1Writebacks := m.l1Writebacks ++ [addr] } else m) =
          .ok (taken, t)) : QuietRun cfg overtakes s t := by
      obtain ⟨-, rfl⟩ := Prod.mk.inj (Except.ok.inj ht)
      cases taken' with
      | true => exact hrun.tail (m.logL1_quiet _)
      | false => exact hrun
    by_cases hoff : (cfg.constantMemoryLatency || cfg.stallMemReqsOnly) = true
    · rw [if_pos hoff] at h
      exact hlog .refl h
    · rw [if_neg hoff] at h
      obtain ⟨result, hsearch, h⟩ := Execution.bind_eq_ok.mp h
      cases result with
      | some found =>
          obtain ⟨⟨taken', m⟩, hm, h⟩ := Execution.bind_eq_ok.mp h
          exact hlog (State.writeback_joins (by simp) State.yields_l1fill hsearch hm).2 h
      | none =>
          obtain ⟨⟨taken', m⟩, hm, h⟩ := Execution.bind_eq_ok.mp h
          exact hlog (State.sendL1Wb_quiet hm) h

end Scarab.Memory
