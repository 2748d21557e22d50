import Mathlib.Data.List.Basic
import Scarab.Memory.Joining
import Scarab.Memory.Machine

/-! # Writebacks that are written through

With `L1_WRITE_THROUGH` a writeback goes on to Ramulator after its access of the L1. Here the access has all of its
branches, also those behind an assertion, and reports what Ramulator answered. -/

namespace Scarab.Memory

variable {cfg : Config} {env : Env} {s t : State} {id ii : ℕ} {way : Option ℕ} {answers : List Bool} {done : Bool}

/-! ## The access -/

/-- `mem_complete_l1_access` after a hit: the write is sent, and its buffer is free if Ramulator takes it. -/
def State.sendHitWrite (env : Env) (s : State) (id : ℕ) : Except String (List Bool × Bool × State) :=
  if (s.reqBuffer id).state ≠ .l1Wait then .error "MRS_L1_WAIT == req->state"
  else do
    let (sent, s) ← (s.setReq id { s.reqBuffer id with state := .memNew }).ramulatorSend env id
    if sent then return ([sent], true, ← s.memFreeReqbuf id)
    else return ([sent], false, s.setReq id { s.reqBuffer id with state := .l1Wait })

/-- `mem_complete_l1_access` after a miss. A write that Ramulator takes is of no type that is expected there. -/
def State.sendMissWrite (cfg : Config) (env : Env) (s : State) (id ii : ℕ) : Except String (List Bool × Bool × State) := do
  let (sent, s) ← s.sendL1Miss cfg env id ii
  if sent then .error "ERROR: Issuing a currently unhandled request type to Ramulator"
  else return ([sent], sent, s.trainMiss cfg id)

/-- `mem_complete_l1_access` for a writeback with `L1_WRITE_THROUGH`, with the answers of Ramulator; at
`CONSTANT_MEMORY_LATENCY` nothing is sent. -/
def State.writeAccess (cfg : Config) (env : Env) (s : State) (id ii : ℕ) : Except String (List Bool × Bool × State) := do
  let (way, s) := s.accessL1 cfg id
  if way.isSome || cfg.perfectL1 then
    let s ← s.memProcessL1HitAccess cfg id ii way
    if cfg.constantMemoryLatency then return ([], true, s) else s.sendHitWrite env id
  else
    let (taken, s) ← s.memProcessL1MissAccess cfg env id ii
    if taken && !(cfg.stallMemReqsOnly && !cfg.isStalling .wb) then
      if cfg.constantMemoryLatency then Prod.mk [] <$> s.handOverL1Miss cfg env id ii else s.sendMissWrite cfg env id ii
    else return ([], taken, s)

/-- What is expected of an access: a write that completes was taken once and its buffer is free, and one that does not
was not taken and waits at its place. -/
def State.WritesThrough (cfg : Config) (env : Env) (s : State) (id ii : ℕ) : Prop :=
  ∃ answers done t, s.writeAccess cfg env id ii = .ok (answers, done, t) ∧
    if done then answers = [true] ∧ (t.reqBuffer id).state = .inv
    else true ∉ answers ∧ (t.reqBuffer id).state = .l1Wait ∧ (t.queue .l1)[ii]? = (s.queue .l1)[ii]?

/-- The access comes to nothing: the writeback misses, the core wants it back, and its `done_func` refuses. -/
def State.PutOff (cfg : Config) (env : Env) (s : State) (id : ℕ) : Prop :=
  (s.accessL1 cfg id).1 = none ∧ cfg.perfectL1 = false ∧ (s.reqBuffer id).doneFunc.isSome = true ∧
    cfg.allowTypeMatches = true ∧ (s.reqBuffer id).wbRequestedBack = true ∧
      ∃ t, (s.accessL1 cfg id).2.doneFunc cfg env id = .ok (false, t)

/-! ## The parts of an access -/

theorem accessL1_reqBuffer : (s.accessL1 cfg id).2.reqBuffer = s.reqBuffer := rfl

theorem hitL1Line_reqBuffer {way : ℕ} : (s.hitL1Line cfg id way).reqBuffer = s.reqBuffer := by
  simp only [State.hitL1Line]
  split <;> rfl

/-- A hit moves the request on before it is sent. -/
theorem memProcessL1HitAccess_write (ii : ℕ) (way : Option ℕ) (hwt : cfg.l1WriteThrough = true)
    (htype : (s.reqBuffer id).type = .wb) :
    ∃ t, s.memProcessL1HitAccess cfg id ii way = .ok t ∧ (t.reqBuffer id).state = .busNew ∧
      (t.reqBuffer id).type = .wb := by
  have hreq : (way.elim s fun way => s.hitL1Line cfg id way).reqBuffer = s.reqBuffer := by
    cases way with
    | none => rfl
    | some way => exact hitL1Line_reqBuffer
  have hcond : (cfg.l1WriteThrough && decide ((s.reqBuffer id).type = .wb)) = true := by
    rw [hwt, htype]
    rfl
  simp only [State.memProcessL1HitAccess, hreq, hcond, if_true]
  exact ⟨_, rfl, by simp [State.markEntry, State.setQueue, State.setReq],
    by simp [State.markEntry, State.setQueue, State.setReq, htype]⟩

/-- With `L1_WRITE_THROUGH` no line has to be written back first. -/
theorem l1FillLine_writeThrough (hwt : cfg.l1WriteThrough = true) : s.l1FillLine cfg env id =
    (s.insertL1Line cfg env id).map fun t => (true, t) := by
  simp only [State.l1FillLine, hwt, Bool.not_true, Bool.and_false, Bool.false_and, Bool.false_eq_true, if_false]
  cases s.insertL1Line cfg env id <;> rfl

theorem memFreeReqbuf_state (h : s.memFreeReqbuf id = .ok t) : (t.reqBuffer id).state = .inv := by
  obtain ⟨-, -, -, rfl⟩ := State.memFreeReqbuf_eq h
  simp [State.freeReq, State.setReq]

theorem finishReq_state {state : MemReqState} (h : s.finishReq id state = .ok t) : (t.reqBuffer id).state = .inv :=
  memFreeReqbuf_state h

theorem markEntry_reqBuffer {k : QueueId} : (s.markEntry k ii).reqBuffer = s.reqBuffer := rfl

/-- A request that cannot be joined stays as it is. -/
theorem memAdjustMatchingRequest_refused {found : Match} {type : MemReqType} {destination : Destination} {op : Option MemOp}
    {doneFunc : Option DoneFunc} {newPriority : Priority}
    (h : s.memAdjustMatchingRequest cfg found type destination op doneFunc newPriority = .ok (false, t)) : t = s := by
  rw [State.memAdjustMatchingRequest] at h
  obtain ⟨req, -, h⟩ := Execution.bind_eq_ok.mp h
  cases req with
  | none => exact (Prod.mk.inj (Except.ok.inj h)).2.symm
  | some req =>
      cases op with
      | none =>
          obtain ⟨m, -, hout⟩ := Execution.bind_eq_ok.mp h
          cases hout
      | some op =>
          dsimp only at h
          split at h
          · cases h
          · obtain ⟨m, -, hout⟩ := Execution.bind_eq_ok.mp h
            cases hout

theorem memAllocateReqBuffer_none {procId : ℕ} {type : MemReqType} {forL1Writeback : Bool}
    (h : s.memAllocateReqBuffer cfg procId type forL1Writeback = .ok (none, t)) : t = s := by
  rw [State.memAllocateReqBuffer] at h
  split at h
  · cases h
  · split at h
    · split at h
      · cases h
      · split at h <;> cases h
    · exact (Prod.mk.inj (Except.ok.inj h)).2.symm

/-- A writeback that finds no room changes nothing. -/
theorem newMemWbReq_refused {toMlc : Bool} {destination : Destination} {procId : ℕ} {addr : Addr}
    (h : s.newMemWbReq cfg toMlc destination procId addr = .ok (false, t)) : t = s := by
  rw [State.newMemWbReq] at h
  split at h
  · cases h
  · obtain ⟨found, -, h⟩ := Execution.bind_eq_ok.mp h
    cases found with
    | some found => exact memAdjustMatchingRequest_refused h
    | none =>
        obtain ⟨full, -, h⟩ := Execution.bind_eq_ok.mp h
        cases full with
        | true => exact (Prod.mk.inj (Except.ok.inj h)).2.symm
        | false =>
            obtain ⟨⟨taken, m⟩, hm, h⟩ := Execution.bind_eq_ok.mp h
            cases taken with
            | none =>
                obtain rfl := (Prod.mk.inj (Except.ok.inj h)).2
                exact memAllocateReqBuffer_none hm
            | some id =>
                obtain ⟨u, -, hout⟩ := Execution.bind_eq_ok.mp h
                cases hout

theorem doneFunc_refused (h : s.doneFunc cfg env id = .ok (false, t)) : t = s := by
  rw [State.doneFunc] at h
  split at h
  · cases h
  · cases h
  · split at h
    · obtain rfl := (Prod.mk.inj (Except.ok.inj h)).2
      rfl
    · split at h
      · cases h
      · obtain ⟨⟨taken, m⟩, hm, hout⟩ := Execution.bind_eq_ok.mp h
        obtain ⟨rfl, ht⟩ := Prod.mk.inj (Except.ok.inj hout)
        rw [if_neg Bool.false_ne_true] at ht
        obtain rfl := ht
        exact newMemWbReq_refused hm

/-- A miss without `done_func` is filled, and the request goes on before it is sent. -/
theorem fillWrite (env : Env) (hwt : cfg.l1WriteThrough = true) (htype : (s.reqBuffer id).type = .wb) :
    ∃ t, s.l1FillLine cfg env id = .ok (true, t) := by
  rw [l1FillLine_writeThrough hwt]
  have hread : ¬ (((s.reqBuffer id).type = .dfetch ∨ (s.reqBuffer id).type = .dstore) ∧
      (s.reqBuffer id).l1MissCycle = none) := by
    rw [htype]
    rintro ⟨h | h, -⟩ <;> cases h
  have hfill : ∃ t, s.insertL1Line cfg env id = .ok t := ⟨_, if_neg hread⟩
  obtain ⟨t, ht⟩ := hfill
  rw [ht]
  exact ⟨t, rfl⟩

/-- What a miss comes to: the request has left the state that the send asks for, or `done_func` refused and the request
waits for the next cycle. -/
theorem processL1WbMiss_write (hwt : cfg.l1WriteThrough = true) (htype : (s.reqBuffer id).type = .wb)
    (h : s.processL1WbMiss cfg env id ii = .ok (done, t)) :
    done = true ∧ (t.reqBuffer id).state ≠ .l1Wait ∨
      done = false ∧ t = s.waitCycle id ∧ (s.reqBuffer id).doneFunc.isSome = true ∧ cfg.allowTypeMatches = true ∧
        (s.reqBuffer id).wbRequestedBack = true ∧ s.doneFunc cfg env id = .ok (false, s) := by
  simp only [State.processL1WbMiss] at h
  split at h
  · next hfunc =>
      split at h
      · cases h
      · next hallow =>
          split at h
          · cases h
          · next hback =>
              obtain ⟨⟨ready, m⟩, hm, hrest⟩ := Execution.bind_eq_ok.mp h
              cases ready with
              | false =>
                  obtain rfl := doneFunc_refused hm
                  obtain ⟨rfl, rfl⟩ := Prod.mk.inj (Except.ok.inj hrest)
                  exact .inr ⟨rfl, rfl, hfunc, Bool.eq_true_of_not_eq_false hallow, Bool.eq_true_of_not_eq_false hback, hm⟩
              | true =>
                  simp only [if_true] at hrest
                  rw [l1FillLine_writeThrough hwt] at hrest
                  obtain ⟨⟨filled, u⟩, hu, hrest⟩ := Execution.bind_eq_ok.mp hrest
                  cases hfill : m.insertL1Line cfg env id with
                  | error msg =>
                      rw [hfill] at hu
                      cases hu
                  | ok v =>
                      rw [hfill] at hu
                      obtain ⟨rfl, rfl⟩ := Prod.mk.inj (Except.ok.inj hu)
                      obtain ⟨w, hw, hout⟩ := Execution.bind_eq_ok.mp hrest
                      obtain ⟨rfl, rfl⟩ := Prod.mk.inj (Except.ok.inj hout)
                      refine .inl ⟨rfl, ?_⟩
                      rw [markEntry_reqBuffer, finishReq_state hw]
                      exact fun hinv => by cases hinv
  · obtain ⟨u, hu⟩ := fillWrite env hwt htype
    have hcond : (cfg.l1WriteThrough && decide ((s.reqBuffer id).type = .wb)) = true := by
      rw [hwt, htype]
      rfl
    rw [hu] at h
    simp only [bind, Except.bind, if_true, hcond] at h
    obtain ⟨rfl, rfl⟩ := Prod.mk.inj (Except.ok.inj h)
    refine .inl ⟨rfl, ?_⟩
    simp [markEntry_reqBuffer, State.setReq]

/-- A send from another state fails its assertion. -/
theorem sendMissWrite_error (cfg : Config) (env : Env) (ii : ℕ) (h : (s.reqBuffer id).state ≠ .l1Wait) :
    s.sendMissWrite cfg env id ii = .error "MRS_L1_WAIT == req->state" ∧
      s.sendL1Miss cfg env id ii = .error "MRS_L1_WAIT == req->state" := by
  have hsend : s.sendL1Miss cfg env id ii = .error "MRS_L1_WAIT == req->state" := by
    rw [State.sendL1Miss, if_pos h]
  refine ⟨?_, hsend⟩
  rw [State.sendMissWrite, hsend]
  rfl

/-- A writeback that misses. -/
theorem memProcessL1MissAccess_write (htype : (s.reqBuffer id).type = .wb) :
    s.memProcessL1MissAccess cfg env id ii = s.processL1WbMiss cfg env id ii := by
  have hwb : (s.reqBuffer id).type.isWb = true := by
    rw [htype]
    rfl
  simp only [State.memProcessL1MissAccess, hwb, if_true]

/-- The access fails after a hit. -/
theorem writeAccess_hit (hwt : cfg.l1WriteThrough = true) (hlatency : cfg.constantMemoryLatency = false)
    (htype : (s.reqBuffer id).type = .wb) (hhit : ((s.accessL1 cfg id).1.isSome || cfg.perfectL1) = true) :
    s.writeAccess cfg env id ii = .error "MRS_L1_WAIT == req->state" := by
  obtain ⟨t, ht, hstate, -⟩ := memProcessL1HitAccess_write (s := (s.accessL1 cfg id).2) ii (s.accessL1 cfg id).1 hwt htype
  have hother : (t.reqBuffer id).state ≠ .l1Wait := by
    rw [hstate]
    exact fun h => by cases h
  simp only [State.writeAccess, hhit, if_true, hlatency, Bool.false_eq_true, if_false]
  rw [ht]
  exact if_pos hother

/-- The instrumented access is the one of the machine. -/
theorem writeAccess_eq (hwt : cfg.l1WriteThrough = true) (hlatency : cfg.constantMemoryLatency = false)
    (htype : (s.reqBuffer id).type = .wb) :
    s.memCompleteL1Access cfg env id ii = (s.writeAccess cfg env id ii).map Prod.snd := by
  cases hhit : (s.accessL1 cfg id).1.isSome || cfg.perfectL1 with
  | true =>
      rw [writeAccess_hit hwt hlatency htype hhit]
      obtain ⟨t, ht, hstate, htype'⟩ := memProcessL1HitAccess_write (s := (s.accessL1 cfg id).2) ii (s.accessL1 cfg id).1 hwt
        htype
      simp only [State.memCompleteL1Access, hhit, if_true, State.completeL1Hit]
      rw [ht]
      simp [bind, Except.bind, Except.map, htype', Config.trains, hwt, hlatency]
  | false =>
      have hsends : (cfg.l1WriteThrough && decide ((s.reqBuffer id).type = .wb) || !(s.reqBuffer id).type.isWb) = true := by
        rw [hwt, htype]
        rfl
      have haccessed : ((s.accessL1 cfg id).2.reqBuffer id).type = .wb := htype
      have hwb : (s.accessL1 cfg id).2.memProcessL1MissAccess cfg env id ii =
          (s.accessL1 cfg id).2.processL1WbMiss cfg env id ii := memProcessL1MissAccess_write haccessed
      simp only [State.memCompleteL1Access, State.writeAccess, hhit, Bool.false_eq_true, if_false, hsends, Bool.true_and, hwb]
      rw [htype]
      cases hmiss : (s.accessL1 cfg id).2.processL1WbMiss cfg env id ii with
      | error msg => rfl
      | ok out =>
          obtain ⟨taken, m⟩ := out
          cases processL1WbMiss_write hwt haccessed hmiss with
          | inl hleft =>
              obtain ⟨rfl, hstate⟩ := hleft
              obtain ⟨hwrite, hsend⟩ := sendMissWrite_error cfg env ii hstate
              cases hstall : !(cfg.stallMemReqsOnly && !cfg.isStalling .wb) with
              | true =>
                  simp only [bind, Except.bind, Bool.true_and, if_true, State.handOverL1Miss, hlatency, Bool.false_eq_true,
                    if_false, hwrite, hsend, Except.map]
              | false => rfl
          | inr hwaits =>
              obtain ⟨rfl, -⟩ := hwaits
              rfl

/-- No access gets a write to Ramulator: it fails, or is put off, or drops the write unsent. -/
theorem writeAccess_unsent (hwt : cfg.l1WriteThrough = true) (hlatency : cfg.constantMemoryLatency = false)
    (htype : (s.reqBuffer id).type = .wb)
    (h : s.writeAccess cfg env id ii = .ok (answers, done, t)) :
    answers = [] ∧ (done = true ∧ cfg.stallMemReqsOnly = true ∨
      done = false ∧ t = (s.accessL1 cfg id).2.waitCycle id ∧ s.PutOff cfg env id) := by
  cases hhit : (s.accessL1 cfg id).1.isSome || cfg.perfectL1 with
  | true =>
      rw [writeAccess_hit hwt hlatency htype hhit] at h
      cases h
  | false =>
      obtain ⟨hnone, hperfect⟩ := Bool.or_eq_false_iff.mp hhit
      have haccessed : ((s.accessL1 cfg id).2.reqBuffer id).type = .wb := htype
      have hwb : (s.accessL1 cfg id).2.memProcessL1MissAccess cfg env id ii =
          (s.accessL1 cfg id).2.processL1WbMiss cfg env id ii := memProcessL1MissAccess_write haccessed
      simp only [State.writeAccess, hhit, Bool.false_eq_true, if_false, hwb] at h
      obtain ⟨⟨taken, m⟩, hmiss, hrest⟩ := Execution.bind_eq_ok.mp h
      cases processL1WbMiss_write hwt haccessed hmiss with
      | inl hleft =>
          obtain ⟨rfl, hstate⟩ := hleft
          cases hstall : cfg.stallMemReqsOnly with
          | false =>
              simp only [hstall, Bool.false_and, Bool.not_false, Bool.and_self, if_true, hlatency, Bool.false_eq_true,
                if_false] at hrest
              rw [(sendMissWrite_error cfg env ii hstate).1] at hrest
              cases hrest
          | true =>
              have hdrop : cfg.isStalling .wb = false := by simp [Config.isStalling]
              simp only [hstall, hdrop, Bool.not_false, Bool.and_self, Bool.not_true, Bool.and_false, Bool.false_eq_true,
                if_false] at hrest
              obtain ⟨rfl, hout⟩ := Prod.mk.inj (Except.ok.inj hrest)
              obtain ⟨rfl, -⟩ := Prod.mk.inj hout
              exact ⟨rfl, .inl ⟨rfl, rfl⟩⟩
      | inr hwaits =>
          obtain ⟨rfl, rfl, hfunc, hallow, hback, hrefused⟩ := hwaits
          simp only [Bool.false_and, Bool.false_eq_true, if_false] at hrest
          obtain ⟨rfl, hout⟩ := Prod.mk.inj (Except.ok.inj hrest)
          obtain ⟨rfl, rfl⟩ := Prod.mk.inj hout
          exact ⟨rfl, .inr ⟨rfl, rfl, Option.not_isSome_iff_eq_none.mp (Bool.eq_false_iff.mp hnone), hperfect, hfunc, hallow,
            hback, _, hrefused⟩⟩

/-- An access is as expected exactly if it is put off before anything is sent. -/
theorem writesThrough_iff (hwt : cfg.l1WriteThrough = true) (hlatency : cfg.constantMemoryLatency = false)
    (htype : (s.reqBuffer id).type = .wb) (hstate : (s.reqBuffer id).state = .l1Wait) :
    s.WritesThrough cfg env id ii ↔ s.PutOff cfg env id := by
  constructor
  · rintro ⟨answers, done, t, h, hout⟩
    obtain ⟨rfl, hfate⟩ := writeAccess_unsent hwt hlatency htype h
    cases hfate with
    | inl hdropped =>
        obtain ⟨rfl, -⟩ := hdropped
        rw [if_pos rfl] at hout
        cases hout.1
    | inr hwaits => exact hwaits.2.2
  · rintro ⟨hnone, hperfect, hfunc, hallow, hback, t, hrefused⟩
    have hhit : ((s.accessL1 cfg id).1.isSome || cfg.perfectL1) = false := by
      rw [hnone, hperfect]
      rfl
    obtain rfl := doneFunc_refused hrefused
    have hmiss : (s.accessL1 cfg id).2.memProcessL1MissAccess cfg env id ii =
        .ok (false, (s.accessL1 cfg id).2.waitCycle id) := by
      have haccessed : ((s.accessL1 cfg id).2.reqBuffer id).type = .wb := htype
      rw [memProcessL1MissAccess_write haccessed]
      simp only [State.processL1WbMiss, accessL1_reqBuffer, hfunc, hallow, hback, if_true, Bool.true_eq_false, if_false]
      rw [hrefused]
      rfl
    refine ⟨[], false, (s.accessL1 cfg id).2.waitCycle id, ?_, ?_⟩
    · simp only [State.writeAccess, hhit, Bool.false_eq_true, if_false, hmiss]
      rfl
    · rw [if_neg Bool.false_ne_true]
      refine ⟨List.not_mem_nil, ?_, rfl⟩
      simp only [State.waitCycle, State.setReq, if_true, accessL1_reqBuffer]
      exact hstate

/-- The small system with an L1 that is written through. -/
def Config.smallWriteThrough : Config := { Config.small with l1WriteThrough := true }

/-- A writeback at the L1 that the core wants back. -/
def State.requestedBack : State :=
  { State.fresh .smallWriteThrough fun _ => 0 with
    reqBuffer := fun _ => { MemReq.fresh with
      state := .l1Wait, type := .wb, addr := 64, doneFunc := some .dcacheFillLine, wbRequestedBack := true }
    queue := fun k => if k = .l1 then [⟨0, .zero⟩] else [] }

/-- It waits as long as the dcache has no port. -/
theorem writesThrough_requestedBack : State.requestedBack.WritesThrough
    { Config.smallWriteThrough with allowTypeMatches := true } ⟨true, true, false, none, .lru⟩ 0 0 :=
  (writesThrough_iff rfl rfl rfl rfl).mpr ⟨by decide, rfl, rfl, rfl, rfl, _, rfl⟩

/-- A load comes back and the dcache replaces a dirty line for it, whose writeback then waits at the L1. -/
def writebackEvents : List Event :=
  [.newMemReq ⟨.dfetch, 0, 64, 0, some ⟨7, 0, 0⟩, some .dcacheFillLine, none⟩] ++
    [.begin .l1, .entry ⟨true, true, true, none, .lru⟩, .finish] ++
    [.begin .l1, .entry ⟨true, true, true, none, .lru⟩, .finish] ++
    [.enqueueResponse 64, .tryCompletingRequest, .tickL1, .begin .l1fill, .entry ⟨true, true, true, none, .lru⟩, .finish] ++
    [.tickL1, .begin .l1fill, .entry ⟨true, true, true, none, .lru⟩, .finish] ++
    [.begin (.coreFill 0), .entry ⟨true, true, true, some 128, .lru⟩, .finish] ++
    [.tickL1, .begin .l1, .entry ⟨true, true, true, none, .lru⟩, .finish, .begin .l1]

/-- The access of that writeback fails before anything is sent. -/
theorem not_writesThrough_small : ∃ s,
    run .smallWriteThrough (.fresh .smallWriteThrough fun _ => 0) writebackEvents = .ok s ∧
      (s.reqBuffer 1).type = .wb ∧ (s.reqBuffer 1).state = .l1Wait ∧
        s.step .smallWriteThrough (.entry ⟨true, true, true, none, .lru⟩) = .error "MRS_L1_WAIT == req->state" ∧
          ¬ s.WritesThrough .smallWriteThrough ⟨true, true, true, none, .lru⟩ 1 0 := by
  obtain ⟨s, hrun, hs⟩ := Execution.map_eq_ok.mp (show
    (fun s : State => ((s.reqBuffer 1).type, (s.reqBuffer 1).state,
      (match s.step .smallWriteThrough (.entry ⟨true, true, true, none, .lru⟩) with
        | .error msg => some msg
        | .ok _ => none),
      match s.writeAccess .smallWriteThrough ⟨true, true, true, none, .lru⟩ 1 0 with
        | .error _ => true
        | .ok _ => false)) <$>
      run .smallWriteThrough (.fresh .smallWriteThrough fun _ => 0) writebackEvents =
        .ok (.wb, .l1Wait, some "MRS_L1_WAIT == req->state", true) by decide +kernel)
  obtain ⟨htype, hs⟩ := Prod.mk.inj hs
  obtain ⟨hstate, hs⟩ := Prod.mk.inj hs
  obtain ⟨hstep, haccess⟩ := Prod.mk.inj hs
  refine ⟨s, hrun, htype, hstate, ?_, ?_⟩
  · cases h : s.step .smallWriteThrough (.entry ⟨true, true, true, none, .lru⟩) with
    | error msg =>
        rw [h] at hstep
        rw [Option.some.inj hstep]
    | ok t =>
        rw [h] at hstep
        cases hstep
  · rintro ⟨answers, done, t, h, -⟩
    rw [h] at haccess
    cases haccess

end Scarab.Memory
