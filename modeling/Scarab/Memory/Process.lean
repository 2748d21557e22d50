import Scarab.Memory.Requests

/-! # The queues of the memory system

The bodies of the loops of `mem_process_l1_reqs`, `mem_process_mlc_reqs`,
`mem_process_l1_fill_reqs`, `mem_process_mlc_fill_reqs` and `mem_process_core_fill_reqs`, and what
each loop does at its end. -/

namespace Scarab.Memory

/-! ## Small steps -/

/-- A change of the counts of the loop. -/
def State.count (s : State) (f : Pass → Pass) : State := { s with pass := s.pass.map f }

/-- The priority of an entry. -/
def State.entryPriority (s : State) (k : QueueId) (ii : ℕ) : Priority :=
  ((s.queue k)[ii]?.map QueueEntry.priority).getD .zero

/-- A request goes on to a queue of fills, at the priority of the entry it had. -/
def State.insertFill (cfg : Config) (s : State) (id : ℕ) (k : QueueId) (seqNum : ℕ) (priority : Priority) :
    Except String State :=
  (s.setReq id { s.reqBuffer id with queue := some k }).memInsertReqIntoQueue cfg id k
    (cfg.fifoPriority seqNum (if cfg.orderBeyondBus then .zero else priority))

/-- To the fill queue of the MLC. -/
def State.insertMlcFill (cfg : Config) (s : State) (id : ℕ) (priority : Priority) : Except String State := do
  let s ← s.insertFill cfg id .mlcFill s.mlcFillSeqNum priority
  return { s with mlcFillSeqNum := s.mlcFillSeqNum + 1 }

/-- To the fill queue of the core. -/
def State.insertCoreFill (cfg : Config) (s : State) (id : ℕ) (priority : Priority) : Except String State := do
  let procId := (s.reqBuffer id).procId
  let s ← s.insertFill cfg id (.coreFill procId) (s.coreFillSeqNum procId) priority
  return { s with coreFillSeqNum := fun procId' =>
    if procId' = procId then s.coreFillSeqNum procId + 1 else s.coreFillSeqNum procId' }

/-- `mem_complete_bus_in_access`. -/
def State.memCompleteBusInAccess (cfg : Config) (s : State) (id : ℕ) (priority : Priority) : Except String State := do
  let s ← (s.setReq id { s.reqBuffer id with state := .fillL1, rdyCycle := s.l1CycleCount + 1 }).insertFill cfg id
    .l1fill s.l1fillSeqNum priority
  return { s with l1fillSeqNum := s.l1fillSeqNum + 1 }

/-- A request goes on from the MLC queue to the L1 queue. -/
def State.insertL1 (cfg : Config) (s : State) (id : ℕ) : Except String State := do
  let s ← (s.setReq id { s.reqBuffer id with queue := some .l1 }).memInsertReqIntoQueue cfg id .l1
    (cfg.fifoPriority s.l1SeqNum .zero)
  return { s with l1SeqNum := s.l1SeqNum + 1 }.count fun pass =>
    { pass with insertionCount := pass.insertionCount + 1 }

/-- The request waits until the next cycle. -/
def State.waitCycle (s : State) (id : ℕ) : State :=
  s.setReq id { s.reqBuffer id with rdyCycle := s.l1CycleCount + 1 }

/-- The request is done and its buffer free. -/
def State.finishReq (s : State) (id : ℕ) (state : MemReqState) : Except String State :=
  (s.setReq id { s.reqBuffer id with state, rdyCycle := s.l1CycleCount + 1 }).memFreeReqbuf id

/-- With `HIER_MSHR_ON`, the request gives a reserved entry back. -/
def State.unreserve (cfg : Config) (s : State) (id : ℕ) : State :=
  if cfg.hierMshrOn then
    s.setReq id { s.reqBuffer id with reservedEntryCount := (s.reqBuffer id).reservedEntryCount - 1 }
  else s

/-- With `HIER_MSHR_ON`, the request reserves an entry; a writeback never comes back. -/
def State.reserve (cfg : Config) (s : State) (id : ℕ) : State :=
  if cfg.hierMshrOn && !(s.reqBuffer id).type.isWb then
    (s.count fun pass => { pass with reserveEntryCount := pass.reserveEntryCount + 1 }).setReq id
      { s.reqBuffer id with reservedEntryCount := (s.reqBuffer id).reservedEntryCount + 1 }
  else s

/-- A demand that hits a prefetched line marks it, and a writeback makes the line dirty. -/
def LineData.hit (data : LineData) (type : MemReqType) : LineData :=
  { data with
    seenPrefetch := data.seenPrefetch || type.isDemand && data.prefetch
    dirty := data.dirty || type = .wb }

/-- Whether a line that is hit belongs to the core of the request. -/
def State.trainable (s : State) (id : ℕ) (data : Option LineData) : Bool :=
  (data.all fun data => data.procId == (s.reqBuffer id).procId) &&
    (s.reqBuffer id).procId == getProcIdFromCmpAddr (s.reqBuffer id).addr

/-! ## The L1 -/

/-- `mem_start_l1_access`. -/
def State.memStartL1Access (cfg : Config) (env : Env) (s : State) (id : ℕ) : State :=
  if env.port then
    s.setReq id { s.reqBuffer id with state := .l1Wait, rdyCycle := s.l1CycleCount + cfg.l1Cycles }
  else s

/-- The line that a request hits, and the first hit of a prefetched line. -/
def State.hitL1Line (cfg : Config) (s : State) (id way : ℕ) : State :=
  let req := s.reqBuffer id
  let c := s.l1 (cfg.l1Of req.procId)
  let data := (c.entries (cfg.l1.set req.addr) way).data
  let s := s.setL1 (cfg.l1Of req.procId) (c.setData (cfg.l1.set req.addr) way (data.hit req.type))
  if req.type.isDemand && data.prefetch && !data.seenPrefetch then
    s.call id (.ul1PrefHit req.procId req.addr data.prefLoadPC data.globalHist data.prefetcherId)
  else s

/-- `mem_process_l1_hit_access`; there is no way if the L1 is perfect. -/
def State.memProcessL1HitAccess (cfg : Config) (s : State) (id ii : ℕ) (way : Option ℕ) : Except String State := do
  let s := way.elim s fun way => s.hitL1Line cfg id way
  let req := s.reqBuffer id
  let priority := s.entryPriority .l1 ii
  let s ←
    if cfg.l1WriteThrough && req.type = .wb then
      .ok (s.setReq id { req with state := .busNew, rdyCycle := s.l1CycleCount + cfg.l1qToFsbTransferLatency })
    else if cfg.mlcPresent && req.destination != .l1 && !req.type.isWb then
      (s.setReq id { req with state := .fillMlc, rdyCycle := s.l1CycleCount + 1 }).insertMlcFill cfg id priority
    else if req.doneFunc.isSome then
      (s.setReq id { req with state := .l1HitDone, rdyCycle := s.coreCycleCount req.procId }).insertCoreFill cfg id
        priority
    else (s.setReq id { req with state := .l1HitDone }).memFreeReqbuf id
  return s.markEntry .l1 ii

/-- `mem_process_l1_miss_access` for a writeback, which fills the L1. -/
def State.processL1WbMiss (cfg : Config) (env : Env) (s : State) (id ii : ℕ) : Except String (Bool × State) := do
  let req := s.reqBuffer id
  if req.doneFunc.isSome then
    if cfg.allowTypeMatches = false then .error "ALLOW_TYPE_MATCHES"
    else if req.wbRequestedBack = false then .error "req->wb_requested_back"
    else
      let (done, s) ← s.doneFunc cfg env id
      if done then
        let (filled, s) ← s.l1FillLine cfg env id
        if filled then return (true, (← s.finishReq id .l1HitDone).markEntry .l1 ii)
        else return (false, s.waitCycle id)
      else return (false, s.waitCycle id)
  else
    let (filled, s) ← s.l1FillLine cfg env id
    if filled then
      if cfg.l1WriteThrough && req.type = .wb then
        return (true, (s.setReq id { s.reqBuffer id with
          state := .busNew, rdyCycle := s.l1CycleCount + cfg.l1qToFsbTransferLatency }).markEntry .l1 ii)
      else return (true, (← s.finishReq id .l1HitDone).markEntry .l1 ii)
    else return (false, s.waitCycle id)

/-- `mem_process_l1_miss_access`. -/
def State.memProcessL1MissAccess (cfg : Config) (env : Env) (s : State) (id ii : ℕ) :
    Except String (Bool × State) := do
  let req := s.reqBuffer id
  if req.type.isWb then s.processL1WbMiss cfg env id ii
  else if cfg.stallMemReqsOnly && !cfg.isStalling req.type then
    return (true, (← s.finishReq id .inv).markEntry .l1 ii)
  else
    let s := s.setReq id { req with l1Miss := true, l1MissCycle := some s.l1CycleCount }
    if cfg.constantMemoryLatency then return (!(← s.queueFull cfg .l1fill), s) else return (true, s)

/-- What the prefetchers are told of a request that missed in the L1. -/
def State.trainMiss (cfg : Config) (s : State) (id : ℕ) : State :=
  let req := s.reqBuffer id
  let s :=
    if !cfg.prefOracleTrainOn && cfg.trains req.type then
      s.call id (.ul1Miss req.procId req.addr req.loadPC req.globalHist)
    else s
  if (req.type.isPrefetch || req.demandMatchPrefetch) && req.prefetcherId != 0 then
    s.call id (.ul1sent req.procId req.addr req.prefetcherId)
  else s

/-- The miss is sent to Ramulator. An entry is reserved also for a request that was refused. -/
def State.sendL1Miss (cfg : Config) (env : Env) (s : State) (id ii : ℕ) : Except String (Bool × State) :=
  if (s.reqBuffer id).state ≠ .l1Wait then .error "MRS_L1_WAIT == req->state"
  else do
    let (sent, s) ← (s.setReq id { s.reqBuffer id with state := .memNew }).ramulatorSend env id
    let s :=
      if sent then (s.setReq id { s.reqBuffer id with queue := none }).markEntry .l1 ii
      else s.setReq id { s.reqBuffer id with state := .l1Wait }
    return (sent, s.reserve cfg id)

/-- A request that missed in the L1 goes to Ramulator, or at `CONSTANT_MEMORY_LATENCY` straight to
the fill queue of the L1. -/
def State.handOverL1Miss (cfg : Config) (env : Env) (s : State) (id ii : ℕ) : Except String (Bool × State) := do
  let (done, s) ←
    if cfg.constantMemoryLatency then do
      let s ← s.memCompleteBusInAccess cfg id (s.entryPriority .l1 ii)
      .ok (true, s.setReq id { s.reqBuffer id with rdyCycle := s.l1CycleCount + cfg.memoryCycles })
    else s.sendL1Miss cfg env id ii
  return (done, s.trainMiss cfg id)

/-- Whether a request hits in the L1, and the access to the cache. -/
def State.accessL1 (cfg : Config) (s : State) (id : ℕ) : Option ℕ × State :=
  let req := s.reqBuffer id
  let access := (s.l1 (cfg.l1Of req.procId)).access cfg.l1 s.simTime req.addr
    (cfg.prefetchUpdateLruL1 || !req.type.isPrefetch)
  (if cfg.forceL1Miss then none else access.1, s.setL1 (cfg.l1Of req.procId) access.2)

/-- `mem_complete_l1_access` for a hit. -/
def State.completeL1Hit (cfg : Config) (s : State) (id ii : ℕ) (way : Option ℕ) : Except String (Bool × State) := do
  let s ← s.memProcessL1HitAccess cfg id ii way
  let req := s.reqBuffer id
  let data := way.map fun way => ((s.l1 (cfg.l1Of req.procId)).entries (cfg.l1.set req.addr) way).data
  let trains := !cfg.prefOracleTrainOn && cfg.trains req.type
  if trains && !(cfg.perfectL1 || s.trainable id data) then .error "req->proc_id == data->proc_id"
  -- the request of the writeback is in `MRS_BUS_NEW` by now
  else if cfg.l1WriteThrough && req.type = .wb && !cfg.constantMemoryLatency then .error "MRS_L1_WAIT == req->state"
  else return (true, if trains then s.call id (.ul1Hit req.procId req.addr req.loadPC req.globalHist) else s)

/-- `mem_complete_l1_access`. -/
def State.memCompleteL1Access (cfg : Config) (env : Env) (s : State) (id ii : ℕ) :
    Except String (Bool × State) := do
  let req := s.reqBuffer id
  let (way, s) := s.accessL1 cfg id
  if way.isSome || cfg.perfectL1 then s.completeL1Hit cfg id ii way
  else
    let sends := (cfg.l1WriteThrough && req.type = .wb || !req.type.isWb) &&
      !(cfg.stallMemReqsOnly && !cfg.isStalling req.type)
    let (taken, s) ← s.memProcessL1MissAccess cfg env id ii
    if taken && sends then s.handOverL1Miss cfg env id ii else return (taken, s)

/-! ## The MLC -/

/-- `mem_start_mlc_access`. -/
def State.memStartMlcAccess (cfg : Config) (env : Env) (s : State) (id : ℕ) : State :=
  if env.port then
    s.setReq id { s.reqBuffer id with state := .mlcWait, rdyCycle := s.l1CycleCount + cfg.mlcCycles }
  else s

/-- A writeback that goes on to the L1, or a request that is done. -/
def State.finishMlc (cfg : Config) (s : State) (id : ℕ) : Except String State :=
  if cfg.mlcWriteThrough && (s.reqBuffer id).type = .wb then
    .ok (s.setReq id { s.reqBuffer id with
      state := .l1New, rdyCycle := s.l1CycleCount + cfg.mlcqToL1qTransferLatency })
  else s.finishReq id .mlcHitDone

/-- `done_func` of a request, if it has any. -/
def State.tryDoneFunc (cfg : Config) (env : Env) (s : State) (id : ℕ) : Except String (Bool × State) :=
  if (s.reqBuffer id).doneFunc = none then .ok (true, s) else s.doneFunc cfg env id

/-- `mem_process_mlc_hit_access`; there is no way if the MLC is perfect. -/
def State.memProcessMlcHitAccess (cfg : Config) (env : Env) (s : State) (id ii : ℕ) (way : Option ℕ) :
    Except String (Bool × State) := do
  let req := s.reqBuffer id
  let (done, s) ← s.tryDoneFunc cfg env id
  if done then
    let s := way.elim s fun way =>
      let set := cfg.mlc.set req.addr
      { s with mlc := s.mlc.setData set way ((s.mlc.entries set way).data.hit req.type) }
    return (true, (← s.finishMlc cfg id).markEntry .mlc ii)
  else return (false, s)

/-- `mem_process_mlc_miss_access`. -/
def State.memProcessMlcMissAccess (cfg : Config) (env : Env) (s : State) (id ii : ℕ) :
    Except String (Bool × State) := do
  let s := s.setReq id { s.reqBuffer id with mlcMiss := true, mlcMissCycle := some s.l1CycleCount }
  let req := s.reqBuffer id
  if req.type.isWb then
    if req.doneFunc.isSome then
      if cfg.allowTypeMatches = false then .error "ALLOW_TYPE_MATCHES"
      else if req.wbRequestedBack = false then .error "req->wb_requested_back"
      else
        let (done, s) ← s.doneFunc cfg env id
        if done then
          let (_, s) ← s.mlcFillLine cfg env id
          return (true, (← s.finishReq id .mlcHitDone).markEntry .mlc ii)
        else return (false, s.waitCycle id)
    else
      let (_, s) ← s.mlcFillLine cfg env id
      return (true, (← s.finishMlc cfg id).markEntry .mlc ii)
  else if ← s.queueFull cfg .l1 then return (false, s)
  else
    return (true, (s.setReq id { req with
      state := .l1New, rdyCycle := s.l1CycleCount + cfg.mlcqToL1qTransferLatency }).markEntry .mlc ii)

/-- `mem_complete_mlc_access` for a hit. -/
def State.completeMlcHit (cfg : Config) (env : Env) (s : State) (id ii : ℕ) (way : Option ℕ) :
    Except String (Bool × State) := do
  let (done, s) ← s.memProcessMlcHitAccess cfg env id ii way
  if done then
    let req := s.reqBuffer id
    let data := way.map fun way => (s.mlc.entries (cfg.mlc.set req.addr) way).data
    let trains := !cfg.prefOracleTrainOn && cfg.trains req.type
    if trains && !(data.isSome && s.trainable id data) then .error "req->proc_id == data->proc_id"
    else
      let s := if trains then s.call id (.umlcHit req.procId req.addr req.loadPC req.globalHist) else s
      if cfg.mlcWriteThrough && req.type = .wb then return (true, ← s.insertL1 cfg id)
      else return (true, s)
  else return (false, s)

/-- `mem_complete_mlc_access`. -/
def State.memCompleteMlcAccess (cfg : Config) (env : Env) (s : State) (id ii : ℕ) :
    Except String (Bool × State) := do
  let req := s.reqBuffer id
  let access := s.mlc.access cfg.mlc s.simTime req.addr (cfg.prefetchUpdateLruMlc || !req.type.isPrefetch)
  let s := { s with mlc := access.2 }
  if access.1.isSome || cfg.perfectMlc then s.completeMlcHit cfg env id ii access.1
  else
    let sends := cfg.mlcWriteThrough && req.type = .wb || !req.type.isWb
    let (taken, s) ← s.memProcessMlcMissAccess cfg env id ii
    if taken && sends then
      let s := (← s.insertL1 cfg id).reserve cfg id
      let req := s.reqBuffer id
      return (true, if !cfg.prefOracleTrainOn && cfg.trains req.type then
          s.call id (.umlcMiss req.procId req.addr req.loadPC req.globalHist)
        else s)
    else return (taken, s)

/-! ## The bodies of the loops -/

/-- The removal of an entry is counted. -/
def State.countRemoval (s : State) (id : ℕ) : State :=
  s.count fun pass => { pass with removalCount := pass.removalCount + 1, completed := pass.completed ++ [id] }

/-- The removal is counted if the request completed. -/
def State.countIf (s : State) (done : Bool) (id : ℕ) : State := if done then s.countRemoval id else s

/-- The body of the loop of `mem_process_l1_reqs`. -/
def State.memProcessL1Entry (cfg : Config) (env : Env) (s : State) (id ii : ℕ) : Except String State :=
  let req := s.reqBuffer id
  if req.state = .inv then .error "req->state != MRS_INV"
  else if s.l1CycleCount < req.rdyCycle then .ok s
  else if req.state = .l1New then .ok (s.memStartL1Access cfg env id)
  else if req.state ≠ .l1Wait then .error "req->state == MRS_L1_WAIT"
  else do
    let (done, s) ← s.memCompleteL1Access cfg env id ii
    return s.countIf done id

/-- The body of the loop of `mem_process_mlc_reqs`. -/
def State.memProcessMlcEntry (cfg : Config) (env : Env) (s : State) (id ii : ℕ) : Except String State :=
  let req := s.reqBuffer id
  if req.state = .inv then .error "req->state != MRS_INV"
  else if s.l1CycleCount < req.rdyCycle then .ok s
  else if req.state = .mlcNew then .ok (s.memStartMlcAccess cfg env id)
  else if req.state ≠ .mlcWait then .error "req->state == MRS_MLC_WAIT"
  else do
    let (done, s) ← s.memCompleteMlcAccess cfg env id ii
    return s.countIf done id

/-- What the loops over the queues of fills assert of every request. -/
def MemReq.fillOk (req : MemReq) : Bool :=
  req.state != .inv && (req.type != .wb || req.wbRequestedBack) && req.type != .wbNodirty

/-- The entries to remove are cut off, and with `HIER_MSHR_ON` as many reserved entries of another
queue become free. -/
def State.removeEntries (cfg : Config) (s : State) (k reservedIn : QueueId) (removalCount : ℕ) :
    Except String State :=
  if removalCount = 0 then .ok s
  else
    let s := s.cutQueue k removalCount
    if cfg.hierMshrOn then
      if s.reserved reservedIn < removalCount then .error "queue->reserved_entry_count >= 0"
      else .ok (s.setReserved reservedIn (s.reserved reservedIn - removalCount))
    else .ok s

/-- `remove_from_l1_fill_queue`. -/
def State.removeFromL1FillQueue (cfg : Config) (s : State) : Except String State := do
  let s ← s.removeEntries cfg .l1fill .l1 ((s.pass.map Pass.removalCount).getD 0)
  return s.count fun pass => { pass with removalCount := 0 }

/-- A line is filled into the L1. -/
def State.fillL1Entry (cfg : Config) (env : Env) (s : State) (id : ℕ) : Except String State := do
  let (filled, s) ← s.l1FillLine cfg env id
  let req := s.reqBuffer id
  if !filled then return s
  else if req.type.isWb then .error "req->type != MRT_WB && req->type != MRT_WB_NODIRTY"
  else
    return s.setReq id { req with
      state := if cfg.mlcPresent && req.destination != .l1 then .fillMlc else .fillDone
      rdyCycle := s.l1CycleCount + 1 }

/-- The body of the loop of `mem_process_l1_fill_reqs`. -/
def State.memProcessL1FillEntry (cfg : Config) (env : Env) (s : State) (id ii : ℕ) : Except String State :=
  let req := s.reqBuffer id
  if req.fillOk = false then .error "req->state != MRS_INV"
  else if s.l1CycleCount < req.rdyCycle then .ok s
  else if req.state = .fillL1 then s.fillL1Entry cfg env id
  else if req.state = .fillMlc then
    if cfg.mlcPresent = false then .error "MLC_PRESENT"
    else do
      let s ← s.insertMlcFill cfg id (s.entryPriority .l1fill ii)
      return ((s.unreserve cfg id).markEntry .l1fill ii).countRemoval id
  else if req.state ≠ .fillDone then .error "req->state == MRS_FILL_DONE"
  else if req.doneFunc = none then do
    let s ← (s.unreserve cfg id).memFreeReqbuf id
    ((s.markEntry .l1fill ii).countRemoval id).removeFromL1FillQueue cfg
  else do
    let s ← (s.setReq id { req with rdyCycle := s.coreCycleCount req.procId }).insertCoreFill cfg id
      (s.entryPriority .l1fill ii)
    return (s.markEntry .l1fill ii).countRemoval id

/-- The body of the loop of `mem_process_mlc_fill_reqs`. -/
def State.memProcessMlcFillEntry (cfg : Config) (env : Env) (s : State) (id ii : ℕ) : Except String State :=
  let req := s.reqBuffer id
  if req.fillOk = false then .error "req->state != MRS_INV"
  else if Destination.l1.toNat ≤ req.destination.toNat then .error "req->destination < DEST_L1"
  else if s.l1CycleCount < req.rdyCycle then .ok s
  else if req.state = .fillMlc then do
    let (filled, s) ← s.mlcFillLine cfg env id
    return if filled then s.setReq id { s.reqBuffer id with state := .fillDone, rdyCycle := s.l1CycleCount + 1 } else s
  else if req.state ≠ .fillDone then .error "req->state == MRS_FILL_DONE"
  else do
    let (done, s) ← s.tryDoneFunc cfg env id
    if done then
      return ((← (s.unreserve cfg id).memFreeReqbuf id).markEntry .mlcFill ii).countRemoval id
    else return s

/-- The body of the loop of `mem_process_core_fill_reqs`. -/
def State.memProcessCoreFillEntry (cfg : Config) (env : Env) (s : State) (procId id ii : ℕ) : Except String State :=
  let req := s.reqBuffer id
  if req.procId ≠ procId then .error "req->proc_id == proc_id"
  else if req.fillOk = false then .error "req->state != MRS_INV"
  else if s.coreCycleCount procId < req.rdyCycle then .error "cycle_count >= req->rdy_cycle"
  else if req.state ≠ .l1HitDone ∧ req.state ≠ .fillDone then
    .error "req->state == MRS_L1_HIT_DONE || req->state == MRS_FILL_DONE"
  else do
    let (done, s) ← s.doneFunc cfg env id
    if done then return ((← s.memFreeReqbuf id).markEntry (.coreFill procId) ii).countRemoval id
    else return s

/-- The body of the loop over a queue. -/
def State.memProcessEntry (cfg : Config) (env : Env) (s : State) (k : QueueId) (id ii : ℕ) : Except String State :=
  match k with
  | .mlc => s.memProcessMlcEntry cfg env id ii
  | .mlcFill => s.memProcessMlcFillEntry cfg env id ii
  | .l1 => s.memProcessL1Entry cfg env id ii
  | .l1fill => s.memProcessL1FillEntry cfg env id ii
  | .coreFill procId => s.memProcessCoreFillEntry cfg env procId id ii

/-! ## The ends of the loops -/

/-- The end of `mem_process_l1_reqs` and of `mem_process_mlc_reqs`: the entries are cut off, those
that are reserved stay, and the queue that the requests went to is sorted. -/
def State.finishAccess (cfg : Config) (s : State) (k : QueueId) (out : Option QueueId) (pass : Pass) :
    Except String State :=
  if pass.removalCount < pass.insertionCount then .error "out_queue_insertion_count <= queue_removal_count"
  else if pass.insertionCount < pass.reserveEntryCount then
    .error "queue_reserve_entry_count <= out_queue_insertion_count"
  else
    let s :=
      if pass.removalCount = 0 then s
      else
        let s := s.cutQueue k pass.removalCount
        if cfg.hierMshrOn then s.setReserved k (s.reserved k + pass.reserveEntryCount) else s
    .ok (if !cfg.allFifoQueues && decide (0 < pass.insertionCount) then out.elim s s.sortQueue else s)

/-- What follows the loop over a queue. -/
def State.finishPass (cfg : Config) (s : State) (pass : Pass) : Except String State :=
  match pass.queue with
  | .mlc => s.finishAccess cfg .mlc (some .l1) pass
  | .l1 => s.finishAccess cfg .l1 (if cfg.constantMemoryLatency then some .l1fill else none) pass
  | .l1fill => s.removeEntries cfg .l1fill .l1 pass.removalCount
  | .mlcFill => s.removeEntries cfg .mlcFill .mlc pass.removalCount
  | .coreFill procId => .ok (if pass.removalCount = 0 then s else s.cutQueue (.coreFill procId) pass.removalCount)

end Scarab.Memory
