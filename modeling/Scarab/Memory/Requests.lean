import Scarab.Memory.State

/-! # Making requests

The search for a request of the same line, `new_mem_req` and the three entry points for
writebacks, the fills of the caches, and `done_func`. -/

namespace Scarab.Memory

/-- What `new_mem_req` reads of an op. -/
structure MemOp where
  uniqueNum : OpPtr
  addr : Addr
  predGlobalHist : ℕ
  deriving DecidableEq, Repr

/-- `Pref_Req_Info`. -/
structure PrefReqInfo where
  prefetcherId : ℕ
  loadPC : Addr
  globalHist : ℕ
  dest : Destination
  deriving DecidableEq, Repr

/-- The arguments of `new_mem_req`. -/
structure ReqArgs where
  type : MemReqType
  procId : ℕ
  addr : Addr
  delay : ℕ
  op : Option MemOp
  doneFunc : Option DoneFunc
  prefInfo : Option PrefReqInfo
  deriving DecidableEq, Repr

/-! ## Ramulator -/

/-- `ramulator_send`: a write goes nowhere, a read into the map. -/
def State.ramulatorSend (env : Env) (s : State) (id : ℕ) : Except String (Bool × State) :=
  let req := s.reqBuffer id
  if req.state ≠ .memNew then .error "A request in state cannot be issued to Ramulator"
  else if req.type = .wbNodirty then .error "Ramulator: Currently unsupported Scarab request type"
  else if req.type = .wb then .ok (env.sent, s)
  else match s.inflightReadReqs.find? fun reqs => reqs.1 == req.physAddr with
  | some reqs =>
      if reqs.2.length ≤ 1 then
        let i := s.inflightReadReqs.findIdx fun reqs => reqs.1 == req.physAddr
        .ok (true, { s with inflightReadReqs := s.inflightReadReqs.modify i fun reqs => (reqs.1, reqs.2 ++ [id]) })
      else .error "it_scarab_req->second.size() <= 1"
  | none =>
      if env.sent then .ok (true, { s with inflightReadReqs := s.inflightReadReqs ++ [(req.physAddr, [id])] })
      else .ok (false, s)

/-- `ramulator_search_queue`. -/
def State.ramulatorSearchQueue (s : State) (physAddr : Addr) (type : MemReqType) : Option ℕ :=
  let sameClass (id : ℕ) : Bool :=
    (s.reqBuffer id).type.isInst && type.isInst || (s.reqBuffer id).type.isData && type.isData
  ((s.inflightReadReqs.filter fun reqs => reqs.1 == physAddr).flatMap Prod.snd ++
    (s.respQueue.filter fun resp => resp.1 == physAddr).map Prod.snd).find? sameClass

/-! ## The search for a request of the same line -/

/-- A request that a new one can join. -/
structure Match where
  id : ℕ
  /-- The queue and the place of its entry; `none` in Ramulator. -/
  place : Option (QueueId × ℕ)
  demandHitPrefetch : Bool
  demandHitWriteback : Bool
  deriving DecidableEq, Repr

/-- Whether a request of one type can join one of another, and whether it is then a demand that
hits a prefetch or a writeback. -/
def Config.matchType (cfg : Config) (reqType type : MemReqType) : Option (Bool × Bool) :=
  if reqType = type then some (false, false)
  else match reqType with
  | .ifetch => if type = .iprf then some (false, false) else none
  | .dfetch => if type = .dstore ∨ type = .dprf then some (false, false) else none
  | .dstore => if type = .dfetch ∨ type = .dprf then some (false, false) else none
  | .iprf => if type = .ifetch then some (true, false) else none
  | .dprf => if type = .dfetch ∨ type = .dstore then some (true, false) else none
  | .wb | .wbNodirty =>
      if cfg.allowTypeMatches ∧ (type = .dfetch ∨ type = .dstore ∨ type = .ifetch ∨ type = .dprf) then
        some (false, true)
      else none

/-- `mem_search_queue`. The sizes of all requests are those of a line, for which `CACHE_SIZE_ADDR`
masks nothing. -/
def State.memSearchQueue (cfg : Config) (s : State) (k : QueueId) (addr : Addr) (type : MemReqType) :
    Except String (Option Match) :=
  match (s.queue k).zipIdx.findSome? fun entry =>
    let req := s.reqBuffer entry.1.reqbuf
    if req.addr = addr ∧ req.state.isFinal = false then
      (cfg.matchType req.type type).map fun hit => Match.mk entry.1.reqbuf (some (k, entry.2)) hit.1 hit.2
    else none with
  | none => .ok none
  | some found =>
      if (s.reqBuffer found.id).state = .inv then .error "matching_req->state != MRS_INV"
      else .ok (some found)

/-- `mem_search_reqbuf`, over queues and, for `none`, Ramulator. -/
def State.memSearchReqbuf (cfg : Config) (s : State) (addr : Addr) (type : MemReqType) :
    List (Option QueueId) → Except String (Option Match)
  | [] => .ok none
  | some k :: ks => do
      match ← s.memSearchQueue cfg k addr type with
      | some found => return some found
      | none => s.memSearchReqbuf cfg addr type ks
  | none :: ks =>
      if type.isWb then .error "Ramulator: Cannot search write requests in Ramulator request queue"
      else match s.ramulatorSearchQueue (cfg.addrTranslate addr) type with
      | some id =>
          let reqType := (s.reqBuffer id).type
          .ok (some ⟨id, none, reqType = .iprf && type = .ifetch ||
            reqType = .dprf && (type = .dfetch || type = .dstore), false⟩)
      | none => s.memSearchReqbuf cfg addr type ks

/-! ## Joining a request -/

/-- A writeback that is requested by the core again; `none` if it is for another function. -/
def MemReq.requestBack (req : MemReq) (doneFunc : Option DoneFunc) : Except String (Option MemReq) :=
  if req.wbRequestedBack = false then
    if req.doneFunc.isSome then .error "!req->done_func"
    else .ok (some { req with doneFunc, wbRequestedBack := true })
  else if req.doneFunc = none then .ok (some { req with doneFunc })
  else .ok (if req.doneFunc = doneFunc then some req else none)

def MemReq.hitBack (cfg : Config) (req : MemReq) (found : Match) (doneFunc : Option DoneFunc) :
    Except String (Option MemReq) :=
  if cfg.allowTypeMatches && found.demandHitWriteback then req.requestBack doneFunc else .ok (some req)

/-- The op joins the list, and a demand promotes a prefetch. -/
def MemReq.addOp (req : MemReq) (type : MemReqType) (op : MemOp) (doneFunc : Option DoneFunc)
    (demandHitPrefetch : Bool) : MemReq :=
  let req := { req with
    opPtrs := req.opPtrs ++ [op.uniqueNum]
    delivered := false
    doneFunc := if req.doneFunc.isSome then req.doneFunc else doneFunc }
  if demandHitPrefetch && !type.isPrefetch then { req with demandMatchPrefetch := true, type, doneFunc }
  else req

/-- The request gets a higher priority, and with it the type. -/
def MemReq.promote (cfg : Config) (req : MemReq) (type : MemReqType) (newPriority : Priority) : MemReq :=
  { req with
    priority := newPriority
    type := if cfg.promoteToHigherPriorityMemReqType ∧ cfg.memPriority type < cfg.memPriority req.type then type
      else req.type }

/-- What follows the priorities in `mem_adjust_matching_request`. -/
def MemReq.joined (req : MemReq) (destination : Destination) (doneFunc : Option DoneFunc) : MemReq :=
  { req with
    doneFunc := if req.type.isInst && !req.doneFunc.isSome then doneFunc else req.doneFunc
    destination := req.destination.min2 destination }

/-- The priority of the entry that was found. -/
def State.oldPriority (s : State) (found : Match) : Priority :=
  match found.place with
  | some (k, ii) => ((s.queue k)[ii]?.map QueueEntry.priority).getD .zero
  | none => .zero

/-- `mem_adjust_matching_request` from the change of priorities on. -/
def State.adjustPriority (cfg : Config) (s : State) (found : Match) (req : MemReq) (type : MemReqType)
    (destination : Destination) (doneFunc : Option DoneFunc) (newPriority : Priority) : Except String State :=
  if newPriority.lt (s.oldPriority found) && !cfg.allFifoQueues then
    match req.queue with
    | none => .error "req->queue"
    | some k =>
        if k = .mlc ∨ k = .l1 ∨ cfg.orderBeyondBus then
          let s := s.setReq found.id ((req.promote cfg type newPriority).joined destination doneFunc)
          let s := match found.place with
            | some (k, ii) => s.setQueue k ((s.queue k).modify ii fun entry => { entry with priority := newPriority })
            | none => s
          .ok (s.sortQueue k)
        else .ok (s.setReq found.id (req.joined destination doneFunc))
  else .ok (s.setReq found.id (req.joined destination doneFunc))

/-- `mem_adjust_matching_request`. -/
def State.memAdjustMatchingRequest (cfg : Config) (s : State) (found : Match) (type : MemReqType)
    (destination : Destination) (op : Option MemOp) (doneFunc : Option DoneFunc) (newPriority : Priority) :
    Except String (Bool × State) := do
  match ← (s.reqBuffer found.id).hitBack cfg found doneFunc with
  | none => return (false, s)
  | some req =>
      match op with
      | none => return (true, ← s.adjustPriority cfg found req type destination doneFunc newPriority)
      | some op =>
          if req.type.isWb then .error "req->type != MRT_WB && req->type != MRT_WB_NODIRTY"
          else
            let s := if found.demandHitPrefetch && !type.isPrefetch then
              s.call found.id (.ul1PrefHitLate req.procId req.addr req.loadPC req.globalHist req.prefetcherId)
            else s
            return (true, ← s.adjustPriority cfg found (req.addOp type op doneFunc found.demandHitPrefetch) type
              destination doneFunc newPriority)

/-! ## New requests -/

/-- The fields that `mem_init_new_req` sets; the state says which queue the request is for. -/
def State.initReq (cfg : Config) (s : State) (id : ℕ) (type : MemReqType) (state : MemReqState)
    (queue : Option QueueId) (procId : ℕ) (addr : Addr) (delay : ℕ) (op : Option MemOp)
    (doneFunc : Option DoneFunc) (newPriority : Priority) (prefInfo : Option PrefReqInfo) : MemReq where
  procId
  state
  type
  queue
  priority := newPriority
  addr
  physAddr := cfg.addrTranslate addr
  rdyCycle := s.l1CycleCount + delay
  reservedEntryCount := 0
  opPtrs := (s.reqBuffer id).opPtrs ++ (op.map MemOp.uniqueNum).toList
  doneFunc
  mlcMiss := false
  mlcMissCycle := none
  l1Miss := false
  l1MissCycle := none
  demandMatchPrefetch := false
  wbRequestedBack := false
  destination := (prefInfo.map PrefReqInfo.dest).getD .none
  loadPC := (op.map MemOp.addr).getD 0
  prefetcherId := (prefInfo.map PrefReqInfo.prefetcherId).getD 0
  prefLoadPC := (prefInfo.map PrefReqInfo.loadPC).getD 0
  globalHist := (prefInfo.map PrefReqInfo.globalHist).getD 0
  serial := s.serials
  delivered := false

/-- `mem_init_new_req`. -/
def State.memInitNewReq (s : State) (id : ℕ) (req : MemReq) : State :=
  { s.setReq id req with reqCount := s.reqCount + 1, serials := s.serials + 1 }

/-- `new_priority`. -/
def State.newPriority (cfg : Config) (s : State) (type : MemReqType) : Priority :=
  ⟨cfg.memPriority type, if type.isPrefetch && !cfg.prioritizePrefetchesWithUnique then 0 else s.l1CycleCount⟩

/-- The sequence number that orders a FIFO queue. -/
def Config.fifoPriority (cfg : Config) (seqNum : ℕ) (priority : Priority) : Priority :=
  if cfg.allFifoQueues then ⟨0, seqNum⟩ else priority

/-- `insert_new_req_into_l1_queue`. -/
def State.insertNewReqIntoL1Queue (cfg : Config) (s : State) (id : ℕ) : Except String State := do
  let s ← s.memInsertReqIntoQueue cfg id .l1 (cfg.fifoPriority s.l1SeqNum .zero)
  return { s with cycleL1qInsertCount := s.cycleL1qInsertCount + 1, l1SeqNum := s.l1SeqNum + 1 }

/-- `insert_new_req_into_mlc_queue`. -/
def State.insertNewReqIntoMlcQueue (cfg : Config) (s : State) (id : ℕ) : Except String State := do
  let s ← s.memInsertReqIntoQueue cfg id .mlc (cfg.fifoPriority s.mlcSeqNum .zero)
  return { s with cycleMlcqInsertCount := s.cycleMlcqInsertCount + 1, mlcSeqNum := s.mlcSeqNum + 1 }

/-- A new request and its entry in the MLC or the L1 queue. -/
def State.insertNewReq (cfg : Config) (s : State) (id : ℕ) (toMlc : Bool) (type : MemReqType) (procId : ℕ)
    (addr : Addr) (delay : ℕ) (op : Option MemOp) (doneFunc : Option DoneFunc)
    (prefInfo : Option PrefReqInfo) : Except String State :=
  if toMlc then
    (s.memInitNewReq id (s.initReq cfg id type .mlcNew (some .mlc) procId addr delay op doneFunc
      (s.newPriority cfg type) prefInfo)).insertNewReqIntoMlcQueue cfg id
  else
    (s.memInitNewReq id (s.initReq cfg id type .l1New (some .l1) procId addr delay op doneFunc
      (s.newPriority cfg type) prefInfo)).insertNewReqIntoL1Queue cfg id

/-- With `HIER_MSHR_ON`, a request to the MLC that joins one to the L1 reserves an entry of the MLC
queue; `none` if that is full. -/
def State.reserveMlc (cfg : Config) (s : State) (id : ℕ) : Except String (Option State) :=
  let missed (s : State) : State :=
    s.setReq id { s.reqBuffer id with mlcMiss := true, mlcMissCycle := some s.l1CycleCount }
  if cfg.hierMshrOn then
    if cfg.allowTypeMatches then .error "!ALLOW_TYPE_MATCHES"
    else do
      if ← s.queueFull cfg .mlc then return none
      else
        let s := s.setReserved .mlc (s.reserved .mlc + 1)
        return some (missed (s.setReq id
          { s.reqBuffer id with reservedEntryCount := (s.reqBuffer id).reservedEntryCount + 1 }))
  else .ok (some (missed s))

/-- `PREF_ORACLE_TRAIN_ON` trains when the request is made. -/
def State.oracleTrain (cfg : Config) (s : State) (id : ℕ) (toMlc : Bool) (args : ReqArgs) : State :=
  let loadPC := (args.op.map MemOp.addr).getD 0
  let globalHist := (args.op.map MemOp.predGlobalHist).getD 0
  if cfg.prefOracleTrainOn && cfg.trains args.type then
    if toMlc then
      s.call id (if (s.mlc.lookup cfg.mlc args.addr).isSome then .umlcHit args.procId args.addr loadPC globalHist
        else .umlcMiss args.procId args.addr loadPC globalHist)
    else
      s.call id (if ((s.l1 (cfg.l1Of args.procId)).lookup cfg.l1 args.addr).isSome then
          .ul1Hit args.procId args.addr loadPC globalHist
        else .ul1Miss args.procId args.addr loadPC globalHist)
  else s

/-- Whether the queue that a request is for has no room for it. -/
def State.noRoom (cfg : Config) (s : State) (toMlc : Bool) (type : MemReqType) : Except String Bool := do
  if toMlc then s.queueFull cfg .mlc
  else
    let full ← s.queueFull cfg .l1
    return full || type.isPrefetch && decide (s.queueNumFree cfg .l1 ≤ cfg.memReqBufferPrefWatermark)

/-- `new_mem_req` from the search on. -/
def State.newReq (cfg : Config) (s : State) (args : ReqArgs) : Except String (Bool × State) := do
  let toMlc := cfg.mlcPresent && (args.prefInfo.map PrefReqInfo.dest).getD .none != .l1
  let destination := (args.prefInfo.map PrefReqInfo.dest).getD .none
  let found ← s.memSearchReqbuf cfg args.addr args.type [some .mlcFill, some .l1fill, none, some .l1, some .mlc]
  match found.filter fun found => !(cfg.hierMshrOn && (s.reqBuffer found.id).type.isWb) with
  | some found =>
      if toMlc && (s.reqBuffer found.id).destination == .l1 then
        match ← s.reserveMlc cfg found.id with
        | none => return (false, s)
        | some s =>
            s.memAdjustMatchingRequest cfg found args.type destination args.op args.doneFunc
              (s.newPriority cfg args.type)
      else
        s.memAdjustMatchingRequest cfg found args.type destination args.op args.doneFunc
          (s.newPriority cfg args.type)
  | none =>
      if ← s.noRoom cfg toMlc args.type then return (false, s)
      else match ← s.memAllocateReqBuffer cfg args.procId args.type false with
      | (none, s) => return (false, s)
      | (some id, s) =>
          let s ← s.insertNewReq cfg id toMlc args.type args.procId args.addr args.delay args.op
            args.doneFunc args.prefInfo
          return (true, s.oracleTrain cfg id toMlc args)

/-- `new_mem_req`. -/
def State.newMemReq (cfg : Config) (s : State) (args : ReqArgs) : Except String (Bool × State) :=
  if args.procId ≠ getProcIdFromCmpAddr args.addr then .error "Proc ID does not match proc ID in address!"
  else do
    let (taken, t) ← s.newReq cfg args
    return (taken, { t with
      accepted := s.accepted ++ if taken then (args.op.map MemOp.uniqueNum).toList else [] })

/-- `new_mem_dc_wb_req` and `new_mem_mlc_wb_req`, for a writeback of dirty data. -/
def State.newMemWbReq (cfg : Config) (s : State) (toMlc : Bool) (destination : Destination) (procId : ℕ)
    (addr : Addr) : Except String (Bool × State) :=
  if procId ≠ getProcIdFromCmpAddr addr then .error "Proc ID does not match proc ID in address!"
  else do
    match ← s.memSearchReqbuf cfg addr .wb [some .l1fill, some .l1] with
    | some found => s.memAdjustMatchingRequest cfg found .wb destination none none (s.newPriority cfg .wb)
    | none =>
        if ← s.noRoom cfg toMlc .wb then return (false, s)
        else match ← s.memAllocateReqBuffer cfg procId .wb false with
        | (none, s) => return (false, s)
        | (some id, s) => return (true, ← s.insertNewReq cfg id toMlc .wb procId addr 1 none none none)

/-- `new_mem_dc_wb_req`. -/
def State.newMemDcWbReq (cfg : Config) (s : State) (procId : ℕ) (addr : Addr) : Except String (Bool × State) :=
  s.newMemWbReq cfg cfg.mlcPresent .mlc procId addr

/-- `new_mem_mlc_wb_req`. -/
def State.newMemMlcWbReq (cfg : Config) (s : State) (procId : ℕ) (addr : Addr) :
    Except String (Bool × State) := do
  let (taken, s) ← s.newMemWbReq cfg false .l1 procId addr
  return (taken, if taken then { s with mlcWritebacks := s.mlcWritebacks ++ [addr] } else s)

/-- The request of a writeback to the memory is freed as soon as it is sent or refused. -/
def State.sendL1Wb (cfg : Config) (env : Env) (s : State) (procId : ℕ) (addr : Addr) :
    Except String (Bool × State) := do
  match ← s.memAllocateReqBuffer cfg procId .wb true with
  | (none, s) => return (false, s)
  | (some id, s) =>
      let s := s.memInitNewReq id (s.initReq cfg id .wb .memNew none procId addr 0 none none (s.newPriority cfg .wb) none)
      let (sent, s) ← s.ramulatorSend env id
      return (sent, ← s.memFreeReqbuf id)

/-- `new_mem_l1_wb_req`. -/
def State.newMemL1WbReq (cfg : Config) (env : Env) (s : State) (procId : ℕ) (addr : Addr) :
    Except String (Bool × State) :=
  if procId ≠ getProcIdFromCmpAddr addr then .error "Proc ID does not match proc ID in address!"
  else do
    let (taken, s) ←
      if cfg.constantMemoryLatency || cfg.stallMemReqsOnly then .ok (true, s)
      else match ← s.memSearchReqbuf cfg addr .wb [some .l1fill] with
      | some found => s.memAdjustMatchingRequest cfg found .wb .mem none none (s.newPriority cfg .wb)
      | none => s.sendL1Wb cfg env procId addr
    return (taken, if taken then { s with l1Writebacks := s.l1Writebacks ++ [addr] } else s)

/-! ## Fills -/

/-- Where a prefetch goes in the replacement order; `PREF_INSERT_DYNACC` is for the L1. -/
def Config.prefReplpos (cfg : Config) (env : Env) (toL1 : Bool) (type : MemReqType) : InsertRepl :=
  if cfg.prefInsertLru then .lru
  else if cfg.prefInsertMiddle then .mid
  else if cfg.prefInsertLowqtr then .lowqtr
  else if toL1 && cfg.prefInsertDynacc && type = .dprf then env.dynacc
  else .default

/-- `cache_insert_replpos` for a prefetch, `cache_insert` for others. -/
def Cache.insertFor (geo : Geometry) (c : Cache LineData) (simTime : ℕ) (req : MemReq) (pos : InsertRepl) :
    ℕ × Cache LineData :=
  if req.type.isPrefetch then c.insertReplpos geo simTime req.procId req.addr pos true
  else c.insert geo simTime req.procId req.addr

/-- The metadata of the line that a request fills. -/
def MemReq.lineData (req : MemReq) (fillState : MemReqState) : LineData where
  procId := req.procId
  dirty := req.type = .wb && req.state != fillState
  prefetch := req.type.isPrefetch || req.demandMatchPrefetch
  seenPrefetch := req.demandMatchPrefetch
  prefLoadPC := req.prefLoadPC
  globalHist := req.globalHist
  prefetcherId := req.prefetcherId

/-- `l1_fill_line` from the insertion on. -/
def State.insertL1Line (cfg : Config) (env : Env) (s : State) (id : ℕ) : Except String State :=
  let req := s.reqBuffer id
  let out := (s.l1 (cfg.l1Of req.procId)).insertFor cfg.l1 s.simTime req (cfg.prefReplpos env true req.type)
  if (req.type = .dfetch ∨ req.type = .dstore) ∧ req.l1MissCycle = none then .error "req->l1_miss_cycle != MAX_CTR"
  else
    .ok ((s.setL1 (cfg.l1Of req.procId) (out.2.setData (cfg.l1.set req.addr) out.1 (req.lineData .fillL1))).setReq id
      { req with l1MissCycle := none })

/-- `l1_fill_line`: the line to replace is written back before it is replaced. -/
def State.l1FillLine (cfg : Config) (env : Env) (s : State) (id : ℕ) : Except String (Bool × State) :=
  let req := s.reqBuffer id
  let c := s.l1 (cfg.l1Of req.procId)
  let repl := c.entries (cfg.l1.set req.addr) (c.findReplEntry cfg.l1 (cfg.l1.set req.addr))
  if repl.valid && !cfg.l1WriteThrough && !cfg.l1IgnoreWb && repl.data.dirty then do
    let (taken, s) ← s.newMemL1WbReq cfg env repl.data.procId repl.base
    if taken then return (true, ← s.insertL1Line cfg env id) else return (false, s)
  else do return (true, ← s.insertL1Line cfg env id)

/-- `mlc_fill_line` after the writeback: the metadata go to the entry that is to be replaced. -/
def State.setMlcLine (cfg : Config) (s : State) (id way : ℕ) : Except String State :=
  let req := s.reqBuffer id
  if req.mlcMissCycle = none then .error "req->mlc_miss_cycle != MAX_CTR"
  else if req.mlcMiss = false then .error "req->mlc_miss"
  else
    .ok ({ s with mlc := s.mlc.setData (cfg.mlc.set req.addr) way (req.lineData .fillMlc) }.setReq id
      { req with mlcMissCycle := none })

/-- `mlc_fill_line`: the line is inserted before the search for the line to replace. -/
def State.mlcFillLine (cfg : Config) (env : Env) (s : State) (id : ℕ) : Except String (Bool × State) :=
  let req := s.reqBuffer id
  let s := { s with mlc := (s.mlc.insertFor cfg.mlc s.simTime req (cfg.prefReplpos env false req.type)).2 }
  let way := s.mlc.findReplEntry cfg.mlc (cfg.mlc.set req.addr)
  let repl := s.mlc.entries (cfg.mlc.set req.addr) way
  if repl.valid && !cfg.mlcWriteThrough && repl.data.dirty then do
    let (taken, s) ← s.newMemMlcWbReq cfg repl.data.procId repl.base
    if taken then return (true, ← s.setMlcLine cfg id way) else return (false, s)
  else do return (true, ← s.setMlcLine cfg id way)

/-- `done_func` returns `TRUE`. -/
def State.deliver (s : State) (id : ℕ) : State := s.setReq id { s.reqBuffer id with delivered := true }

/-- `done_func`: `icache_fill_line`, or `dcache_fill_line`, which needs a port and writes a dirty
line back. -/
def State.doneFunc (cfg : Config) (env : Env) (s : State) (id : ℕ) : Except String (Bool × State) :=
  match (s.reqBuffer id).doneFunc with
  | none => .error "req->done_func"
  | some .icacheFillLine => .ok (true, s.deliver id)
  | some .dcacheFillLine =>
      if env.dcachePort = false then .ok (false, s)
      else match env.victim with
      | none => .ok (true, s.deliver id)
      | some addr => do
          let (taken, s) ← s.newMemDcWbReq cfg (getProcIdFromCmpAddr addr) addr
          return (taken, if taken then s.deliver id else s)

end Scarab.Memory
