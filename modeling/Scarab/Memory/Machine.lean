import Scarab.Memory.Process

/-! # The memory system as a machine

`update_memory` and the calls of `new_mem_req` between its functions, in any order. A loop over a
queue is one step for each entry, so that the environment answers each entry anew. -/

namespace Scarab.Memory

/-- A step of the memory system. -/
inductive Event where
  | tickL1
  | tickCore (procId : ℕ)
  | tickSim
  | newMemReq (args : ReqArgs)
  | updateMemoryQueues
  /-- A response of Ramulator. -/
  | enqueueResponse (physAddr : Addr)
  | tryCompletingRequest
  /-- The loop over a queue begins, goes on with its next entry, and ends. -/
  | begin (k : QueueId)
  | entry (env : Env)
  | finish

/-- Callers give an op only with a `done_func` and a writeback neither, and no prefetcher asks for a
line in `DEST_MEM`. -/
def ReqArgs.legal (args : ReqArgs) : Bool :=
  (if args.type.isWb then args.op.isNone && args.doneFunc.isNone else args.op.isNone || args.doneFunc.isSome) &&
    args.prefInfo.map PrefReqInfo.dest != some .mem

/-- `update_memory_queues`. -/
def State.updateMemoryQueues (cfg : Config) (s : State) : State :=
  let s :=
    if !cfg.allFifoQueues && decide (0 < s.cycleL1qInsertCount) then
      { s.sortQueue .l1 with cycleL1qInsertCount := 0 }
    else s
  if !cfg.allFifoQueues && decide (0 < s.cycleMlcqInsertCount) then
    { s.sortQueue .mlc with cycleMlcqInsertCount := 0 }
  else s

/-- `enqueue_response`. -/
def State.enqueueResponse (s : State) (physAddr : Addr) : Except String State :=
  match s.inflightReadReqs.find? fun reqs => reqs.1 == physAddr with
  | none => .error "inflight_read_reqs.find(req.addr) != inflight_read_reqs.end()"
  | some reqs =>
      .ok { s with
        respQueue := s.respQueue ++ reqs.2.map fun id => (physAddr, id)
        inflightReadReqs := s.inflightReadReqs.eraseP fun reqs => reqs.1 == physAddr }

/-- The end of `ramulator_tick`, with `try_completing_request`. -/
def State.tryCompletingRequest (cfg : Config) (s : State) : Except String State :=
  match s.respQueue with
  | [] => .ok s
  | resp :: resps =>
      if (s.queue .l1fill).length < cfg.memL1FillQueueEntries then do
        let s ← s.memCompleteBusInAccess cfg resp.2 .zero
        return { s with respQueue := resps }
      else .ok s

/-- The step for the next entry of the loop. -/
def State.nextEntry (cfg : Config) (s : State) (env : Env) : Except String State :=
  match s.pass with
  | none => .error "no loop"
  | some pass =>
      match (s.queue pass.queue)[pass.ii]? with
      | none => .error "ii < entry_count"
      | some entry => do
          let s ← s.memProcessEntry cfg env pass.queue entry.reqbuf pass.ii
          return s.count fun pass => { pass with ii := pass.ii + 1 }

/-- What follows a loop that has seen all entries. -/
def State.endPass (cfg : Config) (s : State) : Except String State :=
  match s.pass with
  | none => .error "no loop"
  | some pass =>
      if pass.ii < (s.queue pass.queue).length then .error "ii < entry_count"
      else return { ← s.finishPass cfg pass with pass := none }

/-- What happens between the loops. -/
def State.between (cfg : Config) (s : State) : Event → Except String State
  | .tickL1 => .ok { s with l1CycleCount := s.l1CycleCount + 1 }
  | .tickCore procId =>
      .ok { s with coreCycleCount := fun procId' =>
        if procId' = procId then s.coreCycleCount procId + 1 else s.coreCycleCount procId' }
  | .tickSim => .ok { s with simTime := s.simTime + 1 }
  | .newMemReq args => if args.legal then Prod.snd <$> s.newMemReq cfg args else .error "no caller"
  | .updateMemoryQueues => .ok (s.updateMemoryQueues cfg)
  | .enqueueResponse physAddr => s.enqueueResponse physAddr
  | .tryCompletingRequest => s.tryCompletingRequest cfg
  | .begin k =>
      .ok { s with pass := some {
        queue := k
        ii := 0
        removalCount := 0
        insertionCount := 0
        reserveEntryCount := 0
        inserted := []
        completed := [] } }
  | .entry _ | .finish => .error "no loop"

/-- A step of the machine. -/
def State.step (cfg : Config) (s : State) : Event → Except String State
  | .entry env => s.nextEntry cfg env
  | .finish => s.endPass cfg
  | event => if s.pass.isNone then s.between cfg event else .error "within a loop"

/-- A run of the machine. -/
abbrev run (cfg : Config) : State → List Event → Except String State := Execution.run (State.step cfg)

/-! ## The initial state -/

/-- A request buffer or a cache entry that was never used. -/
def MemReq.fresh : MemReq where
  procId := 0
  state := .inv
  type := .ifetch
  queue := none
  priority := .zero
  addr := 0
  physAddr := 0
  rdyCycle := 0
  reservedEntryCount := 0
  opPtrs := []
  doneFunc := none
  mlcMiss := false
  mlcMissCycle := none
  l1Miss := false
  l1MissCycle := none
  demandMatchPrefetch := false
  wbRequestedBack := false
  destination := .none
  loadPC := 0
  prefetcherId := 0
  prefLoadPC := 0
  globalHist := 0
  serial := 0
  delivered := false

/-- `init_cache`. -/
def Cache.fresh (rands : ℕ → ℕ) : Cache LineData where
  entries _ _ :=
    { procId := 0
      valid := false
      tag := 0
      base := 0
      lastAccessTime := 0
      pref := false
      data := ⟨0, false, false, false, 0, 0, 0⟩ }
  replCtrs _ := 0
  rands

/-- `init_memory`. -/
def State.fresh (cfg : Config) (rands : ℕ → ℕ) : State where
  reqBuffer _ := .fresh
  reqBufferFreeList := List.range cfg.totalMemReqBuffers
  numReqBuffersPerCore _ := 0
  reqCount := 0
  queue _ := []
  reserved _ := 0
  inflightReadReqs := []
  respQueue := []
  l1 _ := .fresh rands
  mlc := .fresh rands
  l1CycleCount := 0
  coreCycleCount _ := 0
  simTime := 0
  l1SeqNum := 1
  mlcSeqNum := 1
  l1fillSeqNum := 1
  mlcFillSeqNum := 1
  coreFillSeqNum _ := 1
  cycleL1qInsertCount := 0
  cycleMlcqInsertCount := 0
  pass := none
  serials := 0
  calls := []
  accepted := []
  freed := []
  mlcWritebacks := []
  l1Writebacks := []

/-- A small system with one core and an L1 with one set of two ways. -/
def Config.small : Config where
  numCores := 1
  memReqBufferEntries := 8
  privateMshrOn := false
  memReqBufferPrefWatermark := 0
  memReqBufferWbValve := 0
  queueMlcSize := 0
  queueL1Size := 0
  queueCoreFillSize := 0
  memL1FillQueueEntries := 8
  memPriority _ := 0
  prioritizePrefetchesWithUnique := false
  promoteToHigherPriorityMemReqType := false
  allFifoQueues := false
  orderBeyondBus := false
  mlcPresent := false
  hierMshrOn := false
  constantMemoryLatency := false
  memoryCycles := 0
  stallMemReqsOnly := false
  storesDoNotBlockWindow := false
  allowTypeMatches := false
  l1WriteThrough := false
  mlcWriteThrough := false
  l1IgnoreWb := false
  perfectL1 := false
  perfectMlc := false
  forceL1Miss := false
  privateL1 := false
  l1 := ⟨2, 0, 6, .trueLru⟩
  mlc := ⟨2, 0, 6, .trueLru⟩
  l1Cycles := 0
  mlcCycles := 0
  mlcqToL1qTransferLatency := 0
  l1qToFsbTransferLatency := 0
  prefOracleTrainOn := false
  prefITogether := false
  prefTrainOnPrefMisses := false
  prefetchUpdateLruL1 := false
  prefetchUpdateLruMlc := false
  prefInsertLru := false
  prefInsertMiddle := false
  prefInsertLowqtr := false
  prefInsertDynacc := false
  addrTranslate := id

/-- The states that a run can reach. -/
def Reachable (cfg : Config) (s : State) : Prop := ∃ rands events, run cfg (.fresh cfg rands) events = .ok s

end Scarab.Memory
