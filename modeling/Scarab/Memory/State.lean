import Mathlib.Data.Fin.Basic
import Mathlib.Data.Int.Notation
import Scarab.Lib.Execution
import Scarab.Memory.Cache

/-! # The data of the memory system

`memory/mem_req.h`, `memory/memory.h` and the maps of `ramulator.cc`. The bus-out queue is left
out: with Ramulator nothing is ever put into it. -/

namespace Scarab.Memory

/-! ## Requests -/

/-- `Mem_Req_State`, without the states of the DRAM model that Ramulator replaced. -/
inductive MemReqState where
  | inv
  | mlcNew
  | mlcWait
  | mlcHitDone
  | l1New
  | l1Wait
  | l1HitDone
  | busNew
  | memNew
  | fillL1
  | fillMlc
  | fillDone
  deriving DecidableEq, Repr

/-- `is_final_state`. -/
def MemReqState.isFinal : MemReqState → Bool
  | .mlcHitDone | .l1HitDone | .fillDone => true
  | _ => false

/-- `Mem_Req_Type`. -/
inductive MemReqType where
  | ifetch
  | dfetch
  | dstore
  | iprf
  | dprf
  | wb
  | wbNodirty
  deriving DecidableEq, Repr

/-- `mem_req_type_is_prefetch`. -/
def MemReqType.isPrefetch : MemReqType → Bool
  | .iprf | .dprf => true
  | _ => false

/-- `mem_req_type_is_demand`. -/
def MemReqType.isDemand : MemReqType → Bool
  | .ifetch | .dfetch | .dstore => true
  | _ => false

def MemReqType.isWb : MemReqType → Bool
  | .wb | .wbNodirty => true
  | _ => false

/-- The types of `ramulator_search_queue` for instructions. -/
def MemReqType.isInst : MemReqType → Bool
  | .ifetch | .iprf => true
  | _ => false

/-- Its types for data. -/
def MemReqType.isData : MemReqType → Bool
  | .dfetch | .dprf | .dstore => true
  | _ => false

/-- `Destination`. -/
inductive Destination where
  | none
  | dcache
  | icache
  | mlc
  | l1
  | mem
  deriving DecidableEq, Repr

def Destination.toNat : Destination → ℕ
  | .none => 0
  | .dcache => 1
  | .icache => 2
  | .mlc => 4
  | .l1 => 8
  | .mem => 16

/-- `MIN2`. -/
def Destination.min2 (a b : Destination) : Destination := if a.toNat < b.toNat then a else b

/-- The functions that are passed as `done_func`. -/
inductive DoneFunc where
  | dcacheFillLine
  | icacheFillLine
  deriving DecidableEq, Repr

/-- The priority of a request, a `Counter` with the priority of its type in the upper four bits and
a cycle or a sequence number below them. The least number is the highest priority. -/
structure Priority where
  type : ℕ
  count : ℕ
  deriving DecidableEq, Repr

def Priority.zero : Priority := ⟨0, 0⟩

/-- `Mem_Req_Priority_Offset[MRT_MIN_PRIORITY]`, which is left for the entries to remove. -/
def Priority.min : Priority := ⟨15, 0⟩

def Priority.lt (a b : Priority) : Bool := a.type < b.type || a.type == b.type && a.count < b.count

/-- What `mem_compare_priority` puts first. -/
def Priority.le (a b : Priority) : Bool := !b.lt a

/-- A queue of the memory system. -/
inductive QueueId where
  | mlc
  | mlcFill
  | l1
  | l1fill
  | coreFill (procId : ℕ)
  deriving DecidableEq, Repr

/-- `Mem_Queue_Entry`. -/
structure QueueEntry where
  reqbuf : ℕ
  priority : Priority
  deriving DecidableEq, Repr

/-- An op, by its `unique_num`, which is never used again. -/
abbrev OpPtr := ℕ

/-- `Mem_Req`. The last fields are its history, which no operation reads. -/
structure MemReq where
  procId : ℕ
  state : MemReqState
  type : MemReqType
  queue : Option QueueId
  priority : Priority
  addr : Addr
  physAddr : Addr
  rdyCycle : ℕ
  reservedEntryCount : ℤ
  opPtrs : List OpPtr
  doneFunc : Option DoneFunc
  mlcMiss : Bool
  /-- `none` is `MAX_CTR`. -/
  mlcMissCycle : Option ℕ
  l1Miss : Bool
  l1MissCycle : Option ℕ
  demandMatchPrefetch : Bool
  wbRequestedBack : Bool
  destination : Destination
  loadPC : Addr
  prefetcherId : ℕ
  prefLoadPC : Addr
  globalHist : ℕ
  /-- How many requests were made before. -/
  serial : ℕ
  /-- `done_func` returned `TRUE` with these ops on the list. -/
  delivered : Bool
  deriving DecidableEq, Repr

/-- `L1_Data` and `MLC_Data`. -/
structure LineData where
  procId : ℕ
  dirty : Bool
  prefetch : Bool
  seenPrefetch : Bool
  prefLoadPC : Addr
  globalHist : ℕ
  prefetcherId : ℕ
  deriving DecidableEq, Repr

/-! ## The configuration -/

/-- The knobs that the memory system reads. `KICKOUT_PREFETCHES` is not supported by the code;
`ROUND_ROBIN_TO_L1`, `L1_PREF_CACHE_ENABLE`, `L1_DYNAMIC_PARTITION_ENABLE`, `L1_USE_CORE_FREQ` and
the prefetchers beside the framework are off. -/
structure Config where
  numCores : ℕ
  memReqBufferEntries : ℕ
  privateMshrOn : Bool
  memReqBufferPrefWatermark : ℕ
  memReqBufferWbValve : ℕ
  /-- 0 is the number of request buffers. -/
  queueMlcSize : ℕ
  queueL1Size : ℕ
  queueCoreFillSize : ℕ
  memL1FillQueueEntries : ℕ
  /-- At most `least_priority`. -/
  memPriority : MemReqType → Fin 15
  prioritizePrefetchesWithUnique : Bool
  promoteToHigherPriorityMemReqType : Bool
  allFifoQueues : Bool
  orderBeyondBus : Bool
  mlcPresent : Bool
  hierMshrOn : Bool
  constantMemoryLatency : Bool
  memoryCycles : ℕ
  stallMemReqsOnly : Bool
  storesDoNotBlockWindow : Bool
  allowTypeMatches : Bool
  l1WriteThrough : Bool
  mlcWriteThrough : Bool
  l1IgnoreWb : Bool
  perfectL1 : Bool
  perfectMlc : Bool
  forceL1Miss : Bool
  privateL1 : Bool
  l1 : Geometry
  mlc : Geometry
  l1Cycles : ℕ
  mlcCycles : ℕ
  mlcqToL1qTransferLatency : ℕ
  l1qToFsbTransferLatency : ℕ
  prefOracleTrainOn : Bool
  prefITogether : Bool
  prefTrainOnPrefMisses : Bool
  prefetchUpdateLruL1 : Bool
  prefetchUpdateLruMlc : Bool
  prefInsertLru : Bool
  prefInsertMiddle : Bool
  prefInsertLowqtr : Bool
  prefInsertDynacc : Bool
  /-- `addr_translate`. -/
  addrTranslate : Addr → Addr

/-- `total_mem_req_buffers`. -/
def Config.totalMemReqBuffers (cfg : Config) : ℕ :=
  cfg.memReqBufferEntries * if cfg.privateMshrOn then cfg.numCores else 1

/-- The size that `init_memory` gives a queue. -/
def Config.size (cfg : Config) : QueueId → ℕ
  | .mlc => if cfg.queueMlcSize = 0 then cfg.totalMemReqBuffers else cfg.queueMlcSize
  | .l1 => if cfg.queueL1Size = 0 then cfg.totalMemReqBuffers else cfg.queueL1Size
  | .coreFill _ => if cfg.queueCoreFillSize = 0 then cfg.totalMemReqBuffers else cfg.queueCoreFillSize
  | .mlcFill | .l1fill => cfg.totalMemReqBuffers

/-- The cache that `L1` gives to a core. -/
def Config.l1Of (cfg : Config) (procId : ℕ) : ℕ := if cfg.privateL1 then procId else 0

/-- `mem_req_type_is_stalling`. -/
def Config.isStalling (cfg : Config) (type : MemReqType) : Bool :=
  type = .ifetch || type = .dfetch || !cfg.storesDoNotBlockWindow && type = .dstore

/-- What the prefetchers are trained on. -/
def Config.trains (cfg : Config) (type : MemReqType) : Bool :=
  type = .dfetch || type = .dstore || cfg.prefITogether && type = .ifetch ||
    cfg.prefTrainOnPrefMisses && type = .dprf

/-- `get_proc_id_from_cmp_addr`. -/
def getProcIdFromCmpAddr (addr : Addr) : ℕ := (addr >>> 58).toNat

/-! ## The state -/

/-- A call of the prefetchers. -/
inductive PrefCall where
  | umlcHit (procId : ℕ) (addr loadPC : Addr) (globalHist : ℕ)
  | umlcMiss (procId : ℕ) (addr loadPC : Addr) (globalHist : ℕ)
  | ul1Hit (procId : ℕ) (addr loadPC : Addr) (globalHist : ℕ)
  | ul1Miss (procId : ℕ) (addr loadPC : Addr) (globalHist : ℕ)
  | ul1PrefHit (procId : ℕ) (addr loadPC : Addr) (globalHist prefetcherId : ℕ)
  | ul1PrefHitLate (procId : ℕ) (addr loadPC : Addr) (globalHist prefetcherId : ℕ)
  | ul1sent (procId : ℕ) (addr : Addr) (prefetcherId : ℕ)
  deriving DecidableEq, Repr

/-- The loop over a queue in one of the `mem_process_` functions. -/
structure Pass where
  queue : QueueId
  ii : ℕ
  /-- The removals that are counted and not carried out yet. -/
  removalCount : ℕ
  insertionCount : ℕ
  reserveEntryCount : ℕ
  /-- The requests that went into the queue and those that completed since the loop began. No
  operation reads them. -/
  inserted : List ℕ
  completed : List ℕ
  deriving DecidableEq, Repr

/-- `Memory`, with the maps of Ramulator. The last fields are its history, which no operation
reads. -/
structure State where
  reqBuffer : ℕ → MemReq
  reqBufferFreeList : List ℕ
  numReqBuffersPerCore : ℕ → ℕ
  reqCount : ℕ
  queue : QueueId → List QueueEntry
  /-- `reserved_entry_count` of the queues. -/
  reserved : QueueId → ℤ
  inflightReadReqs : List (Addr × List ℕ)
  respQueue : List (Addr × ℕ)
  l1 : ℕ → Cache LineData
  mlc : Cache LineData
  l1CycleCount : ℕ
  coreCycleCount : ℕ → ℕ
  simTime : ℕ
  l1SeqNum : ℕ
  mlcSeqNum : ℕ
  l1fillSeqNum : ℕ
  mlcFillSeqNum : ℕ
  coreFillSeqNum : ℕ → ℕ
  cycleL1qInsertCount : ℕ
  cycleMlcqInsertCount : ℕ
  /-- `none` between the functions. -/
  pass : Option Pass
  serials : ℕ
  /-- The calls of the prefetchers, each with the serial number of its request. -/
  calls : List (ℕ × PrefCall)
  /-- The ops that `new_mem_req` took. -/
  accepted : List OpPtr
  /-- The op lists of the requests that were freed, and whether they had been delivered. -/
  freed : List (List OpPtr × Bool)
  /-- The lines that the MLC and the L1 wrote back. -/
  mlcWritebacks : List Addr
  l1Writebacks : List Addr

/-- What the environment answers while a queue entry is processed. -/
structure Env where
  /-- A port of the cache bank is free. -/
  port : Bool
  /-- Ramulator takes the request that is sent to it. -/
  sent : Bool
  /-- A write port of the dcache is free. -/
  dcachePort : Bool
  /-- The dirty line that `dcache_fill_line` replaces. -/
  victim : Option Addr
  /-- Where `PREF_INSERT_DYNACC` puts a prefetched line. -/
  dynacc : InsertRepl

/-! ## Basic operations -/

def State.setReq (s : State) (id : ℕ) (req : MemReq) : State :=
  { s with reqBuffer := fun id' => if id' = id then req else s.reqBuffer id' }

def State.setQueue (s : State) (k : QueueId) (entries : List QueueEntry) : State :=
  { s with queue := fun k' => if k' = k then entries else s.queue k' }

def State.setReserved (s : State) (k : QueueId) (n : ℤ) : State :=
  { s with reserved := fun k' => if k' = k then n else s.reserved k' }

def State.setL1 (s : State) (procId : ℕ) (c : Cache LineData) : State :=
  { s with l1 := fun procId' => if procId' = procId then c else s.l1 procId' }

/-- A call of the prefetchers for a request. -/
def State.call (s : State) (id : ℕ) (call : PrefCall) : State :=
  { s with calls := s.calls ++ [((s.reqBuffer id).serial, call)] }

/-- The priority that has an entry removed. -/
def State.markEntry (s : State) (k : QueueId) (ii : ℕ) : State :=
  s.setQueue k ((s.queue k).modify ii fun entry => { entry with priority := .min })

/-- `qsort` of a queue with `mem_compare_priority`. -/
def sortEntries (entries : List QueueEntry) : List QueueEntry := entries.mergeSort fun a b => a.priority.le b.priority

def State.sortQueue (s : State) (k : QueueId) : State := s.setQueue k (sortEntries (s.queue k))

/-- The entries to remove are sorted to the end and cut off. -/
def State.cutQueue (s : State) (k : QueueId) (removalCount : ℕ) : State :=
  s.setQueue k ((sortEntries (s.queue k)).take ((s.queue k).length - removalCount))

/-- `queue_full`. -/
def State.queueFull (cfg : Config) (s : State) (k : QueueId) : Except String Bool :=
  if ((s.queue k).length : ℤ) = cfg.size k - s.reserved k then .ok true
  else if ((s.queue k).length : ℤ) < cfg.size k - s.reserved k then .ok false
  else .error "queue->entry_count < (queue->size - queue->reserved_entry_count)"

/-- `queue_num_free`. -/
def State.queueNumFree (cfg : Config) (s : State) (k : QueueId) : ℤ :=
  cfg.size k - s.reserved k - (s.queue k).length

/-- A new entry at the end of a queue. -/
def State.insertEntry (s : State) (k : QueueId) (id : ℕ) (priority : Priority) : State :=
  { s.setQueue k (s.queue k ++ [⟨id, priority⟩]) with
    pass := s.pass.map fun pass => if pass.queue = k then { pass with inserted := pass.inserted ++ [id] } else pass }

/-- `mem_insert_req_into_queue`; a priority of 0 stands for that of the request. -/
def State.memInsertReqIntoQueue (cfg : Config) (s : State) (id : ℕ) (k : QueueId) (priority : Priority) :
    Except String State :=
  if ((s.queue k).length : ℤ) < cfg.size k - s.reserved k then
    .ok (s.insertEntry k id (if Priority.zero.lt priority then priority else (s.reqBuffer id).priority))
  else .error "queue->entry_count < (queue->size - queue->reserved_entry_count)"

/-- A request goes back to the free list. -/
def State.freeReq (s : State) (id : ℕ) : State :=
  let req := s.reqBuffer id
  { s.setReq id { req with state := .inv, opPtrs := [] } with
    numReqBuffersPerCore := fun procId =>
      if procId = req.procId then s.numReqBuffersPerCore procId - 1 else s.numReqBuffersPerCore procId
    reqCount := s.reqCount - 1
    reqBufferFreeList := s.reqBufferFreeList ++ [id]
    freed := s.freed ++ [(req.opPtrs, req.delivered)] }

/-- `mem_free_reqbuf`. -/
def State.memFreeReqbuf (s : State) (id : ℕ) : Except String State :=
  if s.numReqBuffersPerCore (s.reqBuffer id).procId = 0 then .error "mem->num_req_buffers_per_core[req->proc_id] > 0"
  else if (s.reqBuffer id).reservedEntryCount ≠ 0 then .error "req->reserved_entry_count == 0"
  else if s.reqCount = 0 then .error "mem->req_count >= 0"
  else .ok (s.freeReq id)

/-- `mem_can_allocate_req_buffer`. -/
def State.memCanAllocateReqBuffer (cfg : Config) (s : State) (procId : ℕ) (type : MemReqType)
    (forL1Writeback : Bool) : Bool :=
  let used := s.numReqBuffersPerCore procId
  let free := s.reqBufferFreeList.length
  if type.isPrefetch && (if cfg.privateMshrOn then
      decide (cfg.memReqBufferEntries ≤ used + cfg.memReqBufferPrefWatermark)
    else decide (free ≤ cfg.memReqBufferPrefWatermark)) then false
  else if !type.isWb && (if cfg.privateMshrOn then
      decide (cfg.memReqBufferEntries ≤ used + cfg.memReqBufferWbValve)
    else decide (free ≤ cfg.memReqBufferWbValve)) then false
  else if !forL1Writeback && (if cfg.privateMshrOn then decide (cfg.memReqBufferEntries ≤ used + 1)
    else decide (free ≤ 1)) then false
  else if cfg.privateMshrOn && decide (used = cfg.memReqBufferEntries) then false
  else !decide (s.reqCount = cfg.totalMemReqBuffers)

/-- The free list loses its first buffer to a core. -/
def State.takeReq (s : State) (free : List ℕ) (procId : ℕ) : State :=
  { s with
    reqBufferFreeList := free
    numReqBuffersPerCore := fun procId' =>
      if procId' = procId then s.numReqBuffersPerCore procId' + 1 else s.numReqBuffersPerCore procId' }

/-- `mem_allocate_req_buffer`; a core beyond `NUM_CORES` has no counter. -/
def State.memAllocateReqBuffer (cfg : Config) (s : State) (procId : ℕ) (type : MemReqType)
    (forL1Writeback : Bool) : Except String (Option ℕ × State) :=
  if cfg.numCores ≤ procId then .error "mem->num_req_buffers_per_core[proc_id]"
  else if s.memCanAllocateReqBuffer cfg procId type forL1Writeback then
    match s.reqBufferFreeList with
    | [] => .error "reqbuf_num_ptr"
    | id :: free =>
        if (s.reqBuffer id).state ≠ .inv then .error "mem->req_buffer[*reqbuf_num_ptr].state == MRS_INV"
        else .ok (some id, s.takeReq free procId)
  else .ok (none, s)

end Scarab.Memory
