import Scarab.Memory.Lines
import Scarab.Memory.Matching

/-! # What a step can do

Between the functions of the memory system and its invariants stand local rules: the quiet moves,
which any function may make, and the progress of the request that a loop is at. The rules do not
call the functions. -/

namespace Scarab.Memory

variable {cfg : Config}

/-! ## Quiet moves -/

/-- What joining a request leaves and changes, for the ops that come to it. In a loop only writebacks
join. -/
structure MemReq.Adjusts (cfg : Config) (loop : Prop) (req : MemReq) (ops : List OpPtr) (req' : MemReq) : Prop where
  state : req'.state = req.state
  queue : req'.queue = req.queue
  addr : req'.addr = req.addr
  procId : req'.procId = req.procId
  serial : req'.serial = req.serial
  opPtrs : req'.opPtrs = req.opPtrs ++ ops
  delivered : req'.delivered = (req.delivered && ops.isEmpty)
  doneFunc : req.doneFunc.isSome = true → req'.doneFunc.isSome = true
  ops : ops ≠ [] → req'.doneFunc.isSome = true ∧ req.type.isWb = false
  isWb : req'.type.isWb = true → req.type.isWb = true
  writeback : cfg.allowTypeMatches = false ∨ cfg.hierMshrOn = true ∨ loop → req'.type.isWb = req.type.isWb ∧
    (req.type.isWb = true → req'.type = req.type ∧ req'.doneFunc = req.doneFunc ∧
      req'.wbRequestedBack = req.wbRequestedBack)
  priority : req'.priority = req.priority ∨ req'.priority.type < 15
  physAddr : req'.physAddr = req.physAddr
  isInst : cfg.allowTypeMatches = false ∨ cfg.hierMshrOn = true ∨ loop → req'.type.isInst = req.type.isInst

/-- A request that is joined, and the entries of the MLC queue that it reserves. -/
structure MemReq.Joins (cfg : Config) (loop : Prop) (req : MemReq) (ops : List OpPtr) (reserves : ℤ) (req' : MemReq) :
    Prop extends req.Adjusts cfg loop ops req' where
  notMem : req.destination ≠ .mem → req'.destination ≠ .mem
  reserved : req'.reservedEntryCount = req.reservedEntryCount + reserves
  destination : cfg.hierMshrOn = true → cfg.mlcPresent = true → req.type.isWb = false → req.destination ≠ .mem →
    (req'.destination = .l1 ↔ req.destination = .l1 ∧ reserves = 0)
  reserves : reserves ≠ 0 → reserves = 1 ∧ cfg.hierMshrOn = true ∧ cfg.mlcPresent = true ∧ req.type.isWb = false ∧
    req.destination = .l1

/-- A new request in the MLC or the L1 queue. -/
structure MemReq.Starts (cfg : Config) (s : State) (id : ℕ) (k : QueueId) (ops : List OpPtr) (req : MemReq) : Prop where
  place : k = .mlc ∧ req.state = .mlcNew ∨ k = .l1 ∧ req.state = .l1New
  queue : req.queue = some k
  serial : req.serial = s.serials
  procId : req.procId < cfg.numCores
  opPtrs : req.opPtrs = (s.reqBuffer id).opPtrs ++ ops
  delivered : req.delivered = false
  ops : ops ≠ [] → req.doneFunc.isSome = true ∧ req.type.isWb = false
  writeback : req.type.isWb = true → req.doneFunc = none
  requestedBack : req.wbRequestedBack = false
  priority : req.priority.type < 15
  notMem : req.destination ≠ .mem
  reserved : req.reservedEntryCount = 0
  destination : cfg.mlcPresent = true → req.type.isWb = false → (k = .l1 ↔ req.destination = .l1)
  physAddr : req.physAddr = cfg.addrTranslate req.addr

/-- The queues that `new_mem_req` searches, and Ramulator. -/
def searchedByNewReq : List (Option QueueId) := [some .mlcFill, some .l1fill, none, some .l1, some .mlc]

/-- A call of the prefetchers that is neither for a miss in the L1 nor for a prefetch that is sent. -/
def PrefCall.isQuiet : PrefCall → Bool
  | .ul1Miss .. | .ul1sent .. => false
  | _ => true

/-- What follows an access to a queue in the middle of a loop. -/
def State.Reranks (s : State) (overtakes : Prop) (k : QueueId) (id : ℕ) : Prop :=
  s.pass = none ∨ (s.reqBuffer id).type = .wb ∧
    (k = .l1fill ∨ k = .l1 ∧ ((∀ pass, s.pass = some pass → pass.queue ≠ .l1) ∨ overtakes))

/-- The quiet moves. `overtakes` is whether a writeback that a loop over the L1 queue makes may sort
that queue. -/
inductive Quiet (cfg : Config) (overtakes : Prop) : State → State → Prop where
  /-- Sequence numbers and the MLC. -/
  | idle (s : State) (l1SeqNum mlcSeqNum l1fillSeqNum mlcFillSeqNum : ℕ) (coreFillSeqNum : ℕ → ℕ)
      (cycleL1qInsertCount cycleMlcqInsertCount : ℕ) (mlc : Cache LineData) (mlcWritebacks l1Writebacks : List Addr) :
      Quiet cfg overtakes s { s with
        l1SeqNum, mlcSeqNum, l1fillSeqNum, mlcFillSeqNum, coreFillSeqNum, cycleL1qInsertCount
        cycleMlcqInsertCount, mlc, mlcWritebacks, l1Writebacks }
  | lines (s : State) (procId : ℕ) (c : Cache LineData) (h : c.SameLines (s.l1 procId)) :
      Quiet cfg overtakes s (s.setL1 procId c)
  /-- What only delays a request or is noted of it. -/
  | note (s : State) (id rdyCycle : ℕ) (mlcMiss : Bool) (mlcMissCycle : Option ℕ) (l1Miss : Bool)
      (l1MissCycle : Option ℕ) :
      Quiet cfg overtakes s (s.setReq id { s.reqBuffer id with rdyCycle, mlcMiss, mlcMissCycle, l1Miss, l1MissCycle })
  /-- A port of a cache. -/
  | start (s : State) (id : ℕ) (state : MemReqState) (rdyCycle : ℕ)
      (h : (s.reqBuffer id).state = .mlcNew ∧ state = .mlcWait ∨ (s.reqBuffer id).state = .l1New ∧ state = .l1Wait) :
      Quiet cfg overtakes s (s.setReq id { s.reqBuffer id with state, rdyCycle })
  | deliver (s : State) (id : ℕ) : Quiet cfg overtakes s (s.deliver id)
  | call (s : State) (id : ℕ) (call : PrefCall) (h : call.isQuiet = true) : Quiet cfg overtakes s (s.call id call)
  | join (s : State) (id : ℕ) (ops : List OpPtr) (req : MemReq)
      (hlive : (s.reqBuffer id).state ≠ .inv ∨ id ∈ s.ramulatorIds) (hops : s.pass = none ∨ ops = [])
      (h : (s.reqBuffer id).Joins cfg (s.pass ≠ none) ops 0 req) :
      Quiet cfg overtakes s { s.setReq id req with accepted := s.accepted ++ ops }
  | reserve (s : State) (id : ℕ) (ops : List OpPtr) (req : MemReq) (hpass : s.pass = none)
      (hlive : (s.reqBuffer id).state ≠ .inv ∨ id ∈ s.ramulatorIds)
      (h : (s.reqBuffer id).Joins cfg (s.pass ≠ none) ops 1 req) :
      Quiet cfg overtakes s
        { (s.setReserved .mlc (s.reserved .mlc + 1)).setReq id req with accepted := s.accepted ++ ops }
  /-- An entry gets a higher priority, and the queue of its request is sorted. -/
  | rerank (s : State) (id : ℕ) (k sorted : QueueId) (ii : ℕ) (priority : Priority)
      (hentry : s.EntryAt k ii id) (hlive : (s.reqBuffer id).state ≠ .inv)
      (hqueue : (s.reqBuffer id).queue = some sorted) (hpriority : priority.type < 15)
      (hpass : s.Reranks overtakes k id) :
      Quiet cfg overtakes s
        ((s.setQueue k ((s.queue k).modify ii fun entry => { entry with priority })).sortQueue sorted)
  | fresh (s : State) (id : ℕ) (free : List ℕ) (k : QueueId) (ops : List OpPtr) (req : MemReq) (priority : Priority)
      (calls : List PrefCall) (hfree : s.reqBufferFreeList = id :: free) (hinv : (s.reqBuffer id).state = .inv)
      (hpass : s.pass = none ∨ req.type.isWb = true) (h : req.Starts cfg s id k ops) (hpriority : priority.type < 15)
      (hcalls : calls.all PrefCall.isQuiet = true ∨
        cfg.prefOracleTrainOn = true ∧ ∃ procId addr loadPC globalHist, calls = [.ul1Miss procId addr loadPC globalHist])
      (hnew : cfg.allowTypeMatches = true ∨ req.type.isWb = true ∨
        s.memSearchReqbuf cfg req.addr req.type searchedByNewReq = .ok none) :
      Quiet cfg overtakes s
        { ((s.takeReq free req.procId).setReq id req).insertEntry k id priority with
          reqCount := s.reqCount + 1
          serials := s.serials + 1
          calls := s.calls ++ calls.map fun call => (s.serials, call)
          accepted := s.accepted ++ ops }
  /-- A writeback that is sent or refused at once. -/
  | writtenBack (s : State) (id : ℕ) (free : List ℕ) (req : MemReq) (hfree : s.reqBufferFreeList = id :: free)
      (hinv : (s.reqBuffer id).state = .inv) (hstate : req.state = .inv) (hops : req.opPtrs = [])
      (hpriority : req.priority.type < 15) :
      Quiet cfg overtakes s { s.setReq id req with
        reqBufferFreeList := free ++ [id]
        serials := s.serials + 1
        freed := s.freed ++ [((s.reqBuffer id).opPtrs, false)] }

/-- A run of quiet moves. -/
abbrev QuietRun (cfg : Config) (overtakes : Prop) : State → State → Prop := Relation.ReflTransGen (Quiet cfg overtakes)

/-! ## Progress -/

/-- The loop over the L1 queue is at a request that is ready and misses. -/
structure State.AtMiss (cfg : Config) (s : State) (id : ℕ) : Prop where
  loop : ∃ pass, s.pass = some pass ∧ pass.queue = .l1 ∧ s.EntryAt .l1 pass.ii id
  state : (s.reqBuffer id).state = .l1Wait
  ready : (s.reqBuffer id).rdyCycle ≤ s.l1CycleCount
  missed : cfg.forceL1Miss = true ∨ (s.l1 (cfg.l1Of (s.reqBuffer id).procId)).Absent cfg.l1 (s.reqBuffer id).addr
  real : cfg.perfectL1 = false

/-- The miss is of a request that is to be sent. -/
structure State.AtSend (cfg : Config) (s : State) (id : ℕ) : Prop extends s.AtMiss cfg id where
  read : (s.reqBuffer id).type.isWb = false
  stalling : cfg.stallMemReqsOnly = true → cfg.isStalling (s.reqBuffer id).type = true

/-- Ramulator refuses the request. -/
structure State.Rejects (cfg : Config) (env : Env) (s : State) (id : ℕ) : Prop extends s.AtSend cfg id where
  ramulator : cfg.constantMemoryLatency = false
  full : env.sent = false
  alone : ∀ reqs ∈ s.inflightReadReqs, reqs.1 ≠ (s.reqBuffer id).physAddr

/-- A writeback that the loop over the L1 queue makes finds another one in that queue, at a lower
priority. -/
def State.Overtakes (cfg : Config) (env : Env) (s : State) : Prop :=
  cfg.allowTypeMatches = true ∧ ∃ pass victim found, s.pass = some pass ∧ pass.queue = .l1 ∧ env.victim = some victim ∧
    s.memSearchReqbuf cfg victim .wb [some .l1fill, some .l1] = .ok (some found) ∧
      (∃ ii, found.place = some (.l1, ii)) ∧ (s.newPriority cfg .wb).lt (s.oldPriority found) = true

/-- The loop over the MLC queue is at a writeback that was requested back, is to be written through and
misses. -/
structure State.AtRevival (cfg : Config) (s : State) (id : ℕ) : Prop where
  loop : ∃ pass, s.pass = some pass ∧ pass.queue = .mlc ∧ s.EntryAt .mlc pass.ii id
  state : (s.reqBuffer id).state = .mlcWait
  ready : (s.reqBuffer id).rdyCycle ≤ s.l1CycleCount
  writeback : (s.reqBuffer id).type = .wb
  through : cfg.mlcWriteThrough = true
  requestedBack : (s.reqBuffer id).doneFunc.isSome = true
  missed : s.mlc.lookup cfg.mlc (s.reqBuffer id).addr = none
  real : cfg.perfectMlc = false

/-- A read that Ramulator takes: it comes to the one that reads its address, or to the end. -/
inductive Registers (physAddr : Addr) (id : ℕ) : List (Addr × List ℕ) → List (Addr × List ℕ) → Prop where
  | joins (before after : List (Addr × List ℕ)) (ids : List ℕ) (hfirst : ∀ reqs ∈ before, reqs.1 ≠ physAddr)
      (hle : ids.length ≤ 1) :
      Registers physAddr id (before ++ (physAddr, ids) :: after) (before ++ (physAddr, ids ++ [id]) :: after)
  | opens (inflight : List (Addr × List ℕ)) (halone : ∀ reqs ∈ inflight, reqs.1 ≠ physAddr) :
      Registers physAddr id inflight (inflight ++ [(physAddr, [id])])

/-- A request goes on from a queue to a queue of fills. -/
inductive MemReq.GoesOn (cfg : Config) (req : MemReq) : QueueId → QueueId → MemReqState → ℤ → Prop where
  | l1Mlc (hstate : req.state = .l1Wait) (hmlc : cfg.mlcPresent = true) (hdest : req.destination ≠ .l1)
      (hread : req.type.isWb = false) : req.GoesOn cfg .l1 .mlcFill .fillMlc 0
  | l1Core (hstate : req.state = .l1Wait) (hdone : req.doneFunc.isSome = true)
      (hdest : cfg.mlcPresent = true → req.type.isWb = false → req.destination = .l1) :
      req.GoesOn cfg .l1 (.coreFill req.procId) .l1HitDone 0
  | fillMlc (hstate : req.state = .fillMlc) (hmlc : cfg.mlcPresent = true) (hwb : req.type ≠ .wb ∨ req.wbRequestedBack) :
      req.GoesOn cfg .l1fill .mlcFill .fillMlc (if cfg.hierMshrOn then 1 else 0)
  | fillCore (hstate : req.state = .fillDone) (hdone : req.doneFunc.isSome = true)
      (hwb : req.type ≠ .wb ∨ req.wbRequestedBack) : req.GoesOn cfg .l1fill (.coreFill req.procId) .fillDone 0

/-- A request of a queue is done, and gives a reserved entry back. -/
inductive MemReq.Ends (cfg : Config) (req : MemReq) : QueueId → ℤ → Prop where
  | l1 (hstate : req.state = .l1Wait)
      (hdone : req.doneFunc = none ∨ cfg.stallMemReqsOnly = true) : req.Ends cfg .l1 0
  | mlc (hstate : req.state = .mlcWait)
      (hdone : req.doneFunc = none ∨ req.delivered = true ∨ req.type.isWb = true) : req.Ends cfg .mlc 0
  | l1fill (hstate : req.state = .fillDone) (hdone : req.doneFunc = none) :
      req.Ends cfg .l1fill (if cfg.hierMshrOn then 1 else 0)
  | mlcFill (hstate : req.state = .fillDone) (hdone : req.doneFunc = none ∨ req.delivered = true) :
      req.Ends cfg .mlcFill (if cfg.hierMshrOn then 1 else 0)
  | core (hstate : req.state = .l1HitDone ∨ req.state = .fillDone) (hdone : req.delivered = true) :
      req.Ends cfg (.coreFill req.procId) 0

/-- What the loop over a queue does with the request of an entry, and whether it counts it as
removed. -/
inductive Progress (cfg : Config) (env : Env) (base : State) (k : QueueId) (id ii : ℕ) : State → Bool → State → Prop where
  | toFill (s : State) (next : QueueId) (state : MemReqState) (rdyCycle : ℕ) (back : ℤ) (priority : Priority)
      (h : (s.reqBuffer id).GoesOn cfg k next state back)
      (hpriority : priority.type < 15 ∨ priority = s.entryPriority k ii ∨ priority = (s.reqBuffer id).priority) :
      Progress cfg env base k id ii s true
        (((s.setReq id { s.reqBuffer id with
          state
          rdyCycle
          queue := some next
          reservedEntryCount := (s.reqBuffer id).reservedEntryCount - back }).insertEntry next id priority).markEntry
            k ii)
  | toL1 (s : State) (rdyCycle : ℕ) (reserves : ℕ) (priority : Priority) (hk : k = .mlc)
      (hstate : (s.reqBuffer id).state = .mlcWait) (hwb : cfg.mlcWriteThrough = true ∨ (s.reqBuffer id).type.isWb = false)
      (hreserves : reserves = if cfg.hierMshrOn = true ∧ (s.reqBuffer id).type.isWb = false then 1 else 0)
      (hpriority : priority.type < 15 ∨ priority = (s.reqBuffer id).priority) :
      Progress cfg env base k id ii s true
        ((((s.setReq id { s.reqBuffer id with
          state := .l1New
          rdyCycle
          queue := some .l1
          reservedEntryCount := (s.reqBuffer id).reservedEntryCount + reserves }).markEntry k ii).insertEntry .l1 id
            priority).count fun pass => { pass with
              insertionCount := pass.insertionCount + 1
              reserveEntryCount := pass.reserveEntryCount + reserves })
  /-- The same for a writeback that was requested back, the buffer of which is already free. -/
  | reviveL1 (s : State) (rdyCycle : ℕ) (priority : Priority) (hk : k = .mlc) (hstate : (s.reqBuffer id).state = .mlcWait)
      (hwb : (s.reqBuffer id).type = .wb) (hthrough : cfg.mlcWriteThrough = true)
      (hdone : (s.reqBuffer id).doneFunc.isSome = true)
      (hpriority : priority.type < 15 ∨ priority = (s.reqBuffer id).priority) (hbase : base.AtRevival cfg id) :
      Progress cfg env base k id ii s true
        (((((((s.setReq id { s.reqBuffer id with rdyCycle }).freeReq id).markEntry k ii).setReq id { s.reqBuffer id with
          state := .inv
          rdyCycle
          queue := some .l1
          opPtrs := [] }).insertEntry .l1 id priority)).count fun pass => { pass with
            insertionCount := pass.insertionCount + 1 })
  | release (s : State) (rdyCycle : ℕ) (back : ℤ) (h : (s.reqBuffer id).Ends cfg k back)
      (hback : (s.reqBuffer id).reservedEntryCount = back) (hcore : s.numReqBuffersPerCore (s.reqBuffer id).procId ≠ 0)
      (hcount : s.reqCount ≠ 0) :
      Progress cfg env base k id ii s true
        (((s.setReq id { s.reqBuffer id with rdyCycle, reservedEntryCount := 0 }).freeReq id).markEntry k ii)
  | fill (s : State) (c : Cache LineData) (way rdyCycle : ℕ) (hk : k = .l1fill)
      (hstate : (s.reqBuffer id).state = .fillL1) (hread : (s.reqBuffer id).type.isWb = false)
      (hc : (s.l1 (cfg.l1Of (s.reqBuffer id).procId)).Inserts cfg.l1 (s.reqBuffer id).addr way c) :
      Progress cfg env base k id ii s false
        ((s.setL1 (cfg.l1Of (s.reqBuffer id).procId) c).setReq id { s.reqBuffer id with
          state := if cfg.mlcPresent && (s.reqBuffer id).destination != .l1 then .fillMlc else .fillDone
          rdyCycle
          l1MissCycle := none })
  | filled (s : State) (rdyCycle : ℕ) (hk : k = .mlcFill) (hstate : (s.reqBuffer id).state = .fillMlc) :
      Progress cfg env base k id ii s false (s.setReq id { s.reqBuffer id with state := .fillDone, rdyCycle })
  /-- A writeback fills the L1. -/
  | fillWb (s : State) (c : Cache LineData) (way rdyCycle : ℕ) (hk : k = .l1) (hmiss : base.AtMiss cfg id)
      (hquiet : QuietRun cfg (base.Overtakes cfg env) base s) (hwb : (base.reqBuffer id).type.isWb = true)
      (hc : (s.l1 (cfg.l1Of (s.reqBuffer id).procId)).Inserts cfg.l1 (s.reqBuffer id).addr way c)
      (hback : (s.reqBuffer id).reservedEntryCount = 0)
      (hcore : s.numReqBuffersPerCore (s.reqBuffer id).procId ≠ 0) (hcount : s.reqCount ≠ 0) :
      Progress cfg env base k id ii s true
        ((((s.setL1 (cfg.l1Of (s.reqBuffer id).procId) c).setReq id { s.reqBuffer id with
          rdyCycle
          l1MissCycle := none }).freeReq id).markEntry k ii)
  /-- A writeback that is to be written through hits or fills the L1, and is lost or goes to the fill
  queue of the L1. -/
  | lost (s : State) (rdyCycle : ℕ) (hk : k = .l1) (hstate : (s.reqBuffer id).state = .l1Wait)
      (hwb : (s.reqBuffer id).type = .wb) (hthrough : cfg.l1WriteThrough = true) :
      Progress cfg env base k id ii s true
        ((s.setReq id { s.reqBuffer id with state := .busNew, rdyCycle }).markEntry k ii)
  | fillLost (s : State) (c : Cache LineData) (way rdyCycle : ℕ) (hk : k = .l1) (hmiss : base.AtMiss cfg id)
      (hquiet : QuietRun cfg (base.Overtakes cfg env) base s) (hwb : (base.reqBuffer id).type = .wb)
      (hthrough : cfg.l1WriteThrough = true)
      (hc : (s.l1 (cfg.l1Of (s.reqBuffer id).procId)).Inserts cfg.l1 (s.reqBuffer id).addr way c) :
      Progress cfg env base k id ii s true
        (((s.setL1 (cfg.l1Of (s.reqBuffer id).procId) c).setReq id { s.reqBuffer id with
          state := .busNew
          rdyCycle
          l1MissCycle := none }).markEntry k ii)
  | fillOver (s : State) (c : Cache LineData) (way rdyCycle : ℕ) (priority : Priority) (hk : k = .l1)
      (hmiss : base.AtMiss cfg id) (hquiet : QuietRun cfg (base.Overtakes cfg env) base s)
      (hwb : (base.reqBuffer id).type = .wb) (hthrough : cfg.l1WriteThrough = true)
      (hconstant : cfg.constantMemoryLatency = true)
      (hc : (s.l1 (cfg.l1Of (s.reqBuffer id).procId)).Inserts cfg.l1 (s.reqBuffer id).addr way c) :
      Progress cfg env base k id ii s true
        (((((s.setL1 (cfg.l1Of (s.reqBuffer id).procId) c).setReq id { s.reqBuffer id with
          state := .fillL1
          rdyCycle
          queue := some .l1fill
          l1MissCycle := none }).markEntry k ii).insertEntry .l1fill id priority).trainMiss cfg id)
  /-- The same for a writeback that was requested back, the buffer of which is already free. -/
  | revive (s : State) (c : Cache LineData) (way rdyCycle : ℕ) (priority : Priority) (hk : k = .l1)
      (hmiss : base.AtMiss cfg id) (hquiet : QuietRun cfg (base.Overtakes cfg env) base s)
      (hwb : (base.reqBuffer id).type = .wb) (hthrough : cfg.l1WriteThrough = true)
      (hconstant : cfg.constantMemoryLatency = true)
      (hc : (s.l1 (cfg.l1Of (s.reqBuffer id).procId)).Inserts cfg.l1 (s.reqBuffer id).addr way c) :
      Progress cfg env base k id ii s true
        (((((((s.setL1 (cfg.l1Of (s.reqBuffer id).procId) c).setReq id { s.reqBuffer id with
          l1MissCycle := none }).freeReq id).markEntry k ii).setReq id { s.reqBuffer id with
            state := .fillL1
            rdyCycle
            queue := some .l1fill
            opPtrs := []
            l1MissCycle := none }).insertEntry .l1fill id priority).trainMiss cfg id)
  | send (s : State) (inflightReadReqs : List (Addr × List ℕ)) (hk : k = .l1) (hsend : base.AtSend cfg id)
      (htaken : ¬ base.Rejects cfg env id)
      (hquiet : QuietRun cfg (base.Overtakes cfg env) base s) (hstate : (s.reqBuffer id).state = .l1Wait)
      (hread : (s.reqBuffer id).type.isWb = false) (hramulator : cfg.constantMemoryLatency = false)
      (hinflight : Registers (s.reqBuffer id).physAddr id s.inflightReadReqs inflightReadReqs) :
      Progress cfg env base k id ii s true
        ((({ s.setReq id { s.reqBuffer id with state := .memNew, queue := none } with inflightReadReqs }.markEntry
          k ii).reserve cfg id).trainMiss cfg id)
  | reject (s : State) (hk : k = .l1) (hrejects : base.Rejects cfg env id)
      (hquiet : QuietRun cfg (base.Overtakes cfg env) base s) (hstate : (s.reqBuffer id).state = .l1Wait)
      (hread : (s.reqBuffer id).type.isWb = false)
      (hreq : ∃ l1MissCycle, s.reqBuffer id = { base.reqBuffer id with l1Miss := true, l1MissCycle }) :
      Progress cfg env base k id ii s false ((s.reserve cfg id).trainMiss cfg id)
  | handOver (s : State) (rdyCycle : ℕ) (priority : Priority) (hk : k = .l1) (hsend : base.AtSend cfg id)
      (hconstant : cfg.constantMemoryLatency = true) (hquiet : QuietRun cfg (base.Overtakes cfg env) base s)
      (hstate : (s.reqBuffer id).state = .l1Wait) (hread : (s.reqBuffer id).type.isWb = false) :
      Progress cfg env base k id ii s true
        (((s.setReq id { s.reqBuffer id with
          state := .fillL1
          rdyCycle
          queue := some .l1fill }).insertEntry .l1fill id priority).trainMiss cfg id)

/-- What may follow the progress of a request. -/
inductive Rest : State → State → Prop where
  | seqNums (s : State) (l1SeqNum l1fillSeqNum mlcFillSeqNum : ℕ) (coreFillSeqNum : ℕ → ℕ) :
      Rest s { s with l1SeqNum, l1fillSeqNum, mlcFillSeqNum, coreFillSeqNum }
  | call (s : State) (id : ℕ) (call : PrefCall) (h : call.isQuiet = true) : Rest s (s.call id call)

abbrev RestRun : State → State → Prop := Relation.ReflTransGen Rest

/-- What the body of a loop does from a state on, but for the count of removals. -/
inductive EntryStep (cfg : Config) (env : Env) (base : State) (k : QueueId) (id ii : ℕ) : State → Bool → State → Prop where
  | quiet {s t : State} (h : QuietRun cfg (base.Overtakes cfg env) s t) : EntryStep cfg env base k id ii s false t
  | progress {s m n t : State} {done : Bool} (h : QuietRun cfg (base.Overtakes cfg env) s m)
      (hprogress : Progress cfg env base k id ii m done n) (hrest : RestRun n t) :
      EntryStep cfg env base k id ii s done t

end Scarab.Memory
