import Mathlib.Logic.Function.Basic
import Scarab.Core.Map.State
import Scarab.Lib.Linked

/-! # The node stage

`node_stage.c`: the reorder buffer, the reservation stations and the ready list, with what the
other stages do to them: the ops that come out of the map stage, the wake hook of `cmp_model.c`,
and the ops that `exec_stage.c` and `dcache_stage.c` latch. -/

namespace Scarab.Node

open Map (MemType)
open Linked (Links)

/-- A pointer into the op pool. -/
abbrev OpPtr := ℕ

/-- `Op_State`. -/
inductive OpState where
  | fetched
  | issued
  | inRs
  | sleep
  | waitFwd
  | lowPriority
  | ready
  | tentative
  | scheduled
  | miss
  | waitDcache
  | waitMem
  | done
  deriving DecidableEq, Repr

/-- `OP_IS_IN_RS`: from `OS_IN_RS` on, before `OS_SCHEDULED`. -/
def OpState.isInRs : OpState → Bool
  | .inRs | .sleep | .waitFwd | .lowPriority | .ready | .tentative => true
  | _ => false

/-- `Func_Unit`, and what `get_fu_type` gives is a mask over the types. -/
structure FuncUnit where
  fuId : ℕ
  type : ℕ
  deriving DecidableEq, Repr

/-- `Reservation_Station`; its `rs_op_count` is in the state. -/
structure ReservationStation where
  size : ℕ
  connectedFus : List FuncUnit
  deriving DecidableEq, Repr

/-- The knobs that the stages read, and the stations. -/
structure Config where
  nodeTableSize : ℕ
  nodeRetWidth : ℕ
  /-- The most ops that enter the stations in a cycle, where 0 is no limit. -/
  rsFillWidth : ℕ
  stallOnWaitMem : Bool
  numFus : ℕ
  rs : List ReservationStation

/-- The fields of an `Op` that the stages read; a cycle that is `MAX_CTR` is `none`, and the
fields `next_node` and `next_rdy` are in the state. -/
structure Op where
  /-- `op_pool_valid`. -/
  valid : Bool
  opNum : ℕ
  /-- `get_fu_type` of the op. -/
  fuType : ℕ
  memType : MemType
  /-- `bar_type & BAR_ISSUE`. -/
  barIssue : Bool
  offPath : Bool
  recoveryScheduled : Bool
  redirectScheduled : Bool
  state : OpState
  issueCycle : Option ℕ
  doneCycle : Option ℕ
  rdyCycle : ℕ
  srcsNotRdyVector : BitVec 32
  rsId : ℕ
  inNodeList : Bool
  inRdyList : Bool
  /-- The op was given a place in a station, and did not leave it. No operation reads it. -/
  occupies : Bool

/-- Storage that was never used. -/
def Op.unused : Op where
  valid := false
  opNum := 0
  fuType := 0
  memType := .notMem
  barIssue := false
  offPath := false
  recoveryScheduled := false
  redirectScheduled := false
  state := .fetched
  issueCycle := none
  doneCycle := none
  rdyCycle := 1
  srcsNotRdyVector := 0#32
  rsId := 0
  inNodeList := false
  inRdyList := false
  occupies := false

/-- Where a core is in its cycle. -/
inductive Phase where
  /-- `node_handle_scheduled_ops` went through the ready list after the stages behind it. -/
  | idle
  /-- The dcache stage is updated. -/
  | dcache
  /-- The exec stage is updated. -/
  | exec
  deriving DecidableEq, Repr

structure State where
  ops : OpPtr → Op
  /-- `node_head`, and `next_node` of every op. -/
  nodeList : Links OpPtr
  nodeTail : Option OpPtr
  nodeCount : ℕ
  nextOpIntoRs : Option OpPtr
  /-- `rdy_head`, and `next_rdy` of every op. -/
  rdyList : Links OpPtr
  /-- `rs_op_count` of every station. -/
  rsOpCount : ℕ → ℕ
  retOp : ℕ
  memBlocked : Bool
  /-- `node->sd`, by functional units. -/
  sd : ℕ → Option OpPtr
  /-- The memory ops in the exec and the dcache stage that did not access the cache. -/
  memOps : List OpPtr
  /-- The ops before the last map stage, oldest first. -/
  front : List OpPtr
  /-- The slots of the last map stage. -/
  mapSd : List (Option OpPtr)
  opCount : ℕ
  cycle : ℕ
  phase : Phase

def State.init : State where
  ops := fun _ => .unused
  nodeList := ⟨none, fun _ => none⟩
  nodeTail := none
  nodeCount := 0
  nextOpIntoRs := none
  rdyList := ⟨none, fun _ => none⟩
  rsOpCount := fun _ => 0
  retOp := 1
  memBlocked := false
  sd := fun _ => none
  memOps := []
  front := []
  mapSd := []
  opCount := 1
  cycle := 0
  phase := .idle

def State.setOp (s : State) (p : OpPtr) (op : Op) : State :=
  { s with ops := Function.update s.ops p op }

/-! ## Issue -/

/-- The op of slot `ii` goes to the end of the node table. -/
def State.enterTable (s : State) (ii : ℕ) (p : OpPtr) : State :=
  { s.setOp p { s.ops p with issueCycle := some s.cycle, inNodeList := true, state := .issued } with
    mapSd := s.mapSd.set ii none
    nodeList := s.nodeList.append s.nodeTail p
    nodeTail := some p
    nextOpIntoRs := if s.nextOpIntoRs = none then some p else s.nextOpIntoRs
    nodeCount := s.nodeCount + 1 }

/-- What `node_issue` does with an op that can issue. -/
def State.issueOp (cfg : Config) (s : State) (ii : ℕ) (p : OpPtr) : Except String State :=
  if (s.ops p).inNodeList = false then
    if s.nodeCount + 1 ≤ cfg.nodeTableSize then .ok (s.enterTable ii p)
    else .error "node->node_count <= NODE_TABLE_SIZE"
  else .error "!op->in_node_list"

/-- The body of the loop of `node_issue`: the new state, and whether to break. -/
def State.issueSlot (cfg : Config) (s : State) (ii : ℕ) : Except String (State × Bool) :=
  if s.nodeCount ≤ cfg.nodeTableSize then
    if s.nodeCount = cfg.nodeTableSize then .ok (s, true)
    else match s.mapSd.getD ii none with
      | none => .ok (s, false)
      | some p =>
          if (s.ops p).barIssue = true ∧ 0 < s.nodeCount then .ok (s, true)
          else do
            let t ← s.issueOp cfg ii p
            return (t, (s.ops p).barIssue)
  else .error "node->node_count <= NODE_TABLE_SIZE"

/-- `node_issue`; where the source has no op, the loop does nothing. -/
def State.nodeIssue (cfg : Config) (s : State) : Except String State :=
  Prod.snd <$> Linked.run (State.issueSlot cfg) (List.range s.mapSd.length) s

/-! ## Filling the stations -/

/-- A functional unit of the station can execute the op. -/
def FuncUnit.canExecute (fu : FuncUnit) (op : Op) : Bool := op.fuType &&& fu.type != 0

/-- What `find_emptiest_rs` does for a unit of a station, with the station that was emptiest so
far and its empty slots. -/
def emptierRs (op : Op) (rsId emptySlots : ℕ) (best : Option (ℕ × ℕ)) (fu : FuncUnit) :
    Option (ℕ × ℕ) :=
  if fu.canExecute op = true ∧ emptySlots ≠ 0 ∧ best.all (fun b => b.2 < emptySlots) = true then
    some (rsId, emptySlots)
  else best

/-- `find_emptiest_rs`. -/
def findEmptiestRs (cfg : Config) (rsOpCount : ℕ → ℕ) (op : Op) : Except String (Option ℕ) :=
  Option.map Prod.fst <$> cfg.rs.zipIdx.foldlM (fun best (rs, rsId) =>
    if rs.size = 0 ∨ rsOpCount rsId ≤ rs.size then
      if rs.size ≠ 0 then
        .ok (rs.connectedFus.foldl (emptierRs op rsId (rs.size - rsOpCount rsId)) best)
      else .error "Infinite RS not suppoted by find_emptiest_rs issuer."
    else .error "!rs->size || rs->rs_op_count <= rs->size") none

/-- The op goes on the ready list. -/
def State.pushReady (s : State) (p : OpPtr) : State :=
  { s.setOp p { s.ops p with inRdyList := true } with rdyList := s.rdyList.push p }

/-- The op enters the station. -/
def State.fillOp (cfg : Config) (s : State) (p : OpPtr) (rsId : ℕ) : Except String State :=
  let op := s.ops p
  if s.rsOpCount rsId < (cfg.rs[rsId]?.map ReservationStation.size).getD 0 then
    if op.state = .issued then
      let s := { s with rsOpCount := Function.update s.rsOpCount rsId (s.rsOpCount rsId + 1) }
      if op.srcsNotRdyVector = 0#32 then
        .ok ((s.setOp p { op with
          state := if op.rdyCycle ≤ s.cycle + 1 then .ready else .waitFwd
          rsId, occupies := true }).pushReady p)
      else .ok (s.setOp p { op with state := .inRs, rsId, occupies := true })
    else .error "op->state == OS_ISSUED"
  else .error "There must be at least one free space in selected RS!"

/-- The body of the loop of `node_fill_rs`, with the number of ops it filled. -/
def State.fillNext (cfg : Config) : State × ℕ → OpPtr → Except String ((State × ℕ) × Bool)
  | (s, numFillRs), p => do
      match ← findEmptiestRs cfg s.rsOpCount (s.ops p) with
      | none => return ((s, numFillRs), true)
      | some rsId =>
          let s ← s.fillOp cfg p rsId
          return ((s, numFillRs + 1), cfg.rsFillWidth ≠ 0 ∧ numFillRs + 1 = cfg.rsFillWidth)

/-- `node_fill_rs`. -/
def State.nodeFillRs (cfg : Config) (s : State) : Except String State := do
  let (op, s, _) ← Linked.walk s.nodeList.next (State.fillNext cfg) (s.nodeCount + 1)
    s.nextOpIntoRs (s, 0)
  return { s with nextOpIntoRs := op }

/-! ## Removing scheduled ops -/

/-- The op gives its place in the station back. -/
def State.leaveRs (s : State) (p : OpPtr) : Except String State :=
  let rsId := (s.ops p).rsId
  if 0 < s.rsOpCount rsId then
    .ok { s with rsOpCount := Function.update s.rsOpCount rsId (s.rsOpCount rsId - 1) }
  else .error "node->rs[op->rs_id].rs_op_count > 0"

/-- `op->state == OS_SCHEDULED || op->state == OS_MISS`. -/
def Op.isScheduled (op : Op) : Bool := op.state = .scheduled ∨ op.state = .miss

/-- What `node_handle_scheduled_ops` does to an op that it unlinks. -/
def State.removeScheduled (s : State) (p : OpPtr) : Except String State :=
  (s.setOp p { s.ops p with inRdyList := false, occupies := false }).leaveRs p

/-- `node_handle_scheduled_ops`. -/
def State.nodeHandleScheduledOps (s : State) : Except String State := do
  let (rdyList, s) ← Linked.unlink (fun s p => (s.ops p).isScheduled) State.removeScheduled
    (fun s _ => .ok s) s.nodeCount s.rdyList.head none s.rdyList s
  return { s with rdyList }

/-! ## Scheduling -/

/-- The slot that `oldest_first_sched` gives the op: the first one that is empty, or else the one
with the youngest op that is younger. -/
def State.slotOf (cfg : Config) (s : State) (p : OpPtr) :
    List FuncUnit → Option ℕ → Except String (Option ℕ)
  | [], youngest => .ok youngest
  | fu :: fus, youngest =>
      if fu.canExecute (s.ops p) = true then
        match s.sd fu.fuId with
        | none => if fu.fuId < cfg.numFus then .ok (some fu.fuId)
            else .error "fu_id < node->sd.max_op_count"
        | some q =>
            if (s.ops p).opNum < (s.ops q).opNum ∧
                ((youngest.bind s.sd).all fun y => (s.ops y).opNum < (s.ops q).opNum) = true then
              s.slotOf cfg p fus (some fu.fuId)
            else s.slotOf cfg p fus youngest
      else s.slotOf cfg p fus youngest

/-- `oldest_first_sched`. -/
def State.oldestFirstSched (cfg : Config) (s : State) (p : OpPtr) : Except String State := do
  match ← s.slotOf cfg p ((cfg.rs[(s.ops p).rsId]?.map (·.connectedFus)).getD []) none with
  | none => return s
  | some fuId => return { s with sd := Function.update s.sd fuId (some p) }

/-- The body of the loop of `node_sched_ops` for an op that can be scheduled. -/
def State.schedReady (cfg : Config) (s : State) (p : OpPtr) : Except String State :=
  let op := s.ops p
  if op.state = .inRs ∨ op.state = .ready ∨ op.state = .waitFwd then
    if op.rdyCycle - 1 ≤ s.cycle then
      if op.srcsNotRdyVector = 0#32 then s.oldestFirstSched cfg p
      else .error "op->srcs_not_rdy_vector == 0x0"
    else .ok s
  else .error "op->state == OS_IN_RS || op->state == OS_READY || op->state == OS_WAIT_FWD"

/-- The body of the loop of `node_sched_ops`, which never breaks. -/
def State.schedOp (cfg : Config) (s : State) (p : OpPtr) : Except String (State × Bool) :=
  let op := s.ops p
  if op.inRdyList = true then
    if op.state = .waitMem then
      if s.memBlocked = true then .ok (s, false)
      else (·, false) <$> (s.setOp p { op with state := .ready }).schedReady cfg p
    else if op.state = .tentative ∨ op.state = .waitDcache then .ok (s, false)
    else (·, false) <$> s.schedReady cfg p
  else .error "op->in_rdy_list"

/-- `node_sched_ops`; the memory can allocate a request buffer or not. -/
def State.nodeSchedOps (cfg : Config) (canAllocate : Bool) (s : State) : Except String State :=
  if (List.range cfg.numFus).all (fun fuId => s.sd fuId = none) = true then do
    let s := { s with memBlocked := s.memBlocked && !canAllocate }
    let (_, s) ← Linked.walk s.rdyList.next (State.schedOp cfg) s.nodeCount s.rdyList.head s
    return s
  else .error "node->sd.op_count == 0"

/-! ## Retirement -/

/-- `op_not_ready_for_retire`. -/
def State.opNotReadyForRetire (s : State) (op : Op) : Bool :=
  !(op.state = .done ∨ op.doneCycle.any (· ≤ s.cycle) = true) || op.offPath ||
    op.recoveryScheduled || op.redirectScheduled

/-- `free_op`. -/
def State.freeOp (s : State) (p : OpPtr) : State := s.setOp p { s.ops p with valid := false }

/-- The body of the loop of `node_retire`. -/
def State.retireOp (s : State) (p : OpPtr) : Except String (State × Bool) :=
  let op := s.ops p
  if s.opNotReadyForRetire op = true then .ok (s, true)
  else if op.state = .tentative then .error "op->state != OS_TENTATIVE"
  else if op.inNodeList = false then .error "op->in_node_list"
  else if op.opNum ≠ s.retOp then .error "op->op_num == node->ret_op"
  else if s.nodeCount = 0 then .error "node->node_count >= 0"
  else .ok ({ s.freeOp p with retOp := s.retOp + 1, nodeCount := s.nodeCount - 1 }, false)

/-- `is_node_table_empty`. -/
def State.isNodeTableEmpty (s : State) : Except String Bool :=
  if s.nodeCount = 0 then
    if s.nodeList.head = none ∧ s.nodeTail = none then .ok true
    else .error "node->node_head == NULL && node->node_tail == NULL"
  else if s.nodeList.head ≠ none ∧ s.nodeTail ≠ none then .ok false
  else .error "node->node_head != NULL && node->node_tail != NULL"

/-- `node_retire`. -/
def State.nodeRetire (cfg : Config) (s : State) : Except String State := do
  if ← s.isNodeTableEmpty then return s
  let (op, s) ← Linked.walk s.nodeList.next State.retireOp cfg.nodeRetWidth s.nodeList.head s
  let s := { s with nodeList := { s.nodeList with head := op } }
  match op with
  | some _ => return s
  | none =>
      if s.nodeCount = 0 then return { s with nodeTail := none }
      else .error "Node table must be empty if next node is null!"

/-! ## Recovery -/

/-- `FLUSH_OP`. -/
def flushOp (r : ℕ) (op : Op) : Bool := r < op.opNum

/-- `flush_ready_list`. -/
def State.flushReadyList (r : ℕ) (s : State) : Except String State := do
  let (rdyList, s) ← Linked.unlink (fun s p => flushOp r (s.ops p))
    (fun s p => .ok (s.setOp p { s.ops p with inRdyList := false }))
    (fun s _ => .ok s) s.nodeCount s.rdyList.head none s.rdyList s
  return { s with rdyList }

/-- `flush_scheduling_buffer`. -/
def State.flushSchedulingBuffer (r : ℕ) (s : State) : State :=
  { s with sd := fun fuId => (s.sd fuId).filter fun p => !flushOp r (s.ops p) }

/-- `flush_rs`. -/
def State.flushRs (r : ℕ) (s : State) : State :=
  { s with nextOpIntoRs := s.nextOpIntoRs.filter fun p => !flushOp r (s.ops p) }

/-- `op->state == OS_IN_RS || op->state == OS_READY || op->state == OS_WAIT_FWD`. -/
def Op.waitsInRs (op : Op) : Bool := op.state = .inRs ∨ op.state = .ready ∨ op.state = .waitFwd

/-- What `flush_window` does to an op that is flushed. -/
def State.flushFromWindow (s : State) (p : OpPtr) : Except String State :=
  let t := s.setOp p { s.ops p with inNodeList := false }
  (·.freeOp p) <$> if (s.ops p).waitsInRs = true then t.leaveRs p else .ok t

/-- What `flush_window` does to an op that is kept. -/
def State.keepInWindow (r : ℕ) (s : State) (p : OpPtr) : State :=
  let op := s.ops p
  { s.setOp p { op with recoveryScheduled := op.recoveryScheduled && op.opNum != r } with
    nodeTail := some p }

/-- `flush_window`; the loop counts the ops that it flushes and keeps. -/
def State.flushWindow (cfg : Config) (r : ℕ) (s : State) : Except String State := do
  let (nodeList, s, flushOps, keepOps) ← Linked.unlink
    (fun (s : State × ℕ × ℕ) p => flushOp r (s.1.ops p))
    (fun (s, flushOps, keepOps) p => (·, flushOps + 1, keepOps) <$> s.flushFromWindow p)
    (fun (s, flushOps, keepOps) p => .ok (s.keepInWindow r p, flushOps, keepOps + 1))
    s.nodeCount s.nodeList.head none s.nodeList ({ s with nodeTail := none }, 0, 0)
  if flushOps + keepOps = s.nodeCount then
    if keepOps ≤ cfg.nodeTableSize then return { s with nodeList, nodeCount := keepOps }
    else .error "node->node_count <= NODE_TABLE_SIZE"
  else .error "flush_ops + keep_ops == node->node_count"

/-- `recover_node_stage`. -/
def State.recoverNodeStage (cfg : Config) (r : ℕ) (s : State) : Except String State := do
  let s ← s.flushReadyList r
  ((s.flushSchedulingBuffer r).flushRs r).flushWindow cfg r

/-- The ops that did not reach the node table, oldest first. -/
def State.waiting (s : State) : List OpPtr := s.mapSd.reduceOption ++ s.front

/-- The stages before the node stage free the ops that are flushed. -/
def State.recoverFrontEnd (r : ℕ) (s : State) : State :=
  { s with
    ops := fun p => if p ∈ s.waiting ∧ flushOp r (s.ops p) = true then
      { s.ops p with valid := false } else s.ops p
    mapSd := s.mapSd.map fun slot => slot.filter fun p => !flushOp r (s.ops p)
    front := s.front.filter fun p => !flushOp r (s.ops p)
    opCount := r + 1 }

/-- The exec and the dcache stage drop the ops that are flushed. -/
def State.recoverBackEnd (r : ℕ) (s : State) : State :=
  { s with memOps := s.memOps.filter fun p => !flushOp r (s.ops p) }

/-- `cmp_recover`. -/
def State.cmpRecover (cfg : Config) (r : ℕ) (s : State) : Except String State := do
  return ((← (s.recoverFrontEnd r).recoverNodeStage cfg r).recoverBackEnd r)

/-! ## Wake-up -/

/-- `simple_wake`. -/
def State.simpleWake (s : State) (op : Op) (wakeCycle : ℕ) : Op :=
  let rdyCycle := max op.rdyCycle wakeCycle
  { op with
    rdyCycle
    state := if op.srcsNotRdyVector = 0#32 then
        if rdyCycle = s.cycle + 1 then .ready else .waitFwd
      else op.state }

/-- `cmp_wake`, for a producer with the wake cycle. -/
def State.cmpWake (s : State) (p : OpPtr) (wakeCycle : ℕ) : State :=
  let op := s.ops p
  if op.state ≠ .inRs then s.setOp p { op with rdyCycle := max op.rdyCycle wakeCycle }
  else
    let op := s.simpleWake op wakeCycle
    let s := s.setOp p op
    if op.srcsNotRdyVector = 0#32 ∧ op.issueCycle.any (· ≤ s.cycle) = true ∧ op.inRdyList = false then
      s.pushReady p
    else s

/-! ## Execution -/

/-- What `update_exec_stage` sets in an op that it latches. -/
def Op.latch (cfg : Config) (op : Op) (execCycle : ℕ) : Op :=
  { op with
    state := if op.memType = .notMem ∨ cfg.stallOnWaitMem = true then .scheduled else .tentative
    doneCycle := if op.memType = .notMem then some execCycle else op.doneCycle }

/-- `update_exec_stage`, for the op of a functional unit. -/
def State.execOp (cfg : Config) (s : State) (fuId p : ℕ) (latency : ℕ) : Except String State :=
  let op := s.ops p
  if op.srcsNotRdyVector = 0#32 ∧ op.rdyCycle ≤ s.cycle then
    if latency ≠ 0 then
      .ok { s.setOp p (op.latch cfg (s.cycle + latency)) with
            sd := Function.update s.sd fuId none
            memOps := if op.memType = .notMem then s.memOps else p :: s.memOps
            phase := .exec }
    else .error "latency"
  else .error "OP_SRCS_RDY(op)"

/-- How the access of a memory op to the dcache ends. -/
inductive Outcome where
  /-- The op is done after some cycles: a hit, or a miss that does not block the window. -/
  | hit (latency : ℕ)
  /-- The op waits for a request. -/
  | miss
  | noPort
  | noRequestBuffer
  deriving DecidableEq, Repr

/-- `update_dcache_stage` gives an op its outcome. The op stays in the stage where it waits for a
port, and under `STALL_ON_WAIT_MEM` where it waits for a request buffer. -/
def State.dcacheOp (cfg : Config) (s : State) (p : OpPtr) (outcome : Outcome) : State :=
  let op := s.ops p
  let gone := s.memOps.filter (· ≠ p)
  match outcome with
  | .hit latency => { s.setOp p { op with
      state := .scheduled, doneCycle := some (s.cycle + latency) } with
      memOps := gone, phase := .dcache }
  | .miss => { s.setOp p { op with state := .miss } with memOps := gone, phase := .dcache }
  | .noPort => { s.setOp p { op with state := .waitDcache } with phase := .dcache }
  | .noRequestBuffer => { s.setOp p { op with state := .waitMem } with
      memOps := if cfg.stallOnWaitMem then s.memOps else gone
      memBlocked := true, phase := .dcache }

/-- `dcache_fill_line`, for an op of the request. -/
def State.fillLine (s : State) (p : OpPtr) : Except String State :=
  let op := s.ops p
  if op.inRdyList = false then
    .ok (s.setOp p { op with state := .scheduled, doneCycle := some (s.cycle + 1) })
  else .error "!op->in_rdy_list"

/-! ## The steps -/

/-- `alloc_op`, and the fields that the op is given when it is fetched. -/
def State.fetch (s : State) (p fuType : ℕ) (memType : MemType) (barIssue offPath : Bool) : State :=
  { s.setOp p { Op.unused with
      valid := true, opNum := s.opCount, fuType, memType, barIssue, offPath } with
    front := s.front ++ [p], opCount := s.opCount + 1 }

/-- What happens, in any order that keeps the phases of a cycle: a core updates its dcache stage,
its exec stage, and then its node stage, and the recovery comes before them. -/
inductive Event where
  /-- The core begins its next cycle. -/
  | cycle
  | fetch (p fuType : ℕ) (memType : MemType) (barIssue offPath : Bool)
  /-- The map gives an op that is not issued its sources, or finds some of them ready. -/
  | map (p : OpPtr) (srcsNotRdyVector : BitVec 32)
  /-- The last map stage takes the next ops. -/
  | latch (width : ℕ)
  /-- The branch predictor sets or clears the flags. -/
  | branch (p : OpPtr) (recoveryScheduled redirectScheduled : Bool)
  /-- `wake_up_ops` clears the bit of a source and calls the wake hook. -/
  | wake (p bit wakeCycle : ℕ)
  | issue
  | handleScheduledOps
  | fillRs
  | retire
  | sched (canAllocate : Bool)
  /-- The exec stage cannot take the op of the functional unit. -/
  | reject (fuId : ℕ)
  | exec (fuId latency : ℕ)
  | dcache (p : OpPtr) (outcome : Outcome)
  | fillLine (p : OpPtr)
  | recover (r : ℕ)
  deriving DecidableEq

def State.step (cfg : Config) (s : State) : Event → Except String State
  | .cycle => if s.phase = .idle then .ok { s with cycle := s.cycle + 1 } else .error "phase"
  | .fetch p fuType memType barIssue offPath =>
      if (s.ops p).valid = false then .ok (s.fetch p fuType memType barIssue offPath)
      else .error "!new_op->op_pool_valid"
  | .map p srcsNotRdyVector =>
      if p ∈ s.waiting then .ok (s.setOp p { s.ops p with srcsNotRdyVector }) else .error "mapped"
  | .latch width =>
      if s.mapSd.reduceOption = [] then
        .ok { s with mapSd := (s.front.take width).map some, front := s.front.drop width }
      else .error "map->last_sd->op_count > 0"
  | .branch p recoveryScheduled redirectScheduled =>
      .ok (s.setOp p { s.ops p with recoveryScheduled, redirectScheduled })
  | .wake p bit wakeCycle =>
      let op := s.ops p
      if op.valid = true ∧ op.srcsNotRdyVector &&& (1#32 <<< bit) ≠ 0#32 then
        .ok ((s.setOp p { op with
          srcsNotRdyVector := op.srcsNotRdyVector &&& ~~~(1#32 <<< bit) }).cmpWake p wakeCycle)
      else .error "woken"
  | .issue => s.nodeIssue cfg
  | .handleScheduledOps => do return { ← s.nodeHandleScheduledOps with phase := .idle }
  | .fillRs => s.nodeFillRs cfg
  | .retire => if s.phase = .idle then s.nodeRetire cfg else .error "phase"
  | .sched canAllocate => if s.phase = .idle then s.nodeSchedOps cfg canAllocate else .error "phase"
  | .reject fuId => .ok { s with sd := Function.update s.sd fuId none }
  | .exec fuId latency =>
      match s.sd fuId with
      | none => .error "latched"
      | some p => s.execOp cfg fuId p latency
  | .dcache p outcome =>
      if p ∈ s.memOps ∧ s.phase ≠ .exec then .ok (s.dcacheOp cfg p outcome) else .error "phase"
  | .fillLine p =>
      let op := s.ops p
      if s.phase = .idle ∧ op.valid = true ∧ op.memType ≠ .notMem ∧ op.isScheduled = true ∧
          p ∉ s.memOps then s.fillLine p
      else .error "requested"
  | .recover r =>
      if s.phase = .idle ∧ r < s.opCount then s.cmpRecover cfg r else .error "phase"

def Reachable (cfg : Config) (s : State) : Prop :=
  ∃ events, Execution.run (State.step cfg) .init events = .ok s

/-! ## The check of the debug output -/

/-- The ops that `debug_print_rs` prints for a station, from the head of the node table up to the
op that goes into a station next. -/
def State.printed (s : State) (rsId : ℕ) : Except String ℕ :=
  Prod.snd <$> Linked.walk s.nodeList.next
    (fun printed p =>
      if s.nextOpIntoRs = some p then .ok (printed, true)
      else .ok (if (s.ops p).rsId = rsId ∧ (s.ops p).state.isInRs = true then printed + 1
        else printed, false))
    s.nodeCount s.nodeList.head 0

/-- `debug_print_rs`, without what it writes. -/
def State.debugPrintRs (cfg : Config) (s : State) : Except String Unit :=
  (List.range cfg.rs.length).forM fun rsId => do
    if (← s.printed rsId) = s.rsOpCount rsId then return () else .error "printed == rs->rs_op_count"

end Scarab.Node
