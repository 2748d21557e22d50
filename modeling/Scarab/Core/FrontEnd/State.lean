import Mathlib.Data.List.ReduceOption
import Scarab.Core.OpPool

/-! # From the icache to the node table

The stages of `decode_stage.c` and `map_stage.c` between the exit list of `icache_stage.c` and the
node table of `node_stage.c`, as `cmp_cores` and `cmp_recover` update them. -/

namespace Scarab.FrontEnd

open OpPool (OpPtr Op Pool)

/-- `Stage_Data`; `max_op_count` is the length of the array. -/
structure StageData where
  opCount : ℕ
  ops : List (Option OpPtr)
  deriving DecidableEq, Repr

/-- The knobs. -/
structure Config where
  issueWidth : ℕ
  decodeCycles : ℕ
  mapCycles : ℕ
  nodeTableSize : ℕ

/-- `ASSERT(0, STAGE_MAX_DEPTH > 0)`. -/
structure Config.Valid (cfg : Config) : Prop where
  decodeCycles : 0 < cfg.decodeCycles
  mapCycles : 0 < cfg.mapCycles

/-- What `reset_decode_stage` and the other resets leave in a stage. -/
def StageData.reset (cfg : Config) : StageData := ⟨0, List.replicate cfg.issueWidth none⟩

structure State where
  pool : Pool
  /-- `ic->sd`. -/
  ic : StageData
  /-- `dec->sds`, which begins with the last stage. -/
  dec : List StageData
  /-- `map->sds`, which begins with the last stage. -/
  map : List StageData
  /-- `seq_op_list`, oldest first. -/
  seqOpList : List OpPtr
  /-- The ops in the node table, oldest first. -/
  nodeList : List OpPtr
  opCount : ℕ
  uniqueCount : ℕ
  retOp : ℕ
  cycle : ℕ
  /-- The ops that other cores have taken from the pool. -/
  others : List OpPtr
  /-- The numbers of the ops that the decode stage processed. No operation reads it. -/
  decoded : List ℕ
  /-- The numbers of the ops that the map stage processed. No operation reads it. -/
  mapped : List ℕ
  /-- The numbers of the ops that retired. No operation reads it. -/
  retired : List ℕ
  /-- The numbers of the ops that a recovery dropped. No operation reads it. -/
  flushed : List ℕ

/-- After `init_op_pool`, `init_thread` and the inits of the stages. -/
def State.init (cfg : Config) : Except String State := do
  let pool ← OpPool.init
  return {
    pool
    ic := .reset cfg
    dec := List.replicate cfg.decodeCycles (.reset cfg)
    map := List.replicate cfg.mapCycles (.reset cfg)
    seqOpList := []
    nodeList := []
    opCount := 1
    uniqueCount := 1
    retOp := 1
    cycle := 0
    others := []
    decoded := []
    mapped := []
    retired := []
    flushed := [] }

/-- `unique_num_per_proc`. -/
def State.number (s : State) (p : OpPtr) : ℕ := (s.pool.ops p).uniqueNumPerProc

def State.setOp (s : State) (p : OpPtr) (op : Op) : State := { s with pool := s.pool.setOp p op }

/-- A field of the op is set. -/
def State.note (g : Op → Op) (s : State) (p : OpPtr) : State := s.setOp p (g (s.pool.ops p))

/-- `op->issue_cycle = cycle_count`. -/
def issueAt (cycle : ℕ) (op : Op) : Op := { op with issueCycle := some cycle }

/-- `op->map_cycle = cycle_count`. -/
def mapAt (cycle : ℕ) (op : Op) : Op := { op with mapCycle := some cycle }

/-! ## The node stage -/

/-- The loop of `node_issue` over the slots of the last map stage, with the number of ops that are
in them and the node table. -/
def issueSlots (cfg : Config) (ops : OpPtr → Op) :
    List (Option OpPtr) → ℕ → List OpPtr → Except String (StageData × List OpPtr)
  | [], opCount, nodeList => .ok (⟨opCount, []⟩, nodeList)
  | slot :: slots, opCount, nodeList =>
      if nodeList.length ≤ cfg.nodeTableSize then
        if nodeList.length = cfg.nodeTableSize then .ok (⟨opCount, slot :: slots⟩, nodeList)
        else match slot with
        | none => do
            let (sd, nodeList) ← issueSlots cfg ops slots opCount nodeList
            return ({ sd with ops := none :: sd.ops }, nodeList)
        | some p =>
            if (ops p).barIssue = true ∧ 0 < nodeList.length then .ok (⟨opCount, slot :: slots⟩, nodeList)
            else if opCount = 0 then .error "src_sd->op_count >= 0"
            else if (ops p).barIssue = true then .ok (⟨opCount - 1, none :: slots⟩, nodeList ++ [p])
            else do
              let (sd, nodeList) ← issueSlots cfg ops slots (opCount - 1) (nodeList ++ [p])
              return ({ sd with ops := none :: sd.ops }, nodeList)
      else .error "node->node_count <= NODE_TABLE_SIZE"

/-- `node_issue`. -/
def State.nodeIssue (cfg : Config) (s : State) : Except String State :=
  match s.map with
  | [] => .error "map->last_sd"
  | last :: sds =>
      if last.opCount = 0 then .ok s
      else do
        let (last, nodeList) ← issueSlots cfg s.pool.ops last.ops last.opCount s.nodeList
        let s := (nodeList.drop s.nodeList.length).foldl (State.note (issueAt s.cycle)) s
        return { s with map := last :: sds, nodeList }

/-- The loop of `node_retire`, once round: the op at the head of the node table retires. -/
def State.retireOp (s : State) : Except String State :=
  match s.nodeList, s.seqOpList with
  | p :: nodeList, head :: seqOpList =>
      if (s.pool.ops p).opNum ≠ s.retOp then .error "op->op_num == node->ret_op"
      else if (s.pool.ops head).opPoolValid = false then .error "(*op_p)->op_pool_valid"
      else if head ≠ p then .error "*op_p == op"
      else do
        let pool ← s.pool.freeOp p
        return { s with
          pool, nodeList, seqOpList, retOp := s.retOp + 1, retired := s.retired ++ [s.number p] }
  | [], _ => .error "op_not_ready_for_retire"
  | _, [] => .error "op_p"

/-! ## The decode and the map stage -/

/-- `cur` takes the ops of `prev`, which gets the array of `cur`. -/
def StageData.swap (cur prev : StageData) : StageData × StageData :=
  (⟨prev.opCount, prev.ops⟩, ⟨0, cur.ops⟩)

/-- The loop of `update_decode_stage` and `update_map_stage` from the stage `cur` on, up to the first
stage. -/
def updateFrom (cur : StageData) : List StageData → List StageData
  | [] => [cur]
  | prev :: sds =>
      if cur.opCount = 0 then (cur.swap prev).1 :: updateFrom (cur.swap prev).2 sds
      else cur :: updateFrom prev sds

/-- The loop over the stages but the first one. -/
def updateStages : List StageData → List StageData
  | [] => []
  | cur :: sds => updateFrom cur sds

/-- The first stage takes the ops of the stage before, which is `src`. -/
def updateFirst (sds : List StageData) (src : StageData) : List StageData × StageData :=
  match sds.getLast? with
  | none => (sds, src)
  | some cur =>
      if cur.opCount = 0 then (sds.dropLast ++ [(cur.swap src).1], (cur.swap src).2) else (sds, src)

/-- The ops of a stage, all of which are there: `ASSERT(proc_id, op != NULL)`. -/
def StageData.present (sd : StageData) : Except String (List OpPtr) :=
  (sd.ops.take sd.opCount).mapM fun slot =>
    match slot with
    | none => .error "op != NULL"
    | some p => .ok p

/-- The ops of the last stage, unless it is stalled. -/
def toProcess (before after : List StageData) : Except String (List OpPtr) :=
  match before, after with
  | old :: _, new :: _ => if 0 < old.opCount then .ok [] else new.present
  | _, _ => .error "last_sd"

/-- The ops that the first map stage has taken get their `map_cycle`. -/
def State.noteFirst (s : State) (sds : List StageData) : Except String State :=
  match sds.getLast?, s.map.getLast? with
  | some cur, some new => if cur.opCount = 0 then return (← new.present).foldl (State.note (mapAt s.cycle)) s else .ok s
  | _, _ => .error "STAGE_MAX_DEPTH > 0"

/-- `update_map_stage`; `add_to_wake_up_lists` is called for the ops that are processed. -/
def State.updateMapStage (s : State) : Except String State :=
  match s.dec with
  | [] => .error "dec->last_sd"
  | src :: dec => do
      let sds := updateStages s.map
      let (map, src) := updateFirst sds src
      let s' ← { s with map, dec := src :: dec }.noteFirst sds
      let ops ← toProcess s.map map
      return { s' with mapped := s'.mapped ++ ops.map s'.number }

/-- `update_decode_stage`; the predictors are told of the branches that are processed. -/
def State.updateDecodeStage (s : State) : Except String State := do
  let (dec, ic) := updateFirst (updateStages s.dec) s.ic
  let ops ← toProcess s.dec dec
  return { s with dec, ic, decoded := s.decoded ++ ops.map s.number }

/-! ## The icache stage -/

/-- The bound on the ops in flight that `add_to_seq_op_list` asserts. -/
def maxSeqOps : ℕ := 8193

/-- What `icache_issue_ops` does with an op that it fetches. -/
def State.issueFetched (s : State) (barIssue : Bool) : Except String State := do
  let (p, pool) ← s.pool.allocOp s.opCount s.uniqueCount
  let s := { s with pool }
  let s := s.setOp p { s.pool.ops p with barIssue, fetchCycle := s.cycle }
  if s.seqOpList.length + 1 < maxSeqOps then
    if s.seqOpList.length + 1 ≤ s.pool.opPoolActiveOps then
      return { s with
        seqOpList := s.seqOpList ++ [p]
        ic := ⟨s.ic.opCount + 1, s.ic.ops.set s.ic.opCount (some p)⟩
        opCount := s.opCount + 1
        uniqueCount := s.uniqueCount + 1 }
    else .error "td->seq_op_list.count <= op_pool_active_ops"
  else .error "td->seq_op_list.count < 8193"

/-- An op that `icache_issue_ops` allocates and gives back, since there is none to fetch or the
packet breaks before it. -/
def State.giveBack (s : State) : Except String State := do
  let (p, pool) ← s.pool.allocOp s.opCount s.uniqueCount
  return { s with pool := ← pool.freeOp p }

/-- `update_icache_stage`, with the ops that it fetches, and whether it gives one back at the end.
A packet breaks after `ISSUE_WIDTH` ops. -/
def State.updateIcacheStage (cfg : Config) (s : State) (fetched : List Bool) (back : Bool) :
    Except String State :=
  if s.ic.opCount ≠ 0 then .ok s
  else if fetched.length ≤ cfg.issueWidth then do
    let s ← fetched.foldlM State.issueFetched s
    if back then s.giveBack else return s
  else .error "break"

/-! ## Recovery -/

/-- What a recovery changes when it frees ops: the pool, and the record of the dropped ops. -/
structure Flush where
  pool : Pool
  flushed : List ℕ

/-- `FLUSH_OP`. -/
def flushOp (ops : OpPtr → Op) (r : ℕ) (p : OpPtr) : Bool := r < (ops p).opNum

/-- A flushed op is freed. -/
def Flush.drop (f : Flush) (p : OpPtr) : Except String Flush := do
  return ⟨← f.pool.freeOp p, f.flushed ++ [(f.pool.ops p).uniqueNumPerProc]⟩

/-- The loop of a recovery over the slots of a stage. -/
def recoverSlots (r : ℕ) : List (Option OpPtr) → Flush → Except String (Flush × List (Option OpPtr))
  | [], f => .ok (f, [])
  | none :: slots, f => do
      let (f, slots) ← recoverSlots r slots f
      return (f, none :: slots)
  | some p :: slots, f =>
      if flushOp f.pool.ops r p = true then do
        let (f, slots) ← recoverSlots r slots (← f.drop p)
        return (f, none :: slots)
      else do
        let (f, slots) ← recoverSlots r slots f
        return (f, some p :: slots)

/-- `recover_icache_stage` and `recover_decode_stage`, for one stage: the ops stay in their slots. -/
def recoverStage (r : ℕ) (sd : StageData) (f : Flush) : Except String (Flush × StageData) := do
  let (f, ops) ← recoverSlots r sd.ops f
  return (f, ⟨ops.reduceOption.length, ops⟩)

/-- `recover_map_stage`, for one stage: the ops move to the first slots. -/
def collapseStage (r : ℕ) (sd : StageData) (f : Flush) : Except String (Flush × StageData) := do
  let (f, ops) ← recoverSlots r sd.ops f
  let kept := ops.reduceOption
  return (f, ⟨kept.length, kept.map some ++ List.replicate (sd.ops.length - kept.length) none⟩)

/-- One stage after the other. -/
def recoverStages (recover : StageData → Flush → Except String (Flush × StageData)) :
    List StageData → Flush → Except String (Flush × List StageData)
  | [], f => .ok (f, [])
  | sd :: sds, f => do
      let (f, sd) ← recover sd f
      let (f, sds) ← recoverStages recover sds f
      return (f, sd :: sds)

/-- `flush_window`: the flushed ops are freed, and the others stay in the node table. -/
def flushWindow (r : ℕ) : List OpPtr → Flush → Except String (Flush × List OpPtr)
  | [], f => .ok (f, [])
  | p :: rest, f =>
      if flushOp f.pool.ops r p = true then do flushWindow r rest (← f.drop p)
      else do
        let (f, kept) ← flushWindow r rest f
        return (f, p :: kept)

/-- The loop of `recover_seq_op_list`. -/
def clipAt (ops : OpPtr → Op) (r : ℕ) : List OpPtr → Except String (List OpPtr)
  | [] => .ok []
  | p :: rest =>
      if (ops p).opNum ≤ r then
        if (ops p).opNum = r then .ok [p] else return p :: (← clipAt ops r rest)
      else .error "(*op_p)->op_num <= op_num"

/-- `recover_seq_op_list`. -/
def recoverSeqOpList (ops : OpPtr → Op) (r : ℕ) : List OpPtr → Except String (List OpPtr)
  | [] => .ok []
  | head :: rest =>
      if r < (ops head).opNum then
        if (ops head).opNum = r + 1 then .ok [] else .error "(*op_p)->op_num == op_num + 1"
      else clipAt ops r (head :: rest)

/-- `cmp_recover`, for the stages up to the node stage. -/
def State.cmpRecover (s : State) (r : ℕ) : Except String State := do
  let seqOpList ← recoverSeqOpList s.pool.ops r s.seqOpList
  let (f, ic) ← recoverStage r s.ic ⟨s.pool, s.flushed⟩
  let (f, dec) ← recoverStages (recoverStage r) s.dec f
  let (f, map) ← recoverStages (collapseStage r) s.map f
  let (f, nodeList) ← flushWindow r s.nodeList f
  return { s with
    pool := f.pool, flushed := f.flushed, seqOpList, ic, dec, map, nodeList, opCount := r + 1 }

/-! ## The steps -/

/-- What happens to a core. -/
inductive Event where
  /-- `cmp_cores`: how many ops are ready to retire, and what is fetched. -/
  | cycle (retires : ℕ) (fetched : List Bool) (back : Bool)
  /-- `cmp_recover`, for an op in flight or the one that retired last. -/
  | recover (r : ℕ)
  /-- Another core allocates an op. -/
  | alloc
  /-- Another core frees an op. -/
  | free (p : OpPtr)
  deriving DecidableEq, Repr

/-- `cmp_cores`, for the stages up to the node stage. -/
def State.runCycle (cfg : Config) (s : State) (retires : ℕ) (fetched : List Bool) (back : Bool) :
    Except String State := do
  let s := { s with cycle := s.cycle + 1 }
  let s ← s.nodeIssue cfg
  let s ← (List.range retires).foldlM (fun s _ => s.retireOp) s
  let s ← s.updateMapStage
  let s ← s.updateDecodeStage
  s.updateIcacheStage cfg fetched back

def State.step (cfg : Config) (s : State) : Event → Except String State
  | .cycle retires fetched back => s.runCycle cfg retires fetched back
  | .recover r =>
      if s.retOp ≤ r + 1 ∧ r < s.opCount then s.cmpRecover r else .error "recovery_op"
  | .alloc => do
      let (p, pool) ← s.pool.allocOp 0 0
      return { s with pool, others := p :: s.others }
  | .free p =>
      if p ∈ s.others then return { s with pool := ← s.pool.freeOp p, others := s.others.erase p }
      else .error "other core"

/-- Some run of a core leads here. -/
def Reachable (cfg : Config) (s : State) : Prop :=
  ∃ start events, State.init cfg = .ok start ∧ Execution.run (State.step cfg) start events = .ok s

end Scarab.FrontEnd
