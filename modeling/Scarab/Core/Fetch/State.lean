import Mathlib.Algebra.Group.Nat.Defs
import Mathlib.Data.List.Infix
import Scarab.Core.Map.State
import Scarab.Lib.Execution

/-! # Fetching

`icache_stage.c` and `packet_build.c` in front of the trace frontend (`pin_trace_fe.c` and
`uop_generator.c`), which needs `FETCH_OFF_PATH_OPS` off. -/

namespace Scarab.Fetch

open Map (MemType addrPlusOffset)

/-! ## Ops -/

/-- `Cf_Type`. -/
inductive CfType where
  | notCf
  | br
  | cbr
  | call
  | ibr
  | icall
  | ico
  | ret
  | sys
  deriving DecidableEq, Repr

/-- `OP_CF`. -/
def opCf : ℕ := 2

/-- What the frontend sets in an `Op`. -/
structure Op where
  addr : Addr
  instSize : Addr
  eom : Bool
  opType : ℕ
  memType : MemType
  cfType : CfType
  /-- `bar_type & BAR_FETCH`. -/
  barFetch : Bool
  va : Addr
  dir : Bool
  npc : Addr
  exit : Bool
  deriving DecidableEq, Repr

/-- `IS_CALLSYS(op->table_info) || op->table_info->bar_type & BAR_FETCH`. -/
def Op.isBarrier (op : Op) : Bool := op.cfType = .sys || op.barFetch

/-- `ADDR_PLUS_OFFSET(addr, inst_size)`. -/
def Op.pcPlusOffset (op : Op) : Addr := addrPlusOffset op.addr op.instSize

/-! ## The trace frontend -/

/-- `convert_to_cmp_addr`. -/
def convertToCmpAddr (procId : Uns8) (addr : Addr) : Addr :=
  let mask := ~~~(0 : Addr) <<< 58
  (if addr &&& mask ≠ 0 then addr &&& ~~~mask else addr) ||| procId.setWidth 64 <<< 58

/-- A uop of an instruction, as `generate_uops` makes it, with its address in the memory. -/
structure TraceUop where
  opType : ℕ
  memType : MemType
  cfType : CfType
  va : Addr
  deriving DecidableEq, Repr

/-- `ctype_pin_inst`; there is at least one uop (`ASSERT(proc_id, num_uop > 0)`). -/
structure PinInst where
  instructionAddr : Addr
  instructionNextAddr : Addr
  size : Addr
  isString : Bool
  actuallyTaken : Bool
  isIfetchBarrier : Bool
  exit : Bool
  firstUop : TraceUop
  moreUops : List TraceUop
  deriving DecidableEq, Repr

/-- `actually_taken`, which a string instruction is when it repeats. -/
def PinInst.taken (pi : PinInst) : Bool :=
  if pi.isString then pi.instructionAddr == pi.instructionNextAddr else pi.actuallyTaken

/-- A uop with what `convert_pinuop_to_t_uop` and `convert_dyn_uop` take from the instruction. -/
def PinInst.traceUop (procId : Uns8) (pi : PinInst) (isLastUop : Bool) (uop : TraceUop) : Op :=
  let addr := convertToCmpAddr procId pi.instructionAddr
  { addr
    instSize := pi.size
    eom := isLastUop
    opType := uop.opType
    memType := uop.memType
    cfType := uop.cfType
    barFetch := isLastUop && pi.isIfetchBarrier
    va := if uop.memType = .ld ∨ uop.memType = .st then convertToCmpAddr procId uop.va else 0
    dir := uop.opType = opCf && pi.taken || uop.cfType = .icall || uop.cfType = .ibr || uop.cfType = .ico
    npc := if isLastUop then convertToCmpAddr procId pi.instructionNextAddr else addr
    exit := isLastUop && pi.exit }

/-- `convert_pinuop_to_t_uop`: only the last uop has `eom`. -/
def PinInst.traceUops (procId : Uns8) (pi : PinInst) : List Op :=
  (pi.firstUop :: pi.moreUops).dropLast.map (pi.traceUop procId false) ++
    [pi.traceUop procId true ((pi.firstUop :: pi.moreUops).getLast (by simp))]

/-- The frontend of a core. -/
structure TraceFe where
  nextPi : PinInst
  /-- The instructions behind it in the trace. -/
  trace : List PinInst
  traceUopBulk : List Op
  numSendingUop : ℕ
  bom : Bool
  eom : Bool
  lastGaVa : Addr
  traceReadDone : Bool
  deriving DecidableEq, Repr

/-- `trace_setup`, for a trace that is not empty. -/
def TraceFe.init (pi : PinInst) (trace : List PinInst) : TraceFe where
  nextPi := pi
  trace
  traceUopBulk := []
  numSendingUop := 0
  bom := true
  eom := true
  lastGaVa := 0
  traceReadDone := false

/-- `trace_next_fetch_addr`. -/
def TraceFe.nextFetchAddr (procId : Uns8) (fe : TraceFe) : Addr :=
  convertToCmpAddr procId fe.nextPi.instructionAddr

/-- `trace_can_fetch_op`. -/
def TraceFe.canFetchOp (fe : TraceFe) : Bool := !(fe.eom && fe.traceReadDone)

/-- `uop_generator_get_uop`. -/
def TraceFe.getUop (procId : Uns8) (fe : TraceFe) : Except String (Op × TraceFe) :=
  let bulk := if fe.bom then fe.nextPi.traceUops procId else fe.traceUopBulk
  let sending := if fe.bom then 0 else fe.numSendingUop
  match bulk[sending]? with
  | none => .error "trace_uop"
  | some uop =>
      let va := if uop.memType ≠ .notMem ∧ uop.va = 0 then fe.lastGaVa else uop.va
      .ok ({ uop with va }, { fe with
        traceUopBulk := bulk
        numSendingUop := sending + 1
        eom := uop.eom
        bom := uop.eom
        lastGaVa := if va ≠ 0 then va else fe.lastGaVa })

/-- `trace_fetch_op`. -/
def TraceFe.fetchOp (procId : Uns8) (fe : TraceFe) : Except String (Op × TraceFe) :=
  if fe.bom && fe.traceReadDone then .error "!trace_read_done[proc_id] && !reached_exit[proc_id]"
  else do
    let (op, fe) ← fe.getUop procId
    if fe.eom then
      match fe.trace with
      | [] => return ({ op with exit := true }, { fe with traceReadDone := true })
      | pi :: trace => return (op, { fe with nextPi := pi, trace })
    else return (op, fe)

/-! ## Packets -/

/-- `Fu`, one of the types of functional units that a packet can use. -/
structure Fu where
  type : ℕ
  max : ℕ
  count : ℕ
  deriving DecidableEq, Repr

/-- The knobs that fetching reads. -/
structure Config where
  procId : Uns8
  issueWidth : ℕ
  /-- 0 is no limit. -/
  numLoadStorePerPacket : ℕ
  packetBreakOnFus : Bool
  /-- The types and numbers of `PACKET_BREAK_FU_TYPES`. -/
  fuInfo : List Fu
  enableIcachePacketBreaking : Bool
  cfsPerCycle : ℕ
  icacheLineSize : Addr
  fetchAcrossCacheLines : Bool
  fetchBreakOnTaken : Bool
  fetchTakenBubbleCycles : ℕ
  useLateBp : Bool

/-- `Break_Reason`, with the literal 100 of `packet_build`. -/
inductive BreakReason where
  | dont
  | issueWidth
  | cf
  | btbMiss
  | icacheMiss
  | lineEnd
  | barrier
  | offpath
  | taken
  | modelBefore
  | hundred
  deriving DecidableEq, Repr

/-- `Packet_Build_Condition`. -/
inductive PacketBuildCondition where
  | dont
  | before
  | after
  deriving DecidableEq, Repr

/-- `Pb_Data` of the icache stage. -/
structure PbData where
  numLoadStore : ℕ
  numCf : ℕ
  fuInfo : List Fu
  deriving DecidableEq, Repr

/-- `reset_packet_build`. -/
def PbData.reset (cfg : Config) (pb : PbData) : PbData where
  numLoadStore := 0
  numCf := 0
  fuInfo := if cfg.packetBreakOnFus then pb.fuInfo.map fun fu => { fu with count := 0 } else pb.fuInfo

/-- The search for an available functional unit: the first type that can take the op decides. -/
def takeFu (op : Op) : List Fu → Option (List Fu)
  | [] => some []
  | fu :: fus =>
      if (1 <<< op.opType) &&& fu.type ≠ 0 then
        if fu.count < fu.max then some ({ fu with count := fu.count + 1 } :: fus) else none
      else (fu :: ·) <$> takeFu op fus

/-- The op as one more load or store of the packet. -/
def PbData.countLoadStore (cfg : Config) (pb : PbData) (op : Op) : PbData :=
  if cfg.numLoadStorePerPacket ≠ 0 ∧ op.memType ≠ .notMem then
    { pb with numLoadStore := pb.numLoadStore + 1 }
  else pb

/-- `packet_build`, for a break hook of the model with the result `hook`. -/
def packetBuild (cfg : Config) (pb : PbData) (breakFetch : BreakReason) (op : Op) (hook : Bool)
    (sdOpCount : ℕ) : PacketBuildCondition × BreakReason × PbData :=
  let pb := pb.countLoadStore cfg op
  if cfg.numLoadStorePerPacket ≠ 0 ∧ cfg.numLoadStorePerPacket < pb.numLoadStore then
    (.before, .hundred, pb)
  else match if cfg.packetBreakOnFus then takeFu op pb.fuInfo else some pb.fuInfo with
  | none => (.before, .hundred, pb)
  | some fuInfo =>
      let pb := { pb with fuInfo }
      if hook then (.before, .modelBefore, pb)
      else if op.isBarrier then (.after, .barrier, pb)
      else
        let pb := if cfg.enableIcachePacketBreaking ∧ op.cfType ≠ .notCf then
          { pb with numCf := pb.numCf + 1 } else pb
        let offset := op.addr - (op.addr &&& ~~~(cfg.icacheLineSize - 1))
        if cfg.enableIcachePacketBreaking ∧ pb.numCf = cfg.cfsPerCycle then (.after, .cf, pb)
        else if cfg.enableIcachePacketBreaking ∧ cfg.icacheLineSize ≤ offset ∧
            cfg.fetchAcrossCacheLines = false then (.after, .lineEnd, pb)
        else if sdOpCount + 1 = cfg.issueWidth then (.after, .issueWidth, pb)
        else if cfg.enableIcachePacketBreaking ∧ op.cfType ≠ .notCf then (.after, breakFetch, pb)
        else (.dont, breakFetch, pb)

/-! ## Branches -/

/-- What the predictors say of a control flow op. -/
structure Guess where
  pred : Bool
  predTarget : Addr
  btbMiss : Bool
  latePred : Bool
  deriving DecidableEq, Repr

/-- What `bp_predict_op` sets in an op. -/
structure Branch where
  pred : Bool
  predNpc : Addr
  mispred : Bool
  misfetch : Bool
  lateMispred : Bool
  lateMisfetch : Bool
  btbMiss : Bool
  npc : Addr
  deriving DecidableEq, Repr

/-- `bp_predict_op`. -/
def bpPredictOp (op : Op) (guess : Guess) : Branch :=
  if op.cfType = .sys then
    { pred := true
      predNpc := op.npc
      mispred := false
      misfetch := false
      lateMispred := false
      lateMisfetch := false
      btbMiss := false
      npc := op.npc }
  else
    let prediction := if guess.pred then guess.predTarget else op.pcPlusOffset
    let latePrediction := if guess.latePred then guess.predTarget else op.pcPlusOffset
    let mispred := guess.pred != op.dir && prediction != op.npc
    let lateMispred := guess.latePred != op.dir && latePrediction != op.npc
    { pred := guess.pred
      predNpc := prediction
      mispred
      misfetch := !mispred && prediction != op.npc
      lateMispred
      lateMisfetch := !lateMispred && latePrediction != op.npc
      btbMiss := guess.btbMiss
      npc := op.npc }

/-- `mispred || misfetch || (USE_LATE_BP && (late_mispred || late_misfetch))`. -/
def Branch.isWrong (cfg : Config) (b : Branch) : Bool :=
  b.mispred || b.misfetch || cfg.useLateBp && (b.lateMispred || b.lateMisfetch)

/-! ## The icache stage -/

/-- `Icache_State`. -/
inductive IcacheState where
  | fetch
  | waitForMiss
  | waitForRedirect
  | waitForEmptyRob
  | waitForTimer
  deriving DecidableEq, Repr

/-- Where `update_icache_stage` is. -/
inductive Pc where
  /-- It is not running. -/
  | idle
  /-- At the head of `while(!break_fetch)`. -/
  | line
  /-- At the head of the loop of `icache_issue_ops`. -/
  | issue
  deriving DecidableEq, Repr

/-- A core that fetches on the path of its trace. -/
structure State where
  fe : TraceFe
  pb : PbData
  pc : Pc
  breakFetch : BreakReason
  icState : IcacheState
  nextState : IcacheState
  fetchAddr : Addr
  nextFetchAddr : Addr
  offPath : Bool
  backOnPath : Bool
  timerCycle : ℕ
  cycle : ℕ
  /-- `ic->sd.op_count`. -/
  sdOpCount : ℕ
  seqOpListCount : ℕ
  opPoolActiveOps : ℕ
  /-- The op that was fetched last, if it is a control flow op that was predicted. -/
  branch : Option Branch
  redirectScheduled : Bool
  /-- The ops that `frontend_fetch_op` returned, oldest first. No operation reads it. -/
  fetched : List Op
  /-- The ops that were put on the sequential op list, oldest first. No operation reads it. -/
  issued : List Op
  deriving DecidableEq, Repr

/-- `init_icache_trace`. -/
def State.init (cfg : Config) (pi : PinInst) (trace : List PinInst) : State where
  fe := .init pi trace
  pb := ⟨0, 0, cfg.fuInfo⟩
  pc := .idle
  breakFetch := .dont
  icState := .fetch
  nextState := .fetch
  fetchAddr := 0
  nextFetchAddr := (TraceFe.init pi trace).nextFetchAddr cfg.procId
  offPath := false
  backOnPath := false
  timerCycle := 0
  cycle := 0
  sdOpCount := 0
  seqOpListCount := 0
  opPoolActiveOps := 0
  branch := none
  redirectScheduled := false
  fetched := []
  issued := []

/-- `icache_issue_ops` returns to the loop of `update_icache_stage`. -/
def State.returnTo (s : State) (next : IcacheState) : State :=
  { s with nextState := next, pc := if s.breakFetch = .dont then .line else .idle }

/-- After the loop of `icache_issue_ops`. -/
def State.endOfPacket (s : State) : State :=
  s.returnTo (if s.breakFetch = .barrier then .waitForEmptyRob else .fetch)

/-- The op goes on the sequential op list and into the exit list. -/
def State.addToSeqOpList (s : State) (op : Op) : State :=
  { s with
    seqOpListCount := s.seqOpListCount + 1
    opPoolActiveOps := s.opPoolActiveOps + 1
    sdOpCount := s.sdOpCount + 1
    branch := none
    redirectScheduled := false
    issued := s.issued ++ [op] }

/-- A mispredicted op kicks the fetch off the path. -/
def State.markBranch (cfg : Config) (s : State) (b : Branch) : State :=
  { s with
    branch := some b
    offPath := s.offPath || b.isWrong cfg
    breakFetch := if b.isWrong cfg then .offpath else s.breakFetch }

/-- What follows a control flow op in the loop of `icache_issue_ops`. -/
def State.afterBranch (cfg : Config) (s : State) (packetBreak : PacketBuildCondition) (b : Branch) : State :=
  let s := s.markBranch cfg b
  if b.btbMiss then
    ({ s with breakFetch := .btbMiss, redirectScheduled := true }).returnTo .waitForRedirect
  else if cfg.fetchBreakOnTaken ∧ b.pred ∧ s.breakFetch ≠ .barrier then
    if 1 ≤ cfg.fetchTakenBubbleCycles then
      ({ s with breakFetch := .taken, timerCycle := s.cycle + cfg.fetchTakenBubbleCycles }).returnTo
        .waitForTimer
    else ({ s with breakFetch := .taken }).returnTo .fetch
  else if packetBreak = .after ∨ b.isWrong cfg then s.endOfPacket
  else s

/-- What follows an op in the loop of `icache_issue_ops`. For a fetch barrier the predictors are
updated only. -/
def State.afterOp (cfg : Config) (s : State) (packetBreak : PacketBuildCondition) (op : Op)
    (guess : Guess) : State :=
  if op.cfType ≠ .notCf then
    let b := bpPredictOp op guess
    if s.breakFetch = .barrier then
      ({ s with nextFetchAddr := addrPlusOffset s.nextFetchAddr op.instSize }).afterBranch cfg
        packetBreak { b with mispred := false, misfetch := false, btbMiss := false }
    else
      ({ s with nextFetchAddr := convertToCmpAddr cfg.procId b.predNpc }).afterBranch cfg packetBreak b
  else
    let s := { s with
      nextFetchAddr := if op.eom then addrPlusOffset s.nextFetchAddr op.instSize else s.nextFetchAddr }
    if packetBreak = .after then s.endOfPacket else s

/-- The loop of `icache_issue_ops`, once round: what the predictors say of a control flow op, and
whether the hook of the model breaks the packet before the op. -/
def State.issueOp (cfg : Config) (guess : Guess) (hook : Bool) (s : State) : Except String State :=
  if s.fe.canFetchOp = true then do
    let (op, fe) ← s.fe.fetchOp cfg.procId
    if s.nextFetchAddr ≠ op.addr then .error "Fetch address does not match op address"
    else if (op.memType = .ld ∨ op.memType = .st) ∧ op.va = 0 then .error "Access to 0x0"
    else
      let (packetBreak, breakFetch, pb) := packetBuild cfg s.pb s.breakFetch op hook s.sdOpCount
      let s := { s with fe, pb, breakFetch, fetched := s.fetched ++ [op] }
      -- the op is freed
      if packetBreak = .before then return s.endOfPacket
      else if s.seqOpListCount + 1 ≤ s.opPoolActiveOps + 1 then
        return (s.addToSeqOpList op).afterOp cfg packetBreak op guess
      else .error "td->seq_op_list.count <= op_pool_active_ops"
  else .ok ({ s with breakFetch := .barrier }.returnTo .fetch)

/-- `update_icache_stage`, up to its loop in the state `IC_FETCH`. -/
def State.updateIcacheStage (cfg : Config) (s : State) : State :=
  let s := { s with icState := s.nextState }
  if s.sdOpCount ≠ 0 then s
  else match s.icState with
  | .fetch =>
      let s := { s with offPath := s.offPath && !s.backOnPath, backOnPath := false }
      if s.offPath then s else { s with pb := s.pb.reset cfg, breakFetch := .dont, pc := .line }
  | .waitForMiss | .waitForRedirect => s
  | .waitForEmptyRob => if s.seqOpListCount = 0 then { s with nextState := .fetch } else s
  | .waitForTimer => if s.timerCycle ≤ s.cycle then { s with nextState := .fetch } else s

/-- The access to the icache: a hit, or a miss with a request that the memory takes or not. -/
def State.accessLine (hit accepted : Bool) (s : State) : State :=
  let s := { s with fetchAddr := s.nextFetchAddr }
  if hit then { s with pc := .issue }
  else
    { s with
      nextState := if accepted then .waitForMiss else s.nextState
      breakFetch := .icacheMiss, pc := .idle }

/-- `recover_icache_stage`, for the op that was fetched last; `cmp_recover` takes back a redirect. -/
def State.recoverIcacheStage (s : State) (b : Branch) : State :=
  { s with
    backOnPath := true
    nextState := if s.nextState = .waitForMiss then .waitForMiss else .fetch
    nextFetchAddr := b.npc
    redirectScheduled := false }

/-- `redirect_icache_stage`. -/
def State.redirectIcacheStage (cfg : Config) (s : State) (b : Branch) : Except String State :=
  if s.icState = .waitForRedirect then
    .ok { s with
      backOnPath := !b.isWrong cfg
      nextFetchAddr := b.predNpc
      nextState := .fetch
      redirectScheduled := false }
  else .error "ic->state == IC_WAIT_FOR_REDIRECT"

/-! ## The steps -/

/-- What happens, in any order. -/
inductive Event where
  | cycle
  | update
  | access (hit accepted : Bool)
  | issue (guess : Guess) (hook : Bool)
  /-- The stage behind takes the ops. -/
  | drain
  /-- The op at the head of the sequential op list retires. -/
  | retire
  /-- `icache_fill_line`. -/
  | fill
  | recover
  | redirect
  deriving DecidableEq, Repr

def State.step (cfg : Config) (s : State) : Event → Except String State
  | .cycle => .ok { s with cycle := s.cycle + 1 }
  | .update => if s.pc = .idle then .ok (s.updateIcacheStage cfg) else .error "pc"
  | .access hit accepted => if s.pc = .line then .ok (s.accessLine hit accepted) else .error "pc"
  | .issue guess hook => if s.pc = .issue then s.issueOp cfg guess hook else .error "pc"
  | .drain => if s.pc = .idle then .ok { s with sdOpCount := 0 } else .error "pc"
  | .retire =>
      if s.pc = .idle ∧ 0 < s.seqOpListCount ∧ 0 < s.opPoolActiveOps then
        .ok { s with
          seqOpListCount := s.seqOpListCount - 1, opPoolActiveOps := s.opPoolActiveOps - 1 }
      else .error "retire"
  | .fill =>
      if s.pc = .idle ∧ s.nextState = .waitForMiss then .ok { s with nextState := .fetch }
      else .error "fill"
  | .recover =>
      match s.branch with
      | some b =>
          if s.pc = .idle ∧ (b.mispred || b.misfetch) = true then .ok (s.recoverIcacheStage b)
          else .error "recover"
      | none => .error "recover"
  | .redirect =>
      match s.branch with
      | some b =>
          if s.pc = .idle ∧ s.redirectScheduled = true then s.redirectIcacheStage cfg b
          else .error "redirect"
      | none => .error "redirect"

def Reachable (cfg : Config) (pi : PinInst) (trace : List PinInst) (s : State) : Prop :=
  ∃ events, Execution.run (State.step cfg) (.init cfg pi trace) events = .ok s

end Scarab.Fetch
