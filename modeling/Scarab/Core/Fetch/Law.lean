import Scarab.Core.Fetch.State

/-! # Which ops the fetch loses

The frontend only moves forward, so an op that `packet_build` refuses is lost. Where it refuses
none, the ops come as they are in the trace, each at the address where the one before leads. -/

namespace Scarab.Fetch

open Map (MemType addrPlusOffset)

variable {cfg : Config} {procId : Uns8} {pi : PinInst} {trace : List PinInst} {s t : State}
  {fe fe' : TraceFe} {op : Op} {guess : Guess} {hook : Bool} {e : Event}

/-! ## The trace frontend -/

/-- The op without what depends on the ops before it and on the end of the trace. -/
def Op.static (op : Op) : Op := { op with va := 0, exit := false }

/-- The uops of the trace, in its order. -/
def traceOps (procId : Uns8) (pis : List PinInst) : List Op := pis.flatMap (PinInst.traceUops procId)

/-- The uops that the frontend did not deliver yet. -/
def TraceFe.remaining (procId : Uns8) (fe : TraceFe) : List Op :=
  if fe.eom then if fe.traceReadDone then [] else traceOps procId (fe.nextPi :: fe.trace)
  else fe.traceUopBulk.drop fe.numSendingUop ++ traceOps procId fe.trace

theorem traceUops_split (procId : Uns8) (pi : PinInst) : ∃ pre last, pi.traceUops procId = pre ++ [last] ∧
    (∀ op ∈ pre, op.eom = false) ∧ last.eom = true := by
  refine ⟨_, _, rfl, fun op hop => ?_, rfl⟩
  obtain ⟨uop, _, rfl⟩ := List.mem_map.mp hop
  rfl

/-- What holds of the frontend between two ops. -/
structure TraceFe.Inv (procId : Uns8) (fe : TraceFe) : Prop where
  bom : fe.bom = fe.eom
  sending : fe.eom = false → fe.traceReadDone = false ∧ ∃ pi : PinInst,
    fe.traceUopBulk = pi.traceUops procId ∧ fe.numSendingUop < fe.traceUopBulk.length

theorem TraceFe.Inv.init (procId : Uns8) (pi : PinInst) (trace : List PinInst) :
    (TraceFe.init pi trace).Inv procId :=
  ⟨rfl, fun h => by cases h⟩

/-- The uop at a place of an instruction: the last one has `eom`. -/
theorem traceUops_eom {pi : PinInst} {n : ℕ} (h : (pi.traceUops procId)[n]? = some op) :
    if op.eom then (pi.traceUops procId).drop (n + 1) = [] else n + 1 < (pi.traceUops procId).length := by
  obtain ⟨pre, last, hsplit, hpre, hlast⟩ := traceUops_split procId pi
  rw [hsplit] at h ⊢
  by_cases hn : n < pre.length
  · rw [List.getElem?_append_left hn] at h
    rw [if_neg (by simp [hpre op (List.mem_of_getElem? h)]), List.length_append]
    simpa using hn
  · rw [List.getElem?_append_right (Nat.le_of_not_lt hn)] at h
    have hzero : n - pre.length = 0 := by
      by_contra hne
      rw [List.getElem?_eq_none (by simp; omega)] at h
      cases h
    rw [hzero] at h
    obtain rfl : last = op := by simpa using h
    rw [if_pos hlast]
    simp
    omega

/-- The instruction that is being delivered, and the place of the next uop in it. -/
theorem TraceFe.Inv.next (h : fe.Inv procId) (hcan : fe.canFetchOp = true) :
    fe.traceReadDone = false ∧ ∃ pi : PinInst, ∃ n,
      (if fe.bom then fe.nextPi.traceUops procId else fe.traceUopBulk) = pi.traceUops procId ∧
      (if fe.bom then 0 else fe.numSendingUop) = n ∧ n < (pi.traceUops procId).length ∧
      fe.remaining procId = (pi.traceUops procId).drop n ++ traceOps procId fe.trace := by
  cases heom : fe.eom with
  | true =>
      have hread : fe.traceReadDone = false := by simpa [TraceFe.canFetchOp, heom] using hcan
      have hbom : fe.bom = true := h.bom.trans heom
      refine ⟨hread, fe.nextPi, 0, by rw [if_pos hbom], by rw [if_pos hbom], ?_, ?_⟩
      · obtain ⟨pre, last, hsplit, _⟩ := traceUops_split procId fe.nextPi
        simp [hsplit]
      · simp [TraceFe.remaining, heom, hread, traceOps]
  | false =>
      obtain ⟨hread, pi, hbulk, hlt⟩ := h.sending heom
      have hbom : ¬ fe.bom = true := by simp [h.bom, heom]
      refine ⟨hread, pi, fe.numSendingUop, by rw [if_neg hbom, hbulk], by rw [if_neg hbom], ?_, ?_⟩
      · rw [← hbulk]
        exact hlt
      · simp [TraceFe.remaining, heom, hbulk]

theorem TraceFe.getUop_eq {uop : Op} {bulk : List Op} {n : ℕ}
    (hbulk : (if fe.bom then fe.nextPi.traceUops procId else fe.traceUopBulk) = bulk)
    (hn : (if fe.bom then 0 else fe.numSendingUop) = n) (huop : bulk[n]? = some uop) :
    ∃ va lastGaVa, fe.getUop procId = .ok ({ uop with va }, { fe with
      traceUopBulk := bulk, numSendingUop := n + 1, eom := uop.eom, bom := uop.eom, lastGaVa }) :=
  ⟨_, _, by simp only [TraceFe.getUop, hbulk, hn, huop]; rfl⟩

/-- The frontend delivers the next uop of the trace. -/
theorem TraceFe.Inv.fetchOp (h : fe.Inv procId) (hcan : fe.canFetchOp = true) :
    ∃ op fe', fe.fetchOp procId = .ok (op, fe') ∧ fe'.Inv procId ∧
      ∃ uop, fe.remaining procId = uop :: fe'.remaining procId ∧ op.static = uop.static := by
  obtain ⟨hread, pi, n, hbulk, hn, hlt, hremaining⟩ := h.next hcan
  have huop := List.getElem?_eq_getElem hlt
  have heom := traceUops_eom huop
  rw [List.drop_eq_getElem_cons hlt, List.cons_append] at hremaining
  generalize (pi.traceUops procId)[n] = uop at huop heom hremaining
  obtain ⟨va, lastGaVa, hget⟩ := TraceFe.getUop_eq hbulk hn huop
  simp only [TraceFe.fetchOp, hread, Bool.and_false, Bool.false_eq_true, if_false, hget, bind, Except.bind]
  cases hlast : uop.eom with
  | true =>
      rw [hlast, if_pos rfl] at heom
      rw [heom, List.nil_append] at hremaining
      cases htrace : fe.trace with
      | nil =>
          refine ⟨_, _, rfl, ⟨rfl, fun hfalse => ?_⟩, uop, ?_, ?_⟩
          · cases hfalse
          · rw [hremaining, htrace]
            rfl
          · simp [Op.static, hlast]
      | cons pi' trace =>
          refine ⟨_, _, rfl, ⟨rfl, fun hfalse => ?_⟩, uop, ?_, ?_⟩
          · cases hfalse
          · rw [hremaining, htrace]
            simp [TraceFe.remaining]
          · simp [Op.static, hlast]
  | false =>
      rw [hlast, if_neg (by simp)] at heom
      refine ⟨_, _, rfl, ⟨rfl, fun _ => ⟨rfl, pi, rfl, heom⟩⟩, uop, ?_, ?_⟩
      · rw [hremaining]
        rfl
      · simp [Op.static, hlast]

/-! ## Packets -/

/-- The packet ends before the op: it has the loads and stores of a packet already, the type of
functional units that the op needs is used up, or the hook of the model breaks. -/
def breaksBefore (cfg : Config) (pb : PbData) (op : Op) (hook : Bool) : Bool :=
  let pb := pb.countLoadStore cfg op
  decide (cfg.numLoadStorePerPacket ≠ 0 ∧ cfg.numLoadStorePerPacket < pb.numLoadStore) ||
    (cfg.packetBreakOnFus && (takeFu op pb.fuInfo).isNone) || hook

/-- What `packet_build` says of an op. -/
structure Built (op : Op) (breaks : Bool) (out : PacketBuildCondition × BreakReason × PbData) : Prop where
  before : out.1 = .before ↔ breaks = true
  barrier : out.2.1 = .barrier ↔ breaks = false ∧ op.isBarrier = true
  dont : out.1 = .dont → out.2.1 = .dont

theorem packetBuild_built (cfg : Config) (pb : PbData) (op : Op) (hook : Bool) (n : ℕ) :
    Built op (breaksBefore cfg pb op hook) (packetBuild cfg pb .dont op hook n) := by
  unfold packetBuild breaksBefore
  by_cases hload : cfg.numLoadStorePerPacket ≠ 0 ∧
      cfg.numLoadStorePerPacket < (pb.countLoadStore cfg op).numLoadStore
  · simp only [if_pos hload, decide_eq_true hload, Bool.true_or]
    exact ⟨by simp, by simp, by simp⟩
  simp only [if_neg hload, decide_eq_false hload, Bool.false_or]
  have hfu : (if cfg.packetBreakOnFus = true then takeFu op (pb.countLoadStore cfg op).fuInfo
      else some (pb.countLoadStore cfg op).fuInfo).isNone =
        (cfg.packetBreakOnFus && (takeFu op (pb.countLoadStore cfg op).fuInfo).isNone) := by
    cases cfg.packetBreakOnFus <;> rfl
  rw [← hfu]
  cases if cfg.packetBreakOnFus = true then takeFu op (pb.countLoadStore cfg op).fuInfo
      else some (pb.countLoadStore cfg op).fuInfo with
  | none => exact ⟨by simp, by simp, by simp⟩
  | some fuInfo =>
      cases hook with
      | true => exact ⟨by simp, by simp, by simp⟩
      | false =>
          by_cases hbar : op.isBarrier = true
          · simp only [if_pos hbar, Bool.false_eq_true, if_false]
            exact ⟨by simp, by simp [hbar], by simp⟩
          · simp only [if_neg hbar, Bool.false_eq_true, if_false]
            split_ifs <;> exact ⟨by simp, by simp [hbar], by simp⟩

/-! ## The sequential op list -/

/-- No op comes that the packet ends before. -/
def Event.FitsPacket (cfg : Config) (s : State) (e : Event) : Prop :=
  ∀ guess hook op fe, e = .issue guess hook → s.fe.canFetchOp = true →
    s.fe.fetchOp cfg.procId = .ok (op, fe) → breaksBefore cfg s.pb op hook = false

/-- The ops that came are the same. -/
structure SameOps (s t : State) : Prop where
  fe : t.fe = s.fe
  fetched : t.fetched = s.fetched
  issued : t.issued = s.issued

theorem afterBranch_ops (cfg : Config) (s : State) (packetBreak : PacketBuildCondition) (b : Branch) :
    SameOps s (s.afterBranch cfg packetBreak b) := by
  unfold State.afterBranch
  dsimp only
  split_ifs <;> exact ⟨rfl, rfl, rfl⟩

theorem afterOp_ops (cfg : Config) (s : State) (packetBreak : PacketBuildCondition) (op : Op) (guess : Guess) :
    SameOps s (s.afterOp cfg packetBreak op guess) := by
  unfold State.afterOp
  dsimp only
  split_ifs
  · obtain ⟨hfe, hfetched, hissued⟩ := afterBranch_ops cfg
      { s with nextFetchAddr := addrPlusOffset s.nextFetchAddr op.instSize } packetBreak
      { bpPredictOp op guess with mispred := false, misfetch := false, btbMiss := false }
    exact ⟨hfe, hfetched, hissued⟩
  · obtain ⟨hfe, hfetched, hissued⟩ := afterBranch_ops cfg
      { s with nextFetchAddr := convertToCmpAddr cfg.procId (bpPredictOp op guess).predNpc } packetBreak
      (bpPredictOp op guess)
    exact ⟨hfe, hfetched, hissued⟩
  all_goals exact ⟨rfl, rfl, rfl⟩

/-- The state in which an op that was fetched goes on the list or not. -/
def State.withOp (s : State) (op : Op) (fe : TraceFe) (breakFetch : BreakReason) (pb : PbData) : State :=
  { s with fe, pb, breakFetch, fetched := s.fetched ++ [op] }

/-- The loop of `icache_issue_ops`, once round: the frontend has no op, the packet ends before the
op, or the op goes on the list. -/
theorem issueOp_cases (hissue : s.issueOp cfg guess hook = .ok t) :
    (s.fe.canFetchOp = false ∧ t = { s with breakFetch := .barrier }.returnTo .fetch) ∨
    ∃ op fe packetBreak breakFetch pb, s.fe.canFetchOp = true ∧ s.fe.fetchOp cfg.procId = .ok (op, fe) ∧
      s.nextFetchAddr = op.addr ∧
      packetBuild cfg s.pb s.breakFetch op hook s.sdOpCount = (packetBreak, breakFetch, pb) ∧
      if packetBreak = .before then t = (s.withOp op fe breakFetch pb).endOfPacket
      else t = ((s.withOp op fe breakFetch pb).addToSeqOpList op).afterOp cfg packetBreak op guess := by
  unfold State.issueOp at hissue
  by_cases hcan : s.fe.canFetchOp = true
  · rw [if_pos hcan] at hissue
    obtain ⟨⟨op, fe⟩, hop, hissue⟩ := Execution.bind_eq_ok.mp hissue
    by_cases haddr : s.nextFetchAddr ≠ op.addr
    · simp only [if_pos haddr] at hissue
      cases hissue
    simp only [if_neg haddr] at hissue
    by_cases hva : (op.memType = .ld ∨ op.memType = .st) ∧ op.va = 0
    · simp only [if_pos hva] at hissue
      cases hissue
    simp only [if_neg hva] at hissue
    generalize hbuilt : packetBuild cfg s.pb s.breakFetch op hook s.sdOpCount = built at hissue
    obtain ⟨packetBreak, breakFetch, pb⟩ := built
    refine .inr ⟨op, fe, packetBreak, breakFetch, pb, hcan, hop, not_not.mp haddr, hbuilt, ?_⟩
    by_cases hbefore : packetBreak = .before
    · simp only [if_pos hbefore] at hissue ⊢
      cases hissue
      rfl
    · simp only [if_neg hbefore] at hissue ⊢
      obtain ⟨_, hissue⟩ := Execution.ite_error_eq_ok.mp hissue
      cases hissue
      rfl
  · rw [if_neg hcan] at hissue
    cases hissue
    exact .inl ⟨by simpa using hcan, rfl⟩

/-! ## Every run -/

/-- What holds in every state: the frontend is in the trace where the ops that it delivered end,
and while the stage runs nothing has broken the fetch. -/
structure Inv (cfg : Config) (pi : PinInst) (trace : List PinInst) (s : State) : Prop where
  fe : s.fe.Inv cfg.procId
  ops : s.fetched.map Op.static ++ (s.fe.remaining cfg.procId).map Op.static =
    (traceOps cfg.procId (pi :: trace)).map Op.static
  sub : s.issued.Sublist s.fetched
  running : s.pc ≠ .idle → s.breakFetch = .dont ∧ s.offPath = false ∧ s.backOnPath = false

theorem Inv.init : Inv cfg pi trace (.init cfg pi trace) where
  fe := .init ..
  ops := rfl
  sub := .slnil
  running h := absurd rfl h

theorem Inv.congr (h : Inv cfg pi trace s) (hops : SameOps s t)
    (hrunning : t.pc ≠ .idle → t.breakFetch = .dont ∧ t.offPath = false ∧ t.backOnPath = false) :
    Inv cfg pi trace t where
  fe := hops.fe ▸ h.fe
  ops := by
    rw [hops.fetched, hops.fe]
    exact h.ops
  sub := by
    rw [hops.issued, hops.fetched]
    exact h.sub
  running := hrunning

theorem returnTo_running (s : State) (next : IcacheState) (h : (s.returnTo next).pc ≠ .idle) :
    (s.returnTo next).breakFetch = .dont := by
  by_contra hbreak
  exact h (if_neg hbreak)

/-- What a control flow op leaves behind. -/
structure Branched (cfg : Config) (s t : State) (b : Branch) : Prop where
  nextFetchAddr : t.nextFetchAddr = s.nextFetchAddr
  branch : t.branch = some b
  offPath : t.offPath = (s.offPath || b.isWrong cfg)
  backOnPath : t.backOnPath = s.backOnPath
  redirectScheduled : t.redirectScheduled = (s.redirectScheduled || b.btbMiss)
  running : t.pc ≠ .idle → t.breakFetch = .dont ∧ b.isWrong cfg = false

theorem afterBranch_branched {packetBreak : PacketBuildCondition} (b : Branch)
    (hgo : packetBreak ≠ .after → s.breakFetch = .dont) :
    Branched cfg s (s.afterBranch cfg packetBreak b) b := by
  have hwrong : (s.markBranch cfg b).breakFetch = .dont → b.isWrong cfg = false := by
    intro hdont
    by_contra hw
    rw [Bool.not_eq_false] at hw
    simp [State.markBranch, hw] at hdont
  unfold State.afterBranch
  dsimp only
  by_cases hmiss : b.btbMiss = true
  · rw [if_pos hmiss]
    exact ⟨rfl, rfl, rfl, rfl, by simp [State.returnTo, hmiss], fun hpc => by
      simp [State.returnTo] at hpc⟩
  rw [if_neg hmiss]
  have hredirect : s.redirectScheduled = (s.redirectScheduled || b.btbMiss) := by simp [hmiss]
  by_cases htaken : cfg.fetchBreakOnTaken = true ∧ b.pred = true ∧ (s.markBranch cfg b).breakFetch ≠ .barrier
  · rw [if_pos htaken]
    split_ifs
    · exact ⟨rfl, rfl, rfl, rfl, hredirect, fun hpc => by simp [State.returnTo] at hpc⟩
    · exact ⟨rfl, rfl, rfl, rfl, hredirect, fun hpc => by simp [State.returnTo] at hpc⟩
  rw [if_neg htaken]
  by_cases hend : packetBreak = .after ∨ b.isWrong cfg = true
  · rw [if_pos hend]
    refine ⟨rfl, rfl, rfl, rfl, hredirect, fun hpc => ?_⟩
    have hdont := returnTo_running _ _ hpc
    exact ⟨hdont, hwrong hdont⟩
  · rw [if_neg hend]
    rw [not_or] at hend
    have hright : b.isWrong cfg = false := by simpa using hend.2
    exact ⟨rfl, rfl, rfl, rfl, hredirect, fun _ => ⟨by simp [State.markBranch, hright, hgo hend.1], hright⟩⟩

/-- What an op that is no control flow op leaves behind. -/
structure Sequential (op : Op) (s t : State) : Prop where
  nextFetchAddr : t.nextFetchAddr =
    if op.eom then addrPlusOffset s.nextFetchAddr op.instSize else s.nextFetchAddr
  branch : t.branch = s.branch
  offPath : t.offPath = s.offPath
  backOnPath : t.backOnPath = s.backOnPath
  redirectScheduled : t.redirectScheduled = s.redirectScheduled
  running : t.pc ≠ .idle → t.breakFetch = .dont

/-- The prediction that is left of a control flow op that is a fetch barrier. -/
def Branch.ofBarrier (b : Branch) : Branch := { b with mispred := false, misfetch := false, btbMiss := false }

theorem afterOp_cases {packetBreak : PacketBuildCondition} (op : Op) (guess : Guess)
    (hgo : packetBreak ≠ .after → s.breakFetch = .dont) (ht : t = s.afterOp cfg packetBreak op guess) :
    (op.cfType ≠ .notCf ∧ s.breakFetch = .barrier ∧
      Branched cfg { s with nextFetchAddr := addrPlusOffset s.nextFetchAddr op.instSize } t
        (bpPredictOp op guess).ofBarrier) ∨
    (op.cfType ≠ .notCf ∧ s.breakFetch ≠ .barrier ∧
      Branched cfg { s with nextFetchAddr := convertToCmpAddr cfg.procId (bpPredictOp op guess).predNpc } t
        (bpPredictOp op guess)) ∨
    (op.cfType = .notCf ∧ Sequential op s t) := by
  subst ht
  unfold State.afterOp
  by_cases hcf : op.cfType ≠ .notCf
  · rw [if_pos hcf]
    by_cases hbar : s.breakFetch = .barrier
    · simp only [if_pos hbar]
      exact .inl ⟨hcf, hbar, afterBranch_branched _ hgo⟩
    · simp only [if_neg hbar]
      exact .inr (.inl ⟨hcf, hbar, afterBranch_branched _ hgo⟩)
  · rw [if_neg hcf]
    refine .inr (.inr ⟨not_not.mp hcf, ?_⟩)
    by_cases hend : packetBreak = .after
    · simp only [if_pos hend]
      exact ⟨rfl, rfl, rfl, rfl, rfl, returnTo_running _ _⟩
    · simp only [if_neg hend]
      exact ⟨rfl, rfl, rfl, rfl, rfl, fun _ => hgo hend⟩

/-- While the stage runs after an op, nothing has broken the fetch. -/
theorem afterOp_running {packetBreak : PacketBuildCondition} (op : Op) (guess : Guess)
    (hgo : packetBreak ≠ .after → s.breakFetch = .dont) (hon : s.offPath = false) (hback : s.backOnPath = false)
    (ht : t = s.afterOp cfg packetBreak op guess) (hpc : t.pc ≠ .idle) :
    t.breakFetch = .dont ∧ t.offPath = false ∧ t.backOnPath = false := by
  rcases afterOp_cases op guess hgo ht with hbar | hbranch | hseq
  · obtain ⟨_, _, hb⟩ := hbar
    obtain ⟨hdont, hright⟩ := hb.running hpc
    exact ⟨hdont, by rw [hb.offPath, hright, Bool.or_false]; exact hon, hb.backOnPath.trans hback⟩
  · obtain ⟨_, _, hb⟩ := hbranch
    obtain ⟨hdont, hright⟩ := hb.running hpc
    exact ⟨hdont, by rw [hb.offPath, hright, Bool.or_false]; exact hon, hb.backOnPath.trans hback⟩
  · obtain ⟨_, hs⟩ := hseq
    exact ⟨hs.running hpc, hs.offPath.trans hon, hs.backOnPath.trans hback⟩

/-- What a step does to the ops that came and to those on the sequential op list. -/
def Comes (cfg : Config) (s : State) (e : Event) (t : State) : Prop :=
  e.FitsPacket cfg s ∧ SameOps s t ∨ ∃ op fe, s.fe.canFetchOp = true ∧
    s.fe.fetchOp cfg.procId = .ok (op, fe) ∧ t.fe = fe ∧ t.fetched = s.fetched ++ [op] ∧
      (e.FitsPacket cfg s ∧ t.issued = s.issued ++ [op] ∨ ¬ e.FitsPacket cfg s ∧ t.issued = s.issued)

theorem fitsPacket_of_ne (h : ∀ guess hook, e ≠ .issue guess hook) : e.FitsPacket cfg s :=
  fun guess hook _ _ he => absurd he (h guess hook)

/-- Whether the op that comes fits is what `packet_build` says. -/
theorem fitsPacket_iff {fe : TraceFe} (hcan : s.fe.canFetchOp = true)
    (hop : s.fe.fetchOp cfg.procId = .ok (op, fe)) :
    (Event.issue guess hook).FitsPacket cfg s ↔ breaksBefore cfg s.pb op hook = false := by
  refine ⟨fun h => h guess hook op fe rfl hcan hop, fun h guess' hook' op' fe' he _ hop' => ?_⟩
  cases he
  rw [hop] at hop'
  cases hop'
  exact h

/-- One op more from the frontend. -/
theorem Inv.fetched (h : Inv cfg pi trace s) {fe : TraceFe} (hcan : s.fe.canFetchOp = true)
    (hop : s.fe.fetchOp cfg.procId = .ok (op, fe)) (hfe : t.fe = fe) (hfetched : t.fetched = s.fetched ++ [op])
    (hsub : t.issued.Sublist t.fetched)
    (hrunning : t.pc ≠ .idle → t.breakFetch = .dont ∧ t.offPath = false ∧ t.backOnPath = false) :
    Inv cfg pi trace t := by
  obtain ⟨op', fe', hop', hinv, uop, hremaining, hstatic⟩ := h.fe.fetchOp hcan
  rw [hop] at hop'
  cases hop'
  refine ⟨hfe ▸ hinv, ?_, hsub, hrunning⟩
  rw [hfe, hfetched, ← h.ops, hremaining]
  simp [hstatic]

theorem Inv.issue (h : Inv cfg pi trace s) (hpc : s.pc = .issue)
    (hissue : s.issueOp cfg guess hook = .ok t) :
    Inv cfg pi trace t ∧ Comes cfg s (.issue guess hook) t := by
  obtain ⟨hdont, hon, hback⟩ := h.running (by simp [hpc])
  rcases issueOp_cases hissue with hnone | hsome
  · obtain ⟨hcan, rfl⟩ := hnone
    refine ⟨h.congr ⟨rfl, rfl, rfl⟩ fun hne => ?_, .inl ⟨fun _ _ _ _ _ hcan' => ?_, rfl, rfl, rfl⟩⟩
    · exact ⟨returnTo_running _ _ hne, hon, hback⟩
    · rw [hcan] at hcan'
      cases hcan'
  · obtain ⟨op, fe, packetBreak, breakFetch, pb, hcan, hop, _, hbuilt, hout⟩ := hsome
    have hspec := packetBuild_built cfg s.pb op hook s.sdOpCount
    rw [← hdont, hbuilt] at hspec
    by_cases hbefore : packetBreak = .before
    · rw [if_pos hbefore] at hout
      subst hout
      refine ⟨h.fetched hcan hop rfl rfl (h.sub.trans (List.sublist_append_left _ _)) fun hne => ?_,
        .inr ⟨op, fe, hcan, hop, rfl, rfl, .inr ⟨?_, rfl⟩⟩⟩
      · exact ⟨returnTo_running _ _ hne, hon, hback⟩
      · rw [fitsPacket_iff hcan hop, hspec.before.mp hbefore]
        simp
    · rw [if_neg hbefore] at hout
      subst hout
      have hfits : breaksBefore cfg s.pb op hook = false := by
        rw [← Bool.not_eq_true]
        exact fun hb => hbefore (hspec.before.mpr hb)
      have hops := afterOp_ops cfg ((s.withOp op fe breakFetch pb).addToSeqOpList op) packetBreak op guess
      refine ⟨h.fetched hcan hop hops.fe hops.fetched ?_ fun hne => ?_,
        .inr ⟨op, fe, hcan, hop, hops.fe, hops.fetched, .inl ⟨(fitsPacket_iff hcan hop).mpr hfits, hops.issued⟩⟩⟩
      · rw [hops.issued, hops.fetched]
        exact h.sub.append (.refl _)
      · refine afterOp_running (s := (s.withOp op fe breakFetch pb).addToSeqOpList op) op guess
          (fun hafter => hspec.dont ?_) hon hback rfl hne
        cases packetBreak with
        | dont => rfl
        | before => exact absurd rfl hbefore
        | after => exact absurd rfl hafter

/-- What `update_icache_stage` does up to its loop. -/
structure Updated (s t : State) : Prop where
  ops : SameOps s t
  nextFetchAddr : t.nextFetchAddr = s.nextFetchAddr
  branch : t.branch = s.branch
  redirectScheduled : t.redirectScheduled = s.redirectScheduled
  path : t.offPath = s.offPath ∧ t.backOnPath = s.backOnPath ∨
    t.offPath = (s.offPath && !s.backOnPath) ∧ t.backOnPath = false
  running : t.pc = s.pc ∨ t.breakFetch = .dont ∧ t.offPath = false ∧ t.backOnPath = false

theorem updateIcacheStage_updated (cfg : Config) (s : State) : Updated s (s.updateIcacheStage cfg) := by
  unfold State.updateIcacheStage
  dsimp only
  by_cases hop : s.sdOpCount ≠ 0
  · rw [if_pos hop]
    exact ⟨⟨rfl, rfl, rfl⟩, rfl, rfl, rfl, .inl ⟨rfl, rfl⟩, .inl rfl⟩
  rw [if_neg hop]
  cases s.nextState with
  | fetch =>
      by_cases hoff : (s.offPath && !s.backOnPath) = true
      · simp only [hoff, if_true]
        exact ⟨⟨rfl, rfl, rfl⟩, rfl, rfl, rfl, .inr ⟨hoff.symm, rfl⟩, .inl rfl⟩
      · rw [Bool.not_eq_true] at hoff
        simp only [hoff, Bool.false_eq_true, if_false]
        exact ⟨⟨rfl, rfl, rfl⟩, rfl, rfl, rfl, .inr ⟨hoff.symm, rfl⟩, .inr ⟨rfl, rfl, rfl⟩⟩
  | waitForMiss => exact ⟨⟨rfl, rfl, rfl⟩, rfl, rfl, rfl, .inl ⟨rfl, rfl⟩, .inl rfl⟩
  | waitForRedirect => exact ⟨⟨rfl, rfl, rfl⟩, rfl, rfl, rfl, .inl ⟨rfl, rfl⟩, .inl rfl⟩
  | waitForEmptyRob =>
      by_cases hempty : s.seqOpListCount = 0
      · simp only [if_pos hempty]
        exact ⟨⟨rfl, rfl, rfl⟩, rfl, rfl, rfl, .inl ⟨rfl, rfl⟩, .inl rfl⟩
      · simp only [if_neg hempty]
        exact ⟨⟨rfl, rfl, rfl⟩, rfl, rfl, rfl, .inl ⟨rfl, rfl⟩, .inl rfl⟩
  | waitForTimer =>
      by_cases htimer : s.timerCycle ≤ s.cycle
      · simp only [if_pos htimer]
        exact ⟨⟨rfl, rfl, rfl⟩, rfl, rfl, rfl, .inl ⟨rfl, rfl⟩, .inl rfl⟩
      · simp only [if_neg htimer]
        exact ⟨⟨rfl, rfl, rfl⟩, rfl, rfl, rfl, .inl ⟨rfl, rfl⟩, .inl rfl⟩

theorem Inv.step (h : Inv cfg pi trace s) (hstep : s.step cfg e = .ok t) :
    Inv cfg pi trace t ∧ Comes cfg s e t := by
  have hquiet : SameOps s t → (∀ guess hook, e ≠ .issue guess hook) →
      (t.pc ≠ .idle → t.breakFetch = .dont ∧ t.offPath = false ∧ t.backOnPath = false) →
      Inv cfg pi trace t ∧ Comes cfg s e t :=
    fun hops hne hrunning => ⟨h.congr hops hrunning, .inl ⟨fitsPacket_of_ne hne, hops⟩⟩
  cases e with
  | cycle =>
      cases hstep
      exact hquiet ⟨rfl, rfl, rfl⟩ (by simp) h.running
  | update =>
      obtain ⟨hidle, hstep⟩ := Execution.ite_error_eq_ok.mp hstep
      cases hstep
      have hupdated := updateIcacheStage_updated cfg s
      exact hquiet hupdated.ops (by simp) fun hpc =>
        hupdated.running.resolve_left fun hsame => hpc (hsame.trans hidle)
  | access hit accepted =>
      obtain ⟨hline, hstep⟩ := Execution.ite_error_eq_ok.mp hstep
      cases hstep
      cases hit with
      | true => exact hquiet ⟨rfl, rfl, rfl⟩ (by simp) fun _ => h.running (by simp [hline])
      | false => exact hquiet ⟨rfl, rfl, rfl⟩ (by simp) fun hpc => absurd rfl hpc
  | issue guess hook =>
      obtain ⟨hpc, hstep⟩ := Execution.ite_error_eq_ok.mp hstep
      exact h.issue hpc hstep
  | drain =>
      obtain ⟨hidle, hstep⟩ := Execution.ite_error_eq_ok.mp hstep
      cases hstep
      exact hquiet ⟨rfl, rfl, rfl⟩ (by simp) fun hpc => absurd hidle hpc
  | retire =>
      obtain ⟨⟨hidle, _⟩, hstep⟩ := Execution.ite_error_eq_ok.mp hstep
      cases hstep
      exact hquiet ⟨rfl, rfl, rfl⟩ (by simp) fun hpc => absurd hidle hpc
  | fill =>
      obtain ⟨⟨hidle, _⟩, hstep⟩ := Execution.ite_error_eq_ok.mp hstep
      cases hstep
      exact hquiet ⟨rfl, rfl, rfl⟩ (by simp) fun hpc => absurd hidle hpc
  | recover =>
      cases hb : s.branch with
      | none =>
          simp only [State.step, hb] at hstep
          cases hstep
      | some b =>
          simp only [State.step, hb] at hstep
          obtain ⟨⟨hidle, _⟩, hstep⟩ := Execution.ite_error_eq_ok.mp hstep
          cases hstep
          exact hquiet ⟨rfl, rfl, rfl⟩ (by simp) fun hpc => absurd hidle hpc
  | redirect =>
      cases hb : s.branch with
      | none =>
          simp only [State.step, hb] at hstep
          cases hstep
      | some b =>
          simp only [State.step, hb] at hstep
          obtain ⟨⟨hidle, _⟩, hstep⟩ := Execution.ite_error_eq_ok.mp hstep
          obtain ⟨_, hstep⟩ := Execution.ite_error_eq_ok.mp hstep
          cases hstep
          exact hquiet ⟨rfl, rfl, rfl⟩ (by simp) fun hpc => absurd hidle hpc

end Scarab.Fetch
