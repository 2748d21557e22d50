import Mathlib.Data.List.Chain
import Scarab.Core.Fetch.Law

/-! # Fetching over whole runs

Exactly the runs in which no packet ends before an op lose no op, and in these the fetch address
is the address to which the op before leads. -/

namespace Scarab.Fetch

open Map (addrPlusOffset)

variable {cfg : Config} {procId : Uns8} {pi : PinInst} {trace : List PinInst} {s t : State}
  {op : Op} {guess : Guess} {hook : Bool} {e : Event}

/-! ## Addresses -/

/-- The address of what comes after the op. -/
def Op.follow (op : Op) : Addr :=
  if op.cfType ≠ .notCf ∧ op.isBarrier = false then op.npc
  else if op.cfType ≠ .notCf ∨ op.eom = true then op.pcPlusOffset
  else op.addr

/-- Each op of the trace is where the one before leads. -/
def IsPath (procId : Uns8) (pis : List PinInst) : Prop :=
  List.IsChain (fun a b => b.addr = a.follow) (traceOps procId pis)

/-- Where the ops that came lead. -/
def State.expected (procId : Uns8) (pi : PinInst) (s : State) : Addr :=
  (s.fetched.getLast?.map Op.follow).getD (convertToCmpAddr procId pi.instructionAddr)

theorem expected_append {ops : List Op} (hops : t.fetched = ops ++ [op]) : t.expected procId pi = op.follow := by
  simp [State.expected, hops]

theorem expected_congr (hops : t.fetched = s.fetched) : t.expected procId pi = s.expected procId pi := by
  rw [State.expected, hops]
  rfl

theorem and_not_eq_self {w : ℕ} {a m : BitVec w} (h : a &&& m = 0) : a &&& ~~~m = a := by
  ext i hi
  have hbit : (a &&& m)[i] = false := by rw [h]; simp
  simp only [BitVec.getElem_and, BitVec.getElem_not] at hbit ⊢
  cases ha : a[i] <;> simp_all

/-- The address below the bits of the core, and the core. -/
theorem convertToCmpAddr_eq (procId : Uns8) (addr : Addr) :
    convertToCmpAddr procId addr = addr &&& ~~~(~~~(0 : Addr) <<< 58) ||| procId.setWidth 64 <<< 58 := by
  unfold convertToCmpAddr
  dsimp only
  by_cases hhigh : addr &&& ~~~(0 : Addr) <<< 58 ≠ 0
  · rw [if_pos hhigh]
  · rw [if_neg hhigh, and_not_eq_self (not_not.mp hhigh)]

theorem convertToCmpAddr_idem (procId : Uns8) (addr : Addr) :
    convertToCmpAddr procId (convertToCmpAddr procId addr) = convertToCmpAddr procId addr := by
  rw [convertToCmpAddr_eq, convertToCmpAddr_eq, BitVec.and_or_distrib_right, BitVec.and_assoc,
    BitVec.and_self]
  ext i hi
  simp
  grind

theorem traceUops_npc (h : op ∈ pi.traceUops procId) : convertToCmpAddr procId op.npc = op.npc := by
  obtain h | h := List.mem_append.mp h
  · obtain ⟨uop, _, rfl⟩ := List.mem_map.mp h
    exact convertToCmpAddr_idem ..
  · obtain rfl := List.mem_singleton.mp h
    exact convertToCmpAddr_idem ..

theorem traceOps_npc {pis : List PinInst} (h : op ∈ traceOps procId pis) :
    convertToCmpAddr procId op.npc = op.npc := by
  obtain ⟨pi, _, hop⟩ := List.mem_flatMap.mp h
  exact traceUops_npc hop

/-- A right prediction leads where the op does. -/
theorem bpPredictOp_right (h : (bpPredictOp op guess).isWrong cfg = false) :
    (bpPredictOp op guess).predNpc = op.npc := by
  unfold Branch.isWrong at h
  simp only [Bool.or_eq_false_iff] at h
  obtain ⟨⟨hmispred, hmisfetch⟩, _⟩ := h
  unfold bpPredictOp at hmispred hmisfetch ⊢
  by_cases hsys : op.cfType = .sys
  · simp only [if_pos hsys]
  · simp only [if_neg hsys] at hmispred hmisfetch ⊢
    rw [hmispred] at hmisfetch
    simpa using hmisfetch

theorem bpPredictOp_npc (op : Op) (guess : Guess) : (bpPredictOp op guess).npc = op.npc := by
  unfold bpPredictOp
  split_ifs <;> rfl

/-! ## The fetch address -/

/-- On the path, the fetch address is where the ops that came lead; a recovery and a redirect are
back there. -/
structure OnPath (cfg : Config) (pi : PinInst) (s : State) : Prop where
  addr : s.offPath = false ∨ s.backOnPath = true → s.nextFetchAddr = s.expected cfg.procId pi
  recover : ∀ b, s.branch = some b → (b.mispred || b.misfetch) = true → b.npc = s.expected cfg.procId pi
  redirect : s.redirectScheduled = true → ∃ b, s.branch = some b ∧
    (b.isWrong cfg = false → b.predNpc = s.expected cfg.procId pi) ∧
    (b.isWrong cfg = true → s.offPath = true ∧ s.backOnPath = false)

theorem OnPath.init : OnPath cfg pi (.init cfg pi trace) where
  addr _ := rfl
  recover _ hb := by cases hb
  redirect h := by cases h

theorem OnPath.congr (h : OnPath cfg pi s) (hops : t.fetched = s.fetched) (haddr : t.nextFetchAddr = s.nextFetchAddr)
    (hbranch : t.branch = s.branch) (hredirect : t.redirectScheduled = s.redirectScheduled)
    (hpath : t.offPath = s.offPath ∧ t.backOnPath = s.backOnPath ∨
      t.offPath = (s.offPath && !s.backOnPath) ∧ t.backOnPath = false) : OnPath cfg pi t where
  addr ht := by
    rw [haddr, expected_congr hops]
    refine h.addr ?_
    rcases hpath with ⟨hoff, hback⟩ | ⟨hoff, hback⟩
    · rwa [hoff, hback] at ht
    · rw [hoff, hback] at ht
      cases hs : s.offPath with
      | false => exact .inl rfl
      | true => exact .inr (by simpa [hs] using ht)
  recover b hb := by
    rw [expected_congr hops]
    exact h.recover b (hbranch ▸ hb)
  redirect ht := by
    obtain ⟨b, hb, hright, hwrong⟩ := h.redirect (hredirect ▸ ht)
    refine ⟨b, hbranch.trans hb, ?_, fun hw => ?_⟩
    · rw [expected_congr hops]
      exact hright
    · obtain ⟨hoff', hback'⟩ := hwrong hw
      rcases hpath with ⟨hoff, hback⟩ | ⟨hoff, hback⟩
      · exact ⟨hoff.trans hoff', hback.trans hback'⟩
      · exact ⟨by rw [hoff, hoff', hback']; rfl, hback⟩

/-- A control flow op leads where the frontend goes on, unless the prediction is wrong. -/
theorem Branched.onPath {b : Branch} (h : Branched cfg s t b) (hlast : s.expected cfg.procId pi = op.follow)
    (hops : t.fetched = s.fetched) (hon : s.offPath = false) (hback : s.backOnPath = false)
    (hnone : s.redirectScheduled = false) (hnext : b.isWrong cfg = false → s.nextFetchAddr = op.follow)
    (hnpc : (b.mispred || b.misfetch) = true → b.npc = op.follow)
    (hpred : b.btbMiss = true → b.isWrong cfg = false → b.predNpc = op.follow) : OnPath cfg pi t where
  addr ht := by
    rw [h.offPath, h.backOnPath, hon, hback] at ht
    rw [h.nextFetchAddr, expected_congr hops, hlast]
    exact hnext (by simpa using ht)
  recover b' hb' hwrong := by
    obtain rfl : b = b' := by simpa using h.branch.symm.trans hb'
    rw [expected_congr hops, hlast]
    exact hnpc hwrong
  redirect ht := by
    rw [h.redirectScheduled, hnone, Bool.false_or] at ht
    refine ⟨b, h.branch, ?_, fun hw => ⟨by rw [h.offPath, hw, Bool.or_true], h.backOnPath.trans hback⟩⟩
    rw [expected_congr hops, hlast]
    exact hpred ht

theorem follow_of_barrier (hcf : op.cfType ≠ .notCf) (hbar : op.isBarrier = true) : op.follow = op.pcPlusOffset := by
  unfold Op.follow
  rw [if_neg (by simp [hbar]), if_pos (.inl hcf)]

theorem follow_of_branch (hcf : op.cfType ≠ .notCf) (hbar : op.isBarrier = false) : op.follow = op.npc := by
  unfold Op.follow
  rw [if_pos ⟨hcf, hbar⟩]

theorem follow_of_notCf (hcf : op.cfType = .notCf) :
    op.follow = if op.eom = true then op.pcPlusOffset else op.addr := by
  unfold Op.follow
  rw [if_neg (fun h => absurd hcf h.1)]
  by_cases heom : op.eom = true
  · rw [if_pos (.inr heom), if_pos heom]
  · rw [if_neg (by simp [hcf, heom]), if_neg heom]

/-- The op goes on the list at the fetch address. -/
theorem OnPath.afterOp {packetBreak : PacketBuildCondition} (hlast : s.expected cfg.procId pi = op.follow)
    (haddr : s.nextFetchAddr = op.addr) (hnpc : convertToCmpAddr cfg.procId op.npc = op.npc)
    (hbar : s.breakFetch = .barrier ↔ op.isBarrier = true) (hgo : packetBreak ≠ .after → s.breakFetch = .dont)
    (hon : s.offPath = false) (hback : s.backOnPath = false) (hbranch : s.branch = none)
    (hnone : s.redirectScheduled = false) : OnPath cfg pi (s.afterOp cfg packetBreak op guess) := by
  have hops := afterOp_ops cfg s packetBreak op guess
  generalize ht : s.afterOp cfg packetBreak op guess = t at hops ⊢
  rcases afterOp_cases op guess hgo ht.symm with hbarrier | hright | hseq
  · obtain ⟨hcf, hb, hbranched⟩ := hbarrier
    have hfollow := follow_of_barrier hcf (hbar.mp hb)
    refine hbranched.onPath hlast hops.fetched hon hback hnone (fun _ => ?_) (fun h => ?_) (fun h => ?_)
    · rw [hfollow]
      exact congrArg (addrPlusOffset · op.instSize) haddr
    · cases h
    · cases h
  · obtain ⟨hcf, hb, hbranched⟩ := hright
    have hfollow := follow_of_branch hcf (by simpa using mt hbar.mpr hb)
    refine hbranched.onPath hlast hops.fetched hon hback hnone (fun hw => ?_) (fun _ => ?_) (fun _ hw => ?_)
    · rw [hfollow, ← hnpc, ← bpPredictOp_right hw]
    · rw [hfollow, bpPredictOp_npc]
    · rw [hfollow, bpPredictOp_right hw]
  · obtain ⟨hcf, hs⟩ := hseq
    refine ⟨fun _ => ?_, fun b hb => ?_, fun h => ?_⟩
    · rw [hs.nextFetchAddr, expected_congr hops.fetched, hlast, haddr, follow_of_notCf hcf]
      rfl
    · rw [hs.branch, hbranch] at hb
      cases hb
    · rw [hs.redirectScheduled, hnone] at h
      cases h

/-- The ops that the frontend delivers have the addresses of the trace. -/
theorem Inv.npc (h : Inv cfg pi trace s) {fe : TraceFe} (hcan : s.fe.canFetchOp = true)
    (hop : s.fe.fetchOp cfg.procId = .ok (op, fe)) : convertToCmpAddr cfg.procId op.npc = op.npc := by
  obtain ⟨op', fe', hop', _, uop, hremaining, hstatic⟩ := h.fe.fetchOp hcan
  rw [hop] at hop'
  cases hop'
  have hmem : uop.static ∈ (traceOps cfg.procId (pi :: trace)).map Op.static := by
    rw [← h.ops, hremaining]
    simp
  obtain ⟨uop', huop', heq⟩ := List.mem_map.mp hmem
  have hnpc : op.npc = uop'.npc := by
    have hsame : op.static.npc = uop'.static.npc := by rw [hstatic, heq]
    exact hsame
  rw [hnpc]
  exact traceOps_npc huop'

theorem OnPath.issue (h : OnPath cfg pi s) (hinv : Inv cfg pi trace s) (hpc : s.pc = .issue)
    (hfits : (Event.issue guess hook).FitsPacket cfg s) (hissue : s.issueOp cfg guess hook = .ok t) :
    OnPath cfg pi t := by
  obtain ⟨hdont, hon, hback⟩ := hinv.running (by simp [hpc])
  rcases issueOp_cases hissue with hnone | hsome
  · obtain ⟨_, rfl⟩ := hnone
    exact h.congr rfl rfl rfl rfl (.inl ⟨rfl, rfl⟩)
  · obtain ⟨op, fe, packetBreak, breakFetch, pb, hcan, hop, haddr, hbuilt, hout⟩ := hsome
    have hspec := packetBuild_built cfg s.pb op hook s.sdOpCount
    rw [← hdont, hbuilt, (fitsPacket_iff hcan hop).mp hfits] at hspec
    have hbefore : packetBreak ≠ .before := fun hb => by cases hspec.before.mp hb
    rw [if_neg hbefore] at hout
    subst hout
    refine OnPath.afterOp (s := (s.withOp op fe breakFetch pb).addToSeqOpList op) (expected_append rfl) haddr
      (hinv.npc hcan hop) ?_ (fun hafter => hspec.dont ?_) hon hback rfl rfl
    · exact hspec.barrier.trans (and_iff_right rfl)
    · cases packetBreak with
      | dont => rfl
      | before => exact absurd rfl hbefore
      | after => exact absurd rfl hafter

theorem OnPath.recovered (h : OnPath cfg pi s) {b : Branch} (hb : s.branch = some b)
    (hwrong : (b.mispred || b.misfetch) = true) : OnPath cfg pi (s.recoverIcacheStage b) where
  addr _ := h.recover b hb hwrong
  recover b' hb' hwrong' := h.recover b' hb' hwrong'
  redirect ht := by cases ht

theorem OnPath.redirected (h : OnPath cfg pi s) {b : Branch} (hb : s.branch = some b)
    (hscheduled : s.redirectScheduled = true) (ht : s.redirectIcacheStage cfg b = .ok t) : OnPath cfg pi t := by
  obtain ⟨b', hb', hright, hwrong⟩ := h.redirect hscheduled
  obtain rfl : b = b' := by simpa using hb.symm.trans hb'
  obtain ⟨_, ht⟩ := Execution.ite_error_eq_ok.mp ht
  cases ht
  refine ⟨fun hpath => ?_, h.recover, fun h => by cases h⟩
  cases hw : b.isWrong cfg with
  | false => exact hright hw
  | true =>
      rw [(hwrong hw).1, hw] at hpath
      simp at hpath

theorem OnPath.step (h : OnPath cfg pi s) (hinv : Inv cfg pi trace s) (hfits : e.FitsPacket cfg s)
    (hstep : s.step cfg e = .ok t) : OnPath cfg pi t := by
  cases e with
  | cycle =>
      cases hstep
      exact h.congr rfl rfl rfl rfl (.inl ⟨rfl, rfl⟩)
  | update =>
      obtain ⟨_, hstep⟩ := Execution.ite_error_eq_ok.mp hstep
      cases hstep
      have hupdated := updateIcacheStage_updated cfg s
      exact h.congr hupdated.ops.fetched hupdated.nextFetchAddr hupdated.branch hupdated.redirectScheduled
        hupdated.path
  | access hit accepted =>
      obtain ⟨_, hstep⟩ := Execution.ite_error_eq_ok.mp hstep
      cases hstep
      cases hit with
      | true => exact h.congr rfl rfl rfl rfl (.inl ⟨rfl, rfl⟩)
      | false => exact h.congr rfl rfl rfl rfl (.inl ⟨rfl, rfl⟩)
  | issue guess hook =>
      obtain ⟨hpc, hstep⟩ := Execution.ite_error_eq_ok.mp hstep
      exact h.issue hinv hpc hfits hstep
  | drain =>
      obtain ⟨_, hstep⟩ := Execution.ite_error_eq_ok.mp hstep
      cases hstep
      exact h.congr rfl rfl rfl rfl (.inl ⟨rfl, rfl⟩)
  | retire =>
      obtain ⟨_, hstep⟩ := Execution.ite_error_eq_ok.mp hstep
      cases hstep
      exact h.congr rfl rfl rfl rfl (.inl ⟨rfl, rfl⟩)
  | fill =>
      obtain ⟨_, hstep⟩ := Execution.ite_error_eq_ok.mp hstep
      cases hstep
      exact h.congr rfl rfl rfl rfl (.inl ⟨rfl, rfl⟩)
  | recover =>
      cases hb : s.branch with
      | none =>
          simp only [State.step, hb] at hstep
          cases hstep
      | some b =>
          simp only [State.step, hb] at hstep
          obtain ⟨⟨_, hwrong⟩, hstep⟩ := Execution.ite_error_eq_ok.mp hstep
          cases hstep
          exact h.recovered hb hwrong
  | redirect =>
      cases hb : s.branch with
      | none =>
          simp only [State.step, hb] at hstep
          cases hstep
      | some b =>
          simp only [State.step, hb] at hstep
          obtain ⟨⟨_, hscheduled⟩, hstep⟩ := Execution.ite_error_eq_ok.mp hstep
          exact h.redirected hb hscheduled hstep

/-! ## Runs -/

/-- A run leads to the state, and in each of its steps the op that comes fits. -/
def ReachableFitting (cfg : Config) (pi : PinInst) (trace : List PinInst) (s : State) : Prop :=
  Execution.Visited (· = .init cfg pi trace) (fun s t => ∃ e, e.FitsPacket cfg s ∧ s.step cfg e = .ok t) s

theorem Reachable.inv (h : Reachable cfg pi trace s) : Inv cfg pi trace s := by
  obtain ⟨events, hrun⟩ := h
  exact Execution.run_invariant (fun s e t hs hstep => (hs.step hstep).1) Inv.init hrun

theorem ReachableFitting.inv (h : ReachableFitting cfg pi trace s) :
    Inv cfg pi trace s ∧ OnPath cfg pi s ∧ s.issued = s.fetched := by
  refine Execution.Visited.invariant (I := fun s => Inv cfg pi trace s ∧ OnPath cfg pi s ∧ s.issued = s.fetched)
    (fun s hs => ?_) (fun s t hs hnext => ?_) h
  · subst hs
    exact ⟨Inv.init, OnPath.init, rfl⟩
  · obtain ⟨hinv, hpath, hsame⟩ := hs
    obtain ⟨e, hfits, hstep⟩ := hnext
    obtain ⟨hinv', hcomes⟩ := hinv.step hstep
    refine ⟨hinv', hpath.step hinv hfits hstep, ?_⟩
    rcases hcomes with hquiet | hop
    · rw [hquiet.2.issued, hquiet.2.fetched, hsame]
    · obtain ⟨op, fe, _, _, _, hfetched, hissued | hlost⟩ := hop
      · rw [hissued.2, hfetched, hsame]
      · exact absurd hfits hlost.1

/-- An op that was lost never comes back. -/
theorem Reachable.lost_or_fitting (h : Reachable cfg pi trace s) :
    s.issued.length < s.fetched.length ∨ ReachableFitting cfg pi trace s := by
  obtain ⟨events, hrun⟩ := h
  refine (Execution.run_invariant (I := fun s => Inv cfg pi trace s ∧
    (s.issued.length < s.fetched.length ∨ ReachableFitting cfg pi trace s)) (fun s e t hs hstep => ?_)
    ⟨Inv.init, .inr ⟨_, rfl, .refl⟩⟩ hrun).2
  obtain ⟨hinv, hs⟩ := hs
  obtain ⟨hinv', hcomes⟩ := hinv.step hstep
  refine ⟨hinv', ?_⟩
  rcases hcomes with hquiet | hop
  · obtain ⟨hfits, hops⟩ := hquiet
    rw [hops.issued, hops.fetched]
    exact hs.imp_right (·.step ⟨e, hfits, hstep⟩)
  · obtain ⟨op, fe, _, _, _, hfetched, hissued | hlost⟩ := hop
    · refine hs.imp (fun hlt => ?_) (·.step ⟨e, hissued.1, hstep⟩)
      simpa [hissued.2, hfetched] using hlt
    · refine .inl ?_
      rw [hlost.2, hfetched, List.length_append]
      exact Nat.lt_succ_of_le hinv.sub.length_le

/-- The frontend delivers the next op of the trace after those that came. -/
theorem Inv.next_op (h : Inv cfg pi trace s) {fe : TraceFe} (hcan : s.fe.canFetchOp = true)
    (hop : s.fe.fetchOp cfg.procId = .ok (op, fe)) : ∃ rest,
    (s.fetched ++ [op]).map Op.static ++ rest = (traceOps cfg.procId (pi :: trace)).map Op.static := by
  obtain ⟨op', fe', hop', _, uop, hremaining, hstatic⟩ := h.fe.fetchOp hcan
  rw [hop] at hop'
  cases hop'
  refine ⟨(fe.remaining cfg.procId).map Op.static, ?_⟩
  rw [← h.ops, hremaining]
  simp [hstatic]

theorem traceUops_addr (h : op ∈ pi.traceUops procId) : op.addr = convertToCmpAddr procId pi.instructionAddr := by
  obtain h | h := List.mem_append.mp h
  · obtain ⟨uop, _, rfl⟩ := List.mem_map.mp h
    rfl
  · obtain rfl := List.mem_singleton.mp h
    rfl

/-- The first op of the trace. -/
theorem traceOps_head {ops : List Op} (h : op.static :: ops = (traceOps procId (pi :: trace)).map Op.static) :
    op.addr = convertToCmpAddr procId pi.instructionAddr := by
  obtain ⟨pre, last, hsplit, _⟩ := traceUops_split procId pi
  cases huops : pi.traceUops procId with
  | nil => simp [huops] at hsplit
  | cons first uops =>
      rw [traceOps, List.flatMap_cons, huops, List.cons_append, List.map_cons, List.cons.injEq] at h
      have haddr : op.addr = first.addr := by
        have hsame : op.static.addr = first.static.addr := by rw [h.1]
        exact hsame
      have hfirst : first ∈ pi.traceUops procId := by rw [huops]; exact List.mem_cons_self
      exact haddr.trans (traceUops_addr hfirst)

/-- On a path, the next op of the trace is where the ops that came lead. -/
theorem IsPath.next {rest : List Op} (h : IsPath procId (pi :: trace))
    (hops : (s.fetched ++ [op]).map Op.static ++ rest = (traceOps procId (pi :: trace)).map Op.static) :
    op.addr = s.expected procId pi := by
  have hchain : List.IsChain (fun a b : Op => b.addr = a.follow) ((s.fetched ++ [op]).map Op.static ++ rest) := by
    rw [hops]
    exact List.isChain_map_of_isChain Op.static (fun _ _ hab => hab) h
  cases hlast : s.fetched using List.reverseRecOn with
  | nil =>
      rw [hlast] at hops
      rw [State.expected, hlast]
      exact traceOps_head hops
  | append_singleton ops last =>
      rw [expected_append hlast]
      rw [hlast, List.append_assoc, List.map_append, List.append_assoc] at hchain
      exact (List.isChain_cons_cons.mp (List.isChain_append.mp hchain).2.1).1

theorem issueOp_ne_error {fe : TraceFe} (hcan : s.fe.canFetchOp = true)
    (hop : s.fe.fetchOp cfg.procId = .ok (op, fe)) (haddr : s.nextFetchAddr = op.addr) :
    s.issueOp cfg guess hook ≠ .error "Fetch address does not match op address" := by
  intro hissue
  unfold State.issueOp at hissue
  rw [if_pos hcan, hop] at hissue
  simp only [bind, Except.bind, if_neg (not_not.mpr haddr)] at hissue
  obtain ⟨_, hissue⟩ | ⟨_, hissue⟩ := ite_eq_iff.mp hissue
  · exact absurd (Except.error.inj hissue) (by decide)
  obtain ⟨_, hissue⟩ | ⟨_, hissue⟩ := ite_eq_iff.mp hissue
  · cases hissue
  obtain ⟨_, hissue⟩ | ⟨_, hissue⟩ := ite_eq_iff.mp hissue
  · cases hissue
  · exact absurd (Except.error.inj hissue) (by decide)

/-- Where the fetch address is not that of the op, the trace jumps. -/
theorem OnPath.step_ne_error (h : OnPath cfg pi s) (hinv : Inv cfg pi trace s)
    (hpath : IsPath cfg.procId (pi :: trace)) (guess : Guess) (hook : Bool) :
    s.step cfg (.issue guess hook) ≠ .error "Fetch address does not match op address" := by
  intro herror
  obtain ⟨hpc, hissue⟩ | ⟨_, hne⟩ := Execution.ite_error_eq_error.mp herror
  · obtain ⟨_, hon, _⟩ := hinv.running (by simp [hpc])
    by_cases hcan : s.fe.canFetchOp = true
    · obtain ⟨op, fe, hop, _⟩ := hinv.fe.fetchOp hcan
      obtain ⟨rest, hrest⟩ := hinv.next_op hcan hop
      exact issueOp_ne_error hcan hop ((h.addr (.inl hon)).trans (hpath.next hrest).symm) hissue
    · rw [State.issueOp, if_neg hcan] at hissue
      cases hissue
  · exact absurd hne (by decide)

/-- Every op that came is on the sequential op list if and only if each of them fitted its packet
when it came, and then the fetch address is that of the next op of the trace. -/
theorem issued_eq_fetched_iff (h : Reachable cfg pi trace s) :
    s.issued.Sublist s.fetched ∧
    s.fetched.map Op.static <+: (traceOps cfg.procId (pi :: trace)).map Op.static ∧
    (s.issued = s.fetched ↔ ReachableFitting cfg pi trace s) ∧
    (ReachableFitting cfg pi trace s → IsPath cfg.procId (pi :: trace) → ∀ guess hook,
      s.step cfg (.issue guess hook) ≠ .error "Fetch address does not match op address") := by
  refine ⟨h.inv.sub, ⟨_, h.inv.ops⟩, ⟨fun hsame => ?_, fun hfit => hfit.inv.2.2⟩, fun hfit hpath => ?_⟩
  · refine h.lost_or_fitting.resolve_left ?_
    rw [hsame]
    exact Nat.lt_irrefl _
  · obtain ⟨hinv, honPath, _⟩ := hfit.inv
    exact honPath.step_ne_error hinv hpath

/-- Packets of at most `n` loads and stores. -/
def loadsPerPacket (n : ℕ) : Config where
  procId := 0
  issueWidth := 4
  numLoadStorePerPacket := n
  packetBreakOnFus := false
  fuInfo := []
  enableIcachePacketBreaking := true
  cfsPerCycle := 1
  icacheLineSize := 64
  fetchAcrossCacheLines := false
  fetchBreakOnTaken := true
  fetchTakenBubbleCycles := 0
  useLateBp := false

/-- A load of one uop. -/
def load (addr : Addr) : PinInst where
  instructionAddr := addr
  instructionNextAddr := addr + 4
  size := 4
  isString := false
  actuallyTaken := false
  isIfetchBarrier := false
  exit := false
  firstUop := ⟨5, .ld, .notCf, 64⟩
  moreUops := []

def noGuess : Guess := ⟨false, 0, false, false⟩

/-- The fetch of two ops from a line. -/
def fetchTwo : List Event := [.update, .access true true, .issue noGuess false, .issue noGuess false]

theorem issued_eq_fetched_iff_two : ∃ s, Reachable (loadsPerPacket 2) (load 16) [load 20, load 24] s ∧
    (s.fetched.map Op.addr, s.issued.map Op.addr) = ([16, 20], [16, 20]) ∧
    s.issued.Sublist s.fetched ∧
    s.fetched.map Op.static <+:
      (traceOps (loadsPerPacket 2).procId [load 16, load 20, load 24]).map Op.static ∧
    (s.issued = s.fetched ↔ ReachableFitting (loadsPerPacket 2) (load 16) [load 20, load 24] s) ∧
    (ReachableFitting (loadsPerPacket 2) (load 16) [load 20, load 24] s →
      IsPath (loadsPerPacket 2).procId [load 16, load 20, load 24] → ∀ guess hook,
        s.step (loadsPerPacket 2) (.issue guess hook) ≠ .error "Fetch address does not match op address") := by
  have hrun : (fun s => (s.fetched.map Op.addr, s.issued.map Op.addr)) <$>
      Execution.run (State.step (loadsPerPacket 2)) (.init (loadsPerPacket 2) (load 16) [load 20, load 24])
        fetchTwo = .ok ([16, 20], [16, 20]) := by
    decide +kernel
  obtain ⟨s, hs, hout⟩ := Execution.map_eq_ok.mp hrun
  exact ⟨s, ⟨_, hs⟩, hout, issued_eq_fetched_iff ⟨_, hs⟩⟩

/-- The second load of a packet that has one load is freed, and the third is not where the first
leads. -/
theorem issued_loses_load : IsPath 0 [load 16, load 20, load 24] ∧
    ∃ s, Reachable (loadsPerPacket 1) (load 16) [load 20, load 24] s ∧
      (s.fetched.map Op.addr, s.issued.map Op.addr) = ([16, 20], [16]) ∧
      Execution.run (State.step (loadsPerPacket 1)) s (.drain :: fetchTwo) =
        .error "Fetch address does not match op address" := by
  have hpath : IsPath 0 [load 16, load 20, load 24] := by
    unfold IsPath
    decide +kernel
  have hrun : (fun s => ((s.fetched.map Op.addr, s.issued.map Op.addr),
      Execution.run (State.step (loadsPerPacket 1)) s (.drain :: fetchTwo))) <$>
      Execution.run (State.step (loadsPerPacket 1)) (.init (loadsPerPacket 1) (load 16) [load 20, load 24])
        fetchTwo = .ok (([16, 20], [16]), .error "Fetch address does not match op address") := by
    decide +kernel
  obtain ⟨s, hs, hout⟩ := Execution.map_eq_ok.mp hrun
  obtain ⟨hops, herror⟩ := Prod.mk.inj hout
  exact ⟨hpath, s, ⟨_, hs⟩, hops, herror⟩

end Scarab.Fetch
