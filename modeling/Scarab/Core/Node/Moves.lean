import Scarab.Core.Node.Invariant

/-! # The steps that leave the stations alone

Fetching, mapping, waking, scheduling and executing: the node table and the stations stay as
they are, and an op moves from one state to another. -/

namespace Scarab.Node

open Linked (Chain Links)

variable {cfg : Config} {s t u : State} {nl rl : List OpPtr} {p q : OpPtr} {op : Op} {phase : Phase}

/-- The stations, and which ops of the node table they wait for, are the same. -/
structure SameStations (s t : State) (nl : List OpPtr) : Prop where
  rsOpCount : t.rsOpCount = s.rsOpCount
  next : t.nextOpIntoRs = s.nextOpIntoRs
  ops : ∀ p ∈ nl, (t.ops p).occupies = (s.ops p).occupies ∧ (t.ops p).rsId = (s.ops p).rsId ∧
    ((t.ops p).state = .issued ↔ (s.ops p).state = .issued)

theorem SameStations.of_ops (hcount : t.rsOpCount = s.rsOpCount) (hnext : t.nextOpIntoRs = s.nextOpIntoRs)
    (hops : t.ops = s.ops) : SameStations s t nl :=
  ⟨hcount, hnext, fun p _ => by simp [hops]⟩

theorem SameStations.trans (h : SameStations s t nl) (h' : SameStations t u nl) : SameStations s u nl where
  rsOpCount := h'.rsOpCount.trans h.rsOpCount
  next := h'.next.trans h.next
  ops p hp := by
    obtain ⟨hocc, hrs, hissued⟩ := h.ops p hp
    obtain ⟨hocc', hrs', hissued'⟩ := h'.ops p hp
    exact ⟨hocc'.trans hocc, hrs'.trans hrs, hissued'.trans hissued⟩

theorem SameStations.of_setOp (hset : t.ops = (s.setOp p op).ops) (hcount : t.rsOpCount = s.rsOpCount)
    (hnext : t.nextOpIntoRs = s.nextOpIntoRs) (hop : p ∈ nl → op.occupies = (s.ops p).occupies ∧
      op.rsId = (s.ops p).rsId ∧ (op.state = .issued ↔ (s.ops p).state = .issued)) :
    SameStations s t nl := by
  refine ⟨hcount, hnext, fun q hq => ?_⟩
  rw [hset]
  by_cases hqp : q = p
  · subst hqp
    rw [State.setOp_ops_self]
    exact hop hq
  · simp [State.setOp_ops_ne s op hqp]

theorem SameStations.pushReady (h : SameStations s t nl) (p : OpPtr) :
    SameStations s (t.pushReady p) nl := by
  refine h.trans ⟨rfl, rfl, fun q _ => ?_⟩
  by_cases hqp : q = p
  · simp [State.pushReady, State.setOp, hqp]
  · simp [State.pushReady, State.setOp, hqp]

/-! ## Before the node table -/

theorem Inv.tick (h : Inv cfg s nl rl) : Inv cfg { s with cycle := s.cycle + 1 } nl rl where
  table := h.table.congr ⟨rfl, rfl, rfl, rfl, rfl, fun _ => rfl, fun _ => rfl⟩
  ready := ⟨h.ready.chain, h.ready.nodup, h.ready.mem_iff⟩
  stages := by
    refine ⟨h.stages.node, fun p hp => ?_, h.stages.waiting, h.stages.sd, h.stages.sd_inj,
      h.stages.memOps, h.stages.next⟩
    have hissued := h.stages.issued p hp
    cases hcycle : (s.ops p).issueCycle with
    | none => simp [hcycle] at hissued
    | some c =>
        simp only [hcycle, Option.any_some, decide_eq_true_eq] at hissued ⊢
        omega

theorem Inv.fetch (h : Inv cfg s nl rl) (hfree : (s.ops p).valid = false) (fuType memType barIssue offPath) :
    Inv cfg (s.fetch p fuType memType barIssue offPath) nl rl ∧
      SameStations s (s.fetch p fuType memType barIssue offPath) nl := by
  have hnew : p ∉ nl ++ s.waiting := fun hmem => by
    rw [(h.table.valid p).mpr hmem] at hfree
    cases hfree
  have hnl : p ∉ nl := fun hmem => hnew (List.mem_append_left _ hmem)
  generalize ht : s.fetch p fuType memType barIssue offPath = t
  have hself : t.ops p = { Op.unused with
      valid := true, opNum := s.opCount, fuType, memType, barIssue, offPath } := by
    rw [← ht]
    exact State.setOp_ops_self ..
  have hother : ∀ q, q ≠ p → t.ops q = s.ops q := fun q hq => by
    rw [← ht]
    exact State.setOp_ops_ne s _ hq
  have hold : ∀ q ∈ nl ++ s.waiting, t.ops q = s.ops q :=
    fun q hq => hother q fun heq => hnew (heq ▸ hq)
  have hold' : ∀ q ∈ nl, t.ops q = s.ops q := fun q hq => hold q (List.mem_append_left _ hq)
  have hwait : t.waiting = s.waiting ++ [p] := by
    rw [← ht]
    exact (List.append_assoc ..).symm
  have hcount : t.opCount = s.opCount + 1 := by rw [← ht]; rfl
  refine ⟨⟨?_, ?_, ?_⟩, ?_⟩
  · refine ⟨?_, ?_, ?_, h.table.bound, ?_, fun q hq => ?_, fun q => ?_⟩
    · rw [← ht]
      exact h.table.chain
    · rw [← ht]
      exact h.table.tail
    · rw [← ht]
      exact h.table.count
    · rw [hwait, ← List.append_assoc, List.pairwise_append]
      refine ⟨h.table.order.imp_of_mem ?_, by simp, ?_⟩
      · intro q r hq hr hlt
        rwa [hold q hq, hold r hr]
      · intro q hq r hr
        obtain rfl := List.mem_singleton.mp hr
        rw [hold q hq, hself]
        exact h.table.young q hq
    · rw [hwait, ← List.append_assoc] at hq
      rw [hcount]
      cases List.mem_append.mp hq with
      | inl hq =>
          rw [hold q hq]
          exact Nat.lt_succ_of_lt (h.table.young q hq)
      | inr hq =>
          rw [List.mem_singleton.mp hq, hself]
          exact Nat.lt_succ_self _
    · rw [hwait, ← List.append_assoc]
      by_cases hq : q = p
      · simp [hq, hself]
      · rw [hother q hq, h.table.valid q]
        simp [hq]
  · refine ⟨?_, h.ready.nodup, fun q => ?_⟩
    · rw [← ht]
      exact h.ready.chain
    · rw [h.ready.mem_iff]
      exact and_congr_right fun hq => by rw [hold' q hq]
  · have hsd : t.sd = s.sd := by rw [← ht]; rfl
    have hmem : t.memOps = s.memOps := by rw [← ht]; rfl
    have hnext : t.nextOpIntoRs = s.nextOpIntoRs := by rw [← ht]; rfl
    have hphase : t.phase = s.phase := by rw [← ht]; rfl
    have hcycle : t.cycle = s.cycle := by rw [← ht]; rfl
    refine ⟨fun q hq => ?_, fun q hq => ?_, fun q hq => ?_, fun f q hq => ?_, ?_, fun q hq => ?_,
      fun q hq hstate => ?_⟩
    · rw [hold' q hq, hphase]
      exact h.stages.node q hq
    · rw [hold' q hq, hcycle]
      exact h.stages.issued q hq
    · rw [hwait] at hq
      cases List.mem_append.mp hq with
      | inl hq =>
          rw [hold q (List.mem_append_right _ hq)]
          exact h.stages.waiting q hq
      | inr hq =>
          rw [List.mem_singleton.mp hq, hself]
          exact ⟨rfl, rfl, rfl, rfl⟩
    · rw [hsd] at hq
      obtain ⟨hfu, hqnl, hfire⟩ := h.stages.sd f q hq
      exact ⟨hfu, hqnl, by rwa [hold' q hqnl]⟩
    · rw [hsd]
      exact h.stages.sd_inj
    · rw [hmem] at hq
      obtain ⟨hqnl, hawait⟩ := h.stages.memOps q hq
      exact ⟨hqnl, by rwa [hold' q hqnl]⟩
    · rw [hnext] at hq
      by_cases hqp : q = p
      · rw [hqp, hself] at hstate
        cases hstate
      · rw [hother q hqp] at hstate
        exact h.stages.next q hq hstate
  · refine ⟨by rw [← ht]; rfl, by rw [← ht]; rfl, fun q hq => ?_⟩
    simp [hold' q hq]

theorem Inv.map (h : Inv cfg s nl rl) (hp : p ∈ s.waiting) (srcsNotRdyVector : BitVec 32) :
    Inv cfg (s.setOp p { s.ops p with srcsNotRdyVector }) nl rl :=
  h.setOp_same rfl rfl rfl rfl rfl rfl rfl fun hnl => absurd hp (h.table.not_waiting hnl)

theorem reduceOption_map_some (l : List OpPtr) : (l.map some).reduceOption = l := by
  simp [List.reduceOption, List.filterMap_map]

theorem Inv.latch (h : Inv cfg s nl rl) (hempty : s.mapSd.reduceOption = []) (width : ℕ) :
    Inv cfg { s with mapSd := (s.front.take width).map some, front := s.front.drop width } nl rl := by
  have hwait : ({ s with
      mapSd := (s.front.take width).map some, front := s.front.drop width } : State).waiting = s.waiting := by
    simp only [State.waiting, hempty, List.nil_append, reduceOption_map_some]
    exact List.take_append_drop ..
  refine ⟨h.table.congr ⟨rfl, rfl, rfl, hwait, rfl, fun _ => rfl, fun _ => rfl⟩,
    ⟨h.ready.chain, h.ready.nodup, h.ready.mem_iff⟩, ⟨h.stages.node, h.stages.issued, ?_,
      h.stages.sd, h.stages.sd_inj, h.stages.memOps, h.stages.next⟩⟩
  rw [hwait]
  exact h.stages.waiting

/-! ## Wake-up -/

/-- An op that lacks a source is not picked, and does not access the cache. -/
theorem Inv.not_sched (h : Inv cfg s nl rl) (hpending : (s.ops p).srcsNotRdyVector ≠ 0#32) :
    (∀ fuId, s.sd fuId ≠ some p) ∧ p ∉ s.memOps := by
  refine ⟨fun fuId hsd => ?_, fun hmem => ?_⟩
  · obtain ⟨_, hnl, hfire⟩ := h.stages.sd fuId p hsd
    exact hpending (hfire.consistent (h.stages.node p hnl)).2.2.1
  · obtain ⟨hnl, hawait⟩ := h.stages.memOps p hmem
    cases (h.stages.node p hnl).of_pending hpending with
    | inl hstate => cases hs : cfg.stallOnWaitMem <;> simp [Op.AwaitsAccess, hstate, hs] at hawait
    | inr hstate => cases hs : cfg.stallOnWaitMem <;> simp [Op.AwaitsAccess, hstate, hs] at hawait

/-- The wake hook puts an op on the ready list when its last source arrives. -/
theorem Inv.wake (h : Inv cfg s nl rl) (hvalid : (s.ops p).valid = true)
    (hpending : (s.ops p).srcsNotRdyVector ≠ 0#32) (vector : BitVec 32) (wakeCycle : ℕ) :
    ∃ rl', Inv cfg ((s.setOp p { s.ops p with srcsNotRdyVector := vector }).cmpWake p wakeCycle) nl rl' ∧
      SameStations s ((s.setOp p { s.ops p with srcsNotRdyVector := vector }).cmpWake p wakeCycle) nl := by
  have hset : ∀ op op' : Op, (s.setOp p op).setOp p op' = s.setOp p op' := by
    intro op op'
    simp [State.setOp]
  obtain ⟨hsd, hmem⟩ := h.not_sched hpending
  simp only [State.cmpWake, State.setOp_ops_self, hset]
  by_cases hstate : (s.ops p).state = .inRs
  · rw [if_neg (by simp [hstate])]
    have hp : p ∈ nl := h.mem_of_state hvalid (by simp [hstate])
    have hnode := h.stages.node p hp
    simp only [Op.Consistent, hstate] at hnode
    obtain ⟨hocc, hrdy, _, hdone⟩ := hnode
    have hwait := h.table.not_waiting hp
    by_cases hvec : vector = 0#32
    · -- the last source: the op is ready
      rw [if_pos ⟨hvec, h.stages.issued p hp, hrdy⟩]
      generalize hop : (s.setOp p { s.ops p with srcsNotRdyVector := vector }).simpleWake
        { s.ops p with srcsNotRdyVector := vector } wakeCycle = op
      have hfire : op.CanFire := by
        rw [← hop]
        by_cases hnow : max (s.ops p).rdyCycle wakeCycle = s.cycle + 1
        · exact .inl (by simp [State.simpleWake, State.setOp, hvec, hnow])
        · exact .inr (by simp [State.simpleWake, State.setOp, hvec, hnow])
      have hnum : op.opNum = (s.ops p).opNum := by rw [← hop]; rfl
      have hval : op.valid = (s.ops p).valid := by rw [← hop]; rfl
      have hocc' : op.occupies = true := by rw [← hop]; exact hocc
      have hrs : op.rsId = (s.ops p).rsId := by rw [← hop]; rfl
      have hnodone : op.doneCycle = none := by rw [← hop]; exact hdone
      have hissue : op.issueCycle = (s.ops p).issueCycle := by rw [← hop]; rfl
      have hready : op.srcsNotRdyVector = 0#32 := by rw [← hop]; exact hvec
      refine ⟨p :: rl, h.pushReady hp hrdy hnum hval ⟨fun _ => ⟨?_, hissue⟩,
        fun hw => absurd hw hwait, fun fuId hf => absurd hf (hsd fuId), fun hm => absurd hm hmem,
        fun _ _ => hp⟩, ?_⟩
      · cases hfire with
        | inl hs => simp [Op.Consistent, hs, hocc', hnodone, hready]
        | inr hs => simp [Op.Consistent, hs, hocc', hnodone, hready]
      · refine (SameStations.of_setOp rfl rfl rfl fun _ => ⟨hocc'.trans hocc.symm, hrs, ?_⟩).pushReady p
        cases hfire with
        | inl hs => simp [hs, hstate]
        | inr hs => simp [hs, hstate]
    · rw [if_neg (by simp [State.simpleWake, hvec])]
      have hsame : (s.setOp p { s.ops p with srcsNotRdyVector := vector }).simpleWake
          { s.ops p with srcsNotRdyVector := vector } wakeCycle =
          { s.ops p with
            srcsNotRdyVector := vector
            rdyCycle := max (s.ops p).rdyCycle wakeCycle } := by
        simp [State.simpleWake, hvec]
      rw [hsame]
      refine ⟨rl, h.setOp rfl rfl (fun _ => rfl) ⟨fun _ => ⟨?_, rfl⟩, fun hw => absurd hw hwait,
        fun fuId hf => absurd hf (hsd fuId), fun hm => absurd hm hmem, fun _ _ => hp⟩, ?_⟩
      · simp [Op.Consistent, hstate, hocc, hrdy, hdone, hvec]
      · exact .of_setOp rfl rfl rfl fun _ => ⟨rfl, rfl, Iff.rfl⟩
  · rw [if_pos hstate]
    refine ⟨rl, h.setOp rfl rfl (fun _ => rfl) ⟨fun hnl => ⟨?_, rfl⟩, fun hw => h.stages.waiting p hw,
      fun fuId hf => absurd hf (hsd fuId), fun hm => absurd hm hmem, h.stages.next p⟩, ?_⟩
    · have hnode := h.stages.node p hnl
      have hissued := (hnode.of_pending hpending).resolve_right hstate
      simp only [Op.Consistent, hissued] at hnode ⊢
      exact hnode
    · exact .of_setOp rfl rfl rfl fun _ => ⟨rfl, rfl, Iff.rfl⟩

/-! ## Execution -/

theorem Inv.reject (h : Inv cfg s nl rl) (fuId : ℕ) :
    Inv cfg { s with sd := Function.update s.sd fuId none } nl rl := by
  have hsub : ∀ f q, Function.update s.sd fuId none f = some q → s.sd f = some q := by
    intro f q hq
    by_cases hf : f = fuId
    · rw [hf, Function.update_self] at hq
      cases hq
    · rwa [Function.update_of_ne hf] at hq
  refine ⟨h.table.congr ⟨rfl, rfl, rfl, rfl, rfl, fun _ => rfl, fun _ => rfl⟩,
    ⟨h.ready.chain, h.ready.nodup, h.ready.mem_iff⟩, ⟨h.stages.node, h.stages.issued,
      h.stages.waiting, fun f q hq => h.stages.sd f q (hsub f q hq), fun f g q hf hg => ?_,
      h.stages.memOps, h.stages.next⟩⟩
  exact h.stages.sd_inj f g q (hsub f q hf) (hsub g q hg)

/-- The stages move on in their cycle. -/
theorem Inv.setPhase (h : Inv cfg s nl rl) (phase : Phase)
    (hphase : ∀ op : Op, op.Consistent cfg.stallOnWaitMem s.phase → op.Consistent cfg.stallOnWaitMem phase) :
    Inv cfg { s with phase } nl rl :=
  ⟨h.table.congr ⟨rfl, rfl, rfl, rfl, rfl, fun _ => rfl, fun _ => rfl⟩,
    ⟨h.ready.chain, h.ready.nodup, h.ready.mem_iff⟩, ⟨fun p hp => hphase _ (h.stages.node p hp),
      h.stages.issued, h.stages.waiting, h.stages.sd, h.stages.sd_inj, h.stages.memOps, h.stages.next⟩⟩

theorem Inv.setMemOps (h : Inv cfg s nl rl) {memOps : List OpPtr}
    (hmem : ∀ p ∈ memOps, p ∈ nl ∧ (s.ops p).AwaitsAccess cfg.stallOnWaitMem) :
    Inv cfg { s with memOps } nl rl :=
  ⟨h.table.congr ⟨rfl, rfl, rfl, rfl, rfl, fun _ => rfl, fun _ => rfl⟩,
    ⟨h.ready.chain, h.ready.nodup, h.ready.mem_iff⟩, ⟨h.stages.node, h.stages.issued,
      h.stages.waiting, h.stages.sd, h.stages.sd_inj, hmem, h.stages.next⟩⟩

theorem Inv.setMemBlocked (h : Inv cfg s nl rl) (memBlocked : Bool) : Inv cfg { s with memBlocked } nl rl :=
  ⟨h.table.congr ⟨rfl, rfl, rfl, rfl, rfl, fun _ => rfl, fun _ => rfl⟩,
    ⟨h.ready.chain, h.ready.nodup, h.ready.mem_iff⟩, ⟨h.stages.node, h.stages.issued,
      h.stages.waiting, h.stages.sd, h.stages.sd_inj, h.stages.memOps, h.stages.next⟩⟩

theorem Inv.exec (h : Inv cfg s nl rl) {fuId latency : ℕ} (hsd : s.sd fuId = some p)
    (hexec : s.execOp cfg fuId p latency = .ok t) : Inv cfg t nl rl ∧ SameStations s t nl := by
  obtain ⟨_, hp, hfire⟩ := h.stages.sd fuId p hsd
  obtain ⟨hocc, hrdy, hvec, hdone⟩ := hfire.consistent (h.stages.node p hp)
  have hmem : p ∉ s.memOps := fun hmem => hfire.not_awaits (h.stages.memOps p hmem).2
  have hissued : (s.ops p).state ≠ .issued := by
    cases hfire with
    | inl hstate => simp [hstate]
    | inr hstate => simp [hstate]
  obtain ⟨_, hexec⟩ := Execution.ite_error_eq_ok.mp hexec
  obtain ⟨_, hexec⟩ := Execution.ite_error_eq_ok.mp hexec
  cases hexec
  -- the slot is empty, the phase is the last one, and then the op changes
  have hempty := (h.reject fuId).setPhase .exec fun op hop => hop.exec
  have hslot : ∀ f, Function.update s.sd fuId none f ≠ some p := by
    intro f hf
    by_cases hfu : f = fuId
    · rw [hfu, Function.update_self] at hf
      cases hf
    · rw [Function.update_of_ne hfu] at hf
      exact hfu (h.stages.sd_inj f fuId p hf hsd)
  have hlatch : ((s.ops p).latch cfg (s.cycle + latency)).Consistent cfg.stallOnWaitMem .exec := by
    by_cases hkind : (s.ops p).memType = .notMem
    · simp [Op.latch, Op.Consistent, hkind, hocc, hrdy, hvec]
    · cases hs : cfg.stallOnWaitMem <;> simp [Op.latch, Op.Consistent, hkind, hs, hocc, hrdy, hvec, hdone]
  have hset := @Inv.setOp _ _ _ _ _ ((s.ops p).latch cfg (s.cycle + latency)) hempty rfl rfl (fun _ => rfl)
    ⟨fun _ => ⟨hlatch, rfl⟩, fun hw => absurd hw (h.table.not_waiting hp),
      fun f hf => absurd hf (hslot f), fun hm => absurd hm hmem, fun _ _ => hp⟩
  refine ⟨hset.setMemOps fun q hq => ?_, ?_⟩
  · by_cases hkind : (s.ops p).memType = .notMem
    · rw [if_pos hkind] at hq
      exact hset.stages.memOps q hq
    · rw [if_neg hkind] at hq
      cases List.mem_cons.mp hq with
      | inr hq => exact hset.stages.memOps q hq
      | inl hq =>
          rw [hq, State.setOp_ops_self]
          refine ⟨hp, ?_⟩
          cases hs : cfg.stallOnWaitMem <;> simp [Op.latch, Op.AwaitsAccess, hkind, hs, hdone]
  · refine .of_setOp rfl rfl rfl fun _ => ⟨rfl, rfl, ?_⟩
    simp only [Op.latch, hissued, iff_false]
    split <;> simp

/-- The op may still be picked again after its access. -/
theorem Inv.access (h : Inv cfg s nl rl) (hp : p ∈ s.memOps) (hphase : s.phase ≠ .exec)
    (outcome : Outcome) : Inv cfg (s.dcacheOp cfg p outcome) nl rl ∧
      SameStations s (s.dcacheOp cfg p outcome) nl := by
  obtain ⟨hnl, hawait⟩ := h.stages.memOps p hp
  obtain ⟨hrdy, hvec, hstall⟩ := hawait.consistent (h.stages.node p hnl) hphase
  have hdone := hawait.1
  have hissued : (s.ops p).state ≠ .issued := by
    intro hstate
    cases hs : cfg.stallOnWaitMem <;> simp [Op.AwaitsAccess, hstate, hs] at hawait
  have hsd : ∀ f, s.sd f ≠ some p := fun f hf => (h.stages.sd f p hf).2.2.not_awaits hawait
  have hwait := h.table.not_waiting hnl
  have hdcache := h.setPhase .dcache fun op hop => hop.dcache hphase
  have hgone : Inv cfg { s with phase := .dcache, memOps := s.memOps.filter (· ≠ p) } nl rl :=
    hdcache.setMemOps fun q hq => h.stages.memOps q (List.mem_of_mem_filter hq)
  have hleft : p ∉ s.memOps.filter (· ≠ p) := by simp
  cases outcome with
  | hit latency =>
      refine ⟨hgone.setOp rfl rfl (fun _ => rfl) ⟨fun _ => ⟨?_, rfl⟩, fun hw => absurd hw hwait,
        fun f hf => absurd hf (hsd f), fun hm => absurd hm hleft, fun _ _ => hnl⟩, ?_⟩
      · cases hs : cfg.stallOnWaitMem <;> simp_all [Op.Consistent]
      · exact .of_setOp rfl rfl rfl fun _ => ⟨rfl, rfl, by simp [hissued]⟩
  | miss =>
      refine ⟨hgone.setOp rfl rfl (fun _ => rfl) ⟨fun _ => ⟨?_, rfl⟩, fun hw => absurd hw hwait,
        fun f hf => absurd hf (hsd f), fun hm => absurd hm hleft, fun _ _ => hnl⟩, ?_⟩
      · cases hs : cfg.stallOnWaitMem <;> simp_all [Op.Consistent]
      · exact .of_setOp rfl rfl rfl fun _ => ⟨rfl, rfl, by simp [hissued]⟩
  | noPort =>
      refine ⟨hdcache.setOp rfl rfl (fun _ => rfl) ⟨fun _ => ⟨?_, rfl⟩, fun hw => absurd hw hwait,
        fun f hf => absurd hf (hsd f), fun _ => ⟨hdone, .inl rfl⟩, fun _ _ => hnl⟩, ?_⟩
      · exact ⟨hrdy, hvec, hdone, hstall⟩
      · exact .of_setOp rfl rfl rfl fun _ => ⟨rfl, rfl, by simp [hissued]⟩
  | noRequestBuffer =>
      have hstay : ∀ q, q ∈ (if cfg.stallOnWaitMem = true then s.memOps else s.memOps.filter (· ≠ p)) →
          q ∈ s.memOps ∧ (q = p → cfg.stallOnWaitMem = true) := by
        intro q hq
        cases hs : cfg.stallOnWaitMem with
        | true => exact ⟨by simpa [hs] using hq, fun _ => rfl⟩
        | false =>
            simp only [hs, Bool.false_eq_true, if_false] at hq
            exact ⟨List.mem_of_mem_filter hq, fun heq => absurd (heq ▸ hq) hleft⟩
      have hwaits := (hdcache.setMemBlocked true).setMemOps fun q hq => h.stages.memOps q (hstay q hq).1
      refine ⟨hwaits.setOp rfl rfl (fun _ => rfl) ⟨fun _ => ⟨⟨hrdy, hvec, hdone, hstall⟩, rfl⟩,
        fun hw => absurd hw hwait, fun f hf => absurd hf (hsd f), fun hm => ⟨hdone, .inr ?_⟩,
        fun _ _ => hnl⟩, ?_⟩
      · rw [if_pos ((hstay p hm).2 rfl)]
        exact .inr rfl
      · exact .of_setOp rfl rfl rfl fun _ => ⟨rfl, rfl, by simp [hissued]⟩

theorem Op.isScheduled_iff : op.isScheduled = true ↔ op.state = .scheduled ∨ op.state = .miss := by
  simp [Op.isScheduled]

theorem Inv.fillLine (h : Inv cfg s nl rl) (hvalid : (s.ops p).valid = true)
    (hstate : (s.ops p).isScheduled = true) (hmem : p ∉ s.memOps) (hfill : s.fillLine p = .ok t) :
    Inv cfg t nl rl ∧ SameStations s t nl := by
  obtain ⟨hrdy, hfill⟩ := Execution.ite_error_eq_ok.mp hfill
  cases hfill
  have hissued : (s.ops p).state ≠ .issued := by
    cases Op.isScheduled_iff.mp hstate with
    | inl hs => simp [hs]
    | inr hs => simp [hs]
  have hfire : ¬ (s.ops p).CanFire := by
    cases Op.isScheduled_iff.mp hstate with
    | inl hs => simp [Op.CanFire, hs]
    | inr hs => simp [Op.CanFire, hs]
  have hp : p ∈ nl := by
    refine h.mem_of_state hvalid ?_
    cases Op.isScheduled_iff.mp hstate with
    | inl hs => simp [hs]
    | inr hs => simp [hs]
  have hnode := h.stages.node p hp
  refine ⟨h.setOp rfl rfl (fun _ => rfl) ⟨fun _ => ⟨?_, rfl⟩, fun hw => absurd hw (h.table.not_waiting hp),
    fun f hf => absurd hf (h.not_picked hfire f), fun hm => absurd hm hmem, fun _ _ => hp⟩, ?_⟩
  · cases Op.isScheduled_iff.mp hstate with
    | inl hs => simpa [Op.Consistent, hs] using hnode
    | inr hs => simpa [Op.Consistent, hs] using hnode
  · exact .of_setOp rfl rfl rfl fun _ => ⟨rfl, rfl, by simp [hissued]⟩

/-! ## Scheduling -/

theorem slotOf_lt (hsd : ∀ f q, s.sd f = some q → f < cfg.numFus) {fus : List FuncUnit}
    {youngest : Option ℕ} {fuId : ℕ} (hy : ∀ y, youngest = some y → y < cfg.numFus)
    (h : s.slotOf cfg p fus youngest = .ok (some fuId)) : fuId < cfg.numFus := by
  induction fus generalizing youngest with
  | nil =>
      simp only [State.slotOf, Except.ok.injEq] at h
      exact hy fuId h
  | cons fu fus ih =>
      rw [State.slotOf] at h
      by_cases hexec : fu.canExecute (s.ops p) = true
      · rw [if_pos hexec] at h
        cases hslot : s.sd fu.fuId with
        | none =>
            simp only [hslot] at h
            obtain ⟨hlt, h⟩ := Execution.ite_error_eq_ok.mp h
            cases h
            exact hlt
        | some q =>
            simp only [hslot] at h
            split at h
            · refine ih ?_ h
              intro y hfu
              obtain rfl := Option.some.inj hfu
              exact hsd _ q hslot
            · exact ih hy h
      · rw [if_neg hexec] at h
        exact ih hy h

/-- Nothing but the slots differs, and only the op can have come into one. -/
theorem oldestFirstSched_eq (hsd : ∀ f q, s.sd f = some q → f < cfg.numFus)
    (h : s.oldestFirstSched cfg p = .ok t) :
    ∃ sd, t = { s with sd } ∧ (sd = s.sd ∨ ∃ fuId < cfg.numFus, sd = Function.update s.sd fuId (some p)) := by
  obtain ⟨slot, hslot, h⟩ := Execution.bind_eq_ok.mp h
  cases slot with
  | none =>
      cases h
      exact ⟨s.sd, rfl, .inl rfl⟩
  | some fuId =>
      cases h
      exact ⟨_, rfl, .inr ⟨fuId, slotOf_lt hsd (by simp) hslot, rfl⟩⟩

/-- An op that can fire is picked at most once. -/
theorem Inv.pick (h : Inv cfg s nl rl) (hp : p ∈ nl) (hfire : (s.ops p).CanFire)
    (hnew : ∀ f, s.sd f ≠ some p) {fuId : ℕ} (hfu : fuId < cfg.numFus) :
    Inv cfg { s with sd := Function.update s.sd fuId (some p) } nl rl := by
  have hslot : ∀ f q, Function.update s.sd fuId (some p) f = some q →
      f = fuId ∧ q = p ∨ f ≠ fuId ∧ s.sd f = some q := by
    intro f q hq
    by_cases hf : f = fuId
    · rw [hf, Function.update_self] at hq
      exact .inl ⟨hf, (Option.some.inj hq).symm⟩
    · rw [Function.update_of_ne hf] at hq
      exact .inr ⟨hf, hq⟩
  refine ⟨h.table.congr ⟨rfl, rfl, rfl, rfl, rfl, fun _ => rfl, fun _ => rfl⟩,
    ⟨h.ready.chain, h.ready.nodup, h.ready.mem_iff⟩, ⟨h.stages.node, h.stages.issued,
      h.stages.waiting, fun f q hq => ?_, fun f g q hf hg => ?_, h.stages.memOps, h.stages.next⟩⟩
  · cases hslot f q hq with
    | inl hnow =>
        obtain ⟨rfl, rfl⟩ := hnow
        exact ⟨hfu, hp, hfire⟩
    | inr hold => exact h.stages.sd f q hold.2
  · cases hslot f q hf with
    | inl hnow =>
        obtain ⟨rfl, rfl⟩ := hnow
        cases hslot g q hg with
        | inl hnow' => exact hnow'.1.symm
        | inr hold => exact absurd hold.2 (hnew g)
    | inr hold =>
        cases hslot g q hg with
        | inl hnow =>
            obtain ⟨rfl, rfl⟩ := hnow
            exact absurd hold.2 (hnew f)
        | inr hold' => exact h.stages.sd_inj f g q hold.2 hold'.2

/-- What the loop of `node_sched_ops` keeps while it looks at an op. -/
structure Looked (cfg : Config) (s t : State) (nl rl : List OpPtr) (p : OpPtr) : Prop where
  inv : Inv cfg t nl rl
  stations : SameStations s t nl
  rdyList : t.rdyList = s.rdyList
  phase : t.phase = s.phase
  picked : ∀ f q, t.sd f = some q → q = p ∨ s.sd f = some q

theorem Inv.looked (h : Inv cfg s nl rl) (p : OpPtr) : Looked cfg s s nl rl p :=
  ⟨h, .of_ops rfl rfl rfl, rfl, rfl, fun _ _ hq => .inr hq⟩

theorem Inv.schedReady (h : Inv cfg s nl rl) (hp : p ∈ rl) (hnew : ∀ f, s.sd f ≠ some p)
    (hrun : s.schedReady cfg p = .ok t) : Looked cfg s t nl rl p := by
  have hnl := h.ready.sub hp
  have hnode := h.stages.node p hnl
  have hrdy := ((h.ready.mem_iff p).mp hp).2
  obtain ⟨hstate, hrun⟩ := Execution.ite_error_eq_ok.mp hrun
  have hfire : (s.ops p).CanFire := by
    cases hstate with
    | inl hinRs =>
        simp only [Op.Consistent, hinRs] at hnode
        rw [hnode.2.1] at hrdy
        cases hrdy
    | inr hfire => exact hfire
  by_cases hsoon : (s.ops p).rdyCycle - 1 ≤ s.cycle
  · rw [if_pos hsoon] at hrun
    obtain ⟨_, hrun⟩ := Execution.ite_error_eq_ok.mp hrun
    obtain ⟨sd, rfl, hsd⟩ := oldestFirstSched_eq (fun f q hq => (h.stages.sd f q hq).1) hrun
    cases hsd with
    | inl hsame =>
        subst hsame
        exact h.looked p
    | inr hpick =>
        obtain ⟨fuId, hfu, rfl⟩ := hpick
        refine ⟨h.pick hnl hfire hnew hfu, .of_ops rfl rfl rfl, rfl, rfl, fun f q hq => ?_⟩
        by_cases hf : f = fuId
        · simp only [hf, Function.update_self, Option.some.injEq] at hq
          exact .inl hq.symm
        · simp only [Function.update_of_ne hf] at hq
          exact .inr hq
  · rw [if_neg hsoon] at hrun
    cases hrun
    exact h.looked p

theorem Inv.schedOp (h : Inv cfg s nl rl) (hp : p ∈ rl) (hnew : ∀ f, s.sd f ≠ some p) {out : State × Bool}
    (hrun : s.schedOp cfg p = .ok out) : Looked cfg s out.1 nl rl p ∧ out.2 = false := by
  have hnl := h.ready.sub hp
  have hrdy := ((h.ready.mem_iff p).mp hp).2
  obtain ⟨_, hrun⟩ := Execution.ite_error_eq_ok.mp hrun
  by_cases hmem : (s.ops p).state = .waitMem
  · rw [if_pos hmem] at hrun
    by_cases hblocked : s.memBlocked = true
    · rw [if_pos hblocked] at hrun
      cases hrun
      exact ⟨h.looked p, rfl⟩
    · -- a request can be allocated again, and the op is ready for it
      rw [if_neg hblocked] at hrun
      obtain ⟨t, ht, hrun⟩ := Execution.map_eq_ok.mp hrun
      subst hrun
      have hnode := h.stages.node p hnl
      simp only [Op.Consistent, hmem] at hnode
      obtain ⟨hocc, hvec, hdone, hstall⟩ := hnode
      rw [hrdy] at hocc
      have hnot : p ∉ s.memOps := fun hm => by
        have hawait := (h.stages.memOps p hm).2
        cases hs : cfg.stallOnWaitMem with
        | true =>
            rw [hstall hs] at hocc
            cases hocc
        | false => simp [Op.AwaitsAccess, hmem, hs] at hawait
      have hready : Inv cfg (s.setOp p { s.ops p with state := .ready }) nl rl :=
        h.setOp rfl rfl (fun _ => rfl) ⟨fun _ => ⟨⟨hocc.symm, hrdy, hvec, hdone⟩, rfl⟩,
          fun hw => absurd hw (h.table.not_waiting hnl), fun f hf => absurd hf (hnew f),
          fun hm => absurd hm hnot, fun _ _ => hnl⟩
      have hlooked := hready.schedReady hp hnew ht
      have hset : SameStations s (s.setOp p { s.ops p with state := .ready }) nl :=
        .of_setOp rfl rfl rfl fun _ => ⟨rfl, rfl, by simp [hmem]⟩
      exact ⟨⟨hlooked.inv, hset.trans hlooked.stations, hlooked.rdyList, hlooked.phase,
        hlooked.picked⟩, rfl⟩
  · rw [if_neg hmem] at hrun
    by_cases htried : (s.ops p).state = .tentative ∨ (s.ops p).state = .waitDcache
    · rw [if_pos htried] at hrun
      cases hrun
      exact ⟨h.looked p, rfl⟩
    · rw [if_neg htried] at hrun
      obtain ⟨t, ht, hrun⟩ := Execution.map_eq_ok.mp hrun
      subst hrun
      exact ⟨h.schedReady hp hnew ht, rfl⟩

/-- `node_sched_ops` goes through the whole ready list. -/
theorem Inv.sched (h : Inv cfg s nl rl) {canAllocate : Bool} (hrun : s.nodeSchedOps cfg canAllocate = .ok t) :
    Inv cfg t nl rl ∧ SameStations s t nl := by
  obtain ⟨hempty, hrun⟩ := Execution.ite_error_eq_ok.mp hrun
  have hnone : ∀ f q, s.sd f ≠ some q := by
    intro f q hq
    have hf := List.all_eq_true.mp hempty f (List.mem_range.mpr (h.stages.sd f q hq).1)
    simp [hq] at hf
  obtain ⟨out, hwalk, hrun⟩ := Execution.bind_eq_ok.mp hrun
  cases hrun
  have hstart := h.setMemBlocked (s.memBlocked && !canAllocate)
  rw [Linked.walk_eq_run _ hstart.ready.chain hstart.ready_length] at hwalk
  obtain ⟨last, hlast, rfl⟩ := Execution.map_eq_ok.mp hwalk
  -- the ops that are still to come were not picked
  refine Linked.run_invariant
    (I := fun rest m => Inv cfg m nl rl ∧ SameStations s m nl ∧
      (∀ p ∈ rest, p ∈ rl ∧ ∀ f, m.sd f ≠ some p) ∧ rest.Nodup)
    (J := fun _ m => Inv cfg m nl rl ∧ SameStations s m nl)
    (fun p rest m n hI hbody => ?_) (fun p rest m n hI hbody => ?_) (fun m hI => ⟨hI.1, hI.2.1⟩)
    ⟨hstart, .of_ops rfl rfl rfl, fun p hp => ⟨hp, fun f => hnone f p⟩, h.ready.nodup⟩ hlast
  · obtain ⟨hm, hsame, hrest, hnodup⟩ := hI
    obtain ⟨hprl, hpnew⟩ := hrest p (by simp)
    obtain ⟨hlooked, _⟩ := hm.schedOp hprl hpnew hbody
    obtain ⟨hnot, hnodup⟩ := List.nodup_cons.mp hnodup
    refine ⟨hlooked.inv, hsame.trans hlooked.stations, fun q hq => ?_, hnodup⟩
    obtain ⟨hqrl, hqnew⟩ := hrest q (by simp [hq])
    refine ⟨hqrl, fun f hf => ?_⟩
    cases hlooked.picked f q hf with
    | inl heq => exact hnot (heq ▸ hq)
    | inr hold => exact hqnew f hold
  · obtain ⟨hm, _, hrest, _⟩ := hI
    obtain ⟨hprl, hpnew⟩ := hrest p (by simp)
    cases (hm.schedOp hprl hpnew hbody).2

end Scarab.Node
