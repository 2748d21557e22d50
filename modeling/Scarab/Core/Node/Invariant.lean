import Mathlib.Data.List.Nodup
import Mathlib.Data.List.Pairwise
import Mathlib.Data.List.ReduceOption
import Scarab.Core.Node.State

/-! # What holds of the node stage in every run

The node table and the ready list are two lists over the same ops, and the state of an op says
on which of them it is and whether it occupies a place in a station. -/

namespace Scarab.Node

open Linked (Chain Links)

variable {cfg : Config} {s t u : State} {nl rl : List OpPtr} {p q : OpPtr} {op : Op}
  {stall : Bool} {phase : Phase}

/-! ## One op -/

/-- What an op before the node table looks like. -/
def Op.IsWaiting (op : Op) : Prop :=
  op.state = .fetched ∧ op.inRdyList = false ∧ op.occupies = false ∧ op.doneCycle = none

/-- What an op in the node table looks like. An op that the other stages have scheduled stays in
its station until the node stage goes through the ready list. -/
def Op.Consistent (stall : Bool) (phase : Phase) (op : Op) : Prop :=
  match op.state with
  | .issued => op.occupies = false ∧ op.inRdyList = false ∧ op.doneCycle = none
  | .inRs => op.occupies = true ∧ op.inRdyList = false ∧ op.srcsNotRdyVector ≠ 0#32 ∧
      op.doneCycle = none
  | .waitFwd | .ready => op.occupies = true ∧ op.inRdyList = true ∧ op.srcsNotRdyVector = 0#32 ∧
      op.doneCycle = none
  | .tentative => op.occupies = true ∧ op.inRdyList = true ∧ op.srcsNotRdyVector = 0#32 ∧
      op.doneCycle = none ∧ stall = false
  | .scheduled | .miss => op.inRdyList = op.occupies ∧ op.srcsNotRdyVector = 0#32 ∧
      (op.occupies = true → phase ≠ .idle ∧ (stall = true → phase = .exec))
  | .waitDcache | .waitMem => op.inRdyList = op.occupies ∧ op.srcsNotRdyVector = 0#32 ∧
      op.doneCycle = none ∧ (stall = true → op.occupies = false)
  | _ => False

/-- A memory op that did not access the cache. -/
def Op.AwaitsAccess (stall : Bool) (op : Op) : Prop :=
  op.doneCycle = none ∧ (op.state = .waitDcache ∨
    if stall then op.state = .scheduled ∨ op.state = .waitMem else op.state = .tentative)

/-- The op can be latched by the exec stage. -/
def Op.CanFire (op : Op) : Prop := op.state = .ready ∨ op.state = .waitFwd

theorem Op.CanFire.consistent (hf : op.CanFire) (h : op.Consistent stall phase) :
    op.occupies = true ∧ op.inRdyList = true ∧ op.srcsNotRdyVector = 0#32 ∧ op.doneCycle = none := by
  cases hf with
  | inl hstate => simpa [Op.Consistent, hstate] using h
  | inr hstate => simpa [Op.Consistent, hstate] using h

theorem Op.CanFire.not_awaits (hf : op.CanFire) : ¬ op.AwaitsAccess stall := by
  intro h
  cases hf with
  | inl hstate => cases stall <;> simp [Op.AwaitsAccess, hstate] at h
  | inr hstate => cases stall <;> simp [Op.AwaitsAccess, hstate] at h

/-- An op is on the ready list as long as it is in a station and has its sources. -/
theorem Op.Consistent.inRdyList_iff (h : op.Consistent stall phase) :
    op.inRdyList = true ↔ op.occupies = true ∧ op.srcsNotRdyVector = 0#32 := by
  cases hstate : op.state <;> simp only [Op.Consistent, hstate] at h <;> simp_all

/-- The exec stage may be updated in any phase. -/
theorem Op.Consistent.exec (h : op.Consistent stall phase) : op.Consistent stall .exec := by
  cases hstate : op.state <;> simp only [Op.Consistent, hstate] at h ⊢ <;> simp_all

/-- The dcache stage is updated before the exec stage. -/
theorem Op.Consistent.dcache (h : op.Consistent stall phase) (hphase : phase ≠ .exec) :
    op.Consistent stall .dcache := by
  cases hstate : op.state <;> simp only [Op.Consistent, hstate] at h ⊢ <;> cases stall <;> simp_all

/-- Only the ops in the first two states wait for sources. -/
theorem Op.Consistent.of_pending (h : op.Consistent stall phase) (hpending : op.srcsNotRdyVector ≠ 0#32) :
    op.state = .issued ∨ op.state = .inRs := by
  cases hstate : op.state <;> simp only [Op.Consistent, hstate] at h <;> simp_all

/-- An op that is done was scheduled, and between two cycles it is not in its station. -/
theorem Op.Consistent.of_done (h : op.Consistent stall .idle) (hdone : op.doneCycle ≠ none) :
    op.state ≠ .issued ∧ op.inRdyList = false ∧ op.occupies = false := by
  cases hstate : op.state <;> simp only [Op.Consistent, hstate] at h <;> simp_all

theorem Op.Consistent.ne_done (h : op.Consistent stall phase) : op.state ≠ .done := by
  intro hstate
  simp [Op.Consistent, hstate] at h

/-- What the node stage keeps of an op that awaits its access. -/
theorem Op.AwaitsAccess.consistent (ha : op.AwaitsAccess stall) (h : op.Consistent stall phase)
    (hphase : phase ≠ .exec) : op.inRdyList = op.occupies ∧ op.srcsNotRdyVector = 0#32 ∧
      (stall = true → op.occupies = false) := by
  obtain ⟨_, ha⟩ := ha
  cases hstate : op.state <;> simp only [Op.Consistent, hstate] at h <;> cases stall <;> simp_all

/-! ## The lists -/

/-- The node table is a list, and with the ops before it, it is the pool in the order of fetch. -/
structure Table (cfg : Config) (s : State) (nl : List OpPtr) : Prop where
  chain : Chain s.nodeList.next s.nodeList.head nl
  tail : s.nodeTail = nl.getLast?
  count : s.nodeCount = nl.length
  bound : nl.length ≤ cfg.nodeTableSize
  order : (nl ++ s.waiting).Pairwise fun p q => (s.ops p).opNum < (s.ops q).opNum
  young : ∀ p ∈ nl ++ s.waiting, (s.ops p).opNum < s.opCount
  valid : ∀ p, (s.ops p).valid = true ↔ p ∈ nl ++ s.waiting

/-- The ready list is a list of the ops in the node table that have the flag. -/
structure ReadyList (s : State) (nl rl : List OpPtr) : Prop where
  chain : Chain s.rdyList.next s.rdyList.head rl
  nodup : rl.Nodup
  mem_iff : ∀ p, p ∈ rl ↔ p ∈ nl ∧ (s.ops p).inRdyList = true

/-- The ops by themselves, and what the stages know of them. -/
structure Stages (cfg : Config) (s : State) (nl : List OpPtr) : Prop where
  node : ∀ p ∈ nl, (s.ops p).Consistent cfg.stallOnWaitMem s.phase
  issued : ∀ p ∈ nl, (s.ops p).issueCycle.any (· ≤ s.cycle) = true
  waiting : ∀ p ∈ s.waiting, (s.ops p).IsWaiting
  sd : ∀ fuId p, s.sd fuId = some p → fuId < cfg.numFus ∧ p ∈ nl ∧ (s.ops p).CanFire
  sd_inj : ∀ f g p, s.sd f = some p → s.sd g = some p → f = g
  memOps : ∀ p ∈ s.memOps, p ∈ nl ∧ (s.ops p).AwaitsAccess cfg.stallOnWaitMem
  next : ∀ p, s.nextOpIntoRs = some p → (s.ops p).state = .issued → p ∈ nl

structure Inv (cfg : Config) (s : State) (nl rl : List OpPtr) : Prop where
  table : Table cfg s nl
  ready : ReadyList s nl rl
  stages : Stages cfg s nl

theorem waiting_init : State.init.waiting = [] := rfl

theorem Inv.init : Inv cfg .init [] [] where
  table := by
    refine ⟨rfl, rfl, rfl, Nat.zero_le _, .nil, fun p hp => ?_, fun p => ⟨fun hv => ?_, fun hp => ?_⟩⟩
    · cases hp
    · cases hv
    · cases hp
  ready := ⟨rfl, List.nodup_nil, fun p => by simp⟩
  stages := by
    refine ⟨by simp, by simp, by simp [waiting_init], fun fuId p hp => ?_, fun f g p hp _ => ?_,
      fun p hp => ?_, fun p hp _ => ?_⟩ <;> cases hp

theorem Table.nodup (h : Table cfg s nl) : (nl ++ s.waiting).Nodup := by
  refine h.order.imp ?_
  intro p q hlt heq
  rw [heq] at hlt
  exact Nat.lt_irrefl _ hlt

theorem Table.nodup_list (h : Table cfg s nl) : nl.Nodup := (List.nodup_append.mp h.nodup).1

theorem Table.not_waiting (h : Table cfg s nl) (hp : p ∈ nl) : p ∉ s.waiting :=
  fun hw => (List.nodup_append.mp h.nodup).2.2 p hp p hw rfl

theorem ReadyList.sub (h : ReadyList s nl rl) (hp : p ∈ rl) : p ∈ nl := ((h.mem_iff p).mp hp).1

/-- The loops over the ready list are as long as the node table. -/
theorem Inv.ready_length (h : Inv cfg s nl rl) : rl.length ≤ s.nodeCount := by
  rw [h.table.count]
  exact (h.ready.nodup.subperm fun p hp => h.ready.sub hp).length_le

/-- An op in the pool that is not fetched only is in the node table. -/
theorem Inv.mem_of_state (h : Inv cfg s nl rl) (hvalid : (s.ops p).valid = true)
    (hstate : (s.ops p).state ≠ .fetched) : p ∈ nl := by
  cases List.mem_append.mp ((h.table.valid p).mp hvalid) with
  | inl hnl => exact hnl
  | inr hwait => exact absurd (h.stages.waiting p hwait).1 hstate

/-! ## One op changes -/

@[simp] theorem State.setOp_ops_self (s : State) (p : OpPtr) (op : Op) : (s.setOp p op).ops p = op :=
  Function.update_self ..

theorem State.setOp_ops_ne (s : State) (op : Op) (h : q ≠ p) : (s.setOp p op).ops q = s.ops q :=
  Function.update_of_ne h ..

/-- Nothing that the node table is made of differs. -/
structure SameTable (s t : State) : Prop where
  nodeList : t.nodeList = s.nodeList
  nodeTail : t.nodeTail = s.nodeTail
  nodeCount : t.nodeCount = s.nodeCount
  waiting : t.waiting = s.waiting
  opCount : t.opCount = s.opCount
  opNum : ∀ p, (t.ops p).opNum = (s.ops p).opNum
  valid : ∀ p, (t.ops p).valid = (s.ops p).valid

theorem Table.congr (h : Table cfg s nl) (hsame : SameTable s t) : Table cfg t nl where
  chain := hsame.nodeList ▸ h.chain
  tail := hsame.nodeTail.trans h.tail
  count := hsame.nodeCount.trans h.count
  bound := h.bound
  order := by
    rw [hsame.waiting]
    exact h.order.imp fun hlt => by rwa [hsame.opNum, hsame.opNum]
  young p hp := by
    rw [hsame.waiting] at hp
    rw [hsame.opNum, hsame.opCount]
    exact h.young p hp
  valid p := by
    rw [hsame.valid, hsame.waiting]
    exact h.valid p

theorem SameTable.setOp (hnum : op.opNum = (s.ops p).opNum) (hvalid : op.valid = (s.ops p).valid) :
    SameTable s (s.setOp p op) := by
  refine ⟨rfl, rfl, rfl, rfl, rfl, fun q => ?_, fun q => ?_⟩
  · by_cases hq : q = p
    · rw [hq, State.setOp_ops_self, hnum]
    · rw [State.setOp_ops_ne s op hq]
  · by_cases hq : q = p
    · rw [hq, State.setOp_ops_self, hvalid]
    · rw [State.setOp_ops_ne s op hq]

theorem ReadyList.setOp (h : ReadyList s nl rl) (hrdy : p ∈ nl → op.inRdyList = (s.ops p).inRdyList) :
    ReadyList (s.setOp p op) nl rl where
  chain := h.chain
  nodup := h.nodup
  mem_iff q := by
    rw [h.mem_iff]
    by_cases hq : q = p
    · subst hq
      rw [State.setOp_ops_self]
      exact and_congr_right fun hnl => by rw [hrdy hnl]
    · rw [State.setOp_ops_ne s op hq]

/-- What has to be shown of the new op where it is one of a stage. -/
structure Fits (cfg : Config) (s : State) (nl : List OpPtr) (p : OpPtr) (op : Op) : Prop where
  node : p ∈ nl → op.Consistent cfg.stallOnWaitMem s.phase ∧ op.issueCycle = (s.ops p).issueCycle
  waiting : p ∈ s.waiting → op.IsWaiting
  sd : ∀ fuId, s.sd fuId = some p → op.CanFire
  memOps : p ∈ s.memOps → op.AwaitsAccess cfg.stallOnWaitMem
  next : s.nextOpIntoRs = some p → op.state = .issued → p ∈ nl

theorem Stages.setOp (h : Stages cfg s nl) (hfit : Fits cfg s nl p op) :
    Stages cfg (s.setOp p op) nl where
  node q hq := by
    by_cases hqp : q = p
    · subst hqp
      rw [State.setOp_ops_self]
      exact (hfit.node hq).1
    · rw [State.setOp_ops_ne s op hqp]
      exact h.node q hq
  issued q hq := by
    by_cases hqp : q = p
    · subst hqp
      rw [State.setOp_ops_self, (hfit.node hq).2]
      exact h.issued q hq
    · rw [State.setOp_ops_ne s op hqp]
      exact h.issued q hq
  waiting q hq := by
    by_cases hqp : q = p
    · subst hqp
      rw [State.setOp_ops_self]
      exact hfit.waiting hq
    · rw [State.setOp_ops_ne s op hqp]
      exact h.waiting q hq
  sd fuId q hq := by
    obtain ⟨hfu, hnl, hfire⟩ := h.sd fuId q hq
    refine ⟨hfu, hnl, ?_⟩
    by_cases hqp : q = p
    · subst hqp
      rw [State.setOp_ops_self]
      exact hfit.sd fuId hq
    · rw [State.setOp_ops_ne s op hqp]
      exact hfire
  sd_inj := h.sd_inj
  memOps q hq := by
    obtain ⟨hnl, hawait⟩ := h.memOps q hq
    refine ⟨hnl, ?_⟩
    by_cases hqp : q = p
    · subst hqp
      rw [State.setOp_ops_self]
      exact hfit.memOps hq
    · rw [State.setOp_ops_ne s op hqp]
      exact hawait
  next q hq hstate := by
    by_cases hqp : q = p
    · subst hqp
      rw [State.setOp_ops_self] at hstate
      exact hfit.next hq hstate
    · rw [State.setOp_ops_ne s op hqp] at hstate
      exact h.next q hq hstate

/-- An op that looks the same to every list and every stage. -/
theorem Inv.setOp (h : Inv cfg s nl rl) (hnum : op.opNum = (s.ops p).opNum)
    (hvalid : op.valid = (s.ops p).valid) (hrdy : p ∈ nl → op.inRdyList = (s.ops p).inRdyList)
    (hfit : Fits cfg s nl p op) : Inv cfg (s.setOp p op) nl rl where
  table := h.table.congr (.setOp hnum hvalid)
  ready := h.ready.setOp hrdy
  stages := h.stages.setOp hfit

/-- An op with the same state, flags and cycles. -/
theorem Inv.setOp_same (h : Inv cfg s nl rl) (hnum : op.opNum = (s.ops p).opNum)
    (hvalid : op.valid = (s.ops p).valid) (hstate : op.state = (s.ops p).state)
    (hrdy : op.inRdyList = (s.ops p).inRdyList) (hocc : op.occupies = (s.ops p).occupies)
    (hissue : op.issueCycle = (s.ops p).issueCycle) (hdone : op.doneCycle = (s.ops p).doneCycle)
    (hvec : p ∈ nl → op.srcsNotRdyVector = (s.ops p).srcsNotRdyVector) :
    Inv cfg (s.setOp p op) nl rl := by
  refine h.setOp hnum hvalid (fun _ => hrdy) ⟨fun hp => ?_, fun hp => ?_, fun fuId hp => ?_,
    fun hp => ?_, fun hp => ?_⟩
  · have hold := h.stages.node p hp
    refine ⟨?_, hissue⟩
    rw [Op.Consistent, hstate, hrdy, hocc, hdone, hvec hp]
    exact hold
  · rw [Op.IsWaiting, hstate, hrdy, hocc, hdone]
    exact h.stages.waiting p hp
  · rw [Op.CanFire, hstate]
    exact (h.stages.sd fuId p hp).2.2
  · rw [Op.AwaitsAccess, hdone, hstate]
    exact (h.stages.memOps p hp).2
  · rw [hstate]
    exact h.stages.next p hp

/-- An op that cannot fire was not picked. -/
theorem Inv.not_picked (h : Inv cfg s nl rl) (hstate : ¬ (s.ops p).CanFire) (fuId : ℕ) :
    s.sd fuId ≠ some p :=
  fun hsd => hstate (h.stages.sd fuId p hsd).2.2

/-- A new op on the ready list. -/
theorem Inv.pushReady (h : Inv cfg s nl rl) (hp : p ∈ nl) (hrdy : (s.ops p).inRdyList = false)
    (hnum : op.opNum = (s.ops p).opNum) (hvalid : op.valid = (s.ops p).valid)
    (hfit : Fits cfg s nl p { op with inRdyList := true }) :
    Inv cfg ((s.setOp p op).pushReady p) nl (p :: rl) := by
  have hnot : p ∉ rl := fun hmem => by
    rw [((h.ready.mem_iff p).mp hmem).2] at hrdy
    cases hrdy
  have hops : ((s.setOp p op).pushReady p).ops = (s.setOp p { op with inRdyList := true }).ops := by
    simp [State.pushReady, State.setOp]
  have hstages := h.stages.setOp hfit
  have hsame : SameTable s (s.setOp p { op with inRdyList := true }) := .setOp hnum hvalid
  have htable := h.table.congr hsame
  have hpush := h.ready.chain.push hnot
  refine ⟨htable.congr ⟨rfl, rfl, rfl, rfl, rfl, fun q => by rw [hops], fun q => by rw [hops]⟩,
    ⟨hpush, List.nodup_cons.mpr ⟨hnot, h.ready.nodup⟩, fun q => ?_⟩, ?_⟩
  · rw [hops, List.mem_cons, h.ready.mem_iff]
    by_cases hq : q = p
    · subst hq
      simp [hp]
    · simp [hq, State.setOp_ops_ne s _ hq]
  · constructor
    · intro q hq
      rw [hops]
      exact hstages.node q hq
    · intro q hq
      rw [hops]
      exact hstages.issued q hq
    · intro q hq
      rw [hops]
      exact hstages.waiting q hq
    · intro fuId q hq
      rw [hops]
      exact hstages.sd fuId q hq
    · exact hstages.sd_inj
    · intro q hq
      rw [hops]
      exact hstages.memOps q hq
    · intro q hq
      rw [hops]
      exact hstages.next q hq

end Scarab.Node
