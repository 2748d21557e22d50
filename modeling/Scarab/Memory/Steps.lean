import Scarab.Memory.Derivation
import Scarab.Memory.Machine

/-! # What a step of the machine does

A step is a run of quiet moves, the body of a loop, a response that comes to the fill queue of the L1,
or leaves the requests as they are. The invariants over runs are derived from that. -/

namespace Scarab.Memory

variable {cfg : Config} {env : Env} {base s t m : State} {id ii : ℕ} {k : QueueId} {overtakes : Prop} {done : Bool}

/-! ## Misses in the L1 -/

/-- What the prefetchers are told of a miss of the request. -/
def MemReq.missCalls (cfg : Config) (req : MemReq) : List PrefCall :=
  (if !cfg.prefOracleTrainOn && cfg.trains req.type then [.ul1Miss req.procId req.addr req.loadPC req.globalHist]
    else []) ++
  if (req.type.isPrefetch || req.demandMatchPrefetch) && req.prefetcherId != 0 then
    [.ul1sent req.procId req.addr req.prefetcherId]
  else []

/-- The request is still to miss in the L1. -/
def MemReqState.awaitsL1 : MemReqState → Bool
  | .mlcNew | .mlcWait | .l1New | .l1Wait => true
  | _ => false

theorem State.trainMiss_eq (s : State) (cfg : Config) (id : ℕ) : s.trainMiss cfg id =
    { s with calls := s.calls ++ ((s.reqBuffer id).missCalls cfg).map fun call => ((s.reqBuffer id).serial, call) } := by
  unfold State.trainMiss MemReq.missCalls
  dsimp only
  by_cases hmiss : (!cfg.prefOracleTrainOn && cfg.trains (s.reqBuffer id).type) = true
  · by_cases hsent : (((s.reqBuffer id).type.isPrefetch || (s.reqBuffer id).demandMatchPrefetch) &&
        (s.reqBuffer id).prefetcherId != 0) = true
    · rw [if_pos hmiss, if_pos hsent, if_pos hmiss, if_pos hsent]
      simp [State.call]
    · rw [if_pos hmiss, if_neg hsent, if_pos hmiss, if_neg hsent]
      rfl
  · by_cases hsent : (((s.reqBuffer id).type.isPrefetch || (s.reqBuffer id).demandMatchPrefetch) &&
        (s.reqBuffer id).prefetcherId != 0) = true
    · rw [if_neg hmiss, if_pos hsent, if_neg hmiss, if_pos hsent]
      rfl
    · rw [if_neg hmiss, if_neg hsent, if_neg hmiss, if_neg hsent]
      simp

theorem State.trainMiss_nil (h : (s.reqBuffer id).missCalls cfg = []) : s.trainMiss cfg id = s := by
  rw [State.trainMiss_eq, h, List.map_nil, List.append_nil]

/-! ## Progress -/

@[simp] theorem State.markEntry_reqBuffer : (s.markEntry k ii).reqBuffer = s.reqBuffer := rfl

@[simp] theorem State.insertEntry_reqBuffer (priority : Priority) :
    (s.insertEntry k id priority).reqBuffer = s.reqBuffer := rfl

@[simp] theorem State.setL1_reqBuffer (procId : ℕ) (c : Cache LineData) : (s.setL1 procId c).reqBuffer = s.reqBuffer := rfl

@[simp] theorem State.count_reqBuffer (f : Pass → Pass) : (s.count f).reqBuffer = s.reqBuffer := rfl

theorem State.freeReq_other {id' : ℕ} (h : id' ≠ id) : (s.freeReq id).reqBuffer id' = s.reqBuffer id' := if_neg h

/-- A single request changes, and does not come to await the L1. -/
structure State.Touches (id : ℕ) (s t : State) : Prop where
  calls : t.calls = s.calls
  serials : t.serials = s.serials
  accepted : t.accepted = s.accepted
  others : ∀ id', id' ≠ id → t.reqBuffer id' = s.reqBuffer id'
  serial : (t.reqBuffer id).serial = (s.reqBuffer id).serial
  awaits : (t.reqBuffer id).state.awaitsL1 = true → (s.reqBuffer id).state.awaitsL1 = true

theorem State.AtMiss.state_after (hmiss : base.AtMiss cfg id) (hquiet : QuietRun cfg overtakes base s) :
    (s.reqBuffer id).state = .l1Wait :=
  (hquiet.follows (by simp [hmiss.state])).state_eq hmiss.state (by decide) (by decide)

/-- The request that a loop is at is in use, and not in Ramulator. -/
theorem Progress.busy (h : Progress cfg env base k id ii s done t) :
    (s.reqBuffer id).state ≠ .inv ∧ (s.reqBuffer id).state ≠ .memNew := by
  have hwait {overtakes : Prop} (hmiss : base.AtMiss cfg id) (hquiet : QuietRun cfg overtakes base s) :
      (s.reqBuffer id).state ≠ .inv ∧ (s.reqBuffer id).state ≠ .memNew := by
    simp [hmiss.state_after hquiet]
  cases h with
  | toFill next state rdyCycle back priority h => cases h <;> simp [*]
  | toL1 rdyCycle reserves priority hk hstate => simp [hstate]
  | reviveL1 rdyCycle priority hk hstate => simp [hstate]
  | release rdyCycle back h =>
      cases h with
      | core hstate => cases hstate <;> simp [*]
      | _ => simp [*]
  | fill c way rdyCycle hk hstate => simp [hstate]
  | filled rdyCycle hk hstate => simp [hstate]
  | fillWb c way rdyCycle hk hmiss hquiet => exact hwait hmiss hquiet
  | lost rdyCycle hk hstate => simp [hstate]
  | fillLost c way rdyCycle hk hmiss hquiet => exact hwait hmiss hquiet
  | fillOver c way rdyCycle priority hk hmiss hquiet => exact hwait hmiss hquiet
  | revive c way rdyCycle priority hk hmiss hquiet => exact hwait hmiss hquiet
  | send inflightReadReqs hk hsend htaken hquiet hstate => simp [hstate]
  | reject hk hrejects hquiet hstate => simp [hstate]
  | handOver rdyCycle priority hk hsend hconstant hquiet hstate => simp [hstate]

/-- What comes before the prefetchers are told. -/
theorem Progress.touches (h : Progress cfg env base k id ii s done t) :
    ∃ m, (t = m ∨ t = m.trainMiss cfg id ∧
      ((¬ base.Rejects cfg env id ∧ (s.reqBuffer id).state = .l1Wait ∧ (m.reqBuffer id).state ≠ .inv ∧
          (m.reqBuffer id).state.awaitsL1 = false) ∨
        base.Rejects cfg env id ∧ (m.reqBuffer id).missCalls cfg = (base.reqBuffer id).missCalls cfg)) ∧
      State.Touches id s m := by
  have hread (hwb : (base.reqBuffer id).type = .wb) : ¬ base.Rejects cfg env id := by
    intro hrejects
    cases hrejects.read.symm.trans (congrArg MemReqType.isWb hwb)
  cases h with
  | toFill next state rdyCycle back priority h =>
      refine ⟨_, .inl rfl, ⟨rfl, rfl, rfl, fun _ => State.setReq_other, ?_, ?_⟩⟩
      · simp
      · cases h <;> simp [MemReqState.awaitsL1]
  | toL1 rdyCycle reserves priority hk hstate =>
      refine ⟨_, .inl rfl, ⟨rfl, rfl, rfl, fun _ => State.setReq_other, ?_, fun _ => ?_⟩⟩
      · simp
      · simp [hstate, MemReqState.awaitsL1]
  | reviveL1 rdyCycle priority hk hstate =>
      refine ⟨_, .inl rfl, ⟨rfl, rfl, rfl, fun id' hne => ?_, ?_, fun _ => ?_⟩⟩
      · simp [State.freeReq_other hne, State.setReq_other hne]
      · simp
      · simp [hstate, MemReqState.awaitsL1]
  | release rdyCycle back h =>
      refine ⟨_, .inl rfl, ⟨rfl, rfl, rfl, fun id' hne => ?_, ?_, ?_⟩⟩
      · simp [State.freeReq_other hne, State.setReq_other hne]
      · simp [State.freeReq_self]
      · simp [State.freeReq_self, MemReqState.awaitsL1]
  | fill c way rdyCycle hk hstate =>
      refine ⟨_, .inl rfl, ⟨rfl, rfl, rfl, fun _ => State.setReq_other, ?_, ?_⟩⟩
      · simp
      · rw [State.setReq_self]
        split <;> exact fun hawaits => nomatch hawaits
  | filled rdyCycle hk hstate =>
      refine ⟨_, .inl rfl, ⟨rfl, rfl, rfl, fun _ => State.setReq_other, ?_, ?_⟩⟩
      · simp
      · rw [State.setReq_self]
        exact fun hawaits => nomatch hawaits
  | fillWb c way rdyCycle hk hmiss hquiet =>
      refine ⟨_, .inl rfl, ⟨rfl, rfl, rfl, fun id' hne => ?_, ?_, ?_⟩⟩
      · simp [State.freeReq_other hne, State.setReq_other hne]
      · simp [State.freeReq_self]
      · simp [State.freeReq_self, MemReqState.awaitsL1]
  | lost rdyCycle hk hstate =>
      refine ⟨_, .inl rfl, ⟨rfl, rfl, rfl, fun _ => State.setReq_other, ?_, ?_⟩⟩
      · simp
      · simp [MemReqState.awaitsL1]
  | fillLost c way rdyCycle hk hmiss hquiet =>
      refine ⟨_, .inl rfl, ⟨rfl, rfl, rfl, fun _ => State.setReq_other, ?_, ?_⟩⟩
      · simp
      · simp [MemReqState.awaitsL1]
  | fillOver c way rdyCycle priority hk hmiss hquiet hwb =>
      refine ⟨_, .inr ⟨rfl, .inl ⟨hread hwb, hmiss.state_after hquiet, ?_, ?_⟩⟩,
        ⟨rfl, rfl, rfl, fun _ => State.setReq_other, ?_, ?_⟩⟩
      · simp
      · simp [MemReqState.awaitsL1]
      · simp
      · simp [MemReqState.awaitsL1]
  | revive c way rdyCycle priority hk hmiss hquiet hwb =>
      refine ⟨_, .inr ⟨rfl, .inl ⟨hread hwb, hmiss.state_after hquiet, ?_, ?_⟩⟩, ⟨rfl, rfl, rfl, fun id' hne => ?_, ?_, ?_⟩⟩
      · simp
      · simp [MemReqState.awaitsL1]
      · simp [State.freeReq_other hne, State.setReq_other hne]
      · simp
      · simp [MemReqState.awaitsL1]
  | send inflightReadReqs hk hsend htaken hquiet hstate =>
      generalize hm : { s.setReq id { s.reqBuffer id with state := .memNew, queue := none } with
        inflightReadReqs }.markEntry k ii = m
      obtain ⟨n, -, hreserve⟩ := State.reserve_eq m cfg id
      have hother {id' : ℕ} (hne : id' ≠ id) : m.reqBuffer id' = s.reqBuffer id' := by
        rw [← hm]
        exact State.setReq_other hne
      have hself : m.reqBuffer id = { s.reqBuffer id with state := .memNew, queue := none } := by
        rw [← hm]
        exact State.setReq_self s id _
      have hsame : m.calls = s.calls ∧ m.serials = s.serials ∧ m.accepted = s.accepted := by
        rw [← hm]
        exact ⟨rfl, rfl, rfl⟩
      refine ⟨_, .inr ⟨rfl, .inl ⟨htaken, hstate, ?_, ?_⟩⟩, ?_⟩
      · rw [hreserve]
        simp [hself]
      · rw [hreserve]
        simp [hself, MemReqState.awaitsL1]
      · rw [hreserve]
        refine ⟨hsame.1, hsame.2.1, hsame.2.2, fun id' hne => (State.setReq_other hne).trans (hother hne), ?_, ?_⟩
        · simp [hself]
        · simp [hself, MemReqState.awaitsL1]
  | reject hk hrej hquiet hstate hread hreq =>
      obtain ⟨n, -, hreserve⟩ := State.reserve_eq s cfg id
      obtain ⟨_, hreq⟩ := hreq
      refine ⟨s.reserve cfg id, .inr ⟨rfl, .inr ⟨hrej, ?_⟩⟩, ?_⟩
      · rw [hreserve, State.setReq_self, hreq]
        rfl
      · rw [hreserve]
        refine ⟨rfl, rfl, rfl, fun _ => State.setReq_other, ?_, ?_⟩
        · simp
        · simp
  | handOver rdyCycle priority hk hsend hconstant hquiet hstate =>
      have hnot : ¬ base.Rejects cfg env id := by
        intro hrejects
        cases hrejects.ramulator.symm.trans hconstant
      refine ⟨_, .inr ⟨rfl, .inl ⟨hnot, hstate, ?_, ?_⟩⟩, ⟨rfl, rfl, rfl, fun _ => State.setReq_other, ?_, ?_⟩⟩
      · simp
      · simp [MemReqState.awaitsL1]
      · simp
      · simp [MemReqState.awaitsL1]

/-- Only a request that Ramulator takes comes to it. -/
theorem Progress.ramulatorIds (h : Progress cfg env base k id ii s done t) :
    t.ramulatorIds = s.ramulatorIds ∨ (t.reqBuffer id).state = .memNew ∧ t.ramulatorIds.Perm (id :: s.ramulatorIds) := by
  have htrain (m : State) : (m.trainMiss cfg id).ramulatorIds = m.ramulatorIds := by
    rw [State.trainMiss_eq]
    rfl
  have hreserve (m : State) : (m.reserve cfg id).ramulatorIds = m.ramulatorIds := by
    obtain ⟨n, -, heq⟩ := State.reserve_eq m cfg id
    rw [heq]
    rfl
  cases h with
  | fillOver => exact .inl (htrain _)
  | revive => exact .inl (htrain _)
  | handOver => exact .inl (htrain _)
  | reject => exact .inl ((htrain _).trans (hreserve _))
  | send inflightReadReqs hk hsend htaken hquiet hstate hread hramulator hinflight =>
      refine .inr ⟨?_, ?_⟩
      · obtain ⟨n, -, heq⟩ := State.reserve_eq ({ s.setReq id { s.reqBuffer id with state := .memNew, queue := none } with
          inflightReadReqs }.markEntry k ii) cfg id
        rw [State.trainMiss_eq, heq]
        simp
      · rw [htrain, hreserve]
        exact hinflight.perm.append_right _
  | _ => exact .inl rfl

theorem RestRun.quiet (h : RestRun s t) : QuietRun cfg overtakes s t := by
  induction h with
  | refl => exact .refl
  | tail _ hmove ih => exact ih.tail hmove.quiet

/-! ## Ramulator -/

/-- The requests in Ramulator are there once. -/
structure State.Outstanding (s : State) : Prop where
  state : ∀ id ∈ s.ramulatorIds, (s.reqBuffer id).state = .memNew
  nodup : s.ramulatorIds.Nodup

/-- What is outstanding stays so, and nothing comes to it. -/
structure State.Stays (s t : State) : Prop where
  state : ∀ id, (s.reqBuffer id).state = .memNew → (t.reqBuffer id).state = .memNew
  ids : t.ramulatorIds = s.ramulatorIds

theorem State.Outstanding.stays (h : s.Outstanding) (hst : s.Stays t) : t.Outstanding := by
  refine ⟨fun id hid => ?_, ?_⟩
  · rw [hst.ids] at hid
    exact hst.state id (h.state id hid)
  · rw [hst.ids]
    exact h.nodup

theorem State.stays_of_req (id : ℕ) (hids : t.ramulatorIds = s.ramulatorIds)
    (hothers : ∀ id', id' ≠ id → t.reqBuffer id' = s.reqBuffer id')
    (hid : (s.reqBuffer id).state = .memNew → (t.reqBuffer id).state = .memNew) : s.Stays t := by
  refine ⟨fun id' hnew => ?_, hids⟩
  by_cases hsame : id' = id
  · subst hsame
    exact hid hnew
  · rw [hothers id' hsame]
    exact hnew

theorem Quiet.stays (h : Quiet cfg overtakes s t) : s.Stays t := by
  refine ⟨fun id hnew => ?_, ?_⟩
  · exact (h.follows (by simp [hnew])).state_eq hnew (by decide) (by decide)
  · cases h <;> rfl

theorem QuietRun.outstanding (h : QuietRun cfg overtakes s t) (hs : s.Outstanding) : t.Outstanding := by
  induction h with
  | refl => exact hs
  | tail _ hmove ih => exact ih.stays hmove.stays

theorem Progress.outstanding (h : Progress cfg env base k id ii s done t) (hs : s.Outstanding) : t.Outstanding := by
  have hbusy := h.busy.2
  obtain ⟨m, heq, htouches⟩ := h.touches
  have hothers {id' : ℕ} (hne : id' ≠ id) : t.reqBuffer id' = s.reqBuffer id' := by
    rw [← htouches.others id' hne]
    rcases heq with rfl | ⟨rfl, -⟩
    · rfl
    · rw [State.trainMiss_eq]
  have hout {id' : ℕ} (hmem : id' ∈ s.ramulatorIds) : id' ≠ id := by
    rintro rfl
    exact hbusy (hs.state _ hmem)
  cases h.ramulatorIds with
  | inl hids => exact hs.stays (State.stays_of_req id hids (fun _ => hothers) fun hnew => absurd hnew hbusy)
  | inr hsent =>
      obtain ⟨hnew, hperm⟩ := hsent
      refine ⟨fun id' hmem => ?_, hperm.nodup_iff.mpr (List.nodup_cons.mpr ⟨fun hmem => hout hmem rfl, hs.nodup⟩)⟩
      cases List.mem_cons.mp (hperm.mem_iff.mp hmem) with
      | inl hid =>
          rw [hid]
          exact hnew
      | inr hold =>
          rw [hothers (hout hold)]
          exact hs.state id' hold

/-! ## Steps -/

/-- The step for an entry, in terms of what its loop body does. -/
theorem State.nextEntry_step (h : s.nextEntry cfg env = .ok t) :
    ∃ pass id done m n, s.pass = some pass ∧ s.EntryAt pass.queue pass.ii id ∧
      EntryStep cfg env s pass.queue id pass.ii s done m ∧
        (n = m.countIf done id ∧ (pass.queue = .l1fill → done = true → (m.reqBuffer id).state ≠ .inv) ∨
          pass.queue = .l1fill ∧ done = true ∧ (m.countRemoval id).removeFromL1FillQueue cfg = .ok n) ∧
          t = n.count fun pass => { pass with ii := pass.ii + 1 } := by
  unfold State.nextEntry at h
  cases hpass : s.pass with
  | none =>
      rw [hpass] at h
      cases h
  | some pass =>
      rw [hpass] at h
      dsimp only at h
      cases hentry : (s.queue pass.queue)[pass.ii]? with
      | none =>
          rw [hentry] at h
          cases h
      | some entry =>
          rw [hentry] at h
          obtain ⟨n, hn, h⟩ := Execution.bind_eq_ok.mp h
          have hat : s.EntryAt pass.queue pass.ii entry.reqbuf := by
            unfold State.EntryAt
            rw [hentry]
            rfl
          obtain ⟨done, m, hstep, ht⟩ := State.memProcessEntry_step hpass hat hn
          exact ⟨pass, entry.reqbuf, done, m, n, rfl, hat, hstep, ht,
            (Except.ok.inj h).symm⟩

/-- The requests, the calls and the ops are the same. -/
structure State.Same (s t : State) : Prop where
  reqBuffer : t.reqBuffer = s.reqBuffer
  reqBufferFreeList : t.reqBufferFreeList = s.reqBufferFreeList
  calls : t.calls = s.calls
  serials : t.serials = s.serials
  accepted : t.accepted = s.accepted
  freed : t.freed = s.freed
  reqCount : t.reqCount = s.reqCount
  numReqBuffersPerCore : t.numReqBuffersPerCore = s.numReqBuffersPerCore
  ramulatorIds : t.ramulatorIds.Perm s.ramulatorIds

theorem State.Same.refl (s : State) : s.Same s := ⟨rfl, rfl, rfl, rfl, rfl, rfl, rfl, rfl, .refl _⟩

theorem State.Same.trans (h : s.Same m) (h' : m.Same t) : s.Same t :=
  ⟨h'.reqBuffer.trans h.reqBuffer, h'.reqBufferFreeList.trans h.reqBufferFreeList, h'.calls.trans h.calls,
    h'.serials.trans h.serials, h'.accepted.trans h.accepted, h'.freed.trans h.freed, h'.reqCount.trans h.reqCount,
    h'.numReqBuffersPerCore.trans h.numReqBuffersPerCore, h'.ramulatorIds.trans h.ramulatorIds⟩

/-- A step of the machine. -/
inductive State.Does (cfg : Config) (event : Event) (s t : State) : Prop where
  | same (h : s.Same t)
  | quiet (h : QuietRun cfg True s t)
  | entry {env : Env} {pass : Pass} {id : ℕ} {done : Bool} {m : State} (hevent : event = .entry env)
      (hpass : s.pass = some pass) (hentry : s.EntryAt pass.queue pass.ii id)
      (h : EntryStep cfg env s pass.queue id pass.ii s done m) (hsame : m.Same t)
  /-- A response of Ramulator. -/
  | fills {id : ℕ} (rdyCycle : ℕ) (hids : s.ramulatorIds.Perm (id :: t.ramulatorIds))
      (h : (s.setReq id { s.reqBuffer id with state := .fillL1, rdyCycle, queue := some .l1fill }).Same
        { t with inflightReadReqs := s.inflightReadReqs, respQueue := s.respQueue })

/-- The ends of the loops leave the requests. -/
theorem State.removeEntries_same {reservedIn : QueueId} {n : ℕ} (h : s.removeEntries cfg k reservedIn n = .ok t) :
    s.Same t := by
  unfold State.removeEntries at h
  dsimp only at h
  split at h
  · exact Except.ok.inj h ▸ .refl s
  · split at h
    · split at h
      · cases h
      · rw [← Except.ok.inj h]
        exact ⟨rfl, rfl, rfl, rfl, rfl, rfl, rfl, rfl, .refl _⟩
    · rw [← Except.ok.inj h]
      exact ⟨rfl, rfl, rfl, rfl, rfl, rfl, rfl, rfl, .refl _⟩

theorem State.sortQueue_same (s : State) (k : QueueId) : s.Same (s.sortQueue k) :=
  ⟨rfl, rfl, rfl, rfl, rfl, rfl, rfl, rfl, .refl _⟩

theorem State.finishAccess_same {out : Option QueueId} {pass : Pass} (h : s.finishAccess cfg k out pass = .ok t) :
    s.Same t := by
  have hcut : s.Same (if pass.removalCount = 0 then s
      else if cfg.hierMshrOn then
        (s.cutQueue k pass.removalCount).setReserved k ((s.cutQueue k pass.removalCount).reserved k + pass.reserveEntryCount)
      else s.cutQueue k pass.removalCount) := by
    split
    · exact .refl s
    · split <;> exact ⟨rfl, rfl, rfl, rfl, rfl, rfl, rfl, rfl, .refl _⟩
  unfold State.finishAccess at h
  dsimp only at h
  split at h
  · cases h
  · split at h
    · cases h
    · rw [← Except.ok.inj h]
      split
      · cases out with
        | none => exact hcut
        | some k => exact hcut.trans (State.sortQueue_same _ k)
      · exact hcut

theorem State.finishPass_same {pass : Pass} (h : s.finishPass cfg pass = .ok t) : s.Same t := by
  unfold State.finishPass at h
  split at h
  · exact State.finishAccess_same h
  · exact State.finishAccess_same h
  · exact State.removeEntries_same h
  · exact State.removeEntries_same h
  · rw [← Except.ok.inj h]
    split
    · exact .refl s
    · exact ⟨rfl, rfl, rfl, rfl, rfl, rfl, rfl, rfl, .refl _⟩

theorem State.enqueueResponse_same {physAddr : Addr} (h : s.enqueueResponse physAddr = .ok t) : s.Same t := by
  unfold State.enqueueResponse at h
  cases hfind : s.inflightReadReqs.find? fun reqs => reqs.1 == physAddr with
  | none =>
      rw [hfind] at h
      cases h
  | some reqs =>
      rw [hfind] at h
      obtain ⟨hkey, before, after, heq, hfirst⟩ := List.find?_eq_some_iff_append.mp hfind
      have herase : s.inflightReadReqs.eraseP (fun reqs => reqs.1 == physAddr) = before ++ after := by
        have hhead : (reqs :: after).eraseP (fun reqs => reqs.1 == physAddr) = after := List.eraseP_cons_of_pos hkey
        rw [heq, List.eraseP_append_right _ (by simpa using hfirst), hhead]
      rw [← Except.ok.inj h]
      refine ⟨rfl, rfl, rfl, rfl, rfl, rfl, rfl, rfl, ?_⟩
      unfold State.ramulatorIds
      dsimp only
      rw [herase, heq]
      simp only [List.flatMap_append, List.flatMap_cons, List.map_append, List.map_map, Function.comp_def, List.map_id']
      rw [List.append_assoc, List.append_assoc, List.append_assoc]
      refine .append_left _ ?_
      rw [← List.append_assoc, ← List.append_assoc]
      exact List.perm_append_comm.trans (.of_eq (List.append_assoc _ _ _).symm)

theorem State.tryCompletingRequest_does {event : Event} (h : s.tryCompletingRequest cfg = .ok t) :
    s.Does cfg event t := by
  unfold State.tryCompletingRequest at h
  cases hresps : s.respQueue with
  | nil =>
      rw [hresps] at h
      exact .same (Except.ok.inj h ▸ .refl s)
  | cons resp resps =>
      rw [hresps] at h
      dsimp only at h
      split at h
      · obtain ⟨m, hm, h⟩ := Execution.bind_eq_ok.mp h
        obtain ⟨priority', l1fillSeqNum, -, rfl⟩ := State.memCompleteBusInAccess_eq hm
        rw [← Except.ok.inj h]
        refine @State.Does.fills _ _ _ _ resp.2 (s.l1CycleCount + 1) ?_ ⟨rfl, rfl, rfl, rfl, rfl, rfl, rfl, rfl, .refl _⟩
        unfold State.ramulatorIds
        rw [hresps, List.map_cons]
        exact List.perm_middle
      · exact .same (Except.ok.inj h ▸ .refl s)

/-- What a step of the machine does. -/
theorem State.step_does {event : Event} (h : s.step cfg event = .ok t) : s.Does cfg event t := by
  have hsame (m : State) (hreqs : m.reqBuffer = s.reqBuffer) (hfree : m.reqBufferFreeList = s.reqBufferFreeList)
      (hcalls : m.calls = s.calls) (hserials : m.serials = s.serials) (haccepted : m.accepted = s.accepted)
      (hfreed : m.freed = s.freed) (hcount : m.reqCount = s.reqCount)
      (hcores : m.numReqBuffersPerCore = s.numReqBuffersPerCore) (hids : m.ramulatorIds = s.ramulatorIds) :
      s.Does cfg event m :=
    .same ⟨hreqs, hfree, hcalls, hserials, haccepted, hfreed, hcount, hcores, .of_eq hids⟩
  have hbetween (hb : (if s.pass.isNone then s.between cfg event else .error "within a loop") = .ok t) :
      s.pass = none ∧ s.between cfg event = .ok t := by
    split at hb
    · next hnone => exact ⟨Option.isNone_iff_eq_none.mp hnone, hb⟩
    · cases hb
  cases event with
  | entry env =>
      obtain ⟨pass, id, done, m, n, hpass, hat, hstep, hn, rfl⟩ := State.nextEntry_step h
      refine .entry rfl hpass hat hstep (State.Same.trans (m := n) ?_ ⟨rfl, rfl, rfl, rfl, rfl, rfl, rfl, rfl, .refl _⟩)
      rcases hn with ⟨rfl, -⟩ | ⟨-, -, hcut⟩
      · unfold State.countIf
        split
        · exact ⟨rfl, rfl, rfl, rfl, rfl, rfl, rfl, rfl, .refl _⟩
        · exact .refl m
      · obtain ⟨o, ho, hcut⟩ := Execution.bind_eq_ok.mp hcut
        have hcount : m.Same (m.countRemoval id) := ⟨rfl, rfl, rfl, rfl, rfl, rfl, rfl, rfl, .refl _⟩
        rw [← Except.ok.inj hcut]
        exact (hcount.trans (State.removeEntries_same ho)).trans ⟨rfl, rfl, rfl, rfl, rfl, rfl, rfl, rfl, .refl _⟩
  | finish =>
      unfold State.step State.endPass at h
      dsimp only at h
      split at h
      · cases h
      · split at h
        · cases h
        · obtain ⟨m, hm, h⟩ := Execution.bind_eq_ok.mp h
          rw [← Except.ok.inj h]
          exact .same ((State.finishPass_same hm).trans ⟨rfl, rfl, rfl, rfl, rfl, rfl, rfl, rfl, .refl _⟩)
  | tickL1 => exact Except.ok.inj (hbetween h).2 ▸ hsame _ rfl rfl rfl rfl rfl rfl rfl rfl rfl
  | tickCore => exact Except.ok.inj (hbetween h).2 ▸ hsame _ rfl rfl rfl rfl rfl rfl rfl rfl rfl
  | tickSim => exact Except.ok.inj (hbetween h).2 ▸ hsame _ rfl rfl rfl rfl rfl rfl rfl rfl rfl
  | begin => exact Except.ok.inj (hbetween h).2 ▸ hsame _ rfl rfl rfl rfl rfl rfl rfl rfl rfl
  | updateMemoryQueues =>
      rw [← Except.ok.inj (hbetween h).2]
      unfold State.updateMemoryQueues
      dsimp only
      split
      · split <;> exact hsame _ rfl rfl rfl rfl rfl rfl rfl rfl rfl
      · split <;> exact hsame _ rfl rfl rfl rfl rfl rfl rfl rfl rfl
  | newMemReq args =>
      obtain ⟨hpass, h⟩ := hbetween h
      obtain ⟨hlegal, h⟩ := Execution.ite_error_eq_ok.mp h
      obtain ⟨⟨taken, m⟩, hm, rfl⟩ := Execution.map_eq_ok.mp h
      exact .quiet (State.newMemReq_quiet hlegal hpass hm)
  | enqueueResponse => exact .same (State.enqueueResponse_same (hbetween h).2)
  | tryCompletingRequest => exact State.tryCompletingRequest_does (hbetween h).2

/-! ## What is outstanding -/

theorem EntryStep.outstanding (h : EntryStep cfg env base k id ii s done t) (hs : s.Outstanding) : t.Outstanding := by
  cases h with
  | quiet hquiet => exact hquiet.outstanding hs
  | progress hquiet hprogress hrest =>
      have hrun : QuietRun cfg True _ t := hrest.quiet
      exact hrun.outstanding (hprogress.outstanding (hquiet.outstanding hs))

theorem State.Same.outstanding (h : s.Same t) (hs : s.Outstanding) : t.Outstanding := by
  refine ⟨fun id hid => ?_, h.ramulatorIds.nodup_iff.mpr hs.nodup⟩
  rw [h.reqBuffer]
  exact hs.state id (h.ramulatorIds.mem_iff.mp hid)

theorem State.Does.outstanding {event : Event} (h : s.Does cfg event t) (hs : s.Outstanding) : t.Outstanding := by
  cases h with
  | same hsame => exact hsame.outstanding hs
  | quiet hquiet => exact hquiet.outstanding hs
  | entry _ _ _ hstep hsame => exact hsame.outstanding (hstep.outstanding hs)
  | @fills id rdyCycle hids hsame =>
      have hnodup := List.nodup_cons.mp (hids.nodup_iff.mp hs.nodup)
      refine ⟨fun id' hid => ?_, hnodup.2⟩
      have hne : id' ≠ id := by
        rintro rfl
        exact hnodup.1 hid
      have hreq : t.reqBuffer id' = s.reqBuffer id' := (congrFun hsame.reqBuffer id').trans (State.setReq_other hne)
      rw [hreq]
      exact hs.state id' (hids.mem_iff.mpr (List.mem_cons_of_mem _ hid))

theorem State.fresh_outstanding (cfg : Config) (rands : ℕ → ℕ) : (State.fresh cfg rands).Outstanding := ⟨nofun, .nil⟩

end Scarab.Memory
