import Scarab.Lib.Chain
import Scarab.Memory.Steps

/-! # What becomes of an op

An op that was taken is on the list of one request in use. It stays there until that request is freed, and
by then the request was delivered with the op still on its list. -/

namespace Scarab.Memory

variable {cfg : Config} {env : Env} {base s t m : State} {id ii : ℕ} {k : QueueId} {overtakes : Prop} {done : Bool}
  {ops : List OpPtr}

/-- The ops on the lists of the requests. -/
def State.listed (cfg : Config) (s : State) : List OpPtr :=
  (List.range cfg.totalMemReqBuffers).flatMap fun id => (s.reqBuffer id).opPtrs

/-! ## The invariant -/

/-- Only a request in use has ops, and it has a `done_func` for them and is no writeback. -/
structure MemReq.Serves (req : MemReq) : Prop where
  idle : req.state = .inv → req.opPtrs = []
  awaited : req.opPtrs ≠ [] → req.doneFunc.isSome = true ∧ req.type.isWb = false

/-- Every op that was taken is on the list of a request, or was on that of a request that was delivered. -/
structure State.KeepsOps (cfg : Config) (s : State) : Prop where
  free : ∀ id ∈ s.reqBufferFreeList, id < cfg.totalMemReqBuffers
  busy : ∀ id, (s.reqBuffer id).state ≠ .inv → id < cfg.totalMemReqBuffers
  serves : ∀ id, (s.reqBuffer id).Serves
  conserved : s.accepted.Perm (s.listed cfg ++ s.freed.flatMap Prod.fst)
  delivered : ∀ freed ∈ s.freed, freed.1 ≠ [] → freed.2 = true

/-! ## What can become of a list -/

/-- One request takes ops on its list. -/
structure State.Takes (id : ℕ) (ops : List OpPtr) (s t : State) : Prop where
  others : ∀ id', id' ≠ id → t.reqBuffer id' = s.reqBuffer id'
  opPtrs : (t.reqBuffer id).opPtrs = (s.reqBuffer id).opPtrs ++ ops
  accepted : t.accepted = s.accepted ++ ops
  freed : t.freed = s.freed
  free : ∀ id' ∈ t.reqBufferFreeList, id' ∈ s.reqBufferFreeList

/-- One request goes on with the ops that it has. -/
structure State.Carries (id : ℕ) (s t : State) : Prop where
  others : ∀ id', id' ≠ id → t.reqBuffer id' = s.reqBuffer id'
  opPtrs : (t.reqBuffer id).opPtrs = (s.reqBuffer id).opPtrs
  doneFunc : (t.reqBuffer id).doneFunc = (s.reqBuffer id).doneFunc
  type : (t.reqBuffer id).type = (s.reqBuffer id).type
  idle : (t.reqBuffer id).state = .inv ↔ (s.reqBuffer id).state = .inv
  accepted : t.accepted = s.accepted
  freed : t.freed = s.freed
  free : t.reqBufferFreeList = s.reqBufferFreeList

/-- One request is freed, delivered or without ops. -/
structure State.Frees (id : ℕ) (s t : State) : Prop where
  others : ∀ id', id' ≠ id → t.reqBuffer id' = s.reqBuffer id'
  opPtrs : (t.reqBuffer id).opPtrs = []
  state : (t.reqBuffer id).state = .inv
  accepted : t.accepted = s.accepted
  freed : ∃ delivered, t.freed = s.freed ++ [((s.reqBuffer id).opPtrs, delivered)] ∧
    ((s.reqBuffer id).opPtrs ≠ [] → delivered = true)
  free : ∀ id' ∈ t.reqBufferFreeList, id' = id ∨ id' ∈ s.reqBufferFreeList

/-- One request takes ops, or is freed. -/
inductive State.MovesOps (cfg : Config) (s t : State) : Prop where
  | takes {id : ℕ} {ops : List OpPtr} (h : State.Takes id ops s t)
      (hbusy : (t.reqBuffer id).state ≠ .inv → id < cfg.totalMemReqBuffers) (hserves : (t.reqBuffer id).Serves)
  | frees {id : ℕ} (h : State.Frees id s t) (hid : id < cfg.totalMemReqBuffers)

theorem State.KeepsOps.takes (hs : s.KeepsOps cfg) (h : State.Takes id ops s t)
    (hbusy : (t.reqBuffer id).state ≠ .inv → id < cfg.totalMemReqBuffers) (hserves : (t.reqBuffer id).Serves) :
    t.KeepsOps cfg := by
  refine ⟨fun id' hid' => hs.free id' (h.free id' hid'), fun id' hlive => ?_, fun id' => ?_, ?_, ?_⟩
  · by_cases hsame : id' = id
    · subst hsame
      exact hbusy hlive
    · rw [h.others id' hsame] at hlive
      exact hs.busy id' hlive
  · by_cases hsame : id' = id
    · rw [hsame]
      exact hserves
    · rw [h.others id' hsame]
      exact hs.serves id'
  · rw [h.accepted, h.freed]
    by_cases hid : id < cfg.totalMemReqBuffers
    · have hgrow : (t.reqBuffer id).opPtrs.Perm (ops ++ (s.reqBuffer id).opPtrs) := by
        rw [h.opPtrs]
        exact List.perm_append_comm
      have hlisted : (t.listed cfg).Perm (ops ++ s.listed cfg) :=
        Chain.flatMap_grow List.nodup_range (List.mem_range.mpr hid) hgrow
          fun id' hne => congrArg MemReq.opPtrs (h.others id' hne)
      calc
        (s.accepted ++ ops).Perm (ops ++ s.accepted) := List.perm_append_comm
        List.Perm _ (ops ++ (s.listed cfg ++ s.freed.flatMap Prod.fst)) := hs.conserved.append_left ops
        List.Perm _ (t.listed cfg ++ s.freed.flatMap Prod.fst) := by
          rw [← List.append_assoc]
          exact (hlisted.symm).append_right _
    · -- a request beyond the buffers has no ops
      have hnil : (t.reqBuffer id).opPtrs = [] := hserves.idle (Decidable.byContradiction fun hlive => hid (hbusy hlive))
      obtain ⟨-, hops⟩ := List.append_eq_nil_iff.mp (h.opPtrs.symm.trans hnil)
      have hlisted : t.listed cfg = s.listed cfg := by
        refine List.flatMap_congr fun id' hid' => congrArg MemReq.opPtrs (h.others id' ?_)
        rintro rfl
        exact hid (List.mem_range.mp hid')
      rw [hops, List.append_nil, hlisted]
      exact hs.conserved
  · rw [h.freed]
    exact hs.delivered

theorem State.KeepsOps.frees (hs : s.KeepsOps cfg) (h : State.Frees id s t) (hid : id < cfg.totalMemReqBuffers) :
    t.KeepsOps cfg := by
  obtain ⟨delivered, hfreed, hdelivered⟩ := h.freed
  refine ⟨fun id' hid' => ?_, fun id' hlive => ?_, fun id' => ?_, ?_, ?_⟩
  · rcases h.free id' hid' with rfl | hold
    · exact hid
    · exact hs.free id' hold
  · by_cases hsame : id' = id
    · rw [hsame]
      exact hid
    · rw [h.others id' hsame] at hlive
      exact hs.busy id' hlive
  · by_cases hsame : id' = id
    · rw [hsame]
      exact ⟨fun _ => h.opPtrs, fun hne => absurd h.opPtrs hne⟩
    · rw [h.others id' hsame]
      exact hs.serves id'
  · have hgrow : (s.reqBuffer id).opPtrs.Perm ((s.reqBuffer id).opPtrs ++ (t.reqBuffer id).opPtrs) := by
      rw [h.opPtrs, List.append_nil]
    have hlisted : (s.listed cfg).Perm ((s.reqBuffer id).opPtrs ++ t.listed cfg) :=
      Chain.flatMap_grow List.nodup_range (List.mem_range.mpr hid) hgrow
        fun id' hne => (congrArg MemReq.opPtrs (h.others id' hne)).symm
    have hlast : t.freed.flatMap Prod.fst = s.freed.flatMap Prod.fst ++ (s.reqBuffer id).opPtrs := by
      rw [hfreed]
      simp
    rw [h.accepted, hlast]
    calc
      s.accepted.Perm (s.listed cfg ++ s.freed.flatMap Prod.fst) := hs.conserved
      List.Perm _ ((s.reqBuffer id).opPtrs ++ t.listed cfg ++ s.freed.flatMap Prod.fst) := hlisted.append_right _
      List.Perm _ (t.listed cfg ++ s.freed.flatMap Prod.fst ++ (s.reqBuffer id).opPtrs) := by
        rw [List.append_assoc]
        exact List.perm_append_comm
      List.Perm _ (t.listed cfg ++ (s.freed.flatMap Prod.fst ++ (s.reqBuffer id).opPtrs)) :=
        .of_eq (List.append_assoc _ _ _)
  · intro freed hmem hne
    rw [hfreed] at hmem
    rcases List.mem_append.mp hmem with hold | hnew
    · exact hs.delivered freed hold hne
    · rw [List.mem_singleton.mp hnew] at hne ⊢
      exact hdelivered hne

theorem State.KeepsOps.carries (hs : s.KeepsOps cfg) (h : State.Carries id s t) : s.MovesOps cfg t := by
  refine .takes ⟨h.others, h.opPtrs.trans (List.append_nil _).symm, h.accepted.trans (List.append_nil _).symm, h.freed,
    fun id' hid' => h.free ▸ hid'⟩ (fun hlive => hs.busy id fun hidle => hlive (h.idle.mpr hidle)) ⟨?_, ?_⟩
  · rw [h.opPtrs, h.idle]
    exact (hs.serves id).idle
  · rw [h.opPtrs, h.doneFunc, h.type]
    exact (hs.serves id).awaited

theorem State.MovesOps.keepsOps (h : s.MovesOps cfg t) (hs : s.KeepsOps cfg) : t.KeepsOps cfg := by
  cases h with
  | takes h hbusy hserves => exact hs.takes h hbusy hserves
  | frees h hid => exact hs.frees h hid

/-- Every op of a request stays with it, but for those of a request that was freed when it had been delivered. -/
def State.Leads (s t : State) : Prop :=
  ∃ freed, t.freed = s.freed ++ freed ∧ ∀ id, ∀ op ∈ (s.reqBuffer id).opPtrs,
    op ∈ (t.reqBuffer id).opPtrs ∨ ∃ ops, (ops, true) ∈ freed ∧ op ∈ ops

theorem State.Leads.refl (s : State) : s.Leads s := ⟨[], (List.append_nil _).symm, fun _ _ => .inl⟩

theorem State.Leads.trans (h : s.Leads m) (h' : m.Leads t) : s.Leads t := by
  obtain ⟨freed, hfreed, hops⟩ := h
  obtain ⟨freed', hfreed', hops'⟩ := h'
  refine ⟨freed ++ freed', by rw [hfreed', hfreed, List.append_assoc], fun id op hop => ?_⟩
  rcases hops id op hop with hop | ⟨ops, hmem, hop⟩
  · exact (hops' id op hop).imp_right fun ⟨ops, hmem, hop⟩ => ⟨ops, List.mem_append_right _ hmem, hop⟩
  · exact .inr ⟨ops, List.mem_append_left _ hmem, hop⟩

theorem State.MovesOps.leads (h : s.MovesOps cfg t) : s.Leads t := by
  cases h with
  | @takes id ops h =>
      refine ⟨[], h.freed.trans (List.append_nil _).symm, fun id' op hop => .inl ?_⟩
      by_cases hsame : id' = id
      · subst hsame
        rw [h.opPtrs]
        exact List.mem_append_left _ hop
      · rwa [h.others id' hsame]
  | @frees id h =>
      obtain ⟨delivered, hfreed, hdelivered⟩ := h.freed
      refine ⟨_, hfreed, fun id' op hop => ?_⟩
      by_cases hsame : id' = id
      · subst hsame
        rw [hdelivered (List.ne_nil_of_mem hop)]
        exact .inr ⟨_, List.mem_singleton_self _, hop⟩
      · exact .inl (by rwa [h.others id' hsame])

/-! ## Changes of a request -/

theorem State.Carries.refl (id : ℕ) (s : State) : State.Carries id s s := ⟨fun _ _ => rfl, rfl, rfl, rfl, .rfl, rfl, rfl, rfl⟩

theorem State.carries_req {req : MemReq} (hreqs : t.reqBuffer = (s.setReq id req).reqBuffer)
    (hops : req.opPtrs = (s.reqBuffer id).opPtrs) (hdone : req.doneFunc = (s.reqBuffer id).doneFunc)
    (htype : req.type = (s.reqBuffer id).type) (hidle : req.state = .inv ↔ (s.reqBuffer id).state = .inv)
    (haccepted : t.accepted = s.accepted) (hfreed : t.freed = s.freed)
    (hfree : t.reqBufferFreeList = s.reqBufferFreeList) : State.Carries id s t := by
  have hself : t.reqBuffer id = req := by rw [hreqs, State.setReq_self]
  refine ⟨fun id' hne => ?_, ?_, ?_, ?_, ?_, haccepted, hfreed, hfree⟩
  · rw [hreqs, State.setReq_other hne]
  · rw [hself, hops]
  · rw [hself, hdone]
  · rw [hself, htype]
  · rw [hself, hidle]

/-- The requests are left alone. -/
theorem State.KeepsOps.leaves (hs : s.KeepsOps cfg) (hreqs : t.reqBuffer = s.reqBuffer) (haccepted : t.accepted = s.accepted)
    (hfreed : t.freed = s.freed) (hfree : t.reqBufferFreeList = s.reqBufferFreeList) : s.MovesOps cfg t := by
  have hreq (id : ℕ) : t.reqBuffer id = s.reqBuffer id := congrFun hreqs id
  have hcarries : State.Carries 0 s t := by
    refine ⟨fun id' _ => hreq id', ?_, ?_, ?_, ?_, haccepted, hfreed, hfree⟩
    all_goals rw [hreq]
  exact hs.carries hcarries

theorem State.Carries.reserve (h : State.Carries id s t) (cfg : Config) : State.Carries id s (t.reserve cfg id) := by
  obtain ⟨n, -, heq⟩ := State.reserve_eq t cfg id
  rw [heq]
  refine ⟨fun id' hne => (State.setReq_other hne).trans (h.others id' hne), ?_, ?_, ?_, ?_, h.accepted, h.freed, h.free⟩
  all_goals rw [State.setReq_self]
  · exact h.opPtrs
  · exact h.doneFunc
  · exact h.type
  · exact h.idle

theorem State.Carries.trainMiss (h : State.Carries id s t) (cfg : Config) : State.Carries id s (t.trainMiss cfg id) := by
  rw [State.trainMiss_eq]
  exact ⟨h.others, h.opPtrs, h.doneFunc, h.type, h.idle, h.accepted, h.freed, h.free⟩

theorem State.takes_req {req : MemReq} (hreqs : t.reqBuffer = (s.setReq id req).reqBuffer)
    (hops : req.opPtrs = (s.reqBuffer id).opPtrs ++ ops) (haccepted : t.accepted = s.accepted ++ ops)
    (hfreed : t.freed = s.freed) (hfree : ∀ id' ∈ t.reqBufferFreeList, id' ∈ s.reqBufferFreeList)
    (hid : id < cfg.totalMemReqBuffers) (hserves : req.Serves) : s.MovesOps cfg t := by
  have hself : t.reqBuffer id = req := by rw [hreqs, State.setReq_self]
  refine .takes ⟨fun id' hne => ?_, ?_, haccepted, hfreed, hfree⟩ (fun _ => hid) ?_
  · rw [hreqs, State.setReq_other hne]
  · rw [hself, hops]
  · rw [hself]
    exact hserves

/-! ## Quiet moves -/

theorem State.Outstanding.live (h : s.Outstanding) (hlive : (s.reqBuffer id).state ≠ .inv ∨ id ∈ s.ramulatorIds) :
    (s.reqBuffer id).state ≠ .inv := by
  rcases hlive with hlive | hmem
  · exact hlive
  · rw [h.state id hmem]
    exact nofun

/-- The ops that come to a request have a `done_func`, whatever it was made for. -/
theorem MemReq.Adjusts.serves {loop : Prop} {req req' : MemReq} (h : req.Adjusts cfg loop ops req') (hlive : req.state ≠ .inv)
    (hserves : req.Serves) : req'.Serves := by
  refine ⟨fun hidle => absurd (h.state.symm.trans hidle) hlive, fun hne => ?_⟩
  have hread (hdone : req'.doneFunc.isSome = true) (hwb : req.type.isWb = false) :
      req'.doneFunc.isSome = true ∧ req'.type.isWb = false := by
    refine ⟨hdone, Bool.eq_false_iff.mpr fun hwb' => ?_⟩
    cases hwb.symm.trans (h.isWb hwb')
  by_cases hops : ops = []
  · rw [h.opPtrs, hops, List.append_nil] at hne
    obtain ⟨hdone, hwb⟩ := hserves.awaited hne
    exact hread (h.doneFunc hdone) hwb
  · obtain ⟨hdone, hwb⟩ := h.ops hops
    exact hread hdone hwb

theorem MemReq.Starts.serves {req : MemReq} (h : req.Starts cfg s id k ops) (hidle : (s.reqBuffer id).opPtrs = []) :
    req.Serves := by
  refine ⟨fun hinv => ?_, fun hne => ?_⟩
  · rcases h.place with ⟨-, hstate⟩ | ⟨-, hstate⟩
    · cases hstate.symm.trans hinv
    · cases hstate.symm.trans hinv
  · rw [h.opPtrs, hidle, List.nil_append] at hne
    exact h.ops hne

theorem Quiet.movesOps (h : Quiet cfg overtakes s t) (hout : s.Outstanding) (hs : s.KeepsOps cfg) : s.MovesOps cfg t := by
  cases h with
  | idle => exact hs.leaves rfl rfl rfl rfl
  | lines => exact hs.leaves rfl rfl rfl rfl
  | call => exact hs.leaves rfl rfl rfl rfl
  | rerank => exact hs.leaves rfl rfl rfl rfl
  | note id => exact hs.carries (State.carries_req rfl rfl rfl rfl .rfl rfl rfl rfl)
  | deliver id => exact hs.carries (State.carries_req rfl rfl rfl rfl .rfl rfl rfl rfl)
  | start id state rdyCycle hstart =>
      refine hs.carries (State.carries_req rfl rfl rfl rfl ?_ rfl rfl rfl)
      rcases hstart with ⟨hold, rfl⟩ | ⟨hold, rfl⟩
      · simp [hold]
      · simp [hold]
  | join id ops req hlive _ hjoins =>
      have hstate := hout.live hlive
      exact State.takes_req rfl hjoins.opPtrs rfl rfl (fun _ hid => hid) (hs.busy id hstate)
        (hjoins.toAdjusts.serves hstate (hs.serves id))
  | reserve id ops req _ hlive hjoins =>
      have hstate := hout.live hlive
      exact State.takes_req rfl hjoins.opPtrs rfl rfl (fun _ hid => hid) (hs.busy id hstate)
        (hjoins.toAdjusts.serves hstate (hs.serves id))
  | fresh id free k ops req priority calls hfree hinv _ hstarts =>
      refine State.takes_req rfl hstarts.opPtrs rfl rfl (fun id' hid' => ?_) (hs.free id (by simp [hfree]))
        (hstarts.serves ((hs.serves id).idle hinv))
      rw [hfree]
      exact List.mem_cons_of_mem id hid'
  | writtenBack id free req hfree hinv hstate hops =>
      refine @State.MovesOps.frees cfg s _ id ⟨fun _ => State.setReq_other, ?_, ?_, rfl, ⟨false, rfl, ?_⟩, fun id' hid' => ?_⟩
        (hs.free id (by simp [hfree]))
      · simp [hops]
      · simp [hstate]
      · exact fun hne => absurd ((hs.serves id).idle hinv) hne
      · rcases List.mem_append.mp hid' with hold | hself
        · rw [hfree]
          exact .inr (List.mem_cons_of_mem id hold)
        · exact .inl (List.mem_singleton.mp hself)

theorem QuietRun.leads (h : QuietRun cfg overtakes s t) (hout : s.Outstanding) (hs : s.KeepsOps cfg) :
    t.KeepsOps cfg ∧ s.Leads t := by
  induction h with
  | refl => exact ⟨hs, .refl s⟩
  | tail hrun hmove ih =>
      have hmoves := hmove.movesOps (QuietRun.outstanding hrun hout) ih.1
      exact ⟨hmoves.keepsOps ih.1, ih.2.trans hmoves.leads⟩

/-! ## Progress -/

/-- A request is done only when it was delivered with its ops. -/
theorem MemReq.Ends.delivered {req : MemReq} {back : ℤ} (h : req.Ends cfg k back) (hstall : cfg.stallMemReqsOnly = false)
    (hserves : req.Serves) (hne : req.opPtrs ≠ []) : req.delivered = true := by
  obtain ⟨hdone, hread⟩ := hserves.awaited hne
  have hsome (hnone : req.doneFunc = none) : req.delivered = true := by
    rw [hnone] at hdone
    cases hdone
  cases h with
  | l1 _ hends => exact hends.elim hsome fun hon => nomatch hstall.symm.trans hon
  | mlc _ hends =>
      rcases hends with hnone | hdelivered | hwb
      · exact hsome hnone
      · exact hdelivered
      · cases hread.symm.trans hwb
  | l1fill _ hnone => exact hsome hnone
  | mlcFill _ hends => exact hends.elim hsome id
  | core _ hdelivered => exact hdelivered

/-- A request is freed as it was given before. -/
theorem State.setReq_freeReq_freed (s : State) (id : ℕ) (req : MemReq) :
    ((s.setReq id req).freeReq id).freed = s.freed ++ [(req.opPtrs, req.delivered)] := by
  unfold State.freeReq
  rw [State.setReq_self]
  rfl

theorem State.frees_req {req : MemReq} (hreqs : t.reqBuffer = ((s.setReq id req).freeReq id).reqBuffer)
    (hops : req.opPtrs = (s.reqBuffer id).opPtrs) (hdelivered : (s.reqBuffer id).opPtrs ≠ [] → req.delivered = true)
    (haccepted : t.accepted = s.accepted)
    (hfreed : t.freed = ((s.setReq id req).freeReq id).freed)
    (hfree : t.reqBufferFreeList = s.reqBufferFreeList ++ [id]) : State.Frees id s t := by
  refine ⟨fun id' hne => ?_, ?_, ?_, haccepted, ⟨req.delivered, ?_, hdelivered⟩, fun id' hid' => ?_⟩
  · rw [hreqs, State.freeReq_other hne, State.setReq_other hne]
  · rw [hreqs, State.freeReq_self]
  · rw [hreqs, State.freeReq_self]
  · rw [hfreed, State.setReq_freeReq_freed, hops]
  · rw [hfree] at hid'
    exact (List.mem_append.mp hid').symm.imp_left List.mem_singleton.mp

/-- A request that a loop is at goes on with its ops, or it is freed. -/
theorem Progress.movesOps (h : Progress cfg env base k id ii s done t) (hconstant : cfg.constantMemoryLatency = false)
    (hstall : cfg.stallMemReqsOnly = false) (hs : s.KeepsOps cfg) : s.MovesOps cfg t := by
  have hlive := h.busy.1
  have hid := hs.busy id hlive
  have hserves := hs.serves id
  have hwriteback (hwb : (s.reqBuffer id).type.isWb = true) : (s.reqBuffer id).opPtrs = [] := by
    by_contra hne
    cases (hserves.awaited hne).2.symm.trans hwb
  have hcarries {u : State} {req : MemReq} (hreqs : u.reqBuffer = (s.setReq id req).reqBuffer)
      (hops : req.opPtrs = (s.reqBuffer id).opPtrs) (hdone : req.doneFunc = (s.reqBuffer id).doneFunc)
      (htype : req.type = (s.reqBuffer id).type) (hnew : req.state ≠ .inv) (haccepted : u.accepted = s.accepted)
      (hfreed : u.freed = s.freed) (hfree : u.reqBufferFreeList = s.reqBufferFreeList) : State.Carries id s u :=
    State.carries_req hreqs hops hdone htype (iff_of_false hnew hlive) haccepted hfreed hfree
  cases h with
  | toFill next state rdyCycle back priority h =>
      refine hs.carries (hcarries rfl rfl rfl rfl ?_ rfl rfl rfl)
      cases h <;> exact nofun
  | toL1 rdyCycle reserves priority => exact hs.carries (hcarries rfl rfl rfl rfl nofun rfl rfl rfl)
  | reviveL1 rdyCycle priority hk hstate hwb =>
      have hnil := hwriteback (by rw [hwb]; rfl)
      refine .frees ⟨fun id' hne => ?_, ?_, ?_, rfl, ⟨(s.reqBuffer id).delivered, ?_, fun hne => absurd hnil hne⟩,
        fun id' hid' => ?_⟩ hid
      · simp [State.freeReq_other hne, State.setReq_other hne]
      · simp
      · simp
      · exact State.setReq_freeReq_freed s id _
      · exact (List.mem_append.mp hid').symm.imp_left List.mem_singleton.mp
  | release rdyCycle back h =>
      exact .frees (State.frees_req rfl rfl (h.delivered hstall hserves) rfl rfl rfl) hid
  | fill c way rdyCycle =>
      refine hs.carries (hcarries rfl rfl rfl rfl ?_ rfl rfl rfl)
      dsimp only
      split <;> exact nofun
  | filled rdyCycle => exact hs.carries (hcarries rfl rfl rfl rfl nofun rfl rfl rfl)
  | fillWb c way rdyCycle hk hmiss hquiet hwb =>
      obtain ⟨pass, hpass, -⟩ := hmiss.loop
      have hwaits : (base.reqBuffer id).state ≠ .inv := by simp [hmiss.state]
      have hfollows := hquiet.follows hwaits
      have hstill := (hfollows.writeback (.inr (.inr (by simp [hpass])))).1
      have hnil := hwriteback (hstill.trans hwb)
      exact .frees (State.frees_req rfl rfl (fun hne => absurd hnil hne) rfl rfl rfl) hid
  | lost rdyCycle => exact hs.carries (hcarries rfl rfl rfl rfl nofun rfl rfl rfl)
  | fillLost c way rdyCycle => exact hs.carries (hcarries rfl rfl rfl rfl nofun rfl rfl rfl)
  | fillOver c way rdyCycle priority hk hmiss hquiet hwb hthrough hon => cases hconstant.symm.trans hon
  | revive c way rdyCycle priority hk hmiss hquiet hwb hthrough hon => cases hconstant.symm.trans hon
  | send inflightReadReqs =>
      have hsent : State.Carries id s ({ s.setReq id { s.reqBuffer id with state := .memNew, queue := none } with
          inflightReadReqs }.markEntry k ii) := hcarries rfl rfl rfl rfl nofun rfl rfl rfl
      exact hs.carries ((hsent.reserve cfg).trainMiss cfg)
  | reject => exact hs.carries (((State.Carries.refl id s).reserve cfg).trainMiss cfg)
  | handOver rdyCycle priority hk hsend hon => cases hconstant.symm.trans hon

/-! ## Steps -/

theorem State.Same.movesOps (h : s.Same t) (hs : s.KeepsOps cfg) : s.MovesOps cfg t :=
  hs.leaves h.reqBuffer h.accepted h.freed h.reqBufferFreeList

theorem EntryStep.leads (h : EntryStep cfg env base k id ii s done t) (hconstant : cfg.constantMemoryLatency = false)
    (hstall : cfg.stallMemReqsOnly = false) (hout : s.Outstanding) (hs : s.KeepsOps cfg) : t.KeepsOps cfg ∧ s.Leads t := by
  cases h with
  | quiet hquiet => exact hquiet.leads hout hs
  | @progress m n _ _ hquiet hprogress hrest =>
      obtain ⟨hm, hleads⟩ := hquiet.leads hout hs
      have hmoves := hprogress.movesOps hconstant hstall hm
      have hrun : QuietRun cfg True n t := hrest.quiet
      obtain ⟨ht, hleads'⟩ := hrun.leads (hprogress.outstanding (hquiet.outstanding hout)) (hmoves.keepsOps hm)
      exact ⟨ht, hleads.trans (hmoves.leads.trans hleads')⟩

theorem State.Does.leads {event : Event} (h : s.Does cfg event t) (hconstant : cfg.constantMemoryLatency = false)
    (hstall : cfg.stallMemReqsOnly = false) (hout : s.Outstanding) (hs : s.KeepsOps cfg) : t.KeepsOps cfg ∧ s.Leads t := by
  cases h with
  | same hsame => exact ⟨(hsame.movesOps hs).keepsOps hs, (hsame.movesOps hs).leads⟩
  | quiet hquiet => exact hquiet.leads hout hs
  | entry _ _ _ hstep hsame =>
      obtain ⟨hm, hleads⟩ := hstep.leads hconstant hstall hout hs
      exact ⟨(hsame.movesOps hm).keepsOps hm, hleads.trans (hsame.movesOps hm).leads⟩
  | @fills id rdyCycle hids hsame =>
      have hnew := hout.state id (hids.mem_iff.mpr List.mem_cons_self)
      have hcarries : State.Carries id s t :=
        State.carries_req hsame.reqBuffer rfl rfl rfl (by simp [hnew]) hsame.accepted hsame.freed hsame.reqBufferFreeList
      exact ⟨(hs.carries hcarries).keepsOps hs, (hs.carries hcarries).leads⟩

/-! ## Runs -/

theorem State.fresh_keepsOps (cfg : Config) (rands : ℕ → ℕ) : (State.fresh cfg rands).KeepsOps cfg := by
  refine ⟨fun id hid => List.mem_range.mp hid, fun id hlive => absurd rfl hlive, fun id => ⟨fun _ => rfl, fun hne => absurd rfl hne⟩,
    ?_, nofun⟩
  simp [State.listed, State.fresh, MemReq.fresh]

theorem run_leads (hconstant : cfg.constantMemoryLatency = false) (hstall : cfg.stallMemReqsOnly = false)
    (hs : s.KeepsOps cfg ∧ s.Outstanding) {events : List Event} (h : run cfg s events = .ok t) :
    (t.KeepsOps cfg ∧ t.Outstanding) ∧ s.Leads t := by
  refine Execution.run_invariant (I := fun m => (m.KeepsOps cfg ∧ m.Outstanding) ∧ s.Leads m) ?_ ⟨hs, .refl s⟩ h
  rintro m event n ⟨⟨hm, hout⟩, hleads⟩ hstep
  have hdoes := State.step_does hstep
  obtain ⟨hn, hleads'⟩ := hdoes.leads hconstant hstall hout hm
  exact ⟨⟨hn, hdoes.outstanding hout⟩, hleads.trans hleads'⟩

/-! ## A single op -/

theorem State.KeepsOps.mem_listed (hs : s.KeepsOps cfg) {op : OpPtr} :
    op ∈ s.listed cfg ↔ ∃ id, op ∈ (s.reqBuffer id).opPtrs := by
  unfold State.listed
  rw [List.mem_flatMap]
  constructor
  · rintro ⟨id, -, hop⟩
    exact ⟨id, hop⟩
  · rintro ⟨id, hop⟩
    have hlive : (s.reqBuffer id).state ≠ .inv := fun hidle => List.ne_nil_of_mem hop ((hs.serves id).idle hidle)
    exact ⟨id, List.mem_range.mpr (hs.busy id hlive), hop⟩

/-- The list of a request, and those of the others. -/
theorem State.listed_perm (s : State) (hid : id < cfg.totalMemReqBuffers) :
    (s.listed cfg).Perm ((s.reqBuffer id).opPtrs ++
      (List.range cfg.totalMemReqBuffers).flatMap fun id' => if id' = id then [] else (s.reqBuffer id').opPtrs) := by
  refine Chain.flatMap_grow List.nodup_range (List.mem_range.mpr hid) ?_ fun id' hne => (if_neg hne).symm
  rw [if_pos rfl, List.append_nil]

theorem State.KeepsOps.once (hs : s.KeepsOps cfg) {op : OpPtr} (honce : s.accepted.count op = 1) :
    ((∃! id, op ∈ (s.reqBuffer id).opPtrs) ∧ ∀ freed ∈ s.freed, op ∉ freed.1) ∨
      (∀ id, op ∉ (s.reqBuffer id).opPtrs) ∧ ∃ freed ∈ s.freed, op ∈ freed.1 := by
  have hcount : (s.listed cfg).count op + (s.freed.flatMap Prod.fst).count op = 1 := by
    rw [← List.count_append, ← hs.conserved.count_eq, honce]
  by_cases hlisted : op ∈ s.listed cfg
  · have hpos := List.count_pos_iff.mpr hlisted
    obtain ⟨id, hop⟩ := hs.mem_listed.mp hlisted
    refine .inl ⟨⟨id, hop, fun id' hop' => ?_⟩, fun freed hmem hop' => ?_⟩
    · by_contra hne
      have hlive {id : ℕ} (hop : op ∈ (s.reqBuffer id).opPtrs) : id < cfg.totalMemReqBuffers :=
        hs.busy id fun hidle => List.ne_nil_of_mem hop ((hs.serves id).idle hidle)
      have hother : op ∈ (List.range cfg.totalMemReqBuffers).flatMap fun id' =>
          if id' = id then [] else (s.reqBuffer id').opPtrs :=
        List.mem_flatMap.mpr ⟨id', List.mem_range.mpr (hlive hop'), by rwa [if_neg hne]⟩
      have hsplit := (s.listed_perm (hlive hop)).count_eq op
      rw [List.count_append] at hsplit
      have hown := List.count_pos_iff.mpr hop
      have hothers := List.count_pos_iff.mpr hother
      omega
    · have hgone : op ∈ s.freed.flatMap Prod.fst := List.mem_flatMap.mpr ⟨freed, hmem, hop'⟩
      have hfreed := List.count_pos_iff.mpr hgone
      omega
  · have hzero := List.count_eq_zero.mpr hlisted
    have hgone : op ∈ s.freed.flatMap Prod.fst := List.count_pos_iff.mp (by omega)
    obtain ⟨freed, hmem, hop⟩ := List.mem_flatMap.mp hgone
    exact .inr ⟨fun id hop => hlisted (hs.mem_listed.mpr ⟨id, hop⟩), freed, hmem, hop⟩

/-- As long as every read goes to Ramulator and no request is dropped for the stalling ones, an op that was taken is on the
list of one request in use, and stays there until that request is freed, which was delivered with it. -/
theorem ops_kept_until_delivered (hconstant : cfg.constantMemoryLatency = false) (hstall : cfg.stallMemReqsOnly = false)
    (hreach : Reachable cfg s) :
    (∀ op, s.accepted.count op = (s.listed cfg).count op + (s.freed.flatMap Prod.fst).count op) ∧
      (∀ op, s.accepted.count op = 1 → ((∃! id, op ∈ (s.reqBuffer id).opPtrs) ∧ ∀ freed ∈ s.freed, op ∉ freed.1) ∨
        (∀ id, op ∉ (s.reqBuffer id).opPtrs) ∧ ∃ freed ∈ s.freed, op ∈ freed.1) ∧
      (∀ id, (s.reqBuffer id).opPtrs ≠ [] → (s.reqBuffer id).state ≠ .inv ∧ (s.reqBuffer id).doneFunc.isSome = true) ∧
      (∀ freed ∈ s.freed, freed.1 ≠ [] → freed.2 = true) ∧
      ∀ events t, run cfg s events = .ok t → s.Leads t := by
  obtain ⟨rands, events, hrun⟩ := hreach
  obtain ⟨⟨hs, hout⟩, -⟩ := run_leads hconstant hstall
    ⟨State.fresh_keepsOps cfg rands, State.fresh_outstanding cfg rands⟩ hrun
  refine ⟨fun op => ?_, fun op honce => hs.once honce, fun id hne => ⟨fun hidle => ?_, ((hs.serves id).awaited hne).1⟩,
    hs.delivered, fun events' t hrun' => (run_leads hconstant hstall ⟨hs, hout⟩ hrun').2⟩
  · rw [← List.count_append]
    exact hs.conserved.count_eq op
  · exact hne ((hs.serves id).idle hidle)

/-- A load of the line at 64. -/
def loadEvent (op : OpPtr) : Event := .newMemReq ⟨.dfetch, 0, 64, 0, some ⟨op, 0, 0⟩, some .dcacheFillLine, none⟩

/-- A loop over a queue of one entry. -/
def loopEvents (k : QueueId) (sent dcachePort : Bool) : List Event := [.begin k, .entry ⟨true, sent, dcachePort, none, .lru⟩, .finish]

/-- A load joins another one, and Ramulator refuses their request once. -/
def joinedEvents : List Event :=
  loadEvent 7 :: loopEvents .l1 true true ++ loadEvent 8 :: loopEvents .l1 false true ++ loopEvents .l1 true true

/-- The response, and a fill for which the dcache has no port at first. -/
def filledEvents : List Event :=
  [.enqueueResponse 64, .tryCompletingRequest, .tickL1] ++ loopEvents .l1fill true true ++ .tickL1 :: loopEvents .l1fill true true ++
    .tickCore 0 :: loopEvents (.coreFill 0) true false ++ loopEvents (.coreFill 0) true true

theorem ops_kept_until_delivered_joined : ∃ s t, run .small (.fresh .small fun _ => 0) joinedEvents = .ok s ∧
    run .small s filledEvents = .ok t ∧ s.accepted = [7, 8] ∧ (∃! id, 8 ∈ (s.reqBuffer id).opPtrs) ∧
      t.freed = [([7, 8], true)] ∧ s.Leads t := by
  obtain ⟨s, hs, hkept⟩ := Execution.map_eq_ok.mp (show (fun s : State => (s.accepted, s.freed)) <$>
    run .small (.fresh .small fun _ => 0) joinedEvents = .ok ([7, 8], []) by decide +kernel)
  obtain ⟨t, ht, hfreed⟩ := Execution.map_eq_ok.mp (show State.freed <$>
    run .small (.fresh .small fun _ => 0) (joinedEvents ++ filledEvents) = .ok [([7, 8], true)] by decide +kernel)
  obtain ⟨haccepted, hnone⟩ := Prod.mk.inj hkept
  obtain ⟨m, hm, hrest⟩ := Execution.run_append_eq_ok.mp ht
  obtain rfl : s = m := Except.ok.inj (hs.symm.trans hm)
  obtain ⟨-, honce, -, -, hleads⟩ := ops_kept_until_delivered rfl rfl ⟨_, _, hs⟩
  refine ⟨s, t, hs, hrest, haccepted, ?_, hfreed, hleads _ t hrest⟩
  rcases honce 8 (by rw [haccepted]; decide) with ⟨hid, -⟩ | ⟨-, freed, hmem, -⟩
  · exact hid
  · rw [hnone] at hmem
    cases hmem

end Scarab.Memory
