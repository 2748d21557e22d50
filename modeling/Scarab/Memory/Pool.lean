import Mathlib.Algebra.BigOperators.Group.Finset.Basic
import Mathlib.Algebra.Order.BigOperators.Group.Finset
import Mathlib.Data.Finset.Range
import Scarab.Memory.Machine

/-! # The pool of request buffers

Request buffers are taken from one pool, or with `PRIVATE_MSHR_ON` from one for each core, and the last one of a pool
is kept for a writeback of the L1. -/

namespace Scarab.Memory

/-! ## The driven pool -/

/-- A buffer in use, the core it was taken for, and whether it was taken for a writeback of the L1. -/
structure Hold where
  id : ℕ
  procId : ℕ
  l1Writeback : Bool
  deriving DecidableEq, Repr

/-- The memory system and the buffers in use. -/
structure PoolLife where
  state : State
  held : List Hold

/-- The calls. -/
inductive PoolCall where
  /-- `mem_allocate_req_buffer`, and `mem_init_new_req` for the queue that the request is for. -/
  | allocate (procId : ℕ) (type : MemReqType) (forL1Writeback : Bool) (queue : Option QueueId) (addr : Addr) (delay : ℕ)
      (op : Option MemOp) (doneFunc : Option DoneFunc) (prefInfo : Option PrefReqInfo)
  /-- What the queues do to a request in use. -/
  | change (id : ℕ) (req : MemReq)
  | free (id : ℕ)

def PoolLife.init (cfg : Config) (rands : ℕ → ℕ) : PoolLife := ⟨.fresh cfg rands, []⟩

/-- The state of a new request, by its queue. -/
def newReqState : Option QueueId → MemReqState
  | some .mlc => .mlcNew
  | some _ => .l1New
  | none => .memNew

/-- Whether one buffer is left to a core. -/
def State.lastOne (cfg : Config) (s : State) (procId : ℕ) : Bool :=
  if cfg.privateMshrOn then decide (cfg.memReqBufferEntries ≤ s.numReqBuffersPerCore procId + 1)
  else decide (s.reqBufferFreeList.length ≤ 1)

/-- Whether the thresholds of its type refuse a request. -/
def State.refusedType (cfg : Config) (s : State) (procId : ℕ) (type : MemReqType) : Bool :=
  let used := s.numReqBuffersPerCore procId
  let free := s.reqBufferFreeList.length
  type.isPrefetch && (if cfg.privateMshrOn then decide (cfg.memReqBufferEntries ≤ used + cfg.memReqBufferPrefWatermark)
    else decide (free ≤ cfg.memReqBufferPrefWatermark)) ||
  !type.isWb && (if cfg.privateMshrOn then decide (cfg.memReqBufferEntries ≤ used + cfg.memReqBufferWbValve)
    else decide (free ≤ cfg.memReqBufferWbValve))

/-- The assertion in `mem_can_allocate_req_buffer`: the last buffer goes to an `MRT_WB`. -/
def State.wrongWriteback (cfg : Config) (s : State) (procId : ℕ) (type : MemReqType) (forL1Writeback : Bool) : Bool :=
  !s.refusedType cfg procId type && s.lastOne cfg procId && forL1Writeback && type != .wb

/-- One call. A request keeps its core and stays in use until it is freed, once. -/
def PoolLife.step (cfg : Config) (s : PoolLife) : PoolCall → Except String PoolLife
  | .allocate procId type forL1Writeback queue addr delay op doneFunc prefInfo =>
      if s.state.wrongWriteback cfg procId type forL1Writeback then .error "MRT_WB == type"
      else do
        match ← s.state.memAllocateReqBuffer cfg procId type forL1Writeback with
        | (none, t) => return ⟨t, s.held⟩
        | (some id, t) =>
            let req := t.initReq cfg id type (newReqState queue) queue procId addr delay op doneFunc
              (t.newPriority cfg type) prefInfo
            return ⟨t.memInitNewReq id req, ⟨id, procId, forL1Writeback && type == .wb⟩ :: s.held⟩
  | .change id req =>
      if (s.state.reqBuffer id).state = .inv ∨ req.state = .inv ∨ req.procId ≠ (s.state.reqBuffer id).procId then
        .error "req->state != MRS_INV"
      else .ok { s with state := s.state.setReq id req }
  | .free id =>
      if s.held.any fun hold => hold.id == id then do
        let t ← s.state.memFreeReqbuf id
        return ⟨t, s.held.eraseP fun hold => hold.id == id⟩
      else .error "req->state != MRS_INV"

/-- The buffers in use of the pool that a core takes from. -/
def PoolLife.pool (cfg : Config) (s : PoolLife) (procId : ℕ) : List Hold :=
  if cfg.privateMshrOn then s.held.filter fun hold => hold.procId == procId else s.held

/-! ## The counters of the pool -/

/-- The buffers are in use or on the free list, the counters agree, and a pool that is used up holds a writeback of
the L1. -/
structure PoolLife.Inv (cfg : Config) (s : PoolLife) : Prop where
  perm : (s.held.map Hold.id ++ s.state.reqBufferFreeList).Perm (List.range cfg.totalMemReqBuffers)
  free : ∀ id ∈ s.state.reqBufferFreeList, (s.state.reqBuffer id).state = .inv
  live : ∀ hold ∈ s.held, (s.state.reqBuffer hold.id).state ≠ .inv ∧ (s.state.reqBuffer hold.id).procId = hold.procId
  core : ∀ hold ∈ s.held, hold.procId < cfg.numCores
  count : s.state.reqCount = s.held.length
  perCore : ∀ procId, s.state.numReqBuffersPerCore procId = (s.held.filter fun hold => hold.procId == procId).length
  le : ∀ procId, (s.pool cfg procId).length ≤ cfg.memReqBufferEntries
  reserve : ∀ procId, 0 < cfg.memReqBufferEntries → (s.pool cfg procId).length = cfg.memReqBufferEntries →
    ∃ hold ∈ s.pool cfg procId, hold.l1Writeback = true

variable {cfg : Config} {s t : PoolLife} {procId procId' id : ℕ} {type : MemReqType} {forL1Writeback : Bool}
  {hold : Hold} {held : List Hold}

theorem PoolLife.pool_of_private (h : cfg.privateMshrOn = true) :
    s.pool cfg procId = s.held.filter fun hold => hold.procId == procId := if_pos h

theorem PoolLife.pool_of_shared (h : ¬ cfg.privateMshrOn = true) : s.pool cfg procId = s.held := if_neg h

theorem PoolLife.inv_init (rands : ℕ → ℕ) : (init cfg rands).Inv cfg := by
  have hnil (procId : ℕ) : (init cfg rands).pool cfg procId = [] := by
    unfold pool init
    split <;> rfl
  refine ⟨List.Perm.refl _, fun _ _ => rfl, fun _ h => absurd h List.not_mem_nil, fun _ h => absurd h List.not_mem_nil,
    rfl, fun _ => rfl, fun procId => ?_, fun procId hpos hfull => ?_⟩
  · rw [hnil]
    exact Nat.zero_le _
  · rw [hnil, List.length_nil] at hfull
    omega

/-- Without private buffers the pool has what is not on the free list. -/
theorem PoolLife.Inv.shared (hi : s.Inv cfg) (h : ¬ cfg.privateMshrOn = true) (procId : ℕ) :
    (s.pool cfg procId).length + s.state.reqBufferFreeList.length = cfg.memReqBufferEntries := by
  have hlength := hi.perm.length_eq
  rw [List.length_append, List.length_map, List.length_range, Config.totalMemReqBuffers, if_neg h] at hlength
  rw [pool_of_shared h]
  omega

theorem PoolLife.Inv.private (hi : s.Inv cfg) (h : cfg.privateMshrOn = true) :
    s.state.numReqBuffersPerCore procId = (s.pool cfg procId).length := by
  rw [pool_of_private h, hi.perCore]

/-- When all buffers are in use, each pool is used up. -/
theorem PoolLife.Inv.full (hi : s.Inv cfg) (hcore : procId < cfg.numCores) (h : s.state.reqCount = cfg.totalMemReqBuffers) :
    (s.pool cfg procId).length = cfg.memReqBufferEntries := by
  rw [hi.count] at h
  by_cases hprivate : cfg.privateMshrOn = true
  · rw [Config.totalMemReqBuffers, if_pos hprivate] at h
    have hsum : ∑ p ∈ Finset.range cfg.numCores, (s.pool cfg p).length = ∑ p ∈ Finset.range cfg.numCores,
        cfg.memReqBufferEntries := by
      rw [Finset.sum_const_nat fun _ _ => rfl, Finset.card_range, Nat.mul_comm, ← h]
      have hcores : ∀ p ∈ (↑(s.held.map Hold.procId) : Multiset ℕ), p ∈ Finset.range cfg.numCores := by
        intro p hp
        obtain ⟨hold, hmem, rfl⟩ := List.mem_map.mp (Multiset.mem_coe.mp hp)
        exact Finset.mem_range.mpr (hi.core hold hmem)
      have hcount := Multiset.sum_count_eq_card hcores
      rw [Multiset.coe_card, List.length_map] at hcount
      rw [← hcount]
      refine Finset.sum_congr rfl fun p _ => ?_
      rw [pool_of_private hprivate, Multiset.coe_count, List.count_eq_countP, List.countP_map, List.countP_eq_length_filter]
      rfl
    exact (Finset.sum_eq_sum_iff_of_le fun p _ => hi.le p).mp hsum procId (Finset.mem_range.mpr hcore)
  · rw [Config.totalMemReqBuffers, if_neg hprivate, Nat.mul_one] at h
    rw [pool_of_shared hprivate, h]

/-! ## The thresholds -/

theorem State.memCanAllocateReqBuffer_iff {s : State} :
    s.memCanAllocateReqBuffer cfg procId type forL1Writeback = true ↔
      s.refusedType cfg procId type = false ∧ (forL1Writeback = false → s.lastOne cfg procId = false) ∧
        ¬ (cfg.privateMshrOn = true ∧ s.numReqBuffersPerCore procId = cfg.memReqBufferEntries) ∧
        s.reqCount ≠ cfg.totalMemReqBuffers := by
  simp only [State.memCanAllocateReqBuffer, State.refusedType, State.lastOne]
  cases forL1Writeback <;> cases type.isPrefetch <;> cases type.isWb <;> cases hprivate : cfg.privateMshrOn <;>
    simp [and_assoc]

/-- The thresholds of the types, on the pool. -/
theorem PoolLife.Inv.refusedType_iff (hi : s.Inv cfg) : s.state.refusedType cfg procId type = true ↔
    type.isPrefetch = true ∧ cfg.memReqBufferEntries ≤ (s.pool cfg procId).length + cfg.memReqBufferPrefWatermark ∨
      type.isWb = false ∧ cfg.memReqBufferEntries ≤ (s.pool cfg procId).length + cfg.memReqBufferWbValve := by
  unfold State.refusedType
  by_cases hprivate : cfg.privateMshrOn = true
  · simp [hprivate, hi.private hprivate]
  · have hshared := hi.shared hprivate procId
    have hiff (n : ℕ) : s.state.reqBufferFreeList.length ≤ n ↔ cfg.memReqBufferEntries ≤ (s.pool cfg procId).length + n := by
      omega
    simp [hprivate, hiff]

theorem PoolLife.Inv.lastOne_iff (hi : s.Inv cfg) :
    s.state.lastOne cfg procId = true ↔ cfg.memReqBufferEntries ≤ (s.pool cfg procId).length + 1 := by
  unfold State.lastOne
  by_cases hprivate : cfg.privateMshrOn = true
  · rw [if_pos hprivate, hi.private hprivate, decide_eq_true_iff]
  · have hshared := hi.shared hprivate procId
    rw [if_neg hprivate, decide_eq_true_iff]
    omega

/-- A writeback of the L1 is refused by a pool that is used up only. -/
theorem PoolLife.Inv.of_refused (hi : s.Inv cfg) (hcore : procId < cfg.numCores)
    (h : s.state.memCanAllocateReqBuffer cfg procId .wb true = false) :
    (s.pool cfg procId).length = cfg.memReqBufferEntries := by
  have htype : s.state.refusedType cfg procId .wb = false := rfl
  by_contra hne
  have hcan : s.state.memCanAllocateReqBuffer cfg procId .wb true = true := by
    refine State.memCanAllocateReqBuffer_iff.mpr ⟨htype, fun hl => absurd hl (by decide), fun hused => ?_, fun htotal => ?_⟩
    · exact hne ((hi.private hused.1).symm.trans hused.2)
    · exact hne (hi.full hcore htotal)
  rw [h] at hcan
  cases hcan

/-! ## One call -/

/-- What `mem_allocate_req_buffer` does. -/
theorem PoolLife.allocate_cases {queue : Option QueueId} {addr : Addr} {delay : ℕ} {op : Option MemOp}
    {doneFunc : Option DoneFunc} {prefInfo : Option PrefReqInfo}
    (h : s.step cfg (.allocate procId type forL1Writeback queue addr delay op doneFunc prefInfo) = .ok t) :
    s.state.wrongWriteback cfg procId type forL1Writeback = false ∧ procId < cfg.numCores ∧
      (s.state.memCanAllocateReqBuffer cfg procId type forL1Writeback = false ∧ t = s ∨
        ∃ id free req, s.state.memCanAllocateReqBuffer cfg procId type forL1Writeback = true ∧
          s.state.reqBufferFreeList = id :: free ∧ req.procId = procId ∧ req.type = type ∧ req.state ≠ .inv ∧
          t = ⟨(s.state.takeReq free procId).memInitNewReq id req, ⟨id, procId, forL1Writeback && type == .wb⟩ :: s.held⟩) := by
  dsimp only [step] at h
  cases hwrong : s.state.wrongWriteback cfg procId type forL1Writeback with
  | true =>
      rw [if_pos hwrong] at h
      cases h
  | false =>
      rw [if_neg (by rw [hwrong]; decide)] at h
      obtain ⟨out, hout, h⟩ := Execution.bind_eq_ok.mp h
      unfold State.memAllocateReqBuffer at hout
      by_cases hcore : cfg.numCores ≤ procId
      · rw [if_pos hcore] at hout
        cases hout
      · rw [if_neg hcore] at hout
        refine ⟨rfl, Nat.lt_of_not_le hcore, ?_⟩
        cases hcan : s.state.memCanAllocateReqBuffer cfg procId type forL1Writeback with
        | false =>
            rw [if_neg (by rw [hcan]; decide)] at hout
            cases hout
            cases h
            exact .inl ⟨rfl, rfl⟩
        | true =>
            rw [if_pos hcan] at hout
            cases hfree : s.state.reqBufferFreeList with
            | nil =>
                rw [hfree] at hout
                cases hout
            | cons id free =>
                rw [hfree] at hout
                dsimp only at hout
                by_cases hstate : (s.state.reqBuffer id).state ≠ .inv
                · rw [if_pos hstate] at hout
                  cases hout
                · rw [if_neg hstate] at hout
                  cases hout
                  cases h
                  refine .inr ⟨id, free, _, rfl, rfl, rfl, rfl, ?_, rfl⟩
                  cases queue with
                  | none => exact fun hinv => nomatch hinv
                  | some k => cases k <;> exact fun hinv => nomatch hinv

/-- What the thresholds promise for a buffer that is taken. -/
theorem PoolLife.Inv.of_taken (hi : s.Inv cfg) (hwrong : s.state.wrongWriteback cfg procId type forL1Writeback = false)
    (h : s.state.memCanAllocateReqBuffer cfg procId type forL1Writeback = true) :
    ((forL1Writeback && type == .wb) = false → (s.pool cfg procId).length + 1 < cfg.memReqBufferEntries) ∧
      (type.isPrefetch = true → (s.pool cfg procId).length + cfg.memReqBufferPrefWatermark < cfg.memReqBufferEntries) ∧
      (type.isWb = false → (s.pool cfg procId).length + cfg.memReqBufferWbValve < cfg.memReqBufferEntries) := by
  obtain ⟨htype, hlast, -, -⟩ := State.memCanAllocateReqBuffer_iff.mp h
  have hrefused := mt hi.refusedType_iff.mpr (by rw [htype]; decide)
  refine ⟨fun hother => ?_, fun hp => ?_, fun hw => ?_⟩
  · have hnot : s.state.lastOne cfg procId = false := by
      cases hl : forL1Writeback with
      | false => exact hlast hl
      | true =>
          rw [hl, Bool.true_and] at hother
          rw [State.wrongWriteback, htype, hl, bne, hother] at hwrong
          simpa using hwrong
    have := mt hi.lastOne_iff.mpr (by rw [hnot]; decide)
    omega
  · by_contra hge
    exact hrefused (.inl ⟨hp, Nat.le_of_not_lt hge⟩)
  · by_contra hge
    exact hrefused (.inr ⟨hw, Nat.le_of_not_lt hge⟩)

/-- The pools after a buffer is taken. -/
theorem PoolLife.pool_cons {u : State} : (⟨u, hold :: s.held⟩ : PoolLife).pool cfg procId =
    if cfg.privateMshrOn = true ∧ hold.procId ≠ procId then s.pool cfg procId else hold :: s.pool cfg procId := by
  unfold pool
  by_cases hprivate : cfg.privateMshrOn = true
  · by_cases hcore : hold.procId = procId
    · simp [hprivate, hcore]
    · simp [hprivate, hcore]
  · simp [hprivate]

theorem PoolLife.Inv.taken (hi : s.Inv cfg) {free : List ℕ} {req : MemReq} {l1Writeback : Bool}
    (hfree : s.state.reqBufferFreeList = id :: free) (hcore : procId < cfg.numCores) (hreq : req.procId = procId)
    (hlive : req.state ≠ .inv) (hroom : (s.pool cfg procId).length < cfg.memReqBufferEntries)
    (hlast : l1Writeback = false → (s.pool cfg procId).length + 1 < cfg.memReqBufferEntries) :
    PoolLife.Inv cfg ⟨(s.state.takeReq free procId).memInitNewReq id req, ⟨id, procId, l1Writeback⟩ :: s.held⟩ := by
  have hperm := hi.perm
  rw [hfree] at hperm
  have hnodup := hperm.nodup_iff.mpr List.nodup_range
  have hpool (p : ℕ) : (⟨(s.state.takeReq free procId).memInitNewReq id req, ⟨id, procId, l1Writeback⟩ :: s.held⟩ :
      PoolLife).pool cfg p = if cfg.privateMshrOn = true ∧ procId ≠ p then s.pool cfg p else
        ⟨id, procId, l1Writeback⟩ :: s.pool cfg p := pool_cons
  -- the pool that grows is that of the core
  have hsame (p : ℕ) (h : ¬ (cfg.privateMshrOn = true ∧ procId ≠ p)) : s.pool cfg p = s.pool cfg procId := by
    unfold pool
    by_cases hprivate : cfg.privateMshrOn = true
    · have hp : procId = p := by
        by_contra hne
        exact h ⟨hprivate, hne⟩
      rw [hp]
    · rw [if_neg hprivate, if_neg hprivate]
  have hnot : id ∉ s.held.map Hold.id ∧ id ∉ free := by
    have hmoved := List.nodup_cons.mp (List.perm_middle.nodup_iff.mp hnodup)
    exact ⟨fun h => hmoved.1 (List.mem_append_left _ h), fun h => hmoved.1 (List.mem_append_right _ h)⟩
  have hother (id' : ℕ) (hne : id' ≠ id) :
      ((s.state.takeReq free procId).memInitNewReq id req).reqBuffer id' = s.state.reqBuffer id' := if_neg hne
  have hself : ((s.state.takeReq free procId).memInitNewReq id req).reqBuffer id = req := if_pos rfl
  refine ⟨List.perm_middle.symm.trans hperm, fun id' hid' => ?_, fun hold hhold => ?_, fun hold hhold => ?_, ?_, fun p => ?_,
    fun p => ?_, fun p hpos hfull => ?_⟩
  · rw [hother id' fun heq => hnot.2 (heq ▸ hid')]
    exact hi.free id' (hfree ▸ List.mem_cons_of_mem id hid')
  · rcases List.mem_cons.mp hhold with rfl | hhold
    · rw [hself]
      exact ⟨hlive, hreq⟩
    · rw [hother hold.id fun heq => hnot.1 (heq ▸ List.mem_map_of_mem hhold)]
      exact hi.live hold hhold
  · rcases List.mem_cons.mp hhold with rfl | hhold
    · exact hcore
    · exact hi.core hold hhold
  · exact congrArg (· + 1) hi.count
  · change (if p = procId then s.state.numReqBuffersPerCore p + 1 else s.state.numReqBuffersPerCore p) = _
    by_cases hp : p = procId
    · rw [if_pos hp, hi.perCore, List.filter_cons_of_pos (by simpa using hp.symm), List.length_cons]
    · rw [if_neg hp, hi.perCore, List.filter_cons_of_neg (by simpa using Ne.symm hp)]
  · rw [hpool]
    by_cases hp : cfg.privateMshrOn = true ∧ procId ≠ p
    · rw [if_pos hp]
      exact hi.le p
    · rw [if_neg hp, hsame p hp]
      exact hroom
  · rw [hpool] at hfull ⊢
    by_cases hp : cfg.privateMshrOn = true ∧ procId ≠ p
    · rw [if_pos hp] at hfull ⊢
      exact hi.reserve p hpos hfull
    · rw [if_neg hp, hsame p hp, List.length_cons] at hfull
      rw [if_neg hp]
      refine ⟨_, List.mem_cons_self, ?_⟩
      by_contra hother
      have := hlast (Bool.eq_false_iff.mpr hother)
      omega

/-- A request in use changes. -/
theorem PoolLife.Inv.change {req : MemReq} (hi : s.Inv cfg) (hold : (s.state.reqBuffer id).state ≠ .inv)
    (hlive : req.state ≠ .inv) (hcore : req.procId = (s.state.reqBuffer id).procId) :
    PoolLife.Inv cfg { s with state := s.state.setReq id req } := by
  have hreq (id' : ℕ) : (s.state.setReq id req).reqBuffer id' = if id' = id then req else s.state.reqBuffer id' := rfl
  refine ⟨hi.perm, fun id' hid' => ?_, fun hold' hhold => ?_, hi.core, hi.count, hi.perCore, hi.le, hi.reserve⟩
  · dsimp only
    have hne : id' ≠ id := by
      rintro rfl
      exact hold (hi.free _ hid')
    rw [hreq, if_neg hne]
    exact hi.free id' hid'
  · dsimp only
    rw [hreq]
    by_cases heq : hold'.id = id
    · rw [if_pos heq, hcore, ← heq]
      exact ⟨hlive, (hi.live hold' hhold).2⟩
    · rw [if_neg heq]
      exact hi.live hold' hhold

/-- The pools after a buffer is freed. -/
theorem PoolLife.Inv.freed (hi : s.Inv cfg) (hmem : hold ∈ s.held) (hperm : (hold :: held).Perm s.held) :
    PoolLife.Inv cfg ⟨s.state.freeReq hold.id, held⟩ := by
  have hpool (p : ℕ) : (if cfg.privateMshrOn = true ∧ hold.procId ≠ p then
      (⟨s.state.freeReq hold.id, held⟩ : PoolLife).pool cfg p else
        hold :: (⟨s.state.freeReq hold.id, held⟩ : PoolLife).pool cfg p).Perm (s.pool cfg p) := by
    rw [← pool_cons (s := ⟨s.state.freeReq hold.id, held⟩) (u := s.state)]
    unfold pool
    by_cases hprivate : cfg.privateMshrOn = true
    · rw [if_pos hprivate, if_pos hprivate]
      exact hperm.filter _
    · rw [if_neg hprivate, if_neg hprivate]
      exact hperm
  have hids : (held.map Hold.id ++ (s.state.reqBufferFreeList ++ [hold.id])).Perm
      (s.held.map Hold.id ++ s.state.reqBufferFreeList) := by
    rw [← List.append_assoc]
    refine (List.perm_append_singleton _ _).trans ?_
    rw [← List.cons_append, ← List.map_cons]
    exact (hperm.map Hold.id).append_right _
  have hsub {hold' : Hold} (h : hold' ∈ held) : hold' ∈ s.held := hperm.subset (List.mem_cons_of_mem _ h)
  have hother (id' : ℕ) (hne : id' ≠ hold.id) : (s.state.freeReq hold.id).reqBuffer id' = s.state.reqBuffer id' := if_neg hne
  have hnot : hold.id ∉ held.map Hold.id := by
    have hnodup := (hi.perm.nodup_iff.mpr List.nodup_range).of_append_left
    rw [← (hperm.map Hold.id).nodup_iff] at hnodup
    exact (List.nodup_cons.mp hnodup).1
  refine ⟨hids.trans hi.perm, fun id' hid' => ?_, fun hold' hhold => ?_, fun hold' hhold => hi.core _ (hsub hhold), ?_,
    fun p => ?_, fun p => ?_, fun p hpos hfull => ?_⟩
  · by_cases heq : id' = hold.id
    · have hself : ((s.state.freeReq hold.id).reqBuffer hold.id).state = .inv := by
        simp [State.freeReq, State.setReq]
      rw [heq]
      exact hself
    · rw [hother id' heq]
      rcases List.mem_append.mp hid' with hfree | hfree
      · exact hi.free id' hfree
      · exact absurd (List.mem_singleton.mp hfree) heq
  · rw [hother hold'.id fun heq => hnot (heq ▸ List.mem_map_of_mem hhold)]
    exact hi.live hold' (hsub hhold)
  · have hlength := hperm.length_eq
    rw [List.length_cons, ← hi.count] at hlength
    change s.state.reqCount - 1 = held.length
    omega
  · have hlength := (hperm.filter fun hold => hold.procId == p).length_eq
    rw [← hi.perCore, List.filter_cons] at hlength
    change (if p = (s.state.reqBuffer hold.id).procId then s.state.numReqBuffersPerCore p - 1 else
      s.state.numReqBuffersPerCore p) = (held.filter fun hold => hold.procId == p).length
    rw [(hi.live hold hmem).2]
    by_cases hp : p = hold.procId
    · rw [if_pos (by simpa using hp.symm), List.length_cons] at hlength
      rw [if_pos hp]
      omega
    · rw [if_neg (by simpa using Ne.symm hp)] at hlength
      rw [if_neg hp, hlength]
  · have hlength := (hpool p).length_eq
    have hle := hi.le p
    split at hlength
    · omega
    · rw [List.length_cons] at hlength
      omega
  · have hlength := (hpool p).length_eq
    have hle := hi.le p
    by_cases hp : cfg.privateMshrOn = true ∧ hold.procId ≠ p
    · have hpp := hpool p
      rw [if_pos hp] at hlength hpp
      obtain ⟨hold', hhold, hl1⟩ := hi.reserve p hpos (hlength.symm.trans hfull)
      exact ⟨hold', hpp.mem_iff.mpr hhold, hl1⟩
    · rw [if_neg hp, List.length_cons] at hlength
      omega

/-- Each call keeps the pools in order. -/
theorem PoolLife.Inv.step {call : PoolCall} (hi : s.Inv cfg) (h : s.step cfg call = .ok t) : t.Inv cfg := by
  cases call with
  | allocate procId type forL1Writeback queue addr delay op doneFunc prefInfo =>
      obtain ⟨hwrong, hcore, ⟨-, rfl⟩ | ⟨id, free, req, hcan, hfree, hreq, -, hlive, rfl⟩⟩ := allocate_cases h
      · exact hi
      · have hroom : (s.pool cfg procId).length < cfg.memReqBufferEntries := by
          by_cases hprivate : cfg.privateMshrOn = true
          · have hused := (State.memCanAllocateReqBuffer_iff.mp hcan).2.2.1
            rw [hi.private hprivate] at hused
            exact Nat.lt_of_le_of_ne (hi.le procId) fun heq => hused ⟨hprivate, heq⟩
          · have hshared := hi.shared hprivate procId
            rw [hfree, List.length_cons] at hshared
            omega
        exact hi.taken hfree hcore hreq hlive hroom (hi.of_taken hwrong hcan).1
  | change id req =>
      dsimp only [PoolLife.step] at h
      split at h
      · cases h
      · rename_i hok
        have hok := not_or.mp hok
        have hok' := not_or.mp hok.2
        cases h
        exact hi.change hok.1 hok'.1 (not_not.mp hok'.2)
  | free id =>
      dsimp only [PoolLife.step] at h
      split at h
      · rename_i hany
        obtain ⟨u, hu, h⟩ := Execution.bind_eq_ok.mp h
        cases h
        obtain ⟨hold, hmem, hid⟩ := List.any_eq_true.mp hany
        obtain ⟨hold, first, last, -, hid, hheld, herase⟩ := List.exists_of_eraseP (p := fun hold => hold.id == id) hmem hid
        have hid : hold.id = id := by simpa using hid
        have hperm : (hold :: s.held.eraseP fun hold => hold.id == id).Perm s.held := by
          rw [herase, hheld]
          exact List.perm_middle.symm
        unfold State.memFreeReqbuf at hu
        split at hu
        · cases hu
        · split at hu
          · cases hu
          · split at hu
            · cases hu
            · cases hu
              rw [← hid] at hperm ⊢
              exact hi.freed (hperm.subset List.mem_cons_self) hperm
      · cases h

theorem PoolLife.inv_run {rands : ℕ → ℕ} {calls : List PoolCall}
    (h : Execution.run (PoolLife.step cfg) (.init cfg rands) calls = .ok s) : s.Inv cfg :=
  Execution.run_invariant (fun _ _ _ hi hstep => PoolLife.Inv.step hi hstep) (inv_init rands) h

/-- Whatever was taken and freed before, a buffer that is taken leaves what its thresholds keep of the pool, a
writeback of the L1 is refused by a pool that holds another one, and private pools are never exceeded. -/
theorem PoolLife.run_reserve {rands : ℕ → ℕ} {calls : List PoolCall}
    (h : Execution.run (PoolLife.step cfg) (.init cfg rands) calls = .ok s) :
    (cfg.privateMshrOn = true → ∀ procId, (s.held.filter fun hold => hold.procId == procId).length ≤ cfg.memReqBufferEntries) ∧
      ∀ procId type forL1Writeback queue addr delay op doneFunc prefInfo t,
        s.step cfg (.allocate procId type forL1Writeback queue addr delay op doneFunc prefInfo) = .ok t →
          (∃ id, t.held = ⟨id, procId, forL1Writeback && type == .wb⟩ :: s.held ∧
            ((forL1Writeback && type == .wb) = false → (t.pool cfg procId).length + 1 ≤ cfg.memReqBufferEntries) ∧
            (type.isPrefetch = true →
              (t.pool cfg procId).length + cfg.memReqBufferPrefWatermark ≤ cfg.memReqBufferEntries) ∧
            (type.isWb = false → (t.pool cfg procId).length + cfg.memReqBufferWbValve ≤ cfg.memReqBufferEntries)) ∨
          t = s ∧ (0 < cfg.memReqBufferEntries → type = .wb → forL1Writeback = true →
            ∃ hold ∈ s.pool cfg procId, hold.l1Writeback = true) := by
  have hi := inv_run h
  refine ⟨fun hprivate procId => ?_, ?_⟩
  · have hle := hi.le procId
    rwa [pool_of_private hprivate] at hle
  · intro procId type forL1Writeback queue addr delay op doneFunc prefInfo t hstep
    obtain ⟨hwrong, hcore, ⟨hcan, rfl⟩ | ⟨id, free, req, hcan, hfree, hreq, -, hlive, rfl⟩⟩ := allocate_cases hstep
    · refine .inr ⟨rfl, ?_⟩
      rintro hpos rfl rfl
      exact hi.reserve procId hpos (hi.of_refused hcore hcan)
    · obtain ⟨hlast, hpref, hvalve⟩ := hi.of_taken hwrong hcan
      refine .inl ⟨id, rfl, ?_⟩
      rw [pool_cons, if_neg fun hother => hother.2 rfl, List.length_cons]
      refine ⟨fun hother => ?_, fun hp => ?_, fun hw => ?_⟩
      · have := hlast hother
        omega
      · have := hpref hp
        omega
      · have := hvalve hw
        omega

/-- Of the two buffers of a core, the second is left to a writeback of the L1, which then keeps another one out. -/
theorem PoolLife.run_reserve_two :
    let cfg := { Config.small with memReqBufferEntries := 2, privateMshrOn := true }
    let writeback := PoolCall.allocate 0 .wb true none 0x80 0 none none none
    ∃ s, Execution.run (PoolLife.step cfg) (.init cfg fun _ => 0)
        [.allocate 0 .dfetch false (some .l1) 0x40 0 none none none, writeback] = .ok s ∧
      s.step cfg writeback = .ok s ∧ (s.held.filter fun hold => hold.procId == 0).length ≤ 2 ∧
      ∃ hold ∈ s.pool cfg 0, hold.l1Writeback = true := by
  intro cfg writeback
  obtain ⟨s, hrun, hheld⟩ := Execution.map_eq_ok.mp (show
    (fun s : PoolLife => (s.held, (PoolLife.held <$> s.step cfg writeback).toOption)) <$>
      Execution.run (PoolLife.step cfg) (.init cfg fun _ => 0)
        [.allocate 0 .dfetch false (some .l1) 0x40 0 none none none, writeback] =
        .ok ([⟨1, 0, true⟩, ⟨0, 0, false⟩], some [⟨1, 0, true⟩, ⟨0, 0, false⟩]) by decide +kernel)
  obtain ⟨hheld, hagain⟩ := Prod.mk.inj hheld
  obtain ⟨t, hstep, ht⟩ := Execution.map_eq_ok.mp (Execution.toOption_eq_some.mp hagain)
  obtain ⟨hle, hcalls⟩ := run_reserve hrun
  obtain ⟨id, htaken, -⟩ | ⟨rfl, hrefused⟩ := hcalls 0 .wb true none 0x80 0 none none none t hstep
  · rw [ht, hheld] at htaken
    exact absurd (congrArg List.length htaken) (fun heq => nomatch heq)
  · exact ⟨t, hrun, hstep, hle rfl 0, hrefused (by decide) rfl rfl⟩

/-- Without buffers a writeback of the L1 is refused as well. -/
theorem PoolLife.refused_empty :
    ¬ ∀ (cfg : Config) (rands : ℕ → ℕ) (calls : List PoolCall) (s : PoolLife) (procId : ℕ) (addr : Addr),
      Execution.run (PoolLife.step cfg) (.init cfg rands) calls = .ok s →
        s.step cfg (.allocate procId .wb true none addr 0 none none none) = .ok s →
          ∃ hold ∈ s.pool cfg procId, hold.l1Writeback = true := by
  intro h
  have hrefused := h { Config.small with memReqBufferEntries := 0 } (fun _ => 0) [] _ 0 0x80 rfl rfl
  obtain ⟨hold, hmem, -⟩ := hrefused
  cases hmem

end Scarab.Memory
