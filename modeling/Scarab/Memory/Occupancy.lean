import Scarab.Memory.Joining
import Scarab.Memory.Pool

/-! # The occupancy of the request buffers

`memory.c` counts the request buffers in use by the class of their types. A merge counts once, whichever of its two places
changed the type. -/

namespace Scarab.Memory

/-! ## The counters -/

/-- The classes of types that are counted. -/
inductive MemReqClass where
  | demand
  | pref
  | wb
  deriving DecidableEq, Repr

/-- The counter of a type. -/
def MemReqType.counter : MemReqType → MemReqClass
  | .ifetch | .dfetch | .dstore => .demand
  | .iprf | .dprf => .pref
  | .wb | .wbNodirty => .wb

/-- `mem_req_demand_entries`, `mem_req_pref_entries` and `mem_req_wb_entries`. -/
abbrev Entries := MemReqClass → BitVec 32

def Entries.add (entries : Entries) (type : MemReqType) (delta : ℤ) : Entries :=
  fun k => if k = type.counter then entries k + BitVec.ofInt 32 delta else entries k

/-- `update_mem_req_occupancy_counter`, with its assertion or, with `NO_ASSERT`, without it. -/
def updateMemReqOccupancyCounter (cfg : Config) (asserts : Bool) (entries : Entries) (type : MemReqType) (delta : ℤ) :
    Except String Entries :=
  let entries := entries.add type delta
  if asserts && decide (cfg.totalMemReqBuffers < (entries type.counter).toNat) then
    .error "*counter <= mem->total_mem_req_buffers"
  else .ok entries

/-- `mem_adjust_matching_request` with the counters. -/
def State.adjustCounted (cfg : Config) (asserts : Bool) (s : State) (entries : Entries) (found : Match) (type : MemReqType)
    (destination : Destination) (op : Option MemOp) (doneFunc : Option DoneFunc) (newPriority : Priority) :
    Except String (State × Entries) := do
  let oldType := (s.reqBuffer found.id).type
  let (taken, t) ← s.memAdjustMatchingRequest cfg found type destination op doneFunc newPriority
  if taken then
    let entries ← updateMemReqOccupancyCounter cfg asserts entries oldType (-1)
    return (t, ← updateMemReqOccupancyCounter cfg asserts entries (t.reqBuffer found.id).type 1)
  else return (t, entries)

/-! ## The driven pool with its counters -/

/-- The pool and the counters. -/
structure Occupancy where
  pool : PoolLife
  entries : Entries

/-- The calls. -/
inductive OccupancyCall where
  | pool (call : PoolCall)
  /-- `mem_adjust_matching_request`, for a request in use. -/
  | merge (found : Match) (type : MemReqType) (destination : Destination) (op : Option MemOp) (doneFunc : Option DoneFunc)
      (newPriority : Priority)
  /-- What happens to the queues. -/
  | requeue (k : QueueId) (entries : List QueueEntry)

def Occupancy.init (cfg : Config) (rands : ℕ → ℕ) : Occupancy := ⟨.init cfg rands, fun _ => 0⟩

/-- `mem_allocate_req_buffer` and `mem_free_reqbuf` count by the type that the request has then. -/
def Occupancy.countCall (cfg : Config) (asserts : Bool) (s : Occupancy) (held : List Hold) :
    PoolCall → Except String Entries
  | .allocate _ type .. =>
      if held.length = s.pool.held.length then .ok s.entries
      else updateMemReqOccupancyCounter cfg asserts s.entries type 1
  | .change .. => .ok s.entries
  | .free id => updateMemReqOccupancyCounter cfg asserts s.entries (s.pool.state.reqBuffer id).type (-1)

/-- Whether a call writes the type of a request otherwise than the code does. -/
def PoolLife.retypes (s : PoolLife) : PoolCall → Bool
  | .change id req => req.type != (s.state.reqBuffer id).type
  | _ => false

/-- One call. The type of a request in use is written by a merge only. -/
def Occupancy.step (cfg : Config) (asserts : Bool) (s : Occupancy) : OccupancyCall → Except String Occupancy
  | .pool call =>
      if s.pool.retypes call then .error "req->type"
      else do
        let pool ← s.pool.step cfg call
        return ⟨pool, ← s.countCall cfg asserts pool.held call⟩
  | .merge found type destination op doneFunc newPriority =>
      if s.pool.held.any fun hold => hold.id == found.id then do
        let (t, entries) ← s.pool.state.adjustCounted cfg asserts s.entries found type destination op doneFunc newPriority
        return ⟨{ s.pool with state := t }, entries⟩
      else .error "matching_req->state != MRS_INV"
  | .requeue k entries => .ok { s with pool := { s.pool with state := s.pool.state.setQueue k entries } }

/-- How many of some request buffers have a type of a class. -/
def State.census (s : State) (held : List Hold) (k : MemReqClass) : ℕ :=
  held.countP fun hold => (s.reqBuffer hold.id).type.counter == k

/-! ## One count -/

variable {cfg : Config} {s t : State} {id : ℕ} {req : MemReq} {found : Match} {type : MemReqType} {destination : Destination}
  {op : Option MemOp} {doneFunc : Option DoneFunc} {newPriority : Priority} {taken asserts : Bool}

/-- A count that stays within the buffers is exact, and its assertion holds. -/
theorem updateMemReqOccupancyCounter_counts {entries : Entries} {delta : ℤ} {n n' : MemReqClass → ℕ}
    (htotal : cfg.totalMemReqBuffers < 2 ^ 32) (hn : ∀ k, (entries k).toNat = n k)
    (hn' : ∀ k, (n' k : ℤ) = n k + if k = type.counter then delta else 0)
    (hle : n' type.counter ≤ cfg.totalMemReqBuffers) :
    ∃ entries', (∀ asserts, updateMemReqOccupancyCounter cfg asserts entries type delta = .ok entries') ∧
      ∀ k, (entries' k).toNat = n' k := by
  have hcounts (k : MemReqClass) : (entries.add type delta k).toNat = n' k := by
    have hk := hn' k
    rw [Entries.add]
    split
    · next hsame =>
        rw [if_pos hsame, ← hn k] at hk
        rw [← hsame] at hle
        rw [BitVec.toNat_add, BitVec.toNat_ofInt]
        omega
    · next hother =>
        rw [if_neg hother] at hk
        rw [hn k]
        omega
  refine ⟨entries.add type delta, fun asserts => ?_, hcounts⟩
  rw [updateMemReqOccupancyCounter, hcounts, decide_eq_false (Nat.not_lt_of_le hle), Bool.and_false]
  rfl

/-- A request that comes into a class. -/
theorem updateMemReqOccupancyCounter_in {entries : Entries} {n n' : MemReqClass → ℕ}
    (htotal : cfg.totalMemReqBuffers < 2 ^ 32) (hn : ∀ k, (entries k).toNat = n k)
    (hn' : ∀ k, n' k = n k + if k = type.counter then 1 else 0) (hle : n' type.counter ≤ cfg.totalMemReqBuffers) :
    ∃ entries', (∀ asserts, updateMemReqOccupancyCounter cfg asserts entries type 1 = .ok entries') ∧
      ∀ k, (entries' k).toNat = n' k := by
  refine updateMemReqOccupancyCounter_counts htotal hn (fun k => ?_) hle
  rw [hn' k]
  split
  · rfl
  · rfl

/-- A request that leaves a class. -/
theorem updateMemReqOccupancyCounter_out {entries : Entries} {n n' : MemReqClass → ℕ}
    (htotal : cfg.totalMemReqBuffers < 2 ^ 32) (hn : ∀ k, (entries k).toNat = n k)
    (hn' : ∀ k, n k = n' k + if k = type.counter then 1 else 0) (hle : n' type.counter ≤ cfg.totalMemReqBuffers) :
    ∃ entries', (∀ asserts, updateMemReqOccupancyCounter cfg asserts entries type (-1) = .ok entries') ∧
      ∀ k, (entries' k).toNat = n' k := by
  refine updateMemReqOccupancyCounter_counts htotal hn (fun k => ?_) hle
  rw [hn' k]
  split
  · omega
  · omega

/-! ## A merge -/

/-- What a merge leaves as it is. -/
structure State.Merges (s : State) (id : ℕ) (req : MemReq) (t : State) : Prop where
  reqBuffer : t.reqBuffer = (s.setReq id req).reqBuffer
  state : req.state = (s.reqBuffer id).state
  procId : req.procId = (s.reqBuffer id).procId
  reqBufferFreeList : t.reqBufferFreeList = s.reqBufferFreeList
  reqCount : t.reqCount = s.reqCount
  numReqBuffersPerCore : t.numReqBuffersPerCore = s.numReqBuffersPerCore

theorem State.adjustPriority_merges {u : State} (hu : u.reqBuffer = s.reqBuffer ∧
      u.reqBufferFreeList = s.reqBufferFreeList ∧ u.reqCount = s.reqCount ∧ u.numReqBuffersPerCore = s.numReqBuffersPerCore)
    (hreq : req.state = (s.reqBuffer found.id).state ∧ req.procId = (s.reqBuffer found.id).procId)
    (h : u.adjustPriority cfg found req type destination doneFunc newPriority = .ok t) : ∃ req', s.Merges found.id req' t := by
  obtain ⟨hbuffer, hfree, hcount, hcores⟩ := hu
  obtain ⟨req', hreq', hresorts⟩ := State.adjustPriority_resorts h
  have hsame : req'.state = req.state ∧ req'.procId = req.procId := by
    obtain rfl | rfl := hreq'
    · exact ⟨rfl, rfl⟩
    · exact ⟨rfl, rfl⟩
  have hset : (u.setReq found.id req').reqBuffer = (s.setReq found.id req').reqBuffer := by
    rw [State.setReq, State.setReq, hbuffer]
  have hmerges : s.Merges found.id req' (u.setReq found.id req') :=
    ⟨hset, hsame.1.trans hreq.1, hsame.2.trans hreq.2, hfree, hcount, hcores⟩
  cases hresorts with
  | same => exact ⟨req', hmerges⟩
  | rerank =>
      exact ⟨req', hmerges.reqBuffer, hmerges.state, hmerges.procId, hmerges.reqBufferFreeList, hmerges.reqCount,
        hmerges.numReqBuffersPerCore⟩

theorem MemReq.hitBack_same {req' : MemReq} (h : req.hitBack cfg found doneFunc = .ok (some req')) :
    req'.state = req.state ∧ req'.procId = req.procId := by
  rw [MemReq.hitBack] at h
  split at h
  · rw [(MemReq.requestBack_eq h).2]
    exact ⟨rfl, rfl⟩
  · obtain rfl := Option.some.inj (Except.ok.inj h)
    exact ⟨rfl, rfl⟩

theorem MemReq.addOp_same (req : MemReq) (type : MemReqType) (op : MemOp) (doneFunc : Option DoneFunc) (hit : Bool) :
    (req.addOp type op doneFunc hit).state = req.state ∧ (req.addOp type op doneFunc hit).procId = req.procId := by
  rw [MemReq.addOp]
  dsimp only
  split
  · exact ⟨rfl, rfl⟩
  · exact ⟨rfl, rfl⟩

/-- `mem_adjust_matching_request` changes one request, and none if it returns `FALSE`. -/
theorem memAdjustMatchingRequest_merges
    (h : s.memAdjustMatchingRequest cfg found type destination op doneFunc newPriority = .ok (taken, t)) :
    taken = false ∧ t = s ∨ taken = true ∧ ∃ req, s.Merges found.id req t := by
  rw [State.memAdjustMatchingRequest] at h
  obtain ⟨hit, hhit, h⟩ := Execution.bind_eq_ok.mp h
  cases hit with
  | none =>
      obtain ⟨rfl, rfl⟩ := Prod.mk.inj (Except.ok.inj h)
      exact .inl ⟨rfl, rfl⟩
  | some req =>
      have hreq := MemReq.hitBack_same hhit
      cases op with
      | none =>
          obtain ⟨m, hm, h⟩ := Execution.bind_eq_ok.mp h
          obtain ⟨rfl, rfl⟩ := Prod.mk.inj (Except.ok.inj h)
          refine .inr ⟨rfl, ?_⟩
          exact State.adjustPriority_merges ⟨rfl, rfl, rfl, rfl⟩ hreq hm
      | some op =>
          dsimp only at h
          split at h
          · cases h
          · obtain ⟨m, hm, h⟩ := Execution.bind_eq_ok.mp h
            obtain ⟨rfl, rfl⟩ := Prod.mk.inj (Except.ok.inj h)
            refine .inr ⟨rfl, ?_⟩
            have hop := MemReq.addOp_same req type op doneFunc found.demandHitPrefetch
            have hjoined := And.intro (hop.1.trans hreq.1) (hop.2.trans hreq.2)
            split at hm
            · exact State.adjustPriority_merges (u := s.call found.id _) ⟨rfl, rfl, rfl, rfl⟩ hjoined hm
            · exact State.adjustPriority_merges ⟨rfl, rfl, rfl, rfl⟩ hjoined hm

theorem PoolLife.Inv.merges {pool : PoolLife} (hi : pool.Inv cfg) (hlive : (pool.state.reqBuffer id).state ≠ .inv)
    (h : pool.state.Merges id req t) : PoolLife.Inv cfg { pool with state := t } := by
  have hset := hi.change hlive (h.state ▸ hlive) h.procId
  refine ⟨?_, ?_, ?_, hi.core, ?_, ?_, hi.le, hi.reserve⟩
  · rw [h.reqBufferFreeList]
    exact hi.perm
  · rw [h.reqBufferFreeList, h.reqBuffer]
    exact hset.free
  · rw [h.reqBuffer]
    exact hset.live
  · rw [h.reqCount]
    exact hi.count
  · rw [h.numReqBuffersPerCore]
    exact hi.perCore

/-! ## The census -/

theorem State.census_le (s : State) (held : List Hold) (k : MemReqClass) : s.census held k ≤ held.length :=
  List.countP_le_length

/-- One request and the others. -/
theorem State.census_perm {hold : Hold} {rest held : List Hold} (hperm : (hold :: rest).Perm held) (k : MemReqClass) :
    s.census held k = s.census rest k + if k = (s.reqBuffer hold.id).type.counter then 1 else 0 := by
  rw [census, ← hperm.countP_eq, List.countP_cons]
  simp only [beq_iff_eq, @eq_comm _ k]
  rfl

/-- The census reads the types of these requests. -/
theorem State.census_congr {held : List Hold}
    (h : ∀ hold ∈ held, (t.reqBuffer hold.id).type = (s.reqBuffer hold.id).type) (k : MemReqClass) :
    t.census held k = s.census held k := by
  refine List.countP_congr fun hold hhold => ?_
  rw [h hold hhold]

/-- A request in use has one place. -/
theorem PoolLife.Inv.exists_rest {pool : PoolLife} (hi : pool.Inv cfg) (hany : pool.held.any (fun hold => hold.id == id) = true) :
    ∃ hold, (hold :: pool.held.eraseP fun hold => hold.id == id).Perm pool.held ∧ hold.id = id ∧
      ∀ hold' ∈ pool.held.eraseP (fun hold => hold.id == id), hold'.id ≠ id := by
  obtain ⟨hold, hmem, hid⟩ := List.any_eq_true.mp hany
  obtain ⟨hold, first, last, -, hid, hheld, herase⟩ := List.exists_of_eraseP (p := fun hold => hold.id == id) hmem hid
  have hid : hold.id = id := by simpa using hid
  have hperm : (hold :: pool.held.eraseP fun hold => hold.id == id).Perm pool.held := by
    rw [herase, hheld]
    exact List.perm_middle.symm
  refine ⟨hold, hperm, hid, fun hold' hhold' heq => ?_⟩
  have hnodup := (hi.perm.nodup_iff.mpr List.nodup_range).of_append_left
  rw [← (hperm.map Hold.id).nodup_iff] at hnodup
  exact (List.nodup_cons.mp hnodup).1 (hid.trans heq.symm ▸ List.mem_map_of_mem hhold')

theorem PoolLife.Inv.held_le {pool : PoolLife} (hi : pool.Inv cfg) : pool.held.length ≤ cfg.totalMemReqBuffers := by
  have hlength := hi.perm.length_eq
  rw [List.length_append, List.length_map, List.length_range] at hlength
  omega

/-- The counters are exact. -/
structure Occupancy.Inv (cfg : Config) (s : Occupancy) : Prop where
  pool : s.pool.Inv cfg
  entries : ∀ k, (s.entries k).toNat = s.pool.state.census s.pool.held k

/-- An allocation and a free count by the type of their request. -/
theorem Occupancy.Inv.countCall {s : Occupancy} {call : PoolCall} {pool : PoolLife} (hi : s.Inv cfg)
    (htotal : cfg.totalMemReqBuffers < 2 ^ 32) (hkeeps : s.pool.retypes call = false) (h : s.pool.step cfg call = .ok pool) :
    ∃ entries, (∀ asserts, s.countCall cfg asserts pool.held call = .ok entries) ∧
      ∀ k, (entries k).toNat = pool.state.census pool.held k := by
  have hpool := hi.pool.step h
  have hle (k : MemReqClass) : pool.state.census pool.held k ≤ cfg.totalMemReqBuffers :=
    (State.census_le _ _ k).trans hpool.held_le
  cases call with
  | allocate procId type forL1Writeback queue addr delay op doneFunc prefInfo =>
      obtain ⟨-, -, ⟨-, rfl⟩ | ⟨id, free, req, -, hfree, -, htype, -, rfl⟩⟩ := PoolLife.allocate_cases h
      · exact ⟨s.entries, fun _ => if_pos rfl, hi.entries⟩
      · have hnot : id ∉ s.pool.held.map Hold.id := by
          have hperm := hi.pool.perm
          rw [hfree] at hperm
          have hmoved := List.perm_middle.nodup_iff.mp (hperm.nodup_iff.mpr List.nodup_range)
          exact fun hmem => (List.nodup_cons.mp hmoved).1 (List.mem_append_left _ hmem)
        have hothers (k : MemReqClass) :
            ((s.pool.state.takeReq free procId).memInitNewReq id req).census s.pool.held k =
              s.pool.state.census s.pool.held k := by
          refine State.census_congr (fun hold hhold => ?_) k
          have hne : hold.id ≠ id := fun heq => hnot (heq ▸ List.mem_map_of_mem hhold)
          exact congrArg MemReq.type (State.setReq_other hne)
        have hself : (((s.pool.state.takeReq free procId).memInitNewReq id req).reqBuffer id).type = type :=
          (congrArg MemReq.type (State.setReq_self _ id req)).trans htype
        obtain ⟨entries, hcounted, hcensus⟩ := updateMemReqOccupancyCounter_in htotal hi.entries (fun k => by
          rw [State.census_perm (.refl _) k, hothers, hself]) (hle type.counter)
        exact ⟨entries, fun asserts => (if_neg (Nat.succ_ne_self _)).trans (hcounted asserts), hcensus⟩
  | change id req =>
      refine ⟨s.entries, fun _ => rfl, fun k => (hi.entries k).trans ?_⟩
      dsimp only [PoolLife.step] at h
      split at h
      · cases h
      · obtain rfl := Except.ok.inj h
        refine (State.census_congr (fun hold _ => ?_) k).symm
        by_cases hid : hold.id = id
        · rw [hid, State.setReq_self]
          simpa [PoolLife.retypes] using hkeeps
        · rw [State.setReq_other hid]
  | free id =>
      dsimp only [PoolLife.step] at h
      split at h
      · next hany =>
          obtain ⟨u, hu, h⟩ := Execution.bind_eq_ok.mp h
          obtain rfl := Except.ok.inj h
          obtain ⟨-, -, -, rfl⟩ := State.memFreeReqbuf_eq hu
          obtain ⟨hold, hperm, hid, hrest⟩ := hi.pool.exists_rest hany
          have hothers (k : MemReqClass) : (s.pool.state.freeReq id).census (s.pool.held.eraseP fun hold => hold.id == id) k =
              s.pool.state.census (s.pool.held.eraseP fun hold => hold.id == id) k :=
            State.census_congr (fun hold' hhold' => congrArg MemReq.type (if_neg (hrest hold' hhold'))) k
          refine updateMemReqOccupancyCounter_out htotal hi.entries (fun k => ?_) (hle _)
          rw [hothers, State.census_perm hperm k, hid]
      · cases h

/-- A merge counts the type that the request had and the one that it has. -/
theorem Occupancy.Inv.adjustCounted {s : Occupancy} {entries : Entries} (hi : s.Inv cfg)
    (htotal : cfg.totalMemReqBuffers < 2 ^ 32) (hany : s.pool.held.any (fun hold => hold.id == found.id) = true)
    (h : s.pool.state.adjustCounted cfg false s.entries found type destination op doneFunc newPriority = .ok (t, entries)) :
    s.pool.state.adjustCounted cfg true s.entries found type destination op doneFunc newPriority = .ok (t, entries) ∧
      Occupancy.Inv cfg ⟨{ s.pool with state := t }, entries⟩ := by
  rw [State.adjustCounted] at h ⊢
  obtain ⟨⟨taken, u⟩, hu, h⟩ := Execution.bind_eq_ok.mp h
  cases taken with
  | false =>
      obtain ⟨rfl, rfl⟩ := Prod.mk.inj (Except.ok.inj h)
      refine ⟨Execution.bind_eq_ok.mpr ⟨_, hu, rfl⟩, ?_⟩
      obtain ⟨-, rfl⟩ | ⟨hno, -⟩ := memAdjustMatchingRequest_merges hu
      · exact hi
      · cases hno
  | true =>
      obtain ⟨hold, hperm, hid, hrest⟩ := hi.pool.exists_rest hany
      obtain ⟨hno, -⟩ | ⟨-, req, hmerges⟩ := memAdjustMatchingRequest_merges hu
      · cases hno
      · have hlive := (hi.pool.live hold (hperm.subset List.mem_cons_self)).1
        rw [hid] at hlive
        have hpool := hi.pool.merges hlive hmerges
        have hothers (k : MemReqClass) : u.census (s.pool.held.eraseP fun hold => hold.id == found.id) k =
            s.pool.state.census (s.pool.held.eraseP fun hold => hold.id == found.id) k := by
          refine State.census_congr (fun hold' hhold' => ?_) k
          rw [hmerges.reqBuffer, State.setReq_other (hrest hold' hhold')]
        have hle (v : State) (k : MemReqClass) : v.census s.pool.held k ≤ cfg.totalMemReqBuffers :=
          (State.census_le v _ k).trans hi.pool.held_le
        -- the request leaves the class of its old type and enters that of its new one
        have hout (k : MemReqClass) := State.census_perm (s := s.pool.state) hperm k
        have hin (k : MemReqClass) := State.census_perm (s := u) hperm k
        rw [hid] at hout hin
        obtain ⟨entries₁, hcounted₁, hcensus₁⟩ := updateMemReqOccupancyCounter_out htotal hi.entries hout
          (Nat.le_trans (hout _ ▸ Nat.le_add_right _ _) (hle s.pool.state _))
        obtain ⟨entries₂, hcounted₂, hcensus₂⟩ := updateMemReqOccupancyCounter_in htotal hcensus₁
          (fun k => by rw [hin k, hothers]) (hle u _)
        obtain ⟨entries₁', hcounted, h⟩ := Execution.bind_eq_ok.mp h
        obtain rfl : entries₁ = entries₁' := Except.ok.inj ((hcounted₁ false).symm.trans hcounted)
        obtain ⟨entries₂', hcounted, h⟩ := Execution.bind_eq_ok.mp h
        obtain rfl : entries₂ = entries₂' := Except.ok.inj ((hcounted₂ false).symm.trans hcounted)
        obtain ⟨rfl, rfl⟩ := Prod.mk.inj (Except.ok.inj h)
        refine ⟨Execution.bind_eq_ok.mpr ⟨_, hu, ?_⟩, hpool, hcensus₂⟩
        exact Execution.bind_eq_ok.mpr ⟨entries₁, hcounted₁ true, Execution.bind_eq_ok.mpr ⟨entries₂, hcounted₂ true, rfl⟩⟩

/-- Each call keeps the counters exact, and no assertion about them fails. -/
theorem Occupancy.Inv.step {s t : Occupancy} {call : OccupancyCall} (hi : s.Inv cfg)
    (htotal : cfg.totalMemReqBuffers < 2 ^ 32) (h : s.step cfg false call = .ok t) :
    s.step cfg true call = .ok t ∧ t.Inv cfg := by
  cases call with
  | pool call =>
      simp only [Occupancy.step] at h ⊢
      split at h
      · cases h
      · next hkeeps =>
          obtain ⟨pool, hpool, h⟩ := Execution.bind_eq_ok.mp h
          obtain ⟨entries, hentries, h⟩ := Execution.bind_eq_ok.mp h
          obtain rfl := Except.ok.inj h
          obtain ⟨entries', hcounted, hcensus⟩ := hi.countCall htotal (Bool.eq_false_iff.mpr hkeeps) hpool
          obtain rfl : entries' = entries := Except.ok.inj ((hcounted false).symm.trans hentries)
          refine ⟨?_, hi.pool.step hpool, hcensus⟩
          rw [if_neg hkeeps, hpool]
          exact Execution.bind_eq_ok.mpr ⟨pool, rfl, Execution.bind_eq_ok.mpr ⟨entries', hcounted true, rfl⟩⟩
  | merge found type destination op doneFunc newPriority =>
      simp only [Occupancy.step] at h ⊢
      split at h
      · next hany =>
          obtain ⟨⟨u, entries⟩, hu, h⟩ := Execution.bind_eq_ok.mp h
          obtain rfl := Except.ok.inj h
          obtain ⟨hchecked, hinv⟩ := hi.adjustCounted htotal hany hu
          rw [if_pos hany, hchecked]
          exact ⟨rfl, hinv⟩
      · cases h
  | requeue k entries =>
      obtain rfl := Except.ok.inj h
      exact ⟨rfl, ⟨hi.pool.perm, hi.pool.free, hi.pool.live, hi.pool.core, hi.pool.count, hi.pool.perCore, hi.pool.le,
        hi.pool.reserve⟩, hi.entries⟩

/-! ## Runs -/

theorem Occupancy.inv_init (rands : ℕ → ℕ) : (init cfg rands).Inv cfg := ⟨PoolLife.inv_init rands, fun _ => rfl⟩

theorem Occupancy.Inv.run {s t : Occupancy} {calls : List OccupancyCall} (hi : s.Inv cfg)
    (htotal : cfg.totalMemReqBuffers < 2 ^ 32) (h : Execution.run (Occupancy.step cfg false) s calls = .ok t) :
    Execution.run (Occupancy.step cfg true) s calls = .ok t ∧ t.Inv cfg := by
  induction calls generalizing s with
  | nil =>
      obtain rfl := Except.ok.inj h
      exact ⟨rfl, hi⟩
  | cons call calls ih =>
      obtain ⟨u, hu, hrest⟩ := Execution.run_cons_eq_ok.mp h
      obtain ⟨hchecked, hinv⟩ := hi.step htotal hu
      obtain ⟨hrun, hend⟩ := ih hinv hrest
      exact ⟨Execution.run_cons_eq_ok.mpr ⟨u, hchecked, hrun⟩, hend⟩

/-- The allocated buffers of a class. -/
def State.allocated (cfg : Config) (s : State) (k : MemReqClass) : ℕ :=
  (List.range cfg.totalMemReqBuffers).countP fun id =>
    (s.reqBuffer id).state != .inv && (s.reqBuffer id).type.counter == k

theorem PoolLife.Inv.allocated {pool : PoolLife} (hi : pool.Inv cfg) (k : MemReqClass) :
    pool.state.allocated cfg k = pool.state.census pool.held k := by
  rw [State.allocated, ← hi.perm.countP_eq, List.countP_append, List.countP_map]
  have hfree : (pool.state.reqBufferFreeList.countP fun id =>
      (pool.state.reqBuffer id).state != .inv && (pool.state.reqBuffer id).type.counter == k) = 0 := by
    refine List.countP_eq_zero.mpr fun id hid => ?_
    rw [hi.free id hid]
    exact Bool.false_ne_true
  rw [hfree, Nat.add_zero]
  refine List.countP_congr fun hold hhold => ?_
  have hlive := (hi.live hold hhold).1
  simp [hlive]

/-- After any allocations, frees, merges and promotions, the counters are the numbers of allocated buffers of their classes,
so that a count down never begins at zero. The assertion about them stops no run. -/
theorem Occupancy.run_exact {s : Occupancy} {rands : ℕ → ℕ} {calls : List OccupancyCall}
    (htotal : cfg.totalMemReqBuffers < 2 ^ 32) (h : Execution.run (Occupancy.step cfg false) (.init cfg rands) calls = .ok s) :
    Execution.run (Occupancy.step cfg true) (.init cfg rands) calls = .ok s ∧
      (∀ k, (s.entries k).toNat = s.pool.state.allocated cfg k) ∧
        ∀ id < cfg.totalMemReqBuffers, (s.pool.state.reqBuffer id).state ≠ .inv →
          0 < (s.entries (s.pool.state.reqBuffer id).type.counter).toNat := by
  obtain ⟨hchecked, hinv⟩ := (inv_init rands).run htotal h
  have hexact (k : MemReqClass) : (s.entries k).toNat = s.pool.state.allocated cfg k :=
    (hinv.entries k).trans (hinv.pool.allocated k).symm
  refine ⟨hchecked, hexact, fun id hid hlive => ?_⟩
  rw [hexact]
  refine List.countP_pos_iff.mpr ⟨id, List.mem_range.mpr hid, ?_⟩
  simp [hlive]

/-- A load promotes a prefetch, and a writeback comes and goes. -/
theorem Occupancy.run_exact_promoted :
    ∃ s, Execution.run (Occupancy.step .small false) (.init .small fun _ => 0)
        [.pool (.allocate 0 .dprf false (some .l1) 64 0 none none none),
          .pool (.allocate 0 .wb false (some .l1) 128 0 none none none), .requeue .l1 [⟨0, 1, 0⟩, ⟨1, 0, 0⟩],
          .merge ⟨0, some (.l1, 0), true, false⟩ .dfetch .none (some ⟨7, 0, 0⟩) (some .dcacheFillLine) ⟨0, 0⟩,
          .pool (.free 1)] = .ok s ∧
      s.pool.state.allocated .small .demand = 1 ∧ (s.entries .demand).toNat = 1 ∧ (s.entries .pref).toNat = 0 ∧
        (s.entries .wb).toNat = 0 := by
  obtain ⟨s, hrun, hseen⟩ := Execution.map_eq_ok.mp (show
    (fun s : Occupancy => (s.pool.state.allocated .small .demand, s.pool.state.allocated .small .pref,
        s.pool.state.allocated .small .wb)) <$>
      Execution.run (Occupancy.step .small false) (.init .small fun _ => 0)
        [.pool (.allocate 0 .dprf false (some .l1) 64 0 none none none),
          .pool (.allocate 0 .wb false (some .l1) 128 0 none none none), .requeue .l1 [⟨0, 1, 0⟩, ⟨1, 0, 0⟩],
          .merge ⟨0, some (.l1, 0), true, false⟩ .dfetch .none (some ⟨7, 0, 0⟩) (some .dcacheFillLine) ⟨0, 0⟩,
          .pool (.free 1)] = .ok (1, 0, 0) by decide +kernel)
  simp only [Prod.mk.injEq] at hseen
  obtain ⟨-, hexact, -⟩ := run_exact (by decide) hrun
  exact ⟨s, hrun, hseen.1, (hexact .demand).trans hseen.1, (hexact .pref).trans hseen.2.1, (hexact .wb).trans hseen.2.2⟩

end Scarab.Memory
