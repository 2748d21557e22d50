import Scarab.Memory.Filling

/-! # What a fill displaces

`l1_fill_line` asks which line it is going to replace, writes it back, and then inserts. `mlc_fill_line`
inserts first, and asks afterwards: what it writes back and marks is the line that would be replaced
next. -/

namespace Scarab.Memory

variable {cfg : Config} {env : Env} {s t m : State} {id : ℕ} {taken filled : Bool} {procId : ℕ} {addr : Addr}

/-! ## What making a request leaves -/

/-- The caches, and the lines that they wrote back. -/
structure Caches where
  l1 : ℕ → Cache LineData
  mlc : Cache LineData
  simTime : ℕ
  mlcWritebacks : List Addr
  l1Writebacks : List Addr

def State.caches (s : State) : Caches := ⟨s.l1, s.mlc, s.simTime, s.mlcWritebacks, s.l1Writebacks⟩

section Requests

variable {k : QueueId} {priority newPriority : Priority} {type : MemReqType} {destination : Destination}
  {op : Option MemOp} {doneFunc : Option DoneFunc} {found : Match} {req : MemReq} {toMlc : Bool} {delay : ℕ}
  {prefInfo : Option PrefReqInfo}

theorem State.memInsertReqIntoQueue_caches (h : s.memInsertReqIntoQueue cfg id k priority = .ok t) :
    t.caches = s.caches := by
  obtain ⟨_, heq⟩ := Execution.ite_error_eq_ok.mp h
  cases heq
  rfl

theorem State.insertNewReq_caches
    (h : s.insertNewReq cfg id toMlc type procId addr delay op doneFunc prefInfo = .ok t) : t.caches = s.caches := by
  unfold State.insertNewReq at h
  cases toMlc with
  | true =>
      obtain ⟨m, hinsert, heq⟩ := Execution.bind_eq_ok.mp h
      cases heq
      have hm := State.memInsertReqIntoQueue_caches hinsert
      exact hm
  | false =>
      obtain ⟨m, hinsert, heq⟩ := Execution.bind_eq_ok.mp h
      cases heq
      have hm := State.memInsertReqIntoQueue_caches hinsert
      exact hm

theorem State.adjustPriority_caches
    (h : s.adjustPriority cfg found req type destination doneFunc newPriority = .ok t) : t.caches = s.caches := by
  unfold State.adjustPriority at h
  by_cases hhigher : (newPriority.lt (s.oldPriority found) && !cfg.allFifoQueues) = true
  · rw [if_pos hhigher] at h
    cases hqueue : req.queue with
    | none =>
        rw [hqueue] at h
        cases h
    | some k =>
        rw [hqueue] at h
        dsimp only at h
        by_cases hk : k = .mlc ∨ k = .l1 ∨ cfg.orderBeyondBus
        · rw [if_pos hk] at h
          cases h
          cases found.place <;> rfl
        · rw [if_neg hk] at h
          cases h
          rfl
  · rw [if_neg hhigher] at h
    cases h
    rfl

theorem State.memAdjustMatchingRequest_caches
    (h : s.memAdjustMatchingRequest cfg found type destination none doneFunc newPriority = .ok (taken, t)) :
    t.caches = s.caches := by
  obtain ⟨req, _, h⟩ := Execution.bind_eq_ok.mp h
  cases req with
  | none =>
      cases h
      rfl
  | some req =>
      obtain ⟨m, hm, h⟩ := Execution.bind_eq_ok.mp h
      cases h
      exact State.adjustPriority_caches hm

theorem State.memAllocateReqBuffer_eq_none {allocated : Option ℕ}
    (h : s.memAllocateReqBuffer cfg procId type false = .ok (allocated, t)) :
    allocated = none ↔ s.memCanAllocateReqBuffer cfg procId type false = false := by
  unfold State.memAllocateReqBuffer at h
  by_cases hcore : cfg.numCores ≤ procId
  · rw [if_pos hcore] at h
    cases h
  · rw [if_neg hcore] at h
    cases hcan : s.memCanAllocateReqBuffer cfg procId type false with
    | false =>
        rw [hcan] at h
        cases h
        simp
    | true =>
        rw [hcan, if_pos rfl] at h
        cases hfree : s.reqBufferFreeList with
        | nil =>
            rw [hfree] at h
            cases h
        | cons id free =>
            rw [hfree] at h
            dsimp only at h
            by_cases hinv : (s.reqBuffer id).state ≠ .inv
            · rw [if_pos hinv] at h
              cases h
            · rw [if_neg hinv] at h
              cases h
              simp

/-- A writeback that finds another one joins it. -/
theorem State.writeback_taken {ks : List (Option QueueId)} (hks : ∀ k ∈ ks, k = some .l1fill ∨ k = some .l1)
    (hsearch : s.memSearchReqbuf cfg addr .wb ks = .ok (some found))
    (h : s.memAdjustMatchingRequest cfg found .wb destination none none (s.newPriority cfg .wb) = .ok (taken, t)) :
    taken = true := by
  have hyields : s.Yields cfg True addr ks := fun _ _ _ _ _ => .inr trivial
  exact (State.writeback_joins hks hyields hsearch h).1

/-- `new_mem_mlc_wb_req` refuses a writeback that finds none to join, and no room. -/
def State.RefusesWb (cfg : Config) (s : State) (procId : ℕ) (addr : Addr) : Prop :=
  s.memSearchReqbuf cfg addr .wb [some .l1fill, some .l1] = .ok none ∧
    (s.noRoom cfg false .wb = .ok true ∨ s.memCanAllocateReqBuffer cfg procId .wb false = false)

theorem State.newMemWbReq_spec (h : s.newMemWbReq cfg false destination procId addr = .ok (taken, t)) :
    t.caches = s.caches ∧ (taken = false ↔ s.RefusesWb cfg procId addr) := by
  obtain ⟨_, h⟩ := Execution.ite_error_eq_ok.mp (by rw [State.newMemWbReq, ite_not] at h; exact h)
  obtain ⟨result, hsearch, h⟩ := Execution.bind_eq_ok.mp h
  cases result with
  | some found =>
      refine ⟨State.memAdjustMatchingRequest_caches h, ?_⟩
      simp [State.writeback_taken (by simp) hsearch h, State.RefusesWb, hsearch]
  | none =>
      obtain ⟨full, hfull, h⟩ := Execution.bind_eq_ok.mp h
      cases full with
      | true =>
          cases h
          exact ⟨rfl, fun _ => ⟨hsearch, .inl hfull⟩, fun _ => rfl⟩
      | false =>
          rw [if_neg (by simp)] at h
          obtain ⟨⟨allocated, m⟩, hm, h⟩ := Execution.bind_eq_ok.mp h
          have hnone := State.memAllocateReqBuffer_eq_none hm
          cases allocated with
          | none =>
              cases h
              rw [State.memAllocateReqBuffer_none hm]
              exact ⟨rfl, fun _ => ⟨hsearch, .inr (hnone.mp rfl)⟩, fun _ => rfl⟩
          | some id =>
              obtain ⟨_, _, free, _, rfl⟩ := State.memAllocateReqBuffer_some hm
              obtain ⟨n, hn, h⟩ := Execution.bind_eq_ok.mp h
              cases h
              have hinsert := State.insertNewReq_caches hn
              refine ⟨hinsert, fun hno => (by cases hno), fun hrefuses => ?_⟩
              cases hrefuses.2 with
              | inl hroom => cases hfull.symm.trans hroom
              | inr hcan => cases hnone.mpr hcan

/-- What `new_mem_mlc_wb_req` does to the caches, and when it refuses. -/
theorem State.newMemMlcWbReq_spec (h : s.newMemMlcWbReq cfg procId addr = .ok (taken, t)) :
    t.caches = { s.caches with mlcWritebacks := if taken then s.mlcWritebacks ++ [addr] else s.mlcWritebacks } ∧
      (taken = false ↔ s.RefusesWb cfg procId addr) := by
  obtain ⟨⟨taken', m⟩, hm, h⟩ := Execution.bind_eq_ok.mp h
  obtain ⟨hcaches, hrefuses⟩ := State.newMemWbReq_spec hm
  have hlog : m.mlcWritebacks = s.mlcWritebacks := congrArg Caches.mlcWritebacks hcaches
  cases h
  refine ⟨?_, hrefuses⟩
  cases taken with
  | true =>
      rw [← hcaches, ← hlog]
      rfl
  | false => exact hcaches

/-- What `new_mem_l1_wb_req` does to the caches; a request in use is left where it refuses. -/
theorem State.newMemL1WbReq_spec (hlive : (s.reqBuffer id).state ≠ .inv)
    (h : s.newMemL1WbReq cfg env procId addr = .ok (taken, t)) :
    t.caches = { s.caches with l1Writebacks := if taken then s.l1Writebacks ++ [addr] else s.l1Writebacks } ∧
      (taken = false → t.reqBuffer id = s.reqBuffer id) := by
  obtain ⟨_, h⟩ := Execution.ite_error_eq_ok.mp (by rw [State.newMemL1WbReq, ite_not] at h; exact h)
  have hlog {m : State} {taken' : Bool} (hcaches : m.caches = s.caches)
      (hreq : taken' = false → m.reqBuffer id = s.reqBuffer id)
      (ht : Except.ok (ε := String) (taken', if taken' then { m with l1Writebacks := m.l1Writebacks ++ [addr] } else m) =
        .ok (taken, t)) :
      t.caches = { s.caches with l1Writebacks := if taken then s.l1Writebacks ++ [addr] else s.l1Writebacks } ∧
        (taken = false → t.reqBuffer id = s.reqBuffer id) := by
    have hsame : m.l1Writebacks = s.l1Writebacks := congrArg Caches.l1Writebacks hcaches
    cases ht
    cases taken with
    | true =>
        refine ⟨?_, fun hno => (by cases hno)⟩
        rw [← hcaches, ← hsame]
        rfl
    | false => exact ⟨hcaches, hreq⟩
  by_cases hoff : (cfg.constantMemoryLatency || cfg.stallMemReqsOnly) = true
  · rw [if_pos hoff] at h
    exact hlog rfl (fun hno => by cases hno) h
  · rw [if_neg hoff] at h
    obtain ⟨result, hsearch, h⟩ := Execution.bind_eq_ok.mp h
    cases result with
    | some found =>
        obtain ⟨⟨taken', m⟩, hm, h⟩ := Execution.bind_eq_ok.mp h
        have hjoins := State.writeback_taken (by simp) hsearch hm
        exact hlog (State.memAdjustMatchingRequest_caches hm) (fun hno => by cases hno.symm.trans hjoins) h
    | none =>
        obtain ⟨⟨taken', m⟩, hm, h⟩ := Execution.bind_eq_ok.mp h
        obtain ⟨⟨allocated, n⟩, hn, hm⟩ := Execution.bind_eq_ok.mp hm
        cases allocated with
        | none =>
            cases hm
            rw [State.memAllocateReqBuffer_none hn] at h
            exact hlog rfl (fun _ => rfl) h
        | some id' =>
            obtain ⟨_, hinv, free, _, rfl⟩ := State.memAllocateReqBuffer_some hn
            obtain ⟨⟨sent, o⟩, ho, hm⟩ := Execution.bind_eq_ok.mp hm
            obtain ⟨o', ho', hm⟩ := Execution.bind_eq_ok.mp hm
            cases hm
            obtain ⟨-, -, -, rfl⟩ := State.memFreeReqbuf_eq ho'
            obtain rfl := State.ramulatorSend_wb (by simp [State.memInitNewReq, State.initReq]) ho
            -- the request of the writeback is in a buffer that was free
            have hne : id ≠ id' := fun heq => hlive (heq ▸ hinv)
            refine hlog ?_ (fun _ => ?_) h
            · rfl
            · exact (State.setReq_other hne).trans (State.setReq_other hne)

end Requests

/-- A valid dirty line. -/
def CacheEntry.isDirty (entry : CacheEntry LineData) : Bool := entry.valid && entry.data.dirty

/-! ## The L1 -/

/-- The way of the line that `get_next_repl_line` reports. -/
def State.l1Way (cfg : Config) (s : State) (id : ℕ) : ℕ :=
  (s.l1 (cfg.l1Of (s.reqBuffer id).procId)).findReplEntry cfg.l1 (cfg.l1.set (s.reqBuffer id).addr)

/-- The line that `get_next_repl_line` reports. -/
def State.l1Repl (cfg : Config) (s : State) (id : ℕ) : CacheEntry LineData :=
  (s.l1 (cfg.l1Of (s.reqBuffer id).procId)).entries (cfg.l1.set (s.reqBuffer id).addr) (s.l1Way cfg id)

/-- The lines that the L1 wrote back between two states. -/
def State.l1WrittenBack (s t : State) : List Addr := t.l1Writebacks.drop s.l1Writebacks.length

/-- The fill of a line: it takes the way that was reported, and where that held a dirty line its
writeback was accepted. -/
structure State.L1Filled (cfg : Config) (env : Env) (s : State) (id : ℕ) (t : State) : Prop where
  displaces : (s.l1 (cfg.l1Of (s.reqBuffer id).procId)).Inserts cfg.l1 (s.reqBuffer id).addr (s.l1Way cfg id)
    (t.l1 (cfg.l1Of (s.reqBuffer id).procId))
  others : ∀ cache, cache ≠ cfg.l1Of (s.reqBuffer id).procId → t.l1 cache = s.l1 cache
  accepted : (s.l1Repl cfg id).isDirty = true →
    ∃ m, s.newMemL1WbReq cfg env (s.l1Repl cfg id).data.procId (s.l1Repl cfg id).base = .ok (true, m)
  writtenBack : s.l1WrittenBack t = if (s.l1Repl cfg id).isDirty then [(s.l1Repl cfg id).base] else []

/-- A fill that fails because the writeback is refused. -/
structure State.L1Refused (cfg : Config) (env : Env) (s : State) (id : ℕ) (t : State) : Prop where
  dirty : (s.l1Repl cfg id).isDirty = true
  refused : s.newMemL1WbReq cfg env (s.l1Repl cfg id).data.procId (s.l1Repl cfg id).base = .ok (false, t)
  l1 : t.l1 = s.l1
  req : t.reqBuffer id = s.reqBuffer id
  writtenBack : s.l1WrittenBack t = []

/-- The insertion of the line, after what comes before it. -/
theorem State.insertL1Line_filled (hl1 : m.l1 = s.l1) (hfollows : (m.reqBuffer id).addr = (s.reqBuffer id).addr ∧
    (m.reqBuffer id).procId = (s.reqBuffer id).procId) (h : m.insertL1Line cfg env id = .ok t) :
    (s.l1 (cfg.l1Of (s.reqBuffer id).procId)).Inserts cfg.l1 (s.reqBuffer id).addr (s.l1Way cfg id)
        (t.l1 (cfg.l1Of (s.reqBuffer id).procId)) ∧
      (∀ cache, cache ≠ cfg.l1Of (s.reqBuffer id).procId → t.l1 cache = s.l1 cache) ∧
      t.l1Writebacks = m.l1Writebacks := by
  unfold State.insertL1Line at h
  dsimp only at h
  rw [Cache.insertFor_fst, hfollows.1, hfollows.2, hl1] at h
  by_cases hmiss : ((m.reqBuffer id).type = .dfetch ∨ (m.reqBuffer id).type = .dstore) ∧
      (m.reqBuffer id).l1MissCycle = none
  · rw [if_pos hmiss] at h
    cases h
  · rw [if_neg hmiss] at h
    cases h
    refine ⟨?_, fun cache hcache => ?_, rfl⟩
    · have hinserts : (s.l1 (cfg.l1Of (s.reqBuffer id).procId)).Inserts cfg.l1 (m.reqBuffer id).addr _
          ((s.l1 (cfg.l1Of (s.reqBuffer id).procId)).insertFor cfg.l1 m.simTime (m.reqBuffer id)
            (cfg.prefReplpos env true (m.reqBuffer id).type)).2 := Cache.insertFor_inserts
      rw [hfollows.1] at hinserts
      simp only [State.setReq, State.setL1, if_pos]
      exact hinserts.setData
    · simp only [State.setReq, State.setL1, if_neg hcache, hl1]

theorem State.l1FillLine_filled (hwriteThrough : cfg.l1WriteThrough = false) (hignore : cfg.l1IgnoreWb = false)
    (hlive : (s.reqBuffer id).state ≠ .inv) (h : s.l1FillLine cfg env id = .ok (true, t)) :
    s.L1Filled cfg env id t := by
  unfold State.l1FillLine at h
  dsimp only at h
  rw [hwriteThrough, hignore, Bool.not_false, Bool.and_true, Bool.and_true] at h
  change (if (s.l1Repl cfg id).isDirty = true then _ else _) = _ at h
  by_cases hdirty : (s.l1Repl cfg id).isDirty = true
  · rw [if_pos hdirty] at h
    obtain ⟨⟨taken, m⟩, hm, h⟩ := Execution.bind_eq_ok.mp h
    cases taken with
    | false => cases h
    | true =>
        obtain ⟨n, hn, h⟩ := Execution.bind_eq_ok.mp h
        cases h
        have hcaches := (State.newMemL1WbReq_spec hlive hm).1
        have hquiet : QuietRun cfg True s m := State.newMemL1WbReq_quiet hm
        have hfollows := hquiet.follows hlive
        obtain ⟨hdisplaces, hothers, hlog⟩ := State.insertL1Line_filled (congrArg Caches.l1 hcaches)
          ⟨hfollows.addr, hfollows.procId⟩ hn
        refine ⟨hdisplaces, hothers, fun _ => ⟨m, hm⟩, ?_⟩
        have hlog' : m.l1Writebacks = s.l1Writebacks ++ [(s.l1Repl cfg id).base] := congrArg Caches.l1Writebacks hcaches
        rw [State.l1WrittenBack, hlog, hlog', List.drop_left, if_pos hdirty]
  · rw [if_neg hdirty] at h
    obtain ⟨n, hn, h⟩ := Execution.bind_eq_ok.mp h
    cases h
    obtain ⟨hdisplaces, hothers, hlog⟩ := State.insertL1Line_filled rfl ⟨rfl, rfl⟩ hn
    refine ⟨hdisplaces, hothers, fun hyes => absurd hyes hdirty, ?_⟩
    rw [State.l1WrittenBack, hlog, List.drop_length, if_neg hdirty]

theorem State.l1FillLine_refused (hlive : (s.reqBuffer id).state ≠ .inv)
    (h : s.l1FillLine cfg env id = .ok (false, t)) : s.L1Refused cfg env id t := by
  unfold State.l1FillLine at h
  dsimp only at h
  split at h
  · rename_i hrepl
    obtain ⟨⟨taken, m⟩, hm, h⟩ := Execution.bind_eq_ok.mp h
    cases taken with
    | true =>
        obtain ⟨n, hn, h⟩ := Execution.bind_eq_ok.mp h
        cases h
    | false =>
        cases h
        obtain ⟨hcaches, hreq⟩ := State.newMemL1WbReq_spec hlive hm
        have hlog : m.l1Writebacks = s.l1Writebacks := congrArg Caches.l1Writebacks hcaches
        simp only [Bool.and_eq_true] at hrepl
        have hdirty : (s.l1Repl cfg id).isDirty = true := Bool.and_eq_true_iff.mpr ⟨hrepl.1.1.1, hrepl.2⟩
        refine ⟨hdirty, hm, congrArg Caches.l1 hcaches, hreq rfl, ?_⟩
        rw [State.l1WrittenBack, hlog, List.drop_length]
  · obtain ⟨n, hn, h⟩ := Execution.bind_eq_ok.mp h
    cases h

/-- An attempt of a fill that fails, at a request in use. -/
structure FailedFill (cfg : Config) (id : ℕ) where
  env : Env
  before : State
  after : State
  live : (before.reqBuffer id).state ≠ .inv
  failed : before.l1FillLine cfg env id = .ok (false, after)

/-- A line that a fill displaces is the line that was reported, and where it is dirty it is written
back once over all attempts. A fill whose writeback is refused changes neither the L1 nor the
request. -/
theorem l1_fill_displaces_reported (hwriteThrough : cfg.l1WriteThrough = false) (hignore : cfg.l1IgnoreWb = false)
    (hlive : (s.reqBuffer id).state ≠ .inv) (h : s.l1FillLine cfg env id = .ok (filled, t)) :
    (filled = false → s.L1Refused cfg env id t) ∧
      (filled = true → s.L1Filled cfg env id t ∧
        ∀ failures : List (FailedFill cfg id),
          (failures.flatMap fun attempt => attempt.before.l1WrittenBack attempt.after) ++ s.l1WrittenBack t =
            if (s.l1Repl cfg id).isDirty then [(s.l1Repl cfg id).base] else []) := by
  refine ⟨fun hno => ?_, fun hyes => ?_⟩
  · subst hno
    exact State.l1FillLine_refused hlive h
  · subst hyes
    have hfilled := State.l1FillLine_filled hwriteThrough hignore hlive h
    refine ⟨hfilled, fun failures => ?_⟩
    have hnone : (failures.flatMap fun attempt => attempt.before.l1WrittenBack attempt.after) = [] := by
      apply List.flatMap_eq_nil_iff.mpr
      intro attempt _
      exact (State.l1FillLine_refused attempt.live attempt.failed).writtenBack
    rw [hnone, hfilled.writtenBack, List.nil_append]

/-- A set of two ways: the older line, at address 64, is dirty. -/
def dirtySet : Cache LineData :=
  { Cache.fresh (fun _ => 0) with entries := fun set way =>
      if set = 0 ∧ way = 0 then ⟨0, true, 1, 64, 1, false, ⟨0, true, false, false, 0, 0, 0⟩⟩
      else if set = 0 ∧ way = 1 then ⟨0, true, 2, 128, 2, false, ⟨0, false, false, false, 0, 0, 0⟩⟩
      else (Cache.fresh (fun _ => 0)).entries set way }

/-- A read of the line at address 192 that missed in both caches. -/
def State.filling (state : MemReqState) : State :=
  { State.fresh .small (fun _ => 0) with
    reqBuffer := fun id =>
      if id = 0 then
        { MemReq.fresh with
          state
          type := .dfetch
          addr := 192
          mlcMiss := true
          mlcMissCycle := some 1
          l1Miss := true
          l1MissCycle := some 1 }
      else .fresh
    reqBufferFreeList := [1, 2, 3, 4, 5, 6, 7]
    numReqBuffersPerCore := fun _ => 1
    reqCount := 1
    l1 := fun _ => dirtySet
    mlc := dirtySet
    simTime := 3 }

theorem l1_fill_displaces_reported_dirty :
    ∃ env t, (State.filling .fillL1).l1FillLine .small env 0 = .ok (true, t) ∧
      (State.filling .fillL1).L1Filled .small env 0 t ∧ (State.filling .fillL1).l1WrittenBack t = [64] := by
  have hobs : Prod.fst <$> (State.filling .fillL1).l1FillLine .small ⟨true, true, true, none, .default⟩ 0 = .ok true := by
    decide +kernel
  obtain ⟨⟨filled, t⟩, hfill, hfilled⟩ := Execution.map_eq_ok.mp hobs
  have hspec := l1_fill_displaces_reported rfl rfl (by decide) hfill
  obtain rfl : filled = true := hfilled
  obtain ⟨hspec, hattempts⟩ := hspec.2 rfl
  exact ⟨_, t, hfill, hspec, hattempts []⟩

/-! ## The MLC -/

/-- What a fill reads of its request. -/
def MemReq.fill (req : MemReq) (fillState : MemReqState) : Addr × LineData := (req.addr, req.lineData fillState)

/-- A writeback that is joined by another one fills the same. -/
theorem State.memAdjustMatchingRequest_fill {found : Match} {destination : Destination} {newPriority : Priority}
    {fillState : MemReqState} (hwb : (s.reqBuffer found.id).type = .wb) (hmiss : found.demandHitWriteback = false)
    (h : s.memAdjustMatchingRequest cfg found .wb destination none none newPriority = .ok (taken, t)) :
    (t.reqBuffer id).fill fillState = (s.reqBuffer id).fill fillState := by
  have hset (req : MemReq) (hreq : req.fill fillState = (s.reqBuffer found.id).fill fillState) :
      ((s.setReq found.id req).reqBuffer id).fill fillState = (s.reqBuffer id).fill fillState := by
    by_cases hid : id = found.id
    · rw [hid, State.setReq_self, hreq]
    · rw [State.setReq_other hid]
  have hpromote : ((s.reqBuffer found.id).promote cfg .wb newPriority).type = (s.reqBuffer found.id).type := by
    rw [MemReq.promote, hwb]
    exact ite_self _
  rw [State.memAdjustMatchingRequest, MemReq.hitBack, hmiss, Bool.and_false, if_neg Bool.false_ne_true] at h
  obtain ⟨_, hreq, h⟩ := Execution.bind_eq_ok.mp h
  cases hreq
  obtain ⟨m, hm, h⟩ := Execution.bind_eq_ok.mp h
  cases h
  unfold State.adjustPriority at hm
  by_cases hhigher : (newPriority.lt (s.oldPriority found) && !cfg.allFifoQueues) = true
  · rw [if_pos hhigher] at hm
    cases hqueue : (s.reqBuffer found.id).queue with
    | none =>
        rw [hqueue] at hm
        cases hm
    | some k =>
        rw [hqueue] at hm
        dsimp only at hm
        by_cases hk : k = .mlc ∨ k = .l1 ∨ cfg.orderBeyondBus
        · rw [if_pos hk] at hm
          cases hm
          have hjoined := hset (((s.reqBuffer found.id).promote cfg .wb newPriority).joined destination none) (by
            simp only [MemReq.fill, MemReq.lineData, MemReq.joined, hpromote]
            rfl)
          cases found.place <;> exact hjoined
        · rw [if_neg hk] at hm
          cases hm
          exact hset _ rfl
  · rw [if_neg hhigher] at hm
    cases hm
    exact hset _ rfl

/-- The request of a fill fills the same after the writeback. -/
theorem State.newMemMlcWbReq_fill (fillState : MemReqState) (h : s.newMemMlcWbReq cfg procId addr = .ok (taken, t))
    (hlive : (s.reqBuffer id).state ≠ .inv) :
    (t.reqBuffer id).fill fillState = (s.reqBuffer id).fill fillState := by
  obtain ⟨⟨taken', m⟩, hm, h⟩ := Execution.bind_eq_ok.mp h
  have hlog : (t.reqBuffer id).fill fillState = (m.reqBuffer id).fill fillState := by
    cases h
    cases taken <;> rfl
  rw [hlog]
  obtain ⟨_, hm⟩ := Execution.ite_error_eq_ok.mp (by rw [State.newMemWbReq, ite_not] at hm; exact hm)
  obtain ⟨result, hsearch, hm⟩ := Execution.bind_eq_ok.mp hm
  cases result with
  | some found =>
      cases State.memSearchReqbuf_found hsearch with
      | inl hqueue =>
          obtain ⟨k, ii, _, hfound⟩ := hqueue
          obtain ⟨hwb, hhit⟩ := Config.matchType_wb hfound.type
          exact State.memAdjustMatchingRequest_fill hwb (congrArg Prod.snd hhit) hm
      | inr hram => cases hram.2.1
  | none =>
      obtain ⟨full, hfull, hm⟩ := Execution.bind_eq_ok.mp hm
      cases full with
      | true =>
          cases hm
          rfl
      | false =>
          rw [if_neg (by simp)] at hm
          obtain ⟨⟨allocated, n⟩, hn, hm⟩ := Execution.bind_eq_ok.mp hm
          cases allocated with
          | none =>
              cases hm
              rw [State.memAllocateReqBuffer_none hn]
          | some id' =>
              obtain ⟨_, hinv, free, _, rfl⟩ := State.memAllocateReqBuffer_some hn
              obtain ⟨o, ho, hm⟩ := Execution.bind_eq_ok.mp hm
              cases hm
              have hne : id ≠ id' := fun heq => hlive (heq ▸ hinv)
              obtain ⟨o', hinsert, ho⟩ := Execution.bind_eq_ok.mp ho
              cases ho
              obtain ⟨_, heq⟩ := Execution.ite_error_eq_ok.mp hinsert
              cases heq
              exact congrArg (MemReq.fill · fillState) (State.setReq_other hne)

/-- The way of the line that the insertion replaces. -/
def State.mlcWay (cfg : Config) (s : State) (id : ℕ) : ℕ :=
  s.mlc.findReplEntry cfg.mlc (cfg.mlc.set (s.reqBuffer id).addr)

/-- The line that the insertion replaces. -/
def State.mlcRepl (cfg : Config) (s : State) (id : ℕ) : CacheEntry LineData :=
  s.mlc.entries (cfg.mlc.set (s.reqBuffer id).addr) (s.mlcWay cfg id)

/-- The MLC after the insertion. -/
def State.mlcInserted (cfg : Config) (env : Env) (s : State) (id : ℕ) : Cache LineData :=
  (s.mlc.insertFor cfg.mlc s.simTime (s.reqBuffer id) (cfg.prefReplpos env false (s.reqBuffer id).type)).2

/-- The way that would be replaced next. -/
def State.mlcNextWay (cfg : Config) (env : Env) (s : State) (id : ℕ) : ℕ :=
  (s.mlcInserted cfg env id).findReplEntry cfg.mlc (cfg.mlc.set (s.reqBuffer id).addr)

/-- The line that would be replaced next. -/
def State.mlcNext (cfg : Config) (env : Env) (s : State) (id : ℕ) : CacheEntry LineData :=
  (s.mlcInserted cfg env id).entries (cfg.mlc.set (s.reqBuffer id).addr) (s.mlcNextWay cfg env id)

/-- The line that would be replaced next is dirty, and its writeback is refused. -/
def State.MlcRefused (cfg : Config) (env : Env) (s : State) (id : ℕ) : Prop :=
  (s.mlcNext cfg env id).isDirty = true ∧ { s with mlc := s.mlcInserted cfg env id }.RefusesWb cfg
    (s.mlcNext cfg env id).data.procId (s.mlcNext cfg env id).base

/-- What `mlc_fill_line` does. -/
theorem State.mlcFillLine_spec (hwriteThrough : cfg.mlcWriteThrough = false) (hlive : (s.reqBuffer id).state ≠ .inv)
    (h : s.mlcFillLine cfg env id = .ok (filled, t)) :
    (filled = false ↔ s.MlcRefused cfg env id) ∧
      t.mlc = (if filled then (s.mlcInserted cfg env id).setData (cfg.mlc.set (s.reqBuffer id).addr)
        (s.mlcNextWay cfg env id) ((s.reqBuffer id).lineData .fillMlc) else s.mlcInserted cfg env id) ∧
      t.mlcWritebacks = s.mlcWritebacks ++
        if (s.mlcNext cfg env id).isDirty && filled then [(s.mlcNext cfg env id).base] else [] := by
  have hset {m n : State} (hfill : (m.reqBuffer id).fill .fillMlc = (s.reqBuffer id).fill .fillMlc)
      (hmlc : m.mlc = s.mlcInserted cfg env id) (hn : m.setMlcLine cfg id (s.mlcNextWay cfg env id) = .ok n) :
      n.mlc = (s.mlcInserted cfg env id).setData (cfg.mlc.set (s.reqBuffer id).addr) (s.mlcNextWay cfg env id)
        ((s.reqBuffer id).lineData .fillMlc) ∧ n.mlcWritebacks = m.mlcWritebacks := by
    obtain ⟨haddr, hdata⟩ := Prod.mk.inj hfill
    unfold State.setMlcLine at hn
    dsimp only at hn
    rw [haddr, hdata, hmlc] at hn
    by_cases hcycle : (m.reqBuffer id).mlcMissCycle = none
    · rw [if_pos hcycle] at hn
      cases hn
    · rw [if_neg hcycle] at hn
      by_cases hmiss : (m.reqBuffer id).mlcMiss = false
      · rw [if_pos hmiss] at hn
        cases hn
      · rw [if_neg hmiss] at hn
        cases hn
        exact ⟨rfl, rfl⟩
  unfold State.mlcFillLine at h
  dsimp only at h
  rw [hwriteThrough, Bool.not_false, Bool.and_true] at h
  change (if (s.mlcNext cfg env id).isDirty = true then _ else _) = _ at h
  by_cases hdirty : (s.mlcNext cfg env id).isDirty = true
  · rw [if_pos hdirty] at h
    obtain ⟨⟨taken, m⟩, hm, h⟩ := Execution.bind_eq_ok.mp h
    obtain ⟨hcaches, hrefuses⟩ := State.newMemMlcWbReq_spec hm
    have hmlc : m.mlc = s.mlcInserted cfg env id := congrArg Caches.mlc hcaches
    have hlog := congrArg Caches.mlcWritebacks hcaches
    have hiff : taken = false ↔ s.MlcRefused cfg env id := hrefuses.trans ⟨fun hno => ⟨hdirty, hno⟩, And.right⟩
    cases taken with
    | true =>
        obtain ⟨n, hn, h⟩ := Execution.bind_eq_ok.mp h
        cases h
        have hfill := State.newMemMlcWbReq_fill .fillMlc hm hlive
        obtain ⟨hnew, hsame⟩ := hset hfill hmlc hn
        refine ⟨hiff, hnew, ?_⟩
        rw [hsame, hdirty]
        exact hlog
    | false =>
        cases h
        refine ⟨hiff, hmlc, ?_⟩
        rw [Bool.and_false, if_neg Bool.false_ne_true, List.append_nil]
        exact hlog
  · rw [if_neg hdirty] at h
    obtain ⟨n, hn, h⟩ := Execution.bind_eq_ok.mp h
    cases h
    obtain ⟨hnew, hsame⟩ := hset (by rfl) (by rfl) hn
    refine ⟨⟨fun hno => (by cases hno), fun hno => absurd hno.1 hdirty⟩, hnew, ?_⟩
    rw [hsame, Bool.and_true, if_neg hdirty, List.append_nil]

/-- What `mlc_fill_line` is for: a dirty line that it displaces is written back, a fill that fails
changes nothing, and the metadata go to the line that was inserted. -/
structure State.MlcFillKeeps (cfg : Config) (env : Env) (s : State) (id : ℕ) (filled : Bool) (t : State) : Prop where
  writtenBack : (s.mlcRepl cfg id).isDirty = true → (s.mlcRepl cfg id).base ≠ cfg.mlc.lineAddr (s.reqBuffer id).addr →
    t.mlcWritebacks = s.mlcWritebacks ++ [(s.mlcRepl cfg id).base]
  unchanged : filled = false → t.mlc = s.mlc
  marked : filled = true → t.mlc = (s.mlcInserted cfg env id).setData (cfg.mlc.set (s.reqBuffer id).addr)
    (s.mlcWay cfg id) ((s.reqBuffer id).lineData .fillMlc)

/-- The state before a fill that does what it is for. -/
structure State.MlcFillSafe (cfg : Config) (env : Env) (s : State) (id : ℕ) : Prop where
  /-- No dirty line is displaced, or a second copy of it is written back instead. -/
  clean : (s.mlcRepl cfg id).isDirty = true → (s.mlcRepl cfg id).base ≠ cfg.mlc.lineAddr (s.reqBuffer id).addr →
    (s.mlcNext cfg env id).isDirty = true ∧ ¬ s.MlcRefused cfg env id ∧
      (s.mlcNext cfg env id).base = (s.mlcRepl cfg id).base
  /-- Where the writeback is refused, the insertion had nothing to change. -/
  same : s.MlcRefused cfg env id → s.mlcInserted cfg env id = s.mlc
  /-- The line that was inserted would be replaced next, or both lines have the metadata already. -/
  next : ¬ s.MlcRefused cfg env id → s.mlcNextWay cfg env id = s.mlcWay cfg id ∨
    (s.mlcRepl cfg id).data = (s.reqBuffer id).lineData .fillMlc ∧
      (s.mlcNext cfg env id).data = (s.reqBuffer id).lineData .fillMlc

theorem Cache.setData_eq_self {c : Cache LineData} {set : Addr} {way : ℕ} {data : LineData}
    (h : (c.entries set way).data = data) : c.setData set way data = c := by
  have hentry (set' : Addr) (way' : ℕ) : (c.setData set way data).entries set' way' = c.entries set' way' := by
    by_cases hsame : set' = set ∧ way' = way
    · obtain ⟨rfl, rfl⟩ := hsame
      rw [Cache.setData, Cache.setEntry_self, ← h]
    · exact Cache.setEntry_other hsame
  have hentries : (c.setData set way data).entries = c.entries := funext fun set' => funext (hentry set')
  exact congrArg (fun entries => { c with entries }) hentries

end Scarab.Memory
