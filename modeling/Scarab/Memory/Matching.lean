import Scarab.Memory.Machine

/-! # What the search for a request finds

The request that a new one joins, and what the two have in common. -/

namespace Scarab.Memory

variable {cfg : Config} {s t : State} {found : Match} {addr : Addr} {type reqType : MemReqType}
  {k : QueueId} {ks : List (Option QueueId)}

/-- The requests that Ramulator has. -/
def State.ramulatorIds (s : State) : List ℕ := s.inflightReadReqs.flatMap Prod.snd ++ s.respQueue.map Prod.snd

/-- An entry of a queue is of a request. -/
def State.EntryAt (s : State) (k : QueueId) (ii id : ℕ) : Prop := ((s.queue k)[ii]?.map QueueEntry.reqbuf) = some id

/-- A request that was found in a queue. -/
structure State.FoundIn (cfg : Config) (s : State) (addr : Addr) (type : MemReqType) (k : QueueId) (ii : ℕ)
    (found : Match) : Prop where
  place : found.place = some (k, ii)
  entry : s.EntryAt k ii found.id
  addr : (s.reqBuffer found.id).addr = addr
  live : (s.reqBuffer found.id).state ≠ .inv
  waiting : (s.reqBuffer found.id).state.isFinal = false
  type : cfg.matchType (s.reqBuffer found.id).type type = some (found.demandHitPrefetch, found.demandHitWriteback)

/-- A request that was found in Ramulator. -/
structure State.FoundInRamulator (s : State) (type : MemReqType) (found : Match) : Prop where
  place : found.place = none
  mem : found.id ∈ s.ramulatorIds
  type : (s.reqBuffer found.id).type.isInst = true ∧ type.isInst = true ∨
    (s.reqBuffer found.id).type.isData = true ∧ type.isData = true
  writeback : found.demandHitWriteback = false

theorem State.memSearchQueue_found (h : s.memSearchQueue cfg k addr type = .ok (some found)) :
    ∃ ii, s.FoundIn cfg addr type k ii found := by
  unfold State.memSearchQueue at h
  cases hsearch : (s.queue k).zipIdx.findSome? fun entry =>
      if (s.reqBuffer entry.1.reqbuf).addr = addr ∧ (s.reqBuffer entry.1.reqbuf).state.isFinal = false then
        (cfg.matchType (s.reqBuffer entry.1.reqbuf).type type).map fun hit =>
          Match.mk entry.1.reqbuf (some (k, entry.2)) hit.1 hit.2
      else none with
  | none => simp [hsearch] at h
  | some found' =>
      simp only [hsearch] at h
      by_cases hinv : (s.reqBuffer found'.id).state = .inv
      · rw [if_pos hinv] at h
        cases h
      · rw [if_neg hinv] at h
        obtain rfl : found' = found := by simpa using h
        obtain ⟨entry, hmem, hentry⟩ := List.exists_of_findSome?_eq_some hsearch
        by_cases hreq : (s.reqBuffer entry.1.reqbuf).addr = addr ∧ (s.reqBuffer entry.1.reqbuf).state.isFinal = false
        · rw [if_pos hreq, Option.map_eq_some_iff] at hentry
          obtain ⟨hit, hhit, rfl⟩ := hentry
          refine ⟨entry.2, rfl, ?_, hreq.1, hinv, hreq.2, hhit⟩
          simp only [State.EntryAt, List.mk_mem_zipIdx_iff_getElem?.mp hmem, Option.map_some]
        · rw [if_neg hreq] at hentry
          cases hentry

theorem State.ramulatorSearchQueue_found {id : ℕ} {physAddr : Addr}
    (h : s.ramulatorSearchQueue physAddr type = some id) : id ∈ s.ramulatorIds ∧
      ((s.reqBuffer id).type.isInst = true ∧ type.isInst = true ∨
        (s.reqBuffer id).type.isData = true ∧ type.isData = true) := by
  unfold State.ramulatorSearchQueue at h
  have hclass := List.find?_some h
  refine ⟨?_, by simpa using hclass⟩
  have hmem := List.mem_of_find?_eq_some h
  simp only [List.mem_append, List.mem_flatMap, List.mem_filter, List.mem_map] at hmem
  simp only [State.ramulatorIds, List.mem_append, List.mem_flatMap, List.mem_map]
  cases hmem with
  | inl hflight =>
      obtain ⟨reqs, hreqs, hid⟩ := hflight
      exact .inl ⟨reqs, hreqs.1, hid⟩
  | inr hresp =>
      obtain ⟨resp, hresp, hid⟩ := hresp
      exact .inr ⟨resp, hresp.1, hid⟩

/-- The search finds a request in one of the queues or in Ramulator. -/
theorem State.memSearchReqbuf_found (h : s.memSearchReqbuf cfg addr type ks = .ok (some found)) :
    (∃ k ii, some k ∈ ks ∧ s.FoundIn cfg addr type k ii found) ∨
      none ∈ ks ∧ type.isWb = false ∧ s.FoundInRamulator type found := by
  induction ks with
  | nil => simp [State.memSearchReqbuf] at h
  | cons place ks ih =>
      have hrest (h : s.memSearchReqbuf cfg addr type ks = .ok (some found)) :
          (∃ k ii, some k ∈ place :: ks ∧ s.FoundIn cfg addr type k ii found) ∨
            none ∈ place :: ks ∧ type.isWb = false ∧ s.FoundInRamulator type found := by
        cases ih h with
        | inl hqueue =>
            obtain ⟨k, ii, hk, hfound⟩ := hqueue
            exact .inl ⟨k, ii, List.mem_cons_of_mem _ hk, hfound⟩
        | inr hram => exact .inr ⟨List.mem_cons_of_mem _ hram.1, hram.2⟩
      cases place with
      | some k =>
          rw [State.memSearchReqbuf] at h
          obtain ⟨result, hresult, h⟩ := Execution.bind_eq_ok.mp h
          cases result with
          | some found' =>
              obtain rfl : found' = found := by simpa [pure, Except.pure] using h
              obtain ⟨ii, hfound⟩ := State.memSearchQueue_found hresult
              exact .inl ⟨k, ii, List.mem_cons_self, hfound⟩
          | none => exact hrest h
      | none =>
          rw [State.memSearchReqbuf] at h
          by_cases hwb : type.isWb = true
          · simp [hwb] at h
          · rw [if_neg hwb] at h
            cases hsearch : s.ramulatorSearchQueue (cfg.addrTranslate addr) type with
            | some id =>
                rw [hsearch] at h
                obtain ⟨hmem, hclass⟩ := State.ramulatorSearchQueue_found hsearch
                refine .inr ⟨List.mem_cons_self, by simpa using hwb, ?_⟩
                simp only [Except.ok.injEq, Option.some.injEq] at h
                subst h
                exact ⟨rfl, hmem, hclass, rfl⟩
            | none =>
                rw [hsearch] at h
                exact hrest h

/-! ## The types of requests that join -/

theorem MemReqType.isWb_of_isInst (h : type.isInst = true) : type.isWb = false := by
  cases type <;> simp_all [MemReqType.isInst, MemReqType.isWb]

theorem MemReqType.isWb_of_isData (h : type.isData = true) : type.isWb = false := by
  cases type <;> simp_all [MemReqType.isData, MemReqType.isWb]

/-- Types that are the same or both of reads of one class. -/
def MemReqType.Alike (a b : MemReqType) : Prop := a = b ∨ a.isWb = false ∧ b.isWb = false ∧ a.isInst = b.isInst

theorem MemReqType.Alike.isWb {a b : MemReqType} (h : a.Alike b) : a.isWb = b.isWb := by
  cases h with
  | inl hsame => rw [hsame]
  | inr hread => rw [hread.1, hread.2.1]

theorem MemReqType.Alike.isInst {a b : MemReqType} (h : a.Alike b) : a.isInst = b.isInst := by
  cases h with
  | inl hsame => rw [hsame]
  | inr hread => exact hread.2.2

/-- Writebacks are joined by writebacks only, but for `ALLOW_TYPE_MATCHES`. -/
theorem Config.matchType_alike {hit : Bool × Bool} (h : cfg.matchType reqType type = some hit) :
    reqType.Alike type ∨ cfg.allowTypeMatches = true ∧ reqType.isWb = true ∧ hit.2 = true := by
  unfold Config.matchType at h
  unfold MemReqType.Alike
  by_cases heq : reqType = type
  · exact .inl (.inl heq)
  · rw [if_neg heq] at h
    cases reqType <;> cases type <;> simp_all [MemReqType.isWb, MemReqType.isInst] <;> grind

/-- A writeback joins only another one. -/
theorem Config.matchType_wb {hit : Bool × Bool} (h : cfg.matchType reqType .wb = some hit) :
    reqType = .wb ∧ hit = (false, false) := by
  unfold Config.matchType at h
  cases reqType <;> simp_all

/-- What hits a writeback is a writeback. -/
theorem Config.matchType_hitWriteback {hit : Bool × Bool} (h : cfg.matchType reqType type = some hit)
    (hhit : hit.2 = true) : reqType.isWb = true ∧ cfg.allowTypeMatches = true ∧ type.isWb = false := by
  unfold Config.matchType at h
  cases reqType <;> cases type <;> simp_all [MemReqType.isWb] <;> grind

end Scarab.Memory
