import Scarab.Memory.AddrTrans
import Scarab.Memory.Matching

/-! # Lines and sizes

`mem_search_queue` compares addresses under a mask that `CACHE_SIZE_ADDR` makes of the size of the request. The macro
takes a number of bits. -/

namespace Scarab.Memory

/-- `CACHE_SIZE_ADDR`. -/
def cacheSizeAddr (size : ℕ) (addr : Addr) : Addr := addr &&& ~~~AddrTrans.nBitMask size

/-- The loop of `mem_search_queue` over the entries from one on, with the size of the request in each buffer. -/
def State.searchEntries (cfg : Config) (sizes : ℕ → ℕ) (s : State) (k : QueueId) (procId : ℕ) (addr : Addr)
    (type : MemReqType) : List (QueueEntry × ℕ) → Except String (Option Match)
  | [] => .ok none
  | entry :: entries =>
      let req := s.reqBuffer entry.1.reqbuf
      let size := sizes entry.1.reqbuf
      if cacheSizeAddr size req.addr = cacheSizeAddr size addr ∧ req.state.isFinal = false then
        if procId ≠ getProcIdFromCmpAddr addr then .error "Proc ID does not match proc ID in address!"
        else if req.procId ≠ getProcIdFromCmpAddr req.addr then .error "Proc ID does not match proc ID in address!"
        else if req.procId ≠ procId then .error "req->proc_id == proc_id"
        else match cfg.matchType req.type type with
          | some hit =>
              if req.state = .inv then .error "matching_req->state != MRS_INV"
              else .ok (some ⟨entry.1.reqbuf, some (k, entry.2), hit.1, hit.2⟩)
          | none => searchEntries cfg sizes s k procId addr type entries
      else searchEntries cfg sizes s k procId addr type entries

/-- `mem_search_queue`, with the sizes of the requests. -/
def State.memSearchSized (cfg : Config) (l1LineSize : ℕ) (sizes : ℕ → ℕ) (s : State) (k : QueueId) (procId : ℕ)
    (addr : Addr) (type : MemReqType) (size : ℕ) : Except String (Option Match) :=
  if procId ≠ 0 ∧ addr = 0 then .error "addr"
  else if size % l1LineSize ≠ 0 then .error "size % L1_LINE_SIZE == 0"
  else s.searchEntries cfg sizes k procId addr type (s.queue k).zipIdx

/-- Two addresses in one line of `size` bytes. -/
def SameLineOf (size : ℕ) (a b : Addr) : Prop := a.toNat / size = b.toNat / size

/-- Whatever is in the queues, a search finds requests of the same line only. -/
def MatchesLines (cfg : Config) (l1LineSize : ℕ) : Prop :=
  ∀ (sizes : ℕ → ℕ) (s : State) (k : QueueId) (procId : ℕ) (addr : Addr) (type : MemReqType) (size : ℕ) (found : Match),
    (∀ id, l1LineSize ∣ sizes id) →
      s.memSearchSized cfg l1LineSize sizes k procId addr type size = .ok (some found) →
        SameLineOf (sizes found.id) (s.reqBuffer found.id).addr addr

variable {cfg : Config} {sizes : ℕ → ℕ} {s : State} {k : QueueId} {procId size : ℕ} {addr : Addr} {type : MemReqType}
  {found : Match}

/-! ## Sizes that are multiples of 64 -/

/-- A count of 64 shifts by nothing, and the mask is empty. -/
theorem cacheSizeAddr_of_dvd (h : 64 ∣ size) (addr : Addr) : cacheSizeAddr size addr = addr := by
  have hmask : AddrTrans.nBitMask size = 0 := by
    rw [AddrTrans.nBitMask, Nat.mod_eq_zero_of_dvd h]
    rfl
  rw [cacheSizeAddr, hmask]
  exact BitVec.and_allOnes

/-- What the loop finds has the masked address. -/
theorem State.searchEntries_found {entries : List (QueueEntry × ℕ)}
    (h : s.searchEntries cfg sizes k procId addr type entries = .ok (some found)) :
    cacheSizeAddr (sizes found.id) (s.reqBuffer found.id).addr = cacheSizeAddr (sizes found.id) addr := by
  induction entries with
  | nil => cases h
  | cons entry entries ih =>
      rw [searchEntries] at h
      split at h
      · next hsame =>
          split at h
          · cases h
          · split at h
            · cases h
            · split at h
              · cases h
              · cases hmatch : cfg.matchType (s.reqBuffer entry.1.reqbuf).type type with
                | none =>
                    rw [hmatch] at h
                    exact ih h
                | some hit =>
                    rw [hmatch] at h
                    dsimp only at h
                    split at h
                    · cases h
                    · obtain rfl := Option.some.inj (Except.ok.inj h)
                      exact hsame.1
      · exact ih h

/-- With such sizes the search finds what it would find without a mask. -/
theorem State.searchEntries_eq (hsizes : ∀ id, 64 ∣ sizes id) (entries : List (QueueEntry × ℕ))
    (hproc : ∀ entry ∈ entries, (s.reqBuffer entry.1.reqbuf).addr = addr →
      procId = getProcIdFromCmpAddr addr ∧ (s.reqBuffer entry.1.reqbuf).procId = procId) :
    s.searchEntries cfg sizes k procId addr type entries =
      match entries.findSome? fun entry =>
          if (s.reqBuffer entry.1.reqbuf).addr = addr ∧ (s.reqBuffer entry.1.reqbuf).state.isFinal = false then
            (cfg.matchType (s.reqBuffer entry.1.reqbuf).type type).map fun hit =>
              Match.mk entry.1.reqbuf (some (k, entry.2)) hit.1 hit.2
          else none with
      | none => .ok none
      | some found =>
          if (s.reqBuffer found.id).state = .inv then .error "matching_req->state != MRS_INV" else .ok (some found) := by
  induction entries with
  | nil => rfl
  | cons entry entries ih =>
      obtain ⟨hfirst, hlater⟩ := List.forall_mem_cons.mp hproc
      rw [searchEntries, List.findSome?_cons, cacheSizeAddr_of_dvd (hsizes _), cacheSizeAddr_of_dvd (hsizes _)]
      by_cases hreq : (s.reqBuffer entry.1.reqbuf).addr = addr ∧ (s.reqBuffer entry.1.reqbuf).state.isFinal = false
      · obtain ⟨hcore, hown⟩ := hfirst hreq.1
        have hreqCore : ¬ (s.reqBuffer entry.1.reqbuf).procId ≠ getProcIdFromCmpAddr (s.reqBuffer entry.1.reqbuf).addr := by
          rw [hreq.1, hown, hcore]
          exact not_not.mpr rfl
        rw [if_pos hreq, if_pos hreq, if_neg (not_not.mpr hcore), if_neg hreqCore, if_neg (not_not.mpr hown)]
        cases hmatch : cfg.matchType (s.reqBuffer entry.1.reqbuf).type type with
        | none => exact ih hlater
        | some hit => rfl
      · rw [if_neg hreq, if_neg hreq]
        exact ih hlater

/-- So it is the search of the other modules, in a system whose lines have 64 bytes. -/
theorem State.memSearchSized_eq {l1LineSize : ℕ} (hsizes : ∀ id, 64 ∣ sizes id) (haddr : procId ≠ 0 → addr ≠ 0)
    (hsize : size % l1LineSize = 0) (hproc : ∀ entry ∈ s.queue k, (s.reqBuffer entry.reqbuf).addr = addr →
      procId = getProcIdFromCmpAddr addr ∧ (s.reqBuffer entry.reqbuf).procId = procId) :
    s.memSearchSized cfg l1LineSize sizes k procId addr type size = s.memSearchQueue cfg k addr type := by
  have haddr' : ¬ (procId ≠ 0 ∧ addr = 0) := fun h => haddr h.1 h.2
  rw [memSearchSized, if_neg haddr', if_neg (not_not.mpr hsize), searchEntries_eq hsizes]
  · rfl
  · intro entry hentry
    obtain ⟨hlt, hat⟩ := List.mem_zipIdx' hentry
    exact hproc entry.1 (hat ▸ List.getElem_mem hlt)

/-! ## Smaller lines -/

/-- A queue with one request, for the line at address 0. -/
def State.oneRequest (cfg : Config) : State :=
  { State.fresh cfg (fun _ => 0) with
    reqBuffer := fun _ => { MemReq.fresh with state := .l1Wait, type := .dfetch }
    queue := fun _ => [⟨0, .zero⟩] }

/-- Two lines of less than 64 bytes have one masked address. -/
theorem cacheSizeAddr_lines {l1LineSize : ℕ} (hsmall : l1LineSize < 64) :
    cacheSizeAddr l1LineSize 0 = cacheSizeAddr l1LineSize (BitVec.ofNat 64 l1LineSize) := by
  have hlt : l1LineSize < 2 ^ l1LineSize := Nat.lt_two_pow_self
  have hmask : AddrTrans.nBitMask l1LineSize = BitVec.ofNat 64 (2 ^ l1LineSize - 1) := by
    rw [AddrTrans.nBitMask, Nat.mod_eq_of_lt hsmall, Bits.one_shiftLeft_sub_one]
  refine BitVec.eq_of_toNat_eq ?_
  rw [cacheSizeAddr, cacheSizeAddr, hmask, Bits.toNat_and_high, Bits.toNat_and_high, BitVec.toNat_ofNat,
    Nat.mod_eq_of_lt (by omega : l1LineSize < 2 ^ 64), Nat.div_eq_of_lt hlt]
  simp

/-- A search takes only requests of the same line exactly if the lines have at least 64 bytes. -/
theorem matchesLines_iff (cfg : Config) {l1LineSize n : ℕ} (hline : l1LineSize = 2 ^ n) :
    MatchesLines cfg l1LineSize ↔ 64 ≤ l1LineSize := by
  constructor
  · intro h
    refine Nat.le_of_not_lt fun hsmall => ?_
    have hpos : 0 < l1LineSize := by
      rw [hline]
      exact Nat.two_pow_pos n
    have hcore : (0 : ℕ) = getProcIdFromCmpAddr (BitVec.ofNat 64 l1LineSize) := by
      rw [getProcIdFromCmpAddr, BitVec.toNat_ushiftRight, BitVec.toNat_ofNat, Nat.shiftRight_eq_div_pow]
      rw [Nat.mod_eq_of_lt (by omega : l1LineSize < 2 ^ 64)]
      omega
    have hsearch : (State.oneRequest cfg).memSearchSized cfg l1LineSize (fun _ => l1LineSize) .l1 0
        (BitVec.ofNat 64 l1LineSize) .dfetch l1LineSize = .ok (some ⟨0, some (.l1, 0), false, false⟩) := by
      have haddr : ¬ ((0 : ℕ) ≠ 0 ∧ BitVec.ofNat 64 l1LineSize = 0) := fun hzero => hzero.1 rfl
      have hmatch : cfg.matchType ((State.oneRequest cfg).reqBuffer 0).type .dfetch = some (false, false) := if_pos rfl
      have hreq : cacheSizeAddr l1LineSize 0 = cacheSizeAddr l1LineSize (BitVec.ofNat 64 l1LineSize) ∧
          MemReqState.l1Wait.isFinal = false := ⟨cacheSizeAddr_lines hsmall, rfl⟩
      have hfirst : ¬ (0 : ℕ) ≠ getProcIdFromCmpAddr 0 := not_not.mpr rfl
      rw [State.memSearchSized, if_neg haddr, if_neg (not_not.mpr (Nat.mod_self _))]
      change (State.oneRequest cfg).searchEntries cfg _ .l1 0 _ .dfetch [(⟨0, .zero⟩, 0)] = _
      rw [State.searchEntries]
      refine (if_pos hreq).trans ((if_neg (not_not.mpr hcore)).trans ((if_neg hfirst).trans
        ((if_neg (not_not.mpr rfl)).trans ?_)))
      rw [hmatch]
      rfl
    have hsame := h (fun _ => l1LineSize) (State.oneRequest cfg) .l1 0 _ .dfetch l1LineSize _ (fun _ => Nat.dvd_refl _) hsearch
    simp only [SameLineOf, State.oneRequest, MemReq.fresh, BitVec.toNat_ofNat] at hsame
    rw [Nat.mod_eq_of_lt (by omega : l1LineSize < 2 ^ 64), Nat.div_self hpos] at hsame
    simp at hsame
  · intro hlarge sizes s k procId addr type size found hsizes h
    have h64 : 64 ∣ l1LineSize := by
      rw [hline] at hlarge ⊢
      have hn : 6 ≤ n := (Nat.pow_le_pow_iff_right (by decide : 1 < 2)).mp (show 2 ^ 6 ≤ 2 ^ n from hlarge)
      exact Nat.pow_dvd_pow 2 hn
    rw [State.memSearchSized] at h
    split at h
    · cases h
    · split at h
      · cases h
      · have hsame := State.searchEntries_found h
        rw [cacheSizeAddr_of_dvd (Nat.dvd_trans h64 (hsizes _)), cacheSizeAddr_of_dvd (Nat.dvd_trans h64 (hsizes _))] at hsame
        rw [SameLineOf, hsame]

/-- Lines of 64 bytes. -/
theorem matchesLines_iff_64 : MatchesLines .small 64 := by
  have hline : 64 = 2 ^ 6 := rfl
  exact (matchesLines_iff .small hline).mpr (Nat.le_refl 64)

/-- With lines of 32 bytes a search for the line at 32 takes the request for the line at 0. -/
theorem not_matchesLines_32 :
    (State.oneRequest .small).memSearchSized .small 32 (fun _ => 32) .l1 0 32 .dfetch 32 =
        .ok (some ⟨0, some (.l1, 0), false, false⟩) ∧
      ((State.oneRequest .small).reqBuffer 0).addr = 0 ∧ ¬ SameLineOf 32 0 32 ∧ ¬ MatchesLines .small 32 := by
  have hsearch : (State.oneRequest .small).memSearchSized .small 32 (fun _ => 32) .l1 0 32 .dfetch 32 =
      .ok (some ⟨0, some (.l1, 0), false, false⟩) := by decide +kernel
  have hother : ¬ SameLineOf 32 0 32 := by
    have hlines : ¬ (0 : Addr).toNat / 32 = (32 : Addr).toNat / 32 := by decide
    exact hlines
  exact ⟨hsearch, rfl, hother, fun h => hother (h _ _ _ _ _ _ _ _ (fun _ => Nat.dvd_refl 32) hsearch)⟩

end Scarab.Memory
