import Scarab.Memory.State

/-! # The oldest op of a request

A request remembers three fields of the oldest op that waits for it. A new request takes them
from its op; `mem_adjust_matching_request` brings them up to date one after the other. -/

namespace Scarab.Memory

/-- The fields of an op that a request remembers. `unique_count` starts at 1 and only grows. -/
structure NumberedOp where
  uniqueNum : ℕ
  opNum : ℕ
  addr : Addr
  uniqueNum_pos : 0 < uniqueNum
  deriving DecidableEq

/-- The fields `oldest_op_*` of a request; zero where no op has come yet. -/
structure OldestOp where
  oldestOpUniqueNum : ℕ
  oldestOpOpNum : ℕ
  oldestOpAddr : Addr
  deriving DecidableEq, Repr

/-- The three fields are those of the op. -/
def NumberedOp.fields (op : NumberedOp) : OldestOp := ⟨op.uniqueNum, op.opNum, op.addr⟩

/-- `mem_init_new_req`. -/
def memInitNewReq (op : Option NumberedOp) : OldestOp :=
  let newReq : OldestOp := ⟨0, 0, 0⟩
  match op with
  | none => newReq
  | some op => op.fields

/-- The block of `mem_adjust_matching_request` for an op: each assignment tests the field that
the first of them has set. -/
def OldestOp.adjust (req : OldestOp) (op : NumberedOp) : OldestOp :=
  if req.oldestOpUniqueNum ≠ 0 then
    let req := { req with
      oldestOpUniqueNum := if op.uniqueNum < req.oldestOpUniqueNum then op.uniqueNum else req.oldestOpUniqueNum }
    let req := { req with
      oldestOpOpNum := if op.uniqueNum < req.oldestOpUniqueNum then op.opNum else req.oldestOpOpNum }
    { req with oldestOpAddr := if op.uniqueNum < req.oldestOpUniqueNum then op.addr else req.oldestOpAddr }
  else op.fields

/-- A call of `mem_adjust_matching_request`, which may come without an op, and which returns
early when a writeback already has another function to call. -/
structure AdjustCall where
  op : Option NumberedOp
  doneFuncNotSame : Bool

/-- The op that the call merges into the request. -/
def AdjustCall.merged (call : AdjustCall) : Option NumberedOp := if call.doneFuncNotSame then none else call.op

/-- `mem_adjust_matching_request`. -/
def OldestOp.memAdjustMatchingRequest (req : OldestOp) (call : AdjustCall) : OldestOp :=
  if call.doneFuncNotSame then req
  else
    match call.op with
    | none => req
    | some op => req.adjust op

/-- A request from when it is made through the calls that match it. -/
def OldestOp.after (op : Option NumberedOp) (calls : List AdjustCall) : OldestOp :=
  calls.foldl OldestOp.memAdjustMatchingRequest (memInitNewReq op)

/-- The ops of the request, in the order in which they came. -/
def mergedOps (op : Option NumberedOp) (calls : List AdjustCall) : List NumberedOp :=
  op.toList ++ calls.filterMap AdjustCall.merged

/-- The op has the smallest number of all. -/
def NumberedOp.Oldest (op : NumberedOp) (ops : List NumberedOp) : Prop :=
  op ∈ ops ∧ ∀ other ∈ ops, op.uniqueNum ≤ other.uniqueNum

/-- The fields are those of one op, the one with the smallest number, as soon as there is one. -/
def OldestOp.OfOldest (req : OldestOp) (ops : List NumberedOp) : Prop :=
  ops ≠ [] → ∃ op : NumberedOp, op.Oldest ops ∧ req = op.fields

/-! ## What a merge does -/

/-- The number is brought up to date before the other two fields are looked at, so these stay. -/
theorem OldestOp.adjust_eq {req : OldestOp} (hreq : 0 < req.oldestOpUniqueNum) (op : NumberedOp) :
    req.adjust op = { req with oldestOpUniqueNum := min op.uniqueNum req.oldestOpUniqueNum } := by
  rw [OldestOp.adjust, if_pos (Nat.pos_iff_ne_zero.mp hreq)]
  by_cases hlt : op.uniqueNum < req.oldestOpUniqueNum
  · simp [hlt, Nat.min_eq_left hlt.le]
  · simp [hlt, Nat.min_eq_right (Nat.le_of_not_lt hlt)]

/-- The first op leaves its number and address, and all of them the smallest number. -/
structure OldestOp.Mixed (req : OldestOp) (first : NumberedOp) (ops : List NumberedOp) : Prop where
  uniqueNum : ∃ op : NumberedOp, op.Oldest ops ∧ req.oldestOpUniqueNum = op.uniqueNum
  opNum : req.oldestOpOpNum = first.opNum
  addr : req.oldestOpAddr = first.addr

/-- What is known of a request after its ops so far. -/
def OldestOp.Tracks (req : OldestOp) : List NumberedOp → Prop
  | [] => req = ⟨0, 0, 0⟩
  | first :: ops => req.Mixed first (first :: ops)

theorem NumberedOp.oldest_singleton (op : NumberedOp) : op.Oldest [op] := by
  refine ⟨List.mem_singleton_self op, ?_⟩
  intro other hother
  rw [List.mem_singleton.mp hother]

theorem memInitNewReq_tracks (op : Option NumberedOp) : (memInitNewReq op).Tracks op.toList := by
  cases op with
  | none => rfl
  | some op => exact ⟨⟨op, op.oldest_singleton, rfl⟩, rfl, rfl⟩

theorem OldestOp.Mixed.adjust {req : OldestOp} {first : NumberedOp} {ops : List NumberedOp}
    (h : req.Mixed first ops) (op : NumberedOp) : (req.adjust op).Mixed first (ops ++ [op]) := by
  obtain ⟨⟨oldest, ⟨hmem, hle⟩, hnum⟩, hopNum, haddr⟩ := h
  have hpos : 0 < req.oldestOpUniqueNum := by
    rw [hnum]
    exact oldest.uniqueNum_pos
  rw [OldestOp.adjust_eq hpos]
  refine ⟨?_, hopNum, haddr⟩
  by_cases hlt : op.uniqueNum < oldest.uniqueNum
  · refine ⟨op, ⟨by simp, ?_⟩, ?_⟩
    · intro other hother
      cases List.mem_append.mp hother with
      | inl hbefore => exact hlt.le.trans (hle other hbefore)
      | inr hnew => rw [List.mem_singleton.mp hnew]
    · simp only [hnum]
      exact Nat.min_eq_left hlt.le
  · refine ⟨oldest, ⟨by simp [hmem], ?_⟩, ?_⟩
    · intro other hother
      cases List.mem_append.mp hother with
      | inl hbefore => exact hle other hbefore
      | inr hnew =>
          rw [List.mem_singleton.mp hnew]
          exact Nat.le_of_not_lt hlt
    · simp only [hnum]
      exact Nat.min_eq_right (Nat.le_of_not_lt hlt)

theorem OldestOp.Tracks.adjust {req : OldestOp} {ops : List NumberedOp} (h : req.Tracks ops) (op : NumberedOp) :
    (req.adjust op).Tracks (ops ++ [op]) := by
  cases ops with
  | nil =>
      obtain rfl : req = ⟨0, 0, 0⟩ := h
      exact ⟨⟨op, op.oldest_singleton, rfl⟩, rfl, rfl⟩
  | cons first ops => exact OldestOp.Mixed.adjust h op

/-- A call merges its op, or leaves the request as it is. -/
theorem OldestOp.Tracks.memAdjustMatchingRequest {req : OldestOp} {ops : List NumberedOp} (h : req.Tracks ops)
    (call : AdjustCall) : (req.memAdjustMatchingRequest call).Tracks (ops ++ call.merged.toList) := by
  rw [OldestOp.memAdjustMatchingRequest, AdjustCall.merged]
  by_cases hfunc : call.doneFuncNotSame = true
  · simpa [hfunc] using h
  · cases hop : call.op with
    | none => simpa [hfunc, hop] using h
    | some op => simpa [hfunc, hop] using h.adjust op

theorem OldestOp.Tracks.foldl {req : OldestOp} {ops : List NumberedOp} (h : req.Tracks ops) (calls : List AdjustCall) :
    (calls.foldl OldestOp.memAdjustMatchingRequest req).Tracks (ops ++ calls.filterMap AdjustCall.merged) := by
  induction calls generalizing req ops with
  | nil => simpa using h
  | cons call calls ih =>
      have hnext := ih (h.memAdjustMatchingRequest call)
      rw [List.append_assoc] at hnext
      rw [List.foldl_cons, List.filterMap_cons]
      cases hmerged : call.merged with
      | none => simpa [hmerged] using hnext
      | some op => simpa [hmerged] using hnext

/-- Whatever ops come, the number is the smallest one, and the rest is of the op that came first. -/
theorem OldestOp.after_tracks (op : Option NumberedOp) (calls : List AdjustCall) :
    (OldestOp.after op calls).Tracks (mergedOps op calls) :=
  (memInitNewReq_tracks op).foldl calls

/-! ## When the fields are those of one op -/

/-- An op of the smallest number has the op number and the address of the op that came first. -/
def FirstLikeOldest (ops : List NumberedOp) : Prop :=
  ∀ first ∈ ops.head?, ∃ op : NumberedOp, op.Oldest ops ∧ op.opNum = first.opNum ∧ op.addr = first.addr

theorem OldestOp.Mixed.ofOldest_iff {req : OldestOp} {first : NumberedOp} {ops : List NumberedOp}
    (h : req.Mixed first (first :: ops)) : req.OfOldest (first :: ops) ↔ FirstLikeOldest (first :: ops) := by
  obtain ⟨⟨oldest, ⟨hmem, hle⟩, hnum⟩, hopNum, haddr⟩ := h
  constructor
  · intro hof f hf
    obtain rfl : first = f := by simpa using hf
    obtain ⟨op, hold, rfl⟩ := hof (List.cons_ne_nil _ _)
    exact ⟨op, hold, hopNum, haddr⟩
  · intro hfirst _
    obtain ⟨op, ⟨hop, hople⟩, hopNum', haddr'⟩ := hfirst first rfl
    have hsame : op.uniqueNum = oldest.uniqueNum := Nat.le_antisymm (hople oldest hmem) (hle op hop)
    refine ⟨op, ⟨hop, hople⟩, ?_⟩
    cases req
    simp only [NumberedOp.fields, OldestOp.mk.injEq] at hnum hopNum haddr ⊢
    exact ⟨hnum.trans hsame.symm, hopNum.trans hopNum'.symm, haddr.trans haddr'.symm⟩

/-- The three fields are those of the oldest op exactly when the op that came first has the op
number and the address of an oldest one. -/
theorem oldestOp_ofOldest_iff (op : Option NumberedOp) (calls : List AdjustCall) :
    (OldestOp.after op calls).OfOldest (mergedOps op calls) ↔ FirstLikeOldest (mergedOps op calls) := by
  have htracks := OldestOp.after_tracks op calls
  cases hops : mergedOps op calls with
  | nil => simp [OldestOp.OfOldest, FirstLikeOldest]
  | cons first ops =>
      rw [hops] at htracks
      exact htracks.ofOldest_iff

/-- An op that comes after a younger one leaves only its number. -/
theorem oldestOp_younger_then_older :
    ¬ ∀ (op : Option NumberedOp) (calls : List AdjustCall),
      (OldestOp.after op calls).OfOldest (mergedOps op calls) := by
  intro h
  let younger : NumberedOp := ⟨5, 5, 0x50, by decide⟩
  let older : NumberedOp := ⟨3, 3, 0x30, by decide⟩
  obtain ⟨op, ⟨hmem, -⟩, hfields⟩ := h (some younger) [⟨some older, false⟩] (List.cons_ne_nil _ _)
  have hnum : op.fields = ⟨3, 5, 0x50⟩ := hfields.symm
  rcases List.mem_cons.mp hmem with rfl | hmem
  · exact absurd hnum (by decide)
  · obtain rfl : op = older := List.mem_singleton.mp hmem
    exact absurd hnum (by decide)

end Scarab.Memory
