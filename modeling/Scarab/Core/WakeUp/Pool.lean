import Mathlib.Data.List.Range
import Scarab.Core.WakeUp.State
import Scarab.Lib.Linked

/-! # The pool of wake-up entries

The wake-up lists of `Scarab.Core.WakeUp.State` as `map.c` keeps them: linked through the entries,
which come from a free list. A freed op gives its list back as a whole, and a pool that has run
empty grows by a block. -/

namespace Scarab.WakeUp

open Scarab.Linked

/-- A pointer to a `Wake_Up_Entry`. -/
abbrev EntryPtr := ℕ

/-- `Wake_Up_Entry` with its `next`. -/
structure PoolEntry where
  entry : WakeUpEntry
  next : Option EntryPtr
  deriving DecidableEq, Repr

/-- What `calloc` leaves in an entry. -/
def WakeUpEntry.zero : WakeUpEntry := ⟨0, 0, .regData, 0⟩

/-- `WAKE_UP_ENTRIES_INC`. -/
def wakeUpEntriesInc : ℕ := 256

/-- The fields of `Map_Data` that the wake-up lists use, and the memory of the entries. -/
structure Pool where
  memory : EntryPtr → PoolEntry
  /-- How many entries were ever given out by `calloc`; they have the addresses below. -/
  created : ℕ
  freeListHead : Option EntryPtr
  wakeUpEntries : ℕ
  activeWakeUpEntries : ℕ

/-- After the `memset` of `init_map`. -/
def Pool.empty : Pool := ⟨fun _ => ⟨.zero, none⟩, 0, none, 0, 0⟩

def Pool.next (m : Pool) (e : EntryPtr) : Option EntryPtr := (m.memory e).next

/-- `e->next = q`. -/
def Pool.setNext (m : Pool) (e : EntryPtr) (q : Option EntryPtr) : Pool :=
  { m with memory := Function.update m.memory e { m.memory e with next := q } }

/-- The assertion of `expand_wake_up_entries`. -/
def growthAssertion : String := "map_data->wake_up_entries <= WAKE_UP_ENTRIES_INC * 128"

/-- The assertion of `add_to_wake_up_lists` where it takes an entry. -/
def allocationAssertion : String := "map_data->active_wake_up_entries == map_data->wake_up_entries"

/-- `expand_wake_up_entries`. -/
def Pool.expandWakeUpEntries (m : Pool) : Except String Pool :=
  let newPool := m.created
  let last := newPool + (wakeUpEntriesInc - 1)
  let wakeUpEntries := (m.wakeUpEntries + wakeUpEntriesInc) % 2 ^ 32
  if wakeUpEntries ≤ wakeUpEntriesInc * 128 then
    .ok { m with
      memory := fun e =>
        if newPool ≤ e ∧ e < last then ⟨.zero, some (e + 1)⟩
        else if e = last then ⟨.zero, m.freeListHead⟩
        else m.memory e
      created := newPool + wakeUpEntriesInc
      freeListHead := some newPool
      wakeUpEntries }
  else .error growthAssertion

/-- The entry `wake` at the head of the free list gets its new content. -/
def Pool.fill (m : Pool) (wake : EntryPtr) (entry : WakeUpEntry) : Pool :=
  { m with
    activeWakeUpEntries := (m.activeWakeUpEntries + 1) % 2 ^ 32
    freeListHead := m.next wake
    memory := Function.update m.memory wake ⟨entry, none⟩ }

/-- Where `add_to_wake_up_lists` looks whether the free list is empty. -/
def Pool.refill (m : Pool) : Except String Pool :=
  if m.freeListHead = none then
    if m.activeWakeUpEntries = m.wakeUpEntries then m.expandWakeUpEntries else .error allocationAssertion
  else .ok m

/-- Where `add_to_wake_up_lists` takes an entry from the free list and fills it. -/
def Pool.take (m : Pool) (entry : WakeUpEntry) : Except String (EntryPtr × Pool) := do
  let m ← m.refill
  match m.freeListHead with
  | none => .error "map_data->free_list_head"
  | some wake => return (wake, m.fill wake entry)

/-- The fields of an `Op` that wake-ups read and write, with the list as the source has it. -/
structure PooledOp where
  /-- `op_pool_valid`. -/
  valid : Bool
  uniqueNum : ℕ
  srcInfo : List SrcInfo
  srcsNotRdyVector : BitVec 32
  wakeUpSignaled : Map.DepType → Bool
  wakeUpHead : Option EntryPtr
  wakeUpTail : Option EntryPtr
  wakeUpCount : ℕ

/-- Storage that was never used. -/
def PooledOp.unused : PooledOp := ⟨false, 0, [], 0, fun _ => false, none, none, 0⟩

structure PoolState where
  ops : OpPtr → PooledOp
  pool : Pool

def PoolState.setOp (x : PoolState) (p : OpPtr) (op : PooledOp) : PoolState :=
  { x with ops := Function.update x.ops p op }

/-- `test_not_rdy_bit`. -/
def PooledOp.testNotRdyBit (op : PooledOp) (bit : ℕ) : Except String Bool :=
  if bit < op.srcInfo.length then .ok (0 < op.srcsNotRdyVector &&& (1#32 <<< bit))
  else .error "bit < op->oracle_info.num_srcs"

/-- `clear_not_rdy_bit`. -/
def PoolState.clearNotRdyBit (x : PoolState) (p : OpPtr) (bit : ℕ) : Except String PoolState :=
  let op := x.ops p
  if bit < op.srcInfo.length then
    .ok (x.setOp p { op with srcsNotRdyVector := op.srcsNotRdyVector &&& ~~~(1#32 <<< bit) })
  else .error "bit < op->oracle_info.num_srcs"

/-! ## Wake-up -/

/-- What `wake_up_ops` does for one entry. The wake action touches none of the fields here. -/
def PoolState.wakeEntry (type : Map.DepType) (x : PoolState) (temp : EntryPtr) : Except String PoolState :=
  let e := (x.pool.memory temp).entry
  if e.depType ≠ type then .ok x
  else if (x.ops e.op).uniqueNum = e.uniqueNum ∧ (x.ops e.op).valid = true then do
    if ← (x.ops e.op).testNotRdyBit e.rdyBit then x.clearNotRdyBit e.op e.rdyBit else return x
  else .ok x

/-- `wake_up_ops`, without replays. No list has more entries than were created. -/
def PoolState.wakeUpOps (x : PoolState) (p : OpPtr) (type : Map.DepType) : Except String PoolState :=
  if (x.ops p).wakeUpSignaled type = false then do
    let (_, x) ← walk x.pool.next (fun x temp => (·, false) <$> PoolState.wakeEntry type x temp)
      x.pool.created (x.ops p).wakeUpHead x
    let op := x.ops p
    return x.setOp p { op with wakeUpSignaled := Function.update op.wakeUpSignaled type true }
  else .error "!op->wake_up_signaled[type] || op->replay"

/-! ## Mapping -/

/-- The producer of a source, if it is still in the machine. -/
def PoolState.producer (obeyRegDep : Bool) (x : PoolState) (src : SrcInfo) : Option OpPtr :=
  if obeyRegDep = true ∨ src.type ≠ .regData then
    src.op.filter fun q => (x.ops q).valid && (x.ops q).uniqueNum == src.uniqueNum
  else none

/-- The end of the wake-up list of `src_op`. -/
def PoolState.append (x : PoolState) (q : OpPtr) (wake : EntryPtr) : Except String PoolState :=
  let srcOp := x.ops q
  match srcOp.wakeUpTail with
  | none => .ok (x.setOp q { srcOp with wakeUpHead := some wake, wakeUpTail := some wake, wakeUpCount := 1 })
  | some tail =>
      if srcOp.wakeUpHead ≠ none then
        .ok { x.setOp q { srcOp with wakeUpTail := some wake, wakeUpCount := (srcOp.wakeUpCount + 1) % 2 ^ 32 } with
          pool := x.pool.setNext tail (some wake) }
      else .error "src_op->wake_up_head"

/-- What `add_to_wake_up_lists` does for one source of the op. -/
def PoolState.linkSource (obeyRegDep : Bool) (p : OpPtr) (x : PoolState) (source : SrcInfo × ℕ) :
    Except String PoolState := do
  let (src, ii) := source
  match x.producer obeyRegDep src with
  | some q =>
      let (wake, pool) ← x.pool.take ⟨p, (x.ops p).uniqueNum, src.type, ii⟩
      let x ← { x with pool }.append q wake
      if (x.ops q).wakeUpSignaled src.type then x.clearNotRdyBit p ii else return x
  | none =>
      let op := x.ops p
      (x.setOp p { op with srcInfo := op.srcInfo.set ii src.gone }).clearNotRdyBit p ii

/-- `add_to_wake_up_lists`. -/
def PoolState.addToWakeUpLists (obeyRegDep : Bool) (x : PoolState) (p : OpPtr) : Except String PoolState :=
  (x.ops p).srcInfo.zipIdx.foldlM (PoolState.linkSource obeyRegDep p) x

/-! ## The op pool -/

/-- `alloc_op`, and the sources that the op is given when it is fetched, each with its bit set.
The wake-up list is as the last op in this storage left it. -/
def PoolState.allocOp (x : PoolState) (p : OpPtr) (uniqueNum : ℕ) (srcs : List SrcInfo) : PoolState :=
  x.setOp p { x.ops p with
    valid := true, uniqueNum, srcInfo := srcs
    srcsNotRdyVector := (List.range srcs.length).foldl setNotRdyBit 0
    wakeUpSignaled := fun _ => false }

/-- `free_wake_up_list`. -/
def PoolState.freeWakeUpList (x : PoolState) (p : OpPtr) : Except String PoolState :=
  let op := x.ops p
  match op.wakeUpTail with
  | none => .ok x
  | some tail =>
      if op.wakeUpHead ≠ none then
        .ok { x.setOp p { op with wakeUpHead := none, wakeUpTail := none } with
          pool := { x.pool.setNext tail x.pool.freeListHead with
            freeListHead := op.wakeUpHead
            activeWakeUpEntries := (x.pool.activeWakeUpEntries + 2 ^ 32 - op.wakeUpCount) % 2 ^ 32 } }
      else .error "op->wake_up_head"

/-- `free_op`. -/
def PoolState.freeOp (x : PoolState) (p : OpPtr) : Except String PoolState :=
  (x.setOp p { x.ops p with valid := false }).freeWakeUpList p

/-- An op is mapped as often as its stage likes, and unique numbers may come again. -/
inductive PoolEvent where
  | alloc (p : OpPtr) (uniqueNum : ℕ) (srcs : List SrcInfo)
  | map (p : OpPtr)
  | fire (p : OpPtr) (type : Map.DepType)
  | free (p : OpPtr)

def PoolState.step (obeyRegDep : Bool) (x : PoolState) : PoolEvent → Except String PoolState
  | .alloc p uniqueNum srcs =>
      if (x.ops p).valid = false then .ok (x.allocOp p uniqueNum srcs)
      else .error "!new_op->op_pool_valid"
  | .map p => if (x.ops p).valid = true then x.addToWakeUpLists obeyRegDep p else .error "mapped"
  | .fire p type => if (x.ops p).valid = true then x.wakeUpOps p type else .error "op->op_pool_valid"
  | .free p => if (x.ops p).valid = true then x.freeOp p else .error "op->op_pool_valid"

/-- After `init_map`, which allocates the first block. -/
def PoolState.init : Except String PoolState :=
  (fun pool => ⟨fun _ => .unused, pool⟩) <$> Pool.empty.expandWakeUpEntries

def PoolReachable (obeyRegDep : Bool) (x : PoolState) : Prop :=
  ∃ x₀ events, PoolState.init = .ok x₀ ∧ Execution.run (PoolState.step obeyRegDep) x₀ events = .ok x

/-! ## The free list -/

/-- The free list, and the entries that are in use. -/
structure Pool.Holds (m : Pool) (free : List EntryPtr) (used : EntryPtr → Prop) : Prop where
  chain : Chain m.next m.freeListHead free
  nodup : free.Nodup
  created : ∀ e, e < m.created ↔ e ∈ free ∨ used e
  apart : ∀ e ∈ free, ¬ used e
  entries : m.wakeUpEntries = m.created
  active : m.activeWakeUpEntries + free.length = m.wakeUpEntries
  blocks : wakeUpEntriesInc ∣ m.wakeUpEntries
  limit : m.wakeUpEntries ≤ wakeUpEntriesInc * 128

variable {m m' : Pool} {free : List EntryPtr} {used : EntryPtr → Prop} {wake t : EntryPtr} {entry : WakeUpEntry}

theorem setNext_next (m : Pool) (t : EntryPtr) (q : Option EntryPtr) :
    (m.setNext t q).next = Function.update m.next t q := by
  funext e
  by_cases he : e = t
  · subst he
    simp [Pool.next, Pool.setNext]
  · simp [Pool.next, Pool.setNext, Function.update_of_ne he]

theorem fill_next (m : Pool) (wake : EntryPtr) (entry : WakeUpEntry) :
    (m.fill wake entry).next = Function.update m.next wake none := by
  funext e
  by_cases he : e = wake
  · subst he
    simp [Pool.next, Pool.fill]
  · simp [Pool.next, Pool.fill, Function.update_of_ne he]

theorem Pool.Holds.congr {used' : EntryPtr → Prop} (h : m.Holds free used) (hused : ∀ e, used' e ↔ used e) :
    m.Holds free used' := by
  have heq : used' = used := funext fun e => propext (hused e)
  rw [heq]
  exact h

theorem Pool.empty_holds : Pool.empty.Holds [] fun _ => False where
  chain := rfl
  nodup := List.nodup_nil
  created := fun e => by simp [Pool.empty]
  apart := fun e he => by cases he
  entries := rfl
  active := rfl
  blocks := Nat.dvd_zero _
  limit := Nat.zero_le _

/-- What a new block is: its entries are linked in a row, the last one to the free list. -/
structure Pool.Expanded (m m' : Pool) : Prop where
  old : ∀ e < m.created, m'.memory e = m.memory e
  row : ∀ e, m.created ≤ e → e + 1 < m.created + wakeUpEntriesInc → m'.next e = some (e + 1)
  last : m'.next (m.created + (wakeUpEntriesInc - 1)) = m.freeListHead
  freeListHead : m'.freeListHead = some m.created
  created : m'.created = m.created + wakeUpEntriesInc
  wakeUpEntries : m'.wakeUpEntries = (m.wakeUpEntries + wakeUpEntriesInc) % 2 ^ 32
  activeWakeUpEntries : m'.activeWakeUpEntries = m.activeWakeUpEntries
  limit : m'.wakeUpEntries ≤ wakeUpEntriesInc * 128

theorem expandWakeUpEntries_spec (hm : m.expandWakeUpEntries = .ok m') : m.Expanded m' := by
  obtain ⟨hlimit, hm⟩ := Execution.ite_error_eq_ok.mp hm
  have hmemory : ∀ e, m'.memory e =
      if m.created ≤ e ∧ e < m.created + (wakeUpEntriesInc - 1) then ⟨.zero, some (e + 1)⟩
      else if e = m.created + (wakeUpEntriesInc - 1) then ⟨.zero, m.freeListHead⟩
      else m.memory e := by
    intro e
    cases hm
    rfl
  refine ⟨fun e he => ?_, fun e he hlt => ?_, ?_, ?_, ?_, ?_, ?_, ?_⟩
  · have hnew : ¬ (m.created ≤ e ∧ e < m.created + (wakeUpEntriesInc - 1)) := fun hnew => by omega
    have hlast : e ≠ m.created + (wakeUpEntriesInc - 1) := by omega
    rw [hmemory, if_neg hnew, if_neg hlast]
  · have hnew : m.created ≤ e ∧ e < m.created + (wakeUpEntriesInc - 1) := by
      simp only [wakeUpEntriesInc] at hlt ⊢
      omega
    rw [Pool.next, hmemory, if_pos hnew]
  · rw [Pool.next, hmemory, if_neg (by simp), if_pos rfl]
  all_goals cases hm
  · rfl
  · rfl
  · rfl
  · rfl
  · exact hlimit

/-- A new block comes in front of the free list. -/
theorem Pool.Holds.expand (h : m.Holds free used) (hm : m.expandWakeUpEntries = .ok m') :
    m'.Holds (m.created :: List.range' (m.created + 1) (wakeUpEntriesInc - 1) ++ free) used ∧
      (∀ e, used e → m'.memory e = m.memory e) ∧ m'.activeWakeUpEntries = m.activeWakeUpEntries := by
  have hspec := expandWakeUpEntries_spec hm
  have hrange : m.created :: List.range' (m.created + 1) (wakeUpEntriesInc - 1) =
      List.range' m.created wakeUpEntriesInc := (List.range'_succ ..).symm
  have hbound := h.limit
  have hactive := h.active
  have hold : ∀ e, e ∈ free ∨ used e → e < m.created := fun e => (h.created e).mpr
  have hentries : m'.wakeUpEntries = m.wakeUpEntries + wakeUpEntriesInc := by
    rw [hspec.wakeUpEntries]
    simp only [wakeUpEntriesInc] at hbound ⊢
    omega
  rw [hrange]
  refine ⟨⟨?_, ?_, fun e => ?_, fun e he hused => ?_, ?_, ?_, ?_, hspec.limit⟩,
    fun e he => hspec.old e (hold e (.inr he)), hspec.activeWakeUpEntries⟩
  · have hfree : Chain m'.next m.freeListHead free := h.chain.congr fun e he =>
      congrArg PoolEntry.next (hspec.old e (hold e (.inl he)))
    rw [hspec.freeListHead]
    refine Chain.range' m.created (wakeUpEntriesInc - 1) hspec.row ?_
    rw [hspec.last]
    exact hfree
  · refine List.nodup_append.mpr ⟨List.nodup_range', h.nodup, ?_⟩
    rintro e he e' he' rfl
    exact Nat.not_lt.mpr (List.mem_range'_1.mp he).1 (hold e (.inl he'))
  · rw [hspec.created, List.mem_append, List.mem_range'_1]
    constructor
    · intro he
      by_cases hlt : e < m.created
      · exact ((h.created e).mp hlt).imp .inr id
      · exact .inl (.inl ⟨Nat.le_of_not_lt hlt, he⟩)
    · rintro ((he | he) | he)
      · exact he.2
      · exact Nat.lt_add_right _ (hold e (.inl he))
      · exact Nat.lt_add_right _ (hold e (.inr he))
  · rcases List.mem_append.mp he with he | he
    · exact Nat.not_lt.mpr (List.mem_range'_1.mp he).1 (hold e (.inr hused))
    · exact h.apart e he hused
  · rw [hentries, hspec.created, h.entries]
  · rw [hentries, hspec.activeWakeUpEntries, List.length_append, List.length_range']
    omega
  · rw [hentries]
    exact Nat.dvd_add_self_right.mpr h.blocks

/-- The head of the free list comes into use. -/
theorem Pool.Holds.fill (h : m.Holds (wake :: free) used) (entry : WakeUpEntry) :
    (m.fill wake entry).Holds free (fun e => used e ∨ e = wake) ∧
      (m.fill wake entry).activeWakeUpEntries = m.activeWakeUpEntries + 1 := by
  obtain ⟨hwake, hnodup⟩ := List.nodup_cons.mp h.nodup
  have hactive := h.active
  have hlimit := h.limit
  rw [List.length_cons] at hactive
  have hcount : (m.fill wake entry).activeWakeUpEntries = m.activeWakeUpEntries + 1 := by
    simp only [Pool.fill, wakeUpEntriesInc] at hlimit ⊢
    omega
  refine ⟨⟨?_, hnodup, fun e => ?_, fun e he => ?_, h.entries, ?_, h.blocks, hlimit⟩, hcount⟩
  · rw [fill_next]
    exact h.chain.2.update hwake none
  · have hcreated := h.created e
    rw [List.mem_cons] at hcreated
    show e < m.created ↔ _
    tauto
  · rintro (hused | rfl)
    · exact h.apart e (List.mem_cons_of_mem _ he) hused
    · exact hwake he
  · rw [hcount]
    show _ = m.wakeUpEntries
    omega

/-- The free list has an entry afterwards. -/
theorem Pool.Holds.refill (h : m.Holds free used) (hm : m.refill = .ok m') :
    ∃ e free', m'.Holds (e :: free') used ∧ (∀ e, used e → m'.memory e = m.memory e) ∧
      m'.activeWakeUpEntries = m.activeWakeUpEntries := by
  unfold Pool.refill at hm
  by_cases hempty : m.freeListHead = none
  · rw [if_pos hempty] at hm
    obtain ⟨_, hm⟩ := Execution.ite_error_eq_ok.mp hm
    obtain ⟨hholds, hkept, hactive⟩ := h.expand hm
    exact ⟨_, _, hholds, hkept, hactive⟩
  · rw [if_neg hempty] at hm
    cases hm
    cases free with
    | nil => exact absurd h.chain hempty
    | cons e free => exact ⟨e, free, h, fun _ _ => rfl, rfl⟩

/-- Only a full pool of the largest size cannot be refilled. -/
theorem Pool.Holds.refill_error {msg : String} (h : m.Holds free used) (hm : m.refill = .error msg) :
    msg = growthAssertion ∧ m.activeWakeUpEntries = wakeUpEntriesInc * 128 := by
  have hactive := h.active
  have hlimit := h.limit
  have hblocks := h.blocks
  unfold Pool.refill at hm
  by_cases hempty : m.freeListHead = none
  · obtain rfl : free = [] := h.chain.unique (show Chain m.next m.freeListHead [] from hempty)
    rw [if_pos hempty, if_pos (by simpa using hactive)] at hm
    obtain ⟨_, hm⟩ | ⟨hfull, hmsg⟩ := Execution.ite_error_eq_error.mp hm
    · cases hm
    · refine ⟨hmsg.symm, ?_⟩
      simp only [wakeUpEntriesInc, List.length_nil] at *
      omega
  · rw [if_neg hempty] at hm
    cases hm

/-- Taking an entry, from the free list or from a new block. -/
theorem Pool.Holds.take (h : m.Holds free used) (htake : m.take entry = .ok (wake, m')) :
    ∃ free', m'.Holds free' (fun e => used e ∨ e = wake) ∧ ¬ used wake ∧ m'.memory wake = ⟨entry, none⟩ ∧
      (∀ e, used e → m'.memory e = m.memory e) ∧ m'.activeWakeUpEntries = m.activeWakeUpEntries + 1 := by
  obtain ⟨m₁, hrefill, htake⟩ := Execution.bind_eq_ok.mp htake
  obtain ⟨e, free', h₁, hkept, hactive⟩ := h.refill hrefill
  rw [h₁.chain.1] at htake
  cases htake
  have hfresh := h₁.apart wake (List.mem_cons_self ..)
  obtain ⟨hfilled, hcount⟩ := h₁.fill entry
  refine ⟨free', hfilled, hfresh, Function.update_self .., fun e he => ?_, by rw [hcount, hactive]⟩
  have hne : e ≠ wake := fun heq => hfresh (heq ▸ he)
  rw [← hkept e he]
  exact Function.update_of_ne hne ..

theorem Pool.Holds.take_error {msg : String} (h : m.Holds free used) (htake : m.take entry = .error msg) :
    msg = growthAssertion ∧ m.activeWakeUpEntries = wakeUpEntriesInc * 128 := by
  rcases Execution.bind_eq_error.mp htake with hrefill | ⟨m₁, hrefill, htake⟩
  · exact h.refill_error hrefill
  · obtain ⟨e, free', h₁, _⟩ := h.refill hrefill
    rw [h₁.chain.1] at htake
    cases htake

/-- An entry in use may be linked to anything. -/
theorem Pool.Holds.setNext (h : m.Holds free used) (ht : used t) (q : Option EntryPtr) :
    (m.setNext t q).Holds free used where
  chain := by
    rw [setNext_next]
    exact h.chain.update (fun hmem => h.apart t hmem ht) q
  nodup := h.nodup
  created := h.created
  apart := h.apart
  entries := h.entries
  active := h.active
  blocks := h.blocks
  limit := h.limit

end Scarab.WakeUp
