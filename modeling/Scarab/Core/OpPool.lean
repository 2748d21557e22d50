import Scarab.Lib.Execution
import Scarab.Lib.FreeList

/-! # The op pool

`op_pool.c`: ops come from a free list, and a pool that has run empty grows by a block. -/

namespace Scarab.OpPool

open Linked (FreeList)

/-- A pointer to an `Op`. -/
abbrev OpPtr := ℕ

/-- The fields of an `Op` that the pool and the stages in front of the node table use. -/
structure Op where
  opPoolValid : Bool
  opPoolNext : Option OpPtr
  opPoolId : ℕ
  opNum : ℕ
  uniqueNumPerProc : ℕ
  fetchCycle : ℕ
  /-- A cycle that is `MAX_CTR` is `none`. -/
  mapCycle : Option ℕ
  issueCycle : Option ℕ
  /-- `bar_type & BAR_ISSUE`, which the frontend sets. -/
  barIssue : Bool
  deriving DecidableEq, Repr

/-- What `calloc` leaves in an op. -/
def Op.zero : Op where
  opPoolValid := false
  opPoolNext := none
  opPoolId := 0
  opNum := 0
  uniqueNumPerProc := 0
  fetchCycle := 0
  mapCycle := some 0
  issueCycle := some 0
  barIssue := false

/-- `OP_POOL_ENTRIES_INC`. -/
def opPoolEntriesInc : ℕ := 128

/-- The pool, and the memory of the ops. The ops have the addresses below `opPoolEntries`. -/
structure Pool where
  ops : OpPtr → Op
  opPoolEntries : ℕ
  opPoolActiveOps : ℕ
  opPoolFreeHead : Option OpPtr

/-- The assertion of `expand_op_pool`. -/
def growthAssertion : String := "op_pool_entries <= OP_POOL_ENTRIES_INC * 128"

/-- `expand_op_pool`. -/
def Pool.expandOpPool (m : Pool) : Except String Pool :=
  let newPool := m.opPoolEntries
  let last := newPool + (opPoolEntriesInc - 1)
  if newPool + opPoolEntriesInc ≤ opPoolEntriesInc * 128 then
    .ok { m with
      ops := fun p =>
        if newPool ≤ p ∧ p < last then { Op.zero with opPoolNext := some (p + 1), opPoolId := p }
        else if p = last then { Op.zero with opPoolNext := m.opPoolFreeHead, opPoolId := p }
        else m.ops p
      opPoolEntries := newPool + opPoolEntriesInc
      opPoolFreeHead := some newPool }
  else .error growthAssertion

/-- `init_op_pool`. -/
def init : Except String Pool := Pool.expandOpPool ⟨fun _ => .zero, 0, 0, none⟩

/-- `op_pool_setup_op`, with the counters of the core. -/
def Op.setup (op : Op) (opCount uniqueCountPerCore : ℕ) : Op :=
  { op with opNum := opCount, uniqueNumPerProc := uniqueCountPerCore, mapCycle := none, issueCycle := none }

def Pool.setOp (m : Pool) (p : OpPtr) (op : Op) : Pool := { m with ops := Function.update m.ops p op }

@[simp] theorem setOp_self (m : Pool) (p : OpPtr) (op : Op) : (m.setOp p op).ops p = op :=
  Function.update_self ..

theorem setOp_of_ne (m : Pool) {p q : OpPtr} (op : Op) (hq : q ≠ p) : (m.setOp p op).ops q = m.ops q :=
  Function.update_of_ne hq ..

/-- What `alloc_op` does when the free list is empty. -/
def Pool.refill (m : Pool) : Except String Pool :=
  if m.opPoolFreeHead = none then
    if m.opPoolActiveOps = m.opPoolEntries then m.expandOpPool
    else .error "op_pool_active_ops == op_pool_entries"
  else .ok m

/-- `alloc_op`. -/
def Pool.allocOp (m : Pool) (opCount uniqueCountPerCore : ℕ) : Except String (OpPtr × Pool) := do
  let m ← m.refill
  match m.opPoolFreeHead with
  | none => .error "op_pool_free_head"
  | some newOp =>
      if (m.ops newOp).opPoolValid = false then
        let op := { m.ops newOp with opPoolValid := true }
        return (newOp, { m.setOp newOp (op.setup opCount uniqueCountPerCore) with
          opPoolActiveOps := m.opPoolActiveOps + 1
          opPoolFreeHead := (m.ops newOp).opPoolNext })
      else .error "!new_op->op_pool_valid"

/-- `free_op`. -/
def Pool.freeOp (m : Pool) (p : OpPtr) : Except String Pool :=
  if (m.ops p).opPoolValid = true then
    .ok { m.setOp p { m.ops p with opPoolValid := false, opPoolNext := m.opPoolFreeHead } with
      opPoolActiveOps := m.opPoolActiveOps - 1
      opPoolFreeHead := some p }
  else .error "op->op_pool_valid"

/-! ## What the pool keeps -/

/-- The ops in use are the valid ones, and all others are on the free list. -/
structure Pool.Holds (m : Pool) (used : List OpPtr) : Prop where
  free : ∃ free, FreeList (fun p => (m.ops p).opPoolNext) m.opPoolFreeHead m.opPoolEntries free used
  valid : ∀ p < m.opPoolEntries, (m.ops p).opPoolValid = true ↔ p ∈ used
  active : m.opPoolActiveOps = used.length
  limit : m.opPoolEntries ≤ opPoolEntriesInc * 128
  blocks : opPoolEntriesInc ∣ m.opPoolEntries

variable {m m' : Pool} {used used' : List OpPtr} {p q : OpPtr} {opCount uniqueCount : ℕ} {op : Op}

theorem Pool.Holds.nodup (h : m.Holds used) : used.Nodup := by
  obtain ⟨free, hfree⟩ := h.free
  exact hfree.used_nodup

theorem Pool.Holds.lt (h : m.Holds used) (hp : p ∈ used) : p < m.opPoolEntries := by
  obtain ⟨free, hfree⟩ := h.free
  exact hfree.mem_iff.mp (.inr hp)

theorem Pool.Holds.perm (h : m.Holds used) (hused : used.Perm used') : m.Holds used' := by
  obtain ⟨free, hfree⟩ := h.free
  exact ⟨⟨free, hfree.perm_used hused⟩, fun p hp => (h.valid p hp).trans hused.mem_iff,
    h.active.trans hused.length_eq, h.limit, h.blocks⟩

/-- An op in use may change, as long as it stays valid. -/
theorem Pool.Holds.setOp (h : m.Holds used) (hp : p ∈ used) (hop : op.opPoolValid = true) :
    (m.setOp p op).Holds used where
  free := by
    obtain ⟨free, hfree⟩ := h.free
    refine ⟨free, hfree.congr fun q hq => ?_⟩
    have hne : q ≠ p := fun heq => hq (heq ▸ hp)
    exact congrArg Op.opPoolNext (setOp_of_ne m op hne)
  valid := by
    intro q hq
    by_cases hqp : q = p
    · subst hqp
      rw [setOp_self]
      exact iff_of_true hop hp
    · rw [setOp_of_ne m op hqp]
      exact h.valid q hq
  active := h.active
  limit := h.limit
  blocks := h.blocks

/-- What a new block is: its ops are linked in a row, the last one to the free list. -/
structure Pool.Expanded (m m' : Pool) : Prop where
  old : ∀ p < m.opPoolEntries, m'.ops p = m.ops p
  row : ∀ p, m.opPoolEntries ≤ p → p + 1 < m.opPoolEntries + opPoolEntriesInc →
    (m'.ops p).opPoolNext = some (p + 1)
  last : (m'.ops (m.opPoolEntries + (opPoolEntriesInc - 1))).opPoolNext = m.opPoolFreeHead
  unused : ∀ p, m.opPoolEntries ≤ p → p < m.opPoolEntries + opPoolEntriesInc → (m'.ops p).opPoolValid = false
  head : m'.opPoolFreeHead = some m.opPoolEntries
  entries : m'.opPoolEntries = m.opPoolEntries + opPoolEntriesInc
  active : m'.opPoolActiveOps = m.opPoolActiveOps
  limit : m'.opPoolEntries ≤ opPoolEntriesInc * 128

theorem expandOpPool_spec (hm : m.expandOpPool = .ok m') : m.Expanded m' := by
  obtain ⟨hlimit, hm⟩ := Execution.ite_error_eq_ok.mp hm
  have hops : ∀ p, m'.ops p =
      if m.opPoolEntries ≤ p ∧ p < m.opPoolEntries + (opPoolEntriesInc - 1) then
        { Op.zero with opPoolNext := some (p + 1), opPoolId := p }
      else if p = m.opPoolEntries + (opPoolEntriesInc - 1) then
        { Op.zero with opPoolNext := m.opPoolFreeHead, opPoolId := p }
      else m.ops p := by
    intro p
    cases hm
    rfl
  refine ⟨fun p hp => ?_, fun p hp hlt => ?_, ?_, fun p hp hlt => ?_, ?_, ?_, ?_, ?_⟩
  · have hnew : ¬ (m.opPoolEntries ≤ p ∧ p < m.opPoolEntries + (opPoolEntriesInc - 1)) :=
      fun hnew => by omega
    have hlast : p ≠ m.opPoolEntries + (opPoolEntriesInc - 1) := by omega
    rw [hops, if_neg hnew, if_neg hlast]
  · have hnew : m.opPoolEntries ≤ p ∧ p < m.opPoolEntries + (opPoolEntriesInc - 1) := by
      simp only [opPoolEntriesInc] at hlt ⊢
      omega
    rw [hops, if_pos hnew]
  · rw [hops, if_neg (by simp), if_pos rfl]
  · rw [hops]
    by_cases hnew : p < m.opPoolEntries + (opPoolEntriesInc - 1)
    · rw [if_pos ⟨hp, hnew⟩]
      rfl
    · have hlast : p = m.opPoolEntries + (opPoolEntriesInc - 1) := by
        simp only [opPoolEntriesInc] at hlt hnew ⊢
        omega
      rw [if_neg fun hrow => hnew hrow.2, if_pos hlast]
      rfl
  all_goals cases hm
  · rfl
  · rfl
  · rfl
  · exact hlimit

/-- A new block comes in front of the free list. -/
theorem Pool.Holds.expand (h : m.Holds used) (hm : m.expandOpPool = .ok m') : m'.Holds used := by
  have hspec := expandOpPool_spec hm
  obtain ⟨free, hfree⟩ := h.free
  refine ⟨⟨List.range' m.opPoolEntries opPoolEntriesInc ++ free, ?_⟩, fun p hp => ?_, ?_, hspec.limit, ?_⟩
  · rw [hspec.head, hspec.entries]
    exact hfree.grow (n := 127) (fun q hq => congrArg Op.opPoolNext (hspec.old q hq)) hspec.row hspec.last
  · by_cases hlt : p < m.opPoolEntries
    · rw [hspec.old p hlt]
      exact h.valid p hlt
    · rw [hspec.entries] at hp
      rw [hspec.unused p (Nat.le_of_not_lt hlt) hp]
      exact iff_of_false Bool.false_ne_true fun hused => hlt (h.lt hused)
  · rw [hspec.active, h.active]
  · rw [hspec.entries]
    exact Nat.dvd_add_self_right.mpr h.blocks

theorem init_holds (hm : init = .ok m) : m.Holds [] := by
  refine Pool.Holds.expand ⟨⟨[], .nil⟩, fun p hp => ?_, rfl, Nat.zero_le _, Nat.dvd_zero _⟩ hm
  exact absurd hp (Nat.not_lt_zero p)

/-- After the refill the free list is not empty. -/
theorem Pool.Holds.refill (h : m.Holds used) (hm : m.refill = .ok m') :
    m'.Holds used ∧ m'.opPoolFreeHead ≠ none ∧ ∀ p ∈ used, m'.ops p = m.ops p := by
  by_cases hempty : m.opPoolFreeHead = none
  · rw [Pool.refill, if_pos hempty] at hm
    obtain ⟨_, hm⟩ := Execution.ite_error_eq_ok.mp hm
    have hspec := expandOpPool_spec hm
    refine ⟨h.expand hm, ?_, fun p hp => hspec.old p (h.lt hp)⟩
    rw [hspec.head]
    exact Option.some_ne_none _
  · rw [Pool.refill, if_neg hempty] at hm
    cases hm
    exact ⟨h, hempty, fun _ _ => rfl⟩

/-- Only a pool of the largest size that is in use as a whole cannot be refilled. -/
theorem Pool.Holds.refill_error {msg : String} (h : m.Holds used) (hm : m.refill = .error msg) :
    msg = growthAssertion ∧ used.length = opPoolEntriesInc * 128 := by
  by_cases hempty : m.opPoolFreeHead = none
  · obtain ⟨free, hfree⟩ := h.free
    have hlength := hfree.length
    rw [hempty] at hfree
    have hnil : free = [] := by
      cases hchain : free with
      | nil => rfl
      | cons q rest => cases (hchain ▸ hfree.chain).1
    have hactive : m.opPoolActiveOps = m.opPoolEntries := by
      rw [h.active, ← hlength, hnil, List.length_nil, Nat.zero_add]
    rw [Pool.refill, if_pos hempty, if_pos hactive] at hm
    obtain ⟨_, hm⟩ | ⟨hfull, hmsg⟩ := Execution.ite_error_eq_error.mp hm
    · cases hm
    · refine ⟨hmsg.symm, ?_⟩
      have hlimit := h.limit
      have hblocks := h.blocks
      have hused := h.active
      simp only [opPoolEntriesInc] at *
      omega
  · rw [Pool.refill, if_neg hempty] at hm
    cases hm

/-- What `alloc_op` hands out was not in use, and it changes no op that is. -/
structure Pool.Allocated (m m' : Pool) (used : List OpPtr) (p : OpPtr) (opCount uniqueCount : ℕ) : Prop where
  fresh : p ∉ used
  holds : m'.Holds (p :: used)
  opNum : (m'.ops p).opNum = opCount
  uniqueNum : (m'.ops p).uniqueNumPerProc = uniqueCount
  valid : (m'.ops p).opPoolValid = true
  same : ∀ q ∈ used, m'.ops q = m.ops q

theorem Pool.Holds.alloc (h : m.Holds used) (hm : m.allocOp opCount uniqueCount = .ok (p, m')) :
    m.Allocated m' used p opCount uniqueCount := by
  obtain ⟨m₁, hrefill, hm⟩ := Execution.bind_eq_ok.mp hm
  obtain ⟨h₁, hhead, hsame⟩ := h.refill hrefill
  cases hnew : m₁.opPoolFreeHead with
  | none => exact absurd hnew hhead
  | some newOp =>
      rw [hnew] at hm
      obtain ⟨_, hm⟩ := Execution.ite_error_eq_ok.mp hm
      cases hm
      obtain ⟨free, hfree⟩ := h₁.free
      rw [hnew] at hfree
      obtain ⟨hfresh, free', _, htaken⟩ := hfree.take
      refine ⟨hfresh, ⟨⟨free', htaken.congr fun q hq => ?_⟩, fun q hq => ?_, ?_, h₁.limit, h₁.blocks⟩,
        ?_, ?_, ?_, fun q hq => ?_⟩
      · exact congrArg Op.opPoolNext (setOp_of_ne m₁ _ fun heq => hq (heq ▸ List.mem_cons_self ..))
      · by_cases hqp : q = p
        · subst hqp
          exact iff_of_true (congrArg Op.opPoolValid (setOp_self ..)) (List.mem_cons_self ..)
        · rw [List.mem_cons, or_iff_right hqp, ← h₁.valid q hq]
          exact iff_of_eq (congrArg (·.opPoolValid = true) (setOp_of_ne m₁ _ hqp))
      · exact congrArg (· + 1) h₁.active
      · exact congrArg Op.opNum (setOp_self ..)
      · exact congrArg Op.uniqueNumPerProc (setOp_self ..)
      · exact congrArg Op.opPoolValid (setOp_self ..)
      · rw [← hsame q hq]
        exact setOp_of_ne m₁ _ fun heq => hfresh (heq ▸ hq)

/-- `alloc_op` fails only when all ops of the largest pool are in use. -/
theorem Pool.Holds.alloc_error {msg : String} (h : m.Holds used)
    (hm : m.allocOp opCount uniqueCount = .error msg) :
    msg = growthAssertion ∧ used.length = opPoolEntriesInc * 128 := by
  cases Execution.bind_eq_error.mp hm with
  | inl hrefill => exact h.refill_error hrefill
  | inr hrest =>
      obtain ⟨m₁, hrefill, hm⟩ := hrest
      obtain ⟨h₁, hhead, _⟩ := h.refill hrefill
      cases hnew : m₁.opPoolFreeHead with
      | none => exact absurd hnew hhead
      | some newOp =>
          rw [hnew] at hm
          obtain ⟨_, hm⟩ | ⟨hvalid, _⟩ := Execution.ite_error_eq_error.mp hm
          · cases hm
          · obtain ⟨free, hfree⟩ := h₁.free
            rw [hnew] at hfree
            obtain ⟨hfresh, _, hcons, _⟩ := hfree.take
            have hlt : newOp < m₁.opPoolEntries := hfree.mem_iff.mp (.inl (hcons ▸ List.mem_cons_self ..))
            have hin := (h₁.valid newOp hlt).mp (by simpa using hvalid)
            exact absurd hin hfresh

/-- An op in use can be freed, which changes no other op. -/
theorem Pool.Holds.free_ok (h : m.Holds used) (hp : p ∈ used) : ∃ m', m.freeOp p = .ok m' ∧
    m'.Holds (used.erase p) ∧ ∀ q, q ≠ p → m'.ops q = m.ops q := by
  refine ⟨_, if_pos ((h.valid p (h.lt hp)).mpr hp), ?_, fun q hq => setOp_of_ne m _ hq⟩
  obtain ⟨free, hfree⟩ := h.free
  refine ⟨⟨p :: free, ?_⟩, fun q hq => ?_, ?_, h.limit, h.blocks⟩
  · have hnext : (fun q => ((m.setOp p { m.ops p with
        opPoolValid := false, opPoolNext := m.opPoolFreeHead }).ops q).opPoolNext) =
        Function.update (fun q => (m.ops q).opPoolNext) p m.opPoolFreeHead := by
      funext q
      by_cases hqp : q = p
      · subst hqp
        simp
      · rw [Function.update_of_ne hqp, setOp_of_ne m _ hqp]
    exact hnext ▸ hfree.give hp
  · by_cases hqp : q = p
    · subst hqp
      refine iff_of_false ?_ h.nodup.not_mem_erase
      simp
    · rw [List.mem_erase_of_ne hqp, ← h.valid q hq]
      exact iff_of_eq (congrArg (·.opPoolValid = true) (setOp_of_ne m _ hqp))
  · rw [List.length_erase_of_mem hp]
    exact congrArg (· - 1) h.active

/-- The numbers of an op. -/
structure Op.Same (op op' : Op) : Prop where
  opNum : op'.opNum = op.opNum
  uniqueNum : op'.uniqueNumPerProc = op.uniqueNumPerProc

theorem Op.Same.refl (op : Op) : op.Same op := ⟨rfl, rfl⟩

theorem Op.Same.trans {op op' op'' : Op} (h : op.Same op') (h' : op'.Same op'') : op.Same op'' :=
  ⟨h'.opNum.trans h.opNum, h'.uniqueNum.trans h.uniqueNum⟩

theorem setOp_same (h : (m.ops p).Same op) (q : OpPtr) : (m.ops q).Same ((m.setOp p op).ops q) := by
  by_cases hq : q = p
  · subst hq
    rw [setOp_self]
    exact h
  · rw [setOp_of_ne m op hq]
    exact .refl _

/-- `free_op` leaves these fields of all ops. -/
theorem freeOp_same (hm : m.freeOp p = .ok m') (q : OpPtr) : (m.ops q).Same (m'.ops q) := by
  obtain ⟨_, hm⟩ := Execution.ite_error_eq_ok.mp hm
  cases hm
  refine setOp_same ?_ q
  exact ⟨rfl, rfl⟩

end Scarab.OpPool
