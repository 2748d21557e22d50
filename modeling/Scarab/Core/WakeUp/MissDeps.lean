import Mathlib.Logic.Function.Basic
import Scarab.Core.WakeUp.State
import Scarab.Lib.Execution

/-! # Ops that depend on a miss of the L1

With `TRACK_L1_MISS_DEPS` an op in flight is marked as long as one of its producers waits for the memory or is marked
itself. `mark_l1_miss_deps` and `unmark_l1_miss_deps` go along the wake-up lists. -/

namespace Scarab.MissDeps

open WakeUp (OpPtr SrcInfo WakeUpEntry)

/-- The fields of an `Op` that the marks depend on. -/
structure Op where
  /-- `op_pool_valid`. -/
  valid : Bool
  uniqueNum : ℕ
  procId : ℕ
  /-- `table_info->mem_type == MEM_ST`. -/
  memSt : Bool
  srcInfo : List SrcInfo
  /-- From `wake_up_head` to `wake_up_tail`. -/
  wakeUpList : List WakeUpEntry
  /-- The map stage has linked the op to its sources. -/
  mapped : Bool
  l1Miss : Bool
  l1MissSatisfied : Bool
  depOnL1Miss : Bool
  wasDepOnL1Miss : Bool

/-- Storage that was never used. -/
def Op.unused : Op := ⟨false, 0, 0, false, [], [], false, false, false, false, false⟩

/-- The op has a miss that is not satisfied. -/
def Op.missing (op : Op) : Bool := op.l1Miss && !op.l1MissSatisfied

/-- What depends on the op depends on a miss. -/
def Op.marked (op : Op) : Bool := op.missing || op.depOnL1Miss

structure State where
  ops : OpPtr → Op
  /-- `op_pool_entries`. -/
  opPoolEntries : ℕ
  /-- The next unique number, or a smaller one. -/
  uniqueCount : ℕ

def State.init : State := ⟨fun _ => .unused, 0, 0⟩

def State.setOp (s : State) (p : OpPtr) (op : Op) : State := { s with ops := Function.update s.ops p op }

/-- The storage holds the op with that unique number. -/
def State.Holds (s : State) (p : OpPtr) (uniqueNum : ℕ) : Prop :=
  (s.ops p).uniqueNum = uniqueNum ∧ (s.ops p).valid = true

instance (s : State) (p : OpPtr) (uniqueNum : ℕ) : Decidable (s.Holds p uniqueNum) :=
  inferInstanceAs (Decidable (_ ∧ _))

/-! ## Marking -/

/-- What `mark_l1_miss_deps` does for one entry of a wake-up list. -/
def State.markEntry (mark : State → OpPtr → Except String State) (procId : ℕ) (s : State) (e : WakeUpEntry) :
    Except String State :=
  let depOp := s.ops e.op
  if s.Holds e.op e.uniqueNum then
    if procId ≠ depOp.procId then .error "op->proc_id == dep_op->proc_id"
    else if depOp.l1Miss = true ∧ depOp.memSt = false then
      .error "!dep_op->engine_info.l1_miss || dep_op->table_info->mem_type == MEM_ST"
    else if depOp.depOnL1Miss then .ok s
    else mark (s.setOp e.op { depOp with depOnL1Miss := true }) e.op
  else .ok s

/-- `mark_l1_miss_deps` to a depth. -/
def State.markTo : ℕ → State → OpPtr → Except String State
  | 0, _, _ => .error "depth"
  | depth + 1, s, p =>
      if (s.ops p).marked then (s.ops p).wakeUpList.foldlM (State.markEntry (State.markTo depth) (s.ops p).procId) s
      else .error "(op->engine_info.l1_miss && !op->engine_info.l1_miss_satisfied) || op->engine_info.dep_on_l1_miss"

/-- `mark_l1_miss_deps`. No op is marked twice, so the depth is bounded by the pool. -/
def State.markL1MissDeps (s : State) (p : OpPtr) : Except String State := s.markTo (s.opPoolEntries + 1) p

/-- Whether a source of an op, other than the op with that unique number, is in the machine and marked. -/
def State.stillDepOnL1Miss (s : State) (uniqueNum : ℕ) (srcs : List SrcInfo) : Bool :=
  srcs.any fun src => src.op.any fun q =>
    decide (s.Holds q src.uniqueNum) && (s.ops q).uniqueNum != uniqueNum && (s.ops q).marked

/-- What `unmark_l1_miss_deps` does for one entry of the wake-up list of `op`. -/
def State.unmarkEntry (unmark : State → OpPtr → Except String State) (op : Op) (s : State) (e : WakeUpEntry) :
    Except String State :=
  let depOp := s.ops e.op
  if s.Holds e.op e.uniqueNum then
    if op.procId ≠ depOp.procId then .error "op->proc_id == dep_op->proc_id"
    else if depOp.depOnL1Miss = false ∧ depOp.wasDepOnL1Miss = false then
      .error "dep_op->engine_info.dep_on_l1_miss || dep_op->engine_info.was_dep_on_l1_miss"
    else if depOp.depOnL1Miss = false then .ok s
    else if s.stillDepOnL1Miss op.uniqueNum depOp.srcInfo then .ok s
    else unmark (s.setOp e.op { depOp with depOnL1Miss := false, wasDepOnL1Miss := true }) e.op
  else .ok s

/-- `unmark_l1_miss_deps` to a depth. -/
def State.unmarkTo : ℕ → State → OpPtr → Except String State
  | 0, _, _ => .error "depth"
  | depth + 1, s, p =>
      let op := s.ops p
      if op.l1MissSatisfied || !op.depOnL1Miss && op.wasDepOnL1Miss then
        op.wakeUpList.foldlM (State.unmarkEntry (State.unmarkTo depth) op) s
      else .error "op->engine_info.l1_miss_satisfied || (!op->engine_info.dep_on_l1_miss && ...)"

/-- `unmark_l1_miss_deps`. -/
def State.unmarkL1MissDeps (s : State) (p : OpPtr) : Except String State := s.unmarkTo (s.opPoolEntries + 1) p

/-- What `mark_ops_as_l1_miss` does for an op of the request. -/
def State.markOpAsL1Miss (s : State) (p : OpPtr) : Except String State :=
  (s.setOp p { s.ops p with l1Miss := true }).markL1MissDeps p

/-- What `mem_adjust_matching_request` does for an op that joins a request with a miss. -/
def State.joinMiss (s : State) (p : OpPtr) (reqSatisfied : Bool) : Except String State := do
  let s ← s.markOpAsL1Miss p
  return s.setOp p { s.ops p with l1MissSatisfied := reqSatisfied || (s.ops p).l1MissSatisfied }

/-- What `mark_ops_as_l1_miss_satisfied` does for an op of the request. -/
def State.markOpAsL1MissSatisfied (s : State) (p : OpPtr) : Except String State :=
  (s.setOp p { s.ops p with l1MissSatisfied := true }).unmarkL1MissDeps p

/-! ## The pool and the wake-up lists -/

/-- The producer of a source, if it is still in the machine. -/
def State.producer (obeyRegDep : Bool) (s : State) (src : SrcInfo) : Option OpPtr :=
  if obeyRegDep = true ∨ src.type ≠ .regData then src.op.filter fun q => decide (s.Holds q src.uniqueNum) else none

/-- An op goes on the wake-up list of a producer, and depends on what the producer depends on. -/
def State.linkTo (s : State) (p q : OpPtr) (wake : WakeUpEntry) : State :=
  let s := s.setOp q { s.ops q with wakeUpList := (s.ops q).wakeUpList ++ [wake] }
  s.setOp p { s.ops p with depOnL1Miss := (s.ops p).depOnL1Miss || (s.ops q).marked }

/-- What `add_to_wake_up_lists` does for one source of the op. -/
def State.linkSource (obeyRegDep : Bool) (p : OpPtr) (s : State) (source : SrcInfo × ℕ) : Except String State :=
  match s.producer obeyRegDep source.1 with
  | some q =>
      if (s.ops p).procId ≠ (s.ops q).procId then .error "op->proc_id == src_op->proc_id"
      else .ok (s.linkTo p q ⟨p, (s.ops p).uniqueNum, source.1.type, source.2⟩)
  | none => .ok (s.setOp p { s.ops p with srcInfo := (s.ops p).srcInfo.set source.2 source.1.gone })

/-- `add_to_wake_up_lists`. -/
def State.addToWakeUpLists (obeyRegDep : Bool) (s : State) (p : OpPtr) : Except String State := do
  let s ← (s.ops p).srcInfo.zipIdx.foldlM (State.linkSource obeyRegDep p) s
  return s.setOp p { s.ops p with mapped := true }

/-- `alloc_op`, and the sources that the op is given when it is fetched. -/
def State.allocOp (s : State) (p : OpPtr) (uniqueNum procId : ℕ) (memSt : Bool) (srcs : List SrcInfo) : State :=
  { s.setOp p ⟨true, uniqueNum, procId, memSt, srcs, (s.ops p).wakeUpList, false, false, false, false, false⟩ with
    opPoolEntries := max s.opPoolEntries (p + 1)
    uniqueCount := uniqueNum + 1 }

/-- `free_op` with `free_wake_up_list`. -/
def State.freeOp (s : State) (p : OpPtr) : State := s.setOp p { s.ops p with valid := false, wakeUpList := [] }

inductive Event where
  | alloc (p : OpPtr) (uniqueNum procId : ℕ) (memSt : Bool) (srcs : List SrcInfo)
  | map (p : OpPtr)
  | miss (p : OpPtr)
  /-- The op joins a request that missed, and whose miss may be satisfied. -/
  | join (p : OpPtr) (reqSatisfied : Bool)
  | satisfy (p : OpPtr)
  | free (p : OpPtr)

/-- The op is in flight and linked to its sources. -/
def State.InFlight (s : State) (p : OpPtr) : Prop := (s.ops p).valid = true ∧ (s.ops p).mapped = true

instance (s : State) (p : OpPtr) : Decidable (s.InFlight p) := inferInstanceAs (Decidable (_ ∧ _))

def State.step (obeyRegDep : Bool) (s : State) : Event → Except String State
  | .alloc p uniqueNum procId memSt srcs =>
      if (s.ops p).valid then .error "!new_op->op_pool_valid"
      else .ok (s.allocOp p uniqueNum procId memSt srcs)
  | .map p =>
      if (s.ops p).valid = true ∧ (s.ops p).mapped = false then s.addToWakeUpLists obeyRegDep p
      else .error "mapped"
  | .miss p => if s.InFlight p then s.markOpAsL1Miss p else .error "op->op_pool_valid"
  | .join p reqSatisfied => if s.InFlight p then s.joinMiss p reqSatisfied else .error "op->op_pool_valid"
  | .satisfy p => if s.InFlight p then s.markOpAsL1MissSatisfied p else .error "op->op_pool_valid"
  | .free p => if (s.ops p).valid then .ok (s.freeOp p) else .error "op->op_pool_valid"

end Scarab.MissDeps
