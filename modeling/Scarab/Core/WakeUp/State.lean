import Mathlib.Logic.Function.Basic
import Scarab.Core.Map.State
import Scarab.Lib.Execution

/-! # Wake-up lists

The second half of `map.c`: an op in the pool keeps the list of the ops that wait for it. The
map stage links an op to its producers, a producer that fires clears the bits of its consumers,
and the storage of an op is used again after the op was freed. -/

namespace Scarab.WakeUp

open Map (DepType)

/-- A pointer into the op pool. -/
abbrev OpPtr := ℕ

/-- `Src_Info`; no op is `&invalid_op`, which is never valid. -/
structure SrcInfo where
  type : DepType
  op : Option OpPtr
  uniqueNum : ℕ
  deriving DecidableEq, Repr

/-- The source op must have retired already. -/
def SrcInfo.gone (src : SrcInfo) : SrcInfo := { src with op := none }

/-- `Wake_Up_Entry`. -/
structure WakeUpEntry where
  op : OpPtr
  uniqueNum : ℕ
  depType : DepType
  rdyBit : ℕ
  deriving DecidableEq, Repr

/-- The fields of an `Op` that wake-ups read and write. -/
structure Op where
  /-- `op_pool_valid`. -/
  valid : Bool
  uniqueNum : ℕ
  srcInfo : List SrcInfo
  srcsNotRdyVector : BitVec 32
  /-- From `wake_up_head` to `wake_up_tail`. -/
  wakeUpList : List WakeUpEntry
  wakeUpSignaled : DepType → Bool
  /-- How many of its sources the map stage has gone through. -/
  linked : ℕ

/-- Storage that was never used. -/
def Op.unused : Op := ⟨false, 0, [], 0, [], fun _ => false, 0⟩

/-- What happened, by the unique numbers of the ops. -/
inductive Note where
  | fired (uniqueNum : ℕ) (type : DepType)
  | cleared (uniqueNum : ℕ) (bit : ℕ)
  /-- The wake action was called on a source of the consumer. -/
  | woken (producer consumer : ℕ) (bit : ℕ)
  deriving DecidableEq, Repr

structure State where
  ops : OpPtr → Op
  /-- The next unique number, or a smaller one. -/
  uniqueCount : ℕ
  /-- What happened so far, for the laws; no operation reads it. -/
  log : List Note

def State.init : State := ⟨fun _ => .unused, 0, []⟩

def State.setOp (s : State) (p : OpPtr) (op : Op) : State :=
  { s with ops := Function.update s.ops p op }

def State.note (s : State) (n : Note) : State := { s with log := s.log ++ [n] }

/-! ## Bits -/

/-- `set_not_rdy_bit`. -/
def setNotRdyBit (vector : BitVec 32) (bit : ℕ) : BitVec 32 := vector ||| (1#32 <<< bit)

/-- `test_not_rdy_bit`. The shift of an `int` has no meaning in C from 32 on. -/
def Op.testNotRdyBit (op : Op) (bit : ℕ) : Except String Bool :=
  if bit < op.srcInfo.length then .ok (0 < op.srcsNotRdyVector &&& (1#32 <<< bit))
  else .error "bit < op->oracle_info.num_srcs"

/-- `clear_not_rdy_bit`. -/
def State.clearNotRdyBit (s : State) (p : OpPtr) (bit : ℕ) : Except String State :=
  let op := s.ops p
  if bit < op.srcInfo.length then
    .ok ((s.setOp p { op with srcsNotRdyVector := op.srcsNotRdyVector &&& ~~~(1#32 <<< bit) }).note
      (.cleared op.uniqueNum bit))
  else .error "bit < op->oracle_info.num_srcs"

/-- The call of the wake action, which touches none of the fields here. -/
def State.wakeAction (s : State) (src dep : OpPtr) (bit : ℕ) : State :=
  s.note (.woken (s.ops src).uniqueNum (s.ops dep).uniqueNum bit)

/-! ## Firing -/

/-- The storage still holds the op of the entry. -/
def State.Current (s : State) (e : WakeUpEntry) : Prop :=
  (s.ops e.op).uniqueNum = e.uniqueNum ∧ (s.ops e.op).valid = true

instance (s : State) (e : WakeUpEntry) : Decidable (s.Current e) := inferInstanceAs (Decidable (_ ∧ _))

/-- What `wake_up_ops` does for one entry. -/
def State.wakeEntry (p : OpPtr) (type : DepType) (s : State) (e : WakeUpEntry) : Except String State :=
  if e.depType ≠ type then .ok s
  else if s.Current e then do
    if ← (s.ops e.op).testNotRdyBit e.rdyBit then
      let s ← s.clearNotRdyBit e.op e.rdyBit
      return s.wakeAction p e.op e.rdyBit
    else return s
  else .ok s

/-- The op has fired the type. -/
def State.signal (s : State) (p : OpPtr) (type : DepType) : State :=
  let op := s.ops p
  (s.setOp p { op with wakeUpSignaled := Function.update op.wakeUpSignaled type true }).note
    (.fired op.uniqueNum type)

/-- `wake_up_ops`, without replays. -/
def State.wakeUpOps (s : State) (p : OpPtr) (type : DepType) : Except String State :=
  if (s.ops p).wakeUpSignaled type = false then do
    let s ← (s.ops p).wakeUpList.foldlM (State.wakeEntry p type) s
    return s.signal p type
  else .error "!op->wake_up_signaled[type] || op->replay"

/-! ## Mapping -/

/-- The producer of a source, if it is still in the machine. -/
def State.producer (obeyRegDep : Bool) (s : State) (src : SrcInfo) : Option OpPtr :=
  if obeyRegDep = true ∨ src.type ≠ .regData then
    src.op.filter fun q => (s.ops q).valid && (s.ops q).uniqueNum == src.uniqueNum
  else none

/-- What `add_to_wake_up_lists` does for one source of the op. -/
def State.linkSource (obeyRegDep : Bool) (p : OpPtr) (s : State) (source : SrcInfo × ℕ) :
    Except String State := do
  let (src, ii) := source
  let s ← match s.producer obeyRegDep src with
    | some q =>
        let srcOp := s.ops q
        let wake : WakeUpEntry := ⟨p, (s.ops p).uniqueNum, src.type, ii⟩
        let s := s.setOp q { srcOp with wakeUpList := srcOp.wakeUpList ++ [wake] }
        if srcOp.wakeUpSignaled src.type then do
          let s ← s.clearNotRdyBit p ii
          pure (s.wakeAction q p ii)
        else pure s
    | none =>
        let op := s.ops p
        (s.setOp p { op with srcInfo := op.srcInfo.set ii src.gone }).clearNotRdyBit p ii
  return s.setOp p { s.ops p with linked := ii + 1 }

/-- `add_to_wake_up_lists`. -/
def State.addToWakeUpLists (obeyRegDep : Bool) (s : State) (p : OpPtr) : Except String State :=
  (s.ops p).srcInfo.zipIdx.foldlM (State.linkSource obeyRegDep p) s

/-! ## The pool -/

/-- `alloc_op`, and the sources that the op is given when it is fetched, each with its bit set. -/
def State.allocOp (s : State) (p : OpPtr) (uniqueNum : ℕ) (srcs : List SrcInfo) : State :=
  { s.setOp p { s.ops p with
      valid := true, uniqueNum, srcInfo := srcs
      srcsNotRdyVector := (List.range srcs.length).foldl setNotRdyBit 0
      wakeUpSignaled := fun _ => false, linked := 0 } with
    uniqueCount := uniqueNum + 1 }

/-- `free_op` with `free_wake_up_list`. -/
def State.freeOp (s : State) (p : OpPtr) : State :=
  s.setOp p { s.ops p with valid := false, wakeUpList := [] }

inductive Event where
  /-- An op is fetched. -/
  | alloc (p : OpPtr) (uniqueNum : ℕ) (srcs : List SrcInfo)
  /-- The map stage links the op, once. -/
  | map (p : OpPtr)
  | fire (p : OpPtr) (type : DepType)
  /-- The op retires or is flushed. -/
  | free (p : OpPtr)

def State.step (obeyRegDep : Bool) (s : State) : Event → Except String State
  | .alloc p uniqueNum srcs =>
      if (s.ops p).valid = false then
        if s.uniqueCount ≤ uniqueNum then .ok (s.allocOp p uniqueNum srcs)
        else .error "unique_num"
      else .error "!new_op->op_pool_valid"
  | .map p =>
      if (s.ops p).valid = true ∧ (s.ops p).linked = 0 then s.addToWakeUpLists obeyRegDep p
      else .error "mapped"
  | .fire p type =>
      if (s.ops p).valid = true then s.wakeUpOps p type else .error "op->op_pool_valid"
  | .free p => if (s.ops p).valid = true then .ok (s.freeOp p) else .error "op->op_pool_valid"

def Reachable (obeyRegDep : Bool) (s : State) : Prop :=
  ∃ events, Execution.run (State.step obeyRegDep) .init events = .ok s

end Scarab.WakeUp
