import Scarab.Core.Map.State
import Scarab.Lib.Execution

/-! # The ops of a thread

`thread.c` around the map: ops are fetched and mapped in order, the oldest one retires, and
a recovery drops the ops of a wrong path, whose storage is freed one by one afterwards. -/

namespace Scarab.Map

/-- The map, the ops in flight, and the counters of the front end. -/
structure Thread where
  map : MapData
  /-- `seq_op_list`, oldest first. -/
  seqOpList : List Op
  /-- The ops that have retired, for the history that no operation reads. -/
  retired : List Op
  /-- Ops that a recovery dropped and that wait to be freed. -/
  flushed : List Op
  opCount : ℕ
  /-- The next unique number, or a smaller one: the cores share the numbers. -/
  uniqueCount : ℕ
  /-- `ic->off_path`. -/
  offPath : Bool

/-- All ops of the current path. -/
def Thread.path (t : Thread) : List Op := t.retired ++ t.seqOpList

/-- A thread as `init_thread` leaves it. -/
def Thread.init : Thread := ⟨initMap, [], [], [], 1, 0, false⟩

/-- What happens to a thread. -/
inductive Event where
  /-- An op is fetched; it may send the front end off the path. -/
  | fetch (op : Op) (mispred : Bool)
  /-- The oldest op retires. -/
  | retire
  /-- A recovery to an op; the front end may have to stay off the path. -/
  | recover (opNum : ℕ) (forceOffpath : Bool)
  /-- A dropped op is freed. -/
  | free (op : Op)

variable (p : Params)

/-- The map after `free_op`. -/
def freeOp (m : MapData) (op : Op) : MapData :=
  if op.memType = .st then deleteStoreHashEntry m op else m

/-- The loop of `recover_seq_op_list`: keep the ops up to the recovering one. -/
def clipAt (opNum : ℕ) : List Op → Except String (List Op)
  | [] => .ok []
  | op :: rest =>
      if op.opNum ≤ opNum then
        if op.opNum = opNum then .ok [op] else return op :: (← clipAt opNum rest)
      else .error "(*op_p)->op_num <= op_num"

/-- `recover_seq_op_list`. -/
def recoverSeqOpList (seqOpList : List Op) (opNum : ℕ) : Except String (List Op) :=
  match seqOpList with
  | [] => .ok []
  | head :: _ =>
      if opNum < head.opNum then
        if head.opNum = opNum + 1 then .ok [] else .error "(*op_p)->op_num == op_num + 1"
      else clipAt opNum seqOpList

/-- The op has the next numbers and the path of the front end. -/
def Thread.Next (t : Thread) (op : Op) : Prop :=
  op.opNum = t.opCount ∧ t.uniqueCount ≤ op.uniqueNum ∧ op.offPath = t.offPath

/-- Recoveries are to fetched ops, the ops after these are a wrong path, and the front end
stays off the path if the op itself is off it. -/
structure Thread.Recovers (t : Thread) (opNum : ℕ) (forceOffpath : Bool) : Prop where
  fetched : opNum < t.opCount
  wrongPath : ∀ op ∈ t.path, opNum < op.opNum → op.offPath = true
  forced : ∀ op ∈ t.path, op.opNum = opNum → op.offPath = true → forceOffpath = true

instance (t : Thread) (op : Op) : Decidable (t.Next op) := inferInstanceAs (Decidable (_ ∧ _ ∧ _))

instance (t : Thread) (opNum : ℕ) (forceOffpath : Bool) : Decidable (t.Recovers opNum forceOffpath) :=
  decidable_of_iff (opNum < t.opCount ∧ (∀ op ∈ t.path, opNum < op.opNum → op.offPath = true) ∧
      ∀ op ∈ t.path, op.opNum = opNum → op.offPath = true → forceOffpath = true)
    ⟨fun ⟨h₁, h₂, h₃⟩ => ⟨h₁, h₂, h₃⟩, fun ⟨h₁, h₂, h₃⟩ => ⟨h₁, h₂, h₃⟩⟩

/-- The bound on the ops in flight that `add_to_seq_op_list` asserts. -/
def maxSeqOps : ℕ := 8193

def Thread.step (t : Thread) : Event → Except String Thread
  | .fetch op mispred =>
      if t.Next op then
        if (t.seqOpList ++ [op]).length < maxSeqOps then do
          let (_, m) ← threadMap p t.map op
          return { t with
            map := m, seqOpList := t.seqOpList ++ [op], opCount := op.opNum + 1
            uniqueCount := op.uniqueNum + 1, offPath := t.offPath || mispred }
        else .error "td->seq_op_list.count < 8193"
      else .error "not the next op"
  | .retire =>
      match t.seqOpList with
      | op :: rest =>
          if op.offPath then .error "!op->off_path"
          else .ok { t with
            map := freeOp t.map op, seqOpList := rest, retired := t.retired ++ [op] }
      | [] => .error "op_p"
  | .recover opNum forceOffpath =>
      if t.Recovers opNum forceOffpath then do
        let kept ← recoverSeqOpList t.seqOpList opNum
        return { t with
          map := recoverMap t.map kept, seqOpList := kept
          flushed := t.flushed ++ t.seqOpList.filter (opNum < ·.opNum), opCount := opNum + 1
          offPath := forceOffpath }
      else .error "no recovery"
  | .free op =>
      if op ∈ t.flushed then .ok { t with map := freeOp t.map op, flushed := t.flushed.erase op }
      else .error "op->op_pool_valid"

/-- Some sequence of events leads here. -/
def Reachable (t : Thread) : Prop := ∃ events, Execution.run (Thread.step p) .init events = .ok t

end Scarab.Map
