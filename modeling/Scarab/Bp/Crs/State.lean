import Scarab.Core.Fetch.State

/-! # The call-return stack

`crs` of `Bp_Data`, with what `bp_predict_op` and `bp_recover_op` do to it while `ENABLE_CRS` is
set. -/

namespace Scarab.Bp

open Fetch (CfType convertToCmpAddr)
open Map (addrPlusOffset)

/-! ## The stack -/

/-- `Crs_Entry`. -/
structure CrsEntry where
  addr : Addr
  /-- The next entry on the stack. -/
  nos : ℕ
  deriving DecidableEq, Repr

/-- `Bp_Data::crs`. -/
structure Crs where
  entries : ℕ → CrsEntry
  offPath : ℕ → Bool
  depth : ℕ
  head : ℕ
  tail : ℕ
  tailSave : ℕ
  depthSave : ℕ
  tos : ℕ
  next : ℕ

structure Params where
  crsEntries : ℕ
  /-- 0 for the stack with copies, 1 for the linked stack, 2 for the plain one. -/
  crsRealistic : ℕ
  perfectCrs : Bool

/-- `Op`. -/
structure Op where
  procId : Uns8
  addr : Addr
  instSize : Addr
  cfType : CfType
  offPath : Bool
  oracleTarget : Addr
  deriving DecidableEq, Repr

/-- The part of `Recovery_Info` for the stack. -/
structure RecoveryInfo where
  crsNext : ℕ
  crsTos : ℕ
  crsDepth : ℕ
  deriving DecidableEq, Repr

/-- `CIRC_INC2`, of unsigned words. -/
def circInc2 (val pow2 : ℕ) : ℕ := (val + 1) % 2 ^ 32 &&& (pow2 + (2 ^ 32 - 1)) % 2 ^ 32

/-- `CIRC_DEC2`, of unsigned words. -/
def circDec2 (val pow2 : ℕ) : ℕ := (val + (2 ^ 32 - 1)) % 2 ^ 32 &&& (pow2 + (2 ^ 32 - 1)) % 2 ^ 32

/-- The stack that `bp_init` makes; the memory of the entries holds anything. -/
def bpInit (p : Params) (memory : ℕ → CrsEntry) : Crs where
  entries ii := if ii < p.crsEntries then { memory ii with addr := 0 } else memory ii
  offPath _ := false
  depth := 0
  head := 0
  tail := 0
  tailSave := 0
  depthSave := 0
  tos := 0
  next := 0

variable (p : Params) (procId : Uns8)

/-- Where a copy of an entry is kept. -/
def copyIndex (slot : ℕ) (flag : Bool) : ℕ := slot <<< 1 ||| flag.toNat

/-- `bp_crs_push`. -/
def bpCrsPush (crs : Crs) (op : Op) : Except String Crs :=
  let addr := addrPlusOffset op.addr op.instSize
  let index := copyIndex crs.tail op.offPath
  if procId ≠ op.procId then .error "bp_data->proc_id == op->proc_id"
  else
    let crs := { crs with
      entries := Function.update crs.entries index { crs.entries index with addr := addr }
      offPath := Function.update crs.offPath crs.tail op.offPath
      tail := circInc2 crs.tail p.crsEntries }
    let crs :=
      if crs.depth = p.crsEntries then { crs with head := circInc2 crs.head p.crsEntries }
      else { crs with depth := crs.depth + 1 }
    if p.crsEntries < crs.depth then .error "bp_data->crs.depth <= CRS_ENTRIES"
    else if op.offPath then .ok crs
    else .ok { crs with tailSave := crs.tail, depthSave := crs.depth }

/-- `bp_crs_pop`. -/
def bpCrsPop (crs : Crs) (op : Op) : Except String (Addr × Crs) :=
  let newTail := circDec2 crs.tail p.crsEntries
  let flag := crs.offPath newTail
  let addr := (crs.entries (copyIndex newTail flag)).addr
  if procId ≠ op.procId then .error "bp_data->proc_id == op->proc_id"
  else if crs.depth = 0 then .ok (if p.perfectCrs then op.oracleTarget else convertToCmpAddr procId 0, crs)
  else
    let crs := { crs with tail := newTail, depth := crs.depth - 1 }
    let crs := if op.offPath then crs else { crs with tailSave := crs.tail, depthSave := crs.depth }
    .ok (if p.perfectCrs then op.oracleTarget else addr, crs)

/-- `bp_crs_recover`. The index of the loop is a byte, so that from 256 entries on it never ends. -/
def bpCrsRecover (crs : Crs) : Except String Crs :=
  if 256 ≤ p.crsEntries then .error "the loop over the entries does not end"
  else .ok { crs with
    offPath := fun ii => if ii < p.crsEntries then false else crs.offPath ii
    tail := crs.tailSave
    depth := crs.depthSave }

/-- What is saved for a recovery. -/
def Crs.recoveryInfo (crs : Crs) : RecoveryInfo := ⟨crs.next, crs.tos, crs.depth⟩

/-- `bp_crs_realistic_push`. -/
def bpCrsRealisticPush (crs : Crs) (op : Op) : Except String Crs :=
  let addr := addrPlusOffset op.addr op.instSize
  if procId ≠ op.procId then .error "bp_data->proc_id == op->proc_id"
  else
    let crs := { crs with
      entries := Function.update crs.entries crs.next ⟨addr, crs.tos⟩
      offPath := Function.update crs.offPath crs.next op.offPath
      tos := crs.next
      next := circInc2 crs.next p.crsEntries }
    let crs := if crs.depth = p.crsEntries then crs else { crs with depth := crs.depth + 1 }
    if p.crsEntries < crs.depth then .error "bp_data->crs.depth <= CRS_ENTRIES"
    else .ok crs

/-- `bp_crs_realistic_pop`. -/
def bpCrsRealisticPop (crs : Crs) (op : Op) : Except String (Addr × Crs) :=
  let newNext := circDec2 crs.next p.crsEntries
  let newTos := (crs.entries crs.tos).nos
  if procId ≠ op.procId then .error "bp_data->proc_id == op->proc_id"
  else if p.crsRealistic ≠ 1 ∧ p.crsRealistic ≠ 2 then .error "CRS_REALISTIC"
  else
    let addr := (crs.entries (if p.crsRealistic = 1 then crs.tos else newNext)).addr
    if crs.depth = 0 then .ok (if p.perfectCrs then op.oracleTarget else convertToCmpAddr procId 0, crs)
    else .ok (if p.perfectCrs then op.oracleTarget else addr, { crs with
      next := if p.crsRealistic = 2 then newNext else crs.next
      depth := crs.depth - 1
      tos := newTos })

/-- `bp_crs_realistic_recover`. -/
def bpCrsRealisticRecover (crs : Crs) (info : RecoveryInfo) : Crs :=
  { crs with next := info.crsNext, depth := info.crsDepth, tos := info.crsTos }

/-! ## The predictor around it -/

/-- The push of `bp_predict_op`. -/
def push (crs : Crs) (op : Op) : Except String Crs :=
  if p.crsRealistic ≠ 0 then bpCrsRealisticPush p procId crs op else bpCrsPush p procId crs op

/-- The pop of `bp_predict_op`. -/
def pop (crs : Crs) (op : Op) : Except String (Addr × Crs) :=
  if p.crsRealistic ≠ 0 then bpCrsRealisticPop p procId crs op else bpCrsPop p procId crs op

/-- `bp_predict_op`: the target that is popped, if one is, and the stack after the op. The
recovery info of the op is `Crs.recoveryInfo` of that stack: it is taken before, and a push
or a pop that changes the stack takes it again. -/
def bpPredictOp (crs : Crs) (op : Op) : Except String (Option Addr × Crs) :=
  match op.cfType with
  | .call | .icall => do
      let crs ← push p procId crs op
      return (none, crs)
  | .ico => do
      let (target, crs) ← pop p procId crs op
      let crs ← push p procId crs op
      return (some target, crs)
  | .ret => do
      let (target, crs) ← pop p procId crs op
      return (some target, crs)
  | _ => .ok (none, crs)

/-- `bp_recover_op`. -/
def bpRecoverOp (crs : Crs) (info : RecoveryInfo) : Except String Crs :=
  if p.crsRealistic ≠ 0 then .ok (bpCrsRealisticRecover crs info) else bpCrsRecover p crs

/-! ## Circular positions -/

variable {p procId} {k val : ℕ}

theorem pow2_mask (hk : k < 32) : (2 ^ k + (2 ^ 32 - 1)) % 2 ^ 32 = 2 ^ k - 1 := by
  have hpos : 0 < 2 ^ k := Nat.two_pow_pos k
  have hle : 2 ^ k < 2 ^ 32 := Nat.pow_lt_pow_right (by omega) hk
  rw [show 2 ^ k + (2 ^ 32 - 1) = 2 ^ k - 1 + 2 ^ 32 by omega, Nat.add_mod_right]
  exact Nat.mod_eq_of_lt (by omega)

theorem circInc2_pow2 (hk : k < 32) (val : ℕ) : circInc2 val (2 ^ k) = (val + 1) % 2 ^ k := by
  unfold circInc2
  rw [pow2_mask hk, Nat.and_two_pow_sub_one_eq_mod]
  exact Nat.mod_mod_of_dvd _ (Nat.pow_dvd_pow 2 hk.le)

theorem circDec2_pow2 (hk : k < 32) (hval : 0 < val) : circDec2 (val % 2 ^ k) (2 ^ k) = (val - 1) % 2 ^ k := by
  unfold circDec2
  rw [pow2_mask hk, Nat.and_two_pow_sub_one_eq_mod, Nat.mod_mod_of_dvd _ (Nat.pow_dvd_pow 2 hk.le)]
  have hdvd : 2 ^ k ∣ 2 ^ 32 := Nat.pow_dvd_pow 2 hk.le
  obtain ⟨m, hm⟩ := hdvd
  have hsum : val + (2 ^ 32 - 1) = val - 1 + 2 ^ k * m := by omega
  rw [Nat.mod_add_mod, hsum, Nat.add_mul_mod_self_left]

theorem copyIndex_inj {slot slot' : ℕ} {flag flag' : Bool} :
    copyIndex slot flag = copyIndex slot' flag' ↔ slot = slot' ∧ flag = flag' := by
  have hcopy : ∀ slot (flag : Bool), copyIndex slot flag = 2 * slot + flag.toNat := by
    intro slot flag
    unfold copyIndex
    rw [Nat.shiftLeft_eq, Nat.mul_comm]
    exact (Nat.two_pow_add_eq_or_of_lt (i := 1) (Bool.toNat_lt flag) slot).symm
  rw [hcopy, hcopy]
  cases flag <;> cases flag' <;> simp <;> omega

end Scarab.Bp
