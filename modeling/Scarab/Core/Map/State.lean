import Mathlib.Logic.Function.Basic
import Scarab.Core.Map.Bytes

/-! # The dependence map

`map.c`: the maps from registers, from the last store and from the bytes of memory to the
op that writes them last, each with a half for the right path and one for the wrong path.
An op is mapped when it is fetched, and finds its sources there. -/

namespace Scarab.Map

/-- `Mem_Type`. -/
inductive MemType where
  | notMem
  | ld
  | st
  | pf
  | wh
  | evict
  deriving DecidableEq, Repr

/-- `Dep_Type`. -/
inductive DepType where
  | regData
  | memAddr
  | memData
  deriving DecidableEq, Repr

/-- What the map reads of an `Op`: its numbers, its registers and its memory access. Its
unique number identifies it. -/
structure Op where
  opNum : ℕ
  uniqueNum : ℕ
  offPath : Bool
  srcs : List ℕ
  dests : List ℕ
  memType : MemType
  va : Addr
  memSize : Uns
  deriving DecidableEq, Repr

/-- The knobs of `memory.param.def` that the map reads. -/
structure Params where
  memObeyStoreDep : Bool
  memOooStores : Bool

/-- The default of both. -/
def Params.default : Params := ⟨true, true⟩

/-- `MAX_DEPS`. -/
def maxDeps : ℕ := 128

/-- `Map_Entry`; no op is `&invalid_op`. -/
structure MapEntry where
  op : Option Op
  opNum : ℕ
  uniqueNum : ℕ
  deriving DecidableEq, Repr

/-- An entry as `init_map` leaves it. -/
def MapEntry.invalid : MapEntry := ⟨none, 0, 0⟩

def MapEntry.ofOp (op : Op) : MapEntry := ⟨some op, op.opNum, op.uniqueNum⟩

/-- `Src_Info`. -/
structure SrcInfo where
  type : DepType
  op : Option Op
  opNum : ℕ
  uniqueNum : ℕ
  deriving DecidableEq, Repr

def SrcInfo.ofEntry (type : DepType) (e : MapEntry) : SrcInfo := ⟨type, e.op, e.opNum, e.uniqueNum⟩

/-- `Mem_Map_Entry`. The bits of a byte are kept apart by the path instead of by adding the
entry size to the index. -/
structure MemMapEntry where
  /-- The last op to write the byte on a path; only looked at where `storeMask` is set. -/
  op : Fin 8 → Bool → Option Op
  /-- Off-path flags. -/
  flagMask : Fin 8 → Bool
  storeMask : Fin 8 → Bool → Bool

/-- A new entry. -/
def MemMapEntry.new : MemMapEntry := ⟨fun _ _ => none, fun _ => false, fun _ _ => false⟩

/-- `Map_Data`, without the pool of wake-up entries. -/
structure MapData where
  regMap : ℕ → Bool → MapEntry
  mapFlags : ℕ → Bool
  lastStore : Bool → MapEntry
  lastStoreFlag : Bool
  oracleMemHash : Addr → Option MemMapEntry

/-- `init_map`. -/
def initMap : MapData where
  regMap _ _ := .invalid
  mapFlags _ := false
  lastStore _ := .invalid
  lastStoreFlag := false
  oracleMemHash _ := none

variable (p : Params)

/-! ## Sources -/

/-- `add_src_from_op` and `add_src_from_map_entry`. -/
def addSrc (op : Op) (srcs : List SrcInfo) (info : SrcInfo) : Except String (List SrcInfo) :=
  if srcs.length < maxDeps then
    if info.opNum < op.opNum then .ok (srcs ++ [info]) else .error "src_op->op_num < op->op_num"
  else .error "src_num < MAX_DEPS"

/-- `read_reg_map`. -/
def readRegMap (m : MapData) (op : Op) (srcs : List SrcInfo) : Except String (List SrcInfo) :=
  op.srcs.foldlM (fun srcs id => addSrc op srcs (.ofEntry .regData (m.regMap id (m.mapFlags id)))) srcs

/-- `read_store_map`: no speculative loads. -/
def readStoreMap (m : MapData) (op : Op) (srcs : List SrcInfo) : Except String (List SrcInfo) :=
  if !p.memObeyStoreDep || p.memOooStores then .ok srcs
  else if op.memType ≠ .notMem then addSrc op srcs (.ofEntry .memAddr (m.lastStore m.lastStoreFlag))
  else .ok srcs

/-- Write one register. -/
def MapData.writeReg (op : Op) (m : MapData) (id : ℕ) : MapData :=
  { m with
    regMap := Function.update m.regMap id (Function.update (m.regMap id) op.offPath (.ofOp op))
    mapFlags := Function.update m.mapFlags id op.offPath }

/-- `update_map`. -/
def updateMap (m : MapData) (op : Op) : MapData :=
  let m := op.dests.foldl (MapData.writeReg op) m
  if op.memType = .st then
    { m with
      lastStore := Function.update m.lastStore op.offPath (.ofOp op)
      lastStoreFlag := op.offPath }
  else m

/-! ## Stores -/

/-- Write one byte of an entry. -/
def MemMapEntry.put (op : Op) (e : MemMapEntry) (byte : Fin 8) : MemMapEntry where
  op := Function.update e.op byte (Function.update (e.op byte) op.offPath (some op))
  flagMask := Function.update e.flagMask byte op.offPath
  storeMask := Function.update e.storeMask byte (Function.update (e.storeMask byte) op.offPath true)

/-- Write the bytes of one entry, which is created if need be. -/
def MapData.putEntry (op : Op) (m : MapData) (entry : Addr) : MapData :=
  { m with
    oracleMemHash := Function.update m.oracleMemHash (mapKey entry)
      (some ((bytesIn op.va op.memSize entry).foldl (MemMapEntry.put op)
        ((m.oracleMemHash (mapKey entry)).getD .new))) }

/-- `update_store_hash`. -/
def updateStoreHash (m : MapData) (op : Op) : MapData :=
  (entries op.va op.memSize).foldl (MapData.putEntry op) m

/-- Take one byte of an entry from the op, if the byte is its own. -/
def MemMapEntry.drop (op : Op) (e : MemMapEntry) (byte : Fin 8) : MemMapEntry :=
  if e.storeMask byte op.offPath = true ∧ e.op byte op.offPath = some op then
    { e with
      storeMask :=
        Function.update e.storeMask byte (Function.update (e.storeMask byte) op.offPath false) }
  else e

/-- No store supplies a byte of the entry. -/
def MemMapEntry.Unused (e : MemMapEntry) : Prop := ∀ byte off, e.storeMask byte off = false

instance (e : MemMapEntry) : Decidable e.Unused := inferInstanceAs (Decidable (∀ _ _, _))

/-- Take the bytes of one entry from the op, and delete an entry that is not used. -/
def MapData.dropEntry (op : Op) (m : MapData) (entry : Addr) : MapData :=
  match m.oracleMemHash (mapKey entry) with
  | none => m
  | some e =>
      let e := (bytesIn op.va op.memSize entry).foldl (MemMapEntry.drop op) e
      { m with
        oracleMemHash := Function.update m.oracleMemHash (mapKey entry)
          (if e.Unused then none else some e) }

/-- `delete_store_hash_entry`. -/
def deleteStoreHashEntry (m : MapData) (op : Op) : MapData :=
  (entries op.va op.memSize).foldl (MapData.dropEntry op) m

/-! ## Loads -/

/-- `BYTE_OVERLAP`, in 32 bits. -/
def byteOverlap (a₀ : Addr) (s₀ : Uns) (a₁ : Addr) (s₁ : Uns) : Bool :=
  a₀.setWidth 32 - a₁.setWidth 32 < s₁ || a₁.setWidth 32 - a₀.setWidth 32 < s₀

/-- The variables of `add_store_deps`. `marked` holds the ops whose `marked` flag is set,
which none is between two calls. -/
structure DepSearch where
  srcs : List SrcInfo
  marked : List Op
  lastSrcOp : Option Op

/-- The store that supplies a byte, if there is one. -/
def MemMapEntry.producer (e : MemMapEntry) (byte : Fin 8) : Option Op :=
  if e.storeMask byte (e.flagMask byte) then e.op byte (e.flagMask byte) else none

/-- The later of two stores. -/
def laterOf (last : Option Op) (srcOp : Op) : Option Op :=
  match last with
  | none => some srcOp
  | some l => if l.opNum < srcOp.opNum then some srcOp else some l

/-- What is done for a byte and the store that supplies it. -/
def DepSearch.found (op : Op) (v : DepSearch) (srcOp : Op) : Except String DepSearch :=
  if byteOverlap srcOp.va srcOp.memSize op.va op.memSize then do
    let v ←
      if p.memOooStores ∧ srcOp ∉ v.marked then do
        let srcs ← addSrc op v.srcs (.ofEntry .memData (.ofOp srcOp))
        pure { v with srcs, marked := v.marked ++ [srcOp] }
      else pure v
    return { v with lastSrcOp := laterOf v.lastSrcOp srcOp }
  else .error "BYTE_OVERLAP"

/-- The loop over the bytes of an access. -/
def searchStores (m : MapData) (op : Op) (v : DepSearch) : Except String DepSearch :=
  (entries op.va op.memSize).foldlM (fun v entry =>
    match m.oracleMemHash (mapKey entry) with
    | none => pure v
    | some e =>
        (bytesIn op.va op.memSize entry).foldlM (fun v byte =>
          match e.producer byte with
          | none => pure v
          | some srcOp => v.found p op srcOp) v) v

/-- `add_store_deps`: every store that supplies a byte, or the last of them only. -/
def addStoreDeps (m : MapData) (op : Op) (srcs : List SrcInfo) : Except String (List SrcInfo) := do
  let v ← searchStores p m op ⟨srcs, [], none⟩
  match v.lastSrcOp with
  | none => return v.srcs
  | some last =>
      if last.opNum < op.opNum ∨ op.offPath = true then
        if p.memOooStores then return v.srcs
        else addSrc op v.srcs (.ofEntry .memData (.ofOp last))
      else .error "last_src_op->op_num < op->op_num || op->off_path"

/-! ## Mapping -/

/-- `map_op`. -/
def mapOp (m : MapData) (op : Op) : Except String (List SrcInfo × MapData) := do
  let srcs ← readRegMap m op []
  let srcs ← readStoreMap p m op srcs
  return (srcs, updateMap m op)

/-- `map_mem_dep`. -/
def mapMemDep (m : MapData) (op : Op) (srcs : List SrcInfo) :
    Except String (List SrcInfo × MapData) := do
  if p.memObeyStoreDep then
    let m' := if op.memType = .st then updateStoreHash m op else m
    let srcs ← if op.memType = .ld then addStoreDeps p m op srcs else pure srcs
    return (srcs, m')
  else return (srcs, m)

/-- `thread_map_op` and `thread_map_mem_dep`, as the fetch stage calls them: the sources of
the op, and the map after it. -/
def threadMap (m : MapData) (op : Op) : Except String (List SrcInfo × MapData) := do
  let (srcs, m) ← mapOp p m op
  mapMemDep p m op srcs

/-! ## Recovery -/

/-- `update_map` and, for a store, `update_store_hash`. -/
def remap (m : MapData) (op : Op) : MapData :=
  let m := updateMap m op
  if op.memType = .st then updateStoreHash m op else m

/-- `rebuild_offpath_map`, from the ops in flight: all from the oldest off-path op on. -/
def rebuildOffpathMap (m : MapData) (seqOpList : List Op) : MapData :=
  (seqOpList.dropWhile fun op => !op.offPath).foldl remap m

/-- The flags of `recover_map`, before it rebuilds. -/
def clearFlags (m : MapData) : MapData :=
  { m with
    mapFlags := fun _ => false
    lastStoreFlag := false
    oracleMemHash := fun key => (m.oracleMemHash key).map fun e => { e with flagMask := fun _ => false } }

/-- `recover_map`. -/
def recoverMap (m : MapData) (seqOpList : List Op) : MapData :=
  rebuildOffpathMap (clearFlags m) seqOpList

end Scarab.Map
