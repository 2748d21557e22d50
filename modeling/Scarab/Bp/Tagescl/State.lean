import Mathlib.Algebra.Group.Nat.Defs
import Mathlib.Data.Int.Notation
import Mathlib.Data.Nat.Notation
import Mathlib.Logic.Function.Basic
import Scarab.Lib.Execution

/-! # The histories of TAGE-SC-L

The speculative state of the predictor: the histories of TAGE and of the statistical corrector, and
what every branch in flight remembers of them. The prediction tables, which are only written when a
branch is committed, and the loop predictor are left out: no history depends on them. -/

namespace Scarab.Bp.Tagescl

/-- `Branch_Type`. -/
structure BranchType where
  isConditional : Bool
  isIndirect : Bool
  deriving DecidableEq, Repr

/-- What the calls for one branch say about it. -/
structure Branch where
  pc : BitVec 64
  target : BitVec 64
  type : BranchType
  deriving DecidableEq, Repr

/-- The constants of a configuration. Those of the two configurations of the predictor turn on the
statistical corrector with its local histories and IMLI. -/
structure Config where
  maxHistorySize : ℕ
  /-- `Tage_History_Sizes`, which are computed in floating point. -/
  historySizes : List ℕ
  historySizes_le : ∀ size ∈ historySizes, size ≤ maxHistorySize
  logEntriesPerBank : ℕ
  firstLongHistoryTable : ℕ
  shortHistoryTagBits : ℕ
  longHistoryTagBits : ℕ
  logEntriesPerBank_pos : 0 < logEntriesPerBank
  shortHistoryTagBits_gt : 1 < shortHistoryTagBits
  longHistoryTagBits_gt : 1 < longHistoryTagBits
  pathHistoryWidth : ℕ
  firstLocalHistoryLogTableSize : ℕ
  firstLocalHistoryShift : ℕ
  secondLocalHistoryLogTableSize : ℕ
  secondLocalHistoryShift : ℕ
  thirdLocalHistoryLogTableSize : ℕ
  thirdLocalHistoryShift : ℕ
  imliCounterWidth : ℕ
  scPathHistoryWidth : ℕ

/-- `TAGE_SC_L_CONFIG_64KB`. `TAGE_SC_L_CONFIG_80KB` has the same constants here. -/
def config64KB : Config where
  maxHistorySize := 3000
  historySizes := [6, 9, 12, 18, 26, 37, 54, 78, 112, 161, 232, 335, 482, 695, 1002, 1444, 2081, 3000]
  historySizes_le := by simp
  logEntriesPerBank := 10
  firstLongHistoryTable := 13
  shortHistoryTagBits := 8
  longHistoryTagBits := 12
  logEntriesPerBank_pos := Nat.succ_pos 9
  shortHistoryTagBits_gt := Nat.lt_add_left 6 (Nat.lt_succ_self 1)
  longHistoryTagBits_gt := Nat.lt_add_left 10 (Nat.lt_succ_self 1)
  pathHistoryWidth := 27
  firstLocalHistoryLogTableSize := 8
  firstLocalHistoryShift := 2
  secondLocalHistoryLogTableSize := 4
  secondLocalHistoryShift := 5
  thirdLocalHistoryLogTableSize := 4
  thirdLocalHistoryShift := 10
  imliCounterWidth := 8
  scPathHistoryWidth := 27

/-! ## The history register -/

/-- The loop of `get_min_num_bits_to_represent`. -/
def minNumBits (x : ℕ) : ℕ → ℕ → ℕ
  | 0, numBits => numBits
  | fuel + 1, numBits => if x ≤ 2 ^ numBits then numBits else minNumBits x fuel (numBits + 1)

/-- `get_min_num_bits_to_represent`. -/
def getMinNumBitsToRepresent (x : ℕ) : ℕ := minNumBits x x 1

/-- `Long_History_Register`. Masking the head is taking it modulo the size, a power of two. -/
structure LongHistoryRegister where
  numSpeculativeBits : ℕ
  historyBits : ℕ → Bool
  head : ℤ
  bufferSize : ℕ
  maxNumSpeculativeBits : ℕ

def LongHistoryRegister.init (historySize maxInFlightBranches : ℕ) : LongHistoryRegister :=
  let bufferSize := 2 ^ getMinNumBitsToRepresent (historySize + maxInFlightBranches)
  ⟨0, fun _ => false, 0, bufferSize, bufferSize - historySize⟩

/-- `operator[]`. -/
def LongHistoryRegister.bit (r : LongHistoryRegister) (i : ℕ) : Bool :=
  r.historyBits ((r.head + i) % r.bufferSize).toNat

/-- `push_bit`. -/
def LongHistoryRegister.pushBit (r : LongHistoryRegister) (bit : Bool) : Except String LongHistoryRegister :=
  let head := r.head - 1
  let r := { r with
    head
    historyBits := Function.update r.historyBits (head % r.bufferSize).toNat bit
    numSpeculativeBits := r.numSpeculativeBits + 1 }
  if r.numSpeculativeBits ≤ r.maxNumSpeculativeBits then .ok r
  else .error "assert: num_speculative_bits_ <= max_num_speculative_bits_"

/-- `rewind`. -/
def LongHistoryRegister.rewind (r : LongHistoryRegister) (numRewindBits : ℕ) :
    Except String LongHistoryRegister :=
  if 0 < numRewindBits ∧ numRewindBits ≤ r.numSpeculativeBits then
    .ok { r with
      numSpeculativeBits := r.numSpeculativeBits - numRewindBits
      head := r.head + numRewindBits }
  else .error "assert: num_rewind_bits <= num_speculative_bits_"

/-- `retire`. -/
def LongHistoryRegister.retire (r : LongHistoryRegister) (numRetireBits : ℕ) :
    Except String LongHistoryRegister :=
  if 0 < numRetireBits ∧ numRetireBits ≤ r.numSpeculativeBits then
    .ok { r with numSpeculativeBits := r.numSpeculativeBits - numRetireBits }
  else .error "assert: num_retire_bits <= num_speculative_bits_"

/-! ## Folded histories -/

/-- `Folded_History`. Its value is masked to the compressed length, so that no shift overflows. -/
structure FoldedHistory where
  currentValue : ℕ
  originalLength : ℕ
  compressedLength : ℕ
  outpoint : ℕ
  deriving DecidableEq, Repr

def FoldedHistory.init (originalLength compressedLength : ℕ) : FoldedHistory :=
  ⟨0, originalLength, compressedLength, originalLength % compressedLength⟩

/-- `update`, with the two bits that it reads. -/
def FoldedHistory.shiftIn (f : FoldedHistory) (first last : Bool) : FoldedHistory :=
  let value := (f.currentValue <<< 1) ^^^ first.toNat
  let value := value ^^^ (last.toNat <<< f.outpoint)
  let value := value ^^^ (value >>> f.compressedLength)
  { f with currentValue := value &&& (2 ^ f.compressedLength - 1) }

/-- `update_reverse`, with the two bits that it reads. -/
def FoldedHistory.shiftOut (f : FoldedHistory) (first last : Bool) : FoldedHistory :=
  let value := f.currentValue ^^^ first.toNat
  let value := value ^^^ (last.toNat <<< f.outpoint)
  let value := ((value &&& 1) <<< (f.compressedLength - 1)) ||| (value >>> 1)
  { f with currentValue := value &&& (2 ^ f.compressedLength - 1) }

/-- `update`. -/
def FoldedHistory.update (r : LongHistoryRegister) (f : FoldedHistory) : FoldedHistory :=
  f.shiftIn (r.bit 0) (r.bit f.originalLength)

/-- `update_reverse`. -/
def FoldedHistory.updateReverse (r : LongHistoryRegister) (f : FoldedHistory) : FoldedHistory :=
  f.shiftOut (r.bit 0) (r.bit f.originalLength)

/-! ## The histories of TAGE -/

/-- The part of `Tage_Prediction_Info` that recovers the histories. -/
structure TagePredictionInfo where
  numGlobalHistoryBits : ℕ
  globalHistoryHeadCheckpoint : ℤ
  pathHistoryCheckpoint : BitVec 64

/-- `Tage_Histories`. -/
structure TageHistories where
  historyRegister : LongHistoryRegister
  foldedHistoriesForIndices : List FoldedHistory
  foldedHistoriesForTags0 : List FoldedHistory
  foldedHistoriesForTags1 : List FoldedHistory
  pathHistory : BitVec 64

variable (cfg : Config)

/-- `Tage_Tag_Bits`. -/
def Config.tagBits (i : ℕ) : ℕ :=
  if 2 * i + 1 < cfg.firstLongHistoryTable then cfg.shortHistoryTagBits else cfg.longHistoryTagBits

/-- The original and compressed lengths of a family of folded histories, by its `i`th compressed
length. -/
def Config.lengths (compressed : ℕ → ℕ) : List (ℕ × ℕ) :=
  cfg.historySizes.mapIdx fun i size => (size, compressed i)

def Config.indexLengths : List (ℕ × ℕ) := cfg.lengths fun _ => cfg.logEntriesPerBank

def Config.tag0Lengths : List (ℕ × ℕ) := cfg.lengths cfg.tagBits

def Config.tag1Lengths : List (ℕ × ℕ) := cfg.lengths fun i => cfg.tagBits i - 1

/-- `intialize_folded_history`, on one family. -/
def foldedInit (lengths : List (ℕ × ℕ)) : List FoldedHistory :=
  lengths.map fun length => .init length.1 length.2

def TageHistories.init (maxInFlightBranches : ℕ) : TageHistories where
  historyRegister := .init cfg.maxHistorySize maxInFlightBranches
  foldedHistoriesForIndices := foldedInit cfg.indexLengths
  foldedHistoriesForTags0 := foldedInit cfg.tag0Lengths
  foldedHistoriesForTags1 := foldedInit cfg.tag1Lengths
  pathHistory := 0

/-- `num_bit_inserts`. -/
def BranchType.numBitInserts (type : BranchType) : ℕ := if type.isIndirect && !type.isConditional then 3 else 2

/-- `pc_dir_hash`, an `int`. -/
def Branch.pcDirHash (br : Branch) (branchDir : Bool) : BitVec 32 :=
  let hash := ((br.pc ^^^ (br.pc >>> 2)) ^^^ (BitVec.ofBool branchDir).setWidth 64).setWidth 32
  if (br.type.isIndirect && br.type.isConditional) && branchDir then
    (hash.signExtend 64 ^^^ (br.target >>> 2)).setWidth 32
  else hash

/-- `path_hash`, an `int`. -/
def Branch.pathHash (br : Branch) (branchDir : Bool) : BitVec 32 :=
  let hash := (br.pc ^^^ (br.pc >>> 2) ^^^ (br.pc >>> 4)).setWidth 32
  if (br.type.isIndirect && br.type.isConditional) && branchDir then
    (hash.signExtend 64 ^^^ (br.target >>> 2) ^^^ (br.target >>> 4)).setWidth 32
  else hash

/-- `path_history_ = (path_history_ << 1) ^ (path_hash & 127)`, and `path_hash >>= 1`, so many times. -/
def pushPath : ℕ → BitVec 32 → BitVec 64 → BitVec 64
  | 0, _, path => path
  | n + 1, hash, path => pushPath n (hash.sshiftRight 1) ((path <<< 1) ^^^ (hash &&& 127).setWidth 64)

/-- `path & ((1 << width) - 1)`. -/
def maskPath (width : ℕ) (path : BitVec 64) : BitVec 64 := path &&& (1 <<< width - 1)

/-- The bits that the loop of `push_into_history` inserts, the first one first. -/
def insertedBits : ℕ → BitVec 32 → List Bool
  | 0, _ => []
  | n + 1, hash => (hash &&& 1 != 0) :: insertedBits n (hash.sshiftRight 1)

/-- One round of the loop of `push_into_history`, on the register and what is folded of it. -/
def TageHistories.pushBit (t : TageHistories) (bit : Bool) : Except String TageHistories := do
  let register ← t.historyRegister.pushBit bit
  return { t with
    historyRegister := register
    foldedHistoriesForIndices := t.foldedHistoriesForIndices.map (.update register)
    foldedHistoriesForTags0 := t.foldedHistoriesForTags0.map (.update register)
    foldedHistoriesForTags1 := t.foldedHistoriesForTags1.map (.update register) }

def TageHistories.pushBits (t : TageHistories) (bits : List Bool) : Except String TageHistories :=
  bits.foldlM TageHistories.pushBit t

/-- `push_into_history`. The path history is not read by the rest of the loop. -/
def TageHistories.pushIntoHistory (t : TageHistories) (br : Branch) (branchDir : Bool) :
    Except String (TagePredictionInfo × TageHistories) := do
  let numBitInserts := br.type.numBitInserts
  let info : TagePredictionInfo := ⟨numBitInserts, t.historyRegister.head, t.pathHistory⟩
  let pathHistory := pushPath numBitInserts (br.pathHash branchDir) t.pathHistory
  let t ← t.pushBits (insertedBits numBitInserts (br.pcDirHash branchDir))
  return (info, { t with pathHistory := maskPath cfg.pathHistoryWidth pathHistory })

/-- The loop of `Tage::global_recover_speculative_state`. -/
def TageHistories.rewindBits : ℕ → TageHistories → Except String TageHistories
  | 0, t => .ok t
  | n + 1, t => do
      let register ← t.historyRegister.rewind 1
      TageHistories.rewindBits n { t with
        historyRegister := register
        foldedHistoriesForIndices := t.foldedHistoriesForIndices.map (.updateReverse t.historyRegister)
        foldedHistoriesForTags0 := t.foldedHistoriesForTags0.map (.updateReverse t.historyRegister)
        foldedHistoriesForTags1 := t.foldedHistoriesForTags1.map (.updateReverse t.historyRegister) }

/-- `Tage::global_recover_speculative_state`. -/
def TageHistories.globalRecoverSpeculativeState (t : TageHistories) (info : TagePredictionInfo) :
    Except String TageHistories := do
  let numFlushedBits := info.globalHistoryHeadCheckpoint - t.historyRegister.head
  let t ← t.rewindBits numFlushedBits.toNat
  return { t with pathHistory := info.pathHistoryCheckpoint }

/-! ## The histories of the statistical corrector -/

/-- `SC_Histories_Snapshot`. -/
structure ScHistoriesSnapshot where
  globalHistory : BitVec 64
  path : BitVec 64
  firstLocalHistory : BitVec 64
  secondLocalHistory : BitVec 64
  thirdLocalHistory : BitVec 64
  imliCounter : Fin (2 ^ cfg.imliCounterWidth)
  imliLocalHistory : BitVec 64

/-- The histories of `Statistical_Corrector`. -/
structure ScHistories where
  globalHistory : BitVec 64
  path : BitVec 64
  firstLocalHistoryTable : ℕ → BitVec 64
  secondLocalHistoryTable : ℕ → BitVec 64
  thirdLocalHistoryTable : ℕ → BitVec 64
  imliCounter : Fin (2 ^ cfg.imliCounterWidth)
  imliTable : Fin (2 ^ cfg.imliCounterWidth) → BitVec 64

def ScHistories.init : ScHistories cfg where
  globalHistory := 0
  path := 0
  firstLocalHistoryTable := fun _ => 0
  secondLocalHistoryTable := fun _ => 0
  thirdLocalHistoryTable := fun _ => 0
  imliCounter := ⟨0, Nat.two_pow_pos _⟩
  imliTable := fun _ => 0

/-- `Local_History_Table::get_index`. -/
def getIndex (logTableSize pcShift : ℕ) (brPc : BitVec 64) : ℕ := (brPc ^^^ (brPc >>> pcShift)).toNat % 2 ^ logTableSize

def Config.firstIndex (brPc : BitVec 64) : ℕ := getIndex cfg.firstLocalHistoryLogTableSize cfg.firstLocalHistoryShift brPc

def Config.secondIndex (brPc : BitVec 64) : ℕ :=
  getIndex cfg.secondLocalHistoryLogTableSize cfg.secondLocalHistoryShift brPc

def Config.thirdIndex (brPc : BitVec 64) : ℕ := getIndex cfg.thirdLocalHistoryLogTableSize cfg.thirdLocalHistoryShift brPc

variable {cfg}

/-- `increment` of the counter. -/
def increment (counter : Fin (2 ^ cfg.imliCounterWidth)) : Fin (2 ^ cfg.imliCounterWidth) :=
  if h : counter.val + 1 < 2 ^ cfg.imliCounterWidth then ⟨counter.val + 1, h⟩ else counter

/-- The snapshot that `update_speculative_state` takes. -/
def ScHistories.snapshot (sc : ScHistories cfg) (brPc : BitVec 64) : ScHistoriesSnapshot cfg where
  globalHistory := sc.globalHistory
  path := sc.path
  firstLocalHistory := sc.firstLocalHistoryTable (cfg.firstIndex brPc)
  secondLocalHistory := sc.secondLocalHistoryTable (cfg.secondIndex brPc)
  thirdLocalHistory := sc.thirdLocalHistoryTable (cfg.thirdIndex brPc)
  imliCounter := sc.imliCounter
  imliLocalHistory := sc.imliTable sc.imliCounter

/-- `(history << 1) + resolve_dir`. -/
def shiftDir (history : BitVec 64) (resolveDir : Bool) : BitVec 64 :=
  (history <<< 1) + (BitVec.ofBool resolveDir).setWidth 64

/-- What `update_speculative_state` does for a conditional branch. -/
def ScHistories.updateConditional (sc : ScHistories cfg) (br : Branch) (resolveDir : Bool) : ScHistories cfg :=
  let backward := decide (br.target < br.pc)
  let first := cfg.firstIndex br.pc
  let second := cfg.secondIndex br.pc
  let third := cfg.thirdIndex br.pc
  { sc with
    imliTable := Function.update sc.imliTable sc.imliCounter (shiftDir (sc.imliTable sc.imliCounter) resolveDir)
    imliCounter :=
      if backward then if resolveDir then increment sc.imliCounter else ⟨0, Nat.two_pow_pos _⟩ else sc.imliCounter
    globalHistory := shiftDir sc.globalHistory (resolveDir && backward)
    firstLocalHistoryTable := Function.update sc.firstLocalHistoryTable first
      (shiftDir (sc.firstLocalHistoryTable first) resolveDir)
    secondLocalHistoryTable := Function.update sc.secondLocalHistoryTable second
      (shiftDir (sc.secondLocalHistoryTable second) resolveDir ^^^ (br.pc &&& 15))
    thirdLocalHistoryTable := Function.update sc.thirdLocalHistoryTable third
      (shiftDir (sc.thirdLocalHistoryTable third) resolveDir) }

/-- `Statistical_Corrector::update_speculative_state`, but for the snapshot. -/
def ScHistories.updateSpeculativeState (sc : ScHistories cfg) (br : Branch) (resolveDir : Bool) : ScHistories cfg :=
  let sc := if br.type.isConditional then sc.updateConditional br resolveDir else sc
  { sc with path := maskPath cfg.scPathHistoryWidth (pushPath br.type.numBitInserts (br.pathHash resolveDir) sc.path) }

/-- `Statistical_Corrector::global_recover_speculative_state`. -/
def ScHistories.globalRecoverSpeculativeState (sc : ScHistories cfg) (snapshot : ScHistoriesSnapshot cfg) :
    ScHistories cfg :=
  { sc with globalHistory := snapshot.globalHistory, path := snapshot.path }

/-- `Statistical_Corrector::local_recover_speculative_state`. -/
def ScHistories.localRecoverSpeculativeState (sc : ScHistories cfg) (brPc : BitVec 64)
    (snapshot : ScHistoriesSnapshot cfg) : ScHistories cfg :=
  { sc with
    firstLocalHistoryTable := Function.update sc.firstLocalHistoryTable (cfg.firstIndex brPc) snapshot.firstLocalHistory
    secondLocalHistoryTable :=
      Function.update sc.secondLocalHistoryTable (cfg.secondIndex brPc) snapshot.secondLocalHistory
    thirdLocalHistoryTable := Function.update sc.thirdLocalHistoryTable (cfg.thirdIndex brPc) snapshot.thirdLocalHistory
    imliCounter := snapshot.imliCounter
    imliTable := Function.update sc.imliTable snapshot.imliCounter snapshot.imliLocalHistory }

/-! ## The branches in flight -/

/-- `Circular_Buffer`. -/
structure CircularBuffer (α : Type) where
  buffer : ℕ → α
  bufferSize : ℕ
  back : ℤ
  front : ℤ
  size : ℤ

variable {α : Type}

def CircularBuffer.init (maxSize : ℕ) (uninitialized : ℕ → α) : CircularBuffer α :=
  ⟨uninitialized, 2 ^ getMinNumBitsToRepresent maxSize, -1, 0, 0⟩

def CircularBuffer.slot (b : CircularBuffer α) (id : ℤ) : ℕ := (id % b.bufferSize).toNat

/-- `operator[]`. -/
def CircularBuffer.get (b : CircularBuffer α) (id : ℤ) : Except String α :=
  if b.front ≤ id ∧ id ≤ b.back then .ok (b.buffer (b.slot id)) else .error "assert: id >= front_ && id <= back_"

/-- Writing through `operator[]`. -/
def CircularBuffer.set (b : CircularBuffer α) (id : ℤ) (a : α) : Except String (CircularBuffer α) :=
  if b.front ≤ id ∧ id ≤ b.back then .ok { b with buffer := Function.update b.buffer (b.slot id) a }
  else .error "assert: id >= front_ && id <= back_"

/-- `deallocate_after`. -/
def CircularBuffer.deallocateAfter (b : CircularBuffer α) (deallocId : ℤ) : Except String (CircularBuffer α) :=
  if b.front ≤ deallocId ∧ deallocId ≤ b.back then
    .ok { b with size := b.size - (b.back - deallocId), back := deallocId }
  else .error "assert: dealloc_id >= front_ && dealloc_id <= back_"

/-- `allocate_back`. -/
def CircularBuffer.allocateBack (b : CircularBuffer α) : Except String (ℤ × CircularBuffer α) :=
  if b.size < b.bufferSize then .ok (b.back + 1, { b with back := b.back + 1, size := b.size + 1 })
  else .error "assert: size_ < buffer_size_"

/-- `deallocate_front`. -/
def CircularBuffer.deallocateFront (b : CircularBuffer α) (popId : ℤ) : Except String (CircularBuffer α) :=
  if popId = b.front ∧ 0 < b.size then .ok { b with front := b.front + 1, size := b.size - 1 }
  else .error "assert: pop_id == front_ && size_ > 0"

/-- The part of `Tage_SC_L_Prediction_Info` that recovers the histories. -/
structure PredictionInfo (cfg : Config) where
  tage : TagePredictionInfo
  sc : ScHistoriesSnapshot cfg
  brPc : BitVec 64

/-- `Tage_SC_L`. -/
structure TageScL (cfg : Config) where
  tage : TageHistories
  statisticalCorrector : ScHistories cfg
  predictionInfoBuffer : CircularBuffer (PredictionInfo cfg)

def TageScL.init (maxInFlightBranches : ℕ) (uninitialized : ℕ → PredictionInfo cfg) : TageScL cfg :=
  ⟨.init cfg maxInFlightBranches, .init cfg, .init maxInFlightBranches uninitialized⟩

/-- `get_new_branch_id`. -/
def TageScL.getNewBranchId (s : TageScL cfg) : Except String (ℤ × TageScL cfg) := do
  let (branchId, buffer) ← s.predictionInfoBuffer.allocateBack
  return (branchId, { s with predictionInfoBuffer := buffer })

/-- `update_speculative_state`, with the program counter that it stores. -/
def TageScL.update (s : TageScL cfg) (branchId : ℤ) (brPc : BitVec 64) (br : Branch) (branchDir : Bool) :
    Except String (TageScL cfg) := do
  let (info, tage) ← s.tage.pushIntoHistory cfg br branchDir
  let snapshot := s.statisticalCorrector.snapshot br.pc
  let buffer ← s.predictionInfoBuffer.set branchId ⟨info, snapshot, brPc⟩
  return ⟨tage, s.statisticalCorrector.updateSpeculativeState br branchDir, buffer⟩

/-- `update_speculative_state`. -/
def TageScL.updateSpeculativeState (s : TageScL cfg) (branchId : ℤ) (br : Branch) (branchDir : Bool) :
    Except String (TageScL cfg) :=
  s.update branchId br.pc br branchDir

/-- `commit_state`, which uses what is remembered of a conditional branch to train the tables. -/
def TageScL.commitState (s : TageScL cfg) (branchId : ℤ) (br : Branch) : Except String (TageScL cfg) :=
  if br.type.isConditional then do
    let _ ← s.predictionInfoBuffer.get branchId
    return s
  else .ok s

/-- `commit_state_at_retire`. -/
def TageScL.commitStateAtRetire (s : TageScL cfg) (branchId : ℤ) : Except String (TageScL cfg) := do
  let info ← s.predictionInfoBuffer.get branchId
  let register ← s.tage.historyRegister.retire info.tage.numGlobalHistoryBits
  let buffer ← s.predictionInfoBuffer.deallocateFront branchId
  return { s with tage.historyRegister := register, predictionInfoBuffer := buffer }

/-- The loop of `flush_branch_and_repair_state`, from the youngest branch on. -/
def localRecover (buffer : CircularBuffer (PredictionInfo cfg)) :
    ℕ → ℤ → ScHistories cfg → Except String (ScHistories cfg)
  | 0, _, sc => .ok sc
  | n + 1, id, sc => do
      let info ← buffer.get id
      localRecover buffer n (id - 1) (sc.localRecoverSpeculativeState info.brPc info.sc)

/-- `flush_branch_and_repair_state`. The program counter that was stored stays. -/
def TageScL.flushBranchAndRepairState (s : TageScL cfg) (branchId : ℤ) (br : Branch) (resolveDir : Bool) :
    Except String (TageScL cfg) := do
  let back := s.predictionInfoBuffer.back
  let sc ← localRecover s.predictionInfoBuffer (back - branchId + 1).toNat back s.statisticalCorrector
  let buffer ← s.predictionInfoBuffer.deallocateAfter branchId
  let info ← buffer.get branchId
  let tage ← s.tage.globalRecoverSpeculativeState info.tage
  let sc := sc.globalRecoverSpeculativeState info.sc
  TageScL.update ⟨tage, sc, buffer⟩ branchId info.brPc br resolveDir

end Scarab.Bp.Tagescl
