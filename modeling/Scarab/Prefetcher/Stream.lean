import Mathlib.Logic.Function.Basic
import Scarab.Prefetcher.Request

/-! # The stream prefetcher

`pref_stream.c`. A trained stream has a start pointer and an end pointer; it asks for the lines behind
its end, and moves its start when the two are further apart than the distance. -/

namespace Scarab.Stream

/-- The knobs of `stream.param.def` and the switches that the code reads, and the line size. -/
structure Params where
  streamBufferN : ℕ
  streamStartDis : Uns
  streamLength : Uns
  streamFullN : Uns
  streamTrainLength : Uns
  trainFilterSize : ℕ
  removeRedundantStream : Bool
  accPerStream : Bool
  hfilterOn : Bool
  /-- The line size is an `uns`. -/
  log2Line : Fin 32

/-- The default of every parameter. -/
def Params.default : Params := ⟨16, 5, 16, 1, 16, 32, false, false, false, 6⟩

structure StreamBuffer where
  procId : Uns8
  sp : Addr
  ep : Addr
  startVline : Addr
  /-- 1 upward, -1 downward, 0 before any training. -/
  dir : ℤ
  lru : CInt
  valid : Bool
  bufferFull : Bool
  trained : Bool
  /-- Demands until the next burst. -/
  pause : Uns
  trainHit : CInt
  length : Uns

/-- As `calloc` leaves a buffer. -/
def StreamBuffer.zero : StreamBuffer := ⟨0, 0, 0, 0, 0, 0, false, false, false, 0, 0, 0⟩

structure PrefStream where
  /-- `hwp_info->id`. -/
  hwpId : Uns8
  stream : ℕ → StreamBuffer
  trainFilter : ℕ → Addr
  trainFilterNo : Uns
  trainNum : Uns
  distance : Uns
  numTosend : Uns

/-- `pref_stream_init`, with `STREAM_TRAIN_NUM` and `STREAM_PREFETCH_N`. -/
def prefStreamInit (p : Params) (hwpId : Uns8) (trainNum prefetchN : Uns) : PrefStream :=
  ⟨hwpId, fun _ => .zero, fun _ => 0, 0, trainNum, p.streamLength, prefetchN⟩

variable (p : Params)

/-! ## Finding a stream -/

/-- The line lies between the pointers. -/
def StreamBuffer.covers (st : StreamBuffer) (lineIndex : Addr) (extraDis : CInt) : Bool :=
  (decide (st.sp ≤ lineIndex) && decide (lineIndex ≤ st.ep + extraDis.signExtend 64) && decide (st.dir = 1)) ||
    (decide (lineIndex ≤ st.sp) && decide (st.ep - extraDis.signExtend 64 ≤ lineIndex) && decide (st.dir = -1))

/-- The first trained buffer that covers the line. -/
def PrefStream.findTrained (s : PrefStream) (lineIndex : Addr) (extraDis : CInt) : Option ℕ :=
  (List.range p.streamBufferN).find? fun ii =>
    (s.stream ii).valid && (s.stream ii).trained && (s.stream ii).covers lineIndex extraDis

/-- The first buffer in training that started near the line. -/
def PrefStream.findTraining (s : PrefStream) (lineIndex : Addr) : Option ℕ :=
  (List.range p.streamBufferN).find? fun ii =>
    (s.stream ii).valid && !(s.stream ii).trained &&
      decide ((s.stream ii).sp ≤ lineIndex + p.streamTrainLength.setWidth 64) &&
      decide (lineIndex - p.streamTrainLength.setWidth 64 ≤ (s.stream ii).sp)

/-- `get_proc_id_from_cmp_addr` of a line. -/
def procIdOfLine (lineIndex : Addr) : Addr := (lineIndex <<< p.log2Line.val) >>> 58

/-- A hit on a buffer in training. Enough of them decide the direction; an end in the space of another
core invalidates the buffer. -/
def StreamBuffer.train (st : StreamBuffer) (trainNum : Uns) (procId : Uns8) (lineIndex : Addr) : StreamBuffer :=
  let dir : ℤ := if lineIndex < st.sp then -1 else 1
  let st := { st with trainHit := st.trainHit + 1 }
  if trainNum < st.trainHit then
    let st := { st with
      trained := true, startVline := st.sp
      ep := if 0 < dir then lineIndex + p.streamStartDis.setWidth 64 else lineIndex - p.streamStartDis.setWidth 64 }
    if procIdOfLine p st.ep ≠ procId.setWidth 64 then { st with valid := false } else { st with dir }
  else st

/-- The first buffer that is not valid, or the oldest one. -/
def PrefStream.victim (s : PrefStream) : ℕ :=
  match (List.range p.streamBufferN).find? fun ii => !(s.stream ii).valid with
  | some ii => ii
  | none =>
      (List.range p.streamBufferN).foldl
        (fun lruIndex ii => if (s.stream ii).lru.slt (s.stream lruIndex).lru then ii else lruIndex) 0

/-- A buffer starts training; direction, end of training and statistics stay as they were. -/
def StreamBuffer.create (st : StreamBuffer) (procId : Uns8) (lineIndex : Addr) (cycleCount : CInt) : StreamBuffer :=
  { st with
    procId, lru := cycleCount, valid := true, sp := lineIndex, ep := lineIndex, trainHit := 1, trained := false
    bufferFull := false, pause := 0, length := p.streamLength }

/-- `pref_stream_train_create_stream_buffer`: the index that it returns, if it is not -1. -/
def prefStreamTrainCreateStreamBuffer (s : PrefStream) (procId : Uns8) (lineAddr : Addr) (train create : Bool)
    (extraDis : CInt) (cycleCount : CInt) : PrefStream × Option ℕ :=
  let lineIndex := lineAddr >>> p.log2Line.val
  match s.findTrained p lineIndex extraDis with
  | some ii =>
      (if train then
        { s with stream := Function.update s.stream ii { s.stream ii with trainHit := (s.stream ii).trainHit + 1 } }
      else s, some ii)
  | none =>
      match if train || create then s.findTraining p lineIndex else none with
      | some ii =>
          if train then
            let st := (s.stream ii).train p s.trainNum procId lineIndex
            ({ s with stream := Function.update s.stream ii st }, if st.valid then some ii else none)
          else (s, some ii)
      | none =>
          if create then
            let lruIndex := s.victim p
            ({ s with stream := Function.update s.stream lruIndex ((s.stream lruIndex).create p procId lineIndex cycleCount) },
              some lruIndex)
          else (s, none)

/-! ## Sending -/

/-- The line behind the end. -/
def StreamBuffer.next (st : StreamBuffer) : Addr := st.ep + BitVec.ofInt 64 st.dir

/-- The pointers are too far apart, by the difference in an `int`. -/
def StreamBuffer.exceeds (st : StreamBuffer) (maxdistance : Uns) : Prop :=
  let dis : CInt := (st.ep - st.sp).setWidth 32
  st.dir = 1 ∧ maxdistance.slt dis ∨ st.dir = -1 ∧ dis.slt (-maxdistance)

instance (st : StreamBuffer) (maxdistance : Uns) : Decidable (st.exceeds maxdistance) :=
  inferInstanceAs (Decidable (_ ∨ _))

/-- `maxdistance`. -/
def PrefStream.maxdistance (s : PrefStream) (st : StreamBuffer) : Uns :=
  if p.accPerStream then st.length else s.distance

/-- The end moves on by a line, and the start with it if it is too far behind. -/
def StreamBuffer.advance (st : StreamBuffer) (maxdistance : Uns) : StreamBuffer :=
  let st := { st with ep := st.next }
  if st.exceeds maxdistance then { st with bufferFull := true, sp := st.sp + BitVec.ofInt 64 st.dir } else st

/-- `pref_stream_remove_redundant_stream`. -/
def prefStreamRemoveRedundantStream (s : PrefStream) (hitIndex : ℕ) : PrefStream :=
  let hit := s.stream hitIndex
  { s with
    stream := fun ii =>
      let st := s.stream ii
      if ii < p.streamBufferN ∧ ii ≠ hitIndex ∧ st.valid ∧
          (st.ep < hit.ep ∧ hit.sp < st.ep ∨ st.sp < hit.ep ∧ hit.sp < st.sp) then { st with valid := false }
      else st }

/-- A line was sent, or left out. -/
def PrefStream.advance (s : PrefStream) (hitIndex : ℕ) : PrefStream :=
  let s := { s with
    stream := Function.update s.stream hitIndex
      ((s.stream hitIndex).advance (s.maxdistance p (s.stream hitIndex))) }
  if p.removeRedundantStream then prefStreamRemoveRedundantStream p s hitIndex else s

/-- What a call of the prefetcher is given. -/
structure Call (κ : Type) where
  procId : Uns8
  lineAddr : Addr
  loadPC : Addr
  globalHist : Uns
  create : Bool
  cycleCount : CInt
  /-- `distance` and `num_tosend`, as the throttling leaves them. -/
  distance : Uns
  numTosend : Uns
  /-- `pref_hfilter_pred_useless`. -/
  useless : Addr → Bool
  queue : κ
  /-- The address is one of the core. -/
  own : lineAddr >>> 58 = procId.setWidth 64

section

variable {κ μ : Type}

/-- The request for the line behind the end. -/
def PrefStream.request (s : PrefStream) (c : Call μ) (st : StreamBuffer) : Ul1Request where
  procId := c.procId
  lineIndex := st.next
  prefetcherId := s.hwpId
  distance := (if 0 < st.dir then st.next - st.sp else st.sp - st.next).setWidth 32
  loadPC := c.loadPC
  globalHist := c.globalHist
  bw := st.bufferFull

/-- The loop that asks for lines. -/
def sendLoop (addto : Ul1Queue κ) (c : Call μ) (hitIndex : ℕ) : ℕ → PrefStream → κ → PrefStream × κ
  | 0, s, k => (s, k)
  | n + 1, s, k =>
      let st := s.stream hitIndex
      if st.sp = c.lineAddr >>> p.log2Line.val ∧ st.bufferFull then
        ({ s with stream := Function.update s.stream hitIndex { st with pause := p.streamFullN } }, k)
      else if c.procId.setWidth 64 ≠ st.next >>> (58 - p.log2Line.val) then
        ({ s with stream := Function.update s.stream hitIndex { st with valid := false } }, k)
      else if p.hfilterOn && c.useless st.next then sendLoop addto c hitIndex n (s.advance p hitIndex) k
      else
        let (ok, k) := addto (s.request c st) k
        if ok then sendLoop addto c hitIndex n (s.advance p hitIndex) k else (s, k)

/-- A call that is not kept off by the filter: the buffer it finds, trains or makes. -/
def PrefStream.findBuffer (s : PrefStream) (c : Call μ) : PrefStream × Option ℕ :=
  prefStreamTrainCreateStreamBuffer p { s with distance := c.distance, numTosend := c.numTosend } c.procId c.lineAddr
    true c.create 0 c.cycleCount

/-- The line is in the training filter. -/
def PrefStream.filtered (s : PrefStream) (lineIndex : Addr) : Bool :=
  (List.range p.trainFilterSize).any fun ii => s.trainFilter ii == lineIndex

/-- `pref_stream_addto_train_stream_filter`. -/
def PrefStream.addtoFilter (s : PrefStream) (lineIndex : Addr) : PrefStream :=
  { s with
    trainFilter := Function.update s.trainFilter (s.trainFilterNo.toNat % p.trainFilterSize) lineIndex
    trainFilterNo := s.trainFilterNo + 1 }

/-- A demand hits a trained buffer. -/
def StreamBuffer.touch (st : StreamBuffer) (cycleCount : CInt) : StreamBuffer :=
  { st with lru := cycleCount, pause := if st.pause = 0 then 0 else st.pause - 1 }

/-- What a call does with the buffer it has. -/
def PrefStream.burst (s : PrefStream) (addto : Ul1Queue κ) (c : Call μ) (hitIndex : ℕ) (k : κ) : PrefStream × κ :=
  let s := s.addtoFilter p (c.lineAddr >>> p.log2Line.val)
  if (s.stream hitIndex).trained then
    let st := (s.stream hitIndex).touch c.cycleCount
    let s := { s with stream := Function.update s.stream hitIndex st }
    if 0 < st.pause then (s, k)
    else
      let numTosend := if st.bufferFull then max p.streamFullN.toNat s.numTosend.toNat else s.numTosend.toNat
      sendLoop p addto c hitIndex numTosend s k
  else (s, k)

/-- `pref_stream_train`. -/
def prefStreamTrain (addto : Ul1Queue κ) (s : PrefStream) (c : Call μ) (k : κ) : PrefStream × κ :=
  if s.filtered p (c.lineAddr >>> p.log2Line.val) then (s, k)
  else
    match s.findBuffer p c with
    | (s, none) => (s, k)
    | (s, some hitIndex) => s.burst p addto c hitIndex k

end

end Scarab.Stream
