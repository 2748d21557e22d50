import Mathlib.Logic.Function.Basic
import Scarab.Prefetcher.Types

/-! # The prefetch request queues

The three rings of `HWP_Core` in `pref_common.c`, with the functions that add to them
and the demand filters that cancel in them. The feedback counters that
`pref_feed_back_info_update` refreshes on the way are not part of this state. -/

namespace Scarab.Common

/-- `Pref_Mem_Req`, without `rdy_cycle`, which nothing reads. -/
structure PrefMemReq where
  procId : Uns8
  lineAddr : Addr
  lineIndex : Addr
  loadPC : Addr
  globalHist : Uns
  prefetcherId : Uns8
  distance : Uns
  valid : Bool
  bwLimited : Bool
  deriving DecidableEq, Repr

/-- A request as `calloc` leaves it. -/
def PrefMemReq.zero : PrefMemReq := ⟨0, 0, 0, 0, 0, 0, 0, false, false⟩

/-- A ring: `reqPos` is where the last request was put, `sendPos` the next to send. -/
structure ReqQueue where
  slots : ℕ → PrefMemReq
  reqPos : ℤ
  sendPos : ℕ

/-- A ring of `pref_core_init`. -/
def ReqQueue.init : ReqQueue := ⟨fun _ => .zero, -1, 0⟩

inductive QueueId where
  | dl0req
  | umlcReq
  | ul1req
  deriving DecidableEq, Repr

/-- The knobs of one queue. -/
structure QueueParams where
  size : ℕ
  scheduleNum : ℕ
  queueFilterOn : Bool
  addFilterOn : Bool
  overwriteOnFull : Bool
  size_pos : 0 < size

structure PrefParams where
  queue : QueueId → QueueParams
  /-- `LOG2(DCACHE_LINE_SIZE)`; the size is a power of two. -/
  log2Line : ℕ
  /-- `model->mem == MODEL_MEM`. -/
  modelMem : Bool
  memReqBufferEntries : Uns
  prefL1qDemandReserve : Uns
  prefReqDrop : Bool

/-- The default of every parameter. -/
def PrefParams.default : PrefParams where
  queue
    | .dl0req => ⟨32, 4, true, true, false, by decide⟩
    | .umlcReq => ⟨64, 4, true, true, false, by decide⟩
    | .ul1req => ⟨128, 4, true, true, false, by decide⟩
  log2Line := 6
  modelMem := true
  memReqBufferEntries := 32
  prefL1qDemandReserve := 0
  prefReqDrop := false

/-! ## One ring -/

namespace ReqQueue

variable (qp : QueueParams) (q : ReqQueue)

/-- `(req_pos + 1) % SIZE`. -/
def nextReqPos : ℕ := ((q.reqPos + 1) % qp.size).toNat

/-- Some slot carries the line, whether it is valid or not. -/
def Matches (lineIndex : Addr) : Prop := ∃ ii < qp.size, (q.slots ii).lineIndex = lineIndex

/-- Some valid slot carries the line. -/
def Pending (lineIndex : Addr) : Prop :=
  ∃ ii < qp.size, (q.slots ii).valid = true ∧ (q.slots ii).lineIndex = lineIndex

instance (lineIndex : Addr) : Decidable (q.Matches qp lineIndex) :=
  inferInstanceAs (Decidable (∃ ii < _, _))

instance (lineIndex : Addr) : Decidable (q.Pending qp lineIndex) :=
  inferInstanceAs (Decidable (∃ ii < _, _))

/-- Clear the valid bit of a slot. -/
def invalidate (ii : ℕ) : ReqQueue :=
  { q with slots := Function.update q.slots ii { q.slots ii with valid := false } }

/-- Put a request behind the last one. -/
def insert (req : PrefMemReq) : ReqQueue :=
  { q with slots := Function.update q.slots (q.nextReqPos qp) req, reqPos := q.nextReqPos qp }

/-- Move on to the next slot to send. -/
def advance : ReqQueue := { q with sendPos := (q.sendPos + 1) % qp.size }

end ReqQueue

/-- The ways through a `pref_addto_*_queue` function. -/
inductive AddOutcome where
  /-- The line is 0. -/
  | zeroLine
  /-- The line hit another request. -/
  | matched
  | full
  | inserted
  deriving DecidableEq, Repr

/-- The `Flag` that is returned. -/
def AddOutcome.flag : AddOutcome → Bool
  | .full => false
  | _ => true

/-- The body that the three `pref_addto_*_queue` functions share. -/
def addTo (qp : QueueParams) (q : ReqQueue) (newReq : PrefMemReq) : AddOutcome × ReqQueue :=
  if newReq.lineIndex = 0 then (.zeroLine, q)
  else if qp.addFilterOn = true ∧ q.Matches qp newReq.lineIndex then (.matched, q)
  else if (q.slots (q.nextReqPos qp)).valid = true ∧ qp.overwriteOnFull = false then (.full, q)
  else (.inserted, q.insert qp newReq)

/-- The slot the demand filters cancel: the first valid one with the line of the address. -/
def filterSlot (p : PrefParams) (qp : QueueParams) (q : ReqQueue) (lineAddr : Addr) : Option ℕ :=
  (List.range qp.size).find? fun ii =>
    (q.slots ii).valid && (q.slots ii).lineAddr >>> p.log2Line == lineAddr >>> p.log2Line

/-! ## The queues of a core -/

/-- What became of the DL0 request at the send position. -/
inductive Dl0Result where
  /-- It hit the data cache. -/
  | hit
  /-- It was put into the UL1 queue. -/
  | forwarded
  /-- The UL1 queue did not take it. -/
  | refused
  deriving DecidableEq, Repr

/-- What happens to a request, for the history that no operation reads. -/
inductive QueueEvent where
  | inserted (id : QueueId) (slot : ℕ) (req : PrefMemReq)
  | cancelled (id : QueueId) (slot : ℕ) (req : PrefMemReq)
  /-- The data cache was looked up for the request. -/
  | dl0 (slot : ℕ) (req : PrefMemReq) (result : Dl0Result)
  | sent (id : QueueId) (slot : ℕ) (req : PrefMemReq)
  | dropped (id : QueueId) (slot : ℕ) (req : PrefMemReq)
  deriving DecidableEq, Repr

/-- The queues, the rest of the machine, and the history, oldest first. -/
structure PrefState (τ : Type) where
  queue : QueueId → ReqQueue
  env : τ
  history : List QueueEvent

variable {τ : Type} (p : PrefParams) (s : PrefState τ)

def PrefState.log (e : QueueEvent) : PrefState τ := { s with history := s.history ++ [e] }

def PrefState.setQueue (id : QueueId) (q : ReqQueue) : PrefState τ :=
  { s with queue := Function.update s.queue id q }

/-- Add a request to a queue of the core; the `Flag` that is returned, and the state. -/
def addToQueue (id : QueueId) (newReq : PrefMemReq) : Bool × PrefState τ :=
  let q := s.queue id
  let (outcome, q') := addTo (p.queue id) q newReq
  let s' :=
    if outcome = .inserted then
      (s.setQueue id q').log (.inserted id (q.nextReqPos (p.queue id)) newReq)
    else s
  (outcome.flag, s')

/-- `pref_addto_dl0req_queue`. -/
def prefAddtoDl0reqQueue (procId : Uns8) (lineIndex : Addr) (prefetcherId : Uns8) :
    Bool × PrefState τ :=
  addToQueue p s .dl0req
    { procId, lineAddr := lineIndex <<< p.log2Line, lineIndex, loadPC := 0, globalHist := 0
      prefetcherId, distance := 0, valid := true, bwLimited := false }

/-- `pref_addto_umlc_req_queue`. -/
def prefAddtoUmlcReqQueue (procId : Uns8) (lineIndex : Addr) (prefetcherId : Uns8) :
    Bool × PrefState τ :=
  addToQueue p s .umlcReq
    { procId, lineAddr := lineIndex <<< p.log2Line, lineIndex, loadPC := 0, globalHist := 0
      prefetcherId, distance := 0, valid := true, bwLimited := false }

/-- `pref_addto_ul1req_queue_set`. -/
def prefAddtoUl1reqQueueSet (procId : Uns8) (lineIndex : Addr) (prefetcherId : Uns8)
    (distance : Uns) (loadPC : Addr) (globalHist : Uns) (bw : Bool) : Bool × PrefState τ :=
  addToQueue p s .ul1req
    { procId, lineAddr := lineIndex <<< p.log2Line, lineIndex, loadPC, globalHist
      prefetcherId, distance, valid := true, bwLimited := bw }

/-- `pref_addto_ul1req_queue`. -/
def prefAddtoUl1reqQueue (procId : Uns8) (lineIndex : Addr) (prefetcherId : Uns8) :
    Bool × PrefState τ :=
  prefAddtoUl1reqQueueSet p s procId lineIndex prefetcherId 0 0 0 false

/-- The body that the three demand filters share. -/
def queueFilter (id : QueueId) (lineAddr : Addr) : Bool × PrefState τ :=
  let q := s.queue id
  if (p.queue id).queueFilterOn then
    match filterSlot p (p.queue id) q lineAddr with
    | some ii => (true, (s.setQueue id (q.invalidate ii)).log (.cancelled id ii (q.slots ii)))
    | none => (false, s)
  else (false, s)

/-- `pref_dl0req_queue_filter`. -/
def prefDl0reqQueueFilter (lineAddr : Addr) : Bool × PrefState τ := queueFilter p s .dl0req lineAddr

/-- `pref_umlc_req_queue_filter`. -/
def prefUmlcReqQueueFilter (lineAddr : Addr) : Bool × PrefState τ :=
  queueFilter p s .umlcReq lineAddr

/-- `pref_ul1req_queue_filter`. -/
def prefUl1reqQueueFilter (lineAddr : Addr) : Bool × PrefState τ := queueFilter p s .ul1req lineAddr

end Scarab.Common
