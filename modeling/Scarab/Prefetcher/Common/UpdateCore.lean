import Scarab.Lib.Execution
import Scarab.Prefetcher.Common.Queues

/-! # Sending prefetch requests

`pref_update_core`: the DL0 loop looks requests up in the data cache and hands the
misses to the UL1 queue, the UMLC and UL1 loops send to the memory. The machine around
the queues is arbitrary: `Env` is the functions of it that the loops call. -/

namespace Scarab.Common

/-- The ports and the data cache of a core, and the memory. -/
structure Env (τ : Type) where
  /-- `get_read_port`, for the bank of a line of the data cache. -/
  getReadPort : Uns8 → Addr → τ → Bool × τ
  /-- Whether `cache_access` on the data cache hits. -/
  dcacheAccess : Uns8 → Addr → τ → Bool × τ
  memGetReqCount : Uns8 → τ → Uns
  /-- `new_mem_req` for a request of the UMLC or the UL1 queue. -/
  newMemReq : QueueId → PrefMemReq → τ → Bool × τ

variable {τ : Type} (p : PrefParams) (env : Env τ)

/-- Move the send position of a queue on. -/
def PrefState.advance (s : PrefState τ) (id : QueueId) : PrefState τ :=
  s.setQueue id ((s.queue id).advance (p.queue id))

/-- `addr >> 58` is the core. -/
def OfCore (procId : Uns8) (lineAddr : Addr) : Prop := procId.setWidth 64 = lineAddr >>> 58

instance (procId : Uns8) (lineAddr : Addr) : Decidable (OfCore procId lineAddr) :=
  inferInstanceAs (Decidable (_ = _))

/-! ## The DL0 loop -/

/-- One turn of the DL0 loop. A port that is busy is a `continue`; neither outcome of
the lookup clears the valid bit of the request. -/
def dl0Turn (procId : Uns8) (s : PrefState τ) : Except String (PrefState τ) :=
  let q := s.queue .dl0req
  let req := q.slots q.sendPos
  if req.valid then
    if OfCore procId req.lineAddr then
      let (port, e) := env.getReadPort procId req.lineAddr s.env
      if port then
        let (dcHit, e) := env.dcacheAccess procId req.lineAddr e
        let s := { s with env := e }
        if dcHit then .ok ((s.log (.dl0 q.sendPos req .hit)).advance p .dl0req)
        else
          let (ok, s) := prefAddtoUl1reqQueue p s procId req.lineIndex req.prefetcherId
          if ok then .ok ((s.log (.dl0 q.sendPos req .forwarded)).advance p .dl0req)
          else .ok (s.log (.dl0 q.sendPos req .refused))
      else .ok { s with env := e }
    else .error "proc_id == dl0req_queue[q_index].line_addr >> 58"
  else .ok (s.advance p .dl0req)

def dl0Loop (procId : Uns8) : ℕ → PrefState τ → Except String (PrefState τ)
  | 0, s => .ok s
  | n + 1, s => do
      let s ← dl0Turn p env procId s
      dl0Loop procId n s

/-! ## The UMLC and UL1 loops -/

/-- Not enough free request buffers: `MEM_REQ_BUFFER_ENTRIES - mem_get_req_count(proc_id)`
wraps around like the `uns` it is. -/
def noRoom (procId : Uns8) (e : τ) : Bool :=
  p.modelMem && p.memReqBufferEntries - env.memGetReqCount procId e < p.prefL1qDemandReserve

/-- One turn of the loop over a queue, and whether it ends with a `break`. -/
def sendTurn (id : QueueId) (s : PrefState τ) : Except String (PrefState τ × Bool) :=
  let q := s.queue id
  let req := q.slots q.sendPos
  if req.valid then
    if OfCore req.procId req.lineAddr then
      if noRoom p env req.procId s.env then
        if p.prefReqDrop && p.memReqBufferEntries == env.memGetReqCount req.procId s.env then
          .ok ((s.setQueue id (q.invalidate q.sendPos)).log (.dropped id q.sendPos req), true)
        else .ok (s, true)
      else
        let (sent, e) := if p.modelMem then env.newMemReq id req s.env else (false, s.env)
        let s := { s with env := e }
        if sent then
          .ok (((s.setQueue id (q.invalidate q.sendPos)).log (.sent id q.sendPos req)).advance p id,
            false)
        else .ok (s, true)
    else .error "proc_id from addr"
  else .ok (s.advance p id, false)

def sendLoop (id : QueueId) : ℕ → PrefState τ → Except String (PrefState τ)
  | 0, s => .ok s
  | n + 1, s => do
      let (s, stop) ← sendTurn p env id s
      if stop then return s else sendLoop id n s

/-- `pref_update_core`. -/
def prefUpdateCore (procId : Uns8) (s : PrefState τ) : Except String (PrefState τ) := do
  let s ← dl0Loop p env procId (p.queue .dl0req).scheduleNum s
  let s ← sendLoop p env .umlcReq (p.queue .umlcReq).scheduleNum s
  sendLoop p env .ul1req (p.queue .ul1req).scheduleNum s

/-! ## Runs -/

/-- What can happen to the queues of a core. -/
inductive Operation (τ : Type) where
  | addDl0 (procId : Uns8) (lineIndex : Addr) (prefetcherId : Uns8)
  | addUmlc (procId : Uns8) (lineIndex : Addr) (prefetcherId : Uns8)
  | addUl1 (procId : Uns8) (lineIndex : Addr) (prefetcherId : Uns8) (distance : Uns) (loadPC : Addr)
      (globalHist : Uns) (bw : Bool)
  | filterDl0 (lineAddr : Addr)
  | filterUmlc (lineAddr : Addr)
  | filterUl1 (lineAddr : Addr)
  | updateCore (procId : Uns8)
  | others (e : τ)

def operate (s : PrefState τ) : Operation τ → Except String (PrefState τ)
  | .addDl0 procId lineIndex prefetcherId =>
      .ok (prefAddtoDl0reqQueue p s procId lineIndex prefetcherId).2
  | .addUmlc procId lineIndex prefetcherId =>
      .ok (prefAddtoUmlcReqQueue p s procId lineIndex prefetcherId).2
  | .addUl1 procId lineIndex prefetcherId distance loadPC globalHist bw =>
      .ok (prefAddtoUl1reqQueueSet p s procId lineIndex prefetcherId distance loadPC globalHist bw).2
  | .filterDl0 lineAddr => .ok (prefDl0reqQueueFilter p s lineAddr).2
  | .filterUmlc lineAddr => .ok (prefUmlcReqQueueFilter p s lineAddr).2
  | .filterUl1 lineAddr => .ok (prefUl1reqQueueFilter p s lineAddr).2
  | .updateCore procId => prefUpdateCore p env procId s
  | .others e => .ok { s with env := e }

/-- The queues after `pref_core_init`. -/
def Initial (s : PrefState τ) : Prop := s.queue = (fun _ => .init) ∧ s.history = []

/-- Some sequence of operations leads here. -/
def Reachable (s : PrefState τ) : Prop :=
  ∃ start operations, Initial start ∧ Execution.run (operate p env) start operations = .ok s

/-- The atomic steps. -/
inductive Step : PrefState τ → PrefState τ → Prop where
  | add (s : PrefState τ) (id : QueueId) (newReq : PrefMemReq) (hvalid : newReq.valid = true) :
      Step s (addToQueue p s id newReq).2
  | cancel (s : PrefState τ) (id : QueueId) (lineAddr : Addr) : Step s (queueFilter p s id lineAddr).2
  | dl0 {s s' procId} (h : dl0Turn p env procId s = .ok s') : Step s s'
  | send {s s' id stop} (hid : id ≠ .dl0req) (h : sendTurn p env id s = .ok (s', stop)) : Step s s'
  | others (s : PrefState τ) (e : τ) : Step s { s with env := e }

/-- What the atomic steps reach. It includes every state inside `pref_update_core`. -/
def Visited (s : PrefState τ) : Prop := Execution.Visited Initial (Step p env) s

variable {p env}

open Relation

theorem dl0Loop_steps {procId : Uns8} {n : ℕ} {s s' : PrefState τ}
    (h : dl0Loop p env procId n s = .ok s') : ReflTransGen (Step p env) s s' := by
  induction n generalizing s with
  | zero =>
      cases h
      exact .refl
  | succ n ih =>
      obtain ⟨m, hm, hrest⟩ := Execution.bind_eq_ok.mp h
      exact .head (.dl0 hm) (ih hrest)

theorem sendLoop_steps {id : QueueId} (hid : id ≠ .dl0req) {n : ℕ} {s s' : PrefState τ}
    (h : sendLoop p env id n s = .ok s') : ReflTransGen (Step p env) s s' := by
  induction n generalizing s with
  | zero =>
      cases h
      exact .refl
  | succ n ih =>
      obtain ⟨⟨m, stop⟩, hm, hrest⟩ := Execution.bind_eq_ok.mp h
      refine .head (.send hid hm) ?_
      cases stop with
      | true =>
          cases hrest
          exact .refl
      | false => exact ih hrest

theorem prefUpdateCore_steps {procId : Uns8} {s s' : PrefState τ}
    (h : prefUpdateCore p env procId s = .ok s') : ReflTransGen (Step p env) s s' := by
  obtain ⟨s₁, h₁, hrest⟩ := Execution.bind_eq_ok.mp h
  obtain ⟨s₂, h₂, h₃⟩ := Execution.bind_eq_ok.mp hrest
  exact (dl0Loop_steps h₁).trans
    ((sendLoop_steps (by decide) h₂).trans (sendLoop_steps (by decide) h₃))

theorem operate_steps {s s' : PrefState τ} {o : Operation τ} (h : operate p env s o = .ok s') :
    ReflTransGen (Step p env) s s' := by
  cases o with
  | addDl0 procId lineIndex prefetcherId =>
      cases h
      exact .single (.add s .dl0req _ rfl)
  | addUmlc procId lineIndex prefetcherId =>
      cases h
      exact .single (.add s .umlcReq _ rfl)
  | addUl1 procId lineIndex prefetcherId distance loadPC globalHist bw =>
      cases h
      exact .single (.add s .ul1req _ rfl)
  | filterDl0 lineAddr =>
      cases h
      exact .single (.cancel s .dl0req lineAddr)
  | filterUmlc lineAddr =>
      cases h
      exact .single (.cancel s .umlcReq lineAddr)
  | filterUl1 lineAddr =>
      cases h
      exact .single (.cancel s .ul1req lineAddr)
  | updateCore procId => exact prefUpdateCore_steps h
  | others e =>
      cases h
      exact .single (.others s e)

theorem Reachable.visited {s : PrefState τ} (h : Reachable p env s) : Visited p env s := by
  obtain ⟨start, operations, hi, hr⟩ := h
  exact Execution.visited_of_run (fun _ _ _ => operate_steps) hi hr

/-! ## Concrete runs -/

/-- An idle machine: every port is free, and the memory takes every request. -/
def idle (dcHit : Bool) : Env Unit where
  getReadPort _ _ e := (true, e)
  dcacheAccess _ _ e := (dcHit, e)
  memGetReqCount _ _ := 0
  newMemReq _ _ e := (true, e)

/-- The state after a sequence of operations, from `pref_core_init` on. -/
def afterOperations (p : PrefParams) (env : Env τ) (e : τ) (operations : List (Operation τ)) :
    Except String (PrefState τ) :=
  Execution.run (operate p env) ⟨fun _ => .init, e, []⟩ operations

/-- What is observed of a concrete run holds of a reachable state. -/
theorem exists_reachable {β : Type} {e : τ} {operations : List (Operation τ)}
    {observe : PrefState τ → β} {b : β}
    (h : (afterOperations p env e operations).toOption.map observe = some b) :
    ∃ s, Reachable p env s ∧ observe s = b := by
  obtain ⟨s, hs, hb⟩ := Option.map_eq_some_iff.mp h
  rw [Execution.toOption_eq_some] at hs
  exact ⟨s, ⟨_, operations, ⟨rfl, rfl⟩, hs⟩, hb⟩

end Scarab.Common
