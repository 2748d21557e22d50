import Scarab.Lib.History
import Scarab.Prefetcher.Common.Equations

/-! # A DL0 request is never finished

The DL0 loop leaves the request it has looked up in its slot. Only a demand that
cancels it or a new request in its slot takes it out of the queue. -/

namespace Scarab.Common

open History

variable {τ : Type} {p : PrefParams} {env : Env τ}

/-! ## What a slot holds -/

/-- What an event puts in a DL0 slot: a new request, or nothing if it cancels the one
that is there. No other event changes the slot. -/
def heldAt (slot : ℕ) : QueueEvent → Option (Option PrefMemReq)
  | .inserted .dl0req ii req => if ii = slot then some (some req) else none
  | .cancelled .dl0req ii _ => if ii = slot then some none else none
  | _ => none

/-- The request a history leaves in a DL0 slot. -/
def held (slot : ℕ) (h : List QueueEvent) : Option PrefMemReq := (latest (heldAt slot) h).join

theorem held_concat (slot : ℕ) (h : List QueueEvent) (e : QueueEvent) :
    held slot (h ++ [e]) = (heldAt slot e).getD (held slot h) := by
  cases he : heldAt slot e with
  | none => rw [held, latest_concat_of_none he, held, Option.getD_none]
  | some v => rw [held, latest_concat_of_some he, Option.join_some, Option.getD_some]

/-- The slots hold what the history says, and every lookup was for the request that its
slot held. -/
structure Dl0Ok (s : PrefState τ) : Prop where
  slots : ∀ slot, (s.queue .dl0req).holds slot = held slot s.history
  lookups : Always (fun pre e => ∀ slot req result, e = .dl0 slot req result → held slot pre = some req)
    s.history

/-! ## One step -/

theorem Dl0Ok.keep {s s' : PrefState τ} (h : Dl0Ok s)
    (hslots : (s'.queue .dl0req).slots = (s.queue .dl0req).slots) (hhist : s'.history = s.history) :
    Dl0Ok s' := by
  refine ⟨?_, by rw [hhist]; exact h.lookups⟩
  intro slot
  rw [hhist, ← h.slots slot, ReqQueue.holds, ReqQueue.holds, hslots]

theorem Dl0Ok.event {s s' : PrefState τ} (h : Dl0Ok s) {e : QueueEvent}
    (hhist : s'.history = s.history ++ [e])
    (hslots : ∀ slot, (s'.queue .dl0req).holds slot =
      (heldAt slot e).getD ((s.queue .dl0req).holds slot))
    (hlookup : ∀ slot req result, e = .dl0 slot req result → (s.queue .dl0req).holds slot = some req) :
    Dl0Ok s' := by
  refine ⟨?_, ?_⟩
  · intro slot
    rw [hhist, held_concat, hslots slot, h.slots slot]
  · rw [hhist, always_concat]
    refine ⟨h.lookups, ?_⟩
    intro slot req result he
    rw [← h.slots slot]
    exact hlookup slot req result he

theorem Dl0Ok.add {s : PrefState τ} (h : Dl0Ok s) (id : QueueId) {newReq : PrefMemReq}
    (hvalid : newReq.valid = true) : Dl0Ok (addToQueue p s id newReq).2 := by
  rcases addToQueue_spec (p := p) s id newReq with hsame | hins
  · rw [hsame]
    exact h
  · rw [hins]
    refine h.event rfl ?_ (by simp)
    intro slot
    cases id with
    | dl0req =>
        simp only [log_queue, setQueue_self, ReqQueue.holds_insert _ _ hvalid, heldAt]
        split <;> rfl
    | umlcReq => rfl
    | ul1req => rfl

theorem Dl0Ok.cancel {s : PrefState τ} (h : Dl0Ok s) (id : QueueId) (lineAddr : Addr) :
    Dl0Ok (queueFilter p s id lineAddr).2 := by
  rcases queueFilter_spec (p := p) s id lineAddr with hsame | ⟨ii, _, _, hcan⟩
  · rw [hsame]
    exact h
  · rw [hcan]
    refine h.event rfl ?_ (by simp)
    intro slot
    cases id with
    | dl0req =>
        simp only [log_queue, setQueue_self, ReqQueue.holds_invalidate, heldAt]
        split <;> rfl
    | umlcReq => rfl
    | ul1req => rfl

/-- Logging what became of the request that a slot holds. -/
theorem Dl0Ok.lookup {s : PrefState τ} (h : Dl0Ok s) {slot : ℕ} {req : PrefMemReq}
    (result : Dl0Result) (hheld : (s.queue .dl0req).holds slot = some req) :
    Dl0Ok (s.log (.dl0 slot req result)) := by
  refine h.event rfl (fun _ => rfl) ?_
  intro slot' req' result' he
  obtain ⟨rfl, rfl, _⟩ := QueueEvent.dl0.inj he
  exact hheld

/-- Adding to the UL1 queue leaves the DL0 queue alone. -/
theorem addToUl1_dl0 (s : PrefState τ) (newReq : PrefMemReq) :
    (addToQueue p s .ul1req newReq).2.queue .dl0req = s.queue .dl0req := by
  rcases addToQueue_spec (p := p) s .ul1req newReq with hsame | hins
  · rw [hsame]
  · rw [hins]
    simp

theorem Step.dl0Ok {s s' : PrefState τ} (h : Dl0Ok s) (hs : Step p env s s') : Dl0Ok s' := by
  cases hs with
  | add id newReq hvalid => exact h.add id hvalid
  | cancel id lineAddr => exact h.cancel id lineAddr
  | dl0 hturn =>
      cases dl0Turn_spec hturn with
      | skipped hvalid => exact h.keep (by simp) rfl
      | stalled e => exact h.keep rfl rfl
      | hit e hvalid =>
          have henv : Dl0Ok { s with env := e } := h.keep rfl rfl
          exact (henv.lookup .hit (ReqQueue.holds_of_valid hvalid)).keep (by simp) rfl
      | forwarded e newReq hnew hvalid hok =>
          have henv : Dl0Ok { s with env := e } := h.keep rfl rfl
          have hadd := henv.add (p := p) .ul1req hnew
          refine (hadd.lookup .forwarded ?_).keep (by simp) rfl
          rw [addToUl1_dl0]
          exact ReqQueue.holds_of_valid hvalid
      | refused e newReq hnew hvalid hok =>
          have henv : Dl0Ok { s with env := e } := h.keep rfl rfl
          have hadd := henv.add (p := p) .ul1req hnew
          refine hadd.lookup .refused ?_
          rw [addToUl1_dl0]
          exact ReqQueue.holds_of_valid hvalid
  | @send _ id stop hid hturn =>
      have hne : QueueId.dl0req ≠ id := Ne.symm hid
      cases sendTurn_spec hturn with
      | skipped hvalid => exact h.keep (by simp) rfl
      | stalled e => exact h.keep rfl rfl
      | dropped hvalid =>
          refine h.event rfl ?_ (by simp)
          intro slot
          simp [hne, heldAt]
      | sent e hvalid =>
          have hsent : Dl0Ok ((PrefState.setQueue { s with env := e } id
              ((s.queue id).invalidate (s.queue id).sendPos)).log
              (.sent id (s.queue id).sendPos ((s.queue id).slots (s.queue id).sendPos))) := by
            refine h.event rfl ?_ (by simp)
            intro slot
            simp [hne, heldAt]
          exact hsent.keep (by simp) rfl
  | others e => exact h.keep rfl rfl

/-! ## Every run -/

theorem Visited.dl0Ok {s : PrefState τ} (h : Visited p env s) : Dl0Ok s := by
  refine Execution.Visited.invariant (I := Dl0Ok) ?_ (fun _ _ hk hs => Step.dl0Ok hk hs) h
  rintro s ⟨hq, hh⟩
  refine ⟨?_, by rw [hh]; exact always_nil⟩
  intro slot
  rw [hq, hh]
  rfl

/-- The loop looks up the request that the slot at its position holds, whenever it gets
a port. -/
theorem dl0Turn_lookup {s : PrefState τ} (h : Visited p env s) {procId : Uns8} {req : PrefMemReq}
    (hheld : held (s.queue .dl0req).sendPos s.history = some req)
    (hcore : OfCore procId req.lineAddr) (hport : (env.getReadPort procId req.lineAddr s.env).1 = true) :
    ∃ s' mid result, dl0Turn p env procId s = .ok s' ∧
      s'.history = s.history ++ mid ++ [.dl0 (s.queue .dl0req).sendPos req result] := by
  have hholds := (h.dl0Ok.slots (s.queue .dl0req).sendPos).trans hheld
  obtain ⟨hvalid, hsome⟩ := Option.ite_none_right_eq_some.mp hholds
  have hslot := Option.some.inj hsome
  rw [hslot] at hvalid
  unfold dl0Turn
  simp only [hslot, hvalid, hcore, hport, ite_true]
  split
  · exact ⟨_, [], .hit, rfl, by simp⟩
  · obtain ⟨mid, hmid⟩ := addToQueue_history (p := p)
      { s with env := (env.dcacheAccess procId req.lineAddr
        (env.getReadPort procId req.lineAddr s.env).2).2 } .ul1req
      { procId, lineAddr := req.lineIndex <<< p.log2Line, lineIndex := req.lineIndex, loadPC := 0
        globalHist := 0, prefetcherId := req.prefetcherId, distance := 0, valid := true
        bwLimited := false }
    split
    · exact ⟨_, mid, .forwarded, rfl, congrArg (· ++ [_]) hmid⟩
    · exact ⟨_, mid, .refused, rfl, congrArg (· ++ [_]) hmid⟩

/-! ## A request that was processed -/

/-- The request of the slot hit the data cache or was handed to the UL1 queue. -/
def QueueEvent.Processes (slot : ℕ) (req : PrefMemReq) (e : QueueEvent) : Prop :=
  e = .dl0 slot req .hit ∨ e = .dl0 slot req .forwarded

def QueueEvent.LooksUp (slot : ℕ) (e : QueueEvent) : Prop := ∃ req result, e = .dl0 slot req result

/-- A new request is put in the slot. -/
def QueueEvent.Fills (slot : ℕ) (e : QueueEvent) : Prop := ∃ req, e = .inserted .dl0req slot req

/-- A demand cancels the request in the slot. -/
def QueueEvent.Cancels (slot : ℕ) (e : QueueEvent) : Prop := ∃ req, e = .cancelled .dl0req slot req

theorem heldAt_eq_none {slot : ℕ} {e : QueueEvent} (hc : ¬ e.Cancels slot) (hf : ¬ e.Fills slot) :
    heldAt slot e = none := by
  cases e with
  | inserted id ii req =>
      cases id with
      | dl0req => exact if_neg fun hii => hf ⟨req, by rw [hii]⟩
      | umlcReq => rfl
      | ul1req => rfl
  | cancelled id ii req =>
      cases id with
      | dl0req => exact if_neg fun hii => hc ⟨req, by rw [hii]⟩
      | umlcReq => rfl
      | ul1req => rfl
  | dl0 ii req result => rfl
  | sent id ii req => rfl
  | dropped id ii req => rfl

/-- A slot whose request was cancelled holds nothing until a new one is put in it. -/
theorem held_of_cancelled {slot : ℕ} {pre later : List QueueEvent} {c : QueueEvent}
    (hc : c.Cancels slot) (hlater : ∀ d ∈ later, ¬ d.Fills slot) :
    held slot (pre ++ c :: later) = none := by
  obtain ⟨req, rfl⟩ := hc
  have hnew : latest (heldAt slot) (pre ++ [.cancelled .dl0req slot req]) = some none :=
    latest_concat_of_some (by simp [heldAt])
  have hlatest : latest (heldAt slot) ((pre ++ [.cancelled .dl0req slot req]) ++ later) =
      some none := by
    refine latest_append_of_forall hnew ?_
    intro d hd v hv
    by_cases hdc : d.Cancels slot
    · obtain ⟨req', rfl⟩ := hdc
      simpa [heldAt] using hv.symm
    · rw [heldAt_eq_none hdc (hlater d hd)] at hv
      cases hv
  rw [List.append_assoc, List.singleton_append] at hlatest
  rw [held, hlatest]
  rfl

/-- Processing a request leaves it in its slot, until it is cancelled or replaced. -/
theorem Dl0Ok.held_of_processed {s : PrefState τ} (h : Dl0Ok s) {slot : ℕ} {req : PrefMemReq}
    {pre later : List QueueEvent} {e : QueueEvent} (hh : s.history = pre ++ e :: later)
    (he : e.Processes slot req) (hlater : ∀ c ∈ later, ¬ c.Cancels slot ∧ ¬ c.Fills slot) :
    held slot s.history = some req := by
  have hpre : held slot pre = some req := by
    rcases he with rfl | rfl
    · exact h.lookups pre _ later hh slot req .hit rfl
    · exact h.lookups pre _ later hh slot req .forwarded rfl
  have hnone : ∀ c ∈ e :: later, heldAt slot c = none := by
    intro c hc
    rcases List.mem_cons.mp hc with rfl | hc
    · rcases he with rfl | rfl <;> rfl
    · exact heldAt_eq_none (hlater c hc).1 (hlater c hc).2
  rw [hh, held, latest_append_of_none hnone]
  exact hpre

/-- What the queue owes a request that it has processed: the slot is free until a new
request is put in it, and until then nothing is looked up in it. -/
structure ProcessedOnce (s : PrefState τ) (slot : ℕ) (later : List QueueEvent) : Prop where
  free : (∀ c ∈ later, ¬ c.Fills slot) → ((s.queue .dl0req).slots slot).valid = false
  notAgain : ∀ mid c rest, later = mid ++ c :: rest → c.LooksUp slot → ∃ d ∈ mid, d.Fills slot

/-- The request of the slot is cancelled or replaced before the loop comes back to it. -/
def ReleasedFirst (slot : ℕ) (later : List QueueEvent) : Prop :=
  ∃ kept c rest, later = kept ++ c :: rest ∧ (c.Cancels slot ∨ c.Fills slot) ∧
    ∀ d ∈ kept, ¬ d.LooksUp slot

end Scarab.Common
