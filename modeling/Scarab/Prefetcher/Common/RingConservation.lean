import Mathlib.Data.Finset.Card
import Scarab.Prefetcher.Common.RingOrder

/-! # Nothing is lost in a ring

With the add filter on and without overwriting, every request that is put into a ring
stays in its slot until it is sent, dropped or cancelled, and no line is pending twice. -/

namespace Scarab.Common

open History

variable {τ : Type} {p : PrefParams} {env : Env τ} {id : QueueId}

/-! ## Events of a slot -/

def QueueEvent.slot : QueueEvent → ℕ
  | .inserted _ ii _ | .cancelled _ ii _ | .dl0 ii _ _ | .sent _ ii _ | .dropped _ ii _ => ii

/-- What an event of a ring leaves in a slot, if it concerns the slot. -/
def QueueEvent.leaves (slot : ℕ) : QueueEvent → Option (Option PrefMemReq)
  | .inserted _ ii req => if ii = slot then some (some req) else none
  | .cancelled _ ii _ | .sent _ ii _ | .dropped _ ii _ => if ii = slot then some none else none
  | .dl0 _ _ _ => none

/-- The request that a trail leaves in a slot. -/
def leftIn (slot : ℕ) (trail : List QueueEvent) : Option PrefMemReq :=
  (latest (QueueEvent.leaves slot) trail).join

theorem leftIn_concat (slot : ℕ) (trail : List QueueEvent) (e : QueueEvent) :
    leftIn slot (trail ++ [e]) = (e.leaves slot).getD (leftIn slot trail) := by
  cases he : e.leaves slot with
  | none => rw [leftIn, latest_concat_of_none he, leftIn, Option.getD_none]
  | some v => rw [leftIn, latest_concat_of_some he, Option.join_some, Option.getD_some]

theorem leaves_eq_none {slot : ℕ} {e : QueueEvent} (h : e.slot ≠ slot) : e.leaves slot = none := by
  cases e with
  | inserted id ii req => exact if_neg h
  | cancelled id ii req => exact if_neg h
  | dl0 ii req result => rfl
  | sent id ii req => exact if_neg h
  | dropped id ii req => exact if_neg h

theorem leftIn_append_of_ne {slot : ℕ} {trail mid : List QueueEvent}
    (h : ∀ e ∈ mid, e.slot ≠ slot) : leftIn slot (trail ++ mid) = leftIn slot trail := by
  rw [leftIn, latest_append_of_none fun e he => leaves_eq_none (h e he), leftIn]

theorem leftIn_inserted (slot : ℕ) (req : PrefMemReq) (trail : List QueueEvent) :
    leftIn slot (trail ++ [.inserted id slot req]) = some req := by
  simp [leftIn_concat, QueueEvent.leaves]

theorem leftIn_takes {slot : ℕ} {req : PrefMemReq} {e : QueueEvent} (h : e.Takes id slot req)
    (trail : List QueueEvent) : leftIn slot (trail ++ [e]) = none := by
  rcases h with rfl | rfl | rfl <;> simp [leftIn_concat, QueueEvent.leaves]

/-! ## The invariant -/

/-- A request is put in an empty slot, and what leaves is what the slot holds. -/
def Legal (id : QueueId) (pre : List QueueEvent) (e : QueueEvent) : Prop :=
  ∃ slot req, (e = .inserted id slot req ∧ leftIn slot pre = none) ∨
    (e.Takes id slot req ∧ leftIn slot pre = some req)

namespace ReqQueue

variable (qp : QueueParams) (q : ReqQueue)

/-- The slots that hold a pending request. -/
def pending : Finset ℕ := (Finset.range qp.size).filter fun ii => (q.slots ii).valid = true

theorem mem_pending {ii : ℕ} : ii ∈ q.pending qp ↔ ii < qp.size ∧ (q.slots ii).valid = true := by
  simp [pending]

theorem pending_insert {newReq : PrefMemReq} (hvalid : newReq.valid = true) :
    (q.insert qp newReq).pending qp = Insert.insert (q.nextReqPos qp) (q.pending qp) := by
  ext ii
  have hlt := nextReqPos_lt qp q
  by_cases hi : ii = q.nextReqPos qp
  · subst hi
    simp [mem_pending, hvalid, hlt]
  · simp [mem_pending, hi, slots_insert_of_ne]

theorem pending_invalidate (ii : ℕ) : (q.invalidate ii).pending qp = (q.pending qp).erase ii := by
  ext jj
  by_cases hj : jj = ii
  · subst hj
    simp [mem_pending]
  · simp [mem_pending, hj, slots_invalidate_of_ne]

/-- No line is pending in two slots. -/
def Distinct : Prop :=
  ∀ ii ∈ q.pending qp, ∀ jj ∈ q.pending qp,
    (q.slots ii).lineIndex = (q.slots jj).lineIndex → ii = jj

end ReqQueue

/-- How many requests were put into the ring. -/
def Ring.inserted (r : Ring) : ℕ := r.trail.countP fun e => e matches .inserted ..

def Ring.sent (r : Ring) : ℕ := r.trail.countP fun e => e matches .sent ..

def Ring.dropped (r : Ring) : ℕ := r.trail.countP fun e => e matches .dropped ..

def Ring.cancelled (r : Ring) : ℕ := r.trail.countP fun e => e matches .cancelled ..

structure Conserved (qp : QueueParams) (id : QueueId) (r : Ring) : Prop where
  sendPos_lt : r.q.sendPos < qp.size
  distinct : r.q.Distinct qp
  holds : ∀ slot, r.q.holds slot = leftIn slot r.trail
  legal : Always (Legal id) r.trail
  balance : (r.q.pending qp).card + r.sent + r.dropped + r.cancelled = r.inserted

variable {qp : QueueParams} {r : Ring}

theorem Conserved.insert (h : Conserved qp id r) {newReq : PrefMemReq} (hvalid : newReq.valid = true)
    (hnew : ¬ r.q.Matches qp newReq.lineIndex)
    (hfree : (r.q.slots (r.q.nextReqPos qp)).valid = false) :
    Conserved qp id ⟨r.q.insert qp newReq,
      r.trail ++ [.inserted id (r.q.nextReqPos qp) newReq]⟩ := by
  have hempty : leftIn (r.q.nextReqPos qp) r.trail = none := by
    rw [← h.holds, ReqQueue.holds, hfree]
    rfl
  have hother : ∀ ii ∈ r.q.pending qp, (r.q.slots ii).lineIndex ≠ newReq.lineIndex := by
    intro ii hii heq
    exact hnew ⟨ii, ((r.q.mem_pending qp).mp hii).1, heq⟩
  have hnot : r.q.nextReqPos qp ∉ r.q.pending qp := by
    simp [ReqQueue.mem_pending, hfree]
  refine ⟨h.sendPos_lt, ?_, ?_, ?_, ?_⟩
  · intro ii hii jj hjj heq
    rw [ReqQueue.pending_insert _ _ hvalid, Finset.mem_insert] at hii hjj
    by_cases hi : ii = r.q.nextReqPos qp
    · by_cases hj : jj = r.q.nextReqPos qp
      · rw [hi, hj]
      · rw [hi, slots_insert_self, slots_insert_of_ne _ _ _ hj] at heq
        exact absurd heq.symm (hother jj (hjj.resolve_left hj))
    · have hii' := hii.resolve_left hi
      by_cases hj : jj = r.q.nextReqPos qp
      · rw [hj, slots_insert_self, slots_insert_of_ne _ _ _ hi] at heq
        exact absurd heq (hother ii hii')
      · rw [slots_insert_of_ne _ _ _ hi, slots_insert_of_ne _ _ _ hj] at heq
        exact h.distinct ii hii' jj (hjj.resolve_left hj) heq
  · intro slot
    rw [leftIn_concat, ReqQueue.holds_insert _ _ hvalid, h.holds]
    simp only [QueueEvent.leaves]
    split <;> rfl
  · rw [always_concat]
    exact ⟨h.legal, _, _, .inl ⟨rfl, hempty⟩⟩
  · have hcard : ((r.q.insert qp newReq).pending qp).card = (r.q.pending qp).card + 1 := by
      rw [ReqQueue.pending_insert _ _ hvalid, Finset.card_insert_of_notMem hnot]
    have hbal := h.balance
    simp only [Ring.sent, Ring.dropped, Ring.cancelled, Ring.inserted, List.countP_append,
      List.countP_singleton, hcard] at hbal ⊢
    simp
    omega

/-- A request leaves its slot. -/
theorem Conserved.take (h : Conserved qp id r) {slot : ℕ} (hslot : slot < qp.size)
    (hvalid : (r.q.slots slot).valid = true) {e : QueueEvent}
    (he : e.Takes id slot (r.q.slots slot)) :
    Conserved qp id ⟨r.q.invalidate slot, r.trail ++ [e]⟩ := by
  have hmem : slot ∈ r.q.pending qp := (r.q.mem_pending qp).mpr ⟨hslot, hvalid⟩
  refine ⟨h.sendPos_lt, ?_, ?_, ?_, ?_⟩
  · intro ii hii jj hjj heq
    rw [ReqQueue.pending_invalidate, Finset.mem_erase] at hii hjj
    rw [lineIndex_invalidate, lineIndex_invalidate] at heq
    exact h.distinct ii hii.2 jj hjj.2 heq
  · intro ii
    rw [leftIn_concat, ReqQueue.holds_invalidate, h.holds]
    rcases he with rfl | rfl | rfl
    all_goals
      simp only [QueueEvent.leaves]
      split <;> rfl
  · rw [always_concat]
    refine ⟨h.legal, slot, r.q.slots slot, .inr ⟨he, ?_⟩⟩
    rw [← h.holds, ReqQueue.holds_of_valid hvalid]
  · have hcard : ((r.q.invalidate slot).pending qp).card + 1 = (r.q.pending qp).card := by
      rw [ReqQueue.pending_invalidate, Finset.card_erase_add_one hmem]
    have hbal := h.balance
    simp only [Ring.sent, Ring.dropped, Ring.cancelled, Ring.inserted, List.countP_append,
      List.countP_singleton] at hbal ⊢
    rcases he with rfl | rfl | rfl
    all_goals
      simp
      omega

theorem Conserved.advance (h : Conserved qp id r) : Conserved qp id ⟨r.q.advance qp, r.trail⟩ :=
  ⟨Cyclic.succ_mod_lt h.sendPos_lt, h.distinct, h.holds, h.legal, h.balance⟩

theorem Conserved.init (qp : QueueParams) : Conserved qp id .init := by
  refine ⟨qp.size_pos, ?_, fun _ => rfl, always_nil, ?_⟩
  · intro ii hii
    simp [ReqQueue.mem_pending, Ring.init, ReqQueue.init, PrefMemReq.zero] at hii
  · simp [ReqQueue.pending, Ring.init, ReqQueue.init, PrefMemReq.zero, Ring.sent, Ring.dropped,
      Ring.cancelled, Ring.inserted]

theorem Visited.conserved (hid : id ≠ .dl0req) (hfilter : (p.queue id).addFilterOn = true)
    (hover : (p.queue id).overwriteOnFull = false) {s : PrefState τ} (h : Visited p env s) :
    Conserved (p.queue id) id (s.ring id) := by
  refine ring_invariant (C := fun _ _ => True) hid (Conserved.init _) ?_
    (h.map (f := fun s => s) (fun _ hs => hs) fun _ _ hs => .single ⟨hs, trivial⟩)
  intro s s' hh _ hstep
  generalize s'.ring id = r' at hstep
  cases hstep with
  | insert newReq hvalid hnew hfree =>
      exact hh.insert hvalid (fun hmatch => hnew ⟨hfilter, hmatch⟩)
        (hfree.resolve_right (by simp [hover]))
  | cancel ii hlt hvalid => exact hh.take hlt hvalid (.inl rfl)
  | skip hvalid => exact hh.advance
  | drop hvalid => exact hh.take hh.sendPos_lt hvalid (.inr (.inr rfl))
  | send hvalid => exact (hh.take hh.sendPos_lt hvalid (.inr (.inl rfl))).advance

/-! ## The fate of a request -/

/-- A request that was put in a slot is still there, or it was the next to leave the slot,
which was filled anew before anything left it again. -/
def LeavesOnce (r : Ring) (id : QueueId) (slot : ℕ) (req : PrefMemReq)
    (later : List QueueEvent) : Prop :=
  ((∀ e ∈ later, e.slot ≠ slot) ∧ r.q.holds slot = some req) ∨
    ∃ mid e rest, later = mid ++ e :: rest ∧ (∀ c ∈ mid, c.slot ≠ slot) ∧ e.Takes id slot req ∧
      ∀ mid' c rest', rest = mid' ++ c :: rest' → (∀ d ∈ mid', d.slot ≠ slot) → c.slot = slot →
        ∃ req', c = .inserted id slot req'

theorem Legal.slot {pre : List QueueEvent} {e : QueueEvent} (h : Legal id pre e) :
    (∃ req, e = .inserted id e.slot req ∧ leftIn e.slot pre = none) ∨
      ∃ req, e.Takes id e.slot req ∧ leftIn e.slot pre = some req := by
  obtain ⟨slot, req, ⟨rfl, hempty⟩ | ⟨htakes, hheld⟩⟩ := h
  · exact .inl ⟨req, rfl, hempty⟩
  · right
    rcases htakes with rfl | rfl | rfl
    · exact ⟨req, .inl rfl, hheld⟩
    · exact ⟨req, .inr (.inl rfl), hheld⟩
    · exact ⟨req, .inr (.inr rfl), hheld⟩

theorem Conserved.leavesOnce (h : Conserved qp id r) {pre later : List QueueEvent} {slot : ℕ}
    {req : PrefMemReq} (hr : r.trail = pre ++ .inserted id slot req :: later) :
    LeavesOnce r id slot req later := by
  have hput : ∀ mid : List QueueEvent, (∀ c ∈ mid, c.slot ≠ slot) →
      leftIn slot (pre ++ .inserted id slot req :: mid) = some req := by
    intro mid hmid
    rw [← List.singleton_append, ← List.append_assoc, leftIn_append_of_ne hmid, leftIn_inserted]
  rcases forall_not_or_exists_first (fun e : QueueEvent => e.slot = slot) later with
    hnone | ⟨mid, e, rest, rfl, rfl, hmid⟩
  · left
    refine ⟨hnone, ?_⟩
    rw [h.holds, hr, hput later hnone]
  · right
    have hsplit : r.trail = (pre ++ .inserted id e.slot req :: mid) ++ e :: rest := by simp [hr]
    -- the slot is not empty, so that the event takes the request out
    obtain ⟨req', _, hempty⟩ | ⟨req', htakes, hheld⟩ := (h.legal _ _ _ hsplit).slot
    · rw [hput mid hmid] at hempty
      cases hempty
    · obtain rfl : req = req' := Option.some.inj ((hput mid hmid).symm.trans hheld)
      refine ⟨mid, e, rest, rfl, hmid, htakes, ?_⟩
      intro mid' c rest' hrest hmid' hc
      have hsplit' : r.trail =
          ((pre ++ .inserted id e.slot req :: mid) ++ [e] ++ mid') ++ c :: rest' := by
        simp [hr, hrest]
      have hgone : leftIn c.slot ((pre ++ .inserted id e.slot req :: mid) ++ [e] ++ mid') =
          none := by
        rw [hc, leftIn_append_of_ne hmid']
        exact leftIn_takes htakes _
      obtain ⟨req'', hins, _⟩ | ⟨req'', _, hheld'⟩ := (h.legal _ _ _ hsplit').slot
      · exact ⟨req'', hc ▸ hins⟩
      · rw [hgone] at hheld'
        cases hheld'

/-- With the add filter on and without overwriting, in every state of every run: no line is
pending in two slots of the UL1 queue; every request that was put into the queue is still in
its slot or left it once; and the pending requests are those that were put in and not sent,
dropped or cancelled. -/
theorem ul1_conserved (hfilter : (p.queue .ul1req).addFilterOn = true)
    (hover : (p.queue .ul1req).overwriteOnFull = false) {s : PrefState τ} (h : Visited p env s) :
    (s.queue .ul1req).Distinct (p.queue .ul1req) ∧
    (∀ pre slot req later, (s.ring .ul1req).trail = pre ++ .inserted .ul1req slot req :: later →
      LeavesOnce (s.ring .ul1req) .ul1req slot req later) ∧
    (((s.queue .ul1req).pending (p.queue .ul1req)).card : ℤ) =
      (s.ring .ul1req).inserted - (s.ring .ul1req).sent - (s.ring .ul1req).dropped -
        (s.ring .ul1req).cancelled := by
  have hc := h.conserved (by decide) hfilter hover
  refine ⟨hc.distinct, fun pre slot req later hr => hc.leavesOnce hr, ?_⟩
  have hbal := hc.balance
  change ((s.queue .ul1req).pending (p.queue .ul1req)).card + _ + _ + _ = _ at hbal
  omega

/-- Of three requests the first is sent and the last is cancelled. -/
theorem ul1_conserved_applies :
    ∃ s : PrefState Unit, Reachable PrefParams.default (idle false) s ∧
      (s.queue .ul1req).Distinct (PrefParams.default.queue .ul1req) ∧
      (((s.queue .ul1req).pending (PrefParams.default.queue .ul1req)).card : ℤ) =
        3 - 1 - 0 - 1 := by
  have hrun : ((afterOperations PrefParams.default (idle false) ()
      [.addUl1 0 0x4000 1 0 0 0 false, .updateCore 0, .addUl1 0 0x4001 1 0 0 0 false,
        .addUl1 0 0x4002 1 0 0 0 false, .filterUl1 0x100080]).toOption.map
      fun s => ((s.ring .ul1req).inserted, (s.ring .ul1req).sent, (s.ring .ul1req).dropped,
        (s.ring .ul1req).cancelled)) = some (3, 1, 0, 1) := by decide +kernel
  obtain ⟨s, hs, hobs⟩ := exists_reachable hrun
  obtain ⟨hdistinct, _, hcount⟩ := ul1_conserved rfl rfl hs.visited
  simp only [Prod.mk.injEq] at hobs
  rw [hobs.1, hobs.2.1, hobs.2.2.1, hobs.2.2.2] at hcount
  exact ⟨s, hs, hdistinct, hcount⟩

end Scarab.Common
