import Scarab.Prefetcher.Common.Ring

/-! # The order of a ring

`req_pos` and `send_pos` go around a ring independently of each other, and demands
cancel requests anywhere in it. As long as the pending requests leave in the order of
their slots, no slot is free between them, and as long as `req_pos` does not pass
`send_pos`, they are sent in the order in which they were accepted. -/

namespace Scarab.Common

open Scarab.Cyclic

variable {τ : Type} {p : PrefParams} {env : Env τ} {id : QueueId}

/-! ## Free slots between pending ones -/

namespace ReqQueue

variable (qp : QueueParams) (q : ReqQueue)

/-- Every slot holds a pending request. -/
def Full : Prop := ∀ ii < qp.size, (q.slots ii).valid = true

instance : Decidable (q.Full qp) := inferInstanceAs (Decidable (∀ ii < _, _))

/-- How many insertions it takes to come to a slot. -/
def turn (ii : ℕ) : ℕ := distance qp.size (q.nextReqPos qp) ii

/-- The slot holds the pending request that comes first after `req_pos`. -/
def First (ii : ℕ) : Prop :=
  ∀ jj < qp.size, (q.slots jj).valid = true → q.turn qp ii ≤ q.turn qp jj

instance (ii : ℕ) : Decidable (q.First qp ii) := inferInstanceAs (Decidable (∀ jj < _, _))

/-- No slot is free behind a pending one. -/
def NoHole : Prop :=
  ∀ ii < qp.size, ∀ jj < qp.size,
    (q.slots ii).valid = true → q.turn qp ii ≤ q.turn qp jj → (q.slots jj).valid = true

variable {qp q}

theorem NoHole.full (h : q.NoHole qp) (hnext : (q.slots (q.nextReqPos qp)).valid = true) :
    q.Full qp := by
  intro ii hii
  refine h _ (nextReqPos_lt qp q) ii hii hnext ?_
  simp [turn]

theorem NoHole.insert (h : q.NoHole qp) {newReq : PrefMemReq} (hvalid : newReq.valid = true) :
    (q.insert qp newReq).NoHole qp := by
  have hlt := nextReqPos_lt qp q
  intro ii hii jj hjj hv hle
  simp only [turn, nextReqPos_insert] at hle
  by_cases hj : jj = q.nextReqPos qp
  · rw [hj, slots_insert_self]
    exact hvalid
  · rw [slots_insert_of_ne _ _ _ hj]
    by_cases hi : ii = q.nextReqPos qp
    · -- the new request is the last one, so that nothing comes behind it
      rw [hi, distance_succ_self hlt] at hle
      have hstep := distance_succ_of_ne hlt hjj hj
      have hbound := distance_lt hlt hjj
      omega
    · rw [slots_insert_of_ne _ _ _ hi] at hv
      refine h ii hii jj hjj hv ?_
      have hi' := distance_succ_of_ne hlt hii hi
      have hj' := distance_succ_of_ne hlt hjj hj
      simp only [turn]
      omega

theorem NoHole.invalidate (h : q.NoHole qp) {slot : ℕ} (hslot : slot < qp.size)
    (hfirst : q.First qp slot) : (q.invalidate slot).NoHole qp := by
  intro ii hii jj hjj hv hle
  obtain ⟨hne, hold⟩ := valid_invalidate q hv
  have hjj' := h ii hii jj hjj hold hle
  rw [slots_invalidate_of_ne]
  · exact hjj'
  · -- the first pending request is before the others
    intro hj
    subst hj
    have heq := Nat.le_antisymm hle (hfirst ii hii hold)
    exact hne (distance_inj (nextReqPos_lt qp q) hii hjj heq)

theorem NoHole.advance (h : q.NoHole qp) : (q.advance qp).NoHole qp := h

end ReqQueue

/-- The event takes a request out of a slot of a queue. -/
def QueueEvent.Takes (id : QueueId) (slot : ℕ) (req : PrefMemReq) (e : QueueEvent) : Prop :=
  e = .cancelled id slot req ∨ e = .sent id slot req ∨ e = .dropped id slot req

/-- If a request leaves a queue in a step, it is the first pending one. -/
def LeavesFirst (p : PrefParams) (id : QueueId) (s s' : PrefState τ) : Prop :=
  ∀ e slot req, (s'.ring id).trail = (s.ring id).trail ++ [e] → e.Takes id slot req →
    (s.queue id).First (p.queue id) slot

theorem noHole_of_leavesFirst (hid : id ≠ .dl0req) {s : PrefState τ}
    (h : Execution.Visited Initial (fun s s' => Step p env s s' ∧ LeavesFirst p id s s') s) :
    (s.queue id).NoHole (p.queue id) ∧ (s.queue id).sendPos < (p.queue id).size := by
  refine ring_invariant (I := fun r => r.q.NoHole (p.queue id) ∧ r.q.sendPos < (p.queue id).size)
    hid ⟨?_, (p.queue id).size_pos⟩ ?_ h
  · intro ii _ jj _ hv
    cases hv
  · rintro s s' ⟨hh, hpos⟩ hleaves hstep
    refine ⟨?_, hstep.sendPos_lt hpos⟩
    generalize hr : s'.ring id = r' at hstep
    cases hstep with
    | insert newReq hvalid hnew hfree => exact hh.insert hvalid
    | cancel ii hlt hvalid =>
        exact hh.invalidate hlt (hleaves _ ii _ (congrArg Ring.trail hr) (.inl rfl))
    | skip hvalid => exact hh.advance
    | drop hvalid =>
        exact hh.invalidate hpos (hleaves _ _ _ (congrArg Ring.trail hr) (.inr (.inr rfl)))
    | send hvalid =>
        exact (hh.invalidate hpos
          (hleaves _ _ _ (congrArg Ring.trail hr) (.inr (.inl rfl)))).advance

/-- In every run in which only first pending requests leave the queue, a request is refused
only when every slot of the queue is pending. -/
theorem refused_only_when_full {s : PrefState τ} (procId : Uns8) (lineIndex : Addr)
    (prefetcherId : Uns8) (distance : Uns) (loadPC : Addr) (globalHist : Uns) (bw : Bool) :
    (Execution.Visited Initial (fun s s' => Step p env s s' ∧ LeavesFirst p .umlcReq s s') s →
      (prefAddtoUmlcReqQueue p s procId lineIndex prefetcherId).1 = false →
        (s.queue .umlcReq).Full (p.queue .umlcReq)) ∧
    (Execution.Visited Initial (fun s s' => Step p env s s' ∧ LeavesFirst p .ul1req s s') s →
      (prefAddtoUl1reqQueueSet p s procId lineIndex prefetcherId distance loadPC globalHist bw).1 =
          false →
        (s.queue .ul1req).Full (p.queue .ul1req)) := by
  constructor
  · intro h hrefused
    obtain ⟨hnext, _⟩ := addToQueue_of_false hrefused
    exact (noHole_of_leavesFirst (by decide) h).1.full hnext
  · intro h hrefused
    obtain ⟨hnext, _⟩ := addToQueue_of_false hrefused
    exact (noHole_of_leavesFirst (by decide) h).1.full hnext

/-- The default parameters, with two slots in the UL1 queue. -/
def twoSlots : PrefParams :=
  { PrefParams.default with
    queue := fun id =>
      if id = .ul1req then ⟨2, 4, true, true, false, Nat.two_pos⟩ else PrefParams.default.queue id }

/-- A request of `pref_addto_ul1req_queue` for core 0. -/
def ul1Request (lineIndex : Addr) : PrefMemReq :=
  ⟨0, lineIndex <<< 6, lineIndex, 0, 0, 1, 0, true, false⟩

/-- The core after requests for some lines, from `pref_core_init` on. -/
def afterRequests (p : PrefParams) (lines : List Addr) : PrefState Unit :=
  lines.foldl (fun s line => (addToQueue p s .ul1req (ul1Request line)).2) ⟨fun _ => .init, (), []⟩

/-- An add takes nothing out of a queue. -/
theorem leavesFirst_addToQueue (s : PrefState τ) (id' : QueueId) (newReq : PrefMemReq) :
    LeavesFirst p id s (addToQueue p s id' newReq).2 := by
  intro e slot req he htakes
  rcases @ring_addToQueue_spec _ p id s id' newReq with hsame | ⟨_, _, hins⟩
  · rw [hsame] at he
    simp at he
  · rw [hins] at he
    obtain rfl := List.singleton_inj.mp (List.append_cancel_left he)
    simp [QueueEvent.Takes] at htakes

/-- Two requests fill the two slots, and a third one is refused. -/
theorem refused_only_when_full_applies :
    (prefAddtoUl1reqQueueSet twoSlots (afterRequests twoSlots [0x4000, 0x4001])
        0 0x4002 1 0 0 0 false).1 = false ∧
      ((afterRequests twoSlots [0x4000, 0x4001]).queue .ul1req).Full (twoSlots.queue .ul1req) := by
  have hrefused : (prefAddtoUl1reqQueueSet twoSlots (afterRequests twoSlots [0x4000, 0x4001])
      0 0x4002 1 0 0 0 false).1 = false := by decide +kernel
  refine ⟨hrefused, (@refused_only_when_full _ _ (idle false) _ 0 0x4002 1 0 0 0 false).2
    ⟨afterRequests twoSlots [], ⟨rfl, rfl⟩, ?_⟩ hrefused⟩
  have hfirst : LeavesFirst twoSlots .ul1req (afterRequests twoSlots [])
      (afterRequests twoSlots [0x4000]) := leavesFirst_addToQueue _ .ul1req (ul1Request 0x4000)
  have hsecond : LeavesFirst twoSlots .ul1req (afterRequests twoSlots [0x4000])
      (afterRequests twoSlots [0x4000, 0x4001]) :=
    leavesFirst_addToQueue _ .ul1req (ul1Request 0x4001)
  exact .tail (.tail .refl ⟨.add _ .ul1req _ rfl, hfirst⟩) ⟨.add _ .ul1req _ rfl, hsecond⟩

/-- A demand cancels the second of two requests. Its slot is free, and a third one is refused. -/
theorem refused_with_free_slot :
    ∃ s : PrefState Unit, Reachable twoSlots (idle false) s ∧
      (prefAddtoUl1reqQueueSet twoSlots s 0 0x4002 1 0 0 0 false).1 = false ∧
      ¬ (s.queue .ul1req).Full (twoSlots.queue .ul1req) := by
  have hrun : ((afterOperations twoSlots (idle false) ()
      [.addUl1 0 0x4000 1 0 0 0 false, .addUl1 0 0x4001 1 0 0 0 false,
        .filterUl1 0x100040]).toOption.map
      fun s => ((prefAddtoUl1reqQueueSet twoSlots s 0 0x4002 1 0 0 0 false).1,
        decide ((s.queue .ul1req).Full (twoSlots.queue .ul1req)))) = some (false, false) := by
    decide +kernel
  obtain ⟨s, hs, hobs⟩ := exists_reachable hrun
  simp only [Prod.mk.injEq, decide_eq_false_iff_not] at hobs
  exact ⟨s, hs, hobs.1, hobs.2⟩

/-! ## Sending in the order of acceptance -/

/-- What the trail of a ring tells about acceptance: how many requests were accepted, the
number under which the last request of each slot was, and the numbers of those sent. -/
structure Ledger where
  accepted : ℕ
  number : ℕ → ℕ
  sent : List ℕ

def Ledger.log (t : Ledger) : QueueEvent → Ledger
  | .inserted _ slot _ =>
      { t with accepted := t.accepted + 1, number := Function.update t.number slot t.accepted }
  | .sent _ slot _ => { t with sent := t.sent ++ [t.number slot] }
  | _ => t

def Ring.ledger (r : Ring) : Ledger := r.trail.foldl Ledger.log ⟨0, fun _ => 0, []⟩

/-- Requests are sent in the order in which they were accepted. -/
def Ring.SentInOrder (r : Ring) : Prop := r.ledger.sent.Pairwise (· < ·)

instance (r : Ring) : Decidable r.SentInOrder := inferInstanceAs (Decidable (List.Pairwise _ _))

theorem ledger_concat (q : ReqQueue) (trail : List QueueEvent) (e : QueueEvent) (q' : ReqQueue) :
    (Ring.mk q' (trail ++ [e])).ledger = (Ring.mk q trail).ledger.log e := by
  simp [Ring.ledger]

namespace ReqQueue

variable (qp : QueueParams) (q : ReqQueue)

/-- How many turns of the send loop it takes to come to a slot. -/
def wait (ii : ℕ) : ℕ := distance qp.size q.sendPos ii

/-- A request that is put into the ring would be sent before a pending one. -/
def Wraps : Prop :=
  q.nextReqPos qp = q.sendPos ∧
    ∃ ii < qp.size, ii ≠ q.nextReqPos qp ∧ (q.slots ii).valid = true

instance : Decidable (q.Wraps qp) := inferInstanceAs (Decidable (_ ∧ ∃ ii < _, _))

end ReqQueue

/-- If a request is accepted in a step, it goes behind all pending ones. -/
def AcceptsBehind (p : PrefParams) (id : QueueId) (s s' : PrefState τ) : Prop :=
  ∀ slot req, (s'.ring id).trail = (s.ring id).trail ++ [.inserted id slot req] →
    ¬ (s.queue id).Wraps (p.queue id)

/-- The pending requests lie between `send_pos` and `req_pos`, in the order of their
numbers, and what was sent has smaller numbers. -/
structure Ordered (qp : QueueParams) (r : Ring) : Prop where
  sendPos_lt : r.q.sendPos < qp.size
  between : r.q.wait qp (r.q.nextReqPos qp) ≠ 0 → ∀ ii < qp.size, (r.q.slots ii).valid = true →
    r.q.wait qp ii < r.q.wait qp (r.q.nextReqPos qp)
  number_lt : ∀ ii < qp.size, (r.q.slots ii).valid = true → r.ledger.number ii < r.ledger.accepted
  increasing : ∀ ii < qp.size, ∀ jj < qp.size, (r.q.slots ii).valid = true →
    (r.q.slots jj).valid = true → r.q.wait qp ii < r.q.wait qp jj →
    r.ledger.number ii < r.ledger.number jj
  sent_lt : ∀ k ∈ r.ledger.sent, k < r.ledger.accepted ∧
    ∀ ii < qp.size, (r.q.slots ii).valid = true → k < r.ledger.number ii
  inOrder : r.SentInOrder

variable {qp : QueueParams} {r : Ring}

theorem Ordered.invalidate (h : Ordered qp r) (ii : ℕ) {e : QueueEvent}
    (he : r.ledger.log e = r.ledger) : Ordered qp ⟨r.q.invalidate ii, r.trail ++ [e]⟩ := by
  have hledger : (Ring.mk (r.q.invalidate ii) (r.trail ++ [e])).ledger = r.ledger := by
    rw [ledger_concat r.q, he]
  refine ⟨h.sendPos_lt, ?_, ?_, ?_, ?_, ?_⟩
  · intro hne jj hjj hv
    exact h.between hne jj hjj (valid_invalidate r.q hv).2
  · intro jj hjj hv
    rw [hledger]
    exact h.number_lt jj hjj (valid_invalidate r.q hv).2
  · intro jj hjj kk hkk hvj hvk hlt
    rw [hledger]
    exact h.increasing jj hjj kk hkk (valid_invalidate r.q hvj).2 (valid_invalidate r.q hvk).2 hlt
  · intro k hk
    rw [hledger] at hk ⊢
    obtain ⟨hacc, hall⟩ := h.sent_lt k hk
    exact ⟨hacc, fun jj hjj hv => hall jj hjj (valid_invalidate r.q hv).2⟩
  · rw [Ring.SentInOrder, hledger]
    exact h.inOrder

/-- Moving on from a free slot. -/
theorem Ordered.advance (h : Ordered qp r) (hfree : (r.q.slots r.q.sendPos).valid = false) :
    Ordered qp ⟨r.q.advance qp, r.trail⟩ := by
  have hne : ∀ ii, (r.q.slots ii).valid = true → ii ≠ r.q.sendPos := by
    rintro ii hv rfl
    rw [hfree] at hv
    cases hv
  have hnear : ∀ ii < qp.size, (r.q.slots ii).valid = true →
      (r.q.advance qp).wait qp ii + 1 = r.q.wait qp ii := by
    intro ii hii hv
    exact distance_succ_of_ne h.sendPos_lt hii (hne ii hv)
  refine ⟨succ_mod_lt h.sendPos_lt, ?_, h.number_lt, ?_, h.sent_lt, h.inOrder⟩
  · intro _ ii hii hv
    have hi := hnear ii hii hv
    change (r.q.advance qp).wait qp ii < (r.q.advance qp).wait qp (r.q.nextReqPos qp)
    by_cases hnext : r.q.nextReqPos qp = r.q.sendPos
    · -- the slot to fill is now the last one to send
      have hlast : (r.q.advance qp).wait qp (r.q.nextReqPos qp) = qp.size - 1 := by
        rw [hnext]
        exact distance_succ_self h.sendPos_lt
      have hbound : r.q.wait qp ii < qp.size := distance_lt h.sendPos_lt hii
      omega
    · have hstep : (r.q.advance qp).wait qp (r.q.nextReqPos qp) + 1 =
          r.q.wait qp (r.q.nextReqPos qp) :=
        distance_succ_of_ne h.sendPos_lt (nextReqPos_lt qp r.q) hnext
      have hlt := h.between (by omega) ii hii hv
      omega
  · intro ii hii jj hjj hvi hvj hlt
    have hi := hnear ii hii hvi
    have hj := hnear jj hjj hvj
    refine h.increasing ii hii jj hjj hvi hvj ?_
    change (r.q.advance qp).wait qp ii < (r.q.advance qp).wait qp jj at hlt
    omega

/-- A request goes behind all pending ones. -/
theorem Ordered.insert (h : Ordered qp r) {newReq : PrefMemReq} (hwrap : ¬ r.q.Wraps qp) :
    Ordered qp ⟨r.q.insert qp newReq,
      r.trail ++ [.inserted id (r.q.nextReqPos qp) newReq]⟩ := by
  have hlt := nextReqPos_lt qp r.q
  have hledger : (Ring.mk (r.q.insert qp newReq)
      (r.trail ++ [.inserted id (r.q.nextReqPos qp) newReq])).ledger =
      r.ledger.log (.inserted id (r.q.nextReqPos qp) newReq) := ledger_concat r.q _ _ _
  -- an old request keeps its number, and it is sent before the new one
  have hbefore : ∀ ii < qp.size, ii ≠ r.q.nextReqPos qp → (r.q.slots ii).valid = true →
      r.q.wait qp ii < r.q.wait qp (r.q.nextReqPos qp) := by
    intro ii hii hne hv
    refine h.between ?_ ii hii hv
    intro hzero
    refine hwrap ⟨?_, ii, hii, hne, hv⟩
    exact (distance_eq_zero h.sendPos_lt).mp hzero
  have hold : ∀ ii, ii ≠ r.q.nextReqPos qp →
      ((r.q.insert qp newReq).slots ii).valid = true → (r.q.slots ii).valid = true := by
    intro ii hne hv
    rwa [slots_insert_of_ne _ _ _ hne] at hv
  refine ⟨h.sendPos_lt, ?_, ?_, ?_, ?_, ?_⟩
  · intro hne ii hii hv
    simp only [ReqQueue.wait, insert_sendPos, nextReqPos_insert] at hne ⊢
    rw [distance_succ_right h.sendPos_lt hlt] at hne ⊢
    split at hne
    · exact absurd rfl hne
    · rename_i hback
      rw [if_neg hback]
      by_cases hi : ii = r.q.nextReqPos qp
      · rw [hi]
        omega
      · have := hbefore ii hii hi (hold ii hi hv)
        simp only [ReqQueue.wait] at this
        omega
  · intro ii hii hv
    simp only [hledger, Ledger.log]
    by_cases hi : ii = r.q.nextReqPos qp
    · simp [hi]
    · have := h.number_lt ii hii (hold ii hi hv)
      simp only [Function.update_of_ne hi]
      omega
  · intro ii hii jj hjj hvi hvj hwait
    simp only [ReqQueue.wait, insert_sendPos] at hwait
    simp only [hledger, Ledger.log]
    by_cases hj : jj = r.q.nextReqPos qp
    · have hi : ii ≠ r.q.nextReqPos qp := by
        rintro rfl
        rw [hj] at hwait
        omega
      rw [hj, Function.update_self, Function.update_of_ne hi]
      exact h.number_lt ii hii (hold ii hi hvi)
    · by_cases hi : ii = r.q.nextReqPos qp
      · have := hbefore jj hjj hj (hold jj hj hvj)
        simp only [ReqQueue.wait] at this
        rw [hi] at hwait
        omega
      · rw [Function.update_of_ne hi, Function.update_of_ne hj]
        exact h.increasing ii hii jj hjj (hold ii hi hvi) (hold jj hj hvj) hwait
  · intro k hk
    simp only [hledger, Ledger.log] at hk ⊢
    obtain ⟨hacc, hall⟩ := h.sent_lt k hk
    refine ⟨by omega, ?_⟩
    intro ii hii hv
    by_cases hi : ii = r.q.nextReqPos qp
    · simpa [hi] using hacc
    · rw [Function.update_of_ne hi]
      exact hall ii hii (hold ii hi hv)
  · rw [Ring.SentInOrder, hledger]
    exact h.inOrder

/-- Sending the request at `send_pos`, which has the smallest number. -/
theorem Ordered.send (h : Ordered qp r) (hvalid : (r.q.slots r.q.sendPos).valid = true)
    (req : PrefMemReq) :
    Ordered qp ⟨(r.q.invalidate r.q.sendPos).advance qp,
      r.trail ++ [.sent id r.q.sendPos req]⟩ := by
  have hledger : (Ring.mk (r.q.invalidate r.q.sendPos)
      (r.trail ++ [.sent id r.q.sendPos req])).ledger =
      r.ledger.log (.sent id r.q.sendPos req) := ledger_concat r.q _ _ _
  have hafter : ∀ ii < qp.size, ((r.q.invalidate r.q.sendPos).slots ii).valid = true →
      r.ledger.number r.q.sendPos < r.ledger.number ii := by
    intro ii hii hv
    obtain ⟨hne, hold⟩ := valid_invalidate r.q hv
    refine h.increasing _ h.sendPos_lt ii hii hvalid hold ?_
    have hpos : r.q.wait qp ii ≠ 0 := fun hz => hne ((distance_eq_zero h.sendPos_lt).mp hz)
    simp only [ReqQueue.wait, distance_self] at hpos ⊢
    omega
  have hsent : Ordered qp ⟨r.q.invalidate r.q.sendPos,
      r.trail ++ [.sent id r.q.sendPos req]⟩ := by
    refine ⟨h.sendPos_lt, ?_, ?_, ?_, ?_, ?_⟩
    · intro hne ii hii hv
      exact h.between hne ii hii (valid_invalidate r.q hv).2
    · intro ii hii hv
      rw [hledger]
      exact h.number_lt ii hii (valid_invalidate r.q hv).2
    · intro ii hii jj hjj hvi hvj hlt
      rw [hledger]
      exact h.increasing ii hii jj hjj (valid_invalidate r.q hvi).2 (valid_invalidate r.q hvj).2 hlt
    · intro k hk
      simp only [hledger, Ledger.log, List.mem_append, List.mem_singleton] at hk ⊢
      rcases hk with hk | rfl
      · obtain ⟨hacc, hall⟩ := h.sent_lt k hk
        exact ⟨hacc, fun ii hii hv => hall ii hii (valid_invalidate r.q hv).2⟩
      · exact ⟨h.number_lt _ h.sendPos_lt hvalid, hafter⟩
    · rw [Ring.SentInOrder, hledger]
      refine List.pairwise_append.mpr ⟨h.inOrder, by simp, ?_⟩
      intro k hk n hn
      obtain rfl := List.mem_singleton.mp hn
      exact (h.sent_lt k hk).2 _ h.sendPos_lt hvalid
  exact hsent.advance (by simp)

theorem ordered_of_acceptsBehind (hid : id ≠ .dl0req) {s : PrefState τ}
    (h : Execution.Visited Initial (fun s s' => Step p env s s' ∧ AcceptsBehind p id s s') s) :
    Ordered (p.queue id) (s.ring id) := by
  refine ring_invariant (I := Ordered (p.queue id)) hid ?_ ?_ h
  · refine ⟨(p.queue id).size_pos, ?_, ?_, ?_, by simp [Ring.ledger, Ring.init],
      by simp [Ring.SentInOrder, Ring.ledger, Ring.init]⟩
    · intro _ ii _ hv
      cases hv
    · intro ii _ hv
      cases hv
    · intro ii _ jj _ hv
      cases hv
  · intro s s' hh haccepts hstep
    generalize hr : s'.ring id = r' at hstep
    cases hstep with
    | insert newReq hvalid hnew hfree =>
        exact hh.insert (haccepts _ _ (congrArg Ring.trail hr))
    | cancel ii hlt hvalid => exact hh.invalidate ii rfl
    | skip hvalid => exact hh.advance hvalid
    | drop hvalid => exact hh.invalidate _ rfl
    | send hvalid => exact hh.send hvalid _

/-- In every run in which `req_pos` never passes `send_pos` while requests are pending, the
requests that are sent leave the queue in the order in which they were accepted. -/
theorem ul1_sent_in_order {s : PrefState τ}
    (h : Execution.Visited Initial (fun s s' => Step p env s s' ∧ AcceptsBehind p .ul1req s s') s) :
    (s.ring .ul1req).SentInOrder :=
  (ordered_of_acceptsBehind (by decide) h).inOrder

/-- The core after one turn of the UL1 loop. -/
def afterTurn (s : PrefState Unit) : PrefState Unit :=
  match sendTurn PrefParams.default (idle false) .ul1req s with
  | .ok (s', _) => s'
  | .error _ => s

/-- Two requests are accepted and sent. -/
theorem ul1_sent_in_order_applies :
    ((afterTurn (afterTurn (afterRequests .default [0x4000, 0x4001]))).ring .ul1req).ledger.sent =
        [0, 1] ∧
      ((afterTurn (afterTurn (afterRequests .default [0x4000, 0x4001]))).ring
        .ul1req).SentInOrder := by
  refine ⟨by decide +kernel,
    @ul1_sent_in_order _ PrefParams.default (idle false) _
      ⟨afterRequests .default [], ⟨rfl, rfl⟩, ?_⟩⟩
  have hadd : ∀ s : PrefState Unit, ∀ req : PrefMemReq, req.valid = true →
      ¬ (s.queue .ul1req).Wraps (PrefParams.default.queue .ul1req) →
      Step PrefParams.default (idle false) s (addToQueue .default s .ul1req req).2 ∧
        AcceptsBehind PrefParams.default .ul1req s (addToQueue .default s .ul1req req).2 := by
    intro s req hvalid hwrap
    exact ⟨.add s .ul1req req hvalid, fun _ _ _ => hwrap⟩
  have hsend : ∀ s : PrefState Unit,
      (sendTurn PrefParams.default (idle false) .ul1req s).toOption.isSome = true →
      ¬ (s.queue .ul1req).Wraps (PrefParams.default.queue .ul1req) →
      Step PrefParams.default (idle false) s (afterTurn s) ∧
        AcceptsBehind PrefParams.default .ul1req s (afterTurn s) := by
    intro s hs hwrap
    refine ⟨?_, fun _ _ _ => hwrap⟩
    unfold afterTurn
    cases h : sendTurn PrefParams.default (idle false) .ul1req s with
    | error e => simp [h, Except.toOption] at hs
    | ok out => exact .send (by decide) h
  exact .tail (.tail (.tail (.tail .refl
    (hadd (afterRequests .default []) (ul1Request 0x4000) rfl (by decide +kernel)))
    (hadd (afterRequests .default [0x4000]) (ul1Request 0x4001) rfl (by decide +kernel)))
    (hsend _ (by decide +kernel) (by decide +kernel))) (hsend _ (by decide +kernel) (by decide +kernel))

/-- The send loop goes around the empty ring and stops at slot 4. Then five requests are
accepted: the fifth is sent first. -/
theorem ul1_sent_out_of_order :
    ∃ s : PrefState Unit, Reachable PrefParams.default (idle false) s ∧
      (s.ring .ul1req).ledger.sent = [4, 0, 1, 2, 3] ∧ ¬ (s.ring .ul1req).SentInOrder := by
  have hrun : ((afterOperations PrefParams.default (idle false) ()
      (.updateCore 0 :: ([0x4000, 0x4001, 0x4002, 0x4003, 0x4004].map
          fun line => .addUl1 0 line 1 0 0 0 false) ++
        List.replicate 33 (.updateCore 0))).toOption.map
      fun s => (s.ring .ul1req).ledger.sent) = some [4, 0, 1, 2, 3] := by decide +kernel
  obtain ⟨s, hs, hsent⟩ := exists_reachable hrun
  refine ⟨s, hs, hsent, ?_⟩
  rw [Ring.SentInOrder, hsent]
  decide

end Scarab.Common
