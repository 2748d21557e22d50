import Scarab.Core.WakeUp.Entries

/-! # The pool of entries carries the wake-up lists

The machine of `Scarab.Core.WakeUp.State` holds the list of an op as a whole. The one whose lists
are linked through the pool follows it: the same ops, and in each list the same entries, until the
pool has grown to its limit. -/

namespace Scarab.WakeUp

open Execution (Follows)

variable {obeyRegDep : Bool} {x x' : PoolState} {s s' : State} {p q : OpPtr} {free : List EntryPtr}
  {lists : OpPtr → List EntryPtr} {type : Map.DepType}

/-- The ops are those of `s`, and the lists hold their entries. -/
structure PoolState.Represents (x : PoolState) (free : List EntryPtr) (lists : OpPtr → List EntryPtr) (s : State) :
    Prop extends x.Conserved free lists where
  ops : ∀ p, ∃ linked, s.ops p = (x.ops p).toOp ((lists p).map x.pool.entry) linked

def PoolState.Refines (x : PoolState) (s : State) : Prop := ∃ free lists, x.Represents free lists s

/-! ## One op -/

/-- Neither what happened nor the next unique number is in the pool. -/
theorem PoolState.Represents.congr (h : x.Represents free lists s) (hops : s'.ops = s.ops) :
    x.Represents free lists s' := ⟨h.toConserved, fun p => hops ▸ h.ops p⟩

/-- The same change of an op on both sides. -/
theorem PoolState.Represents.setOp (h : x.Represents free lists s) (op : PooledOp) (linked : ℕ)
    (hop : (x.ops p).SameList op) (hvalid : lists p ≠ [] → op.valid = true) :
    (x.setOp p op).Represents free lists (s.setOp p (op.toOp ((lists p).map x.pool.entry) linked)) := by
  refine ⟨⟨h.toLists.frame rfl (sameList_setOp hop), fun q hq => ?_⟩, fun q => ?_⟩
  · show (Function.update x.ops p op q).valid = true
    by_cases hqp : q = p
    · rw [hqp] at hq ⊢
      rw [Function.update_self]
      exact hvalid hq
    · rw [Function.update_of_ne hqp]
      exact h.live q hq
  · show ∃ linked', Function.update s.ops p _ q = (Function.update x.ops p op q).toOp _ linked'
    by_cases hqp : q = p
    · rw [hqp, Function.update_self, Function.update_self]
      exact ⟨linked, rfl⟩
    · rw [Function.update_of_ne hqp, Function.update_of_ne hqp]
      exact h.ops q

/-- How many sources were gone through is not in the pool. -/
theorem PoolState.Represents.setLinked (h : x.Represents free lists s) (p : OpPtr) (linked : ℕ) :
    x.Represents free lists (s.setOp p { s.ops p with linked }) := by
  obtain ⟨linked', hp⟩ := h.ops p
  have hset := h.setOp (x.ops p) linked ⟨rfl, rfl, rfl⟩ (h.live p)
  have hsame : x.setOp p (x.ops p) = x := by
    unfold PoolState.setOp
    rw [Function.update_eq_self]
  rw [hsame] at hset
  rw [hp]
  exact hset

theorem PoolState.Represents.clearNotRdyBit {bit : ℕ} (h : x.Represents free lists s)
    (hs : s.clearNotRdyBit p bit = .ok s') :
    ∃ x', x.clearNotRdyBit p bit = .ok x' ∧ x'.Represents free lists s' ∧ x'.pool = x.pool := by
  obtain ⟨linked, hp⟩ := h.ops p
  obtain ⟨hbit, hs⟩ := Execution.ite_error_eq_ok.mp hs
  cases hs
  rw [hp] at hbit ⊢
  have hclear := h.setOp { x.ops p with srcsNotRdyVector := (x.ops p).srcsNotRdyVector &&& ~~~(1#32 <<< bit) }
    linked ⟨rfl, rfl, rfl⟩ (h.live p)
  exact ⟨_, if_pos hbit, hclear.congr rfl, rfl⟩

/-! ## Wake-up -/

theorem PoolState.Represents.wakeEntry {e : EntryPtr} (h : x.Represents free lists s)
    (hs : s.wakeEntry p type (x.pool.entry e) = .ok s') :
    ∃ x', x.wakeEntry type e = .ok x' ∧ x'.Represents free lists s' ∧ x'.pool = x.pool := by
  obtain ⟨linked, hop⟩ := h.ops (x.pool.entry e).op
  have hwake : x.wakeEntry type e =
      if (x.pool.entry e).depType ≠ type then .ok x
      else if (s.ops (x.pool.entry e).op).uniqueNum = (x.pool.entry e).uniqueNum ∧
          (s.ops (x.pool.entry e).op).valid = true then do
        if ← (s.ops (x.pool.entry e).op).testNotRdyBit (x.pool.entry e).rdyBit then
          x.clearNotRdyBit (x.pool.entry e).op (x.pool.entry e).rdyBit
        else return x
      else .ok x := by
    rw [hop]
    rfl
  rw [hwake]
  unfold State.wakeEntry at hs
  by_cases htype : (x.pool.entry e).depType ≠ type
  · rw [if_pos htype] at hs ⊢
    cases hs
    exact ⟨x, rfl, h, rfl⟩
  · rw [if_neg htype] at hs ⊢
    by_cases hcurrent : s.Current (x.pool.entry e)
    · rw [if_pos hcurrent] at hs
      rw [if_pos (show _ ∧ _ from hcurrent)]
      obtain ⟨b, htest, hs⟩ := Execution.bind_eq_ok.mp hs
      rw [htest]
      cases b with
      | true =>
          obtain ⟨t, hclear, hs⟩ := Execution.bind_eq_ok.mp hs
          cases hs
          obtain ⟨x', hx', hrep, hpool⟩ := h.clearNotRdyBit hclear
          exact ⟨x', hx', hrep.congr rfl, hpool⟩
      | false =>
          cases hs
          exact ⟨x, rfl, h, rfl⟩
    · rw [if_neg hcurrent] at hs
      rw [if_neg (show ¬ (_ ∧ _) from hcurrent)]
      cases hs
      exact ⟨x, rfl, h, rfl⟩

/-- The walk along the pointers goes through the list. -/
theorem PoolState.Represents.wakeUpOps (h : x.Represents free lists s) (hs : s.wakeUpOps p type = .ok s') :
    ∃ x', x.wakeUpOps p type = .ok x' ∧ x'.Represents free lists s' := by
  obtain ⟨linked, hp⟩ := h.ops p
  obtain ⟨hsignaled, hs⟩ := Execution.ite_error_eq_ok.mp hs
  obtain ⟨t, hloop, hs⟩ := Execution.bind_eq_ok.mp hs
  cases hs
  rw [hp] at hsignaled hloop
  rw [Execution.foldlM_eq_run] at hloop
  have hfollows : Follows (fun y t => y.Represents free lists t ∧ y.pool = x.pool) (fun _ : String => False)
      (Execution.run (PoolState.wakeEntry type) x (lists p)) t := by
    refine Execution.run_follows x.pool.entry (fun y u e u' hy hu => ?_) ⟨h, rfl⟩ hloop
    rw [← hy.2] at hu
    obtain ⟨y', hy', hrep, hpool⟩ := hy.1.wakeEntry hu
    exact .inl ⟨y', hy', hrep, hpool.trans hy.2⟩
  obtain ⟨y, hy, hrep, _⟩ | ⟨_, _, hfalse⟩ := hfollows
  · obtain ⟨linked', hyp⟩ := hrep.ops p
    have hnot : (x.ops p).wakeUpSignaled type = false := hsignaled
    have hwalk := Linked.walk_eq_foldlM (PoolState.wakeEntry type) (h.list p).chain (h.length_le p) x
    rw [Execution.foldlM_eq_run, hy] at hwalk
    unfold PoolState.wakeUpOps
    rw [if_pos hnot, hwalk]
    refine ⟨_, rfl, ?_⟩
    unfold State.signal
    rw [hyp]
    have hsignal := hrep.setOp { y.ops p with wakeUpSignaled := Function.update (y.ops p).wakeUpSignaled type true }
      linked' ⟨rfl, rfl, rfl⟩ (hrep.live p)
    exact hsignal.congr rfl
  · exact hfalse.elim

/-! ## Mapping -/

theorem PoolState.Represents.producer (h : x.Represents free lists s) (src : SrcInfo) :
    x.producer obeyRegDep src = s.producer obeyRegDep src := by
  have hsame : (fun q => (x.ops q).valid && (x.ops q).uniqueNum == src.uniqueNum) =
      fun q => (s.ops q).valid && (s.ops q).uniqueNum == src.uniqueNum := by
    funext q
    obtain ⟨linked, hq⟩ := h.ops q
    rw [hq]
    rfl
  unfold PoolState.producer State.producer
  rw [hsame]

/-- The entry that was taken stands at the end of the list. -/
theorem PoolState.Represents.enqueue {entry : WakeUpEntry} {wake : EntryPtr} {m : Pool}
    (h : x.Represents free lists s) (hq : (x.ops q).valid = true) (htake : x.pool.take entry = .ok (wake, m)) :
    ∃ x' free' lists', { x with pool := m }.append q wake = .ok x' ∧
      x'.Represents free' lists' (s.setOp q { s.ops q with wakeUpList := (s.ops q).wakeUpList ++ [entry] }) ∧
      ∀ p, (x'.ops p).toOp = (x.ops p).toOp := by
  obtain ⟨free', x', happend, hconserved, hops, hkept, hnew, _⟩ := h.toConserved.enqueue hq htake
  refine ⟨x', free', _, happend, ⟨hconserved, fun p => ?_⟩, hops⟩
  have hmap : (lists p).map x'.pool.entry = (lists p).map x.pool.entry := List.map_congr_left (hkept p)
  obtain ⟨linked, hp⟩ := h.ops p
  refine ⟨linked, ?_⟩
  show Function.update s.ops q _ p = _
  by_cases hpq : p = q
  · subst hpq
    rw [Function.update_self, Function.update_self, hp, hops p, List.map_append, hmap, List.map_singleton, hnew]
    rfl
  · rw [Function.update_of_ne hpq, Function.update_of_ne hpq, hp, hops p, hmap]

theorem PoolState.Represents.linkSource {source : SrcInfo × ℕ} (h : x.Represents free lists s)
    (hs : s.linkSource obeyRegDep p source = .ok s') :
    Follows PoolState.Refines (· = growthAssertion) (x.linkSource obeyRegDep p source) s' := by
  obtain ⟨src, ii⟩ := source
  obtain ⟨linked, hp⟩ := h.ops p
  unfold PoolState.linkSource
  unfold State.linkSource at hs
  cases hproducer : s.producer obeyRegDep src with
  | none =>
      simp only [hproducer] at hs
      simp only [h.producer, hproducer]
      obtain ⟨t, hclear, hs⟩ := Execution.bind_eq_ok.mp hs
      cases hs
      rw [hp] at hclear
      have hgone := h.setOp { x.ops p with srcInfo := (x.ops p).srcInfo.set ii src.gone } linked ⟨rfl, rfl, rfl⟩
        (h.live p)
      obtain ⟨x', hx', hrep, _⟩ := hgone.clearNotRdyBit hclear
      exact .inl ⟨x', hx', free, lists, hrep.setLinked p (ii + 1)⟩
  | some q =>
      have hvalid : (x.ops q).valid = true := producer_valid (h.producer src |>.trans hproducer)
      obtain ⟨linked', hq⟩ := h.ops q
      simp only [hproducer] at hs
      simp only [h.producer, hproducer]
      cases htake : x.pool.take ⟨p, (x.ops p).uniqueNum, src.type, ii⟩ with
      | error msg => exact .inr ⟨msg, rfl, (h.pool.take_error htake).1⟩
      | ok out =>
          obtain ⟨wake, m⟩ := out
          obtain ⟨y, free', lists', happend, hy, hops⟩ := h.enqueue hvalid htake
          have hsignaled : (y.ops q).wakeUpSignaled = (s.ops q).wakeUpSignaled := by
            rw [hq]
            exact congrArg (fun toOp => (toOp [] 0).wakeUpSignaled) (hops q)
          have hunique : (s.ops p).uniqueNum = (x.ops p).uniqueNum := by
            rw [hp]
            rfl
          rw [hunique] at hs
          show Follows _ _ ({ x with pool := m }.append q wake >>= _) _
          rw [happend]
          show Follows _ _ (if (y.ops q).wakeUpSignaled src.type then _ else _) _
          rw [hsignaled]
          by_cases hfired : (s.ops q).wakeUpSignaled src.type = true
          · rw [if_pos hfired] at hs ⊢
            obtain ⟨t, hclear, hs⟩ := Execution.bind_eq_ok.mp hs
            cases hs
            obtain ⟨x', hx', hrep, _⟩ := hy.clearNotRdyBit hclear
            have hwoken : x'.Represents free' lists' (t.wakeAction q p ii) := hrep.congr rfl
            exact .inl ⟨x', hx', free', lists', hwoken.setLinked p (ii + 1)⟩
          · rw [if_neg hfired] at hs ⊢
            cases hs
            exact .inl ⟨y, rfl, free', lists', hy.setLinked p (ii + 1)⟩

/-! ## Runs -/

/-- The event of the machine with whole lists. -/
def PoolEvent.toEvent : PoolEvent → Event
  | .alloc p uniqueNum srcs => .alloc p uniqueNum srcs
  | .map p => .map p
  | .fire p type => .fire p type
  | .free p => .free p

theorem PoolState.Represents.freeOp (h : x.Represents free lists s) (p : OpPtr) :
    ∃ x', x.freeOp p = .ok x' ∧ x'.Refines (s.freeOp p) := by
  obtain ⟨x', hx', hconserved, hops, hentry⟩ := h.toConserved.freeOp p
  refine ⟨x', hx', _, _, hconserved, fun q => ?_⟩
  rw [hops q, hentry]
  show ∃ linked, Function.update s.ops p _ q = (Function.update x.ops p _ q).toOp _ linked
  obtain ⟨linked, hq⟩ := h.ops q
  refine ⟨linked, ?_⟩
  by_cases hqp : q = p
  · subst hqp
    rw [Function.update_self, Function.update_self, Function.update_self, hq]
    rfl
  · rw [Function.update_of_ne hqp, Function.update_of_ne hqp, Function.update_of_ne hqp]
    exact hq

theorem PoolState.Refines.step {event : PoolEvent} (h : x.Refines s) (hs : s.step obeyRegDep event.toEvent = .ok s') :
    Follows PoolState.Refines (· = growthAssertion) (x.step obeyRegDep event) s' := by
  obtain ⟨free, lists, h⟩ := h
  have hvalid : ∀ p, (s.ops p).valid = (x.ops p).valid := fun p => by
    obtain ⟨linked, hp⟩ := h.ops p
    rw [hp]
    rfl
  cases event with
  | alloc p uniqueNum srcs =>
      obtain ⟨hp, hs⟩ := Execution.ite_error_eq_ok.mp hs
      obtain ⟨_, hs⟩ := Execution.ite_error_eq_ok.mp hs
      cases hs
      rw [hvalid] at hp
      obtain ⟨linked, hsp⟩ := h.ops p
      rw [PoolState.step, if_pos hp]
      refine .ok ⟨free, lists, ?_⟩
      unfold State.allocOp
      rw [hsp]
      have halloc := h.setOp { x.ops p with
        valid := true, uniqueNum, srcInfo := srcs
        srcsNotRdyVector := (List.range srcs.length).foldl setNotRdyBit 0
        wakeUpSignaled := fun _ => false } 0 ⟨rfl, rfl, rfl⟩ fun _ => rfl
      exact halloc.congr rfl
  | map p =>
      obtain ⟨⟨hp, _⟩, hs⟩ := Execution.ite_error_eq_ok.mp hs
      rw [hvalid] at hp
      obtain ⟨linked, hsp⟩ := h.ops p
      rw [PoolState.step, if_pos hp]
      unfold State.addToWakeUpLists at hs
      rw [hsp, Execution.foldlM_eq_run] at hs
      unfold PoolState.addToWakeUpLists
      rw [Execution.foldlM_eq_run]
      refine Execution.run_follows id (fun y t source t' hy ht => ?_) ⟨free, lists, h⟩ (by rwa [List.map_id])
      obtain ⟨free', lists', hy⟩ := hy
      exact hy.linkSource ht
  | fire p type =>
      obtain ⟨hp, hs⟩ := Execution.ite_error_eq_ok.mp hs
      rw [hvalid] at hp
      obtain ⟨x', hx', hrep⟩ := h.wakeUpOps hs
      rw [PoolState.step, if_pos hp]
      exact .inl ⟨x', hx', free, lists, hrep⟩
  | free p =>
      obtain ⟨hp, hs⟩ := Execution.ite_error_eq_ok.mp hs
      cases hs
      rw [hvalid] at hp
      rw [PoolState.step, if_pos hp]
      exact .inl (h.freeOp p)

/-- Whatever the machine with whole lists does, the pool does. Only its limit can stop it. -/
theorem pool_follows {x₀ : PoolState} {events : List PoolEvent} (hinit : PoolState.init = .ok x₀)
    (hrun : Execution.run (State.step obeyRegDep) .init (events.map PoolEvent.toEvent) = .ok s) :
    Follows PoolState.Refines (· = growthAssertion) (Execution.run (PoolState.step obeyRegDep) x₀ events) s := by
  refine Execution.run_follows PoolEvent.toEvent (fun x t event t' h ht => h.step ht) ?_ hrun
  obtain ⟨free, hconserved⟩ := init_conserved hinit
  obtain ⟨pool, _, rfl⟩ := Execution.map_eq_ok.mp hinit
  exact ⟨free, _, hconserved, fun p => ⟨0, rfl⟩⟩

/-- A consumer waits in the list of its producer. -/
theorem pool_follows_consumer : ∃ x₀ s, (s.ops 0).wakeUpList.length = 1 ∧
    Follows PoolState.Refines (· = growthAssertion) (Execution.run (PoolState.step true) x₀
      [.alloc 0 1 [], .alloc 1 2 [⟨.regData, some 0, 1⟩], .map 1]) s := by
  have hstart : (fun _ => ()) <$> PoolState.init = .ok () := by decide +kernel
  obtain ⟨x₀, hinit, _⟩ := Execution.map_eq_ok.mp hstart
  have hrun : (fun s : State => (s.ops 0).wakeUpList.length) <$> Execution.run (State.step true) .init
      ([.alloc 0 1 [], .alloc 1 2 [⟨.regData, some 0, 1⟩], .map 1].map PoolEvent.toEvent) = .ok 1 := rfl
  obtain ⟨s, hs, hlength⟩ := Execution.map_eq_ok.mp hrun
  exact ⟨x₀, s, hlength, pool_follows hinit hs⟩

end Scarab.WakeUp
