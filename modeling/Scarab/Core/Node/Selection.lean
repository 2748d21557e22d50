import Scarab.Core.Node.Runs
import Scarab.Lib.Displacement

/-! # Which ops are selected

`oldest_first_sched` places the ready ops one after another, and an op that loses its unit to an
older one is not placed again in the same cycle. -/

namespace Scarab.Node

open Linked (Chain Links)
open Displacement (Comes Placed Below Fate DisplacedBy)

variable {cfg : Config} {s t m n : State} {nl rl done rest : List OpPtr} {p q : OpPtr}
  {canAllocate : Bool}

/-- The functional units that the op can use: those of its station that have its type. -/
def State.usable (cfg : Config) (s : State) (p : OpPtr) : List ℕ :=
  (((cfg.rs[(s.ops p).rsId]?.map (·.connectedFus)).getD []).filter (·.canExecute (s.ops p))).map
    FuncUnit.fuId

def State.opNumOf (s : State) (p : OpPtr) : ℕ := (s.ops p).opNum

/-- `node_sched_ops` hands the op to `oldest_first_sched`. -/
def State.isConsidered (s : State) (memBlocked : Bool) (p : OpPtr) : Bool :=
  (if (s.ops p).state = .waitMem then !memBlocked
    else (s.ops p).state ≠ .tentative ∧ (s.ops p).state ≠ .waitDcache) &&
    decide ((s.ops p).rdyCycle - 1 ≤ s.cycle)

/-- The ready list when `node_sched_ops` begins: the ops have numbers of their own, and the slots
behind the functional units are not used. -/
structure ReadyOps (cfg : Config) (s : State) (rl : List OpPtr) : Prop where
  chain : Chain s.rdyList.next s.rdyList.head rl
  nodup : rl.Nodup
  length : rl.length ≤ s.nodeCount
  opNum : ∀ p ∈ rl, ∀ q ∈ rl, s.opNumOf p = s.opNumOf q → p = q
  sd : ∀ f p, s.sd f = some p → f < cfg.numFus

theorem Inv.readyOps (h : Inv cfg s nl rl) : ReadyOps cfg s rl where
  chain := h.ready.chain
  nodup := h.ready.nodup
  length := h.ready_length
  opNum p hp q hq heq := by
    have horder := (List.pairwise_append.mp h.table.order).1
    have hdiff : (nl.map s.opNumOf).Nodup := List.pairwise_map.mpr (horder.imp Nat.ne_of_lt)
    exact List.inj_on_of_nodup_map hdiff (h.ready.sub hp) (h.ready.sub hq) heq
  sd f p hp := (h.stages.sd f p hp).1

/-! ## One op -/

/-- The loop of `oldest_first_sched`, when it went over the units `seen`: each of them holds an op
that is not younger than the op itself or than the youngest one that was found. -/
theorem slotOf_comes {fus : List FuncUnit} {youngest slot : Option ℕ} {uses : OpPtr → List ℕ}
    {seen : List ℕ}
    (huses : uses p = seen ++ (fus.filter (·.canExecute (s.ops p))).map FuncUnit.fuId)
    (hy : ∀ y, youngest = some y → y ∈ seen ∧ ∃ r, s.sd y = some r ∧ s.opNumOf p < s.opNumOf r)
    (hseen : ∀ f ∈ seen, ∃ r, s.sd f = some r ∧ (s.opNumOf r ≤ s.opNumOf p ∨
      ∃ y r', youngest = some y ∧ s.sd y = some r' ∧ s.opNumOf r ≤ s.opNumOf r'))
    (h : s.slotOf cfg p fus youngest = .ok slot) :
    Comes s.opNumOf uses p s.sd (slot.elim s.sd fun f => Function.update s.sd f (some p)) := by
  induction fus generalizing youngest seen with
  | nil =>
      simp only [State.slotOf, Except.ok.injEq] at h
      subst h
      simp only [List.filter_nil, List.map_nil, List.append_nil] at huses
      cases youngest with
      | none =>
          refine .stays fun f hf => ?_
          obtain ⟨r, hr, hle⟩ := hseen f (huses ▸ hf)
          refine ⟨r, hr, hle.resolve_right ?_⟩
          rintro ⟨_, _, hnone, _⟩
          cases hnone
      | some y =>
          obtain ⟨hmem, q, hq, hlt⟩ := hy y rfl
          refine .displaces y q (huses ▸ hmem) hq hlt fun f hf => ?_
          obtain ⟨r, hr, hle⟩ := hseen f (huses ▸ hf)
          refine ⟨r, hr, ?_⟩
          cases hle with
          | inl hle => exact hle.trans hlt.le
          | inr hle =>
              obtain ⟨y', r', hy', hr', hle⟩ := hle
              obtain rfl := Option.some.inj hy'
              obtain rfl : q = r' := Option.some.inj (hq.symm.trans hr')
              exact hle
  | cons fu fus ih =>
      rw [State.slotOf] at h
      by_cases hexec : fu.canExecute (s.ops p) = true
      · rw [if_pos hexec] at h
        rw [List.filter_cons, if_pos hexec, List.map_cons, List.append_cons] at huses
        cases hslot : s.sd fu.fuId with
        | none =>
            simp only [hslot] at h
            obtain ⟨_, h⟩ := Execution.ite_error_eq_ok.mp h
            cases h
            exact .takes fu.fuId (by simp [huses]) hslot
        | some q =>
            simp only [hslot] at h
            by_cases hup : (s.ops p).opNum < (s.ops q).opNum ∧
                ((youngest.bind s.sd).all fun y => (s.ops y).opNum < (s.ops q).opNum) = true
            · -- the youngest one so far
              rw [if_pos hup] at h
              refine ih huses (fun y hy' => ?_) (fun f hf => ?_) h
              · obtain rfl := Option.some.inj hy'
                exact ⟨by simp, q, hslot, hup.1⟩
              · cases List.mem_append.mp hf with
                | inl hf =>
                    obtain ⟨r, hr, hle⟩ := hseen f hf
                    refine ⟨r, hr, hle.imp_right ?_⟩
                    rintro ⟨y, r', rfl, hr', hle⟩
                    have hlt : s.opNumOf r' < s.opNumOf q := by
                      simpa [hr', State.opNumOf] using hup.2
                    exact ⟨fu.fuId, q, rfl, hslot, hle.trans hlt.le⟩
                | inr hf =>
                    obtain rfl := List.mem_singleton.mp hf
                    exact ⟨q, hslot, .inr ⟨fu.fuId, q, rfl, hslot, le_rfl⟩⟩
            · rw [if_neg hup] at h
              refine ih huses (fun y hy' => ?_) (fun f hf => ?_) h
              · obtain ⟨hmem, hold⟩ := hy y hy'
                exact ⟨List.mem_append_left _ hmem, hold⟩
              · cases List.mem_append.mp hf with
                | inl hf => exact hseen f hf
                | inr hf =>
                    obtain rfl := List.mem_singleton.mp hf
                    refine ⟨q, hslot, ?_⟩
                    by_cases hlt : (s.ops p).opNum < (s.ops q).opNum
                    · refine .inr ?_
                      cases youngest with
                      | none => exact absurd ⟨hlt, rfl⟩ hup
                      | some y =>
                          obtain ⟨_, r, hr, _⟩ := hy y rfl
                          refine ⟨y, r, rfl, hr, Nat.le_of_not_lt fun hlt' => hup ⟨hlt, ?_⟩⟩
                          simpa [hr, State.opNumOf] using hlt'
                    · exact .inl (Nat.le_of_not_lt hlt)
      · rw [if_neg hexec] at h
        rw [List.filter_cons, if_neg hexec] at huses
        exact ih huses hy hseen h

theorem oldestFirstSched_comes (h : s.oldestFirstSched cfg p = .ok t) :
    t = { s with sd := t.sd } ∧ Comes s.opNumOf (s.usable cfg) p s.sd t.sd := by
  obtain ⟨slot, hslot, h⟩ := Execution.bind_eq_ok.mp h
  have hcomes : Comes s.opNumOf (s.usable cfg) p s.sd
      (slot.elim s.sd fun f => Function.update s.sd f (some p)) := by
    refine slotOf_comes (List.nil_append _).symm (fun y hy => ?_) (fun f hf => ?_) hslot
    · cases hy
    · cases hf
  cases slot with
  | none =>
      cases h
      exact ⟨rfl, hcomes⟩
  | some f =>
      cases h
      exact ⟨rfl, hcomes⟩

/-- What looking at an op leaves as it is. -/
structure SameOps (cfg : Config) (s t : State) (p : OpPtr) : Prop where
  other : ∀ q, q ≠ p → t.ops q = s.ops q
  opNum : t.opNumOf p = s.opNumOf p
  usable : t.usable cfg p = s.usable cfg p
  memBlocked : t.memBlocked = s.memBlocked
  cycle : t.cycle = s.cycle

theorem SameOps.of_ops (hops : t.ops = s.ops) (hblocked : t.memBlocked = s.memBlocked)
    (hcycle : t.cycle = s.cycle) : SameOps cfg s t p := by
  refine ⟨fun q _ => by rw [hops], ?_, ?_, hblocked, hcycle⟩
  · rw [State.opNumOf, State.opNumOf, hops]
  · rw [State.usable, State.usable, hops]

theorem SameOps.trans (h : SameOps cfg s m p) (h' : SameOps cfg m t p) : SameOps cfg s t p where
  other q hq := (h'.other q hq).trans (h.other q hq)
  opNum := h'.opNum.trans h.opNum
  usable := h'.usable.trans h.usable
  memBlocked := h'.memBlocked.trans h.memBlocked
  cycle := h'.cycle.trans h.cycle

theorem SameOps.opNumOf (h : SameOps cfg s t p) : t.opNumOf = s.opNumOf := by
  funext q
  by_cases hq : q = p
  · rw [hq, h.opNum]
  · rw [State.opNumOf, State.opNumOf, h.other q hq]

theorem SameOps.usable_eq (h : SameOps cfg s t p) : t.usable cfg = s.usable cfg := by
  funext q
  by_cases hq : q = p
  · rw [hq, h.usable]
  · rw [State.usable, State.usable, h.other q hq]

theorem SameOps.setState (s : State) (p : OpPtr) (state : OpState) :
    SameOps cfg s (s.setOp p { s.ops p with state }) p := by
  refine ⟨fun q hq => State.setOp_ops_ne s _ hq, ?_, ?_, rfl, rfl⟩
  · rw [State.opNumOf, State.setOp_ops_self]
    rfl
  · simp only [State.usable, State.setOp_ops_self, FuncUnit.canExecute]

theorem schedReady_comes (h : s.schedReady cfg p = .ok t) : SameOps cfg s t p ∧
    if (s.ops p).rdyCycle - 1 ≤ s.cycle then Comes s.opNumOf (s.usable cfg) p s.sd t.sd
    else t.sd = s.sd := by
  obtain ⟨_, h⟩ := Execution.ite_error_eq_ok.mp h
  by_cases hsoon : (s.ops p).rdyCycle - 1 ≤ s.cycle
  · rw [if_pos hsoon] at h ⊢
    obtain ⟨_, h⟩ := Execution.ite_error_eq_ok.mp h
    obtain ⟨ht, hcomes⟩ := oldestFirstSched_comes h
    exact ⟨.of_ops (by rw [ht]) (by rw [ht]) (by rw [ht]), hcomes⟩
  · rw [if_neg hsoon] at h ⊢
    cases h
    exact ⟨.of_ops rfl rfl rfl, rfl⟩

/-- An op is placed if it is considered, and nothing happens to the units otherwise. -/
theorem schedOp_comes {out : State × Bool} (h : s.schedOp cfg p = .ok out) :
    out.2 = false ∧ SameOps cfg s out.1 p ∧
      if s.isConsidered s.memBlocked p = true then Comes s.opNumOf (s.usable cfg) p s.sd out.1.sd
      else out.1.sd = s.sd := by
  obtain ⟨_, h⟩ := Execution.ite_error_eq_ok.mp h
  by_cases hmem : (s.ops p).state = .waitMem
  · rw [if_pos hmem] at h
    by_cases hblocked : s.memBlocked = true
    · rw [if_pos hblocked] at h
      cases h
      exact ⟨rfl, .of_ops rfl rfl rfl, by simp [State.isConsidered, hmem, hblocked]⟩
    · rw [if_neg hblocked] at h
      obtain ⟨t, ht, rfl⟩ := Execution.map_eq_ok.mp h
      obtain ⟨hsame, hcomes⟩ := schedReady_comes ht
      have hset : SameOps cfg s (s.setOp p { s.ops p with state := .ready }) p := .setState ..
      refine ⟨rfl, hset.trans hsame, ?_⟩
      rw [hset.opNumOf, hset.usable_eq, State.setOp_ops_self] at hcomes
      simpa [State.isConsidered, hmem, hblocked, State.setOp] using hcomes
  · rw [if_neg hmem] at h
    by_cases htried : (s.ops p).state = .tentative ∨ (s.ops p).state = .waitDcache
    · rw [if_pos htried] at h
      cases h
      refine ⟨rfl, .of_ops rfl rfl rfl, ?_⟩
      rw [if_neg]
      cases htried with
      | inl hstate => simp [State.isConsidered, hstate]
      | inr hstate => simp [State.isConsidered, hstate]
    · rw [if_neg htried] at h
      obtain ⟨t, ht, rfl⟩ := Execution.map_eq_ok.mp h
      obtain ⟨hsame, hcomes⟩ := schedReady_comes ht
      refine ⟨rfl, hsame, ?_⟩
      rw [not_or] at htried
      simpa [State.isConsidered, hmem, htried] using hcomes

/-! ## The ready list -/

/-- The loop of `node_sched_ops`, when it went over the ops `done`. -/
structure Selecting (cfg : Config) (s m : State) (blocked : Bool) (done rest : List OpPtr) : Prop where
  opNum : m.opNumOf = s.opNumOf
  usable : m.usable cfg = s.usable cfg
  ops : ∀ p ∈ rest, m.ops p = s.ops p
  memBlocked : m.memBlocked = blocked
  cycle : m.cycle = s.cycle
  placed : Placed s.opNumOf (s.usable cfg) m.sd (done.filter (s.isConsidered blocked))

theorem Selecting.next {blocked : Bool} {out : State × Bool}
    (h : Selecting cfg s m blocked done (p :: rest)) (hready : ReadyOps cfg s (done ++ p :: rest))
    (hrun : m.schedOp cfg p = .ok out) :
    out.2 = false ∧ Selecting cfg s out.1 blocked (done ++ [p]) rest := by
  obtain ⟨hgo, hsame, hcomes⟩ := schedOp_comes hrun
  have hnodup := List.nodup_append.mp hready.nodup
  have hsep : ∀ q ∈ done, q ≠ p := fun q hq heq => hnodup.2.2 q hq p (by simp) heq
  have hrest : ∀ q ∈ rest, q ≠ p := fun q hq heq => (List.nodup_cons.mp hnodup.2.1).1 (heq ▸ hq)
  have hconsidered : m.isConsidered m.memBlocked p = s.isConsidered blocked p := by
    rw [State.isConsidered, State.isConsidered, h.memBlocked, h.cycle, h.ops p (by simp)]
  refine ⟨hgo, hsame.opNumOf.trans h.opNum, hsame.usable_eq.trans h.usable, fun q hq => ?_,
    hsame.memBlocked.trans h.memBlocked, hsame.cycle.trans h.cycle, ?_⟩
  · rw [hsame.other q (hrest q hq)]
    exact h.ops q (by simp [hq])
  · rw [hconsidered, h.opNum, h.usable] at hcomes
    rw [List.filter_append]
    by_cases hc : s.isConsidered blocked p = true
    · rw [if_pos hc] at hcomes
      rw [List.filter_cons_of_pos hc, List.filter_nil]
      refine h.placed.comes hcomes (fun hp => hsep p (List.mem_filter.mp hp).1 rfl) fun q hq r hr => ?_
      have hall : ∀ q ∈ done.filter (s.isConsidered blocked) ++ [p], q ∈ done ++ p :: rest := by
        intro q hq
        cases List.mem_append.mp hq with
        | inl hq => exact List.mem_append_left _ (List.mem_filter.mp hq).1
        | inr hq => simp [List.mem_singleton.mp hq]
      exact hready.opNum q (hall q hq) r (hall r hr)
    · rw [if_neg hc] at hcomes
      rw [List.filter_cons_of_neg hc, List.filter_nil, List.append_nil, hcomes]
      exact h.placed

theorem nodeSchedOps_placed (hready : ReadyOps cfg s rl) (hrun : s.nodeSchedOps cfg canAllocate = .ok t) :
    Placed s.opNumOf (s.usable cfg) t.sd (rl.filter (s.isConsidered (s.memBlocked && !canAllocate))) := by
  obtain ⟨hempty, hrun⟩ := Execution.ite_error_eq_ok.mp hrun
  have hnone : ∀ f, s.sd f = none := by
    intro f
    cases hf : s.sd f with
    | none => rfl
    | some p =>
        have hall := List.all_eq_true.mp hempty f (List.mem_range.mpr (hready.sd f p hf))
        simp [hf] at hall
  obtain ⟨out, hwalk, hrun⟩ := Execution.bind_eq_ok.mp hrun
  cases hrun
  rw [Linked.walk_eq_run _ hready.chain hready.length] at hwalk
  obtain ⟨last, hlast, rfl⟩ := Execution.map_eq_ok.mp hwalk
  have hstart : Selecting cfg s { s with memBlocked := s.memBlocked && !canAllocate }
      (s.memBlocked && !canAllocate) [] rl :=
    ⟨rfl, rfl, fun _ _ => rfl, rfl, rfl, .empty hnone⟩
  refine Linked.run_invariant
    (I := fun rest m => ∃ done, done ++ rest = rl ∧
      Selecting cfg s m (s.memBlocked && !canAllocate) done rest)
    (J := fun _ m => Placed s.opNumOf (s.usable cfg) m.sd
      (rl.filter (s.isConsidered (s.memBlocked && !canAllocate))))
    (fun p rest m n hI hbody => ?_) (fun p rest m n hI hbody => ?_) (fun m hI => ?_)
    ⟨[], rfl, hstart⟩ hlast
  · obtain ⟨done, rfl, hm⟩ := hI
    exact ⟨done ++ [p], by simp, (hm.next hready hbody).2⟩
  · obtain ⟨done, rfl, hm⟩ := hI
    cases (hm.next hready hbody).1
  · obtain ⟨done, rfl, hm⟩ := hI
    rw [List.append_nil]
    exact hm.placed

/-- One station, a unit for two types and a unit for the first of them. -/
def twoTypes : Config := { oneRs true 8 with rs := [⟨4, [⟨0, 3⟩, ⟨1, 1⟩]⟩] }

/-- An op of the second type and a younger op of the first type, which is first on the ready list. -/
def displacing : List Event :=
  [.fetch 5 2 .notMem false false, .fetch 6 1 .notMem false false, .latch 4, .issue, .fillRs]

end Scarab.Node
