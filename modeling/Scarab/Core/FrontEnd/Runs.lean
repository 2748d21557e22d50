import Scarab.Core.FrontEnd.Steps

/-! # Runs of the front end -/

namespace Scarab.FrontEnd

open OpPool (OpPtr Op Pool)
open Execution (Follows Visited)

variable {cfg : Config} {s t : State} {p : OpPtr}

/-- Every event leads on, or it stops the run. -/
theorem Inv.step_follows (h : Inv cfg s) (hcfg : cfg.Valid) (e : Event) :
    Follows (fun t s => Advances cfg s t) (Stops cfg s.others.length) (s.step cfg e) s := by
  cases e with
  | cycle retires fetched back =>
      obtain ⟨t, ht, hadv, _⟩ | hstop := h.runCycle_goes hcfg retires fetched back
      · exact .inl ⟨t, ht, hadv⟩
      · exact .inr hstop
  | recover r =>
      rw [State.step]
      by_cases hr : s.retOp ≤ r + 1 ∧ r < s.opCount
      · rw [if_pos hr]
        obtain ⟨t, ht, hrecovered⟩ := h.cmpRecover_ok hr.1
        exact .inl ⟨t, ht, hrecovered.advances h hcfg hr.1 hr.2⟩
      · rw [if_neg hr]
        exact .inr ⟨_, rfl, by simp [Stops]⟩
  | alloc =>
      rw [State.step]
      cases halloc : s.pool.allocOp 0 0 with
      | error e => exact .inr ⟨e, rfl, h.alloc_stops hcfg halloc⟩
      | ok pair =>
          have hnew := h.pool.alloc halloc
          refine .inl ⟨_, rfl, h.withPool (fun q hq => ?_) (hnew.holds.perm List.perm_middle.symm)⟩
          rw [hnew.same q (List.mem_append_left _ hq)]
          exact .refl _
  | free p =>
      rw [State.step]
      by_cases hp : p ∈ s.others
      · obtain ⟨pool, hfree, hholds, _⟩ := h.pool.free_ok (List.mem_append_right s.flight hp)
        have hne : p ∉ s.flight := fun hmem => (List.nodup_append.mp h.pool.nodup).2.2 p hmem p hp rfl
        rw [List.erase_append_right _ hne] at hholds
        rw [if_pos hp, hfree]
        exact .inl ⟨_, rfl, h.withPool (fun q _ => OpPool.freeOp_same hfree q) hholds⟩
      · rw [if_neg hp]
        exact .inr ⟨_, rfl, by simp [Stops]⟩

/-- After the inits there is no op in flight. -/
theorem init_inv {start : State} (h : State.init cfg = .ok start) : Inv cfg start ∧ start.line = Line.empty := by
  obtain ⟨pool, hpool, hstart⟩ := Execution.bind_eq_ok.mp h
  cases hstart
  have hempty : ∀ n, (List.replicate n (StageData.reset cfg)).flatMap StageData.content = [] := fun n =>
    List.flatMap_eq_nil_iff.mpr fun sd hsd => by
      rw [List.eq_of_mem_replicate hsd]
      exact StageData.content_reset cfg
  refine ⟨⟨List.length_replicate, List.length_replicate, ?_, Nat.zero_le _, ?_, ?_, ?_, ?_⟩, ?_⟩
  · refine .of_packed fun sd hsd => ?_
    have hsd' : sd = StageData.reset cfg := by
      simp only [State.stages, List.mem_append, List.mem_replicate, List.mem_singleton] at hsd
      tauto
    exact hsd' ▸ StageData.packed_reset cfg
  all_goals simp [flight_eq, State.stages, hempty, StageData.content_reset, State.line, State.window,
    State.middle, State.entry, Line.empty, OpPool.init_holds hpool, List.tail_replicate, List.take_replicate]

/-- What holds of every reachable state. -/
theorem Reachable.law (hcfg : cfg.Valid) (h : Reachable cfg s) : Inv cfg s ∧ s.line.Ordered := by
  obtain ⟨start, events, hinit, hrun⟩ := h
  obtain ⟨hinv, hline⟩ := init_inv hinit
  have hvisited : Inv cfg s ∧ Visited (· = Line.empty) Line.Step s.line := by
    refine Execution.run_invariant (I := fun s => Inv cfg s ∧ Visited (· = Line.empty) Line.Step s.line)
      (fun s e t hs hstep => ?_) ⟨hinv, Line.empty, rfl, hline ▸ .refl⟩ hrun
    obtain ⟨u, hu, hadv⟩ | ⟨msg, hmsg, _⟩ := hs.1.step_follows hcfg e
    · cases hstep.symm.trans hu
      obtain ⟨first, hfirst, hsteps⟩ := hs.2
      exact ⟨hadv.inv, first, hfirst, hsteps.trans hadv.line⟩
    · cases hstep.symm.trans hmsg
  exact ⟨hvisited.1, Line.ordered_of_visited hvisited.2⟩

theorem reachable_of_run {α : Type} (cfg : Config) (events : List Event) (view : State → α) (out : α)
    (h : view <$> (State.init cfg >>= fun start => Execution.run (State.step cfg) start events) = .ok out) :
    ∃ s, Reachable cfg s ∧ view s = out := by
  obtain ⟨s, hrun, hview⟩ := Execution.map_eq_ok.mp h
  obtain ⟨start, hinit, hrun⟩ := Execution.bind_eq_ok.mp hrun
  exact ⟨s, ⟨start, events, hinit, hrun⟩, hview⟩

/-! ## Order -/

/-- Whatever stalls and recoveries there are, the decode and the map stage process the ops once and
in the order of fetch, an op is decoded before it is mapped and mapped before it enters the node
table, and every op that was fetched is in flight, has retired, or was dropped, and no op is two of
these. -/
theorem stages_in_order (hcfg : cfg.Valid) (h : Reachable cfg s) :
    s.decoded.Pairwise (· < ·) ∧ s.mapped.Pairwise (· < ·) ∧ s.retired.Pairwise (· < ·) ∧
      (∀ n ∈ s.mapped, n ∈ s.decoded) ∧ (∀ p ∈ s.nodeList, s.number p ∈ s.mapped) ∧
      (∀ n ∈ s.retired, n ∈ s.mapped) ∧ (s.flight.map s.number).Pairwise (· < ·) ∧
      (s.retired ++ s.flight.map s.number ++ s.flushed).Perm (List.range' 1 (s.uniqueCount - 1)) := by
  obtain ⟨_, hline⟩ := h.law hcfg
  have hretired := hline.retired
  have hfetched := hline.fetched
  rw [line_ops] at hretired hfetched
  refine ⟨?_, ?_, ?_, hline.mapped_decoded, fun p hp => ?_, hline.retired_mapped, ?_, hfetched⟩
  · exact (List.pairwise_append.mp hline.decoded).1
  · exact (List.pairwise_append.mp hline.mapped).1
  · exact (List.pairwise_append.mp hretired).1
  · exact hline.window _ (List.mem_map_of_mem (List.mem_append_left _ hp))
  · exact (List.pairwise_append.mp hretired).2.1

/-- Six ops, of which a recovery drops four, one of them after it was decoded and two after they were
mapped. -/
theorem stages_in_order_recovery : ∃ s : State, s.decoded = [1, 2, 3, 4, 5, 7] ∧ s.flushed = [6, 5, 3, 4] ∧
    s.decoded.Pairwise (· < ·) ∧ (s.retired ++ s.flight.map s.number ++ s.flushed).Perm (List.range' 1 7) := by
  obtain ⟨s, hs, hview⟩ := reachable_of_run ⟨2, 1, 2, 3⟩
    [.cycle 0 [false, true] false, .cycle 0 [] true, .alloc, .cycle 0 [false, false] false,
      .cycle 0 [true] false, .cycle 0 [false] false, .cycle 1 [] false, .recover 2, .cycle 0 [false] false,
      .cycle 0 [] false, .free 2, .cycle 0 [] false]
    (fun s => (s.decoded, s.flushed, s.uniqueCount)) ([1, 2, 3, 4, 5, 7], [6, 5, 3, 4], 8) rfl
  obtain ⟨hdecoded, hflushed, hcount⟩ : s.decoded = [1, 2, 3, 4, 5, 7] ∧ s.flushed = [6, 5, 3, 4] ∧
      s.uniqueCount = 8 := by simpa using hview
  obtain ⟨horder, _, _, _, _, _, _, hall⟩ := stages_in_order ⟨by decide, by decide⟩ hs
  rw [hcount] at hall
  exact ⟨s, hdecoded, hflushed, horder, hall⟩

/-! ## Assertions -/

/-- The sequential op list is what the node table and the stages hold, in this order, and with the
ops of other cores these are the ops of the pool that are valid. -/
theorem seqOpList_eq (hcfg : cfg.Valid) (h : Reachable cfg s) :
    s.seqOpList = s.nodeList ++ (s.map ++ (s.dec ++ [s.ic])).flatMap (fun sd => sd.ops.reduceOption) ∧
      s.seqOpList.map (fun p => (s.pool.ops p).opNum) = List.range' s.retOp s.seqOpList.length ∧
      s.pool.opPoolActiveOps = s.seqOpList.length + s.others.length ∧
      ∀ p < s.pool.opPoolEntries, (s.pool.ops p).opPoolValid = true ↔ p ∈ s.seqOpList ∨ p ∈ s.others := by
  have hinv := (h.law hcfg).1
  refine ⟨hinv.seq.trans (flight_eq s), ?_, ?_, fun p hp => ?_⟩
  · rw [hinv.seq]
    exact hinv.nums
  · rw [hinv.seq, hinv.pool.active, List.length_append]
  · rw [hinv.seq, ← List.mem_append]
    exact hinv.pool.valid p hp

/-- A state with three ops in flight, one of which is in the node table, and an op of another core. -/
theorem exists_three : ∃ s, Reachable ⟨1, 1, 1, 4⟩ s ∧ s.seqOpList.length = 3 ∧ s.nodeList.length = 1 ∧
    s.retOp = 1 ∧ s.opCount = 4 ∧ s.others.length = 1 := by
  obtain ⟨s, hs, hview⟩ := reachable_of_run ⟨1, 1, 1, 4⟩
    [.cycle 0 [false] false, .cycle 0 [false] false, .cycle 0 [] false, .alloc, .cycle 0 [false] false]
    (fun s => (s.seqOpList.length, s.nodeList.length, s.retOp, s.opCount, s.others.length)) (3, 1, 1, 4, 1) rfl
  exact ⟨s, hs, by simpa using hview⟩

theorem seqOpList_eq_three : ∃ s : State, s.seqOpList.length = 3 ∧ s.nodeList.length = 1 ∧
    s.seqOpList.map (fun p => (s.pool.ops p).opNum) = [1, 2, 3] ∧ s.pool.opPoolActiveOps = 4 := by
  obtain ⟨s, hs, hlength, hnode, hret, _, hothers⟩ := exists_three
  obtain ⟨_, hnums, hactive, _⟩ := seqOpList_eq ⟨by decide, by decide⟩ hs
  rw [hret, hlength] at hnums
  rw [hlength, hothers] at hactive
  exact ⟨s, hlength, hnode, hnums, hactive⟩

/-! ## Recovery -/

end Scarab.FrontEnd
