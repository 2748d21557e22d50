import Mathlib.Data.Set.Card
import Scarab.Core.Node.Removal

/-! # The node stage over whole runs

Which ops the ready list, the counts of the stations and the node table hold in every run, and
which steps have to go well for it. -/

namespace Scarab.Node

open Linked (Chain Links)

variable {cfg : Config} {s t u : State} {nl rl : List OpPtr} {p q : OpPtr} {e : Event}

/-! ## One step -/

/-- The step is no recovery that flushes an op out of a station which `flush_window` does not take
out of it. -/
def Event.FlushesWaiting (s : State) (e : Event) : Prop := ∀ r, e = .recover r → s.FlushesWaiting r

/-- The step is no `node_fill_rs` that `RS_FILL_WIDTH` stops. -/
def Event.FillsAll (cfg : Config) (s : State) (e : Event) : Prop := e = .fillRs → ¬ s.FillStops cfg

theorem Inv.branch (h : Inv cfg s nl rl) (p : OpPtr) (recoveryScheduled redirectScheduled : Bool) :
    Inv cfg (s.setOp p { s.ops p with recoveryScheduled, redirectScheduled }) nl rl :=
  h.setOp_same rfl rfl rfl rfl rfl rfl rfl fun _ => rfl

/-- Every step keeps the invariant, and under its condition what the stations count and what the
pointer into the node table stands for. -/
theorem Inv.step (h : Inv cfg s nl rl) (hstep : s.step cfg e = .ok t) :
    ∃ nl' rl', Inv cfg t nl' rl' ∧ (e.FlushesWaiting s → Counts s nl → Counts t nl') ∧
      (e.FillsAll cfg s → Frontier s s.nextOpIntoRs nl → Frontier t t.nextOpIntoRs nl') := by
  have hcarry : ∀ {nl' rl'}, Inv cfg t nl' rl' → Carried s nl t nl' →
      ∃ nl' rl', Inv cfg t nl' rl' ∧ (e.FlushesWaiting s → Counts s nl → Counts t nl') ∧
        (e.FillsAll cfg s → Frontier s s.nextOpIntoRs nl → Frontier t t.nextOpIntoRs nl') :=
    fun hinv hcarried => ⟨_, _, hinv, fun _ => hcarried.counts, fun _ => hcarried.frontier⟩
  have hquiet : ∀ {rl'}, Inv cfg t nl rl' → SameStations s t nl →
      ∃ nl' rl', Inv cfg t nl' rl' ∧ (e.FlushesWaiting s → Counts s nl → Counts t nl') ∧
        (e.FillsAll cfg s → Frontier s s.nextOpIntoRs nl → Frontier t t.nextOpIntoRs nl') :=
    fun hinv hsame => hcarry hinv hsame.carried
  cases e with
  | cycle =>
      obtain ⟨_, hstep⟩ := Execution.ite_error_eq_ok.mp hstep
      cases hstep
      exact hquiet h.tick (.of_ops rfl rfl rfl)
  | fetch p fuType memType barIssue offPath =>
      obtain ⟨hfree, hstep⟩ := Execution.ite_error_eq_ok.mp hstep
      cases hstep
      obtain ⟨hinv, hsame⟩ := h.fetch hfree fuType memType barIssue offPath
      exact hquiet hinv hsame
  | map p vector =>
      obtain ⟨hp, hstep⟩ := Execution.ite_error_eq_ok.mp hstep
      cases hstep
      exact hquiet (h.map hp vector) (.of_setOp rfl rfl rfl fun _ => ⟨rfl, rfl, Iff.rfl⟩)
  | latch width =>
      obtain ⟨hempty, hstep⟩ := Execution.ite_error_eq_ok.mp hstep
      cases hstep
      exact hquiet (h.latch hempty width) (.of_ops rfl rfl rfl)
  | branch p recoveryScheduled redirectScheduled =>
      cases hstep
      exact hquiet (h.branch p _ _) (.of_setOp rfl rfl rfl fun _ => ⟨rfl, rfl, Iff.rfl⟩)
  | wake p bit wakeCycle =>
      obtain ⟨⟨hvalid, hbit⟩, hstep⟩ := Execution.ite_error_eq_ok.mp hstep
      cases hstep
      have hpending : (s.ops p).srcsNotRdyVector ≠ 0#32 := fun hzero => hbit (by rw [hzero]; simp)
      obtain ⟨rl', hinv, hsame⟩ := h.wake hvalid hpending _ wakeCycle
      exact hquiet hinv hsame
  | issue =>
      obtain ⟨nl', hinv, hcarried⟩ := h.issue hstep
      exact hcarry hinv hcarried
  | handleScheduledOps =>
      obtain ⟨m, hm, hstep⟩ := Execution.bind_eq_ok.mp hstep
      cases hstep
      obtain ⟨⟨rl', hinv⟩, hcarried⟩ := h.handle hm
      exact hcarry hinv hcarried
  | fillRs =>
      obtain ⟨⟨rl', hinv⟩, hcounts, hfront⟩ := h.fillRs hstep
      exact ⟨nl, rl', hinv, fun _ => hcounts, fun hfill => hfront (hfill rfl)⟩
  | retire =>
      obtain ⟨hphase, hstep⟩ := Execution.ite_error_eq_ok.mp hstep
      obtain ⟨nl', hinv, hcarried⟩ := h.retire hphase hstep
      exact hcarry hinv hcarried
  | sched canAllocate =>
      obtain ⟨_, hstep⟩ := Execution.ite_error_eq_ok.mp hstep
      obtain ⟨hinv, hsame⟩ := h.sched hstep
      exact hquiet hinv hsame
  | reject fuId =>
      cases hstep
      exact hquiet (h.reject fuId) (.of_ops rfl rfl rfl)
  | exec fuId latency =>
      cases hsd : s.sd fuId with
      | none =>
          simp only [State.step, hsd] at hstep
          cases hstep
      | some p =>
          simp only [State.step, hsd] at hstep
          obtain ⟨hinv, hsame⟩ := h.exec hsd hstep
          exact hquiet hinv hsame
  | dcache p outcome =>
      obtain ⟨⟨hmem, hphase⟩, hstep⟩ := Execution.ite_error_eq_ok.mp hstep
      cases hstep
      obtain ⟨hinv, hsame⟩ := h.access hmem hphase outcome
      exact hquiet hinv hsame
  | fillLine p =>
      obtain ⟨⟨_, hvalid, _, hsched, hmem⟩, hstep⟩ := Execution.ite_error_eq_ok.mp hstep
      obtain ⟨hinv, hsame⟩ := h.fillLine hvalid hsched hmem hstep
      exact hquiet hinv hsame
  | recover r =>
      obtain ⟨_, hstep⟩ := Execution.ite_error_eq_ok.mp hstep
      have hrec := h.recovered hstep
      exact ⟨_, _, hrec.inv h, fun hclean => hrec.stations h (hclean r rfl), fun _ => hrec.frontier h⟩

/-! ## Runs -/

/-- A run leads to the state, and each of its steps meets the condition. -/
def ReachableWhen (cfg : Config) (P : State → Event → Prop) (s : State) : Prop :=
  Execution.Visited (· = .init) (fun s t => ∃ e, P s e ∧ s.step cfg e = .ok t) s

theorem Reachable.inv (h : Reachable cfg s) : ∃ nl rl, Inv cfg s nl rl := by
  obtain ⟨events, hrun⟩ := h
  refine Execution.run_invariant (I := fun s => ∃ nl rl, Inv cfg s nl rl) (fun s e t hs hstep => ?_)
    ⟨[], [], Inv.init⟩ hrun
  obtain ⟨nl, rl, hinv⟩ := hs
  obtain ⟨nl', rl', hinv', _⟩ := hinv.step hstep
  exact ⟨nl', rl', hinv'⟩

theorem Counts.init : Counts .init [] := fun _ => rfl

theorem Frontier.init : Frontier .init State.init.nextOpIntoRs [] :=
  ⟨[], [], rfl, by simp, by simp, rfl⟩

/-- The two, each under its condition. -/
theorem ReachableWhen.inv {P : State → Event → Prop} (h : ReachableWhen cfg P s) :
    ∃ nl rl, Inv cfg s nl rl ∧ ((∀ s e, P s e → e.FlushesWaiting s) → Counts s nl) ∧
      ((∀ s e, P s e → e.FillsAll cfg s) → Frontier s s.nextOpIntoRs nl) := by
  refine Execution.Visited.invariant (I := fun s => ∃ nl rl, Inv cfg s nl rl ∧
      ((∀ s e, P s e → e.FlushesWaiting s) → Counts s nl) ∧
      ((∀ s e, P s e → e.FillsAll cfg s) → Frontier s s.nextOpIntoRs nl))
    (fun s hs => ?_) (fun s t hs hnext => ?_) h
  · subst hs
    exact ⟨[], [], Inv.init, fun _ => Counts.init, fun _ => Frontier.init⟩
  · obtain ⟨nl, rl, hinv, hcounts, hfront⟩ := hs
    obtain ⟨e, he, hstep⟩ := hnext
    obtain ⟨nl', rl', hinv', hcounts', hfront'⟩ := hinv.step hstep
    exact ⟨nl', rl', hinv', fun hP => hcounts' (hP s e he) (hcounts hP),
      fun hP => hfront' (hP s e he) (hfront hP)⟩

/-- A run of events that all meet the condition. -/
theorem ReachableWhen.of_run {P : State → Event → Prop} {events : List Event}
    (hP : ∀ e ∈ events, ∀ s, P s e) (hrun : Execution.run (State.step cfg) .init events = .ok s) :
    ReachableWhen cfg P s := by
  have hstart : ReachableWhen cfg P .init := ⟨_, rfl, .refl⟩
  generalize State.init = start at hrun hstart
  induction events generalizing start with
  | nil =>
      cases hrun
      exact hstart
  | cons e events ih =>
      obtain ⟨m, hm, hrest⟩ := Execution.run_cons_eq_ok.mp hrun
      exact ih (fun e he => hP e (by simp [he])) m hrest
        (hstart.step ⟨e, hP e (by simp) start, hm⟩)

/-- Where the exec stage schedules the memory ops at once, no op in a station waits for the dcache
or the memory, and none is scheduled between two cycles. -/
theorem Inv.flushesWaiting (h : Inv cfg s nl rl) (hstall : cfg.stallOnWaitMem = true)
    (hidle : s.phase = .idle) (r : ℕ) : s.FlushesWaiting r := by
  intro p hvalid _ hocc
  cases List.mem_append.mp ((h.table.valid p).mp hvalid) with
  | inl hnl =>
      have hnode := h.stages.node p hnl
      cases hstate : (s.ops p).state <;> simp_all [Op.Consistent, Op.waitsInRs]
  | inr hwait =>
      obtain ⟨_, _, hfalse, _⟩ := h.stages.waiting p hwait
      rw [hfalse] at hocc
      cases hocc

/-- There, every run meets the condition on the recoveries. -/
theorem Reachable.flushesWaiting (h : Reachable cfg s) (hstall : cfg.stallOnWaitMem = true) :
    ReachableWhen cfg (fun s e => e.FlushesWaiting s) s := by
  obtain ⟨events, hrun⟩ := h
  refine (Execution.run_invariant (I := fun s => (∃ nl rl, Inv cfg s nl rl) ∧
      ReachableWhen cfg (fun s e => e.FlushesWaiting s) s) (fun s e t hs hstep => ?_)
    ⟨⟨[], [], Inv.init⟩, _, rfl, .refl⟩ hrun).2
  obtain ⟨⟨nl, rl, hinv⟩, hreach⟩ := hs
  obtain ⟨nl', rl', hinv', _⟩ := hinv.step hstep
  refine ⟨⟨nl', rl', hinv'⟩, hreach.step ⟨e, ?_, hstep⟩⟩
  rintro r rfl
  obtain ⟨⟨hidle, _⟩, _⟩ := Execution.ite_error_eq_ok.mp hstep
  exact hinv.flushesWaiting hstall hidle r

/-- One station of four ops with two functional units. -/
def oneRs (stallOnWaitMem : Bool) (rsFillWidth : ℕ) : Config where
  nodeTableSize := 4
  nodeRetWidth := 4
  rsFillWidth
  stallOnWaitMem
  numFus := 2
  rs := [⟨4, [⟨0, 1⟩, ⟨1, 1⟩]⟩]

/-- An op without sources and a load go into the station. -/
def twoFilled : List Event :=
  [.fetch 5 1 .notMem false false, .fetch 6 1 .ld false false, .latch 4, .issue, .fillRs]

/-- Both are latched by the exec stage. -/
def twoLatched : List Event := twoFilled ++ [.sched true, .cycle, .exec 0 1, .exec 1 1]

/-! ## The ready list -/

/-- An op that may be on the ready list is in the node table. -/
theorem Inv.mem_of_occupies (h : Inv cfg s nl rl) (hvalid : (s.ops p).valid = true)
    (hocc : (s.ops p).occupies = true) : p ∈ nl := by
  cases List.mem_append.mp ((h.table.valid p).mp hvalid) with
  | inl hnl => exact hnl
  | inr hwait =>
      obtain ⟨_, _, hfalse, _⟩ := h.stages.waiting p hwait
      rw [hfalse] at hocc
      cases hocc

theorem Inv.ncard_occupants (h : Inv cfg s nl rl) (rsId : ℕ) :
    Set.ncard {p | (s.ops p).valid = true ∧ s.occupant rsId p = true} = nl.countP (s.occupant rsId) := by
  have hset : {p | (s.ops p).valid = true ∧ s.occupant rsId p = true} =
      ((nl.filter (s.occupant rsId)).toFinset : Set OpPtr) := by
    ext p
    simp only [Set.mem_ofPred_eq, List.coe_toFinset, List.mem_filter]
    refine ⟨fun hp => ⟨?_, hp.2⟩, fun hp => ⟨?_, hp.2⟩⟩
    · have hocc := hp.2
      simp only [State.occupant, Bool.and_eq_true] at hocc
      exact h.mem_of_occupies hp.1 hocc.1
    · exact (h.table.valid p).mpr (List.mem_append_left _ hp.1)
  rw [hset, Set.ncard_coe_finset, List.toFinset_card_of_nodup (h.table.nodup_list.filter _),
    List.countP_eq_length_filter]

/-- No live op is in a station without a state that `OP_IS_IN_RS` has. -/
def State.InRs (s : State) : Prop :=
  ∀ p, (s.ops p).valid = true → (s.ops p).occupies = true → (s.ops p).state.isInRs = true

/-- What `OP_IS_IN_RS` says of an op in the node table. -/
theorem Inv.printed_iff (h : Inv cfg s nl rl) (hin : s.InRs) (hp : p ∈ nl) (rsId : ℕ) :
    decide ((s.ops p).rsId = rsId ∧ (s.ops p).state.isInRs = true) = s.occupant rsId p := by
  have hvalid := (h.table.valid p).mpr (List.mem_append_left _ hp)
  have hocc : (s.ops p).state.isInRs = (s.ops p).occupies := by
    cases hb : (s.ops p).occupies with
    | true => exact hin p hvalid hb
    | false =>
        have hnode := h.stages.node p hp
        cases hstate : (s.ops p).state <;> simp_all [Op.Consistent, OpState.isInRs]
  rw [State.occupant, hocc]
  cases (s.ops p).occupies <;> simp [beq_eq_decide]

/-- The loop of `debug_print_rs` over the ops before the one that goes into a station next. -/
theorem printed_run {filled issued : List OpPtr} {rsId n : ℕ} (hnot : ∀ p ∈ filled, s.nextOpIntoRs ≠ some p)
    (hnext : s.nextOpIntoRs = issued.head?) :
    Linked.run (fun printed p =>
      if s.nextOpIntoRs = some p then (.ok (printed, true) : Except String (ℕ × Bool))
      else .ok (if (s.ops p).rsId = rsId ∧ (s.ops p).state.isInRs = true then printed + 1
        else printed, false)) (filled ++ issued) n =
      .ok (issued, n + filled.countP fun p => (s.ops p).rsId = rsId ∧ (s.ops p).state.isInRs = true) := by
  induction filled generalizing n with
  | nil =>
      cases issued with
      | nil => rfl
      | cons p issued => simp [Linked.run, hnext, bind, Except.bind, pure, Except.pure]
  | cons p filled ih =>
      have hp := hnot p (by simp)
      have hrest := @ih (n := if (s.ops p).rsId = rsId ∧ (s.ops p).state.isInRs = true then n + 1 else n)
        fun q hq => hnot q (by simp [hq])
      rw [List.cons_append, Linked.run, if_neg hp]
      refine hrest.trans ?_
      rw [List.countP_cons]
      by_cases hin : (s.ops p).rsId = rsId ∧ (s.ops p).state.isInRs = true
      · simp [hin, Nat.add_assoc, Nat.add_comm]
      · simp [hin]

/-- The check of `debug_print_rs` goes through where the stations count their ops, the pointer
stands for the ops that wait, and no op in a station waits for the dcache or the memory. -/
theorem Inv.debugPrintRs (h : Inv cfg s nl rl) (hc : Counts s nl) (hf : Frontier s s.nextOpIntoRs nl)
    (hin : s.InRs) : s.debugPrintRs cfg = .ok () := by
  obtain ⟨filled, issued, hsplit, hfilled, hissued, hnext⟩ := hf
  have hprinted : ∀ rsId, s.printed rsId = .ok (s.rsOpCount rsId) := by
    intro rsId
    have hnot : ∀ p ∈ filled, s.nextOpIntoRs ≠ some p := by
      intro p hp hsome
      rw [hnext] at hsome
      exact hfilled p hp (hissued p (List.mem_of_mem_head? hsome))
    rw [State.printed, Linked.walk_eq_run _ h.table.chain h.table.count.ge, hsplit,
      printed_run hnot hnext, hc rsId, hsplit, List.countP_append]
    have hzero : issued.countP (s.occupant rsId) = 0 := by
      refine List.countP_eq_zero.mpr fun p hp => ?_
      rw [← h.printed_iff hin (hsplit ▸ List.mem_append_right _ hp), hissued p hp]
      simp [OpState.isInRs]
    have hcount : filled.countP (fun p => decide ((s.ops p).rsId = rsId ∧ (s.ops p).state.isInRs = true)) =
        filled.countP (s.occupant rsId) :=
      List.countP_congr fun p hp => by rw [h.printed_iff hin (hsplit ▸ List.mem_append_left _ hp)]
    rw [hzero, hcount, Nat.zero_add]
    rfl
  rw [State.debugPrintRs]
  generalize List.range cfg.rs.length = stations
  induction stations with
  | nil => rfl
  | cons rsId stations ih =>
      simp only [List.forM, hprinted rsId]
      simpa [bind, Except.bind, pure, Except.pure] using ih

/-- Each station counts the live ops that `node_fill_rs` put into it and that did not leave it, so
no count goes below zero and the check of the debug output holds, where every recovery flushes
ops out of their stations only in a state that `flush_window` tests, as with `STALL_ON_WAIT_MEM`. -/
theorem rs_op_count_exact (cfg : Config) :
    (cfg.stallOnWaitMem = true → ∀ s, Reachable cfg s →
      ReachableWhen cfg (fun s e => e.FlushesWaiting s) s) ∧
    (∀ s, ReachableWhen cfg (fun s e => e.FlushesWaiting s) s →
      (∀ rsId, s.rsOpCount rsId = Set.ncard {p | (s.ops p).valid = true ∧ s.occupant rsId p = true}) ∧
      (∃ t, s.nodeHandleScheduledOps = .ok t) ∧ ∀ r, ∃ t, s.cmpRecover cfg r = .ok t) ∧
    ∀ s, ReachableWhen cfg (fun s e => e.FlushesWaiting s ∧ e.FillsAll cfg s) s → s.InRs →
      s.debugPrintRs cfg = .ok () := by
  refine ⟨fun hstall s hs => hs.flushesWaiting hstall, fun s hs => ?_, fun s hs hin => ?_⟩
  · obtain ⟨nl, rl, hinv, hcounts, _⟩ := hs.inv
    have hc := hcounts fun _ _ hP => hP
    refine ⟨fun rsId => ?_, hinv.handle_ok hc, fun r => hinv.recover_ok hc⟩
    rw [hc rsId, hinv.ncard_occupants]
  · obtain ⟨nl, rl, hinv, hcounts, hfront⟩ := hs.inv
    exact hinv.debugPrintRs (hcounts fun _ _ hP => hP.1) (hfront fun _ _ hP => hP.2) hin

theorem rs_op_count_exact_filled : ∃ s : State, s.rsOpCount 0 = 2 ∧
    (s.rsOpCount 0 = Set.ncard {p | (s.ops p).valid = true ∧ s.occupant 0 p = true} ∧
      ∃ t, s.cmpRecover (oneRs true 0) 1 = .ok t) ∧ s.debugPrintRs (oneRs true 0) = .ok () := by
  have hrun : (fun s => (s.rsOpCount 0, [s.nodeList.head, s.nodeList.next 5, s.nodeList.next 6],
      [(s.ops 5).state, (s.ops 6).state])) <$>
      Execution.run (State.step (oneRs true 0)) .init twoFilled =
        .ok (2, [some 5, some 6, none], [.ready, .ready]) := by
    decide +kernel
  obtain ⟨s, hs, hout⟩ := Execution.map_eq_ok.mp hrun
  simp only [Prod.mk.injEq, List.cons.injEq, and_true] at hout
  obtain ⟨hcount, ⟨hhead, hnext, hlast⟩, hstate, hstate'⟩ := hout
  have hquiet : ∀ e ∈ twoFilled, ∀ s : State, e.FlushesWaiting s ∧ e.FillsAll (oneRs true 0) s := by
    intro e he s
    refine ⟨fun r hr => ?_, fun _ hstop => Nat.not_lt_zero _ hstop.1⟩
    subst hr
    simp [twoFilled] at he
  have hin : s.InRs := by
    intro p hvalid hocc
    obtain ⟨nl, rl, hinv⟩ := (show Reachable (oneRs true 0) s from ⟨_, hs⟩).inv
    have hnl : nl = [5, 6] := hinv.table.chain.unique ⟨hhead, hnext, hlast⟩
    have hp := hinv.mem_of_occupies hvalid hocc
    rw [hnl, List.mem_pair] at hp
    cases hp with
    | inl hp => rw [hp, hstate]; rfl
    | inr hp => rw [hp, hstate']; rfl
  have hexact := rs_op_count_exact (oneRs true 0)
  have hcounts := hexact.2.1 s (hexact.1 rfl s ⟨_, hs⟩)
  exact ⟨s, hcount, ⟨hcounts.1 0, hcounts.2.2 1⟩, hexact.2.2 s (.of_run hquiet hs) hin⟩

/-- A recovery flushes a load that is latched: its place in the station is never given back. -/
def loadFlushed : List Event := twoLatched ++ [.handleScheduledOps, .cycle, .recover 1, .retire]

theorem rs_op_count_leaks : ∃ s, Reachable (oneRs false 8) s ∧ s.rsOpCount 0 = 1 ∧
    Set.ncard {p | (s.ops p).valid = true ∧ s.occupant 0 p = true} = 0 := by
  have hrun : (fun s => (s.rsOpCount 0, s.nodeList.head)) <$>
      Execution.run (State.step (oneRs false 8)) .init loadFlushed = .ok (1, none) := by
    decide +kernel
  obtain ⟨s, hs, hout⟩ := Execution.map_eq_ok.mp hrun
  simp only [Prod.mk.injEq] at hout
  have hreach : Reachable (oneRs false 8) s := ⟨_, hs⟩
  obtain ⟨nl, rl, hinv⟩ := hreach.inv
  have hnl : nl = [] := hinv.table.chain.unique hout.2
  exact ⟨s, hreach, hout.1, by rw [hinv.ncard_occupants, hnl, List.countP_nil]⟩

/-! ## The node table -/

/-- The node table is a list of `node_count` ops in the order of fetch, with `node_tail` at its
end, and the pointer is the oldest op that waits for a station where `RS_FILL_WIDTH` stops no
`node_fill_rs`. -/
theorem reorder_buffer_list (cfg : Config) :
    (∀ s, Reachable cfg s → ∃ nl, Chain s.nodeList.next s.nodeList.head nl ∧ nl.length = s.nodeCount ∧
      nl.Pairwise (fun p q => (s.ops p).opNum < (s.ops q).opNum) ∧ s.nodeTail = nl.getLast? ∧
      (s.nodeList.head = none ↔ s.nodeCount = 0) ∧ (s.nodeTail = none ↔ s.nodeCount = 0) ∧
      s.nodeCount ≤ cfg.nodeTableSize) ∧
    ∀ s, ReachableWhen cfg (fun s e => e.FillsAll cfg s) s →
      ∃ nl, Chain s.nodeList.next s.nodeList.head nl ∧
        s.nextOpIntoRs = nl.find? (fun p => (s.ops p).state = .issued) ∧
        nl.Pairwise fun p q => (s.ops p).state = .issued → (s.ops q).state = .issued := by
  refine ⟨fun s hs => ?_, fun s hs => ?_⟩
  · obtain ⟨nl, rl, hinv⟩ := hs.inv
    have htable := hinv.table
    refine ⟨nl, htable.chain, htable.count.symm, (List.pairwise_append.mp htable.order).1, htable.tail,
      ?_, ?_, ?_⟩
    · rw [htable.chain.head_eq, htable.count, List.head?_eq_none_iff, List.length_eq_zero_iff]
    · rw [htable.tail, htable.count, List.getLast?_eq_none_iff, List.length_eq_zero_iff]
    · rw [htable.count]
      exact htable.bound
  · obtain ⟨nl, rl, hinv, _, hfront⟩ := hs.inv
    obtain ⟨filled, issued, rfl, hfilled, hissued, hnext⟩ := hfront fun _ _ hP => hP
    refine ⟨filled ++ issued, hinv.table.chain, ?_, List.pairwise_append.mpr ⟨?_, ?_, ?_⟩⟩
    · rw [List.find?_append, List.find?_eq_none.mpr fun p hp => by simpa using hfilled p hp, hnext]
      cases issued with
      | nil => rfl
      | cons p issued => simp [hissued p (by simp)]
    · exact List.pairwise_iff_forall_sublist.mpr fun hsub hp =>
        absurd hp (hfilled _ (hsub.subset (by simp)))
    · exact List.pairwise_iff_forall_sublist.mpr fun hsub _ => hissued _ (hsub.subset (by simp))
    · exact fun p _ q hq _ => hissued q hq

theorem reorder_buffer_list_filled : ∃ s : State, s.nodeCount = 2 ∧
    (∃ nl, Chain s.nodeList.next s.nodeList.head nl ∧ nl.length = s.nodeCount ∧
      nl.Pairwise (fun p q => (s.ops p).opNum < (s.ops q).opNum) ∧ s.nodeTail = nl.getLast? ∧
      (s.nodeList.head = none ↔ s.nodeCount = 0) ∧ (s.nodeTail = none ↔ s.nodeCount = 0) ∧
      s.nodeCount ≤ (oneRs true 0).nodeTableSize) ∧
    ∃ nl, Chain s.nodeList.next s.nodeList.head nl ∧
      s.nextOpIntoRs = nl.find? (fun p => (s.ops p).state = .issued) ∧
      nl.Pairwise fun p q => (s.ops p).state = .issued → (s.ops q).state = .issued := by
  have hrun : (fun s => s.nodeCount) <$>
      Execution.run (State.step (oneRs true 0)) .init twoFilled = .ok 2 := by
    decide +kernel
  obtain ⟨s, hs, hout⟩ := Execution.map_eq_ok.mp hrun
  have hfills : ∀ e ∈ twoFilled, ∀ s : State, e.FillsAll (oneRs true 0) s :=
    fun _ _ _ _ hstop => Nat.not_lt_zero _ hstop.1
  have hlist := reorder_buffer_list (oneRs true 0)
  exact ⟨s, hout, hlist.1 s ⟨_, hs⟩, hlist.2 s (.of_run hfills hs)⟩

/-- A fill that `RS_FILL_WIDTH` stops leaves the pointer at the op that it filled last. -/
theorem next_op_into_rs_filled : ∃ s, Reachable (oneRs true 1) s ∧ s.nextOpIntoRs = some 5 ∧
    (s.ops 5).state = .ready ∧ (s.ops 6).state = .issued := by
  have hrun : (fun s => (s.nextOpIntoRs, (s.ops 5).state, (s.ops 6).state)) <$>
      Execution.run (State.step (oneRs true 1)) .init twoFilled = .ok (some 5, .ready, .issued) := by
    decide +kernel
  obtain ⟨s, hs, hout⟩ := Execution.map_eq_ok.mp hrun
  simp only [Prod.mk.injEq] at hout
  exact ⟨s, ⟨_, hs⟩, hout⟩

end Scarab.Node
