import Scarab.Core.FrontEnd.Law

/-! # The steps of the front end

Every step leads to a state that keeps the invariant, or it stops for one of a few reasons, none of
which is an assertion of the stages or of the node table. -/

namespace Scarab.FrontEnd

open OpPool (OpPtr Op Pool)
open Execution (Follows)

variable {cfg : Config} {s t : State} {p : OpPtr} {r : ℕ} {l : List OpPtr}

/-! ## Fetching -/

/-- The ops for which there is room in the node table and in the stages. -/
def Config.capacity (cfg : Config) : ℕ := cfg.nodeTableSize + cfg.issueWidth * (cfg.mapCycles + cfg.decodeCycles + 1)

/-- What may end a run, where other cores have so many ops: the pool or the sequential op list is
too small for all ops that there may be, or the event is none that can happen. -/
def Stops (cfg : Config) (others : ℕ) (e : String) : Prop :=
  e = OpPool.growthAssertion ∧ OpPool.opPoolEntriesInc * 128 ≤ cfg.capacity + others ∨
    e = "td->seq_op_list.count < 8193" ∧ maxSeqOps ≤ cfg.capacity ∨
    e = "op_not_ready_for_retire" ∨ e = "break" ∨ e = "recovery_op" ∨ e = "other core"

/-- The step leads on and leaves the other cores alone, or it stops the run. -/
def Goes (cfg : Config) (s : State) (x : Except String State) : Prop :=
  Follows (fun t s => Advances cfg s t ∧ t.others = s.others) (Stops cfg s.others.length) x s

theorem Goes.ok (h : Advances cfg s t) (hothers : t.others = s.others) : Goes cfg s (.ok t) := .inl ⟨t, rfl, h, hothers⟩

theorem Goes.stop {e : String} (h : Stops cfg s.others.length e) : Goes cfg s (.error e) := .inr ⟨e, rfl, h⟩

/-- After a step. -/
theorem Goes.after {x : Except String State} (h : Advances cfg s t) (hothers : t.others = s.others) (hx : Goes cfg t x) :
    Goes cfg s x := by
  obtain ⟨u, hu, htu, hout⟩ | hstop := hx
  · exact .inl ⟨u, hu, h.trans htu, hout.trans hothers⟩
  · exact .inr (hothers ▸ hstop)

theorem Goes.bind {x : Except String State} {f : State → Except String State} (h : Goes cfg s x)
    (hnext : ∀ t, Advances cfg s t → Goes cfg t (f t)) : Goes cfg s (x >>= f) := by
  obtain ⟨t, rfl, ht, hothers⟩ | ⟨e, rfl, he⟩ := h
  · exact (hnext t ht).after ht hothers
  · exact .stop he

theorem length_flatMap_content {w : ℕ} {sds : List StageData} (h : ∀ sd ∈ sds, sd.Counted w) :
    (sds.flatMap StageData.content).length ≤ w * sds.length := by
  induction sds with
  | nil => exact Nat.zero_le _
  | cons sd sds ih =>
      obtain ⟨hsd, hsds⟩ := List.forall_mem_cons.mp h
      rw [List.flatMap_cons, List.length_append, List.length_cons, Nat.mul_succ]
      have hle := hsd.length_le
      have hrest := ih hsds
      omega

/-- The ops in flight leave the room that there is in the exit list of the icache. -/
theorem Inv.length_flight (h : Inv cfg s) : s.flight.length + cfg.issueWidth ≤ cfg.capacity + s.ic.content.length := by
  have hfront : ((s.map ++ s.dec).flatMap StageData.content).length ≤ cfg.issueWidth * (s.map ++ s.dec).length :=
    length_flatMap_content fun sd hsd => h.row.counted sd (by
      rw [State.stages, ← List.append_assoc]
      exact List.mem_append_left _ hsd)
  have hstages : s.stages.flatMap StageData.content = (s.map ++ s.dec).flatMap StageData.content ++ s.ic.content := by
    simp [State.stages]
  have htable := h.table
  rw [List.length_append, h.mapLength, h.decLength] at hfront
  rw [flight_eq, hstages, List.length_append, List.length_append, Config.capacity, Nat.mul_succ]
  omega

/-- The pool has no op left only where all cores together may have as many as there can be. -/
theorem Inv.alloc_stops (h : Inv cfg s) (hcfg : cfg.Valid) {opCount uniqueCount : ℕ} {e : String}
    (hm : s.pool.allocOp opCount uniqueCount = .error e) : Stops cfg s.others.length e := by
  obtain ⟨he, hfull⟩ := h.pool.alloc_error hm
  have hroom := h.length_flight
  have hwidth := (h.packed hcfg s.ic (by simp)).length_le
  rw [List.length_append] at hfull
  exact .inl ⟨he, by omega⟩

/-- An op is fetched. -/
structure Fetched (cfg : Config) (s t : State) (p : OpPtr) : Prop where
  state : t = { s with
    pool := t.pool, seqOpList := s.seqOpList ++ [p], ic := t.ic
    opCount := s.opCount + 1, uniqueCount := s.uniqueCount + 1 }
  packed : t.ic.Packed cfg.issueWidth
  content : t.ic.content = s.ic.content ++ [p]
  pool : t.pool.Holds (p :: (s.flight ++ s.others))
  same : ∀ q ∈ s.flight ++ s.others, t.pool.ops q = s.pool.ops q
  opNum : (t.pool.ops p).opNum = s.opCount
  number : t.number p = s.uniqueCount

theorem Inv.issueFetched_follows (h : Inv cfg s) (hcfg : cfg.Valid) (hroom : s.ic.content.length < cfg.issueWidth)
    (barIssue : Bool) : Follows (fun t s => ∃ p, Fetched cfg s t p) (Stops cfg s.others.length)
      (s.issueFetched barIssue) s := by
  cases halloc : s.pool.allocOp s.opCount s.uniqueCount with
  | error e =>
      refine .inr ⟨e, ?_, h.alloc_stops hcfg halloc⟩
      rw [State.issueFetched, halloc]
      rfl
  | ok pair =>
      obtain ⟨p, pool⟩ := pair
      have hnew := h.pool.alloc halloc
      obtain ⟨op, hop⟩ : ∃ op, op = { pool.ops p with barIssue, fetchCycle := s.cycle } := ⟨_, rfl⟩
      have hvalid : op.opPoolValid = true := by rw [hop]; exact hnew.valid
      have hholds := hnew.holds.setOp (List.mem_cons_self ..) hvalid
      have hself : (pool.setOp p op).ops p = op := OpPool.setOp_self ..
      by_cases hseq : s.seqOpList.length + 1 < maxSeqOps
      · have hactive : s.seqOpList.length + 1 ≤ (pool.setOp p op).opPoolActiveOps := by
          rw [hholds.active, h.seq, List.length_cons, List.length_append]
          omega
        have hpacked := h.packed hcfg s.ic (by simp)
        obtain ⟨hpush, hcontent⟩ := hpacked.push hroom p
        refine .inl ⟨{ s with
            pool := pool.setOp p op, seqOpList := s.seqOpList ++ [p]
            ic := ⟨s.ic.opCount + 1, s.ic.ops.set s.ic.opCount (some p)⟩
            opCount := s.opCount + 1, uniqueCount := s.uniqueCount + 1 }, ?_, p,
          rfl, hpush, hcontent, hholds, fun q hq => ?_, ?_, ?_⟩
        · rw [State.issueFetched, halloc]
          simp only [bind, Except.bind, State.setOp, ← hop, if_pos hseq, if_pos hactive]
          rfl
        · have hne : q ≠ p := fun heq => hnew.fresh (heq ▸ hq)
          exact (OpPool.setOp_of_ne pool op hne).trans (hnew.same q hq)
        · show ((pool.setOp p op).ops p).opNum = _
          rw [hself, hop]
          exact hnew.opNum
        · show ((pool.setOp p op).ops p).uniqueNumPerProc = _
          rw [hself, hop]
          exact hnew.uniqueNum
      · have hbound := h.length_flight
        rw [h.seq] at hseq
        refine .inr ⟨_, ?_, .inr (.inl ⟨rfl, by omega⟩)⟩
        rw [← h.seq] at hseq
        rw [State.issueFetched, halloc]
        simp only [bind, Except.bind, State.setOp]
        exact if_neg hseq

/-- The new op is the last one on the line. -/
theorem Fetched.advances (h : Inv cfg s) (hcfg : cfg.Valid) (ht : Fetched cfg s t p) : Advances cfg s t := by
  have hentry : t.entry = s.entry ++ [p] := by
    rw [State.entry, List.flatMap_append, List.flatMap_singleton, ht.content, State.entry, ht.state]
    simp
  have hwindow : t.window = s.window := by rw [State.window, State.window, ht.state]
  have hmiddle : t.middle = s.middle := by rw [State.middle, State.middle, ht.state]
  have hflight : t.flight = s.flight ++ [p] := by
    rw [State.flight, hentry, hwindow, hmiddle, State.flight]
    simp
  refine ⟨⟨?_, ?_, ?_, ?_, ?_, ?_, ?_, ?_⟩, ?_⟩
  · rw [ht.state]
    exact h.mapLength
  · rw [ht.state]
    exact h.decLength
  · have hfront : Row cfg.issueWidth (s.map ++ s.dec) := by
      have hrow := h.row
      rw [State.stages, ← List.append_assoc] at hrow
      exact hrow.prefix_
    obtain ⟨a, sds, hmap⟩ := h.cons_map hcfg
    have hic : ∀ sd ∈ [t.ic], sd.Packed cfg.issueWidth := fun sd hsd => List.mem_singleton.mp hsd ▸ ht.packed
    have hrow := hfront.extend (by simp [hmap]) hic
    rw [List.append_assoc] at hrow
    rw [State.stages, ht.state]
    exact hrow
  · rw [ht.state]
    exact h.table
  · rw [hflight, ← h.seq, ht.state]
  · have hret : t.retOp = s.retOp := by rw [ht.state]
    have hold : s.flight.map (fun q => (t.pool.ops q).opNum) = s.flight.map fun q => (s.pool.ops q).opNum :=
      List.map_congr_left fun q hq => congrArg OpPool.Op.opNum (ht.same q (List.mem_append_left _ hq))
    rw [hflight, List.map_append, hold, h.nums, List.length_append, List.length_singleton, hret,
      List.range'_concat, Nat.one_mul, List.map_singleton, ht.opNum, h.next]
  · have hnext := h.next
    rw [hflight, List.length_append, List.length_singleton, ht.state]
    show s.opCount + 1 = s.retOp + (s.flight.length + 1)
    omega
  · have hothers : t.others = s.others := by rw [ht.state]
    rw [hflight, hothers]
    refine ht.pool.perm ?_
    rw [List.append_assoc]
    exact List.perm_middle.symm
  · refine .single ?_
    convert Line.Step.fetch s.line using 1
    have hsame : ∀ q ∈ s.flight, (s.pool.ops q).Same (t.pool.ops q) := fun q hq =>
      ht.same q (List.mem_append_left _ hq) ▸ .refl _
    obtain ⟨hw, hm, he⟩ := map_number hsame
    rw [State.line, hwindow, hmiddle, hentry, hw, hm, List.map_append, he, List.map_singleton, ht.number, ht.state]
    rfl

/-- An op that is given back leaves the pool as it was. -/
theorem Inv.giveBack_goes (h : Inv cfg s) (hcfg : cfg.Valid) : Goes cfg s s.giveBack := by
  cases halloc : s.pool.allocOp s.opCount s.uniqueCount with
  | error e =>
      refine .inr ⟨e, ?_, h.alloc_stops hcfg halloc⟩
      rw [State.giveBack, halloc]
      rfl
  | ok pair =>
      obtain ⟨p, pool⟩ := pair
      have hnew := h.pool.alloc halloc
      obtain ⟨pool', hfree, hholds, hrest⟩ := hnew.holds.free_ok (List.mem_cons_self ..)
      rw [List.erase_cons_head] at hholds
      refine .inl ⟨{ s with pool := pool' }, ?_, h.withPool (fun q hq => ?_) hholds, rfl⟩
      · rw [State.giveBack, halloc]
        simp only [bind, Except.bind, hfree]
        rfl
      · have hmem : q ∈ s.flight ++ s.others := List.mem_append_left _ hq
        have hne : q ≠ p := fun heq => hnew.fresh (heq ▸ hmem)
        rw [hrest q hne, hnew.same q hmem]
        exact .refl _

/-- The ops of a packet, for which there is room. -/
theorem Inv.issueAll_goes (hcfg : cfg.Valid) {fetched : List Bool} (h : Inv cfg s)
    (hroom : s.ic.content.length + fetched.length ≤ cfg.issueWidth) :
    Goes cfg s (fetched.foldlM State.issueFetched s) := by
  induction fetched generalizing s with
  | nil => exact .ok h.refl rfl
  | cons barIssue fetched ih =>
      rw [List.length_cons] at hroom
      rw [List.foldlM_cons]
      obtain ⟨t, ht, p, hp⟩ | ⟨e, he, hstop⟩ := h.issueFetched_follows hcfg (by omega) barIssue
      · have hadv := hp.advances h hcfg
        have hnext := ih hadv.inv (by
          rw [hp.content, List.length_append, List.length_singleton]
          omega)
        rw [ht]
        exact hnext.after hadv (by rw [hp.state])
      · rw [he]
        exact .stop hstop

theorem Inv.updateIcacheStage_goes (h : Inv cfg s) (hcfg : cfg.Valid) (fetched : List Bool) (back : Bool) :
    Goes cfg s (s.updateIcacheStage cfg fetched back) := by
  by_cases hempty : s.ic.opCount = 0
  · rw [State.updateIcacheStage, if_neg (not_not_intro hempty)]
    by_cases hwidth : fetched.length ≤ cfg.issueWidth
    · rw [if_pos hwidth]
      have hcount := (h.packed hcfg s.ic (by simp)).count
      refine Goes.bind (h.issueAll_goes hcfg (by omega)) fun t ht => ?_
      cases back with
      | true => exact ht.inv.giveBack_goes hcfg
      | false => exact .ok ht.inv.refl rfl
    · rw [if_neg hwidth]
      exact .stop (by simp [Stops])
  · rw [State.updateIcacheStage, if_pos hempty]
    exact .ok h.refl rfl

/-! ## A cycle -/

theorem Inv.nodeIssue_goes (h : Inv cfg s) (hcfg : cfg.Valid) : Goes cfg s (s.nodeIssue cfg) := by
  obtain ⟨old, sds, hmap⟩ := h.cons_map hcfg
  obtain ⟨t, last, issued, ht, hissued⟩ := h.nodeIssue_ok hmap
  exact .inl ⟨t, ht, hissued.advances h hmap, by rw [hissued.state]⟩

theorem Inv.retireOp_goes (h : Inv cfg s) : Goes cfg s s.retireOp := by
  cases hnode : s.nodeList with
  | nil =>
      refine .inr ⟨"op_not_ready_for_retire", ?_, by simp [Stops]⟩
      simp only [State.retireOp, hnode]
  | cons p rest =>
      obtain ⟨t, younger, ht, hretired⟩ := h.retireOp_ok hnode
      exact .inl ⟨t, ht, hretired.advances h hnode, by rw [hretired.state]⟩

theorem Inv.retireAll_goes {n : List ℕ} (h : Inv cfg s) : Goes cfg s (n.foldlM (fun s _ => s.retireOp) s) := by
  induction n generalizing s with
  | nil => exact .ok h.refl rfl
  | cons _ n ih => exact h.retireOp_goes.bind fun t ht => ih ht.inv

/-- The cycle counter is in no part of the invariant. -/
theorem Inv.tick (h : Inv cfg s) : Advances cfg s { s with cycle := s.cycle + 1 } :=
  ⟨⟨h.mapLength, h.decLength, h.row, h.table, h.seq, h.nums, h.next, h.pool⟩, .refl⟩

theorem Inv.runCycle_goes (h : Inv cfg s) (hcfg : cfg.Valid) (retires : ℕ) (fetched : List Bool) (back : Bool) :
    Goes cfg s (s.runCycle cfg retires fetched back) := by
  refine Goes.after h.tick rfl ?_
  refine (h.tick.inv.nodeIssue_goes hcfg).bind fun t ht => ?_
  refine ht.inv.retireAll_goes.bind fun t ht => ?_
  refine Goes.bind ?_ fun t ht => Goes.bind ?_ fun t ht => ht.inv.updateIcacheStage_goes hcfg fetched back
  · obtain ⟨u, d, d', ds, ops, hdec, hu, hupdated⟩ := ht.inv.updateMapStage_ok hcfg
    exact .inl ⟨u, hu, hupdated.advances ht.inv hcfg hdec, by rw [hupdated.state]⟩
  · obtain ⟨u, ops, hu, hupdated, hstate⟩ := ht.inv.updateDecodeStage_ok hcfg
    exact .inl ⟨u, hu, decodeUpdated_advances ht.inv hcfg hupdated hstate, by rw [hstate]⟩

/-! ## A recovery -/

/-- The ops that a recovery drops, in the order in which it frees them. -/
def State.dropped (s : State) (P : OpPtr → Bool) : List OpPtr :=
  s.ic.content.filter P ++ ((s.dec.flatMap StageData.content).filter P ++
    ((s.map.flatMap StageData.content).filter P ++ s.nodeList.filter P))

/-- What a recovery leaves. -/
structure Recovered (s t : State) (r : ℕ) (P : OpPtr → Bool) : Prop where
  state : t = { s with
    pool := t.pool, flushed := t.flushed, seqOpList := s.flight.filter fun p => !P p, ic := s.ic.keep P
    dec := s.dec.map (StageData.keep P), map := s.map.map (StageData.collapse P)
    nodeList := s.nodeList.filter fun p => !P p, opCount := r + 1 }
  flushed : t.flushed = s.flushed ++ (s.dropped P).map s.number
  same : ∀ q, (s.pool.ops q).Same (t.pool.ops q)
  pool : t.pool.Holds ((s.flight.filter fun p => !P p) ++ s.others)

theorem dropped_perm (s : State) (P : OpPtr → Bool) : (s.dropped P).Perm (s.flight.filter P) := by
  rw [flight_eq, State.stages]
  simp only [List.flatMap_append, List.flatMap_singleton, List.filter_append, State.dropped]
  refine List.perm_iff_count.mpr fun p => ?_
  simp only [List.count_append]
  omega

theorem Inv.cmpRecover_ok (h : Inv cfg s) (hret : s.retOp ≤ r + 1) :
    ∃ t, s.cmpRecover r = .ok t ∧ Recovered s t r (flushOp s.pool.ops r) := by
  obtain ⟨P, hP⟩ : ∃ P, flushOp s.pool.ops r = P := ⟨_, rfl⟩
  have hseq : recoverSeqOpList s.pool.ops r s.seqOpList = .ok (s.flight.filter fun p => !P p) := by
    rw [h.seq, ← hP]
    exact recoverSeqOpList_eq h.nums hret
  have hperm : (s.flight ++ s.others).Perm (s.dropped P ++ ((s.flight.filter fun p => !P p) ++ s.others)) := by
    rw [← List.append_assoc]
    refine List.Perm.append_right _ ?_
    refine List.Perm.trans ?_ ((dropped_perm s P).append_right _).symm
    exact (List.filter_append_perm P s.flight).symm
  obtain ⟨f, hdrop, hholds, hflushed⟩ := dropAll_ok (f := ⟨s.pool, s.flushed⟩) (h.pool.perm hperm)
  have hsame := dropAll_same hdrop
  rw [State.dropped, dropAll_append] at hdrop
  obtain ⟨f₁, h₁, hdrop⟩ := Execution.bind_eq_ok.mp hdrop
  rw [dropAll_append] at hdrop
  obtain ⟨f₂, h₂, hdrop⟩ := Execution.bind_eq_ok.mp hdrop
  rw [dropAll_append] at hdrop
  obtain ⟨f₃, h₃, h₄⟩ := Execution.bind_eq_ok.mp hdrop
  have hP₁ : flushOp f₁.pool.ops r = P := (flushOp_congr (dropAll_same h₁) r).trans hP
  have hP₂ : flushOp f₂.pool.ops r = P := (flushOp_congr (dropAll_same h₂) r).trans hP₁
  have hP₃ : flushOp f₃.pool.ops r = P := (flushOp_congr (dropAll_same h₃) r).trans hP₂
  refine ⟨{ s with
    pool := f.pool, flushed := f.flushed, seqOpList := s.flight.filter fun p => !P p, ic := s.ic.keep P
    dec := s.dec.map (StageData.keep P), map := s.map.map (StageData.collapse P)
    nodeList := s.nodeList.filter fun p => !P p, opCount := r + 1 }, ?_, hP ▸ rfl, hP ▸ hflushed, hsame,
    hP ▸ hholds⟩
  rw [State.cmpRecover, hseq]
  have hic : recoverStage r s.ic ⟨s.pool, s.flushed⟩ = .ok (f₁, s.ic.keep P) := by
    rw [recoverStage_eq s.ic hP, h₁]
    rfl
  have hdec : recoverStages (recoverStage r) s.dec f₁ = .ok (f₂, s.dec.map (StageData.keep P)) := by
    rw [recoverStages_eq s.dec hP₁ fun sd f hf => recoverStage_eq sd hf, h₂]
    rfl
  have hmap : recoverStages (collapseStage r) s.map f₂ = .ok (f₃, s.map.map (StageData.collapse P)) := by
    rw [recoverStages_eq s.map hP₂ fun sd f hf => collapseStage_eq sd hf, h₃]
    rfl
  have hnode : flushWindow r s.nodeList f₃ = .ok (f, s.nodeList.filter fun p => !P p) := by
    rw [flushWindow_eq s.nodeList hP₃, h₄]
    rfl
  simp only [bind, Except.bind, hic, hdec, hmap, hnode]
  rfl

/-- In the order of the line, a flushed op is followed by flushed ops. -/
theorem Inv.monotone (h : Inv cfg s) (r : ℕ) :
    s.flight.Pairwise fun p q => flushOp s.pool.ops r p = true → flushOp s.pool.ops r q = true := by
  have hnums : (s.flight.map fun p => (s.pool.ops p).opNum).Pairwise (· < ·) := by
    rw [h.nums]
    exact List.pairwise_lt_range'
  refine (List.pairwise_map.mp hnums).imp fun hlt hp => ?_
  simp only [flushOp, decide_eq_true_eq] at hp ⊢
  exact hp.trans hlt

theorem flatMap_filter {g : StageData → StageData} {sds : List StageData} {keep : OpPtr → Bool}
    (h : ∀ sd ∈ sds, (g sd).content = sd.content.filter keep) :
    (sds.map g).flatMap StageData.content = (sds.flatMap StageData.content).filter keep := by
  induction sds with
  | nil => rfl
  | cons sd sds ih =>
      rw [List.map_cons, List.flatMap_cons, List.flatMap_cons, List.filter_append, h sd (List.mem_cons_self ..),
        ih fun sd hsd => h sd (List.mem_cons_of_mem _ hsd)]

/-- How many ops a recovery keeps. -/
theorem Inv.length_kept (h : Inv cfg s) (hret : s.retOp ≤ r + 1) (hr : r < s.opCount) :
    r + 1 = s.retOp + (s.flight.filter fun p => !flushOp s.pool.ops r p).length := by
  have hkeep : s.flight.filter (fun p => !flushOp s.pool.ops r p) =
      s.flight.filter ((fun n => decide (n ≤ r)) ∘ fun p => (s.pool.ops p).opNum) := by
    refine List.filter_congr fun p _ => ?_
    by_cases hp : r < (s.pool.ops p).opNum
    · simp [flushOp, hp]
    · simp [flushOp, hp, Nat.le_of_not_lt hp]
  have hlength := length_filter_range' s.retOp s.flight.length r
  rw [← h.nums, List.filter_map, List.length_map, ← hkeep] at hlength
  have hnext := h.next
  omega

/-- A recovery drops an end of the line. -/
theorem Recovered.advances (h : Inv cfg s) (hcfg : cfg.Valid) (hret : s.retOp ≤ r + 1) (hr : r < s.opCount)
    (ht : Recovered s t r (flushOp s.pool.ops r)) : Advances cfg s t := by
  have hmono := h.monotone r
  have hkept := h.length_kept hret hr
  revert hmono hkept ht
  generalize flushOp s.pool.ops r = P
  intro ht hmono hkept
  have hnumber : t.number = s.number := funext fun q => (ht.same q).uniqueNum
  have hsub : ∀ sd ∈ s.stages, sd.content.Sublist s.flight := fun sd hsd => by
    rw [flight_eq, List.flatMap_def]
    exact (List.sublist_flatten_of_mem (List.mem_map_of_mem hsd)).trans (List.sublist_append_right ..)
  have hkeep : ∀ sd ∈ s.dec ++ [s.ic], (sd.keep P).Packed cfg.issueWidth ∧
      (sd.keep P).content = sd.content.filter fun p => !P p := fun sd hsd =>
    (h.packed hcfg sd hsd).keep (hmono.sublist (hsub sd (List.mem_append_right _ hsd)))
  have hcollapse : ∀ sd ∈ s.map, (sd.collapse P).Packed cfg.issueWidth ∧
      (sd.collapse P).content = sd.content.filter fun p => !P p := fun sd hsd =>
    (h.row.counted sd (List.mem_append_left _ hsd)).collapse P
  have hwindow : t.window = s.window.filter fun p => !P p := by
    rw [State.window, ht.state, State.window, List.filter_append, ← List.map_take,
      flatMap_filter fun sd hsd => (hcollapse sd (List.mem_of_mem_take hsd)).2]
  have hmiddle : t.middle = s.middle.filter fun p => !P p := by
    rw [State.middle, ht.state, State.middle, List.flatMap_append, List.flatMap_append, List.filter_append,
      ← List.map_tail, ← List.map_take, flatMap_filter fun sd hsd => (hcollapse sd (List.mem_of_mem_tail hsd)).2,
      flatMap_filter fun sd hsd => (hkeep sd (List.mem_append_left _ (List.mem_of_mem_take hsd))).2]
  have hentry : t.entry = s.entry.filter fun p => !P p := by
    rw [State.entry, ht.state, State.entry, List.flatMap_append, List.flatMap_append, List.filter_append,
      ← List.map_tail, List.flatMap_singleton, List.flatMap_singleton, (hkeep s.ic (by simp)).2,
      flatMap_filter fun sd hsd => (hkeep sd (List.mem_append_left _ (List.mem_of_mem_tail hsd))).2]
  have hflight : t.flight = s.flight.filter fun p => !P p := by
    rw [State.flight, hwindow, hmiddle, hentry, State.flight, List.filter_append, List.filter_append]
  have hsplit := filter_split hmono
  refine ⟨⟨?_, ?_, ?_, ?_, ?_, ?_, ?_, ?_⟩, ?_⟩
  · rw [ht.state]
    exact (List.length_map ..).trans h.mapLength
  · rw [ht.state]
    exact (List.length_map ..).trans h.decLength
  · rw [State.stages, ht.state]
    refine .of_packed fun sd hsd => ?_
    simp only [List.mem_append, List.mem_map, List.mem_singleton] at hsd
    obtain ⟨sd', hsd', rfl⟩ | ⟨sd', hsd', rfl⟩ | rfl := hsd
    · exact (hcollapse sd' hsd').1
    · exact (hkeep sd' (List.mem_append_left _ hsd')).1
    · exact (hkeep s.ic (by simp)).1
  · rw [ht.state]
    exact (List.length_filter_le ..).trans h.table
  · rw [hflight, ht.state]
  · have hret : t.retOp = s.retOp := by rw [ht.state]
    have hnums := h.nums
    rw [← hsplit, List.map_append, List.length_append, ← List.range'_append_1] at hnums
    rw [hflight, hret, ← (List.append_inj hnums (by simp)).1]
    exact List.map_congr_left fun q _ => (ht.same q).opNum
  · rw [hflight, ht.state]
    exact hkept
  · have hothers : t.others = s.others := by rw [ht.state]
    rw [hflight, hothers]
    exact ht.pool
  · have hcut : s.line.ops = (s.flight.filter fun p => !P p).map s.number ++ (s.flight.filter P).map s.number := by
      rw [line_ops, ← List.map_append, hsplit]
    have hpart : ∀ l : List OpPtr, l.Sublist s.flight → (l.filter fun p => !P p).map s.number <+: l.map s.number :=
      fun l hl => (prefix_filter (hmono.sublist hl)).map s.number
    have hparts : t.window.map s.number ++ (t.middle.map s.number ++ t.entry.map s.number) =
        (s.flight.filter fun p => !P p).map s.number := by
      rw [← List.map_append, ← List.map_append, ← hflight, State.flight]
    refine .single ?_
    convert Line.Step.drop s.line hcut hparts ?_ ?_ ?_ ((dropped_perm s P).map s.number) using 1
    · rw [State.line, hnumber, ht.flushed, ht.state]
      rfl
    · rw [hwindow]
      exact hpart s.window (List.sublist_append_left ..)
    · rw [hmiddle]
      exact hpart s.middle ((List.sublist_append_left ..).trans (List.sublist_append_right ..))
    · rw [hentry]
      exact hpart s.entry ((List.sublist_append_right ..).trans (List.sublist_append_right ..))

end Scarab.FrontEnd
