import Scarab.Core.FrontEnd.Line
import Scarab.Core.FrontEnd.Recovery

/-! # What holds of the stages in every run

The ops in the node table and in the stages are the sequential op list, and they are on a line with
two checkpoints, the decode and the map stage. -/

namespace Scarab.FrontEnd

open OpPool (OpPtr Op Pool)
open Execution (Follows Visited)
open Relation (ReflTransGen)

variable {cfg : Config} {s t : State} {p : OpPtr} {pool : Pool} {l : List OpPtr}

/-! ## The line -/

/-- The stages in a row, the last map stage first. -/
def State.stages (s : State) : List StageData := s.map ++ (s.dec ++ [s.ic])

/-- The ops in the node table and in the last map stage. -/
def State.window (s : State) : List OpPtr := s.nodeList ++ (s.map.take 1).flatMap StageData.content

/-- The ops in the other map stages and the last decode stage. -/
def State.middle (s : State) : List OpPtr := (s.map.tail ++ s.dec.take 1).flatMap StageData.content

/-- The ops in the other decode stages and the exit list of the icache. -/
def State.entry (s : State) : List OpPtr := (s.dec.tail ++ [s.ic]).flatMap StageData.content

/-- All ops in flight, oldest first. -/
def State.flight (s : State) : List OpPtr := s.window ++ (s.middle ++ s.entry)

/-- The stages as a line with two checkpoints. -/
def State.line (s : State) : Line where
  window := s.window.map s.number
  middle := s.middle.map s.number
  entry := s.entry.map s.number
  decoded := s.decoded
  mapped := s.mapped
  retired := s.retired
  flushed := s.flushed
  next := s.uniqueCount

theorem line_ops (s : State) : s.line.ops = s.flight.map s.number := by
  simp [Line.ops, State.line, State.flight]

theorem flight_eq (s : State) : s.flight = s.nodeList ++ s.stages.flatMap StageData.content := by
  have hmap : s.map = s.map.take 1 ++ s.map.tail := by simpa using (List.take_append_drop 1 s.map).symm
  have hdec : s.dec = s.dec.take 1 ++ s.dec.tail := by simpa using (List.take_append_drop 1 s.dec).symm
  rw [State.stages, hmap, hdec]
  simp [State.flight, State.window, State.middle, State.entry]

/-! ## The invariant -/

/-- Between the steps the stages are a row, and what they hold is the sequential op list. -/
structure Inv (cfg : Config) (s : State) : Prop where
  mapLength : s.map.length = cfg.mapCycles
  decLength : s.dec.length = cfg.decodeCycles
  row : Row cfg.issueWidth s.stages
  table : s.nodeList.length ≤ cfg.nodeTableSize
  seq : s.seqOpList = s.flight
  nums : s.flight.map (fun p => (s.pool.ops p).opNum) = List.range' s.retOp s.flight.length
  next : s.opCount = s.retOp + s.flight.length
  pool : s.pool.Holds (s.flight ++ s.others)

/-- One state leads to another one that keeps the invariant, and the line goes on. -/
structure Advances (cfg : Config) (s t : State) : Prop where
  inv : Inv cfg t
  line : ReflTransGen Line.Step s.line t.line

theorem Inv.refl (h : Inv cfg s) : Advances cfg s s := ⟨h, .refl⟩

theorem Advances.trans {u : State} (h : Advances cfg s t) (h' : Advances cfg t u) : Advances cfg s u :=
  ⟨h'.inv, h.line.trans h'.line⟩

/-- The ops in flight keep their numbers. -/
theorem map_number (hsame : ∀ p ∈ s.flight, (s.pool.ops p).Same (t.pool.ops p)) :
    s.window.map t.number = s.window.map s.number ∧ s.middle.map t.number = s.middle.map s.number ∧
      s.entry.map t.number = s.entry.map s.number := by
  have hall : s.flight.map t.number = s.flight.map s.number :=
    List.map_congr_left fun p hp => (hsame p hp).uniqueNum
  simp only [State.flight, List.map_append] at hall
  obtain ⟨hw, hrest⟩ := List.append_inj hall (by simp)
  exact ⟨hw, List.append_inj hrest (by simp)⟩

/-- A step that moves the ops in flight along the line. -/
theorem Inv.of_flight (h : Inv cfg s) (hsame : ∀ p ∈ s.flight, (s.pool.ops p).Same (t.pool.ops p))
    (hmap : t.map.length = s.map.length) (hdec : t.dec.length = s.dec.length)
    (hrow : Row cfg.issueWidth t.stages) (htable : t.nodeList.length ≤ cfg.nodeTableSize)
    (hflight : t.flight = s.flight) (hseq : t.seqOpList = s.seqOpList) (hret : t.retOp = s.retOp)
    (hcount : t.opCount = s.opCount) (hpool : t.pool.Holds (s.flight ++ t.others)) : Inv cfg t where
  mapLength := hmap.trans h.mapLength
  decLength := hdec.trans h.decLength
  row := hrow
  table := htable
  seq := by rw [hseq, h.seq, hflight]
  nums := by
    rw [hflight, hret, ← h.nums]
    exact List.map_congr_left fun p hp => (hsame p hp).opNum
  next := by rw [hcount, hret, hflight, h.next]
  pool := by rwa [hflight]

/-- The ops may change, apart from their numbers, and so may the ops of other cores. -/
theorem Inv.withPool (h : Inv cfg s) {others : List OpPtr} (hsame : ∀ p ∈ s.flight, (s.pool.ops p).Same (pool.ops p))
    (hpool : pool.Holds (s.flight ++ others)) : Advances cfg s { s with pool, others } := by
  refine ⟨h.of_flight hsame rfl rfl h.row h.table rfl rfl rfl rfl hpool, ?_⟩
  have hline : { s with pool, others : State }.line = s.line := by
    obtain ⟨hw, hm, he⟩ := map_number (t := { s with pool, others }) hsame
    show (⟨s.window.map _, s.middle.map _, s.entry.map _, _, _, _, _, _⟩ : Line) = _
    rw [hw, hm, he]
    rfl
  rw [hline]

/-! ## Notes in the ops -/

/-- The ops of the list have changed by `g`, and no others. -/
structure Noted (g : Op → Op) (l : List OpPtr) (m m' : Pool) : Prop where
  on : ∀ q ∈ l, m'.ops q = g (m.ops q)
  off : ∀ q, q ∉ l → m'.ops q = m.ops q

theorem Noted.same {g : Op → Op} {m m' : Pool} (h : Noted g l m m') (hsame : ∀ op : Op, op.Same (g op))
    (q : OpPtr) : (m.ops q).Same (m'.ops q) := by
  by_cases hq : q ∈ l
  · rw [h.on q hq]
    exact hsame _
  · rw [h.off q hq]
    exact .refl _

/-- What notes in ops in use leave. -/
theorem foldl_note {g : Op → Op} (hvalid : ∀ op : Op, (g op).opPoolValid = op.opPoolValid)
    {used : List OpPtr} (hpool : s.pool.Holds used) (hl : l ⊆ used) (hnodup : l.Nodup) :
    ∃ pool, l.foldl (State.note g) s = { s with pool } ∧ pool.Holds used ∧ Noted g l s.pool pool := by
  induction l generalizing s with
  | nil => exact ⟨s.pool, rfl, hpool, fun q hq => absurd hq List.not_mem_nil, fun _ _ => rfl⟩
  | cons p l ih =>
      obtain ⟨hp, hl⟩ := List.cons_subset.mp hl
      obtain ⟨hpl, hnodup⟩ := List.nodup_cons.mp hnodup
      have hin : (s.pool.ops p).opPoolValid = true := (hpool.valid p (hpool.lt hp)).mpr hp
      have hnote : (s.pool.setOp p (g (s.pool.ops p))).Holds used := hpool.setOp hp ((hvalid _).trans hin)
      obtain ⟨pool, hfold, hholds, hon, hoff⟩ := ih (s := s.note g p) hnote hl hnodup
      refine ⟨pool, ?_, hholds, fun q hq => ?_, fun q hq => ?_⟩
      · rw [List.foldl_cons, hfold]
        rfl
      · cases List.mem_cons.mp hq with
        | inl heq =>
            rw [heq, hoff p hpl]
            exact OpPool.setOp_self ..
        | inr hql =>
            have hne : q ≠ p := fun heq => hpl (heq ▸ hql)
            rw [hon q hql]
            exact congrArg g (OpPool.setOp_of_ne s.pool _ hne)
      · obtain ⟨hne, hql⟩ := not_or.mp (List.mem_cons.not.mp hq)
        rw [hoff q hql]
        exact OpPool.setOp_of_ne s.pool _ hne

/-! ## Issue and retirement -/

/-- A part of the ops in the slots was moved to the node table. -/
structure Issued (cfg : Config) (slots : List (Option OpPtr)) (nodeList : List OpPtr) (sd : StageData)
    (issued : List OpPtr) : Prop where
  counted : sd.Counted slots.length
  content : issued ++ sd.content = slots.reduceOption
  table : (nodeList ++ issued).length ≤ cfg.nodeTableSize

/-- Nothing was issued. -/
theorem Issued.stop {slots : List (Option OpPtr)} {opCount : ℕ} {nodeList : List OpPtr}
    (hcount : opCount = slots.reduceOption.length) (htable : nodeList.length ≤ cfg.nodeTableSize) :
    Issued cfg slots nodeList ⟨opCount, slots⟩ [] :=
  ⟨⟨rfl, hcount⟩, rfl, by rwa [List.append_nil]⟩

theorem content_none (n : ℕ) (sd : StageData) : (StageData.mk n (none :: sd.ops)).content = sd.content :=
  List.reduceOption_cons_of_none ..

/-- The first slot was empty. -/
theorem Issued.skip {slots : List (Option OpPtr)} {nodeList issued : List OpPtr} {sd : StageData}
    (h : Issued cfg slots nodeList sd issued) :
    Issued cfg (none :: slots) nodeList ⟨sd.opCount, none :: sd.ops⟩ issued := by
  refine ⟨⟨congrArg (· + 1) h.counted.length, ?_⟩, ?_, h.table⟩
  · rw [content_none]
    exact h.counted.count
  · rw [content_none, List.reduceOption_cons_of_none]
    exact h.content

/-- The op in the first slot was issued. -/
theorem Issued.take {slots : List (Option OpPtr)} {nodeList issued : List OpPtr} {sd : StageData}
    (h : Issued cfg slots (nodeList ++ [p]) sd issued) :
    Issued cfg (some p :: slots) nodeList ⟨sd.opCount, none :: sd.ops⟩ (p :: issued) := by
  refine ⟨⟨congrArg (· + 1) h.counted.length, ?_⟩, ?_, ?_⟩
  · rw [content_none]
    exact h.counted.count
  · rw [content_none, List.reduceOption_cons_of_some, List.cons_append, h.content]
  · simpa using h.table

/-- The loop of `node_issue` ends, and moves a part of the ops. -/
theorem issueSlots_ok (ops : OpPtr → Op) {slots : List (Option OpPtr)} {opCount : ℕ} {nodeList : List OpPtr}
    (hcount : opCount = slots.reduceOption.length) (htable : nodeList.length ≤ cfg.nodeTableSize) :
    ∃ sd issued, issueSlots cfg ops slots opCount nodeList = .ok (sd, nodeList ++ issued) ∧
      Issued cfg slots nodeList sd issued := by
  induction slots generalizing opCount nodeList with
  | nil => exact ⟨_, [], by rw [List.append_nil]; rfl, .stop hcount htable⟩
  | cons slot slots ih =>
      have hstop : ∃ sd issued, Except.ok (ε := String) (StageData.mk opCount (slot :: slots), nodeList) =
          .ok (sd, nodeList ++ issued) ∧ Issued cfg (slot :: slots) nodeList sd issued :=
        ⟨_, [], by rw [List.append_nil], .stop hcount htable⟩
      simp only [issueSlots, if_pos htable]
      by_cases hfull : nodeList.length = cfg.nodeTableSize
      · rw [if_pos hfull]
        exact hstop
      · rw [if_neg hfull]
        cases slot with
        | none =>
            rw [List.reduceOption_cons_of_none] at hcount
            obtain ⟨sd, issued, hrun, hissued⟩ := ih hcount htable
            exact ⟨_, issued, Execution.bind_eq_ok.mpr ⟨_, hrun, rfl⟩, hissued.skip⟩
        | some p =>
            rw [List.reduceOption_cons_of_some, List.length_cons] at hcount
            have hroom : (nodeList ++ [p]).length ≤ cfg.nodeTableSize := by
              rw [List.length_append, List.length_singleton]
              omega
            have hcount' : opCount - 1 = slots.reduceOption.length := by omega
            by_cases hbar : (ops p).barIssue = true ∧ 0 < nodeList.length
            · simp only [if_pos hbar]
              exact hstop
            · simp only [if_neg hbar, if_neg (show ¬ opCount = 0 by omega)]
              by_cases hlast : (ops p).barIssue = true
              · rw [if_pos hlast]
                exact ⟨_, [p], rfl, (Issued.stop hcount' hroom).take⟩
              · rw [if_neg hlast]
                obtain ⟨sd, issued, hrun, hissued⟩ := ih hcount' hroom
                refine ⟨_, p :: issued, Execution.bind_eq_ok.mpr ⟨_, hrun, ?_⟩, hissued.take⟩
                rw [List.append_assoc]
                rfl

/-- What `node_issue` leaves. -/
structure NodeIssued (cfg : Config) (s t : State) (old last : StageData) (sds : List StageData)
    (issued : List OpPtr) : Prop where
  state : t = { s with pool := t.pool, map := last :: sds, nodeList := s.nodeList ++ issued }
  counted : last.Counted cfg.issueWidth
  content : issued ++ last.content = old.content
  table : (s.nodeList ++ issued).length ≤ cfg.nodeTableSize
  pool : t.pool.Holds (s.flight ++ s.others)
  noted : Noted (issueAt s.cycle) issued s.pool t.pool

theorem Inv.cons_map (h : Inv cfg s) (hcfg : cfg.Valid) : ∃ last sds, s.map = last :: sds :=
  List.exists_cons_of_length_pos (h.mapLength ▸ hcfg.mapCycles)

theorem Inv.cons_dec (h : Inv cfg s) (hcfg : cfg.Valid) : ∃ last sds, s.dec = last :: sds :=
  List.exists_cons_of_length_pos (h.decLength ▸ hcfg.decodeCycles)

theorem window_cons {last : StageData} {sds : List StageData} (hmap : s.map = last :: sds) :
    s.window = s.nodeList ++ last.content := by
  simp [State.window, hmap]

theorem Inv.nodup (h : Inv cfg s) : s.flight.Nodup := (List.nodup_append.mp h.pool.nodup).1

theorem Inv.nodeIssue_ok (h : Inv cfg s) {old : StageData} {sds : List StageData} (hmap : s.map = old :: sds) :
    ∃ t last issued, s.nodeIssue cfg = .ok t ∧ NodeIssued cfg s t old last sds issued := by
  have hold : old.Counted cfg.issueWidth := h.row.counted old (by simp [State.stages, hmap])
  by_cases hempty : old.opCount = 0
  · refine ⟨s, old, [], ?_, ?_, hold, rfl, by simpa using h.table, h.pool, ?_, fun _ _ => rfl⟩
    · simp only [State.nodeIssue, hmap, if_pos hempty]
    · rw [List.append_nil, ← hmap]
    · exact fun q hq => absurd hq List.not_mem_nil
  · obtain ⟨last, issued, hrun, hissued⟩ := issueSlots_ok s.pool.ops hold.count h.table
    have hwindow : s.window = s.nodeList ++ old.content := window_cons hmap
    have hsublist : issued.Sublist s.flight := by
      rw [State.flight, hwindow, ← show issued ++ last.content = old.content from hissued.content]
      exact ((List.sublist_append_left ..).trans (List.sublist_append_right ..)).trans
        (List.sublist_append_left ..)
    obtain ⟨pool, hfold, hholds, hnoted⟩ := foldl_note (g := issueAt s.cycle) (fun _ => rfl) h.pool
      (fun p hp => List.mem_append_left _ (hsublist.subset hp)) (h.nodup.sublist hsublist)
    refine ⟨{ s with pool, map := last :: sds, nodeList := s.nodeList ++ issued }, last, issued, ?_, rfl,
      hold.length ▸ hissued.counted, hissued.content, hissued.table, hholds, hnoted⟩
    simp only [State.nodeIssue, hmap, if_neg hempty, hrun]
    show Except.ok (ε := String) _ = _
    rw [List.drop_left, hfold]

/-- `node_issue` moves ops along the window. -/
theorem NodeIssued.advances {old last : StageData} {sds : List StageData} {issued : List OpPtr}
    (h : Inv cfg s) (hmap : s.map = old :: sds) (ht : NodeIssued cfg s t old last sds issued) :
    Advances cfg s t := by
  have hsame := ht.noted.same fun op => ⟨rfl, rfl⟩
  have hwindow : t.window = s.window := by
    rw [window_cons hmap, ht.state, ← ht.content, ← List.append_assoc]
    exact window_cons rfl
  have hmiddle : t.middle = s.middle := by
    rw [State.middle, State.middle, hmap, ht.state]
    rfl
  have hentry : t.entry = s.entry := by rw [State.entry, State.entry, ht.state]
  have hflight : t.flight = s.flight := by rw [State.flight, hwindow, hmiddle, hentry, State.flight]
  have hrow : Row cfg.issueWidth t.stages := by
    have hrow := h.row
    rw [State.stages, hmap] at hrow
    rw [State.stages, ht.state]
    refine ⟨fun sd hsd => ?_, hrow.packed⟩
    cases List.mem_cons.mp hsd with
    | inl heq => exact heq ▸ ht.counted
    | inr hmem => exact hrow.counted sd (List.mem_cons_of_mem _ hmem)
  refine ⟨h.of_flight (fun p _ => hsame p) ?_ ?_ hrow ?_ hflight ?_ ?_ ?_ ?_, ?_⟩
  · rw [ht.state, hmap]
    rfl
  · rw [ht.state]
  · rw [ht.state]
    exact ht.table
  · rw [ht.state]
  · rw [ht.state]
  · rw [ht.state]
  · rw [ht.state]
    exact ht.pool
  · have hline : t.line = s.line := by
      obtain ⟨hw, hm, he⟩ := map_number (t := t) fun p _ => hsame p
      rw [State.line, hwindow, hmiddle, hentry, hw, hm, he, ht.state]
      rfl
    rw [hline]

/-- The op at the head of the node table retires. -/
structure Retired (s t : State) (p : OpPtr) (nodeList younger : List OpPtr) : Prop where
  flight : s.flight = p :: younger
  free : s.pool.freeOp p = .ok t.pool
  state : t = { s with
    pool := t.pool, nodeList, seqOpList := younger, retOp := s.retOp + 1, retired := s.retired ++ [s.number p] }

theorem Inv.retireOp_ok (h : Inv cfg s) {rest : List OpPtr} (hnode : s.nodeList = p :: rest) :
    ∃ t younger, s.retireOp = .ok t ∧ Retired s t p rest younger := by
  obtain ⟨younger, hflight⟩ : ∃ younger, s.flight = p :: younger :=
    ⟨_, by rw [flight_eq, hnode, List.cons_append]⟩
  have hseq : s.seqOpList = p :: younger := h.seq.trans hflight
  have hnums := h.nums
  rw [hflight, List.map_cons, List.length_cons, List.range'_succ] at hnums
  have hin : p ∈ s.flight ++ s.others := by simp [hflight]
  have hvalid : (s.pool.ops p).opPoolValid = true := (h.pool.valid p (h.pool.lt hin)).mpr hin
  obtain ⟨pool, hfree, _⟩ := h.pool.free_ok hin
  refine ⟨{ s with
      pool, nodeList := rest, seqOpList := younger, retOp := s.retOp + 1, retired := s.retired ++ [s.number p] },
    younger, ?_, hflight, hfree, rfl⟩
  simp only [State.retireOp, hnode, hseq]
  rw [if_neg (not_not_intro (List.cons.inj hnums).1), if_neg (by simp [hvalid]),
    if_neg (not_not_intro rfl), hfree]
  rfl

theorem Retired.advances {rest younger : List OpPtr} (h : Inv cfg s) (hnode : s.nodeList = p :: rest)
    (ht : Retired s t p rest younger) : Advances cfg s t := by
  have hsame := OpPool.freeOp_same ht.free
  have hnumber : t.number = s.number := funext fun q => (hsame q).uniqueNum
  have hstages : t.stages = s.stages := by rw [State.stages, ht.state, State.stages]
  have hflight : t.flight = younger := by
    have hold := ht.flight
    rw [flight_eq, hnode, List.cons_append] at hold
    rw [flight_eq, hstages, ht.state]
    exact (List.cons.inj hold).2
  have hin : p ∈ s.flight ++ s.others := by simp [ht.flight]
  have hnums := h.nums
  have hnext := h.next
  have htable := h.table
  rw [ht.flight, List.map_cons, List.length_cons, List.range'_succ] at hnums
  rw [ht.flight, List.length_cons] at hnext
  rw [hnode, List.length_cons] at htable
  refine ⟨⟨?_, ?_, hstages ▸ h.row, ?_, ?_, ?_, ?_, ?_⟩, ?_⟩
  · rw [ht.state]
    exact h.mapLength
  · rw [ht.state]
    exact h.decLength
  · rw [ht.state]
    exact Nat.le_of_succ_le htable
  · rw [hflight, ht.state]
  · have hret : t.retOp = s.retOp + 1 := by rw [ht.state]
    rw [hflight, hret, ← (List.cons.inj hnums).2]
    exact List.map_congr_left fun q _ => (hsame q).opNum
  · rw [hflight, ht.state]
    show s.opCount = s.retOp + 1 + younger.length
    omega
  · obtain ⟨pool, hfree, hholds, _⟩ := h.pool.free_ok hin
    cases ht.free.symm.trans hfree
    rw [ht.flight, List.cons_append, List.erase_cons_head] at hholds
    have hothers : t.others = s.others := by rw [ht.state]
    rw [hflight, hothers]
    exact hholds
  · have hwindow : s.window = p :: t.window := by
      rw [State.window, hnode, ht.state]
      rfl
    refine .single ?_
    have hline : s.line.window = s.number p :: t.window.map s.number := by
      rw [State.line, hwindow, List.map_cons]
    convert Line.Step.retire s.line hline using 1
    have hmiddle : t.middle = s.middle := by rw [State.middle, State.middle, ht.state]
    have hentry : t.entry = s.entry := by rw [State.entry, State.entry, ht.state]
    rw [State.line, hnumber, hmiddle, hentry, ht.state]
    rfl

/-! ## The decode and the map stage -/

/-- What the update of a row of stages does, with the stage behind them. -/
structure Updated (w : ℕ) (sds sds' : List StageData) (src src' : StageData) (ops : List OpPtr) : Prop where
  close : sds' ++ [src'] = Bubble.close StageData.isEmpty (sds ++ [src])
  length : sds'.length = sds.length
  row : Row w (sds' ++ [src'])
  toProcess : toProcess sds sds' = .ok ops
  last : (sds'.take 1).flatMap StageData.content = (sds.take 1).flatMap StageData.content ++ ops
  rest : (sds.tail ++ [src]).flatMap StageData.content = ops ++ (sds'.tail ++ [src']).flatMap StageData.content

/-- The update of a row. -/
theorem Row.update {w : ℕ} {sds : List StageData} {src : StageData} (h : Row w (sds ++ [src])) (hsds : sds ≠ []) :
    ∃ sds' src' ops, updateFirst (updateStages sds) src = (sds', src') ∧ Updated w sds sds' src src' ops := by
  obtain ⟨⟨sds', src'⟩, hupdate⟩ : ∃ pair, pair = updateFirst (updateStages sds) src := ⟨_, rfl⟩
  have hclose := updateFirst_eq hsds src
  have hlength := length_updateFirst hsds src
  rw [← hupdate] at hclose hlength
  cases sds with
  | nil => exact absurd rfl hsds
  | cons a sds =>
      cases sds' with
      | nil => simp at hlength
      | cons b' rest' =>
          obtain ⟨b, rest, ops, hbrest, hpresent, hcontent, hrest⟩ := h.toProcess (l := sds ++ [src]) (by simp)
          rw [List.cons_append] at hclose
          obtain ⟨rfl, rfl⟩ := List.cons.inj (hclose.trans hbrest)
          refine ⟨b' :: rest', src', ops, hupdate.symm, hclose, hlength, ?_, hpresent, ?_, hrest.symm⟩
          · have hrow := h.close
            rw [← hclose] at hrow
            exact hrow
          · simpa using hcontent

/-- What `update_map_stage` leaves. -/
structure MapUpdated (w : ℕ) (s t : State) (d d' : StageData) (ds : List StageData) (ops : List OpPtr) : Prop where
  updated : Updated w s.map t.map d d' ops
  state : t = { s with pool := t.pool, map := t.map, dec := d' :: ds, mapped := s.mapped ++ ops.map t.number }
  pool : t.pool.Holds (s.flight ++ s.others)
  noted : ∃ l, Noted (mapAt s.cycle) l s.pool t.pool

/-- The first map stage has only ops that are there. -/
theorem noteFirst_ok (h : Inv cfg s) {map' : List StageData} {d d' : StageData} {ds : List StageData}
    (hdec : s.dec = d :: ds) (hne : s.map ≠ []) (hupdate : updateFirst (updateStages s.map) d = (map', d')) :
    ∃ pool, ({ s with map := map', dec := d' :: ds } : State).noteFirst (updateStages s.map) =
        .ok { s with pool, map := map', dec := d' :: ds } ∧ pool.Holds (s.flight ++ s.others) ∧
      ∃ l, Noted (mapAt s.cycle) l s.pool pool := by
  have hpacked : d.Packed cfg.issueWidth := by
    refine h.row.packed d ?_
    cases hmap : s.map with
    | nil => exact absurd hmap hne
    | cons a sds => simp [State.stages, hmap, hdec]
  have hnone : Noted (mapAt s.cycle) [] s.pool s.pool :=
    ⟨fun q hq => absurd hq List.not_mem_nil, fun _ _ => rfl⟩
  cases hlast : (updateStages s.map).getLast? with
  | none =>
      rw [List.getLast?_eq_none_iff, updateStages_eq] at hlast
      have hlength := Bubble.length_close StageData.isEmpty s.map
      rw [hlast] at hlength
      exact absurd (List.length_eq_zero_iff.mp hlength.symm) hne
  | some cur =>
      simp only [updateFirst, hlast] at hupdate
      by_cases hcur : cur.opCount = 0
      · rw [if_pos hcur] at hupdate
        obtain ⟨rfl, rfl⟩ := Prod.mk.inj hupdate
        have hlast' : ((updateStages s.map).dropLast ++ [(cur.swap d).1]).getLast? = some d :=
          List.getLast?_concat ..
        have hsub : d.content.Sublist s.flight := by
          rw [flight_eq, State.stages, hdec]
          simp only [List.flatMap_append, List.flatMap_cons, List.cons_append]
          exact ((List.sublist_append_left ..).trans (List.sublist_append_right ..)).trans
            (List.sublist_append_right ..)
        obtain ⟨pool, hfold, hholds, hnoted⟩ := foldl_note (g := mapAt s.cycle)
          (s := { s with map := (updateStages s.map).dropLast ++ [(cur.swap d).1], dec := (cur.swap d).2 :: ds })
          (fun _ => rfl) h.pool (fun p hp => List.mem_append_left _ (hsub.subset hp)) (h.nodup.sublist hsub)
        refine ⟨pool, ?_, hholds, _, hnoted⟩
        simp only [State.noteFirst, hlast, hlast', if_pos hcur, hpacked.present_eq]
        exact congrArg Except.ok hfold
      · rw [if_neg hcur] at hupdate
        obtain ⟨rfl, rfl⟩ := Prod.mk.inj hupdate
        refine ⟨s.pool, ?_, h.pool, [], hnone⟩
        simp only [State.noteFirst, hlast, if_neg hcur]

theorem Inv.updateMapStage_ok (h : Inv cfg s) (hcfg : cfg.Valid) :
    ∃ t d d' ds ops, s.dec = d :: ds ∧ s.updateMapStage = .ok t ∧ MapUpdated cfg.issueWidth s t d d' ds ops := by
  obtain ⟨d, ds, hdec⟩ := h.cons_dec hcfg
  obtain ⟨a, sds, hmap⟩ := h.cons_map hcfg
  have hne : s.map ≠ [] := by
    rw [hmap]
    exact List.cons_ne_nil _ _
  have hrow : Row cfg.issueWidth (s.map ++ [d]) := by
    have hsplit : s.stages = s.map ++ [d] ++ (ds ++ [s.ic]) := by simp [State.stages, hdec]
    exact Row.prefix_ (hsplit ▸ h.row)
  obtain ⟨map', d', ops, hupdate, hupdated⟩ := hrow.update hne
  obtain ⟨pool, hnote, hholds, hnoted⟩ := noteFirst_ok h hdec hne hupdate
  obtain ⟨numbers, hnumbers⟩ : ∃ numbers, numbers = ops.map fun p => (pool.ops p).uniqueNumPerProc := ⟨_, rfl⟩
  refine ⟨{ s with pool, map := map', dec := d' :: ds, mapped := s.mapped ++ numbers }, d, d', ds, ops, hdec,
    ?_, hupdated, hnumbers ▸ rfl, hholds, hnoted⟩
  simp only [State.updateMapStage, hdec, hupdate]
  refine Execution.bind_eq_ok.mpr ⟨_, hnote, ?_⟩
  exact Execution.bind_eq_ok.mpr ⟨_, hupdated.toProcess, hnumbers ▸ rfl⟩

theorem Row.extend {w : ℕ} {l rest : List StageData} (h : Row w l) (hl : l ≠ []) (hrest : ∀ sd ∈ rest, sd.Packed w) :
    Row w (l ++ rest) := by
  refine ⟨fun sd hsd => ?_, fun sd hsd => ?_⟩
  · exact (List.mem_append.mp hsd).elim (h.counted sd) fun hsd => (hrest sd hsd).toCounted
  · rw [List.tail_append_of_ne_nil hl] at hsd
    exact (List.mem_append.mp hsd).elim (h.packed sd) (hrest sd)

/-- The stages behind the last map stage. -/
theorem Inv.packed (h : Inv cfg s) (hcfg : cfg.Valid) : ∀ sd ∈ s.dec ++ [s.ic], sd.Packed cfg.issueWidth := by
  obtain ⟨a, sds, hmap⟩ := h.cons_map hcfg
  intro sd hsd
  refine h.row.packed sd ?_
  rw [State.stages, hmap]
  exact List.mem_append_right sds hsd

/-- `update_map_stage` moves ops past the second checkpoint. -/
theorem MapUpdated.advances {d d' : StageData} {ds : List StageData} {ops : List OpPtr} (h : Inv cfg s)
    (hcfg : cfg.Valid) (hdec : s.dec = d :: ds) (ht : MapUpdated cfg.issueWidth s t d d' ds ops) :
    Advances cfg s t := by
  obtain ⟨noted, hnoted⟩ := ht.noted
  have hsame := hnoted.same fun op => ⟨rfl, rfl⟩
  have hnumber : t.number = s.number := funext fun q => (hsame q).uniqueNum
  have hwindow : t.window = s.window ++ ops := by
    rw [State.window, ht.updated.last, ht.state, ← List.append_assoc]
    rfl
  have hmiddle : s.middle = ops ++ t.middle := by
    have hrest := ht.updated.rest
    rw [State.middle, State.middle, ht.state, hdec]
    exact hrest
  have hentry : t.entry = s.entry := by
    rw [State.entry, State.entry, ht.state, hdec]
    rfl
  have hflight : t.flight = s.flight := by
    rw [State.flight, hwindow, hentry, State.flight, hmiddle, List.append_assoc, List.append_assoc]
  have hrow : Row cfg.issueWidth t.stages := by
    have hrest : ∀ sd ∈ ds ++ [s.ic], sd.Packed cfg.issueWidth := fun sd hsd =>
      h.packed hcfg sd (hdec ▸ List.mem_cons_of_mem d hsd)
    have hrow := ht.updated.row.extend (by simp) hrest
    rw [List.append_assoc] at hrow
    rw [State.stages, ht.state]
    exact hrow
  refine ⟨h.of_flight (fun p _ => hsame p) ht.updated.length ?_ hrow ?_ hflight ?_ ?_ ?_ ?_, ?_⟩
  · rw [ht.state, hdec]
    rfl
  · rw [ht.state]
    exact h.table
  · rw [ht.state]
  · rw [ht.state]
  · rw [ht.state]
  · rw [ht.state]
    exact ht.pool
  · refine .single ?_
    have hline : s.line.middle = ops.map s.number ++ t.middle.map s.number := by
      rw [State.line, hmiddle, List.map_append]
    convert Line.Step.map s.line hline using 1
    rw [State.line, hwindow, hentry, hnumber, ht.state, List.map_append]
    show (⟨_, _, _, _, s.mapped ++ ops.map t.number, _, _, _⟩ : Line) = _
    rw [hnumber]
    rfl

theorem Inv.updateDecodeStage_ok (h : Inv cfg s) (hcfg : cfg.Valid) :
    ∃ t ops, s.updateDecodeStage = .ok t ∧ Updated cfg.issueWidth s.dec t.dec s.ic t.ic ops ∧
      t = { s with dec := t.dec, ic := t.ic, decoded := s.decoded ++ ops.map s.number } := by
  obtain ⟨d, ds, hdec⟩ := h.cons_dec hcfg
  have hrow : Row cfg.issueWidth (s.dec ++ [s.ic]) := .of_packed (h.packed hcfg)
  obtain ⟨dec', ic', ops, hupdate, hupdated⟩ := hrow.update (hdec ▸ List.cons_ne_nil d ds)
  refine ⟨{ s with dec := dec', ic := ic', decoded := s.decoded ++ ops.map s.number }, ops, ?_, hupdated, rfl⟩
  rw [State.updateDecodeStage, hupdate]
  exact Execution.bind_eq_ok.mpr ⟨_, hupdated.toProcess, rfl⟩

/-- `update_decode_stage` moves ops past the first checkpoint. -/
theorem decodeUpdated_advances {ops : List OpPtr} (h : Inv cfg s) (hcfg : cfg.Valid)
    (hupdated : Updated cfg.issueWidth s.dec t.dec s.ic t.ic ops)
    (ht : t = { s with dec := t.dec, ic := t.ic, decoded := s.decoded ++ ops.map s.number }) :
    Advances cfg s t := by
  have hpool : t.pool = s.pool := by rw [ht]
  have hnumber : t.number = s.number := funext fun q => by rw [State.number, hpool, State.number]
  have hwindow : t.window = s.window := by rw [State.window, State.window, ht]
  have hmiddle : t.middle = s.middle ++ ops := by
    rw [State.middle, List.flatMap_append, hupdated.last, ← List.append_assoc, ← List.flatMap_append, ht]
    rfl
  have hentry : s.entry = ops ++ t.entry := hupdated.rest
  have hflight : t.flight = s.flight := by
    rw [State.flight, hwindow, hmiddle, State.flight, hentry, List.append_assoc]
  have hrow : Row cfg.issueWidth t.stages := by
    obtain ⟨a, sds, hmap⟩ := h.cons_map hcfg
    have hfront : Row cfg.issueWidth s.map := h.row.prefix_
    have hmaps : t.map = s.map := by rw [ht]
    rw [State.stages, hmaps]
    refine hfront.extend (hmap ▸ List.cons_ne_nil a sds) fun sd hsd => ?_
    rw [hupdated.close] at hsd
    exact h.packed hcfg sd (Bubble.mem_close.mp hsd)
  refine ⟨h.of_flight (fun p _ => hpool ▸ .refl _) ?_ hupdated.length hrow ?_ hflight ?_ ?_ ?_ ?_, ?_⟩
  · rw [ht]
  · rw [ht]
    exact h.table
  · rw [ht]
  · rw [ht]
  · rw [ht]
  · rw [ht]
    exact h.pool
  · refine .single ?_
    have hline : s.line.entry = ops.map s.number ++ t.entry.map s.number := by
      rw [State.line, hentry, List.map_append]
    convert Line.Step.decode s.line hline using 1
    rw [State.line, hwindow, hmiddle, hnumber, List.map_append, ht]
    rfl

end Scarab.FrontEnd
