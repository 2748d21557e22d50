import Scarab.Core.Node.Moves

/-! # Issue, filling and retirement

The three loops through which an op enters the node table, enters a station, and leaves the node
table at its head. -/

namespace Scarab.Node

open Linked (Chain Links)

variable {cfg : Config} {s t u : State} {nl rl rest : List OpPtr} {p q : OpPtr} {op : Op}

/-! ## What the stations and the pointer into the table stand for -/

/-- The op occupies the station. -/
def State.occupant (s : State) (rsId : ℕ) (p : OpPtr) : Bool :=
  (s.ops p).occupies && (s.ops p).rsId == rsId

/-- Each station counts the ops of the node table that occupy it. -/
def Counts (s : State) (nl : List OpPtr) : Prop :=
  ∀ rsId, s.rsOpCount rsId = nl.countP (s.occupant rsId)

/-- The ops that wait for a station are the end of the node table, and the pointer is the first. -/
def Frontier (s : State) (next : Option OpPtr) (nl : List OpPtr) : Prop :=
  ∃ filled issued, nl = filled ++ issued ∧ (∀ p ∈ filled, (s.ops p).state ≠ .issued) ∧
    (∀ p ∈ issued, (s.ops p).state = .issued) ∧ next = issued.head?

theorem Counts.congr (h : Counts s nl) (hcount : t.rsOpCount = s.rsOpCount)
    (hocc : ∀ p ∈ nl, ∀ rsId, t.occupant rsId p = s.occupant rsId p) : Counts t nl := by
  intro rsId
  rw [hcount, h rsId]
  exact List.countP_congr fun p hp => by rw [hocc p hp]

theorem Frontier.congr {next : Option OpPtr} (h : Frontier s next nl)
    (hstate : ∀ p ∈ nl, (t.ops p).state = .issued ↔ (s.ops p).state = .issued) : Frontier t next nl := by
  obtain ⟨filled, issued, rfl, hfilled, hissued, hnext⟩ := h
  refine ⟨filled, issued, rfl, fun p hp hs => ?_, fun p hp => ?_, hnext⟩
  · exact hfilled p hp ((hstate p (List.mem_append_left _ hp)).mp hs)
  · exact (hstate p (List.mem_append_right _ hp)).mpr (hissued p hp)

theorem SameStations.counts (h : SameStations s t nl) (hc : Counts s nl) : Counts t nl :=
  hc.congr h.rsOpCount fun p hp rsId => by
    simp only [State.occupant, (h.ops p hp).1, (h.ops p hp).2.1]

theorem SameStations.frontier (h : SameStations s t nl) (hf : Frontier s s.nextOpIntoRs nl) :
    Frontier t t.nextOpIntoRs nl := by
  rw [h.next]
  exact hf.congr fun p hp => (h.ops p hp).2.2

/-- What a step makes of the two. -/
structure Carried (s : State) (nl : List OpPtr) (t : State) (nl' : List OpPtr) : Prop where
  counts : Counts s nl → Counts t nl'
  frontier : Frontier s s.nextOpIntoRs nl → Frontier t t.nextOpIntoRs nl'

theorem Carried.refl : Carried s nl s nl := ⟨id, id⟩

theorem Carried.trans {nl' nl'' : List OpPtr} (h : Carried s nl t nl') (h' : Carried t nl' u nl'') :
    Carried s nl u nl'' :=
  ⟨fun hc => h'.counts (h.counts hc), fun hf => h'.frontier (h.frontier hf)⟩

theorem SameStations.carried (h : SameStations s t nl) : Carried s nl t nl := ⟨h.counts, h.frontier⟩

/-! ## Issue -/

theorem reduceOption_append_none {pre : List (Option OpPtr)} (h : pre.reduceOption = [])
    (post : List (Option OpPtr)) : (pre ++ post).reduceOption = post.reduceOption := by
  rw [List.reduceOption_append, h, List.nil_append]

/-- What changes as the oldest op before the node table enters it. -/
structure Entered (s t : State) (p : OpPtr) : Prop where
  self : t.ops p = { s.ops p with issueCycle := some s.cycle, inNodeList := true, state := .issued }
  other : ∀ q, q ≠ p → t.ops q = s.ops q
  waiting : s.waiting = p :: t.waiting
  next : t.nextOpIntoRs = if s.nextOpIntoRs = none then some p else s.nextOpIntoRs
  nodeTail : t.nodeTail = some p
  nodeCount : t.nodeCount = s.nodeCount + 1
  opCount : t.opCount = s.opCount
  rdyList : t.rdyList = s.rdyList
  cycle : t.cycle = s.cycle
  phase : t.phase = s.phase
  sd : t.sd = s.sd
  memOps : t.memOps = s.memOps
  rsOpCount : t.rsOpCount = s.rsOpCount

theorem State.enterTable_entered {pre post : List (Option OpPtr)} (hslots : s.mapSd = pre ++ some p :: post)
    (hpre : pre.reduceOption = []) :
    Entered s (s.enterTable pre.length p) p ∧ (s.enterTable pre.length p).mapSd = (pre ++ [none]) ++ post := by
  have hmap : (s.enterTable pre.length p).mapSd = pre ++ none :: post := by
    simp only [State.enterTable, hslots]
    simp
  have hset : (s.enterTable pre.length p).ops = (s.setOp p { s.ops p with
      issueCycle := some s.cycle, inNodeList := true, state := .issued }).ops := rfl
  refine ⟨⟨?_, fun q hq => ?_, ?_, rfl, rfl, rfl, rfl, rfl, rfl, rfl, rfl, rfl, rfl⟩, ?_⟩
  · rw [hset, State.setOp_ops_self]
  · rw [hset, State.setOp_ops_ne s _ hq]
  · rw [State.waiting, State.waiting, hmap, hslots, reduceOption_append_none hpre, reduceOption_append_none hpre]
    rfl
  · rw [hmap]
    exact List.append_cons ..

namespace Entered

theorem opNum (h : Entered s t p) (q : OpPtr) : (t.ops q).opNum = (s.ops q).opNum := by
  by_cases hq : q = p
  · rw [hq, h.self]
  · rw [h.other q hq]

theorem valid (h : Entered s t p) (q : OpPtr) : (t.ops q).valid = (s.ops q).valid := by
  by_cases hq : q = p
  · rw [hq, h.self]
  · rw [h.other q hq]

theorem mem_waiting (h : Entered s t p) : p ∈ s.waiting := by
  rw [h.waiting]
  exact List.mem_cons_self

/-- The ops are those of before, in their order. -/
theorem all (h : Entered s t p) (nl : List OpPtr) : (nl ++ [p]) ++ t.waiting = nl ++ s.waiting := by
  rw [h.waiting, List.append_assoc]
  rfl

theorem not_mem (h : Entered s t p) (ht : Table cfg s nl) : p ∉ nl := fun hnl => ht.not_waiting hnl h.mem_waiting

theorem ops_node (h : Entered s t p) (ht : Table cfg s nl) (hq : q ∈ nl) : t.ops q = s.ops q :=
  h.other q fun heq => h.not_mem ht (heq ▸ hq)

/-- What still waits is younger than the op. -/
theorem ops_waiting (h : Entered s t p) (ht : Table cfg s nl) (hq : q ∈ t.waiting) :
    t.ops q = s.ops q ∧ q ∈ s.waiting := by
  have hnodup := (List.nodup_append.mp ht.nodup).2.1
  rw [h.waiting] at hnodup ⊢
  exact ⟨h.other q fun heq => (List.nodup_cons.mp hnodup).1 (heq ▸ hq), List.mem_cons_of_mem _ hq⟩

theorem table (h : Entered s t p) (ht : Table cfg s nl) (hchain : Chain t.nodeList.next t.nodeList.head (nl ++ [p]))
    (hroom : s.nodeCount + 1 ≤ cfg.nodeTableSize) : Table cfg t (nl ++ [p]) where
  chain := hchain
  tail := by
    rw [h.nodeTail, List.getLast?_append_of_ne_nil _ (by simp)]
    rfl
  count := by rw [h.nodeCount, ht.count, List.length_append, List.length_singleton]
  bound := by
    rw [List.length_append, ← ht.count]
    exact hroom
  order := by
    rw [h.all]
    exact ht.order.imp fun hlt => by rwa [h.opNum, h.opNum]
  young q hq := by
    rw [h.all] at hq
    rw [h.opNum, h.opCount]
    exact ht.young q hq
  valid q := by
    rw [h.all, h.valid]
    exact ht.valid q

theorem ready (h : Entered s t p) (hs : Inv cfg s nl rl) : ReadyList t (nl ++ [p]) rl where
  chain := h.rdyList ▸ hs.ready.chain
  nodup := hs.ready.nodup
  mem_iff q := by
    have hrdy := (hs.stages.waiting p h.mem_waiting).2.1
    rw [hs.ready.mem_iff]
    by_cases hq : q = p
    · simp [hq, h.not_mem hs.table, h.self, hrdy]
    · simp [hq, h.other q hq]

theorem stages (h : Entered s t p) (hs : Inv cfg s nl rl) : Stages cfg t (nl ++ [p]) where
  node q hq := by
    obtain ⟨-, hrdy, hocc, hdone⟩ := hs.stages.waiting p h.mem_waiting
    cases List.mem_append.mp hq with
    | inl hq =>
        rw [h.ops_node hs.table hq, h.phase]
        exact hs.stages.node q hq
    | inr hq =>
        rw [List.mem_singleton.mp hq, h.self]
        exact ⟨hocc, hrdy, hdone⟩
  issued q hq := by
    cases List.mem_append.mp hq with
    | inl hq =>
        rw [h.ops_node hs.table hq, h.cycle]
        exact hs.stages.issued q hq
    | inr hq => simp [List.mem_singleton.mp hq, h.self, h.cycle]
  waiting q hq := by
    obtain ⟨hsame, hq⟩ := h.ops_waiting hs.table hq
    rw [hsame]
    exact hs.stages.waiting q hq
  sd f q hq := by
    rw [h.sd] at hq
    obtain ⟨hfu, hqnl, hfire⟩ := hs.stages.sd f q hq
    exact ⟨hfu, List.mem_append_left _ hqnl, by rwa [h.ops_node hs.table hqnl]⟩
  sd_inj := by
    rw [h.sd]
    exact hs.stages.sd_inj
  memOps q hq := by
    rw [h.memOps] at hq
    obtain ⟨hqnl, hawait⟩ := hs.stages.memOps q hq
    exact ⟨List.mem_append_left _ hqnl, by rwa [h.ops_node hs.table hqnl]⟩
  next q hq hstate := by
    by_cases hqp : q = p
    · simp [hqp]
    · rw [h.other q hqp] at hstate
      rw [h.next] at hq
      split at hq
      · exact absurd (Option.some.inj hq).symm hqp
      · exact List.mem_append_left _ (hs.stages.next q hq hstate)

theorem carried (h : Entered s t p) (hs : Inv cfg s nl rl) : Carried s nl t (nl ++ [p]) where
  counts hc rsId := by
    have hocc := (hs.stages.waiting p h.mem_waiting).2.2.1
    have hold : nl.countP (t.occupant rsId) = nl.countP (s.occupant rsId) :=
      List.countP_congr fun q hq => by simp only [State.occupant, h.ops_node hs.table hq]
    rw [h.rsOpCount, hc rsId, List.countP_append, hold]
    simp [State.occupant, h.self, hocc]
  frontier hf := by
    obtain ⟨filled, issued, rfl, hfilled, hissued, hhead⟩ := hf
    refine ⟨filled, issued ++ [p], List.append_assoc .., fun q hq => ?_, fun q hq => ?_, ?_⟩
    · rw [h.ops_node hs.table (List.mem_append_left _ hq)]
      exact hfilled q hq
    · cases List.mem_append.mp hq with
      | inl hq =>
          rw [h.ops_node hs.table (List.mem_append_right _ hq)]
          exact hissued q hq
      | inr hq => rw [List.mem_singleton.mp hq, h.self]
    · rw [h.next, hhead]
      cases issued with
      | nil => rfl
      | cons q issued => rfl

end Entered

/-- The oldest op before the node table comes to its end. -/
theorem Inv.enterTable (h : Inv cfg s nl rl) {pre post : List (Option OpPtr)}
    (hslots : s.mapSd = pre ++ some p :: post) (hpre : pre.reduceOption = [])
    (hroom : s.nodeCount + 1 ≤ cfg.nodeTableSize) :
    Inv cfg (s.enterTable pre.length p) (nl ++ [p]) rl ∧
      Carried s nl (s.enterTable pre.length p) (nl ++ [p]) ∧
      (s.enterTable pre.length p).mapSd = (pre ++ [none]) ++ post := by
  obtain ⟨hent, hmap⟩ := State.enterTable_entered hslots hpre
  have hchain : Chain (s.enterTable pre.length p).nodeList.next (s.enterTable pre.length p).nodeList.head (nl ++ [p]) := by
    simp only [State.enterTable, h.table.tail]
    exact h.table.chain.append (hent.not_mem h.table) h.table.nodup_list
  exact ⟨⟨hent.table h.table hchain hroom, hent.ready h, hent.stages h⟩, hent.carried h, hmap⟩

/-- After a slot that did not end the loop, it is empty. -/
theorem Inv.issueSlot (h : Inv cfg s nl rl) {pre post : List (Option OpPtr)} {slot : Option OpPtr}
    (hslots : s.mapSd = pre ++ slot :: post) (hpre : pre.reduceOption = []) {out : State × Bool}
    (hrun : s.issueSlot cfg pre.length = .ok out) :
    ∃ nl', Inv cfg out.1 nl' rl ∧ Carried s nl out.1 nl' ∧
      (out.2 = false → out.1.mapSd = (pre ++ [none]) ++ post) := by
  obtain ⟨_, hrun⟩ := Execution.ite_error_eq_ok.mp hrun
  have hget : s.mapSd.getD pre.length none = slot := by simp [hslots]
  by_cases hfull : s.nodeCount = cfg.nodeTableSize
  · rw [if_pos hfull] at hrun
    cases hrun
    exact ⟨nl, h, .refl, fun hb => by cases hb⟩
  · rw [if_neg hfull, hget] at hrun
    cases slot with
    | none =>
        cases hrun
        exact ⟨nl, h, .refl, fun _ => by rw [hslots]; exact List.append_cons ..⟩
    | some p =>
        simp only at hrun
        by_cases hbar : (s.ops p).barIssue = true ∧ 0 < s.nodeCount
        · rw [if_pos hbar] at hrun
          cases hrun
          exact ⟨nl, h, .refl, fun hb => by cases hb⟩
        · rw [if_neg hbar] at hrun
          obtain ⟨t, hissue, hrun⟩ := Execution.bind_eq_ok.mp hrun
          cases hrun
          obtain ⟨_, hissue⟩ := Execution.ite_error_eq_ok.mp hissue
          obtain ⟨hroom, hissue⟩ := Execution.ite_error_eq_ok.mp hissue
          cases hissue
          obtain ⟨hinv, hcarried, hmap⟩ := h.enterTable hslots hpre hroom
          exact ⟨_, hinv, hcarried, fun _ => hmap⟩

/-- `node_issue` issues a part of the slots, oldest first. -/
theorem Inv.issue (h : Inv cfg s nl rl) (hrun : s.nodeIssue cfg = .ok t) :
    ∃ nl', Inv cfg t nl' rl ∧ Carried s nl t nl' := by
  obtain ⟨⟨left, last⟩, hloop, rfl⟩ := Execution.map_eq_ok.mp hrun
  refine Linked.run_invariant
    (I := fun rest m => ∃ nl' pre post, Inv cfg m nl' rl ∧ Carried s nl m nl' ∧
      m.mapSd = pre ++ post ∧ pre.reduceOption = [] ∧ rest = List.range' pre.length post.length)
    (J := fun _ m => ∃ nl', Inv cfg m nl' rl ∧ Carried s nl m nl')
    (fun ii rest m n hI hbody => ?_) (fun ii rest m n hI hbody => ?_)
    (fun m hI => ?_) ⟨nl, [], s.mapSd, h, .refl, rfl, rfl, List.range_eq_range'⟩ hloop
  · obtain ⟨nl', pre, post, hinv, hcarried, hmap, hpre, hrest⟩ := hI
    cases post with
    | nil => cases hrest
    | cons slot post =>
        rw [List.length_cons, List.range'_succ, List.cons.injEq] at hrest
        obtain ⟨rfl, rfl⟩ := hrest
        obtain ⟨nl'', hinv', hcarried', hmap'⟩ := hinv.issueSlot hmap hpre hbody
        refine ⟨nl'', pre ++ [none], post, hinv', hcarried.trans hcarried', hmap' rfl, ?_, ?_⟩
        · rw [reduceOption_append_none hpre]
          rfl
        · rw [List.length_append]
          rfl
  · obtain ⟨nl', pre, post, hinv, hcarried, hmap, hpre, hrest⟩ := hI
    cases post with
    | nil => cases hrest
    | cons slot post =>
        rw [List.length_cons, List.range'_succ, List.cons.injEq] at hrest
        obtain ⟨rfl, rfl⟩ := hrest
        obtain ⟨nl'', hinv', hcarried', _⟩ := hinv.issueSlot hmap hpre hbody
        exact ⟨nl'', hinv', hcarried.trans hcarried'⟩
  · obtain ⟨nl', _, _, hinv, hcarried, _⟩ := hI
    exact ⟨nl', hinv, hcarried⟩

/-! ## Filling the stations -/

/-- A count differs where one element is counted differently. -/
theorem countP_of_ne {l : List OpPtr} {f g : OpPtr → Bool} (hnodup : l.Nodup) (hp : p ∈ l)
    (hsame : ∀ q ∈ l, q ≠ p → g q = f q) : l.countP g + (f p).toNat = l.countP f + (g p).toNat := by
  induction l with
  | nil => cases hp
  | cons q l ih =>
      obtain ⟨hq, hnodup⟩ := List.nodup_cons.mp hnodup
      by_cases hqp : q = p
      · subst hqp
        have hrest : l.countP g = l.countP f := by
          refine List.countP_congr fun r hr => ?_
          rw [hsame r (by simp [hr]) fun heq => hq (heq ▸ hr)]
        rw [List.countP_cons, List.countP_cons, hrest]
        cases f q <;> cases g q <;> simp
      · have hpl : p ∈ l := by
          cases List.mem_cons.mp hp with
          | inl heq => exact absurd heq.symm hqp
          | inr hpl => exact hpl
        have hrest := ih hnodup hpl fun r hr => hsame r (by simp [hr])
        rw [List.countP_cons, List.countP_cons, hsame q (by simp) hqp]
        omega

theorem Inv.setRsOpCount (h : Inv cfg s nl rl) (rsOpCount : ℕ → ℕ) : Inv cfg { s with rsOpCount } nl rl :=
  ⟨h.table.congr ⟨rfl, rfl, rfl, rfl, rfl, fun _ => rfl, fun _ => rfl⟩,
    ⟨h.ready.chain, h.ready.nodup, h.ready.mem_iff⟩, ⟨h.stages.node, h.stages.issued,
      h.stages.waiting, h.stages.sd, h.stages.sd_inj, h.stages.memOps, h.stages.next⟩⟩

/-- What filling an op into a station does. -/
structure Filled (s t : State) (p rsId : ℕ) : Prop where
  issued : (s.ops p).state = .issued
  left : (t.ops p).state ≠ .issued
  place : (t.ops p).occupies = true ∧ (t.ops p).rsId = rsId
  ops : ∀ q, q ≠ p → t.ops q = s.ops q
  nodeList : t.nodeList = s.nodeList
  rsOpCount : t.rsOpCount = Function.update s.rsOpCount rsId (s.rsOpCount rsId + 1)
  next : t.nextOpIntoRs = s.nextOpIntoRs

theorem Inv.fillOp (h : Inv cfg s nl rl) (hp : p ∈ nl) {rsId : ℕ} (hrun : s.fillOp cfg p rsId = .ok t) :
    Filled s t p rsId ∧ ∃ rl', Inv cfg t nl rl' := by
  obtain ⟨_, hrun⟩ := Execution.ite_error_eq_ok.mp hrun
  obtain ⟨hissued, hrun⟩ := Execution.ite_error_eq_ok.mp hrun
  have hnode := h.stages.node p hp
  simp only [Op.Consistent, hissued] at hnode
  obtain ⟨_, hrdy, hdone⟩ := hnode
  have hwait := h.table.not_waiting hp
  have hsd := h.not_picked (p := p) (by simp [Op.CanFire, hissued])
  have hmem : p ∉ s.memOps := fun hm => by
    have hawait := (h.stages.memOps p hm).2
    cases hs : cfg.stallOnWaitMem <;> simp [Op.AwaitsAccess, hissued, hs] at hawait
  have hcount := h.setRsOpCount (Function.update s.rsOpCount rsId (s.rsOpCount rsId + 1))
  by_cases hvec : (s.ops p).srcsNotRdyVector = 0#32
  · -- the op has its sources already
    rw [if_pos hvec] at hrun
    cases hrun
    refine ⟨⟨hissued, ?_, ?_, fun q hq => ?_, rfl, rfl, rfl⟩, p :: rl, hcount.pushReady hp hrdy rfl rfl
      ⟨fun _ => ⟨?_, rfl⟩, fun hw => absurd hw hwait, fun f hf => absurd hf (hsd f),
        fun hm => absurd hm hmem, fun _ _ => hp⟩⟩
    · by_cases hnow : (s.ops p).rdyCycle ≤ s.cycle + 1
      · simp [State.pushReady, State.setOp, hnow]
      · simp [State.pushReady, State.setOp, hnow]
    · simp [State.pushReady, State.setOp]
    · simp [State.pushReady, State.setOp, hq]
    · by_cases hnow : (s.ops p).rdyCycle ≤ s.cycle + 1
      · simp [Op.Consistent, hnow, hvec, hdone]
      · simp [Op.Consistent, hnow, hvec, hdone]
  · rw [if_neg hvec] at hrun
    cases hrun
    refine ⟨⟨hissued, ?_, ?_, fun q hq => ?_, rfl, rfl, rfl⟩, rl, hcount.setOp rfl rfl (fun _ => rfl)
      ⟨fun _ => ⟨⟨rfl, hrdy, hvec, hdone⟩, rfl⟩, fun hw => absurd hw hwait,
        fun f hf => absurd hf (hsd f), fun hm => absurd hm hmem, fun _ _ => hp⟩⟩
    · simp
    · simp
    · exact State.setOp_ops_ne _ _ hq

/-- The op takes its place. -/
theorem Filled.counts {rsId : ℕ} (h : Filled s t p rsId) (hinv : Inv cfg s nl rl) (hp : p ∈ nl)
    (hc : Counts s nl) : Counts t nl := by
  have hnode := hinv.stages.node p hp
  simp only [Op.Consistent, h.issued] at hnode
  intro i
  have hcount := countP_of_ne (f := s.occupant i) (g := t.occupant i) hinv.table.nodup_list hp
    fun q _ hq => by simp only [State.occupant, h.ops q hq]
  have hold : s.occupant i p = false := by simp [State.occupant, hnode.1]
  rw [hold, ← hc i] at hcount
  rw [h.rsOpCount]
  by_cases hi : i = rsId
  · have hnew : t.occupant i p = true := by simp [State.occupant, h.place, hi]
    rw [hnew] at hcount
    subst hi
    rw [Function.update_self]
    simpa using hcount.symm
  · have hnew : t.occupant i p = false := by simp [State.occupant, h.place, Ne.symm hi]
    rw [hnew] at hcount
    rw [Function.update_of_ne hi]
    simpa using hcount.symm

/-- The ops all find a place, one after another. -/
def allPlaced (cfg : Config) : (ℕ → ℕ) → List Op → Bool
  | _, [] => true
  | rsOpCount, op :: ops =>
      match findEmptiestRs cfg rsOpCount op with
      | .ok (some rsId) => allPlaced cfg (Function.update rsOpCount rsId (rsOpCount rsId + 1)) ops
      | _ => false

/-- The ops could not be filled in one cycle because of `RS_FILL_WIDTH`, when `n` were filled. -/
def WidthStops (cfg : Config) (rsOpCount : ℕ → ℕ) (n : ℕ) (ops : List Op) : Prop :=
  n < cfg.rsFillWidth ∧ cfg.rsFillWidth ≤ n + ops.length ∧
    allPlaced cfg rsOpCount (ops.take (cfg.rsFillWidth - n)) = true

/-- The next `RS_FILL_WIDTH` ops are there and all find a place. -/
def State.FillStops (cfg : Config) (s : State) : Prop :=
  WidthStops cfg s.rsOpCount 0 ((Linked.following s.nodeList.next s.nodeCount s.nextOpIntoRs).map s.ops)

instance (cfg : Config) (s : State) : Decidable (s.FillStops cfg) :=
  inferInstanceAs (Decidable (_ ∧ _ ∧ _))

/-- What the loop does with an op: it finds no place, or it is filled and may be the last one. -/
theorem fillNext_cases {n : ℕ} {out : (State × ℕ) × Bool} (h : State.fillNext cfg (s, n) p = .ok out) :
    findEmptiestRs cfg s.rsOpCount (s.ops p) = .ok none ∧ out = ((s, n), true) ∨
    ∃ rsId t, findEmptiestRs cfg s.rsOpCount (s.ops p) = .ok (some rsId) ∧ s.fillOp cfg p rsId = .ok t ∧
      out = ((t, n + 1), decide (cfg.rsFillWidth ≠ 0 ∧ n + 1 = cfg.rsFillWidth)) := by
  obtain ⟨found, hfound, h⟩ := Execution.bind_eq_ok.mp h
  cases found with
  | none =>
      cases h
      exact .inl ⟨hfound, rfl⟩
  | some rsId =>
      obtain ⟨t, ht, h⟩ := Execution.bind_eq_ok.mp h
      cases h
      exact .inr ⟨rsId, t, hfound, ht, rfl⟩

/-- An op that finds a place brings the loop nearer to its width. -/
theorem WidthStops.cons {rsOpCount : ℕ → ℕ} {n rsId : ℕ} {ops : List Op}
    (hfound : findEmptiestRs cfg rsOpCount op = .ok (some rsId)) (hn : n < cfg.rsFillWidth)
    (h : n + 1 = cfg.rsFillWidth ∨
      WidthStops cfg (Function.update rsOpCount rsId (rsOpCount rsId + 1)) (n + 1) ops) :
    WidthStops cfg rsOpCount n (op :: ops) := by
  have hsplit : cfg.rsFillWidth - n = (cfg.rsFillWidth - (n + 1)) + 1 := by omega
  refine ⟨hn, ?_, ?_⟩
  · rw [List.length_cons]
    cases h with
    | inl heq => omega
    | inr hrest =>
        have hlen := hrest.2.1
        omega
  · rw [hsplit, List.take_succ_cons, allPlaced, hfound]
    cases h with
    | inl heq => simp [heq, allPlaced]
    | inr hrest => exact hrest.2.2

/-- What the loop of `node_fill_rs` keeps, from the op `rest` begins with. -/
structure Filling (cfg : Config) (s : State) (nl rest : List OpPtr) (m : State) : Prop where
  inv : ∃ rl', Inv cfg m nl rl'
  counts : Counts s nl → Counts m nl
  split : ∃ filled, nl = filled ++ rest ∧
    (¬ s.FillStops cfg → Frontier s s.nextOpIntoRs nl → (∀ p ∈ filled, (m.ops p).state ≠ .issued) ∧
      (∀ p ∈ rest, (m.ops p).state = .issued))

/-- An op that is filled. -/
theorem Filling.next {m n : State} {k rsId : ℕ} (h : Filling cfg s nl (p :: rest) m)
    (hstops : WidthStops cfg m.rsOpCount k ((p :: rest).map m.ops) → s.FillStops cfg)
    (hk : cfg.rsFillWidth = 0 ∨ k < cfg.rsFillWidth)
    (hfound : findEmptiestRs cfg m.rsOpCount (m.ops p) = .ok (some rsId))
    (hrun : m.fillOp cfg p rsId = .ok n) :
    n.nextOpIntoRs = m.nextOpIntoRs ∧ (cfg.rsFillWidth ≠ 0 ∧ k + 1 = cfg.rsFillWidth → s.FillStops cfg) ∧
      Filling cfg s nl rest n ∧
      (WidthStops cfg n.rsOpCount (k + 1) (rest.map n.ops) → s.FillStops cfg) := by
  obtain ⟨rl', hinv⟩ := h.inv
  obtain ⟨filled, hnl, hfront⟩ := h.split
  have hp : p ∈ nl := by simp [hnl]
  obtain ⟨hfilled, rl'', hinv'⟩ := hinv.fillOp hp hrun
  have hnodup := hinv.table.nodup_list
  rw [hnl] at hnodup
  obtain ⟨_, hnodup, hdisjoint⟩ := List.nodup_append.mp hnodup
  have hsame : ∀ q ∈ rest, n.ops q = m.ops q :=
    fun q hq => hfilled.ops q fun heq => (List.nodup_cons.mp hnodup).1 (heq ▸ hq)
  have hrest : rest.map n.ops = rest.map m.ops := List.map_congr_left hsame
  refine ⟨hfilled.next, fun hlast => hstops ?_, ⟨⟨rl'', hinv'⟩,
    fun hc => hfilled.counts hinv hp (h.counts hc), filled ++ [p], by rw [hnl, List.append_cons], ?_⟩,
    fun hw => hstops ?_⟩
  · exact WidthStops.cons hfound (hk.resolve_left hlast.1) (.inl hlast.2)
  · intro hstop hf
    obtain ⟨hold, hissued⟩ := hfront hstop hf
    refine ⟨fun q hq => ?_, fun q hq => ?_⟩
    · cases List.mem_append.mp hq with
      | inl hq =>
          rw [hfilled.ops q fun heq => hdisjoint q hq p (by simp) heq]
          exact hold q hq
      | inr hq =>
          rw [List.mem_singleton.mp hq]
          exact hfilled.left
    · rw [hsame q hq]
      exact hissued q (by simp [hq])
  · rw [hrest, hfilled.rsOpCount] at hw
    exact WidthStops.cons hfound (Nat.lt_of_succ_lt hw.1) (.inr hw)

/-- The loop of `node_fill_rs` over the node table from the pointer on. -/
theorem Filling.loop {m last : State} {k k' : ℕ} {left : List OpPtr} (h : Filling cfg s nl rest m)
    (hstops : WidthStops cfg m.rsOpCount k (rest.map m.ops) → s.FillStops cfg)
    (hk : cfg.rsFillWidth = 0 ∨ k < cfg.rsFillWidth)
    (hrun : Linked.run (State.fillNext cfg) rest (m, k) = .ok (left, last, k')) :
    Filling cfg s nl left last := by
  refine Linked.run_invariant
    (I := fun rest (out : State × ℕ) => Filling cfg s nl rest out.1 ∧
      (WidthStops cfg out.1.rsOpCount out.2 (rest.map out.1.ops) → s.FillStops cfg) ∧
      (cfg.rsFillWidth = 0 ∨ out.2 < cfg.rsFillWidth))
    (J := fun left (out : State × ℕ) => Filling cfg s nl left out.1)
    (fun p rest m n hI hbody => ?_) (fun p rest m n hI hbody => ?_) (fun m hI => hI.1)
    ⟨h, hstops, hk⟩ hrun
  · obtain ⟨hm, hstops, hk⟩ := hI
    cases fillNext_cases hbody with
    | inl hnone => cases hnone.2
    | inr hplace =>
        obtain ⟨rsId, t, hfound, ht, hout⟩ := hplace
        rw [Prod.mk.injEq] at hout
        obtain ⟨rfl, hgo⟩ := hout
        obtain ⟨_, _, hnext, hstops'⟩ := hm.next hstops hk hfound ht
        refine ⟨hnext, hstops', ?_⟩
        have hgo := of_decide_eq_false hgo.symm
        simp only
        omega
  · obtain ⟨hm, hstops, hk⟩ := hI
    cases fillNext_cases hbody with
    | inl hnone =>
        obtain ⟨_, hout⟩ := hnone
        cases hout
        exact hm
    | inr hplace =>
        -- the width was reached
        obtain ⟨rsId, t, hfound, ht, hout⟩ := hplace
        rw [Prod.mk.injEq] at hout
        obtain ⟨rfl, hstop⟩ := hout
        obtain ⟨_, hlast, hnext, _⟩ := hm.next hstops hk hfound ht
        obtain ⟨filled, hnl, _⟩ := hm.split
        exact ⟨hnext.inv, hnext.counts, filled, hnl,
          fun hnot => absurd (hlast (of_decide_eq_true hstop.symm)) hnot⟩

theorem Inv.setNext (h : Inv cfg s nl rl) {nextOpIntoRs : Option OpPtr}
    (hnext : ∀ p, nextOpIntoRs = some p → p ∈ nl) : Inv cfg { s with nextOpIntoRs } nl rl :=
  ⟨h.table.congr ⟨rfl, rfl, rfl, rfl, rfl, fun _ => rfl, fun _ => rfl⟩,
    ⟨h.ready.chain, h.ready.nodup, h.ready.mem_iff⟩, ⟨h.stages.node, h.stages.issued,
      h.stages.waiting, h.stages.sd, h.stages.sd_inj, h.stages.memOps, fun p hp _ => hnext p hp⟩⟩

/-- The rest of the node table from one of its ops on. -/
theorem Table.from_mem (h : Table cfg s nl) (hp : p ∈ nl) :
    ∃ before rest, nl = before ++ p :: rest ∧ Chain s.nodeList.next (some p) (p :: rest) := by
  obtain ⟨before, rest, rfl⟩ := List.append_of_mem hp
  have hchain := h.chain.of_append
  rw [hchain.head_eq] at hchain
  exact ⟨before, rest, rfl, hchain⟩

/-- `node_fill_rs`. -/
theorem Inv.fillRs (h : Inv cfg s nl rl) (hrun : s.nodeFillRs cfg = .ok t) :
    (∃ rl', Inv cfg t nl rl') ∧ (Counts s nl → Counts t nl) ∧
      (¬ s.FillStops cfg → Frontier s s.nextOpIntoRs nl → Frontier t t.nextOpIntoRs nl) := by
  obtain ⟨⟨op, m, k⟩, hwalk, hrun⟩ := Execution.bind_eq_ok.mp hrun
  cases hrun
  cases hnext : s.nextOpIntoRs with
  | none =>
      rw [hnext] at hwalk
      cases hwalk
      have hsame : ({ s with nextOpIntoRs := none } : State) = s := by rw [← hnext]
      rw [hsame]
      exact ⟨⟨rl, h⟩, id, fun _ hf => by rw [hnext]; exact hf⟩
  | some x =>
      rw [hnext] at hwalk
      by_cases hx : x ∈ nl
      · obtain ⟨before, rest, hnl, hchain⟩ := h.table.from_mem hx
        have hlen : (x :: rest).length ≤ s.nodeCount := by
          rw [h.table.count, hnl, List.length_append]
          omega
        rw [Linked.walk_eq_run _ hchain (Nat.le_succ_of_le hlen)] at hwalk
        obtain ⟨⟨left, m', k'⟩, hloop, heq⟩ := Execution.map_eq_ok.mp hwalk
        cases heq
        have hfollow := hchain.following s.nodeCount
        rw [List.take_of_length_le hlen] at hfollow
        have hstart : Filling cfg s nl (x :: rest) s := by
          refine ⟨⟨rl, h⟩, id, before, hnl, fun _ hf => ?_⟩
          obtain ⟨filled, issued, hsplit, hfilled, hissued, hhead⟩ := hf
          rw [hnext] at hhead
          cases issued with
          | nil => cases hhead
          | cons y issued =>
              obtain rfl := Option.some.inj hhead
              have hnodup := h.table.nodup_list
              rw [hnl] at hnodup
              have hnot : x ∉ before := fun hb =>
                (List.nodup_append.mp hnodup).2.2 x hb x (by simp) rfl
              have hnot' : x ∉ rest := (List.nodup_cons.mp (List.nodup_append.mp hnodup).2.1).1
              obtain ⟨rfl, _, rfl⟩ := (List.append_cons_inj_of_notMem hnot hnot').mp (hnl.symm.trans hsplit)
              exact ⟨hfilled, hissued⟩
        have hlast := hstart.loop (k := 0) (fun hw => ?_) (Nat.eq_zero_or_pos _) hloop
        · obtain ⟨rl', hinv⟩ := hlast.inv
          obtain ⟨filled, hnl', hfront⟩ := hlast.split
          refine ⟨⟨rl', hinv.setNext fun p hp => ?_⟩, hlast.counts, fun hnot hf => ?_⟩
          · rw [hnl']
            exact List.mem_append_right _ (List.mem_of_mem_head? hp)
          · obtain ⟨hfilled, hissued⟩ := hfront hnot (by rwa [hnext])
            exact ⟨filled, left, hnl', hfilled, hissued, rfl⟩
        · rw [State.FillStops, hnext, hfollow]
          exact hw
      · -- the pointer is to an op that is not in the node table any more
        have hsame : ({ s with nextOpIntoRs := some x } : State) = s := by rw [← hnext]
        obtain ⟨⟨m', stop⟩, hbody, hwalk⟩ := Execution.bind_eq_ok.mp hwalk
        cases fillNext_cases hbody with
        | inl hnone =>
            obtain ⟨_, hout⟩ := hnone
            cases hout
            cases hwalk
            rw [hsame]
            exact ⟨⟨rl, h⟩, id, fun _ hf => by rw [hnext]; exact hf⟩
        | inr hplace =>
            obtain ⟨_, _, _, hfill, _⟩ := hplace
            obtain ⟨_, hfill⟩ := Execution.ite_error_eq_ok.mp hfill
            obtain ⟨hissued, _⟩ := Execution.ite_error_eq_ok.mp hfill
            exact absurd (h.stages.next x hnext hissued) hx

/-! ## Retirement -/

/-- The node table as it is when its head moves on: `node_retire` writes the pointers at its end. -/
def State.withTable (s : State) (nl : List OpPtr) : State :=
  { s with nodeList := { s.nodeList with head := nl.head? }, nodeTail := nl.getLast? }

/-- An op that retires is in no station. -/
theorem Inv.done (h : Inv cfg s nl rl) (hphase : s.phase = .idle) (hp : p ∈ nl)
    (hready : s.opNotReadyForRetire (s.ops p) = false) :
    (s.ops p).doneCycle ≠ none ∧ (s.ops p).state ≠ .issued ∧ (s.ops p).inRdyList = false ∧
      (s.ops p).occupies = false := by
  have hnode := h.stages.node p hp
  rw [hphase] at hnode
  have hdone : (s.ops p).doneCycle ≠ none := by
    intro hnone
    have hstate := hnode.ne_done
    simp [State.opNotReadyForRetire, hnone, hstate] at hready
  exact ⟨hdone, hnode.of_done hdone⟩

theorem Inv.retired (h : Inv cfg s (p :: rest) rl) (hphase : s.phase = .idle)
    (hready : s.opNotReadyForRetire (s.ops p) = false) (retOp : ℕ) :
    Inv cfg (({ s.freeOp p with retOp, nodeCount := s.nodeCount - 1 } : State).withTable rest) rest rl ∧
      Carried s (p :: rest) { s.freeOp p with retOp, nodeCount := s.nodeCount - 1 } rest := by
  obtain ⟨hdone, hissued, hrdy, hocc⟩ := h.done hphase (by simp) hready
  have hnodup := h.table.nodup
  rw [List.cons_append] at hnodup
  obtain ⟨hnot, _⟩ := List.nodup_cons.mp hnodup
  have hnotRest : p ∉ rest := fun hp => hnot (List.mem_append_left _ hp)
  have hrest : ∀ q ∈ rest, q ≠ p := fun q hq heq => hnotRest (heq ▸ hq)
  have hfree : ∀ q, q ≠ p → (s.freeOp p).ops q = s.ops q := fun q hq => State.setOp_ops_ne s _ hq
  have hself : (s.freeOp p).ops p = { s.ops p with valid := false } := State.setOp_ops_self ..
  have hnum : ∀ q, ((s.freeOp p).ops q).opNum = (s.ops q).opNum := by
    intro q
    by_cases hq : q = p
    · rw [hq, hself]
    · rw [hfree q hq]
  have htail : ∀ q ∈ p :: rest, q ≠ p → q ∈ rest := by
    intro q hq hqp
    cases List.mem_cons.mp hq with
    | inl heq => exact absurd heq hqp
    | inr hq => exact hq
  refine ⟨⟨⟨?_, rfl, ?_, ?_, ?_, fun q hq => ?_, fun q => ?_⟩, ⟨h.ready.chain, h.ready.nodup, fun q => ?_⟩, ?_⟩, ?_⟩
  · have hchain := h.table.chain.2
    rw [hchain.head_eq] at hchain
    exact hchain
  · show s.nodeCount - 1 = rest.length
    rw [h.table.count, List.length_cons]
    rfl
  · exact Nat.le_of_succ_le h.table.bound
  · have horder := h.table.order
    rw [List.cons_append] at horder
    exact (List.pairwise_cons.mp horder).2.imp fun hlt => by
      show ((s.freeOp p).ops _).opNum < ((s.freeOp p).ops _).opNum
      rwa [hnum, hnum]
  · show ((s.freeOp p).ops q).opNum < s.opCount
    rw [hnum]
    exact h.table.young q (List.mem_cons_of_mem _ hq)
  · show ((s.freeOp p).ops q).valid = true ↔ q ∈ rest ++ s.waiting
    by_cases hq : q = p
    · rw [hq, hself]
      simp only [Bool.false_eq_true, false_iff]
      exact hnot
    · rw [hfree q hq, h.table.valid q, List.cons_append, List.mem_cons]
      exact or_iff_right hq
  · show q ∈ rl ↔ q ∈ rest ∧ ((s.freeOp p).ops q).inRdyList = true
    rw [h.ready.mem_iff]
    by_cases hq : q = p
    · simp [hq, hnotRest, hrdy]
    · simp [hq, hfree q hq]
  · refine ⟨fun q hq => ?_, fun q hq => ?_, fun q hq => ?_, fun f q hq => ?_, h.stages.sd_inj,
      fun q hq => ?_, fun q hq hs => ?_⟩
    · show ((s.freeOp p).ops q).Consistent cfg.stallOnWaitMem s.phase
      rw [hfree q (hrest q hq)]
      exact h.stages.node q (List.mem_cons_of_mem _ hq)
    · show ((s.freeOp p).ops q).issueCycle.any (· ≤ s.cycle) = true
      rw [hfree q (hrest q hq)]
      exact h.stages.issued q (List.mem_cons_of_mem _ hq)
    · show ((s.freeOp p).ops q).IsWaiting
      rw [hfree q fun heq => hnot (List.mem_append_right _ (heq ▸ hq))]
      exact h.stages.waiting q hq
    · show f < cfg.numFus ∧ q ∈ rest ∧ ((s.freeOp p).ops q).CanFire
      obtain ⟨hfu, hqnl, hfire⟩ := h.stages.sd f q hq
      have hqp : q ≠ p := fun heq => by
        have hcon := hfire.consistent (h.stages.node q hqnl)
        rw [heq] at hcon
        exact hdone hcon.2.2.2
      rw [hfree q hqp]
      exact ⟨hfu, htail q hqnl hqp, hfire⟩
    · show q ∈ rest ∧ ((s.freeOp p).ops q).AwaitsAccess cfg.stallOnWaitMem
      obtain ⟨hqnl, hawait⟩ := h.stages.memOps q hq
      have hqp : q ≠ p := fun heq => hdone (heq ▸ hawait.1)
      rw [hfree q hqp]
      exact ⟨htail q hqnl hqp, hawait⟩
    · by_cases hqp : q = p
      · subst hqp
        exact absurd hs (by
          show ((s.freeOp q).ops q).state ≠ .issued
          rw [hself]
          exact hissued)
      · refine htail q (h.stages.next q hq ?_) hqp
        rw [← hfree q hqp]
        exact hs
  · refine ⟨fun hc rsId => ?_, fun hf => ?_⟩
    · show s.rsOpCount rsId = _
      rw [hc rsId, List.countP_cons]
      simp only [State.occupant, hocc, Bool.false_and, Bool.false_eq_true, if_false, Nat.add_zero]
      refine List.countP_congr fun q hq => ?_
      show _ ↔ (((s.freeOp p).ops q).occupies && ((s.freeOp p).ops q).rsId == rsId) = true
      rw [hfree q (hrest q hq)]
      exact Iff.rfl
    · obtain ⟨filled, issued, hsplit, hfilled, hissues, hhead⟩ := hf
      cases filled with
      | nil =>
          rw [List.nil_append] at hsplit
          exact absurd (hissues p (by simp [← hsplit])) hissued
      | cons q filled =>
          rw [List.cons_append, List.cons.injEq] at hsplit
          obtain ⟨rfl, rfl⟩ := hsplit
          refine ⟨filled, issued, rfl, fun q hq => ?_, fun q hq => ?_, hhead⟩
          · show ((s.freeOp p).ops q).state ≠ .issued
            rw [hfree q (hrest q (List.mem_append_left _ hq))]
            exact hfilled q (List.mem_cons_of_mem _ hq)
          · show ((s.freeOp p).ops q).state = .issued
            rw [hfree q (hrest q (List.mem_append_right _ hq))]
            exact hissues q hq

theorem retireOp_cases {out : State × Bool} (h : s.retireOp p = .ok out) :
    out = (s, true) ∨ s.opNotReadyForRetire (s.ops p) = false ∧
      out = ({ s.freeOp p with retOp := s.retOp + 1, nodeCount := s.nodeCount - 1 }, false) := by
  simp only [State.retireOp] at h
  by_cases hready : s.opNotReadyForRetire (s.ops p) = true
  · rw [if_pos hready] at h
    cases h
    exact .inl rfl
  · rw [if_neg hready] at h
    refine .inr ⟨Bool.eq_false_iff.mpr hready, ?_⟩
    split at h
    · cases h
    · split at h
      · cases h
      · split at h
        · cases h
        · split at h
          · cases h
          · exact (Except.ok.inj h).symm

/-- The ops that retire leave the node table at its head. -/
theorem Inv.retireLoop (h : Inv cfg s nl rl) (hphase : s.phase = .idle) {width : ℕ} {op : Option OpPtr}
    {last : State} (hwalk : Linked.walk s.nodeList.next State.retireOp width s.nodeList.head s = .ok (op, last)) :
    ∃ retired left, nl = retired ++ left ∧ op = left.head? ∧ last.nodeTail = s.nodeTail ∧
      Inv cfg (last.withTable left) left rl ∧ Carried s nl last left := by
  rw [Linked.walk_eq _ h.table.chain] at hwalk
  obtain ⟨⟨left, m⟩, hloop, heq⟩ := Execution.map_eq_ok.mp hwalk
  cases heq
  obtain ⟨retired, hretired⟩ := Linked.run_suffix hloop
  refine ⟨retired, left ++ nl.drop width, ?_, rfl, ?_⟩
  · rw [← List.append_assoc, ← hretired, List.take_append_drop]
  have hstart : Inv cfg (s.withTable nl) nl rl := by
    have hsame : s.withTable nl = s := by
      rw [State.withTable, ← h.table.chain.head_eq, ← h.table.tail]
    rwa [hsame]
  refine Linked.run_invariant
    (I := fun rest m => m.nodeTail = s.nodeTail ∧ m.phase = .idle ∧
      Inv cfg (m.withTable (rest ++ nl.drop width)) (rest ++ nl.drop width) rl ∧
      Carried s nl m (rest ++ nl.drop width))
    (J := fun rest m => m.nodeTail = s.nodeTail ∧
      Inv cfg (m.withTable (rest ++ nl.drop width)) (rest ++ nl.drop width) rl ∧
      Carried s nl m (rest ++ nl.drop width))
    (fun p rest m n hI hbody => ?_) (fun p rest m n hI hbody => ?_)
    (fun m hI => ⟨hI.1, hI.2.2⟩) ⟨rfl, hphase, ?_⟩ hloop
  · obtain ⟨htail, hidle, hinv, hcarried⟩ := hI
    cases retireOp_cases hbody with
    | inl hstop => cases hstop
    | inr hgo =>
        obtain ⟨hready, hout⟩ := hgo
        cases hout
        obtain ⟨hinv', hcarried'⟩ := hinv.retired hidle hready (m.retOp + 1)
        exact ⟨htail, hidle, hinv', hcarried.trans ⟨fun hc => hcarried'.counts hc, fun hf => hcarried'.frontier hf⟩⟩
  · obtain ⟨htail, hidle, hinv, hcarried⟩ := hI
    cases retireOp_cases hbody with
    | inl hstop =>
        cases hstop
        exact ⟨htail, hinv, hcarried⟩
    | inr hgo => cases hgo.2
  · rw [List.take_append_drop]
    exact ⟨hstart, .refl⟩

/-- `node_retire`. -/
theorem Inv.retire (h : Inv cfg s nl rl) (hphase : s.phase = .idle) (hrun : s.nodeRetire cfg = .ok t) :
    ∃ nl', Inv cfg t nl' rl ∧ Carried s nl t nl' := by
  obtain ⟨empty, _, hrun⟩ := Execution.bind_eq_ok.mp hrun
  cases empty with
  | true =>
      cases hrun
      exact ⟨nl, h, .refl⟩
  | false =>
      obtain ⟨⟨op, m⟩, hwalk, hrun⟩ := Execution.bind_eq_ok.mp hrun
      obtain ⟨retired, left, hnl, hop, htail, hinv, hcarried⟩ := h.retireLoop hphase hwalk
      refine ⟨left, ?_⟩
      cases left with
      | nil =>
          subst hop
          simp only [List.head?_nil] at hrun
          obtain ⟨_, hrun⟩ := Execution.ite_error_eq_ok.mp hrun
          cases hrun
          exact ⟨hinv, fun hc => hcarried.counts hc, fun hf => hcarried.frontier hf⟩
      | cons q left =>
          subst hop
          simp only [List.head?_cons] at hrun
          cases hrun
          -- the tail is still the last op
          have hlast : m.nodeTail = (q :: left).getLast? := by
            rw [htail, h.table.tail, hnl, List.getLast?_append_of_ne_nil _ (by simp)]
          rw [State.withTable, ← hlast] at hinv
          exact ⟨hinv, fun hc => hcarried.counts hc, fun hf => hcarried.frontier hf⟩

end Scarab.Node
