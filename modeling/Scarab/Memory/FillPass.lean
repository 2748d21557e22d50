import Scarab.Memory.Conservation

/-! # The pass over the fill queue of the L1

`mem_process_l1_fill_reqs` walks the queue by index. A request without `done_func` that is done is cut off at once, while
the loop goes on with the next index. -/

namespace Scarab.Memory

variable {cfg : Config} {env : Env} {envs : List Env} {s t u m : State} {id ii i : ℕ} {filled : Bool}

/-- The entry that the loop is at. -/
def State.atEntry (s : State) : Option ℕ :=
  (s.pass.bind fun pass => (s.queue pass.queue)[pass.ii]?).map QueueEntry.reqbuf

/-- The requests that a loop looks at, in order. -/
def State.examined (cfg : Config) : State → List Env → List ℕ
  | _, [] => []
  | s, env :: envs =>
      s.atEntry.toList ++
        match s.nextEntry cfg env with
        | .ok t => State.examined cfg t envs
        | .error _ => []

/-- The loop has come to the end of its queue. -/
def State.LoopOver (s : State) : Prop := ∃ pass, s.pass = some pass ∧ (s.queue pass.queue).length ≤ pass.ii

/-- The requests of the fill queue of the L1. -/
def State.fillIds (s : State) : List ℕ := (s.queue .l1fill).map QueueEntry.reqbuf

/-- A request that the loop frees and cuts off when it comes to it. -/
def State.Finishes (s : State) (id : ℕ) : Prop :=
  (s.reqBuffer id).rdyCycle ≤ s.l1CycleCount ∧ (s.reqBuffer id).state = .fillDone ∧ (s.reqBuffer id).doneFunc = none

instance (s : State) (id : ℕ) : Decidable (s.Finishes id) :=
  inferInstanceAs (Decidable ((s.reqBuffer id).rdyCycle ≤ s.l1CycleCount ∧ (s.reqBuffer id).state = .fillDone ∧
    (s.reqBuffer id).doneFunc = none))

/-- The loop is at an index of the queue. -/
def State.FillAt (s : State) (i : ℕ) : Prop := s.pass.map (fun pass => (pass.queue, pass.ii)) = some (.l1fill, i)

/-! ## One entry -/

/-- What a visit of an entry does. -/
inductive FillVisit (cfg : Config) (env : Env) (s : State) (id ii : ℕ) : State → Prop where
  | waits (h : s.l1CycleCount < (s.reqBuffer id).rdyCycle) : FillVisit cfg env s id ii s
  | fills (t : State) (m : State) (filled : Bool) (hstate : (s.reqBuffer id).state = .fillL1)
      (hline : s.l1FillLine cfg env id = .ok (filled, m))
      (ht : t = m ∨ ∃ state, state ≠ .inv ∧
        t = m.setReq id { m.reqBuffer id with state, rdyCycle := m.l1CycleCount + 1 }) :
      FillVisit cfg env s id ii t
  | moves (t : State) (hstate : (s.reqBuffer id).state = .fillMlc ∨
        (s.reqBuffer id).state = .fillDone ∧ (s.reqBuffer id).doneFunc ≠ none)
      (hqueue : t.queue .l1fill = (s.queue .l1fill).modify ii fun entry => { entry with priority := .min })
      (hpass : t.pass.map (fun pass => (pass.queue, pass.ii)) = s.pass.map fun pass => (pass.queue, pass.ii))
      (hcycle : t.l1CycleCount = s.l1CycleCount) (hother : ∀ x, x ≠ id → t.reqBuffer x = s.reqBuffer x)
      (hself : (t.reqBuffer id).state = (s.reqBuffer id).state ∧ (t.reqBuffer id).doneFunc = (s.reqBuffer id).doneFunc ∧
        (t.reqBuffer id).type = (s.reqBuffer id).type) : FillVisit cfg env s id ii t
  | finishes (t : State) (hfinishes : s.Finishes id)
      (hlength : (t.queue .l1fill).length < (s.queue .l1fill).length)
      (hpass : t.pass.map (fun pass => (pass.queue, pass.ii)) = s.pass.map fun pass => (pass.queue, pass.ii)) :
      FillVisit cfg env s id ii t

/-- The index and the queue of the loop survive a count. -/
theorem count_fillAt (s : State) (f : Pass → Pass) (hf : ∀ pass, ((f pass).queue, (f pass).ii) = (pass.queue, pass.ii)) :
    (s.count f).pass.map (fun pass => (pass.queue, pass.ii)) = s.pass.map fun pass => (pass.queue, pass.ii) := by
  rw [State.count, Option.map_map]
  exact congrArg (s.pass.map ·) (funext hf)

theorem countRemoval_fillAt (s : State) (id : ℕ) :
    (s.countRemoval id).pass.map (fun pass => (pass.queue, pass.ii)) = s.pass.map fun pass => (pass.queue, pass.ii) := by
  rw [State.countRemoval, count_fillAt]
  exact fun _ => rfl

/-- A request goes on to a queue other than the fill queue of the L1. -/
theorem insertFill_spec {k : QueueId} {seqNum : ℕ} {priority : Priority} (hk : k ≠ .l1fill)
    (h : s.insertFill cfg id k seqNum priority = .ok t) :
    t.queue .l1fill = s.queue .l1fill ∧
      t.pass.map (fun pass => (pass.queue, pass.ii)) = s.pass.map (fun pass => (pass.queue, pass.ii)) ∧
        t.l1CycleCount = s.l1CycleCount ∧ (∀ x, x ≠ id → t.reqBuffer x = s.reqBuffer x) ∧
          t.reqBuffer id = { s.reqBuffer id with queue := some k } := by
  rw [State.insertFill] at h
  obtain ⟨-, rfl⟩ := State.memInsertReqIntoQueue_eq h
  refine ⟨?_, State.insertEntry_pass_map (fun _ _ => rfl) _ _ _ _, rfl, fun x hx => State.setReq_other hx, ?_⟩
  · rw [State.insertEntry_queue, if_neg hk.symm]
    rfl
  · exact State.setReq_self s id _

/-- A request that goes on leaves its entry marked. -/
theorem FillVisit.of_insert {k : QueueId} {seqNum : ℕ} {priority : Priority} {req : MemReq}
    (hstate : (s.reqBuffer id).state = .fillMlc ∨ (s.reqBuffer id).state = .fillDone ∧ (s.reqBuffer id).doneFunc ≠ none)
    (hreq : req.state = (s.reqBuffer id).state ∧ req.doneFunc = (s.reqBuffer id).doneFunc ∧
      req.type = (s.reqBuffer id).type)
    (h : (s.setReq id req).insertFill cfg id k seqNum priority = .ok t) (hk : k ≠ .l1fill) {u : State}
    (hu : u.queue .l1fill = t.queue .l1fill ∧ u.pass = t.pass ∧ u.l1CycleCount = t.l1CycleCount ∧
      ∃ reserved, u.reqBuffer = (t.setReq id { t.reqBuffer id with reservedEntryCount := reserved }).reqBuffer) :
    FillVisit cfg env s id ii ((u.markEntry .l1fill ii).countRemoval id) := by
  obtain ⟨hqueue, hpass, hcycle, hother, hself⟩ := insertFill_spec hk h
  obtain ⟨huqueue, hupass, hucycle, reserved, hubuffer⟩ := hu
  have hbuffer : ((u.markEntry .l1fill ii).countRemoval id).reqBuffer = u.reqBuffer := rfl
  refine .moves _ hstate ?_ ?_ ?_ (fun x hx => ?_) ?_
  · change (u.markEntry .l1fill ii).queue .l1fill = _
    rw [State.markEntry_queue, if_pos rfl, huqueue, hqueue]
    rfl
  · rw [countRemoval_fillAt]
    change u.pass.map _ = _
    rw [hupass, hpass]
    rfl
  · change u.l1CycleCount = _
    rw [hucycle, hcycle]
    rfl
  · rw [hbuffer, hubuffer, State.setReq_other hx, hother x hx, State.setReq_other hx]
  · rw [hbuffer, hubuffer, State.setReq_self, hself, State.setReq_self]
    exact hreq

/-- Entries are cut off in the middle of the loop. -/
theorem removeFromL1FillQueue_spec (h : s.removeFromL1FillQueue cfg = .ok t)
    (hcount : 0 < (s.pass.map Pass.removalCount).getD 0) :
    (t.queue .l1fill).length ≤ (s.queue .l1fill).length - 1 ∧
      t.pass.map (fun pass => (pass.queue, pass.ii)) = s.pass.map fun pass => (pass.queue, pass.ii) := by
  rw [State.removeFromL1FillQueue] at h
  obtain ⟨m, hm, hout⟩ := Execution.bind_eq_ok.mp h
  obtain rfl := Except.ok.inj hout
  have hcut : m.queue .l1fill = (s.cutQueue .l1fill ((s.pass.map Pass.removalCount).getD 0)).queue .l1fill ∧
      m.pass = s.pass := by
    rw [State.removeEntries, if_neg (Nat.pos_iff_ne_zero.mp hcount)] at hm
    dsimp only at hm
    split at hm
    · split at hm
      · cases hm
      · obtain rfl := Except.ok.inj hm
        exact ⟨rfl, rfl⟩
    · obtain rfl := Except.ok.inj hm
      exact ⟨rfl, rfl⟩
  refine ⟨?_, ?_⟩
  · change (m.queue .l1fill).length ≤ _
    rw [hcut.1, State.cutQueue, State.setQueue_queue, if_pos rfl, List.length_take, (sortEntries_perm _).length_eq]
    omega
  · rw [count_fillAt, hcut.2]
    exact fun _ => rfl

/-- The body of the loop is such a visit. -/
theorem fillEntry_visit (hpass : s.pass.isSome = true) (hlt : ii < (s.queue .l1fill).length)
    (h : s.memProcessL1FillEntry cfg env id ii = .ok t) : FillVisit cfg env s id ii t := by
  simp only [State.memProcessL1FillEntry] at h
  split at h
  · cases h
  · split at h
    · next hwaits =>
        obtain rfl := Except.ok.inj h
        exact .waits hwaits
    · next hready =>
        split at h
        · next hstate =>
            rw [State.fillL1Entry] at h
            obtain ⟨⟨filled, m⟩, hm, hrest⟩ := Execution.bind_eq_ok.mp h
            refine .fills t m filled hstate hm ?_
            dsimp only at hrest
            split at hrest
            · exact .inl (Except.ok.inj hrest).symm
            · split at hrest
              · cases hrest
              · refine .inr ⟨_, ?_, (Except.ok.inj hrest).symm⟩
                split
                · decide
                · decide
        · split at h
          · next hstate =>
              split at h
              · cases h
              · obtain ⟨m, hm, hout⟩ := Execution.bind_eq_ok.mp h
                obtain rfl := Except.ok.inj hout
                rw [State.insertMlcFill] at hm
                obtain ⟨n, hn, hm⟩ := Execution.bind_eq_ok.mp hm
                obtain rfl := Except.ok.inj hm
                rw [← State.setReq_same s id] at hn
                rw [State.unreserve_eq]
                exact .of_insert (.inl hstate) ⟨rfl, rfl, rfl⟩ hn (by decide) ⟨rfl, rfl, rfl, _, rfl⟩
          · split at h
            · cases h
            · next hdone =>
                have hdone : (s.reqBuffer id).state = .fillDone := Decidable.byContradiction hdone
                split at h
                · next hfunc =>
                    obtain ⟨m, hm, hout⟩ := Execution.bind_eq_ok.mp h
                    obtain ⟨-, -, -, rfl⟩ := State.memFreeReqbuf_eq hm
                    rw [State.unreserve_eq] at hout
                    obtain ⟨pass, hpass⟩ := Option.isSome_iff_exists.mp hpass
                    obtain ⟨hlength, hat⟩ := removeFromL1FillQueue_spec hout (by
                      change 0 < (Option.map _ (Option.map _ s.pass)).getD 0
                      rw [hpass]
                      exact Nat.succ_pos _)
                    refine .finishes t ⟨Nat.le_of_not_lt hready, hdone, hfunc⟩ ?_ (hat.trans ?_)
                    · have hmarked : ∀ u : State,
                          u.queue .l1fill = (s.queue .l1fill).modify ii (fun entry => { entry with priority := .min }) →
                            (u.queue .l1fill).length - 1 < (s.queue .l1fill).length := by
                        intro u hu
                        rw [hu, List.length_modify]
                        exact Nat.sub_one_lt_of_lt hlt
                      exact Nat.lt_of_le_of_lt hlength (hmarked _ rfl)
                    · rw [countRemoval_fillAt]
                      rfl
                · next hfunc =>
                    obtain ⟨m, hm, hout⟩ := Execution.bind_eq_ok.mp h
                    obtain rfl := Except.ok.inj hout
                    rw [State.insertCoreFill] at hm
                    obtain ⟨n, hn, hm⟩ := Execution.bind_eq_ok.mp hm
                    obtain rfl := Except.ok.inj hm
                    have hcore : ∀ procId, QueueId.coreFill procId ≠ .l1fill := fun _ hk => by cases hk
                    refine .of_insert (t := n) ?_ ?_ hn (hcore _) ⟨rfl, rfl, rfl, (n.reqBuffer id).reservedEntryCount, ?_⟩
                    · exact .inr ⟨hdone, hfunc⟩
                    · exact ⟨rfl, rfl, rfl⟩
                    · exact (congrArg State.reqBuffer (State.setReq_same n id)).symm

/-! ## The length of the queue -/

theorem Quiet.fills_length {overtakes : Prop} (h : Quiet cfg overtakes s t) :
    (t.queue .l1fill).length = (s.queue .l1fill).length := by
  cases h with
  | rerank id k sorted ii priority =>
      have hmodify : ((s.setQueue k ((s.queue k).modify ii fun entry => { entry with priority })).queue .l1fill).length =
          (s.queue .l1fill).length := by
        rw [State.setQueue_queue]
        split
        · next hk => rw [List.length_modify, hk]
        · rfl
      rw [State.sortQueue, State.setQueue_queue]
      split
      · next hk => rw [(sortEntries_perm _).length_eq, ← hk, hmodify]
      · exact hmodify
  | fresh id free k ops req priority calls _ _ _ hstarts =>
      have hk : QueueId.l1fill ≠ k := by
        obtain ⟨rfl, -⟩ | ⟨rfl, -⟩ := hstarts.place <;> decide
      change ((((s.takeReq free req.procId).setReq id req).insertEntry k id priority).queue .l1fill).length = _
      rw [State.insertEntry_queue, if_neg hk]
      rfl
  | _ => rfl

theorem QuietRun.fills_length {overtakes : Prop} (h : QuietRun cfg overtakes s t) :
    (t.queue .l1fill).length = (s.queue .l1fill).length := by
  induction h with
  | refl => rfl
  | tail hrun hmove ih => exact hmove.fills_length.trans ih

/-- The fill of a line leaves the length of the queue and the index of the loop. -/
theorem l1FillLine_length (h : s.l1FillLine cfg env id = .ok (filled, t)) :
    (t.queue .l1fill).length = (s.queue .l1fill).length ∧
      t.pass.map (fun pass => (pass.queue, pass.ii)) = s.pass.map fun pass => (pass.queue, pass.ii) := by
  have hquiet {m : State} (hrun : QuietRun cfg True s m) := And.intro hrun.fills_length
    (hrun.pass_map (f := fun pass => (pass.queue, pass.ii)) fun _ _ => rfl)
  obtain ⟨-, hrun⟩ | ⟨-, m, hrun, c, way, -, rfl⟩ := State.l1FillLine_quiet True h
  · exact hquiet hrun
  · exact ⟨(hquiet hrun).1, (hquiet hrun).2⟩

/-- No visit moves the index or lengthens the queue, and one that finishes shortens it. -/
theorem FillVisit.length_le (h : FillVisit cfg env s id ii t) :
    (t.queue .l1fill).length ≤ (s.queue .l1fill).length ∧
      t.pass.map (fun pass => (pass.queue, pass.ii)) = s.pass.map fun pass => (pass.queue, pass.ii) := by
  cases h with
  | waits => exact ⟨Nat.le_refl _, rfl⟩
  | fills _ m filled _ hline ht =>
      obtain ⟨hlength, hpass⟩ := l1FillLine_length hline
      obtain rfl | ⟨state, -, rfl⟩ := ht
      · exact ⟨Nat.le_of_eq hlength, hpass⟩
      · exact ⟨Nat.le_of_eq hlength, hpass⟩
  | moves _ _ hqueue hpass =>
      refine ⟨?_, hpass⟩
      rw [hqueue, List.length_modify]
  | finishes _ _ hlength hpass => exact ⟨Nat.le_of_lt hlength, hpass⟩

/-! ## Visits that do not finish -/

/-- What the writeback of a displaced line leaves as it is. -/
structure State.Undisplaced (s t : State) : Prop where
  queue : t.queue = s.queue
  l1CycleCount : t.l1CycleCount = s.l1CycleCount
  reqBuffer : ∀ x, (s.reqBuffer x).state ≠ .inv → t.reqBuffer x = s.reqBuffer x

theorem sendL1Wb_undisplaced {procId : ℕ} {addr : Addr} (h : s.sendL1Wb cfg env procId addr = .ok (filled, t)) :
    s.Undisplaced t := by
  rw [State.sendL1Wb] at h
  obtain ⟨⟨allocated, n⟩, hn, h⟩ := Execution.bind_eq_ok.mp h
  cases allocated with
  | none =>
      obtain ⟨-, rfl⟩ := Prod.mk.inj (Except.ok.inj h)
      obtain rfl := State.memAllocateReqBuffer_none hn
      exact ⟨rfl, rfl, fun _ _ => rfl⟩
  | some free =>
      obtain ⟨-, hinv, rest, -, rfl⟩ := State.memAllocateReqBuffer_some hn
      obtain ⟨⟨sent, o⟩, ho, h⟩ := Execution.bind_eq_ok.mp h
      obtain ⟨o', ho', h⟩ := Execution.bind_eq_ok.mp h
      obtain ⟨-, rfl⟩ := Prod.mk.inj (Except.ok.inj h)
      obtain ⟨-, -, -, rfl⟩ := State.memFreeReqbuf_eq ho'
      obtain rfl := State.ramulatorSend_wb (by simp [State.memInitNewReq, State.initReq]) ho
      refine ⟨rfl, rfl, fun x hlive => ?_⟩
      have hne : x ≠ free := fun heq => hlive (heq ▸ hinv)
      exact (State.setReq_other hne).trans (State.setReq_other hne)

/-- The writeback of a displaced line finds none to join in this queue. -/
theorem newMemL1WbReq_undisplaced {procId : ℕ} {addr : Addr} (hfills : s.Fills)
    (h : s.newMemL1WbReq cfg env procId addr = .ok (filled, t)) : s.Undisplaced t := by
  rw [State.newMemL1WbReq] at h
  split at h
  · cases h
  · have hlog {m : State} {taken : Bool} (hm : s.Undisplaced m)
        (ht : Except.ok (ε := String) (taken, if taken then { m with l1Writebacks := m.l1Writebacks ++ [addr] } else m) =
          .ok (filled, t)) : s.Undisplaced t := by
      obtain ⟨-, rfl⟩ := Prod.mk.inj (Except.ok.inj ht)
      split
      · exact ⟨hm.queue, hm.l1CycleCount, hm.reqBuffer⟩
      · exact hm
    dsimp only at h
    split at h
    · exact hlog ⟨rfl, rfl, fun _ _ => rfl⟩ h
    · obtain ⟨result, hsearch, h⟩ := Execution.bind_eq_ok.mp h
      cases result with
      | none =>
          obtain ⟨⟨taken, m⟩, hm, h⟩ := Execution.bind_eq_ok.mp h
          exact hlog (sendL1Wb_undisplaced hm) h
      | some found =>
          obtain ⟨k, jj, hk, hfound⟩ | ⟨hram, -⟩ := State.memSearchReqbuf_found hsearch
          · obtain rfl := Option.some.inj (List.mem_singleton.mp hk)
            obtain ⟨entry, hentry, hid⟩ := hfound.entry.exists_entry
            have hread := (hfills entry (List.mem_of_getElem? hentry)).2
            rw [hid, (Config.matchType_wb hfound.type).1] at hread
            cases hread
          · cases List.mem_singleton.mp hram

/-- The fill of a line notes it of its request, and leaves the other requests in use as they are. -/
theorem l1FillLine_undisplaced (hfills : s.Fills) (hlive : (s.reqBuffer id).state ≠ .inv)
    (h : s.l1FillLine cfg env id = .ok (filled, t)) :
    t.queue = s.queue ∧ t.l1CycleCount = s.l1CycleCount ∧
      (∀ x, (s.reqBuffer x).state ≠ .inv → x ≠ id → t.reqBuffer x = s.reqBuffer x) ∧
        ∃ l1MissCycle, t.reqBuffer id = { s.reqBuffer id with l1MissCycle } := by
  have hinsert {m n : State} (hm : s.Undisplaced m) (hn : m.insertL1Line cfg env id = .ok n) :
      n.queue = s.queue ∧ n.l1CycleCount = s.l1CycleCount ∧
        (∀ x, (s.reqBuffer x).state ≠ .inv → x ≠ id → n.reqBuffer x = s.reqBuffer x) ∧
          ∃ l1MissCycle, n.reqBuffer id = { s.reqBuffer id with l1MissCycle } := by
    obtain ⟨c, way, -, rfl⟩ := State.insertL1Line_inserts hn
    refine ⟨hm.queue, hm.l1CycleCount, fun x hx hne => ?_, none, ?_⟩
    · rw [State.setReq_other hne, State.setL1_reqBuffer, hm.reqBuffer x hx]
    · rw [State.setReq_self, hm.reqBuffer id hlive]
  rw [State.l1FillLine] at h
  dsimp only at h
  split at h
  · obtain ⟨⟨taken, m⟩, hm, h⟩ := Execution.bind_eq_ok.mp h
    have hkept := newMemL1WbReq_undisplaced hfills hm
    cases taken with
    | true =>
        obtain ⟨n, hn, h⟩ := Execution.bind_eq_ok.mp h
        obtain ⟨-, rfl⟩ := Prod.mk.inj (Except.ok.inj h)
        exact hinsert hkept hn
    | false =>
        obtain ⟨-, rfl⟩ := Prod.mk.inj (Except.ok.inj h)
        exact ⟨hkept.queue, hkept.l1CycleCount, fun x hx _ => hkept.reqBuffer x hx, _, hkept.reqBuffer id hlive⟩
  · obtain ⟨n, hn, h⟩ := Execution.bind_eq_ok.mp h
    obtain ⟨-, rfl⟩ := Prod.mk.inj (Except.ok.inj h)
    exact hinsert ⟨rfl, rfl, fun _ _ => rfl⟩ hn

/-- The queue and what is left to finish in it. -/
structure State.Advances (s t : State) : Prop where
  fillIds : t.fillIds = s.fillIds
  finishes : ∀ x ∈ s.fillIds, t.Finishes x ↔ s.Finishes x
  fills : t.Fills

/-- A request of the queue. -/
theorem State.Fills.of_mem (hfills : s.Fills) {x : ℕ} (hx : x ∈ s.fillIds) :
    (s.reqBuffer x).state ≠ .inv ∧ (s.reqBuffer x).type.isWb = false := by
  obtain ⟨entry, hentry, rfl⟩ := List.mem_map.mp hx
  exact hfills entry hentry

theorem State.Fills.of_ids (h : ∀ x ∈ s.fillIds, (s.reqBuffer x).state ≠ .inv ∧ (s.reqBuffer x).type.isWb = false) :
    s.Fills := fun _ hentry => h _ (List.mem_map_of_mem hentry)

/-- Only the request of the entry changes, and not so that it would finish now. -/
theorem State.Advances.of_self (hfills : s.Fills) (hids : t.fillIds = s.fillIds) (hcycle : t.l1CycleCount = s.l1CycleCount)
    (hother : ∀ x ∈ s.fillIds, x ≠ id → t.reqBuffer x = s.reqBuffer x) (hself : ¬ t.Finishes id) (hno : ¬ s.Finishes id)
    (hlive : (t.reqBuffer id).state ≠ .inv) (htype : (t.reqBuffer id).type = (s.reqBuffer id).type) : s.Advances t := by
  refine ⟨hids, fun x hx => ?_, .of_ids fun x hx => ?_⟩
  · by_cases hxid : x = id
    · rw [hxid]
      exact iff_of_false hself hno
    · rw [State.Finishes, State.Finishes, hother x hx hxid, hcycle]
  · rw [hids] at hx
    by_cases hxid : x = id
    · rw [hxid, htype]
      exact ⟨hlive, hxid ▸ (hfills.of_mem hx).2⟩
    · rw [hother x hx hxid]
      exact hfills.of_mem hx

/-- A visit that does not finish leaves the others as they are. -/
theorem FillVisit.advances (h : FillVisit cfg env s id ii t) (hfills : s.Fills) (hid : id ∈ s.fillIds)
    (hno : ¬ s.Finishes id) : s.Advances t := by
  obtain ⟨hlive, -⟩ := hfills.of_mem hid
  cases h with
  | waits => exact ⟨rfl, fun _ _ => .rfl, hfills⟩
  | fills _ m filled hstate hline ht =>
      obtain ⟨hqueue, hcycle, hother, l1MissCycle, hself⟩ := l1FillLine_undisplaced hfills hlive hline
      have hids : m.fillIds = s.fillIds := by rw [State.fillIds, State.fillIds, hqueue]
      obtain rfl | ⟨state, hnew, rfl⟩ := ht
      · refine .of_self hfills hids hcycle (fun x hx => hother x (hfills.of_mem hx).1) ?_ hno ?_ ?_
        · rintro ⟨-, hdone, -⟩
          rw [hself] at hdone
          cases hstate.symm.trans hdone
        · rw [hself]
          exact hlive
        · rw [hself]
      · refine .of_self hfills hids hcycle (fun x hx hne => ?_) ?_ hno ?_ ?_
        · rw [State.setReq_other hne, hother x (hfills.of_mem hx).1 hne]
        · -- it is ready in the next cycle only
          rintro ⟨hready, -, -⟩
          rw [State.setReq_self] at hready
          exact Nat.not_succ_le_self _ hready
        · rw [State.setReq_self]
          exact hnew
        · rw [State.setReq_self, hself]
  | moves _ hstate hqueue hpass hcycle hother hself =>
      have hids : t.fillIds = s.fillIds := by rw [State.fillIds, hqueue, modify_priority_ids, State.fillIds]
      refine .of_self hfills hids hcycle (fun x _ => hother x) ?_ hno ?_ hself.2.2
      · rintro ⟨-, hdone, hfunc⟩
        rw [hself.1] at hdone
        rw [hself.2.1] at hfunc
        obtain hmlc | ⟨-, hsome⟩ := hstate
        · cases hmlc.symm.trans hdone
        · exact hsome hfunc
      · rw [hself.1]
        exact hlive
  | finishes _ hfinishes => exact absurd hfinishes hno

/-- A request that is to finish does so when the loop comes to it. -/
theorem FillVisit.shortens (h : FillVisit cfg env s id ii t) (hfinishes : s.Finishes id) :
    (t.queue .l1fill).length < (s.queue .l1fill).length := by
  obtain ⟨hready, hdone, hfunc⟩ := hfinishes
  cases h with
  | waits h => exact absurd h (Nat.not_lt_of_le hready)
  | fills _ _ _ hstate => cases hdone.symm.trans hstate
  | moves _ hstate =>
      obtain hmlc | ⟨-, hsome⟩ := hstate
      · cases hdone.symm.trans hmlc
      · exact absurd hfunc hsome
  | finishes _ _ hlength => exact hlength

/-! ## The loop -/

theorem State.FillAt.atEntry (hat : s.FillAt ii) : s.atEntry = some id ↔ s.EntryAt .l1fill ii id := by
  obtain ⟨pass, hpass, heq⟩ := Option.map_eq_some_iff.mp hat
  obtain ⟨hqueue, rfl⟩ := Prod.mk.inj heq
  rw [State.atEntry, hpass, Option.bind_some, hqueue]
  rfl

/-- The index goes on. -/
def State.goOn (s : State) : State := s.count fun pass => { pass with ii := pass.ii + 1 }

/-- One round of the loop. -/
theorem nextEntry_fillVisit (hat : s.FillAt ii) (h : s.nextEntry cfg env = .ok t) :
    ∃ id m, s.EntryAt .l1fill ii id ∧ FillVisit cfg env s id ii m ∧ t = m.goOn := by
  obtain ⟨pass, hpass, heq⟩ := Option.map_eq_some_iff.mp hat
  obtain ⟨hqueue, rfl⟩ := Prod.mk.inj heq
  rw [State.nextEntry, hpass] at h
  dsimp only at h
  rw [hqueue] at h
  split at h
  · cases h
  · next entry hentry =>
      obtain ⟨m, hm, hout⟩ := Execution.bind_eq_ok.mp h
      obtain ⟨hlt, -⟩ := List.getElem?_eq_some_iff.mp hentry
      refine ⟨entry.reqbuf, m, ?_, fillEntry_visit (hpass ▸ rfl) hlt hm, (Except.ok.inj hout).symm⟩
      rw [State.EntryAt, hentry]
      rfl

/-- The next round begins where this one ends. -/
theorem State.FillAt.next (hat : s.FillAt ii)
    (hpass : t.pass.map (fun pass => (pass.queue, pass.ii)) = s.pass.map fun pass => (pass.queue, pass.ii)) :
    t.goOn.FillAt (ii + 1) := by
  obtain ⟨pass, ht, heq⟩ := Option.map_eq_some_iff.mp (hpass.trans hat)
  obtain ⟨hqueue, rfl⟩ := Prod.mk.inj heq
  rw [State.FillAt, State.goOn, State.count, ht, ← hqueue]
  rfl

theorem State.Advances.goOn (h : s.Advances t) : s.Advances t.goOn := ⟨h.fillIds, h.finishes, h.fills⟩

theorem State.EntryAt.lt (h : s.EntryAt .l1fill ii id) : ii < (s.queue .l1fill).length := by
  obtain ⟨entry, hentry, -⟩ := h.exists_entry
  exact (List.getElem?_eq_some_iff.mp hentry).1

theorem State.EntryAt.mem (h : s.EntryAt .l1fill ii id) : id ∈ s.fillIds := by
  obtain ⟨entry, hentry, rfl⟩ := h.exists_entry
  exact List.mem_map_of_mem (List.mem_of_getElem? hentry)

theorem State.EntryAt.fillIds (h : s.EntryAt .l1fill ii id) : s.fillIds.drop ii = id :: s.fillIds.drop (ii + 1) := by
  have hget : s.fillIds[ii]? = some id := by
    rw [State.fillIds, List.getElem?_map]
    exact h
  obtain ⟨hlt, hget⟩ := List.getElem?_eq_some_iff.mp hget
  rw [List.drop_eq_getElem_cons hlt, hget]

/-- A round and the rest of the loop. -/
theorem run_entries_cons (hat : s.FillAt ii) (hrun : run cfg s ((env :: envs).map .entry) = .ok m) :
    ∃ id t, s.EntryAt .l1fill ii id ∧ FillVisit cfg env s id ii t ∧ t.goOn.FillAt (ii + 1) ∧
      run cfg t.goOn (envs.map .entry) = .ok m ∧ s.examined cfg (env :: envs) = id :: t.goOn.examined cfg envs := by
  obtain ⟨next, hnext, hrun⟩ := Execution.run_cons_eq_ok.mp hrun
  obtain ⟨id, t, hentry, hvisit, rfl⟩ := nextEntry_fillVisit hat hnext
  refine ⟨id, t, hentry, hvisit, hat.next hvisit.length_le.2, hrun, ?_⟩
  change s.nextEntry cfg env = _ at hnext
  rw [State.examined, hat.atEntry.mpr hentry, hnext]
  rfl

/-- The loop looks at no more than is left of the queue. -/
theorem examined_length_le (hat : s.FillAt ii) (hrun : run cfg s (envs.map .entry) = .ok m) :
    (s.examined cfg envs).length ≤ (s.queue .l1fill).length - ii := by
  induction envs generalizing s ii with
  | nil => exact Nat.zero_le _
  | cons env envs ih =>
      obtain ⟨id, t, hentry, hvisit, hnext, hrest, hexamined⟩ := run_entries_cons hat hrun
      have hrec : (t.goOn.examined cfg envs).length ≤ (t.queue .l1fill).length - (ii + 1) := ih hnext hrest
      have hlength := hvisit.length_le.1
      have hlt := hentry.lt
      rw [hexamined, List.length_cons]
      omega

/-- No entry but the last is to finish. -/
def State.NoneFinishesEarly (s : State) (ii : ℕ) : Prop :=
  ∀ jj id, ii ≤ jj → s.EntryAt .l1fill jj id → jj + 1 < (s.queue .l1fill).length → ¬ s.Finishes id

theorem State.Advances.entryAt (h : s.Advances t) : t.EntryAt .l1fill i id ↔ s.EntryAt .l1fill i id := by
  have hget (u : State) : u.EntryAt .l1fill i id ↔ u.fillIds[i]? = some id := by
    rw [State.EntryAt, State.fillIds, List.getElem?_map]
  rw [hget, hget, h.fillIds]

theorem State.Advances.length (h : s.Advances t) : (t.queue .l1fill).length = (s.queue .l1fill).length := by
  have hlength := congrArg List.length h.fillIds
  rwa [State.fillIds, State.fillIds, List.length_map, List.length_map] at hlength

theorem State.Advances.noneFinishesEarly (h : s.Advances t) (hnone : s.NoneFinishesEarly ii) :
    t.NoneFinishesEarly (ii + 1) := by
  intro jj id hle hentry hlt
  rw [h.length] at hlt
  have hat := h.entryAt.mp hentry
  rw [h.finishes id hat.mem]
  exact hnone jj id (Nat.le_of_succ_le hle) hat hlt

/-- The loop looks at all that is left of the queue, in order. -/
theorem examined_eq_drop (hfills : s.Fills) (hat : s.FillAt ii) (hnone : s.NoneFinishesEarly ii)
    (hrun : run cfg s (envs.map .entry) = .ok m) (hover : m.LoopOver) : s.examined cfg envs = s.fillIds.drop ii := by
  induction envs generalizing s ii with
  | nil =>
      obtain rfl := Except.ok.inj hrun
      obtain ⟨pass, hpass, hle⟩ := hover
      rw [State.FillAt, hpass] at hat
      obtain ⟨hqueue, rfl⟩ := Prod.mk.inj (Option.some.inj hat)
      rw [hqueue] at hle
      rw [State.examined, State.fillIds, List.drop_of_length_le]
      rwa [List.length_map]
  | cons env envs ih =>
      obtain ⟨id, t, hentry, hvisit, hnext, hrest, hexamined⟩ := run_entries_cons hat hrun
      rw [hexamined, hentry.fillIds]
      by_cases hlast : ii + 1 < (s.queue .l1fill).length
      · have hadvances := (hvisit.advances hfills hentry.mem (hnone ii id (Nat.le_refl ii) hentry hlast)).goOn
        rw [ih hadvances.fills hnext (hadvances.noneFinishesEarly hnone) hrest, hadvances.fillIds]
      · -- the last entry may finish, as none is left
        have hle : (t.goOn.examined cfg envs).length ≤ (t.queue .l1fill).length - (ii + 1) :=
          examined_length_le hnext hrest
        have hlength := hvisit.length_le.1
        rw [List.eq_nil_of_length_eq_zero (by omega : (t.goOn.examined cfg envs).length = 0), List.drop_of_length_le]
        rw [State.fillIds, List.length_map]
        omega

/-- A request that finishes early leaves the loop fewer entries to look at. -/
theorem examined_length_lt {jj x : ℕ} (hfills : s.Fills) (hat : s.FillAt ii) (hle : ii ≤ jj) (hx : s.EntryAt .l1fill jj x)
    (hearly : jj + 1 < (s.queue .l1fill).length) (hfinishes : s.Finishes x) (hrun : run cfg s (envs.map .entry) = .ok m) :
    (s.examined cfg envs).length < (s.queue .l1fill).length - ii := by
  induction envs generalizing s ii with
  | nil => exact Nat.sub_pos_of_lt (Nat.lt_of_le_of_lt hle hx.lt)
  | cons env envs ih =>
      obtain ⟨id, t, hentry, hvisit, hnext, hrest, hexamined⟩ := run_entries_cons hat hrun
      rw [hexamined, List.length_cons]
      by_cases hid : s.Finishes id
      · have hshort := hvisit.shortens hid
        have hrec : (t.goOn.examined cfg envs).length ≤ (t.queue .l1fill).length - (ii + 1) :=
          examined_length_le hnext hrest
        omega
      · have hadvances := (hvisit.advances hfills hentry.mem hid).goOn
        have hne : ii ≠ jj := by
          rintro rfl
          obtain rfl := Option.some.inj (hentry.symm.trans hx)
          exact hid hfinishes
        have hrec := ih hadvances.fills hnext (Nat.lt_of_le_of_ne hle hne) (hadvances.entryAt.mpr hx)
          (hadvances.length.symm ▸ hearly) ((hadvances.finishes x hx.mem).mpr hfinishes) hrest
        rw [hadvances.length] at hrec
        omega

/-- The beginning of the loop changes nothing else. -/
theorem begin_fillAt (h : s.step cfg (.begin .l1fill) = .ok t) :
    t.FillAt 0 ∧ t.queue = s.queue ∧ t.l1CycleCount = s.l1CycleCount ∧ t.reqBuffer = s.reqBuffer := by
  simp only [State.step] at h
  split at h
  · obtain rfl := Except.ok.inj h
    exact ⟨rfl, rfl, rfl, rfl⟩
  · cases h

/-- One pass over the fill queue of the L1 looks at every entry once exactly when no entry but the last is of a request
that finishes in it. -/
theorem examined_perm_iff {b : State} (hfills : s.Fills) (hbegin : s.step cfg (.begin .l1fill) = .ok b)
    (hrun : run cfg b (envs.map .entry) = .ok m) (hover : m.LoopOver) :
    (b.examined cfg envs).Perm s.fillIds ↔
      ∀ ii id, s.EntryAt .l1fill ii id → ii + 1 < (s.queue .l1fill).length → ¬ s.Finishes id := by
  obtain ⟨hat, hqueue, hcycle, hreq⟩ := begin_fillAt hbegin
  have hsame : s.Advances b := by
    refine ⟨?_, fun x _ => ?_, hfills.congr hqueue hreq⟩
    · rw [State.fillIds, State.fillIds, hqueue]
    · rw [State.Finishes, State.Finishes, hcycle, hreq]
  refine ⟨fun hperm ii id hentry hearly hfinishes => ?_, fun hnone => ?_⟩
  · have hlt := examined_length_lt hsame.fills hat (Nat.zero_le ii) (hsame.entryAt.mpr hentry)
      (hsame.length.symm ▸ hearly) ((hsame.finishes id hentry.mem).mpr hfinishes) hrun
    rw [hperm.length_eq, State.fillIds, List.length_map, hsame.length] at hlt
    exact Nat.lt_irrefl _ hlt
  · have hdrop := examined_eq_drop hsame.fills hat (fun jj id _ hentry hlt => ?_) hrun hover
    · rw [hdrop, List.drop_zero, hsame.fillIds]
    · rw [hsame.finishes id (hsame.entryAt.mp hentry).mem]
      exact hnone jj id (hsame.entryAt.mp hentry) (hsame.length ▸ hlt)

/-- What the loop meets at an entry that is ready. -/
def Env.ready : Env := ⟨true, true, true, none, .lru⟩

/-- Two prefetches that came back from the memory. -/
def prefetchedEvents : List Event :=
  [.newMemReq ⟨.dprf, 0, 128, 0, none, none, some ⟨1, 0, 0, .l1⟩⟩,
    .newMemReq ⟨.dprf, 0, 192, 0, none, none, some ⟨1, 0, 0, .l1⟩⟩] ++
    (.begin .l1 :: [.ready, .ready].map .entry ++ [.finish]) ++ (.begin .l1 :: [.ready, .ready].map .entry ++ [.finish]) ++
      [.enqueueResponse 128, .tryCompletingRequest, .enqueueResponse 192, .tryCompletingRequest, .tickL1]

/-- The pass that fills both lines looks at both prefetches. -/
theorem examined_perm_prefetched : ∃ s b m, run .small (.fresh .small fun _ => 0) prefetchedEvents = .ok s ∧
    s.step .small (.begin .l1fill) = .ok b ∧ run .small b ([.ready, .ready].map .entry) = .ok m ∧ m.LoopOver ∧
      s.fillIds = [0, 1] ∧ (b.examined .small [.ready, .ready]).Perm s.fillIds := by
  obtain ⟨s, hs, hseen⟩ := Execution.map_eq_ok.mp (show (fun s : State => (s.queue .l1fill, (s.reqBuffer 0).state,
      (s.reqBuffer 1).state, (s.reqBuffer 0).type, (s.reqBuffer 1).type)) <$>
    run .small (.fresh .small fun _ => 0) prefetchedEvents =
      .ok ([⟨0, 0, 0⟩, ⟨1, 0, 0⟩], .fillL1, .fillL1, .dprf, .dprf) by decide +kernel)
  obtain ⟨m, hm, hend⟩ := Execution.map_eq_ok.mp (show (fun s : State => (s.pass, (s.queue .l1fill).length)) <$>
    run .small (.fresh .small fun _ => 0) (prefetchedEvents ++ .begin .l1fill :: [.ready, .ready].map .entry) =
      .ok (some ⟨.l1fill, 2, 0, 0, 0, [], []⟩, 2) by decide +kernel)
  simp only [Prod.mk.injEq] at hseen hend
  obtain ⟨hqueue, hstate, hstate', htype, htype'⟩ := hseen
  obtain ⟨hpass, hlength⟩ := hend
  obtain ⟨s', hs', hm⟩ := Execution.run_append_eq_ok.mp hm
  obtain rfl : s = s' := Except.ok.inj (hs.symm.trans hs')
  obtain ⟨b, hb, hm⟩ := Execution.run_cons_eq_ok.mp hm
  have hids : s.fillIds = [0, 1] := by
    rw [State.fillIds, hqueue]
    rfl
  have hfills : s.Fills := .of_ids fun x hx => by
    rw [hids] at hx
    obtain rfl | rfl : x = 0 ∨ x = 1 := by simpa using hx
    · rw [hstate, htype]
      decide
    · rw [hstate', htype']
      decide
  have hover : m.LoopOver := ⟨_, hpass, Nat.le_of_eq hlength⟩
  refine ⟨s, b, m, hs, hb, hm, hover, hids, (examined_perm_iff hfills hb hm hover).mpr fun ii x hentry _ hfinishes => ?_⟩
  have hx := hentry.mem
  rw [hids] at hx
  obtain ⟨-, hdone, -⟩ := hfinishes
  obtain rfl | rfl : x = 0 ∨ x = 1 := by simpa using hx
  · cases hstate.symm.trans hdone
  · cases hstate'.symm.trans hdone

/-- In the next cycle both are done. The first is cut off, and the loop ends before it looks at the second. -/
theorem examined_skips_second : ∃ s b m,
    run .small (.fresh .small fun _ => 0)
      (prefetchedEvents ++ (.begin .l1fill :: [.ready, .ready].map .entry ++ [.finish]) ++ [.tickL1]) = .ok s ∧
        s.step .small (.begin .l1fill) = .ok b ∧ run .small b ([.ready].map .entry) = .ok m ∧ m.LoopOver ∧
          s.fillIds = [0, 1] ∧ b.examined .small [.ready] = [0] := by
  obtain ⟨s, hs, hseen⟩ := Execution.map_eq_ok.mp (show (fun s : State => (s.queue .l1fill, decide (s.Finishes 0))) <$>
    run .small (.fresh .small fun _ => 0) (prefetchedEvents ++ (.begin .l1fill :: [.ready, .ready].map .entry ++ [.finish]) ++
      [.tickL1]) = .ok ([⟨0, 0, 0⟩, ⟨1, 0, 0⟩], true) by decide +kernel)
  obtain ⟨m, hm, -⟩ := Execution.map_eq_ok.mp (show (fun s : State => s.pass.map Pass.ii) <$>
    run .small (.fresh .small fun _ => 0) (prefetchedEvents ++ (.begin .l1fill :: [.ready, .ready].map .entry ++ [.finish]) ++
      [.tickL1] ++ .begin .l1fill :: [.ready].map .entry) = .ok (some 1) by decide +kernel)
  obtain ⟨hqueue, hfinishes⟩ := Prod.mk.inj hseen
  obtain ⟨s', hs', hm⟩ := Execution.run_append_eq_ok.mp hm
  obtain rfl : s = s' := Except.ok.inj (hs.symm.trans hs')
  obtain ⟨b, hb, hm⟩ := Execution.run_cons_eq_ok.mp hm
  obtain ⟨hat, hbqueue, hcycle, hreq⟩ := begin_fillAt hb
  obtain ⟨id, t, hentry, hvisit, hnext, hrest, hexamined⟩ := run_entries_cons hat hm
  obtain rfl : id = 0 := by
    rw [State.EntryAt, hbqueue, hqueue] at hentry
    exact (Option.some.inj hentry).symm
  obtain rfl : t.goOn = m := Except.ok.inj hrest
  have hlt : (t.goOn.queue .l1fill).length < 2 := by
    have hshort := hvisit.shortens (by
      rw [State.Finishes, hcycle, hreq]
      exact of_decide_eq_true hfinishes)
    rwa [hbqueue, hqueue] at hshort
  refine ⟨s, b, _, hs, hb, hm, ?_, ?_, hexamined⟩
  · obtain ⟨pass, hpass, heq⟩ := Option.map_eq_some_iff.mp hnext
    obtain ⟨hpassqueue, hii⟩ := Prod.mk.inj heq
    refine ⟨pass, hpass, ?_⟩
    rw [hpassqueue, hii]
    exact Nat.le_of_lt_succ hlt
  · rw [State.fillIds, hqueue]
    rfl

end Scarab.Memory
