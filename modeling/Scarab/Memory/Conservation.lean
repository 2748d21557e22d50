import Mathlib.Algebra.BigOperators.Group.Finset.Basic
import Mathlib.Algebra.BigOperators.Group.Finset.Piecewise
import Mathlib.Data.Finset.Range
import Scarab.Memory.Loads
import Scarab.Memory.Placement

/-! # No request buffer is lost

A loop keeps its place and its counts while its body runs, and at its end it cuts off the entries of the requests that
went elsewhere. So in every run each request buffer is in one place. -/

namespace Scarab.Memory

variable {cfg : Config} {env : Env} {base s t m : State} {id ii next removed : ℕ} {k : QueueId} {req : MemReq}
  {priority : Priority} {overtakes : Prop} {done : Bool}

/-- The fill queue of the L1 has reads in use, but for a request of it that is freed. -/
theorem Progress.fills (h : Progress cfg env base k id ii s done t) (hfills : s.Fills) (hk : k = .l1fill)
    (hlive : done = true → (t.reqBuffer id).state ≠ .inv) : t.Fills := by
  subst hk
  cases h with
  | toFill out state rdyCycle back priority h =>
      have hnext : state ≠ .inv ∧ out ≠ .l1fill := by
        cases h
        · exact ⟨nofun, nofun⟩
        · exact ⟨nofun, nofun⟩
      refine State.Fills.markEntry (State.Fills.insertEntry (State.Fills.setReq hfills ?_) ?_)
      · exact fun hread => ⟨hnext.1, hread.2⟩
      · exact fun hout => absurd hout hnext.2
  | release rdyCycle back => exact absurd (congrArg MemReq.state (State.freeReq_self _ id)) (hlive rfl)
  | fill c way rdyCycle hk' hstate hread =>
      have hset : (s.setL1 (cfg.l1Of (s.reqBuffer id).procId) c).Fills := hfills.congr rfl rfl
      refine hset.setReq fun _ => ⟨?_, hread⟩
      dsimp only
      split <;> exact nofun
  | toL1 _ _ _ hk' => cases hk'
  | reviveL1 _ _ hk' => cases hk'
  | filled _ hk' => cases hk'
  | fillWb _ _ _ hk' => cases hk'
  | lost _ hk' => cases hk'
  | fillLost _ _ _ hk' => cases hk'
  | fillOver _ _ _ _ hk' => cases hk'
  | revive _ _ _ _ hk' => cases hk'
  | send _ hk' => cases hk'
  | reject hk' => cases hk'
  | handOver _ _ hk' => cases hk'

/-! ## Loops -/

/-- Where the loop is, and what it counted. -/
def State.loopAt (s : State) : Option (QueueId × ℕ × ℕ) := s.pass.map fun pass => (pass.queue, pass.ii, pass.removalCount)

theorem State.insertEntry_loopAt (s : State) (k : QueueId) (id : ℕ) (priority : Priority) :
    (s.insertEntry k id priority).loopAt = s.loopAt := State.insertEntry_pass_map (fun _ _ => rfl) s k id priority

theorem State.count_loopAt (s : State) {f : Pass → Pass}
    (hf : ∀ pass, (f pass).queue = pass.queue ∧ (f pass).ii = pass.ii ∧ (f pass).removalCount = pass.removalCount) :
    (s.count f).loopAt = s.loopAt := by
  rw [State.count, State.loopAt]
  rw [Option.map_map]
  refine congrArg (s.pass.map ·) (funext fun pass => ?_)
  obtain ⟨hqueue, hii, hcount⟩ := hf pass
  exact Prod.ext hqueue (Prod.ext hii hcount)

theorem State.reserve_loopAt (s : State) : (s.reserve cfg id).loopAt = s.loopAt := by
  obtain ⟨n, -, heq⟩ := State.reserve_eq s cfg id
  rw [heq]
  exact State.count_loopAt s fun _ => ⟨rfl, rfl, rfl⟩

theorem State.trainMiss_loopAt (s : State) : (s.trainMiss cfg id).loopAt = s.loopAt := by
  rw [State.trainMiss_eq]
  rfl

theorem Progress.loopAt (hcareful : base.Careful cfg env) (h : Progress cfg env base k id ii s done t) : t.loopAt = s.loopAt := by
  cases h with
  | toFill out state rdyCycle back priority => exact State.insertEntry_loopAt (s.setReq id _) out id priority
  | toL1 rdyCycle reserves priority =>
      refine Eq.trans (State.count_loopAt _ ?_) (State.insertEntry_loopAt ((s.setReq id _).markEntry k ii) .l1 id priority)
      exact fun _ => ⟨rfl, rfl, rfl⟩
  | reviveL1 _ _ _ _ _ _ _ _ hbase => exact (hcareful.revives id hbase).elim
  | fillOver _ _ _ _ _ hmiss _ hwb hthrough hconstant =>
      exact (hcareful.handsOver ⟨hconstant, id, .inr ⟨hmiss, hwb, hthrough⟩⟩).elim
  | revive _ _ _ _ _ hmiss _ hwb hthrough hconstant =>
      exact (hcareful.handsOver ⟨hconstant, id, .inr ⟨hmiss, hwb, hthrough⟩⟩).elim
  | handOver _ _ _ hsend hon => exact (hcareful.handsOver ⟨hon, id, .inl hsend⟩).elim
  | lost => rfl
  | fillLost => rfl
  | send => exact (State.trainMiss_loopAt _).trans (State.reserve_loopAt _)
  | reject => exact (State.trainMiss_loopAt _).trans (State.reserve_loopAt _)
  | release => rfl
  | fill => rfl
  | filled => rfl
  | fillWb => rfl

theorem QuietRun.loopAt (h : QuietRun cfg overtakes s t) : t.loopAt = s.loopAt := h.pass_map fun _ _ => rfl

/-- What follows the progress leaves the requests where they are. -/
theorem RestRun.same (h : RestRun s t) : t.reqBuffer = s.reqBuffer ∧ t.queue = s.queue ∧
    t.reqBufferFreeList = s.reqBufferFreeList ∧ t.ramulatorIds = s.ramulatorIds ∧ t.pass = s.pass := by
  induction h with
  | refl => exact ⟨rfl, rfl, rfl, rfl, rfl⟩
  | tail _ hmove ih => cases hmove <;> exact ih

theorem State.passQueue_of_loopAt (h : t.loopAt = s.loopAt) : t.passQueue = s.passQueue := by
  have hqueue (s : State) : s.passQueue = s.loopAt.map Prod.fst := by
    rw [State.loopAt, State.passQueue]
    rw [Option.map_map]
    rfl
  rw [hqueue, hqueue, h]

theorem EntryStep.tracked (hcareful : base.Careful cfg env) (h : EntryStep cfg env base k id ii s done t) (hs : s.Tracked cfg ii removed)
    (hfills : s.Fills) (hk : s.passQueue = some k) (hentry : s.EntryAt k ii id) :
    t.Tracked cfg (ii + 1) (if done then removed + 1 else removed) ∧ t.loopAt = s.loopAt ∧
      ((k = .l1fill → done = true → (t.reqBuffer id).state ≠ .inv) → t.Fills) := by
  have hno := hcareful.overtakes
  cases h with
  | quiet hquiet =>
      obtain ⟨ht, htfills⟩ := hquiet.tracked hno hs hfills
      exact ⟨ht.past, hquiet.loopAt, fun _ => htfills⟩
  | @progress m n _ _ hquiet hprogress hrest =>
      obtain ⟨hm, hmfills⟩ := hquiet.tracked hno hs hfills
      have hmk : m.passQueue = some k := (State.passQueue_of_loopAt hquiet.loopAt).trans hk
      obtain ⟨pass, hpass, rfl⟩ := Option.map_eq_some_iff.mp hk
      have hat := hentry.adds (hquiet.adds hno hs hfills hpass)
      have hn := hprogress.tracked hcareful hm hmk hat
      have hnloop := hprogress.loopAt hcareful
      obtain ⟨hreqs, hqueue, hfree, hram, hsame⟩ := hrest.same
      have htpass : t.passQueue = n.passQueue := congrArg (Option.map Pass.queue) hsame
      refine ⟨hn.congr hreqs hqueue (.of_eq hfree) (.of_eq hram) htpass, ?_, fun hlive => ?_⟩
      · refine Eq.trans ?_ (hnloop.trans hquiet.loopAt)
        unfold State.loopAt
        rw [hsame]
      · refine State.Fills.congr ?_ hqueue hreqs
        by_cases hl1fill : pass.queue = .l1fill
        · exact hprogress.fills hmfills hl1fill fun hdone => hreqs ▸ hlive hl1fill hdone
        · -- all entries of the other queues are kept
          refine hn.fills (hn.marks.kept .l1fill ?_)
          rw [State.passQueue_of_loopAt hnloop, hmk]
          exact fun heq => hl1fill (Option.some.inj heq)

/-! ## Steps -/

/-- No request is lost, as far as the loop has come. -/
structure State.Kept (cfg : Config) (s : State) : Prop where
  tracked : s.Tracked cfg ((s.pass.map Pass.ii).getD 0) ((s.pass.map Pass.removalCount).getD 0)
  fills : s.Fills

/-- When the counted entries are cut off, all that are left are kept. -/
theorem State.Tracked.cut (h : s.Tracked cfg next removed) (hk : s.passQueue = some k) (next' : ℕ) :
    (if removed = 0 then s else s.cutQueue k removed).Tracked cfg next' 0 ∧
      ∀ k', ∀ entry ∈ (if removed = 0 then s else s.cutQueue k removed).queue k', entry.isKept = true := by
  by_cases hzero : removed = 0
  · subst hzero
    rw [if_pos rfl]
    have hall (k' : QueueId) (entry : QueueEntry) (hentry : entry ∈ s.queue k') : entry.isKept = true := by
      by_cases hkk : s.passQueue = some k'
      · have hnone := List.countP_eq_zero.mp (h.marks.removed k' hkk) entry hentry
        simpa using hnone
      · exact h.marks.kept k' hkk entry hentry
    exact ⟨⟨h.places, h.sound, h.bound, h.marks.kept, h.marks.removed,
      fun k' _ entry hentry => hall k' entry (List.mem_of_mem_drop hentry)⟩, hall⟩
  · rw [if_neg hzero]
    exact h.cutQueue hk next'

/-- Between the loops, and at the begin of one. -/
theorem State.Kept.of_all (h : s.Tracked cfg next removed) (hall : ∀ k, ∀ entry ∈ s.queue k, entry.isKept = true)
    (hreqs : t.reqBuffer = s.reqBuffer) (hqueue : ∀ k, (t.queue k).Perm (s.queue k))
    (hfree : t.reqBufferFreeList = s.reqBufferFreeList) (hram : t.ramulatorIds.Perm s.ramulatorIds)
    (hpass : ∀ pass, t.pass = some pass → pass.removalCount = 0) : t.Kept cfg := by
  have hkept (k : QueueId) (entry : QueueEntry) (hentry : entry ∈ t.queue k) : entry.isKept = true :=
    hall k entry ((hqueue k).mem_iff.mp hentry)
  have hnone (k : QueueId) : ((t.queue k).countP fun entry => !entry.isKept) = 0 :=
    List.countP_eq_zero.mpr fun entry hentry => by simp [hkept k entry hentry]
  have ht : t.Tracked cfg ((t.pass.map Pass.ii).getD 0) ((t.pass.map Pass.removalCount).getD 0) := by
    refine ⟨h.places.of_perm (fun p => ?_) fun id => State.place_eq (congrFun hreqs id), fun id => ?_, fun id => ?_,
      fun k _ => hkept k, fun k _ => ?_, fun k _ entry hentry => hkept k entry (List.mem_of_mem_drop hentry)⟩
    · cases p with
      | free => exact .of_eq hfree
      | ramulator => exact hram
      | queue k => exact ((hqueue k).filter _).map _
    · rw [hreqs]
      exact h.sound id
    · rw [hreqs]
      exact h.bound id
    · rw [hnone]
      cases htpass : t.pass with
      | none => rfl
      | some pass => exact (hpass pass htpass).symm
  exact ⟨ht, ht.fills (hkept .l1fill)⟩

/-- Between the loops all entries are kept. -/
theorem State.Kept.all (h : s.Kept cfg) (hpass : s.pass = none) (k : QueueId) (entry : QueueEntry)
    (hentry : entry ∈ s.queue k) : entry.isKept = true :=
  h.tracked.marks.kept k (State.passQueue_ne_of_none hpass k) entry hentry

theorem State.removeEntries_eq {reservedIn : QueueId} {n : ℕ} (h : s.removeEntries cfg k reservedIn n = .ok t) :
    ∃ reserved, t = { if n = 0 then s else s.cutQueue k n with reserved } := by
  rw [State.removeEntries] at h
  dsimp only at h
  split at h
  · next hzero => exact ⟨s.reserved, by rw [if_pos hzero]; exact (Except.ok.inj h).symm⟩
  · next hne =>
    rw [if_neg hne]
    split at h
    · split at h
      · cases h
      · exact ⟨_, (Except.ok.inj h).symm⟩
    · exact ⟨_, (Except.ok.inj h).symm⟩

/-- The same state, but for the order of its queues, the reserved entries and the loop. -/
structure State.Reordered (s t : State) : Prop where
  reqBuffer : t.reqBuffer = s.reqBuffer
  queue : ∀ k, (t.queue k).Perm (s.queue k)
  reqBufferFreeList : t.reqBufferFreeList = s.reqBufferFreeList
  ramulatorIds : t.ramulatorIds = s.ramulatorIds

theorem State.Reordered.sortQueue (h : State.Reordered s t) (k : QueueId) : State.Reordered s (t.sortQueue k) := by
  refine ⟨h.reqBuffer, fun k' => ?_, h.reqBufferFreeList, h.ramulatorIds⟩
  rw [State.sortQueue]
  rw [State.setQueue_queue]
  split
  · next heq =>
    subst heq
    exact (sortEntries_perm _).trans (h.queue k')
  · exact h.queue k'

/-- The counted entries are cut off. -/
def State.cutRemoved (s : State) (pass : Pass) : State :=
  if pass.removalCount = 0 then s else s.cutQueue pass.queue pass.removalCount

theorem State.removeEntries_reordered {reservedIn : QueueId} {pass : Pass}
    (h : s.removeEntries cfg pass.queue reservedIn pass.removalCount = .ok t) : State.Reordered (s.cutRemoved pass) t := by
  obtain ⟨reserved, rfl⟩ := State.removeEntries_eq h
  exact ⟨rfl, fun _ => .refl _, rfl, rfl⟩

theorem State.finishAccess_reordered {out : Option QueueId} {pass : Pass}
    (h : s.finishAccess cfg pass.queue out pass = .ok t) : State.Reordered (s.cutRemoved pass) t := by
  have hcut : State.Reordered (s.cutRemoved pass) (if pass.removalCount = 0 then s
      else if cfg.hierMshrOn then (s.cutQueue pass.queue pass.removalCount).setReserved pass.queue
        ((s.cutQueue pass.queue pass.removalCount).reserved pass.queue + pass.reserveEntryCount)
      else s.cutQueue pass.queue pass.removalCount) := by
    rw [State.cutRemoved]
    split
    · exact ⟨rfl, fun _ => .refl _, rfl, rfl⟩
    · split
      · exact ⟨rfl, fun _ => .refl _, rfl, rfl⟩
      · exact ⟨rfl, fun _ => .refl _, rfl, rfl⟩
  rw [State.finishAccess] at h
  dsimp only at h
  split at h
  · cases h
  · split at h
    · cases h
    · rw [← Except.ok.inj h]
      split
      · cases out with
        | none => exact hcut
        | some k => exact hcut.sortQueue k
      · exact hcut

theorem State.finishPass_reordered {pass : Pass} (h : s.finishPass cfg pass = .ok t) :
    State.Reordered (s.cutRemoved pass) t := by
  obtain ⟨k, ii, removalCount, insertionCount, reserveEntryCount, inserted, completed⟩ := pass
  rw [State.finishPass] at h
  cases k with
  | mlc => exact State.finishAccess_reordered h
  | l1 => exact State.finishAccess_reordered h
  | l1fill => exact State.removeEntries_reordered h
  | mlcFill => exact State.removeEntries_reordered h
  | coreFill procId =>
      rw [← Except.ok.inj h]
      exact ⟨rfl, fun _ => .refl _, rfl, rfl⟩

/-- The request that the body of a loop has completed. -/
def completedIn (done : Bool) (id : ℕ) : List ℕ := if done then [id] else []

/-- The loop at its next entry. -/
theorem State.countIf_pass {pass : Pass} (done : Bool) (id : ℕ) (hpass : m.pass = some pass) :
    ((m.countIf done id).count fun pass => { pass with ii := pass.ii + 1 }).pass = some { pass with
      ii := pass.ii + 1
      removalCount := if done then pass.removalCount + 1 else pass.removalCount
      completed := pass.completed ++ completedIn done id } := by
  cases done
  · simp [State.countIf, State.count, completedIn, hpass]
  · simp [State.countIf, State.countRemoval, State.count, completedIn, hpass]

/-- The same requests, in the same places. -/
structure State.SamePlaces (s t : State) : Prop where
  reqBuffer : t.reqBuffer = s.reqBuffer
  queue : t.queue = s.queue
  reqBufferFreeList : t.reqBufferFreeList = s.reqBufferFreeList
  ramulatorIds : t.ramulatorIds = s.ramulatorIds

theorem State.countIf_same (m : State) (done : Bool) (id : ℕ) :
    m.SamePlaces ((m.countIf done id).count fun pass => { pass with ii := pass.ii + 1 }) := by
  cases done
  · exact ⟨rfl, rfl, rfl, rfl⟩
  · exact ⟨rfl, rfl, rfl, rfl⟩

theorem State.nextEntry_kept (hcareful : s.Careful cfg env) (hs : s.Kept cfg) (h : s.nextEntry cfg env = .ok t) : t.Kept cfg := by
  obtain ⟨pass, id, done, m, n, hpass, hentry, hstep, hn, rfl⟩ := State.nextEntry_step h
  have hk := State.passQueue_of_pass hpass
  have htracked := hs.tracked
  rw [hpass] at htracked
  obtain ⟨hm, hloop, hfills⟩ := hstep.tracked hcareful htracked hs.fills hk hentry
  have hmpass : ∃ mpass, m.pass = some mpass ∧ mpass.queue = pass.queue ∧ mpass.ii = pass.ii ∧
      mpass.removalCount = pass.removalCount := by
    unfold State.loopAt at hloop
    rw [hpass] at hloop
    obtain ⟨mpass, hmpass, heq⟩ := Option.map_eq_some_iff.mp hloop
    obtain ⟨hqueue, heq⟩ := Prod.mk.inj heq
    obtain ⟨hii, hcount⟩ := Prod.mk.inj heq
    exact ⟨mpass, hmpass, hqueue, hii, hcount⟩
  obtain ⟨mpass, hmpass, hqueue, hii, hcount⟩ := hmpass
  rcases hn with ⟨rfl, hlive⟩ | ⟨hfill, rfl, hcut⟩
  · have hcounted := State.countIf_pass done id hmpass
    have hsame := State.countIf_same m done id
    generalize ((m.countIf done id).count fun pass => { pass with ii := pass.ii + 1 }) = t at hcounted hsame
    refine ⟨?_, (hfills hlive).congr hsame.queue hsame.reqBuffer⟩
    have htracked : t.Tracked cfg (pass.ii + 1) (if done then pass.removalCount + 1 else pass.removalCount) := by
      refine hm.congr hsame.reqBuffer hsame.queue (.of_eq hsame.reqBufferFreeList) (.of_eq hsame.ramulatorIds) ?_
      rw [State.passQueue_of_pass hcounted, State.passQueue_of_pass hmpass]
    rw [hcounted, Option.map_some, Option.map_some, hii, hcount]
    exact htracked
  · obtain ⟨o, ho, hcut⟩ := Execution.bind_eq_ok.mp hcut
    have hmk : (m.countRemoval id).passQueue = some .l1fill := by
      have hmqueue : m.passQueue = some .l1fill := by rw [State.passQueue_of_pass hmpass, hqueue, hfill]
      refine (State.count_passQueue m ?_).trans hmqueue
      exact fun _ => rfl
    have hremoved : ((m.countRemoval id).pass.map Pass.removalCount).getD 0 = pass.removalCount + 1 := by
      simp [State.countRemoval, State.count, hmpass, hcount]
    rw [hremoved] at ho
    have hmcount : (m.countRemoval id).Tracked cfg (pass.ii + 1) (pass.removalCount + 1) :=
      hm.congr rfl rfl (.refl _) (.refl _) (State.count_passQueue m fun _ => rfl)
    obtain ⟨hall, hkept⟩ := hmcount.cut hmk 0
    obtain ⟨reserved, rfl⟩ := State.removeEntries_eq ho
    rw [← Except.ok.inj hcut]
    refine State.Kept.of_all hall hkept rfl (fun _ => .refl _) rfl (.refl _) fun tpass htpass => ?_
    simp only [State.count, State.cutQueue, State.setQueue, State.countRemoval, hmpass, Nat.succ_ne_zero, if_false,
      Option.map_some, Option.some.injEq] at htpass
    rw [← htpass]

theorem State.endPass_kept (hs : s.Kept cfg) (h : s.endPass cfg = .ok t) : t.Kept cfg := by
  rw [State.endPass] at h
  cases hpass : s.pass with
  | none =>
      rw [hpass] at h
      cases h
  | some pass =>
      rw [hpass] at h
      dsimp only at h
      split at h
      · cases h
      · obtain ⟨m, hm, h⟩ := Execution.bind_eq_ok.mp h
        have hk := State.passQueue_of_pass hpass
        have htracked := hs.tracked
        rw [hpass] at htracked
        obtain ⟨hcut, hall⟩ := htracked.cut hk 0
        have hreordered := State.finishPass_reordered hm
        rw [← Except.ok.inj h]
        exact State.Kept.of_all hcut hall hreordered.reqBuffer hreordered.queue hreordered.reqBufferFreeList
          (.of_eq hreordered.ramulatorIds) nofun

/-- A response of Ramulator comes to the fill queue of the L1. -/
theorem State.Tracked.fromRamulator (h : s.Tracked cfg next removed) (hpass : s.pass = none)
    (hids : s.ramulatorIds.Perm (id :: t.ramulatorIds)) (hreqs : t.reqBuffer = (s.setReq id req).reqBuffer)
    (hqueues : t.queue = (s.insertEntry .l1fill id priority).queue)
    (hfree : t.reqBufferFreeList = s.reqBufferFreeList) (htpass : t.pass = none) (hpriority : priority.type < 15)
    (hstate : req.state = .fillL1) (hqueue : req.queue = some .l1fill) (htype : req.type = (s.reqBuffer id).type)
    (hlow : req.priority = (s.reqBuffer id).priority) :
    t.Tracked cfg next removed := by
  have hmem : id ∈ s.ramulatorIds := hids.mem_iff.mpr List.mem_cons_self
  have hnew := h.memNew hmem
  have hlive : (s.reqBuffer id).state ≠ .inv := by simp [hnew]
  have hsound := h.sound id
  have hself : t.reqBuffer id = req := by rw [hreqs, State.setReq_self]
  have hother {id' : ℕ} (hne : id' ≠ id) : t.reqBuffer id' = s.reqBuffer id' := by rw [hreqs, State.setReq_other hne]
  have hread : (s.reqBuffer id).type.isWb = false := by
    have hwaits := hsound.waits
    rw [MemReq.Waits] at hwaits
    rwa [hnew] at hwaits
  have hreq : req.Sound := by
    refine ⟨?_, fun _ => ?_⟩
    · rw [MemReq.Waits]
      rw [hstate, htype]
      exact ⟨hqueue, hread⟩
    · rw [hlow]
      exact hsound.low hlive
  have hmarks : (s.insertEntry .l1fill id priority).Marks next removed := State.Marks.insertEntry h.marks hpriority
  have hpassQueue : t.passQueue = (s.insertEntry .l1fill id priority).passQueue := by
    rw [State.insertEntry_passQueue]
    unfold State.passQueue
    rw [htpass, hpass]
  have hids' (k : QueueId) : (s.insertEntry .l1fill id priority).keptIds k =
      if k = .l1fill then s.keptIds .l1fill ++ [id] else s.keptIds k := State.insertEntry_keptIds hpriority k
  have hkept (k : QueueId) : t.keptIds k = (s.insertEntry .l1fill id priority).keptIds k := by
    unfold State.keptIds
    rw [hqueues]
  refine ⟨h.places.move (i := id) (p := .ramulator) (q := .queue .l1fill) (by simp) hids ?_ (fun r hram hl1fill => ?_) ?_
    fun j hj => State.place_eq (hother hj), fun id' => ?_, fun id' => ?_, hmarks.congr hqueues hpassQueue⟩
  · change (t.keptIds .l1fill).Perm (id :: s.keptIds .l1fill)
    rw [hkept, hids', if_pos rfl]
    exact List.perm_append_comm
  · cases r with
    | free => exact .of_eq hfree
    | ramulator => exact (hram rfl).elim
    | queue k =>
        change (t.keptIds k).Perm (s.keptIds k)
        rw [hkept, hids', if_neg fun heq => hl1fill (congrArg Place.queue heq)]
  · rw [State.place, MemReq.place]
    rw [hself, hstate, hqueue]
    rfl
  · by_cases hid : id' = id
    · rw [hid, hself]
      exact hreq
    · rw [hother hid]
      exact h.sound id'
  · by_cases hid : id' = id
    · rw [hid]
      exact fun _ => h.bound id hlive
    · rw [hother hid]
      exact h.bound id'

theorem State.tryCompletingRequest_kept (hs : s.Kept cfg) (hpass : s.pass = none)
    (h : s.tryCompletingRequest cfg = .ok t) : t.Kept cfg := by
  rw [State.tryCompletingRequest] at h
  cases hresps : s.respQueue with
  | nil =>
      rw [hresps] at h
      exact Except.ok.inj h ▸ hs
  | cons resp resps =>
      rw [hresps] at h
      dsimp only at h
      split at h
      · obtain ⟨m, hm, h⟩ := Execution.bind_eq_ok.mp h
        obtain ⟨priority', l1fillSeqNum, hpriority, rfl⟩ := State.memCompleteBusInAccess_eq hm
        have hids : s.ramulatorIds.Perm (resp.2 :: (s.inflightReadReqs.flatMap Prod.snd ++ resps.map Prod.snd)) := by
          rw [State.ramulatorIds]
          rw [hresps, List.map_cons]
          exact List.perm_middle
        have hnew := hs.tracked.memNew (hids.mem_iff.mpr List.mem_cons_self)
        have hlow : priority'.type < 15 := by
          rcases hpriority with hlt | rfl | rfl
          · exact hlt
          · decide
          · exact (hs.tracked.sound resp.2).low (by simp [hnew])
        have htracked := hs.tracked
        rw [hpass] at htracked
        have htpass : t.pass = none := by
          rw [← Except.ok.inj h]
          simp [State.insertEntry, State.setQueue, State.setReq, hpass]
        have ht : t.Tracked cfg 0 0 := by
          obtain rfl := Except.ok.inj h
          exact htracked.fromRamulator hpass hids rfl rfl rfl htpass hlow rfl rfl rfl rfl
        exact ⟨by rw [htpass]; exact ht, ht.fills (ht.marks.kept .l1fill (State.passQueue_ne_of_none htpass .l1fill))⟩
      · exact Except.ok.inj h ▸ hs

theorem State.enqueueResponse_queue {physAddr : Addr} (h : s.enqueueResponse physAddr = .ok t) :
    t.queue = s.queue ∧ t.pass = s.pass := by
  rw [State.enqueueResponse] at h
  split at h
  · cases h
  · rw [← Except.ok.inj h]
    exact ⟨rfl, rfl⟩

theorem State.between_kept {event : Event} (hs : s.Kept cfg) (hpass : s.pass = none)
    (h : s.between cfg event = .ok t) : t.Kept cfg := by
  have htracked := hs.tracked
  rw [hpass] at htracked
  have hsame {u : State} (hreqs : u.reqBuffer = s.reqBuffer) (hqueue : ∀ k, (u.queue k).Perm (s.queue k))
      (hfree : u.reqBufferFreeList = s.reqBufferFreeList) (hram : u.ramulatorIds.Perm s.ramulatorIds)
      (hupass : ∀ pass, u.pass = some pass → pass.removalCount = 0) : u.Kept cfg :=
    State.Kept.of_all htracked (hs.all hpass) hreqs hqueue hfree hram hupass
  have hnone {pass : Pass} (hsome : s.pass = some pass) : pass.removalCount = 0 := nomatch hpass.symm.trans hsome
  cases event with
  | tickL1 => exact Except.ok.inj h ▸ hsame rfl (fun _ => .refl _) rfl (.refl _) fun _ => hnone
  | tickCore => exact Except.ok.inj h ▸ hsame rfl (fun _ => .refl _) rfl (.refl _) fun _ => hnone
  | tickSim => exact Except.ok.inj h ▸ hsame rfl (fun _ => .refl _) rfl (.refl _) fun _ => hnone
  | begin k =>
      refine Except.ok.inj h ▸ hsame rfl (fun _ => .refl _) rfl (.refl _) fun pass hsome => ?_
      rw [← Option.some.inj hsome]
  | updateMemoryQueues =>
      have hrefl : State.Reordered s s := ⟨rfl, fun _ => .refl _, rfl, rfl⟩
      rw [← Except.ok.inj h]
      rw [State.updateMemoryQueues]
      dsimp only
      split
      · split
        · exact hsame rfl ((hrefl.sortQueue .l1).sortQueue .mlc).queue rfl (.refl _) fun _ => hnone
        · exact hsame rfl (hrefl.sortQueue .l1).queue rfl (.refl _) fun _ => hnone
      · split
        · exact hsame rfl (hrefl.sortQueue .mlc).queue rfl (.refl _) fun _ => hnone
        · exact hs
  | newMemReq args =>
      obtain ⟨hlegal, h⟩ := Execution.ite_error_eq_ok.mp h
      obtain ⟨⟨taken, m⟩, hm, rfl⟩ := Execution.map_eq_ok.mp h
      have hquiet : QuietRun cfg False s m := State.newMemReq_quiet hlegal hpass hm
      obtain ⟨ht, hfills⟩ := hquiet.tracked not_false htracked hs.fills
      have hmpass : m.pass = none := hquiet.pass.mpr hpass
      exact ⟨by rw [hmpass]; exact ht, hfills⟩
  | enqueueResponse physAddr =>
      have hleft := State.enqueueResponse_same h
      obtain ⟨hqueue, htpass⟩ := State.enqueueResponse_queue h
      refine hsame hleft.reqBuffer (fun k => ?_) hleft.reqBufferFreeList hleft.ramulatorIds fun pass hsome => hnone ?_
      · rw [hqueue]
      · exact htpass ▸ hsome
  | tryCompletingRequest => exact State.tryCompletingRequest_kept hs hpass h
  | entry env => cases h
  | finish => cases h

/-- The step of the machine is careful. -/
def State.CarefulAt (cfg : Config) (s : State) : Event → Prop
  | .entry env => s.Careful cfg env
  | _ => True

theorem State.step_kept {event : Event} (hcareful : s.CarefulAt cfg event) (hs : s.Kept cfg) (h : s.step cfg event = .ok t) : t.Kept cfg := by
  have hbetween (hb : (if s.pass.isNone then s.between cfg event else .error "within a loop") = .ok t) : t.Kept cfg := by
    split at hb
    · next hnone => exact State.between_kept hs (Option.isNone_iff_eq_none.mp hnone) hb
    · cases hb
  cases event with
  | entry env => exact State.nextEntry_kept hcareful hs h
  | finish => exact State.endPass_kept hs h
  | tickL1 => exact hbetween h
  | tickCore => exact hbetween h
  | tickSim => exact hbetween h
  | newMemReq => exact hbetween h
  | updateMemoryQueues => exact hbetween h
  | enqueueResponse => exact hbetween h
  | tryCompletingRequest => exact hbetween h
  | begin => exact hbetween h

theorem Config.Tracks.carefulAt (hcfg : cfg.Tracks) (s : State) (event : Event) : s.CarefulAt cfg event := by
  cases event with
  | entry env => exact hcfg.careful env s
  | _ => trivial

theorem State.fresh_kept (cfg : Config) (rands : ℕ → ℕ) : (State.fresh cfg rands).Kept cfg := by
  refine ⟨⟨⟨fun p => ?_, fun p id => ?_⟩, fun _ => .of_inv rfl, fun _ hlive => absurd rfl hlive, nofun, nofun, nofun⟩, nofun⟩
  · cases p with
    | free => exact List.nodup_range
    | ramulator => exact .nil
    | queue k => exact .nil
  · cases p with
    | free =>
        change id ∈ List.range cfg.totalMemReqBuffers ↔ (if id < cfg.totalMemReqBuffers then some Place.free else none) = some .free
        rw [List.mem_range]
        simp
    | ramulator =>
        refine iff_of_false nofun ?_
        change ¬ (if id < cfg.totalMemReqBuffers then some Place.free else none) = some .ramulator
        split <;> simp
    | queue k =>
        refine iff_of_false nofun ?_
        change ¬ (if id < cfg.totalMemReqBuffers then some Place.free else none) = some (.queue k)
        split <;> simp

/-! ## The counts -/

/-- The request buffers that are counted are those that are not on the free list. -/
structure State.Counted (cfg : Config) (s : State) : Prop where
  total : s.reqCount + s.reqBufferFreeList.length = cfg.totalMemReqBuffers
  cores : ∑ procId ∈ Finset.range cfg.numCores, s.numReqBuffersPerCore procId = s.reqCount
  owned : ∀ id, (s.reqBuffer id).state ≠ .inv → (s.reqBuffer id).procId < cfg.numCores
  here : ∀ id, (s.reqBuffer id).state ≠ .busNew

/-- What a step does to the counts. -/
inductive State.Recounts (cfg : Config) (s t : State) : Prop where
  | same (hcount : t.reqCount = s.reqCount) (hcores : t.numReqBuffersPerCore = s.numReqBuffersPerCore)
      (hfree : t.reqBufferFreeList.length = s.reqBufferFreeList.length)
  | taken {procId : ℕ} (hcore : procId < cfg.numCores) (hcount : t.reqCount = s.reqCount + 1)
      (hcores : t.numReqBuffersPerCore = fun procId' =>
        if procId' = procId then s.numReqBuffersPerCore procId' + 1 else s.numReqBuffersPerCore procId')
      (hfree : t.reqBufferFreeList.length + 1 = s.reqBufferFreeList.length)
  | freed {procId : ℕ} (hcore : procId < cfg.numCores) (hpos : s.numReqBuffersPerCore procId ≠ 0) (hne : s.reqCount ≠ 0)
      (hcount : t.reqCount = s.reqCount - 1)
      (hcores : t.numReqBuffersPerCore = fun procId' =>
        if procId' = procId then s.numReqBuffersPerCore procId' - 1 else s.numReqBuffersPerCore procId')
      (hfree : t.reqBufferFreeList.length = s.reqBufferFreeList.length + 1)

theorem sum_range_bump {n i : ℕ} (hi : i < n) (f : ℕ → ℕ) :
    ∑ j ∈ Finset.range n, (if j = i then f j + 1 else f j) = ∑ j ∈ Finset.range n, f j + 1 := by
  have hsplit (j : ℕ) : (if j = i then f j + 1 else f j) = f j + if j = i then 1 else 0 := by split <;> rfl
  simp only [hsplit, Finset.sum_add_distrib, Finset.sum_ite_eq', Finset.mem_range, hi, if_true]

theorem State.Counted.recounts (hs : s.Counted cfg) (h : s.Recounts cfg t)
    (howned : ∀ id, (t.reqBuffer id).state ≠ .inv → (t.reqBuffer id).procId < cfg.numCores)
    (hhere : ∀ id, (t.reqBuffer id).state ≠ .busNew) : t.Counted cfg := by
  obtain ⟨htotal, hcores, -, -⟩ := hs
  cases h with
  | same hcount hcores' hfree => exact ⟨by omega, by rw [hcores', hcores, hcount], howned, hhere⟩
  | taken hcore hcount hcores' hfree =>
      refine ⟨by omega, ?_, howned, hhere⟩
      rw [hcores', sum_range_bump hcore, hcores, hcount]
  | @freed procId hcore hpos hne hcount hcores' hfree =>
      refine ⟨by omega, ?_, howned, hhere⟩
      have hback (p : ℕ) : s.numReqBuffersPerCore p =
          if p = procId then t.numReqBuffersPerCore p + 1 else t.numReqBuffersPerCore p := by
        rw [hcores']
        dsimp only
        by_cases hp : p = procId
        · subst hp
          rw [if_pos rfl, if_pos rfl]
          omega
        · rw [if_neg hp, if_neg hp]
      have hsum := sum_range_bump hcore t.numReqBuffersPerCore
      rw [← Finset.sum_congr rfl fun p _ => hback p, hcores] at hsum
      omega

theorem Quiet.recounts (h : Quiet cfg overtakes s t) : s.Recounts cfg t := by
  cases h with
  | fresh id free k ops req priority calls hfree hinv hpass hstarts =>
      exact .taken hstarts.procId rfl rfl (congrArg List.length hfree).symm
  | writtenBack id free req hfree =>
      refine .same rfl rfl ?_
      rw [hfree]
      simp
  | _ => exact .same rfl rfl rfl

/-- A request buffer that is not in use stays so, or is taken for a new request. -/
theorem Quiet.of_inv (h : Quiet cfg overtakes s t) (hinv : (s.reqBuffer id).state = .inv) :
    (t.reqBuffer id).state = .inv ∨
      ((t.reqBuffer id).state = .mlcNew ∨ (t.reqBuffer id).state = .l1New) ∧ (t.reqBuffer id).procId < cfg.numCores := by
  cases h with
  | note id' =>
      refine .inl (State.setReq_inv ?_ id hinv)
      exact fun hold => hold
  | deliver id' =>
      refine .inl (State.setReq_inv ?_ id hinv)
      exact fun hold => hold
  | start id' state rdyCycle hstart =>
      refine .inl (State.setReq_inv (fun hold => ?_) id hinv)
      rw [hold] at hstart
      simp at hstart
  | join id' ops req _ _ hjoins => exact .inl (State.setReq_inv (fun hold => hjoins.state.trans hold) id hinv)
  | reserve id' ops req _ _ hjoins => exact .inl (State.setReq_inv (fun hold => hjoins.state.trans hold) id hinv)
  | writtenBack id' free req _ _ hstate => exact .inl (State.setReq_inv (fun _ => hstate) id hinv)
  | fresh id' free k ops req priority calls _ _ _ hstarts =>
      by_cases hid : id = id'
      · subst hid
        have hself : (s.setReq id req).reqBuffer id = req := s.setReq_self id req
        refine .inr ⟨?_, ?_⟩
        · rcases hstarts.place with ⟨-, hstate⟩ | ⟨-, hstate⟩
          · exact .inl ((congrArg MemReq.state hself).trans hstate)
          · exact .inr ((congrArg MemReq.state hself).trans hstate)
        · exact (congrArg MemReq.procId hself).symm ▸ hstarts.procId
      · have hother : (s.setReq id' req).reqBuffer id = s.reqBuffer id := State.setReq_other hid
        exact .inl ((congrArg MemReq.state hother).trans hinv)
  | _ => exact .inl hinv

theorem Quiet.counted (h : Quiet cfg overtakes s t) (hs : s.Counted cfg) : t.Counted cfg := by
  refine hs.recounts h.recounts (fun id hlive => ?_) fun id => ?_
  · by_cases hinv : (s.reqBuffer id).state = .inv
    · rcases h.of_inv hinv with hstill | ⟨-, hcore⟩
      · exact absurd hstill hlive
      · exact hcore
    · rw [(h.follows hinv).procId]
      exact hs.owned id hinv
  · by_cases hinv : (s.reqBuffer id).state = .inv
    · rcases h.of_inv hinv with hstate | ⟨hstate | hstate, -⟩ <;> simp [hstate]
    · have hhere := hs.here id
      rcases (h.follows hinv).state with hstate | ⟨-, hstate⟩ | ⟨-, hstate⟩ <;> simp [hstate, hhere]

theorem QuietRun.counted (h : QuietRun cfg overtakes s t) (hs : s.Counted cfg) : t.Counted cfg := by
  induction h with
  | refl => exact hs
  | tail _ hmove ih => exact hmove.counted ih

theorem State.setReq_freeReq_cores (s : State) (id : ℕ) (req : MemReq) :
    ((s.setReq id req).freeReq id).numReqBuffersPerCore = fun procId =>
      if procId = req.procId then s.numReqBuffersPerCore procId - 1 else s.numReqBuffersPerCore procId := by
  rw [State.freeReq]
  rw [State.setReq_self]
  rfl

/-- The core of a request stays, and no request is lost. -/
theorem Progress.stays (hcfg : cfg.Tracks) (h : Progress cfg env base k id ii s done t) :
    (t.reqBuffer id).procId = (s.reqBuffer id).procId ∧ (t.reqBuffer id).state ≠ .busNew := by
  have hreserved (u : State) : ((u.reserve cfg id).reqBuffer id).procId = (u.reqBuffer id).procId ∧
      ((u.reserve cfg id).reqBuffer id).state = (u.reqBuffer id).state := by
    obtain ⟨n, -, heq⟩ := State.reserve_eq u cfg id
    rw [heq, State.setReq_self]
    exact ⟨rfl, rfl⟩
  have htrained (u : State) : (u.trainMiss cfg id).reqBuffer = u.reqBuffer := by rw [State.trainMiss_eq]
  cases h with
  | toFill out state rdyCycle back priority h =>
      refine ⟨by simp, ?_⟩
      cases h <;> simp
  | toL1 => exact ⟨by simp, by simp⟩
  | reviveL1 _ _ _ _ _ hthrough => cases hcfg.mlcThrough.symm.trans hthrough
  | release => exact ⟨by simp [State.freeReq_self], by simp [State.freeReq_self]⟩
  | fill =>
      refine ⟨by simp, ?_⟩
      rw [State.setReq_self]
      dsimp only
      split <;> exact nofun
  | filled => exact ⟨by simp, by simp⟩
  | fillWb => exact ⟨by simp [State.freeReq_self], by simp [State.freeReq_self]⟩
  | lost _ _ _ _ hthrough => cases hcfg.l1Through.symm.trans hthrough
  | fillLost _ _ _ _ _ _ _ hthrough => cases hcfg.l1Through.symm.trans hthrough
  | fillOver _ _ _ _ _ _ _ _ hthrough => cases hcfg.l1Through.symm.trans hthrough
  | revive _ _ _ _ _ _ _ _ hthrough => cases hcfg.l1Through.symm.trans hthrough
  | handOver _ _ _ _ hon => cases hcfg.latency.symm.trans hon
  | send inflightReadReqs =>
      rw [htrained, (hreserved _).1, (hreserved _).2]
      exact ⟨by simp, by simp⟩
  | reject _ _ _ hstate =>
      rw [htrained, (hreserved _).1, (hreserved _).2, hstate]
      exact ⟨rfl, nofun⟩

theorem Progress.recounts (hcfg : cfg.Tracks) (h : Progress cfg env base k id ii s done t) (hs : s.Counted cfg) :
    s.Recounts cfg t := by
  have hcore := hs.owned id h.busy.1
  have hkeeps (u : State) : ((u.reserve cfg id).trainMiss cfg id).reqCount = u.reqCount ∧
      ((u.reserve cfg id).trainMiss cfg id).numReqBuffersPerCore = u.numReqBuffersPerCore ∧
        ((u.reserve cfg id).trainMiss cfg id).reqBufferFreeList = u.reqBufferFreeList := by
    obtain ⟨n, -, heq⟩ := State.reserve_eq u cfg id
    rw [State.trainMiss_eq, heq]
    exact ⟨rfl, rfl, rfl⟩
  cases h with
  | toFill => exact .same rfl rfl rfl
  | toL1 => exact .same rfl rfl rfl
  | reviveL1 _ _ _ _ _ hthrough => cases hcfg.mlcThrough.symm.trans hthrough
  | release rdyCycle back h hback hpos hne =>
      exact .freed hcore hpos hne rfl (State.setReq_freeReq_cores s id _) (List.length_append ..)
  | fill => exact .same rfl rfl rfl
  | filled => exact .same rfl rfl rfl
  | fillWb c way rdyCycle hk hmiss hquiet hwb hc hback hpos hne =>
      exact .freed hcore hpos hne rfl (State.setReq_freeReq_cores _ id _) (List.length_append ..)
  | lost _ _ _ _ hthrough => cases hcfg.l1Through.symm.trans hthrough
  | fillLost _ _ _ _ _ _ _ hthrough => cases hcfg.l1Through.symm.trans hthrough
  | fillOver _ _ _ _ _ _ _ _ hthrough => cases hcfg.l1Through.symm.trans hthrough
  | revive _ _ _ _ _ _ _ _ hthrough => cases hcfg.l1Through.symm.trans hthrough
  | handOver _ _ _ _ hon => cases hcfg.latency.symm.trans hon
  | send inflightReadReqs =>
      obtain ⟨hcount, hcores, hfree⟩ := hkeeps ({ s.setReq id { s.reqBuffer id with state := .memNew, queue := none } with
        inflightReadReqs }.markEntry k ii)
      exact .same hcount hcores (congrArg List.length hfree)
  | reject =>
      obtain ⟨hcount, hcores, hfree⟩ := hkeeps s
      exact .same hcount hcores (congrArg List.length hfree)

theorem Progress.counted (hcfg : cfg.Tracks) (h : Progress cfg env base k id ii s done t) (hs : s.Counted cfg) :
    t.Counted cfg := by
  obtain ⟨hproc, hhere⟩ := h.stays hcfg
  obtain ⟨m, heq, htouches⟩ := h.touches
  have hother {id' : ℕ} (hne : id' ≠ id) : t.reqBuffer id' = s.reqBuffer id' := by
    rw [← htouches.others id' hne]
    rcases heq with rfl | ⟨rfl, -⟩
    · rfl
    · rw [State.trainMiss_eq]
  refine hs.recounts (h.recounts hcfg hs) (fun id' hlive => ?_) fun id' => ?_
  · by_cases hid : id' = id
    · rw [hid, hproc]
      exact hs.owned id h.busy.1
    · rw [hother hid] at hlive ⊢
      exact hs.owned id' hlive
  · by_cases hid : id' = id
    · rw [hid]
      exact hhere
    · rw [hother hid]
      exact hs.here id'

theorem State.Same.counted (h : s.Same t) (hs : s.Counted cfg) : t.Counted cfg := by
  refine hs.recounts (.same h.reqCount h.numReqBuffersPerCore (congrArg List.length h.reqBufferFreeList)) ?_ ?_
  · rw [h.reqBuffer]
    exact hs.owned
  · rw [h.reqBuffer]
    exact hs.here

theorem State.Does.counted (hcfg : cfg.Tracks) {event : Event} (h : s.Does cfg event t) (hout : s.Outstanding)
    (hs : s.Counted cfg) : t.Counted cfg := by
  cases h with
  | same hsame => exact hsame.counted hs
  | quiet hquiet => exact hquiet.counted hs
  | entry _ _ _ hstep hsame =>
      refine hsame.counted ?_
      cases hstep with
      | quiet hquiet => exact hquiet.counted hs
      | @progress m n _ _ hquiet hprogress hrest =>
          have hrun : QuietRun cfg True n _ := hrest.quiet
          exact hrun.counted (hprogress.counted hcfg (hquiet.counted hs))
  | @fills id rdyCycle hids hsame =>
      have hnew := hout.state id (hids.mem_iff.mpr List.mem_cons_self)
      have hset : (s.setReq id { s.reqBuffer id with state := .fillL1, rdyCycle, queue := some .l1fill }).Counted cfg := by
        refine hs.recounts (.same rfl rfl rfl) (fun id' hlive => ?_) fun id' => ?_
        · by_cases hid : id' = id
          · rw [hid, State.setReq_self]
            exact hs.owned id (by simp [hnew])
          · rw [State.setReq_other hid] at hlive ⊢
            exact hs.owned id' hlive
        · by_cases hid : id' = id
          · rw [hid, State.setReq_self]
            exact nofun
          · rw [State.setReq_other hid]
            exact hs.here id'
      have ht := hsame.counted hset
      exact ⟨ht.total, ht.cores, ht.owned, ht.here⟩

theorem State.fresh_counted (cfg : Config) (rands : ℕ → ℕ) : (State.fresh cfg rands).Counted cfg := by
  refine ⟨?_, ?_, fun _ hlive => absurd rfl hlive, fun _ => nofun⟩
  · simp [State.fresh]
  · simp [State.fresh]

/-! ## Runs -/

/-- A request in use is somewhere. -/
theorem MemReq.Sound.place_isSome (h : req.Sound) (place : Place) (hhere : req.state ≠ .busNew) :
    ∃ p, req.place (some place) = some p := by
  have hwaits := h.waits
  rw [MemReq.Waits] at hwaits
  rw [MemReq.place]
  cases hstate : req.state <;> simp [hstate] at hwaits hhere ⊢ <;> grind

/-- Every request buffer is in one place, and there once: on the free list and `MRS_INV`, in an entry of the queue that it
names and that keeps the entry, or in Ramulator. -/
theorem buffers_in_one_place (hcfg : cfg.Tracks) (hreach : Reachable cfg s) :
    (∀ id < cfg.totalMemReqBuffers, ∃! p, id ∈ s.held p) ∧ (∀ p, (s.held p).Nodup ∧ ∀ id ∈ s.held p, id < cfg.totalMemReqBuffers) ∧
      (∀ id ∈ s.reqBufferFreeList, (s.reqBuffer id).state = .inv) ∧
      (∀ id ∈ s.ramulatorIds, (s.reqBuffer id).state = .memNew) ∧
      (∀ k, ∀ id ∈ s.keptIds k, (s.reqBuffer id).state ≠ .inv ∧ (s.reqBuffer id).queue = some k) ∧
      (s.pass = none → ∀ k, s.keptIds k = (s.queue k).map QueueEntry.reqbuf) ∧
      s.reqCount + s.reqBufferFreeList.length = cfg.totalMemReqBuffers ∧
      ∑ procId ∈ Finset.range cfg.numCores, s.numReqBuffersPerCore procId = s.reqCount := by
  obtain ⟨rands, events, hrun⟩ := hreach
  obtain ⟨hs, hout, hcounted⟩ := Execution.run_invariant (I := fun m => m.Kept cfg ∧ m.Outstanding ∧ m.Counted cfg)
    (fun m event n hm hstep => ⟨State.step_kept (hcfg.carefulAt m event) hm.1 hstep, (State.step_does hstep).outstanding hm.2.1,
      (State.step_does hstep).counted hcfg hm.2.1 hm.2.2⟩)
    ⟨State.fresh_kept cfg rands, State.fresh_outstanding cfg rands, State.fresh_counted cfg rands⟩ hrun
  have hplaces := hs.tracked.places
  have hbound {id : ℕ} {p : Place} (hid : id ∈ s.held p) : id < cfg.totalMemReqBuffers := by
    by_cases hinv : (s.reqBuffer id).state = .inv
    · have hplace := (hplaces.mem p id).mp hid
      rw [State.place, MemReq.place] at hplace
      rw [hinv] at hplace
      by_contra hge
      simp [hge] at hplace
    · exact hs.tracked.bound id hinv
  refine ⟨fun id hid => ?_, fun p => ⟨hplaces.nodup p, fun id hid => hbound hid⟩, fun id hid => ?_,
    fun id hid => hout.state id hid, fun k id hid => (hs.tracked.queue_eq hid).symm, fun hpass k => ?_, hcounted.total,
    hcounted.cores⟩
  · obtain ⟨p, hp⟩ := (hs.tracked.sound id).place_isSome .free (hcounted.here id)
    have hplace : s.place cfg id = some p := by
      rw [State.place]
      rw [if_pos hid, hp]
    refine ⟨p, (hplaces.mem p id).mpr hplace, fun q hq => ?_⟩
    exact hplaces.eq_of_mem hq ((hplaces.mem p id).mpr hplace)
  · have hplace : s.place cfg id = some .free := (hplaces.mem .free id).mp hid
    rw [State.place, MemReq.place] at hplace
    cases hstate : (s.reqBuffer id).state <;> simp [hstate] at hplace ⊢
  · rw [State.keptIds]
    rw [List.filter_eq_self.mpr (hs.all hpass k)]

/-- A load that waits for Ramulator. -/
theorem buffers_in_one_place_joined : ∃ s, run .small (.fresh .small fun _ => 0) joinedEvents = .ok s ∧
    s.ramulatorIds = [0] ∧ s.reqBufferFreeList.length = 7 ∧ (∃! p, 0 ∈ s.held p) ∧ s.reqCount = 1 := by
  obtain ⟨s, hs, hkept⟩ := Execution.map_eq_ok.mp (show (fun s : State => (s.ramulatorIds, s.reqBufferFreeList.length)) <$>
    run .small (.fresh .small fun _ => 0) joinedEvents = .ok ([0], 7) by decide +kernel)
  obtain ⟨hids, hfree⟩ := Prod.mk.inj hkept
  obtain ⟨honce, -, -, -, -, -, htotal, -⟩ := buffers_in_one_place ⟨rfl, rfl, rfl, rfl⟩ ⟨_, _, hs⟩
  have height : s.reqCount + s.reqBufferFreeList.length = 8 := htotal
  exact ⟨s, hs, hids, hfree, honce 0 (by decide), by omega⟩

end Scarab.Memory
