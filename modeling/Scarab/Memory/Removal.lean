import Scarab.Memory.Conservation

/-! # What the loops cut off

At its end a loop cuts off the entries of the requests that completed in it, and no others, as long
as every step is careful. -/

namespace Scarab.Memory

variable {cfg : Config} {env : Env} {base s t m : State} {id ii next removed : ℕ} {k : QueueId} {priority : Priority}
  {done : Bool} {pass : Pass} {began : List ℕ}

/-! ## The body of a loop -/

/-- The requests of the entries that are to be removed. -/
def State.markedIds (s : State) (k : QueueId) : List ℕ :=
  ((s.queue k).filter fun entry => !entry.isKept).map QueueEntry.reqbuf

/-- What went into the queue of a loop, and what completed in it. -/
def Pass.ledger (pass : Pass) : QueueId × List ℕ × List ℕ := (pass.queue, pass.inserted, pass.completed)

theorem State.insertEntry_pass_other {out : QueueId} (hk : s.passQueue = some k) (hne : out ≠ k) :
    (s.insertEntry out id priority).pass = s.pass := by
  obtain ⟨pass, hpass, rfl⟩ := Option.map_eq_some_iff.mp hk
  change s.pass.map _ = s.pass
  rw [hpass, Option.map_some, if_neg hne.symm]

theorem State.count_ledger (s : State) {f : Pass → Pass} (hf : ∀ pass, (f pass).ledger = pass.ledger) :
    (s.count f).pass.map Pass.ledger = s.pass.map Pass.ledger := by
  unfold State.count
  rw [Option.map_map]
  exact congrArg (s.pass.map ·) (funext hf)

theorem State.reserve_ledger (cfg : Config) (id : ℕ) (s : State) :
    (s.reserve cfg id).queue = s.queue ∧ (s.reserve cfg id).pass.map Pass.ledger = s.pass.map Pass.ledger := by
  obtain ⟨n, -, heq⟩ := State.reserve_eq s cfg id
  rw [heq]
  exact ⟨rfl, State.count_ledger s fun _ => rfl⟩

theorem State.trainMiss_ledger (s : State) :
    (s.trainMiss cfg id).queue = s.queue ∧ (s.trainMiss cfg id).pass = s.pass := by
  rw [State.trainMiss_eq]
  exact ⟨rfl, rfl⟩

/-- The entry of a request that completes is marked, and no other of the queue. -/
theorem Progress.marks (hcareful : base.Careful cfg env) (h : Progress cfg env base k id ii s done t)
    (hk : s.passQueue = some k) :
    t.queue k = (if done then (s.markEntry k ii).queue k else s.queue k) ∧
      t.pass.map Pass.ledger = s.pass.map Pass.ledger := by
  cases h with
  | toFill out state rdyCycle back priority h =>
      have hne : out ≠ k := by cases h <;> simp
      rw [State.insertEntry_markEntry hne, if_pos rfl, State.insertEntry_queue, if_neg hne.symm]
      exact ⟨rfl, congrArg (Option.map Pass.ledger) (State.insertEntry_pass_other hk hne)⟩
  | toL1 rdyCycle reserves priority hk' =>
      have hne : QueueId.l1 ≠ k := by simp [hk']
      refine ⟨?_, Eq.trans (State.count_ledger _ ?_) (congrArg (Option.map Pass.ledger) (State.insertEntry_pass_other
        (s := (s.setReq id _).markEntry k ii) hk hne))⟩
      · rw [if_pos rfl]
        exact (State.insertEntry_queue ((s.setReq id _).markEntry k ii) .l1 id priority k).trans (if_neg hne.symm)
      · exact fun _ => rfl
  | reviveL1 _ _ _ _ _ _ _ _ hbase => exact (hcareful.revives id hbase).elim
  | fillOver _ _ _ _ _ hmiss _ hwb hthrough hconstant =>
      exact (hcareful.handsOver ⟨hconstant, id, .inr ⟨hmiss, hwb, hthrough⟩⟩).elim
  | revive _ _ _ _ _ hmiss _ hwb hthrough hconstant =>
      exact (hcareful.handsOver ⟨hconstant, id, .inr ⟨hmiss, hwb, hthrough⟩⟩).elim
  | handOver _ _ _ hsend hon => exact (hcareful.handsOver ⟨hon, id, .inl hsend⟩).elim
  | send inflightReadReqs =>
      obtain ⟨hqueue, hledger⟩ := State.reserve_ledger cfg id
        ({ s.setReq id { s.reqBuffer id with state := .memNew, queue := none } with inflightReadReqs }.markEntry k ii)
      rw [(State.trainMiss_ledger _).1, (State.trainMiss_ledger _).2, hqueue, hledger, if_pos rfl]
      exact ⟨rfl, rfl⟩
  | reject =>
      obtain ⟨hqueue, hledger⟩ := State.reserve_ledger cfg id s
      rw [(State.trainMiss_ledger _).1, (State.trainMiss_ledger _).2, hqueue, hledger]
      exact ⟨rfl, rfl⟩
  | _ => exact ⟨rfl, rfl⟩

theorem State.markEntry_markedIds (h : s.EntryAt k ii id) (hkept : ∀ entry ∈ (s.queue k).drop ii, entry.isKept = true) :
    ((s.markEntry k ii).markedIds k).Perm (id :: s.markedIds k) := by
  obtain ⟨before, after, priority, hlength, hold, hnew⟩ := State.markEntry_split h
  have hentry : QueueEntry.isKept ⟨id, priority⟩ = true := by
    refine hkept _ ?_
    rw [hold, ← hlength, List.drop_left]
    exact List.mem_cons_self
  unfold State.markedIds
  rw [hold, hnew, List.filter_append, List.filter_append, List.filter_cons_of_pos (by simp [QueueEntry.isKept, Priority.min]),
    List.filter_cons_of_neg (by simp [hentry]), List.map_append, List.map_cons, List.map_append]
  exact List.perm_middle

theorem State.Adds.ids (h : s.Adds pass t) : ∃ new : List ℕ, t.keptIds pass.queue = s.keptIds pass.queue ++ new ∧
    t.markedIds pass.queue = s.markedIds pass.queue ∧ t.pass = some { pass with inserted := pass.inserted ++ new } := by
  obtain ⟨new, hqueue, hnew, hpass⟩ := h
  have hnone : (new.filter fun entry => !entry.isKept) = [] := by
    rw [List.filter_eq_nil_iff]
    intro entry hentry
    simp [hnew entry hentry]
  refine ⟨new.map QueueEntry.reqbuf, ?_, ?_, hpass⟩
  · unfold State.keptIds
    rw [hqueue, List.filter_append, List.map_append, List.filter_eq_self.mpr hnew]
  · unfold State.markedIds
    rw [hqueue, List.filter_append, hnone, List.append_nil]

/-- The body of a loop takes the request that completes from those that are kept. -/
theorem EntryStep.settles (hcareful : base.Careful cfg env) (h : EntryStep cfg env base pass.queue id ii s done t)
    (hs : s.Tracked cfg ii removed) (hfills : s.Fills) (hpass : s.pass = some pass) (hentry : s.EntryAt pass.queue ii id) :
    ∃ new : List ℕ, (t.keptIds pass.queue ++ completedIn done id).Perm (s.keptIds pass.queue ++ new) ∧
      (t.markedIds pass.queue).Perm (s.markedIds pass.queue ++ completedIn done id) ∧
        t.pass.map Pass.ledger = some (pass.queue, pass.inserted ++ new, pass.completed) := by
  have hk := State.passQueue_of_pass hpass
  cases h with
  | quiet hquiet =>
      obtain ⟨new, hkept, hmarked, htpass⟩ := (hquiet.adds hcareful.overtakes hs hfills hpass).ids
      refine ⟨new, ?_, ?_, ?_⟩
      · rw [hkept, completedIn, if_neg Bool.false_ne_true, List.append_nil]
      · rw [hmarked, completedIn, if_neg Bool.false_ne_true, List.append_nil]
      · rw [htpass, Option.map_some, Pass.ledger]
  | @progress m n _ _ hquiet hprogress hrest =>
      have hadds := hquiet.adds hcareful.overtakes hs hfills hpass
      obtain ⟨new, hkept, hmarked, hmpass⟩ := hadds.ids
      obtain ⟨hm, -⟩ := hquiet.tracked hcareful.overtakes hs hfills
      have hmk : m.passQueue = some pass.queue := hquiet.passQueue_eq.trans hk
      obtain ⟨hqueue, hledger⟩ := hprogress.marks hcareful hmk
      obtain ⟨-, hsame, -, -, hnpass⟩ := hrest.same
      have htpass : t.pass.map Pass.ledger = some (pass.queue, pass.inserted ++ new, pass.completed) := by
        rw [hnpass, hledger, hmpass, Option.map_some, Pass.ledger]
      have htqueue : t.queue pass.queue = if done then (m.markEntry pass.queue ii).queue pass.queue else m.queue pass.queue := by
        rw [hsame, hqueue]
      cases done with
      | false =>
          refine ⟨new, ?_, ?_, htpass⟩
          · rw [← hkept, completedIn, if_neg Bool.false_ne_true, List.append_nil]
            unfold State.keptIds
            rw [htqueue]
            exact .refl _
          · rw [← hmarked, completedIn, if_neg Bool.false_ne_true, List.append_nil]
            unfold State.markedIds
            rw [htqueue]
            exact .refl _
      | true =>
          have hahead := hm.marks.ahead pass.queue hmk
          have htkept : t.keptIds pass.queue = (m.markEntry pass.queue ii).keptIds pass.queue := by
            unfold State.keptIds
            rw [htqueue, if_pos rfl]
          have htmarked : t.markedIds pass.queue = (m.markEntry pass.queue ii).markedIds pass.queue := by
            unfold State.markedIds
            rw [htqueue, if_pos rfl]
          refine ⟨new, ?_, ?_, htpass⟩
          · rw [← hkept, htkept, completedIn, if_pos rfl]
            exact (List.perm_append_singleton id _).trans (State.markEntry_keptIds (hentry.adds hadds) hahead).symm
          · rw [← hmarked, htmarked, completedIn, if_pos rfl]
            exact (State.markEntry_markedIds (hentry.adds hadds) hahead).trans (List.perm_append_singleton id _).symm

/-! ## Loops -/

/-- What is left of the queue of a loop, and what is to be removed. Only from the fill queue of the L1
are entries removed before the end of its loop. -/
structure State.Balanced (s : State) (pass : Pass) (began : List ℕ) : Prop where
  kept : (s.keptIds pass.queue ++ pass.completed).Perm (began ++ pass.inserted)
  marked : ∃ gone, (s.markedIds pass.queue ++ gone).Perm pass.completed ∧ (pass.queue ≠ .l1fill → gone = [])

theorem State.nextEntry_balanced (hcareful : s.Careful cfg env) (hs : s.Kept cfg) (hpass : s.pass = some pass)
    (hbalanced : s.Balanced pass began) (h : s.nextEntry cfg env = .ok t) :
    ∃ pass', t.pass = some pass' ∧ pass'.queue = pass.queue ∧ t.Balanced pass' began := by
  obtain ⟨pass₀, id, done, m, n, hpass₀, hentry, hstep, hn, rfl⟩ := State.nextEntry_step h
  obtain rfl : pass₀ = pass := Option.some.inj (hpass₀.symm.trans hpass)
  have hk := State.passQueue_of_pass hpass
  have htracked := hs.tracked
  rw [hpass] at htracked
  obtain ⟨hm, hloop, -⟩ := hstep.tracked hcareful htracked hs.fills hk hentry
  obtain ⟨new, hkept, hmarked, hledger⟩ := hstep.settles hcareful htracked hs.fills hpass hentry
  obtain ⟨mpass, hmpass, heq⟩ := Option.map_eq_some_iff.mp hledger
  have hqueue : mpass.queue = pass₀.queue := congrArg Prod.fst heq
  have hinserted : mpass.inserted = pass₀.inserted ++ new := congrArg (fun ledger => ledger.2.1) heq
  have hcompleted : mpass.completed = pass₀.completed := congrArg (fun ledger => ledger.2.2) heq
  obtain ⟨gone, hgone, hnone⟩ := hbalanced.marked
  have hids := hbalanced.kept
  -- with the request that was completed
  have hkept' : (m.keptIds pass₀.queue ++ (pass₀.completed ++ completedIn done id)).Perm (began ++ (pass₀.inserted ++ new)) := by
    rw [List.perm_iff_count] at hkept hids ⊢
    intro a
    have hkepta := hkept a
    have hidsa := hids a
    simp only [List.count_append] at hkepta hidsa ⊢
    omega
  have hmarked' : (m.markedIds pass₀.queue ++ gone).Perm (pass₀.completed ++ completedIn done id) := by
    rw [List.perm_iff_count] at hmarked hgone ⊢
    intro a
    have hmarkeda := hmarked a
    have hgonea := hgone a
    simp only [List.count_append] at hmarkeda hgonea ⊢
    omega
  rcases hn with ⟨rfl, -⟩ | ⟨hfill, rfl, hcut⟩
  · have hsame := (State.countIf_same m done id).queue
    refine ⟨_, State.countIf_pass done id hmpass, hqueue, ?_, gone, ?_, fun hne => hnone (by rwa [← hqueue])⟩
    · unfold State.keptIds
      rw [hqueue, hinserted, hcompleted, hsame]
      exact hkept'
    · unfold State.markedIds
      rw [hqueue, hcompleted, hsame]
      exact hmarked'
  · -- the marked entries of the fill queue of the L1 are cut off at once
    obtain ⟨o, ho, hcut⟩ := Execution.bind_eq_ok.mp hcut
    have hremoval : mpass.removalCount = pass₀.removalCount := by
      unfold State.loopAt at hloop
      rw [hmpass, hpass] at hloop
      exact congrArg (fun loop => loop.2.2) (Option.some.inj hloop)
    have hremoved : ((m.countRemoval id).pass.map Pass.removalCount).getD 0 = pass₀.removalCount + 1 := by
      simp [State.countRemoval, State.count, hmpass, hremoval]
    have hmk : m.passQueue = some .l1fill := by rw [State.passQueue_of_pass hmpass, hqueue, hfill]
    have hcutqueue : (m.cutQueue .l1fill (pass₀.removalCount + 1)).queue .l1fill =
        (sortEntries (m.queue .l1fill)).filter QueueEntry.isKept := State.cutQueue_queue (hm.marks.removed .l1fill hmk)
    rw [hremoved] at ho
    obtain ⟨reserved, rfl⟩ := State.removeEntries_eq ho
    rw [if_neg (Nat.succ_ne_zero _)] at hcut
    rw [← Except.ok.inj hcut]
    rw [hfill] at hkept' hmarked'
    refine ⟨{ mpass with
      ii := mpass.ii + 1
      removalCount := 0
      completed := mpass.completed ++ [id] }, ?_, hqueue, ?_, mpass.completed ++ [id], ?_, fun hne => ?_⟩
    · simp [State.countRemoval, State.count, State.cutQueue, State.setQueue, hmpass]
    · rw [hqueue, hfill, hinserted, hcompleted]
      refine List.Perm.trans (List.Perm.append_right _ ?_) hkept'
      change (((m.cutQueue .l1fill (pass₀.removalCount + 1)).queue .l1fill).filter QueueEntry.isKept).map
        QueueEntry.reqbuf |>.Perm (m.keptIds .l1fill)
      rw [hcutqueue, List.filter_filter]
      simp only [Bool.and_self]
      exact ((sortEntries_perm _).filter _).map _
    · rw [hqueue, hfill]
      change (((m.cutQueue .l1fill (pass₀.removalCount + 1)).queue .l1fill).filter fun entry => !entry.isKept).map
        QueueEntry.reqbuf ++ (mpass.completed ++ [id]) |>.Perm (mpass.completed ++ [id])
      rw [hcutqueue, List.filter_filter]
      simp
    · exact absurd (hqueue.trans hfill) hne

theorem State.entries_balanced {envs : List Env} (hs : s.Kept cfg) (hpass : s.pass = some pass)
    (hbalanced : s.Balanced pass began) (h : run cfg s (envs.map .entry) = .ok t)
    (hcareful : Execution.Along (State.step cfg) (State.CarefulAt cfg) s (envs.map .entry)) :
    t.Kept cfg ∧ ∃ pass', t.pass = some pass' ∧ pass'.queue = pass.queue ∧ t.Balanced pass' began := by
  induction envs generalizing s pass with
  | nil =>
      obtain rfl : s = t := Except.ok.inj h
      exact ⟨hs, pass, hpass, rfl, hbalanced⟩
  | cons env envs ih =>
      obtain ⟨m, hm, ht⟩ := Execution.run_cons_eq_ok.mp h
      obtain ⟨hfirst, hrest⟩ := (Execution.along_cons hm).mp hcareful
      obtain ⟨mpass, hmpass, hqueue, hmbalanced⟩ := State.nextEntry_balanced hfirst hs hpass hbalanced hm
      obtain ⟨htkept, pass', hpass', hqueue', htbalanced⟩ := ih (State.nextEntry_kept hfirst hs hm) hmpass hmbalanced ht hrest
      exact ⟨htkept, pass', hpass', hqueue'.trans hqueue, htbalanced⟩

/-- At the end of a loop what is left of the queues are the entries that are not marked. -/
theorem State.endPass_queue (hs : s.Kept cfg) (h : s.endPass cfg = .ok t) (k : QueueId) :
    (t.queue k).Perm ((s.queue k).filter QueueEntry.isKept) := by
  unfold State.endPass at h
  cases hpass : s.pass with
  | none =>
      rw [hpass] at h
      cases h
  | some pass =>
      rw [hpass] at h
      dsimp only at h
      split at h
      · cases h
      · obtain ⟨m, hm, h⟩ := Execution.bind_eq_ok.mp h
        have hk := State.passQueue_of_pass hpass
        have htracked := hs.tracked
        rw [hpass] at htracked
        obtain ⟨-, hall⟩ := htracked.cut hk 0
        have hreordered := State.finishPass_reordered hm
        rw [← Except.ok.inj h]
        refine (hreordered.queue k).trans ?_
        unfold State.cutRemoved
        by_cases hzero : pass.removalCount = 0
        · have hkept (entry : QueueEntry) (hentry : entry ∈ s.queue k) : entry.isKept = true := by
            refine hall k entry ?_
            have hcount : (Option.map Pass.removalCount (some pass)).getD 0 = 0 := hzero
            rwa [if_pos hcount]
          rw [if_pos hzero, List.filter_eq_self.mpr hkept]
        · rw [if_neg hzero]
          by_cases hkk : k = pass.queue
          · subst hkk
            have hcut : (s.cutQueue pass.queue pass.removalCount).queue pass.queue =
                (sortEntries (s.queue pass.queue)).filter QueueEntry.isKept :=
              State.cutQueue_queue (htracked.marks.removed pass.queue hk)
            rw [hcut]
            exact (sortEntries_perm _).filter _
          · have hother : s.passQueue ≠ some k := fun heq => hkk (Option.some.inj (heq.symm.trans hk))
            have hsame : (s.cutQueue pass.queue pass.removalCount).queue k = s.queue k := if_neg hkk
            rw [hsame, List.filter_eq_self.mpr (htracked.marks.kept k hother)]

/-! ## Whole loops -/

/-- The end of a loop over a queue cuts off entries of requests that completed in the loop: all of them, but for those
that the loop over the fill queue of the L1 cut off before. Every other request that was in the queue or came into it
is in the queue as often as before. -/
structure RemovesCompleted (s m t : State) (k : QueueId) (pass : Pass) : Prop where
  loop : m.pass = some pass ∧ pass.queue = k
  cut : ∃ cut gone, (m.queue k).Perm (t.queue k ++ cut) ∧ (cut.map QueueEntry.reqbuf ++ gone).Perm pass.completed ∧
    (k ≠ .l1fill → gone = [])
  left : ((t.queue k).map QueueEntry.reqbuf ++ pass.completed).Perm ((s.queue k).map QueueEntry.reqbuf ++ pass.inserted)
  others : ∀ k', k' ≠ k → (t.queue k').Perm (m.queue k')

theorem State.begin_eq (h : s.step cfg (.begin k) = .ok t) : s.pass = none ∧ ∃ pass : Pass, t = { s with pass := some pass } ∧
    pass.queue = k ∧ pass.inserted = [] ∧ pass.completed = [] := by
  unfold State.step at h
  dsimp only at h
  split at h
  · next hnone =>
    exact ⟨Option.isNone_iff_eq_none.mp hnone, _, (Except.ok.inj h).symm, rfl, rfl, rfl⟩
  · cases h

theorem loop_removes_completed {rands : ℕ → ℕ} {before : List Event} {envs : List Env}
    (hbefore : run cfg (.fresh cfg rands) before = .ok s) (hloop : run cfg s (.begin k :: envs.map .entry) = .ok m)
    (hend : m.step cfg .finish = .ok t)
    (hcareful : Execution.Along (State.step cfg) (State.CarefulAt cfg) (.fresh cfg rands)
      (before ++ .begin k :: envs.map .entry)) :
    ∃ pass, RemovesCompleted s m t k pass := by
  obtain ⟨halong, hrest⟩ := (Execution.along_append hbefore).mp hcareful
  have hs : s.Kept cfg := Execution.run_invariant_along (fun m event n hm hevent hstep => State.step_kept hevent hm hstep)
    (State.fresh_kept cfg rands) halong hbefore
  obtain ⟨b, hb, hentries⟩ := Execution.run_cons_eq_ok.mp hloop
  obtain ⟨-, hrest⟩ := (Execution.along_cons hb).mp hrest
  have hbkept : b.Kept cfg := State.step_kept (show s.CarefulAt cfg (.begin k) from trivial) hs hb
  obtain ⟨hnone, pass, rfl, hk, hinserted, hcompleted⟩ := State.begin_eq hb
  have hall : (s.queue k).filter QueueEntry.isKept = s.queue k := List.filter_eq_self.mpr (hs.all hnone k)
  have hbegan : State.Balanced { s with pass := some pass } pass ((s.queue k).map QueueEntry.reqbuf) := by
    refine ⟨?_, [], ?_, fun _ => rfl⟩
    · rw [hk, hinserted, hcompleted, List.append_nil, List.append_nil]
      unfold State.keptIds
      rw [hall]
    · rw [hk, hcompleted, List.append_nil]
      unfold State.markedIds
      rw [List.filter_eq_nil_iff.mpr fun entry hentry => by simp [hs.all hnone k entry hentry]]
      exact .nil
  obtain ⟨hmkept, pass', hpass', hqueue, hbalanced⟩ := State.entries_balanced hbkept rfl hbegan hentries hrest
  obtain rfl : pass'.queue = k := hqueue.trans hk
  have hleft (k : QueueId) : (t.queue k).Perm ((m.queue k).filter QueueEntry.isKept) := State.endPass_queue hmkept hend k
  obtain ⟨gone, hgone, hfill⟩ := hbalanced.marked
  refine ⟨pass', ⟨hpass', rfl⟩, ⟨(m.queue pass'.queue).filter fun entry => !entry.isKept, gone, ?_, hgone, hfill⟩, ?_,
    fun k' hk' => ?_⟩
  · exact (List.filter_append_perm QueueEntry.isKept (m.queue pass'.queue)).symm.trans ((hleft pass'.queue).symm.append_right _)
  · exact (((hleft pass'.queue).map QueueEntry.reqbuf).append_right _).trans hbalanced.kept
  · have hother : m.passQueue ≠ some k' := by
      rw [State.passQueue_of_pass hpass']
      exact fun heq => hk' (Option.some.inj heq).symm
    have hkept := List.filter_eq_self.mpr (hmkept.tracked.marks.kept k' hother)
    exact hkept ▸ hleft k'

/-- A load that Ramulator takes. -/
theorem loop_removes_completed_sent : ∃ s m t pass,
    run .small (.fresh .small fun _ => 0) (loadEvent 7 :: loopEvents .l1 true true) = .ok s ∧
      run .small s (.begin .l1 :: [⟨true, true, true, none, .lru⟩].map .entry) = .ok m ∧ m.step .small .finish = .ok t ∧
        (s.queue .l1).map QueueEntry.reqbuf = [0] ∧ t.queue .l1 = [] ∧ RemovesCompleted s m t .l1 pass := by
  obtain ⟨t, ht, hleft⟩ := Execution.map_eq_ok.mp (show (fun s : State => s.queue .l1) <$> run .small (.fresh .small fun _ => 0)
    ((loadEvent 7 :: loopEvents .l1 true true) ++ ((.begin .l1 :: [⟨true, true, true, none, .lru⟩].map .entry) ++ [.finish])) =
      .ok [] by decide +kernel)
  obtain ⟨s', hs', hbegan⟩ := Execution.map_eq_ok.mp (show (fun s : State => (s.queue .l1).map QueueEntry.reqbuf) <$>
    run .small (.fresh .small fun _ => 0) (loadEvent 7 :: loopEvents .l1 true true) = .ok [0] by decide +kernel)
  obtain ⟨s, hs, ht⟩ := Execution.run_append_eq_ok.mp ht
  obtain rfl : s' = s := Except.ok.inj (hs'.symm.trans hs)
  obtain ⟨m, hm, ht⟩ := Execution.run_append_eq_ok.mp ht
  obtain ⟨t', hend, ht⟩ := Execution.run_cons_eq_ok.mp ht
  obtain rfl : t' = t := Except.ok.inj ht
  have hcareful (events : List Event) :
      Execution.Along (State.step .small) (State.CarefulAt .small) (.fresh .small fun _ => 0) events :=
    .of_forall (Config.Tracks.carefulAt ⟨rfl, rfl, rfl, rfl⟩) _ events
  obtain ⟨pass, hremoves⟩ := loop_removes_completed hs hm hend (hcareful _)
  exact ⟨s', m, t', pass, hs, hm, hend, hbegan, hleft, hremoves⟩

/-- The small system with a memory of fixed latency, where prefetches come last. -/
def Config.smallConstant : Config := { Config.small with
  constantMemoryLatency := true
  memoryCycles := 10
  memPriority := fun type => if type.isPrefetch then .last 14 else Config.small.memPriority type }

/-- A load and a prefetch. Only the load has a port of the L1 when a loop is at it. -/
def loadAndPrefetch : List Event :=
  [loadEvent 7, .newMemReq ⟨.dprf, 0, 128, 0, none, none, some ⟨1, 0, 0, .l1⟩⟩, .begin .l1,
    .entry ⟨true, true, true, none, .lru⟩, .entry ⟨false, true, true, none, .lru⟩, .finish]

/-- At `CONSTANT_MEMORY_LATENCY`, the load that missed stays in the L1 queue and the prefetch is cut off. -/
theorem constant_loop_drops_prefetch : ∃ s m t,
    run .smallConstant (.fresh .smallConstant fun _ => 0) loadAndPrefetch = .ok s ∧
      run .smallConstant s (.begin .l1 :: [⟨true, true, true, none, .lru⟩, ⟨false, true, true, none, .lru⟩].map .entry) = .ok m ∧
        m.step .smallConstant .finish = .ok t ∧ (s.queue .l1).map QueueEntry.reqbuf = [0, 1] ∧
          m.pass.map Pass.completed = some [0] ∧ (t.queue .l1).map QueueEntry.reqbuf = [0] ∧
            ∀ pass, ¬ RemovesCompleted s m t .l1 pass := by
  obtain ⟨s, hs, hbegan⟩ := Execution.map_eq_ok.mp (show (fun s : State => (s.queue .l1).map QueueEntry.reqbuf) <$>
    run .smallConstant (.fresh .smallConstant fun _ => 0) loadAndPrefetch = .ok [0, 1] by decide +kernel)
  obtain ⟨m, hm, hloop⟩ := Execution.map_eq_ok.mp (show (fun s : State => (s.pass, s.queue .l1)) <$>
    run .smallConstant (.fresh .smallConstant fun _ => 0) (loadAndPrefetch ++
      (.begin .l1 :: [⟨true, true, true, none, .lru⟩, ⟨false, true, true, none, .lru⟩].map .entry)) =
        .ok (some ⟨.l1, 2, 1, 0, 0, [], [0]⟩, [⟨0, 0, 0⟩, ⟨1, 14, 0⟩]) by decide +kernel)
  obtain ⟨hpass, hqueue⟩ := Prod.mk.inj hloop
  obtain ⟨s', hs', hm⟩ := Execution.run_append_eq_ok.mp hm
  obtain rfl : s = s' := Except.ok.inj (hs.symm.trans hs')
  -- the entries are in order
  have hsorted : sortEntries [⟨0, 0, 0⟩, ⟨1, 14, 0⟩] = [⟨0, 0, 0⟩, ⟨1, 14, 0⟩] := List.mergeSort_of_pairwise (by decide)
  have hend : m.step .smallConstant .finish = .ok { m.cutQueue .l1 1 with pass := none } := by
    unfold State.step State.endPass
    rw [hpass]
    dsimp only
    rw [hqueue]
    rfl
  have hcut : (m.cutQueue .l1 1).queue .l1 = [⟨0, 0, 0⟩] := by
    unfold State.cutQueue
    rw [State.setQueue_queue, if_pos rfl, hqueue, hsorted]
    rfl
  have hleft : (({ m.cutQueue .l1 1 with pass := none } : State).queue .l1).map QueueEntry.reqbuf = [0] :=
    congrArg (List.map QueueEntry.reqbuf) hcut
  refine ⟨s, m, _, hs, hm, hend, hbegan, ?_, hleft, fun pass hremoves => ?_⟩
  · rw [hpass, Option.map_some]
  · obtain rfl := Option.some.inj (hpass.symm.trans hremoves.loop.1)
    have hperm := hremoves.left
    rw [hleft, hbegan] at hperm
    exact absurd hperm (by decide)

end Scarab.Memory
