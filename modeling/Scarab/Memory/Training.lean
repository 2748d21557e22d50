import Scarab.Memory.Steps

/-! # What the prefetchers are told of a miss

A request that misses in the L1 is reported once when Ramulator takes it. A request that Ramulator
refuses is reported all the same, and again at each retry. -/

namespace Scarab.Memory

variable {cfg : Config} {env : Env} {base s t m : State} {id ii : ℕ} {k : QueueId} {overtakes : Prop} {done : Bool}

/-! ## The calls -/

def PrefCall.isUl1Miss : PrefCall → Bool
  | .ul1Miss .. => true
  | _ => false

def PrefCall.isUl1sent : PrefCall → Bool
  | .ul1sent .. => true
  | _ => false

/-- How often a kind of call was made for the request of a serial number. -/
def State.told (s : State) (kind : PrefCall → Bool) (serial : ℕ) : ℕ :=
  s.calls.countP fun call => call.1 = serial && kind call.2

theorem MemReq.countP_missCalls (cfg : Config) (req : MemReq) :
    ((req.missCalls cfg).countP PrefCall.isUl1Miss ≤ if cfg.prefOracleTrainOn then 0 else 1) ∧
      (req.missCalls cfg).countP PrefCall.isUl1sent ≤ 1 := by
  unfold MemReq.missCalls
  cases cfg.prefOracleTrainOn <;> cases cfg.trains req.type <;>
    cases (req.type.isPrefetch || req.demandMatchPrefetch) && req.prefetcherId != 0 <;>
      simp [PrefCall.isUl1Miss, PrefCall.isUl1sent, List.countP_cons]

/-! ## The invariant -/

/-- The prefetchers are told of every miss once: the requests in use have serial numbers of their
own, and of those that are still to miss nothing was told but by the oracle. -/
structure State.ToldOnce (cfg : Config) (s : State) : Prop where
  calls : ∀ call ∈ s.calls, call.2.isQuiet = false → call.1 < s.serials
  serials : ∀ id, (s.reqBuffer id).state ≠ .inv → (s.reqBuffer id).serial < s.serials
  distinct : ∀ id id', (s.reqBuffer id).state ≠ .inv → (s.reqBuffer id').state ≠ .inv →
    (s.reqBuffer id).serial = (s.reqBuffer id').serial → id = id'
  awaiting : ∀ id, (s.reqBuffer id).state.awaitsL1 = true →
    (cfg.prefOracleTrainOn = false → s.told PrefCall.isUl1Miss (s.reqBuffer id).serial = 0) ∧
      s.told PrefCall.isUl1sent (s.reqBuffer id).serial = 0
  miss : ∀ serial, s.told PrefCall.isUl1Miss serial ≤ 1
  sent : ∀ serial, s.told PrefCall.isUl1sent serial ≤ 1

theorem MemReqState.awaitsL1_live {state : MemReqState} (h : state.awaitsL1 = true) : state ≠ .inv := by
  rintro rfl
  cases h

theorem PrefCall.isQuiet_kinds {call : PrefCall} (h : call.isQuiet = true) :
    call.isUl1Miss = false ∧ call.isUl1sent = false := by
  cases call <;> first | exact ⟨rfl, rfl⟩ | cases h

theorem State.told_append {new : List (ℕ × PrefCall)} (hcalls : t.calls = s.calls ++ new) (kind : PrefCall → Bool)
    (serial : ℕ) : t.told kind serial = s.told kind serial + new.countP fun call => call.1 = serial && kind call.2 := by
  rw [State.told, hcalls, List.countP_append]
  rfl

/-- What was told for one request. -/
theorem countP_told (new : List PrefCall) (kind : PrefCall → Bool) (own serial : ℕ) :
    ((new.map fun call => (own, call)).countP fun call => call.1 = serial && kind call.2) =
      if own = serial then new.countP kind else 0 := by
  rw [List.countP_map]
  by_cases hown : own = serial
  · rw [if_pos hown]
    simp [Function.comp_def, hown]
  · rw [if_neg hown]
    simp [Function.comp_def, hown]

/-- Nothing was told of a request to come. -/
theorem State.ToldOnce.told_eq_zero (h : s.ToldOnce cfg) {serial : ℕ} (hserial : s.serials ≤ serial) :
    s.told PrefCall.isUl1Miss serial = 0 ∧ s.told PrefCall.isUl1sent serial = 0 := by
  have hnone (kind : PrefCall → Bool) (hkind : ∀ call, PrefCall.isQuiet call = true → kind call = false) :
      s.told kind serial = 0 := by
    apply List.countP_eq_zero.mpr
    intro call hmem
    cases hquiet : call.2.isQuiet with
    | true => simp [hkind _ hquiet]
    | false =>
        have hlt := h.calls call hmem hquiet
        have hne : call.1 ≠ serial := by omega
        simp [hne]
  exact ⟨hnone _ fun call hq => (PrefCall.isQuiet_kinds hq).1, hnone _ fun call hq => (PrefCall.isQuiet_kinds hq).2⟩

/-! ## What leaves the invariant -/

/-- A step after which no request awaits the L1 that did not before, and nothing is told of misses. -/
structure State.Settles (s t : State) : Prop where
  serials : s.serials ≤ t.serials
  calls : ∃ new, t.calls = s.calls ++ new ∧ ∀ call ∈ new, call.2.isQuiet = true
  reqs : ∀ id, (t.reqBuffer id).state ≠ .inv → (s.reqBuffer id).state ≠ .inv ∧
    (t.reqBuffer id).serial = (s.reqBuffer id).serial ∧
      ((t.reqBuffer id).state.awaitsL1 = true → (s.reqBuffer id).state.awaitsL1 = true)

theorem State.Settles.told (h : s.Settles t) (serial : ℕ) :
    t.told PrefCall.isUl1Miss serial = s.told PrefCall.isUl1Miss serial ∧
      t.told PrefCall.isUl1sent serial = s.told PrefCall.isUl1sent serial := by
  obtain ⟨new, hcalls, hquiet⟩ := h.calls
  have hnone (kind : PrefCall → Bool) (hkind : ∀ call, PrefCall.isQuiet call = true → kind call = false) :
      (new.countP fun call => call.1 = serial && kind call.2) = 0 := by
    apply List.countP_eq_zero.mpr
    intro call hmem
    simp [hkind call.2 (hquiet call hmem)]
  rw [State.told_append hcalls, State.told_append hcalls, hnone _ fun call hq => (PrefCall.isQuiet_kinds hq).1,
    hnone _ fun call hq => (PrefCall.isQuiet_kinds hq).2]
  exact ⟨rfl, rfl⟩

theorem State.ToldOnce.settles (h : s.ToldOnce cfg) (hst : s.Settles t) : t.ToldOnce cfg := by
  obtain ⟨new, hcalls, hquiet⟩ := hst.calls
  have hserials := hst.serials
  refine ⟨fun call hcall hnot => ?_, fun id hlive => ?_, fun id id' hlive hlive' heq => ?_, fun id hawaits => ?_,
    fun serial => ?_, fun serial => ?_⟩
  · rw [hcalls] at hcall
    cases List.mem_append.mp hcall with
    | inl hold =>
        have hlt := h.calls call hold hnot
        omega
    | inr hnew => cases hnot.symm.trans (hquiet call hnew)
  · have hlt := h.serials id (hst.reqs id hlive).1
    rw [(hst.reqs id hlive).2.1]
    omega
  · rw [(hst.reqs id hlive).2.1, (hst.reqs id' hlive').2.1] at heq
    exact h.distinct id id' (hst.reqs id hlive).1 (hst.reqs id' hlive').1 heq
  · obtain ⟨_, hserial, hback⟩ := hst.reqs id (MemReqState.awaitsL1_live hawaits)
    rw [(hst.told _).1, (hst.told _).2, hserial]
    exact h.awaiting id (hback hawaits)
  · rw [(hst.told serial).1]
    exact h.miss serial
  · rw [(hst.told serial).2]
    exact h.sent serial

/-- A change of a single request. -/
theorem State.settles_of_req (id : ℕ) (hserials : s.serials ≤ t.serials) (hcalls : t.calls = s.calls)
    (hothers : ∀ id', id' ≠ id → t.reqBuffer id' = s.reqBuffer id')
    (hid : (t.reqBuffer id).state ≠ .inv → (s.reqBuffer id).state ≠ .inv ∧
      (t.reqBuffer id).serial = (s.reqBuffer id).serial ∧
        ((t.reqBuffer id).state.awaitsL1 = true → (s.reqBuffer id).state.awaitsL1 = true)) : s.Settles t := by
  refine ⟨hserials, ⟨[], by rw [hcalls, List.append_nil], nofun⟩, fun id' hlive => ?_⟩
  by_cases hsame : id' = id
  · subst hsame
    exact hid hlive
  · rw [hothers id' hsame] at hlive ⊢
    exact ⟨hlive, rfl, fun h => h⟩

theorem State.settles_of_same (hserials : s.serials ≤ t.serials)
    (hcalls : ∃ new, t.calls = s.calls ++ new ∧ ∀ call ∈ new, call.2.isQuiet = true)
    (hreqs : t.reqBuffer = s.reqBuffer) : s.Settles t := by
  refine ⟨hserials, hcalls, fun id hlive => ?_⟩
  rw [hreqs] at hlive ⊢
  exact ⟨hlive, rfl, fun h => h⟩

/-- The prefetchers are told of a request that no longer awaits the L1. -/
theorem State.ToldOnce.train (h : s.ToldOnce cfg) (hlive : (s.reqBuffer id).state ≠ .inv)
    (hpast : (s.reqBuffer id).state.awaitsL1 = false)
    (hnone : (cfg.prefOracleTrainOn = false → s.told PrefCall.isUl1Miss (s.reqBuffer id).serial = 0) ∧
      s.told PrefCall.isUl1sent (s.reqBuffer id).serial = 0) : (s.trainMiss cfg id).ToldOnce cfg := by
  obtain ⟨hmiss, hsent⟩ := (s.reqBuffer id).countP_missCalls cfg
  rw [State.trainMiss_eq]
  generalize (s.reqBuffer id).missCalls cfg = new at hmiss hsent
  have htold (kind : PrefCall → Bool) (serial : ℕ) :
      { s with calls := s.calls ++ new.map fun call => ((s.reqBuffer id).serial, call) }.told kind serial =
        s.told kind serial + if (s.reqBuffer id).serial = serial then new.countP kind else 0 := by
    rw [State.told_append rfl, countP_told]
  refine ⟨fun call hcall hnot => ?_, fun id' hlive' => ?_, fun id' id'' hlive' hlive'' hsame => ?_,
    fun id' hawaits => ?_, fun serial => ?_, fun serial => ?_⟩
  · cases List.mem_append.mp hcall with
    | inl hold => exact h.calls call hold hnot
    | inr hnew =>
        obtain ⟨_, _, rfl⟩ := List.mem_map.mp hnew
        exact h.serials id hlive
  · exact h.serials id' hlive'
  · exact h.distinct id' id'' hlive' hlive'' hsame
  · have hne : (s.reqBuffer id).serial ≠ (s.reqBuffer id').serial := by
      intro hsame
      obtain rfl := h.distinct id id' hlive (MemReqState.awaitsL1_live hawaits) hsame
      cases hpast.symm.trans hawaits
    rw [htold, htold, if_neg hne, if_neg hne]
    exact h.awaiting id' hawaits
  · rw [htold]
    by_cases hsame : (s.reqBuffer id).serial = serial
    · subst hsame
      rw [if_pos rfl]
      have hold := h.miss (s.reqBuffer id).serial
      cases horacle : cfg.prefOracleTrainOn with
      | true =>
          rw [horacle, if_pos rfl] at hmiss
          omega
      | false =>
          rw [horacle, if_neg Bool.false_ne_true] at hmiss
          have hzero := hnone.1 horacle
          omega
    · rw [if_neg hsame]
      exact h.miss serial
  · rw [htold]
    by_cases hsame : (s.reqBuffer id).serial = serial
    · subst hsame
      rw [if_pos rfl]
      have hzero := hnone.2
      omega
    · rw [if_neg hsame]
      exact h.sent serial

/-! ## Quiet moves -/

/-- A new request has a serial number of its own. -/
theorem State.ToldOnce.fresh {free : List ℕ} {ops : List OpPtr} {req : MemReq} {priority : Priority}
    {calls : List PrefCall} (h : s.ToldOnce cfg) (hstarts : req.Starts cfg s id k ops)
    (hcalls : calls.all PrefCall.isQuiet = true ∨
      cfg.prefOracleTrainOn = true ∧ ∃ procId addr loadPC globalHist, calls = [.ul1Miss procId addr loadPC globalHist]) :
    State.ToldOnce cfg { ((s.takeReq free req.procId).setReq id req).insertEntry k id priority with
      reqCount := s.reqCount + 1
      serials := s.serials + 1
      calls := s.calls ++ calls.map fun call => (s.serials, call)
      accepted := s.accepted ++ ops } := by
  have hcounts : (cfg.prefOracleTrainOn = false → calls.countP PrefCall.isUl1Miss = 0) ∧
      calls.countP PrefCall.isUl1Miss ≤ 1 ∧ calls.countP PrefCall.isUl1sent = 0 := by
    cases hcalls with
    | inl hquiet =>
        have hkinds (call : PrefCall) (hmem : call ∈ calls) :=
          PrefCall.isQuiet_kinds (List.all_eq_true.mp hquiet call hmem)
        have hmiss : calls.countP PrefCall.isUl1Miss = 0 :=
          List.countP_eq_zero.mpr fun call hmem => by simp [(hkinds call hmem).1]
        have hsent : calls.countP PrefCall.isUl1sent = 0 :=
          List.countP_eq_zero.mpr fun call hmem => by simp [(hkinds call hmem).2]
        exact ⟨fun _ => hmiss, by omega, hsent⟩
    | inr htrain =>
        obtain ⟨horacle, _, _, _, _, rfl⟩ := htrain
        exact ⟨fun hoff => by simp [horacle] at hoff, Nat.le_refl 1, rfl⟩
  generalize hfresh : ({ ((s.takeReq free req.procId).setReq id req).insertEntry k id priority with
    reqCount := s.reqCount + 1
    serials := s.serials + 1
    calls := s.calls ++ calls.map fun call => (s.serials, call)
    accepted := s.accepted ++ ops } : State) = t
  have htold (kind : PrefCall → Bool) (serial : ℕ) :
      t.told kind serial = s.told kind serial + if s.serials = serial then calls.countP kind else 0 := by
    rw [← hfresh, State.told_append rfl, countP_told]
  have hself : t.reqBuffer id = req := by rw [← hfresh]; exact if_pos rfl
  have hother {id' : ℕ} (hne : id' ≠ id) : t.reqBuffer id' = s.reqBuffer id' := by rw [← hfresh]; exact if_neg hne
  have hserials : t.serials = s.serials + 1 := by rw [← hfresh]
  have hzero := h.told_eq_zero (Nat.le_refl s.serials)
  have hbelow {id' : ℕ} (hne : id' ≠ id) (hlive : (t.reqBuffer id').state ≠ .inv) :
      (t.reqBuffer id').serial < s.serials := by
    rw [hother hne] at hlive ⊢
    exact h.serials id' hlive
  refine ⟨fun call hcall hnot => ?_, fun id' hlive => ?_, fun id' id'' hlive hlive' hsame => ?_, fun id' hawaits => ?_,
    fun serial => ?_, fun serial => ?_⟩
  · rw [← hfresh] at hcall
    rw [hserials]
    cases List.mem_append.mp hcall with
    | inl hold =>
        have hlt := h.calls call hold hnot
        omega
    | inr hnew =>
        obtain ⟨_, _, rfl⟩ := List.mem_map.mp hnew
        exact Nat.lt_succ_self _
  · rw [hserials]
    by_cases hid : id' = id
    · rw [hid, hself, hstarts.serial]
      exact Nat.lt_succ_self _
    · have hlt := hbelow hid hlive
      omega
  · by_cases hid : id' = id
    · by_cases hid' : id'' = id
      · rw [hid, hid']
      · have hlt := hbelow hid' hlive'
        rw [← hsame, hid, hself, hstarts.serial] at hlt
        exact absurd hlt (Nat.lt_irrefl _)
    · by_cases hid' : id'' = id
      · have hlt := hbelow hid hlive
        rw [hsame, hid', hself, hstarts.serial] at hlt
        exact absurd hlt (Nat.lt_irrefl _)
      · rw [hother hid] at hlive hsame
        rw [hother hid'] at hlive' hsame
        exact h.distinct id' id'' hlive hlive' hsame
  · rw [htold, htold]
    by_cases hid : id' = id
    · rw [hid, hself, hstarts.serial, if_pos rfl, if_pos rfl, hzero.1, hzero.2, hcounts.2.2]
      refine ⟨fun hoff => ?_, rfl⟩
      rw [hcounts.1 hoff]
    · have hlt := hbelow hid (MemReqState.awaitsL1_live hawaits)
      rw [if_neg (Nat.ne_of_gt hlt), if_neg (Nat.ne_of_gt hlt)]
      rw [hother hid] at hawaits ⊢
      exact h.awaiting id' hawaits
  · rw [htold]
    by_cases hserial : s.serials = serial
    · rw [if_pos hserial, ← hserial, hzero.1]
      have hle := hcounts.2.1
      omega
    · rw [if_neg hserial]
      exact h.miss serial
  · rw [htold]
    by_cases hserial : s.serials = serial
    · rw [if_pos hserial, ← hserial, hzero.2, hcounts.2.2]
      exact Nat.zero_le 1
    · rw [if_neg hserial]
      exact h.sent serial

theorem Quiet.toldOnce (h : Quiet cfg overtakes s t) (hs : s.ToldOnce cfg) : t.ToldOnce cfg := by
  have hnew : ∃ new : List (ℕ × PrefCall), s.calls = s.calls ++ new ∧ ∀ call ∈ new, call.2.isQuiet = true :=
    ⟨[], by simp, nofun⟩
  cases h with
  | idle => exact hs.settles (State.settles_of_same (Nat.le_refl _) hnew rfl)
  | lines => exact hs.settles (State.settles_of_same (Nat.le_refl _) hnew rfl)
  | rerank => exact hs.settles (State.settles_of_same (Nat.le_refl _) hnew rfl)
  | call id call hquiet =>
      refine hs.settles (State.settles_of_same (Nat.le_refl _) ⟨_, rfl, fun call' hmem => ?_⟩ rfl)
      rw [List.mem_singleton.mp hmem]
      exact hquiet
  | note id =>
      refine hs.settles (State.settles_of_req id (Nat.le_refl _) rfl (fun _ => State.setReq_other) ?_)
      rw [State.setReq_self]
      exact fun hlive => ⟨hlive, rfl, fun hawaits => hawaits⟩
  | deliver id =>
      refine hs.settles (State.settles_of_req id (Nat.le_refl _) rfl (fun _ => State.setReq_other) ?_)
      unfold State.deliver
      rw [State.setReq_self]
      exact fun hlive => ⟨hlive, rfl, fun hawaits => hawaits⟩
  | start id state rdyCycle hstart =>
      refine hs.settles (State.settles_of_req id (Nat.le_refl _) rfl (fun _ => State.setReq_other) ?_)
      rw [State.setReq_self]
      refine fun _ => ⟨?_, rfl, fun _ => ?_⟩
      · cases hstart with
        | inl hmlc => simp [hmlc.1]
        | inr hl1 => simp [hl1.1]
      · cases hstart with
        | inl hmlc => simp [hmlc.1, MemReqState.awaitsL1]
        | inr hl1 => simp [hl1.1, MemReqState.awaitsL1]
  | join id ops req _ _ hjoins =>
      refine hs.settles (State.settles_of_req id (Nat.le_refl _) rfl (fun _ => State.setReq_other) ?_)
      simp only [State.setReq_self, hjoins.state]
      exact fun hlive => ⟨hlive, hjoins.serial, fun hawaits => hawaits⟩
  | reserve id ops req _ _ hjoins =>
      refine hs.settles (State.settles_of_req id (Nat.le_refl _) rfl (fun _ => State.setReq_other) ?_)
      simp only [State.setReq_self, hjoins.state]
      exact fun hlive => ⟨hlive, hjoins.serial, fun hawaits => hawaits⟩
  | writtenBack id free req _ _ hstate =>
      refine hs.settles (State.settles_of_req id (Nat.le_succ _) rfl (fun _ => State.setReq_other) ?_)
      simp only [State.setReq_self, hstate]
      exact fun hlive => absurd rfl hlive
  | fresh id free k ops req priority calls hfree hinv hpass hstarts =>
      exact hs.fresh hstarts (by assumption)

theorem QuietRun.toldOnce (h : QuietRun cfg overtakes s t) (hs : s.ToldOnce cfg) : t.ToldOnce cfg := by
  induction h with
  | refl => exact hs
  | tail _ hmove ih => exact hmove.toldOnce ih

/-! ## Progress -/

theorem State.Touches.settles (h : State.Touches id s t) (hlive : (s.reqBuffer id).state ≠ .inv) : s.Settles t :=
  State.settles_of_req id (Nat.le_of_eq h.serials.symm) h.calls h.others fun _ => ⟨hlive, h.serial, h.awaits⟩

/-- The prefetchers are told once, unless Ramulator refuses a request that they are told of. -/
theorem Progress.toldOnce (h : Progress cfg env base k id ii s done t)
    (hrejects : base.Rejects cfg env id → (base.reqBuffer id).missCalls cfg = []) (hs : s.ToldOnce cfg) :
    t.ToldOnce cfg := by
  obtain ⟨m, heq, htouches⟩ := h.touches
  have hsettles := htouches.settles h.busy.1
  have hm := hs.settles hsettles
  rcases heq with rfl | ⟨rfl, ⟨-, hstate, hlive, hpast⟩ | ⟨hrej, hsame⟩⟩
  · exact hm
  · refine hm.train hlive hpast ?_
    rw [(hsettles.told _).1, (hsettles.told _).2, htouches.serial]
    exact hs.awaiting id (by rw [hstate]; rfl)
  · rw [State.trainMiss_nil (hsame.trans (hrejects hrej))]
    exact hm

/-- What an entry of a loop does. -/
theorem EntryStep.toldOnce (h : EntryStep cfg env base k id ii s done t)
    (hrejects : base.Rejects cfg env id → (base.reqBuffer id).missCalls cfg = []) (hs : s.ToldOnce cfg) :
    t.ToldOnce cfg := by
  cases h with
  | quiet hquiet => exact hquiet.toldOnce hs
  | progress hquiet hprogress hrun =>
      have hrest : QuietRun cfg True _ t := hrun.quiet
      exact hrest.toldOnce (hprogress.toldOnce hrejects (hquiet.toldOnce hs))

theorem State.Same.toldOnce (h : s.Same t) (hs : s.ToldOnce cfg) : t.ToldOnce cfg := by
  refine hs.settles (State.settles_of_same (Nat.le_of_eq h.serials.symm) ⟨[], ?_, nofun⟩ h.reqBuffer)
  rw [h.calls, List.append_nil]

/-! ## A refused request -/

/-- What quiet moves tell is of requests that they make. -/
theorem Quiet.told (h : Quiet cfg overtakes s t) {serial : ℕ} (hserial : serial < s.serials) :
    serial < t.serials ∧ t.told PrefCall.isUl1Miss serial = s.told PrefCall.isUl1Miss serial ∧
      t.told PrefCall.isUl1sent serial = s.told PrefCall.isUl1sent serial := by
  cases h with
  | call id call hquiet =>
      have hkinds := PrefCall.isQuiet_kinds hquiet
      refine ⟨hserial, ?_, ?_⟩
      · rw [State.told_append rfl]
        simp [hkinds.1]
      · rw [State.told_append rfl]
        simp [hkinds.2]
  | fresh id free k ops req priority calls =>
      have hne : s.serials ≠ serial := Nat.ne_of_gt hserial
      refine ⟨Nat.lt_succ_of_lt hserial, ?_, ?_⟩
      · rw [State.told_append rfl, countP_told, if_neg hne, Nat.add_zero]
      · rw [State.told_append rfl, countP_told, if_neg hne, Nat.add_zero]
  | writtenBack => exact ⟨Nat.lt_succ_of_lt hserial, rfl, rfl⟩
  | _ => exact ⟨hserial, rfl, rfl⟩

theorem QuietRun.told (h : QuietRun cfg overtakes s t) {serial : ℕ} (hserial : serial < s.serials) :
    serial < t.serials ∧ t.told PrefCall.isUl1Miss serial = s.told PrefCall.isUl1Miss serial ∧
      t.told PrefCall.isUl1sent serial = s.told PrefCall.isUl1sent serial := by
  induction h with
  | refl => exact ⟨hserial, rfl, rfl⟩
  | tail _ hmove ih =>
      obtain ⟨hbound, hmiss, hsent⟩ := hmove.told ih.1
      exact ⟨hbound, hmiss.trans ih.2.1, hsent.trans ih.2.2⟩

/-- Of a request that is refused, and that the prefetchers are not told of, nothing is told. -/
theorem Progress.told (h : Progress cfg env base k id ii s done t) (hrejects : base.Rejects cfg env id)
    (hnone : (base.reqBuffer id).missCalls cfg = []) : t.calls = s.calls ∧ t.serials = s.serials := by
  obtain ⟨m, heq, htouches⟩ := h.touches
  rcases heq with rfl | ⟨rfl, ⟨hnot, -⟩ | ⟨-, hsame⟩⟩
  · exact ⟨htouches.calls, htouches.serials⟩
  · exact absurd hrejects hnot
  · rw [State.trainMiss_nil (hsame.trans hnone)]
    exact ⟨htouches.calls, htouches.serials⟩

theorem EntryStep.told (h : EntryStep cfg env base k id ii s done t) (hrejects : base.Rejects cfg env id)
    (hnone : (base.reqBuffer id).missCalls cfg = []) {serial : ℕ} (hserial : serial < s.serials) :
    t.told PrefCall.isUl1Miss serial = s.told PrefCall.isUl1Miss serial ∧
      t.told PrefCall.isUl1sent serial = s.told PrefCall.isUl1sent serial := by
  cases h with
  | quiet hquiet => exact (hquiet.told hserial).2
  | @progress m n _ _ hquiet hprogress hrun =>
      obtain ⟨hm, hmiss, hsent⟩ := hquiet.told hserial
      obtain ⟨hcalls, hserials⟩ := hprogress.told hrejects hnone
      have hrest : QuietRun cfg True n t := hrun.quiet
      obtain ⟨-, hmiss', hsent'⟩ := hrest.told (hserials ▸ hm)
      have hn (kind : PrefCall → Bool) : n.told kind serial = m.told kind serial := by
        unfold State.told
        rw [hcalls]
      exact ⟨hmiss'.trans ((hn _).trans hmiss), hsent'.trans ((hn _).trans hsent)⟩

/-! ## Runs -/

/-- A request that Ramulator refuses is none that the prefetchers are told of. -/
def State.RefusesUntold (cfg : Config) (s : State) : Event → Prop
  | .entry env => ∀ pass id, s.pass = some pass → s.EntryAt pass.queue pass.ii id → s.Rejects cfg env id →
      (s.reqBuffer id).missCalls cfg = []
  | _ => True

theorem State.Does.toldOnce {event : Event} (h : s.Does cfg event t) (hevent : s.RefusesUntold cfg event)
    (hs : s.ToldOnce cfg) (hout : s.Outstanding) : t.ToldOnce cfg := by
  cases h with
  | same hsame => exact hsame.toldOnce hs
  | quiet hquiet => exact hquiet.toldOnce hs
  | entry hof hpass hentry hstep hsame =>
      subst hof
      exact hsame.toldOnce (hstep.toldOnce (hevent _ _ hpass hentry) hs)
  | @fills id rdyCycle hids hsame =>
      have hnew := hout.state id (hids.mem_iff.mpr List.mem_cons_self)
      have hset : (s.setReq id { s.reqBuffer id with state := .fillL1, rdyCycle, queue := some .l1fill }).ToldOnce cfg := by
        refine hs.settles (State.settles_of_req id (Nat.le_refl _) rfl (fun _ => State.setReq_other) fun _ => ?_)
        simp [hnew, MemReqState.awaitsL1]
      have ht := hsame.toldOnce hset
      exact ⟨ht.calls, ht.serials, ht.distinct, ht.awaiting, ht.miss, ht.sent⟩

theorem State.step_toldOnce {event : Event} (hs : s.ToldOnce cfg ∧ s.Outstanding) (hevent : s.RefusesUntold cfg event)
    (h : s.step cfg event = .ok t) : t.ToldOnce cfg ∧ t.Outstanding :=
  ⟨(State.step_does h).toldOnce hevent hs.1 hs.2, (State.step_does h).outstanding hs.2⟩

theorem State.fresh_toldOnce (cfg : Config) (rands : ℕ → ℕ) :
    (State.fresh cfg rands).ToldOnce cfg ∧ (State.fresh cfg rands).Outstanding :=
  ⟨⟨nofun, fun _ hlive => absurd rfl hlive, fun _ _ hlive => absurd rfl hlive, fun _ hawaits => (nomatch hawaits),
    fun _ => Nat.zero_le 1, fun _ => Nat.zero_le 1⟩, State.fresh_outstanding cfg rands⟩

/-- The step for a request that is refused, and that the prefetchers are not told of. -/
theorem State.refused_told {pass : Pass} (hpass : s.pass = some pass) (hentry : s.EntryAt pass.queue pass.ii id)
    (hrejects : s.Rejects cfg env id) (hnone : (s.reqBuffer id).missCalls cfg = []) (h : s.nextEntry cfg env = .ok t)
    {serial : ℕ} (hserial : serial < s.serials) :
    t.told PrefCall.isUl1Miss serial = s.told PrefCall.isUl1Miss serial ∧
      t.told PrefCall.isUl1sent serial = s.told PrefCall.isUl1sent serial := by
  obtain ⟨pass', id', done, m, n, hpass', hentry', hstep, hn, rfl⟩ := State.nextEntry_step h
  obtain rfl : pass = pass' := Option.some.inj (hpass.symm.trans hpass')
  obtain rfl : id = id' := Option.some.inj (hentry.symm.trans hentry')
  have htold := hstep.told hrejects hnone hserial
  rcases hn with ⟨rfl, -⟩ | ⟨hfill, -⟩
  · cases done <;> exact htold
  · obtain ⟨pass', hpass', hl1, -⟩ := hrejects.loop
    obtain rfl : pass = pass' := Option.some.inj (hpass.symm.trans hpass')
    cases hl1.symm.trans hfill

/-- As long as Ramulator refuses no request that the prefetchers are told of, they are told of every miss and of
every prefetch at most once, and nothing when a request is refused. -/
theorem misses_told_once {rands : ℕ → ℕ} {events : List Event} (h : run cfg (.fresh cfg rands) events = .ok s)
    (hrefused : Execution.Along (State.step cfg) (State.RefusesUntold cfg) (.fresh cfg rands) events) :
    (∀ serial, s.told PrefCall.isUl1Miss serial ≤ 1 ∧ s.told PrefCall.isUl1sent serial ≤ 1) ∧
      ∀ pass id env t, s.pass = some pass → s.EntryAt pass.queue pass.ii id → s.Rejects cfg env id →
        s.RefusesUntold cfg (.entry env) → s.step cfg (.entry env) = .ok t → ∀ serial, serial < s.serials →
          t.told PrefCall.isUl1Miss serial = s.told PrefCall.isUl1Miss serial ∧
            t.told PrefCall.isUl1sent serial = s.told PrefCall.isUl1sent serial := by
  obtain ⟨htold, -⟩ := Execution.run_invariant_along (fun s event t => State.step_toldOnce)
    (State.fresh_toldOnce cfg rands) hrefused h
  refine ⟨fun serial => ⟨htold.miss serial, htold.sent serial⟩, ?_⟩
  intro pass id env t hpass hentry hrejects huntold hstep serial hserial
  exact State.refused_told hpass hentry hrejects (huntold pass id hpass hentry hrejects) hstep hserial

/-- A demand miss and an answer of Ramulator. -/
def missEvents (answers : List Bool) : List Event :=
  .newMemReq ⟨.dfetch, 0, 64, 0, none, none, none⟩ :: (true :: answers).flatMap fun sent =>
    [.begin .l1, .entry ⟨true, sent, true, none, .lru⟩, .finish]

/-- A demand miss that Ramulator takes at once. -/
theorem misses_told_once_taken : ∃ s, run .small (.fresh .small fun _ => 0) (missEvents [true]) = .ok s ∧
    s.ramulatorIds = [0] ∧ s.told PrefCall.isUl1Miss 0 = 1 ∧
      ∀ serial, s.told PrefCall.isUl1Miss serial ≤ 1 ∧ s.told PrefCall.isUl1sent serial ≤ 1 := by
  obtain ⟨s, hrun, hs⟩ := Execution.map_eq_ok.mp (show
    (fun s : State => (s.ramulatorIds, s.told PrefCall.isUl1Miss 0)) <$>
      run .small (.fresh .small fun _ => 0) (missEvents [true]) = .ok ([0], 1) by decide +kernel)
  obtain ⟨hids, htold⟩ := Prod.mk.inj hs
  have htaken : Execution.Along (State.step .small) (fun _ event => (match event with
      | .entry env => env.sent
      | _ => true) = true) (.fresh .small fun _ => 0) (missEvents [true]) := by decide +kernel
  have hrefused : Execution.Along (State.step .small) (State.RefusesUntold .small) (.fresh .small fun _ => 0)
      (missEvents [true]) := htaken.mono fun s event hsent => by
    cases event with
    | entry env =>
        intro pass id _ _ hrejects
        cases hrejects.full.symm.trans hsent
    | _ => trivial
  exact ⟨s, hrun, hids, htold, (misses_told_once hrun hrefused).1⟩

/-- A demand miss that Ramulator takes at the second attempt. -/
theorem misses_told_twice : ¬ ∀ (cfg : Config) (rands : ℕ → ℕ) (events : List Event) (s : State),
    run cfg (.fresh cfg rands) events = .ok s →
      ∀ serial, s.told PrefCall.isUl1Miss serial ≤ 1 ∧ s.told PrefCall.isUl1sent serial ≤ 1 := by
  intro h
  obtain ⟨s, hrun, htold⟩ := Execution.map_eq_ok.mp (show
    (fun s : State => s.told PrefCall.isUl1Miss 0) <$>
      run .small (.fresh .small fun _ => 0) (missEvents [false, true]) = .ok 2 by decide +kernel)
  have hle := (h .small (fun _ => 0) _ s hrun 0).1
  omega

end Scarab.Memory
