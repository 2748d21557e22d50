import Scarab.Core.Node.Window

/-! # Removing scheduled and flushed ops

Three loops unlink ops from the ready list or from the node table while they walk it. Each of
them changes the ops it has gone through by themselves, and takes some out of their stations. -/

namespace Scarab.Node

open Linked (Chain Links)

variable {cfg : Config} {s t u : State} {nl rl rest done : List OpPtr} {p q : OpPtr} {op : Op}
  {change : Op → Op} {leaves : Op → Bool} {tail : List OpPtr → Option OpPtr}

/-- The loop comes to an op once. -/
theorem not_mem_of_split {l : List OpPtr} (hnodup : l.Nodup) (hl : done ++ p :: rest = l) : p ∉ done := by
  intro hp
  rw [← hl] at hnodup
  exact (List.nodup_append.mp hnodup).2.2 p hp p (by simp) rfl

/-- What a loop has done when it has gone through some ops: it changed each of them, took those
that leave out of their stations, and set the tail. -/
structure Swept (change : Op → Op) (leaves : Op → Bool) (tail : List OpPtr → Option OpPtr) (s : State)
    (done : List OpPtr) (t : State) : Prop where
  ops : ∀ p, t.ops p = if p ∈ done then change (s.ops p) else s.ops p
  counts : ∀ rsId, t.rsOpCount rsId +
    done.countP (fun p => leaves (s.ops p) && (s.ops p).rsId == rsId) = s.rsOpCount rsId
  tail : t.nodeTail = tail done
  frame : t = { s with ops := t.ops, rsOpCount := t.rsOpCount, nodeTail := t.nodeTail }

theorem Swept.refl (htail : s.nodeTail = tail []) : Swept change leaves tail s [] s :=
  ⟨fun p => by simp, fun rsId => by simp, htail, rfl⟩

/-- The loop comes to the next op. -/
theorem Swept.concat (h : Swept change leaves tail s done t) (hp : p ∉ done)
    (hops : u.ops = (t.setOp p (change (t.ops p))).ops)
    (hcounts : ∀ rsId, u.rsOpCount rsId +
      (leaves (t.ops p) && (t.ops p).rsId == rsId).toNat = t.rsOpCount rsId)
    (htail : u.nodeTail = tail (done ++ [p]))
    (hframe : u = { t with ops := u.ops, rsOpCount := u.rsOpCount, nodeTail := u.nodeTail }) :
    Swept change leaves tail s (done ++ [p]) u := by
  have hsame : t.ops p = s.ops p := by rw [h.ops, if_neg hp]
  refine ⟨fun q => ?_, fun rsId => ?_, htail, ?_⟩
  · rw [hops]
    by_cases hq : q = p
    · subst hq
      rw [State.setOp_ops_self, if_pos (by simp), hsame]
    · rw [State.setOp_ops_ne t _ hq, h.ops]
      simp [hq]
  · have hnow := hcounts rsId
    rw [hsame] at hnow
    rw [List.countP_append, ← h.counts rsId, ← hnow, List.countP_singleton]
    cases leaves (s.ops p) && (s.ops p).rsId == rsId with
    | true =>
        simp only [Bool.toNat_true, if_true]
        omega
    | false => simp
  · rw [hframe, h.frame]

/-- An op gives its place back. -/
theorem leaveRs_eq (h : s.leaveRs p = .ok t) :
    t = { s with rsOpCount := t.rsOpCount } ∧
      ∀ rsId, t.rsOpCount rsId + ((s.ops p).rsId == rsId).toNat = s.rsOpCount rsId := by
  obtain ⟨hpos, h⟩ := Execution.ite_error_eq_ok.mp h
  cases h
  refine ⟨rfl, fun rsId => ?_⟩
  by_cases hrs : rsId = (s.ops p).rsId
  · subst hrs
    simp
    omega
  · simp [Function.update_of_ne hrs, Ne.symm hrs]

/-- The place can be given back as long as the ops that give theirs back are counted. -/
theorem Swept.leaveRs_ok (h : Swept change leaves tail s done t) {l : List OpPtr} (hl : done ++ p :: rest = l)
    (hroom : ∀ rsId, l.countP (fun p => leaves (s.ops p) && (s.ops p).rsId == rsId) ≤ s.rsOpCount rsId)
    (hleaves : leaves (s.ops p) = true) (hcount : u.rsOpCount = t.rsOpCount)
    (hrs : (u.ops p).rsId = (s.ops p).rsId) : ∃ v, u.leaveRs p = .ok v := by
  have hpos : 0 < u.rsOpCount (u.ops p).rsId := by
    have hmany := hroom (s.ops p).rsId
    have hdone := h.counts (s.ops p).rsId
    rw [← hl, List.countP_append, List.countP_cons_of_pos (by simp [hleaves])] at hmany
    rw [hcount, hrs]
    omega
  exact ⟨_, Execution.ite_error_eq_ok.mpr ⟨hpos, rfl⟩⟩

/-- Two conditions that share out the ops. -/
theorem countP_add {l : List OpPtr} {f g k : OpPtr → Bool}
    (h : ∀ p ∈ l, (f p).toNat = (g p).toNat + (k p).toNat) : l.countP f = l.countP g + l.countP k := by
  induction l with
  | nil => rfl
  | cons p l ih =>
      have hrest := ih fun q hq => h q (by simp [hq])
      have hp := h p (by simp)
      simp only [List.countP_cons]
      cases hf : f p <;> cases hg : g p <;> cases hk : k p <;> simp_all <;> omega

/-- Counting on the ready list is counting in the node table. -/
theorem ReadyList.countP (h : ReadyList s nl rl) (hnodup : nl.Nodup) (f : OpPtr → Bool) :
    rl.countP f = nl.countP fun p => f p && (s.ops p).inRdyList := by
  have hperm : rl.Perm (nl.filter fun p => (s.ops p).inRdyList) :=
    (List.perm_ext_iff_of_nodup h.nodup (hnodup.filter _)).mpr fun p => by
      rw [h.mem_iff, List.mem_filter]
  rw [hperm.countP_eq, List.countP_filter]

/-! ## Scheduled ops -/

/-- What `node_handle_scheduled_ops` does to an op. -/
def Op.handled (op : Op) : Op :=
  if op.isScheduled = true then { op with inRdyList := false, occupies := false } else op

@[simp] theorem Op.handled_state : op.handled.state = op.state := by
  unfold Op.handled
  split <;> rfl

theorem Op.handled_of_scheduled (h : op.isScheduled = true) :
    op.handled = { op with inRdyList := false, occupies := false } := if_pos h

theorem Op.handled_of_not (h : op.isScheduled = false) : op.handled = op := if_neg (by simp [h])

theorem Swept.handle (h : Swept Op.handled Op.isScheduled (fun _ => s.nodeTail) s done t) (hp : p ∉ done)
    (hsched : (s.ops p).isScheduled = true) (hrun : t.removeScheduled p = .ok u) :
    Swept Op.handled Op.isScheduled (fun _ => s.nodeTail) s (done ++ [p]) u := by
  have hsame : t.ops p = s.ops p := by rw [h.ops, if_neg hp]
  obtain ⟨hframe, hcounts⟩ := leaveRs_eq hrun
  refine h.concat hp ?_ (fun rsId => ?_) ?_ ?_
  · rw [hframe, hsame, Op.handled_of_scheduled hsched]
  · rw [hsame, hsched, Bool.true_and, ← hsame]
    have hcount := hcounts rsId
    rw [State.setOp_ops_self] at hcount
    exact hcount
  · rw [hframe]
    exact h.tail
  · rw [hframe]
    rfl

/-- What the loop over the ready list does. -/
theorem handle_sweep (hnodup : rl.Nodup) {left : List OpPtr}
    (h : Linked.sweep (fun s p => (s.ops p).isScheduled) State.removeScheduled (fun s _ => .ok s) rl s =
      .ok (left, t)) :
    left = rl.filter (fun p => !(s.ops p).isScheduled) ∧ Swept Op.handled Op.isScheduled (fun _ => s.nodeTail) s rl t := by
  refine Linked.sweep_spec (fun p => (s.ops p).isScheduled) (Swept Op.handled Op.isScheduled (fun _ => s.nodeTail) s)
    (fun done p rest m hm hl => ?_) (fun done p rest m n hm hl hp hn => ?_)
    (fun done p rest m n hm hl hp hn => ?_) (.refl rfl) rfl h
  · show (m.ops p).isScheduled = (s.ops p).isScheduled
    rw [hm.ops, if_neg (not_mem_of_split hnodup hl)]
  · exact hm.handle (not_mem_of_split hnodup hl) hp hn
  · cases hn
    have hsame : m.ops p = s.ops p := by rw [hm.ops, if_neg (not_mem_of_split hnodup hl)]
    refine hm.concat (not_mem_of_split hnodup hl) ?_ (fun rsId => ?_) hm.tail rfl
    · rw [hsame, Op.handled_of_not hp, ← hsame]
      simp [State.setOp]
    · simp [hsame, hp]

/-- The loop over the ready list comes to its end. -/
theorem handle_sweep_ok (hnodup : rl.Nodup) (hroom : ∀ rsId,
      rl.countP (fun p => (s.ops p).isScheduled && (s.ops p).rsId == rsId) ≤ s.rsOpCount rsId) :
    ∃ out, Linked.sweep (fun s p => (s.ops p).isScheduled) State.removeScheduled (fun s _ => .ok s) rl s =
      .ok out := by
  refine Linked.sweep_ok _ _ _ (Swept Op.handled Op.isScheduled (fun _ => s.nodeTail) s) s
    (fun done p rest m hm hl hp => ?_) (fun done p rest m hm hl hp => ?_) (.refl rfl) rfl
  · have hsame : m.ops p = s.ops p := by rw [hm.ops, if_neg (not_mem_of_split hnodup hl)]
    rw [hsame] at hp
    obtain ⟨n, hn⟩ := hm.leaveRs_ok (u := m.setOp p { m.ops p with inRdyList := false, occupies := false })
      hl hroom hp rfl (by simp [hsame])
    exact ⟨n, hn, hm.handle (not_mem_of_split hnodup hl) hp hn⟩
  · have hsame : m.ops p = s.ops p := by rw [hm.ops, if_neg (not_mem_of_split hnodup hl)]
    rw [hsame] at hp
    refine ⟨m, rfl, hm.concat (not_mem_of_split hnodup hl) ?_ (fun rsId => ?_) hm.tail rfl⟩
    · rw [hsame, Op.handled_of_not hp, ← hsame]
      simp [State.setOp]
    · simp [hsame, hp]

/-- Between two cycles, no op that the other stages have scheduled is in its station. -/
theorem Op.Consistent.handled {stall : Bool} {phase : Phase} (h : op.Consistent stall phase) :
    op.handled.Consistent stall .idle := by
  by_cases hsched : op.isScheduled = true
  · rw [Op.handled_of_scheduled hsched]
    cases Op.isScheduled_iff.mp hsched with
    | inl hs =>
        simp only [Op.Consistent, hs] at h ⊢
        simp [h.2.1]
    | inr hs =>
        simp only [Op.Consistent, hs] at h ⊢
        simp [h.2.1]
  · have hnot : op.isScheduled = false := Bool.eq_false_iff.mpr hsched
    rw [Op.handled_of_not hnot]
    cases hstate : op.state <;> simp_all [Op.Consistent, Op.isScheduled]

/-- A scheduled op that is not on the ready list has left its station. -/
theorem Op.Consistent.handled_eq {stall : Bool} {phase : Phase} (h : op.Consistent stall phase)
    (hrdy : op.inRdyList = false) : op.handled = op := by
  by_cases hsched : op.isScheduled = true
  · have hocc : op.occupies = false := by
      cases Op.isScheduled_iff.mp hsched with
      | inl hs =>
          simp only [Op.Consistent, hs] at h
          rw [← h.1, hrdy]
      | inr hs =>
          simp only [Op.Consistent, hs] at h
          rw [← h.1, hrdy]
    rw [Op.handled_of_scheduled hsched]
    cases op
    simp_all
  · exact Op.handled_of_not (Bool.eq_false_iff.mpr hsched)

@[simp] theorem Op.handled_frame : op.handled.opNum = op.opNum ∧ op.handled.valid = op.valid ∧
    op.handled.issueCycle = op.issueCycle ∧ op.handled.doneCycle = op.doneCycle ∧
    op.handled.rsId = op.rsId := by
  unfold Op.handled
  split <;> exact ⟨rfl, rfl, rfl, rfl, rfl⟩

/-- The ready list after `node_handle_scheduled_ops`, and the ops. -/
theorem Inv.handle_ops (h : Inv cfg s nl rl) (hrun : s.nodeHandleScheduledOps = .ok t) :
    Chain t.rdyList.next t.rdyList.head (rl.filter fun p => !(s.ops p).isScheduled) ∧
      (∀ p ∈ nl, t.ops p = (s.ops p).handled) ∧ (∀ p, p ∉ nl → t.ops p = s.ops p) ∧
      (∀ rsId, t.rsOpCount rsId +
        rl.countP (fun p => (s.ops p).isScheduled && (s.ops p).rsId == rsId) = s.rsOpCount rsId) ∧
      t = { s with ops := t.ops, rsOpCount := t.rsOpCount, rdyList := t.rdyList } := by
  obtain ⟨⟨rdyList, m⟩, hunlink, hrun⟩ := Execution.bind_eq_ok.mp hrun
  cases hrun
  obtain ⟨left, hsweep, hchain⟩ := Linked.unlink_eq_ok h.ready.chain h.ready.nodup h.ready_length hunlink
  obtain ⟨rfl, hswept⟩ := handle_sweep h.ready.nodup hsweep
  refine ⟨hchain, fun p hp => ?_, fun p hp => ?_, hswept.counts, ?_⟩
  · show m.ops p = _
    rw [hswept.ops]
    by_cases hrl : p ∈ rl
    · rw [if_pos hrl]
    · rw [if_neg hrl]
      have hrdy : (s.ops p).inRdyList = false :=
        Bool.eq_false_iff.mpr fun hrdy => hrl ((h.ready.mem_iff p).mpr ⟨hp, hrdy⟩)
      exact ((h.stages.node p hp).handled_eq hrdy).symm
  · show m.ops p = _
    rw [hswept.ops, if_neg fun hrl => hp (h.ready.sub hrl)]
  · have hframe := hswept.frame
    rw [hswept.tail] at hframe
    rw [hframe]

/-- `node_handle_scheduled_ops` takes the ops that the other stages scheduled off the ready list. -/
theorem Inv.handle (h : Inv cfg s nl rl) (hrun : s.nodeHandleScheduledOps = .ok t) :
    (∃ rl', Inv cfg { t with phase := .idle } nl rl') ∧ Carried s nl { t with phase := .idle } nl := by
  obtain ⟨hchain, hnl, hother, hcounts, hframe⟩ := h.handle_ops hrun
  have hops : ∀ p, t.ops p = (s.ops p).handled ∨ t.ops p = s.ops p := by
    intro p
    by_cases hp : p ∈ nl
    · exact .inl (hnl p hp)
    · exact .inr (hother p hp)
  have hstate : ∀ p, (t.ops p).state = (s.ops p).state := by
    intro p
    cases hops p with
    | inl heq => rw [heq, Op.handled_state]
    | inr heq => rw [heq]
  have hdone : ∀ p, (t.ops p).doneCycle = (s.ops p).doneCycle := by
    intro p
    cases hops p with
    | inl heq => rw [heq, Op.handled_frame.2.2.2.1]
    | inr heq => rw [heq]
  have htable : SameTable s { t with phase := .idle } := by
    rw [hframe]
    refine ⟨rfl, rfl, rfl, rfl, rfl, fun p => ?_, fun p => ?_⟩
    · cases hops p with
      | inl heq => exact heq ▸ Op.handled_frame.1
      | inr heq => exact heq ▸ rfl
    · cases hops p with
      | inl heq => exact heq ▸ Op.handled_frame.2.1
      | inr heq => exact heq ▸ rfl
  have hwait : t.waiting = s.waiting := by rw [hframe]; rfl
  have hsd : t.sd = s.sd := by rw [hframe]
  have hmem : t.memOps = s.memOps := by rw [hframe]
  have hnext : t.nextOpIntoRs = s.nextOpIntoRs := by rw [hframe]
  have hcycle : t.cycle = s.cycle := by rw [hframe]
  refine ⟨⟨_, h.table.congr htable, ⟨hchain, h.ready.nodup.filter _, fun p => ?_⟩,
    ⟨fun p hp => ?_, fun p hp => ?_, fun p hp => ?_, fun f p hp => ?_, fun f g p hf hg => ?_,
      fun p hp => ?_, fun p hp hs => ?_⟩⟩, ⟨fun hc rsId => ?_, fun hf => ?_⟩⟩
  · show _ ↔ p ∈ nl ∧ (t.ops p).inRdyList = true
    rw [List.mem_filter, h.ready.mem_iff]
    by_cases hp : p ∈ nl
    · rw [hnl p hp]
      by_cases hsched : (s.ops p).isScheduled = true
      · simp [Op.handled_of_scheduled hsched, hsched]
      · have hnot : (s.ops p).isScheduled = false := Bool.eq_false_iff.mpr hsched
        simp [Op.handled_of_not hnot, hnot]
    · simp [hp]
  · show (t.ops p).Consistent cfg.stallOnWaitMem .idle
    rw [hnl p hp]
    exact (h.stages.node p hp).handled
  · show (t.ops p).issueCycle.any (· ≤ t.cycle) = true
    rw [hnl p hp, Op.handled_frame.2.2.1, hcycle]
    exact h.stages.issued p hp
  · have hp' : p ∈ s.waiting := by rw [← hwait]; exact hp
    show (t.ops p).IsWaiting
    rw [hother p fun hpnl => h.table.not_waiting hpnl hp']
    exact h.stages.waiting p hp'
  · have hp' : s.sd f = some p := by rw [← hsd]; exact hp
    obtain ⟨hfu, hpnl, hfire⟩ := h.stages.sd f p hp'
    refine ⟨hfu, hpnl, ?_⟩
    show (t.ops p).CanFire
    rwa [Op.CanFire, hstate p]
  · refine h.stages.sd_inj f g p ?_ ?_
    · rw [← hsd]
      exact hf
    · rw [← hsd]
      exact hg
  · have hp' : p ∈ s.memOps := by rw [← hmem]; exact hp
    obtain ⟨hpnl, hawait⟩ := h.stages.memOps p hp'
    refine ⟨hpnl, ?_⟩
    show (t.ops p).AwaitsAccess cfg.stallOnWaitMem
    rwa [Op.AwaitsAccess, hdone p, hstate p]
  · refine h.stages.next p ?_ ?_
    · rw [← hnext]
      exact hp
    · rw [← hstate p]
      exact hs
  · -- an occupant stays, or it was on the ready list and scheduled
    show t.rsOpCount rsId = _
    have hsplit : nl.countP (s.occupant rsId) =
        nl.countP (({ t with phase := .idle } : State).occupant rsId) + nl.countP fun p =>
          ((s.ops p).isScheduled && (s.ops p).rsId == rsId) && (s.ops p).inRdyList := by
      refine countP_add fun p hp => ?_
      have hnode := h.stages.node p hp
      show ((s.ops p).occupies && (s.ops p).rsId == rsId).toNat =
        ((t.ops p).occupies && (t.ops p).rsId == rsId).toNat + _
      rw [hnl p hp]
      by_cases hsched : (s.ops p).isScheduled = true
      · have hrdy : (s.ops p).inRdyList = (s.ops p).occupies := by
          cases Op.isScheduled_iff.mp hsched with
          | inl hs =>
              simp only [Op.Consistent, hs] at hnode
              exact hnode.1
          | inr hs =>
              simp only [Op.Consistent, hs] at hnode
              exact hnode.1
        simp [Op.handled_of_scheduled hsched, hsched, hrdy, Bool.and_comm]
      · have hnot : (s.ops p).isScheduled = false := Bool.eq_false_iff.mpr hsched
        simp [Op.handled_of_not hnot, hnot]
    rw [← h.ready.countP h.table.nodup_list fun p => (s.ops p).isScheduled && (s.ops p).rsId == rsId,
      ← hc rsId, ← hcounts rsId] at hsplit
    omega
  · show Frontier _ t.nextOpIntoRs nl
    rw [hnext]
    exact hf.congr fun p _ => by
      show (t.ops p).state = .issued ↔ _
      rw [hstate p]

/-- The node stage goes through the ready list without an assertion that fails. -/
theorem Inv.handle_ok (h : Inv cfg s nl rl) (hc : Counts s nl) : ∃ t, s.nodeHandleScheduledOps = .ok t := by
  have hroom : ∀ rsId, rl.countP (fun p => (s.ops p).isScheduled && (s.ops p).rsId == rsId) ≤
      s.rsOpCount rsId := by
    intro rsId
    rw [h.ready.countP h.table.nodup_list, hc rsId]
    refine List.countP_mono_left fun p hp hsched => ?_
    simp only [Bool.and_eq_true] at hsched
    obtain ⟨⟨_, hrs⟩, hrdy⟩ := hsched
    have hocc := ((h.stages.node p hp).inRdyList_iff.mp hrdy).1
    simp [State.occupant, hocc, hrs]
  obtain ⟨rdyList, m, hunlink⟩ := Linked.unlink_ok h.ready.chain h.ready.nodup h.ready_length
    (handle_sweep_ok h.ready.nodup hroom)
  exact ⟨_, Execution.bind_eq_ok.mpr ⟨_, hunlink, rfl⟩⟩

/-! ## Flushed ops -/

/-- What `flush_ready_list` does to an op. -/
def Op.offReady (r : ℕ) (op : Op) : Op := if flushOp r op = true then { op with inRdyList := false } else op

/-- What `flush_window` does to an op. -/
def Op.recovered (r : ℕ) (op : Op) : Op :=
  if flushOp r op = true then { op with inNodeList := false, valid := false }
  else { op with recoveryScheduled := op.recoveryScheduled && op.opNum != r }

@[simp] theorem Op.offReady_frame (r : ℕ) (op : Op) : (op.offReady r).opNum = op.opNum ∧
    (op.offReady r).state = op.state ∧ (op.offReady r).rsId = op.rsId := by
  unfold Op.offReady
  split <;> exact ⟨rfl, rfl, rfl⟩

@[simp] theorem Op.recovered_frame (r : ℕ) (op : Op) : (op.recovered r).opNum = op.opNum ∧
    (op.recovered r).state = op.state := by
  unfold Op.recovered
  split <;> exact ⟨rfl, rfl⟩

/-- `flush_ready_list` unlinks the ops that are flushed. -/
theorem flushReadyList_eq (r : ℕ) (hchain : Chain s.rdyList.next s.rdyList.head rl) (hnodup : rl.Nodup)
    (hlen : rl.length ≤ s.nodeCount) : ∃ t, s.flushReadyList r = .ok t ∧
      Chain t.rdyList.next t.rdyList.head (rl.filter fun p => !flushOp r (s.ops p)) ∧
      (∀ p, t.ops p = if p ∈ rl then (s.ops p).offReady r else s.ops p) ∧
      t = { s with ops := t.ops, rdyList := t.rdyList } := by
  have hkeep : ∀ done p rest m n, Swept (Op.offReady r) (fun _ => false) (fun _ => s.nodeTail) s done m →
      done ++ p :: rest = rl → n = m.setOp p ((m.ops p).offReady r) →
      Swept (Op.offReady r) (fun _ => false) (fun _ => s.nodeTail) s (done ++ [p]) n := by
    intro done p rest m n hm hl hn
    subst hn
    exact hm.concat (not_mem_of_split hnodup hl) rfl (fun rsId => by simp [State.setOp]) hm.tail rfl
  have hsame : ∀ m : State, ∀ p, flushOp r (m.ops p) = false → m = m.setOp p ((m.ops p).offReady r) := by
    intro m p hp
    simp [Op.offReady, hp, State.setOp]
  have hdrop : ∀ m : State, ∀ p, flushOp r (m.ops p) = true →
      m.setOp p { m.ops p with inRdyList := false } = m.setOp p ((m.ops p).offReady r) := by
    intro m p hp
    simp [Op.offReady, hp]
  obtain ⟨rdyList, m, hunlink⟩ := Linked.unlink_ok hchain hnodup hlen (Linked.sweep_ok
    (fun s p => flushOp r (s.ops p))
    (fun s p => (.ok (s.setOp p { s.ops p with inRdyList := false }) : Except String State))
    (fun s _ => .ok s) (Swept (Op.offReady r) (fun _ => false) (fun _ => s.nodeTail) s) s
    (fun done p rest m hm hl hp => ⟨_, rfl, hkeep done p rest m _ hm hl (hdrop m p hp)⟩)
    (fun done p rest m hm hl hp => ⟨_, rfl, hkeep done p rest m _ hm hl (hsame m p hp)⟩) (.refl rfl) rfl)
  obtain ⟨left, hsweep, hchain'⟩ := Linked.unlink_eq_ok hchain hnodup hlen hunlink
  obtain ⟨rfl, hswept⟩ := Linked.sweep_spec (fun p => flushOp r (s.ops p))
    (Swept (Op.offReady r) (fun _ => false) (fun _ => s.nodeTail) s)
    (fun done p rest m hm hl => by
      show flushOp r (m.ops p) = _
      rw [hm.ops, if_neg (not_mem_of_split hnodup hl)])
    (fun done p rest m n hm hl hp hn => by
      cases hn
      have hp' : flushOp r (m.ops p) = true := by rw [hm.ops, if_neg (not_mem_of_split hnodup hl), hp]
      exact hkeep done p rest m _ hm hl (hdrop m p hp'))
    (fun done p rest m n hm hl hp hn => by
      cases hn
      have hp' : flushOp r (m.ops p) = false := by rw [hm.ops, if_neg (not_mem_of_split hnodup hl), hp]
      exact hkeep done p rest m _ hm hl (hsame m p hp'))
    (.refl rfl) rfl hsweep
  refine ⟨{ m with rdyList }, Execution.bind_eq_ok.mpr ⟨_, hunlink, rfl⟩, hchain', hswept.ops, ?_⟩
  have hcount : m.rsOpCount = s.rsOpCount := funext fun rsId => by simpa using hswept.counts rsId
  have hframe := hswept.frame
  rw [hswept.tail, hcount] at hframe
  rw [hframe]

/-- An op is taken out of its station if its state says that it waits there. -/
def Op.leavesAt (r : ℕ) (op : Op) : Bool := flushOp r op && op.waitsInRs

theorem flushFromWindow_eq {r : ℕ} (hflush : flushOp r (s.ops p) = true) (h : s.flushFromWindow p = .ok t) :
    t.ops = (s.setOp p ((s.ops p).recovered r)).ops ∧
      (∀ rsId, t.rsOpCount rsId + ((s.ops p).leavesAt r && (s.ops p).rsId == rsId).toNat = s.rsOpCount rsId) ∧
      t = { s with ops := t.ops, rsOpCount := t.rsOpCount } := by
  obtain ⟨m, hm, rfl⟩ := Execution.map_eq_ok.mp h
  have hrec : (s.ops p).recovered r = { s.ops p with inNodeList := false, valid := false } := if_pos hflush
  by_cases hwaits : (s.ops p).waitsInRs = true
  · rw [if_pos hwaits] at hm
    obtain ⟨hframe, hcounts⟩ := leaveRs_eq hm
    rw [State.setOp_ops_self] at hcounts
    refine ⟨?_, fun rsId => ?_, ?_⟩
    · rw [hframe, hrec]
      simp [State.freeOp, State.setOp]
    · have hcount := hcounts rsId
      simp only [Op.leavesAt, hflush, hwaits, Bool.true_and]
      exact hcount
    · rw [hframe]
      rfl
  · rw [if_neg hwaits] at hm
    cases hm
    refine ⟨?_, fun rsId => ?_, rfl⟩
    · rw [hrec]
      simp [State.freeOp, State.setOp]
    · simp [Op.leavesAt, hwaits, State.freeOp, State.setOp]

theorem flushFromWindow_ok (hleave : (s.ops p).waitsInRs = true →
      ∃ t, (s.setOp p { s.ops p with inNodeList := false }).leaveRs p = .ok t) :
    ∃ t, s.flushFromWindow p = .ok t := by
  by_cases hwaits : (s.ops p).waitsInRs = true
  · obtain ⟨m, hm⟩ := hleave hwaits
    exact ⟨_, Execution.map_eq_ok.mpr ⟨m, (if_pos hwaits).trans hm, rfl⟩⟩
  · exact ⟨_, Execution.map_eq_ok.mpr ⟨_, if_neg hwaits, rfl⟩⟩

/-- The last op that is kept. -/
def keptTail (r : ℕ) (s : State) (done : List OpPtr) : Option OpPtr :=
  (done.filter fun p => !flushOp r (s.ops p)).getLast?

/-- What the loop of `flush_window` has done, with the ops that it has flushed and kept. -/
structure WindowSwept (r : ℕ) (s : State) (done : List OpPtr) (out : State × ℕ × ℕ) : Prop where
  swept : Swept (Op.recovered r) (Op.leavesAt r) (keptTail r s) { s with nodeTail := none } done out.1
  flushed : out.2.1 + out.2.2 = done.length
  kept : out.2.2 = (done.filter fun p => !flushOp r (s.ops p)).length

theorem WindowSwept.drop {r f k : ℕ} (h : WindowSwept r s done (t, f, k)) (hp : p ∉ done)
    (hflush : flushOp r (s.ops p) = true) (hrun : t.flushFromWindow p = .ok u) :
    WindowSwept r s (done ++ [p]) (u, f + 1, k) := by
  have hsame : t.ops p = s.ops p := by rw [h.swept.ops, if_neg hp]
  obtain ⟨hops, hcounts, hframe⟩ := flushFromWindow_eq (hsame ▸ hflush) hrun
  have hfilter : (done ++ [p]).filter (fun p => !flushOp r (s.ops p)) =
      done.filter fun p => !flushOp r (s.ops p) := by simp [hflush]
  have htail : u.nodeTail = keptTail r s (done ++ [p]) := by
    rw [keptTail, hfilter, hframe]
    exact h.swept.tail
  have hframe' : u = { t with ops := u.ops, rsOpCount := u.rsOpCount, nodeTail := u.nodeTail } := by
    rw [hframe]
  refine ⟨h.swept.concat hp hops hcounts htail hframe', ?_, ?_⟩
  · have hlen := h.flushed
    simp only [List.length_append, List.length_singleton] at hlen ⊢
    omega
  · rw [hfilter]
    exact h.kept

theorem WindowSwept.keep {r f k : ℕ} (h : WindowSwept r s done (t, f, k)) (hp : p ∉ done)
    (hkeep : flushOp r (s.ops p) = false) :
    WindowSwept r s (done ++ [p]) (t.keepInWindow r p, f, k + 1) := by
  have hsame : t.ops p = s.ops p := by rw [h.swept.ops, if_neg hp]
  have hrec : (t.ops p).recovered r = { t.ops p with
      recoveryScheduled := (t.ops p).recoveryScheduled && (t.ops p).opNum != r } := by
    simp [Op.recovered, hsame, hkeep]
  have hfilter : (done ++ [p]).filter (fun p => !flushOp r (s.ops p)) =
      (done.filter fun p => !flushOp r (s.ops p)) ++ [p] := by simp [hkeep]
  refine ⟨h.swept.concat hp ?_ (fun rsId => ?_) ?_ rfl, ?_, ?_⟩
  · rw [hrec]
    rfl
  · simp [Op.leavesAt, hsame, hkeep, State.keepInWindow, State.setOp]
  · rw [keptTail, hfilter, List.getLast?_append_of_ne_nil _ (by simp)]
    rfl
  · have hlen := h.flushed
    simp only [List.length_append, List.length_singleton] at hlen ⊢
    omega
  · rw [hfilter, List.length_append, ← h.kept]
    rfl

/-- What the loop over the node table does. -/
theorem window_sweep {r : ℕ} (hnodup : nl.Nodup) {left : List OpPtr} {out : State × ℕ × ℕ}
    (h : Linked.sweep (fun (s : State × ℕ × ℕ) p => flushOp r (s.1.ops p))
      (fun (s, flushOps, keepOps) p => (·, flushOps + 1, keepOps) <$> s.flushFromWindow p)
      (fun (s, flushOps, keepOps) p => .ok (s.keepInWindow r p, flushOps, keepOps + 1))
      nl ({ s with nodeTail := none }, 0, 0) = .ok (left, out)) :
    left = nl.filter (fun p => !flushOp r (s.ops p)) ∧ WindowSwept r s nl out :=
  Linked.sweep_spec (fun p => flushOp r (s.ops p)) (WindowSwept r s)
    (fun done p rest m hm hl => by
      show flushOp r (m.1.ops p) = _
      rw [hm.swept.ops, if_neg (not_mem_of_split hnodup hl)])
    (fun done p rest m n hm hl hp hn => by
      obtain ⟨u, hu, rfl⟩ := Execution.map_eq_ok.mp hn
      exact hm.drop (not_mem_of_split hnodup hl) hp hu)
    (fun done p rest m n hm hl hp hn => by
      cases hn
      exact hm.keep (not_mem_of_split hnodup hl) hp)
    ⟨.refl rfl, rfl, rfl⟩ rfl h

/-- `flush_window` unlinks the ops that are flushed. -/
theorem flushWindow_eq {r : ℕ} (hchain : Chain s.nodeList.next s.nodeList.head nl) (hnodup : nl.Nodup)
    (hlen : nl.length ≤ s.nodeCount) (hrun : s.flushWindow cfg r = .ok t) :
    Chain t.nodeList.next t.nodeList.head (nl.filter fun p => !flushOp r (s.ops p)) ∧
      t.nodeTail = keptTail r s nl ∧ t.nodeCount = (nl.filter fun p => !flushOp r (s.ops p)).length ∧
      (∀ p, t.ops p = if p ∈ nl then (s.ops p).recovered r else s.ops p) ∧
      (∀ rsId, t.rsOpCount rsId +
        nl.countP (fun p => (s.ops p).leavesAt r && (s.ops p).rsId == rsId) = s.rsOpCount rsId) ∧
      t = { s with ops := t.ops, rsOpCount := t.rsOpCount, nodeList := t.nodeList,
                   nodeTail := t.nodeTail, nodeCount := t.nodeCount } := by
  obtain ⟨⟨nodeList, m, f, k⟩, hunlink, hrun⟩ := Execution.bind_eq_ok.mp hrun
  obtain ⟨_, hrun⟩ := Execution.ite_error_eq_ok.mp hrun
  obtain ⟨_, hrun⟩ := Execution.ite_error_eq_ok.mp hrun
  cases hrun
  obtain ⟨left, hsweep, hchain'⟩ := Linked.unlink_eq_ok hchain hnodup hlen hunlink
  obtain ⟨rfl, hswept⟩ := window_sweep hnodup hsweep
  refine ⟨hchain', hswept.swept.tail, hswept.kept, hswept.swept.ops, hswept.swept.counts, ?_⟩
  have hframe : m = { s with ops := m.ops, rsOpCount := m.rsOpCount, nodeTail := m.nodeTail } :=
    hswept.swept.frame
  rw [hframe]

/-- `flush_window` comes to its end if the ops that it takes out of the stations are counted. -/
theorem flushWindow_ok {r : ℕ} (hchain : Chain s.nodeList.next s.nodeList.head nl) (hnodup : nl.Nodup)
    (hlen : s.nodeCount = nl.length) (hbound : nl.length ≤ cfg.nodeTableSize)
    (hroom : ∀ rsId, nl.countP (fun p => (s.ops p).leavesAt r && (s.ops p).rsId == rsId) ≤ s.rsOpCount rsId) :
    ∃ t, s.flushWindow cfg r = .ok t := by
  obtain ⟨nodeList, ⟨m, f, k⟩, hunlink⟩ := Linked.unlink_ok hchain hnodup hlen.ge (Linked.sweep_ok
    (fun (s : State × ℕ × ℕ) p => flushOp r (s.1.ops p))
    (fun (s, flushOps, keepOps) p => (·, flushOps + 1, keepOps) <$> s.flushFromWindow p)
    (fun (s, flushOps, keepOps) p => .ok (s.keepInWindow r p, flushOps, keepOps + 1))
    (WindowSwept r s) ({ s with nodeTail := none }, 0, 0) (fun done p rest m hm hl hp => by
      obtain ⟨m, f, k⟩ := m
      have hnot := not_mem_of_split hnodup hl
      have hsame : m.ops p = s.ops p := by rw [hm.swept.ops, if_neg hnot]
      have hflush : flushOp r (s.ops p) = true := by rw [← hsame]; exact hp
      obtain ⟨u, hu⟩ := flushFromWindow_ok (s := m) (p := p) fun hwaits =>
        hm.swept.leaveRs_ok hl hroom (by rw [Op.leavesAt, hflush, ← hsame, hwaits]; rfl) rfl (by simp [hsame])
      exact ⟨_, Execution.map_eq_ok.mpr ⟨u, hu, rfl⟩, hm.drop hnot hflush hu⟩)
    (fun done p rest m hm hl hp => by
      obtain ⟨m, f, k⟩ := m
      have hnot := not_mem_of_split hnodup hl
      have hsame : m.ops p = s.ops p := by rw [hm.swept.ops, if_neg hnot]
      have hkeep : flushOp r (s.ops p) = false := by rw [← hsame]; exact hp
      exact ⟨_, rfl, hm.keep hnot hkeep⟩)
    ⟨.refl rfl, rfl, rfl⟩ rfl)
  obtain ⟨left, hsweep, _⟩ := Linked.unlink_eq_ok hchain hnodup hlen.ge hunlink
  obtain ⟨_, hswept⟩ := window_sweep hnodup hsweep
  have hall : f + k = m.nodeCount := by
    have hcount : m.nodeCount = s.nodeCount := by
      have hframe : m = { s with ops := m.ops, rsOpCount := m.rsOpCount, nodeTail := m.nodeTail } :=
        hswept.swept.frame
      rw [hframe]
    rw [hcount, hlen]
    exact hswept.flushed
  have hfit : k ≤ cfg.nodeTableSize := by
    have hk : k = (nl.filter fun p => !flushOp r (s.ops p)).length := hswept.kept
    rw [hk]
    exact (List.length_filter_le ..).trans hbound
  exact ⟨_, Execution.bind_eq_ok.mpr ⟨_, hunlink,
    Execution.ite_error_eq_ok.mpr ⟨hall, Execution.ite_error_eq_ok.mpr ⟨hfit, rfl⟩⟩⟩⟩

/-! ## Recovery -/

/-- The op stays. -/
def kept (r : ℕ) (s : State) (p : OpPtr) : Bool := !flushOp r (s.ops p)

/-- What a recovery does: it filters every list, frees the ops that are flushed, and leaves the
others alone but for the flag of the op that recovers. -/
structure Recovered (r : ℕ) (s : State) (nl rl : List OpPtr) (t : State) : Prop where
  nodeChain : Chain t.nodeList.next t.nodeList.head (nl.filter (kept r s))
  nodeTail : t.nodeTail = (nl.filter (kept r s)).getLast?
  nodeCount : t.nodeCount = (nl.filter (kept r s)).length
  rdyChain : Chain t.rdyList.next t.rdyList.head (rl.filter (kept r s))
  freed : ∀ p ∈ nl ++ s.waiting, kept r s p = false → (t.ops p).valid = false
  same : ∀ p, kept r s p = true → ∃ recoveryScheduled, t.ops p = { s.ops p with recoveryScheduled }
  other : ∀ p, p ∉ nl ++ s.waiting → t.ops p = s.ops p
  state : ∀ p, (t.ops p).state = (s.ops p).state
  counts : ∀ rsId, t.rsOpCount rsId +
    nl.countP (fun p => (s.ops p).leavesAt r && (s.ops p).rsId == rsId) = s.rsOpCount rsId
  sd : t.sd = fun fuId => (s.sd fuId).filter (kept r s)
  memOps : t.memOps = s.memOps.filter (kept r s)
  next : t.nextOpIntoRs = s.nextOpIntoRs.filter (kept r s)
  waiting : t.waiting = s.waiting.filter (kept r s)
  opCount : t.opCount = r + 1
  cycle : t.cycle = s.cycle
  phase : t.phase = s.phase

theorem reduceOption_map_filter (l : List (Option OpPtr)) (f : OpPtr → Bool) :
    (l.map fun slot => slot.filter f).reduceOption = l.reduceOption.filter f := by
  induction l with
  | nil => rfl
  | cons slot l ih =>
      cases slot with
      | none => simpa [List.reduceOption_cons_of_none] using ih
      | some p =>
          by_cases hp : f p = true
          · have hslot : Option.filter f (some p) = some p := by simp [Option.filter, hp]
            rw [List.map_cons, hslot, List.reduceOption_cons_of_some, ih, List.reduceOption_cons_of_some,
              List.filter_cons_of_pos hp]
          · have hslot : Option.filter f (some p) = none := by simp [Option.filter, hp]
            rw [List.map_cons, hslot, List.reduceOption_cons_of_none, ih, List.reduceOption_cons_of_some,
              List.filter_cons_of_neg hp]

/-- What recovery makes of an op, by the lists that it is in. -/
def State.recoveredOp (r : ℕ) (s : State) (nl rl : List OpPtr) (p : OpPtr) : Op :=
  if p ∈ nl then (if p ∈ rl then (s.ops p).offReady r else s.ops p).recovered r
  else if p ∈ s.waiting ∧ flushOp r (s.ops p) = true then { s.ops p with valid := false }
  else s.ops p

theorem recoveredOp_opNum (r : ℕ) (s : State) (nl rl : List OpPtr) (p : OpPtr) :
    (s.recoveredOp r nl rl p).opNum = (s.ops p).opNum := by
  rw [State.recoveredOp]
  split
  · rw [(Op.recovered_frame r _).1]
    split
    · exact (Op.offReady_frame r _).1
    · rfl
  · split <;> rfl

theorem recoveredOp_state (r : ℕ) (s : State) (nl rl : List OpPtr) (p : OpPtr) :
    (s.recoveredOp r nl rl p).state = (s.ops p).state := by
  rw [State.recoveredOp]
  split
  · rw [(Op.recovered_frame r _).2]
    split
    · exact (Op.offReady_frame r _).2.1
    · rfl
  · split <;> rfl

/-- An op that is flushed leaves the pool. -/
theorem recoveredOp_freed {r : ℕ} {p : OpPtr} (hp : p ∈ nl ++ s.waiting) (hflush : flushOp r (s.ops p) = true) :
    (s.recoveredOp r nl rl p).valid = false := by
  by_cases hnl : p ∈ nl
  · have hflush' : flushOp r (if p ∈ rl then (s.ops p).offReady r else s.ops p) = true := by
      rw [← hflush]
      split
      · rw [Op.offReady, if_pos hflush]
        rfl
      · rfl
    rw [State.recoveredOp, if_pos hnl, Op.recovered, if_pos hflush']
  · have hw : p ∈ s.waiting := (List.mem_append.mp hp).resolve_left hnl
    rw [State.recoveredOp, if_neg hnl, if_pos ⟨hw, hflush⟩]

/-- An older op stays as it is, but for its own recovery. -/
theorem recoveredOp_kept {r : ℕ} {p : OpPtr} (hkeep : flushOp r (s.ops p) = false) :
    ∃ recoveryScheduled, s.recoveredOp r nl rl p = { s.ops p with recoveryScheduled } := by
  have hno : ¬ flushOp r (s.ops p) = true := Bool.eq_false_iff.mp hkeep
  rw [State.recoveredOp]
  by_cases hnl : p ∈ nl
  · have hsame : (if p ∈ rl then (s.ops p).offReady r else s.ops p) = s.ops p := by
      split
      · rw [Op.offReady, if_neg hno]
      · rfl
    rw [if_pos hnl, hsame, Op.recovered, if_neg hno]
    exact ⟨_, rfl⟩
  · rw [if_neg hnl, if_neg fun hw => hno hw.2]
    exact ⟨_, rfl⟩

theorem recoveredOp_other {r : ℕ} {p : OpPtr} (hp : p ∉ nl ++ s.waiting) : s.recoveredOp r nl rl p = s.ops p := by
  rw [State.recoveredOp, if_neg fun hnl => hp (List.mem_append_left _ hnl),
    if_neg fun hw => hp (List.mem_append_right _ hw.1)]

theorem Inv.recovered (h : Inv cfg s nl rl) {r : ℕ} (hrun : s.cmpRecover cfg r = .ok t) :
    Recovered r s nl rl t := by
  obtain ⟨d, hnode, hrun⟩ := Execution.bind_eq_ok.mp hrun
  obtain rfl : d.recoverBackEnd r = t := Except.ok.inj hrun
  obtain ⟨b, hready, hwindow⟩ := Execution.bind_eq_ok.mp hnode
  -- the stages before the node table touch none of its ops
  have hfront : ∀ p ∈ nl, (s.recoverFrontEnd r).ops p = s.ops p := by
    intro p hp
    show (if p ∈ s.waiting ∧ flushOp r (s.ops p) = true then _ else _) = _
    rw [if_neg fun hw => h.table.not_waiting hp hw.1]
  obtain ⟨b', hb', hrdy, hbops, hbframe⟩ := flushReadyList_eq (s := s.recoverFrontEnd r) r
    h.ready.chain h.ready.nodup h.ready_length
  obtain rfl : b' = b := Except.ok.inj (hb'.symm.trans hready)
  have hbnl : ∀ p ∈ nl, flushOp r (b'.ops p) = flushOp r (s.ops p) ∧ (b'.ops p).state = (s.ops p).state ∧
      (b'.ops p).rsId = (s.ops p).rsId := by
    intro p hp
    rw [hbops, hfront p hp]
    by_cases hrl : p ∈ rl
    · rw [if_pos hrl, flushOp, (Op.offReady_frame r _).1]
      exact ⟨rfl, (Op.offReady_frame r _).2⟩
    · rw [if_neg hrl]
      exact ⟨rfl, rfl, rfl⟩
  have hlist : b'.nodeList = s.nodeList := by rw [hbframe]; rfl
  have hcount : b'.nodeCount = s.nodeCount := by rw [hbframe]; rfl
  have hrs : b'.rsOpCount = s.rsOpCount := by rw [hbframe]; rfl
  obtain ⟨hnl, htail, hnum, hdops, hcounts, hdframe⟩ :=
    @flushWindow_eq cfg ((b'.flushSchedulingBuffer r).flushRs r) d nl r
      (by
        show Chain b'.nodeList.next b'.nodeList.head nl
        rw [hlist]
        exact h.table.chain) h.table.nodup_list (by
        show nl.length ≤ b'.nodeCount
        rw [hcount, h.table.count]) hwindow
  have hfilter : (nl.filter fun p => !flushOp r (b'.ops p)) = nl.filter (kept r s) :=
    List.filter_congr fun p hp => by rw [(hbnl p hp).1, kept]
  -- what became of an op
  have hops : ∀ p, d.ops p = s.recoveredOp r nl rl p := by
    intro p
    rw [hdops, State.recoveredOp]
    show (if p ∈ nl then (b'.ops p).recovered r else b'.ops p) = _
    by_cases hp : p ∈ nl
    · rw [if_pos hp, if_pos hp, hbops, hfront p hp]
    · rw [if_neg hp, if_neg hp, hbops, if_neg fun hrl => hp (h.ready.sub hrl)]
      rfl
  have hdnum : ∀ p, flushOp r (d.ops p) = flushOp r (s.ops p) := by
    intro p
    rw [hops, flushOp, recoveredOp_opNum, flushOp]
  have hbnum : ∀ p, flushOp r (b'.ops p) = flushOp r (s.ops p) := by
    intro p
    have hdb : flushOp r (d.ops p) = flushOp r (b'.ops p) := by
      rw [hdops, flushOp, flushOp]
      split
      · rw [(Op.recovered_frame r _).1]
        rfl
      · rfl
    rw [← hdb, hdnum]
  refine ⟨?_, ?_, ?_, ?_, fun p hp hflush => ?_, fun p hkeep => ?_, fun p hp => ?_, fun p => ?_,
    fun rsId => ?_, ?_, ?_, ?_, ?_, ?_, ?_, ?_⟩
  · rw [← hfilter]
    exact hnl
  · rw [← hfilter]
    exact htail
  · rw [← hfilter]
    exact hnum
  · have hrlFilter : (rl.filter fun p => !flushOp r ((s.recoverFrontEnd r).ops p)) = rl.filter (kept r s) :=
      List.filter_congr fun p hp => by rw [hfront p (h.ready.sub hp), kept]
    rw [← hrlFilter]
    show Chain d.rdyList.next d.rdyList.head _
    have hrdyList : d.rdyList = b'.rdyList := by rw [hdframe]; rfl
    rw [hrdyList]
    exact hrdy
  · show (d.ops p).valid = false
    rw [hops]
    exact recoveredOp_freed hp (by simpa [kept] using hflush)
  · show ∃ recoveryScheduled, d.ops p = _
    rw [hops]
    exact recoveredOp_kept (by simpa [kept] using hkeep)
  · show d.ops p = _
    rw [hops]
    exact recoveredOp_other hp
  · show (d.ops p).state = _
    rw [hops]
    exact recoveredOp_state r s nl rl p
  · show d.rsOpCount rsId + _ = _
    rw [← hrs]
    have hsame : nl.countP (fun p => (s.ops p).leavesAt r && (s.ops p).rsId == rsId) =
        nl.countP fun p => (b'.ops p).leavesAt r && (b'.ops p).rsId == rsId := by
      refine List.countP_congr fun p hp => ?_
      obtain ⟨hf, hs, hi⟩ := hbnl p hp
      simp only [Op.leavesAt, Op.waitsInRs, hf, hs, hi]
    rw [hsame]
    exact hcounts rsId
  · have hsd : d.sd = fun fuId => (s.sd fuId).filter fun p => !flushOp r (b'.ops p) := by
      rw [hdframe]
      show (fun fuId => (b'.sd fuId).filter _) = _
      rw [hbframe]
      rfl
    show d.sd = _
    simp only [hsd, hbnum]
    rfl
  · show d.memOps.filter (fun p => !flushOp r (d.ops p)) = _
    have hmem : d.memOps = s.memOps := by
      rw [hdframe]
      show b'.memOps = _
      rw [hbframe]
      rfl
    simp only [hmem, hdnum]
    rfl
  · have hnext : d.nextOpIntoRs = s.nextOpIntoRs.filter fun p => !flushOp r (b'.ops p) := by
      rw [hdframe]
      show b'.nextOpIntoRs.filter _ = _
      rw [hbframe]
      rfl
    show d.nextOpIntoRs = _
    simp only [hnext, hbnum]
    rfl
  · have hmap : d.mapSd = s.mapSd.map fun slot => slot.filter (kept r s) := by
      rw [hdframe]
      show b'.mapSd = _
      rw [hbframe]
      rfl
    have hfrontSd : d.front = s.front.filter (kept r s) := by
      rw [hdframe]
      show b'.front = _
      rw [hbframe]
      rfl
    show d.mapSd.reduceOption ++ d.front = _
    rw [hmap, hfrontSd, reduceOption_map_filter, State.waiting, List.filter_append]
  · show d.opCount = _
    rw [hdframe]
    show b'.opCount = _
    rw [hbframe]
    rfl
  · show d.cycle = _
    rw [hdframe]
    show b'.cycle = _
    rw [hbframe]
    rfl
  · show d.phase = _
    rw [hdframe]
    show b'.phase = _
    rw [hbframe]
    rfl

theorem kept_filter_append (r : ℕ) (s : State) (nl rest : List OpPtr) :
    nl.filter (kept r s) ++ rest.filter (kept r s) = (nl ++ rest).filter (kept r s) :=
  (List.filter_append ..).symm

/-- The ops that stay keep their number. -/
theorem Recovered.opNum {r : ℕ} (h : Recovered r s nl rl t) (hp : kept r s p = true) :
    (t.ops p).opNum = (s.ops p).opNum := by
  obtain ⟨_, hsame⟩ := h.same p hp
  rw [hsame]

theorem Recovered.inv {r : ℕ} (h : Recovered r s nl rl t) (hinv : Inv cfg s nl rl) :
    Inv cfg t (nl.filter (kept r s)) (rl.filter (kept r s)) := by
  have hnl : ∀ p ∈ nl.filter (kept r s), p ∈ nl ∧ kept r s p = true := fun p hp => List.mem_filter.mp hp
  refine ⟨⟨h.nodeChain, h.nodeTail, h.nodeCount, ?_, ?_, fun p hp => ?_, fun p => ?_⟩,
    ⟨h.rdyChain, hinv.ready.nodup.filter _, fun p => ?_⟩,
    ⟨fun p hp => ?_, fun p hp => ?_, fun p hp => ?_, fun f p hp => ?_, fun f g p hf hg => ?_,
      fun p hp => ?_, fun p hp hs => ?_⟩⟩
  · exact (List.length_filter_le ..).trans hinv.table.bound
  · rw [h.waiting, kept_filter_append]
    refine (hinv.table.order.filter _).imp_of_mem fun {p q} hp hq hlt => ?_
    rwa [h.opNum (List.mem_filter.mp hp).2, h.opNum (List.mem_filter.mp hq).2]
  · rw [h.waiting, kept_filter_append] at hp
    have hkeep := (List.mem_filter.mp hp).2
    rw [h.opNum hkeep, h.opCount]
    simp only [kept, flushOp, Bool.not_eq_true', decide_eq_false_iff_not] at hkeep
    omega
  · rw [h.waiting, kept_filter_append, List.mem_filter]
    by_cases hp : p ∈ nl ++ s.waiting
    · cases hkeep : kept r s p with
      | true =>
          obtain ⟨_, hsame⟩ := h.same p hkeep
          rw [hsame]
          simp only [and_true]
          exact hinv.table.valid p
      | false => simp [h.freed p hp hkeep]
    · rw [h.other p hp, hinv.table.valid p]
      simp [hp]
  · rw [List.mem_filter, List.mem_filter, hinv.ready.mem_iff]
    cases hkeep : kept r s p with
    | true =>
        obtain ⟨_, hsame⟩ := h.same p hkeep
        rw [hsame]
        simp
    | false => simp
  · obtain ⟨hp, hkeep⟩ := hnl p hp
    obtain ⟨_, hsame⟩ := h.same p hkeep
    rw [hsame, h.phase]
    exact hinv.stages.node p hp
  · obtain ⟨hp, hkeep⟩ := hnl p hp
    obtain ⟨_, hsame⟩ := h.same p hkeep
    rw [hsame, h.cycle]
    exact hinv.stages.issued p hp
  · rw [h.waiting] at hp
    obtain ⟨hp, hkeep⟩ := List.mem_filter.mp hp
    obtain ⟨_, hsame⟩ := h.same p hkeep
    rw [hsame]
    exact hinv.stages.waiting p hp
  · rw [h.sd] at hp
    obtain ⟨hslot, hkeep⟩ := Option.filter_eq_some_iff.mp hp
    obtain ⟨hfu, hpnl, hfire⟩ := hinv.stages.sd f p hslot
    obtain ⟨_, hsame⟩ := h.same p hkeep
    exact ⟨hfu, List.mem_filter.mpr ⟨hpnl, hkeep⟩, by rw [hsame]; exact hfire⟩
  · rw [h.sd] at hf hg
    exact hinv.stages.sd_inj f g p (Option.filter_eq_some_iff.mp hf).1 (Option.filter_eq_some_iff.mp hg).1
  · rw [h.memOps] at hp
    obtain ⟨hmem, hkeep⟩ := List.mem_filter.mp hp
    obtain ⟨hpnl, hawait⟩ := hinv.stages.memOps p hmem
    obtain ⟨_, hsame⟩ := h.same p hkeep
    exact ⟨List.mem_filter.mpr ⟨hpnl, hkeep⟩, by rw [hsame]; exact hawait⟩
  · rw [h.next] at hp
    obtain ⟨hnext, hkeep⟩ := Option.filter_eq_some_iff.mp hp
    rw [h.state] at hs
    exact List.mem_filter.mpr ⟨hinv.stages.next p hnext hs, hkeep⟩

/-- A flush takes the ops out of their stations that it should: none of those that it flushes
occupies one in another state than those that `flush_window` tests. -/
def State.FlushesWaiting (s : State) (r : ℕ) : Prop :=
  ∀ p, (s.ops p).valid = true → flushOp r (s.ops p) = true → (s.ops p).occupies = true →
    (s.ops p).waitsInRs = true

/-- The state says for an op whether it occupies a station. -/
theorem Op.Consistent.occupies_of_waits {stall : Bool} {phase : Phase} (h : op.Consistent stall phase)
    (hwaits : op.waitsInRs = true) : op.occupies = true := by
  simp only [Op.waitsInRs, decide_eq_true_eq] at hwaits
  rcases hwaits with hs | hs | hs <;> simp only [Op.Consistent, hs] at h <;> exact h.1

theorem Recovered.stations {r : ℕ} (h : Recovered r s nl rl t) (hinv : Inv cfg s nl rl)
    (hclean : s.FlushesWaiting r) (hc : Counts s nl) : Counts t (nl.filter (kept r s)) := by
  intro rsId
  have hsplit : nl.countP (s.occupant rsId) = nl.countP (fun p => t.occupant rsId p && kept r s p) +
      nl.countP fun p => (s.ops p).leavesAt r && (s.ops p).rsId == rsId := by
    refine countP_add fun p hp => ?_
    cases hkeep : kept r s p with
    | true =>
        obtain ⟨_, hsame⟩ := h.same p hkeep
        have hflush : flushOp r (s.ops p) = false := by simpa [kept] using hkeep
        simp [State.occupant, hsame, Op.leavesAt, hflush]
    | false =>
        have hflush : flushOp r (s.ops p) = true := by simpa [kept] using hkeep
        have hvalid := (hinv.table.valid p).mpr (List.mem_append_left _ hp)
        have hiff : (s.ops p).occupies = (s.ops p).waitsInRs := by
          cases hwaits : (s.ops p).waitsInRs with
          | true => exact (hinv.stages.node p hp).occupies_of_waits hwaits
          | false =>
              refine Bool.eq_false_iff.mpr fun hocc => ?_
              rw [hclean p hvalid hflush hocc] at hwaits
              cases hwaits
        simp [State.occupant, Op.leavesAt, hflush, hiff]
  rw [List.countP_filter]
  have hcount := h.counts rsId
  rw [hc rsId] at hcount
  omega

/-- The ops that wait for a station are the youngest, so a flush cuts off an end of them. -/
theorem Recovered.frontier {r : ℕ} (h : Recovered r s nl rl t) (hinv : Inv cfg s nl rl)
    (hf : Frontier s s.nextOpIntoRs nl) : Frontier t t.nextOpIntoRs (nl.filter (kept r s)) := by
  obtain ⟨filled, issued, rfl, hfilled, hissued, hnext⟩ := hf
  refine ⟨filled.filter (kept r s), issued.filter (kept r s), List.filter_append .., fun p hp => ?_,
    fun p hp => ?_, ?_⟩
  · rw [h.state]
    exact hfilled p (List.mem_filter.mp hp).1
  · rw [h.state]
    exact hissued p (List.mem_filter.mp hp).1
  · rw [h.next, hnext]
    cases issued with
    | nil => rfl
    | cons p issued =>
        by_cases hkeep : kept r s p = true
        · rw [List.filter_cons_of_pos hkeep]
          exact Option.filter_some_pos hkeep
        · -- the first of them is flushed, and the younger ones too
          have horder := (List.pairwise_append.mp hinv.table.order).1
          have hyoung := (List.pairwise_cons.mp (List.pairwise_append.mp horder).2.1).1
          have hnone : issued.filter (kept r s) = [] := by
            refine List.filter_eq_nil_iff.mpr fun q hq => ?_
            have hlt := hyoung q hq
            simp only [kept, flushOp, Bool.not_eq_true', decide_eq_false_iff_not, not_not] at hkeep ⊢
            omega
          rw [List.filter_cons_of_neg hkeep, hnone]
          simp [Option.filter, hkeep]

/-- A recovery goes through without an assertion that fails. -/
theorem Inv.recover_ok (h : Inv cfg s nl rl) {r : ℕ} (hc : Counts s nl) : ∃ t, s.cmpRecover cfg r = .ok t := by
  have hfront : ∀ p ∈ nl, (s.recoverFrontEnd r).ops p = s.ops p := by
    intro p hp
    show (if p ∈ s.waiting ∧ flushOp r (s.ops p) = true then _ else _) = _
    rw [if_neg fun hw => h.table.not_waiting hp hw.1]
  obtain ⟨b, hready, _, hbops, hbframe⟩ := flushReadyList_eq (s := s.recoverFrontEnd r) r
    h.ready.chain h.ready.nodup h.ready_length
  have hlist : b.nodeList = s.nodeList := by rw [hbframe]; rfl
  have hcount : b.nodeCount = s.nodeCount := by rw [hbframe]; rfl
  have hrs : b.rsOpCount = s.rsOpCount := by rw [hbframe]; rfl
  have hsame : ∀ p ∈ nl, flushOp r (b.ops p) = flushOp r (s.ops p) ∧ (b.ops p).state = (s.ops p).state ∧
      (b.ops p).rsId = (s.ops p).rsId := by
    intro p hp
    rw [hbops, hfront p hp]
    by_cases hrl : p ∈ rl
    · rw [if_pos hrl, flushOp, (Op.offReady_frame r _).1]
      exact ⟨rfl, (Op.offReady_frame r _).2⟩
    · rw [if_neg hrl]
      exact ⟨rfl, rfl, rfl⟩
  -- an op that leaves a station occupies it
  have hroom : ∀ rsId, nl.countP (fun p => (b.ops p).leavesAt r && (b.ops p).rsId == rsId) ≤
      b.rsOpCount rsId := by
    intro rsId
    rw [hrs, hc rsId]
    refine List.countP_mono_left fun p hp hleaves => ?_
    obtain ⟨_, hstate, hrsId⟩ := hsame p hp
    simp only [Op.leavesAt, Bool.and_eq_true, Op.waitsInRs, hstate, hrsId] at hleaves
    have hocc := (h.stages.node p hp).occupies_of_waits hleaves.1.2
    simp only [State.occupant, hocc, Bool.true_and]
    exact hleaves.2
  obtain ⟨d, hd⟩ := @flushWindow_ok cfg ((b.flushSchedulingBuffer r).flushRs r) nl r
    (by
      show Chain b.nodeList.next b.nodeList.head nl
      rw [hlist]
      exact h.table.chain) h.table.nodup_list (hcount.trans h.table.count) h.table.bound hroom
  exact ⟨_, Execution.bind_eq_ok.mpr ⟨d, Execution.bind_eq_ok.mpr ⟨b, hready, hd⟩, rfl⟩⟩

end Scarab.Node
