import Mathlib.Data.List.Nodup
import Scarab.Core.Map.Cells

/-! # What the map knows in every run

The ops of the current path are numbered without gaps, the wrong path comes after the
right one, and each cell of the map tracks the path: registers and the last store the whole
of it, the bytes of memory the ops in flight. -/

namespace Scarab.Map

open DualPath (Cell)

/-! ## The two parts of a path -/

/-- The ops of the right path, and of the wrong path. -/
def onOps (ops : List Op) : List Op := ops.filter (!·.offPath)

def offOps (ops : List Op) : List Op := ops.filter (·.offPath)

/-- Off the path, there is no way back. -/
def StaysOff (ops : List Op) : Prop :=
  ops.Pairwise fun older younger => older.offPath = true → younger.offPath = true

theorem onOps_append (ops rest : List Op) : onOps (ops ++ rest) = onOps ops ++ onOps rest :=
  List.filter_append ..

theorem offOps_append (ops rest : List Op) : offOps (ops ++ rest) = offOps ops ++ offOps rest :=
  List.filter_append ..

theorem offOps_eq_nil {ops : List Op} (h : ∀ op ∈ ops, op.offPath = false) : offOps ops = [] := by
  simp only [offOps, List.filter_eq_nil_iff]
  intro op hop
  simp [h op hop]

theorem onOps_eq_nil {ops : List Op} (h : ∀ op ∈ ops, op.offPath = true) : onOps ops = [] := by
  simp only [onOps, List.filter_eq_nil_iff]
  intro op hop
  simp [h op hop]

theorem offOps_eq_self {ops : List Op} (h : ∀ op ∈ ops, op.offPath = true) : offOps ops = ops := by
  simp only [offOps, List.filter_eq_self]
  exact h

/-- A path is its right part followed by its wrong part. -/
theorem StaysOff.split {ops : List Op} (h : StaysOff ops) : onOps ops ++ offOps ops = ops := by
  induction ops with
  | nil => rfl
  | cons op ops ih =>
      obtain ⟨hop, hrest⟩ := List.pairwise_cons.mp h
      cases ho : op.offPath with
      | false =>
          have hsplit := ih hrest
          simp only [onOps, offOps] at hsplit ⊢
          simp [ho, hsplit]
      | true =>
          have hall : ∀ o ∈ op :: ops, o.offPath = true := by
            intro o hmem
            cases List.mem_cons.mp hmem with
            | inl heq => rw [heq, ho]
            | inr hlater => exact hop o hlater ho
          rw [onOps_eq_nil hall, offOps_eq_self hall]
          rfl

/-- From the oldest off-path op on, an op list is its wrong part. -/
theorem StaysOff.dropWhile {ops : List Op} (h : StaysOff ops) :
    (ops.dropWhile fun op => !op.offPath) = offOps ops := by
  induction ops with
  | nil => rfl
  | cons op ops ih =>
      obtain ⟨hop, hrest⟩ := List.pairwise_cons.mp h
      cases ho : op.offPath with
      | false =>
          rw [List.dropWhile_cons_of_pos (by simp [ho]), ih hrest]
          simp [offOps, ho]
      | true =>
          have hall : ∀ o ∈ op :: ops, o.offPath = true := by
            intro o hmem
            cases List.mem_cons.mp hmem with
            | inl heq => rw [heq, ho]
            | inr hlater => exact hop o hlater ho
          rw [List.dropWhile_cons_of_neg (by simp [ho]), offOps_eq_self hall]

theorem onOps_filter {ops : List Op} {keep : Op → Bool}
    (h : ∀ op ∈ ops, keep op = false → op.offPath = true) :
    onOps (ops.filter keep) = onOps ops := by
  simp only [onOps, List.filter_filter]
  apply List.filter_congr
  intro op hop
  cases hk : keep op with
  | true => simp
  | false => simp [h op hop hk]

/-! ## The order of the ops -/

structure Ordered (t : Thread) : Prop where
  nums : t.path.map (·.opNum) = List.range' 1 t.path.length
  count : t.opCount = t.path.length + 1
  staysOff : StaysOff t.path
  back : t.offPath = false → ∀ op ∈ t.path, op.offPath = false
  retired_on : ∀ op ∈ t.retired, op.offPath = false
  flushed_off : ∀ op ∈ t.flushed, op.offPath = true
  unique : ((t.path ++ t.flushed).map (·.uniqueNum)).Nodup
  bound : ∀ op ∈ t.path ++ t.flushed, op.uniqueNum < t.uniqueCount

variable {t t' : Thread}

theorem Ordered.lt_pairwise (h : Ordered t) : t.path.Pairwise fun a b => a.opNum < b.opNum := by
  have hrange : (t.path.map (·.opNum)).Pairwise (· < ·) := by
    rw [h.nums]
    exact List.pairwise_lt_range'
  exact List.pairwise_map.mp hrange

theorem Ordered.opNum_lt (h : Ordered t) {op : Op} (hop : op ∈ t.path) : op.opNum < t.opCount := by
  have hmem : op.opNum ∈ t.path.map (·.opNum) := List.mem_map_of_mem hop
  rw [h.nums, List.mem_range'_1] at hmem
  rw [h.count]
  omega

/-- Ops in flight are told apart by their numbers. -/
theorem Ordered.eq_of_opNum (h : Ordered t) {a b : Op} (ha : a ∈ t.seqOpList) (hb : b ∈ t.seqOpList)
    (hnum : a.opNum = b.opNum) : a = b := by
  have hlt : t.seqOpList.Pairwise fun a b => a.opNum < b.opNum :=
    (List.pairwise_append.mp h.lt_pairwise).2.1
  have hnodup : (t.seqOpList.map (·.opNum)).Nodup :=
    List.pairwise_map.mpr (hlt.imp fun h => Nat.ne_of_lt h)
  exact List.inj_on_of_nodup_map hnodup ha hb hnum

/-- Every number up to the last one fetched is the number of an op. -/
theorem Ordered.exists_op (h : Ordered t) {r : ℕ} (hpos : 0 < r) (hr : r < t.opCount) :
    ∃ op ∈ t.path, op.opNum = r := by
  have hmem : r ∈ t.path.map (·.opNum) := by
    rw [h.nums, List.mem_range'_1]
    have := h.count
    omega
  exact List.mem_map.mp hmem

/-! ## Recovering the op list -/

theorem clipAt_eq {r : ℕ} {ops kept : List Op} (hlt : ops.Pairwise fun a b => a.opNum < b.opNum)
    (h : clipAt r ops = .ok kept) : kept = ops.filter (·.opNum ≤ r) := by
  induction ops generalizing kept with
  | nil =>
      cases h
      rfl
  | cons op ops ih =>
      obtain ⟨hop, hrest⟩ := List.pairwise_cons.mp hlt
      unfold clipAt at h
      by_cases hle : op.opNum ≤ r
      · rw [if_pos hle] at h
        by_cases heq : op.opNum = r
        · rw [if_pos heq] at h
          cases h
          have hnone : ops.filter (·.opNum ≤ r) = [] := by
            simp only [List.filter_eq_nil_iff, decide_eq_true_eq]
            intro o ho
            have := hop o ho
            omega
          simp [hle, hnone]
        · rw [if_neg heq] at h
          obtain ⟨k, hk, hret⟩ := Execution.bind_eq_ok.mp h
          cases hret
          simp [hle, ih hrest hk]
      · rw [if_neg hle] at h
        cases h

theorem clipAt_all {r : ℕ} {ops : List Op} (hlt : ops.Pairwise fun a b => a.opNum < b.opNum)
    (hle : ∀ op ∈ ops, op.opNum ≤ r) : clipAt r ops = .ok ops := by
  induction ops with
  | nil => rfl
  | cons op ops ih =>
      obtain ⟨hop, hrest⟩ := List.pairwise_cons.mp hlt
      unfold clipAt
      rw [if_pos (hle op (by simp))]
      by_cases heq : op.opNum = r
      · rw [if_pos heq]
        have hnil : ops = [] := by
          apply List.eq_nil_iff_forall_not_mem.mpr
          intro o ho
          have := hop o ho
          have := hle o (by simp [ho])
          omega
        rw [hnil]
      · rw [if_neg heq, ih hrest fun o ho => hle o (by simp [ho])]
        rfl

/-- A recovery keeps the ops up to the recovering one. -/
theorem recoverSeqOpList_eq {r : ℕ} {ops kept : List Op}
    (hlt : ops.Pairwise fun a b => a.opNum < b.opNum) (h : recoverSeqOpList ops r = .ok kept) :
    kept = ops.filter (·.opNum ≤ r) := by
  cases ops with
  | nil =>
      cases h
      rfl
  | cons head rest =>
      simp only [recoverSeqOpList] at h
      by_cases hhead : r < head.opNum
      · rw [if_pos hhead] at h
        obtain ⟨_, hk⟩ := Execution.ite_error_eq_ok.mp h
        cases hk
        obtain ⟨hop, _⟩ := List.pairwise_cons.mp hlt
        symm
        simp only [List.filter_eq_nil_iff, decide_eq_true_eq, List.mem_cons, forall_eq_or_imp]
        refine ⟨by omega, fun o ho => ?_⟩
        have := hop o ho
        omega
      · rw [if_neg hhead] at h
        exact clipAt_eq hlt h

theorem recoverSeqOpList_all {r : ℕ} {ops : List Op}
    (hlt : ops.Pairwise fun a b => a.opNum < b.opNum) (hle : ∀ op ∈ ops, op.opNum ≤ r) :
    recoverSeqOpList ops r = .ok ops := by
  cases ops with
  | nil => rfl
  | cons head rest =>
      have := hle head (by simp)
      rw [recoverSeqOpList, if_neg (by omega)]
      exact clipAt_all hlt hle

/-! ## What a step does -/

variable {p : Params}

inductive StepSpec (p : Params) (t : Thread) : Event → Thread → Prop where
  | fetch {op mispred srcs m} (hnext : t.Next op)
      (hroom : (t.seqOpList ++ [op]).length < maxSeqOps)
      (hmap : threadMap p t.map op = .ok (srcs, m)) :
      StepSpec p t (.fetch op mispred)
        { t with
          map := m, seqOpList := t.seqOpList ++ [op], opCount := op.opNum + 1
          uniqueCount := op.uniqueNum + 1, offPath := t.offPath || mispred }
  | retire {op rest} (hseq : t.seqOpList = op :: rest) (hon : op.offPath = false) :
      StepSpec p t .retire
        { t with map := freeOp t.map op, seqOpList := rest, retired := t.retired ++ [op] }
  | recover {r force kept} (hrec : t.Recovers r force)
      (hkept : recoverSeqOpList t.seqOpList r = .ok kept) :
      StepSpec p t (.recover r force)
        { t with
          map := recoverMap t.map kept, seqOpList := kept
          flushed := t.flushed ++ t.seqOpList.filter (r < ·.opNum), opCount := r + 1
          offPath := force }
  | free {op} (hop : op ∈ t.flushed) :
      StepSpec p t (.free op) { t with map := freeOp t.map op, flushed := t.flushed.erase op }

theorem step_spec {e : Event} (h : t.step p e = .ok t') : StepSpec p t e t' := by
  cases e with
  | fetch op mispred =>
      obtain ⟨hnext, h⟩ := Execution.ite_error_eq_ok.mp h
      obtain ⟨hroom, h⟩ := Execution.ite_error_eq_ok.mp h
      obtain ⟨⟨srcs, m⟩, hmap, hret⟩ := Execution.bind_eq_ok.mp h
      cases hret
      exact .fetch hnext hroom hmap
  | retire =>
      simp only [Thread.step] at h
      split at h
      · rename_i op rest hseq
        cases hon : op.offPath with
        | true => simp [hon] at h
        | false =>
            simp only [hon] at h
            cases h
            exact .retire hseq hon
      · cases h
  | recover r force =>
      obtain ⟨hrec, h⟩ := Execution.ite_error_eq_ok.mp h
      obtain ⟨kept, hkept, hret⟩ := Execution.bind_eq_ok.mp h
      cases hret
      exact .recover hrec hkept
  | free op =>
      obtain ⟨hop, h⟩ := Execution.ite_error_eq_ok.mp h
      cases h
      exact .free hop

/-! ## The order in every run -/

theorem Ordered.seq_pairwise (h : Ordered t) : t.seqOpList.Pairwise fun a b => a.opNum < b.opNum :=
  (List.pairwise_append.mp h.lt_pairwise).2.1

/-- The whole path after a recovery. -/
theorem Ordered.path_recover (h : Ordered t) {r : ℕ} {force : Bool} {kept : List Op}
    (hrec : t.Recovers r force) (hkept : recoverSeqOpList t.seqOpList r = .ok kept) :
    t.retired ++ kept = t.path.filter (·.opNum ≤ r) := by
  have hret : t.retired.filter (·.opNum ≤ r) = t.retired := by
    simp only [List.filter_eq_self, decide_eq_true_eq]
    intro op hop
    by_contra hlt
    have hoff := hrec.wrongPath op (List.mem_append_left _ hop) (by omega)
    rw [h.retired_on op hop] at hoff
    cases hoff
  rw [Thread.path, List.filter_append, hret, recoverSeqOpList_eq h.seq_pairwise hkept]

/-- The numbers of the first ops of a path. -/
theorem nums_filter {ops : List Op} {r : ℕ}
    (hnums : ops.map (·.opNum) = List.range' 1 ops.length) (hr : r ≤ ops.length) :
    (ops.filter (·.opNum ≤ r)).map (·.opNum) = List.range' 1 r ∧
      (ops.filter (·.opNum ≤ r)).length = r := by
  have hfilter : (ops.filter (·.opNum ≤ r)).map (·.opNum) = List.range' 1 r := by
    have hmap : (ops.filter (·.opNum ≤ r)).map (·.opNum) =
        (ops.map (·.opNum)).filter (· ≤ r) := by
      rw [List.filter_map]
      rfl
    rw [hmap, hnums, show ops.length = r + (ops.length - r) by omega, ← List.range'_append_1]
    have hfirst : (List.range' 1 r).filter (· ≤ r) = List.range' 1 r := by
      simp only [List.filter_eq_self, List.mem_range'_1, decide_eq_true_eq]
      omega
    have hrest : (List.range' (1 + r) (ops.length - r)).filter (· ≤ r) = [] := by
      simp only [List.filter_eq_nil_iff, List.mem_range'_1, decide_eq_true_eq]
      omega
    rw [List.filter_append, hfirst, hrest, List.append_nil]
  refine ⟨hfilter, ?_⟩
  simpa using congrArg List.length hfilter

theorem StaysOff.concat {ops : List Op} (h : StaysOff ops) {op : Op}
    (hop : op.offPath = true ∨ ∀ o ∈ ops, o.offPath = false) : StaysOff (ops ++ [op]) := by
  apply List.pairwise_append.mpr
  refine ⟨h, List.pairwise_singleton _ _, ?_⟩
  intro older holder younger hyounger hoff
  obtain rfl := List.mem_singleton.mp hyounger
  cases hop with
  | inl hop => exact hop
  | inr hall =>
      rw [hall older holder] at hoff
      cases hoff

theorem Ordered.fetch (h : Ordered t) {op : Op} (hnext : t.Next op) {m : MapData} {mispred : Bool} :
    Ordered { t with
      map := m, seqOpList := t.seqOpList ++ [op], opCount := op.opNum + 1
      uniqueCount := op.uniqueNum + 1, offPath := t.offPath || mispred } := by
  obtain ⟨hnum, hunique, hoff⟩ := hnext
  have hpath : t.retired ++ (t.seqOpList ++ [op]) = t.path ++ [op] := (List.append_assoc ..).symm
  have hperm : (t.path ++ [op] ++ t.flushed).Perm (op :: (t.path ++ t.flushed)) := by
    rw [List.append_assoc]
    exact List.perm_middle
  constructor
  · simp only [Thread.path]
    rw [hpath, List.map_append, h.nums, List.length_append, List.length_singleton,
      List.range'_1_concat]
    simp [hnum, h.count, Nat.add_comm]
  · simp only [Thread.path]
    rw [hpath]
    simp [hnum, h.count]
  · simp only [Thread.path]
    rw [hpath]
    apply h.staysOff.concat
    cases ho : t.offPath with
    | true => exact .inl (hoff.trans ho)
    | false => exact .inr (h.back ho)
  · simp only [Thread.path, Bool.or_eq_false_iff]
    rw [hpath]
    rintro ⟨hback, _⟩ o ho
    cases List.mem_append.mp ho with
    | inl hold => exact h.back hback o hold
    | inr hnew =>
        obtain rfl := List.mem_singleton.mp hnew
        exact hoff.trans hback
  · exact h.retired_on
  · exact h.flushed_off
  · simp only [Thread.path]
    rw [hpath, (hperm.map _).nodup_iff, List.map_cons, List.nodup_cons]
    refine ⟨?_, h.unique⟩
    intro hmem
    obtain ⟨o, ho, heq⟩ := List.mem_map.mp hmem
    have := h.bound o ho
    omega
  · simp only [Thread.path]
    rw [hpath]
    intro o ho
    cases List.mem_cons.mp (hperm.mem_iff.mp ho) with
    | inl heq =>
        rw [heq]
        exact Nat.lt_succ_self _
    | inr hold => exact Nat.lt_succ_of_lt (Nat.lt_of_lt_of_le (h.bound o hold) hunique)

theorem Ordered.retire (h : Ordered t) {op : Op} {rest : List Op} (hseq : t.seqOpList = op :: rest)
    (hon : op.offPath = false) {m : MapData} :
    Ordered { t with map := m, seqOpList := rest, retired := t.retired ++ [op] } := by
  have hpath : t.retired ++ [op] ++ rest = t.path := by
    rw [Thread.path, hseq, List.append_assoc]
    rfl
  constructor
  · simp only [Thread.path, hpath]
    exact h.nums
  · simp only [Thread.path, hpath]
    exact h.count
  · simp only [Thread.path, hpath]
    exact h.staysOff
  · simp only [Thread.path, hpath]
    exact h.back
  · intro o ho
    cases List.mem_append.mp ho with
    | inl hold => exact h.retired_on o hold
    | inr hnew =>
        obtain rfl := List.mem_singleton.mp hnew
        exact hon
  · exact h.flushed_off
  · simp only [Thread.path, hpath]
    exact h.unique
  · simp only [Thread.path, hpath]
    exact h.bound

/-- After a recovery that does not stay off the path, no op of the path is off it. -/
theorem Ordered.on_of_recover (h : Ordered t) {r : ℕ} (hrec : t.Recovers r false) {o : Op}
    (ho : o ∈ t.path) (hle : o.opNum ≤ r) : o.offPath = false := by
  have hpos : 0 < o.opNum := by
    have hmem : o.opNum ∈ t.path.map (·.opNum) := List.mem_map_of_mem ho
    rw [h.nums, List.mem_range'_1] at hmem
    omega
  obtain ⟨op, hop, hnum⟩ := h.exists_op (by omega) hrec.fetched
  have hon : op.offPath = false := by
    by_contra hoff
    have := hrec.forced op hop hnum (by simpa using hoff)
    cases this
  -- an off-path op would make the recovering one off-path
  by_contra hoff
  have hoff : o.offPath = true := by simpa using hoff
  obtain ⟨pre, post, hsplit⟩ := List.append_of_mem ho
  have hlt := h.lt_pairwise
  have hstays := h.staysOff
  rw [hsplit] at hlt hstays hop
  have hlt := (List.pairwise_append.mp hlt)
  have hstays := (List.pairwise_append.mp hstays).2.1
  cases List.mem_append.mp hop with
  | inl hpre =>
      have := hlt.2.2 op hpre o (by simp)
      omega
  | inr hpost =>
      cases List.mem_cons.mp hpost with
      | inl heq =>
          rw [heq, hoff] at hon
          cases hon
      | inr hlater =>
          rw [(List.pairwise_cons.mp hstays).1 op hlater hoff] at hon
          cases hon

theorem Ordered.recover (h : Ordered t) {r : ℕ} {force : Bool} {kept : List Op}
    (hrec : t.Recovers r force) (hkept : recoverSeqOpList t.seqOpList r = .ok kept) {m : MapData} :
    Ordered { t with
      map := m, seqOpList := kept, flushed := t.flushed ++ t.seqOpList.filter (r < ·.opNum)
      opCount := r + 1, offPath := force } := by
  have hpath := h.path_recover hrec hkept
  have hr : r ≤ t.path.length := by
    have := h.count
    have := hrec.fetched
    omega
  have hnums := nums_filter h.nums hr
  have hretired : t.retired.filter (r < ·.opNum) = [] := by
    simp only [List.filter_eq_nil_iff, decide_eq_true_eq]
    intro op hop hlt
    have hoff := hrec.wrongPath op (List.mem_append_left _ hop) hlt
    rw [h.retired_on op hop] at hoff
    cases hoff
  have hdropped : t.seqOpList.filter (r < ·.opNum) = t.path.filter (r < ·.opNum) := by
    rw [Thread.path, List.filter_append, hretired, List.nil_append]
  have hperm : (t.path.filter (·.opNum ≤ r) ++ (t.flushed ++ t.path.filter (r < ·.opNum))).Perm
      (t.path ++ t.flushed) := by
    have hsplit : (t.path.filter (·.opNum ≤ r) ++ t.path.filter (r < ·.opNum)).Perm t.path := by
      have hnot : (fun op : Op => decide (r < op.opNum)) = fun op => !decide (op.opNum ≤ r) := by
        funext op
        rw [← decide_not]
        simp only [Nat.not_le]
      rw [hnot]
      exact List.filter_append_perm _ _
    calc (t.path.filter (·.opNum ≤ r) ++ (t.flushed ++ t.path.filter (r < ·.opNum))).Perm
          (t.path.filter (·.opNum ≤ r) ++ (t.path.filter (r < ·.opNum) ++ t.flushed)) :=
          List.Perm.append_left _ List.perm_append_comm
      _ = t.path.filter (·.opNum ≤ r) ++ t.path.filter (r < ·.opNum) ++ t.flushed :=
          (List.append_assoc ..).symm
      (t.path.filter (·.opNum ≤ r) ++ t.path.filter (r < ·.opNum) ++ t.flushed).Perm
          (t.path ++ t.flushed) := hsplit.append_right _
  constructor
  · show (t.retired ++ kept).map (·.opNum) = List.range' 1 (t.retired ++ kept).length
    rw [hpath, hnums.2]
    exact hnums.1
  · show r + 1 = (t.retired ++ kept).length + 1
    rw [hpath, hnums.2]
  · show StaysOff (t.retired ++ kept)
    rw [hpath]
    exact h.staysOff.filter _
  · show force = false → ∀ op ∈ t.retired ++ kept, op.offPath = false
    rw [hpath]
    rintro rfl o ho
    obtain ⟨hmem, hle⟩ := List.mem_filter.mp ho
    exact h.on_of_recover hrec hmem (by simpa using hle)
  · exact h.retired_on
  · intro o ho
    cases List.mem_append.mp ho with
    | inl hold => exact h.flushed_off o hold
    | inr hnew =>
        obtain ⟨hmem, hlt⟩ := List.mem_filter.mp hnew
        exact hrec.wrongPath o (List.mem_append_right _ hmem) (by simpa using hlt)
  · show ((t.retired ++ kept ++ (t.flushed ++ t.seqOpList.filter (r < ·.opNum))).map
      (·.uniqueNum)).Nodup
    rw [hpath, hdropped, (hperm.map _).nodup_iff]
    exact h.unique
  · show ∀ op ∈ t.retired ++ kept ++ (t.flushed ++ t.seqOpList.filter (r < ·.opNum)),
      op.uniqueNum < t.uniqueCount
    rw [hpath, hdropped]
    intro o ho
    exact h.bound o (hperm.mem_iff.mp ho)

theorem Ordered.free (h : Ordered t) (op : Op) {m : MapData} :
    Ordered { t with map := m, flushed := t.flushed.erase op } := by
  have hsub : (t.path ++ t.flushed.erase op).Sublist (t.path ++ t.flushed) :=
    (List.erase_sublist).append_left _
  exact ⟨h.nums, h.count, h.staysOff, h.back, h.retired_on,
    fun o ho => h.flushed_off o (List.mem_of_mem_erase ho), h.unique.sublist (hsub.map _),
    fun o ho => h.bound o (hsub.subset ho)⟩

theorem Ordered.step {e : Event} (h : Ordered t) (hs : t.step p e = .ok t') : Ordered t' := by
  cases step_spec hs with
  | fetch hnext _ _ => exact h.fetch hnext
  | retire hseq hon => exact h.retire hseq hon
  | recover hrec hkept => exact h.recover hrec hkept
  | @free op hop => exact h.free op

theorem init_ordered : Ordered .init := by
  constructor <;> simp [Thread.init, Thread.path, StaysOff]

end Scarab.Map
