import Scarab.Core.FrontEnd.Stages

/-! # What a recovery drops

A recovery frees the flushed ops of the stages one after the other, and keeps the others where they
are or, in the map stage, moves them to the front. -/

namespace Scarab.FrontEnd

open OpPool (OpPtr Op Pool)

variable {w r : ℕ} {f f' : Flush} {P : OpPtr → Bool} {l rest : List OpPtr} {p : OpPtr}

/-- The ops are freed in this order. -/
def Flush.dropAll (f : Flush) (l : List OpPtr) : Except String Flush := l.foldlM Flush.drop f

theorem dropAll_append (f : Flush) (l l' : List OpPtr) :
    f.dropAll (l ++ l') = f.dropAll l >>= fun f => f.dropAll l' :=
  List.foldlM_append ..

theorem drop_same (h : f.drop p = .ok f') (q : OpPtr) : (f.pool.ops q).Same (f'.pool.ops q) := by
  obtain ⟨pool, hpool, hf⟩ := Execution.bind_eq_ok.mp h
  cases hf
  exact OpPool.freeOp_same hpool q

theorem dropAll_same (h : f.dropAll l = .ok f') (q : OpPtr) : (f.pool.ops q).Same (f'.pool.ops q) := by
  rw [Flush.dropAll, Execution.foldlM_eq_run] at h
  refine Execution.run_invariant (I := fun g => (f.pool.ops q).Same (g.pool.ops q)) ?_ (.refl _) h
  intro g p g' hg hstep
  exact hg.trans (drop_same hstep q)

/-- Which ops are flushed does not depend on what was freed. -/
theorem flushOp_congr {ops ops' : OpPtr → Op} (h : ∀ q, (ops q).Same (ops' q)) (r : ℕ) :
    flushOp ops' r = flushOp ops r := by
  funext q
  rw [flushOp, (h q).opNum, flushOp]

/-- All ops in the list can be freed, if they are in use. -/
theorem dropAll_ok (h : f.pool.Holds (l ++ rest)) : ∃ f', f.dropAll l = .ok f' ∧ f'.pool.Holds rest ∧
    f'.flushed = f.flushed ++ l.map fun p => (f.pool.ops p).uniqueNumPerProc := by
  induction l generalizing f with
  | nil => exact ⟨f, rfl, h, by simp⟩
  | cons p l ih =>
      obtain ⟨pool, hfree, hholds, _⟩ := h.free_ok (p := p) (List.mem_cons_self ..)
      rw [List.cons_append, List.erase_cons_head] at hholds
      have hdrop : f.drop p = .ok ⟨pool, f.flushed ++ [(f.pool.ops p).uniqueNumPerProc]⟩ :=
        Execution.bind_eq_ok.mpr ⟨pool, hfree, rfl⟩
      obtain ⟨f', hf', hrest, hflushed⟩ := ih (f := ⟨pool, _⟩) hholds
      refine ⟨f', Execution.bind_eq_ok.mpr ⟨_, hdrop, hf'⟩, hrest, ?_⟩
      have hsame : (l.map fun q => (pool.ops q).uniqueNumPerProc) =
          l.map fun q => (f.pool.ops q).uniqueNumPerProc :=
        List.map_congr_left fun q _ => (OpPool.freeOp_same hfree q).uniqueNum
      rw [hflushed, hsame, List.append_assoc, List.map_cons, List.singleton_append]

/-- The slots after a recovery that flushes the ops of `P`. -/
def keepSlots (P : OpPtr → Bool) (slots : List (Option OpPtr)) : List (Option OpPtr) :=
  slots.map fun slot => slot.filter fun p => !P p

theorem reduceOption_keepSlots (P : OpPtr → Bool) (slots : List (Option OpPtr)) :
    (keepSlots P slots).reduceOption = slots.reduceOption.filter fun p => !P p := by
  induction slots with
  | nil => rfl
  | cons slot slots ih =>
      cases slot with
      | none => simpa [keepSlots] using ih
      | some p =>
          cases hp : P p with
          | true => simpa [keepSlots, hp, Option.filter] using ih
          | false => simpa [keepSlots, hp, Option.filter] using ih

/-- The drop in front of what follows. -/
theorem dropAll_cons (f : Flush) (p : OpPtr) (l : List OpPtr) :
    f.dropAll (p :: l) = f.drop p >>= fun f => f.dropAll l := rfl

theorem recoverSlots_eq (slots : List (Option OpPtr)) (hP : flushOp f.pool.ops r = P) :
    recoverSlots r slots f = (·, keepSlots P slots) <$> f.dropAll (slots.reduceOption.filter P) := by
  induction slots generalizing f with
  | nil => rfl
  | cons slot slots ih =>
      cases slot with
      | none =>
          rw [recoverSlots, ih hP, List.reduceOption_cons_of_none]
          cases f.dropAll (slots.reduceOption.filter P) <;> rfl
      | some p =>
          rw [recoverSlots, hP, List.reduceOption_cons_of_some]
          cases hp : P p with
          | true =>
              rw [if_pos rfl, List.filter_cons_of_pos hp, dropAll_cons]
              cases hdrop : f.drop p with
              | error e => rfl
              | ok g =>
                  have hg : flushOp g.pool.ops r = P := (flushOp_congr (drop_same hdrop) r).trans hP
                  have hkeep : keepSlots P (some p :: slots) = none :: keepSlots P slots := by
                    simp [keepSlots, hp, Option.filter]
                  show recoverSlots r slots g >>= _ = _ <$> g.dropAll _
                  rw [ih hg, hkeep]
                  cases g.dropAll (slots.reduceOption.filter P) <;> rfl
          | false =>
              have hkeep : keepSlots P (some p :: slots) = some p :: keepSlots P slots := by
                simp [keepSlots, hp, Option.filter]
              rw [if_neg Bool.false_ne_true, List.filter_cons_of_neg (by simp [hp]), ih hP, hkeep]
              cases f.dropAll (slots.reduceOption.filter P) <;> rfl

/-- The stage after a recovery of the icache or the decode stage. -/
def StageData.keep (P : OpPtr → Bool) (sd : StageData) : StageData :=
  ⟨(keepSlots P sd.ops).reduceOption.length, keepSlots P sd.ops⟩

/-- The stage after a recovery of the map stage. -/
def StageData.collapse (P : OpPtr → Bool) (sd : StageData) : StageData :=
  let kept := (keepSlots P sd.ops).reduceOption
  ⟨kept.length, kept.map some ++ List.replicate (sd.ops.length - kept.length) none⟩

theorem recoverStage_eq (sd : StageData) (hP : flushOp f.pool.ops r = P) :
    recoverStage r sd f = (·, sd.keep P) <$> f.dropAll (sd.content.filter P) := by
  rw [recoverStage, recoverSlots_eq sd.ops hP, StageData.content]
  cases f.dropAll (sd.ops.reduceOption.filter P) <;> rfl

theorem collapseStage_eq (sd : StageData) (hP : flushOp f.pool.ops r = P) :
    collapseStage r sd f = (·, sd.collapse P) <$> f.dropAll (sd.content.filter P) := by
  rw [collapseStage, recoverSlots_eq sd.ops hP, StageData.content]
  cases f.dropAll (sd.ops.reduceOption.filter P) <;> rfl

theorem recoverStages_eq {recover : StageData → Flush → Except String (Flush × StageData)}
    {g : StageData → StageData} (sds : List StageData) (hP : flushOp f.pool.ops r = P)
    (hrecover : ∀ (sd : StageData) (f : Flush), flushOp f.pool.ops r = P →
      recover sd f = (·, g sd) <$> f.dropAll (sd.content.filter P)) :
    recoverStages recover sds f =
      (·, sds.map g) <$> f.dropAll ((sds.flatMap StageData.content).filter P) := by
  induction sds generalizing f with
  | nil => rfl
  | cons sd sds ih =>
      rw [recoverStages, hrecover sd f hP, List.flatMap_cons, List.filter_append, dropAll_append]
      cases hdrop : f.dropAll (sd.content.filter P) with
      | error e => rfl
      | ok h =>
          have hh : flushOp h.pool.ops r = P := (flushOp_congr (dropAll_same hdrop) r).trans hP
          show recoverStages recover sds h >>= _ = _ <$> h.dropAll _
          rw [ih hh]
          cases h.dropAll ((sds.flatMap StageData.content).filter P) <;> rfl

theorem flushWindow_eq (l : List OpPtr) (hP : flushOp f.pool.ops r = P) :
    flushWindow r l f = (·, l.filter fun p => !P p) <$> f.dropAll (l.filter P) := by
  induction l generalizing f with
  | nil => rfl
  | cons p l ih =>
      rw [flushWindow, hP]
      cases hp : P p with
      | true =>
          have hdropped : ¬ (!P p) = true := by simp [hp]
          rw [if_pos rfl, List.filter_cons_of_pos hp, dropAll_cons,
            List.filter_cons_of_neg (p := fun p => !P p) hdropped]
          cases hdrop : f.drop p with
          | error e => rfl
          | ok g => exact ih ((flushOp_congr (drop_same hdrop) r).trans hP)
      | false =>
          have hkept : (!P p) = true := by simp [hp]
          rw [if_neg Bool.false_ne_true, List.filter_cons_of_neg (p := P) (by simp [hp]), ih hP,
            List.filter_cons_of_pos (p := fun p => !P p) hkept]
          cases f.dropAll (l.filter P) <;> rfl

/-! ## The ops that are kept -/

/-- Where the flushed elements are the end of a list, it is cut in two. -/
theorem filter_split (h : l.Pairwise fun p q => P p = true → P q = true) :
    l.filter (fun p => !P p) ++ l.filter P = l := by
  induction l with
  | nil => rfl
  | cons p l ih =>
      obtain ⟨hp, hl⟩ := List.pairwise_cons.mp h
      cases hflush : P p with
      | true =>
          have hall : l.filter P = l := List.filter_eq_self.mpr fun q hq => hp q hq hflush
          have hnone : l.filter (fun p => !P p) = [] :=
            List.filter_eq_nil_iff.mpr fun q hq => by simp [hp q hq hflush]
          rw [List.filter_cons_of_neg (p := fun p => !P p) (by simp [hflush]), hnone,
            List.filter_cons_of_pos hflush, hall, List.nil_append]
      | false =>
          rw [List.filter_cons_of_pos (p := fun p => !P p) (by simp [hflush]),
            List.filter_cons_of_neg (p := P) (by simp [hflush]), List.cons_append, ih hl]

theorem prefix_filter (h : l.Pairwise fun p q => P p = true → P q = true) : l.filter (fun p => !P p) <+: l :=
  ⟨_, filter_split h⟩

theorem keepSlots_none (P : OpPtr → Bool) (n : ℕ) : keepSlots P (List.replicate n none) = List.replicate n none := by
  simp [keepSlots]

theorem keepSlots_kept (h : ∀ p ∈ l, P p = false) : keepSlots P (l.map some) = l.map some := by
  rw [keepSlots, List.map_map]
  refine List.map_congr_left fun p hp => ?_
  simp [Option.filter, h p hp]

theorem keepSlots_dropped (h : ∀ p ∈ l, P p = true) : keepSlots P (l.map some) = List.replicate l.length none := by
  rw [keepSlots, List.map_map, ← List.map_const']
  refine List.map_congr_left fun p hp => ?_
  simp [Option.filter, h p hp]

/-- The ops of the icache and the decode stage stay in the first slots. -/
theorem StageData.Packed.keep {sd : StageData} (h : sd.Packed w)
    (hmono : sd.content.Pairwise fun p q => P p = true → P q = true) :
    (sd.keep P).Packed w ∧ (sd.keep P).content = sd.content.filter fun p => !P p := by
  have hcontent : (sd.keep P).content = sd.content.filter fun p => !P p := reduceOption_keepSlots P sd.ops
  have hsplit := filter_split hmono
  have hlength := congrArg List.length hsplit
  have hle := h.length_le
  rw [List.length_append] at hlength
  refine ⟨⟨⟨?_, ?_⟩, ?_⟩, hcontent⟩
  · rw [StageData.keep, keepSlots, List.length_map]
    exact h.length
  · rfl
  · have hkept : ∀ p ∈ sd.content.filter fun p => !P p, P p = false := fun p hp => by
      simpa using (List.mem_filter.mp hp).2
    have hdropped : ∀ p ∈ sd.content.filter P, P p = true := fun p hp => (List.mem_filter.mp hp).2
    show keepSlots P sd.ops = _
    rw [hcontent, h.ops]
    conv_lhs => rw [← hsplit]
    rw [List.map_append, keepSlots, List.map_append, List.map_append, ← keepSlots, ← keepSlots, ← keepSlots,
      keepSlots_kept hkept, keepSlots_dropped hdropped, keepSlots_none, List.append_assoc,
      ← List.replicate_add, hsplit]
    congr 2
    omega

theorem StageData.Counted.collapse {sd : StageData} (h : sd.Counted w) (P : OpPtr → Bool) :
    (sd.collapse P).Packed w ∧ (sd.collapse P).content = sd.content.filter fun p => !P p := by
  have hkept : (keepSlots P sd.ops).reduceOption = sd.content.filter fun p => !P p := reduceOption_keepSlots P sd.ops
  have hle : (keepSlots P sd.ops).reduceOption.length ≤ w := by
    rw [hkept]
    exact (List.length_filter_le ..).trans h.length_le
  have hcollapse : sd.collapse P = ⟨(keepSlots P sd.ops).reduceOption.length,
      (keepSlots P sd.ops).reduceOption.map some ++
        List.replicate (w - (keepSlots P sd.ops).reduceOption.length) none⟩ := by
    rw [StageData.collapse, h.length]
  rw [hcollapse]
  exact ⟨.of_ops _ hle, (reduceOption_packed ..).trans hkept⟩

/-! ## The sequential op list -/

/-- How many of consecutive numbers are not above a bound. -/
theorem length_filter_range' (a n r : ℕ) : ((List.range' a n).filter (· ≤ r)).length = min n (r + 1 - a) := by
  induction n generalizing a with
  | zero => simp
  | succ n ih =>
      rw [List.range'_succ]
      by_cases ha : a ≤ r
      · rw [List.filter_cons_of_pos (by simpa using ha), List.length_cons, ih]
        omega
      · rw [List.filter_cons_of_neg (by simpa using ha), ih]
        omega

variable {ops : OpPtr → Op} {a : ℕ}

/-- Ops with numbers above that of the recovering one are flushed. -/
theorem kept_eq_nil (hnums : l.map (fun p => (ops p).opNum) = List.range' a l.length) (ha : r < a) :
    l.filter (fun p => !flushOp ops r p) = [] := by
  refine List.filter_eq_nil_iff.mpr fun q hq => ?_
  have hmem : (ops q).opNum ∈ List.range' a l.length := hnums ▸ List.mem_map_of_mem hq
  have hlt := (List.mem_range'_1.mp hmem).1
  simp only [flushOp, Bool.not_eq_true, Bool.not_eq_false', decide_eq_true_eq]
  omega

/-- The loop keeps the ops up to the recovering one. -/
theorem clipAt_eq (hnums : l.map (fun p => (ops p).opNum) = List.range' a l.length) (ha : a ≤ r) :
    clipAt ops r l = .ok (l.filter fun p => !flushOp ops r p) := by
  induction l generalizing a with
  | nil => rfl
  | cons p l ih =>
      rw [List.map_cons, List.length_cons, List.range'_succ] at hnums
      obtain ⟨hp, hl⟩ := List.cons.inj hnums
      have hkeep : (!flushOp ops r p) = true := by simpa [flushOp, hp] using ha
      rw [clipAt, hp, if_pos ha, List.filter_cons_of_pos (p := fun p => !flushOp ops r p) hkeep]
      by_cases hlast : a = r
      · rw [if_pos hlast, kept_eq_nil hl (by omega)]
      · rw [if_neg hlast, ih hl (by omega)]
        rfl

/-- `recover_seq_op_list` keeps the ops that are not flushed. -/
theorem recoverSeqOpList_eq (hnums : l.map (fun p => (ops p).opNum) = List.range' a l.length) (ha : a ≤ r + 1) :
    recoverSeqOpList ops r l = .ok (l.filter fun p => !flushOp ops r p) := by
  cases l with
  | nil => rfl
  | cons p l =>
      have hnums' := hnums
      rw [List.map_cons, List.length_cons, List.range'_succ] at hnums'
      obtain ⟨hp, _⟩ := List.cons.inj hnums'
      rw [recoverSeqOpList, hp]
      by_cases hhead : r < a
      · rw [if_pos hhead, if_pos (by omega), kept_eq_nil hnums hhead]
      · rw [if_neg hhead]
        exact clipAt_eq hnums (Nat.le_of_not_lt hhead)

end Scarab.FrontEnd
