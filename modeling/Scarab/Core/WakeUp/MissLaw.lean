import Scarab.Core.WakeUp.MissTraversals

/-! # The law of the marks

An op in flight is marked exactly if one of its producers is in the machine and misses or is marked. The events keep this
as long as no op has a miss of its own besides the one it depends on. -/

namespace Scarab.MissDeps

open WakeUp (OpPtr SrcInfo WakeUpEntry)

variable {s t : State} {p d x : OpPtr} {e : WakeUpEntry}

/-- The marks are those of the producers. -/
def State.Law (s : State) : Prop := ∀ d, s.InFlight d → ((s.ops d).depOnL1Miss = true ↔ s.Supported d)

/-- The invariant of a run. -/
structure State.Lawful (s : State) : Prop where
  linked : s.Linked
  law : s.Law
  apart : ∀ x, s.InFlight x → (s.ops x).depOnL1Miss = true → (s.ops x).missing = false
  unmapped : ∀ x, (s.ops x).valid = true → (s.ops x).mapped = false →
    (s.ops x).l1Miss = false ∧ (s.ops x).depOnL1Miss = false

/-- The op has a marked producer besides another. -/
def State.SupportedApart (s : State) (p d : OpPtr) : Prop := ∃ q, q ≠ p ∧ s.Producer d q ∧ (s.ops q).marked = true

/-- What the stages of the core see to: unique numbers grow, the sources of an op are older and of the same core, ops are
linked in program order, and only ops in flight have requests. -/
def State.Legal (s : State) : Event → Prop
  | .alloc p uniqueNum _ _ srcs =>
      (s.ops p).valid = false ∧ s.uniqueCount ≤ uniqueNum ∧ ∀ src ∈ srcs, src.uniqueNum < uniqueNum
  | .map p =>
      (s.ops p).valid = true ∧ (s.ops p).mapped = false ∧ (∀ d, ¬ s.Consumer p d) ∧
        ∀ q, s.Producer p q → (s.ops p).procId = (s.ops q).procId
  | .miss p => s.InFlight p
  | .join p _ => s.InFlight p
  | .satisfy p => s.InFlight p
  | .free p => (s.ops p).valid = true

/-- When the marks follow an event. No op misses that depends on a miss, marking comes to no op with a miss, an op whose
miss is satisfied depends on no other, and an op that joins a satisfied request or leaves the machine is not the only
reason for a mark. -/
def State.Followed (s : State) : Event → Prop
  | .alloc .. => True
  | .map _ => True
  | .miss p => (s.ops p).l1MissSatisfied = (s.ops p).depOnL1Miss ∧ s.Clear p
  | .join p false => (s.ops p).l1MissSatisfied = (s.ops p).depOnL1Miss ∧ s.Clear p
  | .join p true =>
      ((s.ops p).l1MissSatisfied = false ∨ (s.ops p).depOnL1Miss = true) ∧ s.Clear p ∧
        ∀ d, s.Consumer p d → (s.ops p).depOnL1Miss = true ∨ s.SupportedApart p d
  | .satisfy p =>
      ∀ d, s.Consumer p d → ((s.ops d).depOnL1Miss = true ∨ (s.ops d).wasDepOnL1Miss = true) ∧
        ((s.ops p).depOnL1Miss = true → s.SupportedApart p d)
  | .free p => (s.ops p).marked = true → ∀ d, s.Consumer p d → s.SupportedApart p d

/-! ### Misses -/

/-- An op gets a miss and what depends on it is marked. -/
theorem State.Lawful.mark (hs : s.Lawful) (hp : s.InFlight p) (hclear : s.Clear p)
    (hassert : (s.ops p).l1MissSatisfied = false ∨ (s.ops p).depOnL1Miss = true) :
    ∃ t, s.markOpAsL1Miss p = .ok t ∧ Marks (s.setOp p { s.ops p with l1Miss := true }) t ∧ t.Law := by
  have halike : Alike s (s.setOp p { s.ops p with l1Miss := true }) := .setOp s p true _ _ _
  have hself : (s.setOp p { s.ops p with l1Miss := true }).ops p = { s.ops p with l1Miss := true } := by
    simp [State.setOp]
  have hother : ∀ x, x ≠ p → (s.setOp p { s.ops p with l1Miss := true }).ops x = s.ops x := by
    intro x hx
    simp [State.setOp, hx]
  have hdep : ∀ x, ((s.setOp p { s.ops p with l1Miss := true }).ops x).depOnL1Miss = (s.ops x).depOnL1Miss := by
    intro x
    by_cases hx : x = p
    · rw [hx, hself]
    · rw [hother x hx]
  have hmarked : ((s.setOp p { s.ops p with l1Miss := true }).ops p).marked = true := by
    rw [hself, Op.marked, Op.missing]
    rcases hassert with h | h <;> simp [h]
  have hclear' : (s.setOp p { s.ops p with l1Miss := true }).Clear p := by
    intro x hx
    have hreached : s.Reached p x := Reached.of_alike halike (fun y hy => (hdep y).trans hy) hx
    have hxp : x ≠ p := by
      rintro rfl
      exact Nat.lt_irrefl _ (hreached.lt hs.linked)
    rw [hother x hxp]
    exact hclear x hreached
  have hdepth : ((s.setOp p { s.ops p with l1Miss := true }).withDep false).card < s.opPoolEntries + 1 := by
    refine Nat.lt_succ_of_le (Nat.le_trans (Finset.card_le_card (Finset.filter_subset _ _)) ?_)
    rw [Finset.card_range]
    exact Nat.le_refl _
  obtain ⟨t, ht, hmarks, hclosed⟩ := markTo_spec _ _ p (halike.linked hs.linked) hmarked hclear' hdepth
  refine ⟨t, ht, hmarks, fun d hd => ⟨fun hdt => ?_, ?_⟩⟩
  · cases hds : (s.ops d).depOnL1Miss with
    | false => exact (hmarks.fresh d ((hdep d).trans hds) hdt).2.1
    | true =>
        rw [hmarks.framed.inFlight, halike.inFlight] at hd
        obtain ⟨q, hq, hqmarked⟩ := (hs.law d hd).mp hds
        refine hmarks.supported ⟨q, (halike.producer d q).mpr hq, ?_⟩
        by_cases hqp : q = p
        · rw [hqp]
          exact hmarked
        · rw [hother q hqp]
          exact hqmarked
  · rintro ⟨q, hq, hqmarked⟩
    rw [hmarks.framed.inFlight] at hd
    rw [hmarks.framed.producer] at hq
    have hcons := (halike.linked hs.linked).consumer_of_producer hd hq
    by_cases hqp : q = p
    · subst hqp
      exact hclosed d hcons
    · cases hqs : (s.ops q).marked with
      | true =>
          refine hmarks.grows d ((hdep d).trans ?_)
          exact (hs.law d ((halike.inFlight d).mp hd)).mpr ⟨q, (halike.producer d q).mp hq, hqs⟩
      | false =>
          -- the mark of the producer is new, and so its consumers were visited
          rw [Op.marked, Bool.or_eq_false_iff] at hqs
          have hqt : (t.ops q).depOnL1Miss = true := by
            rw [Op.marked, hmarks.framed.missing, hother q hqp, hqs.1, Bool.false_or] at hqmarked
            exact hqmarked
          exact (hmarks.fresh q ((hdep q).trans hqs.2) hqt).2.2.2 d hcons

/-- Besides the op itself, what is marked has no miss. -/
theorem State.Lawful.apart_marks (hs : s.Lawful) (hmarks : Marks (s.setOp p { s.ops p with l1Miss := true }) t)
    (hxp : x ≠ p) (hx : t.InFlight x) (hdep : (t.ops x).depOnL1Miss = true) : (t.ops x).missing = false := by
  have hset : Alike s (s.setOp p { s.ops p with l1Miss := true }) := .setOp s p true _ _ _
  have hall := hset.trans hmarks.framed.toAlike
  rw [hmarks.framed.missing]
  cases hds : ((s.setOp p { s.ops p with l1Miss := true }).ops x).depOnL1Miss with
  | false => exact (hmarks.fresh x hds hdep).2.2.1
  | true =>
      have hds' : (s.ops x).depOnL1Miss = true := by simpa [State.setOp, hxp] using hds
      simpa [State.setOp, hxp] using hs.apart x ((hall.inFlight x).mp hx) hds'

/-- Marking reaches no op that is not linked yet. -/
theorem State.Lawful.unmapped_marks (hs : s.Lawful) (hp : s.InFlight p)
    (hmarks : Marks (s.setOp p { s.ops p with l1Miss := true }) t) (hvalid : (t.ops x).valid = true)
    (hmapped : (t.ops x).mapped = false) : (t.ops x).l1Miss = false ∧ (t.ops x).depOnL1Miss = false := by
  have hset : Alike s (s.setOp p { s.ops p with l1Miss := true }) := .setOp s p true _ _ _
  have hall := hset.trans hmarks.framed.toAlike
  rw [hall.valid] at hvalid
  rw [hall.mapped] at hmapped
  have hxp : x ≠ p := by
    rintro rfl
    exact Bool.false_ne_true (hmapped.symm.trans hp.2)
  obtain ⟨hmiss, hdep⟩ := hs.unmapped x hvalid hmapped
  refine ⟨?_, Bool.eq_false_of_not_eq_true fun hnew => ?_⟩
  · rw [hmarks.framed.l1Miss]
    simpa [State.setOp, hxp] using hmiss
  · have hflight := (hmarks.fresh x (by simpa [State.setOp, hxp] using hdep) hnew).1
    exact Bool.false_ne_true (hmapped.symm.trans ((hset.inFlight x).mp hflight).2)

/-- So does the invariant, if the op does not wait for a miss of its own while it depends on one. -/
theorem State.Lawful.miss (hs : s.Lawful) (hp : s.InFlight p) (hclear : s.Clear p)
    (hown : (s.ops p).l1MissSatisfied = (s.ops p).depOnL1Miss) :
    ∃ t, s.markOpAsL1Miss p = .ok t ∧ t.Lawful := by
  have hassert : (s.ops p).l1MissSatisfied = false ∨ (s.ops p).depOnL1Miss = true := by
    rw [hown]
    exact Bool.eq_false_or_eq_true _ |>.symm
  obtain ⟨t, ht, hmarks, hlaw⟩ := hs.mark hp hclear hassert
  have halike : Alike s (s.setOp p { s.ops p with l1Miss := true }) := .setOp s p true _ _ _
  have hall := halike.trans hmarks.framed.toAlike
  refine ⟨t, ht, hall.linked hs.linked, hlaw, fun x hx hdep => ?_, fun x hvalid hmapped => ?_⟩
  · by_cases hxp : x = p
    · subst hxp
      rw [hmarks.framed.missing]
      cases hds : ((s.setOp x { s.ops x with l1Miss := true }).ops x).depOnL1Miss with
      | false => exact (hmarks.fresh x hds hdep).2.2.1
      | true =>
          have hsat : (s.ops x).l1MissSatisfied = true := by
            rw [hown]
            simpa [State.setOp] using hds
          simp [State.setOp, Op.missing, hsat]
    · exact hs.apart_marks hmarks hxp hx hdep
  · exact hs.unmapped_marks hp hmarks hvalid hmapped

/-! ### Satisfied misses -/

/-- The states differ in that the miss of an op is satisfied. -/
structure Satisfied (s t : State) (p : OpPtr) : Prop where
  alike : Alike s t
  self : t.ops p = { s.ops p with l1MissSatisfied := true }
  other : ∀ x, x ≠ p → t.ops x = s.ops x

namespace Satisfied

theorem setOp (s : State) (p : OpPtr) : Satisfied s (s.setOp p { s.ops p with l1MissSatisfied := true }) p where
  alike := .setOp s p _ true _ _
  self := by simp [State.setOp]
  other x hx := by simp [State.setOp, hx]

theorem depOnL1Miss (h : Satisfied s t p) (x : OpPtr) : (t.ops x).depOnL1Miss = (s.ops x).depOnL1Miss := by
  by_cases hx : x = p
  · rw [hx, h.self]
  · rw [h.other x hx]

theorem wasDepOnL1Miss (h : Satisfied s t p) (x : OpPtr) : (t.ops x).wasDepOnL1Miss = (s.ops x).wasDepOnL1Miss := by
  by_cases hx : x = p
  · rw [hx, h.self]
  · rw [h.other x hx]

theorem l1Miss (h : Satisfied s t p) (x : OpPtr) : (t.ops x).l1Miss = (s.ops x).l1Miss := by
  by_cases hx : x = p
  · rw [hx, h.self]
  · rw [h.other x hx]

theorem missing_self (h : Satisfied s t p) : (t.ops p).missing = false := by
  rw [h.self]
  simp [Op.missing]

theorem missing (h : Satisfied s t p) (hx : (s.ops x).missing = false) : (t.ops x).missing = false := by
  by_cases hxp : x = p
  · rw [hxp, h.missing_self]
  · rw [h.other x hxp, hx]

/-- The op is still marked if it depends on another miss. -/
theorem marked_self (h : Satisfied s t p) : (t.ops p).marked = (s.ops p).depOnL1Miss := by
  rw [Op.marked, h.missing_self, h.depOnL1Miss, Bool.false_or]

theorem marked (h : Satisfied s t p) (hx : (t.ops x).marked = true) : (s.ops x).marked = true := by
  by_cases hxp : x = p
  · subst hxp
    rw [Op.marked, ← h.marked_self, hx, Bool.or_true]
  · rwa [h.other x hxp] at hx

theorem kept (h : Satisfied s t p) (hown : (s.ops p).depOnL1Miss = true) (hx : (s.ops x).marked = true) :
    (t.ops x).marked = true := by
  by_cases hxp : x = p
  · rw [hxp, h.marked_self, hown]
  · rwa [h.other x hxp]

theorem supported (h : Satisfied s t p) (hd : t.Supported d) : s.Supported d := by
  obtain ⟨q, hq, hqmarked⟩ := hd
  exact ⟨q, (h.alike.producer d q).mp hq, h.marked hqmarked⟩

/-- The assertion at the head of `unmark_l1_miss_deps`. -/
theorem assert (h : Satisfied s t p) :
    ((t.ops p).l1MissSatisfied || !(t.ops p).depOnL1Miss && (t.ops p).wasDepOnL1Miss) = true := by
  rw [h.self]
  rfl

end Satisfied

/-- An op that joins a satisfied request marks nothing that would not be marked anyway. -/
theorem State.Lawful.joinSatisfied (hs : s.Lawful) (hp : s.InFlight p) (hclear : s.Clear p)
    (hassert : (s.ops p).l1MissSatisfied = false ∨ (s.ops p).depOnL1Miss = true)
    (hcons : ∀ d, s.Consumer p d → (s.ops p).depOnL1Miss = true ∨ s.SupportedApart p d) :
    ∃ t, s.joinMiss p true = .ok t ∧ t.Lawful := by
  obtain ⟨m, hm, hmarks, hlaw⟩ := hs.mark hp hclear hassert
  have hset : Alike s (s.setOp p { s.ops p with l1Miss := true }) := .setOp s p true _ _ _
  have hmid := hset.trans hmarks.framed.toAlike
  have hsat := Satisfied.setOp m p
  have hall := hmid.trans hsat.alike
  have hmissOther : ∀ x, x ≠ p → (m.ops x).missing = (s.ops x).missing := by
    intro x hx
    rw [hmarks.framed.missing]
    simp [State.setOp, hx]
  have hgrows : ∀ x, (s.ops x).depOnL1Miss = true → (m.ops x).depOnL1Miss = true := by
    intro x hx
    refine hmarks.grows x ?_
    by_cases hxp : x = p
    · subst hxp
      simpa [State.setOp] using hx
    · simpa [State.setOp, hxp] using hx
  refine ⟨m.setOp p { m.ops p with l1MissSatisfied := true }, ?_, hall.linked hs.linked, ?_, ?_, ?_⟩
  · rw [State.joinMiss, hm]
    simp [bind, Except.bind, pure, Except.pure]
  · intro d hd
    have hdm : m.InFlight d := (hsat.alike.inFlight d).mp hd
    have hds : s.InFlight d := (hmid.inFlight d).mp hdm
    rw [hsat.depOnL1Miss d, hlaw d hdm]
    refine ⟨?_, hsat.supported⟩
    rintro ⟨q, hq, hqmarked⟩
    by_cases hqp : q = p
    · subst hqp
      -- the op is marked no more, but its consumer has another reason
      have hc := hs.linked.consumer_of_producer hds ((hmid.producer d q).mp hq)
      cases hcons d hc with
      | inl hown => exact ⟨q, (hsat.alike.producer d q).mpr hq, hsat.kept (hgrows q hown) hqmarked⟩
      | inr hapart =>
          obtain ⟨r, hrq, hr, hrmarked⟩ := hapart
          refine ⟨r, (hall.producer d r).mpr hr, ?_⟩
          rw [hsat.other r hrq]
          rw [Op.marked, Bool.or_eq_true] at hrmarked ⊢
          rw [hmissOther r hrq]
          exact hrmarked.imp_right (hgrows r)
    · refine ⟨q, (hsat.alike.producer d q).mpr hq, ?_⟩
      rwa [hsat.other q hqp]
  · intro x hx hdepx
    by_cases hxp : x = p
    · rw [hxp, hsat.missing_self]
    · rw [hsat.depOnL1Miss] at hdepx
      exact hsat.missing (hs.apart_marks hmarks hxp ((hsat.alike.inFlight x).mp hx) hdepx)
  · intro x hvalid hmapped
    rw [hsat.alike.valid] at hvalid
    rw [hsat.alike.mapped] at hmapped
    rw [hsat.l1Miss, hsat.depOnL1Miss]
    exact hs.unmapped_marks hp hmarks hvalid hmapped

/-- An op that depends on a miss itself leaves its consumers as they are, if they have another reason. -/
theorem unmarkEntries_still (unmark : State → OpPtr → Except String State) (op : Op) (hs : s.Lawful)
    (hvalid : (s.ops p).valid = true) (hproc : op.procId = (s.ops p).procId) (hunique : op.uniqueNum = (s.ops p).uniqueNum)
    (hcons : ∀ d, s.Consumer p d → s.SupportedApart p d) (hst : Alike s t)
    (hdep : ∀ x, (t.ops x).depOnL1Miss = (s.ops x).depOnL1Miss)
    (hmarked : ∀ x, (s.ops x).marked = true → (t.ops x).marked = true)
    {entries : List WakeUpEntry} (hentries : ∀ e ∈ entries, e ∈ (s.ops p).wakeUpList) :
    entries.foldlM (State.unmarkEntry unmark op) t = .ok t := by
  induction entries with
  | nil => rfl
  | cons e entries ih =>
      have hfirst : State.unmarkEntry unmark op t e = .ok t := by
        by_cases hholds : t.Holds e.op e.uniqueNum
        · have hc : s.Consumer p e.op := ⟨e, hentries e List.mem_cons_self, rfl, (hst.holds _ _).mp hholds⟩
          obtain ⟨q, hqp, hq, hqmarked⟩ := hcons e.op hc
          have hdepOp : (t.ops e.op).depOnL1Miss = true := by
            rw [hdep]
            exact (hs.law e.op (hs.linked.producer_of_consumer hc).1).mpr ⟨q, hq, hqmarked⟩
          have hid : ¬ op.procId ≠ (t.ops e.op).procId := by
            rw [hst.procId]
            exact not_not.mpr (hproc.trans (hs.linked.procId p _ hc))
          have hassert : ¬ ((t.ops e.op).depOnL1Miss = false ∧ (t.ops e.op).wasDepOnL1Miss = false) := by
            rintro ⟨h, -⟩
            exact Bool.false_ne_true (h.symm.trans hdepOp)
          have hplain : ¬ (t.ops e.op).depOnL1Miss = false := by
            rw [hdepOp]
            exact Bool.false_ne_true.symm
          have hstill : t.stillDepOnL1Miss op.uniqueNum (t.ops e.op).srcInfo = true := by
            rw [hunique, ← hst.uniqueNum, stillDepOnL1Miss_iff (hst.linked hs.linked) (by rw [hst.valid]; exact hvalid)]
            exact ⟨q, hqp, (hst.producer _ q).mpr hq, hmarked q hqmarked⟩
          simp only [State.unmarkEntry, if_pos hholds, if_neg hid, if_neg hassert, if_neg hplain, if_pos hstill]
        · simp only [State.unmarkEntry, if_neg hholds]
      rw [List.foldlM_cons, hfirst]
      exact ih fun e' he' => hentries e' (List.mem_cons_of_mem e he')

/-- An op that depends on another miss stays marked, and so does every consumer. -/
theorem State.Lawful.satisfy_dep (hs : s.Lawful) (hp : s.InFlight p) (hown : (s.ops p).depOnL1Miss = true)
    (hcons : ∀ d, s.Consumer p d → s.SupportedApart p d) :
    ∃ t, s.markOpAsL1MissSatisfied p = .ok t ∧ t.Lawful := by
  have hsat := Satisfied.setOp s p
  have hfold := unmarkEntries_still (State.unmarkTo s.opPoolEntries)
    ((s.setOp p { s.ops p with l1MissSatisfied := true }).ops p) hs hp.1 (hsat.alike.procId p) (hsat.alike.uniqueNum p)
    hcons hsat.alike hsat.depOnL1Miss (fun x => hsat.kept hown) fun e he => he
  refine ⟨s.setOp p { s.ops p with l1MissSatisfied := true }, ?_, hsat.alike.linked hs.linked, fun d hd => ?_,
    fun x hx hdep => ?_, fun x hvalid hmapped => ?_⟩
  · rw [State.markOpAsL1MissSatisfied, State.unmarkL1MissDeps, State.unmarkTo, if_pos hsat.assert, hsat.alike.wakeUpList]
    exact hfold
  · rw [hsat.alike.inFlight] at hd
    rw [hsat.depOnL1Miss, hs.law d hd]
    refine ⟨?_, hsat.supported⟩
    rintro ⟨q, hq, hqmarked⟩
    exact ⟨q, (hsat.alike.producer d q).mpr hq, hsat.kept hown hqmarked⟩
  · rw [hsat.alike.inFlight] at hx
    rw [hsat.depOnL1Miss] at hdep
    exact hsat.missing (hs.apart x hx hdep)
  · rw [hsat.alike.valid] at hvalid
    rw [hsat.alike.mapped] at hmapped
    rw [hsat.l1Miss, hsat.depOnL1Miss]
    exact hs.unmapped x hvalid hmapped

/-- What depends on a satisfied miss is marked for it until the traversal comes there. -/
theorem State.Lawful.lit_satisfied (hs : s.Lawful) (h : Satisfied s t p) : t.Lit := by
  refine ⟨fun x hx hdep => ?_, fun x d hd hdep => .inl ?_⟩
  · rw [h.depOnL1Miss] at hdep
    exact h.missing (hs.apart x ((h.alike.inFlight x).mp hx) hdep)
  · rw [h.depOnL1Miss] at hdep ⊢
    obtain ⟨hflight, hprod⟩ := hs.linked.producer_of_consumer ((h.alike.consumer x d).mp hd)
    exact (hs.law d hflight).mpr ⟨x, hprod, by rw [Op.marked, hdep, Bool.or_true]⟩

/-- An op that depends on no other miss is marked no more, and what it alone marked is not either. -/
theorem State.Lawful.satisfy_plain (hs : s.Lawful) (hown : (s.ops p).depOnL1Miss = false)
    (hcons : ∀ d, s.Consumer p d → (s.ops d).depOnL1Miss = true ∨ (s.ops d).wasDepOnL1Miss = true) :
    ∃ t, s.markOpAsL1MissSatisfied p = .ok t ∧ t.Lawful := by
  have hsat := Satisfied.setOp s p
  have hlit := hs.lit_satisfied hsat
  have hlinked := hsat.alike.linked hs.linked
  have hdepth : ((s.setOp p { s.ops p with l1MissSatisfied := true }).withDep true).card < s.opPoolEntries + 1 := by
    refine Nat.lt_succ_of_le (Nat.le_trans (Finset.card_le_card (Finset.filter_subset _ _)) ?_)
    rw [Finset.card_range]
    exact Nat.le_refl _
  obtain ⟨t, ht, hunmarks, hclosed⟩ :=
    unmarkTo_spec _ _ p hlinked hlit (hsat.marked_self.trans hown) hsat.assert (fun d hd => by
      rw [hsat.depOnL1Miss, hsat.wasDepOnL1Miss]
      exact hcons d ((hsat.alike.consumer p d).mp hd)) hdepth
  have hall := hsat.alike.trans hunmarks.framed.toAlike
  refine ⟨t, ht, hall.linked hs.linked, fun d hd => ⟨fun hdt => ?_, fun hsup => ?_⟩, fun x hx hdep => ?_,
    fun x hvalid hmapped => ?_⟩
  · have hds : s.InFlight d := (hall.inFlight d).mp hd
    obtain ⟨q, hq, hqmarked⟩ := (hs.law d hds).mp ((hsat.depOnL1Miss d).symm.trans (hunmarks.shrinks d hdt))
    by_cases hqp : q = p
    · subst hqp
      exact hclosed d ((hsat.alike.consumer q d).mpr (hs.linked.consumer_of_producer hds hq)) hdt
    · refine hunmarks.supported hlinked ((hsat.alike.inFlight d).mpr hds)
        ⟨q, (hsat.alike.producer d q).mpr hq, ?_⟩ hdt
      rwa [hsat.other q hqp]
  · have hsups := hunmarks.supported_of hsup
    have hdeps := (hs.law d ((hall.inFlight d).mp hd)).mpr (hsat.supported hsups)
    refine Bool.eq_true_of_not_eq_false fun hlost => ?_
    exact (hunmarks.settled d ((hsat.depOnL1Miss d).trans hdeps) hlost).1 hsup
  · exact (hunmarks.lit hlit).apart x hx hdep
  · rw [hall.valid] at hvalid
    rw [hall.mapped] at hmapped
    obtain ⟨hmiss, hdep⟩ := hs.unmapped x hvalid hmapped
    refine ⟨(hunmarks.framed.l1Miss x).trans ((hsat.l1Miss x).trans hmiss), Bool.eq_false_of_not_eq_true fun hnew => ?_⟩
    exact Bool.false_ne_true (hdep.symm.trans ((hsat.depOnL1Miss x).symm.trans (hunmarks.shrinks x hnew)))

/-- The miss of an op is satisfied. -/
theorem State.Lawful.satisfy (hs : s.Lawful) (hp : s.InFlight p)
    (hcons : ∀ d, s.Consumer p d → ((s.ops d).depOnL1Miss = true ∨ (s.ops d).wasDepOnL1Miss = true) ∧
      ((s.ops p).depOnL1Miss = true → s.SupportedApart p d)) :
    ∃ t, s.markOpAsL1MissSatisfied p = .ok t ∧ t.Lawful := by
  cases hown : (s.ops p).depOnL1Miss with
  | true => exact hs.satisfy_dep hp hown fun d hd => (hcons d hd).2 hown
  | false => exact hs.satisfy_plain hown fun d hd => (hcons d hd).1

end Scarab.MissDeps
