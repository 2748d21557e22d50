import Mathlib.Data.Finset.Card
import Scarab.Core.WakeUp.MissDeps

/-! # What marking and unmarking do

The graph of producers and consumers, and the two traversals of it. Marking reaches every consumer of what it marks;
unmarking leaves a mark only where a marked producer remains. -/

namespace Scarab.MissDeps

open WakeUp (OpPtr SrcInfo WakeUpEntry)

variable {s t u : State} {p q d x : OpPtr} {e : WakeUpEntry}

/-! ## The graph -/

/-- An op in the machine is on the wake-up list of another. -/
def State.Consumer (s : State) (p d : OpPtr) : Prop := ∃ e ∈ (s.ops p).wakeUpList, e.op = d ∧ s.Holds d e.uniqueNum

/-- A source of an op is still in the machine. -/
def State.Producer (s : State) (d q : OpPtr) : Prop :=
  ∃ src ∈ (s.ops d).srcInfo, src.op = some q ∧ s.Holds q src.uniqueNum

/-- An op has a producer that is marked. -/
def State.Supported (s : State) (d : OpPtr) : Prop := ∃ q, s.Producer d q ∧ (s.ops q).marked = true

/-- The wake-up lists are the sources the other way round. -/
structure State.Linked (s : State) : Prop where
  consumer_iff : ∀ p d, (s.ops p).valid = true → (s.Consumer p d ↔ s.InFlight d ∧ s.Producer d p)
  procId : ∀ p d, s.Consumer p d → (s.ops p).procId = (s.ops d).procId
  idle : ∀ p, (s.ops p).valid = false → (s.ops p).wakeUpList = []
  inj : ∀ p q, (s.ops p).valid = true → (s.ops q).valid = true → (s.ops p).uniqueNum = (s.ops q).uniqueNum → p = q
  young : ∀ p, (s.ops p).valid = true → (s.ops p).uniqueNum < s.uniqueCount
  entry : ∀ p, ∀ e ∈ (s.ops p).wakeUpList, e.uniqueNum < s.uniqueCount
  older : ∀ p, (s.ops p).valid = true → ∀ src ∈ (s.ops p).srcInfo, src.uniqueNum < (s.ops p).uniqueNum
  bound : ∀ p, (s.ops p).valid = true → p < s.opPoolEntries

theorem State.Consumer.valid (hl : s.Linked) (h : s.Consumer p d) : (s.ops p).valid = true := by
  refine Bool.eq_true_of_not_eq_false fun hidle => ?_
  obtain ⟨e, he, -⟩ := h
  rw [hl.idle p hidle] at he
  cases he

theorem State.Linked.producer_of_consumer (hl : s.Linked) (h : s.Consumer p d) : s.InFlight d ∧ s.Producer d p :=
  (hl.consumer_iff p d (h.valid hl)).mp h

theorem State.Linked.consumer_of_producer (hl : s.Linked) (hd : s.InFlight d) (h : s.Producer d p) : s.Consumer p d := by
  have hvalid : (s.ops p).valid = true := by
    obtain ⟨src, -, -, hholds⟩ := h
    exact hholds.2
  exact (hl.consumer_iff p d hvalid).mpr ⟨hd, h⟩

/-- A consumer is younger than its producer. -/
theorem State.Linked.lt_of_consumer (hl : s.Linked) (h : s.Consumer p d) : (s.ops p).uniqueNum < (s.ops d).uniqueNum := by
  obtain ⟨hd, src, hsrc, -, hholds⟩ := hl.producer_of_consumer h
  rw [hholds.1]
  exact hl.older d hd.1 src hsrc

/-- No op is older than itself. -/
theorem State.Linked.not_producer_self (hl : s.Linked) (hvalid : (s.ops p).valid = true) : ¬ s.Producer p p := by
  rintro ⟨src, hsrc, -, hholds⟩
  have hlt := hl.older p hvalid src hsrc
  rw [← hholds.1] at hlt
  exact Nat.lt_irrefl _ hlt

/-- The ops that marking can come to from one on. -/
inductive State.Reached (s : State) (p : OpPtr) : OpPtr → Prop where
  | consumer {d : OpPtr} (h : s.Consumer p d) : Reached s p d
  | step {y d : OpPtr} (hy : Reached s p y) (hdep : (s.ops y).depOnL1Miss = false) (h : s.Consumer y d) : Reached s p d

theorem State.Reached.lt (hl : s.Linked) (h : s.Reached p d) : (s.ops p).uniqueNum < (s.ops d).uniqueNum := by
  induction h with
  | consumer h => exact hl.lt_of_consumer h
  | step _ _ h ih => exact Nat.lt_trans ih (hl.lt_of_consumer h)

/-! ## What the traversals leave alone -/

/-- The ops in the machine, their sources and their wake-up lists are the same. -/
structure Alike (s t : State) : Prop where
  ops : ∀ p, t.ops p =
    { s.ops p with
      l1Miss := (t.ops p).l1Miss, l1MissSatisfied := (t.ops p).l1MissSatisfied
      depOnL1Miss := (t.ops p).depOnL1Miss, wasDepOnL1Miss := (t.ops p).wasDepOnL1Miss }
  opPoolEntries : t.opPoolEntries = s.opPoolEntries
  uniqueCount : t.uniqueCount = s.uniqueCount

theorem Alike.trans (h : Alike s t) (h' : Alike t u) : Alike s u where
  ops p := by rw [h'.ops p, h.ops p]
  opPoolEntries := h'.opPoolEntries.trans h.opPoolEntries
  uniqueCount := h'.uniqueCount.trans h.uniqueCount

/-- The flags of one op are set. -/
theorem Alike.setOp (s : State) (p : OpPtr) (miss satisfied dep was : Bool) :
    Alike s (s.setOp p { s.ops p with
      l1Miss := miss, l1MissSatisfied := satisfied, depOnL1Miss := dep, wasDepOnL1Miss := was }) where
  ops q := by
    by_cases hq : q = p
    · subst hq
      simp [State.setOp]
    · simp [State.setOp, hq]
  opPoolEntries := rfl
  uniqueCount := rfl

section

variable (h : Alike s t)
include h

theorem Alike.valid (p : OpPtr) : (t.ops p).valid = (s.ops p).valid := by rw [h.ops p]

theorem Alike.mapped (p : OpPtr) : (t.ops p).mapped = (s.ops p).mapped := by rw [h.ops p]

theorem Alike.uniqueNum (p : OpPtr) : (t.ops p).uniqueNum = (s.ops p).uniqueNum := by rw [h.ops p]

theorem Alike.procId (p : OpPtr) : (t.ops p).procId = (s.ops p).procId := by rw [h.ops p]

theorem Alike.memSt (p : OpPtr) : (t.ops p).memSt = (s.ops p).memSt := by rw [h.ops p]

theorem Alike.srcInfo (p : OpPtr) : (t.ops p).srcInfo = (s.ops p).srcInfo := by rw [h.ops p]

theorem Alike.wakeUpList (p : OpPtr) : (t.ops p).wakeUpList = (s.ops p).wakeUpList := by rw [h.ops p]

theorem Alike.holds (p : OpPtr) (uniqueNum : ℕ) : t.Holds p uniqueNum ↔ s.Holds p uniqueNum := by
  rw [State.Holds, State.Holds, h.uniqueNum, h.valid]

theorem Alike.inFlight (p : OpPtr) : t.InFlight p ↔ s.InFlight p := by
  rw [State.InFlight, State.InFlight, h.mapped, h.valid]

theorem Alike.consumer (p d : OpPtr) : t.Consumer p d ↔ s.Consumer p d := by
  simp only [State.Consumer, h.wakeUpList, h.holds]

theorem Alike.producer (d q : OpPtr) : t.Producer d q ↔ s.Producer d q := by
  simp only [State.Producer, h.srcInfo, h.holds]

theorem Alike.linked (hl : s.Linked) : t.Linked where
  consumer_iff p d := by
    rw [h.valid, h.consumer, h.inFlight, h.producer]
    exact hl.consumer_iff p d
  procId p d := by
    rw [h.consumer, h.procId, h.procId]
    exact hl.procId p d
  idle p := by
    rw [h.valid, h.wakeUpList]
    exact hl.idle p
  inj p q := by
    rw [h.valid, h.valid, h.uniqueNum, h.uniqueNum]
    exact hl.inj p q
  young p := by
    rw [h.valid, h.uniqueNum, h.uniqueCount]
    exact hl.young p
  entry p := by
    rw [h.wakeUpList, h.uniqueCount]
    exact hl.entry p
  older p := by
    rw [h.valid, h.srcInfo, h.uniqueNum]
    exact hl.older p
  bound p := by
    rw [h.valid, h.opPoolEntries]
    exact hl.bound p

end

/-- Only the two flags of the marks differ. -/
structure Framed (s t : State) : Prop extends Alike s t where
  l1Miss : ∀ p, (t.ops p).l1Miss = (s.ops p).l1Miss
  l1MissSatisfied : ∀ p, (t.ops p).l1MissSatisfied = (s.ops p).l1MissSatisfied

theorem Framed.refl (s : State) : Framed s s := ⟨⟨fun _ => rfl, rfl, rfl⟩, fun _ => rfl, fun _ => rfl⟩

theorem Framed.trans (h : Framed s t) (h' : Framed t u) : Framed s u where
  toAlike := h.toAlike.trans h'.toAlike
  l1Miss p := (h'.l1Miss p).trans (h.l1Miss p)
  l1MissSatisfied p := (h'.l1MissSatisfied p).trans (h.l1MissSatisfied p)

theorem Framed.setOp (s : State) (p : OpPtr) (dep was : Bool) :
    Framed s (s.setOp p { s.ops p with depOnL1Miss := dep, wasDepOnL1Miss := was }) where
  toAlike := .setOp s p (s.ops p).l1Miss (s.ops p).l1MissSatisfied dep was
  l1Miss q := by
    by_cases hq : q = p
    · subst hq
      simp [State.setOp]
    · simp [State.setOp, hq]
  l1MissSatisfied q := by
    by_cases hq : q = p
    · subst hq
      simp [State.setOp]
    · simp [State.setOp, hq]

theorem Framed.missing (h : Framed s t) (p : OpPtr) : (t.ops p).missing = (s.ops p).missing := by
  rw [Op.missing, Op.missing, h.l1Miss, h.l1MissSatisfied]

/-- An op that is marked stays so if its dependence does. -/
theorem Framed.marked (h : Framed s t) (hdep : (s.ops p).depOnL1Miss = true → (t.ops p).depOnL1Miss = true)
    (hmarked : (s.ops p).marked = true) : (t.ops p).marked = true := by
  rw [Op.marked, Bool.or_eq_true] at hmarked ⊢
  rw [h.missing]
  exact hmarked.imp_right hdep

/-- The ops of the pool whose flag has a value; each step of a traversal takes one out. -/
def State.withDep (s : State) (dep : Bool) : Finset ℕ :=
  (Finset.range s.opPoolEntries).filter fun x => (s.ops x).depOnL1Miss = dep

/-- An op that changes its flag leaves the set. -/
theorem card_withDep_setOp (dep was : Bool) (hbound : d < s.opPoolEntries) (hd : (s.ops d).depOnL1Miss = !dep) :
    ((s.setOp d { s.ops d with depOnL1Miss := dep, wasDepOnL1Miss := was }).withDep (!dep)).card <
      (s.withDep (!dep)).card := by
  refine Finset.card_lt_card (Finset.ssubset_iff_subset_ne.mpr ⟨fun x hx => ?_, fun heq => ?_⟩)
  · rw [State.withDep, Finset.mem_filter] at hx ⊢
    by_cases hxd : x = d
    · subst hxd
      exact ⟨Finset.mem_range.mpr hbound, hd⟩
    · simpa [State.setOp, hxd] using hx
  · have hmem : d ∈ s.withDep (!dep) := Finset.mem_filter.mpr ⟨Finset.mem_range.mpr hbound, hd⟩
    rw [← heq, State.withDep, Finset.mem_filter] at hmem
    simp [State.setOp] at hmem

/-- Fewer ops have the flag if it only changes away from the value. -/
theorem card_withDep_le {dep : Bool} (h : Framed s t)
    (hdep : ∀ x, (t.ops x).depOnL1Miss = dep → (s.ops x).depOnL1Miss = dep) :
    (t.withDep dep).card ≤ (s.withDep dep).card := by
  refine Finset.card_le_card fun x hx => ?_
  rw [State.withDep, Finset.mem_filter] at hx ⊢
  rw [← h.opPoolEntries]
  exact ⟨hx.1, hdep x hx.2⟩

/-! ## Marking -/

/-- What marking does: the new marks have a marked producer, no miss of their own, and their consumers are marked. -/
structure Marks (s t : State) : Prop where
  framed : Framed s t
  grows : ∀ x, (s.ops x).depOnL1Miss = true → (t.ops x).depOnL1Miss = true
  fresh : ∀ x, (s.ops x).depOnL1Miss = false → (t.ops x).depOnL1Miss = true →
    s.InFlight x ∧ t.Supported x ∧ (s.ops x).missing = false ∧ ∀ d, s.Consumer x d → (t.ops d).depOnL1Miss = true

theorem Marks.refl (s : State) : Marks s s where
  framed := .refl s
  grows _ h := h
  fresh x h h' := by
    rw [h] at h'
    cases h'

theorem Marks.supported (h : Marks s t) (hd : s.Supported d) : t.Supported d := by
  obtain ⟨q, hq, hmarked⟩ := hd
  exact ⟨q, (h.framed.producer d q).mpr hq, h.framed.marked (h.grows q) hmarked⟩

theorem Marks.trans (h : Marks s t) (h' : Marks t u) : Marks s u where
  framed := h.framed.trans h'.framed
  grows x hx := h'.grows x (h.grows x hx)
  fresh x hx hnew := by
    cases ht : (t.ops x).depOnL1Miss with
    | true =>
        obtain ⟨hflight, hsup, hmiss, hcons⟩ := h.fresh x hx ht
        exact ⟨hflight, h'.supported hsup, hmiss, fun d hd => h'.grows d (hcons d hd)⟩
    | false =>
        obtain ⟨hflight, hsup, hmiss, hcons⟩ := h'.fresh x ht hnew
        rw [h.framed.missing] at hmiss
        exact ⟨(h.framed.inFlight x).mp hflight, hsup, hmiss, fun d hd => hcons d ((h.framed.consumer x d).mpr hd)⟩

/-- Nothing that marking comes to fails its assertion or has a miss of its own. -/
def State.Clear (s : State) (p : OpPtr) : Prop :=
  ∀ x, s.Reached p x → ((s.ops x).l1Miss = true → (s.ops x).memSt = true) ∧ (s.ops x).missing = false

/-- From an op that was just marked, marking comes to what it came to before. -/
theorem Reached.later (hframed : Framed s t) (hdep : ∀ y, (t.ops y).depOnL1Miss = false → (s.ops y).depOnL1Miss = false)
    (hpd : s.Reached p d) (hd : (s.ops d).depOnL1Miss = false) (hx : t.Reached d x) : s.Reached p x := by
  induction hx with
  | consumer h => exact .step hpd hd ((hframed.consumer _ _).mp h)
  | step _ hy h ih => exact .step ih (hdep _ hy) ((hframed.consumer _ _).mp h)

theorem Clear.later (hframed : Framed s t)
    (hdep : ∀ y, (t.ops y).depOnL1Miss = false → (s.ops y).depOnL1Miss = false)
    (hclear : s.Clear p) (hpd : s.Reached p d) (hd : (s.ops d).depOnL1Miss = false) : t.Clear d := by
  intro x hx
  rw [hframed.l1Miss, hframed.memSt, hframed.missing]
  exact hclear x (Reached.later hframed hdep hpd hd hx)

/-- What is asked of marking to a depth. -/
def MarksTo (depth : ℕ) : Prop :=
  ∀ (s : State) (p : OpPtr), s.Linked → (s.ops p).marked = true → s.Clear p → (s.withDep false).card < depth →
    ∃ t, s.markTo depth p = .ok t ∧ Marks s t ∧ ∀ d, s.Consumer p d → (t.ops d).depOnL1Miss = true

theorem eq_false_of_grows {a b : Bool} (h : a = true → b = true) (hb : b = false) : a = false := by
  cases a with
  | false => rfl
  | true => rw [h rfl] at hb; cases hb

/-- One entry of the wake-up list of a marked op. -/
theorem markEntry_spec {depth : ℕ} (ih : MarksTo depth) (hl : s.Linked) (hmarked : (s.ops p).marked = true)
    (hclear : s.Clear p) (hdepth : (s.withDep false).card ≤ depth) (he : e ∈ (s.ops p).wakeUpList) :
    ∃ t, State.markEntry (State.markTo depth) (s.ops p).procId s e = .ok t ∧ Marks s t ∧
      (s.Holds e.op e.uniqueNum → (t.ops e.op).depOnL1Miss = true) := by
  by_cases hholds : s.Holds e.op e.uniqueNum
  · have hcons : s.Consumer p e.op := ⟨e, he, rfl, hholds⟩
    obtain ⟨hst, hmiss⟩ := hclear e.op (.consumer hcons)
    have hassert : ¬ ((s.ops e.op).l1Miss = true ∧ (s.ops e.op).memSt = false) := by
      rintro ⟨h1, h2⟩
      rw [hst h1] at h2
      cases h2
    simp only [State.markEntry, if_pos hholds, if_neg (not_not.mpr (hl.procId p _ hcons)), if_neg hassert]
    cases hdep : (s.ops e.op).depOnL1Miss with
    | true => exact ⟨s, rfl, .refl s, fun _ => hdep⟩
    | false =>
        have hbound : e.op < s.opPoolEntries := hl.bound _ hholds.2
        have hframed := Framed.setOp s e.op true (s.ops e.op).wasDepOnL1Miss
        have hcard := card_withDep_setOp true (s.ops e.op).wasDepOnL1Miss hbound hdep
        have hself : ((s.setOp e.op { s.ops e.op with depOnL1Miss := true }).ops e.op).depOnL1Miss = true := by
          simp [State.setOp]
        have hgrow : ∀ y, (s.ops y).depOnL1Miss = true →
            ((s.setOp e.op { s.ops e.op with depOnL1Miss := true }).ops y).depOnL1Miss = true := by
          intro y hy
          by_cases hye : y = e.op
          · rw [hye]
            exact hself
          · simpa [State.setOp, hye] using hy
        obtain ⟨t, ht, hmarks, hclosed⟩ := ih _ e.op (hframed.linked hl) (by rw [Op.marked, hself, Bool.or_true])
          (Clear.later hframed (fun y => eq_false_of_grows (hgrow y)) hclear (.consumer hcons) hdep)
          (Nat.lt_of_lt_of_le hcard hdepth)
        refine ⟨t, ht, ?_, fun _ => hmarks.grows _ hself⟩
        refine ⟨hframed.trans hmarks.framed, fun x hx => hmarks.grows x (hgrow x hx), fun x hx hnew => ?_⟩
        by_cases hxe : x = e.op
        · subst hxe
          refine ⟨(hl.producer_of_consumer hcons).1, ⟨p, ?_, ?_⟩, hmiss,
            fun d hd => hclosed d ((hframed.consumer _ d).mpr hd)⟩
          · rw [(hframed.trans hmarks.framed).producer]
            exact (hl.producer_of_consumer hcons).2
          · exact (hframed.trans hmarks.framed).marked (fun hp => hmarks.grows p (hgrow p hp)) hmarked
        · have hx' : ((s.setOp e.op { s.ops e.op with depOnL1Miss := true }).ops x).depOnL1Miss = false := by
            simpa [State.setOp, hxe] using hx
          obtain ⟨hflight, hsup, hmissx, hconsx⟩ := hmarks.fresh x hx' hnew
          rw [hframed.missing] at hmissx
          exact ⟨(hframed.inFlight x).mp hflight, hsup, hmissx, fun d hd => hconsx d ((hframed.consumer x d).mpr hd)⟩
  · simp only [State.markEntry, if_neg hholds]
    exact ⟨s, rfl, .refl s, fun h => absurd h hholds⟩

/-- The ops that marking comes to get no more by further marks. -/
theorem Reached.of_alike (h : Alike s t) (hdep : ∀ y, (s.ops y).depOnL1Miss = true → (t.ops y).depOnL1Miss = true)
    (hx : t.Reached p x) : s.Reached p x := by
  induction hx with
  | consumer hc => exact .consumer ((h.consumer _ _).mp hc)
  | step _ hy hc ih => exact .step ih (eq_false_of_grows (hdep _) hy) ((h.consumer _ _).mp hc)

theorem Clear.marks (h : Marks s t) (hclear : s.Clear p) : t.Clear p := by
  intro x hx
  rw [h.framed.l1Miss, h.framed.memSt, h.framed.missing]
  exact hclear x (Reached.of_alike h.framed.toAlike h.grows hx)

/-- The loop over the wake-up list, from any entry on. -/
theorem markEntries_spec {depth : ℕ} (ih : MarksTo depth) {entries : List WakeUpEntry} (hl : s.Linked)
    (hmarked : (s.ops p).marked = true) (hclear : s.Clear p) (hdepth : (s.withDep false).card ≤ depth)
    (hentries : ∀ e ∈ entries, e ∈ (s.ops p).wakeUpList) :
    ∃ t, entries.foldlM (State.markEntry (State.markTo depth) (s.ops p).procId) s = .ok t ∧ Marks s t ∧
      ∀ e ∈ entries, s.Holds e.op e.uniqueNum → (t.ops e.op).depOnL1Miss = true := by
  induction entries generalizing s with
  | nil => exact ⟨s, rfl, .refl s, fun e he => absurd he List.not_mem_nil⟩
  | cons e entries ihl =>
      obtain ⟨m, hm, hmarks, hfirst⟩ := markEntry_spec ih hl hmarked hclear hdepth (hentries e List.mem_cons_self)
      have hle : (m.withDep false).card ≤ depth :=
        Nat.le_trans (card_withDep_le hmarks.framed fun x => eq_false_of_grows (hmarks.grows x)) hdepth
      obtain ⟨t, ht, hmarks', hrest⟩ := ihl (hmarks.framed.linked hl) (hmarks.framed.marked (hmarks.grows p) hmarked)
        (Clear.marks hmarks hclear) hle
        (fun e' he' => by rw [hmarks.framed.wakeUpList]; exact hentries e' (List.mem_cons_of_mem e he'))
      rw [hmarks.framed.procId] at ht
      refine ⟨t, ?_, hmarks.trans hmarks', fun e' he' hholds => ?_⟩
      · rw [List.foldlM_cons, hm]
        exact ht
      · cases List.mem_cons.mp he' with
        | inl heq =>
            subst heq
            exact hmarks'.grows _ (hfirst hholds)
        | inr hmem => exact hrest e' hmem ((hmarks.framed.holds _ _).mpr hholds)

theorem markTo_spec (depth : ℕ) : MarksTo depth := by
  induction depth with
  | zero => exact fun s p _ _ _ hdepth => absurd hdepth (Nat.not_lt_zero _)
  | succ depth ih =>
      intro s p hl hmarked hclear hdepth
      obtain ⟨t, ht, hmarks, hclosed⟩ := markEntries_spec ih hl hmarked hclear (Nat.le_of_lt_succ hdepth) fun e he => he
      refine ⟨t, ?_, hmarks, ?_⟩
      · rw [State.markTo, if_pos hmarked]
        exact ht
      · rintro d ⟨e, he, rfl, hholds⟩
        exact hclosed e he hholds

/-! ## Unmarking -/

/-- What unmarking does: no op that loses its mark has a marked producer, and its consumers that keep theirs have. -/
structure Unmarks (s t : State) : Prop where
  framed : Framed s t
  shrinks : ∀ x, (t.ops x).depOnL1Miss = true → (s.ops x).depOnL1Miss = true
  was : ∀ x, (s.ops x).depOnL1Miss = true ∨ (s.ops x).wasDepOnL1Miss = true →
    (t.ops x).depOnL1Miss = true ∨ (t.ops x).wasDepOnL1Miss = true
  settled : ∀ x, (s.ops x).depOnL1Miss = true → (t.ops x).depOnL1Miss = false →
    ¬ t.Supported x ∧ ∀ d, s.Consumer x d → (t.ops d).depOnL1Miss = true → t.Supported d

theorem Unmarks.refl (s : State) : Unmarks s s where
  framed := .refl s
  shrinks _ h := h
  was _ h := h
  settled x h h' := by
    rw [h] at h'
    cases h'

/-- A mark in the later state is one of the earlier state. -/
theorem Unmarks.marked (h : Unmarks s t) (hq : (t.ops q).marked = true) : (s.ops q).marked = true := by
  rw [Op.marked, Bool.or_eq_true] at hq ⊢
  rw [← h.framed.missing]
  exact hq.imp_right (h.shrinks q)

theorem Unmarks.supported_of (h : Unmarks s t) (hd : t.Supported d) : s.Supported d := by
  obtain ⟨q, hq, hmarked⟩ := hd
  exact ⟨q, (h.framed.producer d q).mp hq, h.marked hmarked⟩

/-- An op that keeps its mark keeps a reason for it. -/
theorem Unmarks.supported (h : Unmarks s t) (hl : s.Linked) (hd : s.InFlight d) (hsup : s.Supported d)
    (hdep : (t.ops d).depOnL1Miss = true) : t.Supported d := by
  obtain ⟨q, hq, hmarked⟩ := hsup
  by_cases ht : (t.ops q).marked = true
  · exact ⟨q, (h.framed.producer d q).mpr hq, ht⟩
  · have hmiss : (s.ops q).missing = false := by
      refine Bool.eq_false_of_not_eq_true fun hm => ht ?_
      rw [Op.marked, h.framed.missing, hm, Bool.true_or]
    have hs : (s.ops q).depOnL1Miss = true := by
      rw [Op.marked, hmiss, Bool.false_or] at hmarked
      exact hmarked
    have hlost : (t.ops q).depOnL1Miss = false := by
      refine Bool.eq_false_of_not_eq_true fun hm => ht ?_
      rw [Op.marked, hm, Bool.or_true]
    exact (h.settled q hs hlost).2 d (hl.consumer_of_producer hd hq) hdep

theorem Unmarks.trans (hl : s.Linked) (h : Unmarks s t) (h' : Unmarks t u) : Unmarks s u where
  framed := h.framed.trans h'.framed
  shrinks x hx := h.shrinks x (h'.shrinks x hx)
  was x hx := h'.was x (h.was x hx)
  settled x hx hlost := by
    cases ht : (t.ops x).depOnL1Miss with
    | true =>
        obtain ⟨hnone, hcons⟩ := h'.settled x ht hlost
        exact ⟨hnone, fun d hd => hcons d ((h.framed.consumer x d).mpr hd)⟩
    | false =>
        obtain ⟨hnone, hcons⟩ := h.settled x hx ht
        refine ⟨fun hsup => hnone (h'.supported_of hsup), fun d hd hdep => ?_⟩
        have hflight := (h.framed.inFlight d).mpr (hl.producer_of_consumer hd).1
        exact h'.supported (h.framed.linked hl) hflight (hcons d hd (h'.shrinks d hdep)) hdep

/-- What unmarking relies on: no op that depends on a miss has one of its own, and its consumers have been marked. -/
structure State.Lit (s : State) : Prop where
  apart : ∀ x, s.InFlight x → (s.ops x).depOnL1Miss = true → (s.ops x).missing = false
  consumers : ∀ x d, s.Consumer x d → (s.ops x).depOnL1Miss = true →
    (s.ops d).depOnL1Miss = true ∨ (s.ops d).wasDepOnL1Miss = true

theorem Unmarks.lit (h : Unmarks s t) (hlit : s.Lit) : t.Lit where
  apart x hx hdep := by
    rw [h.framed.missing]
    exact hlit.apart x ((h.framed.inFlight x).mp hx) (h.shrinks x hdep)
  consumers x d hd hdep := h.was d (hlit.consumers x d ((h.framed.consumer x d).mp hd) (h.shrinks x hdep))

theorem stillDepOnL1Miss_iff (hl : s.Linked) (hp : (s.ops p).valid = true) :
    s.stillDepOnL1Miss (s.ops p).uniqueNum (s.ops d).srcInfo = true ↔
      ∃ q, q ≠ p ∧ s.Producer d q ∧ (s.ops q).marked = true := by
  simp only [State.stillDepOnL1Miss, List.any_eq_true, Option.any_eq_true, Bool.and_eq_true, decide_eq_true_eq,
    bne_iff_ne]
  constructor
  · rintro ⟨src, hsrc, q, hq, ⟨hholds, hne⟩, hmarked⟩
    exact ⟨q, fun heq => hne (congrArg (fun x => (s.ops x).uniqueNum) heq), ⟨src, hsrc, hq, hholds⟩, hmarked⟩
  · rintro ⟨q, hne, ⟨src, hsrc, hq, hholds⟩, hmarked⟩
    exact ⟨src, hsrc, q, hq, ⟨hholds, fun heq => hne (hl.inj q p hholds.2 hp heq)⟩, hmarked⟩

/-- What is asked of unmarking to a depth. -/
def UnmarksTo (depth : ℕ) : Prop :=
  ∀ (s : State) (p : OpPtr), s.Linked → s.Lit → (s.ops p).marked = false →
    ((s.ops p).l1MissSatisfied || !(s.ops p).depOnL1Miss && (s.ops p).wasDepOnL1Miss) = true →
    (∀ d, s.Consumer p d → (s.ops d).depOnL1Miss = true ∨ (s.ops d).wasDepOnL1Miss = true) →
    (s.withDep true).card < depth →
      ∃ t, s.unmarkTo depth p = .ok t ∧ Unmarks s t ∧
        ∀ d, s.Consumer p d → (t.ops d).depOnL1Miss = true → t.Supported d

/-- One entry of the wake-up list of an op that is not marked any more. -/
theorem unmarkEntry_spec {depth : ℕ} (ih : UnmarksTo depth) (hl : s.Linked) (hlit : s.Lit)
    (hplain : (s.ops p).marked = false)
    (hcons : ∀ d, s.Consumer p d → (s.ops d).depOnL1Miss = true ∨ (s.ops d).wasDepOnL1Miss = true)
    (hdepth : (s.withDep true).card ≤ depth) {op : Op} (hproc : op.procId = (s.ops p).procId)
    (hunique : op.uniqueNum = (s.ops p).uniqueNum) (he : e ∈ (s.ops p).wakeUpList) :
    ∃ t, State.unmarkEntry (State.unmarkTo depth) op s e = .ok t ∧ Unmarks s t ∧
      (s.Holds e.op e.uniqueNum → (t.ops e.op).depOnL1Miss = true → t.Supported e.op) := by
  by_cases hholds : s.Holds e.op e.uniqueNum
  · have hc : s.Consumer p e.op := ⟨e, he, rfl, hholds⟩
    have hflight : s.InFlight e.op := (hl.producer_of_consumer hc).1
    have hassert : ¬ ((s.ops e.op).depOnL1Miss = false ∧ (s.ops e.op).wasDepOnL1Miss = false) := by
      rintro ⟨h1, h2⟩
      have hor := hcons e.op hc
      rw [h1, h2] at hor
      exact hor.elim Bool.false_ne_true Bool.false_ne_true
    have hid : ¬ op.procId ≠ (s.ops e.op).procId := not_not.mpr (hproc.trans (hl.procId p _ hc))
    simp only [State.unmarkEntry, if_pos hholds, if_neg hid, if_neg hassert]
    cases hdep : (s.ops e.op).depOnL1Miss with
    | false =>
        refine ⟨s, rfl, .refl s, fun _ h => ?_⟩
        rw [hdep] at h
        cases h
    | true =>
        by_cases hstill : s.stillDepOnL1Miss op.uniqueNum (s.ops e.op).srcInfo = true
        · refine ⟨s, ?_, .refl s, fun _ _ => ?_⟩
          · rw [if_neg Bool.false_ne_true.symm, if_pos hstill]
          · rw [hunique, stillDepOnL1Miss_iff hl (hc.valid hl)] at hstill
            obtain ⟨q, -, hq, hmarked⟩ := hstill
            exact ⟨q, hq, hmarked⟩
        · -- no other source of the op is marked, and it loses its mark
          have hnone : ¬ s.Supported e.op := by
            rintro ⟨q, hq, hmarked⟩
            refine hstill ?_
            rw [hunique, stillDepOnL1Miss_iff hl (hc.valid hl)]
            refine ⟨q, ?_, hq, hmarked⟩
            rintro rfl
            rw [hplain] at hmarked
            cases hmarked
          have hbound : e.op < s.opPoolEntries := hl.bound _ hholds.2
          have hframed := Framed.setOp s e.op false true
          have hcard := card_withDep_setOp false true hbound hdep
          have hself : ((s.setOp e.op { s.ops e.op with depOnL1Miss := false, wasDepOnL1Miss := true }).ops e.op) =
              { s.ops e.op with depOnL1Miss := false, wasDepOnL1Miss := true } := by
            simp [State.setOp]
          have hother : ∀ y, y ≠ e.op →
              (s.setOp e.op { s.ops e.op with depOnL1Miss := false, wasDepOnL1Miss := true }).ops y = s.ops y := by
            intro y hy
            simp [State.setOp, hy]
          have hshrink : ∀ y, ((s.setOp e.op { s.ops e.op with
              depOnL1Miss := false, wasDepOnL1Miss := true }).ops y).depOnL1Miss = true → (s.ops y).depOnL1Miss = true := by
            intro y hy
            by_cases hye : y = e.op
            · rw [hye]
              exact hdep
            · rwa [hother y hye] at hy
          have hwas : ∀ y, (s.ops y).depOnL1Miss = true ∨ (s.ops y).wasDepOnL1Miss = true →
              ((s.setOp e.op { s.ops e.op with depOnL1Miss := false, wasDepOnL1Miss := true }).ops y).depOnL1Miss = true ∨
              ((s.setOp e.op { s.ops e.op with depOnL1Miss := false, wasDepOnL1Miss := true }).ops y).wasDepOnL1Miss =
                true := by
            intro y hy
            by_cases hye : y = e.op
            · rw [hye, hself]
              exact .inr rfl
            · rwa [hother y hye]
          have hlit' : (s.setOp e.op { s.ops e.op with depOnL1Miss := false, wasDepOnL1Miss := true }).Lit := by
            refine ⟨fun x hx hdepx => ?_, fun x d hd hdepx => ?_⟩
            · rw [hframed.missing]
              exact hlit.apart x ((hframed.inFlight x).mp hx) (hshrink x hdepx)
            · exact hwas d (hlit.consumers x d ((hframed.consumer x d).mp hd) (hshrink x hdepx))
          obtain ⟨t, ht, hunmarks, hclosed⟩ := ih _ e.op (hframed.linked hl) hlit'
            (by rw [Op.marked, hframed.missing, hlit.apart _ hflight hdep, hself]; rfl)
            (by rw [hself]; exact Bool.or_true _)
            (fun d hd => hwas d (hlit.consumers _ d ((hframed.consumer _ d).mp hd) hdep))
            (Nat.lt_of_lt_of_le hcard hdepth)
          refine ⟨t, ?_, ?_, ?_⟩
          · rw [if_neg Bool.false_ne_true.symm, if_neg hstill]
            exact ht
          · refine ⟨hframed.trans hunmarks.framed, fun x hx => hshrink x (hunmarks.shrinks x hx),
              fun x hx => hunmarks.was x (hwas x hx), fun x hx hlost => ?_⟩
            by_cases hxe : x = e.op
            · subst hxe
              refine ⟨fun hsup => hnone ?_, fun d hd => hclosed d ((hframed.consumer _ d).mpr hd)⟩
              obtain ⟨q, hq, hmarked⟩ := hunmarks.supported_of hsup
              refine ⟨q, (hframed.producer _ q).mp hq, ?_⟩
              rw [Op.marked, Bool.or_eq_true] at hmarked ⊢
              rw [hframed.missing] at hmarked
              exact hmarked.imp_right (hshrink q)
            · have hx' := (congrArg Op.depOnL1Miss (hother x hxe)).trans hx
              obtain ⟨hno, hconsx⟩ := hunmarks.settled x hx' hlost
              exact ⟨hno, fun d hd => hconsx d ((hframed.consumer x d).mpr hd)⟩
          · intro _ hagain
            have hlost := hunmarks.shrinks _ hagain
            rw [hself] at hlost
            cases hlost
  · simp only [State.unmarkEntry, if_neg hholds]
    exact ⟨s, rfl, .refl s, fun h => absurd h hholds⟩

/-- The loop over the wake-up list, from any entry on. -/
theorem unmarkEntries_spec {depth : ℕ} (ih : UnmarksTo depth) {op : Op} {entries : List WakeUpEntry} (hl : s.Linked)
    (hlit : s.Lit) (hplain : (s.ops p).marked = false)
    (hcons : ∀ d, s.Consumer p d → (s.ops d).depOnL1Miss = true ∨ (s.ops d).wasDepOnL1Miss = true)
    (hdepth : (s.withDep true).card ≤ depth) (hproc : op.procId = (s.ops p).procId)
    (hunique : op.uniqueNum = (s.ops p).uniqueNum) (hentries : ∀ e ∈ entries, e ∈ (s.ops p).wakeUpList) :
    ∃ t, entries.foldlM (State.unmarkEntry (State.unmarkTo depth) op) s = .ok t ∧ Unmarks s t ∧
      ∀ e ∈ entries, s.Holds e.op e.uniqueNum → (t.ops e.op).depOnL1Miss = true → t.Supported e.op := by
  induction entries generalizing s with
  | nil => exact ⟨s, rfl, .refl s, fun e he => absurd he List.not_mem_nil⟩
  | cons e entries ihl =>
      have he := hentries e List.mem_cons_self
      obtain ⟨m, hm, hunmarks, hfirst⟩ := unmarkEntry_spec ih hl hlit hplain hcons hdepth hproc hunique he
      have hle : (m.withDep true).card ≤ depth := Nat.le_trans (card_withDep_le hunmarks.framed hunmarks.shrinks) hdepth
      have hplain' : (m.ops p).marked = false :=
        Bool.eq_false_of_not_eq_true fun h => Bool.false_ne_true (hplain.symm.trans (hunmarks.marked h))
      obtain ⟨t, ht, hunmarks', hrest⟩ := ihl (hunmarks.framed.linked hl) (hunmarks.lit hlit) hplain'
        (fun d hd => hunmarks.was d (hcons d ((hunmarks.framed.consumer p d).mp hd))) hle
        (hproc.trans (hunmarks.framed.procId p).symm) (hunique.trans (hunmarks.framed.uniqueNum p).symm)
        (fun e' he' => by rw [hunmarks.framed.wakeUpList]; exact hentries e' (List.mem_cons_of_mem e he'))
      refine ⟨t, ?_, hunmarks.trans hl hunmarks', fun e' he' hholds hdep => ?_⟩
      · rw [List.foldlM_cons, hm]
        exact ht
      · cases List.mem_cons.mp he' with
        | inl heq =>
            subst heq
            have hflight : s.InFlight e'.op := (hl.producer_of_consumer ⟨e', he, rfl, hholds⟩).1
            exact hunmarks'.supported (hunmarks.framed.linked hl) ((hunmarks.framed.inFlight _).mpr hflight)
              (hfirst hholds (hunmarks'.shrinks _ hdep)) hdep
        | inr hmem => exact hrest e' hmem ((hunmarks.framed.holds _ _).mpr hholds) hdep

theorem unmarkTo_spec (depth : ℕ) : UnmarksTo depth := by
  induction depth with
  | zero => exact fun s p _ _ _ _ _ hdepth => absurd hdepth (Nat.not_lt_zero _)
  | succ depth ih =>
      intro s p hl hlit hplain hassert hcons hdepth
      obtain ⟨t, ht, hunmarks, hclosed⟩ :=
        unmarkEntries_spec ih hl hlit hplain hcons (Nat.le_of_lt_succ hdepth) rfl rfl fun e he => he
      refine ⟨t, ?_, hunmarks, ?_⟩
      · simp only [State.unmarkTo, if_pos hassert]
        exact ht
      · rintro d ⟨e, he, rfl, hholds⟩
        exact hclosed e he hholds

end Scarab.MissDeps
