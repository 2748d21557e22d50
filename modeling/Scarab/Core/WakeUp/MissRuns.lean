import Scarab.Core.WakeUp.MissLaw

/-! # Runs of the marks

Ops are fetched, linked to their producers and leave the machine while misses come and go. -/

namespace Scarab.MissDeps

open WakeUp (OpPtr SrcInfo WakeUpEntry)

variable {obeyRegDep : Bool} {s t : State} {p q : OpPtr} {e : WakeUpEntry}

/-! ### Linking -/

/-- A source as the map stage leaves it. -/
def State.settle (obeyRegDep : Bool) (s : State) (src : SrcInfo) : SrcInfo :=
  if (s.producer obeyRegDep src).isSome then src else src.gone

theorem producer_eq_some {src : SrcInfo} (h : s.producer obeyRegDep src = some q) :
    src.op = some q ∧ s.Holds q src.uniqueNum := by
  rw [State.producer] at h
  split at h
  · obtain ⟨hq, hholds⟩ := Option.filter_eq_some_iff.mp h
    exact ⟨hq, of_decide_eq_true hholds⟩
  · cases h

/-- The state after the map stage went through the sources `pre` of an op, with `rest` to come. -/
structure Linking (obeyRegDep : Bool) (s t : State) (p : OpPtr) (pre rest : List SrcInfo) : Prop where
  self : t.ops p = { s.ops p with
    srcInfo := pre.map (s.settle obeyRegDep) ++ rest
    depOnL1Miss := (s.ops p).depOnL1Miss ||
      pre.any fun src => (s.producer obeyRegDep src).any fun q => (s.ops q).marked }
  other : ∀ q, q ≠ p → t.ops q = { s.ops q with wakeUpList := (t.ops q).wakeUpList }
  added : ∀ q, q ≠ p → ∃ wakes, (t.ops q).wakeUpList = (s.ops q).wakeUpList ++ wakes ∧
    (∀ e ∈ wakes, e.op = p ∧ e.uniqueNum = (s.ops p).uniqueNum) ∧
      (wakes ≠ [] ↔ ∃ src ∈ pre, s.producer obeyRegDep src = some q)
  opPoolEntries : t.opPoolEntries = s.opPoolEntries
  uniqueCount : t.uniqueCount = s.uniqueCount

theorem Linking.holds {pre rest : List SrcInfo} (h : Linking obeyRegDep s t p pre rest) (x : OpPtr) (uniqueNum : ℕ) :
    t.Holds x uniqueNum ↔ s.Holds x uniqueNum := by
  by_cases hx : x = p
  · rw [State.Holds, State.Holds, hx, h.self]
  · rw [State.Holds, State.Holds, h.other x hx]

theorem Linking.producer {pre rest : List SrcInfo} (h : Linking obeyRegDep s t p pre rest) (src : SrcInfo) :
    t.producer obeyRegDep src = s.producer obeyRegDep src := by
  simp only [State.producer, h.holds]

theorem Linking.start (obeyRegDep : Bool) (s : State) (p : OpPtr) :
    Linking obeyRegDep s s p [] (s.ops p).srcInfo where
  self := by simp
  other _ _ := rfl
  added q _ := ⟨[], by simp, by simp, by simp⟩
  opPoolEntries := rfl
  uniqueCount := rfl

/-- One source more. -/
theorem Linking.link {pre rest : List SrcInfo} {src : SrcInfo} (h : Linking obeyRegDep s t p pre (src :: rest))
    (hself : s.producer obeyRegDep src ≠ some p)
    (hproc : ∀ q, s.producer obeyRegDep src = some q → (s.ops p).procId = (s.ops q).procId) :
    ∃ u, t.linkSource obeyRegDep p (src, pre.length) = .ok u ∧ Linking obeyRegDep s u p (pre ++ [src]) rest := by
  have hprod := h.producer src
  cases hq : s.producer obeyRegDep src with
  | none =>
      rw [hq] at hprod
      refine ⟨t.setOp p { t.ops p with srcInfo := (t.ops p).srcInfo.set pre.length src.gone },
        by simp only [State.linkSource, hprod], ?_, fun q hqp => ?_, fun q hqp => ?_, h.opPoolEntries, h.uniqueCount⟩
      · have hset : (t.ops p).srcInfo.set pre.length src.gone =
            (pre ++ [src]).map (s.settle obeyRegDep) ++ rest := by
          rw [h.self]
          simp [State.settle, hq]
        simp only [State.setOp, Function.update_self, hset]
        rw [h.self]
        simp [hq]
      · simp only [State.setOp, Function.update_of_ne hqp]
        exact h.other q hqp
      · obtain ⟨wakes, hlist, hwakes, hne⟩ := h.added q hqp
        refine ⟨wakes, ?_, hwakes, ?_⟩
        · simpa only [State.setOp, Function.update_of_ne hqp] using hlist
        · rw [hne]
          simp [hq, or_and_right, exists_or]
  | some q =>
      rw [hq] at hprod hself
      have hqp : q ≠ p := fun heq => hself (congrArg some heq)
      have hid : ¬ (t.ops p).procId ≠ (t.ops q).procId := by
        rw [h.self, h.other q hqp]
        exact not_not.mpr (hproc q hq)
      have hmarked : (t.ops q).marked = (s.ops q).marked := by
        rw [h.other q hqp]
        rfl
      refine ⟨t.linkTo p q ⟨p, (t.ops p).uniqueNum, src.type, pre.length⟩,
        by simp only [State.linkSource, hprod, if_neg hid], ?_, fun r hrp => ?_, fun r hrp => ?_,
        h.opPoolEntries, h.uniqueCount⟩
      · simp only [State.linkTo, State.setOp, Function.update_self, Function.update_of_ne hqp.symm, Op.marked, Op.missing]
        rw [h.self, h.other q hqp]
        simp [State.settle, hq, Op.marked, Op.missing, Bool.or_assoc]
      · by_cases hrq : r = q
        · subst hrq
          simp only [State.linkTo, State.setOp, Function.update_self, Function.update_of_ne hrp]
          rw [h.other r hrp]
        · simp only [State.linkTo, State.setOp, Function.update_of_ne hrp, Function.update_of_ne hrq]
          exact h.other r hrp
      · obtain ⟨wakes, hlist, hwakes, hne⟩ := h.added r hrp
        by_cases hrq : r = q
        · subst hrq
          refine ⟨wakes ++ [⟨p, (t.ops p).uniqueNum, src.type, pre.length⟩], ?_, fun e he => ?_, ?_⟩
          · simp only [State.linkTo, State.setOp, Function.update_self, Function.update_of_ne hrp]
            rw [hlist, List.append_assoc]
          · cases List.mem_append.mp he with
            | inl hold => exact hwakes e hold
            | inr hnew =>
                obtain rfl := List.mem_singleton.mp hnew
                exact ⟨rfl, by rw [h.self]⟩
          · refine iff_of_true (by simp) ⟨src, by simp, hq⟩
        · refine ⟨wakes, ?_, hwakes, ?_⟩
          · simpa only [State.linkTo, State.setOp, Function.update_of_ne hrp, Function.update_of_ne hrq] using hlist
          · rw [hne]
            simp [hq, or_and_right, exists_or, Ne.symm hrq]

/-- The loop over the sources, from any source on. -/
theorem Linking.links {pre rest : List SrcInfo} (h : Linking obeyRegDep s t p pre rest)
    (hself : ∀ src ∈ rest, s.producer obeyRegDep src ≠ some p)
    (hproc : ∀ src ∈ rest, ∀ q, s.producer obeyRegDep src = some q → (s.ops p).procId = (s.ops q).procId) :
    ∃ u, (rest.zipIdx pre.length).foldlM (State.linkSource obeyRegDep p) t = .ok u ∧
      Linking obeyRegDep s u p (pre ++ rest) [] := by
  induction rest generalizing pre t with
  | nil => exact ⟨t, rfl, by rwa [List.append_nil]⟩
  | cons src rest ih =>
      obtain ⟨m, hm, hlink⟩ := h.link (hself src List.mem_cons_self) (hproc src List.mem_cons_self)
      obtain ⟨u, hu, hend⟩ := ih hlink (fun src' h' => hself src' (List.mem_cons_of_mem src h'))
        (fun src' h' => hproc src' (List.mem_cons_of_mem src h'))
      refine ⟨u, ?_, by rwa [List.append_assoc] at hend⟩
      rw [List.zipIdx_cons, List.foldlM_cons, hm]
      rwa [List.length_append] at hu

/-- What the map stage did to an op and to its producers. -/
structure Mapped (obeyRegDep : Bool) (s t : State) (p : OpPtr) : Prop where
  self : t.ops p = { s.ops p with
    mapped := true
    srcInfo := (s.ops p).srcInfo.map (s.settle obeyRegDep)
    depOnL1Miss := (s.ops p).srcInfo.any fun src => (s.producer obeyRegDep src).any fun q => (s.ops q).marked }
  other : ∀ q, q ≠ p → t.ops q = { s.ops q with wakeUpList := (t.ops q).wakeUpList }
  added : ∀ q, q ≠ p → ∃ wakes, (t.ops q).wakeUpList = (s.ops q).wakeUpList ++ wakes ∧
    (∀ e ∈ wakes, e.op = p ∧ e.uniqueNum = (s.ops p).uniqueNum) ∧
      (wakes ≠ [] ↔ ∃ src ∈ (s.ops p).srcInfo, s.producer obeyRegDep src = some q)
  opPoolEntries : t.opPoolEntries = s.opPoolEntries
  uniqueCount : t.uniqueCount = s.uniqueCount

theorem Linking.mapped (h : Linking obeyRegDep s t p (s.ops p).srcInfo []) (hplain : (s.ops p).depOnL1Miss = false) :
    Mapped obeyRegDep s (t.setOp p { t.ops p with mapped := true }) p where
  self := by
    simp only [State.setOp, Function.update_self]
    rw [h.self, hplain, List.append_nil, Bool.false_or]
  other x hx := by
    simp only [State.setOp, Function.update_of_ne hx]
    exact h.other x hx
  added x hx := by
    simp only [State.setOp, Function.update_of_ne hx]
    exact h.added x hx
  opPoolEntries := h.opPoolEntries
  uniqueCount := h.uniqueCount

namespace Mapped

theorem valid (h : Mapped obeyRegDep s t p) (x : OpPtr) : (t.ops x).valid = (s.ops x).valid := by
  by_cases hx : x = p
  · rw [hx, h.self]
  · rw [h.other x hx]

theorem uniqueNum (h : Mapped obeyRegDep s t p) (x : OpPtr) : (t.ops x).uniqueNum = (s.ops x).uniqueNum := by
  by_cases hx : x = p
  · rw [hx, h.self]
  · rw [h.other x hx]

theorem procId (h : Mapped obeyRegDep s t p) (x : OpPtr) : (t.ops x).procId = (s.ops x).procId := by
  by_cases hx : x = p
  · rw [hx, h.self]
  · rw [h.other x hx]

theorem holds (h : Mapped obeyRegDep s t p) (x : OpPtr) (uniqueNum : ℕ) : t.Holds x uniqueNum ↔ s.Holds x uniqueNum := by
  rw [State.Holds, State.Holds, h.uniqueNum, h.valid]

theorem inFlight (h : Mapped obeyRegDep s t p) {x : OpPtr} (hx : x ≠ p) : t.InFlight x ↔ s.InFlight x := by
  rw [State.InFlight, State.InFlight, h.other x hx]

theorem marked (h : Mapped obeyRegDep s t p) {x : OpPtr} (hx : x ≠ p) : (t.ops x).marked = (s.ops x).marked := by
  rw [h.other x hx]
  rfl

theorem producer_other (h : Mapped obeyRegDep s t p) {d : OpPtr} (hd : d ≠ p) (q : OpPtr) :
    t.Producer d q ↔ s.Producer d q := by
  rw [State.Producer, h.other d hd]
  simp only [h.holds]
  rfl

/-- The producers of the op are those that the map stage found. -/
theorem producer_self (h : Mapped obeyRegDep s t p) (q : OpPtr) :
    t.Producer p q ↔ ∃ src ∈ (s.ops p).srcInfo, s.producer obeyRegDep src = some q := by
  rw [State.Producer, h.self]
  simp only [h.holds, List.mem_map]
  constructor
  · rintro ⟨_, ⟨src, hsrc, rfl⟩, hop, -⟩
    refine ⟨src, hsrc, ?_⟩
    cases hq : s.producer obeyRegDep src with
    | none => simp [State.settle, hq, SrcInfo.gone] at hop
    | some r =>
        simp only [State.settle, hq, Option.isSome_some, if_true] at hop
        exact (producer_eq_some hq).1.symm.trans hop
  · rintro ⟨src, hsrc, hq⟩
    refine ⟨src, ⟨src, hsrc, by simp [State.settle, hq]⟩, producer_eq_some hq⟩

/-- They were its producers before. -/
theorem producer_before (h : Mapped obeyRegDep s t p) {q : OpPtr} (hq : t.Producer p q) : s.Producer p q := by
  obtain ⟨src, hsrc, hsome⟩ := (h.producer_self q).mp hq
  exact ⟨src, hsrc, producer_eq_some hsome⟩

theorem consumer_self (h : Mapped obeyRegDep s t p) (hnone : ∀ d, ¬ s.Consumer p d) (d : OpPtr) : ¬ t.Consumer p d := by
  rintro ⟨e, he, hed, hh⟩
  rw [h.self] at he
  exact hnone d ⟨e, he, hed, (h.holds d _).mp hh⟩

/-- The op is a new consumer of its producers. -/
theorem consumer_other (h : Mapped obeyRegDep s t p) (hvalid : (s.ops p).valid = true) {x : OpPtr} (hx : x ≠ p)
    (d : OpPtr) : t.Consumer x d ↔ s.Consumer x d ∨ d = p ∧ t.Producer p x := by
  obtain ⟨wakes, hlist, hwakes, hne⟩ := h.added x hx
  rw [h.producer_self x, ← hne]
  simp only [State.Consumer, h.holds, hlist]
  constructor
  · rintro ⟨e, he, hed, hh⟩
    cases List.mem_append.mp he with
    | inl hold => exact .inl ⟨e, hold, hed, hh⟩
    | inr hnew => exact .inr ⟨hed.symm.trans (hwakes e hnew).1, List.ne_nil_of_mem hnew⟩
  · rintro (⟨e, he, hed, hh⟩ | ⟨rfl, hnew⟩)
    · exact ⟨e, List.mem_append_left _ he, hed, hh⟩
    · obtain ⟨e, he⟩ := List.exists_mem_of_ne_nil _ hnew
      obtain ⟨hop, hunique⟩ := hwakes e he
      exact ⟨e, List.mem_append_right _ he, hop, hunique.symm, hvalid⟩

theorem not_self (h : Mapped obeyRegDep s t p) (hs : s.Linked) (hvalid : (s.ops p).valid = true) : ¬ t.Producer p p :=
  fun hp => hs.not_producer_self hvalid (h.producer_before hp)

/-- The wake-up lists and the sources agree again. -/
theorem consumer_iff (h : Mapped obeyRegDep s t p) (hs : s.Linked) (hvalid : (s.ops p).valid = true)
    (hmapped : (s.ops p).mapped = false) (hnone : ∀ d, ¬ s.Consumer p d) {x : OpPtr} (d : OpPtr)
    (hx : (t.ops x).valid = true) : t.Consumer x d ↔ t.InFlight d ∧ t.Producer d x := by
  by_cases hxp : x = p
  · subst hxp
    refine iff_of_false (h.consumer_self hnone d) ?_
    rintro ⟨hd, hprod⟩
    by_cases hdx : d = x
    · subst hdx
      exact h.not_self hs hvalid hprod
    · exact hnone d (hs.consumer_of_producer ((h.inFlight hdx).mp hd) ((h.producer_other hdx x).mp hprod))
  · rw [h.valid] at hx
    rw [h.consumer_other hvalid hxp d]
    by_cases hdp : d = p
    · subst hdp
      have hin : t.InFlight d := by
        rw [State.InFlight, h.self]
        exact ⟨hvalid, rfl⟩
      have hold : ¬ s.Consumer x d := fun hc =>
        Bool.false_ne_true (hmapped.symm.trans (hs.producer_of_consumer hc).1.2)
      simp only [hold, hin, true_and, false_or]
    · rw [h.inFlight hdp, h.producer_other hdp x, hs.consumer_iff x d hx]
      simp only [hdp, false_and, or_false]

/-- The links are in order. -/
theorem linked (h : Mapped obeyRegDep s t p) (hs : s.Linked) (hvalid : (s.ops p).valid = true)
    (hmapped : (s.ops p).mapped = false) (hnone : ∀ d, ¬ s.Consumer p d)
    (hproc : ∀ q, s.Producer p q → (s.ops p).procId = (s.ops q).procId) : t.Linked where
  consumer_iff x d hx := h.consumer_iff hs hvalid hmapped hnone d hx
  procId x d hc := by
    have hxp : x ≠ p := by
      rintro rfl
      exact h.consumer_self hnone d hc
    rw [h.procId, h.procId]
    cases (h.consumer_other hvalid hxp d).mp hc with
    | inl hold => exact hs.procId x d hold
    | inr hnew =>
        rw [hnew.1]
        exact (hproc x (h.producer_before hnew.2)).symm
  idle x hx := by
    have hxp : x ≠ p := by
      rintro rfl
      exact Bool.false_ne_true (hx.symm.trans ((h.valid x).trans hvalid))
    rw [h.valid] at hx
    obtain ⟨wakes, hlist, -, hne⟩ := h.added x hxp
    have hempty : wakes = [] := by
      refine Decidable.byContradiction fun hw => ?_
      obtain ⟨src, -, hq⟩ := hne.mp hw
      exact Bool.false_ne_true (hx.symm.trans (producer_eq_some hq).2.2)
    rw [hlist, hempty, hs.idle x hx]
    rfl
  inj x y hx hy hxy := by
    rw [h.valid] at hx hy
    rw [h.uniqueNum, h.uniqueNum] at hxy
    exact hs.inj x y hx hy hxy
  young x hx := by
    rw [h.valid] at hx
    rw [h.uniqueCount, h.uniqueNum]
    exact hs.young x hx
  entry x e he := by
    rw [h.uniqueCount]
    by_cases hxp : x = p
    · rw [hxp, h.self] at he
      exact hs.entry p e he
    · obtain ⟨wakes, hlist, hwakes, -⟩ := h.added x hxp
      rw [hlist] at he
      cases List.mem_append.mp he with
      | inl hold => exact hs.entry x e hold
      | inr hnew =>
          rw [(hwakes e hnew).2]
          exact hs.young p hvalid
  older x hx src hsrc := by
    rw [h.uniqueNum]
    by_cases hxp : x = p
    · subst hxp
      rw [h.self] at hsrc
      obtain ⟨src', hsrc', rfl⟩ := List.mem_map.mp hsrc
      have hsame : (s.settle obeyRegDep src').uniqueNum = src'.uniqueNum := by
        rw [State.settle]
        split <;> rfl
      rw [hsame]
      exact hs.older x hvalid src' hsrc'
    · rw [h.other x hxp] at hx hsrc
      exact hs.older x hx src hsrc
  bound x hx := by
    rw [h.valid] at hx
    rw [h.opPoolEntries]
    exact hs.bound x hx

/-- The op is marked if it has a marked producer, and the other marks stay. -/
theorem law (h : Mapped obeyRegDep s t p) (hs : s.Lawful) (hvalid : (s.ops p).valid = true)
    (hnone : ∀ d, ¬ s.Consumer p d) : t.Law := by
  intro d hd
  by_cases hdp : d = p
  · subst hdp
    have hqd : ∀ q, t.Producer d q → q ≠ d := by
      rintro q hq rfl
      exact h.not_self hs.linked hvalid hq
    rw [h.self]
    simp only [List.any_eq_true, Option.any_eq_true]
    constructor
    · rintro ⟨src, hsrc, q, hq, hqmarked⟩
      have hprod := (h.producer_self q).mpr ⟨src, hsrc, hq⟩
      exact ⟨q, hprod, (h.marked (hqd q hprod)).trans hqmarked⟩
    · rintro ⟨q, hprod, hqmarked⟩
      obtain ⟨src, hsrc, hq⟩ := (h.producer_self q).mp hprod
      exact ⟨src, hsrc, q, hq, (h.marked (hqd q hprod)).symm.trans hqmarked⟩
  · have hds := (h.inFlight hdp).mp hd
    have hqp : ∀ q, s.Producer d q → q ≠ p := by
      rintro q hq rfl
      exact hnone d (hs.linked.consumer_of_producer hds hq)
    rw [h.other d hdp]
    refine (hs.law d hds).trans (exists_congr fun q => ?_)
    rw [h.producer_other hdp q]
    refine and_congr_right fun hq => ?_
    rw [h.marked (hqp q hq)]

end Mapped

/-- The map stage links an op. -/
theorem State.Lawful.map (obeyRegDep : Bool) (hs : s.Lawful) (hvalid : (s.ops p).valid = true)
    (hmapped : (s.ops p).mapped = false) (hnone : ∀ d, ¬ s.Consumer p d)
    (hproc : ∀ q, s.Producer p q → (s.ops p).procId = (s.ops q).procId) :
    ∃ t, s.addToWakeUpLists obeyRegDep p = .ok t ∧ t.Lawful := by
  have hproducer : ∀ src ∈ (s.ops p).srcInfo, ∀ q, s.producer obeyRegDep src = some q → s.Producer p q :=
    fun src hsrc q hq => ⟨src, hsrc, producer_eq_some hq⟩
  obtain ⟨m, hm, hlink⟩ := (Linking.start obeyRegDep s p).links
    (fun src hsrc hq => hs.linked.not_producer_self hvalid (hproducer src hsrc p hq))
    (fun src hsrc q hq => hproc q (hproducer src hsrc q hq))
  rw [List.nil_append] at hlink
  obtain ⟨hmiss, hplain⟩ := hs.unmapped p hvalid hmapped
  have h := hlink.mapped hplain
  refine ⟨m.setOp p { m.ops p with mapped := true }, ?_, h.linked hs.linked hvalid hmapped hnone hproc,
    h.law hs hvalid hnone, fun x hx hdep => ?_, fun x hx hxm => ?_⟩
  · rw [List.length_nil] at hm
    rw [State.addToWakeUpLists, hm]
    rfl
  · by_cases hxp : x = p
    · rw [hxp, h.self]
      simp [Op.missing, hmiss]
    · rw [h.other x hxp] at hdep ⊢
      exact hs.apart x ((h.inFlight hxp).mp hx) hdep
  · have hxp : x ≠ p := by
      rintro rfl
      rw [h.self] at hxm
      cases hxm
    rw [h.other x hxp] at hx hxm ⊢
    exact hs.unmapped x hx hxm

/-! ### The pool -/

section Alloc

variable {uniqueNum procId : ℕ} {memSt : Bool} {srcs : List SrcInfo} {d x : OpPtr}

theorem State.Linked.allocOp_self (hs : s.Linked) (hfree : (s.ops p).valid = false) :
    (s.allocOp p uniqueNum procId memSt srcs).ops p =
      ⟨true, uniqueNum, procId, memSt, srcs, [], false, false, false, false, false⟩ := by
  simp [State.allocOp, State.setOp, hs.idle p hfree]

theorem State.allocOp_other (hx : x ≠ p) : (s.allocOp p uniqueNum procId memSt srcs).ops x = s.ops x := by
  simp [State.allocOp, State.setOp, hx]

/-- A new unique number is none of those before. -/
theorem State.Linked.allocOp_holds {v : ℕ} (hs : s.Linked) (hfree : (s.ops p).valid = false)
    (hnew : s.uniqueCount ≤ uniqueNum) (hv : v < s.uniqueCount) :
    (s.allocOp p uniqueNum procId memSt srcs).Holds x v ↔ s.Holds x v := by
  by_cases hx : x = p
  · rw [State.Holds, State.Holds, hx, hs.allocOp_self hfree, hfree]
    refine iff_of_false (fun h => ?_) (fun h => Bool.false_ne_true h.2)
    exact Nat.lt_irrefl _ (Nat.lt_of_lt_of_le hv (Nat.le_trans hnew (Nat.le_of_eq h.1)))
  · rw [State.Holds, State.Holds, State.allocOp_other hx]

theorem State.Linked.allocOp_consumer (hs : s.Linked) (hfree : (s.ops p).valid = false)
    (hnew : s.uniqueCount ≤ uniqueNum) : (s.allocOp p uniqueNum procId memSt srcs).Consumer x d ↔ s.Consumer x d := by
  have hlist : ((s.allocOp p uniqueNum procId memSt srcs).ops x).wakeUpList = (s.ops x).wakeUpList := by
    by_cases hx : x = p
    · rw [hx, hs.allocOp_self hfree, hs.idle p hfree]
    · rw [State.allocOp_other hx]
  simp only [State.Consumer, hlist]
  exact exists_congr fun e => and_congr_right fun he => and_congr_right fun _ =>
    hs.allocOp_holds hfree hnew (hs.entry x e he)

theorem State.Linked.allocOp_inFlight (hs : s.Linked) (hfree : (s.ops p).valid = false) :
    (s.allocOp p uniqueNum procId memSt srcs).InFlight d ↔ d ≠ p ∧ s.InFlight d := by
  by_cases hd : d = p
  · rw [State.InFlight, hd, hs.allocOp_self hfree]
    exact iff_of_false (fun h => Bool.false_ne_true h.2) fun h => h.1 rfl
  · rw [State.InFlight, State.InFlight, State.allocOp_other hd]
    exact (and_iff_right hd).symm

theorem State.InFlight.ne_free (hd : s.InFlight d) (hfree : (s.ops p).valid = false) : d ≠ p := by
  rintro rfl
  exact Bool.false_ne_true (hfree.symm.trans hd.1)

theorem State.Producer.ne_free (hd : s.Producer d x) (hfree : (s.ops p).valid = false) : x ≠ p := by
  obtain ⟨src, -, -, hholds⟩ := hd
  rintro rfl
  exact Bool.false_ne_true (hfree.symm.trans hholds.2)

theorem State.Linked.allocOp_producer (hs : s.Linked) (hfree : (s.ops p).valid = false) (hnew : s.uniqueCount ≤ uniqueNum)
    (hd : s.InFlight d) : (s.allocOp p uniqueNum procId memSt srcs).Producer d x ↔ s.Producer d x := by
  simp only [State.Producer, State.allocOp_other (hd.ne_free hfree)]
  refine exists_congr fun src => and_congr_right fun hsrc => and_congr_right fun _ => hs.allocOp_holds hfree hnew ?_
  exact Nat.lt_trans (hs.older d hd.1 src hsrc) (hs.young d hd.1)

theorem State.Linked.alloc (hs : s.Linked) (hfree : (s.ops p).valid = false) (hnew : s.uniqueCount ≤ uniqueNum)
    (holder : ∀ src ∈ srcs, src.uniqueNum < uniqueNum) : (s.allocOp p uniqueNum procId memSt srcs).Linked where
  consumer_iff x d _ := by
    rw [hs.allocOp_consumer hfree hnew, hs.allocOp_inFlight hfree]
    constructor
    · intro hc
      obtain ⟨hd, hp⟩ := hs.producer_of_consumer hc
      exact ⟨⟨hd.ne_free hfree, hd⟩, (hs.allocOp_producer hfree hnew hd).mpr hp⟩
    · rintro ⟨⟨-, hd⟩, hp⟩
      exact hs.consumer_of_producer hd ((hs.allocOp_producer hfree hnew hd).mp hp)
  procId x d hc := by
    rw [hs.allocOp_consumer hfree hnew] at hc
    obtain ⟨hd, hprod⟩ := hs.producer_of_consumer hc
    rw [State.allocOp_other (hprod.ne_free hfree), State.allocOp_other (hd.ne_free hfree)]
    exact hs.procId x d hc
  idle x hx := by
    have hxp : x ≠ p := by
      rintro rfl
      rw [hs.allocOp_self hfree] at hx
      cases hx
    rw [State.allocOp_other hxp] at hx ⊢
    exact hs.idle x hx
  inj x y hx hy hxy := by
    have hyoung : ∀ z, z ≠ p → ((s.allocOp p uniqueNum procId memSt srcs).ops z).valid = true →
        ((s.allocOp p uniqueNum procId memSt srcs).ops z).uniqueNum ≠ uniqueNum := by
      intro z hz hzv heq
      rw [State.allocOp_other hz] at hzv heq
      have hlt := hs.young z hzv
      rw [heq] at hlt
      exact Nat.lt_irrefl _ (Nat.lt_of_lt_of_le hlt hnew)
    by_cases hxp : x = p <;> by_cases hyp : y = p
    · exact hxp.trans hyp.symm
    · rw [hxp, hs.allocOp_self hfree] at hxy
      exact absurd hxy.symm (hyoung y hyp hy)
    · rw [hyp, hs.allocOp_self hfree] at hxy
      exact absurd hxy (hyoung x hxp hx)
    · rw [State.allocOp_other hxp] at hx hxy
      rw [State.allocOp_other hyp] at hy hxy
      exact hs.inj x y hx hy hxy
  young x hx := by
    change _ < uniqueNum + 1
    by_cases hxp : x = p
    · rw [hxp, hs.allocOp_self hfree]
      exact Nat.lt_succ_self _
    · rw [State.allocOp_other hxp] at hx ⊢
      exact Nat.lt_succ_of_lt (Nat.lt_of_lt_of_le (hs.young x hx) hnew)
  entry x e he := by
    change _ < uniqueNum + 1
    by_cases hxp : x = p
    · rw [hxp, hs.allocOp_self hfree] at he
      cases he
    · rw [State.allocOp_other hxp] at he
      exact Nat.lt_succ_of_lt (Nat.lt_of_lt_of_le (hs.entry x e he) hnew)
  older x hx src hsrc := by
    by_cases hxp : x = p
    · rw [hxp, hs.allocOp_self hfree] at hsrc ⊢
      exact holder src hsrc
    · rw [State.allocOp_other hxp] at hx hsrc ⊢
      exact hs.older x hx src hsrc
  bound x hx := by
    change x < max s.opPoolEntries (p + 1)
    by_cases hxp : x = p
    · rw [hxp]
      exact Nat.lt_of_lt_of_le (Nat.lt_succ_self p) (Nat.le_max_right _ _)
    · rw [State.allocOp_other hxp] at hx
      exact Nat.lt_of_lt_of_le (hs.bound x hx) (Nat.le_max_left _ _)

/-- An op is fetched. -/
theorem State.Lawful.alloc (hs : s.Lawful) (hfree : (s.ops p).valid = false) (hnew : s.uniqueCount ≤ uniqueNum)
    (holder : ∀ src ∈ srcs, src.uniqueNum < uniqueNum) : (s.allocOp p uniqueNum procId memSt srcs).Lawful where
  linked := hs.linked.alloc hfree hnew holder
  law d hd := by
    obtain ⟨hdp, hds⟩ := (hs.linked.allocOp_inFlight hfree).mp hd
    rw [State.allocOp_other hdp]
    refine (hs.law d hds).trans (exists_congr fun q => ?_)
    rw [hs.linked.allocOp_producer hfree hnew hds]
    refine and_congr_right fun hq => ?_
    rw [State.allocOp_other (hq.ne_free hfree)]
  apart x hx hdep := by
    obtain ⟨hxp, hxs⟩ := (hs.linked.allocOp_inFlight hfree).mp hx
    rw [State.allocOp_other hxp] at hdep ⊢
    exact hs.apart x hxs hdep
  unmapped x hx hxm := by
    by_cases hxp : x = p
    · rw [hxp, hs.linked.allocOp_self hfree]
      exact ⟨rfl, rfl⟩
    · rw [State.allocOp_other hxp] at hx hxm ⊢
      exact hs.unmapped x hx hxm

end Alloc

section Free

variable {d x : OpPtr}

theorem State.freeOp_self : (s.freeOp p).ops p = { s.ops p with valid := false, wakeUpList := [] } := by
  simp [State.freeOp, State.setOp]

theorem State.freeOp_other (hx : x ≠ p) : (s.freeOp p).ops x = s.ops x := by
  simp [State.freeOp, State.setOp, hx]

theorem State.freeOp_valid (hx : ((s.freeOp p).ops x).valid = true) : x ≠ p ∧ (s.ops x).valid = true := by
  have hxp : x ≠ p := by
    rintro rfl
    rw [State.freeOp_self] at hx
    cases hx
  rw [State.freeOp_other hxp] at hx
  exact ⟨hxp, hx⟩

theorem State.freeOp_holds {v : ℕ} : (s.freeOp p).Holds x v ↔ x ≠ p ∧ s.Holds x v := by
  by_cases hx : x = p
  · rw [State.Holds, hx, State.freeOp_self]
    exact iff_of_false (fun h => Bool.false_ne_true h.2) fun h => h.1 rfl
  · rw [State.Holds, State.Holds, State.freeOp_other hx]
    exact (and_iff_right hx).symm

theorem State.freeOp_inFlight : (s.freeOp p).InFlight x ↔ x ≠ p ∧ s.InFlight x := by
  by_cases hx : x = p
  · rw [State.InFlight, hx, State.freeOp_self]
    exact iff_of_false (fun h => Bool.false_ne_true h.1) fun h => h.1 rfl
  · rw [State.InFlight, State.InFlight, State.freeOp_other hx]
    exact (and_iff_right hx).symm

theorem State.freeOp_producer (hd : d ≠ p) : (s.freeOp p).Producer d x ↔ x ≠ p ∧ s.Producer d x := by
  simp only [State.Producer, State.freeOp_other hd, State.freeOp_holds]
  constructor
  · rintro ⟨src, hsrc, hop, hx, hh⟩
    exact ⟨hx, src, hsrc, hop, hh⟩
  · rintro ⟨hx, src, hsrc, hop, hh⟩
    exact ⟨src, hsrc, hop, hx, hh⟩

theorem State.freeOp_consumer : (s.freeOp p).Consumer x d ↔ x ≠ p ∧ d ≠ p ∧ s.Consumer x d := by
  by_cases hx : x = p
  · simp only [State.Consumer, hx, State.freeOp_self]
    simp
  · simp only [State.Consumer, State.freeOp_other hx, State.freeOp_holds]
    constructor
    · rintro ⟨e, he, hop, hd, hh⟩
      exact ⟨hx, hd, e, he, hop, hh⟩
    · rintro ⟨-, hd, e, he, hop, hh⟩
      exact ⟨e, he, hop, hd, hh⟩

theorem State.Linked.free (hs : s.Linked) : (s.freeOp p).Linked where
  consumer_iff x d hx := by
    obtain ⟨hxp, hxs⟩ := State.freeOp_valid hx
    rw [State.freeOp_consumer, State.freeOp_inFlight, hs.consumer_iff x d hxs]
    by_cases hdp : d = p
    · simp [hdp]
    · rw [State.freeOp_producer hdp]
      simp only [hxp, hdp, ne_eq, not_false_eq_true, true_and]
  procId x d hc := by
    obtain ⟨hxp, hdp, hc⟩ := State.freeOp_consumer.mp hc
    rw [State.freeOp_other hxp, State.freeOp_other hdp]
    exact hs.procId x d hc
  idle x hx := by
    by_cases hxp : x = p
    · rw [hxp, State.freeOp_self]
    · rw [State.freeOp_other hxp] at hx ⊢
      exact hs.idle x hx
  inj x y hx hy hxy := by
    obtain ⟨hxp, hxs⟩ := State.freeOp_valid hx
    obtain ⟨hyp, hys⟩ := State.freeOp_valid hy
    rw [State.freeOp_other hxp, State.freeOp_other hyp] at hxy
    exact hs.inj x y hxs hys hxy
  young x hx := by
    obtain ⟨hxp, hxs⟩ := State.freeOp_valid hx
    rw [State.freeOp_other hxp]
    exact hs.young x hxs
  entry x e he := by
    by_cases hxp : x = p
    · rw [hxp, State.freeOp_self] at he
      cases he
    · rw [State.freeOp_other hxp] at he
      exact hs.entry x e he
  older x hx src hsrc := by
    obtain ⟨hxp, hxs⟩ := State.freeOp_valid hx
    rw [State.freeOp_other hxp] at hsrc ⊢
    exact hs.older x hxs src hsrc
  bound x hx := hs.bound x (State.freeOp_valid hx).2

/-- An op leaves the machine. -/
theorem State.Lawful.free (hs : s.Lawful) (hcons : (s.ops p).marked = true → ∀ d, s.Consumer p d → s.SupportedApart p d) :
    (s.freeOp p).Lawful where
  linked := hs.linked.free
  law d hd := by
    obtain ⟨hdp, hds⟩ := State.freeOp_inFlight.mp hd
    rw [State.freeOp_other hdp, hs.law d hds]
    constructor
    · rintro ⟨q, hq, hqmarked⟩
      by_cases hqp : q = p
      · -- another producer keeps the mark
        subst hqp
        obtain ⟨r, hrq, hr, hrmarked⟩ := hcons hqmarked d (hs.linked.consumer_of_producer hds hq)
        refine ⟨r, (State.freeOp_producer hdp).mpr ⟨hrq, hr⟩, ?_⟩
        rw [State.freeOp_other hrq]
        exact hrmarked
      · refine ⟨q, (State.freeOp_producer hdp).mpr ⟨hqp, hq⟩, ?_⟩
        rw [State.freeOp_other hqp]
        exact hqmarked
    · rintro ⟨q, hq, hqmarked⟩
      obtain ⟨hqp, hq⟩ := (State.freeOp_producer hdp).mp hq
      rw [State.freeOp_other hqp] at hqmarked
      exact ⟨q, hq, hqmarked⟩
  apart x hx hdep := by
    obtain ⟨hxp, hxs⟩ := State.freeOp_inFlight.mp hx
    rw [State.freeOp_other hxp] at hdep ⊢
    exact hs.apart x hxs hdep
  unmapped x hx hxm := by
    obtain ⟨hxp, hxs⟩ := State.freeOp_valid hx
    rw [State.freeOp_other hxp] at hxm ⊢
    exact hs.unmapped x hxs hxm

end Free

/-! ### Runs -/

theorem State.Lawful.init : State.init.Lawful := by
  have hnone : ∀ p d, ¬ State.init.Consumer p d := by
    rintro p d ⟨e, he, -⟩
    cases he
  have hflight : ∀ d, ¬ State.init.InFlight d := fun d hd => Bool.false_ne_true hd.1
  exact ⟨⟨fun _ _ h => absurd h Bool.false_ne_true, fun p d h => absurd h (hnone p d), fun _ _ => rfl,
    fun _ _ h => absurd h Bool.false_ne_true, fun _ h => absurd h Bool.false_ne_true, fun p e h => absurd h List.not_mem_nil,
    fun _ h => absurd h Bool.false_ne_true, fun _ h => absurd h Bool.false_ne_true⟩, fun d hd => absurd hd (hflight d),
    fun d hd => absurd hd (hflight d), fun _ _ _ => ⟨rfl, rfl⟩⟩

theorem State.Lawful.step (obeyRegDep : Bool) {event : Event} (hs : s.Lawful) (hlegal : s.Legal event)
    (hfollowed : s.Followed event) :
    ∃ t, s.step obeyRegDep event = .ok t ∧ t.Lawful := by
  cases event with
  | alloc p uniqueNum procId memSt srcs =>
      obtain ⟨hfree, hnew, holder⟩ := hlegal
      exact ⟨_, if_neg (Bool.eq_false_iff.mp hfree), hs.alloc hfree hnew holder⟩
  | map p =>
      obtain ⟨hvalid, hmapped, hnone, hproc⟩ := hlegal
      obtain ⟨t, ht, hlawful⟩ := hs.map obeyRegDep hvalid hmapped hnone hproc
      exact ⟨t, (if_pos ⟨hvalid, hmapped⟩).trans ht, hlawful⟩
  | miss p =>
      obtain ⟨t, ht, hlawful⟩ := hs.miss hlegal hfollowed.2 hfollowed.1
      exact ⟨t, (if_pos hlegal).trans ht, hlawful⟩
  | join p reqSatisfied =>
      cases reqSatisfied with
      | false =>
          obtain ⟨t, ht, hlawful⟩ := hs.miss hlegal hfollowed.2 hfollowed.1
          refine ⟨t, (if_pos hlegal).trans ?_, hlawful⟩
          have hsame : t.setOp p { t.ops p with l1MissSatisfied := false || (t.ops p).l1MissSatisfied } = t := by
            rw [Bool.false_or]
            exact congrArg (fun ops => { t with ops := ops }) (Function.update_eq_self p t.ops)
          rw [State.joinMiss, ht]
          exact congrArg Except.ok hsame
      | true =>
          obtain ⟨hassert, hclear, hcons⟩ := hfollowed
          obtain ⟨t, ht, hlawful⟩ := hs.joinSatisfied hlegal hclear hassert hcons
          exact ⟨t, (if_pos hlegal).trans ht, hlawful⟩
  | satisfy p =>
      obtain ⟨t, ht, hlawful⟩ := hs.satisfy hlegal hfollowed
      exact ⟨t, (if_pos hlegal).trans ht, hlawful⟩
  | free p => exact ⟨_, if_pos hlegal, hs.free hfollowed⟩

theorem State.Lawful.run {events : List Event} (hs : s.Lawful)
    (h : Execution.Along (State.step obeyRegDep) (fun s event => s.Legal event ∧ s.Followed event) s events) :
    ∃ t, Execution.run (State.step obeyRegDep) s events = .ok t ∧ t.Lawful := by
  induction events generalizing s with
  | nil => exact ⟨s, rfl, hs⟩
  | cons event events ih =>
      rw [Execution.Along] at h
      obtain ⟨m, hm, hlawful⟩ := hs.step obeyRegDep h.1.1 h.1.2
      rw [hm] at h
      obtain ⟨t, ht, hend⟩ := ih hlawful h.2
      exact ⟨t, Execution.run_cons_eq_ok.mpr ⟨m, hm, ht⟩, hend⟩

/-- In a run that the marks can follow no assertion fires, and an op in flight is marked exactly if one of its producers
is in the machine with an unsatisfied miss or a mark. -/
theorem marks_follow {events : List Event}
    (h : Execution.Along (State.step obeyRegDep) (fun s event => s.Legal event ∧ s.Followed event) .init events) :
    ∃ t, Execution.run (State.step obeyRegDep) .init events = .ok t ∧ t.Law := by
  obtain ⟨t, ht, hlawful⟩ := State.Lawful.init.run h
  exact ⟨t, ht, hlawful.law⟩

/-- Marking stops at once where the consumers of an op have none. -/
theorem clear_of_last (h : ∀ e ∈ (s.ops p).wakeUpList, (s.ops e.op).wakeUpList = [] ∧ (s.ops e.op).l1Miss = false) :
    s.Clear p := by
  have hlast : ∀ x, s.Reached p x → (s.ops x).wakeUpList = [] ∧ (s.ops x).l1Miss = false := by
    intro x hx
    induction hx with
    | consumer hc =>
        obtain ⟨e, he, rfl, -⟩ := hc
        exact h e he
    | step _ _ hc ih =>
        obtain ⟨e, he, -⟩ := hc
        rw [ih.1] at he
        cases he
  intro x hx
  rw [Op.missing, (hlast x hx).2]
  exact ⟨fun hmiss => absurd hmiss Bool.false_ne_true, rfl⟩

/-- A load that misses, and an op that depends on it. -/
theorem marks_follow_pair :
    ∃ t, Execution.run (State.step true) .init
      [.alloc 0 0 0 false [], .alloc 1 1 0 false [⟨.regData, some 0, 0⟩], .map 0, .map 1, .miss 0, .satisfy 0, .free 0] =
        .ok t ∧ t.Law := by
  refine marks_follow ?_
  refine (Execution.along_cons rfl).mpr ⟨⟨⟨rfl, by decide, by decide⟩, trivial⟩, ?_⟩
  refine (Execution.along_cons rfl).mpr ⟨⟨⟨rfl, by decide, by decide⟩, trivial⟩, ?_⟩
  refine (Execution.along_cons rfl).mpr ⟨⟨⟨rfl, rfl, ?_, ?_⟩, trivial⟩, ?_⟩
  · rintro d ⟨e, he, -⟩
    cases he
  · rintro d ⟨src, hsrc, -⟩
    cases hsrc
  refine (Execution.along_cons rfl).mpr ⟨⟨⟨rfl, rfl, ?_, ?_⟩, trivial⟩, ?_⟩
  · rintro d ⟨e, he, -⟩
    cases he
  · rintro d ⟨src, hsrc, hd, -⟩
    obtain rfl := List.mem_singleton.mp hsrc
    obtain rfl := Option.some.inj hd
    rfl
  refine (Execution.along_cons rfl).mpr ⟨⟨⟨rfl, rfl⟩, rfl, clear_of_last (by decide)⟩, ?_⟩
  refine (Execution.along_cons rfl).mpr ⟨⟨⟨rfl, rfl⟩, ?_⟩, ?_⟩
  · rintro d ⟨e, he, rfl, -⟩
    refine ⟨?_, fun hdep => absurd hdep (by decide)⟩
    revert e
    decide
  refine (Execution.along_cons rfl).mpr ⟨⟨rfl, fun hmarked => absurd hmarked (by decide)⟩, trivial⟩

/-- A load that joins a request whose line is in the L1 already marks what depends on it, and nothing unmarks it. -/
theorem not_law_join :
    ∃ t, Execution.run (State.step true) .init
        [.alloc 0 0 0 false [], .alloc 1 1 0 false [⟨.regData, some 0, 0⟩], .map 0, .map 1, .join 0 true] = .ok t ∧
      t.InFlight 1 ∧ (t.ops 1).depOnL1Miss = true ∧ (∀ q, t.Producer 1 q → (t.ops q).marked = false) ∧ ¬ t.Law := by
  have hrun : ∃ t, Execution.run (State.step true) .init
      [.alloc 0 0 0 false [], .alloc 1 1 0 false [⟨.regData, some 0, 0⟩], .map 0, .map 1, .join 0 true] = .ok t ∧
        t.InFlight 1 ∧ (t.ops 1).depOnL1Miss = true ∧ ∀ q, t.Producer 1 q → (t.ops q).marked = false := by
    refine ⟨_, rfl, by decide, by decide, ?_⟩
    rintro q ⟨src, hsrc, hq, -⟩
    obtain rfl := List.mem_singleton.mp hsrc
    obtain rfl := Option.some.inj hq
    decide
  obtain ⟨t, ht, hflight, hdep, hplain⟩ := hrun
  refine ⟨t, ht, hflight, hdep, hplain, fun hlaw => ?_⟩
  obtain ⟨q, hq, hmarked⟩ := (hlaw 1 hflight).mp hdep
  exact Bool.false_ne_true ((hplain q hq).symm.trans hmarked)

end Scarab.MissDeps
