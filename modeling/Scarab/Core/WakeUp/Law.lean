import Scarab.Core.WakeUp.Linking

/-! # Every source is woken once

The invariant of the wake-up lists: the list of a live producer has an entry for every source
that waits for it or has waited for it, and what happened to a source is what its producer
did. -/

namespace Scarab.WakeUp

open Map (DepType)

variable {obeyRegDep : Bool} {s s' : State} {p : OpPtr}

/-- The source still waits: its producer was there and has not fired. -/
def State.Waits (s : State) (src : SrcInfo) : Prop :=
  src.op ≠ none ∧ ¬ s.Fired src.uniqueNum src.type

/-- What has happened to a source that the map stage has gone through. After that, a source
without a producer is one whose producer was gone. -/
structure Settled (s : State) (d : OpPtr) (i : ℕ) (src : SrcInfo) : Prop where
  waits : s.Waits src → s.notRdy d i = true ∧ s.clears (s.ops d).uniqueNum i = 0 ∧
    s.wakers (s.ops d).uniqueNum i = []
  ready : ¬ s.Waits src → s.notRdy d i = false ∧ s.clears (s.ops d).uniqueNum i = 1
  gone : src.op = none → s.wakers (s.ops d).uniqueNum i = []
  woken : src.op ≠ none → s.Fired src.uniqueNum src.type →
    s.wakers (s.ops d).uniqueNum i = [src.uniqueNum]

structure Inv (s : State) : Prop where
  bound : ∀ d, (s.ops d).valid = true → (s.ops d).uniqueNum < s.uniqueCount
  fresh : ∀ u, s.uniqueCount ≤ u →
    (∀ i, s.clears u i = 0 ∧ s.wakers u i = []) ∧ ∀ type, ¬ s.Fired u type
  distinct : ∀ d d', (s.ops d).valid = true → (s.ops d').valid = true →
    (s.ops d).uniqueNum = (s.ops d').uniqueNum → d = d'
  signaled : ∀ q type, (s.ops q).valid = true →
    ((s.ops q).wakeUpSignaled type = true ↔ s.Fired (s.ops q).uniqueNum type)
  freed : ∀ q, (s.ops q).valid = false → (s.ops q).wakeUpList = []
  /-- An entry is of an op of the past, or of a source that was linked. -/
  entry : ∀ q, ∀ e ∈ (s.ops q).wakeUpList, e.uniqueNum < s.uniqueCount ∧
    (s.Current e → e.rdyBit < (s.ops e.op).linked ∧
      (s.ops e.op).srcInfo[e.rdyBit]? = some ⟨e.depType, some q, (s.ops q).uniqueNum⟩)
  /-- A source that was linked has an entry, as long as its producer lives. -/
  listed : ∀ d i src q, (s.ops d).valid = true → i < (s.ops d).linked →
    (s.ops d).srcInfo[i]? = some src → src.op = some q → (s.ops q).valid = true →
    (s.ops q).uniqueNum = src.uniqueNum →
    ⟨d, (s.ops d).uniqueNum, src.type, i⟩ ∈ (s.ops q).wakeUpList
  /-- The producer is known by its unique number. -/
  sole : ∀ d i src q, (s.ops d).valid = true → i < (s.ops d).linked →
    (s.ops d).srcInfo[i]? = some src → src.op = some q → src.uniqueNum < s.uniqueCount ∧
    ∀ q', (s.ops q').valid = true → (s.ops q').uniqueNum = src.uniqueNum → q' = q
  settled : ∀ d i src, (s.ops d).valid = true → i < 32 → i < (s.ops d).linked →
    (s.ops d).srcInfo[i]? = some src → Settled s d i src
  untouched : ∀ d i, (s.ops d).valid = true → i < 32 → (s.ops d).linked ≤ i →
    i < (s.ops d).srcInfo.length →
    s.notRdy d i = true ∧ s.clears (s.ops d).uniqueNum i = 0 ∧ s.wakers (s.ops d).uniqueNum i = []

theorem init_inv : Inv .init := by
  constructor <;> simp [State.init, Op.unused, State.clears, State.wakers, State.Fired]

theorem Settled.congr {d i : ℕ} {src : SrcInfo} (h : Settled s d i src)
    (hunique : (s'.ops d).uniqueNum = (s.ops d).uniqueNum) (hbit : s'.notRdy d i = s.notRdy d i)
    (hfired : s'.Fired src.uniqueNum src.type ↔ s.Fired src.uniqueNum src.type)
    (hclears : s'.clears (s.ops d).uniqueNum i = s.clears (s.ops d).uniqueNum i)
    (hwakers : s'.wakers (s.ops d).uniqueNum i = s.wakers (s.ops d).uniqueNum i) :
    Settled s' d i src := by
  have hwaits : s'.Waits src ↔ s.Waits src := and_congr_right fun _ => not_congr hfired
  constructor
  · rw [hwaits, hunique, hbit, hclears, hwakers]
    exact h.waits
  · rw [hwaits, hunique, hbit, hclears]
    exact h.ready
  · rw [hunique, hwakers]
    exact h.gone
  · rw [hunique, hwakers, hfired]
    exact h.woken

/-! ## The pool -/

theorem Inv.alloc (h : Inv s) (hp : (s.ops p).valid = false) {u : ℕ} (hu : s.uniqueCount ≤ u)
    (srcs : List SrcInfo) : Inv (s.allocOp p u srcs) := by
  have hself : (s.allocOp p u srcs).ops p = { s.ops p with
      valid := true, uniqueNum := u, srcInfo := srcs
      srcsNotRdyVector := (List.range srcs.length).foldl setNotRdyBit 0
      wakeUpSignaled := fun _ => false, linked := 0 } := Function.update_self ..
  have hother : ∀ d, d ≠ p → (s.allocOp p u srcs).ops d = s.ops d :=
    fun d hd => Function.update_of_ne hd ..
  obtain ⟨hfired, hclears, hwakers⟩ := @history_congr s (s.allocOp p u srcs) rfl
  have hcount : (s.allocOp p u srcs).uniqueCount = u + 1 := rfl
  have hnew := h.fresh u hu
  constructor
  · intro d hd
    by_cases hdp : d = p
    · rw [hdp, hself, hcount]
      exact Nat.lt_succ_self u
    · rw [hother d hdp] at hd ⊢
      rw [hcount]
      have := h.bound d hd
      omega
  · intro v hv
    rw [hcount] at hv
    simp only [hclears, hwakers, hfired]
    exact h.fresh v (by omega)
  · intro d d' hd hd' heq
    by_cases hdp : d = p
    · by_cases hdp' : d' = p
      · rw [hdp, hdp']
      · rw [hdp, hself, hother d' hdp'] at heq
        rw [hother d' hdp'] at hd'
        have := h.bound d' hd'
        simp only at heq
        omega
    · rw [hother d hdp] at hd heq
      by_cases hdp' : d' = p
      · rw [hdp', hself] at heq
        have := h.bound d hd
        simp only at heq
        omega
      · rw [hother d' hdp'] at hd' heq
        exact h.distinct d d' hd hd' heq
  · intro q type hq
    rw [hfired]
    by_cases hqp : q = p
    · rw [hqp, hself]
      simpa using hnew.2 type
    · rw [hother q hqp] at hq ⊢
      exact h.signaled q type hq
  · intro q hq
    by_cases hqp : q = p
    · rw [hqp, hself] at hq
      cases hq
    · rw [hother q hqp] at hq ⊢
      exact h.freed q hq
  · intro q e he
    by_cases hqp : q = p
    · rw [hqp, hself] at he
      simp only at he
      rw [h.freed p hp] at he
      cases he
    · rw [hother q hqp] at he
      obtain ⟨hlt, hcur⟩ := h.entry q e he
      refine ⟨by rw [hcount]; omega, ?_⟩
      rintro ⟨heq, hv⟩
      by_cases hep : e.op = p
      · -- the entry is older than the op
        rw [hep, hself] at heq
        simp only at heq
        omega
      · rw [hother _ hep] at heq hv
        rw [hother _ hep, hother q hqp]
        exact hcur ⟨heq, hv⟩
  · intro d i src q hd hi hsrc hop hq heq
    by_cases hdp : d = p
    · rw [hdp, hself] at hi
      simp at hi
    · rw [hother d hdp] at hd hi hsrc ⊢
      by_cases hqp : q = p
      · have := (h.sole d i src q hd hi hsrc hop).1
        rw [hqp, hself] at heq
        simp only at heq
        omega
      · rw [hother q hqp] at hq heq ⊢
        exact h.listed d i src q hd hi hsrc hop hq heq
  · intro d i src q hd hi hsrc hop
    by_cases hdp : d = p
    · rw [hdp, hself] at hi
      simp at hi
    · rw [hother d hdp] at hd hi hsrc
      obtain ⟨hlt, hsole⟩ := h.sole d i src q hd hi hsrc hop
      refine ⟨by rw [hcount]; omega, fun q' hq' heq => ?_⟩
      by_cases hqp : q' = p
      · rw [hqp, hself] at heq
        simp only at heq
        omega
      · rw [hother q' hqp] at hq' heq
        exact hsole q' hq' heq
  · intro d i src hd hi hl hsrc
    by_cases hdp : d = p
    · rw [hdp, hself] at hl
      simp at hl
    · rw [hother d hdp] at hd hl hsrc
      have hold := h.settled d i src hd hi hl hsrc
      exact hold.congr (by rw [hother d hdp]) (by simp only [State.notRdy, hother d hdp]) (hfired _ _)
        (hclears _ _) (hwakers _ _)
  · intro d i hd hi hl hlen
    by_cases hdp : d = p
    · have hbits := getLsbD_sources srcs.length i
      rw [hdp, hself] at hlen ⊢
      simp only at hlen ⊢
      refine ⟨?_, by rw [hclears]; exact (hnew.1 i).1, by rw [hwakers]; exact (hnew.1 i).2⟩
      simp only [State.notRdy, hself, hbits]
      simp [hi, hlen]
    · rw [hother d hdp] at hd hl hlen ⊢
      rw [hclears, hwakers]
      simp only [State.notRdy, hother d hdp]
      exact h.untouched d i hd hi hl hlen

theorem Inv.free (h : Inv s) (p : OpPtr) : Inv (s.freeOp p) := by
  have hself : (s.freeOp p).ops p = { s.ops p with valid := false, wakeUpList := [] } :=
    Function.update_self ..
  have hother : ∀ d, d ≠ p → (s.freeOp p).ops d = s.ops d := fun d hd => Function.update_of_ne hd ..
  obtain ⟨hfired, hclears, hwakers⟩ := @history_congr s (s.freeOp p) rfl
  -- an op that is valid afterwards is another one
  have hlive : ∀ d, ((s.freeOp p).ops d).valid = true → d ≠ p := by
    rintro d hd rfl
    rw [hself] at hd
    cases hd
  constructor
  · intro d hd
    have hdp := hlive d hd
    rw [hother d hdp] at hd ⊢
    exact h.bound d hd
  · intro u hu
    simp only [hclears, hwakers, hfired]
    exact h.fresh u hu
  · intro d d' hd hd' heq
    have hdp := hlive d hd
    have hdp' := hlive d' hd'
    rw [hother d hdp] at hd heq
    rw [hother d' hdp'] at hd' heq
    exact h.distinct d d' hd hd' heq
  · intro q type hq
    have hqp := hlive q hq
    rw [hother q hqp] at hq ⊢
    rw [hfired]
    exact h.signaled q type hq
  · intro q hq
    by_cases hqp : q = p
    · rw [hqp, hself]
    · rw [hother q hqp] at hq ⊢
      exact h.freed q hq
  · intro q e he
    by_cases hqp : q = p
    · rw [hqp, hself] at he
      cases he
    · rw [hother q hqp] at he
      obtain ⟨hlt, hcur⟩ := h.entry q e he
      refine ⟨hlt, fun hcurrent => ?_⟩
      have hep := hlive e.op hcurrent.2
      unfold State.Current at hcurrent
      rw [hother _ hep] at hcurrent ⊢
      rw [hother q hqp]
      exact hcur hcurrent
  · intro d i src q hd hi hsrc hop hq heq
    have hdp := hlive d hd
    rw [hother d hdp] at hd hi hsrc ⊢
    have hqp := hlive q hq
    rw [hother q hqp] at hq heq ⊢
    exact h.listed d i src q hd hi hsrc hop hq heq
  · intro d i src q hd hi hsrc hop
    have hdp := hlive d hd
    rw [hother d hdp] at hd hi hsrc
    obtain ⟨hlt, hsole⟩ := h.sole d i src q hd hi hsrc hop
    refine ⟨hlt, fun q' hq' heq => ?_⟩
    have hqp := hlive q' hq'
    rw [hother q' hqp] at hq' heq
    exact hsole q' hq' heq
  · intro d i src hd hi hl hsrc
    have hdp := hlive d hd
    rw [hother d hdp] at hd hl hsrc
    exact (h.settled d i src hd hi hl hsrc).congr (by rw [hother d hdp])
      (by simp only [State.notRdy, hother d hdp]) (hfired _ _) (hclears _ _) (hwakers _ _)
  · intro d i hd hi hl hlen
    have hdp := hlive d hd
    rw [hother d hdp] at hd hl hlen ⊢
    rw [hclears, hwakers]
    simp only [State.notRdy, hother d hdp]
    exact h.untouched d i hd hi hl hlen

/-! ## Firing -/

/-- The bits that a firing hits are those of the sources that wait for the op and the type. -/
theorem Inv.hit_iff (h : Inv s) (type : DepType) {d i : ℕ} {src : SrcInfo}
    (hp : (s.ops p).valid = true) (hd : (s.ops d).valid = true) (hsrc : (s.ops d).srcInfo[i]? = some src) :
    Hit s type (s.ops p).wakeUpList d i ↔ i < (s.ops d).linked ∧ src.type = type ∧
      src.op ≠ none ∧ src.uniqueNum = (s.ops p).uniqueNum := by
  constructor
  · rintro ⟨e, he, rfl, hcur, rfl, rfl⟩
    obtain ⟨hl, hinfo⟩ := (h.entry p e he).2 hcur
    rw [hsrc] at hinfo
    cases hinfo
    exact ⟨hl, rfl, by simp, rfl⟩
  · rintro ⟨hl, rfl, hop, heq⟩
    obtain ⟨q, hq⟩ := Option.ne_none_iff_exists'.mp hop
    obtain rfl := (h.sole d i src q hd hl hsrc hq).2 p hp heq.symm
    exact ⟨_, h.listed d i src p hd hl hsrc hq hp heq.symm, rfl, ⟨rfl, hd⟩, rfl, rfl⟩

/-- What a firing has done. -/
structure Signaled (p : OpPtr) (type : DepType) (s s' : State) : Prop where
  ops : ∀ d, s'.ops d = { s.ops d with
    srcsNotRdyVector := (s'.ops d).srcsNotRdyVector
    wakeUpSignaled := if d = p then Function.update (s.ops d).wakeUpSignaled type true
      else (s.ops d).wakeUpSignaled }
  uniqueCount : s'.uniqueCount = s.uniqueCount
  fired : ∀ u ty, s'.Fired u ty ↔ s.Fired u ty ∨ u = (s.ops p).uniqueNum ∧ ty = type
  bits : ∀ d i, s'.notRdy d i = true ↔ s.notRdy d i = true ∧ ¬ Hit s type (s.ops p).wakeUpList d i
  woken : ∀ d i, (s.ops d).valid = true → s.notRdy d i = true → Hit s type (s.ops p).wakeUpList d i →
    s'.clears (s.ops d).uniqueNum i = s.clears (s.ops d).uniqueNum i + 1 ∧
      s'.wakers (s.ops d).uniqueNum i = s.wakers (s.ops d).uniqueNum i ++ [(s.ops p).uniqueNum]
  others : ∀ u i, (∀ d, (s.ops d).valid = true → (s.ops d).uniqueNum = u →
      ¬ Hit s type (s.ops p).wakeUpList d i) →
    s'.clears u i = s.clears u i ∧ s'.wakers u i = s.wakers u i

theorem Woke.signal {t : State} {type : DepType} (h : Woke p type s (s.ops p).wakeUpList t) :
    Signaled p type s (t.signal p type) := by
  have hops : ∀ d, (t.signal p type).ops d = { s.ops d with
      srcsNotRdyVector := (t.ops d).srcsNotRdyVector
      wakeUpSignaled := if d = p then Function.update (s.ops d).wakeUpSignaled type true
        else (s.ops d).wakeUpSignaled } := by
    intro d
    by_cases hdp : d = p
    · subst hdp
      simp only [State.signal, ops_note, ops_setOp_self, if_true]
      rw [h.ops d]
    · simp only [State.signal, ops_note, ops_setOp_of_ne _ hdp, if_neg hdp]
      rw [h.ops d]
  have hbits : ∀ d i, (t.signal p type).notRdy d i = t.notRdy d i := fun d i => by
    simp only [State.notRdy, hops]
  have hclears : ∀ u i, (t.signal p type).clears u i = t.clears u i := by
    simp [State.clears, State.signal, List.count_append]
  have hwakers : ∀ u i, (t.signal p type).wakers u i = t.wakers u i := by
    simp [State.wakers, State.signal, Note.waker]
  have hunique : (t.ops p).uniqueNum = (s.ops p).uniqueNum := by rw [h.ops]
  refine ⟨fun d => ?_, h.uniqueCount, fun u ty => ?_, fun d i => ?_, fun d i hd hset hh => ?_, fun u i hnone => ?_⟩
  · rw [hops]
  · rw [← h.fired, ← hunique]
    simp [State.Fired, State.signal]
  · rw [hbits]
    exact h.bits d i
  · rw [hclears, hwakers]
    exact h.woken d i hd hset hh
  · rw [hclears, hwakers]
    exact h.others u i fun d hd hu hh => hnone d hd hu hh.2

/-- The sources that waited for the firing are ready, and the others are as before. -/
theorem Inv.fire_settled (h : Inv s) {type : DepType} (hfire : Signaled p type s s') (hp : (s.ops p).valid = true)
    (hnot : ¬ s.Fired (s.ops p).uniqueNum type) {d i : ℕ} {src : SrcInfo} (hd : (s.ops d).valid = true)
    (hl : i < (s.ops d).linked) (hsrc : (s.ops d).srcInfo[i]? = some src) (hold : Settled s d i src) :
    Settled s' d i src := by
  have hhit := h.hit_iff type hp hd hsrc
  have hunique : (s'.ops d).uniqueNum = (s.ops d).uniqueNum := by rw [hfire.ops]
  by_cases hnow : src.type = type ∧ src.op ≠ none ∧ src.uniqueNum = (s.ops p).uniqueNum
  · -- the source waited for this firing
    obtain ⟨rfl, hop, heq⟩ := hnow
    have hwaits : s.Waits src := ⟨hop, heq ▸ hnot⟩
    obtain ⟨hset, hzero, hnil⟩ := hold.waits hwaits
    have hh := hhit.mpr ⟨hl, rfl, hop, heq⟩
    obtain ⟨hone, hwaker⟩ := hfire.woken d i hd hset hh
    have hclear : s'.notRdy d i = false := by
      by_contra hstill
      exact ((hfire.bits d i).mp (by simpa using hstill)).2 hh
    have hfires : s'.Fired src.uniqueNum src.type := (hfire.fired _ _).mpr (.inr ⟨heq, rfl⟩)
    constructor
    · exact fun hw => absurd hfires hw.2
    · rw [hunique, hone, hzero, hclear]
      simp
    · exact fun hnone => absurd hnone hop
    · rw [hunique, hwaker, hnil, heq]
      simp
  · have hmiss : ¬ Hit s type (s.ops p).wakeUpList d i := fun hh => hnow (hhit.mp hh).2
    obtain ⟨hsame, hsame'⟩ := hfire.others (s.ops d).uniqueNum i fun d' hd' heq => by
      obtain rfl := h.distinct d' d hd' hd heq
      exact hmiss
    have hbit : s'.notRdy d i = s.notRdy d i := by
      rw [Bool.eq_iff_iff, hfire.bits]
      simp [hmiss]
    by_cases hop : src.op = none
    · -- no firing concerns a source without a producer
      have hwaits : ∀ st : State, ¬ st.Waits src := fun st hw => hw.1 hop
      constructor
      · exact fun hw => absurd hw (hwaits _)
      · rw [hunique, hbit, hsame]
        exact fun _ => hold.ready (hwaits s)
      · rw [hunique, hsame']
        exact hold.gone
      · exact fun hne => absurd hop hne
    · refine hold.congr hunique hbit ?_ hsame hsame'
      rw [hfire.fired]
      constructor
      · rintro (hf | ⟨heq, hty⟩)
        · exact hf
        · exact absurd ⟨hty, hop, heq⟩ hnow
      · exact .inl

theorem Inv.fire (h : Inv s) {type : DepType} (hp : (s.ops p).valid = true)
    (hs : s.wakeUpOps p type = .ok s') : Inv s' := by
  obtain ⟨hquiet, hs⟩ := Execution.ite_error_eq_ok.mp hs
  obtain ⟨t, hloop, hret⟩ := Execution.bind_eq_ok.mp hs
  cases hret
  have hwoke := (woke_nil p type s).loop h.distinct hloop
  rw [List.nil_append] at hwoke
  have hfire := hwoke.signal
  generalize t.signal p type = s' at hfire
  have hops := hfire.ops
  have hvalid : ∀ d, (s'.ops d).valid = (s.ops d).valid := fun d => by rw [hops]
  have hunique : ∀ d, (s'.ops d).uniqueNum = (s.ops d).uniqueNum := fun d => by rw [hops]
  have hsrcs : ∀ d, (s'.ops d).srcInfo = (s.ops d).srcInfo := fun d => by rw [hops]
  have hlinked : ∀ d, (s'.ops d).linked = (s.ops d).linked := fun d => by rw [hops]
  have hlist : ∀ d, (s'.ops d).wakeUpList = (s.ops d).wakeUpList := fun d => by rw [hops]
  have hnot : ¬ s.Fired (s.ops p).uniqueNum type := by
    rw [← h.signaled p type hp, hquiet]
    simp
  constructor
  · intro d hd
    rw [hvalid] at hd
    rw [hunique, hfire.uniqueCount]
    exact h.bound d hd
  · intro u hu
    rw [hfire.uniqueCount] at hu
    have hold := h.fresh u hu
    have hsame : ∀ i, s'.clears u i = s.clears u i ∧ s'.wakers u i = s.wakers u i :=
      fun i => hfire.others u i fun d hd heq => by
        have := h.bound d hd
        omega
    refine ⟨fun i => ?_, fun ty => ?_⟩
    · rw [(hsame i).1, (hsame i).2]
      exact hold.1 i
    · rw [hfire.fired]
      have := h.bound p hp
      rintro (hf | ⟨heq, _⟩)
      · exact hold.2 ty hf
      · omega
  · intro d d' hd hd' heq
    rw [hvalid] at hd hd'
    rw [hunique, hunique] at heq
    exact h.distinct d d' hd hd' heq
  · intro q ty hq
    rw [hvalid] at hq
    rw [hfire.fired, hunique, hops]
    by_cases hqp : q = p
    · subst hqp
      by_cases hty : ty = type
      · simp [hty]
      · simp [hty, h.signaled q ty hq]
    · have hne : (s.ops q).uniqueNum ≠ (s.ops p).uniqueNum := fun heq => hqp (h.distinct q p hq hp heq)
      simp [hqp, hne, h.signaled q ty hq]
  · intro q hq
    rw [hvalid] at hq
    rw [hlist]
    exact h.freed q hq
  · intro q e he
    rw [hlist] at he
    rw [State.Current, hunique, hunique, hvalid, hlinked, hsrcs, hfire.uniqueCount]
    exact h.entry q e he
  · intro d i src q hd hi hsrc hop hq heq
    rw [hvalid] at hd hq
    rw [hlinked] at hi
    rw [hsrcs] at hsrc
    rw [hunique] at heq ⊢
    rw [hlist]
    exact h.listed d i src q hd hi hsrc hop hq heq
  · intro d i src q hd hi hsrc hop
    rw [hvalid] at hd
    rw [hlinked] at hi
    rw [hsrcs] at hsrc
    simp only [hvalid, hunique, hfire.uniqueCount]
    exact h.sole d i src q hd hi hsrc hop
  · intro d i src hd hi hl hsrc
    rw [hvalid] at hd
    rw [hlinked] at hl
    rw [hsrcs] at hsrc
    exact h.fire_settled hfire hp hnot hd hl hsrc (h.settled d i src hd hi hl hsrc)
  · intro d i hd hi hl hlen
    rw [hvalid] at hd
    rw [hlinked] at hl
    rw [hsrcs] at hlen
    have hold := h.untouched d i hd hi hl hlen
    have hmiss : ¬ Hit s type (s.ops p).wakeUpList d i := fun hh =>
      Nat.not_lt_of_le hl ((h.hit_iff _ hp hd (List.getElem?_eq_getElem hlen)).mp hh).1
    obtain ⟨hsame, hsame'⟩ := hfire.others (s.ops d).uniqueNum i fun d' hd' heq => by
      obtain rfl := h.distinct d' d hd' hd heq
      exact hmiss
    rw [hunique, hsame, hsame']
    exact ⟨(hfire.bits d i).mpr ⟨hold.1, hmiss⟩, hold.2⟩

/-! ## Mapping -/

/-- What happened to a source is what its producer did, if it is there. -/
theorem Inv.link_settled (h : Inv s) {src : SrcInfo} {ii : ℕ} {producer : Option OpPtr}
    (hlink : Linked p src ii producer s s')
    (hprod : ∀ q, producer = some q → src.op = some q ∧ (s.ops q).valid = true ∧ (s.ops q).uniqueNum = src.uniqueNum)
    (hset : s.notRdy p ii = true) (hzero : s.clears (s.ops p).uniqueNum ii = 0)
    (hnil : s.wakers (s.ops p).uniqueNum ii = []) :
    Settled s' p ii (if producer = none then src.gone else src) := by
  obtain ⟨hfired, -, hclears, hwakers⟩ := hlink.history
  have hbit := hlink.notRdy p ii
  have hunique := hlink.uniqueNum p
  rw [hzero, Nat.zero_add] at hclears
  rw [hnil, List.nil_append] at hwakers
  cases hcase : producer with
  | none =>
      rw [hcase] at hclears hwakers hbit
      have hnot : ¬ s'.Waits src.gone := fun hw => hw.1 rfl
      refine ⟨fun hw => absurd hw hnot, fun _ => ?_, fun _ => ?_, fun hne => absurd rfl hne⟩
      · rw [hunique, hclears, hbit]
        simp [State.srcReady]
      · rw [hunique, hwakers]
        rfl
  | some q =>
      rw [hcase] at hclears hwakers hbit
      obtain ⟨hop, hv, heq⟩ := hprod q hcase
      have hsig := h.signaled q src.type hv
      rw [heq] at hsig
      have hwaits : s'.Waits src ↔ ¬ s.Fired src.uniqueNum src.type := by
        unfold State.Waits
        rw [hfired, hop]
        simp
      have hne : src.op ≠ none := by simp [hop]
      rw [if_neg (Option.some_ne_none q)]
      refine ⟨fun hw => ?_, fun hw => ?_, fun hnone => absurd hnone hne, fun _ hf => ?_⟩
      · have hquiet : (s.ops q).wakeUpSignaled src.type = false := by
          simpa using mt hsig.mp (hwaits.mp hw)
        rw [hunique, hclears, hwakers, hbit]
        simp [State.srcReady, State.lateWaker, hquiet, hset]
      · have hfires : (s.ops q).wakeUpSignaled src.type = true :=
          hsig.mpr (not_not.mp (mt hwaits.mpr hw))
        rw [hunique, hclears, hbit]
        simp [State.srcReady, hfires]
      · have hfires : (s.ops q).wakeUpSignaled src.type = true := hsig.mpr ((hfired _ _).mp hf)
        rw [hunique, hwakers]
        simp [State.lateWaker, hfires, heq]

/-- The producer of the source that is linked now. -/
theorem Linked.producer_of_some {src src' : SrcInfo} {ii : ℕ} {producer : Option OpPtr} {q : OpPtr}
    (hlink : Linked p src ii producer s s')
    (hprod : ∀ q, producer = some q → src.op = some q ∧ (s.ops q).valid = true ∧ (s.ops q).uniqueNum = src.uniqueNum)
    (hat : (s.ops p).srcInfo[ii]? = some src) (hsrc : (s'.ops p).srcInfo[ii]? = some src') (hop : src'.op = some q) :
    src' = src ∧ producer = some q := by
  rw [hlink.srcInfo_self hat] at hsrc
  by_cases hnone : producer = none
  · rw [if_pos hnone] at hsrc
    cases hsrc
    cases hop
  · rw [if_neg hnone] at hsrc
    cases hsrc
    obtain ⟨q', hq'⟩ := Option.ne_none_iff_exists'.mp hnone
    have hsame := (hprod q' hq').1
    rw [hop] at hsame
    cases hsame
    exact ⟨rfl, hq'⟩

theorem Inv.link (h : Inv s) {src : SrcInfo} {ii : ℕ} (hp : (s.ops p).valid = true)
    (hii : (s.ops p).linked = ii) (hat : (s.ops p).srcInfo[ii]? = some src)
    (hs : s.linkSource obeyRegDep p (src, ii) = .ok s') : Inv s' := by
  have hlink := linkSource_spec hs
  obtain ⟨hfired, hothers, -⟩ := hlink.history
  have hprod : ∀ q, s.producer obeyRegDep src = some q →
      src.op = some q ∧ (s.ops q).valid = true ∧ (s.ops q).uniqueNum = src.uniqueNum :=
    fun q => producer_eq_some
  generalize s.producer obeyRegDep src = producer at hlink hprod
  have hlen : ii < (s.ops p).srcInfo.length := (List.getElem?_eq_some_iff.mp hat).1
  have hone : ∀ d i, (s.ops d).valid = true → ¬ (d = p ∧ i = ii) →
      ¬ ((s.ops d).uniqueNum = (s.ops p).uniqueNum ∧ i = ii) := by
    rintro d i hd hne ⟨heq, hi⟩
    exact hne ⟨h.distinct d p hd hp heq, hi⟩
  have hcount := hlink.uniqueCount
  constructor
  · intro d hd
    rw [hlink.valid] at hd
    rw [hlink.uniqueNum, hcount]
    exact h.bound d hd
  · intro u hu
    rw [hcount] at hu
    have hne : ∀ i, ¬ (u = (s.ops p).uniqueNum ∧ i = ii) := by
      rintro i ⟨rfl, _⟩
      have := h.bound p hp
      omega
    refine ⟨fun i => ?_, fun type => ?_⟩
    · rw [(hothers u i (hne i)).1, (hothers u i (hne i)).2]
      exact (h.fresh u hu).1 i
    · rw [hfired]
      exact (h.fresh u hu).2 type
  · intro d d' hd hd' heq
    rw [hlink.valid] at hd hd'
    rw [hlink.uniqueNum, hlink.uniqueNum] at heq
    exact h.distinct d d' hd hd' heq
  · intro q type hq
    rw [hfired]
    simp only [hlink.ops] at hq ⊢
    exact h.signaled q type hq
  · intro q hq
    rw [hlink.valid] at hq
    refine List.eq_nil_iff_forall_not_mem.mpr fun e he => ?_
    cases (hlink.mem_wakeUpList q e).mp he with
    | inl hold =>
        rw [h.freed q hq] at hold
        cases hold
    | inr hnew =>
        rw [(hprod q hnew.1).2.1] at hq
        cases hq
  · intro q e he
    rw [hlink.current, hcount, hlink.uniqueNum q]
    cases (hlink.mem_wakeUpList q e).mp he with
    | inl hold =>
        obtain ⟨hlt, hcur⟩ := h.entry q e hold
        refine ⟨hlt, fun hc => ?_⟩
        obtain ⟨hl, hsrc⟩ := hcur hc
        have hne : ¬ (e.op = p ∧ e.rdyBit = ii) := by
          rintro ⟨hep, hei⟩
          rw [hep] at hl
          omega
        exact ⟨(hlink.lt_linked hii hne).mpr hl, (hlink.srcInfo_other hne).trans hsrc⟩
    | inr hnew =>
        obtain ⟨hq, rfl⟩ := hnew
        obtain ⟨hop, _, heq⟩ := hprod q hq
        refine ⟨h.bound p hp, fun _ => ⟨?_, ?_⟩⟩
        · rw [hlink.linked_self]
          exact Nat.lt_succ_self ii
        · rw [hlink.srcInfo_self hat, if_neg (by simp [hq]), heq, ← hop]
  · intro d i src' q hd hi hsrc hop hq heq
    rw [hlink.valid] at hd hq
    rw [hlink.uniqueNum] at heq ⊢
    apply (hlink.mem_wakeUpList q _).mpr
    by_cases hnow : d = p ∧ i = ii
    · obtain ⟨rfl, rfl⟩ := hnow
      obtain ⟨rfl, hq'⟩ := hlink.producer_of_some hprod hat hsrc hop
      exact .inr ⟨hq', rfl⟩
    · rw [hlink.srcInfo_other hnow] at hsrc
      exact .inl (h.listed d i src' q hd ((hlink.lt_linked hii hnow).mp hi) hsrc hop hq heq)
  · intro d i src' q hd hi hsrc hop
    rw [hlink.valid] at hd
    simp only [hlink.valid, hlink.uniqueNum, hcount]
    by_cases hnow : d = p ∧ i = ii
    · obtain ⟨rfl, rfl⟩ := hnow
      obtain ⟨rfl, hq'⟩ := hlink.producer_of_some hprod hat hsrc hop
      obtain ⟨-, hv, heq⟩ := hprod q hq'
      exact ⟨heq ▸ h.bound q hv, fun q' hv' heq' => h.distinct q' q hv' hv (heq'.trans heq.symm)⟩
    · rw [hlink.srcInfo_other hnow] at hsrc
      exact h.sole d i src' q hd ((hlink.lt_linked hii hnow).mp hi) hsrc hop
  · intro d i src' hd hi hl hsrc
    rw [hlink.valid] at hd
    by_cases hnow : d = p ∧ i = ii
    · obtain ⟨rfl, rfl⟩ := hnow
      obtain ⟨hset, hzero, hnil⟩ := h.untouched d i hd hi hii.le hlen
      obtain rfl := Option.some.inj ((hlink.srcInfo_self hat).symm.trans hsrc)
      exact h.link_settled hlink hprod hset hzero hnil
    · rw [hlink.srcInfo_other hnow] at hsrc
      have hold := h.settled d i src' hd hi ((hlink.lt_linked hii hnow).mp hl) hsrc
      obtain ⟨hsame, hsame'⟩ := hothers _ i (hone d i hd hnow)
      refine hold.congr (hlink.uniqueNum d) ?_ (hfired _ _) hsame hsame'
      rw [hlink.notRdy, decide_eq_false fun hall => hnow ⟨hall.1, hall.2.2⟩]
      simp
  · intro d i hd hi hl hlen'
    rw [hlink.valid] at hd
    rw [hlink.length_srcInfo] at hlen'
    have hnow : ¬ (d = p ∧ i = ii) := by
      rintro ⟨rfl, rfl⟩
      rw [hlink.linked_self] at hl
      omega
    have hl' := Nat.le_of_not_lt (mt (hlink.lt_linked hii hnow).mpr (Nat.not_lt_of_le hl))
    obtain ⟨hset, hzero, hnil⟩ := h.untouched d i hd hi hl' hlen'
    obtain ⟨hsame, hsame'⟩ := hothers _ i (hone d i hd hnow)
    rw [hlink.uniqueNum, hsame, hsame', hlink.notRdy, decide_eq_false fun hall => hnow ⟨hall.1, hall.2.2⟩]
    simp [hset, hzero, hnil]

/-- The loop over the sources, from the `k`-th on. -/
theorem Inv.links {rest : List SrcInfo} {k : ℕ} (h : Inv s) (hp : (s.ops p).valid = true)
    (hk : (s.ops p).linked = k) (hrest : ∀ (j : ℕ) (src : SrcInfo), rest[j]? = some src → (s.ops p).srcInfo[k + j]? = some src)
    (hlen : (s.ops p).srcInfo.length = k + rest.length)
    (hs : (rest.zipIdx k).foldlM (State.linkSource obeyRegDep p) s = .ok s') :
    Inv s' ∧ (s'.ops p).valid = true ∧ (s'.ops p).linked = (s'.ops p).srcInfo.length ∧
      (∀ u type, s'.Fired u type ↔ s.Fired u type) ∧
      ∀ (i : ℕ) (src : SrcInfo), (s.ops p).srcInfo[i]? = some src →
        (s'.ops p).srcInfo[i]? = some src ∨ (s'.ops p).srcInfo[i]? = some src.gone := by
  induction rest generalizing s k with
  | nil =>
      cases hs
      exact ⟨h, hp, by simpa [hlen] using hk, fun _ _ => Iff.rfl, fun _ _ hsrc => .inl hsrc⟩
  | cons src rest ih =>
      rw [List.zipIdx_cons, List.foldlM_cons] at hs
      obtain ⟨t, ht, hs⟩ := Execution.bind_eq_ok.mp hs
      have hat : (s.ops p).srcInfo[k]? = some src := hrest 0 src rfl
      have hlink := linkSource_spec ht
      have hinfo : ∀ i, i ≠ k → (t.ops p).srcInfo[i]? = (s.ops p).srcInfo[i]? :=
        fun i hi => hlink.srcInfo_other fun hnow => hi hnow.2
      have hinfo_k : (t.ops p).srcInfo[k]? = some src ∨ (t.ops p).srcInfo[k]? = some src.gone := by
        rw [hlink.srcInfo_self hat]
        by_cases hnone : s.producer obeyRegDep src = none
        · exact .inr (by rw [if_pos hnone])
        · exact .inl (by rw [if_neg hnone])
      have hlen' : (t.ops p).srcInfo.length = k + 1 + rest.length := by
        rw [hlink.length_srcInfo, hlen, List.length_cons]
        omega
      obtain ⟨hinv, hv, hl, hfired, hkept⟩ := ih (h.link hp hk hat ht) ((hlink.valid p).trans hp)
        hlink.linked_self
        (fun j src' hj => by
          rw [hinfo _ (by omega), Nat.add_assoc, Nat.add_comm 1 j]
          exact hrest (j + 1) src' hj) hlen' hs
      refine ⟨hinv, hv, hl, fun u type => (hfired u type).trans (hlink.history.1 u type), fun i src' hsrc => ?_⟩
      by_cases hi : i = k
      · subst hi
        rw [hat] at hsrc
        cases hsrc
        cases hinfo_k with
        | inl hsame => exact hkept i src hsame
        | inr hgone =>
            cases hkept i _ hgone with
            | inl hsame => exact .inr hsame
            | inr hgone => exact .inr hgone
      · exact hkept i src' ((hinfo i hi).trans hsrc)

/-- The map stage links all sources of an op. -/
theorem Inv.map (h : Inv s) (hp : (s.ops p).valid = true) (hl : (s.ops p).linked = 0)
    (hs : s.addToWakeUpLists obeyRegDep p = .ok s') :
    Inv s' ∧ (s'.ops p).valid = true ∧ (s'.ops p).linked = (s'.ops p).srcInfo.length ∧
      (∀ u type, s'.Fired u type ↔ s.Fired u type) ∧
      ∀ (i : ℕ) (src : SrcInfo), (s.ops p).srcInfo[i]? = some src →
        (s'.ops p).srcInfo[i]? = some src ∨ (s'.ops p).srcInfo[i]? = some src.gone :=
  h.links hp hl (fun j src hj => by rwa [Nat.zero_add]) (by simp) hs

/-! ## Every run -/

theorem Inv.step (h : Inv s) {e : Event} (hs : s.step obeyRegDep e = .ok s') : Inv s' := by
  cases e with
  | alloc p uniqueNum srcs =>
      obtain ⟨hp, hs⟩ := Execution.ite_error_eq_ok.mp hs
      obtain ⟨hu, hs⟩ := Execution.ite_error_eq_ok.mp hs
      cases hs
      exact h.alloc hp hu srcs
  | map p =>
      obtain ⟨⟨hp, hl⟩, hs⟩ := Execution.ite_error_eq_ok.mp hs
      exact (h.map hp hl hs).1
  | fire p type =>
      obtain ⟨hp, hs⟩ := Execution.ite_error_eq_ok.mp hs
      exact h.fire hp hs
  | free p =>
      obtain ⟨_, hs⟩ := Execution.ite_error_eq_ok.mp hs
      cases hs
      exact h.free p

theorem Reachable.inv (h : Reachable obeyRegDep s) : Inv s := by
  obtain ⟨events, hrun⟩ := h
  exact Execution.run_invariant (fun _ _ _ hI hstep => hI.step hstep) init_inv hrun

/-- A firing leaves every op alone that has no current entry for it. -/
theorem wakeUpOps_other (h : Inv s) {type : DepType} (hs : s.wakeUpOps p type = .ok s') {d : OpPtr}
    (hd : d ≠ p) (hstale : ∀ e ∈ (s.ops p).wakeUpList, e.op = d → ¬ s.Current e) :
    s'.ops d = s.ops d ∧ ((s.ops d).valid = true → ∀ i,
      s'.clears (s.ops d).uniqueNum i = s.clears (s.ops d).uniqueNum i ∧
        s'.wakers (s.ops d).uniqueNum i = s.wakers (s.ops d).uniqueNum i) := by
  obtain ⟨_, hs⟩ := Execution.ite_error_eq_ok.mp hs
  obtain ⟨t, hloop, hret⟩ := Execution.bind_eq_ok.mp hs
  cases hret
  have hwoke := (woke_nil p type s).loop h.distinct hloop
  rw [List.nil_append] at hwoke
  have hmiss : ∀ i, ¬ Hit s type (s.ops p).wakeUpList d i := by
    rintro i ⟨e, he, _, hcur, heq, _⟩
    exact hstale e he heq hcur
  constructor
  · have hvector : (t.ops d).srcsNotRdyVector = (s.ops d).srcsNotRdyVector := by
      apply BitVec.eq_of_getLsbD_eq
      intro i _
      rw [Bool.eq_iff_iff]
      exact (hwoke.bits d i).trans (and_iff_left (hmiss i))
    simp only [State.signal, ops_note, ops_setOp_of_ne _ hd]
    rw [hwoke.ops d, hvector]
  · intro hv i
    have hsame := hwoke.others (s.ops d).uniqueNum i fun d' hd' heq hh => by
      obtain rfl := h.distinct d' d hd' hv heq
      exact hmiss i hh.2
    simpa [State.clears, State.wakers, State.signal, List.count_append, List.filterMap_append,
      List.filterMap_cons, Note.waker] using hsame

/-! ## The law -/

/-- In every run: the bit of a source is cleared once, and stays cleared, when its producer has
fired, and then the wake action was called on it once, by that producer; it is cleared once without
a wake action when the producer was gone at the mapping; and it is not cleared otherwise. Entries
of ops that are gone change nothing, and an op that is mapped after a producer fired finds the source
ready. -/
theorem wake_up_once (hs : Reachable obeyRegDep s) :
    (∀ d i src, (s.ops d).valid = true → (s.ops d).srcInfo.length ≤ 32 →
      (s.ops d).srcInfo[i]? = some src →
      (i < (s.ops d).linked → Settled s d i src) ∧
      ((s.ops d).linked ≤ i → s.notRdy d i = true ∧ s.clears (s.ops d).uniqueNum i = 0 ∧
        s.wakers (s.ops d).uniqueNum i = [])) ∧
    (∀ p type s', s.step obeyRegDep (.fire p type) = .ok s' → ∀ d, d ≠ p →
      (∀ e ∈ (s.ops p).wakeUpList, e.op = d → ¬ s.Current e) →
      s'.ops d = s.ops d ∧ ((s.ops d).valid = true → ∀ i,
        s'.clears (s.ops d).uniqueNum i = s.clears (s.ops d).uniqueNum i ∧
          s'.wakers (s.ops d).uniqueNum i = s.wakers (s.ops d).uniqueNum i)) ∧
    ∀ d s', s.step obeyRegDep (.map d) = .ok s' → (s.ops d).srcInfo.length ≤ 32 →
      (s'.ops d).linked = (s'.ops d).srcInfo.length ∧
      ∀ i src, (s.ops d).srcInfo[i]? = some src → s.Fired src.uniqueNum src.type →
        s'.notRdy d i = false := by
  have hinv := hs.inv
  have hbound : ∀ {srcs : List SrcInfo} {i : ℕ} {src : SrcInfo}, srcs[i]? = some src → i < srcs.length :=
    fun hsrc => (List.getElem?_eq_some_iff.mp hsrc).1
  refine ⟨fun d i src hd hlen hsrc => ?_, fun p type s' hfire d hd hstale => ?_,
    fun d s' hmap hlen => ?_⟩
  · have hi := hbound hsrc
    exact ⟨fun hl => hinv.settled d i src hd (by omega) hl hsrc,
      fun hl => hinv.untouched d i hd (by omega) hl hi⟩
  · obtain ⟨_, hfire⟩ := Execution.ite_error_eq_ok.mp hfire
    exact wakeUpOps_other hinv hfire hd hstale
  · obtain ⟨⟨hd, hl⟩, hmap⟩ := Execution.ite_error_eq_ok.mp hmap
    obtain ⟨hinv', hd', hl', hfired, hkept⟩ := hinv.map hd hl hmap
    refine ⟨hl', fun i src hsrc hf => ?_⟩
    have hi := hbound hsrc
    cases hkept i src hsrc with
    | inl hsame =>
        have hi' := hbound hsame
        refine ((hinv'.settled d i src hd' (by omega) (by omega) hsame).ready fun hw => ?_).1
        exact hw.2 ((hfired _ _).mpr hf)
    | inr hgone =>
        have hi' := hbound hgone
        exact ((hinv'.settled d i _ hd' (by omega) (by omega) hgone).ready fun hw => hw.1 rfl).1

/-- Three producers and a consumer: the first fires before the consumer is mapped, the second
afterwards, the third is gone. -/
def threeProducers : List Event :=
  [.alloc 1 0 [], .alloc 2 1 [], .alloc 3 2 [],
    .alloc 4 3 [⟨.regData, some 1, 0⟩, ⟨.regData, some 2, 1⟩, ⟨.regData, some 3, 2⟩],
    .fire 1 .regData, .free 3, .map 4, .fire 2 .regData]

theorem wake_up_once_three : ∃ s, Execution.run (State.step true) .init threeProducers = .ok s ∧
    Settled s 4 0 ⟨.regData, some 1, 0⟩ ∧ Settled s 4 1 ⟨.regData, some 2, 1⟩ ∧
    Settled s 4 2 ⟨.regData, none, 2⟩ := by
  have hok : (Execution.run (State.step true) .init threeProducers).isOk = true := by decide +kernel
  obtain ⟨s, hs⟩ := Execution.exists_ok hok
  have hend : (fun s : State => ((s.ops 4).valid, (s.ops 4).srcInfo, (s.ops 4).linked)) <$>
      Execution.run (State.step true) .init threeProducers =
        .ok (true, [⟨.regData, some 1, 0⟩, ⟨.regData, some 2, 1⟩, ⟨.regData, none, 2⟩], 3) := by
    decide +kernel
  rw [hs] at hend
  have hop := Except.ok.inj hend
  have hvalid : (s.ops 4).valid = true := congrArg Prod.fst hop
  have hsrcs : (s.ops 4).srcInfo =
      [⟨.regData, some 1, 0⟩, ⟨.regData, some 2, 1⟩, ⟨.regData, none, 2⟩] :=
    congrArg (fun out => out.2.1) hop
  have hlinked : (s.ops 4).linked = 3 := congrArg (fun out => out.2.2) hop
  have hlaw := (wake_up_once ⟨_, hs⟩).1 4
  rw [hsrcs, hlinked] at hlaw
  exact ⟨s, hs, (hlaw 0 _ hvalid (by decide) rfl).1 (by decide),
    (hlaw 1 _ hvalid (by decide) rfl).1 (by decide), (hlaw 2 _ hvalid (by decide) rfl).1 (by decide)⟩

/-- A source whose producer retired before the mapping is ready, but the wake action was never
called on it. -/
theorem gone_without_wake_action :
    (fun s : State => ((s.ops 2).valid, (s.ops 2).linked, s.notRdy 2 0, s.clears 1 0, s.wakers 1 0)) <$>
      Execution.run (State.step true) .init
        [.alloc 1 0 [], .alloc 2 1 [⟨.regData, some 1, 0⟩], .fire 1 .regData, .free 1, .map 2] =
      .ok (true, 1, false, 1, []) := by
  decide +kernel

end Scarab.WakeUp
