import Scarab.Core.WakeUp.State

/-! # One firing

What `wake_up_ops` does to every op: a bit is cleared if the list has a current entry of
the type for it, once, with one call of the wake action, and nothing else happens. -/

namespace Scarab.WakeUp

open Map (DepType)

/-! ## Bits -/

theorem getLsbD_mask (bit i : ℕ) : (1#32 <<< bit).getLsbD i = decide (i < 32 ∧ i = bit) := by
  rw [BitVec.getLsbD_shiftLeft, BitVec.getLsbD_one]
  by_cases hi : i < 32
  · by_cases hb : i = bit
    · simp [hb]
    · by_cases hlt : i < bit
      · simp [hi, hb, hlt]
      · have : i - bit ≠ 0 := by omega
        simp [hi, hb, this]
  · simp [hi]

/-- The test of a bit looks at that bit. -/
theorem test_iff (v : BitVec 32) (bit : ℕ) : 0 < v &&& (1#32 <<< bit) ↔ v.getLsbD bit = true := by
  have hbit : (v &&& (1#32 <<< bit)).getLsbD bit = v.getLsbD bit := by
    rw [BitVec.getLsbD_and, getLsbD_mask]
    by_cases hlt : bit < 32
    · simp [hlt]
    · simp [BitVec.getLsbD_of_ge v bit (by omega)]
  constructor
  · intro hpos
    by_contra hclear
    have hzero : v &&& (1#32 <<< bit) = 0#32 := by
      apply BitVec.eq_of_getLsbD_eq
      intro i hi
      rw [BitVec.getLsbD_and, getLsbD_mask]
      by_cases heq : i = bit
      · simp [heq, hclear]
      · simp [heq]
    rw [hzero] at hpos
    exact absurd hpos (by decide)
  · intro hset
    have hne : v &&& (1#32 <<< bit) ≠ 0#32 := by
      intro hzero
      rw [hzero, hset] at hbit
      simp at hbit
    rw [BitVec.lt_def]
    exact Nat.pos_of_ne_zero fun h => hne (BitVec.eq_of_toNat_eq h)

theorem getLsbD_clear (v : BitVec 32) (bit i : ℕ) :
    (v &&& ~~~(1#32 <<< bit)).getLsbD i = (v.getLsbD i && decide (i ≠ bit)) := by
  rw [BitVec.getLsbD_and, BitVec.getLsbD_not, getLsbD_mask]
  by_cases hi : i < 32
  · simp [hi]
  · simp [BitVec.getLsbD_of_ge v i (by omega)]

theorem getLsbD_set (v : BitVec 32) (bit i : ℕ) :
    (setNotRdyBit v bit).getLsbD i = (v.getLsbD i || decide (i < 32 ∧ i = bit)) := by
  rw [setNotRdyBit, BitVec.getLsbD_or, getLsbD_mask]

/-- An op that was given its sources has the bits of all of them set. -/
theorem getLsbD_sources (n i : ℕ) :
    ((List.range n).foldl setNotRdyBit 0).getLsbD i = decide (i < 32 ∧ i < n) := by
  induction n with
  | zero => simp
  | succ n ih =>
      rw [List.range_succ, List.foldl_append, List.foldl_cons, List.foldl_nil, getLsbD_set, ih]
      by_cases hi : i < 32
      · by_cases hn : i < n
        · simp [hi, hn]
          omega
        · simp only [hi, hn, true_and, decide_false, Bool.false_or]
          exact decide_eq_decide.mpr (by omega)
      · simp [hi]

/-! ## What can be seen -/

def State.notRdy (s : State) (d : OpPtr) (i : ℕ) : Bool := (s.ops d).srcsNotRdyVector.getLsbD i

/-- The op with the unique number has fired the type. -/
def State.Fired (s : State) (u : ℕ) (type : DepType) : Prop := .fired u type ∈ s.log

/-- How often the bit of a source was cleared. -/
def State.clears (s : State) (u i : ℕ) : ℕ := s.log.count (.cleared u i)

def Note.waker (u i : ℕ) : Note → Option ℕ
  | .woken v u' i' => if u' = u ∧ i' = i then some v else none
  | _ => none

/-- The producers whose firing called the wake action on a source. -/
def State.wakers (s : State) (u i : ℕ) : List ℕ := s.log.filterMap (Note.waker u i)

variable {s s₀ s' : State} {p : OpPtr} {type : DepType}

@[simp] theorem ops_note (s : State) (n : Note) : (s.note n).ops = s.ops := rfl

@[simp] theorem uniqueCount_note (s : State) (n : Note) : (s.note n).uniqueCount = s.uniqueCount := rfl

@[simp] theorem log_note (s : State) (n : Note) : (s.note n).log = s.log ++ [n] := rfl

@[simp] theorem log_setOp (s : State) (p : OpPtr) (op : Op) : (s.setOp p op).log = s.log := rfl

@[simp] theorem uniqueCount_setOp (s : State) (p : OpPtr) (op : Op) :
    (s.setOp p op).uniqueCount = s.uniqueCount := rfl

@[simp] theorem ops_setOp_self (s : State) (p : OpPtr) (op : Op) : (s.setOp p op).ops p = op :=
  Function.update_self ..

theorem ops_setOp_of_ne (s : State) {p d : OpPtr} (h : d ≠ p) (op : Op) :
    (s.setOp p op).ops d = s.ops d :=
  Function.update_of_ne h ..

/-- Same log, same history. -/
theorem history_congr (h : s'.log = s.log) :
    (∀ u type, s'.Fired u type ↔ s.Fired u type) ∧ (∀ u i, s'.clears u i = s.clears u i) ∧
      ∀ u i, s'.wakers u i = s.wakers u i := by
  simp [State.Fired, State.clears, State.wakers, h]

theorem clears_cleared (h : s'.log = s.log ++ .cleared v b :: rest) (hrest : ∀ u i, .cleared u i ∉ rest)
    (u i : ℕ) : s'.clears u i = s.clears u i + if u = v ∧ i = b then 1 else 0 := by
  have hcount : rest.count (.cleared u i) = 0 := List.count_eq_zero.mpr (hrest u i)
  by_cases hui : u = v ∧ i = b
  · obtain ⟨rfl, rfl⟩ := hui
    simp [State.clears, h, List.count_append, hcount]
  · have hne : Note.cleared v b ≠ .cleared u i := by
      intro heq
      cases heq
      exact hui ⟨rfl, rfl⟩
    simp [State.clears, h, List.count_append, hcount, hui, hne]

/-- The history after a bit was cleared without a wake-up. -/
theorem history_cleared (h : s'.log = s.log ++ [.cleared v b]) :
    (∀ u type, s'.Fired u type ↔ s.Fired u type) ∧
      (∀ u i, s'.clears u i = s.clears u i + if u = v ∧ i = b then 1 else 0) ∧
      ∀ u i, s'.wakers u i = s.wakers u i :=
  ⟨fun u type => by simp [State.Fired, h], clears_cleared h (by simp),
    fun u i => by simp [State.wakers, h, Note.waker]⟩

/-- The history after a wake-up. -/
theorem history_woken (h : s'.log = s.log ++ [.cleared v b, .woken w v b]) :
    (∀ u type, s'.Fired u type ↔ s.Fired u type) ∧
      (∀ u i, s'.clears u i = s.clears u i + if u = v ∧ i = b then 1 else 0) ∧
      ∀ u i, s'.wakers u i = s.wakers u i ++ if u = v ∧ i = b then [w] else [] := by
  refine ⟨fun u type => by simp [State.Fired, h], clears_cleared h (by simp), fun u i => ?_⟩
  by_cases hui : u = v ∧ i = b
  · obtain ⟨rfl, rfl⟩ := hui
    simp [State.wakers, h, List.filterMap_append, List.filterMap_cons, Note.waker]
  · have hne : ¬ (v = u ∧ b = i) := fun ⟨hu, hi⟩ => hui ⟨hu.symm, hi.symm⟩
    simp [State.wakers, h, Note.waker, hui, hne]

/-! ## The loop over the entries -/

/-- One of the entries is a current one of the type, for this bit of this op. -/
def Hit (s : State) (type : DepType) (entries : List WakeUpEntry) (d : OpPtr) (i : ℕ) : Prop :=
  ∃ e ∈ entries, e.depType = type ∧ s.Current e ∧ e.op = d ∧ e.rdyBit = i

theorem hit_concat {entries : List WakeUpEntry} {e : WakeUpEntry} {d : OpPtr} {i : ℕ} :
    Hit s type (entries ++ [e]) d i ↔
      Hit s type entries d i ∨ e.depType = type ∧ s.Current e ∧ e.op = d ∧ e.rdyBit = i := by
  simp [Hit, List.mem_append, or_and_right, exists_or]

/-- What the loop over some entries has done. -/
structure Woke (p : OpPtr) (type : DepType) (s₀ : State) (entries : List WakeUpEntry) (s : State) :
    Prop where
  ops : ∀ d, s.ops d = { s₀.ops d with srcsNotRdyVector := (s.ops d).srcsNotRdyVector }
  uniqueCount : s.uniqueCount = s₀.uniqueCount
  fired : ∀ u type, s.Fired u type ↔ s₀.Fired u type
  bits : ∀ d i, s.notRdy d i = true ↔ s₀.notRdy d i = true ∧ ¬ Hit s₀ type entries d i
  woken : ∀ d i, (s₀.ops d).valid = true → s₀.notRdy d i = true → Hit s₀ type entries d i →
    s.clears (s₀.ops d).uniqueNum i = s₀.clears (s₀.ops d).uniqueNum i + 1 ∧
      s.wakers (s₀.ops d).uniqueNum i = s₀.wakers (s₀.ops d).uniqueNum i ++ [(s₀.ops p).uniqueNum]
  others : ∀ u i, (∀ d, (s₀.ops d).valid = true → (s₀.ops d).uniqueNum = u →
      ¬ (s₀.notRdy d i = true ∧ Hit s₀ type entries d i)) →
    s.clears u i = s₀.clears u i ∧ s.wakers u i = s₀.wakers u i

theorem woke_nil (p : OpPtr) (type : DepType) (s : State) : Woke p type s [] s :=
  ⟨fun _ => rfl, rfl, fun _ _ => Iff.rfl, fun _ _ => by simp [Hit],
    fun _ _ _ _ hh => by simp [Hit] at hh, fun _ _ _ => ⟨rfl, rfl⟩⟩

variable {entries : List WakeUpEntry} {e : WakeUpEntry}

/-- The entry does nothing. -/
theorem Woke.skip (h : Woke p type s₀ entries s)
    (hskip : ∀ d i, s.notRdy d i = true → ¬ (e.depType = type ∧ s₀.Current e ∧ e.op = d ∧ e.rdyBit = i)) :
    Woke p type s₀ (entries ++ [e]) s := by
  -- a bit that the entry names has been cleared by an earlier one
  have hhit : ∀ d i, s₀.notRdy d i = true →
      (Hit s₀ type (entries ++ [e]) d i ↔ Hit s₀ type entries d i) := by
    intro d i hset
    rw [hit_concat]
    constructor
    · intro hcase
      cases hcase with
      | inl hold => exact hold
      | inr hnew =>
          by_contra hnone
          exact hskip d i ((h.bits d i).mpr ⟨hset, hnone⟩) hnew
    · exact .inl
  refine ⟨h.ops, h.uniqueCount, h.fired, fun d i => ?_, fun d i hv hset hh => ?_, fun u i hnone => ?_⟩
  · rw [h.bits]
    constructor
    · rintro ⟨hset, hnot⟩
      exact ⟨hset, fun hh => hnot ((hhit d i hset).mp hh)⟩
    · rintro ⟨hset, hnot⟩
      exact ⟨hset, fun hh => hnot ((hhit d i hset).mpr hh)⟩
  · exact h.woken d i hv hset ((hhit d i hset).mp hh)
  · apply h.others u i
    rintro d hv hu ⟨hset, hh⟩
    exact hnone d hv hu ⟨hset, (hhit d i hset).mpr hh⟩

theorem Woke.current_iff (h : Woke p type s₀ entries s) (e : WakeUpEntry) :
    s.Current e ↔ s₀.Current e := by
  unfold State.Current
  rw [h.ops]

/-- The entry clears a bit. -/
theorem Woke.wake (h : Woke p type s₀ entries s)
    (hdistinct : ∀ d d', (s₀.ops d).valid = true → (s₀.ops d').valid = true →
      (s₀.ops d).uniqueNum = (s₀.ops d').uniqueNum → d = d')
    (htype : e.depType = type) (hcurrent : s₀.Current e) (hset : s.notRdy e.op e.rdyBit = true)
    (hops : s'.ops = Function.update s.ops e.op { s.ops e.op with
      srcsNotRdyVector := (s.ops e.op).srcsNotRdyVector &&& ~~~(1#32 <<< e.rdyBit) })
    (hcount : s'.uniqueCount = s.uniqueCount)
    (hlog : s'.log = s.log ++ [.cleared (s₀.ops e.op).uniqueNum e.rdyBit,
      .woken (s₀.ops p).uniqueNum (s₀.ops e.op).uniqueNum e.rdyBit]) :
    Woke p type s₀ (entries ++ [e]) s' := by
  obtain ⟨hfired, hclears, hwakers⟩ := history_woken hlog
  obtain ⟨hset₀, hfirst⟩ := (h.bits _ _).mp hset
  -- the history of any other bit stays
  have hother : ∀ u i, ¬ (u = (s₀.ops e.op).uniqueNum ∧ i = e.rdyBit) →
      s'.clears u i = s.clears u i ∧ s'.wakers u i = s.wakers u i := by
    intro u i hne
    rw [hclears, hwakers, if_neg hne, if_neg hne]
    simp
  refine ⟨fun d => ?_, hcount.trans h.uniqueCount, fun u type => (hfired u type).trans (h.fired u type),
    fun d i => ?_, fun d i hv hbit hh => ?_, fun u i hnone => ?_⟩
  · rw [hops]
    by_cases hd : d = e.op
    · subst hd
      rw [Function.update_self, h.ops e.op]
    · rw [Function.update_of_ne hd]
      exact h.ops d
  · have hbit : s'.notRdy d i = (s.notRdy d i && !decide (d = e.op ∧ i = e.rdyBit)) := by
      unfold State.notRdy
      rw [hops]
      by_cases hd : d = e.op
      · subst hd
        rw [Function.update_self]
        simp only [getLsbD_clear]
        simp
      · rw [Function.update_of_ne hd]
        simp [hd]
    rw [hbit, hit_concat, Bool.and_eq_true, h.bits]
    have hsame : (e.depType = type ∧ s₀.Current e ∧ e.op = d ∧ e.rdyBit = i) ↔
        d = e.op ∧ i = e.rdyBit :=
      ⟨fun ⟨_, _, hd, hi⟩ => ⟨hd.symm, hi.symm⟩, fun ⟨hd, hi⟩ => ⟨htype, hcurrent, hd.symm, hi.symm⟩⟩
    rw [hsame, Bool.not_eq_true', decide_eq_false_iff_not, not_or, and_assoc]
  · by_cases hsame : d = e.op ∧ i = e.rdyBit
    · obtain ⟨rfl, rfl⟩ := hsame
      have hold := h.others (s₀.ops e.op).uniqueNum e.rdyBit (by
        rintro d hv' hu ⟨_, hh'⟩
        obtain rfl := hdistinct d e.op hv' hv hu
        exact hfirst hh')
      rw [hclears, hwakers, hold.1, hold.2]
      simp
    · have hh' : Hit s₀ type entries d i := by
        cases hit_concat.mp hh with
        | inl hold => exact hold
        | inr hnew => exact absurd ⟨hnew.2.2.1.symm, hnew.2.2.2.symm⟩ hsame
      have hne : ¬ ((s₀.ops d).uniqueNum = (s₀.ops e.op).uniqueNum ∧ i = e.rdyBit) := fun ⟨hu, hi⟩ =>
        hsame ⟨hdistinct d e.op hv hcurrent.2 hu, hi⟩
      rw [(hother _ _ hne).1, (hother _ _ hne).2]
      exact h.woken d i hv hbit hh'
  · have hne : ¬ (u = (s₀.ops e.op).uniqueNum ∧ i = e.rdyBit) := by
      rintro ⟨rfl, rfl⟩
      exact hnone e.op hcurrent.2 rfl ⟨hset₀, hit_concat.mpr (.inr ⟨htype, hcurrent, rfl, rfl⟩)⟩
    rw [(hother _ _ hne).1, (hother _ _ hne).2]
    apply h.others u i
    rintro d hv hu ⟨hbit, hh⟩
    exact hnone d hv hu ⟨hbit, hit_concat.mpr (.inl hh)⟩

theorem Woke.entry (h : Woke p type s₀ entries s)
    (hdistinct : ∀ d d', (s₀.ops d).valid = true → (s₀.ops d').valid = true →
      (s₀.ops d).uniqueNum = (s₀.ops d').uniqueNum → d = d')
    (hs : s.wakeEntry p type e = .ok s') : Woke p type s₀ (entries ++ [e]) s' := by
  unfold State.wakeEntry at hs
  by_cases htype : e.depType ≠ type
  · rw [if_pos htype] at hs
    cases hs
    exact h.skip fun _ _ _ hnew => htype hnew.1
  · rw [if_neg htype] at hs
    by_cases hcurrent : s.Current e
    · rw [if_pos hcurrent] at hs
      obtain ⟨b, htest, hs⟩ := Execution.bind_eq_ok.mp hs
      obtain ⟨_, htest⟩ := Execution.ite_error_eq_ok.mp htest
      have hb : b = true ↔ s.notRdy e.op e.rdyBit = true := by
        rw [← Except.ok.inj htest, decide_eq_true_eq]
        exact test_iff _ _
      cases b with
      | false =>
          cases hs
          refine h.skip fun d i hset hnew => ?_
          obtain ⟨_, _, rfl, rfl⟩ := hnew
          exact absurd (hb.mpr hset) (by simp)
      | true =>
          obtain ⟨s₁, hclear, hs⟩ := Execution.bind_eq_ok.mp hs
          obtain ⟨_, hclear⟩ := Execution.ite_error_eq_ok.mp hclear
          cases hclear
          cases hs
          have hunique : ∀ d, (s.ops d).uniqueNum = (s₀.ops d).uniqueNum := fun d => by rw [h.ops]
          refine h.wake hdistinct (not_not.mp htype) ((h.current_iff e).mp hcurrent) (hb.mp rfl) rfl rfl ?_
          simp only [State.wakeAction, log_note, log_setOp, ops_note, ops_setOp_self, hunique,
            List.append_assoc, List.singleton_append]
          by_cases hself : p = e.op
          · simp [hself]
          · simp [ops_setOp_of_ne _ hself, hunique]
    · rw [if_neg hcurrent] at hs
      cases hs
      exact h.skip fun _ _ _ hnew => hcurrent ((h.current_iff e).mpr hnew.2.1)

theorem Woke.loop {rest : List WakeUpEntry} (h : Woke p type s₀ entries s)
    (hdistinct : ∀ d d', (s₀.ops d).valid = true → (s₀.ops d').valid = true →
      (s₀.ops d).uniqueNum = (s₀.ops d').uniqueNum → d = d')
    (hs : rest.foldlM (State.wakeEntry p type) s = .ok s') : Woke p type s₀ (entries ++ rest) s' := by
  induction rest generalizing entries s with
  | nil =>
      cases hs
      simpa using h
  | cons e rest ih =>
      rw [List.foldlM_cons] at hs
      obtain ⟨mid, hmid, hrest⟩ := Execution.bind_eq_ok.mp hs
      rw [List.append_cons]
      exact ih (h.entry hdistinct hmid) hrest

end Scarab.WakeUp
