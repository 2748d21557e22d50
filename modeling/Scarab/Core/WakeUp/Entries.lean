import Scarab.Core.WakeUp.Pool

/-! # Every wake-up entry is in one place

The free list and the lists of the live ops share the entries that were created, whatever ops are
mapped, woken and freed. The counters say how many there are, so the assertions on them hold. -/

namespace Scarab.WakeUp

open Scarab.Linked

variable {m m' : Pool} {free : List EntryPtr} {used : EntryPtr → Prop} {wake t : EntryPtr}

/-! ## The lists of the ops -/

variable {obeyRegDep : Bool} {x x' : PoolState} {p q : OpPtr} {lists : OpPtr → List EntryPtr} {msg : String}

/-- The fields of the op hold the list. -/
structure PoolState.ListOf (x : PoolState) (p : OpPtr) (l : List EntryPtr) : Prop where
  chain : Chain x.pool.next (x.ops p).wakeUpHead l
  tail : (x.ops p).wakeUpTail = l.getLast?
  count : l ≠ [] → (x.ops p).wakeUpCount = l.length
  nodup : l.Nodup

/-- The free list, and the lists of the ops, which share nothing. -/
structure PoolState.Lists (x : PoolState) (free : List EntryPtr) (lists : OpPtr → List EntryPtr) : Prop where
  pool : x.pool.Holds free fun e => ∃ p, e ∈ lists p
  list : ∀ p, x.ListOf p (lists p)
  apart : ∀ p q e, e ∈ lists p → e ∈ lists q → p = q

/-- Besides, an op that was freed has no list. -/
structure PoolState.Conserved (x : PoolState) (free : List EntryPtr) (lists : OpPtr → List EntryPtr) : Prop
    extends x.Lists free lists where
  live : ∀ p, lists p ≠ [] → (x.ops p).valid = true

/-- The fields of the list are as before. -/
def PooledOp.SameList (op op' : PooledOp) : Prop :=
  op'.wakeUpHead = op.wakeUpHead ∧ op'.wakeUpTail = op.wakeUpTail ∧ op'.wakeUpCount = op.wakeUpCount

/-- The op with its list as a whole, and how many of its sources were gone through. -/
def PooledOp.toOp (op : PooledOp) (wakeUpList : List WakeUpEntry) (linked : ℕ) : Op where
  valid := op.valid
  uniqueNum := op.uniqueNum
  srcInfo := op.srcInfo
  srcsNotRdyVector := op.srcsNotRdyVector
  wakeUpList
  wakeUpSignaled := op.wakeUpSignaled
  linked

theorem valid_of_toOp {op op' : PooledOp} (h : op'.toOp = op.toOp) : op'.valid = op.valid :=
  congrArg (fun toOp => (toOp [] 0).valid) h

/-- The content of an entry. -/
def Pool.entry (m : Pool) (e : EntryPtr) : WakeUpEntry := (m.memory e).entry

theorem setNext_entry (m : Pool) (t : EntryPtr) (q : Option EntryPtr) : (m.setNext t q).entry = m.entry := by
  funext e
  by_cases he : e = t
  · subst he
    simp [Pool.entry, Pool.setNext]
  · simp [Pool.entry, Pool.setNext, Function.update_of_ne he]

/-- Neither the pool nor a list nor which ops are live has changed. -/
structure PoolState.Frame (x x' : PoolState) : Prop where
  pool : x'.pool = x.pool
  ops : ∀ p, (x.ops p).SameList (x'.ops p)
  valid : ∀ p, (x'.ops p).valid = (x.ops p).valid

theorem PoolState.Frame.refl (x : PoolState) : x.Frame x := ⟨rfl, fun _ => ⟨rfl, rfl, rfl⟩, fun _ => rfl⟩

theorem PoolState.Frame.trans {x'' : PoolState} (h : x.Frame x') (h' : x'.Frame x'') : x.Frame x'' where
  pool := h'.pool.trans h.pool
  ops := fun p =>
    have hp := h.ops p
    have hp' := h'.ops p
    ⟨hp'.1.trans hp.1, hp'.2.1.trans hp.2.1, hp'.2.2.trans hp.2.2⟩
  valid := fun p => (h'.valid p).trans (h.valid p)

theorem sameList_setOp {op : PooledOp} (hop : (x.ops p).SameList op) (q : OpPtr) :
    (x.ops q).SameList ((x.setOp p op).ops q) := by
  by_cases hq : q = p
  · subst hq
    simpa [PoolState.setOp] using hop
  · simp [PoolState.setOp, Function.update_of_ne hq, PooledOp.SameList]

theorem PoolState.Frame.setOp {op : PooledOp} (hop : (x.ops p).SameList op) (hvalid : op.valid = (x.ops p).valid) :
    x.Frame (x.setOp p op) where
  pool := rfl
  ops := sameList_setOp hop
  valid := fun q => by
    by_cases hq : q = p
    · subst hq
      simpa [PoolState.setOp] using hvalid
    · simp [PoolState.setOp, Function.update_of_ne hq]

theorem PoolState.Lists.frame (h : x.Lists free lists) (hpool : x'.pool = x.pool)
    (hops : ∀ p, (x.ops p).SameList (x'.ops p)) : x'.Lists free lists where
  pool := hpool ▸ h.pool
  list := fun p => by
    obtain ⟨hhead, htail, hcount⟩ := hops p
    have hlist := h.list p
    exact ⟨by rw [hpool, hhead]; exact hlist.chain, htail.trans hlist.tail,
      fun hne => hcount.trans (hlist.count hne), hlist.nodup⟩
  apart := h.apart

theorem PoolState.Conserved.frame (h : x.Conserved free lists) (hframe : x.Frame x') : x'.Conserved free lists where
  toLists := h.toLists.frame hframe.pool hframe.ops
  live := fun p hne => (hframe.valid p).trans (h.live p hne)

/-! ## What leaves the lists alone -/

/-- The failures that have nothing to do with the pool. -/
def bitAssertion : String := "bit < op->oracle_info.num_srcs"

theorem clearNotRdyBit_frame {bit : ℕ} (h : x.clearNotRdyBit p bit = .ok x') : x.Frame x' := by
  obtain ⟨_, h⟩ := Execution.ite_error_eq_ok.mp h
  cases h
  exact .setOp ⟨rfl, rfl, rfl⟩ rfl

theorem clearNotRdyBit_error {bit : ℕ} (h : x.clearNotRdyBit p bit = .error msg) : msg = bitAssertion := by
  obtain ⟨_, h⟩ | ⟨_, h⟩ := Execution.ite_error_eq_error.mp h
  · cases h
  · exact h.symm

theorem wakeEntry_frame {type : Map.DepType} {temp : EntryPtr} (h : x.wakeEntry type temp = .ok x') : x.Frame x' := by
  unfold PoolState.wakeEntry at h
  by_cases htype : (x.pool.memory temp).entry.depType ≠ type
  · rw [if_pos htype] at h
    cases h
    exact .refl x
  · rw [if_neg htype] at h
    split at h
    · obtain ⟨b, _, h⟩ := Execution.bind_eq_ok.mp h
      cases b with
      | true => exact clearNotRdyBit_frame h
      | false =>
          cases h
          exact .refl x
    · cases h
      exact .refl x

theorem wakeEntry_error {type : Map.DepType} {temp : EntryPtr} (h : x.wakeEntry type temp = .error msg) :
    msg = bitAssertion := by
  unfold PoolState.wakeEntry at h
  by_cases htype : (x.pool.memory temp).entry.depType ≠ type
  · rw [if_pos htype] at h
    cases h
  · rw [if_neg htype] at h
    split at h
    · rcases Execution.bind_eq_error.mp h with htest | ⟨b, _, h⟩
      · obtain ⟨_, htest⟩ | ⟨_, htest⟩ := Execution.ite_error_eq_error.mp htest
        · cases htest
        · exact htest.symm
      · cases b with
        | true => exact clearNotRdyBit_error h
        | false => cases h
    · cases h

/-- A wake-up reads the list and does not change it. -/
theorem wakeUpOps_frame {type : Map.DepType} (h : x.wakeUpOps p type = .ok x') : x.Frame x' := by
  unfold PoolState.wakeUpOps at h
  split at h
  · obtain ⟨⟨stop, y⟩, hwalk, h⟩ := Execution.bind_eq_ok.mp h
    have hframe : x.Frame y := by
      refine walk_invariant (I := fun y => x.Frame y) (fun temp s t b hs hbody => ?_) (.refl x) hwalk
      obtain ⟨t', hwake, ht'⟩ := Execution.map_eq_ok.mp hbody
      cases ht'
      exact hs.trans (wakeEntry_frame hwake)
    cases h
    exact hframe.trans (.setOp ⟨rfl, rfl, rfl⟩ rfl)
  · cases h

theorem wakeUpOps_error {type : Map.DepType} (h : x.wakeUpOps p type = .error msg) :
    msg = bitAssertion ∨ msg = "!op->wake_up_signaled[type] || op->replay" := by
  obtain ⟨_, h⟩ | ⟨_, h⟩ := Execution.ite_error_eq_error.mp h
  · rcases Execution.bind_eq_error.mp h with hwalk | ⟨⟨stop, y⟩, _, h⟩
    · obtain ⟨y, temp, hbody⟩ := walk_eq_error hwalk
      rcases Execution.bind_eq_error.mp hbody with hwake | ⟨z, _, hbody⟩
      · exact .inl (wakeEntry_error hwake)
      · cases hbody
    · cases h
  · exact .inr h.symm

/-! ## Linking one source -/

theorem mem_update_lists {e : EntryPtr} :
    (∃ p, e ∈ Function.update lists q (lists q ++ [wake]) p) ↔ (∃ p, e ∈ lists p) ∨ e = wake := by
  constructor
  · rintro ⟨p, hp⟩
    by_cases hpq : p = q
    · subst hpq
      rw [Function.update_self, List.mem_append, List.mem_singleton] at hp
      exact hp.imp (fun hmem => ⟨p, hmem⟩) id
    · rw [Function.update_of_ne hpq] at hp
      exact .inl ⟨p, hp⟩
  · rintro (⟨p, hp⟩ | rfl)
    · refine ⟨p, ?_⟩
      by_cases hpq : p = q
      · subst hpq
        rw [Function.update_self]
        exact List.mem_append_left _ hp
      · rwa [Function.update_of_ne hpq]
    · exact ⟨q, by rw [Function.update_self]; exact List.mem_append_right _ (List.mem_singleton_self _)⟩

/-- Appending does not fail, since a list with an end has a beginning. -/
theorem PoolState.ListOf.append {l : List EntryPtr} (h : x.ListOf q l) (hl : l.length + 1 < 2 ^ 32) (wake : EntryPtr) :
    ∃ x' op, x.append q wake = .ok x' ∧ x'.ops = Function.update x.ops q op ∧ op.toOp = (x.ops q).toOp ∧
      op.wakeUpHead = (if l = [] then some wake else (x.ops q).wakeUpHead) ∧ op.wakeUpTail = some wake ∧
      op.wakeUpCount = l.length + 1 ∧
      x'.pool = match l.getLast? with
        | none => x.pool
        | some t => x.pool.setNext t (some wake) := by
  cases hlast : l.getLast? with
  | none =>
      have htail : (x.ops q).wakeUpTail = none := h.tail.trans hlast
      obtain rfl : l = [] := List.getLast?_eq_none_iff.mp hlast
      simp only [PoolState.append, htail]
      exact ⟨_, _, rfl, rfl, rfl, rfl, rfl, rfl, rfl⟩
  | some t =>
      have htail : (x.ops q).wakeUpTail = some t := h.tail.trans hlast
      have hne : l ≠ [] := fun hnil => by
        subst hnil
        cases hlast
      have hhead : (x.ops q).wakeUpHead ≠ none := fun hnone =>
        hne (h.chain.unique (show Chain x.pool.next (x.ops q).wakeUpHead [] from hnone))
      have hcount : ((x.ops q).wakeUpCount + 1) % 2 ^ 32 = l.length + 1 := by
        rw [h.count hne, Nat.mod_eq_of_lt hl]
      simp only [PoolState.append, htail, if_pos hhead]
      exact ⟨_, _, rfl, rfl, rfl, (if_neg hne).symm, rfl, hcount, rfl⟩

/-- The entries of a list are some of those that were created. -/
theorem PoolState.Lists.length_le (h : x.Lists free lists) (p : OpPtr) : (lists p).length ≤ x.pool.created := by
  have hsub : (lists p).Subperm (List.range x.pool.created) := (h.list p).nodup.subperm fun e he =>
    List.mem_range.mpr ((h.pool.created e).mpr (.inr ⟨p, he⟩))
  simpa using hsub.length_le

/-- The end of one list is the only entry whose successor changes. -/
theorem PoolState.Lists.appended {free' : List EntryPtr} {head : Option EntryPtr} (h : x.Lists free lists)
    (hold : ∀ p, ({ x with pool := m } : PoolState).ListOf p (lists p))
    (hm : m.Holds free' fun e => (∃ p, e ∈ lists p) ∨ e = wake) (hwake : ∀ p, wake ∉ lists p) (hend : m.next wake = none)
    (hhead : head = if lists q = [] then some wake else (x.ops q).wakeUpHead)
    (hpool : m' = match (lists q).getLast? with
      | none => m
      | some t => m.setNext t (some wake)) :
    m'.Holds free' (fun e => (∃ p, e ∈ lists p) ∨ e = wake) ∧ Chain m'.next head (lists q ++ [wake]) ∧
      (∀ p, p ≠ q → Chain m'.next (x.ops p).wakeUpHead (lists p)) ∧
      m'.entry = m.entry ∧ m'.activeWakeUpEntries = m.activeWakeUpEntries := by
  have hlone : Chain m.next (some wake) [wake] := ⟨rfl, hend⟩
  cases hlast : (lists q).getLast? with
  | none =>
      have hnil : lists q = [] := List.getLast?_eq_none_iff.mp hlast
      rw [hlast] at hpool
      rw [if_pos hnil] at hhead
      rw [hpool, hhead, hnil]
      exact ⟨hm, hlone, fun p _ => (hold p).chain, rfl, rfl⟩
  | some t =>
      have ht : t ∈ lists q := List.mem_of_getLast? hlast
      have hne : lists q ≠ [] := List.ne_nil_of_mem ht
      have htw : t ∉ [wake] := fun hmem => hwake q (List.mem_singleton.mp hmem ▸ ht)
      rw [hlast] at hpool
      rw [if_neg hne] at hhead
      rw [hpool, hhead, setNext_next]
      exact ⟨hm.setNext (.inl ⟨q, ht⟩) _, (hold q).chain.splice (h.list q).nodup hlast hlone htw,
        fun p hp => (hold p).chain.update (fun hmem => hp (h.apart p q t hmem ht)) _, setNext_entry .., rfl⟩

/-- A fresh entry at the end of one list. -/
theorem PoolState.Lists.link {free' : List EntryPtr} (h : x.Lists free lists)
    (hm : m.Holds free' fun e => (∃ p, e ∈ lists p) ∨ e = wake) (hfresh : ¬ ∃ p, wake ∈ lists p)
    (hend : m.next wake = none) (hkept : ∀ e, (∃ p, e ∈ lists p) → m.memory e = x.pool.memory e) (q : OpPtr) :
    ∃ x', { x with pool := m }.append q wake = .ok x' ∧
      x'.Lists free' (Function.update lists q (lists q ++ [wake])) ∧ (∀ p, (x'.ops p).toOp = (x.ops p).toOp) ∧
      x'.pool.entry = m.entry ∧ x'.pool.activeWakeUpEntries = m.activeWakeUpEntries := by
  have hold : ∀ p, ({ x with pool := m } : PoolState).ListOf p (lists p) := fun p =>
    { h.list p with chain := (h.list p).chain.congr fun e he => congrArg PoolEntry.next (hkept e ⟨p, he⟩) }
  have hlen : (lists q).length + 1 < 2 ^ 32 := by
    have hle := h.length_le q
    have hlimit := h.pool.limit
    rw [h.pool.entries] at hlimit
    simp only [wakeUpEntriesInc] at hlimit
    omega
  obtain ⟨x', op, happend, hops, htoOp, hhead, htail, hcount, hpool⟩ := (hold q).append hlen wake
  have hself : x'.ops q = op := by rw [hops, Function.update_self]
  have hother : ∀ p, p ≠ q → x'.ops p = x.ops p := fun p hp => by rw [hops, Function.update_of_ne hp]
  have hwake : ∀ p, wake ∉ lists p := fun p hp => hfresh ⟨p, hp⟩
  obtain ⟨hholds, hchain, hchains, hentry, hactive⟩ := h.appended hold hm hwake hend hhead hpool
  refine ⟨x', happend, ⟨hholds.congr fun e => mem_update_lists, fun p => ?_, ?_⟩, fun p => ?_, hentry, hactive⟩
  · by_cases hp : p = q
    · subst hp
      rw [Function.update_self]
      refine ⟨hself ▸ hchain, ?_, fun _ => ?_, ?_⟩
      · rw [hself, htail, List.getLast?_concat]
      · rw [hself, hcount, List.length_append, List.length_singleton]
      · exact List.nodup_append.mpr ⟨(h.list p).nodup, List.nodup_singleton _, fun a ha b hb heq =>
          hwake p (List.mem_singleton.mp hb ▸ heq ▸ ha)⟩
    · rw [Function.update_of_ne hp]
      have hlist := h.list p
      refine ⟨?_, ?_, ?_, hlist.nodup⟩
      · rw [hother p hp]
        exact hchains p hp
      · rw [hother p hp]
        exact hlist.tail
      · rw [hother p hp]
        exact hlist.count
  · have hmem : ∀ p e, e ∈ Function.update lists q (lists q ++ [wake]) p → e ∈ lists p ∨ e = wake ∧ p = q := by
      intro p e he
      by_cases hp : p = q
      · subst hp
        rw [Function.update_self, List.mem_append, List.mem_singleton] at he
        exact he.imp id fun heq => ⟨heq, rfl⟩
      · rw [Function.update_of_ne hp] at he
        exact .inl he
    intro p p' e he he'
    rcases hmem p e he with hp | ⟨hew, hpq⟩
    · rcases hmem p' e he' with hp' | ⟨hew, -⟩
      · exact h.apart p p' e hp hp'
      · exact absurd (hew ▸ hp) (hwake p)
    · rcases hmem p' e he' with hp' | ⟨-, hpq'⟩
      · exact absurd (hew ▸ hp') (hwake p')
      · rw [hpq, hpq']
  · by_cases hp : p = q
    · subst hp
      rw [hself, htoOp]
    · rw [hother p hp]

theorem producer_valid {src : SrcInfo} (h : x.producer obeyRegDep src = some q) : (x.ops q).valid = true := by
  unfold PoolState.producer at h
  split at h
  · obtain ⟨_, hq⟩ := Option.filter_eq_some_iff.mp h
    simp only [Bool.and_eq_true, beq_iff_eq] at hq
    exact hq.1
  · cases h

/-- An entry with its content at the end of the list of a live op. -/
theorem PoolState.Conserved.enqueue {entry : WakeUpEntry} (h : x.Conserved free lists) (hq : (x.ops q).valid = true)
    (htake : x.pool.take entry = .ok (wake, m)) :
    ∃ free' x', { x with pool := m }.append q wake = .ok x' ∧
      x'.Conserved free' (Function.update lists q (lists q ++ [wake])) ∧ (∀ p, (x'.ops p).toOp = (x.ops p).toOp) ∧
      (∀ p, ∀ e ∈ lists p, x'.pool.entry e = x.pool.entry e) ∧ x'.pool.entry wake = entry ∧
      x'.pool.activeWakeUpEntries = x.pool.activeWakeUpEntries + 1 := by
  obtain ⟨free', hm, hfresh, hnew, hkept, hcount⟩ := h.pool.take htake
  have hend : m.next wake = none := congrArg PoolEntry.next hnew
  obtain ⟨x', happend, hlists, hops, hentry, hactive⟩ := h.toLists.link hm hfresh hend hkept q
  refine ⟨free', x', happend, ⟨hlists, fun p hp => ?_⟩, hops, fun p e he => ?_, ?_, by rw [hactive, hcount]⟩
  · rw [valid_of_toOp (hops p)]
    by_cases hpq : p = q
    · rwa [hpq]
    · rw [Function.update_of_ne hpq] at hp
      exact h.live p hp
  · rw [hentry]
    exact congrArg PoolEntry.entry (hkept e ⟨p, he⟩)
  · rw [hentry]
    exact congrArg PoolEntry.entry hnew

/-- One source: the entry goes to the list of a live op. -/
theorem PoolState.Conserved.linkSource {source : SrcInfo × ℕ} (h : x.Conserved free lists)
    (hlink : x.linkSource obeyRegDep p source = .ok x') :
    (∃ free' lists', x'.Conserved free' lists') ∧ x'.pool.activeWakeUpEntries ≤ x.pool.activeWakeUpEntries + 1 := by
  obtain ⟨src, ii⟩ := source
  unfold PoolState.linkSource at hlink
  cases hproducer : x.producer obeyRegDep src with
  | none =>
      simp only [hproducer] at hlink
      have hsources : x.Frame (x.setOp p { x.ops p with srcInfo := (x.ops p).srcInfo.set ii src.gone }) :=
        .setOp ⟨rfl, rfl, rfl⟩ rfl
      have hframe := hsources.trans (clearNotRdyBit_frame hlink)
      exact ⟨⟨free, lists, h.frame hframe⟩, by rw [hframe.pool]; exact Nat.le_succ _⟩
  | some q =>
      simp only [hproducer] at hlink
      obtain ⟨⟨wake, m⟩, htake, hlink⟩ := Execution.bind_eq_ok.mp hlink
      obtain ⟨y, happend, hlink⟩ := Execution.bind_eq_ok.mp hlink
      obtain ⟨free', y', hy', hconserved, _, _, _, hactive⟩ := h.enqueue (producer_valid hproducer) htake
      obtain rfl : y = y' := Except.ok.inj (happend.symm.trans hy')
      have hframe : y.Frame x' := by
        split at hlink
        · exact clearNotRdyBit_frame hlink
        · cases hlink
          exact .refl _
      refine ⟨⟨_, _, hconserved.frame hframe⟩, ?_⟩
      rw [hframe.pool, hactive]

theorem PoolState.Conserved.linkSource_error {source : SrcInfo × ℕ} (h : x.Conserved free lists)
    (hlink : x.linkSource obeyRegDep p source = .error msg) :
    msg = bitAssertion ∨ msg = growthAssertion ∧ x.pool.activeWakeUpEntries = wakeUpEntriesInc * 128 := by
  obtain ⟨src, ii⟩ := source
  unfold PoolState.linkSource at hlink
  cases hproducer : x.producer obeyRegDep src with
  | none =>
      simp only [hproducer] at hlink
      exact .inl (clearNotRdyBit_error hlink)
  | some q =>
      simp only [hproducer] at hlink
      rcases Execution.bind_eq_error.mp hlink with htake | ⟨⟨wake, m⟩, htake, hlink⟩
      · exact .inr (h.pool.take_error htake)
      · obtain ⟨free', y, happend, _⟩ := h.enqueue (producer_valid hproducer) htake
        rcases Execution.bind_eq_error.mp hlink with hfail | ⟨y', _, hlink⟩
        · cases happend.symm.trans hfail
        · split at hlink
          · exact .inl (clearNotRdyBit_error hlink)
          · cases hlink

/-- Each source takes one entry at most. -/
theorem PoolState.Conserved.linkSources {sources : List (SrcInfo × ℕ)} (h : x.Conserved free lists)
    (hlink : sources.foldlM (PoolState.linkSource obeyRegDep p) x = .ok x') :
    ∃ free' lists', x'.Conserved free' lists' := by
  induction sources generalizing x free lists with
  | nil =>
      cases hlink
      exact ⟨free, lists, h⟩
  | cons source sources ih =>
      rw [List.foldlM_cons] at hlink
      obtain ⟨y, hy, hlink⟩ := Execution.bind_eq_ok.mp hlink
      obtain ⟨⟨free', lists', h'⟩, _⟩ := h.linkSource hy
      exact ih h' hlink

theorem PoolState.Conserved.linkSources_error {sources : List (SrcInfo × ℕ)} (h : x.Conserved free lists)
    (hlink : sources.foldlM (PoolState.linkSource obeyRegDep p) x = .error msg) :
    msg = bitAssertion ∨
      msg = growthAssertion ∧ wakeUpEntriesInc * 128 < x.pool.activeWakeUpEntries + sources.length := by
  induction sources generalizing x free lists with
  | nil => cases hlink
  | cons source sources ih =>
      rw [List.foldlM_cons] at hlink
      rw [List.length_cons]
      rcases Execution.bind_eq_error.mp hlink with hfirst | ⟨y, hy, hlink⟩
      · refine (h.linkSource_error hfirst).imp id fun hfull => ⟨hfull.1, ?_⟩
        omega
      · obtain ⟨⟨free', lists', h'⟩, hactive⟩ := h.linkSource hy
        refine (ih h' hlink).imp id fun hfull => ⟨hfull.1, ?_⟩
        omega

/-! ## Freeing -/

/-- The whole list goes to the front of the free list. -/
theorem Pool.Holds.splice {l : List EntryPtr} {head : Option EntryPtr} {count : ℕ} (h : m.Holds free used)
    (hl : Chain m.next head l) (hnodup : l.Nodup) (hlast : l.getLast? = some t) (hcount : count = l.length)
    (hused : ∀ e ∈ l, used e) :
    { m.setNext t m.freeListHead with
      freeListHead := head
      activeWakeUpEntries := (m.activeWakeUpEntries + 2 ^ 32 - count) % 2 ^ 32 : Pool }.Holds (l ++ free)
      fun e => used e ∧ e ∉ l := by
  have hapart : ∀ a ∈ l, a ∉ free := fun a ha hfree => h.apart a hfree (hused a ha)
  have hall : (l ++ free).Nodup :=
    List.nodup_append.mpr ⟨hnodup, h.nodup, fun a ha b hb heq => hapart a ha (heq ▸ hb)⟩
  have hlen : (l ++ free).length ≤ m.created := by
    have hsub : (l ++ free).Subperm (List.range m.created) := hall.subperm fun e he => by
      refine List.mem_range.mpr ((h.created e).mpr ?_)
      exact (List.mem_append.mp he).elim (fun hmem => .inr (hused e hmem)) .inl
    simpa using hsub.length_le
  have hactive := h.active
  have hlimit := h.limit
  have hentries := h.entries
  rw [List.length_append] at hlen
  have hless : (m.activeWakeUpEntries + 2 ^ 32 - count) % 2 ^ 32 = m.activeWakeUpEntries - l.length := by
    simp only [wakeUpEntriesInc] at hlimit
    omega
  refine ⟨?_, hall, fun e => ?_, fun e he hkept => ?_, h.entries, ?_, h.blocks, h.limit⟩
  · show Chain (m.setNext t m.freeListHead).next head (l ++ free)
    rw [setNext_next]
    exact hl.splice hnodup hlast h.chain (hapart t (List.mem_of_getLast? hlast))
  · have hcreated := h.created e
    have husede := hused e
    show e < m.created ↔ _
    rw [List.mem_append]
    tauto
  · exact (List.mem_append.mp he).elim hkept.2 fun hfree => h.apart e hfree hkept.1
  · show (m.activeWakeUpEntries + 2 ^ 32 - count) % 2 ^ 32 + (l ++ free).length = m.wakeUpEntries
    rw [hless, List.length_append]
    omega

theorem mem_update_nil {e : EntryPtr} (hapart : ∀ p q e, e ∈ lists p → e ∈ lists q → p = q) :
    (∃ q, e ∈ Function.update lists p [] q) ↔ (∃ q, e ∈ lists q) ∧ e ∉ lists p := by
  constructor
  · rintro ⟨q, hq⟩
    by_cases hqp : q = p
    · rw [hqp, Function.update_self] at hq
      cases hq
    · rw [Function.update_of_ne hqp] at hq
      exact ⟨⟨q, hq⟩, fun hp => hqp (hapart q p e hq hp)⟩
  · rintro ⟨⟨q, hq⟩, hp⟩
    have hqp : q ≠ p := fun heq => hp (heq ▸ hq)
    exact ⟨q, by rwa [Function.update_of_ne hqp]⟩

theorem PoolState.Lists.freeWakeUpList (h : x.Lists free lists) (p : OpPtr) :
    ∃ x', x.freeWakeUpList p = .ok x' ∧ x'.Lists (lists p ++ free) (Function.update lists p []) ∧
      (∀ q, (x'.ops q).toOp = (x.ops q).toOp) ∧ x'.pool.entry = x.pool.entry := by
  have hp := h.list p
  cases hlast : (lists p).getLast? with
  | none =>
      have hnil : lists p = [] := List.getLast?_eq_none_iff.mp hlast
      have hsame : Function.update lists p [] = lists := by rw [← hnil, Function.update_eq_self]
      refine ⟨x, ?_, ?_, fun _ => rfl, rfl⟩
      · simp only [PoolState.freeWakeUpList, hp.tail.trans hlast]
      · rw [hsame, hnil]
        exact h
  | some t =>
      have hmem : t ∈ lists p := List.mem_of_getLast? hlast
      have hne : lists p ≠ [] := List.ne_nil_of_mem hmem
      have hhead : (x.ops p).wakeUpHead ≠ none := fun hnone =>
        hne (hp.chain.unique (show Chain x.pool.next (x.ops p).wakeUpHead [] from hnone))
      have hholds := h.pool.splice hp.chain hp.nodup hlast (hp.count hne) fun e he => ⟨p, he⟩
      simp only [PoolState.freeWakeUpList, hp.tail.trans hlast, if_pos hhead]
      refine ⟨_, rfl, ⟨hholds.congr fun e => mem_update_nil h.apart, fun q => ?_, fun q q' e hq hq' => ?_⟩,
        fun q => ?_, setNext_entry ..⟩
      · by_cases hqp : q = p
        · subst hqp
          rw [Function.update_self]
          refine ⟨?_, ?_, fun hnil => absurd rfl hnil, List.nodup_nil⟩
          · simp [PoolState.setOp]
          · simp [PoolState.setOp]
        · have hq := h.list q
          have ht : t ∉ lists q := fun hin => hqp (h.apart q p t hin hmem)
          rw [Function.update_of_ne hqp]
          refine ⟨?_, ?_, ?_, hq.nodup⟩
          · show Chain (x.pool.setNext t x.pool.freeListHead).next (Function.update x.ops p _ q).wakeUpHead (lists q)
            rw [setNext_next, Function.update_of_ne hqp]
            exact hq.chain.update ht _
          · show (Function.update x.ops p _ q).wakeUpTail = _
            rw [Function.update_of_ne hqp]
            exact hq.tail
          · show _ → (Function.update x.ops p _ q).wakeUpCount = _
            rw [Function.update_of_ne hqp]
            exact hq.count
      · have hin := (mem_update_nil h.apart).mp ⟨q, hq⟩
        have hqp : q ≠ p := fun heq => by
          rw [heq, Function.update_self] at hq
          cases hq
        have hqp' : q' ≠ p := fun heq => by
          rw [heq, Function.update_self] at hq'
          cases hq'
        rw [Function.update_of_ne hqp] at hq
        rw [Function.update_of_ne hqp'] at hq'
        exact h.apart q q' e hq hq'
      · show (Function.update x.ops p _ q).toOp = _
        by_cases hqp : q = p
        · rw [hqp, Function.update_self]
          rfl
        · rw [Function.update_of_ne hqp]

/-- The freed op has no list any more. -/
theorem PoolState.Conserved.freeOp (h : x.Conserved free lists) (p : OpPtr) :
    ∃ x', x.freeOp p = .ok x' ∧ x'.Conserved (lists p ++ free) (Function.update lists p []) ∧
      (∀ q, (x'.ops q).toOp = ((x.setOp p { x.ops p with valid := false }).ops q).toOp) ∧
      x'.pool.entry = x.pool.entry := by
  have hlists : (x.setOp p { x.ops p with valid := false }).Lists free lists :=
    h.toLists.frame rfl (sameList_setOp ⟨rfl, rfl, rfl⟩)
  obtain ⟨x', hfree, hafter, hops, hentry⟩ := hlists.freeWakeUpList p
  refine ⟨x', hfree, ⟨hafter, fun q hq => ?_⟩, hops, hentry⟩
  have hqp : q ≠ p := fun heq => hq (by rw [heq, Function.update_self])
  rw [Function.update_of_ne hqp] at hq
  rw [valid_of_toOp (hops q)]
  show (Function.update x.ops p _ q).valid = true
  rw [Function.update_of_ne hqp]
  exact h.live q hq

/-! ## Runs -/

theorem PoolState.Conserved.step {event : PoolEvent} (h : x.Conserved free lists)
    (hs : x.step obeyRegDep event = .ok x') : ∃ free' lists', x'.Conserved free' lists' := by
  cases event with
  | alloc p uniqueNum srcs =>
      obtain ⟨_, hs⟩ := Execution.ite_error_eq_ok.mp hs
      cases hs
      refine ⟨free, lists, h.toLists.frame rfl (sameList_setOp ⟨rfl, rfl, rfl⟩), fun q hq => ?_⟩
      show (Function.update x.ops p _ q).valid = true
      by_cases hqp : q = p
      · rw [hqp, Function.update_self]
      · rw [Function.update_of_ne hqp]
        exact h.live q hq
  | map p =>
      obtain ⟨_, hs⟩ := Execution.ite_error_eq_ok.mp hs
      exact h.linkSources hs
  | fire p type =>
      obtain ⟨_, hs⟩ := Execution.ite_error_eq_ok.mp hs
      exact ⟨free, lists, h.frame (wakeUpOps_frame hs)⟩
  | free p =>
      obtain ⟨_, hs⟩ := Execution.ite_error_eq_ok.mp hs
      obtain ⟨y, hy, hconserved, _⟩ := h.freeOp p
      obtain rfl : y = x' := Except.ok.inj (hy.symm.trans hs)
      exact ⟨_, _, hconserved⟩

/-- What must not go wrong with the pool: the assertions of the wake-up lists and a null pointer
where the free list is. -/
def poolAssertions : List String :=
  [allocationAssertion, "map_data->free_list_head", "src_op->wake_up_head", "op->wake_up_head"]

theorem PoolState.Conserved.step_error {event : PoolEvent} (h : x.Conserved free lists)
    (hs : x.step obeyRegDep event = .error msg) : msg ∉ poolAssertions ∧
      (msg = growthAssertion → ∃ p, event = .map p ∧
        wakeUpEntriesInc * 128 < x.pool.activeWakeUpEntries + (x.ops p).srcInfo.length) := by
  cases event with
  | alloc p uniqueNum srcs =>
      obtain ⟨_, hs⟩ | ⟨_, rfl⟩ := Execution.ite_error_eq_error.mp hs
      · cases hs
      · exact ⟨by decide, fun heq => absurd heq (by decide)⟩
  | map p =>
      obtain ⟨_, hs⟩ | ⟨_, rfl⟩ := Execution.ite_error_eq_error.mp hs
      · rcases h.linkSources_error hs with rfl | ⟨rfl, hfull⟩
        · exact ⟨by decide, fun heq => absurd heq (by decide)⟩
        · rw [List.length_zipIdx] at hfull
          exact ⟨by decide, fun _ => ⟨p, rfl, hfull⟩⟩
      · exact ⟨by decide, fun heq => absurd heq (by decide)⟩
  | fire p type =>
      obtain ⟨_, hs⟩ | ⟨_, rfl⟩ := Execution.ite_error_eq_error.mp hs
      · rcases wakeUpOps_error hs with rfl | rfl
        · exact ⟨by decide, fun heq => absurd heq (by decide)⟩
        · exact ⟨by decide, fun heq => absurd heq (by decide)⟩
      · exact ⟨by decide, fun heq => absurd heq (by decide)⟩
  | free p =>
      obtain ⟨_, hs⟩ | ⟨_, rfl⟩ := Execution.ite_error_eq_error.mp hs
      · obtain ⟨y, hy, _⟩ := h.freeOp p
        cases hy.symm.trans hs
      · exact ⟨by decide, fun heq => absurd heq (by decide)⟩

/-- At first there are no lists. -/
theorem init_conserved {x₀ : PoolState} (hinit : PoolState.init = .ok x₀) :
    ∃ free, x₀.Conserved free fun _ => [] := by
  obtain ⟨pool, hpool, rfl⟩ := Execution.map_eq_ok.mp hinit
  obtain ⟨hholds, _⟩ := Pool.empty_holds.expand hpool
  refine ⟨_, ⟨hholds.congr fun e => by simp, fun p => ?_, fun p q e he => by cases he⟩, fun p hp => absurd rfl hp⟩
  exact ⟨rfl, rfl, fun hnil => absurd rfl hnil, List.nodup_nil⟩

theorem PoolReachable.exists_conserved (h : PoolReachable obeyRegDep x) :
    ∃ free lists, x.Conserved free lists := by
  obtain ⟨x₀, events, hinit, hrun⟩ := h
  refine Execution.run_invariant (I := fun x : PoolState => ∃ free lists, x.Conserved free lists)
    (fun y event z hy hs => ?_) ?_ hrun
  · obtain ⟨free, lists, hy⟩ := hy
    exact hy.step hs
  · obtain ⟨free, hconserved⟩ := init_conserved hinit
    exact ⟨free, _, hconserved⟩

/-- Every entry that was created is in exactly one place, the free list or the list of one live op;
the counters say how many there are. The pool fails only where it would outgrow its limit. -/
theorem PoolReachable.entries_conserved (h : PoolReachable obeyRegDep x) :
    ∃ (free : List EntryPtr) (lists : OpPtr → List EntryPtr),
      (Chain x.pool.next x.pool.freeListHead free ∧ free.Nodup) ∧
      (∀ p, Chain x.pool.next (x.ops p).wakeUpHead (lists p) ∧ (lists p).Nodup ∧
        (lists p ≠ [] → (x.ops p).valid = true ∧ (x.ops p).wakeUpCount = (lists p).length)) ∧
      (∀ e, e < x.pool.created ↔
        (e ∈ free ∧ ∀ p, e ∉ lists p) ∨ (e ∉ free ∧ ∃! p, e ∈ lists p)) ∧
      x.pool.wakeUpEntries = x.pool.created ∧
      x.pool.activeWakeUpEntries + free.length = x.pool.wakeUpEntries ∧
      ∀ event msg, x.step obeyRegDep event = .error msg → msg ∉ poolAssertions ∧
        (msg = growthAssertion → ∃ p, event = .map p ∧
          wakeUpEntriesInc * 128 < x.pool.activeWakeUpEntries + (x.ops p).srcInfo.length) := by
  obtain ⟨free, lists, hx⟩ := h.exists_conserved
  refine ⟨free, lists, ⟨hx.pool.chain, hx.pool.nodup⟩, fun p => ?_, fun e => ?_, hx.pool.entries,
    hx.pool.active, fun event msg hs => hx.step_error hs⟩
  · have hp := hx.list p
    exact ⟨hp.chain, hp.nodup, fun hne => ⟨hx.live p hne, hp.count hne⟩⟩
  · rw [hx.pool.created e]
    constructor
    · rintro (hfree | ⟨p, hp⟩)
      · exact .inl ⟨hfree, fun p hp => hx.pool.apart e hfree ⟨p, hp⟩⟩
      · exact .inr ⟨fun hfree => hx.pool.apart e hfree ⟨p, hp⟩, p, hp, fun q hq => hx.apart q p e hq hp⟩
    · rintro (⟨hfree, _⟩ | ⟨_, p, hp, _⟩)
      · exact .inl hfree
      · exact .inr ⟨p, hp⟩

/-- Two consumers of one op, of which one has two sources, and a freed op that had a list. -/
theorem PoolReachable.entries_conserved_consumers :
    ∃ (x : PoolState) (free : List EntryPtr) (lists : OpPtr → List EntryPtr), PoolReachable true x ∧
      Chain x.pool.next x.pool.freeListHead free ∧ free.length = 254 ∧
      (x.ops 1).valid = true ∧ (lists 1).length = 2 := by
  have hrun : (fun x : PoolState => decide (x.pool.activeWakeUpEntries = 2 ∧ x.pool.wakeUpEntries = 256 ∧
      (x.ops 1).wakeUpHead ≠ none ∧ (x.ops 1).wakeUpCount = 2)) <$> (PoolState.init >>= fun x₀ =>
        Execution.run (PoolState.step true) x₀ [.alloc 0 1 [], .alloc 1 2 [⟨.regData, some 0, 1⟩],
          .alloc 2 3 [⟨.regData, some 0, 1⟩, ⟨.memData, some 1, 2⟩], .map 1, .map 2, .fire 0 .regData, .free 0,
          .alloc 0 4 [⟨.regData, some 1, 2⟩], .map 0]) = .ok true := by decide +kernel
  obtain ⟨x, hx, hobs⟩ := Execution.map_eq_ok.mp hrun
  obtain ⟨hactive, hentries, hhead, hcount⟩ := of_decide_eq_true hobs
  obtain ⟨x₀, hinit, hx⟩ := Execution.bind_eq_ok.mp hx
  have hreach : PoolReachable true x := ⟨x₀, _, hinit, hx⟩
  obtain ⟨free, lists, ⟨hfree, _⟩, hlists, _, _, hsum, _⟩ := PoolReachable.entries_conserved hreach
  obtain ⟨hchain, _, hone⟩ := hlists 1
  have hne : lists 1 ≠ [] := fun hnil => by
    rw [hnil] at hchain
    exact hhead hchain
  obtain ⟨hvalid, hlength⟩ := hone hne
  exact ⟨x, free, lists, hreach, hfree, by omega, hvalid, by omega⟩

end Scarab.WakeUp
