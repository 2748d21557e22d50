import Scarab.Libs.List.Operations

/-! # Counts and links over whole runs

Any number of lists share the memory. Their counts and links stay right as long as `current` is
in the list when an operation changes the list at it, and its place is known when the list is
clipped there. No entry is lost unless an operation takes one too many, or frees entries that
stay in the total count. -/

namespace Scarab.ListLib

open Linked

/-- The operations on a singly or a doubly linked list. -/
def Op.fits (doubly : Bool) : Op → Bool
  | .slAddTail | .slAddHead | .slAddAfterCurrent | .slRemoveHead => !doubly
  | .dlAddTail | .dlAddHead | .dlAddAfterCurrent | .dlRemoveHead | .dlRemoveTail | .dlRemoveCurrent => doubly
  | .clip | .clear | .startHead | .startTail | .next | .prev => true

/-- The entries from the head on. -/
def View.entries (v : View) : List ℕ := following v.heap.next v.list.count.toNat v.list.head

/-- The current element, if there is one, is in the list. -/
def View.CurrentLinked (v : View) : Prop := ∀ c ∈ v.list.current, c ∈ v.entries

/-- Where the list is clipped, its place is that of the current element. -/
def View.PlaceRight (v : View) : Prop :=
  ∀ c ∈ v.list.current, v.heap.next c ≠ none → v.list.place = v.entries.idxOf c

/-- The operation is one of the list's kind, and finds `current` and `place` as it needs them. -/
def View.InPlace (doubly : Bool) (v : View) (op : Op) : Prop :=
  op.fits doubly = true ∧
    match op with
    | .slAddAfterCurrent | .dlAddAfterCurrent | .dlRemoveCurrent => v.CurrentLinked
    | .clip => v.CurrentLinked ∧ v.PlaceRight
    | _ => True

/-- No entry is taken twice, and no entry is freed without being counted. -/
def View.Conserves (v : View) (op : Op) : Prop :=
  match op with
  | .slAddAfterCurrent | .dlAddAfterCurrent => v.list.current ≠ none
  | .clear => v.list.useFreeList = true ∨ v.list.tail = none
  | .clip => v.list.useFreeList = true ∨ ∀ c ∈ v.list.current, v.heap.next c = none
  | _ => True

instance (v : View) : Decidable v.CurrentLinked := inferInstanceAs (Decidable (∀ c ∈ v.list.current, _))

instance (v : View) : Decidable v.PlaceRight := inferInstanceAs (Decidable (∀ c ∈ v.list.current, _))

instance (doubly : Bool) (v : View) (op : Op) : Decidable (v.InPlace doubly op) := by
  unfold View.InPlace
  cases op <;> infer_instance

instance (v : View) (op : Op) : Decidable (v.Conserves op) := by
  unfold View.Conserves
  cases op <;> infer_instance

variable {ret : ℕ → Option ℕ} {d : Bool} {v v' : View} {l pool : List ℕ} {op : Op}

/-! ## One operation -/

theorem Holds.entries (hl : Holds d v l pool) (hcount : v.list.count = l.length) : v.entries = l := by
  rw [View.entries, hl.next.following, hcount, Int.toNat_natCast, List.take_length]

/-- Cutting the list at its current element. -/
theorem Holds.split {c : ℕ} (hl : Holds d v l pool) (hcount : v.list.count = l.length) (hlinked : v.CurrentLinked)
    (hcurrent : v.list.current = some c) : ∃ a b, l = a ++ c :: b ∧ v.entries.idxOf c = a.length := by
  have hmem := hlinked c hcurrent
  rw [hl.entries hcount] at hmem ⊢
  obtain ⟨a, b, rfl⟩ := List.append_of_mem hmem
  have hnodup := (List.nodup_append.mp hl.nodup).1
  have ha : c ∉ a := fun h => List.disjoint_of_nodup_append hnodup h List.mem_cons_self
  refine ⟨a, b, rfl, ?_⟩
  rw [List.idxOf_append_of_notMem ha, List.idxOf_cons_self, Nat.add_zero]

/-- What an operation does to the list it is called on. -/
theorem View.step_spec (hl : Holds d v l pool) (hcount : v.list.count = l.length) (hplace : v.InPlace d op)
    (hstep : v.step ret op = .ok v') : ∃ l' pool', Done (v.Conserves op) d v v' l pool l' pool' := by
  obtain ⟨hfits, hplace⟩ := hplace
  cases op with
  | slAddTail =>
      obtain rfl : d = false := by simpa [Op.fits] using hfits
      obtain ⟨⟨r, v₂⟩, h, rfl⟩ := Execution.map_eq_ok.mp hstep
      obtain ⟨p, pool', hdone⟩ := slListAddTail_spec hl hcount h
      exact ⟨_, pool', hdone.weaken fun _ => trivial⟩
  | dlAddTail =>
      obtain rfl : d = true := hfits
      obtain ⟨⟨r, v₂⟩, h, rfl⟩ := Execution.map_eq_ok.mp hstep
      obtain ⟨p, pool', hdone⟩ := dlListAddTail_spec hl hcount h
      exact ⟨_, pool', hdone.weaken fun _ => trivial⟩
  | slAddHead =>
      obtain rfl : d = false := by simpa [Op.fits] using hfits
      obtain ⟨⟨r, v₂⟩, h, rfl⟩ := Execution.map_eq_ok.mp hstep
      obtain ⟨p, pool', hdone⟩ := slListAddHead_spec hl hcount h
      exact ⟨_, pool', hdone.weaken fun _ => trivial⟩
  | dlAddHead =>
      obtain rfl : d = true := hfits
      obtain ⟨⟨r, v₂⟩, h, rfl⟩ := Execution.map_eq_ok.mp hstep
      obtain ⟨p, pool', hdone⟩ := dlListAddHead_spec hl hcount h
      exact ⟨_, pool', hdone.weaken fun _ => trivial⟩
  | slAddAfterCurrent =>
      obtain rfl : d = false := by simpa [Op.fits] using hfits
      obtain ⟨⟨r, v₂⟩, h, rfl⟩ := Execution.map_eq_ok.mp hstep
      cases hcurrent : v.list.current with
      | none =>
          obtain ⟨⟨temp, v₁⟩, hget, h⟩ := Execution.bind_eq_ok.mp h
          obtain ⟨pool₁, hgot⟩ := getListEntry_spec hl hget
          dsimp only at h
          rw [hgot.current.trans hcurrent] at h
          obtain ⟨p, pool', hdone⟩ := slListAddTail_spec hgot.linked (hgot.count.trans hcount) h
          exact ⟨_, pool', (hgot.lost hdone).weaken fun hkept => hkept hcurrent⟩
      | some c =>
          obtain ⟨a, b, rfl, _⟩ := hl.split hcount hplace hcurrent
          obtain ⟨p, pool', hdone⟩ := slListAddAfterCurrent_spec hl hcount hcurrent h
          exact ⟨_, pool', hdone.weaken fun _ => trivial⟩
  | dlAddAfterCurrent =>
      obtain rfl : d = true := hfits
      obtain ⟨⟨r, v₂⟩, h, rfl⟩ := Execution.map_eq_ok.mp hstep
      cases hcurrent : v.list.current with
      | none =>
          obtain ⟨⟨temp, v₁⟩, hget, h⟩ := Execution.bind_eq_ok.mp h
          obtain ⟨pool₁, hgot⟩ := getListEntry_spec hl hget
          dsimp only at h
          rw [hgot.current.trans hcurrent] at h
          obtain ⟨p, pool', hdone⟩ := dlListAddTail_spec hgot.linked (hgot.count.trans hcount) h
          exact ⟨_, pool', (hgot.lost hdone).weaken fun hkept => hkept hcurrent⟩
      | some c =>
          obtain ⟨a, b, rfl, _⟩ := hl.split hcount hplace hcurrent
          obtain ⟨p, pool', hdone⟩ := dlListAddAfterCurrent_spec hl hcount hcurrent h
          exact ⟨_, pool', hdone.weaken fun _ => trivial⟩
  | slRemoveHead =>
      obtain rfl : d = false := by simpa [Op.fits] using hfits
      obtain ⟨⟨r, v₂⟩, h, rfl⟩ := Execution.map_eq_ok.mp hstep
      obtain ⟨l', pool', hdone⟩ := slListRemoveHead_spec hl hcount h
      exact ⟨l', pool', hdone.weaken fun _ => trivial⟩
  | dlRemoveHead =>
      obtain rfl : d = true := hfits
      obtain ⟨⟨r, v₂⟩, h, rfl⟩ := Execution.map_eq_ok.mp hstep
      obtain ⟨l', pool', hdone⟩ := dlListRemoveHead_spec hl hcount h
      exact ⟨l', pool', hdone.weaken fun _ => trivial⟩
  | dlRemoveTail =>
      obtain rfl : d = true := hfits
      obtain ⟨⟨r, v₂⟩, h, rfl⟩ := Execution.map_eq_ok.mp hstep
      obtain ⟨l', pool', hdone⟩ := dlListRemoveTail_spec hl hcount h
      exact ⟨l', pool', hdone.weaken fun _ => trivial⟩
  | dlRemoveCurrent =>
      obtain rfl : d = true := hfits
      obtain ⟨⟨r, v₂⟩, h, rfl⟩ := Execution.map_eq_ok.mp hstep
      cases hcurrent : v.list.current with
      | none =>
          rw [dlListRemoveCurrent, hcurrent] at h
          cases h
      | some c =>
          obtain ⟨a, b, rfl, _⟩ := hl.split hcount hplace hcurrent
          obtain ⟨pool', hdone⟩ := dlListRemoveCurrent_spec hl hcount hcurrent h
          exact ⟨_, pool', hdone.weaken fun _ => trivial⟩
  | clip =>
      cases hcurrent : v.list.current with
      | none =>
          rw [View.step, clipListAtCurrent, hcurrent] at hstep
          cases hstep
      | some c =>
          obtain ⟨a, b, rfl, hidx⟩ := hl.split hcount hplace.1 hcurrent
          have hnext : v.heap.next c = b.head? := hl.next_eq
          have hright : b ≠ [] → v.list.place = a.length := by
            intro hb
            rw [hplace.2 c hcurrent (by rw [hnext]; simpa using hb), hidx]
          obtain ⟨pool', hdone⟩ := clipListAtCurrent_spec hl hcount hcurrent hright hstep
          refine ⟨_, pool', hdone.weaken fun hkept => hkept.imp_right fun hlast => ?_⟩
          have hnone := hlast c hcurrent
          rw [hnext] at hnone
          exact List.head?_eq_none_iff.mp hnone
  | clear => exact ⟨[], clearList_spec hl hcount hstep⟩
  | startHead =>
      cases hstep
      exact ⟨l, pool, Done.of_same hl hcount rfl ⟨_, _, rfl⟩⟩
  | startTail =>
      cases hstep
      exact ⟨l, pool, Done.of_same hl hcount rfl ⟨_, _, rfl⟩⟩
  | next =>
      cases hstep
      exact ⟨l, pool, Done.of_same hl hcount rfl ⟨_, _, rfl⟩⟩
  | prev =>
      cases hstep
      exact ⟨l, pool, Done.of_same hl hcount rfl ⟨_, _, rfl⟩⟩

/-! ## Runs -/

/-- The lists of a state and their free lists share no entry. -/
structure Books (doubly : ι → Bool) (s : State ι) (used free : ι → List ℕ) : Prop where
  holds : ∀ i, Holds (doubly i) (s.view i) (used i) (free i)
  count : ∀ i, (s.lists i).count = (used i).length
  disjoint : ∀ i j, i ≠ j → (used i ++ free i).Disjoint (used j ++ free j)

/-- The books are complete. -/
structure Balanced (s : State ι) (used free : ι → List ℕ) : Prop where
  accounts : ∀ i, Accounts (s.lists i) (used i).length (free i)
  covers : ∀ e, s.heap.allocated e = true → ∃ i, e ∈ used i ++ free i

/-- The other lists notice nothing. -/
theorem Holds.keeps {h' : Heap} {list : LinkedList} {own own' : List ℕ} {heap : Heap}
    (hl : Holds d ⟨heap, list⟩ l pool) (hkeeps : Keeps heap h' own own') (hdisj : (l ++ pool).Disjoint own) :
    Holds d ⟨h', list⟩ l pool ∧ (l ++ pool).Disjoint own' := by
  have hsame : ∀ e ∈ l ++ pool, h'.allocated e = true ∧ h'.next e = heap.next e ∧ h'.prev e = heap.prev e ∧
      e ∉ own' := fun e he => hkeeps e (hl.allocated e he) (hdisj he)
  refine ⟨⟨?_, hl.tail, fun hd => ?_, ?_, hl.nodup, fun e he => (hsame e he).1⟩, fun e he => (hsame e he).2.2.2⟩
  · exact hl.next.congr fun e he => (hsame e (List.mem_append_left _ he)).2.1
  · exact (hl.prev hd).congr fun e he => (hsame e (List.mem_append_left _ (List.mem_reverse.mp he))).2.2.1
  · exact hl.free.congr fun e he => (hsame e (List.mem_append_right _ he)).2.1

variable {doubly : ι → Bool} {s t : State ι} {used free : ι → List ℕ} {i : ι} {next prev : ℕ → Option ℕ}
  {uninitialized : ι → LinkedList} {useFreeList : ι → Bool}

theorem Books.init : Books doubly (State.init next prev uninitialized useFreeList) (fun _ => []) fun _ => [] :=
  ⟨fun _ => ⟨rfl, rfl, fun _ => rfl, rfl, List.nodup_nil, by simp⟩, fun _ => rfl, fun _ _ _ => by simp⟩

theorem Balanced.init : Balanced (State.init next prev uninitialized useFreeList) (fun _ => []) fun _ => [] :=
  ⟨fun _ => ⟨rfl, rfl⟩, fun e he => by cases he⟩

variable [DecidableEq ι]

/-- The operation on one list in the books of all of them. -/
theorem Books.step (hbooks : Books doubly s used free) (hplace : (s.view i).InPlace (doubly i) op)
    (hstep : s.step ret (i, op) = .ok t) :
    ∃ used' free', Books doubly t used' free' ∧
      ((s.view i).Conserves op → Balanced s used free → Balanced t used' free') := by
  obtain ⟨v', hview, hstep⟩ := Execution.bind_eq_ok.mp hstep
  cases hstep
  obtain ⟨l', pool', hdone⟩ := View.step_spec (hbooks.holds i) (hbooks.count i) hplace hview
  have hother : ∀ j, j ≠ i → Holds (doubly j) ⟨v'.heap, s.lists j⟩ (used j) (free j) ∧
      (used j ++ free j).Disjoint (l' ++ pool') :=
    fun j hj => (hbooks.holds j).keeps hdone.keeps (hbooks.disjoint j i hj)
  refine ⟨Function.update used i l', Function.update free i pool', ⟨fun j => ?_, fun j => ?_, fun j k hjk => ?_⟩,
    fun hconserves hbal => ⟨fun j => ?_, fun e he => ?_⟩⟩
  · by_cases hj : j = i
    · subst hj
      simpa [State.view] using hdone.linked
    · simpa [State.view, hj] using (hother j hj).1
  · by_cases hj : j = i
    · subst hj
      simpa using hdone.count
    · simpa [hj] using hbooks.count j
  · by_cases hj : j = i
    · subst hj
      intro e he hmem
      exact (hother k (Ne.symm hjk)).2 (by simpa [Ne.symm hjk] using hmem) (by simpa using he)
    · by_cases hk : k = i
      · subst hk
        simpa [hj] using (hother j hj).2
      · simpa [hj, hk] using hbooks.disjoint j k hjk
  · by_cases hj : j = i
    · subst hj
      simpa using hdone.accounts hconserves (hbal.accounts j)
    · simpa [hj] using hbal.accounts j
  · cases hdone.covers hconserves e he with
    | inl hmem => exact ⟨i, by simpa using hmem⟩
    | inr hold =>
        obtain ⟨j, hj⟩ := hbal.covers e hold.1
        have hji : j ≠ i := by
          rintro rfl
          exact hold.2 hj
        exact ⟨j, by simpa [hji] using hj⟩

/-- The count is that of the entries linked from head to tail, and the links back, which only a
doubly linked list has, are those forth turned round. -/
def View.Consistent (doubly : Bool) (v : View) : Prop :=
  ∃ l, Chain v.heap.next v.list.head l ∧ v.list.tail = l.getLast? ∧ l.Nodup ∧ v.list.count = l.length ∧
    (doubly = true → Chain v.heap.prev v.list.tail l.reverse)

/-- What `verify_list_counts` checks holds of every list, and every entry that is allocated is in
exactly one of the lists and free lists, once. -/
def State.Accounted (s : State ι) : Prop :=
  ∃ used free : ι → List ℕ,
    (∀ i, Chain s.heap.next (s.lists i).head (used i) ∧ Chain s.heap.next (s.lists i).free (free i) ∧
      verifyListCounts (s.lists i) (used i).length (free i).length = true) ∧
    (∀ i, (used i ++ free i).Nodup) ∧ (∀ i j, i ≠ j → (used i ++ free i).Disjoint (used j ++ free j)) ∧
    ∀ e, s.heap.allocated e = true ↔ ∃ i, e ∈ used i ++ free i

/-- The steps that use `current` and `place` as the list has them. -/
def State.InPlace (s : State ι) (doubly : ι → Bool) (op : ι × Op) : Prop :=
  (s.view op.1).InPlace (doubly op.1) op.2

def State.Conserves (s : State ι) (op : ι × Op) : Prop := (s.view op.1).Conserves op.2

instance (doubly : ι → Bool) (s : State ι) (op : ι × Op) : Decidable (s.InPlace doubly op) :=
  inferInstanceAs (Decidable (View.InPlace ..))

instance (s : State ι) (op : ι × Op) : Decidable (s.Conserves op) :=
  inferInstanceAs (Decidable (View.Conserves ..))

/-- The books are kept in every run. -/
theorem Books.of_run (doubly : ι → Bool) {ops : List (ι × Op)}
    (hplace : Execution.Along (State.step ret) (fun s op => s.InPlace doubly op)
      (State.init next prev uninitialized useFreeList) ops)
    (hrun : Execution.run (State.step ret) (State.init next prev uninitialized useFreeList) ops = .ok s) :
    ∃ used free, Books doubly s used free :=
  Execution.run_invariant_along (I := fun s => ∃ used free, Books doubly s used free)
    (fun m op n hm hop hstep => by
      obtain ⟨used, free, hbooks⟩ := hm
      obtain ⟨used', free', hbooks', _⟩ := hbooks.step hop hstep
      exact ⟨used', free', hbooks'⟩)
    ⟨_, _, Books.init⟩ hplace hrun

theorem list_consistent (doubly : ι → Bool) {ops : List (ι × Op)} (hplace : Execution.Along (State.step ret) (fun s op => s.InPlace doubly op)
      (State.init next prev uninitialized useFreeList) ops)
    (hrun : Execution.run (State.step ret) (State.init next prev uninitialized useFreeList) ops = .ok s) (i : ι) :
    (s.view i).Consistent (doubly i) := by
  obtain ⟨used, free, hbooks⟩ := Books.of_run doubly hplace hrun
  have hl := hbooks.holds i
  exact ⟨used i, hl.next, hl.tail, (List.nodup_append.mp hl.nodup).1, hbooks.count i, hl.prev⟩

/-- Two lists, one of which is clipped at the second of its three entries. -/
theorem list_consistent_clipped :
    ∃ s, Execution.run (State.step fun n => some (8 * n))
        (State.init (fun _ => none) (fun _ => none) (fun _ => ⟨none, none, none, none, 0, 0, false, 0, 0⟩) id)
        [(true, .dlAddTail), (false, .dlAddHead), (true, .dlAddTail), (true, .dlAddTail), (true, .startHead),
          (true, .next), (true, .clip)] = .ok s ∧
      (s.view true).Consistent true ∧ (s.lists true).count = 2 := by
  have hobs : (fun s => (s.lists true).count) <$> Execution.run (State.step fun n => some (8 * n))
        (State.init (fun _ => none) (fun _ => none) (fun _ => ⟨none, none, none, none, 0, 0, false, 0, 0⟩) id)
        [(true, .dlAddTail), (false, .dlAddHead), (true, .dlAddTail), (true, .dlAddTail), (true, .startHead),
          (true, .next), (true, .clip)] = .ok 2 := by decide +kernel
  obtain ⟨s, hrun, hcount⟩ := Execution.map_eq_ok.mp hobs
  refine ⟨s, hrun, list_consistent (fun _ => true) ?_ hrun true, hcount⟩
  decide +kernel

/-- The second of three entries is removed at a traversal, which goes back to the first one
without its place; clipping the list there leaves a count of 2. -/
theorem list_inconsistent_after_remove :
    ∃ s, Execution.run (State.step fun n => some (8 * n))
        (State.init (fun _ => none) (fun _ => none) (fun _ => ⟨none, none, none, none, 0, 0, false, 0, 0⟩)
          fun _ : Unit => true)
        [((), .dlAddTail), ((), .dlAddTail), ((), .dlAddTail), ((), .startHead), ((), .next),
          ((), .dlRemoveCurrent), ((), .clip)] = .ok s ∧
      ¬ (s.view ()).Consistent true := by
  have hobs : (fun s => ((s.lists ()).count, (s.lists ()).head, s.heap.next 0)) <$>
      Execution.run (State.step fun n => some (8 * n))
        (State.init (fun _ => none) (fun _ => none) (fun _ => ⟨none, none, none, none, 0, 0, false, 0, 0⟩)
          fun _ : Unit => true)
        [((), .dlAddTail), ((), .dlAddTail), ((), .dlAddTail), ((), .startHead), ((), .next),
          ((), .dlRemoveCurrent), ((), .clip)] = .ok (2, some 0, none) := by decide +kernel
  obtain ⟨s, hrun, hcount⟩ := Execution.map_eq_ok.mp hobs
  simp only [Prod.mk.injEq] at hcount
  obtain ⟨hcount, hhead, hnext⟩ := hcount
  refine ⟨s, hrun, ?_⟩
  rintro ⟨l, hchain, _, _, hlen, _⟩
  have hone : Chain s.heap.next (s.lists ()).head [0] := ⟨hhead, hnext⟩
  rw [hchain.unique hone] at hlen
  cases hcount.symm.trans hlen

theorem lists_accounted (doubly : ι → Bool) {ops : List (ι × Op)} (hplace : Execution.Along (State.step ret)
      (fun s op => s.InPlace doubly op ∧ s.Conserves op)
      (State.init next prev uninitialized useFreeList) ops)
    (hrun : Execution.run (State.step ret) (State.init next prev uninitialized useFreeList) ops = .ok s) :
    s.Accounted := by
  have hinv : ∃ used free, Books doubly s used free ∧ Balanced s used free :=
    Execution.run_invariant_along (I := fun s => ∃ used free, Books doubly s used free ∧ Balanced s used free)
      (fun m op n hm hop hstep => by
        obtain ⟨used, free, hbooks, hbal⟩ := hm
        obtain ⟨used', free', hbooks', hbal'⟩ := hbooks.step hop.1 hstep
        exact ⟨used', free', hbooks', hbal' hop.2 hbal⟩)
      ⟨_, _, Books.init, Balanced.init⟩ hplace hrun
  obtain ⟨used, free, hbooks, hbal⟩ := hinv
  refine ⟨used, free, fun i => ⟨(hbooks.holds i).next, (hbooks.holds i).free, ?_⟩, fun i => (hbooks.holds i).nodup,
    hbooks.disjoint, fun e => ⟨hbal.covers e, fun he => ?_⟩⟩
  · have hcount := hbooks.count i
    have hfree := (hbal.accounts i).freeCount
    have htotal := (hbal.accounts i).totalCount
    simp only [verifyListCounts, decide_eq_true_eq]
    omega
  · obtain ⟨i, hi⟩ := he
    exact (hbooks.holds i).allocated e hi

/-- A list that keeps its entries and one that frees them; both are cleared. -/
theorem lists_accounted_cleared :
    ∃ s, Execution.run (State.step fun n => some (8 * n))
        (State.init (fun _ => none) (fun _ => none) (fun _ => ⟨none, none, none, none, 0, 0, false, 0, 0⟩) id)
        [(true, .slAddTail), (false, .dlAddHead), (true, .startHead), (true, .slAddAfterCurrent),
          (false, .dlRemoveTail), (false, .clear), (true, .clear)] = .ok s ∧
      s.Accounted ∧ (s.lists true).freeCount = 8 ∧ (s.lists false).totalCount = 0 := by
  have hobs : (fun s => ((s.lists true).freeCount, (s.lists false).totalCount)) <$>
      Execution.run (State.step fun n => some (8 * n))
        (State.init (fun _ => none) (fun _ => none) (fun _ => ⟨none, none, none, none, 0, 0, false, 0, 0⟩) id)
        [(true, .slAddTail), (false, .dlAddHead), (true, .startHead), (true, .slAddAfterCurrent),
          (false, .dlRemoveTail), (false, .clear), (true, .clear)] = .ok (8, 0) := by decide +kernel
  obtain ⟨s, hrun, hcounts⟩ := Execution.map_eq_ok.mp hobs
  simp only [Prod.mk.injEq] at hcounts
  refine ⟨s, hrun, lists_accounted (fun i => !i) ?_ hrun, hcounts⟩
  decide +kernel

/-- A list that keeps its entries, and is added to after no current element; and a list that frees
its entries, and is cleared with one in it. -/
theorem lists_unaccounted :
    (∃ s, Execution.run (State.step fun n => some (8 * n))
        (State.init (fun _ => none) (fun _ => none) (fun _ => ⟨none, none, none, none, 0, 0, false, 0, 0⟩)
          fun _ : Unit => true) [((), .dlAddAfterCurrent)] = .ok s ∧
      (s.lists ()).count + (s.lists ()).freeCount ≠ (s.lists ()).totalCount ∧ ¬ s.Accounted) ∧
    ∃ s, Execution.run (State.step fun n => some (8 * n))
        (State.init (fun _ => none) (fun _ => none) (fun _ => ⟨none, none, none, none, 0, 0, false, 0, 0⟩)
          fun _ : Unit => false) [((), .dlAddTail), ((), .clear)] = .ok s ∧
      (s.lists ()).count + (s.lists ()).freeCount ≠ (s.lists ()).totalCount ∧ ¬ s.Accounted := by
  have hnot : ∀ s : State Unit, (s.lists ()).count + (s.lists ()).freeCount ≠ (s.lists ()).totalCount →
      ¬ s.Accounted := by
    rintro s hne ⟨used, free, hlists, _⟩
    have hverify := (hlists ()).2.2
    simp only [verifyListCounts, decide_eq_true_eq] at hverify
    exact hne hverify.1
  have hadd : (fun s => ((s.lists ()).count, (s.lists ()).freeCount, (s.lists ()).totalCount)) <$>
      Execution.run (State.step fun n => some (8 * n))
        (State.init (fun _ => none) (fun _ => none) (fun _ => ⟨none, none, none, none, 0, 0, false, 0, 0⟩)
          fun _ : Unit => true) [((), .dlAddAfterCurrent)] = .ok (1, 6, 8) := by decide +kernel
  have hclear : (fun s => ((s.lists ()).count, (s.lists ()).freeCount, (s.lists ()).totalCount)) <$>
      Execution.run (State.step fun n => some (8 * n))
        (State.init (fun _ => none) (fun _ => none) (fun _ => ⟨none, none, none, none, 0, 0, false, 0, 0⟩)
          fun _ : Unit => false) [((), .dlAddTail), ((), .clear)] = .ok (0, 0, 1) := by decide +kernel
  obtain ⟨s, hrun, hcounts⟩ := Execution.map_eq_ok.mp hadd
  obtain ⟨t, hrun', hcounts'⟩ := Execution.map_eq_ok.mp hclear
  simp only [Prod.mk.injEq] at hcounts hcounts'
  have hs : (s.lists ()).count + (s.lists ()).freeCount ≠ (s.lists ()).totalCount := by omega
  have ht : (t.lists ()).count + (t.lists ()).freeCount ≠ (t.lists ()).totalCount := by omega
  exact ⟨⟨s, hrun, hs, hnot s hs⟩, ⟨t, hrun', ht, hnot t ht⟩⟩

end Scarab.ListLib
