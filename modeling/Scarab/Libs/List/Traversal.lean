import Scarab.Lib.Loop
import Scarab.Libs.List.Accounting

/-! # Traversals that remove

A traversal goes from an end of the list to the other, and its body may remove the element it is at. -/

namespace Scarab.ListLib

/-! ## The traversals -/

/-- A turn of `for(elt = ..; elt; elt = advance(list))`, which notes the element. Its body removes
the element or leaves the list as it is. -/
def traverseTurn (advance : View → View) (remove : ℕ → Bool) :
    List ℕ × View → Except String ((List ℕ × View) ⊕ (List ℕ × View))
  | (visited, v) =>
      match v.list.current with
      | none => .ok (.inr (visited, v))
      | some elt => do
          let v ← if remove elt then Prod.snd <$> dlListRemoveCurrent v else .ok v
          return .inl (visited ++ [elt], advance v)

/-- From the head with `list_next_element`. -/
def traverseForward (remove : ℕ → Bool) (v : View) (fuel : ℕ) : Except String (Option (List ℕ × View)) :=
  Loop.loop (traverseTurn listNextElement remove) fuel ([], listStartHeadTraversal v)

/-- From the tail with `list_prev_element`. -/
def traverseBackward (remove : ℕ → Bool) (v : View) (fuel : ℕ) : Except String (Option (List ℕ × View)) :=
  Loop.loop (traverseTurn listPrevElement remove) fuel ([], listStartTailTraversal v)

variable {v v' : View} {a b l pool visited : List ℕ} {c : ℕ} {remove : ℕ → Bool} {advance : View → View}

/-! ## One turn -/

theorem freeListEntry_ok (halloc : v.heap.allocated c = true) :
    ∃ v', freeListEntry v c = .ok v' ∧ v'.list.current = v.list.current := by
  unfold freeListEntry
  by_cases huse : v.list.useFreeList = true
  · rw [if_pos huse]
    exact ⟨_, rfl, rfl⟩
  · rw [if_neg huse, Heap.free, if_pos halloc]
    exact ⟨_, rfl, rfl⟩

/-- After the removal the element before is the current one; for the first one there is none. -/
theorem dlListRemoveCurrent_ok (hl : Holds true v (a ++ c :: b) pool) (hcurrent : v.list.current = some c) :
    ∃ v', dlListRemoveCurrent v = .ok (some c, v') ∧ v'.list.current = a.getLast? := by
  have hnext : v.heap.next c = b.head? := hl.next_eq
  have hprev : v.heap.prev c = a.getLast? := hl.prev_eq
  have halloc : v.heap.allocated c = true := hl.allocated c (by simp)
  unfold dlListRemoveCurrent
  simp only [hcurrent, hnext, hprev]
  cases b with
  | nil =>
      have htail : v.list.tail = some c := hl.tail.trans List.getLast?_concat
      cases hlast : a.getLast? with
      | none =>
          obtain rfl := List.getLast?_eq_none_iff.mp hlast
          have hhead : v.list.head = some c := hl.head
          simp only [List.head?_nil, if_pos hhead, if_pos htail]
          obtain ⟨v', hfree, hcurrent'⟩ :=
            @freeListEntry_ok { v with list.head := none, list.tail := none, list.current := none } c halloc
          refine ⟨v', ?_, hcurrent'⟩
          exact Execution.bind_eq_ok.mpr ⟨_, rfl, Execution.bind_eq_ok.mpr ⟨v', hfree, rfl⟩⟩
      | some prev =>
          simp only [List.head?_nil, if_pos htail]
          obtain ⟨v', hfree, hcurrent'⟩ :=
            @freeListEntry_ok (View.setNext { v with list.tail := some prev, list.current := some prev } prev none) c halloc
          refine ⟨v', ?_, hcurrent'⟩
          exact Execution.bind_eq_ok.mpr ⟨_, rfl, Execution.bind_eq_ok.mpr ⟨v', hfree, rfl⟩⟩
  | cons next b =>
      cases hlast : a.getLast? with
      | none =>
          obtain rfl := List.getLast?_eq_none_iff.mp hlast
          have hhead : v.list.head = some c := hl.head
          simp only [List.head?_cons, if_pos hhead]
          obtain ⟨v', hfree, hcurrent'⟩ :=
            @freeListEntry_ok { View.setPrev { v with list.head := some next } next none with list.current := none } c halloc
          refine ⟨v', ?_, hcurrent'⟩
          exact Execution.bind_eq_ok.mpr ⟨_, rfl, Execution.bind_eq_ok.mpr ⟨v', hfree, rfl⟩⟩
      | some prev =>
          simp only [List.head?_cons]
          obtain ⟨v', hfree, hcurrent'⟩ :=
            @freeListEntry_ok { (v.setPrev next (some prev)).setNext prev (some next) with list.current := some prev } c halloc
          refine ⟨v', ?_, hcurrent'⟩
          exact Execution.bind_eq_ok.mpr ⟨_, rfl, Execution.bind_eq_ok.mpr ⟨v', hfree, rfl⟩⟩

/-- The list goes through `l` and its count is right. -/
def View.Through (v : View) (l : List ℕ) : Prop := ∃ pool, Holds true v l pool ∧ v.list.count = l.length

theorem View.Through.head (h : v.Through l) : v.list.head = l.head? := by
  obtain ⟨pool, hl, -⟩ := h
  exact hl.head

theorem View.Through.tail (h : v.Through l) : v.list.tail = l.getLast? := by
  obtain ⟨pool, hl, -⟩ := h
  exact hl.tail

theorem View.Through.next (h : v.Through (a ++ c :: b)) : v.heap.next c = b.head? := by
  obtain ⟨pool, hl, -⟩ := h
  exact hl.next_eq

theorem View.Through.prev (h : v.Through (a ++ c :: b)) : v.heap.prev c = a.getLast? := by
  obtain ⟨pool, hl, -⟩ := h
  exact hl.prev_eq

/-- Moving the current element leaves the list as it is. -/
theorem View.Through.of_same (h : v.Through l) (hheap : v'.heap = v.heap)
    (hlist : ∃ current place, v'.list = { v.list with current, place }) : v'.Through l := by
  obtain ⟨pool, hl, hcount⟩ := h
  have hdone : Done True true v v' l pool l pool := Done.of_same hl hcount hheap hlist
  exact ⟨pool, hdone.linked, hdone.count⟩

theorem View.Through.taken (h : v.Through (a ++ c :: b)) (hcurrent : v.list.current = some c) :
    ∃ v', dlListRemoveCurrent v = .ok (some c, v') ∧ v'.Through (a ++ b) ∧ v'.list.current = a.getLast? := by
  obtain ⟨pool, hl, hcount⟩ := h
  obtain ⟨v', hremove, hcurrent'⟩ := dlListRemoveCurrent_ok hl hcurrent
  obtain ⟨pool', hdone⟩ := dlListRemoveCurrent_spec hl hcount hcurrent hremove
  exact ⟨v', hremove, ⟨pool', hdone.linked, hdone.count⟩, hcurrent'⟩

/-- Every doubly linked list of a run goes through its entries. -/
theorem View.Through.of_run {ι : Type} [DecidableEq ι] {ret next prev : ℕ → Option ℕ} {uninitialized : ι → LinkedList}
    {useFreeList : ι → Bool} {s : State ι} (doubly : ι → Bool) {ops : List (ι × Op)}
    (hplace : Execution.Along (State.step ret) (fun s op => s.InPlace doubly op)
      (State.init next prev uninitialized useFreeList) ops)
    (hrun : Execution.run (State.step ret) (State.init next prev uninitialized useFreeList) ops = .ok s) {i : ι}
    (hi : doubly i = true) : (s.view i).Through (s.view i).entries := by
  obtain ⟨used, free, hbooks⟩ := Books.of_run doubly hplace hrun
  have hl := hbooks.holds i
  rw [hi] at hl
  rw [hl.entries (hbooks.count i)]
  exact ⟨free i, hl, hbooks.count i⟩

theorem traverseTurn_end (hcurrent : v.list.current = none) :
    traverseTurn advance remove (visited, v) = .ok (.inr (visited, v)) := by
  unfold traverseTurn
  simp only [hcurrent]

theorem traverseTurn_keep (hcurrent : v.list.current = some c) (hkeep : remove c = false) :
    traverseTurn advance remove (visited, v) = .ok (.inl (visited ++ [c], advance v)) := by
  unfold traverseTurn
  simp only [hcurrent, hkeep]
  rfl

theorem traverseTurn_remove {r : Option ℕ} (hcurrent : v.list.current = some c) (hremove : remove c = true)
    (hdone : dlListRemoveCurrent v = .ok (r, v')) :
    traverseTurn advance remove (visited, v) = .ok (.inl (visited ++ [c], advance v')) := by
  unfold traverseTurn
  simp only [hcurrent, hremove, hdone]
  rfl

/-! ## Forward -/

/-- From the first of the elements to come on, after others have been kept. -/
theorem forward_returns {kept rest : List ℕ} (h : v.Through (kept ++ rest)) (hcurrent : v.list.current = rest.head?) :
    ∃ v', Loop.Returns (fun fuel => Loop.loop (traverseTurn listNextElement remove) fuel (visited, v)) (visited ++ rest, v') ∧
      v'.Through (kept ++ rest.filter fun elt => !remove elt) := by
  induction rest generalizing v kept visited with
  | nil =>
      rw [List.append_nil]
      exact ⟨v, Loop.returns_of_end (traverseTurn_end hcurrent), h⟩
  | cons elt rest ih =>
      cases hremove : remove elt with
      | false =>
          have hnext : (listNextElement v).list.current = rest.head? := by
            unfold listNextElement
            rw [hcurrent]
            exact h.next
          have hlinked : (listNextElement v).Through (kept ++ [elt] ++ rest) := by
            rw [List.append_assoc]
            exact h.of_same rfl ⟨_, _, rfl⟩
          obtain ⟨v', hreturns, hend⟩ := @ih _ (visited ++ [elt]) _ hlinked hnext
          rw [List.append_assoc] at hreturns hend
          refine ⟨v', Loop.returns_of_turn (traverseTurn_keep hcurrent hremove) hreturns, ?_⟩
          rw [List.filter_cons_of_pos (by rw [hremove]; rfl)]
          exact hend
      | true =>
          obtain ⟨v₁, hdone, hlinked, hback⟩ := h.taken hcurrent
          have hnext : (listNextElement v₁).list.current = rest.head? := by
            unfold listNextElement
            rw [hback]
            -- the step after the removal starts at the head if nothing was kept
            rcases List.eq_nil_or_concat kept with rfl | ⟨before, last, rfl⟩
            · exact hlinked.head
            · rw [List.concat_eq_append, List.append_assoc] at hlinked
              rw [List.concat_eq_append, List.getLast?_concat]
              exact hlinked.next
          have hlinked' : (listNextElement v₁).Through (kept ++ rest) := hlinked.of_same rfl ⟨_, _, rfl⟩
          obtain ⟨v', hreturns, hend⟩ := @ih _ (visited ++ [elt]) _ hlinked' hnext
          rw [List.append_assoc] at hreturns
          refine ⟨v', Loop.returns_of_turn (traverseTurn_remove hcurrent hremove hdone) hreturns, ?_⟩
          rw [List.filter_cons_of_neg (by rw [hremove]; decide)]
          exact hend

/-- A forward traversal visits the elements of the list in order, whichever of them it removes, and
leaves the others. -/
theorem traverseForward_visits (remove : ℕ → Bool) (h : v.Through l) :
    ∃ v', Loop.Returns (traverseForward remove v) (l, v') ∧ v'.Through (l.filter fun elt => !remove elt) := by
  have hstart : (listStartHeadTraversal v).Through ([] ++ l) := h.of_same rfl ⟨_, _, rfl⟩
  exact @forward_returns _ [] remove [] l hstart h.head

/-- Three entries, all of which are removed. -/
theorem traverseForward_visits_all_removed :
    ∃ s v', Execution.run (State.step fun n => some (8 * n))
        (State.init (fun _ => none) (fun _ => none) (fun _ => ⟨none, none, none, none, 0, 0, false, 0, 0⟩)
          fun _ : Unit => true) [((), .dlAddTail), ((), .dlAddTail), ((), .dlAddTail)] = .ok s ∧
      Loop.Returns (traverseForward (fun _ => true) (s.view ())) ([0, 1, 2], v') ∧ v'.Through [] := by
  have hobs : (fun s => (s.view ()).entries) <$> Execution.run (State.step fun n => some (8 * n))
      (State.init (fun _ => none) (fun _ => none) (fun _ => ⟨none, none, none, none, 0, 0, false, 0, 0⟩)
        fun _ : Unit => true) [((), .dlAddTail), ((), .dlAddTail), ((), .dlAddTail)] = .ok [0, 1, 2] := by decide +kernel
  obtain ⟨s, hrun, hentries⟩ := Execution.map_eq_ok.mp hobs
  have hthrough : (s.view ()).Through (s.view ()).entries := .of_run (fun _ => true) (by decide +kernel) hrun rfl
  rw [hentries] at hthrough
  obtain ⟨v', hreturns, hend⟩ := traverseForward_visits (fun _ => true) hthrough
  exact ⟨s, v', hrun, hreturns, hend⟩

/-! ## Backward -/

/-- What has been visited stays visited. -/
theorem traverse_prefix {out : List ℕ × View}
    (h : Loop.Returns (fun fuel => Loop.loop (traverseTurn advance remove) fuel (visited, v)) out) : visited <+: out.1 := by
  refine h.invariant (I := fun s => visited <+: s.1) (Q := fun out => visited <+: out.1) ?_ ?_ List.prefix_rfl
  · rintro ⟨visited', v⟩ t hprefix hturn
    unfold traverseTurn at hturn
    cases hcurrent : v.list.current with
    | none =>
        simp only [hcurrent] at hturn
        cases hturn
    | some elt =>
        simp only [hcurrent] at hturn
        split at hturn
        · obtain ⟨v', -, hturn⟩ := Execution.bind_eq_ok.mp hturn
          cases hturn
          exact hprefix.trans (List.prefix_append _ _)
        · obtain ⟨v', -, hturn⟩ := Execution.bind_eq_ok.mp hturn
          cases hturn
          exact hprefix.trans (List.prefix_append _ _)
  · rintro ⟨visited', v⟩ out hprefix hturn
    unfold traverseTurn at hturn
    cases hcurrent : v.list.current with
    | none =>
        simp only [hcurrent] at hturn
        cases hturn
        exact hprefix
    | some elt =>
        simp only [hcurrent] at hturn
        split at hturn
        · obtain ⟨v', -, hturn⟩ := Execution.bind_eq_ok.mp hturn
          cases hturn
        · obtain ⟨v', -, hturn⟩ := Execution.bind_eq_ok.mp hturn
          cases hturn

/-- The step back from an element that was kept. -/
theorem View.Through.stepBack (h : v.Through (a ++ c :: b)) (hcurrent : v.list.current = some c) :
    (listPrevElement v).Through (a ++ c :: b) ∧ (listPrevElement v).list.current = a.getLast? := by
  refine ⟨h.of_same rfl ⟨_, _, rfl⟩, ?_⟩
  unfold listPrevElement
  rw [hcurrent]
  exact h.prev

/-- While the elements are kept, the traversal goes back over them. -/
theorem backward_kept (hkept : ∀ elt ∈ b, remove elt = false) {after : List ℕ} (h : v.Through (a ++ b ++ after))
    (hcurrent : v.list.current = (a ++ b).getLast?) :
    ∃ v', v'.Through (a ++ b ++ after) ∧ v'.list.current = a.getLast? ∧
      ∀ out, Loop.Returns (fun fuel => Loop.loop (traverseTurn listPrevElement remove) fuel (visited, v)) out ↔
        Loop.Returns (fun fuel => Loop.loop (traverseTurn listPrevElement remove) fuel (visited ++ b.reverse, v')) out := by
  induction b using List.reverseRecOn generalizing v visited after with
  | nil =>
      refine ⟨v, h, by rwa [List.append_nil] at hcurrent, fun out => ?_⟩
      rw [List.reverse_nil, List.append_nil]
  | append_singleton b elt ih =>
      rw [← List.append_assoc, List.getLast?_concat] at hcurrent
      have hlist : a ++ (b ++ [elt]) ++ after = a ++ b ++ elt :: after := by simp
      rw [hlist] at h ⊢
      obtain ⟨hlinked, hback⟩ := h.stepBack hcurrent
      obtain ⟨v', hend, hcurrent', hiff⟩ := @ih _ (visited ++ [elt])
        (fun x hx => hkept x (List.mem_append_left _ hx)) _ hlinked hback
      refine ⟨v', hend, hcurrent', fun out => ?_⟩
      have hkeep := hkept elt (List.mem_append_right _ List.mem_cons_self)
      rw [Loop.returns_turn_iff (traverseTurn_keep hcurrent hkeep), hiff out, List.reverse_append, List.append_assoc]
      rfl

/-- After a removal the traversal goes on with the element before the one before, or, if there is
none before, with the last one again. -/
theorem backward_removed (h : v.Through (a ++ c :: b)) (hcurrent : v.list.current = some c) (hremove : remove c = true) :
    ∃ v', v'.Through (a ++ b) ∧
      v'.list.current = (if a = [] then b.getLast? else a.dropLast.getLast?) ∧
      ∀ out, Loop.Returns (fun fuel => Loop.loop (traverseTurn listPrevElement remove) fuel (visited, v)) out ↔
        Loop.Returns (fun fuel => Loop.loop (traverseTurn listPrevElement remove) fuel (visited ++ [c], v')) out := by
  obtain ⟨v₁, hdone, hlinked, hback⟩ := h.taken hcurrent
  refine ⟨listPrevElement v₁, hlinked.of_same rfl ⟨_, _, rfl⟩, ?_, fun out =>
    Loop.returns_turn_iff (traverseTurn_remove hcurrent hremove hdone)⟩
  unfold listPrevElement
  rw [hback]
  rcases List.eq_nil_or_concat a with rfl | ⟨before, last, rfl⟩
  · exact hlinked.tail
  · rw [List.concat_eq_append, List.append_assoc] at hlinked
    rw [List.concat_eq_append, List.getLast?_concat, if_neg (by simp), List.dropLast_concat]
    exact hlinked.prev

/-- The current element is visited next. -/
theorem traverse_next {out : List ℕ × View} (hcurrent : v.list.current = some c)
    (h : Loop.Returns (fun fuel => Loop.loop (traverseTurn advance remove) fuel (visited, v)) out) :
    visited ++ [c] <+: out.1 := by
  have hturn : ∃ v', traverseTurn advance remove (visited, v) = .ok (.inl (visited ++ [c], v')) := by
    obtain ⟨enough, hall⟩ := h
    have hrun := hall (enough + 1) (Nat.le_succ enough)
    dsimp only [Loop.loop] at hrun
    obtain ⟨next, hbody, -⟩ := Execution.bind_eq_ok.mp hrun
    unfold traverseTurn at hbody ⊢
    simp only [hcurrent] at hbody ⊢
    split at hbody
    · rename_i hremove
      obtain ⟨v', hv', hbody⟩ := Execution.bind_eq_ok.mp hbody
      rw [if_pos hremove, hv']
      exact ⟨_, rfl⟩
    · rename_i hkeep
      rw [if_neg hkeep]
      exact ⟨_, rfl⟩
  obtain ⟨v', hturn⟩ := hturn
  exact traverse_prefix ((Loop.returns_turn_iff hturn).mp h)

/-- The last of the elements that a predicate holds of. -/
theorem exists_last_removed (h : ∃ elt ∈ l, remove elt = true) :
    ∃ a c b, l = a ++ c :: b ∧ remove c = true ∧ ∀ elt ∈ b, remove elt = false := by
  induction l using List.reverseRecOn with
  | nil =>
      obtain ⟨elt, hmem, -⟩ := h
      cases hmem
  | append_singleton l last ih =>
      cases hlast : remove last with
      | true => exact ⟨l, last, [], rfl, hlast, fun elt hmem => by cases hmem⟩
      | false =>
          obtain ⟨elt, hmem, hremove⟩ := h
          have hbefore : elt ∈ l := by
            rcases List.mem_append.mp hmem with hmem | hmem
            · exact hmem
            · obtain rfl := List.mem_singleton.mp hmem
              rw [hlast] at hremove
              cases hremove
          obtain ⟨a, c, b, rfl, hc, hb⟩ := ih ⟨elt, hbefore, hremove⟩
          refine ⟨a, c, b ++ [last], by simp, hc, fun elt hmem => ?_⟩
          rcases List.mem_append.mp hmem with hmem | hmem
          · exact hb elt hmem
          · rw [List.mem_singleton.mp hmem]
            exact hlast

/-- Where an element is removed from a list of several, the traversal does not go through the list. -/
theorem backward_not_reverse {out : List ℕ × View} (h : v.Through (a ++ c :: b)) (hcurrent : v.list.current = some c)
    (hremove : remove c = true) (hmany : 1 < (a ++ c :: b).length)
    (hreturns : Loop.Returns (fun fuel => Loop.loop (traverseTurn listPrevElement remove) fuel (visited, v)) out) :
    out.1 ≠ visited ++ c :: a.reverse := by
  obtain ⟨v', hlinked, hcurrent', hiff⟩ := backward_removed h hcurrent hremove
  have hreturns := (hiff out).mp hreturns
  intro hout
  rcases List.eq_nil_or_concat a with rfl | ⟨before, last, rfl⟩
  · -- the head was removed, and the tail comes again
    rw [if_pos rfl] at hcurrent'
    cases htail : b.getLast? with
    | none =>
        obtain rfl := List.getLast?_eq_none_iff.mp htail
        simp at hmany
    | some tail =>
        have hle := (traverse_next (hcurrent'.trans htail) hreturns).length_le
        rw [hout] at hle
        simp at hle
  · rw [List.concat_eq_append] at hlinked hcurrent' hout h
    rw [if_neg (by simp), List.dropLast_concat] at hcurrent'
    cases hbefore : before.getLast? with
    | none =>
        -- the head is left out
        have hend : Loop.Returns (fun fuel => Loop.loop (traverseTurn listPrevElement remove) fuel (visited ++ [c], v'))
            (visited ++ [c], v') := Loop.returns_of_end (traverseTurn_end (hcurrent'.trans hbefore))
        have hlength := congrArg (fun out => out.1.length) (hreturns.unique hend)
        dsimp only at hlength
        rw [hout] at hlength
        simp at hlength
    | some next =>
        -- the last element before the one removed is left out
        have hnext := traverse_next (hcurrent'.trans hbefore) hreturns
        rw [hout, List.reverse_append, List.append_assoc, List.prefix_append_right_inj] at hnext
        obtain rfl : next = last := (List.cons_prefix_cons.mp (List.cons_prefix_cons.mp hnext).2).1
        obtain ⟨pool, hl, -⟩ := h
        have hnodup := (List.nodup_append.mp (List.nodup_append.mp hl.nodup).1).1
        exact (List.disjoint_of_nodup_append hnodup) (List.mem_of_getLast? hbefore) List.mem_cons_self

/-- A backward traversal visits the elements in reverse order exactly if it removes none, or there
is no more than one. -/
theorem traverseBackward_visits_iff (remove : ℕ → Bool) (h : v.Through l) :
    (∃ v', Loop.Returns (traverseBackward remove v) (l.reverse, v')) ↔
      (∀ elt ∈ l, remove elt = false) ∨ l.length ≤ 1 := by
  have hstart : (listStartTailTraversal v).Through l := h.of_same rfl ⟨_, _, rfl⟩
  have hcurrent : (listStartTailTraversal v).list.current = l.getLast? := h.tail
  unfold traverseBackward
  generalize listStartTailTraversal v = start at hstart hcurrent
  constructor
  · rintro ⟨v', hreturns⟩
    by_contra hneither
    rw [not_or] at hneither
    have hsome : ∃ elt ∈ l, remove elt = true := by simpa using hneither.1
    obtain ⟨a, c, b, rfl, hremove, hkept⟩ := exists_last_removed hsome
    have hlist : a ++ c :: b = a ++ [c] ++ b ++ [] := by simp
    rw [hlist] at hstart
    obtain ⟨mid, hmid, hcurrent', hiff⟩ := @backward_kept _ _ _ [] _ hkept _ hstart (by rw [hcurrent]; simp)
    rw [← hlist] at hmid
    rw [List.getLast?_concat] at hcurrent'
    refine backward_not_reverse hmid hcurrent' hremove (by omega) ((hiff _).mp hreturns) ?_
    simp
  · have hnone : (∀ elt ∈ l, remove elt = false) →
        ∃ v', Loop.Returns (fun fuel => Loop.loop (traverseTurn listPrevElement remove) fuel ([], start)) (l.reverse, v') := by
      intro hkept
      have hlist : l = [] ++ l ++ [] := by simp
      rw [hlist] at hstart
      obtain ⟨last, -, hcurrent', hiff⟩ := @backward_kept _ _ _ [] _ hkept _ hstart hcurrent
      exact ⟨last, (hiff _).mpr (Loop.returns_of_end (traverseTurn_end hcurrent'))⟩
    rintro (hkept | hfew)
    · exact hnone hkept
    · rcases l with _ | ⟨elt, _ | ⟨second, l⟩⟩
      · exact hnone fun elt hmem => by cases hmem
      · cases hremove : remove elt with
        | false => exact hnone fun x hmem => by rwa [List.mem_singleton.mp hmem]
        | true =>
            obtain ⟨last, -, hcurrent', hiff⟩ := @backward_removed _ [] [] [] _ _ hstart hcurrent hremove
            exact ⟨last, (hiff _).mpr (Loop.returns_of_end (traverseTurn_end hcurrent'))⟩
      · simp at hfew

/-- Three entries, none of which is removed. -/
theorem traverseBackward_visits_iff_none_removed :
    ∃ s v', Execution.run (State.step fun n => some (8 * n))
        (State.init (fun _ => none) (fun _ => none) (fun _ => ⟨none, none, none, none, 0, 0, false, 0, 0⟩)
          fun _ : Unit => true) [((), .dlAddTail), ((), .dlAddTail), ((), .dlAddTail)] = .ok s ∧
      Loop.Returns (traverseBackward (fun _ => false) (s.view ())) ([2, 1, 0], v') := by
  have hobs : (fun s => (s.view ()).entries) <$> Execution.run (State.step fun n => some (8 * n))
      (State.init (fun _ => none) (fun _ => none) (fun _ => ⟨none, none, none, none, 0, 0, false, 0, 0⟩)
        fun _ : Unit => true) [((), .dlAddTail), ((), .dlAddTail), ((), .dlAddTail)] = .ok [0, 1, 2] := by decide +kernel
  obtain ⟨s, hrun, hentries⟩ := Execution.map_eq_ok.mp hobs
  have hthrough : (s.view ()).Through (s.view ()).entries := .of_run (fun _ => true) (by decide +kernel) hrun rfl
  rw [hentries] at hthrough
  obtain ⟨v', hreturns⟩ := (traverseBackward_visits_iff (fun _ => false) hthrough).mpr (.inl fun _ _ => rfl)
  exact ⟨s, v', hrun, hreturns⟩

/-- Of three entries the second one is removed, and the first one is not visited. -/
theorem traverseBackward_skips :
    ∃ s v', Execution.run (State.step fun n => some (8 * n))
        (State.init (fun _ => none) (fun _ => none) (fun _ => ⟨none, none, none, none, 0, 0, false, 0, 0⟩)
          fun _ : Unit => true) [((), .dlAddTail), ((), .dlAddTail), ((), .dlAddTail)] = .ok s ∧
      (s.view ()).entries = [0, 1, 2] ∧
      Loop.Returns (traverseBackward (fun elt => elt = 1) (s.view ())) ([2, 1], v') ∧
      ¬ ∃ v', Loop.Returns (traverseBackward (fun elt => elt = 1) (s.view ())) ((s.view ()).entries.reverse, v') := by
  have hobs : (fun s => ((s.view ()).entries,
        (fun out => out.map Prod.fst) <$> traverseBackward (fun elt => elt = 1) (s.view ()) 3)) <$>
      Execution.run (State.step fun n => some (8 * n))
      (State.init (fun _ => none) (fun _ => none) (fun _ => ⟨none, none, none, none, 0, 0, false, 0, 0⟩)
        fun _ : Unit => true) [((), .dlAddTail), ((), .dlAddTail), ((), .dlAddTail)] =
      .ok ([0, 1, 2], .ok (some [2, 1])) := by decide +kernel
  obtain ⟨s, hrun, hobs⟩ := Execution.map_eq_ok.mp hobs
  obtain ⟨hentries, hout⟩ := Prod.mk.inj hobs
  obtain ⟨out, hloop, hvisited⟩ := Execution.map_eq_ok.mp hout
  obtain ⟨⟨visited, v'⟩, rfl, rfl⟩ := Option.map_eq_some_iff.mp hvisited
  have hreturns := Loop.returns_of_loop hloop
  refine ⟨s, v', hrun, hentries, hreturns, ?_⟩
  rintro ⟨v'', hreverse⟩
  have heq := congrArg Prod.fst (Loop.Returns.unique hreturns hreverse)
  rw [hentries] at heq
  simp at heq

end Scarab.ListLib
