import Scarab.Libs.List.Entries

/-! # What the operations do to the entries of a list

Every operation puts an entry between two parts of the list, takes one out, or cuts the list. -/

namespace Scarab.ListLib

open Linked

/-- An operation has turned one list into another. Whether entries have been lost is only said
where `exact` holds. -/
structure Done (exact : Prop) (d : Bool) (v v' : View) (l pool l' pool' : List ℕ) : Prop where
  linked : Holds d v' l' pool'
  count : v'.list.count = l'.length
  keeps : Keeps v.heap v'.heap (l ++ pool) (l' ++ pool')
  covers : exact → Covers v.heap v'.heap (l ++ pool) (l' ++ pool')
  accounts : exact → Accounts v.list l.length pool → Accounts v'.list l'.length pool'

variable {ret : ℕ → Option ℕ} {d : Bool} {v v₁ v' : View} {l pool pool' a b : List ℕ} {p t : ℕ} {r : Option ℕ}
  {exact : Prop}

theorem Done.weaken {exact' : Prop} {l' : List ℕ} (h : Done exact d v v' l pool l' pool') (himp : exact' → exact) :
    Done exact' d v v' l pool l' pool' :=
  ⟨h.linked, h.count, h.keeps, fun he => h.covers (himp he), fun he => h.accounts (himp he)⟩

/-- The links and the free list are as before. -/
theorem Done.of_same (hl : Holds d v l pool) (hcount : v.list.count = l.length) (hheap : v'.heap = v.heap)
    (hlist : ∃ current place, v'.list = { v.list with current, place }) : Done exact d v v' l pool l pool := by
  obtain ⟨current, place, hlist⟩ := hlist
  obtain ⟨heap, list⟩ := v'
  subst hheap
  subst hlist
  exact ⟨⟨hl.next, hl.tail, hl.prev, hl.free, hl.nodup, hl.allocated⟩, hcount,
    Keeps.of_writes rfl (fun _ _ => ⟨rfl, rfl⟩) (List.Subset.refl _),
    fun _ => Covers.of_writes rfl (List.Subset.refl _), fun _ hacc => ⟨hacc.freeCount, hacc.totalCount⟩⟩

/-! ## Relinking -/

/-- The entry `p` is put between `a` and `b`. -/
structure Put (d : Bool) (v v' : View) (a b : List ℕ) (p : ℕ) : Prop where
  next : v'.nextLinks = v.nextLinks.insert a.getLast? p
  prev : d = true → v'.prevLinks = v.prevLinks.insert b.head? p
  prev_same : d = false → v'.heap.prev = v.heap.prev
  tail : v'.list.tail = (a ++ p :: b).getLast?
  free : v'.list.free = v.list.free
  allocated : v'.heap.allocated = v.heap.allocated
  freeCount : v'.list.freeCount = v.list.freeCount
  totalCount : v'.list.totalCount = v.list.totalCount

/-- The entry `p` is taken out from between `a` and `b`. -/
structure Taken (d : Bool) (v v' : View) (a b : List ℕ) (p : ℕ) : Prop where
  next : v'.nextLinks = v.nextLinks.set a.getLast? (v.heap.next p)
  prev : d = true → v'.prevLinks = v.prevLinks.set b.head? (v.heap.prev p)
  prev_same : d = false → v'.heap.prev = v.heap.prev
  tail : v'.list.tail = (a ++ b).getLast?
  free : v'.list.free = v.list.free
  allocated : v'.heap.allocated = v.heap.allocated
  freeCount : v'.list.freeCount = v.list.freeCount
  totalCount : v'.list.totalCount = v.list.totalCount

theorem Put.next_of_ne {e : ℕ} (h : Put d v v' a b p) (ha : e ∉ a) (hp : e ≠ p) : v'.heap.next e = v.heap.next e := by
  have hnext := congrArg (fun k : Links ℕ => k.next e) h.next
  exact hnext.trans (Links.insert_next_of_ne (fun heq => ha (List.mem_of_getLast? heq.symm)) hp)

theorem Put.prev_of_ne {e : ℕ} (h : Put d v v' a b p) (hb : e ∉ b) (hp : e ≠ p) : v'.heap.prev e = v.heap.prev e := by
  cases d with
  | true =>
      have hprev := congrArg (fun k : Links ℕ => k.next e) (h.prev rfl)
      exact hprev.trans (Links.insert_next_of_ne (fun heq => hb (List.mem_of_head? heq.symm)) hp)
  | false => exact congrFun (h.prev_same rfl) e

theorem Taken.next_of_ne {e : ℕ} (h : Taken d v v' a b p) (ha : e ∉ a) : v'.heap.next e = v.heap.next e := by
  have hnext := congrArg (fun k : Links ℕ => k.next e) h.next
  exact hnext.trans (Links.set_next_of_ne fun heq => ha (List.mem_of_getLast? heq.symm))

theorem Taken.prev_of_ne {e : ℕ} (h : Taken d v v' a b p) (hb : e ∉ b) : v'.heap.prev e = v.heap.prev e := by
  cases d with
  | true =>
      have hprev := congrArg (fun k : Links ℕ => k.next e) (h.prev rfl)
      exact hprev.trans (Links.set_next_of_ne fun heq => hb (List.mem_of_head? heq.symm))
  | false => exact congrFun (h.prev_same rfl) e

/-- Putting in the entry that has been taken for the list. -/
theorem Got.put (hgot : Got d v v₁ l pool pool' p) (hparts : l = a ++ b) (hput : Put d v₁ v' a b p)
    (hcount : v.list.count = l.length) (hcount' : v'.list.count = v₁.list.count + 1) :
    Done True d v v' l pool (a ++ p :: b) pool' := by
  subst hparts
  have hl := hgot.linked
  have hperm : (a ++ p :: b ++ pool').Perm (p :: (a ++ b ++ pool')) := List.perm_middle.append_right pool'
  have hfresh := hgot.fresh
  simp only [List.mem_append, not_or] at hfresh
  have hpool : ∀ e ∈ pool', e ∉ a ∧ e ∉ b ∧ e ≠ p := by
    intro e he
    have hdisj := List.disjoint_of_nodup_append hl.nodup
    exact ⟨fun hmem => hdisj (List.mem_append_left _ hmem) he, fun hmem => hdisj (List.mem_append_right _ hmem) he,
      ne_of_mem_of_not_mem he hfresh.2⟩
  have hnodup := (List.nodup_append.mp hl.nodup).1
  have hkeeps : Keeps v₁.heap v'.heap (p :: (a ++ b ++ pool')) (a ++ p :: b ++ pool') := by
    refine Keeps.of_writes hput.allocated (fun e he => ?_) hperm.subset
    simp only [List.mem_cons, List.mem_append, not_or] at he
    exact ⟨hput.next_of_ne he.2.1.1 he.1, hput.prev_of_ne he.2.1.2 he.1⟩
  refine ⟨⟨?_, hput.tail, ?_, ?_, ?_, ?_⟩, ?_, hgot.keeps.trans hkeeps, fun _ => ?_, fun _ hacc => ?_⟩
  · have hins := Chain.insert (k := v₁.nextLinks) (p := p) hl.next hnodup (by simp [hfresh])
    rw [← hput.next] at hins
    exact hins
  · intro hd
    have hprev := hl.prev hd
    rw [List.reverse_append] at hprev
    have hins := Chain.insert (k := v₁.prevLinks) (p := p) hprev
      (by rw [← List.reverse_append]; exact List.nodup_reverse.mpr hnodup) (by simp [hfresh])
    rw [List.getLast?_reverse, ← hput.prev hd] at hins
    rw [List.reverse_append, List.reverse_cons, List.append_assoc]
    exact hins
  · rw [hput.free]
    exact hl.free.congr fun e he => hput.next_of_ne (hpool e he).1 (hpool e he).2.2
  · exact hperm.nodup_iff.mpr (List.nodup_cons.mpr ⟨hgot.fresh, hl.nodup⟩)
  · intro e he
    rw [hput.allocated]
    cases List.mem_cons.mp (hperm.mem_iff.mp he) with
    | inl heq => exact heq ▸ hgot.allocated
    | inr hmem => exact hl.allocated e hmem
  · rw [hcount', hgot.count, hcount]
    simp only [List.length_append, List.length_cons]
    push_cast
    omega
  · exact hgot.covers.trans (Covers.of_writes hput.allocated hperm.symm.subset)
  · have hacc := hgot.accounts _ hacc
    have hlen : (a ++ p :: b).length = (a ++ b).length + 1 := by simp [Nat.add_assoc]
    rw [hlen]
    exact ⟨hput.freeCount.trans hacc.freeCount, hput.totalCount.trans hacc.totalCount⟩

/-- The entry that has been taken for the list is in no list afterwards. -/
theorem Got.lost {l' : List ℕ} (hgot : Got d v v₁ l pool pool' p) {pool₂ : List ℕ}
    (hdone : Done True d v₁ v' l pool' l' pool₂) : Done False d v v' l pool l' pool₂ := by
  have hkeeps : Keeps v.heap v₁.heap (l ++ pool) (l ++ pool') := by
    intro e he hown
    obtain ⟨halloc, hnext, hprev, hnot⟩ := hgot.keeps e he hown
    exact ⟨halloc, hnext, hprev, List.not_mem_of_not_mem_cons hnot⟩
  exact ⟨hdone.linked, hdone.count, hkeeps.trans hdone.keeps, False.elim, False.elim⟩

/-- Giving back the entry that has been taken out. -/
theorem Taken.freed (hfree : freeListEntry v₁ p = .ok v') (hl : Holds d v (a ++ p :: b) pool)
    (hcount : v.list.count = (a ++ p :: b).length) (htaken : Taken d v v₁ a b p)
    (hcount₁ : v₁.list.count = v.list.count) :
    ∃ pool', Done True d v v' (a ++ p :: b) pool (a ++ b) pool' := by
  have hperm : (a ++ p :: b ++ pool).Perm (p :: (a ++ b ++ pool)) := List.perm_middle.append_right pool
  obtain ⟨hfresh, hnodup⟩ := List.nodup_cons.mp (hperm.nodup_iff.mp hl.nodup)
  have hmem := hfresh
  simp only [List.mem_append, not_or] at hmem
  have hlnodup := (List.nodup_append.mp hl.nodup).1
  have hpool : ∀ e ∈ pool, e ∉ a ∧ e ∉ b := by
    intro e he
    have hdisj := List.disjoint_of_nodup_append hnodup
    exact ⟨fun h => hdisj (List.mem_append_left _ h) he, fun h => hdisj (List.mem_append_right _ h) he⟩
  have hlinked : Holds d v₁ (a ++ b) pool := by
    refine ⟨?_, htaken.tail, ?_, ?_, hnodup, ?_⟩
    · have hset := Chain.set_last (k := v.nextLinks) hl.next hlnodup
      have hnext := htaken.next
      rw [show v.heap.next p = v.nextLinks.next p from rfl] at hnext
      rw [← hnext] at hset
      exact hset
    · intro hd
      have hprev := hl.prev hd
      have hrev := List.nodup_reverse.mpr hlnodup
      rw [List.reverse_append, List.reverse_cons, List.append_assoc] at hprev hrev
      have hset := Chain.set_last (k := v.prevLinks) hprev hrev
      have hlinks := htaken.prev hd
      rw [show v.heap.prev p = v.prevLinks.next p from rfl] at hlinks
      rw [List.getLast?_reverse, ← hlinks] at hset
      rw [List.reverse_append]
      exact hset
    · rw [htaken.free]
      exact hl.free.congr fun e he => htaken.next_of_ne (hpool e he).1
    · intro e he
      rw [htaken.allocated]
      exact hl.allocated e (hperm.mem_iff.mpr (List.mem_cons_of_mem _ he))
  have halloc : v₁.heap.allocated p = true := by
    rw [htaken.allocated]
    exact hl.allocated p (hperm.mem_iff.mpr List.mem_cons_self)
  have hkeeps : Keeps v.heap v₁.heap (a ++ p :: b ++ pool) (p :: (a ++ b ++ pool)) := by
    refine Keeps.of_writes htaken.allocated (fun e he => ?_) hperm.symm.subset
    simp only [List.mem_append, List.mem_cons, not_or] at he
    exact ⟨htaken.next_of_ne he.1.1, htaken.prev_of_ne he.1.2.2⟩
  obtain ⟨pool', hfreed⟩ := freeListEntry_spec hlinked hfresh halloc hfree
  have hlen : (a ++ p :: b).length = (a ++ b).length + 1 := by simp [Nat.add_assoc]
  refine ⟨pool', hfreed.linked, ?_, hkeeps.trans hfreed.keeps, fun _ => ?_, fun _ hacc => ?_⟩
  · rw [hfreed.count, hcount₁, hcount, hlen]
    push_cast
    omega
  · exact (Covers.of_writes htaken.allocated hperm.subset).trans hfreed.covers
  · rw [hlen] at hacc
    exact hfreed.accounts _ ⟨htaken.freeCount.trans hacc.freeCount, htaken.totalCount.trans hacc.totalCount⟩

/-! ## Adding -/

theorem Holds.head (hl : Holds d v l pool) : v.list.head = l.head? := hl.next.head_eq

theorem Holds.next_eq (hl : Holds d v (a ++ p :: b) pool) : v.heap.next p = b.head? :=
  (chain_cons.mp hl.next.of_append).2.head_eq

theorem Holds.prev_eq (hl : Holds true v (a ++ p :: b) pool) : v.heap.prev p = a.getLast? := by
  have hprev := hl.prev rfl
  rw [List.reverse_append, List.reverse_cons, List.append_assoc] at hprev
  rw [← List.head?_reverse]
  exact (chain_cons.mp hprev.of_append).2.head_eq

theorem Holds.tail_next (hl : Holds d v l pool) (ht : l.getLast? = some t) : v.heap.next t = none := by
  have hlast := (chain_iff_segment.mp hl.next).get_last (k := v.nextLinks)
  rw [ht] at hlast
  exact hlast

theorem Holds.head_prev (hl : Holds true v l pool) (ht : l.head? = some t) : v.heap.prev t = none := by
  have hlast := (chain_iff_segment.mp (hl.prev rfl)).get_last (k := v.prevLinks)
  rw [List.getLast?_reverse, ht] at hlast
  exact hlast

/-- The list is empty where its count says so. -/
theorem eq_nil_iff_count (hcount : v.list.count = l.length) : v.list.count = 0 ↔ l = [] := by
  rw [hcount, Int.natCast_eq_zero, List.length_eq_zero_iff]

theorem slListAddTail_spec (hl : Holds false v l pool) (hcount : v.list.count = l.length)
    (h : slListAddTail ret v = .ok (r, v')) : ∃ p pool', Done True false v v' l pool (l ++ [p]) pool' := by
  obtain ⟨⟨temp, v₁⟩, hget, h⟩ := Execution.bind_eq_ok.mp h
  obtain ⟨pool', hgot⟩ := getListEntry_spec hl hget
  refine ⟨temp, pool', ?_⟩
  have hzero : (v₁.setNext temp none).list.count = 0 ↔ l = [] :=
    eq_nil_iff_count (hgot.count.trans hcount)
  dsimp only at h
  cases hlast : l.getLast? with
  | none =>
      obtain rfl := List.getLast?_eq_none_iff.mp hlast
      have hhead : v₁.list.head = none := hgot.linked.head
      rw [if_pos (hzero.mpr rfl)] at h
      cases h
      refine hgot.put (a := []) (b := []) rfl ⟨?_, nofun, fun _ => rfl, rfl, rfl, rfl, rfl, rfl⟩ hcount rfl
      simp [View.nextLinks, View.setNext, View.setPrev, Links.insert, Links.set, Links.get, hhead]
  | some t =>
      have hne : l ≠ [] := by
        rintro rfl
        cases hlast
      have htail := hgot.linked.tail.trans hlast
      rw [if_neg (mt hzero.mp hne)] at h
      simp only [View.setNext, View.setPrev, htail] at h
      cases h
      refine hgot.put (List.append_nil l).symm ⟨?_, nofun, fun _ => rfl, ?_, rfl, rfl, rfl, rfl⟩ hcount rfl
      · rw [hlast]
        simp [View.nextLinks, View.setNext, View.setPrev, Links.insert, Links.set, Links.get, hgot.linked.tail_next hlast]
      · simp

theorem dlListAddTail_spec (hl : Holds true v l pool) (hcount : v.list.count = l.length)
    (h : dlListAddTail ret v = .ok (r, v')) : ∃ p pool', Done True true v v' l pool (l ++ [p]) pool' := by
  obtain ⟨⟨temp, v₁⟩, hget, h⟩ := Execution.bind_eq_ok.mp h
  obtain ⟨pool', hgot⟩ := getListEntry_spec hl hget
  refine ⟨temp, pool', ?_⟩
  have hzero : ((v₁.setNext temp none).setPrev temp none).list.count = 0 ↔ l = [] :=
    eq_nil_iff_count (hgot.count.trans hcount)
  dsimp only at h
  cases hlast : l.getLast? with
  | none =>
      obtain rfl := List.getLast?_eq_none_iff.mp hlast
      have hhead : v₁.list.head = none := hgot.linked.head
      have htail : v₁.list.tail = none := hgot.linked.tail
      rw [if_pos (hzero.mpr rfl)] at h
      cases h
      refine hgot.put (a := []) (b := []) rfl ⟨?_, fun _ => ?_, nofun, rfl, rfl, rfl, rfl, rfl⟩ hcount rfl
      · simp [View.nextLinks, View.setNext, View.setPrev, Links.insert, Links.set, Links.get, hhead]
      · simp [View.prevLinks, View.setNext, View.setPrev, Links.insert, Links.set, Links.get, htail]
  | some t =>
      have hne : l ≠ [] := by
        rintro rfl
        cases hlast
      have htail := hgot.linked.tail.trans hlast
      rw [if_neg (mt hzero.mp hne)] at h
      simp only [View.setNext, View.setPrev, htail] at h
      cases h
      refine hgot.put (List.append_nil l).symm ⟨?_, fun _ => ?_, nofun, ?_, rfl, rfl, rfl, rfl⟩ hcount rfl
      · rw [hlast]
        simp [View.nextLinks, View.setNext, View.setPrev, Links.insert, Links.set, Links.get, hgot.linked.tail_next hlast]
      · simp [View.prevLinks, View.setNext, View.setPrev, Links.insert, Links.set, Links.get, htail]
      · simp

theorem slListAddHead_spec (hl : Holds false v l pool) (hcount : v.list.count = l.length)
    (h : slListAddHead ret v = .ok (r, v')) : ∃ p pool', Done True false v v' l pool (p :: l) pool' := by
  obtain ⟨⟨temp, v₁⟩, hget, h⟩ := Execution.bind_eq_ok.mp h
  obtain ⟨pool', hgot⟩ := getListEntry_spec hl hget
  refine ⟨temp, pool', ?_⟩
  have hzero := eq_nil_iff_count (hgot.count.trans hcount)
  simp only [View.setNext] at h
  cases h
  refine hgot.put (a := []) rfl ⟨?_, nofun, fun _ => rfl, ?_, rfl, rfl, rfl, rfl⟩ hcount rfl
  · simp [View.nextLinks, View.setNext, View.setPrev, Links.insert, Links.set, Links.get]
  · cases l with
    | nil => exact if_pos (hzero.mpr rfl)
    | cons e l => exact (if_neg (mt hzero.mp (List.cons_ne_nil e l))).trans hgot.linked.tail

theorem dlListAddHead_spec (hl : Holds true v l pool) (hcount : v.list.count = l.length)
    (h : dlListAddHead ret v = .ok (r, v')) : ∃ p pool', Done True true v v' l pool (p :: l) pool' := by
  obtain ⟨⟨temp, v₁⟩, hget, h⟩ := Execution.bind_eq_ok.mp h
  obtain ⟨pool', hgot⟩ := getListEntry_spec hl hget
  refine ⟨temp, pool', ?_⟩
  have hzero : ((v₁.setNext temp v₁.list.head).setPrev temp none).list.count = 0 ↔ l = [] :=
    eq_nil_iff_count (hgot.count.trans hcount)
  dsimp only at h
  cases l with
  | nil =>
      have hhead : v₁.list.head = none := hgot.linked.head
      have htail : v₁.list.tail = none := hgot.linked.tail
      rw [if_pos (hzero.mpr rfl)] at h
      cases h
      refine hgot.put (a := []) (b := []) rfl ⟨?_, fun _ => ?_, nofun, rfl, rfl, rfl, rfl, rfl⟩ hcount rfl
      · simp [View.nextLinks, View.setNext, View.setPrev, Links.insert, Links.set, Links.get]
      · simp [View.prevLinks, View.setNext, View.setPrev, Links.insert, Links.set, Links.get, htail]
  | cons e l =>
      have hhead : v₁.list.head = some e := hgot.linked.head
      rw [if_neg (mt hzero.mp (List.cons_ne_nil e l))] at h
      simp only [View.setNext, View.setPrev, hhead] at h
      cases h
      refine hgot.put (a := []) rfl ⟨?_, fun _ => ?_, nofun, hgot.linked.tail, rfl, rfl, rfl, rfl⟩ hcount rfl
      · simp [View.nextLinks, View.setNext, View.setPrev, Links.insert, Links.set, Links.get, hhead]
      · simp [View.prevLinks, View.setNext, View.setPrev, Links.insert, Links.set, Links.get, hgot.linked.head_prev rfl]

/-- The first entry is not the last one of a longer list. -/
theorem Holds.tail_ne {c e : ℕ} (hl : Holds d v (a ++ c :: e :: b) pool) : v.list.tail ≠ some c := by
  intro htail
  have hlast : (e :: b).getLast? = some c := by
    rw [← htail, hl.tail]
    simp [List.getLast?_append, List.getLast?_cons]
  have hnodup := (List.nodup_append.mp (List.nodup_append.mp hl.nodup).1).2.1
  exact (List.nodup_cons.mp hnodup).1 (List.mem_of_getLast? hlast)

theorem slListAddAfterCurrent_spec {c : ℕ} (hl : Holds false v (a ++ c :: b) pool)
    (hcount : v.list.count = (a ++ c :: b).length) (hcurrent : v.list.current = some c)
    (h : slListAddAfterCurrent ret v = .ok (r, v')) :
    ∃ p pool', Done True false v v' (a ++ c :: b) pool (a ++ [c] ++ p :: b) pool' := by
  obtain ⟨⟨temp, v₁⟩, hget, h⟩ := Execution.bind_eq_ok.mp h
  obtain ⟨pool', hgot⟩ := getListEntry_spec hl hget
  refine ⟨temp, pool', ?_⟩
  dsimp only at h
  rw [hgot.current.trans hcurrent] at h
  simp only [View.setNext] at h
  cases h
  have hlinked := hgot.linked
  refine hgot.put (List.append_cons a c b) ⟨?_, nofun, fun _ => rfl, ?_, rfl, rfl, rfl, rfl⟩ hcount rfl
  · rw [List.getLast?_concat]
    rfl
  · cases b with
    | nil =>
        have htail : v₁.list.tail = some c := hlinked.tail.trans (by simp)
        exact (if_pos htail).trans (by simp)
    | cons e b =>
        exact (if_neg hlinked.tail_ne).trans (hlinked.tail.trans (by simp))

theorem dlListAddAfterCurrent_spec {c : ℕ} (hl : Holds true v (a ++ c :: b) pool)
    (hcount : v.list.count = (a ++ c :: b).length) (hcurrent : v.list.current = some c)
    (h : dlListAddAfterCurrent ret v = .ok (r, v')) :
    ∃ p pool', Done True true v v' (a ++ c :: b) pool (a ++ [c] ++ p :: b) pool' := by
  obtain ⟨⟨temp, v₁⟩, hget, h⟩ := Execution.bind_eq_ok.mp h
  obtain ⟨pool', hgot⟩ := getListEntry_spec hl hget
  refine ⟨temp, pool', ?_⟩
  dsimp only at h
  rw [hgot.current.trans hcurrent] at h
  dsimp only at h
  have hlinked := hgot.linked
  have hct : c ≠ temp := fun heq => hgot.fresh (heq ▸ by simp)
  have hnext := hlinked.next_eq
  cases b with
  | nil =>
      have htail : v₁.list.tail = some c := hlinked.tail.trans (by simp)
      rw [if_pos (show ((v₁.setNext temp (v₁.heap.next c)).setPrev temp (some c)).list.tail = some c from htail)] at h
      cases h
      refine hgot.put (List.append_cons ..) ⟨?_, fun _ => ?_, nofun, ?_, rfl, rfl, rfl, rfl⟩ hcount rfl
      · rw [List.getLast?_concat]
        rfl
      · simp [View.prevLinks, View.setNext, View.setPrev, Links.insert, Links.set, Links.get, htail]
      · simp [View.setNext, View.setPrev]
  | cons e b =>
      have htail := hlinked.tail_ne
      rw [if_neg (show ((v₁.setNext temp (v₁.heap.next c)).setPrev temp (some c)).list.tail ≠ some c from htail)] at h
      simp only [View.setNext, View.setPrev, Function.update_of_ne hct, hnext] at h
      cases h
      refine hgot.put (List.append_cons ..) ⟨?_, fun _ => ?_, nofun, ?_, rfl, rfl, rfl, rfl⟩ hcount rfl
      · rw [List.getLast?_concat]
        simp [View.nextLinks, View.setNext, View.setPrev, Links.insert, Links.set, Links.get, hnext]
      · have hprev : v₁.heap.prev e = some c := by
          rw [List.append_cons] at hlinked
          exact hlinked.prev_eq.trans (by simp)
        simp [View.prevLinks, View.setNext, View.setPrev, Links.insert, Links.set, Links.get, hprev]
      · exact hlinked.tail.trans (by simp)

/-! ## Removing -/

/-- The lists of an operation that takes an entry out, or finds none to take out. -/
abbrev Removed (d : Bool) (v v' : View) (l pool : List ℕ) : Prop :=
  ∃ l' pool', Done True d v v' l pool l' pool'

theorem slListRemoveHead_spec (hl : Holds false v l pool) (hcount : v.list.count = l.length)
    (h : slListRemoveHead v = .ok (r, v')) : Removed false v v' l pool := by
  rw [slListRemoveHead] at h
  cases l with
  | nil =>
      rw [show v.list.head = none from hl.head] at h
      cases h
      exact ⟨[], pool, Done.of_same hl hcount rfl ⟨_, _, rfl⟩⟩
  | cons e b =>
      have hhead : v.list.head = some e := hl.head
      have hnext : v.heap.next e = b.head? := Holds.next_eq (a := []) hl
      rw [hhead] at h
      obtain ⟨v₂, hfree, h⟩ := Execution.bind_eq_ok.mp h
      cases h
      refine ⟨b, ?_⟩
      cases b with
      | nil =>
          rw [if_pos (show v.list.tail = some e from hl.tail)] at hfree
          refine Taken.freed (a := []) hfree hl hcount ⟨?_, nofun, fun _ => rfl, rfl, rfl, rfl, rfl, rfl⟩ rfl
          rw [hnext]
          rfl
      | cons f b =>
          rw [if_neg (show v.list.tail ≠ some e from Holds.tail_ne (a := []) hl)] at hfree
          exact Taken.freed (a := []) hfree hl hcount ⟨rfl, nofun, fun _ => rfl, hl.tail, rfl, rfl, rfl, rfl⟩ rfl

theorem dlListRemoveHead_spec (hl : Holds true v l pool) (hcount : v.list.count = l.length)
    (h : dlListRemoveHead v = .ok (r, v')) : Removed true v v' l pool := by
  rw [dlListRemoveHead] at h
  cases l with
  | nil =>
      rw [show v.list.head = none from hl.head] at h
      cases h
      exact ⟨[], pool, Done.of_same hl hcount rfl ⟨_, _, rfl⟩⟩
  | cons e b =>
      have hhead : v.list.head = some e := hl.head
      have hnext : v.heap.next e = b.head? := Holds.next_eq (a := []) hl
      have hprev : v.heap.prev e = none := Holds.prev_eq (a := []) hl
      rw [hhead] at h
      obtain ⟨v₁, htaken, h⟩ := Execution.bind_eq_ok.mp h
      obtain ⟨v₂, hfree, h⟩ := Execution.bind_eq_ok.mp h
      cases h
      refine ⟨b, ?_⟩
      cases b with
      | nil =>
          rw [if_pos (show v.list.tail = some e from hl.tail)] at htaken
          cases htaken
          refine Taken.freed (a := []) hfree hl hcount ⟨?_, fun _ => ?_, nofun, rfl, rfl, rfl, rfl, rfl⟩ rfl
          · rw [hnext]
            rfl
          · rw [hprev]
            rfl
      | cons f b =>
          rw [if_neg (show v.list.tail ≠ some e from Holds.tail_ne (a := []) hl)] at htaken
          simp only [hnext] at htaken
          cases htaken
          refine Taken.freed (a := []) hfree hl hcount ⟨?_, fun _ => ?_, nofun, hl.tail, rfl, rfl, rfl, rfl⟩ rfl
          · rw [hnext]
            rfl
          · rw [hprev]
            rfl

theorem dlListRemoveTail_spec (hl : Holds true v l pool) (hcount : v.list.count = l.length)
    (h : dlListRemoveTail v = .ok (r, v')) : Removed true v v' l pool := by
  rw [dlListRemoveTail] at h
  cases List.eq_nil_or_concat' l with
  | inl hnil =>
      subst hnil
      rw [show v.list.tail = none from hl.tail] at h
      cases h
      exact ⟨[], pool, Done.of_same hl hcount rfl ⟨_, _, rfl⟩⟩
  | inr hconcat =>
      obtain ⟨a, e, rfl⟩ := hconcat
      have htail : v.list.tail = some e := hl.tail.trans List.getLast?_concat
      have hnext : v.heap.next e = none := hl.next_eq
      have hprev : v.heap.prev e = a.getLast? := hl.prev_eq
      rw [htail] at h
      obtain ⟨v₁, htaken, h⟩ := Execution.bind_eq_ok.mp h
      obtain ⟨v₂, hfree, h⟩ := Execution.bind_eq_ok.mp h
      cases h
      refine ⟨a ++ [], ?_⟩
      cases List.eq_nil_or_concat' a with
      | inl hnil =>
          subst hnil
          rw [if_pos (show some e = v.list.head from hl.head.symm)] at htaken
          cases htaken
          refine Taken.freed (a := []) hfree hl hcount ⟨?_, fun _ => ?_, nofun, rfl, rfl, rfl, rfl, rfl⟩ rfl
          · rw [hnext]
            rfl
          · rw [hprev]
            rfl
      | inr hconcat =>
          obtain ⟨a, f, rfl⟩ := hconcat
          have hne : some e ≠ v.list.head := by
            rw [hl.head, List.append_assoc]
            intro heq
            have hnodup := (List.nodup_append.mp hl.nodup).1
            rw [List.nodup_append] at hnodup
            exact hnodup.2.2 e (by cases a <;> simp_all) e (by simp) rfl
          rw [if_neg hne] at htaken
          simp only [hprev, List.getLast?_concat] at htaken
          cases htaken
          refine Taken.freed hfree hl hcount ⟨?_, fun _ => ?_, nofun, ?_, rfl, rfl, rfl, rfl⟩ rfl
          · rw [hnext, List.getLast?_concat]
            rfl
          · rw [hprev, List.getLast?_concat]
            rfl
          · simp [View.setNext]

theorem dlListRemoveCurrent_spec {c : ℕ} (hl : Holds true v (a ++ c :: b) pool)
    (hcount : v.list.count = (a ++ c :: b).length) (hcurrent : v.list.current = some c)
    (h : dlListRemoveCurrent v = .ok (r, v')) :
    ∃ pool', Done True true v v' (a ++ c :: b) pool (a ++ b) pool' := by
  rw [dlListRemoveCurrent, hcurrent] at h
  have hnext : v.heap.next c = b.head? := hl.next_eq
  have hprev : v.heap.prev c = a.getLast? := hl.prev_eq
  obtain ⟨v₁, htaken, h⟩ := Execution.bind_eq_ok.mp h
  obtain ⟨v₂, hfree, h⟩ := Execution.bind_eq_ok.mp h
  cases h
  simp only [hnext, hprev] at htaken
  cases b with
  | nil =>
      have htail : v.list.tail = some c := hl.tail.trans List.getLast?_concat
      cases hlast : a.getLast? with
      | none =>
          obtain rfl := List.getLast?_eq_none_iff.mp hlast
          have hhead : v.list.head = some c := hl.head
          simp only [List.head?_nil, List.getLast?_nil, if_pos hhead, if_pos htail] at htaken
          cases htaken
          refine Taken.freed (a := []) hfree hl hcount ⟨?_, fun _ => ?_, nofun, rfl, rfl, rfl, rfl, rfl⟩ rfl
          · rw [hnext]
            rfl
          · rw [hprev]
            rfl
      | some prev =>
          simp only [List.head?_nil, hlast, if_pos htail] at htaken
          cases htaken
          refine Taken.freed hfree hl hcount ⟨?_, fun _ => ?_, nofun, ?_, rfl, rfl, rfl, rfl⟩ rfl
          · rw [hnext, hlast]
            rfl
          · rw [hprev, hlast]
            rfl
          · rw [List.append_nil, hlast]
            rfl
  | cons next b =>
      cases hlast : a.getLast? with
      | none =>
          obtain rfl := List.getLast?_eq_none_iff.mp hlast
          have hhead : v.list.head = some c := hl.head
          simp only [List.head?_cons, List.getLast?_nil, if_pos hhead] at htaken
          cases htaken
          refine Taken.freed (a := []) hfree hl hcount ⟨?_, fun _ => ?_, nofun, hl.tail, rfl, rfl, rfl, rfl⟩ rfl
          · rw [hnext]
            rfl
          · rw [hprev]
            rfl
      | some prev =>
          simp only [List.head?_cons, hlast] at htaken
          cases htaken
          refine Taken.freed hfree hl hcount ⟨?_, fun _ => ?_, nofun, ?_, rfl, rfl, rfl, rfl⟩ rfl
          · rw [hnext, hlast]
            rfl
          · rw [hprev, hlast]
            rfl
          · exact hl.tail.trans (by simp [List.getLast?_append, List.getLast?_cons])

/-! ## Clearing and clipping -/

theorem clearList_spec (hl : Holds d v l pool) (hcount : v.list.count = l.length) (h : clearList v = .ok v') :
    ∃ pool', Done (v.list.useFreeList = true ∨ v.list.tail = none) d v v' l pool [] pool' := by
  rw [clearList] at h
  cases hlast : l.getLast? with
  | none =>
      obtain rfl := List.getLast?_eq_none_iff.mp hlast
      have htail : v.list.tail = none := hl.tail
      rw [htail] at h
      simp only [hcount] at h
      cases h
      exact ⟨pool, Done.of_same hl hcount rfl ⟨_, _, rfl⟩⟩
  | some t =>
      have htail : v.list.tail = some t := hl.tail.trans hlast
      have hmem : t ∈ l := List.mem_of_getLast? hlast
      rw [htail] at h
      dsimp only at h
      by_cases huse : v.list.useFreeList = true
      · simp only [if_pos huse] at h
        cases h
        refine ⟨l ++ pool, ⟨rfl, rfl, fun _ => rfl, ?_, hl.nodup, hl.allocated⟩, rfl, ?_, fun _ => ?_, fun _ hacc => ?_⟩
        · exact hl.next.join hlast hl.free hl.nodup
        · refine Keeps.of_writes rfl (fun e he => ⟨?_, rfl⟩) (List.Subset.refl _)
          exact Function.update_of_ne (ne_of_mem_of_not_mem (List.mem_append_left _ hmem) he).symm ..
        · exact Covers.of_writes rfl (List.Subset.refl _)
        · have h1 := hacc.freeCount
          have h2 := hacc.totalCount
          refine ⟨?_, ?_⟩
          · show v.list.freeCount + v.list.count = (l ++ pool).length
            rw [List.length_append]
            push_cast
            omega
          · show v.list.totalCount = ([] : List ℕ).length + (l ++ pool).length
            rw [List.length_append]
            push_cast
            simp only [List.length_nil]
            omega
      · rw [if_neg huse] at h
        obtain ⟨heap, hheap, h⟩ := Execution.bind_eq_ok.mp h
        cases h
        obtain ⟨hnext, hprev, hall⟩ := freeAll_spec hl.next hheap
        have hdisj := List.disjoint_of_nodup_append hl.nodup
        have hnot : ¬(v.list.useFreeList = true ∨ v.list.tail = none) := by simp [huse, htail]
        refine ⟨pool, ⟨rfl, rfl, fun _ => rfl, ?_, (List.nodup_append.mp hl.nodup).2.1, ?_⟩, rfl, ?_,
          fun hexact => absurd hexact hnot, fun hexact => absurd hexact hnot⟩
        · show Chain heap.next v.list.free pool
          rw [hnext]
          exact hl.free
        · exact fun e he => (hall e).mpr ⟨hl.allocated e (List.mem_append_right _ he), fun hin => hdisj hin he⟩
        · intro e he hown
          rw [List.mem_append, not_or] at hown
          exact ⟨(hall e).mpr ⟨he, hown.1⟩, congrFun hnext e, congrFun hprev e, hown.2⟩

/-- The first part of a list, after its last entry `c` has been made to point nowhere. -/
theorem Holds.cut {c : ℕ} {heap : Heap} {list : LinkedList} (hl : Holds d v (a ++ [c] ++ b) pool)
    (hsame : ∀ e ∈ a, heap.next e = v.heap.next e) (hc : heap.next c = none) (hprev : heap.prev = v.heap.prev)
    (hhead : list.head = v.list.head) (htail : list.tail = some c) (hfree : Chain heap.next list.free pool')
    (hnodup : (a ++ [c] ++ pool').Nodup) (halloc : ∀ e ∈ a ++ [c] ++ pool', heap.allocated e = true) :
    Holds d ⟨heap, list⟩ (a ++ [c]) pool' := by
  refine ⟨?_, ?_, fun hd => ?_, hfree, hnodup, halloc⟩
  · have hcut := Chain.cut (k := v.nextLinks) hl.next (List.nodup_append.mp hnodup).1
    rw [List.getLast?_concat] at hcut
    have hlinks : Chain (Function.update v.heap.next c none) list.head (a ++ [c]) := by
      rw [hhead]
      exact hcut
    refine hlinks.congr fun e he => ?_
    by_cases heq : e = c
    · subst heq
      rw [hc, Function.update_self]
    · rw [Function.update_of_ne heq]
      exact hsame e (by simpa [heq] using he)
  · rw [List.getLast?_concat]
    exact htail
  · have hback := hl.prev hd
    rw [List.reverse_append] at hback
    have hrest := hback.of_append
    rw [hrest.head_eq] at hrest
    show Chain heap.prev list.tail (a ++ [c]).reverse
    rw [hprev, htail]
    simpa using hrest

/-- The list is cut after its current element, whose place is right. -/
theorem clipListAtCurrent_spec {c : ℕ} (hl : Holds d v (a ++ c :: b) pool)
    (hcount : v.list.count = (a ++ c :: b).length) (hcurrent : v.list.current = some c)
    (hplace : b ≠ [] → v.list.place = a.length) (h : clipListAtCurrent v = .ok v') :
    ∃ pool', Done (v.list.useFreeList = true ∨ b = []) d v v' (a ++ c :: b) pool (a ++ [c]) pool' := by
  have hnext : v.heap.next c = b.head? := hl.next_eq
  rw [clipListAtCurrent, hcurrent] at h
  dsimp only at h
  rw [hnext] at h
  cases b with
  | nil =>
      cases h
      exact ⟨pool, Done.of_same hl hcount rfl ⟨_, _, rfl⟩⟩
  | cons e b =>
      have hplace := hplace (List.cons_ne_nil e b)
      rw [List.append_cons] at hl hcount ⊢
      obtain ⟨t, ht⟩ : ∃ t, (e :: b).getLast? = some t := ⟨_, List.getLast?_eq_some_getLast (by simp)⟩
      have htail : v.list.tail = some t := hl.tail.trans (by simp [List.getLast?_append, ht])
      have htmem : t ∈ e :: b := List.mem_of_getLast? ht
      have hlnodup := (List.nodup_append.mp hl.nodup).1
      have hdisj := List.disjoint_of_nodup_append hlnodup
      have hpool := List.disjoint_of_nodup_append hl.nodup
      have hcb : c ∉ e :: b := hdisj (by simp)
      have hac : c ∉ a := fun hmem =>
        List.disjoint_of_nodup_append (List.nodup_append.mp hlnodup).1 hmem (List.mem_singleton_self c)
      have hcpool : c ∉ pool := hpool (by simp)
      have hrest : Chain v.heap.next (some e) (e :: b) := by
        have hrest := hl.next.of_append
        rwa [List.getLast?_concat, show Links.get ⟨v.list.head, v.heap.next⟩ (some c) = v.heap.next c from rfl,
          hnext] at hrest
      dsimp only [List.head?_cons] at h
      obtain ⟨v₁, hcut, h⟩ := Execution.bind_eq_ok.mp h
      cases h
      by_cases huse : v.list.useFreeList = true
      · simp only [if_pos huse, htail] at hcut
        cases hcut
        have hct : c ≠ t := (ne_of_mem_of_not_mem htmem hcb).symm
        have hbnodup : (e :: b ++ pool).Nodup := by
          have hnodup := hl.nodup
          rw [List.append_assoc] at hnodup
          exact (List.nodup_append.mp hnodup).2.1
        have hassoc : a ++ [c] ++ (e :: b ++ pool) = a ++ [c] ++ e :: b ++ pool := (List.append_assoc ..).symm
        refine ⟨e :: b ++ pool, hl.cut (fun x hx => ?_) (Function.update_self ..) rfl rfl rfl ?_ (hassoc ▸ hl.nodup)
          (hassoc ▸ hl.allocated), ?_, ?_, fun _ => ?_, fun _ hacc => ?_⟩
        · have hxc : x ≠ c := ne_of_mem_of_not_mem hx hac
          have hxt : x ≠ t := fun heq => hdisj (List.mem_append_left _ hx) (heq ▸ htmem)
          simp only [View.setNext, Function.update_of_ne hxc, Function.update_of_ne hxt]
        · have hjoin := hrest.join ht hl.free hbnodup
          simp only [View.setNext, Function.update_of_ne hct, hnext]
          refine hjoin.congr fun x hx => ?_
          have hxc : x ≠ c := by
            rintro rfl
            exact (List.mem_append.mp hx).elim hcb hcpool
          rw [Function.update_of_ne hxc, Function.update_of_ne hxc]
        · show v.list.place + 1 = (a ++ [c]).length
          rw [hplace]
          simp
        · rw [hassoc]
          refine Keeps.of_writes rfl (fun x hx => ⟨?_, rfl⟩) (List.Subset.refl _)
          simp only [List.mem_append, not_or] at hx
          have hxc : x ≠ c := fun heq => hx.1.1.2 (List.mem_singleton.mpr heq)
          have hxt : x ≠ t := (ne_of_mem_of_not_mem htmem hx.1.2).symm
          simp only [View.setNext, Function.update_of_ne hxc, Function.update_of_ne hxt]
        · rw [hassoc]
          exact Covers.of_writes rfl (List.Subset.refl _)
        · have h1 := hacc.freeCount
          have h2 := hacc.totalCount
          simp only [List.length_append, List.length_cons, List.length_nil] at hcount h2
          push_cast at hcount h2
          refine ⟨?_, ?_⟩
          · show v.list.freeCount + (v.list.count - (v.list.place + 1)) = (e :: b ++ pool).length
            simp only [List.length_append, List.length_cons]
            push_cast
            omega
          · show v.list.totalCount = (a ++ [c]).length + (e :: b ++ pool).length
            simp only [List.length_append, List.length_cons, List.length_nil]
            push_cast
            omega
      · rw [if_neg huse] at hcut
        obtain ⟨heap, hheap, hcut⟩ := Execution.bind_eq_ok.mp hcut
        cases hcut
        obtain ⟨hsame, hprev, hall⟩ := freeAll_spec hrest hheap
        have hnot : ¬(v.list.useFreeList = true ∨ e :: b = []) := by simp [huse]
        have hnext' : ∀ x, x ≠ c → Function.update heap.next c none x = v.heap.next x := fun x hx =>
          (Function.update_of_ne hx ..).trans (congrFun hsame x)
        have hkept : ∀ x ∈ a ++ [c] ++ pool, x ∈ a ++ [c] ++ e :: b ++ pool ∧ x ∉ e :: b := by
          intro x hx
          cases List.mem_append.mp hx with
          | inl hmem => exact ⟨List.mem_append_left _ (List.mem_append_left _ hmem), hdisj hmem⟩
          | inr hmem =>
              exact ⟨List.mem_append_right _ hmem, fun hin => hpool (List.mem_append_right _ hin) hmem⟩
        refine ⟨pool, hl.cut (fun x hx => hnext' x (ne_of_mem_of_not_mem hx hac)) (Function.update_self ..) hprev rfl
          rfl ?_ ?_ ?_, ?_, ?_, fun hexact => absurd hexact hnot, fun hexact => absurd hexact hnot⟩
        · exact hl.free.congr fun x hx => hnext' x (ne_of_mem_of_not_mem hx hcpool)
        · exact hl.nodup.sublist ((List.sublist_append_left _ _).append_right pool)
        · exact fun x hx => (hall x).mpr ⟨hl.allocated x (hkept x hx).1, (hkept x hx).2⟩
        · show v.list.place + 1 = (a ++ [c]).length
          rw [hplace]
          simp
        · intro x hx hown
          simp only [List.mem_append, not_or] at hown
          have hxc : x ≠ c := fun heq => hown.1.1.2 (List.mem_singleton.mpr heq)
          refine ⟨(hall x).mpr ⟨hx, hown.1.2⟩, hnext' x hxc, congrFun hprev x, ?_⟩
          simp only [List.mem_append, not_or]
          exact ⟨hown.1.1, hown.2⟩

end Scarab.ListLib
