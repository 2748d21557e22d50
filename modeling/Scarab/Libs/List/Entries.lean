import Mathlib.Data.List.Range
import Scarab.Lib.Segment
import Scarab.Libs.List.State

/-! # The entries of one list

A list owns the entries that are linked into it and those on its free list. What an operation on
the list does to other entries, and which entries it takes, frees or loses, is the same for all
operations: it comes down to `get_list_entry` and `free_list_entry`. -/

namespace Scarab.ListLib

open Linked

/-- The links from head to tail. -/
def View.nextLinks (v : View) : Links ℕ := ⟨v.list.head, v.heap.next⟩

/-- The links from tail to head. -/
def View.prevLinks (v : View) : Links ℕ := ⟨v.list.tail, v.heap.prev⟩

/-- The list goes through the entries `l`, back as well if it is doubly linked, and its free list
through `pool`. -/
structure Holds (doubly : Bool) (v : View) (l pool : List ℕ) : Prop where
  next : Chain v.heap.next v.list.head l
  tail : v.list.tail = l.getLast?
  prev : doubly = true → Chain v.heap.prev v.list.tail l.reverse
  free : Chain v.heap.next v.list.free pool
  nodup : (l ++ pool).Nodup
  allocated : ∀ e ∈ l ++ pool, v.heap.allocated e = true

/-- The counts are right, where `n` entries are linked or have been taken to be linked. -/
structure Accounts (list : LinkedList) (n : ℕ) (pool : List ℕ) : Prop where
  freeCount : list.freeCount = pool.length
  totalCount : list.totalCount = n + pool.length

/-- An owner of `own` has come to own `own'`, and the other entries are as they were. -/
def Keeps (h h' : Heap) (own own' : List ℕ) : Prop :=
  ∀ e, h.allocated e = true → e ∉ own →
    h'.allocated e = true ∧ h'.next e = h.next e ∧ h'.prev e = h.prev e ∧ e ∉ own'

/-- What is allocated has an owner, as before. -/
def Covers (h h' : Heap) (own own' : List ℕ) : Prop :=
  ∀ e, h'.allocated e = true → e ∈ own' ∨ h.allocated e = true ∧ e ∉ own

variable {ret : ℕ → Option ℕ} {d : Bool} {v v' : View} {h h' h'' : Heap} {l pool own own' own'' a b : List ℕ}
  {temp p t : ℕ}

theorem Keeps.trans (hfirst : Keeps h h' own own') (hsecond : Keeps h' h'' own' own'') : Keeps h h'' own own'' := by
  intro e halloc hown
  obtain ⟨halloc', hnext, hprev, hown'⟩ := hfirst e halloc hown
  obtain ⟨halloc'', hnext', hprev', hown''⟩ := hsecond e halloc' hown'
  exact ⟨halloc'', hnext'.trans hnext, hprev'.trans hprev, hown''⟩

theorem Covers.trans (hfirst : Covers h h' own own') (hsecond : Covers h' h'' own' own'') :
    Covers h h'' own own'' := by
  intro e halloc
  cases hsecond e halloc with
  | inl hmem => exact .inl hmem
  | inr hold =>
      cases hfirst e hold.1 with
      | inl hmem => exact absurd hmem hold.2
      | inr hold' => exact .inr hold'

/-- Writing to the links of the own entries. -/
theorem Keeps.of_writes (halloc : h'.allocated = h.allocated)
    (hsame : ∀ e ∉ own, h'.next e = h.next e ∧ h'.prev e = h.prev e) (hsub : own' ⊆ own) :
    Keeps h h' own own' := by
  intro e he hown
  obtain ⟨hnext, hprev⟩ := hsame e hown
  exact ⟨halloc ▸ he, hnext, hprev, fun hmem => hown (hsub hmem)⟩

theorem Covers.of_writes (halloc : h'.allocated = h.allocated) (hsub : own ⊆ own') : Covers h h' own own' := by
  intro e he
  by_cases hmem : e ∈ own
  · exact .inl (hsub hmem)
  · exact .inr ⟨halloc ▸ he, hmem⟩

/-! ## Taking an entry -/

theorem linkBlock_of_not_mem {next : ℕ → Option ℕ} {n e : ℕ} (he : e ∉ List.range' temp (n + 1)) :
    linkBlock next temp n e = next e := by
  induction n generalizing next temp with
  | zero =>
      rw [List.range'_succ] at he
      exact Function.update_of_ne (List.ne_of_not_mem_cons he) ..
  | succ n ih =>
      rw [List.range'_succ, List.mem_cons, not_or] at he
      rw [linkBlock, ih he.2]
      exact Function.update_of_ne he.1 ..

theorem linkBlock_chain (next : ℕ → Option ℕ) (temp n : ℕ) :
    Chain (linkBlock next temp n) (some temp) (List.range' temp (n + 1)) := by
  induction n generalizing next temp with
  | zero => exact ⟨rfl, Function.update_self ..⟩
  | succ n ih =>
      rw [List.range'_succ]
      refine ⟨rfl, ?_⟩
      have htemp : linkBlock next temp (n + 1) temp = some (temp + 1) := by
        rw [linkBlock, linkBlock_of_not_mem (by simp)]
        exact Function.update_self ..
      rw [htemp]
      exact ih _ (temp + 1)

/-- What `malloc` does. -/
theorem Heap.malloc_spec {n : ℕ} (hmalloc : h.malloc ret n = .ok (temp, h')) :
    h'.next = h.next ∧ h'.prev = h.prev ∧ (∀ e ∈ List.range' temp n, h.allocated e = false) ∧
      ∀ e, h'.allocated e = true ↔ e ∈ List.range' temp n ∨ h.allocated e = true := by
  simp only [Heap.malloc] at hmalloc
  cases hret : ret h.mallocs with
  | none =>
      rw [hret] at hmalloc
      cases hmalloc
  | some rval =>
      rw [hret] at hmalloc
      simp only at hmalloc
      by_cases hany : (List.range' rval n).any h.allocated = true
      · rw [if_pos hany] at hmalloc
        cases hmalloc
      · rw [if_neg hany] at hmalloc
        cases hmalloc
        refine ⟨rfl, rfl, fun e he => ?_, fun e => by simp⟩
        simpa using fun halloc => hany (List.any_eq_true.mpr ⟨e, he, halloc⟩)

/-- An entry has been taken for a list. -/
structure Got (d : Bool) (v v' : View) (l pool pool' : List ℕ) (temp : ℕ) : Prop where
  linked : Holds d v' l pool'
  fresh : temp ∉ l ++ pool'
  allocated : v'.heap.allocated temp = true
  keeps : Keeps v.heap v'.heap (l ++ pool) (temp :: (l ++ pool'))
  covers : Covers v.heap v'.heap (l ++ pool) (temp :: (l ++ pool'))
  accounts : ∀ n, Accounts v.list n pool → Accounts v'.list (n + 1) pool'
  current : v'.list.current = v.list.current
  count : v'.list.count = v.list.count

/-- A new block, the first entry of which is taken and the rest of which goes to the free list. -/
theorem Holds.block {heap : Heap} {n : ℕ} {next : ℕ → Option ℕ} {list : LinkedList} (hl : Holds d v l pool)
    (hmalloc : v.heap.malloc ret (n + 1) = .ok (temp, heap))
    (hnext : ∀ e ∉ List.range' (temp + 1) n, next e = heap.next e)
    (hchain : Chain next list.free (List.range' (temp + 1) n ++ pool)) (hhead : list.head = v.list.head)
    (htail : list.tail = v.list.tail) (hcurrent : list.current = v.list.current)
    (hcount : list.count = v.list.count) (hfreeCount : list.freeCount = v.list.freeCount + n)
    (htotal : list.totalCount = v.list.totalCount + (n + 1)) :
    Got d v ⟨{ heap with next := next }, list⟩ l pool (List.range' (temp + 1) n ++ pool) temp := by
  obtain ⟨hsame, hprev, hfresh, halloc⟩ := Heap.malloc_spec hmalloc
  rw [List.range'_succ] at hfresh halloc
  have hold : ∀ e, v.heap.allocated e = true → e ∉ temp :: List.range' (temp + 1) n := by
    intro e he hmem
    rw [hfresh e hmem] at he
    cases he
  have hown : ∀ e ∈ l ++ pool, e ∉ temp :: List.range' (temp + 1) n := fun e he => hold e (hl.allocated e he)
  have hmem_own : ∀ e, e ∈ temp :: (l ++ (List.range' (temp + 1) n ++ pool)) ↔
      e ∈ temp :: List.range' (temp + 1) n ∨ e ∈ l ++ pool := by
    intro e
    simp only [List.mem_cons, List.mem_append]
    tauto
  refine ⟨⟨?_, htail.trans hl.tail, ?_, hchain, ?_, ?_⟩, ?_, ?_, ?_, ?_, ?_, hcurrent, hcount⟩
  · refine (hhead ▸ hl.next : Chain v.heap.next list.head l).congr fun e he => ?_
    rw [← hsame]
    exact hnext e fun hmem => hown e (List.mem_append_left _ he) (List.mem_cons_of_mem _ hmem)
  · intro hd
    rw [htail]
    exact (hl.prev hd).congr fun e _ => congrFun hprev e
  · have hperm : (l ++ (List.range' (temp + 1) n ++ pool)).Perm (List.range' (temp + 1) n ++ (l ++ pool)) := by
      rw [← List.append_assoc, ← List.append_assoc]
      exact List.perm_append_comm.append_right pool
    rw [hperm.nodup_iff, List.nodup_append]
    refine ⟨List.nodup_range', hl.nodup, fun e he e' he' heq => ?_⟩
    exact hown e' he' (List.mem_cons_of_mem _ (heq ▸ he))
  · intro e he
    apply (halloc e).mpr
    cases (hmem_own e).mp (List.mem_cons_of_mem _ he) with
    | inl hmem => exact .inl hmem
    | inr hmem => exact .inr (hl.allocated e hmem)
  · intro hmem
    simp only [List.mem_append] at hmem
    cases hmem with
    | inl hmem => exact hown temp (List.mem_append_left _ hmem) List.mem_cons_self
    | inr hmem =>
        cases hmem with
        | inl hmem => exact absurd (List.mem_range'_1.mp hmem).1 (by omega)
        | inr hmem => exact hown temp (List.mem_append_right _ hmem) List.mem_cons_self
  · exact (halloc temp).mpr (.inl List.mem_cons_self)
  · intro e he hnot
    have hmem := hold e he
    refine ⟨(halloc e).mpr (.inr he), ?_, congrFun hprev e, fun hin => ?_⟩
    · exact (hnext e fun hin => hmem (List.mem_cons_of_mem _ hin)).trans (congrFun hsame e)
    · exact ((hmem_own e).mp hin).elim hmem hnot
  · intro e he
    by_cases hmem : e ∈ temp :: List.range' (temp + 1) n
    · exact .inl ((hmem_own e).mpr (.inl hmem))
    · by_cases hin : e ∈ l ++ pool
      · exact .inl ((hmem_own e).mpr (.inr hin))
      · exact .inr ⟨((halloc e).mp he).resolve_left hmem, hin⟩
  · intro m hm
    have h1 := hm.freeCount
    have h2 := hm.totalCount
    refine ⟨?_, ?_⟩
    · rw [hfreeCount, h1, List.length_append, List.length_range']
      push_cast
      omega
    · rw [htotal, h2, List.length_append, List.length_range']
      push_cast
      omega

/-- What `get_list_entry` does. -/
theorem getListEntry_spec (hl : Holds d v l pool) (hget : getListEntry ret v = .ok (temp, v')) :
    ∃ pool', Got d v v' l pool pool' temp := by
  rw [getListEntry] at hget
  by_cases huse : v.list.useFreeList = true
  · rw [if_pos huse] at hget
    cases pool with
    | nil =>
        have hfree : v.list.free = none := hl.free
        rw [hfree] at hget
        obtain ⟨⟨rval, heap⟩, hmalloc, hget⟩ := Execution.bind_eq_ok.mp hget
        cases hget
        refine ⟨_, hl.block (n := 7) hmalloc (fun e he => linkBlock_of_not_mem he) ?_ rfl rfl rfl rfl rfl rfl⟩
        rw [List.append_nil]
        exact linkBlock_chain _ _ 6
    | cons first pool =>
        obtain ⟨hfree, hrest⟩ := hl.free
        rw [hfree] at hget
        cases hget
        have hperm : (l ++ temp :: pool).Perm (temp :: (l ++ pool)) := List.perm_middle
        have hnodup := List.nodup_cons.mp (hperm.nodup_iff.mp hl.nodup)
        refine ⟨pool, ⟨hl.next, hl.tail, hl.prev, hrest, hnodup.2, ?_⟩, hnodup.1, ?_, ?_, ?_, ?_, rfl, rfl⟩
        · exact fun e he => hl.allocated e (hperm.mem_iff.mpr (List.mem_cons_of_mem _ he))
        · exact hl.allocated temp (hperm.mem_iff.mpr List.mem_cons_self)
        · exact Keeps.of_writes rfl (fun _ _ => ⟨rfl, rfl⟩) hperm.symm.subset
        · exact Covers.of_writes rfl hperm.subset
        · intro n hn
          have h1 := hn.freeCount
          have h2 := hn.totalCount
          rw [List.length_cons] at h1 h2
          refine ⟨?_, ?_⟩
          · show v.list.freeCount - 1 = pool.length
            omega
          · show v.list.totalCount = (n + 1 : ℕ) + pool.length
            omega
  · rw [if_neg huse] at hget
    obtain ⟨⟨rval, heap⟩, hmalloc, hget⟩ := Execution.bind_eq_ok.mp hget
    cases hget
    obtain ⟨hsame, _⟩ := Heap.malloc_spec hmalloc
    exact ⟨_, hl.block (n := 0) hmalloc (fun _ _ => rfl) (hsame ▸ hl.free) rfl rfl rfl rfl
      (Int.add_zero _).symm rfl⟩

/-! ## Giving an entry back -/

/-- An entry that was taken out of the links has been given back. -/
structure Freed (d : Bool) (v v' : View) (l pool pool' : List ℕ) (entry : ℕ) : Prop where
  linked : Holds d v' l pool'
  keeps : Keeps v.heap v'.heap (entry :: (l ++ pool)) (l ++ pool')
  covers : Covers v.heap v'.heap (entry :: (l ++ pool)) (l ++ pool')
  accounts : ∀ n, Accounts v.list (n + 1) pool → Accounts v'.list n pool'
  count : v'.list.count = v.list.count - 1

/-- What `free_list_entry` does. -/
theorem freeListEntry_spec (hl : Holds d v l pool) (hfresh : p ∉ l ++ pool) (halloc : v.heap.allocated p = true)
    (hfree : freeListEntry v p = .ok v') : ∃ pool', Freed d v v' l pool pool' p := by
  rw [freeListEntry] at hfree
  have hmem := hfresh
  rw [List.mem_append, not_or] at hmem
  by_cases huse : v.list.useFreeList = true
  · rw [if_pos huse] at hfree
    cases hfree
    have hperm : (l ++ p :: pool).Perm (p :: (l ++ pool)) := List.perm_middle
    refine ⟨p :: pool, ⟨hl.next.update hmem.1 _, hl.tail, hl.prev, ⟨rfl, ?_⟩, ?_, ?_⟩, ?_, ?_, ?_, rfl⟩
    · show Chain (Function.update v.heap.next p v.list.free) (Function.update v.heap.next p v.list.free p) pool
      rw [Function.update_self]
      exact hl.free.update hmem.2 _
    · exact hperm.nodup_iff.mpr (List.nodup_cons.mpr ⟨hfresh, hl.nodup⟩)
    · intro e he
      cases List.mem_cons.mp (hperm.mem_iff.mp he) with
      | inl heq => exact heq ▸ halloc
      | inr hin => exact hl.allocated e hin
    · refine Keeps.of_writes rfl (fun e he => ⟨?_, rfl⟩) hperm.subset
      exact Function.update_of_ne (List.ne_of_not_mem_cons he) ..
    · exact Covers.of_writes rfl hperm.symm.subset
    · intro n hn
      have h1 := hn.freeCount
      have h2 := hn.totalCount
      refine ⟨?_, ?_⟩
      · show v.list.freeCount + 1 = (p :: pool).length
        rw [List.length_cons]
        omega
      · show v.list.totalCount = n + (p :: pool).length
        rw [List.length_cons]
        omega
  · rw [if_neg huse] at hfree
    obtain ⟨heap, hheap, hfree⟩ := Execution.bind_eq_ok.mp hfree
    cases hfree
    rw [Heap.free, if_pos halloc] at hheap
    cases hheap
    have hstays : ∀ e, e ≠ p → Function.update v.heap.allocated p false e = v.heap.allocated e :=
      fun e he => Function.update_of_ne he ..
    refine ⟨pool, ⟨hl.next, hl.tail, hl.prev, hl.free, hl.nodup, ?_⟩, ?_, ?_, ?_, rfl⟩
    · intro e he
      exact (hstays e (ne_of_mem_of_not_mem he hfresh)).trans (hl.allocated e he)
    · intro e he hnot
      rw [List.mem_cons, not_or] at hnot
      exact ⟨(hstays e hnot.1).trans he, rfl, rfl, hnot.2⟩
    · intro e he
      by_cases heq : e = p
      · subst heq
        have hfreed : Function.update v.heap.allocated e false e = true := he
        rw [Function.update_self] at hfreed
        cases hfreed
      · have hold : v.heap.allocated e = true := (hstays e heq).symm.trans he
        by_cases hin : e ∈ l ++ pool
        · exact .inl hin
        · exact .inr ⟨hold, by simp only [List.mem_cons, not_or]; exact ⟨heq, hin⟩⟩
    · intro n hn
      have h1 := hn.freeCount
      have h2 := hn.totalCount
      refine ⟨h1, ?_⟩
      show v.list.totalCount - 1 = n + pool.length
      omega

/-- What the loops of `clear_list` and `clip_list_at_current` do without a free list. -/
theorem freeAll_spec {n : ℕ} {start : Option ℕ} (hl : Chain h.next start l) (hfree : freeAll n start h = .ok h') :
    h'.next = h.next ∧ h'.prev = h.prev ∧ ∀ e, h'.allocated e = true ↔ h.allocated e = true ∧ e ∉ l := by
  induction l generalizing n start h with
  | nil =>
      obtain rfl : start = none := hl
      cases n with
      | zero =>
          cases hfree
          exact ⟨rfl, rfl, fun e => by simp⟩
      | succ n =>
          cases hfree
          exact ⟨rfl, rfl, fun e => by simp⟩
  | cons p l ih =>
      obtain ⟨rfl, hrest⟩ := hl
      cases n with
      | zero => cases hfree
      | succ n =>
          obtain ⟨heap, hheap, hfree⟩ := Execution.bind_eq_ok.mp hfree
          rw [Heap.free] at hheap
          by_cases halloc : h.allocated p = true
          · rw [if_pos halloc] at hheap
            cases hheap
            obtain ⟨hnext, hprev, hall⟩ :=
              ih (h := { h with allocated := Function.update h.allocated p false }) hrest hfree
            refine ⟨hnext, hprev, fun e => ?_⟩
            rw [hall e, List.mem_cons, not_or]
            by_cases heq : e = p
            · subst heq
              simp
            · simp only [Function.update_of_ne heq]
              tauto
          · rw [if_neg halloc] at hheap
            cases hheap

end Scarab.ListLib
