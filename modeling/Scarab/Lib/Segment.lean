import Scarab.Lib.Linked

/-! # Segments of linked lists

A list that is linked through pointers is cut into segments, each of which points to the next.
What is done to the list at a seam is done to the segments on its two sides. -/

namespace Scarab.Linked

variable {ι : Type} {next next' : ι → Option ι} {start stop q : Option ι} {p x : ι} {l first rest : List ι}

/-- Following the successors from `start` visits the list and then gets to `stop`. -/
def Segment (next : ι → Option ι) : Option ι → List ι → Option ι → Prop
  | start, [], stop => start = stop
  | start, p :: rest, stop => start = some p ∧ Segment next (next p) rest stop

theorem chain_iff_segment : Chain next start l ↔ Segment next start l none := by
  induction l generalizing start with
  | nil => rfl
  | cons p rest ih => exact and_congr_right fun _ => ih

theorem segment_append :
    Segment next start (first ++ rest) stop ↔ ∃ m, Segment next start first m ∧ Segment next m rest stop := by
  induction first generalizing start with
  | nil =>
      constructor
      · intro h
        exact ⟨start, rfl, h⟩
      · rintro ⟨m, rfl, h⟩
        exact h
  | cons p first ih =>
      constructor
      · rintro ⟨hp, h⟩
        obtain ⟨m, hfirst, hrest⟩ := ih.mp h
        exact ⟨m, ⟨hp, hfirst⟩, hrest⟩
      · rintro ⟨m, ⟨hp, hfirst⟩, hrest⟩
        exact ⟨hp, ih.mpr ⟨m, hfirst, hrest⟩⟩

/-- Successors of other elements do not matter. -/
theorem Segment.congr (h : Segment next start l stop) (hsame : ∀ x ∈ l, next' x = next x) :
    Segment next' start l stop := by
  induction l generalizing start with
  | nil => exact h
  | cons p rest ih =>
      refine ⟨h.1, ?_⟩
      rw [hsame p (by simp)]
      exact ih h.2 fun x hx => hsame x (by simp [hx])

/-- The last element of a segment points to where the segment stops. -/
theorem Segment.get_last {k : Links ι} (h : Segment k.next k.head l stop) : k.get l.getLast? = stop := by
  obtain ⟨head, next⟩ := k
  induction l generalizing head with
  | nil => exact h
  | cons p rest ih =>
      cases rest with
      | nil => exact h.2
      | cons r rest =>
          have hrest := ih (next p) h.2
          rw [List.getLast?_cons_cons]
          obtain ⟨t, ht⟩ : ∃ t, (r :: rest).getLast? = some t := ⟨_, List.getLast?_eq_some_getLast (by simp)⟩
          rw [ht] at hrest ⊢
          exact hrest

section Writes

variable [DecidableEq ι] {k : Links ι} {last : Option ι}

theorem Links.set_next_of_ne (hx : some x ≠ last) : (k.set last q).next x = k.next x := by
  cases last with
  | none => rfl
  | some t => exact Function.update_of_ne (fun heq => hx (congrArg some heq)) ..

/-- A segment whose last element is made to point elsewhere stops there. -/
theorem Segment.set_last (h : Segment k.next k.head l stop) (hnodup : l.Nodup) :
    Segment (k.set l.getLast? q).next (k.set l.getLast? q).head l q := by
  obtain ⟨head, next⟩ := k
  induction l generalizing head with
  | nil => rfl
  | cons p rest ih =>
      obtain ⟨hp, hrest⟩ := h
      obtain ⟨hmem, hnodup⟩ := List.nodup_cons.mp hnodup
      cases rest with
      | nil => exact ⟨hp, Function.update_self ..⟩
      | cons r rest =>
          have hset := ih hnodup (next p) hrest
          rw [List.getLast?_cons_cons]
          obtain ⟨t, ht⟩ : ∃ t, (r :: rest).getLast? = some t := ⟨_, List.getLast?_eq_some_getLast (by simp)⟩
          have hpt : p ≠ t := fun heq => hmem (heq ▸ List.mem_of_getLast? ht)
          rw [ht] at hset ⊢
          refine ⟨hp, ?_⟩
          rw [Links.set_next_of_ne fun heq => hpt (Option.some.inj heq)]
          exact hset

/-- `p->next = last->next; last->next = p`, where no `last` is the head. -/
def Links.insert (k : Links ι) (last : Option ι) (p : ι) : Links ι :=
  Links.set { k with next := Function.update k.next p (k.get last) } last (some p)

theorem Links.insert_next_of_ne (hx : some x ≠ last) (hp : x ≠ p) : (k.insert last p).next x = k.next x := by
  rw [Links.insert, Links.set_next_of_ne hx]
  exact Function.update_of_ne hp ..

/-- A new element between two parts of a list. -/
theorem Chain.insert (h : Chain k.next k.head (first ++ rest)) (hnodup : (first ++ rest).Nodup)
    (hp : p ∉ first ++ rest) :
    Chain (k.insert first.getLast? p).next (k.insert first.getLast? p).head (first ++ p :: rest) := by
  rw [chain_iff_segment] at h ⊢
  obtain ⟨m, hfirst, hrest⟩ := segment_append.mp h
  have hlast : ∀ x, x ∉ first → some x ≠ first.getLast? :=
    fun x hx heq => hx (List.mem_of_getLast? heq.symm)
  rw [List.mem_append, not_or] at hp
  apply segment_append.mpr
  refine ⟨some p, ?_, rfl, ?_⟩
  · have hmoved : Segment (Function.update k.next p (k.get first.getLast?)) k.head first m :=
      hfirst.congr fun x hx => Function.update_of_ne (ne_of_mem_of_not_mem hx hp.1) ..
    exact Segment.set_last (k := { k with next := _ }) hmoved (List.nodup_append.mp hnodup).1
  · have hnext : (k.insert first.getLast? p).next p = m := by
      rw [Links.insert, Links.set_next_of_ne (hlast p hp.1)]
      exact (Function.update_self ..).trans hfirst.get_last
    rw [hnext]
    apply hrest.congr
    intro x hx
    have hdisj := List.disjoint_of_nodup_append hnodup
    exact Links.insert_next_of_ne (hlast x fun hmem => hdisj hmem hx) (ne_of_mem_of_not_mem hx hp.2)

/-- The first part of a list, cut off. -/
theorem Chain.cut (h : Chain k.next k.head (first ++ rest)) (hnodup : first.Nodup) :
    Chain (k.set first.getLast? none).next (k.set first.getLast? none).head first := by
  rw [chain_iff_segment] at h ⊢
  obtain ⟨m, hfirst, _⟩ := segment_append.mp h
  exact hfirst.set_last hnodup

/-- A list whose last element is made to point to another list. -/
theorem Chain.join {t : ι} (h : Chain next start l) (ht : l.getLast? = some t) (hq : Chain next q rest)
    (hnodup : (l ++ rest).Nodup) : Chain (Function.update next t q) start (l ++ rest) := by
  rw [chain_iff_segment] at h hq ⊢
  have hset := Segment.set_last (k := ⟨start, next⟩) (q := q) h (List.nodup_append.mp hnodup).1
  rw [ht] at hset
  have hmem : t ∉ rest := fun hrest =>
    List.disjoint_of_nodup_append hnodup (List.mem_of_getLast? ht) hrest
  exact segment_append.mpr ⟨q, hset, hq.congr fun x hx => Function.update_of_ne (ne_of_mem_of_not_mem hx hmem) ..⟩

end Writes

end Scarab.Linked
