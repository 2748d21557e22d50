import Scarab.Lib.Execution
import Scarab.Lib.Paging
import Scarab.Prefetcher.Types

/-! # The ideal cache

Under `REPL_IDEAL` a set puts off what it replaces: the lines that may be out are in a list of unsure lines, and those
in the ways are there for sure. -/

namespace Scarab.Memory

open Paging

/-! ## A set -/

/-- The tags of the valid ways of a set, its unsure list, and the count of sure lines in `repl_ctrs`. -/
structure IdealSet where
  entries : ℕ → Option Addr
  unsure : List Addr
  sureCount : ℕ

namespace IdealSet

def init : IdealSet := ⟨fun _ => none, [], 0⟩

/-- The valid way with a tag. -/
def findWay (k : ℕ) (s : IdealSet) (tag : Addr) : Option ℕ := (List.range k).find? fun way => s.entries way == some tag

/-- The first invalid way. -/
def freeWay (k : ℕ) (s : IdealSet) : Option ℕ := (List.range k).find? fun way => (s.entries way).isNone

/-- The lines of the valid ways. -/
def sure (k : ℕ) (s : IdealSet) : List Addr := (List.range k).filterMap s.entries

def setWay (s : IdealSet) (way : ℕ) (tag : Addr) : IdealSet := { s with entries := Function.update s.entries way (some tag) }

/-- `access_unsure_lines`: whether it hits. A line of the list moves into a way, and when all ways are sure the
list is cleared. -/
def accessUnsureLines (k : ℕ) (s : IdealSet) (tag : Addr) : Except String (IdealSet × Bool) :=
  if tag ∈ s.unsure then
    match s.freeWay k with
    | none => .error "FALSE"
    | some way =>
        if s.sureCount + 1 ≤ k then
          let t := s.setWay way tag
          .ok (⟨t.entries, if s.sureCount + 1 = k then [] else s.unsure.erase tag, s.sureCount + 1⟩, true)
        else .error "++cache->repl_ctrs[set] <= cache->assoc"
  else .ok (s, false)

/-- The valid ways go to the tail of the unsure list, and one line is to be sure. -/
def spill (k : ℕ) (s : IdealSet) : IdealSet where
  entries := fun way => if way < k then none else s.entries way
  unsure := s.unsure ++ s.sure k
  sureCount := 1

/-- `insert_sure_line`: the way for a new line, and the set with the other lines made unsure if there is no room. -/
def insertSureLine (k : ℕ) (s : IdealSet) : Except String (IdealSet × ℕ) :=
  if s.unsure ≠ [] ∨ s.sureCount = k then
    if (s.sure k).length = s.sureCount then .ok (s.spill k, 0)
    else .error "count == cache->repl_ctrs[set]"
  else
    match s.freeWay k with
    | none => .error "FALSE"
    | some way =>
        if s.sureCount + 1 ≤ k then .ok ({ s with sureCount := s.sureCount + 1 }, way)
        else .error "++cache->repl_ctrs[set] <= cache->assoc"

/-- `cache_access`: whether it hits. -/
def access (k : ℕ) (s : IdealSet) (tag : Addr) : Except String (IdealSet × Bool) :=
  match s.findWay k tag with
  | some _ => .ok (s, true)
  | none => s.accessUnsureLines k tag

/-- `cache_insert`. -/
def insert (k : ℕ) (s : IdealSet) (tag : Addr) : Except String IdealSet := do
  let (t, way) ← s.insertSureLine k
  return t.setWay way tag

end IdealSet

/-- A set and the number of its hits. -/
structure IdealLife where
  set : IdealSet
  hits : ℕ

namespace IdealLife

def init : IdealLife := ⟨.init, 0⟩

/-- An access, and the insertion after a miss. -/
def refer (k : ℕ) (s : IdealLife) (tag : Addr) : Except String IdealLife := do
  let (t, hit) ← s.set.access k tag
  if hit then return ⟨t, s.hits + 1⟩
  else
    let t ← t.insert k tag
    return ⟨t, s.hits⟩

/-- The hits over a sequence of accesses. -/
def hitsOf (k : ℕ) (accesses : List Addr) : Except String ℕ := IdealLife.hits <$> Execution.run (refer k) init accesses

end IdealLife

/-- No line that is known to be there is forgotten: a line of the unsure list is not accessed when all ways are sure, and
an insertion with a list of unsure lines finds at most one sure one. -/
def IdealSet.Clean (k : ℕ) (s : IdealSet) (tag : Addr) : Prop :=
  s.findWay k tag = none →
    (tag ∈ s.unsure → s.sureCount < k) ∧ (tag ∉ s.unsure → s.unsure = [] ∨ s.sureCount ≤ 1)

instance (k : ℕ) (s : IdealSet) (tag : Addr) : Decidable (s.Clean k tag) := by
  unfold IdealSet.Clean
  infer_instance

/-- A sequence that forgets no line. -/
def IdealLife.CleanRun (k : ℕ) : IdealLife → List Addr → Prop
  | _, [] => True
  | s, tag :: rest => s.set.Clean k tag ∧ ∀ t, s.refer k tag = .ok t → CleanRun k t rest

instance IdealLife.decidableCleanRun (k : ℕ) : ∀ (s : IdealLife) (accesses : List Addr), Decidable (s.CleanRun k accesses)
  | _, [] => isTrue trivial
  | s, tag :: rest =>
      match h : s.refer k tag with
      | .error _ => decidable_of_iff (s.set.Clean k tag)
          ⟨fun hclean => ⟨hclean, fun _ ht => nomatch h.symm.trans ht⟩, fun hclean => hclean.1⟩
      | .ok t =>
          have := decidableCleanRun k t rest
          decidable_of_iff (s.set.Clean k tag ∧ t.CleanRun k rest)
            ⟨fun hclean => ⟨hclean.1, fun _ ht => Except.ok.inj (h.symm.trans ht) ▸ hclean.2⟩,
              fun hclean => ⟨hclean.1, hclean.2 t h⟩⟩

/-! ## The lines in the ways -/

section Ways

variable {entries : ℕ → Option Addr} {l : List ℕ} {way : ℕ} {tag : Addr}

theorem filterMap_update_of_notMem (h : way ∉ l) :
    l.filterMap (Function.update entries way (some tag)) = l.filterMap entries := by
  refine List.filterMap_congr fun w hw => ?_
  have hne : w ≠ way := by
    rintro rfl
    exact h hw
  exact Function.update_of_ne hne _ _

/-- A line goes into a way that was free. -/
theorem filterMap_update_perm (hl : l.Nodup) (h : way ∈ l) (hfree : entries way = none) :
    (l.filterMap (Function.update entries way (some tag))).Perm (tag :: l.filterMap entries) := by
  induction l with
  | nil => cases h
  | cons w l ih =>
      obtain ⟨hw, hl⟩ := List.nodup_cons.mp hl
      by_cases heq : w = way
      · subst heq
        rw [List.filterMap_cons_some (Function.update_self w (some tag) entries), List.filterMap_cons_none hfree,
          filterMap_update_of_notMem hw]
      · have hmem : way ∈ l := (List.mem_cons.mp h).resolve_left fun h => heq h.symm
        have hother : Function.update entries way (some tag) w = entries w := Function.update_of_ne heq _ _
        cases hentry : entries w with
        | none =>
            rw [List.filterMap_cons_none (hother.trans hentry), List.filterMap_cons_none hentry]
            exact ih hl hmem
        | some other =>
            rw [List.filterMap_cons_some (hother.trans hentry), List.filterMap_cons_some hentry]
            exact ((ih hl hmem).cons other).trans (List.Perm.swap tag other _)

theorem toFinset_erase {l : List Addr} (hl : l.Nodup) : (l.erase tag).toFinset = l.toFinset.erase tag := by
  ext other
  rw [List.mem_toFinset, hl.mem_erase_iff, Finset.mem_erase, List.mem_toFinset]

end Ways

namespace IdealSet

variable {k : ℕ} {s t : IdealSet} {tag : Addr} {way : ℕ}

theorem mem_sure : tag ∈ s.sure k ↔ ∃ way < k, s.entries way = some tag := by
  simp [sure]

/-- The loop over the ways finds the sure lines. -/
theorem findWay_isSome : (s.findWay k tag).isSome ↔ tag ∈ s.sure k := by
  simp [findWay, mem_sure]

theorem findWay_eq_none : s.findWay k tag = none ↔ tag ∉ s.sure k := by
  rw [← findWay_isSome, Bool.not_eq_true, Option.isSome_eq_false_iff, Option.isNone_iff_eq_none]

/-- There is a free way as long as not all are sure. -/
theorem exists_freeWay (h : (s.sure k).length < k) : ∃ way, s.freeWay k = some way ∧ way < k ∧ s.entries way = none := by
  have hsome : (s.freeWay k).isSome := by
    obtain ⟨way, hway, hnone⟩ := List.length_filterMap_lt_length_iff_exists.mp (by
      rw [List.length_range]
      exact h : ((List.range k).filterMap s.entries).length < (List.range k).length)
    exact List.find?_isSome.mpr ⟨way, hway, by rw [hnone]; rfl⟩
  obtain ⟨way, hway⟩ := Option.isSome_iff_exists.mp hsome
  have hfree := List.find?_some hway
  exact ⟨way, hway, List.mem_range.mp (List.mem_of_find?_eq_some hway), Option.isNone_iff_eq_none.mp hfree⟩

theorem freeWay_eq_none (h : (s.sure k).length = k) : s.freeWay k = none := by
  refine Option.not_isSome_iff_eq_none.mp fun hsome => ?_
  obtain ⟨way, hway, hnone⟩ := List.find?_isSome.mp hsome
  have hlt := List.length_filterMap_lt_length_iff_exists.mpr ⟨way, hway, Option.isNone_iff_eq_none.mp hnone⟩
  rw [List.length_range] at hlt
  exact absurd h (Nat.ne_of_lt hlt)

theorem sure_setWay (hway : way < k) (hfree : s.entries way = none) :
    ((s.setWay way tag).sure k).Perm (tag :: s.sure k) :=
  filterMap_update_perm List.nodup_range (List.mem_range.mpr hway) hfree

/-- The lines of a set are different, the count is that of the sure ones, and with a list of unsure lines there are more
lines than ways. -/
structure Inv (k : ℕ) (s : IdealSet) : Prop where
  nodup : (s.sure k ++ s.unsure).Nodup
  count : (s.sure k).length = s.sureCount
  le : s.sureCount ≤ k
  more : s.unsure ≠ [] → k < s.sureCount + s.unsure.length

theorem sure_init : (init.sure k) = [] := by
  simp [sure, init]

theorem inv_init : init.Inv k := by
  refine ⟨?_, ?_, Nat.zero_le _, fun h => absurd rfl h⟩
  · rw [sure_init]
    exact List.nodup_nil
  · rw [sure_init]
    rfl

theorem Inv.sure_nodup (h : s.Inv k) : (s.sure k).Nodup := h.nodup.of_append_left

theorem Inv.unsure_nodup (h : s.Inv k) : s.unsure.Nodup := h.nodup.of_append_right

theorem Inv.card_sure (h : s.Inv k) : (s.sure k).toFinset.card = s.sureCount := by
  rw [List.toFinset_card_of_nodup h.sure_nodup, h.count]

/-! ## The accesses and the insertions -/

theorem access_sure (h : tag ∈ s.sure k) : s.access k tag = .ok (s, true) := by
  obtain ⟨way, hway⟩ := Option.isSome_iff_exists.mp (findWay_isSome.mpr h)
  rw [access, hway]

theorem access_miss (h : tag ∉ s.sure k) (hu : tag ∉ s.unsure) : s.access k tag = .ok (s, false) := by
  rw [access, findWay_eq_none.mpr h]
  exact if_neg hu

/-- A line of the unsure list is not found again once all ways are sure. -/
theorem Inv.access_stuck (hi : s.Inv k) (h : tag ∈ s.unsure) (hfull : s.sureCount = k) : s.access k tag = .error "FALSE" := by
  have hnot : tag ∉ s.sure k := fun hs => List.disjoint_of_nodup_append hi.nodup hs h
  rw [access, findWay_eq_none.mpr hnot]
  dsimp only [accessUnsureLines]
  rw [if_pos h, freeWay_eq_none (hi.count.trans hfull)]

/-- A hit in the unsure list. -/
theorem Inv.access_unsure (hi : s.Inv k) (h : tag ∈ s.unsure) (hlt : s.sureCount < k) :
    ∃ t, s.access k tag = .ok (t, true) ∧ t.Inv k ∧ (t.sure k).Perm (tag :: s.sure k) ∧ t.sureCount = s.sureCount + 1 ∧
      t.unsure = if s.sureCount + 1 = k then [] else s.unsure.erase tag := by
  have hnot : tag ∉ s.sure k := fun hs => List.disjoint_of_nodup_append hi.nodup hs h
  obtain ⟨way, hway, hlow, hfree⟩ := exists_freeWay (hi.count.trans_lt hlt)
  have hsure : ((s.setWay way tag).sure k).Perm (tag :: s.sure k) := sure_setWay hlow hfree
  refine ⟨⟨(s.setWay way tag).entries, if s.sureCount + 1 = k then [] else s.unsure.erase tag, s.sureCount + 1⟩, ?_, ?_,
    hsure, rfl, rfl⟩
  · rw [access, findWay_eq_none.mpr hnot]
    dsimp only [accessUnsureLines]
    rw [if_pos h, hway]
    exact if_pos hlt
  · have hmoved : ((tag :: s.sure k) ++ s.unsure.erase tag).Nodup := by
      have hperm : ((tag :: s.sure k) ++ s.unsure.erase tag).Perm (s.sure k ++ s.unsure) := by
        refine List.Perm.trans ?_ ((List.perm_cons_erase h).symm.append_left (s.sure k))
        exact (List.perm_middle).symm
      exact hperm.nodup_iff.mpr hi.nodup
    have hcount := hsure.length_eq
    rw [List.length_cons, hi.count] at hcount
    refine ⟨?_, hcount, hlt, fun hne => ?_⟩
    · by_cases hfull : s.sureCount + 1 = k
      · rw [if_pos hfull, List.append_nil]
        exact (hsure.nodup_iff).mpr hmoved.of_append_left
      · rw [if_neg hfull]
        exact (hsure.append_right _).nodup_iff.mpr hmoved
    · dsimp only at hne ⊢
      by_cases hfull : s.sureCount + 1 = k
      · rw [if_pos hfull] at hne
        exact absurd rfl hne
      · rw [if_neg hfull, List.length_erase_of_mem h]
        have hmore := hi.more (List.ne_nil_of_mem h)
        have hpos := List.length_pos_of_mem h
        omega

/-- An insertion while there is room. -/
theorem Inv.insert_room (hi : s.Inv k) (h : tag ∉ s.sure k) (hu : s.unsure = []) (hlt : s.sureCount < k) :
    ∃ t, s.insert k tag = .ok t ∧ t.Inv k ∧ (t.sure k).Perm (tag :: s.sure k) ∧ t.sureCount = s.sureCount + 1 ∧
      t.unsure = [] := by
  obtain ⟨way, hway, hlow, hfree⟩ := exists_freeWay (hi.count.trans_lt hlt)
  have hsure : ((s.setWay way tag).sure k).Perm (tag :: s.sure k) := sure_setWay hlow hfree
  refine ⟨({ s with sureCount := s.sureCount + 1 } : IdealSet).setWay way tag, ?_, ?_, hsure, rfl, hu⟩
  · have hroom : ¬ (s.unsure ≠ [] ∨ s.sureCount = k) := by
      rintro (hne | hfull)
      · exact hne hu
      · omega
    have hinsert : s.insertSureLine k = .ok ({ s with sureCount := s.sureCount + 1 }, way) := by
      rw [insertSureLine, if_neg hroom, hway]
      exact if_pos hlt
    rw [insert, hinsert]
    rfl
  · have hcount := hsure.length_eq
    rw [List.length_cons, hi.count] at hcount
    refine ⟨?_, hcount, hlt, fun hne => absurd hu hne⟩
    have hnone : (({ s with sureCount := s.sureCount + 1 } : IdealSet).setWay way tag).unsure = [] := hu
    rw [hnone, List.append_nil]
    exact hsure.nodup_iff.mpr (List.nodup_cons.mpr ⟨h, hi.sure_nodup⟩)

/-- An insertion that makes the other lines unsure. -/
theorem Inv.insert_full (hi : s.Inv k) (hk : 0 < k) (h : tag ∉ s.sure k) (hu : tag ∉ s.unsure)
    (hfull : s.unsure ≠ [] ∨ s.sureCount = k) :
    ∃ t, s.insert k tag = .ok t ∧ t.Inv k ∧ t.sure k = [tag] ∧ t.sureCount = 1 ∧ t.unsure = s.unsure ++ s.sure k := by
  have hcleared : (s.spill k).sure k = [] := by
    refine List.filterMap_eq_nil_iff.mpr fun way hway => ?_
    exact if_pos (List.mem_range.mp hway)
  have hsure : (((s.spill k).setWay 0 tag).sure k).Perm (tag :: (s.spill k).sure k) := sure_setWay hk (if_pos hk)
  rw [hcleared] at hsure
  have hone := List.perm_singleton.mp hsure
  refine ⟨(s.spill k).setWay 0 tag, ?_, ⟨?_, by rw [hone]; rfl, hk, fun _ => ?_⟩, hone, rfl, rfl⟩
  · rw [insert, insertSureLine, if_pos hfull, if_pos hi.count]
    rfl
  · rw [hone]
    change (tag :: (s.unsure ++ s.sure k)).Nodup
    refine List.nodup_cons.mpr ⟨fun hmem => ?_, List.nodup_append_comm.mp hi.nodup⟩
    exact (List.mem_append.mp hmem).elim hu h
  · change k < 1 + (s.unsure ++ s.sure k).length
    rw [List.length_append, hi.count]
    rcases hfull with hne | heq
    · have := hi.more hne
      omega
    · omega

end IdealSet

namespace IdealLife

open IdealSet

variable {k n : ℕ} {s t : IdealLife} {tag : Addr} {accesses rest future : List Addr}

/-! ## Along with the optimal policy -/

/-- The set knows the pages of the optimal policy as far as they do not depend on the future, and together with what is
to come it has the hits of the policy. -/
def Follows (k : ℕ) (s : IdealLife) (future : List Addr) (n : ℕ) : Prop :=
  s.set.Inv k ∧ ∃ pages m, Tracks k (s.set.sure k).toFinset s.set.unsure.toFinset pages future ∧
    Belady k pages future m ∧ s.hits + m = n

theorem refer_of_hit {u : IdealSet} (h : s.set.access k tag = .ok (u, true)) : s.refer k tag = .ok ⟨u, s.hits + 1⟩ := by
  rw [refer, h]
  rfl

theorem refer_of_miss {u : IdealSet} (h : s.set.access k tag = .ok (s.set, false)) (hu : s.set.insert k tag = .ok u) :
    s.refer k tag = .ok ⟨u, s.hits⟩ := by
  rw [refer, h]
  change (do let t ← s.set.insert k tag; pure (⟨t, s.hits⟩ : IdealLife)) = _
  rw [hu]
  rfl

/-- One access that forgets nothing goes along with the policy. -/
theorem Follows.refer (h : Follows k s (tag :: rest) n) (hk : 0 < k) (hclean : s.set.Clean k tag) :
    ∃ t, s.refer k tag = .ok t ∧ Follows k t rest n := by
  obtain ⟨hi, pages, m, htracks, hbelady, rfl⟩ := h
  by_cases hsure : tag ∈ s.set.sure k
  · obtain ⟨hpages, htracks⟩ := htracks.hit_sure (List.mem_toFinset.mpr hsure)
    cases hbelady with
    | hit _ hrest => exact ⟨_, refer_of_hit (access_sure hsure), hi, pages, _, htracks, hrest, by dsimp only; omega⟩
    | fill hmiss => exact absurd hpages hmiss
    | evict hmiss => exact absurd hpages hmiss
  · obtain ⟨hfound, hnew⟩ := hclean (findWay_eq_none.mpr hsure)
    have hnot : tag ∉ (s.set.sure k).toFinset := fun hmem => hsure (List.mem_toFinset.mp hmem)
    by_cases hunsure : tag ∈ s.set.unsure
    · have hlt := hfound hunsure
      obtain ⟨t, haccess, hti, hperm, -, hlist⟩ := hi.access_unsure hunsure hlt
      obtain ⟨hpages, htracks⟩ := htracks.hit_unsure (List.mem_toFinset.mpr hunsure) (hi.card_sure.trans_lt hlt)
      rw [hi.card_sure] at htracks
      have htracks : Tracks k (t.sure k).toFinset t.unsure.toFinset pages rest := by
        rw [List.toFinset_eq_of_perm _ _ hperm, List.toFinset_cons, hlist]
        by_cases hfull : s.set.sureCount + 1 = k
        · rw [if_pos hfull] at htracks ⊢
          exact htracks
        · rw [if_neg hfull] at htracks ⊢
          rw [toFinset_erase hi.unsure_nodup]
          exact htracks
      cases hbelady with
      | hit _ hrest => exact ⟨_, refer_of_hit haccess, hti, pages, _, htracks, hrest, by dsimp only; omega⟩
      | fill hmiss => exact absurd hpages hmiss
      | evict hmiss => exact absurd hpages hmiss
    · have hnotu : tag ∉ s.set.unsure.toFinset := fun hmem => hunsure (List.mem_toFinset.mp hmem)
      have hmiss := access_miss hsure hunsure
      by_cases hroom : s.set.unsure = [] ∧ s.set.sureCount < k
      · obtain ⟨t, hinsert, hti, hperm, -, hlist⟩ := hi.insert_room hsure hroom.1 hroom.2
        rw [hroom.1] at htracks
        obtain ⟨hout, hcard, htracks⟩ := htracks.fill hnot (hi.card_sure.trans_lt hroom.2)
        have htracks : Tracks k (t.sure k).toFinset t.unsure.toFinset (Insert.insert tag pages) rest := by
          rw [List.toFinset_eq_of_perm _ _ hperm, List.toFinset_cons, hlist]
          exact htracks
        cases hbelady with
        | hit hmem => exact absurd hmem hout
        | fill _ _ hrest => exact ⟨_, refer_of_miss hmiss hinsert, hti, _, _, htracks, hrest, rfl⟩
        | evict _ hfull => exact absurd hfull (Nat.ne_of_lt hcard)
      · have hfull : s.set.unsure ≠ [] ∨ s.set.sureCount = k := by
          by_cases hempty : s.set.unsure = []
          · have hle := hi.le
            exact .inr (Nat.le_antisymm hle (Nat.le_of_not_lt fun hlt => hroom ⟨hempty, hlt⟩))
          · exact .inl hempty
        obtain ⟨t, hinsert, hti, hone, -, hlist⟩ := hi.insert_full hk hsure hunsure hfull
        have hcard : pages.card = k := by
          by_cases hempty : s.set.unsure = []
          · rw [hempty] at htracks
            rw [htracks.eq_of_empty, hi.card_sure]
            exact hfull.resolve_left (not_not.mpr hempty)
          · exact htracks.card (List.toFinset_nonempty_iff _ |>.mpr hempty)
        have hfew : s.set.unsure.toFinset = ∅ ∨ (s.set.sure k).toFinset.card ≤ 1 := by
          rw [hi.card_sure, List.toFinset_eq_empty_iff]
          exact hnew hunsure
        have hout : tag ∉ pages := fun hmem => (Finset.mem_union.mp (htracks.subset hmem)).elim hnot hnotu
        cases hbelady with
        | hit hmem => exact absurd hmem hout
        | fill _ hlt => exact absurd hcard (Nat.ne_of_lt hlt)
        | evict _ _ hz hlatest hrest =>
            have htracks := htracks.evict hnot hnotu hk hcard hfew hz hlatest
            refine ⟨_, refer_of_miss hmiss hinsert, hti, _, _, ?_, hrest, rfl⟩
            dsimp only
            rw [hone, hlist, List.toFinset_append]
            exact htracks

/-- A run that forgets nothing goes along with the policy. -/
theorem Follows.run (h : Follows k s (accesses ++ future) n) (hk : 0 < k) (hclean : CleanRun k s accesses) :
    ∃ t, Execution.run (IdealLife.refer k) s accesses = .ok t ∧ Follows k t future n := by
  induction accesses generalizing s with
  | nil => exact ⟨s, rfl, h⟩
  | cons tag accesses ih =>
      obtain ⟨mid, hstep, hmid⟩ := Follows.refer h hk hclean.1
      obtain ⟨t, hrun, ht⟩ := ih hmid (hclean.2 mid hstep)
      exact ⟨t, Execution.run_cons_eq_ok.mpr ⟨mid, hstep, hrun⟩, ht⟩

theorem CleanRun.append (h : CleanRun k s accesses)
    (hrest : ∀ t, Execution.run (IdealLife.refer k) s accesses = .ok t → CleanRun k t rest) : CleanRun k s (accesses ++ rest) := by
  induction accesses generalizing s with
  | nil => exact hrest s rfl
  | cons tag accesses ih =>
      refine ⟨h.1, fun mid hmid => ih (h.2 mid hmid) fun t ht => hrest t ?_⟩
      exact Execution.run_cons_eq_ok.mpr ⟨mid, hmid, ht⟩

theorem follows_init (h : Belady k ∅ accesses n) : Follows k init accesses n := by
  refine ⟨inv_init, ∅, n, ?_, h, Nat.zero_add n⟩
  change Tracks k (IdealSet.init.sure k).toFinset IdealSet.init.unsure.toFinset ∅ accesses
  rw [sure_init]
  exact Tracks.start

/-! ## Away from the optimal policy -/

/-- Different unsure lines are all hit, as many as there are ways that are not sure. -/
theorem run_unsure (hi : s.set.Inv k) (hnodup : accesses.Nodup) (hsub : accesses ⊆ s.set.unsure)
    (hle : s.set.sureCount + accesses.length ≤ k) :
    ∃ t, Execution.run (refer k) s accesses = .ok t ∧ t.hits = s.hits + accesses.length := by
  induction accesses generalizing s with
  | nil => exact ⟨s, rfl, rfl⟩
  | cons tag accesses ih =>
      obtain ⟨hfresh, hnodup⟩ := List.nodup_cons.mp hnodup
      obtain ⟨hmem, hsub⟩ := List.cons_subset.mp hsub
      rw [List.length_cons] at hle
      obtain ⟨u, haccess, hui, -, hcount, hlist⟩ := hi.access_unsure hmem (by omega)
      have hrest : accesses ⊆ u.unsure := by
        intro other hother
        have hpos := List.length_pos_of_mem hother
        rw [hlist, if_neg (by omega), hi.unsure_nodup.mem_erase_iff]
        refine ⟨?_, hsub hother⟩
        rintro rfl
        exact hfresh hother
      obtain ⟨t, hrun, hhits⟩ := ih (s := ⟨u, s.hits + 1⟩) hui hnodup hrest (by dsimp only; omega)
      refine ⟨t, Execution.run_cons_eq_ok.mpr ⟨_, refer_of_hit haccess, hrun⟩, ?_⟩
      rw [hhits, List.length_cons]
      dsimp only
      omega

/-- Different unsure lines that are pages of the policy are no more than the pages that are not sure. -/
theorem countP_unsure_le {pages : Finset Addr} {list : List Addr} (hi : s.set.Inv k)
    (htracks : Tracks k (s.set.sure k).toFinset s.set.unsure.toFinset pages future) (hcard : pages.card = k)
    (hnodup : list.Nodup) (hsub : list ⊆ s.set.unsure) : list.countP (· ∈ pages) ≤ k - s.set.sureCount := by
  have hcount : (list.filter (· ∈ pages)).toFinset.card = list.countP (· ∈ pages) := by
    rw [List.toFinset_card_of_nodup (hnodup.filter _), List.countP_eq_length_filter]
  have hin : (list.filter (· ∈ pages)).toFinset ⊆ pages \ (s.set.sure k).toFinset := by
    intro y hy
    obtain ⟨hlist, hpage⟩ := List.mem_filter.mp (List.mem_toFinset.mp hy)
    refine Finset.mem_sdiff.mpr ⟨of_decide_eq_true hpage, fun hs => ?_⟩
    exact Finset.disjoint_left.mp htracks.disjoint hs (List.mem_toFinset.mpr (hsub hlist))
  have hle := Finset.card_le_card hin
  rwa [hcount, Finset.card_sdiff_of_subset htracks.sure_subset, hcard, hi.card_sure] at hle

/-- Where two sure lines are forgotten, the accesses to all other lines from then on. -/
def continuation (k : ℕ) (s : IdealSet) : List Addr := s.unsure.take (k + 1 - s.sureCount) ++ (s.sure k).drop 2

/-- The continuation has one access for each way that is not sure after the insertion, and the set takes them all for
hits, while the optimal policy has not all of these lines. -/
theorem Follows.diverges (h : Follows k s (tag :: continuation k s.set) n) (hk : 0 < k) (hsure : tag ∉ s.set.sure k)
    (hunsure : tag ∉ s.set.unsure) (hne : s.set.unsure ≠ []) (htwo : 2 ≤ s.set.sureCount) :
    ∃ t, Execution.run (IdealLife.refer k) s (tag :: continuation k s.set) = .ok t ∧ n < t.hits := by
  obtain ⟨hi, pages, m, htracks, hbelady, rfl⟩ := h
  have hle := hi.le
  have hmore := hi.more hne
  have hsublist : (continuation k s.set).Sublist (s.set.unsure ++ s.set.sure k) :=
    (List.take_sublist _ _).append (List.drop_sublist _ _)
  have hlength : (continuation k s.set).length = k - 1 := by
    rw [continuation, List.length_append, List.length_take, List.length_drop, hi.count]
    omega
  have hnodup := hsublist.nodup (List.nodup_append_comm.mp hi.nodup)
  obtain ⟨u, hinsert, hui, -, hone, hlist⟩ := hi.insert_full hk hsure hunsure (.inl hne)
  obtain ⟨t, hrun, hhits⟩ := run_unsure (s := ⟨u, s.hits⟩) hui hnodup (hlist ▸ hsublist.subset) (by
    dsimp only
    omega)
  refine ⟨t, Execution.run_cons_eq_ok.mpr ⟨_, refer_of_miss (access_miss hsure hunsure) hinsert, hrun⟩, ?_⟩
  have hcard := htracks.card (List.toFinset_nonempty_iff _ |>.mpr hne)
  have hout : tag ∉ pages := by
    intro hmem
    rcases Finset.mem_union.mp (htracks.subset hmem) with hs | hu
    · exact hsure (List.mem_toFinset.mp hs)
    · exact hunsure (List.mem_toFinset.mp hu)
  have hfresh : tag ∉ continuation k s.set := fun hmem =>
    (List.mem_append.mp (hsublist.subset hmem)).elim hunsure hsure
  have hbound := hbelady.le_countP (List.nodup_cons.mpr ⟨hfresh, hnodup⟩)
  simp only [List.countP_cons, hout, decide_false, Bool.false_eq_true, ↓reduceIte, Nat.add_zero, continuation,
    List.countP_append] at hbound
  have htake := countP_unsure_le hi htracks hcard (hi.unsure_nodup.sublist (List.take_sublist (k + 1 - s.set.sureCount) _))
    (List.take_subset _ _)
  have hdrop : ((s.set.sure k).drop 2).countP (· ∈ pages) ≤ s.set.sureCount - 2 := by
    refine List.countP_le_length.trans (Nat.le_of_eq ?_)
    rw [List.length_drop, hi.count]
  rw [hhits, hlength]
  dsimp only
  omega

/-! ## The optimum -/

/-- The set has the hits of the optimal policy on every sequence that forgets no line, and wherever a line would be forgotten
the sequence can go on so that it has not. -/
theorem hitsOf_belady (hk : 0 < k) :
    (∀ accesses n, CleanRun k init accesses → Belady k ∅ accesses n → hitsOf k accesses = .ok n) ∧
      ∀ history tag, CleanRun k init history → ¬ CleanRun k init (history ++ [tag]) →
        ∃ rest, ∀ n, Belady k ∅ (history ++ tag :: rest) n → hitsOf k (history ++ tag :: rest) ≠ .ok n := by
  constructor
  · intro accesses n hclean hbelady
    have hstart : Follows k init (accesses ++ []) n := by
      rw [List.append_nil]
      exact follows_init hbelady
    obtain ⟨t, hrun, hi, pages, m, htracks, hnil, rfl⟩ := hstart.run hk hclean
    cases hnil
    exact Execution.map_eq_ok.mpr ⟨t, hrun, rfl⟩
  · intro history tag hclean hforgets
    obtain ⟨n₀, hbelady₀⟩ : ∃ n, Belady k ∅ (history ++ []) n := Belady.exists hk (Finset.card_empty.trans_le (Nat.zero_le k)) _
    obtain ⟨s, hrun, hs⟩ := (follows_init hbelady₀).run hk hclean
    have hnot : ¬ s.set.Clean k tag := fun h => hforgets <| hclean.append fun t ht => by
      obtain rfl : s = t := Except.ok.inj (hrun.symm.trans ht)
      exact ⟨h, fun _ _ => trivial⟩
    by_cases hdirty : tag ∉ s.set.sure k ∧ tag ∉ s.set.unsure ∧ s.set.unsure ≠ [] ∧ 2 ≤ s.set.sureCount
    · obtain ⟨hsure, hunsure, hne, htwo⟩ := hdirty
      refine ⟨continuation k s.set, fun n hbelady hhits => ?_⟩
      obtain ⟨s', hrun', hs'⟩ := (follows_init hbelady).run hk hclean
      obtain rfl : s = s' := Except.ok.inj (hrun.symm.trans hrun')
      obtain ⟨t, hlater, hlt⟩ := hs'.diverges hk hsure hunsure hne htwo
      obtain ⟨t', hall, heq⟩ := Execution.map_eq_ok.mp hhits
      obtain ⟨mid, hmid, hlater'⟩ := Execution.run_append_eq_ok.mp hall
      obtain rfl : s = mid := Except.ok.inj (hrun.symm.trans hmid)
      obtain rfl : t = t' := Except.ok.inj (hlater.symm.trans hlater')
      omega
    · refine ⟨[], fun n _ hhits => ?_⟩
      obtain ⟨t, hall, -⟩ := Execution.map_eq_ok.mp hhits
      obtain ⟨mid, hmid, hlater⟩ := Execution.run_append_eq_ok.mp hall
      obtain rfl : s = mid := Except.ok.inj (hrun.symm.trans hmid)
      obtain ⟨u, hstep, -⟩ := Execution.run_cons_eq_ok.mp hlater
      -- what is left is a line of the list that no way is free for
      have hstuck : tag ∈ s.set.unsure ∧ s.set.sureCount = k := by
        by_contra hcontra
        refine hnot fun hnone => ⟨fun hmem => ?_, fun hmem => ?_⟩
        · exact Nat.lt_of_le_of_ne hs.1.le fun heq => hcontra ⟨hmem, heq⟩
        · by_contra hlist
          have hlist := not_or.mp hlist
          exact hdirty ⟨findWay_eq_none.mp hnone, hmem, hlist.1, by omega⟩
      obtain ⟨v, haccess, -⟩ := Execution.bind_eq_ok.mp hstep
      rw [hs.1.access_stuck hstuck.1 hstuck.2] at haccess
      cases haccess

theorem hitsOf_belady_three :
    hitsOf 3 [0, 1, 2, 3, 0] = .ok 1 ∧
      ∃ rest, ∀ n, Belady 3 ∅ ([0, 1, 2, 3, 0] ++ 4 :: rest) n → hitsOf 3 ([0, 1, 2, 3, 0] ++ 4 :: rest) ≠ .ok n := by
  have hlaw := hitsOf_belady (k := 3) (by decide)
  refine ⟨hlaw.1 _ 1 (by decide +kernel) ?_, hlaw.2 _ 4 (by decide +kernel) (by decide +kernel)⟩
  refine .fill (by simp) (by simp) (.fill (by simp) (by simp) (.fill (by simp) (by simp) ?_))
  exact .evict (z := 2) (by simp) (by simp) (by simp) (by simp [List.idxOf_cons]) (.hit (by simp) (.nil _))

/-- A line that the optimal policy has replaced is taken for a hit. -/
theorem hitsOf_not_belady :
    ¬ ∀ (k : ℕ) (accesses : List Addr) (n : ℕ), 0 < k → Belady k ∅ accesses n → hitsOf k accesses = .ok n := by
  intro h
  have hbelady : Belady 3 (∅ : Finset Addr) [0, 1, 2, 3, 0, 4, 1, 2] 2 := by
    refine .fill (by simp) (by simp) (.fill (by simp) (by simp) (.fill (by simp) (by simp) ?_))
    refine .evict (z := 2) (by simp) (by simp) (by simp) (by simp [List.idxOf_cons]) (.hit (by simp) ?_)
    refine .evict (z := 3) (by simp) (by simp) (by simp) (by simp [List.idxOf_cons]) (.hit (by simp) ?_)
    exact .evict (z := 0) (by simp) (by simp) (by simp) (by simp) (.nil _)
  have hcode : hitsOf 3 [0, 1, 2, 3, 0, 4, 1, 2] = .ok 3 := by decide +kernel
  cases (h 3 _ _ (by decide +kernel) hbelady).symm.trans hcode

end IdealLife

end Scarab.Memory
