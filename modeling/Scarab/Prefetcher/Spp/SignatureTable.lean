import Mathlib.Data.List.Perm.Basic
import Scarab.Lib.Recency
import Scarab.Lib.Row
import Scarab.Prefetcher.Spp.Equations

/-! # The Signature Table is a bounded move-to-front map

Sorted by LRU rank, a row is its valid ways, most recently touched first, followed by
the invalid ones. One promotion moves a way to the front of that order, in each of the
three cases of `spp_st_read_and_update`. -/

namespace Scarab.Spp

open Recency

variable {σ : Type} {p : Params} {addto : AddTo σ}

/-! ## Promotion -/

def SppStEntry.older (e : SppStEntry) : SppStEntry := { e with lru := e.lru + 1 }

def SppStEntry.newest (e : SppStEntry) : SppStEntry := { e with lru := 0 }

/-- Positions in an order whose ranks are `0, 1, ..`. -/
theorem ranks_split {newer rest : List SppStEntry} {e : SppStEntry} {n : ℕ}
    (h : (newer ++ e :: rest).map (·.lru) = List.range n) :
    newer.map (·.lru) = List.range newer.length ∧ e.lru = newer.length ∧
      rest.map (·.lru) = (List.range rest.length).map fun i => newer.length + (i + 1) := by
  have hlen : newer.length + (rest.length + 1) = n := by simpa using congrArg List.length h
  rw [← hlen, List.range_add, List.map_append, List.map_cons, List.range_succ_eq_map,
    List.map_cons, List.map_map] at h
  obtain ⟨hnewer, hrest⟩ := List.append_inj h (by simp)
  obtain ⟨hlru, hrest⟩ := List.cons.inj hrest
  exact ⟨hnewer, hlru, hrest⟩

/-- What the promotion of rank `n` does to another way. -/
def SppStEntry.aged (n : ℕ) (e : SppStEntry) : SppStEntry := if e.lru < n then e.older else e

/-- The ways that were newer than the promoted one age. -/
theorem map_aged_newer {newer : List SppStEntry}
    (h : newer.map (·.lru) = List.range newer.length) :
    newer.map (SppStEntry.aged newer.length) = newer.map SppStEntry.older := by
  refine List.map_congr_left fun x hx => ?_
  have hlru : x.lru ∈ newer.map (·.lru) := List.mem_map_of_mem hx
  rw [h, List.mem_range] at hlru
  exact if_pos hlru

/-- The ways that were older than the promoted one stay as they are. -/
theorem map_aged_rest {rest : List SppStEntry} {n m : ℕ}
    (h : rest.map (·.lru) = (List.range m).map fun i => n + (i + 1)) :
    rest.map (SppStEntry.aged n) = rest := by
  refine (List.map_congr_left fun x hx => ?_).trans (List.map_id rest)
  have hlru : x.lru ∈ rest.map (·.lru) := List.mem_map_of_mem hx
  rw [h] at hlru
  obtain ⟨i, _, hi⟩ := List.mem_map.mp hlru
  exact if_neg (by omega)

/-- The ranks are `0, 1, ..` again after a promotion. -/
theorem ranks_promoted {newer rest : List SppStEntry} {e e' : SppStEntry}
    (hnewer : newer.map (·.lru) = List.range newer.length) (hlru : e.lru = newer.length) :
    (e'.newest :: (newer.map SppStEntry.older ++ rest)).map (·.lru) =
      (newer ++ e :: rest).map (·.lru) := by
  have holder : (newer.map SppStEntry.older).map (·.lru) = (newer.map (·.lru)).map Nat.succ := by
    simp [SppStEntry.older, Function.comp_def]
  rw [List.map_cons, List.map_append, holder, hnewer, List.map_append, List.map_cons, hlru, hnewer]
  calc 0 :: ((List.range newer.length).map Nat.succ ++ rest.map (·.lru))
      = List.range (newer.length + 1) ++ rest.map (·.lru) := by
        rw [List.range_succ_eq_map, List.cons_append]
    _ = List.range newer.length ++ newer.length :: rest.map (·.lru) := by
        rw [List.range_succ, List.append_assoc, List.singleton_append]

/-- Promoting a way moves it to the front of the order; those that were newer age. -/
theorem stPromote_spec {newer rest before after : List SppStEntry} {e e' : SppStEntry}
    (hperm : (newer ++ e :: rest).Perm (before ++ e :: after))
    (hranks : (newer ++ e :: rest).map (·.lru) = List.range p.stWay) (he' : e'.lru = e.lru) :
    ∃ row', stPromote p (before ++ e' :: after) before.length = .ok row' ∧
      (e'.newest :: (newer.map SppStEntry.older ++ rest)).Perm row' ∧
      (e'.newest :: (newer.map SppStEntry.older ++ rest)).map (·.lru) = List.range p.stWay := by
  obtain ⟨hnewer, hlru, hrest⟩ := ranks_split hranks
  have hlen : newer.length + (rest.length + 1) = p.stWay := by
    simpa using congrArg List.length hranks
  have hothers : (newer ++ rest).Perm (before ++ after) := by
    have hcons := (List.perm_middle.symm.trans hperm).trans List.perm_middle
    exact hcons.cons_inv
  have hself : e'.aged newer.length = e' := if_neg (by rw [he', hlru]; exact Nat.lt_irrefl _)
  refine ⟨before.map (SppStEntry.aged newer.length) ++
    e'.newest :: after.map (SppStEntry.aged newer.length), ?_, ?_, ?_⟩
  · have hmatched : (((before ++ e' :: after)[before.length]?).map (·.lru)).getD 0 = newer.length := by
      simp [he', hlru]
    have hmap : (before ++ e' :: after).map (SppStEntry.aged newer.length) =
        before.map (SppStEntry.aged newer.length) ++
          e' :: after.map (SppStEntry.aged newer.length) := by
      rw [List.map_append, List.map_cons, hself]
    have hat : before.length = (before.map (SppStEntry.aged newer.length)).length := by simp
    have haged : (fun x : SppStEntry => if x.lru < newer.length then { x with lru := x.lru + 1 }
        else x) = SppStEntry.aged newer.length := rfl
    unfold stPromote
    rw [hmatched, if_pos fun x _ hx => by omega, haged, hmap, hat, Row.modify_middle]
    rfl
  · have hrow := (hothers.map (SppStEntry.aged newer.length)).cons e'.newest
    rw [List.map_append, List.map_append, map_aged_newer hnewer, map_aged_rest hrest] at hrow
    exact hrow.trans List.perm_middle.symm
  · rw [ranks_promoted hnewer hlru, hranks]

/-! ## The map a row stands for -/

/-- The signature and the last offset of each tag, most recently touched first. -/
abbrev StMap := List (Uns × Uns × ℕ)

def SppStEntry.view (e : SppStEntry) : Uns × Uns × ℕ := (e.tag, e.sig, e.lastOffset)

/-- `used` and `free` list the ways of the row by LRU rank; the used ones are the map. -/
structure Ranked (p : Params) (row : List SppStEntry) (m : StMap) (used free : List SppStEntry) :
    Prop where
  perm : (used ++ free).Perm row
  ranks : (used ++ free).map (·.lru) = List.range p.stWay
  valid : ∀ e ∈ used, e.valid = true
  invalid : ∀ e ∈ free, e.valid = false
  entries : used.map SppStEntry.view = m
  nodup : (m.map (·.1)).Nodup

/-- The row stands for the map. -/
def Represents (p : Params) (row : List SppStEntry) (m : StMap) : Prop :=
  ∃ used free, Ranked p row m used free

/-- An access to a move-to-front map of capacity `ST_WAY`: what
`spp_st_read_and_update` is for. `boot` is the signature a new tag starts with. -/
def lruAccess (p : Params) (boot : Uns) (m : StMap) (tag : Uns) (pageOffset : ℕ) : StMap × SppStOut :=
  match m.lookup tag with
  | some (sig, lastOffset) =>
      let delta := (pageOffset : ℤ) - lastOffset
      if delta = 0 then (touch p.stWay tag (sig, lastOffset) m, ⟨0, 0, delta⟩)
      else
        let currSig := ((sig <<< p.sigShift) ^^^ sppEncodeSigDelta p delta) &&& p.sigMask
        (touch p.stWay tag (currSig, pageOffset) m, ⟨sig, currSig, delta⟩)
  | none => (touch p.stWay tag (boot, pageOffset) m, ⟨0, boot, 0⟩)

theorem Ranked.length_eq {row : List SppStEntry} {m : StMap} {used free : List SppStEntry}
    (h : Ranked p row m used free) : used.length + free.length = p.stWay := by
  simpa using congrArg List.length h.ranks

theorem Ranked.length_le {row : List SppStEntry} {m : StMap} {used free : List SppStEntry}
    (h : Ranked p row m used free) : m.length ≤ p.stWay := by
  have hlen := h.length_eq
  rw [← h.entries, List.length_map]
  omega

theorem Ranked.tags {row : List SppStEntry} {m : StMap} {used free : List SppStEntry}
    (h : Ranked p row m used free) : m.map (·.1) = used.map (·.tag) := by
  rw [← h.entries, List.map_map]
  rfl

/-- A way is used exactly if it is valid. -/
theorem Ranked.mem_used {row : List SppStEntry} {m : StMap} {used free : List SppStEntry}
    (h : Ranked p row m used free) {e : SppStEntry} : e ∈ used ↔ e ∈ row ∧ e.valid = true := by
  rw [← h.perm.mem_iff, List.mem_append]
  constructor
  · intro he
    exact ⟨.inl he, h.valid e he⟩
  · rintro ⟨he | he, hv⟩
    · exact he
    · rw [h.invalid e he] at hv
      cases hv

theorem Ranked.stMatch_eq_none {row : List SppStEntry} {m : StMap} {used free : List SppStEntry}
    (h : Ranked p row m used free) {tag : Uns} :
    stMatch row tag = none ↔ tag ∉ m.map (·.1) := by
  unfold stMatch
  rw [List.findIdx?_eq_none_iff, h.tags, List.mem_map]
  constructor
  · rintro hall ⟨e, he, rfl⟩
    obtain ⟨hrow, hv⟩ := h.mem_used.mp he
    have hmiss := hall e hrow
    simp [hv] at hmiss
  · intro hno e he
    cases hv : e.valid with
    | false => simp
    | true =>
        have hne : e.tag ≠ tag := fun ht => hno ⟨e, h.mem_used.mpr ⟨he, hv⟩, ht⟩
        simpa using hne

/-! ## The three cases -/

theorem stHit_frame (e : SppStEntry) (pageOffset : ℕ) :
    (stHit p e pageOffset).1.valid = e.valid ∧ (stHit p e pageOffset).1.tag = e.tag ∧
      (stHit p e pageOffset).1.lru = e.lru := by
  unfold stHit
  simp only
  split <;> exact ⟨rfl, rfl, rfl⟩

theorem lruAccess_of_hit {m : StMap} {e : SppStEntry} (boot : Uns) (pageOffset : ℕ)
    (hm : m.lookup e.tag = some (e.sig, e.lastOffset)) :
    lruAccess p boot m e.tag pageOffset =
      (touch p.stWay e.tag
        ((stHit p e pageOffset).1.sig, (stHit p e pageOffset).1.lastOffset) m,
        (stHit p e pageOffset).2) := by
  unfold lruAccess stHit
  rw [hm]
  by_cases hd : (pageOffset : ℤ) - e.lastOffset = 0 <;> simp [hd]

theorem lruAccess_of_miss {m : StMap} {tag : Uns} (boot : Uns) (pageOffset : ℕ)
    (hm : tag ∉ m.map (·.1)) :
    lruAccess p boot m tag pageOffset =
      (((tag, boot, pageOffset) :: m).take p.stWay, ⟨0, boot, 0⟩) := by
  have hlookup : m.lookup tag = none := by
    rw [List.lookup_eq_none_iff]
    intro e he
    have hne : tag ≠ e.1 := fun ht => hm (ht ▸ List.mem_map_of_mem he)
    simpa using hne
  unfold lruAccess
  rw [hlookup]
  simp only
  rw [touch_of_not_mem hm]

@[simp] theorem view_older (e : SppStEntry) : e.older.view = e.view := rfl
@[simp] theorem view_newest (e : SppStEntry) : e.newest.view = e.view := rfl

@[simp] theorem map_view_older (ways : List SppStEntry) :
    (ways.map SppStEntry.older).map SppStEntry.view = ways.map SppStEntry.view := by
  simp [Function.comp_def]

/-- Case 1. -/
theorem stRow_hit {row : List SppStEntry} {m : StMap} (h : Represents p row m) {w : ℕ} {tag : Uns}
    (hw : stMatch row tag = some w) (ghr : List SppGhrEntry) (pageOffset : ℕ) :
    ∃ row', stRow p ghr row tag pageOffset =
        .ok (row', (lruAccess p (ghrBoot p ghr pageOffset) m tag pageOffset).2) ∧
      Represents p row' (lruAccess p (ghrBoot p ghr pageOffset) m tag pageOffset).1 := by
  obtain ⟨used, free, hr⟩ := h
  obtain ⟨before, e, after, rfl, rfl, he, _⟩ := Row.split_of_findIdx? hw
  obtain ⟨hv, rfl⟩ : e.valid = true ∧ e.tag = tag := by simpa using he
  obtain ⟨newer, rest, rfl⟩ := List.append_of_mem (hr.mem_used.mpr ⟨by simp, hv⟩)
  obtain ⟨hvalid, htag, hlru⟩ := stHit_frame (p := p) e pageOffset
  have hsplit : (newer ++ e :: rest) ++ free = newer ++ e :: (rest ++ free) := by simp
  have hperm := hr.perm
  have hranks := hr.ranks
  rw [hsplit] at hperm hranks
  obtain ⟨row', hrow', hperm', hranks'⟩ := stPromote_spec hperm hranks hlru
  have hentries : newer.map SppStEntry.view ++ (e.tag, e.sig, e.lastOffset) ::
      rest.map SppStEntry.view = m := by
    rw [← hr.entries, List.map_append, List.map_cons]
    rfl
  have hlookup : m.lookup e.tag = some (e.sig, e.lastOffset) := by
    rw [List.lookup_eq_some_iff]
    refine ⟨_, _, hentries.symm, ?_⟩
    intro x hx
    have hnodup := hr.nodup
    rw [← hentries, List.map_append, List.map_cons, List.nodup_middle, List.nodup_cons] at hnodup
    have hne : e.tag ≠ x.1 := by
      intro ht
      refine hnodup.1 (List.mem_append_left _ ?_)
      simp only [ht]
      exact List.mem_map_of_mem hx
    simpa using hne
  have htouch : ∀ v, touch p.stWay e.tag v m =
      (e.tag, v) :: (newer.map SppStEntry.view ++ rest.map SppStEntry.view) := by
    intro v
    rw [← hentries]
    exact touch_of_mem (by rw [hentries]; exact hr.length_le) (by rw [hentries]; exact hr.nodup)
  rw [lruAccess_of_hit _ _ hlookup, htouch]
  refine ⟨row', ?_, (stHit p e pageOffset).1.newest :: (newer.map SppStEntry.older ++ rest), free,
    ?_, ?_, ?_, hr.invalid, ?_, ?_⟩
  · unfold stRow
    rw [hw]
    simp only [List.getElem?_append_right (Nat.le_refl _), Nat.sub_self, List.getElem?_cons_zero,
      Option.getD_some]
    have hset : (before ++ e :: after).set before.length (stHit p e pageOffset).1 =
        before ++ (stHit p e pageOffset).1 :: after := by simp
    rw [hset, hrow']
    rfl
  · simpa using hperm'
  · simpa using hranks'
  · intro x hx
    simp only [List.mem_cons, List.mem_append, List.mem_map] at hx
    rcases hx with rfl | ⟨y, hy, rfl⟩ | hx
    · exact hvalid.trans hv
    · exact hr.valid y (by simp [hy])
    · exact hr.valid x (by simp [hx])
  · rw [List.map_cons, List.map_append, map_view_older, view_newest]
    simp [SppStEntry.view, htag]
  · have hnodup := hr.nodup
    rw [← hentries] at hnodup
    simp only [List.map_append, List.map_cons] at hnodup ⊢
    exact List.nodup_middle.mp hnodup

/-- Installing a tag in the victim way. -/
theorem stRow_install {newer rest before after : List SppStEntry} {e : SppStEntry} {tag : Uns}
    (hmiss : stMatch (before ++ e :: after) tag = none)
    (hvictim : stVictim p (before ++ e :: after) = .ok before.length)
    (hperm : (newer ++ e :: rest).Perm (before ++ e :: after))
    (hranks : (newer ++ e :: rest).map (·.lru) = List.range p.stWay)
    (ghr : List SppGhrEntry) (pageOffset : ℕ) :
    ∃ row' e', stRow p ghr (before ++ e :: after) tag pageOffset =
        .ok (row', ⟨0, ghrBoot p ghr pageOffset, 0⟩) ∧
      e'.valid = true ∧ e'.view = (tag, ghrBoot p ghr pageOffset, pageOffset) ∧
      (e' :: (newer.map SppStEntry.older ++ rest)).Perm row' ∧
      (e' :: (newer.map SppStEntry.older ++ rest)).map (·.lru) = List.range p.stWay := by
  have hlru : (SppStEntry.mk true tag (ghrBoot p ghr pageOffset) pageOffset e.lru).lru = e.lru := rfl
  obtain ⟨row', hrow', hperm', hranks'⟩ := stPromote_spec hperm hranks hlru
  refine ⟨row', _, ?_, rfl, rfl, hperm', hranks'⟩
  unfold stRow
  rw [hmiss]
  simp only [hvictim, bind, Except.bind, Row.modify_middle]
  rw [hrow']
  rfl

/-- Case 2. -/
theorem stRow_fill {row : List SppStEntry} {m : StMap} (h : Represents p row m) {tag : Uns}
    (hmiss : stMatch row tag = none) {w : ℕ} (hw : row.findIdx? (fun e => !e.valid) = some w)
    (ghr : List SppGhrEntry) (pageOffset : ℕ) :
    ∃ row', stRow p ghr row tag pageOffset =
        .ok (row', (lruAccess p (ghrBoot p ghr pageOffset) m tag pageOffset).2) ∧
      Represents p row' (lruAccess p (ghrBoot p ghr pageOffset) m tag pageOffset).1 := by
  obtain ⟨used, free, hr⟩ := h
  have habsent := hr.stMatch_eq_none.mp hmiss
  have hvictim : stVictim p row = .ok w := by simp [stVictim, hw]
  obtain ⟨before, e, after, rfl, rfl, he, _⟩ := Row.split_of_findIdx? hw
  have hfree : e ∈ free := by
    have hmem : e ∈ used ++ free := hr.perm.mem_iff.mpr (by simp)
    rcases List.mem_append.mp hmem with hu | hf
    · simp [hr.valid e hu] at he
    · exact hf
  obtain ⟨newer, rest, rfl⟩ := List.append_of_mem hfree
  have hsplit : used ++ (newer ++ e :: rest) = (used ++ newer) ++ e :: rest := by simp
  have hperm := hr.perm
  have hranks := hr.ranks
  rw [hsplit] at hperm hranks
  obtain ⟨row', e', hrow', hvalid, hview, hperm', hranks'⟩ :=
    stRow_install hmiss hvictim hperm hranks ghr pageOffset
  have hroom : ((tag, ghrBoot p ghr pageOffset, pageOffset) :: m).take p.stWay =
      (tag, ghrBoot p ghr pageOffset, pageOffset) :: m := by
    refine List.take_of_length_le ?_
    have hlen := hr.length_eq
    rw [← hr.entries]
    simp only [List.length_cons, List.length_append, List.length_map] at hlen ⊢
    omega
  rw [lruAccess_of_miss _ _ habsent, hroom]
  refine ⟨row', hrow', e' :: used.map SppStEntry.older, newer.map SppStEntry.older ++ rest,
    ?_, ?_, ?_, ?_, ?_, ?_⟩
  · simpa using hperm'
  · simpa using hranks'
  · intro x hx
    simp only [List.mem_cons, List.mem_map] at hx
    rcases hx with rfl | ⟨y, hy, rfl⟩
    · exact hvalid
    · exact hr.valid y hy
  · intro x hx
    simp only [List.mem_append, List.mem_map] at hx
    rcases hx with ⟨y, hy, rfl⟩ | hx
    · exact hr.invalid y (by simp [hy])
    · exact hr.invalid x (by simp [hx])
  · rw [List.map_cons, map_view_older, hview, hr.entries]
  · exact List.nodup_cons.mpr ⟨habsent, hr.nodup⟩

/-- In a full row the victim is the oldest way. -/
theorem stVictim_full {row : List SppStEntry} {m : StMap} {used free : List SppStEntry}
    (hr : Ranked p row m used free) (hfull : row.findIdx? (fun e => !e.valid) = none) :
    ∃ before e after newer, row = before ++ e :: after ∧ stVictim p row = .ok before.length ∧
      used = newer ++ [e] ∧ free = [] := by
  have hallValid : ∀ e ∈ row, e.valid = true := by
    intro e he
    simpa using List.findIdx?_eq_none_iff.mp hfull e he
  have hfree : free = [] := by
    rw [List.eq_nil_iff_forall_not_mem]
    intro e he
    have hv := hallValid e (hr.perm.mem_iff.mp (by simp [he]))
    rw [hr.invalid e he] at hv
    cases hv
  subst hfree
  have hpos := p.stWay_pos
  have hranks := hr.ranks
  have hperm := hr.perm
  rw [List.append_nil] at hranks hperm
  have hoid : p.stWay - 1 ∈ used.map (·.lru) := by
    rw [hranks, List.mem_range]
    omega
  obtain ⟨old, hold, hlru⟩ := List.mem_map.mp hoid
  cases hw : row.findIdx? fun e => e.lru == p.stWay - 1 with
  | none =>
      have hmiss := List.findIdx?_eq_none_iff.mp hw old (hperm.mem_iff.mp hold)
      simp [hlru] at hmiss
  | some w =>
      have hvictim : stVictim p row = .ok w := by simp [stVictim, hfull, hw]
      obtain ⟨before, e, after, rfl, rfl, he, _⟩ := Row.split_of_findIdx? hw
      have heLru : e.lru = p.stWay - 1 := by simpa using he
      obtain ⟨newer, rest, rfl⟩ := List.append_of_mem (hperm.mem_iff.mpr (show e ∈ _ by simp))
      obtain ⟨_, heRank, _⟩ := ranks_split hranks
      have hlen : newer.length + (rest.length + 1) = p.stWay := by
        simpa using congrArg List.length hranks
      have hrest : rest = [] := List.eq_nil_of_length_eq_zero (by omega)
      exact ⟨before, e, after, newer, rfl, hvictim, by rw [hrest], rfl⟩

/-- Case 3. -/
theorem stRow_evict {row : List SppStEntry} {m : StMap} (h : Represents p row m) {tag : Uns}
    (hmiss : stMatch row tag = none) (hfull : row.findIdx? (fun e => !e.valid) = none)
    (ghr : List SppGhrEntry) (pageOffset : ℕ) :
    ∃ row', stRow p ghr row tag pageOffset =
        .ok (row', (lruAccess p (ghrBoot p ghr pageOffset) m tag pageOffset).2) ∧
      Represents p row' (lruAccess p (ghrBoot p ghr pageOffset) m tag pageOffset).1 := by
  obtain ⟨used, free, hr⟩ := h
  have habsent := hr.stMatch_eq_none.mp hmiss
  obtain ⟨before, e, after, newer, rfl, hvictim, rfl, rfl⟩ := stVictim_full hr hfull
  have hperm := hr.perm
  have hranks := hr.ranks
  rw [List.append_nil] at hperm hranks
  obtain ⟨row', e', hrow', hvalid, hview, hperm', hranks'⟩ :=
    stRow_install hmiss hvictim hperm hranks ghr pageOffset
  have hlen : newer.length + 1 = p.stWay := by simpa using hr.length_eq
  have hentries : newer.map SppStEntry.view ++ [e.view] = m := by
    rw [← hr.entries, List.map_append]
    rfl
  have hdrop : ((tag, ghrBoot p ghr pageOffset, pageOffset) :: m).take p.stWay =
      (tag, ghrBoot p ghr pageOffset, pageOffset) :: newer.map SppStEntry.view := by
    rw [← hlen, List.take_succ_cons, ← hentries, List.take_left' (by simp)]
  rw [lruAccess_of_miss _ _ habsent, hdrop]
  rw [List.append_nil] at hperm' hranks'
  refine ⟨row', hrow', e' :: newer.map SppStEntry.older, [], ?_, ?_, ?_, by simp, ?_, ?_⟩
  · rw [List.append_nil]
    exact hperm'
  · rw [List.append_nil]
    exact hranks'
  · intro x hx
    simp only [List.mem_cons, List.mem_map] at hx
    rcases hx with rfl | ⟨y, hy, rfl⟩
    · exact hvalid
    · exact hr.valid y (by simp [hy])
  · rw [List.map_cons, map_view_older, hview]
  · have hnodup := hr.nodup
    rw [← hentries] at hnodup habsent
    rw [List.map_append] at hnodup habsent
    refine List.nodup_cons.mpr ⟨?_, (List.nodup_append.mp hnodup).1⟩
    intro hin
    exact habsent (List.mem_append_left _ hin)

/-- One access: the row does what the map does, and no assertion fails. -/
theorem stRow_represents {row : List SppStEntry} {m : StMap} (h : Represents p row m) (tag : Uns)
    (ghr : List SppGhrEntry) (pageOffset : ℕ) :
    ∃ row', stRow p ghr row tag pageOffset =
        .ok (row', (lruAccess p (ghrBoot p ghr pageOffset) m tag pageOffset).2) ∧
      Represents p row' (lruAccess p (ghrBoot p ghr pageOffset) m tag pageOffset).1 := by
  cases hmatch : stMatch row tag with
  | some w => exact stRow_hit h hmatch ghr pageOffset
  | none =>
      cases hfree : row.findIdx? fun e => !e.valid with
      | some w => exact stRow_fill h hmatch hfree ghr pageOffset
      | none => exact stRow_evict h hmatch hfree ghr pageOffset

/-! ## Sequences of calls -/

/-- A call of `spp_st_read_and_update`, with the GHR it finds. -/
structure StCall where
  ghr : List SppGhrEntry
  page : Addr
  pageOffset : ℕ

def stCall (p : Params) (spp : PrefSpp) (c : StCall) : Except String PrefSpp := do
  let (spp, _) ← sppStReadAndUpdate p { spp with ghr := c.ghr } c.page c.pageOffset
  return spp

/-- The map of a set after a sequence of calls. -/
def lruMap (p : Params) (set : ℕ) (calls : List StCall) : StMap :=
  calls.foldl
    (fun m c =>
      if stSetOf p c.page = set then
        (lruAccess p (ghrBoot p c.ghr c.pageOffset) m (partialPage p c.page) c.pageOffset).1
      else m)
    []

/-- The tags the calls touch in a set, oldest first. -/
def touchedTags (p : Params) (set : ℕ) (calls : List StCall) : List Uns :=
  (calls.filter fun c => stSetOf p c.page = set).map fun c => partialPage p c.page

theorem lruAccess_touch (boot : Uns) (m : StMap) (tag : Uns) (pageOffset : ℕ) :
    ∃ v, (lruAccess p boot m tag pageOffset).1 = touch p.stWay tag v m := by
  unfold lruAccess
  split
  · simp only
    split <;> exact ⟨_, rfl⟩
  · exact ⟨_, rfl⟩

/-- The tags of the map are the most recently touched ones. -/
theorem keys_lruMap (set : ℕ) (calls : List StCall) :
    (lruMap p set calls).map (·.1) = (recent (touchedTags p set calls)).take p.stWay := by
  induction calls using List.reverseRecOn with
  | nil => simp [lruMap, touchedTags]
  | append_singleton calls c ih =>
      unfold lruMap touchedTags at ih ⊢
      rw [List.foldl_append, List.filter_append, List.map_append, List.foldl_cons, List.foldl_nil]
      by_cases hset : stSetOf p c.page = set
      · obtain ⟨v, hv⟩ := lruAccess_touch (p := p) (ghrBoot p c.ghr c.pageOffset)
          (lruMap p set calls) (partialPage p c.page) c.pageOffset
        unfold lruMap at hv
        simp only [hset, ite_true, hv, decide_true, List.filter_cons_of_pos, List.filter_nil,
          List.map_cons, List.map_nil]
        exact keys_touch ih _ v
      · simpa [hset] using ih

theorem represents_init (p : Params) :
    Represents p ((List.range p.stWay).map fun w => ⟨false, 0, 0, 0, w⟩) [] := by
  refine ⟨[], _, List.Perm.refl _, ?_, by simp, ?_, rfl, by simp⟩
  · simp [Function.comp_def]
  · intro e he
    obtain ⟨w, _, rfl⟩ := List.mem_map.mp he
    rfl

theorem prefSppInit_represents {hwpId : Uns8} {spp : PrefSpp} (h : prefSppInit p hwpId = .ok spp)
    (set : ℕ) : Represents p (spp.st set) [] := by
  unfold prefSppInit at h
  split at h
  · cases h
    exact represents_init p
  · cases h

/-- After any sequence of calls every row stands for the map of its calls. -/
theorem stCalls_represents {spp : PrefSpp} (hinit : ∀ set, Represents p (spp.st set) [])
    (calls : List StCall) :
    ∃ spp', Execution.run (stCall p) spp calls = .ok spp' ∧
      ∀ set, Represents p (spp'.st set) (lruMap p set calls) := by
  induction calls using List.reverseRecOn with
  | nil => exact ⟨spp, rfl, hinit⟩
  | append_singleton calls c ih =>
      obtain ⟨mid, hmid, hrep⟩ := ih
      obtain ⟨row, hrow, hnew⟩ :=
        stRow_represents (hrep (stSetOf p c.page)) (partialPage p c.page) c.ghr c.pageOffset
      refine ⟨{ mid with ghr := c.ghr, st := Function.update mid.st (stSetOf p c.page) row }, ?_, ?_⟩
      · refine Execution.run_append_eq_ok.mpr ⟨mid, hmid, ?_⟩
        simp only [Execution.run, stCall, sppStReadAndUpdate, hrow, bind, Except.bind, pure,
          Except.pure]
      · intro set
        unfold lruMap at hrep hnew ⊢
        rw [List.foldl_append, List.foldl_cons, List.foldl_nil]
        by_cases hset : stSetOf p c.page = set
        · subst hset
          simpa using hnew
        · simpa [hset, Function.update_of_ne (Ne.symm hset)] using hrep set

/-- A row is a move-to-front map of capacity `ST_WAY`, whose keys are the recent tags. -/
structure BehavesAsLru (p : Params) (row : List SppStEntry) (m : StMap) (touched : List Uns) :
    Prop where
  lru_perm : (row.map (·.lru)).Perm (List.range p.stWay)
  tags_nodup : ((row.filter (·.valid)).map (·.tag)).Nodup
  /-- The valid ways, in the order of their ranks, are the entries of the map. -/
  entries : ∃ order : List SppStEntry, order.Perm row ∧ order.map (·.lru) = List.range p.stWay ∧
    (order.filter (·.valid)).map SppStEntry.view = m
  hit_iff : ∀ tag, (stMatch row tag).isSome ↔ tag ∈ (recent touched).take p.stWay
  /-- The entry that a full row gives up is the least recently touched one. -/
  victim : (∀ e ∈ row, e.valid = true) →
    ∃ w e, stVictim p row = .ok w ∧ row[w]? = some e ∧
      ((recent touched).take p.stWay).getLast? = some e.tag
  /-- The next access succeeds, and hands back what the map does. -/
  access : ∀ ghr tag pageOffset, ∃ row', stRow p ghr row tag pageOffset =
    .ok (row', (lruAccess p (ghrBoot p ghr pageOffset) m tag pageOffset).2)

theorem Represents.behavesAsLru {row : List SppStEntry} {m : StMap} {touched : List Uns}
    (h : Represents p row m) (hkeys : m.map (·.1) = (recent touched).take p.stWay) :
    BehavesAsLru p row m touched := by
  obtain ⟨used, free, hr⟩ := h
  have hfilter : (used ++ free).filter (·.valid) = used := by
    rw [List.filter_append, List.filter_eq_self.mpr hr.valid,
      List.filter_eq_nil_iff.mpr fun e he => by simp [hr.invalid e he], List.append_nil]
  refine ⟨?_, ?_, ?_, ?_, ?_, ?_⟩
  · rw [← hr.ranks]
    exact (hr.perm.map _).symm
  · have hperm := (hr.perm.filter (·.valid)).map (·.tag)
    rw [hfilter] at hperm
    rw [← hperm.nodup_iff, ← hr.tags]
    exact hr.nodup
  · exact ⟨used ++ free, hr.perm, hr.ranks, by rw [hfilter]; exact hr.entries⟩
  · intro tag
    have hmiss : stMatch row tag = none ↔ tag ∉ m.map (·.1) := hr.stMatch_eq_none
    rw [← hkeys, Option.isSome_iff_ne_none, Ne, hmiss, not_not]
  · intro hall
    have hfull : row.findIdx? (fun e => !e.valid) = none :=
      List.findIdx?_eq_none_iff.mpr fun e he => by simp [hall e he]
    obtain ⟨before, e, after, newer, hrow, hvictim, hused, _⟩ := stVictim_full hr hfull
    refine ⟨before.length, e, hvictim, by simp [hrow], ?_⟩
    rw [← hkeys, hr.tags, hused]
    simp
  · intro ghr tag pageOffset
    obtain ⟨row', hrow', _⟩ := stRow_represents ⟨used, free, hr⟩ tag ghr pageOffset
    exact ⟨row', hrow'⟩

/-- After any sequence of calls from the initial state, whatever the GHR held at each,
no assertion has failed and every set behaves as the map of the calls it served. -/
theorem signatureTable_behavesAsLru {hwpId : Uns8} {spp : PrefSpp}
    (h : prefSppInit p hwpId = .ok spp) (calls : List StCall) :
    ∃ spp', Execution.run (stCall p) spp calls = .ok spp' ∧
      ∀ set, BehavesAsLru p (spp'.st set) (lruMap p set calls) (touchedTags p set calls) := by
  obtain ⟨spp', hrun, hrep⟩ := stCalls_represents (prefSppInit_represents h) calls
  exact ⟨spp', hrun, fun set => (hrep set).behavesAsLru (keys_lruMap set calls)⟩

theorem signatureTable_behavesAsLru_applies :
    ∃ spp spp', prefSppInit Params.default 0 = .ok spp ∧
      Execution.run (stCall Params.default) spp [⟨[], 5, 3⟩, ⟨[], 7, 1⟩, ⟨[], 5, 4⟩] = .ok spp' ∧
      BehavesAsLru Params.default (spp'.st 0)
        (lruMap Params.default 0 [⟨[], 5, 3⟩, ⟨[], 7, 1⟩, ⟨[], 5, 4⟩])
        (touchedTags Params.default 0 [⟨[], 5, 3⟩, ⟨[], 7, 1⟩, ⟨[], 5, 4⟩]) := by
  obtain ⟨spp, hinit⟩ : ∃ spp, prefSppInit Params.default 0 = .ok spp := ⟨_, rfl⟩
  obtain ⟨spp', hrun, hlru⟩ :=
    signatureTable_behavesAsLru hinit [⟨[], 5, 3⟩, ⟨[], 7, 1⟩, ⟨[], 5, 4⟩]
  exact ⟨spp, spp', hinit, hrun, hlru 0⟩

/-! ## Every run of the prefetcher -/

/-- The Signature Table of a visited world is a map in every set. -/
theorem Visited.represents {w : World σ} (h : Visited p addto w) (set : ℕ) :
    ∃ m, Represents p (w.spp.st set) m := by
  refine h.invariant (I := fun w => ∀ set, ∃ m, Represents p (w.spp.st set) m) ?_ ?_ set
  · intro w hw set
    obtain ⟨queue, hi⟩ := hw
    exact ⟨[], prefSppInit_represents hi set⟩
  · intro w w' hrep hs set
    cases hs with
    | @train _ lineAddr hop h =>
        obtain ⟨row, out, ht⟩ := sppTrain_spec h
        obtain ⟨m, hm⟩ := hrep (stSetOf p (p.lineBase lineAddr >>> p.log2Page))
        obtain ⟨row', hrow', hm'⟩ := stRow_represents hm
          (partialPage p (p.lineBase lineAddr >>> p.log2Page)) w.spp.ghr
          (p.pageOffset (p.lineBase lineAddr))
        rw [ht.row_eq] at hrow'
        obtain ⟨rfl, -⟩ := Prod.mk.inj (Except.ok.inj hrow')
        rw [ht.st]
        by_cases hset : set = stSetOf p (p.lineBase lineAddr >>> p.log2Page)
        · subst hset
          exact ⟨_, by simpa using hm'⟩
        · simpa [Function.update_of_ne hset] using hrep set
    | candidate h =>
        rw [(sppCandidate_tables h).1]
        exact hrep set
    | ul1PrefHit lineAddr =>
        simpa [prefSppUl1PrefHit, sppFilterCheck_demand] using hrep set
    | fill addr => exact hrep set
    | evict procId addr => exact hrep set
    | others queue => exact hrep set

/-- No demand ever fails an assertion of the Signature Table. -/
theorem Visited.sppTrain_ok {w : World σ} (h : Visited p addto w) (lineAddr : Addr) :
    ∃ w' hop, sppTrain p w lineAddr = .ok (w', hop) := by
  obtain ⟨m, hm⟩ := h.represents (stSetOf p (p.lineBase lineAddr >>> p.log2Page))
  obtain ⟨row, hrow, _⟩ := stRow_represents hm
    (partialPage p (p.lineBase lineAddr >>> p.log2Page)) w.spp.ghr
    (p.pageOffset (p.lineBase lineAddr))
  simp only [sppTrain, sppStReadAndUpdate, hrow, bind, Except.bind, pure, Except.pure]
  exact ⟨_, _, rfl⟩

end Scarab.Spp
