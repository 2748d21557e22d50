import Scarab.Libs.Cache.Residency

/-! # Ideal replacement with a shadow cache

`REPL_SHADOW_IDEAL` of `libs/cache_lib.c`: lines that are replaced stay in a second array, from which an
access may bring them back. -/

namespace Scarab.Memory

variable {δ : Type}

/-! ## The two arrays -/

/-- The entries of the main array are found and updated as under the true LRU. -/
def shadowGeometry (assoc setBits shiftBits : ℕ) : Geometry := ⟨assoc, setBits, shiftBits, .trueLru⟩

/-- `entries` and `shadow_entries`. -/
structure ShadowCache (δ : Type) where
  main : Cache δ
  shadow : Addr → ℕ → CacheEntry δ

/-- The write of a shadow entry. -/
def ShadowCache.setShadow (s : ShadowCache δ) (set : Addr) (way : ℕ) (entry : CacheEntry δ) : ShadowCache δ :=
  { s with shadow := fun set' way' => if set' = set ∧ way' = way then entry else s.shadow set' way' }

/-- The search for the oldest entry, which an invalid one ends: `lru_ind` and `lru_time`. -/
def oldestFrom (entry : ℕ → CacheEntry δ) : List ℕ → ℕ → ℕ → ℕ × ℕ
  | [], lruInd, lruTime => (lruInd, lruTime)
  | way :: ways, lruInd, lruTime =>
      if (entry way).valid = false then (way, lruTime)
      else if (entry way).lastAccessTime < lruTime then oldestFrom entry ways way (entry way).lastAccessTime
      else oldestFrom entry ways lruInd lruTime

/-- The swap of a shadow entry with an entry of the main array. -/
def ShadowCache.swap (s : ShadowCache δ) (simTime : ℕ) (set : Addr) (lruInd way : ℕ) : ShadowCache δ :=
  ShadowCache.setShadow
    { s with main := s.main.setEntry set lruInd { s.shadow set way with lastAccessTime := simTime } }
    set way { s.main.entries set lruInd with lastAccessTime := (s.shadow set way).lastAccessTime }

/-- The loop of `access_shadow_lines`, with `lru_ind` and `lru_time`, which it keeps. -/
def ShadowCache.shadowLoop (geo : Geometry) (simTime : ℕ) (set tag : Addr) :
    List ℕ → ℕ → ℕ → ShadowCache δ → Option δ × ShadowCache δ
  | [], _, _, s => (none, s)
  | way :: ways, lruInd, lruTime, s =>
      let line := s.shadow set way
      if line.tag = tag ∧ line.valid = true then
        let (lruInd, lruTime) := oldestFrom (s.main.entries set) geo.ways lruInd lruTime
        if lruTime < line.lastAccessTime then
          let s := s.swap simTime set lruInd way
          (some (s.shadow set way).data, s)
        else shadowLoop geo simTime set tag ways lruInd lruTime (s.setShadow set way { line with valid := false })
      else shadowLoop geo simTime set tag ways lruInd lruTime s

/-- `access_shadow_lines`. -/
def ShadowCache.accessShadowLines (geo : Geometry) (s : ShadowCache δ) (simTime : ℕ) (set tag : Addr) :
    Option δ × ShadowCache δ :=
  ShadowCache.shadowLoop geo simTime set tag geo.ways 0 maxCtr s

/-- `cache_access`. -/
def ShadowCache.access (geo : Geometry) (s : ShadowCache δ) (simTime : ℕ) (addr : Addr) (updateRepl : Bool) :
    Option δ × ShadowCache δ :=
  match s.main.lookup geo addr with
  | some way => (some (s.main.entries (geo.set addr) way).data,
      { s with main := (s.main.access geo simTime addr updateRepl).2 })
  | none => s.accessShadowLines geo simTime (geo.set addr) (geo.tag addr)

/-- `shadow_cache_insert`. -/
def ShadowCache.shadowCacheInsert (geo : Geometry) (s : ShadowCache δ) (simTime : ℕ) (set tag base : Addr) : ShadowCache δ :=
  let way := (oldestFrom (s.shadow set) geo.ways 0 maxCtr).1
  s.setShadow set way { s.shadow set way with valid := true, tag, base, lastAccessTime := simTime }

/-- The insertion of a line, which puts the one that it replaces into the shadow. -/
def ShadowCache.insertWith (geo : Geometry) (s : ShadowCache δ) (simTime : ℕ) (addr : Addr) (insert : ℕ → Cache δ) :
    ShadowCache δ :=
  let set := geo.set addr
  let way := s.main.findReplEntry geo set
  let line := s.main.entries set way
  let s := if line.valid then s.shadowCacheInsert geo simTime set line.tag line.base else s
  { s with main := insert way }

/-! ## Runs -/

/-- The data block that `init_cache` allocates for an entry. -/
inductive Block where
  | main (set : Addr) (way : ℕ)
  | shadow (set : Addr) (way : ℕ)
  deriving DecidableEq

/-- What happened. -/
inductive ShadowEvent where
  | inserted (line : Addr)
  | invalidated (line : Addr)
  | swapped
  deriving DecidableEq

/-- The cache and its log, newest first. -/
structure ShadowLife where
  cache : ShadowCache Block
  log : List ShadowEvent

/-- `init_cache`. -/
def ShadowLife.init : ShadowLife where
  cache :=
    { main := ⟨fun set way => ⟨0, false, 0, 0, 0, false, .main set way⟩, fun _ => 0, fun _ => 0⟩
      shadow := fun set way => ⟨0, false, 0, 0, 0, false, .shadow set way⟩ }
  log := []

/-- The calls. -/
inductive ShadowCall where
  | access (simTime : ℕ) (addr : Addr) (updateRepl : Bool)
  | insertReplpos (simTime procId : ℕ) (addr : Addr) (insertReplPolicy : InsertRepl) (isPrefetch : Bool)
  | insertLru (simTime procId : ℕ) (addr : Addr)
  | invalidate (addr : Addr)

/-- The shadow holds the line later than the time up to which the main array is searched. -/
def ShadowCache.Later (geo : Geometry) (s : ShadowCache δ) (addr : Addr) (way : ℕ) : Prop :=
  (s.shadow (geo.set addr) way).tag = geo.tag addr ∧ (s.shadow (geo.set addr) way).valid = true ∧
    (oldestFrom (s.main.entries (geo.set addr)) geo.ways 0 maxCtr).2 < (s.shadow (geo.set addr) way).lastAccessTime

instance (geo : Geometry) (s : ShadowCache δ) (addr : Addr) (way : ℕ) : Decidable (s.Later geo addr way) :=
  inferInstanceAs (Decidable (_ ∧ _ ∧ _))

/-- The line is not in the main array but in the shadow, from where it would be swapped back. -/
def ShadowCache.Swaps (geo : Geometry) (s : ShadowCache δ) (addr : Addr) : Prop :=
  s.main.lookup geo addr = none ∧ ∃ way ∈ geo.ways, s.Later geo addr way

instance (geo : Geometry) (s : ShadowCache δ) (addr : Addr) : Decidable (s.Swaps geo addr) :=
  inferInstanceAs (Decidable (_ ∧ _))

/-- One call. A line goes in after a miss only. -/
def ShadowLife.step (geo : Geometry) (s : ShadowLife) : ShadowCall → Except String ShadowLife
  | .access simTime addr updateRepl =>
      .ok ⟨(s.cache.access geo simTime addr updateRepl).2,
        if s.cache.Swaps geo addr then .swapped :: s.log else s.log⟩
  | .insertReplpos simTime procId addr insertReplPolicy isPrefetch =>
      if (s.cache.main.lookup geo addr).isSome then .error "call after cache_access returned NULL"
      else .ok ⟨s.cache.insertWith geo simTime addr fun way =>
          s.cache.main.insertWay geo simTime procId addr way insertReplPolicy isPrefetch,
        .inserted (geo.lineAddr addr) :: s.log⟩
  | .insertLru simTime procId addr =>
      if (s.cache.main.lookup geo addr).isSome then .error "call after cache_access returned NULL"
      else .ok ⟨s.cache.insertWith geo simTime addr fun way => s.cache.main.insertLruWay geo simTime procId addr way false,
        .inserted (geo.lineAddr addr) :: s.log⟩
  | .invalidate addr =>
      .ok ⟨{ s.cache with main := s.cache.main.invalidate geo addr }, .invalidated (geo.lineAddr addr) :: s.log⟩

variable {geo : Geometry} {s s' t : ShadowCache δ} {set set' tag addr : Addr} {way way' lruInd lruTime simTime : ℕ}
  {ways : List ℕ} {entry : ℕ → CacheEntry δ}

/-! ## The search -/

theorem oldestFrom_le (entry : ℕ → CacheEntry δ) (ways : List ℕ) (i time : ℕ) : (oldestFrom entry ways i time).2 ≤ time := by
  induction ways generalizing i time with
  | nil => exact Nat.le_refl _
  | cons way ways ih =>
      rw [oldestFrom]
      split
      · exact Nat.le_refl _
      · split
        · rename_i hlt
          exact (ih _ _).trans (Nat.le_of_lt hlt)
        · exact ih _ _

/-- A search that starts with a smaller time ends with the smaller one of the two. -/
theorem oldestFrom_min (entry : ℕ → CacheEntry δ) (ways : List ℕ) (i j time time' : ℕ) :
    (oldestFrom entry ways i (min time time')).2 = min (oldestFrom entry ways j time).2 time' := by
  induction ways generalizing i j time with
  | nil => rfl
  | cons way ways ih =>
      rw [oldestFrom, oldestFrom]
      by_cases hvalid : (entry way).valid = false
      · rw [if_pos hvalid, if_pos hvalid]
      · rw [if_neg hvalid, if_neg hvalid]
        by_cases hlt : (entry way).lastAccessTime < min time time'
        · have hle := oldestFrom_le entry ways way (entry way).lastAccessTime
          rw [if_pos hlt, if_pos (Nat.lt_of_lt_of_le hlt (Nat.min_le_left _ _))]
          omega
        · rw [if_neg hlt]
          by_cases hlt' : (entry way).lastAccessTime < time
          · rw [if_pos hlt', ← ih i way]
            congr 2
            omega
          · rw [if_neg hlt', ih i j]

/-- A second search ends with the time that the first one found. -/
theorem oldestFrom_again (ways : List ℕ) (i j time : ℕ) :
    (oldestFrom entry ways j (oldestFrom entry ways i time).2).2 = (oldestFrom entry ways i time).2 := by
  have h := oldestFrom_min entry ways j i time (oldestFrom entry ways i time).2
  rwa [Nat.min_eq_right (oldestFrom_le entry ways i time), Nat.min_self] at h

theorem oldestFrom_mem (entry : ℕ → CacheEntry δ) (ways : List ℕ) (i time : ℕ) :
    (oldestFrom entry ways i time).1 = i ∨ (oldestFrom entry ways i time).1 ∈ ways := by
  induction ways generalizing i time with
  | nil => exact .inl rfl
  | cons way ways ih =>
      rw [oldestFrom]
      split
      · exact .inr (by simp)
      · split
        · refine .inr ?_
          rcases ih way (entry way).lastAccessTime with h | h
          · rw [h]
            simp
          · exact List.mem_cons_of_mem _ h
        · exact (ih i time).imp id (List.mem_cons_of_mem _)

/-! ## The loop over the shadow -/

/-- Shadow entries may have become invalid. -/
structure ShadowCache.Clears (s t : ShadowCache δ) : Prop where
  main : t.main = s.main
  data : ∀ set way, (t.shadow set way).data = (s.shadow set way).data

theorem ShadowCache.Clears.refl (s : ShadowCache δ) : s.Clears s := ⟨rfl, fun _ _ => rfl⟩

theorem ShadowCache.Clears.trans (h : s.Clears s') (h' : s'.Clears t) : s.Clears t :=
  ⟨h'.main.trans h.main, fun set way => (h'.data set way).trans (h.data set way)⟩

@[simp] theorem ShadowCache.setShadow_self {entry : CacheEntry δ} : (s.setShadow set way entry).shadow set way = entry := by
  simp [ShadowCache.setShadow]

theorem ShadowCache.setShadow_other {entry : CacheEntry δ} (h : ¬ (set' = set ∧ way' = way)) :
    (s.setShadow set way entry).shadow set' way' = s.shadow set' way' := if_neg h

theorem ShadowCache.clears_setShadow {entry : CacheEntry δ} (h : entry.data = (s.shadow set way).data) :
    s.Clears (s.setShadow set way entry) := by
  refine ⟨rfl, fun set' way' => ?_⟩
  by_cases hsame : set' = set ∧ way' = way
  · rw [hsame.1, hsame.2, ShadowCache.setShadow_self, h]
  · rw [ShadowCache.setShadow_other hsame]

/-- A shadow entry of a tag that is later than a time. -/
def ShadowCache.LaterThan (s : ShadowCache δ) (set tag : Addr) (time way : ℕ) : Prop :=
  (s.shadow set way).tag = tag ∧ (s.shadow set way).valid = true ∧ time < (s.shadow set way).lastAccessTime

/-- The loop swaps an entry of the tag that is later than the oldest one of the main array, or it finds none. -/
theorem ShadowCache.shadowLoop_spec (simTime : ℕ) (tag : Addr) (ways : List ℕ) (s : ShadowCache δ) {time : ℕ}
    (hlru : lruInd < geo.assoc)
    (htime : (oldestFrom (s.main.entries set) geo.ways lruInd lruTime).2 = time) :
    (∃ t lru way, s.Clears t ∧ lru < geo.assoc ∧ way ∈ ways ∧ (∃ way ∈ ways, s.LaterThan set tag time way) ∧
      ((t.shadow set way).tag = tag ∧ (t.shadow set way).valid = true) ∧
        ShadowCache.shadowLoop geo simTime set tag ways lruInd lruTime s =
          (some (t.main.entries set lru).data, t.swap simTime set lru way)) ∨
    ∃ t, s.Clears t ∧ (∀ way ∈ ways, ¬ s.LaterThan set tag time way) ∧
      ShadowCache.shadowLoop geo simTime set tag ways lruInd lruTime s = (none, t) := by
  induction ways generalizing s lruInd lruTime with
  | nil => exact .inr ⟨s, .refl s, by simp, rfl⟩
  | cons way ways ih =>
      rw [ShadowCache.shadowLoop]
      dsimp only
      by_cases hmatch : (s.shadow set way).tag = tag ∧ (s.shadow set way).valid = true
      · have hlru' : (oldestFrom (s.main.entries set) geo.ways lruInd lruTime).1 < geo.assoc :=
          (oldestFrom_mem (s.main.entries set) geo.ways lruInd lruTime).elim (fun h => by rw [h]; exact hlru)
            Geometry.mem_ways.mp
        rw [if_pos hmatch, htime]
        by_cases hlater : time < (s.shadow set way).lastAccessTime
        · rw [if_pos hlater]
          refine .inl ⟨s, (oldestFrom (s.main.entries set) geo.ways lruInd lruTime).1, way, .refl s, hlru', by simp,
            ⟨way, by simp, hmatch.1, hmatch.2, hlater⟩, hmatch, ?_⟩
          unfold ShadowCache.swap
          rw [ShadowCache.setShadow_self]
        · rw [if_neg hlater]
          have hclears : s.Clears (s.setShadow set way { s.shadow set way with valid := false }) :=
            ShadowCache.clears_setShadow rfl
          -- the entry that becomes invalid was not later than the time
          have hrest (way' : ℕ) : (s.setShadow set way { s.shadow set way with valid := false }).LaterThan set tag time way' ↔
              s.LaterThan set tag time way' := by
            by_cases hsame : way' = way
            · rw [hsame]
              refine iff_of_false (fun h => ?_) fun h => hlater h.2.2
              have hvalid := h.2.1
              rw [ShadowCache.setShadow_self] at hvalid
              cases hvalid
            · unfold ShadowCache.LaterThan
              rw [ShadowCache.setShadow_other fun h => hsame h.2]
          rcases ih (s.setShadow set way { s.shadow set way with valid := false }) hlru'
            (by rw [hclears.main, ← htime]; exact oldestFrom_again _ _ _ _) with
            ⟨t, lru, way', ht, hlt, hmem, ⟨way'', hmem'', hlater'⟩, hmatch', heq⟩ | ⟨t, ht, hnone, heq⟩
          · exact .inl ⟨t, lru, way', hclears.trans ht, hlt, List.mem_cons_of_mem _ hmem,
              ⟨way'', List.mem_cons_of_mem _ hmem'', (hrest way'').mp hlater'⟩, hmatch', htime ▸ heq⟩
          · refine .inr ⟨t, hclears.trans ht, ?_, htime ▸ heq⟩
            refine List.forall_mem_cons.mpr ⟨fun h => hlater h.2.2, fun way' hway' => ?_⟩
            rw [← hrest]
            exact hnone way' hway'
      · rw [if_neg hmatch]
        rcases ih s hlru htime with
          ⟨t, lru, way', ht, hlt, hmem, ⟨way'', hmem'', hlater'⟩, hmatch', heq⟩ | ⟨t, ht, hnone, heq⟩
        · exact .inl ⟨t, lru, way', ht, hlt, List.mem_cons_of_mem _ hmem,
            ⟨way'', List.mem_cons_of_mem _ hmem'', hlater'⟩, hmatch', heq⟩
        · refine .inr ⟨t, ht, ?_, heq⟩
          exact List.forall_mem_cons.mpr ⟨fun h => hmatch ⟨h.1, h.2.1⟩, hnone⟩

/-! ## One access -/

/-- What an access does, by whether it hits in the main array, swaps a line back or misses. -/
theorem ShadowCache.access_cases (hassoc : 0 < geo.assoc) (s : ShadowCache δ) (simTime : ℕ) (addr : Addr) (updateRepl : Bool) :
    (∃ way, s.main.lookup geo addr = some way ∧ ¬ s.Swaps geo addr ∧ s.access geo simTime addr updateRepl =
      (some (s.main.entries (geo.set addr) way).data, { s with main := (s.main.access geo simTime addr updateRepl).2 })) ∨
    (∃ t lru way, s.Swaps geo addr ∧ s.Clears t ∧ lru < geo.assoc ∧ way < geo.assoc ∧
      (t.shadow (geo.set addr) way).tag = geo.tag addr ∧ (t.shadow (geo.set addr) way).valid = true ∧
        s.access geo simTime addr updateRepl =
          (some (t.main.entries (geo.set addr) lru).data, t.swap simTime (geo.set addr) lru way)) ∨
    ∃ t, s.main.lookup geo addr = none ∧ ¬ s.Swaps geo addr ∧ s.Clears t ∧ s.access geo simTime addr updateRepl = (none, t) := by
  unfold ShadowCache.access
  cases hlookup : s.main.lookup geo addr with
  | some way =>
      refine .inl ⟨way, rfl, fun hswaps => ?_, rfl⟩
      rw [hswaps.1] at hlookup
      cases hlookup
  | none =>
      right
      dsimp only
      unfold ShadowCache.accessShadowLines
      rcases ShadowCache.shadowLoop_spec simTime (geo.tag addr) geo.ways s hassoc rfl with
        ⟨t, lru, way, ht, hlru, hway, hlater, ⟨htag, hvalid⟩, heq⟩ | ⟨t, ht, hnone, heq⟩
      · exact .inl ⟨t, lru, way, ⟨hlookup, hlater⟩, ht, hlru, Geometry.mem_ways.mp hway, htag, hvalid, heq⟩
      · exact .inr ⟨t, rfl, fun hswaps => hswaps.2.elim fun way hway => hnone way hway.1 hway.2, ht, heq⟩

/-- A pointer that an access returns is to the data of a valid entry of the main array with the tag. -/
def ShadowCache.RightData (geo : Geometry) (s : ShadowCache δ) (addr : Addr) (data : δ) : Prop :=
  ∃ way < geo.assoc, s.main.Holds geo addr way ∧ (s.main.entries (geo.set addr) way).data = data

/-- No two entries of a set, in either array, share a data block. -/
structure ShadowCache.Distinct (assoc : ℕ) (s : ShadowCache δ) : Prop where
  main : ∀ set way way', way < assoc → way' < assoc →
    (s.main.entries set way).data = (s.main.entries set way').data → way = way'
  shadow : ∀ set way way', way < assoc → way' < assoc → (s.shadow set way).data = (s.shadow set way').data → way = way'
  apart : ∀ set way way', way < assoc → way' < assoc → (s.main.entries set way).data ≠ (s.shadow set way').data

theorem ShadowCache.Distinct.congr {assoc : ℕ} (h : s.Distinct assoc)
    (hmain : ∀ set way, (t.main.entries set way).data = (s.main.entries set way).data)
    (hshadow : ∀ set way, (t.shadow set way).data = (s.shadow set way).data) : t.Distinct assoc := by
  refine ⟨?_, ?_, ?_⟩
  · simpa only [hmain] using h.main
  · simpa only [hshadow] using h.shadow
  · simpa only [hmain, hshadow] using h.apart

theorem ShadowCache.swap_main_self :
    (s.swap simTime set lruInd way).main.entries set lruInd = { s.shadow set way with lastAccessTime := simTime } :=
  Cache.setEntry_self

theorem ShadowCache.swap_main_other (h : ¬ (set' = set ∧ way' = lruInd)) :
    (s.swap simTime set lruInd way).main.entries set' way' = s.main.entries set' way' := Cache.setEntry_other h

theorem ShadowCache.swap_shadow_self : ((s.swap simTime set lruInd way).shadow set way).data = (s.main.entries set lruInd).data := by
  unfold ShadowCache.swap
  rw [ShadowCache.setShadow_self]

theorem ShadowCache.swap_shadow_other (h : ¬ (set' = set ∧ way' = way)) :
    (s.swap simTime set lruInd way).shadow set' way' = s.shadow set' way' := ShadowCache.setShadow_other h

/-- A swap exchanges two blocks. -/
theorem ShadowCache.Distinct.swap {assoc : ℕ} (h : s.Distinct assoc) (hlru : lruInd < assoc) (hway : way < assoc) :
    (s.swap simTime set lruInd way).Distinct assoc := by
  have hmain (set' : Addr) (way' : ℕ) : ((s.swap simTime set lruInd way).main.entries set' way').data =
      if set' = set ∧ way' = lruInd then (s.shadow set way).data else (s.main.entries set' way').data := by
    by_cases hsame : set' = set ∧ way' = lruInd
    · rw [if_pos hsame, hsame.1, hsame.2, ShadowCache.swap_main_self]
    · rw [if_neg hsame, ShadowCache.swap_main_other hsame]
  have hshadow (set' : Addr) (way' : ℕ) : ((s.swap simTime set lruInd way).shadow set' way').data =
      if set' = set ∧ way' = way then (s.main.entries set lruInd).data else (s.shadow set' way').data := by
    by_cases hsame : set' = set ∧ way' = way
    · rw [if_pos hsame, hsame.1, hsame.2, ShadowCache.swap_shadow_self]
    · rw [if_neg hsame, ShadowCache.swap_shadow_other hsame]
  refine ⟨fun set' a b ha hb => ?_, fun set' a b ha hb => ?_, fun set' a b ha hb => ?_⟩
  · rw [hmain, hmain]
    by_cases ha' : set' = set ∧ a = lruInd
    · rw [if_pos ha']
      by_cases hb' : set' = set ∧ b = lruInd
      · exact fun _ => ha'.2.trans hb'.2.symm
      · rw [if_neg hb', ha'.1]
        exact fun heq => absurd heq.symm (h.apart _ _ _ hb hway)
    · rw [if_neg ha']
      by_cases hb' : set' = set ∧ b = lruInd
      · rw [if_pos hb', hb'.1]
        exact fun heq => absurd heq (h.apart _ _ _ ha hway)
      · rw [if_neg hb']
        exact h.main _ _ _ ha hb
  · rw [hshadow, hshadow]
    by_cases ha' : set' = set ∧ a = way
    · rw [if_pos ha']
      by_cases hb' : set' = set ∧ b = way
      · exact fun _ => ha'.2.trans hb'.2.symm
      · rw [if_neg hb', ha'.1]
        exact fun heq => absurd heq (h.apart _ _ _ hlru hb)
    · rw [if_neg ha']
      by_cases hb' : set' = set ∧ b = way
      · rw [if_pos hb', hb'.1]
        exact fun heq => absurd heq.symm (h.apart _ _ _ hlru ha)
      · rw [if_neg hb']
        exact h.shadow _ _ _ ha hb
  · rw [hmain, hshadow]
    by_cases ha' : set' = set ∧ a = lruInd
    · rw [if_pos ha']
      by_cases hb' : set' = set ∧ b = way
      · rw [if_pos hb']
        exact (h.apart _ _ _ hlru hway).symm
      · rw [if_neg hb', ha'.1]
        exact fun heq => hb' ⟨ha'.1, (h.shadow _ _ _ hway hb heq).symm⟩
    · rw [if_neg ha']
      by_cases hb' : set' = set ∧ b = way
      · rw [if_pos hb', hb'.1]
        exact fun heq => ha' ⟨hb'.1, h.main _ _ _ ha hlru heq⟩
      · rw [if_neg hb']
        exact h.apart _ _ _ ha hb

/-- An access returns the right pointer exactly when it does not swap. -/
theorem ShadowCache.Distinct.access_right_iff (h : s.Distinct geo.assoc) (hassoc : 0 < geo.assoc) (updateRepl : Bool) :
    (∀ data, (s.access geo simTime addr updateRepl).1 = some data →
      (s.access geo simTime addr updateRepl).2.RightData geo addr data) ↔ ¬ s.Swaps geo addr := by
  rcases ShadowCache.access_cases hassoc s simTime addr updateRepl with
    ⟨way, hlookup, hswaps, heq⟩ | ⟨t, lru, way, hswaps, ht, hlru, hway, htag, hvalid, heq⟩ | ⟨t, -, hswaps, -, heq⟩
  · refine iff_of_true (fun data hdata => ?_) hswaps
    rw [heq] at hdata ⊢
    obtain ⟨hway, hholds⟩ := Cache.holds_of_lookup hlookup
    refine ⟨way, hway, Cache.access_sameLines.holds_iff.mpr hholds, ?_⟩
    exact Cache.access_data.trans (Option.some.inj hdata)
  · refine iff_of_false (fun hright => ?_) (not_not.mpr hswaps)
    obtain ⟨way', hway', hholds, hdata⟩ := hright _ (congrArg Prod.fst heq)
    rw [heq] at hholds hdata
    dsimp only at hdata
    by_cases hsame : way' = lru
    · rw [hsame, ShadowCache.swap_main_self, ht.main, ht.data] at hdata
      exact h.apart _ _ _ hlru hway hdata.symm
    · rw [ShadowCache.swap_main_other fun hboth => hsame hboth.2, ht.main] at hdata
      exact hsame (h.main _ _ _ hway' hlru hdata)
  · refine iff_of_true (fun data hdata => ?_) hswaps
    rw [heq] at hdata
    cases hdata

/-! ## The blocks over a run -/

variable {c : Cache δ} {procId : ℕ}

theorem Cache.insertWay_data {pos : InsertRepl} {isPrefetch : Bool} :
    ((c.insertWay geo simTime procId addr way pos isPrefetch).entries set' way').data = (c.entries set' way').data := by
  unfold Cache.insertWay
  dsimp only
  cases pos with
  | default => exact Cache.updateReplPolicy_data.trans (Cache.setEntry_data rfl)
  | lru => exact (Cache.setEntry_data (by rw [Cache.setEntry_self])).trans (Cache.setEntry_data rfl)
  | lowqtr => exact (Cache.setEntry_data (by rw [Cache.setEntry_self])).trans (Cache.setEntry_data rfl)
  | mid => exact (Cache.setEntry_data (by rw [Cache.setEntry_self])).trans (Cache.setEntry_data rfl)
  | mru => exact Cache.setEntry_data rfl

theorem Cache.insertLruWay_data :
    ((c.insertLruWay geo simTime procId addr way false).entries set' way').data = (c.entries set' way').data :=
  Cache.updateReplPolicy_data.trans (Cache.setEntry_data rfl)

theorem Cache.insertLruWay_inserts : c.Inserts geo addr way (c.insertLruWay geo simTime procId addr way false) := by
  refine Cache.Inserts.updateReplPolicy (Cache.setEntry_inserts ?_ ?_ ?_)
  · rfl
  · rfl
  · rfl

theorem ShadowCache.shadowCacheInsert_clears {base : Addr} : s.Clears (s.shadowCacheInsert geo simTime set tag base) := by
  unfold ShadowCache.shadowCacheInsert
  exact ShadowCache.clears_setShadow rfl

theorem ShadowCache.insertWith_shadow (insert : ℕ → Cache δ) :
    ((s.insertWith geo simTime addr insert).shadow set way).data = (s.shadow set way).data := by
  unfold ShadowCache.insertWith
  dsimp only
  split
  · exact ShadowCache.shadowCacheInsert_clears.data set way
  · rfl

theorem Cache.invalidate_data : ((c.invalidate geo addr).entries set way).data = (c.entries set way).data := by
  by_cases h : c.Reaches geo addr set way
  · rw [Cache.invalidate_reached h]
  · rw [Cache.invalidate_other h]

variable {a b : ShadowLife}

/-- Blocks are only ever exchanged. -/
theorem ShadowLife.step_distinct (hassoc : 0 < geo.assoc) (h : a.cache.Distinct geo.assoc) {call : ShadowCall}
    (hstep : a.step geo call = .ok b) : b.cache.Distinct geo.assoc := by
  cases call with
  | access simTime addr updateRepl =>
      cases hstep
      rcases ShadowCache.access_cases hassoc a.cache simTime addr updateRepl with
        ⟨way, -, -, heq⟩ | ⟨t, lru, way, -, ht, hlru, hway, -, -, heq⟩ | ⟨t, -, -, ht, heq⟩
      · rw [heq]
        exact h.congr (fun _ _ => Cache.access_data) fun _ _ => rfl
      · rw [heq]
        exact (h.congr (fun _ _ => by rw [ht.main]) ht.data).swap hlru hway
      · rw [heq]
        exact h.congr (fun _ _ => by rw [ht.main]) ht.data
  | insertReplpos simTime procId addr pos isPrefetch =>
      rw [ShadowLife.step] at hstep
      split at hstep
      · cases hstep
      · cases hstep
        refine h.congr (fun _ _ => ?_) fun _ _ => ?_
        · exact Cache.insertWay_data
        · exact ShadowCache.insertWith_shadow fun way =>
            a.cache.main.insertWay geo simTime procId addr way pos isPrefetch
  | insertLru simTime procId addr =>
      rw [ShadowLife.step] at hstep
      split at hstep
      · cases hstep
      · cases hstep
        refine h.congr (fun _ _ => ?_) fun _ _ => ?_
        · exact Cache.insertLruWay_data
        · exact ShadowCache.insertWith_shadow fun way => a.cache.main.insertLruWay geo simTime procId addr way false
  | invalidate addr =>
      cases hstep
      exact h.congr (fun _ _ => Cache.invalidate_data) fun _ _ => rfl

/-! ## Invalidated lines -/

/-- The last insertion or invalidation of a line was an insertion. -/
def lastInserted : List ShadowEvent → Addr → Prop
  | [], _ => False
  | .inserted line :: older, a => line = a ∨ lastInserted older a
  | .invalidated line :: older, a => line ≠ a ∧ lastInserted older a
  | .swapped :: older, a => lastInserted older a

theorem lastInserted_append {newer older : List ShadowEvent} {line : Addr} (hnone : ShadowEvent.inserted line ∉ newer) :
    ¬ lastInserted (newer ++ .invalidated line :: older) line := by
  induction newer with
  | nil => exact fun h => h.1 rfl
  | cons e newer ih =>
      have hrest := ih fun hmem => hnone (List.mem_cons_of_mem _ hmem)
      cases e with
      | inserted line' =>
          rintro (rfl | h)
          · exact hnone (by simp)
          · exact hrest h
      | invalidated line' => exact fun h => hrest h.2
      | swapped => exact hrest

/-- What the main array holds was inserted and not invalidated since. -/
def ShadowLife.Inserted (geo : Geometry) (s : ShadowLife) : Prop :=
  ∀ addr, ∀ way < geo.assoc, s.cache.main.Holds geo addr way → lastInserted s.log (geo.lineAddr addr)

theorem Cache.Inserts.holds_before {d : Cache δ} {other : Addr} (h : c.Inserts geo addr way d) (hholds : d.Holds geo other way') :
    geo.lineAddr addr = geo.lineAddr other ∨ c.Holds geo other way' := by
  by_cases hsame : geo.set other = geo.set addr ∧ way' = way
  · refine .inl (Geometry.sameLine_iff.mp ⟨hsame.1.symm, ?_⟩)
    rw [← hholds.2, hsame.1, hsame.2, h.holds.2]
  · refine .inr ?_
    unfold Cache.Holds at hholds ⊢
    rwa [← h.others _ _ hsame]

/-- As long as no access swaps, the main array holds only what was inserted. -/
theorem ShadowLife.step_inserted (hassoc : 0 < geo.assoc) (h : a.Inserted geo) {call : ShadowCall}
    (hstep : a.step geo call = .ok b) (hquiet : ShadowEvent.swapped ∉ b.log) : b.Inserted geo := by
  cases call with
  | access simTime addr updateRepl =>
      cases hstep
      dsimp only at hquiet
      rcases ShadowCache.access_cases hassoc a.cache simTime addr updateRepl with
        ⟨way, -, hswaps, heq⟩ | ⟨t, lru, way, hswaps, -⟩ | ⟨t, -, hswaps, ht, heq⟩
      · intro other way' hway' hholds
        dsimp only at hholds ⊢
        rw [heq] at hholds
        rw [if_neg hswaps]
        exact h other way' hway' (Cache.access_sameLines.holds_iff.mp hholds)
      · rw [if_pos hswaps] at hquiet
        exact absurd (by simp) hquiet
      · intro other way' hway' hholds
        dsimp only at hholds ⊢
        rw [heq, ht.main] at hholds
        rw [if_neg hswaps]
        exact h other way' hway' hholds
  | insertReplpos simTime procId addr pos isPrefetch =>
      rw [ShadowLife.step] at hstep
      split at hstep
      · cases hstep
      · cases hstep
        intro other way' hway' hholds
        exact (Cache.insertWay_inserts.holds_before hholds).imp id (h other way' hway')
  | insertLru simTime procId addr =>
      rw [ShadowLife.step] at hstep
      split at hstep
      · cases hstep
      · cases hstep
        intro other way' hway' hholds
        exact (Cache.insertLruWay_inserts.holds_before hholds).imp id (h other way' hway')
  | invalidate addr =>
      cases hstep
      intro other way' hway' hholds
      obtain ⟨hbefore, hdiffer⟩ := (Cache.invalidate_holds_iff hway').mp hholds
      exact ⟨hdiffer, h other way' hway' hbefore⟩

/-! ## The law -/

theorem ShadowLife.init_distinct (assoc : ℕ) : ShadowLife.init.cache.Distinct assoc := by
  refine ⟨fun set way way' _ _ h => ?_, fun set way way' _ _ h => ?_, fun set way way' _ _ h => ?_⟩
  · exact (Block.main.inj h).2
  · exact (Block.shadow.inj h).2
  · cases h

theorem ShadowLife.init_inserted : ShadowLife.init.Inserted geo := by
  intro _ _ _ hholds
  cases hholds.1

/-- Old events stay in the log. -/
theorem ShadowLife.step_log {call : ShadowCall} (hstep : a.step geo call = .ok b) : a.log <:+ b.log := by
  cases call with
  | access simTime addr updateRepl =>
      cases hstep
      dsimp only
      split
      · exact List.suffix_cons _ _
      · exact List.suffix_rfl
  | insertReplpos simTime procId addr pos isPrefetch =>
      rw [ShadowLife.step] at hstep
      split at hstep
      · cases hstep
      · cases hstep
        exact List.suffix_cons _ _
  | insertLru simTime procId addr =>
      rw [ShadowLife.step] at hstep
      split at hstep
      · cases hstep
      · cases hstep
        exact List.suffix_cons _ _
  | invalidate addr =>
      cases hstep
      exact List.suffix_cons _ _

theorem ShadowLife.run_distinct (hassoc : 0 < geo.assoc) {calls : List ShadowCall}
    (hrun : Execution.run (ShadowLife.step geo) ShadowLife.init calls = .ok a) : a.cache.Distinct geo.assoc :=
  Execution.run_invariant (I := fun s : ShadowLife => s.cache.Distinct geo.assoc)
    (fun _ _ _ ha hstep => ShadowLife.step_distinct hassoc ha hstep) (ShadowLife.init_distinct geo.assoc) hrun

/-- In every run an access returns the block of its own line exactly when it does not swap, and in every run without a
swap a line that was invalidated misses, unless the access swaps, until it is inserted again. -/
theorem ShadowLife.run_law (assoc setBits shiftBits : ℕ) (hassoc : 0 < assoc) (calls : List ShadowCall) (s : ShadowLife)
    (hrun : Execution.run (ShadowLife.step (shadowGeometry assoc setBits shiftBits)) ShadowLife.init calls = .ok s)
    (simTime : ℕ) (addr : Addr) (updateRepl : Bool) :
    let geo := shadowGeometry assoc setBits shiftBits
    ((∀ data, (s.cache.access geo simTime addr updateRepl).1 = some data →
        (s.cache.access geo simTime addr updateRepl).2.RightData geo addr data) ↔ ¬ s.cache.Swaps geo addr) ∧
      (ShadowEvent.swapped ∉ s.log → ¬ s.cache.Swaps geo addr →
        ∀ newer older, s.log = newer ++ .invalidated (geo.lineAddr addr) :: older →
          ShadowEvent.inserted (geo.lineAddr addr) ∉ newer → (s.cache.access geo simTime addr updateRepl).1 = none) := by
  intro geo
  have hassoc : 0 < geo.assoc := hassoc
  have hdistinct := ShadowLife.run_distinct hassoc hrun
  have hinv : ShadowEvent.swapped ∉ s.log → s.Inserted geo := by
    refine Execution.run_invariant (I := fun s : ShadowLife => ShadowEvent.swapped ∉ s.log → s.Inserted geo)
      (fun a call b ha hstep hquiet => ?_) (fun _ => ShadowLife.init_inserted) hrun
    exact ShadowLife.step_inserted hassoc (ha fun hmem => hquiet ((ShadowLife.step_log hstep).subset hmem)) hstep hquiet
  refine ⟨hdistinct.access_right_iff hassoc updateRepl, fun hquiet hswaps newer older hlog hnone => ?_⟩
  rcases ShadowCache.access_cases hassoc s.cache simTime addr updateRepl with
    ⟨way, hlookup, -, -⟩ | ⟨t, lru, way, hswaps', -⟩ | ⟨t, -, -, -, heq⟩
  · obtain ⟨hway, hholds⟩ := Cache.holds_of_lookup hlookup
    have hinserted := hinv hquiet addr way hway hholds
    rw [hlog] at hinserted
    exact absurd hinserted (lastInserted_append hnone)
  · exact absurd hswaps' hswaps
  · rw [heq]

/-- A line that was inserted and invalidated misses. -/
theorem ShadowLife.run_law_invalidated :
    ∃ s : ShadowLife, Execution.run (ShadowLife.step (shadowGeometry 2 0 6)) ShadowLife.init
        [.insertReplpos 1 0 0x40 .default false, .invalidate 0x40] = .ok s ∧
      (s.cache.access (shadowGeometry 2 0 6) 3 0x40 true).1 = none := by
  obtain ⟨s, hrun, hobserved⟩ := Execution.map_eq_ok.mp (show
    (fun s : ShadowLife => (s.log, decide (s.cache.Swaps (shadowGeometry 2 0 6) 0x40))) <$>
      Execution.run (ShadowLife.step (shadowGeometry 2 0 6)) ShadowLife.init
        [.insertReplpos 1 0 0x40 .default false, .invalidate 0x40] =
          .ok ([.invalidated 0x40, .inserted 0x40], false) by decide +kernel)
  obtain ⟨hlog, hswaps⟩ := Prod.mk.inj hobserved
  refine ⟨s, hrun, (ShadowLife.run_law 2 0 6 (by decide) _ s hrun 3 0x40 true).2 ?_ (of_decide_eq_false hswaps) []
    [.inserted 0x40] ?_ (by simp)⟩
  · rw [hlog]
    decide
  · rw [hlog]
    decide

/-- A line that was replaced comes back with the block of the line that it is swapped with. -/
theorem ShadowLife.swapped_block :
    ∃ s : ShadowLife, Execution.run (ShadowLife.step (shadowGeometry 2 0 6)) ShadowLife.init
        [.access 1 0x40 true, .insertReplpos 1 0 0x40 .default false, .access 2 0x80 true,
          .insertReplpos 2 0 0x80 .default false, .access 3 0xc0 true, .insertReplpos 3 0 0xc0 .default false] = .ok s ∧
      ¬ ∀ data, (s.cache.access (shadowGeometry 2 0 6) 4 0x40 true).1 = some data →
        (s.cache.access (shadowGeometry 2 0 6) 4 0x40 true).2.RightData (shadowGeometry 2 0 6) 0x40 data := by
  obtain ⟨s, hrun, hswaps⟩ := Execution.map_eq_ok.mp (show
    (fun s : ShadowLife => decide (s.cache.Swaps (shadowGeometry 2 0 6) 0x40)) <$>
      Execution.run (ShadowLife.step (shadowGeometry 2 0 6)) ShadowLife.init
        [.access 1 0x40 true, .insertReplpos 1 0 0x40 .default false, .access 2 0x80 true,
          .insertReplpos 2 0 0x80 .default false, .access 3 0xc0 true, .insertReplpos 3 0 0xc0 .default false] = .ok true by
    decide +kernel)
  refine ⟨s, hrun, fun hright => ?_⟩
  have hdistinct := ShadowLife.run_distinct (by decide) hrun
  exact (hdistinct.access_right_iff (by decide) true).mp hright (of_decide_eq_true hswaps)

end Scarab.Memory
