import Scarab.Lib.Bits
import Scarab.Libs.Cache.State

/-! # Which lines are in a cache

A set holds a tag once, and a line is in the cache, with the data block that it was given, from its
insertion to its replacement or invalidation. -/

namespace Scarab.Memory

variable {δ : Type} {geo : Geometry} {cfg : CacheConfig} {c d : Cache δ} {set set' addr a b : Addr} {way way' simTime procId : ℕ}

/-! ## Lines and addresses -/

/-- Set and tag determine the address of a line, and the other way round. -/
theorem Geometry.sameLine_iff : geo.SameLine a b ↔ geo.lineAddr a = geo.lineAddr b := by
  unfold Geometry.SameLine Geometry.lineAddr Geometry.set Geometry.tag
  rw [Bits.one_shiftLeft_sub_one geo.shiftBits, Bits.and_high_inj]
  constructor
  · rintro ⟨hset, htag⟩
    exact Bits.and_and_not_inj hset htag
  · intro h
    rw [h]
    exact ⟨rfl, rfl⟩

theorem Geometry.sameLine_lineAddr : geo.SameLine (geo.lineAddr a) a := by
  rw [Geometry.sameLine_iff]
  unfold Geometry.lineAddr
  rw [BitVec.and_assoc, BitVec.and_self]

/-! ## Entries -/

/-- An entry that `init_cache` or an insertion has written. -/
structure CacheEntry.Good (cfg : CacheConfig) (set : Addr) (entry : CacheEntry δ) : Prop where
  time : entry.lastAccessTime < maxCtr
  procId : entry.valid = true → entry.procId < cfg.cores
  set : entry.valid = true → cfg.geo.set entry.base = set
  tag : entry.valid = true → cfg.geo.tag entry.base = entry.tag
  base : entry.valid = true → cfg.geo.lineAddr entry.base = entry.base

theorem CacheEntry.Good.withTime {entry : CacheEntry δ} {t : ℕ} (h : entry.Good cfg set) (ht : t < maxCtr) :
    CacheEntry.Good cfg set { entry with lastAccessTime := t } := ⟨ht, h.procId, h.set, h.tag, h.base⟩

theorem CacheEntry.Good.withPref {entry : CacheEntry δ} {pref : Bool} (h : entry.Good cfg set) :
    CacheEntry.Good cfg set { entry with pref } := ⟨h.time, h.procId, h.set, h.tag, h.base⟩

theorem CacheEntry.good_invalid {entry : CacheEntry δ} (hvalid : entry.valid = false) (htime : entry.lastAccessTime < maxCtr) :
    entry.Good cfg set := by
  have hnot : ¬ entry.valid = true := by simp [hvalid]
  exact ⟨htime, fun h => absurd h hnot, fun h => absurd h hnot, fun h => absurd h hnot, fun h => absurd h hnot⟩

/-- The entry of a line that goes in. -/
theorem CacheEntry.good_line {t : ℕ} {pref : Bool} {data : δ} (hprocId : procId < cfg.cores) (ht : t < maxCtr) :
    CacheEntry.Good cfg (cfg.geo.set addr) ⟨procId, true, cfg.geo.tag addr, cfg.geo.lineAddr addr, t, pref, data⟩ :=
  ⟨ht, fun _ => hprocId, fun _ => Geometry.sameLine_lineAddr.1, fun _ => Geometry.sameLine_lineAddr.2,
    fun _ => Geometry.sameLine_iff.mp Geometry.sameLine_lineAddr⟩

/-- All entries are good, and the replacement counters are ways. -/
structure Cache.Good (cfg : CacheConfig) (c : Cache δ) : Prop where
  entry : ∀ set way, (c.entries set way).Good cfg set
  ctr : ∀ set, c.replCtrs set < cfg.assoc

theorem Cache.Good.setEntry {entry : CacheEntry δ} (h : c.Good cfg) (hentry : entry.Good cfg set) :
    (c.setEntry set way entry).Good cfg := by
  refine ⟨fun set' way' => ?_, h.ctr⟩
  by_cases hsame : set' = set ∧ way' = way
  · rw [hsame.1, hsame.2, Cache.setEntry_self]
    exact hentry
  · rw [Cache.setEntry_other hsame]
    exact h.entry set' way'

theorem Cache.oldest_lt (hassoc : 0 < geo.assoc) (ok : CacheEntry δ → Bool) : c.oldest geo set ok < geo.assoc := by
  rw [Cache.oldest]
  rcases Argmin.scan_spec (fun way => if ok (c.entries set way) then (c.entries set way).lastAccessTime else maxCtr)
    geo.ways 0 0 maxCtr with ⟨hscan, -⟩ | ⟨before, way, after, hways, hscan, -, -⟩
  · rw [hscan]
    exact hassoc
  · rw [hscan, Nat.zero_add]
    have hlength := congrArg List.length hways
    simp only [Geometry.ways, List.length_range, List.length_append, List.length_cons] at hlength
    omega

/-- A way that is found, or another one. -/
theorem find_getD_lt {ways : List ℕ} {ok : ℕ → Bool} {other n : ℕ} (hways : ∀ way ∈ ways, way < n) (hother : other < n) :
    (ways.find? ok).getD other < n := by
  cases hfind : ways.find? ok with
  | none => exact hother
  | some way => exact hways way (List.mem_of_find?_eq_some hfind)

theorem Geometry.mem_ways : way ∈ geo.ways ↔ way < geo.assoc := List.mem_range

theorem Cache.lowPrefWay_lt (geo : Geometry) (c : Cache δ) (set : Addr) (hassoc : 0 < geo.assoc) : c.lowPrefWay geo set < geo.assoc := by
  refine find_getD_lt (fun _ => Geometry.mem_ways.mp) ?_
  split
  · exact Cache.oldest_lt hassoc _
  · exact Cache.oldest_lt hassoc _

theorem Cache.findReplEntry_lt (geo : Geometry) (hassoc : 0 < geo.assoc) (hctr : c.replCtrs set < geo.assoc) :
    c.findReplEntry geo set < geo.assoc := by
  have hown : (geo.ways.reverse.find? fun way => !(c.entries set way).valid).getD (c.replCtrs set) < geo.assoc :=
    find_getD_lt (fun way hway => Geometry.mem_ways.mp (List.mem_reverse.mp hway)) hctr
  rw [Cache.findReplEntry]
  cases geo.replPolicy with
  | trueLru => exact find_getD_lt (fun _ => Geometry.mem_ways.mp) (Cache.oldest_lt hassoc _)
  | random => exact hown
  | notMru => exact hown
  | roundRobin => exact hown
  | lowPref => exact hown

theorem circInc2_lt (val : ℕ) {pow2 : ℕ} (h : 0 < pow2) : circInc2 val pow2 < pow2 :=
  Nat.lt_of_le_of_lt Nat.and_le_right (Nat.sub_lt h Nat.one_pos)

/-- The replacement policy changes an access time or a counter. -/
theorem Cache.Good.updateReplPolicy (h : c.Good cfg) (hassoc : 0 < cfg.assoc) (htime : simTime < maxCtr) :
    (c.updateReplPolicy cfg.geo simTime set way).Good cfg := by
  have hset (n : ℕ) (hn : n < cfg.assoc) (rands : ℕ → ℕ) :
      Cache.Good cfg { c with replCtrs := fun set' => if set' = set then n else c.replCtrs set', rands } := by
    refine ⟨h.entry, fun set' => ?_⟩
    dsimp only
    by_cases hsame : set' = set
    · rw [if_pos hsame]
      exact hn
    · rw [if_neg hsame]
      exact h.ctr set'
  rw [Cache.updateReplPolicy]
  dsimp only
  cases cfg.geo.replPolicy with
  | trueLru => exact h.setEntry ((h.entry set way).withTime htime)
  | random => exact hset _ (Nat.mod_lt _ hassoc) _
  | notMru =>
      by_cases hway : way = c.replCtrs set
      · rw [if_pos hway]
        exact hset _ (circInc2_lt _ hassoc) _
      · rw [if_neg hway]
        exact h
  | roundRobin => exact hset _ (circInc2_lt _ hassoc) _
  | lowPref => exact hset _ (Cache.lowPrefWay_lt cfg.geo c set hassoc) _

theorem Cache.accessTimeAt_lt (geo : Geometry) (place : ℕ) (h : ∀ way, (c.entries set way).lastAccessTime < maxCtr) (htime : simTime < maxCtr) :
    c.accessTimeAt geo simTime set place < maxCtr := by
  have hall : ∀ t ∈ c.accessTimes geo set, t < maxCtr := by
    intro t ht
    rw [Cache.accessTimes] at ht
    obtain ⟨way, -, rfl⟩ := List.mem_map.mp ((List.perm_insertionSort _ _).mem_iff.mp ht)
    split
    · exact h way
    · exact Nat.lt_of_le_of_lt (Nat.zero_le _) htime
  have hplace : (c.accessTimes geo set).getD place 0 < maxCtr := by
    rw [List.getD_eq_getElem?_getD]
    cases hget : (c.accessTimes geo set)[place]? with
    | none => exact Nat.lt_of_le_of_lt (Nat.zero_le _) htime
    | some t => exact hall t (List.mem_of_getElem? hget)
  unfold Cache.accessTimeAt
  dsimp only
  split
  · exact htime
  · exact hplace

/-! ## Insertions -/

/-- What an insertion does. -/
structure Cache.Places (cfg : CacheConfig) (c : Cache δ) (addr : Addr) (way : ℕ) (d : Cache δ) : Prop where
  inserts : c.Inserts cfg.geo addr way d
  data : (d.entries (cfg.geo.set addr) way).data = (c.entries (cfg.geo.set addr) way).data
  good : d.Good cfg

theorem Cache.setEntry_data {entry : CacheEntry δ} (h : entry.data = (c.entries set way).data) :
    ((c.setEntry set way entry).entries set' way').data = (c.entries set' way').data := by
  by_cases hsame : set' = set ∧ way' = way
  · rw [hsame.1, hsame.2, Cache.setEntry_self, h]
  · rw [Cache.setEntry_other hsame]

theorem Cache.updateReplPolicy_data :
    ((c.updateReplPolicy geo simTime set way).entries set' way').data = (c.entries set' way').data := by
  rw [Cache.updateReplPolicy]
  dsimp only
  cases geo.replPolicy with
  | trueLru => exact Cache.setEntry_data rfl
  | random => rfl
  | notMru =>
      dsimp only
      split
      · rfl
      · rfl
  | roundRobin => rfl
  | lowPref => rfl

/-- A line with any time, put into a way. -/
theorem Cache.Good.places_setEntry (addr : Addr) (way : ℕ) {t : ℕ} (pref : Bool) (h : c.Good cfg) (hprocId : procId < cfg.cores) (ht : t < maxCtr) :
    c.Places cfg addr way (c.setEntry (cfg.geo.set addr) way
      ⟨procId, true, cfg.geo.tag addr, cfg.geo.lineAddr addr, t, pref, (c.entries (cfg.geo.set addr) way).data⟩) :=
  ⟨Cache.setEntry_inserts rfl rfl rfl, by rw [Cache.setEntry_self], h.setEntry (CacheEntry.good_line hprocId ht)⟩

theorem Cache.Places.updateReplPolicy (h : c.Places cfg addr way d) (hassoc : 0 < cfg.assoc) (htime : simTime < maxCtr) :
    c.Places cfg addr way (d.updateReplPolicy cfg.geo simTime (cfg.geo.set addr) way) :=
  ⟨h.inserts.updateReplPolicy, Cache.updateReplPolicy_data.trans h.data, h.good.updateReplPolicy hassoc htime⟩

/-- The time of the new line may be written again. -/
theorem Cache.Places.withTime {t : ℕ} (h : c.Places cfg addr way d) (ht : t < maxCtr) :
    c.Places cfg addr way (d.setEntry (cfg.geo.set addr) way
      { d.entries (cfg.geo.set addr) way with lastAccessTime := t }) :=
  ⟨h.inserts.setEntry h.inserts.holds.1 h.inserts.holds.2 h.inserts.base, by rw [Cache.setEntry_self]; exact h.data,
    h.good.setEntry ((h.good.entry _ _).withTime ht)⟩

theorem Cache.Good.insertWay (h : c.Good cfg) (hassoc : 0 < cfg.assoc) (hprocId : procId < cfg.cores)
    (htime : simTime < maxCtr) (pos : InsertRepl) (isPrefetch : Bool) :
    c.Places cfg addr way (c.insertWay cfg.geo simTime procId addr way pos isPrefetch) := by
  have hnew : c.Places cfg addr way _ := h.places_setEntry addr way isPrefetch hprocId htime
  have hagain (t : ℕ) (ht : t < maxCtr) := hnew.withTime ht
  rw [Cache.setEntry_self] at hagain
  have hat (place : ℕ) := Cache.accessTimeAt_lt cfg.geo place
    (fun way' => (hnew.good.entry (cfg.geo.set addr) way').time) htime
  unfold Cache.insertWay
  dsimp only
  cases pos with
  | default => exact hnew.updateReplPolicy hassoc htime
  | lru => exact hagain 123 (by unfold maxCtr; omega)
  | lowqtr => exact hagain _ (hat _)
  | mid => exact hagain _ (hat _)
  | mru => exact hnew

theorem Cache.Good.insertLruWay (h : c.Good cfg) (hassoc : 0 < cfg.assoc) (hprocId : procId < cfg.cores)
    (htime : simTime < maxCtr) (trueLru : Bool) :
    c.Places cfg addr way (c.insertLruWay cfg.geo simTime procId addr way trueLru) := by
  have hnew := (h.places_setEntry addr way (c.entries (cfg.geo.set addr) way).pref hprocId
    (h.entry (cfg.geo.set addr) way).time).updateReplPolicy hassoc htime
  rw [Cache.insertLruWay]
  dsimp only
  cases trueLru with
  | false => exact hnew
  | true => exact hnew.withTime (by unfold maxCtr; omega)

/-! ## The line of an address -/

/-- The lookup finds a way that holds the line. -/
theorem Cache.holds_of_lookup (h : c.lookup geo addr = some way) : way < geo.assoc ∧ c.Holds geo addr way := by
  have hmem := Geometry.mem_ways.mp (List.mem_of_find?_eq_some h)
  have hholds := List.find?_some h
  simp only [Bool.and_eq_true, beq_iff_eq] at hholds
  exact ⟨hmem, hholds⟩

/-- Where a set holds a tag once, it finds the only one. -/
theorem Cache.Unique.lookup_eq_some_iff (h : c.Unique geo) :
    c.lookup geo addr = some way ↔ way < geo.assoc ∧ c.Holds geo addr way := by
  refine ⟨Cache.holds_of_lookup, fun ⟨hlt, hholds⟩ => ?_⟩
  cases hlookup : c.lookup geo addr with
  | none => exact absurd hholds (Cache.lookup_eq_none_iff.mp hlookup way hlt)
  | some other =>
      obtain ⟨hlt', hholds'⟩ := Cache.holds_of_lookup hlookup
      rw [h _ _ _ hlt' hlt hholds'.1 hholds.1 (hholds'.2.trans hholds.2.symm)]

/-- The data block of a line. -/
def Cache.lineData (geo : Geometry) (c : Cache δ) (addr : Addr) : Option δ :=
  (c.lookup geo addr).map fun way => (c.entries (geo.set addr) way).data

@[simp] theorem Cache.accessData_eq {updateRepl : Bool} :
    c.accessData geo simTime addr updateRepl = c.lineData geo addr := by
  rw [Cache.accessData, Cache.access_fst, Cache.lineData]

/-- Two caches with the same tags and blocks have the same lines. -/
theorem Cache.lineData_congr (hlines : d.SameLines c) (hdata : ∀ set way, (d.entries set way).data = (c.entries set way).data) :
    d.lineData geo addr = c.lineData geo addr := by
  have hlookup : d.lookup geo addr = c.lookup geo addr := by
    rw [Cache.lookup]
    congr 1
    funext way
    rw [(hlines _ _).1, (hlines _ _).2]
  unfold Cache.lineData
  rw [hlookup]
  simp only [hdata]

/-- A valid entry holds the line of its base. -/
theorem Cache.Good.holds_iff (h : c.Good cfg) :
    c.Holds cfg.geo addr way ↔ c.replaced (cfg.geo.set addr) way = some (cfg.geo.lineAddr addr) := by
  have hgood := h.entry (cfg.geo.set addr) way
  unfold Cache.Holds Cache.replaced
  by_cases hvalid : (c.entries (cfg.geo.set addr) way).valid = true
  · rw [if_pos hvalid, Option.some.injEq, ← hgood.base hvalid, ← Geometry.sameLine_iff]
    unfold Geometry.SameLine
    rw [hgood.set hvalid, hgood.tag hvalid]
    exact ⟨fun h => ⟨rfl, h.2⟩, fun h => ⟨hvalid, h.2⟩⟩
  · rw [if_neg hvalid]
    exact ⟨fun h => absurd h.1 hvalid, fun h => nomatch h⟩

/-- The lines after an insertion: the new one, not the replaced one, and the others as before. -/
theorem Cache.Places.lineData (h : c.Places cfg addr way d) (hc : c.Good cfg) (hunique : c.Unique cfg.geo)
    (habsent : c.Absent cfg.geo addr) (hway : way < cfg.assoc) : d.lineData cfg.geo b =
      if cfg.geo.lineAddr addr = cfg.geo.lineAddr b then some (c.entries (cfg.geo.set addr) way).data
      else if c.replaced (cfg.geo.set addr) way = some (cfg.geo.lineAddr b) then none
      else c.lineData cfg.geo b := by
  have hunique' := h.inserts.unique habsent hunique
  by_cases hline : cfg.geo.lineAddr addr = cfg.geo.lineAddr b
  · rw [if_pos hline]
    have hsame := Geometry.sameLine_iff.mpr hline
    have hlookup : d.lookup cfg.geo b = some way := by
      rw [hunique'.lookup_eq_some_iff]
      refine ⟨hway, ?_⟩
      have hholds := h.inserts.holds
      rw [Cache.Holds] at hholds ⊢
      rwa [← hsame.1, ← hsame.2]
    rw [Cache.lineData]
    rw [hlookup, ← hsame.1, Option.map_some, h.data]
  · rw [if_neg hline]
    have hdiffer : ¬ cfg.geo.SameLine b addr := fun hsame => hline (Geometry.sameLine_iff.mp hsame).symm
    -- the way of the new line does not hold another one
    have hnot : cfg.geo.set b = cfg.geo.set addr → ¬ d.Holds cfg.geo b way := by
      intro hset hholds
      refine hdiffer ⟨hset, ?_⟩
      rw [← hholds.2, hset, h.inserts.holds.2]
    have hkeep (way' : ℕ) (hother : ¬ (cfg.geo.set b = cfg.geo.set addr ∧ way' = way)) :
        d.entries (cfg.geo.set b) way' = c.entries (cfg.geo.set b) way' := h.inserts.others _ _ hother
    by_cases hreplaced : c.replaced (cfg.geo.set addr) way = some (cfg.geo.lineAddr b)
    · rw [if_pos hreplaced]
      have hset : cfg.geo.set b = cfg.geo.set addr := by
        rw [Cache.replaced] at hreplaced
        split at hreplaced
        · rename_i hvalid
          rw [← (hc.entry _ _).set hvalid, Option.some.inj hreplaced]
          exact Geometry.sameLine_lineAddr.1.symm
        · cases hreplaced
      have hheld : c.Holds cfg.geo b way := hc.holds_iff.mpr (by rw [hset]; exact hreplaced)
      have hnone : d.lookup cfg.geo b = none := by
        rw [Cache.lookup_eq_none_iff]
        intro way' hway' hholds
        by_cases hsame : way' = way
        · rw [hsame] at hholds
          exact hnot hset hholds
        · rw [Cache.Holds] at hholds
          rw [hkeep way' fun h => hsame h.2] at hholds
          exact hsame (hunique _ _ _ hway' hway hholds.1 hheld.1 (hholds.2.trans hheld.2.symm))
      rw [Cache.lineData]
      rw [hnone]
      rfl
    · rw [if_neg hreplaced]
      have hlookup : d.lookup cfg.geo b = c.lookup cfg.geo b := by
        refine Option.ext fun way' => ?_
        rw [hunique'.lookup_eq_some_iff, hunique.lookup_eq_some_iff]
        refine and_congr_right fun _ => ?_
        by_cases hsame : cfg.geo.set b = cfg.geo.set addr ∧ way' = way
        · rw [hsame.2]
          refine iff_of_false (hnot hsame.1) fun hheld => hreplaced ?_
          rw [← hsame.1]
          exact hc.holds_iff.mp hheld
        · unfold Cache.Holds
          rw [hkeep way' hsame]
      unfold Cache.lineData
      rw [hlookup]
      cases hfound : c.lookup cfg.geo b with
      | none => rfl
      | some way' =>
          rw [Option.map_some, Option.map_some, hkeep way']
          rintro ⟨hset, rfl⟩
          rw [← hlookup, hunique'.lookup_eq_some_iff] at hfound
          exact hnot hset hfound.2

/-! ## Invalidations -/

/-- The entry that an invalidation reaches. -/
def Cache.Reaches (geo : Geometry) (c : Cache δ) (addr set : Addr) (way : ℕ) : Prop :=
  set = geo.set addr ∧ way < geo.assoc ∧ (c.entries set way).tag = geo.tag addr ∧ (c.entries set way).valid = true

theorem Cache.invalidate_reached (h : c.Reaches geo addr set way) :
    (c.invalidate geo addr).entries set way = { c.entries set way with tag := 0, valid := false, base := 0 } := if_pos h

theorem Cache.invalidate_other (h : ¬ c.Reaches geo addr set way) :
    (c.invalidate geo addr).entries set way = c.entries set way := if_neg h

/-- What is valid after an invalidation was so before, and is not of the line. -/
theorem Cache.invalidate_valid_iff : ((c.invalidate geo addr).entries set way).valid = true ↔
    (c.entries set way).valid = true ∧ ¬ c.Reaches geo addr set way := by
  by_cases h : c.Reaches geo addr set way
  · rw [Cache.invalidate_reached h]
    exact iff_of_false Bool.false_ne_true fun hvalid => hvalid.2 h
  · rw [Cache.invalidate_other h]
    exact ⟨fun hvalid => ⟨hvalid, h⟩, And.left⟩

theorem Cache.Good.invalidate (h : c.Good cfg) : (c.invalidate cfg.geo addr).Good cfg := by
  refine ⟨fun set way => ?_, h.ctr⟩
  by_cases hreached : c.Reaches cfg.geo addr set way
  · rw [Cache.invalidate_reached hreached]
    exact CacheEntry.good_invalid rfl (h.entry set way).time
  · rw [Cache.invalidate_other hreached]
    exact h.entry set way

theorem Cache.Unique.invalidate (h : c.Unique geo) : (c.invalidate geo addr).Unique geo := by
  intro set way way' hway hway' hvalid hvalid' htag
  rw [Cache.invalidate_valid_iff] at hvalid hvalid'
  rw [Cache.invalidate_other hvalid.2, Cache.invalidate_other hvalid'.2] at htag
  exact h set way way' hway hway' hvalid.1 hvalid'.1 htag

theorem Cache.invalidate_holds_iff (hway : way < geo.assoc) :
    (c.invalidate geo addr).Holds geo b way ↔ c.Holds geo b way ∧ geo.lineAddr addr ≠ geo.lineAddr b := by
  rw [Ne, ← Geometry.sameLine_iff]
  rw [Cache.Holds]
  rw [Cache.invalidate_valid_iff]
  by_cases hreached : c.Reaches geo addr (geo.set b) way
  · refine iff_of_false (fun h => h.1.2 hreached) ?_
    rintro ⟨⟨-, htag⟩, hdiffer⟩
    exact hdiffer ⟨hreached.1.symm, hreached.2.2.1.symm.trans htag⟩
  · rw [Cache.invalidate_other hreached]
    refine ⟨fun h => ⟨⟨h.1.1, h.2⟩, ?_⟩, fun h => ⟨⟨h.1.1, hreached⟩, h.1.2⟩⟩
    intro hsame
    exact hreached ⟨hsame.1.symm, hway, h.2.trans hsame.2.symm, h.1.1⟩

/-- The lines after an invalidation: not the one of the address, and the others as before. -/
theorem Cache.Unique.invalidate_lineData (hunique : c.Unique geo) : (c.invalidate geo addr).lineData geo b =
    if geo.lineAddr addr = geo.lineAddr b then none else c.lineData geo b := by
  have hlookup (way : ℕ) : (c.invalidate geo addr).lookup geo b = some way ↔
      c.lookup geo b = some way ∧ geo.lineAddr addr ≠ geo.lineAddr b := by
    rw [hunique.invalidate.lookup_eq_some_iff, hunique.lookup_eq_some_iff, and_assoc]
    exact and_congr_right fun hway => Cache.invalidate_holds_iff hway
  unfold Cache.lineData
  by_cases hline : geo.lineAddr addr = geo.lineAddr b
  · rw [if_pos hline]
    cases hfound : (c.invalidate geo addr).lookup geo b with
    | none => rfl
    | some way => exact absurd hline ((hlookup way).mp hfound).2
  · rw [if_neg hline]
    have hsame : (c.invalidate geo addr).lookup geo b = c.lookup geo b :=
      Option.ext fun way => (hlookup way).trans (and_iff_left hline)
    rw [hsame]
    cases hfound : c.lookup geo b with
    | none => rfl
    | some way =>
        have hkept := hunique.invalidate.lookup_eq_some_iff.mp (hsame.trans hfound)
        rw [Option.map_some, Option.map_some, Cache.invalidate_other]
        exact (Cache.invalidate_valid_iff.mp hkept.2.1).2

/-! ## The way that is found -/

theorem Cache.countWays_fst (c : Cache δ) (set : Addr) (ways : List ℕ) (w : CoreWays) :
    (c.countWays set ways w).1 = ways.find? fun way => !(c.entries set way).valid := by
  induction ways generalizing w with
  | nil => rfl
  | cons way ways ih =>
      rw [Cache.countWays]
      by_cases hvalid : (c.entries set way).valid = true
      · rw [if_pos hvalid, ih, List.find?_cons_of_neg (by simp [hvalid])]
      · rw [if_neg hvalid, List.find?_cons_of_pos (by simp [hvalid])]

theorem CoreWays.fits_of_checks {w : CoreWays} {cores assoc : ℕ}
    (hpos : ¬ ((List.range cores).any fun p => w.numWaysAlloctedCore p == 0) = true)
    (htotal : ¬ ((List.range cores).map w.numWaysAlloctedCore).sum > assoc) : w.Fits cores assoc := by
  refine ⟨fun p hp => ?_, Nat.le_of_not_lt htotal⟩
  simp only [List.any_eq_true, List.mem_range, beq_iff_eq, not_exists, not_and] at hpos
  exact Nat.pos_of_ne_zero (hpos p hp)

theorem Cache.Good.full (h : c.Good cfg) (hvalid : ∀ way < cfg.assoc, (c.entries set way).valid = true) :
    c.Full cfg.geo cfg.cores set :=
  ⟨hvalid, fun way hway => (h.entry set way).procId (hvalid way hway), fun way _ => (h.entry set way).time⟩

/-- If its assertions hold, the search of a partitioned cache finds a way of the set. -/
theorem Cache.Good.findPartitionEntry_lt (h : c.Good cfg) {w w' : CoreWays} (hprocId : procId < cfg.cores)
    (hfind : c.findPartitionEntry cfg.geo cfg.cores w procId set = .ok (way, w')) : way < cfg.assoc := by
  have hfind' := hfind
  rw [Cache.findPartitionEntry] at hfind
  by_cases hpos : ((List.range cfg.cores).any fun p => w.numWaysAlloctedCore p == 0) = true
  · rw [if_pos hpos] at hfind
    cases hfind
  by_cases htotal : ((List.range cfg.cores).map w.numWaysAlloctedCore).sum > cfg.geo.assoc
  · rw [if_neg hpos, if_pos htotal] at hfind
    cases hfind
  rw [if_neg hpos, if_neg htotal] at hfind
  have hfirst := Cache.countWays_fst c set cfg.geo.ways (w.reset cfg.cores)
  rcases hcount : c.countWays set cfg.geo.ways (w.reset cfg.cores) with ⟨found, w''⟩
  rw [hcount] at hfirst hfind
  cases found with
  | some way' =>
      cases hfind
      exact Geometry.mem_ways.mp (List.mem_of_find?_eq_some hfirst.symm)
  | none =>
      have hvalid : ∀ way < cfg.assoc, (c.entries set way).valid = true := by
        intro way hway
        have hnone := List.find?_eq_none.mp hfirst.symm way (Geometry.mem_ways.mpr hway)
        simpa using hnone
      obtain ⟨way', w', hother, -, hvictim⟩ :=
        (h.full hvalid).findPartitionEntry (CoreWays.fits_of_checks hpos htotal) hprocId
      rw [hother] at hfind'
      cases hfind'
      exact hvictim.lru.lt

theorem CacheLife.findReplEntry_lt {s : CacheLife δ} {ways : CoreWays} (h : s.cache.Good cfg) (hassoc : 0 < cfg.assoc)
    (hprocId : procId < cfg.cores) (hfind : s.findReplEntry cfg procId set = .ok (way, ways)) : way < cfg.assoc := by
  rw [CacheLife.findReplEntry] at hfind
  cases hpolicy : cfg.policy with
  | own policy =>
      rw [hpolicy] at hfind
      cases hfind
      exact Cache.findReplEntry_lt cfg.geo hassoc (h.ctr set)
  | partition =>
      rw [hpolicy] at hfind
      exact h.findPartitionEntry_lt hprocId hfind

/-! ## The law -/

/-- The data block of a line by the log, newest first: that of its insertion, unless it has been replaced or
invalidated since. -/
def resident : List (LineEvent δ) → Addr → Option δ
  | [], _ => none
  | .inserted line data replaced :: older, a =>
      if line = a then some data else if replaced = some a then none else resident older a
  | .invalidated line :: older, a => if line = a then none else resident older a

/-- An event that ends or renews the stay of a line. -/
def LineEvent.Concerns (a : Addr) : LineEvent δ → Prop
  | .inserted line _ replaced => line = a ∨ replaced = some a
  | .invalidated line => line = a

/-- A line is resident with a block when it went in with it and no newer event concerns it. -/
theorem resident_eq_some_iff {log : List (LineEvent δ)} {data : δ} : resident log a = some data ↔
    ∃ newer replaced older, log = newer ++ .inserted a data replaced :: older ∧ ∀ e ∈ newer, ¬ e.Concerns a := by
  induction log with
  | nil =>
      refine iff_of_false (by simp [resident]) ?_
      rintro ⟨newer, replaced, older, hlog, -⟩
      simp at hlog
  | cons e log ih =>
      -- an event that does not concern the line leaves it as it was
      have hpass (hnot : ¬ e.Concerns a) : (∃ newer replaced older,
          e :: log = newer ++ .inserted a data replaced :: older ∧ ∀ e ∈ newer, ¬ e.Concerns a) ↔
            resident log a = some data := by
        rw [ih]
        constructor
        · rintro ⟨newer, replaced, older, hlog, hnewer⟩
          cases newer with
          | nil =>
              obtain ⟨rfl, -⟩ := List.cons.inj hlog
              exact absurd (.inl rfl) hnot
          | cons e' newer =>
              exact ⟨newer, replaced, older, (List.cons.inj hlog).2, fun e he => hnewer e (List.mem_cons_of_mem _ he)⟩
        · rintro ⟨newer, replaced, older, rfl, hnewer⟩
          exact ⟨e :: newer, replaced, older, rfl, List.forall_mem_cons.mpr ⟨hnot, hnewer⟩⟩
      -- one that does decides it
      have hstop (hconcerns : e.Concerns a) (hother : ∀ replaced, e ≠ .inserted a data replaced) : ¬ ∃ newer replaced older,
          e :: log = newer ++ .inserted a data replaced :: older ∧ ∀ e ∈ newer, ¬ e.Concerns a := by
        rintro ⟨newer, replaced, older, hlog, hnewer⟩
        cases newer with
        | nil => exact hother replaced (List.cons.inj hlog).1
        | cons e' newer =>
            obtain ⟨rfl, -⟩ := List.cons.inj hlog
            exact hnewer e (by simp) hconcerns
      cases e with
      | inserted line data' replaced =>
          rw [resident]
          by_cases hline : line = a
          · rw [if_pos hline]
            by_cases hdata : data' = data
            · subst hline hdata
              exact ⟨fun _ => ⟨[], replaced, log, rfl, by simp⟩, fun _ => rfl⟩
            · refine iff_of_false (by simpa using hdata) (hstop (.inl hline) ?_)
              rintro replaced' h
              exact hdata (LineEvent.inserted.inj h).2.1
          · rw [if_neg hline]
            by_cases hreplaced : replaced = some a
            · rw [if_pos hreplaced]
              refine iff_of_false (by simp) (hstop (.inr hreplaced) ?_)
              rintro replaced' h
              exact hline (LineEvent.inserted.inj h).1
            · rw [if_neg hreplaced]
              exact (hpass fun h => h.elim hline hreplaced).symm
      | invalidated line =>
          rw [resident]
          by_cases hline : line = a
          · rw [if_pos hline]
            exact iff_of_false (by simp) (hstop hline (by simp))
          · rw [if_neg hline]
            exact (hpass hline).symm

/-- The cache and its log agree. -/
structure CacheLife.Sound (cfg : CacheConfig) (s : CacheLife δ) : Prop where
  good : s.cache.Good cfg
  unique : s.cache.Unique cfg.geo
  resident : ∀ addr, s.cache.lineData cfg.geo addr = Memory.resident s.log (cfg.geo.lineAddr addr)

variable {s t : CacheLife δ}

theorem CacheLife.init_sound (hassoc : 0 < cfg.assoc) (data : Addr → ℕ → δ) (ways : CoreWays) (rands : ℕ → ℕ) :
    (CacheLife.init data ways rands).Sound cfg := by
  refine ⟨⟨fun _ _ => ?_, fun _ => hassoc⟩, ?_, ?_⟩
  · exact CacheEntry.good_invalid rfl (by decide : 0 < maxCtr)
  · intro _ _ _ _ _ hvalid
    cases hvalid
  · intro addr
    have hnone : (CacheLife.init data ways rands).cache.lookup cfg.geo addr = none :=
      Cache.lookup_eq_none_iff.mpr fun _ _ h => nomatch h.1
    rw [Cache.lineData]
    rw [hnone]
    rfl

theorem CacheLife.Sound.insertWith (h : s.Sound cfg) (hassoc : 0 < cfg.assoc) {insert : ℕ → Cache δ}
    (hinsert : procId < cfg.cores → simTime < maxCtr → ∀ way, s.cache.Places cfg addr way (insert way))
    (hstep : s.insertWith cfg simTime procId addr insert = .ok t) : t.Sound cfg := by
  rw [CacheLife.insertWith] at hstep
  dsimp only at hstep
  by_cases hmiss : (s.cache.lookup cfg.geo addr).isSome = true
  · rw [if_pos hmiss] at hstep
    cases hstep
  by_cases hprocId : cfg.cores ≤ procId
  · rw [if_neg hmiss, if_pos hprocId] at hstep
    cases hstep
  by_cases htime : maxCtr ≤ simTime
  · rw [if_neg hmiss, if_neg hprocId, if_pos htime] at hstep
    cases hstep
  rw [if_neg hmiss, if_neg hprocId, if_neg htime] at hstep
  obtain ⟨⟨way, ways⟩, hfind, ht⟩ := Execution.bind_eq_ok.mp hstep
  cases ht
  have habsent : s.cache.Absent cfg.geo addr := Cache.lookup_eq_none_iff.mp (by simpa using hmiss)
  have hprocId := Nat.lt_of_not_le hprocId
  have hway := CacheLife.findReplEntry_lt h.good hassoc hprocId hfind
  have hplaces := hinsert hprocId (Nat.lt_of_not_le htime) way
  refine ⟨hplaces.good, hplaces.inserts.unique habsent h.unique, fun b => ?_⟩
  dsimp only
  rw [hplaces.lineData h.good h.unique habsent hway, Memory.resident, h.resident]

theorem Cache.access_data {updateRepl : Bool} :
    ((c.access geo simTime addr updateRepl).2.entries set' way').data = (c.entries set' way').data := by
  rw [Cache.access]
  cases c.lookup geo addr with
  | none => rfl
  | some way =>
      cases updateRepl with
      | false => rfl
      | true => exact Cache.updateReplPolicy_data.trans (Cache.setEntry_data rfl)

theorem CacheLife.Sound.access (h : s.Sound cfg) (hassoc : 0 < cfg.assoc) (htime : simTime < maxCtr) (addr : Addr)
    (updateRepl : Bool) : CacheLife.Sound cfg { s with cache := (s.cache.access cfg.geo simTime addr updateRepl).2 } := by
  have hlines : (s.cache.access cfg.geo simTime addr updateRepl).2.SameLines s.cache := Cache.access_sameLines
  have hgood : (s.cache.access cfg.geo simTime addr updateRepl).2.Good cfg := by
    rw [Cache.access]
    cases s.cache.lookup cfg.geo addr with
    | none => exact h.good
    | some way =>
        cases updateRepl with
        | false => exact h.good
        | true => exact (h.good.setEntry (h.good.entry _ _).withPref).updateReplPolicy hassoc htime
  exact ⟨hgood, hlines.unique h.unique, fun b =>
    (Cache.lineData_congr hlines fun _ _ => Cache.access_data).trans (h.resident b)⟩

/-- Every call keeps the cache and its log in agreement. -/
theorem CacheLife.Sound.step (h : s.Sound cfg) (hassoc : 0 < cfg.assoc) {call : CacheCall}
    (hstep : s.step cfg call = .ok t) : t.Sound cfg := by
  cases call with
  | access simTime addr updateRepl =>
      rw [CacheLife.step] at hstep
      by_cases htime : maxCtr ≤ simTime
      · rw [if_pos htime] at hstep
        cases hstep
      rw [if_neg htime] at hstep
      cases hstep
      exact h.access hassoc (Nat.lt_of_not_le htime) addr updateRepl
  | insertReplpos simTime procId addr pos isPrefetch =>
      exact h.insertWith hassoc (fun hprocId htime way => h.good.insertWay hassoc hprocId htime pos isPrefetch) hstep
  | insertLru simTime procId addr =>
      exact h.insertWith hassoc (fun hprocId htime way => h.good.insertLruWay hassoc hprocId htime _) hstep
  | invalidate addr =>
      cases hstep
      refine ⟨h.good.invalidate, h.unique.invalidate, fun b => ?_⟩
      dsimp only
      rw [h.unique.invalidate_lineData, Memory.resident, h.resident]
  | setPartitionAllocate procId numWays =>
      cases hstep
      exact ⟨h.good, h.unique, h.resident⟩

/-- Over every run of accesses, insertions after a miss and invalidations, no set holds a tag twice, set and tag
stand for the line address, and an access finds a line exactly while it is resident, with the data block that
its insertion handed out. -/
theorem CacheLife.run_resident (cfg : CacheConfig) (hassoc : 0 < cfg.assoc) (data : Addr → ℕ → δ) (ways : CoreWays)
    (rands : ℕ → ℕ) (calls : List CacheCall) (s : CacheLife δ)
    (hrun : Execution.run (CacheLife.step cfg) (CacheLife.init data ways rands) calls = .ok s) :
    s.cache.Unique cfg.geo ∧
      (∀ a b, cfg.geo.set a = cfg.geo.set b ∧ cfg.geo.tag a = cfg.geo.tag b ↔ cfg.geo.lineAddr a = cfg.geo.lineAddr b) ∧
      ∀ simTime addr updateRepl,
        s.cache.accessData cfg.geo simTime addr updateRepl = resident s.log (cfg.geo.lineAddr addr) := by
  have hsound : s.Sound cfg :=
    Execution.run_invariant (fun _ _ _ hs hstep => hs.step hassoc hstep) (CacheLife.init_sound hassoc data ways rands) hrun
  refine ⟨hsound.unique, fun a b => Geometry.sameLine_iff, fun simTime addr updateRepl => ?_⟩
  rw [Cache.accessData_eq, hsound.resident]

/-- A line that goes into the way of one that was invalidated. -/
theorem CacheLife.run_resident_second_line :
    ∃ s : CacheLife ℕ, Execution.run (CacheLife.step ⟨2, 0, 6, 1, .own .trueLru⟩)
        (CacheLife.init (fun _ way => way) ⟨fun _ => 0, fun _ => 0, fun _ => 0, fun _ => 0⟩ fun _ => 0)
        [.access 1 0x40 true, .insert 1 0 0x40, .insert 2 0 0x80, .invalidate 0x40, .insert 3 0 0xc8] = .ok s ∧
      s.cache.accessData ⟨2, 0, 6, .trueLru⟩ 4 0xc0 true = some 0 := by
  obtain ⟨s, hrun, hresident⟩ := Execution.map_eq_ok.mp (show
    (fun s : CacheLife ℕ => resident s.log 0xc0) <$> Execution.run (CacheLife.step ⟨2, 0, 6, 1, .own .trueLru⟩)
        (CacheLife.init (fun _ way => way) ⟨fun _ => 0, fun _ => 0, fun _ => 0, fun _ => 0⟩ fun _ => 0)
        [.access 1 0x40 true, .insert 1 0 0x40, .insert 2 0 0x80, .invalidate 0x40, .insert 3 0 0xc8] = .ok (some 0) by
    decide +kernel)
  exact ⟨s, hrun, ((CacheLife.run_resident _ (by decide) _ _ _ _ s hrun).2.2 4 0xc0 true).trans hresident⟩

end Scarab.Memory
