import Scarab.Libs.Cache.Positions

/-! # Prefetched lines go first

Under `REPL_LOW_PREF` the counter of a set names a prefetched line that no demand has used, if the set has one. -/

namespace Scarab.Memory

open Execution

variable {δ : Type} {geo : Geometry} {cfg : CacheConfig} {c d : Cache δ} {set set' addr : Addr} {way way' simTime procId : ℕ}

/-! ## The lines that no demand has used -/

/-- `cache_access`, `cache_insert_replpos` and `cache_insert_lru`. -/
inductive LowPrefCall where
  | access (simTime : ℕ) (addr : Addr) (updateRepl : Bool)
  | insertReplpos (simTime procId : ℕ) (addr : Addr) (insertReplPolicy : InsertRepl) (isPrefetch : Bool)
  | insertLru (simTime procId : ℕ) (addr : Addr)

/-- `cache_insert`. -/
abbrev LowPrefCall.insert (simTime procId : ℕ) (addr : Addr) : LowPrefCall := .insertReplpos simTime procId addr .default false

def LowPrefCall.call : LowPrefCall → CacheCall
  | .access simTime addr updateRepl => .access simTime addr updateRepl
  | .insertReplpos simTime procId addr insertReplPolicy isPrefetch => .insertReplpos simTime procId addr insertReplPolicy isPrefetch
  | .insertLru simTime procId addr => .insertLru simTime procId addr

/-- A cache, and which ways hold a line that was prefetched and that no demand has used since. -/
structure LowPrefLife (δ : Type) where
  life : CacheLife δ
  unused : Addr → ℕ → Bool

def LowPrefLife.init (data : Addr → ℕ → δ) (ways : CoreWays) (rands : ℕ → ℕ) : LowPrefLife δ :=
  ⟨.init data ways rands, fun _ _ => false⟩

/-- One way is used or not from now on. -/
def LowPrefLife.mark (s : LowPrefLife δ) (set : Addr) (way : ℕ) (unused : Bool) : Addr → ℕ → Bool :=
  fun set' way' => if set' = set ∧ way' = way then unused else s.unused set' way'

/-- The way that a line goes into. -/
def LowPrefLife.victim (cfg : CacheConfig) (s : LowPrefLife δ) (set : Addr) : ℕ := s.life.cache.findReplEntry cfg.geo set

/-- One call. A demand is an access that updates the replacement state. -/
def LowPrefLife.step (cfg : CacheConfig) (s : LowPrefLife δ) (call : LowPrefCall) : Except String (LowPrefLife δ) := do
  let life ← s.life.step cfg call.call
  return {
    life
    unused :=
      match call with
      | .access _ addr updateRepl =>
          match s.life.cache.lookup cfg.geo addr with
          | some way => if updateRepl then s.mark (cfg.geo.set addr) way false else s.unused
          | none => s.unused
      | .insertReplpos _ _ addr _ isPrefetch => s.mark (cfg.geo.set addr) (s.victim cfg (cfg.geo.set addr)) isPrefetch
      | .insertLru _ _ addr => s.mark (cfg.geo.set addr) (s.victim cfg (cfg.geo.set addr)) false }

/-- A line that goes into the set leaves no other line there that was prefetched and not used, if it fills the set. -/
def LowPrefLife.Alone (cfg : CacheConfig) (s : LowPrefLife δ) (set : Addr) : Prop :=
  (∀ way < cfg.assoc, way ≠ s.victim cfg set → (s.life.cache.entries set way).valid = true) →
    ∀ way < cfg.assoc, way ≠ s.victim cfg set → s.unused set way = false

/-- A demand line that the counter is not computed again for, or that keeps the mark of a prefetched line, goes in alone. -/
def LowPrefLife.Recounts (cfg : CacheConfig) (s : LowPrefLife δ) : LowPrefCall → Prop
  | .access _ _ _ => True
  | .insertReplpos _ _ addr insertReplPolicy isPrefetch =>
      insertReplPolicy ≠ .default → isPrefetch = false → s.Alone cfg (cfg.geo.set addr)
  | .insertLru _ _ addr =>
      (s.life.cache.entries (cfg.geo.set addr) (s.victim cfg (cfg.geo.set addr))).pref = true → s.Alone cfg (cfg.geo.set addr)

instance (s : LowPrefLife δ) (set : Addr) : Decidable (s.Alone cfg set) := by
  unfold LowPrefLife.Alone
  infer_instance

instance (s : LowPrefLife δ) (call : LowPrefCall) : Decidable (s.Recounts cfg call) := by
  cases call with
  | access simTime addr updateRepl => exact .isTrue trivial
  | insertReplpos simTime procId addr pos isPrefetch =>
      unfold LowPrefLife.Recounts
      infer_instance
  | insertLru simTime procId addr =>
      unfold LowPrefLife.Recounts
      infer_instance

/-! ## The marks and the counter of a set -/

/-- The marks of a set: they are right, but for a demand line that keeps one in a full set while no other way has one. The
ways are filled from the last one down. -/
structure Cache.Marked (geo : Geometry) (c : Cache δ) (set : Addr) (unused : ℕ → Bool) : Prop where
  early : ∀ way < geo.assoc, c.time set way < maxCtr
  marked : ∀ way < geo.assoc, unused way = true → (c.entries set way).pref = true
  plain : ∀ way < geo.assoc, (c.entries set way).pref = true → (c.entries set way).valid = true
  stale : ∀ way < geo.assoc, (c.entries set way).pref = true → unused way = false →
    c.Filled geo set ∧ ∀ way' < geo.assoc, (c.entries set way').pref = true → way' = way
  below : ∀ way < geo.assoc, (c.entries set way).valid = false → ∀ way' < way, (c.entries set way').valid = false

/-- The counter of a set names a marked way if there is one. -/
structure Cache.Chooses (geo : Geometry) (c : Cache δ) (set : Addr) : Prop where
  flagged : c.Filled geo set → (∃ way < geo.assoc, (c.entries set way).pref = true) →
    c.replCtrs set < geo.assoc ∧ (c.entries set (c.replCtrs set)).pref = true
  free : ¬ c.Filled geo set → c.replCtrs set = 0

variable {unused : ℕ → Bool}

theorem Cache.Filled.congr (hsame : ∀ way, d.entries set way = c.entries set way) : d.Filled geo set ↔ c.Filled geo set := by
  unfold Cache.Filled
  simp only [hsame]

theorem Cache.Marked.congr (h : c.Marked geo set unused) (hsame : ∀ way, d.entries set way = c.entries set way) :
    d.Marked geo set unused := by
  refine ⟨?_, ?_, ?_, ?_, ?_⟩
  · simpa only [Cache.time, hsame] using h.early
  · simpa only [hsame] using h.marked
  · simpa only [hsame] using h.plain
  · simpa only [hsame, Cache.Filled.congr hsame] using h.stale
  · simpa only [hsame] using h.below

theorem Cache.Chooses.congr (h : c.Chooses geo set) (hsame : ∀ way, d.entries set way = c.entries set way)
    (hctr : d.replCtrs set = c.replCtrs set) : d.Chooses geo set := by
  refine ⟨?_, ?_⟩
  · simpa only [hsame, Cache.Filled.congr hsame, hctr] using h.flagged
  · simpa only [Cache.Filled.congr hsame, hctr] using h.free

/-- A set that is not full has an invalid way. -/
theorem Cache.not_filled_iff : ¬ c.Filled geo set ↔ ∃ way < geo.assoc, (c.entries set way).valid = false := by
  unfold Cache.Filled
  simp

theorem find?_range_zero {ok : ℕ → Bool} {n : ℕ} (hn : 0 < n) (hok : ok 0 = true) : (List.range n).find? ok = some 0 := by
  obtain ⟨m, rfl⟩ := Nat.exists_eq_succ_of_ne_zero (Nat.ne_of_gt hn)
  rw [List.range_succ_eq_map, List.find?_cons_of_pos hok]

/-- The counter that is computed from right marks. -/
theorem Cache.Marked.lowPrefWay (h : c.Marked geo set unused) :
    (c.Filled geo set → (∃ way < geo.assoc, (c.entries set way).pref = true) →
      c.lowPrefWay geo set < geo.assoc ∧ (c.entries set (c.lowPrefWay geo set)).pref = true) ∧
    (¬ c.Filled geo set → c.lowPrefWay geo set = 0) := by
  constructor
  · rintro hfilled ⟨way, hway, hpref⟩
    have hnone : (geo.ways.find? fun way => !(c.entries set way).valid) = none := by
      rw [List.find?_eq_none]
      intro way hway
      simp [hfilled way (Geometry.mem_ways.mp hway)]
    have hany : (geo.ways.any fun way => (c.entries set way).pref && decide ((c.entries set way).lastAccessTime < maxCtr)) = true := by
      rw [List.any_eq_true]
      exact ⟨way, Geometry.mem_ways.mpr hway, by rw [hpref, Bool.true_and]; exact decide_eq_true (h.early way hway)⟩
    have hspec := Cache.oldest_spec CacheEntry.pref ⟨way, hway, hpref, h.early way hway⟩
    unfold Cache.lowPrefWay
    rw [hnone, Option.getD_none, if_pos hany]
    exact ⟨hspec.1, hspec.2.1⟩
  · intro hfree
    obtain ⟨way, hway, hinvalid⟩ := Cache.not_filled_iff.mp hfree
    have hzero : (c.entries set 0).valid = false := by
      rcases Nat.eq_zero_or_pos way with rfl | hpos
      · exact hinvalid
      · exact h.below way hway hinvalid 0 hpos
    unfold Cache.lowPrefWay Geometry.ways
    rw [find?_range_zero (by omega) (by simp [hzero]), Option.getD_some]

/-- The update of the policy computes the counter of the set again. -/
theorem Cache.updateReplPolicy_lowPref (c : Cache δ) (simTime : ℕ) (set : Addr) (way : ℕ) (hpolicy : geo.replPolicy = .lowPref) :
    (c.updateReplPolicy geo simTime set way).entries = c.entries ∧
      ∀ set', (c.updateReplPolicy geo simTime set way).replCtrs set' = if set' = set then c.lowPrefWay geo set else c.replCtrs set' := by
  unfold Cache.updateReplPolicy
  rw [hpolicy]
  exact ⟨rfl, fun _ => rfl⟩

theorem Cache.Marked.updateReplPolicy (h : c.Marked geo set unused) (simTime way : ℕ) (hpolicy : geo.replPolicy = .lowPref) :
    (c.updateReplPolicy geo simTime set way).Marked geo set unused ∧ (c.updateReplPolicy geo simTime set way).Chooses geo set := by
  obtain ⟨hentries, hctr⟩ := Cache.updateReplPolicy_lowPref c simTime set way hpolicy
  have hsame (way' : ℕ) : (c.updateReplPolicy geo simTime set way).entries set way' = c.entries set way' := by rw [hentries]
  refine ⟨h.congr hsame, ?_, ?_⟩
  · rw [hctr, if_pos rfl, Cache.Filled.congr hsame]
    simpa only [hsame] using h.lowPrefWay.1
  · rw [hctr, if_pos rfl, Cache.Filled.congr hsame]
    exact h.lowPrefWay.2

/-! ## The way for a new line -/

/-- The last position of a range that satisfies a predicate. -/
theorem find?_range_reverse_eq_some {ok : ℕ → Bool} {n : ℕ} (h : (List.range n).reverse.find? ok = some way) :
    way < n ∧ ok way = true ∧ ∀ way' < n, way < way' → ok way' = false := by
  induction n with
  | zero => simp at h
  | succ n ih =>
      rw [List.range_succ, List.reverse_append, List.reverse_singleton, List.singleton_append] at h
      by_cases hn : ok n = true
      · rw [List.find?_cons_of_pos hn] at h
        obtain rfl := Option.some.inj h
        exact ⟨Nat.lt_succ_self _, hn, fun way' hlt hgt => by omega⟩
      · rw [List.find?_cons_of_neg hn] at h
        obtain ⟨hlt, hok, hlater⟩ := ih h
        refine ⟨by omega, hok, fun way' hway' hgt => ?_⟩
        by_cases hlast : way' = n
        · simpa [hlast] using hn
        · exact hlater way' (by omega) hgt

theorem Cache.findReplEntry_lowPref (c : Cache δ) (set : Addr) (hpolicy : geo.replPolicy = .lowPref) :
    (c.Filled geo set → c.findReplEntry geo set = c.replCtrs set) ∧
      (¬ c.Filled geo set → c.findReplEntry geo set < geo.assoc ∧ (c.entries set (c.findReplEntry geo set)).valid = false ∧
        ∀ way < geo.assoc, c.findReplEntry geo set < way → (c.entries set way).valid = true) := by
  unfold Cache.findReplEntry
  rw [hpolicy]
  dsimp only
  cases hfind : geo.ways.reverse.find? fun way => !(c.entries set way).valid with
  | none =>
      rw [List.find?_eq_none] at hfind
      refine ⟨fun _ => rfl, fun hfree => ?_⟩
      obtain ⟨way, hway, hinvalid⟩ := Cache.not_filled_iff.mp hfree
      exact absurd (by simpa using hinvalid) (hfind way (List.mem_reverse.mpr (Geometry.mem_ways.mpr hway)))
  | some way =>
      obtain ⟨hway, hinvalid, hlater⟩ := find?_range_reverse_eq_some hfind
      rw [Option.getD_some]
      refine ⟨fun hfilled => ?_, fun _ => ⟨hway, by simpa using hinvalid, fun way' hway' hgt => by simpa using hlater way' hway' hgt⟩⟩
      rw [hfilled way hway] at hinvalid
      cases hinvalid

/-- A set with right marks, whose counter is right. -/
structure Cache.Prefers (geo : Geometry) (c : Cache δ) (set : Addr) (unused : ℕ → Bool) : Prop where
  marks : c.Marked geo set unused
  chooses : c.Chooses geo set

/-- Apart from the way that is replaced, a mark stands for a line that is not used. -/
theorem Cache.Prefers.unused_of_pref (h : c.Prefers geo set unused) (hpolicy : geo.replPolicy = .lowPref) (hway : way < geo.assoc)
    (hother : way ≠ c.findReplEntry geo set) (hpref : (c.entries set way).pref = true) : unused way = true := by
  by_contra hused
  obtain ⟨hfilled, honly⟩ := h.marks.stale way hway hpref (by simpa using hused)
  obtain ⟨hctr, hchosen⟩ := h.chooses.flagged hfilled ⟨way, hway, hpref⟩
  rw [(Cache.findReplEntry_lowPref c set hpolicy).1 hfilled] at hother
  exact hother (honly _ hctr hchosen).symm

/-- A line that goes into the way for new lines. -/
structure Cache.Replaces (geo : Geometry) (c : Cache δ) (set : Addr) (d : Cache δ) : Prop where
  others : ∀ way ≠ c.findReplEntry geo set, d.entries set way = c.entries set way
  valid : (d.entries set (c.findReplEntry geo set)).valid = true
  early : d.time set (c.findReplEntry geo set) < maxCtr

theorem Cache.Replaces.filled (h : c.Replaces geo set d) (hfilled : c.Filled geo set) : d.Filled geo set := by
  intro way hway
  by_cases hsame : way = c.findReplEntry geo set
  · rw [hsame]
    exact h.valid
  · rw [h.others way hsame]
    exact hfilled way hway

/-- The marks stay right if the new one is right, or is the only one of a full set. -/
theorem Cache.Prefers.replace (h : c.Prefers geo set unused) (hpolicy : geo.replPolicy = .lowPref) (hd : c.Replaces geo set d)
    {u : Bool} (hmarked : u = true → (d.entries set (c.findReplEntry geo set)).pref = true)
    (hstale : (d.entries set (c.findReplEntry geo set)).pref = true → u = false →
      d.Filled geo set ∧ ∀ way < geo.assoc, way ≠ c.findReplEntry geo set → unused way = false) :
    d.Marked geo set fun way => if way = c.findReplEntry geo set then u else unused way := by
  refine ⟨fun way hway => ?_, fun way hway hunused => ?_, fun way hway hpref => ?_, fun way hway hpref hused => ?_,
    fun way hway hinvalid way' hlt => ?_⟩
  · by_cases hsame : way = c.findReplEntry geo set
    · rw [hsame]
      exact hd.early
    · unfold Cache.time
      rw [hd.others way hsame]
      exact h.marks.early way hway
  · by_cases hsame : way = c.findReplEntry geo set
    · rw [if_pos hsame] at hunused
      rw [hsame]
      exact hmarked hunused
    · rw [if_neg hsame] at hunused
      rw [hd.others way hsame]
      exact h.marks.marked way hway hunused
  · by_cases hsame : way = c.findReplEntry geo set
    · rw [hsame]
      exact hd.valid
    · rw [hd.others way hsame] at hpref ⊢
      exact h.marks.plain way hway hpref
  · by_cases hsame : way = c.findReplEntry geo set
    · rw [if_pos hsame] at hused
      rw [hsame] at hpref ⊢
      obtain ⟨hfilled, halone⟩ := hstale hpref hused
      refine ⟨hfilled, fun way' hway' hpref' => ?_⟩
      by_contra hother
      rw [hd.others way' hother] at hpref'
      exact absurd (halone way' hway' hother) (by simp [h.unused_of_pref hpolicy hway' hother hpref'])
    · rw [if_neg hsame] at hused
      rw [hd.others way hsame] at hpref
      rw [h.unused_of_pref hpolicy hway hsame hpref] at hused
      cases hused
  · have hfree : ¬ c.Filled geo set := fun hfilled => by
      rw [hd.filled hfilled way hway] at hinvalid
      cases hinvalid
    obtain ⟨hlast, -, hlater⟩ := (Cache.findReplEntry_lowPref c set hpolicy).2 hfree
    have hsame : way ≠ c.findReplEntry geo set := by
      rintro rfl
      rw [hd.valid] at hinvalid
      cases hinvalid
    rw [hd.others way hsame] at hinvalid
    -- the new line is above the free ways
    have hbelow : way < c.findReplEntry geo set := by
      by_contra hnot
      rw [hlater way hway (by omega)] at hinvalid
      cases hinvalid
    rw [hd.others way' (by omega)]
    exact h.marks.below way hway hinvalid way' hlt

/-- A counter that is not computed again names the new line. -/
theorem Cache.Prefers.keep (h : c.Prefers geo set unused) (hpolicy : geo.replPolicy = .lowPref) (hd : c.Replaces geo set d)
    (hctr : d.replCtrs set = c.replCtrs set)
    (hnew : (d.entries set (c.findReplEntry geo set)).pref = true ∨
      (d.Filled geo set → ∀ way < geo.assoc, way ≠ c.findReplEntry geo set → unused way = false)) : d.Chooses geo set := by
  refine ⟨?_, fun hfree => ?_⟩
  · rintro hfilled ⟨way, hway, hpref⟩
    have hnames : c.replCtrs set = c.findReplEntry geo set ∧ c.findReplEntry geo set < geo.assoc := by
      by_cases hfull : c.Filled geo set
      · have hsame := (Cache.findReplEntry_lowPref c set hpolicy).1 hfull
        refine ⟨hsame.symm, ?_⟩
        by_cases hother : way = c.findReplEntry geo set
        · rw [← hother]
          exact hway
        · rw [hd.others way hother] at hpref
          rw [hsame]
          exact (h.chooses.flagged hfull ⟨way, hway, hpref⟩).1
      · -- the last free way is the first one
        obtain ⟨hlast, hinvalid, -⟩ := (Cache.findReplEntry_lowPref c set hpolicy).2 hfull
        refine ⟨?_, hlast⟩
        rw [h.chooses.free hfull]
        by_contra hne
        have hzero := h.marks.below _ hlast hinvalid 0 (by omega)
        rw [← hd.others 0 hne, hfilled 0 (by omega)] at hzero
        cases hzero
    rw [hctr, hnames.1]
    refine ⟨hnames.2, hnew.elim id fun halone => ?_⟩
    by_cases hother : way = c.findReplEntry geo set
    · rw [← hother]
      exact hpref
    · rw [hd.others way hother] at hpref
      exact absurd (halone hfilled way hway hother) (by simp [h.unused_of_pref hpolicy hway hother hpref])
  · rw [hctr]
    exact h.chooses.free fun hfull => hfree (hd.filled hfull)

theorem Cache.Prefers.congr (h : c.Prefers geo set unused) (hsame : ∀ way, d.entries set way = c.entries set way)
    (hctr : d.replCtrs set = c.replCtrs set) : d.Prefers geo set unused :=
  ⟨h.marks.congr hsame, h.chooses.congr hsame hctr⟩

/-- A line goes in with its mark, and the counter is computed again, or names the line. -/
theorem Cache.Prefers.insertWay (h : c.Prefers cfg.geo (cfg.geo.set addr) unused) (hgood : c.Good cfg)
    (hpolicy : cfg.geo.replPolicy = .lowPref) (hassoc : 0 < cfg.assoc) (hprocId : procId < cfg.cores) (htime : simTime < maxCtr)
    (pos : InsertRepl) (isPrefetch : Bool)
    (halone : pos ≠ .default → isPrefetch = false →
      (∀ way < cfg.assoc, way ≠ c.findReplEntry cfg.geo (cfg.geo.set addr) → (c.entries (cfg.geo.set addr) way).valid = true) →
        ∀ way < cfg.assoc, way ≠ c.findReplEntry cfg.geo (cfg.geo.set addr) → unused way = false) :
    (c.insertWay cfg.geo simTime procId addr (c.findReplEntry cfg.geo (cfg.geo.set addr)) pos isPrefetch).Prefers cfg.geo
      (cfg.geo.set addr) fun way => if way = c.findReplEntry cfg.geo (cfg.geo.set addr) then isPrefetch else unused way := by
  have hplaces (pos : InsertRepl) : c.Places cfg addr (c.findReplEntry cfg.geo (cfg.geo.set addr))
      (c.insertWay cfg.geo simTime procId addr (c.findReplEntry cfg.geo (cfg.geo.set addr)) pos isPrefetch) :=
    hgood.insertWay hassoc hprocId htime pos isPrefetch
  have hreplaces (pos : InsertRepl) : c.Replaces cfg.geo (cfg.geo.set addr)
      (c.insertWay cfg.geo simTime procId addr (c.findReplEntry cfg.geo (cfg.geo.set addr)) pos isPrefetch) :=
    ⟨fun way hne => (hplaces pos).inserts.others _ _ fun hsame => hne hsame.2, (hplaces pos).inserts.holds.1,
      ((hplaces pos).good.entry _ _).time⟩
  have hpref (pos : InsertRepl) (hpos : pos ≠ .default) :
      ((c.insertWay cfg.geo simTime procId addr (c.findReplEntry cfg.geo (cfg.geo.set addr)) pos isPrefetch).entries
        (cfg.geo.set addr) (c.findReplEntry cfg.geo (cfg.geo.set addr))).pref = isPrefetch := by
    unfold Cache.insertWay
    cases pos with
    | default => exact absurd rfl hpos
    | lru => rw [Cache.setEntry_self]
    | lowqtr => rw [Cache.setEntry_self]
    | mid => rw [Cache.setEntry_self]
    | mru => rw [Cache.setEntry_self]
  have hctr (pos : InsertRepl) (hpos : pos ≠ .default) :
      (c.insertWay cfg.geo simTime procId addr (c.findReplEntry cfg.geo (cfg.geo.set addr)) pos isPrefetch).replCtrs = c.replCtrs := by
    cases pos with
    | default => exact absurd rfl hpos
    | lru => rfl
    | lowqtr => rfl
    | mid => rfl
    | mru => rfl
  -- the mark of the line is right
  have hmarks (pos : InsertRepl) (hpos : pos ≠ .default) :=
    h.replace hpolicy (hreplaces pos) (fun hprefetch => (hpref pos hpos).trans hprefetch)
      fun hmarked hused => absurd (hmarked.symm.trans ((hpref pos hpos).trans hused)) (by decide)
  by_cases hpos : pos = .default
  · -- before the update of the policy the cache is as for the most recently used place
    subst hpos
    have hupdated := (hmarks .mru (by decide)).updateReplPolicy simTime (c.findReplEntry cfg.geo (cfg.geo.set addr)) hpolicy
    exact ⟨hupdated.1, hupdated.2⟩
  · refine ⟨hmarks pos hpos, h.keep hpolicy (hreplaces pos) (congrFun (hctr pos hpos) _) ?_⟩
    cases hprefetch : isPrefetch with
    | true => exact .inl (hprefetch ▸ hpref pos hpos)
    | false =>
        refine .inr fun hfilled => halone hpos hprefetch fun way hway hne => ?_
        rw [← (hreplaces pos).others way hne, hprefetch]
        exact hfilled way hway

/-- A demand line takes the mark of the line before it, and the counter is computed again. -/
theorem Cache.Prefers.insertLruWay (h : c.Prefers cfg.geo (cfg.geo.set addr) unused) (hgood : c.Good cfg)
    (hpolicy : cfg.geo.replPolicy = .lowPref) (hassoc : 0 < cfg.assoc) (hprocId : procId < cfg.cores)
    (halone : (c.entries (cfg.geo.set addr) (c.findReplEntry cfg.geo (cfg.geo.set addr))).pref = true →
      (∀ way < cfg.assoc, way ≠ c.findReplEntry cfg.geo (cfg.geo.set addr) → (c.entries (cfg.geo.set addr) way).valid = true) →
        ∀ way < cfg.assoc, way ≠ c.findReplEntry cfg.geo (cfg.geo.set addr) → unused way = false) :
    (c.insertLruWay cfg.geo simTime procId addr (c.findReplEntry cfg.geo (cfg.geo.set addr)) false).Prefers cfg.geo
      (cfg.geo.set addr) fun way => if way = c.findReplEntry cfg.geo (cfg.geo.set addr) then false else unused way := by
  have hplaces := hgood.places_setEntry addr (c.findReplEntry cfg.geo (cfg.geo.set addr))
    (c.entries (cfg.geo.set addr) (c.findReplEntry cfg.geo (cfg.geo.set addr))).pref hprocId
    (hgood.entry (cfg.geo.set addr) (c.findReplEntry cfg.geo (cfg.geo.set addr))).time
  have hreplaces : c.Replaces cfg.geo (cfg.geo.set addr) _ :=
    ⟨fun way hne => hplaces.inserts.others _ _ fun hsame => hne hsame.2, hplaces.inserts.holds.1, (hplaces.good.entry _ _).time⟩
  have hmarks := h.replace hpolicy hreplaces (u := false) (fun hfalse => by cases hfalse) fun hpref _ => by
    rw [Cache.setEntry_self] at hpref
    have hlt : c.findReplEntry cfg.geo (cfg.geo.set addr) < cfg.geo.assoc := by
      exact Cache.findReplEntry_lt cfg.geo hassoc (hgood.ctr _)
    have hfilled : c.Filled cfg.geo (cfg.geo.set addr) := by
      by_contra hfree
      have hvalid := h.marks.plain _ hlt hpref
      rw [((Cache.findReplEntry_lowPref c _ hpolicy).2 hfree).2.1] at hvalid
      cases hvalid
    exact ⟨hreplaces.filled hfilled, halone hpref fun way hway _ => hfilled way hway⟩
  have hupdated := hmarks.updateReplPolicy simTime (c.findReplEntry cfg.geo (cfg.geo.set addr)) hpolicy
  exact ⟨hupdated.1, hupdated.2⟩

/-- A demand takes the mark of its line. -/
theorem Cache.Marked.clear (h : c.Marked geo set unused) (way : ℕ) :
    (c.setEntry set way { c.entries set way with pref := false }).Marked geo set fun way' => if way' = way then false else unused way' := by
  have hsame (way' : ℕ) (hne : way' ≠ way) :
      (c.setEntry set way { c.entries set way with pref := false }).entries set way' = c.entries set way' :=
    Cache.setEntry_other fun h => hne h.2
  have hvalid (way' : ℕ) :
      ((c.setEntry set way { c.entries set way with pref := false }).entries set way').valid = (c.entries set way').valid := by
    by_cases hway : way' = way
    · rw [hway, Cache.setEntry_self]
    · rw [hsame way' hway]
  have hpref (way' : ℕ) (hmarked : ((c.setEntry set way { c.entries set way with pref := false }).entries set way').pref = true) :
      way' ≠ way ∧ (c.entries set way').pref = true := by
    by_cases hway : way' = way
    · rw [hway, Cache.setEntry_self] at hmarked
      cases hmarked
    · rw [hsame way' hway] at hmarked
      exact ⟨hway, hmarked⟩
  refine ⟨fun way' hway' => ?_, fun way' hway' hunused => ?_, fun way' hway' hmarked => ?_, fun way' hway' hmarked hused => ?_,
    fun way' hway' hinvalid way'' hlt => ?_⟩
  · rw [Cache.setEntry_time]
    split
    · rename_i heq
      exact heq ▸ h.early way' hway'
    · exact h.early way' hway'
  · by_cases hway : way' = way
    · rw [if_pos hway] at hunused
      cases hunused
    · rw [if_neg hway] at hunused
      rw [hsame way' hway]
      exact h.marked way' hway' hunused
  · rw [hvalid]
    exact h.plain way' hway' (hpref way' hmarked).2
  · obtain ⟨hne, hbefore⟩ := hpref way' hmarked
    rw [if_neg hne] at hused
    obtain ⟨hfilled, honly⟩ := h.stale way' hway' hbefore hused
    refine ⟨fun way'' hway'' => (hvalid way'').trans (hfilled way'' hway''), fun way'' hway'' hmarked'' => ?_⟩
    exact honly way'' hway'' (hpref way'' hmarked'').2
  · rw [hvalid] at hinvalid ⊢
    exact h.below way' hway' hinvalid way'' hlt

/-! ## Calls -/

/-- Every set has right marks and a right counter. -/
structure LowPrefLife.Ok (cfg : CacheConfig) (s : LowPrefLife δ) : Prop where
  sound : s.life.Sound cfg
  prefers : ∀ set, s.life.cache.Prefers cfg.geo set (s.unused set)

variable {s t : LowPrefLife δ} {call : LowPrefCall} {life : CacheLife δ}

theorem LowPrefLife.mark_self (u : Bool) : s.mark set way u set = fun way' => if way' = way then u else s.unused set way' := by
  funext way'
  simp [LowPrefLife.mark]

theorem LowPrefLife.mark_other {u : Bool} (hset : set' ≠ set) : s.mark set way u set' = s.unused set' := by
  funext way'
  simp [LowPrefLife.mark, hset]

/-- A change in one way of a set. -/
theorem LowPrefLife.Ok.mark (h : s.Ok cfg) {u : Bool}
    (hentries : ∀ set' way', ¬ (set' = set ∧ way' = way) → d.entries set' way' = s.life.cache.entries set' way')
    (hctr : ∀ set', set' ≠ set → d.replCtrs set' = s.life.cache.replCtrs set')
    (hset : d.Prefers cfg.geo set fun way' => if way' = way then u else s.unused set way') (set' : Addr) :
    d.Prefers cfg.geo set' (s.mark set way u set') := by
  by_cases hsame : set' = set
  · rw [hsame, LowPrefLife.mark_self]
    exact hset
  · rw [LowPrefLife.mark_other hsame]
    exact (h.prefers set').congr (fun way' => hentries set' way' fun hboth => hsame hboth.1) (hctr set' hsame)

theorem Cache.updateReplPolicy_replCtrs_other (hset : set' ≠ set) :
    (c.updateReplPolicy geo simTime set way).replCtrs set' = c.replCtrs set' := by
  unfold Cache.updateReplPolicy
  cases geo.replPolicy with
  | trueLru => rfl
  | random => simp [hset]
  | notMru =>
      dsimp only
      split
      · simp [hset]
      · rfl
  | roundRobin => simp [hset]
  | lowPref => simp [hset]

theorem LowPrefLife.Ok.step (h : s.Ok cfg) (hpolicy : cfg.policy = .own .lowPref) (hassoc : 0 < cfg.assoc)
    (hrecounts : s.Recounts cfg call) (hstep : s.step cfg call = .ok t) : t.Ok cfg := by
  have hgeo : cfg.geo.replPolicy = .lowPref := by
    unfold CacheConfig.geo
    rw [hpolicy]
    rfl
  have hown : (cfg.policy == .own .trueLru) = false := by
    rw [hpolicy]
    rfl
  obtain ⟨life, hlife, ht⟩ := bind_eq_ok.mp hstep
  cases ht
  refine ⟨h.sound.step hassoc hlife, fun set' => ?_⟩
  cases call with
  | access simTime addr updateRepl =>
      rw [LowPrefCall.call, CacheLife.step] at hlife
      by_cases htime : maxCtr ≤ simTime
      · rw [if_pos htime] at hlife
        cases hlife
      rw [if_neg htime] at hlife
      cases hlife
      unfold Cache.access
      dsimp only
      cases hlookup : s.life.cache.lookup cfg.geo addr with
      | none => exact h.prefers set'
      | some way =>
          dsimp only
          cases updateRepl with
          | false => exact h.prefers set'
          | true =>
              rw [if_pos rfl, if_pos rfl]
              have hupdated := ((h.prefers (cfg.geo.set addr)).marks.clear way).updateReplPolicy simTime way hgeo
              refine h.mark (fun set' way' hother => ?_) (fun set' hset => ?_) ⟨hupdated.1, hupdated.2⟩ set'
              · rw [(Cache.updateReplPolicy_lowPref _ simTime _ way hgeo).1, Cache.setEntry_other hother]
              · exact Cache.updateReplPolicy_replCtrs_other hset
  | insertReplpos simTime procId addr pos isPrefetch =>
      rw [LowPrefCall.call, CacheLife.step] at hlife
      obtain ⟨hprocId, htime, hcache⟩ := CacheLife.insertWith_own hpolicy hlife
      dsimp only
      rw [hcache]
      refine h.mark (fun set' way' hother => ?_) (fun set' hset => ?_)
        ((h.prefers (cfg.geo.set addr)).insertWay h.sound.good hgeo hassoc hprocId htime pos isPrefetch hrecounts) set'
      · exact Cache.insertWay_inserts.others set' way' hother
      · unfold Cache.insertWay
        cases pos with
        | default => exact Cache.updateReplPolicy_replCtrs_other hset
        | lru => rfl
        | lowqtr => rfl
        | mid => rfl
        | mru => rfl
  | insertLru simTime procId addr =>
      rw [LowPrefCall.call, CacheLife.step] at hlife
      obtain ⟨hprocId, htime, hcache⟩ := CacheLife.insertWith_own hpolicy hlife
      dsimp only
      rw [hcache, hown]
      refine h.mark (fun set' way' hother => ?_) (fun set' hset => ?_)
        ((h.prefers (cfg.geo.set addr)).insertLruWay h.sound.good hgeo hassoc hprocId hrecounts) set'
      · exact (h.sound.good.insertLruWay hassoc hprocId htime false).inserts.others set' way' hother
      · exact Cache.updateReplPolicy_replCtrs_other hset

theorem LowPrefLife.init_ok (hassoc : 0 < cfg.assoc) (data : Addr → ℕ → δ) (ways : CoreWays) (rands : ℕ → ℕ) :
    (LowPrefLife.init data ways rands).Ok cfg := by
  refine ⟨CacheLife.init_sound hassoc data ways rands, fun set => ⟨⟨?_, ?_, ?_, ?_, ?_⟩, ?_, ?_⟩⟩
  · exact fun way hway => (by decide : 0 < maxCtr)
  · intro way hway hunused
    cases hunused
  · intro way hway hpref
    cases hpref
  · intro way hway hpref
    cases hpref
  · exact fun way hway hinvalid way' hlt => rfl
  · rintro hfilled ⟨way, hway, hpref⟩
    cases hpref
  · exact fun hfree => rfl

end Scarab.Memory
