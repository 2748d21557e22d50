import Scarab.Memory.Requests

/-! # The lines of a cache

What the operations on a cache do to the lines in it, whatever the replacement policy. -/

namespace Scarab.Memory

variable {δ : Type} {geo : Geometry} {c d : Cache δ} {set set' addr : Addr} {way way' : ℕ}

/-- Two caches hold the same lines. -/
def Cache.SameLines (c d : Cache δ) : Prop :=
  ∀ set way, (c.entries set way).valid = (d.entries set way).valid ∧ (c.entries set way).tag = (d.entries set way).tag

theorem Cache.SameLines.refl (c : Cache δ) : c.SameLines c := fun _ _ => ⟨rfl, rfl⟩

theorem Cache.SameLines.trans {e : Cache δ} (h : c.SameLines d) (h' : d.SameLines e) : c.SameLines e :=
  fun set way => ⟨(h set way).1.trans (h' set way).1, (h set way).2.trans (h' set way).2⟩

/-- A line in a way. -/
def Cache.Holds (geo : Geometry) (c : Cache δ) (addr : Addr) (way : ℕ) : Prop :=
  (c.entries (geo.set addr) way).valid = true ∧ (c.entries (geo.set addr) way).tag = geo.tag addr

/-- A line that is in no way. -/
def Cache.Absent (geo : Geometry) (c : Cache δ) (addr : Addr) : Prop := ∀ way < geo.assoc, ¬ c.Holds geo addr way

/-- No set holds a line twice. -/
def Cache.Unique (geo : Geometry) (c : Cache δ) : Prop :=
  ∀ set way way', way < geo.assoc → way' < geo.assoc → (c.entries set way).valid = true →
    (c.entries set way').valid = true → (c.entries set way).tag = (c.entries set way').tag → way = way'

theorem Cache.SameLines.holds_iff (h : c.SameLines d) : c.Holds geo addr way ↔ d.Holds geo addr way := by
  unfold Cache.Holds
  rw [(h _ _).1, (h _ _).2]

theorem Cache.SameLines.unique (h : c.SameLines d) (hd : d.Unique geo) : c.Unique geo := by
  intro set way way' hway hway' hvalid hvalid' htag
  rw [(h _ _).1] at hvalid hvalid'
  rw [(h _ _).2, (h _ _).2] at htag
  exact hd set way way' hway hway' hvalid hvalid' htag

/-- Two addresses of one line. -/
def Geometry.SameLine (geo : Geometry) (a b : Addr) : Prop := geo.set a = geo.set b ∧ geo.tag a = geo.tag b

/-- The lookup finds nothing exactly when the line is absent. -/
theorem Cache.lookup_eq_none_iff : c.lookup geo addr = none ↔ c.Absent geo addr := by
  simp [Cache.lookup, Cache.Absent, Cache.Holds, Geometry.ways]

/-! ## The writes of an entry -/

@[simp] theorem Cache.setEntry_self {entry : CacheEntry δ} : (c.setEntry set way entry).entries set way = entry := by
  simp [Cache.setEntry]

theorem Cache.setEntry_other {entry : CacheEntry δ} (h : ¬ (set' = set ∧ way' = way)) :
    (c.setEntry set way entry).entries set' way' = c.entries set' way' := by
  simp only [Cache.setEntry]
  rw [if_neg h]

/-- A write that leaves the tag leaves the lines. -/
theorem Cache.setEntry_sameLines {entry : CacheEntry δ} (hvalid : entry.valid = (c.entries set way).valid)
    (htag : entry.tag = (c.entries set way).tag) : (c.setEntry set way entry).SameLines c := by
  intro set' way'
  by_cases h : set' = set ∧ way' = way
  · rw [h.1, h.2, Cache.setEntry_self]
    exact ⟨hvalid, htag⟩
  · rw [Cache.setEntry_other h]
    exact ⟨rfl, rfl⟩

theorem Cache.setData_sameLines {data : δ} : (c.setData set way data).SameLines c := Cache.setEntry_sameLines rfl rfl

theorem Cache.updateReplPolicy_sameLines {simTime : ℕ} : (c.updateReplPolicy geo simTime set way).SameLines c := by
  unfold Cache.updateReplPolicy
  dsimp only
  cases geo.replPolicy with
  | trueLru => exact Cache.setEntry_sameLines rfl rfl
  | random => exact .refl c
  | notMru =>
      by_cases h : way = c.replCtrs set
      · simp only [h, ↓reduceIte]
        exact .refl c
      · simp only [h, ↓reduceIte]
        exact .refl c
  | roundRobin => exact .refl c
  | lowPref => exact .refl c

theorem Cache.access_sameLines {simTime : ℕ} {updateRepl : Bool} : (c.access geo simTime addr updateRepl).2.SameLines c := by
  unfold Cache.access
  cases c.lookup geo addr with
  | none => exact .refl c
  | some way =>
      cases updateRepl with
      | false => exact .refl c
      | true => exact Cache.updateReplPolicy_sameLines.trans (Cache.setEntry_sameLines rfl rfl)

theorem Cache.access_fst {simTime : ℕ} {updateRepl : Bool} : (c.access geo simTime addr updateRepl).1 = c.lookup geo addr := by
  unfold Cache.access
  cases c.lookup geo addr with
  | none => rfl
  | some way => rfl

/-! ## Insertion -/

/-- One way gets a line and the other ways keep theirs. -/
structure Cache.Inserts (geo : Geometry) (c : Cache δ) (addr : Addr) (way : ℕ) (d : Cache δ) : Prop where
  holds : d.Holds geo addr way
  base : (d.entries (geo.set addr) way).base = geo.lineAddr addr
  others : ∀ set' way', ¬ (set' = geo.set addr ∧ way' = way) → d.entries set' way' = c.entries set' way'

theorem Cache.setEntry_inserts {entry : CacheEntry δ} (hvalid : entry.valid = true) (htag : entry.tag = geo.tag addr)
    (hbase : entry.base = geo.lineAddr addr) : c.Inserts geo addr way (c.setEntry (geo.set addr) way entry) := by
  refine ⟨?_, ?_, fun _ _ h => Cache.setEntry_other h⟩
  · unfold Cache.Holds
    rw [Cache.setEntry_self]
    exact ⟨hvalid, htag⟩
  · rw [Cache.setEntry_self]
    exact hbase

/-- The entry that was inserted can be written again. -/
theorem Cache.Inserts.setEntry (h : c.Inserts geo addr way d) {entry : CacheEntry δ} (hvalid : entry.valid = true)
    (htag : entry.tag = geo.tag addr) (hbase : entry.base = geo.lineAddr addr) :
    c.Inserts geo addr way (d.setEntry (geo.set addr) way entry) := by
  have hnew : d.Inserts geo addr way (d.setEntry (geo.set addr) way entry) := Cache.setEntry_inserts hvalid htag hbase
  exact ⟨hnew.holds, hnew.base, fun _ _ hother => (hnew.others _ _ hother).trans (h.others _ _ hother)⟩

theorem Cache.Inserts.setData (h : c.Inserts geo addr way d) {data : δ} :
    c.Inserts geo addr way (d.setData (geo.set addr) way data) :=
  h.setEntry h.holds.1 h.holds.2 h.base

theorem Cache.Inserts.updateReplPolicy (h : c.Inserts geo addr way d) {simTime : ℕ} :
    c.Inserts geo addr way (d.updateReplPolicy geo simTime (geo.set addr) way) := by
  have hkeep (replCtrs : Addr → ℕ) (rands : ℕ → ℕ) :
      c.Inserts geo addr way { d with replCtrs, rands } := ⟨h.holds, h.base, h.others⟩
  unfold Cache.updateReplPolicy
  dsimp only
  cases geo.replPolicy with
  | trueLru => exact h.setEntry h.holds.1 h.holds.2 h.base
  | random => exact hkeep _ _
  | notMru =>
      by_cases hway : way = d.replCtrs (geo.set addr)
      · rw [if_pos hway]
        exact hkeep _ _
      · rw [if_neg hway]
        exact h
  | roundRobin => exact hkeep _ _
  | lowPref => exact hkeep _ _

variable {simTime procId : ℕ} {pos : InsertRepl} {isPrefetch : Bool}

/-- The way of the new line is the one that `find_repl_entry` finds before. -/
@[simp] theorem Cache.insertReplpos_fst :
    (c.insertReplpos geo simTime procId addr pos isPrefetch).1 = c.findReplEntry geo (geo.set addr) := rfl

theorem Cache.insertReplpos_inserts :
    c.Inserts geo addr (c.findReplEntry geo (geo.set addr)) (c.insertReplpos geo simTime procId addr pos isPrefetch).2 := by
  have hnew (entry : CacheEntry δ) (hvalid : entry.valid = true) (htag : entry.tag = geo.tag addr)
      (hbase : entry.base = geo.lineAddr addr) : c.Inserts geo addr (c.findReplEntry geo (geo.set addr))
        (c.setEntry (geo.set addr) (c.findReplEntry geo (geo.set addr)) entry) :=
    Cache.setEntry_inserts hvalid htag hbase
  unfold Cache.insertReplpos
  dsimp only
  cases pos with
  | default => exact (hnew _ rfl rfl rfl).updateReplPolicy
  | lru => exact (hnew _ rfl rfl rfl).setEntry rfl rfl rfl
  | lowqtr => exact (hnew _ rfl rfl rfl).setEntry rfl rfl rfl
  | mid => exact (hnew _ rfl rfl rfl).setEntry rfl rfl rfl
  | mru => exact hnew _ rfl rfl rfl

/-- The data of the entry that gets a line stay. -/
theorem Cache.insertReplpos_data :
    ((c.insertReplpos geo simTime procId addr pos isPrefetch).2.entries (geo.set addr)
      (c.findReplEntry geo (geo.set addr))).data =
        (c.entries (geo.set addr) (c.findReplEntry geo (geo.set addr))).data := by
  unfold Cache.insertReplpos Cache.updateReplPolicy
  dsimp only
  cases pos with
  | default =>
      cases geo.replPolicy with
      | trueLru => simp
      | random => simp
      | notMru =>
          dsimp only
          split
          · simp
          · simp
      | roundRobin => simp
      | lowPref => simp
  | lru => simp
  | lowqtr => simp
  | mid => simp
  | mru => simp

/-- A line that was in no other way is not in the set twice when it is in. -/
theorem Cache.Inserts.unique_of_others (h : c.Inserts geo addr way d)
    (hothers : ∀ way' < geo.assoc, way' ≠ way → ¬ c.Holds geo addr way') (hunique : c.Unique geo) : d.Unique geo := by
  intro set way₁ way₂ hway₁ hway₂ hvalid₁ hvalid₂ htag
  have hold (way' : ℕ) (hother : way' ≠ way) (hlt : way' < geo.assoc)
      (hvalid : (d.entries (geo.set addr) way').valid = true)
      (htag : (d.entries (geo.set addr) way').tag = (d.entries (geo.set addr) way).tag) : False := by
    rw [h.others _ _ fun hsame => hother hsame.2] at hvalid htag
    exact hothers way' hlt hother ⟨hvalid, htag.trans h.holds.2⟩
  by_cases hset : set = geo.set addr
  · subst hset
    by_cases h₁ : way₁ = way
    · by_cases h₂ : way₂ = way
      · rw [h₁, h₂]
      · exact (hold way₂ h₂ hway₂ hvalid₂ (by rw [← htag, h₁])).elim
    · by_cases h₂ : way₂ = way
      · exact (hold way₁ h₁ hway₁ hvalid₁ (by rw [htag, h₂])).elim
      · rw [h.others _ _ fun hsame => h₁ hsame.2] at hvalid₁ htag
        rw [h.others _ _ fun hsame => h₂ hsame.2] at hvalid₂ htag
        exact hunique _ _ _ hway₁ hway₂ hvalid₁ hvalid₂ htag
  · have hkeep (way' : ℕ) : d.entries set way' = c.entries set way' := h.others _ _ fun hsame => hset hsame.1
    rw [hkeep] at hvalid₁ hvalid₂ htag
    rw [hkeep] at htag
    exact hunique _ _ _ hway₁ hway₂ hvalid₁ hvalid₂ htag

/-- A line that was absent is not in the set twice when it is in. -/
theorem Cache.Inserts.unique (h : c.Inserts geo addr way d) (habsent : c.Absent geo addr) (hunique : c.Unique geo) :
    d.Unique geo :=
  h.unique_of_others (fun way' hway' _ => habsent way' hway') hunique

/-- An insertion puts a line into the set twice exactly when the line was in another way. -/
theorem Cache.Inserts.unique_iff (h : c.Inserts geo addr way d) (hway : way < geo.assoc) (hunique : c.Unique geo) :
    d.Unique geo ↔ ∀ way' < geo.assoc, c.Holds geo addr way' → way' = way := by
  constructor
  · intro hd way' hway' hholds
    by_contra hother
    have hkeep := h.others (geo.set addr) way' fun hsame => hother hsame.2
    unfold Cache.Holds at hholds
    rw [← hkeep] at hholds
    exact hother (hd _ way' way hway' hway hholds.1 h.holds.1 (hholds.2.trans h.holds.2.symm))
  · exact fun hothers => h.unique_of_others (fun way' hway' hother hholds => hother (hothers way' hway' hholds)) hunique

/-- A line that is in the set once is found where it is. -/
theorem Cache.Unique.lookup (h : c.Unique geo) (hway : way < geo.assoc) (hholds : c.Holds geo addr way) :
    c.lookup geo addr = some way := by
  cases hfound : c.lookup geo addr with
  | none => exact (Cache.lookup_eq_none_iff.mp hfound way hway hholds).elim
  | some way' =>
      have hway' : way' < geo.assoc := List.mem_range.mp (List.mem_of_find?_eq_some hfound)
      have hholds' := List.find?_some hfound
      rw [Bool.and_eq_true, beq_iff_eq] at hholds'
      rw [h _ way' way hway' hway hholds'.1 hholds.1 (hholds'.2.trans hholds.2.symm)]

section

variable {c : Cache LineData} {req : MemReq}

@[simp] theorem Cache.insertFor_fst :
    (c.insertFor geo simTime req pos).1 = c.findReplEntry geo (geo.set req.addr) := by
  unfold Cache.insertFor
  by_cases h : req.type.isPrefetch = true
  · rw [if_pos h, Cache.insertReplpos_fst]
  · rw [if_neg h]
    rfl

theorem Cache.insertFor_inserts :
    c.Inserts geo req.addr (c.findReplEntry geo (geo.set req.addr)) (c.insertFor geo simTime req pos).2 := by
  unfold Cache.insertFor
  by_cases h : req.type.isPrefetch = true
  · rw [if_pos h]
    exact Cache.insertReplpos_inserts
  · rw [if_neg h]
    exact Cache.insertReplpos_inserts

theorem Cache.insertFor_data :
    ((c.insertFor geo simTime req pos).2.entries (geo.set req.addr)
      (c.findReplEntry geo (geo.set req.addr))).data =
        (c.entries (geo.set req.addr) (c.findReplEntry geo (geo.set req.addr))).data := by
  unfold Cache.insertFor
  by_cases h : req.type.isPrefetch = true
  · rw [if_pos h]
    exact Cache.insertReplpos_data
  · rw [if_neg h]
    exact Cache.insertReplpos_data

end

end Scarab.Memory
