import Scarab.Libs.Cache.Lru

/-! # Positions in the LRU stack

`cache_find_pos_in_lru_stack`, of a cache whose policy keeps the access times of the true LRU. A use
of a line is its insertion, or an access to it that updates the replacement state. -/

namespace Scarab.Memory

variable {δ : Type}

/-! ## The code -/

/-- `cache_find_pos_in_lru_stack`. The second loop does not look at `valid`. -/
def Cache.findPosInLruStack (geo : Geometry) (c : Cache δ) (procId : ℕ) (addr : Addr) : Except String ℤ :=
  match c.lookup geo addr with
  | none => .ok (-1)
  | some way =>
      let hitLine := c.entries (geo.set addr) way
      if hitLine.procId ≠ procId then .error "hit_line->proc_id == proc_id"
      else .ok (geo.ways.countP fun ii =>
        let line := c.entries (geo.set addr) ii
        hitLine.procId == line.procId && decide (hitLine.lastAccessTime < line.lastAccessTime))

/-- A cache, and the cycle of the last use of each line. -/
structure CacheUses (δ : Type) where
  life : CacheLife δ
  lastUse : Addr → ℕ

/-- After `init_cache`, which sets `valid` in memory from `malloc` that holds anything. -/
def CacheUses.init (memory : Addr → ℕ → CacheEntry δ) (ways : CoreWays) (rands : ℕ → ℕ) : CacheUses δ where
  life :=
    { cache := ⟨fun set way => { memory set way with valid := false }, fun _ => 0, rands⟩
      ways
      log := [] }
  lastUse _ := 0

/-- `cache_access`, `cache_insert` and `cache_invalidate`. -/
inductive UseCall where
  | access (simTime : ℕ) (addr : Addr) (updateRepl : Bool)
  | insert (simTime procId : ℕ) (addr : Addr)
  | invalidate (addr : Addr)

def CacheUses.step (cfg : CacheConfig) (s : CacheUses δ) : UseCall → Except String (CacheUses δ)
  | .access simTime addr updateRepl => do
      let life ← s.life.step cfg (.access simTime addr updateRepl)
      return ⟨life, if updateRepl && (s.life.cache.lookup cfg.geo addr).isSome then
        Function.update s.lastUse (cfg.geo.lineAddr addr) simTime else s.lastUse⟩
  | .insert simTime procId addr => do
      let life ← s.life.step cfg (.insert simTime procId addr)
      return ⟨life, Function.update s.lastUse (cfg.geo.lineAddr addr) simTime⟩
  | .invalidate addr => do
      let life ← s.life.step cfg (.invalidate addr)
      return ⟨life, s.lastUse⟩

/-! ## What the position is for -/

/-- How many lines of a core in the set of an address were used later than the line of the address. -/
def CacheUses.usedLater (cfg : CacheConfig) (s : CacheUses δ) (procId : ℕ) (addr : Addr) : ℕ :=
  cfg.geo.ways.countP fun ii =>
    let line := s.life.cache.entries (cfg.geo.set addr) ii
    line.valid && line.procId == procId && decide (s.lastUse (cfg.geo.lineAddr addr) < s.lastUse line.base)

/-- The position in the LRU stack, or -1. -/
structure CacheUses.IsPosition (cfg : CacheConfig) (s : CacheUses δ) (procId : ℕ) (addr : Addr) (position : ℤ) : Prop where
  miss : position = -1 ↔ s.life.cache.Absent cfg.geo addr
  hit : ¬ s.life.cache.Absent cfg.geo addr → position = s.usedLater cfg procId addr

/-- No invalid way has the id of the core and a later time than the line. -/
def Cache.NoneStale (geo : Geometry) (c : Cache δ) (procId : ℕ) (addr : Addr) : Prop :=
  ∀ way, c.lookup geo addr = some way → ∀ ii < geo.assoc, (c.entries (geo.set addr) ii).valid = false →
    (c.entries (geo.set addr) ii).procId = procId →
      (c.entries (geo.set addr) ii).lastAccessTime ≤ (c.entries (geo.set addr) way).lastAccessTime

variable {geo : Geometry} {cfg : CacheConfig} {c d : Cache δ} {set addr : Addr} {way simTime procId : ℕ} {s t : CacheUses δ}
  {order before after : List ℕ}

/-! ## Counting -/

/-- A count is that of the elements with another property exactly if all that count have it. -/
theorem countP_eq_and_iff {α : Type} (p q : α → Bool) (l : List α) :
    l.countP p = l.countP (fun a => q a && p a) ↔ ∀ a ∈ l, q a = false → p a = false := by
  have hsplit := List.countP_eq_countP_filter_add l p q
  rw [List.countP_filter, List.countP_filter] at hsplit
  have hcomm : (fun a => p a && q a) = fun a => q a && p a := funext fun a => Bool.and_comm _ _
  rw [hcomm] at hsplit
  have hzero : l.countP (fun a => p a && !q a) = 0 ↔ ∀ a ∈ l, q a = false → p a = false := by
    rw [List.countP_eq_zero]
    refine forall₂_congr fun a _ => ?_
    cases p a <;> cases q a <;> decide
  rw [← hzero]
  omega

/-- The scan compares the core and the time of a way with those of the line. -/
def Cache.laterWay (c : Cache δ) (set : Addr) (procId way ii : ℕ) : Bool :=
  (c.entries set ii).procId == procId && decide ((c.entries set way).lastAccessTime < (c.entries set ii).lastAccessTime)

theorem Cache.findPosInLruStack_hit (hlookup : c.lookup geo addr = some way)
    (hproc : (c.entries (geo.set addr) way).procId = procId) :
    c.findPosInLruStack geo procId addr = .ok (geo.ways.countP (c.laterWay (geo.set addr) procId way)) := by
  unfold Cache.findPosInLruStack
  simp only [hlookup, hproc]
  rw [if_neg (not_not_intro rfl)]
  refine congrArg (fun n : ℕ => Except.ok (n : ℤ)) (List.countP_congr fun ii _ => ?_)
  unfold Cache.laterWay
  rw [Bool.beq_comm]

/-- The scan counts the valid ways only exactly if no way is stale. -/
theorem Cache.countP_laterWay_iff (hlookup : c.lookup geo addr = some way) :
    geo.ways.countP (c.laterWay (geo.set addr) procId way) =
        geo.ways.countP (fun ii => (c.entries (geo.set addr) ii).valid && c.laterWay (geo.set addr) procId way ii) ↔
      c.NoneStale geo procId addr := by
  rw [countP_eq_and_iff]
  unfold Cache.NoneStale Cache.laterWay
  constructor
  · intro hall way' hlookup' ii hii hvalid hproc
    obtain rfl : way = way' := Option.some.inj (hlookup.symm.trans hlookup')
    have hnot := hall ii (Geometry.mem_ways.mpr hii) hvalid
    rw [hproc] at hnot
    simpa using hnot
  · intro hnone ii hii hvalid
    by_cases hproc : (c.entries (geo.set addr) ii).procId = procId
    · have hle := hnone way hlookup ii (Geometry.mem_ways.mp hii) hvalid hproc
      simp [hle]
    · simp [hproc]

/-! ## Access times are times of use -/

/-- A set holds a line once, and a valid way has the address of its line and the time of its last use. -/
structure CacheUses.Inv (cfg : CacheConfig) (s : CacheUses δ) : Prop where
  unique : s.life.cache.Unique cfg.geo
  base : ∀ set, ∀ way < cfg.assoc, (s.life.cache.entries set way).valid = true →
    cfg.geo.set (s.life.cache.entries set way).base = set ∧
      cfg.geo.tag (s.life.cache.entries set way).base = (s.life.cache.entries set way).tag ∧
      cfg.geo.lineAddr (s.life.cache.entries set way).base = (s.life.cache.entries set way).base
  time : ∀ set, ∀ way < cfg.assoc, (s.life.cache.entries set way).valid = true →
    (s.life.cache.entries set way).lastAccessTime = s.lastUse (s.life.cache.entries set way).base

/-- A valid way with the address of a line holds the line. -/
theorem CacheUses.Inv.base_eq_iff (h : s.Inv cfg) (hway : way < cfg.assoc)
    (hvalid : (s.life.cache.entries set way).valid = true) :
    (s.life.cache.entries set way).base = cfg.geo.lineAddr addr ↔
      set = cfg.geo.set addr ∧ s.life.cache.Holds cfg.geo addr way := by
  obtain ⟨hset, htag, hline⟩ := h.base set way hway hvalid
  rw [← hline, ← Geometry.sameLine_iff]
  unfold Geometry.SameLine Cache.Holds
  rw [hset, htag]
  constructor
  · rintro ⟨rfl, htag⟩
    exact ⟨rfl, hvalid, htag⟩
  · rintro ⟨rfl, -, htag⟩
    exact ⟨rfl, htag⟩

theorem CacheUses.init_inv (memory : Addr → ℕ → CacheEntry δ) (ways : CoreWays) (rands : ℕ → ℕ) :
    (CacheUses.init memory ways rands).Inv cfg :=
  ⟨fun _ _ _ _ _ hvalid => (nomatch hvalid), fun _ _ _ hvalid => (nomatch hvalid), fun _ _ _ hvalid => (nomatch hvalid)⟩

/-- One way gets the line of an address, used now. -/
structure Cache.Uses (geo : Geometry) (c : Cache δ) (addr : Addr) (way simTime : ℕ) (d : Cache δ) : Prop where
  inserts : c.Inserts geo addr way d
  time : (d.entries (geo.set addr) way).lastAccessTime = simTime

/-- A use keeps the invariant, if no other way holds the line. -/
theorem CacheUses.Inv.use (h : s.Inv cfg) {life : CacheLife δ} (huses : s.life.cache.Uses cfg.geo addr way simTime life.cache)
    (hothers : ∀ way' < cfg.assoc, way' ≠ way → ¬ s.life.cache.Holds cfg.geo addr way') :
    CacheUses.Inv cfg ⟨life, Function.update s.lastUse (cfg.geo.lineAddr addr) simTime⟩ := by
  refine ⟨huses.inserts.unique_of_others hothers h.unique, fun set' way' hway' hvalid => ?_, fun set' way' hway' hvalid => ?_⟩
  · dsimp only at hvalid ⊢
    by_cases hsame : set' = cfg.geo.set addr ∧ way' = way
    · obtain ⟨rfl, rfl⟩ := hsame
      have hline := @Geometry.sameLine_lineAddr cfg.geo addr
      rw [huses.inserts.base, huses.inserts.holds.2]
      exact ⟨hline.1, hline.2, Geometry.sameLine_iff.mp hline⟩
    · rw [huses.inserts.others _ _ hsame] at hvalid ⊢
      exact h.base set' way' hway' hvalid
  · dsimp only at hvalid ⊢
    by_cases hsame : set' = cfg.geo.set addr ∧ way' = way
    · obtain ⟨rfl, rfl⟩ := hsame
      rw [huses.time, huses.inserts.base, Function.update_self]
    · rw [huses.inserts.others _ _ hsame] at hvalid ⊢
      have hother : (s.life.cache.entries set' way').base ≠ cfg.geo.lineAddr addr := by
        intro hbase
        obtain ⟨hset, hholds⟩ := (h.base_eq_iff hway' hvalid).mp hbase
        exact hothers way' hway' (fun hway => hsame ⟨hset, hway⟩) hholds
      rw [Function.update_of_ne hother]
      exact h.time set' way' hway' hvalid

theorem Cache.access_uses (hpolicy : geo.replPolicy = .trueLru) (hlookup : c.lookup geo addr = some way)
    (hbase : (c.entries (geo.set addr) way).base = geo.lineAddr addr) :
    c.Uses geo addr way simTime (c.access geo simTime addr true).2 := by
  obtain ⟨-, hvalid, htag⟩ := Cache.holds_of_lookup hlookup
  unfold Cache.access Cache.updateReplPolicy
  rw [hlookup, hpolicy]
  dsimp only
  rw [if_pos rfl, Cache.setEntry_self]
  refine ⟨⟨?_, ?_, fun set' way' hother => ?_⟩, ?_⟩
  · unfold Cache.Holds
    rw [Cache.setEntry_self]
    exact ⟨hvalid, htag⟩
  · rw [Cache.setEntry_self]
    exact hbase
  · rw [Cache.setEntry_other hother, Cache.setEntry_other hother]
  · rw [Cache.setEntry_self]

theorem Cache.insertWay_uses (hpolicy : geo.replPolicy = .trueLru) (isPrefetch : Bool) :
    c.Uses geo addr way simTime (c.insertWay geo simTime procId addr way .default isPrefetch) := by
  unfold Cache.insertWay Cache.updateReplPolicy
  rw [hpolicy]
  dsimp only
  rw [Cache.setEntry_self]
  refine ⟨⟨?_, ?_, fun set' way' hother => ?_⟩, ?_⟩
  · unfold Cache.Holds
    rw [Cache.setEntry_self]
    exact ⟨rfl, rfl⟩
  · rw [Cache.setEntry_self]
  · rw [Cache.setEntry_other hother, Cache.setEntry_other hother]
  · rw [Cache.setEntry_self]

/-- An insertion is into a way that the policy finds, after a miss. -/
theorem CacheLife.step_insert_way {a b : CacheLife δ} (h : a.step cfg (.insert simTime procId addr) = .ok b) :
    a.cache.lookup cfg.geo addr = none ∧
      ∃ way, b.cache = a.cache.insertWay cfg.geo simTime procId addr way .default false := by
  unfold CacheLife.step CacheLife.insertWith at h
  dsimp only at h
  split at h
  · cases h
  · rename_i hmiss
    split at h
    · cases h
    · split at h
      · cases h
      · obtain ⟨⟨way, ways⟩, -, h⟩ := Execution.bind_eq_ok.mp h
        cases h
        exact ⟨by simpa using hmiss, way, rfl⟩

theorem CacheUses.Inv.step (h : s.Inv cfg) (hpolicy : cfg.policy.update = .trueLru) {call : UseCall}
    (hstep : s.step cfg call = .ok t) : t.Inv cfg := by
  cases call with
  | access simTime addr updateRepl =>
      obtain ⟨life, hlife, hstep⟩ := Execution.bind_eq_ok.mp hstep
      cases hstep
      unfold CacheLife.step at hlife
      dsimp only at hlife
      split at hlife
      · cases hlife
      · cases hlife
        cases updateRepl with
        | false =>
            have hsame : (s.life.cache.access cfg.geo simTime addr false).2 = s.life.cache := by
              unfold Cache.access
              cases s.life.cache.lookup cfg.geo addr <;> rfl
            rw [hsame]
            exact ⟨h.unique, h.base, h.time⟩
        | true =>
            cases hlookup : s.life.cache.lookup cfg.geo addr with
            | none =>
                rw [Cache.access_miss hlookup]
                exact ⟨h.unique, h.base, h.time⟩
            | some way =>
                obtain ⟨hway, hholds⟩ := Cache.holds_of_lookup hlookup
                have hbase := (h.base_eq_iff hway hholds.1).mpr ⟨rfl, hholds⟩
                refine h.use (Cache.access_uses hpolicy hlookup hbase) fun way' hway' hne hholds' => ?_
                exact hne (h.unique _ _ _ hway' hway hholds'.1 hholds.1 (hholds'.2.trans hholds.2.symm))
  | insert simTime procId addr =>
      obtain ⟨life, hlife, hstep⟩ := Execution.bind_eq_ok.mp hstep
      cases hstep
      obtain ⟨hmiss, way, hcache⟩ := CacheLife.step_insert_way hlife
      have huses := @Cache.insertWay_uses _ cfg.geo s.life.cache addr way simTime procId hpolicy false
      rw [← hcache] at huses
      exact h.use huses fun way' hway' _ => Cache.lookup_eq_none_iff.mp hmiss way' hway'
  | invalidate addr =>
      obtain ⟨life, hlife, hstep⟩ := Execution.bind_eq_ok.mp hstep
      cases hstep
      cases hlife
      refine ⟨h.unique.invalidate, fun set way hway hvalid => ?_, fun set way hway hvalid => ?_⟩
      · obtain ⟨hvalid, hnot⟩ := Cache.invalidate_valid_iff.mp hvalid
        dsimp only
        rw [Cache.invalidate_other hnot]
        exact h.base set way hway hvalid
      · obtain ⟨hvalid, hnot⟩ := Cache.invalidate_valid_iff.mp hvalid
        dsimp only
        rw [Cache.invalidate_other hnot]
        exact h.time set way hway hvalid

/-! ## The position -/

/-- The valid ways that the scan counts hold the lines that were used later. -/
theorem CacheUses.Inv.usedLater_eq (h : s.Inv cfg) (hlookup : s.life.cache.lookup cfg.geo addr = some way) :
    s.usedLater cfg procId addr = cfg.geo.ways.countP fun ii =>
      (s.life.cache.entries (cfg.geo.set addr) ii).valid && s.life.cache.laterWay (cfg.geo.set addr) procId way ii := by
  obtain ⟨hway, hholds⟩ := Cache.holds_of_lookup hlookup
  have hbase := (h.base_eq_iff hway hholds.1).mpr ⟨rfl, hholds⟩
  unfold CacheUses.usedLater Cache.laterWay
  refine List.countP_congr fun ii hii => ?_
  dsimp only
  cases hvalid : (s.life.cache.entries (cfg.geo.set addr) ii).valid with
  | false => simp
  | true =>
      rw [← hbase, ← h.time _ way hway hholds.1, ← h.time _ ii (Geometry.mem_ways.mp hii) hvalid]
      simp

theorem CacheUses.Inv.isPosition_iff (h : s.Inv cfg)
    (hproc : ∀ way, s.life.cache.lookup cfg.geo addr = some way →
      (s.life.cache.entries (cfg.geo.set addr) way).procId = procId) :
    (∃ position, s.life.cache.findPosInLruStack cfg.geo procId addr = .ok position ∧
        s.IsPosition cfg procId addr position) ↔
      s.life.cache.NoneStale cfg.geo procId addr := by
  cases hlookup : s.life.cache.lookup cfg.geo addr with
  | none =>
      have habsent := Cache.lookup_eq_none_iff.mp hlookup
      refine iff_of_true ⟨-1, ?_, iff_of_true rfl habsent, fun hpresent => (hpresent habsent).elim⟩ fun way hway => ?_
      · unfold Cache.findPosInLruStack
        rw [hlookup]
      · rw [hlookup] at hway
        cases hway
  | some way =>
      have hpresent : ¬ s.life.cache.Absent cfg.geo addr := by
        rw [← Cache.lookup_eq_none_iff, hlookup]
        exact nofun
      rw [← Cache.countP_laterWay_iff hlookup, Cache.findPosInLruStack_hit hlookup (hproc way hlookup),
        ← h.usedLater_eq hlookup]
      constructor
      · rintro ⟨position, hposition, hright⟩
        cases hposition
        exact Int.ofNat_inj.mp (hright.hit hpresent)
      · intro hcount
        exact ⟨_, rfl, iff_of_false (by omega) hpresent, fun _ => congrArg Nat.cast hcount⟩

/-- In every state that accesses, insertions and invalidations lead to, the position of a line is
right exactly if no invalid way is stale. -/
theorem findPosInLruStack_isPosition_iff (cfg : CacheConfig) (hpolicy : cfg.policy.update = .trueLru)
    (memory : Addr → ℕ → CacheEntry δ) (ways : CoreWays) (rands : ℕ → ℕ) (calls : List UseCall) (s : CacheUses δ)
    (hrun : Execution.run (CacheUses.step cfg) (CacheUses.init memory ways rands) calls = .ok s) (procId : ℕ) (addr : Addr)
    (hproc : ∀ way, s.life.cache.lookup cfg.geo addr = some way →
      (s.life.cache.entries (cfg.geo.set addr) way).procId = procId) :
    (∃ position, s.life.cache.findPosInLruStack cfg.geo procId addr = .ok position ∧
        s.IsPosition cfg procId addr position) ↔
      s.life.cache.NoneStale cfg.geo procId addr := by
  have hinv : s.Inv cfg := Execution.run_invariant (fun _ _ _ hs hstep => hs.step hpolicy hstep)
    (CacheUses.init_inv memory ways rands) hrun
  exact hinv.isPosition_iff hproc

/-- Two lines of a core, of which the older one is at the position 1. -/
theorem findPosInLruStack_isPosition_iff_two :
    ∃ s : CacheUses ℕ, Execution.run (CacheUses.step ⟨2, 0, 6, 1, .own .trueLru⟩)
        (CacheUses.init (fun _ way => ⟨0, true, 0, 0, 7, false, way⟩)
          ⟨fun _ => 0, fun _ => 0, fun _ => 0, fun _ => 0⟩ fun _ => 0)
        [.insert 1 0 0x40, .insert 2 0 0x80] = .ok s ∧
      ∃ position, s.life.cache.findPosInLruStack ⟨2, 0, 6, .trueLru⟩ 0 0x40 = .ok position ∧
        s.IsPosition ⟨2, 0, 6, 1, .own .trueLru⟩ 0 0x40 position := by
  obtain ⟨s, hrun, hobs⟩ := Execution.map_eq_ok.mp (show
    (fun s : CacheUses ℕ => ((s.life.cache.entries 0 0).valid, (s.life.cache.entries 0 1).valid,
        s.life.cache.lookup ⟨2, 0, 6, .trueLru⟩ 0x40, (s.life.cache.entries 0 0).procId)) <$>
      Execution.run (CacheUses.step ⟨2, 0, 6, 1, .own .trueLru⟩)
        (CacheUses.init (fun _ way => ⟨0, true, 0, 0, 7, false, way⟩)
          ⟨fun _ => 0, fun _ => 0, fun _ => 0, fun _ => 0⟩ fun _ => 0)
        [.insert 1 0 0x40, .insert 2 0 0x80] = .ok (true, true, some 0, 0) by decide +kernel)
  simp only [Prod.mk.injEq] at hobs
  obtain ⟨hfirst, hsecond, hlookup, hproc⟩ := hobs
  have hiff := findPosInLruStack_isPosition_iff ⟨2, 0, 6, 1, .own .trueLru⟩ rfl _ _ _ _ s hrun 0 0x40 (by
    intro way hway
    obtain rfl : 0 = way := Option.some.inj (hlookup.symm.trans hway)
    exact hproc)
  refine ⟨s, hrun, hiff.mpr fun way _ ii hii hinvalid => ?_⟩
  have hset : (CacheConfig.geo ⟨2, 0, 6, 1, .own .trueLru⟩).set 0x40 = 0 := by decide
  rw [hset] at hinvalid
  have hii : ii < 2 := hii
  obtain rfl | rfl : ii = 0 ∨ ii = 1 := by omega
  · exact nomatch hfirst.symm.trans hinvalid
  · exact nomatch hsecond.symm.trans hinvalid

/-- The line that was used last is at the position 1, since the other one, which was used after it,
is invalidated. -/
theorem findPosInLruStack_stale :
    ∃ s : CacheUses ℕ, Execution.run (CacheUses.step ⟨2, 0, 6, 1, .own .trueLru⟩)
        (CacheUses.init (fun _ way => ⟨0, true, 0, 0, 0, false, way⟩)
          ⟨fun _ => 0, fun _ => 0, fun _ => 0, fun _ => 0⟩ fun _ => 0)
        [.insert 1 0 0x40, .insert 2 0 0x80, .invalidate 0x80] = .ok s ∧
      s.life.cache.findPosInLruStack ⟨2, 0, 6, .trueLru⟩ 0 0x40 = .ok 1 ∧
      ¬ s.IsPosition ⟨2, 0, 6, 1, .own .trueLru⟩ 0 0x40 1 := by
  obtain ⟨s, hrun, hobs⟩ := Execution.map_eq_ok.mp (show
    (fun s : CacheUses ℕ => (s.life.cache.findPosInLruStack ⟨2, 0, 6, .trueLru⟩ 0 0x40,
        s.usedLater ⟨2, 0, 6, 1, .own .trueLru⟩ 0 0x40, s.life.cache.lookup ⟨2, 0, 6, .trueLru⟩ 0x40)) <$>
      Execution.run (CacheUses.step ⟨2, 0, 6, 1, .own .trueLru⟩)
        (CacheUses.init (fun _ way => ⟨0, true, 0, 0, 0, false, way⟩)
          ⟨fun _ => 0, fun _ => 0, fun _ => 0, fun _ => 0⟩ fun _ => 0)
        [.insert 1 0 0x40, .insert 2 0 0x80, .invalidate 0x80] = .ok (.ok 1, 0, some 0) by decide +kernel)
  simp only [Prod.mk.injEq] at hobs
  obtain ⟨hfind, hcount, hlookup⟩ := hobs
  refine ⟨s, hrun, hfind, fun hright => ?_⟩
  have hpresent : ¬ s.life.cache.Absent (CacheConfig.geo ⟨2, 0, 6, 1, .own .trueLru⟩) 0x40 := by
    intro habsent
    have hnone := Cache.lookup_eq_none_iff.mpr habsent
    exact nomatch hlookup.symm.trans hnone
  have hposition := hright.hit hpresent
  rw [hcount] at hposition
  exact absurd hposition (by decide)

/-! ## The stack of a set -/

/-- Where the ways stand in their order, the position is the number of ways of the core before the
line, exactly if no invalid way is stale. -/
theorem Cache.Ordered.findPosInLruStack_iff (h : c.Ordered geo (geo.set addr) (before ++ way :: after))
    (hlookup : c.lookup geo addr = some way) (hproc : (c.entries (geo.set addr) way).procId = procId) :
    c.findPosInLruStack geo procId addr =
        .ok (before.countP fun ii => (c.entries (geo.set addr) ii).procId == procId) ↔
      c.NoneStale geo procId addr := by
  have hvalid : geo.ways.countP (fun ii => (c.entries (geo.set addr) ii).valid && c.laterWay (geo.set addr) procId way ii) =
      before.countP fun ii => (c.entries (geo.set addr) ii).procId == procId := by
    have hperm : (geo.ways.filter fun ii => (c.entries (geo.set addr) ii).valid).Perm (before ++ way :: after) := by
      have hnodup : (geo.ways.filter fun ii => (c.entries (geo.set addr) ii).valid).Nodup := List.nodup_range.filter _
      rw [List.perm_ext_iff_of_nodup hnodup h.nodup]
      intro ii
      rw [List.mem_filter, Geometry.mem_ways, h.mem]
    have hcomm : (fun ii => (c.entries (geo.set addr) ii).valid && c.laterWay (geo.set addr) procId way ii) =
        fun ii => c.laterWay (geo.set addr) procId way ii && (c.entries (geo.set addr) ii).valid :=
      funext fun ii => Bool.and_comm _ _
    obtain ⟨-, hafter, hbefore⟩ := List.pairwise_append.mp h.sorted
    rw [hcomm, ← List.countP_filter, hperm.countP_eq, List.countP_append, List.countP_cons]
    unfold Cache.laterWay
    have hnone : after.countP (fun ii => (c.entries (geo.set addr) ii).procId == procId &&
        decide ((c.entries (geo.set addr) way).lastAccessTime < (c.entries (geo.set addr) ii).lastAccessTime)) = 0 := by
      rw [List.countP_eq_zero]
      intro ii hii
      have hlt := (List.pairwise_cons.mp hafter).1 ii hii
      simp [Nat.not_lt.mpr hlt.le]
    rw [hnone]
    simp only [Nat.lt_irrefl, decide_false, Bool.and_false, Bool.false_eq_true, if_false, Nat.add_zero]
    refine List.countP_congr fun ii hii => ?_
    have hlt := hbefore ii hii way List.mem_cons_self
    simp [hlt]
  rw [← Cache.countP_laterWay_iff hlookup, hvalid, Cache.findPosInLruStack_hit hlookup hproc]
  constructor
  · intro heq
    exact Int.ofNat_inj.mp (Except.ok.inj heq)
  · intro heq
    rw [heq]

end Scarab.Memory
