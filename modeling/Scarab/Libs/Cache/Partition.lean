import Scarab.Lib.Execution
import Scarab.Lib.Shares
import Scarab.Memory.Lines

/-! # Partitioned replacement

`REPL_PARTITION` of `libs/cache_lib.c`: the ways of a set are shared out among the cores, and the
victim comes from a core that holds more of them than it was given. -/

namespace Scarab.Memory

variable {δ : Type}

/-- What `Cache` keeps for each core. -/
structure CoreWays where
  numWaysAlloctedCore : ℕ → ℕ
  numWaysOccupiedCore : ℕ → ℕ
  lruIndexCore : ℕ → ℕ
  lruTimeCore : ℕ → ℕ

/-! ## The victim -/

/-- The counters at the start of a search. -/
def CoreWays.reset (w : CoreWays) (cores : ℕ) : CoreWays :=
  { w with
    numWaysOccupiedCore := fun p => if p < cores then 0 else w.numWaysOccupiedCore p
    lruTimeCore := fun p => if p < cores then maxCtr else w.lruTimeCore p }

/-- A valid line is counted for its core. -/
def CoreWays.count (w : CoreWays) (way : ℕ) (entry : CacheEntry δ) : CoreWays :=
  let w := { w with
    numWaysOccupiedCore := Function.update w.numWaysOccupiedCore entry.procId (w.numWaysOccupiedCore entry.procId + 1) }
  if entry.lastAccessTime < w.lruTimeCore entry.procId then
    { w with
      lruIndexCore := Function.update w.lruIndexCore entry.procId way
      lruTimeCore := Function.update w.lruTimeCore entry.procId entry.lastAccessTime }
  else w

/-- The loop over the ways, which an invalid way ends. -/
def Cache.countWays (c : Cache δ) (set : Addr) : List ℕ → CoreWays → Option ℕ × CoreWays
  | [], w => (none, w)
  | way :: ways, w =>
      if (c.entries set way).valid then c.countWays set ways (w.count way (c.entries set way)) else (some way, w)

/-- `max_extra_occ` and `repl_proc_id`, which is -1 as long as no core has too many ways. -/
def CoreWays.mostExtra (w : CoreWays) : List ℕ → ℕ → Option ℕ → ℕ × Option ℕ
  | [], maxExtraOcc, replProcId => (maxExtraOcc, replProcId)
  | p :: procs, maxExtraOcc, replProcId =>
      if w.numWaysAlloctedCore p < w.numWaysOccupiedCore p ∧
          maxExtraOcc < w.numWaysOccupiedCore p - w.numWaysAlloctedCore p then
        w.mostExtra procs (w.numWaysOccupiedCore p - w.numWaysAlloctedCore p) (some p)
      else w.mostExtra procs maxExtraOcc replProcId

/-- The rotation that breaks ties, in `uns`. -/
def rotated (cores : ℕ) (set : Addr) (procId : ℕ) : ℕ := (procId + set.toNat) % 2 ^ 32 % cores

/-- The choice between the core with the most extra ways and the one that asks. -/
def CoreWays.choose (w : CoreWays) (cores procId : ℕ) (set : Addr) : Except String ℕ :=
  let (maxExtraOcc, replProcId) := w.mostExtra (List.range cores) 0 none
  let procIdExtraOcc : ℤ := w.numWaysOccupiedCore procId - w.numWaysAlloctedCore procId
  if w.numWaysAlloctedCore procId > w.numWaysOccupiedCore procId ∨ maxExtraOcc > procIdExtraOcc + 1 ∨
      (maxExtraOcc > procIdExtraOcc ∧
        rotated cores set procId > (replProcId.elim ((set.toNat + 2 ^ 32 - 1) % 2 ^ 32 % cores) (rotated cores set))) then
    match replProcId with
    | none => .error "repl_proc_id >= 0"
    | some replProcId => .ok (w.lruIndexCore replProcId)
  else .ok (w.lruIndexCore procId)

/-- `find_repl_entry` for `REPL_PARTITION`. -/
def Cache.findPartitionEntry (geo : Geometry) (cores : ℕ) (c : Cache δ) (w : CoreWays) (procId : ℕ) (set : Addr) :
    Except String (ℕ × CoreWays) :=
  if (List.range cores).any fun p => w.numWaysAlloctedCore p == 0 then
    .error "cache->num_ways_allocted_core[way_proc_id]"
  else if ((List.range cores).map w.numWaysAlloctedCore).sum > geo.assoc then
    .error "total_assigned_ways <= cache->assoc"
  else
    match c.countWays set geo.ways (w.reset cores) with
    | (some way, w) => .ok (way, w)
    | (none, w) => do return (← w.choose cores procId set, w)

/-- `cache_insert_replpos` from the choice of the way on. -/
def Cache.insertWay (geo : Geometry) (c : Cache δ) (simTime procId : ℕ) (addr : Addr) (way : ℕ)
    (insertReplPolicy : InsertRepl) (isPrefetch : Bool) : Cache δ :=
  let set := geo.set addr
  let line : CacheEntry δ :=
    { procId
      valid := true
      tag := geo.tag addr
      base := geo.lineAddr addr
      lastAccessTime := simTime
      pref := isPrefetch
      data := (c.entries set way).data }
  let c := c.setEntry set way line
  match insertReplPolicy with
  | .default => c.updateReplPolicy geo simTime set way
  | .lru => c.setEntry set way { line with lastAccessTime := 123 }
  | .mru => c
  | .mid => c.setEntry set way { line with lastAccessTime := c.accessTimeAt geo simTime set (geo.assoc / 2) }
  | .lowqtr => c.setEntry set way { line with lastAccessTime := c.accessTimeAt geo simTime set (geo.assoc / 4) }

/-! ## Shares of a set -/

/-- The core of a way. -/
def Cache.owner (c : Cache δ) (set : Addr) (way : ℕ) : ℕ := (c.entries set way).procId

/-- How many ways of a set a core has. -/
def Cache.occupancy (geo : Geometry) (c : Cache δ) (set : Addr) (p : ℕ) : ℕ :=
  Shares.count (Finset.range geo.assoc) (c.owner set) p

/-- How far the ways that the cores have are from those they were given. -/
def Cache.unfairness (geo : Geometry) (cores : ℕ) (c : Cache δ) (w : CoreWays) (set : Addr) : ℕ :=
  Shares.imbalance (Finset.range cores) (c.occupancy geo set) w.numWaysAlloctedCore

/-- A set without an invalid way, its lines owned by the cores and touched at times that the counter has. -/
structure Cache.Full (geo : Geometry) (cores : ℕ) (c : Cache δ) (set : Addr) : Prop where
  valid : ∀ way < geo.assoc, (c.entries set way).valid = true
  owner : ∀ way < geo.assoc, c.owner set way < cores
  time : ∀ way < geo.assoc, (c.entries set way).lastAccessTime < maxCtr

/-- What `set_partition` promises: every core has a way, and together they fit. -/
structure CoreWays.Fits (w : CoreWays) (cores assoc : ℕ) : Prop where
  pos : ∀ p < cores, 1 ≤ w.numWaysAlloctedCore p
  total : ∑ p ∈ Finset.range cores, w.numWaysAlloctedCore p ≤ assoc

/-- A line of a core that no other line of this core is older than. -/
structure Cache.LruOf (geo : Geometry) (c : Cache δ) (set : Addr) (p way : ℕ) : Prop where
  lt : way < geo.assoc
  owner : c.owner set way = p
  oldest : ∀ way' < geo.assoc, c.owner set way' = p →
    (c.entries set way).lastAccessTime ≤ (c.entries set way').lastAccessTime

variable {geo : Geometry} {cores procId : ℕ} {c : Cache δ} {w w' : CoreWays} {set : Addr} {way : ℕ} {ways : List ℕ}

/-! ## Counting the ways -/

/-- What the loop over some ways adds to the counters. -/
structure CoreWays.Counted (c : Cache δ) (set : Addr) (ways : List ℕ) (w w' : CoreWays) : Prop where
  allocated : w'.numWaysAlloctedCore = w.numWaysAlloctedCore
  occupied : ∀ p, w'.numWaysOccupiedCore p =
    w.numWaysOccupiedCore p + (ways.map fun way => if c.owner set way = p then 1 else 0).sum
  le_start : ∀ p, w'.lruTimeCore p ≤ w.lruTimeCore p
  le_line : ∀ way ∈ ways, w'.lruTimeCore (c.owner set way) ≤ (c.entries set way).lastAccessTime
  index : ∀ p, w'.lruTimeCore p < w.lruTimeCore p → w'.lruIndexCore p ∈ ways ∧ c.owner set (w'.lruIndexCore p) = p ∧
    (c.entries set (w'.lruIndexCore p)).lastAccessTime = w'.lruTimeCore p
  kept : ∀ p, w'.lruTimeCore p = w.lruTimeCore p → w'.lruIndexCore p = w.lruIndexCore p

theorem CoreWays.counted_nil : w.Counted c set [] w := ⟨rfl, by simp, by simp, by simp, by simp, by simp⟩

theorem CoreWays.count_counted : w.Counted c set [way] (w.count way (c.entries set way)) := by
  have hocc (p : ℕ) : Function.update w.numWaysOccupiedCore (c.owner set way)
      (w.numWaysOccupiedCore (c.owner set way) + 1) p =
        w.numWaysOccupiedCore p + ([way].map fun way => if c.owner set way = p then 1 else 0).sum := by
    by_cases hp : p = c.owner set way
    · simp [hp]
    · simp [hp, Ne.symm hp]
  unfold CoreWays.count
  dsimp only
  by_cases hlt : (c.entries set way).lastAccessTime < w.lruTimeCore (c.entries set way).procId
  · rw [if_pos hlt]
    refine ⟨rfl, hocc, ?_, ?_, ?_, ?_⟩
    · intro p
      by_cases hp : p = c.owner set way
      · subst hp
        simpa [Cache.owner] using Nat.le_of_lt hlt
      · simp [Function.update_of_ne (show p ≠ (c.entries set way).procId from hp)]
    · simp [Cache.owner]
    · intro p h
      by_cases hp : p = (c.entries set way).procId
      · subst hp
        simp [Cache.owner]
      · simp [Function.update_of_ne hp] at h
    · intro p h
      by_cases hp : p = (c.entries set way).procId
      · subst hp
        simp only [Function.update_self] at h
        omega
      · simp [Function.update_of_ne hp]
  · rw [if_neg hlt]
    refine ⟨rfl, hocc, by simp, ?_, by simp, by simp⟩
    intro way' hway'
    rw [List.mem_singleton.mp hway']
    exact Nat.le_of_not_lt hlt

theorem CoreWays.Counted.cons {m : CoreWays} (h : w.Counted c set [way] m) (h' : m.Counted c set ways w') :
    w.Counted c set (way :: ways) w' := by
  refine ⟨h'.allocated.trans h.allocated, ?_, fun p => (h'.le_start p).trans (h.le_start p), ?_, ?_, ?_⟩
  · intro p
    rw [h'.occupied, h.occupied]
    simp only [List.map_cons, List.map_nil, List.sum_cons, List.sum_nil]
    omega
  · intro way' hway'
    rcases List.mem_cons.mp hway' with rfl | hway'
    · exact (h'.le_start _).trans (h.le_line _ (by simp))
    · exact h'.le_line _ hway'
  · intro p hlt
    by_cases hlater : w'.lruTimeCore p < m.lruTimeCore p
    · obtain ⟨hmem, howner, htime⟩ := h'.index p hlater
      exact ⟨List.mem_cons_of_mem _ hmem, howner, htime⟩
    · have hsame : w'.lruTimeCore p = m.lruTimeCore p := Nat.le_antisymm (h'.le_start p) (Nat.le_of_not_lt hlater)
      rw [h'.kept p hsame, hsame]
      obtain ⟨hmem, howner, htime⟩ := h.index p (hsame ▸ hlt)
      exact ⟨by simp [List.mem_singleton.mp hmem], howner, htime⟩
  · intro p hsame
    have hm : m.lruTimeCore p = w.lruTimeCore p :=
      Nat.le_antisymm (h.le_start p) (hsame ▸ h'.le_start p)
    rw [h'.kept p (hsame.trans hm.symm), h.kept p hm]

/-- Over valid ways the loop runs to its end. -/
theorem Cache.countWays_counted (hvalid : ∀ way ∈ ways, (c.entries set way).valid = true) :
    ∃ w', c.countWays set ways w = (none, w') ∧ w.Counted c set ways w' := by
  induction ways generalizing w with
  | nil => exact ⟨w, rfl, CoreWays.counted_nil⟩
  | cons way ways ih =>
      obtain ⟨w', hrun, hcounted⟩ : ∃ w', c.countWays set ways (w.count way (c.entries set way)) = (none, w') ∧
          (w.count way (c.entries set way)).Counted c set ways w' :=
        ih fun way' hway' => hvalid way' (List.mem_cons_of_mem _ hway')
      refine ⟨w', ?_, CoreWays.count_counted.cons hcounted⟩
      rw [Cache.countWays, if_pos (hvalid way (by simp)), hrun]

/-- The counters after the loop over a full set. -/
structure CoreWays.Measured (geo : Geometry) (cores : ℕ) (c : Cache δ) (set : Addr) (w w' : CoreWays) : Prop where
  allocated : w'.numWaysAlloctedCore = w.numWaysAlloctedCore
  occupied : ∀ p < cores, w'.numWaysOccupiedCore p = c.occupancy geo set p
  lru : ∀ p < cores, 0 < c.occupancy geo set p → c.LruOf geo set p (w'.lruIndexCore p)

theorem Cache.Full.measured (hfull : c.Full geo cores set) (w : CoreWays) :
    ∃ w', c.countWays set geo.ways (w.reset cores) = (none, w') ∧ w.Measured geo cores c set w' := by
  obtain ⟨w', hrun, hcounted⟩ : ∃ w', c.countWays set geo.ways (w.reset cores) = (none, w') ∧
      (w.reset cores).Counted c set geo.ways w' :=
    Cache.countWays_counted fun way hway => hfull.valid way (List.mem_range.mp hway)
  refine ⟨w', hrun, hcounted.allocated, ?_, ?_⟩
  · intro p hp
    rw [hcounted.occupied, CoreWays.reset]
    simp only [if_pos hp, Nat.zero_add]
    rfl
  · intro p hp hpos
    obtain ⟨way, hway, howner⟩ := Shares.count_pos hpos
    have hway := Finset.mem_range.mp hway
    have hreset : (w.reset cores).lruTimeCore p = maxCtr := if_pos hp
    have hlt : w'.lruTimeCore p < (w.reset cores).lruTimeCore p := by
      rw [hreset, ← howner]
      exact Nat.lt_of_le_of_lt (hcounted.le_line way (List.mem_range.mpr hway)) (hfull.time way hway)
    obtain ⟨hmem, howner', htime⟩ := hcounted.index p hlt
    refine ⟨List.mem_range.mp hmem, howner', ?_⟩
    intro way' hway' hsame
    rw [htime, ← hsame]
    exact hcounted.le_line way' (List.mem_range.mpr hway')

/-! ## The core that loses a line -/

/-- A core holds more ways than it was given. -/
def CoreWays.Above (w : CoreWays) (p : ℕ) : Prop := w.numWaysAlloctedCore p < w.numWaysOccupiedCore p

/-- The search for the core with the most extra ways finds a core that has some. -/
theorem CoreWays.mostExtra_spec (w : CoreWays) (procs : List ℕ) (most : ℕ) (repl : Option ℕ) (hrepl : ∀ p ∈ repl, w.Above p) :
    (∀ p ∈ (w.mostExtra procs most repl).2, (p ∈ procs ∨ p ∈ repl) ∧ w.Above p) ∧
    ((w.mostExtra procs most repl).2 = none → repl = none ∧ (w.mostExtra procs most repl).1 = most ∧
      ∀ p ∈ procs, w.numWaysOccupiedCore p - w.numWaysAlloctedCore p ≤ most) := by
  induction procs generalizing most repl with
  | nil => exact ⟨fun p hp => ⟨.inr hp, hrepl p hp⟩, fun hnone => ⟨hnone, rfl, by simp⟩⟩
  | cons q procs ih =>
      rw [CoreWays.mostExtra]
      by_cases hq : w.numWaysAlloctedCore q < w.numWaysOccupiedCore q ∧
          most < w.numWaysOccupiedCore q - w.numWaysAlloctedCore q
      · rw [if_pos hq]
        have hrepl' : ∀ p ∈ some q, w.Above p := by
          rintro p ⟨⟩
          exact hq.1
        obtain ⟨hsome, hnone⟩ := ih (w.numWaysOccupiedCore q - w.numWaysAlloctedCore q) (some q) hrepl'
        refine ⟨?_, fun h => nomatch (hnone h).1⟩
        intro p hp
        obtain ⟨hmem, habove⟩ := hsome p hp
        refine ⟨.inl ?_, habove⟩
        rcases hmem with hmem | hmem
        · exact List.mem_cons_of_mem _ hmem
        · obtain rfl : q = p := Option.mem_some_iff.mp hmem
          exact List.mem_cons_self
      · rw [if_neg hq]
        obtain ⟨hsome, hnone⟩ := ih most repl hrepl
        refine ⟨?_, ?_⟩
        · intro p hp
          obtain ⟨hmem, habove⟩ := hsome p hp
          exact ⟨hmem.imp (List.mem_cons_of_mem _) id, habove⟩
        · intro h
          obtain ⟨hfirst, hmost, hall⟩ := hnone h
          refine ⟨hfirst, hmost, ?_⟩
          intro p hp
          rcases List.mem_cons.mp hp with rfl | hp
          · omega
          · exact hall p hp

/-- The choice asserts nothing false when a core that asks with too few ways finds another with too many. -/
theorem CoreWays.choose_spec (set : Addr) (hprocId : procId < cores)
    (hbelow : w.numWaysOccupiedCore procId < w.numWaysAlloctedCore procId → ∃ p < cores, w.Above p) :
    ∃ p < cores, w.choose cores procId set = .ok (w.lruIndexCore p) ∧
      (w.Above p ∨ p = procId ∧ w.numWaysAlloctedCore procId ≤ w.numWaysOccupiedCore procId) := by
  obtain ⟨hsome, hnone⟩ := CoreWays.mostExtra_spec w (List.range cores) 0 none (by simp)
  unfold CoreWays.choose
  rcases hmost : w.mostExtra (List.range cores) 0 none with ⟨most, repl⟩
  rw [hmost] at hsome hnone
  dsimp only at hsome hnone ⊢
  cases repl with
  | some r =>
      obtain ⟨hmem, habove⟩ := hsome r rfl
      have hr : r < cores := List.mem_range.mp (hmem.resolve_right (by simp))
      split
      · exact ⟨r, hr, rfl, .inl habove⟩
      · rename_i hcond
        exact ⟨procId, hprocId, rfl, .inr ⟨rfl, Nat.le_of_not_lt fun h => hcond (.inl h)⟩⟩
  | none =>
      obtain ⟨-, rfl, hall⟩ := hnone rfl
      -- without a core above its share the one that asks has exactly its own
      have hnobody : ∀ p < cores, ¬ w.Above p := by
        intro p hp habove
        have hle := hall p (List.mem_range.mpr hp)
        unfold CoreWays.Above at habove
        omega
      have hle : w.numWaysAlloctedCore procId ≤ w.numWaysOccupiedCore procId := by
        by_contra hlt
        obtain ⟨p, hp, habove⟩ := hbelow (Nat.lt_of_not_le hlt)
        exact hnobody p hp habove
      rw [if_neg]
      · exact ⟨procId, hprocId, rfl, .inr ⟨rfl, hle⟩⟩
      · omega

/-! ## The law of the partition -/

theorem Cache.Full.sum_occupancy (hfull : c.Full geo cores set) :
    ∑ p ∈ Finset.range cores, c.occupancy geo set p = geo.assoc := by
  unfold Cache.occupancy
  rw [Shares.sum_count fun way hway => Finset.mem_range.mpr (hfull.owner way (Finset.mem_range.mp hway)),
    Finset.card_range]

theorem CoreWays.Fits.not_zero (hfits : w.Fits cores geo.assoc) :
    ¬ ((List.range cores).any fun p => w.numWaysAlloctedCore p == 0) = true := by
  simp only [List.any_eq_true, List.mem_range, beq_iff_eq, not_exists, not_and]
  intro p hp hzero
  have hpos := hfits.pos p hp
  omega

theorem CoreWays.Fits.sum_le (hfits : w.Fits cores geo.assoc) :
    ((List.range cores).map w.numWaysAlloctedCore).sum ≤ geo.assoc := hfits.total

/-- The victim in a full set: the least recently used line of a core above its share, or of the core that asks. -/
structure Cache.Victim (geo : Geometry) (c : Cache δ) (w : CoreWays) (set : Addr) (procId way : ℕ) : Prop where
  lru : c.LruOf geo set (c.owner set way) way
  loser : w.numWaysAlloctedCore (c.owner set way) < c.occupancy geo set (c.owner set way) ∨
    c.owner set way = procId ∧ w.numWaysAlloctedCore procId ≤ c.occupancy geo set procId

theorem Cache.Full.findPartitionEntry (hfull : c.Full geo cores set) (hfits : w.Fits cores geo.assoc)
    (hprocId : procId < cores) : ∃ way w', c.findPartitionEntry geo cores w procId set = .ok (way, w') ∧
      w'.numWaysAlloctedCore = w.numWaysAlloctedCore ∧ c.Victim geo w set procId way := by
  obtain ⟨w', hcount, hmeasured⟩ := hfull.measured w
  have habove (p : ℕ) (hp : p < cores) : w'.Above p ↔ w.numWaysAlloctedCore p < c.occupancy geo set p := by
    unfold CoreWays.Above
    rw [hmeasured.allocated, hmeasured.occupied p hp]
  have hbelow : w'.numWaysOccupiedCore procId < w'.numWaysAlloctedCore procId → ∃ p < cores, w'.Above p := by
    rw [hmeasured.allocated, hmeasured.occupied procId hprocId]
    intro hlt
    obtain ⟨p, hp, hgt⟩ := Shares.exists_above (hfits.total.trans (Nat.le_of_eq hfull.sum_occupancy.symm))
      (Finset.mem_range.mpr hprocId) hlt
    have hp := Finset.mem_range.mp hp
    exact ⟨p, hp, (habove p hp).mpr hgt⟩
  obtain ⟨p, hp, hchoose, hloser⟩ := CoreWays.choose_spec set hprocId hbelow
  rw [habove p hp, hmeasured.allocated, hmeasured.occupied procId hprocId] at hloser
  have hpos : 0 < c.occupancy geo set p := by
    rcases hloser with hgt | ⟨rfl, hle⟩
    · omega
    · exact Nat.lt_of_lt_of_le (hfits.pos p hp) hle
  have hlru := hmeasured.lru p hp hpos
  refine ⟨w'.lruIndexCore p, w', ?_, hmeasured.allocated, ?_, ?_⟩
  · unfold Cache.findPartitionEntry
    rw [if_neg hfits.not_zero, if_neg (Nat.not_lt.mpr hfits.sum_le), hcount]
    dsimp only
    rw [hchoose]
    rfl
  · rw [hlru.owner]
    exact hlru
  · rw [hlru.owner]
    exact hloser

/-! ## The line that goes in -/

variable {addr : Addr} {simTime : ℕ} {pos : InsertRepl} {isPrefetch : Bool}

/-- The line belongs to the core that inserts it. -/
theorem Cache.insertWay_owner :
    (c.insertWay geo simTime procId addr way pos isPrefetch).owner (geo.set addr) way = procId := by
  unfold Cache.insertWay Cache.updateReplPolicy Cache.owner
  dsimp only
  cases pos with
  | default =>
      cases geo.replPolicy with
      | trueLru => simp
      | random => simp
      | notMru =>
          dsimp only
          split
          · simp
          · simp
      | roundRobin => simp
      | lowPref => simp
  | lru => simp
  | lowqtr => simp
  | mid => simp
  | mru => simp

theorem Cache.insertWay_inserts : c.Inserts geo addr way (c.insertWay geo simTime procId addr way pos isPrefetch) := by
  have hnew (entry : CacheEntry δ) (hvalid : entry.valid = true) (htag : entry.tag = geo.tag addr)
      (hbase : entry.base = geo.lineAddr addr) : c.Inserts geo addr way (c.setEntry (geo.set addr) way entry) :=
    Cache.setEntry_inserts hvalid htag hbase
  unfold Cache.insertWay
  dsimp only
  cases pos with
  | default => exact (hnew _ rfl rfl rfl).updateReplPolicy
  | lru => exact (hnew _ rfl rfl rfl).setEntry rfl rfl rfl
  | lowqtr => exact (hnew _ rfl rfl rfl).setEntry rfl rfl rfl
  | mid => exact (hnew _ rfl rfl rfl).setEntry rfl rfl rfl
  | mru => exact hnew _ rfl rfl rfl

/-- One way of the set changes hands. -/
theorem Cache.insertWay_moves (hway : way < geo.assoc) :
    Shares.Moves (c.owner (geo.set addr) way) procId (c.occupancy geo (geo.set addr))
      ((c.insertWay geo simTime procId addr way pos isPrefetch).occupancy geo (geo.set addr)) := by
  have hothers (way' : ℕ) (hne : way' ≠ way) :
      (c.insertWay geo simTime procId addr way pos isPrefetch).owner (geo.set addr) way' = c.owner (geo.set addr) way' := by
    unfold Cache.owner
    rw [Cache.insertWay_inserts.others _ _ fun h => hne h.2]
  have hmoves := Shares.moves_count (Finset.mem_range.mpr hway) hothers
  rwa [Cache.insertWay_owner] at hmoves

/-- What a partition promises of a victim, for the cache `c` before and `c'` after the replacement. -/
structure Cache.Enforced (geo : Geometry) (cores : ℕ) (w : CoreWays) (set : Addr) (procId way : ℕ) (c c' : Cache δ) :
    Prop where
  /-- The victim is the least recently used line of its core, -/
  lru : c.LruOf geo set (c.owner set way) way
  /-- which is the one that asks or one that holds more lines than its allocation. -/
  loser : c.owner set way = procId ∨ w.numWaysAlloctedCore (c.owner set way) < c.occupancy geo set (c.owner set way)
  /-- Another core with no more than its allocation loses nothing. -/
  others : ∀ p, p ≠ procId → c.occupancy geo set p ≤ w.numWaysAlloctedCore p →
    c.owner set way ≠ p ∧ c'.occupancy geo set p = c.occupancy geo set p
  unfairness_le : c'.unfairness geo cores w set ≤ c.unfairness geo cores w set
  unfairness_two : c.occupancy geo set procId < w.numWaysAlloctedCore procId →
    c'.unfairness geo cores w set + 2 = c.unfairness geo cores w set

/-- In a full set the search of a partitioned cache asserts nothing false, and its victim keeps to the partition. -/
theorem findPartitionEntry_enforced (geo : Geometry) (cores : ℕ) (c : Cache δ) (w : CoreWays) (simTime procId : ℕ)
    (addr : Addr) (pos : InsertRepl) (isPrefetch : Bool) (hfull : c.Full geo cores (geo.set addr))
    (hfits : w.Fits cores geo.assoc) (hprocId : procId < cores) :
    ∃ way w', c.findPartitionEntry geo cores w procId (geo.set addr) = .ok (way, w') ∧
      Cache.Enforced geo cores w (geo.set addr) procId way c
        (c.insertWay geo simTime procId addr way pos isPrefetch) := by
  obtain ⟨way, w', hfind, -, hvictim⟩ := hfull.findPartitionEntry hfits hprocId
  have hmoves : Shares.Moves (c.owner (geo.set addr) way) procId _
      ((c.insertWay geo simTime procId addr way pos isPrefetch).occupancy geo (geo.set addr)) :=
    Cache.insertWay_moves hvictim.lru.lt
  have howner := Finset.mem_range.mpr (hfull.owner way hvictim.lru.lt)
  have hasks := Finset.mem_range.mpr hprocId
  refine ⟨way, w', hfind, hvictim.lru, hvictim.loser.symm.imp_left And.left, ?_, ?_, ?_⟩
  · intro p hne hle
    have hother : c.owner (geo.set addr) way ≠ p := by
      rintro rfl
      rcases hvictim.loser with habove | ⟨hsame, -⟩
      · omega
      · exact hne hsame
    have hp := hmoves p
    rw [if_neg hother, if_neg hne.symm] at hp
    exact ⟨hother, hp⟩
  · by_cases hsame : c.owner (geo.set addr) way = procId
    · unfold Cache.unfairness
      rw [hsame] at hmoves
      rw [hmoves.self]
    · exact hmoves.imbalance_le howner hasks hsame (hvictim.loser.resolve_right fun h => hsame h.1)
  · intro hbelow
    have habove := hvictim.loser.resolve_right fun h => Nat.not_le.mpr hbelow h.2
    have hne : c.owner (geo.set addr) way ≠ procId := by
      intro hsame
      rw [hsame] at habove
      omega
    exact hmoves.imbalance_two howner hasks hne habove hbelow

/-- Two cores, two ways: the one that holds both loses the older line to the other. -/
theorem findPartitionEntry_enforced_two :
    let geo : Geometry := ⟨2, 0, 6, .trueLru⟩
    let c : Cache Unit := ⟨fun _ way => ⟨0, true, BitVec.ofNat 64 way, 0, 9 - way, false, ()⟩, fun _ => 0, fun _ => 0⟩
    let w : CoreWays := ⟨fun _ => 1, fun _ => 0, fun _ => 0, fun _ => 0⟩
    ∃ way w', c.findPartitionEntry geo 2 w 1 (geo.set 0x80) = .ok (way, w') ∧
      Cache.Enforced geo 2 w (geo.set 0x80) 1 way c (c.insertWay geo 10 1 0x80 way .default false) :=
  findPartitionEntry_enforced _ 2 _ _ 10 1 _ _ _
    ⟨fun _ _ => rfl, fun _ _ => (by decide : 0 < 2), fun _ _ => by unfold maxCtr; dsimp only; omega⟩
    ⟨fun _ _ => Nat.le_refl _, by decide⟩ (by decide)

end Scarab.Memory
