import Mathlib.Algebra.Group.Nat.Even
import Mathlib.Algebra.Order.Ring.Nat
import Mathlib.Data.List.Perm.Subperm
import Mathlib.Data.Nat.Factorization.Basic
import Mathlib.Data.Nat.ModEq
import Scarab.Libs.Cache.Residency

/-! # The counters of the replacement policies

`REPL_NOT_MRU` and `REPL_ROUND_ROBIN` keep the next victim of a set in a counter, which `CIRC_INC2` moves. -/

namespace Scarab.Memory

open Execution

variable {δ : Type} {geo : Geometry} {cfg : CacheConfig} {c d : Cache δ} {set set' addr : Addr} {way way' simTime procId : ℕ}

/-! ## Touches -/

/-- A line that is hit or goes in: its place, whether the replacement policy is told, and whether a line goes out. -/
structure Touch where
  set : Addr
  way : ℕ
  updates : Bool
  replaces : Bool
  deriving DecidableEq

/-- Whether a call tells the replacement policy of the line. -/
def CacheCall.updates : CacheCall → Bool
  | .access _ _ updateRepl => updateRepl
  | .insertReplpos _ _ _ insertReplPolicy _ => insertReplPolicy == .default
  | .insertLru _ _ _ => true
  | .invalidate _ => false
  | .setPartitionAllocate _ _ => false

/-- The line that a call touches. -/
def CacheLife.touch (cfg : CacheConfig) (s : CacheLife δ) (call : CacheCall) : Option Touch :=
  let insertion (addr : Addr) : Touch :=
    let set := cfg.geo.set addr
    let way := s.cache.findReplEntry cfg.geo set
    ⟨set, way, call.updates, (s.cache.entries set way).valid⟩
  match call with
  | .access _ addr _ => (s.cache.lookup cfg.geo addr).map fun way => ⟨cfg.geo.set addr, way, call.updates, false⟩
  | .insertReplpos _ _ addr _ _ => some (insertion addr)
  | .insertLru _ _ addr => some (insertion addr)
  | .invalidate _ => none
  | .setPartitionAllocate _ _ => none

/-- A cache and its touches, oldest first. -/
structure TouchLife (δ : Type) where
  life : CacheLife δ
  touches : List Touch

def TouchLife.init (data : Addr → ℕ → δ) (ways : CoreWays) (rands : ℕ → ℕ) : TouchLife δ := ⟨.init data ways rands, []⟩

def TouchLife.step (cfg : CacheConfig) (s : TouchLife δ) (call : CacheCall) : Except String (TouchLife δ) := do
  let life ← s.life.step cfg call
  return ⟨life, s.touches ++ (s.life.touch cfg call).toList⟩

/-- The touches of one set. -/
def touchesOf (set : Addr) (touches : List Touch) : List Touch := touches.filter (·.set == set)

/-- The way of a set that was touched last. -/
def TouchLife.touched (s : TouchLife δ) (set : Addr) : Option ℕ := (touchesOf set s.touches).getLast?.map Touch.way

/-- The set has no invalid way. -/
def Cache.Filled (geo : Geometry) (c : Cache δ) (set : Addr) : Prop := ∀ way < geo.assoc, (c.entries set way).valid = true

instance (geo : Geometry) (c : Cache δ) (set : Addr) : Decidable (c.Filled geo set) :=
  inferInstanceAs (Decidable (∀ way < geo.assoc, (c.entries set way).valid = true))

/-! ## The counter of a set -/

/-- The policies that count. -/
def ReplPolicy.Counts (policy : ReplPolicy) : Prop := policy = .notMru ∨ policy = .roundRobin

/-- The counter of a set after a touch of the set. -/
def ReplPolicy.next (policy : ReplPolicy) (assoc ctr : ℕ) (touch : Touch) : ℕ :=
  if touch.updates = true ∧ (policy = .notMru → touch.way = ctr) then circInc2 ctr assoc else ctr

theorem circInc2_eq {v odd x : ℕ} (hodd : odd % 2 = 1) (hx : x < 2 ^ v) : circInc2 x (2 ^ v * odd) = (x + 1) % 2 ^ v :=
  Bits.succ_and_pred hodd hx

/-- The update of a counting policy changes the counter of the set only. -/
theorem Cache.updateReplPolicy_counts (c : Cache δ) (simTime : ℕ) (set : Addr) (way : ℕ) (hcounts : geo.replPolicy.Counts) :
    (c.updateReplPolicy geo simTime set way).entries = c.entries ∧
      ∀ set', (c.updateReplPolicy geo simTime set way).replCtrs set' =
        if set' = set then geo.replPolicy.next geo.assoc (c.replCtrs set) ⟨set, way, true, false⟩ else c.replCtrs set' := by
  rw [Cache.updateReplPolicy, ReplPolicy.next]
  rcases hcounts with hpolicy | hpolicy
  · rw [hpolicy]
    by_cases hway : way = c.replCtrs set
    · simp [hway]
    · simp only [hway, ↓reduceIte, true_and]
      intro set'
      by_cases hset : set' = set
      · simp [hset]
      · simp [hset]
  · rw [hpolicy]
    simp

theorem touchesOf_append {earlier later : List Touch} :
    touchesOf set (earlier ++ later) = touchesOf set earlier ++ touchesOf set later := List.filter_append _ _

theorem touchesOf_singleton (touch : Touch) : touchesOf set [touch] = if touch.set = set then [touch] else [] := by
  rw [touchesOf]
  by_cases hset : touch.set = set
  · simp [hset]
  · simp [hset]

theorem Cache.Filled.setEntry {entry : CacheEntry δ} (h : c.Filled geo set) (hvalid : entry.valid = true) :
    (c.setEntry set' way' entry).Filled geo set := by
  intro way hway
  by_cases hsame : set = set' ∧ way = way'
  · rw [hsame.1, hsame.2, Cache.setEntry_self]
    exact hvalid
  · rw [Cache.setEntry_other hsame]
    exact h way hway

/-- In a set without an invalid way the counter chooses. -/
theorem Cache.Filled.findReplEntry (h : c.Filled geo set) (hcounts : geo.replPolicy.Counts) :
    c.findReplEntry geo set = c.replCtrs set := by
  have hnone : (geo.ways.reverse.find? fun way => !(c.entries set way).valid) = none := by
    rw [List.find?_eq_none]
    intro way hway
    simp [h way (Geometry.mem_ways.mp (List.mem_reverse.mp hway))]
  rw [Cache.findReplEntry]
  rw [hnone]
  rcases hcounts with hpolicy | hpolicy
  · rw [hpolicy]
    rfl
  · rw [hpolicy]
    rfl

variable {s t : CacheLife δ} {policy : ReplPolicy} {call : CacheCall}

/-- What an insertion into a way does to the counters and to the filled sets. -/
structure Cache.Turns (geo : Geometry) (c : Cache δ) (touch : Touch) (d : Cache δ) : Prop where
  ctr : ∀ set, d.replCtrs set = if set = touch.set then geo.replPolicy.next geo.assoc (c.replCtrs set) touch else c.replCtrs set
  filled : ∀ set, c.Filled geo set → d.Filled geo set

theorem Cache.turns_rfl (touch : Touch) (hquiet : touch.updates = false) (hctr : ∀ set, d.replCtrs set = c.replCtrs set)
    (hfilled : ∀ set, c.Filled geo set → d.Filled geo set) : c.Turns geo touch d := by
  refine ⟨fun set => ?_, hfilled⟩
  have hsame : geo.replPolicy.next geo.assoc (c.replCtrs set) touch = c.replCtrs set := by
    rw [ReplPolicy.next]
    rw [if_neg]
    simp [hquiet]
  rw [hctr, hsame, ite_self]

theorem Cache.turns_update (touch : Touch) (hcounts : geo.replPolicy.Counts) (hupdates : touch.updates = true)
    (hctr : ∀ set, d.replCtrs set = c.replCtrs set) (hfilled : ∀ set, c.Filled geo set → d.Filled geo set) :
    c.Turns geo touch (d.updateReplPolicy geo simTime touch.set touch.way) := by
  obtain ⟨hentries, hnext⟩ := Cache.updateReplPolicy_counts d simTime touch.set touch.way hcounts
  refine ⟨fun set => ?_, fun set h => ?_⟩
  · rw [hnext]
    by_cases hset : set = touch.set
    · rw [if_pos hset, if_pos hset, hctr, hset]
      unfold ReplPolicy.next
      rw [hupdates]
    · rw [if_neg hset, if_neg hset, hctr]
  · rw [Cache.Filled]
    rw [hentries]
    exact hfilled set h

/-- What one call does to the counter of a set, and that it leaves a filled set filled. -/
structure CacheLife.Turned (cfg : CacheConfig) (s : CacheLife δ) (call : CacheCall) (t : CacheLife δ) : Prop where
  ctr : ∀ set, t.cache.replCtrs set =
    (touchesOf set (s.touch cfg call).toList).foldl (cfg.geo.replPolicy.next cfg.assoc) (s.cache.replCtrs set)
  filled : ∀ set, (∀ addr, call = .invalidate addr → cfg.geo.set addr ≠ set) →
    s.cache.Filled cfg.geo set → t.cache.Filled cfg.geo set

theorem Cache.Turns.turned {touch : Touch} (h : s.cache.Turns cfg.geo touch t.cache) (htouch : s.touch cfg call = some touch) :
    s.Turned cfg call t := by
  refine ⟨fun set => ?_, fun set _ => h.filled set⟩
  rw [htouch, Option.toList_some, touchesOf_singleton, h.ctr]
  by_cases hset : set = touch.set
  · rw [if_pos hset, if_pos hset.symm]
    rfl
  · rw [if_neg hset, if_neg (Ne.symm hset)]
    rfl

theorem CacheLife.Turned.of_untouched (htouch : s.touch cfg call = none) (hctr : t.cache.replCtrs = s.cache.replCtrs)
    (hfilled : ∀ set, (∀ addr, call = .invalidate addr → cfg.geo.set addr ≠ set) →
      s.cache.Filled cfg.geo set → t.cache.Filled cfg.geo set) : s.Turned cfg call t := by
  refine ⟨fun set => ?_, hfilled⟩
  rw [htouch, hctr]
  rfl

/-- An insertion under a policy of its own goes where the policy says. -/
theorem CacheLife.insertWith_own {insert : ℕ → Cache δ} (hpolicy : cfg.policy = .own policy)
    (hstep : s.insertWith cfg simTime procId addr insert = .ok t) : procId < cfg.cores ∧ simTime < maxCtr ∧
      t.cache = insert (s.cache.findReplEntry cfg.geo (cfg.geo.set addr)) := by
  rw [CacheLife.insertWith] at hstep
  dsimp only at hstep
  by_cases hmiss : (s.cache.lookup cfg.geo addr).isSome = true
  · rw [if_pos hmiss] at hstep
    cases hstep
  by_cases hprocId : cfg.cores ≤ procId
  · rw [if_neg hmiss, if_pos hprocId] at hstep
    cases hstep
  by_cases htime : maxCtr ≤ simTime
  · rw [if_neg hmiss, if_neg hprocId, if_pos htime] at hstep
    cases hstep
  rw [if_neg hmiss, if_neg hprocId, if_neg htime] at hstep
  rw [CacheLife.findReplEntry] at hstep
  rw [hpolicy] at hstep
  cases hstep
  exact ⟨Nat.lt_of_not_le hprocId, Nat.lt_of_not_le htime, rfl⟩

theorem CacheLife.insertWith_turned {insert : ℕ → Cache δ} {touch : Touch} (hpolicy : cfg.policy = .own policy)
    (htouch : s.touch cfg call = some touch) (hway : touch.way = s.cache.findReplEntry cfg.geo (cfg.geo.set addr))
    (hinsert : s.cache.Turns cfg.geo touch (insert touch.way))
    (hstep : s.insertWith cfg simTime procId addr insert = .ok t) : s.Turned cfg call t := by
  refine Cache.Turns.turned ?_ htouch
  rw [(CacheLife.insertWith_own hpolicy hstep).2.2, ← hway]
  exact hinsert

/-- One call, under a policy that counts. -/
theorem CacheLife.step_turned (hpolicy : cfg.policy = .own policy) (hcounts : policy.Counts)
    (hstep : s.step cfg call = .ok t) : s.Turned cfg call t := by
  have hgeo : cfg.geo.replPolicy.Counts := by
    rw [CacheConfig.geo]
    rw [hpolicy]
    exact hcounts
  have hown : (cfg.policy == .own .trueLru) = false := by
    rcases hcounts with rfl | rfl
    · rw [hpolicy]
      rfl
    · rw [hpolicy]
      rfl
  cases call with
  | access simTime addr updateRepl =>
      rw [CacheLife.step] at hstep
      by_cases htime : maxCtr ≤ simTime
      · rw [if_pos htime] at hstep
        cases hstep
      rw [if_neg htime] at hstep
      cases hstep
      cases hlookup : s.cache.lookup cfg.geo addr with
      | none =>
          refine .of_untouched (by simp [CacheLife.touch, hlookup]) ?_ fun set _ h => ?_
          · simp [Cache.access, hlookup]
          · simpa [Cache.access, hlookup] using h
      | some way =>
          have hvalid := (Cache.holds_of_lookup hlookup).2.1
          have htouch : s.touch cfg (.access simTime addr updateRepl) = some ⟨cfg.geo.set addr, way, updateRepl, false⟩ := by
            simp [CacheLife.touch, hlookup, CacheCall.updates]
          refine Cache.Turns.turned ?_ htouch
          rw [Cache.access]
          rw [hlookup]
          dsimp only
          cases updateRepl with
          | false => exact Cache.turns_rfl _ rfl (fun _ => rfl) fun _ h => h
          | true => exact Cache.turns_update _ hgeo rfl (fun _ => rfl) fun _ h => h.setEntry hvalid
  | insertReplpos simTime procId addr pos isPrefetch =>
      rw [CacheLife.step] at hstep
      refine CacheLife.insertWith_turned hpolicy rfl rfl ?_ hstep
      unfold Cache.insertWay
      dsimp only
      cases pos with
      | default => exact Cache.turns_update _ hgeo rfl (fun _ => rfl) fun _ h => h.setEntry rfl
      | lru => exact Cache.turns_rfl _ rfl (fun _ => rfl) fun _ h => (h.setEntry rfl).setEntry rfl
      | mru => exact Cache.turns_rfl _ rfl (fun _ => rfl) fun _ h => h.setEntry rfl
      | mid => exact Cache.turns_rfl _ rfl (fun _ => rfl) fun _ h => (h.setEntry rfl).setEntry rfl
      | lowqtr => exact Cache.turns_rfl _ rfl (fun _ => rfl) fun _ h => (h.setEntry rfl).setEntry rfl
  | insertLru simTime procId addr =>
      rw [CacheLife.step] at hstep
      refine CacheLife.insertWith_turned hpolicy rfl rfl ?_ hstep
      rw [Cache.insertLruWay]
      rw [hown]
      exact Cache.turns_update _ hgeo rfl (fun _ => rfl) fun _ h => h.setEntry rfl
  | invalidate addr =>
      cases hstep
      refine .of_untouched rfl rfl fun set hother h way hway => ?_
      rw [Cache.invalidate_other]
      · exact h way hway
      · exact fun hreached => hother addr rfl hreached.1.symm
  | setPartitionAllocate procId numWays =>
      cases hstep
      exact .of_untouched rfl rfl fun _ _ h => h

/-! ## Runs -/

variable {u w : TouchLife δ} {v odd ctr : ℕ}

theorem TouchLife.step_eq_ok (h : u.step cfg call = .ok w) :
    u.life.step cfg call = .ok w.life ∧ w.touches = u.touches ++ (u.life.touch cfg call).toList := by
  obtain ⟨life, hlife, hw⟩ := bind_eq_ok.mp h
  cases hw
  exact ⟨hlife, rfl⟩

theorem ReplPolicy.next_lt (hodd : odd % 2 = 1) (hctr : ctr < 2 ^ v) (touch : Touch) :
    policy.next (2 ^ v * odd) ctr touch < 2 ^ v := by
  rw [ReplPolicy.next]
  split
  · rw [circInc2_eq hodd hctr]
    exact Nat.mod_lt _ (Nat.two_pow_pos v)
  · exact hctr

/-- The counters stay below the power of two that divides the number of ways. -/
structure TouchLife.Below (cfg : CacheConfig) (v : ℕ) (s : TouchLife δ) : Prop where
  ctr : ∀ set, s.life.cache.replCtrs set < 2 ^ v

theorem TouchLife.Below.step (h : u.Below cfg v) (hpolicy : cfg.policy = .own policy) (hcounts : policy.Counts)
    (hassoc : cfg.assoc = 2 ^ v * odd) (hodd : odd % 2 = 1) (hstep : u.step cfg call = .ok w) : w.Below cfg v := by
  have hturned := CacheLife.step_turned hpolicy hcounts (TouchLife.step_eq_ok hstep).1
  refine ⟨fun set => ?_⟩
  rw [hturned.ctr, hassoc]
  have hbelow := h.ctr set
  cases u.life.touch cfg call with
  | none => exact hbelow
  | some touch =>
      rw [Option.toList_some, touchesOf_singleton]
      split
      · exact ReplPolicy.next_lt hodd hbelow touch
      · exact hbelow

/-! ## The victim and the line touched last -/

/-- A touch of the way that the counter names moves the counter. -/
def TouchLife.Advances (cfg : CacheConfig) (s : TouchLife δ) (call : CacheCall) : Prop :=
  ∀ touch ∈ s.life.touch cfg call, touch.way = s.life.cache.replCtrs touch.set → touch.updates = true ∧ Even cfg.assoc

instance (s : TouchLife δ) (call : CacheCall) : Decidable (s.Advances cfg call) := by
  rw [TouchLife.Advances]
  infer_instance

theorem circInc2_ne_iff (hodd : odd % 2 = 1) (hctr : ctr < 2 ^ v) : circInc2 ctr (2 ^ v * odd) ≠ ctr ↔ Even (2 ^ v * odd) := by
  rw [circInc2_eq hodd hctr, Nat.even_mul, Nat.even_pow, Nat.even_iff, Nat.even_iff]
  cases v with
  | zero =>
      have hzero : ctr = 0 := by simpa using hctr
      simp [hzero, hodd]
  | succ v =>
      refine iff_of_true ?_ (.inl ⟨rfl, Nat.succ_ne_zero v⟩)
      have htwo : 2 ≤ 2 ^ (v + 1) := by
        have hpos := Nat.two_pow_pos v
        omega
      by_cases hlast : ctr + 1 = 2 ^ (v + 1)
      · rw [hlast, Nat.mod_self]
        omega
      · rw [Nat.mod_eq_of_lt (by omega)]
        omega

/-- After a touch the counter names another way, unless the touch did not move it. -/
theorem next_notMru_ne_iff (hodd : odd % 2 = 1) (hctr : ctr < 2 ^ v) (touch : Touch) :
    ReplPolicy.notMru.next (2 ^ v * odd) ctr touch ≠ touch.way ↔
      (touch.way = ctr → touch.updates = true ∧ Even (2 ^ v * odd)) := by
  rw [ReplPolicy.next]
  by_cases hway : touch.way = ctr
  · cases hupdates : touch.updates with
    | true => simpa [hway] using circInc2_ne_iff hodd hctr
    | false => simp [hway]
  · simp [hway, Ne.symm hway]

/-- The line touched last in a set, after one more call. -/
theorem TouchLife.step_touched (hstep : u.step cfg call = .ok w) : w.touched set =
    match u.life.touch cfg call with
    | some touch => if touch.set = set then some touch.way else u.touched set
    | none => u.touched set := by
  unfold TouchLife.touched
  rw [(TouchLife.step_eq_ok hstep).2, touchesOf_append]
  cases u.life.touch cfg call with
  | none =>
      rw [Option.toList_none]
      simp [touchesOf]
  | some touch =>
      rw [Option.toList_some, touchesOf_singleton]
      by_cases hset : touch.set = set
      · simp [hset]
      · simp [hset]

/-- The way that is replaced next. -/
def TouchLife.victim (cfg : CacheConfig) (s : TouchLife δ) (set : Addr) : ℕ := s.life.cache.findReplEntry cfg.geo set

theorem TouchLife.victim_filled (hpolicy : cfg.policy = .own policy) (hcounts : policy.Counts)
    (hfilled : u.life.cache.Filled cfg.geo set) : u.victim cfg set = u.life.cache.replCtrs set := by
  refine hfilled.findReplEntry ?_
  rw [CacheConfig.geo]
  rw [hpolicy]
  exact hcounts

theorem TouchLife.init_below (data : Addr → ℕ → δ) (ways : CoreWays) (rands : ℕ → ℕ) :
    (TouchLife.init data ways rands).Below cfg v := ⟨fun _ => Nat.two_pow_pos v⟩

/-- The counter of the set after one more call. -/
theorem TouchLife.step_ctr (hpolicy : cfg.policy = .own policy) (hcounts : policy.Counts) (hstep : u.step cfg call = .ok w)
    (set : Addr) :
    w.life.cache.replCtrs set =
      match u.life.touch cfg call with
      | some touch =>
          if touch.set = set then policy.next cfg.assoc (u.life.cache.replCtrs set) touch else u.life.cache.replCtrs set
      | none => u.life.cache.replCtrs set := by
  have hgeo : cfg.geo.replPolicy = policy := by
    rw [CacheConfig.geo]
    rw [hpolicy]
    rfl
  rw [(CacheLife.step_turned hpolicy hcounts (TouchLife.step_eq_ok hstep).1).ctr, hgeo]
  cases u.life.touch cfg call with
  | none => rfl
  | some touch =>
      rw [Option.toList_some, touchesOf_singleton]
      by_cases hset : touch.set = set
      · simp [hset]
      · simp [hset]

/-- A call that advances keeps the counters away from the lines touched last. -/
theorem TouchLife.Below.step_apart (h : u.Below cfg v) (hpolicy : cfg.policy = .own .notMru)
    (hassoc : cfg.assoc = 2 ^ v * odd) (hodd : odd % 2 = 1) (hapart : ∀ set, u.touched set ≠ some (u.life.cache.replCtrs set))
    (hadvances : u.Advances cfg call) (hstep : u.step cfg call = .ok w) (set : Addr) :
    w.touched set ≠ some (w.life.cache.replCtrs set) := by
  rw [TouchLife.step_touched hstep, TouchLife.step_ctr hpolicy (.inl rfl) hstep]
  cases htouch : u.life.touch cfg call with
  | none => exact hapart set
  | some touch =>
      dsimp only
      by_cases hset : touch.set = set
      · have hway := hadvances touch (Option.mem_def.mpr htouch)
        rw [hset, hassoc] at hway
        rw [if_pos hset, if_pos hset, hassoc]
        intro hsame
        exact (next_notMru_ne_iff hodd (h.ctr set) touch).mpr hway (Option.some.inj hsame).symm
      · rw [if_neg hset, if_neg hset]
        exact hapart set

/-- Under `REPL_NOT_MRU` the victim is a way of the set; in a full set it is not the line touched last, if every touch
of the way that the counter names moves the counter. That takes an even number of ways and a touch that
the policy is told of, and a call that is not so makes its line the next victim. -/
theorem TouchLife.run_notMru (cfg : CacheConfig) (hpolicy : cfg.policy = .own .notMru) (hassoc : 2 ≤ cfg.assoc)
    (data : Addr → ℕ → δ) (ways : CoreWays) (rands : ℕ → ℕ) (calls : List CacheCall) (s : TouchLife δ)
    (hrun : run (TouchLife.step cfg) (.init data ways rands) calls = .ok s) :
    (∀ set, s.victim cfg set < cfg.assoc) ∧
      (Along (TouchLife.step cfg) (TouchLife.Advances cfg) (.init data ways rands) calls →
        ∀ set, s.life.cache.Filled cfg.geo set → s.touched set ≠ some (s.victim cfg set)) ∧
      ∀ call t, s.step cfg call = .ok t → ∀ touch ∈ s.life.touch cfg call, t.life.cache.Filled cfg.geo touch.set →
        (t.touched touch.set ≠ some (t.victim cfg touch.set) ↔ s.Advances cfg call) := by
  obtain ⟨v, odd, hodd, hsize⟩ := Nat.exists_eq_two_pow_mul_odd (by omega : cfg.assoc ≠ 0)
  have hodd := Nat.odd_iff.mp hodd
  have hcounts : ReplPolicy.notMru.Counts := .inl rfl
  have hbelow : s.Below cfg v :=
    run_invariant (fun _ _ _ h hstep => h.step hpolicy hcounts hsize hodd hstep) (TouchLife.init_below data ways rands) hrun
  refine ⟨fun set => ?_, fun halong set hfilled => ?_, fun call t hstep touch htouch hfilled => ?_⟩
  · refine Cache.findReplEntry_lt cfg.geo (by show 0 < cfg.assoc; omega) (Nat.lt_of_lt_of_le (hbelow.ctr set) ?_)
    show 2 ^ v ≤ cfg.assoc
    rw [hsize]
    exact Nat.le_mul_of_pos_right _ (by omega)
  · rw [TouchLife.victim_filled hpolicy hcounts hfilled]
    refine (run_invariant_along (I := fun u : TouchLife δ => u.Below cfg v ∧
      ∀ set, u.touched set ≠ some (u.life.cache.replCtrs set)) ?_ ?_ halong hrun).2 set
    · intro u call w h hadvances hstep
      exact ⟨h.1.step hpolicy hcounts hsize hodd hstep, h.1.step_apart hpolicy hsize hodd h.2 hadvances hstep⟩
    · exact ⟨TouchLife.init_below data ways rands, fun set => by simp [TouchLife.touched, TouchLife.init, touchesOf]⟩
  · rw [TouchLife.victim_filled hpolicy hcounts hfilled, TouchLife.step_touched hstep, TouchLife.step_ctr hpolicy hcounts hstep,
      Option.mem_def.mp htouch]
    dsimp only
    rw [if_pos rfl, if_pos rfl, hsize]
    have hiff := next_notMru_ne_iff hodd (hbelow.ctr touch.set) touch
    rw [TouchLife.Advances]
    rw [Option.mem_def.mp htouch, hsize]
    constructor
    · intro hne touch' htouch' hway
      obtain rfl : touch = touch' := Option.some.inj htouch'
      exact hiff.mp (fun hsame => hne (congrArg some hsame.symm)) hway
    · intro hadvances hsame
      exact hiff.mpr (hadvances touch rfl) (Option.some.inj hsame).symm

/-- A set of two ways: the fill, a hit and a replacement, each of which moves the counter or is of the other way. -/
theorem TouchLife.run_notMru_two_ways :
    ∃ s : TouchLife ℕ, run (TouchLife.step ⟨2, 0, 6, 1, .own .notMru⟩)
        (.init (fun _ way => way) ⟨fun _ => 0, fun _ => 0, fun _ => 0, fun _ => 0⟩ fun _ => 0)
        [.insert 1 0 0x40, .insert 2 0 0x80, .access 3 0x40 true, .insert 4 0 0xc0] = .ok s ∧
      s.touched 0 ≠ some (s.victim ⟨2, 0, 6, 1, .own .notMru⟩ 0) := by
  obtain ⟨s, hrun, hfilled⟩ := Execution.map_eq_ok.mp (show
    (fun s : TouchLife ℕ => decide (s.life.cache.Filled ⟨2, 0, 6, .notMru⟩ 0)) <$>
      run (TouchLife.step ⟨2, 0, 6, 1, .own .notMru⟩)
        (.init (fun _ way => way) ⟨fun _ => 0, fun _ => 0, fun _ => 0, fun _ => 0⟩ fun _ => 0)
        [.insert 1 0 0x40, .insert 2 0 0x80, .access 3 0x40 true, .insert 4 0 0xc0] = .ok true by
    decide +kernel)
  exact ⟨s, hrun, (TouchLife.run_notMru _ rfl (by decide) _ _ _ _ s hrun).2.1 (by decide +kernel) 0 (of_decide_eq_true hfilled)⟩

/-- With three ways the mask keeps the counter at 0: after the fill, which ends with way 0, way 0 is the victim. -/
theorem TouchLife.run_notMru_three_ways :
    ∃ s : TouchLife ℕ, run (TouchLife.step ⟨3, 0, 6, 1, .own .notMru⟩)
        (.init (fun _ way => way) ⟨fun _ => 0, fun _ => 0, fun _ => 0, fun _ => 0⟩ fun _ => 0)
        [.insert 1 0 0x40, .insert 2 0 0x80, .insert 3 0 0xc0] = .ok s ∧
      s.life.cache.Filled ⟨3, 0, 6, .notMru⟩ 0 ∧ s.touched 0 = some (s.victim ⟨3, 0, 6, 1, .own .notMru⟩ 0) := by
  obtain ⟨s, hrun, hs⟩ := Execution.map_eq_ok.mp (show
    (fun s : TouchLife ℕ => decide (s.life.cache.Filled ⟨3, 0, 6, .notMru⟩ 0 ∧
        s.touched 0 = some (s.victim ⟨3, 0, 6, 1, .own .notMru⟩ 0))) <$>
      run (TouchLife.step ⟨3, 0, 6, 1, .own .notMru⟩)
        (.init (fun _ way => way) ⟨fun _ => 0, fun _ => 0, fun _ => 0, fun _ => 0⟩ fun _ => 0)
        [.insert 1 0 0x40, .insert 2 0 0x80, .insert 3 0 0xc0] = .ok true by
    decide +kernel)
  exact ⟨s, hrun, of_decide_eq_true hs⟩

/-! ## The victims of a full set -/

/-- The ways that are replaced. -/
def victims (touches : List Touch) : List ℕ := (touches.filter Touch.replaces).map Touch.way

/-- How often the policy is told of a line before each replacement, from `n` on. -/
def updatesBefore : ℕ → List Touch → List ℕ
  | _, [] => []
  | n, touch :: touches =>
      let rest := updatesBefore (n + touch.updates.toNat) touches
      if touch.replaces then n :: rest else rest

/-- Every replacement takes the way that the counter names. -/
def FollowsCtr (policy : ReplPolicy) (assoc : ℕ) : ℕ → List Touch → Prop
  | _, [] => True
  | ctr, touch :: touches =>
      (touch.replaces = true → touch.way = ctr) ∧ FollowsCtr policy assoc (policy.next assoc ctr touch) touches

variable {touches : List Touch} {assoc n : ℕ}

theorem FollowsCtr.append_singleton {touch : Touch} (h : FollowsCtr policy assoc ctr touches)
    (hlast : touch.replaces = true → touch.way = touches.foldl (policy.next assoc) ctr) :
    FollowsCtr policy assoc ctr (touches ++ [touch]) := by
  induction touches generalizing ctr with
  | nil => exact ⟨hlast, trivial⟩
  | cons first touches ih => exact ⟨h.1, ih h.2 hlast⟩

/-- The round robin replaces the way that the number of updates names. -/
theorem FollowsCtr.victims (hodd : odd % 2 = 1) (h : FollowsCtr .roundRobin (2 ^ v * odd) ((ctr + n) % 2 ^ v) touches) :
    victims touches = (updatesBefore n touches).map fun n => (ctr + n) % 2 ^ v := by
  induction touches generalizing n with
  | nil => rfl
  | cons touch touches ih =>
      have hnext : ReplPolicy.roundRobin.next (2 ^ v * odd) ((ctr + n) % 2 ^ v) touch =
          (ctr + (n + touch.updates.toNat)) % 2 ^ v := by
        rw [ReplPolicy.next]
        cases touch.updates with
        | false => simp
        | true =>
            rw [if_pos (by simp), circInc2_eq hodd (Nat.mod_lt _ (Nat.two_pow_pos v)), Nat.mod_add_mod]
            rfl
      have hrest := ih (hnext ▸ h.2)
      rw [Memory.victims] at hrest ⊢
      rw [updatesBefore]
      by_cases hreplaces : touch.replaces = true
      · rw [List.filter_cons_of_pos hreplaces, if_pos hreplaces, List.map_cons, List.map_cons, hrest, h.1 hreplaces]
      · rw [List.filter_cons_of_neg hreplaces, if_neg hreplaces, hrest]

theorem length_updatesBefore (touches : List Touch) (n : ℕ) : (updatesBefore n touches).length = (victims touches).length := by
  rw [victims]
  induction touches generalizing n with
  | nil => rfl
  | cons touch touches ih =>
      rw [updatesBefore]
      by_cases hreplaces : touch.replaces = true
      · rw [if_pos hreplaces, List.filter_cons_of_pos hreplaces, List.length_cons, ih, List.map_cons, List.length_cons]
      · rw [if_neg hreplaces, List.filter_cons_of_neg hreplaces, ih]

/-- Which numbers of updates lead through all ways. -/
theorem perm_range_iff {ns : List ℕ} (hlength : ns.length = assoc) (hassoc : assoc = 2 ^ v * odd) (hodd : odd % 2 = 1) :
    (ns.map fun n => (ctr + n) % 2 ^ v).Perm (List.range assoc) ↔
      (∃ k, assoc = 2 ^ k) ∧ ns.Pairwise fun n n' => n % assoc ≠ n' % assoc := by
  have hpos := Nat.two_pow_pos v
  have hpairwise : (ns.map fun n => (ctr + n) % 2 ^ v).Nodup ↔ ns.Pairwise fun n n' => n % 2 ^ v ≠ n' % 2 ^ v := by
    rw [List.Nodup]
    rw [List.pairwise_map]
    have hcancel (n n' : ℕ) : (ctr + n) % 2 ^ v ≠ (ctr + n') % 2 ^ v ↔ n % 2 ^ v ≠ n' % 2 ^ v :=
      not_congr ⟨fun h => Nat.ModEq.add_left_cancel' ctr h, fun h => Nat.ModEq.add_left ctr h⟩
    simp only [hcancel]
  constructor
  · intro hperm
    -- the last way must be below the power of two
    have hlast : assoc - 1 ∈ ns.map fun n => (ctr + n) % 2 ^ v := by
      refine hperm.mem_iff.mpr (List.mem_range.mpr (Nat.sub_lt ?_ Nat.one_pos))
      rw [hassoc]
      exact Nat.mul_pos hpos (by omega)
    obtain ⟨n, -, hn⟩ := List.mem_map.mp hlast
    have hlt := Nat.mod_lt (ctr + n) hpos
    have hsize : assoc = 2 ^ v := by
      refine Nat.le_antisymm (by omega) ?_
      rw [hassoc]
      exact Nat.le_mul_of_pos_right _ (by omega)
    refine ⟨⟨v, hsize⟩, ?_⟩
    rw [hsize, ← hpairwise]
    exact hperm.nodup_iff.mpr List.nodup_range
  · rintro ⟨⟨k, hk⟩, hns⟩
    have hsize : assoc = 2 ^ v := by
      have hone : odd = 1 := by
        have hdvd : odd ∣ 2 ^ k := by
          rw [← hk, hassoc]
          exact Nat.dvd_mul_left _ _
        obtain ⟨j, -, rfl⟩ := (Nat.dvd_prime_pow Nat.prime_two).mp hdvd
        cases j with
        | zero => rfl
        | succ j =>
            rw [Nat.pow_succ] at hodd
            omega
      rw [hassoc, hone, Nat.mul_one]
    rw [hsize] at hns hlength ⊢
    refine (List.Nodup.subperm (hpairwise.mpr hns) fun way hway => ?_).perm_of_length_le ?_
    · obtain ⟨n, -, rfl⟩ := List.mem_map.mp hway
      exact List.mem_range.mpr (Nat.mod_lt _ hpos)
    · rw [List.length_range, List.length_map, hlength]

/-- A set that is full from one moment on, with the touches since then. -/
structure TouchLife.Rotates (cfg : CacheConfig) (v ctr : ℕ) (set : Addr) (s : TouchLife δ) : Prop where
  below : s.Below cfg v
  filled : s.life.cache.Filled cfg.geo set
  follows : FollowsCtr .roundRobin cfg.assoc ctr (touchesOf set s.touches)
  ctr : s.life.cache.replCtrs set = (touchesOf set s.touches).foldl (ReplPolicy.roundRobin.next cfg.assoc) ctr

/-- A replacement in the set takes the way of the counter. -/
theorem CacheLife.touch_way {touch : Touch} (hpolicy : cfg.policy = .own policy) (hcounts : policy.Counts)
    (htouch : s.touch cfg call = some touch) (hreplaces : touch.replaces = true) (hfilled : s.cache.Filled cfg.geo touch.set) :
    touch.way = s.cache.replCtrs touch.set := by
  have hgeo : cfg.geo.replPolicy.Counts := by
    rw [CacheConfig.geo]
    rw [hpolicy]
    exact hcounts
  unfold CacheLife.touch at htouch
  cases call with
  | access simTime addr updateRepl =>
      obtain ⟨way, -, rfl⟩ := Option.map_eq_some_iff.mp htouch
      cases hreplaces
  | insertReplpos simTime procId addr pos isPrefetch =>
      obtain rfl := Option.some.inj htouch
      exact hfilled.findReplEntry hgeo
  | insertLru simTime procId addr =>
      obtain rfl := Option.some.inj htouch
      exact hfilled.findReplEntry hgeo
  | invalidate addr => cases htouch
  | setPartitionAllocate procId numWays => cases htouch

theorem TouchLife.Rotates.step (h : u.Rotates cfg v ctr set) (hpolicy : cfg.policy = .own .roundRobin)
    (hassoc : cfg.assoc = 2 ^ v * odd) (hodd : odd % 2 = 1) (hcall : ∀ addr, call = .invalidate addr → cfg.geo.set addr ≠ set)
    (hstep : u.step cfg call = .ok w) : w.Rotates cfg v ctr set := by
  have hcounts : ReplPolicy.roundRobin.Counts := .inr rfl
  obtain ⟨hlife, htouches⟩ := TouchLife.step_eq_ok hstep
  have hctr := TouchLife.step_ctr hpolicy hcounts hstep set
  have hboth : FollowsCtr .roundRobin cfg.assoc ctr (touchesOf set w.touches) ∧
      w.life.cache.replCtrs set = (touchesOf set w.touches).foldl (ReplPolicy.roundRobin.next cfg.assoc) ctr := by
    rw [htouches, touchesOf_append, hctr]
    cases htouch : u.life.touch cfg call with
    | none =>
        rw [Option.toList_none, touchesOf, touchesOf, List.filter_nil, List.append_nil]
        exact ⟨h.follows, h.ctr⟩
    | some touch =>
        rw [Option.toList_some, touchesOf_singleton]
        dsimp only
        by_cases hset : touch.set = set
        · rw [if_pos hset, if_pos hset, List.foldl_append, ← h.ctr]
          refine ⟨h.follows.append_singleton fun hreplaces => ?_, rfl⟩
          rw [CacheLife.touch_way hpolicy hcounts htouch hreplaces (hset ▸ h.filled), hset, h.ctr]
        · rw [if_neg hset, if_neg hset, List.append_nil]
          exact ⟨h.follows, h.ctr⟩
  exact ⟨h.below.step hpolicy hcounts hassoc hodd hstep,
    (CacheLife.step_turned hpolicy hcounts hlife).filled set hcall h.filled, hboth.1, hboth.2⟩

/-- Under `REPL_ROUND_ROBIN` as many replacements in a full set as it has ways evict each way once exactly when the number
of ways is a power of two and no two of the replacements have a multiple of it updates of the policy between them;
an update is a hit too. -/
theorem TouchLife.run_roundRobin (cfg : CacheConfig) (hpolicy : cfg.policy = .own .roundRobin) (hassoc : 0 < cfg.assoc)
    (data : Addr → ℕ → δ) (ways : CoreWays) (rands : ℕ → ℕ) (calls : List CacheCall) (s : TouchLife δ)
    (hrun : run (TouchLife.step cfg) (.init data ways rands) calls = .ok s) (set : Addr)
    (hfilled : s.life.cache.Filled cfg.geo set) (more : List CacheCall)
    (hmore : ∀ addr, .invalidate addr ∈ more → cfg.geo.set addr ≠ set) (t : TouchLife δ)
    (hrun' : run (TouchLife.step cfg) ⟨s.life, []⟩ more = .ok t) (hcount : (victims (touchesOf set t.touches)).length = cfg.assoc) :
    (victims (touchesOf set t.touches)).Perm (List.range cfg.assoc) ↔ (∃ k, cfg.assoc = 2 ^ k) ∧
      (updatesBefore 0 (touchesOf set t.touches)).Pairwise fun n n' => n % cfg.assoc ≠ n' % cfg.assoc := by
  obtain ⟨v, odd, hodd, hsize⟩ := Nat.exists_eq_two_pow_mul_odd (Nat.ne_of_gt hassoc)
  have hodd := Nat.odd_iff.mp hodd
  have hbelow : s.Below cfg v :=
    run_invariant (fun _ _ _ h hstep => h.step hpolicy (.inr rfl) hsize hodd hstep) (TouchLife.init_below data ways rands) hrun
  have hstart : TouchLife.Rotates cfg v (s.life.cache.replCtrs set) set ⟨s.life, []⟩ := ⟨⟨hbelow.ctr⟩, hfilled, trivial, rfl⟩
  have hrotates : t.Rotates cfg v (s.life.cache.replCtrs set) set :=
    run_invariant_along (fun _ _ _ h hcall hstep => h.step hpolicy hsize hodd hcall hstep) hstart
      (along_of_mem (P := fun call : CacheCall => ∀ addr, call = .invalidate addr → cfg.geo.set addr ≠ set)
        (fun call hmem addr hcall => hmore addr (hcall ▸ hmem)) _) hrun'
  have hfollows := hrotates.follows
  rw [hsize, ← Nat.mod_eq_of_lt (hbelow.ctr set), ← Nat.add_zero (s.life.cache.replCtrs set)] at hfollows
  rw [hfollows.victims hodd]
  exact perm_range_iff (by rw [length_updatesBefore, hcount]) hsize hodd

/-- Two ways, two replacements and no hit: each way goes out once. -/
theorem TouchLife.run_roundRobin_two_ways :
    ∃ t : TouchLife ℕ, (victims (touchesOf 0 t.touches)).Perm (List.range 2) := by
  obtain ⟨s, hrun, hs⟩ := Execution.map_eq_ok.mp (show
    (fun s : TouchLife ℕ => decide (s.life.cache.Filled ⟨2, 0, 6, .roundRobin⟩ 0 ∧
        ((run (TouchLife.step ⟨2, 0, 6, 1, .own .roundRobin⟩) ⟨s.life, []⟩ [.insert 3 0 0xc0, .insert 4 0 0x100]).toOption.map
          TouchLife.touches) = some [⟨0, 0, true, true⟩, ⟨0, 1, true, true⟩])) <$>
      run (TouchLife.step ⟨2, 0, 6, 1, .own .roundRobin⟩)
        (.init (fun _ way => way) ⟨fun _ => 0, fun _ => 0, fun _ => 0, fun _ => 0⟩ fun _ => 0)
        [.insert 1 0 0x40, .insert 2 0 0x80] = .ok true by
    decide +kernel)
  obtain ⟨hfilled, hmore⟩ := of_decide_eq_true hs
  obtain ⟨t, ht, htouches⟩ := Option.map_eq_some_iff.mp hmore
  refine ⟨t, (TouchLife.run_roundRobin ⟨2, 0, 6, 1, .own .roundRobin⟩ rfl (by decide) _ _ _ _ s hrun 0 hfilled _ ?_ t
    (toOption_eq_some.mp ht) ?_).mpr ⟨⟨1, rfl⟩, ?_⟩⟩
  · simp
  · rw [htouches]
    decide
  · rw [htouches]
    decide

/-- Two ways, and a hit between two replacements: way 0 goes out twice. -/
theorem TouchLife.run_roundRobin_hit :
    ∃ s t : TouchLife ℕ, run (TouchLife.step ⟨2, 0, 6, 1, .own .roundRobin⟩)
        (.init (fun _ way => way) ⟨fun _ => 0, fun _ => 0, fun _ => 0, fun _ => 0⟩ fun _ => 0)
        [.insert 1 0 0x40, .insert 2 0 0x80] = .ok s ∧ s.life.cache.Filled ⟨2, 0, 6, .roundRobin⟩ 0 ∧
      run (TouchLife.step ⟨2, 0, 6, 1, .own .roundRobin⟩) ⟨s.life, []⟩
        [.insert 3 0 0xc0, .access 4 0xc0 true, .insert 5 0 0x100] = .ok t ∧
      victims (touchesOf 0 t.touches) = [0, 0] ∧ ¬ (victims (touchesOf 0 t.touches)).Perm (List.range 2) := by
  obtain ⟨s, hrun, hs⟩ := Execution.map_eq_ok.mp (show
    (fun s : TouchLife ℕ => decide (s.life.cache.Filled ⟨2, 0, 6, .roundRobin⟩ 0 ∧
        ((run (TouchLife.step ⟨2, 0, 6, 1, .own .roundRobin⟩) ⟨s.life, []⟩
            [.insert 3 0 0xc0, .access 4 0xc0 true, .insert 5 0 0x100]).toOption.map
          fun t => victims (touchesOf 0 t.touches)) = some [0, 0])) <$>
      run (TouchLife.step ⟨2, 0, 6, 1, .own .roundRobin⟩)
        (.init (fun _ way => way) ⟨fun _ => 0, fun _ => 0, fun _ => 0, fun _ => 0⟩ fun _ => 0)
        [.insert 1 0 0x40, .insert 2 0 0x80] = .ok true by
    decide +kernel)
  obtain ⟨hfilled, hmore⟩ := of_decide_eq_true hs
  obtain ⟨t, ht, hvictims⟩ := Option.map_eq_some_iff.mp hmore
  exact ⟨s, t, hrun, hfilled, toOption_eq_some.mp ht, hvictims, hvictims ▸ by decide⟩

end Scarab.Memory
