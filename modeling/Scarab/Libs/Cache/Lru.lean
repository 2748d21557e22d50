import Scarab.Lib.Recency
import Scarab.Libs.Cache.Residency

/-! # The true LRU cache

Under `REPL_TRUE_LRU` a set is a stack of tags, most recently touched first. -/

namespace Scarab.Memory

open Recency

variable {δ : Type}

/-! ## The driven cache -/

/-- A cache, the time from which a line may be touched, and the addresses that were touched or invalidated. -/
structure LruLife (δ : Type) where
  life : CacheLife δ
  next : ℕ
  history : List (Use Addr)

def LruLife.init (data : Addr → ℕ → δ) (ways : CoreWays) (rands : ℕ → ℕ) : LruLife δ := ⟨.init data ways rands, 0, []⟩

/-- `cache_access` with `update_repl`, `cache_insert` and `cache_invalidate`. -/
inductive LruCall where
  | access (simTime : ℕ) (addr : Addr)
  | insert (simTime procId : ℕ) (addr : Addr)
  | invalidate (addr : Addr)

/-- One call, at a later time than the touches before. -/
def LruLife.step (cfg : CacheConfig) (s : LruLife δ) : LruCall → Except String (LruLife δ)
  | .access simTime addr =>
      if simTime < s.next then .error "sim_time"
      else do
        let life ← s.life.step cfg (.access simTime addr true)
        return if (s.life.cache.lookup cfg.geo addr).isSome then ⟨life, simTime + 1, s.history ++ [.touch addr]⟩
          else { s with life }
  | .insert simTime procId addr =>
      if simTime < s.next then .error "sim_time"
      else do
        let life ← s.life.step cfg (.insert simTime procId addr)
        return ⟨life, simTime + 1, s.history ++ [.touch addr]⟩
  | .invalidate addr => do
      let life ← s.life.step cfg (.invalidate addr)
      return ⟨life, s.next, s.history ++ [.drop addr]⟩

/-- A reference, which inserts the line if it misses, or an invalidation. -/
inductive LruReference where
  | reference (simTime procId : ℕ) (addr : Addr)
  | invalidate (addr : Addr)

/-- One reference. -/
def LruLife.refer (cfg : CacheConfig) (s : LruLife δ) : LruReference → Except String (LruLife δ)
  | .reference simTime procId addr => do
      let t ← s.step cfg (.access simTime addr)
      if (s.life.cache.lookup cfg.geo addr).isSome then return t else t.step cfg (.insert simTime procId addr)
  | .invalidate addr => s.step cfg (.invalidate addr)

/-- The uses of the tags of a set. -/
def usesOf (geo : Geometry) (set : Addr) (history : List (Use Addr)) : List (Use Addr) :=
  (history.filter fun u => geo.set u.key == set).map (Use.map geo.tag)

/-- The tags of a set that should be in the cache, most recently touched first. -/
def LruLife.recency (cfg : CacheConfig) (s : LruLife δ) (set : Addr) : List Addr :=
  stack cfg.assoc (usesOf cfg.geo set s.history)

/-- `*repl_line_addr` of an insertion. -/
def replLineAddr (replaced : Option Addr) : Addr := replaced.getD 0

/-! ## The ways in their order -/

/-- The valid ways of a set, most recently touched first. -/
structure Cache.Ordered (geo : Geometry) (c : Cache δ) (set : Addr) (order : List ℕ) : Prop where
  nodup : order.Nodup
  mem : ∀ way, way ∈ order ↔ way < geo.assoc ∧ (c.entries set way).valid = true
  sorted : order.Pairwise fun way way' => (c.entries set way').lastAccessTime < (c.entries set way).lastAccessTime

/-- The tags of some ways. -/
def Cache.tags (c : Cache δ) (set : Addr) (order : List ℕ) : List Addr := order.map fun way => (c.entries set way).tag

/-- One way gets a line and a time, and the other ways stay. -/
structure Cache.Writes (c : Cache δ) (set : Addr) (way : ℕ) (tag : Addr) (time : ℕ) (d : Cache δ) : Prop where
  valid : (d.entries set way).valid = true
  tag : (d.entries set way).tag = tag
  time : (d.entries set way).lastAccessTime = time
  others : ∀ set' way', ¬ (set' = set ∧ way' = way) → d.entries set' way' = c.entries set' way'

variable {geo : Geometry} {cfg : CacheConfig} {c d : Cache δ} {set set' addr tag : Addr} {way time simTime procId : ℕ}
  {order : List ℕ}

theorem Cache.Ordered.length_le (h : c.Ordered geo set order) : order.length ≤ geo.assoc := by
  have hsub : order ⊆ List.range geo.assoc := fun way hway => List.mem_range.mpr ((h.mem way).mp hway).1
  have hle := h.nodup.subperm hsub |>.length_le
  rwa [List.length_range] at hle

/-- A set that is not full has an invalid way. -/
theorem Cache.Ordered.length_lt_iff (h : c.Ordered geo set order) :
    order.length < geo.assoc ↔ ∃ way < geo.assoc, (c.entries set way).valid = false := by
  constructor
  · intro hlt
    by_contra hnone
    have hsub : List.range geo.assoc ⊆ order := by
      intro way hway
      have hway := List.mem_range.mp hway
      refine (h.mem way).mpr ⟨hway, ?_⟩
      by_contra hinvalid
      exact hnone ⟨way, hway, by simpa using hinvalid⟩
    have hle := (List.nodup_range.subperm hsub).length_le
    rw [List.length_range] at hle
    omega
  · rintro ⟨way, hway, hinvalid⟩
    have hnot : way ∉ order := by
      intro hmem
      rw [((h.mem way).mp hmem).2] at hinvalid
      cases hinvalid
    have hsub : way :: order ⊆ List.range geo.assoc := by
      intro way' hway'
      rcases List.mem_cons.mp hway' with rfl | hway'
      · exact List.mem_range.mpr hway
      · exact List.mem_range.mpr ((h.mem way').mp hway').1
    have hle := ((List.nodup_cons.mpr ⟨hnot, h.nodup⟩).subperm hsub).length_le
    rw [List.length_range, List.length_cons] at hle
    omega

/-- A touch moves the way to the front. -/
theorem Cache.Ordered.write (h : c.Ordered geo set order) (hw : c.Writes set way tag time d) (hway : way < geo.assoc)
    (htime : ∀ way' ∈ order, (c.entries set way').lastAccessTime < time) :
    d.Ordered geo set (way :: order.filter (· ≠ way)) := by
  have hother (way' : ℕ) (hne : way' ≠ way) : d.entries set way' = c.entries set way' := hw.others _ _ fun hsame => hne hsame.2
  refine ⟨?_, ?_, ?_⟩
  · refine List.nodup_cons.mpr ⟨?_, h.nodup.filter _⟩
    simp
  · intro way'
    rw [List.mem_cons, List.mem_filter, h.mem]
    by_cases hsame : way' = way
    · rw [hsame]
      exact iff_of_true (.inl rfl) ⟨hway, hw.valid⟩
    · rw [hother way' hsame]
      simp [hsame]
  · refine List.pairwise_cons.mpr ⟨?_, (h.sorted.sublist List.filter_sublist).imp_of_mem ?_⟩
    · intro way' hway'
      obtain ⟨hmem, hne⟩ := List.mem_filter.mp hway'
      rw [hw.time, hother way' (by simpa using hne)]
      exact htime way' hmem
    · intro way' way'' hway' hway'' hlt
      rw [hother way' (by simpa using (List.mem_filter.mp hway').2), hother way'' (by simpa using (List.mem_filter.mp hway'').2)]
      exact hlt

/-- The other sets stay as they were. -/
theorem Cache.Ordered.congr (h : c.Ordered geo set order) (hsame : ∀ way, d.entries set way = c.entries set way) :
    d.Ordered geo set order :=
  ⟨h.nodup, fun way => by rw [h.mem, hsame], by simpa only [hsame] using h.sorted⟩

theorem Cache.tags_congr (hsame : ∀ way ∈ order, d.entries set way = c.entries set way) : d.tags set order = c.tags set order :=
  List.map_congr_left fun way hway => by rw [hsame way hway]

theorem Cache.Writes.tags (hw : c.Writes set way tag time d) :
    d.tags set (way :: order.filter (· ≠ way)) = tag :: c.tags set (order.filter (· ≠ way)) := by
  unfold Cache.tags
  rw [List.map_cons, hw.tag]
  congr 1
  refine List.map_congr_left fun way' hway' => ?_
  rw [hw.others _ _ fun hsame => by simp [hsame.2] at hway']

/-- Where tags are unique, taking a way out takes its tag out. -/
theorem Cache.Ordered.tags_filter (h : c.Ordered geo set order) (hunique : c.Unique geo) (hway : way ∈ order) :
    c.tags set (order.filter (· ≠ way)) = (c.tags set order).filter (· ≠ (c.entries set way).tag) := by
  unfold Cache.tags
  rw [List.filter_map]
  congr 1
  refine List.filter_congr fun way' hway' => ?_
  have hboth := (h.mem way').mp hway'
  have hvalid := (h.mem way).mp hway
  simp only [Function.comp_apply, decide_eq_decide, ne_eq, not_iff_not]
  constructor
  · rintro rfl
    rfl
  · exact hunique _ _ _ hboth.1 hvalid.1 hboth.2 hvalid.2

theorem Cache.Ordered.not_mem_filter_eq (hnot : way ∉ order) : order.filter (· ≠ way) = order := by
  rw [List.filter_eq_self]
  intro way' hway'
  have hne : way' ≠ way := fun hsame => hnot (hsame ▸ hway')
  simpa using hne

theorem tags_not_mem_filter_eq {l : List Addr} (hnot : tag ∉ l) : l.filter (· ≠ tag) = l := by
  rw [List.filter_eq_self]
  intro tag' htag'
  have hne : tag' ≠ tag := fun hsame => hnot (hsame ▸ htag')
  simpa using hne

@[simp] theorem Cache.length_tags : (c.tags set order).length = order.length := List.length_map _

/-- The way for a new line: a free one, or the last one of the order. -/
def Cache.IsVictim (geo : Geometry) (order : List ℕ) (way : ℕ) : Prop :=
  way ∉ order ∧ order.length < geo.assoc ∨ order.length = geo.assoc ∧ order.getLast? = some way

theorem Cache.Ordered.hit_tags (h : c.Ordered geo set order) (hunique : c.Unique geo) (hway : way ∈ order)
    (hw : c.Writes set way (c.entries set way).tag time d) :
    d.tags set (way :: order.filter (· ≠ way)) = move geo.assoc (c.entries set way).tag (c.tags set order) := by
  rw [hw.tags, h.tags_filter hunique hway, move, List.take_of_length_le]
  rw [← h.tags_filter hunique hway, List.length_cons, Cache.length_tags]
  have hlt : (order.filter (· ≠ way)).length < order.length := by
    rw [List.length_filter_lt_length_iff_exists]
    exact ⟨way, hway, by simp⟩
  have hle := h.length_le
  omega

theorem Cache.Ordered.insert_tags (h : c.Ordered geo set order) (hassoc : 0 < geo.assoc) (hw : c.Writes set way tag time d)
    (habsent : tag ∉ c.tags set order) (hvictim : Cache.IsVictim geo order way) :
    d.tags set (way :: order.filter (· ≠ way)) = move geo.assoc tag (c.tags set order) := by
  rw [hw.tags, move, tags_not_mem_filter_eq habsent]
  rcases hvictim with ⟨hnot, hlt⟩ | ⟨hfull, hlast⟩
  · rw [Cache.Ordered.not_mem_filter_eq hnot, List.take_of_length_le]
    rw [List.length_cons, Cache.length_tags]
    exact hlt
  · obtain ⟨front, rfl⟩ := List.getLast?_eq_some_iff.mp hlast
    have hnot : way ∉ front := by
      have hnodup := h.nodup
      rw [List.nodup_append] at hnodup
      exact fun hmem => hnodup.2.2 way hmem way (by simp) rfl
    obtain ⟨n, hn⟩ := Nat.exists_eq_add_of_lt hassoc
    rw [List.length_append, List.length_singleton] at hfull
    rw [List.filter_append, Cache.Ordered.not_mem_filter_eq hnot, List.filter_cons_of_neg (by simp), List.filter_nil,
      List.append_nil, hn, Nat.zero_add, List.take_succ_cons]
    unfold Cache.tags
    rw [List.map_append, List.take_left']
    rw [List.length_map]
    omega

/-- The search of the true LRU finds it. -/
theorem Cache.Ordered.victim (h : c.Ordered geo set order) (hpolicy : geo.replPolicy = .trueLru) (hassoc : 0 < geo.assoc)
    (htime : ∀ way, (c.entries set way).lastAccessTime < maxCtr) :
    Cache.IsVictim geo order (c.findReplEntry geo set) := by
  unfold Cache.findReplEntry
  rw [hpolicy]
  dsimp only
  cases hfind : geo.ways.find? fun way => !(c.entries set way).valid with
  | some way =>
      have hinvalid := List.find?_some hfind
      have hway := Geometry.mem_ways.mp (List.mem_of_find?_eq_some hfind)
      simp only [Bool.not_eq_true'] at hinvalid
      refine .inl ⟨?_, h.length_lt_iff.mpr ⟨way, hway, hinvalid⟩⟩
      intro hmem
      rw [Option.getD_some, h.mem, hinvalid] at hmem
      cases hmem.2
  | none =>
      rw [Option.getD_none]
      have hvalid : ∀ way < geo.assoc, (c.entries set way).valid = true := by
        intro way hway
        simpa using List.find?_eq_none.mp hfind way (Geometry.mem_ways.mpr hway)
      have hfull : order.length = geo.assoc := by
        refine Nat.le_antisymm h.length_le (Nat.le_of_not_lt fun hlt => ?_)
        obtain ⟨way, hway, hinvalid⟩ := h.length_lt_iff.mp hlt
        rw [hvalid way hway] at hinvalid
        cases hinvalid
      refine .inr ⟨hfull, ?_⟩
      have hne : order ≠ [] := by
        rintro rfl
        exact absurd hfull (Nat.ne_of_lt hassoc)
      obtain ⟨front, last, rfl⟩ := List.eq_nil_or_concat order |>.resolve_left hne
      rw [List.concat_eq_append] at h ⊢
      rw [List.getLast?_concat, Option.some.injEq]
      have hlast := (h.mem last).mp (by simp)
      unfold Cache.oldest
      rcases Argmin.scan_spec (fun way => if true then (c.entries set way).lastAccessTime else maxCtr)
        geo.ways 0 0 maxCtr with ⟨-, hge⟩ | ⟨before, way, after, hways, hscan, -, hleft⟩
      · have hlt := htime last
        have hle := hge last (Geometry.mem_ways.mpr hlast.1)
        simp only [if_true] at hle
        omega
      · rw [hscan, Nat.zero_add]
        have hway : before.length = way := by
          have hget : geo.ways[before.length]? = some way := by rw [hways]; simp
          have hlt : before.length < geo.assoc := by
            have hlength := congrArg List.length hways
            simp only [Geometry.ways, List.length_range, List.length_append, List.length_cons] at hlength
            omega
          rw [Geometry.ways, List.getElem?_range hlt] at hget
          exact Option.some.inj hget
        rw [hway]
        -- the last way is older than every other one
        by_contra hother
        have hmem : way < geo.assoc := Geometry.mem_ways.mp (by rw [hways]; simp)
        have hfront : way ∈ front := by
          have hin := (h.mem way).mpr ⟨hmem, hvalid way hmem⟩
          rw [List.mem_append, List.mem_singleton] at hin
          exact hin.resolve_right fun hsame => hother hsame.symm
        have holder := (List.pairwise_append.mp h.sorted).2.2 way hfront last (by simp)
        have hlastIn : last ∈ before ++ way :: after := hways ▸ Geometry.mem_ways.mpr hlast.1
        simp only [if_true] at hleft
        rcases List.mem_append.mp hlastIn with hin | hin
        · have := hleft.before_gt last hin
          omega
        · rcases List.mem_cons.mp hin with rfl | hin
          · exact hother rfl
          · have := hleft.after_ge last hin
            omega

/-! ## Touches -/

/-- A hit that updates the replacement state touches its way. -/
theorem Cache.access_writes (hpolicy : geo.replPolicy = .trueLru) (hlookup : c.lookup geo addr = some way)
    (hvalid : (c.entries (geo.set addr) way).valid = true) :
    c.Writes (geo.set addr) way (c.entries (geo.set addr) way).tag time (c.access geo time addr true).2 := by
  unfold Cache.access Cache.updateReplPolicy
  rw [hlookup, hpolicy]
  dsimp only
  rw [if_pos rfl]
  refine ⟨?_, ?_, ?_, fun set' way' hother => ?_⟩
  · rw [Cache.setEntry_self, Cache.setEntry_self]
    exact hvalid
  · rw [Cache.setEntry_self, Cache.setEntry_self]
  · rw [Cache.setEntry_self]
  · rw [Cache.setEntry_other hother, Cache.setEntry_other hother]

theorem Cache.access_miss (hlookup : c.lookup geo addr = none) (time : ℕ) (updateRepl : Bool) :
    (c.access geo time addr updateRepl).2 = c := by
  unfold Cache.access
  rw [hlookup]

theorem Cache.insertWay_writes (hpolicy : geo.replPolicy = .trueLru) (procId : ℕ) (isPrefetch : Bool) :
    c.Writes (geo.set addr) way (geo.tag addr) time (c.insertWay geo time procId addr way .default isPrefetch) := by
  unfold Cache.insertWay Cache.updateReplPolicy
  rw [hpolicy]
  dsimp only
  refine ⟨?_, ?_, ?_, fun set' way' hother => ?_⟩
  · rw [Cache.setEntry_self, Cache.setEntry_self]
  · rw [Cache.setEntry_self, Cache.setEntry_self]
  · rw [Cache.setEntry_self]
  · rw [Cache.setEntry_other hother, Cache.setEntry_other hother]

variable {s t : LruLife δ} {life : CacheLife δ} {u : Use Addr}

theorem usesOf_concat_self (history : List (Use Addr)) (hset : geo.set u.key = set) :
    usesOf geo set (history ++ [u]) = usesOf geo set history ++ [u.map geo.tag] := by
  unfold usesOf
  rw [List.filter_append, List.map_append, List.filter_cons_of_pos (by simpa using hset)]
  rfl

theorem usesOf_concat_other (history : List (Use Addr)) (hset : geo.set u.key ≠ set) :
    usesOf geo set (history ++ [u]) = usesOf geo set history := by
  unfold usesOf
  rw [List.filter_append, List.filter_cons_of_neg (by simpa using hset), List.filter_nil, List.append_nil]

/-- Each set is its stack of tags, and the lines were touched before the next touch. -/
structure LruLife.Inv (cfg : CacheConfig) (s : LruLife δ) : Prop where
  sound : s.life.Sound cfg
  ordered : ∀ set, ∃ order, s.life.cache.Ordered cfg.geo set order ∧ s.life.cache.tags set order = s.recency cfg set
  next : ∀ set way, (s.life.cache.entries set way).valid = true → (s.life.cache.entries set way).lastAccessTime < s.next

/-- A touch keeps the sets and the stacks together if it does so for the tags of its set. -/
theorem LruLife.Inv.touch (h : s.Inv cfg) (hsound : life.Sound cfg)
    (hw : s.life.cache.Writes (cfg.geo.set addr) way tag time life.cache) (hway : way < cfg.assoc) (htime : s.next ≤ time)
    (htags : ∀ order, s.life.cache.Ordered cfg.geo (cfg.geo.set addr) order →
      life.cache.tags (cfg.geo.set addr) (way :: order.filter (· ≠ way)) =
        move cfg.assoc (cfg.geo.tag addr) (s.life.cache.tags (cfg.geo.set addr) order)) :
    LruLife.Inv cfg ⟨life, time + 1, s.history ++ [.touch addr]⟩ := by
  refine ⟨hsound, fun set => ?_, fun set' way' hvalid => ?_⟩
  · obtain ⟨order, hordered, hrecency⟩ := h.ordered set
    unfold LruLife.recency at hrecency ⊢
    by_cases hset : cfg.geo.set addr = set
    · subst hset
      refine ⟨way :: order.filter (· ≠ way), hordered.write hw hway ?_, ?_⟩
      · intro way' hway'
        have hlt := h.next _ way' ((hordered.mem way').mp hway').2
        omega
      · dsimp only
        have hset : cfg.geo.set (Use.touch addr).key = cfg.geo.set addr := rfl
        rw [htags order hordered, hrecency, usesOf_concat_self _ hset, stack_concat]
        rfl
    · have hsame (way' : ℕ) : life.cache.entries set way' = s.life.cache.entries set way' :=
        hw.others _ _ fun hsame => hset hsame.1.symm
      refine ⟨order, hordered.congr hsame, ?_⟩
      dsimp only
      rw [Cache.tags_congr fun way' _ => hsame way', hrecency, usesOf_concat_other _ hset]
  · dsimp only at hvalid ⊢
    by_cases hsame : set' = cfg.geo.set addr ∧ way' = way
    · rw [hsame.1, hsame.2, hw.time]
      omega
    · rw [hw.others _ _ hsame] at hvalid ⊢
      have hlt := h.next set' way' hvalid
      omega

theorem Cache.Ordered.mem_tags_iff (hordered : c.Ordered geo (geo.set addr) order) :
    geo.tag addr ∈ c.tags (geo.set addr) order ↔ c.lookup geo addr ≠ none := by
  unfold Cache.tags
  rw [List.mem_map, Ne, Cache.lookup_eq_none_iff, Cache.Absent]
  constructor
  · rintro ⟨way, hway, htag⟩ habsent
    obtain ⟨hlt, hvalid⟩ := (hordered.mem way).mp hway
    exact habsent way hlt ⟨hvalid, htag⟩
  · intro hheld
    by_contra hnone
    exact hheld fun way hlt hholds => hnone ⟨way, (hordered.mem way).mpr ⟨hlt, hholds.1⟩, hholds.2⟩

theorem LruLife.init_inv (hassoc : 0 < cfg.assoc) (data : Addr → ℕ → δ) (ways : CoreWays) (rands : ℕ → ℕ) :
    (LruLife.init data ways rands).Inv cfg := by
  refine ⟨CacheLife.init_sound hassoc data ways rands, fun set => ⟨[], ⟨List.nodup_nil, fun way => ?_, List.Pairwise.nil⟩, rfl⟩,
    fun set way hvalid => ?_⟩
  · refine iff_of_false (by simp) fun hvalid => ?_
    cases hvalid.2
  · cases hvalid

/-- What a successful insertion of the life does. -/
theorem CacheLife.step_insert {a b : CacheLife δ} (hpolicy : cfg.policy = .own .trueLru)
    (h : a.step cfg (.insert simTime procId addr) = .ok b) : a.cache.lookup cfg.geo addr = none ∧
      let way := a.cache.findReplEntry cfg.geo (cfg.geo.set addr)
      b = ⟨a.cache.insertWay cfg.geo simTime procId addr way .default false, a.ways,
        .inserted (cfg.geo.lineAddr addr) (a.cache.entries (cfg.geo.set addr) way).data
          (a.cache.replaced (cfg.geo.set addr) way) :: a.log⟩ := by
  rw [CacheLife.step, CacheLife.insertWith] at h
  dsimp only at h
  by_cases hmiss : (a.cache.lookup cfg.geo addr).isSome = true
  · rw [if_pos hmiss] at h
    cases h
  by_cases hprocId : cfg.cores ≤ procId
  · rw [if_neg hmiss, if_pos hprocId] at h
    cases h
  by_cases htime : maxCtr ≤ simTime
  · rw [if_neg hmiss, if_neg hprocId, if_pos htime] at h
    cases h
  rw [if_neg hmiss, if_neg hprocId, if_neg htime, CacheLife.findReplEntry, hpolicy] at h
  cases h
  exact ⟨by simpa using hmiss, rfl⟩

theorem LruLife.Inv.access (h : s.Inv cfg) (hpolicy : cfg.policy = .own .trueLru) (hassoc : 0 < cfg.assoc)
    (hstep : s.step cfg (.access simTime addr) = .ok t) : t.Inv cfg ∧
      (s.life.cache.lookup cfg.geo addr = none → t = s) ∧
      (s.life.cache.lookup cfg.geo addr ≠ none → t.history = s.history ++ [.touch addr]) := by
  have hgeo : cfg.geo.replPolicy = .trueLru := by
    unfold CacheConfig.geo
    rw [hpolicy]
    rfl
  rw [LruLife.step] at hstep
  by_cases htime : simTime < s.next
  · rw [if_pos htime] at hstep
    cases hstep
  rw [if_neg htime] at hstep
  obtain ⟨life, hlife, ht⟩ := Execution.bind_eq_ok.mp hstep
  have hsound := h.sound.step hassoc hlife
  rw [CacheLife.step] at hlife
  by_cases hmax : maxCtr ≤ simTime
  · rw [if_pos hmax] at hlife
    cases hlife
  rw [if_neg hmax] at hlife
  cases hlife
  cases hlookup : s.life.cache.lookup cfg.geo addr with
  | none =>
      rw [hlookup] at ht
      cases ht
      rw [Cache.access_miss hlookup]
      exact ⟨h, fun _ => rfl, fun hne => absurd rfl hne⟩
  | some way =>
      rw [hlookup] at ht
      cases ht
      obtain ⟨hway, hholds⟩ := h.sound.unique.lookup_eq_some_iff.mp hlookup
      have hw : s.life.cache.Writes _ way _ simTime _ := Cache.access_writes hgeo hlookup hholds.1
      refine ⟨h.touch hsound hw hway (Nat.le_of_not_lt htime) fun order hordered => ?_,
        (by simp), fun _ => rfl⟩
      have hmem := (hordered.mem way).mpr ⟨hway, hholds.1⟩
      rw [← hholds.2]
      exact hordered.hit_tags h.sound.unique hmem hw

theorem LruLife.Inv.insert (h : s.Inv cfg) (hpolicy : cfg.policy = .own .trueLru) (hassoc : 0 < cfg.assoc)
    (hstep : s.step cfg (.insert simTime procId addr) = .ok t) : t.Inv cfg ∧ t.history = s.history ++ [.touch addr] ∧
      ∃ way data, way < cfg.assoc ∧
        (∀ order, s.life.cache.Ordered cfg.geo (cfg.geo.set addr) order → Cache.IsVictim cfg.geo order way) ∧
        t.life.log = .inserted (cfg.geo.lineAddr addr) data (s.life.cache.replaced (cfg.geo.set addr) way) :: s.life.log := by
  have hgeo : cfg.geo.replPolicy = .trueLru := by
    unfold CacheConfig.geo
    rw [hpolicy]
    rfl
  rw [LruLife.step] at hstep
  by_cases htime : simTime < s.next
  · rw [if_pos htime] at hstep
    cases hstep
  rw [if_neg htime] at hstep
  obtain ⟨life, hlife, ht⟩ := Execution.bind_eq_ok.mp hstep
  cases ht
  have hsound := h.sound.step hassoc hlife
  obtain ⟨hlookup, rfl⟩ := CacheLife.step_insert hpolicy hlife
  have hvictim (order : List ℕ) (hordered : s.life.cache.Ordered cfg.geo (cfg.geo.set addr) order) :=
    hordered.victim hgeo hassoc fun way => (h.sound.good.entry _ way).time
  have hw : s.life.cache.Writes (cfg.geo.set addr) (s.life.cache.findReplEntry cfg.geo (cfg.geo.set addr)) _ simTime _ :=
    Cache.insertWay_writes hgeo procId false
  have hway : s.life.cache.findReplEntry cfg.geo (cfg.geo.set addr) < cfg.assoc :=
    Cache.findReplEntry_lt cfg.geo hassoc (h.sound.good.ctr _)
  refine ⟨h.touch hsound hw hway (Nat.le_of_not_lt htime) fun order hordered => ?_, rfl, _, _, hway, hvictim, rfl⟩
  refine hordered.insert_tags hassoc hw (fun hmem => ?_) (hvictim order hordered)
  exact hordered.mem_tags_iff.mp hmem hlookup

theorem LruLife.Inv.invalidate (h : s.Inv cfg) (hassoc : 0 < cfg.assoc) (hstep : s.step cfg (.invalidate addr) = .ok t) :
    t.Inv cfg ∧ t.history = s.history ++ [.drop addr] := by
  rw [LruLife.step] at hstep
  obtain ⟨life, hlife, ht⟩ := Execution.bind_eq_ok.mp hstep
  cases ht
  have hsound := h.sound.step hassoc hlife
  cases hlife
  refine ⟨⟨hsound, fun set => ?_, fun set way hvalid => ?_⟩, rfl⟩
  · obtain ⟨order, hordered, hrecency⟩ := h.ordered set
    unfold LruLife.recency at hrecency ⊢
    dsimp only
    by_cases hset : cfg.geo.set addr = set
    · subst hset
      have hkept (way : ℕ) (hway : way ∈ order) : s.life.cache.Reaches cfg.geo addr (cfg.geo.set addr) way ↔
          (s.life.cache.entries (cfg.geo.set addr) way).tag = cfg.geo.tag addr := by
        obtain ⟨hlt, hvalid⟩ := (hordered.mem way).mp hway
        exact ⟨fun h => h.2.2.1, fun htag => ⟨rfl, hlt, htag, hvalid⟩⟩
      have hsame : ∀ way ∈ order.filter fun way => (s.life.cache.entries (cfg.geo.set addr) way).tag ≠ cfg.geo.tag addr,
          (s.life.cache.invalidate cfg.geo addr).entries (cfg.geo.set addr) way =
            s.life.cache.entries (cfg.geo.set addr) way := by
        intro way hway
        obtain ⟨hmem, hne⟩ := List.mem_filter.mp hway
        rw [Cache.invalidate_other]
        rw [hkept way hmem]
        simpa using hne
      refine ⟨order.filter fun way => (s.life.cache.entries (cfg.geo.set addr) way).tag ≠ cfg.geo.tag addr,
        ⟨hordered.nodup.filter _, fun way => ?_, ?_⟩, ?_⟩
      · rw [List.mem_filter, Cache.invalidate_valid_iff, hordered.mem]
        by_cases hmem : way ∈ order
        · rw [hkept way hmem]
          simp [and_assoc]
        · have hnot : ¬ (way < cfg.geo.assoc ∧ (s.life.cache.entries (cfg.geo.set addr) way).valid = true) :=
            fun hin => hmem ((hordered.mem way).mpr hin)
          exact iff_of_false (fun hin => hnot hin.1) fun hin => hnot ⟨hin.1, hin.2.1⟩
      · refine (hordered.sorted.sublist List.filter_sublist).imp_of_mem fun hway hway' hlt => ?_
        rw [hsame _ hway, hsame _ hway']
        exact hlt
      · have hset : cfg.geo.set (Use.drop addr).key = cfg.geo.set addr := rfl
        rw [Cache.tags_congr hsame, usesOf_concat_self _ hset, stack_concat, ← hrecency]
        unfold Cache.tags
        rw [Use.map, Use.apply, List.filter_map]
        rfl
    · have hsame (way : ℕ) : (s.life.cache.invalidate cfg.geo addr).entries set way = s.life.cache.entries set way :=
        Cache.invalidate_other fun hreached => hset hreached.1.symm
      refine ⟨order, hordered.congr hsame, ?_⟩
      rw [Cache.tags_congr fun way _ => hsame way, hrecency, usesOf_concat_other _ hset]
  · dsimp only at hvalid ⊢
    obtain ⟨hbefore, hnot⟩ := Cache.invalidate_valid_iff.mp hvalid
    rw [Cache.invalidate_other hnot]
    exact h.next set way hbefore

/-! ## The law -/

theorem LruLife.Inv.step (h : s.Inv cfg) (hpolicy : cfg.policy = .own .trueLru) (hassoc : 0 < cfg.assoc) {call : LruCall}
    (hstep : s.step cfg call = .ok t) : t.Inv cfg := by
  cases call with
  | access simTime addr => exact (h.access hpolicy hassoc hstep).1
  | insert simTime procId addr => exact (h.insert hpolicy hassoc hstep).1
  | invalidate addr => exact (h.invalidate hassoc hstep).1

/-- The use that a reference makes of its line. -/
def LruReference.use : LruReference → Use Addr
  | .reference _ _ addr => .touch addr
  | .invalidate addr => .drop addr

/-- A reference touches its line, whether it hits or not. -/
theorem LruLife.Inv.refer (h : s.Inv cfg) (hpolicy : cfg.policy = .own .trueLru) (hassoc : 0 < cfg.assoc)
    {r : LruReference} (hstep : s.refer cfg r = .ok t) : t.Inv cfg ∧ t.history = s.history ++ [r.use] := by
  cases r with
  | reference simTime procId addr =>
      rw [LruLife.refer] at hstep
      obtain ⟨m, haccess, hstep⟩ := Execution.bind_eq_ok.mp hstep
      obtain ⟨hm, hmiss, hhit⟩ := h.access hpolicy hassoc haccess
      by_cases hlookup : (s.life.cache.lookup cfg.geo addr).isSome = true
      · rw [if_pos hlookup] at hstep
        cases hstep
        refine ⟨hm, hhit fun hnone => ?_⟩
        rw [hnone] at hlookup
        cases hlookup
      · rw [if_neg hlookup] at hstep
        obtain ⟨ht, hhistory, -⟩ := hm.insert hpolicy hassoc hstep
        rw [hmiss (by simpa using hlookup)] at hhistory
        exact ⟨ht, hhistory⟩
  | invalidate addr => exact h.invalidate hassoc hstep

theorem LruLife.Inv.run_refer (h : s.Inv cfg) (hpolicy : cfg.policy = .own .trueLru) (hassoc : 0 < cfg.assoc)
    {rs : List LruReference} (hrun : Execution.run (LruLife.refer cfg) s rs = .ok t) :
    t.Inv cfg ∧ t.history = s.history ++ rs.map LruReference.use := by
  induction rs generalizing s with
  | nil =>
      cases hrun
      simpa using h
  | cons r rs ih =>
      obtain ⟨m, hm, hrun⟩ := Execution.run_cons_eq_ok.mp hrun
      obtain ⟨hinv, hhistory⟩ := h.refer hpolicy hassoc hm
      obtain ⟨ht, hrest⟩ := ih hinv hrun
      refine ⟨ht, ?_⟩
      rw [hrest, hhistory, List.map_cons, List.append_assoc]
      rfl

/-- The addresses of a set that were touched, as tags. -/
def touchedTags (geo : Geometry) (set : Addr) (touched : List Addr) : List Addr :=
  (touched.filter fun addr => geo.set addr == set).map geo.tag

/-- Without invalidations a set keeps the tags that were touched most recently. -/
theorem LruLife.recency_eq (touched : List Addr) (h : s.history = touched.map Use.touch) (set : Addr) :
    s.recency cfg set = (recent (touchedTags cfg.geo set touched)).take cfg.assoc := by
  unfold LruLife.recency usesOf touchedTags
  rw [h, ← stack_touches, List.filter_map, List.map_map, List.map_map]
  rfl

/-- What an insertion reports of a set with some tags. -/
structure Reports (geo : Geometry) (set : Addr) (tags : List Addr) (line : Addr) : Prop where
  free : tags.length < geo.assoc → line = 0
  /-- The least recently touched line goes if no way is free. -/
  full : tags.length = geo.assoc → geo.lineAddr line = line ∧ geo.set line = set ∧ tags.getLast? = some (geo.tag line)
  zero : line = 0 ↔ tags.length < geo.assoc ∨ set = geo.set 0 ∧ tags.getLast? = some (geo.tag 0)

theorem LruLife.Inv.reports (h : s.Inv cfg) (hpolicy : cfg.policy = .own .trueLru) (hassoc : 0 < cfg.assoc)
    (hstep : s.step cfg (.insert simTime procId addr) = .ok t) : ∃ data replaced,
      t.life.log = .inserted (cfg.geo.lineAddr addr) data replaced :: s.life.log ∧
        Reports cfg.geo (cfg.geo.set addr) (s.recency cfg (cfg.geo.set addr)) (replLineAddr replaced) := by
  obtain ⟨-, -, way, data, hway, hvictim, hlog⟩ := h.insert hpolicy hassoc hstep
  obtain ⟨order, hordered, hrecency⟩ := h.ordered (cfg.geo.set addr)
  refine ⟨data, _, hlog, ?_⟩
  rw [← hrecency]
  have hlength : (s.life.cache.tags (cfg.geo.set addr) order).length ≤ cfg.geo.assoc := by
    rw [Cache.length_tags]
    exact hordered.length_le
  have hfree : (s.life.cache.tags (cfg.geo.set addr) order).length < cfg.geo.assoc →
      replLineAddr (s.life.cache.replaced (cfg.geo.set addr) way) = 0 := by
    rw [Cache.length_tags]
    intro hlt
    rcases hvictim order hordered with ⟨hnot, -⟩ | ⟨hfull, -⟩
    · unfold Cache.replaced
      rw [if_neg fun hvalid => hnot ((hordered.mem way).mpr ⟨hway, hvalid⟩)]
      rfl
    · omega
  have hfull : (s.life.cache.tags (cfg.geo.set addr) order).length = cfg.geo.assoc →
      cfg.geo.lineAddr (replLineAddr (s.life.cache.replaced (cfg.geo.set addr) way)) =
          replLineAddr (s.life.cache.replaced (cfg.geo.set addr) way) ∧
        cfg.geo.set (replLineAddr (s.life.cache.replaced (cfg.geo.set addr) way)) = cfg.geo.set addr ∧
        (s.life.cache.tags (cfg.geo.set addr) order).getLast? =
          some (cfg.geo.tag (replLineAddr (s.life.cache.replaced (cfg.geo.set addr) way))) := by
    rw [Cache.length_tags]
    intro hfull
    rcases hvictim order hordered with ⟨-, hlt⟩ | ⟨-, hlast⟩
    · omega
    · have hvalid := ((hordered.mem way).mp (List.mem_of_getLast? hlast)).2
      have hgood := h.sound.good.entry (cfg.geo.set addr) way
      unfold Cache.replaced Cache.tags
      rw [if_pos hvalid, List.getLast?_map, hlast]
      exact ⟨hgood.base hvalid, hgood.set hvalid, congrArg some (hgood.tag hvalid).symm⟩
  refine ⟨hfree, hfull, ?_⟩
  rcases Nat.lt_or_eq_of_le hlength with hlt | heq
  · exact iff_of_true (hfree hlt) (.inl hlt)
  · obtain ⟨hbase, hset, hlast⟩ := hfull heq
    constructor
    · intro hzero
      rw [hzero] at hset hlast
      exact .inr ⟨hset.symm, hlast⟩
    · rintro (hlt | ⟨hzero, htag⟩)
      · exact absurd heq (Nat.ne_of_lt hlt)
      · rw [hlast, Option.some.injEq] at htag
        have hline := Geometry.sameLine_iff.mp ⟨hset.trans hzero, htag⟩
        rw [hbase] at hline
        rw [hline]
        unfold Geometry.lineAddr
        exact BitVec.zero_and

/-- The true LRU: over every run each set is the stack of its most recently touched tags, an insertion reports the
least recently touched line, and a cache with more ways has every line that one with fewer has. -/
theorem LruLife.run_stack (cfg : CacheConfig) (hpolicy : cfg.policy = .own .trueLru) (hassoc : 0 < cfg.assoc)
    (data : Addr → ℕ → δ) (ways : CoreWays) (rands : ℕ → ℕ) :
    (∀ calls s, Execution.run (LruLife.step cfg) (LruLife.init data ways rands) calls = .ok s →
      (∀ set, ∃ order, s.life.cache.Ordered cfg.geo set order ∧ s.life.cache.tags set order = s.recency cfg set) ∧
      (∀ touched, s.history = touched.map Use.touch → ∀ set,
        s.recency cfg set = (recent (touchedTags cfg.geo set touched)).take cfg.assoc) ∧
      ∀ simTime procId addr t, s.step cfg (.insert simTime procId addr) = .ok t → ∃ data replaced,
        t.life.log = .inserted (cfg.geo.lineAddr addr) data replaced :: s.life.log ∧
          Reports cfg.geo (cfg.geo.set addr) (s.recency cfg (cfg.geo.set addr)) (replLineAddr replaced)) ∧
    ∀ assoc' ≥ cfg.assoc, ∀ (references : List LruReference) (s s' : LruLife δ),
      Execution.run (LruLife.refer cfg) (LruLife.init data ways rands) references = .ok s →
      Execution.run (LruLife.refer { cfg with assoc := assoc' }) (LruLife.init data ways rands) references = .ok s' →
      ∀ addr, s.life.cache.lookup cfg.geo addr ≠ none →
        s'.life.cache.lookup { cfg.geo with assoc := assoc' } addr ≠ none := by
  refine ⟨fun calls s hrun => ?_, fun assoc' hle references s s' hrun hrun' addr => ?_⟩
  · have hinv : s.Inv cfg := Execution.run_invariant (fun _ _ _ hs hstep => hs.step hpolicy hassoc hstep)
      (LruLife.init_inv hassoc data ways rands) hrun
    exact ⟨hinv.ordered, fun touched => LruLife.recency_eq touched, fun _ _ _ _ => hinv.reports hpolicy hassoc⟩
  · have hassoc' : 0 < { cfg with assoc := assoc' }.assoc := Nat.lt_of_lt_of_le hassoc hle
    obtain ⟨hinv, hhistory⟩ := (LruLife.init_inv hassoc data ways rands).run_refer hpolicy hassoc hrun
    obtain ⟨hinv', hhistory'⟩ := (LruLife.init_inv hassoc' data ways rands).run_refer hpolicy hassoc' hrun'
    obtain ⟨order, hordered, hrecency⟩ := hinv.ordered (cfg.geo.set addr)
    obtain ⟨order', hordered', hrecency'⟩ := hinv'.ordered (cfg.geo.set addr)
    intro hheld
    refine hordered'.mem_tags_iff.mp ?_
    have hmem := hordered.mem_tags_iff.mpr hheld
    rw [hrecency] at hmem
    refine hrecency' ▸ ?_
    unfold LruLife.recency at hmem ⊢
    rw [hhistory] at hmem
    rw [hhistory']
    exact (stack_initial hle _).subset hmem

/-- Two lines, of which the first is touched again. -/
theorem LruLife.run_stack_two :
    ∃ s : LruLife ℕ, Execution.run (LruLife.step ⟨2, 0, 6, 1, .own .trueLru⟩)
        (LruLife.init (fun _ way => way) ⟨fun _ => 0, fun _ => 0, fun _ => 0, fun _ => 0⟩ fun _ => 0)
        [.access 1 0x40, .insert 1 0 0x40, .insert 2 0 0x80, .access 3 0x40] = .ok s ∧
      ∃ order, s.life.cache.Ordered ⟨2, 0, 6, .trueLru⟩ 0 order ∧ s.life.cache.tags 0 order = [1, 2] := by
  obtain ⟨s, hrun, hrecency⟩ := Execution.map_eq_ok.mp (show
    (fun s : LruLife ℕ => s.recency ⟨2, 0, 6, 1, .own .trueLru⟩ 0) <$>
      Execution.run (LruLife.step ⟨2, 0, 6, 1, .own .trueLru⟩)
        (LruLife.init (fun _ way => way) ⟨fun _ => 0, fun _ => 0, fun _ => 0, fun _ => 0⟩ fun _ => 0)
        [.access 1 0x40, .insert 1 0 0x40, .insert 2 0 0x80, .access 3 0x40] = .ok [1, 2] by decide +kernel)
  obtain ⟨order, hordered, htags⟩ := ((LruLife.run_stack ⟨2, 0, 6, 1, .own .trueLru⟩ rfl (by decide) _ _ _).1 _ s hrun).1 0
  exact ⟨s, hrun, order, hordered, htags.trans hrecency⟩

/-- The line that a new line replaces, if any. -/
def LineEvent.replaced : LineEvent δ → Option Addr
  | .inserted _ _ replaced => replaced
  | .invalidated _ => none

/-- Where the line of address 0 is replaced, `repl_line_addr` is 0 although no way was free. -/
theorem LruLife.line_zero_replaced :
    ∃ s t : LruLife ℕ, Execution.run (LruLife.step ⟨1, 0, 6, 1, .own .trueLru⟩)
        (LruLife.init (fun _ way => way) ⟨fun _ => 0, fun _ => 0, fun _ => 0, fun _ => 0⟩ fun _ => 0)
        [.access 1 0, .insert 1 0 0] = .ok s ∧
      s.step ⟨1, 0, 6, 1, .own .trueLru⟩ (.insert 2 0 0x40) = .ok t ∧
      ¬ (replLineAddr (t.life.log.head?.bind LineEvent.replaced) = 0 ↔ ∃ way < 1, (s.life.cache.entries 0 way).valid = false) := by
  obtain ⟨s, hrun, hrest⟩ := Execution.bind_eq_ok.mp (show
    (Execution.run (LruLife.step ⟨1, 0, 6, 1, .own .trueLru⟩)
      (LruLife.init (fun _ way => way) ⟨fun _ => 0, fun _ => 0, fun _ => 0, fun _ => 0⟩ fun _ => 0)
      [.access 1 0, .insert 1 0 0] >>= fun s : LruLife ℕ =>
        (fun t : LruLife ℕ => (replLineAddr (t.life.log.head?.bind LineEvent.replaced), (s.life.cache.entries 0 0).valid)) <$>
          s.step ⟨1, 0, 6, 1, .own .trueLru⟩ (.insert 2 0 0x40)) = .ok (0, true) by decide +kernel)
  obtain ⟨t, hstep, hreport⟩ := Execution.map_eq_ok.mp hrest
  obtain ⟨hzero, hvalid⟩ := Prod.mk.inj hreport
  refine ⟨s, t, hrun, hstep, fun h => ?_⟩
  obtain ⟨way, hway, hinvalid⟩ := h.mp hzero
  rw [Nat.lt_one_iff.mp hway, hvalid] at hinvalid
  cases hinvalid

end Scarab.Memory
