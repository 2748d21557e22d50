import Scarab.Libs.Cache.Counters

/-! # The places of the replacement order

Where `cache_insert_replpos` puts a line in the order of a full set under `REPL_TRUE_LRU`. -/

namespace Scarab.Memory

variable {δ : Type} {geo : Geometry} {c d : Cache δ} {set addr : Addr} {way way' simTime procId place : ℕ} {isPrefetch : Bool}

/-! ## The oldest line -/

/-- The time of a line. -/
def Cache.time (c : Cache δ) (set : Addr) (way : ℕ) : ℕ := (c.entries set way).lastAccessTime

/-- The search for the oldest line ends at the first of the lowest time among those that `ok` allows. -/
theorem Cache.oldest_spec (ok : CacheEntry δ → Bool) (hsome : ∃ way < geo.assoc, ok (c.entries set way) = true ∧ c.time set way < maxCtr) :
    c.oldest geo set ok < geo.assoc ∧ ok (c.entries set (c.oldest geo set ok)) = true ∧
      c.time set (c.oldest geo set ok) < maxCtr ∧
      ∀ way < geo.assoc, ok (c.entries set way) = true → way ≠ c.oldest geo set ok →
        c.time set (c.oldest geo set ok) < c.time set way ∨
          c.time set (c.oldest geo set ok) = c.time set way ∧ c.oldest geo set ok < way := by
  obtain ⟨early, hsome, hok, hearly⟩ := hsome
  unfold Cache.oldest
  generalize hkey : (fun way => if ok (c.entries set way) then (c.entries set way).lastAccessTime else maxCtr) = key
  have hkeyOf (way : ℕ) : key way = if ok (c.entries set way) then c.time set way else maxCtr := by
    rw [← hkey]
    rfl
  rcases Argmin.scan_spec key geo.ways 0 0 maxCtr with ⟨-, hge⟩ | ⟨before, way, after, hways, hscan, hlt, hleft⟩
  · have hle := hge early (Geometry.mem_ways.mpr hsome)
    rw [hkeyOf, if_pos hok] at hle
    omega
  · have hlength := congrArg List.length hways
    simp only [Geometry.ways, List.length_range, List.length_append, List.length_cons] at hlength
    -- the ways before it are the smaller ones
    have hget (i : ℕ) (hi : i < geo.assoc) : (before ++ way :: after)[i]? = some i := by
      rw [← hways, Geometry.ways, List.getElem?_range hi]
    have hway : before.length = way := by
      have hat := hget before.length (by omega)
      rw [List.getElem?_append_right (Nat.le_refl _), Nat.sub_self] at hat
      exact (Option.some.inj hat).symm
    rw [hscan, Nat.zero_add, hway]
    have hok' : ok (c.entries set way) = true := by
      by_contra hnot
      rw [hkeyOf, if_neg hnot] at hlt
      exact absurd hlt (Nat.lt_irrefl _)
    have hkeyWay : key way = c.time set way := by rw [hkeyOf, if_pos hok']
    refine ⟨by omega, hok', by omega, fun other hother hokOther hne => ?_⟩
    have hkeyOther : key other = c.time set other := by rw [hkeyOf, if_pos hokOther]
    have hat := hget other hother
    by_cases hbefore : other < before.length
    · rw [List.getElem?_append_left hbefore] at hat
      have hgt := hleft.before_gt other (List.mem_of_getElem? hat)
      exact .inl (by omega)
    · obtain ⟨k, hk⟩ : ∃ k, other - before.length = k + 1 := ⟨other - before.length - 1, by omega⟩
      rw [List.getElem?_append_right (by omega), hk, List.getElem?_cons_succ] at hat
      have hge := hleft.after_ge other (List.mem_of_getElem? hat)
      omega

/-- A line goes out before another one. -/
def Cache.Before (c : Cache δ) (set : Addr) (way way' : ℕ) : Prop :=
  c.time set way < c.time set way' ∨ c.time set way = c.time set way' ∧ way < way'

/-- The victim of a full set goes out before all others. -/
theorem Cache.Filled.victim_iff (hfilled : c.Filled geo set) (hpolicy : geo.replPolicy = .trueLru) (hassoc : 0 < geo.assoc)
    (htime : ∀ way < geo.assoc, c.time set way < maxCtr) :
    c.findReplEntry geo set = way ↔ way < geo.assoc ∧ ∀ way' < geo.assoc, way' ≠ way → c.Before set way way' := by
  have hnone : (geo.ways.find? fun way => !(c.entries set way).valid) = none := by
    rw [List.find?_eq_none]
    intro way hway
    simp [hfilled way (Geometry.mem_ways.mp hway)]
  have hfind : c.findReplEntry geo set = c.oldest geo set fun _ => true := by
    unfold Cache.findReplEntry
    rw [hpolicy, hnone]
    rfl
  obtain ⟨hlt, -, -, hbefore⟩ := Cache.oldest_spec (fun _ => true) ⟨0, hassoc, rfl, htime 0 hassoc⟩
  rw [hfind]
  constructor
  · rintro rfl
    exact ⟨hlt, fun way' hway' hne => hbefore way' hway' rfl hne⟩
  · rintro ⟨hway, hall⟩
    by_contra hne
    have hone := hall _ hlt hne
    have hother := hbefore way hway rfl (Ne.symm hne)
    unfold Cache.Before at hone
    omega

/-! ## The sorted times -/

/-- In different times as many are earlier as stand before in the sorted order. -/
theorem countP_lt_insertionSort {times : List ℕ} (hnodup : times.Nodup) (place : ℕ) (hplace : place < times.length) :
    times.countP (fun t => decide (t < (times.insertionSort (· ≤ ·)).getD place 0)) = place := by
  have hperm := List.perm_insertionSort (· ≤ ·) times
  have hsorted : (times.insertionSort (· ≤ ·)).Pairwise (· < ·) :=
    (List.pairwise_insertionSort (· ≤ ·) times).imp₂ (fun _ _ hle hne => Nat.lt_of_le_of_ne hle hne) (hperm.nodup_iff.mpr hnodup)
  rw [← hperm.length_eq] at hplace
  rw [← hperm.countP_eq]
  generalize times.insertionSort (· ≤ ·) = sorted at hsorted hplace
  obtain ⟨before, t, after, rfl, hbefore⟩ : ∃ before t after, sorted = before ++ t :: after ∧ before.length = place :=
    ⟨sorted.take place, sorted[place], sorted.drop (place + 1), by simp, by simp [Nat.le_of_lt hplace]⟩
  obtain ⟨-, hafter, hcross⟩ := List.pairwise_append.mp hsorted
  have hget : (before ++ t :: after).getD place 0 = t := by
    rw [List.getD_eq_getElem?_getD, ← hbefore, List.getElem?_append_right (Nat.le_refl _), Nat.sub_self]
    rfl
  rw [hget, List.countP_append, List.countP_eq_length.mpr fun t' ht' => decide_eq_true (hcross t' ht' t (by simp)),
    List.countP_eq_zero.mpr, hbefore, Nat.add_zero]
  intro t' ht'
  rw [decide_eq_true_eq, Nat.not_lt]
  rcases List.mem_cons.mp ht' with rfl | ht'
  · exact Nat.le_refl _
  · exact Nat.le_of_lt ((List.pairwise_cons.mp hafter).1 t' ht')

/-- The lines of a set that are older than that of a way. -/
def Cache.older (geo : Geometry) (c : Cache δ) (set : Addr) (way : ℕ) : ℕ :=
  geo.ways.countP fun way' => decide (c.time set way' < c.time set way)

theorem Cache.setEntry_time {entry : CacheEntry δ} : (c.setEntry set way entry).time set way' =
    if way' = way then entry.lastAccessTime else c.time set way' := by
  unfold Cache.time
  by_cases hway : way' = way
  · rw [if_pos hway, hway, Cache.setEntry_self]
  · rw [if_neg hway, Cache.setEntry_other fun h => hway h.2]

/-- A full set whose lines were touched at different times, all before a moment. -/
structure Cache.Ranked (geo : Geometry) (c : Cache δ) (set : Addr) (simTime : ℕ) : Prop where
  filled : c.Filled geo set
  distinct : ∀ way < geo.assoc, ∀ way' < geo.assoc, c.time set way = c.time set way' → way = way'
  past : ∀ way < geo.assoc, c.time set way < simTime

/-- The new line, touched now. -/
theorem Cache.Ranked.renew {entry : CacheEntry δ} (h : c.Ranked geo set simTime) (way : ℕ) (hvalid : entry.valid = true)
    (htime : entry.lastAccessTime = simTime) :
    (c.setEntry set way entry).accessTimes geo set = (geo.ways.map ((c.setEntry set way entry).time set)).insertionSort (· ≤ ·) ∧
      (geo.ways.map ((c.setEntry set way entry).time set)).Nodup := by
  have hfilled : (c.setEntry set way entry).Filled geo set := h.filled.setEntry hvalid
  refine ⟨?_, ?_⟩
  · unfold Cache.accessTimes Cache.time
    congr 1
    refine List.map_congr_left fun way' hway' => ?_
    rw [if_pos (hfilled way' (Geometry.mem_ways.mp hway'))]
  · refine List.Nodup.map_on (fun a ha b hb hsame => ?_) List.nodup_range
    have ha := Geometry.mem_ways.mp ha
    have hb := Geometry.mem_ways.mp hb
    have hpastA := h.past a ha
    have hpastB := h.past b hb
    rw [Cache.setEntry_time, Cache.setEntry_time, htime] at hsame
    by_cases haway : a = way
    · by_cases hbway : b = way
      · rw [haway, hbway]
      · rw [if_pos haway, if_neg hbway] at hsame
        omega
    · by_cases hbway : b = way
      · rw [if_neg haway, if_pos hbway] at hsame
        omega
      · rw [if_neg haway, if_neg hbway] at hsame
        exact h.distinct a ha b hb hsame

/-- A line that takes its time out of the sorted times is younger than as many lines as its place says. -/
theorem Cache.Ranked.older (h : c.Ranked geo set simTime) (entry : CacheEntry δ) (hvalid : entry.valid = true)
    (htime : entry.lastAccessTime = simTime) (hway : way < geo.assoc)
    (hvictim : ∀ way' < geo.assoc, way' ≠ way → c.Before set way way') (hplace : place < geo.assoc) :
    ((c.setEntry set way entry).setEntry set way
      { entry with lastAccessTime := (c.setEntry set way entry).accessTimeAt geo simTime set place }).older geo set way = place := by
  obtain ⟨htimes, hnodup⟩ := h.renew way hvalid htime
  have hrank := countP_lt_insertionSort hnodup place (by rwa [List.length_map, Geometry.ways, List.length_range])
  rw [← htimes] at hrank
  -- the time at the place is that of a line
  obtain ⟨other, hother, hat⟩ : ∃ other < geo.assoc,
      (c.setEntry set way entry).time set other = ((c.setEntry set way entry).accessTimes geo set).getD place 0 := by
    have hlength : place < ((c.setEntry set way entry).accessTimes geo set).length := by
      rwa [htimes, List.length_insertionSort, List.length_map, Geometry.ways, List.length_range]
    have hmem : ((c.setEntry set way entry).accessTimes geo set).getD place 0 ∈ (c.setEntry set way entry).accessTimes geo set := by
      rw [List.getD_eq_getElem?_getD, List.getElem?_eq_getElem hlength]
      exact List.getElem_mem hlength
    rw [htimes, (List.perm_insertionSort _ _).mem_iff, ← htimes] at hmem
    obtain ⟨other, hother, hat⟩ := List.mem_map.mp hmem
    exact ⟨other, Geometry.mem_ways.mp hother, hat⟩
  have hpast := h.past way hway
  have hlater : 0 < (c.setEntry set way entry).time set other ∧ (c.setEntry set way entry).time set other ≤ simTime := by
    rw [Cache.setEntry_time, htime]
    by_cases hsame : other = way
    · rw [if_pos hsame]
      omega
    · have hpastOther := h.past other hother
      have hne : c.time set way ≠ c.time set other := fun heq => hsame (h.distinct way hway other hother heq).symm
      have hbefore := hvictim other hother hsame
      unfold Cache.Before at hbefore
      rw [if_neg hsame]
      omega
  have hchosen : (c.setEntry set way entry).accessTimeAt geo simTime set place =
      ((c.setEntry set way entry).accessTimes geo set).getD place 0 := by
    unfold Cache.accessTimeAt
    dsimp only
    rw [if_neg (by omega)]
  rw [hat] at hlater
  rw [hchosen]
  rw [List.countP_map] at hrank
  generalize ((c.setEntry set way entry).accessTimes geo set).getD place 0 = time at hrank hlater ⊢
  have hnew (way' : ℕ) : ((c.setEntry set way entry).setEntry set way { entry with lastAccessTime := time }).time set way' =
      if way' = way then time else (c.setEntry set way entry).time set way' := Cache.setEntry_time
  refine Eq.trans (List.countP_congr fun way' _ => ?_) hrank
  rw [hnew, hnew, if_pos rfl, Function.comp_apply, decide_eq_true_eq, decide_eq_true_eq]
  by_cases hsame : way' = way
  · rw [if_pos hsame, hsame, Cache.setEntry_time, if_pos rfl, htime]
    exact iff_of_false (Nat.lt_irrefl _) (by omega)
  · rw [if_neg hsame]

/-- Every insertion goes where its policy says. -/
structure Cache.InOrder (geo : Geometry) (c : Cache δ) (simTime procId : ℕ) (addr : Addr) (isPrefetch : Bool) : Prop where
  lru : (c.insertReplpos geo simTime procId addr .lru isPrefetch).2.findReplEntry geo (geo.set addr) =
    (c.insertReplpos geo simTime procId addr .lru isPrefetch).1
  lowqtr : (c.insertReplpos geo simTime procId addr .lowqtr isPrefetch).2.older geo (geo.set addr)
    (c.insertReplpos geo simTime procId addr .lowqtr isPrefetch).1 = geo.assoc / 4
  mid : (c.insertReplpos geo simTime procId addr .mid isPrefetch).2.older geo (geo.set addr)
    (c.insertReplpos geo simTime procId addr .mid isPrefetch).1 = geo.assoc / 2
  mru : ∀ way < geo.assoc, way ≠ (c.insertReplpos geo simTime procId addr .mru isPrefetch).1 →
    (c.insertReplpos geo simTime procId addr .mru isPrefetch).2.time (geo.set addr) way <
      (c.insertReplpos geo simTime procId addr .mru isPrefetch).2.time (geo.set addr)
        (c.insertReplpos geo simTime procId addr .mru isPrefetch).1

/-- In a full set under `REPL_TRUE_LRU` a line goes in where its policy says, if every line that stays was touched
after 123, the time that stands for the least recently used place, or at 123 in a later way. The other places are right
in any case. -/
theorem Cache.insertReplpos_inOrder_iff (geo : Geometry) (hpolicy : geo.replPolicy = .trueLru) (c : Cache δ) (simTime procId : ℕ)
    (addr : Addr) (isPrefetch : Bool) (hranked : c.Ranked geo (geo.set addr) simTime) (htime : simTime < maxCtr) :
    c.InOrder geo simTime procId addr isPrefetch ↔
      ∀ way < geo.assoc, way ≠ c.findReplEntry geo (geo.set addr) →
        123 < c.time (geo.set addr) way ∨ 123 = c.time (geo.set addr) way ∧ c.findReplEntry geo (geo.set addr) < way := by
  rcases Nat.eq_zero_or_pos geo.assoc with hassoc | hassoc
  · -- a cache without ways
    have hways : geo.ways = [] := by
      unfold Geometry.ways
      rw [hassoc]
      rfl
    have hfind (d : Cache δ) : d.findReplEntry geo (geo.set addr) = 0 := by
      unfold Cache.findReplEntry Cache.oldest
      rw [hpolicy, hways]
      rfl
    refine iff_of_true ⟨?_, ?_, ?_, ?_⟩ ?_
    · exact (hfind _).trans (hfind c).symm
    · unfold Cache.older
      rw [hways, hassoc]
      rfl
    · unfold Cache.older
      rw [hways, hassoc]
      rfl
    · intro way hway
      omega
    · intro way hway
      omega
  · have hearly (way : ℕ) (hway : way < geo.assoc) : c.time (geo.set addr) way < maxCtr :=
      Nat.lt_trans (hranked.past way hway) htime
    obtain ⟨hlt, hvictim⟩ := (hranked.filled.victim_iff hpolicy hassoc hearly).mp rfl
    have hplaced (place : ℕ) (hplace : place < geo.assoc) := hranked.older
      ⟨procId, true, geo.tag addr, geo.lineAddr addr, simTime, isPrefetch,
        (c.entries (geo.set addr) (c.findReplEntry geo (geo.set addr))).data⟩ rfl rfl hlt hvictim hplace
    have hlru : (c.insertReplpos geo simTime procId addr .lru isPrefetch).2.findReplEntry geo (geo.set addr) =
        (c.insertReplpos geo simTime procId addr .lru isPrefetch).1 ↔
          ∀ way < geo.assoc, way ≠ c.findReplEntry geo (geo.set addr) →
            123 < c.time (geo.set addr) way ∨ 123 = c.time (geo.set addr) way ∧ c.findReplEntry geo (geo.set addr) < way := by
      have hnew (way : ℕ) : (c.insertReplpos geo simTime procId addr .lru isPrefetch).2.time (geo.set addr) way =
          if way = c.findReplEntry geo (geo.set addr) then 123 else c.time (geo.set addr) way := by
        unfold Cache.insertReplpos
        rw [Cache.setEntry_time, Cache.setEntry_time]
        split
        · rfl
        · rfl
      have hfilled : (c.insertReplpos geo simTime procId addr .lru isPrefetch).2.Filled geo (geo.set addr) :=
        (hranked.filled.setEntry rfl).setEntry rfl
      have hfst : (c.insertReplpos geo simTime procId addr .lru isPrefetch).1 = c.findReplEntry geo (geo.set addr) := rfl
      rw [hfst, hfilled.victim_iff hpolicy hassoc fun way hway => ?_]
      · refine (and_iff_right hlt).trans (forall_congr' fun way => imp_congr_right fun _ => imp_congr_right fun hne => ?_)
        unfold Cache.Before
        rw [hnew, hnew, if_neg hne, if_pos rfl]
      · rw [hnew]
        split
        · unfold maxCtr
          omega
        · exact hearly way hway
    refine ⟨fun h => hlru.mp h.lru, fun h => ⟨hlru.mpr h, hplaced _ (by omega), hplaced _ (by omega), fun way hway hne => ?_⟩⟩
    unfold Cache.insertReplpos at hne ⊢
    rw [Cache.setEntry_time, Cache.setEntry_time, if_neg hne, if_pos rfl]
    exact hranked.past way hway

/-- Four ways that were touched at cycles 200 to 203. -/
theorem Cache.insertReplpos_inOrder_four :
    Cache.InOrder ⟨4, 0, 6, .trueLru⟩
      (⟨fun _ way => ⟨0, true, BitVec.ofNat 64 way, 0, 203 - way, false, way⟩, fun _ => 0, fun _ => 0⟩ : Cache ℕ) 300 0 0x400 false := by
  refine (Cache.insertReplpos_inOrder_iff _ rfl _ _ _ _ _ ⟨fun _ _ => rfl, ?_, ?_⟩ (by decide)).mpr ?_
  · decide
  · decide
  · decide

/-- Two ways that were touched at cycles 5 and 7: the new line, at 123, is the younger one. -/
theorem Cache.insertReplpos_not_inOrder :
    Cache.Ranked ⟨2, 0, 6, .trueLru⟩
        (⟨fun _ way => ⟨0, true, BitVec.ofNat 64 way, 0, 5 + 2 * way, false, way⟩, fun _ => 0, fun _ => 0⟩ : Cache ℕ)
        (Geometry.set ⟨2, 0, 6, .trueLru⟩ 0x400) 9 ∧
      ¬ Cache.InOrder ⟨2, 0, 6, .trueLru⟩
        (⟨fun _ way => ⟨0, true, BitVec.ofNat 64 way, 0, 5 + 2 * way, false, way⟩, fun _ => 0, fun _ => 0⟩ : Cache ℕ) 9 0 0x400 false := by
  refine ⟨⟨fun _ _ => rfl, ?_, ?_⟩, fun h => absurd h.lru ?_⟩
  · decide
  · decide
  · decide

end Scarab.Memory
