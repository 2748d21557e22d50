import Scarab.Prefetcher.GhbChain

/-! # The places of the delta buffer

The search puts the deltas of a zone into a ring, and compares the last two with the first two that are not
zero. The place before the last one is a remainder of C, which is -1 where the ring has just come round. -/

namespace Scarab.Ghb

variable (p : Params) {κ : Type} (addto : Ul1Queue κ)

/-! ## Touches -/

/-- An element of the delta buffer is written or read. -/
inductive Touch where
  | write (i : ℤ)
  | read (i : ℤ)
  deriving DecidableEq, Repr

def Touch.index : Touch → ℤ
  | .write i => i
  | .read i => i

/-- What the walk after a match reads. -/
def walkTouches (s : PrefGhb) (stray : ℤ → CInt) (procId : Uns8) (loadPC : Addr) (start currDeltabSize : ℤ) :
    ℕ → ℤ → Addr → κ → List Touch
  | 0, _, _, _ => []
  | n + 1, deltabIdx, lineIndex, k =>
      let lineIndex := lineIndex + (s.delta stray deltabIdx).signExtend 64
      .read deltabIdx ::
        match ask p addto s.hwpId procId lineIndex loadPC k with
        | .error _ => []
        | .ok k =>
            let next := circDec deltabIdx s.deltabSize
            walkTouches s stray procId loadPC start currDeltabSize n
              (if currDeltabSize < next then start else next) lineIndex k

/-- What the comparison reads; the last element only if the one before it is `delta1`. -/
def compareTouches (stray : ℤ → CInt) (procId : Uns8) (loadPC : Addr) (v : Search) (s : PrefGhb) (k : κ) : List Touch :=
  let before := (v.deltabHead - 1).tmod s.deltabSize
  .read before ::
    if v.delta1 = s.delta stray before then
      .read v.deltabHead ::
        if v.delta2 = s.delta stray v.deltabHead then
          let start := (v.deltabHead - 2).tmod s.deltabSize
          walkTouches p addto s stray procId loadPC start v.currDeltabSize (s.prefDegree - v.numPrefSent) start v.lineIndex k
        else []
    else []

/-- What a turn of the search touches. -/
def turnTouches (stray : ℤ → CInt) (procId : Uns8) (loadPC : Addr) (v : Search) (s : PrefGhb) (k : κ) : List Touch :=
  let delta : CInt := (v.currLineIndex - (s.entry v.ghbIdx).missIndex).setWidth 32
  if 100 < delta.toInt ∨ delta.toInt < -100 then []
  else
    let (v, s) := v.push s delta
    .write v.deltabHead ::
      if v.delta1 = 0 ∨ v.delta2 = 0 ∨ v.delta1 = v.delta2 then []
      else compareTouches p addto stray procId loadPC v s k

/-- What the search loop touches. -/
def searchTouches (stray : ℤ → CInt) (procId : Uns8) (loadPC : Addr) : ℕ → Search → PrefGhb → κ → List Touch
  | 0, _, _, _ => []
  | fuel + 1, v, s, k =>
      if v.ghbIdx ≠ -1 ∧ v.numPrefSent < s.prefDegree then
        turnTouches p addto stray procId loadPC v s k ++
          match searchTurn p addto stray procId loadPC v s k with
          | .ok (some v, s, k) => searchTouches stray procId loadPC fuel v s k
          | _ => []
      else []

/-- What `pref_ghb_ul1_train` touches: it zeroes the buffer before it searches. -/
def Machine.touches (m : Machine κ) (a : Access) : List Touch :=
  let lineIndex := a.lineAddr >>> p.log2Line
  match m.ghb.czone p a.lineAddr a.ul1Hit with
  | none => []
  | some (czoneIdx, oldPtr) =>
      if oldPtr ≠ -1 ∧ (m.ghb.entry oldPtr).missIndex = lineIndex then []
      else
        let s := m.ghb.created p czoneIdx a.lineAddr oldPtr a.cycleCount (a.throttled.getD m.ghb.prefDegree)
        (List.range s.deltabSize).map (fun ii : ℕ => Touch.write ii) ++
          searchTouches p addto a.stray a.procId a.loadPC a.turns
            ⟨(s.entry s.ghbTail).ghbPtr, lineIndex, lineIndex, 0, 0, 0, -1, 0⟩ s m.queue

/-- All elements are in the buffer, and those that are read were written. -/
structure StaysInside (size : ℕ) (touches : List Touch) : Prop where
  index : ∀ t ∈ touches, 0 ≤ t.index ∧ t.index < size
  written : ∀ before i after, touches = before ++ Touch.read i :: after → Touch.write i ∈ before

/-! ## When the ring is left -/

/-- The deltas from a line back along the links, up to the first that is too large; the link to `slot` is cut. -/
def PrefGhb.deltas (s : PrefGhb) (slot : ℤ) : ℕ → ℤ → Addr → List CInt
  | 0, _, _ => []
  | turns + 1, ptr, line =>
      let delta : CInt := (line - (s.entry ptr).missIndex).setWidth 32
      if (ptr = -1 ∨ ptr = slot) ∨ 100 < delta.toInt ∨ delta.toInt < -100 then []
      else delta :: PrefGhb.deltas s slot turns (s.entry ptr).ghbPtr (s.entry ptr).missIndex

/-- The first two deltas that are not zero are at `i` and `j`. -/
structure FirstTwo (ds : List CInt) (i j : ℕ) : Prop where
  lt : i < j
  first : ds.getD i 0 ≠ 0
  second : ds.getD j 0 ≠ 0
  others : ∀ k < j, k ≠ i → ds.getD k 0 = 0

/-- The same two come again, the second of them at `k`. -/
def Repeats (ds : List CInt) (i j k : ℕ) : Prop := ds.getD (k - 1) 0 = ds.getD i 0 ∧ ds.getD k 0 = ds.getD j 0

/-- Where two different deltas are compared with those at a multiple of the size, they came again before. -/
def RepeatsInTime (size : ℕ) (ds : List CInt) : Prop :=
  ∀ i j, FirstTwo ds i j → ds.getD i 0 ≠ ds.getD j 0 → ∀ k, j < k → k < ds.length → size ∣ k →
    ∃ l, j < l ∧ l < k ∧ Repeats ds i j l

/-- An access that makes no entry or is not to ask for anything searches for nothing. -/
def PrefGhb.InWindow (s : PrefGhb) (a : Access) : Prop :=
  ∀ czoneIdx oldPtr, s.czone p a.lineAddr a.ul1Hit = some (czoneIdx, oldPtr) →
    ¬ (oldPtr ≠ -1 ∧ (s.entry oldPtr).missIndex = a.lineAddr >>> p.log2Line) → a.throttled.getD s.prefDegree ≠ 0 →
      RepeatsInTime (p.maxDegree + 2)
        (s.deltas ((s.ghbTail + 1) % p.bufferN) a.turns oldPtr (a.lineAddr >>> p.log2Line))

variable {p} {addto} {size n : ℕ} {ds : List CInt}

/-- The two can be found at `k`: they were not found before. -/
def ComparedAt (ds : List CInt) (i j k : ℕ) : Prop := j < k ∧ ∀ l, j < l → l < k → ¬ Repeats ds i j l

/-- The places that are read in turn `k`, if deltas are compared in it, are in the ring. -/
def PlaceOk (size : ℕ) (ds : List CInt) (k : ℕ) : Prop :=
  ∀ i j, FirstTwo ds i j → ds.getD i 0 ≠ ds.getD j 0 → ComparedAt ds i j k →
    k % size ≠ 0 ∧ (Repeats ds i j k → k % size ≠ 1)

def PlacesOk (size : ℕ) (ds : List CInt) (n : ℕ) : Prop := ∀ k, n ≤ k → k < ds.length → PlaceOk size ds k

theorem placesOk_succ (hn : n < ds.length) : PlacesOk size ds n ↔ PlaceOk size ds n ∧ PlacesOk size ds (n + 1) := by
  constructor
  · intro hok
    exact ⟨hok n (Nat.le_refl n) hn, fun k hk => hok k (Nat.le_of_succ_le hk)⟩
  · rintro ⟨hhere, hlater⟩ k hk hlt
    rcases Nat.eq_or_lt_of_le hk with heq | hgt
    · exact heq ▸ hhere
    · exact hlater k hgt hlt

theorem placesOk_end (hn : ds.length ≤ n) : PlacesOk size ds n := by
  intro k hk hlt
  omega

/-- The walk starts outside only where a comparison was outside before. -/
theorem placesOk_iff : PlacesOk size ds 0 ↔ RepeatsInTime size ds := by
  constructor
  · intro hok i j hfirst hne k hjk hlt hdvd
    by_contra hnone
    have hcompared : ComparedAt ds i j k := ⟨hjk, fun l hjl hlk hrep => hnone ⟨l, hjl, hlk, hrep⟩⟩
    exact (hok k (Nat.zero_le k) hlt i j hfirst hne hcompared).1 (Nat.mod_eq_zero_of_dvd hdvd)
  · rintro hrepeats k - hlt i j hfirst hne ⟨hjk, hnone⟩
    have hnot (l : ℕ) (hjl : j < l) (hlk : l ≤ k) : ¬ size ∣ l := by
      intro hdvd
      obtain ⟨l', hjl', hll', hrep⟩ := hrepeats i j hfirst hne l hjl (by omega) hdvd
      exact hnone l' hjl' (by omega) hrep
    refine ⟨fun hzero => hnot k hjk (Nat.le_refl k) (Nat.dvd_of_mod_eq_zero hzero), fun hrep hone => ?_⟩
    have hdvd : size ∣ k - 1 := by
      have hdiv := Nat.div_add_mod k size
      exact ⟨k / size, by omega⟩
    -- the delta before is the first of the two, and the one at `j` is not
    have hj : j ≠ k - 1 := by
      rintro rfl
      exact hne hrep.1.symm
    exact hnot (k - 1) (by omega) (Nat.sub_le k 1) hdvd

/-- A chain that is not longer than the ring never comes round. -/
theorem RepeatsInTime.of_length (hlength : ds.length ≤ size) : RepeatsInTime size ds := by
  intro i j _ _ k hjk hlt hdvd
  have hle := Nat.le_of_dvd (by omega) hdvd
  omega

/-! ## The walk -/

def Within (size : ℕ) (touches : List Touch) : Prop := ∀ t ∈ touches, 0 ≤ t.index ∧ t.index < size

@[simp] theorem within_nil : Within size [] := List.forall_mem_nil _

@[simp] theorem within_cons {t : Touch} {touches : List Touch} :
    Within size (t :: touches) ↔ (0 ≤ t.index ∧ t.index < size) ∧ Within size touches := List.forall_mem_cons

@[simp] theorem within_append {touches touches' : List Touch} :
    Within size (touches ++ touches') ↔ Within size touches ∧ Within size touches' := List.forall_mem_append

variable {s : PrefGhb} {stray : ℤ → CInt} {procId : Uns8} {loadPC : Addr} {v : Search} {queue : κ}

theorem circDec_within {i : ℤ} (hi : 0 ≤ i ∧ i < size) : 0 ≤ circDec i size ∧ circDec i size < size := by
  unfold circDec
  split
  · omega
  · omega

theorem walkTouches_within {start currDeltabSize deltabIdx : ℤ} {lineIndex : Addr}
    (hstart : 0 ≤ start ∧ start < s.deltabSize) (hidx : 0 ≤ deltabIdx ∧ deltabIdx < s.deltabSize) :
    Within s.deltabSize (walkTouches p addto s stray procId loadPC start currDeltabSize n deltabIdx lineIndex queue) := by
  induction n generalizing deltabIdx lineIndex queue with
  | zero => exact within_nil
  | succ n ih =>
      unfold walkTouches
      refine within_cons.mpr ⟨hidx, ?_⟩
      split
      · exact within_nil
      · refine ih ?_
        split
        · exact hstart
        · exact circDec_within hidx

/-- The walk is in the ring if it starts there. -/
theorem walkTouches_start {start currDeltabSize : ℤ} {lineIndex : Addr} (hn : n ≠ 0) :
    Within s.deltabSize (walkTouches p addto s stray procId loadPC start currDeltabSize n start lineIndex queue) ↔
      0 ≤ start ∧ start < s.deltabSize := by
  constructor
  · obtain ⟨m, rfl⟩ := Nat.exists_eq_succ_of_ne_zero hn
    intro hwithin
    unfold walkTouches at hwithin
    exact (within_cons.mp hwithin).1
  · intro hstart
    exact walkTouches_within hstart hstart

/-! ## A turn -/

/-- A remainder of C that is not smaller than -1. -/
theorem tmod_pred {i : ℤ} (hsize : 2 ≤ size) (hlow : -1 ≤ i) (hhigh : i < size) : i.tmod size = i := by
  by_cases hneg : i = -1
  · subst hneg
    rw [Int.neg_tmod, Int.tmod_eq_of_lt (by omega) (by omega)]
  · exact Int.tmod_eq_of_lt (by omega) hhigh

theorem FirstTwo.unique {i j i' j' : ℕ} (h : FirstTwo ds i j) (h' : FirstTwo ds i' j') : i = i' ∧ j = j' := by
  have hj : j = j' := by
    rcases Nat.lt_trichotomy j j' with hlt | heq | hlt
    · have hji : j = i' := Classical.byContradiction fun hne => h.second (h'.others j hlt hne)
      have hii : i = i' := Classical.byContradiction fun hne => h.first (h'.others i (by have := h.lt; omega) hne)
      have := h.lt
      omega
    · exact heq
    · have hji : j' = i := Classical.byContradiction fun hne => h'.second (h.others j' hlt hne)
      have hii : i' = i := Classical.byContradiction fun hne => h'.first (h.others i' (by have := h'.lt; omega) hne)
      have := h'.lt
      omega
  subst hj
  exact ⟨Classical.byContradiction fun hne => h.first (h'.others i h.lt hne), rfl⟩

/-- `delta1` and `delta2` after a number of turns. -/
inductive Seen (ds : List CInt) (n : ℕ) (delta1 delta2 : CInt) : Prop
  | none (h₁ : delta1 = 0) (h₂ : delta2 = 0) (hzero : ∀ k < n, ds.getD k 0 = 0)
  | one (i : ℕ) (h₁ : delta1 = ds.getD i 0) (h₂ : delta2 = 0) (hi : i < n) (hne : delta1 ≠ 0)
      (hzero : ∀ k < n, k ≠ i → ds.getD k 0 = 0)
  | two (i j : ℕ) (h₁ : delta1 = ds.getD i 0) (h₂ : delta2 = ds.getD j 0) (hfirst : FirstTwo ds i j) (hj : j < n)
      (hnone : ∀ l, j < l → l < n → ¬ Repeats ds i j l)

/-- The variables of the search and the buffer after `n` turns along the deltas. -/
structure Search.After (v : Search) (s : PrefGhb) (ds : List CInt) (n : ℕ) : Prop where
  head : v.deltabHead = if n = 0 then (-1 : ℤ) else ((n - 1) % s.deltabSize : ℕ)
  last : n ≠ 0 → s.deltaBuffer ((n - 1) % s.deltabSize) = ds.getD (n - 1) 0
  sent : v.numPrefSent = 0
  seen : Seen ds n v.delta1 v.delta2

/-- What a turn pushes, and where. -/
theorem Search.After.push (hafter : v.After s ds n) (hsize : 2 ≤ s.deltabSize) :
    (v.push s (ds.getD n 0)).1.deltabHead = (n % s.deltabSize : ℕ) ∧
      (v.push s (ds.getD n 0)).2.deltaBuffer (n % s.deltabSize) = ds.getD n 0 ∧
      (n ≠ 0 → (v.push s (ds.getD n 0)).2.deltaBuffer ((n - 1) % s.deltabSize) = ds.getD (n - 1) 0) := by
  have hhead : (v.deltabHead + 1).tmod s.deltabSize = (n % s.deltabSize : ℕ) := by
    rw [hafter.head]
    by_cases hn : n = 0
    · rw [if_pos hn, hn]
      rfl
    · rw [if_neg hn]
      have hnat : ((n - 1) % s.deltabSize + 1) % s.deltabSize = n % s.deltabSize := by
        rw [Nat.mod_add_mod, Nat.sub_add_cancel (by omega)]
      rw [← hnat]
      exact Int.tmod_eq_emod_of_nonneg (by omega)
  refine ⟨hhead, ?_, fun hn => ?_⟩
  · change Function.update s.deltaBuffer ((v.deltabHead + 1).tmod s.deltabSize).toNat _ _ = _
    rw [hhead, Int.toNat_natCast, Function.update_self]
  · change Function.update s.deltaBuffer ((v.deltabHead + 1).tmod s.deltabSize).toNat _ _ = _
    rw [hhead, Int.toNat_natCast, Function.update_of_ne (Cyclic.mod_ne_of_lt (by omega) (by omega))]
    exact hafter.last hn

theorem PrefGhb.delta_inside {i : ℕ} (hi : i < s.deltabSize) : s.delta stray i = s.deltaBuffer i := by
  unfold PrefGhb.delta
  rw [if_pos ⟨by omega, by omega⟩, Int.toNat_natCast]

/-- The delta between the line of the search and the entry it is at. -/
def Search.deltaAt (v : Search) (s : PrefGhb) : CInt := (v.currLineIndex - (s.entry v.ghbIdx).missIndex).setWidth 32

/-- A delta that the search goes on with. -/
def Near (delta : CInt) : Prop := ¬ (100 < delta.toInt ∨ delta.toInt < -100)

/-- The search is about to push the delta `n`. -/
structure Search.Turn (v : Search) (s : PrefGhb) (ds : List CInt) (n : ℕ) : Prop where
  after : v.After s ds n
  near : Near (v.deltaAt s)
  delta : v.deltaAt s = ds.getD n 0
  size : 2 ≤ s.deltabSize

/-- The first two deltas that are not zero were seen, and are different. -/
structure Search.Pair (v : Search) (ds : List CInt) (i j : ℕ) : Prop where
  delta1 : v.delta1 = ds.getD i 0
  delta2 : v.delta2 = ds.getD j 0
  first : FirstTwo ds i j
  ne : ds.getD i 0 ≠ ds.getD j 0

/-- No turn follows that does anything. -/
def Ends (out : Except String (Option Search × PrefGhb × κ)) : Prop :=
  ∀ v s k, out = .ok (some v, s, k) → v.numPrefSent = s.prefDegree

/-- The next turn is at the entry before. -/
def GoesOn (v : Search) (s : PrefGhb) (ds : List CInt) (n : ℕ) (k : κ)
    (out : Except String (Option Search × PrefGhb × κ)) : Prop :=
  ∃ (v' : Search) (buffer : ℕ → CInt), out = .ok (some (v'.back s), { s with deltaBuffer := buffer }, k) ∧
    v'.ghbIdx = v.ghbIdx ∧ v'.After { s with deltaBuffer := buffer } ds (n + 1)

theorem Search.Turn.goes_on (hturn : v.Turn s ds n) :
    ¬ (100 < BitVec.toInt ((v.currLineIndex - (s.entry v.ghbIdx).missIndex).setWidth 32) ∨
      BitVec.toInt ((v.currLineIndex - (s.entry v.ghbIdx).missIndex).setWidth 32) < -100) := hturn.near

/-- What is written is in the ring. -/
theorem turnTouches_within (hturn : v.Turn s ds n) :
    Within s.deltabSize (turnTouches p addto stray procId loadPC v s queue) ↔
      (v.delta1 = 0 ∨ v.delta2 = 0 ∨ v.delta1 = v.delta2) ∨
        Within s.deltabSize (compareTouches p addto stray procId loadPC (v.push s (ds.getD n 0)).1
          (v.push s (ds.getD n 0)).2 queue) := by
  have hsize := hturn.size
  have hwrite : (0 : ℤ) ≤ (n % s.deltabSize : ℕ) ∧ ((n % s.deltabSize : ℕ) : ℤ) < s.deltabSize :=
    ⟨Int.natCast_nonneg _, Int.ofNat_lt.mpr (Nat.mod_lt n (by omega))⟩
  have htouches : turnTouches p addto stray procId loadPC v s queue = .write (v.push s (v.deltaAt s)).1.deltabHead ::
      if v.delta1 = 0 ∨ v.delta2 = 0 ∨ v.delta1 = v.delta2 then []
      else compareTouches p addto stray procId loadPC (v.push s (v.deltaAt s)).1 (v.push s (v.deltaAt s)).2 queue :=
    if_neg hturn.goes_on
  rw [htouches, hturn.delta, within_cons, (hturn.after.push hsize).1]
  split
  · rename_i hseen
    exact iff_of_true ⟨hwrite, within_nil⟩ (.inl hseen)
  · rename_i hseen
    exact ⟨fun hwithin => .inr hwithin.2, fun hwithin => ⟨hwrite, hwithin.resolve_left hseen⟩⟩

/-- Until two deltas were seen the search goes on. -/
theorem searchTurn_unseen (hturn : v.Turn s ds n) (hzero : v.delta1 = 0 ∨ v.delta2 = 0) :
    GoesOn v s ds n queue (searchTurn p addto stray procId loadPC v s queue) := by
  obtain ⟨hhead, hnew, -⟩ := hturn.after.push hturn.size
  have hsent := hturn.after.sent
  unfold searchTurn
  dsimp only
  rw [if_neg hturn.goes_on]
  by_cases h₁ : v.delta1 = 0
  · refine ⟨{ (v.push s (ds.getD n 0)).1 with delta1 := ds.getD n 0 }, (v.push s (ds.getD n 0)).2.deltaBuffer,
      (if_pos h₁).trans (hturn.delta ▸ rfl), rfl, hhead, fun _ => hnew, hsent, ?_⟩
    change Seen ds (n + 1) (ds.getD n 0) v.delta2
    cases hturn.after.seen with
    | none _ h₂ hzero =>
        by_cases hd : ds.getD n 0 = 0
        · refine .none hd h₂ fun k hk => ?_
          rcases Nat.eq_or_lt_of_le (Nat.le_of_lt_succ hk) with rfl | hlt
          · exact hd
          · exact hzero k hlt
        · exact .one n rfl h₂ (Nat.lt_succ_self n) hd fun k hk hne => hzero k (by omega)
    | one i _ _ _ hne _ => exact (hne h₁).elim
    | two i j hi _ hfirst _ _ => exact (hfirst.first (hi ▸ h₁)).elim
  · have h₂ : v.delta2 = 0 := hzero.resolve_left h₁
    refine ⟨{ (v.push s (ds.getD n 0)).1 with delta2 := ds.getD n 0 }, (v.push s (ds.getD n 0)).2.deltaBuffer,
      (if_neg h₁).trans ((if_pos h₂).trans (hturn.delta ▸ rfl)), rfl, hhead, fun _ => hnew, hsent, ?_⟩
    change Seen ds (n + 1) v.delta1 (ds.getD n 0)
    cases hturn.after.seen with
    | none h _ _ => exact (h₁ h).elim
    | one i hi _ hlt hne hzero =>
        by_cases hd : ds.getD n 0 = 0
        · refine .one i hi hd (by omega) hne fun k hk hki => ?_
          rcases Nat.eq_or_lt_of_le (Nat.le_of_lt_succ hk) with rfl | hlt
          · exact hd
          · exact hzero k hlt hki
        · exact .two i n hi rfl ⟨hlt, hi ▸ hne, hd, hzero⟩ (Nat.lt_succ_self n) fun l hl hln => by omega
    | two i j _ hj hfirst _ _ => exact (hfirst.second (hj ▸ h₂)).elim

/-- After two equal deltas everything is asked for. -/
theorem searchTurn_stride (hturn : v.Turn s ds n) (h₁ : v.delta1 ≠ 0) (heq : v.delta1 = v.delta2) :
    Ends (searchTurn p addto stray procId loadPC v s queue) := by
  intro v' s' queue' hout
  have h₂ : v.delta2 ≠ 0 := heq ▸ h₁
  unfold searchTurn at hout
  dsimp only at hout
  rw [if_neg hturn.goes_on] at hout
  change (if v.delta1 = 0 then _ else if v.delta2 = 0 then _ else if v.delta1 = v.delta2 then _ else _) = _ at hout
  rw [if_neg h₁, if_neg h₂, if_pos heq] at hout
  obtain ⟨mid, _, hret⟩ := Execution.bind_eq_ok.mp hout
  cases hret
  rfl

theorem pred_mod (hsize : 0 < size) (hhere : n % size ≠ 0) : (n - 1) % size = n % size - 1 := by
  have hdiv := Nat.div_add_mod n size
  have hlt := Nat.mod_lt n hsize
  rw [show n - 1 = size * (n / size) + (n % size - 1) by omega, Nat.mul_add_mod, Nat.mod_eq_of_lt (by omega)]

/-- The places of the last two deltas. -/
theorem Search.After.places (hafter : v.After s ds n) (hsize : 2 ≤ s.deltabSize) (hhere : n % s.deltabSize ≠ 0) :
    let w := (v.push s (ds.getD n 0)).1
    let t := (v.push s (ds.getD n 0)).2
    (w.deltabHead - 1).tmod t.deltabSize = ((n - 1) % s.deltabSize : ℕ) ∧
      t.delta stray ((w.deltabHead - 1).tmod t.deltabSize) = ds.getD (n - 1) 0 ∧
      t.delta stray w.deltabHead = ds.getD n 0 := by
  intro w t
  obtain ⟨hhead, hnew, hlast⟩ := hafter.push hsize
  have hpos : 0 < s.deltabSize := Nat.lt_of_lt_of_le Nat.two_pos hsize
  have hlt := Nat.mod_lt n hpos
  have hbefore : (w.deltabHead - 1).tmod s.deltabSize = ((n - 1) % s.deltabSize : ℕ) := by
    rw [hhead, tmod_pred hsize (by omega) (by omega), pred_mod hpos hhere]
    omega
  have hsame : t.deltabSize = s.deltabSize := rfl
  rw [hsame]
  refine ⟨hbefore, ?_, ?_⟩
  · rw [hbefore, PrefGhb.delta_inside (show (n - 1) % s.deltabSize < t.deltabSize from Nat.mod_lt (n - 1) hpos)]
    exact hlast fun hzero => hhere (by rw [hzero, Nat.zero_mod])
  · rw [hhead, PrefGhb.delta_inside (show n % s.deltabSize < t.deltabSize from hlt)]
    exact hnew

/-- A turn that compares, in the ring. -/
theorem searchTurn_compares {i j : ℕ} (hturn : v.Turn s ds n) (hpair : v.Pair ds i j) (hhere : n % s.deltabSize ≠ 0) :
    searchTurn p addto stray procId loadPC v s queue =
      let w := (v.push s (ds.getD n 0)).1
      let t := (v.push s (ds.getD n 0)).2
      if ds.getD i 0 = ds.getD (n - 1) 0 ∧ ds.getD j 0 = ds.getD n 0 then do
        let start := (w.deltabHead - 2).tmod t.deltabSize
        let k ← walkLoop p addto t stray procId loadPC start w.currDeltabSize (t.prefDegree - w.numPrefSent) start
          w.lineIndex queue
        return (none, t, k)
      else .ok (some (w.back s), t, queue) := by
  obtain ⟨h₁, h₂, hfirst, hne⟩ := hpair
  obtain ⟨-, hlast, hnew⟩ := @Search.After.places n ds s stray v hturn.after hturn.size hhere
  have hfst : v.delta1 ≠ 0 := h₁ ▸ hfirst.first
  have hsnd : v.delta2 ≠ 0 := h₂ ▸ hfirst.second
  have hdelta : (v.currLineIndex - (s.entry v.ghbIdx).missIndex).setWidth 32 = ds.getD n 0 := hturn.delta
  unfold searchTurn
  dsimp only
  rw [if_neg hturn.goes_on, hdelta]
  change (if v.delta1 = 0 then _ else if v.delta2 = 0 then _ else if v.delta1 = v.delta2 then _ else
    if v.delta1 = (v.push s (ds.getD n 0)).2.delta stray _ ∧ v.delta2 = (v.push s (ds.getD n 0)).2.delta stray _ then _
    else _) = _
  rw [if_neg hfst, if_neg hsnd, if_neg (by rwa [h₁, h₂]), hlast, hnew, h₁, h₂]
  rfl

/-- The comparison stays in the ring unless it is at its start, or a match at its second place. -/
theorem compareTouches_within {i j : ℕ} (hturn : v.Turn s ds n) (hpair : v.Pair ds i j) (hdegree : s.prefDegree ≠ 0) :
    Within s.deltabSize (compareTouches p addto stray procId loadPC (v.push s (ds.getD n 0)).1
        (v.push s (ds.getD n 0)).2 queue) ↔
      n % s.deltabSize ≠ 0 ∧ (Repeats ds i j n → n % s.deltabSize ≠ 1) := by
  have hsize := hturn.size
  have hhead := (hturn.after.push hsize).1
  have hlt := Nat.mod_lt n (by omega : 0 < s.deltabSize)
  have hinside (i : ℕ) : (0 : ℤ) ≤ (i % s.deltabSize : ℕ) ∧ ((i % s.deltabSize : ℕ) : ℤ) < s.deltabSize :=
    ⟨Int.natCast_nonneg _, Int.ofNat_lt.mpr (Nat.mod_lt i (by omega))⟩
  unfold compareTouches
  dsimp only
  rw [within_cons]
  by_cases hzero : n % s.deltabSize = 0
  · constructor
    · intro hwithin
      have hlow : 0 ≤ ((v.push s (ds.getD n 0)).1.deltabHead - 1).tmod s.deltabSize := hwithin.1.1
      rw [hhead, hzero, tmod_pred hsize (by omega) (by omega)] at hlow
      omega
    · intro hok
      exact (hok.1 hzero).elim
  · obtain ⟨hbefore, hlast, hnew⟩ := @Search.After.places n ds s stray v hturn.after hsize hzero
    rw [hlast, hnew, hbefore]
    change (_ ∧ Within _ (if v.delta1 = _ then .read _ :: if v.delta2 = _ then _ else [] else [])) ↔ _
    rw [hpair.delta1, hpair.delta2]
    by_cases hfst : ds.getD i 0 = ds.getD (n - 1) 0
    · rw [if_pos hfst, within_cons]
      by_cases hsnd : ds.getD j 0 = ds.getD n 0
      · have hsent : s.prefDegree - v.numPrefSent ≠ 0 := by
          rw [hturn.after.sent]
          exact hdegree
        have hstart : ((v.push s (ds.getD n 0)).1.deltabHead - 2).tmod s.deltabSize = (n % s.deltabSize : ℕ) - 2 := by
          rw [hhead]
          exact tmod_pred hsize (by omega) (by omega)
        have hwalk := @walkTouches_start p κ addto _ (v.push s (ds.getD n 0)).2 stray procId loadPC queue
          (((v.push s (ds.getD n 0)).1.deltabHead - 2).tmod s.deltabSize) (v.currDeltabSize + 1) v.lineIndex hsent
        rw [if_pos hsnd]
        constructor
        · intro hwithin
          refine ⟨hzero, fun _ hone => ?_⟩
          have hlow := (hwalk.mp hwithin.2.2).1
          rw [hstart, hone] at hlow
          omega
        · intro hok
          have hone := hok.2 ⟨hfst.symm, hsnd.symm⟩
          refine ⟨hinside _, hhead ▸ hinside _, hwalk.mpr ?_⟩
          rw [hstart]
          exact ⟨by omega, by change _ < (s.deltabSize : ℤ); omega⟩
      · rw [if_neg hsnd]
        exact ⟨fun _ => ⟨hzero, fun hrep => (hsnd hrep.2.symm).elim⟩,
          fun _ => ⟨hinside _, hhead ▸ hinside _, within_nil⟩⟩
    · rw [if_neg hfst]
      exact ⟨fun _ => ⟨hzero, fun hrep => (hfst hrep.1.symm).elim⟩, fun _ => ⟨hinside _, within_nil⟩⟩

/-- The search ends where the two come again. -/
theorem searchTurn_match {i j : ℕ} (hturn : v.Turn s ds n) (hpair : v.Pair ds i j) (hhere : n % s.deltabSize ≠ 0)
    (hrep : Repeats ds i j n) : Ends (searchTurn p addto stray procId loadPC v s queue) := by
  intro v' s' queue' hout
  rw [searchTurn_compares hturn hpair hhere, if_pos ⟨hrep.1.symm, hrep.2.symm⟩] at hout
  obtain ⟨mid, _, hret⟩ := Execution.bind_eq_ok.mp hout
  cases hret

/-- The search goes on where they do not. -/
theorem searchTurn_no_match {i j : ℕ} (hturn : v.Turn s ds n) (hpair : v.Pair ds i j) (hhere : n % s.deltabSize ≠ 0)
    (hj : j < n) (hnone : ∀ l, j < l → l < n + 1 → ¬ Repeats ds i j l) :
    GoesOn v s ds n queue (searchTurn p addto stray procId loadPC v s queue) := by
  obtain ⟨hhead, hnew, -⟩ := hturn.after.push hturn.size
  refine ⟨(v.push s (ds.getD n 0)).1, (v.push s (ds.getD n 0)).2.deltaBuffer, ?_, rfl, hhead, fun _ => hnew,
    hturn.after.sent, .two i j hpair.delta1 hpair.delta2 hpair.first (Nat.lt_succ_of_lt hj) hnone⟩
  rw [searchTurn_compares hturn hpair hhere]
  exact if_neg fun hboth => hnone n hj (Nat.lt_succ_self n) ⟨hboth.1.symm, hboth.2.symm⟩

/-! ## The search -/

/-- No deltas are compared in the turn. -/
theorem Seen.placeOk {delta1 delta2 : CInt} (hseen : Seen ds n delta1 delta2)
    (hnone : delta1 = 0 ∨ delta2 = 0 ∨ delta1 = delta2) : PlaceOk size ds n := by
  rintro i j hfirst hne ⟨hj, -⟩
  have hij := hfirst.lt
  exfalso
  cases hseen with
  | none _ _ hzero => exact hfirst.first (hzero i (by omega))
  | one i' _ _ _ _ hzero =>
      have hi : i = i' := Classical.byContradiction fun hne => hfirst.first (hzero i (by omega) hne)
      have hj : j = i' := Classical.byContradiction fun hne => hfirst.second (hzero j hj hne)
      omega
  | two i' j' h₁ h₂ hfirst' _ _ =>
      obtain ⟨rfl, rfl⟩ := hfirst.unique hfirst'
      rw [h₁, h₂] at hnone
      exact hnone.elim hfirst.first fun hnone => hnone.elim hfirst.second hne

theorem placeOk_iff {i j : ℕ} (hfirst : FirstTwo ds i j) (hne : ds.getD i 0 ≠ ds.getD j 0) (hcompared : ComparedAt ds i j n) :
    PlaceOk size ds n ↔ n % size ≠ 0 ∧ (Repeats ds i j n → n % size ≠ 1) := by
  constructor
  · intro hok
    exact hok i j hfirst hne hcompared
  · intro hok i' j' hfirst' _ _
    obtain ⟨rfl, rfl⟩ := hfirst.unique hfirst'
    exact hok

/-- After equal deltas nothing is compared, nor after a match. -/
theorem FirstTwo.placesOk {i j : ℕ} (hfirst : FirstTwo ds i j)
    (hdone : ds.getD i 0 = ds.getD j 0 ∨ j < n ∧ Repeats ds i j n) : PlacesOk size ds (n + 1) := by
  rintro k hk - i' j' hfirst' hne ⟨_, hnone⟩
  obtain ⟨rfl, rfl⟩ := hfirst.unique hfirst'
  cases hdone with
  | inl heq => exact (hne heq).elim
  | inr hrep => exact (hnone n hrep.1 hk hrep.2).elim

theorem PrefGhb.SameLinks.deltas {s' : PrefGhb} (hsame : s.SameLinks s') (slot : ℤ) (turns : ℕ) (ptr : ℤ) (line : Addr) :
    s'.deltas slot turns ptr line = s.deltas slot turns ptr line := by
  induction turns generalizing ptr line with
  | zero => rfl
  | succ turns ih =>
      unfold PrefGhb.deltas PrefGhb.entry
      rw [hsame.ghbBuffer, ih]

theorem drop_eq_cons {d : CInt} {rest : List CInt} (hdrop : ds.drop n = d :: rest) :
    n < ds.length ∧ ds.getD n 0 = d ∧ ds.drop (n + 1) = rest := by
  refine ⟨?_, ?_, ?_⟩
  · by_contra hge
    rw [List.drop_eq_nil_of_le (by omega)] at hdrop
    cases hdrop
  · have hget := congrArg (fun l : List CInt => l[0]?) hdrop
    rw [List.getElem?_drop, Nat.add_zero] at hget
    rw [List.getD_eq_getElem?_getD, hget]
    rfl
  · rw [← List.tail_drop, hdrop]
    rfl

/-- A turn stays in the ring exactly if its places do, and then ends the comparisons or goes on. -/
theorem Search.Turn.step (hturn : v.Turn s ds n) (hdegree : s.prefDegree ≠ 0) :
    (Within s.deltabSize (turnTouches p addto stray procId loadPC v s queue) ↔ PlaceOk s.deltabSize ds n) ∧
      (PlaceOk s.deltabSize ds n →
        Ends (searchTurn p addto stray procId loadPC v s queue) ∧ PlacesOk s.deltabSize ds (n + 1) ∨
        GoesOn v s ds n queue (searchTurn p addto stray procId loadPC v s queue)) := by
  have hseen := hturn.after.seen
  rw [turnTouches_within hturn]
  by_cases hzero : v.delta1 = 0 ∨ v.delta2 = 0
  · have hnothing := hzero.imp_right (@Or.inl _ (v.delta1 = v.delta2))
    exact ⟨iff_of_true (.inl hnothing) (hseen.placeOk hnothing), fun _ => .inr (searchTurn_unseen hturn hzero)⟩
  · obtain ⟨hne₁, hne₂⟩ := not_or.mp hzero
    cases hseen with
    | none h₁ _ _ => exact (hne₁ h₁).elim
    | one _ _ h₂ _ _ _ => exact (hne₂ h₂).elim
    | two i j h₁ h₂ hfirst hj hnone =>
        by_cases heq : v.delta1 = v.delta2
        · exact ⟨iff_of_true (.inl (.inr (.inr heq))) (hturn.after.seen.placeOk (.inr (.inr heq))),
            fun _ => .inl ⟨searchTurn_stride hturn hne₁ heq, hfirst.placesOk (.inl (h₁ ▸ h₂ ▸ heq))⟩⟩
        · have hpair : v.Pair ds i j := ⟨h₁, h₂, hfirst, by rwa [← h₁, ← h₂]⟩
          have hcompares : ¬ (v.delta1 = 0 ∨ v.delta2 = 0 ∨ v.delta1 = v.delta2) := by
            rintro (h | h | h)
            · exact hne₁ h
            · exact hne₂ h
            · exact heq h
          rw [or_iff_right hcompares, compareTouches_within hturn hpair hdegree,
            placeOk_iff hfirst hpair.ne ⟨hj, hnone⟩]
          refine ⟨Iff.rfl, fun hplace => ?_⟩
          by_cases hrep : Repeats ds i j n
          · exact .inl ⟨searchTurn_match hturn hpair hplace.1 hrep, hfirst.placesOk (.inr ⟨hj, hrep⟩)⟩
          · refine .inr (searchTurn_no_match hturn hpair hplace.1 hj fun l hjl hl => ?_)
            rcases Nat.eq_or_lt_of_le (Nat.le_of_lt_succ hl) with rfl | hlt
            · exact hrep
            · exact hnone l hjl hlt

/-- The search that follows a turn. -/
theorem within_after (out : Except String (Option Search × PrefGhb × κ)) (turns : ℕ) :
    Ends out → Within size (match out with
      | .ok (some v, s, k) => searchTouches p addto stray procId loadPC turns v s k
      | _ => []) := by
  intro hends
  split
  · rename_i v s k
    have hall := hends v s k rfl
    cases turns with
    | zero => exact within_nil
    | succ turns =>
        unfold searchTouches
        rw [if_neg (by rw [hall]; exact fun hcond => Nat.lt_irrefl _ hcond.2)]
        exact within_nil
  · exact within_nil

/-- The search stays in the ring exactly if all its places do. -/
theorem searchTouches_within {turns : ℕ} (hdrop : ds.drop n = s.deltas (-1) turns v.ghbIdx v.currLineIndex)
    (hafter : v.After s ds n) (hsize : 2 ≤ s.deltabSize) (hdegree : s.prefDegree ≠ 0) :
    Within s.deltabSize (searchTouches p addto stray procId loadPC turns v s queue) ↔ PlacesOk s.deltabSize ds n := by
  induction turns generalizing v s n queue with
  | zero => exact iff_of_true within_nil (placesOk_end (List.drop_eq_nil_iff.mp hdrop))
  | succ turns ih =>
      unfold searchTouches
      unfold PrefGhb.deltas at hdrop
      dsimp only at hdrop
      by_cases hptr : v.ghbIdx = -1
      · rw [if_neg fun hcond => hcond.1 hptr]
        rw [if_pos (.inl (.inl hptr))] at hdrop
        exact iff_of_true within_nil (placesOk_end (List.drop_eq_nil_iff.mp hdrop))
      · have hsent : v.numPrefSent < s.prefDegree := by
          rw [hafter.sent]
          omega
        rw [if_pos ⟨hptr, hsent⟩]
        by_cases hnear : Near (v.deltaAt s)
        · rw [if_neg fun hstop => hstop.elim (fun hend => hptr (hend.elim id id)) hnear] at hdrop
          obtain ⟨hlt, hget, hrest⟩ := drop_eq_cons hdrop
          obtain ⟨hplace, hstep⟩ := @Search.Turn.step p κ addto n ds s stray procId loadPC v queue
            ⟨hafter, hnear, hget.symm, hsize⟩ hdegree
          rw [within_append, hplace, placesOk_succ hlt]
          refine and_congr_right fun hok => ?_
          cases hstep hok with
          | inl hover => exact iff_of_true (within_after _ turns hover.1) hover.2
          | inr hmore =>
              obtain ⟨v', buffer, hout, hidx, hafter'⟩ := hmore
              rw [hout]
              refine ih (s := { s with deltaBuffer := buffer }) ?_
                ⟨hafter'.head, hafter'.last, hafter'.sent, hafter'.seen⟩ hsize hdegree
              rw [hrest]
              unfold Search.back
              rw [hidx]
              have hsame : s.SameLinks { s with deltaBuffer := buffer } := ⟨rfl, rfl, rfl⟩
              exact (hsame.deltas _ _ _ _).symm
        · rw [if_pos (.inr (not_not.mp hnear))] at hdrop
          refine iff_of_true ?_ (placesOk_end (List.drop_eq_nil_iff.mp hdrop))
          have hturn : turnTouches p addto stray procId loadPC v s queue = [] := if_pos (not_not.mp hnear)
          have hend : searchTurn p addto stray procId loadPC v s queue = .ok (none, s, queue) := if_pos (not_not.mp hnear)
          rw [hturn, hend]
          exact within_nil

end Scarab.Ghb
