import Scarab.Lib.Frequency
import Scarab.Lib.Recency
import Scarab.Prefetcher.Markov

/-! # Rows as lists of pairs

A row of the table is a list of pairs of a miss and its successor, each with its count: by LRU the
pair that was met last comes first, by LFU the counts do not grow along the row. -/

namespace Scarab.Markov

open Recency (touch touch_of_mem touch_of_not_mem)
open Frequency (Ordered place)

/-! ## The lists -/

/-- A miss, and the one that came after it. -/
abbrev Pair := Addr × Addr

abbrev Counted := Pair × Uns64

def Counted.rank (x : Counted) : ℕ := x.2.toNat

/-- One more, up to `MAX_CTR`. -/
def countUp (c : Uns64) : Uns64 := if c < maxCtr then c + 1 else c

/-- The pair moves to the front; the list is cut off at its width. -/
def lruTouch (width : ℕ) (pair : Pair) (l : List Counted) : List Counted :=
  match l.lookup pair with
  | some c => touch width pair (countUp c) l
  | none => touch width pair 1 l

/-- The pair passes those with a smaller count; a new one replaces the last one if the list is full. -/
def lfuTouch (width : ℕ) (pair : Pair) (l : List Counted) : List Counted :=
  match l.lookup pair with
  | some c => if c < maxCtr then place Counted.rank (pair, c + 1) (l.filter (·.1 ≠ pair)) else l
  | none => (l.take (width - 1) ++ [(pair, 1)]).take width

/-- The entry of a place. -/
def cell : Option Counted → MarkovTableEntry
  | none => .zero
  | some ((pred, succ), c) => ⟨true, succ, pred, c⟩

/-- The first places of a row hold a list, and the others are as at the start. -/
def Row.Cells (row : Row) (n : ℕ) (l : List Counted) : Prop := ∀ i < n, row i = cell l[i]?

/-- A row is a list: it fits, its pairs come first, and none comes twice. -/
structure Row.Lists (row : Row) (width : ℕ) (l : List Counted) : Prop where
  cells : row.Cells width l
  fits : l.length ≤ width
  nodup : (l.map (·.1)).Nodup

/-- The valid entries are the first ones. -/
theorem Row.Lists.valid_iff {row : Row} {width : ℕ} {l : List Counted} (h : row.Lists width l) {i : ℕ} (hi : i < width) :
    (row i).valid = true ↔ i < l.length := by
  rw [h.cells i hi]
  by_cases hlt : i < l.length
  · simp [cell, hlt]
  · simp [cell, hlt, MarkovTableEntry.zero]

theorem lookup_middle {front back : List Counted} {pair : Pair} {c : Uns64} (h : pair ∉ front.map (·.1)) :
    (front ++ (pair, c) :: back).lookup pair = some c := by
  induction front with
  | nil => simp
  | cons x front ih =>
      rw [List.map_cons, List.mem_cons, not_or] at h
      have hne : (pair == x.1) = false := by simpa using h.1
      rw [List.cons_append, List.lookup_cons, hne]
      exact ih h.2

theorem lookup_missing {l : List Counted} {pair : Pair} (h : pair ∉ l.map (·.1)) : l.lookup pair = none := by
  induction l with
  | nil => rfl
  | cons x l ih =>
      rw [List.map_cons, List.mem_cons, not_or] at h
      have hne : (pair == x.1) = false := by simpa using h.1
      rw [List.lookup_cons, hne]
      exact ih h.2

/-- A pair of the list splits it. -/
theorem split_of_mem {l : List Counted} {pair : Pair} (hmem : pair ∈ l.map (·.1)) (hnodup : (l.map (·.1)).Nodup) :
    ∃ front c back, l = front ++ (pair, c) :: back ∧ pair ∉ front.map (·.1) ∧ pair ∉ back.map (·.1) := by
  obtain ⟨x, hx, rfl⟩ := List.mem_map.mp hmem
  obtain ⟨front, back, rfl⟩ := List.append_of_mem hx
  rw [List.map_append, List.map_cons, List.nodup_middle, List.nodup_cons, List.mem_append, not_or] at hnodup
  exact ⟨front, x.2, back, rfl, hnodup.1.1, hnodup.1.2⟩

theorem filter_middle {front back : List Counted} {pair : Pair} {c : Uns64} (hfront : pair ∉ front.map (·.1))
    (hback : pair ∉ back.map (·.1)) : (front ++ (pair, c) :: back).filter (·.1 ≠ pair) = front ++ back := by
  have hkeep : ∀ l : List Counted, pair ∉ l.map (·.1) → l.filter (·.1 ≠ pair) = l := by
    intro l hl
    rw [List.filter_eq_self]
    intro x hx
    have hne : x.1 ≠ pair := fun heq => hl (heq ▸ List.mem_map_of_mem hx)
    simpa using hne
  rw [List.filter_append, List.filter_cons_of_neg (by simp), hkeep front hfront, hkeep back hback]

/-! ## The search -/

theorem cell_counted (pair : Pair) (c : Uns64) : (cell (some (pair, c))).counted = cell (some (pair, countUp c)) := by
  rw [MarkovTableEntry.counted, countUp, cell]
  simp only
  split <;> rfl

/-- The search finds a pair of the row where it is, and counts it. -/
theorem search_found {row : Row} {pair : Pair} {front back : List Counted} {c : Uns64} {n ii : ℕ}
    (hrow : ∀ j ≤ front.length, row (ii + j) = cell (front ++ (pair, c) :: back)[j]?) (hn : front.length < n)
    (hfront : pair ∉ front.map (·.1)) :
    search pair.1 pair.2 row n ii =
      ⟨ii + front.length, false, cell (some (pair, countUp c)),
        Function.update row (ii + front.length) (cell (some (pair, countUp c)))⟩ := by
  induction front generalizing n ii with
  | nil =>
      obtain ⟨n, rfl⟩ : ∃ m, n = m + 1 := ⟨n - 1, by simp only [List.length_nil] at hn; omega⟩
      have hhere : row ii = cell (some (pair, c)) := by simpa using hrow 0 (Nat.zero_le _)
      rw [search, hhere, cell_counted]
      simp [cell]
  | cons x front ih =>
      obtain ⟨n, rfl⟩ : ∃ m, n = m + 1 := ⟨n - 1, by simp only [List.length_cons] at hn; omega⟩
      rw [List.map_cons, List.mem_cons, not_or] at hfront
      have hhere : row ii = cell (some x) := by simpa using hrow 0 (Nat.zero_le _)
      have hother : ¬ ((row ii).nextAddr = pair.2 ∧ (row ii).tag = pair.1) := by
        rw [hhere]
        exact fun hsame => hfront.1 (Prod.ext hsame.2.symm hsame.1.symm)
      have hvalid : (row ii).valid = true := by rw [hhere, cell]
      rw [search, if_pos hvalid, if_neg hother, ih ?_ (Nat.succ_lt_succ_iff.mp hn) hfront.2]
      · rw [List.length_cons, Nat.add_right_comm, Nat.add_assoc]
      · intro j hj
        have hlater := hrow (j + 1) (Nat.succ_le_succ hj)
        rw [List.cons_append, List.getElem?_cons_succ] at hlater
        rw [← hlater, Nat.add_assoc, Nat.add_comm 1 j]

/-- The search for another pair ends behind the list. -/
theorem search_missing {row : Row} {pair : Pair} {l : List Counted} {n ii : ℕ}
    (hrow : ∀ j < n, row (ii + j) = cell l[j]?) (hn : l.length ≤ n) (hmissing : pair ∉ l.map (·.1)) :
    search pair.1 pair.2 row n ii = ⟨ii + l.length, decide (l.length < n), .zero, row⟩ := by
  induction l generalizing n ii with
  | nil =>
      cases n with
      | zero => rfl
      | succ n =>
          have hhere : row ii = .zero := by simpa [cell] using hrow 0 (Nat.succ_pos n)
          rw [search, hhere]
          simp [MarkovTableEntry.zero]
  | cons x l ih =>
      obtain ⟨n, rfl⟩ : ∃ m, n = m + 1 := ⟨n - 1, by simp only [List.length_cons] at hn; omega⟩
      rw [List.map_cons, List.mem_cons, not_or] at hmissing
      have hhere : row ii = cell (some x) := by simpa using hrow 0 (Nat.succ_pos n)
      have hother : ¬ ((row ii).nextAddr = pair.2 ∧ (row ii).tag = pair.1) := by
        rw [hhere]
        exact fun hsame => hmissing.1 (Prod.ext hsame.2.symm hsame.1.symm)
      have hvalid : (row ii).valid = true := by rw [hhere, cell]
      rw [search, if_pos hvalid, if_neg hother, ih ?_ (Nat.succ_le_succ_iff.mp hn) hmissing.2]
      · rw [List.length_cons, Nat.add_right_comm, Nat.add_assoc]
        simp
      · intro j hj
        have hlater := hrow (j + 1) (Nat.succ_lt_succ hj)
        rw [List.getElem?_cons_succ] at hlater
        rw [← hlater, Nat.add_assoc, Nat.add_comm 1 j]

/-! ## The loops -/

/-- Two neighbours change places. -/
theorem Row.Cells.swap {row : Row} {n : ℕ} {front back : List Counted} {x y : Counted}
    (h : row.Cells n (front ++ y :: x :: back)) (hn : front.length + 1 < n) :
    Row.Cells (Function.update (Function.update row (front.length + 1) (row front.length)) front.length
      (row (front.length + 1))) n (front ++ x :: y :: back) := by
  intro i hi
  by_cases hfirst : i = front.length
  · subst hfirst
    rw [Function.update_self, h _ hn]
    simp
  · rw [Function.update_of_ne hfirst]
    by_cases hsecond : i = front.length + 1
    · subst hsecond
      rw [Function.update_self, h _ (by omega)]
      simp
    · rw [Function.update_of_ne hsecond, h i hi]
      by_cases hlow : i < front.length
      · rw [List.getElem?_append_left hlow, List.getElem?_append_left hlow]
      · obtain ⟨j, rfl⟩ : ∃ j, i = front.length + (j + 2) := ⟨i - front.length - 2, by omega⟩
        rw [List.getElem?_append_right (Nat.le_add_right ..), List.getElem?_append_right (Nat.le_add_right ..),
          Nat.add_sub_cancel_left]
        rfl

theorem cell_count (x : Counted) : (cell (some x)).count = x.2 := rfl

/-- The loop of the LFU policy places an entry among those before it. -/
theorem Row.Cells.bubble {row : Row} {n : ℕ} {front back : List Counted} {x : Counted}
    (h : row.Cells n (front ++ x :: back)) (hn : front.length < n) (hordered : Ordered Counted.rank front) :
    Row.Cells (bubble front.length row) n (place Counted.rank x front ++ back) := by
  induction front using List.reverseRecOn generalizing row back with
  | nil => exact h
  | append_singleton front y ih =>
      rw [List.append_assoc, List.singleton_append] at h
      rw [List.length_append, List.length_singleton] at hn ⊢
      have hy : row front.length = cell (some y) := by simpa using h front.length (by omega)
      have hx : row (front.length + 1) = cell (some x) := by simpa using h (front.length + 1) hn
      rw [Markov.bubble]
      by_cases hlt : (row front.length).count < (row (front.length + 1)).count
      · rw [if_pos hlt]
        have hrank : y.rank < x.rank := by
          rw [hx, hy, cell_count, cell_count] at hlt
          exact hlt
        have hplace : place Counted.rank x (front ++ [y]) = place Counted.rank x front ++ [y] :=
          Frequency.place_append fun z hz => (List.mem_singleton.mp hz) ▸ hrank
        rw [hplace, List.append_assoc]
        exact ih (h.swap hn) (by omega) (List.pairwise_append.mp hordered).1
      · rw [if_neg hlt]
        have hrank : x.rank ≤ y.rank := by
          rw [hx, hy, cell_count, cell_count] at hlt
          exact Nat.not_lt.mp hlt
        have hplace : place Counted.rank x (front ++ [y]) = front ++ [y] ++ [x] :=
          Frequency.place_last fun z hz => Nat.le_trans hrank (hordered.le_last z hz)
        rw [hplace]
        simpa using h

/-- The loop of the LRU policy makes room in front for an entry, in the place of another. -/
theorem Row.Cells.shiftBack {row : Row} {n : ℕ} {front back : List Counted} {x y : Counted}
    (h : ∀ i < n, i ≠ front.length → row i = cell (front ++ y :: back)[i]?) :
    Row.Cells (Function.update (shiftBack front.length row) 0 (cell (some x))) n (x :: (front ++ back)) := by
  intro i hi
  cases i with
  | zero => simp
  | succ i =>
      rw [Function.update_of_ne (Nat.succ_ne_zero i), shiftBack_apply, List.getElem?_cons_succ]
      by_cases hlow : i < front.length
      · rw [if_pos (by omega), Nat.succ_sub_one, h i (by omega) (by omega), List.getElem?_append_left hlow,
          List.getElem?_append_left hlow]
      · obtain ⟨j, rfl⟩ : ∃ j, i = front.length + j := ⟨i - front.length, by omega⟩
        rw [if_neg (by omega), h _ hi (by omega), Nat.add_assoc, List.getElem?_append_right (Nat.le_add_right ..),
          List.getElem?_append_right (Nat.le_add_right ..), Nat.add_sub_cancel_left, Nat.add_sub_cancel_left]
        rfl

/-! ## Updating -/

section

variable {p : Params} {row : Row} {l : List Counted} {pair : Pair}

/-- How the search goes for a pair of the list. -/
theorem Row.Lists.search_found {w : ℕ} {front back : List Counted} {c : Uns64}
    (h : row.Lists w (front ++ (pair, c) :: back)) (hfront : pair ∉ front.map (·.1)) :
    front.length < w ∧ search pair.1 pair.2 row w 0 =
      ⟨front.length, false, cell (some (pair, countUp c)),
        Function.update row front.length (cell (some (pair, countUp c)))⟩ := by
  have hlen : front.length < w := by
    have hfits := h.fits
    simp only [List.length_append, List.length_cons] at hfits
    omega
  refine ⟨hlen, ?_⟩
  have hsearch : search pair.1 pair.2 row w 0 =
      ⟨0 + front.length, false, cell (some (pair, countUp c)),
        Function.update row (0 + front.length) (cell (some (pair, countUp c)))⟩ :=
    Markov.search_found (fun j hj => by rw [Nat.zero_add]; exact h.cells j (by omega)) hlen hfront
  rw [hsearch, Nat.zero_add]

theorem Row.Lists.search_missing {w : ℕ} (h : row.Lists w l) (hmissing : pair ∉ l.map (·.1)) :
    search pair.1 pair.2 row w 0 = ⟨l.length, decide (l.length < w), .zero, row⟩ := by
  have hsearch : search pair.1 pair.2 row w 0 = ⟨0 + l.length, decide (l.length < w), .zero, row⟩ :=
    Markov.search_missing (fun j hj => by rw [Nat.zero_add]; exact h.cells j hj) h.fits hmissing
  rw [hsearch, Nat.zero_add]

/-- The place of a new entry: behind the list, or the last one of a full row. -/
theorem newPlace {w : Uns} (hfits : l.length ≤ w.toNat) (hw : 0 < w.toNat) :
    (if l.length = w.toNat then (w - 1).toNat else l.length) = (l.take (w.toNat - 1)).length := by
  rw [List.length_take]
  by_cases hfull : l.length = w.toNat
  · rw [if_pos hfull]
    have hpred : (w - 1).toNat = w.toNat - 1 := by
      have hone : (1 : Uns) ≤ w := hw
      rw [BitVec.toNat_sub_of_le hone]
      rfl
    omega
  · rw [if_neg hfull]
    omega

/-- An entry is written at a place of the row. -/
theorem Row.Cells.write {n i : ℕ} {m : List Counted} (h : row.Cells n l) (hi : i < n) (x : Counted)
    (hm : ∀ j < n, m[j]? = if j = i then some x else l[j]?) : Row.Cells (Function.update row i (cell (some x))) n m := by
  intro j hj
  rw [hm j hj]
  by_cases hsame : j = i
  · subst hsame
    rw [Function.update_self, if_pos rfl]
  · rw [Function.update_of_ne hsame, if_neg hsame, h j hj]

/-- The list with a new entry at its place. -/
theorem getElem?_newPlace {w i : ℕ} {x : Counted} (hi : i < w) :
    (l.take (w - 1) ++ [x])[i]? = if i = (l.take (w - 1)).length then some x else l[i]? := by
  by_cases hplace : i = (l.take (w - 1)).length
  · subst hplace
    rw [if_pos rfl, List.getElem?_concat_length]
  · rw [if_neg hplace]
    rw [List.length_take] at hplace
    by_cases hlow : i < min (w - 1) l.length
    · rw [List.getElem?_append_left (by rwa [List.length_take]), List.getElem?_take_of_lt (by omega)]
    · rw [List.getElem?_eq_none (by simp only [List.length_append, List.length_take, List.length_singleton]; omega),
        List.getElem?_eq_none (by omega)]

theorem nodup_touch {w : ℕ} {c : Uns64} (h : (l.map (·.1)).Nodup) : ((touch w pair c l).map (·.1)).Nodup := by
  have hall : (((pair, c) :: l.filter (·.1 ≠ pair)).map (·.1)).Nodup := by
    rw [List.map_cons, List.nodup_cons]
    refine ⟨?_, h.sublist (List.filter_sublist.map _)⟩
    intro hmem
    obtain ⟨x, hx, hkey⟩ := List.mem_map.mp hmem
    have hne := (List.mem_filter.mp hx).2
    simp only [decide_not, Bool.not_eq_true', decide_eq_false_iff_not] at hne
    exact hne hkey
  exact hall.sublist ((List.take_sublist _ _).map _)

/-- By LRU the row stays a list, to which the pair was moved up. -/
theorem Row.Lists.updateRow_lru (h : row.Lists p.numNextStates.toNat l) (hpolicy : p.tableUpdatePolicy = 0) :
    (updateRow p pair.1 pair.2 row).Lists p.numNextStates.toNat (lruTouch p.numNextStates.toNat pair l) := by
  rw [updateRow]
  simp only [if_pos hpolicy]
  by_cases hmem : pair ∈ l.map (·.1)
  · obtain ⟨front, c, back, rfl, hfront, hback⟩ := split_of_mem hmem h.nodup
    obtain ⟨hlen, hsearch⟩ := h.search_found hfront
    have htouch : lruTouch p.numNextStates.toNat pair (front ++ (pair, c) :: back) =
        touch p.numNextStates.toNat pair (countUp c) (front ++ (pair, c) :: back) := by
      rw [lruTouch, lookup_middle hfront]
    rw [htouch]
    refine ⟨?_, List.length_take_le .., nodup_touch h.nodup⟩
    rw [hsearch, touch_of_mem h.fits h.nodup]
    simp only [if_neg (Nat.ne_of_lt hlen), decide_eq_false (Nat.ne_of_lt hlen), Bool.or_self, Bool.false_eq_true, if_false]
    refine Row.Cells.shiftBack (y := (pair, c)) fun i hi hne => ?_
    rw [Function.update_of_ne hne]
    exact h.cells i hi
  · have htouch : lruTouch p.numNextStates.toNat pair l = touch p.numNextStates.toNat pair 1 l := by
      rw [lruTouch, lookup_missing hmem]
    rw [htouch]
    refine ⟨?_, List.length_take_le .., nodup_touch h.nodup⟩
    rw [h.search_missing hmem, touch_of_not_mem hmem]
    rcases Nat.eq_zero_or_pos p.numNextStates.toNat with hzero | hw
    · rw [hzero]
      exact fun i hi => absurd hi (Nat.not_lt_zero i)
    · have hnew : (decide (l.length < p.numNextStates.toNat) || decide (l.length = p.numNextStates.toNat)) = true := by
        rcases Nat.lt_or_eq_of_le h.fits with hlt | heq
        · simp [hlt]
        · simp [heq]
      simp only [hnew, if_true, newPlace h.fits hw]
      have hcells : Row.Cells (Function.update (shiftBack (l.take (p.numNextStates.toNat - 1)).length row) 0
          (cell (some (pair, 1)))) p.numNextStates.toNat ((pair, 1) :: (l.take (p.numNextStates.toNat - 1) ++ [])) := by
        refine Row.Cells.shiftBack (y := (pair, 1)) fun i hi hne => ?_
        rw [h.cells i hi, getElem?_newPlace hi, if_neg hne]
      rw [show p.numNextStates.toNat = p.numNextStates.toNat - 1 + 1 by omega, List.take_succ_cons]
      rw [List.append_nil] at hcells
      rw [Nat.sub_add_cancel hw]
      exact hcells

/-- The pair moves on when its count has grown. -/
theorem lfuTouch_found {w : ℕ} {front back : List Counted} {c : Uns64} (hfront : pair ∉ front.map (·.1))
    (hback : pair ∉ back.map (·.1)) (hordered : Ordered Counted.rank (front ++ (pair, c) :: back)) :
    lfuTouch w pair (front ++ (pair, c) :: back) = place Counted.rank (pair, countUp c) front ++ back := by
  rw [lfuTouch, lookup_middle hfront]
  simp only
  by_cases hlt : c < maxCtr
  · have hup : countUp c = c + 1 := if_pos hlt
    rw [if_pos hlt, filter_middle hfront hback, hup]
    refine Frequency.place_append fun x hx => ?_
    have hle : x.rank ≤ Counted.rank (pair, c) :=
      (List.pairwise_cons.mp (List.pairwise_append.mp hordered).2.1).1 x hx
    have hgrows : Counted.rank (pair, c) < Counted.rank (pair, c + 1) := by
      have htop : c.toNat < 2 ^ 64 - 1 := hlt
      simp only [Counted.rank, BitVec.toNat_add]
      have hone : (1 : Uns64).toNat = 1 := rfl
      rw [hone, Nat.mod_eq_of_lt (by omega)]
      omega
    exact Nat.lt_of_le_of_lt hle hgrows
  · have hup : countUp c = c := if_neg hlt
    rw [if_neg hlt, hup]
    have hlast : place Counted.rank (pair, c) front = front ++ [(pair, c)] :=
      Frequency.place_last fun x hx => (List.pairwise_append.mp hordered).2.2 x hx (pair, c) (List.mem_cons_self ..)
    rw [hlast, List.append_assoc]
    rfl

theorem lfuTouch_missing {w : ℕ} (hw : 0 < w) (hmissing : pair ∉ l.map (·.1)) :
    lfuTouch w pair l = l.take (w - 1) ++ [(pair, 1)] := by
  rw [lfuTouch, lookup_missing hmissing]
  refine List.take_of_length_le ?_
  simp only [List.length_append, List.length_take, List.length_singleton]
  omega

/-- The counts of a row start at 1 and do not grow along it. -/
structure Ranked (l : List Counted) : Prop where
  ordered : Ordered Counted.rank l
  positive : ∀ x ∈ l, 1 ≤ x.rank

theorem Ranked.nil : Ranked [] := ⟨List.Pairwise.nil, by simp⟩

theorem countUp_positive {c : Uns64} (h : 1 ≤ c.toNat) : 1 ≤ (countUp c).toNat := by
  rw [countUp]
  by_cases hlt : c < maxCtr
  · have htop : c.toNat < 2 ^ 64 - 1 := hlt
    have hone : (1 : Uns64).toNat = 1 := rfl
    rw [if_pos hlt, BitVec.toNat_add, hone, Nat.mod_eq_of_lt (by omega)]
    omega
  · rwa [if_neg hlt]

/-- By LFU the counts stay in order. -/
theorem Ranked.touch {w : ℕ} (h : Ranked l) (hnodup : (l.map (·.1)).Nodup) (hw : 0 < w) : Ranked (lfuTouch w pair l) := by
  by_cases hmem : pair ∈ l.map (·.1)
  · obtain ⟨front, c, back, rfl, hfront, hback⟩ := split_of_mem hmem hnodup
    have hplaced : lfuTouch w pair (front ++ (pair, c) :: back) = place Counted.rank (pair, countUp c) front ++ back :=
      lfuTouch_found hfront hback h.ordered
    have hpos : 1 ≤ Counted.rank (pair, countUp c) := countUp_positive (h.positive (pair, c) (by simp))
    refine ⟨?_, ?_⟩
    · rw [lfuTouch, lookup_middle hfront]
      simp only
      by_cases hlt : c < maxCtr
      · rw [if_pos hlt]
        have hrest : Ordered Counted.rank ((front ++ (pair, c) :: back).filter (·.1 ≠ pair)) :=
          List.Pairwise.filter _ h.ordered
        exact hrest.place
      · rw [if_neg hlt]
        exact h.ordered
    · rw [hplaced]
      intro x hx
      rcases List.mem_append.mp hx with hin | hin
      · rcases List.mem_cons.mp ((Frequency.perm_place _ _).subset hin) with rfl | hold
        · exact hpos
        · exact h.positive x (List.mem_append_left _ hold)
      · exact h.positive x (List.mem_append_right _ (List.mem_cons_of_mem _ hin))
  · rw [lfuTouch_missing hw hmem]
    refine ⟨?_, ?_⟩
    · refine List.pairwise_append.mpr ⟨h.ordered.sublist (List.take_sublist _ _), List.pairwise_singleton _ _, ?_⟩
      intro x hx y hy
      rw [List.mem_singleton.mp hy]
      exact h.positive x (List.mem_of_mem_take hx)
    · intro x hx
      rcases List.mem_append.mp hx with hold | hnew
      · exact h.positive x (List.mem_of_mem_take hold)
      · rw [List.mem_singleton.mp hnew]
        exact Nat.le_refl 1

/-- By LFU the row stays a list, in which the pair went past those with a smaller count. -/
theorem Row.Lists.updateRow_lfu (h : row.Lists p.numNextStates.toNat l) (hranked : Ranked l)
    (hpolicy : p.tableUpdatePolicy = 1) :
    (updateRow p pair.1 pair.2 row).Lists p.numNextStates.toNat (lfuTouch p.numNextStates.toNat pair l) := by
  have hlru : ¬ p.tableUpdatePolicy = 0 := by
    rw [hpolicy]
    decide
  rw [updateRow]
  simp only [if_neg hlru, if_pos hpolicy]
  by_cases hmem : pair ∈ l.map (·.1)
  · obtain ⟨front, c, back, rfl, hfront, hback⟩ := split_of_mem hmem h.nodup
    obtain ⟨hlen, hsearch⟩ := h.search_found hfront
    rw [hsearch, lfuTouch_found hfront hback hranked.ordered]
    simp only [if_neg (Nat.ne_of_lt hlen), decide_eq_false (Nat.ne_of_lt hlen), Bool.or_self, Bool.false_eq_true, if_false]
    have hperm : (place Counted.rank (pair, countUp c) front ++ back).Perm (front ++ (pair, countUp c) :: back) :=
      ((Frequency.perm_place _ _).append_right back).trans List.perm_middle.symm
    refine ⟨?_, ?_, ?_⟩
    · refine Row.Cells.bubble ?_ hlen (List.pairwise_append.mp hranked.ordered).1
      refine h.cells.write hlen _ fun j hj => ?_
      by_cases hsame : j = front.length
      · subst hsame
        simp
      · rw [if_neg hsame]
        by_cases hlow : j < front.length
        · rw [List.getElem?_append_left hlow, List.getElem?_append_left hlow]
        · obtain ⟨m, rfl⟩ : ∃ m, j = front.length + (m + 1) := ⟨j - front.length - 1, by omega⟩
          rw [List.getElem?_append_right (Nat.le_add_right ..), List.getElem?_append_right (Nat.le_add_right ..),
            Nat.add_sub_cancel_left]
          rfl
    · rw [hperm.length_eq]
      simpa using h.fits
    · refine ((hperm.map (·.1)).nodup_iff).mpr ?_
      simpa using h.nodup
  · rw [h.search_missing hmem]
    rcases Nat.eq_zero_or_pos p.numNextStates.toNat with hzero | hw
    · have hempty : l = [] := List.eq_nil_of_length_eq_zero (Nat.le_zero.mp (hzero ▸ h.fits))
      subst hempty
      rw [hzero]
      exact ⟨fun i hi => absurd hi (Nat.not_lt_zero i), Nat.le_refl 0, List.nodup_nil⟩
    · have hnew : (decide (l.length < p.numNextStates.toNat) || decide (l.length = p.numNextStates.toNat)) = true := by
        rcases Nat.lt_or_eq_of_le h.fits with hlt | heq
        · simp [hlt]
        · simp [heq]
      simp only [hnew, if_true, newPlace h.fits hw]
      rw [lfuTouch_missing hw hmem]
      refine ⟨?_, ?_, ?_⟩
      · have hplace : (l.take (p.numNextStates.toNat - 1)).length < p.numNextStates.toNat := by
          rw [List.length_take]
          omega
        exact h.cells.write hplace (pair, 1) fun j hj => getElem?_newPlace hj
      · simp only [List.length_append, List.length_take, List.length_singleton]
        omega
      · rw [List.map_append, List.nodup_append]
        refine ⟨h.nodup.sublist ((List.take_sublist _ _).map _), List.nodup_singleton _, ?_⟩
        rintro x hx y hy rfl
        obtain ⟨e, he, hkey⟩ := List.mem_map.mp hx
        have hpair : x = pair := List.mem_singleton.mp hy
        exact hmem (hpair ▸ hkey ▸ List.mem_map_of_mem (List.mem_of_mem_take he))

end

/-! ## Runs -/

/-- A call of `pref_markov_ul1_miss` or `pref_markov_ul1_prefhit`. -/
structure Call where
  procId : Uns8
  lineAddr : Addr
  /-- A miss, not a hit on a prefetched line. -/
  trueMiss : Bool

section

variable (p : Params) {κ : Type} (addto : Ul1Queue κ) (hwpId : Uns8)

def callStep (s : (Uns8 → PrefMarkov) × κ) (c : Call) : (Uns8 → PrefMarkov) × κ :=
  if c.trueMiss then prefMarkovUl1Miss p addto hwpId s.1 c.procId c.lineAddr s.2
  else prefMarkovUl1Prefhit p addto hwpId s.1 c.procId c.lineAddr s.2

/-- The prefetchers of all cores after some calls, from the start. -/
def runCalls (k : κ) (calls : List Call) : (Uns8 → PrefMarkov) × κ :=
  calls.foldl (callStep p addto hwpId) (fun _ => .init, k)

/-- The call is for the core, and updates its table. -/
def Call.Updates (procId : Uns8) (c : Call) : Prop := c.procId = procId ∧ (c.trueMiss = true ∨ p.updateOnPrefHit = true)

instance (procId : Uns8) (c : Call) : Decidable (c.Updates p procId) := inferInstanceAs (Decidable (_ ∧ _))

/-- The pairs of a core: each address that updates its table, after the last miss. There is none
before the first, and the address 0 counts as none. -/
def pairs (procId : Uns8) : Addr → List Call → List Pair
  | _, [] => []
  | lastMissAddr, c :: calls =>
      if c.Updates p procId then
        if lastMissAddr = 0 then pairs procId c.lineAddr calls
        else (lastMissAddr, c.lineAddr) :: pairs procId (if c.trueMiss then c.lineAddr else lastMissAddr) calls
      else pairs procId lastMissAddr calls

/-- The list of a row, by LRU. -/
def lruList (procId : Uns8) (idx : ℕ) (calls : List Call) : List Counted :=
  ((pairs p procId 0 calls).filter fun pair => p.tableIndex pair.1 = idx).foldl
    (fun l pair => lruTouch p.numNextStates.toNat pair l) []

/-- The list of a row, by LFU. -/
def lfuList (procId : Uns8) (idx : ℕ) (calls : List Call) : List Counted :=
  ((pairs p procId 0 calls).filter fun pair => p.tableIndex pair.1 = idx).foldl
    (fun l pair => lfuTouch p.numNextStates.toNat pair l) []

end

section

variable {p : Params} {κ : Type} {addto : Ul1Queue κ} {hwpId : Uns8}

/-- What a call does to the prefetcher of a core. -/
theorem callStep_core (p : Params) (addto : Ul1Queue κ) (hwpId : Uns8) (s : (Uns8 → PrefMarkov) × κ) (c : Call)
    (procId : Uns8) :
    (callStep p addto hwpId s c).1 procId =
      if c.Updates p procId then prefMarkovUpdateTable p (s.1 procId) c.lineAddr c.trueMiss else s.1 procId := by
  rw [callStep]
  by_cases hproc : c.procId = procId
  · subst hproc
    by_cases hmiss : c.trueMiss = true
    · have hyes : c.Updates p c.procId := ⟨rfl, .inl hmiss⟩
      rw [if_pos hmiss, if_pos hyes, hmiss]
      exact Function.update_self ..
    · rw [if_neg hmiss]
      have hhit : c.trueMiss = false := Bool.eq_false_iff.mpr hmiss
      by_cases hupdate : p.updateOnPrefHit = true
      · have hyes : c.Updates p c.procId := ⟨rfl, .inr hupdate⟩
        rw [if_pos hyes, hhit]
        rw [prefMarkovUl1Prefhit]
        simp only [if_pos hupdate]
        exact Function.update_self ..
      · have hno : ¬ c.Updates p c.procId := fun hboth => hboth.2.elim hmiss hupdate
        rw [if_neg hno]
        rw [prefMarkovUl1Prefhit]
        simp only [if_neg hupdate]
        exact Function.update_self ..
  · have hno : ¬ c.Updates p procId := fun hboth => hproc hboth.1
    rw [if_neg hno]
    by_cases hmiss : c.trueMiss = true
    · rw [if_pos hmiss]
      exact Function.update_of_ne (Ne.symm hproc) ..
    · rw [if_neg hmiss]
      exact Function.update_of_ne (Ne.symm hproc) ..

/-- A relation of rows and lists that every update keeps holds of a row and its list after a run. -/
theorem runCalls_row {R : Row → List Counted → Prop} {touch : Pair → List Counted → List Counted}
    (hstep : ∀ row l pair, R row l → R (updateRow p pair.1 pair.2 row) (touch pair l)) {s : (Uns8 → PrefMarkov) × κ}
    {procId : Uns8} {idx : ℕ} {l : List Counted} (h : R ((s.1 procId).markovTable idx) l) (calls : List Call) :
    R (((calls.foldl (callStep p addto hwpId) s).1 procId).markovTable idx)
      (((pairs p procId (s.1 procId).lastMissAddr calls).filter fun pair => p.tableIndex pair.1 = idx).foldl
        (fun l pair => touch pair l) l) := by
  induction calls generalizing s l with
  | nil => exact h
  | cons c calls ih =>
      have hcore := callStep_core p addto hwpId s c procId
      rw [List.foldl_cons, pairs]
      by_cases hupdates : c.Updates p procId
      · rw [if_pos hupdates] at hcore ⊢
        rw [prefMarkovUpdateTable] at hcore
        by_cases hnone : (s.1 procId).lastMissAddr = 0
        · rw [if_pos hnone] at hcore ⊢
          have hrest := ih (s := callStep p addto hwpId s c) (l := l) (by rw [hcore]; exact h)
          rwa [hcore] at hrest
        · rw [if_neg hnone] at hcore ⊢
          by_cases hidx : p.tableIndex (s.1 procId).lastMissAddr = idx
          · rw [List.filter_cons_of_pos (by simpa using hidx), List.foldl_cons]
            have hrow : R (((callStep p addto hwpId s c).1 procId).markovTable idx)
                (touch ((s.1 procId).lastMissAddr, c.lineAddr) l) := by
              rw [hcore, ← hidx]
              simp only [Function.update_self]
              rw [hidx]
              exact hstep _ _ ((s.1 procId).lastMissAddr, c.lineAddr) h
            have hrest := ih hrow
            rwa [hcore] at hrest
          · rw [List.filter_cons_of_neg (by simpa using hidx)]
            have hrow : R (((callStep p addto hwpId s c).1 procId).markovTable idx) l := by
              rw [hcore]
              simp only [Function.update_of_ne (Ne.symm hidx)]
              exact h
            have hrest := ih hrow
            rwa [hcore] at hrest
      · rw [if_neg hupdates] at hcore ⊢
        have hrest := ih (s := callStep p addto hwpId s c) (l := l) (by rw [hcore]; exact h)
        rwa [hcore] at hrest

/-- A row is a list, and its valid entries are the first ones. -/
structure Row.Holds (row : Row) (width : ℕ) (l : List Counted) : Prop extends row.Lists width l where
  valid : ∀ i < width, (row i).valid = true ↔ i < l.length

theorem Row.Lists.holds {row : Row} {width : ℕ} {l : List Counted} (h : row.Lists width l) : row.Holds width l :=
  ⟨h, fun _ hi => h.valid_iff hi⟩

theorem init_lists (w idx : ℕ) : Row.Lists (PrefMarkov.init.markovTable idx) w [] where
  cells := fun _ _ => rfl
  fits := Nat.zero_le w
  nodup := List.nodup_nil

end

/-- After any calls every row of every core is the list of the pairs that were met on it: the last
met first by LRU, with counts that do not grow by LFU. -/
theorem markovRows_list (p : Params) {κ : Type} (addto : Ul1Queue κ) (hwpId : Uns8) (k : κ) (calls : List Call)
    (procId : Uns8) (idx : ℕ) :
    (p.tableUpdatePolicy = 0 →
      Row.Holds (((runCalls p addto hwpId k calls).1 procId).markovTable idx) p.numNextStates.toNat
        (lruList p procId idx calls)) ∧
    (p.tableUpdatePolicy = 1 →
      Row.Holds (((runCalls p addto hwpId k calls).1 procId).markovTable idx) p.numNextStates.toNat
        (lfuList p procId idx calls) ∧
      Ordered Counted.rank (lfuList p procId idx calls)) := by
  refine ⟨fun hlru => ?_, fun hlfu => ?_⟩
  · have hrun : Row.Lists (((runCalls p addto hwpId k calls).1 procId).markovTable idx) p.numNextStates.toNat
        (lruList p procId idx calls) :=
      runCalls_row (R := fun row l => row.Lists p.numNextStates.toNat l) (s := (fun _ => .init, k))
        (fun row l pair h => h.updateRow_lru hlru) (init_lists _ idx) calls
    exact hrun.holds
  · have hrun : Row.Lists (((runCalls p addto hwpId k calls).1 procId).markovTable idx) p.numNextStates.toNat
          (lfuList p procId idx calls) ∧ Ranked (lfuList p procId idx calls) := by
      refine runCalls_row (R := fun row l => row.Lists p.numNextStates.toNat l ∧ Ranked l) (s := (fun _ => .init, k))
        ?_ ⟨init_lists _ idx, Ranked.nil⟩ calls
      rintro row l pair ⟨hlists, hranked⟩
      have hafter : Row.Lists (updateRow p pair.1 pair.2 row) p.numNextStates.toNat
          (lfuTouch p.numNextStates.toNat pair l) := hlists.updateRow_lfu hranked hlfu
      refine ⟨hafter, ?_⟩
      rcases Nat.eq_zero_or_pos p.numNextStates.toNat with hzero | hw
      · have hempty : lfuTouch p.numNextStates.toNat pair l = [] :=
          List.eq_nil_of_length_eq_zero (Nat.le_zero.mp (hzero ▸ hafter.fits))
        rw [hempty]
        exact Ranked.nil
      · exact hranked.touch hlists.nodup hw
    exact ⟨hrun.1.holds, hrun.2.ordered⟩

theorem markovRows_list_sixMisses :
    Row.Holds (((runCalls .default (fun _ queue => (true, queue)) 0 ()
        ([0x40, 0x80, 0x40, 0xc0, 0x40, 0x80].map fun addr => ⟨0, addr, true⟩)).1 0).markovTable 1) 8
      (lruList .default 0 1 ([0x40, 0x80, 0x40, 0xc0, 0x40, 0x80].map fun addr => ⟨0, addr, true⟩)) ∧
    Row.Holds (((runCalls { Params.default with tableUpdatePolicy := 1 } (fun _ queue => (true, queue)) 0 ()
        ([0x40, 0x80, 0x40, 0xc0, 0x40, 0x80].map fun addr => ⟨0, addr, true⟩)).1 0).markovTable 1) 8
      (lfuList { Params.default with tableUpdatePolicy := 1 } 0 1
        ([0x40, 0x80, 0x40, 0xc0, 0x40, 0x80].map fun addr => ⟨0, addr, true⟩)) :=
  ⟨(markovRows_list .default _ 0 () _ 0 1).1 rfl,
    ((markovRows_list { Params.default with tableUpdatePolicy := 1 } _ 0 () _ 0 1).2 rfl).1⟩

end Scarab.Markov
