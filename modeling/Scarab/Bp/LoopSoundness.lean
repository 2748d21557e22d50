import Scarab.Bp.LoopTraining
import Scarab.Lib.History

/-! # Constant loops

A branch that goes one way all but the last time of every round. As long as a round fits into the
counters, a valid prediction is right; the counters stop at 1023, and from 1024 on the stop is taken
for the end of the round. -/

namespace Scarab.Bp.Loop

open History (Always)

/-! ## Rounds that fit -/

/-- The direction of the iteration `j` of a round. -/
def roundDirection (trips : ℕ) (dir : Bool) (j : ℕ) : Bool := if j + 1 = trips then !dir else dir

/-- The iteration behind the iteration `j`. -/
def nextIteration (trips j : ℕ) : ℕ := if j + 1 = trips then 0 else j + 1

theorem direction_eq (trips : ℕ) (dir : Bool) (k : ℕ) : direction trips dir k = roundDirection trips dir (k % trips) := rfl

theorem succ_mod_eq {trips : ℕ} (htrips : 0 < trips) (k : ℕ) : (k + 1) % trips = nextIteration trips (k % trips) := by
  have hlt := Nat.mod_lt k htrips
  rw [nextIteration, Nat.add_mod]
  by_cases hone : trips = 1
  · subst hone
    simp [Nat.mod_one]
  · rw [Nat.mod_eq_of_lt (show 1 < trips by omega)]
    by_cases hlast : k % trips + 1 = trips
    · rw [if_pos hlast, hlast, Nat.mod_self]
    · rw [if_neg hlast, Nat.mod_eq_of_lt (by omega)]

/-- What an entry knows before the iteration `j` of a round. -/
inductive Entry.Learned (trips : ℕ) (dir : Bool) (j : ℕ) (e : Entry) : Prop where
  /-- It counts, from somewhere in the round. -/
  | counting : e.dir = dir → e.totalIterations = 0 → e.confidence ≤ 1 → e.currentIter.get ≤ j → Learned trips dir j e
  /-- It has counted only a part of a round. -/
  | partly : e.dir = dir → 0 < e.totalIterations → e.totalIterations < trips → e.confidence = 0 →
      e.currentIter.get = j → Learned trips dir j e
  | wholly : e.dir = dir → e.totalIterations = trips → e.currentIter.get = j → e.speculativeCurrentIter.get = j →
      Learned trips dir j e
  /-- It takes the end of the round for the loop. -/
  | reversed : e.dir = !dir → e.totalIterations ≤ 2 → e.confidence = 0 →
      e.currentIter.get ≤ (if j = 0 then 1 else 0) → Learned trips dir j e

theorem valid_of_confidence {e : Entry} (hlow : e.confidence ≤ 1) (hnone : e.totalIterations = 0 ∨ e.confidence = 0) :
    e.valid = false := by
  have hproduct : e.confidence * e.totalIterations = 0 := by
    rcases hnone with hzero | hzero
    · rw [hzero, Nat.mul_zero]
    · rw [hzero, Nat.zero_mul]
  have hthreshold : ¬ e.confidence = Config.tagescl.confidenceThreshold := by
    show ¬ e.confidence = 15
    omega
  simp [LoopPredictorEntry.valid, hproduct, hthreshold]

section

variable {trips j : ℕ} {dir : Bool} {e : Entry} {x : Execution}

/-- A valid prediction of an entry that fits is right. -/
theorem Entry.Learned.right (h : e.Learned trips dir j) (hvalid : e.valid = true) :
    e.prediction = roundDirection trips dir j := by
  cases h with
  | counting hdir htotal hconf hcurrent =>
      rw [valid_of_confidence hconf (.inl htotal)] at hvalid
      cases hvalid
  | partly hdir hpos htotal hconf hcurrent =>
      rw [valid_of_confidence (by omega) (.inr hconf)] at hvalid
      cases hvalid
  | wholly hdir htotal hcurrent hspec =>
      rw [LoopPredictorEntry.prediction, roundDirection, hdir, htotal, hspec]
  | reversed hdir htotal hconf hcurrent =>
      rw [valid_of_confidence (by omega) (.inr hconf)] at hvalid
      cases hvalid

/-- An execution within the round. -/
theorem Entry.Learned.train_body (h : e.Learned trips dir j) (hfits : trips ≤ 1023) (hj : j + 1 < trips) :
    Entry.Learned trips dir (j + 1) (x.train dir e) := by
  have hround : roundDirection trips dir j = dir := if_neg (by omega)
  have hright : e.valid = true → e.prediction = dir := fun hvalid => (h.right hvalid).trans hround
  cases h with
  | counting hdir htotal hconf hcurrent =>
      obtain ⟨hdir', hcurrent', htotal', hconf', -⟩ := x.train_same hright hdir.symm
      have hpos := counted_pos e
      rw [if_pos (by omega)] at htotal' hconf'
      refine .counting (hdir'.trans hdir) htotal' (by omega) ?_
      rw [hcurrent', Entry.counted]
      omega
  | partly hdir hpos htotal hconf hcurrent =>
      obtain ⟨hdir', hcurrent', htotal', hconf', -⟩ := x.train_same hright hdir.symm
      have hcounted : Entry.counted e = j + 1 := by
        rw [Entry.counted]
        omega
      rw [hcounted] at hcurrent' htotal' hconf'
      by_cases hmore : e.totalIterations < j + 1
      · rw [if_pos hmore] at htotal' hconf'
        exact .counting (hdir'.trans hdir) htotal' (by omega) (by omega)
      · rw [if_neg hmore] at htotal' hconf'
        exact .partly (hdir'.trans hdir) (by omega) (by omega) (by omega) hcurrent'
  | wholly hdir htotal hcurrent hspec =>
      obtain ⟨hdir', hcurrent', htotal', -, hspec'⟩ := x.train_same hright hdir.symm
      have hcounted : Entry.counted e = j + 1 := by
        rw [Entry.counted]
        omega
      have hspeculated : Entry.speculated e = j + 1 := by
        rw [Entry.speculated, if_neg (by omega), if_neg (by omega)]
        omega
      rw [hcounted, hspeculated, ite_self] at hspec'
      rw [hcounted, if_neg (by omega)] at htotal'
      exact .wholly (hdir'.trans hdir) (htotal'.trans htotal) (hcurrent'.trans hcounted) hspec'
  | reversed hdir htotal hconf hcurrent =>
      have hother : dir ≠ e.dir := by
        rw [hdir]
        cases dir <;> decide
      have hcounted : Entry.counted e ≤ 2 := by
        rw [Entry.counted]
        split at hcurrent <;> omega
      rcases Nat.lt_trichotomy e.totalIterations (Entry.counted e) with hmore | hsame | hfewer
      · obtain ⟨hdir', hcurrent', htotal', hconf', -⟩ := x.train_takes hright hother hmore
        exact .reversed (hdir'.trans hdir) (by omega) hconf' (by omega)
      · obtain ⟨hdir', hcurrent', htotal', hconf'⟩ := x.train_turns hright hother hsame.symm (by omega)
        exact .counting hdir' htotal' (by omega) (by omega)
      · obtain ⟨hdir', hcurrent', htotal', hconf'⟩ := x.train_forgets hright hother hfewer
        exact .reversed (hdir'.trans hdir) (by omega) hconf' (by omega)

/-- The execution that ends the round. -/
theorem Entry.Learned.train_exit (h : e.Learned trips dir j) (hthree : 3 ≤ trips) (hfits : trips ≤ 1023)
    (hj : j + 1 = trips) : Entry.Learned trips dir 0 (x.train (!dir) e) := by
  have hround : roundDirection trips dir j = !dir := if_pos hj
  have hright : e.valid = true → e.prediction = !dir := fun hvalid => (h.right hvalid).trans hround
  have hleaves : e.dir = dir → (!dir) ≠ e.dir := by
    intro hdir
    rw [hdir]
    cases dir <;> decide
  cases h with
  | counting hdir htotal hconf hcurrent =>
      have hpos := counted_pos e
      obtain ⟨hdir', hcurrent', htotal', hconf', hspec'⟩ := x.train_takes hright (hleaves hdir) (by omega)
      have hcounted : Entry.counted e ≤ trips := by
        rw [Entry.counted]
        omega
      rcases Nat.lt_or_eq_of_le hcounted with hlt | heq
      · exact .partly (hdir'.trans hdir) (by omega) (by omega) hconf' hcurrent'
      · exact .wholly (hdir'.trans hdir) (htotal'.trans heq) hcurrent' hspec'
  | partly hdir hpos htotal hconf hcurrent =>
      have hcounted : Entry.counted e = trips := by
        rw [Entry.counted]
        omega
      obtain ⟨hdir', hcurrent', htotal', -, hspec'⟩ := x.train_takes hright (hleaves hdir) (by omega)
      exact .wholly (hdir'.trans hdir) (htotal'.trans hcounted) hcurrent' hspec'
  | wholly hdir htotal hcurrent hspec =>
      have hcounted : Entry.counted e = trips := by
        rw [Entry.counted]
        omega
      obtain ⟨hdir', hcurrent', htotal', -, hspec'⟩ :=
        x.train_confirms hright (hleaves hdir) (hcounted.trans htotal.symm) (by omega)
      have hspeculated : Entry.speculated e = 0 := by
        rw [Entry.speculated, if_neg (by omega), if_pos (by omega)]
      rw [hspeculated, ite_self] at hspec'
      exact .wholly (hdir'.trans hdir) (htotal'.trans htotal) hcurrent' hspec'
  | reversed hdir htotal hconf hcurrent =>
      rw [if_neg (by omega)] at hcurrent
      obtain ⟨hdir', hcurrent', htotal', hconf', -⟩ := x.train_same hright hdir.symm
      have hcounted : Entry.counted e = 1 := by
        rw [Entry.counted]
        omega
      rw [hcounted] at hcurrent' htotal' hconf'
      refine .reversed (hdir'.trans hdir) ?_ ?_ (by simp [hcurrent'])
      · rw [htotal']
        split <;> omega
      · rw [hconf', hconf, ite_self]

theorem Entry.Learned.train (h : e.Learned trips dir j) (hthree : 3 ≤ trips) (hfits : trips ≤ 1023) (hj : j < trips) :
    Entry.Learned trips dir (nextIteration trips j) (x.train (roundDirection trips dir j) e) := by
  by_cases hlast : j + 1 = trips
  · rw [nextIteration, roundDirection, if_pos hlast, if_pos hlast]
    exact h.train_exit hthree hfits hlast
  · rw [nextIteration, roundDirection, if_neg hlast, if_neg hlast]
    exact h.train_body hfits (by omega)

/-- A new entry, made when an iteration was mispredicted. -/
theorem Entry.Learned.new (trips : ℕ) (dir : Bool) (j tag : ℕ) :
    Entry.Learned trips dir (nextIteration trips j) ⟨0, tag, 0, 7, !roundDirection trips dir j, .zero, .zero⟩ := by
  by_cases hlast : j + 1 = trips
  · rw [nextIteration, roundDirection, if_pos hlast, if_pos hlast]
    exact .counting (Bool.not_not dir) rfl (Nat.zero_le 1) (Nat.zero_le 0)
  · rw [nextIteration, roundDirection, if_neg hlast, if_neg hlast]
    exact .reversed rfl (Nat.zero_le 2) rfl (Nat.zero_le _)

end

/-- The entry that the branch hits knows where the branch is. -/
def TableLearned (brPc : Addr) (trips : ℕ) (dir : Bool) (s : Table Config.tagescl × ℕ) : Prop :=
  ∀ i, lookup s.1 brPc = some i → Entry.Learned trips dir (s.2 % trips) (s.1 (getIndices .tagescl brPc i))

section

variable {brPc : Addr} {trips : ℕ} {dir : Bool}

theorem TableLearned.step {s : Table Config.tagescl × ℕ} (h : TableLearned brPc trips dir s) (hthree : 3 ≤ trips)
    (hfits : trips ≤ 1023) (x : Execution) : TableLearned brPc trips dir (step brPc trips dir s x) := by
  intro i hi
  rw [Loop.step] at hi ⊢
  simp only at hi ⊢
  rw [succ_mod_eq (by omega), direction_eq] at *
  cases hlookup : lookup s.1 brPc with
  | some bank =>
      have hsame : bank = i := Option.some.inj ((Execution.lookup_execute_hit hlookup).symm.trans hi)
      subst hsame
      rw [Execution.execute_hit hlookup, Function.update_self]
      exact (h bank hlookup).train hthree hfits (Nat.mod_lt _ (by omega))
  | none =>
      have hmissing : ∀ j, ¬ (s.1 (getIndices .tagescl brPc j)).tag = getTag .tagescl brPc := by
        intro j
        have hnone := List.find?_eq_none.mp hlookup j (List.mem_finRange j)
        simpa using hnone
      have htag := lookup_tag hi
      rw [Execution.execute_miss hlookup] at htag ⊢
      by_cases hmade : x.finallyMispredicted = true ∧ x.draw₂ &&& 3 = 0
      · rw [if_pos hmade] at htag ⊢
        by_cases hplace : getIndices .tagescl brPc i =
            getIndices .tagescl brPc (Fin.ofNat 4 (x.draw₁ &&& 3).toNat)
        · rw [hplace, Function.update_self, LoopPredictorEntry.allocate] at htag ⊢
          by_cases hold : (s.1 (getIndices .tagescl brPc (Fin.ofNat 4 (x.draw₁ &&& 3).toNat))).age = 0
          · rw [if_pos hold] at htag ⊢
            exact .new trips dir (s.2 % trips) _
          · rw [if_neg hold] at htag
            exact absurd htag (hmissing _)
        · rw [Function.update_of_ne hplace, x.finds_index] at htag
          exact absurd htag (hmissing i)
      · rw [if_neg hmade, x.finds_index] at htag
        exact absurd htag (hmissing i)

theorem run_learned (hthree : 3 ≤ trips) (hfits : trips ≤ 1023) (executions : List Execution) :
    TableLearned brPc trips dir (run brPc trips dir executions) := by
  induction executions using List.reverseRecOn with
  | nil =>
      intro i hi
      rw [run, List.foldl_nil, Nat.zero_mod]
      cases dir with
      | false => exact .counting rfl rfl (Nat.zero_le 1) (Nat.zero_le 0)
      | true => exact .reversed rfl (Nat.zero_le 2) rfl (Nat.zero_le _)
  | append_singleton executions x ih =>
      rw [run_concat]
      exact ih.step hthree hfits x

/-- A valid prediction is the direction of the execution. -/
def Sound (brPc : Addr) (trips : ℕ) (dir : Bool) (before : List Execution) (x : Execution) : Prop :=
  let info := getPrediction (x.finds brPc (run brPc trips dir before).1) brPc
  info.valid = true → info.prediction = direction trips dir before.length

/-- What is predicted is what the entry says. -/
theorem getPrediction_hit {table : Table Config.tagescl} {i : Fin 4} (x : Execution) (h : lookup table brPc = some i) :
    (getPrediction (x.finds brPc table) brPc).valid = (table (getIndices .tagescl brPc i)).valid ∧
      (getPrediction (x.finds brPc table) brPc).prediction = (table (getIndices .tagescl brPc i)).prediction := by
  have hfinds : lookup (x.finds brPc table) brPc = some i := (lookup_finds x brPc table).trans h
  simp only [getPrediction, hfinds, x.finds_index, and_self]

theorem sound_of_fits (hthree : 3 ≤ trips) (hfits : trips ≤ 1023) (before : List Execution) (x : Execution) :
    Sound brPc trips dir before x := by
  intro hvalid
  have hlearned : TableLearned brPc trips dir (run brPc trips dir before) := run_learned hthree hfits before
  cases hlookup : lookup (run brPc trips dir before).1 brPc with
  | none =>
      have hfinds := (lookup_finds x brPc (run brPc trips dir before).1).trans hlookup
      simp only [getPrediction, hfinds] at hvalid
      cases hvalid
  | some i =>
      obtain ⟨hv, hp⟩ := getPrediction_hit x hlookup
      rw [hv] at hvalid
      rw [hp, direction_eq, ← run_count brPc trips dir before]
      exact (hlearned i hlookup).right hvalid

/-! ## Rounds that do not fit -/

/-- Some executions bring the branch to an entry. -/
def Reaches (brPc : Addr) (trips : ℕ) (dir : Bool) (k : ℕ) (e : Entry) : Prop :=
  ∃ before : List Execution, before.length = k ∧ ∃ i, lookup (run brPc trips dir before).1 brPc = some i ∧
    (run brPc trips dir before).1 (getIndices .tagescl brPc i) = e

theorem Reaches.train {k : ℕ} {e : Entry} (h : Reaches brPc trips dir k e) (x : Execution) :
    Reaches brPc trips dir (k + 1) (x.train (direction trips dir k) e) := by
  obtain ⟨before, rfl, i, hlookup, rfl⟩ := h
  refine ⟨before ++ [x], List.length_append .., i, ?_, ?_⟩
  · rw [run_concat, Loop.step]
    exact Execution.lookup_execute_hit hlookup
  · rw [run_concat, Loop.step, Execution.execute_hit hlookup]
    simp only [Function.update_self, run_count]

/-- A valid prediction of an entry that is wrong. -/
theorem Reaches.unsound {k : ℕ} {e : Entry} (h : Reaches brPc trips dir k e) (hvalid : e.valid = true)
    (hwrong : e.prediction ≠ direction trips dir k) :
    ¬ ∀ executions : List Execution, Always (Sound brPc trips dir) executions := by
  obtain ⟨before, rfl, i, hlookup, rfl⟩ := h
  intro hsound
  let x : Execution := ⟨false, true, 0, 0, fun _ => .new _⟩
  obtain ⟨hv, hp⟩ := getPrediction_hit x hlookup
  have hright := hsound (before ++ [x]) before x [] rfl (hv.trans hvalid)
  exact hwrong (hp.symm.trans hright)

/-- Nothing is mispredicted in the end. -/
def quiet : Execution := ⟨false, true, 0, 0, fun _ => .new _⟩

theorem add_mod_of_lt {k m : ℕ} (h : k % trips + m < trips) : (k + m) % trips = k % trips + m := by
  rw [Nat.add_mod, Nat.mod_eq_of_lt (show m < trips by omega), Nat.mod_eq_of_lt h]

theorem direction_body {k m : ℕ} (h : k % trips + m + 1 < trips) : direction trips dir (k + m) = dir := by
  rw [direction, add_mod_of_lt (by omega), if_neg (by omega)]

/-- An entry that counts without being sure. -/
structure Entry.Waits (dir : Bool) (total current : ℕ) (e : Entry) : Prop where
  dir : e.dir = dir
  confidence : e.confidence = 0
  currentIter : e.currentIter.get = current
  totalIterations : e.totalIterations = total

theorem right_of_invalid {e : Entry} (h : e.valid = false) (resolveDir : Bool) :
    e.valid = true → e.prediction = resolveDir := by
  intro hvalid
  rw [h] at hvalid
  cases hvalid

theorem Entry.Waits.invalid {total current : ℕ} {e : Entry} (h : e.Waits dir total current) : e.valid = false :=
  valid_of_confidence (by rw [h.confidence]; exact Nat.zero_le 1) (.inr h.confidence)

/-- Iterations within a round are counted as far as the counter goes. -/
theorem Reaches.bodies {k total current : ℕ} {e : Entry} (h : Reaches brPc trips dir k e) (he : e.Waits dir total current)
    (hcurrent : total = 0 ∨ current ≤ total) (hmax : current ≤ 1023) (m : ℕ) (hm : k % trips + m < trips) :
    ∃ e', Reaches brPc trips dir (k + m) e' ∧
      e'.Waits dir (if total < min (current + m) 1023 then 0 else total) (min (current + m) 1023) := by
  induction m with
  | zero =>
      refine ⟨e, h, he.dir, he.confidence, ?_, ?_⟩
      · rw [he.currentIter]
        omega
      · rw [he.totalIterations]
        split <;> omega
  | succ m ih =>
      obtain ⟨e', hreaches, he'⟩ := ih (by omega)
      have hbody : direction trips dir (k + m) = dir := direction_body (by omega)
      refine ⟨_, hreaches.train quiet, ?_⟩
      rw [hbody]
      obtain ⟨hdir', hcurrent', htotal', hconf', -⟩ := quiet.train_same (right_of_invalid he'.invalid dir)
        he'.dir.symm
      have hcounted : Entry.counted e' = min (current + (m + 1)) 1023 := by
        rw [Entry.counted, he'.currentIter]
        omega
      rw [hcounted] at hcurrent' htotal' hconf'
      refine ⟨hdir'.trans he'.dir, ?_, hcurrent', ?_⟩
      · rw [hconf', he'.confidence, ite_self]
      · rw [htotal', he'.totalIterations]
        by_cases hbefore : total < min (current + m) 1023
        · rw [if_pos hbefore, ite_self, if_pos (by omega)]
        · rw [if_neg hbefore]

/-- An entry at the start of a round. -/
def Starts (brPc : Addr) (trips : ℕ) (dir : Bool) (total : ℕ) : Prop :=
  ∃ k e, k % trips = 0 ∧ Reaches brPc trips dir k e ∧ e.Waits dir total 0

theorem exit_mod {k : ℕ} (htrips : 0 < trips) : (k + (trips - k % trips)) % trips = 0 := by
  have hlt := Nat.mod_lt k htrips
  have hsum : k + (trips - k % trips) = trips * (k / trips + 1) := by
    have hdiv := Nat.div_add_mod k trips
    rw [Nat.mul_add, Nat.mul_one]
    omega
  rw [hsum, Nat.mul_mod_right]

theorem direction_exit {k : ℕ} (htrips : 0 < trips) : direction trips dir (k + (trips - 1 - k % trips)) = !dir := by
  have hlt := Nat.mod_lt k htrips
  rw [direction, add_mod_of_lt (by omega), if_pos (by omega)]

theorem not_ne_self (dir : Bool) : (!dir) ≠ dir := by
  cases dir <;> decide

/-- At the end of the round the number is taken that the counter has reached. -/
theorem Reaches.takes {k total current : ℕ} {e : Entry} (h : Reaches brPc trips dir k e) (he : e.Waits dir total current)
    (hcurrent : total = 0 ∨ current ≤ total) (hmax : current ≤ 1023) (htrips : 0 < trips)
    (hmore : total = 0 ∨ total < min (current + (trips - 1 - k % trips)) 1023) :
    Starts brPc trips dir (min (current + (trips - k % trips)) 1023) := by
  have hlt := Nat.mod_lt k htrips
  obtain ⟨e', hreaches, he'⟩ := h.bodies he hcurrent hmax (trips - 1 - k % trips) (by omega)
  have htaken := hreaches.train quiet
  rw [direction_exit htrips] at htaken
  have htotal : e'.totalIterations = 0 := by
    rw [he'.totalIterations]
    split <;> omega
  have hpos := counted_pos e'
  obtain ⟨hdir', hcurrent', htotal', hconf', -⟩ := quiet.train_takes (right_of_invalid he'.invalid (!dir))
    (by rw [he'.dir]; exact not_ne_self dir) (by omega)
  refine ⟨k + (trips - k % trips), _, exit_mod htrips, ?_, hdir'.trans he'.dir, hconf', hcurrent', ?_⟩
  · rw [show k + (trips - k % trips) = k + (trips - 1 - k % trips) + 1 by omega]
    exact htaken
  · rw [htotal', Entry.counted, he'.currentIter]
    omega

/-- A round that does not fit confirms the number at which the counter stops. -/
theorem Starts.confirms (h : Starts brPc trips dir 1023) (htrips : 1024 ≤ trips) :
    ∃ k e, k % trips = 0 ∧ Reaches brPc trips dir k e ∧ e.dir = dir ∧ e.confidence = 1 ∧ e.totalIterations = 1023 ∧
      e.speculativeCurrentIter.get ≤ 1022 := by
  obtain ⟨k, e, hk, hreaches, he⟩ := h
  obtain ⟨e', hreaches', he'⟩ := hreaches.bodies he (.inr (Nat.zero_le _)) (Nat.zero_le _) (trips - 1 - k % trips) (by omega)
  have htrained := hreaches'.train quiet
  rw [direction_exit (by omega)] at htrained
  have htotal : e'.totalIterations = 1023 := by
    rw [he'.totalIterations]
    split <;> omega
  have hcounted : Entry.counted e' = 1023 := by
    rw [Entry.counted, he'.currentIter]
    omega
  obtain ⟨hdir', -, htotal', hconf', hspec'⟩ := quiet.train_confirms (right_of_invalid he'.invalid (!dir))
    (by rw [he'.dir]; exact not_ne_self dir) (by omega) (by omega)
  refine ⟨k + (trips - k % trips), _, exit_mod (by omega), ?_, hdir'.trans he'.dir, ?_, htotal'.trans htotal, ?_⟩
  · rw [show k + (trips - k % trips) = k + (trips - 1 - k % trips) + 1 by omega]
    exact htrained
  · rw [hconf', he'.confidence]
    rfl
  · rw [hspec']
    show Entry.speculated e' ≤ 1022
    rw [Entry.speculated, if_neg (by omega)]
    split <;> omega

/-- A sure entry takes the stop of the counter for the end of the round. -/
theorem Reaches.misleads {k : ℕ} {e : Entry} (h : Reaches brPc trips dir k e) (hdir : e.dir = dir)
    (hconf : e.confidence = 1) (htotal : e.totalIterations = 1023) (hspec : e.speculativeCurrentIter.get ≤ 1022)
    (hfar : k % trips + (1022 - e.speculativeCurrentIter.get) + 1 < trips) :
    ¬ ∀ executions : List Execution, Always (Sound brPc trips dir) executions := by
  have hvalid : ∀ e : Entry, e.confidence = 1 → e.totalIterations = 1023 → e.valid = true := by
    intro e hconf htotal
    simp [LoopPredictorEntry.valid, hconf, htotal]
  generalize hleft : 1022 - e.speculativeCurrentIter.get = left at hfar
  induction left generalizing k e with
  | zero =>
      refine h.unsound (hvalid e hconf htotal) ?_
      have hbody : direction trips dir (k + 0) = dir := direction_body hfar
      rw [Nat.add_zero] at hbody
      rw [LoopPredictorEntry.prediction, if_pos (by omega), hdir, hbody]
      exact not_ne_self dir
  | succ left ih =>
      have hbody : direction trips dir (k + 0) = dir := direction_body (by omega)
      rw [Nat.add_zero] at hbody
      have hnext := h.train quiet
      rw [hbody] at hnext
      have hright : e.prediction = dir := by
        rw [LoopPredictorEntry.prediction, if_neg (by omega), hdir]
      obtain ⟨hdir', -, htotal', hconf', hspec'⟩ := quiet.train_same (e := e) (fun _ => hright) hdir.symm
      have hcounted : Entry.counted e ≤ 1023 := Nat.min_le_right ..
      have hspeculated : Entry.speculated e = e.speculativeCurrentIter.get + 1 := by
        rw [Entry.speculated, if_neg (by omega), if_neg (by omega)]
        omega
      rw [if_neg (by omega)] at htotal' hconf'
      have hspec'' : (quiet.train dir e).speculativeCurrentIter.get = e.speculativeCurrentIter.get + 1 :=
        hspec'.trans hspeculated
      refine ih hnext (hdir'.trans hdir) (hconf'.trans hconf) (htotal'.trans htotal) (by omega) (by omega) ?_
      rw [add_mod_of_lt (by omega)]
      omega

/-! ## How a round is reached -/

theorem lookup_first {table : Table Config.tagescl}
    (h : (table (getIndices .tagescl brPc 0)).tag = getTag .tagescl brPc) : lookup table brPc = some 0 := by
  rw [lookup, show List.finRange 4 = [0, 1, 2, 3] from rfl, List.find?_cons_of_pos]
  simpa using h

/-- As long as nothing is mispredicted the entries stay new. -/
theorem run_quiet (htag : getTag .tagescl brPc ≠ 0) (m : ℕ) :
    lookup (run brPc trips dir (List.replicate m quiet)).1 brPc = none ∧
      ∀ i, (run brPc trips dir (List.replicate m quiet)).1 (getIndices .tagescl brPc i) = .new _ := by
  have hnone : ∀ table : Table Config.tagescl, (∀ i, table (getIndices .tagescl brPc i) = .new _) →
      lookup table brPc = none := by
    intro table hnew
    refine List.find?_eq_none.mpr fun i _ => ?_
    rw [hnew i]
    simpa [LoopPredictorEntry.new] using Ne.symm htag
  induction m with
  | zero => exact ⟨hnone _ fun _ => rfl, fun _ => rfl⟩
  | succ m ih =>
      have hstays : ∀ i, (run brPc trips dir (List.replicate (m + 1) quiet)).1 (getIndices .tagescl brPc i) = .new _ := by
        intro i
        rw [List.replicate_succ', run_concat, step, Execution.execute_miss ih.1]
        have hno : ¬ (quiet.finallyMispredicted = true ∧ quiet.draw₂ &&& 3 = 0) := by decide
        rw [if_neg hno]
        exact (quiet.finds_index brPc _ i).trans (ih.2 i)
      exact ⟨hnone _ hstays, hstays⟩

/-- A misprediction at the end of the first round makes an entry. -/
theorem starts_allocated (htag : getTag .tagescl brPc ≠ 0) (htrips : 0 < trips) : Starts brPc trips dir 0 := by
  obtain ⟨hnone, hnew⟩ : lookup (run brPc trips dir (List.replicate (trips - 1) quiet)).1 brPc = none ∧
      ∀ i, (run brPc trips dir (List.replicate (trips - 1) quiet)).1 (getIndices .tagescl brPc i) = .new _ :=
    run_quiet htag (trips - 1)
  have hexit : direction trips dir (trips - 1) = !dir := by
    rw [direction, Nat.mod_eq_of_lt (by omega), if_pos (by omega)]
  let x : Execution := ⟨true, true, 0, 0, fun _ => .new _⟩
  have hentry : (run brPc trips dir (List.replicate (trips - 1) quiet ++ [x])).1 (getIndices .tagescl brPc 0) =
      ⟨0, getTag .tagescl brPc, 0, 7, dir, .zero, .zero⟩ := by
    rw [run_concat, step, run_count, List.length_replicate, hexit, Execution.execute_miss hnone]
    have hbank : Fin.ofNat 4 (x.draw₁ &&& 3).toNat = 0 := by decide
    have hdraw : x.finallyMispredicted = true ∧ x.draw₂ &&& 3 = 0 := by decide
    rw [if_pos hdraw, hbank]
    simp only [Function.update_self, hnew, LoopPredictorEntry.allocate]
    rw [if_pos (show (LoopPredictorEntry.new Config.tagescl).age = 0 from rfl), Bool.not_not]
  refine ⟨trips, _, Nat.mod_self trips, ⟨List.replicate (trips - 1) quiet ++ [x], ?_, 0, lookup_first ?_, hentry⟩,
    ⟨rfl, rfl, rfl, rfl⟩⟩
  · rw [List.length_append, List.length_replicate, List.length_singleton]
    omega
  · rw [hentry]

/-- The entries that are there at the start have the tag 0. -/
theorem reaches_start (htag : getTag .tagescl brPc = 0) : Reaches brPc trips dir 0 (.new _) :=
  ⟨[], rfl, 0, lookup_first htag.symm, rfl⟩

/-- An entry that takes the end of the round for the loop turns round within two executions. -/
theorem starts_turned (htag : getTag .tagescl brPc = 0) (htrips : 4 ≤ trips) :
    ∃ total ≤ 1023, Starts brPc trips true total := by
  have hbody : ∀ m, m + 1 < trips → direction trips true m = true := by
    intro m hm
    have hdir : direction trips true (0 + m) = true := direction_body (by rw [Nat.zero_mod]; omega)
    rwa [Nat.zero_add] at hdir
  have hstart : Reaches brPc trips true 0 (.new _) := reaches_start htag
  have hfirst := hstart.train quiet
  rw [hbody 0 (by omega)] at hfirst
  obtain ⟨hdir₁, hcurrent₁, htotal₁, hconf₁, -⟩ := quiet.train_takes (e := .new _)
    (right_of_invalid (valid_of_confidence (Nat.zero_le 1) (.inl rfl)) true) (by decide) (by decide)
  generalize quiet.train true (.new _) = e₁ at hfirst hdir₁ hcurrent₁ htotal₁ hconf₁
  have hcounted₁ : Entry.counted e₁ = 1 := by
    rw [Entry.counted, hcurrent₁]
    rfl
  have hone : e₁.totalIterations = 1 := htotal₁
  have hsecond := hfirst.train quiet
  rw [hbody 1 (by omega)] at hsecond
  obtain ⟨hdir₂, hcurrent₂, htotal₂, hconf₂⟩ := quiet.train_turns (e := e₁)
    (right_of_invalid (valid_of_confidence (by omega) (.inr hconf₁)) true) (by rw [hdir₁]; decide) (by omega) (by omega)
  generalize quiet.train true e₁ = e₂ at hsecond hdir₂ hcurrent₂ htotal₂ hconf₂
  have hcounted₂ : Entry.counted e₂ = 1 := by
    rw [Entry.counted, hcurrent₂]
    rfl
  have hthird := hsecond.train quiet
  rw [hbody 2 (by omega)] at hthird
  obtain ⟨hdir₃, hcurrent₃, htotal₃, hconf₃, -⟩ := quiet.train_same (e := e₂)
    (right_of_invalid (valid_of_confidence (by omega) (.inl htotal₂)) true) hdir₂.symm
  rw [if_pos (by omega)] at htotal₃ hconf₃
  have hwaits : Entry.Waits true 0 1 (quiet.train true e₂) :=
    ⟨hdir₃.trans hdir₂, hconf₃, hcurrent₃.trans hcounted₂, htotal₃⟩
  exact ⟨_, Nat.min_le_right .., hthird.takes hwaits (.inl rfl) (by omega) (by omega) (.inl rfl)⟩

theorem starts_somewhere (htrips : 4 ≤ trips) : ∃ total ≤ 1023, Starts brPc trips dir total := by
  by_cases htag : getTag .tagescl brPc = 0
  · cases dir with
    | false => exact ⟨0, by omega, 0, _, Nat.zero_mod trips, reaches_start htag, ⟨rfl, rfl, rfl, rfl⟩⟩
    | true => exact starts_turned htag htrips
  · exact ⟨0, by omega, starts_allocated htag (by omega)⟩

/-- From 1024 iterations on some executions lead to a valid prediction that is wrong. -/
theorem unsound_of_long (htrips : 1024 ≤ trips) :
    ¬ ∀ executions : List Execution, Always (Sound brPc trips dir) executions := by
  obtain ⟨total, htotal, hstarts⟩ : ∃ total ≤ 1023, Starts brPc trips dir total := starts_somewhere (by omega)
  have hlearned : Starts brPc trips dir 1023 := by
    rcases Nat.lt_or_eq_of_le htotal with hlt | rfl
    · obtain ⟨k, e, hk, hreaches, he⟩ := hstarts
      have hnext := hreaches.takes he (.inr (Nat.zero_le _)) (Nat.zero_le _) (by omega) (.inr (by omega))
      have hstop : min (0 + (trips - k % trips)) 1023 = 1023 := by omega
      rwa [hstop] at hnext
    · exact hstarts
  obtain ⟨k, e, hk, hreaches, hdir, hconf, htotal', hspec⟩ := hlearned.confirms htrips
  exact hreaches.misleads hdir hconf htotal' hspec (by omega)

end

/-- Every valid prediction of a branch that leaves its loop in every `trips`-th execution is right, whatever
is mispredicted and drawn, exactly when the counters can count as many. -/
theorem loopPredictor_sound_iff (brPc : Addr) (trips : ℕ) (dir : Bool) (hthree : 3 ≤ trips) :
    (∀ executions : List Execution, Always (Sound brPc trips dir) executions) ↔ trips ≤ 1023 := by
  constructor
  · intro hsound
    refine Nat.le_of_not_lt fun hlong => ?_
    exact unsound_of_long hlong hsound
  · intro hfits executions before x after _
    exact sound_of_fits hthree hfits before x

theorem loopPredictor_sound_iff_threeTrips :
    (∀ executions : List Execution, Always (Sound 0x400 3 true) executions) ↔ 3 ≤ 1023 :=
  loopPredictor_sound_iff 0x400 3 true (Nat.le_refl 3)

/-- A loop of 1024 iterations: the entry learns 1023 and is sure of it after one more round. -/
theorem loopPredictor_unsound :
    ¬ ∀ (brPc : Addr) (trips : ℕ) (dir : Bool), 3 ≤ trips →
      ∀ executions : List Execution, Always (Sound brPc trips dir) executions := by
  intro hsound
  exact unsound_of_long (Nat.le_refl 1024) (hsound 0x400 1024 true (by decide))

end Scarab.Bp.Loop
