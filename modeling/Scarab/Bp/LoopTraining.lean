import Mathlib.Data.List.Induction
import Scarab.Bp.LoopPredictor

/-! # Training a loop entry

The executions of one branch, each predicted and committed before the next, and what an execution
makes of the entry that the branch hits. -/

namespace Scarab.Bp.Loop

abbrev Entry := LoopPredictorEntry Config.tagescl

/-! ## Executions -/

/-- What an execution of the branch meets, besides its direction. -/
structure Execution where
  finallyMispredicted : Bool
  tagePrediction : Bool
  draw₁ : CInt
  draw₂ : CInt
  /-- The entries of other branches. -/
  elsewhere : Table Config.tagescl

/-- The branch finds its entries as it left them. -/
def Execution.finds (x : Execution) (brPc : Addr) (table : Table Config.tagescl) : Table Config.tagescl :=
  fun index => if ∃ i, getIndices .tagescl brPc i = index then table index else x.elsewhere index

/-- The branch is predicted and committed. -/
def Execution.execute (x : Execution) (brPc : Addr) (resolveDir : Bool) (table : Table Config.tagescl) :
    Table Config.tagescl :=
  let table := x.finds brPc table
  let info := getPrediction table brPc
  commitStateAtRetire (updateSpeculativeState table info) brPc resolveDir info x.finallyMispredicted x.tagePrediction
    x.draw₁ x.draw₂

/-- The direction of an execution, by its number. -/
def direction (trips : ℕ) (dir : Bool) (k : ℕ) : Bool := if k % trips + 1 = trips then !dir else dir

/-- The table, and the number of executions. -/
def step (brPc : Addr) (trips : ℕ) (dir : Bool) (s : Table Config.tagescl × ℕ) (x : Execution) :
    Table Config.tagescl × ℕ :=
  (x.execute brPc (direction trips dir s.2) s.1, s.2 + 1)

def run (brPc : Addr) (trips : ℕ) (dir : Bool) (executions : List Execution) : Table Config.tagescl × ℕ :=
  executions.foldl (step brPc trips dir) (fun _ => .new _, 0)

theorem run_concat (brPc : Addr) (trips : ℕ) (dir : Bool) (executions : List Execution) (x : Execution) :
    run brPc trips dir (executions ++ [x]) = step brPc trips dir (run brPc trips dir executions) x := by
  simp [run, List.foldl_append]

theorem run_count (brPc : Addr) (trips : ℕ) (dir : Bool) (executions : List Execution) :
    (run brPc trips dir executions).2 = executions.length := by
  induction executions using List.reverseRecOn with
  | nil => rfl
  | append_singleton executions x ih => rw [run_concat, step, ih, List.length_append, List.length_singleton]

/-- What an execution does to the entry that it hits. -/
def Execution.train (x : Execution) (resolveDir : Bool) (e : Entry) : Entry :=
  e.speculate.commit resolveDir e.valid e.prediction x.finallyMispredicted x.tagePrediction x.draw₁

section

variable {brPc : Addr} {table : Table Config.tagescl} {x : Execution} {resolveDir : Bool} {i : Fin 4}

theorem Execution.finds_index (x : Execution) (brPc : Addr) (table : Table Config.tagescl) (i : Fin 4) :
    x.finds brPc table (getIndices .tagescl brPc i) = table (getIndices .tagescl brPc i) :=
  if_pos ⟨i, rfl⟩

/-- The search reads the tags of the four entries. -/
theorem lookup_congr {table table' : Table Config.tagescl}
    (h : ∀ i, (table (getIndices .tagescl brPc i)).tag = (table' (getIndices .tagescl brPc i)).tag) :
    lookup table brPc = lookup table' brPc := by
  simp only [lookup, h]

theorem lookup_finds (x : Execution) (brPc : Addr) (table : Table Config.tagescl) :
    lookup (x.finds brPc table) brPc = lookup table brPc :=
  lookup_congr fun i => by rw [x.finds_index]

theorem lookup_tag (h : lookup table brPc = some i) : (table (getIndices .tagescl brPc i)).tag = getTag .tagescl brPc := by
  simpa using List.find?_some h

/-- An execution that hits trains the entry. -/
theorem Execution.execute_hit (h : lookup table brPc = some i) :
    x.execute brPc resolveDir table =
      Function.update (x.finds brPc table) (getIndices .tagescl brPc i)
        (x.train resolveDir (table (getIndices .tagescl brPc i))) := by
  have hfinds : lookup (x.finds brPc table) brPc = some i := (lookup_finds x brPc table).trans h
  have htag := lookup_tag h
  rw [execute]
  simp only [getPrediction, hfinds, updateSpeculativeState, commitStateAtRetire, Function.update_self, x.finds_index,
    LoopPredictorEntry.speculate_tag, htag, if_true, Function.update_idem]
  rfl

theorem Execution.lookup_execute_hit (h : lookup table brPc = some i) :
    lookup (x.execute brPc resolveDir table) brPc = some i := by
  rw [execute_hit h, ← h]
  refine lookup_congr fun j => ?_
  by_cases hsame : getIndices .tagescl brPc j = getIndices .tagescl brPc i
  · rw [hsame, Function.update_self, train, LoopPredictorEntry.commit_tag, LoopPredictorEntry.speculate_tag]
  · rw [Function.update_of_ne hsame, x.finds_index]

/-- An execution that misses may make an entry. -/
theorem Execution.execute_miss (h : lookup table brPc = none) :
    x.execute brPc resolveDir table =
      if x.finallyMispredicted ∧ x.draw₂ &&& 3 = 0 then
        Function.update (x.finds brPc table) (getIndices .tagescl brPc (Fin.ofNat 4 (x.draw₁ &&& 3).toNat))
          ((table (getIndices .tagescl brPc (Fin.ofNat 4 (x.draw₁ &&& 3).toNat))).allocate (getTag .tagescl brPc) resolveDir)
      else x.finds brPc table := by
  have hfinds : lookup (x.finds brPc table) brPc = none := (lookup_finds x brPc table).trans h
  rw [execute]
  simp only [getPrediction, hfinds, updateSpeculativeState, commitStateAtRetire, x.finds_index]
  by_cases hmiss : x.finallyMispredicted = true
  · by_cases hdraw : x.draw₂ &&& 3 = 0
    · simp only [hmiss, hdraw, if_true, and_self]
    · simp only [hmiss, hdraw, if_true, if_false, and_false]
  · simp only [hmiss, if_false, false_and, Bool.false_eq_true]

end

/-! ## Training an entry -/

/-- The iterations counted when one more is committed. -/
def Entry.counted (e : Entry) : ℕ := min (e.currentIter.get + 1) 1023

/-- The iterations counted when one more is predicted. -/
def Entry.speculated (e : Entry) : ℕ :=
  if e.totalIterations = 0 then e.speculativeCurrentIter.get
  else if e.totalIterations ≤ min (e.speculativeCurrentIter.get + 1) 1023 then 0
  else min (e.speculativeCurrentIter.get + 1) 1023

section

variable {x : Execution} {resolveDir : Bool} {e : Entry}

theorem speculate_get (e : Entry) : e.speculate.speculativeCurrentIter.get = Entry.speculated e := by
  rw [LoopPredictorEntry.speculate, Entry.speculated]
  by_cases hzero : e.totalIterations = 0
  · rw [if_neg (not_not.mpr hzero), if_pos hzero]
  · rw [if_pos hzero, if_neg hzero]
    have hget : e.speculativeCurrentIter.increment.get = min (e.speculativeCurrentIter.get + 1) 1023 :=
      e.speculativeCurrentIter.increment_get
    simp only [hget]
    split
    · rfl
    · exact hget

/-- An entry that has counted an iteration. -/
theorem countIteration_eq (e : Entry) :
    e.countIteration.currentIter.get = Entry.counted e ∧ e.countIteration.dir = e.dir ∧
      e.countIteration.speculativeCurrentIter = e.speculativeCurrentIter ∧
      e.countIteration.totalIterations = (if e.totalIterations < Entry.counted e then 0 else e.totalIterations) ∧
      e.countIteration.confidence = (if e.totalIterations < Entry.counted e then 0 else e.confidence) := by
  have hget : e.currentIter.increment.get = Entry.counted e := e.currentIter.increment_get
  simp only [LoopPredictorEntry.countIteration, hget]
  by_cases hmore : e.totalIterations < Entry.counted e
  · simp only [if_pos hmore]
    exact ⟨hget, trivial, trivial, trivial, trivial⟩
  · simp only [if_neg hmore]
    exact ⟨hget, trivial, trivial, trivial, trivial⟩

/-- The entry behind the check of its prediction, with its age brought up to date. -/
theorem ripen_eq (e : Entry) : ∃ age, e.ripen = { e with age } := by
  rw [LoopPredictorEntry.ripen]
  split
  · exact ⟨_, rfl⟩
  · exact ⟨_, rfl⟩

/-- What training makes of an entry whose prediction is not wrong. -/
theorem Execution.train_eq (h : e.valid = true → e.prediction = resolveDir) :
    ∃ age, x.train resolveDir e =
      let e' := { e.speculate with age }.countIteration
      let e' := if resolveDir ≠ e'.dir then e'.finishLoop resolveDir else e'
      if x.finallyMispredicted then { e' with speculativeCurrentIter := e'.currentIter } else e' := by
  have hright : ¬ (e.valid && resolveDir != e.prediction) = true := by
    intro hboth
    obtain ⟨hvalid, hwrong⟩ := Bool.and_eq_true_iff.mp hboth
    rw [h hvalid] at hwrong
    simp at hwrong
  rw [train, LoopPredictorEntry.commit, if_neg hright]
  by_cases hripe : (e.valid && (e.prediction != x.tagePrediction || x.draw₁ &&& 7 == 0)) = true
  · obtain ⟨age, hage⟩ := ripen_eq e.speculate
    refine ⟨age, ?_⟩
    simp only [if_pos hripe, hage, bne_iff_ne]
  · refine ⟨e.speculate.age, ?_⟩
    simp only [if_neg hripe, bne_iff_ne]

/-- The branch goes on in the loop. -/
theorem Execution.train_same (h : e.valid = true → e.prediction = resolveDir) (hdir : resolveDir = e.dir) :
    (x.train resolveDir e).dir = e.dir ∧ (x.train resolveDir e).currentIter.get = Entry.counted e ∧
      (x.train resolveDir e).totalIterations = (if e.totalIterations < Entry.counted e then 0 else e.totalIterations) ∧
      (x.train resolveDir e).confidence = (if e.totalIterations < Entry.counted e then 0 else e.confidence) ∧
      (x.train resolveDir e).speculativeCurrentIter.get =
        if x.finallyMispredicted then Entry.counted e else Entry.speculated e := by
  obtain ⟨age, htrain⟩ := x.train_eq h
  obtain ⟨hcurrent, hsame, hspec, htotal, hconf⟩ := countIteration_eq { e.speculate with age }
  have hcounted : Entry.counted { e.speculate with age } = Entry.counted e := by
    simp [Entry.counted]
  have hstays : ¬ resolveDir ≠ ({ e.speculate with age } : Entry).countIteration.dir := by
    rw [hsame, hdir]
    simp
  simp only [if_neg hstays] at htrain
  rw [htrain]
  rw [hcounted] at hcurrent htotal hconf
  by_cases hmiss : x.finallyMispredicted = true
  · simp only [if_pos hmiss]
    refine ⟨by rw [hsame]; simp, hcurrent, by rw [htotal]; simp, by rw [hconf]; simp, hcurrent⟩
  · simp only [if_neg hmiss]
    refine ⟨by rw [hsame]; simp, hcurrent, by rw [htotal]; simp, by rw [hconf]; simp, ?_⟩
    rw [hspec]
    exact speculate_get e

/-- The branch leaves the loop, with the iteration counted. -/
theorem Execution.train_leaves (h : e.valid = true → e.prediction = resolveDir) (hdir : resolveDir ≠ e.dir) :
    ∃ e' : Entry, (e'.currentIter.get = Entry.counted e ∧ e'.dir = e.dir ∧
        e'.speculativeCurrentIter.get = Entry.speculated e ∧
        e'.totalIterations = (if e.totalIterations < Entry.counted e then 0 else e.totalIterations) ∧
        e'.confidence = (if e.totalIterations < Entry.counted e then 0 else e.confidence)) ∧
      x.train resolveDir e = if x.finallyMispredicted then
        { e'.finishLoop resolveDir with speculativeCurrentIter := (e'.finishLoop resolveDir).currentIter }
        else e'.finishLoop resolveDir := by
  obtain ⟨age, htrain⟩ := x.train_eq h
  obtain ⟨hcurrent, hsame, hspec, htotal, hconf⟩ := countIteration_eq { e.speculate with age }
  have hcounted : Entry.counted { e.speculate with age } = Entry.counted e := by
    simp [Entry.counted]
  rw [hcounted] at hcurrent htotal hconf
  have hleaves : resolveDir ≠ ({ e.speculate with age } : Entry).countIteration.dir := by
    rw [hsame]
    simpa using hdir
  simp only [if_pos hleaves] at htrain
  refine ⟨({ e.speculate with age } : Entry).countIteration, ⟨hcurrent, ?_, ?_, ?_, ?_⟩, htrain⟩
  · rw [hsame]
    simp
  · rw [hspec]
    exact speculate_get e
  · rw [htotal]
    simp
  · rw [hconf]
    simp

theorem counted_pos (e : Entry) : 1 ≤ Entry.counted e := by
  rw [Entry.counted]
  omega

/-- As many iterations as last time: the entry becomes surer. -/
theorem Execution.train_confirms (h : e.valid = true → e.prediction = resolveDir) (hdir : resolveDir ≠ e.dir)
    (hsame : Entry.counted e = e.totalIterations) (hlong : 3 ≤ e.totalIterations) :
    (x.train resolveDir e).dir = e.dir ∧ (x.train resolveDir e).currentIter.get = 0 ∧
      (x.train resolveDir e).totalIterations = e.totalIterations ∧
      (x.train resolveDir e).confidence = (if e.confidence < 15 then e.confidence + 1 else e.confidence) ∧
      (x.train resolveDir e).speculativeCurrentIter.get = if x.finallyMispredicted then 0 else Entry.speculated e := by
  obtain ⟨e', ⟨hcurrent, hdir', hspec, htotal, hconf⟩, htrain⟩ := x.train_leaves h hdir
  rw [if_neg (by omega)] at htotal hconf
  have hagree : e'.currentIter.get = e'.totalIterations := by omega
  have hlong' : ¬ e'.totalIterations < 3 := by omega
  have hfinish : e'.finishLoop resolveDir =
      { e' with
        confidence := if e'.confidence < 15 then e'.confidence + 1 else e'.confidence, currentIter := .zero } := by
    rw [LoopPredictorEntry.finishLoop]
    by_cases hlow : e'.confidence < Config.tagescl.confidenceThreshold
    · have hlow' : e'.confidence < 15 := hlow
      simp only [if_pos hagree, if_pos hlow, if_neg hlong', if_pos hlow']
    · have hlow' : ¬ e'.confidence < 15 := hlow
      simp only [if_pos hagree, if_neg hlow, if_neg hlong', if_neg hlow']
  rw [htrain, hfinish, hconf]
  by_cases hmiss : x.finallyMispredicted = true
  · simp only [if_pos hmiss]
    exact ⟨hdir', rfl, htotal, trivial, rfl⟩
  · simp only [if_neg hmiss]
    exact ⟨hdir', rfl, htotal, trivial, hspec⟩

/-- A loop that is too short: the entry turns round. -/
theorem Execution.train_turns (h : e.valid = true → e.prediction = resolveDir) (hdir : resolveDir ≠ e.dir)
    (hsame : Entry.counted e = e.totalIterations) (hshort : e.totalIterations < 3) :
    (x.train resolveDir e).dir = resolveDir ∧ (x.train resolveDir e).currentIter.get = 0 ∧
      (x.train resolveDir e).totalIterations = 0 ∧ (x.train resolveDir e).confidence ≤ e.confidence + 1 := by
  obtain ⟨e', ⟨hcurrent, hdir', hspec, htotal, hconf⟩, htrain⟩ := x.train_leaves h hdir
  rw [if_neg (by omega)] at htotal hconf
  have hagree : e'.currentIter.get = e'.totalIterations := by omega
  have hshort' : e'.totalIterations < 3 := by omega
  obtain ⟨confidence, hle, hfinish⟩ : ∃ confidence ≤ e.confidence + 1, e'.finishLoop resolveDir =
      { e' with
        confidence, dir := resolveDir, totalIterations := 0, age := 0, currentIter := .zero
        speculativeCurrentIter := .zero } := by
    rw [LoopPredictorEntry.finishLoop]
    simp only [if_pos hagree]
    by_cases hlow : e'.confidence < Config.tagescl.confidenceThreshold
    · simp only [if_pos hlow, if_pos hshort']
      exact ⟨_, by omega, rfl⟩
    · simp only [if_neg hlow, if_pos hshort']
      exact ⟨_, by omega, rfl⟩
  rw [htrain, hfinish]
  by_cases hmiss : x.finallyMispredicted = true
  · simp only [if_pos hmiss]
    exact ⟨trivial, rfl, trivial, hle⟩
  · simp only [if_neg hmiss]
    exact ⟨trivial, rfl, trivial, hle⟩

/-- More iterations than last time, or the first loop: their number is taken. -/
theorem Execution.train_takes (h : e.valid = true → e.prediction = resolveDir) (hdir : resolveDir ≠ e.dir)
    (hmore : e.totalIterations < Entry.counted e) :
    (x.train resolveDir e).dir = e.dir ∧ (x.train resolveDir e).currentIter.get = 0 ∧
      (x.train resolveDir e).totalIterations = Entry.counted e ∧ (x.train resolveDir e).confidence = 0 ∧
      (x.train resolveDir e).speculativeCurrentIter.get = 0 := by
  obtain ⟨e', ⟨hcurrent, hdir', hspec, htotal, hconf⟩, htrain⟩ := x.train_leaves h hdir
  rw [if_pos hmore] at htotal hconf
  have hpos := counted_pos e
  have hdiffers : ¬ e'.currentIter.get = e'.totalIterations := by omega
  have hfinish : e'.finishLoop resolveDir =
      { e' with
        confidence := 0, totalIterations := Entry.counted e, speculativeCurrentIter := .zero, currentIter := .zero } := by
    rw [LoopPredictorEntry.finishLoop]
    simp only [if_neg hdiffers, if_pos htotal]
    rw [hcurrent]
  rw [htrain, hfinish]
  by_cases hmiss : x.finallyMispredicted = true
  · simp only [if_pos hmiss]
    exact ⟨hdir', rfl, trivial, trivial, rfl⟩
  · simp only [if_neg hmiss]
    exact ⟨hdir', rfl, trivial, trivial, rfl⟩

/-- Fewer iterations than last time: the number is forgotten. -/
theorem Execution.train_forgets (h : e.valid = true → e.prediction = resolveDir) (hdir : resolveDir ≠ e.dir)
    (hfewer : Entry.counted e < e.totalIterations) :
    (x.train resolveDir e).dir = e.dir ∧ (x.train resolveDir e).currentIter.get = 0 ∧
      (x.train resolveDir e).totalIterations = 0 ∧ (x.train resolveDir e).confidence = 0 := by
  obtain ⟨e', ⟨hcurrent, hdir', hspec, htotal, hconf⟩, htrain⟩ := x.train_leaves h hdir
  rw [if_neg (by omega)] at htotal hconf
  have hdiffers : ¬ e'.currentIter.get = e'.totalIterations := by omega
  have hnonzero : ¬ e'.totalIterations = 0 := by omega
  have hfinish : e'.finishLoop resolveDir = { e' with totalIterations := 0, confidence := 0, currentIter := .zero } := by
    rw [LoopPredictorEntry.finishLoop]
    simp only [if_neg hdiffers, if_neg hnonzero]
  rw [htrain, hfinish]
  by_cases hmiss : x.finallyMispredicted = true
  · simp only [if_pos hmiss]
    exact ⟨hdir', rfl, trivial, trivial⟩
  · simp only [if_neg hmiss]
    exact ⟨hdir', rfl, trivial, trivial⟩

end

end Scarab.Bp.Loop
