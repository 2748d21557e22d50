import Mathlib.Algebra.Group.Nat.Defs
import Mathlib.Data.List.FinRange
import Mathlib.Logic.Function.Basic
import Scarab.Prefetcher.Types

/-! # The loop predictor

`template_lib/loop_predictor.h`, with the counters of `template_lib/utils.h`. An entry learns how many
times a branch goes one way before it goes the other way once. -/

namespace Scarab.Bp.Loop

/-- The `LOOP` part of a configuration. -/
structure Config where
  logNumEntries : ℕ
  iterationCounterWidth : ℕ
  tagBits : ℕ
  confidenceThreshold : ℕ

/-- The values in both configurations of `tagescl_configs.h`. -/
def Config.tagescl : Config := ⟨5, 10, 10, 15⟩

/-! ## Counters -/

/-- `Saturating_Counter<width, false>`. -/
structure SaturatingCounter (width : ℕ) where
  get : ℕ
  le_max : get ≤ 2 ^ width - 1
  deriving DecidableEq

namespace SaturatingCounter

variable {width : ℕ}

/-- `set(0)`. -/
def zero : SaturatingCounter width := ⟨0, Nat.zero_le _⟩

/-- Add one, up to the maximum. -/
def increment (c : SaturatingCounter width) : SaturatingCounter width :=
  if h : c.get < 2 ^ width - 1 then ⟨c.get + 1, h⟩ else c

@[simp] theorem zero_get : (zero : SaturatingCounter width).get = 0 := rfl

theorem increment_get (c : SaturatingCounter width) : c.increment.get = min (c.get + 1) (2 ^ width - 1) := by
  have hmax := c.le_max
  rw [increment]
  split
  case isTrue h => simp only [Nat.min_def]; split <;> omega
  case isFalse h => simp only [Nat.min_def]; split <;> omega

end SaturatingCounter

/-! ## Entries -/

variable (cfg : Config)

/-- The comparisons with the threshold and the width of the counters keep every field in its range. -/
structure LoopPredictorEntry where
  totalIterations : ℕ
  tag : ℕ
  confidence : ℕ
  age : ℕ
  dir : Bool
  speculativeCurrentIter : SaturatingCounter cfg.iterationCounterWidth
  currentIter : SaturatingCounter cfg.iterationCounterWidth

/-- A new entry. -/
def LoopPredictorEntry.new : LoopPredictorEntry cfg := ⟨0, 0, 0, 0, false, .zero, .zero⟩

variable {cfg}

namespace LoopPredictorEntry

/-- The entry is sure enough. -/
def valid (e : LoopPredictorEntry cfg) : Bool :=
  e.confidence = cfg.confidenceThreshold || 128 < e.confidence * e.totalIterations

/-- The direction, or the other one in the last iteration. -/
def prediction (e : LoopPredictorEntry cfg) : Bool :=
  if e.speculativeCurrentIter.get + 1 = e.totalIterations then !e.dir else e.dir

/-- Count an iteration when it is predicted. -/
def speculate (e : LoopPredictorEntry cfg) : LoopPredictorEntry cfg :=
  if e.totalIterations ≠ 0 then
    let iter := e.speculativeCurrentIter.increment
    { e with speculativeCurrentIter := if e.totalIterations ≤ iter.get then .zero else iter }
  else e

/-- Free the entry. -/
def free (e : LoopPredictorEntry cfg) : LoopPredictorEntry cfg :=
  { e with
    totalIterations := 0, confidence := 0, age := 0, currentIter := .zero, speculativeCurrentIter := .zero }

/-- Count an iteration when it is committed; more of them than before are like a first encounter. -/
def countIteration (e : LoopPredictorEntry cfg) : LoopPredictorEntry cfg :=
  let e := { e with currentIter := e.currentIter.increment }
  if e.totalIterations < e.currentIter.get then { e with totalIterations := 0, confidence := 0 } else e

/-- The loop is over. -/
def finishLoop (e : LoopPredictorEntry cfg) (resolveDir : Bool) : LoopPredictorEntry cfg :=
  let e :=
    if e.currentIter.get = e.totalIterations then
      let e := if e.confidence < cfg.confidenceThreshold then { e with confidence := e.confidence + 1 } else e
      -- loops of 1 or 2 iterations are not predicted
      if e.totalIterations < 3 then
        { e with
          dir := resolveDir, totalIterations := 0, age := 0, currentIter := .zero, speculativeCurrentIter := .zero }
      else e
    else if e.totalIterations = 0 then
      { e with confidence := 0, totalIterations := e.currentIter.get, speculativeCurrentIter := .zero }
    else { e with totalIterations := 0, confidence := 0 }
  { e with currentIter := .zero }

/-- A prediction was right where it mattered, or once in a while. -/
def ripen (e : LoopPredictorEntry cfg) : LoopPredictorEntry cfg :=
  if e.age < cfg.confidenceThreshold then { e with age := e.age + 1 } else e

end LoopPredictorEntry

/-! ## Predicting -/

variable (cfg)

abbrev Table := ℕ → LoopPredictorEntry cfg

/-- `get_indices`. -/
def getIndices (brPc : Addr) (i : Fin 4) : ℕ :=
  let mask := 1 <<< (cfg.logNumEntries - 2) - 1
  let component1 := ((brPc ^^^ brPc >>> 2).toNat &&& mask) <<< 2
  let component2 := (brPc >>> (cfg.logNumEntries - 2)).toNat &&& mask
  (component1 ^^^ (component2 >>> i.val) <<< 2) + i.val

/-- `get_tag`. -/
def getTag (brPc : Addr) : ℕ :=
  let tag := (brPc >>> (cfg.logNumEntries - 2)).toNat &&& (1 <<< (2 * cfg.tagBits) - 1)
  (tag ^^^ tag >>> cfg.tagBits) &&& (1 <<< cfg.tagBits - 1)

structure LoopPredictionInfo where
  /-- No bank stands for -1. -/
  hitBank : Option (Fin 4)
  valid : Bool
  prediction : Bool
  indices : Fin 4 → ℕ
  tag : ℕ
  currentIterCheckpoint : SaturatingCounter cfg.iterationCounterWidth

variable {cfg}

/-- The first bank with the tag. -/
def lookup (table : Table cfg) (brPc : Addr) : Option (Fin 4) :=
  (List.finRange 4).find? fun i => (table (getIndices cfg brPc i)).tag == getTag cfg brPc

/-- `get_prediction`. -/
def getPrediction (table : Table cfg) (brPc : Addr) : LoopPredictionInfo cfg :=
  let indices := getIndices cfg brPc
  let tag := getTag cfg brPc
  match lookup table brPc with
  | none => ⟨none, false, false, indices, tag, .zero⟩
  | some i =>
      ⟨some i, (table (indices i)).valid, (table (indices i)).prediction, indices, tag,
        (table (indices i)).speculativeCurrentIter⟩

/-- `update_speculative_state`. -/
def updateSpeculativeState (table : Table cfg) (info : LoopPredictionInfo cfg) : Table cfg :=
  match info.hitBank with
  | none => table
  | some i => Function.update table (info.indices i) (table (info.indices i)).speculate

/-- What commits an entry that was hit. -/
def LoopPredictorEntry.commit (e : LoopPredictorEntry cfg) (resolveDir valid prediction finallyMispredicted
    tagePrediction : Bool) (draw : CInt) : LoopPredictorEntry cfg :=
  if valid && resolveDir != prediction then e.free
  else
    let e := if valid && (prediction != tagePrediction || draw &&& 7 == 0) then e.ripen else e
    let e := e.countIteration
    let e := if resolveDir != e.dir then e.finishLoop resolveDir else e
    if finallyMispredicted then { e with speculativeCurrentIter := e.currentIter } else e

/-- An entry is asked for: one that is not old gives way. Most mispredictions are on last iterations. -/
def LoopPredictorEntry.allocate (e : LoopPredictorEntry cfg) (tag : ℕ) (resolveDir : Bool) : LoopPredictorEntry cfg :=
  if e.age = 0 then ⟨0, tag, 0, 7, !resolveDir, .zero, .zero⟩ else { e with age := e.age - 1 }

/-- `commit_state_at_retire`, with the numbers that the random number generator gives it in turn. -/
def commitStateAtRetire (table : Table cfg) (brPc : Addr) (resolveDir : Bool) (info : LoopPredictionInfo cfg)
    (finallyMispredicted tagePrediction : Bool) (draw₁ draw₂ : CInt) : Table cfg :=
  match info.hitBank with
  | some i =>
      let index := info.indices i
      if (table index).tag = info.tag then
        Function.update table index
          ((table index).commit resolveDir info.valid info.prediction finallyMispredicted tagePrediction draw₁)
      else table
  | none =>
      if finallyMispredicted then
        let randomBank : Fin 4 := Fin.ofNat 4 (draw₁ &&& 3).toNat
        let index := info.indices randomBank
        if draw₂ &&& 3 = 0 then
          Function.update table index ((table index).allocate (getTag cfg brPc) resolveDir)
        else table
      else table

/-! ## Fields -/

namespace LoopPredictorEntry

variable (e : LoopPredictorEntry cfg)

@[simp] theorem speculate_tag : e.speculate.tag = e.tag := by
  rw [speculate]
  split <;> rfl

@[simp] theorem speculate_totalIterations : e.speculate.totalIterations = e.totalIterations := by
  rw [speculate]
  split <;> rfl

@[simp] theorem speculate_confidence : e.speculate.confidence = e.confidence := by
  rw [speculate]
  split <;> rfl

@[simp] theorem speculate_dir : e.speculate.dir = e.dir := by
  rw [speculate]
  split <;> rfl

@[simp] theorem speculate_currentIter : e.speculate.currentIter = e.currentIter := by
  rw [speculate]
  split <;> rfl

@[simp] theorem ripen_tag : e.ripen.tag = e.tag := by
  rw [ripen]
  split <;> rfl

@[simp] theorem countIteration_tag : e.countIteration.tag = e.tag := by
  simp only [countIteration]
  split <;> rfl

@[simp] theorem finishLoop_tag (resolveDir : Bool) : (e.finishLoop resolveDir).tag = e.tag := by
  simp only [finishLoop]
  split
  · split <;> split <;> rfl
  · split <;> rfl

/-- A commit leaves the tag. -/
@[simp] theorem commit_tag (resolveDir valid prediction finallyMispredicted tagePrediction : Bool) (draw : CInt) :
    (e.commit resolveDir valid prediction finallyMispredicted tagePrediction draw).tag = e.tag := by
  rw [commit]
  split
  · rfl
  · simp only
    split <;> split <;> split <;> simp

end LoopPredictorEntry

end Scarab.Bp.Loop
