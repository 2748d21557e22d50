import Scarab.Lib.Loop
import Scarab.Libs.Cache.Partition

/-! # The search for a partition

`search_lookahead`, `search_bruteforce` and `set_partition` of `memory/cache_part.c`, for any metric. -/

namespace Scarab.Memory

open Loop

/-- What the searches use of `double`. Two values that do not compare, as with a NaN, are allowed. -/
class Double (D : Type) extends Preorder D where
  decidableLT : DecidableLT D
  decidableEq : DecidableEq D
  /-- `0.0`. -/
  zero : D
  /-- `1.0e99`. -/
  huge : D
  zero_lt_huge : zero < huge
  /-- `(new_metric - cur_metric) / (double)(ways - old_ways)`. -/
  slope : D → D → ℕ → D

attribute [reducible, instance] Double.decidableLT Double.decidableEq

/-- The partitions that are kept from one search to the next, for `NUM_CORES` cores. -/
structure Partitions (cores : ℕ) where
  newPartition : ℕ → ℕ
  tempPartition : ℕ → ℕ
  tieBreakerProcId : Fin cores
  /-- The allocation that the L1 enforces. -/
  ways : CoreWays

/-- The cells of a `uns*` that belong to the cores. -/
def cells (cores : ℕ) (partition : ℕ → ℕ) : Fin cores → ℕ := fun p => partition p

variable {D : Type} [Double D] {cores assoc : ℕ}

section

variable (metric : (Fin cores → ℕ) → D) (assoc : ℕ)

/-! ## Lookahead -/

/-- The loop over the numbers of ways: `best_mu` and `best_ways`. -/
def bestUtility (partition : ℕ → ℕ) (procId : ℕ) : List ℕ → D → ℕ → D × ℕ
  | [], bestMu, bestWays => (bestMu, bestWays)
  | ways :: rest, bestMu, bestWays =>
      let mu := Double.slope (metric (cells cores (Function.update partition procId ways))) (metric (cells cores partition))
        (ways - partition procId)
      if mu < bestMu then bestUtility partition procId rest mu ways else bestUtility partition procId rest bestMu bestWays

/-- `get_best_marginal_utility`, with `*extra_ways`. -/
def getBestMarginalUtility (partition : ℕ → ℕ) (procId balance : ℕ) : Except String (D × ℕ) :=
  let oldWays := partition procId
  let maxWays := oldWays + balance
  if maxWays > assoc then .error "max_ways <= L1_ASSOC"
  else
    let (bestMu, bestWays) := bestUtility metric partition procId (List.range' (oldWays + 1) balance) Double.zero oldWays
    .ok (bestMu, bestWays - oldWays)

/-- `best_mu`, `best_proc_id` and `best_extra_ways`. -/
structure BestCore (D : Type) where
  mu : D
  procId : ℕ
  extraWays : ℕ

/-- The loop over the cores. -/
def bestCore (partition : ℕ → ℕ) (balance : ℕ) (procs : List ℕ) (best : BestCore D) : Except String (BestCore D) :=
  procs.foldlM (fun best procId => do
    let (mu, extraWays) ← getBestMarginalUtility metric assoc partition procId balance
    return if mu < best.mu then ⟨mu, procId, extraWays⟩ else best) best

/-- The partition, `total_ways_allocated` and `tie_breaker_proc_id`. -/
structure Lookahead (cores : ℕ) where
  partition : ℕ → ℕ
  totalWaysAllocated : ℕ
  tieBreakerProcId : Fin cores

/-- `(proc_id + 1) % NUM_CORES`. -/
def nextTie (p : Fin cores) : Fin cores := ⟨(p + 1) % cores, Nat.mod_lt _ (Nat.zero_lt_of_lt p.isLt)⟩

/-- One turn of `search_lookahead`. -/
def lookaheadTurn (s : Lookahead cores) : Except String (Lookahead cores ⊕ Lookahead cores) := do
  if s.totalWaysAllocated < assoc then
    let best ← bestCore metric assoc s.partition (assoc - s.totalWaysAllocated) (List.range cores)
      ⟨Double.huge, cores, 0⟩
    if best.mu = Double.huge then .error "best_mu != 1.0e99"
    else
      let (procId, extraWays, tie) := if best.extraWays = 0 then ((s.tieBreakerProcId : ℕ), 1, nextTie s.tieBreakerProcId)
        else (best.procId, best.extraWays, s.tieBreakerProcId)
      if procId = cores then .error "best_proc_id != NUM_CORES"
      else
        return .inl
          { partition := Function.update s.partition procId (s.partition procId + extraWays)
            totalWaysAllocated := s.totalWaysAllocated + extraWays
            tieBreakerProcId := tie }
  else return .inr s

/-- `search_lookahead`. -/
def searchLookahead (fuel : ℕ) (s : Partitions cores) : Except String (Option (Partitions cores)) := do
  match ← loop (lookaheadTurn metric assoc) fuel ⟨fun _ => 1, cores, s.tieBreakerProcId⟩ with
  | none => return none
  | some t => return some { s with newPartition := t.partition, tieBreakerProcId := t.tieBreakerProcId }

/-! ## Brute force -/

/-- The partition, `best_partition` and `best_metric`. -/
structure Bruteforce (D : Type) where
  partition : ℕ → ℕ
  bestPartition : ℕ → ℕ
  bestMetric : D

/-- The last core above the first with more than one way; 0 if there is none. -/
def lastAboveOne (partition : ℕ → ℕ) : ℕ → ℕ
  | 0 => 0
  | p + 1 => if partition (p + 1) ≠ 1 then p + 1 else lastAboveOne partition p

/-- One turn of `search_bruteforce`. -/
def bruteforceTurn (s : Bruteforce D) : Except String (Bruteforce D ⊕ Bruteforce D) :=
  let sum := ((List.range cores).map s.partition).sum
  if sum > assoc then .error "sum <= L1_ASSOC"
  else
    let partition := Function.update s.partition (cores - 1) (s.partition (cores - 1) + (assoc - sum))
    let m := metric (cells cores partition)
    let s : Bruteforce D := if m < s.bestMetric then ⟨partition, partition, m⟩ else { s with partition }
    match lastAboveOne partition (cores - 1) with
    | 0 => .ok (.inr s)
    | p + 1 =>
        .ok (.inl { s with partition := Function.update (Function.update partition (p + 1) 1) p (partition p + 1) })

/-- `search_bruteforce`. -/
def searchBruteforce (fuel : ℕ) (s : Partitions cores) : Except String (Option (Partitions cores)) := do
  if cores = assoc then return some { s with newPartition := fun _ => 1 }
  else
    match ← loop (bruteforceTurn metric assoc) fuel ⟨fun _ => 1, s.tempPartition, Double.huge⟩ with
    | none => return none
    | some t =>
        if t.bestMetric = Double.huge then .error "best_metric != 1.0e99"
        else return some { s with newPartition := t.bestPartition, tempPartition := t.bestPartition }

/-! ## The partition that is set -/

/-- `Cache_Part_Search`. -/
inductive CachePartSearch where
  | lookahead
  | bruteForce
  deriving DecidableEq, Repr

/-- `search_func`. -/
def searchFunc (search : CachePartSearch) (fuel : ℕ) (s : Partitions cores) : Except String (Option (Partitions cores)) :=
  match search with
  | .lookahead => searchLookahead metric assoc fuel s
  | .bruteForce => searchBruteforce metric assoc fuel s

/-- The new partition is set up in the L1. -/
def Partitions.setUp (s : Partitions cores) : Partitions cores :=
  { s with ways := { s.ways with
    numWaysAlloctedCore := fun p => if p < cores then s.newPartition p else s.ways.numWaysAlloctedCore p } }

/-- `set_partition`. -/
def setPartition (search : CachePartSearch) (fuel : ℕ) (s : Partitions cores) :
    Except String (Option (Partitions cores)) := do
  return (← searchFunc metric assoc search fuel s).map Partitions.setUp

end

end Scarab.Memory
