import Mathlib.Logic.Function.Basic
import Scarab.Prefetcher.Request

/-! # The Markov prefetcher

`pref_markov.c`. A row of the table holds successors of the misses that share the row, each under the
miss it came after. -/

namespace Scarab.Markov

/-- The knobs of `pref_markov.param.def`, and the line size. -/
structure Params where
  numEntries : Uns
  numNextStates : Uns
  sendOnPrefHit : Bool
  updateOnPrefHit : Bool
  /-- 0 is LRU, 1 is LFU. -/
  tableUpdatePolicy : Uns8
  sendThreshold : Uns8
  log2Line : ℕ

/-- The default of every parameter. -/
def Params.default : Params := ⟨65536, 8, true, true, 0, 0, 6⟩

structure MarkovTableEntry where
  valid : Bool
  nextAddr : Addr
  tag : Addr
  count : Uns64
  deriving DecidableEq, Repr

/-- `{0}`, as `calloc` leaves an entry. -/
def MarkovTableEntry.zero : MarkovTableEntry := ⟨false, 0, 0, 0⟩

abbrev Row := ℕ → MarkovTableEntry

/-- The prefetcher of a core, with the core's `last_miss_addr_core`. -/
structure PrefMarkov where
  lastMissAddr : Addr
  markovTable : ℕ → Row

/-- What `pref_markov_init` makes for every core. -/
def PrefMarkov.init : PrefMarkov := ⟨0, fun _ _ => .zero⟩

/-- `MAX_CTR`. -/
def maxCtr : Uns64 := 0xffffffffffffffff

variable (p : Params)

/-- The row of a miss. -/
def Params.tableIndex (lineAddr : Addr) : ℕ := (lineAddr >>> p.log2Line).toNat % p.numEntries.toNat

/-! ## Updating a row -/

/-- The variables of `pref_markov_update_table` behind its search, and the row. -/
structure Search where
  ii : ℕ
  newEntry : Bool
  temp : MarkovTableEntry
  row : Row

/-- Count the entry, up to `MAX_CTR`. -/
def MarkovTableEntry.counted (e : MarkovTableEntry) : MarkovTableEntry :=
  if e.count < maxCtr then { e with count := e.count + 1 } else e

/-- The search for the pair from `ii` on: the pair is counted where it is found, and the first entry
that is not valid ends the search. -/
def search (lastMissAddr currentAddr : Addr) (row : Row) : ℕ → ℕ → Search
  | 0, ii => ⟨ii, false, .zero, row⟩
  | n + 1, ii =>
      if (row ii).valid then
        if (row ii).nextAddr = currentAddr ∧ (row ii).tag = lastMissAddr then
          ⟨ii, false, (row ii).counted, Function.update row ii (row ii).counted⟩
        else search lastMissAddr currentAddr row n (ii + 1)
      else ⟨ii, true, .zero, row⟩

/-- The loop of the LRU policy: the entries before `ii` move back by one. -/
def shiftBack : ℕ → Row → Row
  | 0, row => row
  | ii + 1, row => shiftBack ii (Function.update row (ii + 1) (row ii))

/-- The loop of the LFU policy: an entry passes those before it with a smaller count. -/
def bubble : ℕ → Row → Row
  | 0, row => row
  | ii + 1, row =>
      if (row ii).count < (row (ii + 1)).count then
        bubble ii (Function.update (Function.update row (ii + 1) (row ii)) ii (row (ii + 1)))
      else row

/-- What becomes of the row of the last miss. -/
def updateRow (lastMissAddr currentAddr : Addr) (row : Row) : Row :=
  let found := search lastMissAddr currentAddr row p.numNextStates.toNat 0
  let full := found.ii = p.numNextStates.toNat
  let newEntry := found.newEntry || full
  -- `ii` is unsigned, so that it wraps in a table without columns
  let ii := if full then (p.numNextStates - 1).toNat else found.ii
  let entry : MarkovTableEntry := ⟨true, currentAddr, lastMissAddr, 1⟩
  if p.tableUpdatePolicy = 0 then
    Function.update (shiftBack ii found.row) 0 (if newEntry then entry else found.temp)
  else if p.tableUpdatePolicy = 1 then
    if newEntry then Function.update found.row ii entry else bubble ii found.row
  else found.row

/-- `pref_markov_update_table`. -/
def prefMarkovUpdateTable (s : PrefMarkov) (currentAddr : Addr) (trueMiss : Bool) : PrefMarkov :=
  if s.lastMissAddr = 0 then { s with lastMissAddr := currentAddr }
  else
    { lastMissAddr := if trueMiss then currentAddr else s.lastMissAddr
      markovTable := Function.update s.markovTable (p.tableIndex s.lastMissAddr)
        (updateRow p s.lastMissAddr currentAddr (s.markovTable (p.tableIndex s.lastMissAddr))) }

/-! ## Sending -/

section

variable {κ : Type} (addto : Ul1Queue κ) (hwpId : Uns8)

/-- The loop of `pref_markov_send_prefetches` from `ii` on. -/
def sendLoop (procId : Uns8) (missLineAddr : Addr) (row : Row) : ℕ → ℕ → κ → κ
  | 0, _, k => k
  | n + 1, ii, k =>
      if (row ii).valid then
        if (row ii).tag = missLineAddr ∧ p.sendThreshold.toNat < (row ii).count.toNat then
          sendLoop procId missLineAddr row n (ii + 1)
            (addto (.plain procId ((row ii).nextAddr >>> p.log2Line) hwpId) k).2
        else sendLoop procId missLineAddr row n (ii + 1) k
      else k

/-- `pref_markov_send_prefetches`. -/
def prefMarkovSendPrefetches (procId : Uns8) (s : PrefMarkov) (missLineAddr : Addr) (k : κ) : κ :=
  sendLoop p addto hwpId procId missLineAddr (s.markovTable (p.tableIndex missLineAddr)) p.numNextStates.toNat 0 k

/-- `pref_markov_ul1_miss`. -/
def prefMarkovUl1Miss (core : Uns8 → PrefMarkov) (procId : Uns8) (lineAddr : Addr) (k : κ) : (Uns8 → PrefMarkov) × κ :=
  let s := prefMarkovUpdateTable p (core procId) lineAddr true
  (Function.update core procId s, prefMarkovSendPrefetches p addto hwpId procId s lineAddr k)

/-- `pref_markov_ul1_prefhit`. -/
def prefMarkovUl1Prefhit (core : Uns8 → PrefMarkov) (procId : Uns8) (lineAddr : Addr) (k : κ) :
    (Uns8 → PrefMarkov) × κ :=
  let s := if p.updateOnPrefHit then prefMarkovUpdateTable p (core procId) lineAddr false else core procId
  (Function.update core procId s,
    if p.sendOnPrefHit then prefMarkovSendPrefetches p addto hwpId procId s lineAddr k else k)

end

/-! ## What the loops leave -/

theorem shiftBack_apply (ii : ℕ) (row : Row) (j : ℕ) :
    shiftBack ii row j = if 1 ≤ j ∧ j ≤ ii then row (j - 1) else row j := by
  induction ii generalizing row with
  | zero =>
      rw [shiftBack, if_neg (by omega)]
  | succ ii ih =>
      rw [shiftBack, ih]
      by_cases hlow : 1 ≤ j ∧ j ≤ ii
      · rw [if_pos hlow, if_pos (by omega), Function.update_of_ne (by omega)]
      · rw [if_neg hlow]
        by_cases hlast : j = ii + 1
        · subst hlast
          rw [Function.update_self, if_pos (by omega)]
          rfl
        · rw [Function.update_of_ne hlast, if_neg (by omega)]

end Scarab.Markov
