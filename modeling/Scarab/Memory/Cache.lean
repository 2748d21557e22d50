import Mathlib.Algebra.Group.Nat.Defs
import Mathlib.Data.List.Sort
import Scarab.Lib.Argmin
import Scarab.Prefetcher.Types

/-! # Caches

`libs/cache_lib.c`, for the replacement policies that keep no lines beside the cache: not
`REPL_IDEAL`, `REPL_SHADOW_IDEAL`, `REPL_IDEAL_STORAGE` and `REPL_PARTITION`. -/

namespace Scarab.Memory

variable {δ : Type}

/-- `Repl_Policy`. -/
inductive ReplPolicy where
  | trueLru
  | random
  | notMru
  | roundRobin
  | lowPref
  deriving DecidableEq, Repr

/-- `Cache_Insert_Repl`. -/
inductive InsertRepl where
  | default
  | lru
  | lowqtr
  | mid
  | mru
  deriving DecidableEq, Repr

/-- What `init_cache` sets for good. -/
structure Geometry where
  assoc : ℕ
  /-- `LOG2(num_sets)`. -/
  setBits : ℕ
  /-- `LOG2(line_size)`. -/
  shiftBits : ℕ
  replPolicy : ReplPolicy

/-- `Cache_Entry`. -/
structure CacheEntry (δ : Type) where
  procId : ℕ
  valid : Bool
  tag : Addr
  base : Addr
  lastAccessTime : ℕ
  pref : Bool
  data : δ

/-- `Cache`: the entries by set and way. -/
structure Cache (δ : Type) where
  entries : Addr → ℕ → CacheEntry δ
  replCtrs : Addr → ℕ
  /-- What `rand` is going to return. -/
  rands : ℕ → ℕ

/-- `MAX_CTR`. -/
def maxCtr : ℕ := 2 ^ 64 - 1

/-! ## Indices -/

/-- `cache_index`. -/
def Geometry.set (geo : Geometry) (addr : Addr) : Addr := addr >>> geo.shiftBits &&& (((1 : Addr) <<< geo.setBits) - 1)

def Geometry.tag (geo : Geometry) (addr : Addr) : Addr := addr >>> geo.shiftBits &&& ~~~(((1 : Addr) <<< geo.setBits) - 1)

def Geometry.lineAddr (geo : Geometry) (addr : Addr) : Addr := addr &&& ~~~(((1 : Addr) <<< geo.shiftBits) - 1)

def Geometry.ways (geo : Geometry) : List ℕ := List.range geo.assoc

/-- The write of an entry. -/
def Cache.setEntry (c : Cache δ) (set : Addr) (way : ℕ) (entry : CacheEntry δ) : Cache δ :=
  { c with entries := fun set' way' => if set' = set ∧ way' = way then entry else c.entries set' way' }

/-- The write of the data of an entry. -/
def Cache.setData (c : Cache δ) (set : Addr) (way : ℕ) (data : δ) : Cache δ :=
  c.setEntry set way { c.entries set way with data }

/-! ## Replacement -/

/-- The way with the smallest access time among those that `ok` allows. -/
def Cache.oldest (geo : Geometry) (c : Cache δ) (set : Addr) (ok : CacheEntry δ → Bool) : ℕ :=
  Argmin.scan (fun way => if ok (c.entries set way) then (c.entries set way).lastAccessTime else maxCtr)
    geo.ways 0 0 maxCtr

/-- `find_repl_entry`. -/
def Cache.findReplEntry (geo : Geometry) (c : Cache δ) (set : Addr) : ℕ :=
  match geo.replPolicy with
  | .trueLru => (geo.ways.find? fun way => !(c.entries set way).valid).getD (c.oldest geo set fun _ => true)
  | .random | .notMru | .roundRobin | .lowPref =>
      (geo.ways.reverse.find? fun way => !(c.entries set way).valid).getD (c.replCtrs set)

/-- The counter that `REPL_LOW_PREF` keeps: an invalid way, else the oldest prefetched one, else
the oldest one. -/
def Cache.lowPrefWay (geo : Geometry) (c : Cache δ) (set : Addr) : ℕ :=
  (geo.ways.find? fun way => !(c.entries set way).valid).getD
    (if geo.ways.any fun way => (c.entries set way).pref && decide ((c.entries set way).lastAccessTime < maxCtr) then
      c.oldest geo set CacheEntry.pref
    else c.oldest geo set fun _ => true)

/-- `CIRC_INC2`, which masks; the counters of a cache are far from the end of `uns`. -/
def circInc2 (val pow2 : ℕ) : ℕ := (val + 1) &&& (pow2 - 1)

/-- `update_repl_policy`. -/
def Cache.updateReplPolicy (geo : Geometry) (c : Cache δ) (simTime : ℕ) (set : Addr) (way : ℕ) : Cache δ :=
  let setCtr (n : ℕ) : Addr → ℕ := fun set' => if set' = set then n else c.replCtrs set'
  match geo.replPolicy with
  | .trueLru => c.setEntry set way { c.entries set way with lastAccessTime := simTime }
  | .random => { c with replCtrs := setCtr (c.rands 0 % geo.assoc), rands := fun n => c.rands (n + 1) }
  | .notMru =>
      if way = c.replCtrs set then { c with replCtrs := setCtr (circInc2 (c.replCtrs set) geo.assoc) } else c
  | .roundRobin => { c with replCtrs := setCtr (circInc2 (c.replCtrs set) geo.assoc) }
  | .lowPref => { c with replCtrs := setCtr (c.lowPrefWay geo set) }

/-! ## Operations -/

/-- The way that holds the line of an address. -/
def Cache.lookup (geo : Geometry) (c : Cache δ) (addr : Addr) : Option ℕ :=
  geo.ways.find? fun way =>
    (c.entries (geo.set addr) way).valid && (c.entries (geo.set addr) way).tag == geo.tag addr

/-- `cache_access`. -/
def Cache.access (geo : Geometry) (c : Cache δ) (simTime : ℕ) (addr : Addr) (updateRepl : Bool) :
    Option ℕ × Cache δ :=
  match c.lookup geo addr with
  | some way =>
      let set := geo.set addr
      (some way, if updateRepl then
        (c.setEntry set way { c.entries set way with pref := false }).updateReplPolicy geo simTime set way
      else c)
  | none => (none, c)

/-- The access times of a set in order, 0 for an invalid way. -/
def Cache.accessTimes (geo : Geometry) (c : Cache δ) (set : Addr) : List ℕ :=
  (geo.ways.map fun way =>
    if (c.entries set way).valid then (c.entries set way).lastAccessTime else 0).insertionSort (· ≤ ·)

/-- The access time of a line that goes into the set at a place of the replacement order. -/
def Cache.accessTimeAt (geo : Geometry) (c : Cache δ) (simTime : ℕ) (set : Addr) (place : ℕ) : ℕ :=
  let time := (c.accessTimes geo set).getD place 0
  if time = 0 then simTime else time

/-- `cache_insert_replpos`: the way of the new line, and the cache. The data of the entry stays. -/
def Cache.insertReplpos (geo : Geometry) (c : Cache δ) (simTime procId : ℕ) (addr : Addr)
    (insertReplPolicy : InsertRepl) (isPrefetch : Bool) : ℕ × Cache δ :=
  let set := geo.set addr
  let way := c.findReplEntry geo set
  let line : CacheEntry δ :=
    { procId
      valid := true
      tag := geo.tag addr
      base := geo.lineAddr addr
      lastAccessTime := simTime
      pref := isPrefetch
      data := (c.entries set way).data }
  let c := c.setEntry set way line
  (way, match insertReplPolicy with
    | .default => c.updateReplPolicy geo simTime set way
    | .lru => c.setEntry set way { line with lastAccessTime := 123 }
    | .mru => c
    | .mid => c.setEntry set way { line with lastAccessTime := c.accessTimeAt geo simTime set (geo.assoc / 2) }
    | .lowqtr => c.setEntry set way { line with lastAccessTime := c.accessTimeAt geo simTime set (geo.assoc / 4) })

/-- `cache_insert`. -/
def Cache.insert (geo : Geometry) (c : Cache δ) (simTime procId : ℕ) (addr : Addr) : ℕ × Cache δ :=
  c.insertReplpos geo simTime procId addr .default false

end Scarab.Memory
