import Scarab.Libs.Cache.Partition

/-! # A cache over its life

The operations of `libs/cache_lib.c` on one cache under a policy that is not an ideal one, with a log of
the lines that went in and out. -/

namespace Scarab.Memory

variable {δ : Type}

/-- `Repl_Policy` without the ideal ones. -/
inductive CachePolicy where
  | own (policy : ReplPolicy)
  | partition
  deriving DecidableEq, Repr

/-- What `update_repl_policy` goes by; a partition keeps the times of the true LRU. -/
def CachePolicy.update : CachePolicy → ReplPolicy
  | .own policy => policy
  | .partition => .trueLru

/-- The parameters of `init_cache`, and `NUM_CORES`. -/
structure CacheConfig where
  assoc : ℕ
  setBits : ℕ
  shiftBits : ℕ
  cores : ℕ
  policy : CachePolicy

def CacheConfig.geo (cfg : CacheConfig) : Geometry := ⟨cfg.assoc, cfg.setBits, cfg.shiftBits, cfg.policy.update⟩

/-- `cache_insert_lru` from the choice of the way on. -/
def Cache.insertLruWay (geo : Geometry) (c : Cache δ) (simTime procId : ℕ) (addr : Addr) (way : ℕ) (trueLru : Bool) :
    Cache δ :=
  let set := geo.set addr
  let line := { c.entries set way with procId, valid := true, tag := geo.tag addr, base := geo.lineAddr addr }
  let c := (c.setEntry set way line).updateReplPolicy geo simTime set way
  if trueLru then c.setEntry set way { c.entries set way with lastAccessTime := 137 } else c

/-- `cache_invalidate`. -/
def Cache.invalidate (geo : Geometry) (c : Cache δ) (addr : Addr) : Cache δ :=
  { c with entries := fun set way =>
      let line := c.entries set way
      if set = geo.set addr ∧ way < geo.assoc ∧ line.tag = geo.tag addr ∧ line.valid = true then
        { line with tag := 0, valid := false, base := 0 }
      else line }

/-- What happened to lines. -/
inductive LineEvent (δ : Type) where
  /-- A line went in with a data block, for the line with an address or for none. -/
  | inserted (line : Addr) (data : δ) (replaced : Option Addr)
  | invalidated (line : Addr)

/-- A cache, the counters of its partition, and its log, newest first. -/
structure CacheLife (δ : Type) where
  cache : Cache δ
  ways : CoreWays
  log : List (LineEvent δ)

/-- `init_cache`: the data blocks, the counters of the cores that `malloc` returns, and the random numbers. -/
def CacheLife.init (data : Addr → ℕ → δ) (ways : CoreWays) (rands : ℕ → ℕ) : CacheLife δ where
  cache := ⟨fun set way => ⟨0, false, 0, 0, 0, false, data set way⟩, fun _ => 0, rands⟩
  ways := ways
  log := []

/-- The calls. -/
inductive CacheCall where
  | access (simTime : ℕ) (addr : Addr) (updateRepl : Bool)
  | insertReplpos (simTime procId : ℕ) (addr : Addr) (insertReplPolicy : InsertRepl) (isPrefetch : Bool)
  | insertLru (simTime procId : ℕ) (addr : Addr)
  | invalidate (addr : Addr)
  | setPartitionAllocate (procId numWays : ℕ)

/-- `cache_insert`. -/
abbrev CacheCall.insert (simTime procId : ℕ) (addr : Addr) : CacheCall := .insertReplpos simTime procId addr .default false

/-- The data that `cache_access` returns; `none` is `NULL`. -/
def Cache.accessData (geo : Geometry) (c : Cache δ) (simTime : ℕ) (addr : Addr) (updateRepl : Bool) : Option δ :=
  (c.access geo simTime addr updateRepl).1.map fun way => (c.entries (geo.set addr) way).data

/-- `find_repl_entry`. -/
def CacheLife.findReplEntry (cfg : CacheConfig) (s : CacheLife δ) (procId : ℕ) (set : Addr) : Except String (ℕ × CoreWays) :=
  match cfg.policy with
  | .own _ => .ok (s.cache.findReplEntry cfg.geo set, s.ways)
  | .partition => s.cache.findPartitionEntry cfg.geo cfg.cores s.ways procId set

/-- The address that is replaced in a way. -/
def Cache.replaced (c : Cache δ) (set : Addr) (way : ℕ) : Option Addr :=
  if (c.entries set way).valid then some (c.entries set way).base else none

/-- An insertion into the way that the policy finds. A line goes in after a miss only, for a core of the
system and before the counter of cycles ends. -/
def CacheLife.insertWith (cfg : CacheConfig) (s : CacheLife δ) (simTime procId : ℕ) (addr : Addr)
    (insert : ℕ → Cache δ) : Except String (CacheLife δ) := do
  let set := cfg.geo.set addr
  if (s.cache.lookup cfg.geo addr).isSome then .error "call after cache_access returned NULL"
  else if cfg.cores ≤ procId then .error "proc_id < NUM_CORES"
  else if maxCtr ≤ simTime then .error "sim_time < MAX_CTR"
  else
    let (way, ways) ← s.findReplEntry cfg procId set
    return {
      cache := insert way
      ways := ways
      log := .inserted (cfg.geo.lineAddr addr) (s.cache.entries set way).data (s.cache.replaced set way) :: s.log }

/-- One call. -/
def CacheLife.step (cfg : CacheConfig) (s : CacheLife δ) : CacheCall → Except String (CacheLife δ)
  | .access simTime addr updateRepl =>
      if maxCtr ≤ simTime then .error "sim_time < MAX_CTR"
      else .ok { s with cache := (s.cache.access cfg.geo simTime addr updateRepl).2 }
  | .insertReplpos simTime procId addr insertReplPolicy isPrefetch =>
      s.insertWith cfg simTime procId addr fun way =>
        s.cache.insertWay cfg.geo simTime procId addr way insertReplPolicy isPrefetch
  | .insertLru simTime procId addr =>
      s.insertWith cfg simTime procId addr fun way =>
        s.cache.insertLruWay cfg.geo simTime procId addr way (cfg.policy == .own .trueLru)
  | .invalidate addr =>
      .ok { s with
        cache := s.cache.invalidate cfg.geo addr
        log := .invalidated (cfg.geo.lineAddr addr) :: s.log }
  | .setPartitionAllocate procId numWays =>
      .ok { s with ways := { s.ways with
        numWaysAlloctedCore := Function.update s.ways.numWaysAlloctedCore procId numWays } }

end Scarab.Memory
