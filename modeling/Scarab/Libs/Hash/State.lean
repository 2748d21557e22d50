import Mathlib.Data.Int.Notation
import Scarab.Lib.Chain
import Scarab.Lib.Execution

/-! # Hash tables

`libs/hash_lib.c`, for the simple key compare. A data block is a value; memory never runs out. -/

namespace Scarab.Hash

variable {β : Type}

/-- `int64`. -/
abbrev Key := BitVec 64

/-- `Hash_Table`: the chains of its buckets. -/
structure Table (β : Type) where
  buckets : ℕ
  count : ℕ
  entries : ℕ → List (Key × β)

/-- `hash_table_primes`. -/
def hashTablePrimes : List ℕ := [1, 5, 11, 23, 47, 101, 211, 401, 811, 1601, 3209, 6373]

/-- `init_hash_table`. -/
def Table.init (buckets : ℕ) : Table β := ⟨buckets, 0, fun _ => []⟩

/-- `HASH_INDEX`: the key is cut to an `uns`. -/
def Table.index (table : Table β) (key : Key) : ℕ := (key.truncate 32).toNat % table.buckets

def Table.setBucket (table : Table β) (index : ℕ) (chain : List (Key × β)) : Table β :=
  { table with entries := fun index' => if index' = index then chain else table.entries index' }

/-- All entries in the order of the buckets. -/
def Table.flat (table : Table β) : List (Key × β) := (List.range table.buckets).flatMap table.entries

/-- The bucket of a key; without buckets the index is a division by zero. -/
def Table.bucket (table : Table β) (key : Key) : Except String (List (Key × β)) :=
  if table.buckets = 0 then .error "division by zero" else .ok (table.entries (table.index key))

/-- `hash_table_access`. -/
def Table.access (table : Table β) (key : Key) : Except String (Option β) := do
  return Chain.find (← table.bucket key) key

/-- `hash_table_access_create`, with the block that is allocated if there is none. -/
def Table.accessCreate (table : Table β) (key : Key) (newData : β) : Except String (β × Bool × Table β) := do
  let bucket ← table.bucket key
  match Chain.find bucket key with
  | some data => return (data, false, table)
  | none =>
      return (newData, true, { table.setBucket (table.index key) (bucket ++ [(key, newData)]) with
        count := table.count + 1 })

/-- `hash_table_access_replace`; there is no replacement if it is `NULL`. -/
def Table.accessReplace (table : Table β) (key : Key) (replacement : Option β) : Except String (Table β) := do
  let bucket ← table.bucket key
  match replacement with
  | none => .error "replacement"
  | some data =>
      return { table.setBucket (table.index key) (Chain.set bucket key data) with
        count := if (Chain.find bucket key).isSome then table.count else table.count + 1 }

/-- `hash_table_access_delete`. -/
def Table.accessDelete (table : Table β) (key : Key) : Except String (Bool × Table β) := do
  let bucket ← table.bucket key
  if (Chain.find bucket key).isSome then
    if table.count = 0 then .error "table->count >= 0"
    else return (true, { table.setBucket (table.index key) (Chain.unlink bucket key) with count := table.count - 1 })
  else return (false, table)

/-- `hash_table_clear`. -/
def Table.clear (table : Table β) : Except String (Table β) :=
  if table.flat.length ≠ table.count then .error "count == table->count"
  else .ok { table with count := 0, entries := fun _ => [] }

/-- `hash_table_flatten`; `none` is `NULL`. -/
def Table.flatten (table : Table β) : Except String (Option (List β)) :=
  if table.count = 0 then .ok none
  else if table.flat.length ≠ table.count then .error "count == table->count"
  else .ok (some (table.flat.map Prod.snd))

/-- `hash_table_scan`: the blocks that `scan_func` is called with. -/
def Table.scan (table : Table β) : Except String (List β) :=
  if table.count = 0 then .ok []
  else if table.flat.length ≠ table.count then .error "count == table->count"
  else .ok (table.flat.map Prod.snd)

/-- An entry at the head of its bucket. -/
def Table.push (table : Table β) (entry : Key × β) : Table β :=
  table.setBucket (table.index entry.1) (entry :: table.entries (table.index entry.1))

/-- The number of buckets after a rehash; for 0 the next one of `hash_table_primes`. -/
def Table.newBuckets (table : Table β) (newBuckets : ℤ) : ℤ :=
  if newBuckets = 0 then
    (((hashTablePrimes.zip hashTablePrimes.tail).find? fun primes => primes.1 == table.buckets).map Prod.snd).getD
      table.buckets
  else newBuckets

/-- `hash_table_rehash`. -/
def Table.rehash (table : Table β) (newBuckets : ℤ) : Except String (Table β) :=
  if newBuckets < 0 then .error "new_buckets >= 0"
  else
    let newBuckets := table.newBuckets newBuckets
    if newBuckets = table.buckets then .ok table
    else if table.flat.length ≠ table.count then .error "jj == table->count"
    else if newBuckets ≤ 0 ∨ 100000 ≤ newBuckets then .error "new_buckets > 0 && new_buckets < 100000"
    else .ok (table.flat.foldl Table.push ⟨newBuckets.toNat, table.count, fun _ => []⟩)

/-! ## Runs -/

/-- A call. -/
inductive Op (β : Type) where
  | access (key : Key)
  | create (key : Key) (newData : β)
  | replace (key : Key) (replacement : Option β)
  | delete (key : Key)
  | clear
  | flatten
  | scan
  | rehash (newBuckets : ℤ)

/-- What a call returns, or hands to `scan_func`. -/
inductive Out (β : Type) where
  | found (data : Option β)
  | created (data : β) (newEntry : Bool)
  | deleted (found : Bool)
  | flattened (blocks : Option (List β))
  | scanned (blocks : List β)
  | nothing
  deriving DecidableEq

def Table.call (table : Table β) : Op β → Except String (Table β × Out β)
  | .access key => do return (table, .found (← table.access key))
  | .create key newData => do
      let (data, newEntry, table) ← table.accessCreate key newData
      return (table, .created data newEntry)
  | .replace key replacement => do return (← table.accessReplace key replacement, .nothing)
  | .delete key => do
      let (found, table) ← table.accessDelete key
      return (table, .deleted found)
  | .clear => do return (← table.clear, .nothing)
  | .flatten => do return (table, .flattened (← table.flatten))
  | .scan => do return (table, .scanned (← table.scan))
  | .rehash newBuckets => do return (← table.rehash newBuckets, .nothing)

/-- A call after others. -/
def step (s : Table β × List (Out β)) (op : Op β) : Except String (Table β × List (Out β)) := do
  let (table, out) ← s.1.call op
  return (table, s.2 ++ [out])

abbrev run : Table β × List (Out β) → List (Op β) → Except String (Table β × List (Out β)) := Execution.run step

/-- The arguments that the assertions allow. -/
def Op.legal : Op β → Bool
  | .replace _ replacement => replacement.isSome
  | .rehash newBuckets => decide (0 ≤ newBuckets) && decide (newBuckets < 100000)
  | _ => true

end Scarab.Hash
