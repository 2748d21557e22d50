import Mathlib.Data.List.Nodup
import Mathlib.Data.List.Range
import Scarab.Libs.Hash.State

/-! # Hash tables as finite maps

Every call on a table does what it does on the map from keys to blocks that the table stands for,
whatever the number of buckets and however often the table is rehashed. -/

namespace Scarab.Hash

variable {β : Type} {table t : Table β} {key key' : Key} {data : β} {index : ℕ} {chain : List (Key × β)}

/-- The block of a key. -/
def Table.toMap (table : Table β) (key : Key) : Option β := Chain.find (table.entries (table.index key)) key

/-- Every entry is in the bucket of its key, and counted. -/
structure Table.Valid (table : Table β) : Prop where
  place : ∀ index, ∀ e ∈ table.entries index, table.buckets ≠ 0 ∧ table.index e.1 = index
  keys : ∀ index, Chain.Keys (table.entries index)
  count : table.count = table.flat.length

theorem Table.index_lt (table : Table β) (key : Key) (h : table.buckets ≠ 0) : table.index key < table.buckets :=
  Nat.mod_lt _ (Nat.pos_of_ne_zero h)

/-- The entries are those of the map. -/
theorem Table.Valid.mem_flat (h : table.Valid) : (key, data) ∈ table.flat ↔ table.toMap key = some data := by
  rw [Table.toMap, Chain.find_eq_some (h.keys _), Table.flat, List.mem_flatMap]
  constructor
  · rintro ⟨index, -, hmem⟩
    obtain ⟨-, hindex⟩ := h.place _ _ hmem
    rwa [hindex]
  · intro hmem
    exact ⟨_, List.mem_range.mpr (table.index_lt key (h.place _ _ hmem).1), hmem⟩

theorem Table.Valid.flat_keys (h : table.Valid) : Chain.Keys table.flat := by
  unfold Chain.Keys Table.flat
  rw [List.map_flatMap, List.nodup_flatMap]
  refine ⟨fun index _ => h.keys index, List.nodup_range.imp fun {i j} hne => ?_⟩
  intro key hi hj
  obtain ⟨e, he, rfl⟩ := List.mem_map.mp hi
  obtain ⟨e', he', hkey⟩ := List.mem_map.mp hj
  have hplace := (h.place _ _ he).2
  have hplace' := (h.place _ _ he').2
  rw [hkey] at hplace'
  exact hne (hplace.symm.trans hplace')

/-! ## A change of one bucket -/

theorem Table.setBucket_toMap : (table.setBucket (table.index key) chain).toMap key' =
    if table.index key' = table.index key then Chain.find chain key' else table.toMap key' := by
  change Chain.find (if table.index key' = table.index key then chain else table.entries (table.index key')) key' = _
  split
  · rfl
  · rfl

theorem Table.setBucket_flat (table : Table β) (more : List (Key × β)) (hindex : index < table.buckets)
    (hgrow : chain.Perm (more ++ table.entries index)) :
    (table.setBucket index chain).flat.Perm (more ++ table.flat) := by
  refine Chain.flatMap_grow List.nodup_range (List.mem_range.mpr hindex) ?_ fun j hj => if_neg hj
  simpa [Table.setBucket] using hgrow

theorem Table.setBucket_flat_shrink (table : Table β) (less : List (Key × β)) (hindex : index < table.buckets)
    (hshrink : (table.entries index).Perm (less ++ chain)) :
    table.flat.Perm (less ++ (table.setBucket index chain).flat) := by
  refine Chain.flatMap_grow List.nodup_range (List.mem_range.mpr hindex) ?_ fun j hj => (if_neg hj).symm
  simpa [Table.setBucket] using hshrink

/-- A bucket with one entry for each of its keys. -/
theorem Table.Valid.setBucket {count : ℕ} (h : table.Valid) (hbuckets : table.buckets ≠ 0)
    (hplace : ∀ e ∈ chain, table.index e.1 = index) (hkeys : Chain.Keys chain)
    (hcount : count = (table.setBucket index chain).flat.length) :
    { table.setBucket index chain with count }.Valid := by
  refine ⟨fun index' e he => ⟨hbuckets, ?_⟩, fun index' => ?_, hcount⟩
  · by_cases hindex : index' = index
    · simp only [Table.setBucket, hindex, if_true] at he
      rw [hindex]
      exact hplace e he
    · simp only [Table.setBucket, hindex, if_false] at he
      exact (h.place _ _ he).2
  · by_cases hindex : index' = index
    · simp only [Table.setBucket, hindex, if_true]
      exact hkeys
    · simp only [Table.setBucket, hindex, if_false]
      exact h.keys _

/-- The bucket of a key is found unless there are no buckets. -/
theorem Table.bucket_eq_ok : table.bucket key = .ok chain ↔ table.buckets ≠ 0 ∧ chain = table.entries (table.index key) := by
  unfold Table.bucket
  by_cases h : table.buckets = 0
  · simp [h]
  · simp [h, eq_comm]

/-! ## The calls -/

/-- The map after a key got a block. -/
def update (m : Key → Option β) (key : Key) (data : Option β) : Key → Option β :=
  fun key' => if key' = key then data else m key'

theorem Table.toMap_of_find {f : Key → Option β} (hf : ∀ key', table.index key' = table.index key → Chain.find chain key' = f key')
    (hother : ∀ key', table.index key' ≠ table.index key → f key' = table.toMap key') :
    (table.setBucket (table.index key) chain).toMap = f := by
  funext key'
  rw [Table.setBucket_toMap]
  by_cases h : table.index key' = table.index key
  · rw [if_pos h, hf key' h]
  · rw [if_neg h, hother key' h]

/-- A bucket with a new block for a key. -/
theorem Table.Valid.setBucket_set (h : table.Valid) (hbuckets : table.buckets ≠ 0) (key : Key) (data : β) :
    ∃ t, t = { table.setBucket (table.index key) (Chain.set (table.entries (table.index key)) key data) with
        count := if (table.toMap key).isSome then table.count else table.count + 1 } ∧
      t.Valid ∧ t.toMap = update table.toMap key (some data) := by
  have hindex := table.index_lt key hbuckets
  refine ⟨_, rfl, h.setBucket hbuckets ?_ ?_ ?_, ?_⟩
  · intro e he
    cases Chain.mem_set he with
    | inl hkey => rw [hkey]
    | inr hmem => exact (h.place _ _ hmem).2
  · cases hfind : Chain.find (table.entries (table.index key)) key with
    | none =>
        rw [Chain.set_of_none hfind, Chain.keys_perm List.perm_append_comm, List.singleton_append, Chain.keys_cons]
        exact ⟨Chain.find_eq_none.mp hfind, h.keys _⟩
    | some data' =>
        unfold Chain.Keys
        rw [Chain.map_fst_set hfind]
        exact h.keys _
  · rw [h.count]
    cases hfind : table.toMap key with
    | none =>
        rw [Chain.set_of_none hfind]
        have hperm := (table.setBucket_flat [(key, data)] hindex List.perm_append_comm).length_eq
        simp [hperm]
    | some data' =>
        have hlength (index : ℕ) : ((table.setBucket (table.index key)
            (Chain.set (table.entries (table.index key)) key data)).entries index).length =
              (table.entries index).length := by
          by_cases hsame : index = table.index key
          · have hkeys := congrArg List.length (Chain.map_fst_set (b := data) hfind)
            simpa [Table.setBucket, hsame] using hkeys
          · simp [Table.setBucket, hsame]
        rw [if_pos Option.isSome_some, Table.flat, Table.flat, List.length_flatMap, List.length_flatMap]
        simp only [hlength]
        rfl
  · have hmap : (table.setBucket (table.index key)
        (Chain.set (table.entries (table.index key)) key data)).toMap = update table.toMap key (some data) := by
      refine Table.toMap_of_find (fun key' hsame => ?_) fun key' hne => ?_
      · rw [Chain.find_set, update, Table.toMap, hsame]
      · unfold update
        rw [if_neg]
        rintro rfl
        exact hne rfl
    exact hmap

/-- A bucket without a key. -/
theorem Table.Valid.setBucket_unlink (h : table.Valid) (hfind : table.toMap key = some data) :
    table.count ≠ 0 ∧ ∃ t, t = { table.setBucket (table.index key)
        (Chain.unlink (table.entries (table.index key)) key) with count := table.count - 1 } ∧
      t.Valid ∧ t.toMap = update table.toMap key none := by
  have hperm := Chain.unlink_perm hfind
  have hmem : (key, data) ∈ table.entries (table.index key) := hperm.mem_iff.mpr List.mem_cons_self
  have hbuckets := (h.place _ _ hmem).1
  have hflat := (table.setBucket_flat_shrink [(key, data)] (table.index_lt key hbuckets) hperm).length_eq
  rw [List.length_append, List.length_singleton] at hflat
  refine ⟨?_, _, rfl, h.setBucket hbuckets (fun e he => ?_) ?_ ?_, ?_⟩
  · rw [h.count]
    omega
  · exact (h.place _ _ (hperm.mem_iff.mpr (List.mem_cons_of_mem _ he))).2
  · exact (Chain.keys_cons.mp ((Chain.keys_perm hperm).mp (h.keys _))).2
  · rw [h.count]
    omega
  · have hmap : (table.setBucket (table.index key) (Chain.unlink (table.entries (table.index key)) key)).toMap =
        update table.toMap key none := by
      refine Table.toMap_of_find (fun key' hsame => ?_) fun key' hne => ?_
      · rw [Chain.find_unlink (h.keys _), update, Table.toMap, hsame]
      · unfold update
        rw [if_neg]
        rintro rfl
        exact hne rfl
    exact hmap

/-- An entry of a new key goes to the head of its bucket. -/
theorem Table.push_valid {e : Key × β} (hplace : ∀ index, ∀ e ∈ table.entries index, table.buckets ≠ 0 ∧ table.index e.1 = index)
    (hbuckets : table.buckets ≠ 0) : (∀ index, ∀ e' ∈ (table.push e).entries index,
      (table.push e).buckets ≠ 0 ∧ (table.push e).index e'.1 = index) ∧ (table.push e).flat.Perm (e :: table.flat) := by
  refine ⟨fun index e' he' => ⟨hbuckets, ?_⟩, ?_⟩
  · change table.index e'.1 = index
    by_cases hindex : index = table.index e.1
    · simp only [Table.push, Table.setBucket, hindex, if_true, List.mem_cons] at he'
      cases he' with
      | inl hhead => rw [hhead, hindex]
      | inr htail => rw [hindex, (hplace _ _ htail).2]
    · simp only [Table.push, Table.setBucket, hindex, if_false] at he'
      exact (hplace _ _ he').2
  · exact table.setBucket_flat [e] (table.index_lt e.1 hbuckets) (.refl _)

/-- All entries go to new buckets. -/
theorem Table.foldl_push (table : Table β) (es : List (Key × β))
    (hplace : ∀ index, ∀ e ∈ table.entries index, table.buckets ≠ 0 ∧ table.index e.1 = index) (hbuckets : table.buckets ≠ 0) :
    (∀ index, ∀ e ∈ (es.foldl Table.push table).entries index, (es.foldl Table.push table).buckets ≠ 0 ∧
      (es.foldl Table.push table).index e.1 = index) ∧
        (es.foldl Table.push table).flat.Perm (es ++ table.flat) ∧ (es.foldl Table.push table).count = table.count := by
  induction es generalizing table with
  | nil => exact ⟨hplace, .refl _, rfl⟩
  | cons e es ih =>
      obtain ⟨hpush, hperm⟩ := Table.push_valid (e := e) hplace hbuckets
      obtain ⟨hrest, hflat, hcount⟩ := ih (table.push e) hpush hbuckets
      refine ⟨hrest, ?_, hcount⟩
      exact (hflat.trans (hperm.append_left es)).trans List.perm_middle

/-- The bucket of a table whose entries all differ. -/
theorem Table.valid_of_flat (hplace : ∀ index, ∀ e ∈ table.entries index, table.buckets ≠ 0 ∧ table.index e.1 = index)
    (hkeys : Chain.Keys table.flat) (hcount : table.count = table.flat.length) : table.Valid := by
  refine ⟨hplace, fun index => ?_, hcount⟩
  by_cases hindex : index < table.buckets
  · unfold Chain.Keys Table.flat at hkeys
    rw [List.map_flatMap, List.nodup_flatMap] at hkeys
    exact hkeys.1 index (List.mem_range.mpr hindex)
  · have hnil : table.entries index = [] := by
      refine List.eq_nil_iff_forall_not_mem.mpr fun e he => ?_
      obtain ⟨hbuckets, hsame⟩ := hplace _ _ he
      exact hindex (hsame ▸ table.index_lt e.1 hbuckets)
    rw [hnil]
    exact List.nodup_nil

/-- A rehash keeps the map. -/
theorem Table.Valid.rehash {newBuckets : ℤ} (h : table.Valid) (ht : table.rehash newBuckets = .ok t) :
    t.Valid ∧ t.toMap = table.toMap := by
  unfold Table.rehash at ht
  split at ht
  · cases ht
  · dsimp only at ht
    split at ht
    · obtain rfl := Except.ok.inj ht
      exact ⟨h, rfl⟩
    · split at ht
      · cases ht
      · split at ht
        · cases ht
        · next hrange =>
          obtain rfl := Except.ok.inj ht
          have hbuckets : (table.newBuckets newBuckets).toNat ≠ 0 := by omega
          obtain ⟨hplace, hperm, hcount⟩ := Table.foldl_push
            ⟨(table.newBuckets newBuckets).toNat, table.count, fun _ => []⟩ table.flat (fun _ _ he => by cases he) hbuckets
          have hempty : Table.flat (β := β) ⟨(table.newBuckets newBuckets).toNat, table.count, fun _ => []⟩ = [] := by
            simp [Table.flat]
          rw [hempty, List.append_nil] at hperm
          have hvalid := Table.valid_of_flat hplace ((Chain.keys_perm hperm).mpr h.flat_keys)
            (by rw [hcount, hperm.length_eq]; exact h.count)
          refine ⟨hvalid, ?_⟩
          funext key
          ext data
          rw [← hvalid.mem_flat, ← h.mem_flat, hperm.mem_iff]

/-! ## The map -/

/-- The blocks of all keys of a map, each once. -/
def Enumerates (m : Key → Option β) (blocks : List β) : Prop :=
  ∃ keys : List Key, keys.Nodup ∧ (∀ key, key ∈ keys ↔ (m key).isSome = true) ∧ keys.map m = blocks.map some

/-- What a call does to a finite map. -/
inductive Answers (m : Key → Option β) : Op β → Out β → (Key → Option β) → Prop where
  | access (key : Key) : Answers m (.access key) (.found (m key)) m
  | hit {key : Key} {newData data : β} (h : m key = some data) : Answers m (.create key newData) (.created data false) m
  | create {key : Key} {newData : β} (h : m key = none) :
      Answers m (.create key newData) (.created newData true) (update m key (some newData))
  | replace (key : Key) (data : β) : Answers m (.replace key (some data)) .nothing (update m key (some data))
  | delete (key : Key) : Answers m (.delete key) (.deleted (m key).isSome) (update m key none)
  | clear : Answers m .clear .nothing fun _ => none
  | flattenEmpty (h : ∀ key, m key = none) : Answers m .flatten (.flattened none) m
  | flatten {blocks : List β} (hblocks : blocks ≠ []) (h : Enumerates m blocks) :
      Answers m .flatten (.flattened (some blocks)) m
  | scan {blocks : List β} (h : Enumerates m blocks) : Answers m .scan (.scanned blocks) m
  | rehash (newBuckets : ℤ) : Answers m (.rehash newBuckets) .nothing m

/-- The calls of a run, one after another. -/
inductive AnswersAll : (Key → Option β) → List (Op β) → List (Out β) → (Key → Option β) → Prop where
  | nil (m : Key → Option β) : AnswersAll m [] [] m
  | cons {m m' m'' : Key → Option β} {op : Op β} {ops : List (Op β)} {out : Out β} {outs : List (Out β)}
      (h : Answers m op out m') (hrest : AnswersAll m' ops outs m'') : AnswersAll m (op :: ops) (out :: outs) m''

theorem Table.Valid.enumerates (h : table.Valid) : Enumerates table.toMap (table.flat.map Prod.snd) := by
  refine ⟨table.flat.map Prod.fst, h.flat_keys, fun key => ?_, ?_⟩
  · rw [List.mem_map, Option.isSome_iff_exists]
    constructor
    · rintro ⟨e, he, rfl⟩
      exact ⟨e.2, h.mem_flat.mp he⟩
    · rintro ⟨data, hdata⟩
      exact ⟨_, h.mem_flat.mpr hdata, rfl⟩
  · rw [List.map_map, List.map_map]
    exact List.map_congr_left fun e he => h.mem_flat.mp he

theorem Table.Valid.eq_none_of_count (h : table.Valid) (hcount : table.count = 0) (key : Key) : table.toMap key = none := by
  rw [h.count] at hcount
  refine Option.eq_none_iff_forall_ne_some.mpr fun data hdata => ?_
  have hmem := h.mem_flat.mpr hdata
  rw [List.eq_nil_of_length_eq_zero hcount] at hmem
  cases hmem

theorem update_self {m : Key → Option β} {data : Option β} (h : m key = data) : update m key data = m := by
  funext key'
  unfold update
  split
  · next hkey => rw [hkey, h]
  · rfl

theorem Table.Valid.clear (h : table.Valid) : table.clear = .ok { table with count := 0, entries := fun _ => [] } := by
  unfold Table.clear
  rw [if_neg (not_not.mpr h.count.symm)]

/-- A call on a table answers as the call on its map. -/
theorem Table.Valid.call {op : Op β} {out : Out β} (h : table.Valid) (ht : table.call op = .ok (t, out)) :
    t.Valid ∧ Answers table.toMap op out t.toMap := by
  cases op with
  | access key =>
      obtain ⟨data, hdata, ht⟩ := Execution.bind_eq_ok.mp ht
      obtain ⟨bucket, hbucket, hdata⟩ := Execution.bind_eq_ok.mp hdata
      obtain ⟨rfl, rfl⟩ := Prod.mk.inj (Except.ok.inj ht)
      obtain ⟨-, rfl⟩ := Table.bucket_eq_ok.mp hbucket
      rw [← Except.ok.inj hdata]
      exact ⟨h, .access key⟩
  | create key newData =>
      obtain ⟨⟨data, newEntry, m⟩, hm, ht⟩ := Execution.bind_eq_ok.mp ht
      obtain ⟨rfl, rfl⟩ := Prod.mk.inj (Except.ok.inj ht)
      obtain ⟨bucket, hbucket, hm⟩ := Execution.bind_eq_ok.mp hm
      obtain ⟨hbuckets, rfl⟩ := Table.bucket_eq_ok.mp hbucket
      cases hfind : Chain.find (table.entries (table.index key)) key with
      | some data' =>
          rw [hfind] at hm
          simp only [pure, Except.pure, Except.ok.injEq, Prod.mk.injEq] at hm
          obtain ⟨rfl, rfl, rfl⟩ := hm
          exact ⟨h, .hit hfind⟩
      | none =>
          rw [hfind] at hm
          simp only [pure, Except.pure, Except.ok.injEq, Prod.mk.injEq] at hm
          obtain ⟨rfl, rfl, rfl⟩ := hm
          obtain ⟨m, rfl, hvalid, hmap⟩ := h.setBucket_set hbuckets key newData
          rw [Chain.set_of_none hfind] at hvalid hmap
          rw [if_neg (by simp [Table.toMap, hfind])] at hvalid hmap
          refine ⟨hvalid, ?_⟩
          rw [hmap]
          exact .create hfind
  | replace key replacement =>
      obtain ⟨m, hm, ht⟩ := Execution.bind_eq_ok.mp ht
      obtain ⟨rfl, rfl⟩ := Prod.mk.inj (Except.ok.inj ht)
      obtain ⟨bucket, hbucket, hm⟩ := Execution.bind_eq_ok.mp hm
      obtain ⟨hbuckets, rfl⟩ := Table.bucket_eq_ok.mp hbucket
      cases replacement with
      | none => cases hm
      | some data =>
          obtain ⟨t', ht', hvalid, hmap⟩ := h.setBucket_set hbuckets key data
          obtain rfl := ht'.trans (Except.ok.inj hm)
          refine ⟨hvalid, ?_⟩
          rw [hmap]
          exact .replace key data
  | delete key =>
      obtain ⟨⟨found, m⟩, hm, ht⟩ := Execution.bind_eq_ok.mp ht
      obtain ⟨rfl, rfl⟩ := Prod.mk.inj (Except.ok.inj ht)
      obtain ⟨bucket, hbucket, hm⟩ := Execution.bind_eq_ok.mp hm
      obtain ⟨hbuckets, rfl⟩ := Table.bucket_eq_ok.mp hbucket
      have hdelete := Answers.delete (m := table.toMap) key
      cases hfind : table.toMap key with
      | none =>
          rw [if_neg (by rw [show Chain.find (table.entries (table.index key)) key = none from hfind]; simp)] at hm
          obtain ⟨rfl, rfl⟩ := Prod.mk.inj (Except.ok.inj hm)
          rw [hfind, update_self hfind] at hdelete
          exact ⟨h, hdelete⟩
      | some data =>
          obtain ⟨hcount, t', ht', hvalid, hmap⟩ := h.setBucket_unlink hfind
          rw [if_pos (by rw [show Chain.find (table.entries (table.index key)) key = some data from hfind]; rfl),
            if_neg hcount] at hm
          obtain ⟨rfl, rfl⟩ := Prod.mk.inj (Except.ok.inj hm)
          rw [ht'] at hvalid hmap
          rw [hfind] at hdelete
          refine ⟨hvalid, ?_⟩
          rw [hmap]
          exact hdelete
  | clear =>
      obtain ⟨m, hm, ht⟩ := Execution.bind_eq_ok.mp ht
      obtain ⟨rfl, rfl⟩ := Prod.mk.inj (Except.ok.inj ht)
      rw [h.clear] at hm
      obtain rfl := Except.ok.inj hm
      exact ⟨⟨fun _ _ he => (by cases he), fun _ => List.nodup_nil, by simp [Table.flat]⟩, .clear⟩
  | flatten =>
      obtain ⟨blocks, hblocks, ht⟩ := Execution.bind_eq_ok.mp ht
      obtain ⟨rfl, rfl⟩ := Prod.mk.inj (Except.ok.inj ht)
      unfold Table.flatten at hblocks
      by_cases hcount : table.count = 0
      · rw [if_pos hcount] at hblocks
        rw [← Except.ok.inj hblocks]
        exact ⟨h, .flattenEmpty (h.eq_none_of_count hcount)⟩
      · rw [if_neg hcount, if_neg (not_not.mpr h.count.symm)] at hblocks
        rw [← Except.ok.inj hblocks]
        refine ⟨h, .flatten ?_ h.enumerates⟩
        intro hnil
        rw [h.count, List.map_eq_nil_iff.mp hnil] at hcount
        exact hcount rfl
  | scan =>
      obtain ⟨blocks, hblocks, ht⟩ := Execution.bind_eq_ok.mp ht
      obtain ⟨rfl, rfl⟩ := Prod.mk.inj (Except.ok.inj ht)
      unfold Table.scan at hblocks
      by_cases hcount : table.count = 0
      · rw [if_pos hcount] at hblocks
        rw [← Except.ok.inj hblocks]
        refine ⟨h, .scan ⟨[], List.nodup_nil, fun key => ?_, rfl⟩⟩
        simp [h.eq_none_of_count hcount key]
      · rw [if_neg hcount, if_neg (not_not.mpr h.count.symm)] at hblocks
        rw [← Except.ok.inj hblocks]
        exact ⟨h, .scan h.enumerates⟩
  | rehash newBuckets =>
      obtain ⟨m, hm, ht⟩ := Execution.bind_eq_ok.mp ht
      obtain ⟨rfl, rfl⟩ := Prod.mk.inj (Except.ok.inj ht)
      obtain ⟨hvalid, hmap⟩ := h.rehash hm
      rw [hmap]
      exact ⟨hvalid, .rehash newBuckets⟩

theorem find_hashTablePrimes (buckets : ℕ) :
    ((hashTablePrimes.zip hashTablePrimes.tail).find? fun primes => primes.1 == buckets) = none ∨
      ∃ primes, ((hashTablePrimes.zip hashTablePrimes.tail).find? fun primes => primes.1 == buckets) = some primes ∧
        0 < primes.2 ∧ primes.2 < 100000 := by
  cases h : (hashTablePrimes.zip hashTablePrimes.tail).find? fun primes => primes.1 == buckets with
  | none => exact .inl rfl
  | some primes =>
      have hall : ∀ primes ∈ hashTablePrimes.zip hashTablePrimes.tail, 0 < primes.2 ∧ primes.2 < 100000 := by decide
      exact .inr ⟨primes, rfl, hall primes (List.mem_of_find?_eq_some h)⟩

/-- A rehash goes to a number of buckets that the assertion allows. -/
theorem Table.Valid.rehash_ok {newBuckets : ℤ} (h : table.Valid) (hbuckets : table.buckets ≠ 0) (hnew : 0 ≤ newBuckets)
    (hrange : newBuckets < 100000) : ∃ t, table.rehash newBuckets = .ok t ∧ t.buckets ≠ 0 := by
  have hsize : table.newBuckets newBuckets = table.buckets ∨
      0 < table.newBuckets newBuckets ∧ table.newBuckets newBuckets < 100000 := by
    unfold Table.newBuckets
    by_cases hzero : newBuckets = 0
    · rw [if_pos hzero]
      cases find_hashTablePrimes table.buckets with
      | inl hnone =>
          rw [hnone]
          exact .inl rfl
      | inr hsome =>
          obtain ⟨primes, hfind, hpos, hlt⟩ := hsome
          rw [hfind]
          refine .inr ⟨?_, ?_⟩
          · simpa using hpos
          · simp only [Option.map_some, Option.getD_some]
            omega
    · rw [if_neg hzero]
      exact .inr ⟨by omega, hrange⟩
  unfold Table.rehash
  rw [if_neg (by omega)]
  dsimp only
  by_cases hsame : table.newBuckets newBuckets = table.buckets
  · rw [if_pos hsame]
    exact ⟨table, rfl, hbuckets⟩
  · obtain ⟨hpos, hlt⟩ := hsize.resolve_left hsame
    rw [if_neg hsame, if_neg (not_not.mpr h.count.symm), if_neg (by omega)]
    refine ⟨_, rfl, ?_⟩
    have hfold (es : List (Key × β)) (table : Table β) : (es.foldl Table.push table).buckets = table.buckets := by
      induction es generalizing table with
      | nil => rfl
      | cons e es ih => exact ih (table.push e)
    rw [hfold]
    change (table.newBuckets newBuckets).toNat ≠ 0
    omega

/-- The calls that the assertions allow do not fail. -/
theorem Table.Valid.call_ok {op : Op β} (h : table.Valid) (hbuckets : table.buckets ≠ 0) (hlegal : op.legal = true) :
    ∃ out, table.call op = .ok out ∧ out.1.buckets ≠ 0 := by
  have hbucket (key : Key) : table.bucket key = .ok (table.entries (table.index key)) :=
    Table.bucket_eq_ok.mpr ⟨hbuckets, rfl⟩
  cases op with
  | access key =>
      simp only [Table.call, Table.access, hbucket, bind, Except.bind, pure, Except.pure]
      exact ⟨_, rfl, hbuckets⟩
  | create key newData =>
      cases hfind : Chain.find (table.entries (table.index key)) key with
      | none =>
          simp only [Table.call, Table.accessCreate, hbucket, hfind, bind, Except.bind, pure, Except.pure]
          exact ⟨_, rfl, hbuckets⟩
      | some data =>
          simp only [Table.call, Table.accessCreate, hbucket, hfind, bind, Except.bind, pure, Except.pure]
          exact ⟨_, rfl, hbuckets⟩
  | replace key replacement =>
      obtain ⟨data, rfl⟩ := Option.isSome_iff_exists.mp hlegal
      simp only [Table.call, Table.accessReplace, hbucket, bind, Except.bind, pure, Except.pure]
      exact ⟨_, rfl, hbuckets⟩
  | delete key =>
      cases hfind : Chain.find (table.entries (table.index key)) key with
      | none =>
          simp only [Table.call, Table.accessDelete, hbucket, hfind, bind, Except.bind, pure, Except.pure]
          exact ⟨_, rfl, hbuckets⟩
      | some data =>
          have hcount := (h.setBucket_unlink hfind).1
          simp only [Table.call, Table.accessDelete, hbucket, hfind, Option.isSome_some, if_true, if_neg hcount, bind,
            Except.bind, pure, Except.pure]
          exact ⟨_, rfl, hbuckets⟩
  | clear =>
      simp only [Table.call, h.clear, bind, Except.bind, pure, Except.pure]
      exact ⟨_, rfl, hbuckets⟩
  | flatten =>
      by_cases hcount : table.count = 0
      · simp only [Table.call, Table.flatten, if_pos hcount, bind, Except.bind, pure, Except.pure]
        exact ⟨_, rfl, hbuckets⟩
      · simp only [Table.call, Table.flatten, if_neg hcount, if_neg (not_not.mpr h.count.symm), bind, Except.bind, pure,
          Except.pure]
        exact ⟨_, rfl, hbuckets⟩
  | scan =>
      by_cases hcount : table.count = 0
      · simp only [Table.call, Table.scan, if_pos hcount, bind, Except.bind, pure, Except.pure]
        exact ⟨_, rfl, hbuckets⟩
      · simp only [Table.call, Table.scan, if_neg hcount, if_neg (not_not.mpr h.count.symm), bind, Except.bind, pure,
          Except.pure]
        exact ⟨_, rfl, hbuckets⟩
  | rehash newBuckets =>
      simp only [Op.legal, Bool.and_eq_true, decide_eq_true_eq] at hlegal
      obtain ⟨m, hm, hne⟩ := h.rehash_ok hbuckets hlegal.1 hlegal.2
      simp only [Table.call, hm, bind, Except.bind, pure, Except.pure]
      exact ⟨_, rfl, hne⟩

/-! ## Runs -/

theorem Table.init_valid (buckets : ℕ) : (Table.init buckets : Table β).Valid :=
  ⟨fun _ _ he => (by cases he), fun _ => List.nodup_nil, by simp [Table.init, Table.flat]⟩

/-- A run of calls answers as the calls on the map. -/
theorem run_answers {ops : List (Op β)} {outs outs' : List (Out β)} (h : table.Valid)
    (ht : run (table, outs) ops = .ok (t, outs')) :
    t.Valid ∧ ∃ new, outs' = outs ++ new ∧ AnswersAll table.toMap ops new t.toMap := by
  induction ops generalizing table outs with
  | nil =>
      obtain ⟨rfl, rfl⟩ := Prod.mk.inj (Except.ok.inj ht)
      exact ⟨h, [], (List.append_nil _).symm, .nil _⟩
  | cons op ops ih =>
      obtain ⟨m, hm, ht⟩ := Execution.run_cons_eq_ok.mp ht
      obtain ⟨⟨table', out⟩, hcall, hm⟩ := Execution.bind_eq_ok.mp hm
      obtain rfl := Except.ok.inj hm
      obtain ⟨hvalid, hanswer⟩ := h.call hcall
      obtain ⟨hvalid', new, rfl, hnew⟩ := ih hvalid ht
      exact ⟨hvalid', out :: new, List.append_assoc _ _ _, .cons hanswer hnew⟩

theorem run_ok {ops : List (Op β)} {outs : List (Out β)} (h : table.Valid) (hbuckets : table.buckets ≠ 0)
    (hlegal : ∀ op ∈ ops, op.legal = true) : ∃ s, run (table, outs) ops = .ok s := by
  induction ops generalizing table outs with
  | nil => exact ⟨_, rfl⟩
  | cons op ops ih =>
      obtain ⟨⟨table', out⟩, hcall, hne⟩ := h.call_ok hbuckets (hlegal op List.mem_cons_self)
      obtain ⟨s, hs⟩ : ∃ s, run (table', outs ++ [out]) ops = .ok s :=
        ih (h.call hcall).1 hne fun op hop => hlegal op (List.mem_cons_of_mem _ hop)
      refine ⟨s, Execution.run_cons_eq_ok.mpr ⟨(table', outs ++ [out]), ?_, hs⟩⟩
      unfold step
      rw [hcall]
      rfl

/-- A table behaves as a finite map: no legal call fails, every call returns what the map has, the
keys of the map are those that are found, and the count is their number. -/
theorem table_behavesAsMap (buckets : ℕ) (ops : List (Op β)) :
    (buckets ≠ 0 → (∀ op ∈ ops, op.legal = true) → ∃ s, run (Table.init buckets, []) ops = .ok s) ∧
      ∀ table outs, run (Table.init buckets, []) ops = .ok (table, outs) →
        ∃ m, AnswersAll (fun _ => none) ops outs m ∧
          (table.buckets ≠ 0 → ∀ key, table.access key = .ok (m key)) ∧
            ∃ keys : List Key, keys.Nodup ∧ (∀ key, key ∈ keys ↔ (m key).isSome = true) ∧ table.count = keys.length := by
  refine ⟨fun hbuckets => run_ok (Table.init_valid buckets) hbuckets, fun table outs ht => ?_⟩
  obtain ⟨hvalid, new, rfl, hanswers⟩ := run_answers (Table.init_valid buckets) ht
  refine ⟨table.toMap, hanswers, fun hbuckets key => ?_, ?_⟩
  · unfold Table.access
    rw [Table.bucket_eq_ok.mpr ⟨hbuckets, rfl⟩]
    rfl
  · obtain ⟨keys, hnodup, hkeys, hblocks⟩ := hvalid.enumerates
    refine ⟨keys, hnodup, hkeys, ?_⟩
    have hlength := congrArg List.length hblocks
    simp only [List.length_map] at hlength
    rw [hvalid.count, hlength]

/-- Two keys in one bucket, which a rehash parts. -/
theorem table_behavesAsMap_rehash :
    ∃ m, AnswersAll (fun _ => none) [.create 1 7, .create 6 8, .rehash 0, .delete 1, .access 6, .flatten]
      [.created 7 true, .created 8 true, .nothing, .deleted true, .found (some 8), .flattened (some [8])] m := by
  obtain ⟨⟨table, outs⟩, hs⟩ := (table_behavesAsMap 5
    [.create 1 7, .create 6 8, .rehash 0, .delete 1, .access 6, .flatten]).1 (by decide) (by decide)
  have houts : Prod.snd <$> run (Table.init 5, []) [.create 1 7, .create 6 8, .rehash 0, .delete 1, .access 6, .flatten] =
      .ok [.created 7 true, .created 8 true, .nothing, .deleted true, .found (some 8), .flattened (some [8])] := by
    decide +kernel
  rw [hs] at houts
  obtain ⟨m, hm, -⟩ := (table_behavesAsMap 5 _).2 table outs hs
  rw [show outs = _ from Except.ok.inj houts] at hm
  exact ⟨m, hm⟩

end Scarab.Hash
