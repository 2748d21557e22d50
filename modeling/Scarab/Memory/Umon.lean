import Mathlib.Algebra.GroupWithZero.Nat
import Scarab.Lib.Bits
import Scarab.Lib.Execution
import Scarab.Libs.Cache.StackPosition

/-! # The utility monitors

With `UMON_DSS` each core has a small cache of the lines that its requests find in the sampled sets of the L1. The
lines go in under converted addresses: the tag, and the number of the sampled set in the five bits below. -/

namespace Scarab.Memory

/-- The parameters that the sampling reads. -/
structure UmonConfig where
  l1Size : ℕ
  l1LineSize : ℕ
  l1Assoc : ℕ
  numCores : ℕ
  privateL1 : Bool
  /-- `L1_CACHE_REPL_POLICY == REPL_PARTITION`. -/
  replPartition : Bool
  /-- `ADDR_TRANSLATION == ADDR_TRANS_NONE`. -/
  addrTransNone : Bool
  partitionUmonDssPrefEnable : Bool

/-- `Umon_Cache_Data`. -/
structure UmonCacheData where
  addr : Addr
  prefetch : Bool

/-- The caches and the hit counts, by core. -/
structure UmonState where
  umonCacheCore : ℕ → Cache UmonCacheData
  umonCacheHitCountCore : ℕ → ℤ → ℕ

/-- A request that looks into the monitor of its core, or a fill with a prefetch. -/
inductive UmonEvent where
  | access (procId simTime : ℕ) (addr : Addr)
  | fill (procId simTime : ℕ) (addr : Addr)

namespace UmonConfig

variable (p : UmonConfig)

/-- `num_sets` of an L1. -/
def l1NumSets : ℕ := (if p.privateL1 then p.l1Size / p.numCores else p.l1Size) / p.l1LineSize / p.l1Assoc

/-- `shift_bits` of an L1. -/
def shiftBits : ℕ := Nat.log2 p.l1LineSize

/-- `set_bits` of an L1. -/
def setBits : ℕ := Nat.log2 p.l1NumSets

/-- `num_sets` of a monitor, whose lines are one byte. -/
def umonNumSets : ℕ := p.l1Size / 32 / p.l1LineSize / 1 / p.l1Assoc

def umonGeo : Geometry := ⟨p.l1Assoc, Nat.log2 p.umonNumSets, Nat.log2 1, .trueLru⟩

/-- `set`. -/
def set (addr : Addr) : ℕ := ((addr >>> p.shiftBits &&& ((1 : Addr) <<< p.setBits) - 1).setWidth 32).toNat

def Sampled (addr : Addr) : Prop := p.set addr % 33 = 0

instance (addr : Addr) : Decidable (p.Sampled addr) := inferInstanceAs (Decidable (_ = _))

/-- `conv_addr`. -/
def convAddr (addr : Addr) : Addr :=
  addr >>> (p.shiftBits + p.setBits) <<< 5 ||| BitVec.ofNat 64 (p.set addr / 33)

/-- A monitor gets a line. -/
def insertUmon (cache : Cache UmonCacheData) (simTime procId : ℕ) (convAddr : Addr) (data : UmonCacheData) :
    Cache UmonCacheData :=
  let (way, cache) := cache.insert p.umonGeo simTime procId convAddr
  cache.setData (p.umonGeo.set convAddr) way data

/-- The part of `mem_complete_l1_access` for `UMON_DSS`. -/
def access (s : UmonState) (procId simTime : ℕ) (addr : Addr) : Except String UmonState :=
  if !p.replPartition then .error "L1_CACHE_REPL_POLICY == REPL_PARTITION"
  else if !p.addrTransNone then .error "ADDR_TRANSLATION == ADDR_TRANS_NONE"
  else if p.Sampled addr then do
    let convAddr := p.convAddr addr
    let umonCache := s.umonCacheCore procId
    let lruPos ← umonCache.findPosInLruStack p.umonGeo procId convAddr
    match umonCache.access p.umonGeo simTime convAddr true with
    | (none, umonCache) =>
        let umonCache := p.insertUmon umonCache simTime procId convAddr ⟨addr, false⟩
        if lruPos ≠ -1 then .error "lru_pos == -1"
        else return { s with umonCacheCore := Function.update s.umonCacheCore procId umonCache }
    | (some way, umonCache) =>
        let umonData := (umonCache.entries (p.umonGeo.set convAddr) way).data
        if umonData.addr ≠ addr then .error "umon_data->addr == req->addr"
        else if ¬ (-1 < lruPos ∧ lruPos < p.l1Assoc) then .error "lru_pos > -1 && lru_pos < (int)L1_ASSOC"
        else
          let hits := s.umonCacheHitCountCore procId
          return {
            umonCacheCore := Function.update s.umonCacheCore procId
              (umonCache.setData (p.umonGeo.set convAddr) way { umonData with prefetch := false })
            umonCacheHitCountCore := Function.update s.umonCacheHitCountCore procId
              (Function.update hits lruPos (hits lruPos + 1)) }
  else return s

/-- The part of `l1_fill_line` for prefetches. -/
def fill (s : UmonState) (procId simTime : ℕ) (addr : Addr) : Except String UmonState :=
  if p.partitionUmonDssPrefEnable ∧ p.Sampled addr then
    let convAddr := p.convAddr addr
    if !p.addrTransNone then .error "ADDR_TRANSLATION == ADDR_TRANS_NONE"
    else
      match (s.umonCacheCore procId).access p.umonGeo simTime convAddr true with
      | (none, umonCache) =>
          let umonCache := p.insertUmon umonCache simTime procId convAddr ⟨addr, true⟩
          .ok { s with umonCacheCore := Function.update s.umonCacheCore procId umonCache }
      | (some way, umonCache) =>
          if (umonCache.entries (p.umonGeo.set convAddr) way).data.addr ≠ addr then
            .error "umon_data->addr == req->addr"
          else .ok { s with umonCacheCore := Function.update s.umonCacheCore procId umonCache }
  else .ok s

def step (s : UmonState) : UmonEvent → Except String UmonState
  | .access procId simTime addr => p.access s procId simTime addr
  | .fill procId simTime addr => p.fill s procId simTime addr

end UmonConfig

/-- After `init_cache`, which sets `valid` in memory that holds anything. -/
def UmonState.init (memory : ℕ → Addr → ℕ → CacheEntry UmonCacheData) : UmonState where
  umonCacheCore procId := ⟨fun set way => { memory procId set way with valid := false }, fun _ => 0, fun _ => 0⟩
  umonCacheHitCountCore _ _ := 0

def UmonEvent.addr : UmonEvent → Addr
  | .access _ _ addr => addr
  | .fill _ _ addr => addr

namespace UmonConfig

variable {p : UmonConfig}

/-! ## What is asked of the conversion -/

/-- A configuration with which the monitors can be set up. -/
structure Admitted (p : UmonConfig) : Prop where
  /-- It is an `uns`. -/
  l1Size_lt : p.l1Size < 2 ^ 32
  l1LineSize_eq : p.l1LineSize = 2 ^ p.shiftBits
  l1NumSets_eq : p.l1NumSets = 2 ^ p.setBits
  umonNumSets_pos : 0 < p.umonNumSets
  replPartition_eq : p.replPartition = true
  addrTransNone_eq : p.addrTransNone = true

/-- The address of a line of the L1, as the requests have it. -/
def IsLine (p : UmonConfig) (addr : Addr) : Prop := addr.toNat % p.l1LineSize = 0

/-- Lines of sampled sets have converted addresses of their own. -/
def Injective (p : UmonConfig) : Prop :=
  ∀ a b, p.IsLine a → p.IsLine b → p.Sampled a → p.Sampled b → p.convAddr a = p.convAddr b → a = b

/-- The lines are kept apart, and no assertion fails in any run: a hit is a hit on the line. -/
structure Separates (p : UmonConfig) : Prop where
  injective : p.Injective
  runs : ∀ memory events, (∀ e ∈ events, p.IsLine (UmonEvent.addr e)) →
    ∃ s, Execution.run p.step (.init memory) events = .ok s

/-! ## Addresses as numbers -/

theorem Admitted.bits_lt (h : p.Admitted) : p.shiftBits + p.setBits < 32 := by
  have hsize : p.l1NumSets * p.l1LineSize ≤ p.l1Size := by
    have hcache : (if p.privateL1 then p.l1Size / p.numCores else p.l1Size) ≤ p.l1Size := by
      split
      · exact Nat.div_le_self _ _
      · exact Nat.le_refl _
    rw [l1NumSets]
    calc _ ≤ (if p.privateL1 then p.l1Size / p.numCores else p.l1Size) / p.l1LineSize * p.l1LineSize :=
          Nat.mul_le_mul_right _ (Nat.div_le_self _ _)
      _ ≤ (if p.privateL1 then p.l1Size / p.numCores else p.l1Size) := Nat.div_mul_le_self _ _
      _ ≤ p.l1Size := hcache
  rw [h.l1LineSize_eq, h.l1NumSets_eq, ← Nat.pow_add] at hsize
  have hlt := Nat.lt_of_le_of_lt hsize h.l1Size_lt
  have := (Nat.pow_lt_pow_iff_right (by decide : 1 < 2)).mp hlt
  omega

theorem set_eq (h : p.Admitted) (addr : Addr) : p.set addr = addr.toNat / 2 ^ p.shiftBits % 2 ^ p.setBits := by
  have hbits := h.bits_lt
  have hlt : addr.toNat / 2 ^ p.shiftBits % 2 ^ p.setBits < 2 ^ 32 :=
    Nat.lt_of_lt_of_le (Nat.mod_lt _ (Nat.two_pow_pos _)) (Nat.pow_le_pow_right (by decide) (by omega))
  rw [set, BitVec.toNat_setWidth, Bits.one_shiftLeft_sub_one, Bits.toNat_and_low _ _ (by omega),
    BitVec.toNat_ushiftRight, Nat.shiftRight_eq_div_pow, Nat.mod_eq_of_lt hlt]

/-- The tag of the L1. -/
def tagOf (p : UmonConfig) (addr : Addr) : ℕ := addr.toNat / 2 ^ (p.shiftBits + p.setBits)

/-- A line is its tag and its set. -/
theorem eq_of_tag_set (h : p.Admitted) {a b : Addr} (ha : p.IsLine a) (hb : p.IsLine b) (htag : p.tagOf a = p.tagOf b)
    (hset : p.set a = p.set b) : a = b := by
  rw [IsLine, h.l1LineSize_eq] at ha hb
  rw [set_eq h, set_eq h] at hset
  rw [tagOf, tagOf, Nat.pow_add, ← Nat.div_div_eq_div_mul, ← Nat.div_div_eq_div_mul] at htag
  have hline : a.toNat / 2 ^ p.shiftBits = b.toNat / 2 ^ p.shiftBits := by
    rw [← Nat.div_add_mod (a.toNat / 2 ^ p.shiftBits) (2 ^ p.setBits), htag, hset, Nat.div_add_mod]
  refine BitVec.eq_of_toNat_eq ?_
  rw [← Nat.div_add_mod a.toNat (2 ^ p.shiftBits), hline, ha, ← hb, Nat.div_add_mod]

theorem convAddr_eq (h : p.Admitted) (addr : Addr) :
    (p.convAddr addr).toNat = p.tagOf addr * 2 ^ 5 % 2 ^ 64 ||| p.set addr / 33 := by
  have hset : p.set addr < 2 ^ 64 := by
    rw [set_eq h]
    have hbits := h.bits_lt
    exact Nat.lt_of_lt_of_le (Nat.mod_lt _ (Nat.two_pow_pos _)) (Nat.pow_le_pow_right (by decide) (by omega))
  rw [convAddr, BitVec.toNat_or, BitVec.toNat_shiftLeft, BitVec.toNat_ushiftRight, BitVec.toNat_ofNat,
    Nat.shiftRight_eq_div_pow, Nat.shiftLeft_eq, Nat.mod_eq_of_lt (by omega : p.set addr / 33 < 2 ^ 64), tagOf]

/-- Where the sampled sets fit their field, and the tag is short enough for the shift, nothing is lost. -/
theorem convAddr_toNat (h : p.Admitted) (hsets : p.l1NumSets ≤ 1024) (hwide : 32 ≤ p.l1LineSize * p.l1NumSets)
    (addr : Addr) : (p.convAddr addr).toNat = p.tagOf addr * 2 ^ 5 + p.set addr / 33 ∧ p.set addr / 33 < 2 ^ 5 := by
  have hset : p.set addr / 33 < 2 ^ 5 := by
    have hlt : p.set addr < 1024 := by
      rw [set_eq h]
      exact Nat.lt_of_lt_of_le (Nat.mod_lt _ (Nat.two_pow_pos _)) (h.l1NumSets_eq ▸ hsets)
    omega
  have htag : p.tagOf addr * 2 ^ 5 < 2 ^ 64 := by
    rw [h.l1LineSize_eq, h.l1NumSets_eq, ← Nat.pow_add] at hwide
    calc p.tagOf addr * 2 ^ 5 ≤ p.tagOf addr * 2 ^ (p.shiftBits + p.setBits) := Nat.mul_le_mul_left _ hwide
      _ ≤ addr.toNat := Nat.div_mul_le_self _ _
      _ < 2 ^ 64 := addr.isLt
  refine ⟨?_, hset⟩
  rw [convAddr_eq h, Nat.mod_eq_of_lt htag, Bits.mul_or_eq_add hset]

theorem convAddr_inj (h : p.Admitted) (hsets : p.l1NumSets ≤ 1024) (hwide : 32 ≤ p.l1LineSize * p.l1NumSets) {a b : Addr}
    (ha : p.IsLine a) (hb : p.IsLine b) (hsa : p.Sampled a) (hsb : p.Sampled b) (hconv : p.convAddr a = p.convAddr b) :
    a = b := by
  obtain ⟨hconva, hlta⟩ := convAddr_toNat h hsets hwide a
  obtain ⟨hconvb, hltb⟩ := convAddr_toNat h hsets hwide b
  rw [hconv, hconvb] at hconva
  rw [Sampled] at hsa hsb
  refine eq_of_tag_set h ha hb ?_ ?_ <;> omega

/-! ## Runs -/

/-- A valid entry of the monitor of a core: it belongs to the core, and is there under the converted address of the
line that it is for. -/
structure GoodEntry (p : UmonConfig) (procId : ℕ) (set : Addr) (entry : CacheEntry UmonCacheData) : Prop where
  procId : entry.procId = procId
  line : p.IsLine entry.data.addr
  sampled : p.Sampled entry.data.addr
  set : p.umonGeo.set (p.convAddr entry.data.addr) = set
  tag : p.umonGeo.tag (p.convAddr entry.data.addr) = entry.tag

def GoodCache (p : UmonConfig) (procId : ℕ) (c : Cache UmonCacheData) : Prop :=
  ∀ set way, (c.entries set way).valid = true → p.GoodEntry procId set (c.entries set way)

theorem GoodCache.setEntry {procId : ℕ} {c : Cache UmonCacheData} (h : p.GoodCache procId c) {set : Addr} {way : ℕ}
    {entry : CacheEntry UmonCacheData} (hentry : entry.valid = true → p.GoodEntry procId set entry) :
    p.GoodCache procId (c.setEntry set way entry) := by
  intro set' way'
  by_cases hsame : set' = set ∧ way' = way
  · obtain ⟨rfl, rfl⟩ := hsame
    rw [Cache.setEntry_self]
    exact hentry
  · rw [Cache.setEntry_other hsame]
    exact h set' way'

theorem GoodCache.access {procId : ℕ} {c : Cache UmonCacheData} (h : p.GoodCache procId c) (simTime : ℕ) (addr : Addr) :
    p.GoodCache procId (c.access p.umonGeo simTime addr true).2 := by
  rw [Cache.access]
  cases hlookup : c.lookup p.umonGeo addr with
  | none => exact h
  | some way =>
      have hpref : p.GoodCache procId (c.setEntry (p.umonGeo.set addr) way
          { c.entries (p.umonGeo.set addr) way with pref := false }) :=
        h.setEntry fun hvalid => ⟨(h _ _ hvalid).procId, (h _ _ hvalid).line, (h _ _ hvalid).sampled,
          (h _ _ hvalid).set, (h _ _ hvalid).tag⟩
      exact hpref.setEntry fun hvalid => ⟨(hpref _ _ hvalid).procId, (hpref _ _ hvalid).line, (hpref _ _ hvalid).sampled,
        (hpref _ _ hvalid).set, (hpref _ _ hvalid).tag⟩

/-- An insertion puts the entry of the line in one way and leaves the others. -/
theorem GoodCache.insertUmon {procId : ℕ} {c : Cache UmonCacheData} (h : p.GoodCache procId c) (simTime : ℕ)
    {addr : Addr} (hline : p.IsLine addr) (hsampled : p.Sampled addr) (prefetch : Bool) :
    p.GoodCache procId (p.insertUmon c simTime procId (p.convAddr addr) ⟨addr, prefetch⟩) := by
  intro set way
  by_cases hsame : set = p.umonGeo.set (p.convAddr addr) ∧
      way = c.findReplEntry p.umonGeo (p.umonGeo.set (p.convAddr addr))
  · obtain ⟨rfl, rfl⟩ := hsame
    have hentry : (p.insertUmon c simTime procId (p.convAddr addr) ⟨addr, prefetch⟩).entries (p.umonGeo.set (p.convAddr addr))
        (c.findReplEntry p.umonGeo (p.umonGeo.set (p.convAddr addr))) =
          ⟨procId, true, p.umonGeo.tag (p.convAddr addr), p.umonGeo.lineAddr (p.convAddr addr), simTime, false, ⟨addr, prefetch⟩⟩ := by
      simp [UmonConfig.insertUmon, Cache.setData, Cache.insert, Cache.insertReplpos, Cache.updateReplPolicy, umonGeo]
    rw [hentry]
    exact fun _ => ⟨rfl, hline, hsampled, rfl, rfl⟩
  · have hinserts : c.Inserts p.umonGeo (p.convAddr addr) (c.findReplEntry p.umonGeo (p.umonGeo.set (p.convAddr addr)))
        (c.insert p.umonGeo simTime procId (p.convAddr addr)).2 := Cache.insertReplpos_inserts
    have hother : (p.insertUmon c simTime procId (p.convAddr addr) ⟨addr, prefetch⟩).entries set way = c.entries set way :=
      hinserts.setData.others set way hsame
    rw [hother]
    exact h set way

/-- A way that the lookup finds has the tag of the address. -/
theorem holds_of_lookup {δ : Type} {geo : Geometry} {c : Cache δ} {addr : Addr} {way : ℕ}
    (h : c.lookup geo addr = some way) : way < geo.assoc ∧ c.Holds geo addr way := by
  have hfound := List.find?_some h
  rw [Bool.and_eq_true, beq_iff_eq] at hfound
  exact ⟨Geometry.mem_ways.mp (List.mem_of_find?_eq_some h), hfound⟩

/-- A hit is a hit on the line. -/
theorem GoodCache.hit_addr {procId : ℕ} {c : Cache UmonCacheData} (h : p.GoodCache procId c)
    (hinj : p.Injective)
    {addr : Addr} (hline : p.IsLine addr) (hsampled : p.Sampled addr) {way : ℕ}
    (hholds : c.Holds p.umonGeo (p.convAddr addr) way) :
    (c.entries (p.umonGeo.set (p.convAddr addr)) way).data.addr = addr := by
  have hgood := h _ _ hholds.1
  have htag := hgood.tag.trans hholds.2
  refine hinj _ _ hgood.line hline hgood.sampled hsampled ?_
  have hsame : p.convAddr (c.entries (p.umonGeo.set (p.convAddr addr)) way).data.addr >>> Nat.log2 1 =
      p.convAddr addr >>> Nat.log2 1 := Bits.and_and_not_inj hgood.set htag
  have hzero : Nat.log2 1 = 0 := rfl
  rw [hzero, BitVec.ushiftRight_zero, BitVec.ushiftRight_zero] at hsame
  exact hsame

/-- All monitors are good. -/
def Good (p : UmonConfig) (s : UmonState) : Prop := ∀ procId, p.GoodCache procId (s.umonCacheCore procId)

theorem Good.update {s : UmonState} (h : p.Good s) {procId : ℕ} {cache : Cache UmonCacheData}
    (hcache : p.GoodCache procId cache) (hits : ℕ → ℤ → ℕ) :
    p.Good ⟨Function.update s.umonCacheCore procId cache, hits⟩ := by
  intro procId'
  by_cases hsame : procId' = procId
  · subst hsame
    simpa only [Function.update_self] using hcache
  · simpa only [Function.update_of_ne hsame] using h procId'

theorem good_init (memory : ℕ → Addr → ℕ → CacheEntry UmonCacheData) : p.Good (.init memory) :=
  fun _ _ _ hvalid => absurd hvalid Bool.false_ne_true

/-- A hit in the monitor of a core finds a position, which is one of its ways. -/
theorem GoodCache.position {procId : ℕ} {c : Cache UmonCacheData} (h : p.GoodCache procId c) {addr : Addr} {way : ℕ}
    (hlookup : c.lookup p.umonGeo addr = some way) :
    ∃ position : ℕ, c.findPosInLruStack p.umonGeo procId addr = .ok (position : ℤ) ∧ position < p.l1Assoc := by
  obtain ⟨hway, hholds⟩ := holds_of_lookup hlookup
  refine ⟨_, Cache.findPosInLruStack_hit hlookup (h _ _ hholds.1).procId, ?_⟩
  have hlt : p.umonGeo.ways.countP (c.laterWay (p.umonGeo.set addr) procId way) < p.umonGeo.ways.length := by
    refine List.countP_lt_length_iff.mpr ⟨way, Geometry.mem_ways.mpr hway, ?_⟩
    simp [Cache.laterWay]
  rw [Geometry.ways, List.length_range] at hlt
  exact hlt

/-- What a look into a monitor finds: nothing at no position, or the line at a position. -/
inductive Finds (p : UmonConfig) (c : Cache UmonCacheData) (procId simTime : ℕ) (addr : Addr) : Prop where
  | miss (hposition : c.findPosInLruStack p.umonGeo procId (p.convAddr addr) = .ok (-1))
      (haccess : c.access p.umonGeo simTime (p.convAddr addr) true = (none, c))
  | hit (way position : ℕ) (d : Cache UmonCacheData) (hlt : position < p.l1Assoc)
      (hposition : c.findPosInLruStack p.umonGeo procId (p.convAddr addr) = .ok (position : ℤ))
      (haccess : c.access p.umonGeo simTime (p.convAddr addr) true = (some way, d)) (hgood : p.GoodCache procId d)
      (haddr : (d.entries (p.umonGeo.set (p.convAddr addr)) way).data.addr = addr)

theorem GoodCache.finds {procId : ℕ} {c : Cache UmonCacheData} (h : p.GoodCache procId c)
    (hinj : p.Injective)
    {addr : Addr} (hline : p.IsLine addr) (hsampled : p.Sampled addr) (simTime : ℕ) :
    p.Finds c procId simTime addr := by
  cases hlookup : c.lookup p.umonGeo (p.convAddr addr) with
  | none => exact .miss (by rw [Cache.findPosInLruStack, hlookup]) (by rw [Cache.access, hlookup])
  | some way =>
      obtain ⟨position, hposition, hlt⟩ := h.position hlookup
      have hgood := h.access simTime (p.convAddr addr)
      have hsame : (c.access p.umonGeo simTime (p.convAddr addr) true).2.SameLines c := Cache.access_sameLines
      have hholds := hsame.holds_iff.mpr (holds_of_lookup hlookup).2
      have haccess : c.access p.umonGeo simTime (p.convAddr addr) true =
          (some way, (c.access p.umonGeo simTime (p.convAddr addr) true).2) :=
        Prod.ext (Cache.access_fst.trans hlookup) rfl
      exact .hit way position _ hlt hposition haccess hgood (hgood.hit_addr hinj hline hsampled hholds)

/-- With addresses of their own for the lines, a step with the address of a line keeps the monitors good and fails no
assertion. -/
theorem Good.step {s : UmonState} (h : p.Good s) (hadm : p.Admitted)
    (hinj : p.Injective)
    {event : UmonEvent} (hline : p.IsLine event.addr) : ∃ t, p.step s event = .ok t ∧ p.Good t := by
  cases event with
  | access procId simTime addr =>
      have hline : p.IsLine addr := hline
      simp only [UmonConfig.step, UmonConfig.access, hadm.replPartition_eq, hadm.addrTransNone_eq, Bool.not_true,
        Bool.false_eq_true, if_false]
      by_cases hsampled : p.Sampled addr
      · rw [if_pos hsampled]
        cases (h procId).finds hinj hline hsampled simTime with
        | miss hposition haccess =>
            simp only [hposition, haccess, bind, Except.bind, ne_eq, not_true_eq_false, if_false]
            exact ⟨_, rfl, h.update ((h procId).insertUmon simTime hline hsampled false) _⟩
        | hit way position d hlt hposition haccess hgood haddr =>
            have hrange : -1 < (position : ℤ) ∧ (position : ℤ) < p.l1Assoc := by omega
            simp only [hposition, haccess, bind, Except.bind, haddr, ne_eq, not_true_eq_false, if_false, if_neg (not_not.mpr hrange)]
            refine ⟨_, rfl, h.update (hgood.setEntry fun hvalid => ?_) _⟩
            have htag := (hgood _ _ hvalid).tag
            rw [haddr] at htag
            exact ⟨(hgood _ _ hvalid).procId, hline, hsampled, rfl, htag⟩
      · rw [if_neg hsampled]
        exact ⟨s, rfl, h⟩
  | fill procId simTime addr =>
      have hline : p.IsLine addr := hline
      simp only [UmonConfig.step, UmonConfig.fill, hadm.addrTransNone_eq, Bool.not_true, Bool.false_eq_true, if_false]
      by_cases hfill : p.partitionUmonDssPrefEnable = true ∧ p.Sampled addr
      · rw [if_pos hfill]
        cases (h procId).finds hinj hline hfill.2 simTime with
        | miss hposition haccess =>
            simp only [haccess]
            exact ⟨_, rfl, h.update ((h procId).insertUmon simTime hline hfill.2 true) _⟩
        | hit way position d hlt hposition haccess hgood haddr =>
            simp only [haccess, haddr, ne_eq, not_true_eq_false, if_false]
            exact ⟨_, rfl, h.update hgood _⟩
      · rw [if_neg hfill]
        exact ⟨s, rfl, h⟩

theorem Good.run {s : UmonState} (h : p.Good s) (hadm : p.Admitted)
    (hinj : p.Injective)
    {events : List UmonEvent} (hlines : ∀ e ∈ events, p.IsLine (UmonEvent.addr e)) :
    ∃ t, Execution.run p.step s events = .ok t := by
  induction events generalizing s with
  | nil => exact ⟨s, rfl⟩
  | cons event events ih =>
      obtain ⟨hline, hlater⟩ := List.forall_mem_cons.mp hlines
      obtain ⟨m, hm, hgood⟩ := h.step hadm hinj hline
      obtain ⟨t, ht⟩ := ih hgood hlater
      exact ⟨t, Execution.run_cons_eq_ok.mpr ⟨m, hm, ht⟩⟩

/-! ## Where the conversion separates the lines -/

theorem toNat_ofNat_lt {n : ℕ} (hn : n < 2 ^ 64) : (BitVec.ofNat 64 n).toNat = n := by
  rw [BitVec.toNat_ofNat, Nat.mod_eq_of_lt hn]

/-- A set number above the field meets the tag above it. -/
theorem l1NumSets_le_of_injective (hadm : p.Admitted) (hinj : p.Injective) : p.l1NumSets ≤ 1024 := by
  refine Nat.le_of_not_lt fun hlarge => ?_
  have hbits := hadm.bits_lt
  rw [hadm.l1NumSets_eq] at hlarge
  have hset : 2048 ≤ 2 ^ p.setBits := by
    have hlt := (Nat.pow_lt_pow_iff_right (by decide : 1 < 2)).mp (show 2 ^ 10 < 2 ^ p.setBits from hlarge)
    have hle : 2 ^ 11 ≤ 2 ^ p.setBits := Nat.pow_le_pow_right (by decide) hlt
    exact hle
  have hpos := Nat.two_pow_pos p.shiftBits
  have hsum : 2 ^ (p.shiftBits + p.setBits) < 2 ^ 64 := Nat.pow_lt_pow_right (by decide) (by omega)
  have hfirst : 1056 * 2 ^ p.shiftBits < 2 ^ (p.shiftBits + p.setBits) := by
    rw [Nat.pow_add, Nat.mul_comm]
    exact (Nat.mul_lt_mul_left hpos).mpr (show 1056 < 2 ^ p.setBits by omega)
  -- set 1056 under the first tag, and the first set under the next one
  have ha := toNat_ofNat_lt (hfirst.trans hsum)
  have hb := toNat_ofNat_lt hsum
  have hseta : p.set (BitVec.ofNat 64 (1056 * 2 ^ p.shiftBits)) = 1056 := by
    rw [set_eq hadm, ha, Nat.mul_div_cancel _ hpos, Nat.mod_eq_of_lt (by omega)]
  have hsetb : p.set (BitVec.ofNat 64 (2 ^ (p.shiftBits + p.setBits))) = 0 := by
    rw [set_eq hadm, hb, Nat.pow_add, Nat.mul_div_cancel_left _ hpos, Nat.mod_self]
  have htaga : p.tagOf (BitVec.ofNat 64 (1056 * 2 ^ p.shiftBits)) = 0 := by
    rw [tagOf, ha, Nat.div_eq_of_lt hfirst]
  have htagb : p.tagOf (BitVec.ofNat 64 (2 ^ (p.shiftBits + p.setBits))) = 1 := by
    rw [tagOf, hb, Nat.div_self (Nat.two_pow_pos _)]
  have hlinea : p.IsLine (BitVec.ofNat 64 (1056 * 2 ^ p.shiftBits)) := by
    rw [IsLine, ha, hadm.l1LineSize_eq, Nat.mul_mod_left]
  have hlineb : p.IsLine (BitVec.ofNat 64 (2 ^ (p.shiftBits + p.setBits))) := by
    rw [IsLine, hb, hadm.l1LineSize_eq, Nat.pow_add, Nat.mul_mod_right]
  have hsame := hinj _ _ hlinea hlineb (by rw [Sampled, hseta]) (by rw [Sampled, hsetb]) (BitVec.eq_of_toNat_eq (by
    rw [convAddr_eq hadm, convAddr_eq hadm, hseta, hsetb, htaga, htagb]
    rfl))
  rw [hsame, htagb] at htaga
  exact Nat.one_ne_zero htaga

/-- A short tag field loses bits in the shift. -/
theorem wide_of_injective (hadm : p.Admitted) (hinj : p.Injective) : 32 ≤ p.l1LineSize * p.l1NumSets := by
  refine Nat.le_of_not_lt fun hsmall => ?_
  rw [hadm.l1LineSize_eq, hadm.l1NumSets_eq, ← Nat.pow_add] at hsmall
  have hbits := (Nat.pow_lt_pow_iff_right (by decide : 1 < 2)).mp (show 2 ^ (p.shiftBits + p.setBits) < 2 ^ 5 from hsmall)
  have htop := toNat_ofNat_lt (show 2 ^ 63 < 2 ^ 64 by decide)
  have hshift : 2 ^ 63 / 2 ^ p.shiftBits = 2 ^ (63 - p.shiftBits) := Nat.pow_div (by omega) (by decide)
  have hset : p.set (BitVec.ofNat 64 (2 ^ 63)) = 0 := by
    rw [set_eq hadm, htop, hshift]
    exact Nat.mod_eq_zero_of_dvd (Nat.pow_dvd_pow 2 (by omega))
  have hzero : (0 : Addr).toNat = 0 := rfl
  have hset0 : p.set 0 = 0 := by rw [set_eq hadm, hzero, Nat.zero_div, Nat.zero_mod]
  have htag : p.tagOf (BitVec.ofNat 64 (2 ^ 63)) * 2 ^ 5 % 2 ^ 64 = 0 := by
    rw [tagOf, htop, Nat.pow_div (by omega) (by decide), ← Nat.pow_add]
    exact Nat.mod_eq_zero_of_dvd (Nat.pow_dvd_pow 2 (by omega))
  have htag0 : p.tagOf 0 = 0 := by rw [tagOf, hzero, Nat.zero_div]
  have hline : p.IsLine (BitVec.ofNat 64 (2 ^ 63)) := by
    rw [IsLine, htop, hadm.l1LineSize_eq]
    exact Nat.mod_eq_zero_of_dvd (Nat.pow_dvd_pow 2 (by omega))
  have hline0 : p.IsLine 0 := by rw [IsLine, hzero, Nat.zero_mod]
  have hsame := hinj _ _ hline hline0 (by rw [Sampled, hset]) (by rw [Sampled, hset0]) (BitVec.eq_of_toNat_eq (by
    rw [convAddr_eq hadm, convAddr_eq hadm, hset, hset0, htag, htag0, Nat.zero_mul, Nat.zero_mod]))
  exact absurd hsame (by decide)

/-- Lines of sampled sets are kept apart exactly if the numbers of these sets fit the five bits, and the tags that lose
five bits had them to spare. -/
theorem separates_iff (hadm : p.Admitted) :
    p.Separates ↔ p.l1NumSets ≤ 1024 ∧ 32 ≤ p.l1LineSize * p.l1NumSets := by
  constructor
  · intro h
    exact ⟨l1NumSets_le_of_injective hadm h.injective, wide_of_injective hadm h.injective⟩
  · rintro ⟨hsets, hwide⟩
    have hinj : p.Injective := fun a b ha hb hsa hsb hconv => convAddr_inj hadm hsets hwide ha hb hsa hsb hconv
    exact ⟨hinj, fun memory events hlines => (good_init memory).run hadm hinj hlines⟩

/-- An L1 of 512 kB has 1024 sets. -/
theorem separates_iff_half_megabyte : (⟨2 ^ 19, 64, 8, 1, false, true, true, true⟩ : UmonConfig).Separates := by
  have hadm : (⟨2 ^ 19, 64, 8, 1, false, true, true, true⟩ : UmonConfig).Admitted :=
    ⟨by decide, by decide +kernel, by decide +kernel, by decide, rfl, rfl⟩
  exact (separates_iff hadm).mpr ⟨by decide, by decide⟩

/-- One of 4 MB has 8192, and the line of set 1056 under the first tag is taken for that of set 0 under the next. -/
theorem not_separates_four_megabytes :
    let p : UmonConfig := ⟨2 ^ 22, 64, 8, 1, false, true, true, true⟩
    let memory : ℕ → Addr → ℕ → CacheEntry UmonCacheData := fun _ _ _ => ⟨0, false, 0, 0, 0, false, ⟨0, false⟩⟩
    let events : List UmonEvent := [.access 0 1 (1056 * 64), .access 0 2 (8192 * 64)]
    p.Admitted ∧ (∀ e ∈ events, p.IsLine e.addr) ∧
      Execution.run p.step (.init memory) events = .error "umon_data->addr == req->addr" ∧ ¬ p.Separates := by
  intro p memory events
  have hadm : p.Admitted := ⟨by decide, by decide +kernel, by decide +kernel, by decide, rfl, rfl⟩
  have hlines : ∀ e ∈ events, p.IsLine e.addr := by
    intro e he
    simp only [events, List.mem_cons, List.not_mem_nil, or_false] at he
    rcases he with rfl | rfl
    · have hline : (1056 * 64 : Addr).toNat % 64 = 0 := by decide
      exact hline
    · have hline : (8192 * 64 : Addr).toNat % 64 = 0 := by decide
      exact hline
  have hmessage : (match Execution.run p.step (.init memory) events with
      | .error message => some message
      | .ok _ => none) = some "umon_data->addr == req->addr" := by
    decide +kernel
  have hrun : Execution.run p.step (.init memory) events = .error "umon_data->addr == req->addr" := by
    cases h : Execution.run p.step (.init memory) events with
    | error message =>
        rw [h] at hmessage
        rw [Option.some.inj hmessage]
    | ok s =>
        rw [h] at hmessage
        cases hmessage
  refine ⟨hadm, hlines, hrun, fun h => ?_⟩
  obtain ⟨s, hs⟩ := h.runs memory events hlines
  rw [hrun] at hs
  cases hs

end UmonConfig

end Scarab.Memory
