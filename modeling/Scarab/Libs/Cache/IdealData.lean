import Mathlib.Data.List.Basic
import Scarab.Lib.Execution
import Scarab.Libs.Cache.Ideal

/-! # The data of an ideal cache

The set of `Scarab.Libs.Cache.Ideal` with the data pointers of its lines and the blocks they
point to. A line of the unsure list gets a block of its own, and a hit in the list brings this
block back into a way. -/

namespace Scarab.Memory

open Execution

/-- A data pointer, which is `INIT_CACHE_DATA_VALUE` in a cache without data. -/
inductive DataPtr where
  | initCacheDataValue
  | block (b : ℕ)
  deriving DecidableEq, Repr

/-- The fields of `Cache_Entry` that the unsure list uses. -/
structure IdealEntry where
  valid : Bool
  tag : Addr
  data : DataPtr
  deriving DecidableEq, Repr

/-- An entry of the unsure list. -/
structure UnsureLine where
  entry : IdealEntry
  /-- The contents of the line when it was moved, for the law. -/
  moved : List UInt8
  /-- What `malloc` left in its block, for the law. -/
  malloced : List UInt8

/-- A hit in the unsure list: what the block holds that it returns. -/
structure UnsureHit where
  tag : Addr
  got : List UInt8
  moved : List UInt8
  malloced : List UInt8
  deriving DecidableEq, Repr

/-- The line has the contents it had when it was moved. -/
def UnsureHit.Intact (n : ℕ) (hit : UnsureHit) : Prop := hit.got = hit.moved ∧ hit.got.length = n

instance (n : ℕ) (hit : UnsureHit) : Decidable (hit.Intact n) := inferInstanceAs (Decidable (_ ∧ _))

/-- A set of `k` ways, and the memory that its lines use. -/
structure IdealData where
  entries : ℕ → IdealEntry
  unsure : List UnsureLine
  sureCount : ℕ
  memory : ℕ → List UInt8
  /-- The blocks below were given out. -/
  allocated : ℕ
  hits : List UnsureHit

/-- `sizeof(cache->data_size)`, the size of an `uns`. -/
def sizeofDataSize : ℕ := 4

namespace IdealData

/-- `init_cache` for lines with `n` bytes of data. -/
def init (k n : ℕ) : IdealData where
  entries := fun way => ⟨false, 0, if n = 0 then .initCacheDataValue else .block way⟩
  unsure := []
  sureCount := 0
  memory := fun _ => List.replicate n 0
  allocated := k
  hits := []

/-- The bytes of a line. -/
def contents (n : ℕ) (x : IdealData) : DataPtr → List UInt8
  | .initCacheDataValue => []
  | .block b => (x.memory b).take n

/-- What `malloc` leaves in a block. -/
def junkBytes (size : ℕ) (junk : ℕ → UInt8) : List UInt8 := (List.range size).map junk

/-- `malloc`. -/
def malloc (x : IdealData) (size : ℕ) (junk : ℕ → UInt8) : ℕ × IdealData :=
  (x.allocated, { x with
    memory := Function.update x.memory x.allocated (junkBytes size junk)
    allocated := x.allocated + 1 })

/-- A store at the beginning of a block, which must be large enough. -/
def store (x : IdealData) (dst : DataPtr) (bytes : List UInt8) : Except String IdealData :=
  match dst with
  | .initCacheDataValue => .error "out of bounds"
  | .block d =>
      if bytes.length ≤ (x.memory d).length then
        .ok { x with memory := Function.update x.memory d (bytes ++ (x.memory d).drop bytes.length) }
      else .error "out of bounds"

/-- `memcpy(dst, src, size)`. -/
def memcpy (x : IdealData) (dst src : DataPtr) (size : ℕ) : Except String IdealData :=
  if (x.contents size src).length = size then x.store dst (x.contents size src) else .error "out of bounds"

/-- The first valid way with a tag. -/
def findWay (k : ℕ) (x : IdealData) (tag : Addr) : Option ℕ :=
  (List.range k).find? fun way => (x.entries way).valid && (x.entries way).tag == tag

/-- The first invalid way. -/
def freeWay (k : ℕ) (x : IdealData) : Option ℕ := (List.range k).find? fun way => !(x.entries way).valid

/-- What `insert_sure_line` does with one way when there is no room. -/
def spillWay (n : ℕ) (junk : ℕ → ℕ → UInt8) (x : IdealData) (way : ℕ) : Except String IdealData :=
  let entry := x.entries way
  if entry.valid = true then do
    let (block, y) := x.malloc sizeofDataSize (junk way)
    let temp : IdealEntry := { entry with data := .block block }
    let y ← y.memcpy entry.data temp.data sizeofDataSize
    return { y with
      unsure := y.unsure ++ [⟨temp, x.contents n entry.data, junkBytes sizeofDataSize (junk way)⟩]
      entries := Function.update y.entries way { entry with valid := false } }
  else .ok x

/-- There is a list of unsure lines, or all ways are sure. -/
def Spills (k : ℕ) (x : IdealData) : Prop := x.unsure ≠ [] ∨ x.sureCount = k

instance (k : ℕ) (x : IdealData) : Decidable (x.Spills k) :=
  inferInstanceAs (Decidable (¬ x.unsure = [] ∨ _))

/-- `insert_sure_line`. -/
def insertSureLine (k n : ℕ) (junk : ℕ → ℕ → UInt8) (x : IdealData) : Except String (IdealData × ℕ) :=
  if x.Spills k then do
    let count := ((List.range k).filter fun way => (x.entries way).valid).length
    let y ← (List.range k).foldlM (spillWay n junk) x
    if count = y.sureCount then return ({ y with sureCount := 1 }, 0)
    else .error "count == cache->repl_ctrs[set]"
  else
    match x.freeWay k with
    | none => .error "FALSE"
    | some way =>
        if x.sureCount + 1 ≤ k then .ok ({ x with sureCount := x.sureCount + 1 }, way)
        else .error "++cache->repl_ctrs[set] <= cache->assoc"

/-- `cache_insert`. -/
def insert (k n : ℕ) (junk : ℕ → ℕ → UInt8) (x : IdealData) (tag : Addr) : Except String IdealData := do
  let (y, way) ← x.insertSureLine k n junk
  return { y with entries := Function.update y.entries way { y.entries way with valid := true, tag } }

/-- `access_unsure_lines`. The block that the way had goes to the entry that leaves the list, and is lost with it. -/
def accessUnsureLines (k n : ℕ) (x : IdealData) (tag : Addr) : Except String (IdealData × Option DataPtr) :=
  match x.unsure.find? fun temp => temp.entry.tag == tag with
  | none => .ok (x, none)
  | some temp =>
      match x.freeWay k with
      | none => .error "FALSE"
      | some way =>
          if x.sureCount + 1 ≤ k then
            .ok ({ x with
              entries := Function.update x.entries way temp.entry
              unsure := if x.sureCount + 1 = k then [] else x.unsure.eraseP fun temp => temp.entry.tag == tag
              sureCount := x.sureCount + 1
              hits := x.hits ++ [⟨tag, x.contents n temp.entry.data, temp.moved, temp.malloced⟩] },
              temp.entry.data)
          else .error "++cache->repl_ctrs[set] <= cache->assoc"

/-- `cache_access`: the data of the line. -/
def access (k n : ℕ) (x : IdealData) (tag : Addr) : Except String (IdealData × Option DataPtr) :=
  match x.findWay k tag with
  | some way => .ok (x, (x.entries way).data)
  | none => x.accessUnsureLines k n tag

/-- `cache_invalidate`. -/
def invalidate (k : ℕ) (x : IdealData) (tag : Addr) : IdealData :=
  { x with
    entries := fun way =>
      if way < k ∧ (x.entries way).tag = tag ∧ (x.entries way).valid = true then
        { x.entries way with tag := 0, valid := false }
      else x.entries way
    unsure := x.unsure.eraseP fun temp => temp.entry.tag == tag }

end IdealData

/-- What the users of the cache do; `malloc` may leave anything in a block. -/
inductive IdealEvent where
  | access (tag : Addr)
  | insert (tag : Addr) (junk : ℕ → ℕ → UInt8)
  /-- A store through the pointer that an access of a line in the ways returns. -/
  | write (tag : Addr) (bytes : List UInt8)
  | invalidate (tag : Addr)

namespace IdealData

def step (k n : ℕ) (x : IdealData) : IdealEvent → Except String IdealData
  | .access tag => Prod.fst <$> x.access k n tag
  | .insert tag junk => x.insert k n junk tag
  | .write tag bytes =>
      match x.findWay k tag with
      | none => .ok x
      | some way => x.store (x.entries way).data bytes
  | .invalidate tag => .ok (x.invalidate k tag)

/-- The block that `malloc` gives for the line of a way holds its contents already. -/
def Refilled (n : ℕ) (junk : ℕ → ℕ → UInt8) (x : IdealData) (way : ℕ) : Prop :=
  n ≤ sizeofDataSize ∧ (junkBytes sizeofDataSize (junk way)).take n = x.contents n (x.entries way).data

instance (n : ℕ) (junk : ℕ → ℕ → UInt8) (x : IdealData) (way : ℕ) : Decidable (x.Refilled n junk way) :=
  inferInstanceAs (Decidable (_ ∧ _))

/-- An insertion moves no line, or only such lines. -/
def RefillsMoved (k n : ℕ) (x : IdealData) : IdealEvent → Prop
  | .insert _ junk => x.Spills k → ∀ way < k, (x.entries way).valid = true → x.Refilled n junk way
  | _ => True

instance (k n : ℕ) (x : IdealData) : ∀ event, Decidable (x.RefillsMoved k n event)
  | .insert _ junk =>
      inferInstanceAs (Decidable (x.Spills k → ∀ way < k, (x.entries way).valid = true → x.Refilled n junk way))
  | .access _ => .isTrue trivial
  | .write _ _ => .isTrue trivial
  | .invalidate _ => .isTrue trivial

variable {k n : ℕ} {junk : ℕ → ℕ → UInt8} {x y : IdealData} {tag : Addr} {way : ℕ}

/-! ## Blocks -/

theorem length_junkBytes (size : ℕ) (junk : ℕ → UInt8) : (junkBytes size junk).length = size := by
  rw [junkBytes, List.length_map, List.length_range]

/-- A store changes one block. -/
theorem store_spec {dst : DataPtr} {bytes : List UInt8} (h : x.store dst bytes = .ok y) :
    ∃ d block, dst = .block d ∧ y = { x with memory := Function.update x.memory d block } := by
  cases dst with
  | initCacheDataValue => cases h
  | block d =>
      obtain ⟨_, h⟩ := ite_error_eq_ok.mp h
      cases h
      exact ⟨d, _, rfl, rfl⟩

/-- What moving the line of a valid way does. -/
structure Moved (n : ℕ) (junk : ℕ → ℕ → UInt8) (way : ℕ) (x y : IdealData) : Prop where
  block : ∃ d, (x.entries way).data = .block d
  memory : ∀ b < x.allocated, (x.entries way).data ≠ .block b → y.memory b = x.memory b
  fresh : (∀ d, (x.entries way).data = .block d → d < x.allocated) →
    y.memory x.allocated = junkBytes sizeofDataSize (junk way)
  allocated : y.allocated = x.allocated + 1
  entries : y.entries = Function.update x.entries way { x.entries way with valid := false }
  unsure : y.unsure = x.unsure ++ [⟨{ x.entries way with data := .block x.allocated },
    x.contents n (x.entries way).data, junkBytes sizeofDataSize (junk way)⟩]
  sureCount : y.sureCount = x.sureCount
  hits : y.hits = x.hits

theorem spillWay_spec (hvalid : (x.entries way).valid = true) (h : x.spillWay n junk way = .ok y) :
    Moved n junk way x y := by
  unfold spillWay at h
  rw [if_pos hvalid] at h
  obtain ⟨z, hcopy, h⟩ := bind_eq_ok.mp h
  obtain ⟨_, hcopy⟩ := ite_error_eq_ok.mp hcopy
  obtain ⟨d, block, hdst, rfl⟩ := store_spec hcopy
  cases h
  refine ⟨⟨d, hdst⟩, fun b hb hne => ?_, fun hlt => ?_, rfl, rfl, rfl, rfl, rfl⟩
  · have hbd : b ≠ d := fun heq => hne (heq ▸ hdst)
    dsimp only [malloc]
    rw [Function.update_of_ne hbd, Function.update_of_ne (Nat.ne_of_lt hb)]
  · dsimp only [malloc]
    rw [Function.update_of_ne (Nat.ne_of_gt (hlt d hdst)), Function.update_self]

/-! ## The set without its data -/

/-- The tags of the set. -/
def toIdealSet (x : IdealData) : IdealSet where
  entries := fun way => if (x.entries way).valid = true then some (x.entries way).tag else none
  unsure := x.unsure.map fun temp => temp.entry.tag
  sureCount := x.sureCount

theorem findWay_toIdealSet (k : ℕ) (x : IdealData) (tag : Addr) : x.toIdealSet.findWay k tag = x.findWay k tag := by
  refine congrArg (fun q => (List.range k).find? q) (funext fun way => ?_)
  cases hvalid : (x.entries way).valid with
  | true => simp [toIdealSet, hvalid]
  | false => simp [toIdealSet, hvalid]

theorem freeWay_toIdealSet (k : ℕ) (x : IdealData) : x.toIdealSet.freeWay k = x.freeWay k := by
  refine congrArg (fun q => (List.range k).find? q) (funext fun way => ?_)
  cases hvalid : (x.entries way).valid with
  | true => simp [toIdealSet, hvalid]
  | false => simp [toIdealSet, hvalid]

/-- A valid entry in a way. -/
theorem toIdealSet_update (x : IdealData) (way : ℕ) {e : IdealEntry} (hvalid : e.valid = true) :
    ({ x with entries := Function.update x.entries way e } : IdealData).toIdealSet.entries =
      (x.toIdealSet.setWay way e.tag).entries := by
  funext w
  by_cases hw : w = way
  · subst hw
    simp [toIdealSet, IdealSet.setWay, hvalid]
  · simp [toIdealSet, IdealSet.setWay, Function.update_of_ne hw]

/-- `ASSERT(0, temp->valid)` in the loops over the list. -/
def LinesValid (x : IdealData) : Prop := ∀ temp ∈ x.unsure, temp.entry.valid = true

/-- What moving one line does to the tags. -/
theorem Moved.toIdealSet (hm : Moved n junk way x y) (hvalid : (x.entries way).valid = true) (hlines : x.LinesValid) :
    y.LinesValid ∧ y.toIdealSet.unsure = x.toIdealSet.unsure ++ [(x.entries way).tag] ∧
      y.toIdealSet.entries = Function.update x.toIdealSet.entries way none := by
  refine ⟨fun temp htemp => ?_, ?_, funext fun w => ?_⟩
  · rw [hm.unsure, List.mem_append, List.mem_singleton] at htemp
    rcases htemp with htemp | rfl
    · exact hlines temp htemp
    · exact hvalid
  · show y.unsure.map _ = _
    rw [hm.unsure, List.map_append]
    rfl
  · show (if (y.entries w).valid = true then some (y.entries w).tag else none) = _
    rw [hm.entries]
    by_cases hw : w = way
    · rw [hw, Function.update_self, Function.update_self, if_neg Bool.false_ne_true]
    · rw [Function.update_of_ne hw, Function.update_of_ne hw]
      rfl

/-- What moving the lines of some ways does to the tags. -/
theorem spillWays_toIdealSet {ways : List ℕ} (hnodup : ways.Nodup) (hlines : x.LinesValid)
    (hs : ways.foldlM (spillWay n junk) x = .ok y) :
    y.LinesValid ∧ y.sureCount = x.sureCount ∧
      y.toIdealSet.unsure = x.toIdealSet.unsure ++ ways.filterMap x.toIdealSet.entries ∧
      y.toIdealSet.entries = fun way => if way ∈ ways then none else x.toIdealSet.entries way := by
  induction ways generalizing x with
  | nil =>
      cases hs
      exact ⟨hlines, rfl, (List.append_nil _).symm, funext fun way => (if_neg (List.not_mem_nil)).symm⟩
  | cons way ways ih =>
      obtain ⟨hfirst, hnodup⟩ := List.nodup_cons.mp hnodup
      rw [List.foldlM_cons] at hs
      obtain ⟨z, hz, hlater⟩ := bind_eq_ok.mp hs
      by_cases hvalid : (x.entries way).valid = true
      · have hm := spillWay_spec hvalid hz
        have hentry : x.toIdealSet.entries way = some (x.entries way).tag := if_pos hvalid
        obtain ⟨hzlines, hzunsure, hzentries⟩ := hm.toIdealSet hvalid hlines
        obtain ⟨hylines, hcount, hunsure, hentries⟩ := ih hnodup hzlines hlater
        have hrest : ways.filterMap z.toIdealSet.entries = ways.filterMap x.toIdealSet.entries := by
          refine List.filterMap_congr fun w hw => ?_
          have hne : w ≠ way := fun heq => hfirst (heq ▸ hw)
          rw [hzentries, Function.update_of_ne hne]
        refine ⟨hylines, hcount.trans hm.sureCount, ?_, ?_⟩
        · rw [hunsure, hzunsure, hrest, List.filterMap_cons_some hentry, List.append_assoc]
          rfl
        · rw [hentries, hzentries]
          funext w
          by_cases hw : w = way
          · rw [hw, Function.update_self, if_neg hfirst, if_pos (List.mem_cons_self ..)]
          · rw [Function.update_of_ne hw]
            simp only [List.mem_cons, hw, false_or]
      · have hsame : z = x := by
          unfold spillWay at hz
          rw [if_neg hvalid] at hz
          exact (Except.ok.inj hz).symm
        subst hsame
        have hentry : z.toIdealSet.entries way = none := if_neg hvalid
        obtain ⟨hylines, hcount, hunsure, hentries⟩ := ih hnodup hlines hlater
        refine ⟨hylines, hcount, ?_, ?_⟩
        · rw [hunsure, List.filterMap_cons_none hentry]
        · rw [hentries]
          funext w
          by_cases hw : w = way
          · rw [hw, if_neg hfirst, if_pos (List.mem_cons_self ..), hentry]
          · simp only [List.mem_cons, hw, false_or]

/-- What `access_unsure_lines` does when it returns the line `temp` in `way`. -/
def returned (k n : ℕ) (x : IdealData) (tag : Addr) (temp : UnsureLine) (way : ℕ) : IdealData :=
  { x with
    entries := Function.update x.entries way temp.entry
    unsure := if x.sureCount + 1 = k then [] else x.unsure.eraseP fun temp => temp.entry.tag == tag
    sureCount := x.sureCount + 1
    hits := x.hits ++ [⟨tag, x.contents n temp.entry.data, temp.moved, temp.malloced⟩] }

theorem accessUnsureLines_cases {got : Option DataPtr} (h : x.accessUnsureLines k n tag = .ok (y, got)) :
    (x.unsure.find? (fun temp => temp.entry.tag == tag) = none ∧ y = x ∧ got = none) ∨
      ∃ temp way, x.unsure.find? (fun temp => temp.entry.tag == tag) = some temp ∧ x.freeWay k = some way ∧
        x.sureCount + 1 ≤ k ∧ y = x.returned k n tag temp way ∧ got = some temp.entry.data := by
  unfold IdealData.accessUnsureLines at h
  cases hfind : x.unsure.find? fun temp => temp.entry.tag == tag with
  | none =>
      rw [hfind] at h
      cases h
      exact .inl ⟨rfl, rfl, rfl⟩
  | some temp =>
      cases hfree : x.freeWay k with
      | none =>
          rw [hfind, hfree] at h
          cases h
      | some way =>
          rw [hfind, hfree] at h
          obtain ⟨hle, h⟩ := ite_error_eq_ok.mp h
          cases h
          exact .inr ⟨temp, way, rfl, rfl, hle, rfl, rfl⟩

/-- The tags after a line has come back. -/
theorem toIdealSet_returned {temp : UnsureLine} (hvalid : temp.entry.valid = true) (htag : temp.entry.tag = tag) :
    (x.returned k n tag temp way).toIdealSet = ⟨(x.toIdealSet.setWay way tag).entries,
      if x.toIdealSet.sureCount + 1 = k then [] else x.toIdealSet.unsure.erase tag, x.toIdealSet.sureCount + 1⟩ := by
  have hentries := toIdealSet_update x way hvalid
  rw [htag] at hentries
  have hunsure : (if x.sureCount + 1 = k then [] else x.unsure.eraseP fun temp => temp.entry.tag == tag).map
      (fun temp => temp.entry.tag) = if x.sureCount + 1 = k then [] else x.toIdealSet.unsure.erase tag := by
    split
    · rfl
    · show _ = (x.unsure.map _).erase tag
      rw [List.erase_eq_eraseP', List.eraseP_map]
      rfl
  exact congrArg₂ (fun entries unsure => IdealSet.mk entries unsure (x.sureCount + 1)) hentries hunsure

/-- An access, without the data. -/
theorem access_toIdealSet {got : Option DataPtr} (hlines : x.LinesValid) (h : x.access k n tag = .ok (y, got)) :
    y.LinesValid ∧ x.toIdealSet.access k tag = .ok (y.toIdealSet, got.isSome) := by
  unfold IdealData.access at h
  unfold IdealSet.access
  rw [findWay_toIdealSet]
  cases hway : x.findWay k tag with
  | some way =>
      rw [hway] at h
      cases h
      exact ⟨hlines, rfl⟩
  | none =>
      rw [hway] at h
      dsimp only
      unfold IdealSet.accessUnsureLines
      rw [freeWay_toIdealSet]
      rcases accessUnsureLines_cases h with ⟨hfind, rfl, rfl⟩ | ⟨temp, way, hfind, hfree, hle, rfl, rfl⟩
      · have hnot : tag ∉ y.toIdealSet.unsure := fun hmem => by
          obtain ⟨temp, htemp, rfl⟩ := List.mem_map.mp hmem
          exact List.find?_eq_none.mp hfind temp htemp (beq_self_eq_true _)
        rw [if_neg hnot]
        exact ⟨hlines, rfl⟩
      · have htemp : temp ∈ x.unsure := List.mem_of_find?_eq_some hfind
        have htag : temp.entry.tag = tag := by simpa using List.find?_some hfind
        have hmem : tag ∈ x.toIdealSet.unsure := List.mem_map.mpr ⟨temp, htemp, htag⟩
        have hguard : x.toIdealSet.sureCount + 1 ≤ k := hle
        rw [if_pos hmem, hfree]
        dsimp only
        rw [if_pos hguard, toIdealSet_returned (hlines temp htemp) htag]
        refine ⟨fun u hu => ?_, rfl⟩
        dsimp only [returned] at hu
        split at hu
        · cases hu
        · exact hlines u (List.mem_of_mem_eraseP hu)

/-- An insertion, without the data. -/
theorem insert_toIdealSet (hlines : x.LinesValid) (h : x.insert k n junk tag = .ok y) :
    y.LinesValid ∧ x.toIdealSet.insert k tag = .ok y.toIdealSet := by
  obtain ⟨⟨z, way⟩, hz, h⟩ := bind_eq_ok.mp h
  cases h
  have hspills : (x.toIdealSet.unsure ≠ [] ∨ x.toIdealSet.sureCount = k) ↔ x.Spills k := by
    simp [toIdealSet, Spills]
  have hupdate : ∀ z : IdealData, ({ z with entries := Function.update z.entries way { z.entries way with valid := true, tag } } :
      IdealData).toIdealSet = z.toIdealSet.setWay way tag := fun z =>
    congrArg (fun entries => IdealSet.mk entries z.toIdealSet.unsure z.sureCount)
      (toIdealSet_update z way (e := { z.entries way with valid := true, tag }) rfl)
  unfold IdealSet.insert IdealSet.insertSureLine
  unfold IdealData.insertSureLine at hz
  rw [hupdate]
  by_cases hfull : x.Spills k
  · rw [if_pos hfull] at hz
    rw [if_pos (hspills.mpr hfull)]
    obtain ⟨u, hu, hz⟩ := bind_eq_ok.mp hz
    obtain ⟨hcount, hz⟩ := ite_error_eq_ok.mp hz
    cases hz
    obtain ⟨hulines, husure, hunsure, hentries⟩ := spillWays_toIdealSet List.nodup_range hlines hu
    have hlength : (x.toIdealSet.sure k).length = x.toIdealSet.sureCount := by
      have hvalid : (fun way => (x.toIdealSet.entries way).isSome) = fun way => (x.entries way).valid := by
        funext way
        cases hvalid : (x.entries way).valid with
        | true => simp [toIdealSet, hvalid]
        | false => simp [toIdealSet, hvalid]
      rw [IdealSet.sure, List.length_filterMap_eq_countP, hvalid, List.countP_eq_length_filter]
      exact hcount.trans husure
    rw [if_pos hlength]
    refine ⟨hulines, congrArg Except.ok ?_⟩
    show (x.toIdealSet.spill k).setWay 0 tag = _
    have hspilled : x.toIdealSet.spill k = ({ u with sureCount := 1 } : IdealData).toIdealSet := by
      show IdealSet.mk _ _ _ = IdealSet.mk u.toIdealSet.entries u.toIdealSet.unsure 1
      rw [hentries, hunsure]
      simp only [List.mem_range]
      rfl
    rw [hspilled]
  · rw [if_neg hfull] at hz
    rw [if_neg (hspills.not.mpr hfull), freeWay_toIdealSet]
    cases hfree : x.freeWay k with
    | none =>
        rw [hfree] at hz
        cases hz
    | some free =>
        rw [hfree] at hz
        obtain ⟨hle, hz⟩ := ite_error_eq_ok.mp hz
        cases hz
        have hguard : x.toIdealSet.sureCount + 1 ≤ k := hle
        dsimp only
        rw [if_pos hguard]
        exact ⟨hlines, rfl⟩

theorem LinesValid.step {event : IdealEvent} (hlines : x.LinesValid) (hs : x.step k n event = .ok y) : y.LinesValid := by
  cases event with
  | access tag =>
      obtain ⟨⟨z, got⟩, hz, heq⟩ := map_eq_ok.mp hs
      cases heq
      exact (access_toIdealSet hlines hz).1
  | insert tag junk => exact (insert_toIdealSet hlines hs).1
  | write tag bytes =>
      unfold IdealData.step at hs
      cases hfind : x.findWay k tag with
      | none =>
          simp only [hfind] at hs
          cases hs
          exact hlines
      | some way =>
          simp only [hfind] at hs
          obtain ⟨d, block, _, rfl⟩ := store_spec hs
          exact hlines
  | invalidate tag =>
      cases hs
      exact fun temp htemp => hlines temp (List.mem_of_mem_eraseP htemp)

/-- In every run an access and an insertion do to the tags what they do to the set without data. -/
theorem run_toIdealSet {events : List IdealEvent} (hrun : run (IdealData.step k n) (init k n) events = .ok x) :
    (∀ y got, x.access k n tag = .ok (y, got) → x.toIdealSet.access k tag = .ok (y.toIdealSet, got.isSome)) ∧
      ∀ y, x.insert k n junk tag = .ok y → x.toIdealSet.insert k tag = .ok y.toIdealSet := by
  have hlines : x.LinesValid :=
    run_invariant (fun _ _ _ hlines hs => hlines.step hs) (fun temp htemp => by cases htemp) hrun
  exact ⟨fun y got hy => (access_toIdealSet hlines hy).2, fun y hy => (insert_toIdealSet hlines hy).2⟩

/-- The line that is hit was moved to the list. -/
theorem run_toIdealSet_moved : ∃ (x y : IdealData) (got : Option DataPtr), got.isSome = true ∧
    x.toIdealSet.access 2 0x10 = .ok (y.toIdealSet, true) := by
  have hrun : (fun out : IdealData × Option DataPtr => out.2.isSome) <$> (run (step 2 4) (init 2 4)
      [.insert 0x10 fun _ _ => 0, .insert 0x20 fun _ _ => 0, .insert 0x30 fun _ _ => 0] >>= fun x =>
        x.access 2 4 0x10) = .ok true := by decide +kernel
  obtain ⟨⟨y, got⟩, hview, hgot⟩ := map_eq_ok.mp hrun
  obtain ⟨x, hx, hy⟩ := bind_eq_ok.mp hview
  have haccess := (@run_toIdealSet 2 4 (fun _ _ => 0) x 0x10 _ hx).1 y got hy
  exact ⟨x, y, got, hgot, by rw [haccess, hgot]⟩

/-! ## Who owns the blocks -/

/-- Every way and every unsure line has a block of its own, and that of an unsure line is as
`malloc` left it. -/
structure Owned (k n : ℕ) (x : IdealData) : Prop where
  ways : ∀ way < k, ∀ b, (x.entries way).data = .block b → b < x.allocated
  ways_apart : ∀ way < k, ∀ way' < k, ∀ b, (x.entries way).data = .block b → (x.entries way').data = .block b →
    way = way'
  lines : ∀ u ∈ x.unsure, ∃ b, u.entry.data = .block b ∧ b < x.allocated ∧ x.memory b = u.malloced ∧
    ∀ way < k, (x.entries way).data ≠ .block b
  lines_apart : x.unsure.Pairwise fun u v => u.entry.data ≠ v.entry.data
  length : ∀ u ∈ x.unsure, u.malloced.length = sizeofDataSize
  hits : ∀ hit ∈ x.hits, hit.got = hit.malloced.take n ∧ hit.malloced.length = sizeofDataSize

/-- The blocks of the unsure lines were refilled by chance. -/
structure Intact (n : ℕ) (x : IdealData) : Prop where
  lines : ∀ u ∈ x.unsure, n ≤ sizeofDataSize ∧ u.malloced.take n = u.moved
  hits : ∀ hit ∈ x.hits, n ≤ sizeofDataSize ∧ hit.malloced.take n = hit.moved

theorem owned_init : (init k n).Owned k n where
  ways := fun way hway b hb => by
    by_cases hn : n = 0
    · simp [init, hn] at hb
    · simp [init, hn] at hb
      exact hb ▸ hway
  ways_apart := fun way _ way' _ b hb hb' => by
    by_cases hn : n = 0
    · simp [init, hn] at hb
    · simp [init, hn] at hb hb'
      rw [hb, hb']
  lines := fun u hu => by cases hu
  lines_apart := List.Pairwise.nil
  length := fun u hu => by cases hu
  hits := fun hit hhit => by cases hhit

theorem intact_init : (init k n).Intact n where
  lines := fun u hu => by cases hu
  hits := fun hit hhit => by cases hhit

/-- A hit returns what `malloc` left. -/
theorem Owned.intact_iff (h : x.Owned k n) {hit : UnsureHit} (hhit : hit ∈ x.hits) :
    hit.Intact n ↔ n ≤ sizeofDataSize ∧ hit.malloced.take n = hit.moved := by
  obtain ⟨hgot, hlength⟩ := h.hits hit hhit
  unfold UnsureHit.Intact
  have hmin : min n sizeofDataSize = n ↔ n ≤ sizeofDataSize := by omega
  rw [hgot, List.length_take, hlength, hmin, and_comm]

/-- The users write to the blocks of the ways only. -/
theorem Owned.store {bytes : List UInt8} (h : x.Owned k n) (hway : way < k)
    (hs : x.store (x.entries way).data bytes = .ok y) : y.Owned k n := by
  obtain ⟨d, block, hd, rfl⟩ := store_spec hs
  refine ⟨h.ways, h.ways_apart, fun u hu => ?_, h.lines_apart, h.length, h.hits⟩
  obtain ⟨b, hb, hlt, hmemory, hother⟩ := h.lines u hu
  have hbd : b ≠ d := fun heq => hother way hway (heq ▸ hd)
  exact ⟨b, hb, hlt, (Function.update_of_ne hbd ..).trans hmemory, hother⟩

/-- The line of a way gets a fresh block. -/
theorem Owned.moved (h : x.Owned k n) (hway : way < k) (hm : Moved n junk way x y) : y.Owned k n := by
  obtain ⟨d, hd⟩ := hm.block
  have hdata : ∀ w, (y.entries w).data = (x.entries w).data := by
    intro w
    rw [hm.entries]
    by_cases hw : w = way
    · subst hw
      rw [Function.update_self]
    · rw [Function.update_of_ne hw]
  have hlt : d < x.allocated := h.ways way hway d hd
  have hold : ∀ u ∈ x.unsure, u.entry.data ≠ .block x.allocated := by
    intro u hu heq
    obtain ⟨b, hb, hblt, _⟩ := h.lines u hu
    rw [hb] at heq
    cases heq
    exact Nat.lt_irrefl _ hblt
  refine ⟨fun w hw b hb => ?_, fun w hw w' hw' b hb hb' => ?_, fun u hu => ?_, ?_, fun u hu => ?_, ?_⟩
  · rw [hm.allocated]
    exact Nat.lt_succ_of_lt (h.ways w hw b (hdata w ▸ hb))
  · exact h.ways_apart w hw w' hw' b (hdata w ▸ hb) (hdata w' ▸ hb')
  · rw [hm.unsure, List.mem_append, List.mem_singleton] at hu
    rw [hm.allocated]
    rcases hu with hu | rfl
    · obtain ⟨b, hb, hblt, hmemory, hother⟩ := h.lines u hu
      refine ⟨b, hb, Nat.lt_succ_of_lt hblt, ?_, fun w hw => hdata w ▸ hother w hw⟩
      rw [hm.memory b hblt (hother way hway), hmemory]
    · refine ⟨x.allocated, rfl, Nat.lt_succ_self _, hm.fresh (h.ways way hway), fun w hw heq => ?_⟩
      exact Nat.lt_irrefl _ (h.ways w hw _ (hdata w ▸ heq))
  · rw [hm.unsure]
    refine List.pairwise_append.mpr ⟨h.lines_apart, List.pairwise_singleton _ _, fun u hu v hv => ?_⟩
    rw [List.mem_singleton.mp hv]
    exact hold u hu
  · rw [hm.unsure, List.mem_append, List.mem_singleton] at hu
    rcases hu with hu | rfl
    · exact h.length u hu
    · exact length_junkBytes ..
  · rw [hm.hits]
    exact h.hits

/-- The contents of the other ways stay. -/
theorem Owned.contents_moved (h : x.Owned k n) (hway : way < k) (hm : Moved n junk way x y) {w : ℕ} (hw : w < k)
    (hne : w ≠ way) : y.entries w = x.entries w ∧ y.contents n (y.entries w).data = x.contents n (x.entries w).data := by
  have hentry : y.entries w = x.entries w := by rw [hm.entries, Function.update_of_ne hne]
  refine ⟨hentry, ?_⟩
  rw [hentry]
  cases hdata : (x.entries w).data with
  | initCacheDataValue => rfl
  | block b =>
      have hother : (x.entries way).data ≠ .block b := fun heq => hne (h.ways_apart w hw way hway b hdata heq)
      show (y.memory b).take n = (x.memory b).take n
      rw [hm.memory b (h.ways w hw b hdata) hother]

/-- The loop over the ways. -/
theorem Owned.spillWays {ways : List ℕ} (h : x.Owned k n) (hways : ∀ w ∈ ways, w < k) (hnodup : ways.Nodup)
    (hs : ways.foldlM (spillWay n junk) x = .ok y) :
    y.Owned k n ∧ (x.Intact n → (∀ w ∈ ways, (x.entries w).valid = true → x.Refilled n junk w) → y.Intact n) := by
  induction ways generalizing x with
  | nil =>
      cases hs
      exact ⟨h, fun hintact _ => hintact⟩
  | cons way ways ih =>
      obtain ⟨hfirst, hnodup⟩ := List.nodup_cons.mp hnodup
      rw [List.foldlM_cons] at hs
      obtain ⟨z, hz, hlater⟩ := bind_eq_ok.mp hs
      have hway : way < k := hways way (List.mem_cons_self ..)
      have hrest : ∀ w ∈ ways, w < k := fun w hw => hways w (List.mem_cons_of_mem _ hw)
      by_cases hvalid : (x.entries way).valid = true
      · have hm := spillWay_spec hvalid hz
        obtain ⟨hy, hgood⟩ := ih (h.moved hway hm) hrest hnodup hlater
        refine ⟨hy, fun hintact hrefilled => hgood ⟨fun u hu => ?_, ?_⟩ fun w hw hwvalid => ?_⟩
        · rw [hm.unsure, List.mem_append, List.mem_singleton] at hu
          rcases hu with hu | rfl
          · exact hintact.lines u hu
          · exact hrefilled way (List.mem_cons_self ..) hvalid
        · rw [hm.hits]
          exact hintact.hits
        · have hne : w ≠ way := fun heq => hfirst (heq ▸ hw)
          obtain ⟨hentry, hcontents⟩ := h.contents_moved hway hm (hrest w hw) hne
          rw [hentry] at hwvalid
          obtain ⟨hn, hsame⟩ := hrefilled w (List.mem_cons_of_mem _ hw) hwvalid
          exact ⟨hn, hsame.trans hcontents.symm⟩
      · have hsame : z = x := by
          unfold spillWay at hz
          rw [if_neg hvalid] at hz
          exact (Except.ok.inj hz).symm
        subst hsame
        obtain ⟨hy, hgood⟩ := ih h hrest hnodup hlater
        exact ⟨hy, fun hintact hrefilled => hgood hintact fun w hw => hrefilled w (List.mem_cons_of_mem _ hw)⟩

/-! ## Steps and runs -/

theorem findWay_lt (h : x.findWay k tag = some way) : way < k := List.mem_range.mp (List.mem_of_find?_eq_some h)

/-- Entries whose data pointers are the same, and fewer unsure lines. -/
theorem Owned.sublist (h : x.Owned k n) (hmemory : y.memory = x.memory) (hallocated : y.allocated = x.allocated)
    (hentries : ∀ way < k, (y.entries way).data = (x.entries way).data) (hunsure : List.Sublist y.unsure x.unsure)
    (hhits : y.hits = x.hits) : y.Owned k n where
  ways := fun way hway b hb => hallocated ▸ h.ways way hway b (hentries way hway ▸ hb)
  ways_apart := fun way hway way' hway' b hb hb' =>
    h.ways_apart way hway way' hway' b (hentries way hway ▸ hb) (hentries way' hway' ▸ hb')
  lines := fun u hu => by
    rw [hmemory, hallocated]
    obtain ⟨b, hb, hlt, hmemory, hother⟩ := h.lines u (hunsure.subset hu)
    exact ⟨b, hb, hlt, hmemory, fun way hway => hentries way hway ▸ hother way hway⟩
  lines_apart := h.lines_apart.sublist hunsure
  length := fun u hu => h.length u (hunsure.subset hu)
  hits := hhits ▸ h.hits

/-- `insert_sure_line` in front of an insertion. -/
theorem Owned.insertSureLine (h : x.Owned k n) (hs : x.insertSureLine k n junk = .ok (y, way)) :
    y.Owned k n ∧ (x.Intact n → (x.Spills k → ∀ w < k, (x.entries w).valid = true → x.Refilled n junk w) → y.Intact n) := by
  unfold IdealData.insertSureLine at hs
  by_cases hspills : x.Spills k
  · rw [if_pos hspills] at hs
    obtain ⟨z, hz, hs⟩ := bind_eq_ok.mp hs
    obtain ⟨_, hs⟩ := ite_error_eq_ok.mp hs
    cases hs
    obtain ⟨howned, hgood⟩ := h.spillWays (fun w hw => List.mem_range.mp hw) List.nodup_range hz
    refine ⟨howned.sublist rfl rfl (fun _ _ => rfl) (List.Sublist.refl _) rfl, fun hintact hrefilled => ?_⟩
    have hafter := hgood hintact fun w hw hvalid => hrefilled hspills w (List.mem_range.mp hw) hvalid
    exact ⟨hafter.lines, hafter.hits⟩
  · rw [if_neg hspills] at hs
    cases hfree : x.freeWay k with
    | none =>
        rw [hfree] at hs
        cases hs
    | some free =>
        rw [hfree] at hs
        obtain ⟨_, hs⟩ := ite_error_eq_ok.mp hs
        cases hs
        exact ⟨h.sublist rfl rfl (fun _ _ => rfl) (List.Sublist.refl _) rfl, fun hintact _ => ⟨hintact.lines, hintact.hits⟩⟩

theorem Owned.insert (h : x.Owned k n) (hs : x.insert k n junk tag = .ok y) :
    y.Owned k n ∧ (x.Intact n → x.RefillsMoved k n (.insert tag junk) → y.Intact n) := by
  obtain ⟨⟨z, way⟩, hz, hs⟩ := bind_eq_ok.mp hs
  cases hs
  obtain ⟨howned, hgood⟩ := h.insertSureLine hz
  refine ⟨howned.sublist rfl rfl (fun w _ => ?_) (List.Sublist.refl _) rfl, fun hintact hrefills => ?_⟩
  · dsimp only
    by_cases hw : w = way
    · rw [hw, Function.update_self]
    · rw [Function.update_of_ne hw]
  · have hafter := hgood hintact hrefills
    exact ⟨hafter.lines, hafter.hits⟩

/-- The lines that stay in the list do not share the block of the line that leaves it. -/
theorem Owned.lines_left {temp : UnsureLine} (h : x.Owned k n)
    (hfind : x.unsure.find? (fun temp => temp.entry.tag == tag) = some temp) (way : ℕ) :
    List.Sublist (x.returned k n tag temp way).unsure x.unsure ∧
      ∀ u ∈ (x.returned k n tag temp way).unsure, u.entry.data ≠ temp.entry.data := by
  obtain ⟨htag, before, after, hsplit, hbefore⟩ := List.find?_eq_some_iff_append.mp hfind
  have hfirst : (temp :: after).eraseP (fun temp => temp.entry.tag == tag) = after := List.eraseP_cons_of_pos htag
  have herase : x.unsure.eraseP (fun temp => temp.entry.tag == tag) = before ++ after := by
    rw [hsplit, List.eraseP_append_right _ fun u hu => by simpa using hbefore u hu, hfirst]
  have hleft : List.Sublist (x.returned k n tag temp way).unsure (before ++ after) := by
    dsimp only [returned]
    split
    · exact List.nil_sublist _
    · exact herase ▸ List.Sublist.refl _
  have hall : List.Sublist (before ++ after) x.unsure :=
    hsplit ▸ (List.sublist_cons_self temp after).append_left before
  have hpairs := h.lines_apart
  rw [hsplit, List.pairwise_append, List.pairwise_cons] at hpairs
  refine ⟨hleft.trans hall, fun u hu => ?_⟩
  rcases List.mem_append.mp (hleft.subset hu) with hu | hu
  · exact hpairs.2.2 u hu temp (List.mem_cons_self ..)
  · exact (hpairs.2.1.1 u hu).symm

/-- A hit in the list brings the block of the line into a way. -/
theorem Owned.returned {temp : UnsureLine} (h : x.Owned k n)
    (hfind : x.unsure.find? (fun temp => temp.entry.tag == tag) = some temp) (way : ℕ) :
    (x.returned k n tag temp way).Owned k n := by
  have htemp : temp ∈ x.unsure := List.mem_of_find?_eq_some hfind
  obtain ⟨b, hb, hlt, hmemory, hother⟩ := h.lines temp htemp
  obtain ⟨hleft, hapart⟩ := h.lines_left hfind way
  have hdata : ∀ w, ((x.returned k n tag temp way).entries w).data = if w = way then .block b else (x.entries w).data := by
    intro w
    dsimp only [IdealData.returned]
    by_cases hw : w = way
    · rw [hw, Function.update_self, if_pos rfl, hb]
    · rw [Function.update_of_ne hw, if_neg hw]
  refine ⟨fun w hw c hc => ?_, fun w hw w' hw' c hc hc' => ?_, fun u hu => ?_, h.lines_apart.sublist hleft,
    fun u hu => h.length u (hleft.subset hu), fun hit hhit => ?_⟩
  · rw [hdata] at hc
    split at hc
    · cases hc
      exact hlt
    · exact h.ways w hw c hc
  · rw [hdata] at hc hc'
    by_cases hww : w = way
    · by_cases hww' : w' = way
      · rw [hww, hww']
      · rw [if_pos hww] at hc
        rw [if_neg hww'] at hc'
        exact absurd (hc'.trans hc.symm) (hother w' hw')
    · by_cases hww' : w' = way
      · rw [if_neg hww] at hc
        rw [if_pos hww'] at hc'
        exact absurd (hc.trans hc'.symm) (hother w hw)
      · rw [if_neg hww] at hc
        rw [if_neg hww'] at hc'
        exact h.ways_apart w hw w' hw' c hc hc'
  · obtain ⟨c, hc, hclt, hcmemory, hcother⟩ := h.lines u (hleft.subset hu)
    refine ⟨c, hc, hclt, hcmemory, fun w hw => ?_⟩
    rw [hdata]
    split
    · rw [← hc, ← hb]
      exact (hapart u hu).symm
    · exact hcother w hw
  · rcases List.mem_append.mp hhit with hhit | hhit
    · exact h.hits hit hhit
    · rw [List.mem_singleton.mp hhit, hb]
      exact ⟨congrArg (List.take n) hmemory, h.length temp htemp⟩

theorem Owned.accessUnsureLines {got : Option DataPtr} (h : x.Owned k n)
    (hs : x.accessUnsureLines k n tag = .ok (y, got)) : y.Owned k n ∧ (x.Intact n → y.Intact n) := by
  rcases accessUnsureLines_cases hs with ⟨_, rfl, rfl⟩ | ⟨temp, way, hfind, _, _, rfl, rfl⟩
  · exact ⟨h, id⟩
  · obtain ⟨hleft, _⟩ := h.lines_left hfind way
    refine ⟨h.returned hfind way, fun hintact => ⟨fun u hu => hintact.lines u (hleft.subset hu), fun hit hhit => ?_⟩⟩
    rcases List.mem_append.mp hhit with hhit | hhit
    · exact hintact.hits hit hhit
    · rw [List.mem_singleton.mp hhit]
      exact hintact.lines temp (List.mem_of_find?_eq_some hfind)

theorem Owned.access {got : Option DataPtr} (h : x.Owned k n) (hs : x.access k n tag = .ok (y, got)) :
    y.Owned k n ∧ (x.Intact n → y.Intact n) := by
  unfold IdealData.access at hs
  cases hfind : x.findWay k tag with
  | none =>
      rw [hfind] at hs
      exact h.accessUnsureLines hs
  | some way =>
      rw [hfind] at hs
      cases hs
      exact ⟨h, id⟩

theorem Owned.invalidate (h : x.Owned k n) (tag : Addr) :
    (x.invalidate k tag).Owned k n ∧ (x.Intact n → (x.invalidate k tag).Intact n) := by
  have hsub : List.Sublist (x.invalidate k tag).unsure x.unsure := List.eraseP_sublist
  refine ⟨h.sublist rfl rfl (fun w _ => ?_) hsub rfl, fun hintact => ⟨fun u hu => hintact.lines u (hsub.subset hu), hintact.hits⟩⟩
  dsimp only [IdealData.invalidate]
  split <;> rfl

/-- One step. -/
theorem Owned.step {event : IdealEvent} (h : x.Owned k n) (hs : x.step k n event = .ok y) :
    y.Owned k n ∧ (x.Intact n → x.RefillsMoved k n event → y.Intact n) := by
  cases event with
  | access tag =>
      obtain ⟨⟨z, got⟩, hz, heq⟩ := map_eq_ok.mp hs
      cases heq
      obtain ⟨howned, hgood⟩ := h.access hz
      exact ⟨howned, fun hintact _ => hgood hintact⟩
  | insert tag junk => exact h.insert hs
  | write tag bytes =>
      unfold IdealData.step at hs
      cases hfind : x.findWay k tag with
      | none =>
          simp only [hfind] at hs
          cases hs
          exact ⟨h, fun hintact _ => hintact⟩
      | some way =>
          simp only [hfind] at hs
          refine ⟨h.store (findWay_lt hfind) hs, fun hintact _ => ?_⟩
          obtain ⟨d, block, _, rfl⟩ := store_spec hs
          exact ⟨hintact.lines, hintact.hits⟩
  | invalidate tag =>
      cases hs
      obtain ⟨howned, hgood⟩ := h.invalidate tag
      exact ⟨howned, fun hintact _ => hgood hintact⟩

/-- A hit in the unsure list has the contents that the line had when it was moved exactly if they
fit into the block of the copy and `malloc` had left them there: the copy is made the wrong way
round. So a run whose insertions move only such lines hits only intact lines. -/
theorem run_intact {events : List IdealEvent} (hrun : run (step k n) (init k n) events = .ok x) :
    (∀ hit ∈ x.hits, hit.Intact n ↔ n ≤ sizeofDataSize ∧ hit.malloced.take n = hit.moved) ∧
      (Along (step k n) (RefillsMoved k n) (init k n) events → ∀ hit ∈ x.hits, hit.Intact n) := by
  have howned : x.Owned k n := run_invariant (fun _ _ _ h hs => (h.step hs).1) owned_init hrun
  refine ⟨fun hit hhit => howned.intact_iff hhit, fun halong hit hhit => ?_⟩
  have hboth : x.Owned k n ∧ x.Intact n :=
    run_invariant_along (I := fun x => x.Owned k n ∧ x.Intact n)
      (fun _ _ _ h hrefills hs => ⟨(h.1.step hs).1, (h.1.step hs).2 h.2 hrefills⟩) ⟨owned_init, intact_init⟩ halong hrun
  exact (howned.intact_iff hhit).mpr (hboth.2.hits hit hhit)

/-- Lines of four bytes in two ways: two of them are moved to the list when a third comes. -/
def moveAndHit (junk : ℕ → ℕ → UInt8) : List IdealEvent :=
  [.insert 0x10 fun _ _ => 0, .write 0x10 [1, 2, 3, 4], .insert 0x20 fun _ _ => 0, .insert 0x30 junk, .access 0x10]

/-- `malloc` happens to return what was in the lines. -/
theorem run_intact_refilled :
    ∃ x, run (step 2 4) (init 2 4) (moveAndHit fun way i => if way = 0 then UInt8.ofNat (i + 1) else 0) = .ok x ∧
      x.hits ≠ [] ∧ ∀ hit ∈ x.hits, hit.Intact 4 := by
  have hrun : (fun x : IdealData => decide (x.hits ≠ [])) <$> run (step 2 4) (init 2 4)
      (moveAndHit fun way i => if way = 0 then UInt8.ofNat (i + 1) else 0) = .ok true := by decide +kernel
  obtain ⟨x, hx, hhits⟩ := map_eq_ok.mp hrun
  exact ⟨x, hx, of_decide_eq_true hhits, (run_intact hx).2 (by decide +kernel)⟩

/-- A line that went through the list comes back with other contents. -/
theorem not_intact :
    ¬ ∀ (k n : ℕ) (events : List IdealEvent) (x : IdealData), run (step k n) (init k n) events = .ok x →
      ∀ hit ∈ x.hits, hit.Intact n := by
  intro hintact
  have hrun : (fun x : IdealData => decide (∀ hit ∈ x.hits, hit.Intact 4)) <$>
      run (step 2 4) (init 2 4) (moveAndHit fun _ _ => 0) = .ok false := by decide +kernel
  obtain ⟨x, hx, hlost⟩ := map_eq_ok.mp hrun
  exact of_decide_eq_false hlost (hintact 2 4 _ x hx)

end IdealData

end Scarab.Memory
