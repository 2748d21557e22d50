import Scarab.Core.Map.Tracking

/-! # What an op finds as its sources

The sources of an op are functions of three kinds of reads: of a register, of the last
store, and of a byte of memory. -/

namespace Scarab.Map

open DualPath (Cell)

variable (p : Params)

/-! ## Reads -/

/-- The entry that `read_reg_map` reads. -/
def MapData.readReg (m : MapData) (id : ℕ) : MapEntry := m.regMap id (m.mapFlags id)

/-- The entry that `read_store_map` reads. -/
def MapData.readStore (m : MapData) : MapEntry := m.lastStore m.lastStoreFlag

/-- The store that `add_store_deps` finds for the byte at an address. -/
def MapData.readByte (m : MapData) (va : Addr) : Option Op :=
  match m.oracleMemHash (mapKey va) with
  | none => none
  | some e => e.producer (byteInEntry va)

/-- The sources that an op would be given. -/
def MapData.sources (m : MapData) (op : Op) : Except String (List SrcInfo) :=
  Prod.fst <$> threadMap p m op

/-- Two maps with the same reads. The bytes are only read if loads obey stores. -/
structure SameReads (m m' : MapData) : Prop where
  reg : ∀ id, m.readReg id = m'.readReg id
  store : m.readStore = m'.readStore
  byte : p.memObeyStoreDep = true → ∀ va, m.readByte va = m'.readByte va

theorem readByte_eq (m : MapData) (va : Addr) : m.readByte va = (byteCell m (Loc.of va)).read := by
  unfold MapData.readByte byteCell Loc.of
  simp only
  cases m.oracleMemHash (mapKey va) with
  | none => rfl
  | some e => exact producer_eq_read e (byteInEntry va)

/-! ## The search for stores, byte by byte -/

/-- What is done for a byte. -/
def DepSearch.supply (op : Op) (v : DepSearch) : Option Op → Except String DepSearch
  | none => pure v
  | some srcOp => v.found p op srcOp

theorem searchEntry_eq (m : MapData) (op : Op) (v : DepSearch) (entry : Addr)
    (bytes : List (Fin 8)) :
    (match m.oracleMemHash (mapKey entry) with
      | none => pure v
      | some e => bytes.foldlM (fun v byte =>
          match e.producer byte with
          | none => pure v
          | some srcOp => v.found p op srcOp) v) =
      (bytes.map fun byte => (⟨mapKey entry, byte⟩ : Loc)).foldlM
        (fun v l => v.supply p op (byteCell m l).read) v := by
  rw [List.foldlM_map]
  cases he : m.oracleMemHash (mapKey entry) with
  | none =>
      have hnone : ∀ byte, (byteCell m ⟨mapKey entry, byte⟩).read = none := by
        intro byte
        simp only [byteCell, he]
        rfl
      simp only [hnone, DepSearch.supply]
      rw [List.foldlM_pure, List.foldl_fixed]
  | some e =>
      have hread : ∀ byte, (byteCell m ⟨mapKey entry, byte⟩).read = e.producer byte := by
        intro byte
        rw [producer_eq_read]
        simp [byteCell, he]
      simp only [hread]
      congr 1

/-- The loop over entries and their bytes is a loop over the bytes of the access. -/
theorem searchStores_eq (m : MapData) (op : Op) (v : DepSearch) :
    searchStores p m op v = (accessLocs op.va op.memSize).foldlM
      (fun v l => v.supply p op (byteCell m l).read) v := by
  unfold searchStores accessLocs
  induction entries op.va op.memSize generalizing v with
  | nil => rfl
  | cons entry es ih =>
      rw [List.foldlM_cons, List.flatMap_cons, List.foldlM_append]
      congr 1
      · exact searchEntry_eq p m op v entry _
      · funext v
        exact ih v

theorem foldlM_congr {α β : Type} {ops : List α} {f g : β → α → Except String β} {b : β}
    (h : ∀ b, ∀ a ∈ ops, f b a = g b a) : ops.foldlM f b = ops.foldlM g b := by
  induction ops generalizing b with
  | nil => rfl
  | cons a ops ih =>
      rw [List.foldlM_cons, List.foldlM_cons, h b a (by simp)]
      congr 1
      funext b
      exact ih fun b a ha => h b a (by simp [ha])

/-! ## Same reads, same sources -/

variable {p} {m m' : MapData}

theorem SameReads.searchStores_eq (h : SameReads p m m') (hobey : p.memObeyStoreDep = true) (op : Op)
    (v : DepSearch) : searchStores p m op v = searchStores p m' op v := by
  rw [Map.searchStores_eq, Map.searchStores_eq]
  apply foldlM_congr
  intro v l hl
  obtain ⟨i, _, rfl⟩ := (mem_accessLocs op.va op.memSize l).mp hl
  rw [← readByte_eq, ← readByte_eq, h.byte hobey]

/-- The sources of an op depend on the reads alone. -/
theorem SameReads.sources_eq (h : SameReads p m m') (op : Op) : m.sources p op = m'.sources p op := by
  have hreg : readRegMap m op [] = readRegMap m' op [] := by
    unfold readRegMap
    apply foldlM_congr
    intro srcs id _
    exact congrArg (fun e => addSrc op srcs (.ofEntry .regData e)) (h.reg id)
  have hstore : ∀ srcs, readStoreMap p m op srcs = readStoreMap p m' op srcs := by
    intro srcs
    have hlast := h.store
    unfold MapData.readStore at hlast
    unfold readStoreMap
    rw [hlast]
  -- the search reads the map of before the op, as a load writes no byte
  have hdeps : p.memObeyStoreDep = true → ∀ srcs,
      addStoreDeps p (updateMap m op) op srcs = addStoreDeps p (updateMap m' op) op srcs := by
    intro hobey srcs
    unfold addStoreDeps
    rw [Map.searchStores_eq, Map.searchStores_eq]
    simp only [byteCell_updateMap]
    rw [← Map.searchStores_eq, ← Map.searchStores_eq, h.searchStores_eq hobey]
  unfold MapData.sources threadMap mapOp mapMemDep
  rw [hreg]
  cases readRegMap m' op [] with
  | error e => rfl
  | ok srcs =>
      simp only [bind, Except.bind, hstore]
      cases readStoreMap p m' op srcs with
      | error e => rfl
      | ok srcs =>
          simp only [pure, Except.pure]
          by_cases hobey : p.memObeyStoreDep = true
          · simp only [hobey, if_true, hdeps hobey]
            by_cases hld : op.memType = .ld
            · simp only [hld, if_true]
              cases addStoreDeps p (updateMap m' op) op srcs <;> rfl
            · simp only [hld, if_false]
              rfl
          · simp only [hobey]
            rfl

/-- An op that is mapped in one map is mapped in the other. -/
theorem SameReads.threadMap_ok (h : SameReads p m m') {op : Op} {srcs : List SrcInfo} {m₁ : MapData}
    (hmap : threadMap p m op = .ok (srcs, m₁)) : ∃ m₂, threadMap p m' op = .ok (srcs, m₂) := by
  have heq := h.sources_eq op
  unfold MapData.sources at heq
  rw [hmap] at heq
  cases hother : threadMap p m' op with
  | error e =>
      rw [hother] at heq
      cases heq
  | ok out =>
      rw [hother] at heq
      cases heq
      exact ⟨out.2, rfl⟩

/-! ## Reads in every run -/

variable {t u : Thread}

/-- Threads with the same path and the same ops in flight have the same reads. -/
theorem sameReads_of_path (hot : Ordered t) (htt : Tracked p t) (hou : Ordered u) (htu : Tracked p u)
    (hpath : t.path = u.path) (hseq : t.seqOpList = u.seqOpList) : SameReads p t.map u.map := by
  constructor
  · intro id
    rw [MapData.readReg, MapData.readReg, htt.read_reg hot, htu.read_reg hou, hpath]
  · rw [MapData.readStore, MapData.readStore, htt.read_store hot, htu.read_store hou, hpath]
  · intro hobey va
    rw [readByte_eq, readByte_eq, htt.read_byte hot hobey, htu.read_byte hou hobey, hseq]

end Scarab.Map
