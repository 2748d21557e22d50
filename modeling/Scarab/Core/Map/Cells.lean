import Scarab.Core.Map.Thread
import Scarab.Lib.DualPath

/-! # The map as cells

A register, the last store and a byte of memory are each kept in a cell with a right-path
and a wrong-path half. Here every operation of the map is described by what it does to
each cell; later proofs never look into the map. -/

namespace Scarab.Map

open DualPath (Cell)

/-! ## The cells -/

def regCell (m : MapData) (id : ℕ) : Cell MapEntry :=
  ⟨m.regMap id false, m.regMap id true, m.mapFlags id⟩

def storeCell (m : MapData) : Cell MapEntry := ⟨m.lastStore false, m.lastStore true, m.lastStoreFlag⟩

/-- The store that an entry has for a byte on a path. -/
def MemMapEntry.storeAt (e : MemMapEntry) (byte : Fin 8) (off : Bool) : Option Op :=
  if e.storeMask byte off then e.op byte off else none

def MemMapEntry.cell (e : MemMapEntry) (byte : Fin 8) : Cell (Option Op) :=
  ⟨e.storeAt byte false, e.storeAt byte true, e.flagMask byte⟩

def byteCell (m : MapData) (l : Loc) : Cell (Option Op) :=
  ((m.oracleMemHash l.key).getD .new).cell l.byte

/-- What an op writes into the cell of a register. -/
def regWrite (id : ℕ) (op : Op) : Option MapEntry := if id ∈ op.dests then some (.ofOp op) else none

/-- What an op writes into the cell of the last store. -/
def storeWrite (op : Op) : Option MapEntry := if op.memType = .st then some (.ofOp op) else none

/-- What an op writes into the cell of a byte. -/
def byteWrite (l : Loc) (op : Op) : Option (Option Op) :=
  if op.memType = .st ∧ l ∈ accessLocs op.va op.memSize then some (some op) else none

/-! ## Registers and the last store -/

theorem producer_eq_read (e : MemMapEntry) (byte : Fin 8) : e.producer byte = (e.cell byte).read := by
  cases hf : e.flagMask byte <;> simp [MemMapEntry.producer, Cell.read, MemMapEntry.cell, hf,
    MemMapEntry.storeAt]

theorem regCell_writeReg (op : Op) (m : MapData) (id id' : ℕ) :
    regCell (m.writeReg op id) id' =
      if id' = id then (regCell m id').write op.offPath (.ofOp op) else regCell m id' := by
  by_cases hid : id' = id
  · subst hid
    cases ho : op.offPath <;> simp [regCell, MapData.writeReg, Cell.write, ho]
  · simp [regCell, MapData.writeReg, hid]

theorem write_write {β : Type} (c : Cell β) (off : Bool) (b : β) :
    (c.write off b).write off b = c.write off b := by
  cases off <;> rfl

theorem regCell_writeRegs (op : Op) (m : MapData) (ids : List ℕ) (id' : ℕ) :
    regCell (ids.foldl (MapData.writeReg op) m) id' =
      if id' ∈ ids then (regCell m id').write op.offPath (.ofOp op) else regCell m id' := by
  induction ids generalizing m with
  | nil => simp
  | cons id ids ih =>
      rw [List.foldl_cons, ih, regCell_writeReg]
      by_cases hid : id' = id
      · by_cases hmem : id' ∈ ids <;> simp [hid, write_write]
      · by_cases hmem : id' ∈ ids <;> simp [hid, hmem]

theorem writeRegs_rest (op : Op) (m : MapData) (ids : List ℕ) :
    storeCell (ids.foldl (MapData.writeReg op) m) = storeCell m ∧
      (ids.foldl (MapData.writeReg op) m).oracleMemHash = m.oracleMemHash := by
  induction ids generalizing m with
  | nil => exact ⟨rfl, rfl⟩
  | cons id ids ih => exact ih (m.writeReg op id)

@[simp] theorem regCell_updateMap (m : MapData) (op : Op) (id : ℕ) :
    regCell (updateMap m op) id = (regCell m id).apply (regWrite id) op.offPath op := by
  have hregs : regCell (updateMap m op) id =
      regCell (op.dests.foldl (MapData.writeReg op) m) id := by
    unfold updateMap
    by_cases hst : op.memType = .st <;> simp [hst, regCell]
  rw [hregs, regCell_writeRegs]
  by_cases hmem : id ∈ op.dests <;> simp [Cell.apply, regWrite, hmem]

@[simp] theorem storeCell_updateMap (m : MapData) (op : Op) :
    storeCell (updateMap m op) = (storeCell m).apply storeWrite op.offPath op := by
  have hrest := (writeRegs_rest op m op.dests).1
  by_cases hst : op.memType = .st
  · simp only [storeCell, Cell.mk.injEq] at hrest
    cases ho : op.offPath <;>
      simp [updateMap, hst, storeCell, Cell.apply, storeWrite, Cell.write, ho, hrest.1, hrest.2.1]
  · simpa [updateMap, hst, Cell.apply, storeWrite] using hrest

@[simp] theorem byteCell_updateMap (m : MapData) (op : Op) (l : Loc) :
    byteCell (updateMap m op) l = byteCell m l := by
  have hrest := (writeRegs_rest op m op.dests).2
  by_cases hst : op.memType = .st <;> simp [byteCell, updateMap, hst, hrest]

/-! ## Stores -/

theorem cell_put (op : Op) (e : MemMapEntry) (byte byte' : Fin 8) :
    (e.put op byte).cell byte' =
      if byte' = byte then (e.cell byte').write op.offPath (some op) else e.cell byte' := by
  by_cases hb : byte' = byte
  · subst hb
    cases ho : op.offPath <;>
      simp [MemMapEntry.cell, MemMapEntry.storeAt, MemMapEntry.put, Cell.write, ho]
  · simp [MemMapEntry.cell, MemMapEntry.storeAt, MemMapEntry.put, hb]

theorem cell_puts (op : Op) (e : MemMapEntry) (bytes : List (Fin 8)) (byte' : Fin 8) :
    (bytes.foldl (MemMapEntry.put op) e).cell byte' =
      if byte' ∈ bytes then (e.cell byte').write op.offPath (some op) else e.cell byte' := by
  induction bytes generalizing e with
  | nil => simp
  | cons byte bytes ih =>
      rw [List.foldl_cons, ih, cell_put]
      by_cases hb : byte' = byte
      · by_cases hmem : byte' ∈ bytes <;> simp [hb, write_write]
      · by_cases hmem : byte' ∈ bytes <;> simp [hb, hmem]

/-- An entry of the traversal covers the byte. -/
def Covers (op : Op) (l : Loc) (entry : Addr) : Prop :=
  l.key = mapKey entry ∧ l.byte ∈ bytesIn op.va op.memSize entry

theorem mem_accessLocs_iff (op : Op) (l : Loc) :
    l ∈ accessLocs op.va op.memSize ↔ ∃ entry ∈ entries op.va op.memSize, Covers op l entry := by
  simp only [accessLocs, List.mem_flatMap, List.mem_map, Covers]
  constructor
  · rintro ⟨entry, he, byte, hb, rfl⟩
    exact ⟨entry, he, rfl, hb⟩
  · rintro ⟨entry, he, hkey, hb⟩
    exact ⟨entry, he, l.byte, hb, by rw [← hkey]⟩

theorem byteCell_putEntry (op : Op) (m : MapData) (entry : Addr) (l : Loc) :
    (Covers op l entry → byteCell (m.putEntry op entry) l =
      (byteCell m l).write op.offPath (some op)) ∧
    (¬ Covers op l entry → byteCell (m.putEntry op entry) l = byteCell m l) := by
  by_cases hkey : l.key = mapKey entry
  · have hcell : byteCell (m.putEntry op entry) l =
        if l.byte ∈ bytesIn op.va op.memSize entry then
          (byteCell m l).write op.offPath (some op) else byteCell m l := by
      simp [byteCell, MapData.putEntry, hkey, cell_puts]
    rw [hcell]
    constructor
    · intro hc
      rw [if_pos hc.2]
    · intro hc
      rw [if_neg fun hb => hc ⟨hkey, hb⟩]
  · have hcell : byteCell (m.putEntry op entry) l = byteCell m l := by
      simp [byteCell, MapData.putEntry, Function.update_of_ne hkey]
    exact ⟨fun hc => absurd hc.1 hkey, fun _ => hcell⟩

theorem byteCell_putEntries (op : Op) (m : MapData) (es : List Addr) (l : Loc) :
    ((∃ entry ∈ es, Covers op l entry) → byteCell (es.foldl (MapData.putEntry op) m) l =
      (byteCell m l).write op.offPath (some op)) ∧
    ((¬ ∃ entry ∈ es, Covers op l entry) →
      byteCell (es.foldl (MapData.putEntry op) m) l = byteCell m l) := by
  induction es generalizing m with
  | nil => exact ⟨fun h => by simp at h, fun _ => rfl⟩
  | cons entry es ih =>
      obtain ⟨hput, hskip⟩ := byteCell_putEntry op m entry l
      obtain ⟨hrest, hnone⟩ := ih (m.putEntry op entry)
      rw [List.foldl_cons]
      by_cases hlater : ∃ entry ∈ es, Covers op l entry
      · rw [hrest hlater]
        constructor
        · intro _
          by_cases hc : Covers op l entry
          · rw [hput hc, write_write]
          · rw [hskip hc]
        · intro h
          exact absurd (List.exists_mem_cons_of_exists hlater) h
      · rw [hnone hlater]
        constructor
        · intro h
          cases (List.exists_mem_cons_iff _ _ _).mp h with
          | inl hc => exact hput hc
          | inr hl => exact absurd hl hlater
        · intro h
          exact hskip fun hc => h (List.exists_mem_cons_iff _ _ _ |>.mpr (.inl hc))

/-- `update_store_hash` writes the bytes that the traversal touches. -/
theorem byteCell_updateStoreHash (m : MapData) {op : Op} (hst : op.memType = .st) (l : Loc) :
    byteCell (updateStoreHash m op) l = (byteCell m l).apply (byteWrite l) op.offPath op := by
  obtain ⟨hput, hskip⟩ := byteCell_putEntries op m (entries op.va op.memSize) l
  by_cases hmem : l ∈ accessLocs op.va op.memSize
  · rw [updateStoreHash, hput ((mem_accessLocs_iff op l).mp hmem)]
    simp [Cell.apply, byteWrite, hst, hmem]
  · rw [updateStoreHash, hskip (mt (mem_accessLocs_iff op l).mpr hmem)]
    simp [Cell.apply, byteWrite, hmem]

theorem putEntries_rest (op : Op) (m : MapData) (es : List Addr) :
    (∀ id, regCell (es.foldl (MapData.putEntry op) m) id = regCell m id) ∧
      storeCell (es.foldl (MapData.putEntry op) m) = storeCell m := by
  induction es generalizing m with
  | nil => exact ⟨fun _ => rfl, rfl⟩
  | cons entry es ih => exact ih (m.putEntry op entry)

/-! ## Deleting -/

/-- The half of the op's path, emptied if the op holds it. -/
def forget (op : Op) (c : Cell (Option Op)) : Cell (Option Op) :=
  if op.offPath then { c with offHalf := if c.offHalf = some op then none else c.offHalf }
  else { c with onHalf := if c.onHalf = some op then none else c.onHalf }

/-- A cell of an entry that may have been deleted: a deleted entry held nothing. -/
def Fades (c c' : Cell (Option Op)) : Prop :=
  c' = c ∨ c.onHalf = none ∧ c.offHalf = none ∧ c' = ⟨none, none, false⟩

theorem forget_forget (op : Op) (c : Cell (Option Op)) : forget op (forget op c) = forget op c := by
  cases ho : op.offPath with
  | true =>
      by_cases hhalf : c.offHalf = some op <;> simp [forget, ho, hhalf]
  | false =>
      by_cases hhalf : c.onHalf = some op <;> simp [forget, ho, hhalf]

theorem forget_of_empty (op : Op) {c : Cell (Option Op)} (hon : c.onHalf = none)
    (hoff : c.offHalf = none) : forget op c = c := by
  cases c
  cases ho : op.offPath <;> simp_all [forget]

theorem Fades.forget {c c' : Cell (Option Op)} (h : Fades c c') (op : Op) :
    Fades (Map.forget op c) (Map.forget op c') := by
  cases h with
  | inl hsame => exact .inl (by rw [hsame])
  | inr hgone =>
      obtain ⟨hon, hoff, rfl⟩ := hgone
      rw [forget_of_empty op hon hoff]
      exact .inr ⟨hon, hoff, forget_of_empty op rfl rfl⟩

theorem Fades.trans {c₁ c₂ c₃ : Cell (Option Op)} (h₁ : Fades c₁ c₂) (h₂ : Fades c₂ c₃) :
    Fades c₁ c₃ := by
  cases h₁ with
  | inl hsame => rwa [hsame] at h₂
  | inr hgone =>
      obtain ⟨hon, hoff, rfl⟩ := hgone
      cases h₂ with
      | inl hsame => exact .inr ⟨hon, hoff, hsame⟩
      | inr hgone => exact .inr ⟨hon, hoff, hgone.2.2⟩

theorem cell_drop (op : Op) (e : MemMapEntry) (byte byte' : Fin 8) :
    (e.drop op byte).cell byte' = if byte' = byte then forget op (e.cell byte') else e.cell byte' := by
  by_cases hb : byte' = byte
  · subst hb
    rw [if_pos rfl]
    by_cases hown : e.storeMask byte' op.offPath = true ∧ e.op byte' op.offPath = some op
    · cases ho : op.offPath <;> rw [ho] at hown <;>
        simp [MemMapEntry.drop, MemMapEntry.cell, MemMapEntry.storeAt, forget, ho, hown.1, hown.2]
    · cases ho : op.offPath <;> rw [ho] at hown <;>
        simp [MemMapEntry.drop, MemMapEntry.cell, MemMapEntry.storeAt, forget, ho, hown]
  · by_cases hown : e.storeMask byte op.offPath = true ∧ e.op byte op.offPath = some op <;>
      simp [MemMapEntry.drop, MemMapEntry.cell, MemMapEntry.storeAt, hown, hb]

theorem cell_drops (op : Op) (e : MemMapEntry) (bytes : List (Fin 8)) (byte' : Fin 8) :
    (bytes.foldl (MemMapEntry.drop op) e).cell byte' =
      if byte' ∈ bytes then forget op (e.cell byte') else e.cell byte' := by
  induction bytes generalizing e with
  | nil => simp
  | cons byte bytes ih =>
      rw [List.foldl_cons, ih, cell_drop]
      by_cases hb : byte' = byte
      · by_cases hmem : byte' ∈ bytes <;> simp [hb, forget_forget]
      · by_cases hmem : byte' ∈ bytes <;> simp [hb, hmem]

theorem MemMapEntry.Unused.cell {e : MemMapEntry} (h : e.Unused) (byte : Fin 8) :
    (e.cell byte).onHalf = none ∧ (e.cell byte).offHalf = none := by
  simp [MemMapEntry.cell, MemMapEntry.storeAt, h byte false, h byte true]

theorem byteCell_dropEntry (op : Op) (m : MapData) (entry : Addr) (l : Loc) :
    (Covers op l entry → Fades (forget op (byteCell m l)) (byteCell (m.dropEntry op entry) l)) ∧
    (¬ Covers op l entry → Fades (byteCell m l) (byteCell (m.dropEntry op entry) l)) := by
  cases he : m.oracleMemHash (mapKey entry) with
  | none =>
      have hsame : m.dropEntry op entry = m := by simp [MapData.dropEntry, he]
      rw [hsame]
      refine ⟨fun hc => .inl ?_, fun _ => .inl rfl⟩
      have hnew : byteCell m l = MemMapEntry.new.cell l.byte := by
        rw [byteCell, hc.1, he]
        rfl
      rw [hnew, forget_of_empty op rfl rfl]
  | some e =>
      by_cases hkey : l.key = mapKey entry
      · have hold : byteCell m l = e.cell l.byte := by
          rw [byteCell, hkey, he]
          rfl
        have hfade : Fades (((bytesIn op.va op.memSize entry).foldl (MemMapEntry.drop op) e).cell
            l.byte) (byteCell (m.dropEntry op entry) l) := by
          by_cases hu : ((bytesIn op.va op.memSize entry).foldl (MemMapEntry.drop op) e).Unused
          · refine .inr ⟨(hu.cell _).1, (hu.cell _).2, ?_⟩
            simp only [byteCell, MapData.dropEntry, he, hkey, Function.update_self, if_pos hu]
            rfl
          · refine .inl ?_
            simp only [byteCell, MapData.dropEntry, he, hkey, Function.update_self, if_neg hu]
            rfl
        rw [cell_drops, ← hold] at hfade
        constructor
        · intro hc
          rwa [if_pos hc.2] at hfade
        · intro hc
          rwa [if_neg fun hb => hc ⟨hkey, hb⟩] at hfade
      · refine ⟨fun hc => absurd hc.1 hkey, fun _ => .inl ?_⟩
        simp [byteCell, MapData.dropEntry, he, Function.update_of_ne hkey]

theorem byteCell_dropEntries (op : Op) (m : MapData) (es : List Addr) (l : Loc) :
    ((∃ entry ∈ es, Covers op l entry) →
      Fades (forget op (byteCell m l)) (byteCell (es.foldl (MapData.dropEntry op) m) l)) ∧
    ((¬ ∃ entry ∈ es, Covers op l entry) →
      Fades (byteCell m l) (byteCell (es.foldl (MapData.dropEntry op) m) l)) := by
  induction es generalizing m with
  | nil => exact ⟨fun h => by simp at h, fun _ => .inl rfl⟩
  | cons entry es ih =>
      obtain ⟨hdrop, hskip⟩ := byteCell_dropEntry op m entry l
      obtain ⟨hrest, hnone⟩ := ih (m.dropEntry op entry)
      rw [List.foldl_cons]
      by_cases hlater : ∃ entry ∈ es, Covers op l entry
      · constructor
        · intro _
          by_cases hc : Covers op l entry
          · have hfirst := (hdrop hc).forget op
            rw [forget_forget] at hfirst
            exact hfirst.trans (hrest hlater)
          · exact ((hskip hc).forget op).trans (hrest hlater)
        · intro h
          exact absurd (List.exists_mem_cons_of_exists hlater) h
      · constructor
        · intro h
          cases (List.exists_mem_cons_iff _ _ _).mp h with
          | inl hc => exact (hdrop hc).trans (hnone hlater)
          | inr hl => exact absurd hl hlater
        · intro h
          have hc : ¬ Covers op l entry := fun hc =>
            h ((List.exists_mem_cons_iff _ _ _).mpr (.inl hc))
          exact (hskip hc).trans (hnone hlater)

/-- `delete_store_hash_entry` empties the halves that the op holds, among the bytes that
the traversal touches. -/
theorem byteCell_deleteStoreHashEntry (m : MapData) (op : Op) (l : Loc) :
    (l ∈ accessLocs op.va op.memSize →
      Fades (forget op (byteCell m l)) (byteCell (deleteStoreHashEntry m op) l)) ∧
    (l ∉ accessLocs op.va op.memSize →
      Fades (byteCell m l) (byteCell (deleteStoreHashEntry m op) l)) := by
  rw [mem_accessLocs_iff]
  exact byteCell_dropEntries op m (entries op.va op.memSize) l

theorem dropEntries_rest (op : Op) (m : MapData) (es : List Addr) :
    (∀ id, regCell (es.foldl (MapData.dropEntry op) m) id = regCell m id) ∧
      storeCell (es.foldl (MapData.dropEntry op) m) = storeCell m := by
  induction es generalizing m with
  | nil => exact ⟨fun _ => rfl, rfl⟩
  | cons entry es ih =>
      have hone : (∀ id, regCell (m.dropEntry op entry) id = regCell m id) ∧
          storeCell (m.dropEntry op entry) = storeCell m := by
        unfold MapData.dropEntry
        split <;> exact ⟨fun _ => rfl, rfl⟩
      obtain ⟨hregs, hstore⟩ := ih (m.dropEntry op entry)
      exact ⟨fun id => (hregs id).trans (hone.1 id), hstore.trans hone.2⟩

/-! ## Recovery -/

@[simp] theorem regCell_clearFlags (m : MapData) (id : ℕ) :
    regCell (clearFlags m) id = (regCell m id).reset := rfl

@[simp] theorem storeCell_clearFlags (m : MapData) :
    storeCell (clearFlags m) = (storeCell m).reset := rfl

@[simp] theorem byteCell_clearFlags (m : MapData) (l : Loc) :
    byteCell (clearFlags m) l = (byteCell m l).reset := by
  unfold byteCell clearFlags
  simp only
  cases m.oracleMemHash l.key with
  | none => rfl
  | some e => rfl

/-- One op of the wrong path, mapped again. -/
theorem remap_cells (m : MapData) (op : Op) :
    (∀ id, regCell (remap m op) id = (regCell m id).apply (regWrite id) op.offPath op) ∧
      storeCell (remap m op) = (storeCell m).apply storeWrite op.offPath op ∧
      ∀ l, byteCell (remap m op) l = (byteCell m l).apply (byteWrite l) op.offPath op := by
  by_cases hst : op.memType = .st
  · have hrest := putEntries_rest op (updateMap m op) (entries op.va op.memSize)
    simp only [remap, if_pos hst]
    refine ⟨fun id => ?_, ?_, fun l => ?_⟩
    · rw [updateStoreHash, hrest.1, regCell_updateMap]
    · rw [updateStoreHash, hrest.2, storeCell_updateMap]
    · rw [byteCell_updateStoreHash _ hst, byteCell_updateMap]
  · simp only [remap, if_neg hst]
    refine ⟨fun id => regCell_updateMap m op id, storeCell_updateMap m op, fun l => ?_⟩
    rw [byteCell_updateMap]
    simp [Cell.apply, byteWrite, hst]

/-- The ops of a wrong path, mapped again. -/
theorem remaps_cells (m : MapData) {ops : List Op} (hoff : ∀ op ∈ ops, op.offPath = true) :
    (∀ id, regCell (ops.foldl remap m) id = ops.foldl (Cell.apply (regWrite id) true) (regCell m id)) ∧
      storeCell (ops.foldl remap m) = ops.foldl (Cell.apply storeWrite true) (storeCell m) ∧
      ∀ l, byteCell (ops.foldl remap m) l =
        ops.foldl (Cell.apply (byteWrite l) true) (byteCell m l) := by
  induction ops generalizing m with
  | nil => exact ⟨fun _ => rfl, rfl, fun _ => rfl⟩
  | cons op ops ih =>
      obtain ⟨hregs, hstore, hbytes⟩ := remap_cells m op
      rw [hoff op (by simp)] at hregs hstore hbytes
      obtain ⟨ihregs, ihstore, ihbytes⟩ := ih (remap m op) fun o ho => hoff o (by simp [ho])
      simp only [List.foldl_cons]
      exact ⟨fun id => by rw [ihregs, hregs], by rw [ihstore, hstore], fun l => by rw [ihbytes, hbytes]⟩

end Scarab.Map
