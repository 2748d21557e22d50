import Scarab.Core.Map.Invariant

/-! # The cells track the path

Every step keeps each cell in line with the path: the cell of a register or of the last
store with all ops of the path, the cell of a byte with the ops in flight. So a read
finds the youngest op that writes. -/

namespace Scarab.Map

open DualPath (Cell)
open History (latest)

variable {p : Params} {t t' : Thread}

structure Tracked (p : Params) (t : Thread) : Prop where
  regs : ∀ id, (regCell t.map id).Tracks (regWrite id) .invalid (onOps t.path) (offOps t.path)
  store : (storeCell t.map).Tracks storeWrite .invalid (onOps t.path) (offOps t.path)
  bytes : p.memObeyStoreDep = true → ∀ l,
    (byteCell t.map l).Tracks (byteWrite l) none (onOps t.seqOpList) (offOps t.seqOpList)

/-! ## Fetching -/

/-- The map after an op was mapped. -/
theorem threadMap_map {m m' : MapData} {op : Op} {srcs : List SrcInfo}
    (h : threadMap p m op = .ok (srcs, m')) :
    m' = if p.memObeyStoreDep = true ∧ op.memType = .st then updateStoreHash (updateMap m op) op
      else updateMap m op := by
  obtain ⟨⟨srcs₁, m₁⟩, hop, h⟩ := Execution.bind_eq_ok.mp h
  obtain ⟨_, _, hop⟩ := Execution.bind_eq_ok.mp hop
  obtain ⟨_, _, hop⟩ := Execution.bind_eq_ok.mp hop
  cases hop
  simp only [mapMemDep] at h
  by_cases hobey : p.memObeyStoreDep = true
  · rw [if_pos hobey] at h
    have hmap : (if op.memType = .st then updateStoreHash (updateMap m op) op else updateMap m op) =
        m' := by
      split at h
      all_goals
        obtain ⟨_, _, hret⟩ := Execution.bind_eq_ok.mp h
        exact congrArg Prod.snd (Except.ok.inj hret)
    simp [hobey, ← hmap]
  · rw [if_neg hobey] at h
    cases h
    simp [hobey]

theorem threadMap_cells {m m' : MapData} {op : Op} {srcs : List SrcInfo}
    (h : threadMap p m op = .ok (srcs, m')) :
    (∀ id, regCell m' id = (regCell m id).apply (regWrite id) op.offPath op) ∧
      storeCell m' = (storeCell m).apply storeWrite op.offPath op ∧
      (p.memObeyStoreDep = true → ∀ l,
        byteCell m' l = (byteCell m l).apply (byteWrite l) op.offPath op) := by
  rw [threadMap_map h]
  by_cases hst : p.memObeyStoreDep = true ∧ op.memType = .st
  · rw [if_pos hst]
    have hrest := putEntries_rest op (updateMap m op) (entries op.va op.memSize)
    refine ⟨fun id => ?_, ?_, fun _ l => ?_⟩
    · rw [updateStoreHash, hrest.1, regCell_updateMap]
    · rw [updateStoreHash, hrest.2, storeCell_updateMap]
    · rw [byteCell_updateStoreHash _ hst.2, byteCell_updateMap]
  · rw [if_neg hst]
    refine ⟨fun id => regCell_updateMap m op id, storeCell_updateMap m op, fun hobey l => ?_⟩
    have hne : op.memType ≠ .st := fun hmem => hst ⟨hobey, hmem⟩
    rw [byteCell_updateMap]
    simp [Cell.apply, byteWrite, hne]

/-- A fetched op is the last of its part of the path. -/
theorem tracks_concat {β : Type} {f : Op → Option β} {init : β} {c : Cell β} {ops : List Op} {op : Op}
    (h : c.Tracks f init (onOps ops) (offOps ops))
    (hback : op.offPath = false → ∀ o ∈ ops, o.offPath = false) :
    (c.apply f op.offPath op).Tracks f init (onOps (ops ++ [op])) (offOps (ops ++ [op])) := by
  rw [onOps_append, offOps_append]
  cases ho : op.offPath with
  | true =>
      have hon : onOps [op] = [] := by simp [onOps, ho]
      have hoff : offOps [op] = [op] := by simp [offOps, ho]
      rw [hon, hoff, List.append_nil]
      exact h.apply_off op
  | false =>
      have hon : onOps [op] = [op] := by simp [onOps, ho]
      have hoff : offOps [op] = [] := by simp [offOps, ho]
      have hnil := offOps_eq_nil (hback ho)
      rw [hnil] at h
      rw [hon, hoff, hnil]
      exact h.apply_on op

theorem Tracked.fetch (h : Tracked p t) (ho : Ordered t) {op : Op} {mispred : Bool}
    {srcs : List SrcInfo} {m : MapData} (hnext : t.Next op)
    (hmap : threadMap p t.map op = .ok (srcs, m)) :
    Tracked p { t with
      map := m, seqOpList := t.seqOpList ++ [op], opCount := op.opNum + 1
      uniqueCount := op.uniqueNum + 1, offPath := t.offPath || mispred } := by
  obtain ⟨hregs, hstore, hbytes⟩ := threadMap_cells hmap
  have hpath : t.retired ++ (t.seqOpList ++ [op]) = t.path ++ [op] := (List.append_assoc ..).symm
  have hback : op.offPath = false → ∀ o ∈ t.path, o.offPath = false :=
    fun hoff => ho.back (hnext.2.2.symm.trans hoff)
  constructor
  · intro id
    simp only [Thread.path]
    rw [hpath, hregs]
    exact tracks_concat (h.regs id) hback
  · simp only [Thread.path]
    rw [hpath, hstore]
    exact tracks_concat h.store hback
  · intro hobey l
    simp only
    rw [hbytes hobey]
    exact tracks_concat (h.bytes hobey l) fun hoff o hmem => hback hoff o (List.mem_append_right _ hmem)

/-! ## Freeing -/

theorem freeOp_rest (m : MapData) (op : Op) :
    (∀ id, regCell (freeOp m op) id = regCell m id) ∧ storeCell (freeOp m op) = storeCell m := by
  unfold freeOp
  by_cases hst : op.memType = .st
  · rw [if_pos hst]
    exact dropEntries_rest op m _
  · rw [if_neg hst]
    exact ⟨fun _ => rfl, rfl⟩

/-- A freed op gives its bytes back, and nothing else changes. -/
theorem byteCell_freeOp (m : MapData) (op : Op) (l : Loc) :
    (byteWrite l op ≠ none → Fades (forget op (byteCell m l)) (byteCell (freeOp m op) l)) ∧
      (byteWrite l op = none → Fades (byteCell m l) (byteCell (freeOp m op) l)) := by
  have hdelete := byteCell_deleteStoreHashEntry m op l
  by_cases hst : op.memType = .st
  · rw [freeOp, if_pos hst]
    by_cases hl : l ∈ accessLocs op.va op.memSize
    · refine ⟨fun _ => hdelete.1 hl, fun hnone => ?_⟩
      simp [byteWrite, hst, hl] at hnone
    · refine ⟨fun hsome => ?_, fun _ => hdelete.2 hl⟩
      simp [byteWrite, hl] at hsome
  · rw [freeOp, if_neg hst]
    refine ⟨fun hsome => ?_, fun _ => .inl rfl⟩
    simp [byteWrite, hst] at hsome

/-- A cell that tracks an op list has lost nothing when its entry was deleted. -/
theorem tracks_of_fades {l : Loc} {on off : List Op} {c c' : Cell (Option Op)}
    (h : c.Tracks (byteWrite l) none on off) (hf : Fades c c') : c'.Tracks (byteWrite l) none on off := by
  cases hf with
  | inl hsame => rwa [hsame]
  | inr hgone =>
      obtain ⟨hon, hoff, rfl⟩ := hgone
      have hwrites : ∀ ops : List Op, ∀ b, latest (byteWrite l) ops = some b → b ≠ none := by
        intro ops b hb
        obtain ⟨pre, op, post, _, hop, _⟩ := History.exists_of_latest hb
        unfold byteWrite at hop
        split at hop
        · cases hop
          simp
        · cases hop
      have hflag : c.flag = false := by
        cases hlast : latest (byteWrite l) off with
        | none =>
            rw [h.flag, hlast]
            rfl
        | some b =>
            have hset : c.flag = true := by rw [h.flag, hlast]; rfl
            have hhalf := h.offHalf hset
            rw [hlast, hoff] at hhalf
            exact absurd hhalf.symm (hwrites off b hlast)
      exact ⟨hon.symm.trans h.onHalf, hflag.symm.trans h.flag, fun hset => by cases hset⟩

theorem latest_cons {β : Type} (f : Op → Option β) (op : Op) (ops : List Op) :
    latest f (op :: ops) = (latest f ops).or (f op) := by
  have happ := History.latest_append (f := f) [op] ops
  rw [show latest f [op] = f op from by simp [latest]] at happ
  exact happ

/-- The last writer of a byte in a list is an op of the list. -/
theorem mem_of_latest_byteWrite {l : Loc} {ops : List Op} {b : Option Op}
    (h : latest (byteWrite l) ops = some b) : ∃ op ∈ ops, b = some op := by
  obtain ⟨pre, op, post, rfl, hop, _⟩ := History.exists_of_latest h
  refine ⟨op, by simp, ?_⟩
  unfold byteWrite at hop
  split at hop
  · exact (Option.some.inj hop).symm
  · cases hop

/-- The oldest op on the right path gives back its bytes and leaves the list. -/
theorem tracks_retire {l : Loc} {m : MapData} {op : Op} {on off : List Op}
    (h : (byteCell m l).Tracks (byteWrite l) none (op :: on) off) (hop : op ∉ on)
    (hpath : op.offPath = false) : (byteCell (freeOp m op) l).Tracks (byteWrite l) none on off := by
  obtain ⟨hput, hskip⟩ := byteCell_freeOp m op l
  have hon := h.onHalf
  rw [latest_cons] at hon
  cases hw : byteWrite l op with
  | none =>
      apply tracks_of_fades _ (hskip hw)
      rw [hw, Option.or_none] at hon
      exact ⟨hon, h.flag, h.offHalf⟩
  | some b =>
      have hb : b = some op := by
        unfold byteWrite at hw
        split at hw
        · exact (Option.some.inj hw).symm
        · cases hw
      apply tracks_of_fades _ (hput (by simp [hw]))
      have hforget : forget op (byteCell m l) =
          { byteCell m l with
            onHalf := if (byteCell m l).onHalf = some op then none else (byteCell m l).onHalf } := by
        simp [forget, hpath]
      rw [hforget]
      refine ⟨?_, h.flag, h.offHalf⟩
      simp only
      rw [hw, hb] at hon
      cases hlast : latest (byteWrite l) on with
      | none =>
          rw [hlast] at hon
          rw [hon]
          simp
      | some c =>
          -- a younger store holds the byte
          obtain ⟨o, ho, rfl⟩ := mem_of_latest_byteWrite hlast
          rw [hlast] at hon
          have hne : o ≠ op := fun heq => hop (heq ▸ ho)
          rw [hon]
          simp [hne]

/-- A dropped op gives back its bytes; the ops in flight hold none of them. -/
theorem tracks_free {l : Loc} {m : MapData} {op : Op} {on off : List Op}
    (h : (byteCell m l).Tracks (byteWrite l) none on off) (hop : op ∉ off)
    (hpath : op.offPath = true) : (byteCell (freeOp m op) l).Tracks (byteWrite l) none on off := by
  obtain ⟨hput, hskip⟩ := byteCell_freeOp m op l
  by_cases hw : byteWrite l op = none
  · exact tracks_of_fades h (hskip hw)
  · apply tracks_of_fades _ (hput hw)
    have hforget : forget op (byteCell m l) =
        { byteCell m l with
          offHalf := if (byteCell m l).offHalf = some op then none else (byteCell m l).offHalf } := by
      simp [forget, hpath]
    rw [hforget]
    refine ⟨h.onHalf, h.flag, ?_⟩
    intro hset
    simp only at hset ⊢
    have hoff := h.offHalf hset
    cases hlast : latest (byteWrite l) off with
    | none =>
        rw [hlast] at hoff
        rw [hoff]
        simp
    | some c =>
        obtain ⟨o, ho, rfl⟩ := mem_of_latest_byteWrite hlast
        rw [hlast] at hoff
        have hne : o ≠ op := fun heq => hop (heq ▸ ho)
        rw [hoff]
        simp [hne]

/-- An op occurs once, among the ops of the path and the dropped ones. -/
theorem Ordered.not_mem (h : Ordered t) {op : Op} {pre post : List Op}
    (hsplit : t.path ++ t.flushed = pre ++ op :: post) : op ∉ pre ∧ op ∉ post := by
  have hunique := h.unique
  rw [hsplit, List.map_append, List.map_cons] at hunique
  have hparts := List.nodup_append.mp hunique
  constructor
  · intro hmem
    exact hparts.2.2 _ (List.mem_map_of_mem hmem) _ (List.mem_cons_self ..) rfl
  · intro hmem
    exact (List.nodup_cons.mp hparts.2.1).1 (List.mem_map_of_mem hmem)

theorem Tracked.retire (h : Tracked p t) (ho : Ordered t) {op : Op} {rest : List Op}
    (hseq : t.seqOpList = op :: rest) (hon : op.offPath = false) :
    Tracked p { t with
      map := freeOp t.map op, seqOpList := rest, retired := t.retired ++ [op] } := by
  obtain ⟨hregs, hstore⟩ := freeOp_rest t.map op
  have hpath : t.retired ++ [op] ++ rest = t.path := by
    rw [Thread.path, hseq, List.append_assoc]
    rfl
  have hnew : op ∉ rest := by
    have hsplit : t.path ++ t.flushed = t.retired ++ op :: (rest ++ t.flushed) := by
      rw [Thread.path, hseq, List.append_assoc]
      rfl
    exact fun hmem => (ho.not_mem hsplit).2 (List.mem_append_left _ hmem)
  constructor
  · intro id
    simp only [Thread.path]
    rw [hpath, hregs]
    exact h.regs id
  · simp only [Thread.path]
    rw [hpath, hstore]
    exact h.store
  · intro hobey l
    have hbytes := h.bytes hobey l
    have hons : onOps (op :: rest) = op :: onOps rest := by simp [onOps, hon]
    have hoffs : offOps (op :: rest) = offOps rest := by simp [offOps, hon]
    rw [hseq, hons, hoffs] at hbytes
    exact tracks_retire hbytes (fun hmem => hnew (List.mem_of_mem_filter hmem)) hon

theorem Tracked.free (h : Tracked p t) (ho : Ordered t) {op : Op} (hop : op ∈ t.flushed) :
    Tracked p { t with map := freeOp t.map op, flushed := t.flushed.erase op } := by
  obtain ⟨hregs, hstore⟩ := freeOp_rest t.map op
  have hnew : op ∉ t.path := by
    obtain ⟨pre, post, hsplit⟩ := List.append_of_mem hop
    have hall : t.path ++ t.flushed = (t.path ++ pre) ++ op :: post := by
      rw [hsplit, List.append_assoc]
    exact fun hmem => (ho.not_mem hall).1 (List.mem_append_left _ hmem)
  refine ⟨fun id => (hregs id).symm ▸ h.regs id, hstore.symm ▸ h.store, fun hobey l => ?_⟩
  apply tracks_free (h.bytes hobey l) _ (ho.flushed_off op hop)
  exact fun hmem => hnew (List.mem_append_right _ (List.mem_of_mem_filter hmem))

/-! ## Recovering -/

theorem Tracked.recover (h : Tracked p t) (ho : Ordered t) {r : ℕ} {force : Bool} {kept : List Op}
    (hrec : t.Recovers r force) (hkept : recoverSeqOpList t.seqOpList r = .ok kept) :
    Tracked p { t with
      map := recoverMap t.map kept, seqOpList := kept
      flushed := t.flushed ++ t.seqOpList.filter (r < ·.opNum), opCount := r + 1
      offPath := force } := by
  have hkeep := recoverSeqOpList_eq ho.seq_pairwise hkept
  have hpath := ho.path_recover hrec hkept
  have hstays : StaysOff (t.retired ++ kept) := by
    rw [hpath]
    exact ho.staysOff.filter _
  have hdropped : ∀ op ∈ t.path, decide (op.opNum ≤ r) = false → op.offPath = true := by
    intro op hop hlt
    exact hrec.wrongPath op hop (by simpa using hlt)
  have honPath : onOps (t.retired ++ kept) = onOps t.path := by
    rw [hpath]
    exact onOps_filter hdropped
  have honSeq : onOps kept = onOps t.seqOpList := by
    rw [hkeep]
    exact onOps_filter fun op hop => hdropped op (List.mem_append_right _ hop)
  have hoffPath : offOps (t.retired ++ kept) = offOps kept := by
    rw [offOps_append, offOps_eq_nil ho.retired_on, List.nil_append]
  have hrebuild : recoverMap t.map kept = (offOps kept).foldl remap (clearFlags t.map) := by
    unfold recoverMap rebuildOffpathMap
    rw [StaysOff.dropWhile (List.pairwise_append.mp hstays).2.1]
  have hcells := @remaps_cells (clearFlags t.map) (offOps kept)
    (fun op hop => by simpa [offOps] using (List.mem_filter.mp hop).2)
  constructor
  · intro id
    simp only [Thread.path]
    rw [honPath, hoffPath, hrebuild, hcells.1, regCell_clearFlags]
    exact (h.regs id).reset.replay (offOps kept)
  · simp only [Thread.path]
    rw [honPath, hoffPath, hrebuild, hcells.2.1, storeCell_clearFlags]
    exact h.store.reset.replay (offOps kept)
  · intro hobey l
    simp only
    rw [honSeq, hrebuild, hcells.2.2, byteCell_clearFlags]
    exact (h.bytes hobey l).reset.replay (offOps kept)

/-! ## Every run -/

theorem Tracked.step (h : Tracked p t) (ho : Ordered t) {e : Event} (hs : t.step p e = .ok t') :
    Tracked p t' := by
  cases step_spec hs with
  | fetch hnext _ hmap => exact h.fetch ho hnext hmap
  | retire hseq hon => exact h.retire ho hseq hon
  | recover hrec hkept => exact h.recover ho hrec hkept
  | free hop => exact h.free ho hop

theorem init_tracked : Tracked p .init :=
  ⟨fun _ => DualPath.Cell.tracks_nil _, DualPath.Cell.tracks_nil _,
    fun _ _ => DualPath.Cell.tracks_nil _⟩

/-- Both invariants, in every state a thread passes through. -/
theorem run_invariant {events : List Event} (ho : Ordered t) (h : Tracked p t)
    (hrun : Execution.run (Thread.step p) t events = .ok t') : Ordered t' ∧ Tracked p t' :=
  Execution.run_invariant (I := fun t => Ordered t ∧ Tracked p t)
    (fun _ _ _ hI hs => ⟨hI.1.step hs, hI.2.step hI.1 hs⟩) ⟨ho, h⟩ hrun

theorem Reachable.ordered (h : Reachable p t) : Ordered t := by
  obtain ⟨events, hrun⟩ := h
  exact (run_invariant init_ordered init_tracked hrun).1

theorem Reachable.tracked (h : Reachable p t) : Tracked p t := by
  obtain ⟨events, hrun⟩ := h
  exact (run_invariant init_ordered init_tracked hrun).2

/-! ## Reads -/

/-- A register read finds the youngest op of the path that writes the register. -/
theorem Tracked.read_reg (h : Tracked p t) (ho : Ordered t) (id : ℕ) :
    t.map.regMap id (t.map.mapFlags id) = (latest (regWrite id) t.path).getD .invalid := by
  have hread := (h.regs id).read_eq
  rw [ho.staysOff.split] at hread
  rw [← hread]
  cases hf : t.map.mapFlags id <;> simp [Cell.read, regCell, hf]

/-- A read of the last store finds the youngest store of the path. -/
theorem Tracked.read_store (h : Tracked p t) (ho : Ordered t) :
    t.map.lastStore t.map.lastStoreFlag = (latest storeWrite t.path).getD .invalid := by
  have hread := h.store.read_eq
  rw [ho.staysOff.split] at hread
  rw [← hread]
  cases hf : t.map.lastStoreFlag <;> simp [Cell.read, storeCell, hf]

/-- A read of a byte finds the youngest store in flight that writes the byte. -/
theorem Tracked.read_byte (h : Tracked p t) (ho : Ordered t) (hobey : p.memObeyStoreDep = true)
    (l : Loc) : (byteCell t.map l).read = (latest (byteWrite l) t.seqOpList).getD none := by
  have hread := (h.bytes hobey l).read_eq
  have hstays : StaysOff t.seqOpList := (List.pairwise_append.mp ho.staysOff).2.1
  rwa [hstays.split] at hread

end Scarab.Map
