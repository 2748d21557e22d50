import Scarab.Core.Map.Sources

/-! # The stores that a load depends on

A load finds, for every byte that it reads, the youngest store in flight that writes the
byte, and depends on exactly these stores, or on the youngest of them. -/

namespace Scarab.Map

open History (latest)

variable {p : Params} {t : Thread} {op : Op}

/-- The op is a store, and the byte at the address is one of those that it writes. -/
def Op.Writes (op : Op) (va : Addr) : Prop :=
  op.memType = .st ∧ ∃ i < op.memSize.toNat, va = byteAddr op.va i

/-- The youngest store in flight, older than the load, that writes the byte at the address. -/
structure Supplies (t : Thread) (load : Op) (va : Addr) (store : Op) : Prop where
  inFlight : store ∈ t.seqOpList
  older : store.opNum < load.opNum
  writes : store.Writes va
  youngest : ∀ o ∈ t.seqOpList, o.Writes va → o.opNum ≤ store.opNum

/-- The store supplies a byte of the load. -/
def SuppliesLoad (t : Thread) (load store : Op) : Prop :=
  ∃ i < load.memSize.toNat, Supplies t load (byteAddr load.va i) store

/-- The stores that a load is to depend on. -/
structure ExactDeps (p : Params) (t : Thread) (load : Op) (deps : List Op) : Prop where
  once : deps.Nodup
  all : p.memOooStores = true → ∀ store, store ∈ deps ↔ SuppliesLoad t load store
  last : p.memOooStores = false → ∀ store, store ∈ deps ↔
    SuppliesLoad t load store ∧ ∀ o, SuppliesLoad t load o → o.opNum ≤ store.opNum
  none : (∀ store, ¬ SuppliesLoad t load store) → deps = []

/-- The source that a store is for a load. -/
def memSource (store : Op) : SrcInfo := .ofEntry .memData (.ofOp store)

/-! ## The store that supplies a byte -/

theorem mem_accessLocs_of (op : Op) (va : Addr) :
    Loc.of va ∈ accessLocs op.va op.memSize ↔ ∃ i < op.memSize.toNat, va = byteAddr op.va i := by
  rw [mem_accessLocs]
  constructor
  · rintro ⟨i, hi, heq⟩
    exact ⟨i, hi, Loc.of_inj heq⟩
  · rintro ⟨i, hi, heq⟩
    exact ⟨i, hi, congrArg Loc.of heq⟩

theorem byteWrite_eq_some (op : Op) (va : Addr) (b : Option Op) :
    byteWrite (Loc.of va) op = some b ↔ op.Writes va ∧ b = some op := by
  simp only [byteWrite, Op.Writes, mem_accessLocs_of]
  split
  · rename_i h
    simp [h, eq_comm]
  · rename_i h
    simp [h]

theorem byteWrite_eq_none (op : Op) (va : Addr) : byteWrite (Loc.of va) op = none ↔ ¬ op.Writes va := by
  constructor
  · intro hnone hwrites
    rw [(byteWrite_eq_some op va _).mpr ⟨hwrites, rfl⟩] at hnone
    cases hnone
  · intro hnot
    cases hw : byteWrite (Loc.of va) op with
    | none => rfl
    | some b => exact absurd ((byteWrite_eq_some op va b).mp hw).1 hnot

/-- In a list of ops in order, the last writer of a byte is the youngest. -/
theorem latest_byteWrite_iff {ops : List Op} (hlt : ops.Pairwise fun a b => a.opNum < b.opNum)
    (va : Addr) (store : Op) : (latest (byteWrite (Loc.of va)) ops).getD none = some store ↔
      store ∈ ops ∧ store.Writes va ∧ ∀ o ∈ ops, o.Writes va → o.opNum ≤ store.opNum := by
  constructor
  · intro hread
    have hlast : latest (byteWrite (Loc.of va)) ops = some (some store) := by
      cases hl : latest (byteWrite (Loc.of va)) ops with
      | none => simp [hl] at hread
      | some b => simpa [hl] using hread
    obtain ⟨pre, o, post, rfl, ho, hpost⟩ := History.exists_of_latest hlast
    obtain ⟨hwrites, heq⟩ := (byteWrite_eq_some o va _).mp ho
    obtain rfl := Option.some.inj heq
    refine ⟨by simp, hwrites, ?_⟩
    intro c hc hcwrites
    have horder := List.pairwise_append.mp hlt
    cases List.mem_append.mp hc with
    | inl hpre => exact (horder.2.2 c hpre store (by simp)).le
    | inr hrest =>
        cases List.mem_cons.mp hrest with
        | inl heq => exact heq ▸ Nat.le_refl _
        | inr hlater => exact absurd hcwrites ((byteWrite_eq_none c va).mp (hpost c hlater))
  · rintro ⟨hmem, hwrites, hmax⟩
    obtain ⟨pre, post, rfl⟩ := List.append_of_mem hmem
    have horder := (List.pairwise_append.mp hlt).2.1
    have hnew : latest (byteWrite (Loc.of va)) (pre ++ [store]) = some (some store) :=
      History.latest_concat_of_some ((byteWrite_eq_some store va _).mpr ⟨hwrites, rfl⟩)
    have hpost : ∀ o ∈ post, byteWrite (Loc.of va) o = none := by
      intro o ho
      apply (byteWrite_eq_none o va).mpr
      intro howrites
      have := (List.pairwise_cons.mp horder).1 o ho
      have := hmax o (by simp [ho]) howrites
      omega
    rw [List.append_cons, History.latest_append_of_none hpost, hnew]
    rfl

/-- The store that is found for a byte is the one that supplies it. -/
theorem readByte_iff (hs : Reachable p t) (hobey : p.memObeyStoreDep = true) (hnext : t.Next op)
    (va : Addr) (store : Op) : t.map.readByte va = some store ↔ Supplies t op va store := by
  have ho := hs.ordered
  rw [readByte_eq, hs.tracked.read_byte ho hobey, latest_byteWrite_iff ho.seq_pairwise]
  constructor
  · rintro ⟨hmem, hwrites, hmax⟩
    have := ho.opNum_lt (List.mem_append_right _ hmem)
    exact ⟨hmem, hnext.1 ▸ this, hwrites, hmax⟩
  · intro h
    exact ⟨h.inFlight, h.writes, h.youngest⟩

/-! ## The search -/

/-- What the search has gathered when it has seen some stores. -/
structure Gathered (p : Params) (srcs : List SrcInfo) (seen : List Op) (v : DepSearch) : Prop where
  srcs : v.srcs = srcs ++ v.marked.map memSource
  once : v.marked.Nodup
  marked : p.memOooStores = true → ∀ o, o ∈ v.marked ↔ o ∈ seen
  unmarked : p.memOooStores = false → v.marked = []
  empty : v.lastSrcOp = none → seen = []
  last : ∀ l, v.lastSrcOp = some l → l ∈ seen ∧ ∀ o ∈ seen, o.opNum ≤ l.opNum

theorem laterOf_spec (last : Option Op) (srcOp : Op) :
    ∃ l, laterOf last srcOp = some l ∧ (l = srcOp ∨ last = some l) ∧ srcOp.opNum ≤ l.opNum ∧
      ∀ o, last = some o → o.opNum ≤ l.opNum := by
  cases last with
  | none => exact ⟨srcOp, rfl, .inl rfl, Nat.le_refl _, fun o ho => by cases ho⟩
  | some l =>
      by_cases hlt : l.opNum < srcOp.opNum
      · refine ⟨srcOp, by simp [laterOf, hlt], .inl rfl, Nat.le_refl _, ?_⟩
        intro o ho
        cases ho
        exact hlt.le
      · refine ⟨l, by simp [laterOf, hlt], .inr rfl, Nat.le_of_not_lt hlt, ?_⟩
        intro o ho
        cases ho
        exact Nat.le_refl _

theorem addSrc_ok {srcs srcs' : List SrcInfo} {info : SrcInfo} (h : addSrc op srcs info = .ok srcs') :
    srcs' = srcs ++ [info] := by
  obtain ⟨_, h⟩ := Execution.ite_error_eq_ok.mp h
  obtain ⟨_, h⟩ := Execution.ite_error_eq_ok.mp h
  exact (Except.ok.inj h).symm

/-- The variables after one more store. -/
theorem found_ok {v v' : DepSearch} {srcOp : Op} (h : v.found p op srcOp = .ok v') :
    v'.lastSrcOp = laterOf v.lastSrcOp srcOp ∧
      (p.memOooStores = true ∧ srcOp ∉ v.marked ∧ v'.srcs = v.srcs ++ [memSource srcOp] ∧
          v'.marked = v.marked ++ [srcOp] ∨
        ¬ (p.memOooStores = true ∧ srcOp ∉ v.marked) ∧ v'.srcs = v.srcs ∧ v'.marked = v.marked) := by
  obtain ⟨_, h⟩ := Execution.ite_error_eq_ok.mp h
  by_cases hnew : p.memOooStores = true ∧ srcOp ∉ v.marked
  · rw [if_pos hnew] at h
    obtain ⟨srcs, hsrcs, h⟩ := Execution.bind_eq_ok.mp h
    cases h
    exact ⟨rfl, .inl ⟨hnew.1, hnew.2, addSrc_ok hsrcs, rfl⟩⟩
  · rw [if_neg hnew] at h
    obtain ⟨w, hw, h⟩ := Execution.bind_eq_ok.mp h
    cases hw
    cases h
    exact ⟨rfl, .inr ⟨hnew, rfl, rfl⟩⟩

theorem Gathered.found {srcs : List SrcInfo} {seen : List Op} {v v' : DepSearch} {srcOp : Op}
    (h : Gathered p srcs seen v) (hf : v.found p op srcOp = .ok v') :
    Gathered p srcs (seen ++ [srcOp]) v' := by
  obtain ⟨hlast, hcase⟩ := found_ok hf
  obtain ⟨l, hl, hfrom, hle, hold⟩ := laterOf_spec v.lastSrcOp srcOp
  have hempty : v'.lastSrcOp = none → seen ++ [srcOp] = [] := by
    intro hnone
    rw [hlast, hl] at hnone
    cases hnone
  have hmax : ∀ m, v'.lastSrcOp = some m →
      m ∈ seen ++ [srcOp] ∧ ∀ o ∈ seen ++ [srcOp], o.opNum ≤ m.opNum := by
    intro m hm
    obtain rfl : l = m := Option.some.inj (hl.symm.trans (hlast.symm.trans hm))
    constructor
    · cases hfrom with
      | inl heq => simp [heq]
      | inr hprev => exact List.mem_append_left _ (h.last l hprev).1
    · intro o ho
      cases List.mem_append.mp ho with
      | inl hseen =>
          cases hprev : v.lastSrcOp with
          | none =>
              rw [h.empty hprev] at hseen
              cases hseen
          | some m => exact ((h.last m hprev).2 o hseen).trans (hold m hprev)
      | inr hnew => exact List.mem_singleton.mp hnew ▸ hle
  cases hcase with
  | inl hadd =>
      obtain ⟨hooo, hnot, hsrcs, hmarked⟩ := hadd
      refine ⟨?_, ?_, fun _ o => ?_, fun hin => ?_, hempty, hmax⟩
      · rw [hsrcs, hmarked, h.srcs, List.map_append, List.append_assoc]
        rfl
      · rw [hmarked]
        exact List.nodup_append.mpr ⟨h.once, List.nodup_singleton _, fun a ha b hb hab =>
          hnot (List.mem_singleton.mp hb ▸ hab ▸ ha)⟩
      · rw [hmarked, List.mem_append, List.mem_append, h.marked hooo]
      · rw [hin] at hooo
        cases hooo
  | inr hskip =>
      obtain ⟨hnot, hsrcs, hmarked⟩ := hskip
      refine ⟨?_, ?_, fun hooo o => ?_, fun hin => ?_, hempty, hmax⟩
      · rw [hsrcs, hmarked, h.srcs]
      · rw [hmarked]
        exact h.once
      · have hseen : srcOp ∈ seen := (h.marked hooo _).mp (by_contra fun hmem => hnot ⟨hooo, hmem⟩)
        rw [hmarked, h.marked hooo, List.mem_append]
        refine ⟨.inl, fun ho => ?_⟩
        cases ho with
        | inl hold => exact hold
        | inr hnew => exact List.mem_singleton.mp hnew ▸ hseen
      · rw [hmarked]
        exact h.unmarked hin

theorem gathered_nil (srcs : List SrcInfo) : Gathered p srcs [] ⟨srcs, [], none⟩ :=
  ⟨by simp, List.nodup_nil, by simp, fun _ => rfl, fun _ => rfl, fun l hl => by cases hl⟩

/-- The search over a list of bytes, with the stores that were found for them. -/
theorem Gathered.search {m : MapData} {srcs : List SrcInfo} {locs : List Loc} {seen : List Op}
    {v v' : DepSearch} (h : Gathered p srcs seen v)
    (hrun : locs.foldlM (fun v l => v.supply p op (byteCell m l).read) v = .ok v') :
    Gathered p srcs (seen ++ locs.filterMap fun l => (byteCell m l).read) v' := by
  induction locs generalizing v seen with
  | nil =>
      cases hrun
      simpa using h
  | cons l locs ih =>
      rw [List.foldlM_cons] at hrun
      obtain ⟨w, hw, hrest⟩ := Execution.bind_eq_ok.mp hrun
      cases hread : (byteCell m l).read with
      | none =>
          rw [hread] at hw
          cases hw
          simp only [List.filterMap_cons, hread]
          exact ih h hrest
      | some srcOp =>
          rw [hread] at hw
          simp only [List.filterMap_cons, hread]
          rw [List.append_cons]
          exact ih (h.found hw) hrest

/-- The stores that the search finds are those that supply a byte of the load. -/
theorem mem_found_iff (hs : Reachable p t) (hobey : p.memObeyStoreDep = true) (hnext : t.Next op)
    (store : Op) : store ∈ (accessLocs op.va op.memSize).filterMap (fun l => (byteCell t.map l).read) ↔
      SuppliesLoad t op store := by
  rw [List.mem_filterMap]
  constructor
  · rintro ⟨l, hl, hread⟩
    obtain ⟨i, hi, rfl⟩ := (mem_accessLocs op.va op.memSize l).mp hl
    rw [← readByte_eq] at hread
    exact ⟨i, hi, (readByte_iff hs hobey hnext _ store).mp hread⟩
  · rintro ⟨i, hi, hsupplies⟩
    refine ⟨_, (mem_accessLocs op.va op.memSize _).mpr ⟨i, hi, rfl⟩, ?_⟩
    rw [← readByte_eq]
    exact (readByte_iff hs hobey hnext _ store).mpr hsupplies

/-- `add_store_deps` adds the sources for the stores that the load is to depend on. -/
theorem addStoreDeps_ok {m : MapData} {srcs srcs' : List SrcInfo} {seen : List Op}
    (hseen : ((accessLocs op.va op.memSize).filterMap fun l => (byteCell m l).read) = seen)
    (hmem : ∀ o, o ∈ seen ↔ SuppliesLoad t op o) (ho : Ordered t)
    (h : addStoreDeps p m op srcs = .ok srcs') :
    ∃ deps, srcs' = srcs ++ deps.map memSource ∧ ExactDeps p t op deps := by
  obtain ⟨v, hv, h⟩ := Execution.bind_eq_ok.mp h
  rw [searchStores_eq] at hv
  have hgot := (gathered_nil srcs).search hv
  rw [List.nil_append, hseen] at hgot
  have hempty : (∀ store, ¬ SuppliesLoad t op store) → seen = [] := by
    intro hnone
    apply List.eq_nil_iff_forall_not_mem.mpr
    exact fun o ho => hnone o ((hmem o).mp ho)
  cases hlast : v.lastSrcOp with
  | none =>
      rw [hlast] at h
      obtain rfl : v.srcs = srcs' := Except.ok.inj h
      have hnil := hgot.empty hlast
      have hnone : ∀ store, ¬ SuppliesLoad t op store := fun store hst => by
        have := (hmem store).mpr hst
        rw [hnil] at this
        cases this
      refine ⟨[], ?_, List.nodup_nil, fun _ store => ?_, fun _ store => ?_, fun _ => rfl⟩
      · cases hooo : p.memOooStores with
        | true =>
            have hmarked : v.marked = [] := by
              apply List.eq_nil_iff_forall_not_mem.mpr
              intro o ho
              rw [hgot.marked hooo, hnil] at ho
              cases ho
            rw [hgot.srcs, hmarked]
        | false => rw [hgot.srcs, hgot.unmarked hooo]
      · simp [hnone store]
      · simp [hnone store]
  | some last =>
      rw [hlast] at h
      obtain ⟨_, h⟩ := Execution.ite_error_eq_ok.mp h
      obtain ⟨hlastmem, hmax⟩ := hgot.last last hlast
      cases hooo : p.memOooStores with
      | true =>
          rw [if_pos hooo] at h
          obtain rfl : v.srcs = srcs' := Except.ok.inj h
          refine ⟨v.marked, hgot.srcs, hgot.once, fun _ store => ?_, ?_, fun hnone => ?_⟩
          · rw [hgot.marked hooo, hmem]
          · intro hin
            rw [hooo] at hin
            cases hin
          · apply List.eq_nil_iff_forall_not_mem.mpr
            intro o ho
            rw [hgot.marked hooo, hempty hnone] at ho
            cases ho
      | false =>
          rw [if_neg (by simp [hooo])] at h
          have hsrcs := addSrc_ok h
          rw [hgot.srcs, hgot.unmarked hooo, List.map_nil, List.append_nil] at hsrcs
          refine ⟨[last], hsrcs, List.nodup_singleton _, ?_, fun _ store => ?_, fun hnone => ?_⟩
          · intro hin
            rw [hooo] at hin
            cases hin
          · rw [List.mem_singleton]
            constructor
            · rintro rfl
              exact ⟨(hmem _).mp hlastmem, fun o ho => hmax o ((hmem o).mpr ho)⟩
            · rintro ⟨hstore, hyoungest⟩
              -- ops in flight with the same number are the same
              have hge := hyoungest last ((hmem last).mp hlastmem)
              have hle := hmax store ((hmem store).mpr hstore)
              obtain ⟨_, _, hsup⟩ := hstore
              obtain ⟨_, _, hsup'⟩ := (hmem last).mp hlastmem
              exact ho.eq_of_opNum hsup.inFlight hsup'.inFlight (Nat.le_antisymm hle hge)
          · rw [hempty hnone] at hlastmem
            cases hlastmem

/-! ## The assertions -/

theorem addSrc_error {srcs : List SrcInfo} {info : SrcInfo} {e : String}
    (hlt : info.opNum < op.opNum) (h : addSrc op srcs info = .error e) : e = "src_num < MAX_DEPS" := by
  cases Execution.ite_error_eq_error.mp h with
  | inl hroom => simp [hlt] at hroom
  | inr hfull => exact hfull.2.symm

/-- What is read is older than the op that reads. -/
theorem readReg_lt (hs : Reachable p t) (hnext : t.Next op) (id : ℕ) :
    (t.map.readReg id).opNum < op.opNum := by
  have ho := hs.ordered
  rw [MapData.readReg, hs.tracked.read_reg ho, hnext.1]
  cases hlast : latest (regWrite id) t.path with
  | none =>
      have := ho.count
      simp only [Option.getD_none, MapEntry.invalid]
      omega
  | some e =>
      obtain ⟨pre, o, post, hsplit, hwrite, _⟩ := History.exists_of_latest hlast
      unfold regWrite at hwrite
      split at hwrite
      · cases hwrite
        exact ho.opNum_lt (by simp [hsplit])
      · cases hwrite

theorem readStore_lt (hs : Reachable p t) (hnext : t.Next op) : t.map.readStore.opNum < op.opNum := by
  have ho := hs.ordered
  rw [MapData.readStore, hs.tracked.read_store ho, hnext.1]
  cases hlast : latest storeWrite t.path with
  | none =>
      have := ho.count
      simp only [Option.getD_none, MapEntry.invalid]
      omega
  | some e =>
      obtain ⟨pre, o, post, hsplit, hwrite, _⟩ := History.exists_of_latest hlast
      unfold storeWrite at hwrite
      split at hwrite
      · cases hwrite
        exact ho.opNum_lt (by simp [hsplit])
      · cases hwrite

/-- A store that supplies a byte of a load overlaps it. -/
theorem byteOverlap_of_supplies {store : Op} (h : SuppliesLoad t op store) :
    byteOverlap store.va store.memSize op.va op.memSize = true := by
  obtain ⟨i, hi, hsup⟩ := h
  obtain ⟨_, j, hj, heq⟩ := hsup.writes
  have hnat := congrArg BitVec.toNat heq
  rw [toNat_byteAddr, toNat_byteAddr] at hnat
  have hsize := store.memSize.isLt
  have hsize' := op.memSize.isLt
  simp only [byteOverlap, Bool.or_eq_true, decide_eq_true_eq, BitVec.lt_def, BitVec.toNat_sub,
    BitVec.toNat_setWidth]
  omega

theorem readRegMap_ok {m : MapData} {srcs srcs' : List SrcInfo} (h : readRegMap m op srcs = .ok srcs') :
    srcs' = srcs ++ op.srcs.map fun id => .ofEntry .regData (m.readReg id) := by
  unfold readRegMap at h
  generalize op.srcs = ids at h ⊢
  induction ids generalizing srcs with
  | nil =>
      cases h
      simp
  | cons id ids ih =>
      rw [List.foldlM_cons] at h
      obtain ⟨mid, hmid, hrest⟩ := Execution.bind_eq_ok.mp h
      rw [ih hrest, addSrc_ok hmid, List.append_assoc]
      rfl

theorem readStoreMap_ok {m : MapData} {srcs srcs' : List SrcInfo}
    (h : readStoreMap p m op srcs = .ok srcs') :
    srcs' = srcs ∨ srcs' = srcs ++ [.ofEntry .memAddr m.readStore] := by
  unfold readStoreMap at h
  split at h
  · exact .inl (Except.ok.inj h).symm
  · split at h
    · exact .inr (addSrc_ok h)
    · exact .inl (Except.ok.inj h).symm

/-- Every store that is found for a byte of the load passes the assertions. -/
theorem found_error {v : DepSearch} {srcOp : Op} {e : String} (hsup : SuppliesLoad t op srcOp)
    (h : v.found p op srcOp = .error e) : e = "src_num < MAX_DEPS" := by
  have hold : srcOp.opNum < op.opNum := by
    obtain ⟨_, _, h⟩ := hsup
    exact h.older
  unfold DepSearch.found at h
  rw [if_pos (byteOverlap_of_supplies hsup)] at h
  by_cases hnew : p.memOooStores = true ∧ srcOp ∉ v.marked
  · rw [if_pos hnew] at h
    cases Execution.bind_eq_error.mp h with
    | inl hadd => exact addSrc_error hold hadd
    | inr hrest =>
        obtain ⟨_, _, hret⟩ := hrest
        cases hret
  · rw [if_neg hnew] at h
    cases h

/-- An op can always be mapped, unless it has too many sources. -/
theorem threadMap_error (hs : Reachable p t) (hnext : t.Next op) {e : String}
    (h : threadMap p t.map op = .error e) : e = "src_num < MAX_DEPS" := by
  have ho := hs.ordered
  have hreg : ∀ srcs, readRegMap t.map op srcs = .error e → e = "src_num < MAX_DEPS" := by
    intro srcs hfail
    obtain ⟨id, _, srcs', hadd⟩ := Execution.foldlM_eq_error hfail
    exact addSrc_error (readReg_lt hs hnext id) hadd
  have hstore : ∀ srcs, readStoreMap p t.map op srcs = .error e → e = "src_num < MAX_DEPS" := by
    intro srcs hfail
    unfold readStoreMap at hfail
    split at hfail
    · cases hfail
    · split at hfail
      · exact addSrc_error (readStore_lt hs hnext) hfail
      · cases hfail
  have hdeps : ∀ srcs, p.memObeyStoreDep = true →
      addStoreDeps p (updateMap t.map op) op srcs = .error e → e = "src_num < MAX_DEPS" := by
    intro srcs hobey hfail
    have hfound := mem_found_iff hs hobey hnext
    cases Execution.bind_eq_error.mp hfail with
    | inl hsearch =>
        rw [searchStores_eq] at hsearch
        obtain ⟨l, hl, v, hsup⟩ := Execution.foldlM_eq_error hsearch
        rw [byteCell_updateMap] at hsup
        cases hread : (byteCell t.map l).read with
        | none =>
            rw [hread] at hsup
            cases hsup
        | some srcOp =>
            rw [hread] at hsup
            exact found_error
              ((hfound srcOp).mp (List.mem_filterMap.mpr ⟨l, hl, hread⟩)) hsup
    | inr hrest =>
        obtain ⟨v, hv, hrest⟩ := hrest
        rw [searchStores_eq] at hv
        simp only [byteCell_updateMap] at hv
        have hgot := (gathered_nil srcs).search hv
        cases hlast : v.lastSrcOp with
        | none =>
            rw [hlast] at hrest
            cases hrest
        | some last =>
            have hsup := (hfound last).mp (by simpa using (hgot.last last hlast).1)
            have hold : last.opNum < op.opNum := by
              obtain ⟨_, _, h⟩ := hsup
              exact h.older
            rw [hlast] at hrest
            simp only [hold, true_or, if_true] at hrest
            split at hrest
            · cases hrest
            · exact addSrc_error hold hrest
  cases Execution.bind_eq_error.mp h with
  | inl hop =>
      cases Execution.bind_eq_error.mp hop with
      | inl hfail => exact hreg _ hfail
      | inr hrest =>
          obtain ⟨_, _, hrest⟩ := hrest
          cases Execution.bind_eq_error.mp hrest with
          | inl hfail => exact hstore _ hfail
          | inr hret =>
              obtain ⟨_, _, hret⟩ := hret
              cases hret
  | inr hdep =>
      obtain ⟨⟨srcs, m⟩, hop, hdep⟩ := hdep
      obtain ⟨_, _, hop⟩ := Execution.bind_eq_ok.mp hop
      obtain ⟨_, _, hop⟩ := Execution.bind_eq_ok.mp hop
      cases hop
      simp only [mapMemDep] at hdep
      split at hdep
      · rename_i hobey
        split at hdep
        · cases Execution.bind_eq_error.mp hdep with
          | inl hfail => exact hdeps _ hobey hfail
          | inr hret =>
              obtain ⟨_, _, hret⟩ := hret
              cases hret
        · cases hdep
      · cases hdep

/-! ## The dependences of a load -/

/-- When a load is mapped, the store found for each of its bytes is the youngest older store in
flight that writes the byte, and its memory dependences are exactly these stores, or the youngest
of them; nothing but too many sources stops the mapping. -/
theorem store_deps_exact (hs : Reachable p t) (hobey : p.memObeyStoreDep = true) (hnext : t.Next op)
    (hld : op.memType = .ld) :
    (∀ i < op.memSize.toNat, ∀ store, t.map.readByte (byteAddr op.va i) = some store ↔
      Supplies t op (byteAddr op.va i) store) ∧
    (∀ srcs m, threadMap p t.map op = .ok (srcs, m) → ∃ others deps,
      srcs = others ++ deps.map memSource ∧ (∀ src ∈ others, src.type ≠ .memData) ∧
        ExactDeps p t op deps) ∧
    ∀ e, threadMap p t.map op = .error e → e = "src_num < MAX_DEPS" := by
  refine ⟨fun i _ store => readByte_iff hs hobey hnext _ store, ?_, fun e => threadMap_error hs hnext⟩
  intro srcs m hmap
  obtain ⟨⟨others, m'⟩, hop, hdep⟩ := Execution.bind_eq_ok.mp hmap
  obtain ⟨regs, hregs, hop⟩ := Execution.bind_eq_ok.mp hop
  obtain ⟨others', hstore, hop⟩ := Execution.bind_eq_ok.mp hop
  cases hop
  have hothers : ∀ src ∈ others, src.type ≠ .memData := by
    have hreg : ∀ src ∈ regs, src.type ≠ .memData := by
      rw [readRegMap_ok hregs, List.nil_append]
      intro src hsrc
      obtain ⟨id, _, rfl⟩ := List.mem_map.mp hsrc
      simp [SrcInfo.ofEntry]
    cases readStoreMap_ok hstore with
    | inl hsame => exact hsame ▸ hreg
    | inr hadd =>
        rw [hadd]
        intro src hsrc
        cases List.mem_append.mp hsrc with
        | inl hold => exact hreg src hold
        | inr hnew =>
            rw [List.mem_singleton.mp hnew]
            simp [SrcInfo.ofEntry]
  simp only [mapMemDep, hobey, hld, if_true] at hdep
  obtain ⟨srcs', hadd, hret⟩ := Execution.bind_eq_ok.mp hdep
  cases hret
  obtain ⟨deps, hsrcs, hexact⟩ := addStoreDeps_ok (t := t) rfl (by
    simp only [byteCell_updateMap]
    exact mem_found_iff hs hobey hnext) hs.ordered hadd
  exact ⟨others, deps, hsrcs, hothers, hexact⟩

/-- Two stores that overlap, the second across two entries, and a load of bytes of both. -/
def overlapping : List Event :=
  [.fetch ⟨1, 0, false, [], [], .st, 0x1000, 8⟩ false,
    .fetch ⟨2, 1, false, [], [], .st, 0x1006, 4⟩ false]

def overlappingLoad : Op := ⟨3, 2, false, [1], [1], .ld, 0x1004, 8⟩

theorem store_deps_exact_overlap :
    ∃ t, Execution.run (Thread.step .default) .init overlapping = .ok t ∧
      (∀ store, t.map.readByte (byteAddr 0x1004 2) = some store ↔
        Supplies t overlappingLoad (byteAddr 0x1004 2) store) ∧
      ∀ srcs m, threadMap .default t.map overlappingLoad = .ok (srcs, m) → ∃ others deps,
        srcs = others ++ deps.map memSource ∧ (∀ src ∈ others, src.type ≠ .memData) ∧
          ExactDeps .default t overlappingLoad deps := by
  have hok : (Execution.run (Thread.step .default) .init overlapping).isOk = true := by
    decide +kernel
  obtain ⟨t, ht⟩ := Execution.exists_ok hok
  have hfront : (fun t : Thread => decide (t.Next overlappingLoad)) <$>
      Execution.run (Thread.step .default) .init overlapping = .ok true := by
    decide +kernel
  rw [ht] at hfront
  have hnext : t.Next overlappingLoad := of_decide_eq_true (Except.ok.inj hfront)
  obtain ⟨hbyte, hdeps, _⟩ := store_deps_exact ⟨_, ht⟩ rfl hnext rfl
  exact ⟨t, ht, hbyte 2 (by decide), hdeps⟩

end Scarab.Map
