import Mathlib.Data.List.Basic
import Scarab.Prefetcher.GhbChain
import Scarab.Prefetcher.Stride

/-! # The entry that is given up

The index table of the global history buffer and the region table of the stride prefetcher note the
last access of an entry for LRU. In a full table a new zone or region takes the entry that was
accessed last, and not the one that was accessed longest ago. -/

namespace Scarab

variable {valid : ℕ → Bool} {lastAccess : ℕ → Uns} {n : ℕ}

/-- The search goes on from its best entry to one that no other is younger than. -/
theorem victimFrom_newest {l : List ℕ} (hvalid : ∀ ii ∈ l, valid ii = true) (best : ℕ) :
    ∃ idx ∈ best :: l, victimFrom valid lastAccess l (some best) = some idx ∧
      ∀ ii ∈ best :: l, lastAccess ii ≤ lastAccess idx := by
  induction l generalizing best with
  | nil =>
      refine ⟨best, List.mem_singleton_self best, rfl, fun ii hii => ?_⟩
      rw [List.mem_singleton.mp hii]
      exact BitVec.le_refl _
  | cons first l ih =>
      have hrest : ∀ ii ∈ l, valid ii = true := fun ii hii => hvalid ii (List.mem_cons_of_mem _ hii)
      rw [victimFrom, if_pos (hvalid first List.mem_cons_self)]
      by_cases hlt : lastAccess best < lastAccess first
      · obtain ⟨idx, hmem, hvictim, hnewest⟩ := ih hrest first
        rw [if_pos hlt]
        refine ⟨idx, List.mem_cons_of_mem _ hmem, hvictim, List.forall_mem_cons.mpr ⟨?_, hnewest⟩⟩
        exact BitVec.le_trans (BitVec.le_of_lt hlt) (hnewest first List.mem_cons_self)
      · obtain ⟨idx, hmem, hvictim, hnewest⟩ := ih hrest best
        obtain ⟨hbest, hall⟩ := List.forall_mem_cons.mp hnewest
        rw [if_neg hlt]
        refine ⟨idx, ?_, hvictim, List.forall_mem_cons.mpr ⟨hbest, List.forall_mem_cons.mpr ⟨?_, hall⟩⟩⟩
        · rcases List.mem_cons.mp hmem with heq | hmem
          · exact heq ▸ List.mem_cons_self
          · exact List.mem_cons_of_mem _ (List.mem_cons_of_mem _ hmem)
        · exact BitVec.le_trans (BitVec.not_lt.mp hlt) hbest

/-- In a full table the entry that was accessed last is given up. -/
theorem victim_newest (hn : 0 < n) (hvalid : ∀ ii < n, valid ii = true) :
    ∃ idx < n, victim n valid lastAccess = some idx ∧ ∀ ii < n, lastAccess ii ≤ lastAccess idx := by
  obtain ⟨n, rfl⟩ := Nat.exists_eq_add_of_le' hn
  have hrange : List.range (n + 1) = 0 :: (List.range n).map Nat.succ := List.range_succ_eq_map
  have hall : ∀ ii ∈ (List.range n).map Nat.succ, valid ii = true := fun ii hii => by
    refine hvalid ii (List.mem_range.mp ?_)
    rw [hrange]
    exact List.mem_cons_of_mem _ hii
  obtain ⟨idx, hmem, hvictim, hnewest⟩ := @victimFrom_newest valid lastAccess _ hall 0
  rw [← hrange] at hmem hnewest
  refine ⟨idx, List.mem_range.mp hmem, ?_, fun ii hii => hnewest ii (List.mem_range.mpr hii)⟩
  rw [victim, hrange, victimFrom, if_pos (hvalid 0 (Nat.succ_pos n))]
  exact hvictim

/-- Some entry is given up, and no other one was accessed earlier. -/
def GivesUpOldest (n : ℕ) (lastAccess : ℕ → Uns) (replaced : Option ℕ) : Prop :=
  ∃ idx < n, replaced = some idx ∧ ∀ ii < n, lastAccess idx ≤ lastAccess ii

/-- There are entries, and all were accessed in the same cycle. -/
def SameAccess (n : ℕ) (lastAccess : ℕ → Uns) : Prop := 0 < n ∧ ∀ ii < n, ∀ jj < n, lastAccess ii = lastAccess jj

instance (n : ℕ) (lastAccess : ℕ → Uns) (replaced : Option ℕ) : Decidable (GivesUpOldest n lastAccess replaced) :=
  inferInstanceAs (Decidable (∃ idx < n, replaced = some idx ∧ ∀ ii < n, lastAccess idx ≤ lastAccess ii))

theorem victim_oldest_iff (hvalid : ∀ ii < n, valid ii = true) :
    GivesUpOldest n lastAccess (victim n valid lastAccess) ↔ SameAccess n lastAccess := by
  constructor
  · rintro ⟨idx, hidx, hvictim, holdest⟩
    have hn : 0 < n := Nat.zero_lt_of_lt hidx
    obtain ⟨idx', -, hvictim', hnewest⟩ := @victim_newest valid lastAccess n hn hvalid
    obtain rfl : idx = idx' := Option.some.inj (hvictim.symm.trans hvictim')
    have hall : ∀ ii < n, lastAccess ii = lastAccess idx := fun ii hii =>
      BitVec.le_antisymm (hnewest ii hii) (holdest ii hii)
    exact ⟨hn, fun ii hii jj hjj => (hall ii hii).trans (hall jj hjj).symm⟩
  · rintro ⟨hn, hsame⟩
    obtain ⟨idx, hidx, hvictim, -⟩ := @victim_newest valid lastAccess n hn hvalid
    exact ⟨idx, hidx, hvictim, fun ii hii => BitVec.le_of_eq (hsame idx hidx ii hii)⟩

/-- The entry of the region table that an address without a region takes. -/
def Stride.PrefStride.creates (p : Stride.Params) (s : Stride.PrefStride) (lineAddr : Addr) (ul1Hit : Bool) : Option ℕ :=
  match s.lookup p lineAddr with
  | some _ => none
  | none =>
      if ul1Hit then none
      else victim p.tableN (fun ii => (s.regionTable ii).valid) fun ii => (s.regionTable ii).lastAccess

/-- The training of a new region is `pref_stride_create_newentry` for that entry. -/
theorem Stride.train_creates {p : Stride.Params} {s : Stride.PrefStride} {κ : Type} (addto : Ul1Queue κ) {lineAddr : Addr}
    {ul1Hit : Bool} {idx : ℕ} (cycleCount : Uns) (k : κ) (h : s.creates p lineAddr ul1Hit = some idx) :
    prefStrideUl1Train p addto s lineAddr ul1Hit cycleCount k =
      (prefStrideCreateNewentry p s idx lineAddr (lineAddr >>> p.regionBits) cycleCount, k) := by
  unfold PrefStride.creates at h
  unfold prefStrideUl1Train
  cases hlookup : s.lookup p lineAddr with
  | some ii =>
      rw [hlookup] at h
      cases h
  | none =>
      rw [hlookup] at h
      cases ul1Hit with
      | true => cases h
      | false =>
          have hvictim : victim p.tableN (fun ii => (s.regionTable ii).valid)
              (fun ii => (s.regionTable ii).lastAccess) = some idx := h
          simp only [hvictim]
          rfl

/-- The entry of the index table that is given up for a new zone. -/
theorem Ghb.creates_eq_victim {p : Ghb.Params} {s : Ghb.PrefGhb} {lineAddr : Addr} (hlookup : s.lookup p lineAddr = none) :
    s.creates p lineAddr false =
      victim p.indexN (fun ii => (s.indexTable ii).valid) fun ii => (s.indexTable ii).lastAccess := by
  unfold PrefGhb.creates PrefGhb.czone
  rw [hlookup]
  cases victim p.indexN (fun ii => (s.indexTable ii).valid) fun ii => (s.indexTable ii).lastAccess with
  | none => rfl
  | some idx => rfl

/-- A miss in a new zone or region, where no entry is invalid, replaces an entry whose last access
is the oldest exactly if all entries were accessed in the same cycle. -/
theorem replaces_oldest_iff (p : Ghb.Params) (s : Ghb.PrefGhb) (q : Stride.Params) (t : Stride.PrefStride) (lineAddr : Addr) :
    (s.lookup p lineAddr = none → (∀ ii < p.indexN, (s.indexTable ii).valid = true) →
      (GivesUpOldest p.indexN (fun ii => (s.indexTable ii).lastAccess) (s.creates p lineAddr false) ↔
        SameAccess p.indexN fun ii => (s.indexTable ii).lastAccess)) ∧
    (t.lookup q lineAddr = none → (∀ ii < q.tableN, (t.regionTable ii).valid = true) →
      (GivesUpOldest q.tableN (fun ii => (t.regionTable ii).lastAccess) (t.creates q lineAddr false) ↔
        SameAccess q.tableN fun ii => (t.regionTable ii).lastAccess)) := by
  constructor
  · intro hlookup hvalid
    rw [Ghb.creates_eq_victim hlookup]
    exact victim_oldest_iff hvalid
  · intro hlookup hvalid
    unfold Stride.PrefStride.creates
    rw [hlookup]
    exact victim_oldest_iff hvalid

/-- Two entries in each table. -/
def Ghb.Params.twoZones : Ghb.Params := { Ghb.Params.default with bufferN := 4, indexN := 2 }

def Stride.Params.twoRegions : Stride.Params := { Stride.Params.default with tableN := 2 }

def Ghb.PrefGhb.sameCycle : Ghb.PrefGhb :=
  ⟨0, fun ii => ⟨BitVec.ofNat 64 ii, true, 0, 5⟩, fun _ => ⟨0, -1, -1, -1⟩, 1, 0, 34, fun _ => 0, 16⟩

def Stride.PrefStride.sameCycle : Stride.PrefStride :=
  { Stride.prefStrideInit 0 with regionTable := fun ii => ⟨BitVec.ofNat 64 ii, true, 5⟩ }

/-- Two entries of the same cycle. -/
theorem replaces_oldest_iff_same_cycle :
    GivesUpOldest 2 (fun _ => 5) (Ghb.PrefGhb.sameCycle.creates Ghb.Params.twoZones 0x50000 false) ∧
    GivesUpOldest 2 (fun _ => 5) (Stride.PrefStride.sameCycle.creates Stride.Params.twoRegions 0x50000 false) := by
  obtain ⟨hghb, hstride⟩ := replaces_oldest_iff Ghb.Params.twoZones Ghb.PrefGhb.sameCycle Stride.Params.twoRegions
    Stride.PrefStride.sameCycle 0x50000
  exact ⟨(hghb (by decide) fun _ _ => rfl).mpr ⟨by decide, fun _ _ _ _ => rfl⟩,
    (hstride (by decide) fun _ _ => rfl).mpr ⟨by decide, fun _ _ _ _ => rfl⟩⟩

/-- After misses in two zones, or regions, at the cycles 1 and 2, a third one takes the entry of the
second one. -/
theorem replaces_newest :
    (∃ m : Ghb.Machine ℕ, (Ghb.Machine.init Ghb.Params.twoZones 0 (fun _ => 0) (fun _ => 0) (fun _ => 0) 0).run
        Ghb.Params.twoZones (fun _ k => (true, k + 1))
        [⟨0, 0x1000, 0, false, 1, none, fun _ => 0, 4⟩, ⟨0, 0x2000, 0, false, 2, none, fun _ => 0, 4⟩] = .ok m ∧
      m.ghb.lookup Ghb.Params.twoZones 0x3000 = none ∧ (∀ ii < 2, (m.ghb.indexTable ii).valid = true) ∧
      ¬ GivesUpOldest 2 (fun ii => (m.ghb.indexTable ii).lastAccess)
        (m.ghb.creates Ghb.Params.twoZones 0x3000 false)) ∧
    ∃ s : Stride.PrefStride,
      (let p := Stride.Params.twoRegions
        let addto : Ul1Queue ℕ := fun _ k => (true, k + 1)
        let s := (Stride.prefStrideUl1Miss p addto 0 (Stride.prefStrideInit 0) 0x10000 1 0).1
        (Stride.prefStrideUl1Miss p addto 0 s 0x20000 2 0).1) = s ∧
      s.lookup Stride.Params.twoRegions 0x30000 = none ∧
      (∀ ii < 2, (s.regionTable ii).valid = true) ∧
      ¬ GivesUpOldest 2 (fun ii => (s.regionTable ii).lastAccess)
        (s.creates Stride.Params.twoRegions 0x30000 false) := by
  constructor
  · have hrun : (fun m : Ghb.Machine ℕ => decide (m.ghb.lookup Ghb.Params.twoZones 0x3000 = none) &&
        ((List.range 2).all (fun ii => (m.ghb.indexTable ii).valid) &&
        decide (¬ GivesUpOldest 2 (fun ii => (m.ghb.indexTable ii).lastAccess)
          (m.ghb.creates Ghb.Params.twoZones 0x3000 false)))) <$>
        (Ghb.Machine.init Ghb.Params.twoZones 0 (fun _ => 0) (fun _ => 0) (fun _ => 0) 0).run
          Ghb.Params.twoZones (fun _ k => (true, k + 1))
          [⟨0, 0x1000, 0, false, 1, none, fun _ => 0, 4⟩, ⟨0, 0x2000, 0, false, 2, none, fun _ => 0, 4⟩] = .ok true := by
      decide +kernel
    obtain ⟨m, hm, hobs⟩ := Execution.map_eq_ok.mp hrun
    rw [Bool.and_eq_true, Bool.and_eq_true] at hobs
    have hvalid := List.all_eq_true.mp hobs.2.1
    exact ⟨m, hm, of_decide_eq_true hobs.1, fun ii hii => hvalid ii (List.mem_range.mpr hii), of_decide_eq_true hobs.2.2⟩
  · exact ⟨_, rfl, by decide +kernel⟩

end Scarab
