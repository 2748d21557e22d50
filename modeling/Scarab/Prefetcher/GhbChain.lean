import Scarab.Lib.Cyclic
import Scarab.Prefetcher.Ghb

/-! # The chains of the global history buffer

The entries of a zone are linked from the newest to the oldest. The buffer is a ring, so that the entry
number `k` is in slot `k % bufferN` until as many entries as there are slots came after it. -/

namespace Scarab.Ghb

variable (p : Params)

/-! ## Runs -/

/-- The entries that were made: the index entry and the line address of each. -/
structure History where
  count : ℕ
  idx : ℕ → ℕ
  line : ℕ → Addr

def History.add (h : History) (idx : ℕ) (line : Addr) : History where
  count := h.count + 1
  idx := Function.update h.idx h.count idx
  line := Function.update h.line h.count line

/-- An entry that was made and not overwritten. -/
def History.Live (h : History) (n k : ℕ) : Prop := k < h.count ∧ h.count ≤ k + n

/-- `CZONE_TAG`, of an entry. -/
def History.zone (h : History) (k : ℕ) : Addr := h.line k >>> p.czoneBits

/-- The index entry for which an access makes an entry of the buffer, if it does. -/
def PrefGhb.creates (s : PrefGhb) (lineAddr : Addr) (ul1Hit : Bool) : Option ℕ :=
  match s.czone p lineAddr ul1Hit with
  | none => none
  | some (czoneIdx, oldPtr) =>
      if oldPtr ≠ -1 ∧ (s.entry oldPtr).missIndex = lineAddr >>> p.log2Line then none else some czoneIdx

/-- What the training is called with. -/
structure Access where
  procId : Uns8
  lineAddr : Addr
  loadPC : Addr
  ul1Hit : Bool
  cycleCount : Uns
  throttled : Option ℕ
  stray : ℤ → CInt
  turns : ℕ

structure Machine (κ : Type) where
  ghb : PrefGhb
  queue : κ
  history : History

variable {κ : Type} (addto : Ul1Queue κ)

/-- `pref_ghb_ul1_train` for an access. -/
def Machine.train (m : Machine κ) (a : Access) : Except String (PrefGhb × κ) :=
  prefGhbUl1Train p addto a.procId m.ghb a.lineAddr a.loadPC a.ul1Hit a.cycleCount a.throttled a.stray a.turns m.queue

def Machine.step (m : Machine κ) (a : Access) : Except String (Machine κ) := do
  let (ghb, queue) ← m.train p addto a
  return ⟨ghb, queue,
    match m.ghb.creates p a.lineAddr a.ul1Hit with
    | none => m.history
    | some idx => m.history.add idx a.lineAddr⟩

abbrev Machine.run : Machine κ → List Access → Except String (Machine κ) := Execution.run (Machine.step p addto)

/-- The prefetcher after `pref_ghb_init`. -/
def Machine.init (hwpId : Uns8) (czoneTag : ℕ → Addr) (ghbPtr : ℕ → ℤ) (missIndex : ℕ → Addr) (queue : κ) :
    Machine κ where
  ghb := prefGhbInit p hwpId czoneTag ghbPtr missIndex
  queue
  history := ⟨0, fun _ => 0, fun _ => 0⟩

/-- The pointer after a number of links. -/
def PrefGhb.follow (s : PrefGhb) : ℕ → ℤ → ℤ
  | 0, ptr => ptr
  | n + 1, ptr => if ptr = -1 then -1 else PrefGhb.follow s n (s.entry ptr).ghbPtr

/-! ## The links -/

variable {p} {addto} {s s' : PrefGhb} {h : History} {m m' : Machine κ} {k idx : ℕ}

/-- A slot holds an entry, which is linked to an older live entry of its zone, or to none. -/
structure PrefGhb.Linked (p : Params) (s : PrefGhb) (h : History) (k : ℕ) : Prop where
  missIndex : (s.ghbBuffer (k % p.bufferN)).missIndex = h.line k >>> p.log2Line
  idxReversePtr : (s.ghbBuffer (k % p.bufferN)).idxReversePtr = h.idx k
  ghbPtr : (s.ghbBuffer (k % p.bufferN)).ghbPtr ≠ -1 → ∃ j < k, h.Live p.bufferN j ∧
    (s.ghbBuffer (k % p.bufferN)).ghbPtr = (j % p.bufferN : ℕ) ∧ h.idx j = h.idx k ∧ h.zone p j = h.zone p k ∧
      (s.ghbBuffer (j % p.bufferN)).ghbReversePtr = (k % p.bufferN : ℕ)

/-- An index entry points to the last entry that was made for it. -/
def PrefGhb.Indexed (p : Params) (s : PrefGhb) (h : History) (i : ℕ) : Prop :=
  ∃ j, h.Live p.bufferN j ∧ h.idx j = i ∧ (∀ k < h.count, h.idx k = i → k ≤ j) ∧
    (s.indexTable i).ghbPtr = (j % p.bufferN : ℕ) ∧ h.zone p j = (s.indexTable i).czoneTag

structure PrefGhb.Sound (p : Params) (s : PrefGhb) (h : History) : Prop where
  tail : s.ghbTail = if h.count = 0 then -1 else (((h.count - 1) % p.bufferN : ℕ) : ℤ)
  linked : ∀ k, h.Live p.bufferN k → s.Linked p h k
  indexed : ∀ i, (s.indexTable i).valid = true → s.Indexed p h i
  idxReverse : ∀ x, -1 ≤ (s.ghbBuffer x).idxReversePtr

theorem PrefGhb.Sound.init (hwpId : Uns8) (czoneTag : ℕ → Addr) (ghbPtr : ℕ → ℤ) (missIndex : ℕ → Addr) :
    (prefGhbInit p hwpId czoneTag ghbPtr missIndex).Sound p ⟨0, fun _ => 0, fun _ => 0⟩ where
  tail := rfl
  linked := fun k hlive => absurd hlive.1 (Nat.not_lt_zero k)
  indexed := fun _ hvalid => Bool.noConfusion hvalid
  idxReverse := fun _ => Int.le_refl _

/-- Live entries are in different slots. -/
theorem History.Live.slot_inj {j : ℕ} (hj : h.Live p.bufferN j) (hk : h.Live p.bufferN k)
    (heq : j % p.bufferN = k % p.bufferN) : j = k := by
  obtain ⟨hj₁, hj₂⟩ := hj
  obtain ⟨hk₁, hk₂⟩ := hk
  rcases Nat.lt_trichotomy j k with hlt | hsame | hlt
  · exact (Cyclic.mod_ne_of_lt hlt (by omega) heq).elim
  · exact hsame
  · exact (Cyclic.mod_ne_of_lt hlt (by omega) heq.symm).elim

/-- Links lead to ever older live entries of the same zone. -/
theorem PrefGhb.Sound.follow (hs : s.Sound p h) (hk : h.Live p.bufferN k) (n : ℕ) :
    s.follow n (k % p.bufferN : ℕ) = -1 ∨ ∃ j, h.Live p.bufferN j ∧ j + n ≤ k ∧
      s.follow n (k % p.bufferN : ℕ) = (j % p.bufferN : ℕ) ∧ h.idx j = h.idx k ∧ h.zone p j = h.zone p k := by
  induction n generalizing k with
  | zero => exact .inr ⟨k, hk, Nat.le_refl k, rfl, rfl, rfl⟩
  | succ n ih =>
      have hstep : s.follow (n + 1) (k % p.bufferN : ℕ) = s.follow n (s.ghbBuffer (k % p.bufferN)).ghbPtr := if_neg (by omega)
      rw [hstep]
      by_cases hend : (s.ghbBuffer (k % p.bufferN)).ghbPtr = -1
      · rw [hend]
        refine .inl ?_
        cases n with
        | zero => rfl
        | succ n => rfl
      · obtain ⟨j, hlt, hlive, hptr, hidx, hzone, _⟩ := (hs.linked k hk).ghbPtr hend
        rw [hptr]
        cases ih hlive with
        | inl hdone => exact .inl hdone
        | inr hmore =>
            obtain ⟨j', hlive', hle, hptr', hidx', hzone'⟩ := hmore
            exact .inr ⟨j', hlive', by omega, hptr', hidx'.trans hidx, hzone'.trans hzone⟩

/-- A chain is not longer than the buffer. -/
theorem PrefGhb.Sound.follow_bufferN (hs : s.Sound p h) (hk : h.Live p.bufferN k) :
    s.follow p.bufferN (k % p.bufferN : ℕ) = -1 := by
  cases hs.follow hk p.bufferN with
  | inl hdone => exact hdone
  | inr hmore =>
      obtain ⟨j, ⟨_, hold⟩, hle, _⟩ := hmore
      have hlt := hk.1
      omega

/-! ## A new entry -/

variable {lineAddr czoneTag : Addr} {oldPtr tail : ℤ} {cycleCount : Uns}

section

variable (s) (idx : ℕ) (ptr : ℤ) (e : GhbEntry) (ie : IndexTableEntry)

@[simp] theorem PrefGhb.setEntry_tail : (s.setEntry ptr e).ghbTail = s.ghbTail := rfl

@[simp] theorem PrefGhb.setEntry_indexTable : (s.setEntry ptr e).indexTable = s.indexTable := rfl

@[simp] theorem PrefGhb.setEntry_ghbBuffer : (s.setEntry ptr e).ghbBuffer = Function.update s.ghbBuffer ptr.toNat e := rfl

@[simp] theorem PrefGhb.setIndex_tail : (s.setIndex idx ie).ghbTail = s.ghbTail := rfl

@[simp] theorem PrefGhb.setIndex_indexTable : (s.setIndex idx ie).indexTable = Function.update s.indexTable idx ie := rfl

@[simp] theorem PrefGhb.setIndex_ghbBuffer : (s.setIndex idx ie).ghbBuffer = s.ghbBuffer := rfl

@[simp] theorem PrefGhb.moveTail_tail : (s.moveTail p).ghbTail = (s.ghbTail + 1) % p.bufferN := rfl

@[simp] theorem PrefGhb.moveTail_indexTable : (s.moveTail p).indexTable = s.indexTable := rfl

@[simp] theorem PrefGhb.moveTail_ghbBuffer : (s.moveTail p).ghbBuffer = s.ghbBuffer := rfl

/-- The entry that is about to be overwritten. -/
def PrefGhb.oldest : GhbEntry := s.ghbBuffer s.ghbTail.toNat

@[simp] theorem PrefGhb.cutTail_tail : (s.cutTail idx).ghbTail = s.ghbTail := by
  rw [PrefGhb.cutTail]
  dsimp only
  split
  · split <;> rfl
  · split <;> rfl

/-- The link to the oldest entry is cut. -/
theorem PrefGhb.cutTail_slot (x : ℕ) : (s.cutTail idx).ghbBuffer x = { s.ghbBuffer x with
    ghbPtr := if s.oldest.ghbReversePtr ≠ -1 ∧ x = s.oldest.ghbReversePtr.toNat then -1 else (s.ghbBuffer x).ghbPtr } := by
  have hindex (t : PrefGhb) (c : Prop) [Decidable c] (i : ℕ) (ie : IndexTableEntry) :
      (if c then t.setIndex i ie else t).ghbBuffer = t.ghbBuffer := by split <;> rfl
  rw [PrefGhb.cutTail]
  dsimp only
  rw [hindex]
  change (if s.oldest.ghbReversePtr ≠ -1 then _ else s).ghbBuffer x = _
  by_cases hrev : s.oldest.ghbReversePtr ≠ -1
  · rw [if_pos hrev]
    change Function.update s.ghbBuffer s.oldest.ghbReversePtr.toNat _ x = _
    by_cases hx : x = s.oldest.ghbReversePtr.toNat
    · subst hx
      rw [Function.update_self, if_pos ⟨hrev, rfl⟩]
      rfl
    · rw [Function.update_of_ne hx, if_neg fun hboth => hx hboth.2]
  · rw [if_neg hrev, if_neg fun hboth => hrev hboth.1]

/-- The index entry whose last entry is the oldest one becomes invalid. -/
theorem PrefGhb.cutTail_indexTable : (s.cutTail idx).indexTable =
    if s.oldest.idxReversePtr ≠ -1 ∧ (s.indexTable s.oldest.idxReversePtr.toNat).ghbPtr = s.ghbTail ∧
        s.oldest.idxReversePtr ≠ idx then
      Function.update s.indexTable s.oldest.idxReversePtr.toNat
        { s.indexTable s.oldest.idxReversePtr.toNat with ghbPtr := -1, valid := false }
    else s.indexTable := by
  have hcut : ∃ t : PrefGhb, t.indexTable = s.indexTable ∧ t.ghbTail = s.ghbTail ∧ s.cutTail idx =
      if s.oldest.idxReversePtr ≠ -1 ∧ (t.indexTable s.oldest.idxReversePtr.toNat).ghbPtr = t.ghbTail ∧
          s.oldest.idxReversePtr ≠ idx then
        t.setIndex s.oldest.idxReversePtr.toNat
          { t.indexTable s.oldest.idxReversePtr.toNat with ghbPtr := -1, valid := false }
      else t :=
    ⟨if s.oldest.ghbReversePtr ≠ -1 then s.setEntry s.oldest.ghbReversePtr
      { s.entry s.oldest.ghbReversePtr with ghbPtr := -1 } else s, by split <;> rfl, by split <;> rfl, rfl⟩
  obtain ⟨t, hindexTable, htail, hcut⟩ := hcut
  rw [hindexTable, htail] at hcut
  rw [hcut]
  split
  · rw [PrefGhb.setIndex_indexTable, hindexTable]
  · exact hindexTable

theorem PrefGhb.cutTail_index {i : ℕ} (hi : i ≠ idx) (hvalid : ((s.cutTail idx).indexTable i).valid = true) :
    (s.cutTail idx).indexTable i = s.indexTable i ∧
      ¬ (s.oldest.idxReversePtr = i ∧ (s.indexTable i).ghbPtr = s.ghbTail) := by
  rw [PrefGhb.cutTail_indexTable] at hvalid ⊢
  split at hvalid
  · rename_i hcond
    rw [if_pos hcond]
    by_cases hsame : i = s.oldest.idxReversePtr.toNat
    · rw [← hsame, Function.update_self] at hvalid
      exact Bool.noConfusion hvalid
    · rw [Function.update_of_ne hsame]
      exact ⟨rfl, fun hboth => hsame (by omega)⟩
  · rename_i hcond
    rw [if_neg hcond]
    refine ⟨rfl, fun hboth => hcond ⟨by omega, ?_, by omega⟩⟩
    rw [hboth.1, Int.toNat_natCast]
    exact hboth.2

theorem PrefGhb.cutTail_index_self (hrev : -1 ≤ s.oldest.idxReversePtr) :
    (s.cutTail idx).indexTable idx = s.indexTable idx := by
  rw [PrefGhb.cutTail_indexTable]
  split
  · rename_i hcond
    exact Function.update_of_ne (by omega) _ _
  · rfl

/-! The states of `pref_ghb_create_newentry`. -/

variable (p) (lineAddr czoneTag : Addr) (kept : ℤ) (cycleCount : Uns)

def PrefGhb.moved : PrefGhb := (s.setIndex idx ⟨czoneTag, true, (s.indexTable idx).ghbPtr, cycleCount⟩).moveTail p

def PrefGhb.placed : PrefGhb :=
  let t := (s.moved p idx czoneTag cycleCount).cutTail idx
  t.setEntry t.ghbTail ⟨lineAddr >>> p.log2Line, kept, -1, idx⟩

def PrefGhb.linkBack : PrefGhb :=
  if kept ≠ -1 then s.setEntry kept { s.entry kept with ghbReversePtr := s.ghbTail } else s

theorem create_eq (oldPtr : ℤ) (hkept : kept = if (s.ghbTail + 1) % p.bufferN = oldPtr then -1 else oldPtr) :
    prefGhbCreateNewentry p s idx lineAddr czoneTag oldPtr cycleCount =
      let t := (s.placed p idx lineAddr czoneTag kept cycleCount).linkBack kept
      t.setIndex idx { t.indexTable idx with ghbPtr := t.ghbTail } := by
  subst hkept
  rfl

@[simp] theorem PrefGhb.linkBack_tail : (s.linkBack kept).ghbTail = s.ghbTail := by
  rw [PrefGhb.linkBack]
  split <;> rfl

@[simp] theorem PrefGhb.linkBack_indexTable : (s.linkBack kept).indexTable = s.indexTable := by
  rw [PrefGhb.linkBack]
  split <;> rfl

theorem PrefGhb.linkBack_slot (x : ℕ) : (s.linkBack kept).ghbBuffer x = { s.ghbBuffer x with
    ghbReversePtr := if kept ≠ -1 ∧ x = kept.toNat then s.ghbTail else (s.ghbBuffer x).ghbReversePtr } := by
  rw [PrefGhb.linkBack]
  by_cases hkept : kept ≠ -1
  · rw [if_pos hkept, PrefGhb.setEntry_ghbBuffer]
    by_cases hx : x = kept.toNat
    · subst hx
      rw [Function.update_self, if_pos ⟨hkept, rfl⟩]
      rfl
    · rw [Function.update_of_ne hx, if_neg fun hboth => hx hboth.2]
  · rw [if_neg hkept, if_neg fun hboth => hkept hboth.1]

end

variable {czoneTag lineAddr : Addr} {oldPtr kept : ℤ} {slot : ℕ} {cycleCount : Uns}

/-- What a new entry leaves of the buffer: its slot is written, the link to it is cut, and the entry it
links to gets a link back. -/
structure Creates (p : Params) (s : PrefGhb) (idx : ℕ) (lineAddr czoneTag : Addr) (kept : ℤ) (slot : ℕ)
    (s' : PrefGhb) : Prop where
  tail : s'.ghbTail = slot
  new : s'.ghbBuffer slot = ⟨lineAddr >>> p.log2Line, kept, -1, idx⟩
  missIndex : ∀ x, x ≠ slot → (s'.ghbBuffer x).missIndex = (s.ghbBuffer x).missIndex
  idxReversePtr : ∀ x, x ≠ slot → (s'.ghbBuffer x).idxReversePtr = (s.ghbBuffer x).idxReversePtr
  ghbPtr : ∀ x, x ≠ slot → (s'.ghbBuffer x).ghbPtr ≠ -1 → (s'.ghbBuffer x).ghbPtr = (s.ghbBuffer x).ghbPtr ∧
    (s.ghbBuffer slot).ghbReversePtr ≠ x
  reverse : ∀ x, x ≠ slot → (kept = -1 ∨ x ≠ kept.toNat) →
    (s'.ghbBuffer x).ghbReversePtr = (s.ghbBuffer x).ghbReversePtr
  back : kept ≠ -1 → (s'.ghbBuffer kept.toNat).ghbReversePtr = slot
  index : s'.indexTable idx = ⟨czoneTag, true, slot, (s'.indexTable idx).lastAccess⟩
  others : ∀ i, i ≠ idx → (s'.indexTable i).valid = true → s'.indexTable i = s.indexTable i ∧
    ¬ ((s.ghbBuffer slot).idxReversePtr = i ∧ (s.indexTable i).ghbPtr = slot)

theorem PrefGhb.moved_oldest (htail : (s.ghbTail + 1) % p.bufferN = slot) :
    (s.moved p idx czoneTag cycleCount).oldest = s.ghbBuffer slot := by
  rw [PrefGhb.oldest]
  rw [show (s.moved p idx czoneTag cycleCount).ghbTail = slot from htail]
  rfl

theorem PrefGhb.placed_slot (htail : (s.ghbTail + 1) % p.bufferN = slot) (x : ℕ) :
    (s.placed p idx lineAddr czoneTag kept cycleCount).ghbBuffer x =
      Function.update ((s.moved p idx czoneTag cycleCount).cutTail idx).ghbBuffer slot
        ⟨lineAddr >>> p.log2Line, kept, -1, idx⟩ x := by
  rw [PrefGhb.placed]
  rw [PrefGhb.setEntry_ghbBuffer, PrefGhb.cutTail_tail]
  rw [show (s.moved p idx czoneTag cycleCount).ghbTail = slot from htail, Int.toNat_natCast]

theorem create_creates (htail : (s.ghbTail + 1) % p.bufferN = slot) (hkept : kept = if (slot : ℤ) = oldPtr then -1 else oldPtr)
    (hslot : kept ≠ -1 → kept.toNat ≠ slot) (hrev : -1 ≤ (s.ghbBuffer slot).idxReversePtr) :
    Creates p s idx lineAddr czoneTag kept slot (prefGhbCreateNewentry p s idx lineAddr czoneTag oldPtr cycleCount) := by
  let moved := s.moved p idx czoneTag cycleCount
  have hmoved : moved.ghbTail = slot := htail
  have holdest : moved.oldest = s.ghbBuffer slot := PrefGhb.moved_oldest htail
  rw [create_eq p s idx lineAddr czoneTag kept cycleCount oldPtr (htail ▸ hkept)]
  have hplacedTail : (s.placed p idx lineAddr czoneTag kept cycleCount).ghbTail = slot := by
    rw [PrefGhb.placed]
    rw [PrefGhb.setEntry_tail, PrefGhb.cutTail_tail]
    exact hmoved
  have hold (x : ℕ) (hx : x ≠ slot) : (s.placed p idx lineAddr czoneTag kept cycleCount).ghbBuffer x =
      (moved.cutTail idx).ghbBuffer x := by
    rw [PrefGhb.placed_slot htail, Function.update_of_ne hx]
  have hindex : (s.placed p idx lineAddr czoneTag kept cycleCount).indexTable = (moved.cutTail idx).indexTable := rfl
  dsimp only
  constructor
  · rw [PrefGhb.setIndex_tail, PrefGhb.linkBack_tail, hplacedTail]
  · rw [PrefGhb.setIndex_ghbBuffer, PrefGhb.linkBack_slot, PrefGhb.placed_slot htail, Function.update_self, if_neg]
    exact fun hboth => hslot hboth.1 hboth.2.symm
  · intro x hx
    rw [PrefGhb.setIndex_ghbBuffer, PrefGhb.linkBack_slot, hold x hx, PrefGhb.cutTail_slot]
    rfl
  · intro x hx
    rw [PrefGhb.setIndex_ghbBuffer, PrefGhb.linkBack_slot, hold x hx, PrefGhb.cutTail_slot]
    rfl
  · intro x hx hptr
    rw [PrefGhb.setIndex_ghbBuffer, PrefGhb.linkBack_slot, hold x hx, PrefGhb.cutTail_slot, holdest] at hptr ⊢
    dsimp only at hptr ⊢
    split at hptr
    · exact (hptr rfl).elim
    · rename_i hnot
      rw [if_neg hnot]
      exact ⟨rfl, fun hrev => hnot ⟨by omega, by omega⟩⟩
  · intro x hx hother
    rw [PrefGhb.setIndex_ghbBuffer, PrefGhb.linkBack_slot, hold x hx, PrefGhb.cutTail_slot]
    dsimp only
    rw [if_neg]
    · rfl
    · rintro ⟨h₁, h₂⟩
      cases hother with
      | inl hnone => exact h₁ hnone
      | inr hne => exact hne h₂
  · intro hne
    rw [PrefGhb.setIndex_ghbBuffer, PrefGhb.linkBack_slot, hplacedTail]
    dsimp only
    rw [if_pos ⟨hne, rfl⟩]
  · rw [PrefGhb.setIndex_indexTable, PrefGhb.linkBack_indexTable, PrefGhb.linkBack_tail, hplacedTail, hindex,
      Function.update_self]
    -- the zone and the flag were set before, and the cut leaves them
    rw [PrefGhb.cutTail_index_self moved idx (holdest ▸ hrev)]
    simp [moved, PrefGhb.moved]
  · intro i hi hvalid
    rw [PrefGhb.setIndex_indexTable, PrefGhb.linkBack_indexTable, hindex, Function.update_of_ne hi] at hvalid ⊢
    obtain ⟨heq, hnot⟩ := PrefGhb.cutTail_index moved idx hi hvalid
    rw [holdest, hmoved] at hnot
    have hmovedIndex : moved.indexTable i = s.indexTable i := Function.update_of_ne hi _ _
    rw [hmovedIndex] at heq hnot
    exact ⟨heq, hnot⟩

/-! ## One access -/

theorem PrefGhb.Sound.nextTail (hs : s.Sound p h) : (s.ghbTail + 1) % p.bufferN = (h.count % p.bufferN : ℕ) := by
  rw [hs.tail]
  split
  · rename_i hzero
    rw [hzero]
    simp
  · rename_i hsome
    have hnat : ((h.count - 1) % p.bufferN + 1) % p.bufferN = h.count % p.bufferN := by
      rw [Nat.mod_add_mod, Nat.sub_add_cancel (by omega)]
    exact_mod_cast hnat

/-- An entry that is live with one more is live before, and not in the slot of the new one. -/
theorem History.Live.before {lineAddr : Addr} (hk : (h.add idx lineAddr).Live p.bufferN k) (hne : k ≠ h.count) :
    h.Live p.bufferN k ∧ k % p.bufferN ≠ h.count % p.bufferN := by
  have h₁ : k < h.count + 1 := hk.1
  have h₂ : h.count + 1 ≤ k + p.bufferN := hk.2
  exact ⟨⟨by omega, by omega⟩, Cyclic.mod_ne_of_lt (by omega) (by omega)⟩

theorem History.Live.after {lineAddr : Addr} (hk : h.Live p.bufferN k) (hslot : k % p.bufferN ≠ h.count % p.bufferN) :
    (h.add idx lineAddr).Live p.bufferN k := by
  obtain ⟨h₁, h₂⟩ := hk
  refine ⟨Nat.lt_succ_of_lt h₁, ?_⟩
  by_contra hlt
  have hold : h.count = k + p.bufferN := by
    change ¬ h.count + 1 ≤ k + p.bufferN at hlt
    omega
  rw [hold, Nat.add_mod_right] at hslot
  exact hslot rfl

theorem History.add_idx (lineAddr : Addr) (hk : k < h.count) : (h.add idx lineAddr).idx k = h.idx k :=
  Function.update_of_ne (by omega) _ _

theorem History.add_line (lineAddr : Addr) (hk : k < h.count) : (h.add idx lineAddr).line k = h.line k :=
  Function.update_of_ne (by omega) _ _

/-- What a new entry links to is the last entry of its index entry, unless its slot is that one's. -/
theorem PrefGhb.Sound.keeps_last (hs : s.Sound p h) (hold : oldPtr = -1 ∨ (s.indexTable idx).valid = true ∧
      (s.indexTable idx).ghbPtr = oldPtr ∧ (s.indexTable idx).czoneTag = lineAddr >>> p.czoneBits)
    (hkept : kept = if (slot : ℤ) = oldPtr then -1 else oldPtr) (hsome : kept ≠ -1) :
    ∃ j, h.Live p.bufferN j ∧ h.idx j = idx ∧ (∀ k < h.count, h.idx k = idx → k ≤ j) ∧
      kept = (j % p.bufferN : ℕ) ∧ j % p.bufferN ≠ slot ∧ h.zone p j = lineAddr >>> p.czoneBits := by
  split at hkept
  · exact (hsome hkept).elim
  · rename_i hne
    cases hold with
    | inl hnone => exact (hsome (hkept.trans hnone)).elim
    | inr hsome =>
        obtain ⟨hvalid, hptr, htag⟩ := hsome
        obtain ⟨j, hlive, hidx, hlast, hptr', hzone⟩ := hs.indexed idx hvalid
        rw [hptr] at hptr'
        exact ⟨j, hlive, hidx, hlast, hkept.trans hptr', fun hsame => hne (by rw [hptr', hsame]), hzone.trans htag⟩

theorem PrefGhb.Sound.creates (hs : s.Sound p h) (hold : oldPtr = -1 ∨ (s.indexTable idx).valid = true ∧
      (s.indexTable idx).ghbPtr = oldPtr ∧ (s.indexTable idx).czoneTag = lineAddr >>> p.czoneBits) (cycleCount : Uns) :
    Creates p s idx lineAddr (lineAddr >>> p.czoneBits) (if ((h.count % p.bufferN : ℕ) : ℤ) = oldPtr then -1 else oldPtr)
      (h.count % p.bufferN) (prefGhbCreateNewentry p s idx lineAddr (lineAddr >>> p.czoneBits) oldPtr cycleCount) := by
  refine create_creates hs.nextTail rfl (fun hkept => ?_) (hs.idxReverse _)
  obtain ⟨j, _, _, _, heq, hne, _⟩ := hs.keeps_last hold rfl hkept
  rw [heq, Int.toNat_natCast]
  exact hne

theorem PrefGhb.Sound.create (hs : s.Sound p h) (hpos : 0 < p.bufferN)
    (hold : oldPtr = -1 ∨ (s.indexTable idx).valid = true ∧ (s.indexTable idx).ghbPtr = oldPtr ∧
      (s.indexTable idx).czoneTag = lineAddr >>> p.czoneBits) :
    (prefGhbCreateNewentry p s idx lineAddr (lineAddr >>> p.czoneBits) oldPtr cycleCount).Sound p (h.add idx lineAddr) := by
  let slot := h.count % p.bufferN
  let kept := if (slot : ℤ) = oldPtr then -1 else oldPtr
  -- what the new entry links to
  have hlink : kept ≠ -1 → ∃ j, h.Live p.bufferN j ∧ h.idx j = idx ∧ (∀ k < h.count, h.idx k = idx → k ≤ j) ∧
      kept = (j % p.bufferN : ℕ) ∧ j % p.bufferN ≠ slot ∧ h.zone p j = lineAddr >>> p.czoneBits := hs.keeps_last hold rfl
  have hcreates : Creates p s idx lineAddr (lineAddr >>> p.czoneBits) kept slot
      (prefGhbCreateNewentry p s idx lineAddr (lineAddr >>> p.czoneBits) oldPtr cycleCount) := hs.creates hold cycleCount
  generalize prefGhbCreateNewentry p s idx lineAddr (lineAddr >>> p.czoneBits) oldPtr cycleCount = s' at hcreates ⊢
  have hnew : (h.add idx lineAddr).idx h.count = idx := Function.update_self _ _ _
  have hnewLine : (h.add idx lineAddr).line h.count = lineAddr := Function.update_self _ _ _
  have hnewLive : (h.add idx lineAddr).Live p.bufferN h.count := by
    refine ⟨Nat.lt_succ_self _, ?_⟩
    change h.count + 1 ≤ h.count + p.bufferN
    omega
  have hzone (k : ℕ) (hk : k < h.count) : (h.add idx lineAddr).zone p k = h.zone p k := by
    unfold History.zone
    rw [History.add_line lineAddr hk]
  constructor
  · rw [hcreates.tail]
    exact (if_neg (Nat.succ_ne_zero h.count)).symm
  · intro k hk
    by_cases hlast : k = h.count
    · subst hlast
      constructor
      · rw [hcreates.new, hnewLine]
      · rw [hcreates.new, hnew]
      · intro hptr
        rw [hcreates.new] at hptr ⊢
        obtain ⟨j, hlive, hidx, _, heq, hne, hz⟩ := hlink hptr
        refine ⟨j, hlive.1, hlive.after hne, heq, ?_, ?_, ?_⟩
        · rw [hnew, History.add_idx lineAddr hlive.1, hidx]
        · rw [hzone j hlive.1, hz]
          rw [History.zone]
          rw [hnewLine]
        · have hback := hcreates.back hptr
          rw [heq, Int.toNat_natCast] at hback
          exact hback
    · obtain ⟨hlive, hne⟩ := hk.before hlast
      have hlinked := hs.linked k hlive
      constructor
      · rw [hcreates.missIndex _ hne, History.add_line lineAddr hlive.1]
        exact hlinked.missIndex
      · rw [hcreates.idxReversePtr _ hne, History.add_idx lineAddr hlive.1]
        exact hlinked.idxReversePtr
      · intro hptr
        obtain ⟨hsame, hcut⟩ := hcreates.ghbPtr _ hne hptr
        obtain ⟨j, hlt, hliveJ, heq, hidx, hz, hrev⟩ := hlinked.ghbPtr (hsame ▸ hptr)
        -- the entry it links to is not the one that is overwritten, or the link would be cut
        have hneJ : j % p.bufferN ≠ slot := by
          intro hover
          rw [hover] at hrev
          exact hcut hrev
        refine ⟨j, hlt, hliveJ.after hneJ, hsame.trans heq, ?_, ?_, ?_⟩
        · rw [History.add_idx lineAddr hliveJ.1, History.add_idx lineAddr hlive.1, hidx]
        · rw [hzone j hliveJ.1, hzone k hlive.1, hz]
        · rw [hcreates.reverse _ hneJ, hrev]
          -- the new entry links to the last one of its index entry, which nothing links to
          by_cases hkept : kept = -1
          · exact .inl hkept
          · obtain ⟨j', hlive', hidx', hlast', heq', _⟩ := hlink hkept
            refine .inr fun hover => ?_
            rw [heq', Int.toNat_natCast] at hover
            obtain rfl := hliveJ.slot_inj hlive' hover
            have hle := hlast' k hlive.1 (by rw [← hidx, hidx'])
            omega
  · intro i hvalid
    by_cases hi : i = idx
    · subst hi
      refine ⟨h.count, hnewLive, hnew, fun k hk _ => Nat.le_of_lt_succ hk, ?_, ?_⟩
      · rw [hcreates.index]
      · rw [hcreates.index]
        rw [History.zone]
        rw [hnewLine]
    · obtain ⟨hsame, hnot⟩ := hcreates.others i hi hvalid
      rw [hsame] at hvalid
      obtain ⟨j, hlive, hidx, hlast, heq, hz⟩ := hs.indexed i hvalid
      have hneJ : j % p.bufferN ≠ slot := by
        intro hover
        have hrev := (hs.linked j hlive).idxReversePtr
        rw [hover, hidx] at hrev
        exact hnot ⟨hrev, by rw [heq, hover]⟩
      refine ⟨j, hlive.after hneJ, ?_, ?_, ?_, ?_⟩
      · rw [History.add_idx lineAddr hlive.1, hidx]
      · intro k hk hidxK
        by_cases hnewK : k = h.count
        · rw [hnewK, hnew] at hidxK
          exact (hi hidxK.symm).elim
        · have hlt : k < h.count := Nat.lt_of_le_of_ne (Nat.le_of_lt_succ hk) hnewK
          rw [History.add_idx lineAddr hlt] at hidxK
          exact hlast k hlt hidxK
      · rw [hsame, heq]
      · rw [hsame, hzone j hlive.1, hz]
  · intro x
    by_cases hx : x = slot
    · rw [hx, hcreates.new]
      change (-1 : ℤ) ≤ (idx : ℤ)
      omega
    · rw [hcreates.idxReversePtr x hx]
      exact hs.idxReverse x

/-- The buffer and its index are the same. -/
structure PrefGhb.SameLinks (s s' : PrefGhb) : Prop where
  indexTable : s'.indexTable = s.indexTable
  ghbBuffer : s'.ghbBuffer = s.ghbBuffer
  ghbTail : s'.ghbTail = s.ghbTail

theorem PrefGhb.SameLinks.refl (s : PrefGhb) : s.SameLinks s := ⟨rfl, rfl, rfl⟩

theorem PrefGhb.SameLinks.trans {t : PrefGhb} (h : s.SameLinks s') (h' : s'.SameLinks t) : s.SameLinks t :=
  ⟨h'.indexTable.trans h.indexTable, h'.ghbBuffer.trans h.ghbBuffer, h'.ghbTail.trans h.ghbTail⟩

theorem PrefGhb.SameLinks.sound (hsame : s.SameLinks s') (hs : s.Sound p h) : s'.Sound p h := by
  obtain ⟨hindex, hbuffer, htail⟩ := hsame
  constructor
  · rw [htail]
    exact hs.tail
  · intro k hk
    obtain ⟨h₁, h₂, h₃⟩ := hs.linked k hk
    constructor
    · rw [hbuffer]
      exact h₁
    · rw [hbuffer]
      exact h₂
    · rw [hbuffer]
      exact h₃
  · intro i hvalid
    rw [hindex] at hvalid
    rw [PrefGhb.Indexed]
    rw [hindex]
    exact hs.indexed i hvalid
  · intro x
    rw [hbuffer]
    exact hs.idxReverse x

variable {stray : ℤ → CInt} {procId : Uns8} {loadPC : Addr} {v : Search} {queue : κ}

/-- A turn of the search goes one link back, and leaves the links. -/
theorem searchTurn_links {next : Option Search} {queue' : κ}
    (hturn : searchTurn p addto stray procId loadPC v s queue = .ok (next, s', queue')) :
    s.SameLinks s' ∧ ∀ v', next = some v' → v'.ghbIdx = (s.entry v.ghbIdx).ghbPtr := by
  unfold searchTurn Search.push Search.back at hturn
  dsimp only at hturn
  split at hturn
  · cases hturn
    exact ⟨.refl _, fun _ h => by cases h⟩
  · split at hturn
    · cases hturn
      exact ⟨⟨rfl, rfl, rfl⟩, fun _ h => by cases h; rfl⟩
    · split at hturn
      · cases hturn
        exact ⟨⟨rfl, rfl, rfl⟩, fun _ h => by cases h; rfl⟩
      · split at hturn
        · obtain ⟨mid, _, hret⟩ := Execution.bind_eq_ok.mp hturn
          cases hret
          exact ⟨⟨rfl, rfl, rfl⟩, fun _ h => by cases h; rfl⟩
        · split at hturn
          · obtain ⟨mid, _, hret⟩ := Execution.bind_eq_ok.mp hturn
            cases hret
            exact ⟨⟨rfl, rfl, rfl⟩, fun _ h => by cases h⟩
          · cases hturn
            exact ⟨⟨rfl, rfl, rfl⟩, fun _ h => by cases h; rfl⟩

theorem search_links {turns : ℕ} {out : PrefGhb × κ}
    (hsearch : search p addto stray procId loadPC turns v s queue = .ok out) : s.SameLinks out.1 := by
  induction turns generalizing v s queue with
  | zero =>
      cases hsearch
      exact .refl s
  | succ turns ih =>
      rw [search] at hsearch
      split at hsearch
      · obtain ⟨⟨next, s', queue'⟩, hturn, hrest⟩ := Execution.bind_eq_ok.mp hsearch
        have hlinks := (searchTurn_links hturn).1
        cases next with
        | some v' => exact hlinks.trans (ih hrest)
        | none =>
            cases hrest
            exact hlinks
      · cases hsearch
        exact .refl s

theorem PrefGhb.SameLinks.follow (hsame : s.SameLinks s') (n : ℕ) (ptr : ℤ) : s'.follow n ptr = s.follow n ptr := by
  induction n generalizing ptr with
  | zero => rfl
  | succ n ih =>
      unfold PrefGhb.follow PrefGhb.entry
      rw [hsame.ghbBuffer, ih]

/-- As many turns as the chain is long are enough. -/
theorem search_turns {n turns : ℕ} (hend : s.follow n v.ghbIdx = -1) (hturns : n ≤ turns) :
    search p addto stray procId loadPC turns v s queue = search p addto stray procId loadPC n v s queue := by
  induction n generalizing turns v s queue with
  | zero =>
      have hnone : v.ghbIdx = -1 := hend
      cases turns with
      | zero => rfl
      | succ turns =>
          unfold search
          rw [if_neg fun hcond => hcond.1 hnone]
  | succ n ih =>
      obtain ⟨turns, rfl⟩ := Nat.exists_eq_add_of_le' (Nat.le_trans (Nat.succ_le_succ (Nat.zero_le n)) hturns)
      unfold search
      split
      · rename_i hcond
        cases hturn : searchTurn p addto stray procId loadPC v s queue with
        | error e => rfl
        | ok out =>
            obtain ⟨next, s', queue'⟩ := out
            obtain ⟨hlinks, hback⟩ := searchTurn_links hturn
            cases next with
            | none => rfl
            | some v' =>
                refine ih ?_ (by omega)
                rw [hlinks.follow, hback v' rfl]
                rw [PrefGhb.follow] at hend
                rwa [if_neg hcond.1] at hend
      · rfl

/-! ## Every run -/

/-- A hit in the index table names the last entry of the zone; a new zone has none. -/
theorem czone_spec {ul1Hit : Bool} (hczone : s.czone p lineAddr ul1Hit = some (idx, oldPtr)) :
    oldPtr = -1 ∨ (s.indexTable idx).valid = true ∧ (s.indexTable idx).ghbPtr = oldPtr ∧
      (s.indexTable idx).czoneTag = lineAddr >>> p.czoneBits := by
  rw [PrefGhb.czone] at hczone
  cases hlookup : s.lookup p lineAddr with
  | some ii =>
      rw [hlookup] at hczone
      cases hczone
      have hfound := List.find?_some hlookup
      rw [Bool.and_eq_true, beq_iff_eq] at hfound
      exact .inr ⟨hfound.2, rfl, hfound.1.symm⟩
  | none =>
      rw [hlookup] at hczone
      dsimp only at hczone
      split at hczone
      · cases hczone
      · obtain ⟨ii, _, heq⟩ := Option.map_eq_some_iff.mp hczone
        cases heq
        exact .inl rfl

/-- The state in which an access searches. -/
def PrefGhb.created (p : Params) (s : PrefGhb) (idx : ℕ) (lineAddr : Addr) (oldPtr : ℤ) (cycleCount : Uns)
    (prefDegree : ℕ) : PrefGhb :=
  { prefGhbCreateNewentry p { s with prefDegree } idx lineAddr (lineAddr >>> p.czoneBits) oldPtr cycleCount with
    deltaBuffer := fun _ => 0 }

theorem PrefGhb.Sound.created {ul1Hit : Bool} (hs : s.Sound p h) (hpos : 0 < p.bufferN)
    (hczone : s.czone p lineAddr ul1Hit = some (idx, oldPtr)) (cycleCount : Uns) (prefDegree : ℕ) :
    (s.created p idx lineAddr oldPtr cycleCount prefDegree).Sound p (h.add idx lineAddr) := by
  have hdegree : s.SameLinks { s with prefDegree } := ⟨rfl, rfl, rfl⟩
  have hbuffer (t : PrefGhb) : t.SameLinks { t with deltaBuffer := fun _ => 0 } := ⟨rfl, rfl, rfl⟩
  exact (hbuffer _).sound ((hdegree.sound hs).create hpos (czone_spec hczone))

/-- An access leaves the buffer, or makes an entry and searches. -/
theorem Machine.step_cases {a : Access} (hstep : m.step p addto a = .ok m') :
    (m'.ghb = m.ghb ∧ m'.history = m.history) ∨
    ∃ czoneIdx oldPtr v, m.ghb.czone p a.lineAddr a.ul1Hit = some (czoneIdx, oldPtr) ∧
      m'.history = m.history.add czoneIdx a.lineAddr ∧
      search p addto a.stray a.procId a.loadPC a.turns v (m.ghb.created p czoneIdx a.lineAddr oldPtr a.cycleCount
        (a.throttled.getD m.ghb.prefDegree)) m.queue = .ok (m'.ghb, m'.queue) := by
  obtain ⟨⟨ghb, queue⟩, htrain, hret⟩ := Execution.bind_eq_ok.mp hstep
  cases hret
  dsimp only
  rw [Machine.train, prefGhbUl1Train] at htrain
  dsimp only at htrain
  rw [PrefGhb.creates]
  cases hczone : m.ghb.czone p a.lineAddr a.ul1Hit with
  | none =>
      rw [hczone] at htrain
      cases htrain
      exact .inl ⟨rfl, rfl⟩
  | some found =>
      obtain ⟨czoneIdx, oldPtr⟩ := found
      rw [hczone] at htrain
      dsimp only at htrain ⊢
      split at htrain
      · rename_i hsame
        cases htrain
        rw [if_pos hsame]
        exact .inl ⟨rfl, rfl⟩
      · rename_i hnew
        rw [if_neg hnew]
        exact .inr ⟨czoneIdx, oldPtr, _, rfl, rfl, htrain⟩

theorem Machine.step_sound (hs : m.ghb.Sound p m.history) (hpos : 0 < p.bufferN) {a : Access}
    (hstep : m.step p addto a = .ok m') : m'.ghb.Sound p m'.history := by
  cases Machine.step_cases hstep with
  | inl hsame =>
      rw [hsame.1, hsame.2]
      exact hs
  | inr hnew =>
      obtain ⟨czoneIdx, oldPtr, v, hczone, hhistory, hsearch⟩ := hnew
      rw [hhistory]
      exact (search_links hsearch).sound (hs.created hpos hczone a.cycleCount _)

/-- The search of an access ends within as many turns as the buffer has slots. -/
theorem Machine.train_turns (hs : m.ghb.Sound p m.history) (hpos : 0 < p.bufferN) (a : Access) (hturns : p.bufferN ≤ a.turns) :
    m.train p addto a = m.train p addto { a with turns := p.bufferN } := by
  unfold Machine.train prefGhbUl1Train
  dsimp only
  cases hczone : m.ghb.czone p a.lineAddr a.ul1Hit with
  | none => rfl
  | some found =>
      obtain ⟨czoneIdx, oldPtr⟩ := found
      dsimp only
      split
      · rfl
      · have hcreated := hs.created hpos hczone a.cycleCount (a.throttled.getD m.ghb.prefDegree)
        let t := m.ghb.created p czoneIdx a.lineAddr oldPtr a.cycleCount (a.throttled.getD m.ghb.prefDegree)
        have hnew : (m.history.add czoneIdx a.lineAddr).Live p.bufferN m.history.count :=
          ⟨Nat.lt_succ_self _, Nat.add_le_add_left hpos _⟩
        have hwhole := hcreated.follow_bufferN hnew
        have htail : t.ghbTail = (m.history.count % p.bufferN : ℕ) := hcreated.tail
        obtain ⟨n, hn⟩ := Nat.exists_eq_succ_of_ne_zero (Nat.pos_iff_ne_zero.mp hpos)
        have hend : t.follow n (t.entry t.ghbTail).ghbPtr = -1 := by
          rw [htail]
          rw [hn] at hwhole ⊢
          rw [PrefGhb.follow] at hwhole
          rwa [if_neg (by omega)] at hwhole
        change search p addto a.stray a.procId a.loadPC a.turns ⟨(t.entry t.ghbTail).ghbPtr, _, _, _, _, _, _, _⟩ t _ =
          search p addto a.stray a.procId a.loadPC p.bufferN ⟨(t.entry t.ghbTail).ghbPtr, _, _, _, _, _, _, _⟩ t _
        rw [search_turns hend (by omega), search_turns hend (by omega : n ≤ p.bufferN)]

variable (p addto)

/-- From any live entry the links lead to ever older live entries of the same index entry and zone, each
in its slot with its own miss, and end within as many steps as the buffer has slots, which is as many
turns as the search of any access needs. -/
theorem ghb_chain (hpos : 0 < p.bufferN) (hwpId : Uns8) (czoneTag : ℕ → Addr) (ghbPtr : ℕ → ℤ) (missIndex : ℕ → Addr)
    (queue : κ) (accesses : List Access)
    (hrun : (Machine.init p hwpId czoneTag ghbPtr missIndex queue).run p addto accesses = .ok m) :
    (∀ k, m.history.Live p.bufferN k →
      (∀ n, m.ghb.follow n (k % p.bufferN : ℕ) = -1 ∨ ∃ j, m.history.Live p.bufferN j ∧ j + n ≤ k ∧
        m.ghb.follow n (k % p.bufferN : ℕ) = (j % p.bufferN : ℕ) ∧
        (m.ghb.ghbBuffer (j % p.bufferN)).missIndex = m.history.line j >>> p.log2Line ∧
        m.history.idx j = m.history.idx k ∧ m.history.zone p j = m.history.zone p k) ∧
      m.ghb.follow p.bufferN (k % p.bufferN : ℕ) = -1) ∧
    ∀ a : Access, p.bufferN ≤ a.turns → m.train p addto a = m.train p addto { a with turns := p.bufferN } := by
  have hs : m.ghb.Sound p m.history :=
    Execution.run_invariant (I := fun m : Machine κ => m.ghb.Sound p m.history)
      (fun _ _ _ hs hstep => Machine.step_sound hs hpos hstep) (PrefGhb.Sound.init hwpId czoneTag ghbPtr missIndex) hrun
  refine ⟨fun k hk => ⟨fun n => ?_, hs.follow_bufferN hk⟩, fun a hturns => ?_⟩
  · cases hs.follow hk n with
    | inl hend => exact .inl hend
    | inr hmore =>
        obtain ⟨j, hlive, hle, heq, hidx, hzone⟩ := hmore
        exact .inr ⟨j, hlive, hle, heq, (hs.linked j hlive).missIndex, hidx, hzone⟩
  · exact Machine.train_turns hs hpos a hturns

/-- Five misses in two zones, in a buffer of four entries. -/
theorem ghb_chain_two_zones :
    ∃ m : Machine ℕ, (Machine.init ⟨4, 2, 12, 16, 32, 6, by decide⟩ 0 (fun _ => 0) (fun _ => 0) (fun _ => 0) 0).run
        ⟨4, 2, 12, 16, 32, 6, by decide⟩ (fun _ k => (true, k + 1))
        ([0x1000, 0x1040, 0x5000, 0x10C0, 0x5100].map fun lineAddr => ⟨0, lineAddr, 0, false, 0, none, fun _ => 0, 4⟩) = .ok m ∧
      m.history.count = 5 ∧ m.ghb.follow 4 (4 % 4 : ℕ) = -1 := by
  obtain ⟨m, hrun, hcount⟩ := Execution.map_eq_ok.mp (Execution.toOption_eq_some.mp (show
    ((fun m : Machine ℕ => m.history.count) <$>
      (Machine.init ⟨4, 2, 12, 16, 32, 6, by decide⟩ 0 (fun _ => 0) (fun _ => 0) (fun _ => 0) 0).run
        ⟨4, 2, 12, 16, 32, 6, by decide⟩ (fun _ k => (true, k + 1))
        ([0x1000, 0x1040, 0x5000, 0x10C0, 0x5100].map fun lineAddr =>
          ⟨0, lineAddr, 0, false, 0, none, fun _ => 0, 4⟩)).toOption = some 5 by decide +kernel))
  exact ⟨m, hrun, hcount, ((ghb_chain ⟨4, 2, 12, 16, 32, 6, by decide⟩ (fun _ k => (true, k + 1)) (by decide) 0
    (fun _ => 0) (fun _ => 0) (fun _ => 0) 0 _ hrun).1 4 (by
      rw [History.Live]
      rw [hcount]
      decide)).2⟩

end Scarab.Ghb
