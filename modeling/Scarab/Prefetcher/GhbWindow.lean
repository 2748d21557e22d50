import Mathlib.Data.List.Basic
import Scarab.Prefetcher.GhbTouches

/-! # The deltas of an access

Which places of the delta buffer an access touches follows from the links of the buffer before it: making
the new entry cuts only the link to its slot. -/

namespace Scarab.Ghb

variable {p : Params} {κ : Type} {addto : Ul1Queue κ} {size n : ℕ} {ds : List CInt} {s : PrefGhb} {stray : ℤ → CInt}
  {procId : Uns8} {loadPC : Addr} {v : Search} {queue : κ}

/-! ## The links before the access -/

variable {h : History} {idx slot turns : ℕ} {lineAddr czoneTag line : Addr} {oldPtr kept ptr : ℤ} {cycleCount : Uns}

/-- An entry that is linked back to another is the one that the other links to. -/
structure PrefGhb.Mirrored (s : PrefGhb) (h : History) : Prop where
  back : ∀ x y : ℕ, (s.ghbBuffer x).ghbReversePtr = y → (s.ghbBuffer y).ghbPtr = x
  low : ∀ x, -1 ≤ (s.ghbBuffer x).ghbReversePtr
  unused : ∀ x, h.count ≤ x → (s.ghbBuffer x).ghbPtr = -1

theorem PrefGhb.Mirrored.init (hwpId : Uns8) (czoneTag : ℕ → Addr) (ghbPtr : ℕ → ℤ) (missIndex : ℕ → Addr) :
    (prefGhbInit p hwpId czoneTag ghbPtr missIndex).Mirrored ⟨0, fun _ => 0, fun _ => 0⟩ where
  back := fun _ y hback => absurd hback (show (-1 : ℤ) ≠ y by omega)
  low := fun _ => Int.le_refl _
  unused := fun _ _ => rfl

theorem PrefGhb.SameLinks.mirrored (hsame : s.SameLinks s') (hmirrored : s.Mirrored h) : s'.Mirrored h := by
  obtain ⟨-, hbuffer, -⟩ := hsame
  constructor
  · rw [hbuffer]
    exact hmirrored.back
  · rw [hbuffer]
    exact hmirrored.low
  · rw [hbuffer]
    exact hmirrored.unused

/-- A new entry cuts the link to its slot, by the pointer back. -/
theorem create_ghbPtr (htail : (s.ghbTail + 1) % p.bufferN = slot) {x : ℕ} (hx : x ≠ slot) :
    ((prefGhbCreateNewentry p s idx lineAddr czoneTag oldPtr cycleCount).ghbBuffer x).ghbPtr =
      if (s.ghbBuffer slot).ghbReversePtr ≠ -1 ∧ x = (s.ghbBuffer slot).ghbReversePtr.toNat then -1
      else (s.ghbBuffer x).ghbPtr := by
  rw [create_eq p s idx lineAddr czoneTag _ cycleCount oldPtr rfl]
  dsimp only
  rw [PrefGhb.setIndex_ghbBuffer, PrefGhb.linkBack_slot, PrefGhb.placed_slot htail, Function.update_of_ne hx,
    PrefGhb.cutTail_slot, PrefGhb.moved_oldest htail]
  rfl

/-- The link to the slot of a new entry is cut, and no other one. -/
theorem PrefGhb.Sound.create_cut (hs : s.Sound p h) (hmirrored : s.Mirrored h) {k : ℕ} (hk : h.Live p.bufferN k)
    (hx : k % p.bufferN ≠ h.count % p.bufferN) :
    ((prefGhbCreateNewentry p s idx lineAddr czoneTag oldPtr cycleCount).ghbBuffer (k % p.bufferN)).ghbPtr =
      if ((h.count % p.bufferN : ℕ) : ℤ) = (s.ghbBuffer (k % p.bufferN)).ghbPtr then -1
      else (s.ghbBuffer (k % p.bufferN)).ghbPtr := by
  rw [create_ghbPtr hs.nextTail hx]
  have hlow := hmirrored.low (h.count % p.bufferN)
  by_cases hcut : (s.ghbBuffer (h.count % p.bufferN)).ghbReversePtr ≠ -1 ∧
      k % p.bufferN = (s.ghbBuffer (h.count % p.bufferN)).ghbReversePtr.toNat
  · rw [if_pos hcut, if_pos (hmirrored.back _ _ (by omega)).symm]
  · rw [if_neg hcut]
    split
    · rename_i hlink
      obtain ⟨j, _, _, heq, _, _, hrev⟩ := (hs.linked k hk).ghbPtr (by omega)
      have hsame : j % p.bufferN = h.count % p.bufferN := by omega
      rw [hsame] at hrev
      exact (hcut ⟨by omega, by omega⟩).elim
    · rfl

theorem PrefGhb.Mirrored.create (hmirrored : s.Mirrored h) (hs : s.Sound p h) (hpos : 0 < p.bufferN)
    (hold : oldPtr = -1 ∨ (s.indexTable idx).valid = true ∧ (s.indexTable idx).ghbPtr = oldPtr ∧
      (s.indexTable idx).czoneTag = lineAddr >>> p.czoneBits) :
    (prefGhbCreateNewentry p s idx lineAddr (lineAddr >>> p.czoneBits) oldPtr cycleCount).Mirrored (h.add idx lineAddr) := by
  let slot := h.count % p.bufferN
  let kept := if (slot : ℤ) = oldPtr then -1 else oldPtr
  have hlink (hsome : kept ≠ -1) : ∃ j : ℕ, kept = (j % p.bufferN : ℕ) := by
    obtain ⟨j, _, _, _, heq, _⟩ := hs.keeps_last hold rfl hsome
    exact ⟨j, heq⟩
  have hcreates : Creates p s idx lineAddr (lineAddr >>> p.czoneBits) kept slot
      (prefGhbCreateNewentry p s idx lineAddr (lineAddr >>> p.czoneBits) oldPtr cycleCount) := hs.creates hold cycleCount
  -- the entry that is overwritten links to nothing: what is older is gone
  have hoverwritten : (s.ghbBuffer slot).ghbPtr = -1 := by
    by_cases hfull : h.count < p.bufferN
    · exact hmirrored.unused slot (Nat.le_of_eq (Nat.mod_eq_of_lt hfull).symm)
    · by_contra hsome
      have hmod : (h.count - p.bufferN) % p.bufferN = slot := by
        rw [← Nat.mod_eq_sub_mod (by omega)]
      obtain ⟨j, hlt, hlive, _⟩ := (hs.linked (h.count - p.bufferN) ⟨by omega, by omega⟩).ghbPtr (by rwa [hmod])
      have hle := hlive.2
      omega
  have hptr {x : ℕ} (hx : x ≠ slot) :=
    @create_ghbPtr p s idx slot lineAddr (lineAddr >>> p.czoneBits) oldPtr cycleCount hs.nextTail x hx
  generalize prefGhbCreateNewentry p s idx lineAddr (lineAddr >>> p.czoneBits) oldPtr cycleCount = s' at hcreates hptr
  -- a pointer back, of another entry
  have hback {x : ℕ} (hx : x ≠ slot) : (∃ k : ℕ, x = k ∧ kept = k ∧ (s'.ghbBuffer x).ghbReversePtr = slot) ∨
      (s'.ghbBuffer x).ghbReversePtr = (s.ghbBuffer x).ghbReversePtr := by
    by_cases hkept : kept = -1 ∨ x ≠ kept.toNat
    · exact .inr (hcreates.reverse x hx hkept)
    · obtain ⟨hsome, hsame⟩ := not_or.mp hkept
      obtain ⟨j, heq⟩ := hlink hsome
      refine .inl ⟨x, rfl, by omega, ?_⟩
      have hrev := hcreates.back hsome
      rwa [← not_not.mp hsame] at hrev
  have hnew : (s'.ghbBuffer slot).ghbReversePtr = -1 := congrArg GhbEntry.ghbReversePtr hcreates.new
  constructor
  · intro x y hrev
    by_cases hx : x = slot
    · rw [hx] at hrev
      omega
    · cases hback hx with
      | inl hlast =>
          obtain ⟨k, rfl, hkept, hrev'⟩ := hlast
          obtain rfl : y = slot := by omega
          rw [hcreates.new]
          exact hkept
      | inr hsame =>
          have hlinked := hmirrored.back x y (hsame ▸ hrev)
          have hy : y ≠ slot := by
            intro hy
            rw [hy, hoverwritten] at hlinked
            omega
          rw [hptr hy, if_neg, hlinked]
          rintro ⟨hsome, hcut⟩
          have hlow := hmirrored.low slot
          have hover := hmirrored.back slot y (by omega)
          omega
  · intro x
    by_cases hx : x = slot
    · rw [hx]
      omega
    · cases hback hx with
      | inl hlast =>
          obtain ⟨_, _, _, hrev⟩ := hlast
          omega
      | inr hsame => exact hsame ▸ hmirrored.low x
  · intro x hx
    have hle : h.count + 1 ≤ x := hx
    have hslot : slot ≤ h.count := Nat.mod_le _ _
    rw [hptr (by omega)]
    split
    · rfl
    · exact hmirrored.unused x (by omega)

/-- The deltas of a new entry, in the links before it was made. -/
theorem PrefGhb.Sound.create_deltas (hs : s.Sound p h) (hmirrored : s.Mirrored h)
    (hold : oldPtr = -1 ∨ (s.indexTable idx).valid = true ∧ (s.indexTable idx).ghbPtr = oldPtr ∧
      (s.indexTable idx).czoneTag = lineAddr >>> p.czoneBits)
    (hptr : ptr ≠ -1 → ∃ k, h.Live p.bufferN k ∧ ptr = (k % p.bufferN : ℕ)) :
    (prefGhbCreateNewentry p s idx lineAddr (lineAddr >>> p.czoneBits) oldPtr cycleCount).deltas (-1) turns
        (if ((h.count % p.bufferN : ℕ) : ℤ) = ptr then -1 else ptr) line =
      s.deltas (h.count % p.bufferN : ℕ) turns ptr line := by
  induction turns generalizing ptr line with
  | zero => rfl
  | succ turns ih =>
      by_cases hend : ptr = -1 ∨ ptr = (h.count % p.bufferN : ℕ)
      · have hnone : (if ((h.count % p.bufferN : ℕ) : ℤ) = ptr then -1 else ptr) = -1 := by
          split
          · rfl
          · rename_i hne
            exact hend.resolve_right fun heq => hne heq.symm
        unfold PrefGhb.deltas
        rw [if_pos (.inl (.inl hnone)), if_pos (.inl hend)]
      · obtain ⟨hsome, hne⟩ := not_or.mp hend
        obtain ⟨k, hk, heq⟩ := hptr hsome
        have hslot : k % p.bufferN ≠ h.count % p.bufferN := fun hsame => hne (by rw [heq, hsame])
        have hmiss := (hs.creates hold cycleCount).missIndex _ hslot
        rw [if_neg (Ne.symm hne), heq]
        unfold PrefGhb.deltas PrefGhb.entry
        rw [Int.toNat_natCast, hmiss, hs.create_cut hmirrored hk hslot, ih fun hlink => ?_]
        · rw [← heq]
          simp only [hsome, hne, or_self]
        · obtain ⟨j, _, hlive, hlink', _⟩ := (hs.linked k hk).ghbPtr hlink
          exact ⟨j, hlive, hlink'⟩

/-- The deltas that an access searches. -/
theorem PrefGhb.Sound.created_deltas {ul1Hit : Bool} (hs : s.Sound p h) (hmirrored : s.Mirrored h)
    (hczone : s.czone p lineAddr ul1Hit = some (idx, oldPtr)) (cycleCount : Uns) (degree turns : ℕ) (line : Addr) :
    let t := s.created p idx lineAddr oldPtr cycleCount degree
    t.deltas (-1) turns (t.entry t.ghbTail).ghbPtr line = s.deltas ((s.ghbTail + 1) % p.bufferN) turns oldPtr line := by
  intro t
  have hdegree : s.SameLinks { s with prefDegree := degree } := ⟨rfl, rfl, rfl⟩
  have hbuffer (t : PrefGhb) : t.SameLinks { t with deltaBuffer := fun _ => 0 } := ⟨rfl, rfl, rfl⟩
  have hsound := hdegree.sound hs
  have hcreates := hsound.creates (czone_spec hczone) cycleCount
  have hkept : (t.entry t.ghbTail).ghbPtr = if ((h.count % p.bufferN : ℕ) : ℤ) = oldPtr then -1 else oldPtr := by
    have htail : t.ghbTail = (h.count % p.bufferN : ℕ) := hcreates.tail
    unfold PrefGhb.entry
    rw [htail, Int.toNat_natCast]
    exact congrArg GhbEntry.ghbPtr hcreates.new
  have hlast (hsome : oldPtr ≠ -1) : ∃ k, h.Live p.bufferN k ∧ oldPtr = (k % p.bufferN : ℕ) := by
    obtain ⟨hvalid, hptr, _⟩ := (czone_spec hczone).resolve_left hsome
    obtain ⟨j, hlive, _, _, hptr', _⟩ := hs.indexed idx hvalid
    exact ⟨j, hlive, hptr ▸ hptr'⟩
  rw [hkept, hs.nextTail]
  exact ((hbuffer _).deltas _ _ _ _).trans
    ((hsound.create_deltas (hdegree.mirrored hmirrored) (czone_spec hczone) hlast).trans (hdegree.deltas _ _ _ _))

/-! ## Every run -/

variable {m m' : Machine κ}

/-- The size of the delta buffer and the degree are the same. -/
structure PrefGhb.SameSettings (s s' : PrefGhb) : Prop where
  deltabSize : s'.deltabSize = s.deltabSize
  prefDegree : s'.prefDegree = s.prefDegree

theorem PrefGhb.SameSettings.trans {t : PrefGhb} (h : s.SameSettings s') (h' : s'.SameSettings t) : s.SameSettings t :=
  ⟨h'.deltabSize.trans h.deltabSize, h'.prefDegree.trans h.prefDegree⟩

theorem cutTail_settings : s.SameSettings (s.cutTail idx) := by
  unfold PrefGhb.cutTail
  dsimp only
  split
  · split <;> exact ⟨rfl, rfl⟩
  · split <;> exact ⟨rfl, rfl⟩

theorem linkBack_settings : s.SameSettings (s.linkBack kept) := by
  unfold PrefGhb.linkBack
  split <;> exact ⟨rfl, rfl⟩

theorem create_settings : s.SameSettings (prefGhbCreateNewentry p s idx lineAddr czoneTag oldPtr cycleCount) := by
  rw [create_eq p s idx lineAddr czoneTag _ cycleCount oldPtr rfl]
  have hmoved : s.SameSettings (s.moved p idx czoneTag cycleCount) := ⟨rfl, rfl⟩
  have hplaced (t : PrefGhb) (ptr : ℤ) (e : GhbEntry) : t.SameSettings (t.setEntry ptr e) := ⟨rfl, rfl⟩
  have hindexed (t : PrefGhb) (e : IndexTableEntry) : t.SameSettings (t.setIndex idx e) := ⟨rfl, rfl⟩
  exact (((hmoved.trans cutTail_settings).trans (hplaced _ _ _)).trans linkBack_settings).trans (hindexed _ _)

theorem searchTurn_settings {next : Option Search} {queue' : κ}
    (hturn : searchTurn p addto stray procId loadPC v s queue = .ok (next, s', queue')) : s.SameSettings s' := by
  unfold searchTurn Search.push Search.back at hturn
  dsimp only at hturn
  split at hturn
  · cases hturn
    exact ⟨rfl, rfl⟩
  · split at hturn
    · cases hturn
      exact ⟨rfl, rfl⟩
    · split at hturn
      · cases hturn
        exact ⟨rfl, rfl⟩
      · split at hturn
        · obtain ⟨mid, _, hret⟩ := Execution.bind_eq_ok.mp hturn
          cases hret
          exact ⟨rfl, rfl⟩
        · split at hturn
          · obtain ⟨mid, _, hret⟩ := Execution.bind_eq_ok.mp hturn
            cases hret
            exact ⟨rfl, rfl⟩
          · cases hturn
            exact ⟨rfl, rfl⟩

theorem search_settings {out : PrefGhb × κ} (hsearch : search p addto stray procId loadPC turns v s queue = .ok out) :
    s.SameSettings out.1 := by
  induction turns generalizing v s queue with
  | zero =>
      cases hsearch
      exact ⟨rfl, rfl⟩
  | succ turns ih =>
      unfold search at hsearch
      split at hsearch
      · obtain ⟨⟨next, s', queue'⟩, hturn, hrest⟩ := Execution.bind_eq_ok.mp hsearch
        have hsettings := searchTurn_settings hturn
        cases next with
        | some v' => exact hsettings.trans (ih hrest)
        | none =>
            cases hrest
            exact hsettings
      · cases hsearch
        exact ⟨rfl, rfl⟩

/-- What holds in every run. -/
structure Machine.Kept (p : Params) (m : Machine κ) : Prop where
  sound : m.ghb.Sound p m.history
  mirrored : m.ghb.Mirrored m.history
  size : m.ghb.deltabSize = p.maxDegree + 2

theorem Machine.Kept.init (hwpId : Uns8) (czoneTag : ℕ → Addr) (ghbPtr : ℕ → ℤ) (missIndex : ℕ → Addr)
    (queue : κ) :
    (Machine.init p hwpId czoneTag ghbPtr missIndex queue).Kept p where
  sound := PrefGhb.Sound.init hwpId czoneTag ghbPtr missIndex
  mirrored := PrefGhb.Mirrored.init hwpId czoneTag ghbPtr missIndex
  size := rfl

theorem created_settings (s : PrefGhb) (degree : ℕ) :
    (s.created p idx lineAddr oldPtr cycleCount degree).deltabSize = s.deltabSize ∧
      (s.created p idx lineAddr oldPtr cycleCount degree).prefDegree = degree := by
  have hsame := @create_settings p { s with prefDegree := degree } idx lineAddr (lineAddr >>> p.czoneBits) oldPtr cycleCount
  exact ⟨hsame.deltabSize, hsame.prefDegree⟩

theorem PrefGhb.Mirrored.created {ul1Hit : Bool} (hmirrored : s.Mirrored h) (hs : s.Sound p h) (hpos : 0 < p.bufferN)
    (hczone : s.czone p lineAddr ul1Hit = some (idx, oldPtr)) (cycleCount : Uns) (degree : ℕ) :
    (s.created p idx lineAddr oldPtr cycleCount degree).Mirrored (h.add idx lineAddr) := by
  have hdegree : s.SameLinks { s with prefDegree := degree } := ⟨rfl, rfl, rfl⟩
  have hbuffer (t : PrefGhb) : t.SameLinks { t with deltaBuffer := fun _ => 0 } := ⟨rfl, rfl, rfl⟩
  exact (hbuffer _).mirrored ((hdegree.mirrored hmirrored).create (hdegree.sound hs) hpos (czone_spec hczone))

theorem Machine.Kept.step (hkept : m.Kept p) (hpos : 0 < p.bufferN) {a : Access} (hstep : m.step p addto a = .ok m') :
    m'.Kept p := by
  obtain ⟨hsound, hmirrored, hsize⟩ := hkept
  refine ⟨Machine.step_sound hsound hpos hstep, ?_, ?_⟩
  · cases Machine.step_cases hstep with
    | inl hsame =>
        rw [hsame.1, hsame.2]
        exact hmirrored
    | inr hnew =>
        obtain ⟨czoneIdx, oldPtr, v, hczone, hhistory, hsearch⟩ := hnew
        rw [hhistory]
        exact (search_links hsearch).mirrored (hmirrored.created hsound hpos hczone a.cycleCount _)
  · cases Machine.step_cases hstep with
    | inl hsame =>
        rw [hsame.1]
        exact hsize
    | inr hnew =>
        obtain ⟨czoneIdx, oldPtr, v, hczone, hhistory, hsearch⟩ := hnew
        exact (search_settings hsearch).deltabSize.trans ((created_settings m.ghb _).1.trans hsize)

/-- The loop that zeroes the buffer writes every element. -/
theorem staysInside_iff {touches : List Touch} :
    StaysInside size ((List.range size).map (fun ii : ℕ => Touch.write ii) ++ touches) ↔ Within size touches := by
  have hzeros (i : ℤ) (hi : 0 ≤ i ∧ i < size) : Touch.write i ∈ (List.range size).map fun ii : ℕ => Touch.write ii :=
    List.mem_map.mpr ⟨i.toNat, List.mem_range.mpr (by omega), by rw [Int.toNat_of_nonneg hi.1]⟩
  constructor
  · intro hinside t ht
    exact hinside.index t (List.mem_append_right _ ht)
  · intro hwithin
    constructor
    · intro t ht
      cases List.mem_append.mp ht with
      | inl hzero =>
          obtain ⟨ii, hii, rfl⟩ := List.mem_map.mp hzero
          exact ⟨Int.natCast_nonneg ii, Int.ofNat_lt.mpr (List.mem_range.mp hii)⟩
      | inr hlater => exact hwithin t hlater
    · intro before i after heq
      cases List.append_eq_append_iff.mp heq with
      | inl hlonger =>
          obtain ⟨rest, rfl, hrest⟩ := hlonger
          have hread : Touch.read i ∈ touches := hrest ▸ List.mem_append_right rest List.mem_cons_self
          exact List.mem_append_left rest (hzeros i (hwithin _ hread))
      | inr hshorter =>
          obtain ⟨rest, hrest, htail⟩ := hshorter
          cases rest with
          | nil =>
              rw [List.append_nil] at hrest
              have hread : Touch.read i ∈ touches := by
                rw [List.nil_append] at htail
                exact htail ▸ List.mem_cons_self
              exact hrest ▸ hzeros i (hwithin _ hread)
          | cons t rest =>
              -- the loop reads nothing
              have hmem : t ∈ (List.range size).map fun ii : ℕ => Touch.write ii :=
                hrest ▸ List.mem_append_right before List.mem_cons_self
              obtain ⟨ii, _, rfl⟩ := List.mem_map.mp hmem
              cases htail

theorem staysInside_nil : StaysInside size [] :=
  ⟨fun t ht => absurd ht List.not_mem_nil, fun before i after heq => absurd heq (by simp)⟩

/-- The search of a new entry stays in the ring exactly if it asks for nothing or the first two deltas
come again in time. -/
theorem Machine.Kept.searchTouches_within {a : Access} {czoneIdx : ℕ} (hkept : m.Kept p)
    (hczone : m.ghb.czone p a.lineAddr a.ul1Hit = some (czoneIdx, oldPtr)) (degree : ℕ) :
    let lineIndex := a.lineAddr >>> p.log2Line
    let t := m.ghb.created p czoneIdx a.lineAddr oldPtr a.cycleCount degree
    Within (p.maxDegree + 2) (searchTouches p addto a.stray a.procId a.loadPC a.turns
        ⟨(t.entry t.ghbTail).ghbPtr, lineIndex, lineIndex, 0, 0, 0, -1, 0⟩ t m.queue) ↔
      (degree ≠ 0 → RepeatsInTime (p.maxDegree + 2)
        (m.ghb.deltas ((m.ghb.ghbTail + 1) % p.bufferN) a.turns oldPtr lineIndex)) := by
  intro lineIndex t
  have htsize : t.deltabSize = p.maxDegree + 2 := (created_settings m.ghb degree).1.trans hkept.size
  have htdegree : t.prefDegree = degree := (created_settings m.ghb degree).2
  by_cases hdegree : degree = 0
  · refine iff_of_true ?_ fun hne => (hne hdegree).elim
    cases a.turns with
    | zero => exact within_nil
    | succ turns =>
        unfold searchTouches
        rw [if_neg fun hcond => Nat.not_lt_zero _ (hdegree ▸ htdegree ▸ hcond.2)]
        exact within_nil
  · let ds := t.deltas (-1) a.turns (t.entry t.ghbTail).ghbPtr lineIndex
    let v : Search := ⟨(t.entry t.ghbTail).ghbPtr, lineIndex, lineIndex, 0, 0, 0, -1, 0⟩
    have hafter : v.After t ds 0 :=
      ⟨rfl, fun hne => (hne rfl).elim, rfl, .none rfl rfl fun k hk => (Nat.not_lt_zero k hk).elim⟩
    have hsearch := @Ghb.searchTouches_within p κ addto 0 ds t a.stray a.procId a.loadPC v m.queue a.turns rfl hafter
      (by omega) (by rwa [htdegree])
    have hds : ds = m.ghb.deltas ((m.ghb.ghbTail + 1) % p.bufferN) a.turns oldPtr lineIndex :=
      hkept.sound.created_deltas hkept.mirrored hczone a.cycleCount degree a.turns _
    rw [htsize, placesOk_iff, hds] at hsearch
    exact hsearch.trans ⟨fun hok _ => hok, fun hok => hok hdegree⟩

variable (p addto)

/-- In every run, the next access touches only elements of the delta buffer, and reads only what it wrote,
exactly if it makes no entry, asks for nothing, or the first two deltas of its chain are equal or come
again before the chain is compared at a multiple of the buffer's size. -/
theorem touches_staysInside_iff (hpos : 0 < p.bufferN) (hwpId : Uns8) (czoneTag : ℕ → Addr) (ghbPtr : ℕ → ℤ)
    (missIndex : ℕ → Addr) (queue : κ) (accesses : List Access)
    (hrun : (Machine.init p hwpId czoneTag ghbPtr missIndex queue).run p addto accesses = .ok m) (a : Access) :
    StaysInside (p.maxDegree + 2) (m.touches p addto a) ↔ m.ghb.InWindow p a := by
  have hkept : m.Kept p :=
    Execution.run_invariant (I := fun m : Machine κ => m.Kept p) (fun _ _ _ hkept hstep => hkept.step hpos hstep)
      (Machine.Kept.init hwpId czoneTag ghbPtr missIndex queue) hrun
  unfold Machine.touches PrefGhb.InWindow
  dsimp only
  cases hczone : m.ghb.czone p a.lineAddr a.ul1Hit with
  | none => exact iff_of_true staysInside_nil fun _ _ hsome => by cases hsome
  | some found =>
      obtain ⟨czoneIdx, oldPtr⟩ := found
      dsimp only
      split
      · rename_i hsame
        refine iff_of_true staysInside_nil fun _ _ hsome hnew => ?_
        cases hsome
        exact (hnew hsame).elim
      · rename_i hnew
        have hsize := (@created_settings p czoneIdx a.lineAddr oldPtr a.cycleCount m.ghb
          (a.throttled.getD m.ghb.prefDegree)).1.trans hkept.size
        rw [hsize, staysInside_iff]
        refine (hkept.searchTouches_within hczone (a.throttled.getD m.ghb.prefDegree)).trans ?_
        constructor
        · rintro hone _ _ hsome -
          cases hsome
          exact hone
        · intro hall
          exact hall czoneIdx oldPtr rfl hnew

/-- A miss in a line. -/
def Access.miss (line : ℕ) : Access := ⟨0, BitVec.ofNat 64 (64 * line), 0, false, 0, none, fun _ => 0, 1024⟩

/-- A run of the default settings that misses in lines of the first core. -/
def Machine.misses (lines : List ℕ) : Except String (Machine ℕ) :=
  (Machine.init Params.default 0 (fun _ => 0) (fun _ => 0) (fun _ => 0) 0).run Params.default (fun _ k => (true, k + 1))
    (lines.map Access.miss)

/-- After five misses in a zone the sixth has five deltas, for a ring of 34. -/
theorem touches_staysInside_iff_short : ∃ m, Machine.misses [64, 67, 70, 73, 75] = .ok m ∧
    StaysInside 34 (m.touches Params.default (fun _ k => (true, k + 1)) (Access.miss 76)) := by
  have hrun : ((fun m : Machine ℕ => decide (m.ghb.czone Params.default (64 * 76) false = some (0, 4)) &&
      decide ((m.ghb.deltas ((m.ghb.ghbTail + 1) % 1024) 1024 4 76).length ≤ 34)) <$>
      Machine.misses [64, 67, 70, 73, 75]).toOption = some true := by
    decide +kernel
  obtain ⟨m, hm, hobs⟩ := Execution.map_eq_ok.mp (Execution.toOption_eq_some.mp hrun)
  rw [Bool.and_eq_true] at hobs
  obtain ⟨hczone, hlength⟩ := hobs
  refine ⟨m, hm, (touches_staysInside_iff Params.default (fun _ k => (true, k + 1)) (by decide) 0 (fun _ => 0)
    (fun _ => 0) (fun _ => 0) 0 _ hm (Access.miss 76)).mpr fun czoneIdx oldPtr hsome _ _ => ?_⟩
  rw [show m.ghb.czone Params.default (Access.miss 76).lineAddr (Access.miss 76).ul1Hit = some (0, 4) from
    of_decide_eq_true hczone] at hsome
  cases hsome
  exact .of_length (of_decide_eq_true hlength)

/-- 34 misses in two lines by turns, then two more in the zone: the search compares at the place 0 again. -/
theorem touches_leave_ring : ∃ m, Machine.misses ((List.range 34).map (fun i => 94 + 3 * (i % 2)) ++ [99]) = .ok m ∧
    ¬ StaysInside 34 (m.touches Params.default (fun _ k => (true, k + 1)) (Access.miss 100)) := by
  have hrun : ((fun m : Machine ℕ => decide (Touch.read (-1) ∈
      m.touches Params.default (fun _ k => (true, k + 1)) (Access.miss 100))) <$>
      Machine.misses ((List.range 34).map (fun i => 94 + 3 * (i % 2)) ++ [99])).toOption = some true := by
    decide +kernel
  obtain ⟨m, hm, hobs⟩ := Execution.map_eq_ok.mp (Execution.toOption_eq_some.mp hrun)
  refine ⟨m, hm, fun hinside => ?_⟩
  have hlow : (0 : ℤ) ≤ -1 := (hinside.index _ (of_decide_eq_true hobs)).1
  omega

end Scarab.Ghb
